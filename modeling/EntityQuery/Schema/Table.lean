import EntityQuery.Types.DataType
import EntityQuery.Value.Basic

/-!
Statements that define tables, and their text.

* A column that the database numbers shows the dialect's identity clause and nothing after it.
* Defaults are written out; they are never parameters.
-/

namespace EntityQuery.Schema

/-- The name of a table, in a schema if one is given. -/
structure TableName where
  schema : Option String := none
  name : String
  deriving DecidableEq, Repr, Inhabited

def TableName.text (d : Dialect) (t : TableName) : String :=
  match t.schema with
  | some schema => d.quote schema ++ "." ++ d.quote t.name
  | none => d.quote t.name

/-- A column that another column refers to. -/
structure Reference where
  table : TableName
  column : String
  deriving DecidableEq, Repr, Inhabited

/-- A column; by itself it takes no nulls. -/
structure ColumnDef where
  name : String
  type : DataType
  maxLength : Option Nat := none
  nullable : Bool := false
  isKey : Bool := false
  /-- Whether the database numbers the column. -/
  isIdentity : Bool := false
  default : Option Value := none
  references : Option Reference := none
  deriving Repr, Inhabited

inductive Constraint where
  | primaryKey (columns : List String)
  | foreignKey (columns : List String) (table : TableName) (referenced : List String)
  deriving DecidableEq, Repr, Inhabited

inductive Change where
  | addColumn (c : ColumnDef)
  | addConstraint (c : Constraint)
  deriving Repr, Inhabited

/-- A statement that defines or changes a table. -/
inductive Definition where
  | create (table : TableName) (columns : List ColumnDef) (constraints : List Constraint)
  | alter (table : TableName) (changes : List Change)
  deriving Repr, Inhabited

/-! ### Text -/

/-- A truth value as a default. -/
def boolLiteral (d : Dialect) (b : Bool) : String :=
  match d with
  | .postgres | .mySql => if b then "TRUE" else "FALSE"
  | .sqlServer | .db2 => if b then "1" else "0"

/-- The quote around texts. -/
def singleQuote : Char := Char.ofNat 0x27

/-- A value as a default; a text stands in single quotes, with those inside it doubled. -/
def literal (d : Dialect) : Value → String
  | .null => "NULL"
  | .int i => toString i.toInt
  | .float x => x.text
  | .boolean b => boolLiteral d b
  | v => "'" ++ String.ofList (Text.doubled singleQuote (v.toText?.getD "").toList) ++ "'"

/-- Quoted names in parentheses. -/
def nameList (d : Dialect) (names : List String) : String :=
  "(" ++ Text.joinWith ", " (names.map d.quote) ++ ")"

def referenceText (d : Dialect) (table : TableName) (columns : List String) : String :=
  "REFERENCES " ++ table.text d ++ " " ++ nameList d columns

namespace ColumnDef

/-- What follows the type of a column that the database does not number. -/
def modifiers (d : Dialect) (c : ColumnDef) : String :=
  (if c.isKey then " PRIMARY KEY" else "") ++ (if c.nullable then "" else " NOT NULL") ++
    (match c.default with
      | some v => " DEFAULT " ++ literal d v
      | none => "") ++
    match c.references with
    | some r => " " ++ referenceText d r.table [r.column]
    | none => ""

def text (d : Dialect) (c : ColumnDef) : String :=
  d.quote c.name ++ " " ++ c.type.sqlType d c.maxLength ++
    if c.isIdentity then d.identityClause else c.modifiers d

end ColumnDef

def Constraint.text (d : Dialect) : Constraint → String
  | .primaryKey columns => "PRIMARY KEY " ++ nameList d columns
  | .foreignKey columns table referenced =>
    "FOREIGN KEY " ++ nameList d columns ++ " " ++ referenceText d table referenced

def Change.text (d : Dialect) : Change → String
  | .addColumn c => d.addColumnKeyword ++ " " ++ c.text d
  | .addConstraint c => "ADD " ++ c.text d

/-- The text of a definition. -/
def Definition.text (d : Dialect) : Definition → String
  | .create table columns constraints =>
    let lines := columns.map (ColumnDef.text d) ++ constraints.map (Constraint.text d)
    "CREATE TABLE " ++ table.text d ++ " (" ++ Text.joinWith "," (lines.map ("\n\t" ++ ·)) ++ "\n)"
  | .alter table changes =>
    "ALTER TABLE " ++ table.text d ++ " " ++ Text.joinWith ", " (changes.map (Change.text d))

end EntityQuery.Schema
