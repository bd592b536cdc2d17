import EntityQuery.Text.Split

/-!
The four SQL dialects and what is lexical about them: how names are quoted, parameters marked,
texts concatenated and results paged.

* Statements have one layout; a dialect answers questions about single marks and clauses.
* `ofText?` reads a dialect's name in any case, `ofCode?` only in the spellings of stored
  configurations.
-/

namespace EntityQuery

inductive Dialect where
  | postgres
  | mySql
  | sqlServer
  | db2
  deriving DecidableEq, Repr, Inhabited

/-- The statement form of an update or delete that reads other tables. -/
inductive WriteStyle where
  /-- `UPDATE t AS a SET .. WHERE a.id IN (SELECT ..)` -/
  | subquery
  /-- `UPDATE t AS a INNER JOIN .. SET a.c = ..`, `DELETE a FROM t AS a ..` -/
  | joinedTarget
  /-- `UPDATE a SET c = .. FROM t AS a ..`, `DELETE a FROM t AS a ..` -/
  | fromClause
  deriving DecidableEq, Repr

namespace Dialect

def all : List Dialect := [.postgres, .mySql, .sqlServer, .db2]

/-! ### Names of the dialects -/

/-- The name in configurations and messages. -/
def code : Dialect → String
  | .postgres => "postgres"
  | .mySql => "mysql"
  | .sqlServer => "sqlserver"
  | .db2 => "db2"

/-- The name of the product. -/
def title : Dialect → String
  | .postgres => "PostgreSQL"
  | .mySql => "MySQL"
  | .sqlServer => "SQL Server"
  | .db2 => "DB2"

/-- The dialect of a name or one of its synonyms, in lower case. -/
def ofCode? (s : String) : Option Dialect :=
  if s = "postgres" ∨ s = "pg" ∨ s = "postgresql" then some .postgres
  else if s = "mysql" ∨ s = "mariadb" then some .mySql
  else if s = "sqlserver" ∨ s = "mssql" then some .sqlServer
  else if s = "db2" ∨ s = "iseries" then some .db2
  else none

/-- The dialect of a name in any case. ASCII case is enough: no letter of the names is the lower
case form of a character outside ASCII. -/
def ofText? (s : String) : Option Dialect := ofCode? (String.ofList (s.toList.map Char.toLower))

/-! ### Marks -/

def openQuote : Dialect → Char
  | .mySql => Char.ofNat 0x60
  | .sqlServer => '['
  | .postgres | .db2 => '"'

def closeQuote : Dialect → Char
  | .mySql => Char.ofNat 0x60
  | .sqlServer => ']'
  | .postgres | .db2 => '"'

/-- A name in quotes; a closing quote inside it is written twice. -/
def quote (d : Dialect) (name : String) : String :=
  String.ofList (d.openQuote :: Text.doubled d.closeQuote name.toList ++ [d.closeQuote])

/-- The mark of the parameter at a position, counted from zero. -/
def placeholder (d : Dialect) (index : Nat) : String :=
  match d with
  | .postgres => "$" ++ toString (index + 1)
  | .sqlServer => "@P" ++ toString (index + 1)
  | .mySql | .db2 => "?"

/-- What stands before, between and after the two operands of a concatenation. -/
def concatMarks : Dialect → String × String × String
  | .mySql => ("CONCAT(", ", ", ")")
  | .sqlServer => ("(", " + ", ")")
  | .postgres | .db2 => ("(", " || ", ")")

/-- Whether a parameter whose type the server cannot infer has to state it. -/
def typesParameters : Dialect → Bool
  | .postgres | .db2 => true
  | .mySql | .sqlServer => false

/-! ### Clauses -/

/-- What follows the type of a key column that the database numbers. -/
def identityClause : Dialect → String
  | .postgres => " GENERATED BY DEFAULT AS IDENTITY PRIMARY KEY"
  | .mySql => " NOT NULL AUTO_INCREMENT PRIMARY KEY"
  | .sqlServer => " NOT NULL IDENTITY PRIMARY KEY"
  | .db2 => " NOT NULL GENERATED ALWAYS AS IDENTITY (START WITH 1 INCREMENT BY 1) PRIMARY KEY"

/-- The row limit right after `SELECT`. -/
def topClause (d : Dialect) (skip take : Option Nat) : Option String :=
  match d, skip, take with
  | .sqlServer, none, some n => some ("TOP (" ++ toString n ++ ")")
  | _, _, _ => none

/-- The limit that stands for all remaining rows where an offset needs a limit. -/
def unboundedLimit : Nat := UInt64.size - 1

/-- The paging clauses at the end of a query. -/
def paging (d : Dialect) (skip take : Option Nat) (ordered : Bool) : String :=
  let part (before : String) (n : Option Nat) (after : String) : String :=
    match n with
    | some n => before ++ toString n ++ after
    | none => ""
  match d with
  | .postgres => part " LIMIT " take "" ++ part " OFFSET " skip ""
  | .mySql =>
    if skip.isNone && take.isNone then ""
    else " LIMIT " ++ toString (take.getD unboundedLimit) ++ part " OFFSET " skip ""
  | .sqlServer =>
    if skip.isNone then ""
    else (if ordered then "" else " ORDER BY (SELECT NULL)") ++ part " OFFSET " skip " ROWS" ++
      part " FETCH NEXT " take " ROWS ONLY"
  | .db2 => part " OFFSET " skip " ROWS" ++ part " FETCH FIRST " take " ROWS ONLY"

/-- The table to select from where a query needs none. -/
def dummyTable : Dialect → Option String
  | .db2 => some "SYSIBM.SYSDUMMY1"
  | _ => none

def writeStyle : Dialect → WriteStyle
  | .mySql => .joinedTarget
  | .sqlServer => .fromClause
  | .postgres | .db2 => .subquery

def addColumnKeyword : Dialect → String
  | .sqlServer => "ADD"
  | _ => "ADD COLUMN"

end Dialect

end EntityQuery
