import EntityQuery.Dialect

/-!
Column types and their names in the dialects.

* A type that takes a length shows the one it is given, or the dialect's own where a column
  without a length is refused.
-/

namespace EntityQuery

inductive DataType where
  | boolean
  | short
  | int
  | long
  | decimal
  | float
  | double
  | char
  | varChar
  | string
  | date
  | time
  | timestamp
  | uuid
  | bytea
  | json
  | custom (name : String)
  deriving DecidableEq, Repr, Inhabited

namespace DataType

/-- The types that are not custom. -/
def plain : List DataType :=
  [.boolean, .short, .int, .long, .decimal, .float, .double, .char, .varChar, .string, .date,
    .time, .timestamp, .uuid, .bytea, .json]

/-- The name of a type, independent of a dialect. -/
def text : DataType → String
  | .boolean => "Boolean"
  | .short => "Short"
  | .int => "Int"
  | .long => "Long"
  | .decimal => "Decimal"
  | .float => "Float"
  | .double => "Double"
  | .char => "Char"
  | .varChar => "VarChar"
  | .string => "String"
  | .date => "Date"
  | .time => "Time"
  | .timestamp => "Timestamp"
  | .uuid => "Uuid"
  | .bytea => "Bytea"
  | .json => "Json"
  | .custom name => name

/-- The plain type of a name. -/
def ofText? (s : String) : Option DataType := plain.find? fun t => t.text = s

/-- The SQL name of a type, without a length. -/
def sqlName (d : Dialect) : DataType → String
  | .boolean =>
    match d with
    | .postgres | .mySql => "BOOLEAN"
    | .sqlServer => "BIT"
    | .db2 => "SMALLINT"
  | .short => "SMALLINT"
  | .int => if d = .mySql then "INT" else "INTEGER"
  | .long => "BIGINT"
  | .decimal => "DECIMAL"
  | .float => if d = .mySql then "FLOAT" else "REAL"
  | .double =>
    match d with
    | .postgres => "DOUBLE PRECISION"
    | .sqlServer => "FLOAT"
    | .mySql | .db2 => "DOUBLE"
  | .char =>
    match d with
    | .postgres | .mySql => "CHAR"
    | .sqlServer | .db2 => "NCHAR"
  | .varChar =>
    match d with
    | .postgres | .mySql => "VARCHAR"
    | .sqlServer | .db2 => "NVARCHAR"
  | .string =>
    match d with
    | .postgres | .mySql => "TEXT"
    | .sqlServer => "NVARCHAR(MAX)"
    | .db2 => "CLOB"
  | .date => "DATE"
  | .time => "TIME"
  | .timestamp =>
    match d with
    | .postgres | .db2 => "TIMESTAMP"
    | .mySql => "DATETIME"
    | .sqlServer => "DATETIME2"
  | .uuid =>
    match d with
    | .postgres => "UUID"
    | .sqlServer => "UNIQUEIDENTIFIER"
    | .mySql | .db2 => "CHAR(36)"
  | .bytea =>
    match d with
    | .postgres => "BYTEA"
    | .sqlServer => "VARBINARY(MAX)"
    | .mySql | .db2 => "BLOB"
  | .json =>
    match d with
    | .postgres => "JSONB"
    | .mySql => "JSON"
    | .sqlServer => "NVARCHAR(MAX)"
    | .db2 => "CLOB"
  | .custom name => name

/-- Whether a length may follow the name. -/
def takesLength : DataType → Bool
  | .varChar | .char => true
  | _ => false

/-- The length of a text column that declares none. -/
def defaultLength (d : Dialect) : DataType → Option Nat
  | .varChar =>
    match d with
    | .mySql => some 255
    | .sqlServer | .db2 => some 100
    | .postgres => none
  | _ => none

def isInteger : DataType → Bool
  | .short | .int | .long => true
  | _ => false

def isTextual : DataType → Bool
  | .char | .varChar | .string => true
  | _ => false

/-- The SQL type of a column with an optional length. -/
def sqlType (d : Dialect) (t : DataType) (maxLength : Option Nat) : String :=
  match maxLength <|> t.defaultLength d with
  | some n => if t.takesLength then t.sqlName d ++ "(" ++ toString n ++ ")" else t.sqlName d
  | none => t.sqlName d

end DataType

/-- A value of a stated type. -/
def Dialect.cast (d : Dialect) (e : String) (t : DataType) : String :=
  match d with
  | .postgres => e ++ "::" ++ t.sqlType d none
  | _ => "CAST(" ++ e ++ " AS " ++ t.sqlType d none ++ ")"

end EntityQuery
