import EntityQuery.Value.Binary64

/-!
JSON values. An object keeps its fields as they were written, repetitions included; `normal` is the
form in which documents are stored: fields in the order of their names, the last of several fields
of one name.

* An integer is a number from `-2 ^ 63` up to `2 ^ 64 - 1` that was written without point and
  exponent; every other number is a double.
* `equals` compares two documents, integers with integers and doubles with doubles.
* A record is an object with its fields, or an array of them in the order of declaration. Fields
  that the record does not have are ignored.
* An alternative is an object whose only field names it and holds its content; one without content
  may also be its bare name.
-/

namespace EntityQuery

/-- A JSON value. -/
inductive Json where
  | null
  | bool (b : Bool)
  | int (i : Int)
  | float (x : Binary64)
  | str (s : String)
  | arr (items : List Json)
  | obj (fields : List (String × Json))
  deriving Repr, Inhabited

namespace Json

/-! ### Looking inside -/

/-- The value of the first field of that name. -/
def lookup (name : String) : List (String × Json) → Option Json
  | [] => none
  | (key, value) :: rest => if key = name then some value else lookup name rest

/-- The value of an object's field. -/
def get? (j : Json) (name : String) : Option Json :=
  match j with
  | .obj fields => lookup name fields
  | _ => none

def str? : Json → Option String
  | .str s => some s
  | _ => none

def bool? : Json → Option Bool
  | .bool b => some b
  | _ => none

def arr? : Json → Option (List Json)
  | .arr items => some items
  | _ => none

def int? : Json → Option Int
  | .int i => some i
  | _ => none

def nat? : Json → Option Nat
  | .int (.ofNat n) => some n
  | _ => none

/-! ### Nesting -/

mutual
/-- How deeply arrays and objects are nested. -/
def depth : Json → Nat
  | .arr items => depthItems items + 1
  | .obj fields => depthFields fields + 1
  | _ => 1

def depthItems : List Json → Nat
  | [] => 0
  | j :: rest => max (depth j) (depthItems rest)

def depthFields : List (String × Json) → Nat
  | [] => 0
  | (_, j) :: rest => max (depth j) (depthFields rest)
end

/-! ### Equality -/

mutual
/-- Equality of documents. -/
def equals : Json → Json → Bool
  | .null, .null => true
  | .bool a, .bool b => a == b
  | .int a, .int b => a == b
  | .float a, .float b => a.equals b
  | .str a, .str b => a == b
  | .arr a, .arr b => equalItems a b
  | .obj a, .obj b => equalFields a b
  | _, _ => false

def equalItems : List Json → List Json → Bool
  | [], [] => true
  | a :: as, b :: bs => equals a b && equalItems as bs
  | _, _ => false

def equalFields : List (String × Json) → List (String × Json) → Bool
  | [], [] => true
  | (k, a) :: as, (l, b) :: bs => k == l && equals a b && equalFields as bs
  | _, _ => false
end

/-! ### The stored form -/

/-- Puts a field in its place among fields ordered by name, over one of the same name. -/
def insertField (name : String) (value : Json) : List (String × Json) → List (String × Json)
  | [] => [(name, value)]
  | (key, old) :: rest =>
    if name < key then (name, value) :: (key, old) :: rest
    else if name = key then (name, value) :: rest
    else (key, old) :: insertField name value rest

mutual
/-- Fields in the order of their names, the last of several fields of one name. -/
def normal : Json → Json
  | .arr items => .arr (normalItems items)
  | .obj fields => .obj (normalFields [] fields)
  | j => j

def normalItems : List Json → List Json
  | [] => []
  | j :: rest => normal j :: normalItems rest

def normalFields (done : List (String × Json)) : List (String × Json) → List (String × Json)
  | [] => done
  | (name, value) :: rest => normalFields (insertField name (normal value) done) rest
end

end Json

end EntityQuery

/-! ### Reading records and alternatives from JSON -/

namespace EntityQuery.Json

/-- The name of an alternative and what stands behind it. -/
def tagged? : Json → Option (String × Option Json)
  | .str name => some (name, none)
  | .obj [(name, content)] => some (name, some content)
  | _ => none

/-- Whether what stands behind the name of an alternative is no content. -/
def isBare : Option Json → Bool
  | none | some .null => true
  | _ => false

/-- The contents of an object's fields, by the names of the fields. -/
def fields? (names : List String) : Json → Option (List Json)
  | .obj fields => names.mapM (lookup · fields)
  | _ => none

/-- The contents of a record's fields. -/
def record? (names : List String) : Json → Option (List Json)
  | .arr items => if items.length = names.length then some items else none
  | j => j.fields? names

/-- The items of an array, each read by `read`. -/
def list? {α : Type} (read : Json → Option α) : Json → Option (List α)
  | .arr items => items.mapM read
  | _ => none

/-- An array of exactly two items. -/
def pair? {α β : Type} (first : Json → Option α) (second : Json → Option β) :
    Json → Option (α × β)
  | .arr [a, b] => do return (← first a, ← second b)
  | _ => none

/-- An optional value, written as null where it is missing. -/
def nullable? {α : Type} (read : Json → Option α) : Json → Option (Option α)
  | .null => some none
  | j => (read j).map some

/-- An optional value as null or itself. -/
def ofOption : Option Json → Json
  | none => .null
  | some j => j

end EntityQuery.Json
