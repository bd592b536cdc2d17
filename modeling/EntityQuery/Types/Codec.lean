import EntityQuery.Json.Basic
import EntityQuery.Types.TypeRef

/-!
The stored form of types and properties.
-/

namespace EntityQuery

namespace DataType

def toJson : DataType → Json
  | .custom name => .obj [("Custom", .str name)]
  | t => .str t.text

def ofJson? (j : Json) : Option DataType :=
  match j.tagged? with
  | some ("Custom", some content) => content.str?.map .custom
  | some (name, content) => if Json.isBare content then ofText? name else none
  | none => none

end DataType

namespace TypeRef

def toJson : TypeRef → Json
  | .scalar t nullable =>
    .obj [("Scalar", .obj [("data_type", t.toJson), ("nullable", .bool nullable)])]
  | .entity name => .obj [("Entity", .str name)]
  | .collection t => .obj [("Collection", toJson t)]
  | .query t => .obj [("Query", toJson t)]
  | .grouping k t => .obj [("Grouping", .obj [("key", toJson k), ("element", toJson t)])]
  | .object name => .obj [("Object", .str name)]

/-- Reads a type nested less than `fuel` deep. -/
def ofJsonWithin : Nat → Json → Option TypeRef
  | 0, _ => none
  | fuel + 1, .obj [(name, content)] =>
    match name with
    | "Scalar" => do
      match ← content.fields? ["data_type", "nullable"] with
      | [t, nullable] => return .scalar (← DataType.ofJson? t) (← nullable.bool?)
      | _ => none
    | "Entity" => content.str?.map .entity
    | "Object" => content.str?.map .object
    | "Collection" => (ofJsonWithin fuel content).map .collection
    | "Query" => (ofJsonWithin fuel content).map .query
    | "Grouping" => do
      match ← content.fields? ["key", "element"] with
      | [k, t] => return .grouping (← ofJsonWithin fuel k) (← ofJsonWithin fuel t)
      | _ => none
    | _ => none
  | _ + 1, _ => none

def ofJson? (j : Json) : Option TypeRef := ofJsonWithin j.depth j

end TypeRef

namespace PropertyRef

def toJson (p : PropertyRef) : Json :=
  .obj [("owner", .str p.owner), ("name", .str p.name), ("ty", p.type.toJson)]

def ofJson? (j : Json) : Option PropertyRef := do
  match ← j.record? ["owner", "name", "ty"] with
  | [owner, name, type] => return ⟨← owner.str?, ← name.str?, ← TypeRef.ofJson? type⟩
  | _ => none

end PropertyRef

/-- A dialect in a configuration. -/
def Dialect.ofJson? (j : Json) : Option Dialect :=
  match j.tagged? with
  | some (name, content) => if Json.isBare content then ofCode? name else none
  | none => none

end EntityQuery
