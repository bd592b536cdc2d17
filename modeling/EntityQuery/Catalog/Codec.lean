import EntityQuery.Catalog.Entity
import EntityQuery.Types.Codec

/-!
The stored form of entity mappings.
-/

namespace EntityQuery

namespace PropertyKind

def toJson : PropertyKind → Json
  | .scalar t nullable maxLength =>
    .obj [("Scalar", .obj [("data_type", t.toJson), ("nullable", .bool nullable),
      ("max_length", .ofOption (maxLength.map fun n => .int n))])]
  | .reference target => .obj [("Reference", .obj [("target", .str target)])]
  | .collection target => .obj [("Collection", .obj [("target", .str target)])]
  | .manyToMany target link ownerColumn targetColumn =>
    .obj [("ManyToMany", .obj [("target", .str target), ("link_table", .str link),
      ("owner_column", .str ownerColumn), ("target_column", .str targetColumn)])]

/-- A length, which may be missing. -/
def maxLength? (content : Json) : Option (Option Nat) :=
  (content.get? "max_length").elim (some none) (Json.nullable? Json.nat?)

def ofJson? : Json → Option PropertyKind
  | .obj [("Scalar", content)] => do
    match ← content.fields? ["data_type", "nullable"] with
    | [t, nullable] =>
      return .scalar (← DataType.ofJson? t) (← nullable.bool?) (← maxLength? content)
    | _ => none
  | .obj [("Reference", content)] => ((content.get? "target").bind Json.str?).map .reference
  | .obj [("Collection", content)] => ((content.get? "target").bind Json.str?).map .collection
  | .obj [("ManyToMany", content)] => do
    match ← content.fields? ["target", "link_table", "owner_column", "target_column"] with
    | [t, l, o, c] => return .manyToMany (← t.str?) (← l.str?) (← o.str?) (← c.str?)
    | _ => none
  | _ => none

end PropertyKind

namespace PropertyMapping

def toJson (p : PropertyMapping) : Json :=
  .obj [("name", .str p.name), ("column", .str p.column), ("kind", p.kind.toJson)]

def ofJson? (j : Json) : Option PropertyMapping := do
  match ← j.record? ["name", "column", "kind"] with
  | [name, column, kind] => return ⟨← name.str?, ← column.str?, ← PropertyKind.ofJson? kind⟩
  | _ => none

end PropertyMapping

namespace EntityMapping

/-- The fields of an entity mapping. -/
def toFields (e : EntityMapping) : List (String × Json) :=
  [("name", .str e.name), ("table", .str e.table), ("id_property", .ofOption (e.idName.map .str)),
    ("properties", .arr (e.properties.map PropertyMapping.toJson))]

def ofJson? (j : Json) : Option EntityMapping := do
  match ← j.record? ["name", "table", "id_property", "properties"] with
  | [name, table, id, properties] =>
    return ⟨← name.str?, ← table.str?, ← Json.nullable? Json.str? id,
      ← properties.list? PropertyMapping.ofJson?⟩
  | _ => none

/-- Whether reading what was written gives the mapping back. -/
def survives (e : EntityMapping) : Bool := ofJson? (.obj e.toFields) == some e

end EntityMapping

end EntityQuery
