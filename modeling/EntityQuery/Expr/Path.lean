import EntityQuery.Catalog.Basic
import EntityQuery.Expr.Typing

/-!
Dotted paths of mapped properties, such as `Customer.Name`.

* A path is refused as a whole if one of its segments is empty; then every segment is looked up in
  the entity that the path so far leads to.
-/

namespace EntityQuery

/-- Why a path leads nowhere. -/
inductive PathError where
  | malformed (path : String)
  | unknownMember (type member : String)
  | mapping (e : MappingError)
  deriving DecidableEq, Repr, Inhabited

def PathError.message : PathError → String
  | .malformed path => "Malformed property path '" ++ path ++ "'"
  | .unknownMember type member => "Type '" ++ type ++ "' has no member '" ++ member ++ "'"
  | .mapping e => "Mapping error: " ++ e.message

namespace Expr

/-- Follows one segment of a path. -/
def step (c : Catalog) (e : Expr) (segment : String) : Except PathError Expr :=
  match e.type.entityName? with
  | none => .error (.unknownMember e.type.text segment)
  | some owner =>
    match c.property owner segment with
    | .ok p => .ok (.member e p)
    | .error err => .error (.mapping err)

/-- Follows a dotted path. -/
def path (c : Catalog) (e : Expr) (p : String) : Except PathError Expr :=
  let segments := Text.splitOn '.' p.toList
  if segments.any List.isEmpty then .error (.malformed p)
  else (segments.map String.ofList).foldlM (step c) e

end Expr

end EntityQuery
