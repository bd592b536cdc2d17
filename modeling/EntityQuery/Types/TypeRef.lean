import EntityQuery.Types.DataType

/-!
Static types of query expressions, and the properties of typed objects.

* A property is identified by its owner and its name; the type travels along for projection
  shapes that no catalog knows.
-/

namespace EntityQuery

/-- The static type of an expression. -/
inductive TypeRef where
  | scalar (dataType : DataType) (nullable : Bool)
  /-- A mapped entity. -/
  | entity (name : String)
  /-- The values of a navigation to many. -/
  | collection (element : TypeRef)
  /-- The values of a query. -/
  | query (element : TypeRef)
  | grouping (key element : TypeRef)
  /-- The shape of a projection. -/
  | object (name : String)
  deriving DecidableEq, Repr, Inhabited

namespace TypeRef

def boolean : TypeRef := .scalar .boolean false

def isQuery : TypeRef → Bool
  | .query _ => true
  | _ => false

def isCollection : TypeRef → Bool
  | .collection _ => true
  | _ => false

def isGrouping : TypeRef → Bool
  | .grouping _ _ => true
  | _ => false

def isTextual : TypeRef → Bool
  | .scalar t _ => t.isTextual
  | _ => false

/-- The type of the values that a type ranges over. -/
def element? : TypeRef → Option TypeRef
  | .query t => some t
  | .collection t => some t
  | .grouping _ t => some t
  | _ => none

/-- The type of the values that a type ranges over, a single value ranging over itself. -/
def elementOrSelf (t : TypeRef) : TypeRef := t.element?.getD t

def entityName? : TypeRef → Option String
  | .entity name => some name
  | _ => none

def text : TypeRef → String
  | .scalar t nullable => t.text ++ if nullable then "?" else ""
  | .entity name => name
  | .object name => name
  | .collection t => "Collection<" ++ t.text ++ ">"
  | .query t => "Query<" ++ t.text ++ ">"
  | .grouping k t => "Grouping<" ++ k.text ++ ", " ++ t.text ++ ">"

end TypeRef

/-- A property of an entity or of a projection shape. -/
structure PropertyRef where
  owner : String
  name : String
  type : TypeRef
  deriving DecidableEq, Repr, Inhabited

namespace PropertyRef

/-- The same property, whatever types the two references carry. -/
def same (p q : PropertyRef) : Bool := p.owner == q.owner && p.name == q.name

def text (p : PropertyRef) : String := p.owner ++ "." ++ p.name

end PropertyRef

/-! ### Tables by property -/

/-- Values kept by property. -/
abbrev PropertyTable (α : Type) := List (PropertyRef × α)

namespace PropertyTable

variable {α : Type}

def find? (t : PropertyTable α) (p : PropertyRef) : Option α :=
  (List.find? (fun row => row.1.same p) t).map Prod.snd

def erase (t : PropertyTable α) (p : PropertyRef) : PropertyTable α :=
  List.filter (fun row => !row.1.same p) t

/-- Keeps a value for a property, in place of the one it had. -/
def insert (t : PropertyTable α) (p : PropertyRef) (a : α) : PropertyTable α :=
  (p, a) :: t.erase p

end PropertyTable

end EntityQuery
