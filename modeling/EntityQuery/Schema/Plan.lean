import EntityQuery.Catalog.Basic
import EntityQuery.Schema.Table

/-!
The tables of mapped entities.

* Scalars and references are columns of the entity's own table. A relation to many is a column of
  the other table or a link table; it is a constraint script, to be run after all tables exist.
* `plan` creates an entity after those it refers to and after the owners of relations that lead to
  it. Where that is impossible it keeps the given order.
-/

namespace EntityQuery.Schema

inductive SchemaError where
  | mapping (e : MappingError)
  /-- A column is to be added that is not named. -/
  | noProperty (entity : String)
  | collectionId (entity : String)
  deriving DecidableEq, Repr

def SchemaError.message : SchemaError → String
  | .mapping e => "Mapping violation: " ++ e.message
  | .noProperty entity =>
    "Unsupported DDL statement: AddColumn on '" ++ entity ++ "' names no property"
  | .collectionId entity =>
    "Unsupported DDL statement: The id of '" ++ entity ++ "' cannot be a collection"

/-- Scripts in the order of execution: all objects, then all constraints. -/
structure Script where
  objects : List String := []
  constraints : List String := []
  deriving DecidableEq, Repr, Inhabited

def Script.statements (s : Script) : List String := s.objects ++ s.constraints

/-- Steps that write scripts; what was written before an error stays. -/
abbrev Planner := ExceptT SchemaError (StateM Script)

/-- An answer of the catalog. -/
def ask {α : Type} (answer : Except MappingError α) : Except SchemaError α :=
  answer.mapError .mapping

/-! ### Columns -/

/-- The key of an entity as seen from a column that refers to it. -/
structure KeyColumn where
  reference : Reference
  type : DataType
  maxLength : Option Nat
  deriving Repr

/-- The key of an entity, which has to be a scalar. -/
def keyColumn (c : Catalog) (entity : String) : Except MappingError KeyColumn := do
  let id ← c.idProperty entity
  let stored ← c.propertyMapping id
  match stored.kind with
  | .scalar type _ maxLength =>
    let table ← c.tableName entity
    return ⟨⟨{ name := table }, stored.column⟩, type, maxLength⟩
  | _ => throw (.invalidRelation id.text "an id property must be a scalar")

/-- A column that refers to a key. -/
def KeyColumn.referring (k : KeyColumn) (name : String) : ColumnDef :=
  { name, type := k.type, maxLength := k.maxLength, references := some k.reference }

/-- Where a property is stored. -/
inductive Storage where
  /-- In a column of the entity's own table. -/
  | column (c : ColumnDef)
  /-- Outside the entity's table. -/
  | outside (d : Definition)

/-- How a property is stored. -/
def storage (c : Catalog) (entity : String) (p : PropertyMapping) (isId : Bool) :
    Except SchemaError Storage :=
  match p.kind with
  | .scalar type nullable maxLength =>
    .ok <| .column <|
      if isId then
        { name := p.column, type, maxLength, isKey := true, isIdentity := type.isInteger }
      else { name := p.column, type, maxLength, nullable }
  | .reference target => do
    let key ← ask (keyColumn c target)
    return .column { key.referring p.column with nullable := true }
  | .collection target => do
    if isId then throw (.collectionId entity)
    let key ← ask (keyColumn c entity)
    let table ← ask (c.tableName target)
    return .outside <| .alter { name := table }
      [.addColumn { key.referring p.column with maxLength := none, nullable := true }]
  | .manyToMany target link ownerColumn targetColumn => do
    if isId then throw (.collectionId entity)
    let owner ← ask (keyColumn c entity)
    let other ← ask (keyColumn c target)
    return .outside <| .create { name := link }
      [owner.referring ownerColumn, other.referring targetColumn]
      [.primaryKey [ownerColumn, targetColumn]]

/-! ### Scripts -/

def addObject (d : Dialect) (s : Definition) : Planner Unit :=
  modify fun script => { script with objects := script.objects ++ [s.text d] }

def addConstraint (d : Dialect) (s : Definition) : Planner Unit :=
  modify fun script => { script with constraints := script.constraints ++ [s.text d] }

/-- A question to the catalog while scripts are written. -/
def need {α : Type} (answer : Except SchemaError α) : Planner α := ExceptT.mk (pure answer)

/-- Whether a property is the key of its entity. -/
def isId (c : Catalog) (entity : String) (p : PropertyRef) : Bool :=
  match c.idProperty entity with
  | .ok id => id.same p
  | .error _ => false

/-- How a property of an entity is stored. -/
def storageOf (c : Catalog) (entity : String) (p : PropertyRef) : Planner Storage := do
  let stored ← need (ask (c.propertyMapping p))
  need (storage c entity stored (isId c entity p))

/-- The columns of properties; what is stored outside the table becomes a constraint script. -/
def inlineColumns (d : Dialect) (c : Catalog) (entity : String) :
    List PropertyRef → Planner (List ColumnDef)
  | [] => pure []
  | p :: rest => do
    match ← storageOf c entity p with
    | .column col => return col :: (← inlineColumns d c entity rest)
    | .outside s => do
      addConstraint d s
      inlineColumns d c entity rest

/-- Creates the table of an entity. -/
def createTable (d : Dialect) (c : Catalog) (entity : String) : Planner Unit := do
  let table ← need (ask (c.tableName entity))
  let columns ← inlineColumns d c entity (← need (ask (c.properties entity)))
  addObject d (.create { name := table } columns [])

/-- Adds a property to the table of an entity. -/
def addProperty (d : Dialect) (c : Catalog) (entity name : String) : Planner Unit := do
  let all ← need (ask (c.properties entity))
  match all.find? fun p => p.name = name with
  | none => throw (.mapping (.unknownProperty (entity ++ "." ++ name)))
  | some p =>
    match ← storageOf c entity p with
    | .column col =>
      let table ← need (ask (c.tableName entity))
      addObject d (.alter { name := table } [.addColumn col])
    | .outside s => addConstraint d s

/-- A change of the schema that mapped entities ask for. -/
inductive Step where
  | createTable (entity : String)
  | addColumn (entity : String) (property : Option String)
  deriving DecidableEq, Repr

/-- Writes the scripts of a step. -/
def perform (d : Dialect) (c : Catalog) : Step → Planner Unit
  | .createTable entity => createTable d c entity
  | .addColumn entity none => throw (.noProperty entity)
  | .addColumn entity (some name) => addProperty d c entity name

/-! ### The order of creation -/

/-- The stored kinds of an entity's properties. -/
def kinds (c : Catalog) (entity : String) : Except MappingError (List PropertyKind) := do
  (← c.properties entity).mapM fun p => return (← c.propertyMapping p).kind

/-- The other listed entities that an entity refers to. -/
def referenced (listed : List String) (entity : String) (ks : List PropertyKind) : List String :=
  ks.filterMap fun
    | .reference target => if target ≠ entity ∧ listed.contains target then some target else none
    | _ => none

def isCollectionOf (target : String) : PropertyKind → Bool
  | .collection t => t == target
  | _ => false

/-- The other listed entities with a collection of an entity. -/
def owners (table : List (String × List PropertyKind)) (entity : String) : List String :=
  (table.filter fun row => row.1 ≠ entity ∧ row.2.any (isCollectionOf entity)).map Prod.fst

/-- The listed entities with those that have to come before them. Owners of collections count for
the first of several entries of one name. -/
def dependencies (table : List (String × List PropertyKind)) : List (String × List String) :=
  let listed := table.map Prod.fst
  table.zipIdx.map fun ((entity, ks), index) =>
    let before := if listed.idxOf entity = index then owners table entity else []
    (entity, referenced listed entity ks ++ before)

/-- The entities that are left, in the order of creation: at each place the first one whose
dependencies are all done, or else the first one. -/
def orderFrom (deps : List (String × List String)) : Nat → List String → List String
  | 0, _ => []
  | fuel + 1, done =>
    let left := deps.filter fun row => !done.contains row.1
    match left.find? (fun row => row.2.all done.contains) <|> left.head? with
    | some (entity, _) => entity :: orderFrom deps fuel (entity :: done)
    | none => []

/-- The order in which listed entities are created. -/
def creationOrder (c : Catalog) (entities : List String) : Except MappingError (List String) := do
  let table ← entities.mapM fun e => return (e, ← kinds c e)
  return orderFrom (dependencies table) entities.length []

/-- The scripts that create the tables of entities; a constraint is written once. -/
def plan (d : Dialect) (c : Catalog) (entities : List String) : Except SchemaError Script := do
  let order ← ask (creationOrder c entities)
  let (result, script) := (order.forM (createTable d c)).run.run {}
  result
  return { script with constraints := script.constraints.eraseDups }

end EntityQuery.Schema
