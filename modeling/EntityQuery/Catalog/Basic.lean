import EntityQuery.Catalog.Entity

/-!
The catalog of mapped entities, in the order of their registration.

* `register` refuses a key that is no property, then a name that is taken.
* `validate` asks that every navigation lead to an entity with a key, and that an entity with a
  relation to many have a key itself.
-/

namespace EntityQuery

/-- What a catalog cannot answer. -/
inductive MappingError where
  | unknownEntity (name : String)
  | unknownProperty (name : String)
  | missingId (entity : String)
  | invalidRelation (property reason : String)
  | duplicateEntity (name : String)
  /-- The computed value of a property reads the property itself. -/
  | endlessProperty (name : String)
  deriving DecidableEq, Repr, Inhabited

def MappingError.message : MappingError → String
  | .unknownEntity name => "Type '" ++ name ++ "' is not mapped"
  | .unknownProperty name => "Property '" ++ name ++ "' is not mapped"
  | .missingId entity => "Type '" ++ entity ++ "' has no id property"
  | .invalidRelation property reason => "Invalid relation '" ++ property ++ "': " ++ reason
  | .duplicateEntity name => "Type '" ++ name ++ "' is already mapped"
  | .endlessProperty name => "Property '" ++ name ++ "' is computed from itself"

/-- The mapped entities in the order of registration. -/
structure Catalog where
  entities : List EntityMapping := []
  deriving DecidableEq, Repr, Inhabited

namespace Catalog

/-! ### Looking up -/

def find? (c : Catalog) (name : String) : Option EntityMapping :=
  c.entities.find? fun e => e.name = name

def contains (c : Catalog) (name : String) : Bool := (c.find? name).isSome

def entity (c : Catalog) (name : String) : Except MappingError EntityMapping :=
  match c.find? name with
  | some e => .ok e
  | none => .error (.unknownEntity name)

/-- A property of an entity by name. -/
def property (c : Catalog) (owner name : String) : Except MappingError PropertyRef := do
  let e ← c.entity owner
  match e.property? name with
  | some p => .ok (e.ref p)
  | none => .error (.unknownProperty (owner ++ "." ++ name))

def propertyMapping (c : Catalog) (p : PropertyRef) : Except MappingError PropertyMapping := do
  let e ← c.entity p.owner
  match e.property? p.name with
  | some m => .ok m
  | none => .error (.unknownProperty p.text)

def tableName (c : Catalog) (entity : String) : Except MappingError String := do
  return (← c.entity entity).table

def columnName (c : Catalog) (p : PropertyRef) : Except MappingError String := do
  return (← c.propertyMapping p).column

/-- The key property of an entity. -/
def idProperty (c : Catalog) (entity : String) : Except MappingError PropertyRef := do
  let e ← c.entity entity
  match e.id? with
  | some p => .ok (e.ref p)
  | none => .error (.missingId entity)

/-- The column of an entity's key. -/
def idColumn (c : Catalog) (entity : String) : Except MappingError String := do
  c.columnName (← c.idProperty entity)

/-- The properties of an entity in the order of declaration. -/
def properties (c : Catalog) (entity : String) : Except MappingError (List PropertyRef) := do
  let e ← c.entity entity
  return e.properties.map e.ref

/-- The scalar properties of an entity in the order of declaration. -/
def scalarProperties (c : Catalog) (entity : String) : Except MappingError (List PropertyRef) := do
  let e ← c.entity entity
  return (e.properties.filter PropertyMapping.isScalar).map e.ref

/-! ### Building -/

/-- Adds an entity. -/
def register (c : Catalog) (e : EntityMapping) : Except MappingError Catalog :=
  match e.idName with
  | some id =>
    if (e.property? id).isNone then .error (.unknownProperty (e.name ++ "." ++ id)) else addNew
  | none => addNew
where
  addNew : Except MappingError Catalog :=
    if c.contains e.name then .error (.duplicateEntity e.name)
    else .ok { c with entities := c.entities ++ [e] }

/-- Checks one navigation of an entity. -/
def validateProperty (c : Catalog) (e : EntityMapping) (p : PropertyMapping) :
    Except MappingError Unit :=
  match p.target? with
  | none => .ok ()
  | some target =>
    match c.find? target with
    | none =>
      .error (.invalidRelation (e.name ++ "." ++ p.name)
        ("target type '" ++ target ++ "' is not mapped"))
    | some t =>
      if t.id?.isNone then .error (.missingId target)
      else if !p.isReference && e.id?.isNone then .error (.missingId e.name)
      else .ok ()

/-- Checks every navigation of every entity, in order. -/
def validate (c : Catalog) : Except MappingError Unit :=
  c.entities.forM fun e => e.properties.forM (c.validateProperty e)

/-- The catalog of a list of entities, not yet validated. -/
def ofEntities (es : List EntityMapping) : Except MappingError Catalog :=
  es.foldlM register {}

/-- The validated catalog of a list of entities. -/
def validated (es : List EntityMapping) : Except MappingError Catalog := do
  let c ← ofEntities es
  c.validate
  return c

end Catalog

end EntityQuery
