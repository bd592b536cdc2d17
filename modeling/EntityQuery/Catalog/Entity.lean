import EntityQuery.Catalog.Naming
import EntityQuery.Types.TypeRef

/-!
How an entity is stored: its table, its key and the columns behind its properties.

* A property is a scalar column, a reference to one entity, or a relation to many that is stored
  in the other table or in a link table.
* Declarations start from default names; `PropertyMapping` has one function for each default that
  a declaration may replace.
-/

namespace EntityQuery

/-- How a property is stored. -/
inductive PropertyKind where
  | scalar (dataType : DataType) (nullable : Bool) (maxLength : Option Nat)
  /-- Many to one: a foreign key in the owner's table. -/
  | reference (target : String)
  /-- One to many: a foreign key in the target's table. -/
  | collection (target : String)
  /-- Many to many: two foreign keys in a link table. -/
  | manyToMany (target linkTable ownerColumn targetColumn : String)
  deriving DecidableEq, Repr, Inhabited

/-- A property with its column: in the owner's table, in the target's for a collection, and unused
for a relation through a link table. -/
structure PropertyMapping where
  name : String
  column : String
  kind : PropertyKind
  deriving DecidableEq, Repr, Inhabited

namespace PropertyMapping

def type (p : PropertyMapping) : TypeRef :=
  match p.kind with
  | .scalar t nullable _ => .scalar t nullable
  | .reference target => .entity target
  | .collection target => .collection (.entity target)
  | .manyToMany target _ _ _ => .collection (.entity target)

def isScalar (p : PropertyMapping) : Bool :=
  match p.kind with
  | .scalar _ _ _ => true
  | _ => false

def isReference (p : PropertyMapping) : Bool :=
  match p.kind with
  | .reference _ => true
  | _ => false

/-- The entity a navigation leads to. -/
def target? (p : PropertyMapping) : Option String :=
  match p.kind with
  | .scalar _ _ _ => none
  | .reference target => some target
  | .collection target => some target
  | .manyToMany target _ _ _ => some target

/-! ### Replacing defaults -/

def withColumn (p : PropertyMapping) (column : String) : PropertyMapping := { p with column }

/-- Lets a scalar be null; other kinds stay as they are. -/
def nullable (p : PropertyMapping) : PropertyMapping :=
  match p.kind with
  | .scalar t _ n => { p with kind := .scalar t true n }
  | _ => p

/-- Bounds a scalar's length; other kinds stay as they are. -/
def withMaxLength (p : PropertyMapping) (n : Nat) : PropertyMapping :=
  match p.kind with
  | .scalar t nullable _ => { p with kind := .scalar t nullable (some n) }
  | _ => p

/-- Names the link table of a many to many relation; other kinds stay as they are. -/
def withLinkTable (p : PropertyMapping) (table : String) : PropertyMapping :=
  match p.kind with
  | .manyToMany target _ oc tc => { p with kind := .manyToMany target table oc tc }
  | _ => p

end PropertyMapping

/-- An entity with its table, the name of its key property and its properties in the order of
declaration. -/
structure EntityMapping where
  name : String
  table : String
  idName : Option String
  properties : List PropertyMapping
  deriving DecidableEq, Repr, Inhabited

namespace EntityMapping

def property? (e : EntityMapping) (name : String) : Option PropertyMapping :=
  e.properties.find? fun p => p.name = name

/-- The key property. -/
def id? (e : EntityMapping) : Option PropertyMapping := e.idName.bind e.property?

def ref (e : EntityMapping) (p : PropertyMapping) : PropertyRef := ⟨e.name, p.name, p.type⟩

/-! ### Declarations -/

/-- An entity without properties, in the table of its own name. -/
def named (name : String) : EntityMapping := ⟨name, Naming.tableName name, none, []⟩

def withTable (e : EntityMapping) (table : String) : EntityMapping := { e with table }

def add (e : EntityMapping) (p : PropertyMapping) : EntityMapping :=
  { e with properties := e.properties ++ [p] }

def scalar (name : String) (t : DataType) : PropertyMapping :=
  ⟨name, Naming.columnName name, .scalar t false none⟩

def reference (name target : String) : PropertyMapping :=
  ⟨name, Naming.foreignKeyColumn name, .reference target⟩

def collection (name target : String) : PropertyMapping :=
  ⟨name, Naming.foreignKeyColumn name, .collection target⟩

/-- A relation through a link table named after the entity's table and the property. -/
def manyToMany (e : EntityMapping) (name target : String) : PropertyMapping :=
  ⟨name, "", .manyToMany target (Naming.linkTableName e.table name)
    (Naming.foreignKeyColumn e.name) (Naming.foreignKeyColumn target)⟩

/-- Declares the key property. -/
def withId (e : EntityMapping) (name : String) (t : DataType) : EntityMapping :=
  { e with idName := some name }.add (scalar name t)

end EntityMapping

end EntityQuery
