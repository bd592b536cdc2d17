import EntityQuery.Expr.Typing
import EntityQuery.Mapping.Resolve
import EntityQuery.Proofs.Sql.Evaluation

/-!
Filters: conditions on rows that are never true of a missing value.

* A filter is built with `and` and `or` from comparisons, patterns, memberships, bare truth values
  and the existence of related rows. It reads scalar members through chains of references; a member
  of a missing row is null.
* `expr` is the expression of a filter, `typed` says that it fits a catalog, and `eval` is its truth
  for rows of a database, which may be unknown.
-/

namespace EntityQuery

open Sql

/-! ### Members -/

/-- A member of a row: a parameter, references from its row, and the last property. -/
structure Member where
  param : Param
  path : List PropertyRef
  property : PropertyRef
  deriving DecidableEq, Repr

namespace Member

/-- The row at the end of the references. -/
def rowExpr (m : Member) : Expr := m.path.foldl Expr.member (.param m.param)

def expr (m : Member) : Expr := .member m.rowExpr m.property

end Member

/-- The entities that the parameters in scope range over, innermost first. -/
abbrev Scope := List (ParamId × String)

namespace Catalog

/-- A property of an entity as the catalog stores it. -/
def stored? (c : Catalog) (entity : String) (p : PropertyRef) : Option PropertyMapping :=
  if p.owner = entity then
    match c.propertyMapping p with
    | .ok m => if p.type = m.type then some m else none
    | .error _ => none
  else none

/-- The entity at the end of references from an entity. -/
def follow? (c : Catalog) : String → List PropertyRef → Option String
  | entity, [] => some entity
  | entity, p :: rest =>
    match c.stored? entity p with
    | some ⟨_, _, .reference target⟩ => c.follow? target rest
    | _ => none

/-- The property that a member reads. -/
def member? (c : Catalog) (Γ : Scope) (m : Member) : Option PropertyMapping := do
  let entity ← Γ.lookup m.param.id
  c.stored? (← c.follow? entity m.path) m.property

end Catalog

/-! ### Operands -/

/-- A value that is compared. -/
inductive Operand where
  | const (v : Value)
  | member (m : Member)
  deriving Repr

namespace Operand

def expr : Operand → Expr
  | .const v => .const (.value v)
  | .member m => m.expr

/-- A constant that is not null, or a scalar member. -/
def typed (c : Catalog) (Γ : Scope) : Operand → Bool
  | .const v => !v.isNull
  | .member m => (c.member? Γ m).any PropertyMapping.isScalar

end Operand

/-! ### Filters -/

inductive Comparison where
  | equal
  | notEqual
  | less
  | lessOrEqual
  | greater
  | greaterOrEqual
  deriving DecidableEq, Repr

namespace Comparison

def operator : Comparison → BinaryOperator
  | .equal => .equal
  | .notEqual => .notEqual
  | .less => .lessThan
  | .lessOrEqual => .lessOrEqual
  | .greater => .greaterThan
  | .greaterOrEqual => .greaterOrEqual

/-- The comparison of values in a server. -/
def sql : Comparison → BinaryOp
  | .equal => .equal
  | .notEqual => .notEqual
  | .less => .lessThan
  | .lessOrEqual => .lessOrEqual
  | .greater => .greaterThan
  | .greaterOrEqual => .greaterOrEqual

end Comparison

/-- Where a text has a part. -/
inductive Place where
  | start
  | finish
  | anywhere
  deriving DecidableEq, Repr

def Place.method : Place → Method
  | .start => .startsWith
  | .finish => .endsWith
  | .anywhere => .contains

/-- A condition that is never true of a missing value. -/
inductive Filter where
  | and (l r : Filter)
  | or (l r : Filter)
  | compare (op : Comparison) (l r : Operand)
  /-- A text has another one as a part. -/
  | like (place : Place) (subject part : Operand)
  /-- A value is in a list. -/
  | among (vs : List Value) (item : Operand)
  /-- A member is true. -/
  | flag (m : Member)
  /-- One of the rows related by a member satisfies a filter. -/
  | any (m : Member) (p : Param) (body : Filter)
  deriving Repr

namespace Filter

def expr : Filter → Expr
  | .and l r => .binary .and l.expr r.expr
  | .or l r => .binary .or l.expr r.expr
  | .compare op l r => .binary op.operator l.expr r.expr
  | .like place subject part => .call place.method [subject.expr, part.expr]
  | .among vs item => .call .contains [.const (.list vs), item.expr]
  | .flag m => m.expr
  | .any m p body => .call .any [m.expr, .lambda [p] body.expr]

/-- The rows of an entity that satisfy filters, one after the other. -/
def query (entity : String) (fs : List (Param × Filter)) : Expr :=
  fs.foldl (fun q f => .call .where [q, .lambda [f.1] f.2.expr]) (.source entity)

/-- The entity of the rows that a relation to many leads to. -/
def relationTarget? (p : PropertyMapping) : Option String :=
  match p.kind with
  | .collection target => some target
  | .manyToMany target _ _ _ => some target
  | _ => none

/-- Whether a filter fits a catalog. -/
def typed (c : Catalog) : Scope → Filter → Bool
  | Γ, .and l r => l.typed c Γ && r.typed c Γ
  | Γ, .or l r => l.typed c Γ && r.typed c Γ
  | Γ, .compare _ l r => l.typed c Γ && r.typed c Γ
  | Γ, .like place subject part =>
    subject.typed c Γ && part.typed c Γ && (place != .anywhere || subject.expr.type.isTextual)
  | Γ, .among vs item => !vs.isEmpty && vs.all (!·.isNull) && item.typed c Γ
  | Γ, .flag m => (c.member? Γ m).any PropertyMapping.isScalar
  | Γ, .any m p body =>
    match (c.member? Γ m).bind relationTarget? with
    | some target => body.typed c ((p.id, target) :: Γ)
    | none => false

end Filter

/-! ### Meaning -/

/-- A foreign key: its column, and the table and the key it points to. -/
structure ForeignKey where
  column : String
  table : String
  key : String
  deriving DecidableEq, Repr

/-- The foreign key of a reference. -/
def Catalog.foreignKey? (c : Catalog) (p : PropertyRef) : Option ForeignKey := do
  let stored ← (c.propertyMapping p).toOption
  match stored.kind with
  | .reference target =>
    return ⟨stored.column, ← (c.tableName target).toOption, ← (c.idColumn target).toOption⟩
  | _ => none

/-- A database with the catalog of its entities. -/
structure Store where
  catalog : Catalog
  engine : Engine
  database : Database

namespace Store

variable (st : Store)

/-- Whether two values are equal; null is equal to nothing. -/
def equals (v w : Value) : Bool := st.engine.equal v w == some true

/-- The row that a foreign key of a row points to. -/
def target? (k : ForeignKey) (row : Row) : Option Row :=
  (st.database.rows k.table).find? fun t => st.equals (row.value k.column) (t.value k.key)

/-- The row that a reference of a row leads to; the empty row if there is none. -/
def refer (row : Row) (p : PropertyRef) : Row :=
  ((st.catalog.foreignKey? p).bind (st.target? · row)).getD []

/-- The rows that a relation to many leads to. -/
def related (row : Row) (p : PropertyRef) : List Row :=
  match st.catalog.propertyMapping p, st.catalog.idColumn p.owner with
  | .ok ⟨_, column, .collection target⟩, .ok key =>
    match st.catalog.tableName target with
    | .ok table => (st.database.rows table).filter fun t =>
        st.equals (t.value column) (row.value key)
    | .error _ => []
  | .ok ⟨_, _, .manyToMany target link ownerColumn targetColumn⟩, .ok key =>
    match st.catalog.tableName target, st.catalog.idColumn target with
    | .ok table, .ok targetKey => (st.database.rows table).filter fun t =>
        (st.database.rows link).any fun l =>
          st.equals (l.value ownerColumn) (row.value key) &&
            st.equals (t.value targetKey) (l.value targetColumn)
    | _, _ => []
  | _, _ => []

/-- Every row of an entity has a key, and no two of them the same one. -/
def Keyed : Prop :=
  ∀ entity table key, st.catalog.tableName entity = .ok table → st.catalog.idColumn entity = .ok key →
    (∀ row ∈ st.database.rows table, (row.value key).isNull = false) ∧
      (st.database.rows table).Pairwise fun t u => st.equals (t.value key) (u.value key) = false

end Store

/-- The row at the end of a member's references. -/
def Member.row (st : Store) (rows : ParamId → Row) (m : Member) : Row :=
  m.path.foldl st.refer (rows m.param.id)

/-- The value of a scalar member. -/
def Member.value (st : Store) (rows : ParamId → Row) (m : Member) : Value :=
  match st.catalog.columnName m.property with
  | .ok column => (m.row st rows).value column
  | .error _ => .null

def Operand.value (st : Store) (rows : ParamId → Row) : Operand → Value
  | .const v => v
  | .member m => m.value st rows

/-- The pattern of the texts with a part at a place. -/
def Place.pattern (e : Engine) (place : Place) (part : Value) : Value :=
  let rest : Value := .string "%"
  match place with
  | .start => e.binary .concat part rest
  | .finish => e.binary .concat rest part
  | .anywhere => e.binary .concat rest (e.binary .concat part rest)

/-- The truth of a filter for the rows that the parameters stand for. -/
def Filter.eval (st : Store) : (ParamId → Row) → Filter → Option Bool
  | rows, .and l r => truthAnd (l.eval st rows) (r.eval st rows)
  | rows, .or l r => truthOr (l.eval st rows) (r.eval st rows)
  | rows, .compare op l r => truthOf (st.engine.binary op.sql (l.value st rows) (r.value st rows))
  | rows, .like place subject part =>
    truthOf (st.engine.binary .like (subject.value st rows)
      (place.pattern st.engine (part.value st rows)))
  | rows, .among vs item => st.engine.among (item.value st rows) vs
  | rows, .flag m => st.engine.equal (m.value st rows) (.boolean true)
  | rows, .any m p body =>
    some ((st.related (m.row st rows) m.property).any fun row =>
      body.eval st (Function.update rows p.id row) == some true)

end EntityQuery
