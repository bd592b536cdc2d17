import EntityQuery.Expr.Basic

/-!
The parts of a relational statement, which refer to each other by handles.

* A `Node` is a value, an `Alias` a source of rows with a name of its own, a `Request` one `SELECT`,
  `UPDATE`, `DELETE` or `INSERT … SELECT`.
* A handle is a position in the graph that holds the parts.
-/

namespace EntityQuery.Sql

/-! ### Handles -/

structure NodeId where
  index : Nat
  deriving DecidableEq, Repr, Inhabited

structure AliasId where
  index : Nat
  deriving DecidableEq, Repr, Inhabited

structure RequestId where
  index : Nat
  deriving DecidableEq, Repr, Inhabited

def RequestId.text (r : RequestId) : String := "r" ++ toString r.index

/-! ### Values -/

inductive UnaryOp where
  | not
  | count
  | max
  | min
  | sum
  | average
  | exists
  deriving DecidableEq, Repr, Inhabited

namespace UnaryOp

def all : List UnaryOp := [.not, .count, .max, .min, .sum, .average, .exists]

def name : UnaryOp → String
  | .not => "Not"
  | .count => "Count"
  | .max => "Max"
  | .min => "Min"
  | .sum => "Sum"
  | .average => "Average"
  | .exists => "Exists"

def ofName? (s : String) : Option UnaryOp := all.find? fun op => op.name = s

/-- The SQL function of an aggregate. -/
def function? : UnaryOp → Option String
  | .count => some "COUNT"
  | .max => some "MAX"
  | .min => some "MIN"
  | .sum => some "SUM"
  | .average => some "AVG"
  | .not | .exists => none

end UnaryOp

inductive BinaryOp where
  | and
  | or
  | equal
  | notEqual
  | lessThan
  | lessOrEqual
  | greaterThan
  | greaterOrEqual
  | like
  | concat
  | coalesce
  | add
  | subtract
  | multiply
  | divide
  deriving DecidableEq, Repr, Inhabited

namespace BinaryOp

def all : List BinaryOp :=
  [.and, .or, .equal, .notEqual, .lessThan, .lessOrEqual, .greaterThan, .greaterOrEqual, .like,
    .concat, .coalesce, .add, .subtract, .multiply, .divide]

def name : BinaryOp → String
  | .and => "And"
  | .or => "Or"
  | .equal => "Equal"
  | .notEqual => "NotEqual"
  | .lessThan => "LessThan"
  | .lessOrEqual => "LessOrEqual"
  | .greaterThan => "GreaterThan"
  | .greaterOrEqual => "GreaterOrEqual"
  | .like => "Like"
  | .concat => "Concat"
  | .coalesce => "Coalesce"
  | .add => "Add"
  | .subtract => "Subtract"
  | .multiply => "Multiply"
  | .divide => "Divide"

def ofName? (s : String) : Option BinaryOp := all.find? fun op => op.name = s

def symbol : BinaryOp → String
  | .and => "AND"
  | .or => "OR"
  | .equal => "="
  | .notEqual => "<>"
  | .lessThan => "<"
  | .lessOrEqual => "<="
  | .greaterThan => ">"
  | .greaterOrEqual => ">="
  | .like => "LIKE"
  | .concat => "||"
  | .coalesce => "COALESCE"
  | .add => "+"
  | .subtract => "-"
  | .multiply => "*"
  | .divide => "/"

end BinaryOp

/-- The column that stands for all columns of a source. -/
def allColumns : String := "*"

/-- A value. -/
inductive Node where
  | column (source : AliasId) (name : String)
  /-- A whole row, which shows as the key of its source. -/
  | row (source : AliasId)
  | const (value : Value)
  /-- An operator with its operand; `COUNT(*)` has none. -/
  | unary (op : UnaryOp) (operand : Option NodeId)
  | binary (op : BinaryOp) (left right : NodeId)
  | isIn (operand : NodeId) (values : List NodeId)
  | cond (test yes no : NodeId)
  | sub (request : RequestId)
  deriving Repr, Inhabited

namespace Node

/-- The nodes directly below a node, from left to right. -/
def children : Node → List NodeId
  | .column _ _ | .row _ | .const _ | .sub _ => []
  | .unary _ operand => operand.toList
  | .binary _ l r => [l, r]
  | .isIn e vs => e :: vs
  | .cond t y n => [t, y, n]

def isNull : Node → Bool
  | .const v => v.isNull
  | _ => false

def isColumn : Node → Bool
  | .column _ _ => true
  | _ => false

def isAggregate : Node → Bool
  | .unary op _ => op.function?.isSome
  | _ => false

end Node

/-! ### Sources of rows -/

/-- What an alias ranges over. -/
inductive Origin where
  | table (name : String)
  /-- A derived table. -/
  | request (r : RequestId)
  deriving DecidableEq, Repr, Inhabited

/-- How an alias came to be. -/
inductive Route where
  /-- The first source of a request. -/
  | root
  /-- A navigation from another alias, through the link table `via` where there is one. -/
  | navigation (owner : AliasId) (property : PropertyRef) (via : Option AliasId)
  /-- The link table of a navigation. -/
  | link (owner : AliasId) (property : PropertyRef)
  deriving DecidableEq, Repr, Inhabited

/-- A source of rows under a name of its own. -/
structure Alias where
  /-- Given by the graph: `t0`, `t1`, and so on. -/
  name : String := ""
  origin : Origin
  entity : Option String
  idColumn : Option String
  /-- The lambda parameters that stand for a row of this source. -/
  params : List ParamId := []
  route : Route := .root
  deriving DecidableEq, Repr, Inhabited

namespace Alias

def ofTable (table entity : String) (idColumn : Option String) : Alias :=
  { origin := .table table, entity := some entity, idColumn }

def derived (r : RequestId) : Alias := { origin := .request r, entity := none, idColumn := none }

/-- The link table that a navigation goes through. -/
def via? (a : Alias) : Option AliasId :=
  match a.route with
  | .navigation _ _ via => via
  | _ => none

def isNavigationOf (a : Alias) (owner : AliasId) (p : PropertyRef) : Bool :=
  match a.route with
  | .navigation o q _ => o == owner && q.same p
  | _ => false

end Alias

/-! ### Requests -/

inductive JoinKind where
  | inner
  | left
  deriving DecidableEq, Repr, Inhabited

namespace JoinKind

def name : JoinKind → String
  | .inner => "Inner"
  | .left => "Left"

def ofName? (s : String) : Option JoinKind := [.inner, .left].find? fun k => k.name = s

def keyword : JoinKind → String
  | .inner => "INNER JOIN"
  | .left => "LEFT JOIN"

end JoinKind

inductive RequestKind where
  | select
  | update
  | delete
  | insertSelect
  deriving DecidableEq, Repr, Inhabited

namespace RequestKind

def all : List RequestKind := [.select, .update, .delete, .insertSelect]

def name : RequestKind → String
  | .select => "Select"
  | .update => "Update"
  | .delete => "Delete"
  | .insertSelect => "InsertSelect"

def ofName? (s : String) : Option RequestKind := all.find? fun k => k.name = s

end RequestKind

/-- One selected value. -/
structure Item where
  node : NodeId
  /-- The member that the value fills. -/
  property : Option PropertyRef := none
  /-- Whether the value is the first of a new object. -/
  newElement : Bool := true
  /-- The column name in a derived table. -/
  label : Option String := none
  deriving DecidableEq, Repr, Inhabited

structure Order where
  node : NodeId
  ascending : Bool
  deriving DecidableEq, Repr, Inhabited

structure Join where
  source : AliasId
  kind : JoinKind
  condition : NodeId
  deriving DecidableEq, Repr, Inhabited

/-- A column and the value it gets. -/
structure Assignment where
  column : NodeId
  value : NodeId
  deriving DecidableEq, Repr, Inhabited

/-- One statement, or a part of one. -/
structure Request where
  kind : RequestKind := .select
  base : Option AliasId := none
  /-- The table that is written; the base where none is set. -/
  target : Option AliasId := none
  joins : List Join := []
  items : List Item := []
  filter : Option NodeId := none
  having : Option NodeId := none
  groups : List NodeId := []
  /-- The key member of every group entry; a key that is a single value has none. -/
  groupMembers : List (Option PropertyRef) := []
  orders : List Order := []
  skip : Option Nat := none
  take : Option Nat := none
  distinct : Bool := false
  assignments : List Assignment := []
  parent : Option RequestId := none
  /-- The type that a row of the result stands for. -/
  projection : Option TypeRef := none
  idColumn : Option String := none
  deriving DecidableEq, Repr, Inhabited

namespace Request

def isGrouped (r : Request) : Bool := !r.groups.isEmpty

def isPaged (r : Request) : Bool := r.skip.isSome || r.take.isSome

/-- The base followed by the joined sources. -/
def sources (r : Request) : List AliasId := r.base.toList ++ r.joins.map Join.source

/-- The nodes of all clauses, clause by clause. -/
def clauseNodes (r : Request) : List NodeId :=
  r.joins.map Join.condition ++ r.items.map Item.node ++ r.filter.toList ++ r.having.toList ++
    r.groups ++ r.orders.map Order.node ++ r.assignments.flatMap fun s => [s.column, s.value]

/-- The join that brings in a source. -/
def joinFor? (r : Request) (a : AliasId) : Option Join := r.joins.find? fun j => j.source = a

end Request

end EntityQuery.Sql
