import EntityQuery.Expr.Operator
import EntityQuery.Types.TypeRef
import EntityQuery.Value.Basic

/-!
Query expressions: chains of operator calls over mapped entities.

* The receiver of a call is its first argument.
* `depth` is how deeply an expression is nested; whatever walks an expression downwards takes at
  most that many steps.
* `equals` compares expressions: properties by owner and name, values by `Value.equals`.
-/

namespace EntityQuery

/-- The identity of a lambda parameter. -/
structure ParamId where
  val : UInt64
  deriving DecidableEq, Repr, Inhabited

structure Param where
  id : ParamId
  name : String
  type : TypeRef
  deriving DecidableEq, Repr, Inhabited

inductive Literal where
  | value (v : Value)
  | list (vs : List Value)
  /-- An instance of an entity, by the values of its fields. -/
  | entity (name : String) (fields : List (String × Value))
  deriving Repr, Inhabited

mutual
/-- A query expression. -/
inductive Expr where
  /-- A query over an entity. -/
  | source (entity : String)
  | const (literal : Literal)
  | param (p : Param)
  | member (target : Expr) (property : PropertyRef)
  /-- The key of a grouping. -/
  | key (target : Expr)
  | binary (op : BinaryOperator) (left right : Expr)
  | unary (op : UnaryOperator) (operand : Expr)
  | cond (test yes no : Expr)
  | call (method : Method) (args : List Expr)
  | lambda (params : List Param) (body : Expr)
  /-- An anonymous object. -/
  | new (type : String) (members : List (PropertyRef × Expr))
  /-- An object of a named shape. -/
  | init (type : String) (bindings : List Binding)

/-- What an object initializer does with a member. -/
inductive Binding where
  | assign (member : PropertyRef) (value : Expr)
  | list (member : PropertyRef) (items : List Expr)
end

instance : Inhabited Expr := ⟨.source ""⟩

def Binding.member : Binding → PropertyRef
  | .assign p _ => p
  | .list p _ => p

namespace Expr

/-! ### Views -/

def isLambda : Expr → Bool
  | .lambda _ _ => true
  | _ => false

/-- The parameter of a lambda that has exactly one. -/
def soleParam? : List Param → Option Param
  | [p] => some p
  | _ => none

/-- The properties `x.A.B` reads, from the parameter outwards. -/
def memberPath? : Expr → Option (List PropertyRef)
  | .param _ => some []
  | .member target p => (memberPath? target).map (· ++ [p])
  | _ => none

/-! ### Nesting -/

mutual
/-- How deeply an expression is nested. -/
def depth : Expr → Nat
  | .source _ | .const _ | .param _ => 1
  | .member e _ => depth e + 1
  | .key e => depth e + 1
  | .binary _ l r => max (depth l) (depth r) + 1
  | .unary _ e => depth e + 1
  | .cond t y n => max (depth t) (max (depth y) (depth n)) + 1
  | .call _ args => depthAll args + 1
  | .lambda _ body => depth body + 1
  | .new _ members => depthMembers members + 1
  | .init _ bindings => depthBindings bindings + 1

def depthAll : List Expr → Nat
  | [] => 0
  | e :: rest => max (depth e) (depthAll rest)

def depthMembers : List (PropertyRef × Expr) → Nat
  | [] => 0
  | (_, e) :: rest => max (depth e) (depthMembers rest)

def depthBindings : List Binding → Nat
  | [] => 0
  | .assign _ e :: rest => max (depth e) (depthBindings rest)
  | .list _ es :: rest => max (depthAll es) (depthBindings rest)
end

end Expr

/-! ### Equality -/

def Param.equals (p q : Param) : Bool := p.id == q.id && p.name == q.name && p.type == q.type

/-- Two lists of one length whose elements are related one by one. -/
def allPairs {α : Type} (r : α → α → Bool) : List α → List α → Bool
  | [], [] => true
  | a :: as, b :: bs => r a b && allPairs r as bs
  | _, _ => false

def Literal.equals : Literal → Literal → Bool
  | .value a, .value b => a.equals b
  | .list a, .list b => allPairs Value.equals a b
  | .entity n a, .entity m b =>
    n == m && allPairs (fun f g => f.1 == g.1 && f.2.equals g.2) a b
  | _, _ => false

namespace Expr

mutual
/-- Equality of expressions. -/
def equals : Expr → Expr → Bool
  | .source a, .source b => a == b
  | .const a, .const b => a.equals b
  | .param a, .param b => a.equals b
  | .member a p, .member b q => equals a b && p.same q
  | .key a, .key b => equals a b
  | .binary o a b, .binary o' a' b' => o == o' && equals a a' && equals b b'
  | .unary o a, .unary o' a' => o == o' && equals a a'
  | .cond a b c, .cond a' b' c' => equals a a' && equals b b' && equals c c'
  | .call m as, .call m' bs => m == m' && equalAll as bs
  | .lambda ps a, .lambda qs b => allPairs Param.equals ps qs && equals a b
  | .new t ms, .new t' ms' => t == t' && equalMembers ms ms'
  | .init t bs, .init t' bs' => t == t' && equalBindings bs bs'
  | _, _ => false

def equalAll : List Expr → List Expr → Bool
  | [], [] => true
  | a :: as, b :: bs => equals a b && equalAll as bs
  | _, _ => false

def equalMembers : List (PropertyRef × Expr) → List (PropertyRef × Expr) → Bool
  | [], [] => true
  | (p, a) :: as, (q, b) :: bs => p.same q && equals a b && equalMembers as bs
  | _, _ => false

def equalBindings : List Binding → List Binding → Bool
  | [], [] => true
  | .assign p a :: as, .assign q b :: bs => p.same q && equals a b && equalBindings as bs
  | .list p a :: as, .list q b :: bs => p.same q && equalAll a b && equalBindings as bs
  | _, _ => false
end

end Expr

end EntityQuery
