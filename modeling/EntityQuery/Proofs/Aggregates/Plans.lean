import EntityQuery.Proofs.Formulas.Basic
import Mathlib.Data.List.Sort
import Mathlib.Data.List.Zip

/-!
Queries of filters, orders and pages over the rows of one entity.

* A query is a row of clauses. `Clause.expr` is their expression, `Plan` is what they ask for: a later
  page replaces an earlier one, and filters apply before orders and pages wherever they stand.
* `Plan.rows` are the rows that a plan asks for, `Plan.found` those before the page.
* A formula is `own` if it reads nothing but members of the rows themselves.
-/

namespace EntityQuery

open Sql

/-! ### Clauses -/

/-- Whether a formula reads members of the rows themselves only. -/
def Formula.own (f : Formula) : Bool := (f.reads false).all fun e => e.path.isEmpty

/-- A formula over the rows that a parameter stands for. -/
structure Lambda where
  param : Param
  body : Formula
  deriving Repr

namespace Lambda

def expr (l : Lambda) : Expr := .lambda [l.param] l.body.expr

def value (st : Store) (l : Lambda) (row : Row) : Value := l.body.value st fun _ => row

def holds (st : Store) (l : Lambda) (row : Row) : Bool := l.body.holds st row

/-- Whether a formula fits the rows of an entity. -/
def typed (c : Catalog) (entity : String) (l : Lambda) : Bool :=
  l.body.typed c [(l.param.id, entity)] && l.body.own

end Lambda

/-- An operator on the rows of an entity. -/
inductive Clause where
  | filter (test : Lambda)
  /-- Sorts the rows, instead of the orders before it or to break their ties. -/
  | order (restart ascending : Bool) (key : Lambda)
  | skip (count : Int64)
  | take (count : Int64)
  | distinct
  deriving Repr

namespace Clause

/-- The method of an order. -/
def orderMethod (restart ascending : Bool) : Method :=
  match restart, ascending with
  | true, true => .orderBy
  | true, false => .orderByDescending
  | false, true => .thenBy
  | false, false => .thenByDescending

/-- The expression of a clause after the expression of a query. -/
def expr (q : Expr) : Clause → Expr
  | .filter test => .call .where [q, test.expr]
  | .order restart ascending key => .call (orderMethod restart ascending) [q, key.expr]
  | .skip count => .call .skip [q, .const (.value (.int count))]
  | .take count => .call .take [q, .const (.value (.int count))]
  | .distinct => .call .distinct [q]

/-- The expression of clauses over the rows of an entity. -/
def query (entity : String) (cs : List Clause) : Expr := cs.foldl expr (.source entity)

/-- Whether a clause fits the rows of an entity. -/
def typed (c : Catalog) (entity : String) : Clause → Bool
  | .filter test => test.typed c entity
  | .order _ _ key => key.typed c entity
  | .skip count | .take count => decide (0 ≤ count.toInt)
  | .distinct => true

end Clause

/-! ### Plans -/

/-- What clauses ask for. -/
structure Plan where
  tests : List Lambda := []
  /-- The keys to sort by, and whether they rise. -/
  orders : List (Bool × Lambda) := []
  skip : Option Nat := none
  take : Option Nat := none
  distinct : Bool := false

namespace Plan

/-- What a further clause asks for. -/
def add (p : Plan) : Clause → Plan
  | .filter test => { p with tests := p.tests ++ [test] }
  | .order restart ascending key =>
    { p with orders := (if restart then [] else p.orders) ++ [(ascending, key)] }
  | .skip count => { p with skip := some count.toInt.toNat }
  | .take count => { p with take := some count.toInt.toNat }
  | .distinct => { p with distinct := true }

def ofClauses (cs : List Clause) : Plan := cs.foldl add {}

def isPaged (p : Plan) : Bool := p.skip.isSome || p.take.isSome

/-- Whether a row passes all tests. -/
def passes (st : Store) (p : Plan) (row : Row) : Bool := p.tests.all (·.holds st row)

/-- Whether a row may stand before another one. -/
def before (st : Store) (p : Plan) (t u : Row) : Bool :=
  p.orders.foldr (fun o rest =>
    let v := o.2.value st t
    let w := o.2.value st u
    if st.engine.alike v w then rest
    else if o.1 then st.engine.precedes v w else st.engine.precedes w v) true

/-- The page of a list. -/
def page {α : Type} (p : Plan) (as : List α) : List α :=
  match p.take with
  | some n => (as.drop (p.skip.getD 0)).take n
  | none => as.drop (p.skip.getD 0)

/-- The rows that pass all tests, sorted. -/
def found (st : Store) (p : Plan) (rows : List Row) : List Row :=
  (rows.filter (p.passes st)).mergeSort (p.before st)

/-- The rows that a plan asks for, where no two rows are alike. -/
def rows (st : Store) (p : Plan) (rows : List Row) : List Row := p.page (p.found st rows)

lemma map_page {α β : Type} (p : Plan) (f : α → β) (as : List α) :
    (p.page as).map f = p.page (as.map f) := by
  cases htake : p.take <;> simp [page, htake]

lemma page_of_not_paged {α : Type} {p : Plan} (h : p.isPaged = false) (as : List α) :
    p.page as = as := by
  simp only [isPaged, Bool.or_eq_false_iff, Option.isSome_eq_false_iff, Option.isNone_iff_eq_none] at h
  simp [page, h]

lemma perm_found (st : Store) (p : Plan) (rows : List Row) :
    (p.found st rows).Perm (rows.filter (p.passes st)) := List.mergeSort_perm _ _

lemma perm_rows (st : Store) {p : Plan} (hpaged : p.isPaged = false) (rows : List Row) :
    (p.rows st rows).Perm (rows.filter (p.passes st)) := by
  rw [Plan.rows, page_of_not_paged hpaged]
  exact p.perm_found st rows

/-- Without an order, rows stay as they stand. -/
lemma found_of_unordered (st : Store) {p : Plan} (horders : p.orders = []) (rows : List Row) :
    p.found st rows = rows.filter (p.passes st) := by
  refine List.mergeSort_of_pairwise (List.pairwise_of_forall fun _ _ => ?_)
  rw [Plan.before, horders]
  rfl

end Plan

/-! ### Rows that are alike -/

namespace Sql.Engine

/-- Whether rows have values that are the same or both null, one after the other. -/
def alikeRows (e : Engine) (x y : Row) : Bool :=
  x.length == y.length && (x.zip y).all fun p => e.alike p.1.2 p.2.2

lemma alike_symm (e : Engine) {v w : Value} (h : e.alike v w = true) : e.alike w v = true := by
  unfold alike at h ⊢
  cases hv : v.isNull <;> cases hw : w.isNull <;> simp_all
  exact e.same_symm h

lemma alikeRows_symm (e : Engine) {x y : Row} (h : e.alikeRows x y = true) :
    e.alikeRows y x = true := by
  unfold alikeRows at h ⊢
  simp only [Bool.and_eq_true, beq_iff_eq, List.all_eq_true] at h ⊢
  refine ⟨h.1.symm, fun p hp => e.alike_symm ?_⟩
  refine h.2 (p.2, p.1) ?_
  rw [← List.zip_swap, List.mem_map]
  exact ⟨p, hp, rfl⟩

/-- Rows of which no two are alike have no repetitions. -/
lemma distinctRows_eq (e : Engine) {rows : List Row}
    (h : rows.Pairwise fun x y => e.alikeRows x y = false) :
    Evaluator.distinctRows e.alikeRows rows = rows := by
  induction rows with
  | nil => rfl
  | cons row rows ih =>
    rw [List.pairwise_cons] at h
    rw [Evaluator.distinctRows, ih h.2, List.filter_eq_self.2 fun other hother => ?_]
    rw [h.1 other hother]
    rfl

end Sql.Engine

/-- No two rows of a list are alike. -/
def Store.Apart (st : Store) (rows : List Row) : Prop :=
  rows.Pairwise fun x y => st.engine.alikeRows x y = false

lemma Store.Apart.perm {st : Store} {rows rows' : List Row} (h : st.Apart rows) (hp : rows.Perm rows') :
    st.Apart rows' := by
  refine hp.pairwise h ?_
  intro x y hxy
  cases hyx : st.engine.alikeRows y x with
  | false => rfl
  | true => rw [← hxy, st.engine.alikeRows_symm hyx]

lemma Store.Apart.sublist {st : Store} {rows rows' : List Row} (h : st.Apart rows)
    (hs : rows'.Sublist rows) : st.Apart rows' := List.Pairwise.sublist hs h

end EntityQuery
