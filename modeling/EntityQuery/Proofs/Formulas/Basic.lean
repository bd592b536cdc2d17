import EntityQuery.Proofs.Filters.Basic

/-!
Formulas: values and conditions over scalar members, with null.

* Unlike a filter, a formula may be true of a missing value: it has negation, tests for null, values
  in place of null and conditional values.
* `expr` is the expression of a formula, `typed` says that it fits a catalog, `value` and `truth` are
  what it is for rows of a database.
* `reads` lists the references that a formula follows. What it follows only outside of disjunctions
  has to lead to a row (`anchored`).
-/

namespace EntityQuery

open Sql

/-- A value or a condition over the scalar members of rows. -/
inductive Formula where
  | const (v : Value)
  | member (m : Member)
  | compare (op : Comparison) (l r : Formula)
  /-- A value, or another one in place of null. -/
  | coalesce (l r : Formula)
  | and (l r : Formula)
  | or (l r : Formula)
  | not (f : Formula)
  | cond (test yes no : Formula)
  /-- A value is in a list. -/
  | among (vs : List Value) (item : Formula)
  deriving Repr

namespace Formula

def expr : Formula → Expr
  | .const v => .const (.value v)
  | .member m => m.expr
  | .compare op l r => .binary op.operator l.expr r.expr
  | .coalesce l r => .binary .coalesce l.expr r.expr
  | .and l r => .binary .and l.expr r.expr
  | .or l r => .binary .or l.expr r.expr
  | .not f => .unary .not f.expr
  | .cond test yes no => .cond test.expr yes.expr no.expr
  | .among vs item => .call .contains [.const (.list vs), item.expr]

/-- The rows of an entity of which a formula is true. -/
def query (entity : String) (x : Param) (f : Formula) : Expr :=
  .call .where [.source entity, .lambda [x] f.expr]

/-- Whether the members of a formula are scalars of a catalog. -/
def typed (c : Catalog) (Γ : Scope) : Formula → Bool
  | .const _ => true
  | .member m => (c.member? Γ m).any PropertyMapping.isScalar
  | .compare _ l r | .coalesce l r | .and l r | .or l r => l.typed c Γ && r.typed c Γ
  | .not f => f.typed c Γ
  | .cond test yes no => test.typed c Γ && yes.typed c Γ && no.typed c Γ
  | .among _ item => item.typed c Γ

/-- Whether a formula is the null constant. -/
def isNull : Formula → Bool
  | .const v => v.isNull
  | _ => false

def isMember : Formula → Bool
  | .member _ => true
  | _ => false

end Formula

/-! ### Meaning -/

namespace Sql.Engine

/-- An operator of which an operand may be the null constant. To compare a value with it is to test
the value for null. -/
def relate (e : Engine) (op : BinaryOp) (leftNull rightNull : Bool) (v w : Value) : Value :=
  let tested := if leftNull then w else v
  if leftNull || rightNull then
    match op with
    | .equal => .boolean tested.isNull
    | .notEqual => .boolean !tested.isNull
    | op => e.binary op v w
  else e.binary op v w

/-- Whether a value holds as a condition; a member does if it is equal to true. -/
def condition (e : Engine) (isMember : Bool) (v : Value) : Option Bool :=
  if isMember then e.equal v (.boolean true) else truthOf v

end Sql.Engine

namespace Formula

/-- The value of a formula for the rows that the parameters stand for. A null is in no list, and no
null is in a list. -/
def value (st : Store) (rows : ParamId → Row) : Formula → Value
  | .const v => v
  | .member m => m.value st rows
  | .compare op l r =>
    st.engine.relate op.sql l.isNull r.isNull (l.value st rows) (r.value st rows)
  | .coalesce l r => st.engine.binary .coalesce (l.value st rows) (r.value st rows)
  | .and l r => ofTruth (truthAnd (st.engine.condition l.isMember (l.value st rows))
      (st.engine.condition r.isMember (r.value st rows)))
  | .or l r => ofTruth (truthOr (st.engine.condition l.isMember (l.value st rows))
      (st.engine.condition r.isMember (r.value st rows)))
  | .not f => ofTruth ((st.engine.condition f.isMember (f.value st rows)).map (! ·))
  | .cond test yes no =>
    if st.engine.condition test.isMember (test.value st rows) = some true then yes.value st rows
    else no.value st rows
  | .among vs item => ofTruth (st.engine.among (item.value st rows) (vs.filter fun v => !v.isNull))

/-- The truth of a formula, which may be unknown. -/
def truth (st : Store) (rows : ParamId → Row) (f : Formula) : Option Bool :=
  st.engine.condition f.isMember (f.value st rows)

/-- Whether a formula is true of a row. -/
def holds (st : Store) (f : Formula) (row : Row) : Bool := f.truth st (fun _ => row) == some true

end Formula

/-! ### References -/

/-- References from a row, and whether they are followed under a disjunction. -/
structure Navigation where
  wide : Bool
  path : List PropertyRef
  deriving DecidableEq, Repr

namespace Navigation

variable {st : Store} {log log' es : List Navigation} {path : List PropertyRef} {row : Row}

/-- Whether references, which others may go on from, are followed under a disjunction. -/
def loosens (log : List Navigation) (path : List PropertyRef) : Bool :=
  log.any fun e => e.wide && decide (path <+: e.path)

/-- Whether every chain of references in `es` leads to a row, those aside that the log follows under a
disjunction. -/
def anchors (st : Store) (log es : List Navigation) (row : Row) : Bool :=
  es.all fun e => e.path.inits.all fun path =>
    path.isEmpty || loosens log path || !(path.foldl st.refer row).isEmpty

lemma loosens_eq_true : loosens log path = true ↔ ∃ e ∈ log, e.wide = true ∧ path <+: e.path := by
  simp [loosens]

lemma anchors_eq_true : anchors st log es row = true ↔ ∀ e ∈ es, ∀ path, path <+: e.path → path ≠ [] →
    loosens log path = false → path.foldl st.refer row ≠ [] := by
  simp only [anchors, List.all_eq_true, List.mem_inits, Bool.or_eq_true, List.isEmpty_iff,
    Bool.not_eq_true', List.isEmpty_eq_false_iff]
  constructor
  · intro h e he path hpath hne hloose
    rcases h e he path hpath with (hnil | hloose') | hleads
    · exact absurd hnil hne
    · simp [hloose] at hloose'
    · exact hleads
  · intro h e he path hpath
    by_cases hne : path = []
    · exact .inl (.inl hne)
    · cases hloose : loosens log path with
      | true => exact .inl (.inr rfl)
      | false => exact .inr (h e he path hpath hne hloose)

lemma loosens_append : loosens (log ++ log') path = (loosens log path || loosens log' path) :=
  List.any_append

lemma anchors_append (st : Store) (log es es' : List Navigation) (row : Row) :
    anchors st log (es ++ es') row = (anchors st log es row && anchors st log es' row) :=
  List.all_append

/-- The more a log follows under disjunctions, the fewer chains have to lead to rows. -/
lemma anchors_mono (hloosens : ∀ path, loosens log path = true → loosens log' path = true)
    (h : anchors st log es row = true) : anchors st log' es row = true := by
  rw [anchors_eq_true] at h ⊢
  intro e he path hpath hne hloose
  refine h e he path hpath hne ?_
  cases hlog : loosens log path with
  | false => rfl
  | true => rw [← hloose, hloosens path hlog]

end Navigation

namespace Formula

/-- The references that the members of a formula follow. -/
def reads (wide : Bool) : Formula → List Navigation
  | .const _ => []
  | .member m => [⟨wide, m.path⟩]
  | .compare _ l r | .coalesce l r | .and l r => l.reads wide ++ r.reads wide
  | .or l r => l.reads true ++ r.reads true
  | .not f => f.reads wide
  | .cond test yes no => test.reads wide ++ (yes.reads wide ++ no.reads wide)
  | .among _ item => item.reads wide

/-- Whether references, which others may go on from, are followed under a disjunction. -/
def loosens (f : Formula) (path : List PropertyRef) : Bool :=
  (f.reads false).any fun e => e.wide && decide (path <+: e.path)

/-- Whether every chain of references that is followed only outside of disjunctions leads to a row. -/
def anchored (st : Store) (f : Formula) (row : Row) : Bool :=
  (f.reads false).all fun e => e.path.inits.all fun path =>
    path.isEmpty || f.loosens path || !(path.foldl st.refer row).isEmpty

end Formula

end EntityQuery
