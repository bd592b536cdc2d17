import EntityQuery.Proofs.Formulas.Routes

/-!
What compilation makes of formulas.

* `Carries`: a node has a value in every graph that comes later. It is kept apart whether the node is
  the null constant, which turns comparisons into tests, or a bare column, which is a condition only
  if it is compared with true.
* `Compiles`: in a request over a table, the expression of a formula stands for its value, and the
  joins follow its references. There is one lemma for every form of formula; `compiles_formula` puts
  them together.
-/

namespace EntityQuery

open Sql Store Compile

/-! ### Values of nodes -/

/-- Only tests for equality are made different by the null constant. -/
lemma Sql.Engine.relate_eq_binary {e : Engine} (op : BinaryOp) (hop : op ≠ .equal ∧ op ≠ .notEqual)
    (leftNull rightNull : Bool) (v w : Value) :
    e.relate op leftNull rightNull v w = e.binary op v w := by
  cases op <;> simp_all [relate]

namespace Sql.Graph

variable {g : Graph} {μ : Part → Nat} (hμ : g.Ranked μ) {e : Engine} {db : Database} {n : NodeId}
  (ρ : Env) (γ : List Env)
include hμ

lemma value_relate {op : BinaryOp} {l r : NodeId} (h : g.node n = .binary op l r) :
    ((g.evaluator e db).term n).value ρ γ = e.relate op (g.node l).isNull (g.node r).isNull
      (((g.evaluator e db).term l).value ρ γ) (((g.evaluator e db).term r).value ρ γ) := by
  rw [term_eq hμ, h]
  rfl

lemma value_not {c : NodeId} (h : g.node n = .unary .not (some c)) :
    ((g.evaluator e db).term n).value ρ γ =
      ofTruth ((truthOf (((g.evaluator e db).term c).value ρ γ)).map not) := by
  rw [term_eq hμ, h]
  rfl

lemma value_cond {c y z : NodeId} (h : g.node n = .cond c y z) :
    ((g.evaluator e db).term n).value ρ γ =
      if isTrue (((g.evaluator e db).term c).value ρ γ) then ((g.evaluator e db).term y).value ρ γ
      else ((g.evaluator e db).term z).value ρ γ := by
  rw [term_eq hμ, h]
  rfl

end Sql.Graph

section Carries

variable (st : Store) (S : Site)

/-- A node has a value, whatever comes later, and it is no aggregate. -/
structure Carries (t : CompileState) (n : NodeId) (null column : Bool) (f : Env → Value) : Prop where
  lt : n.index < t.graph.entries.size
  isNull : (t.graph.node n).isNull = null
  isColumn : (t.graph.node n).isColumn = column
  value : ∀ G μ ρ, G.Ranked μ → View st S t G ρ → st.valueAt G n ρ = f ρ
  plain : ∀ G μ ρ, G.Ranked μ → View st S t G ρ →
    ((G.evaluator st.engine st.database).term n).summary = false

end Carries

variable {st : Store}

namespace Carries

variable {S : Site} {s t : CompileState} {n : NodeId} {null column : Bool} {f : Env → Value}

lemma step (hn : Carries st S s n null column f) (hst : Step st S s t) :
    Carries st S t n null column f where
  lt := hn.lt.trans_le hst.grown.kept.entries
  isNull := by rw [hst.grown.kept.node n hn.lt, hn.isNull]
  isColumn := by rw [hst.grown.kept.node n hn.lt, hn.isColumn]
  value G μ ρ hμ hv := hn.value G μ ρ hμ (hst.view hv)
  plain G μ ρ hμ hv := hn.plain G μ ρ hμ (hst.view hv)

/-- A new node carries what the rule for it says. -/
lemma add {x : Node} (hs : Ready st S s) (hx : ∀ c ∈ x.children, c.index < s.graph.entries.size)
    (hsub : ∀ r, x ≠ .sub r)
    (hf : ∀ G μ ρ, G.Ranked μ → View st S s G ρ → G.node ⟨s.graph.entries.size⟩ = x →
      st.valueAt G ⟨s.graph.entries.size⟩ ρ = f ρ ∧
        ((G.evaluator st.engine st.database).term ⟨s.graph.entries.size⟩).summary = false) :
    Carries st S { s with graph := (s.graph.add x).2 } ⟨s.graph.entries.size⟩ x.isNull x.isColumn f := by
  have hlater : ∀ G μ ρ, G.Ranked μ →
      View st S { s with graph := (s.graph.add x).2 } G ρ →
      st.valueAt G ⟨s.graph.entries.size⟩ ρ = f ρ ∧
        ((G.evaluator st.engine st.database).term ⟨s.graph.entries.size⟩).summary = false := by
    intro G μ ρ hμ hv
    refine hf G μ ρ hμ ((step_add hs hx hsub).view hv) ?_
    rw [hv.node (by simp)]
    simp
  exact ⟨by simp, by simp, by simp, fun G μ ρ hμ hv => (hlater G μ ρ hμ hv).1,
    fun G μ ρ hμ hv => (hlater G μ ρ hμ hv).2⟩

end Carries

/-! ### Steps that join nothing -/

section Idle

variable {Γ : Scope}

/-- Compilation goes on, and no join is new. -/
structure Idle (st : Store) (Γ : Scope) (s t : CompileState) : Prop where
  step : Step st (.root Γ) s t
  charted : ∀ log, ChartedAt st s log → ChartedAt st t log

variable {s t u : CompileState} {n : NodeId} {null column : Bool} {f g : Env → Value}

lemma Idle.refl (hs : Ready st (.root Γ) s) : Idle st Γ s s := ⟨.refl hs, fun _ => id⟩

lemma Idle.trans (hst : Idle st Γ s t) (htu : Idle st Γ t u) : Idle st Γ s u :=
  ⟨hst.step.trans htu.step, fun log h => htu.charted log (hst.charted log h)⟩

lemma idle_add {x : Node} (hs : Ready st (.root Γ) s)
    (hx : ∀ c ∈ x.children, c.index < s.graph.entries.size) (hsub : ∀ r, x ≠ .sub r) :
    Idle st Γ s { s with graph := (s.graph.add x).2 } :=
  ⟨step_add hs hx hsub, fun _ h => h.add x⟩

lemma carries_const (hs : Ready st (.root Γ) s) (v : Value) :
    Idle st Γ s { s with graph := (s.graph.add (.const v)).2 } ∧
      Carries st (.root Γ) { s with graph := (s.graph.add (.const v)).2 } ⟨s.graph.entries.size⟩
        v.isNull false fun _ => v := by
  refine ⟨idle_add hs (by simp [Node.children]) (by simp), ?_⟩
  refine Carries.add (x := .const v) hs (by simp [Node.children]) (by simp) ?_
  intro G μ ρ hμ _ hnode
  refine ⟨G.value_const hμ ρ [ρ] hnode, ?_⟩
  rw [G.term_eq hμ, hnode]
  rfl

lemma carries_binary (hs : Ready st (.root Γ) s) (op : BinaryOp) {l r : NodeId} {nl cl nr cr : Bool}
    (hl : Carries st (.root Γ) s l nl cl f) (hr : Carries st (.root Γ) s r nr cr g) :
    Idle st Γ s { s with graph := (s.graph.add (.binary op l r)).2 } ∧
      Carries st (.root Γ) { s with graph := (s.graph.add (.binary op l r)).2 }
        ⟨s.graph.entries.size⟩ false false fun ρ => st.engine.relate op nl nr (f ρ) (g ρ) := by
  have hchildren : ∀ c ∈ (Node.binary op l r).children, c.index < s.graph.entries.size :=
    Node.forall_children_binary hl.lt hr.lt
  refine ⟨idle_add hs hchildren (by simp), Carries.add (x := .binary op l r) hs hchildren (by simp) ?_⟩
  intro G μ ρ hμ hv hnode
  constructor
  · rw [Store.valueAt, Term.alone, G.value_relate hμ ρ [ρ] hnode, hv.node hl.lt, hv.node hr.lt,
      hl.isNull, hr.isNull]
    exact congrArg₂ _ (hl.value G μ ρ hμ hv) (hr.value G μ ρ hμ hv)
  · rw [G.term_eq hμ, hnode]
    exact Bool.or_eq_false_iff.2 ⟨hl.plain G μ ρ hμ hv, hr.plain G μ ρ hμ hv⟩

/-- A condition is no bare column. -/
lemma carries_condition (hs : Ready st (.root Γ) s) (hn : Carries st (.root Γ) s n null column f) :
    ∃ m t null' f', Runs (condition n) s m t ∧ Idle st Γ s t ∧
      Carries st (.root Γ) t m null' false f' ∧
      ∀ ρ, truthOf (f' ρ) = st.engine.condition column (f ρ) := by
  cases hcolumn : column with
  | false =>
    rw [hcolumn] at hn
    refine ⟨n, s, null, f, Runs.bind (runs_graph.2 ⟨rfl, rfl⟩) ?_, .refl hs, hn, fun _ => rfl⟩
    rw [hn.isColumn]
    exact runs_pure.2 ⟨rfl, rfl⟩
  | true =>
    rw [hcolumn] at hn
    obtain ⟨hidle, hc⟩ := carries_const hs (.boolean true)
    have hs' := hidle.step.ready hs
    obtain ⟨hidle', hc'⟩ := carries_binary hs' .equal (hn.step hidle.step) hc
    have hnull : null = false := by
      have := hn.isColumn
      rw [← hn.isNull]
      cases hnode : s.graph.node n <;> simp_all [Node.isColumn, Node.isNull]
    refine ⟨_, _, _, _, ?_, hidle.trans hidle', hc', fun ρ => ?_⟩
    · refine Runs.bind (runs_graph.2 ⟨rfl, rfl⟩) ?_
      rw [hn.isColumn]
      exact Runs.bind (runs_add.2 ⟨rfl, rfl⟩) (runs_add.2 ⟨rfl, rfl⟩)
    · have hrelate : st.engine.relate .equal null (Value.boolean true).isNull (f ρ) (.boolean true) =
          ofTruth (st.engine.equal (f ρ) (.boolean true)) := by
        rw [hnull]
        rfl
      rw [hrelate, truthOf_ofTruth]
      rfl

end Idle

/-! ### Rows -/

section Rows

variable {Γ : Scope}

/-- In a request over a table, an expression stands for the row at the end of references. -/
def Leads (st : Store) (Γ : Scope) (e : Expr) (path : List PropertyRef) : Prop :=
  ∀ s fuel, Ready st (.root Γ) s → e.depth ≤ fuel →
    ∃ a t, Runs (visit [] fuel e) s (.row a) t ∧
      Located st (.root Γ) s t a (fun ρ => path.foldl st.refer (ρ ⟨0⟩)) ∧
      ∀ log, ChartedAt st s log → Stands st t log s.widen path a

lemma leads_param {x : Param} {entity : String} (hx : Γ.lookup x.id = some entity) :
    Leads st Γ (.param x) [] := by
  intro s fuel hs hfuel
  obtain ⟨fuel, rfl⟩ := fuel_succ hfuel
  refine ⟨⟨0⟩, s, ?_, ⟨.refl hs, hs.fits.place_lt x.id, fun _ _ _ => rfl, .of_joins rfl⟩,
    fun log h => h.stands s.widen⟩
  rw [visit_succ]
  refine Runs.bind (runs_active.2 ⟨hs.active, rfl⟩) (Runs.bind (runs_graph.2 ⟨rfl, rfl⟩) ?_)
  rw [hs.fits.bound x.id entity hx]
  exact runs_pure.2 ⟨rfl, rfl⟩

variable (hc : st.catalog.validate = .ok ())
include hc

lemma leads_reference {e : Expr} {path : List PropertyRef} (he : Leads st Γ e path)
    (hkey : ∀ k, e ≠ .key k) {p : PropertyRef} {name column target : String}
    (hp : st.catalog.propertyMapping p = .ok ⟨name, column, .reference target⟩)
    (htypes : st.catalog.Types p) : Leads st Γ (.member e p) (path ++ [p]) := by
  intro s fuel hs hfuel
  obtain ⟨fuel, rfl⟩ := fuel_succ hfuel
  rw [Expr.depth] at hfuel
  obtain ⟨a, t, hrun, ha, hstands⟩ := he s fuel hs (Nat.le_of_succ_le_succ hfuel)
  have ht := ha.step.ready hs
  obtain ⟨b, u, hrun', hb⟩ := runs_reference hc ht ha.lt hp (.member e p)
  have hplace : ∀ G ρ, View st (.root Γ) u G ρ → ρ a = path.foldl st.refer (ρ ⟨0⟩) :=
    fun G ρ hv => ha.place G ρ (hb.step.view hv)
  have hrefer : ∀ ρ : Env, (path ++ [p]).foldl st.refer (ρ ⟨0⟩) =
      st.refer (path.foldl st.refer (ρ ⟨0⟩)) p := fun ρ => by rw [List.foldl_append]; rfl
  refine ⟨b, u, runs_visit_member hkey hrun hrun', ⟨ha.step.trans hb.step, hb.lt, fun G ρ hv => ?_, ?_⟩,
    fun log h => ?_⟩
  · rw [hb.place G ρ hv, hplace G ρ hv, hrefer]
  · refine (ha.strict.trans hb.step hb.strict).mono fun G ρ hv hne => ⟨fun hnil => ?_, ?_⟩
    · rw [hrefer, hnil, refer_nil] at hne
      exact hne rfl
    · rwa [hplace G ρ hv, ← hrefer]
  · have hwiden : t.widen = s.widen := ha.step.widen_eq
    rw [← hwiden]
    exact Stands.reference ht (hwiden ▸ hstands log h) hp htypes hrun'

lemma leads_path {path path' : List PropertyRef} {e : Expr} (he : Leads st Γ e path')
    (hkey : ∀ k, e ≠ .key k) {entity target : String}
    (hpath : st.catalog.follow? entity path = some target) :
    Leads st Γ (path.foldl Expr.member e) (path' ++ path) := by
  induction path generalizing e path' entity with
  | nil =>
    rw [List.append_nil]
    exact he
  | cons p path ih =>
    rw [Catalog.follow?] at hpath
    split at hpath
    · rename_i name column next hp
      obtain ⟨hmapping, htype⟩ := stored?_eq_some hp
      have hmember := leads_reference hc he hkey hmapping ⟨_, hmapping, htype⟩
      have := ih hmember (by simp) hpath
      rwa [List.append_assoc] at this
    · cases hpath

/-- The references of a member lead to the row that it reads. -/
lemma leads_member {m : Member} {stored : PropertyMapping}
    (hm : st.catalog.member? Γ m = some stored) :
    st.catalog.propertyMapping m.property = .ok stored ∧ Leads st Γ m.rowExpr m.path := by
  obtain ⟨entity, hentity, hrest⟩ := Option.bind_eq_some_iff.1 hm
  obtain ⟨target, htarget, hstored⟩ := Option.bind_eq_some_iff.1 hrest
  exact ⟨(stored?_eq_some hstored).1,
    (leads_path hc (leads_param hentity) (by simp) htarget :)⟩

end Rows

/-! ### Formulas -/

/-- What there is to know about the value of a formula. -/
structure Compiled (st : Store) (Γ : Scope) (s t : CompileState) (n : NodeId) (f : Formula) : Prop where
  step : Step st (.root Γ) s t
  carries : Carries st (.root Γ) t n f.isNull f.isMember fun ρ => f.value st fun _ => ρ ⟨0⟩
  charted : ∀ log, ChartedAt st s log → ChartedAt st t (log ++ f.reads s.widen)

/-- In a request over a table, the expression of a formula stands for its value. -/
def Compiles (st : Store) (Γ : Scope) (f : Formula) : Prop :=
  ∀ s fuel, Ready st (.root Γ) s → f.expr.depth ≤ fuel →
    ∃ n t, Runs (visit [] fuel f.expr) s (.value n) t ∧ Compiled st Γ s t n f

section Formulas

variable {Γ : Scope} {s t : CompileState}

lemma compiles_const (v : Value) : Compiles st Γ (.const v) := by
  intro s fuel hs hfuel
  obtain ⟨fuel, rfl⟩ := fuel_succ hfuel
  obtain ⟨hidle, hcarries⟩ := carries_const hs v
  refine ⟨_, _, Runs.map (runs_add.2 ⟨rfl, rfl⟩), hidle.step, hcarries, fun log h => ?_⟩
  rw [Formula.reads, List.append_nil]
  exact hidle.charted log h

/-- A member is a column that the catalog knows. -/
lemma runs_column (hc : st.catalog.validate = .ok ()) {m : Member}
    (hm : (st.catalog.member? Γ m).any PropertyMapping.isScalar) (hs : Ready st (.root Γ) s) {fuel : Nat}
    (hfuel : (Formula.member m).expr.depth ≤ fuel) :
    ∃ n t, Runs (visit [] fuel (Formula.member m).expr) s (.value n) t ∧
      Compiled st Γ s t n (.member m) ∧
      ∃ a c, t.graph.node n = .column a c ∧ st.catalog.columnName m.property = .ok c := by
  obtain ⟨fuel, rfl⟩ := fuel_succ hfuel
  cases hstored : st.catalog.member? Γ m with
  | none => simp [hstored] at hm
  | some stored =>
    obtain ⟨hp, hrow⟩ := leads_member hc hstored
    have hdepth : (Formula.member m).expr.depth = m.rowExpr.depth + 1 := by
      rw [Formula.expr, Member.expr, Expr.depth]
    obtain ⟨a, t, hrun, ha, hstands⟩ := hrow s fuel hs (by omega)
    have ht := ha.step.ready hs
    have hlocate : Runs (t.mapping.locate ⟨0⟩ a m.property t.widen) t.graph
        (.value ⟨t.graph.entries.size⟩) (t.graph.add (.column a stored.column)).2 := by
      refine Mapping.runs_locate_scalar (by rw [ht.catalog, hp]) ?_
      rwa [hstored, Option.any_some] at hm
    have hidle : Idle st Γ t { t with graph := (t.graph.add (.column a stored.column)).2 } :=
      idle_add ht (by simp [Node.children]) (by simp)
    have hcolumn : st.catalog.columnName m.property = .ok stored.column := by
      rw [Catalog.columnName, hp]
      rfl
    refine ⟨_, _, runs_visit_member m.rowExpr_ne_key hrun (runs_member ht hlocate _),
      ⟨ha.step.trans hidle.step, ?_, fun log h => hidle.charted _ (hstands log h).charted⟩,
      a, stored.column, Graph.node_add_self _ _, hcolumn⟩
    refine Carries.add (x := .column a stored.column) ht (by simp [Node.children]) (by simp) ?_
    intro G μ ρ hμ hv hnode
    constructor
    · rw [Store.valueAt, Term.alone, G.value_column hμ ρ [ρ] hnode, ha.place G ρ hv, Formula.value,
        Member.value, hcolumn]
      rfl
    · rw [G.term_eq hμ, hnode]
      rfl

lemma compiles_member (hc : st.catalog.validate = .ok ()) {m : Member}
    (hm : (st.catalog.member? Γ m).any PropertyMapping.isScalar) : Compiles st Γ (.member m) := by
  intro s fuel hs hfuel
  obtain ⟨n, t, hrun, hn, -⟩ := runs_column hc hm hs hfuel
  exact ⟨n, t, hrun, hn⟩

/-- A formula as an operand, after which the request is as it was. -/
lemma Compiled.runs_value {fuel : Nat} {n : NodeId} {f : Formula} (hs : Ready st (.root Γ) s)
    (hn : Compiled st Γ s t n f) (hrun : Runs (visit [] fuel f.expr) s (.value n) t) :
    Runs (value (visit [] fuel) f.expr) s n t :=
  EntityQuery.runs_value hs hrun hn.step

/-- Two formulas, one after the other. -/
lemma runs_pair {l r : Formula} (hl : Compiles st Γ l) (hr : Compiles st Γ r) (fuel : Nat)
    (hs : Ready st (.root Γ) s) (hfuel : max l.expr.depth r.expr.depth ≤ fuel) :
    ∃ n t m u, Runs (value (visit [] fuel) l.expr) s n t ∧ Runs (value (visit [] fuel) r.expr) t m u ∧
      Step st (.root Γ) s u ∧
      Carries st (.root Γ) u n l.isNull l.isMember (fun ρ => l.value st fun _ => ρ ⟨0⟩) ∧
      Carries st (.root Γ) u m r.isNull r.isMember (fun ρ => r.value st fun _ => ρ ⟨0⟩) ∧
      ∀ log, ChartedAt st s log → ChartedAt st u (log ++ (l.reads s.widen ++ r.reads s.widen)) := by
  obtain ⟨n, t, hrun, hn⟩ := hl s fuel hs (by omega)
  have ht := hn.step.ready hs
  obtain ⟨m, u, hrun', hm⟩ := hr t fuel ht (by omega)
  refine ⟨n, t, m, u, hn.runs_value hs hrun, hm.runs_value ht hrun', hn.step.trans hm.step,
    hn.carries.step hm.step, hm.carries, fun log h => ?_⟩
  have := hm.charted _ (hn.charted log h)
  rwa [hn.step.widen_eq, List.append_assoc] at this

/-- An operator that is not logical combines the values of its operands. -/
lemma runs_combined (op : BinaryOperator) (sql : BinaryOp) (hor : (op == .or) = false)
    (hlogical : op.isLogical = false) (hsql : ∀ textual, sqlOperator? op textual = some sql)
    {l r : Formula} (hl : Compiles st Γ l) (hr : Compiles st Γ r) {fuel : Nat}
    (hs : Ready st (.root Γ) s) (hfuel : max l.expr.depth r.expr.depth ≤ fuel) :
    ∃ n t, Runs (visit [] (fuel + 1) (.binary op l.expr r.expr)) s (.value n) t ∧
      Step st (.root Γ) s t ∧
      Carries st (.root Γ) t n false false (fun ρ => st.engine.relate sql l.isNull r.isNull
        (l.value st fun _ => ρ ⟨0⟩) (r.value st fun _ => ρ ⟨0⟩)) ∧
      ∀ log, ChartedAt st s log → ChartedAt st t (log ++ (l.reads s.widen ++ r.reads s.widen)) := by
  obtain ⟨n, t, m, u, hrun, hrun', hstep, hn, hm, hcharted⟩ := runs_pair hl hr fuel hs hfuel
  obtain ⟨hidle, hcarries⟩ := carries_binary (hstep.ready hs) sql hn hm
  refine ⟨_, _, ?_, hstep.trans hidle.step, hcarries, fun log h => hidle.charted _ (hcharted log h)⟩
  rw [visit_succ, Compile.step, binary, hsql]
  dsimp only
  rw [runs_get_bind, hor, Bool.or_false]
  refine runs_widening_self (Runs.bind hrun (Runs.bind hrun' ?_)) hstep.widen_eq
  rw [hlogical]
  exact Runs.map (runs_add.2 ⟨rfl, rfl⟩)

lemma compiles_compare (op : Comparison) {l r : Formula} (hl : Compiles st Γ l)
    (hr : Compiles st Γ r) : Compiles st Γ (.compare op l r) := by
  intro s fuel hs hfuel
  obtain ⟨fuel, rfl⟩ := fuel_succ hfuel
  rw [Formula.expr, Expr.depth] at hfuel
  obtain ⟨n, t, hrun, hstep, hcarries, hcharted⟩ := runs_combined op.operator op.sql
    (by cases op <;> rfl) (by cases op <;> rfl) (fun _ => by cases op <;> rfl) hl hr hs
    (Nat.le_of_succ_le_succ hfuel)
  exact ⟨n, t, hrun, hstep, hcarries, hcharted⟩

lemma compiles_coalesce {l r : Formula} (hl : Compiles st Γ l) (hr : Compiles st Γ r) :
    Compiles st Γ (.coalesce l r) := by
  intro s fuel hs hfuel
  obtain ⟨fuel, rfl⟩ := fuel_succ hfuel
  rw [Formula.expr, Expr.depth] at hfuel
  obtain ⟨n, t, hrun, hstep, hcarries, hcharted⟩ := runs_combined .coalesce .coalesce
    rfl rfl (fun _ => rfl) hl hr hs (Nat.le_of_succ_le_succ hfuel)
  simp only [Engine.relate_eq_binary .coalesce (by simp)] at hcarries
  exact ⟨n, t, hrun, hstep, hcarries, hcharted⟩

/-- Both sides of a logical operator become conditions. -/
lemma runs_logical (op : BinaryOp) {combine : Option Bool → Option Bool → Option Bool}
    (hop : ∀ v w, st.engine.binary op v w = ofTruth (combine (truthOf v) (truthOf w)))
    (hequal : op ≠ .equal ∧ op ≠ .notEqual) {l r : Formula} (hl : Compiles st Γ l)
    (hr : Compiles st Γ r) {fuel : Nat} (hs : Ready st (.root Γ) s)
    (hfuel : max l.expr.depth r.expr.depth ≤ fuel) :
    ∃ n t, Runs (do
        let left ← value (visit [] fuel) l.expr
        let right ← value (visit [] fuel) r.expr
        let left ← condition left
        let right ← condition right
        Meaning.value <$> add (.binary op left right)) s (.value n) t ∧
      Step st (.root Γ) s t ∧
      Carries st (.root Γ) t n false false (fun ρ => ofTruth (combine
        (l.truth st fun _ => ρ ⟨0⟩) (r.truth st fun _ => ρ ⟨0⟩))) ∧
      ∀ log, ChartedAt st s log → ChartedAt st t (log ++ (l.reads s.widen ++ r.reads s.widen)) := by
  obtain ⟨n, t, m, u, hrun, hrun', hstep, hn, hm, hcharted⟩ := runs_pair hl hr fuel hs hfuel
  have hu := hstep.ready hs
  obtain ⟨n', u₁, nl, f', hcond, hidle₁, hn', htruth⟩ := carries_condition hu hn
  have hu₁ := hidle₁.step.ready hu
  obtain ⟨m', u₂, nr, g', hcond', hidle₂, hm', htruth'⟩ :=
    carries_condition hu₁ (hm.step hidle₁.step)
  obtain ⟨hidle₃, hcarries⟩ := carries_binary (hidle₂.step.ready hu₁) op (hn'.step hidle₂.step) hm'
  have hidle := (hidle₁.trans hidle₂).trans hidle₃
  simp only [Engine.relate_eq_binary op hequal, hop, htruth, htruth'] at hcarries
  refine ⟨_, _, Runs.bind hrun (Runs.bind hrun' (Runs.bind hcond (Runs.bind hcond'
    (Runs.map (runs_add.2 ⟨rfl, rfl⟩))))), hstep.trans hidle.step, hcarries,
    fun log h => hidle.charted _ (hcharted log h)⟩

lemma compiles_and {l r : Formula} (hl : Compiles st Γ l) (hr : Compiles st Γ r) :
    Compiles st Γ (.and l r) := by
  intro s fuel hs hfuel
  obtain ⟨fuel, rfl⟩ := fuel_succ hfuel
  rw [Formula.expr, Expr.depth] at hfuel
  obtain ⟨n, t, hrun, hstep, hcarries, hcharted⟩ := runs_logical .and (fun _ _ => rfl)
    (by simp) hl hr hs (Nat.le_of_succ_le_succ hfuel)
  refine ⟨n, t, ?_, hstep, hcarries, hcharted⟩
  change Runs (get >>= fun s => widening (s.widen || false) _) s _ t
  rw [runs_get_bind, Bool.or_false]
  exact runs_widening_self hrun hstep.widen_eq

/-- Under a disjunction references are followed without the loss of rows. -/
lemma compiles_or {l r : Formula} (hl : Compiles st Γ l) (hr : Compiles st Γ r) :
    Compiles st Γ (.or l r) := by
  intro s fuel hs hfuel
  obtain ⟨fuel, rfl⟩ := fuel_succ hfuel
  rw [Formula.expr, Expr.depth] at hfuel
  have hwide : Ready st (.root Γ) { s with widen := true } := { hs with fits := hs.fits }
  obtain ⟨n, t, hrun, hstep, hcarries, hcharted⟩ := runs_logical .or (fun _ _ => rfl)
    (by simp) hl hr hwide (Nat.le_of_succ_le_succ hfuel)
  have hstep' : Step st (.root Γ) s { t with widen := s.widen } := by
    refine ⟨?_, hstep.fits, hstep.grown, fun _ => hstep.widened rfl⟩
    rw [hstep.state]
  refine ⟨n, { t with widen := s.widen }, ?_, hstep', ?_, fun log h => hcharted log h⟩
  · change Runs (get >>= fun s => widening (s.widen || true) _) s _ _
    rw [runs_get_bind, Bool.or_true]
    exact runs_widening.2 ⟨t, hrun, rfl⟩
  · exact ⟨hcarries.lt, hcarries.isNull, hcarries.isColumn,
      fun G μ ρ hμ hv => hcarries.value G μ ρ hμ ⟨hv.kept, hv.settled⟩,
      fun G μ ρ hμ hv => hcarries.plain G μ ρ hμ ⟨hv.kept, hv.settled⟩⟩

/-- A formula as a condition. -/
lemma runs_truth {f : Formula} (hf : Compiles st Γ f) (fuel : Nat) (hs : Ready st (.root Γ) s)
    (hfuel : f.expr.depth ≤ fuel) :
    ∃ n t m u null g, Runs (value (visit [] fuel) f.expr) s n t ∧ Runs (condition n) t m u ∧
      Step st (.root Γ) s u ∧ Carries st (.root Γ) u m null false g ∧
      (∀ ρ, truthOf (g ρ) = f.truth st fun _ => ρ ⟨0⟩) ∧
      ∀ log, ChartedAt st s log → ChartedAt st u (log ++ f.reads s.widen) := by
  obtain ⟨n, t, hrun, hn⟩ := hf s fuel hs hfuel
  have ht := hn.step.ready hs
  obtain ⟨m, u, null, g, hcond, hidle, hm, htruth⟩ := carries_condition ht hn.carries
  exact ⟨n, t, m, u, null, g, hn.runs_value hs hrun, hcond, hn.step.trans hidle.step, hm, htruth,
    fun log h => hidle.charted _ (hn.charted log h)⟩

lemma compiles_not {f : Formula} (hf : Compiles st Γ f) : Compiles st Γ (.not f) := by
  intro s fuel hs hfuel
  obtain ⟨fuel, rfl⟩ := fuel_succ hfuel
  rw [Formula.expr, Expr.depth] at hfuel
  obtain ⟨n, t, m, u, null, g, hrun, hcond, hstep, hm, htruth, hcharted⟩ :=
    runs_truth hf fuel hs (Nat.le_of_succ_le_succ hfuel)
  have hu := hstep.ready hs
  have hchildren : ∀ c ∈ (Node.unary .not (some m)).children, c.index < u.graph.entries.size := by
    simpa [Node.children] using hm.lt
  have hidle : Idle st Γ u { u with graph := (u.graph.add (.unary .not (some m))).2 } :=
    idle_add hu hchildren (by simp)
  refine ⟨⟨u.graph.entries.size⟩, _, ?_, hstep.trans hidle.step, ?_,
    fun log h => hidle.charted _ (hcharted log h)⟩
  · exact Runs.bind hrun (Runs.bind hcond (Runs.map (runs_add.2 ⟨rfl, rfl⟩)))
  · refine Carries.add (x := .unary .not (some m)) hu hchildren (by simp) ?_
    intro G μ ρ hμ hv hnode
    constructor
    · rw [Store.valueAt, Term.alone, G.value_not hμ ρ [ρ] hnode]
      change ofTruth ((truthOf (st.valueAt G m ρ)).map not) = _
      rw [hm.value G μ ρ hμ hv, htruth]
      rfl
    · rw [G.term_eq hμ, hnode]
      exact hm.plain G μ ρ hμ hv

lemma compiles_cond {test yes no : Formula} (ht : Compiles st Γ test) (hy : Compiles st Γ yes)
    (hn : Compiles st Γ no) : Compiles st Γ (.cond test yes no) := by
  intro s fuel hs hfuel
  obtain ⟨fuel, rfl⟩ := fuel_succ hfuel
  rw [Formula.expr, Expr.depth] at hfuel
  obtain ⟨k, t, m, u, null, g, hrun, hcond, hstep, hm, htruth, hcharted⟩ :=
    runs_truth ht fuel hs (by omega)
  have hu := hstep.ready hs
  obtain ⟨y, v, z, w, hrun', hrun'', hstep', hy', hz', hcharted'⟩ :=
    runs_pair hy hn fuel hu (by omega)
  have hw := hstep'.ready hu
  have hm' := hm.step hstep'
  have hchildren : ∀ c ∈ (Node.cond m y z).children, c.index < w.graph.entries.size := by
    intro c hc
    simp only [Node.children, List.mem_cons, List.not_mem_nil, or_false] at hc
    rcases hc with rfl | rfl | rfl
    · exact hm'.lt
    · exact hy'.lt
    · exact hz'.lt
  have hidle : Idle st Γ w { w with graph := (w.graph.add (.cond m y z)).2 } :=
    idle_add hw hchildren (by simp)
  refine ⟨⟨w.graph.entries.size⟩, _, ?_, (hstep.trans hstep').trans hidle.step, ?_,
    fun log h => hidle.charted _ ?_⟩
  · exact Runs.bind hrun (Runs.bind hcond (Runs.bind hrun' (Runs.bind hrun''
      (Runs.map (runs_add.2 ⟨rfl, rfl⟩)))))
  · refine Carries.add (x := .cond m y z) hw hchildren (by simp) ?_
    intro G μ ρ hμ hv hnode
    constructor
    · rw [Store.valueAt, Term.alone, G.value_cond hμ ρ [ρ] hnode]
      change (if isTrue (st.valueAt G m ρ) then st.valueAt G y ρ else st.valueAt G z ρ) = _
      rw [hm'.value G μ ρ hμ hv, hy'.value G μ ρ hμ hv, hz'.value G μ ρ hμ hv, Sql.isTrue, htruth]
      simp only [beq_iff_eq]
      rfl
    · rw [G.term_eq hμ, hnode]
      exact Bool.or_eq_false_iff.2 ⟨Bool.or_eq_false_iff.2 ⟨hm'.plain G μ ρ hμ hv,
        hy'.plain G μ ρ hμ hv⟩, hz'.plain G μ ρ hμ hv⟩
  · have := hcharted' _ (hcharted log h)
    rwa [hstep.widen_eq, List.append_assoc] at this

/-- New constants carry themselves. -/
lemma carries_constants (hs : Ready st (.root Γ) s) (vs : List Value) :
    ∃ ns t, Runs (vs.mapM fun v => add (.const v)) s ns t ∧ Idle st Γ s t ∧
      List.Forall₂ (fun n v => Carries st (.root Γ) t n v.isNull false fun _ => v) ns vs := by
  induction vs generalizing s with
  | nil => exact ⟨[], s, runs_pure.2 ⟨rfl, rfl⟩, .refl hs, .nil⟩
  | cons v vs ih =>
    obtain ⟨hidle, hv⟩ := carries_const hs v
    obtain ⟨ns, t, hrun, hidle', hns⟩ := ih (hidle.step.ready hs)
    refine ⟨⟨s.graph.entries.size⟩ :: ns, t, ?_, hidle.trans hidle', .cons (hv.step hidle'.step) hns⟩
    rw [List.mapM_cons]
    exact Runs.bind (runs_add.2 ⟨rfl, rfl⟩) (Runs.bind hrun (runs_pure.2 ⟨rfl, rfl⟩))

lemma compiles_among (vs : List Value) {item : Formula} (hitem : Compiles st Γ item) :
    Compiles st Γ (.among vs item) := by
  intro s fuel hs hfuel
  obtain ⟨fuel, rfl⟩ := fuel_succ hfuel
  simp only [Formula.expr, Expr.depth, Expr.depthAll] at hfuel
  obtain ⟨n, t, hrun, hn⟩ := hitem s fuel hs (by omega)
  have ht := hn.step.ready hs
  obtain ⟨ns, u, hrun', hidle, hns⟩ := carries_constants ht (vs.filter fun v => !v.isNull)
  have hu := hidle.step.ready ht
  have hn' := hn.carries.step hidle.step
  have hchildren : ∀ c ∈ (Node.isIn n ns).children, c.index < u.graph.entries.size := by
    refine List.forall_mem_cons.2 ⟨hn'.lt, ?_⟩
    exact ((List.forall₂_and_left _ _).1 (hns.imp fun m v hm => ⟨hm.lt, hm⟩)).1
  have hidle' : Idle st Γ u { u with graph := (u.graph.add (.isIn n ns)).2 } :=
    idle_add hu hchildren (by simp)
  refine ⟨⟨u.graph.entries.size⟩, _, ?_, (hn.step.trans hidle.step).trans hidle'.step, ?_,
    fun log h => hidle'.charted _ (hidle.charted _ (hn.charted log h))⟩
  · have htext : (Expr.const (.list vs)).type.isTextual = false := by
      simp only [Expr.type, Literal.type]
      split <;> rfl
    change Runs (contains (visit [] fuel) _ _ _) s _ _
    refine Runs.bind (runs_pure.2 ⟨rfl, rfl⟩) ?_
    rw [htext, if_neg Bool.false_ne_true]
    exact Runs.bind (hn.runs_value hs hrun) (Runs.bind hrun' (Runs.map (runs_add.2 ⟨rfl, rfl⟩)))
  · refine Carries.add (x := .isIn n ns) hu hchildren (by simp) ?_
    intro G μ ρ hμ hv hnode
    constructor
    · have hvalues : ns.map (fun m => ((G.evaluator st.engine st.database).term m).value ρ [ρ]) =
          vs.filter fun v => !v.isNull := by
        refine List.forall₂_eq_eq_eq ▸ (List.forall₂_map_left_iff.2 (hns.imp fun m v hm => ?_))
        exact hm.value G μ ρ hμ hv
      rw [Store.valueAt, Term.alone, G.value_isIn hμ ρ [ρ] hnode, hvalues]
      exact congrArg (fun v => ofTruth (st.engine.among v _)) (hn'.value G μ ρ hμ hv)
    · have hplain : (ns.any fun m => ((G.evaluator st.engine st.database).term m).summary) = false := by
        rw [List.any_eq_false]
        refine fun m hm => ?_
        have := ((List.forall₂_and_left _ _).1
          (hns.imp fun m v hm => ⟨hm.plain G μ ρ hμ hv, hm⟩)).1 m hm
        simp [this]
      rw [G.term_eq hμ, hnode]
      exact Bool.or_eq_false_iff.2 ⟨hn'.plain G μ ρ hμ hv, hplain⟩

/-- **The expression of a formula stands for its value, and the joins follow its references.** -/
theorem compiles_formula (hc : st.catalog.validate = .ok ()) {f : Formula}
    (hf : f.typed st.catalog Γ) : Compiles st Γ f := by
  induction f with
  | const v => exact compiles_const v
  | member m => exact compiles_member hc hf
  | compare op l r ihl ihr =>
    obtain ⟨hl, hr⟩ := Bool.and_eq_true_iff.1 hf
    exact compiles_compare op (ihl hl) (ihr hr)
  | coalesce l r ihl ihr =>
    obtain ⟨hl, hr⟩ := Bool.and_eq_true_iff.1 hf
    exact compiles_coalesce (ihl hl) (ihr hr)
  | and l r ihl ihr =>
    obtain ⟨hl, hr⟩ := Bool.and_eq_true_iff.1 hf
    exact compiles_and (ihl hl) (ihr hr)
  | or l r ihl ihr =>
    obtain ⟨hl, hr⟩ := Bool.and_eq_true_iff.1 hf
    exact compiles_or (ihl hl) (ihr hr)
  | not f ih => exact compiles_not (ih hf)
  | cond test yes no iht ihy ihn =>
    obtain ⟨hty, hn⟩ := Bool.and_eq_true_iff.1 hf
    obtain ⟨ht, hy⟩ := Bool.and_eq_true_iff.1 hty
    exact compiles_cond (iht ht) (ihy hy) (ihn hn)
  | among vs item ih => exact compiles_among vs (ih hf)

/-- A formula that stands for a column is a member, and the catalog knows the column. -/
lemma columnName_of_runs (hc : st.catalog.validate = .ok ()) {f : Formula} (hf : f.typed st.catalog Γ)
    (hs : Ready st (.root Γ) s) {fuel : Nat} (hfuel : f.expr.depth ≤ fuel) {n : NodeId}
    (hrun : Runs (visit [] fuel f.expr) s (.value n) t) {a : AliasId} {c : String}
    (hn : t.graph.node n = .column a c) : ∃ p, st.catalog.columnName p = .ok c := by
  obtain ⟨n', t', hrun', hcompiled⟩ := compiles_formula hc hf s fuel hs hfuel
  cases hrun.symm.trans hrun'
  have hmember : f.isMember = true := by
    rw [← hcompiled.carries.isColumn, hn]
    rfl
  cases f with
  | member m =>
    obtain ⟨n', t', hrun', -, b, d, hnode, hcolumn⟩ := runs_column hc hf hs hfuel
    cases hrun.symm.trans hrun'
    rw [hn] at hnode
    cases hnode
    exact ⟨m.property, hcolumn⟩
  | _ => cases hmember

end Formulas

end EntityQuery
