import EntityQuery.Proofs.Aggregates.Plans
import EntityQuery.Proofs.Formulas.Tables

/-!
Requests that clauses make.

* `Seeks`: the clauses of a request stand for the tests, the orders and the page of a plan.
* `Sought`: so does the outermost request, and its joins follow the references that the clauses have
  followed so far. The references of an order stay joined when a later order takes its place.
* `Sought.filter`, `Sought.order`, `Sought.change`: what one clause adds to a request, and
  `runs_sought`: what a row of clauses makes of the request over an entity.
* `request_of_ungrouped`: a query without groups filters, sorts, shows, drops repetitions and cuts out
  a page, in this order.
* `Seeks.request_eq`: a request that asks for what a plan does shows the rows that the plan asks for,
  out of those that stay in the joins, if no two of them are alike.
-/

namespace EntityQuery

open Sql Store Compile

variable {st : Store} {m : Mapping} {E table : String} {s t u : CompileState} {p : Plan}
  {log : List Navigation}

/-! ### Clauses that follow references -/

/-- A formula over the rows themselves follows no reference. -/
lemma Formula.path_of_own {f : Formula} (hown : f.own = true) {e : Navigation} (he : e ∈ f.reads false) :
    e.path = [] := by
  simpa using List.all_eq_true.1 hown e he

namespace Lambda

/-- Whether a formula is over the scalar members of an entity and of what it refers to. -/
def fits (c : Catalog) (entity : String) (l : Lambda) : Bool := l.body.typed c [(l.param.id, entity)]

def reads (l : Lambda) : List Navigation := l.body.reads false

end Lambda

namespace Clause

/-- Whether a clause is over the scalar members of an entity and of what it refers to. -/
def fits (c : Catalog) (entity : String) : Clause → Bool
  | .filter test => test.fits c entity
  | .order _ _ key => key.fits c entity
  | .skip count | .take count => decide (0 ≤ count.toInt)
  | .distinct => true

/-- The references that a clause follows. -/
def reads : Clause → List Navigation
  | .filter l | .order _ _ l => l.reads
  | .skip _ | .take _ | .distinct => []

lemma fits_of_typed {c : Catalog} {k : Clause} (h : k.typed c E = true) : k.fits c E = true := by
  cases k with
  | filter l => exact (Bool.and_eq_true_iff.1 h).1
  | order _ _ l => exact (Bool.and_eq_true_iff.1 h).1
  | skip _ => exact h
  | take _ => exact h
  | distinct => rfl

/-- A clause over the rows themselves follows no reference. -/
lemma path_of_typed {c : Catalog} {k : Clause} (h : k.typed c E = true) {e : Navigation}
    (he : e ∈ k.reads) : e.path = [] := by
  have hown : ∀ {l : Lambda}, l.typed c E = true → e ∈ l.reads → e.path = [] := by
    intro l hl hel
    exact Formula.path_of_own (Bool.and_eq_true_iff.1 hl).2 hel
  cases k with
  | filter l => exact hown h he
  | order _ _ l => exact hown h he
  | _ => cases he

end Clause

/-- Clauses are the rows of an entity or a call. -/
lemma Clause.source_or_call (cs : List Clause) : (∃ entity, Clause.query E cs = .source entity) ∨
    ∃ method args, Clause.query E cs = .call method args := by
  cases cs using List.reverseRecOn with
  | nil => exact .inl ⟨E, rfl⟩
  | append_singleton cs c =>
    refine .inr ?_
    simp only [Clause.query, List.foldl_append, List.foldl_cons, List.foldl_nil]
    cases c <;> exact ⟨_, _, rfl⟩

/-! ### What later states keep -/

/-- What is known of a state is known of a later one. -/
structure Precedes (st : Store) (s t : CompileState) : Prop where
  entries : s.graph.entries.size ≤ t.graph.entries.size
  node : ∀ n, n.index < s.graph.entries.size → t.graph.node n = s.graph.node n
  view : ∀ {G ρ}, View st (.root []) t G ρ → View st (.root []) s G ρ

namespace Precedes

lemma of_joins {A : List AliasId} (hkept : s.graph.Kept [⟨0⟩] A t.graph)
    (hjoins : (t.graph.request ⟨0⟩).joins = (s.graph.request ⟨0⟩).joins) : Precedes st s t where
  entries := hkept.entries
  node := hkept.node
  view hv := hv.earlier rfl hkept hjoins

lemma of_step {Γ : Scope} (h : Step st (.root Γ) s t) : Precedes st s t where
  entries := h.grown.kept.entries
  node := h.grown.kept.node
  view hv := by
    have hroot : View st (.root Γ) t _ _ := hv.earlier rfl (.refl _ [] _) rfl
    exact (h.view hroot).earlier rfl (.refl _ [] _) rfl

lemma trans (hst : Precedes st s t) (htu : Precedes st t u) : Precedes st s u where
  entries := hst.entries.trans htu.entries
  node n hn := (htu.node n (hn.trans_le hst.entries)).trans (hst.node n hn)
  view hv := hst.view (htu.view hv)

end Precedes

/-- What a node carries does not depend on the parameters. -/
lemma Carries.unscoped {Γ : Scope} {n : NodeId} {null column : Bool} {f : Env → Value}
    (hn : Carries st (.root Γ) t n null column f) : Carries st (.root []) t n null column f :=
  hn.later rfl (.refl _ [] _) rfl

lemma Carries.after {n : NodeId} {null column : Bool} {f : Env → Value}
    (hn : Carries st (.root []) s n null column f) (h : Precedes st s t) :
    Carries st (.root []) t n null column f where
  lt := hn.lt.trans_le h.entries
  isNull := by rw [h.node n hn.lt, hn.isNull]
  isColumn := by rw [h.node n hn.lt, hn.isColumn]
  value G μ ρ hμ hv := hn.value G μ ρ hμ (h.view hv)
  plain G μ ρ hμ hv := hn.plain G μ ρ hμ (h.view hv)

/-! ### Requests and plans -/

/-- A node carries the value of a formula over the rows of the base. -/
def Keys (st : Store) (s : CompileState) (n : NodeId) (l : Lambda) : Prop :=
  ∃ null column, Carries st (.root []) s n null column fun ρ => l.value st (ρ ⟨0⟩)

/-- A node is true of the rows of the base that pass the tests of a plan. -/
def Tests (st : Store) (s : CompileState) (n : NodeId) (p : Plan) : Prop :=
  ∃ null g, Carries st (.root []) s n null false g ∧
    ∀ ρ, (truthOf (g ρ) == some true) = p.passes st (ρ ⟨0⟩)

/-- The clauses of a request ask for what a plan does. -/
structure Seeks (st : Store) (s : CompileState) (q : Request) (p : Plan) : Prop where
  skip : q.skip = p.skip
  take : q.take = p.take
  distinct : q.distinct = p.distinct
  filter : (q.filter = none ∧ p.tests = []) ∨ ∃ n, q.filter = some n ∧ Tests st s n p
  orders : List.Forall₂ (fun o k => o.ascending = k.1 ∧ Keys st s o.node k.2) q.orders p.orders

/-- The outermost request is over the rows of an entity that a plan asks for, and its joins follow
references. -/
structure Sought (st : Store) (m : Mapping) (E table : String) (log : List Navigation) (p : Plan)
    (s : CompileState) : Prop where
  standing : Standing st m E table s
  charted : ChartedAt st s log
  seeks : Seeks st s (s.graph.request ⟨0⟩) p

lemma Keys.after {n : NodeId} {l : Lambda} (hn : Keys st s n l) (h : Precedes st s t) : Keys st t n l := by
  obtain ⟨null, column, hn⟩ := hn
  exact ⟨null, column, hn.after h⟩

lemma Tests.after {n : NodeId} (hn : Tests st s n p) (h : Precedes st s t) : Tests st t n p := by
  obtain ⟨null, g, hn, hpasses⟩ := hn
  exact ⟨null, g, hn.after h, hpasses⟩

lemma Seeks.after {q : Request} (hq : Seeks st s q p) (h : Precedes st s t) : Seeks st t q p where
  skip := hq.skip
  take := hq.take
  distinct := hq.distinct
  filter := hq.filter.imp_right fun ⟨n, hn, htests⟩ => ⟨n, hn, htests.after h⟩
  orders := hq.orders.imp fun _ _ ⟨hascending, hkeys⟩ => ⟨hascending, hkeys.after h⟩

/-- The joins play no part in what the clauses ask for. -/
lemma Seeks.join {q : Request} (hq : Seeks st s q p) (js : List Join) :
    Seeks st s { q with joins := js } p :=
  ⟨hq.skip, hq.take, hq.distinct, hq.filter, hq.orders⟩

namespace Sought

/-! ### New nodes and parameters -/

section Add

variable (hm : m.equivalents = []) (hcatalog : m.catalog = st.catalog)
include hm hcatalog

lemma ready (hs : Sought st m E table log p s) : Ready st (.root []) s := by
  refine ⟨?_, ?_, ?_, ?_, ?_, hs.standing.fits⟩ <;> rw [hs.standing.state]
  · rfl
  · exact hm
  · exact hcatalog

/-- A new node changes nothing. -/
lemma add (hs : Sought st m E table log p s) {x : Node}
    (hx : ∀ c ∈ x.children, c.index < s.graph.entries.size) (hsub : ∀ r, x ≠ .sub r) :
    Sought st m E table log p { s with graph := (s.graph.add x).2 } := by
  have hstep := step_add (hs.ready hm hcatalog) hx hsub
  refine ⟨hs.standing.step hstep, hs.charted.add x, ?_⟩
  rw [Graph.request_add]
  exact hs.seeks.after (.of_step hstep)

end Add

/-- A new parameter changes nothing. -/
lemma bind (hs : Sought st m E table log p s) (x : Param) :
    Sought st m E table log p { s with graph := s.graph.bind ⟨0⟩ x.id } := by
  have hkept : s.graph.Kept [⟨0⟩] [⟨0⟩] (s.graph.bind ⟨0⟩ x.id) := .bind _ List.mem_cons_self x.id
  refine ⟨hs.standing.bind x, Standing.charted_bind hs.charted x.id, ?_⟩
  rw [Graph.request_bind]
  exact hs.seeks.after (.of_joins hkept (by rw [Graph.request_bind]))

/-- While a formula is compiled, only the joins of the request change. -/
lemma step {log' : List Navigation} {Γ : Scope} (hs : Sought st m E table log p s)
    (hstep : Step st (.root Γ) s t) (hcharted : ChartedAt st t log') :
    Sought st m E table log' p t := by
  have hframe : t.graph.request ⟨0⟩ =
      { s.graph.request ⟨0⟩ with joins := (t.graph.request ⟨0⟩).joins } := hstep.grown.frame
  refine ⟨hs.standing.step hstep, hcharted, ?_⟩
  rw [hframe]
  exact (hs.seeks.after (.of_step hstep)).join _

/-! ### Formulas -/

section Compile

variable (hc : st.catalog.validate = .ok ()) (hm : m.equivalents = []) (hcatalog : m.catalog = st.catalog)
  (hs : Sought st m E table log p s) {l : Lambda} (hl : l.fits st.catalog E = true)
include hc hm hcatalog hs hl

/-- A formula as a value. -/
lemma runs_selector (fuel : Nat) (hfuel : l.body.expr.depth ≤ fuel) (e : Expr) :
    ∃ n t, Runs (do value (visit [] fuel) (← enter e ⟨0⟩ l.expr)) s n t ∧
      Sought st m E table (log ++ l.reads) p t ∧
      Carries st (.root []) t n l.body.isNull l.body.isMember (fun ρ => l.value st (ρ ⟨0⟩)) ∧
      ∀ a c, t.graph.node n = .column a c → ∃ q, st.catalog.columnName q = .ok c := by
  have hwiden : s.widen = false := by rw [hs.standing.state]
  obtain ⟨n, t, henter, hvalue, hn, hcolumn⟩ := hs.standing.runs_selector hc hm hcatalog hl hfuel e
  have hcharted : ChartedAt st t (log ++ l.body.reads s.widen) :=
    hn.charted log (Standing.charted_bind hs.charted l.param.id)
  rw [hwiden] at hcharted
  exact ⟨n, t, Runs.bind henter hvalue, (hs.bind l.param).step hn.step hcharted, hn.carries.unscoped, hcolumn⟩

/-- A formula as a condition. -/
lemma runs_predicate (fuel : Nat) (hfuel : l.body.expr.depth ≤ fuel) (e : Expr) :
    ∃ n t null g, Runs (predicate (visit [] fuel) e ⟨0⟩ l.expr) s n t ∧
      Sought st m E table (log ++ l.reads) p t ∧
      Carries st (.root []) t n null false g ∧
      ∀ ρ, (truthOf (g ρ) == some true) = l.holds st (ρ ⟨0⟩) := by
  have hwiden : s.widen = false := by rw [hs.standing.state]
  obtain ⟨n, t, null, g, hrun, hstep, hn, htruth, hcharted⟩ :=
    hs.standing.runs_predicate hc hm hcatalog hl hfuel e
  have hlog := hcharted log hs.charted
  rw [hwiden] at hlog
  refine ⟨n, t, null, g, hrun, (hs.bind l.param).step hstep hlog, hn.unscoped, fun ρ => ?_⟩
  rw [htruth]
  rfl

end Compile

/-! ### Clauses -/

/-- A clause of the request changes as the plan does. -/
lemma modify (hs : Sought st m E table log p s) {p' : Plan} (change : Request → Request)
    (hbare : (change (s.graph.request ⟨0⟩)).Bare)
    (hjoins : (change (s.graph.request ⟨0⟩)).joins = (s.graph.request ⟨0⟩).joins)
    (hclause : ∀ k ∈ (change (s.graph.request ⟨0⟩)).clauseNodes, k.index < s.graph.entries.size)
    (hseeks : Seeks st s (change (s.graph.request ⟨0⟩)) p') :
    Sought st m E table log p' { s with graph := s.graph.modifyRequest ⟨0⟩ change } := by
  have hrequest : (s.graph.modifyRequest ⟨0⟩ change).request ⟨0⟩ = change (s.graph.request ⟨0⟩) :=
    Graph.request_modifyRequest_self _ _ hs.standing.zero_lt
  have hkept : s.graph.Kept [⟨0⟩] [] (s.graph.modifyRequest ⟨0⟩ change) :=
    .modifyRequest _ List.mem_cons_self change
  have hjoins' : ((s.graph.modifyRequest ⟨0⟩ change).request ⟨0⟩).joins =
      (s.graph.request ⟨0⟩).joins := by rw [hrequest, hjoins]
  refine ⟨hs.standing.modify change hbare hjoins hclause, hs.charted.congr hjoins' fun _ _ => rfl, ?_⟩
  rw [hrequest]
  exact hseeks.after (.of_joins hkept hjoins')

/-- A clause without a formula changes the request as it changes the plan. -/
lemma change (hs : Sought st m E table log p s) {p' : Plan} (change : Request → Request)
    (hbare : (change (s.graph.request ⟨0⟩)).Bare)
    (hjoins : (change (s.graph.request ⟨0⟩)).joins = (s.graph.request ⟨0⟩).joins)
    (hclause : ∀ k ∈ (change (s.graph.request ⟨0⟩)).clauseNodes, k ∈ (s.graph.request ⟨0⟩).clauseNodes)
    (hseeks : Seeks st s (change (s.graph.request ⟨0⟩)) p') :
    Sought st m E table log p' { s with graph := s.graph.modifyRequest ⟨0⟩ change } :=
  hs.modify change hbare hjoins (fun k hk => hs.standing.fits.sound.clause ⟨0⟩ k (hclause k hk)) hseeks

/-- A clause that changes the page of the request changes that of the plan. -/
lemma changePage (hs : Sought st m E table log p s) (change : Request → Request)
    (hchange : ∀ q, change q = { q with
      skip := (change q).skip, take := (change q).take, distinct := (change q).distinct })
    {skip take : Option Nat} {distinct : Bool} (hskip : (change (s.graph.request ⟨0⟩)).skip = skip)
    (htake : (change (s.graph.request ⟨0⟩)).take = take)
    (hdistinct : (change (s.graph.request ⟨0⟩)).distinct = distinct) :
    Sought st m E table log { p with skip, take, distinct }
      { s with graph := s.graph.modifyRequest ⟨0⟩ change } := by
  have hbare := hs.standing.bare
  refine hs.change change ?_ ?_ (fun k hk => ?_) ?_
  · rw [hchange]
    exact ⟨hbare.kind, hbare.base, hbare.target, hbare.items, hbare.groups, hbare.having, hbare.parent⟩
  · rw [hchange]
  · rw [hchange] at hk
    exact hk
  · refine ⟨hskip, htake, hdistinct, ?_, ?_⟩ <;> rw [hchange]
    · exact hs.seeks.filter
    · exact hs.seeks.orders

/-- A node becomes part of the request. -/
lemma attach (hs : Sought st m E table log p s) (n : NodeId) :
    Sought st m E table log p { s with graph := s.graph.attach ⟨0⟩ n } :=
  ⟨hs.standing.attach n, hs.charted.congr rfl fun _ _ => rfl,
    hs.seeks.after (.of_joins (.attach _ [] s.graph ⟨0⟩ n) rfl)⟩

/-- The request gets a condition that says what the tests of a plan do. -/
lemma setFilter (hs : Sought st m E table log p s) {n : NodeId} {tests : List Lambda}
    (hn : n.index < s.graph.entries.size) (htests : Tests st s n { p with tests }) :
    Sought st m E table log { p with tests } { s with graph := s.graph.setFilter ⟨0⟩ n } := by
  have hbare := hs.standing.bare
  have hattach := hs.attach n
  have hseeks := hattach.seeks
  refine hattach.modify (fun q => { q with filter := some n }) ?_ rfl (fun k hk => ?_) ?_
  · exact ⟨hbare.kind, hbare.base, hbare.target, hbare.items, hbare.groups, hbare.having, hbare.parent⟩
  · rw [Graph.size_entries_attach]
    rcases Request.mem_clauseNodes_setFilter hk with hk | rfl
    · exact hs.standing.fits.sound.clause ⟨0⟩ k hk
    · exact hn
  · have htests' := htests.after (t := { s with graph := s.graph.attach ⟨0⟩ n })
      (.of_joins (.attach _ [] s.graph ⟨0⟩ n) rfl)
    exact ⟨hseeks.skip, hseeks.take, hseeks.distinct, .inr ⟨n, rfl, htests'⟩, hseeks.orders⟩

/-- The request gets a further key. -/
lemma pushOrder (hs : Sought st m E table log p s) {n : NodeId} {l : Lambda} (ascending : Bool)
    (hn : n.index < s.graph.entries.size) (hkey : Keys st s n l) :
    Sought st m E table log { p with orders := p.orders ++ [(ascending, l)] }
      { s with graph := s.graph.pushOrder ⟨0⟩ n ascending } := by
  have hbare := hs.standing.bare
  have hattach := hs.attach n
  have hseeks := hattach.seeks
  refine hattach.modify (fun q => { q with orders := q.orders ++ [⟨n, ascending⟩] }) ?_ rfl
    (fun k hk => ?_) ?_
  · exact ⟨hbare.kind, hbare.base, hbare.target, hbare.items, hbare.groups, hbare.having, hbare.parent⟩
  · rw [Graph.size_entries_attach]
    rcases Request.mem_clauseNodes_pushOrder.1 hk with hk | rfl
    · exact hs.standing.fits.sound.clause ⟨0⟩ k hk
    · exact hn
  · have hkey' := hkey.after (t := { s with graph := s.graph.attach ⟨0⟩ n })
      (.of_joins (.attach _ [] s.graph ⟨0⟩ n) rfl)
    exact ⟨hseeks.skip, hseeks.take, hseeks.distinct, hseeks.filter,
      List.rel_append hseeks.orders (.cons ⟨rfl, hkey'⟩ .nil)⟩

section Formulas

variable (hc : st.catalog.validate = .ok ()) (hm : m.equivalents = []) (hcatalog : m.catalog = st.catalog)
  (hs : Sought st m E table log p s) {l : Lambda} (hl : l.fits st.catalog E = true)
include hc hm hcatalog hs hl

/-- **A further filter is a further test.** -/
theorem filter (fuel : Nat) (hfuel : l.body.expr.depth ≤ fuel) (e : Expr) :
    ∃ n t u, Runs (predicate (visit [] fuel) e ⟨0⟩ l.expr) s n t ∧ t.active = some ⟨0⟩ ∧
      Runs (restrict ⟨0⟩ n) t () u ∧ Sought st m E table (log ++ l.reads) (p.add (.filter l)) u := by
  obtain ⟨n, t, null, g, hrun, ht, hn, hholds⟩ := hs.runs_predicate hc hm hcatalog hl fuel hfuel e
  refine ⟨n, t, { t with graph := t.graph.andFilter ⟨0⟩ n }, hrun, ht.standing.active,
    runs_restrict ht.standing.bare.groups n, ?_⟩
  have hpasses : ∀ row, (p.add (.filter l)).passes st row = (p.passes st row && l.holds st row) := by
    intro row
    simp [Plan.passes, Plan.add]
  rcases ht.seeks.filter with ⟨hnone, htests⟩ | ⟨k, hk, nullk, f, hcarries, hf⟩
  · rw [Graph.andFilter_of_none _ n hnone]
    refine ht.setFilter hn.lt ⟨null, g, hn, fun ρ => ?_⟩
    change _ = (p.add (.filter l)).passes st (ρ ⟨0⟩)
    rw [hholds, hpasses]
    simp [Plan.passes, htests]
  · -- the condition of the request is replaced by one that says more
    rw [Graph.andFilter_of_some _ n hk]
    obtain ⟨-, hand⟩ := carries_binary (ht.ready hm hcatalog) .and hcarries hn
    have hadded : Sought st m E table (log ++ l.reads) p
        { t with graph := (t.graph.add (.binary .and k n)).2 } :=
      ht.add hm hcatalog (by simp [Node.children, hcarries.lt, hn.lt]) (by simp)
    refine hadded.setFilter hand.lt ⟨false, _, hand, fun ρ => ?_⟩
    change _ = (p.add (.filter l)).passes st (ρ ⟨0⟩)
    rw [Engine.relate_eq_binary .and (by simp), hpasses, ← hf, ← hholds, ← truthAnd_beq]
    exact congrArg (· == some true) (truthOf_ofTruth _)

/-- **A further order sorts by a further key.** -/
theorem order (fuel : Nat) (hfuel : l.body.expr.depth ≤ fuel) (e : Expr) (ascending : Bool) :
    ∃ n t, Runs (do value (visit [] fuel) (← enter e ⟨0⟩ l.expr)) s n t ∧
      Sought st m E table (log ++ l.reads) { p with orders := p.orders ++ [(ascending, l)] }
        { t with graph := t.graph.pushOrder ⟨0⟩ n ascending } := by
  obtain ⟨n, t, hrun, ht, hn, -⟩ := hs.runs_selector hc hm hcatalog hl fuel hfuel e
  exact ⟨n, t, hrun, ht.pushOrder ascending hn.lt ⟨_, _, hn⟩⟩

end Formulas

/-- The receiver of an operator is the outermost request. -/
lemma runs_openReceiver (hs : Sought st m E table log p s) {q e : Expr} {visit : Visit}
    {s₀ : CompileState} (hq : Runs (visit q) s₀ (.query ⟨0⟩) s) :
    Runs (openReceiver visit e q) s₀ ⟨0⟩ s := by
  have hactive : { s with active := some ⟨0⟩ } = s := by rw [hs.standing.state]
  exact Runs.bind (Runs.bind hq (runs_pure.2 ⟨rfl, rfl⟩))
    (Runs.bind (a := ()) (runs_setActive.2 hactive.symm) (runs_pure.2 ⟨rfl, rfl⟩))

/-- The orders before a first key are dropped. -/
lemma restart (hs : Sought st m E table log p s) (restart : Bool) :
    ∃ u, Runs (if restart then editRequest ⟨0⟩ ({ · with orders := [] }) else pure ()) s () u ∧
      Sought st m E table log { p with orders := if restart then [] else p.orders } u := by
  cases restart with
  | false => exact ⟨s, runs_pure.2 ⟨rfl, rfl⟩, hs⟩
  | true =>
    have hbare := hs.standing.bare
    have hseeks := hs.seeks
    refine ⟨_, runs_editRequest.2 rfl, hs.change ({ · with orders := [] }) ?_ rfl (fun k hk => ?_) ?_⟩
    · exact ⟨hbare.kind, hbare.base, hbare.target, hbare.items, hbare.groups, hbare.having, hbare.parent⟩
    · simp only [Request.mem_clauseNodes, List.not_mem_nil, false_and, exists_false, false_or] at hk ⊢
      rcases hk with hk | hk | hk | hk | hk | hk
      exacts [.inl hk, .inr (.inl hk), .inr (.inr (.inl hk)), .inr (.inr (.inr (.inl hk))),
        .inr (.inr (.inr (.inr (.inl hk)))), .inr (.inr (.inr (.inr (.inr (.inr hk)))))]
    · exact ⟨hseeks.skip, hseeks.take, hseeks.distinct, hseeks.filter, .nil⟩

section Rules

variable (hc : st.catalog.validate = .ok ()) (hm : m.equivalents = []) (hcatalog : m.catalog = st.catalog)
include hc hm hcatalog

/-- **A clause does to the request what it does to the plan, and the joins follow its references.** -/
theorem clause (hs : Sought st m E table log p s) {c : Clause} (hclause : c.fits st.catalog E = true)
    {q : Expr} {fuel : Nat} (hfuel : (c.expr q).depth ≤ fuel + 1) {s₀ : CompileState}
    (hq : Runs (visit [] fuel q) s₀ (.query ⟨0⟩) s) :
    ∃ t, Runs (visit [] (fuel + 1) (c.expr q)) s₀ (.query ⟨0⟩) t ∧
      Sought st m E table (log ++ c.reads) (p.add c) t := by
  have hreceiver := fun e => hs.runs_openReceiver (e := e) hq
  have hseeks := hs.seeks
  cases c with
  | filter test =>
    simp only [Clause.expr, Lambda.expr, Expr.depth, Expr.depthAll] at hfuel
    obtain ⟨n, t, u, hpredicate, -, hrestrict, hu⟩ := hs.filter hc hm hcatalog hclause fuel (by omega)
      (Clause.expr q (.filter test))
    exact ⟨u, Runs.bind (hreceiver _) (Runs.bind (runs_pure.2 ⟨rfl, rfl⟩) (Runs.bind hpredicate
      (Runs.bind hrestrict (runs_pure.2 ⟨rfl, rfl⟩)))), hu⟩
  | skip count =>
    have hcount : ¬ count.toInt < 0 := not_lt.2 (of_decide_eq_true hclause)
    rw [Clause.reads, List.append_nil]
    refine ⟨_, ?_, hs.changePage ({ · with skip := some count.toInt.toNat }) (fun _ => rfl) rfl
      hseeks.take hseeks.distinct⟩
    refine Runs.bind (hreceiver _) (Runs.bind (runs_pure.2 ⟨rfl, rfl⟩) (Runs.bind ?_
      (Runs.bind (a := ()) (runs_editRequest.2 rfl) (runs_pure.2 ⟨rfl, rfl⟩))))
    rw [rowCount, if_neg hcount]
    exact runs_pure.2 ⟨rfl, rfl⟩
  | take count =>
    have hcount : ¬ count.toInt < 0 := not_lt.2 (of_decide_eq_true hclause)
    rw [Clause.reads, List.append_nil]
    refine ⟨_, ?_, hs.changePage ({ · with take := some count.toInt.toNat }) (fun _ => rfl) hseeks.skip rfl
      hseeks.distinct⟩
    refine Runs.bind (hreceiver _) (Runs.bind (runs_pure.2 ⟨rfl, rfl⟩) (Runs.bind ?_
      (Runs.bind (a := ()) (runs_editRequest.2 rfl) (runs_pure.2 ⟨rfl, rfl⟩))))
    rw [rowCount, if_neg hcount]
    exact runs_pure.2 ⟨rfl, rfl⟩
  | distinct =>
    rw [Clause.reads, List.append_nil]
    refine ⟨_, ?_, hs.changePage ({ · with distinct := true }) (fun _ => rfl) hseeks.skip hseeks.take rfl⟩
    exact Runs.bind (hreceiver _) (Runs.bind (a := ()) (runs_editRequest.2 rfl)
      (runs_pure.2 ⟨rfl, rfl⟩))
  | order restart ascending key =>
    have hdepth : key.body.expr.depth ≤ fuel := by
      simp only [Clause.expr, Lambda.expr, Expr.depth, Expr.depthAll] at hfuel
      omega
    obtain ⟨u, hrestart, hu⟩ := hs.restart restart
    obtain ⟨n, t, hrun, ht⟩ := hu.order hc hm hcatalog hclause fuel hdepth
      (Clause.expr q (.order restart ascending key)) ascending
    obtain ⟨body, v, henter, hvalue⟩ := runs_bind.1 hrun
    refine ⟨_, ?_, ht⟩
    have horder : Runs (Compile.order (visit [] fuel) (Clause.expr q (.order restart ascending key))
        restart ascending q [q, key.expr]) s₀ (.query ⟨0⟩)
        { t with graph := t.graph.pushOrder ⟨0⟩ n ascending } := by
      refine Runs.bind (hreceiver _) ?_
      have hrest : Runs (do
          let body ← enter (Clause.expr q (.order restart ascending key)) ⟨0⟩ (← argument
            (Clause.expr q (.order restart ascending key)) [q, key.expr] 1)
          let n ← value (visit [] fuel) body
          edit (·.pushOrder ⟨0⟩ n ascending)
          return Meaning.query ⟨0⟩) u (.query ⟨0⟩)
          { t with graph := t.graph.pushOrder ⟨0⟩ n ascending } :=
        Runs.bind (runs_pure.2 ⟨rfl, rfl⟩) (Runs.bind henter (Runs.bind hvalue
          (Runs.bind (a := ()) (runs_edit.2 rfl) (runs_pure.2 ⟨rfl, rfl⟩))))
      cases restart with
      | false =>
        obtain ⟨-, rfl⟩ := runs_pure.1 hrestart
        exact hrest
      | true => exact Runs.bind hrestart hrest
    cases restart <;> cases ascending <;> exact horder

end Rules

end Sought

/-! ### Clauses one after the other -/

/-- An entity is a request that asks for all its rows. -/
lemma runs_sought_entity (htable : m.catalog.tableName E = .ok table) (fuel : Nat) :
    ∃ s, Runs (visit [] (fuel + 1) (.source E)) { mapping := m } (.query ⟨0⟩) s ∧
      Sought st m E table [] {} s := by
  obtain ⟨s, hrun, hrequest, hrooted⟩ :
      ∃ s, Runs (visit [] (fuel + 1) (.source E)) { mapping := m } (.query ⟨0⟩) s ∧ _ ∧
        Rooted st m E table [] s := runs_source htable fuel
  refine ⟨s, hrun, hrooted.standing, charted_nil (by rw [hrequest]), ?_⟩
  rw [hrequest]
  exact ⟨rfl, rfl, rfl, .inl ⟨rfl, rfl⟩, .nil⟩

/-- **A row of clauses is a request that asks for what their plan does, and whose joins follow their
references.** -/
theorem runs_sought (hc : st.catalog.validate = .ok ()) (hm : m.equivalents = [])
    (hcatalog : m.catalog = st.catalog) (htable : m.catalog.tableName E = .ok table) {cs : List Clause}
    (hcs : ∀ c ∈ cs, c.fits st.catalog E = true) {fuel : Nat}
    (hfuel : (Clause.query E cs).depth ≤ fuel) :
    ∃ s, Runs (visit [] fuel (Clause.query E cs)) { mapping := m } (.query ⟨0⟩) s ∧
      Sought st m E table (cs.flatMap Clause.reads) (Plan.ofClauses cs) s := by
  induction cs using List.reverseRecOn generalizing fuel with
  | nil =>
    obtain ⟨fuel, rfl⟩ := fuel_succ hfuel
    exact runs_sought_entity htable fuel
  | append_singleton cs c ih =>
    have hquery : Clause.query E (cs ++ [c]) = c.expr (Clause.query E cs) := by
      simp [Clause.query, List.foldl_append]
    have hplan : Plan.ofClauses (cs ++ [c]) = (Plan.ofClauses cs).add c := by
      simp [Plan.ofClauses, List.foldl_append]
    have hreads : (cs ++ [c]).flatMap Clause.reads = cs.flatMap Clause.reads ++ c.reads := by
      simp
    rw [hquery] at hfuel ⊢
    rw [hplan, hreads]
    obtain ⟨fuel, rfl⟩ := fuel_succ hfuel
    have hinner : (Clause.query E cs).depth ≤ fuel := by
      cases c <;> simp only [Clause.expr, Expr.depth, Expr.depthAll] at hfuel <;> omega
    obtain ⟨s, hrun, hs⟩ := ih (fun c hc => hcs c (List.mem_append_left _ hc)) hinner
    exact hs.clause hc hm hcatalog (hcs c (by simp)) hfuel hrun

end EntityQuery

namespace EntityQuery

open Sql Store Compile

variable {st : Store} {s : CompileState} {p : Plan}

/-! ### Queries without groups -/

namespace Sql.Evaluator

/-- Whether the filter of a request keeps the rows that the sources stand at. -/
def keeps (w : Evaluator) (q : Request) (ρ : Env) : Bool := q.filter.all fun n => (w.term n).holds ρ

lemma filtered_eq_filter (w : Evaluator) (q : Request) (ρ : Env) :
    w.filtered q ρ = (w.joined q ρ).filter (w.keeps q) := by
  have hkeeps : w.keeps q = fun σ => q.filter.all fun n => (w.term n).holds σ := rfl
  cases hfilter : q.filter with
  | none => simp [filtered, hkeeps, hfilter]
  | some n => simp [filtered, hkeeps, hfilter]

/-- Whether a row of a query without groups may stand before another one. -/
def before (w : Evaluator) (orders : List Order) (σ τ : Env) : Bool :=
  orders.foldr (fun o rest =>
    let x := (w.term o.node).alone σ
    let y := (w.term o.node).alone τ
    if w.engine.alike x y then rest
    else if o.ascending then w.engine.precedes x y else w.engine.precedes y x) true

/-- What a query without groups shows of a row. -/
def shown (w : Evaluator) (q : Request) (σ : Env) : Row :=
  if q.items.isEmpty then q.sources.flatMap σ else q.items.flatMap (w.selected (σ, [σ]))

/-- A query without groups filters, sorts, shows, drops repetitions and cuts out a page. -/
lemma request_of_ungrouped (w : Evaluator) {q : Request} (hkind : q.kind = .select)
    (hgroups : q.groups = []) (hhaving : q.having = none)
    (hsummary : ∀ i ∈ q.items, (w.term i.node).summary = false) (hskip : q.skip = p.skip)
    (htake : q.take = p.take) (ρ : Env) :
    w.request q ρ =
      let rows := ((w.filtered q ρ).mergeSort (w.before q.orders)).map (w.shown q)
      p.page (if q.distinct then distinctRows w.engine.alikeRows rows else rows) := by
  have hany : (q.items.any fun i => (w.term i.node).summary) = false := by
    rw [List.any_eq_false]
    exact fun i hi => by simp [hsummary i hi]
  have hgrouped : w.grouped q ρ = (w.filtered q ρ).map fun σ => (σ, [σ]) := by
    simp [grouped, Request.isGrouped, hgroups, hany]
  have hsorted : w.sorted q ρ = ((w.filtered q ρ).mergeSort (w.before q.orders)).map fun σ => (σ, [σ]) := by
    simp only [sorted, hhaving, hgrouped, Option.all_none, List.filter_true]
    symm
    apply List.map_mergeSort
    exact fun σ _ τ _ => rfl
  rw [request, hkind]
  dsimp only
  rw [select, hsorted, List.map_map, hskip, htake]
  rfl

end Sql.Evaluator

/-! ### Rows in their places -/

section Seeks

variable {q : Request} {G : Graph} {μ : Part → Nat} (hq : Seeks st s q p) (hμ : G.Ranked μ)
  {place : Row → Env} (hplace : ∀ row, place row ⟨0⟩ = row)
  (hview : ∀ row, View st (.root []) s G (place row))
include hq hμ hplace hview

/-- The request sorts the rows as the plan does. -/
lemma Seeks.before_eq (t u : Row) :
    (G.evaluator st.engine st.database).before q.orders (place t) (place u) = p.before st t u := by
  have horders := hq.orders
  rw [Evaluator.before, Plan.before]
  generalize q.orders = os, p.orders = ks at horders
  induction horders with
  | nil => rfl
  | cons hkey _ ih =>
    obtain ⟨hascending, null, column, hkeys⟩ := hkey
    have hvalue : ∀ row, ((G.evaluator st.engine st.database).term _).alone (place row) = _ :=
      fun row => hkeys.value G μ _ hμ (hview row)
    simp only [List.foldr_cons, hvalue, hplace, hascending, ih]
    rfl

/-- The filter keeps the rows that pass the tests of the plan. -/
lemma Seeks.keeps_eq (row : Row) :
    (G.evaluator st.engine st.database).keeps q (place row) = p.passes st row := by
  rcases hq.filter with ⟨hnone, htests⟩ | ⟨n, hn, null, g, hcarries, hpasses⟩
  · simp [Evaluator.keeps, hnone, Plan.passes, htests]
  · have hvalue := hcarries.value G μ _ hμ (hview row)
    have hpass := hpasses (place row)
    rw [hplace] at hpass
    rw [Evaluator.keeps, hn, Option.all_some, Term.holds, ← Store.valueAt, hvalue, Sql.isTrue, hpass]

/-- **A request that asks for what a plan does shows the rows that the plan asks for**, out of those that
stay in the joins, if no two of the shown rows are alike. -/
theorem Seeks.request_eq (hkind : q.kind = .select) (hgroups : q.groups = []) (hhaving : q.having = none)
    (hsummary : ∀ i ∈ q.items, ((G.evaluator st.engine st.database).term i.node).summary = false)
    (ρ : Env) {rows : List Row} (hjoined : (G.evaluator st.engine st.database).joined q ρ = rows.map place)
    {out : Row → Row}
    (hout : ∀ row, (G.evaluator st.engine st.database).shown q (place row) = out row)
    (hapart : p.distinct = true → st.Apart (rows.map out)) :
    (G.evaluator st.engine st.database).request q ρ = (p.rows st rows).map out := by
  have hfound : ((G.evaluator st.engine st.database).filtered q ρ).mergeSort
      ((G.evaluator st.engine st.database).before q.orders) = (p.found st rows).map place := by
    rw [Evaluator.filtered_eq_filter, hjoined, List.filter_map, Plan.found, List.map_mergeSort]
    · congr 2
      exact List.filter_congr fun row _ => hq.keeps_eq hμ hplace hview row
    · exact fun t _ u _ => (hq.before_eq hμ hplace hview t u).symm
  rw [Evaluator.request_of_ungrouped _ hkind hgroups hhaving hsummary hq.skip hq.take, hfound]
  have hshown : (G.evaluator st.engine st.database).shown q ∘ place = out := funext hout
  dsimp only
  rw [List.map_map, hshown, Plan.rows, Plan.map_page, hq.distinct]
  split
  · next hdistinct =>
    have hsub : st.Apart ((p.found st rows).map out) := by
      refine Store.Apart.perm ?_ ((p.perm_found st _).symm.map out)
      exact (hapart hdistinct).sublist (List.Sublist.map out List.filter_sublist)
    exact congrArg p.page (Engine.distinctRows_eq _ hsub)
  · rfl

end Seeks

end EntityQuery
