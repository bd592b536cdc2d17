import EntityQuery.Proofs.Clauses.Steps

/-!
Requests that ask for what a plan does.

* `Asks`: the clauses of a request stand for the tests, the orders and the page of a plan. A formula
  over the rows themselves joins nothing.
* `Sought.piped`: what clauses make of a request, as long as they follow no references.
  `Piped.filter`, `Piped.clause`: what one clause adds to a request, and `runs_clauses`: what a row of
  clauses makes of the request over an entity.
* `Asks.request_eq`: a request that asks for what a plan does shows the rows that the plan asks for, if
  no two of them are alike.
-/

namespace EntityQuery

open Sql Store Compile

variable {st : Store} {m : Mapping} {E table : String} {s t : CompileState} {p : Plan}

/-! ### Requests and plans -/

/-- The clauses of a request ask for what a plan does. -/
structure Asks (st : Store) (s : CompileState) (q : Request) (p : Plan) : Prop where
  joins : q.joins = []
  skip : q.skip = p.skip
  take : q.take = p.take
  distinct : q.distinct = p.distinct
  filter : (q.filter = none ∧ p.tests = []) ∨ ∃ n, q.filter = some n ∧ Tests st s n p
  orders : List.Forall₂ (fun o k => o.ascending = k.1 ∧ Keys st s o.node k.2) q.orders p.orders

/-- The outermost request is over the rows of an entity that a plan asks for. -/
structure Piped (st : Store) (m : Mapping) (E table : String) (p : Plan) (s : CompileState) : Prop where
  standing : Standing st m E table s
  asks : Asks st s (s.graph.request ⟨0⟩) p

lemma Asks.seeks {q : Request} (h : Asks st s q p) : Seeks st s q p :=
  ⟨h.skip, h.take, h.distinct, h.filter, h.orders⟩

lemma Seeks.asks {q : Request} (h : Seeks st s q p) (hjoins : q.joins = []) : Asks st s q p :=
  ⟨hjoins, h.skip, h.take, h.distinct, h.filter, h.orders⟩

lemma Asks.later {A : List AliasId} (hkept : s.graph.Kept [⟨0⟩] A t.graph)
    (hjoins : (t.graph.request ⟨0⟩).joins = (s.graph.request ⟨0⟩).joins) {q : Request}
    (h : Asks st s q p) : Asks st t q p :=
  (h.seeks.after (.of_joins hkept hjoins)).asks h.joins

lemma Piped.sought (hs : Piped st m E table p s) : Sought st m E table [] p s :=
  ⟨hs.standing, charted_nil hs.asks.joins, hs.asks.seeks⟩

/-! ### Formulas over the rows themselves -/

/-- Where no reference is followed, nothing is joined. -/
lemma joins_eq_nil_of_charted {log : List Navigation} (hlog : ∀ e ∈ log, e.path = [])
    (h : ChartedAt st s log) : (s.graph.request ⟨0⟩).joins = [] := by
  obtain ⟨chart, hchart⟩ := h
  rw [List.eq_nil_iff_forall_not_mem]
  intro j hj
  obtain ⟨e, he, hpath⟩ := (hchart.joined _ (hchart.chart_ne_nil hj)).1 ⟨j, hj, rfl⟩
  rw [hlog e he, List.prefix_nil] at hpath
  exact hchart.chart_ne_nil hj hpath

lemma Sought.piped {log : List Navigation} (hs : Sought st m E table log p s)
    (hlog : ∀ e ∈ log, e.path = []) : Piped st m E table p s :=
  ⟨hs.standing, hs.seeks.asks (joins_eq_nil_of_charted hlog hs.charted)⟩

/-- A new parameter changes nothing. -/
lemma Piped.bind (hs : Piped st m E table p s) (x : Param) :
    Piped st m E table p { s with graph := s.graph.bind ⟨0⟩ x.id } := (hs.sought.bind x).piped (by simp)

section Compile

variable (hc : st.catalog.validate = .ok ()) (hm : m.equivalents = []) (hcatalog : m.catalog = st.catalog)
  (hs : Piped st m E table p s) {l : Lambda} (hl : l.typed st.catalog E = true)

include hm hcatalog hs in
/-- A new node changes nothing. -/
lemma Piped.add {x : Node} (hx : ∀ c ∈ x.children, c.index < s.graph.entries.size)
    (hsub : ∀ r, x ≠ .sub r) : Piped st m E table p { s with graph := (s.graph.add x).2 } :=
  (hs.sought.add hm hcatalog hx hsub).piped (by simp)

include hs hl in
/-- While a formula over the rows themselves is compiled, the request stays as it is. -/
lemma Piped.step (hstep : Step st (.root [(l.param.id, E)]) s t)
    (hcharted : ∀ log, ChartedAt st s log → ChartedAt st t (log ++ l.body.reads s.widen)) :
    Piped st m E table p t ∧ t.graph.request ⟨0⟩ = s.graph.request ⟨0⟩ := by
  have hwiden : s.widen = false := by rw [hs.standing.state]
  have hlog := hcharted [] (charted_nil hs.asks.joins)
  rw [List.nil_append, hwiden] at hlog
  have ht : Piped st m E table p t := (hs.sought.step hstep hlog).piped fun e he =>
    Formula.path_of_own (Bool.and_eq_true_iff.1 hl).2 he
  have hframe : t.graph.request ⟨0⟩ =
      { s.graph.request ⟨0⟩ with joins := (t.graph.request ⟨0⟩).joins } := hstep.grown.frame
  exact ⟨ht, by rw [hframe, ht.asks.joins, ← hs.asks.joins]⟩

include hc hm hcatalog hs hl

/-- A formula over the rows themselves, as a value. -/
lemma Piped.runs_selector (fuel : Nat) (hfuel : l.body.expr.depth ≤ fuel) (e : Expr) :
    ∃ n t, Runs (do value (visit [] fuel) (← enter e ⟨0⟩ l.expr)) s n t ∧ Piped st m E table p t ∧
      Carries st (.root []) t n l.body.isNull l.body.isMember (fun ρ => l.value st (ρ ⟨0⟩)) ∧
      ∀ a c, t.graph.node n = .column a c → ∃ q, st.catalog.columnName q = .ok c := by
  obtain ⟨n, t, hrun, ht, hn, hcolumn⟩ := hs.sought.runs_selector hc hm hcatalog
    (Bool.and_eq_true_iff.1 hl).1 fuel hfuel e
  exact ⟨n, t, hrun, ht.piped fun e he => Formula.path_of_own (Bool.and_eq_true_iff.1 hl).2 he, hn, hcolumn⟩

/-- **A further filter is a further test.** -/
theorem Piped.filter (fuel : Nat) (hfuel : l.body.expr.depth ≤ fuel) (e : Expr) :
    ∃ n t u, Runs (predicate (visit [] fuel) e ⟨0⟩ l.expr) s n t ∧ t.active = some ⟨0⟩ ∧
      Runs (restrict ⟨0⟩ n) t () u ∧ Piped st m E table (p.add (.filter l)) u := by
  obtain ⟨n, t, u, hpredicate, hactive, hrestrict, hu⟩ := hs.sought.filter hc hm hcatalog
    (Bool.and_eq_true_iff.1 hl).1 fuel hfuel e
  exact ⟨n, t, u, hpredicate, hactive, hrestrict,
    hu.piped fun e he => Formula.path_of_own (Bool.and_eq_true_iff.1 hl).2 he⟩

end Compile

/-- No more than some rows are taken. -/
lemma Piped.take (hs : Piped st m E table p s) (n : Nat) :
    Piped st m E table { p with take := some n }
      { s with graph := s.graph.modifyRequest ⟨0⟩ ({ · with take := some n }) } :=
  (hs.sought.changePage ({ · with take := some n }) (fun _ => rfl) hs.asks.skip rfl hs.asks.distinct).piped
    (by simp)

/-! ### Clauses one after the other -/

/-- The receiver of an operator is the outermost request. -/
lemma Piped.runs_openReceiver (hs : Piped st m E table p s) {q e : Expr} {visit : Visit}
    {s₀ : CompileState} (hq : Runs (visit q) s₀ (.query ⟨0⟩) s) :
    Runs (openReceiver visit e q) s₀ ⟨0⟩ s := hs.sought.runs_openReceiver hq

/-- An entity is a request that asks for all its rows. -/
lemma runs_entity (htable : m.catalog.tableName E = .ok table) (fuel : Nat) :
    ∃ s, Runs (visit [] (fuel + 1) (.source E)) { mapping := m } (.query ⟨0⟩) s ∧
      Piped st m E table {} s := by
  obtain ⟨s, hrun, hs⟩ := runs_sought_entity htable fuel
  exact ⟨s, hrun, hs.piped (by simp)⟩

section Clauses

variable (hc : st.catalog.validate = .ok ()) (hm : m.equivalents = []) (hcatalog : m.catalog = st.catalog)
include hc hm hcatalog

/-- **A clause does to the request what it does to the plan.** -/
theorem Piped.clause (hs : Piped st m E table p s) {c : Clause} (hclause : c.typed st.catalog E = true)
    {q : Expr} {fuel : Nat} (hfuel : (c.expr q).depth ≤ fuel + 1) {s₀ : CompileState}
    (hq : Runs (visit [] fuel q) s₀ (.query ⟨0⟩) s) :
    ∃ t, Runs (visit [] (fuel + 1) (c.expr q)) s₀ (.query ⟨0⟩) t ∧
      Piped st m E table (p.add c) t := by
  obtain ⟨t, hrun, ht⟩ := hs.sought.clause hc hm hcatalog (Clause.fits_of_typed hclause) hfuel hq
  exact ⟨t, hrun, ht.piped fun e he => Clause.path_of_typed hclause he⟩

/-- **A row of clauses is a request that asks for what their plan does.** -/
theorem runs_clauses (htable : m.catalog.tableName E = .ok table) {cs : List Clause}
    (hcs : ∀ c ∈ cs, c.typed st.catalog E = true) {fuel : Nat}
    (hfuel : (Clause.query E cs).depth ≤ fuel) :
    ∃ s, Runs (visit [] fuel (Clause.query E cs)) { mapping := m } (.query ⟨0⟩) s ∧
      Piped st m E table (Plan.ofClauses cs) s := by
  obtain ⟨s, hrun, hs⟩ := runs_sought hc hm hcatalog htable
    (fun c hc => Clause.fits_of_typed (hcs c hc)) hfuel
  refine ⟨s, hrun, hs.piped fun e he => ?_⟩
  obtain ⟨c, hc, he⟩ := List.mem_flatMap.1 he
  exact Clause.path_of_typed (hcs c hc) he

end Clauses

end EntityQuery

/-! ### The rows of a request that joins nothing -/

namespace EntityQuery

open Sql Store Compile

variable {st : Store} {m : Mapping} {E table : String} {s : CompileState} {p : Plan}

section Asks

variable {q : Request} {G : Graph} {μ : Part → Nat} (hs : Standing st m E table s)
  (hjoins : (s.graph.request ⟨0⟩).joins = []) (hasks : Asks st s q p) (hμ : G.Ranked μ)
  (hG : s.graph.Kept [⟨0⟩] [] G)

include hjoins hG in
/-- Without joins, all rows that the base stands at are in place. -/
lemma view_of_joins (ρ : Env) : View st (.root []) s G ρ := by
  refine ⟨⟨[], hG⟩, ?_⟩
  change st.Settled G (((s.graph.request ⟨0⟩).joins).map Join.source) _
  rw [hjoins]
  intro a ha
  cases ha

include hjoins hasks hμ hG

/-- The filter keeps the rows that pass the tests of the plan. -/
lemma Asks.keeps_eq (ρ : Env) (row : Row) :
    (G.evaluator st.engine st.database).keeps q (Function.update ρ ⟨0⟩ row) = p.passes st row :=
  hasks.seeks.keeps_eq hμ (fun _ => Function.update_self ..) (fun _ => view_of_joins hjoins hG _) row

include hs

/-- **A request that asks for what a plan does shows the rows that the plan asks for**, if no two of the
shown rows are alike. -/
theorem Asks.request_eq (hkind : q.kind = .select) (hgroups : q.groups = []) (hhaving : q.having = none)
    (hbase : q.base = some ⟨0⟩)
    (hsummary : ∀ i ∈ q.items, ((G.evaluator st.engine st.database).term i.node).summary = false)
    (ρ : Env) {out : Row → Row}
    (hout : ∀ row, (G.evaluator st.engine st.database).shown q (Function.update ρ ⟨0⟩ row) = out row)
    (hapart : p.distinct = true → st.Apart ((st.database.rows table).map out)) :
    (G.evaluator st.engine st.database).request q ρ = (p.rows st (st.database.rows table)).map out := by
  have hsource : (G.evaluator st.engine st.database).source ρ ⟨0⟩ = st.database.rows table :=
    Graph.source_of_table ((hG.origin hs.alias_lt).trans hs.origin)
  have hjoined : (G.evaluator st.engine st.database).joined q ρ =
      (st.database.rows table).map (Function.update ρ ⟨0⟩) := by
    rw [Evaluator.joined, hbase]
    dsimp only
    rw [hasks.joins, List.foldl_nil, hsource]
  exact hasks.seeks.request_eq hμ (fun _ => Function.update_self ..) (fun _ => view_of_joins hjoins hG _)
    hkind hgroups hhaving hsummary ρ hjoined hout hapart

end Asks

end EntityQuery
