import EntityQuery.Compile.Write
import EntityQuery.Proofs.Aggregates.Pipeline
import EntityQuery.Proofs.Aggregates.Result
import EntityQuery.Proofs.Sql.Scopes

/-!
Updates and deletes of the rows of an entity.

* `Evaluator.writes` follows the text of the statement in the form of the dialect: a row is written if
  joined rows over it pass the filter, or if its key is among those of the joined rows that do.
* Neither form reads a page or an order (`request_of_unpaged`), and without joins both write the rows
  that the filter keeps (`writes_of_joins`).
* `Asks.written_eq`: a write that asks for what a plan does writes the rows that pass its tests.
* A `Narrowing` is an operator that picks rows: a clause, or the first row. `Write` is what is done to
  the picked rows.
* `Piped.narrow`: an operator does to the request what its clauses do to the plan. `Piped.runs_assign`: an
  assigned value leaves the rows of the request as they are.
-/

namespace EntityQuery

open Sql Store Compile

variable {st : Store} {m : Mapping} {E table : String} {s : CompileState} {p : Plan}

/-! ### Updates and deletes -/

namespace Sql

namespace Evaluator

/-- The rows that the joins put to those that the sources stand at, as far as the filter keeps them. -/
def partnered (w : Evaluator) (q : Request) (ρ : Env) : List Env :=
  (q.joins.foldl (fun ρs j => ρs.flatMap (w.partners j)) [ρ]).filter (w.keeps q)

/-- Whether an update or delete of a request writes a row of its table. -/
def writes (w : Evaluator) (style : WriteStyle) (q : Request) (target : AliasId) (ρ : Env) (row : Row) :
    Bool :=
  match style with
  | .joinedTarget | .fromClause => !(w.partnered q (Function.update ρ target row)).isEmpty
  | .subquery =>
    match (w.graph.aliasOf target).idColumn, q.joins with
    | some key, _ :: _ =>
      let keys := (w.source ρ target).flatMap fun other =>
        (w.partnered q (Function.update ρ target other)).map fun σ => (σ target).value key
      w.engine.among (row.value key) keys == some true
    | _, _ => w.keeps q (Function.update ρ target row)

/-- Without joins, an update or delete writes the rows that the filter keeps, in every form. -/
lemma writes_of_joins (w : Evaluator) (style : WriteStyle) {q : Request} (hjoins : q.joins = [])
    (target : AliasId) (ρ : Env) (row : Row) :
    w.writes style q target ρ row = w.keeps q (Function.update ρ target row) := by
  have hpartnered : (!(w.partnered q (Function.update ρ target row)).isEmpty) =
      w.keeps q (Function.update ρ target row) := by
    rw [partnered, hjoins, List.foldl_nil]
    cases hkeeps : w.keeps q (Function.update ρ target row) <;> simp [hkeeps]
  cases style with
  | joinedTarget => exact hpartnered
  | fromClause => exact hpartnered
  | subquery =>
    rw [writes, hjoins]
    split
    · next hcons => cases hcons
    · rfl

end Evaluator

/-- The rows of its table that an update or delete writes in a dialect. -/
def Graph.written (g : Graph) (e : Engine) (db : Database) (d : Dialect) (r : RequestId) : List Row :=
  let w := g.evaluator e db
  let q := g.request r
  match q.kind.writes, q.target <|> q.base with
  | true, some target =>
    (w.source (fun _ => []) target).filter (w.writes d.writeStyle q target fun _ => [])
  | _, _ => []

/-- No update or delete shows a page or an order. -/
lemma Writer.request_of_unpaged (w : Writer) {q : Request} (hkind : q.kind.writes = true) :
    w.request { q with skip := none, take := none, orders := [] } = w.request q := by
  unfold request
  dsimp only
  cases hq : q.kind with
  | update => cases q.target <|> q.base <;> rfl
  | delete => cases q.target <|> q.base <;> rfl
  | select => simp [hq, RequestKind.writes] at hkind
  | insertSelect => simp [hq, RequestKind.writes] at hkind

end Sql

/-! ### Plans -/

/-- **A write that asks for what a plan does writes the rows that pass its tests**, in every dialect. -/
theorem Asks.written_eq {G : Graph} {r : RequestId} {μ : Part → Nat} (hs : Standing st m E table s)
    (hjoins : (s.graph.request ⟨0⟩).joins = []) (hasks : Asks st s (G.request r) p) (hμ : G.Ranked μ)
    (hG : s.graph.Kept [⟨0⟩] [] G) (hkind : (G.request r).kind.writes = true)
    (htarget : ((G.request r).target <|> (G.request r).base) = some ⟨0⟩) (d : Dialect) :
    G.written st.engine st.database d r = (st.database.rows table).filter (p.passes st) := by
  have hsource : ∀ ρ, (G.evaluator st.engine st.database).source ρ ⟨0⟩ = st.database.rows table :=
    fun ρ => Graph.source_of_table ((hG.origin hs.alias_lt).trans hs.origin)
  rw [Graph.written, hkind, htarget]
  dsimp only
  rw [hsource]
  refine List.filter_congr fun row _ => ?_
  rw [Evaluator.writes_of_joins _ _ hasks.joins]
  exact hasks.keeps_eq hjoins hμ hG _ row

end EntityQuery

namespace EntityQuery

open Sql Store Compile

/-! ### Expressions -/

/-- An operator that picks rows of an entity. -/
inductive Narrowing where
  | by (c : Clause)
  /-- The first row, or the first one that satisfies a condition. -/
  | first (test : Option Lambda)
  deriving Repr

namespace Narrowing

def expr (q : Expr) : Narrowing → Expr
  | .by c => c.expr q
  | .first test => .call .first (q :: test.toList.map Lambda.expr)

/-- The expression of operators on the rows of an entity. -/
def query (entity : String) (ns : List Narrowing) : Expr := ns.foldl expr (.source entity)

/-- What an operator asks for: the first row is a page of one row. -/
def clauses : Narrowing → List Clause
  | .by c => [c]
  | .first test => test.toList.map .filter ++ [.take 1]

/-- What operators ask for together. -/
def plan (ns : List Narrowing) : Plan := Plan.ofClauses (ns.flatMap clauses)

/-- Whether an operator fits the rows of an entity. -/
def typed (c : Catalog) (entity : String) (n : Narrowing) : Bool :=
  n.clauses.all (·.typed c entity)

/-- Operators on the rows of an entity are these rows or a call. -/
lemma source_or_call {entity : String} (ns : List Narrowing) :
    (∃ E, query entity ns = .source E) ∨ ∃ method args, query entity ns = .call method args := by
  cases ns using List.reverseRecOn with
  | nil => exact .inl ⟨entity, rfl⟩
  | append_singleton ns n =>
    refine .inr ?_
    simp only [query, List.foldl_append, List.foldl_cons, List.foldl_nil]
    cases n with
    | «by» c => cases c <;> exact ⟨_, _, rfl⟩
    | first test => exact ⟨_, _, rfl⟩

lemma plan_append (ns : List Narrowing) (n : Narrowing) :
    plan (ns ++ [n]) = n.clauses.foldl Plan.add (plan ns) := by
  simp [plan, Plan.ofClauses, List.flatMap_append, List.foldl_append]

end Narrowing

/-- What is done to rows. -/
inductive Write where
  | delete
  /-- New values for columns, in terms of the row that a parameter stands for. -/
  | update (param : Param) (entity : String) (values : List (PropertyRef × Formula))
  deriving Repr

namespace Write

def bindings (values : List (PropertyRef × Formula)) : List Binding :=
  values.map fun v => .assign v.1 v.2.expr

def expr (q : Expr) : Write → Expr
  | .delete => .call .delete [q]
  | .update param entity values =>
    .call .update [q, .lambda [param] (.init entity (bindings values))]

/-- Whether a value may be assigned to a property of an entity. -/
def assignable (c : Catalog) (entity : String) (param : Param) (v : PropertyRef × Formula) : Bool :=
  (c.propertyMapping v.1).toOption.any (fun p => p.isScalar || p.isReference) &&
    (Lambda.mk param v.2).typed c entity

def typed (c : Catalog) (entity : String) : Write → Bool
  | .delete => true
  | .update param _ values => values.all (assignable c entity param)

end Write

variable {st : Store} {m : Mapping} {E table : String} {s t : CompileState} {p : Plan}

/-! ### Operators -/

section Operators

variable (hc : st.catalog.validate = .ok ()) (hm : m.equivalents = []) (hcatalog : m.catalog = st.catalog)
include hc hm hcatalog

/-- The first row is a page of one row, cut out after the condition is applied. -/
lemma Piped.first (hs : Piped st m E table p s) {test : Option Lambda}
    (htest : ∀ l ∈ test, l.typed st.catalog E = true) {q : Expr} {fuel : Nat}
    (hfuel : ((Narrowing.first test).expr q).depth ≤ fuel + 1) {s₀ : CompileState}
    (hq : Runs (visit [] fuel q) s₀ (.query ⟨0⟩) s) :
    ∃ t, Runs (visit [] (fuel + 1) ((Narrowing.first test).expr q)) s₀ (.query ⟨0⟩) t ∧
      Piped st m E table ((Narrowing.first test).clauses.foldl Plan.add p) t := by
  have hreceiver := fun e => hs.runs_openReceiver (e := e) hq
  cases test with
  | none =>
    exact ⟨_, Runs.bind (hreceiver _) (Runs.bind (a := ()) (runs_editRequest.2 rfl)
      (runs_pure.2 ⟨rfl, rfl⟩)), hs.take 1⟩
  | some l =>
    have hdepth : l.body.expr.depth ≤ fuel := by
      simp only [Narrowing.expr, Option.toList_some, List.map_cons, List.map_nil, Lambda.expr, Expr.depth,
        Expr.depthAll] at hfuel
      omega
    obtain ⟨n, t, u, hpredicate, -, hrestrict, hu⟩ := hs.filter hc hm hcatalog (htest l rfl) fuel hdepth
      ((Narrowing.first (some l)).expr q)
    exact ⟨_, Runs.bind (hreceiver _) (Runs.bind hpredicate (Runs.bind hrestrict
      (Runs.bind (a := ()) (runs_editRequest.2 rfl) (runs_pure.2 ⟨rfl, rfl⟩)))), hu.take 1⟩

/-- **An operator does to the request what its clauses do to the plan.** -/
theorem Piped.narrow (hs : Piped st m E table p s) {n : Narrowing} (hn : n.typed st.catalog E = true)
    {q : Expr} {fuel : Nat} (hfuel : (n.expr q).depth ≤ fuel + 1) {s₀ : CompileState}
    (hq : Runs (visit [] fuel q) s₀ (.query ⟨0⟩) s) :
    ∃ t, Runs (visit [] (fuel + 1) (n.expr q)) s₀ (.query ⟨0⟩) t ∧
      Piped st m E table (n.clauses.foldl Plan.add p) t := by
  have htyped := List.all_eq_true.1 hn
  cases n with
  | «by» c => exact hs.clause hc hm hcatalog (htyped c List.mem_cons_self) hfuel hq
  | first test =>
    refine hs.first hc hm hcatalog (fun l hl => ?_) hfuel hq
    refine htyped (.filter l) (List.mem_append_left _ (List.mem_map_of_mem ?_))
    exact Option.mem_toList.2 hl

variable (st) in
/-- **A row of operators is a request that asks for what their plan does.** -/
theorem runs_narrowings (htable : m.catalog.tableName E = .ok table) {ns : List Narrowing}
    (hns : ∀ n ∈ ns, n.typed st.catalog E = true) {fuel : Nat}
    (hfuel : (Narrowing.query E ns).depth ≤ fuel) :
    ∃ s, Runs (visit [] fuel (Narrowing.query E ns)) { mapping := m } (.query ⟨0⟩) s ∧
      Piped st m E table (Narrowing.plan ns) s := by
  induction ns using List.reverseRecOn generalizing fuel with
  | nil =>
    obtain ⟨fuel, rfl⟩ := fuel_succ hfuel
    exact runs_entity htable fuel
  | append_singleton ns n ih =>
    have hquery : Narrowing.query E (ns ++ [n]) = n.expr (Narrowing.query E ns) := by
      simp [Narrowing.query, List.foldl_append]
    rw [hquery] at hfuel ⊢
    rw [Narrowing.plan_append]
    obtain ⟨fuel, rfl⟩ := fuel_succ hfuel
    have hinner : (Narrowing.query E ns).depth ≤ fuel := by
      cases n with
      | «by» c =>
        cases c <;> simp only [Narrowing.expr, Clause.expr, Expr.depth, Expr.depthAll] at hfuel <;> omega
      | first test => simp only [Narrowing.expr, Expr.depth, Expr.depthAll] at hfuel; omega
    obtain ⟨s, hrun, hs⟩ := ih (fun n hn => hns n (List.mem_append_left _ hn)) hinner
    exact hs.narrow hc hm hcatalog (hns n (by simp)) hfuel hrun

end Operators

/-! ### Assigned values -/

section Assign

/-- An assignment leaves the rows of the request as they are. -/
lemma Piped.pushAssignment (hs : Piped st m E table p s) {a : Assignment}
    (hcolumn : a.column.index < s.graph.entries.size) (hvalue : a.value.index < s.graph.entries.size) :
    Piped st m E table p { s with graph := s.graph.pushAssignment ⟨0⟩ a } := by
  obtain ⟨g, hg⟩ : ∃ g, g = (s.graph.attach ⟨0⟩ a.column).attach ⟨0⟩ a.value := ⟨_, rfl⟩
  have hkept : s.graph.Kept [⟨0⟩] [] g := by
    rw [hg]
    exact (Graph.Kept.attach _ _ s.graph ⟨0⟩ a.column).trans (.attach _ _ _ _ _)
  have hbare := hs.standing.bare
  have hattached : Standing st m E table { s with graph := g } := by
    rw [hg]
    exact (hs.standing.attach a.column).attach a.value
  have hrequest : (s.graph.pushAssignment ⟨0⟩ a).request ⟨0⟩ =
      { s.graph.request ⟨0⟩ with assignments := (s.graph.request ⟨0⟩).assignments ++ [a] } := by
    rw [Graph.pushAssignment, ← hg, Graph.request_modifyRequest_self _ _ hattached.zero_lt, hg]
    rfl
  refine ⟨?_, ?_⟩
  · rw [Graph.pushAssignment, ← hg]
    refine hattached.modify _ ?_ rfl fun k hk => ?_
    · rw [hg]
      exact ⟨hbare.kind, hbare.base, hbare.target, hbare.items, hbare.groups, hbare.having, hbare.parent⟩
    · refine lt_of_lt_of_le ?_ hkept.entries
      rw [hg] at hk
      rcases Request.mem_clauseNodes_pushAssignment.1 hk with hk | rfl | rfl
      · exact hs.standing.fits.sound.clause ⟨0⟩ k hk
      · exact hcolumn
      · exact hvalue
  · have hlater : s.graph.Kept [⟨0⟩] [] (s.graph.pushAssignment ⟨0⟩ a) := by
      rw [Graph.pushAssignment, ← hg]
      exact hkept.trans (.modifyRequest _ List.mem_cons_self _)
    have hasks := hs.asks.later (t := { s with graph := s.graph.pushAssignment ⟨0⟩ a }) hlater
      (by rw [hrequest])
    rw [hrequest]
    exact ⟨hasks.joins, hasks.skip, hasks.take, hasks.distinct, hasks.filter, hasks.orders⟩

variable (hc : st.catalog.validate = .ok ()) (hm : m.equivalents = []) (hcatalog : m.catalog = st.catalog)
include hc hm hcatalog

/-- **Assigned values leave the rows of the request as they are.** -/
theorem Piped.runs_assign (hs : Piped st m E table p s) {param : Param}
    (hparam : param.id ∈ (s.graph.aliasOf ⟨0⟩).params) (e : Expr)
    {values : List (PropertyRef × Formula)}
    (hvalues : ∀ v ∈ values, Write.assignable st.catalog E param v = true) {fuel : Nat}
    (hfuel : ∀ v ∈ values, v.2.expr.depth ≤ fuel) :
    ∃ t, Runs (assign (visit [] fuel) e ⟨0⟩ ⟨0⟩ (Write.bindings values)) s () t ∧
      Piped st m E table p t := by
  induction values generalizing s with
  | nil => exact ⟨s, runs_pure.2 ⟨rfl, rfl⟩, hs⟩
  | cons v values ih =>
    obtain ⟨hproperty, hv⟩ := Bool.and_eq_true_iff.1 (hvalues v List.mem_cons_self)
    -- the column
    obtain ⟨stored, hstored, hkind⟩ : ∃ stored, s.mapping.catalog.propertyMapping v.1 = .ok stored ∧
        (stored.isScalar || stored.isReference) = true := by
      have hmapping : s.mapping.catalog = st.catalog := by rw [hs.standing.state, ← hcatalog]
      rw [hmapping]
      cases hp : st.catalog.propertyMapping v.1 with
      | error _ => simp [hp, Except.toOption] at hproperty
      | ok stored => exact ⟨stored, rfl, by simpa [hp, Except.toOption] using hproperty⟩
    obtain ⟨s₁, hs₁⟩ : ∃ s₁, s₁ = { s with graph := (s.graph.add (.column ⟨0⟩ stored.column)).2 } :=
      ⟨_, rfl⟩
    have hadded : Piped st m E table p s₁ :=
      hs₁ ▸ hs.add hm hcatalog (by simp [Node.children]) (by simp)
    have hparam₁ : param.id ∈ (s₁.graph.aliasOf ⟨0⟩).params := by
      rw [hs₁, Graph.aliasOf_add]
      exact hparam
    -- the value
    have hready := hadded.standing.ready_of_mem hm hcatalog hparam₁
    obtain ⟨n, t, hrun, hn⟩ := compiles_formula hc (Bool.and_eq_true_iff.1 hv).1 s₁ fuel hready
      (hfuel v List.mem_cons_self)
    obtain ⟨ht, -⟩ := hadded.step hv hn.step hn.charted
    have hcolumn : s.graph.entries.size < t.graph.entries.size := by
      refine lt_of_lt_of_le ?_ hn.step.grown.kept.entries
      simp [hs₁]
    have hparam₂ : param.id ∈ (t.graph.aliasOf ⟨0⟩).params := by
      rw [hn.step.grown.kept.params ⟨0⟩ hadded.standing.alias_lt (by simp)]
      exact hparam₁
    have hpushed := ht.pushAssignment (a := ⟨⟨s.graph.entries.size⟩, n⟩) hcolumn hn.carries.lt
    obtain ⟨u, hrest, hu⟩ := ih hpushed hparam₂ (fun w hw => hvalues w (List.mem_cons_of_mem _ hw))
      fun w hw => hfuel w (List.mem_cons_of_mem _ hw)
    refine ⟨u, ?_, hu⟩
    have hvalue : Runs (value (visit [] fuel) v.2.expr)
        { s with graph := (s.graph.add (.column ⟨0⟩ stored.column)).2 } n t :=
      hs₁ ▸ hn.runs_value hready hrun
    have hpush : Runs (do
        let column ← Compile.add (.column ⟨0⟩ stored.column)
        let n ← value (visit [] fuel) v.2.expr
        edit (·.pushAssignment ⟨0⟩ ⟨column, n⟩)
        assign (visit [] fuel) e ⟨0⟩ ⟨0⟩ (Write.bindings values)) s () u :=
      Runs.bind (runs_add.2 ⟨rfl, rfl⟩) (Runs.bind hvalue
        (Runs.bind (a := ()) (runs_edit.2 rfl) hrest))
    refine Runs.bind (Compile.runs_ask.2 ⟨hstored, rfl⟩) ?_
    dsimp only
    cases hkinds : stored.kind with
    | scalar => exact hpush
    | reference => exact hpush
    | collection => simp [PropertyMapping.isScalar, PropertyMapping.isReference, hkinds] at hkind
    | manyToMany => simp [PropertyMapping.isScalar, PropertyMapping.isReference, hkinds] at hkind

end Assign

end EntityQuery
