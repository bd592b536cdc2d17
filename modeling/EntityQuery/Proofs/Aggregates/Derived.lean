import EntityQuery.Proofs.Aggregates.Pipeline

/-!
A request around the outermost one.

* `Graph.Topped`: all requests but one are complete before they become a value and are over tables. The
  one may be over a derived table, since it is nested in none.
* `Graph.wrap` puts a request over another one as its derived table, `Graph.answer` lets a request
  select one value and nothing else.
* `rowsOf_wrapped`, `rowsOf_alone`: the row that such a request returns.
-/

namespace EntityQuery

open Sql Store Compile

/-! ### Graphs with an outermost request -/

namespace Sql.Graph

/-- Requests are complete before they become a value, and only the outermost one may be over a derived
table. -/
structure Topped (g : Graph) (top : RequestId) : Prop where
  ordered : g.Ordered
  sub : ∀ m s, g.node m = .sub s → s ≠ top ∧ ∀ n ∈ (g.request s).clauseNodes, n.index < m.index
  table : ∀ r, r ≠ top → ∀ a ∈ (g.request r).origins, ∀ s, (g.aliasOf a).origin ≠ .request s
  source : ∀ a ∈ (g.request top).origins, (g.aliasOf a).origin ≠ .request top

namespace Topped

variable {g h : Graph} {top : RequestId}

lemma acyclic (hg : g.Topped top) : g.Acyclic := by
  refine acyclic_of_nested_older (R := (· ≠ top)) hg.ordered ?_ (fun m s hm => (hg.sub m s hm).2)
    hg.table
  rintro r s (⟨n, -, m, -, hm⟩ | ⟨a, ha, hs⟩)
  · exact (hg.sub m s hm).1
  · rintro rfl
    by_cases hr : r = s
    · exact hg.source a (hr ▸ ha) hs
    · exact hg.table r hr a ha s hs

/-- A sound graph is ready for an outermost request. -/
lemma of_sound {C : List RequestId} (hg : g.Sound C) : g.Topped ⟨g.requests.size⟩ where
  ordered := hg.ordered
  sub m s hm := by
    obtain ⟨-, hlt, hclause⟩ := hg.sub m s hm
    refine ⟨?_, hclause⟩
    rintro rfl
    exact Nat.lt_irrefl _ hlt
  table _ _ a _ s := hg.table a s
  source a _ := hg.table a _

lemma congr (hg : g.Topped top) (hnode : ∀ n, h.node n = g.node n)
    (horigin : ∀ a, (h.aliasOf a).origin = (g.aliasOf a).origin)
    (hrequest : ∀ r, r ≠ top → (h.request r).clauseNodes ⊆ (g.request r).clauseNodes ∧
      (h.request r).origins = (g.request r).origins)
    (htop : ∀ a ∈ (h.request top).origins, (g.aliasOf a).origin ≠ .request top) : h.Topped top where
  ordered n c hc := hg.ordered n c (hnode n ▸ hc)
  sub m s hm := by
    obtain ⟨hs, hclause⟩ := hg.sub m s (hnode m ▸ hm)
    exact ⟨hs, fun n hn => hclause n ((hrequest s hs).1 hn)⟩
  table r hr a ha s := by
    rw [horigin]
    exact hg.table r hr a ((hrequest r hr).2 ▸ ha) s
  source a ha := by
    rw [horigin]
    exact htop a ha

lemma add (hg : g.Topped top) {x : Node} (hx : ∀ c ∈ x.children, c.index < g.entries.size)
    (hsub : ∀ s, x = .sub s → s ≠ top ∧ ∀ n ∈ (g.request s).clauseNodes, n.index < g.entries.size) :
    (g.add x).2.Topped top where
  ordered n c hc := by
    rw [node_add] at hc
    split at hc
    · next hn =>
      rw [hn]
      exact hx c hc
    · exact hg.ordered n c hc
  sub m s hm := by
    rw [node_add] at hm
    rw [request_add]
    split at hm
    · next hn =>
      rw [hn]
      exact hsub s hm
    · exact hg.sub m s hm
  table r hr a ha s := by
    rw [request_add] at ha
    rw [aliasOf_add]
    exact hg.table r hr a ha s
  source a ha := by
    rw [request_add] at ha
    rw [aliasOf_add]
    exact hg.source a ha

end Topped

/-! ### A request over a derived table -/

/-- A new request over another one, whose order is dropped unless its rows are paged. -/
def wrap (g : Graph) (inner : RequestId) : Graph :=
  (((g.addRequest none).2.addAlias (.derived inner)).2.modifyRequest inner fun q =>
      { q with parent := some ⟨g.requests.size⟩, orders := if q.isPaged then q.orders else [] })
    |>.modifyRequest ⟨g.requests.size⟩ ({ · with base := some ⟨g.aliases.size⟩ })

section Wrap

variable {g : Graph} {inner : RequestId} (hinner : inner.index < g.requests.size)

@[simp] lemma node_wrap (n : NodeId) : (g.wrap inner).node n = g.node n := rfl

@[simp] lemma size_entries_wrap : (g.wrap inner).entries.size = g.entries.size := rfl

@[simp] lemma size_requests_wrap : (g.wrap inner).requests.size = g.requests.size + 1 := by
  simp [wrap]

lemma aliasOf_wrap (a : AliasId) : ((g.wrap inner).aliasOf a).origin =
    if a.index = g.aliases.size then .request inner else (g.aliasOf a).origin := by
  rw [wrap, aliasOf_modifyRequest, aliasOf_modifyRequest, aliasOf_addAlias]
  by_cases ha : a.index = g.aliases.size
  · rw [if_pos ha, if_pos (by exact ha)]
    rfl
  · rw [if_neg ha, if_neg (by exact ha), aliasOf_addRequest]

lemma request_wrap_of_ne {r : RequestId} (hr : r ≠ inner) (hr' : r ≠ ⟨g.requests.size⟩) :
    (g.wrap inner).request r = g.request r := by
  have hindex : r.index ≠ g.requests.size := fun h => hr' (by cases r; exact congrArg _ h)
  rw [wrap, request_modifyRequest_of_ne _ _ hr', request_modifyRequest_of_ne _ _ hr, request_addAlias,
    request_addRequest, if_neg hindex]

lemma kept_wrap : g.Kept [inner] [] (g.wrap inner) := by
  have hkept : g.Kept [inner, ⟨g.requests.size⟩] [] (g.wrap inner) :=
    (((Kept.addRequest _ _ g none).trans (.addAlias _ _ _ _)).trans
      (.modifyRequest _ List.mem_cons_self _)).trans
      (.modifyRequest _ (List.mem_cons_of_mem _ List.mem_cons_self) _)
  refine hkept.mono (fun q hq hlt => ?_) (by simp)
  rcases List.mem_cons.1 hq with rfl | hq
  · exact List.mem_cons_self
  · rw [List.mem_singleton.1 hq] at hlt
    exact absurd hlt (Nat.lt_irrefl _)

include hinner

lemma ne_outer : inner ≠ ⟨g.requests.size⟩ := by
  rintro rfl
  exact Nat.lt_irrefl _ hinner

lemma request_wrap_inner : (g.wrap inner).request inner =
    { g.request inner with
      parent := some ⟨g.requests.size⟩
      orders := if (g.request inner).isPaged then (g.request inner).orders else [] } := by
  rw [wrap, request_modifyRequest_of_ne _ _ (ne_outer hinner), request_modifyRequest_self _ _ ?_,
    request_addAlias, request_addRequest_of_lt _ _ hinner]
  simp
  omega

lemma request_wrap_outer :
    (g.wrap inner).request ⟨g.requests.size⟩ = { base := some ⟨g.aliases.size⟩ } := by
  rw [wrap, request_modifyRequest_self _ _ (by simp), request_modifyRequest_of_ne _ _
    (ne_outer hinner).symm, request_addAlias, request_addRequest_self]

/-- The request around a complete one is the outermost. -/
lemma topped_wrap {C : List RequestId} (hg : g.Sound C) (hC : inner ∈ C) :
    (g.wrap inner).Topped ⟨g.requests.size⟩ := by
  have horigins : ∀ r, r ≠ ⟨g.requests.size⟩ →
      ((g.wrap inner).request r).origins = (g.request r).origins := by
    intro r hr
    by_cases h : r = inner
    · rw [h, request_wrap_inner hinner]
      rfl
    · rw [request_wrap_of_ne h hr]
  refine ⟨hg.ordered, fun m s hm => ?_, fun r hr a ha s => ?_, fun a ha => ?_⟩
  · obtain ⟨hs, hlt, hclause⟩ := hg.sub m s hm
    have hne : s ≠ inner := fun h => hs (h ▸ hC)
    refine ⟨ne_outer hlt, fun n hn => hclause n ?_⟩
    rwa [request_wrap_of_ne hne (ne_outer hlt)] at hn
  · rw [horigins r hr] at ha
    rw [aliasOf_wrap, if_neg (hg.source r a ha).ne]
    exact hg.table a s
  · rw [request_wrap_outer hinner] at ha
    simp only [Request.origins, Request.sources, Option.toList_some, List.map_nil, List.append_nil,
      Option.toList_none, List.mem_singleton] at ha
    rw [ha, aliasOf_wrap, if_pos rfl]
    exact fun h => ne_outer hinner (Origin.request.inj h)

end Wrap

/-! ### A request that asks whether there are rows -/

/-- A query as a value, a new request around it, and the answer of the new request, which comes last. -/
def probe (g : Graph) (inner : RequestId) : Graph :=
  let k := g.entries.size
  let asked := ((g.add (.sub inner)).2.add (.unary .exists (some ⟨k⟩))).2
  let wrapped := (asked.addRequest none).2.modifyRequest inner
    ({ · with parent := some ⟨g.requests.size⟩ })
  (((wrapped.add (.const (.boolean true))).2.add (.const (.boolean false))).2.add
    (.cond ⟨k + 1⟩ ⟨k + 2⟩ ⟨k + 3⟩)).2

section Probe

variable {g : Graph} {inner : RequestId}

@[simp] lemma size_entries_probe : (g.probe inner).entries.size = g.entries.size + 5 := by simp [probe]

@[simp] lemma size_requests_probe : (g.probe inner).requests.size = g.requests.size + 1 := by
  simp [probe]

lemma request_probe_inner (hinner : inner.index < g.requests.size) :
    (g.probe inner).request inner = { g.request inner with parent := some ⟨g.requests.size⟩ } := by
  have hlt : inner.index < (((g.add (.sub inner)).2.add
      (.unary .exists (some ⟨g.entries.size⟩))).2.addRequest none).2.requests.size := by
    simp
    omega
  simp [probe, request_modifyRequest_self _ _ hlt, request_addRequest, hinner.ne]

lemma request_probe_outer (hinner : inner.index < g.requests.size) :
    (g.probe inner).request ⟨g.requests.size⟩ = {} := by
  simp [probe, request_modifyRequest_of_ne _ _ (ne_outer hinner).symm, request_addRequest]

lemma kept_probe : g.Kept [inner] [] (g.probe inner) :=
  (((((Kept.add _ _ _ _).trans (.add _ _ _ _)).trans (.addRequest _ _ _ _)).trans
    (.modifyRequest _ List.mem_cons_self _)).trans ((Kept.add _ _ _ _).trans (.add _ _ _ _))).trans
    (.add _ _ _ _)

/-- The answer tells whether the query has rows. -/
lemma node_probe : (g.probe inner).node ⟨g.entries.size⟩ = .sub inner ∧
    (g.probe inner).node ⟨g.entries.size + 1⟩ = .unary .exists (some ⟨g.entries.size⟩) ∧
    (g.probe inner).node ⟨g.entries.size + 2⟩ = .const (.boolean true) ∧
    (g.probe inner).node ⟨g.entries.size + 3⟩ = .const (.boolean false) ∧
    (g.probe inner).node ⟨g.entries.size + 4⟩ =
      .cond ⟨g.entries.size + 1⟩ ⟨g.entries.size + 2⟩ ⟨g.entries.size + 3⟩ := by
  have hsub : g.entries.size ≠ g.entries.size + 1 + 1 + 1 + 1 ∧ g.entries.size ≠ g.entries.size + 1 + 1 + 1 ∧
      g.entries.size ≠ g.entries.size + 1 + 1 := by
    omega
  simp [probe, node_add, hsub]

/-- The request around a complete one is the outermost. -/
lemma topped_probe {C : List RequestId} (hg : g.Sound C) (hinner : inner.index < g.requests.size) :
    (g.probe inner).Topped ⟨g.requests.size⟩ := by
  have hne := ne_outer hinner
  have hasked : ((g.add (.sub inner)).2.add (.unary .exists (some ⟨g.entries.size⟩))).2.Topped
      ⟨g.requests.size⟩ := by
    refine ((Topped.of_sound hg).add (by simp [Node.children]) ?_).add (by simp [Node.children])
      (by simp)
    rintro r hr
    cases hr
    exact ⟨hne, hg.clause inner⟩
  have hwrapped : ((((g.add (.sub inner)).2.add (.unary .exists (some ⟨g.entries.size⟩))).2.addRequest
      none).2.modifyRequest inner ({ · with parent := some ⟨g.requests.size⟩ })).Topped
        ⟨g.requests.size⟩ := by
    refine hasked.congr (fun _ => rfl) (fun _ => rfl) (fun r hr => ?_) ?_
    · have hindex : r.index ≠ g.requests.size := fun h => hr (by cases r; exact congrArg _ h)
      by_cases h : r = inner
      · have hlt : inner.index < (((g.add (.sub inner)).2.add
            (.unary .exists (some ⟨g.entries.size⟩))).2.addRequest none).2.requests.size := by
          simp
          omega
        rw [h, request_modifyRequest_self _ _ hlt, request_addRequest]
        simp only [requests_add, request_add, hinner.ne, if_false]
        exact ⟨List.Subset.refl _, rfl⟩
      · rw [request_modifyRequest_of_ne _ _ h, request_addRequest]
        simp [hindex]
    · rw [request_modifyRequest_of_ne _ _ hne.symm, request_addRequest]
      simp [Request.origins, Request.sources]
  refine ((hwrapped.add (by simp [Node.children]) (by simp)).add (by simp [Node.children]) (by simp)).add
    ?_ (by simp)
  simp [Node.children]

end Probe

/-! ### A request that selects one value -/

lemma clearItems_of_nil (g : Graph) {r : RequestId} (h : (g.request r).items = []) :
    g.clearItems r = g := by
  have hrequests : g.requests.modify r.index (fun q => { q with items := [] }) = g.requests := by
    refine Array.ext (by simp) fun i hi hi' => ?_
    rw [Array.getElem_modify]
    split
    · next hr =>
      subst hr
      have hitems : g.requests[r.index].items = [] := by
        rwa [request, Array.getD_eq_getD_getElem?, Array.getElem?_eq_getElem hi'] at h
      exact congrArg (fun items => { g.requests[r.index] with items }) hitems.symm
    · rfl
  rw [clearItems, modifyRequest, hrequests]

/-- Selects a value, and selects it again as the only column of the result. -/
def answer (g : Graph) (r : RequestId) (n : NodeId) (type : TypeRef) : Graph :=
  (((g.pushItem r { node := n }).modifyRequest r ({ · with projection := some type })).clearItems r)
    |>.pushItem r { node := n }

section Answer

variable {g : Graph} {r : RequestId} (n : NodeId) (type : TypeRef)

@[simp] lemma node_answer (k : NodeId) : (g.answer r n type).node k = g.node k := by
  simp [answer, clearItems, pushItem]

@[simp] lemma aliasOf_answer (a : AliasId) : (g.answer r n type).aliasOf a = g.aliasOf a := rfl

lemma request_answer_of_ne {q : RequestId} (hq : q ≠ r) :
    (g.answer r n type).request q = g.request q := by
  simp only [answer, clearItems, pushItem, request_modifyRequest_of_ne _ _ hq, request_attach]

lemma request_answer_self (hr : r.index < g.requests.size) (hitems : (g.request r).items = []) :
    (g.answer r n type).request r =
      { g.request r with items := [{ node := n }], projection := some type } := by
  rw [answer, request_pushItem_self _ (by simpa [clearItems] using hr), clearItems,
    request_modifyRequest_self _ _ (by simpa using hr), request_modifyRequest_self _ _ (by simpa using hr),
    request_pushItem_self _ hr, hitems]
  rfl

lemma kept_answer {C : List RequestId} {A : List AliasId} (hr : r ∈ C) :
    g.Kept C A (g.answer r n type) :=
  (((Kept.pushItem g hr _).trans (.modifyRequest _ hr _)).trans (.modifyRequest _ hr _)).trans
    (.pushItem _ hr _)

lemma Topped.answer (hg : g.Topped r) (hr : r.index < g.requests.size)
    (hitems : (g.request r).items = []) : (g.answer r n type).Topped r := by
  refine hg.congr (node_answer n type) (fun _ => rfl) (fun q hq => ?_) fun a ha => ?_
  · rw [request_answer_of_ne n type hq]
    exact ⟨List.Subset.refl _, rfl⟩
  · rw [request_answer_self n type hr hitems] at ha
    exact hg.source a ha

end Answer

end Sql.Graph

/-! ### The row of an answer -/

section Answers

variable {G : Graph} {μ : Part → Nat} {e : Engine} {db : Database} {r : RequestId} {n : NodeId}
  {type : TypeRef}

/-- A value that is no column has no name of its own. -/
lemma selected_of_isColumn (hcolumn : (G.node n).isColumn = false) (u : Env × List Env) :
    (G.evaluator e db).selected u { node := n } =
      [("", ((G.evaluator e db).term n).value u.1 u.2)] := by
  rw [Evaluator.selected]
  split
  · next b c hnode =>
    have hnode : G.node n = .column b c := hnode
    rw [hnode] at hcolumn
    cases hcolumn
  · rfl

/-- An aggregate over a derived table. -/
lemma rowsOf_wrapped (hμ : G.Ranked μ) {a : AliasId} {inner : RequestId}
    (hr : G.request r = { base := some a, items := [{ node := n }], projection := some type })
    (ha : (G.aliasOf a).origin = .request inner) (hcolumn : (G.node n).isColumn = false)
    (hsummary : ((G.evaluator e db).term n).summary = true) {value : List Row → Value}
    (hvalue : ∀ σ rows, ((G.evaluator e db).term n).value σ
      (rows.map (Function.update (fun _ => []) a)) = value rows) :
    G.rowsOf e db r = [[("", value (G.rowsOf e db inner))]] := by
  have hfiltered : (G.evaluator e db).filtered (G.request r) (fun _ => []) =
      (G.rowsOf e db inner).map (Function.update (fun _ => []) a) := by
    rw [hr]
    simp only [Evaluator.filtered, Evaluator.joined, List.foldl_nil, Graph.source_of_request ha]
    rfl
  rw [Graph.rowsOf, G.query_eq hμ]
  have hgrouped : (G.evaluator e db).grouped (G.request r) (fun _ => []) =
      [(((G.evaluator e db).filtered (G.request r) (fun _ => [])).headD (fun _ => []),
        (G.evaluator e db).filtered (G.request r) (fun _ => []))] := by
    rw [Evaluator.grouped, hr]
    simp [Request.isGrouped, hsummary]
  have hsorted : (G.evaluator e db).sorted (G.request r) (fun _ => []) =
      (G.evaluator e db).grouped (G.request r) (fun _ => []) := by
    rw [Evaluator.sorted, hgrouped, hr]
    simp
  rw [Evaluator.request]
  have hkind : (G.request r).kind = .select := by rw [hr]
  rw [hkind]
  dsimp only
  rw [Evaluator.select, hsorted, hgrouped, hfiltered, hr]
  simp [selected_of_isColumn hcolumn, hvalue]

/-- A value without a source. -/
lemma rowsOf_alone (hμ : G.Ranked μ)
    (hr : G.request r = { items := [{ node := n }], projection := some type })
    (hcolumn : (G.node n).isColumn = false)
    (hsummary : ((G.evaluator e db).term n).summary = false) :
    G.rowsOf e db r = [[("", ((G.evaluator e db).term n).alone fun _ => [])]] := by
  have hplain : (G.request r).Plain := by
    rw [hr]
    exact ⟨rfl, rfl, rfl, rfl, rfl, rfl, rfl⟩
  rw [Graph.rowsOf, G.query_eq hμ, Evaluator.request_of_plain _ hplain]
  · rw [hr]
    simp [Evaluator.filtered, Evaluator.joined, selected_of_isColumn hcolumn, Term.alone]
  · intro i hi
    rw [hr] at hi
    rw [List.mem_singleton.1 hi]
    exact hsummary

end Answers

end EntityQuery
