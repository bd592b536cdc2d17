import EntityQuery.Proofs.Aggregates.Derived

/-!
Requests below an aggregate.

* `Supplies`: a request over the rows that a plan asks for, with one selected value. It is the derived
  table of an aggregate, or the query of `EXISTS`.
* `Picked`: how a request gets the value. Below an aggregate the order of rows without a page is
  dropped (`Plan.unsorted`).
-/

namespace EntityQuery

open Sql Store Compile

variable {st : Store} {m : Mapping} {E table : String} {s t u : CompileState} {p : Plan}

/-! ### Rows of a plan -/

namespace Plan

/-- The plan of a derived table: without a page, the order plays no part. -/
def unsorted (p : Plan) : Plan := { p with orders := if p.isPaged then p.orders else [] }

lemma perm_rows_unsorted (st : Store) (p : Plan) (rows : List Row) :
    (p.unsorted.rows st rows).Perm (p.rows st rows) := by
  cases hpaged : p.isPaged with
  | true =>
    have hself : p.unsorted = p := by simp [unsorted, hpaged]
    rw [hself]
  | false =>
    have hunsorted : p.unsorted.isPaged = false := hpaged
    exact (perm_rows st hunsorted rows).trans (perm_rows st hpaged rows).symm

/-- Without a page, a further filter keeps the rows that it holds of. -/
lemma perm_rows_filter (st : Store) {p : Plan} (hpaged : p.isPaged = false) (test : Lambda)
    (rows : List Row) :
    ((p.add (.filter test)).rows st rows).Perm ((p.rows st rows).filter (test.holds st)) := by
  have hadded : (p.add (.filter test)).isPaged = false := hpaged
  have hpasses : (p.add (.filter test)).passes st =
      fun row => test.holds st row && p.passes st row := by
    funext row
    simp [Plan.passes, Plan.add, Bool.and_comm]
  refine (perm_rows st hadded rows).trans ?_
  rw [hpasses, ← List.filter_filter]
  exact ((perm_rows st hpaged rows).filter _).symm

end Plan

/-! ### Requests that supply an aggregate -/

/-- The request selects one value, for all rows that a plan asks for. -/
structure Supplies (st : Store) (s : CompileState) (G : Graph) (p : Plan) (i : Item) : Prop where
  kept : s.graph.Kept [⟨0⟩] [] G
  asks : Asks st s (G.request ⟨0⟩) p
  kind : (G.request ⟨0⟩).kind = .select
  base : (G.request ⟨0⟩).base = some ⟨0⟩
  groups : (G.request ⟨0⟩).groups = []
  having : (G.request ⟨0⟩).having = none
  items : (G.request ⟨0⟩).items = [i]

section Supplies

variable {G : Graph} {μ : Part → Nat} {i : Item} {p' : Plan} (hs : Piped st m E table p' s)
  (h : Supplies st s G p i) (hμ : G.Ranked μ)
include hs h hμ

lemma Supplies.query_eq {out : Row → Row}
    (hsummary : ((G.evaluator st.engine st.database).term i.node).summary = false)
    (hout : ∀ σ, (G.evaluator st.engine st.database).selected (σ, [σ]) i = out (σ ⟨0⟩))
    (hapart : p.distinct = true → st.Apart ((st.database.rows table).map out)) (ρ : Env) :
    (G.evaluator st.engine st.database).query ⟨0⟩ ρ = (p.rows st (st.database.rows table)).map out := by
  rw [G.query_eq hμ]
  refine h.asks.request_eq hs.standing hs.asks.joins hμ h.kept h.kind h.groups h.having h.base ?_ ρ ?_
    hapart
  · intro j hj
    rw [h.items, List.mem_singleton] at hj
    rw [hj]
    exact hsummary
  · intro row
    simp [Evaluator.shown, h.items, hout]

/-- All columns of the base are the rows themselves. -/
lemma Supplies.query_whole (hi : G.node i.node = .column ⟨0⟩ allColumns)
    (hapart : p.distinct = true → st.Apart (st.database.rows table)) (ρ : Env) :
    (G.evaluator st.engine st.database).query ⟨0⟩ ρ = p.rows st (st.database.rows table) := by
  have hsummary : ((G.evaluator st.engine st.database).term i.node).summary = false := by
    rw [G.term_eq hμ, hi]
    rfl
  have hout : ∀ σ : Env, (G.evaluator st.engine st.database).selected (σ, [σ]) i = σ ⟨0⟩ := by
    intro σ
    unfold Evaluator.selected
    split
    · next a name hcolumn =>
      obtain ⟨rfl, rfl⟩ := Node.column.inj (hi.symm.trans hcolumn)
      exact if_pos rfl
    · next hother => exact absurd hi (hother _ _)
  have hrows : (G.evaluator st.engine st.database).query ⟨0⟩ ρ =
      (p.rows st (st.database.rows table)).map id :=
    h.query_eq hs hμ hsummary hout (by simpa using hapart) ρ
  rwa [List.map_id] at hrows

/-- A labelled formula is one column of every row. -/
lemma Supplies.query_labelled {null column : Bool} {label : String} {l : Lambda}
    (hcarries : Carries st (.root []) s i.node null column fun ρ => l.value st (ρ ⟨0⟩))
    (hlabel : i.label = some label)
    (hcolumn : ∀ a c, s.graph.node i.node = .column a c → c ≠ allColumns)
    (hdistinct : p.distinct = false) (ρ : Env) :
    (G.evaluator st.engine st.database).query ⟨0⟩ ρ =
      (p.rows st (st.database.rows table)).map fun row => [(label, l.value st row)] := by
  have hview : ∀ ρ, View st (.root []) s G ρ := view_of_joins hs.asks.joins h.kept
  refine h.query_eq hs hμ (hcarries.plain G μ (fun _ => []) hμ (hview _)) ?_ (by simp [hdistinct]) ρ
  intro σ
  have hvalue : ((G.evaluator st.engine st.database).term i.node).value σ [σ] = l.value st (σ ⟨0⟩) :=
    hcarries.value G μ σ hμ (hview σ)
  rw [Evaluator.selected]
  split
  · next a c hnode =>
    have hnode : s.graph.node i.node = .column a c := (h.kept.node _ hcarries.lt).symm.trans hnode
    rw [if_neg (hcolumn a c hnode), hlabel, hvalue]
    rfl
  · rw [hlabel, hvalue]
    rfl

end Supplies

/-! ### Selecting one value -/

/-- The request has got its selected value and is complete. -/
structure Picked (s u : CompileState) (i : Item) : Prop where
  state : u = { s with graph := u.graph }
  kept : s.graph.Kept [⟨0⟩] [] u.graph
  sound : u.graph.Sound [⟨0⟩]
  lt : i.node.index < u.graph.entries.size
  request : u.graph.request ⟨0⟩ = { s.graph.request ⟨0⟩ with items := [i] }

section Picked

variable {i : Item}

lemma Piped.picked (hs : Piped st m E table p s) (hi : i.node.index < s.graph.entries.size) :
    Picked s { s with graph := s.graph.pushItem ⟨0⟩ i } i where
  state := rfl
  kept := .pushItem _ List.mem_cons_self i
  sound := hs.standing.fits.sound.pushItem List.mem_cons_self hi
  lt := by
    rw [Graph.size_entries_pushItem]
    exact hi
  request := by
    rw [Graph.request_pushItem_self _ hs.standing.zero_lt, hs.standing.bare.items]
    rfl

lemma Picked.zero_lt (hs : Piped st m E table p s) (hu : Picked s u i) :
    (0 : Nat) < u.graph.requests.size := hs.standing.zero_lt.trans_le hu.kept.requests

/-- The request supplies the request around it. -/
lemma Picked.supplies (hs : Piped st m E table p s) (hu : Picked s u i) {G : Graph}
    (hG : u.graph.Kept [⟨0⟩] [] G) {parent : Option RequestId}
    (hrequest : G.request ⟨0⟩ = { u.graph.request ⟨0⟩ with parent := parent }) :
    Supplies st s G p i := by
  have hbare := hs.standing.bare
  have hasks := hs.asks
  rw [hu.request] at hrequest
  refine ⟨hu.kept.trans hG, ?_, ?_, ?_, ?_, ?_, ?_⟩ <;> rw [hrequest]
  · exact ⟨hasks.joins, hasks.skip, hasks.take, hasks.distinct, hasks.filter, hasks.orders⟩
  · exact hbare.kind
  · exact hbare.base
  · exact hbare.groups
  · exact hbare.having

/-- The request is the derived table of the request around it. -/
lemma Picked.supplies_wrap (hs : Piped st m E table p s) (hu : Picked s u i) {G : Graph}
    (hG : u.graph.Kept [⟨0⟩] [] G) (hrequest : G.request ⟨0⟩ = (u.graph.wrap ⟨0⟩).request ⟨0⟩) :
    Supplies st s G p.unsorted i := by
  have hbare := hs.standing.bare
  have hasks := hs.asks
  have hpaged : ({ s.graph.request ⟨0⟩ with items := [i] } : Request).isPaged = p.isPaged := by
    rw [Request.isPaged, Plan.isPaged, hasks.skip, hasks.take]
  rw [Graph.request_wrap_inner (hu.zero_lt hs), hu.request, hpaged] at hrequest
  refine ⟨hu.kept.trans hG, ?_, ?_, ?_, ?_, ?_, ?_⟩ <;> rw [hrequest]
  · refine ⟨hasks.joins, hasks.skip, hasks.take, hasks.distinct, hasks.filter, ?_⟩
    rw [Plan.unsorted]
    dsimp only
    split
    · exact hasks.orders
    · exact .nil
  · exact hbare.kind
  · exact hbare.base
  · exact hbare.groups
  · exact hbare.having

/-- What there is around the request once a value of its derived table is selected. -/
lemma Picked.wrapped (hs : Piped st m E table p s) (hu : Picked s u i) {W : Graph}
    (hkept : (u.graph.wrap ⟨0⟩).Kept [] [] W) (htop : W.Topped ⟨u.graph.requests.size⟩) (n : NodeId)
    (type : TypeRef) :
    (W.answer ⟨u.graph.requests.size⟩ n type).Topped ⟨u.graph.requests.size⟩ ∧
      Supplies st s (W.answer ⟨u.graph.requests.size⟩ n type) p.unsorted i ∧
      (W.answer ⟨u.graph.requests.size⟩ n type).request ⟨u.graph.requests.size⟩ =
        { base := some ⟨u.graph.aliases.size⟩, items := [{ node := n }], projection := some type } ∧
      ((W.answer ⟨u.graph.requests.size⟩ n type).aliasOf ⟨u.graph.aliases.size⟩).origin =
        .request ⟨0⟩ := by
  have hzero := hu.zero_lt hs
  obtain ⟨outer, houter⟩ : ∃ r : RequestId, r = ⟨u.graph.requests.size⟩ := ⟨_, rfl⟩
  obtain ⟨a, ha⟩ : ∃ a : AliasId, a = ⟨u.graph.aliases.size⟩ := ⟨_, rfl⟩
  have hsize : outer.index < (u.graph.wrap ⟨0⟩).requests.size := by simp [houter]
  have halias : a.index < (u.graph.wrap ⟨0⟩).aliases.size := by simp [ha, Graph.wrap]
  have hlt : outer.index < W.requests.size := hsize.trans_le hkept.requests
  have hne : (⟨0⟩ : RequestId) ≠ outer := houter ▸ Graph.ne_outer hzero
  have horigin : ((u.graph.wrap ⟨0⟩).aliasOf a).origin = .request ⟨0⟩ := by
    rw [ha, Graph.aliasOf_wrap, if_pos rfl]
  have hrequest : W.request outer = { base := some a } := by
    rw [hkept.request outer hsize (by simp), houter, ha, Graph.request_wrap_outer hzero]
  have hanswer : u.graph.Kept [⟨0⟩, outer] [] (W.answer outer n type) :=
    ((Graph.kept_wrap.mono (by simp) (by simp)).trans (hkept.mono (by simp) (by simp))).trans
      (Graph.kept_answer n type (by simp))
  rw [← houter] at htop ⊢
  rw [← ha]
  have hitems : (W.request outer).items = [] := by rw [hrequest]
  refine ⟨htop.answer n type hlt hitems, hu.supplies_wrap hs ?_ ?_, ?_, ?_⟩
  · refine hanswer.mono (fun q hq hold => ?_) (by simp)
    rcases List.mem_cons.1 hq with rfl | hq
    · exact List.mem_cons_self
    · rw [List.mem_singleton.1 hq, houter] at hold
      exact absurd hold (Nat.lt_irrefl _)
  · rw [Graph.request_answer_of_ne n type hne]
    exact hkept.request _ (hzero.trans (by simp)) (by simp)
  · rw [Graph.request_answer_self n type hlt hitems, hrequest]
  · rw [Graph.aliasOf_answer, hkept.origin halias, horigin]

end Picked

end EntityQuery
