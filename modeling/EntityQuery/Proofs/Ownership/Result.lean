import EntityQuery.Proofs.Nesting.Result
import EntityQuery.Proofs.Ownership.Summary

/-!
Statements in which every node has one place.

* `tends_visit`: whatever an expression stands for, it is one more loose node at most, and what was
  loose before it is still loose. The induction is on the depth of the expression, with one case for
  every form of expression and every operator.
* The items of the result are let go before they are selected again, each of them once.
* `owned_compile`: so every handle of a compiled statement is in range, and every node that a clause
  leads to is at one place, of the request to which its links lead.
-/

namespace EntityQuery

open Sql Graph

namespace Compile

variable {s t : CompileState} {L : List NodeId} {r : RequestId} {arg : Expr} {args : List Expr}

section Visit

variable {visit : Visit} (hv : Tends visit)
include hv

/-! ### Calls -/

lemma tends_hint (hs : Steady s L) (e : Expr) (m : Method) :
    Ensures (hint visit e m arg args) s fun x t => Found s L t x := by
  refine (ensures_argument e args 1).bind fun f t ⟨_, ht⟩ => ?_
  rw [ht]
  split
  · next body _ _ =>
    refine (ensures_hintPath e body).bind fun path t ht => ?_
    rw [ht]
    split
    · exact ensures_reject
    · refine (hv arg s L hs).bind fun x t hx => ?_
      rw [ensures_bind, ensures_modify, ensures_pure]
      exact hx.congr rfl rfl rfl
  · exact ensures_reject

lemma tends_operatorCall (hs : Steady s L) (e : Expr) (m : Method) :
    Ensures (operator visit e m arg args) s fun x t => Found s L t x := by
  cases m with
  | «where» => exact tends_filter hv hs e
  | first => exact tends_first hv hs e
  | skip => exact tends_skip hv hs e
  | take => exact tends_take hv hs e
  | distinct => exact tends_distinct hv hs e
  | orderBy => exact tends_order hv hs e true true
  | orderByDescending => exact tends_order hv hs e true false
  | thenBy => exact tends_order hv hs e false true
  | thenByDescending => exact tends_order hv hs e false false
  | contains => exact tends_contains hv hs e
  | startsWith => exact tends_like hv hs e false true
  | endsWith => exact tends_like hv hs e true false
  | select => exact tends_select hv hs e false
  | selectMany => exact tends_select hv hs e true
  | groupBy => exact tends_groupBy hv hs e
  | count => exact tends_aggregate hv hs e .count
  | sum => exact tends_aggregate hv hs e .sum
  | average => exact tends_aggregate hv hs e .average
  | min => exact tends_aggregate hv hs e .min
  | max => exact tends_aggregate hv hs e .max
  | any => exact tends_any hv hs e
  | insert => exact tends_insert hv hs e
  | update => exact tends_update hv hs e
  | delete => exact tends_delete hv hs e
  | eagerLoad => exact tends_hint hv hs e _
  | lazyLoad => exact tends_hint hv hs e _
  | batchLazyLoad => exact tends_hint hv hs e _
  | dontLoad => exact tends_hint hv hs e _
  | useLeftJoin => exact tends_widening hs fun hs => hv _ _ L hs
  | named name => exact ensures_reject

/-! ### Expressions -/

/-- One rule, given what the parts of an expression stand for. -/
lemma tends_step (hs : Steady s L) (e : Expr) : Ensures (step visit e) s fun m t => Found s L t m := by
  cases e with
  | source entity => exact tends_source hs entity
  | const l => exact tends_constant hs _ l
  | param p => exact tends_parameter hs _ p
  | member target p => exact tends_member hv hs _ target p
  | key grouping => exact tends_key hv hs _ grouping
  | binary op l r => exact tends_binary hv hs _ op l r
  | unary op operand => exact tends_unary hv hs _ op operand
  | cond test yes no => exact tends_conditional hv hs test yes no
  | call m args =>
    rw [step]
    unfold call
    split
    · exact ensures_reject
    · exact ensures_reject
    · exact tends_operatorCall hv hs _ m
  | lambda ps body => exact ensures_reject
  | new type members => exact ensures_reject
  | init type bindings => exact ensures_reject

end Visit

/-- **An expression takes no node twice.** The induction is on the depth. -/
theorem tends_visit (fuel : Nat) : Tends (visit [] fuel) := by
  induction fuel with
  | zero => exact fun e s L _ => ensures_reject
  | succ fuel ih => exact fun e s L hs => tends_step ih hs e

/-! ### Columns of the result -/

lemma tends_selectColumns (hs : Steady s L) (hr : r.index < s.graph.requests.size) {a : AliasId}
    (ha : a.index < s.graph.aliases.size) (newElement : Bool) (columns : List (PropertyRef × String)) :
    Ensures (selectColumns r a newElement columns) s fun _ t => Since s L t := by
  induction columns generalizing s newElement with
  | nil => exact ensures_pure.2 (.refl hs)
  | cons column columns ih =>
    rw [selectColumns]
    refine (tends_column (.refl hs) ha column.2).bind fun n t ht => ?_
    refine (tends_pushItem (i := { node := n, property := some column.1, newElement }) ht
      (ht.request hr)).bind fun _ u hu => ?_
    exact (ih hu.steady (hu.request hr) (hu.source ha) false).mono fun _ w hw => hu.trans hw

lemma tends_selectRow (hs : Steady s L) (hr : r.index < s.graph.requests.size) {a : AliasId}
    (ha : a.index < s.graph.aliases.size) :
    Ensures (selectRow r a) s fun _ t => Since s L t := by
  rw [selectRow, ensures_bind, ensures_graph]
  split
  · refine (ensures_shownColumns _).bind fun columns t ht => ?_
    rw [ht]
    exact tends_selectColumns hs hr ha true columns
  · exact ensures_pure.2 (.refl hs)

lemma tends_selectGroups (hs : Steady s L) (hr : r.index < s.graph.requests.size) (e : Expr)
    (newElement : Bool) (keys : List (NodeId × Option PropertyRef)) :
    Ensures (selectGroups e r newElement keys) s fun _ t => Since s L t := by
  induction keys generalizing s newElement with
  | nil => exact ensures_pure.2 (.refl hs)
  | cons key keys ih =>
    rw [selectGroups]
    refine (tends_duplicate (.refl hs) e key.1).bind fun n t ht => ?_
    refine (tends_pushItem (i := { node := n, property := key.2, newElement }) ht
      (ht.request hr)).bind fun _ u hu => ?_
    exact (ih hu.steady (hu.request hr) false).mono fun _ w hw => hu.trans hw

/-- An item that was let go is selected again, or gives way to the columns of its row. -/
lemma tends_expandItem {i : Item} (hs : Steady s (i.node :: L)) (hr : r.index < s.graph.requests.size) :
    Ensures (expandItem r i) s fun _ t => Since s L t := by
  have hpush := tends_pushItem (.refl hs) hr
  rw [expandItem, ensures_bind, ensures_graph]
  split
  · next a ha =>
    split
    · have hinside := (hs.tidy.closed.node i.node).1 a (by rw [ha]; rfl)
      have hkept := (Since.refl hs).only (List.sublist_cons_self _ _).subperm
      exact tends_selectRow hkept.steady hr hinside
    · exact hpush
  · exact hpush

/-- The items that were let go are selected again one after another; those still to come stay loose. -/
lemma tends_expandItems (items : List Item) (hs : Steady s (items.map Item.node ++ L))
    (hr : r.index < s.graph.requests.size) :
    Ensures (items.forM (expandItem r)) s fun _ t => Since s L t := by
  induction items generalizing s with
  | nil => exact ensures_pure.2 (.refl hs)
  | cons i items ih =>
    refine (tends_expandItem hs hr).bind fun _ t ht => ?_
    exact (ih ht.steady (ht.request hr)).mono fun _ u hu => ht.trans hu

lemma tends_declareColumns (hs : Steady s L) (hr : r.index < s.graph.requests.size) (e : Expr) :
    Ensures (declareColumns e r) s fun _ t => Since s L t := by
  rw [declareColumns, ensures_bind, ensures_request]
  split
  · split
    · exact tends_selectGroups hs hr e true _
    · split
      · next a ha =>
        exact tends_selectRow hs hr ((hs.tidy.closed.request r).2 a (Request.mem_origins.2 (.inl ha)))
      · exact ensures_pure.2 (.refl hs)
  · rw [ensures_bind, ensures_edit]
    have hclear := hs.build (tended_clearItems hs.tidy hr)
    exact (tends_expandItems _ hclear.steady (hclear.request hr)).mono fun _ t ht => hclear.trans ht
  · exact ensures_pure.2 (.refl hs)

/-! ### Statements -/

lemma enclosingWithin_inside {g : Graph} (hg : g.Closed) {p : RequestId → Bool} {fuel : Nat}
    (hr : r.index < g.requests.size) {q : RequestId} (hq : g.enclosingWithin p fuel r = some q) :
    q.index < g.requests.size := by
  induction fuel generalizing r with
  | zero => cases hq
  | succ fuel ih =>
    rw [enclosingWithin] at hq
    split at hq
    · cases hq
      exact hr
    · split at hq
      · next outer houter => exact ih ((hg.request r).1 outer houter) hq
      · cases hq

lemma outermost_inside {g : Graph} (hg : g.Closed) (hr : r.index < g.requests.size) :
    (g.outermost r).index < g.requests.size := by
  unfold outermost enclosing?
  cases hq : g.enclosingWithin (fun q => (g.request q).parent.isNone) (g.requests.size + 1) r with
  | none => exact hr
  | some q => exact enclosingWithin_inside hg hr hq

/-- Whatever an expression stands for, the state after it is steady. -/
lemma Found.steady {m : Meaning} (h : Found s L t m) : ∃ M, Steady t M := by
  cases m with
  | value n => exact ⟨_, Since.steady h⟩
  | row a => exact ⟨_, h.1.steady⟩
  | query r => exact ⟨_, h.1.steady⟩

lemma steady_initial (m : Mapping) : Steady { mapping := m } [] := ⟨tidy_empty, by simp⟩

lemma tends_root (m : Mapping) (e : Expr) :
    Ensures (root [] e) { mapping := m } fun r t =>
      t.graph.Tidy [] ∧ r.index < t.graph.requests.size := by
  have hquery : Ensures (do
      let _ ← visit [] e.depth e
      let r := (← graph).outermost (← active e)
      declareColumns e r
      return r) { mapping := m } fun r t => t.graph.Tidy [] ∧ r.index < t.graph.requests.size := by
    refine (tends_visit e.depth e _ [] (steady_initial m)).bind fun x t hx => ?_
    obtain ⟨L, ht⟩ := hx.steady
    rw [ensures_bind, ensures_graph, ensures_bind, ensures_active]
    intro r hr
    have hroot := outermost_inside ht.tidy.closed (ht.active r hr)
    have hnone := (Since.refl ht).only (List.nil_subperm)
    refine (tends_declareColumns hnone.steady hroot e).bind fun _ u hu => ensures_pure.2 ?_
    exact ⟨hu.graph.tidy, hu.request hroot⟩
  unfold root
  split
  · exact hquery
  · exact hquery
  · exact ensures_reject

end Compile

/-- **Every node of a compiled statement has one place.** All handles of the statement are in range, and
a node that a clause leads to is a part of no other clause, nor of the same one again; its links lead to
the request of the clause. -/
theorem Mapping.owned_compile (m : Mapping) (e : Expr) {statement : Statement}
    (hstatement : (m.compile e).1 = .ok statement) :
    statement.graph.Closed ∧ statement.root.index < statement.graph.requests.size ∧
      ∀ x n, statement.graph.nodeAt? x = some n → statement.graph.owner? n = some x.request ∧
        ∀ y, statement.graph.nodeAt? y = some n → y = x := by
  obtain ⟨t, hrun, hgraph⟩ := Mapping.runs_of_compile hstatement
  obtain ⟨⟨hclosed, hlinked, -, -⟩, hroot⟩ := Compile.tends_root m e _ t hrun
  rw [hgraph] at hclosed hlinked hroot
  refine ⟨hclosed, hroot, fun x n hx => ⟨hlinked.owner?_of_nodeAt? hclosed hx, fun y hy => ?_⟩⟩
  exact hlinked.nodeAt?_inj hy hx

/-- An aggregate for every group: the key of the grouping is copied, not shared. -/
theorem owned_compile_totals : ∃ s, (Totals.mapping.compile (Totals.selecting .count)).1 = .ok s ∧
    s.graph.Closed ∧ s.root.index < s.graph.requests.size ∧
      ∀ x n, s.graph.nodeAt? x = some n → s.graph.owner? n = some x.request ∧
        ∀ y, s.graph.nodeAt? y = some n → y = x := by
  have hok : (Totals.mapping.compile (Totals.selecting .count)).1.toOption.isSome = true := by
    decide +kernel
  cases hcompile : (Totals.mapping.compile (Totals.selecting .count)).1 with
  | error f =>
    rw [hcompile] at hok
    cases hok
  | ok s => exact ⟨s, rfl, Totals.mapping.owned_compile _ hcompile⟩

end EntityQuery
