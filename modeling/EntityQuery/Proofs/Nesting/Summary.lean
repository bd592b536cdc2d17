import EntityQuery.Compile.Summary
import EntityQuery.Compile.Write
import EntityQuery.Proofs.Nesting.Shape

/-!
Aggregates, `Any` and writes, while requests are being built.

* An aggregate over a grouping is a value of the grouped request or of one inside it; it opens no
  request.
* A new request around another one holds it and is opened in its place.
-/

namespace EntityQuery.Compile

open Sql Graph

variable {c : Catalog} {s t u : CompileState} {C D : List RequestId} {r : RequestId} {n : NodeId}
  {sequence : Bool}

/-! ### Requests around -/

/-- Going outwards from a request that is built leads to requests that are built. -/
lemma enclosingWithin_mem (hs : Ready c s C) {p : RequestId → Bool} {fuel : Nat} (hr : r ∈ C)
    {q : RequestId} (hq : s.graph.enclosingWithin p fuel r = some q) : q ∈ C := by
  induction fuel generalizing r with
  | zero => cases hq
  | succ fuel ih =>
    rw [enclosingWithin] at hq
    split at hq
    · cases hq
      exact hr
    · cases hparent : (s.graph.request r).parent with
      | none =>
        rw [hparent] at hq
        cases hq
      | some outer =>
        rw [hparent] at hq
        exact ih (hs.closed r hr outer hparent) hq

/-- Steps within one of the requests that are built. -/
lemma ensures_within_yields (ht : Ready c t C) (hr : r ∈ C) {x : Compile NodeId}
    (hx : Ready c { t with active := some r } C → Ensures x { t with active := some r } fun n u =>
      ∃ D, Yields c { t with active := some r } C [n] D u) :
    Ensures (within r x) t fun n u => Yields c t C [n] C u := by
  have hready : Ready c { t with active := some r } C := by
    refine ⟨ht.opened, ht.closed, fun q hq => ?_, ht.catalog, ht.paths⟩
    cases hq
    exact hr
  rw [ensures_within]
  refine (hx hready).mono fun n u ⟨D, hu⟩ => ?_
  obtain ⟨hD, -, hfit⟩ := hu.settled rfl
  have hready' := hu.ready
  rw [hD] at hready'
  exact ⟨hu.later, ⟨hready'.opened, hready'.closed, ht.active, hready'.catalog, hready'.paths⟩,
    List.Subset.refl C, hu.inside, fun _ => ⟨rfl, rfl, hfit⟩⟩

section Visit

variable {visit : Visit} (hv : Builds c visit)
include hv

/-- An aggregate over a grouping is a value. -/
lemma ensures_aggregateGrouping {arg : Expr} (harg : arg.receives c = true) (hs : Ready c s C)
    (e : Expr) (op : UnaryOp) {f : Option Expr} (hf : ∀ a ∈ f, a.receives c = true) :
    Ensures (aggregateGrouping visit e op arg f) s fun m t => Stands c s C sequence t m := by
  refine (ensures_rowValue hv harg hs).bind fun a t ⟨hactive, ht⟩ => ?_
  rw [ensures_bind, ensures_active]
  intro here hhere
  rw [ensures_bind, ensures_graph]
  have hmem : (t.graph.requestOver? here a).getD here ∈ C := by
    have hhere := ht.ready.active here hhere
    cases hq : t.graph.requestOver? here a with
    | none => exact hhere
    | some q => exact enclosingWithin_mem ht.ready hhere hq
  generalize (t.graph.requestOver? here a).getD here = r at hmem
  have hselector : ∀ g, g.receives c = true → Ensures (do
      let n ← selector visit e r g
      Meaning.value <$> add (.unary op (some n))) t fun m u => Stands c s C sequence u m := by
    intro g hg
    refine (ensures_within_yields ht.ready hmem fun h => ensures_body hv hg h e r).bind
      fun n u hu => ?_
    rw [ensures_map, ensures_add]
    exact ((ht.trans hu).addValue (by simp [Node.children]) (by simp)).stands
  dsimp only
  split
  · rw [ensures_map, ensures_add]
    exact (ht.addValue (by simp [Node.children]) (by simp)).stands
  · next p =>
    refine (ensures_within_yields ht.ready hmem fun h => ensures_predicate hv (hf p rfl) h e r).bind
      fun test u hu => ?_
    have htest := ht.trans hu
    rw [ensures_bind, ensures_add, ensures_bind, ensures_add, ensures_bind, ensures_add, ensures_map,
      ensures_add]
    have hone := htest.addValue (x := .const (.int 1)) (by simp [Node.children]) (by simp)
    have hnull := hone.addValue (x := .const .null) (by simp [Node.children]) (by simp)
    have hcond := hnull.addValue (x := .cond test ⟨u.graph.entries.size⟩
      ⟨(u.graph.add (.const (.int 1))).2.entries.size⟩) (by simp [Node.children]) (by simp)
    exact (hcond.addValue (by simp [Node.children]) (by simp)).stands
  · next g _ => exact hselector g (hf g rfl)
  · exact ensures_reject

end Visit

/-! ### Inside an open request -/

/-- A request is open, whichever request is active. -/
def Held (c : Catalog) (s : CompileState) (C : List RequestId) (r : RequestId) (t : CompileState) :
    Prop := Opened c s C r { t with active := some r }

namespace Held

lemma opened (h : Held c s C r t) : t.graph.Open (r :: C) := (Opened.ready h).opened

lemma later (h : Held c s C r t) : Later C s.graph t.graph := by
  obtain ⟨hlater, -⟩ := h
  exact hlater

lemma parent (h : Held c s C r t) : (t.graph.request r).parent = s.active := by
  obtain ⟨-, -, -, hparent, -⟩ := h
  exact hparent

lemma new (h : Held c s C r t) : r ∉ C := Opened.new h

lemma build (h : Held c s C r t) {k : Graph} (hk : Built (r :: C) t.graph k) :
    Held c s C r { t with graph := k } := Opened.build h hk

/-- Steps within an open request. -/
lemma ensures_within {α : Type} {x : Compile α} {P : α → Graph → Prop} (h : Held c s C r t)
    (hx : ∀ t, Opened c s C r t → Ensures x t fun a u => Opened c s C r u ∧ P a u.graph) :
    Ensures (within r x) t fun a u => Held c s C r u ∧ P a u.graph := by
  rw [Compile.ensures_within]
  refine (hx _ h).mono fun a u ⟨hu, hP⟩ => ⟨?_, hP⟩
  exact hu.remember rfl hu.active.symm rfl hu.ready.paths

/-- A new node of values that may be put into an open request. -/
lemma ensures_add (h : Held c s C r t) {x : Node} (hx : ∀ m ∈ x.children, t.graph.Fit (r :: C) m)
    (hsub : ∀ q, x ≠ .sub q) :
    Ensures (add x) t fun n u => Held c s C r u ∧ u.graph.Fit (r :: C) n ∧
      ∀ m, t.graph.Fit (r :: C) m → u.graph.Fit (r :: C) m := by
  have hadd : Built (r :: C) t.graph (t.graph.add x).2 :=
    .add h.opened (fun m hm => (hx m hm).inside) fun q hq => absurd hq (hsub q)
  refine Compile.ensures_add.2 ⟨h.build hadd, h.opened.fit_add hx fun q hq => absurd hq (hsub q),
    fun m hm => hm.later hadd.extension h.opened.ordered⟩

lemma ensures_duplicate (h : Held c s C r t) (e : Expr) (n : NodeId) :
    Ensures (duplicate e n) t fun m u => Held c s C r u ∧ u.graph.Fit (r :: C) m := by
  rw [duplicate, ensures_bind, ensures_build]
  rcases hrun : (Build.duplicate n).run t.graph with ⟨_ | m, k⟩
  · exact ensures_reject
  · obtain ⟨hbuilt, hfit⟩ := built_duplicate h.opened hrun
    exact ensures_pure.2 ⟨h.build hbuilt, hfit⟩

lemma ensures_pushItem (h : Held c s C r t) {i : Item} (hi : t.graph.Fit (r :: C) i.node) :
    Ensures (edit (·.pushItem r i)) t fun _ u => Held c s C r u :=
  ensures_edit.2 (h.build (built_pushItem h.opened List.mem_cons_self hi))

lemma ensures_selectOnly (h : Held c s C r t) {i : Item} (hi : t.graph.Fit (r :: C) i.node) :
    Ensures (edit fun g => (g.clearItems r).pushItem r i) t fun _ u => Held c s C r u :=
  ensures_edit.2 (Opened.selectOnly h hi)

lemma ensures_project (h : Held c s C r t) (type : TypeRef) :
    Ensures (editRequest r ({ · with projection := some type })) t fun _ u => Held c s C r u :=
  ensures_editRequest.2 (Opened.amend h ⟨rfl, rfl, rfl, rfl⟩ fun _ hn => hn)

lemma ensures_selectAll (h : Held c s C r t) (e : Expr) :
    Ensures (selectAll e r) t fun _ u => Held c s C r u := by
  rw [selectAll, ensures_bind, ensures_request]
  split
  · split
    · next a _ =>
      refine (h.ensures_add (by simp [Node.children]) (by simp)).bind fun n u ⟨hu, hn, _⟩ => ?_
      exact hu.ensures_pushItem hn
    · exact ensures_reject
  · exact ensures_pure.2 h

/-- What is selected for counting is labelled, and it is a copy of what was there. -/
lemma ensures_selectCounted (h : Held c s C r t) (e : Expr) :
    Ensures (selectCounted e r) t fun _ u => Held c s C r u := by
  have hkeys : ∀ keys : List NodeId, Ensures (keys.forM fun key => do
      let n ← duplicate e key
      edit (·.pushItem r { node := n })) t fun _ u => Held c s C r u := by
    intro keys
    refine ensures_forM (I := Held c s C r) keys (fun key _ t ht => ?_) h
    exact (ht.ensures_duplicate e key).bind fun n u ⟨hu, hn⟩ => hu.ensures_pushItem hn
  -- whatever the labels are, the nodes stay the same
  have hlabels : ∀ f : Item × Nat → Item, (∀ x, (f x).node = x.1.node) → ∀ u, Held c s C r u → Ensures (do
      if (← request r).items.isEmpty then selectAll e r
      else editRequest r fun q => { q with items := q.items.zipIdx.map f }) u fun _ w => Held c s C r w := by
    intro f hf u hu
    rw [ensures_bind, ensures_request]
    split
    · exact hu.ensures_selectAll e
    · refine ensures_editRequest.2 (Opened.amend hu ⟨rfl, rfl, rfl, rfl⟩ fun n hn => ?_)
      rw [Request.mem_clauseNodes] at hn ⊢
      rcases hn with hn | ⟨i, hi, rfl⟩ | hn
      · exact .inl hn
      · obtain ⟨x, hx, rfl⟩ := List.mem_map.1 hi
        exact .inr (.inl ⟨x.1, List.fst_mem_of_mem_zipIdx hx, (hf x).symm⟩)
      · exact .inr (.inr hn)
  rw [selectCounted, ensures_bind, ensures_request]
  split
  · exact (hkeys _).bind fun _ u hu => hlabels _ (fun _ => by rfl) u hu
  · exact hlabels _ (fun _ => by rfl) t h

/-- A request inside another one is left and becomes a value. -/
lemma ensures_sub (h : Held c s C r t) (hs : Ready c s C) (hactive : s.active.isSome = true) :
    Ensures (do Compile.leave r; Meaning.value <$> add (.sub r)) t fun m u =>
      Stands c s C sequence u m := by
  have hleave : Ensures (do Compile.leave r; Meaning.value <$> add (.sub r)) { t with active := some r }
      fun m u => Stands c s C sequence u m := Opened.ensures_sub h hs
  obtain ⟨outer, houter⟩ := Option.isSome_iff_exists.1 hactive
  rw [ensures_bind, ensures_leave, h.parent, houter] at hleave ⊢
  exact hleave

section Visit

variable {visit : Visit} (hv : Builds c visit)
include hv

lemma ensures_selector (h : Held c s C r t) {f : Expr} (hf : f.receives c = true) (e : Expr) :
    Ensures (selector visit e r f) t fun n u => Held c s C r u ∧ u.graph.Fit (r :: C) n := by
  refine h.ensures_within (P := fun n g => g.Fit (r :: C) n) fun t ht => ?_
  refine (ensures_body hv hf ht.ready e r).mono fun n u ⟨D, hu⟩ => ?_
  obtain ⟨hopened, hfit⟩ := ht.yields hu
  exact ⟨hopened, hfit n (by simp)⟩

variable {f : Option Expr} (hf : ∀ a ∈ f, a.receives c = true)
include hf

lemma ensures_restrictBy (h : Held c s C r t) (e : Expr) :
    Ensures (restrictBy visit e r f) t fun _ u => Held c s C r u := by
  cases f with
  | none => exact ensures_pure.2 h
  | some f =>
    have hpredicate : ∀ t, Opened c s C r t → Ensures (predicate visit e r f) t fun n u =>
        Opened c s C r u ∧ u.graph.Fit (r :: C) n := by
      intro t ht
      refine (ensures_predicate hv (hf f rfl) ht.ready e r).mono fun n u ⟨D, hu⟩ => ?_
      obtain ⟨hopened, hfit⟩ := ht.yields hu
      exact ⟨hopened, hfit n (by simp)⟩
    refine (h.ensures_within (P := fun n g => g.Fit (r :: C) n) hpredicate).bind
      fun n u ⟨hu, hn⟩ => ?_
    refine (ensures_restrict hu.opened List.mem_cons_self hn).mono ?_
    rintro _ _ ⟨k, rfl, hk⟩
    exact hu.build hk

lemma ensures_aggregated (h : Held c s C r t) (e : Expr) :
    Ensures (aggregated visit e r f) t fun n u => Held c s C r u ∧ u.graph.Fit (r :: C) n := by
  cases f with
  | some f => exact h.ensures_selector hv (hf f rfl) e
  | none =>
    rw [aggregated, ensures_bind, ensures_request]
    split
    · next i hi =>
      refine ensures_pure.2 ⟨h, h.opened.fit_of_clause (q := r) ?_⟩
      exact Request.mem_clauseNodes.2 (.inr (.inl ⟨i, by rw [hi]; simp, rfl⟩))
    · exact ensures_reject

/-- An aggregate over a request inside another one takes the place of the selected values. -/
lemma ensures_aggregateInside (h : Held c s C r t) (hs : Ready c s C)
    (hactive : s.active.isSome = true) (e : Expr) (op : UnaryOp) :
    Ensures (aggregateInside visit e op r f) t fun m u => Stands c s C sequence u m := by
  have hrest : ∀ operand u, Held c s C r u → (∀ n ∈ operand, u.graph.Fit (r :: C) n) →
      Ensures (do
        let n ← add (.unary op operand)
        edit fun g => (g.clearItems r).pushItem r { node := n }
        editRequest r ({ · with projection := some e.type })
        leave r
        .value <$> add (.sub r)) u fun m w => Stands c s C sequence w m := by
    intro operand u hu hoperand
    have hchildren : ∀ m ∈ (Node.unary op operand).children, u.graph.Fit (r :: C) m := by
      intro m hm
      exact hoperand m (by simpa [Node.children] using hm)
    refine (hu.ensures_add hchildren (by simp)).bind fun n w ⟨hw, hn, _⟩ => ?_
    refine (hw.ensures_selectOnly (i := { node := n }) hn).bind fun _ x hx => ?_
    exact (hx.ensures_project e.type).bind fun _ y hy => hy.ensures_sub hs hactive
  unfold aggregateInside
  split
  · refine (h.ensures_restrictBy hv hf e).bind fun _ u hu => ?_
    rw [pure_bind]
    exact hrest none u hu (by simp)
  · refine ensures_bind.2 (ensures_map.2 ((h.ensures_aggregated hv hf e).mono fun n u ⟨hu, hn⟩ => ?_))
    refine hrest (some n) u hu fun m hm => ?_
    cases hm
    exact hn

end Visit

/-! ### Requests around an open one -/

/-- A request is open around the one that was. -/
lemma around (h : Held c s C r t) (hs : Ready c s C) {k : Graph}
    (hk : Built (⟨t.graph.requests.size⟩ :: C) (t.graph.addRequest s.active).2 k) :
    Opened c s C ⟨t.graph.requests.size⟩
      { t with graph := k, active := some ⟨t.graph.requests.size⟩ } :=
  (Opened.of_new (Opened.outside h hs) hk).earlier h.later rfl

lemma not_mem_around (h : Held c s C r t) : r ∉ (⟨t.graph.requests.size⟩ : RequestId) :: C := by
  intro hr
  rcases List.mem_cons.1 hr with rfl | hr
  · exact (h.opened.inside _ List.mem_cons_self).false
  · exact h.new hr

/-- An open request moves into a new one without clauses. -/
lemma ensures_enclose (h : Held c s C r t) (hs : Ready c s C) (hn : t.graph.Fit C n) :
    Ensures (Compile.build (Build.addRequest s.active)) t fun outer u =>
      Ensures (editRequest r ({ · with parent := some outer })) u fun _ w =>
        Held c s C outer w ∧ w.graph.Fit (outer :: C) n := by
  rw [ensures_build, ensures_editRequest]
  have hmove : Built (⟨t.graph.requests.size⟩ :: C) (t.graph.addRequest s.active).2
      ((t.graph.addRequest s.active).2.modifyRequest r
        ({ · with parent := some ⟨t.graph.requests.size⟩ })) :=
    .move ((h.opened.addRequest s.active).mono (by simp)) h.not_mem_around ⟨rfl, rfl, rfl⟩ fun _ hm => hm
  refine ⟨h.around hs hmove, (hn.inNew ?_ s.active).later hmove.extension ?_⟩
  · exact h.opened.mono (List.subset_cons_self _ _)
  · exact (h.opened.addRequest s.active).ordered

/-- A request becomes a derived table of a new one. -/
lemma ensures_derive (h : Held c s C r t) (hs : Ready c s C) :
    Ensures (derive r) t fun x u => Opened c s C x.1 u := by
  rw [derive, ensures_bind, ensures_request, h.parent, ensures_bind, ensures_build, ensures_bind,
    ensures_build, ensures_bind, ensures_editRequest, ensures_bind, ensures_editRequest, ensures_bind,
    ensures_setActive, ensures_pure]
  refine h.around hs (built_derived ((h.opened.addRequest s.active).mono (by simp)) h.not_mem_around ?_
    ⟨rfl, rfl, rfl⟩ fun n hn => ?_)
  · rw [request_addRequest_self]
    exact ⟨rfl, rfl⟩
  · simp only [Request.mem_clauseNodes] at hn ⊢
    grind

/-- Whether an open request has rows may be put into the requests around it. -/
lemma ensures_exists (h : Held c s C r t) :
    Ensures (add (.sub r)) t fun sub u => Ensures (add (.unary .exists (some sub))) u fun found w =>
      Held c s C r w ∧ w.graph.Fit C found := by
  rw [Compile.ensures_add, Compile.ensures_add]
  have hsub : Built (r :: C) t.graph (t.graph.add (.sub r)).2 := by
    refine .add h.opened (by simp [Node.children]) fun q hq => ?_
    cases hq
    exact h.opened.inside r List.mem_cons_self
  have hfit : (t.graph.add (.sub r)).2.Fit C ⟨t.graph.entries.size⟩ := by
    refine (h.opened.mono (List.subset_cons_self _ _)).fit_add (by simp [Node.children]) fun q hq => ?_
    cases hq
    exact h.new
  have hchildren : ∀ m ∈ (Node.unary .exists (some ⟨t.graph.entries.size⟩)).children,
      (t.graph.add (.sub r)).2.Fit C m := by
    intro m hm
    obtain rfl : m = ⟨t.graph.entries.size⟩ := by simpa [Node.children] using hm
    exact hfit
  refine ⟨(h.build hsub).build (.add hsub.opened (fun m hm => (hchildren m hm).inside) (by simp)), ?_⟩
  exact (hsub.opened.mono (List.subset_cons_self _ _)).fit_add hchildren (by simp)

end Held

/-- A new node is selected. -/
lemma Opened.ensures_selectNode (h : Opened c s C r t) {x : Node}
    (hx : ∀ m ∈ x.children, t.graph.Fit (r :: C) m) (hsub : ∀ q, x ≠ .sub q) (type : TypeRef) :
    Ensures (do
      let n ← add x
      edit (·.pushItem r { node := n })
      editRequest r ({ · with projection := some type })) t fun _ u => Opened c s C r u := by
  have hopen := h.ready.opened
  have hadd : Built (r :: C) t.graph (t.graph.add x).2 :=
    .add hopen (fun m hm => (hx m hm).inside) fun q hq => absurd hq (hsub q)
  have hfit := hopen.fit_add hx fun q hq => absurd hq (hsub q)
  rw [ensures_bind, ensures_add, ensures_bind, ensures_edit]
  exact ((h.build hadd).build (built_pushItem hadd.opened List.mem_cons_self hfit)).ensures_project type

section Visit

variable {visit : Visit} (hv : Builds c visit)
include hv

/-! ### Aggregates -/

lemma Held.ensures_aggregateDerived (h : Held c s C r t) (hs : Ready c s C) (e : Expr) (op : UnaryOp)
    {f : Option Expr} (hf : ∀ a ∈ f, a.receives c = true) :
    Ensures (aggregateDerived visit e op r f) t fun outer u => Opened c s C outer u := by
  have hselect : ∀ outer u operand, Opened c s C outer u →
      (∀ n ∈ operand, u.graph.Fit (outer :: C) n) → Ensures (do
        let n ← add (.unary op operand)
        edit (·.pushItem outer { node := n })
        editRequest outer ({ · with projection := some e.type })
        return outer) u fun outer w => Opened c s C outer w := by
    intro outer u operand hu hoperand
    have hitem := hu.ensures_selectNode (x := .unary op operand)
      (fun m hm => hoperand m (by simpa [Node.children] using hm)) (by simp) e.type
    rw [ensures_bind] at hitem ⊢
    refine hitem.mono fun n w hw => ?_
    rw [ensures_bind] at hw ⊢
    exact hw.mono fun _ x hx => hx.bind fun _ y hy => ensures_pure.2 hy
  unfold aggregateDerived
  split
  · refine (h.ensures_restrictBy hv hf e).bind fun _ u hu => ?_
    refine (hu.ensures_selectCounted e).bind fun _ w hw => ?_
    refine (hw.ensures_derive hs).bind fun ⟨outer, a⟩ x hx => ?_
    exact hselect outer x none hx (by simp)
  · refine (h.ensures_aggregated hv hf e).bind fun n u ⟨hu, hn⟩ => ?_
    refine (hu.ensures_selectOnly (i := { node := n, label := some (derivedLabel 0) }) hn).bind
      fun _ w hw => ?_
    refine (hw.ensures_derive hs).bind fun ⟨outer, a⟩ x hx => ?_
    dsimp only
    rw [ensures_bind, ensures_map, Compile.ensures_add]
    have hopen := hx.ready.opened
    have hadd : Built (outer :: C) x.graph (x.graph.add (.column a (derivedLabel 0))).2 :=
      .add hopen (by simp [Node.children]) (by simp)
    refine hselect outer _ _ (hx.build hadd) fun m hm => ?_
    cases hm
    exact hopen.fit_add (by simp [Node.children]) (by simp)

variable {arg : Expr} {args : List Expr} (harg : arg.receives c = true)
  (hargs : ∀ a ∈ args, a.receives c = true) (hs : Ready c s C)
include harg hargs hs

/-- An aggregate over a request is its only value; over one inside another one it is a value. -/
lemma ensures_aggregate (hreceiver : arg.isSequence c = true ∨ arg.type.isGrouping = true) (e : Expr)
    (op : UnaryOp) :
    Ensures (aggregate visit e op arg args) s fun m t => Stands c s C sequence t m := by
  have hf : ∀ a ∈ args[1]?, a.receives c = true := fun a ha => hargs a (List.mem_of_getElem? ha)
  unfold aggregate
  dsimp only
  split
  · exact ensures_aggregateGrouping hv harg hs e op hf
  · next hgrouping =>
    have hsequence := hreceiver.resolve_right hgrouping
    refine (ensures_receiver hv harg hsequence hs).bind fun r t ht => ?_
    have hheld : Held c s C r t := ht
    rw [ensures_bind, ensures_request, hheld.parent]
    split
    · exact ensures_map.2 (hheld.ensures_aggregateDerived hv hs e op hf)
    · next hnone =>
      have hactive : s.active.isSome = true := by simpa [Option.isSome_iff_ne_none] using hnone
      split
      · rw [ensures_get_bind]
        refine (hheld.ensures_aggregateDerived hv hs e op hf).bind fun outer u hu => ?_
        obtain ⟨D, hD⟩ := hu.yields_sub hs
        rw [← back_build] at hD
        have hback : ∀ active, back s { u with active, graph := (u.graph.add (.sub outer)).2 } =
            back s { u with graph := (u.graph.add (.sub outer)).2 } := fun active => by
          rw [back, back, if_pos hactive, if_pos hactive]
        split
        · rw [ensures_bind, ensures_modify, ensures_map, ensures_add]
          refine ⟨D, ?_⟩
          rw [hback]
          exact hD
        · rw [ensures_map, ensures_add]
          exact ⟨D, hD⟩
      · exact hheld.ensures_aggregateInside hv hf hs hactive e op

/-! ### Existence -/

/-- Whether a request has rows, as a value of the request around it or of a new one. -/
lemma ensures_any (hreceiver : arg.isSequence c = true ∨ arg.type.isGrouping = true) (e : Expr) :
    Ensures (any visit e arg args) s fun m t => Stands c s C sequence t m := by
  have hf : ∀ a ∈ args[1]?, a.receives c = true := fun a ha => hargs a (List.mem_of_getElem? ha)
  unfold any
  split
  · exact ensures_reject_bind
  · next hgrouping =>
    have hsequence := hreceiver.resolve_right hgrouping
    refine (ensures_receiver hv harg hsequence hs).bind fun r t ht => ?_
    refine (Held.ensures_restrictBy hv hf ht e).bind fun _ u hu => ?_
    refine (hu.ensures_selectAll e).bind fun _ w hw => ?_
    refine (hw.ensures_exists).bind fun sub x hx => hx.bind fun found y hy => ?_
    obtain ⟨hy, hfound⟩ := hy
    rw [ensures_bind, ensures_request, hy.parent]
    split
    · next hactive =>
      obtain ⟨outer, houter⟩ := Option.isSome_iff_exists.1 hactive
      rw [ensures_bind, ensures_leave, hy.parent, houter, ensures_pure]
      obtain ⟨D, hD⟩ := Opened.leave hy hs
      have hback : back s { y with active := some outer } = back s { y with active := some r } := by
        rw [back, back, if_pos hactive, if_pos hactive]
      refine ⟨D, ?_⟩
      rw [hback]
      refine hD.insert ?_ fun _ => ?_
      · rw [graph_back]
        exact hfound.inside
      · rw [graph_back]
        exact hfound
    · next hactive =>
      have hnone : s.active = none := by simpa using hactive
      have henclose := hy.ensures_enclose hs hfound
      rw [hnone] at henclose
      refine henclose.bind fun outer z hz => hz.bind fun _ a ha => ?_
      obtain ⟨ha, hfound⟩ := ha
      refine (ha.ensures_add (by simp [Node.children]) (by simp)).bind fun yes b hb => ?_
      obtain ⟨hb, hyes, hab⟩ := hb
      refine (hb.ensures_add (by simp [Node.children]) (by simp)).bind fun no d hd => ?_
      obtain ⟨hd, hno, hbd⟩ := hd
      refine (hd.ensures_add (fun m hm => ?_) (by simp)).bind fun answer f hf => ?_
      · have hchildren : m = found ∨ m = yes ∨ m = no := by simpa [Node.children] using hm
        rcases hchildren with rfl | rfl | rfl
        · exact hbd m (hab m hfound)
        · exact hbd m hyes
        · exact hno
      refine (hf.1.ensures_pushItem (i := { node := answer }) hf.2.1).bind fun _ x hx => ?_
      refine (hx.ensures_project .boolean).bind fun _ y hy => ?_
      rw [ensures_bind, ensures_setActive, ensures_pure]
      exact hy

end Visit

/-! ### Writes -/

/-- The table of a write is the base of its request, or no derived table. -/
lemma Opened.ensures_markWrite (h : Opened c s C r t) (e : Expr) (kind : RequestKind)
    {target : Option AliasId} (htarget : ∀ a, target = some a → (t.graph.request r).base = some a ∨
      a.index < t.graph.aliases.size ∧ ∀ q, (t.graph.aliasOf a).origin ≠ .request q) :
    Ensures (markWrite e r kind target) t fun m u => Stands c s C sequence u m := by
  rw [markWrite, ensures_bind, ensures_editRequest, ensures_pure]
  refine h.build (.modifyRequest h.ready.opened List.mem_cons_self rfl (fun _ ha => ha)
    (fun n hn => .inl hn) (fun a ha => ?_) fun a ha => ?_)
  · rw [Request.mem_origins] at ha
    rcases ha with hbase | hjoin | ha
    · exact .inl (Request.mem_origins.2 (.inl hbase))
    · exact .inl (Request.mem_origins.2 (.inr (.inl hjoin)))
    · rcases htarget a ha with hbase | ⟨hlt, htable⟩
      · exact .inl (Request.mem_origins.2 (.inl hbase))
      · exact .inr ⟨hlt, fun q hq => absurd hq (htable q)⟩
  · exact (htarget a ha).imp_right fun h => h.2

section Visit

variable {visit : Visit} (hv : Builds c visit)
include hv

/-- Assigned values are put into the request of a write. -/
lemma Opened.ensures_assign (h : Opened c s C r t) (e : Expr) (target : AliasId) (bindings : List Binding)
    (hbindings : Expr.receivesBindings c bindings = true) :
    Ensures (assign visit e r target bindings) t fun _ u =>
      Opened c s C r u ∧ Later (r :: C) t.graph u.graph := by
  induction bindings generalizing t with
  | nil => exact ensures_pure.2 ⟨h, .refl _ _⟩
  | cons b rest ih =>
    cases b with
    | list p es => exact ensures_reject
    | assign p v =>
      rw [Expr.receivesBindings, Bool.and_eq_true, Bool.and_eq_true] at hbindings
      obtain ⟨⟨-, hvalue⟩, hrest⟩ := hbindings
      have hstore : ∀ column, Ensures (do
          let column ← add (.column target column)
          let n ← value visit v
          edit (·.pushAssignment r ⟨column, n⟩)
          assign visit e r target rest) t fun _ u =>
            Opened c s C r u ∧ Later (r :: C) t.graph u.graph := by
        intro column
        rw [ensures_bind, ensures_add]
        have hcolumn := (Yields.refl h.ready).addValue (x := .column target column)
          (by simp [Node.children]) (by simp)
        refine (Compile.ensures_value hv hvalue hcolumn.ready).bind fun n u hu => ?_
        obtain ⟨D, hu⟩ := hu
        have hboth := hcolumn.trans hu
        obtain ⟨hopened, hfit⟩ := h.yields hboth
        have hpush := built_pushAssignment hopened.ready.opened List.mem_cons_self
          (s := ⟨⟨t.graph.entries.size⟩, n⟩) (hfit _ (by simp)) (hfit n (by simp))
        rw [ensures_bind, ensures_edit]
        refine (ih (hopened.build hpush) hrest).mono fun _ w hw => ⟨hw.1, ?_⟩
        exact (hboth.later.trans (.of_built hpush) (List.Subset.refl _)).trans hw.2
          (List.Subset.refl _)
      rw [assign, ensures_bind, ensures_ask]
      intro stored _
      split
      · exact ensures_reject_bind
      · exact ensures_reject_bind
      · exact hstore _
      · exact hstore _

variable {arg : Expr} {args : List Expr} (harg : arg.receives c = true)
  (hsequence : arg.isSequence c = true) (hargs : ∀ a ∈ args, a.receives c = true) (hs : Ready c s C)
include harg hsequence hs

lemma ensures_delete (e : Expr) :
    Ensures (delete visit e arg) s fun m t => Stands c s C sequence t m := by
  refine (ensures_openReceiver hv harg hsequence hs e).bind fun r t ht => ?_
  rw [ensures_bind, ensures_request]
  exact ht.ensures_markWrite e .delete fun a ha => .inl ha

include hargs

lemma ensures_initializer (e : Expr) (m : Method) :
    Ensures (initializer visit e m arg args) s fun x t =>
      Opened c s C x.1 t ∧ Expr.receivesBindings c x.2.2 = true := by
  refine (ensures_openReceiver hv harg hsequence hs e).bind fun r t ht => ?_
  refine (ensures_argument e args 1).bind fun f t' ⟨hf, ht'⟩ => ?_
  rw [ht']
  refine (ensures_enter (c := c) e r f).bind fun body u ⟨hbody, a, p, hu⟩ => ?_
  rw [hu]
  split
  · next type bindings =>
    exact ensures_pure.2 ⟨ht.build (.bind ht.ready.opened a p), hbody (hargs f hf)⟩
  · exact ensures_reject

lemma ensures_update (e : Expr) :
    Ensures (update visit e arg args) s fun m t => Stands c s C sequence t m := by
  refine (ensures_initializer hv harg hsequence hargs hs e .update).bind
    fun ⟨r, type, bindings⟩ t ⟨ht, hbindings⟩ => ?_
  dsimp only
  rw [ensures_bind, ensures_request]
  split
  · next target htarget =>
    refine (ht.ensures_assign hv e target bindings hbindings).bind fun _ u ⟨hu, hlater⟩ => ?_
    refine hu.ensures_markWrite e .update fun a ha => .inl ?_
    cases ha
    exact hlater.base r List.mem_cons_self target htarget
  · exact ensures_reject

lemma ensures_insert (e : Expr) :
    Ensures (insert visit e arg args) s fun m t => Stands c s C sequence t m := by
  refine (ensures_initializer hv harg hsequence hargs hs e .insert).bind
    fun ⟨r, type, bindings⟩ t ⟨ht, hbindings⟩ => ?_
  dsimp only
  rw [ensures_bind, ensures_ask]
  intro table _
  rw [ensures_get_bind, ensures_bind, ensures_build]
  generalize hd : Alias.ofTable table type (t.mapping.catalog.idColumn type).toOption = d
  have horigin : ∀ q, d.origin ≠ .request q := by
    intro q
    rw [← hd]
    simp [Alias.ofTable]
  have halias : Built (r :: C) t.graph (t.graph.addAlias d).2 :=
    .addAlias ht.ready.opened fun q hq => absurd hq (horigin q)
  have hself : ((t.graph.addAlias d).2.aliasOf ⟨t.graph.aliases.size⟩).origin = d.origin := by
    rw [aliasOf_addAlias_self]
  refine ((ht.build halias).ensures_assign hv e _ bindings hbindings).bind fun _ u hu => ?_
  obtain ⟨hu, hlater⟩ := hu
  refine hu.ensures_markWrite e .insertSelect fun a ha => .inr ?_
  cases ha
  have hlt : t.graph.aliases.size < (t.graph.addAlias d).2.aliases.size := by
    rw [size_aliases_addAlias]
    exact Nat.lt_succ_self _
  have hkept : (u.graph.aliasOf ⟨t.graph.aliases.size⟩).origin = d.origin :=
    (hlater.extension.origin ⟨t.graph.aliases.size⟩ hlt).trans hself
  refine ⟨hlt.trans_le hlater.extension.aliases, fun q hq => horigin q ?_⟩
  exact hkept.symm.trans hq

end Visit

end EntityQuery.Compile
