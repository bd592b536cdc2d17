import EntityQuery.Compile.Summary
import EntityQuery.Compile.Write
import EntityQuery.Proofs.Ownership.Shape

/-!
Aggregates, `Any` and writes take the nodes they are given once.

* An aggregate takes the only selected value out of the select list before it takes its place there.
* A derived table keeps its clauses; the request around it gets clauses of its own.
-/

namespace EntityQuery.Compile

open Sql Graph

variable {s t : CompileState} {L : List NodeId} {r : RequestId} {n : NodeId} {arg : Expr}
  {args : List Expr}

/-! ### Steps within a request -/

lemma tends_within {x : Compile NodeId} (hs : Steady s L) (hr : r.index < s.graph.requests.size)
    (hx : Steady { s with active := some r } L → Ensures x { s with active := some r } fun n t =>
      Since { s with active := some r } (n :: L) t) :
    Ensures (within r x) s fun n t => Since s (n :: L) t := by
  rw [ensures_within]
  refine (hx (hs.activate hr)).mono fun n t ht => ?_
  exact ⟨ht.graph, fun q hq => (hs.active q hq).trans_le ht.graph.grows.requests⟩

section Visit

variable {visit : Visit} (hv : Tends visit)
include hv

lemma tends_selector (hs : Steady s L) (hr : r.index < s.graph.requests.size) (e f : Expr) :
    Ensures (selector visit e r f) s fun n t => Since s (n :: L) t :=
  tends_within hs hr fun hs => tends_body hv hs e r f

lemma tends_restrictBy (hs : Steady s L) (hr : r.index < s.graph.requests.size) (e : Expr)
    (f : Option Expr) : Ensures (restrictBy visit e r f) s fun _ t => Since s L t := by
  cases f with
  | none => exact ensures_pure.2 (.refl hs)
  | some f =>
    refine (tends_within hs hr fun hs => tends_predicate hv hs e r f).bind fun n t ht => ?_
    exact tends_restrict ht (ht.request hr)

/-- The operand of an aggregate is loose once nothing is selected. -/
lemma tends_aggregated (hs : Steady s L) (hr : r.index < s.graph.requests.size) (e : Expr)
    (f : Option Expr) :
    Ensures (aggregated visit e r f) s fun n t =>
      Since s L t ∧ Tended t.graph (n :: L) (t.graph.clearItems r) := by
  cases f with
  | some f =>
    refine (tends_selector hv hs hr e f).mono fun n t ht => ?_
    exact ⟨ht.only (List.sublist_cons_self _ _).subperm, ht.clearItems (ht.request hr)⟩
  | none =>
    rw [aggregated, ensures_bind, ensures_request]
    split
    · next i hi =>
      have hclear := tended_clearItems hs.tidy hr
      rw [hi] at hclear
      exact ensures_pure.2 ⟨.refl hs, hclear⟩
    · exact ensures_reject

end Visit

lemma tends_selectAll (hs : Steady s L) (hr : r.index < s.graph.requests.size) (e : Expr) :
    Ensures (selectAll e r) s fun _ t => Since s L t := by
  rw [selectAll, ensures_bind, ensures_request]
  split
  · split
    · next a ha =>
      have hinside := (hs.tidy.closed.request r).2 a (Request.mem_origins.2 (.inl ha))
      refine (tends_column (.refl hs) hinside allColumns).bind fun n t ht => ?_
      exact tends_pushItem ht (ht.request hr)
    · exact ensures_reject
  · exact ensures_pure.2 (.refl hs)

/-! ### Over a grouping -/

section Visit

variable {visit : Visit} (hv : Tends visit)
include hv

lemma tends_aggregateGrouping (hs : Steady s L) (e : Expr) (op : UnaryOp) (arg : Expr)
    (f : Option Expr) :
    Ensures (aggregateGrouping visit e op arg f) s fun m t => Found s L t m := by
  refine (tends_rowValue hv hs arg).bind fun a t ⟨ht, _⟩ => ?_
  rw [ensures_bind, ensures_active]
  intro here hhere
  rw [ensures_bind, ensures_graph]
  have hr : ((t.graph.requestOver? here a).getD here).index < t.graph.requests.size := by
    cases hq : t.graph.requestOver? here a with
    | none => exact ht.active here hhere
    | some q => exact requestOver?_inside hq
  generalize (t.graph.requestOver? here a).getD here = r at hr
  have hselector : ∀ g, Ensures (do
      let n ← selector visit e r g
      Meaning.value <$> add (.unary op (some n))) t fun m u => Found s L u m := by
    intro g
    refine (tends_selector hv ht.steady hr e g).bind fun n u hu => ?_
    exact ensures_map.2 (tends_operator (x := .unary op (some n)) (ht.trans hu) rfl (by simp))
  dsimp only
  split
  · exact ensures_map.2 (tends_operator (x := .unary .count none) ht rfl (by simp))
  · next p =>
    refine (tends_within ht.steady hr fun hs => tends_predicate hv hs e r p).bind fun test u hu => ?_
    refine (tends_operator (x := .const (.int 1)) (ht.trans hu) rfl (by simp)).bind fun one v hv => ?_
    refine (tends_operator (x := .const .null) hv rfl (by simp)).bind fun null w hw => ?_
    have hall := hw.only ((List.reverse_perm [null, one, test]).append_right L).subperm
    refine (tends_operator (x := .cond test one null) hall rfl (by simp)).bind fun n x hx => ?_
    exact ensures_map.2 (tends_operator (x := .unary .count (some n)) hx rfl (by simp))
  · next g _ => exact hselector g
  · exact ensures_reject

/-! ### Inside another request -/

omit hv in
/-- An aggregate takes its operand and becomes the only selected value. -/
lemma tends_selectUnary (hst : Since s L t) (hr : r.index < t.graph.requests.size) (op : UnaryOp)
    {operand : Option NodeId} (h : Tended t.graph (operand.toList ++ L) (t.graph.clearItems r)) :
    Ensures (do
      let n ← add (.unary op operand)
      edit fun g => (g.clearItems r).pushItem r { node := n }) t fun _ u => Since s L u := by
  rw [ensures_bind, ensures_add, ensures_edit]
  have hadd : Tended (t.graph.clearItems r) (⟨t.graph.entries.size⟩ :: L)
      ((t.graph.clearItems r).add (.unary op operand)).2 :=
    tended_operator (x := .unary op operand) h.tidy rfl (by simp)
  unfold Graph.clearItems at hadd h ⊢
  rw [add_modifyRequest] at hadd
  have hboth := h.trans hadd
  refine hst.build (hboth.trans (tended_pushItem (i := { node := ⟨t.graph.entries.size⟩ }) hboth.tidy ?_))
  exact hr.trans_le hboth.grows.requests

lemma tends_aggregateInside (hs : Steady s L) (hr : r.index < s.graph.requests.size) (e : Expr)
    (op : UnaryOp) (f : Option Expr) :
    Ensures (aggregateInside visit e op r f) s fun m t => Found s L t m := by
  have hrest : ∀ operand t, Since s L t →
      Tended t.graph (operand.toList ++ L) (t.graph.clearItems r) → Ensures (do
        let n ← add (.unary op operand)
        edit fun g => (g.clearItems r).pushItem r { node := n }
        editRequest r ({ · with projection := some e.type })
        leave r
        .value <$> add (.sub r)) t fun m u => Found s L u m := by
    intro operand t ht hoperand
    have hselect := tends_selectUnary ht (ht.request hr) op hoperand
    rw [ensures_bind] at hselect ⊢
    refine hselect.mono fun n u hu => hu.bind fun _ u hu => ?_
    refine (tends_project hu (hu.request hr) e.type).bind fun _ v hv => ?_
    refine (tends_leave hv r).bind fun _ w hw => ?_
    exact ensures_map.2 (tends_sub hw (hw.request hr))
  unfold aggregateInside
  split
  · refine (tends_restrictBy hv hs hr e f).bind fun _ t ht => ?_
    rw [pure_bind]
    exact hrest none t ht (ht.clearItems (ht.request hr))
  · refine ensures_bind.2 (ensures_map.2 ((tends_aggregated hv hs hr e f).mono fun n t ⟨ht, hn⟩ => ?_))
    exact hrest (some n) t ht hn

end Visit

/-! ### Over a derived table -/

/-- Grouping keys are selected by copies; labels play no part. -/
lemma tends_selectCounted (hs : Steady s L) (hr : r.index < s.graph.requests.size) (e : Expr) :
    Ensures (selectCounted e r) s fun _ t => Since s L t := by
  have hkeys : ∀ keys : List NodeId, Ensures (keys.forM fun key => do
      let n ← duplicate e key
      edit (·.pushItem r { node := n })) s fun _ t => Since s L t := by
    intro keys
    refine ensures_forM (I := Since s L) keys (fun key _ t ht => ?_) (.refl hs)
    refine (tends_duplicate ht e key).bind fun n u hu => ?_
    exact tends_pushItem (i := { node := n }) hu (hu.request hr)
  -- whatever the labels are, the nodes stay the same
  have hlabels : ∀ f : Item × Nat → Item, (∀ x, (f x).node = x.1.node) → ∀ t, Since s L t → Ensures (do
      if (← request r).items.isEmpty then selectAll e r
      else editRequest r fun q => { q with items := q.items.zipIdx.map f }) t fun _ u => Since s L u := by
    intro f hf t ht
    rw [ensures_bind, ensures_request]
    split
    · exact (tends_selectAll ht.steady (ht.request hr) e).mono fun _ _ hu => ht.trans hu
    · refine tends_amend ht (ht.request hr) (fun hq => hq) ?_
      simp only [Request.clauseNodes, List.map_map, Function.comp_def, hf]
      have hnodes : (t.graph.request r).items.zipIdx.map (fun x => x.1.node) =
          (t.graph.request r).items.map Item.node := by
        rw [show (fun x : Item × Nat => x.1.node) = Item.node ∘ Prod.fst from rfl, ← List.map_map,
          List.zipIdx_map_fst]
      rw [hnodes]
  rw [selectCounted, ensures_bind, ensures_request]
  split
  · exact (hkeys _).bind fun _ t ht => hlabels _ (fun _ => by rfl) t ht
  · exact hlabels _ (fun _ => by rfl) s (.refl hs)

/-- A request becomes a derived table of a new one. -/
lemma tends_derive (hs : Steady s L) (hr : r.index < s.graph.requests.size) :
    Ensures (derive r) s fun x t => Since s L t ∧ x.1.index < t.graph.requests.size ∧
      x.2.index < t.graph.aliases.size := by
  rw [derive, ensures_bind, ensures_request]
  refine (tends_addRequest (.refl hs) (hs.tidy.closed.request r).1).bind fun outer t ⟨ht, houter⟩ => ?_
  refine (tends_addAlias (.refl ht.steady) (d := .derived r) ⟨fun q hq => ?_,
    by simp [Alias.derived, Route.aliases]⟩).bind fun a u ⟨hu, ha⟩ => ?_
  · cases hq
    exact ht.request hr
  have htu := ht.trans hu
  obtain ⟨-, horigins⟩ := hu.graph.tidy.closed.request r
  refine (tends_editRequest (.refl hu.steady) (htu.request hr) ⟨fun p hp => ?_, horigins⟩ ?_).bind
    fun _ v hv => ?_
  · cases hp
    exact hu.request houter
  · simp only [Request.clauseNodes]
    split
    · exact (List.Perm.refl _).subperm
    · simp only [List.map_nil, List.append_nil]
      exact ((List.sublist_append_left _ _).append_right _).subperm
  have houter := hu.request houter
  refine Ensures.bind (tends_setBase hv (hv.request houter) (hv.source ha)
    fun q => ⟨rfl, rfl, rfl, rfl, rfl⟩) fun _ w hw => ?_
  refine (tends_setActive hw (hw.request houter)).bind fun _ x hx => ensures_pure.2 ?_
  exact ⟨htu.trans hx, hx.request houter, hx.source ha⟩

section Visit

variable {visit : Visit} (hv : Tends visit)
include hv

lemma tends_aggregateDerived (hs : Steady s L) (hr : r.index < s.graph.requests.size) (e : Expr)
    (op : UnaryOp) (f : Option Expr) :
    Ensures (aggregateDerived visit e op r f) s fun outer t =>
      Since s L t ∧ outer.index < t.graph.requests.size := by
  have hselect : ∀ outer operand t, Since s (operand.toList ++ L) t →
      outer.index < t.graph.requests.size → Ensures (do
        let n ← add (.unary op operand)
        edit (·.pushItem outer { node := n })
        editRequest outer ({ · with projection := some e.type })
        return outer) t fun outer u => Since s L u ∧ outer.index < u.graph.requests.size := by
    intro outer operand t ht houter
    -- requests only grow in number, whatever is loose
    have hlater : ∀ {M u}, Since t M u → outer.index < u.graph.requests.size := fun hu =>
      hu.request houter
    refine (tends_operator (x := .unary op operand) (.refl ht.steady) rfl (by simp)).bind
      fun n u hu => ?_
    refine (tends_pushItem (i := { node := n }) hu (hlater hu)).bind fun _ w hw => ?_
    refine (tends_project hw (hlater hw) e.type).bind fun _ x hx => ensures_pure.2 ?_
    exact ⟨ht.trans hx, hlater hx⟩
  unfold aggregateDerived
  split
  · refine (tends_restrictBy hv hs hr e f).bind fun _ t ht => ?_
    refine (tends_selectCounted ht.steady (ht.request hr) e).bind fun _ u hu => ?_
    have htu := ht.trans hu
    refine (tends_derive htu.steady (htu.request hr)).bind fun ⟨outer, a⟩ w ⟨hw, houter, _⟩ => ?_
    exact hselect outer none w (htu.trans hw) houter
  · refine (tends_aggregated hv hs hr e f).bind fun n t ⟨ht, hn⟩ => ?_
    refine (tends_selectOnly (i := { node := n, label := some (derivedLabel 0) }) hn ht
      (ht.request hr)).bind fun _ u hu => ?_
    refine (tends_derive hu.steady (hu.request hr)).bind fun ⟨outer, a⟩ w ⟨hw, houter, ha⟩ => ?_
    have hsw := hu.trans hw
    dsimp only
    rw [ensures_bind, ensures_map]
    refine (tends_column (.refl hsw.steady) ha (derivedLabel 0)).mono fun column x hx => ?_
    exact hselect outer (some column) x (hsw.trans hx) (hx.request houter)

lemma tends_aggregate (hs : Steady s L) (e : Expr) (op : UnaryOp) :
    Ensures (aggregate visit e op arg args) s fun m t => Found s L t m := by
  unfold aggregate
  dsimp only
  split
  · exact tends_aggregateGrouping hv hs e op arg _
  · refine (tends_receiver hv hs e arg).bind fun r t ⟨ht, hr⟩ => ?_
    have hderived := tends_aggregateDerived hv ht.steady hr e op args[1]?
    rw [ensures_bind, ensures_request]
    split
    · exact ensures_map.2 (hderived.mono fun outer u ⟨hu, houter⟩ => ⟨ht.trans hu, houter⟩)
    · split
      · rw [ensures_get_bind]
        refine hderived.bind fun outer u ⟨hu, houter⟩ => ?_
        have hsu := ht.trans hu
        split
        · rw [ensures_bind, ensures_modify, ensures_map]
          refine tends_sub (hsu.activate fun q hq => ?_) houter
          exact hu.request (ht.active q hq)
        · exact ensures_map.2 (tends_sub hsu houter)
      · exact Found.after ht (tends_aggregateInside hv ht.steady hr e op _)

/-! ### Existence -/

omit hv in
/-- A new request around another one selects whether there are rows. -/
lemma tends_answer (hst : Since s (n :: L) t) (hr : r.index < t.graph.requests.size) :
    Ensures (do
      let outer ← build (Build.addRequest none)
      editRequest r ({ · with parent := some outer })
      let yes ← add (.const (.boolean true))
      let no ← add (.const (.boolean false))
      let answer ← add (.cond n yes no)
      edit (·.pushItem outer { node := answer })
      editRequest outer ({ · with projection := some .boolean })
      setActive outer
      return .query outer) t fun m u => Found s L u m := by
  refine (tends_addRequest (.refl hst.steady) (by simp)).bind fun outer u ⟨hu, houter⟩ => ?_
  have hinside : Request.Inside u.graph { u.graph.request r with parent := some outer } := by
    refine ⟨fun p hp => ?_, (hu.graph.tidy.closed.request r).2⟩
    cases hp
    exact houter
  have hparent := tends_editRequest (f := ({ · with parent := some outer })) (.refl hu.steady)
    (hu.request hr) hinside (List.Perm.refl _).subperm
  refine hparent.bind fun _ v hv => ?_
  refine (tends_operator (x := .const (.boolean true)) hv rfl (by simp)).bind fun yes w hw => ?_
  refine (tends_operator (x := .const (.boolean false)) hw rfl (by simp)).bind fun no x hx => ?_
  have hall := hx.only ((List.reverse_perm [no, yes, n]).append_right L).subperm
  refine (tends_operator (x := .cond n yes no) hall rfl (by simp)).bind fun answer y hy => ?_
  refine (tends_pushItem (i := { node := answer }) hy (hy.request houter)).bind fun _ z hz => ?_
  refine (tends_project hz (hz.request houter) .boolean).bind fun _ a ha => ?_
  refine (tends_setActive ha (ha.request houter)).bind fun _ b hb => ensures_pure.2 ?_
  exact ⟨(hst.trans hu).trans hb, hb.request houter⟩

lemma tends_any (hs : Steady s L) (e : Expr) :
    Ensures (any visit e arg args) s fun m t => Found s L t m := by
  unfold any
  split
  · exact ensures_reject_bind
  · refine (tends_receiver hv hs e arg).bind fun r t ⟨ht, hr⟩ => ?_
    refine (tends_restrictBy hv ht.steady hr e _).bind fun _ u hu => ?_
    refine (tends_selectAll hu.steady (hu.request hr) e).bind fun _ w hw => ?_
    have htw := hu.trans hw
    refine (tends_sub htw (htw.request hr)).bind fun sub x hx => ?_
    refine (tends_operator (x := .unary .exists (some sub)) hx rfl (by simp)).bind fun found y hy => ?_
    rw [ensures_bind, ensures_request]
    split
    · refine (tends_leave (ht.trans hy) r).bind fun _ z hz => ensures_pure.2 hz
    · exact tends_answer (ht.trans hy) (hy.request hr)

end Visit

/-! ### Writes -/

section Visit

variable {visit : Visit} (hv : Tends visit)
include hv

lemma tends_assign (hs : Steady s L) (hr : r.index < s.graph.requests.size) (e : Expr)
    {target : AliasId} (htarget : target.index < s.graph.aliases.size) (bindings : List Binding) :
    Ensures (assign visit e r target bindings) s fun _ t => Since s L t := by
  induction bindings generalizing s with
  | nil => exact ensures_pure.2 (.refl hs)
  | cons b rest ih =>
    cases b with
    | list p es => exact ensures_reject
    | assign p v =>
      have hstore : ∀ column, Ensures (do
          let column ← add (.column target column)
          let n ← value visit v
          edit (·.pushAssignment r ⟨column, n⟩)
          assign visit e r target rest) s fun _ t => Since s L t := by
        intro column
        refine (tends_column (.refl hs) htarget column).bind fun c t ht => ?_
        refine (tends_value hv ht.steady v).bind fun n u hu => ?_
        have hsu := ht.trans hu
        have hboth := (hsu.only (List.Perm.swap _ _ _).subperm).graph.tidy
        have hpush := hsu.build (tended_pushAssignment (s := ⟨c, n⟩) hboth (hsu.request hr))
        rw [ensures_bind, ensures_edit]
        refine (ih hpush.steady (hpush.request hr) (hpush.source htarget)).mono fun _ w hw => ?_
        exact hpush.trans hw
      rw [assign, ensures_bind, ensures_ask]
      intro stored _
      split
      · exact ensures_reject_bind
      · exact ensures_reject_bind
      · exact hstore _
      · exact hstore _

omit hv in
/-- The table of a write is a source of its request. -/
lemma tends_markWrite (hst : Since s L t) (hr : r.index < t.graph.requests.size) (e : Expr)
    (kind : RequestKind) {target : Option AliasId}
    (htarget : ∀ a, target = some a → a.index < t.graph.aliases.size) :
    Ensures (markWrite e r kind target) t fun m u => Found s L u m := by
  obtain ⟨hparent, horigins⟩ := hst.graph.tidy.closed.request r
  have hinside : Request.Inside t.graph
      { t.graph.request r with kind, target, projection := some e.type } := by
    refine ⟨hparent, fun a ha => ?_⟩
    rw [Request.mem_origins] at ha
    rcases ha with hbase | hjoin | ha
    · exact horigins a (Request.mem_origins.2 (.inl hbase))
    · exact horigins a (Request.mem_origins.2 (.inr (.inl hjoin)))
    · exact htarget a ha
  have hmark := tends_editRequest (f := ({ · with kind, target, projection := some e.type }))
    (.refl hst.steady) hr hinside (List.Perm.refl _).subperm
  exact hmark.bind fun _ u hu => ensures_pure.2 ⟨hst.trans hu, hu.request hr⟩

lemma tends_initializer (hs : Steady s L) (e : Expr) (m : Method) :
    Ensures (initializer visit e m arg args) s fun x t =>
      Since s L t ∧ x.1.index < t.graph.requests.size := by
  refine (tends_openReceiver hv hs e arg).bind fun r t ⟨ht, hr⟩ => ?_
  refine (ensures_argument e args 1).bind fun f t' ⟨_, ht'⟩ => ?_
  rw [ht']
  refine (tends_enter ht.steady e r f).bind fun body u hu => ?_
  split
  · exact ensures_pure.2 ⟨ht.trans hu, hu.request hr⟩
  · exact ensures_reject

lemma tends_update (hs : Steady s L) (e : Expr) :
    Ensures (update visit e arg args) s fun m t => Found s L t m := by
  refine (tends_initializer hv hs e .update).bind fun ⟨r, type, bindings⟩ t ⟨ht, hr⟩ => ?_
  dsimp only
  rw [ensures_bind, ensures_request]
  split
  · next target htarget =>
    have hbase := (ht.graph.tidy.closed.request r).2 target (Request.mem_origins.2 (.inl htarget))
    refine (tends_assign hv ht.steady hr e hbase bindings).bind fun _ u hu => ?_
    refine tends_markWrite (ht.trans hu) (hu.request hr) e .update fun a ha => ?_
    cases ha
    exact hu.source hbase
  · exact ensures_reject

lemma tends_insert (hs : Steady s L) (e : Expr) :
    Ensures (insert visit e arg args) s fun m t => Found s L t m := by
  refine (tends_initializer hv hs e .insert).bind fun ⟨r, type, bindings⟩ t ⟨ht, hr⟩ => ?_
  dsimp only
  rw [ensures_bind, ensures_ask]
  intro table _
  rw [ensures_get_bind]
  refine (tends_addAlias (.refl ht.steady) ⟨by simp [Alias.ofTable],
    by simp [Alias.ofTable, Route.aliases]⟩).bind fun target u ⟨hu, htarget⟩ => ?_
  refine (tends_assign hv hu.steady (hu.request hr) e htarget bindings).bind fun _ w hw => ?_
  refine tends_markWrite ((ht.trans hu).trans hw) (hw.request (hu.request hr)) e .insertSelect
    fun a ha => ?_
  cases ha
  exact hw.source htarget

lemma tends_delete (hs : Steady s L) (e : Expr) :
    Ensures (delete visit e arg) s fun m t => Found s L t m := by
  refine (tends_openReceiver hv hs e arg).bind fun r t ⟨ht, hr⟩ => ?_
  rw [ensures_bind, ensures_request]
  exact tends_markWrite ht hr e .delete fun a ha =>
    (ht.graph.tidy.closed.request r).2 a (Request.mem_origins.2 (.inl ha))

end Visit

end EntityQuery.Compile
