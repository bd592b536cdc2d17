import EntityQuery.Proofs.Chains.Groups
import EntityQuery.Proofs.Chains.Steps

/-!
What is asked of groups in the end: the groups, one value over them, or whether there are any.

* A request with grouped clauses that shows grouped values is `Reported`.
* Every ending keeps it so: the columns of the result and a derived table copy keys or show again what is
  shown already, and all else is added to other requests.
-/

namespace EntityQuery

open Sql

/-! ### Endings -/

/-- What is asked of groups in the end. -/
inductive Ending where
  /-- The groups, or what is shown of them. -/
  | rows
  /-- One value over all groups. -/
  | aggregate (m : Method) (f : Option (Param × Expr))
  /-- Whether there are groups. -/
  | any (f : Option (Param × Expr))

namespace Ending

def lambda? (f : Option (Param × Expr)) : Option Expr := f.map fun x => .lambda [x.1] x.2

def expr (q : Expr) : Ending → Expr
  | .rows => q
  | .aggregate m f => .call m (q :: (lambda? f).toList)
  | .any f => .call .any (q :: (lambda? f).toList)

def isAny : Ending → Bool
  | .any _ => true
  | .rows | .aggregate _ _ => false

def fits (leaf : Param → Expr → Option Fragment) : Ending → Bool
  | .rows => true
  | .aggregate m f => m.aggregateOp?.isSome && f.all fun x => x.2.isScalar (leaf x.1)
  | .any f => f.all fun x => x.2.isScalar (leaf x.1)

end Ending

namespace Compile

open Graph Fragment

variable {m : Mapping} {entity : String} {K : Clauses} {V : Selection} {keys : GroupKeys}
  {s t : CompileState} {n : NodeId} {r : RequestId}

/-! ### Columns of the result -/

/-- A copy of a grouped value is grouped. -/
lemma ensures_duplicate_shows (hs : s.graph.Reported keys) (hn : Shows keys s.graph n) (e : Expr) :
    Ensures (duplicate e n) s fun k t =>
      t.graph.Reported keys ∧ s.graph.Extends t.graph ∧ Shows keys t.graph k := by
  obtain ⟨f, hf, hn⟩ := hn
  refine (makes_duplicate hn e).mono fun k t ⟨ht, hk⟩ => ?_
  exact ⟨hs.of_requests ht.graph ht.requests, ht.graph, f, hf, hk⟩

lemma reported_selectColumns (hr : r ≠ ⟨0⟩) (a : AliasId) (ks : List (PropertyRef × String)) :
    ∀ {new s}, s.graph.Reported keys →
      Ensures (selectColumns r a new ks) s fun _ t => t.graph.Reported keys := by
  induction ks with
  | nil => exact fun hs => ensures_pure.2 hs
  | cons k ks ih =>
    intro new s hs
    rw [selectColumns, ensures_bind, ensures_add, ensures_bind, ensures_edit]
    exact ih ((hs.add _).pushItem r fun h => absurd h hr)

lemma reported_selectRow (hr : r ≠ ⟨0⟩) (a : AliasId) (hs : s.graph.Reported keys) :
    Ensures (selectRow r a) s fun _ t => t.graph.Reported keys := by
  rw [selectRow, ensures_bind, ensures_graph]
  split
  · refine (ensures_shownColumns _).bind ?_
    rintro ks _ rfl
    exact reported_selectColumns hr a ks hs
  · exact ensures_pure.2 hs

lemma reported_selectGroups (e : Expr) (entries : List (NodeId × Option PropertyRef)) :
    ∀ {new s}, s.graph.Reported keys → (∀ x ∈ entries, Shows keys s.graph x.1) →
      Ensures (selectGroups e r new entries) s fun _ t => t.graph.Reported keys := by
  induction entries with
  | nil => exact fun hs _ => ensures_pure.2 hs
  | cons x entries ih =>
    intro new s hs hentries
    obtain ⟨n, member⟩ := x
    obtain ⟨hn, hentries⟩ := List.forall_mem_cons.1 hentries
    rw [selectGroups]
    refine (ensures_duplicate_shows hs hn e).bind fun k t ⟨ht, hst, hk⟩ => ?_
    rw [ensures_bind, ensures_edit]
    refine ih (ht.pushItem r fun _ => hk) fun x hx => ((hentries x hx).later hst).later ?_
    exact (Kept.pushItem (A := []) t.graph (List.mem_singleton_self r) _).extension

/-- A grouped value is selected again as it is. -/
lemma reported_expandItem (hs : s.graph.Reported keys) (i : Item)
    (hi : r = ⟨0⟩ → Shows keys s.graph i.node) : Ensures (expandItem r i) s fun _ t =>
      t.graph.Reported keys ∧ (r = ⟨0⟩ → s.graph.Extends t.graph) := by
  have hpush : Ensures (edit (·.pushItem r i)) s fun _ t =>
      t.graph.Reported keys ∧ (r = ⟨0⟩ → s.graph.Extends t.graph) := ensures_edit.2
    ⟨hs.pushItem r hi, fun _ => (Kept.pushItem (A := []) _ (List.mem_singleton_self r) i).extension⟩
  rw [expandItem, ensures_bind, ensures_graph]
  split
  · next a ha =>
    have hr : r ≠ ⟨0⟩ := fun h => (hi h).not_row a ha
    split
    · exact (reported_selectRow hr a hs).mono fun _ _ ht => ⟨ht, fun h => absurd h hr⟩
    · exact hpush
  · exact hpush

/-- **The columns of the result** are grouped. -/
theorem reported_declareColumns (hkeys : keys ≠ []) (hs : s.graph.Reported keys) (e : Expr)
    (r : RequestId) : Ensures (declareColumns e r) s fun _ t => t.graph.Reported keys := by
  rw [declareColumns, ensures_bind, ensures_request]
  split
  · split
    · refine reported_selectGroups e _ hs fun x hx => ?_
      by_cases hr : r = ⟨0⟩
      · subst hr
        exact hs.shows_key (List.of_mem_zip hx).1
      · rw [hs.others r hr] at hx
        cases hx
    · next hgrouped =>
      have hr : r ≠ ⟨0⟩ := by
        rintro rfl
        refine hgrouped ?_
        rw [Request.isGrouped, List.isEmpty_eq_false_iff.2 (hs.groups_ne_nil hkeys)]
        rfl
      split
      · exact reported_selectRow hr _ hs
      · exact ensures_pure.2 hs
  · have hclear : s.graph.Extends (s.graph.clearItems r) :=
      (Kept.modifyRequest (A := []) s.graph (List.mem_singleton_self r) _).extension
    rw [ensures_bind, ensures_edit]
    -- the items are grouped values all along, also those that are not selected again yet
    refine (ensures_forM (I := fun t => t.graph.Reported keys ∧
      (r = ⟨0⟩ → ∀ i ∈ (s.graph.request r).items, Shows keys t.graph i.node)) _
      ?_ ⟨hs.clearItems r, ?_⟩).mono fun _ _ ht => ht.1
    · rintro i hi t ⟨ht, hitems⟩
      refine (reported_expandItem ht i fun hr => hitems hr i hi).mono ?_
      rintro _ u ⟨hu, htu⟩
      exact ⟨hu, fun hr j hj => (hitems hr j hj).later (htu hr)⟩
    · rintro rfl i hi
      exact (hs.items i hi).later hclear
  · exact ensures_pure.2 hs

/-! ### Requests of reports -/

/-- The tests on groups and the orders that a chain asks for are grouped. -/
structure GroupedClauses (K : Clauses) : Prop where
  groupTests : ∀ f ∈ K.groupTests, f.isGrouped K.keys = true
  orders : ∀ o ∈ K.orders, o.2.isGrouped K.keys = true

lemma GroupedClauses.restrict (hK : GroupedClauses K) {f : Fragment} (hf : f.isGrouped K.keys = true) :
    GroupedClauses (K.restrict f) := by
  rw [Clauses.restrict]
  split
  · exact ⟨hK.groupTests, hK.orders⟩
  · refine ⟨fun f' hf' => ?_, hK.orders⟩
    rcases List.mem_append.1 hf' with hf' | hf'
    · exact hK.groupTests f' hf'
    · rw [List.mem_singleton.1 hf']
      exact hf

/-- A request with grouped clauses that shows grouped values. -/
lemma Alone.reported (hs : Alone m entity K V s) (hK : GroupedClauses K)
    (hV : ∀ f ∈ V.items, f.isGrouped K.keys = true) : s.graph.Reported K.keys := by
  have hclauses := hs.clauses
  refine ⟨?_, hclauses.groups, fun i hi => ?_, fun n hn => ?_, fun o ho => ?_, fun r hr => ?_⟩
  · rw [hs.single]
    exact Nat.zero_lt_one
  · obtain ⟨j, hj, rfl⟩ := List.getElem_of_mem hi
    have hlength := hs.items.length_eq ▸ hj
    exact ⟨_, hV _ (List.getElem_mem hlength), (List.forall₂_iff_get.1 hs.items).2 j hlength hj⟩
  · have hhaving := hclauses.having
    rw [hn] at hhaving
    cases hf : conjunction? K.groupTests with
    | none =>
      rw [hf] at hhaving
      exact hhaving.elim
    | some f =>
      rw [hf] at hhaving
      exact ⟨f, isGrouped_conjunction? hK.groupTests hf, hhaving⟩
  · obtain ⟨j, hj, rfl⟩ := List.getElem_of_mem ho
    have hlength := hclauses.orders.length_eq ▸ hj
    exact ⟨_, hK.orders _ (List.getElem_mem hlength),
      ((List.forall₂_iff_get.1 hclauses.orders).2 j hlength hj).2⟩
  · rw [Graph.request, Array.getD_eq_getD_getElem?, Array.getElem?_eq_none]
    · rfl
    · rw [hs.single, Nat.one_le_iff_ne_zero]
      intro hzero
      apply hr
      cases r
      cases hzero
      rfl

/-! ### Derived tables -/

/-- What is counted are the keys, or what is shown. -/
lemma reported_selectCounted (hkeys : keys ≠ []) (hs : s.graph.Reported keys) (e : Expr) :
    Ensures (selectCounted e ⟨0⟩) s fun _ t => t.graph.Reported keys := by
  have hselect : ∀ (ns : List NodeId) {t}, t.graph.Reported keys →
      (∀ n ∈ ns, Shows keys t.graph n) → Ensures (ns.forM fun key => do
        let n ← duplicate e key
        edit (·.pushItem ⟨0⟩ { node := n })) t fun _ u => u.graph.Reported keys ∧
          (ns ≠ [] ∨ (t.graph.request ⟨0⟩).items ≠ [] → (u.graph.request ⟨0⟩).items ≠ []) := by
    intro ns
    induction ns with
    | nil => exact fun ht _ => ensures_pure.2 ⟨ht, fun h => h.resolve_left fun hne => hne rfl⟩
    | cons n ns ih =>
      intro t ht hns
      obtain ⟨hn, hns⟩ := List.forall_mem_cons.1 hns
      have hstep : Ensures (do
          let k ← duplicate e n
          edit (·.pushItem ⟨0⟩ { node := k })) t fun _ u => u.graph.Reported keys ∧
            t.graph.Extends u.graph ∧ (u.graph.request ⟨0⟩).items ≠ [] := by
        refine (ensures_duplicate_shows ht hn e).bind fun k u ⟨hu, htu, hk⟩ => ensures_edit.2 ?_
        have hpush := Kept.pushItem (A := []) u.graph (List.mem_singleton_self (⟨0⟩ : RequestId))
          { node := k }
        refine ⟨hu.pushItem ⟨0⟩ fun _ => hk, htu.trans hpush.extension, ?_⟩
        rw [request_pushItem_self u.graph hu.inside]
        simp
      refine hstep.bind fun _ u ⟨hu, htu, hitems⟩ => ?_
      refine (ih hu fun n' hn' => (hns n' hn').later htu).mono fun _ v ⟨hv, hvitems⟩ => ?_
      exact ⟨hv, fun _ => hvitems (.inr hitems)⟩
  -- whatever the labels are, the nodes stay the same
  have hlabels : ∀ f : Item × Nat → Item, (∀ x, (f x).node = x.1.node) → ∀ t,
      t.graph.Reported keys → (t.graph.request ⟨0⟩).items ≠ [] → Ensures (do
        if (← request ⟨0⟩).items.isEmpty then selectAll e ⟨0⟩
        else editRequest ⟨0⟩ fun q => { q with items := q.items.zipIdx.map f }) t fun _ u =>
          u.graph.Reported keys := by
    intro f hf t ht hitems
    rw [ensures_bind, ensures_request, List.isEmpty_eq_false_iff.2 hitems]
    refine ensures_editRequest.2 (ht.modifyRequest ⟨0⟩ (fun _ => rfl) (fun _ => rfl)
      (fun _ => List.Subset.refl _) fun _ i hi => ?_)
    obtain ⟨⟨j, k⟩, hj, rfl⟩ := List.mem_map.1 hi
    rw [hf]
    exact ht.items j (List.fst_mem_of_mem_zipIdx hj)
  rw [selectCounted, ensures_bind, ensures_request]
  split
  · refine (hselect _ hs fun n hn => hs.shows_key hn).bind fun _ t ⟨ht, hitems⟩ => ?_
    exact hlabels _ (fun _ => by rfl) t ht (hitems (.inl (hs.groups_ne_nil hkeys)))
  · next hitems =>
    exact hlabels _ (fun _ => by rfl) s hs fun hempty => hitems (List.isEmpty_iff.2 hempty)

/-- A derived table keeps what it shows. -/
lemma reported_derive (hs : s.graph.Reported keys) :
    Ensures (derive ⟨0⟩) s fun x t => t.graph.Reported keys ∧ x.1 ≠ ⟨0⟩ := by
  rw [derive, ensures_bind, ensures_request, ensures_bind, ensures_build, ensures_bind, ensures_build,
    ensures_bind, ensures_editRequest, ensures_bind, ensures_editRequest, ensures_bind,
    ensures_setActive, ensures_pure]
  have houter := hs.new_ne_first
  have halias := (hs.addRequest (s.graph.request ⟨0⟩).parent).addAlias (.derived ⟨0⟩)
  exact ⟨(halias.wrap _).modifyRequest ⟨s.graph.requests.size⟩ (fun _ => rfl) (fun _ => rfl)
    (fun _ => List.Subset.refl _) fun h => absurd h houter, houter⟩

/-! ### Endings -/

section Endings

variable {leaf : Param → Expr → Option Fragment} {q : Expr} (hkeys : K.keys ≠ [])
  (hK : GroupedClauses K) (hV : ∀ f ∈ V.items, f.isGrouped K.keys = true)
  (hleaf : ∀ p e f, leaf p e = some f → f.isGrouped K.keys = true)
  (hvalue : ∀ {p e}, e.isScalar (leaf p) = true →
    ∀ fuel, Compiles m entity K V (visit [] fuel) e (e.written (leaf p) m.catalog))
  (fuel : Nat) {f : Option (Param × Expr)} (hf : f.all (fun x => x.2.isScalar (leaf x.1)) = true)

include hK hleaf hvalue hf

/-- The test of an ending restricts the groups. -/
lemma Alone.ensures_restrictBy (hs : Alone m entity K V s) (e : Expr) :
    Ensures (restrictBy (visit [] fuel) e ⟨0⟩ (Ending.lambda? f)) s fun _ t =>
      ∃ K', Alone m entity K' V t ∧ GroupedClauses K' ∧ K'.keys = K.keys := by
  cases f with
  | none => exact ensures_pure.2 ⟨K, hs, hK, rfl⟩
  | some x =>
    obtain ⟨p, body⟩ := x
    have hbody : body.isScalar (leaf p) = true := hf
    refine (makes_innerTest hs (hvalue hbody fuel) e p).bind fun n t ⟨ht, hn⟩ => ?_
    refine ((hs.appends ht).ensures_restrict hn).mono fun _ u hu => ⟨_, hu, hK.restrict ?_, by simp⟩
    rw [isGrouped_asCondition]
    exact Expr.isGrouped_written (hleaf p) body hbody

include hV

/-- What is aggregated is grouped. -/
lemma Alone.ensures_aggregated (hs : Alone m entity K V s) (e : Expr) :
    Ensures (aggregated (visit [] fuel) e ⟨0⟩ (Ending.lambda? f)) s fun n t =>
      t.graph.Reported K.keys ∧ Shows K.keys t.graph n := by
  have hreported := hs.reported hK hV
  cases f with
  | none =>
    change Ensures (request ⟨0⟩ >>= _) s _
    rw [ensures_bind, ensures_request]
    split
    · next i hi => exact ensures_pure.2 ⟨hreported, hreported.items i (by rw [hi]; exact List.mem_cons_self)⟩
    · exact ensures_reject
  | some x =>
    obtain ⟨p, body⟩ := x
    have hbody : body.isScalar (leaf p) = true := hf
    refine (makes_selector hs (hvalue hbody fuel) e p).mono fun n t ⟨ht, hn⟩ => ?_
    exact ⟨hreported.of_requests ht.graph ht.requests, _,
      Expr.isGrouped_written (hleaf p) body hbody, hn⟩

include hkeys

/-- **One value over all groups** is asked of a derived table of them. -/
lemma Alone.ensures_aggregateDerived (hs : Alone m entity K V s) (e : Expr) (op : UnaryOp) :
    Ensures (aggregateDerived (visit [] fuel) e op ⟨0⟩ (Ending.lambda? f)) s fun _ t =>
      t.graph.Reported K.keys := by
  -- the outer request, once it ranges over the derived table
  have houter : ∀ (operand : Option NodeId) {outer t}, t.graph.Reported K.keys → outer ≠ ⟨0⟩ → Ensures (do
      let n ← add (.unary op operand)
      edit (·.pushItem outer { node := n })
      editRequest outer ({ · with projection := some e.type })
      return outer) t fun _ u => u.graph.Reported K.keys := by
    intro operand outer t ht hne
    rw [ensures_bind, ensures_add, ensures_bind, ensures_edit, ensures_bind,
      Compile.ensures_editRequest]
    exact ensures_pure.2 ((ht.add (.unary op operand)).project hne _ _)
  rw [aggregateDerived]
  split
  · refine (hs.ensures_restrictBy hK hleaf hvalue fuel hf e).bind fun _ t ⟨K', ht, hK', hkeys'⟩ => ?_
    have ht : t.graph.Reported K.keys := hkeys' ▸ ht.reported hK' (hkeys' ▸ hV)
    refine (reported_selectCounted hkeys ht e).bind fun _ u hu => ?_
    refine (reported_derive hu).bind fun ⟨outer, a⟩ w ⟨hw, hne⟩ => ?_
    exact houter none hw hne
  · refine (hs.ensures_aggregated hK hV hleaf hvalue fuel hf e).bind fun n t ⟨ht, hn⟩ => ?_
    rw [ensures_bind, ensures_edit]
    refine (reported_derive ((ht.clearItems ⟨0⟩).pushItem ⟨0⟩ fun _ => ?_)).bind
      fun ⟨outer, a⟩ w ⟨hw, hne⟩ => ?_
    · exact hn.later (Kept.modifyRequest (A := []) _ (List.mem_singleton_self (⟨0⟩ : RequestId)) _).extension
    · dsimp only
      rw [ensures_bind, ensures_map, ensures_add]
      exact houter (some _) (hw.add _) hne

omit hK hV hleaf hvalue hf hkeys in
lemma argument_toList (q : Expr) (o : Option Expr) : (q :: o.toList)[1]? = o := by cases o <;> rfl

omit hkeys in
/-- **Whether there are groups**, of which something is shown. -/
theorem Ranged.reported_any (h : Ranged m entity K V q) (hitems : V.items ≠ []) (e : Expr) :
    Ensures (any (visit [] fuel) e q (q :: (Ending.lambda? f).toList)) { mapping := m } fun _ t =>
      t.graph.Reported K.keys := by
  rw [any, argument_toList]
  split
  · exact ensures_reject_bind
  · refine h.receiver e fun s hs => ?_
    refine (hs.ensures_restrictBy hK hleaf hvalue fuel hf e).bind fun _ t ⟨K', ht, hK', hkeys'⟩ => ?_
    have hreported : t.graph.Reported K.keys := hkeys' ▸ ht.reported hK' (hkeys' ▸ hV)
    have hfull : (t.graph.request ⟨0⟩).items.isEmpty = false := by
      rw [List.isEmpty_eq_false_iff]
      intro hempty
      have hshown := ht.items
      rw [hempty, List.forall₂_nil_right_iff] at hshown
      exact hitems hshown
    have hall : Ensures (selectAll e ⟨0⟩) t fun _ u => u = t := by
      rw [selectAll, ensures_bind, ensures_request, hfull]
      exact ensures_pure.2 rfl
    refine hall.bind ?_
    rintro _ t rfl
    rw [ensures_bind, ensures_add, ensures_bind, ensures_add, ensures_bind, ensures_request]
    have hfound := (hreported.add (.sub ⟨0⟩)).add (.unary .exists (some ⟨t.graph.entries.size⟩))
    split
    · rw [ensures_bind, ensures_leave]
      refine ensures_pure.2 ?_
      split
      · exact hfound
      · exact hfound
    · rw [ensures_bind, ensures_build, ensures_bind, ensures_editRequest, ensures_bind, ensures_add,
        ensures_bind, ensures_add, ensures_bind, ensures_add, ensures_bind, ensures_edit, ensures_bind,
        ensures_editRequest, ensures_bind, ensures_setActive, ensures_pure]
      have hinner := fun outer => (hfound.addRequest none).nest (some outer)
      have hconsts := fun outer => ((hinner outer).add (.const (.boolean true))).add
        (.const (.boolean false))
      exact ((hconsts _).add _).project hfound.new_ne_first _ .boolean

/-- **One value over all groups.** -/
theorem Ranged.reported_aggregate (h : Ranged m entity K V q) (e : Expr) (op : UnaryOp) :
    Ensures (aggregate (visit [] fuel) e op q (q :: (Ending.lambda? f).toList)) { mapping := m }
      fun _ t => t.graph.Reported K.keys := by
  unfold aggregate
  rw [argument_toList]
  dsimp only
  split
  · rw [aggregateGrouping, rowValue, bind_assoc]
    refine (h fuel).bind ?_
    rintro _ s ⟨rfl, -⟩
    exact ensures_reject_bind
  · refine h.receiver e fun s hs => ?_
    rw [ensures_bind, ensures_request, hs.clauses.parent]
    exact ensures_map.2 (hs.ensures_aggregateDerived hkeys hK hV hleaf hvalue fuel hf e op)

omit hf in
/-- **What is asked of groups in the end** exposes only grouped values. -/
theorem Ranged.reported_ending (h : Ranged m entity K V q) {ending : Ending}
    (hending : ending.fits leaf = true) (hany : ending.isAny = true → V.items ≠ []) :
    Ensures (visit [] fuel (ending.expr q)) { mapping := m } fun _ t => t.graph.Reported K.keys := by
  cases ending with
  | rows => exact (h fuel).mono fun _ t ht => ht.2.reported hK hV
  | any f =>
    cases fuel with
    | zero => exact ensures_reject
    | succ fuel => exact h.reported_any hK hV hleaf hvalue fuel hending (hany rfl) _
  | aggregate method f =>
    obtain ⟨hmethod, hf⟩ := Bool.and_eq_true_iff.1 hending
    obtain ⟨op, hop⟩ := Option.isSome_iff_exists.1 hmethod
    cases fuel with
    | zero => exact ensures_reject
    | succ fuel =>
      have haggregate := fun e => h.reported_aggregate hkeys hK hV hleaf hvalue fuel hf e op
      cases method <;> cases hop <;> exact haggregate _

end Endings

/-- **The statement** of what exposes only grouped values. -/
theorem reported_root (hkeys : keys ≠ []) {e : Expr}
    (he : ∀ fuel, Ensures (visit [] fuel e) { mapping := m } fun _ t => t.graph.Reported keys) :
    Ensures (root [] e) { mapping := m } fun _ t => t.graph.Reported keys := by
  have hrun : Ensures (do
      let _ ← visit [] e.depth e
      let r := (← graph).outermost (← active e)
      declareColumns e r
      return r) { mapping := m } fun _ t => t.graph.Reported keys := by
    refine (he e.depth).bind fun _ s hs => ?_
    rw [ensures_bind, ensures_graph, ensures_bind, ensures_active]
    intro r _
    exact (reported_declareColumns hkeys hs e _).bind fun _ t ht => ensures_pure.2 ht
  cases e with
  | source _ => exact hrun
  | call _ _ => exact hrun
  | _ => exact ensures_reject

end Compile

end EntityQuery
