import EntityQuery.Compile.Shape
import EntityQuery.Proofs.Ownership.Rules

/-!
Projections and groupings take the nodes they are given once.

* A member is selected by a value of its own; a grouping key is selected by a copy.
* What a state remembers besides the graph plays no part: a remembered value is only ever copied.
-/

namespace EntityQuery.Compile

open Sql Graph

variable {s t : CompileState} {L : List NodeId} {r : RequestId} {n : NodeId}

/-! ### Selected members -/

/-- Steps that leave the graph and the active request as they are. -/
lemma Since.remember {u : CompileState} (h : Since s L t) (hgraph : u.graph = t.graph)
    (hactive : u.active = t.active) : Since s L u := by
  refine ⟨?_, ?_⟩
  · rw [hgraph]
    exact h.graph
  · rw [hactive, hgraph]
    exact h.active

lemma tends_setPath (h : Since s L t) (p : PropertyRef) (path : List PropertyRef) :
    Ensures (setPath p path) t fun _ u => Since s L u := by
  have hrecord : Ensures (setPath.record p path) t fun _ u => Since s L u :=
    ensures_modify.2 (h.remember rfl rfl)
  unfold setPath
  split
  · split
    · exact ensures_pure.2 h
    · exact hrecord
  · exact hrecord

lemma tends_setComputed (h : Since s L t) (p : PropertyRef) (n : NodeId) :
    Ensures (setComputed p n) t fun _ u => Since s L u := ensures_modify.2 (h.remember rfl rfl)

lemma tends_selectMember (h : Since s (n :: L) t) (hr : r.index < t.graph.requests.size)
    (p : Option PropertyRef) (newElement : Bool) :
    Ensures (selectMember r n p newElement) t fun _ u => Since s L u := tends_pushItem h hr

lemma tends_selectKeys (hs : Steady s L) (hr : r.index < s.graph.requests.size) (e : Expr)
    (newElement : Bool) (keys : List (NodeId × Option PropertyRef)) :
    Ensures (selectKeys e r newElement keys) s fun _ t => Since s L t := by
  induction keys generalizing s newElement with
  | nil => exact ensures_pure.2 (.refl hs)
  | cons key keys ih =>
    refine (tends_duplicate (.refl hs) e key.1).bind fun m t ht => ?_
    refine (tends_selectMember ht (ht.request hr) key.2 newElement).bind fun _ u hu => ?_
    exact (ih hu.steady (hu.request hr) false).mono fun _ _ hw => hu.trans hw

/-- Steps under other navigations. -/
lemma tends_widening_unit {x : Compile Unit} {w : Bool} (hs : Steady s L)
    (hx : Steady { s with widen := w } L →
      Ensures x { s with widen := w } fun _ t => Since { s with widen := w } L t) :
    Ensures (widening w x) s fun _ t => Since s L t :=
  ensures_widening.2 ((hx (hs.widen w)).mono fun _ _ ht => ⟨ht.graph, ht.active⟩)

lemma tends_clearItems (hs : Steady s L) (hr : r.index < s.graph.requests.size) :
    Ensures (edit (·.clearItems r)) s fun _ t => Since s L t :=
  ensures_edit.2 (hs.build ((Since.refl hs).clearItems hr))

section Visit

variable {visit : Visit} (hv : Tends visit)
include hv

/-! ### Members of an object -/

lemma tends_projectKey (hs : Steady s L) (hr : r.index < s.graph.requests.size) (p : PropertyRef)
    (e grouping : Expr) (newElement : Bool) :
    Ensures (projectKey visit r p e grouping newElement) s fun _ t => Since s L t := by
  refine (tends_groupingKeys hv hs _ grouping).bind fun keys t ht => ?_
  split
  · refine (tends_value hv ht.steady e).bind fun n u hu => ?_
    refine (tends_setComputed (ht.trans hu) p n).bind fun _ w hw => ?_
    exact tends_selectMember hw (hw.request hr) (some p) newElement
  · exact (tends_selectKeys ht.steady (ht.request hr) _ true _).mono fun _ _ hu => ht.trans hu

lemma tends_projectPath (hs : Steady s L) (hr : r.index < s.graph.requests.size) (p : PropertyRef)
    (e : Expr) (newElement : Bool) :
    Ensures (projectPath visit r p e newElement) s fun _ t => Since s L t := by
  have hselect : ∀ n t, Since s (n :: L) t →
      Ensures (selectMember r n (some p) newElement) t fun _ u => Since s L u := fun n t ht =>
    tends_selectMember ht (ht.request hr) (some p) newElement
  unfold projectPath
  cases e.type.isCollection with
  | true => exact ensures_reject_bind
  | false =>
    refine (tends_value hv hs e).bind fun n t ht => ?_
    cases e.memberPath? with
    | some path => exact (tends_setPath ht p path).bind fun _ u hu => hselect n u hu
    | none => exact (tends_setComputed ht p n).bind fun _ u hu => hselect n u hu

lemma tends_projectComputed (hs : Steady s L) (hr : r.index < s.graph.requests.size) (p : PropertyRef)
    (e : Expr) (newElement : Bool) :
    Ensures (projectComputed visit r p e newElement) s fun _ t => Since s L t := by
  refine (tends_value hv hs e).bind fun n t ht => ?_
  refine (tends_setComputed ht p n).bind fun _ u hu => ?_
  refine (tends_selectMember hu (hu.request hr) (some p) newElement).bind fun _ w hw => ?_
  exact ensures_modify.2 (hw.remember rfl rfl)

end Visit

mutual
theorem tends_projectMember {visit : Visit} (hv : Tends visit) (p : PropertyRef) (newElement : Bool) :
    ∀ (e : Expr) s, Steady s L → r.index < s.graph.requests.size →
      Ensures (projectMember visit r p newElement e) s fun _ t => Since s L t
  | .new _ members, s, hs, hr => by
    rw [projectMember]
    exact tends_projectMembers hv true members s hs hr
  | .key grouping, s, hs, hr => by
    rw [projectMember]
    exact tends_projectKey hv hs hr p _ grouping newElement
  | .member _ _, s, hs, hr => tends_projectPath hv hs hr p _ newElement
  | .param _, s, hs, hr => tends_projectPath hv hs hr p _ newElement
  | .lambda _ _, _, _, _ => ensures_reject
  | .init _ _, _, _, _ => ensures_reject
  | .source _, s, hs, hr => tends_projectComputed hv hs hr p _ newElement
  | .const _, s, hs, hr => tends_projectComputed hv hs hr p _ newElement
  | .binary _ _ _, s, hs, hr => tends_projectComputed hv hs hr p _ newElement
  | .unary _ _, s, hs, hr => tends_projectComputed hv hs hr p _ newElement
  | .cond _ _ _, s, hs, hr => tends_projectComputed hv hs hr p _ newElement
  | .call _ _, s, hs, hr => tends_projectComputed hv hs hr p _ newElement

theorem tends_projectMembers {visit : Visit} (hv : Tends visit) (newElement : Bool) :
    ∀ (members : List (PropertyRef × Expr)) s, Steady s L → r.index < s.graph.requests.size →
      Ensures (projectMembers visit r newElement members) s fun _ t => Since s L t
  | [], s, hs, _ => by
    rw [projectMembers]
    exact ensures_pure.2 (.refl hs)
  | (p, e) :: rest, s, hs, hr => by
    rw [projectMembers]
    refine (tends_projectMember hv p newElement e s hs hr).bind fun _ t ht => ?_
    refine (tends_projectMembers hv false rest t ht.steady (ht.request hr)).mono ?_
    exact fun _ _ hu => ht.trans hu
end

section Visit

variable {visit : Visit} (hv : Tends visit)
include hv

lemma tends_projectBindings (hs : Steady s L) (hr : r.index < s.graph.requests.size) (whole : Expr)
    (newElement : Bool) (bindings : List Binding) :
    Ensures (projectBindings visit whole r newElement bindings) s fun _ t => Since s L t := by
  induction bindings generalizing s newElement with
  | nil => exact ensures_pure.2 (.refl hs)
  | cons b rest ih =>
    cases b with
    | assign p e =>
      refine (tends_projectMember hv p newElement e s hs hr).bind fun _ t ht => ?_
      exact (ih ht.steady (ht.request hr) false).mono fun _ _ hu => ht.trans hu
    | list p es => exact ensures_reject

/-! ### Projections -/

lemma tends_projectSingle (hs : Steady s L) (hr : r.index < s.graph.requests.size) (e body : Expr)
    (flattens : Bool) :
    Ensures (projectSingle visit e flattens r body) s fun _ t => Since s L t := by
  unfold projectSingle
  dsimp only
  split
  · exact ensures_reject_bind
  · refine (tends_widening hs (hv body _ L)).bind fun m t hm => ?_
    rw [ensures_bind, ensures_setActive]
    have hactive : ∀ q, some r = some q → q.index < s.graph.requests.size := by
      intro q hq
      cases hq
      exact hr
    refine (tends_valueOf (hm.activate hactive)).bind fun n u hu => ?_
    have hu' := hu.request hr
    refine (tends_selectOnly (i := { node := n }) (hu.clearItems hu') hu hu').bind fun _ w hw => ?_
    exact ensures_pure.2 hw

variable {arg : Expr} {args : List Expr}

/-- The body of a lambda over the receiver of an operator. -/
lemma tends_receiverBody (hs : Steady s L) (e : Expr) {k : RequestId → Expr → Compile Meaning}
    (hk : ∀ r body t, Steady t L → r.index < t.graph.requests.size →
      Ensures (k r body) t fun m u => Found t L u m) :
    Ensures (do
      let r ← openReceiver visit e arg
      let body ← enter e r (← argument e args 1)
      k r body) s fun m t => Found s L t m := by
  refine tends_opened hv hs e fun r t ht hr => ?_
  refine (ensures_argument e args 1).bind fun f t' ⟨_, ht'⟩ => ?_
  rw [ht']
  refine (tends_enter ht e r f).bind fun body u hu => ?_
  exact Found.after hu (hk r body u hu.steady (hu.request hr))

lemma tends_select (hs : Steady s L) (e : Expr) (flattens : Bool) :
    Ensures (select visit e flattens arg args) s fun m t => Found s L t m := by
  refine tends_receiverBody hv hs e fun r body t ht hr => ?_
  have hshape : ∀ (shape : TypeRef) (u : CompileState), Since t L u → Ensures (do
      editRequest r ({ · with projection := some shape })
      return Meaning.query r) u fun m w => Found t L w m := fun shape u hu =>
    tends_finish hu (hu.request hr) (fun hq => hq) rfl
  have hsingle := tends_projectSingle hv ht hr e body flattens
  cases body with
  | new type members =>
    refine (tends_clearItems ht hr).bind fun _ u hu => ?_
    refine (tends_widening_unit (w := true) hu.steady fun hw =>
      tends_projectMembers hv true members _ hw (hu.request hr)).bind fun _ w hw => ?_
    exact hshape _ w (hu.trans hw)
  | init type bindings =>
    refine (tends_clearItems ht hr).bind fun _ u hu => ?_
    refine (tends_widening_unit (w := true) hu.steady fun hw =>
      tends_projectBindings hv hw (hu.request hr) e true bindings).bind fun _ w hw => ?_
    exact hshape _ w (hu.trans hw)
  | member target p => exact hsingle.bind fun shape u hu => hshape shape u hu
  | param p => exact hsingle.bind fun shape u hu => hshape shape u hu
  | key grouping => exact hsingle.bind fun shape u hu => hshape shape u hu
  | _ => exact ensures_reject_bind

/-! ### Groupings -/

omit hv in
lemma tends_pushGroup (h : Since s (n :: L) t) (hr : r.index < t.graph.requests.size)
    (member : Option PropertyRef) :
    Ensures (edit (·.pushGroup r n member)) t fun _ u => Since s L u :=
  ensures_edit.2 (h.build (tended_pushGroup h.graph.tidy hr member))

lemma tends_groupMember (hs : Steady s L) (hr : r.index < s.graph.requests.size)
    (member : PropertyRef × Expr) :
    Ensures (groupMember visit r member) s fun _ t => Since s L t := by
  obtain ⟨p, e⟩ := member
  have hpush : ∀ t, Since s L t → Ensures (do
      let n ← value visit e
      edit (·.pushGroup r n (some p))) t fun _ u => Since s L u := by
    intro t ht
    refine (tends_value hv ht.steady e).bind fun n u hu => ?_
    exact tends_pushGroup (ht.trans hu) ((ht.trans hu).request hr) _
  unfold groupMember
  dsimp only
  split
  · exact (tends_setPath (.refl hs) p _).bind fun _ t ht => hpush t ht
  · exact hpush s (.refl hs)

lemma tends_groupBy (hs : Steady s L) (e : Expr) :
    Ensures (groupBy visit e arg args) s fun m t => Found s L t m := by
  refine tends_receiverBody hv hs e fun r body t ht hr => ?_
  have hshape : ∀ u, Since t L u → Ensures (do
      editRequest r ({ · with projection := some e.elementType })
      return Meaning.query r) u fun m w => Found t L w m := fun u hu =>
    tends_finish hu (hu.request hr) (fun hq => hq) rfl
  have hsingle : Ensures (value visit body) t fun n u => Since t (n :: L) u := tends_value hv ht body
  cases body with
  | new type members =>
    refine (ensures_forM (I := Since t L) members (fun m _ u hu => ?_) (.refl ht)).bind
      fun _ u hu => hshape u hu
    exact (tends_groupMember hv hu.steady (hu.request hr) m).mono fun _ _ hw => hu.trans hw
  | member target p =>
    refine hsingle.bind fun n u hu => ?_
    exact (tends_pushGroup hu (hu.request hr) none).bind fun _ w hw => hshape w hw
  | param p =>
    refine hsingle.bind fun n u hu => ?_
    exact (tends_pushGroup hu (hu.request hr) none).bind fun _ w hw => hshape w hw
  | _ => exact ensures_reject_bind

end Visit

end EntityQuery.Compile
