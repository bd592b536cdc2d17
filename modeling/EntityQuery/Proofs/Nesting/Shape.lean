import EntityQuery.Compile.Shape
import EntityQuery.Proofs.Nesting.Rules

/-!
Projections and groupings, while requests are being built.

* The members of a projection are values of the open request; none of them is a relation to many, so
  what relations to many stand for stays as it is.
-/

namespace EntityQuery

open Sql Graph

/-! ### Projected members -/

/-- A property is mapped by its owner and its name. -/
lemma Catalog.relates_of_same (c : Catalog) {p q : PropertyRef} (h : p.same q = true) :
    c.relates p = c.relates q := by
  obtain ⟨owner, name, type⟩ := p
  obtain ⟨owner', name', type'⟩ := q
  simp only [PropertyRef.same, Bool.and_eq_true, beq_iff_eq] at h
  obtain ⟨rfl, rfl⟩ := h
  rfl

namespace PropertyTable

variable {α : Type} {t : PropertyTable α} {p q : PropertyRef}

lemma find?_erase_eq_none (h : t.find? q = none) : (t.erase p).find? q = none := by
  rw [find?, Option.map_eq_none_iff, List.find?_eq_none] at h ⊢
  intro row hrow
  exact h row (List.mem_of_mem_filter hrow)

lemma find?_insert_eq_none (h : t.find? q = none) (hpq : p.same q = false) (a : α) :
    (t.insert p a).find? q = none := by
  have herase := find?_erase_eq_none (p := p) h
  rw [find?, Option.map_eq_none_iff] at herase ⊢
  rw [insert, List.find?_cons, hpq]
  exact herase

end PropertyTable

namespace Compile

variable {c : Catalog} {s t u : CompileState} {C D : List RequestId} {r : RequestId} {n : NodeId}
  {sequence : Bool}

namespace Opened

/-- What a state remembers besides the graph plays no part, but for the paths of relations to many. -/
lemma remember (h : Opened c s C r t) (hgraph : u.graph = t.graph) (hactive : u.active = t.active)
    (hcatalog : u.mapping.catalog = t.mapping.catalog)
    (hpaths : ∀ p, c.relates p = true → u.paths.find? p = none) : Opened c s C r u := by
  refine h.step ?_ ⟨?_, ?_, ?_, hcatalog.trans h.ready.catalog, hpaths⟩ (hactive.trans h.active)
  · rw [hgraph]
    exact .refl _ _
  · rw [hgraph]
    exact h.ready.opened
  · rw [hgraph]
    exact h.ready.closed
  · rw [hactive]
    exact h.ready.active

lemma ensures_setPath (h : Opened c s C r t) {p : PropertyRef} (hp : c.relates p = false)
    (path : List PropertyRef) :
    Ensures (setPath p path) t fun _ u => Opened c s C r u ∧ u.graph = t.graph := by
  have hrecord : Ensures (setPath.record p path) t fun _ u =>
      Opened c s C r u ∧ u.graph = t.graph := by
    refine ensures_modify.2 ⟨h.remember rfl rfl rfl fun q hq => ?_, rfl⟩
    refine PropertyTable.find?_insert_eq_none (h.ready.paths q hq) ?_ path
    cases hsame : p.same q with
    | false => rfl
    | true =>
      rw [c.relates_of_same hsame, hq] at hp
      cases hp
  unfold setPath
  split
  · split
    · exact ensures_pure.2 ⟨h, rfl⟩
    · exact hrecord
  · exact hrecord

lemma ensures_setComputed (h : Opened c s C r t) (p : PropertyRef) (n : NodeId) :
    Ensures (setComputed p n) t fun _ u => Opened c s C r u ∧ u.graph = t.graph :=
  ensures_modify.2 ⟨h.remember rfl rfl rfl fun q hq =>
    PropertyTable.find?_erase_eq_none (h.ready.paths q hq), rfl⟩

lemma ensures_register (h : Opened c s C r t) (p : PropertyRef) (n : NodeId) :
    Ensures (modify fun s => { s with mapping := s.mapping.register s.graph p n } : Compile PUnit) t
      fun _ u => Opened c s C r u := by
  refine ensures_modify.2 (h.remember rfl rfl ?_ h.ready.paths)
  unfold Mapping.register
  dsimp only
  split <;> rfl

/-- Members are selected with navigations that keep rows. -/
lemma ensures_widening {x : Compile Unit} {w : Bool} (h : Opened c s C r t)
    (hx : ∀ t, Opened c s C r t → Ensures x t fun _ u => Opened c s C r u) :
    Ensures (widening w x) t fun _ u => Opened c s C r u := by
  rw [Compile.ensures_widening]
  have hwide : Opened c s C r { t with widen := w } := h.remember rfl rfl rfl h.ready.paths
  refine (hx _ hwide).mono fun _ u hu => ?_
  exact hu.remember rfl rfl rfl hu.ready.paths

lemma ensures_selectMember (h : Opened c s C r t) (hn : t.graph.Fit (r :: C) n)
    (p : Option PropertyRef) (newElement : Bool) :
    Ensures (selectMember r n p newElement) t fun _ u => Opened c s C r u :=
  ensures_edit.2 (h.build (built_pushItem h.ready.opened List.mem_cons_self hn))

lemma ensures_duplicate (h : Opened c s C r t) (e : Expr) (n : NodeId) :
    Ensures (duplicate e n) t fun m u => Opened c s C r u ∧ u.graph.Fit (r :: C) m := by
  refine (Compile.ensures_duplicate (.refl h.ready) e n).mono fun m u hu => ?_
  obtain ⟨hopened, hfit⟩ := h.yields hu
  exact ⟨hopened, hfit m (by simp)⟩

lemma ensures_selectKeys (h : Opened c s C r t) (e : Expr) (newElement : Bool)
    (keys : List (NodeId × Option PropertyRef)) :
    Ensures (selectKeys e r newElement keys) t fun _ u => Opened c s C r u := by
  induction keys generalizing t newElement with
  | nil => exact ensures_pure.2 h
  | cons key keys ih =>
    refine (h.ensures_duplicate e key.1).bind fun m u ⟨hu, hm⟩ => ?_
    exact (hu.ensures_selectMember hm key.2 newElement).bind fun _ v hv => ih hv false

lemma ensures_clearItems (h : Opened c s C r t) :
    Ensures (edit (·.clearItems r)) t fun _ u => Opened c s C r u :=
  ensures_edit.2 (h.build (built_clearItems h.ready.opened List.mem_cons_self))

section Visit

variable {visit : Visit} (hv : Builds c visit)
include hv

lemma ensures_value (h : Opened c s C r t) {e : Expr} (he : e.receives c = true) :
    Ensures (value visit e) t fun n u => Opened c s C r u ∧ u.graph.Fit (r :: C) n := by
  refine (Compile.ensures_value hv he h.ready).mono fun n u ⟨D, hu⟩ => ?_
  obtain ⟨hopened, hfit⟩ := h.yields hu
  exact ⟨hopened, hfit n (by simp)⟩

/-! ### Members of an object -/

lemma ensures_projectKey (h : Opened c s C r t) {grouping : Expr} (hg : grouping.receives c = true)
    (p : PropertyRef) (newElement : Bool) :
    Ensures (projectKey visit r p (.key grouping) grouping newElement) t fun _ u =>
      Opened c s C r u := by
  refine (ensures_groupingKeys hv hg h.ready _).bind fun keys u ⟨_, hu⟩ => ?_
  obtain ⟨hu, -⟩ := h.yields hu
  split
  · refine (hu.ensures_value hv (e := .key grouping) (by rw [Expr.receives]; exact hg)).bind
      fun n w hw => ?_
    obtain ⟨hw, hn⟩ := hw
    refine (hw.ensures_setComputed p n).bind fun _ x hx => ?_
    exact hx.1.ensures_selectMember (hx.2 ▸ hn) (some p) newElement
  · exact hu.ensures_selectKeys _ true _

lemma ensures_projectPath (h : Opened c s C r t) {e : Expr} (he : e.receives c = true)
    {p : PropertyRef} (hp : c.relates p = false) (newElement : Bool) :
    Ensures (projectPath visit r p e newElement) t fun _ u => Opened c s C r u := by
  unfold projectPath
  cases e.type.isCollection with
  | true => exact ensures_reject_bind
  | false =>
    refine (h.ensures_value hv he).bind fun n u ⟨hu, hn⟩ => ?_
    cases e.memberPath? with
    | some path =>
      refine (hu.ensures_setPath hp path).bind fun _ w ⟨hw, hgraph⟩ => ?_
      exact hw.ensures_selectMember (hgraph ▸ hn) (some p) newElement
    | none =>
      refine (hu.ensures_setComputed p n).bind fun _ w ⟨hw, hgraph⟩ => ?_
      exact hw.ensures_selectMember (hgraph ▸ hn) (some p) newElement

lemma ensures_projectComputed (h : Opened c s C r t) {e : Expr} (he : e.receives c = true)
    (p : PropertyRef) (newElement : Bool) :
    Ensures (projectComputed visit r p e newElement) t fun _ u => Opened c s C r u := by
  refine (h.ensures_value hv he).bind fun n u ⟨hu, hn⟩ => ?_
  refine (hu.ensures_setComputed p n).bind fun _ w ⟨hw, hgraph⟩ => ?_
  refine (hw.ensures_selectMember (hgraph ▸ hn) (some p) newElement).bind fun _ x hx => ?_
  exact hx.ensures_register p n

end Visit

mutual
theorem ensures_projectMember {visit : Visit} (hv : Builds c visit) {p : PropertyRef}
    (hp : c.relates p = false) (newElement : Bool) :
    ∀ e : Expr, e.receives c = true → ∀ t, Opened c s C r t →
      Ensures (projectMember visit r p newElement e) t fun _ u => Opened c s C r u
  | .new _ members, he, t, h => by
    rw [projectMember]
    exact ensures_projectMembers hv true members he t h
  | .key grouping, he, t, h => by
    rw [projectMember]
    rw [Expr.receives] at he
    exact h.ensures_projectKey hv he p newElement
  | .member target q, he, t, h => h.ensures_projectPath hv he hp newElement
  | .param q, he, t, h => h.ensures_projectPath hv he hp newElement
  | .lambda _ _, _, _, _ => ensures_reject
  | .init _ _, _, _, _ => ensures_reject
  | .source entity, he, t, h => h.ensures_projectComputed hv he p newElement
  | .const l, he, t, h => h.ensures_projectComputed hv he p newElement
  | .binary op l r', he, t, h => h.ensures_projectComputed hv he p newElement
  | .unary op e, he, t, h => h.ensures_projectComputed hv he p newElement
  | .cond test y n, he, t, h => h.ensures_projectComputed hv he p newElement
  | .call m args, he, t, h => h.ensures_projectComputed hv he p newElement

theorem ensures_projectMembers {visit : Visit} (hv : Builds c visit) (newElement : Bool) :
    ∀ members : List (PropertyRef × Expr), Expr.receivesMembers c members = true →
      ∀ t, Opened c s C r t →
        Ensures (projectMembers visit r newElement members) t fun _ u => Opened c s C r u
  | [], _, t, h => by
    rw [projectMembers]
    exact ensures_pure.2 h
  | (p, e) :: rest, hmembers, t, h => by
    rw [Expr.receivesMembers, Bool.and_eq_true, Bool.and_eq_true, Bool.not_eq_true'] at hmembers
    obtain ⟨⟨hp, he⟩, hrest⟩ := hmembers
    rw [projectMembers]
    refine (ensures_projectMember hv hp newElement e he t h).bind fun _ u hu => ?_
    exact ensures_projectMembers hv false rest hrest u hu
end

section Visit

variable {visit : Visit} (hv : Builds c visit)
include hv

lemma ensures_projectBindings (whole : Expr) (newElement : Bool) (bindings : List Binding)
    (hbindings : Expr.receivesBindings c bindings = true) (h : Opened c s C r t) :
    Ensures (projectBindings visit whole r newElement bindings) t fun _ u => Opened c s C r u := by
  induction bindings generalizing newElement t with
  | nil => exact ensures_pure.2 h
  | cons b rest ih =>
    cases b with
    | assign p e =>
      rw [Expr.receivesBindings, Bool.and_eq_true, Bool.and_eq_true, Bool.not_eq_true'] at hbindings
      obtain ⟨⟨hp, he⟩, hrest⟩ := hbindings
      exact (ensures_projectMember hv hp newElement e he t h).bind fun _ u hu => ih false hrest hu
    | list p es => exact ensures_reject

/-! ### Projections -/

lemma ensures_projectSingle (h : Opened c s C r t) {body : Expr} (hbody : body.receives c = true)
    (e : Expr) (flattens : Bool) :
    Ensures (projectSingle visit e flattens r body) t fun _ u => Opened c s C r u := by
  unfold projectSingle
  dsimp only
  split
  · exact ensures_reject_bind
  · refine (ensures_widening_stands (hv body hbody _ _ (h.ready.widen _))).bind fun m u hm => ?_
    have hback : back t u = { u with active := some r } := by
      rw [back, h.active]
      rfl
    rw [ensures_bind, ensures_setActive, ← hback]
    refine (ensures_valueOf h.ready hm).bind fun n w hw => ?_
    obtain ⟨D, hw⟩ := hw
    obtain ⟨hopened, hfit⟩ := h.yields hw
    refine (hopened.ensures_selectOnly (i := { node := n }) (hfit n (by simp))).bind fun _ x hx => ?_
    exact ensures_pure.2 hx

/-! ### Groupings -/

lemma ensures_pushGroup (h : Opened c s C r t) {e : Expr} (he : e.receives c = true)
    (member : Option PropertyRef) :
    Ensures (do let n ← value visit e; edit (·.pushGroup r n member)) t fun _ u =>
      Opened c s C r u := by
  refine (h.ensures_value hv he).bind fun n u ⟨hu, hn⟩ => ?_
  exact ensures_edit.2 (hu.build (built_pushGroup hu.ready.opened List.mem_cons_self hn member))

lemma ensures_groupMember (h : Opened c s C r t) {p : PropertyRef} {e : Expr}
    (hp : c.relates p = false) (he : e.receives c = true) :
    Ensures (groupMember visit r (p, e)) t fun _ u => Opened c s C r u := by
  unfold groupMember
  dsimp only
  split
  · exact (h.ensures_setPath hp _).bind fun _ u ⟨hu, _⟩ => hu.ensures_pushGroup hv he (some p)
  · exact h.ensures_pushGroup hv he (some p)

end Visit

end Opened

lemma receives_of_mem_members {members : List (PropertyRef × Expr)}
    (h : Expr.receivesMembers c members = true) {p : PropertyRef} {e : Expr} (hm : (p, e) ∈ members) :
    c.relates p = false ∧ e.receives c = true := by
  induction members with
  | nil => cases hm
  | cons m members ih =>
    rw [Expr.receivesMembers, Bool.and_eq_true, Bool.and_eq_true, Bool.not_eq_true'] at h
    rcases List.mem_cons.1 hm with rfl | hm
    · exact h.1
    · exact ih h.2 hm

section Visit

variable {visit : Visit} (hv : Builds c visit) {arg : Expr} {args : List Expr}
  (harg : arg.receives c = true) (hsequence : arg.isSequence c = true)
  (hargs : ∀ a ∈ args, a.receives c = true) (hs : Ready c s C)
include hv harg hsequence hargs hs

/-- The body of a lambda over the receiver of an operator, in the request of the receiver. -/
lemma ensures_receiverBody (e : Expr) {k : RequestId → Expr → Compile Meaning}
    (hk : ∀ r body t, Opened c s C r t → body.receives c = true →
      Ensures (k r body) t fun m u => Stands c s C sequence u m) :
    Ensures (do
      let r ← openReceiver visit e arg
      let body ← enter e r (← argument e args 1)
      k r body) s fun m t => Stands c s C sequence t m := by
  refine (ensures_openReceiver hv harg hsequence hs e).bind fun r t ht => ?_
  refine (ensures_argument e args 1).bind fun f t' ⟨hf, ht'⟩ => ?_
  rw [ht']
  refine (ensures_enter (c := c) e r f).bind fun body u ⟨hbody, a, p, hu⟩ => ?_
  rw [hu]
  exact hk r body _ (ht.build (.bind ht.ready.opened a p)) (hbody (hargs f hf))

lemma ensures_select (e : Expr) (flattens : Bool) :
    Ensures (select visit e flattens arg args) s fun m t => Stands c s C sequence t m := by
  have hshape : ∀ (r : RequestId) (shape : TypeRef) (t : CompileState), Opened c s C r t →
      Ensures (do
        editRequest r ({ · with projection := some shape })
        return Meaning.query r) t fun m u => Stands c s C sequence u m := by
    intro r shape t ht
    exact (ht.ensures_project shape).bind fun _ u hu => ensures_pure.2 hu
  refine ensures_receiverBody hv harg hsequence hargs hs e fun r body t ht hbody => ?_
  have hsingle := ht.ensures_projectSingle hv hbody e flattens
  cases body with
  | new type members =>
    refine ht.ensures_clearItems.bind fun _ u hu => ?_
    refine (hu.ensures_widening (Opened.ensures_projectMembers hv true members hbody)).bind
      fun _ w hw => ?_
    exact hshape r _ w hw
  | init type bindings =>
    refine ht.ensures_clearItems.bind fun _ u hu => ?_
    refine (hu.ensures_widening fun t ht =>
      Opened.ensures_projectBindings hv e true bindings hbody ht).bind fun _ w hw => ?_
    exact hshape r _ w hw
  | member target p => exact hsingle.bind fun shape u hu => hshape r shape u hu
  | param p => exact hsingle.bind fun shape u hu => hshape r shape u hu
  | key grouping => exact hsingle.bind fun shape u hu => hshape r shape u hu
  | _ => exact ensures_reject_bind

lemma ensures_groupBy (e : Expr) :
    Ensures (groupBy visit e arg args) s fun m t => Stands c s C sequence t m := by
  refine ensures_receiverBody hv harg hsequence hargs hs e fun r body t ht hbody => ?_
  have hshape : ∀ t, Opened c s C r t → Ensures (do
      editRequest r ({ · with projection := some e.elementType })
      return Meaning.query r) t fun m u => Stands c s C sequence u m := by
    intro t ht
    exact (ht.ensures_project _).bind fun _ u hu => ensures_pure.2 hu
  cases body with
  | new type members =>
    refine (ensures_forM (I := Opened c s C r) members (fun m hm t ht => ?_) ht).bind
      fun _ u hu => hshape u hu
    obtain ⟨hp, he⟩ := receives_of_mem_members hbody hm
    exact ht.ensures_groupMember hv hp he
  | member target p =>
    refine (ht.ensures_value hv hbody).bind fun n u ⟨hu, hn⟩ => ?_
    rw [ensures_bind, ensures_edit]
    exact hshape _ (hu.build (built_pushGroup hu.ready.opened List.mem_cons_self hn none))
  | param p =>
    refine (ht.ensures_value hv hbody).bind fun n u ⟨hu, hn⟩ => ?_
    rw [ensures_bind, ensures_edit]
    exact hshape _ (hu.build (built_pushGroup hu.ready.opened List.mem_cons_self hn none))
  | _ => exact ensures_reject_bind

end Visit

end Compile

end EntityQuery
