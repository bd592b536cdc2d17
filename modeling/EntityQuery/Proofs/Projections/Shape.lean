import EntityQuery.Proofs.Projections.Rules

/-!
Projections and groupings, inside an anchored request or on it.

* What a projection assigns is remembered; a member of a collection type is given a collection, so it
  is remembered by a path that ends with a member of a collection type.
* A projection and a grouping let their request show the static type of what they give.
-/

namespace EntityQuery.Compile

open Sql Graph

variable {many : String → String → Bool} {A : Anchor} {o r : RequestId} {s t : CompileState}

/-! ### Members of an object -/

section Members

variable (h : Guarded many A o s)
include h

lemma guarded_widening {α : Type} {A' : Anchor} {x : Compile α} (w : Bool)
    (hx : ∀ t, Guarded many A o t → Ensures x t fun _ u => Guarded many A' o u) :
    Ensures (widening w x) s fun _ t => Guarded many A' o t := by
  rw [ensures_widening]
  exact (hx _ (h.widen w)).mono fun _ _ ht => ht.widen s.widen

lemma guarded_selectMember (r : RequestId) (n : NodeId) (p : Option PropertyRef) (newElement : Bool) :
    Ensures (selectMember r n p newElement) s fun _ t => Guarded many A o t :=
  h.ensures_edit (h.anchored.pushItem r _)

lemma guarded_selectKeys (e : Expr) (r : RequestId) (newElement : Bool)
    (keys : List (NodeId × Option PropertyRef)) :
    Ensures (selectKeys e r newElement keys) s fun _ t => Guarded many A o t := by
  induction keys generalizing s newElement with
  | nil => exact ensures_pure.2 h
  | cons key keys ih =>
    refine (h.ensures_duplicate e key.1).bind fun n t ht => ?_
    exact (guarded_selectMember ht r n key.2 newElement).bind fun _ u hu => ih hu false

variable {visit : Visit} (hv : Shelters many visit)
include hv

lemma guarded_projectKey {grouping : Expr} (hgrouping : (Expr.key grouping).Fits many) (r : RequestId)
    (p : PropertyRef) (newElement : Bool) :
    Ensures (projectKey visit r p (.key grouping) grouping newElement) s fun _ t =>
      Guarded many A o t := by
  refine (guarded_groupingKeys hv h hgrouping.key _).bind fun keys t ⟨ht, _⟩ => ?_
  split
  · refine (guarded_value hv ht hgrouping).bind fun n u hu => ?_
    refine (hu.ensures_setComputed p n).bind fun _ w hw => ?_
    exact guarded_selectMember hw r n (some p) newElement
  · exact guarded_selectKeys ht _ r true _

lemma guarded_projectPath {e : Expr} (he : e.Fits many) {p : PropertyRef}
    (hp : many p.owner p.name = true → e.type.isCollection = true) (r : RequestId) (newElement : Bool) :
    Ensures (projectPath visit r p e newElement) s fun _ t => Guarded many A o t := by
  unfold projectPath
  cases hcollection : e.type.isCollection with
  | true => exact ensures_reject_bind
  | false =>
    refine (guarded_value hv h he).bind fun n t ht => ?_
    have hmany : many p.owner p.name = true → False := fun hmany => by
      rw [hp hmany] at hcollection
      cases hcollection
    cases e.memberPath? with
    | some path =>
      refine (ht.ensures_setPath fun hp => (hmany hp).elim).bind fun _ u hu => ?_
      exact guarded_selectMember hu r n (some p) newElement
    | none =>
      refine (ht.ensures_setComputed p n).bind fun _ u hu => ?_
      exact guarded_selectMember hu r n (some p) newElement

lemma guarded_projectComputed {e : Expr} (he : e.Fits many) (r : RequestId) (p : PropertyRef)
    (newElement : Bool) :
    Ensures (projectComputed visit r p e newElement) s fun _ t => Guarded many A o t := by
  refine (guarded_value hv h he).bind fun n t ht => ?_
  refine (ht.ensures_setComputed p n).bind fun _ u hu => ?_
  refine (guarded_selectMember hu r n (some p) newElement).bind fun _ w hw => ?_
  rw [ensures_modify]
  exact ⟨hw.anchored, hw.active, hw.paths⟩

end Members

mutual
theorem guarded_projectMember {visit : Visit} (hv : Shelters many visit) (r : RequestId)
    {p : PropertyRef} (newElement : Bool) :
    ∀ e : Expr, e.Fits many → (many p.owner p.name = true → e.type.isCollection = true) →
      ∀ s, Guarded many A o s →
        Ensures (projectMember visit r p newElement e) s fun _ t => Guarded many A o t
  | .new _ members, he, _, s, h => by
    rw [projectMember]
    exact guarded_projectMembers hv r true members he.new s h
  | .key grouping, he, _, s, h => by
    rw [projectMember]
    exact guarded_projectKey h hv he r p newElement
  | .member target q, he, hp, s, h => guarded_projectPath h hv he hp r newElement
  | .param q, he, hp, s, h => guarded_projectPath h hv he hp r newElement
  | .lambda _ _, _, _, _, _ => ensures_reject
  | .init _ _, _, _, _, _ => ensures_reject
  | .source entity, he, _, s, h => guarded_projectComputed h hv he r p newElement
  | .const l, he, _, s, h => guarded_projectComputed h hv he r p newElement
  | .binary op a b, he, _, s, h => guarded_projectComputed h hv he r p newElement
  | .unary op e, he, _, s, h => guarded_projectComputed h hv he r p newElement
  | .cond test y n, he, _, s, h => guarded_projectComputed h hv he r p newElement
  | .call m args, he, _, s, h => guarded_projectComputed h hv he r p newElement

theorem guarded_projectMembers {visit : Visit} (hv : Shelters many visit) (r : RequestId)
    (newElement : Bool) :
    ∀ members : List (PropertyRef × Expr), (∀ x ∈ members, x.2.Fits many ∧
        (many x.1.owner x.1.name = true → x.2.type.isCollection = true)) →
      ∀ s, Guarded many A o s →
        Ensures (projectMembers visit r newElement members) s fun _ t => Guarded many A o t
  | [], _, s, h => by
    rw [projectMembers]
    exact ensures_pure.2 h
  | (p, e) :: rest, hmembers, s, h => by
    obtain ⟨he, hp⟩ := hmembers (p, e) List.mem_cons_self
    rw [projectMembers]
    refine (guarded_projectMember hv r newElement e he hp s h).bind fun _ t ht => ?_
    exact guarded_projectMembers hv r false rest (fun x hx => hmembers x (List.mem_cons_of_mem _ hx)) t ht
end

section Projections

variable {visit : Visit} (hv : Shelters many visit) (h : Guarded many A o s)
include hv h

lemma guarded_projectBindings (whole : Expr) (r : RequestId) (newElement : Bool)
    (bindings : List Binding) (hbindings : ∀ p e, .assign p e ∈ bindings → e.Fits many ∧
      (many p.owner p.name = true → e.type.isCollection = true)) :
    Ensures (projectBindings visit whole r newElement bindings) s fun _ t => Guarded many A o t := by
  induction bindings generalizing s newElement with
  | nil => exact ensures_pure.2 h
  | cons b rest ih =>
    cases b with
    | assign p e =>
      obtain ⟨he, hp⟩ := hbindings p e List.mem_cons_self
      refine (guarded_projectMember hv r newElement e he hp s h).bind fun _ t ht => ?_
      exact ih ht false fun q v hq => hbindings q v (List.mem_cons_of_mem _ hq)
    | list p es => exact ensures_reject

/-- A single value shows its type; a collection shows the type of its elements. -/
lemma guarded_projectSingle {body : Expr} (hbody : body.Fits many) (e : Expr) (flattens : Bool)
    (r : RequestId) :
    Ensures (projectSingle visit e flattens r body) s fun shape t => Guarded many A r t ∧
      shape = (if body.type.isCollection = true then body.type.elementOrSelf else body.type) ∧
      (flattens = false → body.type.isCollection = false) ∧
      (body.isKey = true → body.type.isFlat = true) := by
  unfold projectSingle
  dsimp only
  split
  · exact ensures_reject_bind
  · next hcollection =>
    rw [ensures_bind, ensures_widening]
    refine (hv A body o _ hbody (h.widen _)).mono fun m t hm => ?_
    obtain ⟨o', ht⟩ := (hm.widen s.widen).guarded
    have hkey : body.isKey = true → body.type.isFlat = true := by
      intro hkey
      cases m with
      | value n => exact hm.2 hkey
      | row a => exact hm.2.1
      | query q =>
        obtain ⟨-, -, hnot, -⟩ := hm
        rw [hnot] at hkey
        cases hkey
    rw [ensures_bind, ensures_setActive]
    refine ((ht.activate r).ensures_valueOf m).bind fun n u hu => ?_
    refine (hu.ensures_edit ((hu.anchored.clearItems r).pushItem r { node := n })).bind fun _ w hw => ?_
    refine ensures_pure.2 ⟨hw, rfl, fun hflattens => ?_, hkey⟩
    rw [hflattens] at hcollection
    simpa using hcollection

/-- A member of a grouping key. -/
lemma guarded_groupMember (r : RequestId) {p : PropertyRef} {v : Expr}
    (he : v.Fits many) (hp : many p.owner p.name = true → v.type.isCollection = true) :
    Ensures (groupMember visit r (p, v)) s fun _ t => Guarded many A o t := by
  have hpush : ∀ t, Guarded many A o t → Ensures (do
      let n ← value visit v
      edit (·.pushGroup r n (some p))) t fun _ u => Guarded many A o u := by
    intro t ht
    refine (guarded_value hv ht he).bind fun n u hu => ?_
    exact hu.ensures_edit (hu.anchored.pushGroup r n _)
  unfold groupMember
  dsimp only
  split
  · next path hpath =>
    refine (h.ensures_setPath fun hmany => endsMany_memberPath? he (hp hmany) hpath).bind
      fun _ t ht => hpush t ht
  · exact hpush s h

end Projections

/-- A request is given, which shows a type from now on. -/
def Shown (many : String → String → Bool) (K : RequestId → Anchor → Prop) (type : TypeRef)
    (t : CompileState) (m : Meaning) : Prop :=
  ∃ r A, m = .query r ∧ K r A ∧ Guarded many (A.showing r type) r t

/-- A request comes to show a type. -/
lemma shown_edit {K : RequestId → Anchor → Prop} (hK : K r A) (h : Guarded many A r s)
    (type : TypeRef) {f : Request → Request} (hf : ∀ q, (f q).joins = q.joins ∧ (f q).base = q.base ∧
      (f q).parent = q.parent ∧ (f q).projection = some type) :
    Ensures (do editRequest r f; return Meaning.query r) s fun m t => Shown many K type t m :=
  (h.ensures_project r type hf).bind fun _ _ ht => ensures_pure.2 ⟨r, A, rfl, hK, ht⟩

section Shapes

variable {visit : Visit} (hv : Shelters many visit) {K : RequestId → Anchor → Prop} {m : Method}
  {e arg : Expr} {rest : List Expr} (hopen : Ensures (receiver visit e arg) s (Received many K arg))
  (hrest : Expr.FitsArgs many m arg.elementType rest)
include hv hopen hrest

/-- **A projection** shows the type of its selector, flattened or not. -/
lemma shown_select {flattens : Bool} (hflattens : flattens = true → m = .selectMany) :
    Ensures (select visit e flattens arg (arg :: rest)) s fun x t => ∃ type,
      Expr.selectorType? rest = some type ∧
        (if flattens = true then type.elementOrSelf else type).isItem = true ∧
        Shown many K (if flattens = true then type.elementOrSelf else type) t x := by
  refine ensures_openBody hopen hrest fun r A body t hK ht hitem hbody hselects htype => ?_
  rw [htype]
  -- an object is not flattened
  have hobject : ∀ name u, body.type = .object name → Guarded many A r u → Ensures (do
      editRequest r ({ · with projection := some (TypeRef.object name) })
      return Meaning.query r) u fun x t => ∃ type, some body.type = some type ∧
        (if flattens = true then type.elementOrSelf else type).isItem = true ∧
        Shown many K (if flattens = true then type.elementOrSelf else type) t x := by
    intro name u hname hu
    have hself : (if flattens = true then body.type.elementOrSelf else body.type) = .object name := by
      rw [hname]
      split <;> rfl
    refine (shown_edit hK hu (.object name) fun _ => by simp).mono fun x w hw => ⟨_, rfl, ?_⟩
    rw [hself]
    exact ⟨rfl, hw⟩
  have hsingle : (body.isKey = false → body.type.isFlat = true) → Ensures (do
      let shape ← projectSingle visit e flattens r body
      editRequest r ({ · with projection := some shape })
      return Meaning.query r) t fun x t => ∃ type, some body.type = some type ∧
        (if flattens = true then type.elementOrSelf else type).isItem = true ∧
        Shown many K (if flattens = true then type.elementOrSelf else type) t x := by
    intro hpath
    refine (guarded_projectSingle hv ht hbody e flattens r).bind fun shape u hu => ?_
    obtain ⟨hu, hshape, hcollection, hkey⟩ := hu
    have hflat : body.type.isFlat = true := by
      cases hk : body.isKey with
      | true => exact hkey hk
      | false => exact hpath hk
    have hsame : (if flattens = true then body.type.elementOrSelf else body.type) = shape ∧
        shape.isItem = true := by
      rw [hshape]
      cases hc : body.type.isCollection with
      | true =>
        cases flattens with
        | false =>
          rw [hcollection rfl] at hc
          cases hc
        | true =>
          refine ⟨rfl, TypeRef.isItem_elementOrSelf hflat ?_⟩
          rw [TypeRef.isSequence, hc, Bool.or_true]
      | false =>
        refine ⟨?_, TypeRef.isItem_of_isFlat hflat hc⟩
        cases flattens with
        | false => rfl
        | true =>
          rw [hflattens rfl, Method.selects, hc, Bool.false_or] at hselects
          exact TypeRef.elementOrSelf_eq_self hselects
    refine (shown_edit hK hu shape fun _ => by simp).mono fun x w hw => ⟨_, rfl, ?_⟩
    rw [hsame.1]
    exact ⟨hsame.2, hw⟩
  cases body with
  | new type members =>
    refine (ht.ensures_edit (ht.anchored.clearItems r)).bind fun _ u hu => ?_
    refine (guarded_widening hu true fun u hu =>
      guarded_projectMembers hv r true members hbody.new u hu).bind fun _ w hw => ?_
    exact hobject type w rfl hw
  | init type bindings =>
    refine (ht.ensures_edit (ht.anchored.clearItems r)).bind fun _ u hu => ?_
    refine (guarded_widening hu true fun u hu =>
      guarded_projectBindings hv hu e r true bindings hbody.init).bind fun _ w hw => ?_
    exact hobject type w rfl hw
  | member target p => exact hsingle fun _ => TypeRef.isFlat_of_isMember hbody.member.2.1
  | param p => exact hsingle fun _ => TypeRef.isFlat_of_isItem hbody.param
  | key grouping =>
    refine hsingle fun hkey => ?_
    cases hkey
  | _ => exact ensures_reject_bind

/-- **A grouping** shows the element type of its expression. Its key is of a flat type. -/
lemma shown_groupBy :
    Ensures (groupBy visit e arg (arg :: rest)) s fun x t => ∃ type,
      Expr.selectorType? rest = some type ∧ type.isFlat = true ∧ arg.elementType.isItem = true ∧
        Shown many K e.elementType t x := by
  refine ensures_openBody hopen hrest fun r A body t hK ht hitem hbody hselects htype => ?_
  rw [htype]
  have hshow : ∀ u, body.type.isFlat = true → Guarded many A r u → Ensures (do
      editRequest r ({ · with projection := some e.elementType })
      return Meaning.query r) u fun x t => ∃ type, some body.type = some type ∧
        type.isFlat = true ∧ arg.elementType.isItem = true ∧ Shown many K e.elementType t x := by
    intro u hflat hu
    refine (shown_edit hK hu _ fun _ => by simp).mono fun x w hw => ⟨_, rfl, hflat, hitem, hw⟩
  have hsingle : body.type.isFlat = true → Ensures (do
      let n ← value visit body
      edit (·.pushGroup r n none)
      editRequest r ({ · with projection := some e.elementType })
      return Meaning.query r) t fun x t => ∃ type, some body.type = some type ∧
        type.isFlat = true ∧ arg.elementType.isItem = true ∧ Shown many K e.elementType t x := by
    intro hflat
    refine (guarded_value hv ht hbody).bind fun n u hu => ?_
    refine (hu.ensures_edit (hu.anchored.pushGroup r n none)).bind fun _ w hw => ?_
    exact hshow w hflat hw
  cases body with
  | new type members =>
    refine (ensures_forM (I := Guarded many A r) members (fun x hx t ht => ?_) ht).bind
      fun _ u hu => hshow u rfl hu
    obtain ⟨hx, hp⟩ := hbody.new x hx
    exact guarded_groupMember hv ht r hx hp
  | member target p => exact hsingle (TypeRef.isFlat_of_isMember hbody.member.2.1)
  | param p => exact hsingle (TypeRef.isFlat_of_isItem hbody.param)
  | _ => exact ensures_reject_bind

end Shapes

end EntityQuery.Compile
