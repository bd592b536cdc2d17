import EntityQuery.Proofs.Nesting.Copies
import EntityQuery.Proofs.Nesting.Resolve

/-!
Requests that are being built while expressions are compiled.

* `Sequence` and `receives`: an operator works on a source, on the result of another operator or on a
  mapped relation to many; an aggregate may also work on a grouping.
* `Ready c s C`: the requests `C` of a state are being built, the active one is among them.
* `Yields c s C ns D t`: values `ns` have been compiled since `s`. They may be put into the requests
  `C`, unless nothing was being built at `s`.
* `Opened c s C r t`: the request `r` has been opened since `s`, inside the active request of `s`.
-/

namespace EntityQuery

open Sql Graph

/-! ### Receivers -/

namespace Method

/-- Whether an operator works on the rows of its receiver. -/
def takesRows : Method → Bool
  | .contains | .startsWith | .endsWith | .useLeftJoin | .named _ => false
  | .eagerLoad | .lazyLoad | .batchLazyLoad | .dontLoad => false
  | _ => true

end Method

namespace Expr

/-- Whether an expression is a source, a call of an operator or a mapped relation to many. Loading
hints and `UseLeftJoin` are what they are around. -/
def isSequence (c : Catalog) : Expr → Bool
  | .source _ => true
  | .member _ p => c.relates p
  | .call m (arg :: _) => !(m.isLoadingHint || m == .useLeftJoin) || isSequence c arg
  | .call _ [] => true
  | _ => false

/-- Whether an operator may work on an expression. -/
def isReceiver (c : Catalog) (m : Method) (e : Expr) : Bool :=
  !m.takesRows || e.isSequence c || (m.isAggregate && e.type.isGrouping)

mutual
/-- Whether every operator in an expression works on a sequence, or an aggregate on a grouping, and no
projection assigns a mapped relation to many. -/
def receives (c : Catalog) : Expr → Bool
  | .source _ | .const _ | .param _ => true
  | .member e _ => receives c e
  | .key e => receives c e
  | .binary _ l r => receives c l && receives c r
  | .unary _ e => receives c e
  | .cond t y n => receives c t && receives c y && receives c n
  | .call m args => (args.head?.all (isReceiver c m)) && receivesAll c args
  | .lambda _ body => receives c body
  | .new _ members => receivesMembers c members
  | .init _ bindings => receivesBindings c bindings

def receivesAll (c : Catalog) : List Expr → Bool
  | [] => true
  | e :: rest => receives c e && receivesAll c rest

def receivesMembers (c : Catalog) : List (PropertyRef × Expr) → Bool
  | [] => true
  | (p, e) :: rest => !c.relates p && receives c e && receivesMembers c rest

def receivesBindings (c : Catalog) : List Binding → Bool
  | [] => true
  | .assign p e :: rest => !c.relates p && receives c e && receivesBindings c rest
  | .list _ es :: rest => receivesAll c es && receivesBindings c rest
end

lemma receives_of_mem {c : Catalog} {es : List Expr} (h : receivesAll c es = true) {e : Expr}
    (he : e ∈ es) : e.receives c = true := by
  induction es with
  | nil => cases he
  | cons x es ih =>
    rw [receivesAll, Bool.and_eq_true] at h
    rcases List.mem_cons.1 he with rfl | he
    · exact h.1
    · exact ih h.2 he

end Expr

namespace Compile

variable {c : Catalog} {s t u : CompileState} {C D E : List RequestId} {r : RequestId}
  {n : NodeId} {ns ms : List NodeId}

/-! ### States -/

/-- The requests `C` of a state are being built: nothing holds them, and the requests around them are
among them. No relation to many is a projected member. -/
structure Ready (c : Catalog) (s : CompileState) (C : List RequestId) : Prop where
  opened : s.graph.Open C
  closed : ∀ r ∈ C, ∀ p, (s.graph.request r).parent = some p → p ∈ C
  active : ∀ r, s.active = some r → r ∈ C
  catalog : s.mapping.catalog = c
  paths : ∀ p, c.relates p = true → s.paths.find? p = none

/-- A later graph, in which the requests `C` stand where they stood, over the same bases. -/
structure Later (C : List RequestId) (g h : Graph) : Prop where
  extension : g.Extends h
  parent : ∀ r ∈ C, (h.request r).parent = (g.request r).parent
  base : ∀ r ∈ C, ∀ a, (g.request r).base = some a → (h.request r).base = some a

lemma Later.refl (C : List RequestId) (g : Graph) : Later C g g :=
  ⟨.refl g, fun _ _ => rfl, fun _ _ _ ha => ha⟩

lemma Later.trans {g h k : Graph} (hgh : Later C g h) (hhk : Later D h k) (hCD : C ⊆ D) :
    Later C g k where
  extension := hgh.extension.trans hhk.extension
  parent r hr := (hhk.parent r (hCD hr)).trans (hgh.parent r hr)
  base r hr a ha := hhk.base r (hCD hr) a (hgh.base r hr a ha)

lemma Later.of_built {g h : Graph} (hgh : Built C g h) : Later C g h :=
  ⟨hgh.extension, hgh.parent, hgh.base⟩

lemma Ready.build (hs : Ready c s C) {h : Graph} (hh : Built C s.graph h) :
    Ready c { s with graph := h } C where
  opened := hh.opened
  closed r hr p hp := hs.closed r hr p ((hh.parent r hr).symm.trans hp)
  active := hs.active
  catalog := hs.catalog
  paths := hs.paths

/-! ### Values -/

/-- Values have been compiled since a state. Where requests were being built, the same ones still
are, and the values may be put into them. -/
structure Yields (c : Catalog) (s : CompileState) (C : List RequestId) (ns : List NodeId)
    (D : List RequestId) (t : CompileState) : Prop where
  later : Later C s.graph t.graph
  ready : Ready c t D
  subset : C ⊆ D
  inside : ∀ n ∈ ns, n.index < t.graph.entries.size
  settled : s.active.isSome = true → D = C ∧ t.active = s.active ∧ ∀ n ∈ ns, t.graph.Fit C n

/-- The state after a value: the active request is the one before it. -/
def back (s t : CompileState) : CompileState :=
  if s.active.isSome then { t with active := s.active } else t

lemma back_build (s t : CompileState) (g : Graph) :
    back s { t with graph := g } = { back s t with graph := g } := by
  unfold back
  split <;> rfl

lemma graph_back (s t : CompileState) : (back s t).graph = t.graph := by
  unfold back
  split <;> rfl

namespace Yields

lemma refl (hs : Ready c s C) : Yields c s C [] C s :=
  ⟨.refl C _, hs, List.Subset.refl C, by simp, fun _ => ⟨rfl, rfl, by simp⟩⟩

lemma trans (hst : Yields c s C ns D t) (htu : Yields c t D ms E u) :
    Yields c s C (ns ++ ms) E u where
  later := hst.later.trans htu.later hst.subset
  ready := htu.ready
  subset := List.Subset.trans hst.subset htu.subset
  inside n hn := by
    rcases List.mem_append.1 hn with hn | hn
    · exact (hst.inside n hn).trans_le htu.later.extension.entries
    · exact htu.inside n hn
  settled hs := by
    obtain ⟨rfl, hactive, hns⟩ := hst.settled hs
    rw [← hactive] at hs
    obtain ⟨rfl, hactive', hms⟩ := htu.settled hs
    refine ⟨rfl, hactive'.trans hactive, fun n hn => ?_⟩
    rcases List.mem_append.1 hn with hn | hn
    · exact (hns n hn).later htu.later.extension hst.ready.opened.ordered
    · exact hms n hn

/-- Some of the values. -/
lemma only (h : Yields c s C ns D t) (hms : ms ⊆ ns) : Yields c s C ms D t where
  later := h.later
  ready := h.ready
  subset := h.subset
  inside n hn := h.inside n (hms hn)
  settled hs := by
    obtain ⟨hD, hactive, hns⟩ := h.settled hs
    exact ⟨hD, hactive, fun n hn => hns n (hms hn)⟩

lemma build (h : Yields c s C ns D t) {k : Graph} (hk : Built D t.graph k) :
    Yields c s C ns D { t with graph := k } where
  later := h.later.trans (.of_built hk) h.subset
  ready := h.ready.build hk
  subset := h.subset
  inside n hn := (h.inside n hn).trans_le hk.extension.entries
  settled hs := by
    obtain ⟨hD, hactive, hns⟩ := h.settled hs
    exact ⟨hD, hactive, fun n hn => (hns n hn).later hk.extension h.ready.opened.ordered⟩

lemma insert (h : Yields c s C ns D t) (hn : n.index < t.graph.entries.size)
    (hfit : s.active.isSome = true → t.graph.Fit C n) : Yields c s C (n :: ns) D t where
  later := h.later
  ready := h.ready
  subset := h.subset
  inside m hm := by
    rcases List.mem_cons.1 hm with rfl | hm
    · exact hn
    · exact h.inside m hm
  settled hs := by
    obtain ⟨hD, hactive, hns⟩ := h.settled hs
    refine ⟨hD, hactive, fun m hm => ?_⟩
    rcases List.mem_cons.1 hm with rfl | hm
    · exact hfit hs
    · exact hns m hm

/-- A new node over some of the values. -/
lemma add (h : Yields c s C ns D t) {x : Node} (hx : ∀ n ∈ x.children, n ∈ ns)
    (hsub : ∀ r, x = .sub r → r.index < t.graph.requests.size ∧ (s.active.isSome = true → r ∉ C)) :
    Yields c s C (⟨t.graph.entries.size⟩ :: ns) D { t with graph := (t.graph.add x).2 } := by
  have hbuilt : Built D t.graph (t.graph.add x).2 :=
    .add h.ready.opened (fun n hn => h.inside n (hx n hn)) fun r hr => (hsub r hr).1
  refine (h.build hbuilt).insert (by simp) fun hs => ?_
  have hopen : t.graph.Open C := h.ready.opened.mono h.subset
  exact hopen.fit_add (fun m hm => (h.settled hs).2.2 m (hx m hm)) fun r hr => (hsub r hr).2 hs

/-- A node over some of the values that is no request. -/
lemma addValue (h : Yields c s C ns D t) {x : Node} (hx : ∀ n ∈ x.children, n ∈ ns)
    (hsub : ∀ r, x ≠ .sub r) :
    Yields c s C (⟨t.graph.entries.size⟩ :: ns) D { t with graph := (t.graph.add x).2 } :=
  h.add hx fun r hr => absurd hr (hsub r)

/-- Where a value leaves the active request as it was, there is nothing to go back to. -/
lemma back_eq (h : Yields c s C ns D t) : back s t = t := by
  unfold back
  split
  · next hs => rw [← (h.settled hs).2.1]
  · rfl

lemma widen {w w' : Bool} (h : Yields c { s with widen := w } C ns D t) :
    Yields c s C ns D { t with widen := w' } :=
  ⟨h.later, ⟨h.ready.opened, h.ready.closed, h.ready.active, h.ready.catalog, h.ready.paths⟩, h.subset,
    h.inside, h.settled⟩

end Yields

/-! ### Open requests -/

/-- A request has been opened since a state, inside the request that was active. -/
structure Opened (c : Catalog) (s : CompileState) (C : List RequestId) (r : RequestId)
    (t : CompileState) : Prop where
  later : Later C s.graph t.graph
  ready : Ready c t (r :: C)
  new : r ∉ C
  parent : (t.graph.request r).parent = s.active
  active : t.active = some r

namespace Opened

/-- Further steps in an open request. -/
lemma step (h : Opened c s C r t) (htu : Later (r :: C) t.graph u.graph) (hu : Ready c u (r :: C))
    (hactive : u.active = some r) : Opened c s C r u where
  later := h.later.trans htu (List.subset_cons_self _ _)
  ready := hu
  new := h.new
  parent := (htu.parent r List.mem_cons_self).trans h.parent
  active := hactive

lemma build (h : Opened c s C r t) {k : Graph} (hk : Built (r :: C) t.graph k) :
    Opened c s C r { t with graph := k } := h.step (.of_built hk) (h.ready.build hk) h.active

/-- Values that are compiled in an open request may be put into it. -/
lemma yields (h : Opened c s C r t) (htu : Yields c t (r :: C) ns D u) :
    Opened c s C r u ∧ ∀ n ∈ ns, u.graph.Fit (r :: C) n := by
  obtain ⟨rfl, hactive, hns⟩ := htu.settled (by rw [h.active]; rfl)
  exact ⟨h.step htu.later htu.ready (hactive.trans h.active), hns⟩

lemma inside (h : Opened c s C r t) : r.index < t.graph.requests.size :=
  h.ready.opened.inside r List.mem_cons_self

/-- The requests around an open one are still built. -/
lemma outside (h : Opened c s C r t) (hs : Ready c s C) :
    Ready c { t with active := s.active } C where
  opened := h.ready.opened.mono (List.subset_cons_self _ _)
  closed q hq p hp := hs.closed q hq p ((h.later.parent q hq).symm.trans hp)
  active := hs.active
  catalog := h.ready.catalog
  paths := h.ready.paths

/-- A new request is opened, with clauses that `k` has got. -/
lemma of_new (hs : Ready c s C) {k : Graph}
    (hk : Built (⟨s.graph.requests.size⟩ :: C) (s.graph.addRequest s.active).2 k) :
    Opened c s C ⟨s.graph.requests.size⟩
      { s with graph := k, active := some ⟨s.graph.requests.size⟩ } := by
  have hall := (Built.addRequest hs.opened s.active).close hk
  have hready := hs.build hall
  have hparent : (k.request ⟨s.graph.requests.size⟩).parent = s.active := by
    rw [hk.parent _ List.mem_cons_self, request_addRequest_self]
  refine ⟨.of_built hall, ⟨hk.opened, fun q hq p hp => ?_, fun q hq => ?_, hready.catalog,
    hready.paths⟩, hs.opened.new_not_mem, hparent, rfl⟩
  · rcases List.mem_cons.1 hq with rfl | hq
    · exact List.mem_cons_of_mem _ (hs.active p (hparent.symm.trans hp))
    · exact List.mem_cons_of_mem _ (hready.closed q hq p hp)
  · cases hq
    exact List.mem_cons_self

/-- A request that has been opened since a later state, with the same request active. -/
lemma earlier (h : Opened c t C r u) (hst : Later C s.graph t.graph) (hactive : t.active = s.active) :
    Opened c s C r u :=
  ⟨hst.trans h.later (List.Subset.refl C), h.ready, h.new, h.parent.trans hactive, h.active⟩

/-- An open request is left. -/
lemma leave (h : Opened c s C r t) (hs : Ready c s C) : ∃ D, Yields c s C [] D (back s t) := by
  by_cases hactive : s.active.isSome
  · refine ⟨C, ?_⟩
    rw [back, if_pos hactive]
    exact ⟨h.later, h.outside hs, List.Subset.refl C, by simp, fun _ => ⟨rfl, rfl, by simp⟩⟩
  · refine ⟨r :: C, ?_⟩
    rw [back, if_neg hactive]
    exact ⟨h.later, h.ready, List.subset_cons_self _ _, by simp, fun hs => absurd hs hactive⟩

lemma widen {w w' : Bool} (h : Opened c { s with widen := w } C r t) :
    Opened c s C r { t with widen := w' } :=
  ⟨h.later, ⟨h.ready.opened, h.ready.closed, h.ready.active, h.ready.catalog, h.ready.paths⟩, h.new,
    h.parent, h.active⟩

end Opened

/-! ### Meanings -/

/-- What an expression stands for while requests are being built. -/
def Stands (c : Catalog) (s : CompileState) (C : List RequestId) (sequence : Bool) (t : CompileState) :
    Meaning → Prop
  | .value n => ∃ D, Yields c s C [n] D (back s t)
  | .row a => s.active.isSome = true ∧ Yields c s C [] C t ∧
      (sequence = true → ∀ q, (t.graph.request q).base ≠ some a)
  | .query r => Opened c s C r t

/-- A rule under which every expression stands for what it should. -/
def Builds (c : Catalog) (visit : Visit) : Prop :=
  ∀ e : Expr, e.receives c = true → ∀ s C, Ready c s C →
    Ensures (visit e) s fun m t => Stands c s C (e.isSequence c) t m

lemma Stands.widen {w w' : Bool} {sequence : Bool} {m : Meaning}
    (h : Stands c { s with widen := w } C sequence t m) :
    Stands c s C sequence { t with widen := w' } m := by
  cases m with
  | value n =>
    obtain ⟨D, hD⟩ := h
    refine ⟨D, ?_⟩
    have hback : back s { t with widen := w' } =
        { back { s with widen := w } t with widen := w' } := by
      unfold back
      split <;> rfl
    rw [hback]
    exact hD.widen
  | row a => exact ⟨h.1, h.2.1.widen, h.2.2⟩
  | query r => exact Opened.widen h

lemma ensures_valueOf {m : Meaning} {sequence : Bool} (hs : Ready c s C)
    (hm : Stands c s C sequence t m) :
    Ensures (valueOf m) (back s t) fun n u => ∃ D, Yields c s C [n] D u := by
  cases m with
  | value n => exact ensures_pure.2 hm
  | row a =>
    obtain ⟨-, hyields, -⟩ := hm
    rw [hyields.back_eq]
    exact ensures_add.2 ⟨C, hyields.addValue (by simp [Node.children]) (by simp)⟩
  | query r =>
    obtain ⟨D, hD⟩ := hm.leave hs
    refine ensures_add.2 ⟨D, hD.add (by simp [Node.children]) fun q hq => ?_⟩
    cases hq
    rw [graph_back]
    exact ⟨hm.inside, fun _ => hm.new⟩

section Visit

variable {visit : Visit} (hv : Builds c visit)
include hv

/-- A value leaves the active request as it was. -/
lemma ensures_value {e : Expr} (he : e.receives c = true) (hs : Ready c s C) :
    Ensures (value visit e) s fun n t => ∃ D, Yields c s C [n] D t := by
  rw [value, ensures_get_bind]
  refine (hv e he s C hs).bind fun m t hm => ?_
  have hback := ensures_valueOf hs hm
  unfold back at hback
  split at hback
  · next hactive =>
    simp only [hactive, if_true]
    rw [ensures_bind, ensures_modify]
    exact hback
  · next hactive =>
    simp only [hactive, Bool.false_eq_true, if_false]
    exact hback

end Visit

/-- A condition is a value like another one. -/
lemma ensures_condition (h : Yields c s C ns D t) (hn : n ∈ ns) :
    Ensures (condition n) t fun m u => Yields c s C (m :: ns) D u := by
  rw [condition, ensures_bind, ensures_graph]
  split
  · rw [ensures_bind, ensures_add, ensures_add]
    have htruth := h.addValue (x := .const (.boolean true)) (by simp [Node.children]) (by simp)
    refine (htruth.addValue (fun m hm => ?_) (by simp)).only ?_
    · rcases (by simpa [Node.children] using hm : m = n ∨ m = ⟨t.graph.entries.size⟩) with rfl | rfl
      · exact List.mem_cons_of_mem _ hn
      · exact List.mem_cons_self
    · intro m hm
      rcases List.mem_cons.1 hm with rfl | hm
      · exact List.mem_cons_self
      · exact List.mem_cons_of_mem _ (List.mem_cons_of_mem _ hm)
  · exact ensures_pure.2 (h.insert (h.inside n hn) fun hs => (h.settled hs).2.2 n hn)

/-- A copy is a value like another one. -/
lemma ensures_duplicate (h : Yields c s C ns D t) (e : Expr) (n : NodeId) :
    Ensures (duplicate e n) t fun m u => Yields c s C (m :: ns) D u := by
  rw [duplicate, ensures_bind, ensures_build]
  rcases hrun : (Build.duplicate n).run t.graph with ⟨_ | m, k⟩
  · exact ensures_reject
  · obtain ⟨hbuilt, hfit⟩ := built_duplicate h.ready.opened hrun
    exact ensures_pure.2 ((h.build hbuilt).insert hfit.inside fun _ => hfit.mono h.subset)

/-! ### Members -/

/-- What a member of a row stands for in the active request. -/
def Located (c : Catalog) (s : CompileState) (C : List RequestId) (relates : Bool) (t : CompileState) :
    Meaning → Prop
  | .value n => Yields c s C [n] C t
  | .row a => Yields c s C [] C t ∧ (relates = true → ∀ q, (t.graph.request q).base ≠ some a)
  | .query _ => False

lemma Located.stands {relates : Bool} {m : Meaning} (h : Located c s C relates t m)
    (hs : s.active.isSome = true) : Stands c s C relates t m := by
  cases m with
  | value n =>
    refine ⟨C, ?_⟩
    rw [h.back_eq]
    exact h
  | row a => exact ⟨hs, h⟩
  | query r => exact h.elim

lemma ensures_resolveStep_of_yields (h : Yields c s C [] C t) (hr : r ∈ C) (a : AliasId)
    (p : PropertyRef) :
    Ensures (resolveStep r a p) t fun m u => Located c s C (c.relates p) u m := by
  rw [ensures_resolveStep]
  refine (Mapping.ensures_resolve hr a p h.ready.opened).mono fun x g ⟨hg, hx⟩ => ?_
  rw [h.ready.catalog] at hx
  cases x with
  | value n => exact (h.build hg).insert hx.inside fun _ => hx
  | row b => exact ⟨h.build hg, hx⟩

/-- A path leads from a row to a row or to a value. -/
lemma ensures_follow (e : Expr) (hr : r ∈ C) (path : List PropertyRef) {m : Meaning}
    (hm : Located c s C false t m) :
    Ensures (follow e r m path) t fun m' u => Located c s C false u m' := by
  induction path generalizing m t with
  | nil =>
    have hfollow : follow e r m [] = pure m := by cases m <;> rfl
    rw [hfollow]
    exact ensures_pure.2 hm
  | cons p path ih =>
    cases m with
    | row a =>
      rw [follow]
      refine (ensures_resolveStep_of_yields hm.1 hr a p).bind fun m' u hm' => ih ?_
      cases m' with
      | value n => exact hm'
      | row b => exact ⟨hm'.1, by simp⟩
      | query q => exact hm'
    | value n => exact ensures_reject
    | query q => exact hm.elim

lemma realPath_of_find?_none {paths : PropertyTable (List PropertyRef)} {p : PropertyRef}
    (h : paths.find? p = none) (limit : Nat) : realPath paths limit [p] = [p] := by
  cases limit with
  | zero => rfl
  | succ limit => rw [realPath, h]

/-- A relation to many is no projected member, so it leads to a row that nothing is over. -/
lemma ensures_resolveMember (hs : Ready c s C) (e : Expr) (a : AliasId) (p : PropertyRef) :
    Ensures (resolveMember e a p) s fun m t =>
      s.active.isSome = true ∧ Located c s C (c.relates p) t m := by
  rw [resolveMember, ensures_bind, ensures_active]
  intro r hr
  have hactive : s.active.isSome = true := by rw [hr]; rfl
  have hyields : Yields c s C [] C s := .refl hs
  rw [ensures_get_bind]
  dsimp only
  rw [ensures_get_bind]
  split
  · exact ensures_reject
  · next n _ _ =>
    refine ensures_map.2 ((ensures_duplicate hyields e n).mono fun m u hm => ?_)
    exact ⟨hactive, hm⟩
  · cases hrelates : c.relates p with
    | true =>
      rw [realPath_of_find?_none (hs.paths p hrelates), follow]
      refine (ensures_resolveStep_of_yields hyields (hs.active r hr) a p).bind fun m u hm => ?_
      have hfollow : follow e r m [] = pure m := by cases m <;> rfl
      rw [hrelates] at hm
      rw [hfollow]
      exact ensures_pure.2 ⟨hactive, hm⟩
    | false =>
      refine (ensures_follow e (hs.active r hr) _ (m := .row a) ⟨hyields, by simp⟩).mono ?_
      exact fun m u hm => ⟨hactive, hm⟩

/-! ### Rows -/

lemma ensures_rowOf (e : Expr) (r : RequestId) : Ensures (rowOf e r) s fun _ t => t = s := by
  rw [rowOf, ensures_bind, ensures_graph]
  dsimp only
  split
  · exact ensures_pure.2 rfl
  · exact ensures_reject

/-- A lambda is entered by binding its parameter. -/
lemma ensures_enter (e : Expr) (r : RequestId) (f : Expr) :
    Ensures (enter e r f) s fun body t =>
      (f.receives c = true → body.receives c = true) ∧
        ∃ a p, t = { s with graph := s.graph.bind a p } := by
  unfold enter
  split
  · next ps body =>
    split
    · next p _ =>
      refine (ensures_rowOf e r).bind fun a t ht => ?_
      rw [ht, ensures_bind, ensures_edit, ensures_pure]
      exact ⟨fun h => h, a, p.id, rfl⟩
    · exact ensures_reject
  · exact ensures_reject

/-! ### Collections -/

lemma joinFor?_mem {q : Request} {a : AliasId} {j : Join} (h : q.joinFor? a = some j) :
    j ∈ q.joins ∧ j.source = a := by
  refine ⟨List.mem_of_find?_eq_some h, ?_⟩
  have := List.find?_some h
  simpa using this

/-- A collection moves into a new request, which is active from then on. -/
lemma ensures_hoist (h : Yields c s C [] C t) (hs : s.active.isSome = true) (e : Expr) (a : AliasId) :
    Ensures (hoist e a) t fun r u => Opened c s C r { u with active := some r } := by
  intro r u hrun
  obtain ⟨outer, first, houter, hfirst, rfl, hrest⟩ := runs_hoist.1 hrun
  have hactive : t.active = s.active := (h.settled hs).2.1
  have hmem : outer ∈ C := h.ready.active outer houter
  have hopen := h.ready.opened
  obtain ⟨hjoin, hsource⟩ := joinFor?_mem hfirst
  have horigins : a ∈ (t.graph.request outer).origins :=
    Request.mem_origins.2 (.inr (.inl ⟨first, hjoin, hsource⟩))
  have ha : a.index < t.graph.aliases.size := hopen.source outer a horigins
  have hcondition : t.graph.Fit C first.condition :=
    hopen.fit_of_clause (Request.mem_clauseNodes.2 (.inl ⟨first, hjoin, rfl⟩))
  -- a new request over the collection, once `k` has lost its joins; `l` gets its clauses
  have hdone : ∀ k l : Graph, Built C t.graph k → k.requests.size = t.graph.requests.size →
      (Built (⟨k.requests.size⟩ :: C) (k.addRequest (some outer)).2 (k.openRequest outer a) →
        Built (⟨k.requests.size⟩ :: C) (k.openRequest outer a) l) →
      Opened c s C ⟨t.graph.requests.size⟩
        { t with graph := l, active := some ⟨t.graph.requests.size⟩ } := by
    intro k l hk hsize hl
    have hbase := built_openRequest hk.opened outer (ha.trans_le hk.extension.aliases) fun q hq =>
      hopen.not_mem_of_source horigins ((hk.extension.origin a ha).symm.trans hq)
    have hl := hbase.trans (hl hbase)
    rw [← houter] at hl
    have hopened := Opened.of_new (h.ready.build hk) hl
    rw [← hsize]
    exact hopened.earlier (h.build hk).later hactive
  have hdrop := built_dropJoin hopen hmem a
  cases hvia : (t.graph.aliasOf a).via? with
  | none =>
    rw [hvia] at hrest
    rw [hrest]
    refine hdone _ _ hdrop (size_requests_dropJoin _ _ _) fun hbase => ?_
    have hfit := (hcondition.later hdrop.extension hopen.ordered).inNew hdrop.opened (some outer)
    rw [← size_requests_dropJoin t.graph outer a]
    exact built_andFilter hbase.opened List.mem_cons_self (hfit.later hbase.extension hdrop.opened.ordered)
  | some l =>
    rw [hvia] at hrest
    obtain ⟨last, hlast, hrest⟩ := hrest
    rw [hrest]
    obtain ⟨hjoin', hsource'⟩ := joinFor?_mem hlast
    have horigins' : last.source ∈ ((t.graph.dropJoin outer a).request outer).origins :=
      Request.mem_origins.2 (.inr (.inl ⟨last, hjoin', rfl⟩))
    have hcondition' : (t.graph.dropJoin outer a).Fit C last.condition :=
      hdrop.opened.fit_of_clause (Request.mem_clauseNodes.2 (.inl ⟨last, hjoin', rfl⟩))
    have hdrop' := built_dropJoin hdrop.opened hmem l
    have hsize : ((t.graph.dropJoin outer a).dropJoin outer l).requests.size = t.graph.requests.size := by
      simp
    generalize (t.graph.dropJoin outer a).dropJoin outer l = k at hdrop' hsize ⊢
    refine hdone k _ (hdrop.trans hdrop') hsize fun hbase => ?_
    have hfirst := ((hcondition.later hdrop.extension hopen.ordered).later hdrop'.extension
      hdrop.opened.ordered).inNew hdrop'.opened (some outer)
    have hsecond := (hcondition'.later hdrop'.extension hdrop.opened.ordered).inNew hdrop'.opened
      (some outer)
    have hlt := hdrop.opened.source outer _ horigins'
    have horigin' := hdrop'.opened.not_mem_new fun q hq =>
      hdrop.opened.not_mem_of_source horigins' ((hdrop'.extension.origin _ hlt).symm.trans hq)
    rw [← hsize]
    have hpush := built_pushJoin hbase.opened List.mem_cons_self
      (j := ⟨last.source, .inner, first.condition⟩)
      (hfirst.later hbase.extension hdrop'.opened.ordered)
      (hlt.trans_le hdrop'.extension.aliases) horigin'
    have hsecond := (hsecond.later hbase.extension hdrop'.opened.ordered).later hpush.extension
      hbase.opened.ordered
    exact hpush.trans (built_andFilter hpush.opened List.mem_cons_self hsecond)

section Receiver

variable {visit : Visit} (hv : Builds c visit)
include hv

lemma ensures_rowValue {e : Expr} (he : e.receives c = true) (hs : Ready c s C) :
    Ensures (rowValue visit e) s fun _ t => s.active.isSome = true ∧ Yields c s C [] C t := by
  refine (hv e he s C hs).bind fun m t hm => ?_
  cases m with
  | row a => exact ensures_pure.2 ⟨hm.1, hm.2.1⟩
  | value n => exact ensures_reject
  | query r => exact ensures_reject

/-- An operator works on a request of its own: nothing is over the row of a relation to many, so it
moves into a new request. -/
theorem ensures_receiver {e arg : Expr} (harg : arg.receives c = true)
    (hsequence : arg.isSequence c = true) (hs : Ready c s C) :
    Ensures (receiver visit e arg) s fun r u => Opened c s C r { u with active := some r } := by
  refine (hv arg harg s C hs).bind fun m t hm => ?_
  cases m with
  | query r =>
    refine ensures_pure.2 ?_
    have hsame : { t with active := some r } = t := by
      rw [← Opened.active hm]
    rw [hsame]
    exact hm
  | row a =>
    obtain ⟨hactive, hyields, hbase⟩ := hm
    rw [ensures_bind, ensures_active]
    intro r hr
    rw [ensures_bind, ensures_graph, requestOver?_eq_none (hbase hsequence)]
    exact ensures_hoist hyields hactive e a
  | value n => exact ensures_reject

end Receiver

end Compile

end EntityQuery
