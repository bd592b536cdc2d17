import EntityQuery.Proofs.Ownership.Copies
import EntityQuery.Proofs.Ownership.Resolve

/-!
Loose nodes while expressions are compiled.

* `Since s L t`: steps that lead from the state `s` to `t`, after which the nodes `L` are loose.
* `Found s L t m`: what an expression stands for is one more loose node, or a source or a request of
  the graph. `Tends`: a rule under which every expression does, whatever nodes are loose before it.
-/

namespace EntityQuery

open Sql Graph

namespace Compile

variable {s t u : CompileState} {L M : List NodeId} {r : RequestId} {n : NodeId}

/-! ### States -/

/-- A tidy graph, of which the active request is one. -/
structure Steady (s : CompileState) (L : List NodeId) : Prop where
  tidy : s.graph.Tidy L
  active : ∀ r, s.active = some r → r.index < s.graph.requests.size

/-- Steps from one state to another one, after which some nodes are loose. -/
structure Since (s : CompileState) (L : List NodeId) (t : CompileState) : Prop where
  graph : Tended s.graph L t.graph
  active : ∀ r, t.active = some r → r.index < t.graph.requests.size

namespace Since

lemma refl (hs : Steady s L) : Since s L s := ⟨.refl hs.tidy, hs.active⟩

lemma trans (hst : Since s L t) (htu : Since t M u) : Since s M u :=
  ⟨hst.graph.trans htu.graph, htu.active⟩

lemma steady (h : Since s L t) : Steady t L := ⟨h.graph.tidy, h.active⟩

lemma only (h : Since s L t) (hM : M.Subperm L) : Since s M t := ⟨h.graph.only hM, h.active⟩

lemma request (h : Since s L t) (hr : r.index < s.graph.requests.size) :
    r.index < t.graph.requests.size := hr.trans_le h.graph.grows.requests

lemma source (h : Since s L t) {a : AliasId} (ha : a.index < s.graph.aliases.size) :
    a.index < t.graph.aliases.size := ha.trans_le h.graph.grows.aliases

lemma build (h : Since s L t) {k : Graph} (hk : Tended t.graph M k) :
    Since s M { t with graph := k } where
  graph := h.graph.trans hk
  active r hr := (h.active r hr).trans_le hk.grows.requests

/-- Another request is active. -/
lemma activate (h : Since s L t) {active : Option RequestId}
    (hactive : ∀ r, active = some r → r.index < t.graph.requests.size) :
    Since s L { t with active } := ⟨h.graph, hactive⟩

end Since

namespace Steady

lemma build (hs : Steady s L) {k : Graph} (hk : Tended s.graph M k) :
    Since s M { s with graph := k } := (Since.refl hs).build hk

lemma activate (hs : Steady s L) (hr : r.index < s.graph.requests.size) :
    Steady { s with active := some r } L := by
  refine ⟨hs.tidy, fun q hq => ?_⟩
  cases hq
  exact hr

lemma widen (hs : Steady s L) (w : Bool) : Steady { s with widen := w } L := ⟨hs.tidy, hs.active⟩

end Steady

/-! ### Meanings -/

/-- What an expression stands for, after steps from a state. -/
def Found (s : CompileState) (L : List NodeId) (t : CompileState) : Meaning → Prop
  | .value n => Since s (n :: L) t
  | .row a => Since s L t ∧ a.index < t.graph.aliases.size
  | .query r => Since s L t ∧ r.index < t.graph.requests.size

/-- A rule under which an expression stands for a loose node, a source or a request. -/
def Tends (visit : Visit) : Prop :=
  ∀ e s L, Steady s L → Ensures (visit e) s fun m t => Found s L t m

namespace Found

variable {m : Meaning}

lemma earlier (hst : Since s L t) (h : Found t L u m) : Found s L u m := by
  cases m with
  | value n => exact hst.trans h
  | row a => exact ⟨hst.trans h.1, h.2⟩
  | query r => exact ⟨hst.trans h.1, h.2⟩

/-- What steps after some others find. -/
lemma after (hst : Since s L t) {x : Compile Meaning}
    (hx : Ensures x t fun m u => Found t L u m) : Ensures x t fun m u => Found s L u m :=
  hx.mono fun _ _ hm => hm.earlier hst

lemma activate (h : Found s L t m) {active : Option RequestId}
    (hactive : ∀ r, active = some r → r.index < s.graph.requests.size) :
    Found s L { t with active } m := by
  have hlater : ∀ M, Since s M t → Since s M { t with active } := fun M ht =>
    ht.activate fun r hr => ht.request (hactive r hr)
  cases m with
  | value n => exact hlater _ h
  | row a => exact ⟨hlater _ h.1, h.2⟩
  | query r => exact ⟨hlater _ h.1, h.2⟩

/-- Only the graph and the active request play a part. -/
lemma congr {s' t' : CompileState} (h : Found s L t m) (hs : s'.graph = s.graph)
    (ht : t'.graph = t.graph) (hactive : t'.active = t.active) : Found s' L t' m := by
  have hsame : ∀ M, Since s M t → Since s' M t' := by
    intro M hst
    refine ⟨?_, ?_⟩
    · rw [hs, ht]
      exact hst.graph
    · rw [hactive, ht]
      exact hst.active
  cases m with
  | value n => exact hsame _ h
  | row a => exact ⟨hsame _ h.1, by rw [ht]; exact h.2⟩
  | query r => exact ⟨hsame _ h.1, by rw [ht]; exact h.2⟩

end Found

/-! ### Nodes -/

/-- A node that reads no source and no request takes its children. -/
lemma tends_operator {x : Node} (h : Since s (x.children ++ L) t) (hsource : x.source? = none)
    (hsub : ∀ q, x ≠ .sub q) : Ensures (add x) t fun n u => Since s (n :: L) u :=
  ensures_add.2 (h.build (tended_operator h.graph.tidy hsource hsub))

lemma tends_column (h : Since s L t) {a : AliasId} (ha : a.index < t.graph.aliases.size) (c : String) :
    Ensures (add (.column a c)) t fun n u => Since s (n :: L) u :=
  ensures_add.2 (h.build (tended_column h.graph.tidy ha c))

lemma tends_sub (h : Since s L t) (hr : r.index < t.graph.requests.size) :
    Ensures (add (.sub r)) t fun n u => Since s (n :: L) u := by
  refine ensures_add.2 (h.build (tended_add (x := .sub r) h.graph.tidy ⟨by simp [Node.source?], ?_⟩))
  intro q hq
  cases hq
  exact hr

lemma tends_valueOf {m : Meaning} (h : Found s L t m) :
    Ensures (valueOf m) t fun n u => Since s (n :: L) u := by
  cases m with
  | value n => exact ensures_pure.2 h
  | row a => exact ensures_add.2 (h.1.build (tended_row h.1.graph.tidy h.2))
  | query r => exact tends_sub h.1 h.2

lemma tends_condition (h : Since s (n :: L) t) :
    Ensures (condition n) t fun m u => Since s (m :: L) u := by
  rw [condition, ensures_bind, ensures_graph]
  split
  · refine (tends_operator (x := .const (.boolean true)) h rfl (by simp)).bind fun truth u hu => ?_
    have hboth := hu.only ((List.reverse_perm [truth, n]).append_right L).subperm
    exact tends_operator (x := .binary .equal n truth) hboth rfl (by simp)
  · exact ensures_pure.2 h

lemma tends_duplicate (h : Since s L t) (e : Expr) (n : NodeId) :
    Ensures (duplicate e n) t fun m u => Since s (m :: L) u := by
  rw [duplicate, ensures_bind, ensures_build]
  rcases hrun : (Build.duplicate n).run t.graph with ⟨_ | m, k⟩
  · exact ensures_reject
  · exact ensures_pure.2 (h.build (tended_duplicate h.graph.tidy hrun))

/-! ### Requests -/

lemma tends_addRequest (h : Since s L t) {parent : Option RequestId}
    (hparent : ∀ p, parent = some p → p.index < t.graph.requests.size) :
    Ensures (Compile.build (Build.addRequest parent)) t fun r u =>
      Since s L u ∧ r.index < u.graph.requests.size := by
  refine ensures_build.2 ⟨h.build (tended_addRequest h.graph.tidy hparent), ?_⟩
  show t.graph.requests.size < (t.graph.addRequest parent).2.requests.size
  rw [size_requests_addRequest]
  exact Nat.lt_succ_self _

lemma tends_addAlias (h : Since s L t) {d : Alias} (hd : d.Inside t.graph) :
    Ensures (Compile.build (Build.addAlias d)) t fun a u =>
      Since s L u ∧ a.index < u.graph.aliases.size := by
  refine ensures_build.2 ⟨h.build (tended_addAlias h.graph.tidy hd), ?_⟩
  show t.graph.aliases.size < (t.graph.addAlias d).2.aliases.size
  rw [size_aliases_addAlias]
  exact Nat.lt_succ_self _

/-- A request changes, but takes no node. -/
lemma tends_editRequest {f : Request → Request} (h : Since s L t)
    (hr : r.index < t.graph.requests.size) (hf : (f (t.graph.request r)).Inside t.graph)
    (hclause : (f (t.graph.request r)).clauseNodes.Subperm (t.graph.request r).clauseNodes) :
    Ensures (editRequest r f) t fun _ u => Since s L u :=
  ensures_editRequest.2 (h.build (tended_modifyRequest h.graph.tidy hr hf hclause))

/-- What a request says besides its clauses and sources plays no part. -/
lemma tends_amend {f : Request → Request} (h : Since s L t) (hr : r.index < t.graph.requests.size)
    (hf : (t.graph.request r).Inside t.graph → (f (t.graph.request r)).Inside t.graph)
    (hclause : (f (t.graph.request r)).clauseNodes = (t.graph.request r).clauseNodes) :
    Ensures (editRequest r f) t fun _ u => Since s L u :=
  tends_editRequest h hr (hf (h.graph.tidy.closed.request r)) (hclause ▸ (List.Perm.refl _).subperm)

/-- A request gets a base. -/
lemma tends_setBase {f : Request → Request} (h : Since s L t) (hr : r.index < t.graph.requests.size)
    {a : AliasId} (ha : a.index < t.graph.aliases.size)
    (hf : ∀ q, (f q).parent = q.parent ∧ (f q).base = some a ∧ (f q).joins = q.joins ∧
      (f q).target = q.target ∧ (f q).clauseNodes = q.clauseNodes) :
    Ensures (editRequest r f) t fun _ u => Since s L u := by
  obtain ⟨hparent, hbase, hjoins, htarget, hclause⟩ := hf (t.graph.request r)
  obtain ⟨hinside, horigins⟩ := h.graph.tidy.closed.request r
  refine tends_editRequest h hr ⟨fun p hp => hinside p (hparent ▸ hp), fun b hb => ?_⟩
    (hclause ▸ (List.Perm.refl _).subperm)
  rw [Request.mem_origins, hbase, hjoins, htarget] at hb
  rcases hb with hb | hb
  · cases hb
    exact ha
  · exact horigins b (Request.mem_origins.2 (.inr hb))

lemma tends_setActive (h : Since s L t) (hr : r.index < t.graph.requests.size) :
    Ensures (setActive r) t fun _ u => Since s L u := by
  refine ensures_setActive.2 (h.activate fun q hq => ?_)
  cases hq
  exact hr

lemma tends_project (h : Since s L t) (hr : r.index < t.graph.requests.size) (type : TypeRef) :
    Ensures (editRequest r ({ · with projection := some type })) t fun _ u => Since s L u :=
  tends_amend h hr (fun hq => hq) rfl

lemma tends_pushItem {i : Item} (h : Since s (i.node :: L) t) (hr : r.index < t.graph.requests.size) :
    Ensures (edit (·.pushItem r i)) t fun _ u => Since s L u :=
  ensures_edit.2 (h.build (tended_pushItem h.graph.tidy hr))

/-- The selected values are replaced by a loose node. -/
lemma tends_selectOnly {i : Item} (h : Tended t.graph (i.node :: L) (t.graph.clearItems r))
    (hst : Since s M t) (hr : r.index < t.graph.requests.size) :
    Ensures (edit fun g => (g.clearItems r).pushItem r i) t fun _ u => Since s L u :=
  ensures_edit.2 (hst.build (h.trans (tended_pushItem h.tidy (hr.trans_le h.grows.requests))))

/-- A loose node stays loose when other values are no longer selected. -/
lemma Since.clearItems (h : Since s L t) (hr : r.index < t.graph.requests.size) :
    Tended t.graph L (t.graph.clearItems r) :=
  (tended_clearItems h.graph.tidy hr).only (List.sublist_append_right _ _).subperm

lemma tends_leave (h : Since s L t) (r : RequestId) :
    Ensures (leave r) t fun _ u => Since s L u := by
  rw [ensures_leave]
  split
  · next outer houter =>
    refine h.activate fun q hq => ?_
    cases hq
    exact (h.graph.tidy.closed.request r).1 outer houter
  · exact h

/-! ### Values -/

section Visit

variable {visit : Visit} (hv : Tends visit)
include hv

lemma tends_value (hs : Steady s L) (e : Expr) :
    Ensures (value visit e) s fun n t => Since s (n :: L) t := by
  rw [value, ensures_get_bind]
  refine (hv e s L hs).bind fun m t hm => ?_
  dsimp only
  split
  · rw [ensures_bind, ensures_modify]
    exact tends_valueOf (hm.activate hs.active)
  · exact tends_valueOf hm

lemma tends_rowValue (hs : Steady s L) (e : Expr) :
    Ensures (rowValue visit e) s fun a t => Since s L t ∧ a.index < t.graph.aliases.size := by
  refine (hv e s L hs).bind fun m t hm => ?_
  cases m with
  | row a => exact ensures_pure.2 hm
  | value n => exact ensures_reject
  | query r => exact ensures_reject

end Visit

/-! ### Members -/

lemma tends_resolveStep (hs : Steady s L) (hr : r.index < s.graph.requests.size) {a : AliasId}
    (ha : a.index < s.graph.aliases.size) (p : PropertyRef) :
    Ensures (resolveStep r a p) s fun m t => Found s L t m := by
  rw [ensures_resolveStep]
  refine (Mapping.tended_resolve p hr ha hs.tidy).mono fun x g hx => ?_
  cases x with
  | value n => exact hs.build hx
  | row b => exact ⟨hs.build hx.1, hx.2⟩

lemma tends_follow (e : Expr) (hr : r.index < s.graph.requests.size) (path : List PropertyRef)
    {m : Meaning} (h : Found s L t m) :
    Ensures (follow e r m path) t fun m' u => Found s L u m' := by
  induction path generalizing m t with
  | nil =>
    have hfollow : follow e r m [] = pure m := by cases m <;> rfl
    rw [hfollow]
    exact ensures_pure.2 h
  | cons p path ih =>
    cases m with
    | row a =>
      obtain ⟨ht, ha⟩ := h
      rw [follow]
      refine (tends_resolveStep ht.steady (ht.request hr) ha p).bind fun m u hm => ?_
      exact ih (hm.earlier ht)
    | value n => exact ensures_reject
    | query q => exact ensures_reject

lemma tends_resolveMember (hs : Steady s L) (e : Expr) {a : AliasId}
    (ha : a.index < s.graph.aliases.size) (p : PropertyRef) :
    Ensures (resolveMember e a p) s fun m t => Found s L t m := by
  rw [resolveMember, ensures_bind, ensures_active]
  intro r hr
  rw [ensures_get_bind]
  dsimp only
  rw [ensures_get_bind]
  split
  · exact ensures_reject
  · next n _ _ => exact ensures_map.2 (tends_duplicate (.refl hs) e n)
  · exact tends_follow e (hs.active r hr) _ (m := .row a) ⟨.refl hs, ha⟩

/-! ### Rows -/

/-- The row of a request is a source of the graph. -/
lemma tends_rowOf (hs : Steady s L) (e : Expr) (r : RequestId) :
    Ensures (rowOf e r) s fun a t => t = s ∧ a.index < s.graph.aliases.size := by
  rw [rowOf, ensures_bind, ensures_graph]
  dsimp only
  split
  · next a ha =>
    refine ensures_pure.2 ⟨rfl, ?_⟩
    rcases (Option.orElse_eq_some _ _ _).1 ha with hrow | ⟨-, hbase⟩
    · split at hrow
      · next i _ =>
        split at hrow
        · next b hb =>
          split at hrow
          · cases hrow
          · cases hrow
            exact (hs.tidy.closed.node i.node).1 a (by rw [hb]; rfl)
        · cases hrow
      · cases hrow
    · exact (hs.tidy.closed.request r).2 a (Request.mem_origins.2 (.inl hbase))
  · exact ensures_reject

lemma tends_enter (hs : Steady s L) (e : Expr) (r : RequestId) (f : Expr) :
    Ensures (enter e r f) s fun _ t => Since s L t := by
  unfold enter
  split
  · split
    · next p _ =>
      refine (tends_rowOf hs e r).bind fun a t ⟨ht, _⟩ => ?_
      rw [ht, ensures_bind, ensures_edit, ensures_pure]
      exact hs.build (tended_bind hs.tidy a p.id)
    · exact ensures_reject
  · exact ensures_reject

/-! ### Collections -/

lemma requestOver?_inside {g : Graph} {a : AliasId} {r q : RequestId}
    (hq : g.requestOver? r a = some q) : q.index < g.requests.size := by
  have hbase : (g.request q).base = some a := by
    unfold requestOver? enclosing? at hq
    generalize g.requests.size + 1 = fuel at hq
    induction fuel generalizing r with
    | zero => cases hq
    | succ fuel ih =>
      rw [enclosingWithin] at hq
      split at hq
      · next hr =>
        cases hq
        simpa using hr
      · split at hq
        · exact ih hq
        · cases hq
  by_contra hle
  rw [request_of_size_le (Nat.not_lt.1 hle)] at hbase
  cases hbase

/-- A new request over a source. -/
lemma tended_openRequest {g : Graph} (hg : g.Tidy L) {outer : RequestId} {a : AliasId}
    (houter : outer.index < g.requests.size) (ha : a.index < g.aliases.size) :
    Tended g L (g.openRequest outer a) := by
  have hadd : Tended g L (g.addRequest (some outer)).2 := by
    refine tended_addRequest hg fun p hp => ?_
    cases hp
    exact houter
  refine hadd.trans (tended_modifyRequest hadd.tidy (by simp) ?_ (List.Perm.refl _).subperm)
  rw [request_addRequest_self]
  refine ⟨fun p hp => ?_, fun b hb => ?_⟩
  · cases hp
    exact houter.trans_le hadd.grows.requests
  · rw [Request.mem_origins] at hb
    rcases hb with hb | ⟨j, hj, -⟩ | hb
    · cases hb
      exact ha
    · cases hj
    · cases hb

/-- A collection moves into a new request, with the conditions of its joins. -/
lemma tends_hoist (hs : Steady s L) (e : Expr) (a : AliasId) :
    Ensures (hoist e a) s fun r t => Since s L t ∧ r.index < t.graph.requests.size := by
  intro r t hrun
  obtain ⟨outer, first, houter, hfirst, rfl, hrest⟩ := runs_hoist.1 hrun
  have hactive := hs.active outer houter
  have hsource : first.source = a := by simpa using List.find?_some hfirst
  obtain ⟨hdrop, ha⟩ := tended_dropJoin hs.tidy hactive hfirst
  rw [hsource] at ha
  -- once `k` has lost the joins, a new request takes their conditions
  have hdone : ∀ (k l : Graph) M, Tended s.graph M k → k.requests.size = s.graph.requests.size →
      (Tended k M (k.openRequest outer a) → Tended (k.openRequest outer a) L l) →
      Since s L { s with graph := l } ∧ s.graph.requests.size < l.requests.size := by
    intro k l M hk hsize hl
    have hopen : Tended k M (k.openRequest outer a) :=
      tended_openRequest hk.tidy (hsize ▸ hactive) (ha.trans_le hk.grows.aliases)
    have hl := hl hopen
    refine ⟨hs.build (hk.trans (hopen.trans hl)), ?_⟩
    have hlt : k.requests.size < (k.openRequest outer a).requests.size := by simp
    rw [← hsize]
    exact hlt.trans_le hl.grows.requests
  cases hvia : (s.graph.aliasOf a).via? with
  | none =>
    rw [hvia] at hrest
    rw [hrest]
    refine hdone _ _ _ hdrop (size_requests_dropJoin _ _ _) fun hopen => ?_
    exact tended_andFilter hopen.tidy (by simp)
  | some l =>
    rw [hvia] at hrest
    obtain ⟨last, hlast, hrest⟩ := hrest
    rw [hrest]
    obtain ⟨hdrop', hlink⟩ := tended_dropJoin hdrop.tidy (by simpa using hactive) hlast
    have hsize : ((s.graph.dropJoin outer a).dropJoin outer l).requests.size =
        s.graph.requests.size := by simp
    have hboth := (hdrop.trans hdrop').only (.swap _ _ _ : List.Perm _ _).subperm
    refine hdone _ _ _ hboth hsize fun hopen => ?_
    have hpush := tended_pushJoin (r := ⟨s.graph.requests.size⟩)
      (j := ⟨last.source, .inner, first.condition⟩) hopen.tidy (by simp) ?_
    · exact hpush.trans (tended_andFilter hpush.tidy (hpush.grows.requests.trans_lt' (by simp)))
    · exact (hlink.trans_le hdrop'.grows.aliases).trans_le hopen.grows.aliases

section Visit

variable {visit : Visit} (hv : Tends visit)
include hv

lemma tends_receiver (hs : Steady s L) (e arg : Expr) :
    Ensures (receiver visit e arg) s fun r t => Since s L t ∧ r.index < t.graph.requests.size := by
  refine (hv arg s L hs).bind fun m t hm => ?_
  cases m with
  | query r => exact ensures_pure.2 hm
  | row a =>
    obtain ⟨ht, -⟩ := hm
    rw [ensures_bind, ensures_active]
    intro r _
    rw [ensures_bind, ensures_graph]
    split
    · next q hq => exact ensures_pure.2 ⟨ht, requestOver?_inside hq⟩
    · refine (tends_hoist ht.steady e a).mono fun q u ⟨hu, hq⟩ => ?_
      exact ⟨ht.trans hu, hq⟩
  | value n => exact ensures_reject

lemma tends_openReceiver (hs : Steady s L) (e arg : Expr) :
    Ensures (openReceiver visit e arg) s fun r t => Since s L t ∧ r.index < t.graph.requests.size := by
  refine (tends_receiver hv hs e arg).bind fun r t ⟨ht, hr⟩ => ?_
  refine (tends_setActive (.refl ht.steady) hr).bind fun _ u hu => ensures_pure.2 ?_
  exact ⟨ht.trans hu, hu.request hr⟩

end Visit

end Compile

end EntityQuery
