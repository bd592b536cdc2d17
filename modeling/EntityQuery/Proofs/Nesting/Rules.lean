import EntityQuery.Compile.Chain
import EntityQuery.Proofs.Nesting.Scope

/-!
Rules for values and for operators on rows, while requests are being built.

* A value is compiled from values; it may be put into the requests that are being built.
* An operator opens the request of its receiver, and what it puts there holds none of them.
-/

namespace EntityQuery.Compile

open Sql Graph

variable {c : Catalog} {s t u : CompileState} {C D : List RequestId} {r : RequestId} {n : NodeId}
  {ns : List NodeId} {sequence : Bool}

/-! ### Meanings -/

lemma Yields.stands (h : Yields c s C (n :: ns) D t) : Stands c s C sequence t (.value n) := by
  refine ⟨D, ?_⟩
  rw [h.back_eq]
  exact h.only (by simp)

lemma Stands.weaken {m : Meaning} (h : Stands c s C sequence t m) : Stands c s C false t m := by
  cases m with
  | value n => exact h
  | row a => exact ⟨h.1, h.2.1, by simp⟩
  | query r => exact h

lemma Ready.widen (hs : Ready c s C) (w : Bool) : Ready c { s with widen := w } C :=
  ⟨hs.opened, hs.closed, hs.active, hs.catalog, hs.paths⟩

/-- What stands for something with navigations that keep rows does so with others. -/
lemma ensures_widening_stands {x : Compile Meaning} {w : Bool}
    (h : Ensures x { s with widen := w } fun m t => Stands c { s with widen := w } C sequence t m) :
    Ensures (widening w x) s fun m t => Stands c s C sequence t m :=
  ensures_widening.2 (h.mono fun _ _ hm => hm.widen)

lemma Located.earlier {relates : Bool} {m : Meaning} (hst : Yields c s C [] C t)
    (h : Located c t C relates u m) : Located c s C relates u m := by
  cases m with
  | value n => exact hst.trans h
  | row a => exact ⟨hst.trans h.1, h.2⟩
  | query r => exact h

lemma ensures_valueOf_located {relates : Bool} {m : Meaning} (h : Located c s C relates t m) :
    Ensures (valueOf m) t fun n u => Yields c s C [n] C u := by
  cases m with
  | value n => exact ensures_pure.2 h
  | row a => exact ensures_add.2 (h.1.addValue (by simp [Node.children]) (by simp))
  | query r => exact h.elim

/-! ### Open requests -/

/-- Steps within the request that is active already. -/
lemma ensures_within_self {α : Type} {x : Compile α} {Q : α → CompileState → Prop}
    (ht : t.active = some r) (hx : Ensures x t fun a u => u.active = some r ∧ Q a u) :
    Ensures (within r x) t Q := by
  have hsame : ∀ v : CompileState, v.active = some r → { v with active := some r } = v := by
    intro v hv
    rw [← hv]
  rw [ensures_within, hsame t ht, ht]
  refine hx.mono fun a u ⟨hu, hQ⟩ => ?_
  rw [hsame u hu]
  exact hQ

namespace Opened

/-- An open request changes without a new value or source. -/
lemma amend (h : Opened c s C r t) {f : Request → Request}
    (hframe : (f (t.graph.request r)).parent = (t.graph.request r).parent ∧
      (f (t.graph.request r)).base = (t.graph.request r).base ∧
      (f (t.graph.request r)).target = (t.graph.request r).target ∧
      (f (t.graph.request r)).joins = (t.graph.request r).joins)
    (hclause : ∀ n ∈ (f (t.graph.request r)).clauseNodes, n ∈ (t.graph.request r).clauseNodes) :
    Opened c s C r { t with graph := t.graph.modifyRequest r f } := by
  obtain ⟨hparent, hbase, htarget, hjoins⟩ := hframe
  refine h.build (.amend h.ready.opened List.mem_cons_self ⟨hparent, hbase, htarget, fun j hj => ?_⟩
    fun n hn => .inl (hclause n hn))
  rw [hjoins] at hj
  exact ⟨j, hj, rfl⟩

/-- The selected values are replaced by one value. -/
lemma selectOnly (h : Opened c s C r t) {i : Item} (hi : t.graph.Fit (r :: C) i.node) :
    Opened c s C r { t with graph := (t.graph.clearItems r).pushItem r i } := by
  have hclear := built_clearItems h.ready.opened (List.mem_cons_self (a := r) (l := C))
  exact h.build (hclear.trans (built_pushItem hclear.opened List.mem_cons_self
    (hi.later hclear.extension h.ready.opened.ordered)))

lemma ensures_selectOnly (h : Opened c s C r t) {i : Item} (hi : t.graph.Fit (r :: C) i.node) :
    Ensures (edit fun g => (g.clearItems r).pushItem r i) t fun _ u => Opened c s C r u :=
  ensures_edit.2 (h.selectOnly hi)

lemma ensures_project (h : Opened c s C r t) (type : TypeRef) :
    Ensures (editRequest r ({ · with projection := some type })) t fun _ u => Opened c s C r u :=
  ensures_editRequest.2 (h.amend ⟨rfl, rfl, rfl, rfl⟩ fun _ hn => hn)

lemma ensures_leave_iff (h : Opened c s C r t) {Q : Unit → CompileState → Prop} :
    Ensures (Compile.leave r) t Q ↔ Q () (back s t) := by
  rw [ensures_leave, h.parent, back]
  cases hs : s.active with
  | none => simp
  | some outer => simp

/-- An open request as a value. -/
lemma yields_sub (h : Opened c s C r t) (hs : Ready c s C) :
    ∃ D, Yields c s C [⟨t.graph.entries.size⟩] D
      { back s t with graph := (t.graph.add (.sub r)).2 } := by
  obtain ⟨D, hD⟩ := h.leave hs
  have hsub := hD.add (x := .sub r) (by simp [Node.children]) fun q hq => by
    cases hq
    rw [graph_back]
    exact ⟨h.inside, fun _ => h.new⟩
  rw [graph_back] at hsub
  exact ⟨D, hsub⟩

/-- An open request is left and becomes a value. -/
lemma ensures_sub (h : Opened c s C r t) (hs : Ready c s C) :
    Ensures (do Compile.leave r; Meaning.value <$> add (.sub r)) t fun m u =>
      Stands c s C sequence u m := by
  rw [ensures_bind, h.ensures_leave_iff, ensures_map, ensures_add, graph_back]
  obtain ⟨D, hD⟩ := h.yields_sub hs
  exact hD.stands

end Opened

/-! ### Sources and constants -/

lemma ensures_source (hs : Ready c s C) (entity : String) :
    Ensures (source entity) s fun m t => Stands c s C sequence t m := by
  refine ensures_source_iff.2 fun table _ => ?_
  have hopen := hs.opened.addRequest s.active
  have hadd := Built.addAlias hopen
    (d := .ofTable table entity (s.mapping.catalog.idColumn entity).toOption) (by simp [Alias.ofTable])
  refine Opened.of_new hs (hadd.trans (built_setBase hadd.opened List.mem_cons_self ?_ ?_ ?_
    ⟨rfl, rfl, rfl, rfl, rfl⟩))
  · change s.graph.aliases.size < _
    rw [size_aliases_addAlias]
    exact Nat.lt_succ_self _
  · intro q hq
    change ((((s.graph.addRequest s.active).2.addAlias _).2.aliasOf
      ⟨(s.graph.addRequest s.active).2.aliases.size⟩).origin) = _ at hq
    rw [aliasOf_addAlias_self] at hq
    cases hq
  · change ((s.graph.addRequest s.active).2.request ⟨s.graph.requests.size⟩).target = none ∧
      ((s.graph.addRequest s.active).2.request ⟨s.graph.requests.size⟩).base = none
    rw [request_addRequest_self]
    exact ⟨rfl, rfl⟩

lemma ensures_constant (hs : Ready c s C) (e : Expr) (l : Literal) :
    Ensures (constant e l) s fun m t => Stands c s C sequence t m := by
  have hconst : ∀ v, Ensures (Meaning.value <$> add (.const v)) s fun m t =>
      Stands c s C sequence t m := by
    intro v
    rw [ensures_map, ensures_add]
    exact ((Yields.refl hs).addValue (by simp [Node.children]) (by simp)).stands
  exact ensures_constant_of e l hconst

lemma ensures_parameter (hs : Ready c s C) (e : Expr) (p : Param) :
    Ensures (parameter e p) s fun m t => Stands c s C false t m := by
  refine ensures_parameter_of e p fun r a hr _ => ⟨?_, .refl hs, by simp⟩
  rw [hr]
  rfl

section Visit

variable {visit : Visit} (hv : Builds c visit)
include hv

/-! ### Grouping keys -/

lemma ensures_groupingKeys {grouping : Expr} (hg : grouping.receives c = true) (hs : Ready c s C)
    (e : Expr) :
    Ensures (groupingKeys visit e grouping) s fun _ t =>
      s.active.isSome = true ∧ Yields c s C [] C t := by
  refine (ensures_rowValue hv hg hs).bind fun a t ht => ?_
  rw [ensures_bind, ensures_active]
  intro r _
  rw [ensures_bind, ensures_graph]
  dsimp only
  split
  · exact ensures_pure.2 ht
  · exact ensures_reject

lemma ensures_key {grouping : Expr} (hg : grouping.receives c = true) (hs : Ready c s C) (e : Expr) :
    Ensures (key visit e grouping) s fun m t => Stands c s C sequence t m := by
  refine (ensures_groupingKeys hv hg hs e).bind fun keys t ht => ?_
  split
  · exact ensures_map.2 ((ensures_duplicate ht.2 e _).mono fun m u hm => hm.stands)
  · exact ensures_reject

lemma ensures_keyMember {grouping : Expr} (hg : grouping.receives c = true) (hs : Ready c s C)
    (e : Expr) (p : PropertyRef) :
    Ensures (keyMember visit e grouping p) s fun m t => Stands c s C sequence t m := by
  refine (ensures_groupingKeys hv hg hs e).bind fun keys t ⟨_, ht⟩ => ?_
  split
  · exact ensures_map.2 ((ensures_duplicate ht e _).mono fun m u hm => hm.stands)
  · split
    · rw [ensures_bind, ensures_graph]
      split
      · refine (ensures_resolveMember ht.ready e _ p).bind fun m u ⟨_, hm⟩ => ?_
        refine ensures_map.2 ((ensures_valueOf_located hm).mono fun n w hn => ?_)
        exact (ht.trans hn).stands
      · exact ensures_reject
    · exact ensures_reject

/-! ### Members -/

omit hv in
lemma ensures_memberOfQuery (hs : Ready c s C) (h : Opened c s C r t) (e : Expr) (p : PropertyRef) :
    Ensures (memberOfQuery e r p) t fun m u => Stands c s C sequence u m := by
  refine (ensures_rowOf e r).bind fun a t' ht' => ?_
  rw [ht']
  have hlocated : Ensures (resolveMember e a p) t fun m u =>
      u.active = some r ∧ Located c t (r :: C) (c.relates p) u m := by
    refine (ensures_resolveMember h.ready e a p).mono fun m u ⟨hactive, hm⟩ => ⟨?_, hm⟩
    rw [← h.active]
    cases m with
    | value n => exact (hm.settled hactive).2.1
    | row b => exact (hm.1.settled hactive).2.1
    | query q => exact hm.elim
  refine (ensures_within_self h.active hlocated).bind fun m u hm => ?_
  refine (ensures_valueOf_located hm).bind fun n w hn => ?_
  obtain ⟨hw, hfit⟩ := h.yields hn
  refine (hw.ensures_selectOnly (i := { node := n }) (hfit n List.mem_cons_self)).bind fun _ x hx => ?_
  exact (hx.ensures_project p.type).bind fun _ y hy => hy.ensures_sub hs

lemma ensures_member {target : Expr} (ht : target.receives c = true) (hs : Ready c s C) (e : Expr)
    (p : PropertyRef) :
    Ensures (member visit e target p) s fun m t => Stands c s C (c.relates p) t m := by
  unfold member
  split
  · next grouping =>
    rw [Expr.receives] at ht
    exact ensures_keyMember hv ht hs e p
  · refine (hv target ht s C hs).bind fun m t hm => ?_
    cases m with
    | row a =>
      obtain ⟨hactive, hyields, -⟩ := hm
      refine (ensures_resolveMember hyields.ready e a p).mono fun m u ⟨_, hm⟩ => ?_
      exact (Located.earlier hyields hm).stands hactive
    | query r => exact ensures_memberOfQuery hs hm e p
    | value n => exact ensures_reject

/-! ### Operators -/

lemma ensures_binary {l r : Expr} (hl : l.receives c = true) (hr : r.receives c = true)
    (hs : Ready c s C) (e : Expr) (op : BinaryOperator) :
    Ensures (binary visit e op l r) s fun m t => Stands c s C sequence t m := by
  unfold binary
  split
  · exact ensures_reject
  · next sqlOp _ =>
    rw [ensures_get_bind]
    refine ensures_widening_stands ?_
    refine (ensures_value hv hl (hs.widen _)).bind fun m t ⟨D, ht⟩ => ?_
    refine (ensures_value hv hr ht.ready).bind fun n u ⟨E, hu⟩ => ?_
    have hboth := ht.trans hu
    split
    · refine (ensures_condition hboth (n := m) (by simp)).bind fun m' v hm' => ?_
      refine (ensures_condition hm' (n := n) (by simp)).bind fun n' w hn' => ?_
      rw [ensures_map, ensures_add]
      exact (hn'.addValue (by simp [Node.children]) (by simp)).stands
    · rw [ensures_map, ensures_add]
      exact (hboth.addValue (by simp [Node.children]) (by simp)).stands

lemma ensures_unary {operand : Expr} (h : operand.receives c = true) (hs : Ready c s C) (e : Expr)
    (op : UnaryOperator) :
    Ensures (unary visit e op operand) s fun m t => Stands c s C false t m := by
  cases op with
  | not =>
    refine (ensures_value hv h hs).bind fun n t ⟨D, ht⟩ => ?_
    refine (ensures_condition ht (n := n) (by simp)).bind fun m u hu => ?_
    rw [ensures_map, ensures_add]
    exact (hu.addValue (by simp [Node.children]) (by simp)).stands
  | convert => exact (hv operand h s C hs).mono fun m t hm => hm.weaken
  | negate => exact ensures_reject

lemma ensures_conditional {test yes no : Expr} (htest : test.receives c = true)
    (hyes : yes.receives c = true) (hno : no.receives c = true) (hs : Ready c s C) :
    Ensures (conditional visit test yes no) s fun m t => Stands c s C sequence t m := by
  refine (ensures_value hv htest hs).bind fun k t ⟨D, ht⟩ => ?_
  refine (ensures_condition ht (n := k) (by simp)).bind fun k' t' ht' => ?_
  refine (ensures_value hv hyes ht'.ready).bind fun m u ⟨E, hu⟩ => ?_
  refine (ensures_value hv hno hu.ready).bind fun n w ⟨F, hw⟩ => ?_
  rw [ensures_map, ensures_add]
  exact (((ht'.trans hu).trans hw).addValue (by simp [Node.children]) (by simp)).stands

/-! ### Filters -/

omit hv in
lemma ensures_restrict (ht : t.graph.Open C) (hr : r ∈ C) (hn : t.graph.Fit C n) :
    Ensures (restrict r n) t fun _ u => ∃ k, u = { t with graph := k } ∧ Built C t.graph k := by
  rw [restrict, ensures_bind, ensures_request]
  split
  · exact ensures_edit.2 ⟨_, rfl, built_andHaving ht hr hn⟩
  · exact ensures_edit.2 ⟨_, rfl, built_andFilter ht hr hn⟩

/-- The body of a lambda, in a state like the one before. -/
lemma ensures_body {f : Expr} (hf : f.receives c = true) (hs : Ready c s C) (e : Expr) (r : RequestId) :
    Ensures (do value visit (← enter e r f)) s fun n t => ∃ D, Yields c s C [n] D t := by
  refine (ensures_enter (c := c) e r f).bind fun body t ⟨hbody, a, p, ht⟩ => ?_
  rw [ht]
  have hyields := (Yields.refl hs).build (.bind hs.opened a p)
  exact (ensures_value hv (hbody hf) hyields.ready).mono fun n u ⟨D, hu⟩ => ⟨D, hyields.trans hu⟩

lemma ensures_predicate {f : Expr} (hf : f.receives c = true) (hs : Ready c s C) (e : Expr)
    (r : RequestId) :
    Ensures (predicate visit e r f) s fun n t => ∃ D, Yields c s C [n] D t := by
  have hassoc : predicate visit e r f = (do value visit (← enter e r f)) >>= condition := by
    rw [predicate, bind_assoc]
  rw [hassoc]
  refine (ensures_body hv hf hs e r).bind fun n t ⟨D, ht⟩ => ?_
  refine (ensures_condition ht (n := n) (by simp)).mono fun m u hu => ⟨D, hu.only (by simp)⟩

variable {e arg : Expr} {args : List Expr}

lemma ensures_openReceiver (harg : arg.receives c = true) (hsequence : arg.isSequence c = true)
    (hs : Ready c s C) (e : Expr) :
    Ensures (openReceiver visit e arg) s fun r t => Opened c s C r t := by
  refine (ensures_receiver hv harg hsequence hs).bind fun r u hu => ?_
  rw [ensures_bind, ensures_setActive, ensures_pure]
  exact hu

/-- A predicate over an open request restricts it. -/
lemma ensures_restrict_predicate {f : Expr} (hf : f.receives c = true) (h : Opened c s C r t)
    (e : Expr) :
    Ensures (do restrict r (← predicate visit e r f)) t fun _ u => Opened c s C r u := by
  refine (ensures_predicate hv hf h.ready e r).bind fun n u ⟨D, hu⟩ => ?_
  obtain ⟨hopened, hfit⟩ := h.yields hu
  refine (ensures_restrict hopened.ready.opened List.mem_cons_self (hfit n (by simp))).mono ?_
  rintro _ _ ⟨k, rfl, hk⟩
  exact hopened.build hk

variable (harg : arg.receives c = true) (hsequence : arg.isSequence c = true)
  (hargs : ∀ a ∈ args, a.receives c = true) (hs : Ready c s C)
include harg hsequence hargs hs

lemma ensures_filter (e : Expr) :
    Ensures (filter visit e arg args) s fun m t => Stands c s C sequence t m := by
  refine (ensures_openReceiver hv harg hsequence hs e).bind fun r t ht => ?_
  refine (ensures_argument e args 1).bind fun f t' ⟨hf, ht'⟩ => ?_
  rw [ht', ← bind_assoc]
  refine (ensures_restrict_predicate hv (hargs f hf) ht e).bind fun _ u hu => ?_
  exact ensures_pure.2 hu

lemma ensures_first (e : Expr) :
    Ensures (first visit e arg args) s fun m t => Stands c s C sequence t m := by
  refine (ensures_openReceiver hv harg hsequence hs e).bind fun r t ht => ?_
  have hrest : ∀ u, Opened c s C r u → Ensures (do
      editRequest r ({ · with take := some 1 })
      return .query r) u fun m w => Stands c s C sequence w m := by
    intro u hu
    rw [ensures_bind, ensures_editRequest, ensures_pure]
    exact hu.amend ⟨rfl, rfl, rfl, rfl⟩ fun n hn => hn
  split
  · next f hf =>
    have hmem := hargs f (List.mem_of_getElem? hf)
    rw [← bind_assoc]
    exact (ensures_restrict_predicate hv hmem ht e).bind fun _ u hu => hrest u hu
  · exact hrest t ht

/-! ### Paging -/

omit hargs in
lemma ensures_skip (e : Expr) :
    Ensures (skip visit e arg args) s fun m t => Stands c s C sequence t m := by
  refine (ensures_openReceiver hv harg hsequence hs e).bind fun r t ht => ?_
  refine ensures_rowCount_bind fun k => ?_
  rw [ensures_bind, ensures_editRequest, ensures_pure]
  exact ht.amend ⟨rfl, rfl, rfl, rfl⟩ fun n hn => hn

omit hargs in
lemma ensures_take (e : Expr) :
    Ensures (take visit e arg args) s fun m t => Stands c s C sequence t m := by
  refine (ensures_openReceiver hv harg hsequence hs e).bind fun r t ht => ?_
  refine ensures_rowCount_bind fun k => ?_
  rw [ensures_bind, ensures_editRequest, ensures_pure]
  exact ht.amend ⟨rfl, rfl, rfl, rfl⟩ fun n hn => hn

omit hargs in
lemma ensures_distinct (e : Expr) :
    Ensures (distinct visit e arg) s fun m t => Stands c s C sequence t m := by
  refine (ensures_openReceiver hv harg hsequence hs e).bind fun r t ht => ?_
  rw [ensures_bind, ensures_editRequest, ensures_pure]
  exact ht.amend ⟨rfl, rfl, rfl, rfl⟩ fun n hn => hn

/-! ### Orders -/

lemma ensures_order (e : Expr) (restart ascending : Bool) :
    Ensures (order visit e restart ascending arg args) s fun m t => Stands c s C sequence t m := by
  refine (ensures_openReceiver hv harg hsequence hs e).bind fun r t ht => ?_
  have hrest : ∀ u, Opened c s C r u → Ensures (do
      let body ← enter e r (← argument e args 1)
      let n ← value visit body
      edit (·.pushOrder r n ascending)
      return .query r) u fun m w => Stands c s C sequence w m := by
    intro u hu
    refine (ensures_argument e args 1).bind fun f u' ⟨hf, hu'⟩ => ?_
    rw [hu', ← bind_assoc]
    refine (ensures_body hv (hargs f hf) hu.ready e r).bind fun n w ⟨D, hw⟩ => ?_
    obtain ⟨hopened, hfit⟩ := hu.yields hw
    rw [ensures_bind, ensures_edit, ensures_pure]
    exact hopened.build (built_pushOrder hopened.ready.opened List.mem_cons_self (hfit n (by simp)) _)
  cases restart with
  | false => exact hrest t ht
  | true =>
    simp only [if_true]
    rw [ensures_bind, ensures_editRequest]
    refine hrest _ (ht.amend ⟨rfl, rfl, rfl, rfl⟩ fun n hn => ?_)
    simp only [Request.mem_clauseNodes, List.not_mem_nil, false_and, exists_false, false_or] at hn ⊢
    grind

/-! ### Parts of texts, members of lists -/

omit hv harg hsequence hargs hs in
lemma ensures_wildcard (h : Yields c s C ns D t) :
    Ensures wildcard t fun n u => Yields c s C (n :: ns) D u :=
  ensures_add.2 (h.addValue (by simp [Node.children]) (by simp))

omit hv harg hsequence hargs hs in
lemma ensures_concat (h : Yields c s C ns D t) {l r : NodeId} (hl : l ∈ ns) (hr : r ∈ ns) :
    Ensures (concat l r) t fun n u => Yields c s C (n :: ns) D u :=
  ensures_add.2 (h.addValue (by simp [Node.children, hl, hr]) (by simp))

omit hsequence in
lemma ensures_like (e : Expr) (before after : Bool) :
    Ensures (like visit e before after arg args) s fun m t => Stands c s C sequence t m := by
  refine (ensures_value hv harg hs).bind fun subject t ⟨D, ht⟩ => ?_
  refine (ensures_argument e args 1).bind fun part t' ⟨hpart, ht'⟩ => ?_
  rw [ht']
  refine (ensures_value hv (hargs part hpart) ht.ready).bind fun operand u ⟨E, hu⟩ => ?_
  have hboth := ht.trans hu
  -- the match with a pattern, then with a pattern that may go on before the tail
  have hmatch : ∀ ms x pattern, Yields c s C ms E x → subject ∈ ms → pattern ∈ ms →
      Ensures (Meaning.value <$> add (.binary .like subject pattern)) x fun m y =>
        Stands c s C sequence y m := by
    intro ms x pattern hx hsubject hpattern
    rw [ensures_map, ensures_add]
    exact (hx.addValue (by simp [Node.children, hsubject, hpattern]) (by simp)).stands
  have hpattern : ∀ ms w tail, Yields c s C ms E w → subject ∈ ms → tail ∈ ms →
      Ensures (if before = true then do
          let any ← wildcard
          let pattern ← concat any tail
          Meaning.value <$> add (.binary .like subject pattern)
        else do
          let pattern ← pure tail
          Meaning.value <$> add (.binary .like subject pattern)) w fun m y =>
        Stands c s C sequence y m := by
    intro ms w tail hw hsubject htail
    split
    · refine (ensures_wildcard hw).bind fun any x hx => ?_
      refine (ensures_concat hx (by simp) (by simp [htail])).bind fun pattern y hy => ?_
      exact hmatch _ y pattern hy (by simp [hsubject]) (by simp)
    · rw [pure_bind]
      exact hmatch ms w tail hw hsubject htail
  dsimp only
  split
  · refine (ensures_wildcard hboth).bind fun any w hw => ?_
    refine (ensures_concat hw (by simp) (by simp)).bind fun tail x hx => ?_
    exact hpattern _ x tail hx (by simp) (by simp)
  · rw [pure_bind]
    exact hpattern _ u operand hboth (by simp) (by simp)

omit hv harg hsequence hargs hs in
lemma ensures_constants (h : Yields c s C ns D t) (vs : List Value) :
    Ensures (vs.mapM fun v => add (.const v)) t fun ms u => Yields c s C (ms ++ ns) D u := by
  induction vs generalizing t ns with
  | nil => exact ensures_pure.2 h
  | cons v vs ih =>
    rw [List.mapM_cons, ensures_bind, ensures_add]
    refine (ih (h.addValue (by simp [Node.children]) (by simp))).bind fun ms u hu => ?_
    refine ensures_pure.2 (hu.only fun m hm => ?_)
    simp only [List.cons_append, List.mem_cons, List.mem_append] at hm ⊢
    tauto

omit hsequence in
lemma ensures_contains (e : Expr) :
    Ensures (contains visit e arg args) s fun m t => Stands c s C sequence t m := by
  refine (ensures_argument e args 1).bind fun item t ⟨hitem, ht⟩ => ?_
  rw [ht]
  split
  · exact ensures_like hv harg hargs hs e true true
  · split
    · next vs _ =>
      refine (ensures_value hv (hargs item hitem) hs).bind fun operand t ⟨D, ht⟩ => ?_
      refine (ensures_constants ht _).bind fun ms u hu => ?_
      rw [ensures_map, ensures_add]
      refine (hu.addValue (fun m hm => ?_) (by simp)).stands
      simp only [Node.children, List.mem_cons, List.mem_append, List.not_mem_nil, or_false] at hm ⊢
      tauto
    · exact ensures_reject

end Visit

end EntityQuery.Compile
