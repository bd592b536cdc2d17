import EntityQuery.Compile.Chain
import EntityQuery.Proofs.Ownership.Scope

/-!
Rules for values and for operators on rows take the nodes they are given once.

* A value is a new node, which takes the values of its parts.
* An operator hands the loose value it has compiled to a clause of the receiver.
-/

namespace EntityQuery.Compile

open Sql Graph

variable {s t : CompileState} {L : List NodeId} {r : RequestId} {n : NodeId}

/-! ### Sources and constants -/

lemma tends_source (hs : Steady s L) (entity : String) :
    Ensures (source entity) s fun m t => Found s L t m := by
  rw [source, ensures_bind, ensures_ask]
  intro table _
  rw [ensures_get_bind]
  dsimp only
  rw [ensures_get_bind]
  refine (tends_addRequest (.refl hs) hs.active).bind fun r t hopened => ?_
  obtain ⟨ht, hr⟩ := hopened
  refine Found.after ht ((tends_addAlias (.refl ht.steady) (d := .ofTable table entity _)
    ⟨by simp [Alias.ofTable], by simp [Alias.ofTable, Route.aliases]⟩).bind fun a u hbase => ?_)
  obtain ⟨hu, ha⟩ := hbase
  refine Ensures.bind (tends_setBase hu (hu.request hr) ha fun q => ⟨rfl, rfl, rfl, rfl, rfl⟩)
    fun _ v hv => ?_
  refine (tends_setActive hv (hv.request hr)).bind fun _ w hw => ?_
  exact ensures_pure.2 ⟨hw, hw.request hr⟩

lemma tends_constant (hs : Steady s L) (e : Expr) (l : Literal) :
    Ensures (constant e l) s fun m t => Found s L t m := by
  have hconst : ∀ v, Ensures (Meaning.value <$> add (.const v)) s fun m t => Found s L t m := fun v =>
    ensures_map.2 (tends_operator (x := .const v) (.refl hs) rfl (by simp))
  exact ensures_constant_of e l hconst

/-- A lambda parameter stands for a source of a request. -/
lemma tends_parameter (hs : Steady s L) (e : Expr) (p : Param) :
    Ensures (parameter e p) s fun m t => Found s L t m := by
  refine ensures_parameter_of e p fun r a _ ha => ⟨.refl hs, ?_⟩
  obtain ⟨q, -, hq⟩ := Option.bind_eq_some_iff.1 ha
  have hmem := List.mem_of_find?_eq_some hq
  exact (hs.tidy.closed.request q).2 a (List.mem_append_left _ hmem)

section Visit

variable {visit : Visit} (hv : Tends visit)
include hv

/-! ### Grouping keys -/

lemma tends_groupingKeys (hs : Steady s L) (e grouping : Expr) :
    Ensures (groupingKeys visit e grouping) s fun _ t => Since s L t := by
  refine (tends_rowValue hv hs grouping).bind fun a t ⟨ht, _⟩ => ?_
  rw [ensures_bind, ensures_active]
  intro r _
  rw [ensures_bind, ensures_graph]
  dsimp only
  split
  · exact ensures_pure.2 ht
  · exact ensures_reject

lemma tends_key (hs : Steady s L) (e grouping : Expr) :
    Ensures (key visit e grouping) s fun m t => Found s L t m := by
  refine (tends_groupingKeys hv hs e grouping).bind fun keys t ht => ?_
  split
  · exact ensures_map.2 (tends_duplicate ht e _)
  · exact ensures_reject

lemma tends_keyMember (hs : Steady s L) (e grouping : Expr) (p : PropertyRef) :
    Ensures (keyMember visit e grouping p) s fun m t => Found s L t m := by
  refine (tends_groupingKeys hv hs e grouping).bind fun keys t ht => ?_
  split
  · exact ensures_map.2 (tends_duplicate ht e _)
  · split
    · rw [ensures_bind, ensures_graph]
      split
      · next a hrow =>
        have ha := (ht.graph.tidy.closed.node _).1 a (by rw [hrow]; rfl)
        refine (tends_resolveMember ht.steady e ha p).bind fun m u hm => ?_
        exact ensures_map.2 (tends_valueOf (hm.earlier ht))
      · exact ensures_reject
    · exact ensures_reject

/-! ### Members -/

omit hv in
lemma tends_memberOfQuery (hs : Steady s L) (hr : r.index < s.graph.requests.size) (e : Expr)
    (p : PropertyRef) : Ensures (memberOfQuery e r p) s fun m t => Found s L t m := by
  refine (tends_rowOf hs e r).bind fun a s' ⟨hs', ha⟩ => ?_
  rw [hs']
  have hlocated : Ensures (within r (resolveMember e a p)) s fun m t => Found s L t m := by
    rw [ensures_within]
    refine (tends_resolveMember (hs.activate hr) e ha p).mono fun m t hm => ?_
    exact (Found.activate hm hs.active).congr rfl rfl rfl
  refine hlocated.bind fun m t hm => ?_
  refine (tends_valueOf hm).bind fun n u hu => ?_
  have hselect := tends_selectOnly (i := { node := n }) (hu.clearItems (hu.request hr)) hu (hu.request hr)
  refine hselect.bind fun _ w hw => ?_
  refine (tends_project hw (hw.request hr) p.type).bind fun _ x hx => ?_
  refine (tends_leave hx r).bind fun _ y hy => ?_
  exact ensures_map.2 (tends_sub hy (hy.request hr))

lemma tends_member (hs : Steady s L) (e target : Expr) (p : PropertyRef) :
    Ensures (member visit e target p) s fun m t => Found s L t m := by
  unfold member
  split
  · exact tends_keyMember hv hs e _ p
  · refine (hv target s L hs).bind fun m t hm => ?_
    cases m with
    | row a => exact Found.after hm.1 (tends_resolveMember hm.1.steady e hm.2 p)
    | query r => exact Found.after hm.1 (tends_memberOfQuery hm.1.steady hm.2 e p)
    | value n => exact ensures_reject

/-! ### Operators -/

omit hv in
lemma tends_widening {x : Compile Meaning} {w : Bool} (hs : Steady s L)
    (hx : Steady { s with widen := w } L → Ensures x { s with widen := w } fun m t =>
      Found { s with widen := w } L t m) :
    Ensures (widening w x) s fun m t => Found s L t m :=
  ensures_widening.2 ((hx (hs.widen w)).mono fun _ _ hm => hm.congr rfl rfl rfl)

lemma tends_binary (hs : Steady s L) (e : Expr) (op : BinaryOperator) (l r : Expr) :
    Ensures (binary visit e op l r) s fun m t => Found s L t m := by
  unfold binary
  split
  · exact ensures_reject
  · next sqlOp _ =>
    rw [ensures_get_bind]
    refine tends_widening hs fun hs => ?_
    refine (tends_value hv hs l).bind fun m t ht => ?_
    refine (tends_value hv ht.steady r).bind fun n u hu => ?_
    have hboth := (ht.trans hu).only ((List.reverse_perm [n, m]).append_right L).subperm
    split
    · refine (tends_condition hboth).bind fun m' v hm' => ?_
      have hswap := hm'.only ((List.reverse_perm [m', n]).append_right L).subperm
      refine (tends_condition hswap).bind fun n' w hn' => ?_
      have hlast := hn'.only ((List.reverse_perm [n', m']).append_right L).subperm
      exact ensures_map.2 (tends_operator (x := .binary sqlOp m' n') hlast rfl (by simp))
    · exact ensures_map.2 (tends_operator (x := .binary sqlOp m n) hboth rfl (by simp))

lemma tends_unary (hs : Steady s L) (e : Expr) (op : UnaryOperator) (operand : Expr) :
    Ensures (unary visit e op operand) s fun m t => Found s L t m := by
  cases op with
  | not =>
    refine (tends_value hv hs operand).bind fun n t ht => ?_
    refine (tends_condition ht).bind fun m u hu => ?_
    exact ensures_map.2 (tends_operator (x := .unary .not (some m)) hu rfl (by simp))
  | convert => exact hv operand s L hs
  | negate => exact ensures_reject

lemma tends_conditional (hs : Steady s L) (test yes no : Expr) :
    Ensures (conditional visit test yes no) s fun m t => Found s L t m := by
  refine (tends_value hv hs test).bind fun k t ht => ?_
  refine (tends_condition ht).bind fun k' t' ht' => ?_
  refine (tends_value hv ht'.steady yes).bind fun m u hu => ?_
  refine (tends_value hv hu.steady no).bind fun n w hw => ?_
  have hall := ((ht'.trans hu).trans hw).only ((List.reverse_perm [n, m, k']).append_right L).subperm
  exact ensures_map.2 (tends_operator (x := .cond k' m n) hall rfl (by simp))

/-! ### Filters -/

omit hv in
lemma tends_restrict (h : Since s (n :: L) t) (hr : r.index < t.graph.requests.size) :
    Ensures (restrict r n) t fun _ u => Since s L u := by
  rw [restrict, ensures_bind, ensures_request]
  split
  · exact ensures_edit.2 (h.build (tended_andHaving h.graph.tidy hr))
  · exact ensures_edit.2 (h.build (tended_andFilter h.graph.tidy hr))

/-- The body of a lambda is compiled to a loose value. -/
lemma tends_body (hs : Steady s L) (e : Expr) (r : RequestId) (f : Expr) :
    Ensures (do value visit (← enter e r f)) s fun n t => Since s (n :: L) t :=
  (tends_enter hs e r f).bind fun body _ ht =>
    (tends_value hv ht.steady body).mono fun _ _ hu => ht.trans hu

lemma tends_predicate (hs : Steady s L) (e : Expr) (r : RequestId) (f : Expr) :
    Ensures (predicate visit e r f) s fun n t => Since s (n :: L) t := by
  have hassoc : predicate visit e r f = (do value visit (← enter e r f)) >>= condition := by
    rw [predicate, bind_assoc]
  rw [hassoc]
  exact (tends_body hv hs e r f).bind fun n t ht => tends_condition ht

lemma tends_restrict_predicate (hs : Steady s L) (hr : r.index < s.graph.requests.size) (e f : Expr) :
    Ensures (do restrict r (← predicate visit e r f)) s fun _ t => Since s L t :=
  (tends_predicate hv hs e r f).bind fun _ _ ht => tends_restrict ht (ht.request hr)

variable {arg : Expr} {args : List Expr}

/-- An operator works on the request of its receiver. -/
lemma tends_opened (hs : Steady s L) (e : Expr) {k : RequestId → Compile Meaning}
    (hk : ∀ r t, Steady t L → r.index < t.graph.requests.size →
      Ensures (k r) t fun m u => Found t L u m) :
    Ensures (do let r ← openReceiver visit e arg; k r) s fun m t => Found s L t m :=
  (tends_openReceiver hv hs e arg).bind fun r t ⟨ht, hr⟩ => Found.after ht (hk r t ht.steady hr)

lemma tends_filter (hs : Steady s L) (e : Expr) :
    Ensures (filter visit e arg args) s fun m t => Found s L t m := by
  refine tends_opened hv hs e fun r t ht hr => ?_
  refine (ensures_argument e args 1).bind fun f t' ⟨_, ht'⟩ => ?_
  rw [ht', ← bind_assoc]
  refine (tends_restrict_predicate hv ht hr e f).bind fun _ u hu => ?_
  exact ensures_pure.2 ⟨hu, hu.request hr⟩

omit hv in
/-- A request changes in what it says besides its clauses, and is the result. -/
lemma tends_finish {f : Request → Request} (h : Since s L t) (hr : r.index < t.graph.requests.size)
    (hf : (t.graph.request r).Inside t.graph → (f (t.graph.request r)).Inside t.graph)
    (hclause : (f (t.graph.request r)).clauseNodes = (t.graph.request r).clauseNodes) :
    Ensures (do editRequest r f; return Meaning.query r) t fun m u => Found s L u m := by
  refine Found.after h ?_
  refine (tends_amend (.refl h.steady) hr hf hclause).bind fun _ u hu => ?_
  exact ensures_pure.2 ⟨hu, hu.request hr⟩

lemma tends_first (hs : Steady s L) (e : Expr) :
    Ensures (first visit e arg args) s fun m t => Found s L t m := by
  refine tends_opened hv hs e fun r t ht hr => ?_
  split
  · next f _ =>
    rw [← bind_assoc]
    refine (tends_restrict_predicate hv ht hr e f).bind fun _ u hu => ?_
    exact tends_finish hu (hu.request hr) (fun hq => hq) rfl
  · exact tends_finish (.refl ht) hr (fun hq => hq) rfl

/-! ### Paging -/

lemma tends_skip (hs : Steady s L) (e : Expr) :
    Ensures (skip visit e arg args) s fun m t => Found s L t m := by
  refine tends_opened hv hs e fun r t ht hr => ?_
  exact ensures_rowCount_bind fun k => tends_finish (.refl ht) hr (fun hq => hq) rfl

lemma tends_take (hs : Steady s L) (e : Expr) :
    Ensures (take visit e arg args) s fun m t => Found s L t m := by
  refine tends_opened hv hs e fun r t ht hr => ?_
  exact ensures_rowCount_bind fun k => tends_finish (.refl ht) hr (fun hq => hq) rfl

lemma tends_distinct (hs : Steady s L) (e : Expr) :
    Ensures (distinct visit e arg) s fun m t => Found s L t m :=
  tends_opened hv hs e fun _ _ ht hr => tends_finish (.refl ht) hr (fun hq => hq) rfl

/-! ### Orders -/

lemma tends_order (hs : Steady s L) (e : Expr) (restart ascending : Bool) :
    Ensures (order visit e restart ascending arg args) s fun m t => Found s L t m := by
  refine tends_opened hv hs e fun r t ht hr => ?_
  have hrest : ∀ u, Steady u L → r.index < u.graph.requests.size → Ensures (do
      let body ← enter e r (← argument e args 1)
      let n ← value visit body
      edit (·.pushOrder r n ascending)
      return .query r) u fun m w => Found u L w m := by
    intro u hu hr
    refine (ensures_argument e args 1).bind fun f u' ⟨_, hu'⟩ => ?_
    rw [hu', ← bind_assoc]
    refine (tends_body hv hu e r f).bind fun n w hw => ?_
    rw [ensures_bind, ensures_edit, ensures_pure]
    have hpush := hw.build (tended_pushOrder hw.graph.tidy (hw.request hr) ascending)
    exact ⟨hpush, hpush.request hr⟩
  cases restart with
  | false => exact hrest t ht hr
  | true =>
    simp only [if_true]
    refine (tends_editRequest (.refl ht) hr (ht.tidy.closed.request r) ?_).bind fun _ u hu =>
      Found.after hu (hrest u hu.steady (hu.request hr))
    simp only [Request.clauseNodes, List.map_nil, List.append_nil]
    exact (List.sublist_append_left _ _).append_right _ |>.subperm

/-! ### Parts of texts, members of lists -/

lemma tends_like (hs : Steady s L) (e : Expr) (before after : Bool) :
    Ensures (like visit e before after arg args) s fun m t => Found s L t m := by
  refine (tends_value hv hs arg).bind fun subject t ht => ?_
  refine (ensures_argument e args 1).bind fun part t' ⟨_, ht'⟩ => ?_
  rw [ht']
  refine (tends_value hv ht.steady part).bind fun operand u hu => ?_
  -- a wildcard on either side of a loose text
  have hconcat : ∀ (text w : NodeId) (v x : CompileState) M, Since s (w :: text :: M) x →
      Ensures (concat text w) x (fun n y => Since s (n :: M) y) ∧
        Ensures (concat w text) x (fun n y => Since s (n :: M) y) := by
    intro text w v x M hx
    have hswap := hx.only ((List.reverse_perm [w, text]).append_right M).subperm
    exact ⟨tends_operator (x := .binary .concat text w) hswap rfl (by simp),
      tends_operator (x := .binary .concat w text) hx rfl (by simp)⟩
  have hmatch : ∀ pattern x, Since s (pattern :: subject :: L) x →
      Ensures (Meaning.value <$> add (.binary .like subject pattern)) x fun m y => Found s L y m := by
    intro pattern x hx
    have hswap := hx.only ((List.reverse_perm [pattern, subject]).append_right L).subperm
    exact ensures_map.2 (tends_operator (x := .binary .like subject pattern) hswap rfl (by simp))
  have hwildcard : ∀ x M, Since s M x → Ensures wildcard x fun n y => Since s (n :: M) y :=
    fun x M hx => tends_operator (x := .const (.string "%")) hx rfl (by simp)
  have hpattern : ∀ tail x, Since s (tail :: subject :: L) x →
      Ensures (if before = true then do
          let any ← wildcard
          let pattern ← concat any tail
          Meaning.value <$> add (.binary .like subject pattern)
        else do
          let pattern ← pure tail
          Meaning.value <$> add (.binary .like subject pattern)) x fun m y => Found s L y m := by
    intro tail x hx
    split
    · refine (hwildcard x _ hx).bind fun any y hy => ?_
      exact (hconcat tail any y y _ hy).2.bind fun pattern z hz => hmatch pattern z hz
    · rw [pure_bind]
      exact hmatch tail x hx
  dsimp only
  split
  · refine (hwildcard u _ (ht.trans hu)).bind fun any w hw => ?_
    exact (hconcat operand any w w _ hw).1.bind fun tail x hx => hpattern tail x hx
  · rw [pure_bind]
    exact hpattern operand u (ht.trans hu)

omit hv in
lemma tends_constants (vs : List Value) (h : Since s L t) :
    Ensures (vs.mapM fun v => add (.const v)) t fun ns u => Since s (ns ++ L) u := by
  induction vs generalizing t L with
  | nil => exact ensures_pure.2 h
  | cons v vs ih =>
    rw [List.mapM_cons]
    refine (tends_operator (x := .const v) h rfl (by simp)).bind fun n u hu => ?_
    refine (ih hu).bind fun ns w hw => ?_
    exact ensures_pure.2 (hw.only List.perm_middle.symm.subperm)

lemma tends_contains (hs : Steady s L) (e : Expr) :
    Ensures (contains visit e arg args) s fun m t => Found s L t m := by
  refine (ensures_argument e args 1).bind fun item t ⟨_, ht⟩ => ?_
  rw [ht]
  split
  · exact tends_like hv hs e true true
  · split
    · refine (tends_value hv hs item).bind fun operand t ht => ?_
      refine (tends_constants _ ht).bind fun ns u hu => ?_
      have hall : Since s ((operand :: ns) ++ L) u := hu.only List.perm_middle.symm.subperm
      exact ensures_map.2 (tends_operator (x := .isIn operand ns) hall rfl (by simp))
    · exact ensures_reject

end Visit

end EntityQuery.Compile
