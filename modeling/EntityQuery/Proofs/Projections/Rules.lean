import EntityQuery.Proofs.Projections.Scope

/-!
Rules, inside an anchored request or on it.

* A rule for values builds inside the anchored request.
* A rule for operators works on the request of its receiver. `K r A` says how that request stands to
  the anchored one: it is another one, or it is the anchored one itself.
* A projection, a grouping and a write let their request show another type; an aggregate moves its
  request into a new one.
-/

namespace EntityQuery.Compile

open Sql Graph

variable {many : String → String → Bool} {A : Anchor} {o r : RequestId} {s t : CompileState}

/-! ### Sources, constants and parameters -/

section Leaves

variable (h : Guarded many A o s)
include h

lemma inside_source (entity : String) :
    Ensures (source entity) s fun m t => Inside many A (.source entity) o t m := by
  refine ensures_source_iff.2 fun table _ => ?_
  have hbuilt := (h.anchored.addRequest s.active).addAlias
    (.ofTable table entity (s.mapping.catalog.idColumn entity).toOption)
  have hnew := h.anchored.ne_new
  refine ⟨⟨_, ?_, rfl, h.paths⟩, hnew, rfl, fun _ => rfl⟩
  exact hbuilt.other hnew fun _ => rfl

lemma valued_constant (e : Expr) (l : Literal) :
    Ensures (constant e l) s fun m t => Valued many A t m := by
  exact ensures_constant_of e l fun v => ensures_valued (h.ensures_add (.const v))

/-- A parameter stands for a row, whatever that row is: it ranges over items. -/
lemma inside_parameter {p : Param} (hp : p.type.isItem = true) (e : Expr) :
    Ensures (parameter e p) s fun m t => Inside many A (.param p) o t m := by
  refine ensures_parameter_of e p fun r a _ _ => ⟨h, TypeRef.isFlat_of_isItem hp, fun hsequence => ?_⟩
  rw [Expr.type, TypeRef.not_isSequence_of_isItem hp] at hsequence
  cases hsequence

/-- A member of another request than the anchored one. -/
lemma valued_memberOfQuery (hr : r ≠ A.request) (e : Expr) (p : PropertyRef) :
    Ensures (memberOfQuery e r p) s fun m t => Valued many A t m := by
  rw [memberOfQuery, ensures_bind, rowOf, ensures_bind, ensures_graph]
  dsimp only
  split
  · next a _ =>
    rw [ensures_pure]
    refine (h.ensures_within r fun t ht => ?_).bind fun m t ht => ?_
    · exact (ht.ensures_resolveMember e a p).mono fun m u hu => hu.1
    refine (ht.ensures_valueOf m).bind fun n u hu => ?_
    refine (hu.ensures_edit ((hu.anchored.clearItems r).pushItem r { node := n })).bind fun _ v hv => ?_
    refine (hv.ensures_other hr fun _ => by rfl).bind fun _ w hw => ?_
    refine (hw.ensures_leave r).bind fun _ x hx => ?_
    obtain ⟨o', hx⟩ := hx
    exact ensures_valued (hx.ensures_add _)
  · exact ensures_reject

end Leaves

/-! ### Values -/

section Values

variable {visit : Visit} (hv : Shelters many visit) (h : Guarded many A o s)
include hv h

lemma inside_key {grouping : Expr} (hgrouping : grouping.Fits many) (e : Expr) :
    Ensures (key visit e grouping) s fun m t => Inside many A (.key grouping) o t m := by
  refine (guarded_groupingKeys hv h hgrouping e).bind fun keys t ⟨ht, hflat⟩ => ?_
  split
  · refine ensures_map.2 ((ht.ensures_duplicate e _).mono fun m u hu => ⟨⟨o, hu⟩, fun _ => ?_⟩)
    exact Expr.isFlat_key hflat
  · exact ensures_reject

lemma valued_keyMember {grouping : Expr} (hgrouping : grouping.Fits many) (e : Expr)
    (p : PropertyRef) : Ensures (keyMember visit e grouping p) s fun m t => Valued many A t m := by
  refine (guarded_groupingKeys hv h hgrouping e).bind fun keys t ⟨ht, _⟩ => ?_
  split
  · exact ensures_valued (ht.ensures_duplicate e _)
  · split
    · rw [ensures_bind, ensures_graph]
      split
      · refine (ht.ensures_resolveMember e _ p).bind fun m u ⟨hu, _⟩ => ?_
        exact ensures_valued (hu.ensures_valueOf m)
      · exact ensures_reject
    · exact ensures_reject

/-- A member of a collection type stands for a row that a join brings in. -/
lemma inside_member {target : Expr} {p : PropertyRef} (he : (Expr.member target p).Fits many)
    (e : Expr) :
    Ensures (member visit e target p) s fun m t => Inside many A (.member target p) o t m := by
  obtain ⟨htarget, hmember, hmany⟩ := he.member
  unfold member
  split
  · next grouping => exact (valued_keyMember hv h htarget.key e p).mono fun m t hm => hm.inside rfl
  · refine (hv A target o s htarget h).bind fun m t hm => ?_
    cases m with
    | row a =>
      refine (hm.1.ensures_resolveMember e a p).mono fun m u ⟨hu, hquery, hbrought⟩ => ?_
      cases m with
      | value n => exact ⟨⟨o, hu⟩, nofun⟩
      | row b =>
        have hflat := TypeRef.isFlat_of_isMember hmember
        exact ⟨hu, hflat, fun hsequence =>
          hbrought (hmany (TypeRef.isCollection_of_isFlat hflat hsequence))⟩
      | query q => exact absurd rfl (hquery q)
    | query r =>
      obtain ⟨⟨o', ht⟩, hr, -⟩ := hm
      exact (valued_memberOfQuery ht hr e p).mono fun m u hu => hu.inside rfl
    | value n => exact ensures_reject

lemma valued_binary {l r : Expr} (hl : l.Fits many) (hr : r.Fits many) (e : Expr)
    (op : BinaryOperator) : Ensures (binary visit e op l r) s fun m t => Valued many A t m := by
  unfold binary
  split
  · exact ensures_reject
  · rw [ensures_get_bind, ensures_widening]
    have hback : ∀ m t w, Valued many A t m → Valued many A { t with widen := w } m := by
      intro m t w hm
      cases m with
      | value n => exact hm.imp fun _ ht => ht.widen w
      | row a => exact hm.elim
      | query q => exact hm.elim
    refine (guarded_value hv (h.widen _) hl).bind fun m t ht => ?_
    refine (guarded_value hv ht hr).bind fun n u hu => ?_
    split
    · refine (hu.ensures_condition m).bind fun m' v hv => ?_
      refine (hv.ensures_condition n).bind fun n' w hw => ?_
      exact (ensures_valued (hw.ensures_add _)).mono fun m t hm => hback m t _ hm
    · exact (ensures_valued (hu.ensures_add _)).mono fun m t hm => hback m t _ hm

lemma inside_unary {operand : Expr} (hoperand : operand.Fits many) (e : Expr) (op : UnaryOperator) :
    Ensures (unary visit e op operand) s fun m t => Inside many A (.unary op operand) o t m := by
  cases op with
  | not =>
    refine (guarded_value hv h hoperand).bind fun n t ht => ?_
    refine (ht.ensures_condition n).bind fun n' u hu => ?_
    exact (ensures_valued (hu.ensures_add _)).mono fun m t hm => hm.inside rfl
  | convert =>
    refine (hv A operand o s hoperand h).mono fun m t hm => ?_
    cases m with
    | value n => exact ⟨hm.1, nofun⟩
    | row a => exact hm
    | query r => exact ⟨hm.1, hm.2.1, rfl, hm.2.2.2⟩
  | negate => exact ensures_reject

lemma valued_conditional {test yes no : Expr} (htest : test.Fits many) (hyes : yes.Fits many)
    (hno : no.Fits many) :
    Ensures (conditional visit test yes no) s fun m t => Valued many A t m := by
  refine (guarded_value hv h htest).bind fun k t ht => ?_
  refine (ht.ensures_condition k).bind fun k' u hu => ?_
  refine (guarded_value hv hu hyes).bind fun y v hy => ?_
  refine (guarded_value hv hy hno).bind fun n w hw => ?_
  exact ensures_valued (hw.ensures_add _)

/-! ### Parts of texts, members of lists -/

omit hv in
lemma guarded_wildcard : Ensures wildcard s fun _ t => Guarded many A o t := h.ensures_add _

omit hv in
lemma guarded_concat (l r : NodeId) : Ensures (concat l r) s fun _ t => Guarded many A o t :=
  h.ensures_add _

lemma valued_like {m : Method} {element : TypeRef} {arg : Expr} {rest : List Expr}
    (harg : arg.Fits many) (hrest : Expr.FitsArgs many m element rest) (e : Expr)
    (before after : Bool) :
    Ensures (like visit e before after arg (arg :: rest)) s fun m t => Valued many A t m := by
  refine (guarded_value hv h harg).bind fun subject t ht => ?_
  refine (ensures_second e arg rest).bind fun f t' ⟨⟨tail, hf⟩, ht'⟩ => ?_
  subst ht' hf
  refine (guarded_value hv ht hrest.head).bind fun operand u hu => ?_
  have hmatch : ∀ pattern v, Guarded many A o v →
      Ensures (Meaning.value <$> add (.binary .like subject pattern)) v fun m t => Valued many A t m :=
    fun pattern v hv => ensures_valued (hv.ensures_add _)
  have hpattern : ∀ tail v, Guarded many A o v → Ensures (if before = true then do
        let w ← wildcard
        let pattern ← concat w tail
        Meaning.value <$> add (.binary .like subject pattern)
      else do
        let pattern ← pure tail
        Meaning.value <$> add (.binary .like subject pattern)) v fun m t => Valued many A t m := by
    intro tail v hv
    split
    · refine (guarded_wildcard hv).bind fun w x hx => ?_
      exact (guarded_concat hx w tail).bind fun pattern y hy => hmatch pattern y hy
    · rw [pure_bind]
      exact hmatch tail v hv
  dsimp only
  split
  · refine (guarded_wildcard hu).bind fun w x hx => ?_
    exact (guarded_concat hx operand w).bind fun tail y hy => hpattern tail y hy
  · rw [pure_bind]
    exact hpattern operand u hu

lemma valued_contains {m : Method} {element : TypeRef} {arg : Expr} {rest : List Expr}
    (harg : arg.Fits many) (hrest : Expr.FitsArgs many m element rest) (e : Expr) :
    Ensures (contains visit e arg (arg :: rest)) s fun m t => Valued many A t m := by
  refine (ensures_second e arg rest).bind fun item s' ⟨⟨tail, hitem⟩, hs'⟩ => ?_
  subst hs' hitem
  split
  · exact valued_like hv h harg hrest e true true
  · split
    · next vs =>
      refine (guarded_value hv h hrest.head).bind fun operand t ht => ?_
      refine (ensures_mapM (I := Guarded many A o) _ (fun v _ t ht => ht.ensures_add _) ht).bind
        fun values u hu => ?_
      exact ensures_valued (hu.ensures_add _)
    · exact ensures_reject

end Values

/-! ### Operators on rows -/

/-- A restriction may be on any request. -/
lemma guarded_restrict (h : Guarded many A o s) (r : RequestId) (n : NodeId) :
    Ensures (restrict r n) s fun _ t => Guarded many A o t := by
  rw [restrict, ensures_bind, ensures_request]
  split
  · exact h.ensures_edit (h.anchored.andHaving r n)
  · exact h.ensures_edit (h.anchored.andFilter r n)

section Predicates

variable {visit : Visit} (hv : Shelters many visit) (h : Guarded many A o s) {m : Method}
  {element : TypeRef} {f : Expr} {tail : List Expr}
  (hf : Expr.FitsArgs many m element (f :: tail)) (helement : element.isItem = true)
include hv h hf helement

lemma guarded_body (e : Expr) (r : RequestId) :
    Ensures (do value visit (← enter e r f)) s fun _ t => Guarded many A o t :=
  (guarded_enter h hf helement e r).bind fun _ _ ⟨ht, hbody, _⟩ => guarded_value hv ht hbody

lemma guarded_predicate (e : Expr) (r : RequestId) :
    Ensures (predicate visit e r f) s fun _ t => Guarded many A o t := by
  have hassoc : predicate visit e r f = (do value visit (← enter e r f)) >>= condition := by
    rw [predicate, bind_assoc]
  rw [hassoc]
  exact (guarded_body hv h hf helement e r).bind fun n t ht => ht.ensures_condition n

end Predicates

/-- The receiver of an operator: a request that stands to an anchored one as `K` says. -/
def Received (many : String → String → Bool) (K : RequestId → Anchor → Prop) (arg : Expr)
    (r : RequestId) (t : CompileState) : Prop :=
  (∃ A o, K r A ∧ Guarded many A o t) ∧ arg.elementType.isItem = true

/-- An operator on rows gives the request of its receiver. -/
def Served (many : String → String → Bool) (K : RequestId → Anchor → Prop) (arg : Expr)
    (t : CompileState) (m : Meaning) : Prop :=
  ∃ r A, m = .query r ∧ K r A ∧ Guarded many A r t ∧ arg.elementType.isItem = true

/-- A request served after a last change to its clauses. -/
lemma served_edit {K : RequestId → Anchor → Prop} {arg : Expr} (hK : K r A)
    (hitem : arg.elementType.isItem = true) (h : Guarded many A r s) {f : Request → Request}
    (hf : ∀ q, (f q).joins = q.joins ∧ (f q).base = q.base ∧ (f q).parent = q.parent ∧
      (f q).projection = q.projection) :
    Ensures (do editRequest r f; return Meaning.query r) s fun m t => Served many K arg t m :=
  (h.ensures_clauses r hf).bind fun _ _ ht => ensures_pure.2 ⟨r, A, rfl, hK, ht, hitem⟩

section Operators

variable {visit : Visit} {K : RequestId → Anchor → Prop} {e arg : Expr} {rest : List Expr}
  (hopen : Ensures (receiver visit e arg) s (Received many K arg))
include hopen

/-- What an operator does to the request of its receiver. -/
lemma ensures_openReceiver_bind {α : Type} {k : RequestId → Compile α} {Q : α → CompileState → Prop}
    (hk : ∀ r A t, K r A → Guarded many A r t → arg.elementType.isItem = true → Ensures (k r) t Q) :
    Ensures (openReceiver visit e arg >>= k) s Q := by
  rw [openReceiver, bind_assoc]
  refine hopen.bind fun r t ⟨⟨A, o, hK, ht⟩, hitem⟩ => ?_
  rw [bind_assoc, ensures_bind, ensures_setActive, pure_bind]
  exact hk r A _ hK (ht.activate r) hitem

lemma served_distinct : Ensures (distinct visit e arg) s fun m t => Served many K arg t m :=
  ensures_openReceiver_bind hopen fun _ _ _ hK ht hitem => served_edit hK hitem ht fun _ => by simp

lemma served_skip : Ensures (skip visit e arg (arg :: rest)) s fun m t => Served many K arg t m := by
  refine ensures_openReceiver_bind hopen fun r A t hK ht hitem => ?_
  exact ensures_rowCount_bind fun n => served_edit hK hitem ht fun _ => by simp

lemma served_take : Ensures (take visit e arg (arg :: rest)) s fun m t => Served many K arg t m := by
  refine ensures_openReceiver_bind hopen fun r A t hK ht hitem => ?_
  exact ensures_rowCount_bind fun n => served_edit hK hitem ht fun _ => by simp

variable (hv : Shelters many visit) {m : Method} (hrest : Expr.FitsArgs many m arg.elementType rest)
include hv hrest

omit hv in
/-- The body of the lambda of an operator. -/
lemma ensures_openBody {α : Type} {k : RequestId → Expr → Compile α} {Q : α → CompileState → Prop}
    (hk : ∀ r A body t, K r A → Guarded many A r t → arg.elementType.isItem = true →
      body.Fits many → m.selects body.type = true → Expr.selectorType? rest = some body.type →
      Ensures (k r body) t Q) :
    Ensures (do
      let r ← openReceiver visit e arg
      let body ← enter e r (← argument e (arg :: rest) 1)
      k r body) s Q := by
  refine ensures_openReceiver_bind hopen fun r A t hK ht hitem => ?_
  refine (ensures_second e arg rest).bind fun f t' ⟨⟨tail, hf⟩, ht'⟩ => ?_
  subst ht' hf
  refine (guarded_enter ht hrest hitem e r).bind fun body u ⟨hu, hbody, hselects, htype⟩ => ?_
  exact hk r A body u hK hu hitem hbody hselects htype

lemma served_filter : Ensures (filter visit e arg (arg :: rest)) s fun m t => Served many K arg t m := by
  refine ensures_openReceiver_bind hopen fun r A t hK ht hitem => ?_
  refine (ensures_second e arg rest).bind fun f t' ⟨⟨tail, hf⟩, ht'⟩ => ?_
  subst ht' hf
  refine (guarded_predicate hv ht hrest hitem e r).bind fun n u hu => ?_
  exact (guarded_restrict hu r n).bind fun _ w hw => ensures_pure.2 ⟨r, A, rfl, hK, hw, hitem⟩

lemma served_first : Ensures (first visit e arg (arg :: rest)) s fun m t => Served many K arg t m := by
  refine ensures_openReceiver_bind hopen fun r A t hK ht hitem => ?_
  cases rest with
  | nil => exact served_edit hK hitem ht fun _ => by simp
  | cons f tail =>
    refine (guarded_predicate hv ht hrest hitem e r).bind fun n u hu => ?_
    exact (guarded_restrict hu r n).bind fun _ w hw => served_edit hK hitem hw fun _ => by simp

lemma served_order (restart ascending : Bool) :
    Ensures (order visit e restart ascending arg (arg :: rest)) s fun m t =>
      Served many K arg t m := by
  refine ensures_openReceiver_bind hopen fun r A t hK ht hitem => ?_
  have hkey : ∀ u, Guarded many A r u → Ensures (do
      let body ← enter e r (← argument e (arg :: rest) 1)
      let n ← value visit body
      edit (·.pushOrder r n ascending)
      return Meaning.query r) u fun m t => Served many K arg t m := by
    intro u hu
    refine (ensures_second e arg rest).bind fun f u' ⟨⟨tail, hf⟩, hu'⟩ => ?_
    subst hu' hf
    refine (guarded_enter hu hrest hitem e r).bind fun body w ⟨hw, hbody, _⟩ => ?_
    refine (guarded_value hv hw hbody).bind fun n x hx => ?_
    refine (hx.ensures_edit (hx.anchored.pushOrder r n ascending)).bind fun _ y hy => ?_
    exact ensures_pure.2 ⟨r, A, rfl, hK, hy, hitem⟩
  dsimp only
  split
  · exact (ht.ensures_clauses r fun _ => by simp).bind fun _ u hu => hkey u hu
  · exact hkey t ht

end Operators

end EntityQuery.Compile
