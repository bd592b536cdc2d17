import EntityQuery.Proofs.Projections.Shape

/-!
Aggregates, `Any` and writes, inside an anchored request or on it.

* Over a request inside another one they give a value, or a request of their own.
* By itself an aggregate moves its request into a new one, which shows the type of the aggregate.
-/

namespace EntityQuery.Compile

open Sql Graph

variable {many : String → String → Bool} {A : Anchor} {o r : RequestId} {s t : CompileState}

/-! ### Selectors -/

section Selectors

variable {visit : Visit} (hv : Shelters many visit) (h : Guarded many A o s) {m : Method}
  {element : TypeRef} (helement : element.isItem = true)
include hv h helement

lemma guarded_selector {f : Expr} {tail : List Expr}
    (hf : Expr.FitsArgs many m element (f :: tail)) (e : Expr) (r : RequestId) :
    Ensures (selector visit e r f) s fun _ t => Guarded many A o t :=
  h.ensures_within r fun _ ht => guarded_body hv ht hf helement e r

variable {f : Option Expr} (hf : ∀ g ∈ f, ∃ tail, Expr.FitsArgs many m element (g :: tail))
include hf

lemma guarded_restrictBy (e : Expr) (r : RequestId) :
    Ensures (restrictBy visit e r f) s fun _ t => Guarded many A o t := by
  cases f with
  | none => exact ensures_pure.2 h
  | some g =>
    obtain ⟨tail, hg⟩ := hf g rfl
    refine (h.ensures_within r fun t ht => guarded_predicate hv ht hg helement e r).bind
      fun n u hu => ?_
    exact guarded_restrict hu r n

lemma guarded_aggregated (e : Expr) (r : RequestId) :
    Ensures (aggregated visit e r f) s fun _ t => Guarded many A o t := by
  cases f with
  | some g =>
    obtain ⟨tail, hg⟩ := hf g rfl
    exact guarded_selector hv h helement hg e r
  | none =>
    rw [aggregated, ensures_bind, ensures_request]
    split
    · exact ensures_pure.2 h
    · exact ensures_reject

end Selectors

section Columns

variable (h : Guarded many A o s)
include h

lemma guarded_selectAll (e : Expr) (r : RequestId) :
    Ensures (selectAll e r) s fun _ t => Guarded many A o t := by
  rw [selectAll, ensures_bind, ensures_request]
  split
  · split
    · exact (h.ensures_add _).bind fun n t ht => ht.ensures_edit (ht.anchored.pushItem r _)
    · exact ensures_reject
  · exact ensures_pure.2 h

lemma guarded_selectCounted (e : Expr) (r : RequestId) :
    Ensures (selectCounted e r) s fun _ t => Guarded many A o t := by
  have hlabels : ∀ (f : Item × Nat → Item) u, Guarded many A o u → Ensures (do
      if (← request r).items.isEmpty then selectAll e r
      else editRequest r fun q => { q with items := q.items.zipIdx.map f }) u fun _ w =>
        Guarded many A o w := by
    intro f u hu
    rw [ensures_bind, ensures_request]
    split
    · exact guarded_selectAll hu e r
    · exact hu.ensures_clauses r fun _ => by simp
  have hkey : ∀ key u, Guarded many A o u → Ensures (do
      let n ← duplicate e key
      edit (·.pushItem r { node := n })) u fun _ w => Guarded many A o w := fun key u hu =>
    (hu.ensures_duplicate e key).bind fun n w hw => hw.ensures_edit (hw.anchored.pushItem r _)
  rw [selectCounted, ensures_bind, ensures_request]
  split
  · refine (ensures_forM (I := Guarded many A o) _ (fun key _ t ht => hkey key t ht) h).bind
      fun _ u hu => ?_
    exact hlabels _ u hu
  · exact hlabels _ s h

end Columns

/-! ### Requests around -/

/-- A request has become part of a new one, which shows a type. -/
def Moved (many : String → String → Bool) (A : Anchor) (r : RequestId) (type : TypeRef)
    (outer : RequestId) (t : CompileState) : Prop :=
  ∃ base, outer ≠ A.request ∧
    Guarded many ((A.around r outer base).showing outer type) outer t

/-- The anchored request stays where it is if another one moves. -/
lemma Moved.inside {type : TypeRef} {outer : RequestId} (h : Moved many A r type outer t)
    (hr : r ≠ A.request) : outer ≠ A.request ∧ Guarded many A outer t := by
  obtain ⟨base, houter, ht⟩ := h
  rw [Anchor.around, if_neg hr, Anchor.showing, if_neg houter] at ht
  exact ⟨houter, ht⟩

/-- The new request is anchored if the anchored one moves. -/
lemma Moved.root {type : TypeRef} {outer : RequestId} (h : Moved many A A.request type outer t) :
    ∃ base, Guarded many ⟨outer, base, some type⟩ outer t := by
  obtain ⟨base, -, ht⟩ := h
  rw [Anchor.around, if_pos rfl, Anchor.showing, if_pos rfl] at ht
  exact ⟨base, ht⟩

/-- A request becomes a derived table of a new one. -/
lemma guarded_derive (h : Guarded many A o s) (r : RequestId) :
    Ensures (derive r) s fun x t => x.1 ≠ A.request ∧
      Guarded many (A.around r x.1 (some x.2)) x.1 t := by
  rw [derive, ensures_bind, ensures_request, ensures_bind, ensures_build, ensures_bind, ensures_build,
    ensures_bind, ensures_editRequest, ensures_bind, ensures_editRequest, ensures_bind,
    ensures_setActive, ensures_pure]
  refine ⟨h.anchored.ne_new, ?_, rfl, h.paths⟩
  exact h.anchored.derive r (.derived r) fun _ => rfl

section Visit

variable {visit : Visit} (hv : Shelters many visit) (h : Guarded many A o s) {m : Method}
  {element : TypeRef} (helement : element.isItem = true) {f : Option Expr}
  (hf : ∀ g ∈ f, ∃ tail, Expr.FitsArgs many m element (g :: tail))
include hv h helement hf

/-- An aggregate over a derived table is the only value of a new request. -/
lemma moved_aggregateDerived (e : Expr) (op : UnaryOp) (r : RequestId) :
    Ensures (aggregateDerived visit e op r f) s fun outer t => Moved many A r e.type outer t := by
  have hselect : ∀ outer A' t operand, Guarded many A' outer t → Ensures (do
      let n ← add (.unary op operand)
      edit (·.pushItem outer { node := n })
      editRequest outer ({ · with projection := some e.type })
      return outer) t fun q u => q = outer ∧ Guarded many (A'.showing outer e.type) outer u := by
    intro outer A' t operand ht
    refine (ht.ensures_add _).bind fun n u hu => ?_
    refine (hu.ensures_edit (hu.anchored.pushItem outer _)).bind fun _ w hw => ?_
    exact (hw.ensures_project outer e.type fun _ => by simp).bind fun _ x hx => ensures_pure.2 ⟨rfl, hx⟩
  unfold aggregateDerived
  split
  · refine (guarded_restrictBy hv h helement hf e r).bind fun _ t ht => ?_
    refine (guarded_selectCounted ht e r).bind fun _ u hu => ?_
    refine (guarded_derive hu r).bind fun ⟨outer, a⟩ w ⟨houter, hw⟩ => ?_
    refine (hselect outer _ w none hw).mono ?_
    rintro _ x ⟨rfl, hx⟩
    exact ⟨_, houter, hx⟩
  · refine (guarded_aggregated hv h helement hf e r).bind fun n t ht => ?_
    refine (ht.ensures_edit ((ht.anchored.clearItems r).pushItem r _)).bind fun _ u hu => ?_
    refine (guarded_derive hu r).bind fun ⟨outer, a⟩ w ⟨houter, hw⟩ => ?_
    dsimp only
    rw [ensures_bind, ensures_map]
    refine (hw.ensures_add _).mono fun n x hx => ?_
    refine (hselect outer _ x (some n) hx).mono ?_
    rintro _ y ⟨rfl, hy⟩
    exact ⟨_, houter, hy⟩

/-- An aggregate over another request than the anchored one, in place. -/
lemma valued_aggregateInside (hr : r ≠ A.request) (e : Expr) (op : UnaryOp) :
    Ensures (aggregateInside visit e op r f) s fun x t => Valued many A t x := by
  have hrest : ∀ operand t, Guarded many A o t → Ensures (do
      let n ← add (.unary op operand)
      edit fun g => (g.clearItems r).pushItem r { node := n }
      editRequest r ({ · with projection := some e.type })
      leave r
      Meaning.value <$> add (.sub r)) t fun x u => Valued many A u x := by
    intro operand t ht
    refine (ht.ensures_add _).bind fun n u hu => ?_
    refine (hu.ensures_edit ((hu.anchored.clearItems r).pushItem r { node := n })).bind fun _ v hv => ?_
    refine (hv.ensures_other hr fun _ => by rfl).bind fun _ w hw => ?_
    exact (hw.ensures_leave r).bind fun _ x ⟨o', hx⟩ => ensures_valued (hx.ensures_add _)
  unfold aggregateInside
  split
  · refine (guarded_restrictBy hv h helement hf e r).bind fun _ t ht => ?_
    rw [pure_bind]
    exact hrest none t ht
  · refine ensures_bind.2 (ensures_map.2 ((guarded_aggregated hv h helement hf e r).mono fun n t ht => ?_))
    exact hrest (some n) t ht

/-- Whether a request has rows: a value of the request around it, or a new request around it. -/
lemma ensures_anyOf (e : Expr) (r : RequestId) {Q : Meaning → CompileState → Prop}
    (hvalue : ∀ t n o', r ≠ A.request → Guarded many A o' t → Q (.value n) t)
    (hquery : ∀ t outer, Moved many A r .boolean outer t → Q (.query outer) t) :
    Ensures (do
      restrictBy visit e r f
      selectAll e r
      let sub ← add (.sub r)
      let found ← add (.unary .exists (some sub))
      if (← request r).parent.isSome then
        leave r
        return .value found
      else
        let outer ← Compile.build (Build.addRequest none)
        editRequest r ({ · with parent := some outer })
        let yes ← add (.const (.boolean true))
        let no ← add (.const (.boolean false))
        let answer ← add (.cond found yes no)
        edit (·.pushItem outer { node := answer })
        editRequest outer ({ · with projection := some .boolean })
        setActive outer
        return .query outer) s Q := by
  refine (guarded_restrictBy hv h helement hf e r).bind fun _ t ht => ?_
  refine (guarded_selectAll ht e r).bind fun _ u hu => ?_
  refine (hu.ensures_add _).bind fun sub w hw => ?_
  refine (hw.ensures_add _).bind fun found x hx => ?_
  rw [ensures_bind, ensures_request]
  split
  · next hparent =>
    have hr : r ≠ A.request := by
      rintro rfl
      rw [hx.anchored.parent] at hparent
      cases hparent
    exact (hx.ensures_leave r).bind fun _ y ⟨o', hy⟩ => ensures_pure.2 (hvalue y found o' hr hy)
  · rw [ensures_bind, ensures_build, ensures_bind, ensures_editRequest]
    have houter := hx.anchored.ne_new
    have hanchored := hx.anchored.enclose r (fun _ => rfl)
      (f := ({ · with parent := some ⟨x.graph.requests.size⟩ })) fun _ => rfl
    have hmoved : Guarded many (A.around r ⟨x.graph.requests.size⟩ none) o { x with graph := _ } :=
      ⟨hanchored, hx.active, hx.paths⟩
    refine (hmoved.ensures_add _).bind fun yes y₁ hy₁ => ?_
    refine (hy₁.ensures_add _).bind fun no y₂ hy₂ => ?_
    refine (hy₂.ensures_add _).bind fun answer y₃ hy₃ => ?_
    refine (hy₃.ensures_edit (hy₃.anchored.pushItem _ _)).bind fun _ y₄ hy₄ => ?_
    refine (hy₄.ensures_project _ .boolean fun _ => by simp).bind fun _ y₅ hy₅ => ?_
    rw [ensures_bind, ensures_setActive, ensures_pure]
    exact hquery _ _ ⟨none, houter, hy₅.activate _⟩

end Visit

/-! ### Over a grouping -/

section Groupings

variable {visit : Visit} (hv : Shelters many visit) (h : Guarded many A o s) {m : Method}
  {arg : Expr} (harg : arg.Fits many) {f : Option Expr}
  (hf : ∀ g ∈ f, ∃ tail, Expr.FitsArgs many m arg.elementType (g :: tail))
include hv h harg hf

/-- An aggregate over a grouping is a value of the grouped request. -/
lemma valued_aggregateGrouping (hgrouping : arg.type.isGrouping = true) (e : Expr) (op : UnaryOp) :
    Ensures (aggregateGrouping visit e op arg f) s fun x t => Valued many A t x := by
  refine (guarded_rowValue hv h harg).bind fun a t ⟨ht, hflat⟩ => ?_
  have helement : arg.elementType.isItem = true := by
    rw [Expr.elementType]
    cases htype : arg.type with
    | grouping k t =>
      rw [htype] at hflat
      change (TypeRef.grouping k t).isItem = true at hflat
      rw [TypeRef.isItem_grouping, Bool.and_eq_true] at hflat
      exact hflat.2
    | _ =>
      rw [htype] at hgrouping
      cases hgrouping
  rw [ensures_bind, ensures_active]
  intro here _
  rw [ensures_bind, ensures_graph]
  generalize (t.graph.requestOver? here a).getD here = r
  dsimp only
  split
  · exact ensures_valued (ht.ensures_add _)
  · next p =>
    obtain ⟨tail, hp⟩ := hf p rfl
    refine (ht.ensures_within r fun t ht => guarded_predicate hv ht hp helement e r).bind
      fun test u hu => ?_
    refine (hu.ensures_add _).bind fun one v hv => ?_
    refine (hv.ensures_add _).bind fun null w hw => ?_
    exact (hw.ensures_add _).bind fun n x hx => ensures_valued (hx.ensures_add _)
  · next g _ =>
    obtain ⟨tail, hg⟩ := hf g rfl
    exact (guarded_selector hv ht helement hg e r).bind fun n u hu => ensures_valued (hu.ensures_add _)
  · exact ensures_reject

end Groupings

/-! ### Inside an anchored request -/

/-- A value, or a request that is not the anchored one, over a receiver that ranges over items. -/
def Sheltered (many : String → String → Bool) (A : Anchor) (arg : Expr) (t : CompileState) :
    Meaning → Prop
  | .value _ => ∃ o', Guarded many A o' t
  | .row _ => False
  | .query r => r ≠ A.request ∧ (∃ o', Guarded many A o' t) ∧ arg.elementType.isItem = true

lemma Valued.sheltered {arg : Expr} {x : Meaning} (h : Valued many A t x) :
    Sheltered many A arg t x := by
  cases x with
  | value n => exact h
  | row a => exact h.elim
  | query r => exact h.elim

section Inside

variable {visit : Visit} (hv : Shelters many visit) (h : Guarded many A o s) {m : Method}
  {arg : Expr} {rest : List Expr} (harg : arg.Fits many)
  (hrest : Expr.FitsArgs many m arg.elementType rest)
include hv h harg hrest

omit hv h harg in
/-- The lambda of an aggregate, if there is one. -/
lemma fitsArgs_second (g : Expr) (hg : g ∈ (arg :: rest)[1]?) :
    ∃ tail, Expr.FitsArgs many m arg.elementType (g :: tail) := by
  cases rest with
  | nil => cases hg
  | cons f tail =>
    cases hg
    exact ⟨tail, hrest⟩

lemma sheltered_aggregate (htakes : (arg.type.isSequence || arg.type.isGrouping) = true) (e : Expr)
    (op : UnaryOp) :
    Ensures (aggregate visit e op arg (arg :: rest)) s fun x t => Sheltered many A arg t x := by
  have hf := fitsArgs_second hrest
  unfold aggregate
  dsimp only
  split
  · next hgrouping =>
    exact (valued_aggregateGrouping hv h harg hf hgrouping e op).mono fun x t hx => hx.sheltered
  · next hgrouping =>
    have hsequence : arg.type.isSequence = true := by
      rw [Bool.or_eq_true] at htakes
      exact htakes.resolve_right hgrouping
    refine (guarded_receiver hv h harg hsequence e).bind fun r t ⟨hr, ⟨o', ht⟩, hitem⟩ => ?_
    rw [ensures_bind, ensures_request]
    split
    · refine ensures_map.2 ((moved_aggregateDerived hv ht hitem hf e op r).mono fun outer u hu => ?_)
      exact ⟨(hu.inside hr).1, ⟨outer, (hu.inside hr).2⟩, hitem⟩
    · split
      · rw [ensures_get_bind]
        refine (moved_aggregateDerived hv ht hitem hf e op r).bind fun outer u hu => ?_
        have hu := (hu.inside hr).2
        split
        · rw [ensures_bind, ensures_modify, ht.active]
          refine (ensures_valued (o := o') ?_).mono fun x t hx => hx.sheltered
          exact (hu.activate o').ensures_add _
        · exact (ensures_valued (hu.ensures_add _)).mono fun x t hx => hx.sheltered
      · exact (valued_aggregateInside hv ht hitem hf hr e op).mono fun x t hx => hx.sheltered

lemma sheltered_any (hsequence : arg.type.isSequence = true) (e : Expr) :
    Ensures (any visit e arg (arg :: rest)) s fun x t => Sheltered many A arg t x := by
  unfold any
  split
  · exact ensures_reject_bind
  · refine (guarded_receiver hv h harg hsequence e).bind fun r t ⟨hr, ⟨o', ht⟩, hitem⟩ => ?_
    refine ensures_anyOf hv ht hitem (fitsArgs_second hrest) e r (fun u n o'' _ hu => ⟨o'', hu⟩) ?_
    exact fun u outer hu => ⟨(hu.inside hr).1, ⟨outer, (hu.inside hr).2⟩, hitem⟩

end Inside

/-! ### Writes -/

section Writes

variable {visit : Visit} (hv : Shelters many visit)
include hv

lemma guarded_assign (h : Guarded many A o s) (e : Expr) (r : RequestId) (target : AliasId)
    (bindings : List Binding) (hbindings : ∀ p v, .assign p v ∈ bindings → v.Fits many) :
    Ensures (assign visit e r target bindings) s fun _ t => Guarded many A o t := by
  induction bindings generalizing s with
  | nil => exact ensures_pure.2 h
  | cons b rest ih =>
    cases b with
    | list p es => exact ensures_reject
    | assign p v =>
      have hstore : ∀ column, Ensures (do
          let column ← add (.column target column)
          let n ← value visit v
          edit (·.pushAssignment r ⟨column, n⟩)
          assign visit e r target rest) s fun _ t => Guarded many A o t := by
        intro column
        refine (h.ensures_add _).bind fun column t ht => ?_
        refine (guarded_value hv ht (hbindings p v List.mem_cons_self)).bind fun n u hu => ?_
        refine (hu.ensures_edit (hu.anchored.pushAssignment r ⟨column, n⟩)).bind fun _ w hw => ?_
        exact ih hw fun q v hq => hbindings q v (List.mem_cons_of_mem _ hq)
      rw [assign, ensures_bind, ensures_ask]
      intro stored _
      split
      · exact ensures_reject_bind
      · exact ensures_reject_bind
      · exact hstore _
      · exact hstore _

variable {K : RequestId → Anchor → Prop} {m : Method} {e arg : Expr} {rest : List Expr}
  (hopen : Ensures (receiver visit e arg) s (Received many K arg))
include hopen

omit hv hopen in
/-- A write shows the static type of its expression. -/
lemma shown_markWrite (hK : K r A) (h : Guarded many A r t) (kind : RequestKind)
    (target : Option AliasId) :
    Ensures (markWrite e r kind target) t fun x u => Shown many K e.type u x :=
  shown_edit hK h e.type fun _ => by simp

omit hv in
lemma shown_delete : Ensures (delete visit e arg) s fun x t => Shown many K e.type t x := by
  refine ensures_openReceiver_bind hopen fun r A t hK ht _ => ?_
  rw [ensures_bind, ensures_request]
  exact shown_markWrite hK ht .delete _

variable (hrest : Expr.FitsArgs many m arg.elementType rest)
include hrest

omit hv in
lemma ensures_initializer_bind {α : Type} {m' : Method}
    {k : RequestId × String × List Binding → Compile α} {Q : α → CompileState → Prop}
    (hk : ∀ r A type bindings t, K r A → Guarded many A r t →
      (∀ p v, .assign p v ∈ bindings → v.Fits many) → Ensures (k (r, type, bindings)) t Q) :
    Ensures (initializer visit e m' arg (arg :: rest) >>= k) s Q := by
  refine ensures_bind.2 (ensures_openBody hopen hrest fun r A body t hK ht _ hbody hselects htype => ?_)
  clear hselects htype
  split
  · next type bindings =>
    exact ensures_pure.2 (hk r A type bindings t hK ht fun p v hp => (hbody.init p v hp).1)
  · exact ensures_reject

lemma shown_update : Ensures (update visit e arg (arg :: rest)) s fun x t => Shown many K e.type t x := by
  refine ensures_initializer_bind hopen hrest fun r A type bindings t hK ht hbindings => ?_
  dsimp only
  rw [ensures_bind, ensures_request]
  split
  · next target _ =>
    refine (guarded_assign hv ht e r target bindings hbindings).bind fun _ u hu => ?_
    exact shown_markWrite hK hu .update _
  · exact ensures_reject

lemma shown_insert : Ensures (insert visit e arg (arg :: rest)) s fun x t => Shown many K e.type t x := by
  refine ensures_initializer_bind hopen hrest fun r A type bindings t hK ht hbindings => ?_
  dsimp only
  rw [ensures_bind, ensures_ask]
  intro table _
  rw [ensures_get_bind, ensures_bind, ensures_build]
  refine (guarded_assign hv (ht.build (ht.anchored.addAlias _)) e r _ bindings hbindings).bind
    fun _ u hu => ?_
  exact shown_markWrite hK hu .insertSelect _

end Writes

end EntityQuery.Compile
