import EntityQuery.Proofs.Layouts.Filling
import EntityQuery.Proofs.Projections.Result

/-!
Expressions and operators on rows beside a request that is being put together.

* There is one lemma for every rule: it leaves the request alone, and stands for a plain value
  (`GivesSimple`), for another request (`GivesOther`), or for what its parts allow (`Beside`).
* An operator on rows goes on with another request, and stands for it.
* What a projection inside assigns is remembered: single values of members with single values.
  `ensures_projectPath` and `ensures_projectComputed` say so for any request that selects the value.
-/

namespace EntityQuery.Compile

open Sql Graph

variable {c : Catalog} {single : String → String → Bool} {A : Anchor} {k : Request} {r : RequestId}

/-! ### Steps that stand for nothing known -/

lemma givesSimple_reject {e : Expr} {cause : Cause} : GivesSimple c single A k (reject e cause) :=
  gives_reject

lemma givesOther_reject {e : Expr} {cause : Cause} : GivesOther c single A k (reject e cause) :=
  gives_reject

/-! ### Sources, constants and parameters -/

lemma givesOther_source (entity : String) : GivesOther c single A k (source entity) := fun s hs =>
  ensures_source_iff.2 fun table _ => by
    have hnew := hs.anchored.ne_new
    have hrequest := hs.anchored.skirts_addRequest s.active
    have halias := hrequest.trans (hrequest.anchored.skirts_addAlias
      (.ofTable table entity (s.mapping.catalog.idColumn entity).toOption))
    have hbase := halias.trans (halias.anchored.skirts_other hnew (f := fun q => { q with
      base := some ⟨s.graph.aliases.size⟩, projection := some (.entity entity),
      idColumn := (s.mapping.catalog.idColumn entity).toOption }) fun _ => rfl)
    exact ⟨(hs.skirt hbase).activate rfl, _, rfl, hnew⟩

lemma givesSimple_constant (e : Expr) (l : Literal) : GivesSimple c single A k (constant e l) :=
  fun s hs => ensures_constant_of e l fun _ => givesSimple_add rfl s hs

lemma beside_parameter (e : Expr) (p : Param) :
    Gives (Filling c single A k) (Beside c single A (.param p)) (parameter e p) := fun _ hs =>
  ensures_parameter_of e p fun _ _ _ _ => ⟨hs, rfl, nofun⟩

/-! ### Keys and members -/

section Members

variable (hsingle : ∀ p, single p.owner p.name = true → c.isNavigation p = false)
include hsingle

/-- A member of the only row of another request. -/
lemma givesSimple_memberOfQuery (hr : r ≠ A.request) (e : Expr) (p : PropertyRef) :
    GivesSimple c single A k (memberOfQuery e r p) := by
  refine (keeps_rowOf e r).andThen fun a => ?_
  refine (filling_within r (filling_resolveMember hsingle e a p).keeps).andThen fun m => ?_
  refine (filling_valueOf m).andThen fun n => (filling_selectOnly hr _).andThen fun _ => ?_
  exact (filling_other hr fun _ => by rfl).andThen fun _ => (filling_leave r).andThen fun _ =>
    givesSimple_add (x := .sub r) rfl

variable {visit : Visit} (hv : Fills c single visit)
include hv

lemma filling_keyMember {grouping : Expr} (hgrouping : grouping.Parted c single) (e : Expr)
    (p : PropertyRef) : Keeps (Filling c single A k) (keyMember visit e grouping p) := by
  refine (filling_groupingKeys hv hgrouping e).bind fun keys => ?_
  split
  · exact (filling_duplicate e _).map _
  · split
    · refine keeps_graph.bind fun g => ?_
      split
      · exact (filling_resolveMember hsingle e _ p).keeps.bind fun m => (filling_valueOf m).map _
      · exact keeps_reject
    · exact keeps_reject

lemma beside_member {target : Expr} {p : PropertyRef} (he : (Expr.member target p).Parted c single)
    (e : Expr) :
    Gives (Filling c single A k) (Beside c single A (.member target p)) (member visit e target p) := by
  unfold member
  split
  · next grouping =>
    intro s hs m t hrun
    obtain ⟨n, rfl⟩ := givesValue_keyMember visit e grouping p s m t hrun
    exact ⟨filling_keyMember hsingle hv he.member.key e p s hs _ t hrun, nofun⟩
  · next hkey =>
    have hrelates : ∀ q, (Expr.member target q).isSequence c = c.relates q := fun _ => rfl
    have hsingle' : (Expr.member target p).isSingle single = single p.owner p.name := by
      cases target with
      | key g => exact (hkey g rfl).elim
      | _ => rfl
    refine Gives.bind (hv A k target he.member) fun m s hs hm => ?_
    cases m with
    | row a =>
      refine (filling_resolveMember hsingle e a p s hs).mono fun m t ht => ⟨ht.1, ?_⟩
      obtain ⟨-, hquery, hrow, hvalue⟩ := ht
      cases m with
      | value n => exact fun h => hvalue (hsingle' ▸ h)
      | row b =>
        refine ⟨?_, fun h => hrow h⟩
        rw [hsingle']
        by_contra h
        exact hvalue (by simpa using h)
      | query q => exact (hquery q rfl).elim
    | query q => exact (givesSimple_memberOfQuery hsingle hm e p).beside _ s hs
    | value n => exact ensures_reject

end Members

section Visit

variable {visit : Visit} (hv : Fills c single visit)
include hv

lemma beside_key {grouping : Expr} (hgrouping : grouping.Parted c single) (e : Expr) :
    Gives (Filling c single A k) (Beside c single A (.key grouping)) (key visit e grouping) := by
  refine (filling_groupingKeys hv hgrouping e).andThen fun keys => ?_
  split
  · exact fun s hs => ensures_map.2 ((filling_duplicate e _ s hs).mono fun n t ht => ⟨ht, nofun⟩)
  · exact gives_reject

/-! ### Operators -/

lemma filling_anyValue {e : Expr} (he : e.Parted c single) :
    Keeps (Filling c single A k) (value visit e) := (filling_value hv he).keeps

lemma givesSimple_binary {l r : Expr} (hl : l.Parted c single) (hr : r.Parted c single) (e : Expr)
    (op : BinaryOperator) : GivesSimple c single A k (binary visit e op l r) := by
  unfold binary
  split
  · exact gives_reject
  · next sqlOp _ =>
    have hvalues : GivesSimple c single A k (do
        let left ← value visit l
        let right ← value visit r
        if op.isLogical then
          let left ← condition left
          let right ← condition right
          .value <$> add (.binary sqlOp left right)
        else .value <$> add (.binary sqlOp left right)) := by
      refine (filling_anyValue hv hl).andThen fun left => (filling_anyValue hv hr).andThen fun right => ?_
      split
      · exact (filling_condition left).andThen fun left => (filling_condition right).andThen fun right =>
          givesSimple_add rfl
      · exact givesSimple_add rfl
    refine gives_get_bind fun s₀ _ s hs => ensures_widening.2 ?_
    refine (hvalues _ (hs.widen (s₀.widen || op == .or))).mono fun m t ht => ⟨ht.1.widen s.widen, ?_⟩
    have hm := ht.2
    cases m <;> exact hm

lemma beside_unary {operand : Expr} (hoperand : operand.Parted c single) (e : Expr)
    (op : UnaryOperator) :
    Gives (Filling c single A k) (Beside c single A (.unary op operand)) (unary visit e op operand) := by
  cases op with
  | not =>
    refine GivesSimple.beside ?_ _
    exact (filling_anyValue hv hoperand).andThen fun n => (filling_condition n).andThen fun n =>
      givesSimple_add rfl
  | convert =>
    intro s hs
    refine (hv A k operand hoperand s hs).mono fun m t ht => ⟨ht.1, ?_⟩
    have hm := ht.2
    have hsingle : (Expr.unary .convert operand).isSingle single = operand.isSingle single := by
      rw [Expr.isSingle]
      rfl
    cases m with
    | value n => exact fun h => hm (hsingle ▸ h)
    | row a => exact ⟨hsingle.trans hm.1, fun h => (Bool.false_ne_true h).elim⟩
    | query r => exact hm
  | negate => exact gives_reject

lemma givesSimple_conditional {test yes no : Expr} (htest : test.Parted c single)
    (hyes : yes.Parted c single) (hno : no.Parted c single) :
    GivesSimple c single A k (conditional visit test yes no) :=
  (filling_anyValue hv htest).andThen fun t => (filling_condition t).andThen fun _ =>
    (filling_anyValue hv hyes).andThen fun _ => (filling_anyValue hv hno).andThen fun _ =>
      givesSimple_add rfl

end Visit

end EntityQuery.Compile

namespace EntityQuery.Compile

open Sql Graph

variable {c : Catalog} {single : String → String → Bool} {A : Anchor} {k : Request} {r : RequestId}
  {visit : Visit} {arg : Expr} {args : List Expr}

/-! ### Clauses -/

section Clauses

variable (hr : r ≠ A.request)
include hr

lemma filling_restrict (n : NodeId) : Keeps (Filling c single A k) (restrict r n) := by
  refine (keeps_request r).bind fun q => ?_
  split
  · exact filling_edit fun _ hg => hg.skirts_andHaving hr n
  · exact filling_edit fun _ hg => hg.skirts_andFilter hr n

lemma filling_selectMember (n : NodeId) (p : Option PropertyRef) (newElement : Bool) :
    Keeps (Filling c single A k) (selectMember r n p newElement) :=
  filling_pushItem hr _

lemma filling_selectKeys (e : Expr) (newElement : Bool) (keys : List (NodeId × Option PropertyRef)) :
    Keeps (Filling c single A k) (selectKeys e r newElement keys) := by
  induction keys generalizing newElement with
  | nil => exact keeps_pure
  | cons key keys ih =>
    exact (filling_duplicate e key.1).bind fun n =>
      (filling_selectMember hr n key.2 newElement).bind fun _ => ih false

lemma filling_selectAll (e : Expr) : Keeps (Filling c single A k) (selectAll e r) := by
  refine (keeps_request r).bind fun q => ?_
  split
  · split
    · exact (filling_add _).bind fun n => filling_pushItem hr _
    · exact keeps_reject
  · exact keeps_pure

lemma filling_selectCounted (e : Expr) : Keeps (Filling c single A k) (selectCounted e r) := by
  have hlabels : Keeps (Filling c single A k) (do
      if (← request r).items.isEmpty then selectAll e r
      else editRequest r fun q =>
        { q with items := q.items.zipIdx.map fun i =>
          { i.1 with label := some (derivedLabel i.2) } }) := by
    refine (keeps_request r).bind fun q => ?_
    split
    · exact filling_selectAll hr e
    · exact filling_other hr fun _ => by rfl
  refine (keeps_request r).bind fun q => ?_
  dsimp only
  split
  · refine Keeps.bind (keeps_forM _ fun key _ => ?_) fun _ => hlabels
    exact (filling_duplicate e key).bind fun n => filling_pushItem hr _
  · exact hlabels

/-- A request becomes a derived table of a new one. -/
lemma filling_derive : Gives (Filling c single A k) (fun x _ => x.1 ≠ A.request) (derive r) := by
  intro s hs
  rw [derive, ensures_bind, ensures_request, ensures_bind, ensures_build, ensures_bind, ensures_build,
    ensures_bind, ensures_editRequest, ensures_bind, ensures_editRequest, ensures_bind,
    ensures_setActive, ensures_pure]
  have hnew := hs.anchored.ne_new
  have hrequest := hs.anchored.skirts_addRequest (s.graph.request r).parent
  have halias := hrequest.trans (hrequest.anchored.skirts_addAlias (.derived r))
  have hinner := halias.trans (halias.anchored.skirts_other hr (f := fun q => { q with
    parent := some ⟨s.graph.requests.size⟩, orders := if q.isPaged then q.orders else [] }) fun _ => rfl)
  have houter := hinner.trans (hinner.anchored.skirts_other hnew
    (f := ({ · with base := some ⟨s.graph.aliases.size⟩ })) fun _ => rfl)
  exact ⟨(hs.skirt houter).activate rfl, hnew⟩

end Clauses

/-! ### Chains -/

section Operators

variable (hv : Fills c single visit) (hargs : ∀ a ∈ args, a.Parted c single)

include hargs in
/-- The other argument of an operator. -/
lemma gives_second {α : Type} {Q : α → CompileState → Prop} {e : Expr} {x : Expr → Compile α}
    (hx : ∀ f, f.Parted c single → Gives (Filling c single A k) Q (x f)) :
    Gives (Filling c single A k) Q (argument e args 1 >>= x) :=
  (gives_argument e args 1).andThen fun f hf => hx f (hargs f hf)

include hv

/-- The value of a lambda over a row. -/
lemma filling_body {f : Expr} (hf : f.Parted c single) (e : Expr) (r : RequestId) :
    Keeps (Filling c single A k) (do value visit (← enter e r f)) :=
  (gives_body (Q := fun _ _ => True) hf fun _ hbody =>
    (filling_anyValue hv hbody).gives fun _ _ _ => trivial).keeps

lemma filling_predicate {f : Expr} (hf : f.Parted c single) (e : Expr) (r : RequestId) :
    Keeps (Filling c single A k) (predicate visit e r f) :=
  (gives_body (Q := fun _ _ => True) hf fun _ hbody => (filling_anyValue hv hbody).andThen fun n =>
    (filling_condition n).gives fun _ _ _ => trivial).keeps

include hargs in
lemma givesSimple_like (harg : arg.Parted c single) (e : Expr) (before after : Bool) :
    GivesSimple c single A k (like visit e before after arg args) := by
  have hwildcard : Keeps (Filling c single A k) wildcard := filling_add _
  have hconcat : ∀ l r, Keeps (Filling c single A k) (concat l r) := fun l r => filling_add _
  refine (filling_anyValue hv harg).andThen fun subject => gives_second hargs fun f hf =>
    (filling_anyValue hv hf).andThen fun operand => ?_
  have hpattern : ∀ tail, GivesSimple c single A k (do
      let pattern ← if before then concat (← wildcard) tail else pure tail
      .value <$> add (.binary .like subject pattern)) := by
    intro tail
    split
    · exact hwildcard.andThen fun w => (hconcat w tail).andThen fun _ => givesSimple_add rfl
    · exact keeps_pure.andThen fun _ => givesSimple_add rfl
  dsimp only
  split
  · exact hwildcard.andThen fun w => (hconcat operand w).andThen fun tail => hpattern tail
  · exact keeps_pure.andThen fun tail => hpattern tail

include hargs in
lemma givesSimple_contains (harg : arg.Parted c single) (e : Expr) :
    GivesSimple c single A k (contains visit e arg args) := by
  refine gives_second hargs fun item hitem => ?_
  split
  · exact givesSimple_like hv hargs harg e true true
  · split
    · exact (filling_anyValue hv hitem).andThen fun operand =>
        (keeps_mapM _ fun v _ => filling_add _).andThen fun values => givesSimple_add rfl
    · exact givesSimple_reject

variable (harg : arg.Parted c single) (hsequence : arg.isSequence c = true)
include harg hsequence

/-- An operator goes on with another request. -/
lemma givesOther_receiver {e : Expr} {x : RequestId → Compile Meaning}
    (hx : ∀ r, r ≠ A.request → GivesOther c single A k (x r)) :
    GivesOther c single A k (openReceiver visit e arg >>= x) :=
  (filling_openReceiver hv harg hsequence e).andThen hx

lemma givesOther_distinct (e : Expr) : GivesOther c single A k (distinct visit e arg) :=
  givesOther_receiver hv harg hsequence fun _ hr => (filling_other hr fun _ => by rfl).andThen fun _ =>
    givesOther_query hr

lemma givesOther_skip (e : Expr) : GivesOther c single A k (skip visit e arg args) :=
  givesOther_receiver hv harg hsequence fun _ hr => (gives_argument e args 1).keeps.andThen fun count =>
    (keeps_rowCount e count).andThen fun _ => (filling_other hr fun _ => by rfl).andThen fun _ =>
      givesOther_query hr

lemma givesOther_take (e : Expr) : GivesOther c single A k (take visit e arg args) :=
  givesOther_receiver hv harg hsequence fun _ hr => (gives_argument e args 1).keeps.andThen fun count =>
    (keeps_rowCount e count).andThen fun _ => (filling_other hr fun _ => by rfl).andThen fun _ =>
      givesOther_query hr

include hargs

lemma givesOther_filter (e : Expr) : GivesOther c single A k (filter visit e arg args) :=
  givesOther_receiver hv harg hsequence fun r hr => gives_second hargs fun _ hf =>
    (filling_predicate hv hf e r).andThen fun n => (filling_restrict hr n).andThen fun _ =>
      givesOther_query hr

lemma givesOther_first (e : Expr) : GivesOther c single A k (first visit e arg args) :=
  givesOther_receiver hv harg hsequence fun r hr => by
    have htake : GivesOther c single A k (do
        editRequest r ({ · with take := some 1 })
        return .query r) := (filling_other hr fun _ => by rfl).andThen fun _ => givesOther_query hr
    dsimp only
    split
    · next f hf =>
      exact (filling_predicate hv (hargs f (List.mem_of_getElem? hf)) e r).andThen fun n =>
        (filling_restrict hr n).andThen fun _ => htake
    · exact htake

lemma givesOther_order (e : Expr) (restart ascending : Bool) :
    GivesOther c single A k (order visit e restart ascending arg args) :=
  givesOther_receiver hv harg hsequence fun r hr => by
    have hpush : GivesOther c single A k (do
        let body ← enter e r (← argument e args 1)
        let n ← value visit body
        edit (·.pushOrder r n ascending)
        return .query r) := gives_second hargs fun f hf =>
      gives_body hf fun body hbody => (filling_anyValue hv hbody).andThen fun n =>
        (filling_edit fun _ hg => hg.skirts_pushOrder hr n ascending).andThen fun _ =>
          givesOther_query hr
    dsimp only
    split
    · exact (filling_other hr fun _ => by rfl).andThen fun _ => hpush
    · exact hpush

end Operators

/-! ### Projections and groupings -/

section Members

variable (hv : Fills c single visit) {p : PropertyRef} {e : Expr} (he : Expr.Parted.Filled c single p e)
include hv he

/-- What a path selects for a member. -/
lemma ensures_projectPath {P : Request → Prop} {newElement : Bool} (hpush : ∀ n t,
      Filling c single A k t → (e.isSingle single = true → t.graph.Plain n) →
        ∃ k', P k' ∧ Filling c single A k' { t with
          graph := t.graph.pushItem r { node := n, property := some p, newElement } })
    {s : CompileState} (hs : Filling c single A k s) :
    Ensures (projectPath visit r p e newElement) s fun _ t => ∃ k', P k' ∧ Filling c single A k' t := by
  obtain ⟨hp, hsingle, hparted⟩ := he
  unfold projectPath
  cases e.type.isCollection with
  | true => exact ensures_reject_bind
  | false =>
    refine (filling_value hv hparted s hs).bind fun n t hnt => ?_
    obtain ⟨ht, hn⟩ := hnt
    cases hpath : e.memberPath? with
    | some path =>
      refine (ht.ensures_setPath hp fun h => Expr.endsMany_of_isSingle (hsingle h) hpath).bind
        fun _ u hu => ?_
      exact ensures_edit.2 (hpush n u hu.1 fun h => hu.2 ▸ hn h)
    | none =>
      dsimp only
      rw [setComputed, ensures_bind, ensures_modify, selectMember, ensures_edit]
      exact hpush n _ (ht.setComputed fun h => hn (hsingle h)) hn

/-- What a computed value selects for a member. -/
lemma ensures_projectComputed {P : Request → Prop} {newElement : Bool} (hpush : ∀ n t,
      Filling c single A k t → (e.isSingle single = true → t.graph.Plain n) →
        ∃ k', P k' ∧ Filling c single A k' { t with
          graph := t.graph.pushItem r { node := n, property := some p, newElement } })
    {s : CompileState} (hs : Filling c single A k s) :
    Ensures (projectComputed visit r p e newElement) s fun _ t =>
      ∃ k', P k' ∧ Filling c single A k' t := by
  obtain ⟨hp, hsingle, hparted⟩ := he
  refine (filling_value hv hparted s hs).bind fun n t hnt => ?_
  obtain ⟨ht, hn⟩ := hnt
  rw [setComputed, ensures_bind, ensures_modify, selectMember, ensures_bind, ensures_edit,
    ensures_modify]
  obtain ⟨k', hk', hpushed⟩ := hpush n _ (ht.setComputed fun h => hn (hsingle h)) hn
  exact ⟨k', hk', hpushed.register fun h => (hn (hsingle h)).pushItem r _⟩

end Members

section Shapes

variable (hr : r ≠ A.request)
include hr

lemma Filling.pushOther {s : CompileState} (h : Filling c single A k s) (i : Item) :
    ∃ k', k' = k ∧ Filling c single A k' { s with graph := s.graph.pushItem r i } :=
  ⟨k, rfl, h.skirt (h.anchored.skirts_pushItem hr i)⟩

variable (hv : Fills c single visit)
include hv

lemma filling_projectKey {p : PropertyRef} {grouping : Expr}
    (he : Expr.Parted.Filled c single p (.key grouping)) (newElement : Bool) :
    Keeps (Filling c single A k) (projectKey visit r p (.key grouping) grouping newElement) := by
  obtain ⟨-, hsingle, hparted⟩ := he
  refine (filling_groupingKeys hv hparted.key _).bind fun keys => ?_
  split
  · intro s hs
    refine (filling_value hv hparted s hs).bind fun n t hnt => ?_
    obtain ⟨ht, hn⟩ := hnt
    rw [setComputed, ensures_bind, ensures_modify, selectMember, ensures_edit]
    exact (ht.setComputed fun h => hn (hsingle h)).skirt (ht.anchored.skirts_pushItem hr _)
  · exact filling_selectKeys hr _ true _

omit hr hv in
mutual
theorem filling_projectMember {visit : Visit} (hv : Fills c single visit) (hr : r ≠ A.request)
    (p : PropertyRef) (newElement : Bool) : ∀ e, Expr.Parted.Filled c single p e →
      Keeps (Filling c single A k) (projectMember visit r p newElement e)
  | .new _ members, he => by
    rw [projectMember]
    exact filling_projectMembers hv hr true members he.2.2.new
  | .key grouping, he => by
    rw [projectMember]
    exact filling_projectKey hr hv he newElement
  | .member _ _, he | .param _, he => by
    rw [projectMember]
    exact fun s hs => (ensures_projectPath hv he (fun n t ht _ => ht.pushOther hr _) hs).mono
      fun _ t ⟨_, hk, ht⟩ => hk ▸ ht
  | .lambda _ _, _ | .init _ _, _ => keeps_reject
  | .source _, he | .const _, he | .binary _ _ _, he | .unary _ _, he | .cond _ _ _, he
  | .call _ _, he => fun s hs =>
    (ensures_projectComputed hv he (fun n t ht _ => ht.pushOther hr _) hs).mono
      fun _ t ⟨_, hk, ht⟩ => hk ▸ ht

theorem filling_projectMembers {visit : Visit} (hv : Fills c single visit) (hr : r ≠ A.request)
    (newElement : Bool) : ∀ members, (∀ x ∈ members, Expr.Parted.Filled c single x.1 x.2) →
      Keeps (Filling c single A k) (projectMembers visit r newElement members)
  | [], _ => keeps_pure
  | (p, e) :: rest, hmembers => by
    rw [projectMembers]
    exact (filling_projectMember hv hr p newElement e (hmembers _ List.mem_cons_self)).bind fun _ =>
      filling_projectMembers hv hr false rest fun x hx => hmembers x (List.mem_cons_of_mem _ hx)
end

lemma filling_projectBindings (whole : Expr) (newElement : Bool) (bindings : List Binding)
    (hbindings : ∀ p e, .assign p e ∈ bindings → Expr.Parted.Filled c single p e) :
    Keeps (Filling c single A k) (projectBindings visit whole r newElement bindings) := by
  induction bindings generalizing newElement with
  | nil => exact keeps_pure
  | cons b bindings ih =>
    cases b with
    | assign p e =>
      exact (filling_projectMember hv hr p newElement e (hbindings p e List.mem_cons_self)).bind
        fun _ => ih false fun q v hq => hbindings q v (List.mem_cons_of_mem _ hq)
    | list p es => exact keeps_reject

lemma filling_projectSingle (e : Expr) (flattens : Bool) {body : Expr} (hbody : body.Parted c single) :
    Keeps (Filling c single A k) (projectSingle visit e flattens r body) := by
  have hrest : Keeps (Filling c single A k) (do
      let m ← widening (!body.type.isCollection) (visit body)
      setActive r
      let n ← valueOf m
      edit fun g => (g.clearItems r).pushItem r { node := n }
      return if body.type.isCollection then body.type.elementOrSelf else body.type) := by
    refine (filling_widening _ (hv A k body hbody).keeps).bind fun m => (filling_setActive r).bind
      fun _ => (filling_valueOf m).bind fun n => (filling_selectOnly hr _).bind fun _ => keeps_pure
  unfold projectSingle
  dsimp only
  split
  · exact keeps_reject_bind
  · exact hrest

end Shapes

section Queries

variable (hv : Fills c single visit) (hargs : ∀ a ∈ args, a.Parted c single)
  (harg : arg.Parted c single) (hsequence : arg.isSequence c = true)
include hv hargs harg hsequence

lemma givesOther_select (e : Expr) (flattens : Bool) :
    GivesOther c single A k (select visit e flattens arg args) :=
  givesOther_receiver hv harg hsequence fun r hr => gives_second hargs fun f hf => by
    have hdone : ∀ shape, GivesOther c single A k (do
        editRequest r ({ · with projection := some shape })
        return .query r) := fun shape => (filling_other hr fun _ => by rfl).andThen fun _ =>
      givesOther_query hr
    have hclear : Keeps (Filling c single A k) (edit (·.clearItems r)) :=
      filling_edit fun _ hg => hg.skirts_clearItems hr
    refine gives_body hf fun body hbody => ?_
    split
    · exact hclear.andThen fun _ =>
        (filling_widening true (filling_projectMembers hv hr true _ hbody.new)).andThen fun _ => hdone _
    · exact hclear.andThen fun _ =>
        (filling_widening true (filling_projectBindings hr hv e true _ hbody.init)).andThen fun _ =>
          hdone _
    · exact (filling_projectSingle hr hv e flattens hbody).andThen hdone
    · exact (filling_projectSingle hr hv e flattens hbody).andThen hdone
    · exact (filling_projectSingle hr hv e flattens hbody).andThen hdone
    · exact fun _ _ => ensures_reject_bind

lemma givesOther_groupBy (e : Expr) : GivesOther c single A k (groupBy visit e arg args) :=
  givesOther_receiver hv harg hsequence fun r hr => gives_second hargs fun f hf => by
    have hdone : GivesOther c single A k (do
        editRequest r ({ · with projection := some e.elementType })
        return .query r) := (filling_other hr fun _ => by rfl).andThen fun _ => givesOther_query hr
    have hmember : ∀ p v, Expr.Parted.Filled c single p v →
        Keeps (Filling c single A k) (groupMember visit r (p, v)) := by
      intro p v ⟨hp, hsingle, hparted⟩
      have hrest : Keeps (Filling c single A k) (do
          let n ← value visit v
          edit (·.pushGroup r n (some p))) :=
        (filling_anyValue hv hparted).bind fun n => filling_edit fun _ hg => hg.skirts_pushGroup hr n _
      unfold groupMember
      dsimp only
      split
      · next path hpath =>
        exact fun s hs => (hs.ensures_setPath hp fun h => Expr.endsMany_of_isSingle (hsingle h) hpath).bind
          fun _ t ht => hrest t ht.1
      · exact hrest
    have hkey : ∀ body, body.Parted c single → GivesOther c single A k (do
        let n ← value visit body
        edit (·.pushGroup r n none)
        editRequest r ({ · with projection := some e.elementType })
        return .query r) := fun body hbody => (filling_anyValue hv hbody).andThen fun n =>
      (filling_edit fun _ hg => hg.skirts_pushGroup hr n _).andThen fun _ => hdone
    refine gives_body hf fun body hbody => ?_
    split
    · exact (keeps_forM _ fun x hx => hmember x.1 x.2 (hbody.new x hx)).andThen fun _ => hdone
    · exact hkey _ hbody
    · exact hkey _ hbody
    · exact fun _ _ => ensures_reject_bind

end Queries

end EntityQuery.Compile
