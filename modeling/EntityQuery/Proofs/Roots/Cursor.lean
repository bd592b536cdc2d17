import EntityQuery.Compile.Statement
import EntityQuery.Proofs.Compile.Ensures
import EntityQuery.Proofs.Projections.Operators

/-!
The request that is active after an expression has been compiled.

* `Stays r x`: the steps `x` leave the request `r` active. All steps of a rule do once the request of
  the rule is active, because a value goes back to the request before it.
* `Points`: an expression that stands for a request leaves this request active; one that stands for a
  row leaves the request active that was.
* `opens_operator`: an operator on rows, a write included, always stands for a request.
-/

namespace EntityQuery.Compile

open Sql

variable {α β : Type} {r : RequestId}

/-- Steps that leave a request active. -/
def Stays (r : RequestId) (x : Compile α) : Prop := Keeps (fun s => s.active = some r) x

/-- Steps that leave a request active and stand for it. -/
def GivesBack (r : RequestId) (x : Compile Meaning) : Prop :=
  Gives (fun s => s.active = some r) (fun m _ => m = .query r) x

/-- Steps that stand for a request and leave it active. -/
def Opens (x : Compile Meaning) : Prop :=
  ∀ s, Ensures x s fun m t => ∃ r, m = .query r ∧ t.active = some r

/-- What the active request is after an expression, by what the expression stands for. -/
def PointsTo (s t : CompileState) : Meaning → Prop
  | .value _ => True
  | .row _ => ∃ r, s.active = some r ∧ t.active = some r
  | .query r => t.active = some r

/-- A rule under which requests are active once an expression stands for them. -/
def Points (visit : Visit) : Prop := ∀ e s, Ensures (visit e) s fun m t => PointsTo s t m

/-! ### Steps -/

section Steps

lemma stays_build (x : Build α) : Stays r (build x) := fun _ hs => ensures_build.2 hs

lemma stays_add (x : Node) : Stays r (add x) := stays_build _

lemma stays_edit (f : Graph → Graph) : Stays r (edit f) := keeps_modify fun _ hs => hs

lemma stays_editRequest (q : RequestId) (f : Request → Request) : Stays r (editRequest q f) :=
  stays_edit _

lemma stays_duplicate (e : Expr) (n : NodeId) : Stays r (duplicate e n) := by
  refine Keeps.bind (stays_build _) fun m => ?_
  split
  · exact keeps_pure
  · exact keeps_reject

lemma stays_widening (w : Bool) {x : Compile α} (hx : Stays r x) : Stays r (widening w x) :=
  fun s hs => ensures_widening.2 (hx { s with widen := w } hs)

lemma stays_valueOf (m : Meaning) : Stays r (valueOf m) := by
  cases m with
  | value n => exact keeps_pure
  | row a => exact stays_add _
  | query q => exact stays_add _

/-- A value goes back to the request that was active, whatever its expression does. -/
lemma stays_value (visit : Visit) (e : Expr) : Stays r (value visit e) := by
  intro s hs
  rw [value, ensures_get_bind]
  refine ensures_after fun m t => ?_
  simp only [hs, Option.isSome_some, if_true]
  rw [ensures_bind, ensures_modify]
  exact stays_valueOf m _ rfl

lemma stays_condition (n : NodeId) : Stays r (condition n) := by
  refine Keeps.bind keeps_graph fun g => ?_
  split
  · exact Keeps.bind (stays_add _) fun truth => stays_add _
  · exact keeps_pure

lemma stays_setPath (p : PropertyRef) (path : List PropertyRef) : Stays r (setPath p path) := by
  have hrecord : Stays r (setPath.record p path) := keeps_modify fun _ hs => hs
  unfold setPath
  split
  · split
    · exact keeps_pure
    · exact hrecord
  · exact hrecord

lemma stays_setComputed (p : PropertyRef) (n : NodeId) : Stays r (setComputed p n) :=
  keeps_modify fun _ hs => hs

lemma stays_resolveStep (q : RequestId) (a : AliasId) (p : PropertyRef) :
    Stays r (resolveStep q a p) := fun _ hs => ensures_resolveStep.2 fun _ _ _ => hs

lemma stays_follow (e : Expr) (q : RequestId) (path : List PropertyRef) (m : Meaning) :
    Stays r (follow e q m path) := by
  induction path generalizing m with
  | nil =>
    have hfollow : follow e q m [] = pure m := by cases m <;> rfl
    rw [hfollow]
    exact keeps_pure
  | cons p path ih =>
    cases m with
    | row a => exact Keeps.bind (stays_resolveStep q a p) fun m => ih m
    | value n => exact keeps_reject
    | query q' => exact keeps_reject

lemma stays_resolveMember (e : Expr) (a : AliasId) (p : PropertyRef) :
    Stays r (resolveMember e a p) := by
  refine Keeps.bind (keeps_active e) fun q => keeps_get_bind fun s _ => ?_
  refine keeps_get_bind fun s' _ => ?_
  split
  · exact keeps_reject
  · exact Keeps.map (stays_duplicate e _) _
  · exact stays_follow e q _ _

lemma stays_enter (e : Expr) (q : RequestId) (f : Expr) : Stays r (enter e q f) := by
  unfold enter
  split
  · split
    · exact Keeps.bind (keeps_rowOf e q) fun a => Keeps.bind (stays_edit _) fun _ => keeps_pure
    · exact keeps_reject
  · exact keeps_reject

lemma stays_restrict (q : RequestId) (n : NodeId) : Stays r (restrict q n) := by
  refine Keeps.bind (keeps_request q) fun x => ?_
  split
  · exact stays_edit _
  · exact stays_edit _

lemma stays_predicate (visit : Visit) (e : Expr) (q : RequestId) (f : Expr) :
    Stays r (predicate visit e q f) :=
  Keeps.bind (stays_enter e q f) fun body => Keeps.bind (stays_value visit body) fun n =>
    stays_condition n

lemma stays_selectMember (q : RequestId) (n : NodeId) (p : Option PropertyRef) (newElement : Bool) :
    Stays r (selectMember q n p newElement) := stays_edit _

lemma stays_selectKeys (e : Expr) (q : RequestId) (newElement : Bool)
    (keys : List (NodeId × Option PropertyRef)) : Stays r (selectKeys e q newElement keys) := by
  induction keys generalizing newElement with
  | nil => exact keeps_pure
  | cons key keys ih =>
    exact Keeps.bind (stays_duplicate e _) fun n =>
      Keeps.bind (stays_selectMember q n _ _) fun _ => ih false

lemma stays_assign (visit : Visit) (e : Expr) (q : RequestId) (target : AliasId)
    (bindings : List Binding) : Stays r (assign visit e q target bindings) := by
  induction bindings with
  | nil => exact keeps_pure
  | cons b bindings ih =>
    cases b with
    | list p es => exact keeps_reject
    | assign p v =>
      have hassign : ∀ column, Stays r (do
          let column ← add (.column target column)
          let n ← value visit v
          edit (·.pushAssignment q ⟨column, n⟩)
          assign visit e q target bindings) := fun column =>
        Keeps.bind (stays_add _) fun column => Keeps.bind (stays_value visit v) fun n =>
          Keeps.bind (stays_edit _) fun _ => ih
      refine Keeps.bind (keeps_ask _) fun stored => ?_
      split
      · exact keeps_reject_bind
      · exact keeps_reject_bind
      · exact hassign _
      · exact hassign _

end Steps

/-! ### Operators on rows -/

lemma givesBack_query : GivesBack r (pure (.query r)) := gives_pure fun _ _ => rfl

lemma givesBack_markWrite (e : Expr) (kind : RequestKind) (target : Option AliasId) :
    GivesBack r (markWrite e r kind target) := (stays_editRequest r _).andThen fun _ => givesBack_query

section Operators

variable {visit : Visit}

/-- The request of a receiver is active from then on. -/
lemma opens_receiver {e arg : Expr} {k : RequestId → Compile Meaning} (hk : ∀ r, GivesBack r (k r)) :
    Opens (openReceiver visit e arg >>= k) := by
  intro s
  rw [openReceiver, bind_assoc]
  refine ensures_after fun r t => ?_
  rw [bind_assoc, ensures_bind, ensures_setActive, pure_bind]
  exact (hk r _ rfl).mono fun m u h => ⟨r, h.2, h.1⟩

variable (visit) (e arg : Expr) (args : List Expr)

lemma opens_filter : Opens (filter visit e arg args) := opens_receiver fun r =>
  (gives_argument e args 1).keeps.andThen fun f => (stays_predicate visit e r f).andThen fun n =>
    (stays_restrict r n).andThen fun _ => givesBack_query

lemma opens_first : Opens (first visit e arg args) := opens_receiver fun r => by
  have htake : GivesBack r (do
      editRequest r ({ · with take := some 1 })
      return .query r) := (stays_editRequest r _).andThen fun _ => givesBack_query
  dsimp only
  split
  · exact Keeps.andThen (stays_predicate visit e r _) fun n =>
      (stays_restrict r n).andThen fun _ => htake
  · exact htake

lemma opens_skip : Opens (skip visit e arg args) := opens_receiver fun r =>
  (gives_argument e args 1).keeps.andThen fun count => (keeps_rowCount e count).andThen fun _ =>
    (stays_editRequest r _).andThen fun _ => givesBack_query

lemma opens_take : Opens (take visit e arg args) := opens_receiver fun r =>
  (gives_argument e args 1).keeps.andThen fun count => (keeps_rowCount e count).andThen fun _ =>
    (stays_editRequest r _).andThen fun _ => givesBack_query

lemma opens_distinct : Opens (distinct visit e arg) := opens_receiver fun r =>
  (stays_editRequest r _).andThen fun _ => givesBack_query

lemma opens_order (restart ascending : Bool) : Opens (order visit e restart ascending arg args) :=
  opens_receiver fun r => by
    have hpush : GivesBack r (do
        let body ← enter e r (← argument e args 1)
        let n ← value visit body
        edit (·.pushOrder r n ascending)
        return .query r) :=
      (gives_argument e args 1).keeps.andThen fun f => (stays_enter e r f).andThen fun body =>
        (stays_value visit body).andThen fun n => (stays_edit _).andThen fun _ => givesBack_query
    dsimp only
    split
    · exact (stays_editRequest r _).andThen fun _ => hpush
    · exact hpush

lemma opens_delete : Opens (delete visit e arg) := opens_receiver fun r =>
  (keeps_request r).andThen fun q => givesBack_markWrite e .delete q.base

/-- The request of a write is active from then on. -/
lemma opens_initializer {m : Method} {k : RequestId × String × List Binding → Compile Meaning}
    (hk : ∀ r type bindings, GivesBack r (k (r, type, bindings))) :
    Opens (initializer visit e m arg args >>= k) := by
  rw [initializer, bind_assoc]
  refine opens_receiver fun r => ?_
  simp only [bind_assoc]
  refine (gives_argument e args 1).keeps.andThen fun f => (stays_enter e r f).andThen fun body => ?_
  split
  · next type bindings =>
    rw [pure_bind]
    exact hk r type bindings
  · exact fun _ _ => ensures_reject_bind

lemma opens_update : Opens (update visit e arg args) :=
  opens_initializer visit e arg args fun r type bindings => by
    refine (keeps_request r).andThen fun q => ?_
    split
    · exact (stays_assign visit e r _ bindings).andThen fun _ => givesBack_markWrite e .update _
    · exact gives_reject

lemma opens_insert : Opens (insert visit e arg args) :=
  opens_initializer visit e arg args fun r type bindings => by
    refine (keeps_ask _).andThen fun table => gives_get_bind fun s _ => ?_
    exact (stays_build _).andThen fun target => (stays_assign visit e r target bindings).andThen fun _ =>
      givesBack_markWrite e .insertSelect _

end Operators

/-! ### Projections and groupings -/

section Shapes

variable {visit : Visit} (hv : Points visit)
include hv

/-- A row leaves the active request as it was. -/
lemma stays_rowValue (e : Expr) : Stays r (rowValue visit e) := by
  intro s hs
  refine (hv e s).bind fun m t hm => ?_
  cases m with
  | row a =>
    obtain ⟨q, hq, ht⟩ := hm
    rw [hs] at hq
    cases hq
    exact ensures_pure.2 ht
  | value n => exact ensures_reject
  | query q => exact ensures_reject

lemma stays_groupingKeys (e grouping : Expr) : Stays r (groupingKeys visit e grouping) := by
  refine Keeps.bind (stays_rowValue hv grouping) fun a => Keeps.bind (keeps_active e) fun q =>
    Keeps.bind keeps_graph fun g => ?_
  dsimp only
  split
  · exact keeps_pure
  · exact keeps_reject

lemma stays_projectKey (q : RequestId) (p : PropertyRef) (e grouping : Expr) (newElement : Bool) :
    Stays r (projectKey visit q p e grouping newElement) := by
  refine Keeps.bind (stays_groupingKeys hv e grouping) fun keys => ?_
  split
  · exact Keeps.bind (stays_value visit e) fun n => Keeps.bind (stays_setComputed p n) fun _ =>
      stays_selectMember q n _ _
  · exact stays_selectKeys e q true _

omit hv in
lemma stays_projectPath (q : RequestId) (p : PropertyRef) (e : Expr) (newElement : Bool) :
    Stays r (projectPath visit q p e newElement) := by
  unfold projectPath
  cases e.type.isCollection with
  | true => exact keeps_reject_bind
  | false =>
    refine Keeps.bind (stays_value visit e) fun n => ?_
    cases e.memberPath? with
    | some path => exact Keeps.bind (stays_setPath p path) fun _ => stays_selectMember q n _ _
    | none => exact Keeps.bind (stays_setComputed p n) fun _ => stays_selectMember q n _ _

omit hv in
lemma stays_projectComputed (q : RequestId) (p : PropertyRef) (e : Expr) (newElement : Bool) :
    Stays r (projectComputed visit q p e newElement) :=
  Keeps.bind (stays_value visit e) fun n => Keeps.bind (stays_setComputed p n) fun _ =>
    Keeps.bind (stays_selectMember q n _ _) fun _ => keeps_modify fun _ hs => hs

omit hv in
mutual
theorem stays_projectMember {visit : Visit} (hv : Points visit) (q : RequestId) (p : PropertyRef)
    (newElement : Bool) : ∀ e, Stays r (projectMember visit q p newElement e)
  | .new _ members => by
    rw [projectMember]
    exact stays_projectMembers hv q true members
  | .key grouping => by
    rw [projectMember]
    exact stays_projectKey hv q p _ grouping newElement
  | .member _ _ | .param _ => by
    rw [projectMember]
    exact stays_projectPath q p _ newElement
  | .lambda _ _ | .init _ _ => keeps_reject
  | .source _ | .const _ | .binary _ _ _ | .unary _ _ | .cond _ _ _ | .call _ _ =>
    stays_projectComputed q p _ newElement

theorem stays_projectMembers {visit : Visit} (hv : Points visit) (q : RequestId) (newElement : Bool) :
    ∀ members, Stays r (projectMembers visit q newElement members)
  | [] => keeps_pure
  | (p, e) :: rest => by
    rw [projectMembers]
    exact Keeps.bind (stays_projectMember hv q p newElement e) fun _ =>
      stays_projectMembers hv q false rest
end

lemma stays_projectBindings (whole : Expr) (q : RequestId) (newElement : Bool)
    (bindings : List Binding) : Stays r (projectBindings visit whole q newElement bindings) := by
  induction bindings generalizing newElement with
  | nil => exact keeps_pure
  | cons b bindings ih =>
    cases b with
    | assign p e => exact Keeps.bind (stays_projectMember hv q p newElement e) fun _ => ih false
    | list p es => exact keeps_reject

omit hv in
/-- A single member makes its request active again. -/
lemma stays_projectSingle (e : Expr) (flattens : Bool) (body : Expr) :
    Stays r (projectSingle visit e flattens r body) := by
  have hrest : Stays r (do
      let m ← widening (!body.type.isCollection) (visit body)
      setActive r
      let n ← valueOf m
      edit fun g => (g.clearItems r).pushItem r { node := n }
      return if body.type.isCollection then body.type.elementOrSelf else body.type) := by
    refine fun s _ => ensures_after fun m t => ?_
    rw [ensures_bind, ensures_setActive]
    exact Keeps.bind (stays_valueOf m) (fun n => Keeps.bind (stays_edit _) fun _ => keeps_pure) _ rfl
  unfold projectSingle
  dsimp only
  split
  · exact keeps_reject_bind
  · exact hrest

lemma opens_select (e arg : Expr) (args : List Expr) (flattens : Bool) :
    Opens (select visit e flattens arg args) := opens_receiver fun r => by
  have hdone : ∀ shape, GivesBack r (do
      editRequest r ({ · with projection := some shape })
      return .query r) := fun shape => (stays_editRequest r _).andThen fun _ => givesBack_query
  refine (gives_argument e args 1).keeps.andThen fun f => (stays_enter e r f).andThen fun body => ?_
  split
  · refine (stays_edit _).andThen fun _ => ?_
    exact (stays_widening true (stays_projectMembers hv r true _)).andThen fun _ => hdone _
  · refine (stays_edit _).andThen fun _ => ?_
    exact (stays_widening true (stays_projectBindings hv e r true _)).andThen fun _ => hdone _
  · exact (stays_projectSingle e flattens _).andThen fun shape => hdone shape
  · exact (stays_projectSingle e flattens _).andThen fun shape => hdone shape
  · exact (stays_projectSingle e flattens _).andThen fun shape => hdone shape
  · exact fun _ _ => ensures_reject_bind

omit hv in
lemma opens_groupBy (e arg : Expr) (args : List Expr) : Opens (groupBy visit e arg args) :=
  opens_receiver fun r => by
    have hmember : ∀ x, Stays r (groupMember visit r x) := by
      rintro ⟨p, v⟩
      have hrest : Stays r (do
          let n ← value visit v
          edit (·.pushGroup r n (some p))) := Keeps.bind (stays_value visit v) fun n => stays_edit _
      unfold groupMember
      dsimp only
      split
      · exact Keeps.bind (stays_setPath p _) fun _ => hrest
      · exact hrest
    have hdone : GivesBack r (do
        editRequest r ({ · with projection := some e.elementType })
        return .query r) := (stays_editRequest r _).andThen fun _ => givesBack_query
    have hkey : ∀ body, GivesBack r (do
        let n ← value visit body
        edit (·.pushGroup r n none)
        editRequest r ({ · with projection := some e.elementType })
        return .query r) := fun body =>
      (stays_value visit body).andThen fun n => (stays_edit _).andThen fun _ => hdone
    refine (gives_argument e args 1).keeps.andThen fun f => (stays_enter e r f).andThen fun body => ?_
    split
    · exact (keeps_forM _ fun x _ => hmember x).andThen fun _ => hdone
    · exact hkey _
    · exact hkey _
    · exact fun _ _ => ensures_reject_bind

/-- **An operator on rows stands for a request**, which is active from then on. -/
theorem opens_operator (e arg : Expr) (args : List Expr) {m : Method} (hm : m.onRows = true) :
    Opens (operator visit e m arg args) := by
  cases m with
  | «where» => exact opens_filter visit e arg args
  | first => exact opens_first visit e arg args
  | skip => exact opens_skip visit e arg args
  | take => exact opens_take visit e arg args
  | distinct => exact opens_distinct visit e arg
  | orderBy => exact opens_order visit e arg args true true
  | orderByDescending => exact opens_order visit e arg args true false
  | thenBy => exact opens_order visit e arg args false true
  | thenByDescending => exact opens_order visit e arg args false false
  | select => exact opens_select hv e arg args false
  | selectMany => exact opens_select hv e arg args true
  | groupBy => exact opens_groupBy e arg args
  | insert => exact opens_insert visit e arg args
  | update => exact opens_update visit e arg args
  | delete => exact opens_delete visit e arg
  | _ => cases hm

end Shapes

end EntityQuery.Compile
