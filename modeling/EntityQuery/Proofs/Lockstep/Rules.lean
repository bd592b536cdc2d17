import EntityQuery.Compile.Chain
import EntityQuery.Proofs.Lockstep.Scope

/-!
The rules for values and for operators on rows, in lockstep.

* `ShadowsBelow K drop n visit visit'`: the rule `visit'` compiles what is nested at most `n` deep
  without the hints in `drop` as `visit` compiles it with them.
* One lemma for each rule: if the rules for the parts are in lockstep, so are the rules for the whole.
  The hints of the whole are those of its receiver, then those of its argument.
-/

namespace EntityQuery

open Sql

variable {K : JoinKind → JoinKind → Prop} {drop : Method → Bool} {n : Nat}

/-- The hints of an argument, if there is one. -/
def Expr.hintLogs? (drop : Method → Bool) : Option Expr → Language (LoadingHint × Bool)
  | none => 1
  | some f => f.hintLogs drop

/-- Arguments of a call and the ones of the call without hints. -/
structure ShedArguments (drop : Method → Bool) (n : Nat) (args args' : List Expr) : Prop where
  second : args'[1]? = args[1]?.map (Expr.shed drop)
  depth : ∀ f ∈ args[1]?, (f.shed drop).depth ≤ n

namespace Compile

/-- Rules that are in lockstep on what is nested at most `n` deep. -/
def ShadowsBelow (K : JoinKind → JoinKind → Prop) (drop : Method → Bool) (n : Nat)
    (visit visit' : Visit) : Prop :=
  ∀ e : Expr, (e.shed drop).depth ≤ n → Shadows K drop visit visit' e

/-! ### Sources and constants -/

lemma follows_source [Std.Refl K] (entity : String) :
    Follows K Eq 1 (source entity) (source entity) := by
  refine follows_ask.andThen fun table => .get_bind fun s t hs => ?_
  rw [hs.mapping]
  refine .get_bind fun s t hs => ?_
  rw [hs.active]
  refine (follows_build (Build.tracks_addRequest _)).andThen fun r => ?_
  refine (follows_build (Build.tracks_addAlias _)).andThen fun a => ?_
  refine (follows_editRequest r fun _ _ => rfl).andThen fun _ => ?_
  exact (follows_setActive r).andThen fun _ => .pure rfl

lemma follows_constant (e e' : Expr) (l : Literal) :
    Follows K Eq 1 (constant e l) (constant e' l) := by
  cases l with
  | value v => exact .map (follows_add _)
  | list vs => exact .reject
  | entity name fields =>
    refine .get_bind fun s t hs => ?_
    rw [hs.mapping]
    cases s.mapping.catalog.idProperty name with
    | error err => exact .reject
    | ok id =>
      dsimp only
      cases fields.lookup id.name with
      | some v => exact .map (follows_add _)
      | none => exact .reject

lemma follows_parameter (e e' : Expr) (p : Param) :
    Follows K Eq 1 (parameter e p) (parameter e' p) := by
  refine (follows_active e e').andThen fun r => follows_graph_bind fun g h hg => ?_
  rw [hg.aliasFor?]
  split
  · exact .pure rfl
  · exact .reject

/-! ### Grouping keys -/

section Keys

variable {visit visit' : Visit} {grouping : Expr} (hg : Shadows K drop visit visit' grouping)
include hg

lemma follows_groupingKeys (e e' : Expr) :
    Follows K Eq (grouping.hintLogs drop) (groupingKeys visit e grouping)
      (groupingKeys visit' e' (grouping.shed drop)) := by
  refine (follows_rowValue hg).ending fun a => (follows_active e e').andThen fun r => ?_
  refine follows_graph_bind fun g h hg => ?_
  have hkeys : ∀ q : Request, Follows K Eq 1
      (if q.isGrouped then pure (q.groups.zip q.groupMembers) else reject e .keyOutsideGrouping)
      (if q.isGrouped then pure (q.groups.zip q.groupMembers) else reject e' .keyOutsideGrouping) := by
    intro q
    split
    · exact .pure rfl
    · exact .reject
  obtain ⟨joins, -, hq⟩ := hg.request ((g.requestOver? r a).getD r)
  rw [hg.requestOver?]
  dsimp only
  rw [hq]
  exact hkeys _

variable [Std.Refl K]

lemma follows_key (e e' : Expr) :
    Follows K Eq (grouping.hintLogs drop) (key visit e grouping)
      (key visit' e' (grouping.shed drop)) := by
  refine (follows_groupingKeys hg e e').ending fun keys => ?_
  split
  · exact .map (follows_duplicate e e' _)
  · exact .reject

lemma follows_keyMember (e e' : Expr) (p : PropertyRef) :
    Follows K Eq (grouping.hintLogs drop) (keyMember visit e grouping p)
      (keyMember visit' e' (grouping.shed drop) p) := by
  refine (follows_groupingKeys hg e e').ending fun keys => ?_
  split
  · exact .map (follows_duplicate e e' _)
  · rcases keys with _ | ⟨⟨n, q⟩, _ | ⟨k, keys⟩⟩
    · exact .reject
    · refine follows_graph_bind fun g h hg => ?_
      rw [hg.node]
      split
      · exact (follows_resolveMember e e' _ p).andThen fun m => .map (follows_valueOf m)
      · exact .reject
    · exact .reject

end Keys

/-! ### Members -/

section Members

variable [Std.Refl K]

lemma follows_memberOfQuery (e e' : Expr) (r : RequestId) (p : PropertyRef) :
    Follows K Eq 1 (memberOfQuery e r p) (memberOfQuery e' r p) := by
  refine (follows_rowOf e e' r).andThen fun a => ?_
  refine (follows_within r (follows_resolveMember e e' a p)).andThen fun m => ?_
  refine (follows_valueOf m).andThen fun n => ?_
  refine (follows_edit fun _ _ hg => (hg.clearItems r).pushItem r _).andThen fun _ => ?_
  refine (follows_editRequest r fun _ _ => rfl).andThen fun _ => ?_
  exact (follows_leave r).andThen fun _ => .map (follows_add _)

/-- A member of what is no key is a member of what its meaning is. -/
lemma follows_memberOf {visit visit' : Visit} {target : Expr}
    (ht : Shadows K drop visit visit' target) (e e' : Expr) (p : PropertyRef) :
    Follows K Eq (target.hintLogs drop)
      (do match ← visit target with
          | .row a => resolveMember e a p
          | .query r => memberOfQuery e r p
          | .value _ => reject e .memberOfValue)
      (do match ← visit' (target.shed drop) with
          | .row a => resolveMember e' a p
          | .query r => memberOfQuery e' r p
          | .value _ => reject e' .memberOfValue) := by
  refine ht.ending fun m => ?_
  cases m with
  | row a => exact follows_resolveMember e e' a p
  | query r => exact follows_memberOfQuery e e' r p
  | value n => exact .reject

end Members

section Visit

variable [Std.Refl K] {visit visit' : Visit} (hv : ShadowsBelow K drop n visit visit')
include hv

lemma follows_member (e e' : Expr) {target : Expr} (h : (target.shed drop).depth ≤ n)
    (p : PropertyRef) :
    Follows K Eq (target.hintLogs drop) (member visit e target p)
      (member visit' e' (target.shed drop) p) := by
  cases target with
  | key grouping =>
    rw [Expr.shed, Expr.depth] at h
    rw [Expr.shed, Expr.hintLogs]
    exact follows_keyMember (hv grouping (by omega)) e e' p
  | call m args =>
    have hcall := hv _ h
    have hform := Expr.isSourceOrCall_shed_call drop m args
    have hof := follows_memberOf hcall e e' p
    generalize (Expr.call m args).shed drop = target' at hform hof
    cases target' <;> first | exact hof | cases hform
  | _ => exact follows_memberOf (hv _ h) e e' p

/-! ### Operators -/

omit [Std.Refl K] hv in
/-- Under a disjunction both runs widen; elsewhere both go on as they did. -/
lemma widens_or [Std.Refl K] {s t : CompileState} (hs : s.Rejoined K t) (b : Bool) :
    K (.ofWiden (s.widen || b)) (.ofWiden (t.widen || b)) := by
  cases b with
  | false => rw [Bool.or_false, Bool.or_false]; exact hs.widen
  | true => rw [Bool.or_true, Bool.or_true]; exact Std.Refl.refl _

lemma follows_binary (e e' : Expr) (op : BinaryOperator) {l r : Expr}
    (hl : (l.shed drop).depth ≤ n) (hr : (r.shed drop).depth ≤ n) :
    Follows K Eq (l.hintLogs drop * r.hintLogs drop) (binary visit e op l r)
      (binary visit' e' op (l.shed drop) (r.shed drop)) := by
  unfold binary
  rw [Expr.type_shed, Expr.type_shed]
  split
  · exact .reject
  · refine .get_bind fun s t hs => follows_widening (widens_or hs _) ?_
    refine (follows_value (hv l hl)).seq fun left => (follows_value (hv r hr)).ending fun right => ?_
    split
    · refine (follows_condition left).andThen fun left => ?_
      exact (follows_condition right).andThen fun right => .map (follows_add _)
    · exact .map (follows_add _)

omit [Std.Refl K] in
lemma follows_unary (e e' : Expr) (op : UnaryOperator) {operand : Expr}
    (h : (operand.shed drop).depth ≤ n) :
    Follows K Eq (operand.hintLogs drop) (unary visit e op operand)
      (unary visit' e' op (operand.shed drop)) := by
  cases op with
  | not =>
    refine (follows_value (hv operand h)).ending fun n => (follows_condition n).andThen fun n => ?_
    exact .map (follows_add _)
  | convert => exact hv operand h
  | negate => exact .reject

omit [Std.Refl K] in
lemma follows_conditional {test yes no : Expr} (ht : (test.shed drop).depth ≤ n)
    (hy : (yes.shed drop).depth ≤ n) (hn : (no.shed drop).depth ≤ n) :
    Follows K Eq (test.hintLogs drop * (yes.hintLogs drop * no.hintLogs drop))
      (conditional visit test yes no)
      (conditional visit' (test.shed drop) (yes.shed drop) (no.shed drop)) := by
  refine (follows_value (hv test ht)).seq fun t => (follows_condition t).andThen fun t => ?_
  refine (follows_value (hv yes hy)).seq fun y => (follows_value (hv no hn)).ending fun n => ?_
  exact .map (follows_add _)

/-! ### Filters -/

omit [Std.Refl K] hv in
lemma follows_restrict (r : RequestId) (n : NodeId) :
    Follows K Eq 1 (restrict r n) (restrict r n) := by
  refine follows_request_bind (fun _ _ => rfl) fun q => ?_
  split
  · exact follows_edit fun _ _ hg => hg.andHaving r n
  · exact follows_edit fun _ _ hg => hg.andFilter r n

omit [Std.Refl K] hv in
/-- The body of a lambda, compiled by the rules of the two runs. -/
lemma follows_body {β : Type} {S : β → β → Prop} (e e' : Expr) (r : RequestId) {f : Expr}
    {k k' : Expr → Compile β}
    (hk : ∀ ps body, f = .lambda ps body →
      Follows K S (body.hintLogs drop) (k body) (k' (body.shed drop))) :
    Follows K S (f.hintLogs drop) (enter e r f >>= k) (enter e' r (f.shed drop) >>= k') := by
  refine (follows_enter e e' r f).lead ?_
  rintro body _ ⟨ps, rfl, rfl⟩
  rw [Expr.hintLogs]
  exact hk ps body rfl

omit [Std.Refl K] hv in
lemma depth_body {f body : Expr} {ps : List Param} (h : (f.shed drop).depth ≤ n)
    (hf : f = .lambda ps body) : (body.shed drop).depth ≤ n := by
  subst hf
  rw [Expr.shed_lambda, Expr.depth] at h
  omega

omit [Std.Refl K] in
lemma follows_predicate (e e' : Expr) (r : RequestId) {f : Expr} (h : (f.shed drop).depth ≤ n) :
    Follows K Eq (f.hintLogs drop) (predicate visit e r f)
      (predicate visit' e' r (f.shed drop)) := by
  refine follows_body e e' r fun ps body hf => ?_
  exact (follows_value (hv body (depth_body h hf))).ending fun n => follows_condition n

lemma follows_openReceiver (e e' : Expr) {arg : Expr} (h : (arg.shed drop).depth ≤ n) :
    Follows K Eq (arg.hintLogs drop) (openReceiver visit e arg)
      (openReceiver visit' e' (arg.shed drop)) :=
  (follows_receiver e e' (hv arg h)).ending fun r => (follows_setActive r).andThen fun _ => .pure rfl

section Args

variable {args args' : List Expr} (hargs : ShedArguments drop n args args')
include hargs

omit [Std.Refl K] hv in
/-- The argument that follows the receiver, and what is done with it. -/
lemma follows_second {β : Type} {S : β → β → Prop} (e e' : Expr) {k k' : Expr → Compile β}
    (hk : ∀ f, (f.shed drop).depth ≤ n →
      Follows K S (f.hintLogs drop) (k f) (k' (f.shed drop))) :
    Follows K S (Expr.hintLogs? drop args[1]?) (argument e args 1 >>= k)
      (argument e' args' 1 >>= k') := by
  refine (follows_argument e e' hargs.second).lead ?_
  rintro f _ ⟨hf, rfl⟩
  rw [hf]
  exact hk f (hargs.depth f hf)

lemma follows_filter (e e' : Expr) {arg : Expr} (h : (arg.shed drop).depth ≤ n) :
    Follows K Eq (arg.hintLogs drop * Expr.hintLogs? drop args[1]?) (filter visit e arg args)
      (filter visit' e' (arg.shed drop) args') := by
  refine (follows_openReceiver hv e e' h).seq fun r => follows_second hargs e e' fun f hf => ?_
  refine (follows_predicate hv e e' r hf).ending fun n => ?_
  exact (follows_restrict r n).andThen fun _ => .pure rfl

lemma follows_first (e e' : Expr) {arg : Expr} (h : (arg.shed drop).depth ≤ n) :
    Follows K Eq (arg.hintLogs drop * Expr.hintLogs? drop args[1]?) (first visit e arg args)
      (first visit' e' (arg.shed drop) args') := by
  refine (follows_openReceiver hv e e' h).seq fun r => ?_
  have hdepth := hargs.depth
  rw [hargs.second]
  cases hsecond : args[1]? with
  | none => exact (follows_editRequest r fun _ _ => rfl).andThen fun _ => .pure rfl
  | some f =>
    refine (follows_predicate hv e e' r (hdepth f hsecond)).ending fun n => ?_
    refine (follows_restrict r n).andThen fun _ => ?_
    exact (follows_editRequest r fun _ _ => rfl).andThen fun _ => .pure rfl

/-! ### Paging -/

omit [Std.Refl K] hargs hv in
/-- A number of rows is a constant, which has no hints. -/
lemma follows_rowCount (e e' count : Expr) :
    Follows K Eq (count.hintLogs drop) (rowCount e count) (rowCount e' (count.shed drop)) := by
  unfold rowCount
  split
  · rw [Expr.shed, Expr.hintLogs]
    dsimp only
    split
    · exact .reject
    · exact .pure rfl
  · exact .reject

lemma follows_skip (e e' : Expr) {arg : Expr} (h : (arg.shed drop).depth ≤ n) :
    Follows K Eq (arg.hintLogs drop * Expr.hintLogs? drop args[1]?) (skip visit e arg args)
      (skip visit' e' (arg.shed drop) args') := by
  refine (follows_openReceiver hv e e' h).seq fun r => follows_second hargs e e' fun f _ => ?_
  refine (follows_rowCount e e' f).ending fun n => ?_
  exact (follows_editRequest r fun _ _ => rfl).andThen fun _ => .pure rfl

lemma follows_take (e e' : Expr) {arg : Expr} (h : (arg.shed drop).depth ≤ n) :
    Follows K Eq (arg.hintLogs drop * Expr.hintLogs? drop args[1]?) (take visit e arg args)
      (take visit' e' (arg.shed drop) args') := by
  refine (follows_openReceiver hv e e' h).seq fun r => follows_second hargs e e' fun f _ => ?_
  refine (follows_rowCount e e' f).ending fun n => ?_
  exact (follows_editRequest r fun _ _ => rfl).andThen fun _ => .pure rfl

omit hargs in
lemma follows_distinct (e e' : Expr) {arg : Expr} (h : (arg.shed drop).depth ≤ n) :
    Follows K Eq (arg.hintLogs drop) (distinct visit e arg)
      (distinct visit' e' (arg.shed drop)) := by
  refine (follows_openReceiver hv e e' h).ending fun r => ?_
  exact (follows_editRequest r fun _ _ => rfl).andThen fun _ => .pure rfl

/-! ### Orders -/

lemma follows_order (e e' : Expr) (restart ascending : Bool) {arg : Expr}
    (h : (arg.shed drop).depth ≤ n) :
    Follows K Eq (arg.hintLogs drop * Expr.hintLogs? drop args[1]?)
      (order visit e restart ascending arg args)
      (order visit' e' restart ascending (arg.shed drop) args') := by
  refine (follows_openReceiver hv e e' h).seq fun r => ?_
  have hrest : Follows K Eq (Expr.hintLogs? drop args[1]?)
      (do let body ← enter e r (← argument e args 1)
          let n ← value visit body
          edit (·.pushOrder r n ascending)
          return Meaning.query r)
      (do let body ← enter e' r (← argument e' args' 1)
          let n ← value visit' body
          edit (·.pushOrder r n ascending)
          return Meaning.query r) := by
    refine follows_second hargs e e' fun f hf => follows_body e e' r fun ps body hbody => ?_
    refine (follows_value (hv body (depth_body hf hbody))).ending fun n => ?_
    exact (follows_edit fun _ _ hg => hg.pushOrder r n ascending).andThen fun _ => .pure rfl
  cases restart with
  | false => exact hrest
  | true => exact (follows_editRequest r fun _ _ => rfl).andThen fun _ => hrest

/-! ### Parts of texts, members of lists -/

omit [Std.Refl K] in
lemma follows_like (e e' : Expr) (before after : Bool) {arg : Expr}
    (h : (arg.shed drop).depth ≤ n) :
    Follows K Eq (arg.hintLogs drop * Expr.hintLogs? drop args[1]?)
      (like visit e before after arg args) (like visit' e' before after (arg.shed drop) args') := by
  refine (follows_value (hv arg h)).seq fun subject => follows_second hargs e e' fun f hf => ?_
  refine (follows_value (hv f hf)).ending fun operand => ?_
  have hwildcard : Follows K Eq 1 wildcard wildcard := follows_add _
  have hbefore : ∀ tail : NodeId, Follows K Eq 1
      (do let pattern ← if before then concat (← wildcard) tail else pure tail
          Meaning.value <$> add (.binary .like subject pattern))
      (do let pattern ← if before then concat (← wildcard) tail else pure tail
          Meaning.value <$> add (.binary .like subject pattern)) := by
    intro tail
    cases before with
    | false => exact .map (follows_add _)
    | true =>
      exact hwildcard.andThen fun _ => (follows_add _).andThen fun _ => .map (follows_add _)
  cases after with
  | false => exact hbefore operand
  | true => exact hwildcard.andThen fun _ => (follows_add _).andThen fun tail => hbefore tail

omit [Std.Refl K] in
lemma follows_contains (e e' : Expr) {arg : Expr} (h : (arg.shed drop).depth ≤ n) :
    Follows K Eq (arg.hintLogs drop * Expr.hintLogs? drop args[1]?) (contains visit e arg args)
      (contains visit' e' (arg.shed drop) args') := by
  refine (follows_argument e e' hargs.second).lead ?_
  rintro item _ ⟨hitem, rfl⟩
  rw [Expr.type_shed]
  split
  · exact follows_like hv hargs e e' true true h
  · cases arg with
    | const l =>
      cases l with
      | list vs =>
        rw [Expr.hintLogs, one_mul, hitem]
        refine (follows_value (hv item (hargs.depth item hitem))).ending fun operand => ?_
        exact (Follows.mapM (fun v => follows_add _) _).andThen fun values => .map (follows_add _)
      | value v => exact .reject
      | entity name fields => exact .reject
    | _ => exact .reject

end Args

end Visit

end Compile

end EntityQuery
