import EntityQuery.Compile.Shape
import EntityQuery.Compile.Summary
import EntityQuery.Compile.Write
import EntityQuery.Proofs.Lockstep.Rules

/-!
The rules for projections, groupings, aggregates and writes, in lockstep.

* The members of an object give their hints in order. The key of a grouping is looked at once, and
  compiled again if it is a single value.
* What decides on the form of a result (the type of an expression, its shape, whether rows are paged
  or grouped) is the same in both runs.
-/

namespace EntityQuery

open Sql

variable {K : JoinKind → JoinKind → Prop} {drop : Method → Bool} {n : Nat}

/-- The hints of a member of an object; a key may be compiled a second time. -/
def Expr.memberLogs (drop : Method → Bool) (e : Expr) : Language (LoadingHint × Bool) :=
  e.hintLogs drop * if e.readsKey then 1 + e.hintLogs drop else 1

lemma Expr.memberLogs_of_not_readsKey {e : Expr} (h : e.readsKey = false) :
    e.memberLogs drop = e.hintLogs drop := by
  rw [memberLogs, h, if_neg Bool.false_ne_true, mul_one]

lemma Expr.le_memberLogs (e : Expr) : e.hintLogs drop ≤ e.memberLogs drop := by
  have hone : (1 : Language (LoadingHint × Bool)) ≤ if e.readsKey then 1 + e.hintLogs drop else 1 := by
    split
    · exact fun log hlog => .inl hlog
    · exact le_rfl
  calc e.hintLogs drop = e.hintLogs drop * 1 := (mul_one _).symm
    _ ≤ e.memberLogs drop := mul_le_mul_right hone _

lemma Expr.hintLogsMembers_cons (p : PropertyRef) (e : Expr) (rest : List (PropertyRef × Expr)) :
    hintLogsMembers drop ((p, e) :: rest) = e.memberLogs drop * hintLogsMembers drop rest := by
  rw [hintLogsMembers, memberLogs]

lemma Expr.hintLogsBindings_assign (p : PropertyRef) (e : Expr) (rest : List Binding) :
    hintLogsBindings drop (.assign p e :: rest) = e.memberLogs drop * hintLogsBindings drop rest := by
  rw [hintLogsBindings, memberLogs]

namespace Compile

/-! ### Members of an object -/

lemma follows_selectMember (r : RequestId) (n : NodeId) (p : Option PropertyRef)
    (newElement : Bool) :
    Follows K Eq 1 (selectMember r n p newElement) (selectMember r n p newElement) :=
  follows_edit fun _ _ hg => hg.pushItem r _

lemma follows_selectKeys [Std.Refl K] (e e' : Expr) (r : RequestId) (newElement : Bool)
    (keys : List (NodeId × Option PropertyRef)) :
    Follows K Eq 1 (selectKeys e r newElement keys) (selectKeys e' r newElement keys) := by
  induction keys generalizing newElement with
  | nil => exact .pure rfl
  | cons key keys ih =>
    refine (follows_duplicate e e' _).andThen fun n => ?_
    exact (follows_selectMember r n _ newElement).andThen fun _ => ih false

lemma follows_register (p : PropertyRef) (n : NodeId) :
    Follows K Eq 1 (modify fun s => { s with mapping := s.mapping.register s.graph p n })
      (modify fun s => { s with mapping := s.mapping.register s.graph p n }) := by
  refine .modify (fun _ => rfl) (fun _ => rfl) (fun _ => rfl) fun s t hs => { hs with mapping := ?_ }
  rw [hs.mapping, Mapping.register_rejoined _ hs.graph]

lemma projectMember_of_isSourceOrCall {visit : Visit} {r : RequestId} {p : PropertyRef}
    {newElement : Bool} {e : Expr} (h : e.isSourceOrCall = true) :
    projectMember visit r p newElement e = projectComputed visit r p e newElement := by
  cases e <;> first | rfl | cases h

section Visit

variable {visit visit' : Visit} (hv : ShadowsBelow K drop n visit visit')
include hv

lemma follows_projectPath (r : RequestId) (p : PropertyRef) {e : Expr}
    (h : (e.shed drop).depth ≤ n) (newElement : Bool) :
    Follows K Eq (e.hintLogs drop) (projectPath visit r p e newElement)
      (projectPath visit' r p (e.shed drop) newElement) := by
  unfold projectPath
  rw [Expr.type_shed, Expr.memberPath?_shed]
  cases e.type.isCollection with
  | true => exact .reject_bind
  | false =>
    refine (follows_value (hv e h)).ending fun n => ?_
    cases e.memberPath? with
    | some path => exact (follows_setPath p path).andThen fun _ => follows_selectMember r n _ newElement
    | none => exact (follows_setComputed p n).andThen fun _ => follows_selectMember r n _ newElement

lemma follows_projectComputed (r : RequestId) (p : PropertyRef) {e : Expr}
    (h : (e.shed drop).depth ≤ n) (newElement : Bool) :
    Follows K Eq (e.hintLogs drop) (projectComputed visit r p e newElement)
      (projectComputed visit' r p (e.shed drop) newElement) := by
  refine (follows_value (hv e h)).ending fun n => (follows_setComputed p n).andThen fun _ => ?_
  exact (follows_selectMember r n _ newElement).andThen fun _ => follows_register p n

lemma follows_projectKey [Std.Refl K] (r : RequestId) (p : PropertyRef) {grouping : Expr}
    (h : ((Expr.key grouping).shed drop).depth ≤ n) (newElement : Bool) :
    Follows K Eq ((Expr.key grouping).memberLogs drop)
      (projectKey visit r p (.key grouping) grouping newElement)
      (projectKey visit' r p (.key (grouping.shed drop)) (grouping.shed drop) newElement) := by
  have hlogs : (Expr.key grouping).memberLogs drop =
      grouping.hintLogs drop * (1 + grouping.hintLogs drop) := by
    rw [Expr.memberLogs, Expr.hintLogs, Expr.readsKey, if_pos rfl]
  have hagain : Follows K Eq (grouping.hintLogs drop) (value visit (.key grouping))
      (value visit' (.key (grouping.shed drop))) := by
    have hkey := follows_value (hv _ h)
    rwa [Expr.shed, Expr.hintLogs] at hkey
  rw [Expr.shed, Expr.depth] at h
  rw [hlogs]
  refine (follows_groupingKeys (hv grouping (by omega)) _ _).seq fun keys => ?_
  split
  · refine Follows.weaken (Follows.ending hagain fun n => ?_) fun log hlog => .inr hlog
    exact (follows_setComputed p n).andThen fun _ => follows_selectMember r n _ newElement
  · exact (follows_selectKeys _ _ r true _).weaken fun log hlog => .inl hlog

end Visit

mutual
theorem follows_projectMember [Std.Refl K] {visit visit' : Visit}
    (hv : ShadowsBelow K drop n visit visit') (r : RequestId) (p : PropertyRef) (newElement : Bool) :
    ∀ e : Expr, (e.shed drop).depth ≤ n →
      Follows K Eq (e.memberLogs drop) (projectMember visit r p newElement e)
        (projectMember visit' r p newElement (e.shed drop))
  | .new type members, h => by
    rw [Expr.shed, Expr.depth] at h
    rw [Expr.memberLogs_of_not_readsKey rfl, Expr.hintLogs, Expr.shed, projectMember, projectMember]
    exact follows_projectMembers hv r true members (by omega)
  | .key grouping, h => follows_projectKey hv r p h newElement
  | .member target q, h =>
    Expr.memberLogs_of_not_readsKey (e := .member target q) rfl ▸ follows_projectPath hv r p h newElement
  | .param q, h =>
    Expr.memberLogs_of_not_readsKey (e := .param q) rfl ▸ follows_projectPath hv r p h newElement
  | .lambda _ _, _ => .reject
  | .init _ _, _ => .reject
  | .source entity, h =>
    Expr.memberLogs_of_not_readsKey (e := .source entity) rfl ▸
      follows_projectComputed hv r p h newElement
  | .const l, h =>
    Expr.memberLogs_of_not_readsKey (e := .const l) rfl ▸ follows_projectComputed hv r p h newElement
  | .binary op a b, h =>
    Expr.memberLogs_of_not_readsKey (e := .binary op a b) rfl ▸
      follows_projectComputed hv r p h newElement
  | .unary op e, h =>
    Expr.memberLogs_of_not_readsKey (e := .unary op e) rfl ▸
      follows_projectComputed hv r p h newElement
  | .cond t y n, h =>
    Expr.memberLogs_of_not_readsKey (e := .cond t y n) rfl ▸
      follows_projectComputed hv r p h newElement
  | .call m args, h => by
    rw [Expr.memberLogs_of_not_readsKey rfl, projectMember_of_isSourceOrCall rfl,
      projectMember_of_isSourceOrCall (Expr.isSourceOrCall_shed_call drop m args)]
    exact follows_projectComputed hv r p h newElement

theorem follows_projectMembers [Std.Refl K] {visit visit' : Visit}
    (hv : ShadowsBelow K drop n visit visit') (r : RequestId) (newElement : Bool) :
    ∀ members : List (PropertyRef × Expr), Expr.depthMembers (Expr.shedMembers drop members) ≤ n →
      Follows K Eq (Expr.hintLogsMembers drop members) (projectMembers visit r newElement members)
        (projectMembers visit' r newElement (Expr.shedMembers drop members))
  | [], _ => .pure rfl
  | (p, e) :: rest, h => by
    rw [Expr.shedMembers, Expr.depthMembers] at h
    rw [Expr.hintLogsMembers_cons, Expr.shedMembers, projectMembers, projectMembers]
    exact (follows_projectMember hv r p newElement e (by omega)).seq fun _ =>
      follows_projectMembers hv r false rest (by omega)
end

section Visit

variable {visit visit' : Visit} (hv : ShadowsBelow K drop n visit visit')
include hv

lemma follows_projectBindings [Std.Refl K] (whole whole' : Expr) (r : RequestId) (newElement : Bool)
    (bindings : List Binding) (h : Expr.depthBindings (Expr.shedBindings drop bindings) ≤ n) :
    Follows K Eq (Expr.hintLogsBindings drop bindings)
      (projectBindings visit whole r newElement bindings)
      (projectBindings visit' whole' r newElement (Expr.shedBindings drop bindings)) := by
  induction bindings generalizing newElement with
  | nil => exact .pure rfl
  | cons b rest ih =>
    cases b with
    | assign p e =>
      rw [Expr.shedBindings, Expr.depthBindings] at h
      rw [Expr.hintLogsBindings_assign, Expr.shedBindings]
      exact (follows_projectMember hv r p newElement e (by omega)).seq fun _ => ih false (by omega)
    | list p es => exact .reject

/-! ### Projections -/

lemma follows_projectSingle [Std.Refl K] (e e' : Expr) (flattens : Bool) (r : RequestId)
    {body : Expr} (h : (body.shed drop).depth ≤ n) :
    Follows K Eq (body.hintLogs drop) (projectSingle visit e flattens r body)
      (projectSingle visit' e' flattens r (body.shed drop)) := by
  unfold projectSingle
  rw [Expr.type_shed]
  dsimp only
  split
  · exact .reject_bind
  · refine (follows_widening (Std.Refl.refl _) (hv body h)).ending fun m => ?_
    refine (follows_setActive r).andThen fun _ => (follows_valueOf m).andThen fun n => ?_
    exact (follows_edit fun _ _ hg => (hg.clearItems r).pushItem r _).andThen fun _ => .pure rfl

lemma follows_select [Std.Refl K] (e e' : Expr) (flattens : Bool) {arg : Expr}
    {args args' : List Expr} (hargs : ShedArguments drop n args args')
    (h : (arg.shed drop).depth ≤ n) :
    Follows K Eq (arg.hintLogs drop * Expr.hintLogs? drop args[1]?)
      (select visit e flattens arg args) (select visit' e' flattens (arg.shed drop) args') := by
  refine (follows_openReceiver hv e e' h).seq fun r => follows_second hargs e e' fun f hf => ?_
  refine follows_body e e' r fun ps body hbody => ?_
  have hdepth := depth_body hf hbody
  have hshape : ∀ shape : TypeRef, Follows K Eq 1
      (do editRequest r ({ · with projection := some shape })
          return Meaning.query r)
      (do editRequest r ({ · with projection := some shape })
          return Meaning.query r) :=
    fun shape => (follows_editRequest r fun _ _ => rfl).andThen fun _ => .pure rfl
  have hclear : Follows K Eq 1 (edit (·.clearItems r)) (edit (·.clearItems r)) :=
    follows_edit fun _ _ hg => hg.clearItems r
  cases body with
  | new type members =>
    rw [Expr.shed, Expr.depth] at hdepth
    rw [Expr.hintLogs, Expr.shed]
    refine hclear.andThen fun _ => ?_
    refine (follows_widening (Std.Refl.refl _)
      (follows_projectMembers hv r true members (by omega))).ending fun _ => ?_
    exact Follows.andThen (.pure rfl) hshape
  | init type bindings =>
    rw [Expr.shed, Expr.depth] at hdepth
    rw [Expr.hintLogs, Expr.shed]
    refine hclear.andThen fun _ => ?_
    refine (follows_widening (Std.Refl.refl _)
      (follows_projectBindings hv e e' r true bindings (by omega))).ending fun _ => ?_
    exact Follows.andThen (.pure rfl) hshape
  | member target p => exact (follows_projectSingle hv e e' flattens r hdepth).ending hshape
  | param p => exact (follows_projectSingle hv e e' flattens r hdepth).ending hshape
  | key grouping => exact (follows_projectSingle hv e e' flattens r hdepth).ending hshape
  | _ => exact .reject_bind

/-! ### Groupings -/

lemma follows_groupMember (r : RequestId) (p : PropertyRef) {e : Expr}
    (h : (e.shed drop).depth ≤ n) :
    Follows K Eq (e.memberLogs drop) (groupMember visit r (p, e))
      (groupMember visit' r (p, e.shed drop)) := by
  have hgroup : Follows K Eq (e.memberLogs drop)
      (do let n ← value visit e
          edit (·.pushGroup r n (some p)))
      (do let n ← value visit' (e.shed drop)
          edit (·.pushGroup r n (some p))) := by
    refine Follows.weaken (Follows.ending (follows_value (hv e h)) fun n => ?_) e.le_memberLogs
    exact follows_edit fun _ _ hg => hg.pushGroup r n _
  unfold groupMember
  dsimp only
  rw [Expr.memberPath?_shed]
  cases e.memberPath? with
  | some path => exact (follows_setPath p path).andThen fun _ => hgroup
  | none => exact hgroup

lemma follows_groupMembers (r : RequestId) (members : List (PropertyRef × Expr))
    (h : Expr.depthMembers (Expr.shedMembers drop members) ≤ n) :
    Follows K Eq (Expr.hintLogsMembers drop members) (members.forM (groupMember visit r))
      ((Expr.shedMembers drop members).forM (groupMember visit' r)) := by
  induction members with
  | nil => exact .pure rfl
  | cons member rest ih =>
    obtain ⟨p, e⟩ := member
    rw [Expr.shedMembers, Expr.depthMembers] at h
    rw [Expr.hintLogsMembers_cons, Expr.shedMembers]
    exact (follows_groupMember hv r p (by omega)).seq fun _ => ih (by omega)

lemma follows_groupBy [Std.Refl K] {e e' : Expr} (htype : e'.type = e.type) {arg : Expr}
    {args args' : List Expr} (hargs : ShedArguments drop n args args')
    (h : (arg.shed drop).depth ≤ n) :
    Follows K Eq (arg.hintLogs drop * Expr.hintLogs? drop args[1]?) (groupBy visit e arg args)
      (groupBy visit' e' (arg.shed drop) args') := by
  refine (follows_openReceiver hv e e' h).seq fun r => follows_second hargs e e' fun f hf => ?_
  refine follows_body e e' r fun ps body hbody => ?_
  have hdepth := depth_body hf hbody
  have hshape : Follows K Eq 1
      (do editRequest r ({ · with projection := some e.elementType })
          return Meaning.query r)
      (do editRequest r ({ · with projection := some e'.elementType })
          return Meaning.query r) := by
    rw [Expr.elementType, Expr.elementType, htype]
    exact (follows_editRequest r fun _ _ => rfl).andThen fun _ => .pure rfl
  have hpush : ∀ n : NodeId,
      Follows K Eq 1 (edit (·.pushGroup r n none)) (edit (·.pushGroup r n none)) :=
    fun n => follows_edit fun _ _ hg => hg.pushGroup r n none
  cases body with
  | new type members =>
    rw [Expr.shed, Expr.depth] at hdepth
    rw [Expr.hintLogs, Expr.shed]
    exact (follows_groupMembers hv r members (by omega)).ending fun _ => hshape
  | member target p =>
    exact (follows_value (hv _ hdepth)).ending fun n => (hpush n).andThen fun _ => hshape
  | param p => exact (follows_value (hv _ hdepth)).ending fun n => (hpush n).andThen fun _ => hshape
  | _ => exact .reject_bind

/-! ### Aggregates -/

/-- The optional argument of an aggregate is nested at most `n` deep. -/
abbrev DepthBelow (drop : Method → Bool) (n : Nat) (f : Option Expr) : Prop :=
  ∀ g ∈ f, (g.shed drop).depth ≤ n

lemma follows_restrictBy (e e' : Expr) (r : RequestId) {f : Option Expr}
    (hf : DepthBelow drop n f) :
    Follows K Eq (Expr.hintLogs? drop f) (restrictBy visit e r f)
      (restrictBy visit' e' r (f.map (Expr.shed drop))) := by
  cases f with
  | none => exact .pure rfl
  | some f =>
    exact (follows_within r (follows_predicate hv e e' r (hf f rfl))).ending fun n =>
      follows_restrict r n

lemma follows_selector (e e' : Expr) (r : RequestId) {f : Expr} (h : (f.shed drop).depth ≤ n) :
    Follows K Eq (f.hintLogs drop) (selector visit e r f) (selector visit' e' r (f.shed drop)) := by
  refine follows_within r (follows_body e e' r fun ps body hbody => ?_)
  exact follows_value (hv body (depth_body h hbody))

lemma follows_aggregated (e e' : Expr) (r : RequestId) {f : Option Expr}
    (hf : DepthBelow drop n f) :
    Follows K Eq (Expr.hintLogs? drop f) (aggregated visit e r f)
      (aggregated visit' e' r (f.map (Expr.shed drop))) := by
  cases f with
  | some f => exact follows_selector hv e e' r (hf f rfl)
  | none =>
    refine follows_request_bind (fun _ _ => rfl) fun q => ?_
    split
    · exact .pure rfl
    · exact .reject

omit hv in
lemma follows_selectAll (e e' : Expr) (r : RequestId) :
    Follows K Eq 1 (selectAll e r) (selectAll e' r) := by
  refine follows_request_bind (fun _ _ => rfl) fun q => ?_
  split
  · split
    · exact (follows_add _).andThen fun n => follows_edit fun _ _ hg => hg.pushItem r _
    · exact .reject
  · exact .pure rfl

lemma follows_aggregateGrouping (e e' : Expr) (op : UnaryOp) {arg : Expr}
    (h : (arg.shed drop).depth ≤ n) {f : Option Expr} (hf : DepthBelow drop n f) :
    Follows K Eq (arg.hintLogs drop * Expr.hintLogs? drop f)
      (aggregateGrouping visit e op arg f)
      (aggregateGrouping visit' e' op (arg.shed drop) (f.map (Expr.shed drop))) := by
  refine (follows_rowValue (hv arg h)).seq fun a => (follows_active e e').andThen fun here => ?_
  refine follows_graph_bind fun g h hg => ?_
  rw [hg.requestOver?]
  have hselected : ∀ (r : RequestId) (s : Expr), (s.shed drop).depth ≤ n →
      Follows K Eq (s.hintLogs drop)
        (do let n ← selector visit e r s
            Meaning.value <$> add (.unary op (some n)))
        (do let n ← selector visit' e' r (s.shed drop)
            Meaning.value <$> add (.unary op (some n))) :=
    fun r s hs => (follows_selector hv e e' r hs).ending fun n => .map (follows_add _)
  cases f with
  | none =>
    cases op with
    | count => exact .map (follows_add _)
    | _ => exact .reject
  | some f =>
    cases op with
    | count =>
      refine (follows_within _ (follows_predicate hv e e' _ (hf f rfl))).ending fun test => ?_
      refine (follows_add _).andThen fun one => (follows_add _).andThen fun null => ?_
      exact (follows_add _).andThen fun n => .map (follows_add _)
    | _ => exact hselected _ f (hf f rfl)

lemma follows_aggregateInside {e e' : Expr} (htype : e'.type = e.type) (op : UnaryOp)
    (r : RequestId) {f : Option Expr} (hf : DepthBelow drop n f) :
    Follows K Eq (Expr.hintLogs? drop f) (aggregateInside visit e op r f)
      (aggregateInside visit' e' op r (f.map (Expr.shed drop))) := by
  have hrest : ∀ operand : Option NodeId, Follows K Eq 1
      (do let n ← add (.unary op operand)
          edit fun g => (g.clearItems r).pushItem r { node := n }
          editRequest r ({ · with projection := some e.type })
          leave r
          Meaning.value <$> add (.sub r))
      (do let n ← add (.unary op operand)
          edit fun g => (g.clearItems r).pushItem r { node := n }
          editRequest r ({ · with projection := some e'.type })
          leave r
          Meaning.value <$> add (.sub r)) := by
    intro operand
    rw [htype]
    refine (follows_add _).andThen fun n => ?_
    refine (follows_edit fun _ _ hg => (hg.clearItems r).pushItem r _).andThen fun _ => ?_
    refine (follows_editRequest r fun _ _ => rfl).andThen fun _ => ?_
    exact (follows_leave r).andThen fun _ => .map (follows_add _)
  unfold aggregateInside
  split
  · refine (follows_restrictBy hv e e' r hf).ending fun _ => ?_
    exact Follows.andThen (.pure rfl) hrest
  · exact (Follows.map (follows_aggregated hv e e' r hf)).ending hrest

omit hv in
lemma follows_selectCounted [Std.Refl K] (e e' : Expr) (r : RequestId) :
    Follows K Eq 1 (selectCounted e r) (selectCounted e' r) := by
  have hlabels : ∀ f : Item × Nat → Item, Follows K Eq 1
      (do if (← request r).items.isEmpty then selectAll e r
          else editRequest r fun q => { q with items := q.items.zipIdx.map f })
      (do if (← request r).items.isEmpty then selectAll e' r
          else editRequest r fun q => { q with items := q.items.zipIdx.map f }) := by
    intro f
    refine follows_request_bind (fun _ _ => rfl) fun q => ?_
    split
    · exact follows_selectAll e e' r
    · exact follows_editRequest r fun _ _ => rfl
  refine follows_request_bind (fun _ _ => rfl) fun q => ?_
  split
  · refine Follows.andThen (.forM (List.map_id _).symm fun key => ?_) fun _ => hlabels _
    exact (follows_duplicate e e' key).andThen fun n => follows_edit fun _ _ hg => hg.pushItem r _
  · exact hlabels _

omit hv in
lemma follows_derive [Std.Refl K] (inner : RequestId) :
    Follows K Eq 1 (derive inner) (derive inner) := by
  refine follows_request_bind (fun _ _ => rfl) fun q => ?_
  refine (follows_build (Build.tracks_addRequest q.parent)).andThen fun outer => ?_
  refine (follows_build (Build.tracks_addAlias (.derived inner))).andThen fun a => ?_
  refine (follows_editRequest inner fun _ _ => rfl).andThen fun _ => ?_
  refine (follows_editRequest outer fun _ _ => rfl).andThen fun _ => ?_
  exact (follows_setActive outer).andThen fun _ => .pure rfl

lemma follows_aggregateDerived [Std.Refl K] {e e' : Expr} (htype : e'.type = e.type) (op : UnaryOp)
    (r : RequestId) {f : Option Expr} (hf : DepthBelow drop n f) :
    Follows K Eq (Expr.hintLogs? drop f) (aggregateDerived visit e op r f)
      (aggregateDerived visit' e' op r (f.map (Expr.shed drop))) := by
  have hshow : ∀ (outer : RequestId) (operand : Option NodeId), Follows K Eq 1
      (do let n ← add (.unary op operand)
          edit (·.pushItem outer { node := n })
          editRequest outer ({ · with projection := some e.type })
          return outer)
      (do let n ← add (.unary op operand)
          edit (·.pushItem outer { node := n })
          editRequest outer ({ · with projection := some e.type })
          return outer) := by
    intro outer operand
    refine (follows_add _).andThen fun n => ?_
    refine (follows_edit fun _ _ hg => hg.pushItem outer _).andThen fun _ => ?_
    exact (follows_editRequest outer fun _ _ => rfl).andThen fun _ => .pure rfl
  unfold aggregateDerived
  rw [htype]
  by_cases hop : op = .count
  · simp only [if_pos hop]
    refine (follows_restrictBy hv e e' r hf).ending fun _ => ?_
    refine (follows_selectCounted e e' r).andThen fun _ => ?_
    exact (follows_derive r).andThen fun (outer, a) => Follows.andThen (.pure rfl) (hshow outer)
  · simp only [if_neg hop]
    refine (follows_aggregated hv e e' r hf).ending fun n => ?_
    refine (follows_edit fun _ _ hg => (hg.clearItems r).pushItem r _).andThen fun _ => ?_
    exact (follows_derive r).andThen fun (outer, a) =>
      (Follows.map (follows_add _)).andThen (hshow outer)

lemma follows_aggregate [Std.Refl K] {e e' : Expr} (htype : e'.type = e.type) (op : UnaryOp)
    {arg : Expr} {args args' : List Expr} (hargs : ShedArguments drop n args args')
    (h : (arg.shed drop).depth ≤ n) :
    Follows K Eq (arg.hintLogs drop * Expr.hintLogs? drop args[1]?) (aggregate visit e op arg args)
      (aggregate visit' e' op (arg.shed drop) args') := by
  have hf : DepthBelow drop n args[1]? := hargs.depth
  unfold aggregate
  rw [Expr.type_shed, hargs.second]
  dsimp only
  split
  · exact follows_aggregateGrouping hv e e' op h hf
  · refine (follows_receiver e e' (hv arg h)).seq fun r => ?_
    refine follows_request_bind (fun _ _ => rfl) fun q => ?_
    split
    · exact .map (follows_aggregateDerived hv htype op r hf)
    · split
      · refine .get_bind fun s t hs => ?_
        refine (follows_aggregateDerived hv htype op r hf).ending fun outer => ?_
        rw [hs.active]
        split
        · exact (follows_activate _).andThen fun _ => .map (follows_add _)
        · exact .map (follows_add _)
      · exact follows_aggregateInside hv htype op r hf

/-! ### Existence -/

lemma follows_any [Std.Refl K] (e e' : Expr) {arg : Expr} {args args' : List Expr}
    (hargs : ShedArguments drop n args args') (h : (arg.shed drop).depth ≤ n) :
    Follows K Eq (arg.hintLogs drop * Expr.hintLogs? drop args[1]?) (any visit e arg args)
      (any visit' e' (arg.shed drop) args') := by
  unfold any
  rw [Expr.type_shed, hargs.second]
  split
  · exact .reject_bind
  · refine (follows_receiver e e' (hv arg h)).seq fun r => ?_
    refine (follows_restrictBy hv e e' r hargs.depth).ending fun _ => ?_
    refine (follows_selectAll e e' r).andThen fun _ => ?_
    refine (follows_add _).andThen fun sub => (follows_add _).andThen fun found => ?_
    refine follows_request_bind (fun _ _ => rfl) fun q => ?_
    split
    · exact (follows_leave r).andThen fun _ => .pure rfl
    · refine (follows_build (Build.tracks_addRequest none)).andThen fun outer => ?_
      refine (follows_editRequest r fun _ _ => rfl).andThen fun _ => ?_
      refine (follows_add _).andThen fun yes => (follows_add _).andThen fun no => ?_
      refine (follows_add _).andThen fun answer => ?_
      refine (follows_edit fun _ _ hg => hg.pushItem outer _).andThen fun _ => ?_
      refine (follows_editRequest outer fun _ _ => rfl).andThen fun _ => ?_
      exact (follows_setActive outer).andThen fun _ => .pure rfl

/-! ### Writes -/

lemma follows_assign (e e' : Expr) (r : RequestId) (target : AliasId) (bindings : List Binding)
    (h : Expr.depthBindings (Expr.shedBindings drop bindings) ≤ n) :
    Follows K Eq (Expr.hintLogsBindings drop bindings) (assign visit e r target bindings)
      (assign visit' e' r target (Expr.shedBindings drop bindings)) := by
  induction bindings with
  | nil => exact .pure rfl
  | cons b rest ih =>
    cases b with
    | list p es => exact .reject
    | assign p v =>
      rw [Expr.shedBindings, Expr.depthBindings] at h
      rw [Expr.hintLogsBindings_assign, Expr.shedBindings]
      refine follows_ask.andThen fun stored => ?_
      have hassign : Follows K Eq (v.memberLogs drop * Expr.hintLogsBindings drop rest)
          (do let column ← add (.column target stored.column)
              let n ← value visit v
              edit (·.pushAssignment r ⟨column, n⟩)
              assign visit e r target rest)
          (do let column ← add (.column target stored.column)
              let n ← value visit' (v.shed drop)
              edit (·.pushAssignment r ⟨column, n⟩)
              assign visit' e' r target (Expr.shedBindings drop rest)) := by
        refine (follows_add _).andThen fun column => ?_
        refine (follows_value (hv v (by omega))).weaken v.le_memberLogs |>.seq fun n => ?_
        exact (follows_edit fun _ _ hg => hg.pushAssignment r _).andThen fun _ => ih (by omega)
      cases stored.kind with
      | collection target => exact .reject_bind
      | manyToMany target link oc tc => exact .reject_bind
      | scalar t nullable n => exact hassign
      | reference target => exact hassign

omit hv in
lemma follows_markWrite {e e' : Expr} (htype : e'.type = e.type) (r : RequestId)
    (kind : RequestKind) (target : Option AliasId) :
    Follows K Eq 1 (markWrite e r kind target) (markWrite e' r kind target) := by
  unfold markWrite
  rw [htype]
  exact (follows_editRequest r fun _ _ => rfl).andThen fun _ => .pure rfl

lemma follows_delete [Std.Refl K] {e e' : Expr} (htype : e'.type = e.type) {arg : Expr}
    (h : (arg.shed drop).depth ≤ n) :
    Follows K Eq (arg.hintLogs drop) (delete visit e arg) (delete visit' e' (arg.shed drop)) := by
  refine (follows_openReceiver hv e e' h).ending fun r => ?_
  exact follows_request_bind (fun _ _ => rfl) fun q => follows_markWrite htype r .delete q.base

section Args

variable [Std.Refl K] {args args' : List Expr} (hargs : ShedArguments drop n args args')
include hargs

/-- What follows the initializer of a write. -/
lemma follows_initializer_bind {β : Type} {S : β → β → Prop} (e e' : Expr) (m : Method) {arg : Expr}
    (h : (arg.shed drop).depth ≤ n) {k k' : RequestId × String × List Binding → Compile β}
    (hk : ∀ r type bindings, Expr.depthBindings (Expr.shedBindings drop bindings) ≤ n →
      Follows K S (Expr.hintLogsBindings drop bindings) (k (r, type, bindings))
        (k' (r, type, Expr.shedBindings drop bindings))) :
    Follows K S (arg.hintLogs drop * Expr.hintLogs? drop args[1]?)
      (initializer visit e m arg args >>= k)
      (initializer visit' e' m (arg.shed drop) args' >>= k') := by
  unfold initializer
  simp only [bind_assoc]
  refine (follows_openReceiver hv e e' h).seq fun r => follows_second hargs e e' fun f hf => ?_
  refine follows_body e e' r fun ps body hbody => ?_
  have hdepth := depth_body hf hbody
  cases body with
  | init type bindings =>
    rw [Expr.shed, Expr.depth] at hdepth
    rw [Expr.hintLogs, Expr.shed]
    exact hk r type bindings (by omega)
  | _ => exact .reject_bind

lemma follows_update {e e' : Expr} (htype : e'.type = e.type) {arg : Expr}
    (h : (arg.shed drop).depth ≤ n) :
    Follows K Eq (arg.hintLogs drop * Expr.hintLogs? drop args[1]?) (update visit e arg args)
      (update visit' e' (arg.shed drop) args') := by
  refine follows_initializer_bind hv hargs e e' .update h fun r type bindings hb => ?_
  refine follows_request_bind (fun _ _ => rfl) fun q => ?_
  split
  · exact (follows_assign hv e e' r _ bindings hb).ending fun _ => follows_markWrite htype r .update _
  · exact .reject

lemma follows_insert {e e' : Expr} (htype : e'.type = e.type) {arg : Expr}
    (h : (arg.shed drop).depth ≤ n) :
    Follows K Eq (arg.hintLogs drop * Expr.hintLogs? drop args[1]?) (insert visit e arg args)
      (insert visit' e' (arg.shed drop) args') := by
  refine follows_initializer_bind hv hargs e e' .insert h fun r type bindings hb => ?_
  refine follows_ask.andThen fun table => .get_bind fun s t hs => ?_
  rw [hs.mapping]
  refine (follows_build (Build.tracks_addAlias _)).andThen fun target => ?_
  refine (follows_assign hv e e' r target bindings hb).ending fun _ => ?_
  exact follows_markWrite htype r .insertSelect _

end Args

end Visit

end Compile

end EntityQuery
