import EntityQuery.Compile.Shape
import EntityQuery.Compile.Summary
import EntityQuery.Compile.Write
import EntityQuery.Proofs.Climbing.Steps

/-!
Rules as steps of the graph.

* One lemma for each rule: if the rule for the parts changes the graph by single steps, so does the
  rule for the whole, and a request that it gives is there.
* Only `derive` and `any` give a request that is there another parent. The parent is new: it takes the
  place of the request, or stands at the outside like the request.
-/

namespace EntityQuery.Compile

open Sql Graph

variable {n : ℕ} {r : RequestId}

/-- A request that is there, as the result of a rule. -/
lemma reaches_query (hr : r.index < n) : Reaches n (pure (.query r)) Meaning.Inside :=
  reaches_pure fun _ hk => Meaning.inside_query (hr.trans_le hk)

/-- The last change of a request, which is the result of a rule. -/
lemma reaches_finish (hr : r.index < n) {f : Request → Request}
    (hf : ∀ q, (f q).parent = q.parent) :
    Reaches n (do editRequest r f; return Meaning.query r) Meaning.Inside :=
  reaches_editRequest_bind hf (reaches_query hr)

/-! ### Sources and constants -/

lemma reaches_source (entity : String) : Reaches n (source entity) Meaning.Inside := by
  refine (climbs_ask _).andThen fun table => reaches_get_bind fun s _ _ => ?_
  refine reaches_get_bind fun s' hs' _ => ?_
  refine (reaches_addRequest hs'.active).bind fun r k _ hr => ?_
  refine (climbs_build fun g _ => steps_addAlias g _).andThen fun a => ?_
  refine reaches_editRequest_bind (fun _ => rfl) ?_
  exact (climbs_setActive hr).andThen fun _ => reaches_query hr

lemma reaches_constant (e : Expr) (l : Literal) : Reaches n (constant e l) Meaning.Inside := by
  cases l with
  | value v => exact (climbs_add _).value
  | list vs => exact reaches_reject e _
  | entity name fields =>
    refine reaches_get_bind fun s _ _ => ?_
    split
    · exact reaches_reject e _
    · split
      · exact (climbs_add _).value
      · exact reaches_reject e _

lemma reaches_parameter (e : Expr) (p : Param) : Reaches n (parameter e p) Meaning.Inside := by
  refine (reaches_active e).bind fun r _ _ _ => reaches_graph_bind fun g _ _ => ?_
  split
  · exact reaches_pure fun _ _ => Meaning.inside_row _ _
  · exact reaches_reject e _

section Visit

variable {visit : Visit} (hv : ClimbsVisit visit)
include hv

/-! ### Grouping keys -/

lemma climbs_groupingKeys (e grouping : Expr) : Climbs n (groupingKeys visit e grouping) := by
  refine (climbs_rowValue hv grouping).andThen fun a => (reaches_active e).bind fun r _ _ _ => ?_
  refine reaches_graph_bind fun g _ _ => ?_
  dsimp only
  split
  · exact climbs_pure _
  · exact reaches_reject e _

lemma reaches_key (e grouping : Expr) : Reaches n (key visit e grouping) Meaning.Inside := by
  refine (climbs_groupingKeys hv e grouping).andThen fun keys => ?_
  split
  · exact (climbs_duplicate e _).value
  · exact reaches_reject e _

lemma reaches_keyMember (e grouping : Expr) (p : PropertyRef) :
    Reaches n (keyMember visit e grouping p) Meaning.Inside := by
  refine (climbs_groupingKeys hv e grouping).andThen fun keys => ?_
  split
  · exact (climbs_duplicate e _).value
  · split
    · refine reaches_graph_bind fun g _ _ => ?_
      split
      · exact (reaches_resolveMember e _ p).bind fun m _ _ _ => Climbs.value (climbs_valueOf m)
      · exact reaches_reject e _
    · exact reaches_reject e _

/-! ### Members -/

omit hv in
lemma reaches_memberOfQuery (e : Expr) (hr : r.index < n) (p : PropertyRef) :
    Reaches n (memberOfQuery e r p) Meaning.Inside := by
  refine (climbs_rowOf e r).andThen fun a => ?_
  have hwithin := reaches_within Meaning.inside_mono hr
    (reaches_resolveMember e a p)
  refine hwithin.bind fun m k _ _ => (climbs_valueOf m).andThen fun node => ?_
  refine (climbs_edit fun g => (steps_clearItems g r).trans (steps_pushItem _ r _)).andThen fun _ => ?_
  refine reaches_editRequest_bind (fun _ => rfl) ((climbs_leave r).andThen fun _ => ?_)
  exact (climbs_add _).value

lemma reaches_member (e target : Expr) (p : PropertyRef) :
    Reaches n (member visit e target p) Meaning.Inside := by
  unfold member
  split
  · next grouping => exact reaches_keyMember hv e grouping p
  · refine (hv.reaches _).bind fun m k _ hm => ?_
    split
    · exact reaches_resolveMember e _ p
    · next r => exact reaches_memberOfQuery e (hm r rfl) p
    · exact reaches_reject e _

/-! ### Operators -/

lemma reaches_binary (e : Expr) (op : BinaryOperator) (l r : Expr) :
    Reaches n (binary visit e op l r) Meaning.Inside := by
  unfold binary
  split
  · exact reaches_reject e _
  · refine reaches_get_bind fun s _ _ => ?_
    refine reaches_widening Meaning.inside_mono _ ?_
    refine (climbs_value hv l).andThen fun left => (climbs_value hv r).andThen fun right => ?_
    split
    · refine (climbs_condition left).andThen fun _ => (climbs_condition right).andThen fun _ => ?_
      exact (climbs_add _).value
    · exact (climbs_add _).value

lemma reaches_unary (e : Expr) (op : UnaryOperator) (operand : Expr) :
    Reaches n (unary visit e op operand) Meaning.Inside := by
  cases op with
  | not =>
    refine (climbs_value hv operand).andThen fun a => (climbs_condition a).andThen fun _ => ?_
    exact (climbs_add _).value
  | convert => exact hv.reaches operand
  | negate => exact reaches_reject e _

lemma reaches_conditional (test yes no : Expr) :
    Reaches n (conditional visit test yes no) Meaning.Inside := by
  refine (climbs_value hv test).andThen fun t => (climbs_condition t).andThen fun _ => ?_
  refine (climbs_value hv yes).andThen fun _ => (climbs_value hv no).andThen fun _ => ?_
  exact (climbs_add _).value

/-! ### Filters -/

omit hv in
lemma climbs_restrict (r : RequestId) (a : NodeId) : Climbs n (restrict r a) := by
  refine (climbs_request r).andThen fun q => ?_
  split
  · exact climbs_edit fun g => steps_andHaving g r a
  · exact climbs_edit fun g => steps_andFilter g r a

lemma climbs_predicate (e : Expr) (r : RequestId) (f : Expr) : Climbs n (predicate visit e r f) :=
  (climbs_enter e r f).andThen fun body => (climbs_value hv body).andThen fun a => climbs_condition a

lemma reaches_openReceiver (e arg : Expr) :
    Reaches n (openReceiver visit e arg) fun r k => r.index < k :=
  (reaches_receiver hv e arg).bind fun _ _ _ hr =>
    (climbs_setActive hr).andThen fun _ => reaches_pure fun _ hk => hr.trans_le hk

lemma reaches_filter (e arg : Expr) (args : List Expr) :
    Reaches n (filter visit e arg args) Meaning.Inside := by
  refine (reaches_openReceiver hv e arg).bind fun r k _ hr => ?_
  refine (climbs_argument e args 1).andThen fun f => (climbs_predicate hv e r f).andThen fun a => ?_
  exact (climbs_restrict r a).andThen fun _ => reaches_query hr

lemma reaches_first (e arg : Expr) (args : List Expr) :
    Reaches n (first visit e arg args) Meaning.Inside := by
  refine (reaches_openReceiver hv e arg).bind fun r k _ hr => ?_
  split
  · refine (climbs_predicate hv e r _).andThen fun a => (climbs_restrict r a).andThen fun _ => ?_
    exact reaches_finish hr fun _ => rfl
  · exact reaches_finish hr fun _ => rfl

/-! ### Paging and orders -/

omit hv in
lemma climbs_rowCount (e count : Expr) : Climbs n (rowCount e count) := by
  unfold rowCount
  split
  · split
    · exact reaches_reject e _
    · exact climbs_pure _
  · exact reaches_reject e _

lemma reaches_skip (e arg : Expr) (args : List Expr) :
    Reaches n (skip visit e arg args) Meaning.Inside := by
  refine (reaches_openReceiver hv e arg).bind fun r k _ hr => ?_
  refine (climbs_argument e args 1).andThen fun count => (climbs_rowCount e count).andThen fun _ => ?_
  exact reaches_finish hr fun _ => rfl

lemma reaches_take (e arg : Expr) (args : List Expr) :
    Reaches n (take visit e arg args) Meaning.Inside := by
  refine (reaches_openReceiver hv e arg).bind fun r k _ hr => ?_
  refine (climbs_argument e args 1).andThen fun count => (climbs_rowCount e count).andThen fun _ => ?_
  exact reaches_finish hr fun _ => rfl

lemma reaches_distinct (e arg : Expr) : Reaches n (distinct visit e arg) Meaning.Inside :=
  (reaches_openReceiver hv e arg).bind fun _ _ _ hr => reaches_finish hr fun _ => rfl

lemma reaches_order (e : Expr) (restart ascending : Bool) (arg : Expr) (args : List Expr) :
    Reaches n (order visit e restart ascending arg args) Meaning.Inside := by
  refine (reaches_openReceiver hv e arg).bind fun r k _ hr => ?_
  have hrest : Reaches k (do
      let body ← enter e r (← argument e args 1)
      let a ← value visit body
      edit (·.pushOrder r a ascending)
      return Meaning.query r) Meaning.Inside := by
    refine (climbs_argument e args 1).andThen fun f => (climbs_enter e r f).andThen fun body => ?_
    refine (climbs_value hv body).andThen fun a => ?_
    exact (climbs_edit fun g => steps_pushOrder g r a ascending).andThen fun _ => reaches_query hr
  split
  · exact reaches_editRequest_bind (fun _ => rfl) hrest
  · exact hrest

/-! ### Parts of texts, members of lists -/

lemma reaches_like (e : Expr) (before after : Bool) (arg : Expr) (args : List Expr) :
    Reaches n (like visit e before after arg args) Meaning.Inside := by
  have hwildcard : Climbs n wildcard := climbs_add _
  refine (climbs_value hv arg).andThen fun subject => (climbs_argument e args 1).andThen fun f => ?_
  refine (climbs_value hv f).andThen fun operand => ?_
  have hbefore : ∀ tail, Reaches n (do
      let pattern ← if before then concat (← wildcard) tail else pure tail
      Meaning.value <$> add (.binary .like subject pattern)) Meaning.Inside := by
    intro tail
    cases before with
    | false => exact (climbs_add _).value
    | true => exact hwildcard.andThen fun _ => (climbs_add _).andThen fun _ => (climbs_add _).value
  cases after with
  | false => exact hbefore operand
  | true => exact hwildcard.andThen fun _ => (climbs_add _).andThen fun tail => hbefore tail

lemma reaches_contains (e arg : Expr) (args : List Expr) :
    Reaches n (contains visit e arg args) Meaning.Inside := by
  refine (climbs_argument e args 1).andThen fun item => ?_
  split
  · exact reaches_like hv e true true arg args
  · split
    · refine (climbs_value hv item).andThen fun operand => ?_
      exact (climbs_mapM _ fun v _ => climbs_add _).andThen fun values => (climbs_add _).value
    · exact reaches_reject e _

/-! ### Projections -/

omit hv in
lemma climbs_selectMember (r : RequestId) (a : NodeId) (p : Option PropertyRef) (newElement : Bool) :
    Climbs n (selectMember r a p newElement) := climbs_edit fun g => steps_pushItem g r _

omit hv in
lemma climbs_selectKeys (e : Expr) (r : RequestId) (newElement : Bool)
    (keys : List (NodeId × Option PropertyRef)) : Climbs n (selectKeys e r newElement keys) := by
  induction keys generalizing newElement with
  | nil => exact climbs_pure _
  | cons key keys ih =>
    refine (climbs_duplicate e key.1).andThen fun a => ?_
    exact (climbs_selectMember r a key.2 newElement).andThen fun _ => ih false

lemma climbs_projectKey (r : RequestId) (p : PropertyRef) (e grouping : Expr) (newElement : Bool) :
    Climbs n (projectKey visit r p e grouping newElement) := by
  refine (climbs_groupingKeys hv e grouping).andThen fun keys => ?_
  split
  · refine (climbs_value hv e).andThen fun a => (climbs_setComputed p a).andThen fun _ => ?_
    exact climbs_selectMember r a _ newElement
  · exact climbs_selectKeys e r true _

lemma climbs_projectPath (r : RequestId) (p : PropertyRef) (e : Expr) (newElement : Bool) :
    Climbs n (projectPath visit r p e newElement) := by
  unfold projectPath
  cases e.type.isCollection with
  | true => exact reaches_reject_bind
  | false =>
    refine (climbs_value hv e).andThen fun a => ?_
    have hselect := climbs_selectMember (n := n) r a (some p) newElement
    cases e.memberPath? with
    | some path => exact (climbs_setPath p path).andThen fun _ => hselect
    | none => exact (climbs_setComputed p a).andThen fun _ => hselect

lemma climbs_projectComputed (r : RequestId) (p : PropertyRef) (e : Expr) (newElement : Bool) :
    Climbs n (projectComputed visit r p e newElement) := by
  refine (climbs_value hv e).andThen fun a => (climbs_setComputed p a).andThen fun _ => ?_
  refine (climbs_selectMember r a _ newElement).andThen fun _ => ?_
  exact climbs_modify (fun _ => rfl) fun _ => rfl

end Visit

mutual
theorem climbs_projectMember {visit : Visit} (hv : ClimbsVisit visit) (r : RequestId)
    (p : PropertyRef) (newElement : Bool) :
    ∀ e : Expr, Climbs n (projectMember visit r p newElement e)
  | .new _ members => by
    rw [projectMember]
    exact climbs_projectMembers hv r true members
  | .key grouping => by
    rw [projectMember]
    exact climbs_projectKey hv r p _ grouping newElement
  | .member _ _ => by
    rw [projectMember]
    exact climbs_projectPath hv r p _ newElement
  | .param _ => by
    rw [projectMember]
    exact climbs_projectPath hv r p _ newElement
  | .lambda _ _ => reaches_reject _ _
  | .init _ _ => reaches_reject _ _
  | .source _ => climbs_projectComputed hv r p _ newElement
  | .const _ => climbs_projectComputed hv r p _ newElement
  | .binary _ _ _ => climbs_projectComputed hv r p _ newElement
  | .unary _ _ => climbs_projectComputed hv r p _ newElement
  | .cond _ _ _ => climbs_projectComputed hv r p _ newElement
  | .call _ _ => climbs_projectComputed hv r p _ newElement

theorem climbs_projectMembers {visit : Visit} (hv : ClimbsVisit visit) (r : RequestId)
    (newElement : Bool) :
    ∀ members : List (PropertyRef × Expr), Climbs n (projectMembers visit r newElement members)
  | [] => climbs_pure _
  | (p, e) :: rest => by
    rw [projectMembers]
    exact (climbs_projectMember hv r p newElement e).andThen fun _ => climbs_projectMembers hv r false rest
end

section Visit

variable {visit : Visit} (hv : ClimbsVisit visit)
include hv

lemma climbs_projectBindings (whole : Expr) (r : RequestId) (newElement : Bool)
    (bindings : List Binding) : Climbs n (projectBindings visit whole r newElement bindings) := by
  induction bindings generalizing newElement with
  | nil => exact climbs_pure _
  | cons b rest ih =>
    cases b with
    | list p es => exact reaches_reject whole _
    | assign p e => exact (climbs_projectMember hv r p newElement e).andThen fun _ => ih false

lemma climbs_projectSingle (e : Expr) (flattens : Bool) (hr : r.index < n) (body : Expr) :
    Climbs n (projectSingle visit e flattens r body) := by
  unfold projectSingle
  dsimp only
  split
  · exact reaches_reject_bind
  · have hbody := reaches_widening Meaning.inside_mono
      (!body.type.isCollection) (hv.reaches (n := n) body)
    refine hbody.bind fun m k hk _ => (climbs_setActive (hr.trans_le hk)).andThen fun _ => ?_
    refine (climbs_valueOf m).andThen fun a => ?_
    exact (climbs_edit fun g => (steps_clearItems g r).trans (steps_pushItem _ r _)).andThen
      fun _ => climbs_pure _

lemma reaches_select (e : Expr) (flattens : Bool) (arg : Expr) (args : List Expr) :
    Reaches n (select visit e flattens arg args) Meaning.Inside := by
  refine (reaches_openReceiver hv e arg).bind fun r k _ hr => ?_
  refine (climbs_argument e args 1).andThen fun f => (climbs_enter e r f).andThen fun body => ?_
  have hdone : ∀ shape, Reaches k (do
      editRequest r ({ · with projection := some shape })
      return Meaning.query r) Meaning.Inside := fun shape => reaches_finish hr fun _ => rfl
  have hclear : Climbs k (edit (·.clearItems r)) := climbs_edit fun g => steps_clearItems g r
  split
  · refine hclear.andThen fun _ => ?_
    exact (climbs_widening true (climbs_projectMembers hv r true _)).andThen fun _ => hdone _
  · refine hclear.andThen fun _ => ?_
    exact (climbs_widening true (climbs_projectBindings hv e r true _)).andThen fun _ => hdone _
  · exact (climbs_projectSingle hv e flattens hr _).andThen hdone
  · exact (climbs_projectSingle hv e flattens hr _).andThen hdone
  · exact (climbs_projectSingle hv e flattens hr _).andThen hdone
  · exact reaches_reject_bind

/-! ### Groupings -/

lemma climbs_groupMember (r : RequestId) (key : PropertyRef × Expr) :
    Climbs n (groupMember visit r key) := by
  obtain ⟨p, e⟩ := key
  have hrest : Climbs n (do
      let a ← value visit e
      edit (·.pushGroup r a (some p))) :=
    (climbs_value hv e).andThen fun a => climbs_edit fun g => steps_pushGroup g r a (some p)
  unfold groupMember
  dsimp only
  split
  · exact (climbs_setPath p _).andThen fun _ => hrest
  · exact hrest

lemma reaches_groupBy (e arg : Expr) (args : List Expr) :
    Reaches n (groupBy visit e arg args) Meaning.Inside := by
  refine (reaches_openReceiver hv e arg).bind fun r k _ hr => ?_
  refine (climbs_argument e args 1).andThen fun f => (climbs_enter e r f).andThen fun body => ?_
  have hdone : Reaches k (do
      editRequest r ({ · with projection := some e.elementType })
      return Meaning.query r) Meaning.Inside := reaches_finish hr fun _ => rfl
  have hsingle : ∀ x : Expr, Reaches k (do
      let a ← value visit x
      edit (·.pushGroup r a none)
      editRequest r ({ · with projection := some e.elementType })
      return Meaning.query r) Meaning.Inside := fun x =>
    (climbs_value hv x).andThen fun a =>
      (climbs_edit fun g => steps_pushGroup g r a none).andThen fun _ => hdone
  split
  · exact (climbs_forM _ fun key _ => climbs_groupMember hv r key).andThen fun _ => hdone
  · exact hsingle _
  · exact hsingle _
  · exact reaches_reject_bind

/-! ### Aggregates -/

lemma climbs_selector (e : Expr) (hr : r.index < n) (f : Expr) : Climbs n (selector visit e r f) :=
  climbs_within hr ((climbs_enter e r f).andThen fun body => climbs_value hv body)

lemma climbs_restrictBy (e : Expr) (hr : r.index < n) (f : Option Expr) :
    Climbs n (restrictBy visit e r f) := by
  cases f with
  | none => exact climbs_pure _
  | some f =>
    exact (climbs_within hr (climbs_predicate hv e r f)).andThen fun a => climbs_restrict r a

lemma climbs_aggregated (e : Expr) (hr : r.index < n) (f : Option Expr) :
    Climbs n (aggregated visit e r f) := by
  cases f with
  | some f => exact climbs_selector hv e hr f
  | none =>
    refine (climbs_request r).andThen fun q => ?_
    split
    · exact climbs_pure _
    · exact reaches_reject e _

omit hv in
lemma climbs_selectAll (e : Expr) (r : RequestId) : Climbs n (selectAll e r) := by
  refine (climbs_request r).andThen fun q => ?_
  split
  · split
    · exact (climbs_add _).andThen fun a => climbs_edit fun g => steps_pushItem g r _
    · exact reaches_reject e _
  · exact climbs_pure _

lemma reaches_aggregateGrouping (e : Expr) (op : UnaryOp) (arg : Expr) (f : Option Expr) :
    Reaches n (aggregateGrouping visit e op arg f) Meaning.Inside := by
  refine (climbs_rowValue hv arg).andThen fun a => (reaches_active e).bind fun here k _ hhere => ?_
  refine reaches_graph_bind fun g hg hk => ?_
  have hr : ((g.requestOver? here a).getD here).index < g.requests.size := by
    cases hq : g.requestOver? here a with
    | none => exact hhere.trans_le hk
    | some q =>
      have hwalk := hg.requestWalk_enclosing? (fun q => (g.request q).base == some a) here
      exact inside_of_requestWalk hg hwalk (hhere.trans_le hk) hq
  dsimp only
  generalize (g.requestOver? here a).getD here = r at hr
  split
  · exact (climbs_add _).value
  · refine (climbs_within hr (climbs_predicate hv e r _)).andThen fun test => ?_
    refine (climbs_add _).andThen fun one => (climbs_add _).andThen fun null => ?_
    exact (climbs_add _).andThen fun a => (climbs_add _).value
  · exact (climbs_selector hv e hr _).andThen fun a => (climbs_add _).value
  · exact reaches_reject e _

lemma reaches_aggregateInside (e : Expr) (op : UnaryOp) (hr : r.index < n) (f : Option Expr) :
    Reaches n (aggregateInside visit e op r f) Meaning.Inside := by
  have hrest : ∀ operand : Option NodeId, Reaches n (do
      let a ← add (.unary op operand)
      edit fun g => (g.clearItems r).pushItem r { node := a }
      editRequest r ({ · with projection := some e.type })
      leave r
      Meaning.value <$> add (.sub r)) Meaning.Inside := by
    intro operand
    refine (climbs_add _).andThen fun a => ?_
    refine (climbs_edit fun g => (steps_clearItems g r).trans (steps_pushItem _ r _)).andThen fun _ => ?_
    refine reaches_editRequest_bind (fun _ => rfl) ((climbs_leave r).andThen fun _ => ?_)
    exact (climbs_add _).value
  unfold aggregateInside
  split
  · refine (climbs_restrictBy hv e hr f).andThen fun _ => ?_
    rw [pure_bind]
    exact hrest none
  · have hsome : Climbs n (some <$> aggregated visit e r f) :=
      (climbs_aggregated hv e hr f).map fun _ _ _ _ _ => trivial
    exact hsome.andThen hrest

omit hv in
lemma climbs_selectCounted (e : Expr) (r : RequestId) : Climbs n (selectCounted e r) := by
  have hlabels : ∀ f : Item × Nat → Item, Climbs n (do
      if (← request r).items.isEmpty then selectAll e r
      else editRequest r fun q => { q with items := q.items.zipIdx.map f }) := by
    intro f
    refine (climbs_request r).andThen fun q => ?_
    split
    · exact climbs_selectAll e r
    · exact climbs_editRequest fun _ => rfl
  have hkeys : ∀ keys : List NodeId, Climbs n (keys.forM fun key => do
      let a ← duplicate e key
      edit (·.pushItem r { node := a })) := fun keys => climbs_forM keys fun key _ =>
    (climbs_duplicate e key).andThen fun a => climbs_edit fun g => steps_pushItem g r _
  refine (climbs_request r).andThen fun q => ?_
  split
  · exact (hkeys q.groups).andThen fun _ => hlabels _
  · exact hlabels _

omit hv in
/-- A request is opened in the place of another one, which it is to hold. -/
lemma reaches_derive (hr : r.index < n) : Reaches n (derive r) fun p k => p.1.index < k := by
  intro s hs hn
  have hr' := hr.trans_le hn
  let parent := (s.graph.request r).parent
  let outer : RequestId := ⟨s.graph.requests.size⟩
  let g₁ := (s.graph.addRequest parent).2
  let g₂ := (g₁.addAlias (.derived r)).2
  let g₃ := g₂.modifyRequest r fun q =>
    { q with parent := some outer, orders := if q.isPaged then q.orders else [] }
  let g₄ := g₃.modifyRequest outer ({ · with base := some ⟨g₁.aliases.size⟩ })
  have hrun : (derive r).run.run s =
    (.ok (outer, ⟨g₁.aliases.size⟩), { s with graph := g₄, active := some outer }) := rfl
  have h₁ : Steps s.graph g₁ := .single (.addRequest _ _ fun q hq => hs.graph.inside r q hq)
  have h₂ : Steps s.graph g₂ := h₁.tail (.addAlias _ _)
  have hsize : g₂.requests.size = s.graph.requests.size + 1 := size_requests_addRequest _ _
  have hne : outer ≠ r := fun h => hr'.ne (by rw [← h])
  have h₃ : Steps s.graph g₃ := by
    refine h₂.tail (.enclose g₂ r outer _ (fun _ => rfl) hne (by omega) (by simp [hsize, outer]) ?_)
    intro q hq
    rw [show g₂.request outer = { parent } from request_addRequest_self _ _] at hq
    rw [show g₂.request r = s.graph.request r from request_addRequest_of_lt _ _ hr']
    exact hq
  have h₄ : Steps s.graph g₄ := h₃.trans (steps_modifyRequest g₃ outer fun _ => rfl)
  have houter : outer.index < g₄.requests.size := by simp [g₄, g₃, hsize, outer]
  rw [hrun]
  refine ⟨h₄, ⟨Steps.ascends h₄ hs.graph, ?_⟩, ?_⟩
  · rintro q ⟨⟩
    exact houter
  · rintro a ⟨⟩
    exact houter

omit hv in
/-- A request is opened at the outside, around one that is at the outside. -/
lemma reaches_surround (hr : r.index < n) : Reaches n (do
    let outer ← build (Build.addRequest none)
    editRequest r ({ · with parent := some outer })
    return outer) fun outer k => outer.index < k := by
  intro s hs hn
  have hr' := hr.trans_le hn
  let outer : RequestId := ⟨s.graph.requests.size⟩
  let g₁ := (s.graph.addRequest none).2
  let g₂ := g₁.modifyRequest r ({ · with parent := some outer })
  have h₁ : Steps s.graph g₁ := .single (.addRequest _ _ nofun)
  have hsize : g₁.requests.size = s.graph.requests.size + 1 := size_requests_addRequest _ _
  have hne : outer ≠ r := fun h => hr'.ne (by rw [← h])
  have h₂ : Steps s.graph g₂ := by
    refine h₁.tail (.enclose g₁ r outer _ (fun _ => rfl) hne (by omega) (by simp [hsize, outer]) ?_)
    intro q hq
    rw [show g₁.request outer = {} from request_addRequest_self _ _] at hq
    cases hq
  have houter : outer.index < g₂.requests.size := by simp [g₂, hsize, outer]
  refine ⟨h₂, CompileState.Upright.climb hs h₂, ?_⟩
  rintro a ⟨⟩
  exact houter

lemma reaches_aggregateDerived (e : Expr) (op : UnaryOp) (hr : r.index < n) (f : Option Expr) :
    Reaches n (aggregateDerived visit e op r f) fun outer k => outer.index < k := by
  have hselect : ∀ (outer : RequestId) (k : ℕ) (operand : Option NodeId), outer.index < k →
      Reaches k (do
        let a ← add (.unary op operand)
        edit (·.pushItem outer { node := a })
        editRequest outer ({ · with projection := some e.type })
        return outer) fun outer k => outer.index < k := by
    intro outer k operand houter
    refine (climbs_add _).andThen fun a => ?_
    refine (climbs_edit fun g => steps_pushItem g outer _).andThen fun _ => ?_
    refine reaches_editRequest_bind (fun _ => rfl) ?_
    exact reaches_pure fun l hl => houter.trans_le hl
  unfold aggregateDerived
  split
  · refine (climbs_restrictBy hv e hr f).andThen fun _ => (climbs_selectCounted e r).andThen fun _ => ?_
    exact (reaches_derive hr).bind fun x k _ hx => hselect x.1 k none hx
  · refine (climbs_aggregated hv e hr f).andThen fun a => ?_
    refine (climbs_edit fun g => (steps_clearItems g r).trans (steps_pushItem _ r _)).andThen fun _ => ?_
    refine (reaches_derive hr).bind fun x k _ hx => ?_
    have hcolumn : Climbs k (some <$> add (.column x.2 (derivedLabel 0))) :=
      (climbs_add _).map fun _ _ _ _ _ => trivial
    exact hcolumn.andThen fun operand => hselect x.1 k operand hx

lemma reaches_aggregate (e : Expr) (op : UnaryOp) (arg : Expr) (args : List Expr) :
    Reaches n (aggregate visit e op arg args) Meaning.Inside := by
  unfold aggregate
  dsimp only
  split
  · exact reaches_aggregateGrouping hv e op arg _
  · refine (reaches_receiver hv e arg).bind fun r k _ hr => (climbs_request r).andThen fun q => ?_
    split
    · exact (reaches_aggregateDerived hv e op hr _).map fun outer k m houter hkm =>
        Meaning.inside_query (houter.trans_le hkm)
    · split
      · refine reaches_get_bind fun s hs hk => ?_
        refine (reaches_aggregateDerived hv e op (hr.trans_le hk) _).bind fun outer l hl _ => ?_
        split
        · refine (climbs_activate fun q hq => (hs.active q hq).trans_le hl).andThen fun _ => ?_
          exact (climbs_add _).value
        · exact (climbs_add _).value
      · exact reaches_aggregateInside hv e op hr _

lemma reaches_any (e arg : Expr) (args : List Expr) :
    Reaches n (any visit e arg args) Meaning.Inside := by
  unfold any
  split
  · exact reaches_reject_bind
  · refine (reaches_receiver hv e arg).bind fun r k _ hr => ?_
    refine (climbs_restrictBy hv e hr _).andThen fun _ => (climbs_selectAll e r).andThen fun _ => ?_
    refine (climbs_add _).andThen fun sub => (climbs_add _).andThen fun found => ?_
    refine (climbs_request r).andThen fun q => ?_
    split
    · exact (climbs_leave r).andThen fun _ => reaches_pure fun _ _ => Meaning.inside_value _ _
    · have hanswer : ∀ (outer : RequestId) (l : ℕ), outer.index < l → Reaches l (do
          let yes ← add (.const (.boolean true))
          let no ← add (.const (.boolean false))
          let answer ← add (.cond found yes no)
          edit (·.pushItem outer { node := answer })
          editRequest outer ({ · with projection := some .boolean })
          setActive outer
          return Meaning.query outer) Meaning.Inside := by
        intro outer l houter
        refine (climbs_add _).andThen fun yes => (climbs_add _).andThen fun no => ?_
        refine (climbs_add _).andThen fun answer => ?_
        refine (climbs_edit fun g => steps_pushItem g outer _).andThen fun _ => ?_
        refine reaches_editRequest_bind (fun _ => rfl) ?_
        exact (climbs_setActive houter).andThen fun _ => reaches_query houter
      have hwhole := (reaches_surround hr).bind fun outer l _ houter => hanswer outer l houter
      simpa only [bind_assoc, pure_bind] using hwhole

/-! ### Writes -/

lemma climbs_assign (e : Expr) (r : RequestId) (target : AliasId) (bindings : List Binding) :
    Climbs n (assign visit e r target bindings) := by
  induction bindings with
  | nil => exact climbs_pure _
  | cons b rest ih =>
    cases b with
    | list p es => exact reaches_reject e _
    | assign p v =>
      rw [assign]
      refine (climbs_ask _).andThen fun stored => ?_
      have hstore : Climbs n (do
          let column ← add (.column target stored.column)
          let a ← value visit v
          edit (·.pushAssignment r ⟨column, a⟩)
          assign visit e r target rest) :=
        (climbs_add _).andThen fun column => (climbs_value hv v).andThen fun a =>
          (climbs_edit fun g => steps_pushAssignment g r ⟨column, a⟩).andThen fun _ => ih
      split
      · exact reaches_reject_bind
      · exact reaches_reject_bind
      · exact hstore
      · exact hstore

omit hv in
lemma reaches_markWrite (e : Expr) (hr : r.index < n) (kind : RequestKind) (target : Option AliasId) :
    Reaches n (markWrite e r kind target) Meaning.Inside := reaches_finish hr fun _ => rfl

lemma reaches_initializer (e : Expr) (m : Method) (arg : Expr) (args : List Expr) :
    Reaches n (initializer visit e m arg args) fun x k => x.1.index < k := by
  refine (reaches_openReceiver hv e arg).bind fun r k _ hr => ?_
  refine (climbs_argument e args 1).andThen fun f => (climbs_enter e r f).andThen fun body => ?_
  split
  · exact reaches_pure fun l hl => hr.trans_le hl
  · exact reaches_reject e _

lemma reaches_update (e arg : Expr) (args : List Expr) :
    Reaches n (update visit e arg args) Meaning.Inside := by
  refine (reaches_initializer hv e .update arg args).bind fun ⟨r, type, bindings⟩ k _ hr => ?_
  refine (climbs_request r).andThen fun q => ?_
  split
  · exact (climbs_assign hv e r _ bindings).andThen fun _ => reaches_markWrite e hr _ _
  · exact reaches_reject e _

lemma reaches_insert (e arg : Expr) (args : List Expr) :
    Reaches n (insert visit e arg args) Meaning.Inside := by
  refine (reaches_initializer hv e .insert arg args).bind fun ⟨r, type, bindings⟩ k _ hr => ?_
  refine (climbs_ask _).andThen fun table => reaches_get_bind fun s _ hk => ?_
  refine (climbs_build fun g _ => steps_addAlias g _).andThen fun target => ?_
  refine (climbs_assign hv e r target bindings).andThen fun _ => ?_
  exact reaches_markWrite e (hr.trans_le hk) _ _

lemma reaches_delete (e arg : Expr) : Reaches n (delete visit e arg) Meaning.Inside := by
  refine (reaches_openReceiver hv e arg).bind fun r k _ hr => (climbs_request r).andThen fun q => ?_
  exact reaches_markWrite e hr _ _

end Visit

end EntityQuery.Compile
