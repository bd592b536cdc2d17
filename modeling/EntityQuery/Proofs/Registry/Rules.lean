import EntityQuery.Compile.Summary
import EntityQuery.Compile.Write
import EntityQuery.Proofs.Registry.Steps

/-!
Rules over mappings that cannot be told apart.

* One lemma for each rule: if the rule for the parts has one outcome, so has the rule for the whole.
* Only `projectComputed` changes the mapping. It registers a value for a member that may be filled.
-/

namespace EntityQuery.Compile

open Sql Discipline

variable {d : Discipline}

/-! ### Sources and constants -/

lemma agrees_source (entity : String) : d.Agrees (source entity) := by
  refine (agrees_ask _).bind fun table => agrees_get_bind fun s m h => ⟨by rw [h.catalog], ?_⟩
  refine agrees_get_bind fun s m _ => ⟨rfl, (agrees_build _).bind fun r => ?_⟩
  refine (agrees_build _).bind fun a => (agrees_editRequest r _).bind fun _ => ?_
  exact (agrees_setActive r).bind fun _ => agrees_pure _

lemma agrees_constant (e : Expr) (l : Literal) : d.Agrees (constant e l) := by
  cases l with
  | value v => exact (agrees_add _).map _
  | list vs => exact agrees_reject e _
  | entity name fields =>
    refine agrees_get_bind fun s m h => ⟨by rw [h.catalog], ?_⟩
    split
    · exact agrees_reject e _
    · split
      · exact (agrees_add _).map _
      · exact agrees_reject e _

lemma agrees_parameter (e : Expr) (p : Param) : d.Agrees (parameter e p) := by
  refine (agrees_active e).bind fun r => agrees_graph.bind fun g => ?_
  split
  · exact agrees_pure _
  · exact agrees_reject e _

section Visit

variable {visit : Visit} (hv : AgreesVisit d visit)
include hv

/-! ### Grouping keys -/

lemma agrees_groupingKeys (e : Expr) {grouping : Expr} (hg : grouping.confined d.reads d.fills = true) :
    d.Agrees (groupingKeys visit e grouping) := by
  refine (agrees_rowValue hv hg).bind fun a => (agrees_active e).bind fun r => ?_
  refine agrees_graph.bind fun g => ?_
  dsimp only
  split
  · exact agrees_pure _
  · exact agrees_reject e _

lemma agrees_key (e : Expr) {grouping : Expr} (hg : grouping.confined d.reads d.fills = true) :
    d.Agrees (key visit e grouping) := by
  refine (agrees_groupingKeys hv e hg).bind fun keys => ?_
  split
  · exact (agrees_duplicate e _).map _
  · exact agrees_reject e _

lemma agrees_keyMember (e : Expr) {grouping : Expr} (hg : grouping.confined d.reads d.fills = true)
    {p : PropertyRef} (hp : d.reads p = true) : d.Agrees (keyMember visit e grouping p) := by
  refine (agrees_groupingKeys hv e hg).bind fun keys => ?_
  split
  · exact (agrees_duplicate e _).map _
  · split
    · refine agrees_graph.bind fun g => ?_
      split
      · exact (agrees_resolveMember e _ hp).bind fun m => (agrees_valueOf m).map _
      · exact agrees_reject e _
    · exact agrees_reject e _

/-! ### Members -/

omit hv in
lemma agrees_memberOfQuery (e : Expr) (r : RequestId) {p : PropertyRef} (hp : d.reads p = true) :
    d.Agrees (memberOfQuery e r p) := by
  refine (agrees_rowOf e r).bind fun a => (agrees_within r (agrees_resolveMember e a hp)).bind fun m => ?_
  refine (agrees_valueOf m).bind fun n => (agrees_edit _).bind fun _ => ?_
  refine (agrees_editRequest r _).bind fun _ => (agrees_leave r).bind fun _ => ?_
  exact (agrees_add _).map _

lemma agrees_member (e : Expr) {target : Expr} (ht : target.confined d.reads d.fills = true)
    {p : PropertyRef} (hp : d.reads p = true) : d.Agrees (member visit e target p) := by
  unfold member
  split
  · next grouping =>
    rw [Expr.confined] at ht
    exact agrees_keyMember hv e ht hp
  · refine (hv _ ht).bind fun m => ?_
    split
    · exact agrees_resolveMember e _ hp
    · exact agrees_memberOfQuery e _ hp
    · exact agrees_reject e _

/-! ### Operators -/

lemma agrees_binary (e : Expr) (op : BinaryOperator) {l r : Expr}
    (hl : l.confined d.reads d.fills = true) (hr : r.confined d.reads d.fills = true) :
    d.Agrees (binary visit e op l r) := by
  unfold binary
  split
  · exact agrees_reject e _
  · refine agrees_get_bind fun s m _ => ⟨rfl, agrees_widening _ ?_⟩
    refine (agrees_value hv hl).bind fun left => (agrees_value hv hr).bind fun right => ?_
    split
    · refine (agrees_condition left).bind fun _ => (agrees_condition right).bind fun _ => ?_
      exact (agrees_add _).map _
    · exact (agrees_add _).map _

lemma agrees_unary (e : Expr) (op : UnaryOperator) {operand : Expr}
    (ho : operand.confined d.reads d.fills = true) : d.Agrees (unary visit e op operand) := by
  cases op with
  | not =>
    refine (agrees_value hv ho).bind fun n => (agrees_condition n).bind fun _ => ?_
    exact (agrees_add _).map _
  | convert => exact hv operand ho
  | negate => exact agrees_reject e _

lemma agrees_conditional {test yes no : Expr} (ht : test.confined d.reads d.fills = true)
    (hy : yes.confined d.reads d.fills = true) (hn : no.confined d.reads d.fills = true) :
    d.Agrees (conditional visit test yes no) := by
  refine (agrees_value hv ht).bind fun t => (agrees_condition t).bind fun _ => ?_
  refine (agrees_value hv hy).bind fun _ => (agrees_value hv hn).bind fun _ => ?_
  exact (agrees_add _).map _

/-! ### Filters -/

omit hv in
lemma agrees_restrict (r : RequestId) (n : NodeId) : d.Agrees (restrict r n) := by
  refine (agrees_request r).bind fun q => ?_
  split <;> exact agrees_edit _

/-- The value of a lambda. -/
lemma agrees_body (e : Expr) (r : RequestId) {f : Expr} (hf : f.confined d.reads d.fills = true) :
    d.Agrees (do value visit (← enter e r f)) := by
  refine agrees_enter_bind fun ps body hbody => agrees_value hv ?_
  rw [hbody, Expr.confined] at hf
  exact hf

lemma agrees_predicate (e : Expr) (r : RequestId) {f : Expr} (hf : f.confined d.reads d.fills = true) :
    d.Agrees (predicate visit e r f) := by
  refine agrees_enter_bind fun ps body hbody => ?_
  rw [hbody, Expr.confined] at hf
  exact (agrees_value hv hf).bind fun n => agrees_condition n

section Receiver

variable {arg : Expr} (harg : arg.confined d.reads d.fills = true)
include harg

lemma agrees_openReceiver (e : Expr) : d.Agrees (openReceiver visit e arg) :=
  (agrees_receiver hv e harg).bind fun r => (agrees_setActive r).bind fun _ => agrees_pure r

lemma agrees_distinct (e : Expr) : d.Agrees (distinct visit e arg) := by
  refine (agrees_openReceiver hv harg e).bind fun r => ?_
  exact (agrees_editRequest r _).bind fun _ => agrees_pure _

variable {args : List Expr} (hargs : ∀ a ∈ args, a.confined d.reads d.fills = true)
include hargs

omit hv harg in
lemma confined_getElem? {index : Nat} {a : Expr} (ha : args[index]? = some a) :
    a.confined d.reads d.fills = true := hargs a (List.mem_of_getElem? ha)

lemma agrees_filter (e : Expr) : d.Agrees (filter visit e arg args) := by
  refine (agrees_openReceiver hv harg e).bind fun r => agrees_argument_bind fun f hf => ?_
  refine (agrees_predicate hv e r (confined_getElem? hargs hf)).bind fun n => ?_
  exact (agrees_restrict r n).bind fun _ => agrees_pure _

lemma agrees_first (e : Expr) : d.Agrees (first visit e arg args) := by
  refine (agrees_openReceiver hv harg e).bind fun r => ?_
  split
  · next f hf =>
    refine (agrees_predicate hv e r (confined_getElem? hargs hf)).bind fun n => ?_
    exact (agrees_restrict r n).bind fun _ => (agrees_editRequest r _).bind fun _ => agrees_pure _
  · exact (agrees_editRequest r _).bind fun _ => agrees_pure _

/-! ### Paging and orders -/

omit hv harg hargs in
lemma agrees_rowCount (e count : Expr) : d.Agrees (rowCount e count) := by
  unfold rowCount
  split
  · split
    · exact agrees_reject e _
    · exact agrees_pure _
  · exact agrees_reject e _

omit hargs in
lemma agrees_skip (e : Expr) : d.Agrees (skip visit e arg args) := by
  refine (agrees_openReceiver hv harg e).bind fun r => agrees_argument_bind fun count _ => ?_
  exact (agrees_rowCount e count).bind fun n => (agrees_editRequest r _).bind fun _ => agrees_pure _

omit hargs in
lemma agrees_take (e : Expr) : d.Agrees (take visit e arg args) := by
  refine (agrees_openReceiver hv harg e).bind fun r => agrees_argument_bind fun count _ => ?_
  exact (agrees_rowCount e count).bind fun n => (agrees_editRequest r _).bind fun _ => agrees_pure _

lemma agrees_order (e : Expr) (restart ascending : Bool) :
    d.Agrees (order visit e restart ascending arg args) := by
  refine (agrees_openReceiver hv harg e).bind fun r => ?_
  have hrest : d.Agrees (do
      let body ← enter e r (← argument e args 1)
      let n ← value visit body
      edit (·.pushOrder r n ascending)
      return Meaning.query r) := by
    refine agrees_argument_bind fun f hf => ?_
    have hconfined := confined_getElem? hargs hf
    refine agrees_enter_bind fun ps body hbody => ?_
    rw [hbody, Expr.confined] at hconfined
    exact (agrees_value hv hconfined).bind fun n => (agrees_edit _).bind fun _ => agrees_pure _
  split
  · exact (agrees_editRequest r _).bind fun _ => hrest
  · exact hrest

/-! ### Parts of texts, members of lists -/

lemma agrees_like (e : Expr) (before after : Bool) :
    d.Agrees (like visit e before after arg args) := by
  have hwildcard : d.Agrees wildcard := agrees_add _
  refine (agrees_value hv harg).bind fun subject => agrees_argument_bind fun f hf => ?_
  refine (agrees_value hv (confined_getElem? hargs hf)).bind fun operand => ?_
  have hbefore : ∀ tail, d.Agrees (do
      let pattern ← if before then concat (← wildcard) tail else pure tail
      Meaning.value <$> add (.binary .like subject pattern)) := by
    intro tail
    cases before with
    | false => exact (agrees_add _).map _
    | true => exact hwildcard.bind fun _ => (agrees_add _).bind fun _ => (agrees_add _).map _
  cases after with
  | false => exact hbefore operand
  | true => exact hwildcard.bind fun _ => (agrees_add _).bind fun tail => hbefore tail

lemma agrees_contains (e : Expr) : d.Agrees (contains visit e arg args) := by
  refine agrees_argument_bind fun item hitem => ?_
  split
  · exact agrees_like hv harg hargs e true true
  · split
    · refine (agrees_value hv (confined_getElem? hargs hitem)).bind fun operand => ?_
      exact (agrees_mapM _ fun v _ => agrees_add _).bind fun values => (agrees_add _).map _
    · exact agrees_reject e _

end Receiver

/-! ### Projections -/

omit hv in
lemma agrees_selectMember (r : RequestId) (n : NodeId) (p : Option PropertyRef) (newElement : Bool) :
    d.Agrees (selectMember r n p newElement) := agrees_edit _

omit hv in
lemma agrees_selectKeys (e : Expr) (r : RequestId) (newElement : Bool)
    (keys : List (NodeId × Option PropertyRef)) : d.Agrees (selectKeys e r newElement keys) := by
  induction keys generalizing newElement with
  | nil => exact agrees_pure _
  | cons key keys ih =>
    refine (agrees_duplicate e key.1).bind fun n => ?_
    exact (agrees_selectMember r n key.2 newElement).bind fun _ => ih false

lemma agrees_projectKey (r : RequestId) (p : PropertyRef) {e grouping : Expr}
    (he : e.confined d.reads d.fills = true) (hg : grouping.confined d.reads d.fills = true)
    (newElement : Bool) : d.Agrees (projectKey visit r p e grouping newElement) := by
  refine (agrees_groupingKeys hv e hg).bind fun keys => ?_
  split
  · refine (agrees_value hv he).bind fun n => (agrees_setComputed p n).bind fun _ => ?_
    exact agrees_selectMember r n _ newElement
  · exact agrees_selectKeys e r true _

lemma agrees_projectPath (r : RequestId) (p : PropertyRef) {e : Expr}
    (he : e.confined d.reads d.fills = true) (newElement : Bool) :
    d.Agrees (projectPath visit r p e newElement) := by
  unfold projectPath
  cases e.type.isCollection with
  | true => exact agrees_reject_bind
  | false =>
    refine (agrees_value hv he).bind fun n => ?_
    have hselect := agrees_selectMember (d := d) r n (some p) newElement
    cases hpath : e.memberPath? with
    | some path =>
      exact (agrees_setPath p (Expr.reads_memberPath? he hpath)).bind fun _ => hselect
    | none => exact (agrees_setComputed p n).bind fun _ => hselect

/-- The value of a member that may be filled is registered. -/
lemma agrees_projectComputed (r : RequestId) {p : PropertyRef} {e : Expr}
    (he : e.confined d.reads d.fills = true) (hp : d.fills p = true) (newElement : Bool) :
    d.Agrees (projectComputed visit r p e newElement) := by
  refine (agrees_value hv he).bind fun n => (agrees_setComputed p n).bind fun _ => ?_
  refine (agrees_selectMember r n _ newElement).bind fun _ => fun s m h => ?_
  exact ⟨m.register s.graph p n, rfl, d.register h.alike hp s.graph n, h.paths⟩

end Visit

mutual
theorem agrees_projectMember {visit : Visit} (hv : AgreesVisit d visit) (r : RequestId)
    (p : PropertyRef) (newElement : Bool) :
    ∀ e : Expr, e.confined d.reads d.fills = true → Expr.fillsMember d.fills p e = true →
      d.Agrees (projectMember visit r p newElement e)
  | .new type members, he, hp => by
    rw [Expr.confined] at he
    rw [Expr.fillsMember] at hp
    rw [projectMember]
    exact agrees_projectMembers hv r true members he hp
  | .key grouping, he, _ => by
    rw [projectMember]
    refine agrees_projectKey hv r p he ?_ newElement
    rwa [Expr.confined] at he
  | .member target q, he, _ => by
    rw [projectMember]
    exact agrees_projectPath hv r p he newElement
  | .param q, he, _ => by
    rw [projectMember]
    exact agrees_projectPath hv r p he newElement
  | .lambda ps body, _, _ => agrees_reject _ _
  | .init type bindings, _, _ => agrees_reject _ _
  | .source entity, he, hp => agrees_projectComputed hv r he hp newElement
  | .const l, he, hp => agrees_projectComputed hv r he hp newElement
  | .binary op x y, he, hp => agrees_projectComputed hv r he hp newElement
  | .unary op x, he, hp => agrees_projectComputed hv r he hp newElement
  | .cond t y n, he, hp => agrees_projectComputed hv r he hp newElement
  | .call m args, he, hp => agrees_projectComputed hv r he hp newElement

theorem agrees_projectMembers {visit : Visit} (hv : AgreesVisit d visit) (r : RequestId)
    (newElement : Bool) :
    ∀ members : List (PropertyRef × Expr), Expr.confinedMembers d.reads d.fills members = true →
      Expr.fillsMembers d.fills members = true → d.Agrees (projectMembers visit r newElement members)
  | [], _, _ => agrees_pure _
  | (p, e) :: rest, hmembers, hfills => by
    rw [Expr.confinedMembers, Bool.and_eq_true] at hmembers
    rw [Expr.fillsMembers, Bool.and_eq_true] at hfills
    rw [projectMembers]
    refine (agrees_projectMember hv r p newElement e hmembers.1 hfills.1).bind fun _ => ?_
    exact agrees_projectMembers hv r false rest hmembers.2 hfills.2
end

section Visit

variable {visit : Visit} (hv : AgreesVisit d visit)
include hv

lemma agrees_projectBindings (whole : Expr) (r : RequestId) (newElement : Bool) (bindings : List Binding)
    (hb : Expr.confinedBindings d.reads d.fills bindings = true)
    (hfills : Expr.fillsBindings d.fills bindings = true) :
    d.Agrees (projectBindings visit whole r newElement bindings) := by
  induction bindings generalizing newElement with
  | nil => exact agrees_pure _
  | cons b rest ih =>
    cases b with
    | list p es => exact agrees_reject whole _
    | assign p e =>
      rw [Expr.confinedBindings, Bool.and_eq_true] at hb
      rw [Expr.fillsBindings, Bool.and_eq_true] at hfills
      refine (agrees_projectMember hv r p newElement e hb.1 hfills.1).bind fun _ => ?_
      exact ih false hb.2 hfills.2

lemma agrees_projectSingle (e : Expr) (flattens : Bool) (r : RequestId) {body : Expr}
    (hb : body.confined d.reads d.fills = true) : d.Agrees (projectSingle visit e flattens r body) := by
  unfold projectSingle
  dsimp only
  split
  · exact agrees_reject_bind
  · refine (agrees_widening _ (hv body hb)).bind fun m => (agrees_setActive r).bind fun _ => ?_
    exact (agrees_valueOf m).bind fun n => (agrees_edit _).bind fun _ => agrees_pure _

section Receiver

variable {arg : Expr} (harg : arg.confined d.reads d.fills = true) {args : List Expr}
  (hargs : ∀ a ∈ args, a.confined d.reads d.fills = true)
include harg hargs

lemma agrees_select (hfills : args[1]?.all (Expr.fillsObject d.fills) = true) (e : Expr)
    (flattens : Bool) : d.Agrees (select visit e flattens arg args) := by
  refine (agrees_openReceiver hv harg e).bind fun r => agrees_argument_bind fun f hf => ?_
  have hconfined := confined_getElem? hargs hf
  rw [hf, Option.all_some] at hfills
  refine agrees_enter_bind fun ps body hbody => ?_
  rw [hbody] at hfills
  rw [hbody, Expr.confined] at hconfined
  have hdone : ∀ shape, d.Agrees (do
      editRequest r ({ · with projection := some shape })
      return Meaning.query r) := fun shape => (agrees_editRequest r _).bind fun _ => agrees_pure _
  split
  · next type members =>
    rw [Expr.confined] at hconfined
    rw [Expr.fillsObject] at hfills
    refine (agrees_edit _).bind fun _ => ?_
    exact (agrees_widening true (agrees_projectMembers hv r true members hconfined hfills)).bind
      fun _ => hdone _
  · next type bindings =>
    rw [Expr.confined] at hconfined
    rw [Expr.fillsObject] at hfills
    refine (agrees_edit _).bind fun _ => ?_
    exact (agrees_widening true (agrees_projectBindings hv e r true bindings hconfined hfills)).bind
      fun _ => hdone _
  · exact (agrees_projectSingle hv e flattens r hconfined).bind hdone
  · exact (agrees_projectSingle hv e flattens r hconfined).bind hdone
  · exact (agrees_projectSingle hv e flattens r hconfined).bind hdone
  · exact agrees_reject_bind

/-! ### Groupings -/

omit harg hargs in
lemma agrees_groupMember (r : RequestId) {key : PropertyRef × Expr}
    (hkey : key.2.confined d.reads d.fills = true) : d.Agrees (groupMember visit r key) := by
  obtain ⟨p, e⟩ := key
  have hrest : d.Agrees (do
      let n ← value visit e
      edit (·.pushGroup r n (some p))) := (agrees_value hv hkey).bind fun n => agrees_edit _
  unfold groupMember
  dsimp only
  split
  · next path hpath =>
    exact (agrees_setPath p (Expr.reads_memberPath? hkey hpath)).bind fun _ => hrest
  · exact hrest

omit hv harg hargs in
lemma confined_of_mem_members {members : List (PropertyRef × Expr)}
    (h : Expr.confinedMembers d.reads d.fills members = true) {key : PropertyRef × Expr}
    (hkey : key ∈ members) : key.2.confined d.reads d.fills = true := by
  induction members with
  | nil => cases hkey
  | cons member members ih =>
    rw [Expr.confinedMembers, Bool.and_eq_true] at h
    rcases List.mem_cons.1 hkey with rfl | hkey
    · exact h.1
    · exact ih h.2 hkey

lemma agrees_groupBy (e : Expr) : d.Agrees (groupBy visit e arg args) := by
  refine (agrees_openReceiver hv harg e).bind fun r => agrees_argument_bind fun f hf => ?_
  have hconfined := confined_getElem? hargs hf
  refine agrees_enter_bind fun ps body hbody => ?_
  rw [hbody, Expr.confined] at hconfined
  have hdone : d.Agrees (do
      editRequest r ({ · with projection := some e.elementType })
      return Meaning.query r) := (agrees_editRequest r _).bind fun _ => agrees_pure _
  have hsingle : ∀ x : Expr, x.confined d.reads d.fills = true → d.Agrees (do
      let n ← value visit x
      edit (·.pushGroup r n none)
      editRequest r ({ · with projection := some e.elementType })
      return Meaning.query r) := fun x hx =>
    (agrees_value hv hx).bind fun n => (agrees_edit _).bind fun _ => hdone
  split
  · next members =>
    rw [Expr.confined] at hconfined
    refine (agrees_forM _ fun key hkey => ?_).bind fun _ => hdone
    exact agrees_groupMember hv r (confined_of_mem_members hconfined hkey)
  · exact hsingle _ hconfined
  · exact hsingle _ hconfined
  · exact agrees_reject_bind

end Receiver

/-! ### Aggregates -/

lemma agrees_selector (e : Expr) (r : RequestId) {f : Expr} (hf : f.confined d.reads d.fills = true) :
    d.Agrees (selector visit e r f) := agrees_within r (agrees_body hv e r hf)

lemma agrees_restrictBy (e : Expr) (r : RequestId) {f : Option Expr}
    (hf : ∀ a ∈ f, a.confined d.reads d.fills = true) : d.Agrees (restrictBy visit e r f) := by
  cases f with
  | none => exact agrees_pure _
  | some f =>
    refine (agrees_within r (agrees_predicate hv e r (hf f rfl))).bind fun n => ?_
    exact agrees_restrict r n

lemma agrees_aggregated (e : Expr) (r : RequestId) {f : Option Expr}
    (hf : ∀ a ∈ f, a.confined d.reads d.fills = true) : d.Agrees (aggregated visit e r f) := by
  cases f with
  | some f => exact agrees_selector hv e r (hf f rfl)
  | none =>
    refine (agrees_request r).bind fun q => ?_
    split
    · exact agrees_pure _
    · exact agrees_reject e _

omit hv in
lemma agrees_selectAll (e : Expr) (r : RequestId) : d.Agrees (selectAll e r) := by
  refine (agrees_request r).bind fun q => ?_
  split
  · split
    · exact (agrees_add _).bind fun n => agrees_edit _
    · exact agrees_reject e _
  · exact agrees_pure _

lemma agrees_aggregateGrouping (e : Expr) (op : UnaryOp) {arg : Expr}
    (harg : arg.confined d.reads d.fills = true) {f : Option Expr}
    (hf : ∀ a ∈ f, a.confined d.reads d.fills = true) :
    d.Agrees (aggregateGrouping visit e op arg f) := by
  refine (agrees_rowValue hv harg).bind fun a => (agrees_active e).bind fun here => ?_
  refine agrees_graph.bind fun g => ?_
  dsimp only
  generalize (g.requestOver? here a).getD here = r
  split
  · exact (agrees_add _).map _
  · next p =>
    refine (agrees_within r (agrees_predicate hv e r (hf p rfl))).bind fun test => ?_
    refine (agrees_add _).bind fun one => (agrees_add _).bind fun null => ?_
    exact (agrees_add _).bind fun n => (agrees_add _).map _
  · next g _ => exact (agrees_selector hv e r (hf g rfl)).bind fun n => (agrees_add _).map _
  · exact agrees_reject e _

lemma agrees_aggregateInside (e : Expr) (op : UnaryOp) (r : RequestId) {f : Option Expr}
    (hf : ∀ a ∈ f, a.confined d.reads d.fills = true) :
    d.Agrees (aggregateInside visit e op r f) := by
  have hrest : ∀ operand : Option NodeId, d.Agrees (do
      let n ← add (.unary op operand)
      edit fun g => (g.clearItems r).pushItem r { node := n }
      editRequest r ({ · with projection := some e.type })
      leave r
      Meaning.value <$> add (.sub r)) := by
    intro operand
    refine (agrees_add _).bind fun n => (agrees_edit _).bind fun _ => ?_
    refine (agrees_editRequest r _).bind fun _ => (agrees_leave r).bind fun _ => ?_
    exact (agrees_add _).map _
  unfold aggregateInside
  split
  · refine (agrees_restrictBy hv e r hf).bind fun _ => ?_
    rw [pure_bind]
    exact hrest none
  · exact ((agrees_aggregated hv e r hf).map some).bind hrest

omit hv in
lemma agrees_selectCounted (e : Expr) (r : RequestId) : d.Agrees (selectCounted e r) := by
  have hlabels : ∀ f : Item × Nat → Item, d.Agrees (do
      if (← request r).items.isEmpty then selectAll e r
      else editRequest r fun q => { q with items := q.items.zipIdx.map f }) := by
    intro f
    refine (agrees_request r).bind fun q => ?_
    split
    · exact agrees_selectAll e r
    · exact agrees_editRequest r _
  refine (agrees_request r).bind fun q => ?_
  split
  · exact (agrees_forM _ fun key _ => (agrees_duplicate e key).bind fun n => agrees_edit _).bind
      fun _ => hlabels _
  · exact hlabels _

omit hv in
lemma agrees_derive (r : RequestId) : d.Agrees (derive r) := by
  refine (agrees_request r).bind fun q => (agrees_build _).bind fun outer => ?_
  refine (agrees_build _).bind fun a => (agrees_editRequest r _).bind fun _ => ?_
  refine (agrees_editRequest outer _).bind fun _ => (agrees_setActive outer).bind fun _ => ?_
  exact agrees_pure _

lemma agrees_aggregateDerived (e : Expr) (op : UnaryOp) (r : RequestId) {f : Option Expr}
    (hf : ∀ a ∈ f, a.confined d.reads d.fills = true) :
    d.Agrees (aggregateDerived visit e op r f) := by
  have hselect : ∀ (outer : RequestId) (operand : Option NodeId), d.Agrees (do
      let n ← add (.unary op operand)
      edit (·.pushItem outer { node := n })
      editRequest outer ({ · with projection := some e.type })
      return outer) := by
    intro outer operand
    refine (agrees_add _).bind fun n => (agrees_edit _).bind fun _ => ?_
    exact (agrees_editRequest outer _).bind fun _ => agrees_pure outer
  unfold aggregateDerived
  split
  · refine (agrees_restrictBy hv e r hf).bind fun _ => (agrees_selectCounted e r).bind fun _ => ?_
    exact (agrees_derive r).bind fun x => hselect x.1 none
  · refine (agrees_aggregated hv e r hf).bind fun n => (agrees_edit _).bind fun _ => ?_
    refine (agrees_derive r).bind fun x => ?_
    exact ((agrees_add _).map some).bind fun operand => hselect x.1 operand

section Receiver

variable {arg : Expr} (harg : arg.confined d.reads d.fills = true) {args : List Expr}
  (hargs : ∀ a ∈ args, a.confined d.reads d.fills = true)
include harg hargs

lemma agrees_aggregate (e : Expr) (op : UnaryOp) : d.Agrees (aggregate visit e op arg args) := by
  have hf : ∀ a ∈ args[1]?, a.confined d.reads d.fills = true := fun a ha =>
    confined_getElem? hargs ha
  unfold aggregate
  dsimp only
  split
  · exact agrees_aggregateGrouping hv e op harg hf
  · refine (agrees_receiver hv e harg).bind fun r => (agrees_request r).bind fun q => ?_
    split
    · exact (agrees_aggregateDerived hv e op r hf).map _
    · split
      · refine agrees_get_bind fun s m _ => ⟨rfl, ?_⟩
        refine (agrees_aggregateDerived hv e op r hf).bind fun outer => ?_
        split
        · exact (agrees_activate _).bind fun _ => (agrees_add _).map _
        · exact (agrees_add _).map _
      · exact agrees_aggregateInside hv e op r hf

lemma agrees_any (e : Expr) : d.Agrees (any visit e arg args) := by
  unfold any
  split
  · exact agrees_reject_bind
  · refine (agrees_receiver hv e harg).bind fun r => ?_
    refine (agrees_restrictBy hv e r fun a ha => confined_getElem? hargs ha).bind fun _ => ?_
    refine (agrees_selectAll e r).bind fun _ => (agrees_add _).bind fun sub => ?_
    refine (agrees_add _).bind fun found => (agrees_request r).bind fun q => ?_
    split
    · exact (agrees_leave r).bind fun _ => agrees_pure _
    · refine (agrees_build _).bind fun outer => (agrees_editRequest r _).bind fun _ => ?_
      refine (agrees_add _).bind fun yes => (agrees_add _).bind fun no => ?_
      refine (agrees_add _).bind fun answer => (agrees_edit _).bind fun _ => ?_
      refine (agrees_editRequest outer _).bind fun _ => (agrees_setActive outer).bind fun _ => ?_
      exact agrees_pure _

/-! ### Writes -/

omit harg hargs in
lemma agrees_assign (e : Expr) (r : RequestId) (target : AliasId) (bindings : List Binding)
    (hb : Expr.confinedBindings d.reads d.fills bindings = true) :
    d.Agrees (assign visit e r target bindings) := by
  induction bindings with
  | nil => exact agrees_pure _
  | cons b rest ih =>
    cases b with
    | list p es => exact agrees_reject e _
    | assign p v =>
      rw [Expr.confinedBindings, Bool.and_eq_true] at hb
      rw [assign]
      refine (agrees_ask _).bind fun stored => ?_
      have hstore : d.Agrees (do
          let column ← add (.column target stored.column)
          let n ← value visit v
          edit (·.pushAssignment r ⟨column, n⟩)
          assign visit e r target rest) :=
        (agrees_add _).bind fun column => (agrees_value hv hb.1).bind fun n =>
          (agrees_edit _).bind fun _ => ih hb.2
      split
      · exact agrees_reject_bind
      · exact agrees_reject_bind
      · exact hstore
      · exact hstore

omit hv harg hargs in
lemma agrees_markWrite (e : Expr) (r : RequestId) (kind : RequestKind) (target : Option AliasId) :
    d.Agrees (markWrite e r kind target) := (agrees_editRequest r _).bind fun _ => agrees_pure _

/-- The bindings of a write are confined. -/
lemma agrees_initializer_bind {α : Type} {e : Expr} {m : Method}
    {k : RequestId × String × List Binding → Compile α}
    (hk : ∀ x, Expr.confinedBindings d.reads d.fills x.2.2 = true → d.Agrees (k x)) :
    d.Agrees (initializer visit e m arg args >>= k) := by
  unfold initializer
  simp only [bind_assoc]
  refine (agrees_openReceiver hv harg e).bind fun r => agrees_argument_bind fun f hf => ?_
  have hconfined := confined_getElem? hargs hf
  refine agrees_enter_bind fun ps body hbody => ?_
  rw [hbody, Expr.confined] at hconfined
  split
  · next type bindings =>
    rw [Expr.confined] at hconfined
    rw [pure_bind]
    exact hk _ hconfined
  · exact agrees_reject_bind

lemma agrees_update (e : Expr) : d.Agrees (update visit e arg args) := by
  refine agrees_initializer_bind hv harg hargs fun ⟨r, type, bindings⟩ hb => ?_
  refine (agrees_request r).bind fun q => ?_
  split
  · exact (agrees_assign hv e r _ bindings hb).bind fun _ => agrees_markWrite e r _ _
  · exact agrees_reject e _

lemma agrees_insert (e : Expr) : d.Agrees (insert visit e arg args) := by
  refine agrees_initializer_bind hv harg hargs fun ⟨r, type, bindings⟩ hb => ?_
  refine (agrees_ask _).bind fun table => ?_
  refine agrees_get_bind fun s m h => ⟨by rw [h.catalog], ?_⟩
  refine (agrees_build _).bind fun target => ?_
  exact (agrees_assign hv e r target bindings hb).bind fun _ => agrees_markWrite e r _ _

omit hargs in
lemma agrees_delete (e : Expr) : d.Agrees (delete visit e arg) := by
  refine (agrees_openReceiver hv harg e).bind fun r => (agrees_request r).bind fun q => ?_
  exact agrees_markWrite e r _ _

end Receiver

end Visit

end EntityQuery.Compile
