import EntityQuery.Compile.Shape
import EntityQuery.Compile.Summary
import EntityQuery.Compile.Write
import EntityQuery.Proofs.Masking.Rules

/-!
The rules for projections, groupings, aggregates and writes do not look at the contents of
constants.
-/

namespace EntityQuery.Compile

open Sql

section Visit

variable {visit : Visit} (hv : BlindVisit visit)
include hv

/-! ### Members of an object -/

omit hv in
lemma blind_selectMember (r : RequestId) (n : NodeId) (p : Option PropertyRef)
    (newElement : Bool) :
    Blind Eq (selectMember r n p newElement) (selectMember r n p newElement) :=
  blind_edit fun g => g.pushItem_mask r _

omit hv in
lemma blind_selectKeys (e e' : Expr) (r : RequestId) (newElement : Bool)
    (keys : List (NodeId × Option PropertyRef)) :
    Blind Eq (selectKeys e r newElement keys) (selectKeys e' r newElement keys) := by
  induction keys generalizing newElement with
  | nil => exact .pure rfl
  | cons key keys ih =>
    refine (blind_duplicate e e' _).seq fun n => ?_
    exact (blind_selectMember r n _ newElement).seq fun _ => ih false

lemma blind_projectKey (r : RequestId) (p : PropertyRef) (e grouping : Expr)
    (newElement : Bool) :
    Blind Eq (projectKey visit r p e grouping newElement)
      (projectKey visit r p e.mask grouping.mask newElement) := by
  refine (blind_groupingKeys hv e e.mask grouping).seq fun keys => ?_
  split
  · refine (blind_value hv e).seq fun n => (blind_setComputed p n).seq fun _ => ?_
    exact blind_selectMember r n _ newElement
  · exact blind_selectKeys e e.mask r true _

lemma blind_projectPath (r : RequestId) (p : PropertyRef) (e : Expr) (newElement : Bool) :
    Blind Eq (projectPath visit r p e newElement) (projectPath visit r p e.mask newElement) := by
  unfold projectPath
  rw [Expr.type_mask, Expr.memberPath?_mask]
  cases e.type.isCollection with
  | true => exact .reject_bind rfl
  | false =>
    refine (blind_value hv e).seq fun n => ?_
    cases e.memberPath? with
    | some path => exact (blind_setPath p path).seq fun _ => blind_selectMember r n _ newElement
    | none => exact (blind_setComputed p n).seq fun _ => blind_selectMember r n _ newElement

omit hv in
lemma blind_register (p : PropertyRef) (n : NodeId) :
    Blind Eq (modify fun s => { s with mapping := s.mapping.register s.graph p n })
      (modify fun s => { s with mapping := s.mapping.register s.graph p n }) := by
  refine .modify fun s t hs => { hs with mapping := ?_ }
  rw [← Mapping.register_mask, hs.mapping, hs.graph, Mapping.register_mask]

lemma blind_projectComputed (r : RequestId) (p : PropertyRef) (e : Expr) (newElement : Bool) :
    Blind Eq (projectComputed visit r p e newElement)
      (projectComputed visit r p e.mask newElement) := by
  refine (blind_value hv e).seq fun n => (blind_setComputed p n).seq fun _ => ?_
  exact (blind_selectMember r n _ newElement).seq fun _ => blind_register p n

end Visit

mutual
theorem blind_projectMember {visit : Visit} (hv : BlindVisit visit) (r : RequestId) (p : PropertyRef) (newElement : Bool) :
    ∀ e : Expr, Blind Eq (projectMember visit r p newElement e)
      (projectMember visit r p newElement e.mask)
  | .new _ members => by
    rw [Expr.mask, projectMember, projectMember]
    exact blind_projectMembers hv r true members
  | .key grouping => by
    rw [Expr.mask, projectMember, projectMember]
    exact blind_projectKey hv r p (.key grouping) grouping newElement
  | .member target q => blind_projectPath hv r p (.member target q) newElement
  | .param q => blind_projectPath hv r p (.param q) newElement
  | .lambda _ _ => .reject rfl
  | .init _ _ => .reject rfl
  | .source entity => blind_projectComputed hv r p (.source entity) newElement
  | .const l => blind_projectComputed hv r p (.const l) newElement
  | .binary op l r' => blind_projectComputed hv r p (.binary op l r') newElement
  | .unary op e => blind_projectComputed hv r p (.unary op e) newElement
  | .cond t y n => blind_projectComputed hv r p (.cond t y n) newElement
  | .call m args => blind_projectComputed hv r p (.call m args) newElement

theorem blind_projectMembers {visit : Visit} (hv : BlindVisit visit) (r : RequestId) (newElement : Bool) :
    ∀ members : List (PropertyRef × Expr), Blind Eq (projectMembers visit r newElement members)
      (projectMembers visit r newElement (Expr.maskMembers members))
  | [] => .pure rfl
  | (p, e) :: rest => by
    rw [Expr.maskMembers, projectMembers, projectMembers]
    exact (blind_projectMember hv r p newElement e).seq fun _ => blind_projectMembers hv r false rest
end

section Visit

variable {visit : Visit} (hv : BlindVisit visit)
include hv

lemma blind_projectBindings (whole whole' : Expr) (r : RequestId) (newElement : Bool)
    (bindings : List Binding) :
    Blind Eq (projectBindings visit whole r newElement bindings)
      (projectBindings visit whole' r newElement (Expr.maskBindings bindings)) := by
  induction bindings generalizing newElement with
  | nil => exact .pure rfl
  | cons b rest ih =>
    cases b with
    | assign p e => exact (blind_projectMember hv r p newElement e).seq fun _ => ih false
    | list p es => exact .reject rfl

/-! ### Projections -/

lemma blind_projectSingle (e e' : Expr) (flattens : Bool) (r : RequestId) (body : Expr) :
    Blind Eq (projectSingle visit e flattens r body)
      (projectSingle visit e' flattens r body.mask) := by
  unfold projectSingle
  rw [Expr.type_mask]
  dsimp only
  split
  · exact .reject_bind rfl
  · refine (blind_widening _ (hv body)).seq fun m => (blind_setActive r).seq fun _ => ?_
    refine (blind_valueOf m).seq fun n => ?_
    refine (blind_edit fun g => by rw [Graph.clearItems_mask, Graph.pushItem_mask]).seq fun _ => ?_
    exact .pure rfl

lemma blind_select (e e' : Expr) (flattens : Bool) (arg : Expr) {args args' : List Expr}
    (hargs : args'[1]? = args[1]?.map Expr.mask) :
    Blind Eq (select visit e flattens arg args) (select visit e' flattens arg.mask args') := by
  refine (blind_openReceiver hv e e' arg).seq fun r => (blind_argument e e' hargs).bind ?_
  rintro f _ rfl
  refine (blind_enter e e' r f).bind ?_
  rintro body _ rfl
  have hshape : ∀ shape : TypeRef, Blind Eq
      (do editRequest r ({ · with projection := some shape })
          return Meaning.query r)
      (do editRequest r ({ · with projection := some shape })
          return Meaning.query r) :=
    fun shape => (blind_editRequest r _).seq fun _ => .pure rfl
  have hclear : Blind Eq (edit (·.clearItems r)) (edit (·.clearItems r)) :=
    blind_edit fun g => g.clearItems_mask r
  cases body with
  | new type members =>
    refine hclear.seq fun _ => ?_
    refine (blind_widening true (blind_projectMembers hv r true members)).seq fun _ => ?_
    exact Blind.seq (.pure rfl) hshape
  | init type bindings =>
    refine hclear.seq fun _ => ?_
    refine (blind_widening true (blind_projectBindings hv e e' r true bindings)).seq fun _ => ?_
    exact Blind.seq (.pure rfl) hshape
  | member target p => exact (blind_projectSingle hv e e' flattens r _).seq hshape
  | param p => exact (blind_projectSingle hv e e' flattens r _).seq hshape
  | key grouping => exact (blind_projectSingle hv e e' flattens r _).seq hshape
  | _ => exact .reject_bind rfl

/-! ### Groupings -/

lemma blind_groupMember (r : RequestId) (member : PropertyRef × Expr) :
    Blind Eq (groupMember visit r member) (groupMember visit r (member.1, member.2.mask)) := by
  obtain ⟨p, e⟩ := member
  have hgroup : Blind Eq
      (do let n ← value visit e
          edit (·.pushGroup r n (some p)))
      (do let n ← value visit e.mask
          edit (·.pushGroup r n (some p))) :=
    (blind_value hv e).seq fun n => blind_edit fun g => g.pushGroup_mask r n _
  unfold groupMember
  dsimp only
  rw [Expr.memberPath?_mask]
  cases e.memberPath? with
  | some path => exact (blind_setPath p path).seq fun _ => hgroup
  | none => exact hgroup

lemma blind_groupBy (e arg : Expr) {args args' : List Expr}
    (hargs : args'[1]? = args[1]?.map Expr.mask) :
    Blind Eq (groupBy visit e arg args) (groupBy visit e.mask arg.mask args') := by
  refine (blind_openReceiver hv e e.mask arg).seq fun r => (blind_argument e e.mask hargs).bind ?_
  rintro f _ rfl
  refine (blind_enter e e.mask r f).bind ?_
  rintro body _ rfl
  have hshape : Blind Eq
      (do editRequest r ({ · with projection := some e.elementType })
          return Meaning.query r)
      (do editRequest r ({ · with projection := some e.mask.elementType })
          return Meaning.query r) := by
    rw [Expr.elementType, Expr.elementType, Expr.type_mask]
    exact (blind_editRequest r _).seq fun _ => .pure rfl
  have hpush : ∀ n : NodeId, Blind Eq (edit (·.pushGroup r n none)) (edit (·.pushGroup r n none)) :=
    fun n => blind_edit fun g => g.pushGroup_mask r n none
  cases body with
  | new type members =>
    exact (Blind.forM (Expr.maskMembers_eq members) fun m => blind_groupMember hv r m).seq
      fun _ => hshape
  | member target p =>
    exact (blind_value hv (.member target p)).seq fun n => (hpush n).seq fun _ => hshape
  | param p => exact (blind_value hv (.param p)).seq fun n => (hpush n).seq fun _ => hshape
  | _ => exact .reject_bind rfl

/-! ### Aggregates -/

/-- An optional lambda of an aggregate. -/
lemma blind_restrictBy (e e' : Expr) (r : RequestId) (f : Option Expr) :
    Blind Eq (restrictBy visit e r f) (restrictBy visit e' r (f.map Expr.mask)) := by
  cases f with
  | none => exact .pure rfl
  | some f => exact (blind_within r (blind_predicate hv e e' r f)).seq fun n => blind_restrict r n

lemma blind_selector (e e' : Expr) (r : RequestId) (f : Expr) :
    Blind Eq (selector visit e r f) (selector visit e' r f.mask) := by
  refine blind_within r ((blind_enter e e' r f).bind ?_)
  rintro body _ rfl
  exact blind_value hv body

lemma blind_aggregated (e e' : Expr) (r : RequestId) (f : Option Expr) :
    Blind Eq (aggregated visit e r f) (aggregated visit e' r (f.map Expr.mask)) := by
  cases f with
  | some f => exact blind_selector hv e e' r f
  | none =>
    refine (blind_request r).seq fun q => ?_
    split
    · exact .pure rfl
    · exact .reject rfl

omit hv in
lemma blind_selectAll (e e' : Expr) (r : RequestId) :
    Blind Eq (selectAll e r) (selectAll e' r) := by
  refine (blind_request r).seq fun q => ?_
  split
  · split
    · exact (blind_add rfl).seq fun n => blind_edit fun g => g.pushItem_mask r _
    · exact .reject rfl
  · exact .pure rfl

lemma blind_aggregateGrouping (e e' : Expr) (op : UnaryOp) (arg : Expr) (f : Option Expr) :
    Blind Eq (aggregateGrouping visit e op arg f)
      (aggregateGrouping visit e' op arg.mask (f.map Expr.mask)) := by
  refine (blind_rowValue hv arg).seq fun a => (blind_active e e').seq fun here => ?_
  refine blind_graph.bind fun g h hg => ?_
  rw [hg.requestOver?]
  have hselected : ∀ (r : RequestId) (s : Expr), Blind Eq
      (do let n ← selector visit e r s
          Meaning.value <$> add (.unary op (some n)))
      (do let n ← selector visit e' r s.mask
          Meaning.value <$> add (.unary op (some n))) :=
    fun r s => (blind_selector hv e e' r s).seq fun n => .map (blind_add rfl)
  cases f with
  | none =>
    cases op with
    | count => exact .map (blind_add rfl)
    | _ => exact .reject rfl
  | some f =>
    cases op with
    | count =>
      refine (blind_within _ (blind_predicate hv e e' _ f)).seq fun test => ?_
      refine (blind_add rfl).seq fun one => (blind_add rfl).seq fun null => ?_
      exact (blind_add rfl).seq fun n => .map (blind_add rfl)
    | _ => exact hselected _ f

lemma blind_aggregateInside (e : Expr) (op : UnaryOp) (r : RequestId) (f : Option Expr) :
    Blind Eq (aggregateInside visit e op r f)
      (aggregateInside visit e.mask op r (f.map Expr.mask)) := by
  have hrest : ∀ operand : Option NodeId, Blind Eq
      (do let n ← add (.unary op operand)
          edit fun g => (g.clearItems r).pushItem r { node := n }
          editRequest r ({ · with projection := some e.type })
          leave r
          Meaning.value <$> add (.sub r))
      (do let n ← add (.unary op operand)
          edit fun g => (g.clearItems r).pushItem r { node := n }
          editRequest r ({ · with projection := some e.mask.type })
          leave r
          Meaning.value <$> add (.sub r)) := by
    intro operand
    rw [Expr.type_mask]
    refine (blind_add rfl).seq fun n => ?_
    refine (blind_edit fun g => by rw [Graph.clearItems_mask, Graph.pushItem_mask]).seq fun _ => ?_
    refine (blind_editRequest r _).seq fun _ => (blind_leave r).seq fun _ => ?_
    exact .map (blind_add rfl)
  unfold aggregateInside
  split
  · exact (blind_restrictBy hv e e.mask r f).seq fun _ => Blind.seq (.pure rfl) hrest
  · exact (Blind.map (blind_aggregated hv e e.mask r f)).seq hrest

omit hv in
lemma blind_selectCounted (e e' : Expr) (r : RequestId) :
    Blind Eq (selectCounted e r) (selectCounted e' r) := by
  have hlabels : ∀ f : Item × Nat → Item, Blind Eq
      (do if (← request r).items.isEmpty then selectAll e r
          else editRequest r fun q => { q with items := q.items.zipIdx.map f })
      (do if (← request r).items.isEmpty then selectAll e' r
          else editRequest r fun q => { q with items := q.items.zipIdx.map f }) := by
    intro f
    refine (blind_request r).seq fun q => ?_
    split
    · exact blind_selectAll e e' r
    · exact blind_editRequest r _
  refine (blind_request r).seq fun q => ?_
  split
  · refine Blind.seq (.forM (by simp : q.groups = q.groups.map id) fun key => ?_) fun _ => hlabels _
    exact (blind_duplicate e e' key).seq fun n => blind_edit fun g => g.pushItem_mask r _
  · exact hlabels _

omit hv in
lemma blind_derive (inner : RequestId) : Blind Eq (derive inner) (derive inner) := by
  refine (blind_request inner).seq fun q => ?_
  have hrequest := Build.blind_addRequest q.parent
  refine (blind_build hrequest hrequest).seq fun outer => ?_
  have halias := Build.blind_addAlias (.derived inner)
  refine (blind_build halias halias).seq fun a => ?_
  refine (blind_editRequest inner _).seq fun _ => (blind_editRequest outer _).seq fun _ => ?_
  exact (blind_setActive outer).seq fun _ => .pure rfl

lemma blind_aggregateDerived (e : Expr) (op : UnaryOp) (r : RequestId) (f : Option Expr) :
    Blind Eq (aggregateDerived visit e op r f)
      (aggregateDerived visit e.mask op r (f.map Expr.mask)) := by
  have hshow : ∀ (outer : RequestId) (operand : Option NodeId), Blind Eq
      (do let n ← add (.unary op operand)
          edit (·.pushItem outer { node := n })
          editRequest outer ({ · with projection := some e.type })
          return outer)
      (do let n ← add (.unary op operand)
          edit (·.pushItem outer { node := n })
          editRequest outer ({ · with projection := some e.type })
          return outer) := by
    intro outer operand
    refine (blind_add rfl).seq fun n => ?_
    refine (blind_edit fun g => g.pushItem_mask outer _).seq fun _ => ?_
    exact (blind_editRequest outer _).seq fun _ => .pure rfl
  unfold aggregateDerived
  rw [Expr.type_mask]
  by_cases hop : op = .count
  · simp only [if_pos hop]
    refine (blind_restrictBy hv e e.mask r f).seq fun _ => ?_
    refine (blind_selectCounted e e.mask r).seq fun _ => ?_
    exact (blind_derive r).seq fun (outer, a) => Blind.seq (.pure rfl) (hshow outer)
  · simp only [if_neg hop]
    refine (blind_aggregated hv e e.mask r f).seq fun n => ?_
    refine (blind_edit fun g => by rw [Graph.clearItems_mask, Graph.pushItem_mask]).seq fun _ => ?_
    exact (blind_derive r).seq fun (outer, a) => (Blind.map (blind_add rfl)).seq (hshow outer)

lemma blind_aggregate (e : Expr) (op : UnaryOp) (arg : Expr) {args args' : List Expr}
    (hargs : args'[1]? = args[1]?.map Expr.mask) :
    Blind Eq (aggregate visit e op arg args) (aggregate visit e.mask op arg.mask args') := by
  unfold aggregate
  rw [Expr.type_mask, hargs]
  dsimp only
  split
  · exact blind_aggregateGrouping hv e e.mask op arg _
  · refine (blind_receiver hv e e.mask arg).seq fun r => (blind_request r).seq fun q => ?_
    split
    · exact .map (blind_aggregateDerived hv e op r _)
    · split
      · refine .get_bind fun s t hs => (blind_aggregateDerived hv e op r _).seq fun outer => ?_
        rw [hs.active]
        split
        · refine Blind.seq (.modify fun _ _ h => { h with active := rfl }) fun _ => ?_
          exact .map (blind_add rfl)
        · exact .map (blind_add rfl)
      · exact blind_aggregateInside hv e op r _

/-! ### Existence -/

lemma blind_any (e e' arg : Expr) {args args' : List Expr}
    (hargs : args'[1]? = args[1]?.map Expr.mask) :
    Blind Eq (any visit e arg args) (any visit e' arg.mask args') := by
  unfold any
  rw [Expr.type_mask, hargs]
  split
  · exact .reject_bind rfl
  · refine (blind_receiver hv e e' arg).seq fun r => ?_
    refine (blind_restrictBy hv e e' r _).seq fun _ => (blind_selectAll e e' r).seq fun _ => ?_
    refine (blind_add rfl).seq fun sub => (blind_add rfl).seq fun found => ?_
    refine (blind_request r).seq fun q => ?_
    split
    · exact (blind_leave r).seq fun _ => .pure rfl
    · have hrequest := Build.blind_addRequest none
      refine (blind_build hrequest hrequest).seq fun outer => ?_
      refine (blind_editRequest r _).seq fun _ => ?_
      refine (blind_add rfl).seq fun yes => (blind_add rfl).seq fun no => ?_
      refine (blind_add rfl).seq fun answer => ?_
      refine (blind_edit fun g => g.pushItem_mask outer _).seq fun _ => ?_
      refine (blind_editRequest outer _).seq fun _ => ?_
      exact (blind_setActive outer).seq fun _ => .pure rfl

/-! ### Writes -/

lemma blind_assign (e e' : Expr) (r : RequestId) (target : AliasId) (bindings : List Binding) :
    Blind Eq (assign visit e r target bindings)
      (assign visit e' r target (Expr.maskBindings bindings)) := by
  induction bindings with
  | nil => exact .pure rfl
  | cons b rest ih =>
    cases b with
    | list p es => exact .reject rfl
    | assign p v =>
      refine blind_ask.seq fun stored => ?_
      have hassign : Blind Eq
          (do let column ← add (.column target stored.column)
              let n ← value visit v
              edit (·.pushAssignment r ⟨column, n⟩)
              assign visit e r target rest)
          (do let column ← add (.column target stored.column)
              let n ← value visit v.mask
              edit (·.pushAssignment r ⟨column, n⟩)
              assign visit e' r target (Expr.maskBindings rest)) := by
        refine (blind_add rfl).seq fun column => (blind_value hv v).seq fun n => ?_
        exact (blind_edit fun g => g.pushAssignment_mask r _).seq fun _ => ih
      cases stored.kind with
      | collection target => exact .reject_bind rfl
      | manyToMany target link oc tc => exact .reject_bind rfl
      | scalar t nullable n => exact hassign
      | reference target => exact hassign

omit hv in
lemma blind_markWrite (e : Expr) (r : RequestId) (kind : RequestKind) (target : Option AliasId) :
    Blind Eq (markWrite e r kind target) (markWrite e.mask r kind target) := by
  unfold markWrite
  rw [Expr.type_mask]
  exact (blind_editRequest r _).seq fun _ => .pure rfl

section Args

variable {args args' : List Expr} (hargs : args'[1]? = args[1]?.map Expr.mask)
include hargs

lemma blind_initializer (e e' : Expr) (m : Method) (arg : Expr) :
    Blind (fun x x' => x' = (x.1, x.2.1, Expr.maskBindings x.2.2))
      (initializer visit e m arg args) (initializer visit e' m arg.mask args') := by
  refine (blind_openReceiver hv e e' arg).seq fun r => (blind_argument e e' hargs).bind ?_
  rintro f _ rfl
  refine (blind_enter e e' r f).bind ?_
  rintro body _ rfl
  cases body with
  | init type bindings => exact .pure rfl
  | _ => exact .reject rfl

lemma blind_update (e arg : Expr) :
    Blind Eq (update visit e arg args) (update visit e.mask arg.mask args') := by
  refine (blind_initializer hv hargs e e.mask .update arg).bind ?_
  rintro ⟨r, type, bindings⟩ _ rfl
  refine (blind_request r).seq fun q => ?_
  split
  · refine (blind_assign hv e e.mask r _ bindings).seq fun _ => ?_
    exact blind_markWrite e r .update _
  · exact .reject rfl

lemma blind_insert (e arg : Expr) :
    Blind Eq (insert visit e arg args) (insert visit e.mask arg.mask args') := by
  refine (blind_initializer hv hargs e e.mask .insert arg).bind ?_
  rintro ⟨r, type, bindings⟩ _ rfl
  refine blind_ask.seq fun table => .get_bind fun s t hs => ?_
  rw [hs.catalog]
  refine (blind_build (Build.blind_addAlias _) (Build.blind_addAlias _)).seq fun target => ?_
  refine (blind_assign hv e e.mask r target bindings).seq fun _ => ?_
  exact blind_markWrite e r .insertSelect _

end Args

lemma blind_delete (e arg : Expr) :
    Blind Eq (delete visit e arg) (delete visit e.mask arg.mask) := by
  refine (blind_openReceiver hv e e.mask arg).seq fun r => (blind_request r).seq fun q => ?_
  exact blind_markWrite e r .delete q.base

end Visit

end EntityQuery.Compile
