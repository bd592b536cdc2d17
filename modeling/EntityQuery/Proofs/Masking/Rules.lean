import EntityQuery.Compile.Chain
import EntityQuery.Proofs.Masking.Scope

/-!
The rules for values and for operators on rows do not look at the contents of constants.

* One lemma for each rule: if the rule for the parts is blind, so is the rule for the whole. The
  expression is masked on one side; the rule sees what a mask keeps, and the variants of constants.
* `rowCount` reads a constant, which `mask` therefore keeps.
-/

namespace EntityQuery.Compile

open Sql

/-! ### Sources and constants -/

lemma blind_source (entity : String) : Blind Eq (source entity) (source entity) := by
  refine blind_ask.seq fun table => .get_bind fun s t hs => ?_
  rw [hs.catalog]
  refine .get_bind fun s t hs => ?_
  rw [hs.active]
  have hrequest := Build.blind_addRequest t.active
  refine (blind_build hrequest hrequest).seq fun r => ?_
  refine (blind_build (Build.blind_addAlias _) (Build.blind_addAlias _)).seq fun a => ?_
  exact (blind_editRequest r _).seq fun _ => (blind_setActive r).seq fun _ => .pure rfl

lemma lookup_mask (fields : List (String × Value)) (name : String) :
    (fields.map fun f => (f.1, f.2.mask)).lookup name = (fields.lookup name).map Value.mask := by
  induction fields with
  | nil => rfl
  | cons f fields ih =>
    rw [List.map_cons, List.lookup_cons, List.lookup_cons, ih]
    split <;> rfl

lemma blind_addConst (v : Value) : Blind Eq (add (.const v)) (add (.const v.mask)) :=
  blind_add (by rw [Node.mask, Node.mask, Value.mask_mask])

lemma blind_constant (e e' : Expr) (l : Literal) :
    Blind Eq (constant e l) (constant e' l.mask) := by
  cases l with
  | value v => exact .map (blind_addConst v)
  | list vs => exact .reject rfl
  | entity name fields =>
    refine .get_bind fun s t hs => ?_
    rw [hs.catalog]
    cases t.mapping.catalog.idProperty name with
    | error err => exact .reject rfl
    | ok id =>
      dsimp only
      rw [lookup_mask]
      cases fields.lookup id.name with
      | some v => exact .map (blind_addConst v)
      | none => exact .reject rfl

lemma blind_parameter (e e' : Expr) (p : Param) :
    Blind Eq (parameter e p) (parameter e' p) := by
  refine (blind_active e e').seq fun r => blind_graph.bind fun g h hg => ?_
  rw [hg.aliasFor?]
  split
  · exact .pure rfl
  · exact .reject rfl

section Visit

variable {visit : Visit} (hv : BlindVisit visit)
include hv

/-! ### Grouping keys -/

lemma blind_groupingKeys (e e' grouping : Expr) :
    Blind Eq (groupingKeys visit e grouping) (groupingKeys visit e' grouping.mask) := by
  refine (blind_rowValue hv grouping).seq fun a => (blind_active e e').seq fun r => ?_
  refine blind_graph.bind fun g h hg => ?_
  rw [hg.requestOver?, hg.request]
  dsimp only
  split
  · exact .pure rfl
  · exact .reject rfl

lemma blind_key (e e' grouping : Expr) :
    Blind Eq (key visit e grouping) (key visit e' grouping.mask) := by
  refine (blind_groupingKeys hv e e' grouping).seq fun keys => ?_
  split
  · exact .map (blind_duplicate e e' _)
  · exact .reject rfl

lemma blind_keyMember (e e' grouping : Expr) (p : PropertyRef) :
    Blind Eq (keyMember visit e grouping p) (keyMember visit e' grouping.mask p) := by
  refine (blind_groupingKeys hv e e' grouping).seq fun keys => ?_
  split
  · exact .map (blind_duplicate e e' _)
  · rcases keys with _ | ⟨⟨n, q⟩, _ | ⟨k, keys⟩⟩
    · exact .reject rfl
    · refine blind_graph.bind fun g h hg => ?_
      rcases hg.node_eq_or_const n with hn | ⟨v, v', hn, hn'⟩
      · rw [hn]
        split
        · exact (blind_resolveMember e e' _ p).seq fun m => .map (blind_valueOf m)
        · exact .reject rfl
      · rw [hn, hn']
        exact .reject rfl
    · exact .reject rfl

/-! ### Members -/

omit hv in
lemma blind_memberOfQuery (e e' : Expr) (r : RequestId) (p : PropertyRef) :
    Blind Eq (memberOfQuery e r p) (memberOfQuery e' r p) := by
  refine (blind_rowOf e e' r).seq fun a => ?_
  refine (blind_within r (blind_resolveMember e e' a p)).seq fun m => ?_
  refine (blind_valueOf m).seq fun n => ?_
  refine (blind_edit fun g => by rw [Graph.clearItems_mask, Graph.pushItem_mask]).seq fun _ => ?_
  refine (blind_editRequest r _).seq fun _ => (blind_leave r).seq fun _ => ?_
  exact .map (blind_add rfl)

lemma blind_member (e e' target : Expr) (p : PropertyRef) :
    Blind Eq (member visit e target p) (member visit e' target.mask p) := by
  cases target with
  | key grouping => exact blind_keyMember hv e e' grouping p
  | _ =>
    refine (hv _).seq fun m => ?_
    cases m with
    | row a => exact blind_resolveMember e e' a p
    | query r => exact blind_memberOfQuery e e' r p
    | value n => exact .reject rfl

/-! ### Operators -/

lemma blind_binary (e e' : Expr) (op : BinaryOperator) (l r : Expr) :
    Blind Eq (binary visit e op l r) (binary visit e' op l.mask r.mask) := by
  unfold binary
  rw [Expr.type_mask, Expr.type_mask]
  split
  · exact .reject rfl
  · refine .get_bind fun s t hs => ?_
    rw [hs.widen]
    refine blind_widening _ ((blind_value hv l).seq fun left => (blind_value hv r).seq fun right => ?_)
    split
    · refine (blind_condition left).seq fun left => (blind_condition right).seq fun right => ?_
      exact .map (blind_add rfl)
    · exact .map (blind_add rfl)

lemma blind_unary (e e' : Expr) (op : UnaryOperator) (operand : Expr) :
    Blind Eq (unary visit e op operand) (unary visit e' op operand.mask) := by
  cases op with
  | not =>
    refine (blind_value hv operand).seq fun n => (blind_condition n).seq fun n => ?_
    exact .map (blind_add rfl)
  | convert => exact hv operand
  | negate => exact .reject rfl

lemma blind_conditional (test yes no : Expr) :
    Blind Eq (conditional visit test yes no) (conditional visit test.mask yes.mask no.mask) := by
  refine (blind_value hv test).seq fun t => (blind_condition t).seq fun t => ?_
  refine (blind_value hv yes).seq fun y => (blind_value hv no).seq fun n => ?_
  exact .map (blind_add rfl)

/-! ### Filters -/

omit hv in
lemma blind_restrict (r : RequestId) (n : NodeId) : Blind Eq (restrict r n) (restrict r n) := by
  refine (blind_request r).seq fun q => ?_
  split
  · exact blind_edit fun g => g.andHaving_mask r n
  · exact blind_edit fun g => g.andFilter_mask r n

lemma blind_predicate (e e' : Expr) (r : RequestId) (f : Expr) :
    Blind Eq (predicate visit e r f) (predicate visit e' r f.mask) := by
  refine (blind_enter e e' r f).bind ?_
  rintro body _ rfl
  exact (blind_value hv body).seq fun n => blind_condition n

lemma blind_openReceiver (e e' arg : Expr) :
    Blind Eq (openReceiver visit e arg) (openReceiver visit e' arg.mask) :=
  (blind_receiver hv e e' arg).seq fun r => (blind_setActive r).seq fun _ => .pure rfl

section Args

variable {args args' : List Expr} (hargs : args'[1]? = args[1]?.map Expr.mask)
include hargs

lemma blind_filter (e e' arg : Expr) :
    Blind Eq (filter visit e arg args) (filter visit e' arg.mask args') := by
  refine (blind_openReceiver hv e e' arg).seq fun r => (blind_argument e e' hargs).bind ?_
  rintro f _ rfl
  exact (blind_predicate hv e e' r f).seq fun n => (blind_restrict r n).seq fun _ => .pure rfl

lemma blind_first (e e' arg : Expr) :
    Blind Eq (first visit e arg args) (first visit e' arg.mask args') := by
  refine (blind_openReceiver hv e e' arg).seq fun r => ?_
  rw [hargs]
  cases args[1]? with
  | none => exact (blind_editRequest r _).seq fun _ => .pure rfl
  | some f =>
    refine (blind_predicate hv e e' r f).seq fun n => (blind_restrict r n).seq fun _ => ?_
    exact (blind_editRequest r _).seq fun _ => .pure rfl

/-! ### Orders -/

lemma blind_order (e e' : Expr) (restart ascending : Bool) (arg : Expr) :
    Blind Eq (order visit e restart ascending arg args)
      (order visit e' restart ascending arg.mask args') := by
  refine (blind_openReceiver hv e e' arg).seq fun r => ?_
  have hrest : Blind Eq
      (do let body ← enter e r (← argument e args 1)
          let n ← value visit body
          edit (·.pushOrder r n ascending)
          return Meaning.query r)
      (do let body ← enter e' r (← argument e' args' 1)
          let n ← value visit body
          edit (·.pushOrder r n ascending)
          return Meaning.query r) := by
    refine (blind_argument e e' hargs).bind ?_
    rintro f _ rfl
    refine (blind_enter e e' r f).bind ?_
    rintro body _ rfl
    refine (blind_value hv body).seq fun n => ?_
    exact (blind_edit fun g => g.pushOrder_mask r n ascending).seq fun _ => .pure rfl
  cases restart with
  | false => exact hrest
  | true => exact (blind_editRequest r _).seq fun _ => hrest

/-! ### Parts of texts, members of lists -/

lemma blind_like (e e' : Expr) (before after : Bool) (arg : Expr) :
    Blind Eq (like visit e before after arg args) (like visit e' before after arg.mask args') := by
  have hwildcard : Blind Eq wildcard wildcard := blind_add rfl
  refine (blind_value hv arg).seq fun subject => (blind_argument e e' hargs).bind ?_
  rintro f _ rfl
  refine (blind_value hv f).seq fun operand => ?_
  have hbefore : ∀ tail : NodeId, Blind Eq
      (do let pattern ← if before then concat (← wildcard) tail else pure tail
          Meaning.value <$> add (.binary .like subject pattern))
      (do let pattern ← if before then concat (← wildcard) tail else pure tail
          Meaning.value <$> add (.binary .like subject pattern)) := by
    intro tail
    cases before with
    | false => exact .map (blind_add rfl)
    | true => exact hwildcard.seq fun _ => (blind_add rfl).seq fun _ => .map (blind_add rfl)
  cases after with
  | false => exact hbefore operand
  | true => exact hwildcard.seq fun _ => (blind_add rfl).seq fun tail => hbefore tail

lemma blind_contains (e e' arg : Expr) :
    Blind Eq (contains visit e arg args) (contains visit e' arg.mask args') := by
  refine (blind_argument e e' hargs).bind ?_
  rintro item _ rfl
  rw [Expr.type_mask]
  split
  · exact blind_like hv hargs e e' true true arg
  · cases arg with
    | const l =>
      cases l with
      | list vs =>
        refine (blind_value hv item).seq fun operand => ?_
        have hvs : (vs.map Value.mask).filter (fun v => !v.isNull) =
            (vs.filter fun v => !v.isNull).map Value.mask := by
          rw [List.filter_map]
          congr 2
          funext v
          simp
        exact (Blind.mapM hvs blind_addConst).seq fun values => .map (blind_add rfl)
      | value v => exact .reject rfl
      | entity name fields => exact .reject rfl
    | _ => exact .reject rfl

end Args

/-! ### Paging -/

omit hv in
lemma rowCount_of_count? (e : Expr) {count : Expr} (h : count.count? = none) :
    rowCount e count = reject e .countNotConstant := by
  unfold rowCount
  split
  · cases h
  · rfl

omit hv in
/-- The number of rows is the one constant that is looked at. -/
lemma blind_rowCount (e e' : Expr) {m : Method} (hm : m.isPaging = true) (count : Expr) :
    Blind Eq (rowCount e count) (rowCount e' (count.maskSecond m)) := by
  rw [Expr.maskSecond, hm, Bool.true_and]
  cases hcount : count.count? with
  | some i =>
    rw [Option.isSome_some, if_pos rfl]
    unfold rowCount
    split
    · split
      · exact .reject rfl
      · exact .pure rfl
    · exact .reject rfl
  | none =>
    rw [Option.isSome_none, if_neg Bool.false_ne_true, rowCount_of_count? e hcount,
      rowCount_of_count? e' (Expr.count?_mask hcount)]
    exact .reject rfl

lemma blind_skip (e e' arg : Expr) {args args' : List Expr}
    (hargs : args'[1]? = args[1]?.map (Expr.maskSecond .skip)) :
    Blind Eq (skip visit e arg args) (skip visit e' arg.mask args') := by
  refine (blind_openReceiver hv e e' arg).seq fun r => (blind_argument e e' hargs).bind ?_
  rintro count _ rfl
  refine (blind_rowCount e e' rfl count).seq fun n => ?_
  exact (blind_editRequest r _).seq fun _ => .pure rfl

lemma blind_take (e e' arg : Expr) {args args' : List Expr}
    (hargs : args'[1]? = args[1]?.map (Expr.maskSecond .take)) :
    Blind Eq (take visit e arg args) (take visit e' arg.mask args') := by
  refine (blind_openReceiver hv e e' arg).seq fun r => (blind_argument e e' hargs).bind ?_
  rintro count _ rfl
  refine (blind_rowCount e e' rfl count).seq fun n => ?_
  exact (blind_editRequest r _).seq fun _ => .pure rfl

lemma blind_distinct (e e' arg : Expr) :
    Blind Eq (distinct visit e arg) (distinct visit e' arg.mask) := by
  refine (blind_openReceiver hv e e' arg).seq fun r => ?_
  exact (blind_editRequest r _).seq fun _ => .pure rfl

end Visit

end EntityQuery.Compile
