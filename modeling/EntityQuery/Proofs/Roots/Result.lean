import EntityQuery.Proofs.Nesting.Result
import EntityQuery.Proofs.Projections.Result
import EntityQuery.Proofs.Roots.Cursor

/-!
The root of a statement.

* `points_visit`: an expression that stands for a request leaves it active. So the root of a statement
  is the outermost request around it: `Mapping.compile_root`.
* `Expr.asks`: sources, operators on rows, and aggregates and `Any` over sequences, also under loading
  hints. At the top they stand for requests: `asks_visit`.
* Where the whole expression stands for a value, the root is a request inside it:
  `contains_compiles_inner`.
-/

namespace EntityQuery

open Sql

namespace Compile

variable {r : RequestId}

/-! ### Values -/

lemma GivesValue.pointsTo {x : Compile Meaning} (h : GivesValue x) (s : CompileState) :
    Ensures x s fun m t => PointsTo s t m :=
  (h s).mono fun m t ⟨n, hm⟩ => by
    subst hm
    trivial

lemma Opens.pointsTo {x : Compile Meaning} (h : Opens x) (s : CompileState) :
    Ensures x s fun m t => PointsTo s t m :=
  (h s).mono fun m t ⟨r, hm, ht⟩ => by
    subst hm
    exact ht

/-- A path of members leads to a row or a value. -/
lemma ensures_follow_ne_query (e : Expr) (path : List PropertyRef) {m : Meaning}
    (hm : ∀ q, m ≠ .query q) (s : CompileState) :
    Ensures (follow e r m path) s fun m' _ => ∀ q, m' ≠ .query q := by
  induction path generalizing m s with
  | nil =>
    have hfollow : follow e r m [] = pure m := by cases m <;> rfl
    rw [hfollow]
    exact ensures_pure.2 hm
  | cons p path ih =>
    cases m with
    | row a =>
      rw [follow, ensures_bind, ensures_resolveStep]
      intro x g _
      refine ih (fun q => ?_) _
      cases x <;> simp [meaningOf]
    | value n => exact ensures_reject
    | query q => exact absurd rfl (hm q)

lemma ensures_resolveMember_ne_query (e : Expr) (a : AliasId) (p : PropertyRef) (s : CompileState) :
    Ensures (resolveMember e a p) s fun m _ => ∀ q, m ≠ .query q := by
  rw [resolveMember, ensures_bind, ensures_active]
  intro r _
  rw [ensures_get_bind]
  dsimp only
  rw [ensures_get_bind]
  split
  · exact ensures_reject
  · exact ensures_map.2 fun n t _ q => by simp
  · exact ensures_follow_ne_query e _ (by simp) s

lemma givesValue_aggregateGrouping (visit : Visit) (e : Expr) (op : UnaryOp) (arg : Expr)
    (f : Option Expr) : GivesValue (aggregateGrouping visit e op arg f) := by
  refine GivesValue.after fun a => GivesValue.after fun here => GivesValue.after fun g => ?_
  dsimp only
  split
  · exact givesValue_map
  · exact GivesValue.after fun test => GivesValue.after fun one => GivesValue.after fun null =>
      GivesValue.after fun n => givesValue_map
  · exact GivesValue.after fun n => givesValue_map
  · exact givesValue_reject

lemma givesValue_aggregateInside (visit : Visit) (e : Expr) (op : UnaryOp) (q : RequestId)
    (f : Option Expr) : GivesValue (aggregateInside visit e op q f) := by
  have hrest : ∀ operand, GivesValue (do
      let n ← add (.unary op operand)
      edit fun g => (g.clearItems q).pushItem q { node := n }
      editRequest q ({ · with projection := some e.type })
      leave q
      .value <$> add (.sub q)) := fun operand =>
    GivesValue.after fun n => GivesValue.after fun _ => GivesValue.after fun _ =>
      GivesValue.after fun _ => givesValue_map
  unfold aggregateInside
  split
  · refine GivesValue.after fun _ => ?_
    rw [pure_bind]
    exact hrest none
  · exact GivesValue.after hrest

/-! ### Aggregates and existence -/

/-- The request around a derived table is active. -/
lemma ensures_derive (inner : RequestId) (s : CompileState) :
    Ensures (derive inner) s fun x t => t.active = some x.1 := by
  rw [derive, ensures_bind, ensures_request, ensures_bind, ensures_build, ensures_bind, ensures_build,
    ensures_bind, ensures_editRequest, ensures_bind, ensures_editRequest, ensures_bind,
    ensures_setActive, ensures_pure]

lemma ensures_aggregateDerived (visit : Visit) (e : Expr) (op : UnaryOp) (q : RequestId)
    (f : Option Expr) (s : CompileState) :
    Ensures (aggregateDerived visit e op q f) s fun r t => t.active = some r := by
  have hselect : ∀ outer operand t, t.active = some outer → Ensures (do
      let n ← add (.unary op operand)
      edit (·.pushItem outer { node := n })
      editRequest outer ({ · with projection := some e.type })
      return outer) t fun r u => u.active = some r := by
    intro outer operand t ht
    rw [ensures_bind, ensures_add, ensures_bind, ensures_edit, ensures_bind, ensures_editRequest,
      ensures_pure]
    exact ht
  have hderive : ∀ t, Ensures (derive q) t fun x u => u.active = some x.1 := ensures_derive q
  unfold aggregateDerived
  split
  · refine ensures_after fun _ t => ensures_after fun _ u => ?_
    exact (hderive u).bind fun x w hw => hselect x.1 none w hw
  · refine ensures_after fun _ t => ensures_after fun _ u => ?_
    refine (hderive u).bind fun x w hw => ?_
    rw [ensures_bind, ensures_map, ensures_add]
    exact hselect x.1 _ _ hw

variable {visit : Visit}

lemma pointsTo_aggregate (e : Expr) (op : UnaryOp) (arg : Expr) (args : List Expr) (s : CompileState) :
    Ensures (aggregate visit e op arg args) s fun m t => PointsTo s t m := by
  unfold aggregate
  dsimp only
  split
  · exact (givesValue_aggregateGrouping visit e op arg _).pointsTo s
  · refine ensures_after fun r t => ensures_after fun q u => ?_
    split
    · exact ensures_map.2 (ensures_aggregateDerived visit e op r _ u)
    · split
      · rw [ensures_get_bind]
        refine ensures_after fun outer w => ?_
        split
        · exact ensures_after fun _ w' => ensures_map.2 fun _ _ _ => trivial
        · exact ensures_map.2 fun _ _ _ => trivial
      · exact ((givesValue_aggregateInside visit e op r _) u).mono fun m w ⟨n, hm⟩ => hm ▸ trivial

lemma pointsTo_any (e arg : Expr) (args : List Expr) (s : CompileState) :
    Ensures (any visit e arg args) s fun m t => PointsTo s t m := by
  unfold any
  split
  · exact ensures_reject_bind
  · refine ensures_after fun r t => ensures_after fun _ t => ensures_after fun _ t => ?_
    refine ensures_after fun sub t => ensures_after fun found t => ensures_after fun q t => ?_
    split
    · exact ensures_after fun _ t => ensures_pure.2 trivial
    · refine ensures_after fun outer t => ensures_after fun _ t => ensures_after fun yes t => ?_
      refine ensures_after fun no t => ensures_after fun answer t => ensures_after fun _ t => ?_
      refine ensures_after fun _ t => ?_
      rw [ensures_bind, ensures_setActive, ensures_pure]
      rfl

/-! ### Expressions -/

section Visit

variable (hv : Points visit)
include hv

lemma pointsTo_member (e target : Expr) (p : PropertyRef) (s : CompileState) :
    Ensures (member visit e target p) s fun m t => PointsTo s t m := by
  unfold member
  split
  · exact (givesValue_keyMember visit e _ p).pointsTo s
  · refine (hv target s).bind fun m t hm => ?_
    cases m with
    | row a =>
      obtain ⟨r, hs, ht⟩ := hm
      intro m u hrun
      have hne := ensures_resolveMember_ne_query e a p t m u hrun
      have hstay := stays_resolveMember e a p t ht m u hrun
      cases m with
      | value n => trivial
      | row b => exact ⟨r, hs, hstay⟩
      | query q => exact absurd rfl (hne q)
    | query q => exact ((givesValue_memberOfQuery e q p) t).mono fun m u ⟨n, hm⟩ => hm ▸ trivial
    | value n => exact ensures_reject

lemma pointsTo_operator (e arg : Expr) (rest : List Expr) (m : Method) (s : CompileState) :
    Ensures (operator visit e m arg (arg :: rest)) s fun x t => PointsTo s t x := by
  have hrows : m.onRows = true → Ensures (operator visit e m arg (arg :: rest)) s fun x t =>
      PointsTo s t x := fun hm => (opens_operator hv e arg _ hm).pointsTo s
  have hhint : Ensures (hint visit e m arg (arg :: rest)) s fun x t => PointsTo s t x :=
    ensures_hint_pass (hv arg s) (fun x t hints hx => by cases x <;> exact hx) e m
  cases m with
  | count => exact pointsTo_aggregate e .count arg _ s
  | sum => exact pointsTo_aggregate e .sum arg _ s
  | average => exact pointsTo_aggregate e .average arg _ s
  | min => exact pointsTo_aggregate e .min arg _ s
  | max => exact pointsTo_aggregate e .max arg _ s
  | any => exact pointsTo_any e arg _ s
  | contains => exact (givesValue_contains visit e arg _).pointsTo s
  | startsWith => exact (givesValue_like visit e false true arg _).pointsTo s
  | endsWith => exact (givesValue_like visit e true false arg _).pointsTo s
  | eagerLoad => exact hhint
  | lazyLoad => exact hhint
  | batchLazyLoad => exact hhint
  | dontLoad => exact hhint
  | useLeftJoin =>
    exact ensures_widening.2 ((hv arg { s with widen := true }).mono fun x t hx => by
      cases x <;> exact hx)
  | named name => exact ensures_reject
  | _ => exact hrows rfl

/-- One rule, given what the parts of an expression leave active. -/
lemma points_step : Points (step visit) := by
  intro e s
  cases e with
  | source entity => exact ensures_source_iff.2 fun table _ => rfl
  | const l => exact (givesValue_constant _ l).pointsTo s
  | param p => exact ensures_parameter_of _ p fun r a hr _ => ⟨r, hr, hr⟩
  | member target p => exact pointsTo_member hv _ target p s
  | key grouping => exact (givesValue_key visit _ grouping).pointsTo s
  | binary op l r => exact (givesValue_binary visit _ op l r).pointsTo s
  | unary op operand =>
    cases op with
    | not => exact (GivesValue.after fun _ => GivesValue.after fun _ => givesValue_map).pointsTo s
    | convert => exact hv operand s
    | negate => exact ensures_reject
  | cond test yes no => exact (givesValue_conditional visit test yes no).pointsTo s
  | call m args =>
    rw [step]
    unfold call
    split
    · exact ensures_reject
    · exact ensures_reject
    · exact pointsTo_operator hv _ _ _ _ s
  | lambda ps body => exact ensures_reject
  | new type members => exact ensures_reject
  | init type bindings => exact ensures_reject

end Visit

/-- **A request that an expression stands for is active after it.** The induction is on the depth. -/
theorem points_visit (fuel : Nat) : Points (Compile.visit [] fuel) := by
  induction fuel with
  | zero => exact fun e s => ensures_reject
  | succ fuel ih => exact points_step ih

end Compile

/-! ### Expressions that stand for requests -/

/-- Whether an expression is a source, an operator on rows, or an aggregate or `Any` in which every
operator works on a sequence. Loading hints and `UseLeftJoin` are what they are around. -/
def Expr.asks (c : Catalog) : Expr → Bool
  | .source _ => true
  | .call m (arg :: rest) => m.onRows || (m.takesRows && receives c (.call m (arg :: rest))) ||
      ((m.isLoadingHint || m == .useLeftJoin) && asks c arg)
  | _ => false

namespace Compile

variable {c : Catalog} {s : CompileState}

lemma Ready.widened {C : List RequestId} (hs : Ready c s C) (w : Bool) :
    Ready c { s with widen := w } C :=
  ⟨hs.opened, hs.closed, hs.active, hs.catalog, hs.paths⟩

section Top

variable {visit : Visit} (hb : Builds c visit) (hp : Points visit) {arg : Expr}
  (harg : arg.receives c = true) (hs : Ready c s []) (hnone : s.active = none)
include hb harg hs hnone

/-- At the top, the request that an operator works on has no other around it. -/
lemma ensures_receiver_top (hsequence : arg.isSequence c = true) (e : Expr) :
    Ensures (receiver visit e arg) s fun r t => (t.graph.request r).parent = none :=
  (ensures_receiver hb harg hsequence hs).mono fun _ _ ht => ht.parent.trans hnone

include hp in
/-- At the top there are no rows, so an aggregate is one over a sequence. -/
lemma ensures_aggregate_top (hreceiver : arg.isSequence c = true ∨ arg.type.isGrouping = true)
    (e : Expr) (op : UnaryOp) (args : List Expr) :
    Ensures (aggregate visit e op arg args) s fun m _ => ∃ r, m = .query r := by
  unfold aggregate
  dsimp only
  split
  · refine Ensures.bind ?_ fun a t ht => False.elim ht
    refine (hp arg s).bind fun m t hm => ?_
    cases m with
    | row a =>
      obtain ⟨r, hr, -⟩ := hm
      rw [hnone] at hr
      cases hr
    | value n => exact ensures_reject
    | query r => exact ensures_reject
  · next hgrouping =>
    have hsequence := hreceiver.resolve_right hgrouping
    refine (ensures_receiver_top hb harg hs hnone hsequence e).bind fun r t ht => ?_
    rw [ensures_bind, ensures_request, ht]
    exact ensures_map.2 fun r _ _ => ⟨r, rfl⟩

lemma ensures_any_top (hargs : ∀ a ∈ args, a.receives c = true)
    (hreceiver : arg.isSequence c = true ∨ arg.type.isGrouping = true) (e : Expr) :
    Ensures (any visit e arg args) s fun m _ => ∃ r, m = .query r := by
  have hf : ∀ a ∈ args[1]?, a.receives c = true := fun a ha => hargs a (List.mem_of_getElem? ha)
  unfold any
  split
  · exact ensures_reject_bind
  · next hgrouping =>
    have hsequence := hreceiver.resolve_right hgrouping
    refine (ensures_receiver hb harg hsequence hs).bind fun r t ht => ?_
    refine (Held.ensures_restrictBy hb hf ht e).bind fun _ u hu => ?_
    refine (hu.ensures_selectAll e).bind fun _ w hw => ?_
    refine hw.ensures_exists.bind fun sub x hx => hx.bind fun found y ⟨hy, _⟩ => ?_
    have hparent : (y.graph.request r).parent = none := hy.parent.trans hnone
    rw [ensures_bind, ensures_request, hparent]
    refine ensures_after fun outer t => ensures_after fun _ t => ensures_after fun yes t => ?_
    refine ensures_after fun no t => ensures_after fun answer t => ensures_after fun _ t => ?_
    refine ensures_after fun _ t => ensures_after fun _ t => ?_
    exact ensures_pure.2 ⟨outer, rfl⟩

include hp in
omit harg in
/-- An operator at the top that asks for rows or a summary. -/
lemma asks_operator {m : Method} {rest : List Expr}
    (hasks : ∀ s, arg.asks c = true → Ready c s [] → s.active = none →
      Ensures (visit arg) s fun m _ => ∃ r, m = .query r)
    (he : (Expr.call m (arg :: rest)).asks c = true) :
    Ensures (operator visit (.call m (arg :: rest)) m arg (arg :: rest)) s fun m _ =>
      ∃ r, m = .query r := by
  rw [Expr.asks, Bool.or_eq_true, Bool.or_eq_true, Bool.and_eq_true, Bool.and_eq_true] at he
  by_cases hrows : m.onRows = true
  · exact (opens_operator hp _ arg _ hrows s).mono fun m t ⟨r, hm, _⟩ => ⟨r, hm⟩
  rcases he with (hm | ⟨htakes, hreceives⟩) | ⟨hpass, harg'⟩
  · exact absurd hm hrows
  · rw [Expr.receives, Bool.and_eq_true] at hreceives
    obtain ⟨hreceiver, hall⟩ := hreceives
    have hargs : ∀ a ∈ arg :: rest, a.receives c = true := fun a ha => Expr.receives_of_mem hall ha
    have harg : arg.receives c = true := hargs arg List.mem_cons_self
    have hworks : arg.isSequence c = true ∨ arg.type.isGrouping = true := by
      have hreceiver : arg.isReceiver c m = true := by simpa using hreceiver
      simp only [Expr.isReceiver, htakes, Bool.not_true, Bool.false_or, Bool.or_eq_true,
        Bool.and_eq_true] at hreceiver
      exact hreceiver.imp_right And.right
    cases m with
    | count => exact ensures_aggregate_top hb hp harg hs hnone hworks _ .count _
    | sum => exact ensures_aggregate_top hb hp harg hs hnone hworks _ .sum _
    | average => exact ensures_aggregate_top hb hp harg hs hnone hworks _ .average _
    | min => exact ensures_aggregate_top hb hp harg hs hnone hworks _ .min _
    | max => exact ensures_aggregate_top hb hp harg hs hnone hworks _ .max _
    | any => exact ensures_any_top hb harg hs hnone hargs hworks _
    | _ => first | exact absurd rfl hrows | cases htakes
  · have hhint : Ensures (hint visit (.call m (arg :: rest)) m arg (arg :: rest)) s fun m _ =>
        ∃ r, m = .query r :=
      ensures_hint_pass (hasks s harg' hs hnone) (fun _ _ _ hx => hx) _ m
    cases m with
    | eagerLoad => exact hhint
    | lazyLoad => exact hhint
    | batchLazyLoad => exact hhint
    | dontLoad => exact hhint
    | useLeftJoin =>
      exact ensures_widening.2 (hasks { s with widen := true } harg' (hs.widened true) hnone)
    | _ => cases hpass

end Top

/-- **Expressions that ask for rows or a summary stand for requests at the top.** The induction is on
the depth. -/
theorem asks_visit (c : Catalog) (fuel : Nat) : ∀ e : Expr, e.asks c = true → ∀ s, Ready c s [] →
    s.active = none → Ensures (visit [] fuel e) s fun m _ => ∃ r, m = .query r := by
  induction fuel with
  | zero => exact fun e _ s _ _ => ensures_reject
  | succ fuel ih =>
    intro e he s hs hnone
    change Ensures (step (visit [] fuel) e) s _
    cases e with
    | source entity => exact ensures_source_iff.2 fun table _ => ⟨_, rfl⟩
    | call m args =>
      rw [step]
      unfold call
      split
      · exact ensures_reject
      · exact ensures_reject
      · next arg rest _ =>
        exact asks_operator (builds_visit c fuel) (points_visit fuel) hs hnone
          (fun s harg hs hnone => ih arg harg s hs hnone) he
    | _ => cases he

end Compile

/-! ### Statements -/

open Compile in
/-- **The root of a statement is the outermost request around the active one.** If the expression
stands for a request, it is this one, and an expression that asks for rows or a summary does. -/
theorem Mapping.compile_root (m : Mapping) {e : Expr} {statement : Statement}
    (h : (m.compile e).1 = .ok statement) :
    ∃ x r t, Runs (visit [] e.depth e) { mapping := m } x t ∧ t.active = some r ∧
      statement.root = t.graph.outermost r ∧ (∀ q, x = .query q → q = r) ∧
      (e.asks m.catalog = true → x = .query r) := by
  obtain ⟨u, hrun, -⟩ := Mapping.runs_of_compile h
  have hroot : Runs (do
      let _ ← visit [] e.depth e
      let r := (← graph).outermost (← active e)
      declareColumns e r
      return r) { mapping := m } statement.root u := by
    unfold root at hrun
    split at hrun
    · exact hrun
    · exact hrun
    · cases congrArg Prod.fst hrun
  obtain ⟨x, t, hx, hrest⟩ := runs_bind.1 hroot
  have hdeclared : Ensures (do
      let r := (← graph).outermost (← active e)
      declareColumns e r
      return r) t fun r _ => ∃ q, t.active = some q ∧ r = t.graph.outermost q := by
    rw [ensures_bind, ensures_graph, ensures_bind, ensures_active]
    exact fun q hq => ensures_after fun _ _ => ensures_pure.2 ⟨q, hq, rfl⟩
  obtain ⟨r, hactive, hr⟩ := hdeclared _ u hrest
  have hpoints := points_visit e.depth e _ x t hx
  have hquery : ∀ q, x = .query q → q = r := by
    rintro q rfl
    exact Option.some.inj (hpoints.symm.trans hactive)
  refine ⟨x, r, t, hx, hactive, hr, hquery, fun hasks => ?_⟩
  obtain ⟨q, hq⟩ := asks_visit m.catalog e.depth e hasks _ (.initial m) rfl x t hx
  rw [hq, hquery q hq]

namespace Totals

/-- How many orders there are. -/
def counted : Expr := .call .count [.source "Order"]

/-- Whether there are one or two orders. -/
def oneOrTwo : Expr := .call .contains [.const (.list [.int 1, .int 2]), counted]

end Totals

/-- The number of orders is asked for. -/
theorem compile_root_counted : Totals.counted.asks Totals.mapping.catalog = true ∧
    ∃ s r t, (Totals.mapping.compile Totals.counted).1 = .ok s ∧
      Runs (Compile.visit [] Totals.counted.depth Totals.counted) { mapping := Totals.mapping }
        (.query r) t ∧ s.root = t.graph.outermost r := by
  have hasks : Totals.counted.asks Totals.mapping.catalog = true := by decide +kernel
  have hok : (Totals.mapping.compile Totals.counted).1.toOption.isSome = true := by decide +kernel
  refine ⟨hasks, ?_⟩
  cases hcompile : (Totals.mapping.compile Totals.counted).1 with
  | error f =>
    rw [hcompile] at hok
    cases hok
  | ok s =>
    obtain ⟨x, r, t, hx, -, hroot, -, hquery⟩ := Totals.mapping.compile_root hcompile
    rw [hquery hasks] at hx
    exact ⟨s, r, t, rfl, hx, hroot⟩

/-- Whether a value is a number of rows. -/
def Sql.Node.counts : Node → Bool
  | .unary .count none => true
  | _ => false

/-- **`Contains` is ignored** where it is around a query in a list of values: the condition stands for a
value, and the statement selects the number itself. -/
theorem contains_compiles_inner : Totals.mapping.requests Totals.oneOrTwo = false ∧
    (Totals.mapping.compile Totals.oneOrTwo).1.toOption.any (fun s =>
      s.request.items.map (fun i => (s.graph.node i.node).counts) == [true]) = true := by
  decide +kernel

end EntityQuery
