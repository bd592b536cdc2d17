import EntityQuery.Compile.Statement
import EntityQuery.Proofs.Nesting.Summary
import EntityQuery.Proofs.Nesting.Totality
import EntityQuery.Proofs.Sql.Marks

/-!
Statements in which no request is nested in itself.

* `builds_visit`: whatever an expression stands for, the requests that were being built before it are
  held by nothing after it. The induction is on the depth of the expression, with one case for every
  form of expression and every operator.
* `acyclic_compile`: so no request of a compiled statement contains itself, the statement has a text
  in every dialect, and its values have copies.
* An operator over the rows of a grouping breaks this.
-/

namespace EntityQuery

open Sql Graph

namespace Compile

variable {c : Catalog} {s t : CompileState} {C D : List RequestId} {r : RequestId} {n : NodeId}
  {sequence : Bool}

/-! ### Loading hints -/

/-- A loading hint plays no part. -/
lemma Stands.hint {m : Meaning} (h : Stands c s C sequence t m) (hints : List LoadingHint) :
    Stands c s C sequence { t with hints } m := by
  cases m with
  | value n =>
    obtain ⟨D, hD⟩ := h
    have hback : back s { t with hints } = { back s t with hints } := by
      unfold back
      split <;> rfl
    refine ⟨D, ?_⟩
    rw [hback]
    exact ⟨hD.later, ⟨hD.ready.opened, hD.ready.closed, hD.ready.active, hD.ready.catalog,
      hD.ready.paths⟩, hD.subset, hD.inside, hD.settled⟩
  | row a =>
    obtain ⟨hactive, hD, hbase⟩ := h
    exact ⟨hactive, ⟨hD.later, ⟨hD.ready.opened, hD.ready.closed, hD.ready.active, hD.ready.catalog,
      hD.ready.paths⟩, hD.subset, hD.inside, hD.settled⟩, hbase⟩
  | query r => exact Opened.remember h rfl rfl rfl h.ready.paths

section Visit

variable {visit : Visit} (hv : Builds c visit) {arg : Expr} {args : List Expr}
  (harg : arg.receives c = true) (hs : Ready c s C)
include hv harg hs

lemma ensures_hint (e : Expr) (m : Method) :
    Ensures (hint visit e m arg args) s fun x t => Stands c s C (arg.isSequence c) t x := by
  refine (ensures_argument e args 1).bind fun f t ⟨_, ht⟩ => ?_
  rw [ht]
  split
  · next body _ _ =>
    refine (ensures_hintPath e body).bind fun path t ht => ?_
    rw [ht]
    split
    · exact ensures_reject
    · refine (hv arg harg s C hs).bind fun x t hx => ?_
      rw [ensures_bind, ensures_modify, ensures_pure]
      exact hx.hint _
  · exact ensures_reject

/-! ### Calls -/

variable (hargs : ∀ a ∈ args, a.receives c = true)
include hargs

lemma ensures_operator (e : Expr) {m : Method} (hreceiver : arg.isReceiver c m = true) :
    Ensures (operator visit e m arg args) s fun x t =>
      Stands c s C (!(m.isLoadingHint || m == .useLeftJoin) || arg.isSequence c) t x := by
  rw [Expr.isReceiver, Bool.or_eq_true, Bool.or_eq_true, Bool.and_eq_true] at hreceiver
  have hrows : m.takesRows = true → m.isAggregate = false → arg.isSequence c = true := by
    intro htakes haggregate
    rw [htakes, haggregate] at hreceiver
    simpa using hreceiver
  have haggregate : m.takesRows = true → arg.isSequence c = true ∨ arg.type.isGrouping = true := by
    intro htakes
    rw [htakes] at hreceiver
    simp only [Bool.not_true, Bool.false_eq_true, false_or] at hreceiver
    exact hreceiver.imp_right fun h => h.2
  match m with
  | .where => exact ensures_filter hv harg (hrows rfl rfl) hargs hs e
  | .first => exact ensures_first hv harg (hrows rfl rfl) hargs hs e
  | .skip => exact ensures_skip hv harg (hrows rfl rfl) hs e
  | .take => exact ensures_take hv harg (hrows rfl rfl) hs e
  | .distinct => exact ensures_distinct hv harg (hrows rfl rfl) hs e
  | .orderBy => exact ensures_order hv harg (hrows rfl rfl) hargs hs e true true
  | .orderByDescending => exact ensures_order hv harg (hrows rfl rfl) hargs hs e true false
  | .thenBy => exact ensures_order hv harg (hrows rfl rfl) hargs hs e false true
  | .thenByDescending => exact ensures_order hv harg (hrows rfl rfl) hargs hs e false false
  | .contains => exact ensures_contains hv harg hargs hs e
  | .startsWith => exact ensures_like hv harg hargs hs e false true
  | .endsWith => exact ensures_like hv harg hargs hs e true false
  | .select => exact ensures_select hv harg (hrows rfl rfl) hargs hs e false
  | .selectMany => exact ensures_select hv harg (hrows rfl rfl) hargs hs e true
  | .groupBy => exact ensures_groupBy hv harg (hrows rfl rfl) hargs hs e
  | .count => exact ensures_aggregate hv harg hargs hs (haggregate rfl) e .count
  | .sum => exact ensures_aggregate hv harg hargs hs (haggregate rfl) e .sum
  | .average => exact ensures_aggregate hv harg hargs hs (haggregate rfl) e .average
  | .min => exact ensures_aggregate hv harg hargs hs (haggregate rfl) e .min
  | .max => exact ensures_aggregate hv harg hargs hs (haggregate rfl) e .max
  | .any => exact ensures_any hv harg hargs hs (haggregate rfl) e
  | .insert => exact ensures_insert hv harg (hrows rfl rfl) hargs hs e
  | .update => exact ensures_update hv harg (hrows rfl rfl) hargs hs e
  | .delete => exact ensures_delete hv harg (hrows rfl rfl) hs e
  | .eagerLoad | .lazyLoad | .batchLazyLoad | .dontLoad => exact ensures_hint hv harg hs e _
  | .useLeftJoin => exact ensures_widening_stands (hv arg harg _ C (hs.widen true))
  | .named name => exact ensures_reject

end Visit

/-! ### Expressions -/

/-- One rule, given what the parts of an expression stand for. -/
lemma ensures_step {visit : Visit} (hv : Builds c visit) {e : Expr} (he : e.receives c = true)
    (hs : Ready c s C) :
    Ensures (step visit e) s fun m t => Stands c s C (e.isSequence c) t m := by
  cases e with
  | source entity => exact ensures_source hs entity
  | const l => exact ensures_constant hs _ l
  | param p => exact ensures_parameter hs _ p
  | member target p =>
    rw [Expr.receives] at he
    exact ensures_member hv he hs _ p
  | key grouping =>
    rw [Expr.receives] at he
    exact ensures_key hv he hs _
  | binary op l r =>
    rw [Expr.receives, Bool.and_eq_true] at he
    exact ensures_binary hv he.1 he.2 hs _ op
  | unary op operand =>
    rw [Expr.receives] at he
    exact ensures_unary hv he hs _ op
  | cond test yes no =>
    rw [Expr.receives, Bool.and_eq_true, Bool.and_eq_true] at he
    exact ensures_conditional hv he.1.1 he.1.2 he.2 hs
  | call m args =>
    rw [Expr.receives, Bool.and_eq_true] at he
    obtain ⟨hreceiver, hargs⟩ := he
    rw [step]
    unfold call
    split
    · exact ensures_reject
    · exact ensures_reject
    · next arg rest _ =>
      have hall : ∀ a ∈ arg :: rest, a.receives c = true := fun a ha => Expr.receives_of_mem hargs ha
      have harg : arg.isReceiver c m = true := by simpa using hreceiver
      rw [Expr.isSequence]
      exact ensures_operator hv (hall arg List.mem_cons_self) hs hall _ harg
  | lambda ps body => exact ensures_reject
  | new type members => exact ensures_reject
  | init type bindings => exact ensures_reject

/-- **Requests that are being built stay so.** The induction is on the depth. -/
theorem builds_visit (c : Catalog) (fuel : Nat) : Builds c (visit [] fuel) := by
  induction fuel with
  | zero => exact fun e _ s C _ => ensures_reject
  | succ fuel ih => exact fun e he s C hs => ensures_step ih he hs

/-! ### Columns of the result -/

lemma ensures_pushItem (ht : t.graph.Open C) (hr : r ∈ C) {i : Item} (hi : t.graph.Fit C i.node) :
    Ensures (edit (·.pushItem r i)) t fun _ u => Built C t.graph u.graph :=
  ensures_edit.2 (built_pushItem ht hr hi)

lemma ensures_selectColumns (ht : t.graph.Open C) (hr : r ∈ C) (a : AliasId) (newElement : Bool)
    (columns : List (PropertyRef × String)) :
    Ensures (selectColumns r a newElement columns) t fun _ u => Built C t.graph u.graph := by
  induction columns generalizing t newElement with
  | nil => exact ensures_pure.2 (.refl ht)
  | cons column columns ih =>
    rw [selectColumns, ensures_bind, ensures_add]
    have hadd : Built C t.graph (t.graph.add (.column a column.2)).2 :=
      .add ht (by simp [Node.children]) (by simp)
    have hfit := ht.fit_add (x := .column a column.2) (by simp [Node.children]) (by simp)
    refine (ensures_pushItem hadd.opened hr hfit).bind fun _ u hu => ?_
    exact (ih hu.opened false).mono fun _ w hw => (hadd.trans hu).trans hw

lemma ensures_selectRow (ht : t.graph.Open C) (hr : r ∈ C) (a : AliasId) :
    Ensures (selectRow r a) t fun _ u => Built C t.graph u.graph := by
  rw [selectRow, ensures_bind, ensures_graph]
  split
  · refine (ensures_shownColumns _).bind fun columns u hu => ?_
    rw [hu]
    exact ensures_selectColumns ht hr a true columns
  · exact ensures_pure.2 (.refl ht)

lemma ensures_selectGroups (ht : t.graph.Open C) (hr : r ∈ C) (e : Expr) (newElement : Bool)
    (keys : List (NodeId × Option PropertyRef)) :
    Ensures (selectGroups e r newElement keys) t fun _ u => Built C t.graph u.graph := by
  induction keys generalizing t newElement with
  | nil => exact ensures_pure.2 (.refl ht)
  | cons key keys ih =>
    rw [selectGroups, duplicate, bind_assoc, ensures_bind, ensures_build]
    rcases hrun : (Build.duplicate key.1).run t.graph with ⟨_ | m, k⟩
    · exact ensures_reject_bind
    · obtain ⟨hbuilt, hfit⟩ := built_duplicate ht hrun
      rw [pure_bind]
      refine (ensures_pushItem hbuilt.opened hr hfit).bind fun _ u hu => ?_
      exact (ih hu.opened false).mono fun _ w hw => (hbuilt.trans hu).trans hw

/-- The selected values of the result were clauses before, or are columns of a row. -/
lemma ensures_declareColumns (ht : t.graph.Open C) (hr : r ∈ C) (e : Expr) :
    Ensures (declareColumns e r) t fun _ u => Built C t.graph u.graph := by
  rw [declareColumns, ensures_bind, ensures_request]
  split
  · split
    · exact ensures_selectGroups ht hr e true _
    · split
      · exact ensures_selectRow ht hr _
      · exact ensures_pure.2 (.refl ht)
  · rw [ensures_bind, ensures_edit]
    refine ensures_forM (I := fun u : CompileState => Built C t.graph u.graph) _ (fun i hi u hu => ?_)
      (built_clearItems ht hr)
    have hfit : t.graph.Fit C i.node := ht.fit_of_clause (q := r) <|
      Request.mem_clauseNodes.2 (.inr (.inl ⟨i, hi, rfl⟩))
    have hpush : Ensures (edit (·.pushItem r i)) u fun _ w => Built C t.graph w.graph :=
      (ensures_pushItem hu.opened hr (hfit.later hu.extension ht.ordered)).mono fun _ w hw => hu.trans hw
    rw [expandItem, ensures_bind, ensures_graph]
    split
    · split
      · exact (ensures_selectRow hu.opened hr _).mono fun _ w hw => hu.trans hw
      · exact hpush
    · exact hpush
  · exact ensures_pure.2 (.refl ht)

/-! ### Statements -/

lemma Ready.initial (m : Mapping) : Ready m.catalog { mapping := m } [] :=
  ⟨.empty, by simp, by simp, rfl, fun _ _ => rfl⟩

lemma outermost_mem (hs : Ready c s C) (hr : r ∈ C) : s.graph.outermost r ∈ C := by
  unfold outermost enclosing?
  cases hq : s.graph.enclosingWithin (fun q => (s.graph.request q).parent.isNone)
      (s.graph.requests.size + 1) r with
  | none => exact hr
  | some q => exact enclosingWithin_mem hs hr hq

/-- Whatever the whole expression stands for, requests are being built after it. -/
lemma Stands.ready {m : Meaning} (h : Stands c s C sequence t m) (hs : s.active = none) :
    ∃ D, Ready c t D := by
  cases m with
  | value n =>
    obtain ⟨D, hD⟩ := h
    have hback : back s t = t := by rw [back, hs]; rfl
    rw [hback] at hD
    exact ⟨D, hD.ready⟩
  | row a =>
    have hsome := h.1
    rw [hs] at hsome
    cases hsome
  | query r => exact ⟨r :: C, Opened.ready h⟩

lemma ensures_root {m : Mapping} {e : Expr} (he : e.receives m.catalog = true) :
    Ensures (root [] e) { mapping := m } fun _ t => ∃ D, t.graph.Open D := by
  have hquery : Ensures (do
      let _ ← visit [] e.depth e
      let r := (← graph).outermost (← active e)
      declareColumns e r
      return r) { mapping := m } fun _ t => ∃ D, t.graph.Open D := by
    refine (builds_visit m.catalog e.depth e he _ [] (.initial m)).bind fun x t hx => ?_
    obtain ⟨D, hD⟩ := hx.ready rfl
    rw [ensures_bind, ensures_graph, ensures_bind, ensures_active]
    intro r hr
    refine (ensures_declareColumns hD.opened (outermost_mem hD (hD.active r hr)) e).bind fun _ u hu => ?_
    exact ensures_pure.2 ⟨D, hu.opened⟩
  unfold root
  split
  · exact hquery
  · exact hquery
  · exact ensures_reject

end Compile

/-- A statement is what is left of the root and the graph. -/
lemma Mapping.runs_of_compile {m : Mapping} {e : Expr} {statement : Statement}
    (h : (m.compile e).1 = .ok statement) :
    ∃ t, Runs (Compile.root [] e) { mapping := m } statement.root t ∧ t.graph = statement.graph := by
  rw [Mapping.compile, Mapping.compileWith] at h
  rcases hrun : (Compile.root [] e).run.run { mapping := m } with ⟨result, t⟩
  rw [hrun] at h
  cases result with
  | error f => cases h
  | ok r =>
    cases h
    exact ⟨t, hrun, rfl⟩

/-- **No request of a compiled statement contains itself**, if every operator works on a source, on the
result of another operator or on a mapped relation to many, aggregates also on a grouping. So the
statement has a text in every dialect, and all its values have copies. -/
theorem Mapping.acyclic_compile (m : Mapping) {e : Expr} (he : e.receives m.catalog = true)
    {statement : Statement} (hstatement : (m.compile e).1 = .ok statement) :
    statement.graph.Acyclic ∧ (∀ d, (statement.write? d).isSome = true) ∧
      ∀ swap n, ((Build.copy swap n).run statement.graph).1.isSome = true := by
  obtain ⟨t, hrun, hgraph⟩ := Mapping.runs_of_compile hstatement
  obtain ⟨D, hopen⟩ := Compile.ensures_root he _ t hrun
  rw [hgraph] at hopen
  refine ⟨hopen.acyclic, fun d => ?_, fun swap n => copy_isSome hopen.ordered hopen.acyclic swap n⟩
  obtain ⟨w, -, hw, -⟩ := lex_writeRequest? statement.graph hopen.ordered hopen.acyclic d statement.root
  rw [Statement.write?, hw]
  rfl

/-! ### Orders and their totals -/

namespace Totals

def mapping : Mapping where
  catalog := ⟨[⟨"Order", "orders", some "id", [⟨"id", "id", .scalar .int false none⟩,
    ⟨"total", "total", .scalar .int false none⟩]⟩]⟩

def someOrder : Param := ⟨⟨1⟩, "o", .entity "Order"⟩

/-- The orders, grouped by their totals. -/
def grouped : Expr :=
  .call .groupBy [.source "Order",
    .lambda [someOrder] (.member (.param someOrder) ⟨"Order", "total", .scalar .int false⟩)]

def group : Param := ⟨⟨2⟩, "g", .grouping (.scalar .int false) (.entity "Order")⟩

/-- What is selected for every group. -/
def selecting (m : Method) : Expr :=
  .call .select [grouped,
    .lambda [group] (.new "Total" [(⟨"Total", "a", .scalar .int false⟩, .call m [.param group])])]

end Totals

/-- An aggregate for every group. -/
theorem acyclic_compile_totals : (Totals.selecting .count).receives Totals.mapping.catalog = true ∧
    ∃ s, (Totals.mapping.compile (Totals.selecting .count)).1 = .ok s ∧ s.graph.Acyclic ∧
      (∀ d, (s.write? d).isSome = true) ∧
      ∀ swap n, ((Build.copy swap n).run s.graph).1.isSome = true := by
  have hreceives : (Totals.selecting .count).receives Totals.mapping.catalog = true := by decide +kernel
  have hok : (Totals.mapping.compile (Totals.selecting .count)).1.toOption.isSome = true := by
    decide +kernel
  refine ⟨hreceives, ?_⟩
  cases hcompile : (Totals.mapping.compile (Totals.selecting .count)).1 with
  | error f =>
    rw [hcompile] at hok
    cases hok
  | ok s => exact ⟨s, rfl, Totals.mapping.acyclic_compile hreceives hcompile⟩

/-- Whether a value is the sub-select of a request. -/
def Sql.Node.embeds (r : RequestId) : Node → Bool
  | .sub q => q == r
  | _ => false

lemma Sql.Node.eq_sub_of_embeds {x : Node} {r : RequestId} (h : x.embeds r = true) : x = .sub r := by
  cases x with
  | sub q => rw [eq_of_beq h]
  | _ => cases h

/-- The first row of a grouping is read from the grouped request itself: it comes to contain itself, and
the statement has no text. -/
theorem first_of_grouping_nests_itself :
    ∃ s, (Totals.mapping.compile (Totals.selecting .first)).1 = .ok s ∧
      s.graph.Nests s.root s.root ∧ ∀ d, s.write? d = none := by
  have hcheck : (Totals.mapping.compile (Totals.selecting .first)).1.toOption.any (fun s =>
      (s.request.items.any fun i => (s.graph.node i.node).embeds s.root) &&
        Dialect.all.all fun d => (s.write? d).isNone) = true := by decide +kernel
  cases hcompile : (Totals.mapping.compile (Totals.selecting .first)).1 with
  | error f =>
    rw [hcompile] at hcheck
    cases hcheck
  | ok s =>
    rw [hcompile] at hcheck
    obtain ⟨hitem, htext⟩ := (Bool.and_eq_true _ _).mp hcheck
    obtain ⟨i, hi, hsub⟩ := List.any_eq_true.1 hitem
    refine ⟨s, rfl, .inl ⟨i.node, Request.mem_clauseNodes.2 (.inr (.inl ⟨i, hi, rfl⟩)), i.node, .refl, ?_⟩,
      fun d => ?_⟩
    · exact Sql.Node.eq_sub_of_embeds hsub
    · have := List.all_eq_true.1 htext d (by cases d <;> simp [Dialect.all])
      simpa using this

end EntityQuery
