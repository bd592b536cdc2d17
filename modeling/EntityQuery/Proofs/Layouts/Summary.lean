import EntityQuery.Proofs.Layouts.Operators

/-!
Aggregates, `Any` and writes beside a request that is being put together.

* An aggregate and `Any` give a plain value, or a new request around the one that they work on.
* `fills_visit`: so every expression leaves the request alone, by induction on how deeply it is nested.
-/

namespace EntityQuery.Compile

open Sql Graph

variable {c : Catalog} {single : String → String → Bool} {A : Anchor} {k : Request} {r : RequestId}
  {visit : Visit} {arg : Expr} {args : List Expr}

/-! ### Selectors -/

section Selectors

variable (hv : Fills c single visit)
include hv

lemma filling_selector {f : Expr} (hf : f.Parted c single) (e : Expr) (r : RequestId) :
    Keeps (Filling c single A k) (selector visit e r f) := filling_within r (filling_body hv hf e r)

variable {f : Option Expr} (hf : ∀ x ∈ f, x.Parted c single)
include hf

/-- An aggregate over a grouping is a value of the grouped request. -/
lemma givesSimple_aggregateGrouping (harg : arg.Parted c single) (e : Expr) (op : UnaryOp) :
    GivesSimple c single A k (aggregateGrouping visit e op arg f) := by
  refine (filling_rowValue hv harg).andThen fun a => (keeps_active e).andThen fun here =>
    keeps_graph.andThen fun g => ?_
  generalize (g.requestOver? here a).getD here = r
  dsimp only
  split
  · exact givesSimple_add rfl
  · next p =>
    exact (filling_within r (filling_predicate hv (hf p rfl) e r)).andThen fun test =>
      (filling_add _).andThen fun one => (filling_add _).andThen fun null =>
        (filling_add _).andThen fun n => givesSimple_add rfl
  · next g _ =>
    exact (filling_selector hv (hf g rfl) e r).andThen fun n => givesSimple_add rfl
  · exact givesSimple_reject

lemma filling_aggregated (e : Expr) (r : RequestId) :
    Keeps (Filling c single A k) (aggregated visit e r f) := by
  cases f with
  | some g => exact filling_selector hv (hf g rfl) e r
  | none =>
    refine (keeps_request r).bind fun q => ?_
    split
    · exact keeps_pure
    · exact keeps_reject

variable (hr : r ≠ A.request)
include hr

lemma filling_restrictBy (e : Expr) : Keeps (Filling c single A k) (restrictBy visit e r f) := by
  cases f with
  | none => exact keeps_pure
  | some g =>
    exact (filling_within r (filling_predicate hv (hf g rfl) e r)).bind fun n => filling_restrict hr n

/-! ### Aggregates -/

lemma givesSimple_aggregateInside (e : Expr) (op : UnaryOp) :
    GivesSimple c single A k (aggregateInside visit e op r f) := by
  have hrest : ∀ operand, GivesSimple c single A k (do
      let n ← add (.unary op operand)
      edit fun g => (g.clearItems r).pushItem r { node := n }
      editRequest r ({ · with projection := some e.type })
      leave r
      Meaning.value <$> add (.sub r)) := by
    exact fun operand => (filling_add _).andThen fun n => (filling_selectOnly hr _).andThen fun _ =>
      (filling_other hr fun _ => by rfl).andThen fun _ => (filling_leave r).andThen fun _ =>
        givesSimple_add rfl
  unfold aggregateInside
  split
  · exact (filling_restrictBy hv hf hr e).andThen fun _ => keeps_pure.andThen hrest
  · exact ((filling_aggregated hv hf e r).map some).andThen hrest

/-- An aggregate over a derived table is the only value of a new request. -/
lemma filling_aggregateDerived (e : Expr) (op : UnaryOp) :
    Gives (Filling c single A k) (fun outer _ => outer ≠ A.request)
      (aggregateDerived visit e op r f) := by
  have hselect : ∀ outer operand, outer ≠ A.request →
      Gives (Filling c single A k) (fun q _ => q ≠ A.request) (do
        let n ← add (.unary op operand)
        edit (·.pushItem outer { node := n })
        editRequest outer ({ · with projection := some e.type })
        return outer) := fun outer operand houter =>
    (filling_add _).andThen fun n => (filling_pushItem houter _).andThen
      fun _ => (filling_other houter fun _ => by rfl).andThen fun _ => gives_pure fun _ _ => houter
  unfold aggregateDerived
  split
  · refine (filling_restrictBy hv hf hr e).andThen fun _ => (filling_selectCounted hr e).andThen fun _ =>
      (filling_derive hr).andThen fun x houter => hselect x.1 none houter
  · refine (filling_aggregated hv hf e r).andThen fun n => (filling_selectOnly hr _).andThen fun _ =>
      (filling_derive hr).andThen fun x houter => ((filling_add _).map some).andThen fun operand =>
        hselect x.1 operand houter

end Selectors

section Operators

variable (hv : Fills c single visit) (hargs : ∀ a ∈ args, a.Parted c single)
  (harg : arg.Parted c single)
include hv hargs harg

omit hv harg in
lemma parted_second (f : Expr) (hf : f ∈ args[1]?) : f.Parted c single :=
  hargs f (List.mem_of_getElem? (Option.mem_def.1 hf))

/-- An aggregate is a plain value, or a new request. -/
lemma beside_aggregate {e : Expr}
    (hreceiver : arg.isSequence c = true ∨ arg.type.isGrouping = true) (op : UnaryOp) :
    Gives (Filling c single A k) (Beside c single A e) (aggregate visit e op arg args) := by
  have hf := parted_second hargs
  unfold aggregate
  dsimp only
  split
  · exact (givesSimple_aggregateGrouping hv hf harg e op).beside e
  · next hgrouping =>
    have hsequence : arg.isSequence c = true := hreceiver.resolve_right hgrouping
    refine (filling_receiver hv harg hsequence e).andThen fun r hr => (keeps_request r).andThen fun q => ?_
    have hderived := filling_aggregateDerived (A := A) (k := k) hv hf hr e op
    split
    · refine GivesOther.beside (fun s hs => ensures_map.2 ((hderived s hs).mono ?_)) e
      exact fun outer t ht => ⟨ht.1, outer, rfl, ht.2⟩
    · split
      · refine gives_get_bind fun s₀ hs₀ => GivesSimple.beside (hderived.keeps.andThen fun outer => ?_) e
        split
        · exact (keeps_modify fun s hs => hs.activate hs₀.active).andThen fun _ => givesSimple_add rfl
        · exact givesSimple_add rfl
      · exact (givesSimple_aggregateInside hv hf hr e op).beside e

/-- Whether there are rows is a plain value, or a new request. -/
lemma beside_any {e : Expr} (hreceiver : arg.isSequence c = true ∨ arg.type.isGrouping = true) :
    Gives (Filling c single A k) (Beside c single A e) (any visit e arg args) := by
  have hf := parted_second hargs
  unfold any
  split
  · exact fun _ _ => ensures_reject_bind
  · next hgrouping =>
    have hsequence : arg.isSequence c = true := hreceiver.resolve_right hgrouping
    refine (filling_receiver hv harg hsequence e).bind fun r s hs hr => ?_
    refine (filling_restrictBy hv hf hr e s hs).bind fun _ t ht => ?_
    refine (filling_selectAll hr e t ht).bind fun _ u hu => ?_
    refine (filling_add (.sub r) u hu).bind fun sub w hw => ?_
    refine (plain_addNode rfl w hw).bind fun found x hplain => ?_
    obtain ⟨hx, hfound⟩ := hplain
    rw [ensures_bind, ensures_request]
    split
    · rw [ensures_bind, ensures_leave]
      split
      · exact ensures_pure.2 ⟨hx.activate rfl, fun _ => hfound⟩
      · exact ensures_pure.2 ⟨hx, fun _ => hfound⟩
    · rw [ensures_bind, ensures_build]
      have hnew := hx.anchored.ne_new
      have hrequest := hx.skirt (hx.anchored.skirts_addRequest none)
      have hrest : GivesOther c single A k (do
          editRequest r ({ · with parent := some ⟨x.graph.requests.size⟩ })
          let yes ← add (.const (.boolean true))
          let no ← add (.const (.boolean false))
          let answer ← add (.cond found yes no)
          edit (·.pushItem ⟨x.graph.requests.size⟩ { node := answer })
          editRequest ⟨x.graph.requests.size⟩ ({ · with projection := some .boolean })
          setActive ⟨x.graph.requests.size⟩
          return .query ⟨x.graph.requests.size⟩) :=
        (filling_other hr fun _ => by rfl).andThen fun _ => (filling_add _).andThen fun yes =>
          (filling_add _).andThen fun no => (filling_add _).andThen fun answer =>
            (filling_pushItem hnew _).andThen fun _ =>
              (filling_other hnew fun _ => by rfl).andThen fun _ => (filling_setActive _).andThen fun _ =>
                givesOther_query hnew
      exact hrest.beside e _ hrequest

/-! ### Writes -/

omit harg hargs in
lemma filling_assign (hr : r ≠ A.request) (e : Expr) (target : AliasId) (bindings : List Binding)
    (hbindings : ∀ p v, .assign p v ∈ bindings → v.Parted c single) :
    Keeps (Filling c single A k) (assign visit e r target bindings) := by
  induction bindings with
  | nil => exact keeps_pure
  | cons b bindings ih =>
    cases b with
    | list p es => exact keeps_reject
    | assign p v =>
      have hassign : ∀ column, Keeps (Filling c single A k) (do
          let column ← add (.column target column)
          let n ← value visit v
          edit (·.pushAssignment r ⟨column, n⟩)
          assign visit e r target bindings) := fun column =>
        (filling_add _).bind fun column => (filling_anyValue hv (hbindings p v List.mem_cons_self)).bind
          fun n => (filling_edit fun _ hg => hg.skirts_pushAssignment hr _).bind fun _ =>
            ih fun q w hq => hbindings q w (List.mem_cons_of_mem _ hq)
      refine (keeps_ask _).bind fun stored => ?_
      split
      · exact keeps_reject_bind
      · exact keeps_reject_bind
      · exact hassign _
      · exact hassign _

omit hv hargs harg in
lemma givesOther_markWrite (hr : r ≠ A.request) (e : Expr) (kind : RequestKind)
    (target : Option AliasId) : GivesOther c single A k (markWrite e r kind target) :=
  (filling_other hr fun _ => by rfl).andThen fun _ => givesOther_query hr

variable (hsequence : arg.isSequence c = true)
include hsequence

omit hargs in
lemma givesOther_delete (e : Expr) : GivesOther c single A k (delete visit e arg) :=
  givesOther_receiver hv harg hsequence fun r hr => (keeps_request r).andThen fun _ =>
    givesOther_markWrite hr e .delete _

/-- A write assigns values in another request. -/
lemma givesOther_initializer {e : Expr} {m : Method}
    {x : RequestId × String × List Binding → Compile Meaning}
    (hx : ∀ r type bindings, r ≠ A.request → (∀ p v, .assign p v ∈ bindings → v.Parted c single) →
      GivesOther c single A k (x (r, type, bindings))) :
    GivesOther c single A k (initializer visit e m arg args >>= x) := by
  rw [initializer, bind_assoc]
  refine givesOther_receiver hv harg hsequence fun r hr => ?_
  simp only [bind_assoc]
  refine gives_second hargs fun f hf => gives_body hf fun body hbody => ?_
  split
  · next type bindings =>
    rw [pure_bind]
    exact hx r type bindings hr fun p v hp => (hbody.init p v hp).2.2
  · exact fun _ _ => ensures_reject_bind

lemma givesOther_update (e : Expr) : GivesOther c single A k (update visit e arg args) :=
  givesOther_initializer hv hargs harg hsequence fun r type bindings hr hbindings => by
    refine (keeps_request r).andThen fun q => ?_
    split
    · exact (filling_assign hv hr e _ bindings hbindings).andThen fun _ =>
        givesOther_markWrite hr e .update _
    · exact givesOther_reject

lemma givesOther_insert (e : Expr) : GivesOther c single A k (insert visit e arg args) :=
  givesOther_initializer hv hargs harg hsequence fun r type bindings hr hbindings => by
    refine (keeps_ask _).andThen fun table => gives_get_bind fun s₀ _ s hs => ?_
    rw [ensures_bind, ensures_build]
    have halias := hs.skirt (hs.anchored.skirts_addAlias
      (.ofTable table type (s₀.mapping.catalog.idColumn type).toOption))
    exact ((filling_assign hv hr e _ bindings hbindings).andThen fun _ =>
      givesOther_markWrite hr e .insertSelect _) _ halias

end Operators

/-! ### Expressions -/

section Visit

variable (hsingle : ∀ p, single p.owner p.name = true → c.isNavigation p = false)
  (hv : Fills c single visit)
include hv

lemma beside_operator {m : Method} {rest : List Expr}
    (he : (Expr.call m (arg :: rest)).Parted c single) :
    Gives (Filling c single A k) (Beside c single A (.call m (arg :: rest)))
      (operator visit (.call m (arg :: rest)) m arg (arg :: rest)) := by
  obtain ⟨hreceiver, hargs⟩ := he.call
  have harg := hargs arg List.mem_cons_self
  rw [Expr.isReceiver, Bool.or_eq_true, Bool.or_eq_true, Bool.and_eq_true] at hreceiver
  have hrows : m.takesRows = true → m.isAggregate = false → arg.isSequence c = true := by
    intro htakes haggregate
    rw [htakes, haggregate] at hreceiver
    simpa using hreceiver
  have haggregate : m.takesRows = true → arg.isSequence c = true ∨ arg.type.isGrouping = true := by
    intro htakes
    rw [htakes] at hreceiver
    simp only [Bool.not_true, Bool.false_eq_true, false_or] at hreceiver
    exact hreceiver.imp_right fun h => h.2
  have hhint : m.isLoadingHint = true → Gives (Filling c single A k)
      (Beside c single A (.call m (arg :: rest))) (hint visit (.call m (arg :: rest)) m arg (arg :: rest)) := by
    intro hm s hs
    refine ensures_hint_pass ((hv A k arg harg s hs).mono fun x t h =>
      ⟨h.1, h.2.pass (by rw [hm, Bool.true_or])⟩) (fun x t hints h => ?_) _ m
    exact ⟨h.1.congr rfl h.1.active rfl rfl rfl, h.2.congr rfl⟩
  have hother : ∀ {x}, GivesOther c single A k x →
      Gives (Filling c single A k) (Beside c single A (.call m (arg :: rest))) x := fun h => h.beside _
  have hsimple : ∀ {x}, GivesSimple c single A k x →
      Gives (Filling c single A k) (Beside c single A (.call m (arg :: rest))) x := fun h => h.beside _
  cases m with
  | «where» => exact hother (givesOther_filter hv hargs harg (hrows rfl rfl) _)
  | first => exact hother (givesOther_first hv hargs harg (hrows rfl rfl) _)
  | skip => exact hother (givesOther_skip hv harg (hrows rfl rfl) _)
  | take => exact hother (givesOther_take hv harg (hrows rfl rfl) _)
  | distinct => exact hother (givesOther_distinct hv harg (hrows rfl rfl) _)
  | orderBy => exact hother (givesOther_order hv hargs harg (hrows rfl rfl) _ true true)
  | orderByDescending => exact hother (givesOther_order hv hargs harg (hrows rfl rfl) _ true false)
  | thenBy => exact hother (givesOther_order hv hargs harg (hrows rfl rfl) _ false true)
  | thenByDescending => exact hother (givesOther_order hv hargs harg (hrows rfl rfl) _ false false)
  | contains => exact hsimple (givesSimple_contains hv hargs harg _)
  | startsWith => exact hsimple (givesSimple_like hv hargs harg _ false true)
  | endsWith => exact hsimple (givesSimple_like hv hargs harg _ true false)
  | select => exact hother (givesOther_select hv hargs harg (hrows rfl rfl) _ false)
  | selectMany => exact hother (givesOther_select hv hargs harg (hrows rfl rfl) _ true)
  | groupBy => exact hother (givesOther_groupBy hv hargs harg (hrows rfl rfl) _)
  | count => exact beside_aggregate hv hargs harg (haggregate rfl) .count
  | sum => exact beside_aggregate hv hargs harg (haggregate rfl) .sum
  | average => exact beside_aggregate hv hargs harg (haggregate rfl) .average
  | min => exact beside_aggregate hv hargs harg (haggregate rfl) .min
  | max => exact beside_aggregate hv hargs harg (haggregate rfl) .max
  | any => exact beside_any hv hargs harg (haggregate rfl)
  | insert => exact hother (givesOther_insert hv hargs harg (hrows rfl rfl) _)
  | update => exact hother (givesOther_update hv hargs harg (hrows rfl rfl) _)
  | delete => exact hother (givesOther_delete hv harg (hrows rfl rfl) _)
  | eagerLoad => exact hhint rfl
  | lazyLoad => exact hhint rfl
  | batchLazyLoad => exact hhint rfl
  | dontLoad => exact hhint rfl
  | useLeftJoin =>
    change Gives _ _ (widening true (visit arg))
    refine fun s hs => ensures_widening.2 ((hv A k arg harg _ (hs.widen true)).mono fun x t h => ?_)
    exact ⟨h.1.widen s.widen, (h.2.pass rfl).congr rfl⟩
  | named name => exact gives_reject

include hsingle in
/-- **What one rule does beside a request** that is being put together. -/
theorem fills_step : Fills c single (step visit) := by
  intro A k e he
  cases e with
  | source entity => exact (givesOther_source entity).beside _
  | const l => exact (givesSimple_constant _ l).beside _
  | param p => exact beside_parameter _ p
  | member target p => exact beside_member hsingle hv he _
  | key grouping => exact beside_key hv he.key _
  | binary op l r => exact (givesSimple_binary hv he.binary.1 he.binary.2 _ op).beside _
  | unary op operand => exact beside_unary hv he.unary _ op
  | cond test yes no =>
    exact (givesSimple_conditional hv he.cond.1 he.cond.2.1 he.cond.2.2).beside _
  | call m args =>
    rcases args with _ | ⟨arg, rest⟩
    · cases m <;> exact gives_reject
    · have hoperator := beside_operator (A := A) (k := k) hv he
      cases m <;> first | exact gives_reject | exact hoperator
  | lambda ps body => exact gives_reject
  | new type members => exact gives_reject
  | init type bindings => exact gives_reject

omit hv in
/-- **Expressions leave every request alone that is being put together**, and single ones stand for plain
values. The induction is on how deeply they are nested. -/
theorem fills_visit
    (hsingle : ∀ p, single p.owner p.name = true → c.isNavigation p = false) (fuel : Nat) :
    Fills c single (Compile.visit [] fuel) := by
  induction fuel with
  | zero => exact fun A k e _ => gives_reject
  | succ fuel ih => exact fills_step hsingle ih

end Visit

end EntityQuery.Compile
