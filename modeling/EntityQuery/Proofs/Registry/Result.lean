import EntityQuery.Compile.Statement
import EntityQuery.Proofs.Registry.Rules

/-!
Queries compiled one after another over one mapping.

* `agrees_visit`: confined expressions have one outcome over mappings that cannot be told apart. The
  induction is on the depth.
* `untouched_after`: queries that give no computed value to a mapped property leave the mapping
  untouched, whatever else they do and whether they have a statement or not.
* `compile_after`: after such queries, mapped properties are what the catalog says, and a query that
  reads nothing else has the statement it has before all of them.
* A query that gives a computed value to a mapped property changes what the queries after it mean.
-/

namespace EntityQuery

open Sql Discipline

namespace Compile

variable {d : Discipline}

/-! ### Calls -/

lemma agrees_hintPath (e : Expr) : ∀ e', d.Agrees (hintPath e e')
  | .member target _ => (agrees_hintPath e target).bind fun _ => agrees_pure _
  | .call m args => by
    by_cases hm : m = .first
    · subst hm
      rcases args with _ | ⟨arg, _ | ⟨arg', rest⟩⟩
      · exact agrees_reject e _
      · exact agrees_hintPath e arg
      · exact agrees_reject e _
    · have hreject : hintPath e (.call m args) = reject e (.notAPath (Expr.call m args).text) := by
        cases m <;> first | rfl | exact absurd rfl hm
      rw [hreject]
      exact agrees_reject e _
  | .param _ => agrees_pure _
  | .source _ | .const _ | .key _ | .binary _ _ _ | .unary _ _ | .cond _ _ _ | .lambda _ _ | .new _ _
  | .init _ _ => agrees_reject e _

section Visit

variable {visit : Visit} (hv : AgreesVisit d visit) {arg : Expr}
  (harg : arg.confined d.reads d.fills = true) {args : List Expr}
include hv harg

lemma agrees_hint (e : Expr) (m : Method) : d.Agrees (hint visit e m arg args) := by
  have hhints : ∀ path, d.Agrees (modify fun s : CompileState =>
      { s with hints := s.hints ++ [⟨.ofMethod m, path⟩] }) := fun path =>
    agrees_modify (fun _ _ => rfl) (fun _ => rfl) fun _ => rfl
  refine agrees_argument_bind fun f hf => ?_
  split
  · refine (agrees_hintPath e _).bind fun path => ?_
    split
    · exact agrees_reject e _
    · exact (hv arg harg).bind fun result => (hhints path).bind fun _ => agrees_pure result
  · exact agrees_reject e _

variable (hargs : ∀ a ∈ args, a.confined d.reads d.fills = true)
include hargs

lemma agrees_operator (e : Expr) {m : Method}
    (hfills : m.isProjection = true → args[1]?.all (Expr.fillsObject d.fills) = true) :
    d.Agrees (operator visit e m arg args) := by
  cases m with
  | «where» => exact agrees_filter hv harg hargs e
  | first => exact agrees_first hv harg hargs e
  | skip => exact agrees_skip hv harg e
  | take => exact agrees_take hv harg e
  | distinct => exact agrees_distinct hv harg e
  | orderBy => exact agrees_order hv harg hargs e true true
  | orderByDescending => exact agrees_order hv harg hargs e true false
  | thenBy => exact agrees_order hv harg hargs e false true
  | thenByDescending => exact agrees_order hv harg hargs e false false
  | contains => exact agrees_contains hv harg hargs e
  | startsWith => exact agrees_like hv harg hargs e false true
  | endsWith => exact agrees_like hv harg hargs e true false
  | select => exact agrees_select hv harg hargs (hfills rfl) e false
  | selectMany => exact agrees_select hv harg hargs (hfills rfl) e true
  | groupBy => exact agrees_groupBy hv harg hargs e
  | count => exact agrees_aggregate hv harg hargs e .count
  | sum => exact agrees_aggregate hv harg hargs e .sum
  | average => exact agrees_aggregate hv harg hargs e .average
  | min => exact agrees_aggregate hv harg hargs e .min
  | max => exact agrees_aggregate hv harg hargs e .max
  | any => exact agrees_any hv harg hargs e
  | insert => exact agrees_insert hv harg hargs e
  | update => exact agrees_update hv harg hargs e
  | delete => exact agrees_delete hv harg e
  | eagerLoad => exact agrees_hint hv harg e _
  | lazyLoad => exact agrees_hint hv harg e _
  | batchLazyLoad => exact agrees_hint hv harg e _
  | dontLoad => exact agrees_hint hv harg e _
  | useLeftJoin => exact agrees_widening true (hv arg harg)
  | named name => exact agrees_reject e _

end Visit

/-! ### Expressions -/

/-- One rule, if the rule for the parts has one outcome. -/
lemma agrees_step {visit : Visit} (hv : AgreesVisit d visit) : AgreesVisit d (step visit) := by
  intro e he
  cases e with
  | source entity => exact agrees_source entity
  | const l => exact agrees_constant _ l
  | param p => exact agrees_parameter _ p
  | member target p =>
    rw [Expr.confined, Bool.and_eq_true] at he
    exact agrees_member hv _ he.2 he.1
  | key grouping =>
    rw [Expr.confined] at he
    exact agrees_key hv _ he
  | binary op l r =>
    rw [Expr.confined, Bool.and_eq_true] at he
    exact agrees_binary hv _ op he.1 he.2
  | unary op operand =>
    rw [Expr.confined] at he
    exact agrees_unary hv _ op he
  | cond test yes no =>
    rw [Expr.confined, Bool.and_eq_true, Bool.and_eq_true] at he
    exact agrees_conditional hv he.1.1 he.1.2 he.2
  | call m args =>
    rw [Expr.confined, Bool.and_eq_true, Bool.or_eq_true] at he
    obtain ⟨hfills, hargs⟩ := he
    rw [step]
    unfold call
    split
    · exact agrees_reject _ _
    · exact agrees_reject _ _
    · next arg rest _ =>
      have hall : ∀ a ∈ arg :: rest, a.confined d.reads d.fills = true := fun a ha =>
        Expr.confined_of_mem hargs ha
      refine agrees_operator hv (hall arg List.mem_cons_self) hall _ fun hm => ?_
      exact hfills.resolve_left (by simp [hm])
  | lambda ps body => exact agrees_reject _ _
  | new type members => exact agrees_reject _ _
  | init type bindings => exact agrees_reject _ _

/-- **A confined expression has one outcome.** The induction is on the depth. -/
theorem agrees_visit (fuel : Nat) : AgreesVisit d (visit [] fuel) := by
  induction fuel with
  | zero => exact fun e _ => agrees_reject e _
  | succ fuel ih => exact agrees_step ih

/-! ### Columns of the result -/

lemma agrees_shownColumns (entity : String) : d.Agrees (shownColumns entity) := by
  refine agrees_get_bind fun s m h => ⟨?_, ?_⟩
  · dsimp only
    rw [h.readsKeyOf]
  · refine (agrees_ask _).bind fun simple => (agrees_ask _).bind fun all => ?_
    exact agrees_mapM _ fun p _ => (agrees_ask _).bind fun column => agrees_pure _

lemma agrees_selectColumns (r : RequestId) (a : AliasId) (newElement : Bool)
    (columns : List (PropertyRef × String)) : d.Agrees (selectColumns r a newElement columns) := by
  induction columns generalizing newElement with
  | nil => exact agrees_pure _
  | cons column columns ih =>
    exact (agrees_add _).bind fun n => (agrees_edit _).bind fun _ => ih false

lemma agrees_selectRow (r : RequestId) (a : AliasId) : d.Agrees (selectRow r a) := by
  refine agrees_graph.bind fun g => ?_
  split
  · exact (agrees_shownColumns _).bind fun columns => agrees_selectColumns r a true columns
  · exact agrees_pure _

lemma agrees_selectGroups (e : Expr) (r : RequestId) (newElement : Bool)
    (keys : List (NodeId × Option PropertyRef)) : d.Agrees (selectGroups e r newElement keys) := by
  induction keys generalizing newElement with
  | nil => exact agrees_pure _
  | cons key keys ih =>
    exact (agrees_duplicate e _).bind fun n => (agrees_edit _).bind fun _ => ih false

lemma agrees_expandItem (r : RequestId) (i : Item) : d.Agrees (expandItem r i) := by
  refine agrees_graph.bind fun g => ?_
  split
  · split
    · exact agrees_selectRow r _
    · exact agrees_edit _
  · exact agrees_edit _

lemma agrees_declareColumns (e : Expr) (r : RequestId) : d.Agrees (declareColumns e r) := by
  refine (agrees_request r).bind fun q => ?_
  split
  · split
    · exact agrees_selectGroups e r true _
    · split
      · exact agrees_selectRow r _
      · exact agrees_pure _
  · exact (agrees_edit _).bind fun _ => agrees_forM _ fun i _ => agrees_expandItem r i
  · exact agrees_pure _

/-! ### Statements -/

lemma agrees_root {e : Expr} (he : e.confined d.reads d.fills = true) : d.Agrees (root [] e) := by
  have hquery : d.Agrees (do
      let _ ← visit [] e.depth e
      let r := (← graph).outermost (← active e)
      declareColumns e r
      return r) := by
    refine (agrees_visit e.depth e he).bind fun _ => agrees_graph.bind fun g => ?_
    refine (agrees_active e).bind fun r => (agrees_declareColumns e _).bind fun _ => agrees_pure _
  unfold root
  split
  · exact hquery
  · exact hquery
  · exact agrees_reject e _

end Compile

namespace Mapping

variable {m n : Mapping}

/-- **Mappings that cannot be told apart compile an expression alike**, and cannot be told apart after
it. -/
theorem compile_alike {d : Discipline} (hmn : d.Alike m n) {e : Expr}
    (he : e.confined d.reads d.fills = true) :
    (n.compile e).1 = (m.compile e).1 ∧ d.Alike (m.compile e).2 (n.compile e).2 := by
  obtain ⟨k, hrun, hk⟩ := Compile.agrees_root he { mapping := m } n ⟨hmn, by simp⟩
  have hover : CompileState.over { mapping := m } n = { mapping := n } := rfl
  rw [hover] at hrun
  unfold compile compileWith
  rw [hrun]
  exact ⟨rfl, hk.alike⟩

/-- The mapping after queries one after another. -/
def after (m : Mapping) (history : List Expr) : Mapping :=
  history.foldl (fun m e => (m.compile e).2) m

end Mapping

/-! ### Mapped properties -/

namespace Expr

/-- Whether no projection in an expression gives a computed value to a mapped property. -/
def sparesMapped (c : Catalog) (e : Expr) : Bool := e.confined (fun _ => true) fun p => !c.maps p

/-- Whether an expression also reads mapped properties only. -/
def readsMapped (c : Catalog) (e : Expr) : Bool := e.confined c.maps fun p => !c.maps p

end Expr

namespace Discipline

/-- One untouched mapping, of which everything may be read. -/
def untouched (c : Catalog) (keys : Bool) : Discipline where
  reads _ := true
  fills p := !c.maps p
  Alike m n := m = n ∧ m.Untouched ∧ m.catalog = c ∧ m.readsReferenceKeys = keys
  catalog h := h.1 ▸ rfl
  keys h := h.1 ▸ rfl
  resolve := by
    rintro m _ p ⟨rfl, -⟩ - r a widen
    rfl
  register := by
    rintro m _ p ⟨rfl, hm, hcatalog, hkeys⟩ hp g k
    refine ⟨rfl, hm.register ?_ g k, ?_, ?_⟩
    · rw [hcatalog]
      simpa using hp
    · rw [Mapping.catalog_register, hcatalog]
    · rw [Mapping.readsReferenceKeys_register, hkeys]

/-- Two untouched mappings over one catalog, of which mapped properties may be read. -/
def mapped (c : Catalog) : Discipline where
  reads := c.maps
  fills p := !c.maps p
  Alike m n := m.Untouched ∧ n.Untouched ∧ m.catalog = c ∧ n.catalog = c ∧
    m.readsReferenceKeys = n.readsReferenceKeys
  catalog := by
    rintro m n ⟨-, -, hm, hn, -⟩
    rw [hm, hn]
  keys h := h.2.2.2.2
  resolve := by
    rintro m n p ⟨hm, hn, hcm, hcn, -⟩ hp r a widen
    rw [hm.resolve (hcm ▸ hp), hn.resolve (hcn ▸ hp)]
    exact Mapping.locate_congr (hcm.trans hcn.symm) r a p widen
  register := by
    rintro m n p ⟨hm, hn, hcm, hcn, hkeys⟩ hp g k
    have hunmapped : c.maps p = false := by simpa using hp
    refine ⟨hm.register (hcm ▸ hunmapped) g k, hn.register (hcn ▸ hunmapped) g k, ?_, ?_, ?_⟩
    · rw [Mapping.catalog_register, hcm]
    · rw [Mapping.catalog_register, hcn]
    · rw [Mapping.readsReferenceKeys_register, Mapping.readsReferenceKeys_register, hkeys]

end Discipline

namespace Mapping

variable {m : Mapping}

/-- One query. -/
lemma untouched_compile (hm : m.Untouched) {e : Expr} (he : e.sparesMapped m.catalog = true) :
    (m.compile e).2.Untouched ∧ (m.compile e).2.catalog = m.catalog ∧
      (m.compile e).2.readsReferenceKeys = m.readsReferenceKeys :=
  (compile_alike (d := .untouched m.catalog m.readsReferenceKeys) ⟨rfl, hm, rfl, rfl⟩ he).2.2

/-- **Queries that give no computed value to a mapped property leave the mapping untouched**, whether
they have a statement or not. -/
theorem untouched_after (hm : m.Untouched) {history : List Expr}
    (hhistory : ∀ e ∈ history, e.sparesMapped m.catalog = true) :
    (m.after history).Untouched ∧ (m.after history).catalog = m.catalog ∧
      (m.after history).readsReferenceKeys = m.readsReferenceKeys := by
  induction history generalizing m with
  | nil => exact ⟨hm, rfl, rfl⟩
  | cons e history ih =>
    obtain ⟨hnext, hcatalog, hkeys⟩ := untouched_compile hm (hhistory e List.mem_cons_self)
    have hrest : ∀ e' ∈ history, e'.sparesMapped (m.compile e).2.catalog = true := fun e' he' => by
      rw [hcatalog]
      exact hhistory e' (List.mem_cons_of_mem _ he')
    obtain ⟨hdone, hcatalog', hkeys'⟩ := ih hnext hrest
    exact ⟨hdone, hcatalog'.trans hcatalog, hkeys'.trans hkeys⟩

/-- **Queries do not change the meaning of others**, if none of them gives a computed value to a mapped
property. After them a mapped property is what the catalog says, as before them, and a query that reads
nothing else has the statement it has before them. -/
theorem compile_after (m : Mapping) (hm : m.Untouched) (hc : m.catalog.validate = .ok ())
    {history : List Expr} (hhistory : ∀ e ∈ history, e.sparesMapped m.catalog = true) :
    (∀ p, m.catalog.maps p = true → ∀ g r a widen,
      (m.after history).resolve r a p widen = m.fresh.resolve r a p widen ∧
        ∃ x h, Runs ((m.after history).resolve r a p widen) g x h ∧ m.catalog.Shows g r a p x h) ∧
      ∀ e, e.readsMapped m.catalog = true →
        ((m.after history).compile e).1 = (m.fresh.compile e).1 := by
  obtain ⟨hafter, hcatalog, hkeys⟩ := untouched_after hm hhistory
  have halike : (Discipline.mapped m.catalog).Alike m.fresh (m.after history) :=
    ⟨m.untouched_fresh, hafter, rfl, hcatalog, hkeys.symm⟩
  refine ⟨fun p hp g r a widen => ⟨?_, ?_⟩, fun e he => (compile_alike halike he).1⟩
  · exact ((Discipline.mapped m.catalog).resolve halike hp r a widen).symm
  · rw [hafter.resolve (by rw [hcatalog]; exact hp), locate_congr hcatalog]
    exact shows_locate hc hp g r a widen

end Mapping

/-! ### Orders with raised totals -/

namespace Raised

def mapping : Mapping where
  catalog := ⟨[⟨"Order", "ORDER", some "id", [⟨"id", "ID", .scalar .int false none⟩,
    ⟨"total", "TOTAL", .scalar .int false none⟩]⟩]⟩

def total : PropertyRef := ⟨"Order", "total", .scalar .int false⟩

def raise : PropertyRef := ⟨"Raise", "total", .scalar .int false⟩

def order : Param := ⟨⟨1⟩, "o", .entity "Order"⟩

/-- Selects the orders with their totals raised by one, as members of an object. -/
def raising (type : String) (p : PropertyRef) : Expr :=
  .call .select [.source "Order", .lambda [order] (.init type
    [.assign p (.binary .add (.member (.param order) total) (.const (.value (.int 1))))])]

/-- The orders above a total. -/
def above : Expr :=
  .call .where [.source "Order", .lambda [order]
    (.binary .greaterThan (.member (.param order) total) (.const (.value (.int 1))))]

/-- The text of that query over a mapping. -/
def text? (m : Mapping) : Option String := do
  return (← (← (m.compile above).1.toOption).write? .postgres).sql

end Raised

/-- A computed value of a member of its own. -/
theorem compile_after_raise :
    (Raised.mapping.catalog.maps Raised.total = true) ∧
      (∀ g r a widen, ∃ x h, Runs ((Raised.mapping.after [Raised.raising "Raise" Raised.raise]).resolve
        r a Raised.total widen) g x h ∧ Raised.mapping.catalog.Shows g r a Raised.total x h) ∧
      ((Raised.mapping.after [Raised.raising "Raise" Raised.raise]).compile Raised.above).1 =
        (Raised.mapping.fresh.compile Raised.above).1 := by
  have hmaps : Raised.mapping.catalog.maps Raised.total = true := by decide +kernel
  have hvalid : Raised.mapping.catalog.validate = .ok () := by decide +kernel
  have hhistory : ∀ e ∈ [Raised.raising "Raise" Raised.raise],
      e.sparesMapped Raised.mapping.catalog = true := by decide +kernel
  have hafter := Raised.mapping.compile_after (by simp [Mapping.Untouched, Raised.mapping]) hvalid hhistory
  exact ⟨hmaps, fun g r a widen => (hafter.1 _ hmaps g r a widen).2,
    hafter.2 _ (by decide +kernel)⟩

/-- A computed value of the mapped total: afterwards the orders above a total are compared by the raised
one. -/
theorem raised_total_changes_queries :
    Raised.above.readsMapped Raised.mapping.catalog = true ∧
      Raised.text? Raised.mapping =
        some "SELECT \"t0\".\"ID\", \"t0\".\"TOTAL\" FROM \"ORDER\" AS \"t0\" WHERE (\"t0\".\"TOTAL\" > $1)" ∧
      Raised.text? (Raised.mapping.after [Raised.raising "Order" Raised.total]) =
        some "SELECT \"t0\".\"ID\", \"t0\".\"TOTAL\" FROM \"ORDER\" AS \"t0\" WHERE ((\"t0\".\"TOTAL\" + $1) > $2)" := by
  decide +kernel

end EntityQuery
