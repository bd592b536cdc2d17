import EntityQuery.Proofs.Filters.Result
import EntityQuery.Proofs.Nesting.Result
import EntityQuery.Proofs.Writes.Values

/-!
Updates and deletes that name a column only where its table is declared.

* `isPlainWrite`: an update or delete of picked rows of an entity. Conditions, orders and assigned values
  are plain expressions over the rows.
* `picks_visit`: the operators that pick rows build one request over joined tables.
* `scoped_compile`: so every accepted write is well scoped in every dialect, as long as a dialect that moves
  joins into a sub-select finds nothing outside of it that reads a joined table.
-/

namespace EntityQuery

open Sql Graph

/-! ### Expressions -/

/-- Operators that pick rows. -/
def Method.picks : Method → Bool
  | .where | .first | .skip | .take | .distinct | .orderBy | .orderByDescending | .thenBy
  | .thenByDescending => true
  | _ => false

namespace Expr

variable (reads : PropertyRef → Bool)

/-- A lambda over rows, or an argument of another kind. -/
def isPlainLambda : Expr → Bool
  | .lambda _ body => body.isPlain reads
  | _ => true

/-- Rows of an entity, picked by plain conditions. -/
def isPicked : Expr → Bool
  | .source _ => true
  | .call m (q :: args) => m.picks && isPicked q && args.all (isPlainLambda reads)
  | _ => false

end Expr

/-- A binding of a plain value. -/
def Binding.isPlain (reads : PropertyRef → Bool) : Binding → Bool
  | .assign _ e => e.isPlain reads
  | .list _ _ => true

namespace Expr

variable (reads : PropertyRef → Bool)

/-- A lambda to plain values of columns, or an argument of another kind. -/
def isPlainInit : Expr → Bool
  | .lambda _ (.init _ bindings) => bindings.all (Binding.isPlain reads)
  | _ => true

/-- An update or delete of picked rows. -/
def isPlainWrite : Expr → Bool
  | .call .delete (q :: _) => q.isPicked reads
  | .call .update (q :: args) => q.isPicked reads && args.all (isPlainInit reads)
  | _ => false

variable {reads} {q : Expr} (hq : q.isPicked reads = true)
include hq

lemma isPlainLambda_of_isPicked : q.isPlainLambda reads = true := by
  cases q <;> first | rfl | cases hq

lemma isPlainInit_of_isPicked : q.isPlainInit reads = true := by
  cases q <;> first | rfl | cases hq

end Expr

namespace Compile

variable {m : Mapping} {reads : PropertyRef → Bool} {s t u : CompileState} {n : NodeId}

/-! ### Picked rows -/

namespace Level

lemma modify (hs : Level m reads s) (f : Request → Request)
    (hjoins : (f (s.graph.request ⟨0⟩)).joins = (s.graph.request ⟨0⟩).joins)
    (hbare : (f (s.graph.request ⟨0⟩)).Bare)
    (hclause : ∀ n ∈ (f (s.graph.request ⟨0⟩)).clauseNodes, n.index < s.graph.entries.size) :
    Level m reads { s with graph := s.graph.modifyRequest ⟨0⟩ f } := by
  have hrequest : (s.graph.modifyRequest ⟨0⟩ f).request ⟨0⟩ = f (s.graph.request ⟨0⟩) :=
    request_modifyRequest_self _ _ hs.flat.zero_lt
  refine ⟨hs.flat.modify ?_ hclause fun a ha => ?_, hrequest ▸ hbare, hs.active, hs.mapping,
    hs.equivalents, hs.paths, hs.computed, fun hown => ?_⟩
  · rw [Request.links, hjoins, Request.links]
  · rcases Request.mem_origins.1 ha with ha | ha | ha
    · rw [← Option.some.inj (hbare.base.symm.trans ha), hs.flat.size]
      exact Nat.succ_pos _
    · rw [hjoins] at ha
      exact hs.flat.sound.source ⟨0⟩ a (Request.mem_origins.2 (.inr (.inl ha)))
    · rw [hbare.target] at ha
      cases ha
  · rw [hrequest, hjoins]
    exact hs.own hown

lemma attach (hs : Level m reads s) (n : NodeId) : Level m reads { s with graph := s.graph.attach ⟨0⟩ n } :=
  ⟨hs.flat.attach ⟨0⟩ n, hs.bare, hs.active, hs.mapping, hs.equivalents, hs.paths, hs.computed, hs.own⟩

lemma setFilter (hs : Level m reads s) (hn : n.index < s.graph.entries.size) :
    Level m reads { s with graph := s.graph.setFilter ⟨0⟩ n } := by
  have hbare := hs.bare
  refine (hs.attach n).modify ({ · with filter := some n }) rfl
    ⟨hbare.kind, hbare.base, hbare.target, hbare.items, hbare.groups, hbare.having, hbare.parent⟩
    fun m hm => ?_
  rw [size_entries_attach]
  rcases Request.mem_clauseNodes_setFilter hm with hm | rfl
  · exact hs.flat.sound.clause ⟨0⟩ m hm
  · exact hn

lemma andFilter (hs : Level m reads s) (hn : n.index < s.graph.entries.size) :
    Level m reads { s with graph := s.graph.andFilter ⟨0⟩ n } := by
  cases hfilter : (s.graph.request ⟨0⟩).filter with
  | none =>
    rw [andFilter_of_none _ n hfilter]
    exact hs.setFilter hn
  | some m =>
    have hm := hs.flat.sound.clause ⟨0⟩ m (Request.mem_clauseNodes.2 (.inr (.inr (.inl hfilter))))
    obtain ⟨hadd, hlt⟩ := gives_operator hs (x := .binary .and m n) (by simp [Node.children, hm, hn]) rfl
      (by simp) _ _ (runs_add.2 ⟨rfl, rfl⟩)
    rw [andFilter_of_some _ n hfilter]
    exact (hadd.level hs).setFilter hlt

lemma pushOrder (hs : Level m reads s) (hn : n.index < s.graph.entries.size) (ascending : Bool) :
    Level m reads { s with graph := s.graph.pushOrder ⟨0⟩ n ascending } := by
  have hbare := hs.bare
  refine (hs.attach n).modify (fun q => { q with orders := q.orders ++ [⟨n, ascending⟩] }) rfl
    ⟨hbare.kind, hbare.base, hbare.target, hbare.items, hbare.groups, hbare.having, hbare.parent⟩
    fun m hm => ?_
  rw [size_entries_attach]
  rcases Request.mem_clauseNodes_pushOrder.1 hm with hm | rfl
  · exact hs.flat.sound.clause ⟨0⟩ m hm
  · exact hn

lemma pushAssignment (hs : Level m reads s) {a : Assignment} (hcolumn : a.column.index < s.graph.entries.size)
    (hvalue : a.value.index < s.graph.entries.size) :
    Level m reads { s with graph := s.graph.pushAssignment ⟨0⟩ a } := by
  have hbare := hs.bare
  refine ((hs.attach a.column).attach a.value).modify
    (fun q => { q with assignments := q.assignments ++ [a] }) rfl
    ⟨hbare.kind, hbare.base, hbare.target, hbare.items, hbare.groups, hbare.having, hbare.parent⟩
    fun m hm => ?_
  rw [size_entries_attach, size_entries_attach]
  rcases Request.mem_clauseNodes_pushAssignment.1 hm with hm | rfl | rfl
  · exact hs.flat.sound.clause ⟨0⟩ m hm
  · exact hcolumn
  · exact hvalue

end Level

/-- Rows are picked of the request that is built. -/
abbrev Picks (m : Mapping) (reads : PropertyRef → Bool) (x : Compile Meaning) (s : CompileState) : Prop :=
  Ensures x s fun x t => x = .query ⟨0⟩ ∧ Level m reads t

/-- The parameter of a lambda stands for a row of the request. -/
lemma level_enter (hs : Level m reads s) (e f : Expr) :
    Ensures (enter e ⟨0⟩ f) s fun body t => Level m reads t ∧ ∃ ps, f = .lambda ps body := by
  have hbare := hs.bare
  have hlambda : ∀ p body, Ensures (enter e ⟨0⟩ (.lambda [p] body)) s fun body' t =>
      Level m reads t ∧ ∃ ps, Expr.lambda [p] body = .lambda ps body' := fun p body =>
    (runs_enter e hbare.items hbare.base p body).ensures.2 ⟨⟨hs.flat.bind _ _, by
      rwa [request_bind], hs.active, hs.mapping, hs.equivalents, hs.paths, hs.computed, hs.own⟩, _, rfl⟩
  match f with
  | .lambda [p] body => exact hlambda p body
  | .lambda [] _ | .lambda (_ :: _ :: _) _ => exact ensures_reject
  | .source _ | .const _ | .param _ | .member _ _ | .key _ | .binary _ _ _ | .unary _ _ | .cond _ _ _
  | .call _ _ | .new _ _ | .init _ _ => exact ensures_reject

lemma level_restrict (hs : Level m reads s) (hn : n.index < s.graph.entries.size) :
    Ensures (restrict ⟨0⟩ n) s fun _ t => Level m reads t :=
  (runs_restrict hs.bare.groups n).ensures.2 (hs.andFilter hn)

/-- The request changes in what it says besides its clauses and sources. -/
lemma picks_amend (hs : Level m reads s) (f : Request → Request)
    (hjoins : (f (s.graph.request ⟨0⟩)).joins = (s.graph.request ⟨0⟩).joins)
    (hbare : (f (s.graph.request ⟨0⟩)).Bare)
    (hclause : (f (s.graph.request ⟨0⟩)).clauseNodes = (s.graph.request ⟨0⟩).clauseNodes) :
    Picks m reads (do editRequest ⟨0⟩ f; return Meaning.query ⟨0⟩) s := by
  rw [Picks, ensures_bind, ensures_editRequest, ensures_pure]
  refine ⟨rfl, hs.modify f hjoins hbare fun n hn => ?_⟩
  rw [hclause] at hn
  exact hs.flat.sound.clause ⟨0⟩ n hn

section Operators

variable {visit : Visit} (hv : Spreads m reads visit)
include hv

lemma level_body (hs : Level m reads s) (e : Expr) {f : Expr} (hf : f.isPlainLambda reads = true) :
    Ensures (do value visit (← enter e ⟨0⟩ f)) s fun n t =>
      Level m reads t ∧ n.index < t.graph.entries.size := by
  refine (level_enter hs e f).bind fun body t ⟨ht, ps, hlambda⟩ => ?_
  rw [hlambda] at hf
  exact (gives_value hv ht hf).mono fun n u ⟨hu, hn⟩ => ⟨hu.level ht, hn⟩

lemma level_restrict_predicate (hs : Level m reads s) (e : Expr) {f : Expr}
    (hf : f.isPlainLambda reads = true) :
    Ensures (do restrict ⟨0⟩ (← predicate visit e ⟨0⟩ f)) s fun _ t => Level m reads t := by
  have hassoc : predicate visit e ⟨0⟩ f = (do value visit (← enter e ⟨0⟩ f)) >>= condition := by
    rw [predicate, bind_assoc]
  rw [hassoc, bind_assoc]
  refine (level_body hv hs e hf).bind fun n t ht => ?_
  obtain ⟨ht, hn⟩ := ht
  refine (gives_condition ht hn).bind fun m u hu => ?_
  obtain ⟨hu, hm⟩ := hu
  exact level_restrict (hu.level ht) hm

variable {q : Expr} {args : List Expr} (hq : Picks m reads (visit q) s)
include hq

omit hv in
/-- An operator works on the request of its receiver. -/
lemma level_openReceiver (e : Expr) :
    Ensures (openReceiver visit e q) s fun r t => r = ⟨0⟩ ∧ Level m reads t := by
  have hreceiver : Ensures (receiver visit e q) s fun r t => r = ⟨0⟩ ∧ Level m reads t := by
    refine hq.bind fun m t ⟨hm, ht⟩ => ?_
    rw [hm]
    exact ensures_pure.2 ⟨rfl, ht⟩
  refine hreceiver.bind fun r t ⟨hr, ht⟩ => ?_
  have hsame : { t with active := some (⟨0⟩ : RequestId) } = t := by rw [← ht.active]
  rw [ensures_bind, ensures_setActive, ensures_pure, hr, hsame]
  exact ⟨rfl, ht⟩

variable (hargs : ∀ a ∈ args, a.isPlainLambda reads = true)

include hargs in
lemma picks_filter (e : Expr) : Picks m reads (filter visit e q args) s := by
  refine (level_openReceiver hq e).bind fun r t ⟨hr, ht⟩ => ?_
  refine (ensures_argument e args 1).bind fun f t' ⟨hf, ht'⟩ => ?_
  rw [hr, ht', ← bind_assoc]
  exact (level_restrict_predicate hv ht e (hargs f hf)).bind fun _ u hu => ensures_pure.2 ⟨rfl, hu⟩

omit hv hq in
lemma picks_take (hs : Level m reads s) (n : Nat) :
    Picks m reads (do editRequest ⟨0⟩ ({ · with take := some n }); return Meaning.query ⟨0⟩) s := by
  have hbare := hs.bare
  exact picks_amend hs ({ · with take := some n }) rfl
    ⟨hbare.kind, hbare.base, hbare.target, hbare.items, hbare.groups, hbare.having, hbare.parent⟩ rfl

include hargs in
lemma picks_first (e : Expr) : Picks m reads (first visit e q args) s := by
  refine (level_openReceiver hq e).bind fun r t ⟨hr, ht⟩ => ?_
  rw [hr]
  split
  · next f hf =>
    rw [← bind_assoc]
    refine (level_restrict_predicate hv ht e (hargs f (List.mem_of_getElem? hf))).bind fun _ u hu => ?_
    exact picks_take hu 1
  · exact picks_take ht 1

omit hv in
/-- A number of rows changes nothing else. -/
lemma picks_page (e : Expr) (page : Nat → Request → Request) (hpage : ∀ k q, (page k q).joins = q.joins ∧
    (q.Bare → (page k q).Bare) ∧ (page k q).clauseNodes = q.clauseNodes) :
    Picks m reads (do
      let r ← openReceiver visit e q
      let n ← rowCount e (← argument e args 1)
      editRequest r (page n)
      return Meaning.query r) s := by
  refine (level_openReceiver hq e).bind fun r t ⟨hr, ht⟩ => ?_
  refine (ensures_argument e args 1).bind fun count t' ⟨_, ht'⟩ => ?_
  refine (ensures_rowCount e count).bind fun k u hu => ?_
  rw [hr, hu, ht']
  obtain ⟨hjoins, hbare, hclause⟩ := hpage k (t.graph.request ⟨0⟩)
  exact picks_amend ht (page k) hjoins (hbare ht.bare) hclause

omit hv in
lemma picks_distinct (e : Expr) : Picks m reads (distinct visit e q) s := by
  refine (level_openReceiver hq e).bind fun r t ⟨hr, ht⟩ => ?_
  have hbare := ht.bare
  rw [hr]
  exact picks_amend ht ({ · with distinct := true }) rfl
    ⟨hbare.kind, hbare.base, hbare.target, hbare.items, hbare.groups, hbare.having, hbare.parent⟩ rfl

include hargs in
lemma picks_order (e : Expr) (restart ascending : Bool) :
    Picks m reads (order visit e restart ascending q args) s := by
  refine (level_openReceiver hq e).bind fun r t ⟨hr, ht⟩ => ?_
  have hrest : ∀ u, Level m reads u → Picks m reads (do
      let body ← enter e ⟨0⟩ (← argument e args 1)
      let n ← value visit body
      edit (·.pushOrder ⟨0⟩ n ascending)
      return Meaning.query ⟨0⟩) u := by
    intro u hu
    refine (ensures_argument e args 1).bind fun f u' ⟨hf, hu'⟩ => ?_
    rw [hu', ← bind_assoc]
    refine (level_body hv hu e (hargs f hf)).bind fun n w ⟨hw, hn⟩ => ?_
    rw [ensures_bind, ensures_edit, ensures_pure]
    exact ⟨rfl, hw.pushOrder hn ascending⟩
  rw [hr]
  cases restart with
  | false => exact hrest t ht
  | true =>
    -- the orders before it are dropped first
    have hbare := ht.bare
    simp only [if_true]
    rw [ensures_bind, ensures_editRequest]
    refine hrest _ (ht.modify ({ · with orders := [] }) rfl
      ⟨hbare.kind, hbare.base, hbare.target, hbare.items, hbare.groups, hbare.having, hbare.parent⟩
      fun n hn => ht.flat.sound.clause ⟨0⟩ n ?_)
    simp only [Request.clauseNodes, List.map_nil, List.append_nil, List.mem_append] at hn ⊢
    rcases hn with hn | hn
    · exact .inl (.inl hn)
    · exact .inr hn

include hargs in
lemma picks_operator (e : Expr) {method : Method} (hmethod : method.picks = true) :
    Picks m reads (operator visit e method q args) s := by
  have hpage : ∀ {k : Nat} {q : Request}, q.Bare → Request.Bare { q with skip := some k } ∧
      Request.Bare { q with take := some k } := fun h =>
    ⟨⟨h.kind, h.base, h.target, h.items, h.groups, h.having, h.parent⟩,
      ⟨h.kind, h.base, h.target, h.items, h.groups, h.having, h.parent⟩⟩
  cases method with
  | «where» => exact picks_filter hv hq hargs e
  | first => exact picks_first hv hq hargs e
  | skip => exact picks_page hq e (fun k q => { q with skip := some k }) fun _ _ => ⟨rfl, (hpage · |>.1), rfl⟩
  | take => exact picks_page hq e (fun k q => { q with take := some k }) fun _ _ => ⟨rfl, (hpage · |>.2), rfl⟩
  | distinct => exact picks_distinct hq e
  | orderBy => exact picks_order hv hq hargs e true true
  | orderByDescending => exact picks_order hv hq hargs e true false
  | thenBy => exact picks_order hv hq hargs e false true
  | thenByDescending => exact picks_order hv hq hargs e false false
  | _ => cases hmethod

end Operators

lemma level_ofTable {m : Mapping} (hm : m.equivalents = []) (table entity : String) (key : Option String) :
    Level m reads { mapping := m, graph := .ofTable table entity key, active := some ⟨0⟩ } := by
  have hnode : ∀ n, (Graph.ofTable table entity key).node n = .const .null := fun n =>
    node_of_size_le (Nat.zero_le _)
  have hlinks : ((Graph.ofTable table entity key).request ⟨0⟩).links = [] := rfl
  refine ⟨⟨sound_ofTable .., rfl, fun n a ha => ?_, rfl, ?_, ?_⟩, ?_, rfl, rfl, hm, rfl, rfl, fun _ => rfl⟩
  · rw [hnode] at ha
    cases ha
  · rw [hlinks]
    simp
  · rw [hlinks]
    simp
  · rw [request_ofTable]
    exact ⟨rfl, rfl, rfl, rfl, rfl, rfl, rfl⟩

/-- **Picked rows are one request over joined tables.** The induction is on the depth. -/
theorem picks_visit {m : Mapping} (hm : m.equivalents = []) (fuel : Nat) {q : Expr}
    (hq : q.isPicked reads = true) : Picks m reads (visit [] fuel q) { mapping := m } := by
  induction fuel generalizing q with
  | zero => exact ensures_reject
  | succ fuel ih =>
    match q, hq with
    | .source entity, _ =>
      cases htable : m.catalog.tableName entity with
      | ok table => exact (runs_ofTable htable fuel).ensures.2 ⟨rfl, level_ofTable hm ..⟩
      | error f =>
        refine ensures_bind.2 (ensures_ask.2 fun table hok => ?_)
        cases htable.symm.trans hok
    | .call method (q :: args), hq =>
      obtain ⟨hboth, hargs⟩ := Bool.and_eq_true_iff.1 hq
      obtain ⟨hmethod, hq⟩ := Bool.and_eq_true_iff.1 hboth
      have hall : ∀ a ∈ q :: args, a.isPlainLambda reads = true := by
        intro a ha
        rcases List.mem_cons.1 ha with rfl | ha
        · exact Expr.isPlainLambda_of_isPicked hq
        · exact List.all_eq_true.1 hargs a ha
      have hoperator := picks_operator (spreads_visit fuel) (ih hq) hall (.call method (q :: args)) hmethod
      cases method <;> exact hoperator

/-! ### Writes -/

/-- A value is assigned to every column. -/
lemma level_assign {visit : Visit} (hv : Spreads m reads visit) (hs : Level m reads s) (e : Expr)
    {bindings : List Binding} (hbindings : ∀ b ∈ bindings, b.isPlain reads = true) :
    Ensures (assign visit e ⟨0⟩ ⟨0⟩ bindings) s fun _ t => Level m reads t := by
  induction bindings generalizing s with
  | nil => exact ensures_pure.2 hs
  | cons b bindings ih =>
    have hrest := fun c hc => hbindings c (List.mem_cons_of_mem _ hc)
    cases b with
    | list p es => exact ensures_reject
    | assign p v =>
      have hplain : v.isPlain reads = true := hbindings _ List.mem_cons_self
      rw [assign, ensures_bind, ensures_ask]
      intro stored _
      have hpush : Ensures (do
          let column ← add (.column ⟨0⟩ stored.column)
          let n ← value visit v
          edit (·.pushAssignment ⟨0⟩ ⟨column, n⟩)
          assign visit e ⟨0⟩ ⟨0⟩ bindings) s fun _ t => Level m reads t := by
        have hzero : (⟨0⟩ : AliasId).index < s.graph.aliases.size := by
          rw [hs.flat.size]
          exact Nat.succ_pos _
        refine (gives_reader hs (x := .column ⟨0⟩ stored.column) hzero ⟨rfl, rfl⟩ (by simp)).bind
          fun column t ht => ?_
        obtain ⟨ht, hcolumn⟩ := ht
        refine (gives_value hv (ht.level hs) hplain).bind fun n u hu => ?_
        obtain ⟨hu, hn⟩ := hu
        rw [ensures_bind, ensures_edit]
        exact ih ((hu.level (ht.level hs)).pushAssignment (hu.lt hcolumn) hn) hrest
      dsimp only
      split
      · exact ensures_reject_bind
      · exact ensures_reject_bind
      · exact hpush
      · exact hpush

/-- The request writes to its first source. -/
structure Marked (m : Mapping) (reads : PropertyRef → Bool) (s : CompileState) : Prop where
  flat : s.graph.Flat
  kind : (s.graph.request ⟨0⟩).kind.writes = true
  target : (s.graph.request ⟨0⟩).target = some ⟨0⟩
  parent : (s.graph.request ⟨0⟩).parent = none
  active : s.active = some ⟨0⟩
  own : m.catalog.Own reads → (s.graph.request ⟨0⟩).joins = []

lemma marked_markWrite (hs : Level m reads s) (e : Expr) {kind : RequestKind} (hkind : kind.writes = true) :
    Ensures (markWrite e ⟨0⟩ kind (some ⟨0⟩)) s fun _ t => Marked m reads t := by
  have hrequest := request_modifyRequest_self (g := s.graph) (r := ⟨0⟩)
    ({ · with kind, target := some ⟨0⟩, projection := some e.type }) hs.flat.zero_lt
  rw [markWrite, ensures_bind, ensures_editRequest, ensures_pure]
  refine ⟨hs.flat.modify rfl (fun n hn => hs.flat.sound.clause ⟨0⟩ n hn) fun a ha => ?_, ?_, ?_, ?_,
    hs.active, ?_⟩
  · rcases Request.mem_origins.1 ha with ha | ha | ha
    · exact hs.flat.sound.source ⟨0⟩ a (Request.mem_origins.2 (.inl ha))
    · exact hs.flat.sound.source ⟨0⟩ a (Request.mem_origins.2 (.inr (.inl ha)))
    · cases ha
      rw [hs.flat.size]
      exact Nat.succ_pos _
  · rw [hrequest]
    exact hkind
  · rw [hrequest]
  · rw [hrequest]
    exact hs.bare.parent
  · rw [hrequest]
    exact hs.own

section Writes

variable {visit : Visit} (hv : Spreads m reads visit) {q : Expr} {args : List Expr}
  (hq : Picks m reads (visit q) s)
include hq

lemma marked_delete (e : Expr) : Ensures (delete visit e q) s fun _ t => Marked m reads t := by
  refine (level_openReceiver hq e).bind fun r t ⟨hr, ht⟩ => ?_
  rw [hr, ensures_bind, ensures_request, ht.bare.base]
  exact marked_markWrite ht e rfl

include hv in
lemma marked_update (hargs : ∀ a ∈ args, a.isPlainInit reads = true) (e : Expr) :
    Ensures (update visit e q args) s fun _ t => Marked m reads t := by
  have hinitializer : Ensures (initializer visit e .update q args) s fun x t =>
      x.1 = ⟨0⟩ ∧ Level m reads t ∧ ∀ b ∈ x.2.2, b.isPlain reads = true := by
    refine (level_openReceiver hq e).bind fun r t ⟨hr, ht⟩ => ?_
    refine (ensures_argument e args 1).bind fun f t' ⟨hf, ht'⟩ => ?_
    rw [hr, ht']
    refine (level_enter ht e f).bind fun body u ⟨hu, ps, hlambda⟩ => ?_
    have hplain := hargs f hf
    split
    · rw [hlambda] at hplain
      exact ensures_pure.2 ⟨rfl, hu, List.all_eq_true.1 hplain⟩
    · exact ensures_reject
  refine hinitializer.bind fun ⟨r, type, bindings⟩ t ⟨hr, ht, hbindings⟩ => ?_
  dsimp only at hr hbindings ⊢
  rw [hr, ensures_bind, ensures_request, ht.bare.base]
  refine (level_assign hv ht e hbindings).bind fun _ u hu => ?_
  exact marked_markWrite hu e rfl

end Writes

lemma marked_visit {m : Mapping} (hm : m.equivalents = []) (fuel : Nat) {e : Expr}
    (he : e.isPlainWrite reads = true) :
    Ensures (visit [] fuel e) { mapping := m } fun _ t => Marked m reads t := by
  cases fuel with
  | zero => exact ensures_reject
  | succ fuel =>
    match e, he with
    | .call .delete (q :: _), hq => exact marked_delete (picks_visit hm fuel hq) _
    | .call .update (q :: args), he =>
      obtain ⟨hq, hargs⟩ := Bool.and_eq_true_iff.1 he
      refine marked_update (spreads_visit fuel) (picks_visit hm fuel hq) (fun a ha => ?_) _
      rcases List.mem_cons.1 ha with rfl | ha
      · exact Expr.isPlainInit_of_isPicked hq
      · exact List.all_eq_true.1 hargs a ha

/-- The root of a write is the one request. -/
lemma marked_root {m : Mapping} (hm : m.equivalents = []) {e : Expr} (he : e.isPlainWrite reads = true) :
    Ensures (root [] e) { mapping := m } fun r t => r = ⟨0⟩ ∧ Marked m reads t := by
  have hquery : Ensures (do
      let _ ← visit [] e.depth e
      let r := (← graph).outermost (← active e)
      declareColumns e r
      return r) { mapping := m } fun r t => r = ⟨0⟩ ∧ Marked m reads t := by
    refine (marked_visit hm e.depth he).bind fun x t ht => ?_
    rw [ensures_bind, ensures_graph, ensures_bind, ensures_active]
    intro r hr
    obtain rfl : r = ⟨0⟩ := Option.some.inj (hr.symm.trans ht.active)
    dsimp only
    rw [outermost_of_parent ht.parent, ensures_bind, declareColumns, ensures_bind, ensures_request]
    have hkind := ht.kind
    cases hwrite : (t.graph.request ⟨0⟩).kind with
    | select =>
      rw [hwrite] at hkind
      cases hkind
    | _ => exact ensures_pure.2 (ensures_pure.2 ⟨rfl, ht⟩)
  unfold root
  split
  · exact hquery
  · exact hquery
  · exact ensures_reject

end Compile

/-! ### Statements -/

namespace Sql.Graph.Flat

variable {g : Graph} (hg : g.Flat) (d : Dialect)
include hg

lemma placed_writer : (g.writer d).Placed (g.request ⟨0⟩) ⟨0⟩ := by
  refine hg.placed d ?_ [] _
  rw [height, Nat.mul_succ]
  omega

/-- The text of the one request. -/
lemma scoped_query (hkind : (g.request ⟨0⟩).kind.writes = true)
    (htarget : (g.request ⟨0⟩).target = some ⟨0⟩)
    (hd : d.writeStyle = .subquery → g.Detached (g.request ⟨0⟩) ⟨0⟩) : Scoped ((g.writer d).query ⟨0⟩) := by
  obtain ⟨fuel, hfuel, hle⟩ : ∃ fuel, g.height = fuel + 1 ∧ g.entries.size ≤ fuel := by
    refine ⟨_, rfl, ?_⟩
    rw [Nat.mul_succ]
    omega
  change Scoped (g.readRequest (g.writing d) ⟨0⟩)
  rw [readRequest, hfuel, readRequestWithin, if_neg List.not_mem_nil]
  refine (hg.placed d hle [⟨0⟩] _).scoped_request hd hkind ?_
  rw [htarget]
  rfl

end Sql.Graph.Flat

/-- **An accepted write is well scoped.** In every dialect, each source that its text reads is declared by a
clause whose scope covers the place, and no join reads a source that is joined later. Where joined tables
are put into a sub-select, this takes that all members are columns of the target, or else that nothing
outside of the sub-select reads another table. -/
theorem scoped_compile (m : Mapping) (hm : m.equivalents = []) {reads : PropertyRef → Bool} {e : Expr}
    (he : e.isPlainWrite reads = true) {s : Statement} (hs : (m.compile e).1 = .ok s) :
    ∃ target, s.request.target = some target ∧ ∀ d : Dialect,
      (d.writeStyle = .subquery → m.catalog.Own reads ∨ s.graph.Detached s.request target) →
        Scoped ((s.graph.writer d).query s.root) ∧
        ∀ k, Scoped ((s.graph.writer d).source target ++
          (s.graph.writer d).joins { s.request with joins := s.request.joins.take k }) := by
  obtain ⟨t, hrun, hgraph⟩ := Mapping.runs_of_compile hs
  obtain ⟨hroot, hmarked⟩ := Compile.marked_root hm he _ t hrun
  have hrequest : s.request = s.graph.request ⟨0⟩ := congrArg s.graph.request hroot
  have hflat : s.graph.Flat := hgraph ▸ hmarked.flat
  have hkind : (s.graph.request ⟨0⟩).kind.writes = true := hgraph ▸ hmarked.kind
  have htarget : (s.graph.request ⟨0⟩).target = some ⟨0⟩ := hgraph ▸ hmarked.target
  have hown : m.catalog.Own reads → (s.graph.request ⟨0⟩).joins = [] := hgraph ▸ hmarked.own
  rw [hrequest, hroot]
  refine ⟨⟨0⟩, htarget, fun d hd => ⟨?_, fun k => (hflat.placed_writer d).scoped_joins k⟩⟩
  refine hflat.scoped_query d hkind htarget fun hstyle => ?_
  exact (hd hstyle).elim (fun h => hflat.detached (hown h)) id

/-! ### Orders and notes of customers -/

namespace Trade

/-- Orders have a key, notes have none. -/
def mapping : Mapping where
  catalog := ⟨[⟨"Customer", "customer", some "id", [⟨"id", "id", .scalar .int false none⟩,
      ⟨"name", "name", .scalar .string false none⟩]⟩,
    ⟨"Order", "orders", some "id", [⟨"id", "id", .scalar .int false none⟩,
      ⟨"total", "total", .scalar .int false none⟩, ⟨"customer", "customer_id", .reference "Customer"⟩]⟩,
    ⟨"Note", "note", none, [⟨"title", "title", .scalar .string false none⟩,
      ⟨"customer", "customer_id", .reference "Customer"⟩]⟩]⟩

/-- Stands for a row of an entity. -/
def row (entity : String) : Param := ⟨⟨1⟩, "x", .entity entity⟩

/-- A property of the customer of a row. -/
def customer (entity : String) (p : PropertyRef) : Expr :=
  .member (.member (.param (row entity)) ⟨entity, "customer", .entity "Customer"⟩) p

/-- The rows of an entity whose customer has a name. -/
def named (entity name : String) : Expr :=
  .call .where [.source entity, .lambda [row entity] (.binary .equal
    (customer entity ⟨"Customer", "name", .scalar .string false⟩) (.const (.value (.string name))))]

/-- New totals for orders. -/
def setTotal (orders value : Expr) : Expr :=
  .call .update [orders, .lambda [row "Order"] (.init "Order"
    [.assign ⟨"Order", "total", .scalar .int false⟩ value])]

/-- The orders of Ann cost nothing. -/
def clearTotals : Expr := setTotal (named "Order" "Ann") (.const (.value (.int 0)))

/-- Every order costs as much as its customer has for a key. -/
def copyCustomers : Expr :=
  setTotal (.source "Order") (customer "Order" ⟨"Customer", "id", .scalar .int false⟩)

/-- The notes of Ann go. -/
def dropNotes : Expr := .call .delete [named "Note" "Ann"]

end Trade

/-- New totals for the orders of a customer, on every server: where the customer is joined in a sub-select,
the new total does not read it. -/
theorem scoped_compile_totals : Trade.mapping.equivalents = [] ∧
    Trade.clearTotals.isPlainWrite (fun _ => true) = true ∧
    ∃ s, (Trade.mapping.compile Trade.clearTotals).1 = .ok s ∧ s.request.joins.length = 1 ∧
      ∀ d, Scoped ((s.graph.writer d).query s.root) := by
  have hplain : Trade.clearTotals.isPlainWrite (fun _ => true) = true := by decide +kernel
  have hcheck : (Trade.mapping.compile Trade.clearTotals).1.toOption.any (fun s =>
      s.request.joins.length == 1 && s.request.target.any (fun a => (s.graph.aliasOf a).idColumn.isSome) &&
      s.request.assignments.all fun a => (s.graph.node a.value).children.isEmpty &&
        (s.graph.node a.value).source?.isNone) = true := by decide +kernel
  refine ⟨rfl, hplain, ?_⟩
  cases hcompile : (Trade.mapping.compile Trade.clearTotals).1 with
  | error f =>
    rw [hcompile] at hcheck
    cases hcheck
  | ok s =>
    rw [hcompile] at hcheck
    simp only [Except.toOption, Option.any_some, Bool.and_eq_true, beq_iff_eq, List.all_eq_true,
      List.isEmpty_iff, Option.isNone_iff_eq_none] at hcheck
    obtain ⟨⟨hjoins, hkey⟩, hvalues⟩ := hcheck
    obtain ⟨target, htarget, hscoped⟩ := scoped_compile Trade.mapping rfl hplain hcompile
    refine ⟨s, rfl, hjoins, fun d => (hscoped d fun _ => .inr ⟨fun a ha b hb => ?_, fun hid => ?_⟩).1⟩
    · exact absurd hb (not_reads_of_leaf (hvalues a ha).1 (hvalues a ha).2)
    · rw [htarget, Option.any_some, hid] at hkey
      cases hkey

/-- Outside of the sub-select, nobody declares the customer: not for an assigned value that reads it, nor for
the condition of notes, which have no key. -/
theorem unscoped_related_writes :
    (∃ s, (Trade.mapping.compile Trade.copyCustomers).1 = .ok s ∧
      (s.write? .postgres).map Written.sql = some
        ("UPDATE \"orders\" AS \"t0\" SET \"total\" = \"t1\".\"id\" WHERE \"t0\".\"id\" IN (SELECT " ++
          "\"t0\".\"id\" FROM \"orders\" AS \"t0\" INNER JOIN \"customer\" AS \"t1\" ON " ++
          "(\"t0\".\"customer_id\" = \"t1\".\"id\"))") ∧
      ¬ Scoped ((s.graph.writer .postgres).query s.root)) ∧
    ∃ s, (Trade.mapping.compile Trade.dropNotes).1 = .ok s ∧
      (s.write? .postgres).map Written.sql =
        some "DELETE FROM \"note\" AS \"t0\" WHERE (\"t1\".\"name\" = $1)" ∧
      ¬ Scoped ((s.graph.writer .postgres).query s.root) := by
  have hfound : ∀ {e : Expr} {sql : String}, (Trade.mapping.compile e).1.toOption.any (fun s =>
      (s.write? .postgres).map Written.sql == some sql &&
        !decide (Scoped ((s.graph.writer .postgres).query s.root))) = true →
      ∃ s, (Trade.mapping.compile e).1 = .ok s ∧ (s.write? .postgres).map Written.sql = some sql ∧
        ¬ Scoped ((s.graph.writer .postgres).query s.root) := by
    intro e sql hcheck
    cases hcompile : (Trade.mapping.compile e).1 with
    | error f =>
      rw [hcompile] at hcheck
      cases hcheck
    | ok s =>
      rw [hcompile] at hcheck
      simp only [Except.toOption, Option.any_some, Bool.and_eq_true, beq_iff_eq, Bool.not_eq_true',
        decide_eq_false_iff_not] at hcheck
      exact ⟨s, rfl, hcheck⟩
  exact ⟨hfound (by decide +kernel), hfound (by decide +kernel)⟩

end EntityQuery
