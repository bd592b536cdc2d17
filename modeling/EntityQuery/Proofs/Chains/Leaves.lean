import EntityQuery.Proofs.Chains.Values

/-!
What the leaves of scalar expressions become.

* Over the rows of a request, every parameter stands for its only source, and an own scalar member is
  a column of it.
* Over its groups, a key is a copy of what the rows are grouped by, and an aggregate is a value of the
  grouped request. A test or a selector inside an aggregate is an expression over the rows again.
-/

namespace EntityQuery.Compile

open Sql Graph

variable {m : Mapping} {entity : String} {K : Clauses} {V : Selection} {s t : CompileState}

/-! ### The source -/

section Source

variable (hs : Alone m entity K V s)
include hs

/-- Every parameter stands for the only source. -/
lemma Alone.ensures_parameter (e : Expr) (p : Param) :
    Ensures (parameter e p) s fun x t => x = .row ⟨0⟩ ∧ t = s := by
  refine ensures_parameter_of e p fun r a hr ha => ⟨?_, rfl⟩
  obtain rfl := Option.some.inj (hs.active.symm.trans hr)
  obtain ⟨q, hq, ha⟩ := Option.bind_eq_some_iff.1 ha
  have hclauses := hs.clauses
  have hzero : q = ⟨0⟩ := by
    rw [enclosing?, enclosingWithin, hclauses.parent] at hq
    split at hq <;> cases hq
    rfl
  have hmem := List.mem_of_find?_eq_some ha
  rw [hzero, Request.sources, hclauses.base, hclauses.joins] at hmem
  rw [List.mem_singleton.1 hmem]

lemma ensures_visit_param (fuel : Nat) (p : Param) :
    Ensures (visit [] fuel (.param p)) s fun x t => x = .row ⟨0⟩ ∧ t = s := by
  cases fuel with
  | zero => exact ensures_reject
  | succ fuel => exact hs.ensures_parameter _ p

lemma Alone.ensures_rowValue (fuel : Nat) (p : Param) :
    Ensures (rowValue (visit [] fuel) (.param p)) s fun a t => a = ⟨0⟩ ∧ t = s := by
  refine (ensures_visit_param hs fuel p).bind ?_
  rintro _ _ ⟨rfl, rfl⟩
  exact ensures_pure.2 ⟨rfl, rfl⟩

lemma requestOver?_source : s.graph.requestOver? ⟨0⟩ ⟨0⟩ = some ⟨0⟩ := by
  rw [requestOver?, enclosing?, enclosingWithin, if_pos]
  rw [hs.clauses.base]
  rfl

/-- A request is grouped if there are keys. -/
lemma Alone.isGrouped :
    (s.graph.request ⟨0⟩).isGrouped = !K.keys.isEmpty := by
  have hlength := hs.clauses.groups.length_eq
  rw [Request.isGrouped]
  cases hgroups : (s.graph.request ⟨0⟩).groups <;> cases hkeys : K.keys
  · rfl
  · rw [hgroups, hkeys] at hlength
    cases hlength
  · rw [hgroups, hkeys] at hlength
    cases hlength
  · rfl

/-- The row of the request is that of the source, since a group is no single row. -/
lemma Alone.ensures_rowOf (e : Expr) : Ensures (rowOf e ⟨0⟩) s fun a t => a = ⟨0⟩ ∧ t = s := by
  rw [rowOf, ensures_bind, ensures_graph]
  dsimp only
  rw [hs.clauses.base]
  rcases hs.grouped with hkeys | hitems
  · rw [hs.isGrouped, List.isEmpty_eq_false_iff.2 hkeys]
    rcases (s.graph.request ⟨0⟩).items with _ | ⟨i, _ | _⟩
    · exact ensures_pure.2 ⟨rfl, rfl⟩
    · dsimp only
      cases s.graph.node i.node <;> exact ensures_pure.2 ⟨rfl, rfl⟩
    · exact ensures_pure.2 ⟨rfl, rfl⟩
  · have hempty := hs.items
    rw [hitems, List.forall₂_nil_left_iff] at hempty
    rw [hempty]
    exact ensures_pure.2 ⟨rfl, rfl⟩

/-- The row of a lambda is that of the source. -/
lemma Alone.ensures_enter (e body : Expr) (p : Param) :
    Ensures (enter e ⟨0⟩ (.lambda [p] body)) s fun b t => b = body ∧ Appends s t := by
  change Ensures (rowOf e ⟨0⟩ >>= fun a => do
    edit (·.bind a p.id)
    return body) s _
  refine (hs.ensures_rowOf e).bind ?_
  rintro _ _ ⟨rfl, rfl⟩
  rw [ensures_bind, ensures_edit]
  exact ensures_pure.2 ⟨rfl, .bind _ ⟨0⟩ p.id⟩

section Lambdas

variable {visit : Visit} {body : Expr} {f : Fragment} (he : Compiles m entity K V visit body f)
include he

/-- The value of a lambda over the source. -/
lemma makes_lambda (e : Expr) (p : Param) :
    Ensures (enter e ⟨0⟩ (.lambda [p] body) >>= value visit) s (Makes s f) := by
  refine (hs.ensures_enter e body p).bind ?_
  rintro _ t ⟨rfl, ht⟩
  exact (makes_value he (hs.appends ht)).mono fun _ _ hn => hn.after ht

/-- The condition of a lambda over the source. -/
lemma makes_predicate (e : Expr) (p : Param) :
    Ensures (predicate visit e ⟨0⟩ (.lambda [p] body)) s (Makes s f.asCondition) := by
  refine (hs.ensures_enter e body p).bind ?_
  rintro _ t ⟨rfl, ht⟩
  exact (makes_test he (hs.appends ht)).mono fun _ _ hn => hn.after ht

/-- The value of a lambda over the source, from inside an operator. -/
lemma makes_selector (e : Expr) (p : Param) :
    Ensures (selector visit e ⟨0⟩ (.lambda [p] body)) s (Makes s f) := by
  have hactive : { s with active := some ⟨0⟩ } = s := by rw [← hs.active]
  rw [selector, ensures_within, hactive]
  exact (makes_lambda hs he e p).mono fun _ _ hn => hn.back

/-- The condition of a lambda over the source, from inside an operator. -/
lemma makes_innerTest (e : Expr) (p : Param) :
    Ensures (within ⟨0⟩ (predicate visit e ⟨0⟩ (.lambda [p] body))) s (Makes s f.asCondition) := by
  have hactive : { s with active := some ⟨0⟩ } = s := by rw [← hs.active]
  rw [ensures_within, hactive]
  exact (makes_predicate hs he e p).mono fun _ _ hn => hn.back

end Lambdas

end Source

/-! ### Own members -/

lemma ownColumn?_eq_some {c : Catalog} {p : PropertyRef} {column : String}
    (h : c.ownColumn? entity p = some column) :
    ∃ stored, c.propertyMapping p = .ok stored ∧ stored.isScalar = true ∧ stored.column = column := by
  unfold Catalog.ownColumn? at h
  split at h
  · next stored _ hstored =>
    split at h
    · next hscalar => exact ⟨stored, hstored, hscalar, Option.some.inj h⟩
    · cases h
  · cases h

/-- Nothing is registered for the scalar members of an entity. -/
def Unregistered (m : Mapping) (entity : String) : Prop :=
  ∀ p, (m.catalog.ownColumn? entity p).isSome = true → m.equivalents.find? p = none

/-- An own scalar member is a column of the source. -/
lemma made_ownMember (hs : Alone m entity K V s) {p : PropertyRef} {column : String}
    (hp : m.catalog.ownColumn? entity p = some column) (e : Expr) :
    Ensures (resolveMember e ⟨0⟩ p) s (Made s (.column [] column)) := by
  obtain ⟨hfree, hvalues, hpaths⟩ := hs.own p (by rw [hp]; rfl)
  have hreal : realPath s.paths pathLimit [p] = [p] := by rw [pathLimit, realPath, hpaths]
  obtain ⟨stored, hstored, hscalar, rfl⟩ := ownColumn?_eq_some hp
  have hlocate : ∀ r, s.mapping.resolve r ⟨0⟩ p s.widen = s.mapping.locate r ⟨0⟩ p s.widen :=
    fun r => by rw [Mapping.resolve, Mapping.resolveWithin, hfree]
  rw [resolveMember, ensures_bind, ensures_active]
  intro r _
  rw [ensures_get_bind]
  dsimp only
  rw [ensures_get_bind, hreal, List.head?_cons, Option.bind_some, hs.computed.find?_eq_none hvalues]
  change Ensures (resolveStep r ⟨0⟩ p >>= fun x => follow e r x []) s _
  rw [ensures_bind, ensures_resolveStep, hlocate]
  intro x g hrun
  obtain ⟨stored', hstored', hx⟩ := Mapping.runs_locate.1 hrun
  rw [hs.catalog] at hstored'
  cases hstored.symm.trans hstored'
  rcases stored with ⟨name, column, kind⟩
  cases kind with
  | scalar t nullable length =>
    obtain ⟨rfl, rfl⟩ := hx
    exact ensures_pure.2 ⟨_, rfl, .add s _, rfl, has_add _ _⟩
  | _ => cases hscalar

/-- The leaves over rows. -/
lemma compiles_rowLeaf (p : Param) (fuel : Nat) (e : Expr) (f : Fragment)
    (h : Expr.rowLeaf m.catalog entity p e = some f) :
    Compiles m entity K V (visit [] fuel) e f := by
  intro s hs
  unfold Expr.rowLeaf at h
  split at h
  · next q property =>
    split at h
    · obtain ⟨column, hcolumn, rfl⟩ := Option.map_eq_some_iff.1 h
      cases fuel with
      | zero => exact ensures_reject
      | succ fuel =>
        change Ensures (visit [] fuel (.param q) >>= _) s _
        refine (ensures_visit_param hs fuel q).bind ?_
        rintro _ _ ⟨rfl, rfl⟩
        exact made_ownMember hs hcolumn _
    · cases h
  · cases h

/-- **Scalar expressions over rows.** -/
theorem compiles_row {p : Param} {e : Expr}
    (he : e.isScalar (Expr.rowLeaf m.catalog entity p) = true) (fuel : Nat) :
    Compiles m entity K V (visit [] fuel) e (e.written (Expr.rowLeaf m.catalog entity p) m.catalog) :=
  compiles_visit (compiles_rowLeaf p) fuel e he

/-! ### Keys -/

/-- The entries of a grouping stand for the keys of a chain. -/
def KeysAt (g : Graph) (keys : GroupKeys) (entries : List (NodeId × Option PropertyRef)) : Prop :=
  List.Forall₂ (fun k x => g.Has x.1 (.column ⟨0⟩ k.1) ∧ x.2 = k.2) keys entries

lemma keysAt_zip {g : Graph} {keys : GroupKeys} {ns : List NodeId}
    (h : List.Forall₂ (fun k n => g.Has n (.column ⟨0⟩ k.1)) keys ns) :
    KeysAt g keys (ns.zip (keys.map Prod.snd)) := by
  induction h with
  | nil => exact .nil
  | cons hn _ ih => exact .cons ⟨hn, rfl⟩ ih

section Keys

variable (hs : Alone m entity K V s)
include hs

lemma Alone.ensures_groupingKeys (fuel : Nat) (e : Expr) (p : Param) :
    Ensures (groupingKeys (visit [] fuel) e (.param p)) s fun entries t =>
      t = s ∧ KeysAt s.graph K.keys entries := by
  refine (hs.ensures_rowValue fuel p).bind ?_
  rintro _ s ⟨rfl, rfl⟩
  rw [ensures_bind, ensures_active, hs.active]
  rintro _ ⟨⟩
  rw [ensures_bind, ensures_graph]
  dsimp only
  rw [requestOver?_source hs, Option.getD_some]
  split
  · refine ensures_pure.2 ⟨rfl, ?_⟩
    rw [hs.clauses.members]
    exact keysAt_zip hs.clauses.groups
  · exact ensures_reject

/-- The key of a grouping by one member. -/
lemma made_key {column : String} {member : Option PropertyRef} (hkeys : K.keys = [(column, member)])
    (fuel : Nat) (e : Expr) (p : Param) :
    Ensures (key (visit [] fuel) e (.param p)) s (Made s (.column [] column)) := by
  refine (hs.ensures_groupingKeys fuel e p).bind ?_
  rintro entries _ ⟨rfl, hentries⟩
  rw [KeysAt, hkeys] at hentries
  obtain ⟨⟨n, q⟩, rest, ⟨hn, -⟩, hrest, rfl⟩ := List.forall₂_cons_left_iff.1 hentries
  rw [List.forall₂_nil_left_iff.1 hrest]
  exact made_of_gives (makes_duplicate (f := .column [] column) ⟨rfl, hn⟩ e)

/-- A member of the key of a grouping. -/
lemma made_keyMember {k : String × Option PropertyRef} {q : PropertyRef}
    (hk : K.keys.find? (fun k => k.2.any (·.same q)) = some k) (fuel : Nat) (e : Expr) (p : Param) :
    Ensures (keyMember (visit [] fuel) e (.param p) q) s (Made s (.column [] k.1)) := by
  have hfind : ∀ (keys : GroupKeys) entries, KeysAt s.graph keys entries →
      keys.find? (fun k => k.2.any (·.same q)) = some k →
      ∃ x, entries.find? (fun k => k.2.any (·.same q)) = some x ∧
        s.graph.Has x.1 (.column ⟨0⟩ k.1) := by
    intro keys entries h
    induction h with
    | nil => exact nofun
    | @cons k' x keys entries hx _ ih =>
      intro hk
      rw [List.find?_cons] at hk ⊢
      rw [hx.2]
      split at hk
      · exact ⟨x, rfl, by cases hk; exact hx.1⟩
      · exact ih hk
  refine (hs.ensures_groupingKeys fuel e p).bind ?_
  rintro entries _ ⟨rfl, hentries⟩
  obtain ⟨⟨n, member⟩, hx, hn⟩ := hfind _ _ hentries hk
  rw [hx]
  exact made_of_gives (makes_duplicate (f := .column [] k.1) ⟨rfl, hn⟩ e)

end Keys

/-! ### Aggregates over a grouping -/

section Aggregates

variable (hs : Alone m entity K V s) {x : Param} {body : Expr}
  (hbody : body.isScalar (Expr.rowLeaf m.catalog entity x) = true)
include hs hbody

/-- An aggregate of a value over the rows of a group; a count is one of the tests that hold. -/
lemma made_aggregate (fuel : Nat) (e : Expr) (op : UnaryOp) (p : Param) :
    Ensures (aggregateGrouping (visit [] fuel) e op (.param p) (some (.lambda [x] body))) s
      (Made s (Expr.aggregated op (body.written (Expr.rowLeaf m.catalog entity x) m.catalog))) := by
  have hfunction : ∀ {f n t}, Appends s t → f.At t.graph ⟨0⟩ n →
      Ensures (Meaning.value <$> add (.unary op (some n))) t (Made s (.unary op (some f))) :=
    fun ht hn => made_of_gives (makes_add ht fun _ _ hg hk => ⟨_, hk, hn.later hg⟩)
  refine (hs.ensures_rowValue fuel p).bind ?_
  rintro _ s ⟨rfl, rfl⟩
  rw [ensures_bind, ensures_active, hs.active]
  rintro _ ⟨⟩
  rw [ensures_bind, ensures_graph]
  dsimp only
  rw [requestOver?_source hs, Option.getD_some, Expr.aggregated]
  have hrow := compiles_row (K := K) (V := V) hbody fuel
  by_cases hop : op = .count
  · subst hop
    rw [if_pos rfl]
    refine (makes_innerTest hs hrow e x).bind fun i t ⟨ht, hi⟩ => ?_
    refine (makes_const (.int 1)).bind fun j u ⟨hu, hj⟩ => ?_
    refine (makes_const .null).bind fun k v ⟨hv, hk⟩ => ?_
    have hi := (hi.later hu.graph).later hv.graph
    have hbase := (ht.trans hu).trans hv
    refine (makes_add (s := s) (f := .cond _ (.const (.int 1)) (.const .null)) hbase ?_).bind
      fun n w ⟨hw, hn⟩ => hfunction hw hn
    intro g n hg hn
    exact ⟨i, j, k, hn, hi.later hg, (Fragment.At.later hv.graph hj).later hg, Fragment.At.later hg hk⟩
  · rw [if_neg hop]
    have hselect := (makes_selector hs hrow e x).bind fun n t ⟨ht, hn⟩ => hfunction ht hn
    cases op with
    | count => exact absurd rfl hop
    | _ => exact hselect

end Aggregates

/-! ### Expressions over groups -/

/-- The number of rows of a group. -/
lemma made_count (hs : Alone m entity K V s) (fuel : Nat) (e : Expr) (p : Param) :
    Ensures (aggregateGrouping (visit [] fuel) e .count (.param p) none) s
      (Made s (.unary .count none)) := by
  refine (hs.ensures_rowValue fuel p).bind ?_
  rintro _ s ⟨rfl, rfl⟩
  rw [ensures_bind, ensures_active, hs.active]
  rintro _ ⟨⟩
  rw [ensures_bind, ensures_graph]
  exact made_of_gives (makes_add (.refl s) fun _ _ _ hn => hn)

/-- The leaves over groups. -/
lemma compiles_groupLeaf (g : Param) (fuel : Nat) (e : Expr) (f : Fragment)
    (h : Expr.groupLeaf m.catalog entity K.keys g e = some f) :
    Compiles m entity K V (visit [] fuel) e f := by
  intro s hs
  cases fuel with
  | zero => exact ensures_reject
  | succ fuel =>
    change Ensures (step (visit [] fuel) e) s _
    -- an aggregate over a grouping is a call of its method
    have haggregate : ∀ method op args, Method.aggregateOp? method = some op →
        args.head? = some (.param g) → g.type.isGrouping = true →
        Ensures (aggregateGrouping (visit [] fuel) (.call method args) op (.param g) args[1]?) s
          (Made s f) → Ensures (step (visit [] fuel) (.call method args)) s (Made s f) := by
      intro method op args hop hhead hgrouping hrun
      obtain ⟨rest, rfl⟩ : ∃ rest, args = .param g :: rest := by
        cases args with
        | nil => cases hhead
        | cons arg rest => exact ⟨rest, by cases hhead; rfl⟩
      have hcall : Ensures (aggregate (visit [] fuel) (.call method (.param g :: rest)) op (.param g)
          (.param g :: rest)) s (Made s f) := by
        rw [aggregate]
        have htype : (Expr.param g).type.isGrouping = true := hgrouping
        simp only [htype, if_true]
        exact hrun
      cases method <;> cases hop <;> exact hcall
    unfold Expr.groupLeaf at h
    split at h
    · next q =>
      split at h
      · next column member hkeys =>
        split at h
        · cases h
          exact made_key hs hkeys fuel _ q
        · cases h
      · cases h
    · next q p =>
      split at h
      · obtain ⟨k, hk, rfl⟩ := Option.map_eq_some_iff.1 h
        exact made_keyMember hs hk fuel _ q
      · cases h
    · next method q =>
      split at h
      · next hq =>
        obtain ⟨rfl, hgrouping, hop⟩ := hq
        cases h
        exact haggregate method .count _ hop rfl hgrouping (made_count hs fuel _ q)
      · cases h
    · next method q x body =>
      split at h
      · next op hop =>
        split at h
        · next hq =>
          obtain ⟨rfl, hgrouping, hbody⟩ := hq
          cases h
          exact haggregate method op _ hop rfl hgrouping (made_aggregate hs hbody fuel _ op q)
        · cases h
      · cases h
    · cases h

/-- **Scalar expressions over groups.** -/
theorem compiles_group {g : Param} {e : Expr}
    (he : e.isScalar (Expr.groupLeaf m.catalog entity K.keys g) = true) (fuel : Nat) :
    Compiles m entity K V (visit [] fuel) e
      (e.written (Expr.groupLeaf m.catalog entity K.keys g) m.catalog) :=
  compiles_visit (compiles_groupLeaf g) fuel e he

end EntityQuery.Compile
