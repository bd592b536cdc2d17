import EntityQuery.Proofs.Chains.Leaves
import EntityQuery.Proofs.Nesting.Shape

/-!
What one operator of a chain does to the request.

* `Clauses.add` is what a further operator asks for, after what the operators before it ask for.
* `Ranged K q`: whenever an expression is compiled from the start, its request stands for `K`. There is
  one lemma for sources, one for groupings and `Ranged.link` for every other operator.
-/

namespace EntityQuery

open Sql

/-! ### Clauses, one operator after another -/

namespace Clauses

/-- A further test, on rows or on groups. -/
def restrict (K : Clauses) (f : Fragment) : Clauses :=
  if K.keys.isEmpty then { K with tests := K.tests ++ [f] }
  else { K with groupTests := K.groupTests ++ [f] }

/-- A further key to sort by. -/
def sort (K : Clauses) (key : Bool × Bool × Fragment) : Clauses :=
  { K with orders := (if key.1 then [] else K.orders) ++ [key.2] }

/-- Further keys to group by. -/
def group (K : Clauses) (keys : GroupKeys) : Clauses := { K with keys := K.keys ++ keys }

@[simp] lemma keys_group (K : Clauses) (keys : GroupKeys) : (K.group keys).keys = K.keys ++ keys := rfl

/-- What a further operator asks for. -/
def add (value : Param → Expr → Fragment) (K : Clauses) : Link → Clauses
  | .filter p test => K.restrict (value p test).asCondition
  | .skip count => { K with skip := some count.toInt.toNat }
  | .take count => { K with take := some count.toInt.toNat }
  | .first => { K with take := some 1 }
  | .firstOf p test => { K.restrict (value p test).asCondition with take := some 1 }
  | .distinct => { K with distinct := true }
  | .order m p key =>
    K.sort (m = .orderBy || m = .orderByDescending, m = .orderBy || m = .thenBy, value p key)
  | .hint _ _ => K

@[simp] lemma keys_restrict (K : Clauses) (f : Fragment) : (K.restrict f).keys = K.keys := by
  unfold restrict
  split <;> rfl

@[simp] lemma keys_add (value : Param → Expr → Fragment) (K : Clauses) (l : Link) :
    (K.add value l).keys = K.keys := by
  cases l <;> simp [add, sort]

end Clauses

namespace Fragment

/-- A condition after those before it. -/
def conjoin : Option Fragment → Fragment → Fragment
  | none, f => f
  | some g, f => .binary .and g f

lemma conjunction?_concat (fs : List Fragment) (f : Fragment) :
    conjunction? (fs ++ [f]) = some (conjoin (conjunction? fs) f) := by
  cases fs with
  | nil => rfl
  | cons g fs => simp [conjunction?, conjoin, List.foldl_append]

end Fragment

namespace Compile

open Graph

variable {m : Mapping} {entity : String} {K K' : Clauses} {V : Selection} {s t : CompileState}
  {f : Fragment} {n : NodeId}

/-! ### Changes of the request -/

/-- The request gets other clauses. -/
lemma Alone.change (hs : Alone m entity K V s) {g : Graph} (hkeys : K.keys ≠ [] → K'.keys ≠ [])
    (hgraph : s.graph.Extends g) (hsingle : g.requests.size = 1) (haliases : g.aliases = s.graph.aliases)
    (hitems : (g.request ⟨0⟩).items = (s.graph.request ⟨0⟩).items)
    (hK : K'.At g ⟨0⟩ (g.request ⟨0⟩)) : Alone m entity K' V { s with graph := g } := by
  have halias : g.aliasOf ⟨0⟩ = s.graph.aliasOf ⟨0⟩ := by rw [aliasOf, haliases, aliasOf]
  refine ⟨hs.mapping, hs.own, hs.held, hs.active, hs.computed.later hgraph, hsingle, ?_, ?_, ?_,
    hs.grouped.imp_left hkeys, ?_, hK⟩
  · rw [haliases]
    exact hs.sole
  · rw [halias]
    exact hs.row
  · rw [halias]
    exact hs.source
  · rw [hitems]
    exact hs.items.imp fun _ _ hi => hi.later hgraph

/-- A node becomes part of the request, of which a clause changes. -/
lemma Alone.attach (hs : Alone m entity K V s) (n : NodeId) {change : Request → Request}
    (hkeys : K.keys ≠ [] → K'.keys ≠ []) (hitems : ∀ q, (change q).items = q.items)
    (hK : ∀ q, K.At s.graph ⟨0⟩ q → K'.At s.graph ⟨0⟩ (change q)) :
    Alone m entity K' V { s with graph := (s.graph.attach ⟨0⟩ n).modifyRequest ⟨0⟩ change } := by
  have hlt : (⟨0⟩ : RequestId).index < (s.graph.attach ⟨0⟩ n).requests.size := by
    rw [requests_attach, hs.single]
    exact Nat.zero_lt_one
  have hgraph : s.graph.Extends ((s.graph.attach ⟨0⟩ n).modifyRequest ⟨0⟩ change) :=
    Extends.trans (Kept.attach [⟨0⟩] [] s.graph ⟨0⟩ n).extension
      (Kept.modifyRequest (A := []) _ (List.mem_singleton_self (⟨0⟩ : RequestId)) change).extension
  have hrequest := request_modifyRequest_self (s.graph.attach ⟨0⟩ n) change hlt
  refine hs.change hkeys hgraph ?_ rfl ?_ ?_
  · rw [size_requests_modifyRequest, requests_attach, hs.single]
  · rw [hrequest, hitems]
    rfl
  · rw [hrequest]
    exact (hK _ hs.clauses).later hgraph

/-- A clause of the request changes. -/
lemma Alone.alter (hs : Alone m entity K V s) {change : Request → Request}
    (hkeys : K.keys ≠ [] → K'.keys ≠ []) (hitems : ∀ q, (change q).items = q.items)
    (hK : ∀ q, K.At s.graph ⟨0⟩ q → K'.At s.graph ⟨0⟩ (change q)) :
    Alone m entity K' V { s with graph := s.graph.modifyRequest ⟨0⟩ change } := by
  have hgraph : s.graph.Extends (s.graph.modifyRequest ⟨0⟩ change) :=
    (Kept.modifyRequest (A := []) _ (List.mem_singleton_self (⟨0⟩ : RequestId)) change).extension
  have hlt : (⟨0⟩ : RequestId).index < s.graph.requests.size := by
    rw [hs.single]
    exact Nat.zero_lt_one
  have hrequest := request_modifyRequest_self s.graph change hlt
  refine hs.change hkeys hgraph ?_ rfl ?_ ?_
  · rw [size_requests_modifyRequest, hs.single]
  · rw [hrequest, hitems]
  · rw [hrequest]
    exact (hK _ hs.clauses).later hgraph

/-- A condition joins those before it. -/
lemma conjoin_at {F : Option Fragment} {old : Option NodeId}
    (hold : Fragment.MaybeAt s.graph ⟨0⟩ F old) (hn : f.At s.graph ⟨0⟩ n) :
    Appends s { s with graph := (s.graph.conjoin old n).2 } ∧
      (Fragment.conjoin F f).At (s.graph.conjoin old n).2 ⟨0⟩ (s.graph.conjoin old n).1 := by
  rcases F with _ | g <;> rcases old with _ | k
  · exact ⟨.refl s, hn⟩
  · exact hold.elim
  · exact hold.elim
  · have hadd := extends_add s.graph (.binary .and k n)
    exact ⟨.add s _, k, n, has_add _ _, Fragment.At.later hadd hold, hn.later hadd⟩

/-- **A restriction** is a test on rows, or on groups once the rows are grouped. -/
lemma Alone.ensures_restrict (hs : Alone m entity K V s) (hn : f.At s.graph ⟨0⟩ n) :
    Ensures (restrict ⟨0⟩ n) s fun _ t => Alone m entity (K.restrict f) V t := by
  have hclauses := hs.clauses
  rw [restrict, ensures_bind, ensures_request, hs.isGrouped, Clauses.restrict]
  cases hkeys : K.keys.isEmpty with
  | true =>
    obtain ⟨hadds, hm⟩ := conjoin_at hclauses.filter hn
    rw [if_neg (by simp), if_pos rfl, ensures_edit]
    refine (hs.appends hadds).attach _ id (fun _ => rfl) fun q hq => { hq with filter := ?_ }
    rw [Fragment.conjunction?_concat]
    exact hm
  | false =>
    obtain ⟨hadds, hm⟩ := conjoin_at hclauses.having hn
    rw [if_pos (by simp), if_neg (by simp), ensures_edit]
    refine (hs.appends hadds).attach _ id (fun _ => rfl) fun q hq => { hq with having := ?_ }
    rw [Fragment.conjunction?_concat]
    exact hm

/-! ### Receivers -/

/-- Whenever an expression is compiled from the start, its request is the only one and stands for what a
chain asks for and shows. -/
def Ranged (m : Mapping) (entity : String) (K : Clauses) (V : Selection) (q : Expr) : Prop :=
  ∀ fuel, Ensures (visit [] fuel q) { mapping := m } fun x t => x = .query ⟨0⟩ ∧ Alone m entity K V t

variable {q : Expr}

/-- The steps of an operator after its receiver. -/
lemma Ranged.receiver (h : Ranged m entity K V q) {α : Type} {fuel : Nat} (e : Expr)
    {rest : RequestId → Compile α} {Q : α → CompileState → Prop}
    (hrest : ∀ s, Alone m entity K V s → Ensures (rest ⟨0⟩) s Q) :
    Ensures (receiver (visit [] fuel) e q >>= rest) { mapping := m } Q := by
  rw [Compile.receiver, bind_assoc]
  refine (h fuel).bind ?_
  rintro _ s ⟨rfl, hs⟩
  rw [pure_bind]
  exact hrest s hs

/-- The steps of an operator after its receiver has been made active. -/
lemma Ranged.openReceiver (h : Ranged m entity K V q) {V' : Selection} {fuel : Nat} (e : Expr)
    {rest : RequestId → Compile Meaning}
    (hrest : ∀ s, Alone m entity K V s →
      Ensures (rest ⟨0⟩) s fun x t => x = .query ⟨0⟩ ∧ Alone m entity K' V' t) :
    Ensures (openReceiver (visit [] fuel) e q >>= rest) { mapping := m } fun x t =>
      x = .query ⟨0⟩ ∧ Alone m entity K' V' t := by
  rw [Compile.openReceiver, bind_assoc]
  refine h.receiver e fun s hs => ?_
  rw [bind_assoc, ensures_bind, ensures_setActive, ← hs.active]
  exact hrest s hs

/-- The rows of an entity, as they are. -/
lemma ranged_source {m : Mapping} {entity : String} (hm : Unregistered m entity) :
    Ranged m entity {} {} (.source entity) := by
  rintro (_ | fuel)
  · exact ensures_reject
  change Ensures (source entity) _ _
  refine ensures_source_iff.2 fun table htable => ⟨rfl, ⟨_, rfl⟩, fun p hp => ⟨hm p hp, rfl, rfl⟩,
    fun _ hp => absurd hp Bool.false_ne_true, rfl, .nil, rfl, rfl, rfl,
    ⟨table, htable, rfl⟩, .inr rfl, .nil, ?_⟩
  exact ⟨rfl, rfl, rfl, rfl, trivial, trivial, .nil, rfl, .nil, rfl, rfl, rfl⟩

lemma argument_one (e x : Expr) : argument e [q, x] 1 = pure x := rfl

/-! ### Links -/

/-- A number of rows, as it is asked for. -/
lemma ensures_count (e : Expr) (count : Int64) {Q : Nat → CompileState → Prop}
    (h : Q count.toInt.toNat s) : Ensures (rowCount e (.const (.value (.int count)))) s Q := by
  rw [rowCount]
  split
  · exact ensures_reject
  · exact ensures_pure.2 h

/-- The last step of an operator changes a clause. -/
lemma Alone.ensures_editRequest (hs : Alone m entity K V s) {change : Request → Request}
    (hkeys : K.keys ≠ [] → K'.keys ≠ []) (hitems : ∀ q, (change q).items = q.items)
    (hK : ∀ q, K.At s.graph ⟨0⟩ q → K'.At s.graph ⟨0⟩ (change q)) :
    Ensures (do
      editRequest ⟨0⟩ change
      return Meaning.query ⟨0⟩) s fun x t => x = .query ⟨0⟩ ∧ Alone m entity K' V t := by
  rw [ensures_bind, Compile.ensures_editRequest]
  exact ensures_pure.2 ⟨rfl, hs.alter hkeys hitems hK⟩

namespace Ranged

variable (h : Ranged m entity K V q)
include h

lemma skip (count : Int64) :
    Ranged m entity { K with skip := some count.toInt.toNat } V ((Link.skip count).expr q) := by
  rintro (_ | fuel)
  · exact ensures_reject
  change Ensures (Compile.skip (visit [] fuel) _ q [q, .const (.value (.int count))]) _ _
  rw [Compile.skip]
  simp only [argument_one, pure_bind]
  refine h.openReceiver _ fun s hs => ensures_bind.2 (ensures_count _ count ?_)
  exact hs.ensures_editRequest id (fun _ => rfl) fun q hq => { hq with skip := rfl }

lemma take (count : Int64) :
    Ranged m entity { K with take := some count.toInt.toNat } V ((Link.take count).expr q) := by
  rintro (_ | fuel)
  · exact ensures_reject
  change Ensures (Compile.take (visit [] fuel) _ q [q, .const (.value (.int count))]) _ _
  rw [Compile.take]
  simp only [argument_one, pure_bind]
  refine h.openReceiver _ fun s hs => ensures_bind.2 (ensures_count _ count ?_)
  exact hs.ensures_editRequest id (fun _ => rfl) fun q hq => { hq with take := rfl }

lemma first : Ranged m entity { K with take := some 1 } V (Link.first.expr q) := by
  rintro (_ | fuel)
  · exact ensures_reject
  change Ensures (Compile.first (visit [] fuel) _ q [q]) _ _
  refine h.openReceiver _ fun s hs => ?_
  exact hs.ensures_editRequest id (fun _ => rfl) fun q hq => { hq with take := rfl }

lemma distinct : Ranged m entity { K with distinct := true } V (Link.distinct.expr q) := by
  rintro (_ | fuel)
  · exact ensures_reject
  change Ensures (Compile.distinct (visit [] fuel) _ q) _ _
  refine h.openReceiver _ fun s hs => ?_
  exact hs.ensures_editRequest id (fun _ => rfl) fun q hq => { hq with distinct := rfl }

/-- A loading hint is kept for its receiver and changes nothing in the request. -/
lemma hint (method : Method) (path : Expr) (hmethod : method.isLoadingHint = true) :
    Ranged m entity K V ((Link.hint method path).expr q) := by
  rintro (_ | fuel)
  · exact ensures_reject
  have hkeep : ∀ e, Ensures (Compile.hint (visit [] fuel) e method q [q, path]) { mapping := m }
      fun x t => x = .query ⟨0⟩ ∧ Alone m entity K V t := by
    intro e
    rw [Compile.hint, argument_one, pure_bind]
    split
    · refine (ensures_hintPath e _).bind ?_
      rintro members _ rfl
      split
      · exact ensures_reject
      · refine (h fuel).bind ?_
        rintro _ t ⟨rfl, ht⟩
        rw [ensures_bind, ensures_modify]
        exact ensures_pure.2 ⟨rfl, { ht with }⟩
    · exact ensures_reject
  cases method with
  | eagerLoad => exact hkeep _
  | lazyLoad => exact hkeep _
  | batchLazyLoad => exact hkeep _
  | dontLoad => exact hkeep _
  | _ => cases hmethod

section Lambdas

variable {test : Expr} {p : Param}
  (hf : ∀ {K' : Clauses}, K'.keys = K.keys → ∀ fuel, Compiles m entity K' V (visit [] fuel) test f)
include hf

omit h in
/-- A test restricts the request. -/
lemma ensures_test (hs : Alone m entity K V s) (fuel : Nat) (e : Expr) {rest : Compile Meaning}
    {Q : Meaning → CompileState → Prop}
    (hrest : ∀ t, Alone m entity (K.restrict f.asCondition) V t → Ensures rest t Q) :
    Ensures (do
      let n ← predicate (visit [] fuel) e ⟨0⟩ (.lambda [p] test)
      restrict ⟨0⟩ n
      rest) s Q := by
  refine (makes_predicate hs (hf rfl fuel) e p).bind fun n t ⟨ht, hn⟩ => ?_
  exact ((hs.appends ht).ensures_restrict hn).bind fun _ u hu => hrest u hu

lemma filter : Ranged m entity (K.restrict f.asCondition) V ((Link.filter p test).expr q) := by
  rintro (_ | fuel)
  · exact ensures_reject
  change Ensures (Compile.filter (visit [] fuel) _ q [q, .lambda [p] test]) _ _
  rw [Compile.filter]
  simp only [argument_one, pure_bind]
  refine h.openReceiver _ fun s hs => ?_
  exact ensures_test hf hs fuel _ fun t ht => ensures_pure.2 ⟨rfl, ht⟩

lemma firstOf :
    Ranged m entity { K.restrict f.asCondition with take := some 1 } V
      ((Link.firstOf p test).expr q) := by
  rintro (_ | fuel)
  · exact ensures_reject
  change Ensures (Compile.first (visit [] fuel) _ q [q, .lambda [p] test]) _ _
  rw [Compile.first]
  simp only [List.getElem?_cons_succ, List.getElem?_cons_zero]
  refine h.openReceiver _ fun s hs => ?_
  refine ensures_test hf hs fuel _ fun t ht => ?_
  exact ht.ensures_editRequest id (fun _ => rfl) fun q hq => { hq with take := rfl }

/-- A key to sort by comes after those before it, or in place of them. -/
lemma order (method : Method) (hmethod : method.isOrdering = true) :
    Ranged m entity (K.sort (method = .orderBy || method = .orderByDescending,
      method = .orderBy || method = .thenBy, f)) V ((Link.order method p test).expr q) := by
  rintro (_ | fuel)
  · exact ensures_reject
  have hpush : ∀ {K' : Clauses} {s} e ascending, Alone m entity K' V s → K'.keys = K.keys →
      Ensures (do
        let body ← enter e ⟨0⟩ (.lambda [p] test)
        let n ← value (visit [] fuel) body
        edit (·.pushOrder ⟨0⟩ n ascending)
        return Meaning.query ⟨0⟩) s fun x t =>
          x = .query ⟨0⟩ ∧ Alone m entity { K' with orders := K'.orders ++ [(ascending, f)] } V t := by
    intro K' s e ascending hs hkeys
    rw [← bind_assoc]
    refine (makes_lambda hs (hf hkeys fuel) e p).bind fun n t ⟨ht, hn⟩ => ?_
    rw [ensures_bind, ensures_edit]
    refine ensures_pure.2 ⟨rfl, (hs.appends ht).attach n id (fun _ => rfl) fun q hq => ?_⟩
    exact { hq with orders := List.rel_append hq.orders (.cons ⟨rfl, hn⟩ .nil) }
  have horder : ∀ e restart ascending,
      Ensures (Compile.order (visit [] fuel) e restart ascending q [q, .lambda [p] test])
        { mapping := m } fun x t =>
          x = .query ⟨0⟩ ∧ Alone m entity (K.sort (restart, ascending, f)) V t := by
    intro e restart ascending
    rw [Compile.order]
    simp only [argument_one, pure_bind]
    refine h.openReceiver _ fun s hs => ?_
    cases restart with
    | false => exact hpush e ascending hs rfl
    | true =>
      rw [if_pos rfl, ensures_bind, Compile.ensures_editRequest]
      have hcleared : Alone m entity { K with orders := [] } V
          { s with graph := s.graph.modifyRequest ⟨0⟩ ({ · with orders := [] }) } :=
        hs.alter id (fun _ => rfl) fun q hq => { hq with orders := .nil }
      exact hpush e ascending hcleared rfl
  cases method with
  | orderBy => exact horder _ true true
  | orderByDescending => exact horder _ true false
  | thenBy => exact horder _ false true
  | thenByDescending => exact horder _ false false
  | _ => cases hmethod

end Lambdas

/-- **A further operator** on the rows or the groups of a request. -/
theorem link {leaf : Param → Expr → Option Fragment} {value : Param → Expr → Fragment}
    (hvalue : ∀ {K' : Clauses}, K'.keys = K.keys → ∀ {p e}, e.isScalar (leaf p) = true →
      ∀ fuel, Compiles m entity K' V (visit [] fuel) e (value p e))
    {l : Link} (hl : l.fits leaf = true) : Ranged m entity (K.add value l) V (l.expr q) := by
  cases l with
  | filter p test => exact h.filter fun hkeys => hvalue hkeys hl
  | skip count => exact h.skip count
  | take count => exact h.take count
  | first => exact h.first
  | firstOf p test => exact h.firstOf fun hkeys => hvalue hkeys hl
  | distinct => exact h.distinct
  | order method p key =>
    obtain ⟨hmethod, hkey⟩ := Bool.and_eq_true_iff.1 hl
    exact h.order (fun hkeys => hvalue hkeys hkey) method hmethod
  | hint method path => exact h.hint method path hl

end Ranged

/-! ### Groupings -/

/-- A member is mapped by its owner and its name. -/
lemma ownColumn?_of_same (c : Catalog) {p q : PropertyRef} (h : p.same q = true) :
    c.ownColumn? entity p = c.ownColumn? entity q := by
  obtain ⟨owner, name, type⟩ := p
  obtain ⟨owner', name', type'⟩ := q
  simp only [PropertyRef.same, Bool.and_eq_true, beq_iff_eq] at h
  obtain ⟨rfl, rfl⟩ := h
  rfl

section Grouping

variable (hs : Alone m entity K {} s)
include hs

/-- A member that is no other scalar member of the rows may be read from one. -/
lemma Alone.ensures_setPath {p q : PropertyRef}
    (hp : q.same p = true ∨ m.catalog.ownColumn? entity p = none) :
    Ensures (setPath p [q]) s fun _ t => Alone m entity K {} t := by
  have hrecord : m.catalog.ownColumn? entity p = none →
      Ensures (setPath.record p [q]) s fun _ t => Alone m entity K {} t := by
    intro hp
    refine ensures_modify.2 { hs with own := fun o ho => ?_, held := nofun, computed := ?_ }
    · obtain ⟨hfree, hvalues, hpaths⟩ := hs.own o ho
      refine ⟨hfree, hvalues, PropertyTable.find?_insert_eq_none hpaths ?_ _⟩
      by_contra hsame
      rw [Bool.not_eq_false] at hsame
      rw [← ownColumn?_of_same _ hsame, hp] at ho
      cases ho
    · change Holds s.graph [] (s.computed.erase p)
      rw [List.forall₂_nil_left_iff.1 hs.computed]
      exact .nil
  rw [setPath]
  split
  · exact ensures_pure.2 hs
  · next hsame => exact hrecord (hp.resolve_left hsame)

lemma Alone.ensures_pushGroup {column : String} (hn : Fragment.At s.graph ⟨0⟩ (.column [] column) n)
    (member : Option PropertyRef) : Ensures (edit (·.pushGroup ⟨0⟩ n member)) s fun _ t =>
      Alone m entity (K.group [(column, member)]) {} t := by
  refine ensures_edit.2 (hs.attach n (by simp) (fun _ => rfl) fun q hq => ?_)
  refine { hq with groups := List.rel_append hq.groups (.cons hn.2 .nil), members := ?_ }
  rw [Clauses.group, List.map_append, ← hq.members]
  rfl

/-- A key to group by. -/
lemma Alone.ensures_groupKey {key : PropertyRef} {column : String}
    (hkey : m.catalog.ownColumn? entity key = some column) (fuel : Nat) (p : Param)
    (member : Option PropertyRef) : Ensures (do
      let n ← value (visit [] fuel) (.member (.param p) key)
      edit (·.pushGroup ⟨0⟩ n member)) s fun _ t =>
        Alone m entity (K.group [(column, member)]) {} t := by
  have hleaf : Expr.rowLeaf m.catalog entity p (.member (.param p) key) = some (.column [] column) := by
    rw [Expr.rowLeaf, if_pos rfl, hkey]
    rfl
  refine (makes_value (compiles_rowLeaf p fuel _ _ hleaf) hs).bind fun n t ⟨ht, hn⟩ => ?_
  exact (hs.appends ht).ensures_pushGroup hn member

omit hs in
/-- The members of a composite key, one after another. -/
lemma ensures_groupMembers (fuel : Nat) (p : Param) (members : List (PropertyRef × PropertyRef))
    (hmembers : ∀ k ∈ members, (m.catalog.ownColumn? entity k.2).isSome = true ∧
      (k.2.same k.1 = true ∨ m.catalog.ownColumn? entity k.1 = none)) :
    ∀ {K s}, Alone m entity K {} s →
      Ensures ((members.map fun k => (k.1, Expr.member (.param p) k.2)).forM
        (groupMember (visit [] fuel) ⟨0⟩)) s fun _ t => Alone m entity
          (K.group (members.map fun k => ((m.catalog.ownColumn? entity k.2).getD "", some k.1)))
          {} t := by
  induction members with
  | nil =>
    intro K s hs
    refine ensures_pure.2 ?_
    rw [List.map_nil, Clauses.group, List.append_nil]
    exact hs
  | cons k members ih =>
    intro K s hs
    obtain ⟨hcolumn, hfree⟩ := hmembers k List.mem_cons_self
    obtain ⟨column, hcolumn⟩ := Option.isSome_iff_exists.1 hcolumn
    have hfirst : Ensures (groupMember (visit [] fuel) ⟨0⟩ (k.1, .member (.param p) k.2)) s fun _ t =>
        Alone m entity (K.group [(column, some k.1)]) {} t :=
      (hs.ensures_setPath hfree).bind fun _ t ht => ht.ensures_groupKey hcolumn fuel p (some k.1)
    refine hfirst.bind fun _ t ht => ?_
    refine (ih (fun k' hk' => hmembers k' (List.mem_cons_of_mem _ hk')) ht).mono fun _ u hu => ?_
    rw [List.map_cons, hcolumn, Option.getD_some]
    rw [Clauses.group, Clauses.group, List.append_assoc] at hu
    exact hu

end Grouping

/-- **A grouping** of rows. -/
theorem Ranged.group (h : Ranged m entity K {} q) {g : Grouping}
    (hg : g.fits m.catalog entity = true) :
    Ranged m entity (K.group (g.keys m.catalog entity)) {} (g.expr q) := by
  obtain ⟨-, hg⟩ := Bool.and_eq_true_iff.1 hg
  have hproject : ∀ {K' s} e, Alone m entity K' {} s → Ensures (do
      editRequest ⟨0⟩ ({ · with projection := some (Expr.elementType e) })
      return Meaning.query ⟨0⟩) s fun x t => x = .query ⟨0⟩ ∧ Alone m entity K' {} t :=
    fun e hs => hs.ensures_editRequest id (fun _ => rfl) fun q hq => { hq with }
  rintro (_ | fuel)
  · exact ensures_reject
  cases g with
  | single p key =>
    change Ensures (Compile.groupBy (visit [] fuel) _ q [q, .lambda [p] (.member (.param p) key)]) _ _
    rw [Compile.groupBy]
    simp only [argument_one, pure_bind]
    refine h.openReceiver _ fun s hs => ?_
    refine (hs.ensures_enter _ _ p).bind ?_
    rintro _ t ⟨rfl, ht⟩
    obtain ⟨column, hcolumn⟩ : ∃ column, m.catalog.ownColumn? entity key = some column := by
      simpa [Grouping.members, Option.isSome_iff_exists] using hg
    have hkeys : Grouping.keys m.catalog entity (.single p key) = [(column, none)] := by
      rw [Grouping.keys, Grouping.members, List.map_singleton, hcolumn, Option.getD_some]
    rw [hkeys]
    dsimp only
    have hgroup := (hs.appends ht).ensures_groupKey hcolumn fuel p none
    rw [ensures_bind] at hgroup ⊢
    exact hgroup.mono fun _ _ hpush => hpush.bind fun _ u hu => hproject _ hu
  | composite p type members =>
    change Ensures (Compile.groupBy (visit [] fuel) _ q [q, .lambda [p] (.new type _)]) _ _
    rw [Compile.groupBy]
    simp only [argument_one, pure_bind]
    refine h.openReceiver _ fun s hs => ?_
    refine (hs.ensures_enter _ _ p).bind ?_
    rintro _ t ⟨rfl, ht⟩
    dsimp only
    have hmembers : ∀ k ∈ members, (m.catalog.ownColumn? entity k.2).isSome = true ∧
        (k.2.same k.1 = true ∨ m.catalog.ownColumn? entity k.1 = none) := by
      simpa [Grouping.members] using hg
    have hkeys : Grouping.keys m.catalog entity (.composite p type members) =
        members.map fun k => ((m.catalog.ownColumn? entity k.2).getD "", some k.1) := by
      rw [Grouping.keys, Grouping.members, List.map_map]
      rfl
    rw [hkeys]
    refine (ensures_groupMembers fuel p members hmembers (hs.appends ht)).bind fun _ u hu => ?_
    exact hproject _ hu

end Compile

end EntityQuery
