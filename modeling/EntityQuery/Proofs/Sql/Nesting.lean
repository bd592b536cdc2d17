import EntityQuery.Sql.Reading
import Mathlib.Data.Finset.Card
import Mathlib.Data.Finset.Lattice.Fold
import Mathlib.Logic.Relation
import Mathlib.Order.Lattice.Nat
import Mathlib.Tactic.Ring

/-!
Nesting of requests, and readings of graphs in which no request is nested in itself.

* `Ordered`: the children of a node are older than the node; every graph that grows by `add` is.
* `Acyclic`: no request contains itself, through a value in one of its clauses or through a derived
  table.
* `readNode_eq`, `readRequest_eq`: on such a graph the bound and the list of requests above play no
  part, and a reading is what its rules say.
-/

namespace EntityQuery.Sql

/-- A node or a request. -/
inductive Part where
  | node (n : NodeId)
  | request (r : RequestId)

/-- The source that a node reads. -/
def Node.source? : Node → Option AliasId
  | .column a _ | .row a => some a
  | _ => none

namespace Node

/-- What holds of both operands holds of the nodes below a binary node. -/
lemma forall_children_binary {op : BinaryOp} {l r : NodeId} {P : NodeId → Prop} (hl : P l)
    (hr : P r) : ∀ c ∈ (Node.binary op l r).children, P c := by
  simp [children, hl, hr]

end Node

namespace Request

/-- The sources of a request and the table it writes. -/
def origins (q : Request) : List AliasId := q.sources ++ q.target.toList

lemma mem_clauseNodes {q : Request} {n : NodeId} :
    n ∈ q.clauseNodes ↔ (∃ j ∈ q.joins, j.condition = n) ∨ (∃ i ∈ q.items, i.node = n) ∨
      q.filter = some n ∨ q.having = some n ∨ n ∈ q.groups ∨ (∃ o ∈ q.orders, o.node = n) ∨
      ∃ a ∈ q.assignments, n = a.column ∨ n = a.value := by
  simp [clauseNodes]

section Clauses

variable {q : Request}

lemma condition_mem_clauseNodes {j : Join} (hj : j ∈ q.joins) : j.condition ∈ q.clauseNodes :=
  mem_clauseNodes.2 (.inl ⟨j, hj, rfl⟩)

lemma item_mem_clauseNodes {i : Item} (hi : i ∈ q.items) : i.node ∈ q.clauseNodes :=
  mem_clauseNodes.2 (.inr (.inl ⟨i, hi, rfl⟩))

lemma filter_mem_clauseNodes {n : NodeId} (hn : q.filter = some n) : n ∈ q.clauseNodes :=
  mem_clauseNodes.2 (.inr (.inr (.inl hn)))

lemma having_mem_clauseNodes {n : NodeId} (hn : q.having = some n) : n ∈ q.clauseNodes :=
  mem_clauseNodes.2 (.inr (.inr (.inr (.inl hn))))

lemma group_mem_clauseNodes {n : NodeId} (hn : n ∈ q.groups) : n ∈ q.clauseNodes :=
  mem_clauseNodes.2 (.inr (.inr (.inr (.inr (.inl hn)))))

lemma order_mem_clauseNodes {o : Order} (ho : o ∈ q.orders) : o.node ∈ q.clauseNodes :=
  mem_clauseNodes.2 (.inr (.inr (.inr (.inr (.inr (.inl ⟨o, ho, rfl⟩))))))

lemma value_mem_clauseNodes {a : Assignment} (ha : a ∈ q.assignments) : a.value ∈ q.clauseNodes :=
  mem_clauseNodes.2 (.inr (.inr (.inr (.inr (.inr (.inr ⟨a, ha, .inr rfl⟩))))))

end Clauses

lemma mem_clauseNodes_setFilter {q : Request} {n m : NodeId}
    (h : n ∈ { q with filter := some m }.clauseNodes) : n ∈ q.clauseNodes ∨ n = m := by
  simp only [clauseNodes, List.mem_append, Option.mem_toList, Option.some.injEq] at h ⊢
  tauto

lemma mem_clauseNodes_pushOrder {q : Request} {o : Order} {n : NodeId} :
    n ∈ { q with orders := q.orders ++ [o] }.clauseNodes ↔ n ∈ q.clauseNodes ∨ n = o.node := by
  simp only [clauseNodes, List.map_append, List.mem_append, List.map_cons, List.map_nil, List.mem_singleton]
  tauto

lemma mem_clauseNodes_pushAssignment {q : Request} {a : Assignment} {n : NodeId} :
    n ∈ { q with assignments := q.assignments ++ [a] }.clauseNodes ↔
      n ∈ q.clauseNodes ∨ n = a.column ∨ n = a.value := by
  simp only [clauseNodes, List.flatMap_append, List.mem_append, List.flatMap_cons, List.flatMap_nil,
    List.append_nil, List.mem_cons, List.not_mem_nil, or_false]
  tauto

lemma mem_origins {q : Request} {a : AliasId} :
    a ∈ q.origins ↔ q.base = some a ∨ (∃ j ∈ q.joins, j.source = a) ∨ q.target = some a := by
  simp [origins, sources]

end Request

namespace Graph

/-! ### Nesting -/

/-- Every node is younger than its children. -/
def Ordered (g : Graph) : Prop := ∀ n c, c ∈ (g.node n).children → c.index < n.index

/-- A node is another one or stands below it in the same value. -/
def Below (g : Graph) : NodeId → NodeId → Prop :=
  Relation.ReflTransGen fun n c => c ∈ (g.node n).children

/-- A request embeds another one: in a value of a clause, or as a derived table. -/
def Nests (g : Graph) (r s : RequestId) : Prop :=
  (∃ n ∈ (g.request r).clauseNodes, ∃ m, g.Below n m ∧ g.node m = .sub s) ∨
    ∃ a ∈ (g.request r).origins, (g.aliasOf a).origin = .request s

/-- No request is nested in itself. -/
def Acyclic (g : Graph) : Prop := ∀ r, ¬ Relation.TransGen g.Nests r r

/-- A part stands directly in another one. -/
inductive Holds (g : Graph) : Part → Part → Prop
  | child {n c : NodeId} (h : c ∈ (g.node n).children) : Holds g (.node n) (.node c)
  | sub {n : NodeId} {r : RequestId} (h : g.node n = .sub r) : Holds g (.node n) (.request r)
  | clause {r : RequestId} {n : NodeId} (h : n ∈ (g.request r).clauseNodes) :
      Holds g (.request r) (.node n)
  | source {r s : RequestId} {a : AliasId} (h : a ∈ (g.request r).origins)
      (hs : (g.aliasOf a).origin = .request s) : Holds g (.request r) (.request s)

/-! ### Handles outside the graph -/

lemma node_of_size_le {g : Graph} {n : NodeId} (h : g.entries.size ≤ n.index) :
    g.node n = .const .null := by
  simp [node, entry, Array.getD, Nat.not_lt.2 h]

lemma request_of_size_le {g : Graph} {r : RequestId} (h : g.requests.size ≤ r.index) :
    g.request r = {} := by
  simp [request, Array.getD, Nat.not_lt.2 h]

lemma aliasOf_of_size_le {g : Graph} {a : AliasId} (h : g.aliases.size ≤ a.index) :
    g.aliasOf a = { origin := .table "", entity := none, idColumn := none } := by
  simp [aliasOf, Array.getD, Nat.not_lt.2 h]

lemma lt_of_route_ne {g : Graph} {a : AliasId} (h : (g.aliasOf a).route ≠ .root) :
    a.index < g.aliases.size := by
  by_contra ha
  rw [aliasOf_of_size_le (Nat.not_lt.1 ha)] at h
  exact h rfl

lemma lt_of_node_ne {g : Graph} {n : NodeId} (h : g.node n ≠ .const .null) :
    n.index < g.entries.size := by
  by_contra hn
  exact h (node_of_size_le (Nat.not_lt.1 hn))

lemma lt_size_of_mem_children {g : Graph} {n c : NodeId} (h : c ∈ (g.node n).children) :
    n.index < g.entries.size := by
  by_contra hn
  rw [node_of_size_le (Nat.not_lt.1 hn)] at h
  simp [Node.children] at h

lemma lt_size_of_node_eq_sub {g : Graph} {n : NodeId} {r : RequestId} (h : g.node n = .sub r) :
    n.index < g.entries.size := by
  by_contra hn
  rw [node_of_size_le (Nat.not_lt.1 hn)] at h
  cases h

lemma lt_size_of_nests {g : Graph} {r s : RequestId} (h : g.Nests r s) :
    r.index < g.requests.size := by
  by_contra hr
  rw [Nests, request_of_size_le (Nat.not_lt.1 hr)] at h
  simp [Request.clauseNodes, Request.origins, Request.sources] at h

lemma Below.le {g : Graph} (ho : g.Ordered) {n m : NodeId} (h : g.Below n m) :
    m.index ≤ n.index := by
  induction h with
  | refl => exact le_rfl
  | tail _ hc ih => exact (ho _ _ hc).le.trans ih

lemma ordered_iff {g : Graph} :
    g.Ordered ↔ ∀ i < g.entries.size, ∀ c ∈ (g.node ⟨i⟩).children, c.index < i :=
  ⟨fun h i _ c hc => h ⟨i⟩ c hc, fun h n c hc => h n.index (lt_size_of_mem_children hc) c hc⟩

/-- Requests that are complete before they become a value are not nested in themselves, if no request
that may be nested is over a derived table. -/
theorem acyclic_of_nested_older {g : Graph} (ho : g.Ordered) {R : RequestId → Prop}
    (hnested : ∀ r s, g.Nests r s → R s)
    (hsub : ∀ m s, g.node m = .sub s → ∀ n ∈ (g.request s).clauseNodes, n.index < m.index)
    (htable : ∀ r, R r → ∀ a ∈ (g.request r).origins, ∀ s, (g.aliasOf a).origin ≠ .request s) :
    g.Acyclic := by
  -- a nested request has only clauses that are older than some clause of the request around it
  have hstep : ∀ r s, R r → g.Nests r s → ∃ n ∈ (g.request r).clauseNodes,
      ∀ c ∈ (g.request s).clauseNodes, c.index < n.index := by
    rintro r s hr (⟨n, hn, m, hb, hm⟩ | ⟨a, ha, hs⟩)
    · exact ⟨n, hn, fun c hc => (hsub m s hm c hc).trans_le (hb.le ho)⟩
    · exact absurd hs (htable r hr a ha s)
  have hpath : ∀ r s, Relation.TransGen g.Nests r s → R s ∧ (R r → ∃ n ∈ (g.request r).clauseNodes,
      ∀ c ∈ (g.request s).clauseNodes, c.index < n.index) := by
    intro r s h
    induction h with
    | single h => exact ⟨hnested _ _ h, fun hr => hstep _ _ hr h⟩
    | tail _ h ih =>
      refine ⟨hnested _ _ h, fun hr => ?_⟩
      obtain ⟨n, hn, hlt⟩ := ih.2 hr
      obtain ⟨m, hm, hlt'⟩ := hstep _ _ ih.1 h
      exact ⟨n, hn, fun c hc => (hlt' c hc).trans (hlt m hm)⟩
  intro r h
  obtain ⟨hr, hlt⟩ := hpath r r h
  obtain ⟨n, hn, hlt⟩ := hlt hr
  exact (hlt n hn).false

/-- Requests that are complete before they become a value are not nested in themselves. -/
theorem acyclic_of_older {g : Graph} (ho : g.Ordered)
    (hsub : ∀ m s, g.node m = .sub s → ∀ n ∈ (g.request s).clauseNodes, n.index < m.index)
    (htable : ∀ r, ∀ a ∈ (g.request r).origins, ∀ s, (g.aliasOf a).origin ≠ .request s) :
    g.Acyclic :=
  acyclic_of_nested_older (R := fun _ => True) ho (fun _ _ _ => trivial) hsub fun r _ => htable r

/-! ### Ranks -/

/-- A rank of all parts: it falls on the way down and stays below the height of the graph. -/
structure Ranked (g : Graph) (μ : Part → Nat) : Prop where
  falls : ∀ {x y : Part}, g.Holds x y → μ y < μ x
  lt_height : ∀ x : Part, μ x < g.height

section Rank

open Classical

/-- The number of requests nested in a request. -/
noncomputable def nested (g : Graph) (r : RequestId) : Nat :=
  ((Finset.range g.requests.size).filter fun i => Relation.TransGen g.Nests r ⟨i⟩).card

/-- The largest number of nested requests, counted from one, that a request below a node has. -/
noncomputable def nestedBelow (g : Graph) (n : NodeId) : Nat :=
  (Finset.range g.entries.size).sup fun i =>
    match g.node ⟨i⟩ with
    | .sub s => if g.Below n ⟨i⟩ ∧ s.index < g.requests.size then g.nested s + 1 else 0
    | _ => 0

/-- The rank of a part: requests count for more than all nodes together. -/
noncomputable def rank (g : Graph) : Part → Nat
  | .node n => if n.index < g.entries.size
      then g.nestedBelow n * (g.entries.size + 1) + n.index + 1 else 0
  | .request r => if r.index < g.requests.size
      then g.nested r * (g.entries.size + 1) + g.entries.size + 1 else 0

variable {g : Graph}

lemma nested_lt_of_nests (hg : g.Acyclic) {r s : RequestId} (h : g.Nests r s)
    (hs : s.index < g.requests.size) : g.nested s < g.nested r := by
  refine Finset.card_lt_card (Finset.ssubset_iff_subset_ne.2 ⟨?_, ?_⟩)
  · intro i hi
    rw [Finset.mem_filter] at hi ⊢
    exact ⟨hi.1, .trans (.single h) hi.2⟩
  · intro heq
    have hmem : s.index ∈ (Finset.range g.requests.size).filter
        fun i => Relation.TransGen g.Nests r ⟨i⟩ := by
      simpa [hs] using Relation.TransGen.single h
    rw [← heq, Finset.mem_filter] at hmem
    exact hg s hmem.2

lemma nested_lt_size (hg : g.Acyclic) {r : RequestId} (hr : r.index < g.requests.size) :
    g.nested r < g.requests.size := by
  have hlt : g.nested r < (Finset.range g.requests.size).card := by
    refine Finset.card_lt_card (Finset.ssubset_iff_subset_ne.2 ⟨Finset.filter_subset _ _, ?_⟩)
    intro heq
    have hmem : r.index ∈ Finset.range g.requests.size := by simpa using hr
    rw [← heq, Finset.mem_filter] at hmem
    exact hg r hmem.2
  simpa using hlt

lemma nested_lt_nestedBelow {n m : NodeId} {s : RequestId} (h : g.Below n m)
    (hm : g.node m = .sub s) (hs : s.index < g.requests.size) :
    g.nested s < g.nestedBelow n := by
  have hle := Finset.le_sup (f := fun i =>
    match g.node ⟨i⟩ with
    | .sub s => if g.Below n ⟨i⟩ ∧ s.index < g.requests.size then g.nested s + 1 else 0
    | _ => 0) (Finset.mem_range.2 (lt_size_of_node_eq_sub hm))
  have heq : g.node ⟨m.index⟩ = .sub s := hm
  have hbelow : g.Below n ⟨m.index⟩ := h
  simp only [heq, hbelow, hs, and_self, if_true] at hle
  exact hle

lemma nestedBelow_le {n : NodeId} {k : Nat}
    (h : ∀ m s, g.Below n m → g.node m = .sub s → s.index < g.requests.size → g.nested s < k) :
    g.nestedBelow n ≤ k := by
  refine Finset.sup_le fun i _ => ?_
  split
  · next s hs =>
    split
    · next hb => exact h _ s hb.1 hs hb.2
    · exact Nat.zero_le _
  · exact Nat.zero_le _

lemma nestedBelow_le_of_child {n c : NodeId} (h : c ∈ (g.node n).children) :
    g.nestedBelow c ≤ g.nestedBelow n :=
  nestedBelow_le fun _ _ hb hm hs => nested_lt_nestedBelow (.head h hb) hm hs

lemma nestedBelow_le_of_clause (hg : g.Acyclic) {r : RequestId} {n : NodeId}
    (h : n ∈ (g.request r).clauseNodes) : g.nestedBelow n ≤ g.nested r :=
  nestedBelow_le fun m _ hb hm hs => nested_lt_of_nests hg (.inl ⟨n, h, m, hb, hm⟩) hs

lemma nestedBelow_le_size (hg : g.Acyclic) (n : NodeId) : g.nestedBelow n ≤ g.requests.size :=
  nestedBelow_le fun _ _ _ _ hs => nested_lt_size hg hs

lemma rank_child (ho : g.Ordered) {n c : NodeId} (h : c ∈ (g.node n).children) :
    g.rank (.node c) < g.rank (.node n) := by
  have hn := lt_size_of_mem_children h
  have hc := ho n c h
  have hle := Nat.mul_le_mul_right (g.entries.size + 1) (nestedBelow_le_of_child h)
  simp only [rank, hn, if_true]
  split <;> omega

lemma rank_sub {n : NodeId} {r : RequestId} (h : g.node n = .sub r) :
    g.rank (.request r) < g.rank (.node n) := by
  have hn := lt_size_of_node_eq_sub h
  simp only [rank, hn, if_true]
  split
  · next hr =>
    have hlt := nested_lt_nestedBelow (n := n) .refl h hr
    have hle := Nat.mul_le_mul_right (g.entries.size + 1) (Nat.succ_le_of_lt hlt)
    rw [Nat.succ_mul] at hle
    omega
  · omega

lemma rank_clause (hg : g.Acyclic) {r : RequestId} {n : NodeId}
    (h : n ∈ (g.request r).clauseNodes) : g.rank (.node n) < g.rank (.request r) := by
  have hr : r.index < g.requests.size := by
    by_contra hr
    rw [request_of_size_le (Nat.not_lt.1 hr)] at h
    simp [Request.clauseNodes] at h
  have hle := Nat.mul_le_mul_right (g.entries.size + 1) (nestedBelow_le_of_clause hg h)
  simp only [rank, hr, if_true]
  split <;> omega

lemma rank_source (hg : g.Acyclic) {r s : RequestId} {a : AliasId} (h : a ∈ (g.request r).origins)
    (hs : (g.aliasOf a).origin = .request s) : g.rank (.request s) < g.rank (.request r) := by
  have hn : g.Nests r s := .inr ⟨a, h, hs⟩
  simp only [rank, lt_size_of_nests hn, if_true]
  split
  · next hs' =>
    have hle := Nat.mul_le_mul_right (g.entries.size + 1) (nested_lt_of_nests hg hn hs').le
    have hlt := Nat.mul_lt_mul_of_pos_right (nested_lt_of_nests hg hn hs')
      (Nat.succ_pos g.entries.size)
    simp only [Nat.succ_eq_add_one] at hlt
    omega
  · omega

/-- **An ordered and acyclic graph has a rank.** -/
theorem ranked_rank (ho : g.Ordered) (hg : g.Acyclic) : g.Ranked g.rank where
  falls h := by
    cases h with
    | child h => exact rank_child ho h
    | sub h => exact rank_sub h
    | clause h => exact rank_clause hg h
    | source h hs => exact rank_source hg h hs
  lt_height x := by
    have hheight : g.height = g.requests.size * (g.entries.size + 1) + g.entries.size + 2 := by
      unfold height; ring
    cases x with
    | node n =>
      have hle := Nat.mul_le_mul_right (g.entries.size + 1) (nestedBelow_le_size hg n)
      simp only [rank]
      split <;> omega
    | request r =>
      simp only [rank]
      split
      · next hr =>
        have hle := Nat.mul_le_mul_right (g.entries.size + 1) (nested_lt_size hg hr).le
        omega
      · omega

end Rank

end Graph

/-! ### Readings -/

variable {α β : Type}

/-- The rules of a reading ask only for the parts that stand directly in what they are about. -/
structure Reading.Local (f : Reading α β) (g : Graph) : Prop where
  node : ∀ (n : NodeId) (part part' : NodeId → α) (query query' : RequestId → β),
    (∀ c ∈ (g.node n).children, part c = part' c) →
    (∀ r, g.node n = .sub r → query r = query' r) →
    f.node part query (g.node n) = f.node part' query' (g.node n)
  request : ∀ (r : RequestId) (part part' : NodeId → α) (query query' : RequestId → β),
    (∀ n ∈ (g.request r).clauseNodes, part n = part' n) →
    (∀ a ∈ (g.request r).origins, ∀ s, (g.aliasOf a).origin = .request s → query s = query' s) →
    f.request part query r = f.request part' query' r

namespace Graph

variable {g : Graph} {f : Reading α β} {μ : Part → Nat}

/-- Enough fuel for a part, below requests that all have a higher rank. -/
def Enough (μ : Part → Nat) (x : Part) (fuel : Nat) (above : List RequestId) : Prop :=
  μ x < fuel ∧ ∀ q ∈ above, μ x < μ (.request q)

lemma Enough.part {x y : Part} {fuel : Nat} {above : List RequestId} (h : μ y < μ x)
    (hx : Enough μ x (fuel + 1) above) : Enough μ y fuel above :=
  ⟨by have := hx.1; omega, fun q hq => h.trans (hx.2 q hq)⟩

lemma Enough.inside {r : RequestId} {y : Part} {fuel : Nat} {above : List RequestId}
    (h : μ y < μ (.request r)) (hr : Enough μ (.request r) (fuel + 1) above) :
    Enough μ y fuel (r :: above) := by
  refine ⟨by have := hr.1; omega, fun q hq => ?_⟩
  rcases List.mem_cons.1 hq with rfl | hq
  · exact h
  · exact h.trans (hr.2 q hq)

/-- With enough fuel, a reading depends neither on the fuel nor on the requests above. -/
theorem readWithin_congr (hf : f.Local g) (hμ : ∀ {x y : Part}, g.Holds x y → μ y < μ x) :
    ∀ (fuel fuel' : Nat) (above above' : List RequestId),
      (∀ n, Enough μ (.node n) fuel above → Enough μ (.node n) fuel' above' →
        g.readNodeWithin f fuel above n = g.readNodeWithin f fuel' above' n) ∧
      ∀ r, Enough μ (.request r) fuel above → Enough μ (.request r) fuel' above' →
        g.readRequestWithin f fuel above r = g.readRequestWithin f fuel' above' r := by
  intro fuel
  induction fuel with
  | zero =>
    intro fuel' above above'
    exact ⟨fun n h => absurd h.1 (Nat.not_lt_zero _), fun r h => absurd h.1 (Nat.not_lt_zero _)⟩
  | succ fuel ih =>
    intro fuel' above above'
    cases fuel' with
    | zero =>
      exact ⟨fun n _ h => absurd h.1 (Nat.not_lt_zero _),
        fun r _ h => absurd h.1 (Nat.not_lt_zero _)⟩
    | succ fuel' =>
      refine ⟨fun n h h' => ?_, fun r h h' => ?_⟩
      · rw [readNodeWithin, readNodeWithin]
        refine hf.node n _ _ _ _ (fun c hc => ?_) fun r hr => ?_
        · have hlt := hμ (Holds.child hc)
          exact (ih fuel' above above').1 c (h.part hlt) (h'.part hlt)
        · have hlt := hμ (Holds.sub hr)
          exact (ih fuel' above above').2 r (h.part hlt) (h'.part hlt)
      · have hr : r ∉ above := fun hmem => (h.2 r hmem).false
        have hr' : r ∉ above' := fun hmem => (h'.2 r hmem).false
        rw [readRequestWithin, readRequestWithin, if_neg hr, if_neg hr']
        refine hf.request r _ _ _ _ (fun n hn => ?_) fun a ha s hs => ?_
        · have hlt := hμ (Holds.clause hn)
          exact (ih fuel' _ _).1 n (h.inside hlt) (h'.inside hlt)
        · have hlt := hμ (Holds.source ha hs)
          exact (ih fuel' _ _).2 s (h.inside hlt) (h'.inside hlt)

/-- **A reading of a node is what its rule says.** -/
theorem readNode_eq (hf : f.Local g) (hμ : g.Ranked μ) (n : NodeId) :
    g.readNode f n = f.node (g.readNode f) (g.readRequest f) (g.node n) := by
  have hn : Enough μ (.node n) (g.height - 1 + 1) [] :=
    ⟨by have := hμ.lt_height (.node n); omega, by simp⟩
  have hheight : g.height = g.height - 1 + 1 := by unfold height; omega
  have hfull : ∀ x : Part, Enough μ x g.height [] := fun x => ⟨hμ.lt_height x, by simp⟩
  conv_lhs => rw [readNode, hheight, readNodeWithin]
  refine hf.node n _ _ _ _ (fun c hc => ?_) fun r hr => ?_
  · exact (readWithin_congr hf hμ.falls _ _ _ _).1 c (hn.part (hμ.falls (.child hc))) (hfull _)
  · exact (readWithin_congr hf hμ.falls _ _ _ _).2 r (hn.part (hμ.falls (.sub hr))) (hfull _)

/-- **A reading of a request is what its rule says.** -/
theorem readRequest_eq (hf : f.Local g) (hμ : g.Ranked μ) (r : RequestId) :
    g.readRequest f r = f.request (g.readNode f) (g.readRequest f) r := by
  have hr : Enough μ (.request r) (g.height - 1 + 1) [] :=
    ⟨by have := hμ.lt_height (.request r); omega, by simp⟩
  have hheight : g.height = g.height - 1 + 1 := by unfold height; omega
  have hfull : ∀ x : Part, Enough μ x g.height [] := fun x => ⟨hμ.lt_height x, by simp⟩
  conv_lhs => rw [readRequest, hheight, readRequestWithin, if_neg (by simp)]
  refine hf.request r _ _ _ _ (fun n hn => ?_) fun a ha s hs => ?_
  · exact (readWithin_congr hf hμ.falls _ _ _ _).1 n (hr.inside (hμ.falls (.clause hn))) (hfull _)
  · exact (readWithin_congr hf hμ.falls _ _ _ _).2 s (hr.inside (hμ.falls (.source ha hs)))
      (hfull _)

/-! ### Induction along a reading -/

/-- What the rules keep holds of every part that is read with enough fuel. -/
theorem readWithin_induction {P : α → Prop} {Q : β → Prop}
    (hμ : ∀ {x y : Part}, g.Holds x y → μ y < μ x)
    (hnode : ∀ part query n, (∀ c ∈ (g.node n).children, P (part c)) →
      (∀ r, g.node n = .sub r → Q (query r)) → P (f.node part query (g.node n)))
    (hrequest : ∀ part query r, (∀ n ∈ (g.request r).clauseNodes, P (part n)) →
      (∀ a ∈ (g.request r).origins, ∀ s, (g.aliasOf a).origin = .request s → Q (query s)) →
      Q (f.request part query r)) :
    ∀ (fuel : Nat) (above : List RequestId),
      (∀ n, Enough μ (.node n) fuel above → P (g.readNodeWithin f fuel above n)) ∧
      ∀ r, Enough μ (.request r) fuel above → Q (g.readRequestWithin f fuel above r) := by
  intro fuel
  induction fuel with
  | zero =>
    intro above
    exact ⟨fun n h => absurd h.1 (Nat.not_lt_zero _), fun r h => absurd h.1 (Nat.not_lt_zero _)⟩
  | succ fuel ih =>
    refine fun above => ⟨fun n h => ?_, fun r h => ?_⟩
    · rw [readNodeWithin]
      exact hnode _ _ n (fun c hc => (ih above).1 c (h.part (hμ (.child hc))))
        fun r hr => (ih above).2 r (h.part (hμ (.sub hr)))
    · rw [readRequestWithin, if_neg fun hmem => (h.2 r hmem).false]
      exact hrequest _ _ r (fun n hn => (ih _).1 n (h.inside (hμ (.clause hn))))
        fun a ha s hs => (ih _).2 s (h.inside (hμ (.source ha hs)))

/-- **What the rules keep holds of every request.** -/
theorem readRequest_induction {P : α → Prop} {Q : β → Prop} (hμ : g.Ranked μ)
    (hnode : ∀ part query n, (∀ c ∈ (g.node n).children, P (part c)) →
      (∀ r, g.node n = .sub r → Q (query r)) → P (f.node part query (g.node n)))
    (hrequest : ∀ part query r, (∀ n ∈ (g.request r).clauseNodes, P (part n)) →
      (∀ a ∈ (g.request r).origins, ∀ s, (g.aliasOf a).origin = .request s → Q (query s)) →
      Q (f.request part query r)) (r : RequestId) : Q (g.readRequest f r) :=
  (readWithin_induction hμ.falls hnode hrequest g.height []).2 r ⟨hμ.lt_height _, by simp⟩

end Graph

end EntityQuery.Sql
