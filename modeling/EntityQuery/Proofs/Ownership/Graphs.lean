import EntityQuery.Proofs.Filters.Growth
import Mathlib.Data.List.Perm.Subperm

/-!
What every node of a graph is part of.

* `Closed`: all handles in a graph are in range. `Linked`: whatever holds a node holds it once, and
  the link of the node leads there.
* `Loose`: a node that is part of nothing. `Tidy g L`: `g` is closed and linked, and `L` are different
  loose nodes of it.
* Every operation takes some loose nodes and gives others: `Tended g L h`. As long as a rule accounts
  for the nodes it takes, nothing is put into two places.
* `nodeAt?`: the node at a place, which is a clause of a request and a way down from there. On a linked
  graph a node is at one place at most, and its links lead up to the request of that place.
-/

namespace EntityQuery.Sql

/-! ### Handles in range -/

/-- The aliases that a route passes. -/
def Route.aliases : Route → List AliasId
  | .root => []
  | .navigation owner _ via => owner :: via.toList
  | .link owner _ => [owner]

def Owner.Inside (g : Graph) : Owner → Prop
  | .node n => n.index < g.entries.size
  | .request r => r.index < g.requests.size

/-- The source and the request of a node are in a graph. -/
def Node.Inside (g : Graph) (x : Node) : Prop :=
  (∀ a, x.source? = some a → a.index < g.aliases.size) ∧ ∀ r, x = .sub r → r.index < g.requests.size

/-- The request and the route of an alias are in a graph. -/
def Alias.Inside (g : Graph) (d : Alias) : Prop :=
  (∀ r, d.origin = .request r → r.index < g.requests.size) ∧
    ∀ b ∈ d.route.aliases, b.index < g.aliases.size

/-- The sources of a request and the request around it are in a graph. -/
def Request.Inside (g : Graph) (q : Request) : Prop :=
  (∀ p, q.parent = some p → p.index < g.requests.size) ∧ ∀ a ∈ q.origins, a.index < g.aliases.size

namespace Graph

/-- All handles in a graph are in range. -/
structure Closed (g : Graph) : Prop where
  node : ∀ n, (g.node n).Inside g
  child : ∀ n, ∀ c ∈ (g.node n).children, c.index < g.entries.size
  owner : ∀ n o, g.parent? n = some o → o.Inside g
  source : ∀ a, (g.aliasOf a).Inside g
  request : ∀ r, (g.request r).Inside g
  clause : ∀ r, ∀ n ∈ (g.request r).clauseNodes, n.index < g.entries.size

/-- A graph has no fewer parts than another one. -/
structure Grows (g h : Graph) : Prop where
  entries : g.entries.size ≤ h.entries.size
  aliases : g.aliases.size ≤ h.aliases.size
  requests : g.requests.size ≤ h.requests.size

namespace Grows

variable {g h k : Graph}

lemma refl (g : Graph) : g.Grows g := ⟨le_rfl, le_rfl, le_rfl⟩

lemma trans (hgh : g.Grows h) (hhk : h.Grows k) : g.Grows k :=
  ⟨hgh.entries.trans hhk.entries, hgh.aliases.trans hhk.aliases, hgh.requests.trans hhk.requests⟩

end Grows

end Graph

section Inside

variable {g h : Graph} (hgh : g.Grows h)
include hgh

lemma Owner.Inside.mono {o : Owner} (ho : o.Inside g) : o.Inside h := by
  cases o with
  | node n => exact ho.trans_le hgh.entries
  | request r => exact ho.trans_le hgh.requests

lemma Node.Inside.mono {x : Node} (hx : x.Inside g) : x.Inside h :=
  ⟨fun a ha => (hx.1 a ha).trans_le hgh.aliases, fun r hr => (hx.2 r hr).trans_le hgh.requests⟩

lemma Alias.Inside.mono {d : Alias} (hd : d.Inside g) : d.Inside h :=
  ⟨fun r hr => (hd.1 r hr).trans_le hgh.requests, fun b hb => (hd.2 b hb).trans_le hgh.aliases⟩

lemma Request.Inside.mono {q : Request} (hq : q.Inside g) : q.Inside h :=
  ⟨fun p hp => (hq.1 p hp).trans_le hgh.requests, fun a ha => (hq.2 a ha).trans_le hgh.aliases⟩

end Inside

namespace Graph

variable {g h k : Graph} {r : RequestId} {n : NodeId} {L M : List NodeId}

/-! ### Links -/

lemma parent?_of_size_le (hn : g.entries.size ≤ n.index) : g.parent? n = none := by
  simp [parent?, entry, Array.getD, Nat.not_lt.2 hn]

lemma parent?_setParent (g : Graph) (o : Owner) (n m : NodeId) :
    (g.setParent o n).parent? m =
      if m = n ∧ m.index < g.entries.size then some o else g.parent? m := by
  have hindex : n.index = m.index ↔ m = n := by
    cases n
    cases m
    simp [eq_comm]
  simp only [parent?, entry, setParent, Array.getD_eq_getD_getElem?, Array.getElem?_modify, hindex]
  by_cases hm : m = n
  · by_cases hlt : m.index < g.entries.size <;> simp [← hm, hlt]
  · simp [hm]

lemma parent?_foldl_setParent (o : Owner) (ns : List NodeId) (g : Graph) (m : NodeId) :
    (ns.foldl (fun g c => g.setParent o c) g).parent? m =
      if m ∈ ns ∧ m.index < g.entries.size then some o else g.parent? m := by
  induction ns generalizing g with
  | nil => simp
  | cons n ns ih =>
    rw [List.foldl_cons, ih, parent?_setParent, size_entries_setParent]
    by_cases hns : m ∈ ns
    · by_cases hlt : m.index < g.entries.size <;> simp [hns, hlt]
    · simp [hns]

/-- The children of a new node become part of it. -/
lemma parent?_add (g : Graph) (x : Node) (m : NodeId) :
    (g.add x).2.parent? m =
      if m ∈ x.children ∧ m.index < g.entries.size then some (.node ⟨g.entries.size⟩)
      else g.parent? m := by
  have hold := parent?_foldl_setParent (.node ⟨g.entries.size⟩) x.children g m
  have hsize := g.size_entries_foldl_setParent (.node ⟨g.entries.size⟩) x.children
  by_cases hm : m.index = g.entries.size
  · rw [parent?_of_size_le hm.ge, if_neg (by omega)]
    simp only [add, parent?, entry, Array.getD_eq_getD_getElem?, Array.getElem?_push, hsize, hm,
      if_true, Option.getD_some]
  · rw [← hold]
    simp only [add, parent?, entry, Array.getD_eq_getD_getElem?, Array.getElem?_push, hsize, hm,
      if_false]

/-- Whatever holds a node holds it once, and the link of the node leads there. -/
structure Linked (g : Graph) : Prop where
  ordered : g.Ordered
  child : ∀ n, ∀ c ∈ (g.node n).children, g.parent? c = some (.node n)
  distinct : ∀ n, (g.node n).children.Nodup
  clause : ∀ r, ∀ n ∈ (g.request r).clauseNodes, g.parent? n = some (.request r)
  slots : ∀ r, (g.request r).clauseNodes.Nodup

/-! ### Places -/

/-- The node that a way down leads to: a child, a child of it, and so on. -/
def down? (g : Graph) : NodeId → List Nat → Option NodeId
  | n, [] => some n
  | n, i :: path => (g.node n).children[i]?.bind fun c => g.down? c path

lemma down?_snoc (g : Graph) (n : NodeId) (path : List Nat) (i : Nat) :
    g.down? n (path ++ [i]) = (g.down? n path).bind fun m => (g.node m).children[i]? := by
  induction path generalizing n with
  | nil => simp [down?]
  | cons j path ih =>
    rw [List.cons_append, down?, down?]
    cases (g.node n).children[j]? with
    | none => rfl
    | some c => exact ih c

end Graph

/-- A place of a node: a clause of a request, by its position, and a way down from there. -/
structure Place where
  request : RequestId
  slot : Nat
  path : List Nat
  deriving DecidableEq, Repr

namespace Graph

variable {g h k : Graph} {r : RequestId} {n : NodeId} {L M : List NodeId}

/-- The node at a place. -/
def nodeAt? (g : Graph) (x : Place) : Option NodeId :=
  (g.request x.request).clauseNodes[x.slot]?.bind fun n => g.down? n x.path

namespace Linked

variable (hg : g.Linked)
include hg

lemma parent?_of_down? {m : NodeId} {path : List Nat} {i : Nat}
    (h : g.down? n (path ++ [i]) = some m) :
    ∃ c, g.down? n path = some c ∧ (g.node c).children[i]? = some m ∧ g.parent? m = some (.node c) := by
  rw [down?_snoc, Option.bind_eq_some_iff] at h
  obtain ⟨c, hc, hm⟩ := h
  exact ⟨c, hc, hm, hg.child c m (List.mem_of_getElem? hm)⟩

/-- Links lead up to the request in whose clause a node stands. Every step up leads to a younger node,
so there are no more steps than nodes. -/
lemma ownerWithin_of_down? (hclosed : g.Closed) (hn : n ∈ (g.request r).clauseNodes) (path : List Nat)
    {m : NodeId} (hm : g.down? n path = some m) {fuel : Nat} (hfuel : g.entries.size ≤ fuel + m.index) :
    g.ownerWithin fuel m = some r := by
  induction path using List.reverseRecOn generalizing m fuel with
  | nil =>
    cases hm
    have hlt := hclosed.clause r n hn
    obtain ⟨fuel, rfl⟩ := Nat.exists_eq_succ_of_ne_zero (n := fuel) (by omega)
    rw [ownerWithin, hg.clause r n hn]
  | append_singleton path i ih =>
    obtain ⟨c, hc, hchild, hparent⟩ := hg.parent?_of_down? hm
    have holder := hg.ordered c m (List.mem_of_getElem? hchild)
    have hlt := lt_size_of_mem_children (List.mem_of_getElem? hchild)
    obtain ⟨fuel, rfl⟩ := Nat.exists_eq_succ_of_ne_zero (n := fuel) (by omega)
    rw [ownerWithin, hparent]
    exact ih hc (by omega)

/-- Two ways down that lead to one node are the same. -/
lemma down?_inj {r' : RequestId} {n' m : NodeId} {path path' : List Nat}
    (hn : n ∈ (g.request r).clauseNodes) (hn' : n' ∈ (g.request r').clauseNodes)
    (hm : g.down? n path = some m) (hm' : g.down? n' path' = some m) :
    r = r' ∧ n = n' ∧ path = path' := by
  induction path using List.reverseRecOn generalizing m path' with
  | nil =>
    cases hm
    have hparent := hg.clause r n hn
    rcases List.eq_nil_or_concat' path' with rfl | ⟨path', i, rfl⟩
    · cases hm'
      have hsame := hparent.symm.trans (hg.clause r' n hn')
      cases hsame
      exact ⟨rfl, rfl, rfl⟩
    · obtain ⟨c, -, -, hc⟩ := hg.parent?_of_down? hm'
      cases hparent.symm.trans hc
  | append_singleton path i ih =>
    obtain ⟨c, hc, hchild, hparent⟩ := hg.parent?_of_down? hm
    rcases List.eq_nil_or_concat' path' with rfl | ⟨path', i', rfl⟩
    · cases hm'
      cases hparent.symm.trans (hg.clause r' _ hn')
    · obtain ⟨c', hc', hchild', hparent'⟩ := hg.parent?_of_down? hm'
      cases hparent.symm.trans hparent'
      obtain ⟨hr, hn, rfl⟩ := ih hc hc'
      obtain rfl : i = i' := (List.getElem?_inj (List.getElem?_eq_some_iff.1 hchild).1
        (hg.distinct c)).1 (hchild.trans hchild'.symm)
      exact ⟨hr, hn, rfl⟩

/-- **A node belongs to the request at whose place it is.** -/
theorem owner?_of_nodeAt? (hclosed : g.Closed) {x : Place} (hx : g.nodeAt? x = some n) :
    g.owner? n = some x.request := by
  obtain ⟨c, hc, hn⟩ := Option.bind_eq_some_iff.1 hx
  exact hg.ownerWithin_of_down? hclosed (List.mem_of_getElem? hc) x.path hn (Nat.le_add_right _ _)

/-- **A node is at one place.** -/
theorem nodeAt?_inj {x y : Place} (hx : g.nodeAt? x = some n) (hy : g.nodeAt? y = some n) : x = y := by
  obtain ⟨c, hc, hn⟩ := Option.bind_eq_some_iff.1 hx
  obtain ⟨c', hc', hn'⟩ := Option.bind_eq_some_iff.1 hy
  obtain ⟨hrequest, rfl, hpath⟩ :=
    hg.down?_inj (List.mem_of_getElem? hc) (List.mem_of_getElem? hc') hn hn'
  rcases x with ⟨r, i, path⟩
  rcases y with ⟨r', j, path'⟩
  dsimp only at hc hc' hrequest hpath
  subst hrequest hpath
  obtain rfl : i = j := (List.getElem?_inj (List.getElem?_eq_some_iff.1 hc).1 (hg.slots r)).1
    (hc.trans hc'.symm)
  rfl

end Linked

/-! ### Loose nodes -/

/-- A node that is part of no node and of no clause. -/
structure Loose (g : Graph) (n : NodeId) : Prop where
  inside : n.index < g.entries.size
  child : ∀ m, n ∉ (g.node m).children
  clause : ∀ r, n ∉ (g.request r).clauseNodes

/-- A graph with right handles and links, and different loose nodes of it. -/
structure Tidy (g : Graph) (L : List NodeId) : Prop where
  closed : g.Closed
  linked : g.Linked
  nodup : L.Nodup
  loose : ∀ n ∈ L, g.Loose n

/-- Steps from one graph to another one, after which some nodes are loose. -/
structure Tended (g : Graph) (L : List NodeId) (h : Graph) : Prop where
  grows : g.Grows h
  tidy : h.Tidy L

lemma Tidy.only (hg : g.Tidy L) (hM : M.Subperm L) : g.Tidy M := by
  obtain ⟨K, hperm, hsub⟩ := hM
  refine ⟨hg.closed, hg.linked, hperm.nodup_iff.1 (hg.nodup.sublist hsub), fun n hn => ?_⟩
  exact hg.loose n (hsub.subset (hperm.mem_iff.2 hn))

namespace Tended

lemma refl (hg : g.Tidy L) : Tended g L g := ⟨.refl g, hg⟩

lemma trans (hgh : Tended g L h) (hhk : Tended h M k) : Tended g M k :=
  ⟨hgh.grows.trans hhk.grows, hhk.tidy⟩

lemma only (hgh : Tended g L h) (hM : M.Subperm L) : Tended g M h := ⟨hgh.grows, hgh.tidy.only hM⟩

end Tended

/-! ### Operations -/

/-- A new node takes its children. -/
lemma tended_add {x : Node} (hg : g.Tidy (x.children ++ L)) (hx : x.Inside g) :
    Tended g (⟨g.entries.size⟩ :: L) (g.add x).2 := by
  obtain ⟨hclosed, hlinked, hnodup, hloose⟩ := hg
  obtain ⟨hchildren, hL, hdisjoint⟩ := List.nodup_append'.1 hnodup
  have htaken : ∀ c ∈ x.children, g.Loose c := fun c hc => hloose c (List.mem_append_left _ hc)
  have hgrows : g.Grows (g.add x).2 := by
    refine ⟨?_, ?_, ?_⟩
    · rw [size_entries_add]
      exact Nat.le_succ _
    · rw [aliases_add]
    · rw [requests_add]
  -- a node that has a place keeps its link
  have hkept : ∀ m, m ∉ x.children → (g.add x).2.parent? m = g.parent? m := by
    intro m hm
    rw [parent?_add, if_neg fun h => hm h.1]
  refine ⟨hgrows, ⟨?_, ?_, ?_, ?_, ?_, ?_⟩, ⟨?_, ?_, ?_, ?_, ?_⟩, ?_, ?_⟩
  · intro n
    rw [node_add]
    split
    · exact hx.mono hgrows
    · exact (hclosed.node n).mono hgrows
  · intro n c hc
    rw [node_add] at hc
    rw [size_entries_add]
    split at hc
    · exact (htaken c hc).inside.trans (Nat.lt_succ_self _)
    · exact (hclosed.child n c hc).trans (Nat.lt_succ_self _)
  · intro n o ho
    rw [parent?_add] at ho
    split at ho
    · cases ho
      show g.entries.size < (g.add x).2.entries.size
      rw [size_entries_add]
      exact Nat.lt_succ_self _
    · exact (hclosed.owner n o ho).mono hgrows
  · intro a
    rw [aliasOf_add]
    exact (hclosed.source a).mono hgrows
  · intro r
    rw [request_add]
    exact (hclosed.request r).mono hgrows
  · intro r n hn
    rw [request_add] at hn
    exact (hclosed.clause r n hn).trans_le hgrows.entries
  · intro n c hc
    rw [node_add] at hc
    split at hc
    · have := (htaken c hc).inside
      omega
    · exact hlinked.ordered n c hc
  · intro n c hc
    rw [node_add] at hc
    split at hc
    · next hn =>
      rw [parent?_add, if_pos ⟨hc, (htaken c hc).inside⟩, ← hn]
    · rw [hkept c fun h => (htaken c h).child n hc]
      exact hlinked.child n c hc
  · intro n
    rw [node_add]
    split
    · exact hchildren
    · exact hlinked.distinct n
  · intro r n hn
    rw [request_add] at hn
    rw [hkept n fun h => (htaken n h).clause r hn]
    exact hlinked.clause r n hn
  · intro r
    rw [request_add]
    exact hlinked.slots r
  · refine List.nodup_cons.2 ⟨fun hmem => ?_, hL⟩
    exact (hloose _ (List.mem_append_right _ hmem)).inside.false
  · intro n hn
    rcases List.mem_cons.1 hn with rfl | hn
    · refine ⟨by simp, fun m hm => ?_, fun r hr => ?_⟩
      · rw [node_add] at hm
        split at hm
        · exact (htaken _ hm).inside.false
        · exact (hclosed.child m _ hm).false
      · rw [request_add] at hr
        exact (hclosed.clause r _ hr).false
    · have hn' := hloose n (List.mem_append_right _ hn)
      refine ⟨hn'.inside.trans_le hgrows.entries, fun m hm => ?_, fun r hr => ?_⟩
      · rw [node_add] at hm
        split at hm
        · exact hdisjoint hm hn
        · exact hn'.child m hm
      · rw [request_add] at hr
        exact hn'.clause r hr

/-- New clauses take loose nodes, and clauses that are given up make their nodes loose. -/
lemma tended_amend (ns ms : List NodeId) {f : Request → Request} (hg : g.Tidy (ns ++ L))
    (hr : r.index < g.requests.size) (hf : (f (g.request r)).Inside g)
    (hclause : (ms ++ (f (g.request r)).clauseNodes).Subperm (ns ++ (g.request r).clauseNodes)) :
    Tended g (ms ++ L) ((ns.foldl (fun g n => g.attach r n) g).modifyRequest r f) := by
  obtain ⟨hclosed, hlinked, hnodup, hloose⟩ := hg
  obtain ⟨hns, hL, hdisjoint⟩ := List.nodup_append'.1 hnodup
  set h := (ns.foldl (fun g n => g.attach r n) g).modifyRequest r f with hh
  have hentries : h.entries.size = g.entries.size := g.size_entries_foldl_setParent (.request r) ns
  have haliases : h.aliases = g.aliases := g.aliases_foldl_setParent (.request r) ns
  have hsize : h.requests.size = g.requests.size := by
    rw [hh, size_requests_modifyRequest]
    exact congrArg Array.size (g.requests_foldl_setParent (.request r) ns)
  have hnode : ∀ m, h.node m = g.node m := g.node_foldl_setParent (.request r) ns
  have halias : ∀ a, h.aliasOf a = g.aliasOf a := fun a => by rw [aliasOf, haliases, aliasOf]
  have hrequest : ∀ q, (ns.foldl (fun g n => g.attach r n) g).request q = g.request q := fun q => by
    rw [request, request]
    exact congrArg (fun rs : Array Request => rs.getD q.index {})
      (g.requests_foldl_setParent (.request r) ns)
  have hself : h.request r = f (g.request r) := by
    rw [hh, request_modifyRequest_self _ _ ?_, hrequest]
    exact hr.trans_eq (congrArg Array.size (g.requests_foldl_setParent (.request r) ns)).symm
  have hother : ∀ q, q ≠ r → h.request q = g.request q := fun q hq => by
    rw [hh, request_modifyRequest_of_ne _ _ hq, hrequest]
  have hparent : ∀ m, h.parent? m =
      if m ∈ ns ∧ m.index < g.entries.size then some (.request r) else g.parent? m :=
    parent?_foldl_setParent (.request r) ns g
  have htaken : ∀ m ∈ ns, g.Loose m := fun m hm => hloose m (List.mem_append_left _ hm)
  have hkept : ∀ m, m ∉ ns → h.parent? m = g.parent? m := by
    intro m hm
    rw [hparent, if_neg fun h => hm h.1]
  have hgrows : g.Grows h := ⟨hentries.ge, (congrArg Array.size haliases).ge, hsize.ge⟩
  -- the nodes before and after
  have hbefore : (ns ++ (g.request r).clauseNodes).Nodup := by
    refine List.nodup_append'.2 ⟨hns, hlinked.slots r, fun m hm hclause => ?_⟩
    exact (htaken m hm).clause r hclause
  have hafter : (ms ++ (f (g.request r)).clauseNodes).Nodup := by
    obtain ⟨K, hperm, hsub⟩ := hclause
    exact hperm.nodup_iff.1 (hbefore.sublist hsub)
  obtain ⟨hms, hslots, hgiven⟩ := List.nodup_append'.1 hafter
  have hmem : ∀ m, m ∈ ms ∨ m ∈ (f (g.request r)).clauseNodes →
      m ∈ ns ∨ m ∈ (g.request r).clauseNodes := fun m hm =>
    List.mem_append.1 (hclause.subset (List.mem_append.2 hm))
  have hinside : ∀ m, m ∈ ns ∨ m ∈ (g.request r).clauseNodes → m.index < g.entries.size := by
    rintro m (hm | hm)
    · exact (htaken m hm).inside
    · exact hclosed.clause r m hm
  refine ⟨hgrows, ⟨?_, ?_, ?_, ?_, ?_, ?_⟩, ⟨?_, ?_, ?_, ?_, ?_⟩, ?_, ?_⟩
  · intro n
    rw [hnode]
    exact (hclosed.node n).mono hgrows
  · intro n c hc
    rw [hnode] at hc
    exact (hclosed.child n c hc).trans_le hgrows.entries
  · intro n o ho
    rw [hparent] at ho
    split at ho
    · cases ho
      exact hr.trans_le hgrows.requests
    · exact (hclosed.owner n o ho).mono hgrows
  · intro a
    rw [halias]
    exact (hclosed.source a).mono hgrows
  · intro q
    by_cases hq : q = r
    · rw [hq, hself]
      exact hf.mono hgrows
    · rw [hother q hq]
      exact (hclosed.request q).mono hgrows
  · intro q n hn
    by_cases hq : q = r
    · rw [hq, hself] at hn
      exact (hinside n (hmem n (.inr hn))).trans_le hgrows.entries
    · rw [hother q hq] at hn
      exact (hclosed.clause q n hn).trans_le hgrows.entries
  · intro n c hc
    rw [hnode] at hc
    exact hlinked.ordered n c hc
  · intro n c hc
    rw [hnode] at hc
    rw [hkept c fun hm => (htaken c hm).child n hc]
    exact hlinked.child n c hc
  · intro n
    rw [hnode]
    exact hlinked.distinct n
  · intro q n hn
    by_cases hq : q = r
    · rw [hq, hself] at hn
      rw [hq, hparent]
      split
      · rfl
      · next hnot =>
        rcases hmem n (.inr hn) with hm | hm
        · exact absurd ⟨hm, (htaken n hm).inside⟩ hnot
        · exact hlinked.clause r n hm
    · rw [hother q hq] at hn
      rw [hkept n fun hm => (htaken n hm).clause q hn]
      exact hlinked.clause q n hn
  · intro q
    by_cases hq : q = r
    · rw [hq, hself]
      exact hslots
    · rw [hother q hq]
      exact hlinked.slots q
  · refine List.nodup_append'.2 ⟨hms, hL, fun m hm hmL => ?_⟩
    rcases hmem m (.inl hm) with hm | hm
    · exact hdisjoint hm hmL
    · exact (hloose m (List.mem_append_right _ hmL)).clause r hm
  · intro n hn
    rcases List.mem_append.1 hn with hn | hn
    · refine ⟨(hinside n (hmem n (.inl hn))).trans_le hgrows.entries, fun m hm => ?_, fun q hq => ?_⟩
      · rw [hnode] at hm
        rcases hmem n (.inl hn) with hold | hold
        · exact (htaken n hold).child m hm
        · cases (hlinked.child m n hm).symm.trans (hlinked.clause r n hold)
      · by_cases hqr : q = r
        · rw [hqr, hself] at hq
          exact hgiven hn hq
        · rw [hother q hqr] at hq
          rcases hmem n (.inl hn) with hold | hold
          · exact (htaken n hold).clause q hq
          · cases (hlinked.clause q n hq).symm.trans (hlinked.clause r n hold)
            exact hqr rfl
    · have hn' := hloose n (List.mem_append_right _ hn)
      refine ⟨hn'.inside.trans_le hgrows.entries, fun m hm => ?_, fun q hq => ?_⟩
      · rw [hnode] at hm
        exact hn'.child m hm
      · by_cases hqr : q = r
        · rw [hqr, hself] at hq
          rcases hmem n (.inr hq) with hold | hold
          · exact hdisjoint hold hn
          · exact hn'.clause r hold
        · rw [hother q hqr] at hq
          exact hn'.clause q hq

/-- Nothing of a graph changes but its aliases and the end of its requests. -/
lemma Tidy.extend (hg : g.Tidy L) (hgrows : g.Grows h) (hentries : h.entries = g.entries)
    (halias : ∀ a, (h.aliasOf a).Inside h)
    (hrequest : ∀ r, h.request r = g.request r ∨
      (h.request r).clauseNodes = [] ∧ (h.request r).Inside h) : Tended g L h := by
  obtain ⟨hclosed, hlinked, hnodup, hloose⟩ := hg
  have hentry : ∀ n, h.entry n = g.entry n := fun n => by rw [entry, hentries, entry]
  have hnode : ∀ n, h.node n = g.node n := fun n => by rw [node, hentry, node]
  have hparent : ∀ n, h.parent? n = g.parent? n := fun n => by rw [parent?, hentry, parent?]
  have hclause : ∀ r, ∀ n ∈ (h.request r).clauseNodes, n ∈ (g.request r).clauseNodes := by
    intro r n hn
    rcases hrequest r with hsame | ⟨hnone, -⟩
    · rwa [hsame] at hn
    · rw [hnone] at hn
      cases hn
  refine ⟨hgrows, ⟨?_, ?_, ?_, halias, ?_, ?_⟩, ⟨?_, ?_, ?_, ?_, ?_⟩, hnodup, fun n hn => ⟨?_, ?_, ?_⟩⟩
  · intro n
    rw [hnode]
    exact (hclosed.node n).mono hgrows
  · intro n c hc
    rw [hnode] at hc
    exact (hclosed.child n c hc).trans_le hgrows.entries
  · intro n o ho
    rw [hparent] at ho
    exact (hclosed.owner n o ho).mono hgrows
  · intro r
    rcases hrequest r with hsame | ⟨-, hinside⟩
    · rw [hsame]
      exact (hclosed.request r).mono hgrows
    · exact hinside
  · intro r n hn
    exact (hclosed.clause r n (hclause r n hn)).trans_le hgrows.entries
  · intro n c hc
    rw [hnode] at hc
    exact hlinked.ordered n c hc
  · intro n c hc
    rw [hnode] at hc
    rw [hparent]
    exact hlinked.child n c hc
  · intro n
    rw [hnode]
    exact hlinked.distinct n
  · intro r n hn
    rw [hparent]
    exact hlinked.clause r n (hclause r n hn)
  · intro r
    rcases hrequest r with hsame | ⟨hnone, -⟩
    · rw [hsame]
      exact hlinked.slots r
    · rw [hnone]
      exact List.nodup_nil
  · exact (hloose n hn).inside.trans_le hgrows.entries
  · intro m
    rw [hnode]
    exact (hloose n hn).child m
  · exact fun r hr => (hloose n hn).clause r (hclause r n hr)

lemma tended_addAlias (hg : g.Tidy L) {d : Alias} (hd : d.Inside g) :
    Tended g L (g.addAlias d).2 := by
  have hgrows : g.Grows (g.addAlias d).2 := by
    refine ⟨le_rfl, ?_, le_rfl⟩
    rw [size_aliases_addAlias]
    exact Nat.le_succ _
  refine hg.extend hgrows rfl (fun a => ?_) fun r => .inl rfl
  rw [aliasOf_addAlias]
  split
  · exact hd.mono hgrows
  · exact (hg.closed.source a).mono hgrows

lemma tended_bind (hg : g.Tidy L) (a : AliasId) (p : ParamId) : Tended g L (g.bind a p) := by
  have hgrows : g.Grows (g.bind a p) := ⟨le_rfl, (size_aliases_bind g a p).ge, le_rfl⟩
  refine hg.extend hgrows rfl (fun b => ?_) fun r => .inl rfl
  have hb := (hg.closed.source b).mono hgrows
  unfold Alias.Inside at hb ⊢
  rw [Alias.origin_eq_of_bare (bare_bind g a b p), Alias.route_eq_of_bare (bare_bind g a b p)]
  exact hb

lemma tended_addRequest (hg : g.Tidy L) {parent : Option RequestId}
    (hparent : ∀ p, parent = some p → p.index < g.requests.size) :
    Tended g L (g.addRequest parent).2 := by
  have hgrows : g.Grows (g.addRequest parent).2 := by
    refine ⟨le_rfl, le_rfl, ?_⟩
    rw [size_requests_addRequest]
    exact Nat.le_succ _
  refine hg.extend hgrows rfl (fun a => (hg.closed.source a).mono hgrows) fun r => ?_
  rw [request_addRequest]
  split
  · refine .inr ⟨by simp [Request.clauseNodes], fun p hp => ?_, fun a ha => ?_⟩
    · exact (hparent p hp).trans_le hgrows.requests
    · simp [Request.origins, Request.sources] at ha
  · exact .inl rfl

/-- The empty graph is tidy. -/
lemma tidy_empty : ({} : Graph).Tidy [] := by
  have hnode : ∀ n, ({} : Graph).node n = .const .null := fun n => node_of_size_le (Nat.zero_le _)
  have hparent : ∀ n, ({} : Graph).parent? n = none := fun n => parent?_of_size_le (Nat.zero_le _)
  have hrequest : ∀ r, ({} : Graph).request r = {} := fun r => request_of_size_le (Nat.zero_le _)
  refine ⟨⟨fun n => ?_, fun n c hc => ?_, fun n o ho => ?_, fun a => ?_, fun r => ?_, fun r n hn => ?_⟩,
    ⟨fun n c hc => ?_, fun n c hc => ?_, fun n => ?_, fun r n hn => ?_, fun r => ?_⟩,
    List.nodup_nil, by simp⟩
  · rw [hnode]
    exact ⟨by simp [Node.source?], by simp⟩
  · simp [hnode, Node.children] at hc
  · rw [hparent] at ho
    cases ho
  · exact ⟨fun r hr => (by cases hr), fun b hb => (by cases hb)⟩
  · rw [hrequest]
    exact ⟨by simp, by simp [Request.origins, Request.sources]⟩
  · simp [hrequest, Request.clauseNodes] at hn
  · simp [hnode, Node.children] at hc
  · simp [hnode, Node.children] at hc
  · simp [hnode, Node.children]
  · simp [hrequest, Request.clauseNodes] at hn
  · simp [hrequest, Request.clauseNodes]

/-! ### Clauses -/

section Clauses

/-- A request changes, but takes no node. -/
lemma tended_modifyRequest {f : Request → Request} (hg : g.Tidy L) (hr : r.index < g.requests.size)
    (hf : (f (g.request r)).Inside g)
    (hclause : (f (g.request r)).clauseNodes.Subperm (g.request r).clauseNodes) :
    Tended g L (g.modifyRequest r f) :=
  tended_amend [] [] hg hr hf hclause

/-- A clause takes a loose node. -/
lemma tended_put {f : Request → Request} (hg : g.Tidy (n :: L)) (hr : r.index < g.requests.size)
    (hf : (f (g.request r)).Inside g)
    (hclause : (f (g.request r)).clauseNodes.Perm (n :: (g.request r).clauseNodes)) :
    Tended g L ((g.attach r n).modifyRequest r f) :=
  tended_amend [n] [] hg hr hf hclause.subperm

/-- Clauses are given up. -/
lemma tended_release (ms : List NodeId) {f : Request → Request} (hg : g.Tidy L)
    (hr : r.index < g.requests.size) (hf : (f (g.request r)).Inside g)
    (hclause : (ms ++ (f (g.request r)).clauseNodes).Perm (g.request r).clauseNodes) :
    Tended g (ms ++ L) (g.modifyRequest r f) :=
  tended_amend [] ms hg hr hf hclause.subperm

lemma tended_pushItem {i : Item} (hg : g.Tidy (i.node :: L)) (hr : r.index < g.requests.size) :
    Tended g L (g.pushItem r i) := by
  refine tended_put hg hr (hg.closed.request r) (List.perm_iff_count.2 fun m => ?_)
  simp only [Request.clauseNodes, List.map_append, List.map_cons, List.map_nil, List.count_append,
    List.count_cons, List.count_nil]
  omega

lemma tended_pushOrder (hg : g.Tidy (n :: L)) (hr : r.index < g.requests.size) (ascending : Bool) :
    Tended g L (g.pushOrder r n ascending) := by
  refine tended_put hg hr (hg.closed.request r) (List.perm_iff_count.2 fun m => ?_)
  simp only [Request.clauseNodes, List.map_append, List.map_cons, List.map_nil, List.count_append,
    List.count_cons, List.count_nil]
  omega

lemma tended_pushGroup (hg : g.Tidy (n :: L)) (hr : r.index < g.requests.size)
    (member : Option PropertyRef) : Tended g L (g.pushGroup r n member) := by
  refine tended_put hg hr (hg.closed.request r) (List.perm_iff_count.2 fun m => ?_)
  simp only [Request.clauseNodes, List.count_append, List.count_cons, List.count_nil]
  omega

lemma tended_pushJoin {j : Join} (hg : g.Tidy (j.condition :: L)) (hr : r.index < g.requests.size)
    (hj : j.source.index < g.aliases.size) : Tended g L (g.pushJoin r j) := by
  refine tended_put hg hr ⟨(hg.closed.request r).1, fun a ha => ?_⟩ (List.perm_iff_count.2 fun m => ?_)
  · rw [Request.mem_origins] at ha
    rcases ha with ha | ⟨k, hk, rfl⟩ | ha
    · exact (hg.closed.request r).2 a (Request.mem_origins.2 (.inl ha))
    · rcases List.mem_append.1 hk with hk | hk
      · exact (hg.closed.request r).2 _ (Request.mem_origins.2 (.inr (.inl ⟨k, hk, rfl⟩)))
      · rw [List.mem_singleton.1 hk]
        exact hj
    · exact (hg.closed.request r).2 a (Request.mem_origins.2 (.inr (.inr ha)))
  · simp only [Request.clauseNodes, List.map_append, List.map_cons, List.map_nil, List.count_append,
      List.count_cons, List.count_nil]
    omega

lemma tended_pushAssignment {s : Assignment} (hg : g.Tidy (s.column :: s.value :: L))
    (hr : r.index < g.requests.size) : Tended g L (g.pushAssignment r s) := by
  refine tended_amend [s.column, s.value] [] hg hr (hg.closed.request r) ?_
  refine (List.perm_iff_count.2 fun m => ?_).subperm
  simp only [Request.clauseNodes, List.flatMap_append, List.flatMap_cons, List.flatMap_nil,
    List.nil_append, List.append_nil, List.count_append, List.count_cons, List.count_nil]
  omega

lemma tended_clearItems (hg : g.Tidy L) (hr : r.index < g.requests.size) :
    Tended g ((g.request r).items.map Item.node ++ L) (g.clearItems r) := by
  refine tended_release _ hg hr (hg.closed.request r) (List.perm_iff_count.2 fun m => ?_)
  simp only [Request.clauseNodes, List.map_nil, List.count_append, List.count_nil]
  omega

/-- The condition of a join becomes loose when the join is taken out. -/
lemma tended_dropJoin (hg : g.Tidy L) (hr : r.index < g.requests.size) {a : AliasId} {j : Join}
    (hj : (g.request r).joinFor? a = some j) :
    Tended g (j.condition :: L) (g.dropJoin r a) ∧ j.source.index < g.aliases.size := by
  have hmem : j ∈ (g.request r).joins := List.mem_of_find?_eq_some hj
  have hinside := hg.closed.request r
  have hsource : j.source ∈ (g.request r).origins := Request.mem_origins.2 (.inr (.inl ⟨j, hmem, rfl⟩))
  refine ⟨tended_release [j.condition] hg hr ⟨hinside.1, fun b hb => ?_⟩ ?_, hinside.2 _ hsource⟩
  · refine hinside.2 b ?_
    rw [Request.mem_origins] at hb ⊢
    rcases hb with hb | ⟨k, hk, rfl⟩ | hb
    · exact .inl hb
    · exact .inr (.inl ⟨k, List.mem_of_mem_eraseP hk, rfl⟩)
    · exact .inr (.inr hb)
  · obtain ⟨hj, before, after, hjoins, hbefore⟩ := List.find?_eq_some_iff_append.1 hj
    have herase : (g.request r).joins.eraseP (fun k => k.source = a) = before ++ after := by
      rw [hjoins, List.eraseP_append_right _ fun k hk => by simpa using hbefore k hk,
        List.eraseP_cons_of_pos (p := fun k : Join => k.source = a) hj]
    refine List.perm_iff_count.2 fun m => ?_
    simp only [Request.clauseNodes, herase]
    rw [hjoins]
    simp only [List.map_append, List.map_cons, List.count_append, List.count_cons, List.count_nil]
    omega

/-! ### Conditions -/

/-- A new node and a change of a request do not meet. -/
lemma add_modifyRequest (g : Graph) (r : RequestId) (f : Request → Request) (x : Node) :
    (g.modifyRequest r f).add x = ((g.add x).1, (g.add x).2.modifyRequest r f) := by
  have hadopt : ∀ (ns : List NodeId) (o : Owner) (g : Graph),
      ns.foldl (fun g c => g.setParent o c) (g.modifyRequest r f) =
        (ns.foldl (fun g c => g.setParent o c) g).modifyRequest r f := by
    intro ns o g
    induction ns generalizing g with
    | nil => rfl
    | cons n ns ih => exact ih (g.setParent o n)
  unfold add
  dsimp only
  rw [hadopt]
  rfl

lemma modifyRequest_modifyRequest (g : Graph) (r : RequestId) (f f' : Request → Request) :
    (g.modifyRequest r f).modifyRequest r f' = g.modifyRequest r fun q => f' (f q) := by
  have hrequests : (g.requests.modify r.index f).modify r.index f' =
      g.requests.modify r.index fun q => f' (f q) := by
    refine Array.ext (by simp) fun i _ _ => ?_
    simp only [Array.getElem_modify]
    split <;> rfl
  simp only [modifyRequest, hrequests]

/-- A clause that holds at most one condition takes the conjunction of it with another one. -/
lemma tended_conjoin (get : Request → Option NodeId) (set : Option NodeId → Request → Request)
    (hg : g.Tidy (n :: L)) (hr : r.index < g.requests.size)
    (hset : ∀ o p q, set o (set p q) = set o q) (hinside : ∀ o, (set o (g.request r)).Inside g)
    (hself : set (get (g.request r)) (g.request r) = g.request r)
    (hclause : ∀ o q, (set o q).clauseNodes.Perm (o.toList ++ (set none q).clauseNodes)) :
    Tended g L (((g.conjoin (get (g.request r)) n).2.attach r
      (g.conjoin (get (g.request r)) n).1).modifyRequest r
        (set (some (g.conjoin (get (g.request r)) n).1))) := by
  have hold := hclause (get (g.request r)) (g.request r)
  rw [hself] at hold
  cases hget : get (g.request r) with
  | none =>
    refine tended_put hg hr (hinside _) ((hclause (some n) _).trans ?_)
    rw [hget] at hold
    exact (hold.symm.cons n)
  | some m =>
    rw [hget] at hold
    -- the old condition becomes loose first
    have hfree := tended_release [m] hg hr (hinside none) hold.symm
    have hfree' : (g.modifyRequest r (set none)).Tidy ((Node.binary .and m n).children ++ L) := hfree.tidy
    have hadd := tended_add hfree' ⟨by simp [Node.source?], by simp⟩
    have hboth : Tended g (⟨g.entries.size⟩ :: L)
        ((g.add (.binary .and m n)).2.modifyRequest r (set none)) := by
      have hboth := hfree.trans hadd
      rw [add_modifyRequest] at hboth
      exact hboth
    have hr' : r.index < ((g.add (.binary .and m n)).2.modifyRequest r (set none)).requests.size :=
      hr.trans_le hboth.grows.requests
    have hself' : ((g.add (.binary .and m n)).2.modifyRequest r (set none)).request r =
        set none (g.request r) := by
      rw [request_modifyRequest_self _ _ (by simpa using hr), request_add]
    have hput := tended_put (f := set (some ⟨g.entries.size⟩)) hboth.tidy hr' ?_ ?_
    · have hsame : (((g.add (.binary .and m n)).2.modifyRequest r (set none)).attach r
          ⟨g.entries.size⟩).modifyRequest r (set (some ⟨g.entries.size⟩)) =
          ((g.add (.binary .and m n)).2.attach r ⟨g.entries.size⟩).modifyRequest r
            (set (some ⟨g.entries.size⟩)) := by
        have hmodify := modifyRequest_modifyRequest ((g.add (.binary .and m n)).2.attach r
          ⟨g.entries.size⟩) r (set none) (set (some ⟨g.entries.size⟩))
        simp only [hset] at hmodify
        exact hmodify
      rw [hsame] at hput
      exact hboth.trans hput
    · rw [hself', hset]
      exact (hinside _).mono hboth.grows
    · rw [hself', hset]
      exact hclause (some _) _

lemma tended_andFilter (hg : g.Tidy (n :: L)) (hr : r.index < g.requests.size) :
    Tended g L (g.andFilter r n) := by
  refine tended_conjoin Request.filter (fun o q => { q with filter := o }) hg hr
    (fun _ _ _ => rfl) (fun _ => hg.closed.request r) rfl fun o q => List.perm_iff_count.2 fun m => ?_
  simp only [Request.clauseNodes, Option.toList_none, List.count_append, List.count_nil]
  omega

lemma tended_andHaving (hg : g.Tidy (n :: L)) (hr : r.index < g.requests.size) :
    Tended g L (g.andHaving r n) := by
  refine tended_conjoin Request.having (fun o q => { q with having := o }) hg hr
    (fun _ _ _ => rfl) (fun _ => hg.closed.request r) rfl fun o q => List.perm_iff_count.2 fun m => ?_
  simp only [Request.clauseNodes, Option.toList_none, List.count_append, List.count_nil]
  omega

end Clauses

end Graph

end EntityQuery.Sql
