import EntityQuery.Proofs.Ownership.Graphs

/-!
Graphs with right handles, and what an operation leaves as it was.

* `Formed`: all handles are in range, every node is younger than its children, and every group entry
  has a key member beside it. Every operation on such graphs gives such a graph.
* `Intact`: everything that was in a graph is in another one as it was, links included.
-/

namespace EntityQuery.Sql

/-- A request whose handles are in a graph, with a key member or none for every group entry. -/
structure Request.Fits (g : Graph) (q : Request) : Prop where
  inside : q.Inside g
  clause : ∀ n ∈ q.clauseNodes, n.index < g.entries.size
  keyed : q.groupMembers.length = q.groups.length

lemma Request.Fits.mono {g h : Graph} {q : Request} (hq : q.Fits g) (hgh : g.Grows h) : q.Fits h :=
  ⟨hq.inside.mono hgh, fun n hn => (hq.clause n hn).trans_le hgh.entries, hq.keyed⟩

namespace Graph

/-- All handles are in range, and nodes are younger than their children. -/
structure Formed (g : Graph) : Prop where
  ordered : g.Ordered
  node : ∀ n, (g.node n).Inside g
  owner : ∀ n o, g.parent? n = some o → o.Inside g
  source : ∀ a, (g.aliasOf a).Inside g
  request : ∀ r, (g.request r).Fits g

variable {g h k : Graph} {r : RequestId} {n : NodeId}

lemma Formed.closed (hg : g.Formed) : g.Closed where
  node := hg.node
  child n c hc := (hg.ordered n c hc).trans (lt_size_of_mem_children hc)
  owner := hg.owner
  source := hg.source
  request r := (hg.request r).inside
  clause r := (hg.request r).clause

/-! ### Operations -/

/-- A graph is formed if everything in it is as it was in a formed graph, or is right by itself. -/
lemma Formed.revise (hg : g.Formed) (hgrows : g.Grows h)
    (hnode : ∀ n, h.node n = g.node n ∨
      (h.node n).Inside h ∧ ∀ c ∈ (h.node n).children, c.index < n.index)
    (howner : ∀ n o, h.parent? n = some o → g.parent? n = some o ∨ o.Inside h)
    (hsource : ∀ a, h.aliasOf a = g.aliasOf a ∨ (h.aliasOf a).Inside h)
    (hrequest : ∀ r, h.request r = g.request r ∨ (h.request r).Fits h) : h.Formed where
  ordered n c hc := by
    rcases hnode n with hsame | ⟨-, hold⟩
    · rw [hsame] at hc
      exact hg.ordered n c hc
    · exact hold c hc
  node n := by
    rcases hnode n with hsame | ⟨hin, -⟩
    · rw [hsame]
      exact (hg.node n).mono hgrows
    · exact hin
  owner n o ho := by
    rcases howner n o ho with hold | hin
    · exact (hg.owner n o hold).mono hgrows
    · exact hin
  source a := by
    rcases hsource a with hsame | hin
    · rw [hsame]
      exact (hg.source a).mono hgrows
    · exact hin
  request r := by
    rcases hrequest r with hsame | hin
    · rw [hsame]
      exact (hg.request r).mono hgrows
    · exact hin

lemma formed_empty : ({} : Graph).Formed where
  ordered := tidy_empty.linked.ordered
  node := tidy_empty.closed.node
  owner := tidy_empty.closed.owner
  source := tidy_empty.closed.source
  request r := by
    refine ⟨tidy_empty.closed.request r, tidy_empty.closed.clause r, ?_⟩
    rw [request_of_size_le (Nat.zero_le _)]
    rfl

lemma grows_add (g : Graph) (x : Node) : g.Grows (g.add x).2 := by
  refine ⟨?_, ?_, ?_⟩
  · rw [size_entries_add]
    exact Nat.le_succ _
  · rw [aliases_add]
  · rw [requests_add]

lemma grows_addAlias (g : Graph) (d : Alias) : g.Grows (g.addAlias d).2 := by
  refine ⟨le_rfl, ?_, le_rfl⟩
  rw [size_aliases_addAlias]
  exact Nat.le_succ _

lemma grows_addRequest (g : Graph) (parent : Option RequestId) : g.Grows (g.addRequest parent).2 := by
  refine ⟨le_rfl, le_rfl, ?_⟩
  rw [size_requests_addRequest]
  exact Nat.le_succ _

lemma grows_modifyRequest (g : Graph) (r : RequestId) (f : Request → Request) :
    g.Grows (g.modifyRequest r f) := by
  refine ⟨le_rfl, le_rfl, ?_⟩
  rw [size_requests_modifyRequest]

lemma grows_attach (g : Graph) (r : RequestId) (n : NodeId) : g.Grows (g.attach r n) := by
  refine ⟨?_, le_rfl, le_rfl⟩
  rw [size_entries_attach]

lemma Formed.add (hg : g.Formed) {x : Node} (hx : x.Inside g)
    (hchildren : ∀ c ∈ x.children, c.index < g.entries.size) : (g.add x).2.Formed := by
  have hgrows := grows_add g x
  refine hg.revise hgrows (fun n => ?_) (fun n o ho => ?_) (fun a => .inl (aliasOf_add g x a))
    (fun r => .inl (request_add g x r))
  · by_cases hn : n.index = g.entries.size
    · rw [node_add, if_pos hn]
      refine .inr ⟨hx.mono hgrows, fun c hc => ?_⟩
      rw [hn]
      exact hchildren c hc
    · rw [node_add, if_neg hn]
      exact .inl rfl
  · rw [parent?_add] at ho
    split at ho
    · cases ho
      refine .inr ?_
      show g.entries.size < (g.add x).2.entries.size
      rw [size_entries_add]
      exact Nat.lt_succ_self _
    · exact .inl ho

lemma Formed.addAlias (hg : g.Formed) {d : Alias} (hd : d.Inside g) : (g.addAlias d).2.Formed := by
  have hgrows := grows_addAlias g d
  refine hg.revise hgrows (fun n => .inl rfl) (fun n o ho => .inl ho) (fun a => ?_) (fun r => .inl rfl)
  rw [aliasOf_addAlias]
  split
  · exact .inr (hd.mono hgrows)
  · exact .inl rfl

lemma Formed.addRequest (hg : g.Formed) {parent : Option RequestId}
    (hparent : ∀ p, parent = some p → p.index < g.requests.size) : (g.addRequest parent).2.Formed := by
  have hgrows := grows_addRequest g parent
  refine hg.revise hgrows (fun n => .inl rfl) (fun n o ho => .inl ho) (fun a => .inl rfl) fun r => ?_
  rw [request_addRequest]
  split
  · refine .inr ⟨⟨fun p hp => (hparent p hp).trans_le hgrows.requests, ?_⟩, ?_, rfl⟩
    · simp [Request.origins, Request.sources]
    · simp [Request.clauseNodes]
  · exact .inl rfl

lemma Formed.modifyRequest (hg : g.Formed) {f : Request → Request} (hf : (f (g.request r)).Fits g) :
    (g.modifyRequest r f).Formed := by
  have hgrows := grows_modifyRequest g r f
  refine hg.revise hgrows (fun n => .inl rfl) (fun n o ho => .inl ho) (fun a => .inl rfl) fun q => ?_
  by_cases hq : q = r
  · rw [hq]
    by_cases hr : r.index < g.requests.size
    · rw [request_modifyRequest_self _ _ hr]
      exact .inr (hf.mono hgrows)
    · rw [request_of_size_le (Nat.not_lt.1 hr), request_of_size_le]
      · exact .inl rfl
      · rw [size_requests_modifyRequest]
        exact Nat.not_lt.1 hr
  · exact .inl (request_modifyRequest_of_ne _ _ hq)

lemma Formed.modifyAlias (hg : g.Formed) {a : AliasId} {f : Alias → Alias}
    (hf : (f (g.aliasOf a)).Inside g) : (g.modifyAlias a f).Formed := by
  have hgrows : g.Grows (g.modifyAlias a f) := by
    refine ⟨le_rfl, ?_, le_rfl⟩
    simp [Graph.modifyAlias]
  refine hg.revise hgrows (fun n => .inl rfl) (fun n o ho => .inl ho) (fun b => ?_) fun r => .inl rfl
  by_cases hb : b.index = a.index ∧ a.index < g.aliases.size
  · refine .inr ?_
    obtain ⟨hindex, hlt⟩ := hb
    have heq : (g.modifyAlias a f).aliasOf b = f (g.aliasOf a) := by
      simp only [aliasOf, Graph.modifyAlias, Array.getD_eq_getD_getElem?, Array.getElem?_modify, hindex]
      simp [hlt]
    rw [heq]
    exact hf.mono hgrows
  · refine .inl ?_
    by_cases hindex : a.index = b.index
    · have hlt : ¬ b.index < g.aliases.size := fun h => hb ⟨hindex.symm, hindex ▸ h⟩
      simp [aliasOf, Graph.modifyAlias, hlt]
    · simp [aliasOf, Graph.modifyAlias, Array.getD_eq_getD_getElem?, Array.getElem?_modify, hindex]

lemma Formed.attach (hg : g.Formed) (hr : r.index < g.requests.size) (n : NodeId) :
    (g.attach r n).Formed := by
  refine hg.revise (grows_attach g r n) (fun m => .inl (node_attach g r n m)) (fun m o ho => ?_)
    (fun a => .inl (aliasOf_attach g r n a)) fun q => .inl (request_attach g r n q)
  rw [Graph.attach, parent?_setParent] at ho
  split at ho
  · cases ho
    exact .inr hr
  · exact .inl ho

/-- A request gets a node that is in the graph. -/
lemma Formed.put (hg : g.Formed) (hr : r.index < g.requests.size) (n : NodeId)
    {f : Request → Request} (hf : (f (g.request r)).Fits g) :
    ((g.attach r n).modifyRequest r f).Formed := by
  refine (hg.attach hr n).modifyRequest ?_
  rw [request_attach]
  exact hf.mono (grows_attach g r n)

/-! ### What stays -/

/-- Everything that is in a graph is in another one as it was. -/
structure Intact (g h : Graph) : Prop where
  grows : g.Grows h
  entry : ∀ n, n.index < g.entries.size → h.entry n = g.entry n
  aliasOf : ∀ a, a.index < g.aliases.size → h.aliasOf a = g.aliasOf a
  request : ∀ r, r.index < g.requests.size → h.request r = g.request r

namespace Intact

lemma refl (g : Graph) : g.Intact g := ⟨.refl g, fun _ _ => rfl, fun _ _ => rfl, fun _ _ => rfl⟩

lemma trans (hgh : g.Intact h) (hhk : h.Intact k) : g.Intact k where
  grows := hgh.grows.trans hhk.grows
  entry n hn := (hhk.entry n (hn.trans_le hgh.grows.entries)).trans (hgh.entry n hn)
  aliasOf a ha := (hhk.aliasOf a (ha.trans_le hgh.grows.aliases)).trans (hgh.aliasOf a ha)
  request r hr := (hhk.request r (hr.trans_le hgh.grows.requests)).trans (hgh.request r hr)

lemma node (hgh : g.Intact h) (hn : n.index < g.entries.size) : h.node n = g.node n := by
  rw [Graph.node, hgh.entry n hn, Graph.node]

lemma parent? (hgh : g.Intact h) (hn : n.index < g.entries.size) : h.parent? n = g.parent? n := by
  rw [Graph.parent?, hgh.entry n hn, Graph.parent?]

/-- A new node whose children are new as well. -/
lemma add (hgh : g.Intact h) {x : Node} (hx : ∀ c ∈ x.children, g.entries.size ≤ c.index) :
    g.Intact (h.add x).2 := by
  refine ⟨hgh.grows.trans (grows_add h x), fun n hn => ?_, fun a ha => ?_, fun r hr => ?_⟩
  · have hlt := hn.trans_le hgh.grows.entries
    have hnode := node_add_of_lt h x hlt
    have hparent : (h.add x).2.parent? n = h.parent? n := by
      rw [parent?_add, if_neg fun hmem => (hx n hmem.1).not_gt hn]
    rw [← hgh.entry n hn]
    exact congrArg₂ Entry.mk hnode hparent
  · rw [aliasOf_add]
    exact hgh.aliasOf a ha
  · rw [request_add]
    exact hgh.request r hr

lemma addAlias (g : Graph) (d : Alias) : g.Intact (g.addAlias d).2 :=
  ⟨grows_addAlias g d, fun _ _ => rfl, fun _ ha => aliasOf_addAlias_of_lt g d ha, fun _ _ => rfl⟩

lemma addRequest (g : Graph) (parent : Option RequestId) : g.Intact (g.addRequest parent).2 :=
  ⟨grows_addRequest g parent, fun _ _ => rfl, fun _ _ => rfl,
    fun _ hr => request_addRequest_of_lt g parent hr⟩

/-- A new request changes. -/
lemma modifyRequest (hgh : g.Intact h) (hr : g.requests.size ≤ r.index) (f : Request → Request) :
    g.Intact (h.modifyRequest r f) := by
  refine ⟨hgh.grows.trans (grows_modifyRequest h r f), hgh.entry, hgh.aliasOf, fun q hq => ?_⟩
  have hne : q ≠ r := by
    rintro rfl
    omega
  rw [request_modifyRequest_of_ne _ _ hne]
  exact hgh.request q hq

end Intact

end Graph

end EntityQuery.Sql
