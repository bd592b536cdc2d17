import EntityQuery.Proofs.Copying.Making

/-!
Graphs that are built step by step.

* `Assembles g h`: one operation leads from `g` to `h`. Every operation gets handles of the graph; what
  changes an alias or a request freely leaves handles of the graph in it.
* `Assembled g`: operations lead from the empty graph to `g`. Such a graph is formed.
-/

namespace EntityQuery.Sql

namespace Request

variable {q : Request} {n m : NodeId}

lemma mem_clauseNodes_setHaving (h : n ∈ { q with having := some m }.clauseNodes) :
    n ∈ q.clauseNodes ∨ n = m := by
  simp only [clauseNodes, List.mem_append, Option.mem_toList, Option.some.injEq] at h ⊢
  grind

lemma mem_clauseNodes_pushItem {i : Item} (h : n ∈ { q with items := q.items ++ [i] }.clauseNodes) :
    n ∈ q.clauseNodes ∨ n = i.node := by
  simp only [clauseNodes, List.map_append, List.mem_append, List.map_cons, List.map_nil,
    List.mem_singleton] at h ⊢
  grind

lemma mem_clauseNodes_pushGroup {p : Option PropertyRef}
    (h : n ∈ { q with groups := q.groups ++ [m], groupMembers := q.groupMembers ++ [p] }.clauseNodes) :
    n ∈ q.clauseNodes ∨ n = m := by
  simp only [clauseNodes, List.mem_append, List.mem_singleton] at h ⊢
  grind

lemma mem_clauseNodes_pushJoin {j : Join} (h : n ∈ { q with joins := q.joins ++ [j] }.clauseNodes) :
    n ∈ q.clauseNodes ∨ n = j.condition := by
  simp only [clauseNodes, List.map_append, List.mem_append, List.map_cons, List.map_nil,
    List.mem_singleton] at h ⊢
  grind

lemma mem_origins_pushJoin {j : Join} {a : AliasId}
    (h : a ∈ { q with joins := q.joins ++ [j] }.origins) : a ∈ q.origins ∨ a = j.source := by
  simp only [mem_origins, List.mem_append, List.mem_singleton] at h ⊢
  grind

end Request

namespace Request.Fits

variable {g : Graph} {q q' : Request}

/-- A request gets new clauses and sources of the graph. -/
lemma amend (hq : q.Fits g) (hparent : q'.parent = q.parent)
    (horigins : ∀ a ∈ q'.origins, a ∈ q.origins ∨ a.index < g.aliases.size)
    (hclause : ∀ n ∈ q'.clauseNodes, n ∈ q.clauseNodes ∨ n.index < g.entries.size)
    (hkeyed : q'.groupMembers.length = q'.groups.length) : q'.Fits g := by
  refine ⟨⟨fun p hp => hq.inside.1 p (hparent ▸ hp), fun a ha => ?_⟩, fun n hn => ?_, hkeyed⟩
  · exact (horigins a ha).elim (hq.inside.2 a) id
  · exact (hclause n hn).elim (hq.clause n) id

end Request.Fits

namespace Graph

/-- One operation on a graph. -/
inductive Assembles (g : Graph) : Graph → Prop
  | add {x : Node} (hx : x.Inside g) (hchildren : ∀ c ∈ x.children, c.index < g.entries.size) :
      Assembles g (g.add x).2
  | addAlias {d : Alias} (hd : d.Inside g) : Assembles g (g.addAlias d).2
  | modifyAlias {a : AliasId} {f : Alias → Alias} (hf : (f (g.aliasOf a)).Inside g) :
      Assembles g (g.modifyAlias a f)
  | bind (a : AliasId) (p : ParamId) : Assembles g (g.bind a p)
  | addRequest {parent : Option RequestId} (hparent : ∀ p, parent = some p → p.index < g.requests.size) :
      Assembles g (g.addRequest parent).2
  | modifyRequest {r : RequestId} {f : Request → Request} (hf : (f (g.request r)).Fits g) :
      Assembles g (g.modifyRequest r f)
  | clearItems (r : RequestId) : Assembles g (g.clearItems r)
  | pushItem {r : RequestId} {i : Item} (hr : r.index < g.requests.size)
      (hi : i.node.index < g.entries.size) : Assembles g (g.pushItem r i)
  | andFilter {r : RequestId} {n : NodeId} (hr : r.index < g.requests.size)
      (hn : n.index < g.entries.size) : Assembles g (g.andFilter r n)
  | andHaving {r : RequestId} {n : NodeId} (hr : r.index < g.requests.size)
      (hn : n.index < g.entries.size) : Assembles g (g.andHaving r n)
  | pushGroup {r : RequestId} {n : NodeId} (member : Option PropertyRef)
      (hr : r.index < g.requests.size) (hn : n.index < g.entries.size) :
      Assembles g (g.pushGroup r n member)
  | pushOrder {r : RequestId} {n : NodeId} (ascending : Bool) (hr : r.index < g.requests.size)
      (hn : n.index < g.entries.size) : Assembles g (g.pushOrder r n ascending)
  | pushJoin {r : RequestId} {j : Join} (hr : r.index < g.requests.size)
      (hsource : j.source.index < g.aliases.size) (hn : j.condition.index < g.entries.size) :
      Assembles g (g.pushJoin r j)
  | takeJoin (r : RequestId) (a : AliasId) : Assembles g (g.takeJoin r a).2
  | pushAssignment {r : RequestId} {s : Assignment} (hr : r.index < g.requests.size)
      (hcolumn : s.column.index < g.entries.size) (hvalue : s.value.index < g.entries.size) :
      Assembles g (g.pushAssignment r s)
  | copy {s : Swap} {n : NodeId} (hs : s.Inside g) (hn : n.index < g.entries.size) :
      Assembles g ((Build.copy s n).run g).2

/-- Operations lead from the empty graph to a graph. -/
def Assembled (g : Graph) : Prop := Relation.ReflTransGen Assembles {} g

variable {g h : Graph} {r : RequestId} {n : NodeId}

/-! ### Conditions -/

/-- A condition that is added to others. -/
structure Conjoined (g : Graph) (m : NodeId) (h : Graph) : Prop where
  formed : h.Formed
  grows : g.Grows h
  inside : m.index < h.entries.size
  request : ∀ r, h.request r = g.request r

lemma Formed.conjoin (hg : g.Formed) {old : Option NodeId}
    (hold : ∀ m, old = some m → m.index < g.entries.size) (hn : n.index < g.entries.size) :
    Conjoined g (g.conjoin old n).1 (g.conjoin old n).2 := by
  cases old with
  | none => exact ⟨hg, .refl g, hn, fun _ => rfl⟩
  | some m =>
    have hchildren : ∀ c ∈ (Node.binary .and m n).children, c.index < g.entries.size :=
      Node.forall_children_binary (hold m rfl) hn
    have hinside : (Node.binary .and m n).Inside g := ⟨by simp [Node.source?], by simp⟩
    exact ⟨hg.add hinside hchildren, grows_add g _, index_add_lt g _, request_add g _⟩

/-- A request gets a condition in place of another one. -/
lemma Formed.place {m : NodeId} (hm : Conjoined g m h) (hr : r.index < g.requests.size)
    {f : Request → Request} (hf : (f (g.request r)).Fits h) :
    ((h.attach r m).modifyRequest r f).Formed := by
  refine hm.formed.put (hr.trans_le hm.grows.requests) m ?_
  rw [hm.request]
  exact hf

/-! ### Invariant -/

/-- **Every operation gives a formed graph.** -/
theorem Assembles.formed (hg : g.Formed) (hgh : g.Assembles h) : h.Formed := by
  cases hgh with
  | add hx hchildren => exact hg.add hx hchildren
  | addAlias hd => exact hg.addAlias hd
  | modifyAlias hf => exact hg.modifyAlias hf
  | bind a p =>
    refine hg.modifyAlias ?_
    split
    · exact hg.source a
    · exact hg.source a
  | addRequest hparent => exact hg.addRequest hparent
  | modifyRequest hf => exact hg.modifyRequest hf
  | clearItems r =>
    refine hg.modifyRequest ((hg.request r).amend rfl (fun a ha => .inl ha) (fun n hn => .inl ?_)
      (hg.request r).keyed)
    simp only [Request.clauseNodes, List.mem_append] at hn ⊢
    grind
  | @pushItem r i hr hi =>
    refine hg.put hr _ ((hg.request r).amend rfl (fun a ha => .inl ha) (fun n hn => ?_)
      (hg.request r).keyed)
    rcases Request.mem_clauseNodes_pushItem hn with hold | rfl
    · exact .inl hold
    · exact .inr hi
  | @andFilter r n hr hn =>
    have hold : ∀ m, (g.request r).filter = some m → m.index < g.entries.size := fun m hm =>
      (hg.request r).clause m (Request.mem_clauseNodes.2 (.inr (.inr (.inl hm))))
    have hm := hg.conjoin hold hn
    refine Formed.place hm hr (((hg.request r).mono hm.grows).amend rfl (fun a ha => .inl ha)
      (fun n hn => ?_) (hg.request r).keyed)
    rcases Request.mem_clauseNodes_setFilter hn with hold | rfl
    · exact .inl hold
    · exact .inr hm.inside
  | @andHaving r n hr hn =>
    have hold : ∀ m, (g.request r).having = some m → m.index < g.entries.size := fun m hm =>
      (hg.request r).clause m (Request.mem_clauseNodes.2 (.inr (.inr (.inr (.inl hm)))))
    have hm := hg.conjoin hold hn
    refine Formed.place hm hr (((hg.request r).mono hm.grows).amend rfl (fun a ha => .inl ha)
      (fun m hm' => ?_) (hg.request r).keyed)
    rcases Request.mem_clauseNodes_setHaving hm' with hold | rfl
    · exact .inl hold
    · exact .inr hm.inside
  | @pushGroup r n member hr hn =>
    refine hg.put hr _ ((hg.request r).amend rfl (fun a ha => .inl ha) (fun m hm => ?_) ?_)
    · rcases Request.mem_clauseNodes_pushGroup hm with hold | rfl
      · exact .inl hold
      · exact .inr hn
    · rw [List.length_append, List.length_append, (hg.request r).keyed]
      rfl
  | @pushOrder r n ascending hr hn =>
    refine hg.put hr _ ((hg.request r).amend rfl (fun a ha => .inl ha) (fun m hm => ?_)
      (hg.request r).keyed)
    rcases Request.mem_clauseNodes_pushOrder.1 hm with hold | rfl
    · exact .inl hold
    · exact .inr hn
  | @pushJoin r j hr hsource hn =>
    refine hg.put hr _ ((hg.request r).amend rfl (fun a ha => ?_) (fun m hm => ?_) (hg.request r).keyed)
    · rcases Request.mem_origins_pushJoin ha with hold | rfl
      · exact .inl hold
      · exact .inr hsource
    · rcases Request.mem_clauseNodes_pushJoin hm with hold | rfl
      · exact .inl hold
      · exact .inr hn
  | takeJoin r a =>
    unfold Graph.takeJoin
    split
    · have hsub : ∀ j, j ∈ (g.request r).joins.eraseP (fun k => k.source = a) →
          j ∈ (g.request r).joins := fun j hj => List.mem_of_mem_eraseP hj
      refine hg.modifyRequest ((hg.request r).amend rfl (fun b hb => .inl ?_) (fun n hn => .inl ?_)
        (hg.request r).keyed)
      · rw [Request.mem_origins] at hb ⊢
        refine hb.imp_right (.imp_left ?_)
        rintro ⟨j, hj, hjb⟩
        exact ⟨j, hsub j hj, hjb⟩
      · rw [Request.mem_clauseNodes] at hn ⊢
        refine hn.imp_left ?_
        rintro ⟨j, hj, hjn⟩
        exact ⟨j, hsub j hj, hjn⟩
    · exact hg
  | @pushAssignment r s hr hcolumn hvalue =>
    have hattach := hg.attach hr s.column
    have hsize := size_entries_attach g r s.column
    refine hattach.put hr s.value (((hg.request r).mono (grows_attach g r s.column)).amend rfl
      (fun a ha => .inl ha) (fun m hm => ?_) (hg.request r).keyed)
    rw [hsize]
    rcases Request.mem_clauseNodes_pushAssignment.1 hm with hm | rfl | rfl
    · exact .inl hm
    · exact .inr hcolumn
    · exact .inr hvalue
  | @copy s n hs hn =>
    cases hrun : (Build.copy s n).run g with
    | mk result h =>
      cases result with
      | some m => exact (newCopy_copy hg hs hn hrun).1.formed
      | none =>
        rw [Build.eq_of_run_copy_eq_none hrun]
        exact hg

/-- **An assembled graph is formed.** -/
theorem Assembled.formed (hg : g.Assembled) : g.Formed := by
  induction hg with
  | refl => exact formed_empty
  | tail _ hstep ih => exact hstep.formed ih

end Graph

end EntityQuery.Sql
