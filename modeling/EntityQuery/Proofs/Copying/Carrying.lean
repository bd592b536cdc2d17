import EntityQuery.Proofs.Ownership.Graphs

/-!
What stands in a value, and values that do not contain themselves.

* `Carries`: a part stands directly in another one. The table that a request writes is a name and no
  part of it.
* `Layered`: no request embeds itself. On a layered graph the ways down from a part end.
* `depth`: the number of parts below a part. Where the ways down end it falls on each of them, so that a
  walk has no more steps than the graph has parts.
-/

namespace EntityQuery.Sql

/-- A part of a graph. -/
def Part.Inside (g : Graph) : Part → Prop
  | .node n => n.index < g.entries.size
  | .request r => r.index < g.requests.size

/-- All ways down from a part end. -/
def Ends (R : Part → Part → Prop) (x : Part) : Prop := Acc (fun y x => R x y) x

namespace Ends

variable {R : Part → Part → Prop} {x y : Part}

lemma step (hx : Ends R x) (h : R x y) : Ends R y := hx.inv h

/-- Nothing on the ways down from a part is below itself. -/
lemma not_below_self (hx : Ends R x) : ¬ Relation.TransGen R x x := by
  induction hx with
  | intro x _ ih =>
    intro hxx
    obtain ⟨y, hxy, hyx⟩ := Relation.TransGen.head'_iff.1 hxx
    exact ih y hxy (Relation.TransGen.tail' hyx hxy)

end Ends

namespace Graph

/-! ### Parts of parts -/

/-- A part stands directly in another one. -/
inductive Carries (g : Graph) : Part → Part → Prop
  | child {n c : NodeId} (h : c ∈ (g.node n).children) : Carries g (.node n) (.node c)
  | sub {n : NodeId} {r : RequestId} (h : g.node n = .sub r) : Carries g (.node n) (.request r)
  | clause {r : RequestId} {n : NodeId} (h : n ∈ (g.request r).clauseNodes) :
      Carries g (.request r) (.node n)
  | source {r s : RequestId} {a : AliasId} (h : a ∈ (g.request r).sources)
      (hs : (g.aliasOf a).origin = .request s) : Carries g (.request r) (.request s)

/-- A part is another one or stands in it. -/
def Within (g : Graph) : Part → Part → Prop := Relation.ReflTransGen g.Carries

/-- A request embeds another one: in a value of a clause, or as a derived table among its sources. -/
def Embeds (g : Graph) (r s : RequestId) : Prop :=
  (∃ n ∈ (g.request r).clauseNodes, ∃ m, g.Below n m ∧ g.node m = .sub s) ∨
    ∃ a ∈ (g.request r).sources, (g.aliasOf a).origin = .request s

/-- No request embeds itself, directly or through others. -/
def Layered (g : Graph) : Prop := ∀ r, ¬ Relation.TransGen g.Embeds r r

variable {g h : Graph} {x y : Part}

/-- What a request embeds is nested in it. -/
lemma Acyclic.layered (hg : g.Acyclic) : g.Layered := by
  intro r hr
  refine hg r (Relation.TransGen.mono (fun q s hqs => ?_) _ _ hr)
  rcases hqs with h | ⟨a, ha, hs⟩
  · exact .inl h
  · exact .inr ⟨a, List.mem_append_left _ ha, hs⟩

lemma Closed.inside_of_carries (hg : g.Closed) (h : g.Carries x y) : y.Inside g := by
  cases h with
  | child h => exact hg.child _ _ h
  | sub h => exact (hg.node _).2 _ h
  | clause h => exact hg.clause _ _ h
  | source h hs => exact (hg.source _).1 _ hs

lemma Closed.inside_of_within (hg : g.Closed) (hx : x.Inside g) (h : g.Within x y) : y.Inside g := by
  induction h with
  | refl => exact hx
  | tail _ h _ => exact hg.inside_of_carries h

/-! ### Ways down -/

/-- A way down from a request leads through requests that are embedded one in the other. -/
lemma embeds_of_carries {r : RequestId} (h : Relation.TransGen g.Carries (.request r) x) :
    match x with
    | .node m => ∃ q, Relation.ReflTransGen g.Embeds r q ∧ ∃ n ∈ (g.request q).clauseNodes, g.Below n m
    | .request s => Relation.TransGen g.Embeds r s := by
  induction h with
  | single h =>
    cases h with
    | clause h => exact ⟨r, .refl, _, h, .refl⟩
    | source h hs => exact .single (.inr ⟨_, h, hs⟩)
  | tail _ h ih =>
    cases h with
    | child h =>
      obtain ⟨q, hq, n, hn, hb⟩ := ih
      exact ⟨q, hq, n, hn, .tail hb h⟩
    | sub h =>
      obtain ⟨q, hq, n, hn, hb⟩ := ih
      exact Relation.TransGen.tail' hq (.inl ⟨n, hn, _, hb, h⟩)
    | clause h => exact ⟨_, ih.to_reflTransGen, _, h, .refl⟩
    | source h hs => exact .tail ih (.inr ⟨_, h, hs⟩)

/-- On a layered graph nothing stands in itself. -/
lemma Layered.not_carries_self (hg : g.Layered) (ho : g.Ordered) (x : Part) :
    ¬ Relation.TransGen g.Carries x x := by
  have hrequest : ∀ r, ¬ Relation.TransGen g.Carries (.request r) (.request r) := fun r hr =>
    hg r (embeds_of_carries hr)
  -- a way from a node back to it passes a request, because children are older
  have hnode : ∀ (n : NodeId) y, Relation.TransGen g.Carries (.node n) y →
      (∃ r, Relation.TransGen g.Carries (.node n) (.request r) ∧
        Relation.ReflTransGen g.Carries (.request r) y) ∨ ∃ m, y = .node m ∧ m.index < n.index := by
    intro n y h
    induction h with
    | single h =>
      cases h with
      | child h => exact .inr ⟨_, rfl, ho _ _ h⟩
      | sub h => exact .inl ⟨_, .single (.sub h), .refl⟩
    | tail h' h ih =>
      rcases ih with ⟨r, hr, hry⟩ | ⟨m, rfl, hm⟩
      · exact .inl ⟨r, hr, .tail hry h⟩
      · cases h with
        | child h => exact .inr ⟨_, rfl, (ho _ _ h).trans hm⟩
        | sub h => exact .inl ⟨_, .tail h' (.sub h), .refl⟩
  intro hxx
  cases x with
  | request r => exact hrequest r hxx
  | node n =>
    rcases hnode n _ hxx with ⟨r, hnr, hrn⟩ | ⟨m, heq, hm⟩
    · exact hrequest r (Relation.TransGen.trans_right hrn hnr)
    · cases heq
      exact hm.false

/-! ### Depth -/

section Depth

open Classical

/-- The parts of a graph, counted. -/
def partAt (g : Graph) (i : Nat) : Part :=
  if i < g.entries.size then .node ⟨i⟩ else .request ⟨i - g.entries.size⟩

/-- The number of parts of the graph that are below a part. -/
noncomputable def depth (g : Graph) (R : Part → Part → Prop) (x : Part) : Nat :=
  ((Finset.range (g.entries.size + g.requests.size)).filter fun i =>
    Relation.TransGen R x (g.partAt i)).card

variable {R : Part → Part → Prop}

lemma exists_partAt (hx : x.Inside g) :
    ∃ i < g.entries.size + g.requests.size, g.partAt i = x := by
  cases x with
  | node n =>
    have hn : n.index < g.entries.size := hx
    exact ⟨n.index, by omega, by simp [partAt, hn]⟩
  | request r =>
    have hr : r.index < g.requests.size := hx
    exact ⟨g.entries.size + r.index, by omega, by simp [partAt]⟩

/-- Less is below a part than below the part that it stands in. -/
lemma depth_lt_depth (hy : y.Inside g) (hself : ¬ Relation.TransGen R y y) (hxy : R x y) :
    g.depth R y < g.depth R x := by
  obtain ⟨i, hi, hiy⟩ := exists_partAt hy
  refine Finset.card_lt_card (Finset.ssubset_iff_subset_ne.2 ⟨?_, ?_⟩)
  · intro j hj
    rw [Finset.mem_filter] at hj ⊢
    exact ⟨hj.1, .head hxy hj.2⟩
  · intro heq
    have hmem : i ∈ (Finset.range (g.entries.size + g.requests.size)).filter fun i =>
        Relation.TransGen R x (g.partAt i) := by
      rw [Finset.mem_filter, hiy]
      exact ⟨Finset.mem_range.2 hi, .single hxy⟩
    rw [← heq, Finset.mem_filter, hiy] at hmem
    exact hself hmem.2

lemma depth_lt_size (hx : x.Inside g) (hself : ¬ Relation.TransGen R x x) :
    g.depth R x < g.entries.size + g.requests.size := by
  obtain ⟨i, hi, hix⟩ := exists_partAt hx
  have hlt : g.depth R x < (Finset.range (g.entries.size + g.requests.size)).card := by
    refine Finset.card_lt_card (Finset.ssubset_iff_subset_ne.2 ⟨Finset.filter_subset _ _, ?_⟩)
    intro heq
    have hmem : i ∈ Finset.range (g.entries.size + g.requests.size) := Finset.mem_range.2 hi
    rw [← heq, Finset.mem_filter, hix] at hmem
    exact hself hmem.2
  simpa using hlt

end Depth

/-- **All ways down on a layered graph end.** -/
theorem Layered.ends (hg : g.Layered) (ho : g.Ordered) (hclosed : g.Closed) (x : Part) :
    Ends g.Carries x := by
  have hfalls : ∀ x y, g.Carries x y → g.depth g.Carries y < g.depth g.Carries x := fun x y hxy =>
    depth_lt_depth (hclosed.inside_of_carries hxy) (hg.not_carries_self ho y) hxy
  induction hd : g.depth g.Carries x using Nat.strong_induction_on generalizing x with
  | _ d ih =>
    refine ⟨x, fun y hxy => ih _ ?_ y rfl⟩
    rw [← hd]
    exact hfalls x y hxy

/-- Where no request is nested in itself, the ways through written tables end as well. -/
lemma Acyclic.ends (hg : g.Acyclic) (ho : g.Ordered) (x : Part) : Ends g.Holds x := by
  have hfalls : WellFounded fun y x => g.Holds x y :=
    Subrelation.wf (fun h => (ranked_rank ho hg).falls h) (measure g.rank).wf
  exact hfalls.apply x

lemma size_le_height (g : Graph) : g.entries.size + g.requests.size ≤ g.height := by
  have hexpand : g.height = g.entries.size * g.requests.size + g.entries.size + g.requests.size + 2 := by
    unfold height; ring
  omega

end Graph

/-! ### Walks -/

namespace Ends

variable {g : Graph} {R : Part → Part → Prop} {x y : Part}

/-- The steps of a walk suffice for a part of the graph. -/
lemma enough (hx : Ends R x) (hin : x.Inside g) {fuel : Nat}
    (hfuel : g.entries.size + g.requests.size ≤ fuel) : Graph.Enough (g.depth R) x fuel [] :=
  ⟨(Graph.depth_lt_size hin hx.not_below_self).trans_le hfuel, by simp⟩

lemma falls (hx : Ends R x) (h : R x y) (hy : y.Inside g) : g.depth R y < g.depth R x :=
  Graph.depth_lt_depth hy (hx.step h).not_below_self h

end Ends

lemma Graph.Closed.falls {g : Graph} (hg : g.Closed) {x y : Part} (hx : Ends g.Carries x)
    (h : g.Carries x y) : g.depth g.Carries y < g.depth g.Carries x := hx.falls h (hg.inside_of_carries h)

end EntityQuery.Sql
