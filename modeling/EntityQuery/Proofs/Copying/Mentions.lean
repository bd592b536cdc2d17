import EntityQuery.Proofs.Copying.Carrying
import EntityQuery.Proofs.Copying.Copied
import EntityQuery.Sql.Same

/-!
Aliases that occur in values and in their copies.

* `Occurs g x a`: the part `x`, or what it holds, names the alias `a`. A table that a request writes is held
  by it as well if it is derived. `mentions` finds the aliases that occur: `mentions_iff`.
* `Becomes`: what may take the place of an alias in a copy.
* `Carried Φ`: the property `Φ` of a part and its copy follows from what stands in them. It then holds of
  every part and its copy, the derived tables behind renamed aliases included: `Copied.carry`.
-/

namespace EntityQuery.Sql

/-- A part reads an alias, or has it among the aliases that it ranges over or writes. -/
def Part.Names (g : Graph) (a : AliasId) : Part → Prop
  | .node n => (g.node n).source? = some a
  | .request r => a ∈ (g.request r).origins

namespace Graph

variable {g h : Graph} {x y : Part} {n : NodeId} {r : RequestId} {a b : AliasId}

/-! ### Occurrences -/

/-- An alias is named by a part or by what it holds. -/
def Occurs (g : Graph) (x : Part) (a : AliasId) : Prop :=
  ∃ y, Relation.ReflTransGen g.Holds x y ∧ y.Names g a

/-- An alias ranges over a request in which another alias occurs. -/
def Covers (g : Graph) (b a : AliasId) : Prop :=
  ∃ s, (g.aliasOf b).origin = .request s ∧ g.Occurs (.request s) a

lemma Carries.holds (h : g.Carries x y) : g.Holds x y := by
  cases h with
  | child hc => exact .child hc
  | sub hr => exact .sub hr
  | clause hc => exact .clause hc
  | source ha hs => exact .source (List.mem_append_left _ ha) hs

/-- What is named inside a part occurs in it. -/
lemma Occurs.of_within (h : g.Within x y) (ha : y.Names g a) : g.Occurs x a :=
  ⟨y, Relation.ReflTransGen.mono (fun _ _ => Carries.holds) _ _ h, ha⟩

/-- A request names the alias that it writes. -/
lemma mem_origins_of_target (h : (g.request r).target = some a) : a ∈ (g.request r).origins :=
  List.mem_append_right _ (Option.mem_toList.2 h)

lemma occurs_iff : g.Occurs x a ↔ x.Names g a ∨ ∃ y, g.Holds x y ∧ g.Occurs y a := by
  constructor
  · rintro ⟨z, hz, hnames⟩
    rcases Relation.ReflTransGen.cases_head hz with rfl | ⟨y, hxy, hyz⟩
    · exact .inl hnames
    · exact .inr ⟨y, hxy, z, hyz, hnames⟩
  · rintro (hnames | ⟨y, hxy, z, hyz, hnames⟩)
    · exact ⟨x, .refl, hnames⟩
    · exact ⟨z, .head hxy hyz, hnames⟩

lemma occurs_node_iff : g.Occurs (.node n) a ↔ (g.node n).source? = some a ∨
    (∃ c ∈ (g.node n).children, g.Occurs (.node c) a) ∨
      ∃ r, g.node n = .sub r ∧ g.Occurs (.request r) a := by
  rw [occurs_iff]
  refine or_congr_right ⟨?_, ?_⟩
  · rintro ⟨y, hy, ha⟩
    cases hy with
    | child hc => exact .inl ⟨_, hc, ha⟩
    | sub hr => exact .inr ⟨_, hr, ha⟩
  · rintro (⟨c, hc, ha⟩ | ⟨r, hr, ha⟩)
    · exact ⟨_, .child hc, ha⟩
    · exact ⟨_, .sub hr, ha⟩

lemma occurs_sub_iff (hn : g.node n = .sub r) : g.Occurs (.node n) a ↔ g.Occurs (.request r) a := by
  rw [occurs_node_iff, hn]
  simp [Node.source?, Node.children]

lemma occurs_request_iff : g.Occurs (.request r) a ↔
    (∃ b ∈ (g.request r).origins, b = a ∨ g.Covers b a) ∨
      ∃ c ∈ (g.request r).clauseNodes, g.Occurs (.node c) a := by
  rw [occurs_iff]
  constructor
  · rintro (ha | ⟨y, hy, ha⟩)
    · exact .inl ⟨a, ha, .inl rfl⟩
    · cases hy with
      | clause hc => exact .inr ⟨_, hc, ha⟩
      | source hb hs => exact .inl ⟨_, hb, .inr ⟨_, hs, ha⟩⟩
  · rintro (⟨b, hb, rfl | ⟨s, hs, ha⟩⟩ | ⟨c, hc, ha⟩)
    · exact .inl hb
    · exact .inr ⟨_, .source hb hs, ha⟩
    · exact .inr ⟨_, .clause hc, ha⟩

/-! ### Mentions -/

/-- A node mentions what it reads, and what is mentioned in the parts of it. -/
lemma mentioning_node_iff {part : NodeId → Bool} {query : RequestId → Bool} {z : Node} :
    (g.mentioning a).node part query z = true ↔
      z.source? = some a ∨ (∃ c ∈ z.children, part c = true) ∨ ∃ r, z = .sub r ∧ query r = true := by
  cases z <;> simp [mentioning, Node.children, Node.source?]

/-- A request mentions what it ranges over or writes, and what is mentioned in the requests behind that or
in its clauses. -/
lemma mentioning_request_iff {part : NodeId → Bool} {query : RequestId → Bool} :
    (g.mentioning a).request part query r = true ↔
      (∃ b ∈ (g.request r).origins, b = a ∨ ∃ s, (g.aliasOf b).origin = .request s ∧ query s = true) ∨
        ∃ c ∈ (g.request r).clauseNodes, part c = true := by
  have hsource : ∀ b, g.sourceMentions a query b = true ↔
      b = a ∨ ∃ s, (g.aliasOf b).origin = .request s ∧ query s = true := by
    intro b
    unfold sourceMentions
    cases (g.aliasOf b).origin <;> simp
  simp only [mentioning, Bool.or_eq_true, List.any_eq_true, hsource]
  rfl

/-- Whether an alias is found in a part below the requests `above`. The number bounds the depth. -/
def finds (g : Graph) (a : AliasId) (fuel : Nat) (above : List RequestId) : Part → Bool
  | .node n => g.readNodeWithin (g.mentioning a) fuel above n
  | .request r => g.readRequestWithin (g.mentioning a) fuel above r

lemma Closed.inside_of_holds (hg : g.Closed) (h : g.Holds x y) : y.Inside g := by
  cases h with
  | child h => exact hg.child _ _ h
  | sub h => exact (hg.node _).2 _ h
  | clause h => exact hg.clause _ _ h
  | source h hs => exact (hg.source _).1 _ hs

/-- A search finds what occurs, by induction on its depth. -/
lemma finds_iff (hg : g.Closed) (fuel : Nat) (above : List RequestId) (x : Part) (hx : Ends g.Holds x)
    (hfuel : Enough (g.depth g.Holds) x fuel above) : g.finds a fuel above x = true ↔ g.Occurs x a := by
  have hfalls : ∀ {x y}, Ends g.Holds x → g.Holds x y → g.depth g.Holds y < g.depth g.Holds x :=
    fun hx hxy => hx.falls hxy (hg.inside_of_holds hxy)
  induction fuel generalizing above x with
  | zero => exact absurd hfuel.1 (Nat.not_lt_zero _)
  | succ fuel ih =>
    cases x with
    | node n =>
      have hpart : ∀ y, g.Holds (.node n) y → (g.finds a fuel above y = true ↔ g.Occurs y a) :=
        fun y hy => ih above y (hx.step hy) (hfuel.part (hfalls hx hy))
      rw [finds, readNodeWithin, mentioning_node_iff, occurs_node_iff]
      refine or_congr_right (or_congr ?_ ?_)
      · exact exists_congr fun c => and_congr_right fun hc => hpart _ (.child hc)
      · exact exists_congr fun r => and_congr_right fun hr => hpart _ (.sub hr)
    | request r =>
      have hpart : ∀ y, g.Holds (.request r) y → (g.finds a fuel (r :: above) y = true ↔ g.Occurs y a) :=
        fun y hy => ih (r :: above) y (hx.step hy) (hfuel.inside (hfalls hx hy))
      rw [finds, readRequestWithin, if_neg fun hmem => (hfuel.2 r hmem).false, mentioning_request_iff,
        occurs_request_iff]
      refine or_congr ?_ ?_
      · refine exists_congr fun b => and_congr_right fun hb => or_congr_right ?_
        exact exists_congr fun s => and_congr_right fun hs => hpart _ (.source hb hs)
      · exact exists_congr fun c => and_congr_right fun hc => hpart _ (.clause hc)

/-- **Mentioned aliases are those that occur.** -/
theorem mentions_iff (hg : g.Closed) (hn : n.index < g.entries.size) (hends : Ends g.Holds (.node n)) :
    g.mentions n a = true ↔ g.Occurs (.node n) a :=
  finds_iff hg _ _ _ hends (hends.enough hn (size_le_height g))

/-! ### Written aliases -/

/-- A request in a part writes an alias that is none of its own sources. -/
def Writes (g : Graph) (x : Part) (t : AliasId) : Prop :=
  ∃ r, g.Within x (.request r) ∧ (g.request r).target = some t ∧ t ∉ (g.request r).sources

/-- What occurs in a value is named inside it, or occurs in a derived table that is only written. -/
lemma Occurs.within_or_written (ha : g.Occurs y a) (hy : g.Within x y) :
    (∃ z, g.Within x z ∧ z.Names g a) ∨ ∃ t, g.Writes x t ∧ g.Covers t a := by
  obtain ⟨z, hyz, hnames⟩ := ha
  induction hyz using Relation.ReflTransGen.head_induction_on with
  | refl => exact .inl ⟨z, hy, hnames⟩
  | head hstep hrest ih =>
    cases hstep with
    | child hc => exact ih (.tail hy (.child hc))
    | sub hr => exact ih (.tail hy (.sub hr))
    | clause hc => exact ih (.tail hy (.clause hc))
    | @source r s t ht hs =>
      by_cases hsource : t ∈ (g.request r).sources
      · exact ih (.tail hy (.source hsource hs))
      · have htarget := (List.mem_append.1 ht).resolve_left hsource
        exact .inr ⟨t, ⟨r, hy, Option.mem_toList.1 htarget, hsource⟩, s, hs, z, hrest, hnames⟩

/-! ### Parts that were there before -/

lemma Intact.holds_iff (hgh : g.Intact h) (hg : g.Closed) (hx : x.Inside g) :
    h.Holds x y ↔ g.Holds x y := by
  constructor
  · intro hxy
    cases hxy with
    | child hc => exact .child (hgh.node hx ▸ hc)
    | sub hr => exact .sub (hgh.node hx ▸ hr)
    | clause hc => exact .clause (hgh.request _ hx ▸ hc)
    | source ha hs =>
      rw [hgh.request _ hx] at ha
      exact .source ha (hgh.aliasOf _ ((hg.request _).2 _ ha) ▸ hs)
  · intro hxy
    cases hxy with
    | child hc => exact .child ((hgh.node hx).symm ▸ hc)
    | sub hr => exact .sub ((hgh.node hx).trans hr)
    | clause hc => exact .clause ((hgh.request _ hx).symm ▸ hc)
    | source ha hs =>
      refine .source (a := _) ((hgh.request _ hx).symm ▸ ha) ?_
      rw [hgh.aliasOf _ ((hg.request _).2 _ ha)]
      exact hs

lemma Intact.names_iff (hgh : g.Intact h) (hx : x.Inside g) : x.Names h a ↔ x.Names g a := by
  cases x with
  | node n => rw [Part.Names, Part.Names, hgh.node hx]
  | request r => rw [Part.Names, Part.Names, hgh.request r hx]

lemma Intact.occurs_iff (hgh : g.Intact h) (hg : g.Closed) (hx : x.Inside g) :
    h.Occurs x a ↔ g.Occurs x a := by
  constructor
  · rintro ⟨z, hxz, hz⟩
    induction hxz using Relation.ReflTransGen.head_induction_on with
    | refl => exact ⟨z, .refl, (hgh.names_iff hx).1 hz⟩
    | head hstep _ ih =>
      have hstep := (hgh.holds_iff hg hx).1 hstep
      obtain ⟨w, hw, hnames⟩ := ih (hg.inside_of_holds hstep)
      exact ⟨w, .head hstep hw, hnames⟩
  · rintro ⟨z, hxz, hz⟩
    induction hxz using Relation.ReflTransGen.head_induction_on with
    | refl => exact ⟨z, .refl, (hgh.names_iff hx).2 hz⟩
    | head hstep _ ih =>
      obtain ⟨w, hw, hnames⟩ := ih (hg.inside_of_holds hstep)
      exact ⟨w, .head ((hgh.holds_iff hg hx).2 hstep) hw, hnames⟩

lemma Intact.covers_iff (hgh : g.Intact h) (hg : g.Closed) (hb : b.index < g.aliases.size) :
    h.Covers b a ↔ g.Covers b a := by
  unfold Covers
  rw [hgh.aliasOf b hb]
  exact exists_congr fun s => and_congr_right fun hs => hgh.occurs_iff hg ((hg.source b).1 s hs)

lemma Intact.ends (hgh : g.Intact h) (hg : g.Closed) (hx : x.Inside g) (hends : Ends g.Holds x) :
    Ends h.Holds x := by
  induction hends with
  | intro x _ ih =>
    refine ⟨x, fun y hxy => ?_⟩
    have hxy := (hgh.holds_iff hg hx).1 hxy
    exact ih y hxy (hg.inside_of_holds hxy)

end Graph

/-! ### Parts and their copies -/

/-- A source in the part `x` of `g`, and the new alias of `h` that is its copy. -/
structure Renewed (g h : Graph) (Φ : Part → Part → Prop) (x : Part) (a b : AliasId) : Prop where
  source : ∃ r, g.Within x (.request r) ∧ a ∈ (g.request r).sources
  new : g.aliases.size ≤ b.index
  like : (g.aliasOf a).origin.Like (h.aliasOf b).origin
  inner : ∀ r q, (g.aliasOf a).origin = .request r → (h.aliasOf b).origin = .request q →
    Φ (.request r) (.request q)

/-- What may take the place of an alias in the copy of a value: a replaced alias makes way for another one,
a source in the value for its copy, and any other alias stays. -/
inductive Becomes (s : Swap) (g h : Graph) (Φ : Part → Part → Prop) (x : Part) (a : AliasId) : AliasId → Prop
  | replaced {b : AliasId} (hb : s.source a = some b) : Becomes s g h Φ x a b
  | renewed {b : AliasId} (hb : Renewed g h Φ x a b) : Becomes s g h Φ x a b
  | kept (ha : s.source a = none) : Becomes s g h Φ x a a

/-- A property of parts in `x` and their copies that follows from what stands in them. -/
structure Carried (s : Swap) (g h : Graph) (x : Part) (Φ : Part → Part → Prop) : Prop where
  node : ∀ n m, (∀ r, g.node n ≠ .sub r) →
    (g.node n).Like (Becomes s g h Φ x) (fun v w => s.value v = w) (h.node m) →
    (∀ c d, (c, d) ∈ (g.node n).children.zip (h.node m).children → Φ (.node c) (.node d)) →
    Φ (.node n) (.node m)
  sub : ∀ n m r q, g.node n = .sub r → h.node m = .sub q → Φ (.request r) (.request q) →
    Φ (.node n) (.node m)
  request : ∀ r q, g.Within x (.request r) →
    (g.request r).Like (fun a b => Becomes s g h Φ x a b ∧
      (a ∈ (g.request r).sources → g.aliases.size ≤ b.index)) (h.request q) →
    (∀ c d, (c, d) ∈ (g.request r).clauseNodes.zip (h.request q).clauseNodes → Φ (.node c) (.node d)) →
    Φ (.request r) (.request q)

/-- All renamed aliases are sources in a part, and have become their copies. -/
def Renames.Made (g h : Graph) (Φ : Part → Part → Prop) (x : Part) (ren : Renames) : Prop :=
  ∀ a b, ren.alias? a = some b → Renewed g h Φ x a b

section Copies

variable {s : Swap} {g h : Graph} {Φ : Part → Part → Prop} {first : Nat} {ren : Renames} {x y z : Part}

namespace Renames.Made

lemma refer (hren : ren.Made g h Φ x) (a : AliasId) : Becomes s g h Φ x a (s.refer ren a) := by
  unfold Swap.refer
  cases hb : ren.alias? a with
  | some b => exact .renewed (hren a b hb)
  | none =>
    cases hc : s.source a with
    | some c => exact .replaced hc
    | none => exact .kept hc

lemma read (hren : ren.Made g h Φ x) (a : AliasId) : Becomes s g h Φ x a (s.read ren a) := by
  unfold Swap.read
  cases hc : s.source a with
  | some c => exact .replaced hc
  | none =>
    cases hb : ren.alias? a with
    | some b => exact .renewed (hren a b hb)
    | none => exact .kept hc

/-- At first nothing is renamed. -/
lemma empty (g h : Graph) (Φ : Part → Part → Prop) (x : Part) : Renames.Made g h Φ x {} := by
  rintro a b ⟨⟩

/-- The renames inside a copied request. -/
lemma own (hren : ren.Made g h Φ x) {r q : RequestId} {ps : List (AliasId × AliasId)}
    (hps : ∀ a b, (a, b) ∈ ps → Renewed g h Φ x a b) : (ren.own r q ps).Made g h Φ x := by
  intro a b hab
  by_cases ha : a ∈ ps.map Prod.fst
  · obtain ⟨c, hac, hc⟩ := exists_alias?_own ren r q ha
    cases hab.symm.trans hc
    exact hps a b hac
  · rw [alias?_own_of_not_mem ha] at hab
    exact hren a b hab

end Renames.Made

/-- **What follows from parts holds of a part and its copy.** The sources of a request are copied one after
the other, each below those before it. -/
theorem Copied.carry (hΦ : Carried s g h z Φ) (hxy : Copied s g h first ren x y) (hx : g.Within z x)
    (hren : ren.Made g h Φ z) : Φ x y := by
  induction hxy with
  | node hsub _ hlike _ _ ih =>
    refine hΦ.node _ _ hsub ?_ fun c d hcd => ih c d hcd (.tail hx (.child (List.of_mem_zip hcd).1)) hren
    exact hlike.mono (fun a b _ hab => hab ▸ hren.read a) fun _ _ _ h => h
  | sub hn _ hnode _ ih => exact hΦ.sub _ _ _ _ hn hnode (ih (.tail hx (.sub hn)) hren)
  | @request first ren r q ps _ _ hsources hfresh hlike _ _ horigin _ _ ihinner ihparts =>
    have hsource : ∀ a b, (a, b) ∈ ps → a ∈ (g.request r).sources := fun a b hab =>
      hsources ▸ List.mem_map_of_mem (f := Prod.fst) hab
    have hrenewed : ∀ k, ∀ ps₁ a b ps₂, ps = ps₁ ++ (a, b) :: ps₂ → ps₁.length < k →
        Renewed g h Φ z a b := by
      intro k
      induction k with
      | zero => exact fun ps₁ a b ps₂ _ hk => absurd hk (Nat.not_lt_zero _)
      | succ k ihk =>
        intro ps₁ a b ps₂ hps hk
        have hab : (a, b) ∈ ps := by simp [hps]
        refine ⟨⟨r, hx, hsource a b hab⟩, hfresh.new _ hab, horigin a b hab, fun r' q' hr' hq' => ?_⟩
        refine ihinner ps₁ a b ps₂ r' q' hps hr' hq' (.tail hx (.source (hsource a b hab) hr')) ?_
        refine hren.own fun c d hcd => ?_
        obtain ⟨qs₁, qs₂, rfl⟩ := List.append_of_mem hcd
        refine ihk qs₁ c d (qs₂ ++ (a, b) :: ps₂) (by simp [hps]) ?_
        rw [List.length_append, List.length_cons] at hk
        omega
    have hown : (ren.own r q ps).Made g h Φ z := hren.own fun a b hab => by
      obtain ⟨ps₁, ps₂, hps⟩ := List.append_of_mem hab
      exact hrenewed _ ps₁ a b ps₂ hps (Nat.lt_succ_self _)
    refine hΦ.request r q hx (hlike.mono fun a _ b _ hab => ⟨hab ▸ hown.refer a, fun ha => ?_⟩) fun c d hcd =>
      ihparts c d hcd (.tail hx (.clause (List.of_mem_zip hcd).1)) hown
    rw [← hsources] at ha
    rw [← hab]
    exact hfresh.new _ (refer_own_mem s ren r q ha)

end Copies

end EntityQuery.Sql
