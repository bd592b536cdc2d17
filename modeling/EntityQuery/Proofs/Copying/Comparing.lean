import EntityQuery.Proofs.Copying.Akin
import EntityQuery.Sql.Same

/-!
Comparisons of akin parts.

* `sameParts` compares nodes with nodes and requests with requests.
* Akin parts compare as equal, as soon as the comparison may go as deep as the first part is:
  `Akin.sameParts`. Such a part contains no more parts than the graph has, so `sameNodes` goes deep
  enough.
-/

namespace EntityQuery.Sql

lemma allM_eq_some_true {α : Type} {f : α → Option Bool} {xs : List α} :
    xs.allM f = some true ↔ ∀ x ∈ xs, f x = some true := by
  induction xs with
  | nil => simp [List.allM]
  | cons x xs ih =>
    rw [List.forall_mem_cons, ← ih, List.allM]
    cases hx : f x with
    | none => simp
    | some b => cases b <;> simp

namespace Graph

variable {g : Graph} {E : AliasId → AliasId → Prop} {x y : Part} {pairs : Pairs}
  {ps : List (AliasId × AliasId)}

/-! ### Comparisons of parts -/

/-- Compares two parts. -/
def sameParts (g : Graph) (fuel : Nat) (pairs : Pairs) : Part → Part → Option Bool
  | .node m, .node n => g.sameWithin fuel pairs m n
  | .request r, .request s => g.sameRequestsWithin fuel pairs r s
  | _, _ => some false

/-- No comparison that ends goes deeper than the graph has parts. -/
lemma size_le_comparisonDepth (g : Graph) :
    g.entries.size + g.requests.size ≤ g.comparisonDepth := by
  have hentries := Nat.le_mul_self g.entries.size
  have hrequests := Nat.le_mul_self g.requests.size
  have hone : 1 ≤ g.aliases.size + 1 := Nat.le_add_left 1 _
  calc g.entries.size + g.requests.size
      ≤ g.entries.size * g.entries.size + g.requests.size * g.requests.size + 1 := by omega
    _ ≤ g.comparisonDepth := Nat.le_mul_of_pos_right _ hone

/-- Matched sources with the same ranges are matched by the comparison. -/
lemma matchSources_eq {same : Pairs → RequestId → RequestId → Option Bool}
    (horigin : ∀ a b, (a, b) ∈ ps → (g.aliasOf a).origin.Like (g.aliasOf b).origin)
    (hsame : ∀ ps₁ a b ps₂ r s, ps = ps₁ ++ (a, b) :: ps₂ → (g.aliasOf a).origin = .request r →
      (g.aliasOf b).origin = .request s → same (ps₁.reverse ++ pairs) r s = some true) :
    g.matchSources same pairs ps = some (some (ps.reverse ++ pairs)) := by
  induction ps generalizing pairs with
  | nil => rfl
  | cons p ps ih =>
    obtain ⟨a, b⟩ := p
    have hrest : g.matchSources same ((a, b) :: pairs) ps = some (some (ps.reverse ++ (a, b) :: pairs)) := by
      refine ih (fun c d hcd => horigin c d (List.mem_cons_of_mem _ hcd)) ?_
      intro ps₁ c d ps₂ r s hps hr hs
      have hsplit := hsame ((a, b) :: ps₁) c d ps₂ r s (by rw [hps]; rfl) hr hs
      simpa using hsplit
    have hfirst := horigin a b List.mem_cons_self
    rw [matchSources]
    cases ha : (g.aliasOf a).origin with
    | table name =>
      rw [ha] at hfirst
      cases hb : (g.aliasOf b).origin with
      | table name' =>
        rw [hb] at hfirst
        cases hfirst
        simp [hrest]
      | request s =>
        rw [hb] at hfirst
        cases hfirst
    | request r =>
      obtain ⟨s, hb⟩ := hfirst.exists_request ha
      have hequal := hsame [] a b ps r s rfl ha hb
      rw [List.reverse_nil, List.nil_append] at hequal
      simp [hb, hequal, hrest]

/-- Matched sources are renames. -/
lemma image_eq_refer (pairs : Pairs) (a : AliasId) :
    pairs.image a = Swap.refer {} { aliases := pairs } a := by
  unfold Pairs.image Swap.refer Renames.alias?
  cases pairs.lookup a <;> rfl

/-- Bound aliases agree with the matched sources. -/
lemma agrees_of_bound (hps : (ps.map Prod.fst).Nodup) (hE : ∀ a b, E a b → pairs.agrees a b = true)
    {a b : AliasId} (hab : Bound E ps a b) : Pairs.agrees (ps.reverse ++ pairs) a b = true := by
  have himage : Pairs.image (ps.reverse ++ pairs) a =
      Swap.refer {} (Renames.own { aliases := pairs } ⟨0⟩ ⟨0⟩ ps) a := image_eq_refer _ a
  rcases hab with hab | ⟨ha, -, hab⟩
  · have hmem := refer_own_mem {} { aliases := pairs } ⟨0⟩ ⟨0⟩
      (List.mem_map_of_mem (f := Prod.fst) hab)
    have hsame := congrArg Prod.snd (List.inj_on_of_nodup_map hps hmem hab rfl)
    rw [Pairs.agrees, himage]
    exact beq_iff_eq.2 hsame
  · rw [refer_own_of_not_mem ha, ← image_eq_refer] at himage
    rw [Pairs.agrees, himage]
    exact hE a b hab

/-! ### What equal parts have in common -/

/-- Where sources are matched, the first ones range over the same table or over equal requests, and the
others are matched inside of them. -/
lemma of_matchSources_cons {same : Pairs → RequestId → RequestId → Option Bool} {own : Pairs}
    {p : AliasId × AliasId} (h : g.matchSources same pairs (p :: ps) = some (some own)) :
    (g.aliasOf p.1).origin.Like (g.aliasOf p.2).origin ∧
      (∀ r s, (g.aliasOf p.1).origin = .request r → (g.aliasOf p.2).origin = .request s →
        same pairs r s = some true) ∧
      g.matchSources same (p :: pairs) ps = some (some own) := by
  have hgoes : ∀ o : Option Bool,
      (do let equal ← o
          if equal then g.matchSources same (p :: pairs) ps else return none) = some (some own) →
      o = some true ∧ g.matchSources same (p :: pairs) ps = some (some own) := by
    rintro (_ | _ | _) ho
    · cases ho
    · cases ho
    · exact ⟨rfl, ho⟩
  rw [matchSources] at h
  split at h
  · next s t hs ht =>
    obtain ⟨hequal, hrest⟩ := hgoes _ h
    rw [Option.some.injEq, beq_iff_eq] at hequal
    rw [hs, ht, hequal]
    exact ⟨.table t, nofun, hrest⟩
  · next r s hr hs =>
    obtain ⟨hequal, hrest⟩ := hgoes _ h
    rw [hr, hs]
    refine ⟨.request r s, ?_, hrest⟩
    rintro _ _ ⟨⟩ ⟨⟩
    exact hequal
  · exact absurd (hgoes _ h).1 nofun

/-- Matched sources range over requests that compare as equal. -/
lemma of_matchSources {same : Pairs → RequestId → RequestId → Option Bool} {own : Pairs}
    (h : g.matchSources same pairs ps = some (some own)) : own = ps.reverse ++ pairs ∧
      ∀ ps₁ a b ps₂ r s, ps = ps₁ ++ (a, b) :: ps₂ → (g.aliasOf a).origin = .request r →
        (g.aliasOf b).origin = .request s → same (ps₁.reverse ++ pairs) r s = some true := by
  induction ps generalizing pairs with
  | nil =>
    cases h
    exact ⟨rfl, by simp⟩
  | cons p ps ih =>
    obtain ⟨-, hfirst, hrest⟩ := of_matchSources_cons h
    obtain ⟨rfl, hinner⟩ := ih hrest
    refine ⟨by simp, ?_⟩
    rintro (_ | ⟨p, ps₁⟩) c d ps₂ r s hps hr hs
    · cases hps
      exact hfirst r s hr hs
    · cases hps
      have hsame := hinner ps₁ c d ps₂ r s rfl hr hs
      simpa using hsame

/-- Equal nodes are alike on the outside, and their children are equal. -/
lemma of_sameWithin {fuel : Nat} {m n : NodeId} (h : g.sameWithin fuel pairs m n = some true)
    (hm : ∀ r, g.node m ≠ .sub r) : (g.node m).sameHead pairs (g.node n) = true ∧
      ∃ fuel, ∀ c d, (c, d) ∈ (g.node m).children.zip (g.node n).children →
        g.sameWithin fuel pairs c d = some true := by
  cases fuel with
  | zero => cases h
  | succ fuel =>
    rw [sameWithin] at h
    split at h
    · next r s hr _ => exact absurd hr (hm r)
    · split at h
      · next hhead =>
        rw [Bool.and_eq_true] at hhead
        rw [allM_eq_some_true] at h
        exact ⟨hhead.1, fuel, fun c d hcd => h (c, d) hcd⟩
      · cases h

/-- The requests of equal nodes are equal. -/
lemma of_sameWithin_sub {fuel : Nat} {m n : NodeId} {r s : RequestId}
    (h : g.sameWithin fuel pairs m n = some true) (hm : g.node m = .sub r) (hn : g.node n = .sub s) :
    ∃ fuel, g.sameRequestsWithin fuel pairs r s = some true := by
  cases fuel with
  | zero => cases h
  | succ fuel =>
    rw [sameWithin, hm, hn] at h
    exact ⟨fuel, h⟩

/-- Different requests that are equal write the same table, and have equal sources and clauses. -/
lemma of_sameRequestsWithin {fuel : Nat} {r s : RequestId}
    (h : g.sameRequestsWithin fuel pairs r s = some true) (hrs : r ≠ s) :
    let own := ((g.request r).sources.zip (g.request s).sources).reverse ++ pairs
    sameTarget own (g.request r).target (g.request s).target = true ∧
      ∃ fuel, (∀ ps₁ a b ps₂ r' s', (g.request r).sources.zip (g.request s).sources = ps₁ ++ (a, b) :: ps₂ →
          (g.aliasOf a).origin = .request r' → (g.aliasOf b).origin = .request s' →
          g.sameRequestsWithin fuel (ps₁.reverse ++ pairs) r' s' = some true) ∧
        ∀ c d, (c, d) ∈ (g.request r).clauseNodes.zip (g.request s).clauseNodes →
          g.sameWithin fuel own c d = some true := by
  cases fuel with
  | zero => cases h
  | succ fuel =>
    simp only [sameRequestsWithin, if_neg hrs] at h
    split at h
    · cases h
    obtain ⟨matched, hmatch, hrest⟩ := Option.bind_eq_some_iff.1 h
    cases matched with
    | none => cases hrest
    | some own =>
      obtain ⟨rfl, hinner⟩ := of_matchSources hmatch
      simp only at hrest
      split at hrest
      · next hshape =>
        rw [Bool.and_eq_true] at hshape
        rw [allM_eq_some_true] at hrest
        exact ⟨hshape.2, fuel, hinner, fun c d hcd => hrest (c, d) hcd⟩
      · cases hrest

/-- The aliases that equal nodes read are matched. -/
lemma agrees_of_sameHead {m n : Node} {a b : AliasId} (h : m.sameHead pairs n = true)
    (ha : m.source? = some a) (hb : n.source? = some b) : pairs.agrees a b = true := by
  cases m <;> cases ha <;> cases n <;> cases hb <;> simp_all [Node.sameHead]

/-- An alias that is not matched agrees with itself only. -/
lemma eq_of_agrees {a b : AliasId} (hpairs : ∀ p ∈ pairs, p.1 ≠ a) (h : pairs.agrees a b = true) :
    a = b := by
  have hnone : pairs.lookup a = none := by
    rw [List.lookup_eq_none_iff]
    intro p hp
    rw [bne_iff_ne]
    exact (hpairs p hp).symm
  rw [Pairs.agrees, Pairs.image, hnone, beq_iff_eq] at h
  exact h

end Graph

/-- **Akin parts compare as equal.** -/
theorem Akin.sameParts {g : Graph} (hg : g.Closed) {E : AliasId → AliasId → Prop} {x y : Part}
    (hxy : Akin g E x y) {pairs : Pairs} (hE : ∀ a b, E a b → pairs.agrees a b = true) {fuel : Nat}
    (hfuel : g.depth g.Carries x < fuel) : g.sameParts fuel pairs x y = some true := by
  have hends := hxy.ends
  induction hxy generalizing pairs fuel with
  | @node E m n hm hlike _ ih =>
    obtain ⟨fuel, rfl⟩ := Nat.exists_eq_succ_of_ne_zero (Nat.ne_zero_of_lt hfuel)
    have hhead : (g.node m).sameHead pairs (g.node n) = true := by
      refine (hlike.mono (fun a b _ => hE a b) ?_).sameHead hm
      rintro v w - ⟨rfl, hv⟩
      exact hv
    rw [Graph.sameParts, Graph.sameWithin]
    split
    · next r s hr _ => exact absurd hr (hm r)
    · rw [hhead, hlike.length_children, beq_self_eq_true, Bool.and_self, if_pos rfl, allM_eq_some_true]
      rintro ⟨c, d⟩ hcd
      have hc : g.Carries (.node m) (.node c) := .child (List.of_mem_zip hcd).1
      have hfalls := hg.falls hends hc
      exact ih c d hcd hE (by omega) (hends.step hc)
  | @sub E m n r s hm hn _ ih =>
    obtain ⟨fuel, rfl⟩ := Nat.exists_eq_succ_of_ne_zero (Nat.ne_zero_of_lt hfuel)
    have hcarries : g.Carries (.node m) (.request r) := .sub hm
    have hfalls := hg.falls hends hcarries
    rw [Graph.sameParts, Graph.sameWithin]
    simp only [hm, hn]
    exact ih hE (by omega) (hends.step hcarries)
  | @request E r s ps hfst hsnd hr hs hlike horigin _ _ ihinner ihparts =>
    obtain ⟨fuel, rfl⟩ := Nat.exists_eq_succ_of_ne_zero (Nat.ne_zero_of_lt hfuel)
    have hnodup : (ps.map Prod.fst).Nodup := by
      rw [hfst]
      exact hr
    have hbound : ∀ a b, Bound E ps a b → Pairs.agrees (ps.reverse ++ pairs) a b = true :=
      fun a b hab => Graph.agrees_of_bound hnodup hE hab
    have hzip : (g.request r).sources.zip (g.request s).sources = ps := by
      rw [← hfst, ← hsnd]
      exact (List.zip_of_prod rfl rfl).symm
    have hmatch : g.matchSources (g.sameRequestsWithin fuel) pairs ps =
        some (some (ps.reverse ++ pairs)) := by
      refine Graph.matchSources_eq horigin fun ps₁ a b ps₂ r' s' hps hr' hs' => ?_
      have ha : g.Carries (.request r) (.request r') := by
        refine .source (a := a) ?_ hr'
        rw [← hfst, hps]
        simp
      have hfalls := hg.falls hends ha
      have hinner : (ps₁.map Prod.fst).Nodup := by
        rw [hps, List.map_append] at hnodup
        exact hnodup.of_append_left
      exact ihinner ps₁ a b ps₂ r' s' hps hr' hs'
        (fun c d hcd => Graph.agrees_of_bound hinner hE hcd) (by omega) (hends.step ha)
    have hagrees := hlike.mono fun a _ b _ => hbound a b
    rw [Graph.sameParts, Graph.sameRequestsWithin]
    split
    · rfl
    · rw [hzip, hmatch, hlike.sources.length_eq, bne_self_eq_false, if_neg Bool.false_ne_true]
      simp only [Option.bind_eq_bind, Option.bind_some, hlike.sameShape, hagrees.sameTarget, Bool.and_self,
        if_true, allM_eq_some_true]
      rintro ⟨c, d⟩ hcd
      have hc : g.Carries (.request r) (.node c) := .clause (List.of_mem_zip hcd).1
      have hfalls := hg.falls hends hc
      exact ihparts c d hcd hbound (by omega) (hends.step hc)

/-- Akin nodes are the same value. -/
theorem Akin.sameNodes {g : Graph} (hg : g.Closed) {m n : NodeId}
    (hmn : Akin g (fun a b => a = b) (.node m) (.node n)) (hm : m.index < g.entries.size) :
    g.sameNodes m n = true := by
  have hdepth := Graph.depth_lt_size (x := .node m) hm hmn.ends.not_below_self
  have hagrees : ∀ a b : AliasId, a = b → Pairs.agrees [] a b = true := fun a b hab => beq_iff_eq.2 hab
  have hsame := hmn.sameParts hg hagrees (hdepth.trans_le g.size_le_comparisonDepth)
  rw [Graph.sameNodes, show g.sameWithin g.comparisonDepth [] m n = some true from hsame]
  rfl

end EntityQuery.Sql
