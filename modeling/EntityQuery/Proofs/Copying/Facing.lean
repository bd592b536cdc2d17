import EntityQuery.Proofs.Copying.Akin

/-!
Walks down a value and its copy.

* `Facing g h n m above x y`: walking down the value `n` of `g` and the value `m` of `h` in step leads to
  `x` and `y`, by way of the pairs of requests `above`, the innermost first.
* What faces each other in a value and its copy is a part and its copy, and `above` are the requests that
  are copied around it. Every part of the value and every part of the copy is met on such a walk.
-/

namespace EntityQuery.Sql

/-- Walking down two values in step. -/
inductive Facing (g h : Graph) (n m : NodeId) : List (RequestId × RequestId) → Part → Part → Prop
  | root : Facing g h n m [] (.node n) (.node m)
  | child {above : List (RequestId × RequestId)} {x y c d : NodeId}
      (hxy : Facing g h n m above (.node x) (.node y))
      (hcd : (c, d) ∈ (g.node x).children.zip (h.node y).children) :
      Facing g h n m above (.node c) (.node d)
  | sub {above : List (RequestId × RequestId)} {x y : NodeId} {r q : RequestId}
      (hxy : Facing g h n m above (.node x) (.node y)) (hr : g.node x = .sub r)
      (hq : h.node y = .sub q) : Facing g h n m above (.request r) (.request q)
  | clause {above : List (RequestId × RequestId)} {r q : RequestId} {c d : NodeId}
      (hrq : Facing g h n m above (.request r) (.request q))
      (hcd : (c, d) ∈ (g.request r).clauseNodes.zip (h.request q).clauseNodes) :
      Facing g h n m ((r, q) :: above) (.node c) (.node d)
  | source {above : List (RequestId × RequestId)} {r q r' q' : RequestId} {a b : AliasId}
      (hrq : Facing g h n m above (.request r) (.request q))
      (hab : (a, b) ∈ (g.request r).sources.zip (h.request q).sources)
      (hr' : (g.aliasOf a).origin = .request r') (hq' : (h.aliasOf b).origin = .request q') :
      Facing g h n m ((r, q) :: above) (.request r') (.request q')

/-- All renamed aliases are sources inside a part. -/
def Renames.Inner (g : Graph) (x : Part) (ren : Renames) : Prop :=
  ∀ a b, ren.alias? a = some b → ∃ r, g.Within x (.request r) ∧ a ∈ (g.request r).sources

section Walks

variable {s : Swap} {g h : Graph} {n m : NodeId} {first : Nat} {above : List (RequestId × RequestId)}
  {x y z w : Part} {ren : Renames}

/-- The renames inside a copied request. -/
lemma Renames.Inner.own {x₀ : Part} (hren : ren.Inner g x₀) {r q : RequestId}
    {ps : List (AliasId × AliasId)} (hr : g.Within x₀ (.request r))
    (hsources : ∀ a ∈ ps.map Prod.fst, a ∈ (g.request r).sources) : (ren.own r q ps).Inner g x₀ := by
  intro a b hab
  by_cases ha : a ∈ ps.map Prod.fst
  · exact ⟨r, hr, hsources a ha⟩
  · rw [alias?_own_of_not_mem ha] at hab
    exact hren a b hab

/-- **Parts that face each other in a value and its copy are a part and its copy.** -/
theorem Copied.of_facing (hnm : Copied s g h first {} (.node n) (.node m))
    (hxy : Facing g h n m above x y) : ∃ first' ren, first ≤ first' ∧ ren.requests = above ∧
      g.Within (.node n) x ∧ ren.Inner g (.node n) ∧ Copied s g h first' ren x y := by
  induction hxy with
  | root => exact ⟨first, {}, le_rfl, rfl, .refl, nofun, hnm⟩
  | child _ hcd ih =>
    obtain ⟨first', ren, hfirst, hrequests, hwithin, hinside, hcopied⟩ := ih
    cases hcopied with
    | node _ _ _ _ hparts =>
      exact ⟨first', ren, hfirst, hrequests, .tail hwithin (.child (List.of_mem_zip hcd).1), hinside,
        hparts _ _ hcd⟩
    | sub hn _ _ _ =>
      rw [hn] at hcd
      cases hcd
  | sub _ hr hq ih =>
    obtain ⟨first', ren, hfirst, hrequests, hwithin, hinside, hcopied⟩ := ih
    cases hcopied with
    | node hsub _ _ _ _ => exact absurd hr (hsub _)
    | sub hn _ hnode hpart =>
      cases hn.symm.trans hr
      cases hnode.symm.trans hq
      exact ⟨first', ren, hfirst, hrequests, .tail hwithin (.sub hr), hinside, hpart⟩
  | clause _ hcd ih =>
    obtain ⟨first', ren, hfirst, rfl, hwithin, hinside, hcopied⟩ := ih
    cases hcopied with
    | request hq _ hsources _ _ _ _ _ _ hparts =>
      refine ⟨_, _, hfirst.trans (hq.trans (Nat.le_succ _)), rfl,
        .tail hwithin (.clause (List.of_mem_zip hcd).1), ?_, hparts _ _ hcd⟩
      exact hinside.own hwithin fun a ha => hsources ▸ ha
  | @source above r q r' q' a b _ hab hr' hq' ih =>
    obtain ⟨first', ren, hfirst, rfl, hwithin, hinside, hcopied⟩ := ih
    cases hcopied with
    | request hq _ hsources _ hlike _ _ _ hinner _ =>
      have ha := (List.of_mem_zip hab).1
      have hmem := refer_own_mem s ren r q (hsources.symm ▸ ha)
      rw [List.forall₂_zip hlike.sources hab] at hmem
      obtain ⟨ps₁, ps₂, hps⟩ := List.append_of_mem hmem
      subst hps
      refine ⟨_, _, hfirst.trans (hq.trans (Nat.le_succ _)), rfl, .tail hwithin (.source ha hr'), ?_,
        hinner ps₁ _ _ ps₂ _ _ rfl hr' hq'⟩
      refine hinside.own hwithin fun a ha => ?_
      rw [← hsources, List.map_append]
      exact List.mem_append_left _ ha

/-- The sources of a copied request are new. -/
lemma Copied.size_le_of_mem_sources {r q : RequestId}
    (hrq : Copied s g h first ren (.request r) (.request q)) {b : AliasId}
    (hb : b ∈ (h.request q).sources) : g.aliases.size ≤ b.index := by
  cases hrq with
  | request _ _ hsources hfresh hlike _ _ _ _ _ =>
    obtain ⟨a, ha, rfl⟩ := exists_of_mem_right hlike.sources hb
    rw [← hsources] at ha
    exact hfresh.new _ (refer_own_mem s ren r q ha)

/-- The sources of a copied request are different. -/
lemma Copied.nodup_sources {r q : RequestId} (hrq : Copied s g h first ren (.request r) (.request q))
    (hr : (g.request r).sources.Nodup) : (h.request q).sources.Nodup := by
  cases hrq with
  | @request _ _ _ _ ps _ _ hsources hfresh hlike _ _ _ _ _ =>
    have hdistinct : (ps.map Prod.fst).Nodup := hsources ▸ hr
    have hsnd : ps.map Prod.snd = (h.request q).sources :=
      map_snd_of_refer s ren r q hdistinct (hsources.symm ▸ hlike.sources)
    exact hsnd ▸ hfresh.nodup

/-- What a copied request ranges over is a copy of what the request ranges over. -/
lemma Copied.origin_of_mem_zip {r q : RequestId} (hrq : Copied s g h first ren (.request r) (.request q))
    {a b : AliasId} (hab : (a, b) ∈ (g.request r).sources.zip (h.request q).sources) :
    (g.aliasOf a).origin.Like (h.aliasOf b).origin := by
  cases hrq with
  | request _ _ hsources _ hlike _ _ horigin _ _ =>
    have ha := (List.of_mem_zip hab).1
    rw [← hsources] at ha
    have hmem := refer_own_mem s ren r q ha
    rw [List.forall₂_zip hlike.sources hab] at hmem
    exact horigin a b hmem

/-- What stands in a part faces what stands in the copy of the part. -/
lemma Copied.facing_of_carries (hnm : Copied s g h first {} (.node n) (.node m))
    (hxy : Facing g h n m above x y) (hcarries : g.Carries x z) :
    ∃ above' w, h.Carries y w ∧ Facing g h n m above' z w := by
  obtain ⟨first', ren, -, -, -, -, hcopied⟩ := hnm.of_facing hxy
  cases hcarries with
  | child hc =>
    cases hcopied with
    | node _ _ hlike _ _ =>
      obtain ⟨d, hcd⟩ := exists_mem_zip_left hlike.length_children hc
      exact ⟨_, _, .child (List.of_mem_zip hcd).2, hxy.child hcd⟩
    | sub hn _ _ _ =>
      rw [hn] at hc
      cases hc
  | sub hr =>
    cases hcopied with
    | node hsub _ _ _ _ => exact absurd hr (hsub _)
    | sub hn _ hnode _ =>
      cases hn.symm.trans hr
      exact ⟨_, _, .sub hnode, hxy.sub hr hnode⟩
  | clause hc =>
    cases hcopied with
    | request _ _ _ _ hlike _ _ _ _ _ =>
      obtain ⟨d, hcd⟩ := exists_mem_zip_left hlike.length_clauseNodes hc
      exact ⟨_, _, .clause (List.of_mem_zip hcd).2, hxy.clause hcd⟩
  | source ha hr' =>
    have hrq := hcopied
    cases hcopied with
    | request _ _ _ _ hlike _ _ _ _ _ =>
      obtain ⟨b, hab⟩ := exists_mem_zip_left hlike.sources.length_eq ha
      obtain ⟨q', hq'⟩ := (hrq.origin_of_mem_zip hab).exists_request hr'
      exact ⟨_, _, .source (List.of_mem_zip hab).2 hq', hxy.source hab hr' hq'⟩

/-- What stands in the copy of a part faces what stands in the part. -/
lemma Copied.faced_of_carries (hnm : Copied s g h first {} (.node n) (.node m))
    (hxy : Facing g h n m above x y) (hcarries : h.Carries y w) :
    ∃ above' z, g.Carries x z ∧ Facing g h n m above' z w := by
  obtain ⟨first', ren, -, -, -, -, hcopied⟩ := hnm.of_facing hxy
  cases hcarries with
  | child hd =>
    cases hcopied with
    | node _ _ hlike _ _ =>
      obtain ⟨c, hcd⟩ := exists_mem_zip_right hlike.length_children hd
      exact ⟨_, _, .child (List.of_mem_zip hcd).1, hxy.child hcd⟩
    | sub _ _ hnode _ =>
      rw [hnode] at hd
      cases hd
  | sub hq =>
    cases hcopied with
    | node hsub _ hlike _ _ => exact absurd hq (hlike.ne_sub hsub _)
    | sub hn _ hnode _ =>
      cases hnode.symm.trans hq
      exact ⟨_, _, .sub hn, hxy.sub hn hq⟩
  | clause hd =>
    cases hcopied with
    | request _ _ _ _ hlike _ _ _ _ _ =>
      obtain ⟨c, hcd⟩ := exists_mem_zip_right hlike.length_clauseNodes hd
      exact ⟨_, _, .clause (List.of_mem_zip hcd).1, hxy.clause hcd⟩
  | source hb hq' =>
    have hrq := hcopied
    cases hcopied with
    | request _ _ _ _ hlike _ _ _ _ _ =>
      obtain ⟨a, hab⟩ := exists_mem_zip_right hlike.sources.length_eq hb
      obtain ⟨r', hr'⟩ := (hrq.origin_of_mem_zip hab).symm.exists_request hq'
      exact ⟨_, _, .source (List.of_mem_zip hab).1 hr', hxy.source hab hr' hq'⟩

/-- Every part of a value faces a part of its copy. -/
theorem Copied.exists_facing (hnm : Copied s g h first {} (.node n) (.node m))
    (hx : g.Within (.node n) x) : ∃ above y, h.Within (.node m) y ∧ Facing g h n m above x y := by
  induction hx with
  | refl => exact ⟨[], _, .refl, .root⟩
  | tail _ hcarries ih =>
    obtain ⟨above, y, hy, hxy⟩ := ih
    obtain ⟨above', w, hyw, hzw⟩ := hnm.facing_of_carries hxy hcarries
    exact ⟨above', w, .tail hy hyw, hzw⟩

/-- Every part of a copy faces a part of the value. -/
theorem Copied.exists_faced (hnm : Copied s g h first {} (.node n) (.node m))
    (hy : h.Within (.node m) y) : ∃ above x, Facing g h n m above x y := by
  induction hy with
  | refl => exact ⟨[], _, .root⟩
  | tail _ hcarries ih =>
    obtain ⟨above, x, hxy⟩ := ih
    obtain ⟨above', z, -, hzw⟩ := hnm.faced_of_carries hxy hcarries
    exact ⟨above', z, hzw⟩

/-- The copy of a value that does not contain itself does not contain itself. -/
theorem Copied.ends (hnm : Copied s g h first {} (.node n) (.node m)) (hn : Ends g.Carries (.node n)) :
    Ends h.Carries (.node m) := by
  suffices hall : ∀ above x y, Ends g.Carries x → Facing g h n m above x y → Ends h.Carries y from
    hall [] _ _ hn .root
  intro above x y hx
  induction hx generalizing above y with
  | intro x _ ih =>
    intro hxy
    refine ⟨y, fun w hyw => ?_⟩
    obtain ⟨above', z, hxz, hzw⟩ := hnm.faced_of_carries hxy hyw
    exact ih z hxz above' w hzw

end Walks

end EntityQuery.Sql
