import EntityQuery.Proofs.Equality.Parts

/-!
What parts take from outside, and comparisons of values whose scopes are apart.

* `Needs g x a`: the part `x` reads the alias `a` from outside, that is, as no source of a request in it.
  A comparison depends on the partners of these aliases only: `SameAt.congr`.
* `Tall g n x`: a way down from `x` has `n` steps. Equal parts are equally tall, so that no part equals one
  that stands in it.
* `ScopesApart g roots`: what is read from outside by the values `roots` is introduced in none of them, and
  nothing is introduced twice on a way down. `Untangled g roots`: besides, no part takes from outside what
  two parts around it introduce.
* `Scene g roots frames pairs x y`: where a comparison of two of the values is, in the parts `frames` around
  `x` and `y`. Every step of the comparison leads from a scene to a scene: `Scene.step`.
* In a scene, what is matched is matched in both directions: `Frames.image_swap`. A part that is compared
  with itself needs nothing that is matched: `Scene.image_self`.
-/

namespace EntityQuery.Sql

/-! ### Partners -/

namespace Pairs

variable {pairs pairs' ps qs rs : Pairs} {xs ys zs : List AliasId} {a b : AliasId}

lemma lookup_of_mem (hnodup : (pairs.map Prod.fst).Nodup) (hab : (a, b) ∈ pairs) :
    pairs.lookup a = some b := by
  obtain ⟨newer, older, rfl⟩ := List.append_of_mem hab
  rw [List.map_append, List.map_cons, List.nodup_middle, List.nodup_cons] at hnodup
  refine List.lookup_eq_some_iff.2 ⟨newer, older, rfl, fun p hp => bne_iff_ne.2 ?_⟩
  intro hkey
  exact hnodup.1 (List.mem_append_left _ (List.mem_map.2 ⟨p, hp, hkey.symm⟩))

lemma lookup_of_not_mem (ha : a ∉ pairs.map Prod.fst) : pairs.lookup a = none := by
  refine List.lookup_eq_none_iff.2 fun p hp => bne_iff_ne.2 ?_
  intro hkey
  exact ha (List.mem_map.2 ⟨p, hp, hkey.symm⟩)

lemma image_of_mem (hnodup : (pairs.map Prod.fst).Nodup) (hab : (a, b) ∈ pairs) : pairs.image a = b := by
  rw [image, lookup_of_mem hnodup hab, Option.getD_some]

lemma image_of_not_mem (ha : a ∉ pairs.map Prod.fst) : pairs.image a = a := by
  rw [image, lookup_of_not_mem ha, Option.getD_none]

lemma map_fst_under (hlength : xs.length = ys.length) :
    (pairs.under xs ys).map Prod.fst = xs.reverse ++ pairs.map Prod.fst := by
  rw [under, List.map_append, List.map_reverse, List.map_fst_zip hlength.le]

lemma map_snd_under (hlength : xs.length = ys.length) :
    (pairs.under xs ys).map Prod.snd = ys.reverse ++ pairs.map Prod.snd := by
  rw [under, List.map_append, List.map_reverse, List.map_snd_zip hlength.ge]

lemma map_swap_under : (pairs.under xs ys).map Prod.swap = Pairs.under (pairs.map Prod.swap) ys xs := by
  rw [under, under, List.map_append, List.map_reverse, List.zip_swap]

/-- Aliases that are not matched inside have the partner that they have outside. -/
lemma image_under_of_not_mem (hlength : xs.length = ys.length) (ha : a ∉ xs) :
    (pairs.under xs ys).image a = pairs.image a := by
  have hnone : (xs.zip ys).reverse.lookup a = none := by
    refine lookup_of_not_mem ?_
    rw [List.map_reverse, List.map_fst_zip hlength.le, List.mem_reverse]
    exact ha
  rw [image, image, under, List.lookup_append, hnone, Option.none_or]

/-- Aliases that are matched inside have the partner that they have there. -/
lemma image_under_of_mem (hlength : xs.length = ys.length) (hxs : xs.Nodup) (hab : (a, b) ∈ xs.zip ys) :
    (pairs.under xs ys).image a = b := by
  have hsome : (xs.zip ys).reverse.lookup a = some b := by
    refine lookup_of_mem ?_ (List.mem_reverse.2 hab)
    rw [List.map_reverse, List.map_fst_zip hlength.le, List.nodup_reverse]
    exact hxs
  rw [image, under, List.lookup_append, hsome, Option.some_or, Option.getD_some]

lemma image_under_congr (hlength : xs.length = ys.length)
    (himage : a ∉ xs → pairs.image a = pairs'.image a) :
    (pairs.under xs ys).image a = (pairs'.under xs ys).image a := by
  by_cases ha : a ∈ xs
  · obtain ⟨b, hab⟩ := exists_mem_zip_left hlength ha
    have hsome : (xs.zip ys).reverse.lookup a ≠ none := by
      intro hnone
      have hne := List.lookup_eq_none_iff.1 hnone (a, b) (List.mem_reverse.2 hab)
      exact bne_iff_ne.1 hne rfl
    obtain ⟨c, hc⟩ := Option.ne_none_iff_exists'.1 hsome
    rw [image, image, under, under, List.lookup_append, List.lookup_append, hc, Option.some_or,
      Option.some_or]
  · rw [image_under_of_not_mem hlength ha, image_under_of_not_mem hlength ha]
    exact himage ha

/-- Partners of partners, where nothing is matched twice. -/
lemma image_under_comp (hxy : xs.length = ys.length) (hyz : ys.length = zs.length) (hxs : xs.Nodup)
    (hys : ys.Nodup) (himage : a ∉ xs → rs.image a = qs.image (ps.image a))
    (hout : a ∉ xs → ps.image a ∉ ys) :
    (rs.under xs zs).image a = (qs.under ys zs).image ((ps.under xs ys).image a) := by
  by_cases ha : a ∈ xs
  · obtain ⟨c, hac⟩ := exists_mem_zip_left (hxy.trans hyz) ha
    obtain ⟨b, hab, hbc⟩ := exists_mem_zip hxy hyz hac
    rw [image_under_of_mem (hxy.trans hyz) hxs hac, image_under_of_mem hxy hxs hab,
      image_under_of_mem hyz hys hbc]
  · rw [image_under_of_not_mem (hxy.trans hyz) ha, image_under_of_not_mem hxy ha,
      image_under_of_not_mem hyz (hout ha)]
    exact himage ha

end Pairs

namespace Graph

variable {g : Graph} {x y x' : Part} {s : Slot} {bound : List AliasId} {a : AliasId} {fuel n : Nat}
  {pairs pairs' : Pairs}

/-! ### Needs -/

/-- A part reads an alias from outside. -/
inductive Needs (g : Graph) : Part → AliasId → Prop
  | cites {x : Part} {a : AliasId} (h : g.Cites x a) (ha : a ∉ g.introduced x) : Needs g x a
  | stands {x y : Part} {s : Slot} {bound : List AliasId} {a : AliasId} (h : g.Stands x s bound y)
      (ha : a ∉ bound) (hy : Needs g y a) : Needs g x a

/-- A node over a request needs what the request needs. -/
lemma Needs.of_sub {n : NodeId} {r : RequestId} (h : g.Needs (.node n) a) (hn : g.node n = .sub r) :
    g.Needs (.request r) a := by
  cases h with
  | cites h ha =>
    cases h with
    | node h =>
      rw [hn] at h
      cases h
  | stands h ha hy =>
    cases h with
    | child h =>
      rw [hn] at h
      cases h
    | query h =>
      cases hn.symm.trans h
      exact hy

/-- **A comparison depends on the partners of the needed aliases only.** -/
theorem SameAt.congr (h : g.SameAt fuel pairs x y)
    (himage : ∀ a, g.Needs x a → pairs.image a = pairs'.image a) : g.SameAt fuel pairs' x y := by
  induction fuel generalizing pairs pairs' x y with
  | zero => exact absurd h not_sameAt_zero
  | succ fuel ih =>
    rcases of_sameParts h with ⟨r, rfl, rfl⟩ | ⟨-, hkindred, hcites, hstands⟩
    · exact sameAt_request pairs' r
    refine Level.sameAt ⟨hkindred, fun a b ha hb => ?_, fun s bound x' bound' y' hx hy => ?_⟩
    · have hagrees := hcites a b ha hb
      rw [Pairs.agrees, Pairs.image_under_congr hkindred.length_introduced] at hagrees
      · exact hagrees
      · exact fun hout => himage a (.cites ha hout)
    · refine ih (hstands s bound x' bound' y' hx hy) fun a ha => ?_
      exact Pairs.image_under_congr (hkindred.length_bound hx hy) fun hout => himage a (.stands hx hout ha)

/-! ### Height -/

/-- A way down from a part has that many steps. -/
inductive Tall (g : Graph) : Nat → Part → Prop
  | zero (x : Part) : Tall g 0 x
  | succ {n : Nat} {x y : Part} (h : g.Carries x y) (hy : Tall g n y) : Tall g (n + 1) x

lemma Tall.pred (h : g.Tall (n + 1) x) : g.Tall n x := by
  induction n generalizing x with
  | zero => exact .zero x
  | succ n ih =>
    cases h with
    | succ hxy hy => exact .succ hxy (ih hy)

lemma Tall.of_below (hxy : Relation.TransGen g.Carries x y) (hy : g.Tall n y) : g.Tall (n + 1) x := by
  induction hxy using Relation.TransGen.head_induction_on with
  | single h => exact .succ h hy
  | head h _ ih => exact (Tall.succ h ih).pred

/-- A part is no taller than there are parts below it. -/
lemma Tall.le_depth (hg : g.Closed) (hx : Ends g.Carries x) (h : g.Tall n x) :
    n ≤ g.depth g.Carries x := by
  induction h with
  | zero x => exact Nat.zero_le _
  | succ hxy _ ih =>
    have hle := ih (hx.step hxy)
    have hlt := hg.falls hx hxy
    omega

/-- **Equal parts are equally tall.** -/
theorem SameAt.tall_iff (hg : g.Formed) (h : g.SameAt fuel pairs x y) : g.Tall n x ↔ g.Tall n y := by
  induction fuel generalizing pairs x y n with
  | zero => exact absurd h not_sameAt_zero
  | succ fuel ih =>
    rcases of_sameParts h with ⟨r, rfl, rfl⟩ | ⟨-, hkindred, -, hstands⟩
    · rfl
    constructor
    · intro hx
      cases hx with
      | zero => exact .zero y
      | succ hxx' hx' =>
        obtain ⟨s, bound, hslot⟩ := hxx'.stands
        obtain ⟨bound', y', hslot'⟩ := hkindred.exists_stands hg hslot
        exact .succ hslot'.carries ((ih (hstands _ _ _ _ _ hslot hslot')).1 hx')
    · intro hy
      cases hy with
      | zero => exact .zero x
      | succ hyy' hy' =>
        obtain ⟨s, bound', hslot'⟩ := hyy'.stands
        obtain ⟨bound, x', hslot⟩ := hkindred.symm.exists_stands hg hslot'
        exact .succ hslot.carries ((ih (hstands _ _ _ _ _ hslot hslot')).2 hy')

/-- Nothing is below a part that is equally tall. -/
lemma not_below_of_tall (hg : g.Closed) (hy : Ends g.Carries y) (htall : ∀ n, g.Tall n x → g.Tall n y) :
    ¬ Relation.TransGen g.Carries x y := by
  intro hxy
  have hall : ∀ n, g.Tall n y := by
    intro n
    induction n with
    | zero => exact .zero y
    | succ n ih => exact htall _ (.of_below hxy ih)
  have hle := (hall (g.depth g.Carries y + 1)).le_depth hg hy
  omega

end Graph

/-! ### Scopes -/

namespace Graph

/-- A part is one of the values or stands in one. -/
def Nested (g : Graph) (roots : List NodeId) (x : Part) : Prop := ∃ n ∈ roots, g.Within (.node n) x

/-- One of the values reads an alias from outside. -/
def Needed (g : Graph) (roots : List NodeId) (a : AliasId) : Prop := ∃ n ∈ roots, g.Needs (.node n) a

/-- The scopes in some values are apart. -/
structure ScopesApart (g : Graph) (roots : List NodeId) : Prop where
  /-- A request introduces different aliases. -/
  nodup : ∀ x, g.Nested roots x → (g.introduced x).Nodup
  /-- An alias is not introduced again further in. -/
  fresh : ∀ x y a, g.Nested roots x → Relation.TransGen g.Carries x y → a ∈ g.introduced x →
    a ∉ g.introduced y
  /-- What comes from outside of the values is not introduced in them. -/
  outside : ∀ x a, g.Nested roots x → a ∈ g.introduced x → ¬ g.Needed roots a

/-- The scopes are apart, and what stands in two of them takes nothing from them that both introduce. -/
structure Untangled (g : Graph) (roots : List NodeId) : Prop extends g.ScopesApart roots where
  shared : ∀ x y z a, g.Nested roots x → g.Nested roots y → x ≠ y → Relation.TransGen g.Carries x z →
    Relation.TransGen g.Carries y z → a ∈ g.introduced x → a ∈ g.introduced y → ¬ g.Needs z a

variable {g : Graph} {roots : List NodeId} {frames : List (Part × Part)} {pairs : Pairs}
  {x y x' y' : Part} {a b : AliasId} {xs ys : List AliasId}

/-- Nothing is tangled where every alias is introduced once. -/
lemma untangled_of_once (hlayered : g.Layered) (ho : g.Ordered)
    (hnodup : ∀ x, g.Nested roots x → (g.introduced x).Nodup)
    (honce : ∀ x y a, g.Nested roots x → g.Nested roots y → a ∈ g.introduced x →
      a ∈ g.introduced y → x = y)
    (houtside : ∀ x a, g.Nested roots x → a ∈ g.introduced x → ¬ g.Needed roots a) :
    g.Untangled roots where
  nodup := hnodup
  fresh := by
    rintro x y a ⟨n, hn, hx⟩ hxy ha hy
    have hsame := honce x y a ⟨n, hn, hx⟩ ⟨n, hn, hx.trans hxy.to_reflTransGen⟩ ha hy
    exact hlayered.not_carries_self ho y (hsame ▸ hxy)
  outside := houtside
  shared x y z a hx hy hne _ _ ha hb := absurd (honce x y a hx hy ha hb) hne

lemma Nested.carries (hx : g.Nested roots x) (h : g.Carries x y) : g.Nested roots y := by
  obtain ⟨n, hn, hnx⟩ := hx
  exact ⟨n, hn, .tail hnx h⟩

/-! ### Frames -/

/-- Equal parts, one pair around the other, with aliases that they introduce matched. -/
structure Frames (g : Graph) (roots : List NodeId) (frames : List (Part × Part)) (pairs : Pairs) :
    Prop where
  nested : ∀ f ∈ frames, g.Nested roots f.1 ∧ g.Nested roots f.2
  tall : ∀ f ∈ frames, ∀ n, g.Tall n f.1 ↔ g.Tall n f.2
  chain : ∀ f ∈ frames, ∀ f' ∈ frames, f = f' ∨
    Relation.TransGen g.Carries f.1 f'.1 ∧ Relation.TransGen g.Carries f.2 f'.2 ∨
    Relation.TransGen g.Carries f'.1 f.1 ∧ Relation.TransGen g.Carries f'.2 f.2
  matched : ∀ p ∈ pairs, ∃ f ∈ frames, f.1 ≠ f.2 ∧ p.1 ∈ g.introduced f.1 ∧ p.2 ∈ g.introduced f.2
  nodup_fst : (pairs.map Prod.fst).Nodup
  nodup_snd : (pairs.map Prod.snd).Nodup

namespace Frames

/-- What comes from outside of the values is not matched. -/
lemma not_matched (h : g.Frames roots frames pairs) (hu : g.ScopesApart roots) (ha : g.Needed roots a) :
    a ∉ pairs.map Prod.fst ∧ a ∉ pairs.map Prod.snd := by
  constructor
  · intro hmem
    obtain ⟨p, hp, rfl⟩ := List.mem_map.1 hmem
    obtain ⟨f, hf, -, hleft, -⟩ := h.matched p hp
    exact hu.outside f.1 p.1 (h.nested f hf).1 hleft ha
  · intro hmem
    obtain ⟨p, hp, rfl⟩ := List.mem_map.1 hmem
    obtain ⟨f, hf, -, -, hright⟩ := h.matched p hp
    exact hu.outside f.2 p.2 (h.nested f hf).2 hright ha

/-- **What is matched is matched in both directions.** -/
theorem image_swap (h : g.Frames roots frames pairs) (hu : g.ScopesApart roots)
    (ha : a ∈ pairs.map Prod.fst ∨ g.Needed roots a) :
    Pairs.image (pairs.map Prod.swap) (pairs.image a) = a := by
  rcases ha with hmem | hneeded
  · obtain ⟨⟨a, b⟩, hab, rfl⟩ := List.mem_map.1 hmem
    rw [Pairs.image_of_mem h.nodup_fst hab]
    refine Pairs.image_of_mem ?_ (List.mem_map_of_mem (f := Prod.swap) hab)
    rw [map_fst_swap]
    exact h.nodup_snd
  · obtain ⟨hleft, hright⟩ := h.not_matched hu hneeded
    rw [Pairs.image_of_not_mem hleft, Pairs.image_of_not_mem]
    rw [map_fst_swap]
    exact hright

end Frames

/-! ### Scenes -/

/-- Two parts that are compared, with the parts around them. -/
structure Scene (g : Graph) (roots : List NodeId) (frames : List (Part × Part)) (pairs : Pairs)
    (x y : Part) : Prop extends g.Frames roots frames pairs where
  left : g.Nested roots x
  right : g.Nested roots y
  around : ∀ f ∈ frames, Relation.TransGen g.Carries f.1 x ∧ Relation.TransGen g.Carries f.2 y
  needs_left : ∀ a, g.Needs x a → a ∈ pairs.map Prod.fst ∨ g.Needed roots a
  needs_right : ∀ b, g.Needs y b → b ∈ pairs.map Prod.snd ∨ g.Needed roots b

/-- A comparison of two of the values begins in a scene. -/
lemma scene_start {m n : NodeId} (hm : m ∈ roots) (hn : n ∈ roots) :
    g.Scene roots [] [] (.node m) (.node n) where
  nested := nofun
  tall := nofun
  chain := nofun
  matched := nofun
  nodup_fst := .nil
  nodup_snd := .nil
  left := ⟨m, hm, .refl⟩
  right := ⟨n, hn, .refl⟩
  around := nofun
  needs_left _ ha := .inr ⟨m, hm, ha⟩
  needs_right _ hb := .inr ⟨n, hn, hb⟩

namespace Scene

/-- What a part needs is not matched with anything that is introduced next. -/
lemma image_not_mem (h : g.Scene roots frames pairs x y) (hu : g.ScopesApart roots) (ha : g.Needs x a) :
    pairs.image a ∉ g.introduced y := by
  rcases h.needs_left a ha with hmem | hneeded
  · obtain ⟨⟨a, b⟩, hab, rfl⟩ := List.mem_map.1 hmem
    obtain ⟨f, hf, -, -, hright⟩ := h.matched _ hab
    rw [Pairs.image_of_mem h.nodup_fst hab]
    exact hu.fresh f.2 y b (h.nested f hf).2 (h.around f hf).2 hright
  · rw [Pairs.image_of_not_mem (h.not_matched hu hneeded).1]
    exact fun hmem => hu.outside y a h.right hmem hneeded

/-- **A part that is compared with itself needs nothing that is matched.** A matched alias `a` is introduced
by a part `f.1` around `x` on the left. On the right it is introduced as well, by a part `f'.2`, since it
does not come from outside. As both parts stand around `x`, they are the same part. That part is as tall as
its partner on the other side, so that the two pairs cannot stand one in the other. -/
theorem image_self (h : g.Scene roots frames pairs x x) (hu : g.Untangled roots) (hg : g.Closed)
    (hends : ∀ y, Ends g.Carries y) (ha : g.Needs x a) : pairs.image a = a := by
  refine Pairs.image_of_not_mem fun hmem => ?_
  obtain ⟨⟨a, b⟩, hab, rfl⟩ := List.mem_map.1 hmem
  obtain ⟨f, hf, hne, hleft, -⟩ := h.matched _ hab
  have hnested := h.nested f hf
  rcases h.needs_right a ha with hmem' | hneeded
  · obtain ⟨⟨c, a⟩, hca, rfl⟩ := List.mem_map.1 hmem'
    obtain ⟨f', hf', -, -, hright⟩ := h.matched _ hca
    have hsame : f.1 = f'.2 := by
      by_contra hdiffer
      exact hu.shared f.1 f'.2 x a hnested.1 (h.nested f' hf').2 hdiffer (h.around f hf).1
        (h.around f' hf').2 hleft hright ha
    rcases h.chain f hf f' hf' with rfl | ⟨hdown, -⟩ | ⟨-, hdown⟩
    · exact hne hsame
    · rw [hsame] at hdown
      exact not_below_of_tall hg (hends _) (fun n => (h.tall f' hf' n).2) hdown
    · rw [← hsame] at hdown
      exact not_below_of_tall hg (hends _) (fun n => (h.tall f hf n).1) hdown
  · exact hu.outside f.1 a hnested.1 hleft hneeded

/-- The compared parts stand around what is in them. -/
lemma enter (h : g.Scene roots frames pairs x y) (hu : g.ScopesApart roots)
    (hne : ∀ r, x = .request r → y ≠ .request r) (htall : ∀ n, g.Tall n x ↔ g.Tall n y)
    (hxs : xs.Sublist (g.introduced x)) (hys : ys.Sublist (g.introduced y))
    (hlength : xs.length = ys.length) : g.Frames roots ((x, y) :: frames) (pairs.under xs ys) where
  nested := List.forall_mem_cons.2 ⟨⟨h.left, h.right⟩, h.nested⟩
  tall := List.forall_mem_cons.2 ⟨htall, h.tall⟩
  chain := by
    rintro f hf f' hf'
    rcases List.mem_cons.1 hf with rfl | hf <;> rcases List.mem_cons.1 hf' with rfl | hf'
    · exact .inl rfl
    · exact .inr (.inr (h.around f' hf'))
    · exact .inr (.inl (h.around f hf))
    · exact h.chain f hf f' hf'
  matched := by
    rintro p hp
    rcases List.mem_append.1 hp with hp | hp
    · obtain ⟨hleft, hright⟩ := List.of_mem_zip (List.mem_reverse.1 hp)
      refine ⟨(x, y), List.mem_cons_self, ?_, hxs.subset hleft, hys.subset hright⟩
      intro heq
      obtain rfl : x = y := heq
      cases x with
      | node n => exact absurd (hxs.subset hleft) List.not_mem_nil
      | request r => exact hne r rfl rfl
    · obtain ⟨f, hf, hrest⟩ := h.matched p hp
      exact ⟨f, List.mem_cons_of_mem _ hf, hrest⟩
  nodup_fst := by
    rw [Pairs.map_fst_under hlength, List.nodup_append']
    refine ⟨List.nodup_reverse.2 (hxs.nodup (hu.nodup x h.left)), h.nodup_fst, ?_⟩
    intro a ha hmem
    obtain ⟨p, hp, rfl⟩ := List.mem_map.1 hmem
    obtain ⟨f, hf, -, hleft, -⟩ := h.matched p hp
    refine hu.fresh f.1 x p.1 (h.nested f hf).1 (h.around f hf).1 hleft ?_
    exact hxs.subset (List.mem_reverse.1 ha)
  nodup_snd := by
    rw [Pairs.map_snd_under hlength, List.nodup_append']
    refine ⟨List.nodup_reverse.2 (hys.nodup (hu.nodup y h.right)), h.nodup_snd, ?_⟩
    intro b hb hmem
    obtain ⟨p, hp, rfl⟩ := List.mem_map.1 hmem
    obtain ⟨f, hf, -, -, hright⟩ := h.matched p hp
    refine hu.fresh f.2 y p.2 (h.nested f hf).2 (h.around f hf).2 hright ?_
    exact hys.subset (List.mem_reverse.1 hb)

/-- **A step of a comparison leads to a scene.** -/
theorem step (h : g.Scene roots frames pairs x y) (hu : g.ScopesApart roots)
    (hne : ∀ r, x = .request r → y ≠ .request r) (htall : ∀ n, g.Tall n x ↔ g.Tall n y)
    (hlength : xs.length = ys.length) {s : Slot} (hx : g.Stands x s xs x') (hy : g.Stands y s ys y') :
    g.Scene roots ((x, y) :: frames) (pairs.under xs ys) x' y' where
  toFrames := h.enter hu hne htall hx.sublist hy.sublist hlength
  left := h.left.carries hx.carries
  right := h.right.carries hy.carries
  around := by
    refine List.forall_mem_cons.2 ⟨⟨.single hx.carries, .single hy.carries⟩, fun f hf => ?_⟩
    obtain ⟨hleft, hright⟩ := h.around f hf
    exact ⟨.tail hleft hx.carries, .tail hright hy.carries⟩
  needs_left a ha := by
    rw [Pairs.map_fst_under hlength, List.mem_append, List.mem_reverse]
    by_cases hmem : a ∈ xs
    · exact .inl (.inl hmem)
    · exact (h.needs_left a (.stands hx hmem ha)).imp_left .inr
  needs_right b hb := by
    rw [Pairs.map_snd_under hlength, List.mem_append, List.mem_reverse]
    by_cases hmem : b ∈ ys
    · exact .inl (.inl hmem)
    · exact (h.needs_right b (.stands hy hmem hb)).imp_left .inr

end Scene

end Graph

end EntityQuery.Sql
