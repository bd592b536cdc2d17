import EntityQuery.Proofs.Copying.Assembly
import EntityQuery.Proofs.Equality.Scenes
import Mathlib.Tactic.IntervalCases

/-!
Comparing values is an equivalence.

* Every value without numbers that are none equals itself: `sameAt_self`.
* Among values whose scopes are apart, equality is symmetric: `SameAt.symm`. Among untangled values it is
  transitive: `SameAt.trans`. Both follow the comparison from scene to scene.
* `sameNodes_equivalence`: the three properties of the comparison that the program makes.
* `lines`: values over requests for order lines. Where an alias that one value takes from outside is a source
  in another one, the comparison takes the two for the same, but in one direction only.
-/

namespace EntityQuery.Sql

lemma Node.like_self {x : Node} (hx : ∀ v, x = .const v → v.equals v = true) :
    x.Like (fun _ _ => True) (fun v w => v.equals w = true) x := by
  cases x with
  | column a c => exact .column trivial c
  | row a => exact .row trivial
  | const v => exact .const (hx v rfl)
  | unary o e => exact .unary o rfl
  | binary o l r => exact .binary o l r l r
  | isIn e vs => exact .isIn e e rfl
  | cond t y n => exact .cond t y n t y n
  | sub r => exact .sub r r

namespace Graph

variable {g : Graph} {roots : List NodeId} {frames frames' : List (Part × Part)} {pairs ps qs rs : Pairs}
  {x y z : Part} {a : AliasId} {m n : NodeId} {fuel : Nat}

lemma sameNodes_iff : g.sameNodes m n = true ↔ g.SameAt g.comparisonDepth [] (.node m) (.node n) := by
  rw [sameNodes, SameAt, sameParts]
  cases g.sameWithin g.comparisonDepth [] m n <;> simp

/-! ### Reflexivity -/

/-- **A value equals itself,** if the comparison may go as deep as the value is. -/
theorem sameAt_self (hg : g.Closed) (hends : Ends g.Carries (.node n))
    (hnan : ∀ c v, g.Within (.node n) (.node c) → g.node c = .const v → v.holdsNaN = false)
    (hfuel : g.depth g.Carries (.node n) < fuel) : g.SameAt fuel [] (.node n) (.node n) := by
  induction fuel generalizing n with
  | zero => omega
  | succ fuel ih =>
    refine Level.sameAt ⟨.node (Node.like_self fun v hv => v.equals_self (hnan n v .refl hv)), ?_, ?_⟩
    · rintro a b ⟨ha⟩ ⟨hb⟩
      cases ha.symm.trans hb
      exact beq_self_eq_true a
    · rintro _ _ _ _ _ (hc | hr) (hd | hs)
      · cases hc.symm.trans hd
        have hcarries := (Stands.child hc).carries
        have hfalls := hg.falls hends hcarries
        exact ih (hends.step hcarries) (fun d v hd => hnan d v (.head hcarries hd)) (by omega)
      · cases hr.symm.trans hs
        have hfalls := hg.falls hends (Stands.query hr).carries
        obtain ⟨fuel, rfl⟩ := Nat.exists_eq_succ_of_ne_zero (n := fuel) (by omega)
        exact sameAt_request _ _

/-! ### Symmetry and transitivity -/

/-- **Equality is symmetric.** -/
theorem SameAt.symm (hg : g.Formed) (hu : g.ScopesApart roots) (h : g.SameAt fuel pairs x y)
    (hs : g.Scene roots frames pairs x y) : g.SameAt fuel (pairs.map Prod.swap) y x := by
  induction fuel generalizing frames pairs x y with
  | zero => exact absurd h not_sameAt_zero
  | succ fuel ih =>
    rcases of_sameParts h with ⟨r, rfl, rfl⟩ | ⟨hne, hkindred, hcites, hstands⟩
    · exact sameAt_request _ r
    have htall : ∀ n, g.Tall n x ↔ g.Tall n y := fun n => h.tall_iff hg
    have hlength := hkindred.length_introduced
    refine Level.sameAt ⟨hkindred.symm, fun b a hb ha => ?_, fun s bound' y' bound x' hy hx => ?_⟩
    · have hframes := hs.enter hu hne htall (.refl _) (.refl _) hlength
      have hagrees := hcites a b ha hb
      rw [Pairs.agrees, beq_iff_eq] at hagrees ⊢
      rw [← Pairs.map_swap_under, ← hagrees]
      refine hframes.image_swap hu ?_
      rw [Pairs.map_fst_under hlength, List.mem_append, List.mem_reverse]
      by_cases hmem : a ∈ g.introduced x
      · exact .inl (.inl hmem)
      · exact (hs.needs_left a (.cites ha hmem)).imp_left .inr
    · rw [← Pairs.map_swap_under]
      exact ih (hstands _ _ _ _ _ hx hy) (hs.step hu hne htall (hkindred.length_bound hx hy) hx hy)

section Untangled

variable (hg : g.Formed) (hends : ∀ x, Ends g.Carries x) (hu : g.Untangled roots)
include hg hends hu

/-- What a part needs, an equal part needs in the place of it. -/
lemma SameAt.needs_image (h : g.SameAt fuel pairs x y) (hs : g.Scene roots frames pairs x y)
    (ha : g.Needs x a) : g.Needs y (pairs.image a) := by
  induction fuel generalizing frames pairs x y a with
  | zero => exact absurd h not_sameAt_zero
  | succ fuel ih =>
    rcases of_sameParts h with ⟨r, rfl, rfl⟩ | ⟨hne, hkindred, hcites, hstands⟩
    · rw [hs.image_self hu hg.closed hends ha]
      exact ha
    have hout := hs.image_not_mem hu.toScopesApart ha
    cases ha with
    | cites hx hmem =>
      obtain ⟨b, hb⟩ := hkindred.exists_cites hx
      have hagrees := hcites a b hx hb
      rw [Pairs.agrees, beq_iff_eq, Pairs.image_under_of_not_mem hkindred.length_introduced hmem] at hagrees
      rw [← hagrees] at hb
      exact .cites hb hout
    | stands hx hmem hx' =>
      obtain ⟨bound', y', hy⟩ := hkindred.exists_stands hg hx
      have hlength := hkindred.length_bound hx hy
      have hstep := hs.step hu.toScopesApart hne (fun n => h.tall_iff hg) hlength hx hy
      have hneeds := ih (hstands _ _ _ _ _ hx hy) hstep hx'
      rw [Pairs.image_under_of_not_mem hlength hmem] at hneeds
      exact .stands hy (fun hmem' => hout (hy.sublist.subset hmem')) hneeds

/-- **Equality is transitive.** The partners of the partners are the partners. Where one of the comparisons
meets the same request on both sides, that needs nothing that is matched, and the other comparison is the
whole one. -/
theorem SameAt.trans (hxy : g.SameAt fuel ps x y) (hyz : g.SameAt fuel qs y z)
    (hs : g.Scene roots frames ps x y) (hs' : g.Scene roots frames' qs y z)
    (himage : ∀ a, g.Needs x a → rs.image a = qs.image (ps.image a)) : g.SameAt fuel rs x z := by
  induction fuel generalizing frames frames' ps qs rs x y z with
  | zero => exact absurd hxy not_sameAt_zero
  | succ fuel ih =>
    rcases of_sameParts hxy with ⟨r, rfl, rfl⟩ | ⟨hne, hkindred, hcites, hstands⟩
    · refine hyz.congr fun a ha => ?_
      rw [himage a ha, hs.image_self hu hg.closed hends ha]
    rcases of_sameParts hyz with ⟨r, rfl, rfl⟩ | ⟨hne', hkindred', hcites', hstands'⟩
    · refine hxy.congr fun a ha => ?_
      rw [himage a ha, hs'.image_self hu hg.closed hends (hxy.needs_image hg hends hu hs ha)]
    have hlength := hkindred.length_introduced
    have hlength' := hkindred'.length_introduced
    refine Level.sameAt ⟨hkindred.trans hkindred', fun a c ha hc => ?_, fun s xs x' zs z' hx hz => ?_⟩
    · obtain ⟨b, hb⟩ := hkindred.exists_cites ha
      have hab := hcites a b ha hb
      have hbc := hcites' b c hb hc
      rw [Pairs.agrees, beq_iff_eq] at hab hbc ⊢
      rw [← hbc, ← hab]
      refine Pairs.image_under_comp hlength hlength' (hu.nodup x hs.left) (hu.nodup y hs.right) ?_ ?_
      · exact fun hmem => himage a (.cites ha hmem)
      · exact fun hmem => hs.image_not_mem hu.toScopesApart (.cites ha hmem)
    · obtain ⟨ys, y', hy⟩ := hkindred.exists_stands hg hx
      have hbound := hkindred.length_bound hx hy
      have hbound' := hkindred'.length_bound hy hz
      have hstep := hs.step hu.toScopesApart hne (fun n => hxy.tall_iff hg) hbound hx hy
      have hstep' := hs'.step hu.toScopesApart hne' (fun n => hyz.tall_iff hg) hbound' hy hz
      refine ih (hstands _ _ _ _ _ hx hy) (hstands' _ _ _ _ _ hy hz) hstep hstep' fun a ha => ?_
      refine Pairs.image_under_comp hbound hbound' (hx.sublist.nodup (hu.nodup x hs.left))
        (hy.sublist.nodup (hu.nodup y hs.right)) ?_ ?_
      · exact fun hmem => himage a (.stands hx hmem ha)
      · intro hmem hmem'
        exact hs.image_not_mem hu.toScopesApart (.stands hx hmem ha) (hy.sublist.subset hmem')

end Untangled

/-! ### Values -/

/-- **Comparing values is an equivalence.** Every value without numbers that are none equals itself. Among
values whose scopes are apart, in whatever requests they nest, equality is symmetric; if they are untangled,
it is transitive. -/
theorem sameNodes_equivalence (hg : g.Assembled) (hlayered : g.Layered) :
    (∀ a : NodeId, a.index < g.entries.size →
      (∀ c v, g.Within (.node a) (.node c) → g.node c = .const v → v.holdsNaN = false) →
      g.sameNodes a a = true) ∧
    ∀ roots, (g.ScopesApart roots → ∀ a ∈ roots, ∀ b ∈ roots, g.sameNodes a b = g.sameNodes b a) ∧
      (g.Untangled roots → ∀ a ∈ roots, ∀ b ∈ roots, ∀ c ∈ roots,
        g.sameNodes a b = true → g.sameNodes b c = true → g.sameNodes a c = true) := by
  have hformed := hg.formed
  have hends : ∀ x, Ends g.Carries x := hlayered.ends hformed.ordered hformed.closed
  refine ⟨fun a ha hnan => ?_, fun roots => ⟨fun hu a ha b hb => ?_, fun hu a ha b hb c hc hab hbc => ?_⟩⟩
  · have hdepth := depth_lt_size (x := .node a) ha (hends _).not_below_self
    exact sameNodes_iff.2 (sameAt_self hformed.closed (hends _) hnan
      (hdepth.trans_le g.size_le_comparisonDepth))
  · have hsymm : ∀ m ∈ roots, ∀ n ∈ roots, g.sameNodes m n = true → g.sameNodes n m = true := by
      intro m hm n hn h
      exact sameNodes_iff.2 ((sameNodes_iff.1 h).symm hformed hu (scene_start hm hn))
    exact Bool.eq_iff_iff.2 ⟨hsymm a ha b hb, hsymm b hb a ha⟩
  · exact sameNodes_iff.2 ((sameNodes_iff.1 hab).trans hformed hends hu (sameNodes_iff.1 hbc)
      (scene_start ha hb) (scene_start hb hc) fun _ _ => rfl)

/-- A value over a request for the rows of `source` with the same order as a row of the first alias. -/
def addLines (g : Graph) (source : AliasId) : Graph :=
  let r : RequestId := ⟨g.requests.size⟩
  let n := g.entries.size
  let g := (g.addRequest none).2
  let g := g.modifyRequest r ({ · with base := some source })
  let g := (g.add (.column source "ORDER_ID")).2
  let g := (g.add (.column ⟨0⟩ "ORDER_ID")).2
  let g := (g.add (.binary .equal ⟨n⟩ ⟨n + 1⟩)).2
  let g := g.andFilter r ⟨n + 2⟩
  (g.add (.sub r)).2

lemma Assembled.addLines (hg : g.Assembled) {source : AliasId} (hsource : source.index < g.aliases.size) :
    (g.addLines source).Assembled := by
  have hfirst : 0 < g.aliases.size := Nat.zero_lt_of_lt hsource
  have hrequest : ((g.addRequest none).2.modifyRequest ⟨g.requests.size⟩
      ({ · with base := some source })).Assembled := by
    refine .tail (.tail hg (.addRequest (by rintro _ ⟨⟩))) (.modifyRequest ⟨⟨?_, ?_⟩, ?_, ?_⟩)
    all_goals rw [request_addRequest_self]
    · rintro _ ⟨⟩
    · simp [Request.origins, Request.sources, hsource]
    · rintro _ ⟨⟩
    · rfl
  refine .tail ?_ (.add ⟨by rintro _ ⟨⟩, ?_⟩ (by rintro _ ⟨⟩))
  · refine .tail ?_ (.andFilter (by simp) (by simp))
    refine .tail ?_ (.add ⟨by rintro _ ⟨⟩, by rintro _ ⟨⟩⟩ ?_)
    · have hcolumn : ∀ {h : Graph} {a : AliasId}, a.index < h.aliases.size → h.Assembled →
          (h.add (.column a "ORDER_ID")).2.Assembled := by
        intro h a ha hh
        refine .tail hh (.add ⟨?_, by rintro _ ⟨⟩⟩ (by rintro _ ⟨⟩))
        rintro _ ⟨⟩
        exact ha
      exact hcolumn (by simpa using hfirst) (hcolumn hsource hrequest)
    · rw [size_entries_add, size_entries_add]
      exact Node.forall_children_binary (Nat.lt_succ_of_lt (Nat.lt_succ_self _)) (Nat.lt_succ_self _)
  · rintro _ ⟨⟩
    rw [andFilter_of_none]
    · simp
    · simp [request_modifyRequest_self]

/-- Values over requests for order lines: three that range over aliases of their own, and one that ranges
over the alias that the others take from outside. -/
def lines : Graph :=
  let g := ({} : Graph)
  let g := (g.addAlias (.ofTable "ORDER_LINE" "OrderLine" (some "ID"))).2
  let g := (g.addAlias (.ofTable "ORDER_LINE" "OrderLine" (some "ID"))).2
  let g := (g.addAlias (.ofTable "ORDER_LINE" "OrderLine" (some "ID"))).2
  let g := (g.addAlias (.ofTable "ORDER_LINE" "OrderLine" (some "ID"))).2
  (((g.addLines ⟨1⟩).addLines ⟨2⟩).addLines ⟨3⟩).addLines ⟨0⟩

lemma assembled_lines : lines.Assembled := by
  refine .addLines (.addLines (.addLines (.addLines ?_ (by decide)) (by decide)) (by decide)) (by decide)
  refine .tail ?_ (.addAlias ⟨nofun, nofun⟩)
  refine .tail ?_ (.addAlias ⟨nofun, nofun⟩)
  refine .tail ?_ (.addAlias ⟨nofun, nofun⟩)
  exact .tail .refl (.addAlias ⟨nofun, nofun⟩)

lemma origin_lines (a : AliasId) (s : RequestId) : (lines.aliasOf a).origin ≠ .request s := by
  by_cases hlt : a.index < 4
  · obtain ⟨a⟩ := a
    interval_cases a <;> nofun
  · have hout : lines.aliasOf a = _ := dif_neg hlt
    rw [hout]
    nofun

lemma acyclic_lines : lines.Acyclic := by
  refine acyclic_of_older assembled_lines.formed.ordered ?_ fun r a _ => origin_lines a
  rintro ⟨m⟩ s hm
  have hlt := lt_size_of_node_eq_sub hm
  change m < 16 at hlt
  interval_cases m <;> cases hm <;> decide

lemma layered_lines : lines.Layered := acyclic_lines.layered

lemma holdsNaN_lines {n : NodeId} {v : Value} (hn : lines.node n = .const v) : v.holdsNaN = false := by
  by_cases hlt : n.index < 16
  · obtain ⟨n⟩ := n
    interval_cases n <;> cases hn
  · rw [node_of_size_le (Nat.not_lt.1 hlt)] at hn
    cases hn
    rfl

/-- The request that a part belongs to. -/
def lineRequest : Part → RequestId
  | .node n => ⟨n.index / 4⟩
  | .request r => r

lemma lineRequest_eq (h : lines.Carries x y) : lineRequest y = lineRequest x := by
  cases h with
  | @child n c h =>
    have hall : ∀ n < 16, ∀ c ∈ (lines.node ⟨n⟩).children, c.index / 4 = n / 4 := by decide +kernel
    exact congrArg RequestId.mk (hall n.index (lt_size_of_mem_children h) c h)
  | @sub n r h =>
    have hlt := lt_size_of_node_eq_sub h
    obtain ⟨n⟩ := n
    change n < 16 at hlt
    interval_cases n <;> cases h <;> rfl
  | @clause r c h =>
    have hall : ∀ r < 4, ∀ c ∈ (lines.request ⟨r⟩).clauseNodes, c.index / 4 = r := by decide +kernel
    by_cases hlt : r.index < 4
    · exact congrArg RequestId.mk (hall r.index hlt c h)
    · rw [request_of_size_le (Nat.not_lt.1 hlt)] at h
      cases h
  | source h hs => exact absurd hs (origin_lines _ _)

/-- A part of the lines reads the first alias, or the source of its request. -/
lemma needs_lines {a : AliasId} (h : lines.Needs x a) :
    a = ⟨0⟩ ∨ a ∈ (lines.request (lineRequest x)).sources := by
  induction h with
  | cites h ha =>
    cases h with
    | @node n a h =>
      by_cases hlt : n.index < 16
      · obtain ⟨n⟩ := n
        interval_cases n <;> cases h <;> decide +kernel
      · rw [node_of_size_le (Nat.not_lt.1 hlt)] at h
        cases h
    | @target r a h =>
      by_cases hlt : r.index < 4
      · obtain ⟨r⟩ := r
        interval_cases r <;> cases h
      · rw [request_of_size_le (Nat.not_lt.1 hlt)] at h
        cases h
  | stands h ha hy ih =>
    rw [← lineRequest_eq h.carries]
    exact ih

/-- Values over requests for lines take the first alias from outside. -/
lemma eq_of_needs_lines {r : RequestId} (hn : lines.node n = .sub r) (h : lines.Needs (.node n) a) :
    a = ⟨0⟩ := by
  have hrequest : lines.Needs (.request r) a := h.of_sub hn
  refine (needs_lines hrequest).resolve_right ?_
  cases hrequest with
  | cites h ha => exact ha
  | stands h ha hy =>
    cases h with
    | clause h => exact ha
    | table h hs => exact absurd hs (origin_lines _ _)

lemma lineRequest_eq_of_within (h : lines.Within x y) : lineRequest y = lineRequest x := by
  induction h with
  | refl => rfl
  | tail _ h ih => exact (lineRequest_eq h).trans ih

lemma introduced_lines (hx : lines.Nested [⟨3⟩, ⟨7⟩, ⟨11⟩] x) (ha : a ∈ lines.introduced x) :
    ∃ k < 3, x = .request ⟨k⟩ ∧ a = ⟨k + 1⟩ := by
  obtain ⟨n, hn, hnx⟩ := hx
  have hlt : (lineRequest x).index < 3 := by
    rw [lineRequest_eq_of_within hnx]
    simp only [List.mem_cons, List.not_mem_nil, or_false] at hn
    rcases hn with rfl | rfl | rfl <;> decide
  cases x with
  | node n => cases ha
  | request r =>
    obtain ⟨k⟩ := r
    change k < 3 at hlt
    refine ⟨k, hlt, rfl, ?_⟩
    interval_cases k <;> exact List.mem_singleton.1 ha

lemma nodup_lines (r : RequestId) : (lines.request r).sources.Nodup := by
  by_cases hlt : r.index < 4
  · obtain ⟨r⟩ := r
    interval_cases r <;> exact List.nodup_singleton _
  · rw [request_of_size_le (Nat.not_lt.1 hlt)]
    exact .nil

/-- The scopes of the three values with aliases of their own are apart. -/
lemma untangled_lines : lines.Untangled [⟨3⟩, ⟨7⟩, ⟨11⟩] := by
  refine untangled_of_once layered_lines assembled_lines.formed.ordered ?_ ?_ ?_
  · intro x _
    cases x with
    | node n => exact .nil
    | request r => exact nodup_lines r
  · intro x y a hx hy ha hb
    obtain ⟨j, -, rfl, rfl⟩ := introduced_lines hx ha
    obtain ⟨k, -, rfl, hjk⟩ := introduced_lines hy hb
    cases hjk
    rfl
  · rintro x a hx ha ⟨n, hn, hneeds⟩
    obtain ⟨k, -, rfl, rfl⟩ := introduced_lines hx ha
    simp only [List.mem_cons, List.not_mem_nil, or_false] at hn
    rcases hn with rfl | rfl | rfl
    · cases eq_of_needs_lines (r := ⟨0⟩) rfl hneeds
    · cases eq_of_needs_lines (r := ⟨1⟩) rfl hneeds
    · cases eq_of_needs_lines (r := ⟨2⟩) rfl hneeds

theorem sameNodes_equivalence_lines : lines.Assembled ∧ lines.Layered ∧
    lines.Untangled [⟨3⟩, ⟨7⟩, ⟨11⟩] ∧ lines.sameNodes ⟨3⟩ ⟨3⟩ = true ∧
    lines.sameNodes ⟨3⟩ ⟨7⟩ = lines.sameNodes ⟨7⟩ ⟨3⟩ ∧
    lines.sameNodes ⟨3⟩ ⟨7⟩ = true ∧ lines.sameNodes ⟨7⟩ ⟨11⟩ = true ∧ lines.sameNodes ⟨3⟩ ⟨11⟩ = true := by
  obtain ⟨hself, hall⟩ := sameNodes_equivalence assembled_lines layered_lines
  obtain ⟨hsymm, htrans⟩ := hall [⟨3⟩, ⟨7⟩, ⟨11⟩]
  have hfirst : lines.sameNodes ⟨3⟩ ⟨7⟩ = true := by decide +kernel
  have hsecond : lines.sameNodes ⟨7⟩ ⟨11⟩ = true := by decide +kernel
  exact ⟨assembled_lines, layered_lines, untangled_lines,
    hself ⟨3⟩ (by decide) fun c v _ hc => holdsNaN_lines hc,
    hsymm untangled_lines.toScopesApart ⟨3⟩ (by simp) ⟨7⟩ (by simp), hfirst, hsecond,
    htrans untangled_lines ⟨3⟩ (by simp) ⟨7⟩ (by simp) ⟨11⟩ (by simp) hfirst hsecond⟩

/-- Equality is no equivalence where scopes are not apart. The first value reads an alias from outside that
is the source of the last one: its reading is taken for the reading of the source, in one direction. -/
theorem sameNodes_one_way : lines.Assembled ∧ lines.Acyclic ∧ (∀ r, (lines.request r).sources.Nodup) ∧
    (∀ c v, lines.node c = .const v → v.holdsNaN = false) ∧
    lines.sameNodes ⟨3⟩ ⟨15⟩ = true ∧ lines.sameNodes ⟨15⟩ ⟨3⟩ = false :=
  ⟨assembled_lines, acyclic_lines, nodup_lines, fun _ _ => holdsNaN_lines, by decide +kernel,
    by decide +kernel⟩

end Graph

end EntityQuery.Sql
