import EntityQuery.Proofs.Copying.Mentions
import EntityQuery.Proofs.Copying.Result

/-!
Values in which one alias takes the place of another one.

* A copy that equals its original replaces nothing that is named in it: `Copied.eq_of_sameNodes`.
* `mentions_redirect`: what a redirected value mentions, and what it does not mention any more.
* `sameNodes_redirect`: putting the old alias back gives an equal value.

A table that a request writes without ranging over it is not copied. If it is derived, the aliases in it
stay, so that both theorems ask what such tables cover.
-/

namespace EntityQuery.Sql

/-! ### Copies that equal their originals -/

section Compared

variable {s : Swap} {g h : Graph} {n m : NodeId} {above : List (RequestId × RequestId)} {x y : Part}
  {a b : AliasId}

/-- A copied request is another request. -/
lemma Copied.request_ne {first : Nat} {ren : Renames} {r q : RequestId}
    (hrq : Copied s g h first ren (.request r) (.request q)) (hr : r.index < first) : q ≠ r := by
  rintro rfl
  cases hrq with
  | request hfirst _ _ _ _ _ _ _ _ _ => omega

/-- Sources of a copied request are matched in addition to others. -/
lemma Copied.size_le_of_mem_pairs {first : Nat} {ren : Renames} {r q : RequestId}
    (hrq : Copied s g h first ren (.request r) (.request q)) {pairs ps : Pairs}
    (hpairs : ∀ p ∈ pairs, g.aliases.size ≤ p.1.index)
    (hps : ∀ p ∈ ps, p ∈ (h.request q).sources.zip (h.request r).sources) :
    ∀ p ∈ ps.reverse ++ pairs, g.aliases.size ≤ p.1.index := by
  intro p hp
  rcases List.mem_append.1 hp with hp | hp
  · exact hrq.size_le_of_mem_sources (List.of_mem_zip (hps p (List.mem_reverse.1 hp))).1
  · exact hpairs p hp

/-- Where a copy equals its original, parts that face each other are equal under matched sources of the
copy. A request and its copy are different, so that the comparison looks into both. -/
lemma Copied.sameParts_of_facing (hg : g.Closed) (hgh : g.Intact h) (hn : (Part.node n).Inside g)
    (hnm : Copied s g h g.requests.size {} (.node n) (.node m)) (hsame : h.sameNodes m n = true)
    (hxy : Facing g h n m above x y) :
    ∃ fuel pairs, h.sameParts fuel pairs y x = some true ∧ ∀ p ∈ pairs, g.aliases.size ≤ p.1.index := by
  induction hxy with
  | root =>
    refine ⟨h.comparisonDepth, [], ?_, by simp⟩
    change h.sameWithin h.comparisonDepth [] m n = some true
    unfold Graph.sameNodes at hsame
    cases hcompare : h.sameWithin h.comparisonDepth [] m n with
    | none =>
      rw [hcompare] at hsame
      cases hsame
    | some equal =>
      rw [hcompare] at hsame
      exact congrArg some hsame
  | @child above x y c d hxy hcd ih =>
    obtain ⟨fuel, pairs, hequal, hpairs⟩ := ih
    obtain ⟨first', ren, -, -, hwithin, -, hcopied⟩ := hnm.of_facing hxy
    have hx := hgh.node (hg.inside_of_within hn hwithin)
    cases hcopied with
    | node hsub _ hlike _ _ =>
      obtain ⟨-, fuel, hchildren⟩ := Graph.of_sameWithin hequal (hlike.ne_sub hsub)
      rw [hx] at hchildren
      exact ⟨fuel, pairs, hchildren d c (mem_zip_swap hcd), hpairs⟩
    | sub hr _ _ _ =>
      rw [hr] at hcd
      cases hcd
  | @sub above x y r q hxy hr hq ih =>
    obtain ⟨fuel, pairs, hequal, hpairs⟩ := ih
    obtain ⟨first', ren, -, -, hwithin, -, -⟩ := hnm.of_facing hxy
    have hx := hgh.node (hg.inside_of_within hn hwithin)
    obtain ⟨fuel, hrequests⟩ := Graph.of_sameWithin_sub hequal hq (hx.trans hr)
    exact ⟨fuel, pairs, hrequests, hpairs⟩
  | @clause above r q c d hrq hcd ih =>
    obtain ⟨fuel, pairs, hequal, hpairs⟩ := ih
    obtain ⟨first', ren, hfirst, -, hwithin, -, hcopied⟩ := hnm.of_facing hrq
    have hr := hg.inside_of_within hn hwithin
    obtain ⟨-, fuel, -, hclauses⟩ :=
      Graph.of_sameRequestsWithin hequal (hcopied.request_ne (lt_of_lt_of_le hr hfirst))
    refine ⟨fuel, _, hclauses d c ?_, hcopied.size_le_of_mem_pairs hpairs fun _ => id⟩
    rw [hgh.request r hr]
    exact mem_zip_swap hcd
  | @source above r q r' q' a b hrq hab hr' hq' ih =>
    obtain ⟨fuel, pairs, hequal, hpairs⟩ := ih
    obtain ⟨first', ren, hfirst, -, hwithin, -, hcopied⟩ := hnm.of_facing hrq
    have hr := hg.inside_of_within hn hwithin
    obtain ⟨-, fuel, hsources, -⟩ :=
      Graph.of_sameRequestsWithin hequal (hcopied.request_ne (lt_of_lt_of_le hr hfirst))
    have hrequest := hgh.request r hr
    have hba : (b, a) ∈ (h.request q).sources.zip (h.request r).sources := by
      rw [hrequest]
      exact mem_zip_swap hab
    obtain ⟨ps₁, ps₂, hps⟩ := List.append_of_mem hba
    have haliasOf := hgh.aliasOf a ((hg.request r).2 a (List.mem_append_left _ (List.of_mem_zip hab).1))
    refine ⟨fuel, _, hsources ps₁ b a ps₂ q' r' hps hq' (haliasOf ▸ hr'), ?_⟩
    refine hcopied.size_le_of_mem_pairs hpairs fun p hp => ?_
    rw [hps]
    exact List.mem_append_left _ hp

/-- **A copy that equals its original replaces nothing:** an alias that is named inside the value, and is no
source inside it, is replaced by itself. -/
theorem Copied.eq_of_sameNodes (hg : g.Closed) (hgh : g.Intact h) (hn : (Part.node n).Inside g)
    (hnm : Copied s g h g.requests.size {} (.node n) (.node m)) (hsame : h.sameNodes m n = true)
    (hx : g.Within (.node n) x) (hnames : x.Names g a)
    (hfree : ∀ r, g.Within (.node n) (.request r) → a ∉ (g.request r).sources)
    (hb : s.source a = some b) (hin : b.index < g.aliases.size) : a = b := by
  obtain ⟨above, y, -, hxy⟩ := hnm.exists_facing hx
  obtain ⟨fuel, pairs, hequal, hpairs⟩ := hnm.sameParts_of_facing hg hgh hn hsame hxy
  obtain ⟨first', ren, hfirst, -, -, hinner, hcopied⟩ := hnm.of_facing hxy
  have hinside := hg.inside_of_within hn hx
  have hfresh : ∀ {pairs : Pairs}, (∀ p ∈ pairs, g.aliases.size ≤ p.1.index) → pairs.agrees b a = true →
      a = b := by
    intro pairs hpairs hagrees
    refine (Graph.eq_of_agrees (fun p hp => ?_) hagrees).symm
    rintro rfl
    exact (hpairs p hp).not_gt hin
  have hrq := hcopied
  cases hcopied with
  | node hsub _ hlike _ _ =>
    obtain ⟨c, hc, hread⟩ := hlike.source? hnames
    rw [Swap.read, hb] at hread
    cases hread
    obtain ⟨hhead, -⟩ := Graph.of_sameWithin hequal (hlike.ne_sub hsub)
    rw [hgh.node hinside] at hhead
    exact hfresh hpairs (Graph.agrees_of_sameHead hhead hc hnames)
  | sub hn _ _ _ =>
    rw [Part.Names, hn] at hnames
    cases hnames
  | @request _ _ r q ps _ _ hsources _ hlike _ _ _ _ _ =>
    have hown : (ren.own r q ps).Inner g (.node n) := hinner.own hx fun a ha => hsources ▸ ha
    have hnone : (ren.own r q ps).alias? a = none := by
      refine Option.eq_none_iff_forall_ne_some.2 fun c hc => ?_
      obtain ⟨r', hr', hmem⟩ := hown a c hc
      exact hfree r' hr' hmem
    have htarget : a ∈ (g.request r).target.toList :=
      (List.mem_append.1 hnames).resolve_left (hfree r hx)
    obtain ⟨c, hc, hrefer⟩ := exists_of_mem_right hlike.target.flip htarget
    rw [Swap.refer, hnone, hb] at hrefer
    cases hrefer
    have hne := hrq.request_ne (lt_of_lt_of_le hinside hfirst)
    obtain ⟨hsame, -⟩ := Graph.of_sameRequestsWithin hequal hne
    rw [hgh.request r hinside, Option.mem_toList.1 hc, Option.mem_toList.1 htarget] at hsame
    refine hfresh (hrq.size_le_of_mem_pairs hpairs fun _ hp => ?_) hsame
    rw [hgh.request r hinside]
    exact hp

end Compared

/-! ### One alias replaced -/

/-- What `Build.redirect` replaces: one alias by another one. -/
def Swap.single (a b : AliasId) : Swap where
  source c := if c = a then some b else none

namespace Swap

variable {a b c d : AliasId}

lemma source_single (a b c : AliasId) : (single a b).source c = if c = a then some b else none := rfl

lemma source_single_eq_some : (single a b).source c = some d ↔ c = a ∧ d = b := by
  rw [source_single]
  split <;> simp_all [eq_comm]

lemma source_single_eq_none : (single a b).source c = none ↔ c ≠ a := by
  rw [source_single]
  split <;> simp_all

lemma inside_single {g : Graph} (hb : b.index < g.aliases.size) : (single a b).Inside g := by
  intro c d hcd
  obtain ⟨-, rfl⟩ := source_single_eq_some.1 hcd
  exact hb

lemma refer_single (a b c : AliasId) : (single a b).refer {} c = if c = a then b else c := by
  change ((single a b).source c).getD c = _
  rw [source_single]
  split <;> rfl

end Swap

/-! ### What occurs after a replacement -/

/-- What occurs when `b` has taken the place of `a`. The new alias occurs where one of them did, at least
where neither is renamed. -/
structure Redirected (apart : Prop) (a b : AliasId) (p p' : AliasId → Prop) : Prop where
  gone : ¬ p' a
  came : p' b → p a ∨ p b
  went : apart → p a ∨ p b → p' b

namespace Redirected

variable {apart : Prop} {a b : AliasId} {p p' q q' : AliasId → Prop}

lemma congr (h : Redirected apart a b p p') (hq : ∀ c, q c ↔ p c) (hq' : ∀ c, q' c ↔ p' c) :
    Redirected apart a b q q' where
  gone := by
    rw [hq']
    exact h.gone
  came := by
    rw [hq', hq, hq]
    exact h.came
  went := by
    rw [hq', hq, hq]
    exact h.went

lemma or (hp : Redirected apart a b p p') (hq : Redirected apart a b q q') :
    Redirected apart a b (fun c => p c ∨ q c) fun c => p' c ∨ q' c where
  gone h := h.elim hp.gone hq.gone
  came := by
    rintro (h | h)
    · exact (hp.came h).imp .inl .inl
    · exact (hq.came h).imp .inr .inr
  went hapart := by
    rintro ((h | h) | (h | h))
    · exact .inl (hp.went hapart (.inl h))
    · exact .inr (hq.went hapart (.inl h))
    · exact .inl (hp.went hapart (.inr h))
    · exact .inr (hq.went hapart (.inr h))

lemma none (hp : ∀ c, ¬ p c) (hp' : ∀ c, ¬ p' c) : Redirected apart a b p p' where
  gone := hp' a
  came h := absurd h (hp' b)
  went _ h := absurd h (not_or.2 ⟨hp a, hp b⟩)

/-- What occurs in members of two lists that are matched one by one. -/
lemma exists_mem {α : Type} {xs ys : List α} {P P' : α → AliasId → Prop} (hlength : xs.length = ys.length)
    (h : ∀ x y, (x, y) ∈ xs.zip ys → Redirected apart a b (P x) (P' y)) :
    Redirected apart a b (fun c => ∃ x ∈ xs, P x c) fun c => ∃ y ∈ ys, P' y c where
  gone := by
    rintro ⟨y, hy, hP⟩
    obtain ⟨x, hxy⟩ := exists_mem_zip_right hlength hy
    exact (h x y hxy).gone hP
  came := by
    rintro ⟨y, hy, hP⟩
    obtain ⟨x, hxy⟩ := exists_mem_zip_right hlength hy
    have hx := (List.of_mem_zip hxy).1
    exact ((h x y hxy).came hP).imp (fun hP => ⟨x, hx, hP⟩) fun hP => ⟨x, hx, hP⟩
  went hapart hxs := by
    have hsome : ∃ x ∈ xs, P x a ∨ P x b := by
      rcases hxs with ⟨x, hx, hP⟩ | ⟨x, hx, hP⟩
      · exact ⟨x, hx, .inl hP⟩
      · exact ⟨x, hx, .inr hP⟩
    obtain ⟨x, hx, hP⟩ := hsome
    obtain ⟨y, hxy⟩ := exists_mem_zip_left hlength hx
    exact ⟨y, (List.of_mem_zip hxy).2, (h x y hxy).went hapart hP⟩

end Redirected

section Occurring

variable {g h : Graph} {a b : AliasId} {apart : Prop} {z : Part}

/-- What holds of a part and its copy, if `b` takes the place of `a` in it. -/
def Rereads (g h : Graph) (apart : Prop) (a b : AliasId) (x y : Part) : Prop :=
  Redirected apart a b (g.Occurs x) (h.Occurs y)

lemma Becomes.redirected_eq (ha : a.index < g.aliases.size) (hb : b.index < g.aliases.size) (hab : a ≠ b)
    (hapart : apart → ∀ r, g.Within z (.request r) → a ∉ (g.request r).sources ∧ b ∉ (g.request r).sources)
    {Φ : Part → Part → Prop} {t u : AliasId} (htu : Becomes (.single a b) g h Φ z t u) :
    Redirected apart a b (fun c => t = c) fun c => u = c := by
  cases htu with
  | replaced hu =>
    obtain ⟨rfl, rfl⟩ := Swap.source_single_eq_some.1 hu
    exact ⟨hab.symm, fun _ => .inl rfl, fun _ _ => rfl⟩
  | renewed hu =>
    obtain ⟨r, hr, ht⟩ := hu.source
    have hnew := hu.new
    refine ⟨?_, ?_, fun hsplit => ?_⟩
    · rintro rfl
      omega
    · rintro rfl
      omega
    · rintro (rfl | rfl)
      · exact absurd ht (hapart hsplit r hr).1
      · exact absurd ht (hapart hsplit r hr).2
  | kept ht =>
    have hne := Swap.source_single_eq_none.1 ht
    exact ⟨hne, .inr, fun _ h => h.resolve_left hne⟩

/-- An alias and what takes its place, with what occurs in the derived tables behind them. -/
lemma Becomes.redirected (hg : g.Closed) (hgh : g.Intact h) (ha : a.index < g.aliases.size)
    (hb : b.index < g.aliases.size) (hab : a ≠ b)
    (hapart : apart → ∀ r, g.Within z (.request r) → a ∉ (g.request r).sources ∧ b ∉ (g.request r).sources)
    {t u : AliasId} (ht : t.index < g.aliases.size)
    (htu : Becomes (.single a b) g h (Rereads g h apart a b) z t u)
    (hcovers : g.aliases.size ≤ u.index ∨ ¬ g.Covers (if t = a then b else t) a) :
    Redirected apart a b (fun c => t = c ∨ g.Covers t c) fun c => u = c ∨ h.Covers u c := by
  have heq := htu.redirected_eq ha hb hab hapart
  cases htu with
  | replaced hu =>
    obtain ⟨rfl, rfl⟩ := Swap.source_single_eq_some.1 hu
    rw [if_pos rfl] at hcovers
    have hnone : ¬ h.Covers u t := by
      rw [hgh.covers_iff hg hb]
      exact hcovers.resolve_left hb.not_ge
    exact ⟨not_or.2 ⟨heq.gone, hnone⟩, fun _ => .inl (.inl rfl), fun _ _ => .inl rfl⟩
  | renewed hu =>
    refine heq.or ?_
    have hinner : ∀ r q, (g.aliasOf t).origin = .request r → (h.aliasOf u).origin = .request q →
        Redirected apart a b (g.Occurs (.request r)) (h.Occurs (.request q)) := hu.inner
    refine ⟨?_, ?_, fun hsplit => ?_⟩
    · rintro ⟨q, hq, hoccurs⟩
      obtain ⟨r, hr⟩ := hu.like.symm.exists_request hq
      exact (hinner r q hr hq).gone hoccurs
    · rintro ⟨q, hq, hoccurs⟩
      obtain ⟨r, hr⟩ := hu.like.symm.exists_request hq
      exact ((hinner r q hr hq).came hoccurs).imp (fun h => ⟨r, hr, h⟩) fun h => ⟨r, hr, h⟩
    · rintro (⟨r, hr, hoccurs⟩ | ⟨r, hr, hoccurs⟩)
      · obtain ⟨q, hq⟩ := hu.like.exists_request hr
        exact ⟨q, hq, (hinner r q hr hq).went hsplit (.inl hoccurs)⟩
      · obtain ⟨q, hq⟩ := hu.like.exists_request hr
        exact ⟨q, hq, (hinner r q hr hq).went hsplit (.inr hoccurs)⟩
  | kept hkept =>
    rw [if_neg (Swap.source_single_eq_none.1 hkept)] at hcovers
    have hnone := hcovers.resolve_left ht.not_ge
    refine heq.or ⟨?_, ?_, fun _ => ?_⟩
    · rw [hgh.covers_iff hg ht]
      exact hnone
    · rw [hgh.covers_iff hg ht]
      exact .inr
    · rw [hgh.covers_iff hg ht]
      exact fun h => h.resolve_left hnone

/-- **A copy reads `b` in place of `a`**, if what it writes covers no `a`: aliases that are renamed hide what
is behind them only where it is copied as well. -/
theorem carried_rereads (hg : g.Closed) (hgh : g.Intact h) (ha : a.index < g.aliases.size)
    (hb : b.index < g.aliases.size) (hab : a ≠ b)
    (hapart : apart → ∀ r, g.Within z (.request r) → a ∉ (g.request r).sources ∧ b ∉ (g.request r).sources)
    (hwrites : ∀ t, g.Writes z t → ¬ g.Covers (if t = a then b else t) a) :
    Carried (.single a b) g h z (Rereads g h apart a b) where
  node n m hsub hlike hparts := by
    have hreads : Redirected apart a b (fun c => (g.node n).source? = some c)
        fun c => (h.node m).source? = some c := by
      refine ⟨fun hu => ?_, fun hu => ?_, fun hsplit ht => ?_⟩
      · obtain ⟨t, -, htu⟩ := hlike.symm.source? hu
        exact (Becomes.redirected_eq ha hb hab hapart htu).gone rfl
      · obtain ⟨t, ht, htu⟩ := hlike.symm.source? hu
        rcases (Becomes.redirected_eq ha hb hab hapart htu).came rfl with rfl | rfl
        · exact .inl ht
        · exact .inr ht
      · rcases ht with ht | ht <;> obtain ⟨u, hu, htu⟩ := hlike.source? ht
        · cases (Becomes.redirected_eq ha hb hab hapart htu).went hsplit (.inl rfl)
          exact hu
        · cases (Becomes.redirected_eq ha hb hab hapart htu).went hsplit (.inr rfl)
          exact hu
    have hchildren := Redirected.exists_mem hlike.length_children hparts
    have hnone : Redirected apart a b (fun c => ∃ r, g.node n = .sub r ∧ g.Occurs (.request r) c)
        fun c => ∃ q, h.node m = .sub q ∧ h.Occurs (.request q) c := by
      refine .none ?_ ?_
      · rintro c ⟨r, hr, -⟩
        exact hsub r hr
      · rintro c ⟨q, hq, -⟩
        exact hlike.ne_sub hsub q hq
    exact (hreads.or (hchildren.or hnone)).congr (fun _ => Graph.occurs_node_iff) fun _ =>
      Graph.occurs_node_iff
  sub n m r q hr hq hrq :=
    Redirected.congr hrq (fun _ => Graph.occurs_sub_iff hr) fun _ => Graph.occurs_sub_iff hq
  request r q hr hlike hparts := by
    have horigins := List.rel_append hlike.sources hlike.target
    have hbrings := Redirected.exists_mem horigins.length_eq fun t u htu => by
      obtain ⟨hbecomes, hnew⟩ := List.forall₂_zip horigins htu
      have ht := (List.of_mem_zip htu).1
      refine hbecomes.redirected hg hgh ha hb hab hapart ((hg.request r).2 t ht) ?_
      by_cases hsource : t ∈ (g.request r).sources
      · exact .inl (hnew hsource)
      · have htarget := (List.mem_append.1 ht).resolve_left hsource
        exact .inr (hwrites t ⟨r, hr, Option.mem_toList.1 htarget, hsource⟩)
    have hclauses := Redirected.exists_mem hlike.length_clauseNodes hparts
    exact (hbrings.or hclauses).congr (fun _ => Graph.occurs_request_iff) fun _ =>
      Graph.occurs_request_iff

/-- In a copy, too, all ways down through written tables end. -/
lemma carried_ends {s : Swap} (hg : g.Closed) (hgh : g.Intact h) (hs : s.Inside g)
    (hends : ∀ x, Ends g.Holds x) : Carried s g h z fun _ y => Ends h.Holds y where
  node n m hsub hlike hparts := by
    refine ⟨_, fun y hy => ?_⟩
    cases hy with
    | child hd =>
      obtain ⟨c, hcd⟩ := exists_mem_zip_right hlike.length_children hd
      exact hparts c _ hcd
    | sub hq => exact absurd hq (hlike.ne_sub hsub _)
  sub n m r q _ hq hrq := by
    refine ⟨_, fun y hy => ?_⟩
    cases hy with
    | child hd =>
      rw [hq] at hd
      cases hd
    | sub hq' =>
      cases hq.symm.trans hq'
      exact hrq
  request r q _ hlike hparts := by
    refine ⟨_, fun y hy => ?_⟩
    cases hy with
    | clause hd =>
      obtain ⟨c, hcd⟩ := exists_mem_zip_right hlike.length_clauseNodes hd
      exact hparts c _ hcd
    | @source _ q' u hu hq' =>
      obtain ⟨t, ht, hbecomes, -⟩ := exists_of_mem_right (List.rel_append hlike.sources hlike.target) hu
      have hold : u.index < g.aliases.size → Ends h.Holds (.request q') := by
        intro hlt
        rw [hgh.aliasOf u hlt] at hq'
        exact hgh.ends hg ((hg.source u).1 q' hq') (hends _)
      cases hbecomes with
      | replaced htu => exact hold (hs t u htu)
      | renewed htu =>
        obtain ⟨r', hr'⟩ := htu.like.symm.exists_request hq'
        exact htu.inner r' q' hr' hq'
      | kept _ => exact hold ((hg.request r).2 _ ht)

end Occurring

section Single

variable {g h : Graph} {n m : NodeId} {a b : AliasId}

/-- In a copy, constants are what they were, and all sources are new and different. -/
lemma Copied.tame (hn : ∀ z, g.Within (.node n) z → Tame (.single a b) g (· ≠ b) z)
    (hb : b.index < g.aliases.size) {first : Nat}
    (hnm : Copied (.single a b) g h first {} (.node n) (.node m)) {w : Part} (hw : h.Within (.node m) w) :
    Tame (.single b a) h (fun _ => True) w := by
  obtain ⟨above, z, hzw⟩ := hnm.exists_faced hw
  obtain ⟨first', ren, -, -, hz, -, hcopied⟩ := hnm.of_facing hzw
  have htame := hn z hz
  have hkept := hcopied
  cases hcopied with
  | node _ _ hlike _ _ =>
    refine ⟨fun v hv => ?_, fun _ _ => trivial⟩
    rw [hv] at hlike
    obtain ⟨u, hu, rfl⟩ := hlike.exists_const
    exact ⟨rfl, (htame.1 u hu).2⟩
  | sub _ _ hnode _ =>
    refine ⟨fun v hv => ?_, fun _ _ => trivial⟩
    rw [hnode] at hv
    cases hv
  | request _ _ _ _ _ _ _ _ _ _ =>
    refine ⟨hkept.nodup_sources htame.1, fun c hc => ?_, fun _ _ => trivial⟩
    rw [Swap.source_single_eq_none]
    rintro rfl
    exact (hkept.size_le_of_mem_sources hc).not_gt hb

end Single

namespace Graph

variable {g : Graph} {n : NodeId} {a b : AliasId}

/-- **A redirected value mentions the new alias where the value mentions the old one**, and not the old one
any more, if no table that is written in it covers the old alias. Everything that was there is as it was. -/
theorem mentions_redirect (hg : g.Assembled) (hacyclic : g.Acyclic) (hn : n.index < g.entries.size)
    (ha : a.index < g.aliases.size) (hb : b.index < g.aliases.size) (hab : a ≠ b) :
    ∃ m h, (Build.redirect n a b).run g = (some m, h) ∧ g.Intact h ∧
      ((∀ t, g.Writes (.node n) t → ¬ g.Covers (if t = a then b else t) a) →
        h.mentions m a = false ∧
        ((∀ r, g.Within (.node n) (.request r) → a ∉ (g.request r).sources ∧ b ∉ (g.request r).sources) →
          h.mentions m b = (g.mentions n a || g.mentions n b))) := by
  have hformed := hg.formed
  have hclosed := hformed.closed
  have hthere := Swap.inside_single (a := a) hb
  have hends := hacyclic.ends hformed.ordered
  have hways := hacyclic.layered.ends hformed.ordered hclosed (.node n)
  obtain ⟨m, h, hrun⟩ := exists_copy hclosed hways hn (.single a b)
  obtain ⟨hextended, hm⟩ := newCopy_copy hformed hthere hn hrun
  have hgh := hextended.intact
  refine ⟨m, h, hrun, hgh, fun hwrites => ?_⟩
  have hends' : Ends h.Holds (.node m) :=
    hm.copied.carry (carried_ends hclosed hgh hthere hends) .refl (.empty g h _ _)
  have hrereads : Rereads g h (∀ r, g.Within (.node n) (.request r) →
      a ∉ (g.request r).sources ∧ b ∉ (g.request r).sources) a b (.node n) (.node m) :=
    hm.copied.carry (carried_rereads hclosed hgh ha hb hab id hwrites) .refl (.empty g h _ _)
  have hbefore : ∀ c, g.mentions n c = true ↔ g.Occurs (.node n) c := fun c =>
    mentions_iff hclosed hn (hends _)
  have hafter : ∀ c, h.mentions m c = true ↔ h.Occurs (.node m) c := fun c =>
    mentions_iff hextended.formed.closed hm.inside hends'
  refine ⟨?_, fun hapart => ?_⟩
  · rw [Bool.eq_false_iff, Ne, hafter]
    exact hrereads.gone
  · rw [Bool.eq_iff_iff, Bool.or_eq_true, hafter, hbefore, hbefore]
    exact ⟨hrereads.came, hrereads.went hapart⟩

lemma sources_correlated {r : RequestId} {c : AliasId} (hc : c ∈ (correlated.request r).sources) :
    c = ⟨2⟩ := by
  rcases request_correlated r with rfl | hr
  · exact List.mem_singleton.1 hc
  · rw [hr] at hc
    cases hc

lemma not_writes_correlated (x : Part) (t : AliasId) : ¬ correlated.Writes x t := by
  rintro ⟨r, -, ht, -⟩
  rcases request_correlated r with rfl | hr
  · cases ht
  · rw [hr] at ht
    cases ht

theorem mentions_redirect_correlated : correlated.Assembled ∧ correlated.Acyclic ∧
    4 < correlated.entries.size ∧ 1 < correlated.aliases.size ∧
    ∃ m h, (Build.redirect ⟨4⟩ ⟨0⟩ ⟨1⟩).run correlated = (some m, h) ∧ correlated.Intact h ∧
      h.mentions m ⟨0⟩ = false ∧ h.mentions m ⟨1⟩ = true := by
  have hlt : 4 < correlated.entries.size := by decide
  obtain ⟨m, h, hrun, hintact, hmentions⟩ := mentions_redirect (n := ⟨4⟩) (a := ⟨0⟩) (b := ⟨1⟩)
    assembled_correlated acyclic_correlated hlt (by decide) (by decide) (by decide)
  obtain ⟨hold, hnew⟩ := hmentions fun t ht => absurd ht (not_writes_correlated _ t)
  have hapart : ∀ r, correlated.Within (.node ⟨4⟩) (.request r) →
      ⟨0⟩ ∉ (correlated.request r).sources ∧ ⟨1⟩ ∉ (correlated.request r).sources := fun r _ =>
    ⟨fun hmem => absurd (sources_correlated hmem) (by decide),
      fun hmem => absurd (sources_correlated hmem) (by decide)⟩
  have hbefore : correlated.mentions ⟨4⟩ ⟨0⟩ = true := by decide
  rw [hbefore, Bool.true_or] at hnew
  exact ⟨assembled_correlated, acyclic_correlated, hlt, by decide, m, h, hrun, hintact, hold, hnew hapart⟩

/-- The new alias can be that of a derived table that reads the old one. Where it is written, the old alias
is still found behind it. -/
theorem mentions_redirect_deleting : (deleting ⟨0⟩).Assembled ∧ (deleting ⟨0⟩).Acyclic ∧
    let there := (Build.redirect ⟨5⟩ ⟨0⟩ ⟨3⟩).run (deleting ⟨0⟩)
    there.1.map (fun m => there.2.mentions m ⟨0⟩) = some true :=
  ⟨assembled_deleting (by decide), acyclic_deleting (by decide), by decide⟩

/-- **Replacing an alias can be undone**, if the new alias does not occur in the value, and the old one is no
source inside it. A redirected value is the same value only if the old alias does not occur, as long as no
other table that is written in it covers the old alias. -/
theorem sameNodes_redirect (hg : g.Assembled) (hacyclic : g.Acyclic)
    (hdistinct : ∀ r, (g.request r).sources.Nodup) (hn : n.index < g.entries.size)
    (ha : a.index < g.aliases.size) (hb : b.index < g.aliases.size) (hab : a ≠ b)
    (hnan : ∀ c v, g.Within (.node n) (.node c) → g.node c = .const v → v.holdsNaN = false)
    (hnone : g.mentions n b = false)
    (hfree : ∀ r, g.Within (.node n) (.request r) → a ∉ (g.request r).sources) :
    ∃ m h m' h', (Build.redirect n a b).run g = (some m, h) ∧
      (Build.redirect m b a).run h = (some m', h') ∧
      h'.sameNodes m' n = true ∧ h'.sameNodes n m' = true ∧
      ((∀ t, g.Writes (.node n) t → t ≠ a → ¬ g.Covers t a) →
        h.sameNodes m n = true → g.mentions n a = false) := by
  have hformed := hg.formed
  have hclosed := hformed.closed
  have hends := hacyclic.ends hformed.ordered (.node n)
  have hways := hacyclic.layered.ends hformed.ordered hclosed (.node n)
  have hthere := Swap.inside_single (a := a) hb
  obtain ⟨m, h, hrun⟩ := exists_copy hclosed hways hn (.single a b)
  obtain ⟨hextended, hm⟩ := newCopy_copy hformed hthere hn hrun
  have hback := Swap.inside_single (a := b) (ha.trans_le hextended.grows.aliases)
  obtain ⟨m', h', hrun'⟩ :=
    exists_copy hextended.formed.closed (hm.copied.ends hways) hm.inside (.single b a)
  obtain ⟨hextended', hm'⟩ := newCopy_copy hextended.formed hback hm.inside hrun'
  have hnames : ∀ z, g.Within (.node n) z → ∀ c, z.Names g c → c ≠ b := by
    rintro z hz c hc rfl
    have hoccurs := (mentions_iff hclosed hn hends).2 (Occurs.of_within hz hc)
    exact Bool.false_ne_true (hnone.symm.trans hoccurs)
  have htame : ∀ z, g.Within (.node n) z → Tame (.single a b) g (· ≠ b) z := by
    intro z hz
    cases z with
    | node c => exact ⟨fun v hv => ⟨rfl, v.equals_self (hnan c v hz hv)⟩, hnames _ hz⟩
    | request r =>
      refine ⟨hdistinct r, fun c hc => Swap.source_single_eq_none.2 ?_, hnames _ hz⟩
      rintro rfl
      exact hfree r hz hc
  have hakin : Akin h' (fun c d => c = d) (.node n) (.node m') := by
    have hnm := (hm.copied.later (hextended'.intact.later _)).akin hformed hthere
      (hextended.intact.trans hextended'.intact) hn htame fun _ _ => rfl
    have hmm' := hm'.copied.akin hextended.formed hback hextended'.intact hm.inside
      (fun z hz => hm.copied.tame htame hb hz) fun _ _ => rfl
    refine (hnm.trans hmm').mono ?_
    rintro c e ⟨d, ⟨-, hcb, hcd⟩, -, -, hde⟩
    rw [Swap.refer_single] at hcd hde
    split at hcd
    · next hca => rw [← hde, ← hcd, if_pos rfl, hca]
    · rw [← hde, ← hcd, if_neg hcb]
  have hsymm : Akin h' (fun c d => c = d) (.node m') (.node n) := hakin.symm.mono fun _ _ => Eq.symm
  have hclosed' := hextended'.formed.closed
  have hgrows := hextended.grows.trans hextended'.grows
  refine ⟨m, h, m', h', hrun, hrun', hsymm.sameNodes hclosed' hm'.inside,
    hakin.sameNodes hclosed' (hn.trans_le hgrows.entries), fun hwrites hsame => ?_⟩
  rw [Bool.eq_false_iff, Ne, mentions_iff hclosed hn hends]
  intro hoccurs
  -- an equal copy replaces nothing, so that no part inside names the old alias
  have hunnamed : ∀ z, g.Within (.node n) z → ¬ z.Names g a := fun z hz hza =>
    hab (hm.copied.eq_of_sameNodes hclosed hextended.intact hn hsame hz hza hfree
      (Swap.source_single_eq_some.2 ⟨rfl, rfl⟩) hb)
  obtain ⟨z, hz, hza⟩ | ⟨t, ht, hta⟩ := hoccurs.within_or_written .refl
  · exact hunnamed z hz hza
  · refine hwrites t ht ?_ hta
    rintro rfl
    obtain ⟨r, hr, htarget, -⟩ := ht
    exact hunnamed _ hr (mem_origins_of_target htarget)

theorem sameNodes_redirect_correlated : correlated.Assembled ∧ correlated.Acyclic ∧
    (∀ r, (correlated.request r).sources.Nodup) ∧ correlated.mentions ⟨4⟩ ⟨1⟩ = false ∧
    ∃ m h m' h', (Build.redirect ⟨4⟩ ⟨0⟩ ⟨1⟩).run correlated = (some m, h) ∧
      (Build.redirect m ⟨1⟩ ⟨0⟩).run h = (some m', h') ∧ h'.sameNodes m' ⟨4⟩ = true ∧
      h.sameNodes m ⟨4⟩ = false := by
  have hnone : correlated.mentions ⟨4⟩ ⟨1⟩ = false := by decide
  obtain ⟨m, h, m', h', hthere, hback, hsame, -, honly⟩ :=
    sameNodes_redirect (n := ⟨4⟩) (a := ⟨0⟩) (b := ⟨1⟩) assembled_correlated acyclic_correlated
      nodup_correlated (by decide) (by decide) (by decide) (by decide)
      (fun _ _ _ hc => holdsNaN_correlated hc) hnone
      fun _ _ hmem => absurd (sources_correlated hmem) (by decide)
  have hread : correlated.mentions ⟨4⟩ ⟨0⟩ = true := by decide
  have hdiffers : h.sameNodes m ⟨4⟩ = false := by
    rw [Bool.eq_false_iff]
    intro hequal
    rw [honly (fun t ht => absurd ht (not_writes_correlated _ t)) hequal] at hread
    cases hread
  exact ⟨assembled_correlated, acyclic_correlated, nodup_correlated, hnone, m, h, m', h', hthere, hback,
    hsame, hdiffers⟩

lemma sources_deleting {t : AliasId} {r : RequestId} {c : AliasId}
    (hc : c ∈ ((deleting t).request r).sources) : c = ⟨2⟩ := by
  by_cases hlt : r.index < 2
  · obtain ⟨r⟩ := r
    interval_cases r
    · exact List.mem_singleton.1 hc
    · cases hc
  · rw [request_of_size_le (Nat.not_lt.1 hlt)] at hc
    cases hc

/-- The derived table that a request writes is not copied: a value that reads the old alias there equals its
copy. -/
theorem sameNodes_redirect_deleting : (deleting ⟨3⟩).Assembled ∧ (deleting ⟨3⟩).Acyclic ∧
    (∀ r, ((deleting ⟨3⟩).request r).sources.Nodup ∧ ⟨0⟩ ∉ ((deleting ⟨3⟩).request r).sources) ∧
    (∀ c v, (deleting ⟨3⟩).node c = .const v → v.holdsNaN = false) ∧
    let there := (Build.redirect ⟨5⟩ ⟨0⟩ ⟨1⟩).run (deleting ⟨3⟩)
    there.1.map (fun m => there.2.sameNodes m ⟨5⟩) = some true ∧
      (deleting ⟨3⟩).mentions ⟨5⟩ ⟨0⟩ = true ∧ (deleting ⟨3⟩).mentions ⟨5⟩ ⟨1⟩ = false := by
  refine ⟨assembled_deleting (by decide), acyclic_deleting (by decide), fun r => ⟨nodup_deleting _ r, ?_⟩,
    fun _ _ => holdsNaN_deleting _, by decide, by decide, by decide⟩
  intro hmem
  exact absurd (sources_deleting hmem) (by decide)

end Graph

end EntityQuery.Sql
