import EntityQuery.Proofs.Copying.Copied
import EntityQuery.Proofs.Copying.Carrying

/-!
Akin parts.

* `Bound E ps`: aliases that are matched by `ps`, or are not among the matched ones and related by `E`.
* `Akin g E x y`: two parts of a graph are the same up to the handles in them; aliases from outside are
  related by `E`, the sources of two requests are matched one by one. This is symmetric, and transitive
  along the composition of relations.
* A copy is akin to what it is a copy of, where nothing that is replaced is also a source:
  `Copied.akin`.
-/

namespace EntityQuery.Sql

/-! ### Matched aliases -/

/-- Aliases that are matched, or outside of the matched ones and related. -/
def Bound (E : AliasId → AliasId → Prop) (ps : List (AliasId × AliasId)) (a b : AliasId) : Prop :=
  (a, b) ∈ ps ∨ a ∉ ps.map Prod.fst ∧ b ∉ ps.map Prod.snd ∧ E a b

section Bound

variable {E F : AliasId → AliasId → Prop} {ps qs : List (AliasId × AliasId)} {a b c : AliasId}

lemma Bound.mono (h : Bound E ps a b) (hEF : ∀ a b, E a b → F a b) : Bound F ps a b :=
  h.imp_right fun ⟨ha, hb, hab⟩ => ⟨ha, hb, hEF a b hab⟩

lemma map_fst_swap (ps : List (AliasId × AliasId)) :
    (ps.map Prod.swap).map Prod.fst = ps.map Prod.snd := by
  rw [List.map_map]
  rfl

lemma map_snd_swap (ps : List (AliasId × AliasId)) :
    (ps.map Prod.swap).map Prod.snd = ps.map Prod.fst := by
  rw [List.map_map]
  rfl

lemma Bound.swap (h : Bound E ps a b) : Bound (Function.swap E) (ps.map Prod.swap) b a := by
  rcases h with hab | ⟨ha, hb, hab⟩
  · exact .inl (List.mem_map_of_mem (f := Prod.swap) hab)
  · refine .inr ⟨?_, ?_, hab⟩
    · rw [map_fst_swap]
      exact hb
    · rw [map_snd_swap]
      exact ha

/-- Matched pairs with a common middle. -/
def throughPairs (ps qs : List (AliasId × AliasId)) : List (AliasId × AliasId) :=
  (ps.map Prod.fst).zip (qs.map Prod.snd)

lemma map_fst_throughPairs (h : ps.map Prod.snd = qs.map Prod.fst) :
    (throughPairs ps qs).map Prod.fst = ps.map Prod.fst := by
  have hlength := congrArg List.length h
  rw [List.length_map, List.length_map] at hlength
  exact List.map_fst_zip (by simp [hlength])

lemma map_snd_throughPairs (h : ps.map Prod.snd = qs.map Prod.fst) :
    (throughPairs ps qs).map Prod.snd = qs.map Prod.snd := by
  have hlength := congrArg List.length h
  rw [List.length_map, List.length_map] at hlength
  exact List.map_snd_zip (by simp [hlength])

lemma throughPairs_cons (p q : AliasId × AliasId) (ps qs : List (AliasId × AliasId)) :
    throughPairs (p :: ps) (q :: qs) = (p.1, q.2) :: throughPairs ps qs := rfl

/-- Where the composed pairs are cut, both lists of pairs can be cut. -/
lemma throughPairs_split (h : ps.map Prod.snd = qs.map Prod.fst)
    {rs₁ rs₂ : List (AliasId × AliasId)} (hrs : throughPairs ps qs = rs₁ ++ (a, c) :: rs₂) :
    ∃ b ps₁ ps₂ qs₁ qs₂, ps = ps₁ ++ (a, b) :: ps₂ ∧ qs = qs₁ ++ (b, c) :: qs₂ ∧
      ps₁.map Prod.snd = qs₁.map Prod.fst ∧ throughPairs ps₁ qs₁ = rs₁ := by
  induction rs₁ generalizing ps qs with
  | nil =>
    cases ps with
    | nil => cases hrs
    | cons p ps =>
      cases qs with
      | nil => cases hrs
      | cons q qs =>
        rw [throughPairs_cons, List.nil_append] at hrs
        obtain ⟨hac, -⟩ := List.cons.inj hrs
        obtain ⟨hb, -⟩ := List.cons.inj h
        cases hac
        exact ⟨p.2, [], ps, [], qs, rfl, by rw [hb]; rfl, rfl, rfl⟩
  | cons r rs₁ ih =>
    cases ps with
    | nil => cases hrs
    | cons p ps =>
      cases qs with
      | nil => cases hrs
      | cons q qs =>
        rw [throughPairs_cons, List.cons_append] at hrs
        obtain ⟨hr, hrs⟩ := List.cons.inj hrs
        obtain ⟨hpq, h⟩ := List.cons.inj h
        obtain ⟨b, ps₁, ps₂, qs₁, qs₂, rfl, rfl, hmiddle, hrs₁⟩ := ih h hrs
        refine ⟨b, p :: ps₁, ps₂, q :: qs₁, qs₂, rfl, rfl, ?_, ?_⟩
        · rw [List.map_cons, List.map_cons, hpq, hmiddle]
        · rw [throughPairs_cons, hr, hrs₁]

lemma mem_throughPairs (h : ps.map Prod.snd = qs.map Prod.fst) (hnodup : (ps.map Prod.snd).Nodup)
    (hab : (a, b) ∈ ps) (hbc : (b, c) ∈ qs) : (a, c) ∈ throughPairs ps qs := by
  induction ps generalizing qs with
  | nil => cases hab
  | cons p ps ih =>
    cases qs with
    | nil => cases hbc
    | cons q qs =>
      obtain ⟨hpq, hrest⟩ := List.cons.inj h
      obtain ⟨hp, hdistinct⟩ := List.nodup_cons.1 hnodup
      rw [throughPairs_cons]
      rcases List.mem_cons.1 hab with hab | hab <;> rcases List.mem_cons.1 hbc with hbc | hbc
      · rw [← hab, ← hbc]
        exact List.mem_cons_self
      · rw [← hab, hrest] at hp
        exact absurd (List.mem_map_of_mem (f := Prod.fst) hbc) hp
      · rw [hpq, ← hbc] at hp
        exact absurd (List.mem_map_of_mem (f := Prod.snd) hab) hp
      · exact List.mem_cons_of_mem _ (ih hrest hdistinct hab hbc)

lemma Bound.comp (h : ps.map Prod.snd = qs.map Prod.fst) (hnodup : (ps.map Prod.snd).Nodup)
    (hab : Bound E ps a b) (hbc : Bound F qs b c) :
    Bound (Relation.Comp E F) (throughPairs ps qs) a c := by
  rcases hab with hab | ⟨ha, hb, hab⟩ <;> rcases hbc with hbc | ⟨hb', hc, hbc⟩
  · exact .inl (mem_throughPairs h hnodup hab hbc)
  · exact absurd (h ▸ List.mem_map_of_mem (f := Prod.snd) hab) hb'
  · exact absurd (h ▸ List.mem_map_of_mem (f := Prod.fst) hbc) hb
  · refine .inr ⟨?_, ?_, b, hab, hbc⟩
    · rw [map_fst_throughPairs h]
      exact ha
    · rw [map_snd_throughPairs h]
      exact hc

end Bound

/-! ### Akin parts -/

/-- A constant that equals itself. -/
def SameConst (v w : Value) : Prop := v = w ∧ v.equals v = true

/-- Parts of a graph that are the same up to the handles in them. -/
inductive Akin (g : Graph) : (AliasId → AliasId → Prop) → Part → Part → Prop
  | node {E : AliasId → AliasId → Prop} {m n : NodeId} (hm : ∀ r, g.node m ≠ .sub r)
      (hlike : (g.node m).Like E SameConst (g.node n))
      (hparts : ∀ c d, (c, d) ∈ (g.node m).children.zip (g.node n).children →
        Akin g E (.node c) (.node d)) : Akin g E (.node m) (.node n)
  | sub {E : AliasId → AliasId → Prop} {m n : NodeId} {r s : RequestId} (hm : g.node m = .sub r)
      (hn : g.node n = .sub s) (hpart : Akin g E (.request r) (.request s)) :
      Akin g E (.node m) (.node n)
  | request {E : AliasId → AliasId → Prop} {r s : RequestId} (ps : List (AliasId × AliasId))
      (hfst : ps.map Prod.fst = (g.request r).sources) (hsnd : ps.map Prod.snd = (g.request s).sources)
      (hr : (g.request r).sources.Nodup) (hs : (g.request s).sources.Nodup)
      (hlike : (g.request r).Like (Bound E ps) (g.request s))
      (horigin : ∀ a b, (a, b) ∈ ps → (g.aliasOf a).origin.Like (g.aliasOf b).origin)
      (hinner : ∀ ps₁ a b ps₂ r' s', ps = ps₁ ++ (a, b) :: ps₂ → (g.aliasOf a).origin = .request r' →
        (g.aliasOf b).origin = .request s' → Akin g (Bound E ps₁) (.request r') (.request s'))
      (hparts : ∀ c d, (c, d) ∈ (g.request r).clauseNodes.zip (g.request s).clauseNodes →
        Akin g (Bound E ps) (.node c) (.node d)) : Akin g E (.request r) (.request s)

namespace Akin

variable {g : Graph} {E F : AliasId → AliasId → Prop} {x y z : Part}

lemma mono (h : Akin g E x y) (hEF : ∀ a b, E a b → F a b) : Akin g F x y := by
  induction h generalizing F with
  | node hm hlike _ ih =>
    exact .node hm (hlike.mono (fun a b _ => hEF a b) fun _ _ _ h => h) fun c d hcd => ih c d hcd hEF
  | sub hm hn _ ih => exact .sub hm hn (ih hEF)
  | request ps hfst hsnd hr hs hlike horigin _ _ ihinner ihparts =>
    refine .request ps hfst hsnd hr hs ?_ horigin ?_ ?_
    · exact hlike.mono fun a _ b _ hab => hab.mono hEF
    · exact fun ps₁ a b ps₂ r' s' hps hr' hs' =>
        ihinner ps₁ a b ps₂ r' s' hps hr' hs' fun a b hab => hab.mono hEF
    · exact fun c d hcd => ihparts c d hcd fun a b hab => hab.mono hEF

theorem symm (h : Akin g E x y) : Akin g (Function.swap E) y x := by
  induction h with
  | @node E m n hm hlike _ ih =>
    refine .node (hlike.ne_sub hm) (hlike.symm.mono (fun _ _ _ h => h) ?_) fun d c hdc =>
      ih c d (mem_zip_swap hdc)
    rintro v w - ⟨rfl, hv⟩
    exact ⟨rfl, hv⟩
  | sub hm hn _ ih => exact .sub hn hm ih
  | @request E r s ps hfst hsnd hr hs hlike horigin _ _ ihinner ihparts =>
    have hswap : ∀ a b, Bound E ps a b → Bound (Function.swap E) (ps.map Prod.swap) b a :=
      fun a b hab => hab.swap
    refine .request (ps.map Prod.swap) ?_ ?_ hs hr ?_ ?_ ?_ ?_
    · rw [map_fst_swap, hsnd]
    · rw [map_snd_swap, hfst]
    · exact hlike.symm.mono fun b _ a _ hab => hswap a b hab
    · intro b a hba
      obtain ⟨p, hp, hswapped⟩ := List.mem_map.1 hba
      cases hswapped
      exact (horigin _ _ hp).symm
    · intro qs₁ b a qs₂ s' r' hqs hs' hr'
      have hps : ps = qs₁.map Prod.swap ++ (a, b) :: qs₂.map Prod.swap := by
        have hback := congrArg (List.map Prod.swap) hqs
        simpa [List.map_map] using hback
      refine (ihinner _ a b _ r' s' hps hr' hs').mono fun d c hdc => ?_
      have hback := Bound.swap hdc
      simpa [List.map_map] using hback
    · intro d c hdc
      exact (ihparts c d (mem_zip_swap hdc)).mono fun b a hab => hswap a b hab

theorem trans (hxy : Akin g E x y) (hyz : Akin g F y z) : Akin g (Relation.Comp E F) x z := by
  have hconst : ∀ v w, Relation.Comp SameConst SameConst v w → SameConst v w := by
    rintro v w ⟨u, ⟨rfl, hv⟩, hvw⟩
    exact hvw
  induction hxy generalizing F z with
  | @node E m n hm hlike _ ih =>
    cases hyz with
    | @node _ _ l hn hlike' hparts' =>
      refine .node hm ((hlike.trans hlike').mono (fun _ _ _ h => h) fun v w _ => hconst v w)
        fun c e hce => ?_
      obtain ⟨d, hcd, hde⟩ := exists_mem_zip hlike.length_children hlike'.length_children hce
      exact ih c d hcd (hparts' d e hde)
    | sub hn hl hpart => exact absurd hn (hlike.ne_sub hm _)
  | sub hm hn _ ih =>
    cases hyz with
    | node hn' _ _ => exact absurd hn (hn' _)
    | sub hn' hl hpart =>
      cases hn.symm.trans hn'
      exact .sub hm hl (ih hpart)
  | @request E r s ps hfst hsnd hr hs hlike horigin _ _ ihinner ihparts =>
    cases hyz with
    | @request _ _ t qs hfst' hsnd' hs' ht hlike' horigin' hinner' hparts' =>
      have hmiddle : ps.map Prod.snd = qs.map Prod.fst := hsnd.trans hfst'.symm
      have hnodup : (ps.map Prod.snd).Nodup := by
        rw [hsnd]
        exact hs
      have hcomp : ∀ a c, Relation.Comp (Bound E ps) (Bound F qs) a c →
          Bound (Relation.Comp E F) (throughPairs ps qs) a c := by
        rintro a c ⟨b, hab, hbc⟩
        exact hab.comp hmiddle hnodup hbc
      refine .request (throughPairs ps qs) ?_ ?_ hr ht ?_ ?_ ?_ ?_
      · rw [map_fst_throughPairs hmiddle, hfst]
      · rw [map_snd_throughPairs hmiddle, hsnd']
      · exact (hlike.trans hlike').mono fun a _ c _ hac => hcomp a c hac
      · intro a c hac
        obtain ⟨rs₁, rs₂, hrs⟩ := List.append_of_mem hac
        obtain ⟨b, ps₁, ps₂, qs₁, qs₂, rfl, rfl, -, -⟩ := throughPairs_split hmiddle hrs
        exact (horigin a b (by simp)).trans (horigin' b c (by simp))
      · intro rs₁ a c rs₂ r' t' hrs hr' ht'
        obtain ⟨b, ps₁, ps₂, qs₁, qs₂, hps, hqs, hmiddle₁, rfl⟩ := throughPairs_split hmiddle hrs
        obtain ⟨s', hs'⟩ := (horigin a b (by simp [hps])).exists_request hr'
        refine (ihinner ps₁ a b ps₂ r' s' hps hr' hs' (hinner' qs₁ b c qs₂ s' t' hqs hs' ht')).mono ?_
        rintro d e ⟨f, hdf, hfe⟩
        refine hdf.comp hmiddle₁ ?_ hfe
        rw [hps, List.map_append] at hnodup
        exact hnodup.of_append_left
      · intro c e hce
        obtain ⟨d, hcd, hde⟩ :=
          exists_mem_zip hlike.length_clauseNodes hlike'.length_clauseNodes hce
        refine (ihparts c d hcd (hparts' d e hde)).mono ?_
        exact hcomp

/-- A part that is akin to something does not contain itself. -/
theorem ends (h : Akin g E x y) : Ends g.Carries x := by
  induction h with
  | node hm hlike _ ih =>
    refine ⟨_, fun z hz => ?_⟩
    cases hz with
    | child hc =>
      obtain ⟨d, hcd⟩ := exists_mem_zip_left hlike.length_children hc
      exact ih _ d hcd
    | sub hr => exact absurd hr (hm _)
  | sub hm hn _ ih =>
    refine ⟨_, fun z hz => ?_⟩
    cases hz with
    | child hc =>
      rw [hm] at hc
      cases hc
    | sub hr =>
      cases hm.symm.trans hr
      exact ih
  | @request E r s ps hfst hsnd hr hs hlike horigin _ _ ihinner ihparts =>
    refine ⟨_, fun z hz => ?_⟩
    cases hz with
    | clause hc =>
      obtain ⟨d, hcd⟩ := exists_mem_zip_left hlike.length_clauseNodes hc
      exact ihparts _ d hcd
    | source ha hr' =>
      rw [← hfst] at ha
      obtain ⟨⟨a, b⟩, hab, rfl⟩ := List.mem_map.1 ha
      obtain ⟨ps₁, ps₂, hps⟩ := List.append_of_mem hab
      obtain ⟨s', hs'⟩ := (horigin a b hab).exists_request hr'
      exact ihinner ps₁ a b ps₂ _ s' hps hr' hs'

end Akin

/-! ### Copies are akin -/

/-- Nothing that a copy replaces is a source, all sources are different, and every alias that is read or
written has the property `P`. -/
def Tame (s : Swap) (g : Graph) (P : AliasId → Prop) : Part → Prop
  | .node n => (∀ v, g.node n = .const v → s.value v = v ∧ v.equals v = true) ∧
      ∀ a, (g.node n).source? = some a → P a
  | .request r => (g.request r).sources.Nodup ∧ (∀ a ∈ (g.request r).sources, s.source a = none) ∧
      ∀ a ∈ (g.request r).origins, P a

/-- The alias that an alias with the property `P` becomes. -/
def Meets (s : Swap) (g : Graph) (P : AliasId → Prop) (ren : Renames) (a b : AliasId) : Prop :=
  a.index < g.aliases.size ∧ P a ∧ s.refer ren a = b

section Copies

variable {s : Swap} {g h : Graph} {P : AliasId → Prop} {ren : Renames} {r q : RequestId}
  {ps : List (AliasId × AliasId)} {a b : AliasId}

/-- Inside a copied request, its sources are matched with their copies; other aliases are what they are
outside. -/
lemma Meets.bound (hs : s.Inside g) (hps : ren.Fresh g h ps)
    (hab : Meets s g P (ren.own r q ps) a b) : Bound (Meets s g P ren) ps a b := by
  obtain ⟨ha, hP, hrefer⟩ := hab
  by_cases hmem : a ∈ ps.map Prod.fst
  · rw [← hrefer]
    exact .inl (refer_own_mem s ren r q hmem)
  rw [refer_own_of_not_mem hmem] at hrefer
  refine .inr ⟨hmem, fun hb => ?_, ha, hP, hrefer⟩
  obtain ⟨p, hp, rfl⟩ := List.mem_map.1 hb
  have hnew := hps.new p hp
  unfold Swap.refer at hrefer
  cases hc : ren.alias? a with
  | some c =>
    rw [hc] at hrefer
    exact hps.apart p hp a (hc.trans (congrArg some hrefer))
  | none =>
    cases hd : s.source a with
    | some d =>
      rw [hc, hd] at hrefer
      have hlt := hs a d hd
      rw [show d = p.2 from hrefer] at hlt
      omega
    | none =>
      rw [hc, hd] at hrefer
      rw [show a = p.2 from hrefer] at ha
      omega

/-- An alias that is replaced is no copied source, so that all readings of it agree. -/
def Swap.Free (s : Swap) (ren : Renames) : Prop := ∀ a, s.source a ≠ none → ren.alias? a = none

lemma Swap.Free.read_eq (h : s.Free ren) (a : AliasId) : s.read ren a = s.refer ren a := by
  unfold Swap.read Swap.refer
  cases hb : s.source a with
  | none => cases ren.alias? a <;> rfl
  | some b =>
    rw [h a (by simp [hb])]
    rfl

lemma Swap.Free.own (h : s.Free ren) (hps : ∀ p ∈ ps, s.source p.1 = none) :
    s.Free (ren.own r q ps) := by
  intro a ha
  rw [alias?_own_of_not_mem]
  · exact h a ha
  · intro hmem
    obtain ⟨p, hp, rfl⟩ := List.mem_map.1 hmem
    exact ha (hps p hp)

lemma Renames.Fresh.initial {ps₁ ps₂ : List (AliasId × AliasId)} (h : ren.Fresh g k (ps₁ ++ ps₂)) :
    ren.Fresh g k ps₁ where
  new p hp := h.new p (List.mem_append_left _ hp)
  inside p hp := h.inside p (List.mem_append_left _ hp)
  apart p hp := h.apart p (List.mem_append_left _ hp)
  nodup := by
    have hall := h.nodup
    rw [List.map_append] at hall
    exact hall.of_append_left

/-- **A copy is akin to what it is a copy of.** -/
theorem Copied.akin (hg : g.Formed) (hs : s.Inside g) (hgh : g.Intact h) {first : Nat} {x y : Part}
    (hxy : Copied s g h first ren x y) (hx : x.Inside g) (htame : ∀ z, g.Within x z → Tame s g P z)
    (hfree : s.Free ren) : Akin h (Meets s g P ren) x y := by
  induction hxy with
  | @node first ren n m hsub hm hlike hlink _ ih =>
    have hnode := hgh.node hx
    obtain ⟨hconst, hsource⟩ := htame _ .refl
    refine .node ?_ ?_ ?_
    · rw [hnode]
      exact hsub
    · rw [hnode]
      refine hlike.mono (fun a b ha hab => ⟨(hg.node n).1 a ha, hsource a ha, ?_⟩) fun v w hv hvw => ?_
      · rw [← hfree.read_eq]
        exact hab
      · obtain ⟨hvalue, hequals⟩ := hconst v hv
        exact ⟨hvalue.symm.trans hvw, hequals⟩
    · rw [hnode]
      intro c d hcd
      have hc : g.Carries (.node n) (.node c) := .child (List.of_mem_zip hcd).1
      exact ih c d hcd (hg.closed.inside_of_carries hc) (fun z hz => htame z (.head hc hz)) hfree
  | @sub first ren n m r q hn hm hnode _ ih =>
    have hr : g.Carries (.node n) (.request r) := .sub hn
    refine .sub ((hgh.node hx).trans hn) hnode ?_
    exact ih (hg.closed.inside_of_carries hr) (fun z hz => htame z (.head hr hz)) hfree
  | @request first ren r q ps hfirst hq hsources hfresh hlike hparent hlink horigin _ _ ihinner ihparts =>
    obtain ⟨hnodup, hnone, hP⟩ := htame _ .refl
    have hrequest := hgh.request r hx
    have haliasOf : ∀ a b, (a, b) ∈ ps → h.aliasOf a = g.aliasOf a := by
      intro a b hab
      refine hgh.aliasOf a ((hg.request r).inside.2 a (List.mem_append_left _ ?_))
      rw [← hsources]
      exact List.mem_map_of_mem (f := Prod.fst) hab
    have hfst : (ps.map Prod.fst).Nodup := by
      rw [hsources]
      exact hnodup
    have hsnd : ps.map Prod.snd = (h.request q).sources := by
      refine map_snd_of_refer s ren r q hfst ?_
      rw [hsources]
      exact hlike.sources
    have hbound : ∀ a b, Meets s g P (ren.own r q ps) a b → Bound (Meets s g P ren) ps a b :=
      fun a b hab => hab.bound hs hfresh
    have hown : s.Free (ren.own r q ps) := hfree.own fun p hp => by
      refine hnone p.1 ?_
      rw [← hsources]
      exact List.mem_map_of_mem hp
    refine .request ps ?_ hsnd ?_ ?_ ?_ ?_ ?_ ?_
    · rw [hrequest, hsources]
    · rw [hrequest]
      exact hnodup
    · rw [← hsnd]
      exact hfresh.nodup
    · rw [hrequest]
      refine hlike.mono fun a ha b _ hab => hbound a b ⟨?_, hP a ha, hab⟩
      exact (hg.request r).inside.2 a ha
    · intro a b hab
      rw [haliasOf a b hab]
      exact horigin a b hab
    · intro ps₁ a b ps₂ r' q' hps hr' hq'
      subst hps
      have hmem : (a, b) ∈ ps₁ ++ (a, b) :: ps₂ := List.mem_append_right _ List.mem_cons_self
      rw [haliasOf a b hmem] at hr'
      have ha : a ∈ (g.request r).sources := by
        rw [← hsources]
        exact List.mem_map_of_mem (f := Prod.fst) hmem
      have hcarries : g.Carries (.request r) (.request r') := .source ha hr'
      refine (ihinner ps₁ a b ps₂ r' q' rfl hr' hq' (hg.closed.inside_of_carries hcarries)
        (fun z hz => htame z (.head hcarries hz)) ?_).mono fun c d hcd => hcd.bound hs hfresh.initial
      refine hfree.own fun p hp => hnone p.1 ?_
      rw [← hsources]
      exact List.mem_map_of_mem (List.mem_append_left _ hp)
    · rw [hrequest]
      intro c d hcd
      have hc : g.Carries (.request r) (.node c) := .clause (List.of_mem_zip hcd).1
      exact (ihparts c d hcd (hg.closed.inside_of_carries hc) (fun z hz => htame z (.head hc hz))
        hown).mono hbound

end Copies

end EntityQuery.Sql
