import EntityQuery.Proofs.Catalog.Validated
import EntityQuery.Proofs.Copying.Comparing

/-!
One step of a comparison.

* `Stands g x s bound y`: the part `y` stands in the slot `s` of `x`, in the scope of the aliases `bound`.
  `Cites g x bound a`: the part `x` itself names the alias `a`.
* `Kindred g x y`: the parts differ in aliases and in what stands in them only. This is an equivalence.
  Kindred parts have the same slots.
* `of_sameParts`, `Level.sameAt`: a comparison finds two parts equal exactly if they are one request, or if
  they are kindred, name matched aliases, and equal parts stand in their slots.
-/

namespace EntityQuery

section Lists

variable {α β : Type}

lemma allPairs_iff {r : α → α → Bool} {xs ys : List α} :
    allPairs r xs ys = true ↔ List.Forall₂ (fun x y => r x y = true) xs ys := by
  refine ⟨fun h => ?_, allPairs_of_forall₂⟩
  induction xs generalizing ys with
  | nil =>
    cases ys with
    | nil => exact .nil
    | cons y ys => cases h
  | cons x xs ih =>
    cases ys with
    | nil => cases h
    | cons y ys =>
      rw [allPairs, Bool.and_eq_true] at h
      exact .cons h.1 (ih h.2)

/-- Where two lists are zipped, an index cuts the pairs. -/
lemma exists_zip_split {xs : List α} {ys : List β} {i : Nat} {x : α} {y : β} (hx : xs[i]? = some x)
    (hy : ys[i]? = some y) : ∃ rest, xs.zip ys = (xs.take i).zip (ys.take i) ++ (x, y) :: rest := by
  obtain ⟨hi, rfl⟩ := List.getElem?_eq_some_iff.1 hx
  obtain ⟨hj, rfl⟩ := List.getElem?_eq_some_iff.1 hy
  have hlt : i < (xs.zip ys).length := by
    rw [List.length_zip]
    omega
  refine ⟨(xs.zip ys).drop (i + 1), ?_⟩
  calc xs.zip ys = (xs.zip ys).take i ++ (xs.zip ys).drop i := (List.take_append_drop i _).symm
    _ = (xs.take i).zip (ys.take i) ++ (xs[i], ys[i]) :: (xs.zip ys).drop (i + 1) := by
      rw [List.drop_eq_getElem_cons hlt, List.getElem_zip, List.zip, List.take_zipWith, ← List.zip]

lemma of_zip_split {xs : List α} {ys : List β} {ps qs : List (α × β)} {x : α} {y : β}
    (h : xs.zip ys = ps ++ (x, y) :: qs) : xs[ps.length]? = some x ∧ ys[ps.length]? = some y ∧
      ps = (xs.take ps.length).zip (ys.take ps.length) := by
  have hlt : ps.length < (xs.zip ys).length := by simp [h]
  have hat : (xs.zip ys)[ps.length] = (x, y) := by simp [h]
  rw [List.getElem_zip, Prod.mk.injEq] at hat
  rw [List.length_zip] at hlt
  refine ⟨?_, ?_, ?_⟩
  · rw [List.getElem?_eq_getElem (by omega), hat.1]
  · rw [List.getElem?_eq_getElem (by omega), hat.2]
  · rw [List.zip, ← List.take_zipWith, ← List.zip, h, List.take_left]

end Lists

namespace Sql

/-! ### Slots -/

/-- A place in a part where another one stands. -/
inductive Slot where
  | child (i : Nat)
  | query
  | clause (i : Nat)
  /-- A derived table among the sources. -/
  | table (i : Nat)

namespace Graph

/-- A part stands in a slot of another one. The matched aliases are there the sources of a request, in a
derived table those before it. -/
inductive Stands (g : Graph) : Part → Slot → List AliasId → Part → Prop
  | child {n c : NodeId} {i : Nat} (h : (g.node n).children[i]? = some c) :
      Stands g (.node n) (.child i) [] (.node c)
  | query {n : NodeId} {r : RequestId} (h : g.node n = .sub r) : Stands g (.node n) .query [] (.request r)
  | clause {r : RequestId} {c : NodeId} {i : Nat} (h : (g.request r).clauseNodes[i]? = some c) :
      Stands g (.request r) (.clause i) (g.request r).sources (.node c)
  | table {r s : RequestId} {a : AliasId} {i : Nat} (h : (g.request r).sources[i]? = some a)
      (hs : (g.aliasOf a).origin = .request s) :
      Stands g (.request r) (.table i) ((g.request r).sources.take i) (.request s)

/-- A part itself names an alias: a node the one that it reads, a request the table that it writes. -/
inductive Cites (g : Graph) : Part → AliasId → Prop
  | node {n : NodeId} {a : AliasId} (h : (g.node n).source? = some a) : Cites g (.node n) a
  | target {r : RequestId} {a : AliasId} (h : (g.request r).target = some a) : Cites g (.request r) a

variable {g : Graph} {x y z : Part} {s : Slot} {bound : List AliasId} {a : AliasId}

/-- The aliases that a part introduces. -/
def introduced (g : Graph) : Part → List AliasId
  | .node _ => []
  | .request r => (g.request r).sources

lemma Stands.carries (h : g.Stands x s bound y) : g.Carries x y := by
  cases h with
  | child h => exact .child (List.mem_of_getElem? h)
  | query h => exact .sub h
  | clause h => exact .clause (List.mem_of_getElem? h)
  | table h hs => exact .source (List.mem_of_getElem? h) hs

lemma Carries.stands (h : g.Carries x y) : ∃ s bound, g.Stands x s bound y := by
  cases h with
  | child h =>
    obtain ⟨i, hi⟩ := List.mem_iff_getElem?.1 h
    exact ⟨.child i, [], .child hi⟩
  | sub h => exact ⟨.query, [], .query h⟩
  | clause h =>
    obtain ⟨i, hi⟩ := List.mem_iff_getElem?.1 h
    exact ⟨.clause i, _, .clause hi⟩
  | source h hs =>
    obtain ⟨i, hi⟩ := List.mem_iff_getElem?.1 h
    exact ⟨.table i, _, .table hi hs⟩

/-- Some of the introduced aliases, in their order, are matched in a slot. -/
lemma Stands.sublist (h : g.Stands x s bound y) : bound.Sublist (g.introduced x) := by
  cases h with
  | child h => exact .slnil
  | query h => exact .slnil
  | clause h => exact .refl _
  | table h hs => exact List.take_sublist _ _

end Graph

/-! ### Kindred parts -/

namespace Request

variable {x y z : Request}

lemma sameMember_symm {p q : Option PropertyRef} (h : sameMember p q = true) : sameMember q p = true := by
  cases p <;> cases q
  case some.some p q => exact PropertyRef.same_symm h
  all_goals simp_all [sameMember]

lemma sameMember_trans {p q r : Option PropertyRef} (h : sameMember p q = true)
    (h' : sameMember q r = true) : sameMember p r = true := by
  cases p <;> cases q <;> cases r
  case some.some.some p q r => exact PropertyRef.same_trans h h'
  all_goals simp_all [sameMember]

/-- What equal shapes have in common. -/
lemma sameShape_iff : x.sameShape y = true ↔
    (x.kind = y.kind ∧ x.skip = y.skip ∧ x.take = y.take ∧ x.distinct = y.distinct ∧
      x.filter.isSome = y.filter.isSome ∧ x.having.isSome = y.having.isSome ∧
      x.assignments.length = y.assignments.length) ∧
    List.Forall₂ (fun j k => j.kind = k.kind) x.joins y.joins ∧
    List.Forall₂ (fun i k => i.label = k.label ∧ sameMember i.property k.property = true) x.items y.items ∧
    List.Forall₂ (fun p q => sameMember p q = true) x.groupMembers y.groupMembers ∧
    List.Forall₂ (fun o p => o.ascending = p.ascending) x.orders y.orders := by
  simp only [sameShape, Bool.and_eq_true, beq_iff_eq, allPairs_iff]
  tauto

lemma sameShape_symm (h : x.sameShape y = true) : y.sameShape x = true := by
  obtain ⟨⟨hkind, hskip, htake, hdistinct, hfilter, hhaving, hassignments⟩, hjoins, hitems, hmembers,
    horders⟩ := sameShape_iff.1 h
  refine sameShape_iff.2 ⟨⟨hkind.symm, hskip.symm, htake.symm, hdistinct.symm, hfilter.symm, hhaving.symm,
    hassignments.symm⟩, ?_, ?_, ?_, ?_⟩
  · exact hjoins.flip.imp fun _ _ => Eq.symm
  · exact hitems.flip.imp fun _ _ ⟨hlabel, hproperty⟩ => ⟨hlabel.symm, sameMember_symm hproperty⟩
  · exact hmembers.flip.imp fun _ _ => sameMember_symm
  · exact horders.flip.imp fun _ _ => Eq.symm

lemma sameShape_trans (h : x.sameShape y = true) (h' : y.sameShape z = true) : x.sameShape z = true := by
  obtain ⟨⟨hkind, hskip, htake, hdistinct, hfilter, hhaving, hassignments⟩, hjoins, hitems, hmembers,
    horders⟩ := sameShape_iff.1 h
  obtain ⟨⟨hkind', hskip', htake', hdistinct', hfilter', hhaving', hassignments'⟩, hjoins', hitems',
    hmembers', horders'⟩ := sameShape_iff.1 h'
  refine sameShape_iff.2 ⟨⟨hkind.trans hkind', hskip.trans hskip', htake.trans htake',
    hdistinct.trans hdistinct', hfilter.trans hfilter', hhaving.trans hhaving',
    hassignments.trans hassignments'⟩, ?_, ?_, ?_, ?_⟩
  · exact (forall₂_comp hjoins hjoins').imp fun _ _ ⟨_, h, h'⟩ => h.trans h'
  · exact (forall₂_comp hitems hitems').imp fun _ _ ⟨_, h, h'⟩ =>
      ⟨h.1.trans h'.1, sameMember_trans h.2 h'.2⟩
  · exact (forall₂_comp hmembers hmembers').imp fun _ _ ⟨_, h, h'⟩ => sameMember_trans h h'
  · exact (forall₂_comp horders horders').imp fun _ _ ⟨_, h, h'⟩ => h.trans h'

/-- Requests of one shape have equally many values in their clauses. -/
lemma length_clauseNodes_of_sameShape (hx : x.groupMembers.length = x.groups.length)
    (hy : y.groupMembers.length = y.groups.length) (h : x.sameShape y = true) :
    x.clauseNodes.length = y.clauseNodes.length := by
  obtain ⟨⟨-, -, -, -, hfilter, hhaving, hassignments⟩, hjoins, hitems, hmembers, horders⟩ :=
    sameShape_iff.1 h
  have hoption : ∀ {o p : Option NodeId}, o.isSome = p.isSome → o.toList.length = p.toList.length := by
    intro o p h
    cases o <;> cases p <;> simp_all
  have hgroups : x.groups.length = y.groups.length := by rw [← hx, ← hy, hmembers.length_eq]
  simp [clauseNodes, hjoins.length_eq, hitems.length_eq, hoption hfilter, hoption hhaving, hgroups,
    horders.length_eq, hassignments]

end Request

namespace Graph

/-- Parts that differ in aliases and in what stands in them only. -/
inductive Kindred (g : Graph) : Part → Part → Prop
  | node {m n : NodeId}
      (h : (g.node m).Like (fun _ _ => True) (fun v w => v.equals w = true) (g.node n)) :
      Kindred g (.node m) (.node n)
  | request {r s : RequestId}
      (hsources : List.Forall₂ (fun a b => (g.aliasOf a).origin.Like (g.aliasOf b).origin)
        (g.request r).sources (g.request s).sources)
      (htarget : (g.request r).target.isSome = (g.request s).target.isSome)
      (hshape : (g.request r).sameShape (g.request s) = true) : Kindred g (.request r) (.request s)

namespace Kindred

variable {g : Graph} {x y z x' : Part} {s : Slot} {bound : List AliasId} {a : AliasId}

lemma symm (h : g.Kindred x y) : g.Kindred y x := by
  cases h with
  | node h =>
    refine .node (h.symm.mono (fun _ _ _ _ => trivial) ?_)
    rintro v w - hvw
    exact Value.equals_symm hvw
  | request hsources htarget hshape =>
    exact .request (hsources.flip.imp fun _ _ => Origin.Like.symm) htarget.symm
      (Request.sameShape_symm hshape)

lemma trans (hxy : g.Kindred x y) (hyz : g.Kindred y z) : g.Kindred x z := by
  cases hxy with
  | node h =>
    cases hyz with
    | node h' =>
      refine .node ((h.trans h').mono (fun _ _ _ _ => trivial) ?_)
      rintro v w - ⟨u, hvu, huw⟩
      exact Value.equals_trans hvu huw
  | request hsources htarget hshape =>
    cases hyz with
    | request hsources' htarget' hshape' =>
      refine .request ?_ (htarget.trans htarget') (Request.sameShape_trans hshape hshape')
      exact (forall₂_comp hsources hsources').imp fun _ _ ⟨_, h, h'⟩ => h.trans h'

lemma length_introduced (h : g.Kindred x y) : (g.introduced x).length = (g.introduced y).length := by
  cases h with
  | node h => rfl
  | request hsources htarget hshape => exact hsources.length_eq

lemma length_bound (h : g.Kindred x y) {bound' : List AliasId} {y' : Part} (hx : g.Stands x s bound x')
    (hy : g.Stands y s bound' y') : bound.length = bound'.length := by
  have hlength := h.length_introduced
  cases hx <;> cases hy
  case child.child hc hd => rfl
  case query.query hr hs => rfl
  case clause.clause hc hd => exact hlength
  case table.table ha hr hb hs =>
    rw [List.length_take, List.length_take]
    exact congrArg _ hlength

/-- Kindred parts have the same slots. -/
lemma exists_stands (hg : g.Formed) (h : g.Kindred x y) (hx : g.Stands x s bound x') :
    ∃ bound' y', g.Stands y s bound' y' := by
  cases hx with
  | child hc =>
    cases h with
    | @node m n h =>
      obtain ⟨hi, -⟩ := List.getElem?_eq_some_iff.1 hc
      exact ⟨[], _, .child (List.getElem?_eq_getElem (h.length_children ▸ hi))⟩
  | query hr =>
    cases h with
    | @node m n h =>
      rw [hr] at h
      obtain ⟨q, hq⟩ := h.exists_sub
      exact ⟨[], _, .query hq⟩
  | clause hc =>
    cases h with
    | request hsources htarget hshape =>
      obtain ⟨hi, -⟩ := List.getElem?_eq_some_iff.1 hc
      have hlength := Request.length_clauseNodes_of_sameShape (hg.request _).keyed (hg.request _).keyed hshape
      exact ⟨_, _, .clause (List.getElem?_eq_getElem (hlength ▸ hi))⟩
  | table ha hr' =>
    cases h with
    | @request r s hsources htarget hshape =>
      obtain ⟨hi, rfl⟩ := List.getElem?_eq_some_iff.1 ha
      have hj := hsources.length_eq ▸ hi
      obtain ⟨s', hs'⟩ := (hsources.get hi hj).exists_request hr'
      exact ⟨_, _, .table (List.getElem?_eq_getElem hj) hs'⟩

/-- Kindred parts name an alias, or neither does. -/
lemma exists_cites (h : g.Kindred x y) (hx : g.Cites x a) : ∃ b, g.Cites y b := by
  cases hx with
  | node ha =>
    cases h with
    | node h =>
      obtain ⟨b, hb, -⟩ := h.source? ha
      exact ⟨b, .node hb⟩
  | target ha =>
    cases h with
    | request hsources htarget hshape =>
      rw [ha, Option.isSome_some] at htarget
      obtain ⟨b, hb⟩ := Option.isSome_iff_exists.1 htarget.symm
      exact ⟨b, .target hb⟩

end Kindred

end Graph

/-! ### The step -/

lemma Node.like_of_sameHead {pairs : Pairs} {x y : Node} (h : x.sameHead pairs y = true)
    (hlength : x.children.length = y.children.length) :
    x.Like (fun _ _ => True) (fun v w => v.equals w = true) y := by
  cases x <;> cases y <;> simp only [sameHead, Bool.false_eq_true, Bool.and_eq_true, beq_iff_eq] at h
  case column.column a c b d =>
    obtain ⟨-, rfl⟩ := h
    exact .column trivial c
  case row.row a b => exact .row trivial
  case const.const v w => exact .const h
  case unary.unary o e p f =>
    subst h
    refine .unary o ?_
    cases e <;> cases f <;> simp_all [children]
  case binary.binary o l r p l' r' =>
    subst h
    exact .binary o l r l' r'
  case isIn.isIn e vs f ws => exact .isIn e f (by simpa [children] using hlength)
  case cond.cond t y n t' y' n' => exact .cond t y n t' y' n'

lemma Node.sameHead_of_like {pairs : Pairs} {x y : Node}
    (h : x.Like (fun _ _ => True) (fun v w => v.equals w = true) y) (hx : ∀ r, x ≠ .sub r)
    (hsource : ∀ a b, x.source? = some a → y.source? = some b → pairs.agrees a b = true) :
    x.sameHead pairs y = true := by
  cases h with
  | column _ c => simp [sameHead, hsource _ _ rfl rfl]
  | row _ => exact hsource _ _ rfl rfl
  | const h => exact h
  | sub r q => exact absurd rfl (hx r)
  | _ => simp [sameHead]

/-- The aliases of two scopes matched one by one, inside of older ones. -/
def Pairs.under (pairs : Pairs) (xs ys : List AliasId) : Pairs := (xs.zip ys).reverse ++ pairs

namespace Graph

variable {g : Graph} {x y : Part} {pairs : Pairs} {fuel : Nat}

/-- Kindred parts that name matched aliases and have the same parts in their slots. -/
structure Level (g : Graph) (same : Pairs → Part → Part → Prop) (pairs : Pairs) (x y : Part) : Prop where
  kindred : g.Kindred x y
  cites : ∀ a b, g.Cites x a → g.Cites y b →
    (pairs.under (g.introduced x) (g.introduced y)).agrees a b = true
  stands : ∀ s bound x' bound' y', g.Stands x s bound x' → g.Stands y s bound' y' →
    same (pairs.under bound bound') x' y'

/-- Matched sources range over the same tables, or over requests both. -/
lemma like_of_matchSources {same : Pairs → RequestId → RequestId → Option Bool} {own : Pairs}
    {ps : List (AliasId × AliasId)} (h : g.matchSources same pairs ps = some (some own)) :
    ∀ p ∈ ps, (g.aliasOf p.1).origin.Like (g.aliasOf p.2).origin := by
  induction ps generalizing pairs with
  | nil => simp
  | cons p ps ih =>
    obtain ⟨hlike, -, hrest⟩ := of_matchSources_cons h
    exact List.forall_mem_cons.2 ⟨hlike, ih hrest⟩

/-- A comparison that goes no deeper than that finds two parts equal. -/
def SameAt (g : Graph) (fuel : Nat) (pairs : Pairs) (x y : Part) : Prop :=
  g.sameParts fuel pairs x y = some true

lemma level_of_sameWithin {m n : NodeId} (h : g.sameWithin (fuel + 1) pairs m n = some true) :
    g.Level (g.SameAt fuel) pairs (.node m) (.node n) := by
  rw [sameWithin] at h
  split at h
  · next r s hr hs =>
    refine ⟨.node ?_, ?_, ?_⟩
    · rw [hr, hs]
      exact .sub r s
    · rintro a b ⟨ha⟩ -
      rw [hr] at ha
      cases ha
    · rintro _ _ _ _ _ (hc | hr') (_ | hs')
      · rw [hr] at hc
        cases hc
      · cases hr.symm.trans hr'
        cases hs.symm.trans hs'
        exact h
  · next hsub =>
    split at h
    · next hhead =>
      rw [Bool.and_eq_true, beq_iff_eq] at hhead
      rw [allM_eq_some_true] at h
      have hlike := Node.like_of_sameHead hhead.1 hhead.2
      refine ⟨.node hlike, ?_, ?_⟩
      · rintro a b ⟨ha⟩ ⟨hb⟩
        exact agrees_of_sameHead hhead.1 ha hb
      · rintro _ _ _ _ _ (hc | hr) (hd | hs)
        · obtain ⟨rest, hsplit⟩ := exists_zip_split hc hd
          exact h (_, _) (hsplit ▸ by simp)
        · exact (hsub _ _ hr hs).elim
    · cases h

lemma level_of_sameRequestsWithin {r s : RequestId} (hrs : r ≠ s)
    (h : g.sameRequestsWithin (fuel + 1) pairs r s = some true) :
    g.Level (g.SameAt fuel) pairs (.request r) (.request s) := by
  simp only [sameRequestsWithin, if_neg hrs] at h
  split at h
  · cases h
  next hlength =>
  rw [Bool.not_eq_true, bne_eq_false_iff_eq] at hlength
  obtain ⟨matched, hmatch, hrest⟩ := Option.bind_eq_some_iff.1 h
  cases matched with
  | none => cases hrest
  | some own =>
    obtain ⟨rfl, hinner⟩ := of_matchSources hmatch
    have hlike := like_of_matchSources hmatch
    simp only at hrest
    split at hrest
    · next hshape =>
      obtain ⟨hshape, htarget⟩ := Bool.and_eq_true_iff.1 hshape
      rw [allM_eq_some_true] at hrest
      refine ⟨.request ?_ ?_ hshape, ?_, ?_⟩
      · exact List.forall₂_iff_zip.2 ⟨hlength, fun hab => hlike _ hab⟩
      · cases hr : (g.request r).target <;> cases hs : (g.request s).target <;> simp_all [sameTarget]
      · rintro a b (_ | ha) (_ | hb)
        rw [ha, hb] at htarget
        exact htarget
      · rintro _ _ _ _ _ (_ | _ | hc | ⟨ha, hr'⟩) (_ | _ | hd | ⟨hb, hs'⟩)
        · obtain ⟨rest, hsplit⟩ := exists_zip_split hc hd
          exact hrest (_, _) (hsplit ▸ by simp)
        · obtain ⟨rest, hsplit⟩ := exists_zip_split ha hb
          exact hinner _ _ _ _ _ _ hsplit hr' hs'
    · cases hrest

/-- **Equal parts are one request, or on a level.** -/
theorem of_sameParts (h : g.SameAt (fuel + 1) pairs x y) :
    (∃ r, x = .request r ∧ y = .request r) ∨
      (∀ r, x = .request r → y ≠ .request r) ∧ g.Level (g.SameAt fuel) pairs x y := by
  cases x with
  | node m =>
    cases y with
    | node n => exact .inr ⟨nofun, level_of_sameWithin h⟩
    | request s => cases h
  | request r =>
    cases y with
    | node n => cases h
    | request s =>
      by_cases hrs : r = s
      · exact .inl ⟨r, rfl, hrs ▸ rfl⟩
      · refine .inr ⟨?_, level_of_sameRequestsWithin hrs h⟩
        rintro q ⟨⟩ ⟨⟩
        exact hrs rfl

/-- A comparison that may not take a step finds nothing equal. -/
lemma not_sameAt_zero : ¬ g.SameAt 0 pairs x y := by
  cases x <;> cases y <;> simp [SameAt, sameParts, sameWithin, sameRequestsWithin]

lemma sameAt_request (pairs : Pairs) (r : RequestId) :
    g.SameAt (fuel + 1) pairs (.request r) (.request r) := by
  simp [SameAt, sameParts, sameRequestsWithin]

/-- **Parts on a level are equal.** -/
theorem Level.sameAt (h : g.Level (g.SameAt fuel) pairs x y) : g.SameAt (fuel + 1) pairs x y := by
  obtain ⟨hkindred, hcites, hstands⟩ := h
  cases hkindred with
  | @node m n hlike =>
    show g.sameWithin (fuel + 1) pairs m n = some true
    rw [sameWithin]
    split
    · next r s hr hs => exact hstands .query [] _ [] _ (.query hr) (.query hs)
    · next hsub =>
      have hm : ∀ r, g.node m ≠ .sub r := by
        intro r hr
        rw [hr] at hlike
        obtain ⟨s, hs⟩ := hlike.exists_sub
        exact hsub r s hr hs
      have hhead : (g.node m).sameHead pairs (g.node n) = true :=
        Node.sameHead_of_like hlike hm fun a b ha hb => hcites a b (.node ha) (.node hb)
      rw [hhead, hlike.length_children, beq_self_eq_true, Bool.and_self, if_pos rfl, allM_eq_some_true]
      rintro ⟨c, d⟩ hcd
      obtain ⟨ps, qs, hsplit⟩ := List.append_of_mem hcd
      obtain ⟨hc, hd, -⟩ := of_zip_split hsplit
      exact hstands _ _ _ _ _ (.child hc) (.child hd)
  | @request r s hsources htarget hshape =>
    show g.sameRequestsWithin (fuel + 1) pairs r s = some true
    have hmatch : g.matchSources (g.sameRequestsWithin fuel) pairs
        ((g.request r).sources.zip (g.request s).sources) =
        some (some (pairs.under (g.request r).sources (g.request s).sources)) := by
      refine matchSources_eq (fun a b hab => ?_) fun ps a b qs r' s' hsplit hr' hs' => ?_
      · exact (List.forall₂_iff_zip.1 hsources).2 hab
      · obtain ⟨ha, hb, hps⟩ := of_zip_split hsplit
        rw [hps]
        exact hstands _ _ _ _ _ (.table ha hr') (.table hb hs')
    have htargets : sameTarget (pairs.under (g.request r).sources (g.request s).sources)
        (g.request r).target (g.request s).target = true := by
      cases hr : (g.request r).target <;> cases hs : (g.request s).target <;>
        simp_all only [Option.isSome_none, Option.isSome_some, Bool.false_eq_true, reduceCtorEq, sameTarget]
      exact hcites _ _ (.target hr) (.target hs)
    rw [sameRequestsWithin]
    split
    · rfl
    · rw [hmatch, hsources.length_eq, bne_self_eq_false, if_neg Bool.false_ne_true]
      simp only [Option.bind_eq_bind, Option.bind_some, hshape, htargets, Bool.and_self, if_true,
        allM_eq_some_true]
      rintro ⟨c, d⟩ hcd
      obtain ⟨ps, qs, hsplit⟩ := List.append_of_mem hcd
      obtain ⟨hc, hd, -⟩ := of_zip_split hsplit
      exact hstands _ _ _ _ _ (.clause hc) (.clause hd)

end Graph

end Sql

end EntityQuery
