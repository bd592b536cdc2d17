import EntityQuery.Proofs.Filters.Basic
import Mathlib.Tactic.Lemma

/-!
The texts that a pattern describes.

* `Matches`: `%` stands for any text, `_` for any letter, and every other letter for itself. There is no
  letter that takes this meaning from another one.
* `Matches.append_iff`: two patterns in a row describe two texts in a row.
* `matches_iff_eq`: a text without `%` and `_` describes itself alone; every text describes itself.
* `isTrue_like`: in a server that follows this meaning, a text has a part at a place exactly if the text
  that stands there is one that the part describes.
-/

namespace EntityQuery

open Sql

/-! ### Patterns -/

/-- A text is one that a pattern describes, both by their letters. -/
inductive Matches : List Char → List Char → Prop
  | nil : Matches [] []
  | many (u : List Char) {p s : List Char} : Matches p s → Matches ('%' :: p) (u ++ s)
  | one (d : Char) {p s : List Char} : Matches p s → Matches ('_' :: p) (d :: s)
  | letter {c : Char} {p s : List Char} : c ≠ '%' → c ≠ '_' → Matches p s → Matches (c :: p) (c :: s)

namespace Matches

variable {p q s t : List Char} {c : Char}

lemma nil_iff : Matches [] s ↔ s = [] := by
  constructor
  · rintro ⟨⟩
    rfl
  · rintro rfl
    exact .nil

lemma many_iff : Matches ('%' :: p) s ↔ ∃ u v, s = u ++ v ∧ Matches p v := by
  constructor
  · intro h
    cases h with
    | many u h => exact ⟨u, _, rfl, h⟩
    | letter hmany _ _ => exact absurd rfl hmany
  · rintro ⟨u, v, rfl, h⟩
    exact .many u h

/-- All letters but `%` describe single letters. -/
lemma cons_iff (hc : c ≠ '%') :
    Matches (c :: p) s ↔ ∃ d v, s = d :: v ∧ (c = '_' ∨ c = d) ∧ Matches p v := by
  constructor
  · intro h
    cases h with
    | many u h => exact absurd rfl hc
    | one d h => exact ⟨d, _, rfl, .inl rfl, h⟩
    | letter _ _ h => exact ⟨c, _, rfl, .inr rfl, h⟩
  · rintro ⟨d, v, rfl, hd, h⟩
    by_cases hone : c = '_'
    · rw [hone]
      exact .one d h
    · obtain rfl : c = d := hd.resolve_left hone
      exact .letter hc hone h

/-- Two patterns in a row describe two texts in a row. -/
theorem append_iff : Matches (p ++ q) s ↔ ∃ u v, s = u ++ v ∧ Matches p u ∧ Matches q v := by
  induction p generalizing s with
  | nil =>
    constructor
    · intro h
      exact ⟨[], s, rfl, .nil, h⟩
    · rintro ⟨u, v, rfl, hu, hv⟩
      rwa [nil_iff.1 hu]
  | cons c p ih =>
    rw [List.cons_append]
    by_cases hc : c = '%'
    · subst hc
      simp only [many_iff, ih]
      constructor
      · rintro ⟨u, _, rfl, v, w, rfl, hv, hw⟩
        exact ⟨u ++ v, w, (List.append_assoc _ _ _).symm, ⟨u, v, rfl, hv⟩, hw⟩
      · rintro ⟨_, w, rfl, ⟨u, v, rfl, hv⟩, hw⟩
        exact ⟨u, v ++ w, List.append_assoc _ _ _, v, w, rfl, hv, hw⟩
    · simp only [cons_iff hc, ih]
      constructor
      · rintro ⟨d, _, rfl, hd, u, v, rfl, hu, hv⟩
        exact ⟨d :: u, v, rfl, ⟨d, u, rfl, hd, hu⟩, hv⟩
      · rintro ⟨_, v, rfl, ⟨d, u, rfl, hd, hu⟩, hv⟩
        exact ⟨d, u ++ v, rfl, hd, u, v, rfl, hu, hv⟩

/-- Every text describes itself. -/
theorem refl (t : List Char) : Matches t t := by
  induction t with
  | nil => exact .nil
  | cons c t ih =>
    by_cases hmany : c = '%'
    · subst hmany
      exact .many ['%'] ih
    · exact (cons_iff hmany).2 ⟨c, t, rfl, .inr rfl, ih⟩

end Matches

/-- A text in which all letters stand for themselves. -/
def Verbatim (t : List Char) : Prop := ∀ c ∈ t, c ≠ '%' ∧ c ≠ '_'

instance : DecidablePred Verbatim := fun t => t.decidableBAll (fun c => c ≠ '%' ∧ c ≠ '_')

/-- A text in which all letters stand for themselves describes itself alone. -/
theorem matches_iff_eq {t s : List Char} (ht : Verbatim t) : Matches t s ↔ s = t := by
  constructor
  · intro h
    induction h with
    | nil => rfl
    | many u h ih => exact absurd rfl (ht '%' List.mem_cons_self).1
    | one d h ih => exact absurd rfl (ht '_' List.mem_cons_self).2
    | letter _ _ h ih => rw [ih fun c hc => ht c (List.mem_cons_of_mem _ hc)]
  · rintro rfl
    exact .refl s

/-- The pattern of all texts. -/
lemma matches_many (s : List Char) : Matches ['%'] s := by
  have h : Matches ['%'] (s ++ []) := .many s .nil
  rwa [List.append_nil] at h

/-- Decides whether a pattern describes a text. -/
def accepts : List Char → List Char → Bool
  | [], s => s.isEmpty
  | c :: p, s =>
    if c = '%' then s.tails.any (accepts p)
    else match s with
      | [] => false
      | d :: v => (c == '_' || c == d) && accepts p v

lemma accepts_iff {p s : List Char} : accepts p s = true ↔ Matches p s := by
  induction p generalizing s with
  | nil => rw [accepts, List.isEmpty_iff, Matches.nil_iff]
  | cons c p ih =>
    unfold accepts
    split
    · next hc =>
      subst hc
      simp only [List.any_eq_true, List.mem_tails, ih, Matches.many_iff]
      constructor
      · rintro ⟨v, ⟨u, rfl⟩, hv⟩
        exact ⟨u, v, rfl, hv⟩
      · rintro ⟨u, v, rfl, hv⟩
        exact ⟨v, ⟨u, rfl⟩, hv⟩
    · next hc =>
      rw [Matches.cons_iff hc]
      cases s with
      | nil => simp
      | cons d v => simp [ih]

instance (p s : List Char) : Decidable (Matches p s) := decidable_of_iff _ accepts_iff

/-! ### Parts of texts -/

namespace Place

/-- A text has another one at a place. -/
def Has : Place → List Char → List Char → Prop
  | .start, t, s => t <+: s
  | .finish, t, s => t <:+ s
  | .anywhere, t, s => t <:+: s

instance : (place : Place) → (t s : List Char) → Decidable (place.Has t s)
  | .start, t, s => inferInstanceAs (Decidable (t <+: s))
  | .finish, t, s => inferInstanceAs (Decidable (t <:+ s))
  | .anywhere, t, s => inferInstanceAs (Decidable (t <:+: s))

/-- The letters of the pattern of the texts with a part at a place. -/
def letters : Place → List Char → List Char
  | .start, t => t ++ ['%']
  | .finish, t => '%' :: t
  | .anywhere, t => '%' :: (t ++ ['%'])

variable {place : Place} {t s : List Char}

/-- The pattern of a part describes the texts that have, at its place, a text that the part describes. -/
theorem matches_letters : Matches (place.letters t) s ↔ ∃ v, Matches t v ∧ place.Has v s := by
  have hrest : ∀ s, Matches (t ++ ['%']) s ↔ ∃ v, Matches t v ∧ v <+: s := by
    intro s
    rw [Matches.append_iff]
    constructor
    · rintro ⟨v, w, rfl, hv, -⟩
      exact ⟨v, hv, w, rfl⟩
    · rintro ⟨v, hv, w, rfl⟩
      exact ⟨v, w, rfl, hv, matches_many w⟩
  cases place with
  | start => exact hrest s
  | finish =>
    rw [letters, Matches.many_iff]
    constructor
    · rintro ⟨u, v, rfl, hv⟩
      exact ⟨v, hv, u, rfl⟩
    · rintro ⟨v, hv, u, rfl⟩
      exact ⟨u, v, rfl, hv⟩
  | anywhere =>
    rw [letters, Matches.many_iff]
    constructor
    · rintro ⟨u, tail, rfl, htail⟩
      obtain ⟨v, hv, w, rfl⟩ := (hrest tail).1 htail
      exact ⟨v, hv, u, w, List.append_assoc _ _ _⟩
    · rintro ⟨v, hv, u, w, rfl⟩
      exact ⟨u, v ++ w, List.append_assoc _ _ _, (hrest _).2 ⟨v, hv, w, rfl⟩⟩

/-- A text that stands at the place is enough, and no other is if its letters stand for themselves. -/
theorem exists_has : (place.Has t s → ∃ v, Matches t v ∧ place.Has v s) ∧
    (Verbatim t → ((∃ v, Matches t v ∧ place.Has v s) ↔ place.Has t s)) := by
  refine ⟨fun h => ⟨t, .refl t, h⟩, fun ht => ?_⟩
  constructor
  · rintro ⟨v, hv, h⟩
    rwa [(matches_iff_eq ht).1 hv] at h
  · intro h
    exact ⟨t, .refl t, h⟩

end Place

/-! ### Servers -/

/-- A server that joins texts, and in which patterns describe texts. -/
structure Sql.Engine.FollowsPatterns (e : Engine) : Prop where
  concat : ∀ s t : String, e.operate .concat (.string s) (.string t) = .string (s ++ t)
  like : ∀ s p : String,
    e.operate .like (.string s) (.string p) = .boolean (decide (Matches p.toList s.toList))

namespace Sql.Engine.FollowsPatterns

variable {e : Engine} (he : e.FollowsPatterns)
include he

lemma pattern_eq (place : EntityQuery.Place) (t : String) :
    ∃ p : String, place.pattern e (.string t) = .string p ∧ p.toList = place.letters t.toList := by
  have hconcat : ∀ s t : String, e.binary .concat (.string s) (.string t) = .string (s ++ t) := he.concat
  cases place with
  | start => exact ⟨t ++ "%", hconcat _ _, String.toList_append⟩
  | finish => exact ⟨"%" ++ t, hconcat _ _, String.toList_append⟩
  | anywhere =>
    refine ⟨"%" ++ (t ++ "%"), ?_, ?_⟩
    · rw [EntityQuery.Place.pattern, hconcat, hconcat]
    · rw [String.toList_append, String.toList_append]
      rfl

/-- A text is one of those with a part at a place if a text that the part describes stands there. -/
theorem isTrue_like (place : EntityQuery.Place) (s t : String) :
    isTrue (e.binary .like (.string s) (place.pattern e (.string t))) ↔
      ∃ v, Matches t.toList v ∧ place.Has v s.toList := by
  obtain ⟨p, hpattern, hletters⟩ := he.pattern_eq place t
  have hlike : e.binary .like (.string s) (.string p) =
      .boolean (decide (Matches p.toList s.toList)) := he.like s p
  rw [hpattern, hlike, hletters, ← EntityQuery.Place.matches_letters]
  simp [isTrue, truthOf]

end Sql.Engine.FollowsPatterns

end EntityQuery
