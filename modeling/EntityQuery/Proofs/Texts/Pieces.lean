import EntityQuery.Text.Split
import Mathlib.Data.List.DropRight
import Mathlib.Tactic.Lemma

/-!
Texts cut at a character, and texts trimmed of white space.

* `splitAt?` gives what stands before and after the first separator, and nothing where there is none.
* `splitOn` is the function of that name on lists.
* `Trimmed`: neither the first nor the last character is white space. A text is white space around a
  trimmed one in one way only, and `trim` gives that one.
-/

namespace EntityQuery.Text

section Pieces

variable {c : Char} {s : List Char}

/-! ### The first separator -/

lemma splitAt?_append {before : List Char} (h : c ∉ before) (after : List Char) :
    splitAt? c (before ++ c :: after) = some (before, after) := by
  induction before with
  | nil => simp [splitAt?]
  | cons d before ih =>
    rw [List.mem_cons, not_or] at h
    rw [List.cons_append, splitAt?, if_neg (Ne.symm h.1), ih h.2]
    rfl

lemma splitAt?_eq_none (h : c ∉ s) : splitAt? c s = none := by
  induction s with
  | nil => rfl
  | cons d s ih =>
    rw [List.mem_cons, not_or] at h
    rw [splitAt?, if_neg (Ne.symm h.1), ih h.2]
    rfl

/-! ### All separators -/

theorem splitOn_eq (c : Char) (s : List Char) : splitOn c s = s.splitOn c := by
  induction s with
  | nil => rfl
  | cons d s ih =>
    rw [splitOn, List.splitOn_cons_eq_if_modifyHead, ih]
    simp only [beq_iff_eq]
    split
    · rfl
    · cases h : s.splitOn c with
      | nil => exact absurd h (List.splitOn_ne_nil c s)
      | cons piece pieces => rfl

end Pieces

section Blanks

variable {s t indent trail : List Char}

/-- White space only. -/
def Blank (s : List Char) : Prop := ∀ c ∈ s, isBlank c

instance (s : List Char) : Decidable (Blank s) :=
  decidable_of_iff (s.all isBlank = true) List.all_eq_true

@[simp] lemma blank_nil : Blank [] := by simp [Blank]

@[simp] lemma blank_append : Blank (s ++ t) ↔ Blank s ∧ Blank t := List.forall_mem_append

/-- No white space at either end. -/
structure Trimmed (s : List Char) : Prop where
  head : ∀ c ∈ s.head?, ¬ isBlank c
  last : ∀ c ∈ s.getLast?, ¬ isBlank c

lemma Trimmed.nil : Trimmed [] := ⟨by simp, by simp⟩

lemma trimRight_eq (s : List Char) : trimRight s = s.rdropWhile isBlank := rfl

lemma trimRight_append (h : Blank trail) (s : List Char) :
    trimRight (s ++ trail) = trimRight s := by
  rw [trimRight, List.reverse_append,
    List.dropWhile_append_of_pos fun c hc => h c (List.mem_reverse.1 hc)]
  rfl

lemma trim_of_trimmed (hi : Blank indent) (ht : Trimmed t) (hr : Blank trail) :
    trim (indent ++ t ++ trail) = t := by
  cases t with
  | nil =>
    have hnil : trimLeft (indent ++ [] ++ trail) = [] := by
      rw [trimLeft, List.append_nil, List.dropWhile_eq_nil_iff]
      exact blank_append.2 ⟨hi, hr⟩
    rw [trim, hnil]
    rfl
  | cons c t =>
    have hleft : trimLeft (indent ++ c :: t ++ trail) = c :: t ++ trail := by
      rw [trimLeft, List.append_assoc, List.dropWhile_append_of_pos hi, List.cons_append,
        List.dropWhile_cons_of_neg (ht.head c rfl)]
    have hself : (c :: t).rdropWhile isBlank = c :: t :=
      List.rdropWhile_eq_self_iff.2 fun hne => ht.last _ (List.getLast?_eq_some_getLast hne)
    rw [trim, hleft, trimRight_append hr, trimRight_eq, hself]

/-- A trimmed text stands between white space. -/
lemma exists_trim (s : List Char) : ∃ indent trail,
    Blank indent ∧ Blank trail ∧ Trimmed (trim s) ∧ s = indent ++ trim s ++ trail := by
  refine ⟨s.takeWhile isBlank, (trimLeft s).rtakeWhile isBlank, ?_, ?_, ⟨?_, ?_⟩, ?_⟩
  · exact fun c hc => List.mem_takeWhile_imp hc
  · exact fun c hc => List.mem_rtakeWhile_imp hc
  · intro c hc
    obtain ⟨rest, hrest⟩ : trim s <+: trimLeft s := List.rdropWhile_prefix isBlank _
    obtain ⟨t, ht⟩ : ∃ t, trim s = c :: t := List.head?_eq_some_iff.1 hc
    have hdrop : s.dropWhile isBlank = c :: (t ++ rest) := by
      rw [← trimLeft, ← hrest, ht, List.cons_append]
    have hne : s.dropWhile isBlank ≠ [] := by simp [hdrop]
    have hhead := List.head_dropWhile_not isBlank hne
    simpa [hdrop] using hhead
  · intro c hc
    have hne : trim s ≠ [] := by
      rintro h
      simp [h] at hc
    have hlast := List.rdropWhile_last_not isBlank (trimLeft s) hne
    rw [List.getLast?_eq_some_getLast hne] at hc
    rwa [← Option.some.inj (Option.mem_def.1 hc)]
  · rw [List.append_assoc, trim, trimRight_eq, List.rdropWhile_append_rtakeWhile, trimLeft,
      List.takeWhile_append_dropWhile]

lemma trim_eq_self (h : Trimmed s) : trim s = s := by
  simpa using trim_of_trimmed blank_nil h blank_nil

lemma trim_eq_nil : trim s = [] ↔ Blank s := by
  constructor
  · intro h
    obtain ⟨indent, trail, hi, hr, -, hs⟩ := exists_trim s
    rw [h, List.append_nil] at hs
    rw [hs]
    exact blank_append.2 ⟨hi, hr⟩
  · intro h
    simpa using trim_of_trimmed h .nil blank_nil

/-- White space in front is trimmed away, -/
lemma trim_append_left (h : Blank indent) (s : List Char) : trim (indent ++ s) = trim s := by
  rw [trim, trimLeft, List.dropWhile_append_of_pos h]
  rfl

/-- and white space at the end. -/
lemma trim_append_right (h : Blank trail) (s : List Char) : trim (s ++ trail) = trim s := by
  obtain ⟨before, after, hb, ha, ht, hs⟩ := exists_trim s
  calc trim (s ++ trail) = trim (before ++ trim s ++ (after ++ trail)) := by
        rw [← List.append_assoc, ← hs]
    _ = trim s := trim_of_trimmed hb ht (blank_append.2 ⟨ha, h⟩)

/-- What is no white space stands in the trimmed text. -/
lemma mem_trim {c : Char} (hc : ¬ isBlank c) : c ∈ trim s ↔ c ∈ s := by
  obtain ⟨indent, trail, hi, hr, -, hs⟩ := exists_trim s
  constructor
  · intro h
    rw [hs]
    simp [h]
  · intro h
    rw [hs] at h
    rcases List.mem_append.1 h with h | h
    · exact (List.mem_append.1 h).resolve_left fun h => hc (hi c h)
    · exact absurd (hr c h) hc

end Blanks

end EntityQuery.Text
