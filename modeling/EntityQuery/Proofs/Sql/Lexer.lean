import EntityQuery.Sql.Piece
import Mathlib.Tactic.Lemma

/-!
Reading a statement's text back: quoted names and the marks of bound values.

* `lex` goes through a text from left to right. A closing quote that is written twice belongs to
  the name; a text that ends inside a name has no tokens.
* `lex_sql`: the tokens of written pieces are the names and marks of the pieces, if every name and
  mark is followed by a separator and the fixed words hold no quote and no mark (`Spaced`).
-/

namespace EntityQuery

/-! ### Marks and quotes of a dialect -/

namespace Dialect

/-- The character that a mark starts with. -/
def startsMark : Dialect → Char → Bool
  | .postgres, c => c == '$'
  | .sqlServer, c => c == '@'
  | .mySql, c | .db2, c => c == '?'

/-- The characters that a mark goes on with. -/
def continuesMark : Dialect → Char → Bool
  | .postgres, c => c.isDigit
  | .sqlServer, c => c.isAlphanum
  | .mySql, _ | .db2, _ => false

/-- A character that is neither a quote nor the start of a mark. -/
def isPlain (d : Dialect) (c : Char) : Bool :=
  c != d.openQuote && c != d.closeQuote && !d.startsMark c

end Dialect

namespace Sql

/-! ### The lexer -/

/-- What a text holds besides fixed words. -/
inductive Token where
  | name (s : String)
  | mark (s : String)
  deriving DecidableEq, Repr

/-- The mark of a token. -/
def Token.mark? : Token → Option String
  | .name _ => none
  | .mark s => some s

/-- Where the lexer stands, with what it has read of a token. -/
inductive LexMode where
  | outside
  | name (read : List Char)
  /-- After a closing quote, which ends the name unless another one follows. -/
  | closing (read : List Char)
  | mark (read : List Char)

structure LexState where
  mode : LexMode := .outside
  tokens : List Token := []

namespace LexState

/-- The tokens read so far, with the one that may end here. -/
def settled (l : LexState) : List Token :=
  match l.mode with
  | .outside | .name _ => l.tokens
  | .closing read => l.tokens ++ [.name (String.ofList read)]
  | .mark read => l.tokens ++ [.mark (String.ofList read)]

/-- Reads a character outside names and marks. -/
def start (d : Dialect) (tokens : List Token) (c : Char) : LexState :=
  if c = d.openQuote then ⟨.name [], tokens⟩
  else if d.startsMark c then ⟨.mark [c], tokens⟩
  else ⟨.outside, tokens⟩

/-- Reads a character. -/
def step (d : Dialect) (l : LexState) (c : Char) : LexState :=
  match l.mode with
  | .outside => start d l.tokens c
  | .name read =>
    if c = d.closeQuote then { l with mode := .closing read }
    else { l with mode := .name (read ++ [c]) }
  | .closing read =>
    if c = d.closeQuote then { l with mode := .name (read ++ [c]) } else start d l.settled c
  | .mark read =>
    if d.continuesMark c then { l with mode := .mark (read ++ [c]) } else start d l.settled c

/-- Reads a text. -/
def run (d : Dialect) (l : LexState) (s : List Char) : LexState := s.foldl (step d) l

/-- The tokens of the whole text, if it does not end inside a name. -/
def finish? (l : LexState) : Option (List Token) :=
  match l.mode with
  | .name _ => none
  | _ => some l.settled

end LexState

/-- The names and marks of a text. -/
def lex (d : Dialect) (s : String) : Option (List Token) := (LexState.run d {} s.toList).finish?

namespace LexState

variable {d : Dialect} {l : LexState}

@[simp] lemma run_nil : run d l [] = l := rfl

@[simp] lemma run_cons (c : Char) (s : List Char) : run d l (c :: s) = run d (step d l c) s := rfl

lemma run_append (s t : List Char) : run d l (s ++ t) = run d (run d l s) t := by
  simp [run, List.foldl_append]

/-! ### Fixed words -/

lemma start_of_plain (tokens : List Token) {c : Char} (h : d.isPlain c = true) :
    start d tokens c = ⟨.outside, tokens⟩ := by
  simp only [Dialect.isPlain, Bool.and_eq_true, bne_iff_ne, Bool.not_eq_true'] at h
  simp [start, h.1.1, h.2]

/-- The lexer is between tokens, or has just read one. -/
def Ready (l : LexState) (word : Bool) : Prop :=
  match l.mode with
  | .outside => True
  | .name _ => False
  | .closing _ | .mark _ => word = true

lemma step_of_plain {word : Bool} {c : Char} (hl : l.Ready word) (h : d.isPlain c = true)
    (hc : word = true → c.isAlphanum = false) : step d l c = ⟨.outside, l.settled⟩ := by
  have hclose : c ≠ d.closeQuote := by
    simp only [Dialect.isPlain, Bool.and_eq_true, bne_iff_ne] at h
    exact h.1.2
  obtain ⟨mode, tokens⟩ := l
  cases mode with
  | outside => simp [step, settled, start_of_plain _ h]
  | name read => exact absurd hl (by simp [Ready])
  | closing read => simp [step, hclose, settled, start_of_plain _ h]
  | mark read =>
    have halnum : c.isAlphanum = false := hc hl
    have hgo : d.continuesMark c = false := by
      cases d <;> simp_all [Dialect.continuesMark, Char.isAlphanum]
    simp [step, hgo, settled, start_of_plain _ h]

lemma run_of_plain {s : List Char} : ∀ {tokens : List Token}, s.all d.isPlain = true →
    run d ⟨.outside, tokens⟩ s = ⟨.outside, tokens⟩ := by
  induction s with
  | nil => intro tokens _; rfl
  | cons c s ih =>
    intro tokens h
    rw [List.all_cons, Bool.and_eq_true] at h
    have hstep : step d ⟨.outside, tokens⟩ c = ⟨.outside, tokens⟩ := start_of_plain tokens h.1
    rw [run_cons, hstep, ih h.2]

/-! ### Names -/

lemma run_doubled (tokens : List Token) (s : List Char) : ∀ read : List Char,
    run d ⟨.name read, tokens⟩ (Text.doubled d.closeQuote s) = ⟨.name (read ++ s), tokens⟩ := by
  induction s with
  | nil => intro read; simp [Text.doubled]
  | cons c s ih =>
    intro read
    by_cases h : c = d.closeQuote
    · simp [Text.doubled, h, step, ih]
    · simp [Text.doubled, h, step, ih]

lemma run_quote (tokens : List Token) (s : String) :
    run d ⟨.outside, tokens⟩ (d.quote s).toList = ⟨.closing s.toList, tokens⟩ := by
  have hopen : step d ⟨.outside, tokens⟩ d.openQuote = ⟨.name [], tokens⟩ := by simp [step, start]
  have hname := run_doubled (d := d) tokens s.toList []
  rw [← hopen, ← run_cons] at hname
  rw [Dialect.quote, String.toList_ofList, run_append, hname]
  simp [step]

/-! ### Marks -/

lemma run_mark (tokens : List Token) {s : List Char} (h : s.all d.continuesMark = true) :
    ∀ read : List Char, run d ⟨.mark read, tokens⟩ s = ⟨.mark (read ++ s), tokens⟩ := by
  induction s with
  | nil => intro read; simp
  | cons c s ih =>
    intro read
    rw [List.all_cons, Bool.and_eq_true] at h
    simp [step, h.1, ih h.2]

lemma isDigit_of_mem_toString {n : Nat} {c : Char} (h : c ∈ (toString n).toList) :
    c.isDigit = true := by
  rw [Nat.toString_eq_repr, Nat.toList_repr] at h
  exact Nat.isDigit_of_mem_toDigits (by decide) (by decide) h

lemma run_placeholder (tokens : List Token) (i : Nat) :
    run d ⟨.outside, tokens⟩ (d.placeholder i).toList =
      ⟨.mark (d.placeholder i).toList, tokens⟩ := by
  have hdigits : ∀ c ∈ (toString (i + 1)).toList, c.isDigit = true :=
    fun c hc => isDigit_of_mem_toString hc
  cases d with
  | postgres =>
    have hall : (toString (i + 1)).toList.all (Dialect.continuesMark .postgres) = true :=
      List.all_eq_true.2 hdigits
    have hstart : step .postgres ⟨.outside, tokens⟩ '$' = ⟨.mark ['$'], tokens⟩ := rfl
    simp only [Dialect.placeholder, String.toList_append]
    exact (congrArg (run .postgres · (toString (i + 1)).toList) hstart).trans
      (run_mark tokens hall _)
  | sqlServer =>
    have hall : (toString (i + 1)).toList.all (Dialect.continuesMark .sqlServer) = true :=
      List.all_eq_true.2 fun c hc => by simp [Dialect.continuesMark, Char.isAlphanum, hdigits c hc]
    have hstart : run .sqlServer ⟨.outside, tokens⟩ ['@', 'P'] = ⟨.mark ['@', 'P'], tokens⟩ := rfl
    simp only [Dialect.placeholder, String.toList_append]
    exact (run_append _ _).trans ((congrArg (run .sqlServer · (toString (i + 1)).toList)
      hstart).trans (run_mark tokens hall _))
  | mySql => simp [Dialect.placeholder, step, start, Dialect.openQuote, Dialect.startsMark]
  | db2 => simp [Dialect.placeholder, step, start, Dialect.openQuote, Dialect.startsMark]

end LexState

/-! ### Pieces -/

/-- A text without quotes and marks. -/
def Plain (d : Dialect) (s : String) : Prop := s.toList.all d.isPlain = true

/-- A text that does not go on with a name or a mark that it follows. -/
def Parting (s : String) : Prop := s.toList.head?.all (fun c => !c.isAlphanum) = true

instance (d : Dialect) (s : String) : Decidable (Plain d s) := inferInstanceAs (Decidable (_ = _))

instance (s : String) : Decidable (Parting s) := inferInstanceAs (Decidable (_ = _))

namespace Piece

/-- Pieces whose fixed words are plain and whose names and values are followed by a separator, after
a name or value or after a separator. -/
def Spaced (d : Dialect) : Bool → List Piece → Prop
  | _, [] => True
  | word, .text s :: rest =>
    Plain d s ∧ (word = true → Parting s) ∧ Spaced d (word && s.isEmpty) rest
  | word, .name _ :: rest => word = false ∧ Spaced d true rest
  | word, .param _ :: rest => word = false ∧ Spaced d true rest
  | word, .typed _ :: rest => word = false ∧ Spaced d true rest
  | _, .endless :: _ => False

/-- The names of pieces and the marks of their values, after `index` bound values. -/
def tokens (d : Dialect) : Nat → List Piece → List Token
  | _, [] => []
  | index, .text _ :: rest => tokens d index rest
  | index, .name s :: rest => .name s :: tokens d index rest
  | index, .param _ :: rest => .mark (d.placeholder index) :: tokens d (index + 1) rest
  | index, .typed _ :: rest => .mark (d.placeholder index) :: tokens d (index + 1) rest
  | index, .endless :: rest => tokens d index rest

variable {d : Dialect}

lemma plain_sqlType {v : Value} (h : v.isNull = false) : Plain d (v.dataType.sqlType d none) := by
  cases v with
  | null => cases h
  | _ => cases d <;> simp only [Value.dataType] <;> decide +kernel

/-- A typed value reads as its mark. -/
lemma run_typed (tokens : List Token) (index : Nat) (v : Value) :
    ((LexState.run d ⟨.outside, tokens⟩ ((typed v).write d index).toList).Ready true) ∧
      (LexState.run d ⟨.outside, tokens⟩ ((typed v).write d index).toList).settled =
        tokens ++ [Token.mark (d.placeholder index)] := by
  have hbare : (LexState.run d ⟨.outside, tokens⟩ (d.placeholder index).toList).Ready true ∧
      (LexState.run d ⟨.outside, tokens⟩ (d.placeholder index).toList).settled =
        tokens ++ [Token.mark (d.placeholder index)] := by
    rw [LexState.run_placeholder]
    simp [LexState.Ready, LexState.settled]
  by_cases h : d.typesParameters && !v.isNull
  · rw [write, if_pos h]
    rw [Bool.and_eq_true, Bool.not_eq_true'] at h
    have hplain : Plain d (v.dataType.sqlType d none) := plain_sqlType h.2
    obtain ⟨before, after, hcast, hbefore, hafter, hparting⟩ : ∃ before after : List Char,
        (d.cast (d.placeholder index) v.dataType).toList =
          before ++ ((d.placeholder index).toList ++ (after ++ (v.dataType.sqlType d none).toList ++
            if d = .postgres then [] else [')'])) ∧ before.all d.isPlain = true ∧
          after.all d.isPlain = true ∧ ∃ c rest, after = c :: rest ∧ c.isAlphanum = false := by
      cases d with
      | postgres => exact ⟨[], [':', ':'], by simp [Dialect.cast], by decide, by decide, _, _, rfl,
          by decide⟩
      | db2 => exact ⟨"CAST(".toList, " AS ".toList, by simp [Dialect.cast], by decide, by decide,
          ' ', "AS ".toList, by simp, by decide⟩
      | mySql | sqlServer => cases h.1
    obtain ⟨c, rest, rfl, hc⟩ := hparting
    rw [List.all_cons, Bool.and_eq_true] at hafter
    have hclose : (if d = .postgres then [] else [')']).all d.isPlain = true := by
      cases d <;> decide
    have hlast : (rest ++ (v.dataType.sqlType d none).toList ++
        if d = .postgres then [] else [')']).all d.isPlain = true := by
      rw [List.all_append, List.all_append, hafter.2, hplain, hclose]
      rfl
    rw [hcast, LexState.run_append, LexState.run_of_plain hbefore, LexState.run_append,
      List.cons_append, List.cons_append, LexState.run_cons,
      LexState.step_of_plain hbare.1 hafter.1 fun _ => hc, hbare.2, LexState.run_of_plain hlast]
    simp [LexState.Ready, LexState.settled]
  · rw [write, if_neg h]
    exact hbare

/-- **The tokens of written pieces are the names and marks of the pieces.** -/
theorem run_texts : ∀ (ps : List Piece) (index : Nat) (word : Bool) (l : LexState),
    l.Ready word → Spaced d word ps →
    (LexState.run d l ((texts d index ps).flatMap String.toList)).Ready true ∧
      (LexState.run d l ((texts d index ps).flatMap String.toList)).settled =
        l.settled ++ tokens d index ps := by
  intro ps
  induction ps with
  | nil =>
    intro index word l hl _
    refine ⟨?_, by simp [texts, tokens]⟩
    obtain ⟨mode, toks⟩ := l
    cases mode <;> simp_all [texts, LexState.Ready]
  | cons p ps ih =>
    intro index word l hl hps
    rw [texts, List.flatMap_cons, LexState.run_append]
    cases p with
    | text s =>
      obtain ⟨hplain, hparting, hrest⟩ := hps
      simp only [write, value?, Option.isSome_none, Bool.false_eq_true, if_false, tokens]
      cases hs : s.toList with
      | nil =>
        have hempty : s.isEmpty = true := by simp [← String.toList_eq_nil_iff, hs]
        rw [hempty, Bool.and_true] at hrest
        exact ih index word l hl hrest
      | cons c cs =>
        rw [Plain, hs, List.all_cons, Bool.and_eq_true] at hplain
        have hc : word = true → c.isAlphanum = false := fun h => by
          simpa [Parting, hs] using hparting h
        have hempty : s.isEmpty = false := by
          rw [← Bool.not_eq_true, String.isEmpty_iff, ← String.toList_eq_nil_iff, hs]
          simp
        rw [hempty, Bool.and_false] at hrest
        rw [LexState.run_cons, LexState.step_of_plain hl hplain.1 hc,
          LexState.run_of_plain hplain.2]
        exact ih index false ⟨.outside, l.settled⟩ trivial hrest
    | name s =>
      obtain ⟨rfl, hrest⟩ := hps
      obtain ⟨mode, toks⟩ := l
      cases mode with
      | outside =>
        have := ih index true ⟨.closing s.toList, toks⟩ rfl hrest
        simpa [write, value?, LexState.run_quote, LexState.settled, tokens] using this
      | name read => exact absurd hl (by simp [LexState.Ready])
      | closing read | mark read => cases hl
    | param v =>
      obtain ⟨rfl, hrest⟩ := hps
      obtain ⟨mode, toks⟩ := l
      cases mode with
      | outside =>
        have := ih (index + 1) true ⟨.mark (d.placeholder index).toList, toks⟩ rfl hrest
        simpa [write, value?, LexState.run_placeholder, LexState.settled, tokens] using this
      | name read => exact absurd hl (by simp [LexState.Ready])
      | closing read | mark read => cases hl
    | typed v =>
      obtain ⟨rfl, hrest⟩ := hps
      obtain ⟨mode, toks⟩ := l
      cases mode with
      | outside =>
        obtain ⟨hready, hsettled⟩ := run_typed (d := d) toks index v
        have hnext := ih (index + 1) true _ hready hrest
        rw [hsettled, List.append_assoc] at hnext
        exact hnext
      | name read => exact absurd hl (by simp [LexState.Ready])
      | closing read | mark read => cases hl
    | endless => exact absurd hps (by simp [Spaced])

/-- **A written text reads back as the names and marks that were written.** -/
theorem lex_sql {ps : List Piece} (h : Spaced d false ps) :
    lex d (sql d ps) = some (tokens d 0 ps) := by
  obtain ⟨hready, hsettled⟩ := run_texts ps 0 false {} trivial h
  have hrun : (sql d ps).toList = (texts d 0 ps).flatMap String.toList := by simp [sql]
  rw [lex, hrun, LexState.finish?]
  split
  · next hmode => rw [LexState.Ready, hmode] at hready; cases hready
  · rw [hsettled]; rfl

/-- The marks of pieces are those of their values in order. -/
lemma marks_tokens : ∀ (ps : List Piece) (index : Nat), (tokens d index ps).filterMap Token.mark? =
    (List.range' index (params ps).length).map d.placeholder := by
  intro ps
  induction ps with
  | nil => intro index; rfl
  | cons p ps ih =>
    intro index
    cases p <;> simp only [tokens, params, List.filterMap_cons, value?, Token.mark?] <;>
      simpa [params, List.range'_succ] using ih _

end Piece

end Sql

end EntityQuery
