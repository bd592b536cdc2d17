import EntityQuery.Proofs.Sql.Lexer
import Mathlib.Data.List.Basic
import Mathlib.Data.Nat.PSub
import Mathlib.Tactic.SplitIfs

/-!
The whole text of a statement as lexemes: quoted names, marks, words and signs.

* `scan` goes through a text from left to right. A quoted name ends as in `lex`; a word goes on with
  letters, digits and underlines, an operator with operator characters.
* `bound` puts values in place of marks: a numbered mark says which one, the others are counted.
* Dialects differ in names and marks only: a text of words and signs has the same lexemes in each.
* `scan_sql`: written pieces are scanned one by one, if every name, mark and open word is followed
  by a character that ends it (`Parted`).
-/

namespace EntityQuery

/-- The position of the parameter that a mark stands for, after `before` marks. -/
def Dialect.position? (d : Dialect) (mark : String) (before : Nat) : Option Nat :=
  match d with
  | .postgres => (Nat.ofDigitChars 10 (mark.toList.drop 1) 0).ppred
  | .sqlServer => (Nat.ofDigitChars 10 (mark.toList.drop 2) 0).ppred
  | .mySql | .db2 => some before

lemma Dialect.position?_placeholder (d : Dialect) (i : Nat) :
    d.position? (d.placeholder i) i = some i := by
  have hdigits : Nat.ofDigitChars 10 (toString (i + 1)).toList 0 = i + 1 := by
    rw [Nat.toString_eq_repr, Nat.toList_repr]
    exact Nat.ofDigitChars_toDigits (by decide) (by decide)
  cases d with
  | postgres =>
    have hmark : (Dialect.postgres.placeholder i).toList.drop 1 = (toString (i + 1)).toList := by
      simp [placeholder]
    rw [position?, hmark, hdigits]
    rfl
  | sqlServer =>
    have hmark : (Dialect.sqlServer.placeholder i).toList.drop 2 = (toString (i + 1)).toList := by
      simp [placeholder]
    rw [position?, hmark, hdigits]
    rfl
  | mySql | db2 => rfl

namespace Sql

/-! ### Lexemes -/

/-- A part of a text; a mark comes with what it stands for. -/
inductive Lexeme (μ : Type) where
  /-- A quoted name, without its quotes. -/
  | name (s : String)
  | mark (m : μ)
  /-- A word that is not quoted, or a number. -/
  | word (s : String)
  | sign (s : String)
  deriving DecidableEq, Repr

/-- A lexeme that is not a mark. -/
def Lexeme.unmarked? {μ ν : Type} : Lexeme μ → Option (Lexeme ν)
  | .name s => some (.name s)
  | .mark _ => none
  | .word s => some (.word s)
  | .sign s => some (.sign s)

/-- Lexemes with parameters in place of marks, after `before` marks. -/
def bound (d : Dialect) (params : List Value) :
    Nat → List (Lexeme String) → Option (List (Lexeme Value))
  | _, [] => some []
  | before, .mark m :: rest => do
    let v ← params[(← d.position? m before)]?
    return .mark v :: (← bound d params (before + 1) rest)
  | before, .name s :: rest => (bound d params before rest).map (.name s :: ·)
  | before, .word s :: rest => (bound d params before rest).map (.word s :: ·)
  | before, .sign s :: rest => (bound d params before rest).map (.sign s :: ·)

/-- The characters of words and numbers. -/
def isWordChar (c : Char) : Bool := c.isAlphanum || c == '_'

/-- The characters of operators. -/
def isOperatorChar (c : Char) : Bool := "=<>|+-*/:".toList.contains c

/-- The characters that end every name, mark, word and operator before them. -/
def isBreak (c : Char) : Bool := " (),.".toList.contains c

/-! ### The scanner -/

/-- What the scanner is reading. -/
inductive ScanMode where
  | between
  | name (read : List Char)
  /-- After a closing quote, which ends the name unless another one follows. -/
  | closing (read : List Char)
  | mark (read : List Char)
  | word (read : List Char)
  | sign (read : List Char)
  deriving DecidableEq

namespace ScanMode

/-- The lexeme that is complete if the text ends here. -/
def lexeme? : ScanMode → Option (Lexeme String)
  | .between | .name _ => none
  | .closing read => some (.name (String.ofList read))
  | .mark read => some (.mark (String.ofList read))
  | .word read => some (.word (String.ofList read))
  | .sign read => some (.sign (String.ofList read))

/-- Whether the text may end here. -/
def isOutside : ScanMode → Bool
  | .name _ => false
  | _ => true

/-- The mode after one more character of the same lexeme. -/
def extended? (d : Dialect) (c : Char) : ScanMode → Option ScanMode
  | .between => none
  | .name read => some (if c = d.closeQuote then .closing read else .name (read ++ [c]))
  | .closing read => if c = d.closeQuote then some (.name (read ++ [c])) else none
  | .mark read => if d.continuesMark c then some (.mark (read ++ [c])) else none
  | .word read => if isWordChar c then some (.word (read ++ [c])) else none
  | .sign read => if isOperatorChar c then some (.sign (read ++ [c])) else none

end ScanMode

structure ScanState where
  mode : ScanMode := .between
  lexemes : List (Lexeme String) := []
  deriving DecidableEq

namespace ScanState

/-- The lexemes read so far, with the one that may end here. -/
def settled (l : ScanState) : List (Lexeme String) := l.lexemes ++ l.mode.lexeme?.toList

/-- Reads a character that starts a lexeme or stands between two of them. -/
def start (d : Dialect) (lexemes : List (Lexeme String)) (c : Char) : ScanState :=
  if c = d.openQuote then ⟨.name [], lexemes⟩
  else if d.startsMark c then ⟨.mark [c], lexemes⟩
  else if isWordChar c then ⟨.word [c], lexemes⟩
  else if isOperatorChar c then ⟨.sign [c], lexemes⟩
  else if c = ' ' then ⟨.between, lexemes⟩
  else ⟨.between, lexemes ++ [.sign (String.singleton c)]⟩

/-- Reads a character. -/
def step (d : Dialect) (l : ScanState) (c : Char) : ScanState :=
  match l.mode.extended? d c with
  | some m => { l with mode := m }
  | none => start d l.settled c

/-- Reads a text. -/
def run (d : Dialect) (l : ScanState) (s : List Char) : ScanState := s.foldl (step d) l

end ScanState

/-- The lexemes of a text, if it does not end inside a name. -/
def scan (d : Dialect) (s : String) : Option (List (Lexeme String)) :=
  let l := ScanState.run d {} s.toList
  if l.mode.isOutside then some l.settled else none

namespace ScanState

variable {d : Dialect}

@[simp] lemma run_nil (l : ScanState) : run d l [] = l := rfl

@[simp] lemma run_cons (l : ScanState) (c : Char) (s : List Char) :
    run d l (c :: s) = run d (step d l c) s := rfl

lemma run_append (l : ScanState) (s t : List Char) : run d l (s ++ t) = run d (run d l s) t := by
  simp [run, List.foldl_append]

/-- A state after more lexemes. -/
def behind (earlier : List (Lexeme String)) (l : ScanState) : ScanState :=
  { l with lexemes := earlier ++ l.lexemes }

@[simp] lemma settled_behind (earlier : List (Lexeme String)) (l : ScanState) :
    (l.behind earlier).settled = earlier ++ l.settled := by
  simp [settled, behind]

lemma start_behind (earlier later : List (Lexeme String)) (c : Char) :
    start d (earlier ++ later) c = (start d later c).behind earlier := by
  simp only [start, behind]
  split_ifs <;> simp

lemma step_behind (earlier : List (Lexeme String)) (l : ScanState) (c : Char) :
    step d (l.behind earlier) c = (step d l c).behind earlier := by
  have hmode : (l.behind earlier).mode = l.mode := rfl
  rw [step, step, hmode, settled_behind]
  cases l.mode.extended? d c with
  | none => exact start_behind _ _ c
  | some m => rfl

/-- What a text adds does not depend on what was read before. -/
lemma run_behind (earlier : List (Lexeme String)) (s : List Char) : ∀ l : ScanState,
    run d (l.behind earlier) s = (run d l s).behind earlier := by
  induction s with
  | nil => intro l; rfl
  | cons c s ih => intro l; rw [run_cons, run_cons, step_behind, ih]

/-- After the end of a lexeme, the scanner goes on as between lexemes. -/
lemma run_of_end {l : ScanState} {c : Char} (h : l.mode.extended? d c = none) (s : List Char) :
    run d l (c :: s) = (run d {} (c :: s)).behind l.settled := by
  have hbegin : ({} : ScanState).behind l.settled = ⟨.between, l.settled⟩ := by simp [behind]
  have hstep : step d l c = step d ⟨.between, l.settled⟩ c := by
    rw [step, h]
    simp [step, ScanMode.extended?, settled, ScanMode.lexeme?]
  rw [run_cons, hstep, ← run_cons, ← hbegin, run_behind]

lemma extended?_of_isBreak {m : ScanMode} {c : Char} (hm : m.isOutside = true)
    (hc : isBreak c = true) : m.extended? d c = none := by
  have hchars : c = ' ' ∨ c = '(' ∨ c = ')' ∨ c = ',' ∨ c = '.' := by
    simpa [isBreak] using hc
  have hclose : c ≠ d.closeQuote := by
    rcases hchars with rfl | rfl | rfl | rfl | rfl <;> cases d <;> decide
  have hmark : d.continuesMark c = false := by
    rcases hchars with rfl | rfl | rfl | rfl | rfl <;> cases d <;> decide
  have hword : isWordChar c = false := by
    rcases hchars with rfl | rfl | rfl | rfl | rfl <;> decide
  have hsign : isOperatorChar c = false := by
    rcases hchars with rfl | rfl | rfl | rfl | rfl <;> decide
  cases m with
  | name read => cases hm
  | _ => simp [ScanMode.extended?, hclose, hmark, hword, hsign]

/-! ### Names and marks -/

lemma run_doubled (lexemes : List (Lexeme String)) (s : List Char) : ∀ read : List Char,
    run d ⟨.name read, lexemes⟩ (Text.doubled d.closeQuote s) = ⟨.name (read ++ s), lexemes⟩ := by
  induction s with
  | nil => intro read; simp [Text.doubled]
  | cons c s ih =>
    intro read
    by_cases h : c = d.closeQuote
    · simp [Text.doubled, h, step, ScanMode.extended?, ih]
    · simp [Text.doubled, h, step, ScanMode.extended?, ih]

lemma run_quote (lexemes : List (Lexeme String)) (s : String) :
    run d ⟨.between, lexemes⟩ (d.quote s).toList = ⟨.closing s.toList, lexemes⟩ := by
  have hopen : step d ⟨.between, lexemes⟩ d.openQuote = ⟨.name [], lexemes⟩ := by
    simp [step, ScanMode.extended?, start, settled, ScanMode.lexeme?]
  have hname := run_doubled (d := d) lexemes s.toList []
  rw [← hopen, ← run_cons] at hname
  rw [Dialect.quote, String.toList_ofList, run_append, hname]
  simp [step, ScanMode.extended?]

lemma run_mark (lexemes : List (Lexeme String)) {s : List Char}
    (h : ∀ c ∈ s, d.continuesMark c = true) : ∀ read : List Char,
    run d ⟨.mark read, lexemes⟩ s = ⟨.mark (read ++ s), lexemes⟩ := by
  induction s with
  | nil => intro read; simp
  | cons c s ih =>
    intro read
    have hc : step d ⟨.mark read, lexemes⟩ c = ⟨.mark (read ++ [c]), lexemes⟩ := by
      simp [step, ScanMode.extended?, h c (by simp)]
    rw [run_cons, hc, ih fun x hx => h x (List.mem_cons_of_mem _ hx), List.append_assoc]
    rfl

lemma run_placeholder (lexemes : List (Lexeme String)) (i : Nat) :
    run d ⟨.between, lexemes⟩ (d.placeholder i).toList =
      ⟨.mark (d.placeholder i).toList, lexemes⟩ := by
  have hdigits : ∀ c ∈ (toString (i + 1)).toList, c.isDigit = true :=
    fun c hc => LexState.isDigit_of_mem_toString hc
  cases d with
  | postgres =>
    have hstart : step .postgres ⟨.between, lexemes⟩ '$' = ⟨.mark ['$'], lexemes⟩ := by
      simp [step, ScanMode.extended?, start, settled, ScanMode.lexeme?, Dialect.openQuote,
        Dialect.startsMark]
    have hrun := run_mark (d := .postgres) lexemes hdigits ['$']
    rw [← hstart] at hrun
    simpa [Dialect.placeholder] using hrun
  | sqlServer =>
    have hstart : run .sqlServer ⟨.between, lexemes⟩ ['@', 'P'] = ⟨.mark ['@', 'P'], lexemes⟩ := by
      have hletter : Dialect.continuesMark .sqlServer 'P' = true := by decide
      simp [step, ScanMode.extended?, start, settled, ScanMode.lexeme?, Dialect.openQuote,
        Dialect.startsMark, hletter]
    have hall : ∀ c ∈ (toString (i + 1)).toList, Dialect.continuesMark .sqlServer c = true :=
      fun c hc => by simp [Dialect.continuesMark, Char.isAlphanum, hdigits c hc]
    have hrun := run_mark (d := .sqlServer) lexemes hall ['@', 'P']
    rw [← hstart, ← run_append] at hrun
    simpa [Dialect.placeholder] using hrun
  | mySql | db2 =>
    simp [Dialect.placeholder, step, ScanMode.extended?, start, settled, ScanMode.lexeme?,
      Dialect.openQuote, Dialect.startsMark]

end ScanState

/-! ### Pieces -/

/-- The state after a fixed text at the beginning. -/
def scanned (d : Dialect) (s : String) : ScanState := .run d {} s.toList

/-- The lexemes of a fixed text, which has no marks. -/
def fixedLexemes {μ : Type} (d : Dialect) (s : String) : List (Lexeme μ) :=
  (scanned d s).settled.filterMap Lexeme.unmarked?

/-- A fixed text that can be scanned alone: it has no marks and does not end inside a name. -/
def IsFixed (d : Dialect) (s : String) : Prop :=
  (scanned d s).mode.isOutside = true ∧ (scanned d s).settled = fixedLexemes d s

instance (d : Dialect) (s : String) : Decidable (IsFixed d s) := inferInstanceAs (Decidable (_ ∧ _))

/-! ### Words and signs -/

/-- The characters of words, numbers and operators, and those that end them: no dialect starts a name
or a mark with one of these. -/
def isCommon (c : Char) : Bool := isWordChar c || (isOperatorChar c || isBreak c)

lemma isPlain_of_isCommon (d : Dialect) {c : Char} (hc : isCommon c = true) :
    d.isPlain c = true := by
  have hother : ([d.openQuote, d.closeQuote, '$', '@', '?'].all fun x => !isCommon x) = true := by
    cases d <;> rfl
  have hne : ∀ x ∈ [d.openQuote, d.closeQuote, '$', '@', '?'], c ≠ x := by
    rintro x hx rfl
    simpa [hc] using List.all_eq_true.1 hother c hx
  have hmark : d.startsMark c = false := by
    cases d <;> simp [Dialect.startsMark, hne]
  simp [Dialect.isPlain, hmark, hne]

lemma isCommon_of_isBreak {c : Char} (hc : isBreak c = true) : isCommon c = true := by
  simp [isCommon, hc]

/-- Whether no name and no mark is being read. -/
def ScanMode.isCommon : ScanMode → Bool
  | .between | .word _ | .sign _ => true
  | .name _ | .closing _ | .mark _ => false

namespace ScanState

/-- Only words and signs have been read. -/
structure Common (l : ScanState) : Prop where
  mode : l.mode.isCommon = true
  lexemes : ∀ x ∈ l.lexemes, x.unmarked? = some x

variable {d e : Dialect} {l : ScanState} {c : Char}

lemma Common.isOutside (hl : l.Common) : l.mode.isOutside = true := by
  have hmode := hl.mode
  cases h : l.mode <;> simp_all [ScanMode.isCommon, ScanMode.isOutside]

lemma Common.settled (hl : l.Common) : ∀ x ∈ l.settled, x.unmarked? = some x := by
  intro x hx
  rcases List.mem_append.1 hx with hx | hx
  · exact hl.lexemes x hx
  · have hmode := hl.mode
    cases h : l.mode with
    | between => simp [h, ScanMode.lexeme?] at hx
    | word read | sign read =>
      rw [h] at hx
      rw [List.mem_singleton.1 hx]
      rfl
    | name read | closing read | mark read => simp [h, ScanMode.isCommon] at hmode

lemma start_of_isCommon (hc : isCommon c = true) (lexemes : List (Lexeme String)) :
    start d lexemes c =
      if isWordChar c then ⟨.word [c], lexemes⟩
      else if isOperatorChar c then ⟨.sign [c], lexemes⟩
      else if c = ' ' then ⟨.between, lexemes⟩
      else ⟨.between, lexemes ++ [Lexeme.sign (String.singleton c)]⟩ := by
  obtain ⟨⟨hopen, -⟩, hmark⟩ : (c ≠ d.openQuote ∧ c ≠ d.closeQuote) ∧ d.startsMark c = false := by
    simpa [Dialect.isPlain] using isPlain_of_isCommon d hc
  rw [start, if_neg hopen, hmark, if_neg Bool.false_ne_true]

lemma Common.start (hl : l.Common) (hc : isCommon c = true) :
    (start d l.settled c).Common := by
  rw [start_of_isCommon hc]
  split_ifs
  · exact ⟨rfl, hl.settled⟩
  · exact ⟨rfl, hl.settled⟩
  · exact ⟨rfl, hl.settled⟩
  · refine ⟨rfl, fun x hx => ?_⟩
    rcases List.mem_append.1 hx with hx | hx
    · exact hl.settled x hx
    · rw [List.mem_singleton.1 hx]
      rfl

/-- Outside names and marks, dialects go on with a lexeme in the same way. -/
lemma Common.extended?_eq (hl : l.Common) :
    l.mode.extended? d c = l.mode.extended? e c ∧
      ∀ m ∈ l.mode.extended? d c, m.isCommon = true := by
  have hmode := hl.mode
  cases h : l.mode with
  | between => simp [ScanMode.extended?]
  | word read => simp [ScanMode.extended?, ScanMode.isCommon]
  | sign read => simp [ScanMode.extended?, ScanMode.isCommon]
  | name read | closing read | mark read => simp [h, ScanMode.isCommon] at hmode

lemma Common.step (hl : l.Common) (hc : isCommon c = true) :
    step d l c = step e l c ∧ (step d l c).Common := by
  obtain ⟨hsame, hcommon⟩ := hl.extended?_eq (d := d) (e := e) (c := c)
  unfold ScanState.step
  rw [← hsame]
  cases hm : l.mode.extended? d c with
  | none =>
    refine ⟨?_, hl.start hc⟩
    rw [start_of_isCommon hc, start_of_isCommon hc]
  | some m => exact ⟨rfl, hcommon m hm, hl.lexemes⟩

/-- **Words and signs are read alike in every dialect.** -/
lemma Common.run {s : List Char} (hs : ∀ c ∈ s, isCommon c = true) (hl : l.Common) :
    run d l s = run e l s ∧ (run d l s).Common := by
  induction s generalizing l with
  | nil => exact ⟨rfl, hl⟩
  | cons c s ih =>
    obtain ⟨hstep, hnext⟩ := hl.step (d := d) (e := e) (hs c List.mem_cons_self)
    rw [run_cons, run_cons, ← hstep]
    exact ih (fun x hx => hs x (List.mem_cons_of_mem _ hx)) hnext

/-- A break is no part of a word. -/
lemma mode_step_of_isBreak (hl : l.Common) (hc : isBreak c = true) :
    (step d l c).mode = .between := by
  have hword : isWordChar c = false ∧ isOperatorChar c = false := by
    have hchars : c = ' ' ∨ c = '(' ∨ c = ')' ∨ c = ',' ∨ c = '.' := by
      simpa [isBreak] using hc
    rcases hchars with rfl | rfl | rfl | rfl | rfl <;> decide
  rw [step, extended?_of_isBreak hl.isOutside hc]
  dsimp only
  rw [start_of_isCommon (isCommon_of_isBreak hc), hword.1, hword.2]
  split_ifs <;> simp_all

end ScanState

section Common

variable {s : String} (hs : s.toList.all isCommon = true)
include hs

lemma common_scanned (d e : Dialect) : scanned d s = scanned e s ∧ (scanned d s).Common :=
  ScanState.Common.run (List.all_eq_true.1 hs) ⟨rfl, by simp⟩

/-- A text of words and signs is fixed, whatever the dialect. -/
lemma isFixed_of_isCommon (d : Dialect) : IsFixed d s := by
  have hscanned := (common_scanned hs d d).2
  refine ⟨hscanned.isOutside, ?_⟩
  rw [fixedLexemes, List.filterMap_congr hscanned.settled, List.filterMap_some]

lemma fixedLexemes_of_isCommon {μ : Type} (d e : Dialect) :
    (fixedLexemes d s : List (Lexeme μ)) = fixedLexemes e s := by
  rw [fixedLexemes, (common_scanned hs d e).1, fixedLexemes]

/-- After a break, no lexeme is being read. -/
lemma mode_scanned_of_isBreak (hlast : s.toList.getLast?.any isBreak = true) (d : Dialect) :
    (scanned d s).mode = .between := by
  obtain ⟨c, hc, hbreak⟩ := (Option.any_eq_true _ _).1 hlast
  obtain ⟨before, hbefore⟩ := List.getLast?_eq_some_iff.1 hc
  have hall : ∀ x ∈ before, isCommon x = true := fun x hx =>
    List.all_eq_true.1 hs x (by simp [hbefore, hx])
  rw [scanned, hbefore, ScanState.run_append]
  exact ScanState.mode_step_of_isBreak (ScanState.Common.run (e := d) hall ⟨rfl, by simp⟩).2 hbreak

end Common

namespace Piece

/-- The marks before and after the mark of a typed value. -/
def castMarks (d : Dialect) (v : Value) : String × String :=
  match d with
  | .postgres => if v.isNull then ("", "") else ("", "::" ++ v.dataType.sqlType .postgres none)
  | .db2 => if v.isNull then ("", "") else ("CAST(", " AS " ++ v.dataType.sqlType .db2 none ++ ")")
  | .mySql | .sqlServer => ("", "")

/-- The lexemes of pieces, with what `f` says about the position and value of a mark. -/
def lexemes {μ : Type} (d : Dialect) (f : Nat → Value → μ) : Nat → List Piece → List (Lexeme μ)
  | _, [] => []
  | index, .text s :: rest => fixedLexemes d s ++ lexemes d f index rest
  | index, .name s :: rest => .name s :: lexemes d f index rest
  | index, .param v :: rest => .mark (f index v) :: lexemes d f (index + 1) rest
  | index, .typed v :: rest =>
    fixedLexemes d (castMarks d v).1 ++ .mark (f index v) :: fixedLexemes d (castMarks d v).2 ++
      lexemes d f (index + 1) rest
  | index, .endless :: rest => lexemes d f index rest

/-- Pieces that can be scanned one by one, after a lexeme that may go on or after the end of one. -/
def Parted (d : Dialect) : Bool → List Piece → Prop
  | _, [] => True
  | pending, .text s :: rest =>
    IsFixed d s ∧ (pending = true → s.toList.head?.any isBreak = true) ∧
      Parted d (decide ((scanned d s).mode ≠ .between)) rest
  | pending, .name _ :: rest => pending = false ∧ Parted d true rest
  | pending, .param _ :: rest => pending = false ∧ Parted d true rest
  | pending, .typed _ :: rest => pending = false ∧ Parted d true rest
  | _, .endless :: _ => False

variable {d : Dialect}

lemma write_typed (v : Value) (i : Nat) : (typed v).write d i =
    (castMarks d v).1 ++ d.placeholder i ++ (castMarks d v).2 := by
  cases d <;> cases h : v.isNull <;>
    simp [write, castMarks, Dialect.typesParameters, Dialect.cast, h, String.append_assoc]

/-- What stands around a typed mark is fixed, and does not go on with the mark. -/
lemma isFixed_castMarks (d : Dialect) (v : Value) : IsFixed d (castMarks d v).1 ∧
    (scanned d (castMarks d v).1).mode = .between ∧ IsFixed d (castMarks d v).2 ∧
      (castMarks d v).2.toList.head?.all (fun c => !d.continuesMark c) = true := by
  cases d <;> cases v <;>
    simp only [castMarks, Value.isNull, Value.dataType, Bool.false_eq_true, if_true, if_false] <;>
    decide +kernel

/-! ### Scanning pieces -/

/-- A fixed text is scanned in its place as it is alone. -/
lemma run_fixed {l : ScanState} {s : String}
    (h : l.mode = .between ∨ ∃ c rest, s.toList = c :: rest ∧ l.mode.extended? d c = none) :
    ScanState.run d l s.toList = (scanned d s).behind l.settled := by
  rcases h with hbetween | ⟨c, rest, hs, hend⟩
  · have hl : l = ({} : ScanState).behind l.settled := by
      obtain ⟨mode, lexemes⟩ := l
      subst hbetween
      simp [ScanState.behind, ScanState.settled, ScanMode.lexeme?]
    have hrun := ScanState.run_behind (d := d) l.settled s.toList {}
    rw [← hl] at hrun
    exact hrun
  · rw [scanned, hs]
    exact ScanState.run_of_end hend rest

/-- A typed value is scanned as its mark between fixed texts. -/
lemma scan_typed (earlier : List (Lexeme String)) (i : Nat) (v : Value) :
    (ScanState.run d ⟨.between, earlier⟩ ((typed v).write d i).toList).mode.isOutside = true ∧
      (ScanState.run d ⟨.between, earlier⟩ ((typed v).write d i).toList).settled =
        earlier ++ (fixedLexemes d (castMarks d v).1 ++ .mark (d.placeholder i) ::
          fixedLexemes d (castMarks d v).2) := by
  obtain ⟨hbefore, hbetween, hafter, hhead⟩ := isFixed_castMarks d v
  have hstart : ScanState.run d ⟨.between, earlier⟩ (castMarks d v).1.toList =
      ⟨.between, earlier ++ fixedLexemes d (castMarks d v).1⟩ := by
    have hsettled := hbefore.2
    rw [ScanState.settled, hbetween] at hsettled
    simp only [ScanMode.lexeme?, Option.toList_none, List.append_nil] at hsettled
    rw [run_fixed (.inl rfl)]
    simp [ScanState.behind, ScanState.settled, ScanMode.lexeme?, hbetween, hsettled]
  rw [write_typed, String.toList_append, String.toList_append, ScanState.run_append,
    ScanState.run_append, hstart, ScanState.run_placeholder]
  cases hs : (castMarks d v).2.toList with
  | nil =>
    have hempty : (castMarks d v).2 = "" := String.toList_eq_nil_iff.1 hs
    simp [hempty, fixedLexemes, scanned, ScanState.settled, ScanMode.lexeme?, ScanMode.isOutside]
  | cons c rest =>
    have hc : d.continuesMark c = false := by simpa [hs] using hhead
    rw [← hs, run_fixed (.inr ⟨c, rest, hs, by simp [ScanMode.extended?, hc]⟩)]
    refine ⟨hafter.1, ?_⟩
    rw [ScanState.settled_behind, hafter.2]
    simp [ScanState.settled, ScanMode.lexeme?]

/-- **The lexemes of written pieces are those of the pieces.** -/
theorem scan_texts : ∀ (ps : List Piece) (index : Nat) (pending : Bool) (l : ScanState),
    l.mode.isOutside = true → (pending = false → l.mode = .between) → Parted d pending ps →
    (ScanState.run d l ((texts d index ps).flatMap String.toList)).mode.isOutside = true ∧
      (ScanState.run d l ((texts d index ps).flatMap String.toList)).settled =
        l.settled ++ lexemes d (fun i _ => d.placeholder i) index ps := by
  intro ps
  induction ps with
  | nil => intro index pending l hl _ _; simpa [texts, lexemes] using hl
  | cons p ps ih =>
    intro index pending l hl hpending hps
    rw [texts, List.flatMap_cons, ScanState.run_append]
    cases p with
    | text s =>
      obtain ⟨hfixed, hbreak, hrest⟩ := hps
      have hrun : ScanState.run d l s.toList = (scanned d s).behind l.settled := by
        refine run_fixed ?_
        cases pending with
        | false => exact .inl (hpending rfl)
        | true =>
          have hhead := hbreak rfl
          cases hs : s.toList with
          | nil => simp [hs] at hhead
          | cons c rest =>
            rw [hs] at hhead
            exact .inr ⟨c, rest, rfl, ScanState.extended?_of_isBreak hl (by simpa using hhead)⟩
      have hnext := ih index _ ((scanned d s).behind l.settled) hfixed.1
        (fun h => of_decide_eq_false h |> not_not.1) hrest
      rw [ScanState.settled_behind, hfixed.2, List.append_assoc] at hnext
      simp only [write, value?, Option.isSome_none, Bool.false_eq_true, if_false, hrun, lexemes]
      exact hnext
    | name s =>
      obtain ⟨rfl, hrest⟩ := hps
      obtain ⟨mode, earlier⟩ := l
      obtain rfl : mode = .between := hpending rfl
      have hnext := ih index true ⟨.closing s.toList, earlier⟩ rfl (by simp) hrest
      simpa [write, value?, ScanState.run_quote, ScanState.settled, ScanMode.lexeme?, lexemes]
        using hnext
    | param v =>
      obtain ⟨rfl, hrest⟩ := hps
      obtain ⟨mode, earlier⟩ := l
      obtain rfl : mode = .between := hpending rfl
      have hnext := ih (index + 1) true ⟨.mark (d.placeholder index).toList, earlier⟩ rfl (by simp)
        hrest
      simpa [write, value?, ScanState.run_placeholder, ScanState.settled, ScanMode.lexeme?, lexemes]
        using hnext
    | typed v =>
      obtain ⟨rfl, hrest⟩ := hps
      obtain ⟨mode, earlier⟩ := l
      obtain rfl : mode = .between := hpending rfl
      obtain ⟨houtside, hsettled⟩ := scan_typed (d := d) earlier index v
      have hnext := ih (index + 1) true _ houtside (by simp) hrest
      rw [hsettled] at hnext
      simpa [value?, ScanState.settled, ScanMode.lexeme?, lexemes, List.append_assoc] using hnext
    | endless => exact absurd hps (by simp [Parted])

/-! ### Values in place of marks -/

/-- Lexemes that are no marks stay as they are. -/
lemma bound_unmarked {params : List Value} {index : Nat} (rest : List (Lexeme String)) :
    ∀ ls : List (Lexeme String), bound d params index (ls.filterMap Lexeme.unmarked? ++ rest) =
      (bound d params index rest).map (ls.filterMap Lexeme.unmarked? ++ ·) := by
  intro ls
  induction ls with
  | nil => simp
  | cons x ls ih =>
    cases x with
    | mark m => exact ih
    | name s | word s | sign s =>
      simp only [List.filterMap_cons, Lexeme.unmarked?, List.cons_append, bound, ih, Option.map_map]
      rfl

/-- The values of pieces take the places of their marks. -/
lemma bound_lexemes : ∀ (ps : List Piece) (earlier later : List Value),
    bound d (earlier ++ params ps ++ later) earlier.length
        (lexemes d (fun i _ => d.placeholder i) earlier.length ps) =
      some (lexemes d (fun _ v => v) earlier.length ps) := by
  intro ps
  induction ps with
  | nil => intro earlier later; rfl
  | cons p ps ih =>
    intro earlier later
    have hrest : ∀ v : Value, bound d (earlier ++ v :: params ps ++ later) (earlier.length + 1)
        (lexemes d (fun i _ => d.placeholder i) (earlier.length + 1) ps) =
        some (lexemes d (fun _ v => v) (earlier.length + 1) ps) := fun v => by
      simpa [List.append_assoc] using ih (earlier ++ [v]) later
    have hmark : ∀ (v : Value) (marks : List (Lexeme String)) (values : List (Lexeme Value)),
        bound d (earlier ++ v :: params ps ++ later) (earlier.length + 1) marks = some values →
        bound d (earlier ++ v :: params ps ++ later) earlier.length
          (.mark (d.placeholder earlier.length) :: marks) = some (.mark v :: values) := by
      intro v marks values h
      have hget : (earlier ++ v :: params ps ++ later)[earlier.length]? = some v := by simp
      simp only [bound, Dialect.position?_placeholder, hget, h, Option.bind_eq_bind, Option.bind_some]
      rfl
    cases p with
    | text s =>
      have hparams : params (.text s :: ps) = params ps := rfl
      rw [hparams, lexemes, lexemes, fixedLexemes, bound_unmarked, ih]
      rfl
    | name s =>
      have hparams : params (.name s :: ps) = params ps := rfl
      rw [hparams, lexemes, lexemes, bound, ih]
      rfl
    | param v =>
      have hparams : params (.param v :: ps) = v :: params ps := rfl
      rw [hparams, lexemes, lexemes]
      exact hmark v _ _ (hrest v)
    | typed v =>
      have hparams : params (.typed v :: ps) = v :: params ps := rfl
      have hafter := hrest v ▸ bound_unmarked
        (lexemes d (fun i _ => d.placeholder i) (earlier.length + 1) ps)
        (scanned d (castMarks d v).2).settled
      have hall := hmark v _ _ hafter
      simp only [hparams, lexemes, List.append_assoc, List.cons_append, fixedLexemes,
        bound_unmarked] at hall ⊢
      rw [hall]
      rfl
    | endless => exact ih earlier later

/-- **A written text is scanned as the lexemes of its pieces**, with the parameters in place of
their marks. -/
theorem scan_sql {ps : List Piece} (h : Parted d false ps) :
    (scan d (sql d ps)).bind (bound d (params ps) 0) = some (lexemes d (fun _ v => v) 0 ps) := by
  obtain ⟨houtside, hsettled⟩ := scan_texts ps 0 false {} rfl (fun _ => rfl) h
  have htext : (sql d ps).toList = (texts d 0 ps).flatMap String.toList := by simp [sql]
  have hscan : scan d (sql d ps) = some (lexemes d (fun i _ => d.placeholder i) 0 ps) := by
    rw [scan, htext]
    exact (if_pos houtside).trans (congrArg some hsettled)
  have hbound := bound_lexemes (d := d) ps [] []
  rw [hscan]
  simpa using hbound

end Piece

end Sql

end EntityQuery
