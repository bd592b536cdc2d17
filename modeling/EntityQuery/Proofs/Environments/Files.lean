import EntityQuery.Provider.Config
import EntityQuery.Proofs.Catalog.Validated
import EntityQuery.Proofs.Texts.Pieces

/-!
Files of environment variables.

* Lines are of three sorts: a line is silent, or broken, or it sets a variable. `readLine` answers
  each sort in its own way.
* `Line`: a line as it is written on purpose, with a quoted value. The value is read as it stands
  between the quotes, whatever it holds.
* A file is read line by line, so that it fails at its first broken line and else sets the
  variables of its lines one after the other.
-/

namespace EntityQuery.Provider

open Text (Blank Trimmed trim isBlank)

/-! ### Sorts of lines -/

/-- A line that says nothing: a blank one or a comment. -/
def Silent (line : List Char) : Prop :=
  Blank line ∨ ∃ indent comment, Blank indent ∧ line = indent ++ '#' :: comment

/-- A line that should set a variable and names none: without `=`, or with nothing before it. -/
def Broken (line : List Char) : Prop :=
  ¬ Silent line ∧
    ('=' ∉ line ∨ ∃ before after, line = before ++ '=' :: after ∧ '=' ∉ before ∧ Blank before)

/-- What a broken line is refused with. -/
def brokenLine (number : Nat) (line : List Char) : ConfigError :=
  if '=' ∈ line then .emptyKey number else .malformedLine number

variable {line : List Char} {number : Nat}

/-- Whether a line is silent can be seen from its first character that is no white space. -/
lemma silent_iff : Silent line ↔ trim line = [] ∨ ∃ comment, trim line = '#' :: comment := by
  rw [Silent, ← Text.trim_eq_nil]
  refine or_congr_right ⟨?_, ?_⟩
  · rintro ⟨indent, comment, hi, rfl⟩
    obtain ⟨before, trail, hb, hr, ht, heq⟩ := Text.exists_trim ('#' :: comment)
    cases htrim : trim ('#' :: comment) with
    | nil => exact absurd (Text.trim_eq_nil.1 htrim '#' List.mem_cons_self) (by decide)
    | cons c text =>
      rw [htrim] at heq ht
      obtain rfl : before = [] := by
        cases before with
        | nil => rfl
        | cons b before =>
          rw [List.cons_append, List.cons_append, List.cons.injEq] at heq
          exact absurd (hb b List.mem_cons_self) (by rw [← heq.1]; decide)
      obtain ⟨rfl, -⟩ := List.cons.inj heq
      refine ⟨text, ?_⟩
      rw [heq, List.nil_append, ← List.append_assoc]
      exact Text.trim_of_trimmed hi ht hr
  · rintro ⟨comment, h⟩
    obtain ⟨indent, trail, hi, -, -, heq⟩ := Text.exists_trim line
    refine ⟨indent, comment ++ trail, hi, ?_⟩
    rw [heq, h, List.append_assoc, List.cons_append]

lemma readLine_of_silent (h : Silent line) : readLine number line = .ok none := by
  rcases silent_iff.1 h with h | ⟨comment, h⟩
  · rw [readLine, h]
  · rw [readLine, h]
    rfl

/-- A line that is not silent is cut at its first `=`. -/
lemma readLine_of_not_silent (h : ¬ Silent line) : readLine number line =
    match Text.splitAt? '=' (trim line) with
    | none => .error (.malformedLine number)
    | some (key, value) =>
      match trim key with
      | [] => .error (.emptyKey number)
      | key => .ok (some (String.ofList key, String.ofList (unquote value))) := by
  rw [silent_iff, not_or] at h
  rw [readLine]
  split
  · next h0 => exact absurd h0 h.1
  · next comment h0 => exact absurd ⟨comment, h0⟩ h.2
  · rfl

/-- Only one place is the first of its character. -/
lemma first_unique {c : Char} {before before' after after' : List Char} (hb : c ∉ before)
    (hb' : c ∉ before') (h : before ++ c :: after = before' ++ c :: after') :
    before = before' ∧ after = after' := by
  have hcut := Text.splitAt?_append hb after
  rw [h, Text.splitAt?_append hb'] at hcut
  simpa [eq_comm] using hcut

lemma unquote_append {trail : List Char} (h : Blank trail) (value : List Char) :
    unquote (value ++ trail) = unquote value := by
  rw [unquote, unquote, Text.trim_append_right h]

/-- A line that is neither silent nor without `=` is read from its two sides. -/
lemma readLine_eq (h : ¬ Silent line) {before after : List Char}
    (hline : line = before ++ '=' :: after) (hb : '=' ∉ before) :
    readLine number line = if Blank before then .error (.emptyKey number)
      else .ok (some (String.ofList (trim before), String.ofList (unquote after))) := by
  obtain ⟨indent, trail, hi, hr, -, htrim⟩ := Text.exists_trim line
  have hmem : '=' ∈ trim line := (Text.mem_trim (by decide)).2 (by simp [hline])
  obtain ⟨key, value, hkey, hk⟩ := List.eq_append_cons_of_mem hmem
  have hi' : '=' ∉ indent ++ key := by
    rw [List.mem_append, not_or]
    exact ⟨fun hc => absurd (hi _ hc) (by decide), hk⟩
  have hsides : before ++ '=' :: after = indent ++ key ++ '=' :: (value ++ trail) := by
    rw [← hline, htrim, hkey]
    simp
  obtain ⟨rfl, rfl⟩ := first_unique hb hi' hsides
  rw [readLine_of_not_silent h, hkey, Text.splitAt?_append hk, unquote_append hr]
  simp only [← Text.trim_eq_nil, Text.trim_append_left hi]
  split
  · next hnil => rw [if_pos hnil]
  · next hnil => rw [if_neg hnil]

/-! ### The answer for each sort -/

lemma readLine_of_broken (h : Broken line) :
    readLine number line = .error (brokenLine number line) := by
  obtain ⟨hs, hno | ⟨before, after, hline, hb, hblank⟩⟩ := h
  · rw [readLine_of_not_silent hs, Text.splitAt?_eq_none (mt (Text.mem_trim (by decide)).1 hno),
      brokenLine, if_neg hno]
  · rw [readLine_eq hs hline hb, if_pos hblank, brokenLine, if_pos (by simp [hline])]

lemma readLine_of_not_broken (hs : ¬ Silent line) (hb : ¬ Broken line) :
    ∃ pair, readLine number line = .ok (some pair) := by
  rw [Broken, not_and] at hb
  obtain ⟨hmem, hfirst⟩ := not_or.1 (hb hs)
  obtain ⟨before, after, hline, hk⟩ := List.eq_append_cons_of_mem (not_not.1 hmem)
  refine ⟨_, (readLine_eq hs hline hk).trans (if_neg fun hblank => ?_)⟩
  exact hfirst ⟨before, after, hline, hk, hblank⟩

/-! ### Lines that are written on purpose -/

/-- A line that sets a variable to a quoted value, or says nothing. A carriage return may end it. -/
inductive Line where
  | setting (key value : String) (carriage : Bool)
  | silent (text : String)
  deriving DecidableEq, Repr

namespace Line

def text : Line → String
  | .setting key value carriage =>
    key ++ "=\"" ++ value ++ "\"" ++ (if carriage then "\r" else "")
  | .silent text => text

/-- The variables that a line sets: one or none. -/
def pairs : Line → List (String × String)
  | .setting key value _ => [(key, value)]
  | .silent _ => []

/-- Keys that can be read back. -/
structure IsKey (key : String) : Prop where
  ne_empty : key ≠ ""
  no_equals : '=' ∉ key.toList
  no_feed : '\n' ∉ key.toList
  trimmed : Trimmed key.toList
  no_comment : ∀ rest, key.toList ≠ '#' :: rest

/-- Lines that stay one line and are what they are written as. A value is only asked not to hold a
line feed. -/
def Sound : Line → Prop
  | .setting key value _ => IsKey key ∧ '\n' ∉ value.toList
  | .silent text => Silent text.toList ∧ '\n' ∉ text.toList

end Line

/-- Quotes are taken off, whatever stands between them. -/
lemma unquote_quoted (value : List Char) : unquote ('"' :: (value ++ ['"'])) = value := by
  have htrim : trim ('"' :: (value ++ ['"'])) = '"' :: (value ++ ['"']) :=
    Text.trim_eq_self ⟨by simp [isBlank], by simp [isBlank, List.getLast?_cons]⟩
  have hlast : (value ++ ['"']).getLast? = some '"' := List.getLast?_concat
  have hinit : (value ++ ['"']).dropLast = value := List.dropLast_concat
  rw [unquote, htrim]
  cases value with
  | nil => rfl
  | cons c value =>
    rw [List.cons_append] at hlast hinit ⊢
    simp only [hlast, hinit, true_or, and_self, if_true]

lemma Line.IsKey.not_silent {key : String} (h : IsKey key) (after : List Char) :
    ¬ Silent (key.toList ++ after) := by
  obtain ⟨c, rest, hkey⟩ : ∃ c rest, key.toList = c :: rest :=
    List.exists_cons_of_ne_nil fun hnil => h.ne_empty (String.toList_eq_nil_iff.1 hnil)
  have hc : ¬ isBlank c := h.trimmed.head c (by rw [hkey]; rfl)
  rintro (hblank | ⟨indent, comment, hi, hline⟩)
  · exact hc (hblank c (by simp [hkey]))
  · rw [hkey] at hline
    cases indent with
    | nil => exact h.no_comment rest (by rw [hkey, (List.cons.inj hline).1])
    | cons b indent => exact hc ((List.cons.inj hline).1 ▸ hi b List.mem_cons_self)

/-- A line that sets a variable is read as this variable. -/
lemma Line.readLine_setting {key value : String} {carriage : Bool} (h : IsKey key) :
    readLine number (text (.setting key value carriage)).toList = .ok (some (key, value)) := by
  have htext : (text (.setting key value carriage)).toList = key.toList ++
      '=' :: ('"' :: (value.toList ++ ['"']) ++ if carriage then ['\r'] else []) := by
    cases carriage <;> simp [text]
  have hcarriage : Blank (if carriage then ['\r'] else []) := by cases carriage <;> decide
  have hne : ¬ Blank key.toList := by
    rw [← Text.trim_eq_nil, Text.trim_eq_self h.trimmed]
    exact fun hnil => h.ne_empty (String.toList_eq_nil_iff.1 hnil)
  rw [htext, readLine_eq (h.not_silent _) rfl h.no_equals, if_neg hne, unquote_append hcarriage,
    unquote_quoted, Text.trim_eq_self h.trimmed, String.ofList_toList, String.ofList_toList]

lemma Line.no_feed {l : Line} (h : l.Sound) : '\n' ∉ l.text.toList := by
  cases l with
  | setting key value carriage =>
    have hkey := h.1.no_feed
    have hvalue := h.2
    cases carriage <;> simp [text, hkey, hvalue]
  | silent text => exact h.2

/-! ### Files -/

namespace Environment

variable {env env' : Environment}

/-- Sound lines set their variables one after the other. -/
lemma readLines_sound {lines : List Line} (h : ∀ l ∈ lines, l.Sound) :
    env.readLines number (lines.map fun l => l.text.toList) =
      .ok ((lines.flatMap Line.pairs).reverse ++ env) := by
  induction lines generalizing env number with
  | nil => rfl
  | cons l lines ih =>
    obtain ⟨hl, hrest⟩ := List.forall_mem_cons.1 h
    rw [List.map_cons, readLines]
    cases l with
    | setting key value carriage =>
      rw [Line.readLine_setting hl.1]
      refine (ih hrest).trans ?_
      simp [Line.pairs]
    | silent text =>
      rw [Line.text, readLine_of_silent hl.1]
      exact ih hrest

/-- Lines are refused for the first broken one among them. -/
lemma readLines_eq_error {lines : List (List Char)} {err : ConfigError} :
    env.readLines number lines = .error err ↔
      ∃ before line after, lines = before ++ line :: after ∧ (∀ l ∈ before, ¬ Broken l) ∧
        Broken line ∧ err = brokenLine (number + before.length) line := by
  induction lines generalizing env number with
  | nil => simp [readLines]
  | cons line lines ih =>
    by_cases hb : Broken line
    · have hread : env.readLines number (line :: lines) = .error (brokenLine number line) := by
        rw [readLines, readLine_of_broken hb]
        rfl
      rw [hread, Except.error.injEq]
      constructor
      · rintro rfl
        exact ⟨[], line, lines, rfl, by simp, hb, rfl⟩
      · rintro ⟨before, line', after, hlines, hbefore, -, rfl⟩
        cases before with
        | nil => rw [(List.cons.inj hlines).1]; rfl
        | cons l before =>
          exact absurd ((List.cons.inj hlines).1 ▸ hb) (hbefore l List.mem_cons_self)
    · obtain ⟨env', hread⟩ : ∃ env' : Environment, env.readLines number (line :: lines) =
          env'.readLines (number + 1) lines := by
        by_cases hs : Silent line
        · exact ⟨env, by rw [readLines, readLine_of_silent hs]; rfl⟩
        · obtain ⟨pair, hpair⟩ : ∃ pair, readLine number line = .ok (some pair) :=
            readLine_of_not_broken hs hb
          exact ⟨pair :: env, by rw [readLines, hpair]; rfl⟩
      rw [hread, ih]
      constructor
      · rintro ⟨before, line', after, rfl, hbefore, hline, rfl⟩
        refine ⟨line :: before, line', after, rfl, List.forall_mem_cons.2 ⟨hb, hbefore⟩, hline, ?_⟩
        rw [List.length_cons, Nat.add_right_comm, Nat.add_assoc]
      · rintro ⟨before, line', after, hlines, hbefore, hline, rfl⟩
        cases before with
        | nil => exact absurd ((List.cons.inj hlines).1 ▸ hline) hb
        | cons l before =>
          refine ⟨before, line', after, (List.cons.inj hlines).2,
            (List.forall_mem_cons.1 hbefore).2, hline, ?_⟩
          rw [List.length_cons, Nat.add_right_comm, Nat.add_assoc]

/-! ### Values of keys -/

variable {pairs : List (String × String)} {key value : String}

lemma lookup_reverse_eq_none (h : key ∉ pairs.map Prod.fst) :
    List.lookup key pairs.reverse = none := by
  rw [List.lookup_eq_none_iff]
  intro pair hp
  have hne := ne_of_mem_of_not_mem (List.mem_map_of_mem (List.mem_reverse.1 hp)) h
  exact bne_iff_ne.2 hne.symm

/-- The last variable of a key counts. -/
lemma lookup_of_last {before after : List (String × String)}
    (h : pairs = before ++ (key, value) :: after) (hlast : key ∉ after.map Prod.fst) :
    List.lookup key (pairs.reverse ++ env) = some value := by
  rw [h, List.reverse_append, List.reverse_cons, List.append_assoc, List.append_assoc,
    List.lookup_append, lookup_reverse_eq_none hlast]
  simp

/-- A key that is not listed keeps its value. -/
lemma lookup_of_not_listed (h : key ∉ pairs.map Prod.fst) :
    List.lookup key (pairs.reverse ++ env) = List.lookup key env := by
  rw [List.lookup_append, lookup_reverse_eq_none h, Option.none_or]

/-! ### Texts -/

lemma toList_joinWith (lines : List String) :
    (Text.joinWith "\n" lines).toList = ['\n'].intercalate (lines.map String.toList) := by
  induction lines with
  | nil => rfl
  | cons line lines ih =>
    cases lines with
    | nil => simp [Text.joinWith]
    | cons next rest =>
      rw [Text.joinWith, String.toList_append, String.toList_append, ih]
      · simp [List.intercalate]
      · simp

/-- Sound lines are the lines of their text. -/
lemma splitOn_text {lines : List Line} (hne : lines ≠ []) (h : ∀ l ∈ lines, l.Sound) :
    Text.splitOn '\n' (Text.joinWith "\n" (lines.map Line.text)).toList =
      lines.map fun l => l.text.toList := by
  rw [toList_joinWith, Text.splitOn_eq, List.map_map, List.splitOn_intercalate]
  · rfl
  · intro text ht
    obtain ⟨l, hl, rfl⟩ := List.mem_map.1 ht
    exact Line.no_feed (h l hl)
  · simpa using hne

lemma read_sound {lines : List Line} (h : ∀ l ∈ lines, l.Sound) :
    env.read (Text.joinWith "\n" (lines.map Line.text)) =
      .ok ((lines.flatMap Line.pairs).reverse ++ env) := by
  by_cases hne : lines = []
  · rw [hne]
    rfl
  · rw [read, splitOn_text hne h, readLines_sound h]

/-- **Files of variables say what they are written as.** A text of sound lines, in any order and
with any values between the quotes, is read, and then every key of a line has its last value and
every other key the value it had. Any text is refused exactly if a line of it is broken; the error
tells the number of the first such line, counted from one. -/
theorem read_yields (env : Environment) :
    (∀ lines : List Line, (∀ l ∈ lines, l.Sound) →
      ∃ env', env.read (Text.joinWith "\n" (lines.map Line.text)) = .ok env' ∧
        (∀ before key value after, lines.flatMap Line.pairs = before ++ (key, value) :: after →
          key ∉ after.map Prod.fst → List.lookup key env' = some value) ∧
        ∀ key, key ∉ (lines.flatMap Line.pairs).map Prod.fst →
          List.lookup key env' = List.lookup key env) ∧
    ∀ (content : String) (err : ConfigError), env.read content = .error err ↔
      ∃ before line after, content.toList.splitOn '\n' = before ++ line :: after ∧
        (∀ l ∈ before, ¬ Broken l) ∧ Broken line ∧
        err = brokenLine (before.length + 1) line := by
  constructor
  · intro lines h
    refine ⟨_, read_sound h, ?_, fun key hkey => lookup_of_not_listed hkey⟩
    exact fun before key value after hlines hlast => lookup_of_last hlines hlast
  · intro content err
    simp only [read, readLines_eq_error, Text.splitOn_eq, Nat.add_comm 1]

/-- A variable of the process is replaced twice, by values with quotes and `=` in them; a comment
and an empty line stand between. -/
theorem read_yields_last :
    ∃ env', read [("A", "0"), ("B", "1")]
        (Text.joinWith "\n" ([.silent " # a", .setting "A" "x=\"y" true, .silent "",
          .setting "A" " #\" " false].map Line.text)) = .ok env' ∧
      List.lookup "A" env' = some " #\" " ∧ List.lookup "B" env' = some "1" := by
  have htrimmed : Text.Trimmed "A".toList := by
    constructor
    · rintro _ ⟨⟩
      decide
    · rintro _ ⟨⟩
      decide
  have hkey : Line.IsKey "A" := ⟨by decide, by decide, by decide, htrimmed, by simp⟩
  have hcomment : Silent " # a".toList := .inr ⟨[' '], [' ', 'a'], by decide, by decide⟩
  have hempty : Silent "".toList := .inl (by decide)
  obtain ⟨env', hread, hlisted, hother⟩ := (read_yields [("A", "0"), ("B", "1")]).1
    [.silent " # a", .setting "A" "x=\"y" true, .silent "", .setting "A" " #\" " false] (by
      simp only [List.forall_mem_cons, List.not_mem_nil, false_imp_iff, implies_true, and_true]
      exact ⟨⟨hcomment, by decide⟩, ⟨hkey, by decide⟩, ⟨hempty, by decide⟩, hkey, by decide⟩)
  exact ⟨env', hread, hlisted [("A", "x=\"y")] "A" " #\" " [] rfl (by decide),
    hother "B" (by decide)⟩

end Environment
end EntityQuery.Provider
