import EntityQuery.Proofs.Parsing.Machine
import EntityQuery.Proofs.Sql.Nesting

/-!
What the parser makes of the pieces of a node.

* `opTree` reads the operators off a graph, without looking at a text.
* `Guides`: pieces take the parser from one state to another. Every kind of node has such a lemma,
  which takes the lemmas of its operands.
* `spells_node`: a node is read as its operator, if its operands are read as theirs and no `NOT` is a
  bare operand.
* `parse_writeNode?`: a value without requests parses as its operators, if no `NOT` is a bare operand
  of an operator that binds more tightly (`Guarded`).
* `parse_writeNode?_bareNot`: a `NOT` is written without parentheses, and what follows it becomes part
  of its operand.
-/

namespace EntityQuery

/-- The operator that a server reads: one dialect adds texts. -/
def Dialect.spoken (d : Dialect) (op : Sql.BinaryOp) : Sql.BinaryOp :=
  if d = .sqlServer ∧ op = .concat then .add else op

namespace Sql

open ParseState

/-! ### Operators of a graph -/

namespace Graph

/-- Whether a comparison asks for null. -/
def asksNull (g : Graph) (op : BinaryOp) (l r : NodeId) : Bool :=
  (op == .equal || op == .notEqual) && ((g.node l).isNull || (g.node r).isNull)

/-- The operand of a comparison that asks for null. -/
def asked (g : Graph) (l r : NodeId) : NodeId := if (g.node l).isNull then r else l

/-- The operators of values. -/
def operators (g : Graph) (d : Dialect) : Reading OpTree Unit where
  node part _
    | .column a name => .column (g.aliasOf a).name name
    | .row a => .column (g.aliasOf a).name ((g.aliasOf a).idColumn.getD allColumns)
    | .const v => .const v
    | .unary .not (some n) => .not (part n)
    | .unary op operand => .function op (operand.map part)
    | .binary op l r =>
      if g.asksNull op l r then .nullTest (op == .notEqual) (part (g.asked l r))
      else .binary (d.spoken op) (part l) (part r)
    | .isIn _ [] => .never
    | .isIn e vs => .isIn (part e) (vs.map part)
    | .cond t y n => .cond (part t) (part y) (part n)
    | .sub _ => .const .null
  request _ _ _ := ()
  endless := .const .null
  again := ()

/-- The operators of a value with their operands. -/
def opTree (g : Graph) (d : Dialect) (n : NodeId) : OpTree := g.readNode (g.operators d) n

/-- Operands beside an operator that binds more tightly than `NOT`, without parentheses. -/
def bareOperands (g : Graph) (d : Dialect) : Node → List NodeId
  | .binary op l r =>
    if g.asksNull op l r then [g.asked l r]
    else if op.tightness < notTightness ∨ op = .coalesce ∨ (op = .concat ∧ d = .mySql) then []
    else [l, r]
  | .isIn e (_ :: _) => [e]
  | _ => []

end Graph

/-- Nodes that are values by themselves: no request, and a `NOT` has an operand. -/
def Node.isValue : Node → Bool
  | .sub _ | .unary .exists _ | .unary .not none => false
  | _ => true

def Node.isNot : Node → Bool
  | .unary .not _ => true
  | _ => false

/-! ### Pieces and the parser -/

namespace Piece

variable {d : Dialect} {ps qs : List Piece} {s : String} {σ τ υ : ParseState} {pending : Bool}

lemma Parted.weaken : ∀ {ps : List Piece} {pending : Bool}, Parted d true ps → Parted d pending ps
  | [], _, _ => trivial
  | .text _ :: _, _, h => ⟨h.1, fun _ => h.2.1 rfl, h.2.2⟩
  | .name _ :: _, _, h | .param _ :: _, _, h | .typed _ :: _, _, h => absurd h.1 (by simp)
  | .endless :: _, _, h => h.elim

lemma Parted.append : ∀ {ps : List Piece} {pending : Bool}, Parted d pending ps →
    Parted d true qs → Parted d pending (ps ++ qs)
  | [], _, _, hq => hq.weaken
  | .text _ :: _, _, hp, hq => ⟨hp.1, hp.2.1, hp.2.2.append hq⟩
  | .name _ :: _, _, hp, hq | .param _ :: _, _, hp, hq | .typed _ :: _, _, hp, hq =>
    ⟨hp.1, hp.2.append hq⟩
  | .endless :: _, _, hp, _ => hp.elim

lemma not_endless_of_parted : ∀ {ps : List Piece} {pending : Bool}, Parted d pending ps →
    ps.any isEndless = false
  | [], _, _ => rfl
  | .text _ :: _, _, h => by simpa [isEndless] using not_endless_of_parted h.2.2
  | .name _ :: _, _, h | .param _ :: _, _, h | .typed _ :: _, _, h => by
    simpa [isEndless] using not_endless_of_parted h.2
  | .endless :: _, _, h => h.elim

/-- The lexemes of pieces with the values in place of marks. -/
def bare (d : Dialect) (ps : List Piece) : List (Lexeme Value) := lexemes d (fun _ v => v) 0 ps

/-- Lexemes with the values themselves do not depend on the position. -/
lemma lexemes_congr : ∀ (ps : List Piece) (i j : Nat),
    lexemes d (fun _ v => v) i ps = lexemes d (fun _ (v : Value) => v) j ps := by
  intro ps
  induction ps with
  | nil => intro i j; rfl
  | cons p ps ih =>
    intro i j
    cases p <;> simp only [lexemes] <;> rw [ih]

lemma lexemes_append : ∀ (ps : List Piece) (i : Nat), lexemes d (fun _ v => v) i (ps ++ qs) =
    lexemes d (fun _ v => v) i ps ++ lexemes d (fun _ (v : Value) => v) 0 qs := by
  intro ps
  induction ps with
  | nil => intro i; exact lexemes_congr qs i 0
  | cons p ps ih =>
    intro i
    cases p <;> simp only [lexemes, List.cons_append, List.append_assoc, ih]

lemma bare_append (ps : List Piece) : bare d (ps ++ qs) = bare d ps ++ bare d qs :=
  lexemes_append ps 0

/-- Pieces that can be scanned and take the parser from one state to another. -/
structure Guides (d : Dialect) (pending : Bool) (ps : List Piece) (σ τ : ParseState) : Prop where
  parted : Parted d pending ps
  run : run σ (bare d ps) = some τ

lemma Guides.append (hp : Guides d pending ps σ τ) (hq : Guides d true qs τ υ) :
    Guides d pending (ps ++ qs) σ υ := by
  refine ⟨hp.parted.append hq.parted, ?_⟩
  rw [bare_append, run_append, hp.run]
  exact hq.run

lemma guides_nil : Guides d pending [] σ σ := ⟨trivial, rfl⟩

/-- A name before anything that ends it. -/
lemma guides_name (h : ParseState.run σ [.name s] = some τ) (hps : Guides d true ps τ υ) :
    Guides d false (.name s :: ps) σ υ := by
  refine ⟨⟨rfl, hps.parted⟩, ?_⟩
  have hbare : bare d (.name s :: ps) = [.name s] ++ bare d ps := rfl
  rw [hbare, run_append, h]
  exact hps.run

/-- A fixed text that ends between lexemes. -/
def IsWhole (d : Dialect) (s : String) : Prop := IsFixed d s ∧ (scanned d s).mode = .between

section Text

variable (hs : s.toList.all isCommon = true)
  (h : ParseState.run σ (fixedLexemes .postgres s) = some τ)
include hs

lemma isWhole_of_isCommon (hlast : s.toList.getLast?.any isBreak = true) : IsWhole d s :=
  ⟨isFixed_of_isCommon hs d, mode_scanned_of_isBreak hs hlast d⟩

include h

/-- A fixed text before anything. -/
lemma guides_open (hlast : s.toList.getLast?.any isBreak = true) (hps : Guides d false ps τ υ) :
    Guides d false (.text s :: ps) σ υ := by
  have hwhole : IsWhole d s := isWhole_of_isCommon hs hlast
  refine ⟨⟨hwhole.1, by simp, ?_⟩, ?_⟩
  · rw [hwhole.2]
    exact hps.parted
  · rw [bare, lexemes, run_append, fixedLexemes_of_isCommon hs d .postgres, h]
    exact hps.run

/-- A fixed text that ends what is before it, before anything. -/
lemma guides_then (hlast : s.toList.getLast?.any isBreak = true)
    (hbreak : s.toList.head?.any isBreak = true) (hps : Guides d false ps τ υ) :
    Guides d true (.text s :: ps) σ υ := by
  obtain ⟨⟨hfixed, -, hparted⟩, hrun⟩ := guides_open hs h hlast hps
  exact ⟨⟨hfixed, fun _ => hbreak, hparted⟩, hrun⟩

/-- A fixed text alone. -/
lemma guides_text : Guides d false [.text s] σ τ := by
  refine ⟨⟨isFixed_of_isCommon hs d, by simp, trivial⟩, ?_⟩
  rw [bare, lexemes, lexemes, List.append_nil, fixedLexemes_of_isCommon hs d .postgres, h]

/-- A fixed text at the end. -/
lemma guides_last (hbreak : s.toList.head?.any isBreak = true) : Guides d true [.text s] σ τ := by
  obtain ⟨⟨hfixed, -, hparted⟩, hrun⟩ := guides_text (d := d) hs h
  exact ⟨⟨hfixed, fun _ => hbreak, hparted⟩, hrun⟩

end Text

/-- A parenthesis opens a value. -/
lemma guides_paren {stack : List ParseFrame}
    (hps : Guides d false ps ⟨.paren :: stack, .operand⟩ υ) :
    Guides d false (.text "(" :: ps) ⟨stack, .operand⟩ υ :=
  guides_open (by decide) rfl (by decide) hps

/-- A parenthesis closes what is before it. -/
lemma guides_close (h : ParseState.run σ [.sign ")"] = some τ) : Guides d true [.text ")"] σ τ :=
  guides_last (by decide) h (by decide)

/-- A comma parts two values. -/
lemma guides_comma (h : ParseState.run σ [.sign ","] = some τ) (hps : Guides d false ps τ υ) :
    Guides d true (.text ", " :: ps) σ υ :=
  guides_then (by decide) h (by decide) (by decide) hps

/-- Pieces are read as a value wherever it may stand. -/
def Spells (d : Dialect) (ps : List Piece) (e : OpTree) : Prop :=
  ∀ stack, Fits stack e → Guides d false ps ⟨stack, .operand⟩ (past stack e)

end Piece

/-! ### Nodes -/

namespace Writer

open Piece

variable {w : Writer} {stack : List ParseFrame}

lemma spells_qualified (d : Dialect) (source column : String) :
    Spells d (qualified source column) (.column source column) := by
  intro stack _
  have hcolumn : Guides d false [.name column] ⟨stack, .qualifier source⟩
      (past stack (.column source column)) := guides_name rfl guides_nil
  exact guides_name rfl (guides_then (by decide) rfl (by decide) (by decide) hcolumn)

lemma spells_column (d : Dialect) (source : Alias) (name : String) :
    Spells d (column source name) (.column source.name name) := by
  intro stack hfits
  unfold column
  split
  · next h =>
    subst h
    exact guides_name rfl (guides_last (by decide) rfl (by decide))
  · exact spells_qualified d source.name name stack hfits

lemma spells_row (d : Dialect) (source : Alias) :
    Spells d (row source) (.column source.name (source.idColumn.getD allColumns)) := by
  unfold row
  split
  · next key h => rw [h]; exact spells_qualified d _ _
  · next h =>
    rw [h]
    have hall := spells_column d source allColumns
    rwa [column, if_pos rfl] at hall

lemma spells_const (d : Dialect) (v : Value) : Spells d (const v) (.const v) := by
  intro stack _
  cases h : v.isNull with
  | true =>
    obtain rfl : v = .null := by cases v <;> first | rfl | cases h
    exact guides_text (by decide) rfl
  | false =>
    rw [const, if_neg (by simp [h])]
    exact ⟨⟨rfl, trivial⟩, rfl⟩

/-- What may stand after the mark of a value, type by type. -/
def typeLexemes : Dialect → List (List (Lexeme String))
  | .postgres => [.sign "::", .word "DOUBLE", .word "PRECISION"] ::
    ["BIGINT", "VARCHAR", "BOOLEAN", "JSONB", "UUID", "BYTEA", "DATE", "TIMESTAMP"].map fun t =>
      [.sign "::", .word t]
  | .db2 => [.word "AS", .word "NVARCHAR", .sign "(", .word "100", .sign ")", .sign ")"] ::
    [.word "AS", .word "CHAR", .sign "(", .word "36", .sign ")", .sign ")"] ::
    ["BIGINT", "DOUBLE", "SMALLINT", "CLOB", "BLOB", "DATE", "TIMESTAMP"].map fun t =>
      [.word "AS", .word t, .sign ")"]
  | .mySql | .sqlServer => []

lemma settled_castMarks {d : Dialect} {v : Value} (hd : d = .postgres ∨ d = .db2)
    (hv : v.isNull = false) : (scanned d (castMarks d v).2).settled ∈ typeLexemes d := by
  rcases hd with rfl | rfl <;> cases v <;> cases hv
  all_goals
    simp only [castMarks, Value.isNull, Value.dataType, Bool.false_eq_true, if_false]
    decide +kernel

/-- A type that is stated is not part of the value. -/
lemma run_typed (d : Dialect) (v : Value) (stack : List ParseFrame) :
    run ⟨stack, .operand⟩ (fixedLexemes d (castMarks d v).1 ++
      .mark v :: fixedLexemes d (castMarks d v).2) = some ⟨stack, .after (.const v)⟩ := by
  cases hv : v.isNull with
  | true =>
    cases d <;> simp only [castMarks, hv, if_true] <;> rfl
  | false =>
    cases d with
    | mySql | sqlServer => rfl
    | postgres =>
      have hsettled := settled_castMarks (.inl rfl) hv
      rw [fixedLexemes, fixedLexemes]
      generalize (scanned .postgres (castMarks .postgres v).2).settled = xs at hsettled ⊢
      simp only [typeLexemes, List.map_cons, List.map_nil, List.mem_cons, List.not_mem_nil,
        or_false] at hsettled
      simp only [castMarks, hv, Bool.false_eq_true, if_false]
      rcases hsettled with rfl | rfl | rfl | rfl | rfl | rfl | rfl | rfl | rfl <;> rfl
    | db2 =>
      have hsettled := settled_castMarks (.inr rfl) hv
      have hcast : (scanned .db2 (castMarks .db2 v).1).settled = [.word "CAST", .sign "("] := by
        simp only [castMarks, hv, Bool.false_eq_true, if_false]
        decide +kernel
      rw [fixedLexemes, fixedLexemes, hcast]
      generalize (scanned .db2 (castMarks .db2 v).2).settled = xs at hsettled ⊢
      simp only [typeLexemes, List.map_cons, List.map_nil, List.mem_cons, List.not_mem_nil,
        or_false] at hsettled
      rcases hsettled with rfl | rfl | rfl | rfl | rfl | rfl | rfl | rfl | rfl <;> rfl

/-- A value is read in the same way if it states its type. -/
lemma spells_typed {n : NodeId} {e : OpTree} (hn : Spells w.dialect (w.value n) e)
    (hconst : ∀ v, w.graph.node n = .const v → e = .const v) :
    Spells w.dialect (w.typed n) e := by
  unfold typed
  split
  · next v hv =>
    split
    · exact hn
    · rw [hconst v hv]
      intro stack _
      refine ⟨⟨rfl, trivial⟩, ?_⟩
      have hrun := run_typed w.dialect v stack
      rwa [bare, lexemes, lexemes, List.append_nil]
  · exact hn

lemma spells_not {d : Dialect} {ps : List Piece} {e : OpTree} (h : Spells d ps e) :
    Spells d (.text "NOT " :: ps) (.not e) := by
  intro stack hfits
  have hnot : open? stack (.word "NOT") = some ⟨.not :: stack, .operand⟩ := if_pos (hfits rfl)
  have hrun : run ⟨stack, .operand⟩ [.word "NOT"] = some ⟨.not :: stack, .operand⟩ := by
    simp [run, step, hnot]
  exact guides_open (by decide) hrun (by decide) (h (.not :: stack) fun _ => rfl)

/-- The name of a function opens its call. -/
lemma guides_call {d : Dialect} {op : UnaryOp} {f : String} (hf : op.function? = some f)
    {ps : List Piece} {τ : ParseState} (h : Guides d false ps ⟨.call f [] :: stack, .operand⟩ τ) :
    Guides d false (.text (f ++ "(") :: ps) ⟨stack, .operand⟩ τ := by
  cases op <;> cases hf <;> exact guides_open (by decide) rfl (by decide) h

lemma spells_function {d : Dialect} {op : UnaryOp} {f : String} (hf : op.function? = some f)
    {operand : Option NodeId} {e : NodeId → OpTree} {value : NodeId → List Piece}
    (h : ∀ n ∈ operand, Spells d (value n) (e n)) :
    Spells d (.text (f ++ "(") :: operand.elim [.text "*"] value ++ [Piece.text ")"])
      (.function op (operand.map e)) := by
  intro stack _
  cases operand with
  | none =>
    have hrows : Guides d false [.text "*"] ⟨.call f [] :: stack, .operand⟩ ⟨stack, .rows f⟩ :=
      guides_text (by decide) rfl
    refine guides_call hf (hrows.append (guides_close ?_))
    cases op <;> cases hf <;> rfl
  | some n =>
    refine guides_call hf ((h n rfl _ fun _ => rfl).append (guides_close ?_))
    rw [run_past (by simp [loose])]
    cases op <;> cases hf <;> rfl

/-! ### Operators -/

section Binary

variable {d : Dialect} {ps qs : List Piece} {l r : OpTree}

lemma spells_nullTest (h : Spells d ps l) (hl : l.isNot = false) (negated : Bool) :
    Spells d (.text "(" :: ps ++ [Piece.text (if negated then " IS NOT NULL)" else " IS NULL)")])
      (.nullTest negated l) := by
  intro stack _
  refine guides_paren ((h _ fun _ => rfl).append ?_)
  rw [past_of_not_isNot hl]
  cases negated with
  | true => exact guides_last (by decide) rfl (by decide)
  | false => exact guides_last (by decide) rfl (by decide)

/-- A value after an operator and before the closing parenthesis. -/
lemma guides_right {op : BinaryOp} (h : Spells d ps r)
    (hr : r.isNot = true → op.tightness < notTightness) (stack : List ParseFrame) :
    Guides d false (ps ++ [Piece.text ")"]) ⟨.infixed op l :: .paren :: stack, .operand⟩
      ⟨stack, .after (.binary op l r)⟩ := by
  have hrun : run (past (.infixed op l :: .paren :: stack) r) [.sign ")"] =
      some ⟨stack, .after (.binary op l r)⟩ := by
    simp [run, step_close_infix]
  exact (h (.infixed op l :: .paren :: stack) fun hnot => decide_eq_true (hr hnot)).append
    (guides_close hrun)

/-- An operator between its operands, in parentheses. -/
lemma spells_infix {op : BinaryOp} (hop : op ≠ .coalesce) {mark : String}
    (hmark : mark.toList.all isCommon = true) (hlast : mark.toList.getLast?.any isBreak = true)
    (hbreak : mark.toList.head?.any isBreak = true)
    (hlexeme : fixedLexemes .postgres mark = [infixLexeme op])
    (hl : Spells d ps l) (hr : Spells d qs r) (hnl : l.isNot = true → op.tightness < notTightness)
    (hnr : r.isNot = true → op.tightness < notTightness) :
    Spells d (.text "(" :: ps ++ .text mark :: qs ++ [Piece.text ")"]) (.binary op l r) := by
  intro stack _
  rw [past_of_not_isNot rfl]
  have hright := guides_right (l := l) hr hnr stack
  have hmid : Guides d true (.text mark :: (qs ++ [Piece.text ")"])) (past (.paren :: stack) l)
      ⟨stack, .after (.binary op l r)⟩ := by
    refine guides_then hmark ?_ hlast hbreak hright
    rw [hlexeme]
    simp [run, step_infix hop hnl]
  have hall := guides_paren ((hl (.paren :: stack) fun _ => rfl).append hmid)
  simpa only [List.cons_append, List.append_assoc] using hall

/-- A function of two values. -/
lemma spells_call {op : BinaryOp} {f : String} (hf : f = "COALESCE" ∧ op = .coalesce ∨
    f = "CONCAT" ∧ op = .concat) (hl : Spells d ps l) (hr : Spells d qs r) :
    Spells d (.text (f ++ "(") :: ps ++ .text ", " :: qs ++ [Piece.text ")"]) (.binary op l r) := by
  intro stack _
  rw [past_of_not_isNot rfl]
  have hright : Guides d false (qs ++ [Piece.text ")"]) ⟨.call f [l] :: stack, .operand⟩
      ⟨stack, .after (.binary op l r)⟩ := by
    have hrun : run (past (.call f [l] :: stack) r) [.sign ")"] =
        some ⟨stack, .after (.binary op l r)⟩ := by
      rw [run_past (by simp [loose])]
      rcases hf with ⟨rfl, rfl⟩ | ⟨rfl, rfl⟩ <;> rfl
    exact (hr _ fun _ => rfl).append (guides_close hrun)
  have hmid : Guides d true (.text ", " :: (qs ++ [Piece.text ")"])) (past (.call f [] :: stack) l)
      ⟨stack, .after (.binary op l r)⟩ := by
    have hrun : run (past (.call f [] :: stack) l) [.sign ","] =
        some ⟨.call f [l] :: stack, .operand⟩ := by
      rw [run_past (by simp [loose])]
      rfl
    exact guides_comma hrun hright
  have hall : Guides d false (.text (f ++ "(") :: (ps ++ .text ", " :: (qs ++ [Piece.text ")"])))
      ⟨stack, .operand⟩ ⟨stack, .after (.binary op l r)⟩ := by
    have hargs := (hl (.call f [] :: stack) fun _ => rfl).append hmid
    rcases hf with ⟨rfl, rfl⟩ | ⟨rfl, rfl⟩ <;> exact guides_open (by decide) rfl (by decide) hargs
  simpa only [List.cons_append, List.append_assoc] using hall

end Binary

/-- The values of a list up to the parentheses that close it. -/
lemma guides_values {d : Dialect} {e : OpTree} {pss : List (List Piece)} {es : List OpTree}
    (hs : List.Forall₂ (Spells d) pss es) (hne : pss ≠ []) (vs : List OpTree)
    (stack : List ParseFrame) :
    Guides d false (commas pss ++ [Piece.text "))"]) ⟨.list e vs :: .paren :: stack, .operand⟩
      ⟨stack, .after (.isIn e (vs ++ es))⟩ := by
  induction hs generalizing vs with
  | nil => exact absurd rfl hne
  | @cons ps x pss es hps hrest ih =>
    rcases pss with _ | ⟨qs, rest⟩
    · cases hrest
      have hrun : run (past (.list e vs :: .paren :: stack) x) [.sign ")", .sign ")"] =
          some ⟨stack, .after (.isIn e (vs ++ [x]))⟩ := by
        rw [run_past (by simp [loose])]
        rfl
      exact (hps _ fun _ => rfl).append (guides_last (by decide) hrun (by decide))
    · have hnext := ih (by simp) (vs ++ [x])
      rw [List.append_assoc] at hnext
      have hcommas : commas (ps :: qs :: rest) = ps ++ .text ", " :: commas (qs :: rest) := rfl
      rw [hcommas, List.append_assoc]
      have hrun : run (past (.list e vs :: .paren :: stack) x) [.sign ","] =
          some ⟨.list e (vs ++ [x]) :: .paren :: stack, .operand⟩ := by
        rw [run_past (by simp [loose])]
        rfl
      exact (hps _ fun _ => rfl).append (guides_comma hrun hnext)

lemma spells_isIn {d : Dialect} {ps : List Piece} {pss : List (List Piece)} {e : OpTree}
    {es : List OpTree} (h : Spells d ps e) (hnot : e.isNot = false)
    (hs : List.Forall₂ (Spells d) pss es) (hne : pss ≠ []) :
    Spells d (.text "(" :: ps ++ .text " IN (" :: commas pss ++ [Piece.text "))"]) (.isIn e es) := by
  intro stack _
  rw [past_of_not_isNot rfl]
  have hmid : Guides d true (.text " IN (" :: (commas pss ++ [Piece.text "))"]))
      (past (.paren :: stack) e) ⟨stack, .after (.isIn e es)⟩ := by
    rw [past_of_not_isNot hnot]
    exact guides_then (by decide) rfl (by decide) (by decide) (guides_values hs hne [] stack)
  have hall := guides_paren ((h (.paren :: stack) fun _ => rfl).append hmid)
  simpa only [List.cons_append, List.append_assoc] using hall

lemma spells_cond {d : Dialect} {ts ys ns : List Piece} {t y n : OpTree} (ht : Spells d ts t)
    (hy : Spells d ys y) (hn : Spells d ns n) :
    Spells d (.text "CASE WHEN " :: ts ++ .text " THEN " :: ys ++ .text " ELSE " :: ns ++
      [.text " END"]) (.cond t y n) := by
  intro stack _
  rw [past_of_not_isNot rfl]
  have hno : Guides d false (ns ++ [Piece.text " END"]) ⟨.no t y :: stack, .operand⟩
      ⟨stack, .after (.cond t y n)⟩ := by
    have hrun : run (past (.no t y :: stack) n) [.word "END"] =
        some ⟨stack, .after (.cond t y n)⟩ := by
      rw [run_past (by simp [loose])]
      rfl
    exact (hn _ fun _ => rfl).append (guides_last (by decide) hrun (by decide))
  have hyes : Guides d false (ys ++ .text " ELSE " :: (ns ++ [Piece.text " END"]))
      ⟨.yes t :: stack, .operand⟩ ⟨stack, .after (.cond t y n)⟩ := by
    have hrun : run (past (.yes t :: stack) y) [.word "ELSE"] =
        some ⟨.no t y :: stack, .operand⟩ := by
      rw [run_past (by simp [loose])]
      rfl
    exact (hy _ fun _ => rfl).append (guides_then (by decide) hrun (by decide) (by decide) hno)
  have htest : Guides d false (ts ++ .text " THEN " :: (ys ++ .text " ELSE " ::
      (ns ++ [Piece.text " END"]))) ⟨.test :: stack, .operand⟩ ⟨stack, .after (.cond t y n)⟩ := by
    have hrun : run (past (.test :: stack) t) [.word "THEN"] =
        some ⟨.yes t :: stack, .operand⟩ := by
      rw [run_past (by simp [loose])]
      rfl
    exact (ht _ fun _ => rfl).append (guides_then (by decide) hrun (by decide) (by decide) hyes)
  have hall := guides_open (σ := ⟨stack, .operand⟩) (s := "CASE WHEN ") (by decide) rfl (by decide) htest
  simpa only [List.cons_append, List.append_assoc] using hall

/-! ### Any node -/

/-- What is at hand where a value is read: the trees of its operands, and how they are written. -/
structure Operands (w : Writer) (tree : NodeId → OpTree) (n : Node) : Prop where
  spells : ∀ c ∈ n.children, Spells w.dialect (w.value c) (tree c)
  const : ∀ c ∈ n.children, ∀ v, w.graph.node c = .const v → tree c = .const v
  guarded : ∀ c ∈ w.graph.bareOperands w.dialect n, (tree c).isNot = false

variable {tree : NodeId → OpTree}

lemma spells_asked {op : BinaryOp} {l r : NodeId} (hnull : w.graph.asksNull op l r = true)
    (h : Operands w tree (.binary op l r)) :
    Spells w.dialect (w.binary op l r) (.nullTest (op == .notEqual) (tree (w.graph.asked l r))) := by
  have hasked : Spells w.dialect (w.value (w.graph.asked l r)) (tree (w.graph.asked l r)) := by
    refine h.spells _ ?_
    unfold Graph.asked
    split <;> simp [Node.children]
  have hguarded := h.guarded (w.graph.asked l r) (by simp [Graph.bareOperands, hnull])
  have htest : w.isNullTest op l r = true := hnull
  have hop : (if op = .equal then " IS NULL)" else " IS NOT NULL)") =
      if op == .notEqual then " IS NOT NULL)" else " IS NULL)" := by
    rw [Graph.asksNull, Bool.and_eq_true] at hnull
    cases op <;> first | rfl | exact absurd hnull.1 (by decide)
  unfold binary
  rw [if_pos htest, hop]
  exact spells_nullTest hasked hguarded _

lemma spells_concat {l r : NodeId} (hnull : w.graph.asksNull .concat l r = false)
    (h : Operands w tree (.binary .concat l r)) : Spells w.dialect (w.binary .concat l r)
      (.binary (w.dialect.spoken .concat) (tree l) (tree r)) := by
  have htest : ¬ w.isNullTest .concat l r = true := by simp [isNullTest]
  have hl := spells_typed (h.spells l (by simp [Node.children])) (h.const l (by simp [Node.children]))
  have hr := spells_typed (h.spells r (by simp [Node.children])) (h.const r (by simp [Node.children]))
  have hbare : w.dialect ≠ .mySql → (tree l).isNot = false ∧ (tree r).isNot = false := by
    intro hd
    have hmem : w.graph.bareOperands w.dialect (.binary .concat l r) = [l, r] := by
      simp [Graph.bareOperands, hnull, hd, BinaryOp.tightness, notTightness]
    exact ⟨h.guarded l (by simp [hmem]), h.guarded r (by simp [hmem])⟩
  unfold binary
  rw [if_neg htest]
  revert hl hr hbare
  generalize w.dialect = d
  intro hl hr hbare
  cases d with
  | mySql => exact spells_call (.inr ⟨rfl, rfl⟩) hl hr
  | postgres | sqlServer | db2 =>
    obtain ⟨hnl, hnr⟩ := hbare (by decide)
    exact spells_infix (by decide) (by decide) (by decide) (by decide) rfl hl hr (by simp [hnl])
      (by simp [hnr])

lemma spells_binary {op : BinaryOp} {l r : NodeId} (h : Operands w tree (.binary op l r)) :
    Spells w.dialect (w.binary op l r)
      ((w.graph.operators w.dialect).node tree (fun _ => ()) (.binary op l r)) := by
  have hl := h.spells l (by simp [Node.children])
  have hr := h.spells r (by simp [Node.children])
  simp only [Graph.operators]
  cases hnull : w.graph.asksNull op l r with
  | true => exact spells_asked hnull h
  | false =>
    rw [if_neg (by simp)]
    by_cases hconcat : op = .concat
    · subst hconcat
      exact spells_concat hnull h
    · have htest : ¬ w.isNullTest op l r = true := by
        rw [isNullTest]; exact fun h => Bool.false_ne_true (hnull.symm.trans h)
      have hspoken : w.dialect.spoken op = op := by simp [Dialect.spoken, hconcat]
      unfold binary
      rw [if_neg htest, hspoken]
      by_cases hcoalesce : op = .coalesce
      · subst hcoalesce
        exact spells_call (.inl ⟨rfl, rfl⟩) hl hr
      · have hguarded : ∀ c, c = l ∨ c = r → (tree c).isNot = true → op.tightness < notTightness := by
          intro c hc hnot
          by_contra htight
          refine Bool.false_ne_true ((h.guarded c ?_).symm.trans hnot)
          simpa [Graph.bareOperands, hnull, htight, hcoalesce, hconcat] using hc
        have hmark : (" " ++ op.symbol ++ " ").toList.all isCommon = true := by
          cases op <;> decide +kernel
        have hlast : (" " ++ op.symbol ++ " ").toList.getLast?.any isBreak = true := by
          cases op <;> decide +kernel
        have hbreak : (" " ++ op.symbol ++ " ").toList.head?.any isBreak = true := by
          cases op <;> decide +kernel
        have hlexeme : fixedLexemes .postgres (" " ++ op.symbol ++ " ") = [infixLexeme op] := by
          cases op <;> first | exact absurd rfl hcoalesce | rfl
        have hinfix := spells_infix (d := w.dialect) hcoalesce hmark hlast hbreak hlexeme hl hr
          (hguarded l (.inl rfl)) (hguarded r (.inr rfl))
        cases op <;> first | exact absurd rfl hconcat | exact absurd rfl hcoalesce | exact hinfix

/-- **A node is read as its operator, if its operands are read as theirs.** -/
theorem spells_node {n : Node} (hn : n.isValue = true) (h : Operands w tree n) :
    Spells w.dialect (w.node n) ((w.graph.operators w.dialect).node tree (fun _ => ()) n) := by
  cases n with
  | column a name => exact spells_column _ _ _
  | row a => exact spells_row _ _
  | const v => exact spells_const _ v
  | unary op operand =>
    cases op with
    | «exists» => cases hn
    | not =>
      cases operand with
      | none => cases hn
      | some n => exact spells_not (h.spells n (by simp [Node.children]))
    | count | max | min | sum | average =>
      exact spells_function rfl fun c hc => h.spells c (by simpa [Node.children] using hc)
  | binary op l r => exact spells_binary h
  | isIn e vs =>
    cases vs with
    | nil =>
      intro stack _
      exact guides_text (by decide) rfl
    | cons v vs =>
      refine spells_isIn (h.spells e (by simp [Node.children]))
        (h.guarded e (by simp [Graph.bareOperands])) ?_ (by simp)
      rw [List.forall₂_map_left_iff, List.forall₂_map_right_iff, List.forall₂_same]
      exact fun c hc => h.spells c (List.mem_cons_of_mem _ hc)
  | cond t y n =>
    have hy := h.spells y (by simp [Node.children])
    have hn := h.spells n (by simp [Node.children])
    exact spells_cond (h.spells t (by simp [Node.children]))
      (spells_typed hy (h.const y (by simp [Node.children])))
      (spells_typed hn (h.const n (by simp [Node.children])))
  | sub r => cases hn

end Writer

end Sql

end EntityQuery

/-! ### Written values parse as the operators of their nodes -/

namespace EntityQuery.Sql

open ParseState

namespace Graph

/-- A value without requests. -/
def IsValue (g : Graph) (n : NodeId) : Prop := ∀ m, g.Below n m → (g.node m).isValue = true

/-- No `NOT` in a value is a bare operand. -/
def Guarded (g : Graph) (d : Dialect) (n : NodeId) : Prop :=
  ∀ m, g.Below n m → ∀ c ∈ g.bareOperands d (g.node m), (g.node c).isNot = false

variable {g : Graph} {d : Dialect}

lemma IsValue.child {n c : NodeId} (h : g.IsValue n) (hc : c ∈ (g.node n).children) :
    g.IsValue c := fun m hm => h m (.head hc hm)

lemma Guarded.child {n c : NodeId} (h : g.Guarded d n) (hc : c ∈ (g.node n).children) :
    g.Guarded d c := fun m hm => h m (.head hc hm)

/-- Only a `NOT` is read as one. -/
lemma isNot_operators {n : Node} (h : n.isNot = false) (part : NodeId → OpTree) :
    ((g.operators d).node part (fun _ => ()) n).isNot = false := by
  cases n with
  | unary op operand =>
    cases op with
    | not => cases h
    | _ => cases operand <;> rfl
  | binary op l r => simp only [operators]; split <;> rfl
  | isIn e vs => cases vs <;> rfl
  | _ => rfl

lemma mem_children_of_mem_bareOperands {n : Node} {c : NodeId} (h : c ∈ g.bareOperands d n) :
    c ∈ n.children := by
  cases n with
  | binary op l r =>
    simp only [bareOperands] at h
    split at h
    · rw [List.mem_singleton.1 h, asked]
      split <;> simp [Node.children]
    · split at h
      · simp at h
      · simpa [Node.children] using h
  | isIn e vs =>
    cases vs with
    | nil => simp [bareOperands] at h
    | cons v vs =>
      simp only [bareOperands, List.mem_singleton] at h
      simp [Node.children, h]
  | _ => simp [bareOperands] at h

/-- A value is read as its operators, whatever the bounds of the two readings are. -/
theorem spells_readNode (ho : g.Ordered) : ∀ (fuel fuel' : Nat) (above above' : List RequestId)
    (n : NodeId), g.IsValue n → g.Guarded d n → min n.index g.entries.size < fuel →
    min n.index g.entries.size < fuel' →
    Piece.Spells d (g.readNodeWithin (g.writing d) fuel above n)
      (g.readNodeWithin (g.operators d) fuel' above' n) := by
  intro fuel
  induction fuel with
  | zero => intro fuel' above above' n _ _ h; exact absurd h (Nat.not_lt_zero _)
  | succ fuel ih =>
    intro fuel' above above' n hvalue hguarded hfuel hfuel'
    obtain _ | fuel' := fuel'
    · exact absurd hfuel' (Nat.not_lt_zero _)
    -- the operands are older, so that less fuel is enough for them
    have hless : ∀ c ∈ (g.node n).children,
        min c.index g.entries.size < fuel ∧ min c.index g.entries.size < fuel' := by
      intro c hc
      have hlt := ho n c hc
      have hsize := lt_size_of_mem_children hc
      omega
    have htree : ∀ c ∈ (g.node n).children, ∃ k, fuel' = k + 1 := fun c hc =>
      ⟨fuel' - 1, by have := (hless c hc).2; omega⟩
    refine Writer.spells_node (w := ⟨g, d, g.readNodeWithin (g.writing d) fuel above,
      g.readRequestWithin (g.writing d) fuel above⟩) (hvalue n .refl) ⟨?_, ?_, ?_⟩
    · intro c hc
      exact ih fuel' above above' c (hvalue.child hc) (hguarded.child hc) (hless c hc).1
        (hless c hc).2
    · intro c hc v hv
      obtain ⟨k, rfl⟩ := htree c hc
      have hnode : g.node c = .const v := hv
      rw [readNodeWithin, hnode]
      rfl
    · intro c hc
      obtain ⟨k, rfl⟩ := htree c (mem_children_of_mem_bareOperands hc)
      rw [readNodeWithin]
      exact isNot_operators (hguarded n .refl c hc) _

/-- **A written value parses as its operators**, with the parameters in place of their marks, if no
`NOT` in it is a bare operand. -/
theorem parse_writeNode? (ho : g.Ordered) (d : Dialect) {n : NodeId} (hvalue : g.IsValue n)
    (hguarded : g.Guarded d n) :
    ∃ w, g.writeNode? d n = some w ∧ w.parse? d = some (g.opTree d n) := by
  have hheight : min n.index g.entries.size < g.height := by
    have hmul : g.entries.size + 1 ≤ (g.entries.size + 1) * (g.requests.size + 1) :=
      Nat.le_mul_of_pos_right _ (Nat.succ_pos _)
    unfold height
    omega
  have hleads := spells_readNode ho g.height g.height [] [] n hvalue hguarded hheight hheight []
    fun _ => rfl
  have hpieces : (g.writer d).value n = g.readNodeWithin (g.writing d) g.height [] n := rfl
  rw [← hpieces] at hleads
  have hend : ((g.writer d).value n).any Piece.isEndless = false :=
    Piece.not_endless_of_parted hleads.parted
  refine ⟨⟨Piece.sql d ((g.writer d).value n), Piece.params ((g.writer d).value n)⟩, ?_, ?_⟩
  · rw [writeNode?, Written.ofPieces?, hend]
    rfl
  · have hscan := Piece.scan_sql hleads.parted
    have hparse : ∀ w : Written, w.parse? d = ((scan d w.sql).bind (bound d w.params 0)).bind
        fun xs => (ParseState.run {} xs).bind finish? := fun w => by
      rw [Option.bind_assoc]
      rfl
    rw [hparse, hscan, Option.bind_some, ← Piece.bare, hleads.run, Option.bind_some, finish_past]
    rfl

lemma isValue_of_all (h : ∀ i < g.entries.size, (g.node ⟨i⟩).isValue = true) (n : NodeId) :
    g.IsValue n := by
  intro m _
  by_cases hm : m.index < g.entries.size
  · exact h m.index hm
  · rw [node_of_size_le (Nat.not_lt.1 hm)]
    rfl

lemma guarded_of_all (h : ∀ i < g.entries.size, ∀ c ∈ g.bareOperands d (g.node ⟨i⟩),
    (g.node c).isNot = false) (n : NodeId) : g.Guarded d n := by
  intro m _ c hc
  by_cases hm : m.index < g.entries.size
  · exact h m.index hm c hc
  · rw [node_of_size_le (Nat.not_lt.1 hm)] at hc
    simp [bareOperands] at hc

/-- `NOT a AND b IN (1, 2)`: the operators of `a`, `b` and the values are not mixed up. -/
def looseNot : Graph where
  entries := #[⟨.column ⟨0⟩ "ACTIVE", none⟩, ⟨.unary .not (some ⟨0⟩), none⟩,
    ⟨.column ⟨0⟩ "TOTAL", none⟩, ⟨.const (.int 1), none⟩, ⟨.const (.int 2), none⟩,
    ⟨.isIn ⟨2⟩ [⟨3⟩, ⟨4⟩], none⟩, ⟨.binary .and ⟨1⟩ ⟨5⟩, none⟩]
  aliases := #[{ name := "t0", origin := .table "ORDER", entity := none, idColumn := none }]

theorem parse_writeNode?_looseNot : looseNot.Ordered ∧ looseNot.IsValue ⟨6⟩ ∧
    looseNot.Guarded .postgres ⟨6⟩ ∧ ∃ w, looseNot.writeNode? .postgres ⟨6⟩ = some w ∧
      w.parse? .postgres = some (looseNot.opTree .postgres ⟨6⟩) := by
  have ho : looseNot.Ordered := ordered_iff.2 (by decide)
  have hvalue : looseNot.IsValue ⟨6⟩ := isValue_of_all (by decide) _
  have hguarded : looseNot.Guarded .postgres ⟨6⟩ := guarded_of_all (by decide) _
  exact ⟨ho, hvalue, hguarded, parse_writeNode? ho .postgres hvalue hguarded⟩

/-- Whether `NOT a` is null, where `a` compares a column with a value. -/
def bareNot : Graph where
  entries := #[⟨.column ⟨0⟩ "ACTIVE", none⟩, ⟨.const (.boolean true), none⟩,
    ⟨.binary .equal ⟨0⟩ ⟨1⟩, none⟩, ⟨.unary .not (some ⟨2⟩), none⟩, ⟨.const .null, none⟩,
    ⟨.binary .equal ⟨3⟩ ⟨4⟩, none⟩]
  aliases := #[{ name := "t0", origin := .table "CUSTOMER", entity := none, idColumn := none }]

/-- **A bare `NOT` takes what follows its operand with it**: written without parentheses, it negates
the test for null instead of being tested. -/
theorem parse_writeNode?_bareNot : bareNot.Ordered ∧ bareNot.IsValue ⟨5⟩ ∧
    ∃ a w, bareNot.opTree .postgres ⟨5⟩ = .nullTest false (.not a) ∧
      bareNot.writeNode? .postgres ⟨5⟩ = some w ∧
      w.parse? .postgres = some (.not (.nullTest false a)) ∧
      w.parse? .postgres ≠ some (bareNot.opTree .postgres ⟨5⟩) := by
  refine ⟨ordered_iff.2 (by decide), isValue_of_all (by decide) _,
    .binary .equal (.column "t0" "ACTIVE") (.const (.boolean true)),
    ⟨"(NOT (\"t0\".\"ACTIVE\" = $1) IS NULL)", [.boolean true]⟩, rfl, rfl, rfl, ?_⟩
  intro h
  cases h

end Graph

end EntityQuery.Sql
