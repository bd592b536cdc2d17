import EntityQuery.Proofs.Parsing.Scanner
import EntityQuery.Sql.Text

/-!
Operators with their operands, read from lexemes by SQL's precedence.

* `OpTree` is what a text says about operators: parentheses and stated types are gone.
* The parser keeps the operators that wait for an operand on a stack. An operator that follows takes
  what the waiting ones that bind at least as tightly have made of their operands (`reduce`).
* `OR` binds weakest, then `AND`, `NOT`, the comparisons with `LIKE`, `IN` and `IS NULL`,
  concatenation, sums and products.
-/

namespace EntityQuery.Sql

/-- An operator with its operands, or a value without operators. -/
inductive OpTree where
  | column (source name : String)
  | const (v : Value)
  /-- A number that is written out. -/
  | number (digits : String)
  | not (e : OpTree)
  | nullTest (negated : Bool) (e : OpTree)
  /-- A function of one value, or of whole rows. -/
  | function (op : UnaryOp) (operand : Option OpTree)
  | binary (op : BinaryOp) (l r : OpTree)
  | isIn (e : OpTree) (vs : List OpTree)
  | cond (t y n : OpTree)

namespace OpTree

/-- False: one is never zero. -/
def never : OpTree := .binary .equal (.number "1") (.number "0")

def isNot : OpTree → Bool
  | .not _ => true
  | _ => false

end OpTree

/-! ### Precedence -/

namespace BinaryOp

/-- How tightly an operator binds, from one upwards. -/
def tightness : BinaryOp → Nat
  | .or => 1
  | .and => 2
  | .equal | .notEqual | .lessThan | .lessOrEqual | .greaterThan | .greaterOrEqual | .like => 4
  | .concat | .coalesce => 5
  | .add | .subtract => 6
  | .multiply | .divide => 7

/-- The operators that stand between their operands. -/
def infixes : List BinaryOp := all.filter (· != .coalesce)

/-- The operator of a sign or word. -/
def ofSymbol? (s : String) : Option BinaryOp := infixes.find? fun op => op.symbol = s

end BinaryOp

/-- How tightly `NOT` binds. -/
def notTightness : Nat := 3

/-- How tightly `IN` and `IS NULL` bind. -/
def testTightness : Nat := BinaryOp.equal.tightness

/-! ### The parser -/

/-- What waits for an operand. -/
inductive ParseFrame where
  | not
  /-- An operator after its left operand. -/
  | infixed (op : BinaryOp) (l : OpTree)
  | paren
  /-- A function after its first arguments. -/
  | call (f : String) (args : List OpTree)
  /-- `IN` after the first values of its list. -/
  | list (e : OpTree) (vs : List OpTree)
  | test
  | yes (t : OpTree)
  | no (t y : OpTree)
  | cast

/-- What may come next. -/
inductive ParseMode where
  | operand
  | after (e : OpTree)
  /-- After the name of a source. -/
  | source (s : String)
  | qualifier (s : String)
  | function (f : String)
  /-- After the mark for whole rows. -/
  | rows (f : String)
  | case
  | is (e : OpTree)
  | isNot (e : OpTree)
  | isIn (e : OpTree)
  /-- In the name of a type. -/
  | type (e : OpTree)
  | precision (e : OpTree)
  /-- In the type that a value is cast to, inside so many parentheses. -/
  | target (e : OpTree) (depth : Nat)

structure ParseState where
  stack : List ParseFrame := []
  mode : ParseMode := .operand

namespace ParseState

/-- The operators on top of the stack that bind at least as tightly take their operand. -/
def reduce (k : Nat) : List ParseFrame → OpTree → List ParseFrame × OpTree
  | .not :: stack, e =>
    if k ≤ notTightness then reduce k stack (.not e) else (.not :: stack, e)
  | .infixed op l :: stack, e =>
    if k ≤ op.tightness then reduce k stack (.binary op l e) else (.infixed op l :: stack, e)
  | stack, e => (stack, e)

/-- Whether `NOT` may start an operand. -/
def admitsNot : List ParseFrame → Bool
  | .infixed op _ :: _ => op.tightness < notTightness
  | _ => true

/-- The value of a function; nothing for a function that is not known. -/
def called? (f : String) (args : List OpTree) : Option OpTree :=
  match f, args with
  | "COALESCE", [l, r] => some (.binary .coalesce l r)
  | "CONCAT", [l, r] => some (.binary .concat l r)
  | f, [e] => (aggregate? f).map (.function · (some e))
  | _, _ => none
where
  /-- The aggregate of a name. -/
  aggregate? (f : String) : Option UnaryOp := UnaryOp.all.find? fun op => op.function? = some f

/-- Reads a lexeme where an operand has to start. -/
def open? (stack : List ParseFrame) : Lexeme Value → Option ParseState
  | .mark v => some ⟨stack, .after (.const v)⟩
  | .name s => some ⟨stack, .source s⟩
  | .word "NOT" => if admitsNot stack then some ⟨.not :: stack, .operand⟩ else none
  | .word "NULL" => some ⟨stack, .after (.const .null)⟩
  | .word "CASE" => some ⟨stack, .case⟩
  | .word w =>
    if w.toList.all Char.isDigit then some ⟨stack, .after (.number w)⟩
    else some ⟨stack, .function w⟩
  | .sign "(" => some ⟨.paren :: stack, .operand⟩
  | .sign "*" =>
    match stack with
    | .call f [] :: stack => some ⟨stack, .rows f⟩
    | _ => none
  | .sign _ => none

/-- Closes a parenthesis. -/
def close? (e : OpTree) : List ParseFrame → Option ParseState
  | .paren :: stack => some ⟨stack, .after e⟩
  | .call f args :: stack => (called? f (args ++ [e])).map fun e => ⟨stack, .after e⟩
  | .list x vs :: stack => some ⟨stack, .after (.isIn x (vs ++ [e]))⟩
  | _ => none

/-- Goes on to the next argument or value. -/
def next? (e : OpTree) : List ParseFrame → Option ParseState
  | .call f args :: stack => some ⟨.call f (args ++ [e]) :: stack, .operand⟩
  | .list x vs :: stack => some ⟨.list x (vs ++ [e]) :: stack, .operand⟩
  | _ => none

/-- Reads a word that does not stand for an operator after an operand. -/
def keyword? (w : String) (e : OpTree) : List ParseFrame → Option ParseState
  | .test :: stack => if w = "THEN" then some ⟨.yes e :: stack, .operand⟩ else none
  | .yes t :: stack => if w = "ELSE" then some ⟨.no t e :: stack, .operand⟩ else none
  | .no t y :: stack => if w = "END" then some ⟨stack, .after (.cond t y e)⟩ else none
  | .cast :: stack => if w = "AS" then some ⟨stack, .target e 0⟩ else none
  | _ => none

/-- Reads an operator after its left operand. -/
def infix? (s : String) (stack : List ParseFrame) (e : OpTree) : Option ParseState :=
  (BinaryOp.ofSymbol? s).map fun op =>
    let (stack, e) := reduce op.tightness stack e
    ⟨.infixed op e :: stack, .operand⟩

/-- Reads a lexeme after an operand. -/
def follow? (stack : List ParseFrame) (e : OpTree) : Lexeme Value → Option ParseState
  | .word "IS" => let (stack, e) := reduce testTightness stack e; some ⟨stack, .is e⟩
  | .word "IN" => let (stack, e) := reduce testTightness stack e; some ⟨stack, .isIn e⟩
  | .sign ")" => let (stack, e) := reduce 1 stack e; close? e stack
  | .sign "," => let (stack, e) := reduce 1 stack e; next? e stack
  | .sign "::" => some ⟨stack, .type e⟩
  | .sign s => infix? s stack e
  | .word w =>
    infix? w stack e <|> let (stack, e) := reduce 1 stack e; keyword? w e stack
  | .name _ | .mark _ => none

/-- Reads a lexeme. -/
def step (σ : ParseState) (x : Lexeme Value) : Option ParseState :=
  match σ.mode, x with
  | .operand, x => open? σ.stack x
  | .after e, x => follow? σ.stack e x
  | .source s, .sign "." => some { σ with mode := .qualifier s }
  | .qualifier s, .name c => some { σ with mode := .after (.column s c) }
  | .qualifier s, .sign "*" => some { σ with mode := .after (.column s allColumns) }
  | .function "CAST", .sign "(" => some ⟨.cast :: σ.stack, .operand⟩
  | .function f, .sign "(" => some ⟨.call f [] :: σ.stack, .operand⟩
  | .rows f, .sign ")" =>
    (called?.aggregate? f).map fun op => { σ with mode := .after (.function op none) }
  | .case, .word "WHEN" => some ⟨.test :: σ.stack, .operand⟩
  | .is e, .word "NULL" => some { σ with mode := .after (.nullTest false e) }
  | .is e, .word "NOT" => some { σ with mode := .isNot e }
  | .isNot e, .word "NULL" => some { σ with mode := .after (.nullTest true e) }
  | .isIn e, .sign "(" => some ⟨.list e [] :: σ.stack, .operand⟩
  | .type e, .word "DOUBLE" => some { σ with mode := .precision e }
  | .type e, .word _ => some { σ with mode := .after e }
  | .precision e, .word "PRECISION" => some { σ with mode := .after e }
  | .target e k, .word _ => some { σ with mode := .target e k }
  | .target e k, .sign "(" => some { σ with mode := .target e (k + 1) }
  | .target e 0, .sign ")" => some { σ with mode := .after e }
  | .target e (k + 1), .sign ")" => some { σ with mode := .target e k }
  | _, _ => none

/-- Reads lexemes. -/
def run (σ : ParseState) (xs : List (Lexeme Value)) : Option ParseState := xs.foldlM step σ

/-- The whole tree, if nothing waits for an operand any more. -/
def finish? (σ : ParseState) : Option OpTree :=
  match σ.mode with
  | .after e =>
    match reduce 1 σ.stack e with
    | ([], e) => some e
    | _ => none
  | _ => none

end ParseState

/-- The operators of a written value with its parameters. -/
def Written.parse? (d : Dialect) (w : Written) : Option OpTree := do
  let xs ← bound d w.params 0 (← scan d w.sql)
  (← ParseState.run {} xs).finish?

namespace ParseState

@[simp] lemma run_nil (σ : ParseState) : run σ [] = some σ := rfl

lemma run_append (σ : ParseState) (xs ys : List (Lexeme Value)) :
    run σ (xs ++ ys) = (run σ xs).bind (run · ys) := by
  simp [run, List.foldlM_append]

/-! ### Values under `NOT` -/

/-- The state after a value: its leading `NOT`s still wait, since a tighter operator may follow. -/
def past (stack : List ParseFrame) : OpTree → ParseState
  | .not e => past (.not :: stack) e
  | e => ⟨stack, .after e⟩

lemma past_of_not_isNot {e : OpTree} (h : e.isNot = false) (stack : List ParseFrame) :
    past stack e = ⟨stack, .after e⟩ := by
  cases e with
  | not e => cases h
  | _ => rfl

/-- Whether a value may stand after what waits for it. -/
def Fits (stack : List ParseFrame) (e : OpTree) : Prop := e.isNot = true → admitsNot stack = true

/-- The waiting `NOT`s are no different from those of the value, for what binds no more tightly. -/
lemma reduce_past : ∀ (e : OpTree) (stack : List ParseFrame), ∃ stack' e',
    past stack e = ⟨stack', .after e'⟩ ∧
      ∀ k ≤ notTightness, reduce k stack' e' = reduce k stack e := by
  intro e
  match e with
  | .not e =>
    intro stack
    obtain ⟨stack', e', hpast, hreduce⟩ := reduce_past e (.not :: stack)
    refine ⟨stack', e', hpast, fun k hk => ?_⟩
    rw [hreduce k hk, reduce, if_pos hk]
  | .column _ _ | .const _ | .number _ | .nullTest _ _ | .function _ _ | .binary _ _ _ | .isIn _ _
  | .cond _ _ _ => exact fun stack => ⟨_, _, rfl, fun _ _ => rfl⟩

/-- The lexemes after a value that bind less tightly than `NOT`. -/
def loose : List (Lexeme Value) :=
  [.sign ")", .sign ",", .word "AND", .word "OR", .word "THEN", .word "ELSE", .word "END"]

/-- What binds less tightly than `NOT` finds the whole value before it. -/
lemma step_past {x : Lexeme Value} (hx : x ∈ loose) (stack : List ParseFrame) (e : OpTree) :
    step (past stack e) x = step ⟨stack, .after e⟩ x := by
  obtain ⟨stack', e', hpast, hreduce⟩ := reduce_past e stack
  have hone := hreduce 1 (by decide)
  have htwo := hreduce 2 (by decide)
  rw [hpast]
  simp only [loose, List.mem_cons, List.not_mem_nil, or_false] at hx
  rcases hx with rfl | rfl | rfl | rfl | rfl | rfl | rfl
  · exact congrArg (fun p => close? p.2 p.1) hone
  · exact congrArg (fun p => next? p.2 p.1) hone
  · exact congrArg (fun p => some (ParseState.mk (.infixed .and p.2 :: p.1) .operand)) htwo
  · exact congrArg (fun p => some (ParseState.mk (.infixed .or p.2 :: p.1) .operand)) hone
  · exact congrArg (fun p => keyword? "THEN" p.2 p.1) hone
  · exact congrArg (fun p => keyword? "ELSE" p.2 p.1) hone
  · exact congrArg (fun p => keyword? "END" p.2 p.1) hone

lemma run_past {x : Lexeme Value} (hx : x ∈ loose) (xs : List (Lexeme Value)) (stack : List ParseFrame)
    (e : OpTree) : run (past stack e) (x :: xs) = run ⟨stack, .after e⟩ (x :: xs) := by
  simp only [run, List.foldlM_cons, step_past hx]

lemma finish_past (e : OpTree) : (past [] e).finish? = some e := by
  obtain ⟨stack', e', hpast, hreduce⟩ := reduce_past e []
  have hone := hreduce 1 (by decide)
  rw [hpast, finish?]
  dsimp only
  rw [hone]
  rfl

/-! ### Operators in parentheses -/

/-- The lexeme of an operator between its operands. -/
def infixLexeme (op : BinaryOp) : Lexeme Value :=
  match op with
  | .and | .or | .like => .word op.symbol
  | _ => .sign op.symbol

/-- An operator finds its left operand, unless this is a `NOT` that binds less tightly. -/
lemma step_infix {op : BinaryOp} (hop : op ≠ .coalesce) {l : OpTree}
    (hl : l.isNot = true → op.tightness < notTightness) (stack : List ParseFrame) :
    step (past (.paren :: stack) l) (infixLexeme op) =
      some ⟨.infixed op l :: .paren :: stack, .operand⟩ := by
  have hstep : step (past (.paren :: stack) l) (infixLexeme op) =
      step ⟨.paren :: stack, .after l⟩ (infixLexeme op) := by
    cases h : l.isNot with
    | false => rw [past_of_not_isNot h]
    | true =>
      have hlt := hl h
      refine step_past ?_ _ l
      cases op <;> simp_all [BinaryOp.tightness, notTightness, infixLexeme, loose, BinaryOp.symbol]
  rw [hstep]
  cases op <;> first | exact absurd rfl hop | rfl

/-- The parenthesis after a right operand closes the operator with its operands. -/
lemma step_close_infix (op : BinaryOp) (l r : OpTree) (stack : List ParseFrame) :
    step (past (.infixed op l :: .paren :: stack) r) (.sign ")") =
      some ⟨stack, .after (.binary op l r)⟩ := by
  have hop : 1 ≤ op.tightness := by cases op <;> decide
  rw [step_past (by simp [loose])]
  simp only [step, follow?, reduce, if_pos hop, close?]

end ParseState

end EntityQuery.Sql
