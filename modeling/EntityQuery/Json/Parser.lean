import EntityQuery.Json.Basic

/-!
Reading JSON text.

* White space is a blank, a tab or a line break.
* How deeply arrays and objects may be nested is for the caller to say; `parse?` allows
  `nestingLimit` levels.
* An integer outside `-2 ^ 63 .. 2 ^ 64 - 1` is read as a double, and so is `-0`. The digits of a
  double are rounded first, as far as they fit into 64 bits, and their scaling by a power of ten
  second; a number that rounds to infinity is refused.
* An escape of a lone surrogate is refused.
-/

namespace EntityQuery.Json

/-! ### Numbers -/

/-- The digits of a number: the value of those kept, the power of ten that goes with it, and
whether a digit was left out. -/
structure Digits where
  value : Nat
  exp10 : Int
  full : Bool

/-- Digits before the point: those that no longer fit only move the point. -/
def wholeDigits : List Char → Digits → Digits
  | [], d => d
  | c :: rest, d =>
    let next := 10 * d.value + (c.toNat - 48)
    if d.full || UInt64.size ≤ next then
      wholeDigits rest { d with exp10 := d.exp10 + 1, full := true }
    else wholeDigits rest { d with value := next }

/-- Digits after the point: those from the first that does not fit are left out. -/
def fractionDigits : List Char → Digits → Digits
  | [], d => d
  | c :: rest, d =>
    let next := 10 * d.value + (c.toNat - 48)
    if UInt64.size ≤ next then d
    else fractionDigits rest { d with value := next, exp10 := d.exp10 - 1 }

/-- A double scaled by a power of ten. A power below `10 ^ -308` is applied in parts, of which no
64-bit number survives three; `none` is a result out of range. -/
def scaled : Nat → Binary64 → Int → Option Binary64
  | 0, x, _ => some x
  | n + 1, x, e =>
    if e.natAbs ≤ 308 then
      let power := Binary64.ofNat (Nat.pow 10 e.natAbs)
      if 0 ≤ e then
        let y := x.mul power
        if y.isInfinite then none else some y
      else some (x.div power)
    else if x.isZero then some x
    else if 0 ≤ e then none
    else scaled n (x.div (Binary64.ofNat (Nat.pow 10 308))) (e + 308)

/-- The double of a number written with digits before the point, after it and an exponent. -/
def doubleOf (neg : Bool) (whole frac : List Char) (e : Int) : Option Binary64 :=
  let d := fractionDigits frac { wholeDigits whole ⟨0, 0, false⟩ with full := false }
  (scaled 4 (Binary64.ofNat d.value) (d.exp10 + e)).map fun x => if neg then x.neg else x

/-- The exponent part of a number: its value and the rest. -/
def exponentPart (cs : List Char) : Option (Int × List Char) :=
  let (neg, cs) := Binary64.readSign cs
  let ds := cs.takeWhile Char.isDigit
  if ds = [] then none
  else
    let n : Int := Binary64.digitsValue ds
    some (if neg then -n else n, cs.dropWhile Char.isDigit)

/-- A number as it is written: its sign, the digits before the point, those after it and the
exponent. -/
structure NumberText where
  negative : Bool
  whole : List Char
  fraction : Option (List Char)
  exponent : Option Int

/-- A number as it is written, and the rest of the text. -/
def numberText (cs : List Char) : Option (NumberText × List Char) := do
  let (negative, cs) := match cs with
    | '-' :: rest => (true, rest)
    | cs => (false, cs)
  let whole := cs.takeWhile Char.isDigit
  -- no number starts with a superfluous zero
  if whole = [] || (whole.head? == some '0' && 1 < whole.length) then none
  let (fraction, rest) ← match cs.dropWhile Char.isDigit with
    | '.' :: rest =>
      let ds := rest.takeWhile Char.isDigit
      if ds = [] then none else some (some ds, rest.dropWhile Char.isDigit)
    | rest => some (none, rest)
  let (exponent, rest) ← match rest with
    | 'e' :: rest => (exponentPart rest).map fun (e, rest) => (some e, rest)
    | 'E' :: rest => (exponentPart rest).map fun (e, rest) => (some e, rest)
    | rest => some (none, rest)
  return (⟨negative, whole, fraction, exponent⟩, rest)

/-- The number that is written; `none` is a number out of range. -/
def NumberText.value? (t : NumberText) : Option Json :=
  let n := Binary64.digitsValue t.whole
  let plain := t.fraction.isNone && t.exponent.isNone
  if plain && !t.negative && n < UInt64.size then some (.int n)
  else if plain && t.negative && 0 < n && n ≤ Nat.pow 2 63 then some (.int (-(n : Int)))
  else (doubleOf t.negative t.whole (t.fraction.getD []) (t.exponent.getD 0)).map .float

/-- A number and the rest of the text. -/
def number (cs : List Char) : Option (Json × List Char) := do
  let (t, rest) ← numberText cs
  return (← t.value?, rest)

/-! ### Strings -/

/-- The value of a hexadecimal digit. -/
def hexValue? (c : Char) : Option Nat :=
  let n := c.toNat
  if 48 ≤ n ∧ n ≤ 57 then some (n - 48)
  else if 97 ≤ n ∧ n ≤ 102 then some (n - 87)
  else if 65 ≤ n ∧ n ≤ 70 then some (n - 55)
  else none

/-- Four hexadecimal digits. -/
def hex4 (a b c d : Char) : Option Nat := do
  return (((← hexValue? a) * 16 + (← hexValue? b)) * 16 + (← hexValue? c)) * 16 + (← hexValue? d)

/-- The character of a one-letter escape. -/
def unescape? (c : Char) : Option Char :=
  match c with
  | '"' => some '"'
  | '\\' => some '\\'
  | '/' => some '/'
  | 'b' => some (Char.ofNat 8)
  | 'f' => some (Char.ofNat 12)
  | 'n' => some '\n'
  | 'r' => some '\r'
  | 't' => some '\t'
  | _ => none

/-- The rest of a string after its opening quote, with the characters so far in reverse. -/
def stringTail (acc : List Char) : List Char → Option (String × List Char)
  | [] => none
  | '"' :: rest => some (String.ofList acc.reverse, rest)
  | '\\' :: 'u' :: a :: b :: c :: d :: '\\' :: 'u' :: e :: f :: g :: h :: rest =>
    match hex4 a b c d with
    | none => none
    | some n =>
      if 0xD800 ≤ n ∧ n < 0xDC00 then
        match hex4 e f g h with
        | some m =>
          if 0xDC00 ≤ m ∧ m < 0xE000 then
            stringTail (Char.ofNat (0x10000 + (n - 0xD800) * 0x400 + (m - 0xDC00)) :: acc) rest
          else none
        | none => none
      else if 0xDC00 ≤ n ∧ n < 0xE000 then none
      else stringTail (Char.ofNat n :: acc) ('\\' :: 'u' :: e :: f :: g :: h :: rest)
  | '\\' :: 'u' :: a :: b :: c :: d :: rest =>
    match hex4 a b c d with
    | none => none
    | some n =>
      if 0xD800 ≤ n ∧ n < 0xE000 then none else stringTail (Char.ofNat n :: acc) rest
  | '\\' :: c :: rest =>
    match unescape? c with
    | some d => stringTail (d :: acc) rest
    | none => none
  | c :: rest => if c = '\\' ∨ c.toNat < 32 then none else stringTail (c :: acc) rest
termination_by cs => cs.length

/-! ### Documents -/

def isSpace (c : Char) : Bool := c == ' ' || c == '\t' || c == '\n' || c == '\r'

def skip (cs : List Char) : List Char := cs.dropWhile isSpace

mutual
/-- A value and the rest of the text. The first number bounds the steps and is at least the length
of the text, the second is the nesting still allowed. -/
def value : Nat → Nat → List Char → Option (Json × List Char)
  | 0, _, _ => none
  | n + 1, depth, cs =>
    match skip cs with
    | '"' :: rest => (stringTail [] rest).map fun (s, rest) => (.str s, rest)
    | '[' :: rest =>
      if depth = 0 then none
      else match skip rest with
        | ']' :: rest => some (.arr [], rest)
        | _ => (items n (depth - 1) rest).map fun (js, rest) => (.arr js, rest)
    | c :: rest =>
      if c = Char.ofNat 0x7B then
        if depth = 0 then none
        else match skip rest with
          | d :: tail =>
            if d = Char.ofNat 0x7D then some (.obj [], tail)
            else (members n (depth - 1) rest).map fun (fs, rest) => (.obj fs, rest)
          | [] => none
      else match c :: rest with
        | 't' :: 'r' :: 'u' :: 'e' :: rest => some (.bool true, rest)
        | 'f' :: 'a' :: 'l' :: 's' :: 'e' :: rest => some (.bool false, rest)
        | 'n' :: 'u' :: 'l' :: 'l' :: rest => some (.null, rest)
        | cs => number cs
    | [] => none

/-- The elements of an array up to its closing bracket. -/
def items : Nat → Nat → List Char → Option (List Json × List Char)
  | 0, _, _ => none
  | n + 1, depth, cs => do
    let (j, rest) ← value n depth cs
    match skip rest with
    | ',' :: rest => (items n depth rest).map fun (js, rest) => (j :: js, rest)
    | ']' :: rest => some ([j], rest)
    | _ => none

/-- The fields of an object up to its closing brace. -/
def members : Nat → Nat → List Char → Option (List (String × Json) × List Char)
  | 0, _, _ => none
  | n + 1, depth, cs => do
    match skip cs with
    | '"' :: rest =>
      let (name, rest) ← stringTail [] rest
      match skip rest with
      | ':' :: rest =>
        let (j, rest) ← value n depth rest
        match skip rest with
        | c :: rest =>
          if c = ',' then (members n depth rest).map fun (fs, rest) => ((name, j) :: fs, rest)
          else if c = Char.ofNat 0x7D then some ([(name, j)], rest)
          else none
        | [] => none
      | _ => none
    | _ => none
end

/-- The document a text is, with arrays and objects nested at most `depth` deep. -/
def parseWithin? (depth : Nat) (s : String) : Option Json :=
  let cs := s.toList
  match value (2 * cs.length + 2) depth cs with
  | some (j, rest) => if skip rest = [] then some j else none
  | none => none

/-- The nesting that a document may have. -/
def nestingLimit : Nat := 127

/-- The document a text is. -/
def parse? (s : String) : Option Json := parseWithin? nestingLimit s

end EntityQuery.Json
