/-!
Double precision numbers as bit patterns, with exact arithmetic on what they stand for.

* A finite number is `± m · 2 ^ q`; `magnitude` gives it as a quotient of natural numbers.
* `round` takes a quotient to the nearest double, a tie to the even one.
* `shortest` finds the fewest decimal digits that round back to the number, and among those the
  nearest; `text` writes them positionally.
* `equals` is numeric equality: no `NaN` equals anything, the two zeros are equal.
-/

namespace EntityQuery

/-- A double precision number, by its bits. -/
structure Binary64 where
  bits : UInt64
  deriving DecidableEq, Repr, Inhabited

namespace Binary64

/-! ### The parts of a number -/

def negative (x : Binary64) : Bool := decide (Nat.pow 2 63 ≤ x.bits.toNat)

/-- The eleven exponent bits. -/
def exponent (x : Binary64) : Nat := x.bits.toNat / Nat.pow 2 52 % Nat.pow 2 11

/-- The fifty-two fraction bits. -/
def fraction (x : Binary64) : Nat := x.bits.toNat % Nat.pow 2 52

def isNaN (x : Binary64) : Bool := x.exponent == 2047 && x.fraction != 0

def isInfinite (x : Binary64) : Bool := x.exponent == 2047 && x.fraction == 0

def isZero (x : Binary64) : Bool := x.exponent == 0 && x.fraction == 0

/-- The integer `m` of a finite number `± m · 2 ^ q`. -/
def significand (x : Binary64) : Nat :=
  if x.exponent = 0 then x.fraction else Nat.pow 2 52 + x.fraction

/-- The power `q` of a finite number `± m · 2 ^ q`. -/
def power (x : Binary64) : Int :=
  if x.exponent = 0 then -1074 else (x.exponent : Int) - 1075

/-- Numeric equality. -/
def equals (x y : Binary64) : Bool :=
  !x.isNaN && !y.isNaN && (x == y || (x.isZero && y.isZero))

/-! ### Quotients and rounding -/

/-- `m · 2 ^ q` as a numerator and a denominator. -/
def quotient (m : Nat) (q : Int) : Nat × Nat :=
  match q with
  | .ofNat k => (m * Nat.pow 2 k, 1)
  | .negSucc k => (m, Nat.pow 2 (k + 1))

/-- The absolute value of a finite number as a quotient. -/
def magnitude (x : Binary64) : Nat × Nat := quotient x.significand x.power

/-- `num / den` to the nearest integer, a tie to the even one. -/
def nearest (num den : Nat) : Nat :=
  let m := num / den
  let twice := 2 * (num % den)
  if twice < den then m else if den < twice then m + 1 else m + m % 2

/-- `num / den` scaled by `2 ^ -q`, to the nearest integer. -/
def nearestScaled (num den : Nat) (q : Int) : Nat :=
  match q with
  | .ofNat k => nearest num (den * Nat.pow 2 k)
  | .negSucc k => nearest (num * Nat.pow 2 (k + 1)) den

/-- The number with the given sign and magnitude bits. -/
def ofParts (neg : Bool) (bits : Nat) : Binary64 :=
  ⟨UInt64.ofNat (bits + if neg then Nat.pow 2 63 else 0)⟩

def infinity (neg : Bool) : Binary64 := ofParts neg (2047 * Nat.pow 2 52)

def nan (neg : Bool) : Binary64 := ofParts neg (2047 * Nat.pow 2 52 + Nat.pow 2 51)

def zero (neg : Bool) : Binary64 := ofParts neg 0

/-- The nearest number to `± num / den`, a tie to the even one; `den` is not zero. -/
def round (neg : Bool) (num den : Nat) : Binary64 :=
  if num = 0 then zero neg else
  let k : Int := (num.log2 : Int) - (den.log2 : Int)
  -- the quotient lies strictly between `2 ^ (k - 1)` and `2 ^ (k + 1)`
  let big := match k with
    | .ofNat e => decide (den * Nat.pow 2 e ≤ num)
    | .negSucc e => decide (den ≤ num * Nat.pow 2 (e + 1))
  let q := max ((if big then k else k - 1) - 52) (-1074)
  let m := nearestScaled num den q
  -- a carry to `2 ^ 53` moves into the exponent by itself
  let bits := (q + 1074).toNat * Nat.pow 2 52 + m
  if 2047 * Nat.pow 2 52 ≤ bits then infinity neg else ofParts neg bits

/-- The nearest number to a natural number. -/
def ofNat (n : Nat) : Binary64 := round false n 1

/-- The product of two finite numbers that are not negative. -/
def mul (x y : Binary64) : Binary64 :=
  round false (x.magnitude.1 * y.magnitude.1) (x.magnitude.2 * y.magnitude.2)

/-- The quotient of two finite numbers that are not negative, the second not zero. -/
def div (x y : Binary64) : Binary64 :=
  round false (x.magnitude.1 * y.magnitude.2) (x.magnitude.2 * y.magnitude.1)

def neg (x : Binary64) : Binary64 := ofParts (!x.negative) (x.bits.toNat % Nat.pow 2 63)

/-! ### Integers -/

/-- The integer a number is, if it is one. -/
def toInt? (x : Binary64) : Option Int :=
  if x.exponent = 2047 then none else
  let (num, den) := x.magnitude
  if num % den = 0 then some (if x.negative then -((num / den : Nat) : Int) else (num / den : Nat))
  else none

/-! ### Decimal digits -/

/-- How a number half way between two decimals of the same length is written. -/
inductive Tie where
  | up
  | even
  deriving DecidableEq, Repr

/-- `digits · 10 ^ exp10`. -/
structure Decimal where
  digits : Nat
  exp10 : Int
  deriving DecidableEq, Repr

/-- Moves trailing zeros of the digits into the exponent. -/
def Decimal.strip : Nat → Decimal → Decimal
  | 0, d => d
  | n + 1, d =>
    if d.digits % 10 = 0 then strip n ⟨d.digits / 10, d.exp10 + 1⟩ else d

/-- The least `p` at or above `from` with `num / den < 10 ^ p`, searched over `fuel` steps. -/
def decimalPoint (num den : Nat) : Nat → Int → Int
  | 0, p => p
  | fuel + 1, p =>
    let below := match p with
      | .ofNat e => decide (num < den * Nat.pow 10 e)
      | .negSucc e => decide (num * Nat.pow 10 (e + 1) < den)
    if below then p else decimalPoint num den fuel (p + 1)

/-- The decimal of `n` digits nearest to `mid` inside the interval, if there is one. Bounds and
middle are numerators over the common denominator `den`; `closed` says whether the bounds belong
to the interval. -/
def grid (tie : Tie) (low mid high den : Nat) (closed : Bool) (exp10 : Int) : Option Decimal :=
  let unit := match exp10 with
    | .ofNat e => den * Nat.pow 10 e
    | .negSucc _ => den
  let up := match exp10 with
    | .ofNat _ => 1
    | .negSucc e => Nat.pow 10 (e + 1)
  let d := mid * up / unit
  let inside (c : Nat) : Bool :=
    if closed then decide (low * up ≤ c * unit) && decide (c * unit ≤ high * up)
    else decide (low * up < c * unit) && decide (c * unit < high * up)
  let twice := 2 * (mid * up % unit)
  let above := unit < twice || (unit == twice && (tie == .up || d % 2 == 1))
  match inside d, inside (d + 1) with
  | true, true => some ⟨if above then d + 1 else d, exp10⟩
  | true, false => some ⟨d, exp10⟩
  | false, true => some ⟨d + 1, exp10⟩
  | false, false => none

/-- The first grid that has a point in the interval, from the coarsest on. -/
def search (tie : Tie) (low mid high den : Nat) (closed : Bool) : Nat → Int → Decimal
  | 0, e => ⟨0, e⟩
  | fuel + 1, e =>
    match grid tie low mid high den closed e with
    | some d => d
    | none => search tie low mid high den closed fuel (e - 1)

/-- The fewest decimal digits that round back to a finite number other than zero, and of these the
nearest to it. -/
def shortest (tie : Tie) (x : Binary64) : Decimal :=
  let m := x.significand
  let (scale, den) := quotient 1 (x.power - 2)
  -- the gap below a power of two is half the gap above
  let low := if m = Nat.pow 2 52 ∧ 1 < x.exponent then 4 * m - 1 else 4 * m - 2
  let point := decimalPoint (4 * m * scale) den 640 (-324)
  let found := search tie (low * scale) (4 * m * scale) ((4 * m + 2) * scale) den (m % 2 == 0)
    18 (point - 1)
  found.strip 20

/-! ### Text -/

/-- Digits with the decimal point where it belongs, and zeros up to it. -/
def Decimal.positional (d : Decimal) : List Char :=
  let cs := Nat.toDigits 10 d.digits
  match d.exp10 with
  | .ofNat k => cs ++ List.replicate k '0'
  | .negSucc k =>
    if k + 1 < cs.length then cs.take (cs.length - (k + 1)) ++ '.' :: cs.drop (cs.length - (k + 1))
    else '0' :: '.' :: List.replicate (k + 1 - cs.length) '0' ++ cs

/-- A number in positional notation, with the fewest digits that read back; an integer has no
point, and zero keeps its sign. -/
def text (x : Binary64) : String :=
  if x.isNaN then "NaN" else
  let sign := if x.negative then "-" else ""
  if x.isInfinite then sign ++ "inf"
  else if x.isZero then sign ++ "0"
  else sign ++ String.ofList (x.shortest .up).positional

/-! ### Reading -/

/-- The value of a string of decimal digits. -/
def digitsValue (cs : List Char) : Nat := cs.foldl (fun n c => 10 * n + (c.toNat - 48)) 0

/-- The nearest number to `± digits · 10 ^ exp10`. -/
def ofDecimal (neg : Bool) (digits : Nat) (exp10 : Int) : Binary64 :=
  if digits = 0 then zero neg
  else if 400 < exp10 then infinity neg
  else if exp10 < -(400 + ((Nat.toDigits 10 digits).length : Int)) then zero neg
  else match exp10 with
    | .ofNat e => round neg (digits * Nat.pow 10 e) 1
    | .negSucc e => round neg digits (Nat.pow 10 (e + 1))

/-- An optional sign: whether it is a minus, and the rest. -/
def readSign : List Char → Bool × List Char
  | '-' :: rest => (true, rest)
  | '+' :: rest => (false, rest)
  | cs => (false, cs)

/-- An exponent: `e` or `E`, an optional sign and at least one digit. -/
def readExponent : List Char → Option Int
  | [] => some 0
  | c :: rest =>
    if c = 'e' ∨ c = 'E' then
      let (neg, ds) := readSign rest
      if ds ≠ [] ∧ ds.all Char.isDigit then
        some (if neg then -(digitsValue ds : Int) else digitsValue ds)
      else none
    else none

/-- Reads a number: a sign, digits with at most one point among or around them, an exponent; or
one of the words for infinity and `NaN` in any case. -/
def ofText? (s : String) : Option Binary64 :=
  let (neg, cs) := readSign s.toList
  let word := String.ofList (cs.map Char.toLower)
  if word = "inf" ∨ word = "infinity" then some (infinity neg)
  else if word = "nan" then some (nan neg)
  else
    let whole := cs.takeWhile Char.isDigit
    let rest := cs.dropWhile Char.isDigit
    let (frac, rest) := match rest with
      | '.' :: r => (r.takeWhile Char.isDigit, r.dropWhile Char.isDigit)
      | r => ([], r)
    if whole = [] ∧ frac = [] then none else
    (readExponent rest).map fun e =>
      ofDecimal neg (digitsValue (whole ++ frac)) (e - (frac.length : Int))

end Binary64

end EntityQuery
