import EntityQuery.Json.Parser
import EntityQuery.Json.Printer
import EntityQuery.Types.DataType
import EntityQuery.Value.Calendar

/-!
Literal values: the constants of queries and the parameters of statements.

* `equals` is equality of values, with numeric equality of doubles.
* `identical` is equality of contents: doubles by their bits, documents by their text.
-/

namespace EntityQuery

/-! ### Universally unique identifiers

Sixteen bytes, written as 32 hexadecimal digits in groups of 8, 4, 4, 4 and 12. A text may leave out the
hyphens, stand in braces or follow the words `urn:uuid:`, and the case of its letters does not matter. -/

/-- An identifier of 128 bits. -/
structure Uuid where
  bits : BitVec 128
  deriving DecidableEq, Repr, Inhabited

namespace Uuid

/-- The 32 hexadecimal digits in lower case. -/
def digits (u : Uuid) : List Char :=
  (List.range 32).map fun i => Json.hexDigit (u.bits.toNat / Nat.pow 16 (31 - i) % 16)

/-- Digits with hyphens between the groups. -/
def text (u : Uuid) : String :=
  let cs := u.digits
  let group (start len : Nat) := String.ofList ((cs.drop start).take len)
  group 0 8 ++ "-" ++ group 8 4 ++ "-" ++ group 12 4 ++ "-" ++ group 16 4 ++ "-" ++ group 20 12

/-- Exactly 32 digits in either case. -/
def ofDigits? (cs : List Char) : Option Uuid :=
  if cs.length = 32 then
    (cs.mapM Json.hexValue?).map fun ds => ⟨BitVec.ofNat 128 (ds.foldl (fun n d => 16 * n + d) 0)⟩
  else none

/-- Digits with hyphens after the groups. -/
def ofHyphenated? (cs : List Char) : Option Uuid :=
  let marks := [8, 13, 18, 23].all fun i => cs.drop i |>.head? |>.any (· == '-')
  if cs.length = 36 && marks then
    ofDigits? (cs.take 8 ++ (cs.drop 9).take 4 ++ (cs.drop 14).take 4 ++ (cs.drop 19).take 4 ++
      cs.drop 24)
  else none

/-- Whether a text begins as the name of an identifier does, in either case. -/
def isUrn (cs : List Char) : Bool := (cs.take 9).map Char.toLower == "urn:uuid:".toList

/-- The identifier a text is. -/
def ofText? (s : String) : Option Uuid :=
  let cs := s.toList
  match cs.length with
  | 32 => ofDigits? cs
  | 36 => ofHyphenated? cs
  | 38 =>
    if cs.head? = some (Char.ofNat 0x7B) ∧ cs.getLast? = some (Char.ofNat 0x7D) then
      ofHyphenated? ((cs.drop 1).take 36)
    else none
  | 45 => if isUrn cs then ofHyphenated? (cs.drop 9) else none
  | _ => none

end Uuid

end EntityQuery

namespace EntityQuery

/-- A literal value. Documents are kept in their stored form. -/
inductive Value where
  | int (i : Int64)
  | float (x : Binary64)
  | string (s : String)
  | boolean (b : Bool)
  | json (j : Json)
  | uuid (u : Uuid)
  | bytes (bs : List UInt8)
  | date (d : Date)
  | timestamp (t : Timestamp)
  | null
  deriving Repr, Inhabited

namespace Value

def isNull : Value → Bool
  | .null => true
  | _ => false

/-! ### Numbers -/

/-- The 64-bit integer of a value in its range. -/
def int64? (i : Int) : Option Int64 :=
  if Int64.minValue.toInt ≤ i ∧ i ≤ Int64.maxValue.toInt then some (Int64.ofInt i) else none

/-- The nearest 64-bit integer. -/
def clamp (i : Int) : Int64 :=
  if i < Int64.minValue.toInt then Int64.minValue
  else if Int64.maxValue.toInt < i then Int64.maxValue
  else Int64.ofInt i

/-- A signed decimal number in the range of 64 bits. -/
def readInt64? (s : String) : Option Int64 :=
  let (neg, ds) := Binary64.readSign s.toList
  if ds = [] ∨ !ds.all Char.isDigit then none
  else
    let n : Int := Binary64.digitsValue ds
    let i := if neg then -n else n
    int64? i

/-- The integer a value stands for: itself, an integral double clamped to 64 bits, or the number
a text spells. -/
def toInt64? : Value → Option Int64
  | .int i => some i
  | .float x => x.toInt?.map clamp
  | .string s => readInt64? s
  | _ => none

/-! ### Text -/

def boolText (b : Bool) : String := if b then "true" else "false"

/-- The plain text of a value. -/
def toText? : Value → Option String
  | .int i => some (toString i.toInt)
  | .float x => some x.text
  | .string s => some s
  | .boolean b => some (boolText b)
  | .json j => j.str?
  | .uuid u => some u.text
  | .date d => some d.text
  | .timestamp t => some t.text
  | .bytes _ => none
  | .null => none

/-- A value as it shows in an expression's text. -/
def text : Value → String
  | .int i => toString i.toInt
  | .float x => x.text
  | .string s => "\"" ++ s ++ "\""
  | .boolean b => boolText b
  | .json j => j.render
  | .uuid u => u.text
  | .bytes bs => "<" ++ toString bs.length ++ " bytes>"
  | .date d => d.text
  | .timestamp t => t.text
  | .null => "null"

/-! ### Type and comparison -/

def dataType : Value → DataType
  | .int _ => .long
  | .float _ => .double
  | .string _ => .varChar
  | .boolean _ => .boolean
  | .json _ => .json
  | .uuid _ => .uuid
  | .bytes _ => .bytea
  | .date _ => .date
  | .timestamp _ => .timestamp
  | .null => .custom "NULL"

/-- Equality of values. -/
def equals : Value → Value → Bool
  | .int a, .int b => a == b
  | .float a, .float b => a.equals b
  | .string a, .string b => a == b
  | .boolean a, .boolean b => a == b
  | .json a, .json b => a.equals b
  | .uuid a, .uuid b => a == b
  | .bytes a, .bytes b => a == b
  | .date a, .date b => a == b
  | .timestamp a, .timestamp b => a == b
  | .null, .null => true
  | _, _ => false

/-- Equality of contents. -/
def identical : Value → Value → Bool
  | .float a, .float b => a == b
  | .json a, .json b => a.render == b.render
  | a, b => equals a b

end Value

end EntityQuery
