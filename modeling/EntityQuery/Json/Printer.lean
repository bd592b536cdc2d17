import EntityQuery.Json.Basic
import EntityQuery.Text.Split

/-!
JSON text without spaces.

* A string escapes the quote, the backslash and the control characters, and nothing else.
* A double has a point or an exponent: it is positional while its point lies at most sixteen
  digits from its first digit, or its leading zeros are at most four after the point. An exponent
  shows its sign.
-/

namespace EntityQuery.Json

/-! ### Strings -/

/-- A hexadecimal digit in lower case. -/
def hexDigit (n : Nat) : Char := if n < 10 then Char.ofNat (48 + n) else Char.ofNat (87 + n)

/-- A character inside quotes. -/
def escape (c : Char) : List Char :=
  if c = '"' then ['\\', '"']
  else if c = '\\' then ['\\', '\\']
  else if c = '\n' then ['\\', 'n']
  else if c = '\r' then ['\\', 'r']
  else if c = '\t' then ['\\', 't']
  else if c.toNat = 8 then ['\\', 'b']
  else if c.toNat = 12 then ['\\', 'f']
  else if c.toNat < 32 then
    ['\\', 'u', '0', '0', hexDigit (c.toNat / 16), hexDigit (c.toNat % 16)]
  else [c]

def quoted (s : String) : String := String.ofList ('"' :: s.toList.flatMap escape ++ ['"'])

/-! ### Numbers -/

/-- A double with the fewest digits that read back. -/
def floatText (x : Binary64) : String :=
  let sign := if x.negative then "-" else ""
  if x.exponent = 2047 then "null"
  else if x.isZero then sign ++ "0.0"
  else
    let d := x.shortest .even
    let cs := Nat.toDigits 10 d.digits
    let point : Int := cs.length + d.exp10
    let body : List Char :=
      if 0 ≤ d.exp10 ∧ point ≤ 16 then d.positional ++ ['.', '0']
      else if -5 < point ∧ point ≤ 16 then d.positional
      else
        let mantissa := match cs with
          | [c] => [c]
          | c :: rest => c :: '.' :: rest
          | [] => []
        mantissa ++ 'e' :: (if 0 < point then ['+'] else []) ++ (toString (point - 1)).toList
    sign ++ String.ofList body

/-! ### Documents -/

mutual
/-- A document in one line without spaces. -/
def render : Json → String
  | .null => "null"
  | .bool b => if b then "true" else "false"
  | .int i => toString i
  | .float x => floatText x
  | .str s => quoted s
  | .arr items => "[" ++ Text.joinWith "," (renderItems items) ++ "]"
  | .obj fields => "\x7b" ++ Text.joinWith "," (renderFields fields) ++ "\x7d"

def renderItems : List Json → List String
  | [] => []
  | j :: rest => render j :: renderItems rest

def renderFields : List (String × Json) → List String
  | [] => []
  | (name, j) :: rest => (quoted name ++ ":" ++ render j) :: renderFields rest
end

end EntityQuery.Json
