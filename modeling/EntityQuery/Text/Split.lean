/-!
Texts trimmed of white space, cut at a character and joined again.

* White space are the characters of the property `White_Space`.
* `splitAt?` cuts at the first occurrence, `splitOn` at every one.
* `doubled` writes a character twice wherever it occurs, `joinWith` puts a separator between texts.
-/

namespace EntityQuery.Text

/-! ### White space -/

/-- A character of the property `White_Space`. -/
def isBlank (c : Char) : Bool :=
  let n := c.toNat
  (0x9 ≤ n && n ≤ 0xD) || n == 0x20 || n == 0x85 || n == 0xA0 || n == 0x1680 ||
    (0x2000 ≤ n && n ≤ 0x200A) || n == 0x2028 || n == 0x2029 || n == 0x202F ||
    n == 0x205F || n == 0x3000

/-- Drops the white space in front. -/
def trimLeft (s : List Char) : List Char := s.dropWhile isBlank

/-- Drops the white space at the end. -/
def trimRight (s : List Char) : List Char := (s.reverse.dropWhile isBlank).reverse

/-- Drops the white space at both ends. -/
def trim (s : List Char) : List Char := trimRight (trimLeft s)

end EntityQuery.Text

namespace EntityQuery.Text

/-- The texts before and after the first `c`, if there is one. -/
def splitAt? (c : Char) : List Char → Option (List Char × List Char)
  | [] => none
  | d :: rest =>
    if d = c then some ([], rest)
    else (splitAt? c rest).map fun (before, after) => (d :: before, after)

/-- The pieces of a text between the occurrences of `c`; there is always at least one. -/
def splitOn (c : Char) : List Char → List (List Char)
  | [] => [[]]
  | d :: rest =>
    if d = c then [] :: splitOn c rest
    else match splitOn c rest with
      | [] => [[d]]
      | piece :: pieces => (d :: piece) :: pieces

/-- Writes every `c` twice. -/
def doubled (c : Char) : List Char → List Char
  | [] => []
  | d :: rest => if d = c then d :: d :: doubled c rest else d :: doubled c rest

/-- Texts with a separator between any two of them. -/
def joinWith (sep : String) : List String → String
  | [] => ""
  | [s] => s
  | s :: rest => s ++ sep ++ joinWith sep rest

end EntityQuery.Text
