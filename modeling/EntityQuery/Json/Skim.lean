import EntityQuery.Json.Parser

/-!
Passing over JSON text that nobody asks for.

* Such a value only has to be written as JSON: its numbers may have any size, its escapes may name
  any code unit, and its arrays and objects may be nested to any depth.
* `parseFields?` reads the fields of an object that are asked for and passes over the others.
-/

namespace EntityQuery.Json

/-- The text after the closing quote of a string that has been opened. -/
def skimString : List Char → Option (List Char)
  | [] => none
  | '"' :: rest => some rest
  | '\\' :: 'u' :: a :: b :: c :: d :: rest =>
    if (hex4 a b c d).isSome then skimString rest else none
  | '\\' :: c :: rest => if (unescape? c).isSome then skimString rest else none
  | c :: rest => if c = '\\' ∨ c.toNat < 32 then none else skimString rest

/-- The name of a field has been passed over: the text after the colon. -/
def skimColon (cs : List Char) : Option (List Char) :=
  match skip cs with
  | ':' :: rest => some rest
  | _ => none

mutual
/-- The text after a value. The number bounds the steps. -/
def skimValue : Nat → List Char → Option (List Char)
  | 0, _ => none
  | n + 1, cs =>
    match skip cs with
    | '"' :: rest => skimString rest
    | '[' :: rest =>
      match skip rest with
      | ']' :: rest => some rest
      | _ => skimItems n rest
    | 't' :: 'r' :: 'u' :: 'e' :: rest => some rest
    | 'f' :: 'a' :: 'l' :: 's' :: 'e' :: rest => some rest
    | 'n' :: 'u' :: 'l' :: 'l' :: rest => some rest
    | c :: rest =>
      if c = Char.ofNat 0x7B then
        match skip rest with
        | d :: tail => if d = Char.ofNat 0x7D then some tail else skimMembers n rest
        | [] => none
      else (numberText (c :: rest)).map Prod.snd
    | [] => none

/-- The text after the closing bracket of an array, from one of its elements on. -/
def skimItems : Nat → List Char → Option (List Char)
  | 0, _ => none
  | n + 1, cs => do
    match skip (← skimValue n cs) with
    | ',' :: rest => skimItems n rest
    | ']' :: rest => some rest
    | _ => none

/-- The text after the closing brace of an object, from one of its fields on. -/
def skimMembers : Nat → List Char → Option (List Char)
  | 0, _ => none
  | n + 1, cs => do
    match skip cs with
    | '"' :: rest =>
      match skip (← skimValue n (← skimColon (← skimString rest))) with
      | c :: rest =>
        if c = ',' then skimMembers n rest
        else if c = Char.ofNat 0x7D then some rest
        else none
      | [] => none
    | _ => none
end

/-- The fields of an object that are asked for, up to its closing brace. -/
def wantedMembers (wanted : List String) :
    Nat → Nat → List Char → Option (List (String × Json) × List Char)
  | 0, _, _ => none
  | n + 1, depth, cs => do
    match skip cs with
    | '"' :: rest =>
      let (name, rest) ← stringTail [] rest
      let rest ← skimColon rest
      let (found, rest) ←
        if name ∈ wanted then (value n depth rest).map fun (j, rest) => ([(name, j)], rest)
        else (skimValue n rest).map fun rest => ([], rest)
      match skip rest with
      | c :: rest =>
        if c = ',' then
          (wantedMembers wanted n depth rest).map fun (fs, rest) => (found ++ fs, rest)
        else if c = Char.ofNat 0x7D then some (found, rest)
        else none
      | [] => none
    | _ => none

/-- The document a text is; of an object, only the fields that are asked for. -/
def parseFields? (wanted : List String) (s : String) : Option Json :=
  let cs := s.toList
  match skip cs with
  | c :: rest =>
    if c = Char.ofNat 0x7B then
      match skip rest with
      | d :: tail =>
        if d = Char.ofNat 0x7D then if skip tail = [] then some (.obj []) else none
        else match wantedMembers wanted (2 * cs.length + 2) (nestingLimit - 1) rest with
          | some (fields, rest) => if skip rest = [] then some (.obj fields) else none
          | none => none
      | [] => none
    else parse? s
  | [] => none

end EntityQuery.Json
