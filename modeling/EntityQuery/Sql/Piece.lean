import EntityQuery.Types.DataType
import EntityQuery.Value.Basic

/-!
Statement text in pieces: fixed words, names to be quoted and values to be bound.

* `sql` writes the pieces in a dialect and numbers the bound values from left to right; `params`
  are these values in the same order.
-/

namespace EntityQuery.Sql

/-- A piece of a statement. -/
inductive Piece where
  /-- Fixed words and marks. -/
  | text (s : String)
  /-- A name, to be quoted. -/
  | name (s : String)
  /-- A bound value. -/
  | param (v : Value)
  /-- A bound value that states its type where the dialect asks for it. -/
  | typed (v : Value)
  /-- The text of a request inside its own text, which has no end. -/
  | endless
  deriving Repr, Inhabited

namespace Piece

/-- The value a piece binds. -/
def value? : Piece → Option Value
  | .text _ | .name _ | .endless => none
  | .param v | .typed v => some v

/-- The text of a piece, given the number of values bound before it. -/
def write (d : Dialect) (index : Nat) : Piece → String
  | .text s => s
  | .name s => d.quote s
  | .param _ => d.placeholder index
  | .typed v =>
    if d.typesParameters && !v.isNull then d.cast (d.placeholder index) v.dataType
    else d.placeholder index
  | .endless => ""

def isEndless : Piece → Bool
  | .endless => true
  | _ => false

/-- Pieces with a comma between any two parts. -/
def commas : List (List Piece) → List Piece
  | [] => []
  | [p] => p
  | p :: rest => p ++ .text ", " :: commas rest

/-- A column of a source. -/
def qualified (source column : String) : List Piece := [.name source, .text ".", .name column]

/-! ### Text and values -/

/-- The texts of pieces after `index` bound values. -/
def texts (d : Dialect) : Nat → List Piece → List String
  | _, [] => []
  | index, p :: rest =>
    p.write d index :: texts d (if p.value?.isSome then index + 1 else index) rest

/-- The text of a statement. -/
def sql (d : Dialect) (ps : List Piece) : String := String.join (texts d 0 ps)

/-- The bound values of a statement, in the order of their marks. -/
def params (ps : List Piece) : List Value := ps.filterMap value?

end Piece

end EntityQuery.Sql
