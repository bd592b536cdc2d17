import EntityQuery.Mapping.Resolve

/-!
Result rows split into the objects they hold.

* A column that starts a new object opens a record; so does the first column.
* A column without a property is kept under its position.
* A row may be shorter than the layout, except where the key of a reference is read.
-/

namespace EntityQuery

/-- One column of a result. -/
structure LayoutColumn where
  property : Option PropertyRef
  /-- Whether the column is the first of a new object. -/
  newElement : Bool
  deriving DecidableEq, Repr, Inhabited

/-- The values of an object by property name. -/
abbrev Record := List (String × Value)

namespace Record

/-- Sets a value, in place of an earlier one of that name. -/
def put (r : Record) (name : String) (v : Value) : Record :=
  List.filter (fun field => field.1 ≠ name) r ++ [(name, v)]

/-- Sets a value if there is one. -/
def putCell (r : Record) : Option (String × Value) → Record
  | some (name, v) => r.put name v
  | none => r

end Record

namespace Mapping

/-- The name and the value of the column at a position, if the row has a value there. -/
def cell (m : Mapping) (row : List Value) (index : Nat) (c : LayoutColumn) :
    Except MappingError (Option (String × Value)) :=
  match c.property, row[index]? with
  | none, v => .ok (v.map fun v => ("c" ++ toString index, v))
  | some p, some v => .ok (some (p.name, v))
  | some p, none =>
    if m.readsKeyOf p then
      .error (.invalidRelation p.text ("row has no column " ++ toString index))
    else .ok none

/-- The objects of the columns from a position on, after the open record. -/
def readFrom (m : Mapping) (row : List Value) :
    Nat → Option Record → List LayoutColumn → Except MappingError (List Record)
  | _, current, [] => .ok current.toList
  | index, current, c :: rest => do
    let cell ← m.cell row index c
    match current with
    | none => readFrom m row (index + 1) (some (Record.putCell [] cell)) rest
    | some r =>
      if c.newElement then
        return r :: (← readFrom m row (index + 1) (some (Record.putCell [] cell)) rest)
      else readFrom m row (index + 1) (some (r.putCell cell)) rest

/-- The objects of a row. -/
def readRow (m : Mapping) (layout : List LayoutColumn) (row : List Value) :
    Except MappingError (List Record) :=
  m.readFrom row 0 none layout

end Mapping

end EntityQuery
