import EntityQuery.Compile.Value

/-!
Rules for operators on rows: filters, paging, orders, and the predicates that become `LIKE` or
`IN`.
-/

namespace EntityQuery.Compile

open Sql

/-! ### Filters -/

/-- Adds a condition on the rows of a request, or on its groups once it is grouped. -/
def restrict (r : RequestId) (n : NodeId) : Compile Unit := do
  if (← request r).isGrouped then edit (·.andHaving r n) else edit (·.andFilter r n)

/-- The condition of a lambda over the row of a request. -/
def predicate (visit : Visit) (e : Expr) (r : RequestId) (f : Expr) : Compile NodeId := do
  let body ← enter e r f
  condition (← value visit body)

/-- The request of an operator's receiver, made active. -/
def openReceiver (visit : Visit) (e arg : Expr) : Compile RequestId := do
  let r ← receiver visit e arg
  setActive r
  return r

def filter (visit : Visit) (e arg : Expr) (args : List Expr) : Compile Meaning := do
  let r ← openReceiver visit e arg
  let n ← predicate visit e r (← argument e args 1)
  restrict r n
  return .query r

def first (visit : Visit) (e arg : Expr) (args : List Expr) : Compile Meaning := do
  let r ← openReceiver visit e arg
  match args[1]? with
  | some f => restrict r (← predicate visit e r f)
  | none => pure ()
  editRequest r ({ · with take := some 1 })
  return .query r

/-! ### Paging -/

/-- A number of rows. -/
def rowCount (e count : Expr) : Compile Nat :=
  match count with
  | .const (.value (.int i)) =>
    if i.toInt < 0 then reject e .negativeCount else pure i.toInt.toNat
  | _ => reject e .countNotConstant

def skip (visit : Visit) (e arg : Expr) (args : List Expr) : Compile Meaning := do
  let r ← openReceiver visit e arg
  let n ← rowCount e (← argument e args 1)
  editRequest r ({ · with skip := some n })
  return .query r

def take (visit : Visit) (e arg : Expr) (args : List Expr) : Compile Meaning := do
  let r ← openReceiver visit e arg
  let n ← rowCount e (← argument e args 1)
  editRequest r ({ · with take := some n })
  return .query r

def distinct (visit : Visit) (e arg : Expr) : Compile Meaning := do
  let r ← openReceiver visit e arg
  editRequest r ({ · with distinct := true })
  return .query r

/-! ### Orders -/

/-- Orders the rows of a request; a new order replaces the ones before it, a further order breaks
their ties. -/
def order (visit : Visit) (e : Expr) (restart ascending : Bool) (arg : Expr) (args : List Expr) :
    Compile Meaning := do
  let r ← openReceiver visit e arg
  if restart then editRequest r ({ · with orders := [] })
  let body ← enter e r (← argument e args 1)
  let n ← value visit body
  edit (·.pushOrder r n ascending)
  return .query r

/-! ### Parts of texts, members of lists -/

/-- The pattern that stands for any text. -/
def wildcard : Compile NodeId := add (.const (.string "%"))

def concat (l r : NodeId) : Compile NodeId := add (.binary .concat l r)

/-- A match with a text that may go on before the given text, after it, or both. -/
def like (visit : Visit) (e : Expr) (before after : Bool) (arg : Expr) (args : List Expr) :
    Compile Meaning := do
  let subject ← value visit arg
  let operand ← value visit (← argument e args 1)
  let tail ← if after then concat operand (← wildcard) else pure operand
  let pattern ← if before then concat (← wildcard) tail else pure tail
  .value <$> add (.binary .like subject pattern)

/-- A part of a text, or a member of a constant list; a null is a member of no list. -/
def contains (visit : Visit) (e arg : Expr) (args : List Expr) : Compile Meaning := do
  let item ← argument e args 1
  if arg.type.isTextual then like visit e true true arg args
  else match arg with
    | .const (.list vs) =>
      let operand ← value visit item
      let values ← (vs.filter fun v => !v.isNull).mapM fun v => add (.const v)
      .value <$> add (.isIn operand values)
    | _ => reject e .containsReceiver

end EntityQuery.Compile
