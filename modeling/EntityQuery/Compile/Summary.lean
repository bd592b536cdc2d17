import EntityQuery.Compile.Chain

/-!
Rules for aggregates and `Any`.

* Over a grouping, an aggregate is a value of the grouped request.
* Over a request inside another one, it takes the place of the selected values.
* Otherwise the request becomes a derived table of a new request that aggregates over it; so does
  a request inside another one if its rows are paged, grouped or distinct.
-/

namespace EntityQuery.Compile

open Sql

/-- The label of a derived table's column. -/
def derivedLabel (index : Nat) : String := "c" ++ toString index

/-- The value of a lambda over the row of a request. -/
def selector (visit : Visit) (e : Expr) (r : RequestId) (f : Expr) : Compile NodeId :=
  within r do value visit (← enter e r f)

/-- Restricts a request by the lambda of an aggregate, if there is one. -/
def restrictBy (visit : Visit) (e : Expr) (r : RequestId) : Option Expr → Compile Unit
  | some f => do restrict r (← within r (predicate visit e r f))
  | none => pure ()

/-- The value to be aggregated: the one of a lambda, or the only one that is selected. -/
def aggregated (visit : Visit) (e : Expr) (r : RequestId) : Option Expr → Compile NodeId
  | some f => selector visit e r f
  | none => do
    match (← request r).items with
    | [i] => pure i.node
    | _ => reject e .nothingToAggregate

/-- Selects all columns of the base if nothing is selected. -/
def selectAll (e : Expr) (r : RequestId) : Compile Unit := do
  let q ← request r
  if q.items.isEmpty then
    match q.base with
    | some a => do
      let n ← add (.column a allColumns)
      edit (·.pushItem r { node := n })
    | none => reject e .noBase

/-! ### Over a grouping -/

def aggregateGrouping (visit : Visit) (e : Expr) (op : UnaryOp) (arg : Expr) (f : Option Expr) :
    Compile Meaning := do
  let a ← rowValue visit arg
  let here ← active e
  let r := ((← graph).requestOver? here a).getD here
  match op, f with
  | .count, none => .value <$> add (.unary op none)
  | .count, some p => do
    let test ← within r (predicate visit e r p)
    let one ← add (.const (.int 1))
    let null ← add (.const .null)
    let n ← add (.cond test one null)
    .value <$> add (.unary op (some n))
  | _, some s => do
    let n ← selector visit e r s
    .value <$> add (.unary op (some n))
  | _, none => reject e .groupingWithoutSelector

/-! ### Inside another request -/

def aggregateInside (visit : Visit) (e : Expr) (op : UnaryOp) (r : RequestId) (f : Option Expr) :
    Compile Meaning := do
  let operand ← if op = .count then do
      restrictBy visit e r f
      pure none
    else some <$> aggregated visit e r f
  let n ← add (.unary op operand)
  edit fun g => (g.clearItems r).pushItem r { node := n }
  editRequest r ({ · with projection := some e.type })
  leave r
  .value <$> add (.sub r)

/-! ### Over a derived table -/

/-- Labels what a counted request selects: its grouping keys, its selected values, or all
columns. -/
def selectCounted (e : Expr) (r : RequestId) : Compile Unit := do
  let q ← request r
  if q.items.isEmpty then
    q.groups.forM fun key => do
      let n ← duplicate e key
      edit (·.pushItem r { node := n })
  if (← request r).items.isEmpty then selectAll e r
  else
    editRequest r fun q =>
      { q with items := q.items.zipIdx.map fun (i, k) => { i with label := some (derivedLabel k) } }

/-- A new request over another one as a derived table. The order of rows that are not paged is
dropped. -/
def derive (inner : RequestId) : Compile (RequestId × AliasId) := do
  let outer ← build (Build.addRequest (← request inner).parent)
  let a ← build (Build.addAlias (.derived inner))
  editRequest inner fun q =>
    { q with parent := some outer, orders := if q.isPaged then q.orders else [] }
  editRequest outer ({ · with base := some a })
  setActive outer
  return (outer, a)

def aggregateDerived (visit : Visit) (e : Expr) (op : UnaryOp) (r : RequestId) (f : Option Expr) :
    Compile RequestId := do
  if op = .count then
    restrictBy visit e r f
    selectCounted e r
  else
    let n ← aggregated visit e r f
    edit fun g => (g.clearItems r).pushItem r { node := n, label := some (derivedLabel 0) }
  let (outer, a) ← derive r
  let operand ← if op = .count then pure none else some <$> add (.column a (derivedLabel 0))
  let n ← add (.unary op operand)
  edit (·.pushItem outer { node := n })
  editRequest outer ({ · with projection := some e.type })
  return outer

def aggregate (visit : Visit) (e : Expr) (op : UnaryOp) (arg : Expr) (args : List Expr) :
    Compile Meaning := do
  let f := args[1]?
  if arg.type.isGrouping then aggregateGrouping visit e op arg f
  else
    let r ← receiver visit e arg
    let q ← request r
    let derives := q.isPaged || q.isGrouped || q.distinct
    if q.parent.isNone then .query <$> aggregateDerived visit e op r f
    else if derives then
      let saved := (← get).active
      let outer ← aggregateDerived visit e op r f
      if saved.isSome then modify ({ · with active := saved })
      .value <$> add (.sub outer)
    else aggregateInside visit e op r f

/-! ### Existence -/

/-- Whether there are rows. A query by itself becomes the selected truth value. -/
def any (visit : Visit) (e arg : Expr) (args : List Expr) : Compile Meaning := do
  if arg.type.isGrouping then reject e .anyOfGrouping
  let r ← receiver visit e arg
  restrictBy visit e r args[1]?
  selectAll e r
  let sub ← add (.sub r)
  let found ← add (.unary .exists (some sub))
  if (← request r).parent.isSome then
    leave r
    return .value found
  else
    let outer ← build (Build.addRequest none)
    editRequest r ({ · with parent := some outer })
    let yes ← add (.const (.boolean true))
    let no ← add (.const (.boolean false))
    let answer ← add (.cond found yes no)
    edit (·.pushItem outer { node := answer })
    editRequest outer ({ · with projection := some .boolean })
    setActive outer
    return .query outer

end EntityQuery.Compile
