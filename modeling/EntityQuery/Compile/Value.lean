import EntityQuery.Compile.Scope

/-!
Rules for sources, constants, members, grouping keys and operators.
-/

namespace EntityQuery.Compile

open Sql

/-! ### Sources and constants -/

/-- A new request over the table of an entity. -/
def source (entity : String) : Compile Meaning := do
  let table ← ask (·.tableName entity)
  let key := (← get).mapping.catalog.idColumn entity |>.toOption
  let r ← build (Build.addRequest (← get).active)
  let a ← build (Build.addAlias (.ofTable table entity key))
  editRequest r ({ · with base := some a, projection := some (.entity entity), idColumn := key })
  setActive r
  return .query r

/-- A constant; an instance of an entity stands for its key. -/
def constant (e : Expr) (l : Literal) : Compile Meaning := do
  match l with
  | .value v => .value <$> add (.const v)
  | .entity name fields =>
    match (← get).mapping.catalog.idProperty name with
    | .error _ => reject e (.entityConstant name)
    | .ok id =>
      match fields.lookup id.name with
      | some v => .value <$> add (.const v)
      | none => reject e .constantWithoutId
  | .list _ => reject e .listConstant

/-- The row a lambda parameter stands for. -/
def parameter (e : Expr) (p : Param) : Compile Meaning := do
  let r ← active e
  match (← graph).aliasFor? r p.id with
  | some a => return .row a
  | none => reject e .unboundParameter

/-! ### Grouping keys -/

/-- The entries of the grouping that an expression ranges over, with the key members they fill. -/
def groupingKeys (visit : Visit) (e grouping : Expr) :
    Compile (List (NodeId × Option PropertyRef)) := do
  let a ← rowValue visit grouping
  let r ← active e
  let g ← graph
  let q := g.request ((g.requestOver? r a).getD r)
  if q.isGrouped then return q.groups.zip q.groupMembers else reject e .keyOutsideGrouping

/-- The key of a grouping as a single value. -/
def key (visit : Visit) (e grouping : Expr) : Compile Meaning := do
  match ← groupingKeys visit e grouping with
  | [(n, _)] => .value <$> duplicate e n
  | _ => reject e .compositeKey

/-- A member of the key of a grouping. From a key that is a row, a member leads on. -/
def keyMember (visit : Visit) (e grouping : Expr) (p : PropertyRef) : Compile Meaning := do
  let keys ← groupingKeys visit e grouping
  match keys.find? fun k => k.2.any (·.same p) with
  | some (n, _) => .value <$> duplicate e n
  | none =>
    match keys with
    | [(n, _)] =>
      match (← graph).node n with
      | .row a => do .value <$> valueOf (← resolveMember e a p)
      | _ => reject e .notAKeyMember
    | _ => reject e .notAKeyMember

/-! ### Members -/

/-- A member of the only row of a request: the request selects that member alone. -/
def memberOfQuery (e : Expr) (r : RequestId) (p : PropertyRef) : Compile Meaning := do
  let a ← rowOf e r
  let m ← within r (resolveMember e a p)
  let n ← valueOf m
  edit fun g => (g.clearItems r).pushItem r { node := n }
  editRequest r ({ · with projection := some p.type })
  leave r
  .value <$> add (.sub r)

def member (visit : Visit) (e target : Expr) (p : PropertyRef) : Compile Meaning := do
  match target with
  | .key grouping => keyMember visit e grouping p
  | _ =>
    match ← visit target with
    | .row a => resolveMember e a p
    | .query r => memberOfQuery e r p
    | .value _ => reject e .memberOfValue

/-! ### Operators -/

/-- The SQL operator of a symbol; an addition of texts is a concatenation. -/
def sqlOperator? (op : BinaryOperator) (textual : Bool) : Option BinaryOp :=
  match op with
  | .and => some .and
  | .or => some .or
  | .equal => some .equal
  | .notEqual => some .notEqual
  | .lessThan => some .lessThan
  | .lessOrEqual => some .lessOrEqual
  | .greaterThan => some .greaterThan
  | .greaterOrEqual => some .greaterOrEqual
  | .coalesce => some .coalesce
  | .add => some (if textual then .concat else .add)
  | .subtract => some .subtract
  | .multiply => some .multiply
  | .divide => some .divide
  | .modulo | .exclusiveOr => none

/-- A binary operator. Under a disjunction a navigation must not drop rows. -/
def binary (visit : Visit) (e : Expr) (op : BinaryOperator) (l r : Expr) : Compile Meaning := do
  match sqlOperator? op (l.type.isTextual || r.type.isTextual) with
  | none => reject e (.operator op)
  | some sqlOp =>
    widening ((← get).widen || op == .or) do
      let left ← value visit l
      let right ← value visit r
      if op.isLogical then
        let left ← condition left
        let right ← condition right
        .value <$> add (.binary sqlOp left right)
      else .value <$> add (.binary sqlOp left right)

def unary (visit : Visit) (e : Expr) (op : UnaryOperator) (operand : Expr) : Compile Meaning := do
  match op with
  | .not =>
    let n ← condition (← value visit operand)
    .value <$> add (.unary .not (some n))
  | .convert => visit operand
  | .negate => reject e .negation

def conditional (visit : Visit) (test yes no : Expr) : Compile Meaning := do
  let t ← condition (← value visit test)
  let y ← value visit yes
  let n ← value visit no
  .value <$> add (.cond t y n)

end EntityQuery.Compile
