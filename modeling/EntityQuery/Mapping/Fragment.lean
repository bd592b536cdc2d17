import EntityQuery.Sql.Reading

/-!
Values without handles. A fragment names every source by the navigations that lead to it from one
anchor, and can be placed in any graph at another anchor.
-/

namespace EntityQuery

open Sql

/-- A value that reads its sources by paths from an anchor. -/
inductive Fragment where
  | column (path : List PropertyRef) (name : String)
  | row (path : List PropertyRef)
  | const (value : Value)
  | unary (op : UnaryOp) (operand : Option Fragment)
  | binary (op : BinaryOp) (left right : Fragment)
  | isIn (operand : Fragment) (values : List Fragment)
  | cond (test yes no : Fragment)
  deriving Repr, Inhabited

/-! ### Capturing -/

namespace Sql.Graph

/-- The navigations from an anchor to an alias, over at most `fuel` steps. -/
def pathWithin (g : Graph) (anchor : AliasId) : Nat → AliasId → Option (List PropertyRef)
  | 0, _ => none
  | fuel + 1, a =>
    if a = anchor then some []
    else match (g.aliasOf a).route with
      | .navigation owner p _ => (pathWithin g anchor fuel owner).map (· ++ [p])
      | .root | .link _ _ => none

/-- The navigations that lead from an anchor to an alias. -/
def pathFrom? (g : Graph) (anchor a : AliasId) : Option (List PropertyRef) :=
  g.pathWithin anchor (g.aliases.size + 1) a

end Sql.Graph

namespace Fragment

/-- The reading that gives a value its fragment seen from an anchor. A value that reads a source out
of the anchor's reach, or a request, has none. -/
def capturing (g : Graph) (anchor : AliasId) : Reading (Option Fragment) Unit where
  node part _
    | .column a name => return .column (← g.pathFrom? anchor a) name
    | .row a => return .row (← g.pathFrom? anchor a)
    | .const v => some (.const v)
    | .unary op none => some (.unary op none)
    | .unary op (some e) => return .unary op (some (← part e))
    | .binary op l r => return .binary op (← part l) (← part r)
    | .isIn e vs => return .isIn (← part e) (← vs.mapM part)
    | .cond t y n => return .cond (← part t) (← part y) (← part n)
    | .sub _ => none
  request _ _ _ := ()
  endless := none
  again := ()

/-- The fragment of a node seen from an anchor. -/
def ofNode? (g : Graph) (anchor : AliasId) (n : NodeId) : Option Fragment :=
  g.readNode (capturing g anchor) n

/-! ### Placing -/

mutual
/-- Adds the value of a fragment, with its sources found by `walk`. -/
def place {m : Type → Type} [Monad m] [MonadLiftT Build m]
    (walk : List PropertyRef → m AliasId) : Fragment → m NodeId
  | .column path name => do
    let a ← walk path
    Build.add (.column a name)
  | .row path => do
    let a ← walk path
    Build.add (.row a)
  | .const v => Build.add (.const v)
  | .unary op none => Build.add (.unary op none)
  | .unary op (some e) => do
    let e ← place walk e
    Build.add (.unary op (some e))
  | .binary op l r => do
    let l ← place walk l
    let r ← place walk r
    Build.add (.binary op l r)
  | .isIn e vs => do
    let e ← place walk e
    let vs ← placeAll walk vs
    Build.add (.isIn e vs)
  | .cond t y n => do
    let t ← place walk t
    let y ← place walk y
    let n ← place walk n
    Build.add (.cond t y n)

def placeAll {m : Type → Type} [Monad m] [MonadLiftT Build m]
    (walk : List PropertyRef → m AliasId) : List Fragment → m (List NodeId)
  | [] => pure []
  | f :: fs => do
    let n ← place walk f
    let ns ← placeAll walk fs
    pure (n :: ns)
end

end Fragment

end EntityQuery
