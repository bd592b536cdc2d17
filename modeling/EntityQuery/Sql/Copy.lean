import EntityQuery.Sql.Reading

/-!
Copies of values, with some aliases or constants replaced.

* A copy adds to the graph and changes nothing that was there before.
* The requests under a copied value are copied too. Their sources get aliases of their own, and
  the replacement reaches every clause, so that a correlated request follows it.
* A value that contains itself has no copy.
-/

namespace EntityQuery.Sql

/-- What a copy replaces. -/
structure Swap where
  /-- The alias that takes the place of another one. -/
  source : AliasId → Option AliasId := fun _ => none
  value : Value → Value := fun v => v

/-- The copies of aliases and requests made so far, the newest first. -/
structure Renames where
  aliases : List (AliasId × AliasId) := []
  requests : List (RequestId × RequestId) := []

namespace Renames

/-- The alias an alias has become. -/
def alias? (ren : Renames) (a : AliasId) : Option AliasId := ren.aliases.lookup a

/-- The request a request has become; one that is not copied stays. -/
def request (ren : Renames) (r : RequestId) : RequestId := (ren.requests.lookup r).getD r

end Renames

/-- Steps that copy parts of a graph; they fail at a part that contains itself. -/
abbrev Copy := StateT Graph Option

instance : MonadLift Build Copy := ⟨fun x g => some (x.run g)⟩

namespace Swap

/-! ### Names -/

/-- The alias that a copied value reads: a replaced alias wins over a copied source. -/
def read (s : Swap) (ren : Renames) (a : AliasId) : AliasId :=
  (s.source a <|> ren.alias? a).getD a

/-- The alias that a copied request refers to: a copied source wins over a replaced alias. -/
def refer (s : Swap) (ren : Renames) (a : AliasId) : AliasId :=
  (ren.alias? a <|> s.source a).getD a

/-- The route of a copied alias. -/
def route (s : Swap) (ren : Renames) : Route → Route
  | .root => .root
  | .navigation owner p via => .navigation (s.refer ren owner) p (via.map (s.refer ren))
  | .link owner p => .link (s.refer ren owner) p

/-- What a copied request has before its clauses are filled. -/
def frame (s : Swap) (ren : Renames) (shape new : Request) : Request :=
  { new with
    kind := shape.kind, base := shape.base.map (s.refer ren),
    target := shape.target.map (s.refer ren), skip := shape.skip, take := shape.take,
    distinct := shape.distinct, projection := shape.projection, idColumn := shape.idColumn }

/-- Doubles whole numbers, in the arithmetic of 64 bits. -/
def doubling : Swap where
  value
    | .int i => .int (i + i)
    | v => v

/-! ### Parts -/

/-- Copies a node, given copies of its parts. -/
def copyNode (s : Swap) (part : NodeId → Renames → Copy NodeId)
    (query : RequestId → Renames → Copy RequestId) (n : Node) (ren : Renames) : Copy NodeId := do
  match n with
  | .column a c => Build.add (.column (s.read ren a) c)
  | .row a => Build.add (.row (s.read ren a))
  | .const v => Build.add (.const (s.value v))
  | .unary op none => Build.add (.unary op none)
  | .unary op (some e) =>
    let e ← part e ren
    Build.add (.unary op (some e))
  | .binary op l r =>
    let l ← part l ren
    let r ← part r ren
    Build.add (.binary op l r)
  | .isIn e vs =>
    let e ← part e ren
    let vs ← vs.mapM (part · ren)
    Build.add (.isIn e vs)
  | .cond t y n =>
    let t ← part t ren
    let y ← part y ren
    let n ← part n ren
    Build.add (.cond t y n)
  | .sub r =>
    let r ← query r ren
    Build.add (.sub r)

/-- Copies a source of a request. -/
def copySource (s : Swap) (g : Graph) (query : RequestId → Renames → Copy RequestId)
    (ren : Renames) (a : AliasId) : Copy Renames := do
  let d := g.aliasOf a
  let origin ← match d.origin with
    | .table name => pure (Origin.table name)
    | .request r => Origin.request <$> query r ren
  let fresh ← Build.addAlias { d with origin, route := s.route ren d.route }
  return { ren with aliases := (a, fresh) :: ren.aliases }

/-- Copies a request, given copies of its parts. -/
def copyRequest (s : Swap) (g : Graph) (part : NodeId → Renames → Copy NodeId)
    (query : RequestId → Renames → Copy RequestId) (r : RequestId) (outer : Renames) :
    Copy RequestId := do
  let shape := g.request r
  let new ← Build.addRequest (shape.parent.map outer.request)
  let ren ← shape.sources.foldlM (s.copySource g query)
    { outer with requests := (r, new) :: outer.requests }
  modify (·.modifyRequest new (s.frame ren shape))
  shape.joins.forM fun j => do
    let n ← part j.condition ren
    modify (·.pushJoin new { j with source := s.refer ren j.source, condition := n })
  shape.items.forM fun i => do
    let n ← part i.node ren
    modify (·.pushItem new { i with node := n })
  shape.filter.forM fun n => do
    let n ← part n ren
    modify (·.andFilter new n)
  shape.having.forM fun n => do
    let n ← part n ren
    modify (·.andHaving new n)
  (shape.groups.zip shape.groupMembers).forM fun (n, p) => do
    let n ← part n ren
    modify (·.pushGroup new n p)
  shape.orders.forM fun o => do
    let n ← part o.node ren
    modify (·.pushOrder new n o.ascending)
  shape.assignments.forM fun a => do
    let column ← part a.column ren
    let value ← part a.value ren
    modify (·.pushAssignment new ⟨column, value⟩)
  return new

/-- Copying as a reading of the graph `g`. -/
def copying (s : Swap) (g : Graph) :
    Reading (Renames → Copy NodeId) (Renames → Copy RequestId) where
  node := s.copyNode
  request := s.copyRequest g
  endless _ := failure
  again _ := failure

end Swap

/-! ### Copies of nodes -/

namespace Build

/-- Copies the value under a node; none if the value contains itself. -/
def copy (s : Swap) (n : NodeId) : Build (Option NodeId) :=
  modifyGet fun g =>
    match (g.readNode (s.copying g) n {}).run g with
    | some (m, extended) => (some m, extended)
    | none => (none, g)

/-- A copy succeeds with what its reading builds. -/
theorem run_copy_eq_some {s : Swap} {n m : NodeId} {g h : Graph} :
    (copy s n).run g = (some m, h) ↔ (g.readNode (s.copying g) n {}).run g = some (m, h) := by
  change (match (g.readNode (s.copying g) n {}).run g with
    | some (m, extended) => (some m, extended)
    | none => (none, g)) = (some m, h) ↔ _
  cases (g.readNode (s.copying g) n {}).run g with
  | none => simp
  | some x => simp [Prod.ext_iff]

/-- A copy of a value that is part of nothing. -/
def duplicate (n : NodeId) : Build (Option NodeId) := copy {} n

/-- A copy of a value that reads `target` wherever the value reads `source`. -/
def redirect (n : NodeId) (source target : AliasId) : Build (Option NodeId) :=
  copy { source := fun a => if a = source then some target else none } n

end Build

end EntityQuery.Sql
