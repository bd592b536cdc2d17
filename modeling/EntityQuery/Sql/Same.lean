import EntityQuery.Sql.Reading

/-!
Comparing values by shape, and finding the aliases a value reads.

* The sources of two compared requests are matched one by one, so that a copy of a request equals
  the request.
* A request equals itself, whatever it stands in.
-/

namespace EntityQuery.Sql

/-! ### Equality -/

/-- The matched sources of two requests, the newest first. -/
abbrev Pairs := List (AliasId × AliasId)

/-- The source that an alias is matched with; an alias from outside stands for itself. -/
def Pairs.image (pairs : Pairs) (a : AliasId) : AliasId := (pairs.lookup a).getD a

def Pairs.agrees (pairs : Pairs) (a b : AliasId) : Bool := pairs.image a == b

/-- The optional property of two items, group keys and the like. -/
def sameMember : Option PropertyRef → Option PropertyRef → Bool
  | some p, some q => p.same q
  | none, none => true
  | _, _ => false

/-- The same statement up to the sources and the values in its clauses. -/
def Request.sameShape (x y : Request) : Bool :=
  x.kind == y.kind && x.skip == y.skip && x.take == y.take && x.distinct == y.distinct &&
    allPairs (fun j k => j.kind == k.kind) x.joins y.joins &&
    allPairs (fun i k => i.label == k.label && sameMember i.property k.property) x.items y.items &&
    allPairs sameMember x.groupMembers y.groupMembers &&
    allPairs (fun o p => o.ascending == p.ascending) x.orders y.orders &&
    x.filter.isSome == y.filter.isSome && x.having.isSome == y.having.isSome &&
    x.assignments.length == y.assignments.length

/-- The same written table, or none on both sides. -/
def sameTarget (pairs : Pairs) : Option AliasId → Option AliasId → Bool
  | some a, some b => pairs.agrees a b
  | none, none => true
  | _, _ => false

/-- The same kind of node, up to what is below it. -/
def Node.sameHead (pairs : Pairs) : Node → Node → Bool
  | .column a c, .column b d => pairs.agrees a b && c == d
  | .row a, .row b => pairs.agrees a b
  | .const v, .const w => v.equals w
  | .unary o _, .unary p _ => o == p
  | .binary o _ _, .binary p _ _ => o == p
  | .isIn _ _, .isIn _ _ => true
  | .cond _ _ _, .cond _ _ _ => true
  | _, _ => false

namespace Graph

/-- The sources of two requests matched one by one, if they are the same; `none` if a comparison
of their requests has no end. Both requests have the same number of sources. -/
def matchSources (g : Graph) (same : Pairs → RequestId → RequestId → Option Bool) (pairs : Pairs) :
    List (AliasId × AliasId) → Option (Option Pairs)
  | [] => some (some pairs)
  | (a, b) :: rest => do
    let equal ← match (g.aliasOf a).origin, (g.aliasOf b).origin with
      | .table s, .table t => some (s == t)
      | .request r, .request s => same pairs r s
      | _, _ => some false
    if equal then matchSources g same ((a, b) :: pairs) rest else return none

mutual
/-- Equality of values under matched sources; `none` if the comparison goes deeper than the number
allows. -/
def sameWithin (g : Graph) : Nat → Pairs → NodeId → NodeId → Option Bool
  | 0, _, _, _ => none
  | fuel + 1, pairs, m, n =>
    match g.node m, g.node n with
    | .sub r, .sub s => sameRequestsWithin g fuel pairs r s
    | x, y =>
      if x.sameHead pairs y && x.children.length == y.children.length then
        (x.children.zip y.children).allM fun (c, d) => sameWithin g fuel pairs c d
      else some false

/-- Equality of requests under matched sources. -/
def sameRequestsWithin (g : Graph) : Nat → Pairs → RequestId → RequestId → Option Bool
  | 0, _, _, _ => none
  | fuel + 1, pairs, r, s =>
    let x := g.request r
    let y := g.request s
    if r = s then some true
    else if x.sources.length != y.sources.length then some false
    else do
      match ← g.matchSources (sameRequestsWithin g fuel) pairs (x.sources.zip y.sources) with
      | none => return false
      | some own =>
        if x.sameShape y && sameTarget own x.target y.target then
          (x.clauseNodes.zip y.clauseNodes).allM fun (c, d) => sameWithin g fuel own c d
        else return false
end

/-- No comparison that ends goes deeper: on its way down it meets a pair of parts again only after
it has matched another alias. -/
def comparisonDepth (g : Graph) : Nat :=
  (g.entries.size * g.entries.size + g.requests.size * g.requests.size + 1) * (g.aliases.size + 1)

/-- Whether two nodes stand for the same value. -/
def sameNodes (g : Graph) (m n : NodeId) : Bool :=
  (g.sameWithin g.comparisonDepth [] m n).getD false

end Graph

/-! ### Reading an alias -/

namespace Graph

/-- Whether a source is an alias or reads it. -/
def sourceMentions (g : Graph) (a : AliasId) (query : RequestId → Bool) (b : AliasId) : Bool :=
  b == a ||
    match (g.aliasOf b).origin with
    | .request r => query r
    | .table _ => false

/-- The reading that tells whether a value reads an alias, and whether a request has it among its
sources or reads it. -/
def mentioning (g : Graph) (a : AliasId) : Reading Bool Bool where
  node part query
    | .column b _ => b == a
    | .row b => b == a
    | .sub r => query r
    | n => n.children.any part
  request part query r :=
    let q := g.request r
    (q.sources ++ q.target.toList).any (g.sourceMentions a query) || q.clauseNodes.any part
  endless := false
  again := false

/-- Whether a node reads an alias. -/
def mentions (g : Graph) (n : NodeId) (a : AliasId) : Bool := g.readNode (g.mentioning a) n

end Graph

end EntityQuery.Sql
