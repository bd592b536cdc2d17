import EntityQuery.Sql.Graph

/-!
Meanings of values and requests, made from the meanings of their parts.

* A `Reading` is one rule for nodes and one for requests. A rule gets the meanings of the parts as
  functions; a part that it does not ask for is not looked at.
* `readNode` and `readRequest` apply the rules from the top down. A request that is met inside
  itself is not read again, so that every reading has an end.
-/

namespace EntityQuery.Sql

/-- Rules for meanings of nodes in `α` and of requests in `β`. -/
structure Reading (α β : Type) where
  node : (NodeId → α) → (RequestId → β) → Node → α
  request : (NodeId → α) → (RequestId → β) → RequestId → β
  /-- The meaning of a node that is too deep to be part of anything. -/
  endless : α
  /-- The meaning of a request inside itself. -/
  again : β

namespace Graph

variable {α β : Type}

mutual
/-- The meaning of a node below the requests `above`. The number bounds the depth. -/
def readNodeWithin (g : Graph) (f : Reading α β) : Nat → List RequestId → NodeId → α
  | 0, _, _ => f.endless
  | fuel + 1, above, n =>
    f.node (readNodeWithin g f fuel above) (readRequestWithin g f fuel above) (g.node n)

/-- The meaning of a request below the requests `above`. The number bounds the depth. -/
def readRequestWithin (g : Graph) (f : Reading α β) : Nat → List RequestId → RequestId → β
  | 0, _, _ => f.again
  | fuel + 1, above, r =>
    if r ∈ above then f.again
    else
      f.request (readNodeWithin g f fuel (r :: above)) (readRequestWithin g f fuel (r :: above)) r
end

/-- The number of steps of the longest way down: it passes every request at most once, and between
two requests every node at most once. -/
def height (g : Graph) : Nat := (g.entries.size + 1) * (g.requests.size + 1) + 1

/-- The meaning of a node. -/
def readNode (g : Graph) (f : Reading α β) (n : NodeId) : α := g.readNodeWithin f g.height [] n

/-- The meaning of a request. -/
def readRequest (g : Graph) (f : Reading α β) (r : RequestId) : β :=
  g.readRequestWithin f g.height [] r

end Graph

end EntityQuery.Sql
