import EntityQuery.Sql.Node

/-!
The graph of a statement: nodes, aliases and requests, which refer to each other by handles.

* A node that becomes part of another node or of a request's clause remembers where it belongs;
  `owner?` follows these links up to a request.
* Links upwards are followed at most as often as there are parts, which is enough wherever they
  do not run in a circle.
* A handle outside the graph reads as an empty part.
-/

namespace EntityQuery.Sql

/-- What a node is part of. -/
inductive Owner where
  | node (n : NodeId)
  | request (r : RequestId)
  deriving DecidableEq, Repr

/-- A node and what it is part of. -/
structure Entry where
  node : Node
  parent : Option Owner := none
  deriving Repr, Inhabited

structure Graph where
  entries : Array Entry := #[]
  aliases : Array Alias := #[]
  requests : Array Request := #[]
  deriving Repr, Inhabited

namespace Graph

/-! ### Reading -/

def entry (g : Graph) (n : NodeId) : Entry := g.entries.getD n.index ⟨.const .null, none⟩

def node (g : Graph) (n : NodeId) : Node := (g.entry n).node

def parent? (g : Graph) (n : NodeId) : Option Owner := (g.entry n).parent

def aliasOf (g : Graph) (a : AliasId) : Alias :=
  g.aliases.getD a.index { origin := .table "", entity := none, idColumn := none }

def request (g : Graph) (r : RequestId) : Request := g.requests.getD r.index {}

/-- Follows the links of a node up to a request. -/
def ownerWithin (g : Graph) : Nat → NodeId → Option RequestId
  | 0, _ => none
  | fuel + 1, n =>
    match g.parent? n with
    | none => none
    | some (.node p) => ownerWithin g fuel p
    | some (.request r) => some r

/-- The request that a node belongs to. -/
def owner? (g : Graph) (n : NodeId) : Option RequestId := g.ownerWithin g.entries.size n

/-- The first request from `r` outwards that has a property. -/
def enclosingWithin (g : Graph) (p : RequestId → Bool) : Nat → RequestId → Option RequestId
  | 0, _ => none
  | fuel + 1, r =>
    if p r then some r
    else match (g.request r).parent with
      | some outer => enclosingWithin g p fuel outer
      | none => none

def enclosing? (g : Graph) (p : RequestId → Bool) (r : RequestId) : Option RequestId :=
  g.enclosingWithin p (g.requests.size + 1) r

/-- The outermost request around `r`. -/
def outermost (g : Graph) (r : RequestId) : RequestId :=
  (g.enclosing? (fun q => (g.request q).parent.isNone) r).getD r

/-- The request from `r` outwards whose base is an alias. -/
def requestOver? (g : Graph) (r : RequestId) (a : AliasId) : Option RequestId :=
  g.enclosing? (fun q => (g.request q).base == some a) r

/-- The source of a request that a lambda parameter stands for. -/
def boundSource? (g : Graph) (p : ParamId) (r : RequestId) : Option AliasId :=
  (g.request r).sources.find? fun a => (g.aliasOf a).params.contains p

/-- The alias that a lambda parameter stands for, from `r` outwards. -/
def aliasFor? (g : Graph) (r : RequestId) (p : ParamId) : Option AliasId :=
  (g.enclosing? (fun q => (g.boundSource? p q).isSome) r).bind (g.boundSource? p)

/-! ### Nodes -/

def setParent (g : Graph) (owner : Owner) (n : NodeId) : Graph :=
  { g with entries := g.entries.modify n.index fun e => { e with parent := some owner } }

/-- Adds a node, of which its children become part. -/
def add (g : Graph) (node : Node) : NodeId × Graph :=
  let id : NodeId := ⟨g.entries.size⟩
  let adopted := node.children.foldl (fun g c => g.setParent (.node id) c) g
  (id, { adopted with entries := adopted.entries.push ⟨node, none⟩ })

/-- Makes a node part of a request. -/
def attach (g : Graph) (r : RequestId) (n : NodeId) : Graph := g.setParent (.request r) n

/-! ### Aliases -/

/-- Adds an alias under the next free name. -/
def addAlias (g : Graph) (a : Alias) : AliasId × Graph :=
  (⟨g.aliases.size⟩,
    { g with aliases := g.aliases.push { a with name := "t" ++ toString g.aliases.size } })

def modifyAlias (g : Graph) (a : AliasId) (f : Alias → Alias) : Graph :=
  { g with aliases := g.aliases.modify a.index f }

/-- Lets a lambda parameter stand for a row of an alias. -/
def bind (g : Graph) (a : AliasId) (p : ParamId) : Graph :=
  g.modifyAlias a fun d => if d.params.contains p then d else { d with params := d.params ++ [p] }

/-! ### Requests -/

def addRequest (g : Graph) (parent : Option RequestId) : RequestId × Graph :=
  (⟨g.requests.size⟩, { g with requests := g.requests.push { parent } })

def modifyRequest (g : Graph) (r : RequestId) (f : Request → Request) : Graph :=
  { g with requests := g.requests.modify r.index f }

def pushItem (g : Graph) (r : RequestId) (item : Item) : Graph :=
  (g.attach r item.node).modifyRequest r fun q => { q with items := q.items ++ [item] }

def clearItems (g : Graph) (r : RequestId) : Graph := g.modifyRequest r ({ · with items := [] })

/-- The conjunction of a condition that may be missing and another one. -/
def conjoin (g : Graph) (old : Option NodeId) (n : NodeId) : NodeId × Graph :=
  match old with
  | some m => g.add (.binary .and m n)
  | none => (n, g)

/-- Adds a condition to the filter of a request. -/
def andFilter (g : Graph) (r : RequestId) (n : NodeId) : Graph :=
  let (m, g) := g.conjoin (g.request r).filter n
  (g.attach r m).modifyRequest r ({ · with filter := some m })

/-- Adds a condition on the groups of a request. -/
def andHaving (g : Graph) (r : RequestId) (n : NodeId) : Graph :=
  let (m, g) := g.conjoin (g.request r).having n
  (g.attach r m).modifyRequest r ({ · with having := some m })

def pushGroup (g : Graph) (r : RequestId) (n : NodeId) (member : Option PropertyRef) : Graph :=
  (g.attach r n).modifyRequest r fun q =>
    { q with groups := q.groups ++ [n], groupMembers := q.groupMembers ++ [member] }

def pushOrder (g : Graph) (r : RequestId) (n : NodeId) (ascending : Bool) : Graph :=
  (g.attach r n).modifyRequest r fun q => { q with orders := q.orders ++ [⟨n, ascending⟩] }

def pushJoin (g : Graph) (r : RequestId) (j : Join) : Graph :=
  (g.attach r j.condition).modifyRequest r fun q => { q with joins := q.joins ++ [j] }

/-- Takes the join of a source out of a request. -/
def takeJoin (g : Graph) (r : RequestId) (a : AliasId) : Option Join × Graph :=
  match (g.request r).joinFor? a with
  | some j =>
    (some j, g.modifyRequest r fun q => { q with joins := q.joins.eraseP fun k => k.source = a })
  | none => (none, g)

def pushAssignment (g : Graph) (r : RequestId) (s : Assignment) : Graph :=
  ((g.attach r s.column).attach r s.value).modifyRequest r fun q =>
    { q with assignments := q.assignments ++ [s] }

end Graph

/-! ### Building in a state -/

/-- Steps that build a graph. -/
abbrev Build := StateM Graph

namespace Build

def add (node : Node) : Build NodeId := modifyGet (·.add node)

def addAlias (a : Alias) : Build AliasId := modifyGet (·.addAlias a)

def addRequest (parent : Option RequestId) : Build RequestId := modifyGet (·.addRequest parent)

end Build

end EntityQuery.Sql
