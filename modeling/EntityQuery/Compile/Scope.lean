import EntityQuery.Compile.Error
import EntityQuery.Expr.Basic
import EntityQuery.Mapping.Resolve
import EntityQuery.Sql.Copy
import EntityQuery.Text.Split

/-!
Loading hints, the state of a compilation, and what every rule does with it.

* `active` is the request that is being built. A value leaves it as it was.
* Under `widen` a navigation must not drop rows.
* A projected member is remembered either as the path it was read from or as the value it holds.
-/

namespace EntityQuery

/-! ### Loading hints

Which members of a result are to be loaded, and when. They change no statement. -/

inductive LoadingKind where
  | eager
  | lazy
  | batchLazy
  /-- The member is never loaded. -/
  | exclude
  deriving DecidableEq, Repr

def LoadingKind.name : LoadingKind → String
  | .eager => "Eager"
  | .lazy => "Lazy"
  | .batchLazy => "BatchLazy"
  | .exclude => "Exclude"

/-- The kind of a hint, by the method that gives it. -/
def LoadingKind.ofMethod : Method → LoadingKind
  | .eagerLoad => .eager
  | .lazyLoad => .lazy
  | .batchLazyLoad => .batchLazy
  | _ => .exclude

/-- A hint for the member at the end of a path from a row of the result. -/
structure LoadingHint where
  kind : LoadingKind
  path : List PropertyRef
  deriving DecidableEq, Repr

namespace LoadingHint

def text (h : LoadingHint) : String :=
  h.kind.name ++ "(" ++ Text.joinWith "." (h.path.map PropertyRef.name) ++ ")"

/-- Whether one of the hints excludes the member at a path. -/
def excludes (hints : List LoadingHint) (path : List PropertyRef) : Bool :=
  hints.any fun h => h.kind == .exclude && allPairs PropertyRef.same h.path path

/-- The number of hints of a kind. -/
def count (hints : List LoadingHint) (kind : LoadingKind) : Nat :=
  (hints.filter fun h => h.kind == kind).length

end LoadingHint

end EntityQuery

namespace EntityQuery

open Sql

/-- What an expression stands for in a statement. -/
inductive Meaning where
  | value (n : NodeId)
  /-- A row of a source: a lambda parameter or a navigation. -/
  | row (a : AliasId)
  | query (r : RequestId)
  deriving DecidableEq, Repr

structure CompileState where
  mapping : Mapping
  graph : Graph := {}
  active : Option RequestId := none
  widen : Bool := false
  /-- The mapped paths that projected members were read from. -/
  paths : PropertyTable (List PropertyRef) := []
  /-- The values that projected members hold. -/
  computed : PropertyTable NodeId := []
  hints : List LoadingHint := []

abbrev Compile := ExceptT CompileError (StateM CompileState)

/-- A rule for expressions, as far as other rules use it. -/
abbrev Visit := Expr → Compile Meaning

namespace Compile

/-! ### The state -/

/-- Rejects an expression. -/
def reject {α : Type} (e : Expr) (cause : Cause) : Compile α := throw (.rejected e cause)

/-- An answer of the catalog. -/
def ask {α : Type} (f : Catalog → Except MappingError α) : Compile α := do
  match f (← get).mapping.catalog with
  | .ok a => pure a
  | .error e => throw (.mapping e)

def graph : Compile Graph := return (← get).graph

def request (r : RequestId) : Compile Request := return (← graph).request r

/-- Extends the graph. -/
def build {α : Type} (x : Build α) : Compile α :=
  modifyGet fun s =>
    let (a, g) := x.run s.graph
    (a, { s with graph := g })

def add (node : Node) : Compile NodeId := build (Build.add node)

/-- Changes the graph. -/
def edit (f : Graph → Graph) : Compile Unit := modify fun s => { s with graph := f s.graph }

def editRequest (r : RequestId) (f : Request → Request) : Compile Unit :=
  edit (·.modifyRequest r f)

/-- A copy of a value. -/
def duplicate (e : Expr) (n : NodeId) : Compile NodeId := do
  match ← build (Build.duplicate n) with
  | some m => pure m
  | none => reject e .endless

/-! ### Scopes -/

/-- The request that is being built. -/
def active (e : Expr) : Compile RequestId := do
  match (← get).active with
  | some r => pure r
  | none => reject e .noScope

def setActive (r : RequestId) : Compile Unit := modify ({ · with active := some r })

/-- Goes back to the request around one, if there is one. -/
def leave (r : RequestId) : Compile Unit := do
  match (← request r).parent with
  | some outer => setActive outer
  | none => pure ()

/-- Runs steps with another request being built. -/
def within {α : Type} (r : RequestId) (x : Compile α) : Compile α := do
  let saved := (← get).active
  setActive r
  let a ← x
  modify ({ · with active := saved })
  return a

/-- Runs steps with navigations that drop rows, or with ones that do not. -/
def widening {α : Type} (widen : Bool) (x : Compile α) : Compile α := do
  let saved := (← get).widen
  modify ({ · with widen })
  let a ← x
  modify ({ · with widen := saved })
  return a

/-! ### Values -/

/-- The value of what an expression stands for. -/
def valueOf : Meaning → Compile NodeId
  | .value n => pure n
  | .row a => add (.row a)
  | .query r => add (.sub r)

/-- Compiles an expression to a value and leaves the active request as it was. -/
def value (visit : Visit) (e : Expr) : Compile NodeId := do
  let before := (← get).active
  let m ← visit e
  if before.isSome then modify ({ · with active := before })
  valueOf m

/-- A condition: a bare column is one if it is true. -/
def condition (n : NodeId) : Compile NodeId := do
  if ((← graph).node n).isColumn then
    let truth ← add (.const (.boolean true))
    add (.binary .equal n truth)
  else pure n

/-! ### Projected members -/

/-- The number of projections that a member is followed through. -/
def pathLimit : Nat := 32

/-- A path with its first step replaced by the path it was read from, again and again. -/
def realPath (paths : PropertyTable (List PropertyRef)) : Nat → List PropertyRef → List PropertyRef
  | 0, path => path
  | _ + 1, [] => []
  | fuel + 1, p :: rest =>
    match paths.find? p with
    | some source => realPath paths fuel (source ++ rest)
    | none => p :: rest

/-- Remembers the path a member is read from; a member that is read from itself needs none. -/
def setPath (p : PropertyRef) (path : List PropertyRef) : Compile Unit :=
  match path with
  | [q] => if q.same p then pure () else record
  | _ => record
where
  record : Compile Unit :=
    modify fun s => { s with computed := s.computed.erase p, paths := s.paths.insert p path }

/-- Remembers the value a member holds. -/
def setComputed (p : PropertyRef) (n : NodeId) : Compile Unit :=
  modify fun s => { s with paths := s.paths.erase p, computed := s.computed.insert p n }

/-! ### Members -/

/-- What a property of a row stands for in the active request. -/
def resolveStep (r : RequestId) (a : AliasId) (p : PropertyRef) : Compile Meaning := do
  let s ← get
  let (result, g) := (s.mapping.resolve r a p s.widen).run.run s.graph
  set { s with graph := g }
  match result with
  | .ok (.value n) => return .value n
  | .ok (.row b) => return .row b
  | .error err => throw (.mapping err)

/-- Follows a path of properties. -/
def follow (e : Expr) (r : RequestId) : Meaning → List PropertyRef → Compile Meaning
  | m, [] => pure m
  | .row a, p :: rest => do follow e r (← resolveStep r a p) rest
  | _, p :: _ => reject e (.unreachable p.text)

/-- What a member of a row stands for, projected members first. -/
def resolveMember (e : Expr) (a : AliasId) (p : PropertyRef) : Compile Meaning := do
  let r ← active e
  let path := realPath (← get).paths pathLimit [p]
  match path.head?.bind (PropertyTable.find? (← get).computed), path with
  | some _, _ :: step :: _ => reject e (.unreachable step.text)
  | some n, _ => .value <$> duplicate e n
  | none, _ => follow e r (.row a) path

/-! ### Rows -/

/-- The row that the parameters of a lambda over a request stand for: the single selected row, or
the base. -/
def rowOf (e : Expr) (r : RequestId) : Compile AliasId := do
  let g ← graph
  let q := g.request r
  let selected : Option AliasId :=
    match q.items with
    | [i] =>
      match g.node i.node with
      | .row a => if q.isGrouped then none else some a
      | _ => none
    | _ => none
  match selected <|> q.base with
  | some a => pure a
  | none => reject e .noBase

/-- Lets the parameter of a lambda stand for the row of a request, and gives the lambda's body. -/
def enter (e : Expr) (r : RequestId) (f : Expr) : Compile Expr := do
  match f with
  | .lambda ps body =>
    match Expr.soleParam? ps with
    | some p =>
      let a ← rowOf e r
      edit (·.bind a p.id)
      return body
    | none => reject e .oneParameterExpected
  | _ => reject e .lambdaExpected

/-- An argument of a call. -/
def argument (e : Expr) (args : List Expr) (index : Nat) : Compile Expr :=
  match args[index]? with
  | some a => pure a
  | none => reject e (.missingArgument index)

/-- The row that an expression stands for. -/
def rowValue (visit : Visit) (e : Expr) : Compile AliasId := do
  match ← visit e with
  | .row a => pure a
  | _ => reject e .rowExpected

/-- Takes a join out of a request. -/
def takeJoin (e : Expr) (r : RequestId) (a : AliasId) : Compile Join := do
  match ← modifyGet fun s =>
      let (j, g) := s.graph.takeJoin r a
      (j, { s with graph := g }) with
  | some j => pure j
  | none => reject e .notNavigable

/-- Moves the join of a collection out of the active request into a request of its own: the joined
source becomes the base, a link table is joined to it, and the condition that ties the chain to the
active request becomes the filter. -/
def hoist (e : Expr) (a : AliasId) : Compile RequestId := do
  let outer ← active e
  let source := (← graph).aliasOf a
  let first ← takeJoin e outer a
  let link ← source.via?.mapM (takeJoin e outer)
  let r ← build (Build.addRequest (some outer))
  editRequest r fun q =>
    { q with base := some a, projection := source.entity.map .entity, idColumn := source.idColumn }
  match link with
  | some last =>
    edit (·.pushJoin r ⟨last.source, .inner, first.condition⟩)
    edit (·.andFilter r last.condition)
  | none => edit (·.andFilter r first.condition)
  return r

/-- The request that an operator works on. -/
def receiver (visit : Visit) (e arg : Expr) : Compile RequestId := do
  match ← visit arg with
  | .query r => pure r
  | .row a =>
    let r ← active e
    match (← graph).requestOver? r a with
    | some q => pure q
    | none => hoist e a
  | .value _ => reject e .operatorOnValue

end Compile

end EntityQuery
