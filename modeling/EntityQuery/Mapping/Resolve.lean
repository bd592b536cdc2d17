import EntityQuery.Catalog.Basic
import EntityQuery.Mapping.Fragment

/-!
What a property of a row is in SQL: a column, a computed value, or a row of another table.

* A navigation joins the table it leads to. A reference that is already joined in the request is
  joined once; relations to many are joined anew each time.
* A property with a registered fragment is the value of that fragment.
* What was added to the graph before a property turns out not to be mapped stays there.
-/

namespace EntityQuery

open Sql

/-- The catalog together with the fragments of properties that queries have computed. -/
structure Mapping where
  catalog : Catalog
  /-- Whether a whole row includes the keys of its references. -/
  readsReferenceKeys : Bool := false
  equivalents : PropertyTable Fragment := []
  deriving Repr, Inhabited

/-- What a property of a row stands for. -/
inductive Resolved where
  | value (n : NodeId)
  | row (a : AliasId)
  deriving DecidableEq, Repr

/-- Steps that extend a graph and may fail to find a property. -/
abbrev Resolve := ExceptT MappingError Build

/-- A question to the catalog. -/
def Resolve.ask {α : Type} (answer : Except MappingError α) : Resolve α := ExceptT.mk (pure answer)

/-! ### Joins -/

/-- The condition that two columns are equal. -/
def columnsEqual (a : AliasId) (column : String) (b : AliasId) (column' : String) :
    Build NodeId := do
  let l ← Build.add (.column a column)
  let r ← Build.add (.column b column')
  Build.add (.binary .equal l r)

/-- The kind of a join, by whether rows without a partner stay. -/
def Sql.JoinKind.ofWiden (widen : Bool) : JoinKind := if widen then .left else .inner

/-- Joins a source on equal columns. -/
def joinOn (r : RequestId) (source : AliasId) (widen : Bool) (a : AliasId) (column : String)
    (b : AliasId) (column' : String) : Build Unit := do
  let condition ← columnsEqual a column b column'
  modify (·.pushJoin r ⟨source, .ofWiden widen, condition⟩)

/-- Lets rows without a partner stay in the joins of a source and of its link table. -/
def Sql.Graph.widenJoin (g : Graph) (r : RequestId) (a : AliasId) : Graph :=
  let via := (g.aliasOf a).via?
  g.modifyRequest r fun q =>
    { q with joins := q.joins.map fun j =>
        if j.source = a ∨ some j.source = via then { j with kind := .left } else j }

/-- The joined source of a navigation, if the request has one. -/
def Sql.Graph.navigated? (g : Graph) (r : RequestId) (owner : AliasId) (p : PropertyRef) :
    Option AliasId :=
  ((g.request r).joins.map Join.source).find? fun a => (g.aliasOf a).isNavigationOf owner p

namespace Mapping

/-- A new alias over the table of an entity. -/
def tableAlias (m : Mapping) (entity : String) (route : Route) : Resolve AliasId := do
  let table ← Resolve.ask (m.catalog.tableName entity)
  let key ← Resolve.ask (m.catalog.idColumn entity)
  Build.addAlias { Alias.ofTable table entity (some key) with route }

/-- Joins the row that a reference points to, once. -/
def joinReference (m : Mapping) (r : RequestId) (owner : AliasId) (p : PropertyRef)
    (column target : String) (widen : Bool) : Resolve AliasId := do
  match (← get).navigated? r owner p with
  | some a =>
    if widen then modify (·.widenJoin r a)
    return a
  | none =>
    let a ← m.tableAlias target (.navigation owner p none)
    let key ← Resolve.ask (m.catalog.idColumn target)
    joinOn r a widen owner column a key
    return a

/-- Joins the rows that refer to the owner. -/
def joinCollection (m : Mapping) (r : RequestId) (owner : AliasId) (p : PropertyRef)
    (column target : String) (widen : Bool) : Resolve AliasId := do
  let a ← m.tableAlias target (.navigation owner p none)
  let key ← Resolve.ask (m.catalog.idColumn p.owner)
  joinOn r a widen a column owner key
  return a

/-- Joins the rows that a link table relates to the owner. -/
def joinLinked (m : Mapping) (r : RequestId) (owner : AliasId) (p : PropertyRef)
    (target linkTable ownerColumn targetColumn : String) (widen : Bool) : Resolve AliasId := do
  let ownerKey ← Resolve.ask (m.catalog.idColumn p.owner)
  let targetKey ← Resolve.ask (m.catalog.idColumn target)
  let link ← Build.addAlias
    { origin := .table linkTable, entity := none, idColumn := none, route := .link owner p }
  joinOn r link widen link ownerColumn owner ownerKey
  let a ← m.tableAlias target (.navigation owner p (some link))
  joinOn r a widen a targetKey link targetColumn
  return a

/-! ### Properties -/

/-- What a mapped property of a row is. -/
def locate (m : Mapping) (r : RequestId) (owner : AliasId) (p : PropertyRef) (widen : Bool) :
    Resolve Resolved := do
  let stored ← Resolve.ask (m.catalog.propertyMapping p)
  match stored.kind with
  | .scalar _ _ _ => .value <$> Build.add (.column owner stored.column)
  | .reference target => .row <$> m.joinReference r owner p stored.column target widen
  | .collection target => .row <$> m.joinCollection r owner p stored.column target widen
  | .manyToMany target link oc tc => .row <$> m.joinLinked r owner p target link oc tc widen

/-- Follows navigations from a row, with `resolve` for each of them. -/
def walk (resolve : AliasId → PropertyRef → Resolve Resolved) (owner : AliasId) :
    List PropertyRef → Resolve AliasId
  | [] => pure owner
  | p :: rest => do
    match ← resolve owner p with
    | .row a => walk resolve a rest
    | .value _ => throw (.invalidRelation p.text "is not a navigation")

/-- What a property of a row is, through at most `fuel` fragments inside each other. -/
def resolveWithin (m : Mapping) (r : RequestId) (widen : Bool) :
    Nat → AliasId → PropertyRef → Resolve Resolved
  | fuel, owner, p =>
    match m.equivalents.find? p with
    | none => m.locate r owner p widen
    | some f =>
      match fuel with
      | 0 => throw (.endlessProperty p.text)
      | fuel + 1 => .value <$> f.place (walk (resolveWithin m r widen fuel) owner)

/-- The number of fragments that can stand inside each other without a repetition. -/
def nesting (m : Mapping) : Nat := m.equivalents.length

/-- What a property of a row is in a request. With `widen`, rows without a partner stay. -/
def resolve (m : Mapping) (r : RequestId) (owner : AliasId) (p : PropertyRef) (widen : Bool) :
    Resolve Resolved :=
  m.resolveWithin r widen m.nesting owner p

/-- Adds the value of a fragment for a row. -/
def instantiate (m : Mapping) (f : Fragment) (r : RequestId) (owner : AliasId) (widen : Bool) :
    Resolve NodeId :=
  f.place (walk (m.resolveWithin r widen m.nesting) owner)

/-- Keeps the value of a node for later uses of a property, if it is part of a request with a base
from which all its sources can be reached. -/
def register (m : Mapping) (g : Graph) (p : PropertyRef) (n : NodeId) : Mapping :=
  let fragment := do Fragment.ofNode? g (← (g.request (← g.owner? n)).base) n
  match fragment with
  | some f => { m with equivalents := m.equivalents.insert p f }
  | none => m

/-- The fragment kept for a property. -/
def registered? (m : Mapping) (p : PropertyRef) : Option Fragment := m.equivalents.find? p

/-! ### References by key -/

/-- Whether a property is a mapped reference. -/
def isReference (m : Mapping) (p : PropertyRef) : Bool :=
  match m.catalog.propertyMapping p with
  | .ok stored => stored.isReference
  | .error _ => false

/-- Whether a property of a whole row is read as the key of a reference. -/
def readsKeyOf (m : Mapping) (p : PropertyRef) : Bool := m.readsReferenceKeys && m.isReference p

end Mapping

end EntityQuery
