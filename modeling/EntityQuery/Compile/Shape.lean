import EntityQuery.Compile.Chain

/-!
Rules for projections and groupings.

* The members of an object become the selected values in order; an object inside an object starts
  a new element.
* A projected value is also registered with the mapping, so that later queries can read the member.
-/

namespace EntityQuery.Compile

open Sql

/-! ### Members of an object -/

/-- Selects a value for a member. -/
def selectMember (r : RequestId) (n : NodeId) (p : Option PropertyRef) (newElement : Bool) :
    Compile Unit :=
  edit (·.pushItem r { node := n, property := p, newElement })

/-- Selects grouping entries for the members they fill. -/
def selectKeys (e : Expr) (r : RequestId) (newElement : Bool) :
    List (NodeId × Option PropertyRef) → Compile Unit
  | [] => pure ()
  | (key, p) :: rest => do
    selectMember r (← duplicate e key) p newElement
    selectKeys e r false rest

/-- Selects the key of a grouping: as one value, or member by member as an object of its own. -/
def projectKey (visit : Visit) (r : RequestId) (p : PropertyRef) (e grouping : Expr)
    (newElement : Bool) : Compile Unit := do
  match ← groupingKeys visit e grouping with
  | [(_, none)] =>
    let n ← value visit e
    setComputed p n
    selectMember r n (some p) newElement
  | keys => selectKeys e r true keys

/-- Selects a member that is read from another one. -/
def projectPath (visit : Visit) (r : RequestId) (p : PropertyRef) (e : Expr) (newElement : Bool) :
    Compile Unit := do
  if e.type.isCollection then reject e .collectionProjection
  let n ← value visit e
  match e.memberPath? with
  | some path => setPath p path
  | none => setComputed p n
  selectMember r n (some p) newElement

/-- Selects a computed value for a member. -/
def projectComputed (visit : Visit) (r : RequestId) (p : PropertyRef) (e : Expr)
    (newElement : Bool) : Compile Unit := do
  let n ← value visit e
  setComputed p n
  selectMember r n (some p) newElement
  modify fun s => { s with mapping := s.mapping.register s.graph p n }

mutual
/-- Selects what fills a member. -/
def projectMember (visit : Visit) (r : RequestId) (p : PropertyRef) (newElement : Bool) :
    Expr → Compile Unit
  | .new _ members => projectMembers visit r true members
  | .key grouping => projectKey visit r p (.key grouping) grouping newElement
  | e@(.member _ _) => projectPath visit r p e newElement
  | e@(.param _) => projectPath visit r p e newElement
  | e@(.lambda _ _) => reject e (.memberValue p.name)
  | e@(.init _ _) => reject e (.memberValue p.name)
  | e => projectComputed visit r p e newElement

/-- Selects the members of an object, the first of which starts a new element. -/
def projectMembers (visit : Visit) (r : RequestId) (newElement : Bool) :
    List (PropertyRef × Expr) → Compile Unit
  | [] => pure ()
  | (p, e) :: rest => do
    projectMember visit r p newElement e
    projectMembers visit r false rest
end

/-- Selects the members that an initializer assigns. -/
def projectBindings (visit : Visit) (whole : Expr) (r : RequestId) (newElement : Bool) :
    List Binding → Compile Unit
  | [] => pure ()
  | .assign p e :: rest => do
    projectMember visit r p newElement e
    projectBindings visit whole r false rest
  | .list _ _ :: _ => reject whole .listInProjection

/-! ### Projections -/

/-- Selects a single member or row. A collection has to be flattened. -/
def projectSingle (visit : Visit) (e : Expr) (flattens : Bool) (r : RequestId) (body : Expr) :
    Compile TypeRef := do
  let type := body.type
  if type.isCollection && !flattens then reject e .collectionProjection
  let m ← widening (!type.isCollection) (visit body)
  setActive r
  let n ← valueOf m
  edit fun g => (g.clearItems r).pushItem r { node := n }
  return if type.isCollection then type.elementOrSelf else type

def select (visit : Visit) (e : Expr) (flattens : Bool) (arg : Expr) (args : List Expr) :
    Compile Meaning := do
  let r ← openReceiver visit e arg
  let body ← enter e r (← argument e args 1)
  let shape ← match body with
    | .new type members => do
      edit (·.clearItems r)
      widening true (projectMembers visit r true members)
      pure (TypeRef.object type)
    | .init type bindings => do
      edit (·.clearItems r)
      widening true (projectBindings visit e r true bindings)
      pure (TypeRef.object type)
    | .member _ _ | .param _ | .key _ => projectSingle visit e flattens r body
    | _ => reject e .selectShape
  editRequest r ({ · with projection := some shape })
  return .query r

/-! ### Groupings -/

/-- Groups by a member of the key. -/
def groupMember (visit : Visit) (r : RequestId) : PropertyRef × Expr → Compile Unit
  | (p, e) => do
    match e.memberPath? with
    | some path => setPath p path
    | none => pure ()
    let n ← value visit e
    edit (·.pushGroup r n (some p))

def groupBy (visit : Visit) (e arg : Expr) (args : List Expr) : Compile Meaning := do
  let r ← openReceiver visit e arg
  let body ← enter e r (← argument e args 1)
  match body with
  | .new _ members => members.forM (groupMember visit r)
  | .member _ _ | .param _ => do
    let n ← value visit body
    edit (·.pushGroup r n none)
  | _ => reject e .groupKeyShape
  editRequest r ({ · with projection := some e.elementType })
  return .query r

end EntityQuery.Compile
