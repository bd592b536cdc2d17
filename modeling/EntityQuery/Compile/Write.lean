import EntityQuery.Compile.Chain

/-!
Rules for inserts, updates and deletes of the rows of a query.
-/

namespace EntityQuery.Compile

open Sql

/-- Assigns the members of an initializer to columns of the written table. -/
def assign (visit : Visit) (e : Expr) (r : RequestId) (target : AliasId) :
    List Binding → Compile Unit
  | [] => pure ()
  | .list p _ :: _ => reject e (.listAssignment p.name)
  | .assign p v :: rest => do
    let stored ← ask (·.propertyMapping p)
    match stored.kind with
    | .collection _ | .manyToMany _ _ _ _ => reject e (.collectionAssignment p.name)
    | .scalar _ _ _ | .reference _ => pure ()
    let column ← add (.column target stored.column)
    let n ← value visit v
    edit (·.pushAssignment r ⟨column, n⟩)
    assign visit e r target rest

/-- Turns a request into a write. -/
def markWrite (e : Expr) (r : RequestId) (kind : RequestKind) (target : Option AliasId) :
    Compile Meaning := do
  editRequest r ({ · with kind, target, projection := some e.type })
  return .query r

/-- The initializer of a write. -/
def initializer (visit : Visit) (e : Expr) (m : Method) (arg : Expr) (args : List Expr) :
    Compile (RequestId × String × List Binding) := do
  let r ← openReceiver visit e arg
  match ← enter e r (← argument e args 1) with
  | .init type bindings => return (r, type, bindings)
  | _ => reject e (.initializerExpected m)

/-- Updates the base of a query. -/
def update (visit : Visit) (e arg : Expr) (args : List Expr) : Compile Meaning := do
  let (r, _, bindings) ← initializer visit e .update arg args
  match (← request r).base with
  | some target =>
    assign visit e r target bindings
    markWrite e r .update (some target)
  | none => reject e .updateWithoutSource

/-- Inserts a row of an entity for every row of a query. -/
def insert (visit : Visit) (e arg : Expr) (args : List Expr) : Compile Meaning := do
  let (r, type, bindings) ← initializer visit e .insert arg args
  let table ← ask (·.tableName type)
  let key := (← get).mapping.catalog.idColumn type |>.toOption
  let target ← build (Build.addAlias (.ofTable table type key))
  assign visit e r target bindings
  markWrite e r .insertSelect (some target)

/-- Deletes the rows of a query. -/
def delete (visit : Visit) (e arg : Expr) : Compile Meaning := do
  let r ← openReceiver visit e arg
  markWrite e r .delete (← request r).base

end EntityQuery.Compile
