import EntityQuery.Compile.Scope
import EntityQuery.Compile.Shape
import EntityQuery.Compile.Summary
import EntityQuery.Compile.Write
import EntityQuery.Mapping.Row
import EntityQuery.Sql.Text

/-!
Query expressions compiled to statements, and the columns of their results.

* A whole row stands for the mapped columns of its entity, the first of which starts a new element.
* Where references are read by key, the column of a reference belongs to its row.
* `step` is one rule for every form of expression, over the meanings of its parts; `visit` ties the
  knot. Parts are nested less deeply than the whole, so the nesting bounds the recursion.
* `Mapping.compile` compiles an expression against a mapping. It also gives the mapping with the
  members that the expression has registered, whether it has a statement or not.
-/

/-! ### The columns of a result -/

namespace EntityQuery.Compile

open Sql

/-- The properties of an entity that a whole row shows, with their columns. -/
def shownColumns (entity : String) : Compile (List (PropertyRef × String)) := do
  let m := (← get).mapping
  let simple ← ask (·.scalarProperties entity)
  let all ← ask (·.properties entity)
  (all.filter fun p => m.readsKeyOf p || simple.any (·.same p)).mapM fun p =>
    return (p, ← ask (·.columnName p))

/-- Selects columns of a row. -/
def selectColumns (r : RequestId) (a : AliasId) (newElement : Bool) :
    List (PropertyRef × String) → Compile Unit
  | [] => pure ()
  | (p, column) :: rest => do
    let n ← add (.column a column)
    edit (·.pushItem r { node := n, property := some p, newElement })
    selectColumns r a false rest

/-- Selects the columns of a whole row; a row of no entity shows nothing. -/
def selectRow (r : RequestId) (a : AliasId) : Compile Unit := do
  match ((← graph).aliasOf a).entity with
  | some entity => do selectColumns r a true (← shownColumns entity)
  | none => pure ()

/-- Selects the entries of a grouping. -/
def selectGroups (e : Expr) (r : RequestId) (newElement : Bool) :
    List (NodeId × Option PropertyRef) → Compile Unit
  | [] => pure ()
  | (key, p) :: rest => do
    let n ← duplicate e key
    edit (·.pushItem r { node := n, property := p, newElement })
    selectGroups e r false rest

/-- Selects an item again, a whole row by its columns. -/
def expandItem (r : RequestId) (i : Item) : Compile Unit := do
  let g ← graph
  match g.node i.node with
  | .row a =>
    if i.label.isNone && (g.aliasOf a).entity.isSome then selectRow r a
    else edit (·.pushItem r i)
  | _ => edit (·.pushItem r i)

/-- Selects the columns of the result. -/
def declareColumns (e : Expr) (r : RequestId) : Compile Unit := do
  let q ← request r
  match q.kind, q.items with
  | .select, [] =>
    if q.isGrouped then selectGroups e r true (q.groups.zip q.groupMembers)
    else match q.base with
      | some a => selectRow r a
      | none => pure ()
  | .select, items => do
    edit (·.clearItems r)
    items.forM (expandItem r)
  | _, _ => pure ()

end EntityQuery.Compile

namespace EntityQuery

open Sql

/-- A rule of its own for some expressions. -/
structure Converter where
  accepts : Expr → Bool
  convert : Visit → Expr → Compile NodeId

namespace Converter

/-- Whether an expression is a call of a method without a meaning of its own. -/
def isCallOf (name : String) : Expr → Bool
  | .call (.named n) _ => n == name
  | _ => false

/-- Calls of a method that stand for a constant. -/
def constant (name : String) (v : Value) : Converter :=
  ⟨isCallOf name, fun _ _ => Compile.add (.const v)⟩

/-- Calls of a method that tell whether navigations must not drop rows here. -/
def widens (name : String) : Converter :=
  ⟨isCallOf name, fun _ _ => do Compile.add (.const (.boolean (← get).widen))⟩

/-- Calls of a method that stand for their first argument, or for a constant without one. -/
def argument (name : String) (v : Value) : Converter :=
  ⟨isCallOf name, fun visit e =>
    match e with
    | .call _ (arg :: _) => Compile.value visit arg
    | _ => Compile.add (.const v)⟩

end Converter

namespace Compile

/-! ### Loading hints -/

/-- The members that `x.A.First().B` reads, from the parameter outwards. -/
def hintPath (e : Expr) : Expr → Compile (List PropertyRef)
  | .member target p => return (← hintPath e target) ++ [p]
  | .call .first [arg] => hintPath e arg
  | .param _ => pure []
  | other => reject e (.notAPath other.text)

/-- Keeps a loading hint for its receiver. -/
def hint (visit : Visit) (e : Expr) (m : Method) (arg : Expr) (args : List Expr) :
    Compile Meaning := do
  match ← argument e args 1 with
  | .lambda _ body =>
    match ← hintPath e body with
    | [] => reject e .hintWithoutMember
    | path =>
      let result ← visit arg
      modify fun s => { s with hints := s.hints ++ [⟨.ofMethod m, path⟩] }
      return result
  | _ => reject e .lambdaExpected

/-! ### Calls -/

/-- A call of an operator with its receiver. -/
def operator (visit : Visit) (e : Expr) (m : Method) (arg : Expr) (args : List Expr) :
    Compile Meaning :=
  match m with
  | .where => filter visit e arg args
  | .first => first visit e arg args
  | .skip => skip visit e arg args
  | .take => take visit e arg args
  | .distinct => distinct visit e arg
  | .orderBy => order visit e true true arg args
  | .orderByDescending => order visit e true false arg args
  | .thenBy => order visit e false true arg args
  | .thenByDescending => order visit e false false arg args
  | .contains => contains visit e arg args
  | .startsWith => like visit e false true arg args
  | .endsWith => like visit e true false arg args
  | .select => select visit e false arg args
  | .selectMany => select visit e true arg args
  | .groupBy => groupBy visit e arg args
  | .count => aggregate visit e .count arg args
  | .sum => aggregate visit e .sum arg args
  | .average => aggregate visit e .average arg args
  | .min => aggregate visit e .min arg args
  | .max => aggregate visit e .max arg args
  | .any => any visit e arg args
  | .insert => insert visit e arg args
  | .update => update visit e arg args
  | .delete => delete visit e arg
  | .eagerLoad | .lazyLoad | .batchLazyLoad | .dontLoad => hint visit e m arg args
  | .useLeftJoin => widening true (visit arg)
  | .named _ => reject e (.method m)

def call (visit : Visit) (e : Expr) (m : Method) (args : List Expr) : Compile Meaning :=
  match m, args with
  | .named _, _ => reject e (.method m)
  | _, [] => reject e .noReceiver
  | _, arg :: _ => operator visit e m arg args

/-! ### Expressions -/

/-- What an expression stands for, given what its parts stand for. -/
def step (visit : Visit) (e : Expr) : Compile Meaning :=
  match e with
  | .source entity => source entity
  | .const l => constant e l
  | .param p => parameter e p
  | .member target p => member visit e target p
  | .key grouping => key visit e grouping
  | .binary op l r => binary visit e op l r
  | .unary op operand => unary visit e op operand
  | .cond test yes no => conditional visit test yes no
  | .call m args => call visit e m args
  | .lambda _ _ | .new _ _ | .init _ _ => reject e .argumentOnly

/-- What an expression nested less than `fuel` deep stands for. -/
def visit (converters : List Converter) : Nat → Visit
  | 0, e => reject e .endless
  | fuel + 1, e =>
    match converters.find? (·.accepts e) with
    | some c => .value <$> c.convert (visit converters fuel) e
    | none => step (visit converters fuel) e

/-- The root of the statement of an expression. -/
def root (converters : List Converter) (e : Expr) : Compile RequestId := do
  match e with
  | .source _ | .call _ _ =>
    let _ ← visit converters e.depth e
    let r := (← graph).outermost (← active e)
    declareColumns e r
    return r
  | _ => reject e .notAQuery

end Compile

/-! ### Statements -/

/-- A compiled query. -/
structure Statement where
  graph : Graph
  root : RequestId
  hints : List LoadingHint

namespace Statement

def request (s : Statement) : Request := s.graph.request s.root

/-- The columns of the result; a write has none. -/
def layout (s : Statement) : List LayoutColumn :=
  match s.request.kind with
  | .select => s.request.items.map fun i => ⟨i.property, i.newElement⟩
  | _ => []

/-- The text of a statement in a dialect; none if the statement contains itself. -/
def write? (s : Statement) (d : Dialect) : Option Written := s.graph.writeRequest? d s.root

end Statement

/-- Compiles an expression, with rules of one's own before the general ones. -/
def Mapping.compileWith (m : Mapping) (converters : List Converter) (e : Expr) :
    Except CompileError Statement × Mapping :=
  let (result, s) := (Compile.root converters e).run.run { mapping := m }
  (result.map fun r => ⟨s.graph, r, s.hints⟩, s.mapping)

/-- Compiles an expression. -/
def Mapping.compile (m : Mapping) (e : Expr) : Except CompileError Statement × Mapping :=
  m.compileWith [] e

end EntityQuery
