import EntityQuery.Compile.Statement
import Mathlib.Tactic.Lemma

/-!
Chains of operators over the rows of an entity, and the clauses that they ask for.

* A scalar expression combines leaves and constants. The leaves over a row are its own scalar members;
  over a grouping they are the key, the members of the key and aggregates.
* `Expr.written` is the value of a scalar expression, as a fragment over one source.
* A chain may group its rows once. `Chain.clauses` are its clauses: the tests before the grouping and
  after it, the keys, the orders since the last one that restarts, the last page and `DISTINCT`.
-/

namespace EntityQuery

open Sql

/-! ### Values over one source -/

namespace Fragment

/-- A bare column is a condition if it is true. -/
def asCondition : Fragment → Fragment
  | .column path name => .binary .equal (.column path name) (.const (.boolean true))
  | f => f

/-- The conjunction of conditions, from the left. -/
def conjunction? : List Fragment → Option Fragment
  | [] => none
  | f :: fs => some (fs.foldl (.binary .and) f)

/-- A match with a text that may go on before the given text, after it, or both. -/
def likeText (before after : Bool) (subject text : Fragment) : Fragment :=
  let any := .const (.string "%")
  let tail := if after then .binary .concat text any else text
  .binary .like subject (if before then .binary .concat any tail else tail)

end Fragment

/-! ### Scalar expressions -/

namespace Expr

variable (leaf : Expr → Option Fragment)

/-- Whether an expression combines leaves and constants by operators, conditionals, parts of texts and
membership in lists. -/
def isScalar (e : Expr) : Bool :=
  (leaf e).isSome || match e with
    | .const _ => true
    | .binary _ l r => isScalar l && isScalar r
    | .unary _ e => isScalar e
    | .cond t y n => isScalar t && isScalar y && isScalar n
    | .call .contains [subject, item] => isScalar subject && isScalar item
    | .call .startsWith [subject, text] => isScalar subject && isScalar text
    | .call .endsWith [subject, text] => isScalar subject && isScalar text
    | _ => false

/-- The value of a constant; an instance of an entity stands for its key. -/
def constant (c : Catalog) : Literal → Fragment
  | .value v => .const v
  | .entity name fields =>
    match c.idProperty name with
    | .ok id => .const ((fields.lookup id.name).getD .null)
    | .error _ => .const .null
  | .list _ => .const .null

/-- Membership in a list is that in its values that are not null. -/
def memberOf (item : Fragment) : Expr → Fragment
  | .const (.list vs) => .isIn item ((vs.filter fun v => !v.isNull).map .const)
  | _ => .const .null

/-- The value of a scalar expression. -/
def written (c : Catalog) (e : Expr) : Fragment :=
  (leaf e).getD <| match e with
    | .const l => constant c l
    | .binary op l r =>
      match Compile.sqlOperator? op (l.type.isTextual || r.type.isTextual) with
      | some o =>
        if op.isLogical then .binary o (written c l).asCondition (written c r).asCondition
        else .binary o (written c l) (written c r)
      | none => .const .null
    | .unary .not e => .unary .not (some (written c e).asCondition)
    | .unary _ e => written c e
    | .cond t y n => .cond (written c t).asCondition (written c y) (written c n)
    | .call .contains [subject, item] =>
      if subject.type.isTextual then .likeText true true (written c subject) (written c item)
      else memberOf (written c item) subject
    | .call .startsWith [subject, text] => .likeText false true (written c subject) (written c text)
    | .call .endsWith [subject, text] => .likeText true false (written c subject) (written c text)
    | _ => .const .null

end Expr

/-! ### Leaves -/

/-- The column of a scalar member of an entity. -/
def Catalog.ownColumn? (c : Catalog) (entity : String) (p : PropertyRef) : Option String :=
  match p.owner == entity, c.propertyMapping p with
  | true, .ok stored => if stored.isScalar then some stored.column else none
  | _, _ => none

/-- The columns that rows are grouped by, with the key members they fill. -/
abbrev GroupKeys := List (String × Option PropertyRef)

/-- The aggregate of a method. -/
def Method.aggregateOp? : Method → Option UnaryOp
  | .count => some .count
  | .sum => some .sum
  | .average => some .average
  | .min => some .min
  | .max => some .max
  | _ => none

namespace Expr

variable (c : Catalog) (entity : String)

/-- The leaves over the row of a parameter: its own scalar members. -/
def rowLeaf (p : Param) : Expr → Option Fragment
  | .member (.param q) property =>
    if q = p then (c.ownColumn? entity property).map (.column []) else none
  | _ => none

/-- The value of an aggregate over the rows of a grouping; a counted test holds or is null. -/
def aggregated (op : UnaryOp) (value : Fragment) : Fragment :=
  .unary op (some (if op = .count then .cond value.asCondition (.const (.int 1)) (.const .null)
    else value))

/-- The leaves over a grouping: its key, the members of its key, and aggregates of its rows. -/
def groupLeaf (keys : GroupKeys) (g : Param) : Expr → Option Fragment
  | .key (.param q) =>
    match keys with
    | [(column, _)] => if q = g then some (.column [] column) else none
    | _ => none
  | .member (.key (.param q)) p =>
    if q = g then (keys.find? fun k => k.2.any (·.same p)).map fun k => .column [] k.1 else none
  | .call m [.param q] =>
    if q = g ∧ g.type.isGrouping = true ∧ m.aggregateOp? = some .count then some (.unary .count none)
    else none
  | .call m [.param q, .lambda [x] body] =>
    match m.aggregateOp? with
    | some op =>
      if q = g ∧ g.type.isGrouping = true ∧ body.isScalar (rowLeaf c entity x) = true then
        some (aggregated op (body.written (rowLeaf c entity x) c))
      else none
    | none => none
  | _ => none

end Expr

/-! ### Links -/

/-- An operator on the rows or the groups of a chain. -/
inductive Link where
  | filter (p : Param) (test : Expr)
  | skip (count : Int64)
  | take (count : Int64)
  | first
  | firstOf (p : Param) (test : Expr)
  | distinct
  | order (m : Method) (p : Param) (key : Expr)
  /-- A loading hint. -/
  | hint (m : Method) (path : Expr)

namespace Link

/-- The expression of a link after the expression of what is before it. -/
def expr (q : Expr) : Link → Expr
  | .filter p test => .call .where [q, .lambda [p] test]
  | .skip count => .call .skip [q, .const (.value (.int count))]
  | .take count => .call .take [q, .const (.value (.int count))]
  | .first => .call .first [q]
  | .firstOf p test => .call .first [q, .lambda [p] test]
  | .distinct => .call .distinct [q]
  | .order m p key => .call m [q, .lambda [p] key]
  | .hint m path => .call m [q, path]

/-- Whether the expressions of a link are scalar. -/
def fits (leaf : Param → Expr → Option Fragment) : Link → Bool
  | .filter p test => test.isScalar (leaf p)
  | .firstOf p test => test.isScalar (leaf p)
  | .order m p key => m.isOrdering && key.isScalar (leaf p)
  | .hint m _ => m.isLoadingHint
  | .skip _ | .take _ | .first | .distinct => true

/-! ### What a link asks for -/

variable (value : Param → Expr → Fragment)

def test? : Link → Option Fragment
  | .filter p test => some (value p test).asCondition
  | .firstOf p test => some (value p test).asCondition
  | _ => none

/-- A key to sort by: whether it replaces the keys before it, whether it rises, and its value. -/
def sort? : Link → Option (Bool × Bool × Fragment)
  | .order m p key =>
    some (m = .orderBy || m = .orderByDescending, m = .orderBy || m = .thenBy, value p key)
  | _ => none

def skip? : Link → Option Nat
  | .skip count => some count.toInt.toNat
  | _ => none

/-- The first row is a page of one. -/
def take? : Link → Option Nat
  | .take count => some count.toInt.toNat
  | .first | .firstOf _ _ => some 1
  | _ => none

def isDistinct : Link → Bool
  | .distinct => true
  | _ => false

end Link

/-! ### Groupings -/

/-- What a chain is grouped by: one scalar member, or an object of them. -/
inductive Grouping where
  | single (p : Param) (key : PropertyRef)
  | composite (p : Param) (type : String) (members : List (PropertyRef × PropertyRef))

namespace Grouping

def expr (q : Expr) : Grouping → Expr
  | .single p key => .call .groupBy [q, .lambda [p] (.member (.param p) key)]
  | .composite p type members =>
    .call .groupBy [q, .lambda [p] (.new type (members.map fun k => (k.1, .member (.param p) k.2)))]

/-- The members that rows are grouped by, with the key members they fill. -/
def members : Grouping → List (PropertyRef × Option PropertyRef)
  | .single _ key => [(key, none)]
  | .composite _ _ members => members.map fun k => (k.2, some k.1)

def keys (c : Catalog) (entity : String) (g : Grouping) : GroupKeys :=
  g.members.map fun k => ((c.ownColumn? entity k.1).getD "", k.2)

/-- Whether rows are grouped by at least one scalar member of their own. No key member is another
scalar member of the rows than the one it is read from. -/
def fits (c : Catalog) (entity : String) (g : Grouping) : Bool :=
  !g.members.isEmpty && g.members.all fun k => (c.ownColumn? entity k.1).isSome &&
    k.2.all fun p => k.1.same p || (c.ownColumn? entity p).isNone

end Grouping

/-! ### Chains -/

/-- Operators over the rows of an entity, and over their groups where they are grouped. -/
structure Chain where
  entity : String
  rows : List Link
  grouping : Option (Grouping × List Link) := none

/-- What the clauses of a request stand for. -/
structure Clauses where
  tests : List Fragment := []
  /-- The tests on groups. -/
  groupTests : List Fragment := []
  keys : GroupKeys := []
  /-- The keys to sort by, and whether they rise. -/
  orders : List (Bool × Fragment) := []
  skip : Option Nat := none
  take : Option Nat := none
  distinct : Bool := false

/-- The keys since the last one that replaces those before it. -/
def sinceRestart : List (Bool × Bool × Fragment) → List (Bool × Fragment)
  | [] => []
  | (_, key) :: rest => if rest.any (·.1) then sinceRestart rest else key :: rest.map Prod.snd

namespace Chain

def expr (h : Chain) : Expr :=
  let rows := h.rows.foldl Link.expr (.source h.entity)
  match h.grouping with
  | some (g, groups) => groups.foldl Link.expr (g.expr rows)
  | none => rows

variable (c : Catalog)

def keys (h : Chain) : GroupKeys := (h.grouping.map fun g => g.1.keys c h.entity).getD []

/-- The operators after the grouping. -/
def groups (h : Chain) : List Link := (h.grouping.map Prod.snd).getD []

def links (h : Chain) : List Link := h.rows ++ h.groups

/-- The value of an expression over a row. -/
def rowValue (h : Chain) (p : Param) (e : Expr) : Fragment := e.written (Expr.rowLeaf c h.entity p) c

/-- The value of an expression over a group. -/
def groupValue (h : Chain) (p : Param) (e : Expr) : Fragment :=
  e.written (Expr.groupLeaf c h.entity (h.keys c) p) c

/-- Whether all expressions of a chain are scalar, over rows before the grouping and over groups after
it. -/
def fits (h : Chain) : Bool :=
  h.rows.all (Link.fits (Expr.rowLeaf c h.entity)) &&
    h.grouping.all fun g => g.1.fits c h.entity &&
      g.2.all (Link.fits (Expr.groupLeaf c h.entity (h.keys c)))

/-- **The clauses that a chain asks for.** -/
def clauses (h : Chain) : Clauses where
  tests := h.rows.filterMap (Link.test? (h.rowValue c))
  groupTests := h.groups.filterMap (Link.test? (h.groupValue c))
  keys := h.keys c
  orders := sinceRestart (h.rows.filterMap (Link.sort? (h.rowValue c)) ++
    h.groups.filterMap (Link.sort? (h.groupValue c)))
  skip := (h.links.filterMap Link.skip?).getLast?
  take := (h.links.filterMap Link.take?).getLast?
  distinct := h.links.any Link.isDistinct

end Chain

/-! ### Columns of the result -/

/-- The columns of a whole row of an entity, in the order of declaration, with their members: its scalar
members, and the references that are read as keys. -/
def Mapping.rowColumns (m : Mapping) (entity : String) : GroupKeys :=
  match m.catalog.scalarProperties entity, m.catalog.properties entity with
  | .ok scalars, .ok all => (all.filter fun p => m.readsKeyOf p || scalars.any (·.same p)).map fun p =>
    ((m.catalog.columnName p).toOption.getD "", some p)
  | _, _ => []

/-- The columns of one element, which the first of them starts. -/
def elementColumns (new : Bool) : GroupKeys → List (String × LayoutColumn)
  | [] => []
  | (column, property) :: rest => (column, ⟨property, new⟩) :: elementColumns false rest

/-- **The columns that a chain shows**: those of its rows, or its keys where rows are grouped. -/
def Chain.columns (m : Mapping) (h : Chain) : List (String × LayoutColumn) :=
  elementColumns true (match h.grouping with
    | some (g, _) => g.keys m.catalog h.entity
    | none => m.rowColumns h.entity)

end EntityQuery
