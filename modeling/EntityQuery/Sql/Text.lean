import EntityQuery.Sql.Piece
import EntityQuery.Sql.Reading

/-!
The text of values and requests.

* A comparison with the null constant tests for null, and no value is in an empty list.
* Null is written out and never bound.
* An update or delete that reads other tables takes the form of the dialect's `WriteStyle`.
* Only the clauses that a statement shows are written; a request has no text if they contain it.
-/

namespace EntityQuery.Sql

open Piece (commas qualified)

/-- What is at hand where a part of a statement is written: the graph, the dialect, and the pieces
of values and requests. -/
structure Writer where
  graph : Graph
  dialect : Dialect
  value : NodeId → List Piece
  query : RequestId → List Piece

namespace Writer

/-! ### Values -/

def column (source : Alias) (name : String) : List Piece :=
  if name = allColumns then [.name source.name, .text ("." ++ allColumns)]
  else qualified source.name name

/-- A row shows as its key, or as all its columns. -/
def row (source : Alias) : List Piece :=
  match source.idColumn with
  | some key => qualified source.name key
  | none => [.name source.name, .text ("." ++ allColumns)]

def const (v : Value) : List Piece := if v.isNull then [.text "NULL"] else [.param v]

/-- A value where the server cannot infer the type of a parameter: a constant states its type. -/
def typed (w : Writer) (n : NodeId) : List Piece :=
  match w.graph.node n with
  | .const v => if v.isNull then w.value n else [.typed v]
  | _ => w.value n

def unary (w : Writer) (op : UnaryOp) (operand : Option NodeId) : List Piece :=
  match op with
  | .not => .text "NOT " :: operand.elim [] w.value
  | .exists => .text "EXISTS " :: operand.elim [] w.value
  | _ => .text (op.function?.getD "" ++ "(") :: operand.elim [.text "*"] w.value ++ [.text ")"]

/-- Whether a comparison tests for null. -/
def isNullTest (w : Writer) (op : BinaryOp) (l r : NodeId) : Bool :=
  (op == .equal || op == .notEqual) && ((w.graph.node l).isNull || (w.graph.node r).isNull)

def binary (w : Writer) (op : BinaryOp) (l r : NodeId) : List Piece :=
  if w.isNullTest op l r then
    .text "(" :: w.value (if (w.graph.node l).isNull then r else l) ++
      [.text (if op = .equal then " IS NULL)" else " IS NOT NULL)")]
  else match op with
    | .concat =>
      let (opening, between, closing) := w.dialect.concatMarks
      .text opening :: w.typed l ++ .text between :: w.typed r ++ [.text closing]
    | .coalesce => .text "COALESCE(" :: w.value l ++ .text ", " :: w.value r ++ [.text ")"]
    | _ => .text "(" :: w.value l ++ .text (" " ++ op.symbol ++ " ") :: w.value r ++ [.text ")"]

/-- The pieces of a node. -/
def node (w : Writer) : Node → List Piece
  | .column a name => column (w.graph.aliasOf a) name
  | .row a => row (w.graph.aliasOf a)
  | .const v => const v
  | .unary op operand => w.unary op operand
  | .binary op l r => w.binary op l r
  | .isIn _ [] => [.text "(1 = 0)"]
  | .isIn e vs => .text "(" :: w.value e ++ .text " IN (" :: commas (vs.map w.value) ++ [.text "))"]
  | .cond t y n =>
    .text "CASE WHEN " :: w.value t ++ .text " THEN " :: w.typed y ++ .text " ELSE " ::
      w.typed n ++ [.text " END"]
  | .sub r => .text "(" :: w.query r ++ [.text ")"]

/-! ### Clauses -/

/-- A source of rows under its alias. -/
def source (w : Writer) (a : AliasId) : List Piece :=
  let d := w.graph.aliasOf a
  match d.origin with
  | .table name => [.name name, .text " AS ", .name d.name]
  | .request r => .text "(" :: w.query r ++ [.text ") AS ", .name d.name]

/-- The joined sources with their conditions. -/
def joins (w : Writer) (q : Request) : List Piece :=
  q.joins.flatMap fun j =>
    .text (" " ++ j.kind.keyword ++ " ") :: w.source j.source ++ .text " ON " :: w.value j.condition

/-- The sources of a query; a query without a base has no joins either. -/
def fromClause (w : Writer) (q : Request) : List Piece :=
  match q.base with
  | some base => .text " FROM " :: w.source base ++ w.joins q
  | none =>
    match w.dialect.dummyTable with
    | some dummy => [.text (" FROM " ++ dummy)]
    | none => []

/-- An optional clause after its keyword. -/
def after (w : Writer) (keyword : String) : Option NodeId → List Piece
  | some n => .text keyword :: w.value n
  | none => []

/-- A list clause after its keyword. -/
def afterAll (keyword : String) (ps : List (List Piece)) : List Piece :=
  if ps.isEmpty then [] else .text keyword :: commas ps

def whereClause (w : Writer) (q : Request) : List Piece := w.after " WHERE " q.filter

def orderClause (w : Writer) (q : Request) : List Piece :=
  afterAll " ORDER BY " <| q.orders.map fun o =>
    if o.ascending then w.value o.node else w.value o.node ++ [.text " DESC"]

/-- The conditions, groups and orders of a query. -/
def restrictions (w : Writer) (q : Request) : List Piece :=
  w.whereClause q ++ afterAll " GROUP BY " (q.groups.map w.value) ++ w.after " HAVING " q.having ++
    w.orderClause q

/-- A query that selects the given values. -/
def select (w : Writer) (q : Request) (values : List Piece) : List Piece :=
  let top := w.dialect.topClause q.skip q.take
  let paging :=
    if top.isSome then "" else w.dialect.paging q.skip q.take (!q.orders.isEmpty)
  .text "SELECT " :: (if q.distinct then [.text "DISTINCT "] else []) ++
    (top.toList.map fun t => .text (t ++ " ")) ++ values ++ w.fromClause q ++
    w.restrictions q ++ [.text paging]

/-- The selected values with their labels. -/
def selection (w : Writer) (q : Request) : List Piece :=
  if q.items.isEmpty then [.text "*"]
  else commas <| q.items.map fun i =>
    match i.label with
    | some label => w.typed i.node ++ [.text " AS ", .name label]
    | none => w.typed i.node

/-- The name of an assigned column. -/
def assignedName (w : Writer) (a : Assignment) : List Piece :=
  match w.graph.node a.column with
  | .column _ name => [.name name]
  | _ => []

/-- Assignments, with or without the source in front of the column. -/
def setClause (w : Writer) (q : Request) (withSource : Bool) : List Piece :=
  .text " SET " :: commas (q.assignments.map fun a =>
    (if withSource then w.value a.column else w.assignedName a) ++ .text " = " :: w.value a.value)

/-- The rows that an update or delete of one table writes: by key where other tables decide. -/
def restriction (w : Writer) (q : Request) (target : AliasId) : List Piece :=
  let d := w.graph.aliasOf target
  match d.idColumn, q.joins with
  | some key, _ :: _ =>
    .text " WHERE " :: qualified d.name key ++ .text " IN (SELECT " :: qualified d.name key ++
      .text " FROM " :: w.source target ++ w.joins q ++ w.whereClause q ++ [.text ")"]
  | _, _ => w.whereClause q

/-! ### Requests -/

def delete (w : Writer) (q : Request) (target : AliasId) : List Piece :=
  match w.dialect.writeStyle with
  | .subquery => .text "DELETE FROM " :: w.source target ++ w.restriction q target
  | .joinedTarget | .fromClause =>
    .text "DELETE " :: .name (w.graph.aliasOf target).name :: .text " FROM " :: w.source target ++
      w.joins q ++ w.whereClause q

def update (w : Writer) (q : Request) (target : AliasId) : List Piece :=
  match w.dialect.writeStyle with
  | .subquery =>
    .text "UPDATE " :: w.source target ++ w.setClause q false ++ w.restriction q target
  | .joinedTarget =>
    .text "UPDATE " :: w.source target ++ w.joins q ++ w.setClause q true ++ w.whereClause q
  | .fromClause =>
    .text "UPDATE " :: .name (w.graph.aliasOf target).name :: w.setClause q false ++
      .text " FROM " :: w.source target ++ w.joins q ++ w.whereClause q

def insert (w : Writer) (q : Request) (target : AliasId) : List Piece :=
  let table : List Piece :=
    match (w.graph.aliasOf target).origin with
    | .table name => [.name name]
    | .request _ => []
  .text "INSERT INTO " :: table ++ .text " (" :: commas (q.assignments.map w.assignedName) ++
    .text ") " :: w.select q (commas (q.assignments.map fun a => w.typed a.value))

/-- The statement of a request; a write without a table to write is empty. -/
def request (w : Writer) (q : Request) : List Piece :=
  match q.kind, q.target <|> q.base with
  | .select, _ => w.select q (w.selection q)
  | .delete, some target => w.delete q target
  | .update, some target => w.update q target
  | .insertSelect, some target => w.insert q target
  | _, none => []

end Writer

/-! ### Statements -/

/-- Statement text with its values in the order of their marks. -/
structure Written where
  sql : String
  params : List Value
  deriving Repr, Inhabited

/-- The statement of pieces, if its text has an end. -/
def Written.ofPieces? (d : Dialect) (ps : List Piece) : Option Written :=
  if ps.any Piece.isEndless then none else some ⟨Piece.sql d ps, Piece.params ps⟩

namespace Graph

/-- Writing as a reading of a graph. -/
def writing (g : Graph) (d : Dialect) : Reading (List Piece) (List Piece) where
  node value query := Writer.node ⟨g, d, value, query⟩
  request value query r := Writer.request ⟨g, d, value, query⟩ (g.request r)
  endless := [.endless]
  again := [.endless]

/-- The writer of whole values and requests. -/
def writer (g : Graph) (d : Dialect) : Writer :=
  ⟨g, d, g.readNode (g.writing d), g.readRequest (g.writing d)⟩

/-- Writes the value under a node; none if its text contains itself. -/
def writeNode? (g : Graph) (d : Dialect) (n : NodeId) : Option Written :=
  Written.ofPieces? d ((g.writer d).value n)

/-- Writes the value under a node where a constant has to state its type. -/
def writeTyped? (g : Graph) (d : Dialect) (n : NodeId) : Option Written :=
  Written.ofPieces? d ((g.writer d).typed n)

/-- Writes a request; none if its text contains itself. -/
def writeRequest? (g : Graph) (d : Dialect) (r : RequestId) : Option Written :=
  Written.ofPieces? d ((g.writer d).query r)

end Graph

end EntityQuery.Sql
