import EntityQuery.Proofs.Sql.Nesting
import Mathlib.Logic.Function.Basic

/-!
What a query returns from a database.

* An `Engine` compares and combines values that are not null; null and truth follow the three-valued
  logic of SQL, so that a comparison with null is neither true nor false.
* `evaluating` is a reading of a graph: the clauses of a query one after the other, joins as nested
  loops over the rows of the sources.
* `term_eq`, `query_eq`: on a graph without a request inside itself, a query returns what the
  rules say.
-/

namespace EntityQuery.Sql

/-! ### Rows and servers -/

/-- A row: its columns with their values. -/
abbrev Row := List (String × Value)

/-- The value of a column; a row without the column has null there. -/
def Row.value (row : Row) (column : String) : Value := (row.lookup column).getD .null

/-- The rows of every table. -/
structure Database where
  rows : String → List Row

/-- What a server does with values that are not null. -/
structure Engine where
  /-- Equality. -/
  same : Value → Value → Bool
  same_symm : ∀ {v w : Value}, same v w = true → same w v = true
  same_trans : ∀ {u v w : Value}, same u v = true → same v w = true → same u w = true
  /-- The other comparisons, patterns, concatenation and arithmetic. -/
  operate : BinaryOp → Value → Value → Value
  /-- The largest, the smallest, the sum and the average of values. -/
  summarize : UnaryOp → List Value → Value
  /-- Whether a value, null included, may stand before another one in sorted rows. -/
  precedes : Value → Value → Bool

/-! ### Truth -/

/-- Whether a condition holds; unknown for null. -/
def truthOf : Value → Option Bool
  | .boolean b => some b
  | _ => none

def ofTruth : Option Bool → Value
  | some b => .boolean b
  | none => .null

def isTrue (v : Value) : Bool := truthOf v == some true

/-- Conjunction of truths that may be unknown. -/
def truthAnd : Option Bool → Option Bool → Option Bool
  | some false, _ | _, some false => some false
  | some true, some true => some true
  | _, _ => none

/-- Disjunction of truths that may be unknown. -/
def truthOr : Option Bool → Option Bool → Option Bool
  | some true, _ | _, some true => some true
  | some false, some false => some false
  | _, _ => none

@[simp] lemma truthOf_ofTruth (o : Option Bool) : truthOf (ofTruth o) = o := by
  cases o <;> rfl

@[simp] lemma isTrue_ofTruth (o : Option Bool) : isTrue (ofTruth o) = (o == some true) := by
  rw [isTrue, truthOf_ofTruth]

namespace Engine

/-- Whether two values are equal; unknown if one of them is null. -/
def equal (e : Engine) (v w : Value) : Option Bool :=
  if v.isNull || w.isNull then none else some (e.same v w)

/-- Whether a value is in a list. -/
def among (e : Engine) (v : Value) (ws : List Value) : Option Bool :=
  ws.foldr (fun w found => truthOr (e.equal v w) found) (some false)

/-- Whether two values are the same or both null. -/
def alike (e : Engine) (v w : Value) : Bool :=
  if v.isNull || w.isNull then v.isNull && w.isNull else e.same v w

/-- A binary operator. All but the logical ones and `COALESCE` give null for null. -/
def binary (e : Engine) (op : BinaryOp) (v w : Value) : Value :=
  match op with
  | .and => ofTruth (truthAnd (truthOf v) (truthOf w))
  | .or => ofTruth (truthOr (truthOf v) (truthOf w))
  | .coalesce => if v.isNull then w else v
  | .equal => ofTruth (e.equal v w)
  | .notEqual => ofTruth ((e.equal v w).map not)
  | op => if v.isNull || w.isNull then .null else e.operate op v w

/-- An aggregate of the values of a group, of which nulls are no part. -/
def aggregate (e : Engine) (op : UnaryOp) (vs : List Value) : Value :=
  let vs := vs.filter fun v => !v.isNull
  match op with
  | .count => .int (Int64.ofNat vs.length)
  | op => if vs.isEmpty then .null else e.summarize op vs

end Engine

/-! ### Values -/

/-- The rows that the sources stand at. -/
abbrev Env := AliasId → Row

/-- The meaning of a value. -/
structure Term where
  /-- The value for the rows of the sources, given the rows of the group they stand for. -/
  value : Env → List Env → Value
  /-- Whether a query in place of the value has rows. -/
  found : Env → Bool := fun _ => false
  /-- Whether the value is an aggregate or made from one. -/
  summary : Bool := false

namespace Term

/-- The value for one choice of rows. -/
def alone (t : Term) (ρ : Env) : Value := t.value ρ [ρ]

/-- Whether a condition is true for one choice of rows. -/
def holds (t : Term) (ρ : Env) : Bool := isTrue (t.alone ρ)

end Term

/-- What is at hand where a part of a query is evaluated: the server, the database, the graph, and
the meanings of values and requests. -/
structure Evaluator where
  engine : Engine
  database : Database
  graph : Graph
  term : NodeId → Term
  query : RequestId → Env → List Row

namespace Evaluator

/-- A comparison with the null constant tests for null. -/
def binary (w : Evaluator) (op : BinaryOp) (l r : NodeId) : Term where
  value ρ group :=
    let v := (w.term l).value ρ group
    let v' := (w.term r).value ρ group
    let test := if (w.graph.node l).isNull then v' else v
    if (w.graph.node l).isNull || (w.graph.node r).isNull then
      match op with
      | .equal => .boolean test.isNull
      | .notEqual => .boolean !test.isNull
      | op => w.engine.binary op v v'
    else w.engine.binary op v v'
  summary := (w.term l).summary || (w.term r).summary

def unary (w : Evaluator) (op : UnaryOp) : Option NodeId → Term
  | none => { value := fun _ group => .int (Int64.ofNat group.length), summary := true }
  | some e =>
    match op with
    | .not =>
      { value := fun ρ group => ofTruth ((truthOf ((w.term e).value ρ group)).map not),
        summary := (w.term e).summary }
    | .exists => { value := fun ρ _ => .boolean ((w.term e).found ρ) }
    | op =>
      { value := fun _ group => w.engine.aggregate op (group.map (w.term e).alone), summary := true }

/-- The meaning of a node. -/
def node (w : Evaluator) : Node → Term
  | .column a name => { value := fun ρ _ => (ρ a).value name }
  | .row a =>
    match (w.graph.aliasOf a).idColumn with
    | some key => { value := fun ρ _ => (ρ a).value key }
    | none => { value := fun ρ _ => ((ρ a).head?.map Prod.snd).getD .null }
  | .const v => { value := fun _ _ => v }
  | .unary op operand => w.unary op operand
  | .binary op l r => w.binary op l r
  | .isIn e vs =>
    { value := fun ρ group =>
        ofTruth (w.engine.among ((w.term e).value ρ group) (vs.map fun v => (w.term v).value ρ group)),
      summary := (w.term e).summary || vs.any fun v => (w.term v).summary }
  | .cond t y n =>
    { value := fun ρ group =>
        if isTrue ((w.term t).value ρ group) then (w.term y).value ρ group
        else (w.term n).value ρ group,
      summary := (w.term t).summary || (w.term y).summary || (w.term n).summary }
  | .sub r =>
    { value := fun ρ _ => (((w.query r ρ).head?.bind List.head?).map Prod.snd).getD .null,
      found := fun ρ => !(w.query r ρ).isEmpty }

/-! ### Clauses -/

/-- The rows of a source. -/
def source (w : Evaluator) (ρ : Env) (a : AliasId) : List Row :=
  match (w.graph.aliasOf a).origin with
  | .table name => w.database.rows name
  | .request r => w.query r ρ

/-- The partners of a row in a join, or a row of nulls where none of them is lost. -/
def partners (w : Evaluator) (j : Join) (ρ : Env) : List Env :=
  let found := ((w.source ρ j.source).map (Function.update ρ j.source)).filter
    (w.term j.condition).holds
  if found.isEmpty && j.kind == .left then [Function.update ρ j.source []] else found

/-- The rows of the base with their partners. -/
def joined (w : Evaluator) (q : Request) (ρ : Env) : List Env :=
  match q.base with
  | some base =>
    q.joins.foldl (fun ρs j => ρs.flatMap (w.partners j))
      ((w.source ρ base).map (Function.update ρ base))
  | none => [ρ]

/-- The joined rows that the filter keeps. -/
def filtered (w : Evaluator) (q : Request) (ρ : Env) : List Env :=
  match q.filter with
  | some n => (w.joined q ρ).filter (w.term n).holds
  | none => w.joined q ρ

/-- Puts a row to the first group with its keys. -/
def groupInto (same : Env → Env → Bool) (ρ : Env) : List (List Env) → List (List Env)
  | [] => [[ρ]]
  | group :: rest =>
    if group.head?.any (same ρ) then (group ++ [ρ]) :: rest else group :: groupInto same ρ rest

/-- The groups of a query: by its keys, all rows together under an aggregate, or every row by
itself. -/
def grouped (w : Evaluator) (q : Request) (ρ : Env) : List (Env × List Env) :=
  let rows := w.filtered q ρ
  let sameKeys (σ τ : Env) : Bool :=
    q.groups.all fun k => w.engine.alike ((w.term k).alone σ) ((w.term k).alone τ)
  if q.isGrouped then
    (rows.foldl (fun gs σ => groupInto sameKeys σ gs) []).map fun group => (group.headD ρ, group)
  else if q.items.any fun i => (w.term i.node).summary then [(rows.headD ρ, rows)]
  else rows.map fun σ => (σ, [σ])

/-- The groups in their order, without those that a condition on groups drops. -/
def sorted (w : Evaluator) (q : Request) (ρ : Env) : List (Env × List Env) :=
  let kept := (w.grouped q ρ).filter fun u =>
    q.having.all fun n => isTrue ((w.term n).value u.1 u.2)
  let before (u v : Env × List Env) : Bool :=
    q.orders.foldr (fun o rest =>
      let x := (w.term o.node).value u.1 u.2
      let y := (w.term o.node).value v.1 v.2
      if w.engine.alike x y then rest
      else if o.ascending then w.engine.precedes x y else w.engine.precedes y x) true
  kept.mergeSort before

/-- The name and the value of a selected value; all columns of a source stand for themselves. -/
def selected (w : Evaluator) (u : Env × List Env) (i : Item) : Row :=
  match w.graph.node i.node with
  | .column a name =>
    if name = allColumns then u.1 a
    else [(i.label.getD name, (w.term i.node).value u.1 u.2)]
  | _ => [(i.label.getD "", (w.term i.node).value u.1 u.2)]

/-- Rows without repetitions. -/
def distinctRows (same : Row → Row → Bool) : List Row → List Row
  | [] => []
  | row :: rest => row :: (distinctRows same rest).filter fun other => !same row other

/-- The result of a query; a query without selected values shows all columns of its sources. -/
def select (w : Evaluator) (q : Request) (ρ : Env) : List Row :=
  let shown := (w.sorted q ρ).map fun u =>
    if q.items.isEmpty then q.sources.flatMap u.1 else q.items.flatMap (w.selected u)
  let sameRow (x y : Row) : Bool :=
    x.length == y.length && (x.zip y).all fun p => w.engine.alike p.1.2 p.2.2
  let distinct := if q.distinct then distinctRows sameRow shown else shown
  let rest := distinct.drop (q.skip.getD 0)
  match q.take with
  | some n => rest.take n
  | none => rest

/-- The rows that a request returns; a write returns none. -/
def request (w : Evaluator) (q : Request) (ρ : Env) : List Row :=
  match q.kind with
  | .select => w.select q ρ
  | _ => []

/-! ### Plain queries -/

end Evaluator

/-- A query of sources, a filter and selected values alone. -/
structure Request.Plain (q : Request) : Prop where
  kind : q.kind = .select
  groups : q.groups = []
  having : q.having = none
  orders : q.orders = []
  skip : q.skip = none
  take : q.take = none
  distinct : q.distinct = false

namespace Evaluator

/-- A plain query shows its selected values, or all columns, for every row that its filter keeps. -/
lemma request_of_plain (w : Evaluator) {q : Request} (hq : q.Plain)
    (hsummary : ∀ i ∈ q.items, (w.term i.node).summary = false) (ρ : Env) :
    w.request q ρ = (w.filtered q ρ).map fun σ =>
      if q.items.isEmpty then q.sources.flatMap σ else q.items.flatMap (w.selected (σ, [σ])) := by
  have hany : (q.items.any fun i => (w.term i.node).summary) = false := by
    rw [List.any_eq_false]
    exact fun i hi => by simp [hsummary i hi]
  have hgrouped : w.grouped q ρ = (w.filtered q ρ).map fun σ => (σ, [σ]) := by
    simp [grouped, Request.isGrouped, hq.groups, hany]
  have hsorted : w.sorted q ρ = w.grouped q ρ := by
    simp only [sorted, hq.having, hq.orders, Option.all_none, List.filter_true, List.foldr_nil]
    exact List.mergeSort_of_pairwise (List.pairwise_of_forall fun _ _ => rfl)
  simp [request, select, hq.kind, hq.distinct, hq.skip, hq.take, hsorted, hgrouped,
    Function.comp_def]

/-! ### Evaluators that agree on the parts of a request -/

section Congr

variable {e : Engine} {db : Database} {g : Graph} {part part' : NodeId → Term}
  {query query' : RequestId → Env → List Row}

lemma node_congr {n : Node} (hpart : ∀ c ∈ n.children, part c = part' c)
    (hquery : ∀ r, n = .sub r → query r = query' r) :
    node ⟨e, db, g, part, query⟩ n = node ⟨e, db, g, part', query'⟩ n := by
  cases n with
  | column a name => rfl
  | row a => rfl
  | const v => rfl
  | unary op operand =>
    cases operand with
    | none => rfl
    | some c =>
      have hc : part c = part' c := hpart c (by simp [Node.children])
      cases op <;> simp only [node, unary, hc]
  | binary op l r =>
    have hl : part l = part' l := hpart l (by simp [Node.children])
    have hr : part r = part' r := hpart r (by simp [Node.children])
    simp only [node, binary, hl, hr]
  | isIn c vs =>
    have hc : part c = part' c := hpart c (by simp [Node.children])
    have hvs : vs.map part = vs.map part' :=
      List.map_congr_left fun v hv => hpart v (by simp [Node.children, hv])
    have hvalues : ∀ (p : NodeId → Term) (ρ : Env) (group : List Env),
        vs.map (fun v => (p v).value ρ group) = (vs.map p).map fun t => t.value ρ group :=
      fun p ρ group => by simp
    have hsummary : ∀ p : NodeId → Term,
        (vs.any fun v => (p v).summary) = (vs.map p).any Term.summary :=
      fun p => by simp [List.any_map, Function.comp_def]
    simp only [node, hc, hvalues, hsummary, hvs]
  | cond t y n =>
    have ht : part t = part' t := hpart t (by simp [Node.children])
    have hy : part y = part' y := hpart y (by simp [Node.children])
    have hn : part n = part' n := hpart n (by simp [Node.children])
    simp only [node, ht, hy, hn]
  | sub r => simp only [node, hquery r rfl]

variable {q : Request} (hpart : ∀ n ∈ q.clauseNodes, part n = part' n)
  (hquery : ∀ a ∈ q.origins, ∀ s, (g.aliasOf a).origin = .request s → query s = query' s)

include hquery in
lemma source_congr {a : AliasId} (ha : a ∈ q.sources) (ρ : Env) :
    source ⟨e, db, g, part, query⟩ ρ a = source ⟨e, db, g, part', query'⟩ ρ a := by
  unfold source
  dsimp only
  split
  · rfl
  · rename_i s hs
    rw [hquery a (List.mem_append_left _ ha) s hs]

include hpart hquery

lemma joined_congr (ρ : Env) :
    joined ⟨e, db, g, part, query⟩ q ρ = joined ⟨e, db, g, part', query'⟩ q ρ := by
  have hpartners : ∀ j ∈ q.joins, partners ⟨e, db, g, part, query⟩ j =
      partners ⟨e, db, g, part', query'⟩ j := by
    intro j hj
    have hj' : j.source ∈ q.sources :=
      List.mem_append_right _ (List.mem_map_of_mem hj)
    have hcondition : part j.condition = part' j.condition :=
      hpart _ (by
        simp only [Request.clauseNodes, List.mem_append, List.mem_map]
        exact .inl (.inl (.inl (.inl (.inl (.inl ⟨j, hj, rfl⟩))))))
    funext ρ
    have hsource : source ⟨e, db, g, part, query⟩ ρ j.source =
        source ⟨e, db, g, part', query'⟩ ρ j.source := source_congr hquery hj' ρ
    simp only [partners, hsource, hcondition]
  unfold joined
  split
  · rename_i base hbase
    have hbase' : base ∈ q.sources := by simp [Request.sources, hbase]
    rw [source_congr hquery hbase' ρ]
    exact List.foldl_ext _ _ _ fun ρs j hj => by rw [hpartners j hj]
  · rfl

lemma filtered_congr (ρ : Env) :
    filtered ⟨e, db, g, part, query⟩ q ρ = filtered ⟨e, db, g, part', query'⟩ q ρ := by
  unfold filtered
  rw [joined_congr hpart hquery]
  split
  · rename_i n hn
    dsimp only
    rw [hpart n (by simp [Request.clauseNodes, hn])]
  · rfl

lemma grouped_congr (ρ : Env) :
    grouped ⟨e, db, g, part, query⟩ q ρ = grouped ⟨e, db, g, part', query'⟩ q ρ := by
  have hkeys : ∀ σ τ : Env,
      (q.groups.all fun k => e.alike ((part k).alone σ) ((part k).alone τ)) =
        q.groups.all fun k => e.alike ((part' k).alone σ) ((part' k).alone τ) := by
    intro σ τ
    have hgroups : q.groups.map part = q.groups.map part' :=
      List.map_congr_left fun k hk => hpart k (by simp [Request.clauseNodes, hk])
    have hall : ∀ p : NodeId → Term,
        (q.groups.all fun k => e.alike ((p k).alone σ) ((p k).alone τ)) =
          (q.groups.map p).all fun t => e.alike (t.alone σ) (t.alone τ) :=
      fun p => by simp [List.all_map, Function.comp_def]
    rw [hall, hall, hgroups]
  have hitems : (q.items.any fun i => (part i.node).summary) =
      q.items.any fun i => (part' i.node).summary := by
    have hterms : q.items.map (fun i => part i.node) = q.items.map fun i => part' i.node := by
      refine List.map_congr_left fun i hi => hpart i.node ?_
      simp only [Request.clauseNodes, List.mem_append, List.mem_map]
      grind
    have hany : ∀ p : NodeId → Term, (q.items.any fun i => (p i.node).summary) =
        (q.items.map fun i => p i.node).any Term.summary :=
      fun p => by simp [List.any_map, Function.comp_def]
    rw [hany, hany, hterms]
  unfold grouped
  rw [filtered_congr hpart hquery]
  simp only [hkeys, hitems]

lemma sorted_congr (ρ : Env) :
    sorted ⟨e, db, g, part, query⟩ q ρ = sorted ⟨e, db, g, part', query'⟩ q ρ := by
  have hhaving : ∀ u : Env × List Env, (q.having.all fun n => isTrue ((part n).value u.1 u.2)) =
      q.having.all fun n => isTrue ((part' n).value u.1 u.2) := by
    intro u
    cases h : q.having with
    | none => rfl
    | some n => simp only [Option.all_some, hpart n (by simp [Request.clauseNodes, h])]
  have hbefore : ∀ u v : Env × List Env,
      q.orders.foldr (fun o rest =>
        let x := (part o.node).value u.1 u.2
        let y := (part o.node).value v.1 v.2
        if e.alike x y then rest
        else if o.ascending then e.precedes x y else e.precedes y x) true =
      q.orders.foldr (fun o rest =>
        let x := (part' o.node).value u.1 u.2
        let y := (part' o.node).value v.1 v.2
        if e.alike x y then rest
        else if o.ascending then e.precedes x y else e.precedes y x) true := by
    intro u v
    refine List.foldr_ext _ _ _ fun o ho rest => ?_
    rw [hpart o.node (by simp only [Request.clauseNodes, List.mem_append, List.mem_map]; grind)]
  unfold sorted
  rw [grouped_congr hpart hquery]
  simp only [hhaving, hbefore]

lemma request_congr (ρ : Env) :
    request ⟨e, db, g, part, query⟩ q ρ = request ⟨e, db, g, part', query'⟩ q ρ := by
  have hselected : ∀ u : Env × List Env, q.items.flatMap (selected ⟨e, db, g, part, query⟩ u) =
      q.items.flatMap (selected ⟨e, db, g, part', query'⟩ u) := by
    intro u
    refine List.flatMap_congr fun i hi => ?_
    have hnode : part i.node = part' i.node :=
      hpart _ (by simp only [Request.clauseNodes, List.mem_append, List.mem_map]; grind)
    simp only [selected, hnode]
  unfold request
  split
  · unfold select
    rw [sorted_congr hpart hquery]
    simp only [hselected]
  · rfl

end Congr

end Evaluator

/-! ### Readings -/

namespace Graph

/-- Evaluation as a reading of a graph. -/
def evaluating (g : Graph) (e : Engine) (db : Database) : Reading Term (Env → List Row) where
  node term query := Evaluator.node ⟨e, db, g, term, query⟩
  request term query r := Evaluator.request ⟨e, db, g, term, query⟩ (g.request r)
  endless := { value := fun _ _ => .null }
  again := fun _ => []

lemma local_evaluating (g : Graph) (e : Engine) (db : Database) : (g.evaluating e db).Local g where
  node _ _ _ _ _ hpart hquery := Evaluator.node_congr hpart hquery
  request _ _ _ _ _ hpart hquery := funext fun ρ => Evaluator.request_congr hpart hquery ρ

/-- The evaluator of whole values and requests. -/
def evaluator (g : Graph) (e : Engine) (db : Database) : Evaluator :=
  ⟨e, db, g, g.readNode (g.evaluating e db), g.readRequest (g.evaluating e db)⟩

/-- The rows of a source that is a table. -/
lemma source_of_table {g : Graph} {e : Engine} {db : Database} {a : AliasId} {name : String} {ρ : Env}
    (h : (g.aliasOf a).origin = .table name) : (g.evaluator e db).source ρ a = db.rows name := by
  simp only [Evaluator.source, evaluator, h]

/-- The rows of a derived table. -/
lemma source_of_request {g : Graph} {e : Engine} {db : Database} {a : AliasId} {r : RequestId} {ρ : Env}
    (h : (g.aliasOf a).origin = .request r) :
    (g.evaluator e db).source ρ a = (g.evaluator e db).query r ρ := by
  simp only [Evaluator.source, evaluator, h]

/-- The rows that a request returns where no source stands at a row yet. -/
def rowsOf (g : Graph) (e : Engine) (db : Database) (r : RequestId) : List Row :=
  (g.evaluator e db).query r fun _ => []

section Acyclic

variable {g : Graph} {μ : Part → Nat} (hμ : g.Ranked μ) (e : Engine) (db : Database)
include hμ

/-- **A value is what the rule for its node says.** -/
theorem term_eq (n : NodeId) :
    (g.evaluator e db).term n = (g.evaluator e db).node (g.node n) :=
  readNode_eq (local_evaluating g e db) hμ n

/-- **A request returns what its clauses say.** -/
theorem query_eq (r : RequestId) :
    (g.evaluator e db).query r = (g.evaluator e db).request (g.request r) :=
  readRequest_eq (local_evaluating g e db) hμ r

variable {e db} {n : NodeId} (ρ : Env) (γ : List Env)

lemma value_column {a : AliasId} {c : String} (h : g.node n = .column a c) :
    ((g.evaluator e db).term n).value ρ γ = (ρ a).value c := by
  rw [term_eq hμ, h]
  rfl

lemma value_const {v : Value} (h : g.node n = .const v) :
    ((g.evaluator e db).term n).value ρ γ = v := by
  rw [term_eq hμ, h]
  rfl

lemma value_binary {op : BinaryOp} {l r : NodeId} (h : g.node n = .binary op l r)
    (hl : (g.node l).isNull = false) (hr : (g.node r).isNull = false) :
    ((g.evaluator e db).term n).value ρ γ = e.binary op
      (((g.evaluator e db).term l).value ρ γ) (((g.evaluator e db).term r).value ρ γ) := by
  have hgraph : (g.evaluator e db).graph = g := rfl
  rw [term_eq hμ, h]
  simp only [Evaluator.node, Evaluator.binary, hgraph, hl, hr]
  rfl

lemma value_isIn {c : NodeId} {vs : List NodeId} (h : g.node n = .isIn c vs) :
    ((g.evaluator e db).term n).value ρ γ =
      ofTruth (e.among (((g.evaluator e db).term c).value ρ γ)
        (vs.map fun v => ((g.evaluator e db).term v).value ρ γ)) := by
  rw [term_eq hμ, h]
  rfl

lemma value_exists {c : NodeId} {r : RequestId} (h : g.node n = .unary .exists (some c))
    (hc : g.node c = .sub r) :
    ((g.evaluator e db).term n).value ρ γ = .boolean !((g.evaluator e db).query r ρ).isEmpty := by
  have hfound : ((g.evaluator e db).term c).found ρ = !((g.evaluator e db).query r ρ).isEmpty := by
    rw [term_eq hμ, hc]
    rfl
  rw [term_eq hμ, h, ← hfound]
  rfl

end Acyclic

end Graph

end EntityQuery.Sql
