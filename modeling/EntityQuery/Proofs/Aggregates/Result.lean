import EntityQuery.Proofs.Aggregates.Supply
import Mathlib.Algebra.BigOperators.Group.List.Basic

/-!
Aggregates over the rows of a plan.

* `rowsOf_compile_clauses`: clauses return the rows that their plan asks for.
* `answers_count`, `answers_total`, `answers_any`: what an aggregate over clauses returns. A condition
  and a selected value are applied below the page and before repetitions are dropped.
* `compile_aggregates`: where that makes no difference, aggregates are over the rows that the clauses
  return.
-/

namespace EntityQuery

open Sql Store Compile

variable {st : Store} {m : Mapping} {E table : String} {s t u : CompileState} {p : Plan}

/-! ### Aggregates -/

/-- The aggregates of a value. -/
inductive Total where
  | sum
  | average
  | min
  | max
  deriving DecidableEq, Repr

namespace Total

def method : Total → Method
  | .sum => .sum
  | .average => .average
  | .min => .min
  | .max => .max

def op : Total → UnaryOp
  | .sum => .sum
  | .average => .average
  | .min => .min
  | .max => .max

end Total

lemma Clause.type_query (cs : List Clause) : (Clause.query E cs).type = .query (.entity E) := by
  induction cs using List.reverseRecOn with
  | nil => rfl
  | append_singleton cs c ih =>
    have hquery : Clause.query E (cs ++ [c]) = c.expr (Clause.query E cs) := by
      simp [Clause.query, List.foldl_append]
    rw [hquery]
    cases c with
    | order restart ascending key => cases restart <;> cases ascending <;> exact ih
    | _ => exact ih

lemma Clause.isGrouping_query (cs : List Clause) : (Clause.query E cs).type.isGrouping = false := by
  rw [Clause.type_query]
  rfl

/-- A column belongs to a property of an entity. -/
lemma Catalog.mem_of_columnName {c : Catalog} {p : PropertyRef} {column : String}
    (h : c.columnName p = .ok column) : ∃ e ∈ c.entities, ∃ q ∈ e.properties, q.column = column := by
  cases hq : c.propertyMapping p with
  | error e => simp [Catalog.columnName, hq, bind, Except.bind] at h
  | ok q =>
    obtain ⟨e, he, hproperty⟩ := Catalog.propertyMapping_eq_ok hq
    refine ⟨e, List.mem_of_find?_eq_some he, q, List.mem_of_find?_eq_some hproperty, ?_⟩
    simpa [Catalog.columnName, hq, bind, Except.bind, pure, Except.pure] using h

/-- A call is deeper than its receiver and its lambda. -/
lemma depth_call_lambda (method : Method) (q : Expr) (l : Lambda) :
    ∃ fuel, (Expr.call method [q, l.expr]).depth = fuel + 1 ∧ q.depth ≤ fuel ∧
      l.body.expr.depth ≤ fuel := by
  refine ⟨Expr.depthAll [q, l.expr], rfl, ?_, ?_⟩ <;>
    simp only [Lambda.expr, Expr.depth, Expr.depthAll] <;> omega

/-- A query compiles, and it returns one value. -/
def Mapping.Answers (m : Mapping) (e : Engine) (db : Database) (q : Expr) (v : Value) : Prop :=
  ∃ s, (m.compile q).1 = .ok s ∧ s.graph.rowsOf e db s.root = [[("", v)]]

/-! ### The outermost request -/

section Closing

variable {outer : RequestId} {n : NodeId} {base : Option AliasId}

/-- The only selected value of a request is the only column of its result. -/
lemma runs_declareColumns_value (hbase : (s.graph.request outer) = { base })
    (houter : outer.index < s.graph.requests.size) (hrow : ∀ a, s.graph.node n ≠ .row a)
    (type : TypeRef) (e : Expr) :
    Runs (declareColumns e outer)
      { s with graph :=
          (s.graph.pushItem outer { node := n }).modifyRequest outer ({ · with projection := some type }) }
      () { s with graph := s.graph.answer outer n type } := by
  obtain ⟨g, hg⟩ : ∃ g, g =
    (s.graph.pushItem outer { node := n }).modifyRequest outer ({ · with projection := some type }) :=
    ⟨_, rfl⟩
  have hrequest : g.request outer = { base, items := [{ node := n }], projection := some type } := by
    rw [hg, Graph.request_modifyRequest_self _ _ (by simpa using houter),
      Graph.request_pushItem_self _ houter, hbase]
    rfl
  have hnode : ∀ a, (g.clearItems outer).node n ≠ .row a := by
    rw [hg]
    simpa [Graph.clearItems, Graph.pushItem] using hrow
  have hexpand : Runs (expandItem outer { node := n }) { s with graph := g.clearItems outer } ()
      { s with graph := (g.clearItems outer).pushItem outer { node := n } } := by
    refine Runs.bind (runs_graph.2 ⟨rfl, rfl⟩) ?_
    dsimp only
    split
    · next a ha => exact absurd ha (hnode a)
    · exact runs_edit.2 rfl
  rw [← hg]
  refine Runs.bind (runs_request.2 ⟨rfl, rfl⟩) ?_
  dsimp only
  rw [hrequest]
  refine Runs.bind (a := ()) (runs_edit.2 rfl) ?_
  rw [Graph.answer, ← hg]
  exact Runs.bind hexpand (runs_pure.2 ⟨rfl, rfl⟩)

/-- A call is answered by the outermost request. -/
lemma answers_of_runs {method : Method} {args : List Expr} {x : Meaning} {type : TypeRef}
    {e : Engine} {db : Database} {v : Value}
    (hbase : s.graph.request outer = { base }) (houter : outer.index < s.graph.requests.size)
    (hactive : s.active = some outer) (hrow : ∀ a, s.graph.node n ≠ .row a)
    (hrun : Runs (visit [] (Expr.call method args).depth (.call method args)) { mapping := m } x
      { s with graph :=
        (s.graph.pushItem outer { node := n }).modifyRequest outer ({ · with projection := some type }) })
    (hrows : (s.graph.answer outer n type).rowsOf e db outer = [[("", v)]]) :
    m.Answers e db (.call method args) v := by
  have hparent : (((s.graph.pushItem outer { node := n }).modifyRequest outer
      ({ · with projection := some type })).request outer).parent = none := by
    rw [Graph.request_modifyRequest_self _ _ (by simpa using houter),
      Graph.request_pushItem_self _ houter, hbase]
  have hroot := runs_root_call hrun hactive hparent
    (runs_declareColumns_value hbase houter hrow type (.call method args))
  refine ⟨⟨s.graph.answer outer n type, outer, s.hints⟩, ?_, hrows⟩
  have hcompile : (root [] (.call method args)).run.run { mapping := m } =
    (.ok outer, { s with graph := s.graph.answer outer n type }) := hroot
  rw [Mapping.compile, Mapping.compileWith, hcompile]
  rfl

end Closing

/-! ### Steps of an aggregate -/

section Steps

variable (hm : m.equivalents = []) (hcatalog : m.catalog = st.catalog)

include hm hcatalog in
/-- All columns of the base are selected. -/
lemma Piped.runs_selectAll (hs : Piped st m E table p s) (e : Expr) :
    ∃ s' u i, Runs (selectAll e ⟨0⟩) s () u ∧ Piped st m E table p s' ∧ Picked s' u i ∧
      u.graph.node i.node = .column ⟨0⟩ allColumns := by
  have hs' : Piped st m E table p
      { s with graph := (s.graph.add (.column ⟨0⟩ allColumns)).2 } :=
    hs.add hm hcatalog (by simp [Node.children]) (by simp)
  refine ⟨_, _, { node := ⟨s.graph.entries.size⟩ }, ?_, hs', hs'.picked (by simp), ?_⟩
  · refine Runs.bind (runs_request.2 ⟨rfl, rfl⟩) ?_
    rw [hs.standing.bare.items, hs.standing.bare.base]
    exact Runs.bind (runs_add.2 ⟨rfl, rfl⟩) (runs_edit.2 rfl)
  · simp [Graph.pushItem]

include hm hcatalog in
lemma Piped.runs_selectCounted (hs : Piped st m E table p s) (e : Expr) :
    ∃ s' u i, Runs (selectCounted e ⟨0⟩) s () u ∧ Piped st m E table p s' ∧ Picked s' u i ∧
      u.graph.node i.node = .column ⟨0⟩ allColumns := by
  obtain ⟨s', u, i, hrun, hs', hu, hi⟩ := hs.runs_selectAll hm hcatalog e
  refine ⟨s', u, i, ?_, hs', hu, hi⟩
  refine Runs.bind (runs_request.2 ⟨rfl, rfl⟩) ?_
  rw [hs.standing.bare.items, hs.standing.bare.groups]
  refine Runs.bind (a := ()) (runs_pure.2 ⟨rfl, rfl⟩) (Runs.bind (runs_request.2 ⟨rfl, rfl⟩) ?_)
  rw [hs.standing.bare.items]
  exact hrun

lemma runs_derive {inner : RequestId} (hparent : (s.graph.request inner).parent = none) :
    Runs (derive inner) s (⟨s.graph.requests.size⟩, ⟨s.graph.aliases.size⟩)
      { s with graph := s.graph.wrap inner, active := some ⟨s.graph.requests.size⟩ } := by
  refine Runs.bind (runs_request.2 ⟨rfl, rfl⟩) ?_
  rw [hparent]
  exact Runs.bind (runs_build.2 ⟨rfl, rfl⟩) (Runs.bind (runs_build.2 ⟨rfl, rfl⟩)
    (Runs.bind (a := ()) (runs_editRequest.2 rfl) (Runs.bind (a := ()) (runs_editRequest.2 rfl)
      (Runs.bind (a := ()) (runs_setActive.2 rfl) (runs_pure.2 ⟨rfl, rfl⟩)))))

end Steps

/-- An aggregate of the outermost request is over its derived table. -/
lemma runs_aggregate {q : Expr} (rest : List Expr) {visit : Visit} {s₀ : CompileState} {r : RequestId}
    {op : UnaryOp} {e : Expr} (htype : q.type.isGrouping = false)
    (hq : Runs (visit q) s₀ (.query ⟨0⟩) s) (hparent : (s.graph.request ⟨0⟩).parent = none)
    (hrun : Runs (aggregateDerived visit e op ⟨0⟩ rest[0]?) s r t) :
    Runs (aggregate visit e op q (q :: rest)) s₀ (.query r) t := by
  have hreceiver : Runs (receiver visit e q) s₀ ⟨0⟩ s := Runs.bind hq (runs_pure.2 ⟨rfl, rfl⟩)
  rw [aggregate, htype]
  refine Runs.bind hreceiver (Runs.bind (runs_request.2 ⟨rfl, rfl⟩) ?_)
  rw [hparent]
  exact Runs.map hrun

/-- Whether there are rows is asked by a request around the query. -/
lemma runs_any_outermost {q : Expr} (rest : List Expr) {visit : Visit} {s₀ : CompileState} {e : Expr}
    (htype : q.type.isGrouping = false) (hq : Runs (visit q) s₀ (.query ⟨0⟩) s)
    (hrestrict : Runs (restrictBy visit e ⟨0⟩ rest[0]?) s () t) (hselect : Runs (selectAll e ⟨0⟩) t () u)
    (hparent : (u.graph.request ⟨0⟩).parent = none) :
    Runs (any visit e q (q :: rest)) s₀ (.query ⟨u.graph.requests.size⟩)
      { u with
        graph := ((u.graph.probe ⟨0⟩).pushItem ⟨u.graph.requests.size⟩
          { node := ⟨u.graph.entries.size + 4⟩ }).modifyRequest ⟨u.graph.requests.size⟩
            ({ · with projection := some .boolean })
        active := some ⟨u.graph.requests.size⟩ } := by
  have hreceiver : Runs (receiver visit e q) s₀ ⟨0⟩ s := Runs.bind hq (runs_pure.2 ⟨rfl, rfl⟩)
  obtain ⟨asked, hasked⟩ : ∃ g : Graph, g =
    ((u.graph.add (.sub ⟨0⟩)).2.add (.unary .exists (some ⟨u.graph.entries.size⟩))).2 := ⟨_, rfl⟩
  obtain ⟨wrapped, hwrapped⟩ : ∃ g : Graph, g = (asked.addRequest none).2.modifyRequest ⟨0⟩
    ({ · with parent := some ⟨u.graph.requests.size⟩ }) := ⟨_, rfl⟩
  have hentries : wrapped.entries.size = u.graph.entries.size + 2 := by simp [hwrapped, hasked]
  have hprobe : u.graph.probe ⟨0⟩ = (((wrapped.add (.const (.boolean true))).2.add
      (.const (.boolean false))).2.add (.cond ⟨u.graph.entries.size + 1⟩ ⟨u.graph.entries.size + 2⟩
        ⟨u.graph.entries.size + 3⟩)).2 := by
    rw [hwrapped, hasked]
    rfl
  have hyes : Runs (add (.const (.boolean true))) { u with graph := wrapped } ⟨u.graph.entries.size + 2⟩
      { u with graph := (wrapped.add (.const (.boolean true))).2 } := by
    refine runs_add.2 ⟨?_, rfl⟩
    rw [hentries]
  have hno : Runs (add (.const (.boolean false)))
      { u with graph := (wrapped.add (.const (.boolean true))).2 } ⟨u.graph.entries.size + 3⟩
      { u with graph := ((wrapped.add (.const (.boolean true))).2.add (.const (.boolean false))).2 } := by
    refine runs_add.2 ⟨?_, rfl⟩
    rw [Graph.size_entries_add, hentries]
  have hanswer : Runs (add (.cond ⟨u.graph.entries.size + 1⟩ ⟨u.graph.entries.size + 2⟩
        ⟨u.graph.entries.size + 3⟩))
      { u with graph := ((wrapped.add (.const (.boolean true))).2.add (.const (.boolean false))).2 }
      ⟨u.graph.entries.size + 4⟩ { u with graph := u.graph.probe ⟨0⟩ } := by
    refine runs_add.2 ⟨?_, by rw [hprobe]⟩
    rw [Graph.size_entries_add, Graph.size_entries_add, hentries]
  have hsub : Runs (add (.sub ⟨0⟩)) u ⟨u.graph.entries.size⟩
      { u with graph := (u.graph.add (.sub ⟨0⟩)).2 } := runs_add.2 ⟨rfl, rfl⟩
  have hexists : Runs (add (.unary .exists (some ⟨u.graph.entries.size⟩)))
      { u with graph := (u.graph.add (.sub ⟨0⟩)).2 } ⟨u.graph.entries.size + 1⟩
      { u with graph := asked } := by
    refine runs_add.2 ⟨?_, by rw [hasked]⟩
    rw [Graph.size_entries_add]
  have hparent' : (asked.request ⟨0⟩).parent = none := by
    rw [hasked, Graph.request_add, Graph.request_add, hparent]
  have houter : Runs (build (Build.addRequest none)) { u with graph := asked } ⟨u.graph.requests.size⟩
      { u with graph := (asked.addRequest none).2 } := by
    have hsize : u.graph.requests.size = asked.requests.size := by simp [hasked]
    rw [hsize]
    exact runs_build.2 ⟨rfl, rfl⟩
  have hwrap : Runs (editRequest ⟨0⟩ ({ · with parent := some ⟨u.graph.requests.size⟩ }))
      { u with graph := (asked.addRequest none).2 } () { u with graph := wrapped } :=
    runs_editRequest.2 (by rw [hwrapped])
  rw [any, htype]
  refine Runs.bind hreceiver (Runs.bind hrestrict (Runs.bind hselect (Runs.bind hsub
    (Runs.bind hexists (Runs.bind (runs_request.2 ⟨rfl, rfl⟩) ?_)))))
  rw [hparent']
  refine Runs.bind houter (Runs.bind hwrap (Runs.bind hyes (Runs.bind hno (Runs.bind hanswer ?_))))
  exact Runs.bind (a := ()) (runs_edit.2 rfl) (Runs.bind (a := ()) (runs_editRequest.2 rfl)
    (Runs.bind (a := ()) (runs_setActive.2 rfl) (runs_pure.2 ⟨rfl, rfl⟩)))

/-- The answer of an aggregate over a derived table. -/
lemma Picked.answers {i : Item} (hs : Piped st m E table p s) (hu : Picked s u i) {W : Graph}
    (hkept : (u.graph.wrap ⟨0⟩).Kept [] [] W) (htop : W.Topped ⟨u.graph.requests.size⟩) {n : NodeId}
    {op : UnaryOp} {operand : Option NodeId} (hn : W.node n = .unary op operand) {method : Method}
    {args : List Expr} {rows : List Row} (value : List Row → Value)
    (hrun : Runs (visit [] (Expr.call method args).depth (.call method args)) { mapping := m }
      (.query ⟨u.graph.requests.size⟩)
      { u with
        graph := (W.pushItem ⟨u.graph.requests.size⟩ { node := n }).modifyRequest
          ⟨u.graph.requests.size⟩ ({ · with projection := some (Expr.call method args).type })
        active := some ⟨u.graph.requests.size⟩ })
    (hvalue : ∀ (G : Graph) (μ : Part → Nat), G.Ranked μ → (∀ k, G.node k = W.node k) →
      ((G.evaluator st.engine st.database).term n).summary = true ∧
      ∀ σ rows, ((G.evaluator st.engine st.database).term n).value σ
        (rows.map (Function.update (fun _ => []) ⟨u.graph.aliases.size⟩)) = value rows)
    (hrows : ∀ (G : Graph) (μ : Part → Nat), G.Ranked μ → (∀ k, G.node k = W.node k) → Supplies st s G p.unsorted i →
      G.rowsOf st.engine st.database ⟨0⟩ = rows) :
    m.Answers st.engine st.database (.call method args) (value rows) := by
  obtain ⟨htop', hsupplies, hrequest, horigin⟩ := hu.wrapped hs hkept htop n (Expr.call method args).type
  have hμ := Graph.ranked_rank htop'.ordered htop'.acyclic
  have hsize : u.graph.requests.size < (u.graph.wrap ⟨0⟩).requests.size := by simp
  have hbase : W.request ⟨u.graph.requests.size⟩ = { base := some ⟨u.graph.aliases.size⟩ } :=
    (hkept.request ⟨u.graph.requests.size⟩ hsize (by simp)).trans
      (Graph.request_wrap_outer (hu.zero_lt hs))
  obtain ⟨hsummary, hterm⟩ := hvalue _ _ hμ (Graph.node_answer _ _)
  refine answers_of_runs (s := { u with graph := W, active := some ⟨u.graph.requests.size⟩ })
    hbase (hsize.trans_le hkept.requests) rfl (by simp [hn]) hrun ?_
  rw [rowsOf_wrapped hμ hrequest horigin (by rw [Graph.node_answer, hn]; rfl) hsummary hterm,
    hrows _ _ hμ (Graph.node_answer _ _) hsupplies]

/-! ### Aggregates over clauses -/

section Answers

variable {q : Expr} {rest : List Expr} {fuel : Nat} (hm : m.equivalents = [])
  (hcatalog : m.catalog = st.catalog) (htype : q.type.isGrouping = false)
  (hq : Runs (visit [] fuel q) { mapping := m } (.query ⟨0⟩) s)
  (hparent : (s.graph.request ⟨0⟩).parent = none)
include hm hcatalog htype hq hparent

/-- A query is counted with its condition, below the page. -/
lemma answers_count (hdepth : (Expr.call .count (q :: rest)).depth = fuel + 1)
    (hrestrict : Runs (restrictBy (visit [] fuel) (.call .count (q :: rest)) ⟨0⟩ rest[0]?) s () t)
    (ht : Piped st m E table p t)
    (hapart : p.distinct = true → st.Apart (st.database.rows table)) :
    m.Answers st.engine st.database (.call .count (q :: rest))
      (.int (Int64.ofNat (p.rows st (st.database.rows table)).length)) := by
  obtain ⟨t', u, i, hselect, ht', hu, hi⟩ := ht.runs_selectCounted hm hcatalog (.call .count (q :: rest))
  have hparent' : (u.graph.request ⟨0⟩).parent = none := by
    rw [hu.request]
    exact ht'.standing.bare.parent
  have htop := (Graph.topped_wrap (hu.zero_lt ht') hu.sound List.mem_cons_self).add
    (x := .unary .count none) (by simp [Node.children]) (by simp)
  have hlength := ((p.perm_rows_unsorted st (st.database.rows table))).length_eq
  rw [← hlength]
  refine hu.answers ht' (.add _ _ _ _) htop (Graph.node_add_self _ _)
    (fun rows => .int (Int64.ofNat rows.length)) ?_ (fun G μ hμ hnode => ?_)
    fun G μ hμ hnode hsupplies => ?_
  · rw [hdepth, visit_succ]
    refine runs_aggregate rest htype hq hparent ?_
    refine Runs.bind hrestrict (Runs.bind hselect (Runs.bind (runs_derive hparent') ?_))
    exact Runs.bind (runs_pure.2 ⟨rfl, rfl⟩) (Runs.bind (runs_add.2 ⟨rfl, rfl⟩)
      (Runs.bind (a := ()) (runs_edit.2 rfl) (Runs.bind (a := ()) (runs_editRequest.2 rfl)
        (runs_pure.2 ⟨rfl, rfl⟩))))
  · have hcount := hnode ⟨(u.graph.wrap ⟨0⟩).entries.size⟩
    rw [Graph.node_add_self] at hcount
    rw [G.term_eq hμ, hcount]
    exact ⟨rfl, fun σ rows => by simp [Evaluator.node, Evaluator.unary]⟩
  · refine hsupplies.query_whole ht' hμ ?_ hapart _
    have hlt : i.node.index < (u.graph.wrap ⟨0⟩).entries.size := hu.lt
    rw [hnode, Graph.node_add_of_lt _ _ hlt, Graph.node_wrap, hi]

/-- A value is aggregated below the page and before repetitions are dropped. -/
lemma answers_total (total : Total) {l : Lambda} (hc : st.catalog.validate = .ok ())
    (hl : l.typed st.catalog E = true) (hfuel : l.body.expr.depth ≤ fuel)
    (hdepth : (Expr.call total.method [q, l.expr]).depth = fuel + 1) (hs : Piped st m E table p s)
    (hstar : ∀ e ∈ st.catalog.entities, ∀ r ∈ e.properties, r.column ≠ allColumns) (hdistinct : p.distinct = false) :
    m.Answers st.engine st.database (.call total.method [q, l.expr])
      (st.engine.aggregate total.op ((p.unsorted.rows st (st.database.rows table)).map (l.value st))) := by
  obtain ⟨n, t, hrun, ht, hn, hcolumn⟩ := hs.runs_selector hc hm hcatalog hl fuel hfuel
    (.call total.method [q, l.expr])
  let i : Item := { node := n, label := some (derivedLabel 0) }
  obtain ⟨u, hu'⟩ : ∃ u : CompileState, u = { t with graph := t.graph.pushItem ⟨0⟩ i } := ⟨_, rfl⟩
  have hu : Picked t u i := hu' ▸ ht.picked hn.lt
  have hclear : t.graph.clearItems ⟨0⟩ = t.graph := t.graph.clearItems_of_nil ht.standing.bare.items
  have hparent' : (u.graph.request ⟨0⟩).parent = none := by
    rw [hu.request]
    exact ht.standing.bare.parent
  -- the derived table's column, and the aggregate of it
  let column : Node := .column ⟨u.graph.aliases.size⟩ (derivedLabel 0)
  let W : Graph := ((u.graph.wrap ⟨0⟩).add column).2
  have htop := ((Graph.topped_wrap (hu.zero_lt ht) hu.sound List.mem_cons_self).add
    (x := column) (by simp [column, Node.children]) (by simp [column])).add
    (x := .unary total.op (some ⟨(u.graph.wrap ⟨0⟩).entries.size⟩)) (by simp [Node.children]) (by simp)
  have hrows : ((p.unsorted.rows st (st.database.rows table)).map fun row =>
      ([(derivedLabel 0, l.value st row)] : Row)).map (Row.value · (derivedLabel 0)) =
      (p.unsorted.rows st (st.database.rows table)).map (l.value st) := by
    rw [List.map_map]
    refine List.map_congr_left fun row _ => ?_
    simp [Row.value]
  rw [← hrows]
  refine hu.answers ht ((Graph.Kept.add _ _ _ _).trans (.add _ _ _ _)) htop (Graph.node_add_self _ _)
    (fun rows => st.engine.aggregate total.op (rows.map (Row.value · (derivedLabel 0)))) ?_
    (fun G μ hμ hnode => ?_) fun G μ hμ hnode hsupplies => ?_
  · rw [hdepth, visit_succ]
    have hwithin : Runs (selector (visit [] fuel) (.call total.method [q, l.expr]) ⟨0⟩ l.expr) s n t :=
      hs.standing.runs_within ht.standing.active hrun
    have haggregated : Runs (do
        let n ← aggregated (visit [] fuel) (.call total.method [q, l.expr]) ⟨0⟩ (some l.expr)
        edit fun g => (g.clearItems ⟨0⟩).pushItem ⟨0⟩ { node := n, label := some (derivedLabel 0) }) s
        () u := by
      refine Runs.bind hwithin (runs_edit.2 ?_)
      rw [hclear, hu']
    have hcall : ∀ {r : RequestId} {v : CompileState}, Runs (aggregateDerived (visit [] fuel)
        (.call total.method [q, l.expr]) total.op ⟨0⟩ (some l.expr)) s r v →
        Runs (step (visit [] fuel) (.call total.method [q, l.expr])) { mapping := m } (.query r) v := by
      intro r v h
      cases total <;> exact runs_aggregate [l.expr] htype hq hparent h
    refine hcall ?_
    obtain ⟨k, v, hk, hedit⟩ := runs_bind.1 haggregated
    rw [aggregateDerived, if_neg (by cases total <;> decide)]
    refine Runs.bind hk (Runs.bind hedit (Runs.bind (runs_derive hparent') ?_))
    dsimp only
    rw [if_neg (by cases total <;> decide)]
    exact Runs.bind (Runs.map (runs_add.2 ⟨rfl, rfl⟩)) (Runs.bind (runs_add.2 ⟨rfl, rfl⟩)
      (Runs.bind (a := ()) (runs_edit.2 rfl) (Runs.bind (a := ()) (runs_editRequest.2 rfl)
        (runs_pure.2 ⟨rfl, rfl⟩))))
  · have hsize : (u.graph.wrap ⟨0⟩).entries.size < W.entries.size := by simp [W]
    have hbase : G.node ⟨(u.graph.wrap ⟨0⟩).entries.size⟩ = column := by
      rw [hnode, Graph.node_add_of_lt W _ (m := ⟨(u.graph.wrap ⟨0⟩).entries.size⟩) hsize,
        Graph.node_add_self]
    have htotal : G.node ⟨W.entries.size⟩ =
        .unary total.op (some ⟨(u.graph.wrap ⟨0⟩).entries.size⟩) := by
      rw [hnode, Graph.node_add_self]
    have hvalue : ∀ row : Row, ((G.evaluator st.engine st.database).term
        ⟨(u.graph.wrap ⟨0⟩).entries.size⟩).alone
          (Function.update (fun _ => []) ⟨u.graph.aliases.size⟩ row) = row.value (derivedLabel 0) := by
      intro row
      rw [Term.alone, G.value_column hμ _ _ hbase, Function.update_self]
    have hterm : (G.evaluator st.engine st.database).term ⟨W.entries.size⟩ =
        { value := fun _ group => st.engine.aggregate total.op (group.map
            ((G.evaluator st.engine st.database).term ⟨(u.graph.wrap ⟨0⟩).entries.size⟩).alone),
          summary := true } := by
      rw [G.term_eq hμ, htotal]
      cases total <;> rfl
    refine ⟨by rw [hterm], fun σ rows => ?_⟩
    rw [hterm]
    dsimp only
    rw [List.map_map]
    exact congrArg _ (List.map_congr_left fun row _ => hvalue row)
  · refine hsupplies.query_labelled ht hμ hn rfl (fun a c hnode => ?_) hdistinct _
    obtain ⟨r, hr⟩ := hcolumn a c hnode
    obtain ⟨e, he, stored, hstored, rfl⟩ := Catalog.mem_of_columnName hr
    exact hstar e he stored hstored

omit hparent in
/-- Whether there are rows is asked with the condition, below the page. -/
lemma answers_any (hdepth : (Expr.call .any (q :: rest)).depth = fuel + 1)
    (hrestrict : Runs (restrictBy (visit [] fuel) (.call .any (q :: rest)) ⟨0⟩ rest[0]?) s () t)
    (ht : Piped st m E table p t)
    (hapart : p.distinct = true → st.Apart (st.database.rows table)) :
    m.Answers st.engine st.database (.call .any (q :: rest))
      (.boolean !(p.rows st (st.database.rows table)).isEmpty) := by
  obtain ⟨t', u, i, hselect, ht', hu, hi⟩ := ht.runs_selectAll hm hcatalog (.call .any (q :: rest))
  have hzero := hu.zero_lt ht'
  have hparent' : (u.graph.request ⟨0⟩).parent = none := by
    rw [hu.request]
    exact ht'.standing.bare.parent
  obtain ⟨G, hG⟩ : ∃ G : Graph, G = (u.graph.probe ⟨0⟩).answer ⟨u.graph.requests.size⟩
    ⟨u.graph.entries.size + 4⟩ .boolean := ⟨_, rfl⟩
  have hne : (⟨0⟩ : RequestId) ≠ ⟨u.graph.requests.size⟩ := Graph.ne_outer hzero
  have hsize : u.graph.requests.size < (u.graph.probe ⟨0⟩).requests.size := by simp
  have houter := Graph.request_probe_outer (g := u.graph) hzero
  have hitems : ((u.graph.probe ⟨0⟩).request ⟨u.graph.requests.size⟩).items = [] := by rw [houter]
  have htop : G.Topped ⟨u.graph.requests.size⟩ :=
    hG ▸ (Graph.topped_probe hu.sound hzero).answer _ _ hsize hitems
  have hμ := Graph.ranked_rank htop.ordered htop.acyclic
  have hsupplies : Supplies st t' G p i := by
    refine hu.supplies ht' ?_ (hG ▸ (Graph.request_answer_of_ne _ _ hne).trans
      (Graph.request_probe_inner hzero))
    have hkept : u.graph.Kept [⟨0⟩, ⟨u.graph.requests.size⟩] [] G := by
      rw [hG]
      exact (Graph.kept_probe.mono (by simp) (by simp)).trans (Graph.kept_answer _ _ (by simp))
    refine hkept.mono (fun r hr hold => ?_) (by simp)
    rcases List.mem_cons.1 hr with rfl | hr
    · exact List.mem_cons_self
    · rw [List.mem_singleton.1 hr] at hold
      exact absurd hold (Nat.lt_irrefl _)
  have hnode : ∀ n, G.node n = (u.graph.probe ⟨0⟩).node n := by
    intro n
    rw [hG, Graph.node_answer]
  obtain ⟨hsub, hexists, hyes, hno, hcond⟩ : (u.graph.probe ⟨0⟩).node ⟨u.graph.entries.size⟩ = _ ∧ _ :=
    Graph.node_probe
  have hrows : ∀ ρ, (G.evaluator st.engine st.database).query ⟨0⟩ ρ = p.rows st (st.database.rows table) :=
    hsupplies.query_whole ht' hμ (by rw [hnode, Graph.kept_probe.node _ hu.lt, hi]) hapart
  have hvalue : ∀ ρ γ, ((G.evaluator st.engine st.database).term ⟨u.graph.entries.size + 4⟩).value ρ γ =
      .boolean !(p.rows st (st.database.rows table)).isEmpty := by
    intro ρ γ
    rw [G.value_cond hμ ρ γ ((hnode _).trans hcond), G.value_const hμ ρ γ ((hnode _).trans hyes),
      G.value_const hμ ρ γ ((hnode _).trans hno),
      G.value_exists hμ ρ γ ((hnode _).trans hexists) ((hnode _).trans hsub), hrows]
    cases (p.rows st (st.database.rows table)).isEmpty <;> rfl
  have hsummary : ((G.evaluator st.engine st.database).term ⟨u.graph.entries.size + 4⟩).summary = false := by
    have hparts : ∀ {n : NodeId} {x : Node}, (u.graph.probe ⟨0⟩).node n = x →
        ((G.evaluator st.engine st.database).term n).summary =
          ((G.evaluator st.engine st.database).node x).summary := by
      intro n x hx
      rw [G.term_eq hμ, hnode, hx]
    rw [hparts hcond]
    change ((_ || _) || _) = false
    rw [hparts hexists, hparts hyes, hparts hno]
    rfl
  have hanswer : G.rowsOf st.engine st.database ⟨u.graph.requests.size⟩ =
      [[("", .boolean !(p.rows st (st.database.rows table)).isEmpty)]] := by
    have hrequest : G.request ⟨u.graph.requests.size⟩ =
        { items := [{ node := ⟨u.graph.entries.size + 4⟩ }], projection := some .boolean } := by
      rw [hG, Graph.request_answer_self (r := ⟨u.graph.requests.size⟩) _ _ hsize hitems, houter]
    rw [rowsOf_alone hμ hrequest (by rw [hnode, hcond]; rfl) hsummary, Term.alone, hvalue]
  refine answers_of_runs (x := .query ⟨u.graph.requests.size⟩)
    (s := { u with graph := u.graph.probe ⟨0⟩, active := some ⟨u.graph.requests.size⟩ }) houter hsize rfl (by simp [hcond]) ?_ (hG ▸ hanswer)
  rw [hdepth, visit_succ]
  exact runs_any_outermost rest htype hq hrestrict hselect hparent'

end Answers

/-! ### Results -/

/-- What is shown of a row of an entity by itself. -/
def Mapping.display (m : Mapping) (entity : String) (row : Row) : Row :=
  if (m.shown entity).isEmpty then row else (m.shown entity).flatMap row.pick

/-- The order of values plays no part in an aggregate. -/
lemma Sql.Engine.aggregate_perm {e : Engine}
    (hperm : ∀ op {vs ws : List Value}, vs.Perm ws → e.summarize op vs = e.summarize op ws) (op : UnaryOp)
    {vs ws : List Value} (h : vs.Perm ws) : e.aggregate op vs = e.aggregate op ws := by
  have hfilter := h.filter fun v => !v.isNull
  have hempty := hfilter.isEmpty_eq
  cases op with
  | count => simp only [Engine.aggregate, hfilter.length_eq]
  | _ => simp only [Engine.aggregate, hempty, hperm _ hfilter]

section Clauses

variable (st) (hm : m.equivalents = []) (hcatalog : m.catalog = st.catalog)
  (hc : st.catalog.validate = .ok ()) (htable : m.catalog.tableName E = .ok table) {cs : List Clause}
  (hcs : ∀ c ∈ cs, c.typed st.catalog E = true)
include hm hcatalog hc htable hcs

/-- All rows are counted. -/
lemma answers_count_clauses
    (hapart : (Plan.ofClauses cs).distinct = true → st.Apart (st.database.rows table)) :
    m.Answers st.engine st.database (.call .count [Clause.query E cs])
      (.int (Int64.ofNat ((Plan.ofClauses cs).rows st (st.database.rows table)).length)) := by
  obtain ⟨s, hrun, hs⟩ := runs_clauses hc hm hcatalog htable hcs le_rfl
  refine answers_count hm hcatalog (Clause.isGrouping_query cs) hrun hs.standing.bare.parent ?_
    (runs_pure.2 ⟨rfl, rfl⟩) hs hapart
  simp [Expr.depth, Expr.depthAll]

/-- A condition is one more filter. -/
lemma runs_restrictBy_clauses {test : Lambda} (htest : test.typed st.catalog E = true) (method : Method) :
    ∃ fuel s t, (Expr.call method [Clause.query E cs, test.expr]).depth = fuel + 1 ∧
      Runs (visit [] fuel (Clause.query E cs)) { mapping := m } (.query ⟨0⟩) s ∧
      (s.graph.request ⟨0⟩).parent = none ∧
      Runs (restrictBy (visit [] fuel) (.call method [Clause.query E cs, test.expr]) ⟨0⟩
        (some test.expr)) s () t ∧
      Piped st m E table ((Plan.ofClauses cs).add (.filter test)) t := by
  obtain ⟨fuel, hdepth, hq, hbody⟩ := depth_call_lambda method (Clause.query E cs) test
  obtain ⟨s, hrun, hs⟩ := runs_clauses hc hm hcatalog htable hcs hq
  obtain ⟨n, t, u, hpredicate, hactive, hrestrict, hu⟩ := hs.filter hc hm hcatalog htest fuel hbody
    (.call method [Clause.query E cs, test.expr])
  exact ⟨fuel, s, u, hdepth, hrun, hs.standing.bare.parent,
    Runs.bind (hs.standing.runs_within hactive hpredicate) hrestrict, hu⟩

/-- The rows of which a condition is true are counted before the page is cut out. -/
lemma answers_count_clauses_of {test : Lambda} (htest : test.typed st.catalog E = true)
    (hapart : (Plan.ofClauses cs).distinct = true → st.Apart (st.database.rows table)) :
    m.Answers st.engine st.database (.call .count [Clause.query E cs, test.expr])
      (.int (Int64.ofNat (((Plan.ofClauses cs).add (.filter test)).rows st
        (st.database.rows table)).length)) := by
  obtain ⟨fuel, s, t, hdepth, hrun, hparent, hrestrict, ht⟩ :=
    runs_restrictBy_clauses st hm hcatalog hc htable hcs htest .count
  exact answers_count hm hcatalog (Clause.isGrouping_query cs) hrun hparent hdepth hrestrict ht hapart

/-- Rows of which a condition is true are looked for before the page is cut out. -/
lemma answers_any_clauses {test : Lambda} (htest : test.typed st.catalog E = true)
    (hapart : (Plan.ofClauses cs).distinct = true → st.Apart (st.database.rows table)) :
    m.Answers st.engine st.database (.call .any [Clause.query E cs, test.expr])
      (.boolean !(((Plan.ofClauses cs).add (.filter test)).rows st (st.database.rows table)).isEmpty) := by
  obtain ⟨fuel, s, t, hdepth, hrun, -, hrestrict, ht⟩ :=
    runs_restrictBy_clauses st hm hcatalog hc htable hcs htest .any
  exact answers_any hm hcatalog (Clause.isGrouping_query cs) hrun hdepth hrestrict ht hapart

/-- A value is aggregated over all rows. -/
lemma answers_total_clauses (total : Total) {l : Lambda} (hl : l.typed st.catalog E = true)
    (hstar : ∀ e ∈ st.catalog.entities, ∀ r ∈ e.properties, r.column ≠ allColumns)
    (hperm : ∀ op {vs ws : List Value}, vs.Perm ws →
      st.engine.summarize op vs = st.engine.summarize op ws)
    (hdistinct : (Plan.ofClauses cs).distinct = false) :
    m.Answers st.engine st.database (.call total.method [Clause.query E cs, l.expr])
      (st.engine.aggregate total.op
        (((Plan.ofClauses cs).rows st (st.database.rows table)).map (l.value st))) := by
  obtain ⟨fuel, hdepth, hq, hbody⟩ := depth_call_lambda total.method (Clause.query E cs) l
  obtain ⟨s, hrun, hs⟩ := runs_clauses hc hm hcatalog htable hcs hq
  rw [← Engine.aggregate_perm hperm total.op
    (((Plan.ofClauses cs).perm_rows_unsorted st (st.database.rows table)).map (l.value st))]
  exact answers_total hm hcatalog (Clause.isGrouping_query cs) hrun hs.standing.bare.parent total hc hl
    hbody hdepth hs hstar hdistinct

omit hm hcatalog hc hcs in
/-- A request that asks for what a plan does compiles, and it returns the rows that the plan asks for, if
no two of the shown rows are alike. -/
theorem rowsOf_compile_piped (hs : Piped st m E table p s) {e : Expr}
    (he : (∃ entity, e = .source entity) ∨ ∃ method args, e = .call method args)
    (hrun : Runs (visit [] e.depth e) { mapping := m } (.query ⟨0⟩) s)
    (hapart : p.distinct = true → st.Apart ((st.database.rows table).map (m.display E))) :
    ∃ s, (m.compile e).1 = .ok s ∧ s.graph.rowsOf st.engine st.database s.root =
      (p.rows st (st.database.rows table)).map (m.display E) := by
  have hbare := hs.standing.bare
  obtain ⟨t, columns, items, hcompile, hcolumns, ht⟩ := hs.standing.compile_eq htable he hrun
  refine ⟨_, hcompile, ?_⟩
  have hsound := ht.sound hs.standing.fits.sound
  have hμ := Graph.ranked_rank hsound.ordered hsound.acyclic
  have hrequest := ht.request
  rw [hbare.items, List.nil_append] at hrequest
  have hitems : (t.graph.request ⟨0⟩).items = items := by rw [hrequest]
  have hbase : (t.graph.request ⟨0⟩).base = some ⟨0⟩ := by rw [hrequest, hbare.base]
  have hasks : Asks st s (t.graph.request ⟨0⟩) p := by
    have h := hs.asks
    rw [hrequest]
    exact ⟨h.joins, h.skip, h.take, h.distinct, h.filter, h.orders⟩
  have hempty : items.isEmpty = (m.shown E).isEmpty := by
    rw [← hcolumns, List.isEmpty_map]
    cases ht.nodes <;> rfl
  rw [Graph.rowsOf, t.graph.query_eq hμ]
  refine hasks.request_eq hs.standing hs.asks.joins hμ ht.kept (by rw [hrequest, hbare.kind])
    (by rw [hrequest, hbare.groups]) (by rw [hrequest, hbare.having]) hbase (fun i hi => ?_) _
    (fun row => ?_) hapart
  · exact Selected.summary st ht hμ (hitems ▸ hi)
  · rw [Evaluator.shown, hitems, Mapping.display, hempty]
    split
    · simp [Request.sources, hbase, hasks.joins]
    · rw [← hcolumns, Selected.flatMap rfl (fun n c σ hn => t.graph.value_column hμ σ [σ] hn) ht.nodes,
        Function.update_self]

/-- **Clauses return the rows that their plan asks for**, if no two of the shown rows are alike. -/
theorem rowsOf_compile_clauses
    (hapart : (Plan.ofClauses cs).distinct = true →
      st.Apart ((st.database.rows table).map (m.display E))) :
    ∃ s, (m.compile (Clause.query E cs)).1 = .ok s ∧ s.graph.rowsOf st.engine st.database s.root =
      ((Plan.ofClauses cs).rows st (st.database.rows table)).map (m.display E) := by
  obtain ⟨s, hrun, hs⟩ := runs_clauses hc hm hcatalog htable hcs le_rfl
  exact rowsOf_compile_piped st htable hs (Clause.source_or_call cs) hrun hapart

end Clauses

/-- **Aggregates over clauses are over the rows that the clauses return**: always the number of all of
them, that of the rows which satisfy a condition as long as there is no page, and the aggregate of a value
as long as repetitions are not dropped. -/
theorem compile_aggregates (m : Mapping) (hm : m.equivalents = []) (hc : m.catalog.validate = .ok ())
    (hstar : ∀ entity ∈ m.catalog.entities, ∀ r ∈ entity.properties, r.column ≠ allColumns) (e : Engine)
    (hperm : ∀ op {vs ws : List Value}, vs.Perm ws → e.summarize op vs = e.summarize op ws) (db : Database)
    {E table : String} (htable : m.catalog.tableName E = .ok table) (cs : List Clause)
    (hcs : ∀ c ∈ cs, c.typed m.catalog E = true)
    (hapart : (Plan.ofClauses cs).distinct = true →
      Store.Apart ⟨m.catalog, e, db⟩ (db.rows table) ∧
        Store.Apart ⟨m.catalog, e, db⟩ ((db.rows table).map (m.display E))) :
    ∃ rows : List Row, rows = (Plan.ofClauses cs).rows ⟨m.catalog, e, db⟩ (db.rows table) ∧
      (∃ s, (m.compile (Clause.query E cs)).1 = .ok s ∧
        s.graph.rowsOf e db s.root = rows.map (m.display E)) ∧
      m.Answers e db (.call .count [Clause.query E cs]) (.int (Int64.ofNat rows.length)) ∧
      ((Plan.ofClauses cs).isPaged = false → ∀ test : Lambda, test.typed m.catalog E = true →
        m.Answers e db (.call .count [Clause.query E cs, test.expr])
            (.int (Int64.ofNat (rows.filter (test.holds ⟨m.catalog, e, db⟩)).length)) ∧
          m.Answers e db (.call .any [Clause.query E cs, test.expr])
            (.boolean !(rows.filter (test.holds ⟨m.catalog, e, db⟩)).isEmpty)) ∧
      ((Plan.ofClauses cs).distinct = false → ∀ (total : Total) (l : Lambda), l.typed m.catalog E = true →
        m.Answers e db (.call total.method [Clause.query E cs, l.expr])
          (e.aggregate total.op (rows.map (l.value ⟨m.catalog, e, db⟩)))) := by
  refine ⟨_, rfl, rowsOf_compile_clauses ⟨m.catalog, e, db⟩ hm rfl hc htable hcs fun h => (hapart h).2,
    answers_count_clauses ⟨m.catalog, e, db⟩ hm rfl hc htable hcs fun h => (hapart h).1,
    fun hpaged test htest => ?_, fun hdistinct total l hl => ?_⟩
  · have hrows := Plan.perm_rows_filter ⟨m.catalog, e, db⟩ hpaged test (db.rows table)
    rw [← hrows.length_eq, ← hrows.isEmpty_eq]
    exact ⟨answers_count_clauses_of ⟨m.catalog, e, db⟩ hm rfl hc htable hcs htest fun h => (hapart h).1,
      answers_any_clauses ⟨m.catalog, e, db⟩ hm rfl hc htable hcs htest fun h => (hapart h).1⟩
  · exact answers_total_clauses ⟨m.catalog, e, db⟩ hm rfl hc htable hcs total hl hstar hperm hdistinct

/-! ### Orders and their totals -/

namespace Orders

def mapping : Mapping where
  catalog := ⟨[⟨"Order", "orders", some "id", [⟨"id", "id", .scalar .int false none⟩,
    ⟨"total", "total", .scalar .int false none⟩]⟩]⟩

def number : Value → Int
  | .int i => i.toInt
  | _ => 0

/-- A server that compares and adds numbers. -/
def engine : Engine where
  same v w := number v == number w
  same_symm {v w} h := by simp_all
  same_trans {u v w} h h' := by simp_all
  operate
    | .greaterThan, v, w => .boolean (number w < number v)
    | _, _, _ => .null
  summarize _ vs := .int (Int64.ofInt (vs.map number).sum)
  precedes v w := number v ≤ number w

lemma summarize_perm (op : UnaryOp) {vs ws : List Value} (h : vs.Perm ws) :
    engine.summarize op vs = engine.summarize op ws :=
  congrArg (fun i => Value.int (Int64.ofInt i)) (h.map number).sum_eq

def order (id total : Int64) : Row := [("id", .int id), ("total", .int total)]

def database : Database where
  rows
    | "orders" => [order 1 1, order 2 5, order 3 5]
    | _ => []

def store : Store := ⟨mapping.catalog, engine, database⟩

def someOrder : Param := ⟨⟨1⟩, "o", .entity "Order"⟩

/-- The total of an order. -/
def total : Lambda := ⟨someOrder, .member ⟨someOrder, [], ⟨"Order", "total", .scalar .int false⟩⟩⟩

/-- Orders with a total above one. -/
def large : Lambda := ⟨someOrder, .compare .greater total.body (.const (.int 1))⟩

/-- The large orders, the largest first. -/
def wanted : List Clause := [.filter large, .order true false total]

end Orders

/-- There are two large orders, and together they amount to ten. -/
theorem compile_aggregates_orders :
    Orders.mapping.catalog.validate = .ok () ∧
    (∀ c ∈ Orders.wanted, c.typed Orders.mapping.catalog "Order" = true) ∧
    Orders.mapping.Answers Orders.engine Orders.database
      (.call .count [Clause.query "Order" Orders.wanted]) (.int 2) ∧
    Orders.mapping.Answers Orders.engine Orders.database
      (.call .any [Clause.query "Order" Orders.wanted, Orders.large.expr]) (.boolean true) ∧
    Orders.mapping.Answers Orders.engine Orders.database
      (.call .sum [Clause.query "Order" Orders.wanted, Orders.total.expr]) (.int 10) := by
  have htyped : ∀ c ∈ Orders.wanted, c.typed Orders.mapping.catalog "Order" = true := by decide +kernel
  obtain ⟨rows, hrows, -, hcount, htest, htotal⟩ := compile_aggregates Orders.mapping rfl rfl (by decide)
    Orders.engine Orders.summarize_perm Orders.database rfl Orders.wanted htyped
    fun h => absurd h (by decide)
  -- the order of the rows plays no part
  have hperm : rows.Perm ((Orders.database.rows "orders").filter
      ((Plan.ofClauses Orders.wanted).passes Orders.store)) :=
    hrows ▸ Plan.perm_rows Orders.store (by decide) _
  have hlength : rows.length = 2 := hperm.length_eq.trans (by decide +kernel)
  have hany : (!(rows.filter (Orders.large.holds Orders.store)).isEmpty) = true := by
    rw [(hperm.filter _).isEmpty_eq]
    decide +kernel
  have hsum : Orders.engine.aggregate .sum (rows.map (Orders.total.value Orders.store)) = .int 10 := by
    rw [Engine.aggregate_perm Orders.summarize_perm .sum (hperm.map _)]
    have hvalues : ((((Orders.database.rows "orders").filter ((Plan.ofClauses Orders.wanted).passes
        Orders.store)).map (Orders.total.value Orders.store)).filter fun v => !v.isNull).isEmpty = false ∧
        Int64.ofInt (((((Orders.database.rows "orders").filter ((Plan.ofClauses Orders.wanted).passes
          Orders.store)).map (Orders.total.value Orders.store)).filter fun v => !v.isNull).map
            Orders.number).sum = 10 := by
      decide +kernel
    simp only [Engine.aggregate, hvalues.1, Bool.false_eq_true, if_false]
    exact congrArg Value.int hvalues.2
  refine ⟨rfl, htyped, ?_, ?_, ?_⟩
  · rw [hlength] at hcount
    exact hcount
  · have hlarge := (htest (by decide) Orders.large (by decide +kernel)).2
    rw [← hany]
    exact hlarge
  · rw [← hsum]
    exact htotal (by decide) .sum Orders.total (by decide +kernel)

/-- A page is cut out after the condition is applied: one of the first two orders is large, and two are
counted. -/
theorem paged_count_above_rows :
    (∃ s, (Orders.mapping.compile (Clause.query "Order" [.take 2])).1 = .ok s ∧
      s.graph.rowsOf Orders.engine Orders.database s.root = [Orders.order 1 1, Orders.order 2 5]) ∧
    ([Orders.order 1 1, Orders.order 2 5].filter (Orders.large.holds Orders.store)).length = 1 ∧
    Orders.mapping.Answers Orders.engine Orders.database
      (.call .count [Clause.query "Order" [.take 2], Orders.large.expr]) (.int 2) := by
  have hcs : ∀ c ∈ [Clause.take 2], c.typed Orders.store.catalog "Order" = true := by decide
  obtain ⟨s, hs, hrows⟩ := rowsOf_compile_clauses Orders.store rfl rfl rfl rfl hcs
    fun h => absurd h (by decide)
  have hcount := answers_count_clauses_of Orders.store rfl rfl rfl rfl hcs
    (show Orders.large.typed Orders.store.catalog "Order" = true by decide +kernel)
    fun h => absurd h (by decide)
  refine ⟨⟨s, hs, ?_⟩, by decide +kernel, ?_⟩
  · refine hrows.trans ?_
    rw [Plan.rows, Plan.found_of_unordered Orders.store rfl]
    rfl
  · have hlength : (((Plan.ofClauses [.take 2]).add (.filter Orders.large)).rows Orders.store
        (Orders.store.database.rows "orders")).length = 2 := by
      rw [Plan.rows, Plan.found_of_unordered Orders.store rfl]
      decide +kernel
    rw [hlength] at hcount
    exact hcount

end EntityQuery
