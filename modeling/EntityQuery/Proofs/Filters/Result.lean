import EntityQuery.Proofs.Filters.Query

/-!
The rows that a query of filters returns.

* A result shows the mapped columns of every row (`Mapping.Shows`).
* `rowsOf_compile_query`: a query of filters compiles, and it returns the rows that satisfy all of
  them, each of them once and in their order.
-/

namespace EntityQuery

open Sql Store Compile

variable {st : Store} {m : Mapping} {E table : String}

/-! ### Shown columns -/

namespace Mapping

/-- The properties of an entity that a whole row shows. -/
def shownProperties (m : Mapping) (entity : String) : List PropertyRef :=
  match m.catalog.find? entity with
  | some e => (e.properties.map e.ref).filter fun p =>
      m.readsKeyOf p || ((e.properties.filter PropertyMapping.isScalar).map e.ref).any (·.same p)
  | none => []

/-- The columns of an entity that a whole row shows. -/
def shown (m : Mapping) (entity : String) : List String :=
  (m.shownProperties entity).filterMap fun p => (m.catalog.columnName p).toOption

end Mapping

/-- What a row shows under a column; the column of all columns shows the row. -/
def Sql.Row.pick (row : Row) (column : String) : Row :=
  if column = allColumns then row else [(column, row.value column)]

/-- What is shown of a row of an entity. Without columns of its own, nothing of the row is left
out. -/
def Mapping.Shows (m : Mapping) (entity : String) (row out : Row) : Prop :=
  if (m.shown entity).isEmpty then row <+: out else out = (m.shown entity).flatMap row.pick

section Columns

variable {s : CompileState}

lemma find?_of_tableName {c : Catalog} (h : c.tableName E = .ok table) :
    ∃ e, c.find? E = some e ∧ e.name = E := by
  cases he : c.find? E with
  | none => simp [Catalog.tableName, Catalog.entity, he, bind, Except.bind] at h
  | some e => exact ⟨e, rfl, by simpa using List.find?_some he⟩

/-- Every property of an entity has a column. -/
lemma columnName_ref {c : Catalog} {e : EntityMapping} (he : c.find? e.name = some e)
    {p : PropertyMapping} (hp : p ∈ e.properties) : ∃ column, c.columnName (e.ref p) = .ok column := by
  have hsome : (e.property? p.name).isSome := by
    rw [EntityMapping.property?, List.find?_isSome]
    exact ⟨p, hp, by simp⟩
  obtain ⟨q, hq⟩ := Option.isSome_iff_exists.1 hsome
  refine ⟨q.column, ?_⟩
  simp [Catalog.columnName, Catalog.propertyMapping, Catalog.entity, EntityMapping.ref, he, hq, bind,
    Except.bind, pure, Except.pure]

lemma runs_columns {ps : List PropertyRef}
    (hps : ∀ p ∈ ps, ∃ column, s.mapping.catalog.columnName p = .ok column) :
    ∃ columns, Runs (ps.mapM fun p => return (p, ← ask (·.columnName p)) :
        Compile (List (PropertyRef × String))) s columns s ∧
      columns.map Prod.snd = ps.filterMap fun p => (s.mapping.catalog.columnName p).toOption := by
  induction ps with
  | nil => exact ⟨[], runs_pure.2 ⟨rfl, rfl⟩, rfl⟩
  | cons p ps ih =>
    obtain ⟨column, hcolumn⟩ := hps p List.mem_cons_self
    obtain ⟨columns, hrun, hcolumns⟩ := ih fun q hq => hps q (List.mem_cons_of_mem _ hq)
    refine ⟨(p, column) :: columns, ?_, by simp [hcolumn, hcolumns, Except.toOption]⟩
    rw [List.mapM_cons]
    exact Runs.bind (Runs.bind (runs_ask.2 ⟨hcolumn, rfl⟩) (runs_pure.2 ⟨rfl, rfl⟩))
      (Runs.bind hrun (runs_pure.2 ⟨rfl, rfl⟩))

lemma runs_shownColumns (htable : s.mapping.catalog.tableName E = .ok table) :
    ∃ columns, Runs (shownColumns E) s columns s ∧ columns.map Prod.snd = s.mapping.shown E := by
  obtain ⟨e, he, rfl⟩ := find?_of_tableName htable
  have hsimple : s.mapping.catalog.scalarProperties e.name =
      .ok ((e.properties.filter PropertyMapping.isScalar).map e.ref) := by
    simp [Catalog.scalarProperties, Catalog.entity, he, bind, Except.bind, pure, Except.pure]
  have hall : s.mapping.catalog.properties e.name = .ok (e.properties.map e.ref) := by
    simp [Catalog.properties, Catalog.entity, he, bind, Except.bind, pure, Except.pure]
  have hshown : s.mapping.shownProperties e.name = (e.properties.map e.ref).filter fun p =>
      s.mapping.readsKeyOf p ||
        ((e.properties.filter PropertyMapping.isScalar).map e.ref).any (·.same p) := by
    rw [Mapping.shownProperties, he]
  have hcolumn : ∀ p ∈ s.mapping.shownProperties e.name,
      ∃ column, s.mapping.catalog.columnName p = .ok column := by
    intro p hp
    rw [hshown] at hp
    obtain ⟨q, hq, rfl⟩ := List.mem_map.1 (List.mem_filter.1 hp).1
    exact columnName_ref he hq
  obtain ⟨columns, hrun, hcolumns⟩ := runs_columns hcolumn
  refine ⟨columns, ?_, hcolumns⟩
  rw [hshown] at hrun
  exact runs_get_bind.2 (Runs.bind (runs_ask.2 ⟨hsimple, rfl⟩) (Runs.bind (runs_ask.2 ⟨hall, rfl⟩) hrun))

/-- Columns of a source have become selected values of a request. -/
structure Selected (r : RequestId) (a : AliasId) (columns : List (PropertyRef × String))
    (items : List Item) (s t : CompileState) : Prop where
  state : t = { s with graph := t.graph }
  kept : s.graph.Kept [r] [] t.graph
  sound : s.graph.Sound [r] → t.graph.Sound [r]
  request : t.graph.request r =
    { s.graph.request r with items := (s.graph.request r).items ++ items }
  nodes : List.Forall₂ (fun (i : Item) c => t.graph.node i.node = .column a c.2 ∧ i.label = none)
    items columns

lemma runs_selectColumns {r : RequestId} (a : AliasId) (columns : List (PropertyRef × String))
    (newElement : Bool) (hr : r.index < s.graph.requests.size) :
    ∃ t items, Runs (selectColumns r a newElement columns) s () t ∧ Selected r a columns items s t := by
  induction columns generalizing s newElement with
  | nil => exact ⟨s, [], runs_pure.2 ⟨rfl, rfl⟩, rfl, .refl _ _ _, id, by simp, .nil⟩
  | cons c columns ih =>
    let i : Item := { node := ⟨s.graph.entries.size⟩, property := some c.1, newElement }
    obtain ⟨u, hu⟩ : ∃ u : CompileState, u =
      { s with graph := (s.graph.add (.column a c.2)).2.pushItem r i } := ⟨_, rfl⟩
    have hlt : r.index < (s.graph.add (.column a c.2)).2.requests.size := by simpa using hr
    have hkept : s.graph.Kept [r] [] u.graph := by
      rw [hu]
      exact Graph.Kept.trans (.add _ _ s.graph _) (.pushItem _ List.mem_cons_self i)
    obtain ⟨t, items, hrun, ht⟩ := ih false (hr.trans_le hkept.requests)
    refine ⟨t, i :: items, ?_, ?_, hkept.trans ht.kept, fun hs => ht.sound ?_, ?_, .cons ⟨?_, rfl⟩ ht.nodes⟩
    · rw [selectColumns]
      exact Runs.bind (runs_add.2 ⟨rfl, rfl⟩) (Runs.bind (a := ()) (runs_edit.2 hu) hrun)
    · rw [ht.state, hu]
    · rw [hu]
      exact (hs.add (by simp [Node.children]) (by simp)).pushItem List.mem_cons_self (by simp [i])
    · rw [ht.request, hu, Graph.request_pushItem_self _ hlt, Graph.request_add]
      simp
    · have hsize : s.graph.entries.size < u.graph.entries.size := by
        rw [hu, Graph.size_entries_pushItem, Graph.size_entries_add]
        exact Nat.lt_succ_self _
      change t.graph.node ⟨s.graph.entries.size⟩ = _
      have hpush := Graph.Kept.pushItem (C := [r]) (A := []) (s.graph.add (.column a c.2)).2
        List.mem_cons_self i
      rw [ht.kept.node ⟨s.graph.entries.size⟩ hsize, hu, hpush.node _ (by simp), Graph.node_add_self]

/-- What selected columns of a source show. -/
lemma Selected.flatMap {a : AliasId} {columns : List (PropertyRef × String)} {items : List Item}
    {w : Evaluator} {G : Graph} (hw : w.graph = G)
    (hvalue : ∀ n c σ, G.node n = .column a c → (w.term n).value σ [σ] = (σ a).value c)
    (h : List.Forall₂ (fun (i : Item) c => G.node i.node = .column a c.2 ∧ i.label = none)
      items columns) (σ : Env) :
    items.flatMap (w.selected (σ, [σ])) = (columns.map Prod.snd).flatMap (σ a).pick := by
  induction h with
  | nil => rfl
  | cons hi _ ih =>
    obtain ⟨hnode, hlabel⟩ := hi
    rw [List.flatMap_cons, List.map_cons, List.flatMap_cons, ih, Evaluator.selected, hw, hnode]
    dsimp only
    rw [hlabel, hvalue _ _ _ hnode, Row.pick]
    rfl

end Columns

/-! ### Rows -/

section Rows

variable {fs : List (Param × Filter)} {s : CompileState} {G : Graph} {μ : Part → Nat}

/-- The rows that the filters of a request keep. -/
lemma Rooted.filtered_eq (hs : Rooted st m E table fs s) (hkeys : st.Keyed) (hμ : G.Ranked μ)
    (hG : s.graph.Kept [⟨0⟩] [] G) {q : Request} (hbase : q.base = some ⟨0⟩)
    (hjoins : q.joins = (s.graph.request ⟨0⟩).joins) (hfilter : q.filter = (s.graph.request ⟨0⟩).filter)
    (ρ : Env) :
    ∃ place : Row → Env, (G.evaluator st.engine st.database).filtered q ρ =
        ((st.database.rows table).filter (Filter.satisfied st fs)).map place ∧
      ∀ row, place row ⟨0⟩ = row := by
  have hzero : (0 : Nat) < s.graph.aliases.size := hs.fits.place_lt ⟨0⟩
  have hsource : (G.evaluator st.engine st.database).source ρ ⟨0⟩ = st.database.rows table :=
    Graph.source_of_table ((hG.origin hzero).trans hs.origin)
  rcases hs.filter with ⟨hnone, rfl, hempty⟩ | ⟨n, f, hn, hcolumn, htells, hsatisfied, hlands⟩
  · refine ⟨Function.update ρ ⟨0⟩, ?_, fun row => Function.update_self ..⟩
    rw [Evaluator.filtered, hfilter, hnone]
    dsimp only
    rw [Evaluator.joined, hbase]
    dsimp only
    have hall : (st.database.rows table).filter (Filter.satisfied st []) = st.database.rows table :=
      List.filter_eq_self.2 fun _ _ => rfl
    rw [hjoins, hempty, List.foldl_nil, hsource, hall]
  · obtain ⟨refs, hrefs, hrising, href⟩ := hs.fits.joins
    have href' : ∀ j ∈ refs, G.IsReference st.catalog j := fun j hj =>
      (href j hj).1.kept hG
    have hplace : ∀ ρ, st.settle G refs ρ ⟨0⟩ = ρ ⟨0⟩ :=
      Inside.settle_of_lt (fun j hj => (href j hj).2) Nat.zero_lt_one
    have hview : ∀ ρ, View st (.root []) s G (st.settle G refs ρ) := fun ρ =>
      ⟨⟨[], hG⟩, by
        rw [Site.joins, hrefs]
        exact settled_settle hrising href' ρ⟩
    have hholds : ∀ ρ, ((G.evaluator st.engine st.database).term n).holds (st.settle G refs ρ) =
        (f (st.settle G refs ρ) == some true) := by
      intro ρ
      have htruth := htells.truth G μ _ hμ (hview ρ)
      rw [Store.truthAt, (hview ρ).node htells.lt, hcolumn, if_neg Bool.false_ne_true] at htruth
      rw [← htruth]
      rfl
    refine ⟨fun row => st.settle G refs (Function.update ρ ⟨0⟩ row), ?_, fun row => ?_⟩
    · rw [Evaluator.filtered, hfilter, hn]
      dsimp only
      rw [Evaluator.joined, hbase]
      dsimp only
      rw [hjoins, hsource]
      change List.filter _ (List.foldl _ _ ((s.graph.request (Site.root []).request).joins)) = _
      rw [hrefs]
      change List.filter _ (List.foldl _ _ refs) = _
      rw [filter_foldl_partners hμ hkeys hrising href', List.filter_map, List.map_map]
      · congr 2
        funext row
        simp [hholds, hsatisfied, hplace]
      · intro ρ htrue j hj hkind
        rw [hholds, beq_iff_eq] at htrue
        exact hlands G _ (hview ρ) htrue j (by
          change j ∈ (s.graph.request (Site.root []).request).joins
          rw [hrefs]
          exact hj) hkind
    · exact (hplace _).trans (Function.update_self ..)

/-- The columns of the result are the shown columns of the entity. -/
lemma runs_declareColumns (htable : s.mapping.catalog.tableName E = .ok table)
    (hrequest : (s.graph.request ⟨0⟩).kind = .select ∧ (s.graph.request ⟨0⟩).items = [] ∧
      (s.graph.request ⟨0⟩).groups = [] ∧ (s.graph.request ⟨0⟩).base = some ⟨0⟩)
    (hentity : (s.graph.aliasOf ⟨0⟩).entity = some E) (hlt : (0 : Nat) < s.graph.requests.size)
    (e : Expr) :
    ∃ columns t items, Runs (declareColumns e ⟨0⟩) s () t ∧
      columns.map Prod.snd = s.mapping.shown E ∧ Selected ⟨0⟩ ⟨0⟩ columns items s t := by
  obtain ⟨hkind, hitems, hgroups, hbase⟩ := hrequest
  obtain ⟨columns, hrun, hcolumns⟩ := runs_shownColumns htable
  obtain ⟨t, items, hselect, ht⟩ := runs_selectColumns (r := ⟨0⟩) ⟨0⟩ columns true hlt
  refine ⟨columns, t, items, ?_, hcolumns, ht⟩
  refine Runs.bind (runs_request.2 ⟨rfl, rfl⟩) ?_
  rw [hkind, hitems, Request.isGrouped, hgroups, hbase]
  refine Runs.bind (runs_graph.2 ⟨rfl, rfl⟩) ?_
  rw [hentity]
  exact Runs.bind hrun hselect

lemma outermost_of_parent {g : Graph} {r : RequestId} (h : (g.request r).parent = none) :
    g.outermost r = r := by
  rw [Graph.outermost, Graph.enclosing?, Graph.enclosingWithin, if_pos (by rw [h]; rfl)]
  rfl

/-- A statement starts at the request around which there is none. -/
lemma runs_root_call {method : Method} {args : List Expr} {t : CompileState} {r : RequestId}
    {x : Meaning}
    (hrun : Runs (visit [] (Expr.call method args).depth (.call method args)) { mapping := m } x s)
    (hactive : s.active = some r) (hparent : (s.graph.request r).parent = none)
    (hdeclare : Runs (declareColumns (.call method args) r) s () t) :
    Runs (root [] (.call method args)) { mapping := m } r t := by
  refine Runs.bind hrun (Runs.bind (runs_graph.2 ⟨rfl, rfl⟩)
    (Runs.bind (runs_active.2 ⟨hactive, rfl⟩) ?_))
  dsimp only
  rw [outermost_of_parent hparent]
  exact Runs.bind hdeclare (runs_pure.2 ⟨rfl, rfl⟩)

lemma runs_root_source {t : CompileState} {r : RequestId} {x : Meaning}
    (hrun : Runs (visit [] (Expr.source E).depth (.source E)) { mapping := m } x s)
    (hactive : s.active = some r) (hparent : (s.graph.request r).parent = none)
    (hdeclare : Runs (declareColumns (.source E) r) s () t) :
    Runs (root [] (.source E)) { mapping := m } r t := by
  refine Runs.bind hrun (Runs.bind (runs_graph.2 ⟨rfl, rfl⟩)
    (Runs.bind (runs_active.2 ⟨hactive, rfl⟩) ?_))
  dsimp only
  rw [outermost_of_parent hparent]
  exact Runs.bind hdeclare (runs_pure.2 ⟨rfl, rfl⟩)

/-- A query of filters compiles to one request with the shown columns. -/
lemma runs_root (hc : st.catalog.validate = .ok ()) (hkeys : st.Keyed) (hm : m.equivalents = [])
    (hcatalog : m.catalog = st.catalog) (htable : m.catalog.tableName E = .ok table)
    (hfs : ∀ f ∈ fs, f.2.typed st.catalog [(f.1.id, E)]) :
    ∃ s t columns items, Runs (root [] (Filter.query E fs)) { mapping := m } ⟨0⟩ t ∧
      Rooted st m E table fs s ∧ columns.map Prod.snd = m.shown E ∧
      Selected ⟨0⟩ ⟨0⟩ columns items s t := by
  obtain ⟨s, hrun, hs⟩ := runs_query hc hkeys hm hcatalog htable hfs le_rfl
  have hmapping : s.mapping = m := by rw [hs.state]
  have hactive : s.active = some ⟨0⟩ := by rw [hs.state]
  obtain ⟨joins, filter, projection, idColumn, hplain⟩ := hs.request
  obtain ⟨columns, t, items, hdeclare, hcolumns, ht⟩ := runs_declareColumns (hmapping ▸ htable)
    (by rw [hplain]; exact ⟨rfl, rfl, rfl, rfl⟩) hs.entity hs.fits.request_lt (Filter.query E fs)
  rw [hmapping] at hcolumns
  have hparent : (s.graph.request ⟨0⟩).parent = none := by rw [hplain]
  refine ⟨s, t, columns, items, ?_, hs, hcolumns, ht⟩
  cases fs using List.reverseRecOn with
  | nil => exact runs_root_source hrun hactive hparent hdeclare
  | append_singleton fs f =>
    simp only [Filter.query, List.foldl_append] at hrun hdeclare ⊢
    exact runs_root_call hrun hactive hparent hdeclare

section Selected

variable (st) {t : CompileState} {columns : List (PropertyRef × String)} {items : List Item}
  (ht : Selected ⟨0⟩ ⟨0⟩ columns items s t) (hμ : t.graph.Ranked μ)
include ht hμ

/-- Selected columns are no aggregates. -/
lemma Selected.summary {i : Item} (hi : i ∈ items) :
    ((t.graph.evaluator st.engine st.database).term i.node).summary = false := by
  have hall : ∀ i ∈ items, ((t.graph.evaluator st.engine st.database).term i.node).summary = false := by
    refine ((List.forall₂_and_left _ _).1 (ht.nodes.imp fun i c hi => ⟨?_, hi⟩)).1
    rw [t.graph.term_eq hμ, hi.1]
    rfl
  exact hall i hi

/-- What selected columns of an entity show of its rows. -/
lemma Selected.shows (hcolumns : columns.map Prod.snd = m.shown E)
    (hbase : (t.graph.request ⟨0⟩).base = some ⟨0⟩) (σ : Env) :
    m.Shows E (σ ⟨0⟩) (if items.isEmpty then (t.graph.request ⟨0⟩).sources.flatMap σ else
      items.flatMap ((t.graph.evaluator st.engine st.database).selected (σ, [σ]))) := by
  have hempty : items.isEmpty = (m.shown E).isEmpty := by
    rw [← hcolumns, List.isEmpty_map]
    cases ht.nodes <;> rfl
  rw [Mapping.Shows, hempty]
  split
  · simp only [Request.sources, hbase, Option.toList_some, List.singleton_append, List.flatMap_cons]
    exact List.prefix_append _ _
  · rw [← hcolumns, Selected.flatMap rfl (fun n c σ hn => t.graph.value_column hμ σ [σ] hn) ht.nodes]

/-- A plain request shows the rows that its filter keeps. -/
lemma Selected.rowsOf_eq (hcolumns : columns.map Prod.snd = m.shown E)
    (hplain : (s.graph.request ⟨0⟩).Plain) (hitems : (s.graph.request ⟨0⟩).items = [])
    (hbase : (s.graph.request ⟨0⟩).base = some ⟨0⟩) {rows : List Row} {place : Row → Env}
    (hfiltered : (t.graph.evaluator st.engine st.database).filtered (t.graph.request ⟨0⟩)
      (fun _ => []) = rows.map place) (hplace : ∀ row, place row ⟨0⟩ = row) :
    ∃ out : Row → Row, t.graph.rowsOf st.engine st.database ⟨0⟩ = rows.map out ∧
      ∀ row, m.Shows E row (out row) := by
  have hrequest := ht.request
  rw [hitems, List.nil_append] at hrequest
  have hbase' : (t.graph.request ⟨0⟩).base = some ⟨0⟩ := by rw [hrequest, hbase]
  have hitems' : (t.graph.request ⟨0⟩).items = items := by rw [hrequest]
  have hplain' : (t.graph.request ⟨0⟩).Plain := by
    rw [hrequest]
    exact ⟨hplain.kind, hplain.groups, hplain.having, hplain.orders, hplain.skip, hplain.take,
      hplain.distinct⟩
  refine ⟨fun row => if items.isEmpty then (t.graph.request ⟨0⟩).sources.flatMap (place row) else
    items.flatMap ((t.graph.evaluator st.engine st.database).selected (place row, [place row])),
    ?_, fun row => ?_⟩
  · rw [Graph.rowsOf, t.graph.query_eq hμ, Evaluator.request_of_plain _ hplain', hfiltered,
      List.map_map, hitems']
    · rfl
    · intro i hi
      exact Selected.summary st ht hμ (hitems' ▸ hi)
  · have := Selected.shows st ht hμ hcolumns hbase' (place row)
    rwa [hplace] at this

end Selected

/-- The request shows the rows that satisfy the filters. -/
lemma Rooted.rowsOf_eq (hs : Rooted st m E table fs s) (hkeys : st.Keyed) {t : CompileState}
    {columns : List (PropertyRef × String)} {items : List Item}
    (ht : Selected ⟨0⟩ ⟨0⟩ columns items s t) (hcolumns : columns.map Prod.snd = m.shown E) :
    ∃ out : Row → Row, t.graph.rowsOf st.engine st.database ⟨0⟩ =
        ((st.database.rows table).filter (Filter.satisfied st fs)).map out ∧
      ∀ row, m.Shows E row (out row) := by
  have hsound := ht.sound hs.fits.sound
  have hμ := Graph.ranked_rank hsound.ordered hsound.acyclic
  obtain ⟨joins, filter, projection, idColumn, hplain⟩ := hs.request
  have hrequest := ht.request
  rw [hplain, List.nil_append] at hrequest
  obtain ⟨place, hfiltered, hplace⟩ := hs.filtered_eq hkeys hμ ht.kept (q := t.graph.request ⟨0⟩)
    (by rw [hrequest]) (by rw [hrequest, hplain]) (by rw [hrequest, hplain]) fun _ => []
  refine Selected.rowsOf_eq st ht hμ hcolumns ?_ (by rw [hplain]) (by rw [hplain]) hfiltered hplace
  rw [hplain]
  exact ⟨rfl, rfl, rfl, rfl, rfl, rfl, rfl⟩

end Rows

/-! ### Results -/

/-- **A query of filters compiles, and it returns the rows that satisfy all of them, each of them once
and in their order.** -/
theorem rowsOf_compile_query (m : Mapping) (hm : m.equivalents = [])
    (hc : m.catalog.validate = .ok ()) (e : Engine) (db : Database)
    (hkeys : Store.Keyed ⟨m.catalog, e, db⟩) {E table : String}
    (htable : m.catalog.tableName E = .ok table) (fs : List (Param × Filter))
    (hfs : ∀ f ∈ fs, f.2.typed m.catalog [(f.1.id, E)]) :
    ∃ s, (m.compile (Filter.query E fs)).1 = .ok s ∧ ∃ out : Row → Row,
      s.graph.rowsOf e db s.root =
        ((db.rows table).filter (Filter.satisfied ⟨m.catalog, e, db⟩ fs)).map out ∧
      ∀ row, m.Shows E row (out row) := by
  obtain ⟨s, t, columns, items, hrun, hs, hcolumns, ht⟩ :=
    runs_root hc hkeys hm rfl htable hfs
  refine ⟨⟨t.graph, ⟨0⟩, t.hints⟩, ?_, ?_⟩
  · have hcompile : (root [] (Filter.query E fs)).run.run { mapping := m } = (.ok ⟨0⟩, t) := hrun
    rw [Mapping.compile, Mapping.compileWith, hcompile]
    rfl
  · exact hs.rowsOf_eq hkeys ht hcolumns

/-! ### People and their teams -/

namespace People

/-- People have a boss and are members of teams. -/
def mapping : Mapping where
  catalog := ⟨[⟨"Person", "person", some "id", [⟨"id", "id", .scalar .int false none⟩,
      ⟨"name", "name", .scalar .string false none⟩, ⟨"boss", "boss_id", .reference "Person"⟩,
      ⟨"teams", "teams", .manyToMany "Team" "member" "person_id" "team_id"⟩]⟩,
    ⟨"Team", "team", some "id", [⟨"id", "id", .scalar .int false none⟩,
      ⟨"name", "name", .scalar .string false none⟩]⟩]⟩

/-- A server that compares numbers and texts. -/
def engine : Engine where
  same
    | .int i, .int j => i == j
    | .string s, .string t => s == t
    | _, _ => false
  same_symm {v w} h := by cases v <;> cases w <;> simp_all
  same_trans {u v w} h h' := by
    cases u <;> cases v <;> first
      | exact absurd h Bool.false_ne_true
      | cases w <;> first | exact absurd h' Bool.false_ne_true | simp_all
  operate _ _ _ := .null
  summarize _ _ := .null
  precedes _ _ := true

def person (id : Int64) (name : String) (boss : Value) : Row :=
  [("id", .int id), ("name", .string name), ("boss_id", boss)]

def team (id : Int64) (name : String) : Row := [("id", .int id), ("name", .string name)]

def member (person team : Int64) : Row := [("person_id", .int person), ("team_id", .int team)]

/-- Ann has no boss, and she is twice in the same team. -/
def database : Database where
  rows
    | "person" => [person 1 "Ann" .null, person 2 "Bob" (.int 1), person 3 "Cid" (.int 2)]
    | "team" => [team 1 "Bob", team 2 "Tigers"]
    | "member" => [member 1 2, member 1 2, member 3 1, member 3 2]
    | _ => []

def store : Store := ⟨mapping.catalog, engine, database⟩

/-- People whose boss is Ann or who are in a team that is not named after their boss, and whose name
is one of two. -/
def wanted : List (Param × Filter) :=
  let p : Param := ⟨⟨1⟩, "p", .entity "Person"⟩
  let t : Param := ⟨⟨2⟩, "t", .entity "Team"⟩
  let q : Param := ⟨⟨3⟩, "q", .entity "Person"⟩
  let name : PropertyRef := ⟨"Person", "name", .scalar .string false⟩
  let bossName : Operand := .member ⟨p, [⟨"Person", "boss", .entity "Person"⟩], name⟩
  [(p, .or (.compare .equal bossName (.const (.string "Ann")))
      (.any ⟨p, [], ⟨"Person", "teams", .collection (.entity "Team")⟩⟩ t
        (.compare .notEqual (.member ⟨t, [], ⟨"Team", "name", .scalar .string false⟩⟩) bossName))),
    (q, .among [.string "Ann", .string "Cid"] (.member ⟨q, [], name⟩))]

lemma keyed : store.Keyed := by
  intro entity table key htable hkey
  by_cases hperson : entity = "Person"
  · subst hperson
    cases htable
    cases hkey
    decide +kernel
  by_cases hteam : entity = "Team"
  · subst hteam
    cases htable
    cases hkey
    decide +kernel
  · have hfind : store.catalog.find? entity = none := by
      simp [store, mapping, Catalog.find?, Ne.symm hperson, Ne.symm hteam]
    simp [Catalog.tableName, Catalog.entity, hfind, bind, Except.bind] at htable

end People

/-- Ann is left out, since nothing is known about a missing boss; Cid is found once. -/
theorem rowsOf_compile_query_people :
    People.mapping.catalog.validate = .ok () ∧ People.store.Keyed ∧
    (∀ f ∈ People.wanted, f.2.typed People.mapping.catalog [(f.1.id, "Person")]) ∧
    ∃ s, (People.mapping.compile (Filter.query "Person" People.wanted)).1 = .ok s ∧
      s.graph.rowsOf People.engine People.database s.root =
        [[("id", .int 3), ("name", .string "Cid")]] := by
  have htyped : ∀ f ∈ People.wanted, f.2.typed People.mapping.catalog [(f.1.id, "Person")] := by
    decide +kernel
  obtain ⟨s, hs, out, hrows, hout⟩ := rowsOf_compile_query People.mapping rfl rfl People.engine
    People.database People.keyed rfl People.wanted htyped
  refine ⟨rfl, People.keyed, htyped, s, hs, ?_⟩
  rw [hrows]
  exact congrArg (fun row => [row]) (hout (People.person 3 "Cid" (.int 2)))

end EntityQuery
