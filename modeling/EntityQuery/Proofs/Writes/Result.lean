import EntityQuery.Proofs.Writes.Statements

/-!
What updates and deletes write.

* `Piped.compile_marked`: a marked request is accepted, and it writes all rows that pass its tests.
* `written_compile`: an update or delete of picked rows is always accepted, and in every dialect it writes
  the rows that satisfy all conditions. The rows that the query returns are among them; there are no
  others as long as the query asks for no page.
* `paged_delete_above_rows`: a page is not written, and the rows outside of it are deleted as well.
-/

namespace EntityQuery

open Sql Store Compile

variable {st : Store} {m : Mapping} {E table : String} {s : CompileState} {p : Plan}

/-! ### Statements -/

/-- The outermost request becomes a write to its base. -/
def Sql.Graph.asWrite (g : Graph) (kind : RequestKind) (type : TypeRef) : Graph :=
  g.modifyRequest ⟨0⟩ ({ · with kind, target := some ⟨0⟩, projection := some type })

/-- A request that becomes a write is the whole statement, and it writes the rows that pass the tests of
its plan. -/
lemma Piped.compile_marked (hs : Piped st m E table p s) (kind : RequestKind) (hkind : kind.writes = true)
    {method : Method} {args : List Expr} (type : TypeRef)
    (hrun : Runs (visit [] (Expr.call method args).depth (.call method args)) { mapping := m } (.query ⟨0⟩)
      { s with graph := s.graph.asWrite kind type }) :
    ∃ w, (m.compile (.call method args)).1 = .ok w ∧ ∀ d,
      w.graph.written st.engine st.database d w.root = (st.database.rows table).filter (p.passes st) := by
  obtain ⟨g, hg⟩ : ∃ g, g = s.graph.asWrite kind type := ⟨_, rfl⟩
  have hbare := hs.standing.bare
  have hkept : s.graph.Kept [⟨0⟩] [] g := hg ▸ .modifyRequest _ List.mem_cons_self _
  have hrequest : g.request ⟨0⟩ =
      { s.graph.request ⟨0⟩ with kind, target := some ⟨0⟩, projection := some type } :=
    hg ▸ Graph.request_modifyRequest_self _ _ hs.standing.zero_lt
  have hsound : g.Sound [⟨0⟩] := by
    rw [hg, Graph.asWrite]
    refine hs.standing.fits.sound.modifyRequest List.mem_cons_self
      (fun n hn => hs.standing.fits.sound.clause ⟨0⟩ n hn) fun a ha => ?_
    rcases Request.mem_origins.1 ha with ha | ha | ha
    · exact hs.standing.fits.sound.source ⟨0⟩ a (Request.mem_origins.2 (.inl ha))
    · exact hs.standing.fits.sound.source ⟨0⟩ a (Request.mem_origins.2 (.inr (.inl ha)))
    · cases ha
      exact hs.standing.alias_lt
  have hdeclare : Runs (declareColumns (.call method args) ⟨0⟩) { s with graph := g } ()
      { s with graph := g } := by
    refine Runs.bind (runs_request.2 ⟨rfl, rfl⟩) ?_
    dsimp only
    rw [hrequest]
    cases kind with
    | select => cases hkind
    | _ => exact runs_pure.2 ⟨rfl, rfl⟩
  have hparent : (g.request ⟨0⟩).parent = none := by rw [hrequest, hbare.parent]
  rw [← hg] at hrun
  have hroot := runs_root_call hrun hs.standing.active hparent hdeclare
  refine ⟨⟨g, ⟨0⟩, s.hints⟩, ?_, fun d => ?_⟩
  · have hcompile : (root [] (.call method args)).run.run { mapping := m } =
      (.ok ⟨0⟩, { s with graph := g }) := hroot
    rw [Mapping.compile, Mapping.compileWith, hcompile]
    rfl
  · have hasks : Asks st s (g.request ⟨0⟩) p := by
      have h := hs.asks
      rw [hrequest]
      exact ⟨h.joins, h.skip, h.take, h.distinct, h.filter, h.orders⟩
    exact hasks.written_eq hs.standing hs.asks.joins (Graph.ranked_rank hsound.ordered hsound.acyclic)
      hkept (by rw [hrequest, hkind]) (by rw [hrequest]; rfl) d

lemma depth_bindings {values : List (PropertyRef × Formula)} :
    ∀ v ∈ values, v.2.expr.depth ≤ Expr.depthBindings (Write.bindings values) := by
  induction values with
  | nil => simp
  | cons w values ih =>
    intro v hv
    rw [Write.bindings, List.map_cons, Expr.depthBindings]
    rcases List.mem_cons.1 hv with rfl | hv
    · exact le_max_left _ _
    · exact (ih v hv).trans (le_max_right _ _)

section Compile

variable (st) (hc : st.catalog.validate = .ok ()) (hm : m.equivalents = [])
  (hcatalog : m.catalog = st.catalog) (htable : m.catalog.tableName E = .ok table) {ns : List Narrowing}
  (hns : ∀ n ∈ ns, n.typed st.catalog E = true)
include hc hm hcatalog htable hns

/-- A delete takes all rows that pass the tests of its query. -/
lemma written_compile_delete : ∃ w, (m.compile (Write.delete.expr (Narrowing.query E ns))).1 = .ok w ∧
    ∀ d, w.graph.written st.engine st.database d w.root =
      (st.database.rows table).filter ((Narrowing.plan ns).passes st) := by
  obtain ⟨fuel, hfuel, hq⟩ : ∃ fuel, (Write.delete.expr (Narrowing.query E ns)).depth = fuel + 1 ∧
      (Narrowing.query E ns).depth ≤ fuel := ⟨_, rfl, by simp [Expr.depthAll]⟩
  obtain ⟨s, hrun, hs⟩ := runs_narrowings st hc hm hcatalog htable hns hq
  refine hs.compile_marked .delete rfl (Write.delete.expr (Narrowing.query E ns)).type ?_
  change Runs (visit [] (Write.delete.expr (Narrowing.query E ns)).depth _) _ _ _
  rw [hfuel]
  refine Runs.bind (hs.runs_openReceiver hrun) (Runs.bind (runs_request.2 ⟨rfl, rfl⟩) ?_)
  rw [hs.standing.bare.base]
  exact Runs.bind (a := ()) (runs_editRequest.2 rfl) (runs_pure.2 ⟨rfl, rfl⟩)

/-- An update writes to all rows that pass the tests of its query. -/
lemma written_compile_update {param : Param} (entity : String) {values : List (PropertyRef × Formula)}
    (hvalues : ∀ v ∈ values, Write.assignable st.catalog E param v = true) :
    ∃ w, (m.compile ((Write.update param entity values).expr (Narrowing.query E ns))).1 = .ok w ∧
      ∀ d, w.graph.written st.engine st.database d w.root =
        (st.database.rows table).filter ((Narrowing.plan ns).passes st) := by
  obtain ⟨q, hq⟩ : ∃ q, q = (Write.update param entity values).expr (Narrowing.query E ns) := ⟨_, rfl⟩
  obtain ⟨fuel, hfuel, hquery, hdepth⟩ : ∃ fuel, q.depth = fuel + 1 ∧
      (Narrowing.query E ns).depth ≤ fuel ∧ ∀ v ∈ values, v.2.expr.depth ≤ fuel := by
    refine ⟨_, by rw [hq]; rfl, by simp [Expr.depthAll], fun v hv => ?_⟩
    have := depth_bindings v hv
    simp only [Expr.depthAll, Expr.depth]
    omega
  obtain ⟨s, hrun, hs⟩ := runs_narrowings st hc hm hcatalog htable hns hquery
  have hbound := hs.bind param
  obtain ⟨t, hassign, ht⟩ := hbound.runs_assign hc hm hcatalog (mem_params_bind hs.standing.alias_lt) q
    hvalues hdepth
  have hinitializer : Runs (initializer (visit [] fuel) q .update (Narrowing.query E ns)
      [Narrowing.query E ns, .lambda [param] (.init entity (Write.bindings values))])
      { mapping := m } (⟨0⟩, entity, Write.bindings values)
      { s with graph := s.graph.bind ⟨0⟩ param.id } :=
    Runs.bind (hs.runs_openReceiver hrun) (Runs.bind (runs_pure.2 ⟨rfl, rfl⟩)
      (Runs.bind (runs_enter q hs.standing.bare.items hs.standing.bare.base param _)
        (runs_pure.2 ⟨rfl, rfl⟩)))
  refine ht.compile_marked .update rfl q.type ?_
  change Runs (visit [] ((Write.update param entity values).expr (Narrowing.query E ns)).depth
    ((Write.update param entity values).expr (Narrowing.query E ns))) _ _ _
  rw [← hq, hfuel, hq]
  refine Runs.bind (hq ▸ hinitializer) ?_
  dsimp only
  refine Runs.bind (runs_request.2 ⟨rfl, rfl⟩) ?_
  rw [hbound.standing.bare.base]
  exact Runs.bind (a := ()) (hq ▸ hassign)
    (Runs.bind (a := ()) (runs_editRequest.2 rfl) (runs_pure.2 ⟨rfl, rfl⟩))

/-- **Every write is accepted, and it writes the rows that pass all tests of its query.** -/
theorem written_compile_write {w : Write} (hw : w.typed st.catalog E = true) :
    ∃ u, (m.compile (w.expr (Narrowing.query E ns))).1 = .ok u ∧ ∀ d,
      u.graph.written st.engine st.database d u.root =
        (st.database.rows table).filter ((Narrowing.plan ns).passes st) := by
  cases w with
  | delete => exact written_compile_delete st hc hm hcatalog htable hns
  | update param entity values =>
    exact written_compile_update st hc hm hcatalog htable hns entity (List.all_eq_true.1 hw)

end Compile

/-- The rows that a query returns pass its tests. -/
lemma Plan.subperm_rows (st : Store) (p : Plan) (rows : List Row) :
    (p.rows st rows).Subperm (rows.filter (p.passes st)) := by
  have hpage : (p.page (p.found st rows)).Sublist (p.found st rows) := by
    cases htake : p.take with
    | none => simp [Plan.page, htake, List.drop_sublist]
    | some n =>
      simp only [Plan.page, htake]
      exact (List.take_sublist _ _).trans (List.drop_sublist _ _)
  exact hpage.subperm.trans (p.perm_found st rows).subperm

/-- **A write of picked rows writes all rows that pass the tests of its query.** It is always accepted. The
rows that the query returns are among the written ones in every dialect, and they are all of them as long
as the query asks for no page. -/
theorem written_compile (m : Mapping) (hm : m.equivalents = []) (hc : m.catalog.validate = .ok ())
    (e : Engine) (db : Database) {E table : String} (htable : m.catalog.tableName E = .ok table)
    (ns : List Narrowing) (hns : ∀ n ∈ ns, n.typed m.catalog E = true)
    (hapart : (Narrowing.plan ns).distinct = true →
      Store.Apart ⟨m.catalog, e, db⟩ ((db.rows table).map (m.display E))) :
    ∃ rows : List Row,
      (∃ s, (m.compile (Narrowing.query E ns)).1 = .ok s ∧
        s.graph.rowsOf e db s.root = rows.map (m.display E)) ∧
      ∀ w : Write, w.typed m.catalog E = true →
        ∃ s, (m.compile (w.expr (Narrowing.query E ns))).1 = .ok s ∧ ∀ d,
          s.graph.written e db d s.root =
            (db.rows table).filter ((Narrowing.plan ns).passes ⟨m.catalog, e, db⟩) ∧
          rows.Subperm (s.graph.written e db d s.root) ∧
          ((Narrowing.plan ns).isPaged = false → (s.graph.written e db d s.root).Perm rows) := by
  refine ⟨(Narrowing.plan ns).rows ⟨m.catalog, e, db⟩ (db.rows table), ?_, fun w hw => ?_⟩
  · obtain ⟨s, hrun, hs⟩ := runs_narrowings ⟨m.catalog, e, db⟩ hc hm rfl htable hns le_rfl
    exact rowsOf_compile_piped ⟨m.catalog, e, db⟩ htable hs (Narrowing.source_or_call ns) hrun hapart
  · obtain ⟨s, hs, hwritten⟩ :=
      written_compile_write ⟨m.catalog, e, db⟩ hc hm rfl htable hns hw
    refine ⟨s, hs, fun d => ⟨hwritten d, ?_, fun hpaged => ?_⟩⟩
    · rw [hwritten d]
      exact Plan.subperm_rows _ _ _
    · rw [hwritten d]
      exact (Plan.perm_rows _ hpaged _).symm

/-! ### Writes to orders -/

namespace Orders

/-- The large orders, the largest first. -/
def picked : List Narrowing := [.by (.filter large), .by (.order true false total)]

/-- All totals become zero. -/
def reset : Write := .update someOrder "Order" [(⟨"Order", "total", .scalar .int false⟩, .const (.int 0))]

end Orders

/-- An update of the large orders writes to two orders, whatever the dialect. -/
theorem written_compile_reset : Orders.mapping.catalog.validate = .ok () ∧
    Orders.reset.typed Orders.mapping.catalog "Order" = true ∧
    ∃ s, (Orders.mapping.compile (Orders.reset.expr (Narrowing.query "Order" Orders.picked))).1 = .ok s ∧
      ∀ d, s.graph.written Orders.engine Orders.database d s.root =
        [Orders.order 2 5, Orders.order 3 5] := by
  have hns : ∀ n ∈ Orders.picked, n.typed Orders.mapping.catalog "Order" = true := by decide +kernel
  have htyped : Orders.reset.typed Orders.mapping.catalog "Order" = true := by decide +kernel
  obtain ⟨rows, -, hwrites⟩ := written_compile Orders.mapping rfl rfl Orders.engine Orders.database rfl
    Orders.picked hns fun h => absurd h (by decide)
  obtain ⟨s, hs, hwritten⟩ := hwrites Orders.reset htyped
  refine ⟨rfl, htyped, s, hs, fun d => (hwritten d).1.trans ?_⟩
  rfl

/-- A page is not written: the query returns two orders, and the delete takes all three. -/
theorem paged_delete_above_rows :
    (∃ s, (Orders.mapping.compile (Narrowing.query "Order" [.by (.take 2)])).1 = .ok s ∧
      s.graph.rowsOf Orders.engine Orders.database s.root = [Orders.order 1 1, Orders.order 2 5]) ∧
    ∃ s, (Orders.mapping.compile (Write.delete.expr (Narrowing.query "Order" [.by (.take 2)]))).1 = .ok s ∧
      (∀ d, s.graph.written Orders.engine Orders.database d s.root =
        [Orders.order 1 1, Orders.order 2 5, Orders.order 3 5]) ∧
      (s.graph.writeRequest? .postgres s.root).map Written.sql =
        some "DELETE FROM \"orders\" AS \"t0\"" := by
  have hns : ∀ n ∈ [Narrowing.by (.take 2)], n.typed Orders.store.catalog "Order" = true := by decide
  refine ⟨?_, ?_⟩
  · obtain ⟨s, hrun, hs⟩ := runs_narrowings (m := Orders.mapping) Orders.store rfl rfl rfl rfl hns
      le_rfl
    obtain ⟨t, ht, hrows⟩ := rowsOf_compile_piped Orders.store rfl hs (Narrowing.source_or_call _) hrun
      fun h => absurd h (by decide)
    refine ⟨t, ht, hrows.trans ?_⟩
    rw [Plan.rows, Plan.found_of_unordered Orders.store rfl]
    rfl
  · obtain ⟨s, hs, hwritten⟩ := written_compile_delete (m := Orders.mapping) Orders.store rfl rfl
      rfl rfl hns
    have htext : ((Orders.mapping.compile (Write.delete.expr (Narrowing.query "Order"
        [.by (.take 2)]))).1.toOption.bind fun s => (s.graph.writeRequest? .postgres s.root).map Written.sql) =
        some "DELETE FROM \"orders\" AS \"t0\"" := by
      decide +kernel
    rw [hs] at htext
    exact ⟨s, hs, fun d => (hwritten d).trans rfl, htext⟩

end EntityQuery
