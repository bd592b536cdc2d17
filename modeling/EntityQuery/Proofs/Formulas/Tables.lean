import EntityQuery.Proofs.Filters.Result
import EntityQuery.Proofs.Formulas.Values

/-!
Requests over the table of an entity.

* `Standing`: the outermost request ranges over the rows of an entity and selects nothing yet. A
  formula is compiled there as a value or as a condition (`runs_selector`, `runs_predicate`), and
  clauses may be changed (`modify`).
* `Standing.compile_eq`: such a request compiles to a statement that shows the columns of the entity.
  `Standing.joined_eq`: the rows that stay in its joins.
* `rowsOf_compile_formula`: such a query returns the rows of which the formula is true and from which
  the references that are followed only outside of disjunctions lead to rows.
* A formula that is true of a missing value need not be true of any row that is returned.
-/

namespace EntityQuery

open Sql Store Compile

variable {st : Store} {m : Mapping} {E table : String}

/-! ### Requests that select nothing yet -/

/-- A request over its base that selects nothing yet. -/
structure Sql.Request.Bare (q : Request) : Prop where
  kind : q.kind = .select
  base : q.base = some ⟨0⟩
  target : q.target = none
  items : q.items = []
  groups : q.groups = []
  having : q.having = none
  parent : q.parent = none

/-- The outermost request is over the rows of an entity. -/
structure Standing (st : Store) (m : Mapping) (E table : String) (s : CompileState) : Prop where
  state : s = { mapping := m, graph := s.graph, active := some ⟨0⟩ }
  fits : (Site.root []).Fits st.catalog s.graph
  origin : (s.graph.aliasOf ⟨0⟩).origin = .table table
  entity : (s.graph.aliasOf ⟨0⟩).entity = some E
  bare : (s.graph.request ⟨0⟩).Bare

lemma Rooted.standing {fs : List (Param × Filter)} {s : CompileState} (hs : Rooted st m E table fs s) :
    Standing st m E table s := by
  obtain ⟨joins, filter, projection, idColumn, hrequest⟩ := hs.request
  refine ⟨hs.state, hs.fits, hs.origin, hs.entity, ?_⟩
  rw [hrequest]
  exact ⟨rfl, rfl, rfl, rfl, rfl, rfl, rfl⟩

lemma Site.Fits.unscoped {c : Catalog} {Γ : Scope} {g : Graph} (h : (Site.root Γ).Fits c g) :
    (Site.root []).Fits c g :=
  ⟨h.sound, h.opened, h.fresh, h.place, by simp [Site.root], h.links, h.joins⟩

/-- What a node carries it carries later, as long as the joins are the same. -/
lemma Carries.later {S T : Site} {s t : CompileState} {n : NodeId} {null column : Bool}
    {f : Env → Value} {A : List AliasId} (hn : Carries st S s n null column f)
    (hopened : T.opened = S.opened) (hkept : s.graph.Kept S.opened A t.graph)
    (hjoins : T.joins t = S.joins s) : Carries st T t n null column f where
  lt := hn.lt.trans_le hkept.entries
  isNull := by rw [hkept.node n hn.lt, hn.isNull]
  isColumn := by rw [hkept.node n hn.lt, hn.isColumn]
  value G μ ρ hμ hv := hn.value G μ ρ hμ (hv.earlier hopened hkept hjoins)
  plain G μ ρ hμ hv := hn.plain G μ ρ hμ (hv.earlier hopened hkept hjoins)

namespace Standing

variable {s t : CompileState} {x : Param} {f : Formula}

lemma zero_lt (hs : Standing st m E table s) : (0 : Nat) < s.graph.requests.size :=
  hs.fits.request_lt

lemma active (hs : Standing st m E table s) : s.active = some ⟨0⟩ := by rw [hs.state]

lemma alias_lt (hs : Standing st m E table s) : (0 : Nat) < s.graph.aliases.size :=
  hs.fits.place_lt ⟨0⟩

/-- A parameter that is bound to the base stands for the rows of the entity. -/
lemma ready_of_mem (hs : Standing st m E table s) (hm : m.equivalents = [])
    (hcatalog : m.catalog = st.catalog) (hx : x.id ∈ (s.graph.aliasOf ⟨0⟩).params) :
    Ready st (.root [(x.id, E)]) s := by
  refine ⟨?_, ?_, ?_, ?_, ?_, fits_root_of_mem hs.fits hs.bare.base hx⟩ <;> rw [hs.state]
  · rfl
  · exact hm
  · exact hcatalog

/-- A new parameter leaves the request as it is. -/
lemma bind (hs : Standing st m E table s) (x : Param) :
    Standing st m E table { s with graph := s.graph.bind ⟨0⟩ x.id } := by
  have hkept : s.graph.Kept [⟨0⟩] [⟨0⟩] (s.graph.bind ⟨0⟩ x.id) := .bind _ List.mem_cons_self x.id
  refine ⟨?_, hs.fits.bind x.id, (hkept.origin hs.alias_lt).trans hs.origin,
    (congrArg Alias.entity (hkept.bare ⟨0⟩ hs.alias_lt)).trans hs.entity, ?_⟩
  · rw [hs.state]
  · rw [Graph.request_bind]
    exact hs.bare

/-- A parameter stands for the rows of the entity. -/
lemma ready (hs : Standing st m E table s) (hm : m.equivalents = [])
    (hcatalog : m.catalog = st.catalog) (x : Param) :
    Ready st (.root [(x.id, E)]) { s with graph := s.graph.bind ⟨0⟩ x.id } :=
  (hs.bind x).ready_of_mem hm hcatalog (mem_params_bind hs.alias_lt)

/-- A formula is compiled at the request. -/
lemma step (hs : Standing st m E table s) {Γ : Scope} (hstep : Step st (.root Γ) s t) :
    Standing st m E table t := by
  have hkept := hstep.grown.kept
  have hbare := hs.bare
  have hframe : t.graph.request ⟨0⟩ =
      { s.graph.request ⟨0⟩ with joins := (t.graph.request ⟨0⟩).joins } := hstep.grown.frame
  refine ⟨?_, hstep.fits.unscoped, (hkept.origin hs.alias_lt).trans hs.origin,
    (congrArg Alias.entity (hkept.bare ⟨0⟩ hs.alias_lt)).trans hs.entity, ?_⟩
  · rw [hstep.state, hs.state]
  · rw [hframe]
    exact ⟨hbare.kind, hbare.base, hbare.target, hbare.items, hbare.groups, hbare.having, hbare.parent⟩

lemma of_step (hs : Standing st m E table s)
    (hstep : Step st (.root [(x.id, E)]) { s with graph := s.graph.bind ⟨0⟩ x.id } t) :
    Standing st m E table t := (hs.bind x).step hstep

/-- A node becomes part of the request. -/
lemma attach (hs : Standing st m E table s) (n : NodeId) :
    Standing st m E table { s with graph := s.graph.attach ⟨0⟩ n } := by
  refine ⟨?_, hs.fits.of_kept (.attach _ _ s.graph ⟨0⟩ n) (hs.fits.sound.attach ⟨0⟩ n) rfl, hs.origin,
    hs.entity, hs.bare⟩
  rw [hs.state]

/-- A clause of the request changes, over nodes that are there. -/
lemma modify (hs : Standing st m E table s) (change : Request → Request)
    (hbare : (change (s.graph.request ⟨0⟩)).Bare)
    (hjoins : (change (s.graph.request ⟨0⟩)).joins = (s.graph.request ⟨0⟩).joins)
    (hclause : ∀ k ∈ (change (s.graph.request ⟨0⟩)).clauseNodes, k.index < s.graph.entries.size) :
    Standing st m E table { s with graph := s.graph.modifyRequest ⟨0⟩ change } := by
  have hkept : s.graph.Kept [⟨0⟩] [] (s.graph.modifyRequest ⟨0⟩ change) :=
    .modifyRequest _ List.mem_cons_self change
  have hrequest : (s.graph.modifyRequest ⟨0⟩ change).request ⟨0⟩ = change (s.graph.request ⟨0⟩) :=
    Graph.request_modifyRequest_self _ _ hs.zero_lt
  obtain ⟨refs, hrefs, hrising, href⟩ := hs.fits.joins
  have hsound : (s.graph.modifyRequest ⟨0⟩ change).Sound [⟨0⟩] := by
    refine hs.fits.sound.modifyRequest List.mem_cons_self hclause fun a ha => ?_
    refine hs.fits.sound.source ⟨0⟩ a ?_
    change a ∈ (change (s.graph.request ⟨0⟩)).origins at ha
    rw [Request.mem_origins, hjoins, hbare.base, hbare.target] at ha
    rwa [Request.mem_origins, hs.bare.base, hs.bare.target]
  refine ⟨?_, ⟨hsound, ?_, hs.fits.fresh, hs.fits.place, by simp [Site.root], by simp [Site.root],
    refs, ?_, hrising, fun j hj => ⟨?_, (href j hj).2⟩⟩, hs.origin, hs.entity, ?_⟩
  · rw [hs.state]
  · intro q hq
    rw [Graph.size_requests_modifyRequest]
    exact hs.fits.opened q hq
  · exact (congrArg Request.joins hrequest).trans (hjoins.trans hrefs)
  · exact (href j hj).1.kept hkept
  · rw [hrequest]
    exact hbare

/-- The request gets a condition. -/
lemma setFilter (hs : Standing st m E table s) {n : NodeId} (hn : n.index < s.graph.entries.size) :
    Standing st m E table { s with graph := s.graph.setFilter ⟨0⟩ n } := by
  have hbare := hs.bare
  refine (hs.attach n).modify (fun q => { q with filter := some n }) ?_ rfl fun k hk => ?_
  · exact ⟨hbare.kind, hbare.base, hbare.target, hbare.items, hbare.groups, hbare.having, hbare.parent⟩
  · rw [Graph.size_entries_attach]
    rcases Request.mem_clauseNodes_setFilter hk with hk | rfl
    · exact hs.fits.sound.clause ⟨0⟩ k hk
    · exact hn

/-- Parameters play no part in the joins. -/
lemma charted_bind {log : List Navigation} (h : ChartedAt st s log) (x : ParamId) :
    ChartedAt st { s with graph := s.graph.bind ⟨0⟩ x } log :=
  h.congr rfl fun _ _ => Alias.route_eq_of_bare (Graph.bare_bind _ _ _ _)

/-- The request is the one that is built. -/
lemma runs_within (hs : Standing st m E table s) {α : Type} {x : Compile α} {a : α} {t : CompileState}
    (ht : t.active = some ⟨0⟩) (hrun : Runs x s a t) : Runs (within ⟨0⟩ x) s a t := by
  have hactive : { s with active := some ⟨0⟩ } = s := by rw [hs.state]
  refine Compile.runs_within.2 ⟨t, hactive.symm ▸ hrun, ?_⟩
  rw [hs.active, ← ht]

section Formulas

variable (hc : st.catalog.validate = .ok ()) (hm : m.equivalents = []) (hcatalog : m.catalog = st.catalog)
  (hs : Standing st m E table s) (hf : f.typed st.catalog [(x.id, E)])
include hc hm hcatalog hs hf

/-- A formula over the row of the request, as a value. -/
lemma runs_selector {fuel : Nat} (hfuel : f.expr.depth ≤ fuel) (e : Expr) :
    ∃ n t, Runs (enter e ⟨0⟩ (.lambda [x] f.expr)) s f.expr
        { s with graph := s.graph.bind ⟨0⟩ x.id } ∧
      Runs (value (visit [] fuel) f.expr) { s with graph := s.graph.bind ⟨0⟩ x.id } n t ∧
      Compiled st [(x.id, E)] { s with graph := s.graph.bind ⟨0⟩ x.id } t n f ∧
      ∀ a c, t.graph.node n = .column a c → ∃ q, st.catalog.columnName q = .ok c := by
  have hready := hs.ready hm hcatalog x
  obtain ⟨n, t, hrun, hn⟩ := compiles_formula hc hf _ fuel hready hfuel
  exact ⟨n, t, runs_enter e hs.bare.items hs.bare.base x f.expr, hn.runs_value hready hrun, hn,
    fun a c hcolumn => columnName_of_runs hc hf hready hfuel hrun hcolumn⟩

/-- A formula over the row of the request, as a condition. -/
lemma runs_predicate {fuel : Nat} (hfuel : f.expr.depth ≤ fuel) (e : Expr) :
    ∃ n t null g, Runs (predicate (visit [] fuel) e ⟨0⟩ (.lambda [x] f.expr)) s n t ∧
      Step st (.root [(x.id, E)]) { s with graph := s.graph.bind ⟨0⟩ x.id } t ∧
      Carries st (.root [(x.id, E)]) t n null false g ∧
      (∀ ρ, truthOf (g ρ) = f.truth st fun _ => ρ ⟨0⟩) ∧
      ∀ log, ChartedAt st s log → ChartedAt st t (log ++ f.reads s.widen) := by
  obtain ⟨n, t, k, u, null, g, hrun, hcond, hstep, hk, htruth, hcharted⟩ :=
    runs_truth (compiles_formula hc hf) fuel (hs.ready hm hcatalog x) hfuel
  refine ⟨k, u, null, g, ?_, hstep, hk, htruth, fun log h => hcharted log ?_⟩
  · exact Runs.bind (runs_enter e hs.bare.items hs.bare.base x f.expr) (Runs.bind hrun hcond)
  · exact charted_bind h x.id

end Formulas

/-- The request compiles to a statement that shows the columns of the entity. -/
lemma compile_eq (hs : Standing st m E table s) (htable : m.catalog.tableName E = .ok table) {e : Expr}
    (he : (∃ entity, e = .source entity) ∨ ∃ method args, e = .call method args)
    (hrun : Runs (visit [] e.depth e) { mapping := m } (.query ⟨0⟩) s) :
    ∃ t columns items, (m.compile e).1 = .ok ⟨t.graph, ⟨0⟩, t.hints⟩ ∧
      columns.map Prod.snd = m.shown E ∧ Selected ⟨0⟩ ⟨0⟩ columns items s t := by
  have hbare := hs.bare
  have hmapping : s.mapping = m := by rw [hs.state]
  obtain ⟨columns, t, items, hdeclare, hcolumns, ht⟩ := runs_declareColumns (hmapping ▸ htable)
    ⟨hbare.kind, hbare.items, hbare.groups, hbare.base⟩ hs.entity hs.zero_lt e
  rw [hmapping] at hcolumns
  have hroot : Runs (root [] e) { mapping := m } ⟨0⟩ t := by
    obtain ⟨entity, rfl⟩ | ⟨method, args, rfl⟩ := he
    · exact runs_root_source hrun hs.active hbare.parent hdeclare
    · exact runs_root_call hrun hs.active hbare.parent hdeclare
  refine ⟨t, columns, items, ?_, hcolumns, ht⟩
  have hcompile : (root [] e).run.run { mapping := m } = (.ok ⟨0⟩, t) := hroot
  rw [Mapping.compile, Mapping.compileWith, hcompile]
  rfl

/-- **The rows of a table that stay in the joins** are those from which the chains that are followed only
outside of disjunctions lead to rows. Each of them stays once, with the rows that it refers to. -/
theorem joined_eq {log : List Navigation} (hs : Standing st m E table s) (hcharted : ChartedAt st s log)
    (hkeys : st.Keyed) {G : Graph} {μ : Part → Nat} (hμ : G.Ranked μ) (hG : s.graph.Kept [⟨0⟩] [] G)
    {q : Request} (hbase : q.base = some ⟨0⟩) (hjoins : q.joins = (s.graph.request ⟨0⟩).joins) (ρ : Env) :
    ∃ place : Row → Env, (G.evaluator st.engine st.database).joined q ρ =
        ((st.database.rows table).filter (Navigation.anchors st log log)).map place ∧
      (∀ row, place row ⟨0⟩ = row) ∧ ∀ row, View st (.root []) s G (place row) := by
  obtain ⟨refs, hrefs, hrising, href⟩ := hs.fits.joins
  change (s.graph.request ⟨0⟩).joins = refs at hrefs
  have hlt : ∀ j ∈ refs, j.source.index < s.graph.aliases.size :=
    fun j hj => hs.fits.sound.source_lt (r := ⟨0⟩) (hrefs ▸ hj)
  have href' : ∀ j ∈ refs, G.IsReference st.catalog j := fun j hj =>
    (href j hj).1.kept hG
  have hsource : (G.evaluator st.engine st.database).source ρ ⟨0⟩ = st.database.rows table :=
    Graph.source_of_table ((hG.origin hs.alias_lt).trans hs.origin)
  have hplace : ∀ ρ, st.settle G refs ρ ⟨0⟩ = ρ ⟨0⟩ :=
    Inside.settle_of_lt (fun j hj => (href j hj).2) Nat.zero_lt_one
  have hkeeps : ∀ ρ, st.keeps G refs ρ = Navigation.anchors st log log (ρ ⟨0⟩) := by
    obtain ⟨chart, hchart⟩ := hcharted
    rw [hrefs] at hchart
    have hchart' : Charts st.catalog G refs chart log :=
      hchart.congr (fun j hj => hG.route (hlt j hj)) (fun _ _ => Iff.rfl) fun _ _ => Iff.rfl
    exact hchart'.keeps_eq hkeys hrising href' fun j hj => (href j hj).2
  refine ⟨fun row => st.settle G refs (Function.update ρ ⟨0⟩ row), ?_, fun row => ?_, fun row => ?_⟩
  · rw [Evaluator.joined, hbase]
    dsimp only
    rw [hjoins, hsource, hrefs, foldl_partners hμ hkeys href', List.filter_map, List.map_map]
    congr 2
    funext row
    simp [hkeeps]
  · exact (hplace _).trans (Function.update_self ..)
  · refine ⟨⟨[], hG⟩, ?_⟩
    change st.Settled G (((s.graph.request ⟨0⟩).joins).map Join.source) _
    rw [hrefs]
    exact settled_settle hrising href' _

end Standing

end EntityQuery

namespace EntityQuery

open Sql Store Compile

variable {st : Store} {m : Mapping} {E table : String}

/-! ### Rows of which a formula is true -/

section Formulas

variable {s t : CompileState} {x : Param} {f : Formula}

/-- A request over the rows of which a formula is true. -/
structure Sifted (st : Store) (m : Mapping) (E table : String) (f : Formula) (s : CompileState) :
    Prop where
  standing : Standing st m E table s
  plain : (s.graph.request ⟨0⟩).Plain
  filter : ∃ n null g, (s.graph.request ⟨0⟩).filter = some n ∧
    Carries st (.root []) s n null false g ∧ ∀ ρ, truthOf (g ρ) = f.truth st fun _ => ρ ⟨0⟩
  charted : ChartedAt st s (f.reads false)

/-- A query with a formula is a request over the rows of which the formula is true. -/
lemma runs_sifted (st : Store) (hc : st.catalog.validate = .ok ()) (hm : m.equivalents = [])
    (hcatalog : m.catalog = st.catalog) (htable : m.catalog.tableName E = .ok table)
    (hf : f.typed st.catalog [(x.id, E)]) :
    ∃ s, Runs (visit [] (f.query E x).depth (f.query E x)) { mapping := m } (.query ⟨0⟩) s ∧
      Sifted st m E table f s := by
  obtain ⟨fuel, hfuel⟩ : ∃ fuel, (f.query E x).depth = fuel + 1 := fuel_succ le_rfl
  have hbound : 1 ≤ fuel ∧ f.expr.depth ≤ fuel := by
    simp only [Formula.query, Expr.depth, Expr.depthAll] at hfuel
    omega
  obtain ⟨fuel', rfl⟩ : ∃ k, fuel = k + 1 := ⟨fuel - 1, by omega⟩
  obtain ⟨s, hsource, hrequest, hrooted⟩ :
      ∃ s, Runs (visit [] (fuel' + 1) (.source E)) { mapping := m } (.query ⟨0⟩) s ∧ _ ∧
        Rooted st m E table [] s := runs_source htable fuel'
  have hs := hrooted.standing
  have hnone : (s.graph.request ⟨0⟩).filter = none := by rw [hrequest]
  have hwiden : s.widen = false := by rw [hs.state]
  have hactive : { s with active := some ⟨0⟩ } = s := by rw [hs.state]
  obtain ⟨n, t, null, g, hpredicate, hstep, hn, htruth, hcharted⟩ :=
    hs.runs_predicate hc hm hcatalog hf hbound.2 (f.query E x)
  have ht := hs.of_step hstep
  have hframe : t.graph.request ⟨0⟩ =
      { s.graph.request ⟨0⟩ with joins := (t.graph.request ⟨0⟩).joins } := Rooted.frame hstep
  have hnone' : (t.graph.request ⟨0⟩).filter = none := by rw [hframe, hnone]
  have hfiltered : (t.graph.setFilter ⟨0⟩ n).request ⟨0⟩ =
      { t.graph.request ⟨0⟩ with filter := some n } := t.graph.request_setFilter_self n ht.zero_lt
  have hkept : t.graph.Kept [⟨0⟩] [] (t.graph.setFilter ⟨0⟩ n) := .setFilter _ List.mem_cons_self n
  have hjoins : ((t.graph.setFilter ⟨0⟩ n).request ⟨0⟩).joins = (t.graph.request ⟨0⟩).joins := by
    rw [hfiltered]
  refine ⟨{ t with graph := t.graph.setFilter ⟨0⟩ n }, ?_, ?_, ?_, ⟨n, null, g, ?_, ?_, htruth⟩, ?_⟩
  · rw [hfuel, visit_succ]
    have hreceiver : Runs (openReceiver (visit [] (fuel' + 1)) (f.query E x) (.source E))
        { mapping := m } ⟨0⟩ s :=
      Runs.bind (Runs.bind hsource (runs_pure.2 ⟨rfl, rfl⟩))
        (Runs.bind (a := ()) (runs_setActive.2 hactive.symm) (runs_pure.2 ⟨rfl, rfl⟩))
    have hrestrict : Runs (restrict ⟨0⟩ n) t () { t with graph := t.graph.setFilter ⟨0⟩ n } := by
      rw [← Graph.andFilter_of_none _ n hnone']
      exact runs_restrict ht.bare.groups n
    exact Runs.bind hreceiver (Runs.bind (runs_pure.2 ⟨rfl, rfl⟩) (Runs.bind hpredicate
      (Runs.bind hrestrict (runs_pure.2 ⟨rfl, rfl⟩))))
  · exact ht.setFilter hn.lt
  · change ((t.graph.setFilter ⟨0⟩ n).request ⟨0⟩).Plain
    rw [hfiltered, hframe, hrequest]
    exact ⟨rfl, rfl, rfl, rfl, rfl, rfl, rfl⟩
  · exact congrArg Request.filter hfiltered
  · exact hn.later rfl hkept hjoins
  · have hlog := hcharted [] (charted_nil (by rw [hrequest]))
    rw [List.nil_append, hwiden] at hlog
    exact hlog.congr hjoins fun _ _ => rfl

/-- The rows of a table that stay in the joins and of which the formula is true. -/
lemma Sifted.filtered_eq (hs : Sifted st m E table f s) (hkeys : st.Keyed) {G : Graph}
    {μ : Part → Nat} (hμ : G.Ranked μ) (hG : s.graph.Kept [⟨0⟩] [] G) {q : Request}
    (hbase : q.base = some ⟨0⟩) (hjoins : q.joins = (s.graph.request ⟨0⟩).joins)
    (hfilter : q.filter = (s.graph.request ⟨0⟩).filter) (ρ : Env) :
    ∃ place : Row → Env, (G.evaluator st.engine st.database).filtered q ρ =
        ((st.database.rows table).filter fun row => f.anchored st row && f.holds st row).map place ∧
      ∀ row, place row ⟨0⟩ = row := by
  obtain ⟨n, null, g, hn, hcarries, htruth⟩ := hs.filter
  obtain ⟨place, hjoined, hplace, hview⟩ := hs.standing.joined_eq hs.charted hkeys hμ hG hbase hjoins ρ
  have hholds : ∀ row, ((G.evaluator st.engine st.database).term n).holds (place row) = f.holds st row := by
    intro row
    have hvalue := hcarries.value G μ _ hμ (hview row)
    rw [Term.holds, ← Store.valueAt, hvalue, Sql.isTrue, htruth, hplace]
    rfl
  refine ⟨place, ?_, hplace⟩
  rw [Evaluator.filtered, hfilter, hn]
  dsimp only
  rw [hjoined, List.filter_map, List.filter_filter]
  congr 2
  funext row
  simp [hholds, Formula.anchored, Navigation.anchors, Formula.loosens, Navigation.loosens, Bool.and_comm]

end Formulas

/-- **A query for the rows of which a formula is true compiles, and it returns those of them from which
every chain of references that is followed only outside of disjunctions leads to a row, each of them
once and in their order.** -/
theorem rowsOf_compile_formula (m : Mapping) (hm : m.equivalents = [])
    (hc : m.catalog.validate = .ok ()) (e : Engine) (db : Database)
    (hkeys : Store.Keyed ⟨m.catalog, e, db⟩) {E table : String}
    (htable : m.catalog.tableName E = .ok table) (x : Param) (f : Formula)
    (hf : f.typed m.catalog [(x.id, E)]) :
    ∃ s, (m.compile (f.query E x)).1 = .ok s ∧ ∃ out : Row → Row,
      s.graph.rowsOf e db s.root =
        ((db.rows table).filter fun row =>
          f.anchored ⟨m.catalog, e, db⟩ row && f.holds ⟨m.catalog, e, db⟩ row).map out ∧
      ∀ row, m.Shows E row (out row) := by
  obtain ⟨s, hrun, hs⟩ := runs_sifted ⟨m.catalog, e, db⟩ hc hm rfl htable hf
  have hbare := hs.standing.bare
  have hmapping : s.mapping = m := by rw [hs.standing.state]
  obtain ⟨columns, t, items, hdeclare, hcolumns, ht⟩ := runs_declareColumns (hmapping ▸ htable)
    ⟨hbare.kind, hbare.items, hbare.groups, hbare.base⟩ hs.standing.entity hs.standing.zero_lt
    (f.query E x)
  rw [hmapping] at hcolumns
  have hroot : Runs (root [] (f.query E x)) { mapping := m } ⟨0⟩ t :=
    runs_root_call hrun (by rw [hs.standing.state]) hbare.parent hdeclare
  refine ⟨⟨t.graph, ⟨0⟩, t.hints⟩, ?_, ?_⟩
  · have hcompile : (root [] (f.query E x)).run.run { mapping := m } = (.ok ⟨0⟩, t) := hroot
    rw [Mapping.compile, Mapping.compileWith, hcompile]
    rfl
  · have hsound := ht.sound hs.standing.fits.sound
    have hμ := Graph.ranked_rank hsound.ordered hsound.acyclic
    have hrequest := ht.request
    obtain ⟨place, hfiltered, hplace⟩ := hs.filtered_eq hkeys hμ ht.kept (q := t.graph.request ⟨0⟩)
      (by rw [hrequest, hbare.base]) (by rw [hrequest]) (by rw [hrequest]) fun _ => []
    exact Selected.rowsOf_eq ⟨m.catalog, e, db⟩ ht hμ hcolumns hs.plain hbare.items hbare.base
      hfiltered hplace

/-! ### People without a boss -/

namespace People

def someone : Param := ⟨⟨1⟩, "p", .entity "Person"⟩

def bossName : Formula :=
  .member ⟨someone, [⟨"Person", "boss", .entity "Person"⟩], ⟨"Person", "name", .scalar .string false⟩⟩

/-- People whose boss has no name. -/
def bossless : Formula := .compare .equal bossName (.const .null)

/-- People whose boss has no name, and Cid. -/
def bosslessOrCid : Formula :=
  .or (.compare .equal (.coalesce bossName (.const (.string "none"))) (.const (.string "none")))
    (.not (.compare .notEqual (.member ⟨someone, [], ⟨"Person", "name", .scalar .string false⟩⟩)
      (.const (.string "Cid"))))

end People

/-- Under a disjunction the boss may be missing: Ann has none. -/
theorem rowsOf_compile_formula_people :
    People.mapping.catalog.validate = .ok () ∧ People.store.Keyed ∧
    People.bosslessOrCid.typed People.mapping.catalog [(People.someone.id, "Person")] ∧
    ∃ s, (People.mapping.compile (People.bosslessOrCid.query "Person" People.someone)).1 = .ok s ∧
      s.graph.rowsOf People.engine People.database s.root =
        [[("id", .int 1), ("name", .string "Ann")], [("id", .int 3), ("name", .string "Cid")]] := by
  have htyped : People.bosslessOrCid.typed People.mapping.catalog [(People.someone.id, "Person")] := by
    decide +kernel
  obtain ⟨s, hs, out, hrows, hout⟩ := rowsOf_compile_formula People.mapping rfl rfl People.engine
    People.database People.keyed rfl People.someone People.bosslessOrCid htyped
  refine ⟨rfl, People.keyed, htyped, s, hs, ?_⟩
  rw [hrows]
  exact congrArg₂ (fun row row' => [row, row']) (hout (People.person 1 "Ann" .null))
    (hout (People.person 3 "Cid" (.int 2)))

/-- Outside of a disjunction it may not: it is true of Ann that the name of her boss is null, and she
is not returned. -/
theorem bossless_person_dropped :
    People.mapping.catalog.validate = .ok () ∧ People.store.Keyed ∧
    People.bossless.typed People.mapping.catalog [(People.someone.id, "Person")] ∧
    People.person 1 "Ann" .null ∈ People.database.rows "person" ∧
    People.bossless.holds People.store (People.person 1 "Ann" .null) = true ∧
    ∃ s, (People.mapping.compile (People.bossless.query "Person" People.someone)).1 = .ok s ∧
      s.graph.rowsOf People.engine People.database s.root = [] := by
  have hrows : ((People.mapping.compile (People.bossless.query "Person" People.someone)).1.toOption.any
      fun s => (s.graph.rowsOf People.engine People.database s.root).isEmpty) = true := by
    decide +kernel
  refine ⟨rfl, People.keyed, by decide +kernel, List.mem_cons_self, by decide +kernel, ?_⟩
  cases hcompile : (People.mapping.compile (People.bossless.query "Person" People.someone)).1 with
  | error e =>
    rw [hcompile] at hrows
    cases hrows
  | ok s =>
    rw [hcompile] at hrows
    exact ⟨s, rfl, List.isEmpty_iff.1 hrows⟩

end EntityQuery
