import EntityQuery.Proofs.Filters.Exists

/-!
Queries for the rows of an entity that satisfy filters.

* `decides_filter`: at every site, the expression of a filter stands for its truth.
* `Rooted`: a query of filters is one request over the table of its entity. Every filter adds its
  condition, and joins of references only.
* `runs_query`: what one filter adds, all of them add one after the other.
-/

namespace EntityQuery

open Sql Store Compile

variable {st : Store}

/-! ### Filters -/

section Filters

variable (hc : st.catalog.validate = .ok ()) (hkeys : st.Keyed)
include hc hkeys

/-- **The expression of a filter stands for its truth.** -/
theorem decides_filter {S : Site} {f : Filter} (hf : f.typed st.catalog S.scope) :
    Decides st S f.expr fun ρ => f.eval st fun x => ρ (S.place x) := by
  induction f generalizing S with
  | and l r ihl ihr =>
    obtain ⟨hl, hr⟩ := Bool.and_eq_true_iff.1 hf
    exact decides_and (ihl hl) (ihr hr)
  | or l r ihl ihr =>
    obtain ⟨hl, hr⟩ := Bool.and_eq_true_iff.1 hf
    exact decides_or (ihl hl) (ihr hr)
  | compare op l r =>
    obtain ⟨hl, hr⟩ := Bool.and_eq_true_iff.1 hf
    exact decides_compare hc op hl hr
  | like place subject part =>
    obtain ⟨hsides, htext⟩ := Bool.and_eq_true_iff.1 hf
    obtain ⟨hsubject, hpart⟩ := Bool.and_eq_true_iff.1 hsides
    exact decides_like hc place hsubject hpart fun hplace => by simpa [hplace] using htext
  | among vs item =>
    obtain ⟨hlist, hitem⟩ := Bool.and_eq_true_iff.1 hf
    obtain ⟨-, hvs⟩ := Bool.and_eq_true_iff.1 hlist
    refine decides_among hc (fun v hv => ?_) hitem
    simpa using List.all_eq_true.1 hvs v hv
  | flag m => exact decides_flag hc hf
  | any m p body ih =>
    rw [Filter.typed] at hf
    split at hf
    · rename_i target htarget
      obtain ⟨stored, hstored, hrelation⟩ := Option.bind_eq_some_iff.1 htarget
      exact decides_any (F := fun rows => body.eval st rows) hc hkeys hstored hrelation
        fun I hI => ih (by rw [hI]; exact hf)
    · cases hf

end Filters

/-! ### The outermost request -/

/-- The site of the outermost request, over its first source. -/
def Site.root (Γ : Scope) : Site := ⟨⟨0⟩, [], [], 1, Γ, fun _ => ⟨0⟩⟩

/-- What can be seen later could be seen before, as long as the joins are the same. -/
lemma View.earlier {S T : Site} {s t : CompileState} {G : Graph} {ρ : Env} {A : List AliasId}
    (hv : View st T t G ρ) (hopened : T.opened = S.opened) (hkept : s.graph.Kept S.opened A t.graph)
    (hjoins : T.joins t = S.joins s) : View st S s G ρ := by
  obtain ⟨B, hB⟩ := hv.kept
  refine ⟨⟨A ++ B, ?_⟩, hjoins ▸ hv.settled⟩
  rw [hopened] at hB
  exact (hkept.mono (fun _ hq _ => hq) fun _ ha _ => List.mem_append_left _ ha).trans
    (hB.mono (fun _ hq _ => hq) fun _ ha _ => List.mem_append_right _ ha)

section Root

variable {c : Catalog} {g : Graph} {x : ParamId} {entity : String}

/-- A parameter of the base stands for its rows. -/
lemma fits_root_of_mem (hg : (Site.root []).Fits c g) (hbase : (g.request ⟨0⟩).base = some ⟨0⟩)
    (hx : x ∈ (g.aliasOf ⟨0⟩).params) : (Site.root [(x, entity)]).Fits c g := by
  refine ⟨hg.sound, hg.opened, hg.fresh, hg.place, ?_, hg.links, hg.joins⟩
  intro y E hy
  have hyx : y = x := by
    by_contra hne
    have hbeq : (y == x) = false := by simpa using hne
    simp [Site.root, List.lookup_cons, hbeq] at hy
  subst hyx
  have hself : g.boundSource? y ⟨0⟩ = some ⟨0⟩ := by
    rw [Graph.boundSource?]
    simp [Request.sources, hbase, hx]
  have henclosing : g.enclosing? (fun q => (g.boundSource? y q).isSome) ⟨0⟩ = some ⟨0⟩ := by
    rw [Graph.enclosing?, Graph.enclosingWithin, if_pos (by rw [hself]; rfl)]
  change g.aliasFor? ⟨0⟩ y = some ⟨0⟩
  rw [Graph.aliasFor?, henclosing, Option.bind_some, hself]

/-- A new parameter leaves the site as it is. -/
lemma Site.Fits.bind (hg : (Site.root []).Fits c g) (x : ParamId) :
    (Site.root []).Fits c (g.bind ⟨0⟩ x) := by
  have hkept : g.Kept [⟨0⟩] [⟨0⟩] (g.bind ⟨0⟩ x) := .bind g List.mem_cons_self x
  obtain ⟨refs, hrefs, hrising, href⟩ := hg.joins
  refine ⟨hg.sound.bind ⟨0⟩ x, hg.opened, ?_, hg.place, by simp [Site.root], by simp [Site.root],
    refs, hrefs, hrising, fun j hj => ⟨?_, (href j hj).2⟩⟩
  · rw [Graph.size_aliases_bind]
    exact hg.fresh
  · exact (href j hj).1.kept hkept

lemma mem_params_bind (hlt : 0 < g.aliases.size) : x ∈ ((g.bind ⟨0⟩ x).aliasOf ⟨0⟩).params := by
  rw [Graph.aliasOf_bind_self _ _ hlt]
  by_cases hmem : x ∈ (g.aliasOf ⟨0⟩).params <;> simp [hmem]

lemma fits_root_bind (hg : (Site.root []).Fits c g) (hbase : (g.request ⟨0⟩).base = some ⟨0⟩) :
    (Site.root [(x, entity)]).Fits c (g.bind ⟨0⟩ x) :=
  fits_root_of_mem (hg.bind x) (by rw [Graph.request_bind, hbase]) (mem_params_bind (hg.place_lt ⟨0⟩))

end Root

/-! ### One filter after the other -/

/-- Whether a row satisfies all filters. -/
def Filter.satisfied (st : Store) (fs : List (Param × Filter)) (row : Row) : Bool :=
  fs.all fun f => f.2.eval st (fun _ => row) == some true

/-- A request over the rows of a table that satisfy filters. -/
structure Rooted (st : Store) (m : Mapping) (E table : String) (fs : List (Param × Filter))
    (s : CompileState) : Prop where
  state : s = { mapping := m, graph := s.graph, active := some ⟨0⟩ }
  fits : (Site.root []).Fits st.catalog s.graph
  origin : (s.graph.aliasOf ⟨0⟩).origin = .table table
  entity : (s.graph.aliasOf ⟨0⟩).entity = some E
  request : ∃ joins filter projection idColumn, s.graph.request ⟨0⟩ =
    { base := some ⟨0⟩, joins := joins, filter := filter, projection := projection,
      idColumn := idColumn }
  filter : ((s.graph.request ⟨0⟩).filter = none ∧ fs = [] ∧ (s.graph.request ⟨0⟩).joins = []) ∨
    ∃ n f, (s.graph.request ⟨0⟩).filter = some n ∧ (s.graph.node n).isColumn = false ∧
      Tells st (.root []) s n f ∧
      (∀ ρ, (f ρ == some true) = Filter.satisfied st fs (ρ ⟨0⟩)) ∧
      ∀ G ρ, View st (.root []) s G ρ → f ρ = some true →
        ∀ j ∈ (s.graph.request ⟨0⟩).joins, j.kind = .inner → st.lands G j ρ = true

namespace Rooted

variable {m : Mapping} {E table : String} {fs : List (Param × Filter)} {s t : CompileState}

/-- While a filter is compiled, the request gains joins alone. -/
lemma frame {x : ParamId}
    (hstep : Step st (.root [(x, E)]) { s with graph := s.graph.bind ⟨0⟩ x } t) :
    t.graph.request ⟨0⟩ = { s.graph.request ⟨0⟩ with joins := (t.graph.request ⟨0⟩).joins } := by
  have hframe := hstep.grown.frame
  rw [Graph.request_bind] at hframe
  exact hframe

/-- The condition of a request is replaced by one that says more. -/
lemma setFilter (hs : Rooted st m E table fs s) {x : ParamId} {k : NodeId} {f : Env → Option Bool}
    {fs' : List (Param × Filter)}
    (hstep : Step st (.root [(x, E)]) { s with graph := s.graph.bind ⟨0⟩ x } t)
    (hk : Tells st (.root [(x, E)]) t k f) (hcolumn : (t.graph.node k).isColumn = false)
    (hf : ∀ ρ, (f ρ == some true) = Filter.satisfied st fs' (ρ ⟨0⟩))
    (hstrict : ∀ G ρ, View st (.root [(x, E)]) t G ρ → f ρ = some true →
      ∀ j ∈ (t.graph.request ⟨0⟩).joins, j.kind = .inner → st.lands G j ρ = true) :
    Rooted st m E table fs' { t with graph := t.graph.setFilter ⟨0⟩ k } := by
  have hlt : (0 : Nat) < t.graph.requests.size := hstep.fits.request_lt
  have hrequest := t.graph.request_setFilter_self (r := ⟨0⟩) k hlt
  have hkept : t.graph.Kept [⟨0⟩] [] (t.graph.setFilter ⟨0⟩ k) := .setFilter _ List.mem_cons_self k
  have hkept' : s.graph.Kept [⟨0⟩] [⟨0⟩] (t.graph.setFilter ⟨0⟩ k) :=
    Graph.Kept.trans (.bind s.graph List.mem_cons_self x)
      ((hstep.grown.kept.trans hkept).mono (fun _ hq _ => hq) (by simp))
  have hjoins : ((t.graph.setFilter ⟨0⟩ k).request ⟨0⟩).joins = (t.graph.request ⟨0⟩).joins := by
    rw [hrequest]
  have hview : ∀ {G ρ}, View st (.root []) { t with graph := t.graph.setFilter ⟨0⟩ k } G ρ →
      View st (.root [(x, E)]) t G ρ := fun hv => hv.earlier rfl hkept hjoins
  have hzero : (0 : Nat) < s.graph.aliases.size := hs.fits.place_lt ⟨0⟩
  refine ⟨?_, ?_, (hkept'.origin hzero).trans hs.origin, ?_, ?_,
    .inr ⟨k, f, by rw [hrequest], ?_, ⟨?_, ?_, fun G μ ρ hμ hv => hk.truth G μ ρ hμ (hview hv)⟩, hf, ?_⟩⟩
  · rw [hstep.state, hs.state]
  · obtain ⟨refs, hrefs, hrising, href⟩ := hstep.fits.joins
    refine ⟨hstep.fits.sound.setFilter List.mem_cons_self hk.lt, ?_, hstep.fits.fresh,
      hstep.fits.place, by simp [Site.root], by simp [Site.root], refs, hjoins.trans hrefs, hrising,
      fun j hj => ⟨?_, (href j hj).2⟩⟩
    · intro q hq
      rw [Graph.size_requests_setFilter]
      exact hstep.fits.opened q hq
    · exact (href j hj).1.kept hkept
  · exact (congrArg Alias.entity (hkept'.bare ⟨0⟩ hzero)).trans hs.entity
  · obtain ⟨joins, filter, projection, idColumn, hplain⟩ := hs.request
    have hframe := frame hstep
    rw [hplain] at hframe
    exact ⟨(t.graph.request ⟨0⟩).joins, some k, projection, idColumn, by rw [hrequest, hframe]⟩
  · rw [Graph.node_setFilter, hcolumn]
  · rw [Graph.size_entries_setFilter]
    exact hk.lt
  · rw [Graph.node_setFilter, hk.notNull]
  · intro G ρ hv htrue j hj hkind
    exact hstrict G ρ (hview hv) htrue j (hjoins ▸ hj) hkind

/-- What a condition says stays said while further filters are compiled. -/
lemma tells_later {x : ParamId} {n : NodeId} {f : Env → Option Bool}
    (hn : Tells st (.root []) s n f)
    (hstep : Step st (.root [(x, E)]) { s with graph := s.graph.bind ⟨0⟩ x } t) :
    (∀ {G ρ}, View st (.root [(x, E)]) t G ρ → View st (.root []) s G ρ) ∧
      t.graph.node n = s.graph.node n ∧ Tells st (.root [(x, E)]) t n f := by
  have hview : ∀ {G ρ}, View st (.root [(x, E)]) t G ρ → View st (.root []) s G ρ := fun hv =>
    (hstep.view hv).earlier (A := [⟨0⟩]) rfl (.bind s.graph List.mem_cons_self x) rfl
  have hnode : t.graph.node n = s.graph.node n := hstep.grown.kept.node n hn.lt
  exact ⟨hview, hnode, hn.lt.trans_le hstep.grown.kept.entries, by rw [hnode, hn.notNull],
    fun G μ ρ hμ hv => hn.truth G μ ρ hμ (hview hv)⟩

/-- **A further filter keeps the rows that satisfy it too.** -/
theorem add (hc : st.catalog.validate = .ok ()) (hkeys : st.Keyed) (hm : m.equivalents = [])
    (hcatalog : m.catalog = st.catalog) (hs : Rooted st m E table fs s) {x : Param} {f : Filter}
    (hf : f.typed st.catalog [(x.id, E)]) {fuel : Nat} (hfuel : f.expr.depth ≤ fuel) (e : Expr) :
    ∃ n t u, Runs (predicate (visit [] fuel) e ⟨0⟩ (.lambda [x] f.expr)) s n t ∧
      Runs (restrict ⟨0⟩ n) t () u ∧ Rooted st m E table (fs ++ [(x, f)]) u := by
  obtain ⟨joins, filter, projection, idColumn, hplain⟩ := hs.request
  have hbase : (s.graph.request ⟨0⟩).base = some ⟨0⟩ := by rw [hplain]
  have hready : Ready st (.root [(x.id, E)]) { s with graph := s.graph.bind ⟨0⟩ x.id } := by
    refine ⟨?_, ?_, ?_, ?_, ?_, fits_root_bind hs.fits hbase⟩ <;> rw [hs.state]
    · rfl
    · exact hm
    · exact hcatalog
  obtain ⟨n, t, hpredicate, hn, hcolumn⟩ := runs_predicate (by rw [hplain]) hbase
    (decides_filter hc hkeys (S := .root [(x.id, E)]) hf) hready hfuel e
  have hgroups : (t.graph.request ⟨0⟩).groups = [] := by rw [frame hn.step, hplain]
  refine ⟨n, t, _, hpredicate, runs_restrict hgroups n, ?_⟩
  have hfilter : (t.graph.request ⟨0⟩).filter = (s.graph.request ⟨0⟩).filter := by
    rw [frame hn.step]
  rcases hs.filter with ⟨hnone, rfl, hempty⟩ | ⟨k, h, hk, hkcolumn, htells, hsatisfied, hlands⟩
  · rw [Graph.andFilter_of_none _ n (hfilter.trans hnone)]
    refine hs.setFilter hn.step hn.tells hcolumn (fun ρ => ?_) fun G ρ hv htrue j hj hkind => ?_
    · simp [Filter.satisfied, Site.root]
    · refine (hn.strict G ρ hv htrue j hj hkind).resolve_left fun hmem => ?_
      change j ∈ (s.graph.request ⟨0⟩).joins at hmem
      rw [hempty] at hmem
      cases hmem
  · obtain ⟨hview, hnode, hk'⟩ := tells_later htells hn.step
    have hop : ∀ v w, st.engine.binary .and v w = ofTruth (truthAnd (truthOf v) (truthOf w)) :=
      fun _ _ => rfl
    obtain ⟨hstep, hand⟩ := tells_logical (hn.step.ready hready) hop hk' hn.tells (hnode ▸ hkcolumn)
      hcolumn
    rw [Graph.andFilter_of_some _ n (hfilter.trans hk)]
    refine hs.setFilter (hn.step.trans hstep) hand ?_ (fun ρ => ?_) fun G ρ hv htrue j hj hkind => ?_
    · simp [Node.isColumn]
    · rw [truthAnd_beq, hsatisfied]
      simp [Filter.satisfied, Site.root]
    · obtain ⟨hold, hnew⟩ := truthAnd_eq_true.1 htrue
      have hv' := hstep.view hv
      rw [Graph.request_add] at hj
      rcases hn.strict G ρ hv' hnew j hj hkind with hmem | hland
      · exact hlands G ρ (hview hv') hold j hmem hkind
      · exact hland

end Rooted

/-! ### Whole queries -/

section Queries

variable {m : Mapping} {E table : String}

lemma sound_empty : ({} : Graph).Sound [] := by
  have hnode : ∀ n, ({} : Graph).node n = .const .null := fun n => Graph.node_of_size_le (Nat.zero_le _)
  refine ⟨fun n c hc => ?_, fun n r hr => ?_, fun r n hn => ?_, fun r a ha => ?_, fun a r hr => ?_⟩
  · simp [hnode, Node.children] at hc
  · simp [hnode] at hr
  · simp [Graph.request, Request.clauseNodes] at hn
  · simp [Graph.request, Request.origins, Request.sources] at ha
  · simp [Graph.aliasOf] at hr

/-- The graph of a query for all rows of a table. -/
def Sql.Graph.ofTable (table entity : String) (key : Option String) : Graph :=
  ((({} : Graph).addRequest none).2.addAlias (.ofTable table entity key)).2.modifyRequest ⟨0⟩
    ({ · with base := some ⟨0⟩, projection := some (.entity entity), idColumn := key })

lemma Sql.Graph.request_ofTable (table entity : String) (key : Option String) :
    (Graph.ofTable table entity key).request ⟨0⟩ =
      { base := some ⟨0⟩, projection := some (.entity entity), idColumn := key } := rfl

lemma Sql.Graph.sound_ofTable (table entity : String) (key : Option String) :
    (Graph.ofTable table entity key).Sound [⟨0⟩] := by
  have hsound : ((({} : Graph).addRequest none).2.addAlias (.ofTable table entity key)).2.Sound [⟨0⟩] :=
    (sound_empty.addRequest none).addAlias (fun r hr => by cases hr)
  have hfirst : ((({} : Graph).addRequest none).2.addAlias (.ofTable table entity key)).2.request ⟨0⟩ =
      {} := rfl
  refine hsound.modifyRequest List.mem_cons_self (fun n hn => ?_) fun a ha => ?_
  · simp [hfirst, Request.clauseNodes] at hn
  · rw [hfirst] at ha
    obtain rfl : a = ⟨0⟩ := by simpa [Request.origins, Request.sources] using ha
    exact Nat.zero_lt_one

lemma runs_ofTable (htable : m.catalog.tableName E = .ok table) (fuel : Nat) :
    Runs (visit [] (fuel + 1) (.source E)) { mapping := m } (.query ⟨0⟩)
      { mapping := m, graph := .ofTable table E (m.catalog.idColumn E).toOption, active := some ⟨0⟩ } :=
  Runs.bind (runs_ask.2 ⟨htable, rfl⟩) (runs_get_bind.2 (runs_get_bind.2
    (Runs.bind (runs_build.2 ⟨rfl, rfl⟩) (Runs.bind (runs_build.2 ⟨rfl, rfl⟩)
      (Runs.bind (a := ()) (runs_editRequest.2 rfl) (Runs.bind (a := ()) (runs_setActive.2 rfl)
        (runs_pure.2 ⟨rfl, rfl⟩)))))))

/-- A query starts as a request over the table of its entity. -/
lemma runs_source (htable : m.catalog.tableName E = .ok table) (fuel : Nat) :
    ∃ s, Runs (visit [] (fuel + 1) (.source E)) { mapping := m } (.query ⟨0⟩) s ∧
      s.graph.request ⟨0⟩ =
        { base := some ⟨0⟩, projection := some (.entity E),
          idColumn := (m.catalog.idColumn E).toOption } ∧
      Rooted st m E table [] s := by
  obtain ⟨g, hg⟩ : ∃ g, g = Graph.ofTable table E (m.catalog.idColumn E).toOption := ⟨_, rfl⟩
  have hrequest : g.request ⟨0⟩ =
      { base := some ⟨0⟩, projection := some (.entity E), idColumn := (m.catalog.idColumn E).toOption } := by
    rw [hg, Graph.request_ofTable]
  have halias : (g.aliasOf ⟨0⟩).origin = .table table ∧ (g.aliasOf ⟨0⟩).entity = some E := by
    rw [hg]
    exact ⟨rfl, rfl⟩
  refine ⟨{ mapping := m, graph := g, active := some ⟨0⟩ }, hg ▸ runs_ofTable htable fuel, hrequest, rfl, ?_,
    halias.1, halias.2, ⟨[], none, _, _, hrequest⟩, .inl ?_⟩
  · have hsize : g.aliases.size = 1 ∧ g.requests.size = 1 := by
      rw [hg]
      exact ⟨rfl, rfl⟩
    refine ⟨hg ▸ Graph.sound_ofTable .., ?_, ?_, ?_, ?_, ?_, [], ?_, List.Pairwise.nil, ?_⟩
    · intro q hq
      rw [hsize.2, List.mem_singleton.1 hq]
      exact Nat.zero_lt_one
    · exact hsize.1.ge
    · exact fun _ => Nat.zero_lt_one
    · intro x E hx
      cases hx
    · intro j hj
      cases hj
    · exact congrArg Request.joins hrequest
    · intro j hj
      cases hj
  · rw [hrequest]
    exact ⟨rfl, rfl, rfl⟩

/-- **A query of filters is a request over the rows that satisfy them.** -/
theorem runs_query (hc : st.catalog.validate = .ok ()) (hkeys : st.Keyed) (hm : m.equivalents = [])
    (hcatalog : m.catalog = st.catalog) (htable : m.catalog.tableName E = .ok table)
    {fs : List (Param × Filter)} (hfs : ∀ f ∈ fs, f.2.typed st.catalog [(f.1.id, E)]) {fuel : Nat}
    (hfuel : (Filter.query E fs).depth ≤ fuel) :
    ∃ s, Runs (visit [] fuel (Filter.query E fs)) { mapping := m } (.query ⟨0⟩) s ∧
      Rooted st m E table fs s := by
  induction fs using List.reverseRecOn generalizing fuel with
  | nil =>
    obtain ⟨fuel, rfl⟩ := fuel_succ hfuel
    exact (runs_source htable fuel).imp fun s hs => ⟨hs.1, hs.2.2⟩
  | append_singleton fs f ih =>
    have hquery : Filter.query E (fs ++ [f]) =
        .call .where [Filter.query E fs, .lambda [f.1] f.2.expr] := by
      simp [Filter.query, List.foldl_append]
    rw [hquery] at hfuel ⊢
    obtain ⟨fuel, rfl⟩ := fuel_succ hfuel
    simp only [Expr.depth, Expr.depthAll] at hfuel
    have hinner : (Filter.query E fs).depth ≤ fuel := by omega
    have hbody : f.2.expr.depth ≤ fuel := by omega
    obtain ⟨s, hrun, hs⟩ := ih (fun f hf => hfs f (List.mem_append_left _ hf)) hinner
    obtain ⟨n, t, u, hpredicate, hrestrict, hu⟩ := hs.add hc hkeys hm hcatalog
      (hfs f (by simp)) hbody (.call .where [Filter.query E fs, .lambda [f.1] f.2.expr])
    refine ⟨u, ?_, hu⟩
    have hactive : { s with active := some ⟨0⟩ } = s := by rw [hs.state]
    have hreceiver : Runs (openReceiver (visit [] fuel)
        (.call .where [Filter.query E fs, .lambda [f.1] f.2.expr]) (Filter.query E fs))
        { mapping := m } ⟨0⟩ s :=
      Runs.bind (Runs.bind hrun (runs_pure.2 ⟨rfl, rfl⟩))
        (Runs.bind (a := ()) (runs_setActive.2 hactive.symm) (runs_pure.2 ⟨rfl, rfl⟩))
    exact Runs.bind hreceiver (Runs.bind (runs_pure.2 ⟨rfl, rfl⟩) (Runs.bind hpredicate
      (Runs.bind hrestrict (runs_pure.2 ⟨rfl, rfl⟩))))

end Queries

end EntityQuery
