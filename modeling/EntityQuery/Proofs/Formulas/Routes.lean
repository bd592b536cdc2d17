import EntityQuery.Proofs.Filters.Query
import EntityQuery.Proofs.Formulas.Basic

/-!
Which references a request joins, and how.

* A request over a table joins every chain of references that it follows, once. A chain is joined
  with the loss of rows until it is followed under a disjunction (`Charts`).
* `Charted.reference`, `Charted.path`: what following references adds to the joins.
* `keeps_iff`: a row of the base stays in the joins if the chains that are joined with the loss of
  rows lead to rows.
-/

namespace EntityQuery

open Sql Store Compile

/-! ### Charts of joins -/

/-- The property of a reference as the catalog types it. -/
def Catalog.Types (c : Catalog) (p : PropertyRef) : Prop :=
  ∃ m, c.propertyMapping p = .ok m ∧ p.type = m.type

lemma Catalog.Types.eq_of_same {c : Catalog} {p q : PropertyRef} (hp : c.Types p) (hq : c.Types q)
    (h : p.same q = true) : p = q := by
  obtain ⟨m, hm, hpm⟩ := hp
  obtain ⟨m', hm', hqm⟩ := hq
  rw [c.propertyMapping_of_same h, hm'] at hm
  cases hm
  obtain ⟨howner, hname⟩ := PropertyRef.same_iff.1 h
  cases p
  cases q
  simp_all

/-- Joins bring in the rows at the end of the chains of references that have been followed. -/
structure Charts (c : Catalog) (g : Graph) (js : List Join) (chart : AliasId → List PropertyRef)
    (log : List Navigation) : Prop where
  base : chart ⟨0⟩ = []
  route : ∀ j ∈ js, ∃ owner p, (g.aliasOf j.source).route = .navigation owner p none ∧
    chart j.source = chart owner ++ [p] ∧ c.Types p ∧ (owner = ⟨0⟩ ∨ ∃ i ∈ js, i.source = owner)
  once : ∀ i ∈ js, ∀ j ∈ js, chart i.source = chart j.source → i.source = j.source
  joined : ∀ path ≠ [], (∃ j ∈ js, chart j.source = path) ↔ ∃ e ∈ log, path <+: e.path
  kind : ∀ j ∈ js, j.kind = .left ↔ ∃ e ∈ log, e.wide = true ∧ chart j.source <+: e.path

/-- Some chart describes joins. -/
def Charted (c : Catalog) (g : Graph) (js : List Join) (log : List Navigation) : Prop :=
  ∃ chart, Charts c g js chart log

namespace Charts

variable {c : Catalog} {g h : Graph} {js : List Join} {chart : AliasId → List PropertyRef}
  {log log' : List Navigation}

lemma chart_ne_nil (hg : Charts c g js chart log) {j : Join} (hj : j ∈ js) : chart j.source ≠ [] := by
  obtain ⟨owner, p, -, hchart, -⟩ := hg.route j hj
  simp [hchart]

/-- Sources with the same chain are the same source. -/
lemma source_eq (hg : Charts c g js chart log) {a b : AliasId}
    (ha : a = ⟨0⟩ ∨ ∃ i ∈ js, i.source = a) (hb : b = ⟨0⟩ ∨ ∃ i ∈ js, i.source = b)
    (h : chart a = chart b) : a = b := by
  rcases ha with rfl | ⟨i, hi, rfl⟩ <;> rcases hb with rfl | ⟨j, hj, rfl⟩
  · rfl
  · exact absurd (h ▸ hg.base) (hg.chart_ne_nil hj)
  · exact absurd (h.symm ▸ hg.base) (hg.chart_ne_nil hi)
  · exact hg.once i hi j hj h

/-- Only the routes of the sources and the chains that have been followed count. -/
lemma congr (hg : Charts c g js chart log)
    (hroute : ∀ j ∈ js, (h.aliasOf j.source).route = (g.aliasOf j.source).route)
    (hjoined : ∀ path ≠ [], (∃ e ∈ log, path <+: e.path) ↔ ∃ e ∈ log', path <+: e.path)
    (hwide : ∀ path ≠ [], (∃ e ∈ log, e.wide = true ∧ path <+: e.path) ↔
      ∃ e ∈ log', e.wide = true ∧ path <+: e.path) : Charts c h js chart log' where
  base := hg.base
  route j hj := by
    rw [hroute j hj]
    exact hg.route j hj
  once := hg.once
  joined path hpath := (hg.joined path hpath).trans (hjoined path hpath)
  kind j hj := (hg.kind j hj).trans (hwide _ (hg.chart_ne_nil hj))

/-- A source that a reference of another one leads to has a chain that is longer by it. -/
lemma chart_of_route (hg : Charts c g js chart log) {j : Join} (hj : j ∈ js) {owner : AliasId}
    {p : PropertyRef} (h : (g.aliasOf j.source).route = .navigation owner p none) :
    chart j.source = chart owner ++ [p] ∧ c.Types p := by
  obtain ⟨owner', p', hroute, hchart, htypes, -⟩ := hg.route j hj
  obtain ⟨rfl, rfl, -⟩ := Route.navigation.inj (hroute.symm.trans h)
  exact ⟨hchart, htypes⟩

/-! ### One reference -/

variable {owner : AliasId} {p : PropertyRef} {wide : Bool}

lemma prefix_append_singleton {α : Type} {path path' : List α} {a : α} :
    path' <+: path ++ [a] ↔ path' = path ++ [a] ∨ path' <+: path := by
  constructor
  · intro h
    rcases List.prefix_concat_iff.1 h with h | h
    · exact .inl h
    · exact .inr h
  · rintro (rfl | h)
    · exact List.prefix_refl _
    · exact h.trans (List.prefix_append _ _)

lemma exists_mem_append_singleton {α : Type} {P : α → Prop} {as : List α} {a : α} :
    (∃ b ∈ as ++ [a], P b) ↔ (∃ b ∈ as, P b) ∨ P a := by
  simp [or_and_right, exists_or]

/-- A new join brings in the end of a chain that has not been followed. -/
lemma push (hg : Charts c g js chart (log ++ [⟨wide, chart owner⟩]))
    (howner : owner = ⟨0⟩ ∨ ∃ i ∈ js, i.source = owner) (hp : c.Types p)
    (hnew : ∀ i ∈ js, ∀ q, (g.aliasOf i.source).route = .navigation owner q none → q.same p = false)
    {j : Join} (hj : (h.aliasOf j.source).route = .navigation owner p none)
    (hkind : j.kind = .ofWiden wide) (hold : ∀ i ∈ js, i.source ≠ j.source) (hzero : j.source ≠ ⟨0⟩)
    (hroute : ∀ i ∈ js, (h.aliasOf i.source).route = (g.aliasOf i.source).route) :
    Charts c h (js ++ [j]) (Function.update chart j.source (chart owner ++ [p]))
      (log ++ [⟨wide, chart owner ++ [p]⟩]) := by
  have hne : owner ≠ j.source := by
    rcases howner with rfl | ⟨i, hi, rfl⟩
    · exact hzero.symm
    · exact hold i hi
  have hchart : ∀ i ∈ js, Function.update chart j.source (chart owner ++ [p]) i.source =
      chart i.source := fun i hi => Function.update_of_ne (hold i hi) _ _
  -- no chain that has been followed is the new one
  have hfresh : ∀ i ∈ js, chart i.source ≠ chart owner ++ [p] := by
    intro i hi heq
    obtain ⟨owner', q, hi', hchart', -, howner'⟩ := hg.route i hi
    obtain ⟨hinit, hlast⟩ := List.append_inj' (hchart'.symm.trans heq) rfl
    obtain rfl := hg.source_eq howner' howner hinit
    obtain rfl : q = p := by simpa using hlast
    have := hnew i hi q hi'
    simp [PropertyRef.same] at this
  have hself : Function.update chart j.source (chart owner ++ [p]) j.source = chart owner ++ [p] :=
    Function.update_self ..
  refine ⟨?_, ?_, ?_, ?_, ?_⟩
  · rw [Function.update_of_ne hzero.symm, hg.base]
  · intro i hi
    rcases List.mem_append.1 hi with hi | hi
    · obtain ⟨owner', q, hi', hchart', htypes, howner'⟩ := hg.route i hi
      have hne' : owner' ≠ j.source := by
        rcases howner' with rfl | ⟨k, hk, rfl⟩
        · exact hzero.symm
        · exact hold k hk
      refine ⟨owner', q, by rw [hroute i hi, hi'], ?_, htypes, ?_⟩
      · rw [hchart i hi, Function.update_of_ne hne', hchart']
      · exact howner'.imp_right (Exists.imp fun k hk => ⟨List.mem_append_left _ hk.1, hk.2⟩)
    · rw [List.mem_singleton.1 hi]
      refine ⟨owner, p, hj, ?_, hp, ?_⟩
      · rw [hself, Function.update_of_ne hne]
      · exact howner.imp_right (Exists.imp fun k hk => ⟨List.mem_append_left _ hk.1, hk.2⟩)
  · intro i hi k hk heq
    rcases List.mem_append.1 hi with hi | hi <;> rcases List.mem_append.1 hk with hk | hk
    · rw [hchart i hi, hchart k hk] at heq
      exact hg.once i hi k hk heq
    · rw [List.mem_singleton.1 hk, hchart i hi, hself] at heq
      exact absurd heq (hfresh i hi)
    · rw [List.mem_singleton.1 hi, hchart k hk, hself] at heq
      exact absurd heq.symm (hfresh k hk)
    · rw [List.mem_singleton.1 hi, List.mem_singleton.1 hk]
  · intro path hpath
    have hold' : (∃ i ∈ js, Function.update chart j.source (chart owner ++ [p]) i.source = path) ↔
        ∃ i ∈ js, chart i.source = path :=
      exists_congr fun i => and_congr_right fun hi => by rw [hchart i hi]
    rw [exists_mem_append_singleton, hold', hg.joined path hpath, exists_mem_append_singleton,
      exists_mem_append_singleton, hself, prefix_append_singleton, eq_comm (a := chart owner ++ [p])]
    exact or_assoc.trans (or_congr_right or_comm)
  · intro i hi
    rw [exists_mem_append_singleton]
    dsimp only
    rcases List.mem_append.1 hi with hi | hi
    · rw [hg.kind i hi, exists_mem_append_singleton, hchart i hi, prefix_append_singleton]
      simp only [hfresh i hi, false_or]
    · rw [List.mem_singleton.1 hi, hself, hkind]
      have hlog : ¬ ∃ e ∈ log, chart owner ++ [p] <+: e.path := by
        rintro ⟨e, he, hpath⟩
        obtain ⟨i, hi, heq⟩ := (hg.joined _ (by simp)).2 ⟨e, List.mem_append_left _ he, hpath⟩
        exact hfresh i hi heq
      have hlog' : ¬ ∃ e ∈ log, e.wide = true ∧ chart owner ++ [p] <+: e.path := by
        rintro ⟨e, he, -, hpath⟩
        exact hlog ⟨e, he, hpath⟩
      cases wide <;> simp [JoinKind.ofWiden, hlog']

/-- A chain that has been followed may be followed again. -/
lemma again (hg : Charts c g js chart (log ++ [⟨wide, chart owner⟩])) {j : Join} (hj : j ∈ js)
    (hchart : chart j.source = chart owner ++ [p]) {f : Join → Join}
    (hsource : ∀ i, (f i).source = i.source)
    (hkind : ∀ i ∈ js, (f i).kind = if i.source = j.source ∧ wide = true then .left else i.kind)
    (hroute : ∀ i ∈ js, (h.aliasOf i.source).route = (g.aliasOf i.source).route) :
    Charts c h (js.map f) chart (log ++ [⟨wide, chart owner ++ [p]⟩]) := by
  have hexists : ∀ P : AliasId → Prop, (∃ i ∈ js.map f, P i.source) ↔ ∃ i ∈ js, P i.source := by
    intro P
    simp [hsource]
  refine ⟨hg.base, ?_, ?_, ?_, ?_⟩
  · intro k hk
    obtain ⟨i, hi, rfl⟩ := List.mem_map.1 hk
    obtain ⟨owner', q, hi', hchart', htypes, howner'⟩ := hg.route i hi
    refine ⟨owner', q, ?_, ?_, htypes, ?_⟩
    · rw [hsource, hroute i hi, hi']
    · rw [hsource, hchart']
    · rw [hexists fun a => a = owner']
      exact howner'
  · intro i' hi' k' hk'
    obtain ⟨i, hi, rfl⟩ := List.mem_map.1 hi'
    obtain ⟨k, hk, rfl⟩ := List.mem_map.1 hk'
    rw [hsource, hsource]
    exact hg.once i hi k hk
  · intro path hpath
    rw [hexists fun a => chart a = path, hg.joined path hpath, exists_mem_append_singleton,
      exists_mem_append_singleton, prefix_append_singleton]
    constructor
    · rintro (h | h)
      · exact .inl h
      · exact .inr (.inr h)
    · rintro (h | rfl | h)
      · exact .inl h
      · have := (hg.joined _ hpath).1 ⟨j, hj, hchart⟩
        rwa [exists_mem_append_singleton] at this
      · exact .inr h
  · intro k hk
    obtain ⟨i, hi, rfl⟩ := List.mem_map.1 hk
    have hsame : i.source = j.source ↔ chart i.source = chart owner ++ [p] := by
      rw [← hchart]
      exact ⟨fun h => by rw [h], hg.once i hi j hj⟩
    have hold := hg.kind i hi
    rw [exists_mem_append_singleton] at hold
    rw [hkind i hi, hsource, exists_mem_append_singleton, prefix_append_singleton, ← hsame]
    dsimp only at hold ⊢
    by_cases hij : i.source = j.source ∧ wide = true
    · simp [hij]
    · rw [if_neg hij, hold, and_or_left, and_comm (b := i.source = j.source), or_iff_right hij]

end Charts

/-! ### Following references -/

section References

variable {st : Store} {Γ : Scope} {s t : CompileState} {log : List Navigation}

/-- The joins of a request over a table follow references. -/
def ChartedAt (st : Store) (s : CompileState) (log : List Navigation) : Prop :=
  Charted st.catalog s.graph (s.graph.request ⟨0⟩).joins log

/-- A source stands at the end of a chain of references that has been followed last. -/
def Stands (st : Store) (s : CompileState) (log : List Navigation) (wide : Bool)
    (path : List PropertyRef) (a : AliasId) : Prop :=
  ∃ chart, Charts st.catalog s.graph (s.graph.request ⟨0⟩).joins chart (log ++ [⟨wide, path⟩]) ∧
    chart a = path ∧ (a = ⟨0⟩ ∨ ∃ i ∈ (s.graph.request ⟨0⟩).joins, i.source = a)

/-- No join follows no reference. -/
lemma charted_nil (h : (s.graph.request ⟨0⟩).joins = []) : ChartedAt st s [] := by
  refine ⟨fun _ => [], rfl, ?_, ?_, ?_, ?_⟩ <;> rw [h]
  all_goals simp

/-- The base stands at the end of no references. -/
lemma ChartedAt.stands (h : ChartedAt st s log) (wide : Bool) : Stands st s log wide [] ⟨0⟩ := by
  obtain ⟨chart, hchart⟩ := h
  refine ⟨chart, hchart.congr (fun _ _ => rfl) (fun path hpath => ?_) (fun path hpath => ?_),
    hchart.base, .inl rfl⟩
  · rw [Charts.exists_mem_append_singleton]
    simp [hpath]
  · rw [Charts.exists_mem_append_singleton]
    simp [hpath]

lemma Stands.charted {wide : Bool} {path : List PropertyRef} {a : AliasId}
    (h : Stands st s log wide path a) : ChartedAt st s (log ++ [⟨wide, path⟩]) := by
  obtain ⟨chart, hchart, -⟩ := h
  exact ⟨chart, hchart⟩

/-- Nothing but the sources and the joins of the request counts. -/
lemma ChartedAt.congr (h : ChartedAt st s log)
    (hjoins : (t.graph.request ⟨0⟩).joins = (s.graph.request ⟨0⟩).joins)
    (hroute : ∀ j ∈ (s.graph.request ⟨0⟩).joins,
      (t.graph.aliasOf j.source).route = (s.graph.aliasOf j.source).route) : ChartedAt st t log := by
  obtain ⟨chart, hchart⟩ := h
  rw [ChartedAt, hjoins]
  exact ⟨chart, hchart.congr hroute (fun _ _ => Iff.rfl) fun _ _ => Iff.rfl⟩

/-- A new node is no join. -/
lemma ChartedAt.add (h : ChartedAt st s log) (x : Node) :
    ChartedAt st { s with graph := (s.graph.add x).2 } log :=
  h.congr (by simp) (by simp)

variable {owner a : AliasId} {p : PropertyRef} {path : List PropertyRef}

/-- What resolving a reference does to the graph. -/
lemma joinReference_of_runs (hs : Ready st (.root Γ) s) {name column target : String}
    (hp : st.catalog.propertyMapping p = .ok ⟨name, column, .reference target⟩) {e : Expr}
    (hrun : Runs (resolveMember e owner p) s (.row a) t) :
    ∃ g, t = { s with graph := g } ∧
      Runs (s.mapping.joinReference ⟨0⟩ owner p column target s.widen) s.graph a g := by
  obtain ⟨r, hr, hstep⟩ := (runs_resolveMember hs.paths hs.computed).1 hrun
  obtain rfl : r = ⟨0⟩ := Option.some.inj (hr.symm.trans hs.active)
  obtain ⟨x, g, hresolve, hx, rfl⟩ := runs_resolveStep.1 hstep
  rw [Mapping.resolve_eq_locate hs.equivalents] at hresolve
  obtain ⟨stored, hstored, hkind⟩ := Mapping.runs_locate.1 hresolve
  rw [hs.catalog, hp] at hstored
  cases hstored
  obtain ⟨b, rfl, hjoin⟩ := hkind
  cases hx
  exact ⟨g, rfl, hjoin⟩

/-- **A reference that is followed is joined, with the loss of rows unless it is followed under a
disjunction.** -/
theorem Stands.reference (hs : Ready st (.root Γ) s) (h : Stands st s log s.widen path owner)
    {name column target : String}
    (hp : st.catalog.propertyMapping p = .ok ⟨name, column, .reference target⟩)
    (htypes : st.catalog.Types p) {e : Expr} (hrun : Runs (resolveMember e owner p) s (.row a) t) :
    Stands st t log s.widen (path ++ [p]) a := by
  obtain ⟨chart, hchart, rfl, howner⟩ := h
  obtain ⟨g, rfl, hjoin⟩ := joinReference_of_runs hs hp hrun
  have hroot : (⟨0⟩ : RequestId).index < s.graph.requests.size := hs.fits.request_lt
  rcases Mapping.runs_joinReference.1 hjoin with ⟨hfound, rfl⟩ | ⟨hnone, table, key, -, -, rfl, rfl⟩
  · -- the reference is joined already
    obtain ⟨⟨q, hroute⟩, -⟩ := located_of_navigated hs hfound
    obtain ⟨j, hj, rfl⟩ := List.mem_map.1 (List.mem_of_find?_eq_some hfound)
    obtain ⟨hchart', hq⟩ := hchart.chart_of_route hj hroute
    have hsame : q.same p = true := by
      have := List.find?_some hfound
      simpa [Alias.isNavigationOf, hroute] using this
    obtain rfl := hq.eq_of_same htypes hsame
    cases hwiden : s.widen with
    | false =>
      rw [hwiden] at hchart
      have hmap := hchart.again (h := s.graph) hj hchart' (f := id) (fun _ => rfl) (by simp)
        fun _ _ => rfl
      rw [List.map_id] at hmap
      rw [if_neg Bool.false_ne_true]
      exact ⟨chart, hmap, hchart', .inr ⟨j, hj, rfl⟩⟩
    | true =>
      rw [hwiden] at hchart
      have hvia : (s.graph.aliasOf j.source).via? = none := by rw [Alias.via?, hroute]
      let widened (i : Join) : Join := if i.source = j.source then { i with kind := .left } else i
      have hsource : ∀ i, (widened i).source = i.source := fun i => by
        unfold widened
        split <;> rfl
      have hkind : ∀ i ∈ (s.graph.request ⟨0⟩).joins,
          (widened i).kind = if i.source = j.source ∧ true = true then .left else i.kind := by
        intro i _
        unfold widened
        by_cases hi : i.source = j.source <;> simp [hi]
      have hjoins : ((s.graph.widenJoin ⟨0⟩ j.source).request ⟨0⟩).joins =
          (s.graph.request ⟨0⟩).joins.map widened := by
        rw [Graph.widenJoin, hvia, Graph.request_modifyRequest_self _ _ hroot]
        simp [widened]
      have hmap := hchart.again (h := s.graph.widenJoin ⟨0⟩ j.source) hj hchart' hsource hkind
        fun _ _ => rfl
      rw [if_pos rfl]
      refine ⟨chart, ?_, hchart', .inr ⟨widened j, ?_, hsource j⟩⟩
      · rw [hjoins]
        exact hmap
      · rw [hjoins]
        exact List.mem_map_of_mem hj
  · -- the reference is new
    obtain ⟨b, hb⟩ : ∃ b : AliasId, b = ⟨s.graph.aliases.size⟩ := ⟨_, rfl⟩
    rw [← hb]
    obtain ⟨G, hG⟩ : ∃ G, G = (s.graph.addAlias { Alias.ofTable table target (some key) with
        route := .navigation owner p none }).2 := ⟨_, rfl⟩
    rw [← hG]
    have hrequest : G.request ⟨0⟩ = s.graph.request ⟨0⟩ := by rw [hG]; rfl
    have hlt : ∀ i ∈ (s.graph.request ⟨0⟩).joins, i.source.index < s.graph.aliases.size :=
      fun i hi => hs.fits.sound.source_lt hi
    have hold : ∀ i ∈ (s.graph.request ⟨0⟩).joins, i.source ≠ b := by
      rintro i hi rfl
      have := hlt i hi
      rw [hb] at this
      exact this.false
    have hzero : b ≠ ⟨0⟩ := by
      rintro rfl
      have hpos : (0 : Nat) < s.graph.aliases.size := hs.fits.place_lt ⟨0⟩
      have hsize : (0 : Nat) = s.graph.aliases.size := congrArg AliasId.index hb
      omega
    let j : Join := ⟨b, .ofWiden s.widen, (G.equate owner column b key).1⟩
    have hjoins : ((G.joinEqual ⟨0⟩ b s.widen owner column b key).request ⟨0⟩).joins =
        (s.graph.request ⟨0⟩).joins ++ [j] := by
      have hsize : (⟨0⟩ : RequestId).index < (G.equate owner column b key).2.requests.size := by
        rw [Graph.requests_equate, hG]
        exact hroot
      rw [Graph.joinEqual, Graph.request_pushJoin_self _ hsize, Graph.request_equate, hrequest]
    have halias : ∀ i, (G.joinEqual ⟨0⟩ b s.widen owner column b key).aliasOf i = G.aliasOf i := by
      intro i
      rw [Graph.joinEqual, Graph.aliasOf_pushJoin, Graph.aliasOf_equate]
    have hroute : (G.aliasOf b).route = .navigation owner p none := by
      rw [hG, hb]
      simp
    have hkept : ∀ i ∈ (s.graph.request ⟨0⟩).joins,
        (G.aliasOf i.source).route = (s.graph.aliasOf i.source).route := by
      intro i hi
      rw [hG, Graph.aliasOf_addAlias_of_lt _ _ (hlt i hi)]
    have hnew : ∀ i ∈ (s.graph.request ⟨0⟩).joins, ∀ q,
        (s.graph.aliasOf i.source).route = .navigation owner q none → q.same p = false := by
      intro i hi q hq
      have := List.find?_eq_none.1 hnone i.source (List.mem_map_of_mem hi)
      simpa [Alias.isNavigationOf, hq] using this
    refine ⟨Function.update chart b (chart owner ++ [p]), ?_, Function.update_self .., .inr ⟨j, ?_, rfl⟩⟩
    · rw [hjoins]
      refine hchart.push (j := j) howner htypes hnew ?_ rfl hold hzero fun i hi => ?_
      · rw [halias]
        exact hroute
      · rw [halias]
        exact hkept i hi
    · rw [hjoins]
      simp

end References

/-! ### Rows that stay in the joins -/

namespace Store

variable {st : Store} {g : Graph} {js : List Join}

/-- A row of the base stays where every join with the loss of rows has a partner. -/
lemma keeps_iff (h : Rising js) (href : ∀ j ∈ js, g.IsReference st.catalog j) {ρ : Env} :
    st.keeps g js ρ = true ↔
      ∀ j ∈ js, j.kind = .inner → st.lands g j (st.settle g js ρ) = true := by
  refine ⟨fun hkeeps => ?_, keeps_of_lands h href⟩
  induction js generalizing ρ with
  | nil => exact fun j hj => absurd hj (List.not_mem_nil)
  | cons j js ih =>
    obtain ⟨owner, p, k, hj⟩ := href j List.mem_cons_self
    rw [keeps, Bool.and_eq_true] at hkeeps
    intro i hi hinner
    rcases List.mem_cons.1 hi with rfl | hi
    · have hlands : st.lands g i ρ = true := by simpa [hinner] using hkeeps.1
      rw [lands_eq hj, settle_owner h hj, ← lands_eq hj, hlands]
    · rw [settle_cons]
      exact ih (List.pairwise_cons.1 h).2 (fun k hk => href k (List.mem_cons_of_mem _ hk)) hkeeps.2 i hi
        hinner

/-- The rows of an entity are not empty, so that a reference leads to a row if what it leads to is
not empty. -/
lemma lands_iff (hkeys : st.Keyed) {j : Join} {owner : AliasId} {p : PropertyRef} {k : ForeignKey}
    (hj : g.Refers st.catalog j owner p k) (ρ : Env) :
    st.lands g j ρ = true ↔ st.refer (ρ owner) p ≠ [] := by
  rw [lands_eq hj, refer_eq hj.foreign]
  cases htarget : st.target? k (ρ owner) with
  | none => simp
  | some row =>
    obtain ⟨target, htable, hkey⟩ := foreignKey?_eq hj.foreign
    have hnull := (hkeys target _ _ htable hkey).1 row (List.mem_of_find?_eq_some htarget)
    simp only [Option.isSome_some, Option.getD_some, ne_eq, true_iff]
    rintro rfl
    cases hnull

end Store

section Rows

variable {st : Store} {g : Graph} {js : List Join} {chart : AliasId → List PropertyRef}
  {log : List Navigation}

/-- Joined sources stand at the ends of their chains. -/
lemma Charts.place (hg : Charts st.catalog g js chart log)
    (href : ∀ j ∈ js, g.IsReference st.catalog j) {ρ : Env}
    (hsettled : st.Settled g (js.map Join.source) ρ) {j : Join} (hj : j ∈ js) :
    ρ j.source = (chart j.source).foldl st.refer (ρ ⟨0⟩) := by
  induction hindex : j.source.index using Nat.strong_induction_on generalizing j with
  | _ n ih =>
    obtain ⟨owner, p, hroute, hchart, -, howner⟩ := hg.route j hj
    obtain ⟨owner', p', k, hj'⟩ := href j hj
    obtain ⟨rfl, rfl, -⟩ := Route.navigation.inj (hj'.route.symm.trans hroute)
    have hplace : ρ owner' = (chart owner').foldl st.refer (ρ ⟨0⟩) := by
      rcases howner with rfl | ⟨i, hi, rfl⟩
      · rw [hg.base, List.foldl_nil]
      · exact ih _ (hindex ▸ hj'.owner_lt) hi rfl
    rw [hsettled _ (List.mem_map_of_mem hj) _ _ hroute, hchart, List.foldl_append, hplace]
    rfl

/-- **A row of the base stays in the joins if the chains that are followed only outside of disjunctions
lead to rows.** -/
theorem Charts.keeps_eq (hg : Charts st.catalog g js chart log)
    (hkeys : st.Keyed) (hrising : Rising js) (href : ∀ j ∈ js, g.IsReference st.catalog j)
    (hsource : ∀ j ∈ js, 1 ≤ j.source.index) (ρ : Env) :
    st.keeps g js ρ = Navigation.anchors st log log (ρ ⟨0⟩) := by
  have hzero : st.settle g js ρ ⟨0⟩ = ρ ⟨0⟩ := by
    refine settle_of_not_mem (fun j hj heq => ?_) ρ
    have := hsource j hj
    rw [heq] at this
    exact absurd this (by decide)
  have hlands : ∀ j ∈ js, (st.lands g j (st.settle g js ρ) = true ↔
      (chart j.source).foldl st.refer (ρ ⟨0⟩) ≠ []) := by
    intro j hj
    obtain ⟨owner, p, k, hj'⟩ := href j hj
    have hsettled := settled_settle hrising href ρ
    rw [lands_iff hkeys hj', ← hsettled _ (List.mem_map_of_mem hj) owner p hj'.route,
      hg.place href hsettled hj, hzero]
  have hkind : ∀ j ∈ js, (j.kind = .inner ↔ Navigation.loosens log (chart j.source) = false) := by
    intro j hj
    have hleft := (hg.kind j hj).trans Navigation.loosens_eq_true.symm
    cases hk : j.kind <;> cases hl : Navigation.loosens log (chart j.source) <;> simp_all
  rw [Bool.eq_iff_iff, keeps_iff hrising href, Navigation.anchors_eq_true]
  constructor
  · intro hkeeps e he path hpath hne hloose
    obtain ⟨j, hj, rfl⟩ := (hg.joined path hne).2 ⟨e, he, hpath⟩
    exact (hlands j hj).1 (hkeeps j hj ((hkind j hj).2 hloose))
  · intro hanchored j hj hinner
    obtain ⟨e, he, hpath⟩ := (hg.joined _ (hg.chart_ne_nil hj)).1 ⟨j, hj, rfl⟩
    exact (hlands j hj).2 (hanchored e he _ hpath (hg.chart_ne_nil hj) ((hkind j hj).1 hinner))

end Rows

end EntityQuery
