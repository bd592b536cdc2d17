import EntityQuery.Proofs.Compile.Runs
import EntityQuery.Proofs.Filters.Growth

/-!
Where filters are compiled.

* A `Site` is a request that is being built, with what the parameters in scope stand for. Besides
  the joins it starts with, the request has joins of references only (`Fits`).
* `Step`: compilation goes on at a site. Under `widen` it adds no inner join.
* `Strict`: where a condition is true, every inner join that is new leads to a row.
* `Means`, `Tells`: a node has a value, or a truth, in every graph that comes later.
-/

namespace EntityQuery

open Sql Store

/-- A request that is being built, and the parameters in scope there. -/
structure Site where
  request : RequestId
  /-- The requests around it. -/
  around : List RequestId
  /-- The joins that the request starts with. -/
  links : List Join
  /-- The sources that are older than all references of the request. -/
  fresh : Nat
  scope : Scope
  /-- The sources that parameters stand for. -/
  place : ParamId → AliasId

namespace Site

/-- The requests that are not complete. -/
def opened (S : Site) : List RequestId := S.request :: S.around

/-- A graph in which the request of a site is being built. -/
structure Fits (S : Site) (c : Catalog) (g : Graph) : Prop where
  sound : g.Sound S.opened
  opened : ∀ q ∈ S.opened, q.index < g.requests.size
  fresh : S.fresh ≤ g.aliases.size
  place : ∀ x, (S.place x).index < S.fresh
  bound : ∀ x entity, S.scope.lookup x = some entity → g.aliasFor? S.request x = some (S.place x)
  links : ∀ j ∈ S.links, ∀ owner p via, (g.aliasOf j.source).route ≠ .navigation owner p via
  joins : ∃ refs, (g.request S.request).joins = S.links ++ refs ∧ Rising refs ∧
    ∀ j ∈ refs, g.IsReference c j ∧ S.fresh ≤ j.source.index

end Site

/-! ### Joins that stay -/

namespace Sql.Graph

variable {c : Catalog} {g h : Graph} {C : List RequestId} {A : List AliasId} {j : Join}

lemma IsReference.kept (hj : g.IsReference c j) (hgh : Kept C A g h) : h.IsReference c j := by
  obtain ⟨owner, p, k, hj⟩ := hj
  have hsource : j.source.index < g.aliases.size :=
    lt_of_route_ne (by rw [hj.route]; nofun)
  refine ⟨owner, p, k, ?_, hj.foreign, ?_, hj.owner_lt, ?_⟩
  · rw [hgh.route hsource, hj.route]
  · rw [hgh.origin hsource, hj.origin]
  · exact hgh.compares hj.condition

/-- The kind of a join plays no part. -/
lemma IsReference.of_eq {i : Join} (hi : g.IsReference c i) (hsource : j.source = i.source)
    (hcondition : j.condition = i.condition) : g.IsReference c j := by
  obtain ⟨owner, p, k, hi⟩ := hi
  refine ⟨owner, p, k, ?_, hi.foreign, ?_, ?_, ?_⟩
  · rw [hsource, hi.route]
  · rw [hsource, hi.origin]
  · rw [hsource]
    exact hi.owner_lt
  · rw [hsource, hcondition]
    exact hi.condition

lemma Sound.source_lt (hg : g.Sound C) {r : RequestId} (hj : j ∈ (g.request r).joins) :
    j.source.index < g.aliases.size := by
  refine hg.source r _ (List.mem_append_left _ (List.mem_append_right _ ?_))
  exact List.mem_map_of_mem hj

end Sql.Graph

namespace Site.Fits

variable {S : Site} {c : Catalog} {g h : Graph}

lemma request_lt (hg : S.Fits c g) : S.request.index < g.requests.size :=
  hg.opened _ List.mem_cons_self

lemma place_lt (hg : S.Fits c g) (x : ParamId) : (S.place x).index < g.aliases.size :=
  (hg.place x).trans_le hg.fresh

/-- A site stays one while its request grows. -/
lemma of_grown (hg : S.Fits c g) (hgh : Graph.Grown S.request g h) (hsound : h.Sound S.opened)
    (hjoins : ∃ refs, (h.request S.request).joins = S.links ++ refs ∧ Rising refs ∧
      ∀ j ∈ refs, h.IsReference c j ∧ S.fresh ≤ j.source.index) : S.Fits c h where
  sound := hsound
  opened q hq := (hg.opened q hq).trans_le hgh.kept.requests
  fresh := hg.fresh.trans hgh.kept.aliases
  place := hg.place
  bound x entity hx := hgh.aliasFor?_eq hg.sound (hg.bound x entity hx)
  links j hj owner p via := by
    obtain ⟨refs, hrefs, -⟩ := hg.joins
    have hlt := hg.sound.source_lt (r := S.request) (j := j) (by simp [hrefs, hj])
    rw [hgh.kept.route hlt]
    exact hg.links j hj owner p via
  joins := hjoins

/-- A site stays one while its joins stay. -/
lemma of_kept (hg : S.Fits c g) (hgh : g.Kept [S.request] [] h) (hsound : h.Sound S.opened)
    (hr : h.request S.request = g.request S.request) : S.Fits c h := by
  refine hg.of_grown (.of_kept hgh hr) hsound ?_
  obtain ⟨refs, hrefs, hrising, href⟩ := hg.joins
  exact ⟨refs, by rw [hr, hrefs], hrising, fun j hj => ⟨(href j hj).1.kept hgh, (href j hj).2⟩⟩

end Site.Fits

/-! ### Steps -/

section Steps

variable (st : Store) (S : Site)

/-- A state in which filters can be compiled at a site. -/
structure Ready (s : CompileState) : Prop where
  active : s.active = some S.request
  paths : s.paths = []
  computed : s.computed = []
  equivalents : s.mapping.equivalents = []
  catalog : s.mapping.catalog = st.catalog
  fits : S.Fits st.catalog s.graph

/-- The joins of the request that is built. -/
def Site.joins (s : CompileState) : List Join := (s.graph.request S.request).joins

/-- Compilation at a site changes the graph alone. -/
structure Step (s t : CompileState) : Prop where
  state : t = { s with graph := t.graph }
  fits : S.Fits st.catalog t.graph
  grown : s.graph.Grown S.request t.graph
  widened : s.widen = true → ∀ j ∈ S.joins t, j.kind = .inner → j ∈ S.joins s

/-- A later graph, and rows at which all references of the request are in place. -/
structure View (t : CompileState) (G : Graph) (ρ : Env) : Prop where
  kept : ∃ A, t.graph.Kept S.opened A G
  settled : st.Settled G ((S.joins t).map Join.source) ρ

/-- Where a condition is true, every inner join that is new leads to a row. -/
def Strict (s t : CompileState) (P : Env → Prop) : Prop :=
  ∀ G ρ, View st S t G ρ → P ρ →
    ∀ j ∈ S.joins t, j.kind = .inner → j ∈ S.joins s ∨ st.lands G j ρ = true

/-- The value of a node for the rows that the sources stand at. -/
def Store.valueAt (G : Graph) (n : NodeId) (ρ : Env) : Value :=
  ((G.evaluator st.engine st.database).term n).alone ρ

/-- The truth of a node; a bare column is true if its value is. -/
def Store.truthAt (G : Graph) (n : NodeId) (ρ : Env) : Option Bool :=
  if (G.node n).isColumn then st.engine.equal (st.valueAt G n ρ) (.boolean true)
  else truthOf (st.valueAt G n ρ)

/-- A node has a value, whatever comes later. -/
structure Means (t : CompileState) (n : NodeId) (f : Env → Value) : Prop where
  lt : n.index < t.graph.entries.size
  notNull : (t.graph.node n).isNull = false
  value : ∀ G μ ρ, G.Ranked μ → View st S t G ρ → st.valueAt G n ρ = f ρ

/-- A node has a truth, whatever comes later. -/
structure Tells (t : CompileState) (n : NodeId) (f : Env → Option Bool) : Prop where
  lt : n.index < t.graph.entries.size
  notNull : (t.graph.node n).isNull = false
  truth : ∀ G μ ρ, G.Ranked μ → View st S t G ρ → st.truthAt G n ρ = f ρ

end Steps

variable {st : Store} {S : Site} {s t u : CompileState}

namespace Step

lemma refl (hs : Ready st S s) : Step st S s s :=
  ⟨rfl, hs.fits, .refl _ _, fun _ _ hj _ => hj⟩

lemma trans (hst : Step st S s t) (htu : Step st S t u) : Step st S s u := by
  refine ⟨?_, htu.fits, hst.grown.trans htu.grown, fun hwiden j hj hkind => ?_⟩
  · rw [htu.state, hst.state]
  · have hwiden' : t.widen = true := by rw [hst.state, hwiden]
    exact hst.widened hwiden j (htu.widened hwiden' j hj hkind) hkind

lemma ready (hst : Step st S s t) (hs : Ready st S s) : Ready st S t := by
  rw [hst.state]
  exact { hs with fits := hst.fits }

lemma widen_eq (hst : Step st S s t) : t.widen = s.widen := by rw [hst.state]

/-- What can be seen later could be seen before. -/
lemma view (hst : Step st S s t) {G : Graph} {ρ : Env} (hv : View st S t G ρ) :
    View st S s G ρ := by
  obtain ⟨A, hkept⟩ := hv.kept
  refine ⟨⟨A, ?_⟩, ?_⟩
  · refine Graph.Kept.trans (hst.grown.kept.mono ?_ ?_) hkept
    · exact fun q hq _ => List.mem_cons.2 (.inl (List.mem_singleton.1 hq))
    · exact fun a ha => absurd ha (List.not_mem_nil)
  · intro a ha
    obtain ⟨added, hadded, -⟩ := hst.grown.sources
    refine hv.settled a ?_
    rw [Site.joins, hadded]
    exact List.mem_append_left _ ha

end Step

namespace Strict

variable {P Q : Env → Prop}

lemma mono (h : Strict st S s t P) (hPQ : ∀ G ρ, View st S t G ρ → Q ρ → P ρ) :
    Strict st S s t Q :=
  fun G ρ hv hQ => h G ρ hv (hPQ G ρ hv hQ)

lemma trans (h : Strict st S s t P) (htu : Step st S t u) (h' : Strict st S t u Q) :
    Strict st S s u fun ρ => P ρ ∧ Q ρ := by
  intro G ρ hv hPQ j hj hkind
  rcases h' G ρ hv hPQ.2 j hj hkind with hj' | hland
  · exact h G ρ (htu.view hv) hPQ.1 j hj' hkind
  · exact .inr hland

/-- No inner join is new where the joins are the same. -/
lemma of_joins (h : S.joins t = S.joins s) : Strict st S s t P :=
  fun _ _ _ _ _ hj _ => .inl (h ▸ hj)

/-- No inner join is new under `widen`. -/
lemma of_widen (hst : Step st S s t) (hwiden : s.widen = true) : Strict st S s t P :=
  fun _ _ _ _ j hj hkind => .inl (hst.widened hwiden j hj hkind)

end Strict

lemma Means.step {n : NodeId} {f : Env → Value} (hn : Means st S s n f) (hst : Step st S s t) :
    Means st S t n f where
  lt := hn.lt.trans_le hst.grown.kept.entries
  notNull := by rw [hst.grown.kept.node n hn.lt, hn.notNull]
  value G μ ρ hμ hv := hn.value G μ ρ hμ (hst.view hv)

lemma Tells.step {n : NodeId} {f : Env → Option Bool} (hn : Tells st S s n f)
    (hst : Step st S s t) : Tells st S t n f where
  lt := hn.lt.trans_le hst.grown.kept.entries
  notNull := by rw [hst.grown.kept.node n hn.lt, hn.notNull]
  truth G μ ρ hμ hv := hn.truth G μ ρ hμ (hst.view hv)

lemma View.node {G : Graph} {ρ : Env} (hv : View st S t G ρ) {n : NodeId}
    (hn : n.index < t.graph.entries.size) : G.node n = t.graph.node n := by
  obtain ⟨A, hkept⟩ := hv.kept
  exact hkept.node n hn

/-! ### New nodes -/

section Add

variable {x : Node} (hs : Ready st S s) (hx : ∀ c ∈ x.children, c.index < s.graph.entries.size)
  (hsub : ∀ r, x ≠ .sub r)
include hs hx hsub

/-- A new node is a step. -/
lemma step_add : Step st S s { s with graph := (s.graph.add x).2 } where
  state := rfl
  fits := hs.fits.of_kept (.add _ _ s.graph x)
    (hs.fits.sound.add hx fun r hr => absurd hr (hsub r)) (by simp)
  grown := .of_kept (.add _ _ s.graph x) (by simp)
  widened _ _ hj _ := by simpa [Site.joins] using hj

/-- A new node means what the rule for it says. -/
lemma means_add (hnull : x.isNull = false) {f : Env → Value}
    (hf : ∀ G μ ρ, G.Ranked μ → View st S s G ρ → G.node ⟨s.graph.entries.size⟩ = x →
      st.valueAt G ⟨s.graph.entries.size⟩ ρ = f ρ) :
    Means st S { s with graph := (s.graph.add x).2 } ⟨s.graph.entries.size⟩ f where
  lt := by simp
  notNull := by simpa using hnull
  value G μ ρ hμ hv := by
    refine hf G μ ρ hμ ((step_add hs hx hsub).view hv) ?_
    rw [hv.node (by simp)]
    simp

end Add

lemma joins_add (S : Site) (s : CompileState) (x : Node) :
    S.joins { s with graph := (s.graph.add x).2 } = S.joins s := by simp [Site.joins]

end EntityQuery
