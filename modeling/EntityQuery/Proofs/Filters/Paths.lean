import EntityQuery.Compile.Statement
import EntityQuery.Proofs.Catalog.Validated
import EntityQuery.Proofs.Filters.Site

/-!
Members that filters read.

* `runs_reference`: a reference is joined once, and a join that exists is widened if it has to be.
* `Locates`, `Yields`: what compilation makes of the expression of a row and of a value, at every
  site with some scope.
-/

namespace EntityQuery

open Sql Store Compile

/-! ### References -/

section References

variable {st : Store} {S : Site} {s : CompileState}

/-- A new alias over a table is a step. -/
lemma step_addAlias (hs : Ready st S s) {d : Alias} (hd : ∀ r, d.origin ≠ .request r) :
    Step st S s { s with graph := (s.graph.addAlias d).2 } where
  state := rfl
  fits := hs.fits.of_kept (.addAlias _ _ s.graph d) (hs.fits.sound.addAlias hd) rfl
  grown := .of_kept (.addAlias _ _ s.graph d) rfl
  widened _ _ hj _ := hj

/-- A new condition on two columns is a step. -/
lemma step_equate (hs : Ready st S s) (a : AliasId) (c : String) (b : AliasId) (c' : String) :
    Step st S s { s with graph := (s.graph.equate a c b c').2 } where
  state := rfl
  fits := hs.fits.of_kept (.equate s.graph a c b c') (hs.fits.sound.equate a c b c') (by simp)
  grown := .of_kept (.equate s.graph a c b c') (by simp)
  widened _ j hj _ := by simpa [Site.joins] using hj

/-- The join of a new reference is a step. -/
lemma step_pushJoin (hs : Ready st S s) {j : Join} (hj : s.graph.IsReference st.catalog j)
    (hsource : j.source.index < s.graph.aliases.size) (hfresh : S.fresh ≤ j.source.index)
    (hparams : (s.graph.aliasOf j.source).params = [])
    (hcondition : j.condition.index < s.graph.entries.size)
    (hnew : ∀ i ∈ S.joins s, i.source.index < j.source.index)
    (hkind : s.widen = true → j.kind = .left) :
    Step st S s { s with graph := s.graph.pushJoin S.request j } := by
  have hr := s.graph.request_pushJoin_self hs.fits.request_lt j
  have hkept : s.graph.Kept [S.request] [] (s.graph.pushJoin S.request j) :=
    .pushJoin s.graph List.mem_cons_self j
  have hsound := hs.fits.sound.pushJoin List.mem_cons_self hsource hcondition
  have hgrown : s.graph.Grown S.request (s.graph.pushJoin S.request j) := by
    refine ⟨hkept, by rw [hr], [j.source], by simp [hr], ?_⟩
    intro a ha
    rw [List.mem_singleton.1 ha]
    exact ⟨hsource, hparams⟩
  refine ⟨rfl, hs.fits.of_grown hgrown hsound ?_, hgrown, ?_⟩
  · obtain ⟨refs, hrefs, hrising, href⟩ := hs.fits.joins
    have hmem : ∀ i ∈ refs, i ∈ S.joins s := fun i hi => by simp [Site.joins, hrefs, hi]
    refine ⟨refs ++ [j], by simp [hr, hrefs], ?_, ?_⟩
    · refine List.pairwise_append.2 ⟨hrising, List.pairwise_singleton _ _, fun i hi k hk => ?_⟩
      rw [List.mem_singleton.1 hk]
      exact hnew i (hmem i hi)
    · intro i hi
      rcases List.mem_append.1 hi with hi | hi
      · exact ⟨(href i hi).1.kept hkept, (href i hi).2⟩
      · rw [List.mem_singleton.1 hi]
        exact ⟨hj.kept hkept, hfresh⟩
  · intro hwiden i hi hinner
    rw [Site.joins, hr] at hi
    rcases List.mem_append.1 hi with hi | hi
    · exact hi
    · rw [List.mem_singleton.1 hi, hkind hwiden] at hinner
      cases hinner

/-- Letting rows without a partner stay is a step. -/
lemma step_widenJoin (hs : Ready st S s) {a owner : AliasId} {p : PropertyRef}
    (ha : (s.graph.aliasOf a).route = .navigation owner p none) :
    Step st S s { s with graph := s.graph.widenJoin S.request a } := by
  let widened (j : Join) : Join := if j.source = a then { j with kind := .left } else j
  have hsource : ∀ j, (widened j).source = j.source := fun j => by
    unfold widened
    split <;> rfl
  have hcondition : ∀ j, (widened j).condition = j.condition := fun j => by
    unfold widened
    split <;> rfl
  have hgraph : s.graph.widenJoin S.request a =
      s.graph.modifyRequest S.request fun q => { q with joins := q.joins.map widened } := by
    have hvia : (s.graph.aliasOf a).via? = none := by rw [Alias.via?, ha]
    simp [Graph.widenJoin, hvia, widened]
  rw [hgraph]
  have hr := s.graph.request_modifyRequest_self
    (fun q => { q with joins := q.joins.map widened }) hs.fits.request_lt
  have hkept : s.graph.Kept [S.request] [] (s.graph.modifyRequest S.request
      fun q => { q with joins := q.joins.map widened }) :=
    .modifyRequest s.graph List.mem_cons_self _
  have hsound : (s.graph.modifyRequest S.request
      fun q => { q with joins := q.joins.map widened }).Sound S.opened := by
    refine hs.fits.sound.modifyRequest List.mem_cons_self (fun n hn => ?_) fun b hb => ?_
    · refine hs.fits.sound.clause S.request n ?_
      simpa [Request.mem_clauseNodes, hcondition] using hn
    · refine hs.fits.sound.source S.request b ?_
      simpa [Request.mem_origins, hsource] using hb
  have hgrown : s.graph.Grown S.request (s.graph.modifyRequest S.request
      fun q => { q with joins := q.joins.map widened }) := by
    refine ⟨hkept, by rw [hr], [], by simp [hr, hsource], fun _ ha => ?_⟩
    exact absurd ha (List.not_mem_nil)
  refine ⟨rfl, hs.fits.of_grown hgrown hsound ?_, hgrown, ?_⟩
  · obtain ⟨refs, hrefs, hrising, href⟩ := hs.fits.joins
    -- no link is the source of a navigation
    have hlinks : S.links.map widened = S.links := by
      have hid : S.links.map widened = S.links.map id := by
        refine List.map_congr_left fun j hj => if_neg ?_
        rintro rfl
        exact hs.fits.links j hj owner p none ha
      rw [hid, List.map_id]
    refine ⟨refs.map widened, by simp [hr, hrefs, hlinks], ?_, ?_⟩
    · refine List.pairwise_map.2 (hrising.imp fun hij => ?_)
      rwa [hsource, hsource]
    · intro j hj
      obtain ⟨i, hi, rfl⟩ := List.mem_map.1 hj
      have hi' := (href i hi).1.kept hkept
      exact ⟨hi'.of_eq (hsource i) (hcondition i), (hsource i).symm ▸ (href i hi).2⟩
  · intro _ j hj hinner
    rw [Site.joins, hr] at hj
    obtain ⟨i, hi, rfl⟩ := List.mem_map.1 hj
    have hkeep : widened i = i := by
      by_cases hia : i.source = a
      · simp [widened, hia] at hinner
      · exact if_neg hia
    rw [hkeep]
    exact hi

/-- What resolving a property of a row at a site does, if it succeeds in the mapping. -/
lemma runs_member (hs : Ready st S s) {owner : AliasId} {p : PropertyRef} {x : Resolved} {g : Graph}
    (h : Runs (s.mapping.locate S.request owner p s.widen) s.graph x g) (e : Expr) :
    Runs (resolveMember e owner p) s (meaningOf x) { s with graph := g } := by
  refine (runs_resolveMember hs.paths hs.computed).2 ⟨S.request, hs.active, ?_⟩
  refine runs_resolveStep.2 ⟨x, g, ?_, rfl, rfl⟩
  rw [Mapping.resolve_eq_locate hs.equivalents]
  exact h

lemma refer_of_same {p q : PropertyRef} (h : p.same q = true) (row : Row) :
    st.refer row p = st.refer row q := by
  simp [Store.refer, Catalog.foreignKey?, Catalog.propertyMapping_of_same _ h]

/-- What there is to know about the row that a reference stands for. -/
structure Located (st : Store) (S : Site) (s t : CompileState) (a : AliasId) (f : Env → Row) :
    Prop where
  step : Step st S s t
  lt : a.index < t.graph.aliases.size
  place : ∀ G ρ, View st S t G ρ → ρ a = f ρ
  strict : Strict st S s t fun ρ => f ρ ≠ []

variable {owner : AliasId} {p : PropertyRef}

/-- A reference that is joined already stands for the row it has joined. -/
lemma located_of_navigated (hs : Ready st S s) {a : AliasId}
    (ha : s.graph.navigated? S.request owner p = some a) :
    (∃ q, (s.graph.aliasOf a).route = .navigation owner q none) ∧
      Located st S s s a fun ρ => st.refer (ρ owner) p := by
  obtain ⟨refs, hrefs, -, href⟩ := hs.fits.joins
  have hnavigation : (s.graph.aliasOf a).isNavigationOf owner p = true := by
    simpa using List.find?_some ha
  obtain ⟨j, hj, rfl⟩ := List.mem_map.1 (List.mem_of_find?_eq_some ha)
  -- a link is no navigation
  have hj' : j ∈ refs := by
    rw [hrefs] at hj
    refine (List.mem_append.1 hj).resolve_left fun hlink => ?_
    cases hroute : (s.graph.aliasOf j.source).route with
    | navigation o q via => exact hs.fits.links j hlink o q via hroute
    | root => simp [Alias.isNavigationOf, hroute] at hnavigation
    | link o q => simp [Alias.isNavigationOf, hroute] at hnavigation
  obtain ⟨owner', q, k, hj''⟩ := (href j hj').1
  obtain ⟨howner, hsame⟩ : owner' = owner ∧ q.same p = true := by
    simpa [Alias.isNavigationOf, hj''.route] using hnavigation
  subst howner
  refine ⟨⟨q, hj''.route⟩, .refl hs, hs.fits.sound.source_lt hj, fun G ρ hv => ?_, .of_joins rfl⟩
  obtain ⟨A, hkept⟩ := hv.kept
  have hroute := (hkept.route (hs.fits.sound.source_lt hj)).trans hj''.route
  rw [hv.settled _ (List.mem_map_of_mem hj) _ _ hroute, refer_of_same hsame]

/-- Where an inner join of a reference is new, it leads to a row if the row is there. -/
lemma lands_of_refer {G : Graph} {j : Join} {ρ : Env}
    (hroute : (G.aliasOf j.source).route = .navigation owner p none)
    (hrefer : st.refer (ρ owner) p ≠ []) : st.lands G j ρ = true := by
  rw [Store.lands, hroute]
  dsimp only
  rw [Store.refer] at hrefer
  cases htarget : (st.catalog.foreignKey? p).bind (st.target? · (ρ owner)) with
  | none => simp [htarget] at hrefer
  | some row => rfl

/-- The alias of a new reference. -/
def referenceAlias (owner : AliasId) (p : PropertyRef) (target : String) (k : ForeignKey) : Alias :=
  { Alias.ofTable k.table target (some k.key) with route := .navigation owner p none }

/-- A reference that is not joined yet stands for the row that it joins. -/
lemma located_refer (hs : Ready st S s) (howner : owner.index < s.graph.aliases.size)
    {k : ForeignKey} (hk : st.catalog.foreignKey? p = some k) {target : String} {g : Graph}
    (hg : g = (s.graph.addAlias (referenceAlias owner p target k)).2.joinEqual S.request
      ⟨s.graph.aliases.size⟩ s.widen owner k.column ⟨s.graph.aliases.size⟩ k.key) :
    Located st S s { s with graph := g } ⟨s.graph.aliases.size⟩ fun ρ => st.refer (ρ owner) p := by
  let a : AliasId := ⟨s.graph.aliases.size⟩
  let s₁ : CompileState := { s with graph := (s.graph.addAlias (referenceAlias owner p target k)).2 }
  let s₂ : CompileState := { s₁ with graph := (s₁.graph.equate owner k.column a k.key).2 }
  let j : Join := ⟨a, .ofWiden s.widen, (s₁.graph.equate owner k.column a k.key).1⟩
  let t : CompileState := { s₂ with graph := s₂.graph.pushJoin S.request j }
  have h₁ : Step st S s s₁ := step_addAlias hs fun r hr => by cases hr
  have h₂ : Step st S s₁ s₂ := step_equate (h₁.ready hs) owner k.column a k.key
  have halias : s₂.graph.aliasOf a =
      { referenceAlias owner p target k with name := "t" ++ toString s.graph.aliases.size } := by
    simp [s₂, s₁, a]
  have hsize : s₂.graph.aliases.size = s.graph.aliases.size + 1 := by simp [s₂, s₁]
  have hj : s₂.graph.IsReference st.catalog j := by
    refine ⟨owner, p, k, ?_, hk, ?_, howner, s₁.graph.compares_equate owner k.column a k.key⟩
    · rw [halias]
      rfl
    · rw [halias]
      rfl
  have hjoins : S.joins s₂ = S.joins s := by simp [Site.joins, s₂, s₁]
  have h₃ : Step st S s₂ t := by
    refine step_pushJoin (h₂.ready (h₁.ready hs)) hj ?_ hs.fits.fresh ?_ ?_ ?_ ?_
    · rw [hsize]
      exact Nat.lt_succ_self _
    · rw [halias]
      rfl
    · simp [j, s₂]
    · intro i hi
      rw [hjoins] at hi
      exact hs.fits.sound.source_lt hi
    · intro hwiden
      have hwiden' : s.widen = true := hwiden
      simp [j, JoinKind.ofWiden, hwiden']
  have hjoins' : S.joins t = S.joins s ++ [j] := by
    rw [Site.joins, Graph.request_pushJoin_self _ h₂.fits.request_lt]
    exact congrArg (· ++ [j]) hjoins
  have hroute : ∀ G ρ, View st S t G ρ → (G.aliasOf a).route = .navigation owner p none := by
    intro G ρ hv
    obtain ⟨A, hkept⟩ := hv.kept
    have hlt : a.index < s₂.graph.aliases.size := by rw [hsize]; exact Nat.lt_succ_self _
    refine (hkept.route hlt).trans ?_
    rw [Graph.aliasOf_pushJoin, halias]
    rfl
  rw [hg]
  change Located st S s t a _
  refine ⟨(h₁.trans h₂).trans h₃, ?_, fun G ρ hv => ?_, fun G ρ hv hrefer i hi hkind => ?_⟩
  · change a.index < s₂.graph.aliases.size
    rw [hsize]
    exact Nat.lt_succ_self _
  · refine hv.settled a ?_ owner p (hroute G ρ hv)
    rw [hjoins']
    simp [j]
  · have hi' : i ∈ S.joins s ++ [j] := hjoins' ▸ hi
    rcases List.mem_append.1 hi' with hi' | hi'
    · exact .inl hi'
    · refine .inr (lands_of_refer ?_ hrefer)
      rw [List.mem_singleton.1 hi']
      exact hroute G ρ hv

lemma foreignKey?_of_reference {c : Catalog} (hc : c.validate = .ok ()) {name column target : String}
    (hp : c.propertyMapping p = .ok ⟨name, column, .reference target⟩) :
    ∃ k, c.foreignKey? p = some k ∧ k.column = column ∧ c.tableName target = .ok k.table ∧
      c.idColumn target = .ok k.key := by
  obtain ⟨⟨table, key, htable, hkey⟩, -⟩ := Catalog.target_of_validate hc hp rfl
  refine ⟨⟨column, table, key⟩, ?_, rfl, htable, hkey⟩
  simp [Catalog.foreignKey?, hp, htable, hkey, Except.toOption]

/-- **A reference of a row stands for the row it points to.** -/
theorem runs_reference (hc : st.catalog.validate = .ok ()) (hs : Ready st S s)
    (howner : owner.index < s.graph.aliases.size) {name column target : String}
    (hp : st.catalog.propertyMapping p = .ok ⟨name, column, .reference target⟩) (e : Expr) :
    ∃ a t, Runs (resolveMember e owner p) s (.row a) t ∧
      Located st S s t a fun ρ => st.refer (ρ owner) p := by
  obtain ⟨k, hk, rfl, htable, hkey⟩ := foreignKey?_of_reference hc hp
  rw [← hs.catalog] at hp htable hkey
  have hlocate : ∀ a g, Runs (s.mapping.joinReference S.request owner p k.column target s.widen)
      s.graph a g → Runs (s.mapping.locate S.request owner p s.widen) s.graph (.row a) g :=
    fun a g h => Mapping.runs_locate.2 ⟨_, hp, a, rfl, h⟩
  cases ha : s.graph.navigated? S.request owner p with
  | some a =>
    obtain ⟨⟨q, hroute⟩, hlocated⟩ := located_of_navigated hs ha
    have hrun := hlocate a _ (Mapping.runs_joinReference.2 (.inl ⟨ha, rfl⟩))
    cases hwiden : s.widen with
    | false =>
      rw [hwiden, if_neg Bool.false_ne_true] at hrun
      exact ⟨a, _, runs_member hs (hwiden ▸ hrun) e, hlocated⟩
    | true =>
      have hstep := step_widenJoin hs hroute
      rw [hwiden, if_pos rfl] at hrun
      exact ⟨a, _, runs_member hs (hwiden ▸ hrun) e, hstep, hlocated.lt,
        fun G ρ hv => hlocated.place G ρ (hstep.view hv), .of_widen hstep hwiden⟩
  | none =>
    have hrun := hlocate _ _ (Mapping.runs_joinReference.2
      (.inr ⟨ha, k.table, k.key, htable, hkey, rfl, rfl⟩))
    exact ⟨_, _, runs_member hs hrun e, located_refer hs howner hk rfl⟩

end References

/-! ### Expressions of rows -/

section Rows

variable {st : Store} {S : Site}

/-- At a site, an expression stands for a row. -/
def Locates (st : Store) (S : Site) (e : Expr) (f : Env → Row) : Prop :=
  ∀ s fuel, Ready st S s → e.depth ≤ fuel →
    ∃ a t, Runs (visit [] fuel e) s (.row a) t ∧ Located st S s t a f

/-- Fuel for an expression is fuel for its parts. -/
lemma fuel_succ {e : Expr} {fuel : Nat} (h : e.depth ≤ fuel) : ∃ k, fuel = k + 1 := by
  have hpos : 0 < e.depth := by cases e <;> simp [Expr.depth]
  exact ⟨fuel - 1, by omega⟩

lemma visit_succ (fuel : Nat) (e : Expr) : visit [] (fuel + 1) e = step (visit [] fuel) e := rfl

/-- A parameter in scope stands for its row. -/
lemma locates_param {x : Param} {entity : String} (hx : S.scope.lookup x.id = some entity) :
    Locates st S (.param x) fun ρ => ρ (S.place x.id) := by
  intro s fuel hs hfuel
  obtain ⟨fuel, rfl⟩ := fuel_succ hfuel
  refine ⟨S.place x.id, s, ?_, .refl hs, hs.fits.place_lt x.id, fun _ _ _ => rfl, .of_joins rfl⟩
  rw [visit_succ]
  refine Runs.bind (runs_active.2 ⟨hs.active, rfl⟩) (Runs.bind (runs_graph.2 ⟨rfl, rfl⟩) ?_)
  rw [hs.fits.bound x.id entity hx]
  exact runs_pure.2 ⟨rfl, rfl⟩

lemma Member.rowExpr_ne_key (m : Member) (k : Expr) : m.rowExpr ≠ .key k := by
  rw [rowExpr]
  induction m.path using List.reverseRecOn <;> simp

lemma refer_nil (p : PropertyRef) : st.refer [] p = [] := by
  rw [Store.refer]
  cases st.catalog.foreignKey? p with
  | none => rfl
  | some k =>
    rw [Option.bind_some, Store.target?_nil]
    rfl

/-- What a member of an expression stands for, if the expression stands for a row. -/
lemma runs_visit_member {e : Expr} (hkey : ∀ k, e ≠ .key k) {p : PropertyRef} {fuel : Nat}
    {s t u : CompileState} {a : AliasId} {m : Meaning} (he : Runs (visit [] fuel e) s (.row a) t)
    (hm : Runs (resolveMember (.member e p) a p) t m u) :
    Runs (visit [] (fuel + 1) (.member e p)) s m u := by
  rw [visit_succ, step]
  cases e with
  | key k => exact absurd rfl (hkey k)
  | _ => exact Runs.bind he hm

lemma stored?_eq_some {c : Catalog} {entity : String} {p : PropertyRef} {m : PropertyMapping}
    (h : c.stored? entity p = some m) : c.propertyMapping p = .ok m ∧ p.type = m.type := by
  unfold Catalog.stored? at h
  split at h
  · cases hp : c.propertyMapping p with
    | error e => simp [hp] at h
    | ok m' =>
      by_cases htype : p.type = m'.type
      · simp only [hp, htype, if_pos, Option.some.injEq] at h
        exact ⟨by rw [h], by rw [htype, h]⟩
      · simp [hp, htype] at h
  · cases h

variable (hc : st.catalog.validate = .ok ())
include hc

lemma locates_reference {e : Expr} {f : Env → Row} (he : Locates st S e f) (hkey : ∀ k, e ≠ .key k)
    {p : PropertyRef} {name column target : String}
    (hp : st.catalog.propertyMapping p = .ok ⟨name, column, .reference target⟩) :
    Locates st S (.member e p) fun ρ => st.refer (f ρ) p := by
  intro s fuel hs hfuel
  obtain ⟨fuel, rfl⟩ := fuel_succ hfuel
  rw [Expr.depth] at hfuel
  obtain ⟨a, t, hrun, ha⟩ := he s fuel hs (Nat.le_of_succ_le_succ hfuel)
  obtain ⟨b, u, hrun', hb⟩ := runs_reference hc (ha.step.ready hs) ha.lt hp (.member e p)
  have hplace : ∀ G ρ, View st S u G ρ → ρ a = f ρ := fun G ρ hv => ha.place G ρ (hb.step.view hv)
  refine ⟨b, u, runs_visit_member hkey hrun hrun', ha.step.trans hb.step, hb.lt, fun G ρ hv => ?_, ?_⟩
  · rw [hb.place G ρ hv, hplace G ρ hv]
  · refine (ha.strict.trans hb.step hb.strict).mono fun G ρ hv hrefer => ⟨fun hnil => ?_, ?_⟩
    · rw [hnil, refer_nil] at hrefer
      exact hrefer rfl
    · rwa [hplace G ρ hv]

/-- References in a row stand for the row at their end. -/
lemma locates_path {path : List PropertyRef} {e : Expr} {f : Env → Row} (he : Locates st S e f)
    (hkey : ∀ k, e ≠ .key k) {entity target : String}
    (hpath : st.catalog.follow? entity path = some target) :
    Locates st S (path.foldl Expr.member e) fun ρ => path.foldl st.refer (f ρ) := by
  induction path generalizing e f entity with
  | nil => exact he
  | cons p path ih =>
    rw [Catalog.follow?] at hpath
    split at hpath
    · rename_i name column next hp
      exact ih (locates_reference hc he hkey (stored?_eq_some hp).1) (by simp) hpath
    · cases hpath

/-- The references of a member stand for the row at their end. -/
lemma locates_member {m : Member} {stored : PropertyMapping}
    (hm : st.catalog.member? S.scope m = some stored) :
    st.catalog.propertyMapping m.property = .ok stored ∧ m.property.type = stored.type ∧
      Locates st S m.rowExpr fun ρ => m.row st fun x => ρ (S.place x) := by
  obtain ⟨entity, hentity, hrest⟩ := Option.bind_eq_some_iff.1 hm
  obtain ⟨target, htarget, hstored⟩ := Option.bind_eq_some_iff.1 hrest
  obtain ⟨hproperty, htype⟩ := stored?_eq_some hstored
  exact ⟨hproperty, htype, locates_path hc (locates_param hentity) (by simp) htarget⟩

end Rows

/-! ### Expressions of values -/

section Values

variable {st : Store} {S : Site}

/-- What there is to know about a value. -/
structure Valued (st : Store) (S : Site) (s t : CompileState) (n : NodeId) (f : Env → Value) :
    Prop where
  step : Step st S s t
  means : Means st S t n f
  strict : Strict st S s t fun ρ => (f ρ).isNull = false

/-- At a site, an expression stands for a value. -/
def Yields (st : Store) (S : Site) (e : Expr) (f : Env → Value) : Prop :=
  ∀ s fuel, Ready st S s → e.depth ≤ fuel →
    ∃ n t, Runs (visit [] fuel e) s (.value n) t ∧ Valued st S s t n f

/-- A new constant means itself. -/
lemma valued_const {s : CompileState} (hs : Ready st S s) {v : Value} (hv : v.isNull = false) :
    Valued st S s { s with graph := (s.graph.add (.const v)).2 } ⟨s.graph.entries.size⟩
      fun _ => v where
  step := step_add hs (by simp [Node.children]) (by simp)
  means := means_add (x := .const v) hs (by simp [Node.children]) (by simp) hv
    fun G _ ρ hμ _ hnode => G.value_const hμ ρ [ρ] hnode
  strict := .of_joins (joins_add S s _)

lemma yields_const {v : Value} (hv : v.isNull = false) :
    Yields st S (.const (.value v)) fun _ => v := by
  intro s fuel hs hfuel
  obtain ⟨fuel, rfl⟩ := fuel_succ hfuel
  refine ⟨_, _, ?_, valued_const hs hv⟩
  exact Runs.map (runs_add.2 ⟨rfl, rfl⟩)

variable (hc : st.catalog.validate = .ok ())
include hc

/-- A scalar member stands for its column. -/
lemma runs_scalar {m : Member} (hm : (st.catalog.member? S.scope m).any PropertyMapping.isScalar)
    {s : CompileState} {fuel : Nat} (hs : Ready st S s) (hfuel : m.expr.depth ≤ fuel) :
    ∃ n t, Runs (visit [] fuel m.expr) s (.value n) t ∧ (t.graph.node n).isColumn = true ∧
      Valued st S s t n fun ρ => m.value st fun x => ρ (S.place x) := by
  obtain ⟨fuel, rfl⟩ := fuel_succ hfuel
  cases hstored : st.catalog.member? S.scope m with
  | none => simp [hstored] at hm
  | some stored =>
    obtain ⟨hp, -, hrow⟩ := locates_member hc hstored
    have hcolumn : st.catalog.columnName m.property = .ok stored.column := by
      rw [Catalog.columnName, hp]
      rfl
    have hvalue : ∀ rows, m.value st rows = (m.row st rows).value stored.column := by
      intro rows
      rw [Member.value, hcolumn]
    have hdepth : m.expr.depth = m.rowExpr.depth + 1 := by rw [Member.expr, Expr.depth]
    obtain ⟨a, t, hrun, ha⟩ := hrow s fuel hs (by omega)
    have ht := ha.step.ready hs
    have hlocate : Runs (t.mapping.locate S.request a m.property t.widen) t.graph
        (.value ⟨t.graph.entries.size⟩) (t.graph.add (.column a stored.column)).2 := by
      refine Mapping.runs_locate_scalar (by rw [ht.catalog, hp]) ?_
      rwa [hstored, Option.any_some] at hm
    have hstep := step_add (x := .column a stored.column) ht (by simp [Node.children]) (by simp)
    refine ⟨⟨t.graph.entries.size⟩, _, runs_visit_member m.rowExpr_ne_key hrun
      (runs_member ht hlocate _), by simp [Node.isColumn], ha.step.trans hstep, ?_, ?_⟩
    · refine means_add ht (by simp [Node.children]) (by simp) rfl fun G μ ρ hμ hv hnode => ?_
      rw [Store.valueAt, Term.alone, G.value_column hμ ρ [ρ] hnode, ha.place G ρ hv, hvalue]
    · refine (ha.strict.trans hstep (.of_joins (P := fun _ => True) (joins_add S t _))).mono
        fun G ρ _ hnull => ⟨fun hnil => ?_, trivial⟩
      rw [hvalue, hnil] at hnull
      cases hnull

/-- An operand stands for its value. -/
lemma yields_operand {o : Operand} (ho : o.typed st.catalog S.scope) :
    Yields st S o.expr fun ρ => o.value st fun x => ρ (S.place x) := by
  cases o with
  | const v => exact yields_const (by simpa [Operand.typed] using ho)
  | member m =>
    intro s fuel hs hfuel
    obtain ⟨n, t, hrun, -, hn⟩ := runs_scalar hc ho hs hfuel
    exact ⟨n, t, hrun, hn⟩

end Values

end EntityQuery
