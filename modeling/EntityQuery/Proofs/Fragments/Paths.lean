import EntityQuery.Proofs.Joining.Steps

/-!
Paths of navigations, walked and read back.

* `Leads`: the navigations that lead from an anchor to an alias, along the routes of the aliases
  between them. Aliases on the way are younger than the anchor, so that none of them is the anchor.
* Walking a path of navigations succeeds and ends at an alias that the path leads to, whether its
  steps find joins or add them.
* What `pathFrom?` reads back is the path, property by property.
-/

namespace EntityQuery

open Sql

/-! ### Properties without types -/

namespace PropertyRef

/-- A property by its owner and its name. -/
def untyped (p : PropertyRef) : PropertyRef := { p with type := .object "" }

variable {p q : PropertyRef}

lemma untyped_eq (h : p.same q = true) : p.untyped = q.untyped := by
  obtain ⟨howner, hname⟩ := same_iff.1 h
  rw [untyped, howner, hname, untyped]

end PropertyRef

/-- Whether a property is mapped to a navigation. -/
def Catalog.isNavigation (c : Catalog) (p : PropertyRef) : Bool :=
  match c.propertyMapping p with
  | .ok stored => stored.target?.isSome
  | .error _ => false

lemma Catalog.isNavigation_iff {c : Catalog} {p : PropertyRef} :
    c.isNavigation p = true ↔ ∃ stored, c.propertyMapping p = .ok stored ∧ stored.target?.isSome := by
  unfold isNavigation
  cases c.propertyMapping p <;> simp

/-! ### Routes -/

namespace Sql.Graph

/-- Whether every navigation starts at an older alias. -/
def OlderOwners (g : Graph) : Prop :=
  ∀ a owner p via, (g.aliasOf a).route = .navigation owner p via → owner.index < a.index

/-- A path of navigations leads from an anchor to an alias. -/
inductive Leads (g : Graph) (anchor : AliasId) : List PropertyRef → AliasId → Prop
  | nil : Leads g anchor [] anchor
  | snoc {path : List PropertyRef} {b a : AliasId} {p : PropertyRef} (hb : Leads g anchor path b)
      (ha : (g.aliasOf a).isNavigationOf b p = true) (hlt : b.index < a.index) :
      Leads g anchor (path ++ [p]) a

variable {g h : Graph} {anchor a : AliasId} {path : List PropertyRef}

lemma Leads.le (ha : g.Leads anchor path a) : anchor.index ≤ a.index := by
  induction ha with
  | nil => exact le_rfl
  | snoc _ _ hlt ih => exact ih.trans hlt.le

lemma lt_of_isNavigationOf {b : AliasId} {p : PropertyRef}
    (ha : (g.aliasOf a).isNavigationOf b p = true) : a.index < g.aliases.size := by
  obtain ⟨q, via, hroute, -⟩ := Alias.isNavigationOf_iff.1 ha
  exact lt_of_route_ne (by rw [hroute]; nofun)

lemma Leads.lt (ha : g.Leads anchor path a) (hanchor : anchor.index < g.aliases.size) :
    a.index < g.aliases.size := by
  cases ha with
  | nil => exact hanchor
  | snoc _ ha _ => exact lt_of_isNavigationOf ha

lemma Leads.later {C : List RequestId} {A : List AliasId} (ha : g.Leads anchor path a)
    (hgh : g.Kept C A h) : h.Leads anchor path a := by
  induction ha with
  | nil => exact .nil
  | snoc _ ha hlt ih =>
    exact .snoc ih ((hgh.isNavigationOf (lt_of_isNavigationOf ha)).trans ha) hlt

/-- The path that leads to an alias is read back from its routes. -/
lemma Leads.pathWithin (ha : g.Leads anchor path a) (fuel : Nat) (hfuel : a.index < fuel) :
    ∃ read, g.pathWithin anchor fuel a = some read ∧
      read.map PropertyRef.untyped = path.map PropertyRef.untyped := by
  induction ha generalizing fuel with
  | nil =>
    obtain ⟨fuel, rfl⟩ : ∃ k, fuel = k + 1 := ⟨fuel - 1, by omega⟩
    exact ⟨[], by rw [Graph.pathWithin, if_pos rfl], rfl⟩
  | @snoc path b a p hb ha hlt ih =>
    obtain ⟨fuel, rfl⟩ : ∃ k, fuel = k + 1 := ⟨fuel - 1, by omega⟩
    obtain ⟨read, hread, hpath⟩ := ih fuel (by omega)
    obtain ⟨q, via, hroute, hsame⟩ := Alias.isNavigationOf_iff.1 ha
    -- the way back does not stop before the end, for all that comes after the anchor is younger
    have hne : a ≠ anchor := by
      rintro rfl
      exact absurd hb.le (by omega)
    refine ⟨read ++ [q], ?_, ?_⟩
    · rw [Graph.pathWithin, if_neg hne, hroute]
      dsimp only
      rw [hread, Option.map_some]
    · rw [List.map_append, List.map_append, hpath, List.map_singleton, List.map_singleton,
        PropertyRef.untyped_eq hsame]

/-- **A path is read back**: what leads from the anchor to an alias is the path that was walked. -/
theorem Leads.pathFrom? (ha : g.Leads anchor path a) (hanchor : anchor.index < g.aliases.size) :
    ∃ read, g.pathFrom? anchor a = some read ∧
      read.map PropertyRef.untyped = path.map PropertyRef.untyped :=
  ha.pathWithin _ (Nat.lt_succ_of_lt (ha.lt hanchor))

end Sql.Graph

/-! ### Walking -/

/-- The joins of a navigation start at its owner. -/
lemma Catalog.Navigates.owner_eq {c : Catalog} {g : Graph} {owner a : AliasId} {p : PropertyRef}
    {js : List Join} (hjs : c.Navigates g owner p js a) {j : Join} (hj : j ∈ js) {o : AliasId}
    {q : PropertyRef} {via : Option AliasId}
    (hroute : (g.aliasOf j.source).route = .navigation o q via) : o = owner := by
  cases hjs with
  | reference _ _ _ hsource =>
    obtain rfl := List.mem_singleton.1 hj
    rw [hsource.2] at hroute
    cases hroute
    rfl
  | collection _ _ _ hsource =>
    obtain rfl := List.mem_singleton.1 hj
    rw [hsource.2] at hroute
    cases hroute
    rfl
  | linked _ _ _ _ hlink hsource =>
    rcases List.mem_pair.1 hj with rfl | rfl
    · rw [hlink.2] at hroute
      cases hroute
    · rw [hsource.2] at hroute
      cases hroute
      rfl

namespace Call.Does

variable {c : Catalog} {k : Call} {g h : Graph} {x : Resolved}

/-- New navigations start at older aliases, too. -/
lemma olderOwners (hdoes : k.Does c g x h) (hg : g.OlderOwners)
    (howner : k.owner.index < g.aliases.size) : h.OlderOwners := by
  intro a o p via hroute
  by_cases hold : a.index < g.aliases.size
  · exact hg a o p via ((hdoes.touches.kept.route hold).symm.trans hroute)
  · have hlt : a.index < h.aliases.size := Graph.lt_of_route_ne (by rw [hroute]; nofun)
    cases hdoes with
    | column _ _ _ _ haliases => exact absurd (haliases ▸ hlt) hold
    | found _ _ _ _ haliases => exact absurd (haliases ▸ hlt) hold
    | joined _ _ hadds =>
      obtain ⟨j, hj, rfl⟩ := hadds.fresh a (Nat.le_of_not_lt hold) hlt
      rw [hadds.navigates.owner_eq hj hroute]
      exact howner.trans_le (Nat.le_of_not_lt hold)

/-- A navigation leads to a row. -/
lemma row_of_isNavigation (hdoes : k.Does c g x h) (hnavigation : c.isNavigation k.property = true) :
    ∃ a, x = .row a ∧ (h.aliasOf a).isNavigationOf k.owner k.property = true := by
  cases hdoes with
  | column hstored hscalar =>
    obtain ⟨stored, hstored', htarget⟩ := Catalog.isNavigation_iff.1 hnavigation
    cases hstored.symm.trans hstored'
    simp [hscalar] at htarget
  | @found _ a _ _ _ hfound _ _ htouches =>
    have ha := Graph.isNavigationOf_of_navigated? hfound
    exact ⟨a, rfl, (htouches.kept.isNavigationOf (Graph.lt_of_isNavigationOf ha)).trans ha⟩
  | @joined _ _ a _ _ _ hadds =>
    obtain ⟨j, -, -, ha, -⟩ := hadds.navigates.filter k.owner k.property
    exact ⟨a, rfl, ha⟩

end Call.Does

section Walk

/-- A request and an anchor of a graph in which every navigation starts at an older alias. -/
structure Sql.Graph.Places (g : Graph) (r : RequestId) (anchor : AliasId) : Prop where
  request : r.index < g.requests.size
  anchor : anchor.index < g.aliases.size
  older : g.OlderOwners

/-- Walking a path of navigations from an anchor succeeds, and ends where the path leads. -/
def WalksAlong (c : Catalog) (r : RequestId) (anchor : AliasId)
    (walk : List PropertyRef → Resolve AliasId) : Prop :=
  ∀ g path, g.Places r anchor → (∀ p ∈ path, c.isNavigation p = true) →
    ∃ a h, Runs (walk path) g a h ∧ g.Kept [r] [] h ∧ h.Places r anchor ∧ h.Leads anchor path a

variable {m : Mapping} {g : Graph} {r : RequestId} {anchor : AliasId}

lemma runs_walk (hm : m.equivalents = []) (hc : m.catalog.validate = .ok ()) (widen : Bool)
    {path before : List PropertyRef} (hpath : ∀ p ∈ path, m.catalog.isNavigation p = true)
    (hg : g.Places r anchor) {b : AliasId} (hb : g.Leads anchor before b) :
    ∃ a h, Runs (Mapping.walk (fun o p => m.resolve r o p widen) b path) g a h ∧
      g.Kept [r] [] h ∧ h.Places r anchor ∧ h.Leads anchor (before ++ path) a := by
  -- on the rest of the path, from where the steps before it have led
  induction path generalizing g b before with
  | nil => exact ⟨b, g, runs_pure.2 ⟨rfl, rfl⟩, .refl _ _ g, hg, by rwa [List.append_nil]⟩
  | cons p path ih =>
    have hp := hpath p List.mem_cons_self
    have hmaps : m.catalog.maps p = true := by
      obtain ⟨stored, hstored, -⟩ := Catalog.isNavigation_iff.1 hp
      exact Catalog.maps_iff.2 ⟨stored, hstored⟩
    obtain ⟨x, u, hrun, hdoes⟩ := m.does_answer hm hc (k := ⟨r, b, p, widen⟩) ⟨hg.request, hmaps⟩
    obtain ⟨a, rfl, ha⟩ := hdoes.row_of_isNavigation hp
    have hkept := hdoes.touches.kept
    have holder := hdoes.olderOwners hg.older (hb.lt hg.anchor)
    have hlt : b.index < a.index := by
      obtain ⟨q, via, hroute, -⟩ := Alias.isNavigationOf_iff.1 ha
      exact holder a b q via hroute
    have hu : u.Places r anchor :=
      ⟨hg.request.trans_le hkept.requests, hg.anchor.trans_le hkept.aliases, holder⟩
    obtain ⟨a', h, hwalk, hkept', hh, hleads⟩ :=
      ih (fun q hq => hpath q (List.mem_cons_of_mem _ hq)) hu (.snoc (hb.later hkept) ha hlt)
    refine ⟨a', h, ?_, hkept.trans hkept', hh, by rwa [List.append_assoc] at hleads⟩
    rw [Mapping.walk]
    exact hrun.bind hwalk

/-- **The walks of a mapping lead along their paths**, whatever has been joined before. -/
theorem Mapping.walksAlong_resolve (hm : m.equivalents = []) (hc : m.catalog.validate = .ok ())
    (r : RequestId) (anchor : AliasId) (widen : Bool) :
    WalksAlong m.catalog r anchor (Mapping.walk (fun o p => m.resolve r o p widen) anchor) :=
  fun _ _ hg hpath => runs_walk hm hc widen hpath hg .nil

end Walk

end EntityQuery
