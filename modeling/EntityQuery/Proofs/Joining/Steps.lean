import EntityQuery.Proofs.Registry.Basic

/-!
What one call of a mapping does to the joins of a request.

* `Navigates`: the joins that a navigation from a row consists of. Their conditions equate columns of
  the catalog: a foreign key with the key that it refers to.
* `Does`: a scalar adds no join; a reference that is joined is found, and its join widened if the call
  asks for that; any other navigation adds joins of the call's own kind, from new sources.
-/

namespace EntityQuery

open Sql

/-! ### Joins of navigations -/

namespace Sql

/-- Whether an alias ranges over a table, to which a route has led. -/
def Alias.Reads (a : Alias) (table : String) (route : Route) : Prop :=
  a.origin = .table table ∧ a.route = route

lemma Alias.isNavigationOf_iff {a : Alias} {o : AliasId} {p : PropertyRef} :
    a.isNavigationOf o p = true ↔ ∃ q via, a.route = .navigation o q via ∧ q.same p = true := by
  unfold isNavigationOf
  cases a.route <;> simp

/-- A source is a navigation from one owner, and of one property. -/
lemma Alias.isNavigationOf_unique {a : Alias} {o o' : AliasId} {p p' : PropertyRef}
    (h : a.isNavigationOf o p = true) (h' : a.isNavigationOf o' p' = true) :
    o = o' ∧ p.same p' = true := by
  obtain ⟨q, via, hroute, hsame⟩ := isNavigationOf_iff.1 h
  obtain ⟨q', via', hroute', hsame'⟩ := isNavigationOf_iff.1 h'
  rw [hroute] at hroute'
  cases hroute'
  exact ⟨rfl, PropertyRef.same_trans (PropertyRef.same_symm hsame) hsame'⟩

namespace Graph

variable {g h : Graph} {C : List RequestId} {A : List AliasId} {r : RequestId}

/-- The joins of a request that bring in the rows of a navigation from an owner. -/
def navigating (g : Graph) (r : RequestId) (owner : AliasId) (p : PropertyRef) : List Join :=
  (g.request r).joins.filter fun j => (g.aliasOf j.source).isNavigationOf owner p

lemma navigated?_eq (g : Graph) (r : RequestId) (owner : AliasId) (p : PropertyRef) :
    g.navigated? r owner p = (g.navigating r owner p).head?.map Join.source := by
  rw [navigated?, List.find?_map, navigating, List.head?_filter]
  rfl

lemma Kept.reads (hgh : Kept C A g h) {a : AliasId} {table : String} {route : Route}
    (hroute : route ≠ .root) (ha : (g.aliasOf a).Reads table route) :
    (h.aliasOf a).Reads table route := by
  have hlt : a.index < g.aliases.size := lt_of_route_ne (ha.2.symm ▸ hroute)
  exact ⟨(hgh.origin hlt).trans ha.1, (hgh.route hlt).trans ha.2⟩

lemma isNavigationOf_of_navigated? {o a : AliasId} {p : PropertyRef}
    (ha : g.navigated? r o p = some a) :
    (g.aliasOf a).isNavigationOf o p = true := by simpa using List.find?_some ha

lemma Kept.isNavigationOf {o a : AliasId} {p : PropertyRef} (hgh : Kept C A g h)
    (ha : a.index < g.aliases.size) : (h.aliasOf a).isNavigationOf o p = (g.aliasOf a).isNavigationOf o p := by
  rw [Alias.isNavigationOf, hgh.route ha, Alias.isNavigationOf]

/-- No more of a graph changes than one request, and what is new. -/
structure Touches (r : RequestId) (g h : Graph) : Prop where
  kept : g.Kept [r] [] h
  request : ∀ q, q ≠ r → h.request q = g.request q

lemma Touches.trans {k : Graph} (hgh : Touches r g h) (hhk : Touches r h k) : Touches r g k :=
  ⟨hgh.kept.trans hhk.kept, fun q hq => (hhk.request q hq).trans (hgh.request q hq)⟩

lemma Touches.add (r : RequestId) (g : Graph) (x : Node) : Touches r g (g.add x).2 :=
  ⟨.add _ _ g x, fun q _ => request_add g x q⟩

lemma Touches.modifyRequest (g : Graph) (r : RequestId) (f : Request → Request) :
    Touches r g (g.modifyRequest r f) :=
  ⟨.modifyRequest g List.mem_cons_self f, fun _ hq => request_modifyRequest_of_ne g f hq⟩

/-- A new source is joined to a request on equal columns. -/
structure Gains (g h : Graph) (r : RequestId) (d : Alias) (j : Join) (a : AliasId) (c : String)
    (b : AliasId) (c' : String) : Prop where
  touches : Touches r g h
  joins : (h.request r).joins = (g.request r).joins ++ [j]
  source : j.source = ⟨g.aliases.size⟩
  size : h.aliases.size = g.aliases.size + 1
  origin : (h.aliasOf j.source).origin = d.origin
  route : (h.aliasOf j.source).route = d.route
  compares : h.Compares j.condition a c b c'

/-- There is one new source. -/
lemma Gains.eq_source {d : Alias} {j : Join} {a b : AliasId} {c c' : String}
    (hgains : Gains g h r d j a c b c') {x : AliasId} (hx : g.aliases.size ≤ x.index)
    (hlt : x.index < h.aliases.size) : j.source = x := by
  rw [hgains.size] at hlt
  rw [hgains.source]
  exact congrArg AliasId.mk (by omega)

lemma gains_joinEqual (hr : r.index < g.requests.size) {d : Alias} {widen : Bool} {a b : AliasId}
    {c c' : String} (hh : h = (g.addAlias d).2.joinEqual r ⟨g.aliases.size⟩ widen a c b c') :
    ∃ j : Join, j.kind = .ofWiden widen ∧ Gains g h r d j a c b c' := by
  subst hh
  have hpush {j : Join} := Kept.pushJoin (C := [r]) (A := []) ((g.addAlias d).2.equate a c b c').2
    List.mem_cons_self j
  refine ⟨⟨⟨g.aliases.size⟩, .ofWiden widen, ((g.addAlias d).2.equate a c b c').1⟩, rfl, ?_, ?_, rfl,
    ?_, ?_, ?_, ?_⟩
  · refine ⟨((Kept.addAlias _ _ g d).trans (.equate _ a c b c')).trans hpush, fun q hq => ?_⟩
    rw [joinEqual, request_pushJoin_of_ne _ _ hq, request_equate, request_addAlias]
  · rw [joinEqual, request_pushJoin_self _ (by simpa using hr)]
    simp
  · simp [joinEqual]
  · simp [joinEqual]
  · simp [joinEqual]
  · exact hpush.compares ((g.addAlias d).2.compares_equate a c b c')

end Graph

end Sql

/-- The joins that a navigation from an owner consists of, and the row that they lead to. -/
inductive Catalog.Navigates (c : Catalog) (g : Graph) (owner : AliasId) (p : PropertyRef) :
    List Join → AliasId → Prop
  /-- The column of a reference holds the key of its target. -/
  | reference {name column target table key : String} {j : Join}
      (hstored : c.propertyMapping p = .ok ⟨name, column, .reference target⟩)
      (htable : c.tableName target = .ok table) (hkey : c.idColumn target = .ok key)
      (hsource : (g.aliasOf j.source).Reads table (.navigation owner p none))
      (hcondition : g.Compares j.condition owner column j.source key) :
      Navigates c g owner p [j] j.source
  /-- The rows of a collection hold the key of the owner. -/
  | collection {name column target table key : String} {j : Join}
      (hstored : c.propertyMapping p = .ok ⟨name, column, .collection target⟩)
      (htable : c.tableName target = .ok table) (hkey : c.idColumn p.owner = .ok key)
      (hsource : (g.aliasOf j.source).Reads table (.navigation owner p none))
      (hcondition : g.Compares j.condition j.source column owner key) :
      Navigates c g owner p [j] j.source
  /-- The rows of a link table hold the keys of both sides. -/
  | linked {name column target link ownerColumn targetColumn table key ownerKey : String} {l j : Join}
      (hstored : c.propertyMapping p =
        .ok ⟨name, column, .manyToMany target link ownerColumn targetColumn⟩)
      (htable : c.tableName target = .ok table) (hkey : c.idColumn target = .ok key)
      (howner : c.idColumn p.owner = .ok ownerKey)
      (hlink : (g.aliasOf l.source).Reads link (.link owner p))
      (hsource : (g.aliasOf j.source).Reads table (.navigation owner p (some l.source)))
      (hfirst : g.Compares l.condition l.source ownerColumn owner ownerKey)
      (hlast : g.Compares j.condition j.source key l.source targetColumn) :
      Navigates c g owner p [l, j] j.source

namespace Catalog.Navigates

variable {c : Catalog} {g h : Graph} {owner a : AliasId} {p : PropertyRef} {js : List Join}

lemma later {C : List RequestId} {A : List AliasId} (hjs : c.Navigates g owner p js a)
    (hgh : g.Kept C A h) : c.Navigates h owner p js a := by
  cases hjs with
  | reference hstored htable hkey hsource hcondition =>
    exact .reference hstored htable hkey (hgh.reads nofun hsource) (hgh.compares hcondition)
  | collection hstored htable hkey hsource hcondition =>
    exact .collection hstored htable hkey (hgh.reads nofun hsource) (hgh.compares hcondition)
  | linked hstored htable hkey howner hlink hsource hfirst hlast =>
    exact .linked hstored htable hkey howner (hgh.reads nofun hlink) (hgh.reads nofun hsource)
      (hgh.compares hfirst) (hgh.compares hlast)

/-- The kinds of the joins play no part. -/
lemma map (hjs : c.Navigates g owner p js a) {f : Join → Join}
    (hsource : ∀ j, (f j).source = j.source) (hcondition : ∀ j, (f j).condition = j.condition) :
    c.Navigates g owner p (js.map f) a := by
  cases hjs with
  | @reference _ _ _ _ _ j hstored htable hkey hreads hcompares =>
    rw [← hsource j]
    exact .reference hstored htable hkey (by rwa [hsource]) (by rwa [hsource, hcondition])
  | @collection _ _ _ _ _ j hstored htable hkey hreads hcompares =>
    rw [← hsource j]
    exact .collection hstored htable hkey (by rwa [hsource]) (by rwa [hsource, hcondition])
  | @linked _ _ _ _ _ _ _ _ _ l j hstored htable hkey howner hlink hreads hfirst hlast =>
    rw [← hsource j]
    exact .linked hstored htable hkey howner (by rwa [hsource]) (by rwa [hsource, hsource])
      (by rwa [hsource, hcondition]) (by rwa [hsource, hsource, hcondition])

/-- The joins of a navigation come from sources of the graph. -/
lemma lt (hjs : c.Navigates g owner p js a) : ∀ j ∈ js, j.source.index < g.aliases.size := by
  have hlt : ∀ {b : AliasId} {table route}, (g.aliasOf b).Reads table route → route ≠ .root →
      b.index < g.aliases.size := fun hreads hroute => Graph.lt_of_route_ne (hreads.2.symm ▸ hroute)
  cases hjs with
  | reference _ _ _ hsource => simpa using hlt hsource nofun
  | collection _ _ _ hsource => simpa using hlt hsource nofun
  | linked _ _ _ _ hlink hsource => simpa using And.intro (hlt hlink nofun) (hlt hsource nofun)

/-- One of the joins is the navigation: the last one, which leads to the row. -/
lemma filter (hjs : c.Navigates g owner p js a) (o : AliasId) (q : PropertyRef) :
    ∃ j ∈ js, j.source = a ∧ (g.aliasOf a).isNavigationOf owner p = true ∧
      js.filter (fun i => (g.aliasOf i.source).isNavigationOf o q) =
        if (owner == o && p.same q) = true then [j] else [] := by
  have hself : p.same p = true := by simp [PropertyRef.same]
  cases hjs with
  | @reference _ _ _ _ _ j _ _ _ hsource =>
    refine ⟨j, List.mem_singleton_self j, rfl, by simp [Alias.isNavigationOf, hsource.2, hself], ?_⟩
    simp [List.filter_cons, Alias.isNavigationOf, hsource.2]
  | @collection _ _ _ _ _ j _ _ _ hsource =>
    refine ⟨j, List.mem_singleton_self j, rfl, by simp [Alias.isNavigationOf, hsource.2, hself], ?_⟩
    simp [List.filter_cons, Alias.isNavigationOf, hsource.2]
  | @linked _ _ _ _ _ _ _ _ _ l j _ _ _ _ hlink hsource =>
    refine ⟨j, by simp, rfl, by simp [Alias.isNavigationOf, hsource.2, hself], ?_⟩
    simp [List.filter_cons, Alias.isNavigationOf, hlink.2, hsource.2]

end Catalog.Navigates

/-! ### One call -/

/-- A property of a row that a request asks for. -/
structure Call where
  request : RequestId
  owner : AliasId
  property : PropertyRef
  /-- Whether rows without a partner stay. -/
  widen : Bool
  deriving Repr

/-- Whether a call is one of a mapped property in a request of a graph. -/
def Call.Valid (c : Catalog) (g : Graph) (k : Call) : Prop :=
  k.request.index < g.requests.size ∧ c.maps k.property = true

/-- The answer of a mapping to a call. -/
def Mapping.answer (m : Mapping) (k : Call) : Resolve Resolved :=
  m.resolve k.request k.owner k.property k.widen

/-- A join of a source or of its link table keeps rows without a partner if it has to. -/
def Sql.Join.widened (widen : Bool) (a : AliasId) (via : Option AliasId) (j : Join) : Join :=
  if widen = true ∧ (j.source = a ∨ some j.source = via) then { j with kind := .left } else j

section Widened

variable {widen : Bool} {a : AliasId} {via : Option AliasId} {j : Join}

@[simp] lemma Sql.Join.source_widened : (j.widened widen a via).source = j.source := by
  unfold widened
  split <;> rfl

@[simp] lemma Sql.Join.condition_widened : (j.widened widen a via).condition = j.condition := by
  unfold widened
  split <;> rfl

lemma Sql.Join.widened_of_ne (h : j.source ≠ a) : j.widened widen a none = j := by
  simp [widened, h]

end Widened

namespace Call

/-- A call joins a navigation: it adds joins of its own kind, from new sources, to its request. -/
structure Adds (c : Catalog) (k : Call) (g h : Graph) (added : List Join) (a : AliasId) : Prop where
  navigates : c.Navigates h k.owner k.property added a
  own : ∀ j ∈ added, j.kind = .ofWiden k.widen ∧ g.aliases.size ≤ j.source.index
  joins : (h.request k.request).joins = (g.request k.request).joins ++ added
  fresh : ∀ b : AliasId, g.aliases.size ≤ b.index → b.index < h.aliases.size → ∃ j ∈ added, j.source = b
  touches : Graph.Touches k.request g h

/-- What a call does to the joins of its request, and what it finds. -/
inductive Does (c : Catalog) (k : Call) (g : Graph) : Resolved → Graph → Prop
  /-- A scalar is a column of the owner. -/
  | column {stored : PropertyMapping} {n : NodeId} {h : Graph}
      (hstored : c.propertyMapping k.property = .ok stored) (hscalar : stored.target? = none)
      (hnode : h.node n = .column k.owner stored.column)
      (hjoins : (h.request k.request).joins = (g.request k.request).joins)
      (haliases : h.aliases = g.aliases) (htouches : Graph.Touches k.request g h) : Does c k g (.value n) h
  /-- A reference that is joined is not joined again. -/
  | found {stored : PropertyMapping} {a : AliasId} {h : Graph}
      (hstored : c.propertyMapping k.property = .ok stored) (hreference : stored.isReference = true)
      (hfound : g.navigated? k.request k.owner k.property = some a)
      (hjoins : (h.request k.request).joins =
        (g.request k.request).joins.map (Join.widened k.widen a (g.aliasOf a).via?))
      (haliases : h.aliases = g.aliases) (htouches : Graph.Touches k.request g h) : Does c k g (.row a) h
  /-- Any other navigation is joined. -/
  | joined {stored : PropertyMapping} {added : List Join} {a : AliasId} {h : Graph}
      (hstored : c.propertyMapping k.property = .ok stored)
      (hnew : stored.isReference = true → g.navigated? k.request k.owner k.property = none)
      (hadds : k.Adds c g h added a) : Does c k g (.row a) h

lemma Does.touches {c : Catalog} {k : Call} {g h : Graph} {x : Resolved} (hdoes : k.Does c g x h) :
    Graph.Touches k.request g h := by
  cases hdoes with
  | column _ _ _ _ _ htouches => exact htouches
  | found _ _ _ _ _ htouches => exact htouches
  | joined _ _ hadds => exact hadds.touches

end Call

namespace Mapping

variable {m : Mapping} {g : Graph}

/-- A join that is found is widened if it has to be, and that is all. -/
lemma does_found {k : Call} (hr : k.request.index < g.requests.size) {stored : PropertyMapping}
    (hstored : m.catalog.propertyMapping k.property = .ok stored) (href : stored.isReference = true)
    {a : AliasId} (ha : g.navigated? k.request k.owner k.property = some a) :
    k.Does m.catalog g (.row a) (if k.widen then g.widenJoin k.request a else g) := by
  cases hwiden : k.widen with
  | false =>
    have hsame : Join.widened k.widen a (g.aliasOf a).via? = id := by
      funext j
      simp [Join.widened, hwiden]
    exact .found hstored href ha (by simp [hsame]) rfl ⟨.refl _ _ g, fun _ _ => rfl⟩
  | true =>
    refine .found hstored href ha ?_ rfl (.modifyRequest g k.request _)
    rw [if_pos rfl, Graph.widenJoin, Graph.request_modifyRequest_self (h := hr)]
    simp [Join.widened, hwiden]

section Adds

variable {k : Call} {name column target table key : String}
  (hr : k.request.index < g.requests.size) (htable : m.catalog.tableName target = .ok table)
  (hkey : m.catalog.idColumn target = .ok key)
include hr htable hkey

lemma adds_joinReference
    (hstored : m.catalog.propertyMapping k.property = .ok ⟨name, column, .reference target⟩)
    (hnew : g.navigated? k.request k.owner k.property = none) :
    ∃ added a h, Runs (m.joinReference k.request k.owner k.property column target k.widen) g a h ∧
      k.Adds m.catalog g h added a := by
  obtain ⟨h, hh⟩ : ∃ h, h = (g.addAlias { Alias.ofTable table target (some key) with
      route := .navigation k.owner k.property none }).2.joinEqual k.request ⟨g.aliases.size⟩
        k.widen k.owner column ⟨g.aliases.size⟩ key := ⟨_, rfl⟩
  obtain ⟨j, hkind, hgains⟩ := Graph.gains_joinEqual hr hh
  have hcompares := hgains.compares
  rw [← hgains.source] at hcompares
  refine ⟨[j], j.source, h, runs_joinReference.2
    (.inr ⟨hnew, table, key, htable, hkey, hgains.source, ?_⟩), ?_, ?_, hgains.joins,
    fun b hb hlt => ⟨j, List.mem_singleton_self j, hgains.eq_source hb hlt⟩, hgains.touches⟩
  · rw [hh, hgains.source]
  · exact .reference hstored htable hkey ⟨hgains.origin, hgains.route⟩ hcompares
  · simp [hkind, hgains.source]

variable {ownerKey : String} (howner : m.catalog.idColumn k.property.owner = .ok ownerKey)
include howner

lemma adds_joinCollection
    (hstored : m.catalog.propertyMapping k.property = .ok ⟨name, column, .collection target⟩) :
    ∃ added a h, Runs (m.joinCollection k.request k.owner k.property column target k.widen) g a h ∧
      k.Adds m.catalog g h added a := by
  obtain ⟨h, hh⟩ : ∃ h, h = (g.addAlias { Alias.ofTable table target (some key) with
      route := .navigation k.owner k.property none }).2.joinEqual k.request ⟨g.aliases.size⟩
        k.widen ⟨g.aliases.size⟩ column k.owner ownerKey := ⟨_, rfl⟩
  obtain ⟨j, hkind, hgains⟩ := Graph.gains_joinEqual hr hh
  have hcompares := hgains.compares
  rw [← hgains.source] at hcompares
  refine ⟨[j], j.source, h, runs_joinCollection.2
    ⟨table, key, ownerKey, htable, hkey, howner, hgains.source, ?_⟩, ?_, ?_, hgains.joins,
    fun b hb hlt => ⟨j, List.mem_singleton_self j, hgains.eq_source hb hlt⟩, hgains.touches⟩
  · rw [hh, hgains.source]
  · exact .collection hstored htable howner ⟨hgains.origin, hgains.route⟩ hcompares
  · simp [hkind, hgains.source]

lemma adds_joinLinked {link ownerColumn targetColumn : String}
    (hstored : m.catalog.propertyMapping k.property =
      .ok ⟨name, column, .manyToMany target link ownerColumn targetColumn⟩) :
    ∃ added a h, Runs (m.joinLinked k.request k.owner k.property target link ownerColumn targetColumn
      k.widen) g a h ∧ k.Adds m.catalog g h added a := by
  obtain ⟨u, hu⟩ : ∃ u, u = joinLink g k.request k.owner k.property link ownerColumn ownerKey
    k.widen := ⟨_, rfl⟩
  obtain ⟨l, hlinkKind, hlink⟩ := Graph.gains_joinEqual hr hu
  obtain ⟨h, hh⟩ : ∃ h, h = (u.addAlias { Alias.ofTable table target (some key) with
      route := .navigation k.owner k.property (some l.source) }).2.joinEqual k.request
        ⟨u.aliases.size⟩ k.widen ⟨u.aliases.size⟩ key l.source targetColumn := ⟨_, rfl⟩
  obtain ⟨j, hkind, hgains⟩ := Graph.gains_joinEqual (hr.trans_le hlink.touches.kept.requests) hh
  have hfirst := hgains.touches.kept.compares hlink.compares
  have hlast := hgains.compares
  rw [← hlink.source] at hfirst
  rw [← hgains.source] at hlast
  have hreads : (h.aliasOf l.source).Reads link (.link k.owner k.property) :=
    hgains.touches.kept.reads nofun ⟨hlink.origin, hlink.route⟩
  have hsource : j.source = ⟨g.aliases.size + 1⟩ := by rw [hgains.source, hlink.size]
  refine ⟨[l, j], j.source, h, runs_joinLinked.2
    ⟨table, key, ownerKey, htable, hkey, howner, hsource, ?_⟩, ?_, ?_, ?_, fun b hb hlt => ?_,
    hlink.touches.trans hgains.touches⟩
  · rw [hh, hu, hlink.source, hsource, ← hlink.size, hu]
  · exact .linked hstored htable hkey howner hreads ⟨hgains.origin, hgains.route⟩ hfirst hlast
  · simp [hlinkKind, hkind, hlink.source, hsource]
  · rw [hgains.joins, hlink.joins, List.append_assoc]
    rfl
  · by_cases hnew : u.aliases.size ≤ b.index
    · exact ⟨j, by simp, hgains.eq_source hnew hlt⟩
    · exact ⟨l, by simp, hlink.eq_source hb (Nat.lt_of_not_le hnew)⟩

end Adds

/-- **A call of a mapped property succeeds**: on a validated catalog, it does to the joins of its
request what the kind of the property says. -/
theorem does_locate (hc : m.catalog.validate = .ok ()) {k : Call} (hk : k.Valid m.catalog g) :
    ∃ x h, Runs (m.locate k.request k.owner k.property k.widen) g x h ∧ k.Does m.catalog g x h := by
  obtain ⟨hr, hmaps⟩ := hk
  obtain ⟨⟨name, column, kind⟩, hstored⟩ := Catalog.maps_iff.1 hmaps
  cases kind with
  | scalar type nullable length =>
    refine ⟨_, _, runs_locate.2 ⟨_, hstored, rfl, rfl⟩, ?_⟩
    exact .column hstored rfl (Graph.node_add_self g _) (by rw [Graph.request_add])
      (Graph.aliases_add g _) (.add _ g _)
  | reference target =>
    obtain ⟨⟨table, key, htable, hkey⟩, -⟩ := Catalog.target_of_validate hc hstored rfl
    cases hnavigated : g.navigated? k.request k.owner k.property with
    | some a =>
      exact ⟨_, _, runs_locate.2 ⟨_, hstored, a, rfl, runs_joinReference.2 (.inl ⟨hnavigated, rfl⟩)⟩,
        does_found hr hstored rfl hnavigated⟩
    | none =>
      obtain ⟨added, a, h, hrun, hadds⟩ := adds_joinReference hr htable hkey hstored hnavigated
      exact ⟨.row a, h, runs_locate.2 ⟨_, hstored, a, rfl, hrun⟩,
        .joined hstored (fun _ => hnavigated) hadds⟩
  | collection target =>
    obtain ⟨⟨table, key, htable, hkey⟩, howner⟩ := Catalog.target_of_validate hc hstored rfl
    obtain ⟨ownerKey, howner⟩ := howner rfl
    obtain ⟨added, a, h, hrun, hadds⟩ := adds_joinCollection hr htable hkey howner hstored
    exact ⟨.row a, h, runs_locate.2 ⟨_, hstored, a, rfl, hrun⟩, .joined hstored nofun hadds⟩
  | manyToMany target link ownerColumn targetColumn =>
    obtain ⟨⟨table, key, htable, hkey⟩, howner⟩ := Catalog.target_of_validate hc hstored rfl
    obtain ⟨ownerKey, howner⟩ := howner rfl
    obtain ⟨added, a, h, hrun, hadds⟩ := adds_joinLinked hr htable hkey howner hstored
    exact ⟨.row a, h, runs_locate.2 ⟨_, hstored, a, rfl, hrun⟩, .joined hstored nofun hadds⟩

lemma does_answer (hm : m.equivalents = []) (hc : m.catalog.validate = .ok ()) {k : Call}
    (hk : k.Valid m.catalog g) : ∃ x h, Runs (m.answer k) g x h ∧ k.Does m.catalog g x h := by
  rw [answer, m.resolve_eq_locate hm]
  exact does_locate hc hk

end Mapping

end EntityQuery
