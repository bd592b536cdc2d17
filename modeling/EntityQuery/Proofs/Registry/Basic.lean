import EntityQuery.Compile.Shape
import EntityQuery.Proofs.Filters.Paths

/-!
Mappings in which no query has computed a mapped property.

* `Untouched`: every fragment is kept for a property that the catalog does not map. A mapped property is
  then what the catalog says, whatever else has been registered.
* `Shows`: what the catalog says a mapped property is: a column of the row, or a joined row of the table
  that a navigation leads to.
* `confined`: an expression that reads some properties only, and gives computed values to some only.
-/

namespace EntityQuery

open Sql

/-! ### Mapped properties -/

/-- Whether a property is mapped. -/
def Catalog.maps (c : Catalog) (p : PropertyRef) : Bool := (c.propertyMapping p).isOk

lemma Catalog.maps_iff {c : Catalog} {p : PropertyRef} :
    c.maps p = true ↔ ∃ stored, c.propertyMapping p = .ok stored := by
  unfold maps
  cases c.propertyMapping p <;> simp [Except.isOk, Except.toBool]

lemma Catalog.maps_of_same (c : Catalog) {p q : PropertyRef} (h : p.same q = true) :
    c.maps p = c.maps q := by
  rw [maps, maps, c.propertyMapping_of_same h]

namespace Mapping

variable {m n : Mapping} {g h : Graph} {r : RequestId} {a : AliasId} {p : PropertyRef} {widen : Bool}

/-- The mapping before any query. -/
def fresh (m : Mapping) : Mapping := { m with equivalents := [] }

/-- No mapped property has a fragment. -/
def Untouched (m : Mapping) : Prop := ∀ row ∈ m.equivalents, m.catalog.maps row.1 = false

lemma untouched_fresh (m : Mapping) : m.fresh.Untouched := by simp [fresh, Untouched]

lemma Untouched.registered? (hm : m.Untouched) (hp : m.catalog.maps p = true) :
    m.equivalents.find? p = none := by
  have hnone : ∀ row ∈ m.equivalents, ¬ row.1.same p = true := by
    intro row hrow hsame
    have hmaps := hm row hrow
    rw [m.catalog.maps_of_same hsame, hp] at hmaps
    cases hmaps
  rw [PropertyTable.find?, List.find?_eq_none.2 hnone]
  rfl

/-- A mapping differs from the one before it in one fragment at most. -/
lemma register_eq (m : Mapping) (g : Graph) (p : PropertyRef) (n : NodeId) :
    m.register g p n = m ∨ ∃ f, m.register g p n = { m with equivalents := m.equivalents.insert p f } := by
  unfold register
  dsimp only
  split
  · exact .inr ⟨_, rfl⟩
  · exact .inl rfl

lemma catalog_register (m : Mapping) (g : Graph) (p : PropertyRef) (n : NodeId) :
    (m.register g p n).catalog = m.catalog := by
  obtain h | ⟨f, h⟩ := m.register_eq g p n <;> rw [h]

lemma readsReferenceKeys_register (m : Mapping) (g : Graph) (p : PropertyRef) (n : NodeId) :
    (m.register g p n).readsReferenceKeys = m.readsReferenceKeys := by
  obtain h | ⟨f, h⟩ := m.register_eq g p n <;> rw [h]

/-- Values of other properties may be registered. -/
lemma Untouched.register (hm : m.Untouched) (hp : m.catalog.maps p = false) (g : Graph) (n : NodeId) :
    (m.register g p n).Untouched := by
  obtain h | ⟨f, h⟩ := m.register_eq g p n <;> rw [h]
  · exact hm
  · intro row hrow
    rcases List.mem_cons.1 hrow with rfl | hrow
    · exact hp
    · exact hm row (List.mem_of_mem_filter hrow)

/-- A mapped property is what the catalog says. -/
lemma Untouched.resolve (hm : m.Untouched) (hp : m.catalog.maps p = true) (r : RequestId)
    (a : AliasId) (widen : Bool) : m.resolve r a p widen = m.locate r a p widen := by
  have hnone := hm.registered? hp
  unfold Mapping.resolve
  cases m.nesting <;> rw [resolveWithin, hnone]

/-- Only the catalog says what a mapped property is. -/
lemma locate_congr (hmn : m.catalog = n.catalog) (r : RequestId) (a : AliasId) (p : PropertyRef)
    (widen : Bool) : m.locate r a p widen = n.locate r a p widen := by
  cases m
  cases n
  cases hmn
  rfl

end Mapping

/-! ### What a catalog shows -/

/-- A navigation leads to a joined row of a table. One that the request has joined is not joined again. -/
structure Catalog.Joins (c : Catalog) (g : Graph) (r : RequestId) (a : AliasId) (p : PropertyRef)
    (target : String) (b : AliasId) (h : Graph) : Prop where
  joined : r.index < g.requests.size → b ∈ (h.request r).joins.map Join.source
  row : g.navigated? r a p = some b ∨ ∃ table, c.tableName target = .ok table ∧
    (h.aliasOf b).entity = some target ∧ (h.aliasOf b).origin = .table table

/-- What a mapped property of a row is: a column of the row, or a joined row. -/
def Catalog.Shows (c : Catalog) (g : Graph) (r : RequestId) (a : AliasId) (p : PropertyRef)
    (x : Resolved) (h : Graph) : Prop :=
  ∃ stored, c.propertyMapping p = .ok stored ∧
    match stored.target? with
    | none => x = .value ⟨g.entries.size⟩ ∧ h = (g.add (.column a stored.column)).2
    | some target => ∃ b, x = .row b ∧ c.Joins g r a p target b h

namespace Mapping

variable {m : Mapping} {g : Graph} {r : RequestId} {a : AliasId} {p : PropertyRef} {widen : Bool}
  {column target table key : String}

/-- A new joined row of a table. -/
lemma joins_joinEqual {d : Alias} (htable : m.catalog.tableName target = .ok table)
    (hentity : d.entity = some target) (horigin : d.origin = .table table)
    {k : Graph} (hsize : k.requests.size = g.requests.size) {b : AliasId}
    (hb : b = ⟨k.aliases.size⟩) (a' : AliasId) (c : String) (b' : AliasId) (c' : String) :
    m.catalog.Joins g r a p target b ((k.addAlias d).2.joinEqual r b widen a' c b' c') where
  joined hr := by
    rw [Graph.joinEqual, Graph.request_pushJoin_self]
    · simp
    · simpa [hsize] using hr
  row := by
    subst hb
    refine .inr ⟨table, htable, ?_, ?_⟩
    · simpa [Graph.joinEqual] using hentity
    · simpa [Graph.joinEqual] using horigin

lemma joined_widenJoin {b : AliasId} (hb : b ∈ (g.request r).joins.map Join.source)
    (hr : r.index < g.requests.size) (a : AliasId) :
    b ∈ ((g.widenJoin r a).request r).joins.map Join.source := by
  obtain ⟨j, hj, rfl⟩ := List.mem_map.1 hb
  rw [Graph.widenJoin, Graph.request_modifyRequest_self (h := hr)]
  refine List.mem_map.2 ⟨_, List.mem_map.2 ⟨j, hj, rfl⟩, ?_⟩
  split <;> rfl

lemma joins_joinReference (htable : m.catalog.tableName target = .ok table)
    (hkey : m.catalog.idColumn target = .ok key) :
    ∃ b h, Runs (m.joinReference r a p column target widen) g b h ∧
      m.catalog.Joins g r a p target b h := by
  cases hjoined : g.navigated? r a p with
  | some b =>
    refine ⟨b, _, runs_joinReference.2 (.inl ⟨hjoined, rfl⟩), fun hr => ?_, .inl hjoined⟩
    have hmem : b ∈ (g.request r).joins.map Join.source := List.mem_of_find?_eq_some hjoined
    split
    · exact joined_widenJoin hmem hr b
    · exact hmem
  | none =>
    exact ⟨_, _, runs_joinReference.2 (.inr ⟨hjoined, table, key, htable, hkey, rfl, rfl⟩),
      joins_joinEqual htable rfl rfl rfl rfl ..⟩

lemma joins_joinCollection {ownerKey : String} (htable : m.catalog.tableName target = .ok table)
    (hkey : m.catalog.idColumn target = .ok key) (howner : m.catalog.idColumn p.owner = .ok ownerKey) :
    ∃ b h, Runs (m.joinCollection r a p column target widen) g b h ∧
      m.catalog.Joins g r a p target b h :=
  ⟨_, _, runs_joinCollection.2 ⟨table, key, ownerKey, htable, hkey, howner, rfl, rfl⟩,
    joins_joinEqual htable rfl rfl rfl rfl ..⟩

lemma joins_joinLinked {link ownerColumn targetColumn ownerKey : String}
    (htable : m.catalog.tableName target = .ok table) (hkey : m.catalog.idColumn target = .ok key)
    (howner : m.catalog.idColumn p.owner = .ok ownerKey) :
    ∃ b h, Runs (m.joinLinked r a p target link ownerColumn targetColumn widen) g b h ∧
      m.catalog.Joins g r a p target b h := by
  have haliases : (joinLink g r a p link ownerColumn ownerKey widen).aliases.size =
      g.aliases.size + 1 := by simp [joinLink, Graph.joinEqual, Graph.pushJoin]
  have hrequests : (joinLink g r a p link ownerColumn ownerKey widen).requests.size =
      g.requests.size := by simp [joinLink, Graph.joinEqual, Graph.pushJoin]
  refine ⟨_, _, runs_joinLinked.2 ⟨table, key, ownerKey, htable, hkey, howner, rfl, rfl⟩, ?_⟩
  exact joins_joinEqual htable rfl rfl hrequests (congrArg AliasId.mk haliases.symm) ..

/-- **A mapped property of a validated catalog is found.** -/
theorem shows_locate (hc : m.catalog.validate = .ok ()) (hp : m.catalog.maps p = true) (g : Graph)
    (r : RequestId) (a : AliasId) (widen : Bool) :
    ∃ x h, Runs (m.locate r a p widen) g x h ∧ m.catalog.Shows g r a p x h := by
  obtain ⟨⟨name, column, kind⟩, hstored⟩ := Catalog.maps_iff.1 hp
  cases kind with
  | scalar type nullable length =>
    exact ⟨_, _, runs_locate.2 ⟨_, hstored, rfl, rfl⟩, _, hstored, rfl, rfl⟩
  | reference target =>
    obtain ⟨⟨table, key, htable, hkey⟩, -⟩ := Catalog.target_of_validate hc hstored rfl
    obtain ⟨b, h, hrun, hjoins⟩ := joins_joinReference htable hkey
    exact ⟨.row b, h, runs_locate.2 ⟨_, hstored, b, rfl, hrun⟩, _, hstored, b, rfl, hjoins⟩
  | collection target =>
    obtain ⟨⟨table, key, htable, hkey⟩, howner⟩ := Catalog.target_of_validate hc hstored rfl
    obtain ⟨ownerKey, howner⟩ := howner rfl
    obtain ⟨b, h, hrun, hjoins⟩ := joins_joinCollection htable hkey howner
    exact ⟨.row b, h, runs_locate.2 ⟨_, hstored, b, rfl, hrun⟩, _, hstored, b, rfl, hjoins⟩
  | manyToMany target link ownerColumn targetColumn =>
    obtain ⟨⟨table, key, htable, hkey⟩, howner⟩ := Catalog.target_of_validate hc hstored rfl
    obtain ⟨ownerKey, howner⟩ := howner rfl
    obtain ⟨b, h, hrun, hjoins⟩ := joins_joinLinked htable hkey howner
    exact ⟨.row b, h, runs_locate.2 ⟨_, hstored, b, rfl, hrun⟩, _, hstored, b, rfl, hjoins⟩

end Mapping

/-! ### What expressions read and fill -/

/-- Whether an operator selects the members of an object. -/
def Method.isProjection : Method → Bool
  | .select | .selectMany => true
  | _ => false

namespace Expr

mutual
/-- Whether a value may be selected for a member: a member gets a computed value unless it is read from
another member, a row, a key or an object. -/
def fillsMember (fills : PropertyRef → Bool) (p : PropertyRef) : Expr → Bool
  | .new _ members => fillsMembers fills members
  | .key _ | .member _ _ | .param _ | .lambda _ _ | .init _ _ => true
  | .source _ | .const _ | .binary _ _ _ | .unary _ _ | .cond _ _ _ | .call _ _ => fills p

def fillsMembers (fills : PropertyRef → Bool) : List (PropertyRef × Expr) → Bool
  | [] => true
  | (p, e) :: rest => fillsMember fills p e && fillsMembers fills rest
end

def fillsBindings (fills : PropertyRef → Bool) : List Binding → Bool
  | [] => true
  | .assign p e :: rest => fillsMember fills p e && fillsBindings fills rest
  | .list _ _ :: rest => fillsBindings fills rest

/-- Whether the object that a lambda makes may be selected. -/
def fillsObject (fills : PropertyRef → Bool) : Expr → Bool
  | .lambda _ (.new _ members) => fillsMembers fills members
  | .lambda _ (.init _ bindings) => fillsBindings fills bindings
  | _ => true

mutual
/-- Whether an expression reads only properties that may be read, and its projections give computed
values only to properties that may be filled. -/
def confined (reads fills : PropertyRef → Bool) : Expr → Bool
  | .source _ | .const _ | .param _ => true
  | .member e p => reads p && confined reads fills e
  | .key e => confined reads fills e
  | .binary _ l r => confined reads fills l && confined reads fills r
  | .unary _ e => confined reads fills e
  | .cond t y n => confined reads fills t && confined reads fills y && confined reads fills n
  | .call m args =>
    (!m.isProjection || args[1]?.all (fillsObject fills)) && confinedAll reads fills args
  | .lambda _ body => confined reads fills body
  | .new _ members => confinedMembers reads fills members
  | .init _ bindings => confinedBindings reads fills bindings

def confinedAll (reads fills : PropertyRef → Bool) : List Expr → Bool
  | [] => true
  | e :: rest => confined reads fills e && confinedAll reads fills rest

def confinedMembers (reads fills : PropertyRef → Bool) : List (PropertyRef × Expr) → Bool
  | [] => true
  | (_, e) :: rest => confined reads fills e && confinedMembers reads fills rest

def confinedBindings (reads fills : PropertyRef → Bool) : List Binding → Bool
  | [] => true
  | .assign _ e :: rest => confined reads fills e && confinedBindings reads fills rest
  | .list _ es :: rest => confinedAll reads fills es && confinedBindings reads fills rest
end

variable {reads fills : PropertyRef → Bool}

lemma confined_of_mem {es : List Expr} (h : confinedAll reads fills es = true) {e : Expr}
    (he : e ∈ es) : e.confined reads fills = true := by
  induction es with
  | nil => cases he
  | cons x es ih =>
    rw [confinedAll, Bool.and_eq_true] at h
    rcases List.mem_cons.1 he with rfl | he
    · exact h.1
    · exact ih h.2 he

/-- A path of members is read step by step. -/
lemma reads_memberPath? {e : Expr} (h : e.confined reads fills = true) {path : List PropertyRef}
    (hpath : e.memberPath? = some path) : ∀ p ∈ path, reads p = true := by
  induction e using memberPath?.induct generalizing path with
  | case1 q =>
    cases hpath
    simp
  | case2 target q ih =>
    rw [memberPath?, Option.map_eq_some_iff] at hpath
    obtain ⟨before, hbefore, rfl⟩ := hpath
    rw [confined, Bool.and_eq_true] at h
    intro p hp
    rcases List.mem_append.1 hp with hp | hp
    · exact ih h.2 hbefore p hp
    · rw [List.mem_singleton.1 hp]
      exact h.1
  | case3 e hparam hmember =>
    rw [memberPath?] at hpath
    · cases hpath
    · exact hparam
    · exact hmember

end Expr

end EntityQuery
