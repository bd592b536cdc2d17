import EntityQuery.Proofs.Joining.Canonical

/-!
What the validation of a catalog is worth.

* Entities of different names, whose keys are properties, are registered in their order.
* `Leads`: what the joins of a navigation need. Validation asks for it of every property of every
  entity, and a property is resolved exactly if it holds.
* `validated_iff_resolves`: entities are valid exactly if all their properties can be resolved.
-/

namespace EntityQuery

open Sql

/-- The key that an entity names is one of its properties. -/
def EntityMapping.KeyMapped (e : EntityMapping) : Prop := ∀ id ∈ e.idName, (e.property? id).isSome

instance : DecidablePred EntityMapping.KeyMapped := fun e =>
  inferInstanceAs (Decidable (∀ id ∈ e.idName, (e.property? id).isSome))

lemma forM_eq_ok_iff {α ε : Type} {f : α → Except ε Unit} {as : List α} :
    as.forM f = .ok () ↔ ∀ a ∈ as, f a = .ok () := by
  refine ⟨fun h a ha => forM_eq_ok h ha, fun h => ?_⟩
  induction as with
  | nil => rfl
  | cons a as ih =>
    change ((f a) >>= fun _ => as.forM f) = .ok ()
    rw [h a List.mem_cons_self]
    exact ih fun b hb => h b (List.mem_cons_of_mem _ hb)

namespace Catalog

variable {c : Catalog} {e : EntityMapping} {es : List EntityMapping} {p : PropertyMapping}
  {name target : String}

/-! ### Registration -/

lemma contains_eq_false (h : name ∉ c.entities.map EntityMapping.name) : c.contains name = false := by
  rw [contains, Option.isSome_eq_false_iff, Option.isNone_iff_eq_none]
  refine List.find?_eq_none.2 fun e he hname => h ?_
  exact List.mem_map.2 ⟨e, he, by simpa using hname⟩

lemma register_eq_ok (hkey : e.KeyMapped) (hnew : c.contains e.name = false) :
    c.register e = .ok ⟨c.entities ++ [e]⟩ := by
  have hadd : register.addNew c e = .ok ⟨c.entities ++ [e]⟩ := by simp [register.addNew, hnew]
  unfold register
  split
  · next id hid =>
    have hsome : (e.property? id).isNone = false := by simpa using hkey id hid
    rw [hsome, if_neg Bool.false_ne_true, hadd]
  · exact hadd

/-- Entities of different names are registered in their order, after those that are there. -/
lemma foldlM_register (hkeys : ∀ e ∈ es, e.KeyMapped)
    (hnames : ((c.entities ++ es).map EntityMapping.name).Nodup) :
    es.foldlM register c = .ok ⟨c.entities ++ es⟩ := by
  induction es generalizing c with
  | nil => simp [pure, Except.pure]
  | cons e es ih =>
    have hnew : e.name ∉ c.entities.map EntityMapping.name := by
      rw [List.map_append, List.nodup_append] at hnames
      intro he
      exact hnames.2.2 _ he _ List.mem_cons_self rfl
    rw [List.foldlM_cons, register_eq_ok (hkeys e List.mem_cons_self) (contains_eq_false hnew)]
    have hrest := ih (c := ⟨c.entities ++ [e]⟩) (fun f hf => hkeys f (List.mem_cons_of_mem _ hf))
      (by simpa using hnames)
    simpa [bind, Except.bind] using hrest

lemma ofEntities_eq_ok (hkeys : ∀ e ∈ es, e.KeyMapped) (hnames : (es.map EntityMapping.name).Nodup) :
    ofEntities es = .ok ⟨es⟩ := foldlM_register (c := {}) hkeys hnames

/-- Entities of different names are found as they are. -/
lemma find?_of_nodup (hnames : (c.entities.map EntityMapping.name).Nodup) (he : e ∈ c.entities) :
    c.find? e.name = some e := by
  have hsome : (c.find? e.name).isSome := List.find?_isSome.2 ⟨e, he, by simp⟩
  obtain ⟨f, hf⟩ := Option.isSome_iff_exists.1 hsome
  rw [hf, List.inj_on_of_nodup_map hnames (List.mem_of_find?_eq_some hf) he (name_of_find? hf)]

/-- A valid list of entities is registered as it is. -/
lemma validated_eq_ok_iff {c' : Catalog} (hc : ofEntities es = .ok c) :
    validated es = .ok c' ↔ c.validate = .ok () ∧ c' = c := by
  rw [validated, hc, bind_eq_ok]
  constructor
  · rintro ⟨_, ⟨⟩, h⟩
    obtain ⟨_, hvalid, h⟩ := bind_eq_ok.1 h
    cases h
    exact ⟨hvalid, rfl⟩
  · rintro ⟨hvalid, rfl⟩
    exact ⟨_, rfl, bind_eq_ok.2 ⟨(), hvalid, rfl⟩⟩

/-! ### What navigations need -/

lemma exists_tableName : (∃ table, c.tableName name = .ok table) ↔ ∃ e, c.find? name = some e := by
  simp only [tableName, bind_eq_ok, entity_eq_ok, pure, Except.pure, Except.ok.injEq]
  constructor
  · rintro ⟨table, e, he, -⟩
    exact ⟨e, he⟩
  · rintro ⟨e, he⟩
    exact ⟨e.table, e, he, rfl⟩

lemma exists_idColumn :
    (∃ key, c.idColumn name = .ok key) ↔ ∃ e, c.find? name = some e ∧ e.id?.isSome := by
  constructor
  · rintro ⟨key, hkey⟩
    obtain ⟨p, hp, -⟩ := bind_eq_ok.1 hkey
    obtain ⟨e, he, hid⟩ := bind_eq_ok.1 hp
    refine ⟨e, entity_eq_ok.1 he, ?_⟩
    cases h : e.id? with
    | none => simp [h] at hid
    | some q => rfl
  · rintro ⟨e, he, hid⟩
    exact idColumn_of_find? he hid

/-- What the joins of a navigation need: the table and the key of its target, and the key of its owner
unless it is a reference. -/
structure Leads (c : Catalog) (owner : String) (p : PropertyMapping) (target : String) : Prop where
  table : ∃ table, c.tableName target = .ok table
  key : ∃ key, c.idColumn target = .ok key
  owner : p.isReference = false → ∃ key, c.idColumn owner = .ok key

/-- The check of a property asks for what its joins need. -/
lemma validateProperty_eq_ok (he : c.find? e.name = some e) :
    c.validateProperty e p = .ok () ↔ ∀ target, p.target? = some target → c.Leads e.name p target := by
  have howner : (∃ key, c.idColumn e.name = .ok key) ↔ e.id?.isSome := by
    rw [exists_idColumn]
    simp [he]
  unfold validateProperty
  cases ht : p.target? with
  | none => simp
  | some target =>
    simp only [Option.some.injEq, forall_eq']
    cases hfound : c.find? target with
    | none =>
      refine ⟨nofun, fun h => ?_⟩
      obtain ⟨t, ht⟩ := exists_tableName.1 h.table
      simp [hfound] at ht
    | some t =>
      have htarget : (∃ key, c.idColumn target = .ok key) ↔ t.id?.isSome := by
        rw [exists_idColumn]
        simp [hfound]
      have hleads : c.Leads e.name p target ↔ t.id?.isSome ∧ (p.isReference = false → e.id?.isSome) :=
        ⟨fun h => ⟨htarget.1 h.key, fun href => howner.1 (h.owner href)⟩, fun h =>
          ⟨exists_tableName.2 ⟨t, hfound⟩, htarget.2 h.1, fun href => howner.2 (h.2 href)⟩⟩
      rw [hleads]
      dsimp only
      cases t.id? <;> cases e.id? <;> cases p.isReference <;> simp

lemma validate_eq_ok (hnames : (c.entities.map EntityMapping.name).Nodup) :
    c.validate = .ok () ↔ ∀ e ∈ c.entities, ∀ p ∈ e.properties, ∀ target, p.target? = some target →
      c.Leads e.name p target := by
  rw [validate, forM_eq_ok_iff]
  refine forall₂_congr fun e he => ?_
  rw [forM_eq_ok_iff]
  exact forall₂_congr fun p _ => validateProperty_eq_ok (find?_of_nodup hnames he)

/-- Properties of different names are what the catalog stores. -/
lemma propertyMapping_of_nodup (hnames : (c.entities.map EntityMapping.name).Nodup)
    (he : e ∈ c.entities) (hproperties : (e.properties.map PropertyMapping.name).Nodup)
    (hp : p ∈ e.properties) : c.propertyMapping (e.ref p) = .ok p := by
  have hfound := EntityMapping.property?_name hp
  have hsame := EntityMapping.property?_eq_some hfound
  rw [List.inj_on_of_nodup_map hproperties hsame.1 hp hsame.2] at hfound
  exact propertyMapping_ref (find?_of_nodup hnames he) hfound

end Catalog

/-! ### Resolution -/

namespace Mapping

variable {m : Mapping} {g : Graph} {r : RequestId} {owner : AliasId} {p : PropertyRef} {widen : Bool}
  {stored : PropertyMapping}

/-- A property is resolved if the catalog has what its joins need. -/
lemma locates_of_leads (hstored : m.catalog.propertyMapping p = .ok stored)
    (hleads : ∀ target, stored.target? = some target → m.catalog.Leads p.owner stored target) :
    ∃ x h, Runs (m.locate r owner p widen) g x h := by
  obtain ⟨name, column, kind⟩ := stored
  cases kind with
  | scalar type nullable length => exact ⟨_, _, runs_locate.2 ⟨_, hstored, rfl, rfl⟩⟩
  | reference target =>
    obtain ⟨⟨table, htable⟩, ⟨key, hkey⟩, -⟩ := hleads target rfl
    have hjoin : ∃ a h, Runs (m.joinReference r owner p column target widen) g a h := by
      cases hnavigated : g.navigated? r owner p with
      | some a => exact ⟨a, _, runs_joinReference.2 (.inl ⟨hnavigated, rfl⟩)⟩
      | none => exact ⟨_, _, runs_joinReference.2 (.inr ⟨hnavigated, table, key, htable, hkey, rfl, rfl⟩)⟩
    obtain ⟨a, h, hrun⟩ := hjoin
    exact ⟨_, h, runs_locate.2 ⟨_, hstored, a, rfl, hrun⟩⟩
  | collection target =>
    obtain ⟨⟨table, htable⟩, ⟨key, hkey⟩, howner⟩ := hleads target rfl
    obtain ⟨ownerKey, howner⟩ := howner rfl
    exact ⟨_, _, runs_locate.2 ⟨_, hstored, _, rfl, runs_joinCollection.2
      ⟨table, key, ownerKey, htable, hkey, howner, rfl, rfl⟩⟩⟩
  | manyToMany target link ownerColumn targetColumn =>
    obtain ⟨⟨table, htable⟩, ⟨key, hkey⟩, howner⟩ := hleads target rfl
    obtain ⟨ownerKey, howner⟩ := howner rfl
    exact ⟨_, _, runs_locate.2 ⟨_, hstored, _, rfl, runs_joinLinked.2
      ⟨table, key, ownerKey, htable, hkey, howner, rfl, rfl⟩⟩⟩

/-- A property that is not joined yet is resolved only if the catalog has what its joins need. -/
lemma leads_of_locates (hstored : m.catalog.propertyMapping p = .ok stored)
    (hnew : g.navigated? r owner p = none)
    (hrun : ∃ x h, Runs (m.locate r owner p widen) g x h) {target : String}
    (htarget : stored.target? = some target) : m.catalog.Leads p.owner stored target := by
  obtain ⟨x, h, hrun⟩ := hrun
  obtain ⟨stored', hstored', hrun⟩ := runs_locate.1 hrun
  cases hstored.symm.trans hstored'
  obtain ⟨name, column, kind⟩ := stored
  cases kind with
  | scalar type nullable length => cases htarget
  | reference _ =>
    cases htarget
    obtain ⟨a, -, hrun⟩ := hrun
    obtain ⟨hfound, -⟩ | ⟨-, table, key, htable, hkey, -⟩ := runs_joinReference.1 hrun
    · cases hnew.symm.trans hfound
    · exact ⟨⟨table, htable⟩, ⟨key, hkey⟩, nofun⟩
  | collection _ =>
    cases htarget
    obtain ⟨a, -, hrun⟩ := hrun
    obtain ⟨table, key, ownerKey, htable, hkey, howner, -⟩ := runs_joinCollection.1 hrun
    exact ⟨⟨table, htable⟩, ⟨key, hkey⟩, fun _ => ⟨ownerKey, howner⟩⟩
  | manyToMany _ link ownerColumn targetColumn =>
    cases htarget
    obtain ⟨a, -, hrun⟩ := hrun
    obtain ⟨table, key, ownerKey, htable, hkey, howner, -⟩ := runs_joinLinked.1 hrun
    exact ⟨⟨table, htable⟩, ⟨key, hkey⟩, fun _ => ⟨ownerKey, howner⟩⟩

/-- Every property of the entities can be resolved in a request, from an alias for each entity. -/
def ResolvesAll (m : Mapping) (es : List EntityMapping) (g : Graph) (r : RequestId)
    (owner : EntityMapping → AliasId) (widen : Bool) : Prop :=
  ∀ e ∈ es, ∀ p ∈ e.properties, ∃ x h, Runs (m.resolve r (owner e) (e.ref p) widen) g x h

end Mapping

namespace Catalog

variable {es : List EntityMapping} (hnames : (es.map EntityMapping.name).Nodup)
  (hkeys : ∀ e ∈ es, e.KeyMapped) (hproperties : ∀ e ∈ es, (e.properties.map PropertyMapping.name).Nodup)
include hnames hkeys hproperties

/-- **Validation is exact.** Entities of different names, whose keys are properties and whose properties
differ in name, are registered in their order. The catalog is valid exactly if all properties can be
resolved by a mapping without computed properties, at any place where no navigation is joined yet; in a
valid catalog they can be resolved everywhere. -/
theorem validated_iff_resolves : ∃ c, ofEntities es = .ok c ∧ c.entities = es ∧
    (∀ c', validated es = .ok c' → c' = c) ∧
    ∀ m : Mapping, m.catalog = c → m.equivalents = [] →
      (∀ g r owner widen, (g.request r).joins = [] →
        (validated es = .ok c ↔ m.ResolvesAll es g r owner widen)) ∧
      (validated es = .ok c → ∀ g r owner widen, m.ResolvesAll es g r owner widen) := by
  have hc := ofEntities_eq_ok hkeys hnames
  have hvalid : validated es = .ok ⟨es⟩ ↔ ∀ e ∈ es, ∀ p ∈ e.properties, ∀ target,
      p.target? = some target → Leads ⟨es⟩ e.name p target := by
    rw [validated_eq_ok_iff hc, and_iff_left rfl, validate_eq_ok (c := ⟨es⟩) hnames]
  refine ⟨⟨es⟩, hc, rfl, fun c' h => ((validated_eq_ok_iff hc).1 h).2, ?_⟩
  rintro m hm hequivalents
  have hstored : ∀ e ∈ es, ∀ p ∈ e.properties, m.catalog.propertyMapping (e.ref p) = .ok p := by
    rw [hm]
    exact fun e he p hp => propertyMapping_of_nodup (c := ⟨es⟩) hnames he (hproperties e he) hp
  have hresolves : validated es = .ok ⟨es⟩ → ∀ g r owner widen, m.ResolvesAll es g r owner widen := by
    intro h g r owner widen e he p hp
    rw [m.resolve_eq_locate hequivalents]
    refine Mapping.locates_of_leads (hstored e he p hp) ?_
    rw [hm]
    exact hvalid.1 h e he p hp
  refine ⟨fun g r owner widen hjoins => ⟨fun h => hresolves h g r owner widen, fun h => ?_⟩, hresolves⟩
  refine hvalid.2 fun e he p hp target htarget => ?_
  have hnew : g.navigated? r (owner e) (e.ref p) = none := by simp [Graph.navigated?, hjoins]
  have hrun := h e he p hp
  rw [m.resolve_eq_locate hequivalents] at hrun
  have hleads := Mapping.leads_of_locates (hstored e he p hp) hnew hrun htarget
  rwa [hm] at hleads

end Catalog

/-- A bookshop in which the tags of books are no entity. -/
def Bookshop.untagged : List EntityMapping := catalog.entities.dropLast

open Bookshop in
/-- The books of a shop can be resolved; without the tags they are not valid, and their tags cannot. -/
theorem untagged_books_unresolved :
    Catalog.validated catalog.entities = .ok catalog ∧
      mapping.ResolvesAll catalog.entities graph ⟨0⟩ (fun _ => ⟨0⟩) false ∧
      Catalog.ofEntities untagged = .ok ⟨untagged⟩ ∧ Catalog.validated untagged ≠ .ok ⟨untagged⟩ ∧
      ¬ ({ catalog := ⟨untagged⟩ } : Mapping).ResolvesAll untagged graph ⟨0⟩ (fun _ => ⟨0⟩) false := by
  have hjoins : (graph.request ⟨0⟩).joins = [] := rfl
  have hvalid : Catalog.validated catalog.entities = .ok catalog := by decide
  have hinvalid : Catalog.validated untagged ≠ .ok ⟨untagged⟩ := by decide
  have hnames : (catalog.entities.map EntityMapping.name).Nodup := by decide
  have hnames' : (untagged.map EntityMapping.name).Nodup := by decide
  obtain ⟨c, hc, hentities, -, hresolves⟩ :=
    Catalog.validated_iff_resolves hnames (by decide) (by decide)
  obtain ⟨c', hc', hentities', -, hresolves'⟩ :=
    Catalog.validated_iff_resolves hnames' (by decide) (by decide)
  obtain rfl : c = catalog := congrArg Catalog.mk hentities
  obtain rfl : c' = ⟨untagged⟩ := congrArg Catalog.mk hentities'
  refine ⟨hvalid, (hresolves mapping rfl rfl).2 hvalid _ _ _ _, hc', hinvalid, fun h => hinvalid ?_⟩
  exact ((hresolves' { catalog := ⟨untagged⟩ } rfl rfl).1 graph ⟨0⟩ _ false hjoins).2 h

end EntityQuery
