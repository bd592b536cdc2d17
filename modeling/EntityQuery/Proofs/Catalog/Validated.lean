import EntityQuery.Catalog.Basic
import Mathlib.Data.List.Forall2
import Mathlib.Data.List.Nodup
import Mathlib.Tactic.Lemma

/-!
What catalogs answer.

* `EntityMapping.stored`: properties are looked up by name, so that of several properties of one
  name the first counts for all.
* In a validated catalog every navigation leads to an entity with a key, and an entity with a
  relation to many has a key itself.
-/

namespace EntityQuery

lemma forM_eq_ok {α ε : Type} {f : α → Except ε Unit} {as : List α} (h : as.forM f = .ok ())
    {a : α} (ha : a ∈ as) : f a = .ok () := by
  induction as with
  | nil => cases ha
  | cons b as ih =>
    have hb : ((f b) >>= fun _ => as.forM f) = .ok () := h
    cases hf : f b with
    | error e =>
      rw [hf] at hb
      cases hb
    | ok u =>
      rw [hf] at hb
      rcases List.mem_cons.1 ha with rfl | ha
      · exact hf
      · exact ih hb ha

lemma bind_eq_ok {α β ε : Type} {x : Except ε α} {f : α → Except ε β} {b : β} :
    x >>= f = .ok b ↔ ∃ a, x = .ok a ∧ f a = .ok b := by
  cases x <;> simp [bind, Except.bind]

/-- A list of answers is one answer for each element. -/
lemma mapM_eq_ok_iff {α β ε : Type} {f : α → Except ε β} {as : List α} {bs : List β} :
    as.mapM f = .ok bs ↔ List.Forall₂ (fun a b => f a = .ok b) as bs := by
  induction as generalizing bs with
  | nil => cases bs <;> simp [pure, Except.pure]
  | cons a as ih =>
    rw [List.mapM_cons]
    cases ha : f a with
    | error e => cases bs <;> simp [ha, bind, Except.bind]
    | ok b =>
      cases has : as.mapM f with
      | error e => cases bs <;> simp [ha, has, ← ih, bind, Except.bind]
      | ok bs' => cases bs <;> simp [ha, has, ← ih, bind, Except.bind, pure, Except.pure]

lemma mapM_eq_ok {α β ε : Type} {f : α → Except ε β} {g : α → β} {as : List α}
    (h : ∀ a ∈ as, f a = .ok (g a)) : as.mapM f = .ok (as.map g) :=
  mapM_eq_ok_iff.2 (List.forall₂_map_right_iff.2 (List.forall₂_same.2 h))

/-! ### Properties by name -/

namespace PropertyRef

variable {p q s : PropertyRef}

lemma same_iff : p.same q = true ↔ p.owner = q.owner ∧ p.name = q.name := by simp [same]

lemma same_symm (h : p.same q = true) : q.same p = true := by
  rw [same_iff] at h ⊢
  exact ⟨h.1.symm, h.2.symm⟩

lemma same_trans (h : p.same q = true) (h' : q.same s = true) : p.same s = true := by
  rw [same_iff] at h h' ⊢
  exact ⟨h.1.trans h'.1, h.2.trans h'.2⟩

end PropertyRef

namespace EntityMapping

variable {e : EntityMapping} {p : PropertyMapping}

/-- The properties of an entity as they are found by name. -/
def stored (e : EntityMapping) : List PropertyMapping :=
  e.properties.map fun p => (e.property? p.name).getD p

/-- A property has the name that it is found by. -/
lemma property?_eq_some {name : String} (h : e.property? name = some p) :
    p ∈ e.properties ∧ p.name = name :=
  ⟨List.mem_of_find?_eq_some h, by simpa using List.find?_some h⟩

/-- The name of a property leads to a property of this name. -/
lemma property?_name (h : p ∈ e.properties) :
    e.property? p.name = some ((e.property? p.name).getD p) := by
  have hsome : (e.property? p.name).isSome := List.find?_isSome.2 ⟨p, h, by simp⟩
  obtain ⟨q, hq⟩ := Option.isSome_iff_exists.1 hsome
  rw [hq, Option.getD_some]

/-- The key property is found by its name. -/
lemma property?_id (h : e.id? = some p) : e.property? p.name = some p := by
  obtain ⟨name, -, hname⟩ := Option.bind_eq_some_iff.1 h
  rwa [(property?_eq_some hname).2]

lemma mem_properties_of_stored (h : p ∈ e.stored) : p ∈ e.properties := by
  obtain ⟨q, hq, rfl⟩ := List.mem_map.1 h
  exact (property?_eq_some (property?_name hq)).1

/-- Properties of different names are found as they are. -/
lemma stored_of_nodup (h : (e.properties.map PropertyMapping.name).Nodup) :
    e.stored = e.properties := by
  have hself (p : PropertyMapping) (hp : p ∈ e.properties) :
      (e.property? p.name).getD p = p := by
    have hfound := property?_eq_some (property?_name hp)
    exact List.inj_on_of_nodup_map h hfound.1 hp hfound.2
  rw [stored, List.map_congr_left hself, List.map_id']

end EntityMapping

/-! ### Answers -/

namespace Catalog

variable {c : Catalog} {p : PropertyRef} {m : PropertyMapping} {name : String} {e : EntityMapping}

lemma name_of_find? (h : c.find? name = some e) : e.name = name := by
  simpa using List.find?_some h

lemma entity_eq_ok : c.entity name = .ok e ↔ c.find? name = some e := by
  unfold entity
  cases c.find? name <;> simp

lemma propertyMapping_eq_ok (h : c.propertyMapping p = .ok m) :
    ∃ e, c.find? p.owner = some e ∧ e.property? p.name = some m := by
  unfold propertyMapping entity at h
  cases he : c.find? p.owner with
  | none => simp [he, bind, Except.bind] at h
  | some e =>
    refine ⟨e, rfl, ?_⟩
    cases hm : e.property? p.name with
    | none => simp [he, hm, bind, Except.bind] at h
    | some m' => simpa [he, hm, bind, Except.bind] using h

lemma propertyMapping_of_same (c : Catalog) {q : PropertyRef} (h : p.same q = true) :
    c.propertyMapping p = c.propertyMapping q := by
  obtain ⟨howner, hname⟩ := PropertyRef.same_iff.1 h
  simp [propertyMapping, PropertyRef.text, howner, hname]

lemma propertyMapping_ref (h : c.find? name = some e) {q : PropertyMapping}
    (hq : e.property? q.name = some m) : c.propertyMapping (e.ref q) = .ok m := by
  simp [propertyMapping, entity, EntityMapping.ref, name_of_find? h, h, hq, bind, Except.bind]

lemma tableName_of_find? (h : c.find? name = some e) : c.tableName name = .ok e.table := by
  simp [tableName, entity, h, bind, Except.bind, pure, Except.pure]

lemma properties_of_find? (h : c.find? name = some e) :
    c.properties name = .ok (e.properties.map e.ref) := by
  simp [properties, entity, h, bind, Except.bind, pure, Except.pure]

lemma idProperty_of_find? (h : c.find? name = some e) (hid : e.id? = some m) :
    c.idProperty name = .ok (e.ref m) := by
  simp [idProperty, entity, h, hid, bind, Except.bind]

/-- An entity with a key property has a key column. -/
lemma idColumn_of_find? (h : c.find? name = some e) (hid : e.id?.isSome) :
    ∃ key, c.idColumn name = .ok key := by
  obtain ⟨p, hp⟩ := Option.isSome_iff_exists.1 hid
  have hcolumn : c.columnName (e.ref p) = .ok p.column := by
    rw [columnName, propertyMapping_ref h (EntityMapping.property?_id hp)]
    rfl
  exact ⟨p.column, by rw [idColumn, idProperty_of_find? h hp]; exact hcolumn⟩

/-! ### Validated catalogs -/

/-- A navigation of a validated catalog leads to an entity with a key; an entity with a relation
to many has a key itself. -/
lemma navigation_of_validate (hc : c.validate = .ok ()) (he : c.find? name = some e)
    (hm : m ∈ e.properties) {target : String} (ht : m.target? = some target) :
    (∃ t, c.find? target = some t ∧ t.id?.isSome) ∧ (m.isReference = false → e.id?.isSome) := by
  have hvalid : c.validateProperty e m = .ok () :=
    forM_eq_ok (forM_eq_ok hc (List.mem_of_find?_eq_some he)) hm
  rw [validateProperty, ht] at hvalid
  dsimp only at hvalid
  cases htarget : c.find? target with
  | none => simp [htarget] at hvalid
  | some t =>
    rw [htarget] at hvalid
    dsimp only at hvalid
    split at hvalid
    · cases hvalid
    · rename_i hid
      refine ⟨⟨t, rfl, by simpa [Option.isNone_iff_eq_none, Option.isSome_iff_ne_none] using hid⟩,
        fun hreference => ?_⟩
      split at hvalid
      · cases hvalid
      · rename_i howner
        cases hid : e.id? with
        | none => simp [hreference, hid] at howner
        | some q => rfl

/-- A navigation of a validated catalog leads to a table with a key; an entity with a relation to
many has a key itself. -/
lemma target_of_validate (hc : c.validate = .ok ()) (hp : c.propertyMapping p = .ok m)
    {target : String} (ht : m.target? = some target) :
    (∃ table key, c.tableName target = .ok table ∧ c.idColumn target = .ok key) ∧
      (m.isReference = false → ∃ key, c.idColumn p.owner = .ok key) := by
  obtain ⟨e, he, hm⟩ := propertyMapping_eq_ok hp
  obtain ⟨⟨t, htarget, hid⟩, howner⟩ :=
    navigation_of_validate hc he (EntityMapping.property?_eq_some hm).1 ht
  obtain ⟨key, hkey⟩ := idColumn_of_find? htarget hid
  exact ⟨⟨t.table, key, tableName_of_find? htarget, hkey⟩,
    fun hreference => idColumn_of_find? he (howner hreference)⟩

end Catalog

end EntityQuery
