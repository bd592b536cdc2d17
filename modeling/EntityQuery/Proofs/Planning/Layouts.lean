import EntityQuery.Proofs.Catalog.Validated
import EntityQuery.Proofs.Compile.Runs
import EntityQuery.Schema.Plan

/-!
What the scripts of a plan define.

* The `layout` of an entity is its table, the columns in it and the definitions of what is stored
  outside. The scripts of a plan are the texts of the layouts, each text of an outside definition
  once: `plan_of_layouts`.
* `StoredAs` says for each kind of property what it is stored as.
* In a validated catalog whose keys are scalars every entity has a layout.
* `Fails x s e t`: from the state `s` the steps `x` fail with `e` and leave the state `t`.
* A property that cannot be added leaves the scripts as they are. So does a table whose entity is not
  mapped.
* A table whose properties are not all stored leaves no object, but the constraints of the relations
  that are declared before the first property without storage: `perform_fails`.
-/

namespace EntityQuery.Schema

/-! ### Layouts -/

/-- The table of an entity, and what its properties are stored as elsewhere. -/
structure Layout where
  entity : String
  table : String
  columns : List ColumnDef
  outside : List Definition

/-- The definition of a layout's table. -/
def Layout.create (l : Layout) : Definition := .create { name := l.table } l.columns []

def Storage.column? : Storage → Option ColumnDef
  | .column col => some col
  | .outside _ => none

def Storage.outside? : Storage → Option Definition
  | .column _ => none
  | .outside s => some s

/-- How a property of an entity is stored, looked up in the catalog. -/
def storageIn (c : Catalog) (entity : String) (p : PropertyRef) : Except SchemaError Storage := do
  storage c entity (← ask (c.propertyMapping p)) (isId c entity p)

/-- The layout of an entity. -/
def layout (c : Catalog) (entity : String) : Except SchemaError Layout := do
  let table ← ask (c.tableName entity)
  let storages ← (← ask (c.properties entity)).mapM (storageIn c entity)
  return ⟨entity, table, storages.filterMap Storage.column?, storages.filterMap Storage.outside?⟩

/-! ### Scripts are the texts of layouts -/

section Scripts

variable {c : Catalog} {d : Dialect} {entity : String} {s t : Script}

lemma runs_need {α : Type} {answer : Except SchemaError α} {a : α} :
    Runs (need answer) s a t ↔ answer = .ok a ∧ t = s := by
  change (answer, s) = (.ok a, t) ↔ _
  simp [eq_comm]

lemma storageOf_eq_need (p : PropertyRef) :
    storageOf c entity p = need (storageIn c entity p) := by
  unfold storageOf storageIn
  cases ask (c.propertyMapping p) <;> rfl

lemma runs_inlineColumns {ps : List PropertyRef} {storages : List Storage}
    (h : List.Forall₂ (fun p x => storageIn c entity p = .ok x) ps storages) (s : Script) :
    Runs (inlineColumns d c entity ps) s (storages.filterMap Storage.column?)
      { s with constraints :=
        s.constraints ++ (storages.filterMap Storage.outside?).map (Definition.text d) } := by
  induction h generalizing s with
  | nil => simpa [inlineColumns] using runs_pure.2 ⟨rfl, rfl⟩
  | @cons p x ps storages hp _ ih =>
    have hstorage : Runs (storageOf c entity p) s x s := by
      rw [storageOf_eq_need, runs_need]
      exact ⟨hp, rfl⟩
    rw [inlineColumns]
    refine hstorage.bind ?_
    cases x with
    | column col => exact (ih s).bind (runs_pure.2 ⟨rfl, rfl⟩)
    | outside definition =>
      have hadd : Runs (addConstraint d definition) s ()
          { s with constraints := s.constraints ++ [definition.text d] } := runs_modify.2 rfl
      refine hadd.bind ?_
      have hrest := ih { s with constraints := s.constraints ++ [definition.text d] }
      rw [List.append_assoc] at hrest
      exact hrest

/-- The script of an entity's table is the text of its layout. -/
lemma runs_createTable {l : Layout} (h : layout c entity = .ok l) (s : Script) :
    Runs (createTable d c entity) s ()
      ⟨s.objects ++ [l.create.text d], s.constraints ++ l.outside.map (Definition.text d)⟩ := by
  obtain ⟨table, htable, h⟩ := bind_eq_ok.1 h
  obtain ⟨ps, hproperties, h⟩ := bind_eq_ok.1 h
  obtain ⟨storages, hstorages, h⟩ := bind_eq_ok.1 h
  cases h
  have hcolumns := runs_inlineColumns (d := d) (mapM_eq_ok_iff.1 hstorages) s
  unfold createTable
  rw [htable, hproperties]
  exact (runs_need.2 ⟨rfl, rfl⟩).bind <| (runs_need.2 ⟨rfl, rfl⟩).bind <|
    hcolumns.bind (runs_modify.2 rfl)

lemma runs_forM_createTable {order : List String} {ls : List Layout}
    (h : List.Forall₂ (fun e l => layout c e = .ok l) order ls) (s : Script) :
    Runs (order.forM (createTable d c)) s ()
      ⟨s.objects ++ ls.map (·.create.text d),
        s.constraints ++ (ls.flatMap Layout.outside).map (Definition.text d)⟩ := by
  induction h generalizing s with
  | nil => simpa using runs_pure.2 ⟨rfl, rfl⟩
  | @cons e l order ls hl _ ih =>
    have hrest := ih ⟨s.objects ++ [l.create.text d],
      s.constraints ++ l.outside.map (Definition.text d)⟩
    rw [List.append_assoc, List.append_assoc, ← List.map_append] at hrest
    exact (runs_createTable hl s).bind hrest

/-- **A plan is the layouts of its entities**: their tables in the order of creation, then what is
stored outside, each text once. -/
theorem plan_of_layouts {entities order : List String} {ls : List Layout}
    (horder : creationOrder c entities = .ok order)
    (h : List.Forall₂ (fun e l => layout c e = .ok l) order ls) :
    plan d c entities = .ok ⟨ls.map (·.create.text d),
      ((ls.flatMap Layout.outside).map (Definition.text d)).eraseDups⟩ := by
  have hruns : ((order.forM (createTable d c)).run.run {}) =
      (.ok (), ⟨ls.map (·.create.text d),
        (ls.flatMap Layout.outside).map (Definition.text d)⟩) := by
    simpa [Runs] using runs_forM_createTable (d := d) h {}
  unfold plan
  rw [horder]
  simp only [ask, Except.mapError, bind, Except.bind, hruns]
  rfl

end Scripts

/-! ### Keys -/

section Keys

variable {c : Catalog} {entity : String} {e : EntityMapping} {key : KeyColumn}

lemma ask_eq_ok {α : Type} {x : Except MappingError α} {a : α} : ask x = .ok a ↔ x = .ok a := by
  cases x <;> simp [ask, Except.mapError]

/-- Whether an entity has no other key than a scalar. -/
def HasScalarKey (c : Catalog) (entity : String) : Prop :=
  ∀ e, c.find? entity = some e → ∀ p, e.id? = some p → p.isScalar = true

/-- A key that is a scalar is a column that others can refer to. -/
lemma exists_keyColumn (he : c.find? entity = some e) (hid : e.id?.isSome)
    (hscalar : HasScalarKey c entity) : ∃ key, keyColumn c entity = .ok key := by
  obtain ⟨p, hp⟩ := Option.isSome_iff_exists.1 hid
  have hkind := hscalar e he p hp
  have hstored := Catalog.propertyMapping_ref he (EntityMapping.property?_id hp)
  unfold PropertyMapping.isScalar at hkind
  split at hkind
  · rename_i type nullable maxLength hk
    refine ⟨⟨⟨{ name := e.table }, p.column⟩, type, maxLength⟩, ?_⟩
    refine bind_eq_ok.2 ⟨_, Catalog.idProperty_of_find? he hp, bind_eq_ok.2 ⟨p, hstored, ?_⟩⟩
    rw [hk]
    exact bind_eq_ok.2 ⟨_, Catalog.tableName_of_find? he, rfl⟩
  · cases hkind

/-- A key column stands in the table of its entity. -/
lemma tableName_of_keyColumn (h : keyColumn c entity = .ok key) :
    ∃ table, c.tableName entity = .ok table ∧ key.reference.table = { name := table } := by
  obtain ⟨id, -, h⟩ := bind_eq_ok.1 h
  obtain ⟨stored, -, h⟩ := bind_eq_ok.1 h
  split at h
  · obtain ⟨table, htable, h⟩ := bind_eq_ok.1 h
    cases h
    exact ⟨table, htable, rfl⟩
  · cases h

end Keys

/-! ### Kinds of storage -/

section Storage

variable {c : Catalog} {entity : String} {e : EntityMapping} {p : PropertyMapping}

/-- What a property of an entity is stored as: a scalar and a reference as a column, a collection
as a column of its target's table, a relation through a link table as that table. -/
inductive StoredAs (c : Catalog) (entity : String) (p : PropertyMapping) : Storage → Prop
  | scalar {type : DataType} {nullable : Bool} {maxLength : Option Nat} {col : ColumnDef}
      (hkind : p.kind = .scalar type nullable maxLength) (hname : col.name = p.column)
      (hreferences : col.references = none) : StoredAs c entity p (.column col)
  | reference {target : String} {key : KeyColumn} (hkind : p.kind = .reference target)
      (hkey : keyColumn c target = .ok key) :
      StoredAs c entity p (.column { key.referring p.column with nullable := true })
  | collection {target table : String} {key : KeyColumn} (hkind : p.kind = .collection target)
      (hkey : keyColumn c entity = .ok key) (htable : c.tableName target = .ok table) :
      StoredAs c entity p (.outside (.alter { name := table }
        [.addColumn { key.referring p.column with maxLength := none, nullable := true }]))
  | link {target link ownerColumn targetColumn : String} {owner other : KeyColumn}
      (hkind : p.kind = .manyToMany target link ownerColumn targetColumn)
      (howner : keyColumn c entity = .ok owner) (hother : keyColumn c target = .ok other) :
      StoredAs c entity p (.outside (.create { name := link }
        [owner.referring ownerColumn, other.referring targetColumn]
        [.primaryKey [ownerColumn, targetColumn]]))

lemma storedAs_of_storage {isId : Bool} {x : Storage} (h : storage c entity p isId = .ok x) :
    StoredAs c entity p x := by
  unfold storage at h
  split at h
  · rename_i hk
    cases h
    refine .scalar hk ?_ ?_ <;> cases isId <;> rfl
  · rename_i hk
    obtain ⟨key, hkey, h⟩ := bind_eq_ok.1 h
    cases h
    exact .reference hk (ask_eq_ok.1 hkey)
  · rename_i hk
    cases isId with
    | true => cases h
    | false =>
      obtain ⟨key, hkey, h⟩ := bind_eq_ok.1 h
      obtain ⟨table, htable, h⟩ := bind_eq_ok.1 h
      cases h
      exact .collection hk (ask_eq_ok.1 hkey) (ask_eq_ok.1 htable)
  · rename_i hk
    cases isId with
    | true => cases h
    | false =>
      obtain ⟨owner, howner, h⟩ := bind_eq_ok.1 h
      obtain ⟨other, hother, h⟩ := bind_eq_ok.1 h
      cases h
      exact .link hk (ask_eq_ok.1 howner) (ask_eq_ok.1 hother)

/-- In a validated catalog a property is stored if the keys of both sides are scalars. -/
lemma exists_storage (hc : c.validate = .ok ()) (he : c.find? entity = some e)
    (hp : p ∈ e.properties) (hown : HasScalarKey c entity)
    (htarget : ∀ t, p.target? = some t → HasScalarKey c t) {isId : Bool}
    (hid : isId = true → p.isScalar = true) : ∃ x, storage c entity p isId = .ok x := by
  unfold storage
  cases hk : p.kind with
  | scalar type nullable maxLength => exact ⟨_, rfl⟩
  | reference target =>
    have ht : p.target? = some target := by simp [PropertyMapping.target?, hk]
    obtain ⟨⟨t, hfind, htid⟩, -⟩ := Catalog.navigation_of_validate hc he hp ht
    obtain ⟨key, hkey⟩ := exists_keyColumn hfind htid (htarget target ht)
    exact ⟨_, bind_eq_ok.2 ⟨key, ask_eq_ok.2 hkey, rfl⟩⟩
  | collection target =>
    have ht : p.target? = some target := by simp [PropertyMapping.target?, hk]
    have hmany : p.isReference = false := by simp [PropertyMapping.isReference, hk]
    have hisId : isId = false := by simpa [PropertyMapping.isScalar, hk] using hid
    obtain ⟨⟨t, hfind, -⟩, hkeyed⟩ := Catalog.navigation_of_validate hc he hp ht
    obtain ⟨key, hkey⟩ := exists_keyColumn he (hkeyed hmany) hown
    rw [hisId]
    exact ⟨_, bind_eq_ok.2 ⟨key, ask_eq_ok.2 hkey,
      bind_eq_ok.2 ⟨_, ask_eq_ok.2 (Catalog.tableName_of_find? hfind), rfl⟩⟩⟩
  | manyToMany target link ownerColumn targetColumn =>
    have ht : p.target? = some target := by simp [PropertyMapping.target?, hk]
    have hmany : p.isReference = false := by simp [PropertyMapping.isReference, hk]
    have hisId : isId = false := by simpa [PropertyMapping.isScalar, hk] using hid
    obtain ⟨⟨t, hfind, htid⟩, hkeyed⟩ := Catalog.navigation_of_validate hc he hp ht
    obtain ⟨owner, howner⟩ := exists_keyColumn he (hkeyed hmany) hown
    obtain ⟨other, hother⟩ := exists_keyColumn hfind htid (htarget target ht)
    rw [hisId]
    exact ⟨_, bind_eq_ok.2 ⟨owner, ask_eq_ok.2 howner,
      bind_eq_ok.2 ⟨other, ask_eq_ok.2 hother, rfl⟩⟩⟩

end Storage

/-! ### The layout of an entity -/

section Existence

variable {c : Catalog} {entity : String} {e : EntityMapping}

lemma exists_forall₂ {α β : Type} {R : α → β → Prop} {as : List α} (h : ∀ a ∈ as, ∃ b, R a b) :
    ∃ bs, List.Forall₂ R as bs := by
  induction as with
  | nil => exact ⟨[], .nil⟩
  | cons a as ih =>
    obtain ⟨b, hb⟩ := h a List.mem_cons_self
    obtain ⟨bs, hbs⟩ := ih fun x hx => h x (List.mem_cons_of_mem a hx)
    exact ⟨b :: bs, .cons hb hbs⟩

lemma exists_of_mem_forall₂ {α β : Type} {R : α → β → Prop} {as : List α} {bs : List β}
    (h : List.Forall₂ R as bs) {b : β} (hb : b ∈ bs) : ∃ a ∈ as, R a b := by
  induction h with
  | nil => cases hb
  | cons hab _ ih =>
    rcases List.mem_cons.1 hb with rfl | hb
    · exact ⟨_, List.mem_cons_self, hab⟩
    · obtain ⟨a, ha, hab⟩ := ih hb
      exact ⟨a, List.mem_cons_of_mem _ ha, hab⟩

/-- Only the key counts as the key. -/
lemma isScalar_of_isId (he : c.find? entity = some e) (hown : HasScalarKey c entity)
    {q p : PropertyMapping} (hp : e.property? q.name = some p)
    (h : isId c entity (e.ref q) = true) : p.isScalar = true := by
  unfold isId at h
  cases hid : e.id? with
  | none => simp [Catalog.idProperty, Catalog.entity, he, hid, bind, Except.bind] at h
  | some k =>
    rw [Catalog.idProperty_of_find? he hid] at h
    have hname : k.name = q.name := by
      simpa [PropertyRef.same, EntityMapping.ref] using h
    have hfound := EntityMapping.property?_id hid
    rw [hname, hp] at hfound
    cases hfound
    exact hown e he _ hid

/-- In a validated catalog an entity has a layout if its key and those of the entities it leads to
are scalars. -/
theorem exists_layout (hc : c.validate = .ok ()) (he : c.find? entity = some e)
    (hown : HasScalarKey c entity)
    (htargets : ∀ p ∈ e.properties, ∀ t, p.target? = some t → HasScalarKey c t) :
    ∃ l, layout c entity = .ok l := by
  have hstorages : ∀ r ∈ e.properties.map e.ref, ∃ x, storageIn c entity r = .ok x := by
    intro r hr
    obtain ⟨q, hq, rfl⟩ := List.mem_map.1 hr
    have hfound := EntityMapping.property?_name hq
    have hp := (EntityMapping.property?_eq_some hfound).1
    obtain ⟨x, hx⟩ := exists_storage hc he hp hown (htargets _ hp)
      (isScalar_of_isId he hown hfound)
    exact ⟨x, bind_eq_ok.2 ⟨_, ask_eq_ok.2 (Catalog.propertyMapping_ref he hfound), hx⟩⟩
  obtain ⟨xs, hxs⟩ := exists_forall₂ hstorages
  exact ⟨_, bind_eq_ok.2 ⟨_, ask_eq_ok.2 (Catalog.tableName_of_find? he),
    bind_eq_ok.2 ⟨_, ask_eq_ok.2 (Catalog.properties_of_find? he),
      bind_eq_ok.2 ⟨xs, mapM_eq_ok_iff.2 hxs, rfl⟩⟩⟩⟩

/-- The layout of an entity stores its properties as their kinds say. -/
theorem layout_eq_ok {l : Layout} (h : layout c entity = .ok l) :
    ∃ e xs, c.find? entity = some e ∧ List.Forall₂ (StoredAs c entity) e.stored xs ∧
      l = ⟨entity, e.table, xs.filterMap Storage.column?, xs.filterMap Storage.outside?⟩ := by
  obtain ⟨table, htable, h⟩ := bind_eq_ok.1 h
  obtain ⟨e, he, htable⟩ := bind_eq_ok.1 (ask_eq_ok.1 htable)
  rw [Catalog.entity_eq_ok] at he
  obtain ⟨ps, hps, h⟩ := bind_eq_ok.1 h
  rw [ask_eq_ok, Catalog.properties_of_find? he] at hps
  cases htable
  cases hps
  obtain ⟨xs, hxs, h⟩ := bind_eq_ok.1 h
  cases h
  refine ⟨e, xs, he, ?_, rfl⟩
  have hpairs := List.forall₂_map_left_iff.1 (mapM_eq_ok_iff.1 hxs)
  refine List.forall₂_map_left_iff.2 (hpairs.imp fun q x hx => ?_)
  obtain ⟨m, hm, hx⟩ := bind_eq_ok.1 hx
  obtain ⟨f, hf, hfound⟩ := Catalog.propertyMapping_eq_ok (ask_eq_ok.1 hm)
  have hname : (e.ref q).owner = entity := Catalog.name_of_find? he
  rw [hname, he] at hf
  cases hf
  rw [show (e.ref q).name = q.name from rfl] at hfound
  rw [hfound, Option.getD_some]
  exact storedAs_of_storage hx

/-- A column of a layout stores a property of the entity. -/
lemma storedAs_of_mem_columns {l : Layout} (h : layout c entity = .ok l) {col : ColumnDef}
    (hcol : col ∈ l.columns) :
    ∃ e p, c.find? entity = some e ∧ p ∈ e.stored ∧ StoredAs c entity p (.column col) := by
  obtain ⟨e, xs, he, hxs, rfl⟩ := layout_eq_ok h
  obtain ⟨x, hx, hcolumn⟩ := List.mem_filterMap.1 hcol
  obtain ⟨p, hp, hstored⟩ := exists_of_mem_forall₂ hxs hx
  cases x with
  | column col' =>
    cases hcolumn
    exact ⟨e, p, he, hp, hstored⟩
  | outside definition => cases hcolumn

/-- A definition outside a layout stores a property of the entity. -/
lemma storedAs_of_mem_outside {l : Layout} (h : layout c entity = .ok l) {definition : Definition}
    (hdefinition : definition ∈ l.outside) :
    ∃ e p, c.find? entity = some e ∧ p ∈ e.stored ∧
      StoredAs c entity p (.outside definition) := by
  obtain ⟨e, xs, he, hxs, rfl⟩ := layout_eq_ok h
  obtain ⟨x, hx, houtside⟩ := List.mem_filterMap.1 hdefinition
  obtain ⟨p, hp, hstored⟩ := exists_of_mem_forall₂ hxs hx
  cases x with
  | column col => cases houtside
  | outside definition' =>
    cases houtside
    exact ⟨e, p, he, hp, hstored⟩

end Existence

end EntityQuery.Schema

/-! ### What a failed step leaves in the scripts -/

namespace EntityQuery

/-- Steps that fail from one state with an error and another state. -/
def Fails {ε σ α : Type} (x : ExceptT ε (StateM σ) α) (s : σ) (e : ε) (t : σ) : Prop :=
  x.run.run s = (.error e, t)

/-! ### Steps in a row -/

section General

variable {ε σ α β : Type} {s t : σ} {e : ε}

lemma not_fails_pure {a : α} : ¬ Fails (pure a : ExceptT ε (StateM σ) α) s e t := by
  intro h
  cases congrArg Prod.fst h

lemma not_fails_modify {f : σ → σ} :
    ¬ Fails (modify f : ExceptT ε (StateM σ) PUnit) s e t := by
  intro h
  cases congrArg Prod.fst h

lemma fails_throw {e' : ε} : Fails (throw e' : ExceptT ε (StateM σ) α) s e t ↔ e = e' ∧ t = s := by
  change ((Except.error e' : Except ε α), s) = (.error e, t) ↔ _
  simp [eq_comm]

/-- Steps in a row fail at the first that fails. -/
lemma fails_bind {x : ExceptT ε (StateM σ) α} {k : α → ExceptT ε (StateM σ) β} :
    Fails (x >>= k) s e t ↔ Fails x s e t ∨ ∃ a u, Runs x s a u ∧ Fails (k a) u e t := by
  unfold Fails Runs
  rw [run_bind]
  rcases x.run.run s with ⟨e' | a, u⟩
  · dsimp only
    constructor
    · intro h
      cases h
      exact .inl rfl
    · rintro (h | ⟨a, u', h, -⟩)
      · cases h
        rfl
      · cases congrArg Prod.fst h
  · constructor
    · exact fun h => .inr ⟨a, u, rfl, h⟩
    · rintro (h | ⟨a', u', h, h'⟩)
      · cases congrArg Prod.fst h
      · cases h
        exact h'

end General

namespace Schema

variable {c : Catalog} {d : Dialect} {entity name : String} {err : SchemaError} {s t : Script}

lemma fails_need {α : Type} {answer : Except SchemaError α} :
    Fails (need answer) s err t ↔ answer = .error err ∧ t = s := by
  change (answer, s) = (.error err, t) ↔ _
  simp [eq_comm]

/-- What follows a question fails with it, or with its answer. -/
lemma fails_need_bind {α β : Type} {answer : Except SchemaError α} {k : α → Planner β} :
    Fails (need answer >>= k) s err t ↔
      (answer = .error err ∧ t = s) ∨ ∃ a, answer = .ok a ∧ Fails (k a) s err t := by
  rw [fails_bind, fails_need]
  refine or_congr_right ⟨?_, ?_⟩
  · rintro ⟨a, u, hrun, h⟩
    obtain ⟨ha, rfl⟩ := runs_need.1 hrun
    exact ⟨a, ha, h⟩
  · rintro ⟨a, ha, h⟩
    exact ⟨a, s, runs_need.2 ⟨ha, rfl⟩, h⟩

/-- The columns of properties fail at the first property without storage, after the constraints of
those before it. -/
lemma fails_inlineColumns {ps : List PropertyRef} (h : Fails (inlineColumns d c entity ps) s err t) :
    ∃ before p after xs, ps = before ++ p :: after ∧
      List.Forall₂ (fun q x => storageIn c entity q = .ok x) before xs ∧
      storageIn c entity p = .error err ∧
      t = { s with constraints :=
        s.constraints ++ (xs.filterMap Storage.outside?).map (Definition.text d) } := by
  induction ps generalizing s with
  | nil => exact absurd h not_fails_pure
  | cons p ps ih =>
    rw [inlineColumns, storageOf_eq_need] at h
    rcases fails_need_bind.1 h with ⟨hp, rfl⟩ | ⟨x, hp, h⟩
    · exact ⟨[], p, ps, [], rfl, .nil, hp, by simp⟩
    · cases x with
      | column col =>
        obtain h | ⟨_, _, -, h⟩ := fails_bind.1 h
        · obtain ⟨before, q, after, xs, rfl, hxs, hq, rfl⟩ := ih h
          exact ⟨p :: before, q, after, .column col :: xs, rfl, .cons hp hxs, hq, rfl⟩
        · exact absurd h not_fails_pure
      | outside definition =>
        obtain h | ⟨_, u, hadd, h⟩ := fails_bind.1 h
        · exact absurd h not_fails_modify
        · obtain rfl := runs_modify.1 hadd
          obtain ⟨before, q, after, xs, rfl, hxs, hq, rfl⟩ := ih h
          refine ⟨p :: before, q, after, .outside definition :: xs, rfl, .cons hp hxs, hq, ?_⟩
          simp [Storage.outside?]

/-- A table fails before anything is written, or at a property without storage. -/
lemma fails_createTable (h : Fails (createTable d c entity) s err t) :
    t = s ∨ ∃ before p after xs, c.properties entity = .ok (before ++ p :: after) ∧
      List.Forall₂ (fun q x => storageIn c entity q = .ok x) before xs ∧
      storageIn c entity p = .error err ∧
      t = { s with constraints :=
        s.constraints ++ (xs.filterMap Storage.outside?).map (Definition.text d) } := by
  unfold createTable at h
  rcases fails_need_bind.1 h with ⟨-, rfl⟩ | ⟨table, -, h⟩
  · exact .inl rfl
  rcases fails_need_bind.1 h with ⟨-, rfl⟩ | ⟨ps, hps, h⟩
  · exact .inl rfl
  rcases fails_bind.1 h with h | ⟨columns, u, -, h⟩
  · obtain ⟨before, p, after, xs, rfl, hxs, hp, rfl⟩ := fails_inlineColumns h
    exact .inr ⟨before, p, after, xs, ask_eq_ok.1 hps, hxs, hp, rfl⟩
  · exact absurd h not_fails_modify

/-- A property that cannot be added leaves the scripts as they are. -/
lemma fails_addProperty (h : Fails (addProperty d c entity name) s err t) : t = s := by
  unfold addProperty at h
  rcases fails_need_bind.1 h with ⟨-, rfl⟩ | ⟨ps, -, h⟩
  · rfl
  split at h
  · exact (fails_throw.1 h).2
  rw [storageOf_eq_need] at h
  rcases fails_need_bind.1 h with ⟨-, rfl⟩ | ⟨x, -, h⟩
  · rfl
  cases x with
  | column col =>
    rcases fails_need_bind.1 h with ⟨-, rfl⟩ | ⟨table, -, h⟩
    · rfl
    · exact absurd h not_fails_modify
  | outside definition => exact absurd h not_fails_modify

/-- **What a failed step leaves.** On any catalog, from any scripts, a step that fails leaves the
scripts as they were; or it creates a table and fails at a property without storage, and all that it
leaves are the constraints of the relations to many that are declared before this property. -/
theorem perform_fails {step : Step} (h : Fails (perform d c step) s err t) :
    t = s ∨ ∃ entity before p after xs, step = .createTable entity ∧
      c.properties entity = .ok (before ++ p :: after) ∧
      List.Forall₂ (fun q x => storageIn c entity q = .ok x) before xs ∧
      storageIn c entity p = .error err ∧
      t = { s with constraints :=
        s.constraints ++ (xs.filterMap Storage.outside?).map (Definition.text d) } := by
  match step with
  | .createTable entity => exact (fails_createTable h).imp_right fun ⟨before, p, after, xs, h⟩ =>
      ⟨entity, before, p, after, xs, rfl, h⟩
  | .addColumn entity none => exact .inl (fails_throw.1 h).2
  | .addColumn entity (some name) => exact .inl (fails_addProperty h)

namespace Parcel

/-- Parcels with labels and a sender. The key of a sender is a reference, so no column refers to
senders. -/
def catalog : Catalog :=
  ⟨[⟨"Parcel", "PARCEL", some "id", [⟨"id", "ID", .scalar .int false none⟩,
      ⟨"labels", "IDFK_LABELS", .collection "Label"⟩, ⟨"sender", "IDFK_SENDER", .reference "Sender"⟩]⟩,
    ⟨"Label", "LABEL", some "id", [⟨"id", "ID", .scalar .int false none⟩]⟩,
    ⟨"Sender", "SENDER", some "parcel", [⟨"parcel", "IDFK_PARCEL", .reference "Parcel"⟩]⟩]⟩

def failure : SchemaError :=
  .mapping (.invalidRelation "Sender.parcel" "an id property must be a scalar")

lemma fails_createTable :
    Fails (perform .postgres catalog (.createTable "Parcel")) {} failure
      ⟨[], ["ALTER TABLE \"LABEL\" ADD COLUMN \"IDFK_LABELS\" INTEGER REFERENCES \"PARCEL\" (\"ID\")"]⟩ := by
  change (_ : Except SchemaError Unit × Script) = _
  decide +kernel

end Parcel

theorem perform_fails_parcel : ∃ t, Fails (perform .postgres Parcel.catalog (.createTable "Parcel")) {}
    Parcel.failure t ∧ (t = {} ∨ ∃ entity before p after xs, .createTable "Parcel" = Step.createTable entity ∧
      Parcel.catalog.properties entity = .ok (before ++ p :: after) ∧
      List.Forall₂ (fun q x => storageIn Parcel.catalog entity q = .ok x) before xs ∧
      storageIn Parcel.catalog entity p = .error Parcel.failure ∧
      t = ⟨[], (xs.filterMap Storage.outside?).map (Definition.text .postgres)⟩) :=
  ⟨_, Parcel.fails_createTable, perform_fails Parcel.fails_createTable⟩

/-- A failed step leaves scripts behind: the column of the labels is to be added, though the table
of the parcels that it refers to is not created. -/
theorem createTable_leaves_constraint :
    Parcel.catalog.validate = .ok () ∧ ∃ t : Script,
      Fails (perform .postgres Parcel.catalog (.createTable "Parcel")) {} Parcel.failure t ∧
        t.constraints ≠ [] :=
  ⟨rfl, _, Parcel.fails_createTable, by simp⟩

end Schema

end EntityQuery
