import EntityQuery.Proofs.Planning.Once

/-!
The types of columns that refer to keys.

* `foreignColumns`: the columns that a relation is stored in, each with the entity whose key it takes.
* Whether a table is created or a property added, these are the columns with a reference that are
  defined. A reference and both columns of a link table have the SQL type of the key they refer to.
* The column of a collection is defined without the length of its key. It has the type of the key
  where that length does not show.
-/

namespace EntityQuery

/-! ### Lengths that do not show -/

namespace DataType

/-- Whether a type is written in the same way with a length and without one. -/
def hidesLength (d : Dialect) (t : DataType) (maxLength : Option Nat) : Bool :=
  !t.takesLength || maxLength.isNone || maxLength == t.defaultLength d

lemma sqlType_some {d : Dialect} {t : DataType} (h : t.takesLength = true) (n : Nat) :
    t.sqlType d (some n) = t.sqlName d ++ ("(" ++ (n.repr ++ ")")) := by
  simp [sqlType, h, String.append_assoc]

lemma sqlType_some_inj {d : Dialect} {t : DataType} (h : t.takesLength = true) {k n : Nat} :
    t.sqlType d (some k) = t.sqlType d (some n) ↔ k = n := by
  refine ⟨fun heq => ?_, congrArg _ ∘ congrArg some⟩
  rw [sqlType_some h, sqlType_some h, String.append_right_inj, String.append_right_inj,
    String.append_left_inj, ← String.toList_inj, Nat.toList_repr, Nat.toList_repr] at heq
  simpa [Nat.ofDigitChars_toDigits] using congrArg (fun digits => Nat.ofDigitChars 10 digits 0) heq

lemma sqlType_eq_iff (d : Dialect) (t : DataType) (maxLength : Option Nat) :
    t.sqlType d none = t.sqlType d maxLength ↔ t.hidesLength d maxLength = true := by
  cases htakes : t.takesLength with
  | false =>
    have hplain : ∀ n, t.sqlType d n = t.sqlName d := fun n => by
      unfold sqlType
      split <;> simp [htakes]
    simp [hplain, hidesLength, htakes]
  | true =>
    cases maxLength with
    | none => simp [hidesLength]
    | some n =>
      have hnone : t.sqlType d none = (t.defaultLength d).elim (t.sqlName d)
          fun k => t.sqlType d (some k) := by
        cases hdefault : t.defaultLength d <;> simp [sqlType, hdefault]
      rw [hnone]
      cases hdefault : t.defaultLength d with
      | none =>
        simp only [Option.elim_none, sqlType_some htakes, hidesLength, htakes, hdefault]
        refine iff_of_false (fun h => ?_) (by simp)
        have hlength := congrArg String.length h
        simp only [String.length_append] at hlength
        have hopen : "(".length = 1 := rfl
        omega
      | some k =>
        rw [Option.elim_some, sqlType_some_inj htakes, eq_comm]
        simp [hidesLength, htakes, hdefault]

end DataType

namespace Schema

/-! ### Columns that refer to keys -/

/-- The SQL type that the definition of a column shows after its name. -/
def ColumnDef.typeText (d : Dialect) (col : ColumnDef) : String := col.type.sqlType d col.maxLength

/-- The columns that a definition defines. -/
def Definition.columnDefs : Definition → List ColumnDef
  | .create _ cols _ => cols
  | .alter _ changes => changes.filterMap fun
    | .addColumn col => some col
    | .addConstraint _ => none

def Storage.columnDefs : Storage → List ColumnDef
  | .column col => [col]
  | .outside x => x.columnDefs

end Schema

/-- The columns that a relation of an entity is stored in, each with the entity whose key it takes. -/
def PropertyMapping.foreignColumns (entity : String) (p : PropertyMapping) : List (String × String) :=
  match p.kind with
  | .scalar _ _ _ => []
  | .reference target => [(p.column, target)]
  | .collection _ => [(p.column, entity)]
  | .manyToMany target _ ownerColumn targetColumn => [(ownerColumn, entity), (targetColumn, target)]

namespace Schema

/-- A column is the key in the table of an entity. -/
def IsKeyOf (c : Catalog) (entity table : String) (key : ColumnDef) : Prop :=
  ∃ l, layout c entity = .ok l ∧ l.table = table ∧ key ∈ l.columns ∧ key.isKey = true

/-- A column of a relation refers to the key of an entity. It has the SQL type of this key, unless it
is the column of a collection and the key shows a length. -/
def IsForeignColumn (c : Catalog) (d : Dialect) (p : PropertyMapping) (fk : String × String)
    (col : ColumnDef) : Prop :=
  col.name = fk.1 ∧ ∃ table key, IsKeyOf c fk.2 table key ∧
    col.references = some ⟨{ name := table }, key.name⟩ ∧
    (col.typeText d = key.typeText d ↔
      p.collected? = none ∨ key.type.hidesLength d key.maxLength = true)

variable {c : Catalog} {d : Dialect} {entity name : String} {e : EntityMapping} {p : PropertyMapping}

/-- Whether all keys are scalars. -/
def ScalarKeys (c : Catalog) : Prop := ∀ e ∈ c.entities, e.id?.all PropertyMapping.isScalar = true

lemma ScalarKeys.hasScalarKey (hkeys : ScalarKeys c) (entity : String) : HasScalarKey c entity :=
  fun e he => (Option.all_eq_true _ _).1 (hkeys e (List.mem_of_find?_eq_some he))

/-- A property that is stored as a column is a column of the layout. -/
lemma mem_columns_of_storageIn {l : Layout} (h : layout c entity = .ok l)
    (he : c.find? entity = some e) (hp : p ∈ e.properties) {col : ColumnDef}
    (hstored : storageIn c entity (e.ref p) = .ok (.column col)) : col ∈ l.columns := by
  obtain ⟨table, -, h⟩ := bind_eq_ok.1 h
  obtain ⟨ps, hps, h⟩ := bind_eq_ok.1 h
  rw [ask_eq_ok, Catalog.properties_of_find? he] at hps
  cases hps
  obtain ⟨xs, hxs, h⟩ := bind_eq_ok.1 h
  cases h
  obtain ⟨x, hx, hpx⟩ : ∃ x ∈ xs, storageIn c entity (e.ref p) = .ok x :=
    exists_of_mem_forall₂ (mapM_eq_ok_iff.1 hxs).flip (List.mem_map_of_mem hp)
  rw [hstored] at hpx
  cases hpx
  exact List.mem_filterMap.2 ⟨_, hx, rfl⟩

/-- What other columns refer to is the key in the table of its entity. -/
lemma isKeyOf_keyColumn (hc : c.validate = .ok ()) (hkeys : ScalarKeys c) {k : KeyColumn}
    (h : keyColumn c entity = .ok k) : ∃ table key, IsKeyOf c entity table key ∧
      k.reference = ⟨{ name := table }, key.name⟩ ∧ k.type = key.type ∧ k.maxLength = key.maxLength := by
  obtain ⟨id, hid, h⟩ := bind_eq_ok.1 h
  obtain ⟨e, he, hid⟩ := bind_eq_ok.1 hid
  rw [Catalog.entity_eq_ok] at he
  cases hq : e.id? with
  | none => simp [hq] at hid
  | some q =>
    obtain rfl : e.ref q = id := by simpa [hq] using hid
    have hfound := EntityMapping.property?_id hq
    have hmem := (EntityMapping.property?_eq_some hfound).1
    obtain ⟨stored, hstored, h⟩ := bind_eq_ok.1 h
    have hmapping := Catalog.propertyMapping_ref he hfound
    obtain rfl := Except.ok.inj (hmapping.symm.trans hstored)
    obtain ⟨l, hl⟩ := exists_layout hc he (hkeys.hasScalarKey entity)
      fun _ _ target _ => hkeys.hasScalarKey target
    obtain ⟨m, xs, hm, -, hlayout⟩ := layout_eq_ok hl
    obtain rfl := Option.some.inj (he.symm.trans hm)
    split at h
    · rename_i type nullable maxLength hkind
      obtain ⟨table, htable, h⟩ := bind_eq_ok.1 h
      rw [Catalog.tableName_of_find? he] at htable
      cases htable
      cases h
      have hisId : isId c entity (e.ref q) = true := by
        simp [isId, Catalog.idProperty_of_find? he hq, PropertyRef.same]
      let key : ColumnDef :=
        { name := q.column, type, maxLength, isKey := true, isIdentity := type.isInteger }
      have hstorage : storageIn c entity (e.ref q) = .ok (.column key) := by
        refine bind_eq_ok.2 ⟨q, ask_eq_ok.2 hmapping, ?_⟩
        rw [storage, hkind, hisId]
        rfl
      refine ⟨e.table, key, ⟨l, hl, ?_, mem_columns_of_storageIn hl he hmem hstorage, rfl⟩, rfl, rfl, rfl⟩
      rw [hlayout]
    · cases h

/-- **The columns of a relation refer to keys**, and whatever else is stored has no reference. -/
lemma isForeignColumn_of_storedAs (hc : c.validate = .ok ()) (hkeys : ScalarKeys c) (d : Dialect)
    {x : Storage} (h : StoredAs c entity p x) :
    List.Forall₂ (IsForeignColumn c d p) (p.foreignColumns entity)
      (x.columnDefs.filter (·.references.isSome)) := by
  have hkey : ∀ {target column k} (cut : Bool), keyColumn c target = .ok k →
      (p.collected?.isSome = cut) → ∀ nullable, IsForeignColumn c d p (column, target)
        { k.referring column with
          maxLength := if cut then none else k.maxLength, nullable := nullable } := by
    intro target column k cut hk hcut nullable
    obtain ⟨table, key, hkey, href, htype, hlength⟩ := isKeyOf_keyColumn hc hkeys hk
    refine ⟨rfl, table, key, hkey, congrArg some href, ?_⟩
    cases cut with
    | false =>
      have hnone : p.collected? = none := by simpa using hcut
      simp [ColumnDef.typeText, KeyColumn.referring, htype, hlength, hnone]
    | true =>
      have hsome : p.collected? ≠ none := by
        rw [← Option.isSome_iff_ne_none, hcut]
      simp [ColumnDef.typeText, KeyColumn.referring, htype, DataType.sqlType_eq_iff, hsome]
  cases h with
  | scalar hkind _ hreferences =>
    simp [PropertyMapping.foreignColumns, hkind, Storage.columnDefs, hreferences]
  | @reference target k hkind hk =>
    have hnone : p.collected?.isSome = false := by simp [PropertyMapping.collected?, hkind]
    simpa [PropertyMapping.foreignColumns, hkind, Storage.columnDefs, KeyColumn.referring] using
      hkey false hk hnone true
  | @collection target table k hkind hk _ =>
    have hsome : p.collected?.isSome = true := by simp [PropertyMapping.collected?, hkind]
    simpa [PropertyMapping.foreignColumns, hkind, Storage.columnDefs, Definition.columnDefs,
      KeyColumn.referring] using hkey true hk hsome true
  | @link target link ownerColumn targetColumn owner other hkind howner hother =>
    have hnone : p.collected?.isSome = false := by simp [PropertyMapping.collected?, hkind]
    simpa [PropertyMapping.foreignColumns, hkind, Storage.columnDefs, Definition.columnDefs,
      KeyColumn.referring] using And.intro (hkey false howner hnone false) (hkey false hother hnone false)

/-! ### Steps -/

/-- A step writes properties of an entity: those of its table, or one that is added. -/
inductive Step.Writes (c : Catalog) : Step → String → List PropertyMapping → Prop
  | table {entity : String} {e : EntityMapping} (he : c.find? entity = some e) :
      Writes c (.createTable entity) entity e.stored
  | property {entity name : String} {e : EntityMapping} {p : PropertyMapping}
      (he : c.find? entity = some e) (hp : e.property? name = some p) :
      Writes c (.addColumn entity (some name)) entity [p]

/-- The columns inside the table, then those outside, are the columns of all that is stored. -/
lemma perm_columnDefs (xs : List Storage) :
    (xs.filterMap Storage.column? ++
      (xs.filterMap Storage.outside?).flatMap Definition.columnDefs).Perm
        (xs.map Storage.columnDefs).flatten := by
  induction xs with
  | nil => exact .nil
  | cons x xs ih =>
    cases x with
    | column col => exact ih.cons col
    | outside y =>
      simp only [List.filterMap_cons, Storage.column?, Storage.outside?, List.flatMap_cons, List.map_cons,
        List.flatten_cons, Storage.columnDefs]
      exact (List.perm_append_comm_assoc _ _ _).trans (ih.append_left _)

/-- The script of a property that is added is the text of what it is stored as. -/
lemma runs_addProperty (he : c.find? entity = some e) (hp : e.property? name = some p) {x : Storage}
    (hx : storageIn c entity (e.ref p) = .ok x) (script : Script) :
    ∃ objects constraints : List Definition, Runs (addProperty d c entity name) script ()
        ⟨script.objects ++ objects.map (Definition.text d),
          script.constraints ++ constraints.map (Definition.text d)⟩ ∧
      (objects ++ constraints).flatMap Definition.columnDefs = x.columnDefs := by
  have hfind : (e.properties.map e.ref).find? (fun q => q.name = name) = some (e.ref p) := by
    rw [List.find?_map]
    exact congrArg (Option.map e.ref) hp
  unfold addProperty
  rw [Catalog.properties_of_find? he]
  cases x with
  | column col =>
    refine ⟨[.alter { name := e.table } [.addColumn col]], [], ?_, rfl⟩
    refine Runs.bind (runs_need.2 ⟨rfl, rfl⟩) ?_
    rw [hfind]
    dsimp only
    rw [storageOf_eq_need, hx, Catalog.tableName_of_find? he]
    refine Runs.bind (runs_need.2 ⟨rfl, rfl⟩) (Runs.bind (runs_need.2 ⟨rfl, rfl⟩) (runs_modify.2 ?_))
    simp
  | outside y =>
    refine ⟨[], [y], ?_, by simp [Storage.columnDefs]⟩
    refine Runs.bind (runs_need.2 ⟨rfl, rfl⟩) ?_
    rw [hfind]
    dsimp only
    rw [storageOf_eq_need, hx]
    refine Runs.bind (runs_need.2 ⟨rfl, rfl⟩) (runs_modify.2 ?_)
    simp

/-- A step that writes properties succeeds, and defines the columns of what they are stored as. -/
lemma runs_perform (hc : c.validate = .ok ()) (hkeys : ScalarKeys c) (d : Dialect) {step : Step}
    {ps : List PropertyMapping} (h : step.Writes c entity ps) (script : Script) :
    ∃ xs, List.Forall₂ (StoredAs c entity) ps xs ∧
      ∃ objects constraints : List Definition,
        Runs (perform d c step) script () ⟨script.objects ++ objects.map (Definition.text d),
          script.constraints ++ constraints.map (Definition.text d)⟩ ∧
        ((objects ++ constraints).flatMap Definition.columnDefs).Perm
          (xs.map Storage.columnDefs).flatten := by
  cases h with
  | @table _ e he =>
    obtain ⟨l, hl⟩ := exists_layout hc he (hkeys.hasScalarKey entity)
      fun _ _ target _ => hkeys.hasScalarKey target
    obtain ⟨m, xs, hm, hxs, rfl⟩ := layout_eq_ok hl
    obtain rfl := Option.some.inj (he.symm.trans hm)
    refine ⟨xs, hxs, [_], _, runs_createTable hl script, ?_⟩
    simpa [Layout.create, Definition.columnDefs] using perm_columnDefs xs
  | @property _ name e p he hp =>
    have hname := (EntityMapping.property?_eq_some hp).2
    have hscalar : isId c entity (e.ref p) = true → p.isScalar = true :=
      isScalar_of_isId he (hkeys.hasScalarKey entity) (hname.symm ▸ hp)
    obtain ⟨x, hx⟩ := exists_storage hc he (EntityMapping.property?_eq_some hp).1
      (hkeys.hasScalarKey entity) (fun target _ => hkeys.hasScalarKey target) hscalar
    have hstorage : storageIn c entity (e.ref p) = .ok x :=
      bind_eq_ok.2 ⟨p, ask_eq_ok.2 (Catalog.propertyMapping_ref he (hname.symm ▸ hp)), hx⟩
    obtain ⟨objects, constraints, hruns, hcolumns⟩ := runs_addProperty (d := d) he hp hstorage script
    exact ⟨[x], .cons (storedAs_of_storage hx) .nil, objects, constraints, hruns, by simp [hcolumns]⟩

/-- **Columns of relations refer to keys.** On a validated catalog whose keys are scalars, creating
the table of an entity or adding a property to it succeeds. The columns that are defined belong to
the properties; those of a property that have a reference are the columns that the relation is
stored in. Each refers to the key of the entity at its end and shows the type of this key, but for
the column of a collection whose key shows a length. -/
theorem perform_foreignColumns (hc : c.validate = .ok ()) (hkeys : ScalarKeys c) (d : Dialect)
    {step : Step} {ps : List PropertyMapping} (h : step.Writes c entity ps) (script : Script) :
    ∃ (objects constraints : List Definition) (columns : List (List ColumnDef)),
      Runs (perform d c step) script () ⟨script.objects ++ objects.map (Definition.text d),
        script.constraints ++ constraints.map (Definition.text d)⟩ ∧
      ((objects ++ constraints).flatMap Definition.columnDefs).Perm columns.flatten ∧
      List.Forall₂ (fun p cols => List.Forall₂ (IsForeignColumn c d p) (p.foreignColumns entity)
        (cols.filter (·.references.isSome))) ps columns := by
  obtain ⟨xs, hxs, objects, constraints, hruns, hcolumns⟩ := runs_perform hc hkeys d h script
  exact ⟨objects, constraints, xs.map Storage.columnDefs, hruns, hcolumns,
    List.forall₂_map_right_iff.2 (hxs.imp fun _ _ hx => isForeignColumn_of_storedAs hc hkeys d hx)⟩

namespace Atlas

/-- Countries with a code, their cities and their neighbours; cities and the country they are in. -/
def catalog : Catalog :=
  ⟨[⟨"Country", "COUNTRY", some "code", [⟨"code", "CODE", .scalar .varChar false (some 20)⟩,
      ⟨"cities", "IDFK_CITIES", .collection "City"⟩,
      ⟨"neighbours", "", .manyToMany "Country" "BORDER" "IDFK_ONE" "IDFK_OTHER"⟩]⟩,
    ⟨"City", "CITY", some "id", [⟨"id", "ID", .scalar .int false none⟩,
      ⟨"country", "IDFK_COUNTRY", .reference "Country"⟩]⟩]⟩

end Atlas

theorem perform_foreignColumns_atlas :
    Atlas.catalog.validate = .ok () ∧ ScalarKeys Atlas.catalog ∧
      ∃ (e : EntityMapping) (objects constraints : List Definition) (columns : List (List ColumnDef)),
        Step.Writes Atlas.catalog (.createTable "City") "City" e.stored ∧
        Runs (perform .postgres Atlas.catalog (.createTable "City")) {} ()
          ⟨objects.map (Definition.text .postgres), constraints.map (Definition.text .postgres)⟩ ∧
        ((objects ++ constraints).flatMap Definition.columnDefs).Perm columns.flatten ∧
        List.Forall₂ (fun p cols => List.Forall₂ (IsForeignColumn Atlas.catalog .postgres p)
          (p.foreignColumns "City") (cols.filter (·.references.isSome))) e.stored columns := by
  have hkeys : ScalarKeys Atlas.catalog := by unfold ScalarKeys; decide
  have hwrites := Step.Writes.table (rfl : Atlas.catalog.find? "City" = some _)
  obtain ⟨objects, constraints, columns, hruns, hcolumns, hforeign⟩ :=
    perform_foreignColumns (c := Atlas.catalog) rfl hkeys .postgres hwrites {}
  exact ⟨rfl, hkeys, _, objects, constraints, columns, hwrites, hruns, hcolumns, hforeign⟩

/-- The column of a collection does not have the type of the key it refers to: cities are put into
a country by a text of any length, though the code of a country has a length. The other columns
that refer to countries have this length. -/
theorem collection_drops_length :
    Atlas.catalog.validate = .ok () ∧ ScalarKeys Atlas.catalog ∧
      Runs (perform .postgres Atlas.catalog (.createTable "Country")) {} ()
        ⟨["CREATE TABLE \"COUNTRY\" (\n\t\"CODE\" VARCHAR(20) PRIMARY KEY NOT NULL\n)"],
          ["ALTER TABLE \"CITY\" ADD COLUMN \"IDFK_CITIES\" VARCHAR REFERENCES \"COUNTRY\" (\"CODE\")",
            "CREATE TABLE \"BORDER\" (\n\t\"IDFK_ONE\" VARCHAR(20) NOT NULL REFERENCES \"COUNTRY\" " ++
              "(\"CODE\"),\n\t\"IDFK_OTHER\" VARCHAR(20) NOT NULL REFERENCES \"COUNTRY\" (\"CODE\")," ++
              "\n\tPRIMARY KEY (\"IDFK_ONE\", \"IDFK_OTHER\")\n)"]⟩ ∧
      Runs (perform .postgres Atlas.catalog (.addColumn "City" (some "country"))) {} ()
        ⟨["ALTER TABLE \"CITY\" ADD COLUMN \"IDFK_COUNTRY\" VARCHAR(20) REFERENCES " ++
          "\"COUNTRY\" (\"CODE\")"], []⟩ := by
  refine ⟨by decide +kernel, by unfold ScalarKeys; decide +kernel, ?_, ?_⟩
  · change (_ : Except SchemaError Unit × Script) = _
    decide +kernel
  · change (_ : Except SchemaError Unit × Script) = _
    decide +kernel

end Schema

end EntityQuery
