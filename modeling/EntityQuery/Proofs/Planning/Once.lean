import EntityQuery.Proofs.Planning.References

/-!
What a plan defines more than once, and what it does not.

* `Distinct`: tables, properties and the inline columns of an entity have names of their own.
* `Apart`: relations do not meet in a table or column that another relation or an entity defines,
  unless they define it alike.
* The plan of all entities of such a catalog creates every table once and defines every column
  once. Distinct names alone do not give that: the two sides of a relation may share a link table
  or a column, and a relation of an entity to itself has one name for two columns by default.
-/

namespace EntityQuery

/-! ### Names -/

namespace PropertyMapping

/-- Whether a property is a column of its entity's own table. -/
def isInline (p : PropertyMapping) : Bool := p.isScalar || p.isReference

/-- The entity in whose table a collection has its column. -/
def collected? (p : PropertyMapping) : Option String :=
  match p.kind with
  | .collection target => some target
  | _ => none

/-- The table that a relation is linked through. -/
def link? (p : PropertyMapping) : Option String :=
  match p.kind with
  | .manyToMany _ link _ _ => some link
  | _ => none

/-- The columns of the table that a relation is linked through. -/
def linkColumns (p : PropertyMapping) : List String :=
  match p.kind with
  | .manyToMany _ _ ownerColumn targetColumn => [ownerColumn, targetColumn]
  | _ => []

end PropertyMapping

namespace Catalog

/-- Tables, the properties of an entity and its inline columns have names of their own. -/
structure Distinct (c : Catalog) : Prop where
  tables : (c.entities.map EntityMapping.table).Nodup
  properties : ∀ e ∈ c.entities, (e.properties.map PropertyMapping.name).Nodup
  columns : ∀ e ∈ c.entities,
    ((e.properties.filter PropertyMapping.isInline).map PropertyMapping.column).Nodup

/-- Relations do not meet in a table or a column, unless they define it alike. -/
structure Apart (c : Catalog) : Prop where
  /-- A link table has two columns and is not the table of an entity. -/
  linked : ∀ e ∈ c.entities, ∀ p ∈ e.properties,
    p.linkColumns.Nodup ∧ ∀ f ∈ c.entities, p.link? ≠ some f.table
  /-- Relations with one link table are declared by one entity, and alike. -/
  links : ∀ e ∈ c.entities, ∀ p ∈ e.properties, ∀ f ∈ c.entities, ∀ q ∈ f.properties,
    p.link?.isSome → p.link? = q.link? → e = f ∧ p.kind = q.kind
  /-- The column of a collection is none of the target's own. -/
  added : ∀ e ∈ c.entities, ∀ p ∈ e.properties, ∀ f ∈ c.entities, ∀ q ∈ f.properties,
    p.collected? = some f.name → q.isInline = true → p.column ≠ q.column
  /-- Collections with one target and one column are declared by one entity. -/
  owners : ∀ e ∈ c.entities, ∀ p ∈ e.properties, ∀ f ∈ c.entities, ∀ q ∈ f.properties,
    p.collected?.isSome → p.collected? = q.collected? → p.column = q.column → e = f

end Catalog

namespace Schema

/-! ### What definitions define -/

namespace Definition

/-- The tables that a definition creates. -/
def tables : Definition → List TableName
  | .create table _ _ => [table]
  | .alter _ _ => []

/-- The columns that a definition defines, each with its table. -/
def columns : Definition → List (TableName × String)
  | .create table cols _ => cols.map fun col => (table, col.name)
  | .alter table changes => changes.filterMap fun
    | .addColumn col => some (table, col.name)
    | .addConstraint _ => none

end Definition

variable {c : Catalog} {d : Dialect}

/-! ### Definitions kept once -/

/-- Of what has one text the first is kept. -/
lemma exists_kept {α β : Type} [BEq β] [LawfulBEq β] (f : α → β) : ∀ as : List α,
    ∃ kept : List α, kept.Sublist as ∧ kept.map f = (as.map f).eraseDups ∧
      kept.Pairwise fun a b => f a ≠ f b
  | [] => ⟨[], .slnil, rfl, .nil⟩
  | a :: as => by
    obtain ⟨kept, hsub, htexts, hpairwise⟩ := exists_kept f (as.filter fun b => !f b == f a)
    refine ⟨a :: kept, (hsub.trans List.filter_sublist).cons_cons a, ?_, ?_⟩
    · rw [List.map_cons, htexts, List.map_cons, List.eraseDups_cons, List.filter_map]
      rfl
    · refine List.pairwise_cons.2 ⟨fun b hb heq => ?_, hpairwise⟩
      have hnew := (List.mem_filter.1 (hsub.subset hb)).2
      simp [heq] at hnew
termination_by as => as.length
decreasing_by
  exact Nat.lt_succ_of_le (List.length_filter_le _ _)

/-- What no two different elements have in common is listed once. -/
lemma nodup_flatMap_of_agree {α β γ : Type} {f : α → γ} {g : α → List β} {as : List α}
    (hpairwise : as.Pairwise fun a b => f a ≠ f b) (hnodup : ∀ a ∈ as, (g a).Nodup)
    (hagree : ∀ a ∈ as, ∀ b ∈ as, ∀ x, x ∈ g a → x ∈ g b → a = b) : (as.flatMap g).Nodup := by
  refine List.nodup_flatMap.2 ⟨hnodup, hpairwise.imp_of_mem fun ha hb hne x hx hx' => hne ?_⟩
  rw [hagree _ ha _ hb x hx hx']

/-! ### Names that layouts share -/

section Names

lemma entity_of_find? {name : String} {e : EntityMapping} (h : c.find? name = some e) :
    e ∈ c.entities ∧ e.name = name :=
  ⟨List.mem_of_find?_eq_some h, Catalog.name_of_find? h⟩

lemma find?_of_tableName {name table : String} (h : c.tableName name = .ok table) :
    ∃ e ∈ c.entities, e.name = name ∧ e.table = table := by
  obtain ⟨e, he, htable⟩ := bind_eq_ok.1 h
  cases htable
  obtain ⟨hmem, hname⟩ := entity_of_find? (Catalog.entity_eq_ok.1 he)
  exact ⟨e, hmem, hname, rfl⟩

/-- Entities with one table are one. -/
lemma eq_of_table (hd : c.Distinct) {e f : EntityMapping} (he : e ∈ c.entities)
    (hf : f ∈ c.entities) (h : e.table = f.table) : e = f :=
  List.inj_on_of_nodup_map hd.tables he hf h

/-- What is stored outside a table belongs to a property of a mapped entity. -/
lemma declared_of_mem_outside {l : Layout} (h : layout c l.entity = .ok l)
    {x : Definition} (hx : x ∈ l.outside) :
    ∃ e ∈ c.entities, ∃ p ∈ e.properties, e.name = l.entity ∧
      StoredAs c e.name p (.outside x) := by
  obtain ⟨e, p, he, hp, hstored⟩ := storedAs_of_mem_outside h hx
  obtain ⟨hmem, hname⟩ := entity_of_find? he
  exact ⟨e, hmem, p, EntityMapping.mem_properties_of_stored hp, hname, hname ▸ hstored⟩

/-- The columns of a layout are named after the inline properties. -/
lemma map_name_columns {entity : String} {ps : List PropertyMapping} {xs : List Storage}
    (h : List.Forall₂ (StoredAs c entity) ps xs) :
    (xs.filterMap Storage.column?).map ColumnDef.name =
      (ps.filter PropertyMapping.isInline).map PropertyMapping.column := by
  induction h with
  | nil => rfl
  | cons hx _ ih =>
    cases hx with
    | scalar hkind hname hreferences =>
      simpa [Storage.column?, PropertyMapping.isInline, PropertyMapping.isScalar, hkind, hname]
        using ih
    | reference hkind hkey =>
      simpa [Storage.column?, PropertyMapping.isInline, PropertyMapping.isScalar,
        PropertyMapping.isReference, hkind, KeyColumn.referring] using ih
    | collection hkind _ _ | link hkind _ _ =>
      simpa [List.filterMap_cons, Storage.column?, PropertyMapping.isInline,
        PropertyMapping.isScalar, PropertyMapping.isReference, hkind] using ih

/-- A layout is that of a mapped entity, with its table and its inline columns. -/
lemma declared_of_layout (hd : c.Distinct) {l : Layout} (h : layout c l.entity = .ok l) :
    ∃ e ∈ c.entities, e.name = l.entity ∧ l.table = e.table ∧ l.columns.map ColumnDef.name =
      (e.properties.filter PropertyMapping.isInline).map PropertyMapping.column := by
  obtain ⟨e, xs, he, hxs, hl⟩ := layout_eq_ok h
  obtain ⟨hmem, hname⟩ := entity_of_find? he
  rw [EntityMapping.stored_of_nodup (hd.properties e hmem)] at hxs
  refine ⟨e, hmem, hname, by rw [hl], ?_⟩
  rw [hl]
  exact map_name_columns hxs

end Names

/-! ### Definitions outside layouts -/

section Outside

variable {e f : EntityMapping} {p q : PropertyMapping} {x y : Definition}

/-- A table that is created outside a layout is a link table. -/
lemma link_of_mem_tables (hx : StoredAs c e.name p (.outside x)) {t : TableName}
    (ht : t ∈ x.tables) : ∃ link, p.link? = some link ∧ t = { name := link } := by
  cases hx with
  | collection _ _ _ => cases ht
  | @link target link _ _ _ _ hkind _ _ =>
    exact ⟨link, by simp [PropertyMapping.link?, hkind], List.mem_singleton.1 ht⟩

/-- A column that is defined outside a layout is one that a collection adds to the table of its
target, or one of a new link table. -/
lemma place_of_mem_columns (hx : StoredAs c e.name p (.outside x)) {column : TableName × String}
    (hcolumn : column ∈ x.columns) :
    (∃ u ∈ c.entities, p.collected? = some u.name ∧ column = ({ name := u.table }, p.column)) ∨
      column.1 ∈ x.tables := by
  cases hx with
  | @collection target table key hkind hkey htable =>
    obtain ⟨u, hu, rfl, rfl⟩ := find?_of_tableName htable
    exact .inl ⟨u, hu, by simp [PropertyMapping.collected?, hkind], List.mem_singleton.1 hcolumn⟩
  | link _ _ _ =>
    obtain ⟨col, -, rfl⟩ := List.mem_map.1 hcolumn
    exact .inr List.mem_cons_self

/-- What is defined outside a layout defines no column twice. -/
lemma nodup_columns (ha : c.Apart) (he : e ∈ c.entities) (hp : p ∈ e.properties)
    (hx : StoredAs c e.name p (.outside x)) : x.columns.Nodup := by
  cases hx with
  | collection _ _ _ => exact List.nodup_singleton _
  | link hkind _ _ =>
    have hcolumns := (ha.linked e he p hp).1
    simpa [Definition.columns, KeyColumn.referring, PropertyMapping.linkColumns, hkind]
      using hcolumns

/-- A link table is that of no entity. -/
lemma table_ne_of_mem_tables (ha : c.Apart) (he : e ∈ c.entities) (hp : p ∈ e.properties)
    (hx : StoredAs c e.name p (.outside x)) {t : TableName} (ht : t ∈ x.tables)
    (hf : f ∈ c.entities) : t ≠ { name := f.table } := by
  obtain ⟨link, hlink, rfl⟩ := link_of_mem_tables hx ht
  rintro heq
  have hname : link = f.table := congrArg TableName.name heq
  exact (ha.linked e he p hp).2 f hf (hname ▸ hlink)

/-- Relations that create one table create it alike. -/
lemma outside_eq_of_tables (ha : c.Apart) (he : e ∈ c.entities) (hp : p ∈ e.properties)
    (hf : f ∈ c.entities) (hq : q ∈ f.properties) (hx : StoredAs c e.name p (.outside x))
    (hy : StoredAs c f.name q (.outside y)) {t : TableName} (htx : t ∈ x.tables)
    (hty : t ∈ y.tables) : x = y := by
  obtain ⟨link, hlink, rfl⟩ := link_of_mem_tables hx htx
  obtain ⟨link', hlink', hname⟩ := link_of_mem_tables hy hty
  obtain rfl : link = link' := congrArg TableName.name hname
  obtain ⟨rfl, hkinds⟩ := ha.links e he p hp f hf q hq (by simp [hlink]) (hlink.trans hlink'.symm)
  cases hx with
  | collection _ _ _ => cases htx
  | link hkind howner hother =>
    cases hy with
    | collection _ _ _ => cases hty
    | link hkind' howner' hother' =>
      rw [hkind, hkind'] at hkinds
      cases hkinds
      cases howner.symm.trans howner'
      cases hother.symm.trans hother'
      rfl

/-- Collections that add one column add it alike. -/
lemma outside_eq_of_collected (ha : c.Apart) (he : e ∈ c.entities) (hp : p ∈ e.properties)
    (hf : f ∈ c.entities) (hq : q ∈ f.properties) (hx : StoredAs c e.name p (.outside x))
    (hy : StoredAs c f.name q (.outside y)) (hsome : p.collected?.isSome)
    (hcollected : p.collected? = q.collected?) (hcolumn : p.column = q.column) : x = y := by
  obtain rfl := ha.owners e he p hp f hf q hq hsome hcollected hcolumn
  cases hx with
  | link hkind _ _ => simp [PropertyMapping.collected?, hkind] at hsome
  | collection hkind hkey htable =>
    cases hy with
    | link hkind' _ _ => simp [PropertyMapping.collected?, hkind, hkind'] at hcollected
    | collection hkind' hkey' htable' =>
      simp only [PropertyMapping.collected?, hkind, hkind', Option.some.injEq] at hcollected
      subst hcollected
      cases hkey.symm.trans hkey'
      cases htable.symm.trans htable'
      rw [hcolumn]

/-- Relations that define one column define it alike. -/
lemma outside_eq_of_columns (hd : c.Distinct) (ha : c.Apart) (he : e ∈ c.entities)
    (hp : p ∈ e.properties) (hf : f ∈ c.entities) (hq : q ∈ f.properties)
    (hx : StoredAs c e.name p (.outside x)) (hy : StoredAs c f.name q (.outside y))
    {column : TableName × String} (hcx : column ∈ x.columns) (hcy : column ∈ y.columns) :
    x = y := by
  rcases place_of_mem_columns hx hcx with ⟨u, hu, hpu, rfl⟩ | hnew
  · rcases place_of_mem_columns hy hcy with ⟨v, hv, hqv, hcolumn⟩ | hnew'
    · obtain ⟨htable, hname⟩ := Prod.mk.inj hcolumn
      obtain rfl := eq_of_table hd hu hv (congrArg TableName.name htable)
      exact outside_eq_of_collected ha he hp hf hq hx hy (by simp [hpu]) (hpu.trans hqv.symm) hname
    · exact absurd rfl (table_ne_of_mem_tables ha hf hq hy hnew' hu)
  · rcases place_of_mem_columns hy hcy with ⟨v, hv, -, rfl⟩ | hnew'
    · exact absurd rfl (table_ne_of_mem_tables ha he hp hx hnew hv)
    · exact outside_eq_of_tables ha he hp hf hq hx hy hnew hnew'

end Outside

/-! ### The whole plan -/

section Plan

variable {ls : List Layout}

/-- Layouts of different entities have different tables. -/
lemma pairwise_table (hd : c.Distinct) (hls : ∀ l ∈ ls, layout c l.entity = .ok l)
    (hnodup : (ls.map Layout.entity).Nodup) : ls.Pairwise fun l m => l.table ≠ m.table := by
  refine (List.pairwise_map.1 hnodup).imp_of_mem fun hl hm hne htable => hne ?_
  obtain ⟨e, he, hename, hetable, -⟩ := declared_of_layout hd (hls _ hl)
  obtain ⟨f, hf, hfname, hftable, -⟩ := declared_of_layout hd (hls _ hm)
  obtain rfl := eq_of_table hd he hf (hetable.symm.trans (htable.trans hftable))
  exact hename.symm.trans hfname

/-- The layouts create different tables. -/
lemma nodup_tables_create (hd : c.Distinct) (hls : ∀ l ∈ ls, layout c l.entity = .ok l)
    (hnodup : (ls.map Layout.entity).Nodup) :
    ((ls.map Layout.create).flatMap Definition.tables).Nodup := by
  rw [List.flatMap_map]
  refine List.nodup_flatMap.2 ⟨fun l _ => List.nodup_singleton _,
    (pairwise_table hd hls hnodup).imp ?_⟩
  intro l m hne t hl hm
  have htable := (List.mem_singleton.1 hl).symm.trans (List.mem_singleton.1 hm)
  exact hne (congrArg TableName.name htable)

/-- The layouts' own tables have each of their columns once. -/
lemma nodup_columns_create (hd : c.Distinct) (hls : ∀ l ∈ ls, layout c l.entity = .ok l)
    (hnodup : (ls.map Layout.entity).Nodup) :
    ((ls.map Layout.create).flatMap Definition.columns).Nodup := by
  rw [List.flatMap_map]
  refine List.nodup_flatMap.2 ⟨fun l hl => ?_, (pairwise_table hd hls hnodup).imp ?_⟩
  · obtain ⟨e, he, -, -, hcolumns⟩ := declared_of_layout hd (hls l hl)
    have hnames : (l.columns.map ColumnDef.name).Nodup := hcolumns ▸ hd.columns e he
    have hpairs := hnames.map (Prod.mk_right_injective ({ name := l.table } : TableName))
    rwa [List.map_map] at hpairs
  · intro l m hne column hl hm
    obtain ⟨col, -, rfl⟩ := List.mem_map.1 hl
    obtain ⟨col', -, hcolumn⟩ := List.mem_map.1 hm
    exact hne (congrArg TableName.name (Prod.mk.inj hcolumn).1).symm

/-- What is defined outside the layouts is no column of theirs. -/
lemma column_ne_of_outside (hd : c.Distinct) (ha : c.Apart) {e : EntityMapping}
    (he : e ∈ c.entities) {p : PropertyMapping} (hp : p ∈ e.properties) {x : Definition}
    (hx : StoredAs c e.name p (.outside x)) {l : Layout} (hl : layout c l.entity = .ok l)
    {column : TableName × String} (hcolumn : column ∈ x.columns) :
    column ∉ l.create.columns := by
  intro hown
  obtain ⟨f, hf, hname, htable, hcolumns⟩ := declared_of_layout hd hl
  obtain ⟨col, hcol, rfl⟩ := List.mem_map.1 hown
  rcases place_of_mem_columns hx hcolumn with ⟨u, hu, hpu, hplace⟩ | hnew
  · obtain ⟨hplace, hcolname⟩ := Prod.mk.inj hplace
    have hsame : f.table = u.table := htable.symm.trans (congrArg TableName.name hplace)
    obtain rfl := eq_of_table hd hf hu hsame
    have hinline := List.mem_map_of_mem (f := ColumnDef.name) hcol
    rw [hcolumns] at hinline
    obtain ⟨q, hq, hqname⟩ := List.mem_map.1 hinline
    obtain ⟨hq, hqinline⟩ := List.mem_filter.1 hq
    exact ha.added e he p hp f hf q hq hpu hqinline (hcolname.symm.trans hqname.symm)
  · exact table_ne_of_mem_tables ha he hp hx hnew hf (by rw [htable])

/-- **A plan of all entities defines everything once** if its relations are apart: no table is
created twice, and no column is defined twice for one table. -/
theorem plan_defines_once (hc : c.validate = .ok ())
    (hkeys : ∀ e ∈ c.entities, e.id?.all PropertyMapping.isScalar = true) (hd : c.Distinct)
    (ha : c.Apart) :
    ∃ (ls : List Layout) (kept : List Definition),
      (∀ l ∈ ls, layout c l.entity = .ok l) ∧ (ls.map Layout.entity).Nodup ∧
      (∀ e ∈ c.entities, e.name ∈ ls.map Layout.entity) ∧ kept.Sublist (ls.flatMap Layout.outside) ∧
      plan d c (c.entities.map EntityMapping.name) =
        .ok ⟨(ls.map Layout.create).map (Definition.text d), kept.map (Definition.text d)⟩ ∧
      ((ls.map Layout.create ++ kept).flatMap Definition.tables).Nodup ∧
      ((ls.map Layout.create ++ kept).flatMap Definition.columns).Nodup := by
  have hmapped : ∀ name ∈ c.entities.map EntityMapping.name, (c.find? name).isSome := by
    intro name hname
    obtain ⟨e, he, rfl⟩ := List.mem_map.1 hname
    exact List.find?_isSome.2 ⟨e, he, by simp⟩
  obtain ⟨order, ls, horder, hlayouts, hscript⟩ :=
    plan_eq_ok (d := d) hc (plannable_of_scalar hkeys hmapped)
  obtain ⟨hentities, hls⟩ := map_entity_of_layouts hlayouts
  obtain ⟨order', horder', hnodup, hlisted, -⟩ := creationOrder_eq_ok hmapped
  obtain rfl : order = order' := by simpa [horder] using horder'
  rw [← hentities] at hnodup hlisted
  obtain ⟨kept, hsub, htexts, hpairwise⟩ := exists_kept (Definition.text d) (ls.flatMap Layout.outside)
  -- what is kept belongs to relations of mapped entities
  have hkept : ∀ x ∈ kept, ∃ e ∈ c.entities, ∃ p ∈ e.properties,
      StoredAs c e.name p (.outside x) := by
    intro x hx
    obtain ⟨l, hl, hx⟩ := List.mem_flatMap.1 (hsub.subset hx)
    obtain ⟨e, he, p, hp, -, hstored⟩ := declared_of_mem_outside (hls l hl) hx
    exact ⟨e, he, p, hp, hstored⟩
  refine ⟨ls, kept, hls, hnodup, fun e he => (hlisted _).2 (List.mem_map_of_mem he), hsub,
    by rw [hscript, htexts, List.map_map]; rfl, ?_, ?_⟩
  · rw [List.flatMap_append]
    refine List.nodup_append.2 ⟨nodup_tables_create hd hls hnodup, ?_, ?_⟩
    · refine nodup_flatMap_of_agree hpairwise (fun x _ => by cases x <;> simp [Definition.tables])
        fun x hx y hy t htx hty => ?_
      obtain ⟨e, he, p, hp, hxe⟩ := hkept x hx
      obtain ⟨f, hf, q, hq, hyf⟩ := hkept y hy
      exact outside_eq_of_tables ha he hp hf hq hxe hyf htx hty
    · rintro t hown _ hnew rfl
      obtain ⟨x, hx, ht⟩ := List.mem_flatMap.1 hnew
      obtain ⟨e, he, p, hp, hxe⟩ := hkept x hx
      obtain ⟨own, hown, hmem⟩ := List.mem_flatMap.1 hown
      obtain ⟨l, hl, rfl⟩ := List.mem_map.1 hown
      obtain ⟨f, hf, -, htable, -⟩ := declared_of_layout hd (hls l hl)
      refine table_ne_of_mem_tables ha he hp hxe ht hf ?_
      rw [List.mem_singleton.1 hmem, htable]
  · rw [List.flatMap_append]
    refine List.nodup_append.2 ⟨nodup_columns_create hd hls hnodup, ?_, ?_⟩
    · refine nodup_flatMap_of_agree hpairwise (fun x hx => ?_) fun x hx y hy column hcx hcy => ?_
      · obtain ⟨e, he, p, hp, hxe⟩ := hkept x hx
        exact nodup_columns ha he hp hxe
      · obtain ⟨e, he, p, hp, hxe⟩ := hkept x hx
        obtain ⟨f, hf, q, hq, hyf⟩ := hkept y hy
        exact outside_eq_of_columns hd ha he hp hf hq hxe hyf hcx hcy
    · rintro column hown _ hnew rfl
      obtain ⟨x, hx, hcolumn⟩ := List.mem_flatMap.1 hnew
      obtain ⟨e, he, p, hp, hxe⟩ := hkept x hx
      obtain ⟨own, hown, hmem⟩ := List.mem_flatMap.1 hown
      obtain ⟨l, hl, rfl⟩ := List.mem_map.1 hown
      exact column_ne_of_outside hd ha he hp hxe (hls l hl) hcolumn hmem

end Plan

/-! ### Relations that are apart, and relations that are not -/

/-- A shop with every kind of relation: customers with mentors and orders, orders with their
customer and tags. -/
def shop : Catalog :=
  ⟨[⟨"Customer", "CUSTOMER", some "id", [⟨"id", "ID", .scalar .int false none⟩,
      ⟨"mentor", "IDFK_MENTOR", .reference "Customer"⟩,
      ⟨"orders", "IDFK_ORDERS", .collection "Order"⟩]⟩,
    ⟨"Order", "ORDER", some "id", [⟨"id", "ID", .scalar .int false none⟩,
      ⟨"customer", "IDFK_CUSTOMER", .reference "Customer"⟩,
      ⟨"tags", "", .manyToMany "Tag" "ORDER_TAGS" "IDFK_ORDER" "IDFK_TAG"⟩]⟩,
    ⟨"Tag", "TAG", some "id", [⟨"id", "ID", .scalar .int false none⟩]⟩]⟩

theorem plan_defines_once_shop :
    shop.Distinct ∧ shop.Apart ∧ ∃ (ls : List Layout) (kept : List Definition),
      plan .postgres shop ["Customer", "Order", "Tag"] =
        .ok ⟨(ls.map Layout.create).map (Definition.text .postgres),
          kept.map (Definition.text .postgres)⟩ ∧
      ((ls.map Layout.create ++ kept).flatMap Definition.tables).Nodup ∧
      ((ls.map Layout.create ++ kept).flatMap Definition.columns).Nodup := by
  have hdistinct : shop.Distinct := ⟨by decide +kernel, by decide +kernel, by decide +kernel⟩
  have hapart : shop.Apart :=
    ⟨by decide +kernel, by decide +kernel, by decide +kernel, by decide +kernel⟩
  obtain ⟨ls, kept, -, -, -, -, hscript, htables, hcolumns⟩ :=
    plan_defines_once (d := .postgres) (c := shop) rfl (by decide +kernel) hdistinct hapart
  exact ⟨hdistinct, hapart, ls, kept, hscript, htables, hcolumns⟩

/-- A numbered key column. -/
def keyColumnDef : ColumnDef := { name := "ID", type := .int, isKey := true, isIdentity := true }

/-- A column that refers to the key of a table. -/
def foreignColumn (name table : String) (nullable : Bool) : ColumnDef :=
  { name, type := .int, nullable, references := some ⟨{ name := table }, "ID"⟩ }

namespace Enrollment

/-- Students and courses, with one link table for both sides of their relation. -/
def catalog : Catalog :=
  ⟨[⟨"Student", "STUDENT", some "id", [⟨"id", "ID", .scalar .int false none⟩,
      ⟨"courses", "", .manyToMany "Course" "ENROLLMENT" "IDFK_STUDENT" "IDFK_COURSE"⟩]⟩,
    ⟨"Course", "COURSE", some "id", [⟨"id", "ID", .scalar .int false none⟩,
      ⟨"students", "", .manyToMany "Student" "ENROLLMENT" "IDFK_COURSE" "IDFK_STUDENT"⟩]⟩]⟩

def student : Layout :=
  ⟨"Student", "STUDENT", [keyColumnDef], [.create { name := "ENROLLMENT" }
    [foreignColumn "IDFK_STUDENT" "STUDENT" false, foreignColumn "IDFK_COURSE" "COURSE" false]
    [.primaryKey ["IDFK_STUDENT", "IDFK_COURSE"]]]⟩

def course : Layout :=
  ⟨"Course", "COURSE", [keyColumnDef], [.create { name := "ENROLLMENT" }
    [foreignColumn "IDFK_COURSE" "COURSE" false, foreignColumn "IDFK_STUDENT" "STUDENT" false]
    [.primaryKey ["IDFK_COURSE", "IDFK_STUDENT"]]]⟩

end Enrollment

namespace Ordering

/-- Customers and orders, with one column for both sides of their relation. -/
def catalog : Catalog :=
  ⟨[⟨"Customer", "CUSTOMER", some "id", [⟨"id", "ID", .scalar .int false none⟩,
      ⟨"orders", "IDFK_CUSTOMER", .collection "Order"⟩]⟩,
    ⟨"Order", "ORDER", some "id", [⟨"id", "ID", .scalar .int false none⟩,
      ⟨"customer", "IDFK_CUSTOMER", .reference "Customer"⟩]⟩]⟩

def customer : Layout :=
  ⟨"Customer", "CUSTOMER", [keyColumnDef], [.alter { name := "ORDER" }
    [.addColumn (foreignColumn "IDFK_CUSTOMER" "CUSTOMER" true)]]⟩

def order : Layout :=
  ⟨"Order", "ORDER", [keyColumnDef, foreignColumn "IDFK_CUSTOMER" "CUSTOMER" true], []⟩

end Ordering

namespace Friends

/-- Persons and their friends, with the column names that the relation has by default. -/
def catalog : Catalog :=
  ⟨[⟨"Person", "PERSON", some "id", [⟨"id", "ID", .scalar .int false none⟩,
      ⟨"friends", "", .manyToMany "Person" (Naming.linkTableName "PERSON" "friends")
        (Naming.foreignKeyColumn "Person") (Naming.foreignKeyColumn "Person")⟩]⟩]⟩

def person : Layout :=
  ⟨"Person", "PERSON", [keyColumnDef], [.create { name := "PERSON_FRIENDS" }
    [foreignColumn "IDFK_PERSON" "PERSON" false, foreignColumn "IDFK_PERSON" "PERSON" false]
    [.primaryKey ["IDFK_PERSON", "IDFK_PERSON"]]]⟩

end Friends

/-- Names that are distinct in each entity do not keep relations apart: the two sides of a relation
create one link table twice or define one column twice, and so does a relation of an entity to
itself. -/
theorem plan_defines_twice :
    (Enrollment.catalog.validate = .ok () ∧ Enrollment.catalog.Distinct ∧
      plan .postgres Enrollment.catalog ["Student", "Course"] =
        .ok ⟨[Enrollment.student, Enrollment.course].map (·.create.text .postgres),
          (Enrollment.student.outside ++ Enrollment.course.outside).map
            (Definition.text .postgres)⟩ ∧
      ¬ ((Enrollment.student.outside ++ Enrollment.course.outside).flatMap
        Definition.tables).Nodup) ∧
    (Ordering.catalog.validate = .ok () ∧ Ordering.catalog.Distinct ∧
      plan .postgres Ordering.catalog ["Customer", "Order"] =
        .ok ⟨[Ordering.customer, Ordering.order].map (·.create.text .postgres),
          Ordering.customer.outside.map (Definition.text .postgres)⟩ ∧
      ¬ ((Ordering.order.create :: Ordering.customer.outside).flatMap
        Definition.columns).Nodup) ∧
    (Friends.catalog.validate = .ok () ∧ Friends.catalog.Distinct ∧
      plan .postgres Friends.catalog ["Person"] =
        .ok ⟨[Friends.person.create.text .postgres],
          Friends.person.outside.map (Definition.text .postgres)⟩ ∧
      ¬ (Friends.person.outside.flatMap Definition.columns).Nodup) := by
  refine ⟨⟨by decide +kernel, ⟨by decide +kernel, by decide +kernel, by decide +kernel⟩, ?_,
      by decide +kernel⟩,
    ⟨by decide +kernel, ⟨by decide +kernel, by decide +kernel, by decide +kernel⟩, ?_,
      by decide +kernel⟩,
    by decide +kernel, ⟨by decide +kernel, by decide +kernel, by decide +kernel⟩, ?_,
    by decide +kernel⟩
  · have hlayouts : List.Forall₂ (fun e l => layout Enrollment.catalog e = .ok l)
        ["Student", "Course"] [Enrollment.student, Enrollment.course] := .cons rfl (.cons rfl .nil)
    have htexts : ((Enrollment.student.outside ++ Enrollment.course.outside).map
        (Definition.text .postgres)).eraseDups =
          (Enrollment.student.outside ++ Enrollment.course.outside).map
            (Definition.text .postgres) := by decide +kernel
    have horder : creationOrder Enrollment.catalog ["Student", "Course"] =
        .ok ["Student", "Course"] := by decide
    rw [plan_of_layouts horder hlayouts, ← htexts]
    rfl
  · have hlayouts : List.Forall₂ (fun e l => layout Ordering.catalog e = .ok l)
        ["Customer", "Order"] [Ordering.customer, Ordering.order] := .cons rfl (.cons rfl .nil)
    have horder : creationOrder Ordering.catalog ["Customer", "Order"] =
        .ok ["Customer", "Order"] := by decide
    exact plan_of_layouts horder hlayouts
  · have hlayouts : List.Forall₂ (fun e l => layout Friends.catalog e = .ok l)
        ["Person"] [Friends.person] := .cons rfl .nil
    have horder : creationOrder Friends.catalog ["Person"] = .ok ["Person"] := by decide
    exact plan_of_layouts horder hlayouts

end Schema

end EntityQuery
