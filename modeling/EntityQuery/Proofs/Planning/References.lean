import EntityQuery.Proofs.Planning.Layouts
import EntityQuery.Proofs.Planning.Order

/-!
Plans of validated catalogs, and where their inline references lead.

* With scalar keys a plan succeeds: `plan_eq_ok`.
* An inline reference leads to the table of an entity that its own entity refers to. If what the
  listed entities need is acyclic, then that table is created by an earlier script.
* Owners of collections are needed too, although their columns are added after all tables exist.
  So there are plans whose references are acyclic and still come too early.
-/

namespace EntityQuery.Schema

variable {c : Catalog} {d : Dialect} {entities : List String}

/-! ### Plans that succeed -/

/-- Whether listed entities are mapped, and their keys and those of all entities that they lead to
are scalars. -/
def Plannable (c : Catalog) (entities : List String) : Prop :=
  ∀ name ∈ entities, HasScalarKey c name ∧ ∃ e, c.find? name = some e ∧
    ∀ p ∈ e.properties, ∀ target, p.target? = some target → HasScalarKey c target

lemma plannable_of_scalar (hkeys : ∀ e ∈ c.entities, e.id?.all PropertyMapping.isScalar = true)
    (hmapped : ∀ name ∈ entities, (c.find? name).isSome) : Plannable c entities := by
  have hscalar (name : String) : HasScalarKey c name := fun e he =>
    (Option.all_eq_true _ _).1 (hkeys e (List.mem_of_find?_eq_some he))
  intro name hname
  obtain ⟨e, he⟩ := Option.isSome_iff_exists.1 (hmapped name hname)
  exact ⟨hscalar name, e, he, fun _ _ target _ => hscalar target⟩

/-- **A plan succeeds** on a validated catalog whose keys are scalars: it consists of the layouts of
the listed entities in the order of creation. -/
theorem plan_eq_ok (hc : c.validate = .ok ()) (hplan : Plannable c entities) :
    ∃ order ls, creationOrder c entities = .ok order ∧
      List.Forall₂ (fun e l => layout c e = .ok l) order ls ∧
      plan d c entities = .ok ⟨ls.map (·.create.text d),
        ((ls.flatMap Layout.outside).map (Definition.text d)).eraseDups⟩ := by
  have hmapped : ∀ e ∈ entities, (c.find? e).isSome := by
    intro name hname
    obtain ⟨-, e, he, -⟩ := hplan name hname
    simp [he]
  obtain ⟨order, horder, -, hlisted, -⟩ := creationOrder_eq_ok hmapped
  have hlayouts : ∀ name ∈ order, ∃ l, layout c name = .ok l := by
    intro name hname
    obtain ⟨hown, e, he, htargets⟩ := hplan name ((hlisted name).1 hname)
    exact exists_layout hc he hown htargets
  obtain ⟨ls, hls⟩ := exists_forall₂ hlayouts
  exact ⟨order, ls, horder, hls, plan_of_layouts horder hls⟩

/-- The layouts of a plan are those of its order. -/
lemma map_entity_of_layouts {order : List String} {ls : List Layout}
    (h : List.Forall₂ (fun e l => layout c e = .ok l) order ls) :
    ls.map Layout.entity = order ∧ ∀ l ∈ ls, layout c l.entity = .ok l := by
  induction h with
  | nil => simp
  | @cons e l order ls hl _ ih =>
    obtain ⟨m, xs, -, -, rfl⟩ := layout_eq_ok hl
    simp [hl, ih.1]
    exact ih.2

/-! ### Inline references -/

lemma kind_mem_kindsOf {entity : String} {e : EntityMapping} (he : c.find? entity = some e)
    {p : PropertyMapping} (hp : p ∈ e.stored) : p.kind ∈ kindsOf c entity := by
  rw [kindsOf, he, Option.elim_some]
  exact List.mem_map_of_mem hp

/-- An inline reference leads to the table of an entity that the layout's entity refers to. -/
lemma reference_of_layout {l : Layout} (h : layout c l.entity = .ok l) {col : ColumnDef}
    (hcol : col ∈ l.columns) {r : Reference} (hr : col.references = some r) :
    ∃ target table, .reference target ∈ kindsOf c l.entity ∧ c.tableName target = .ok table ∧
      r.table = { name := table } := by
  obtain ⟨e, p, he, hp, hstored⟩ := storedAs_of_mem_columns h hcol
  cases hstored with
  | scalar hkind hname hreferences => simp [hreferences] at hr
  | @reference target key hkind hkey =>
    obtain ⟨table, htable, hkeyTable⟩ := tableName_of_keyColumn hkey
    obtain rfl : key.reference = r := by simpa [KeyColumn.referring] using hr
    exact ⟨target, table, hkind ▸ kind_mem_kindsOf he hp, htable, hkeyTable⟩

/-- Whether every inline reference of a table to that of another listed entity stands after the
definition of the other table. -/
def ReferencesCreated (c : Catalog) (entities : List String) (ls : List Layout) : Prop :=
  ∀ before l after, ls = before ++ l :: after → ∀ col ∈ l.columns, ∀ r, col.references = some r →
    ∃ target table, .reference target ∈ kindsOf c l.entity ∧ c.tableName target = .ok table ∧
      r.table = { name := table } ∧
      (target ∈ entities → target ≠ l.entity →
        ∃ earlier ∈ before, earlier.entity = target ∧ earlier.table = table)

/-- **A planned schema can be executed**: with scalar keys a plan succeeds and creates the table of
each listed entity, and if what the entities need is acyclic, then every inline reference of a table
to that of another listed entity stands after the script that creates the other table. -/
theorem plan_references_created (hc : c.validate = .ok ()) (hunique : entities.Nodup)
    (hplan : Plannable c entities) :
    ∃ ls : List Layout, (ls.map Layout.entity).Perm entities ∧
      (∀ l ∈ ls, layout c l.entity = .ok l) ∧
      plan d c entities = .ok ⟨ls.map (·.create.text d),
        ((ls.flatMap Layout.outside).map (Definition.text d)).eraseDups⟩ ∧
      ((∀ e, ¬ Relation.TransGen (Needs c entities) e e) → ReferencesCreated c entities ls) := by
  obtain ⟨order, ls, horder, hls, hscript⟩ := plan_eq_ok (d := d) hc hplan
  obtain ⟨hentities, hlayout⟩ := map_entity_of_layouts hls
  have hmapped : ∀ e ∈ entities, (c.find? e).isSome := fun e he => by
    obtain ⟨-, m, hm, -⟩ := hplan e he
    simp [hm]
  obtain ⟨order', horder', hnodup, hlisted, hbefore⟩ := creationOrder_eq_ok hmapped
  obtain rfl : order = order' := by simpa [horder] using horder'
  refine ⟨ls, ?_, hlayout, hscript, fun hacyclic before l after hsplit col hcol r hr => ?_⟩
  · rw [hentities]
    exact (List.perm_ext_iff_of_nodup hnodup hunique).2 hlisted
  have hl : l ∈ ls := by simp [hsplit]
  obtain ⟨target, table, hkind, htable, hr⟩ := reference_of_layout (hlayout l hl) hcol hr
  refine ⟨target, table, hkind, htable, hr, fun htarget hne => ?_⟩
  have horderSplit : order = before.map Layout.entity ++ l.entity :: after.map Layout.entity := by
    rw [← hentities, hsplit, List.map_append, List.map_cons]
  have hneeds : Needs c entities l.entity target :=
    ⟨(hlisted _).1 (by simp [horderSplit]), htarget, hne, .inl hkind⟩
  obtain ⟨earlier, hearlier, rfl⟩ :=
    List.mem_map.1 (hbefore hunique hacyclic _ _ _ horderSplit target hneeds)
  refine ⟨earlier, hearlier, rfl, ?_⟩
  obtain ⟨m, xs, hm, -, hcreated⟩ := layout_eq_ok (hlayout earlier (by simp [hsplit, hearlier]))
  have hmtable := Catalog.tableName_of_find? hm
  rw [htable] at hmtable
  rw [hcreated]
  exact (Except.ok.inj hmtable).symm

namespace LetterClub

/-- Letters to clubs, clubs with a person in the chair, and what else there is to know of a club. -/
def clubs (more : List PropertyMapping) : Catalog :=
  ⟨[⟨"Letter", "LETTER", some "id", [⟨"id", "ID", .scalar .int false none⟩,
      ⟨"club", "IDFK_CLUB", .reference "Club"⟩]⟩,
    ⟨"Club", "CLUB", some "id", [⟨"id", "ID", .scalar .int false none⟩,
      ⟨"chair", "IDFK_CHAIR", .reference "Person"⟩] ++ more⟩,
    ⟨"Person", "PERSON", some "id", [⟨"id", "ID", .scalar .int false none⟩]⟩]⟩

/-- Clubs that are all chair. -/
def letters : Catalog := clubs []

/-- Clubs with members. -/
def members : Catalog := clubs [⟨"members", "IDFK_MEMBERS", .collection "Person"⟩]

def names : List String := ["Letter", "Club", "Person"]

/-- The column of the clubs that letters go to. -/
def clubColumn : ColumnDef :=
  { name := "IDFK_CLUB", type := .int, nullable := true, references := some ⟨{ name := "CLUB" }, "ID"⟩ }

/-- The layout of letters. -/
def letter : Layout :=
  ⟨"Letter", "LETTER",
    [{ name := "ID", type := .int, isKey := true, isIdentity := true }, clubColumn], []⟩

/-- Letters refer to clubs and clubs to persons. -/
def rank (e : String) : Nat := if e = "Letter" then 2 else if e = "Club" then 1 else 0

end LetterClub

open LetterClub in
theorem plan_references_created_letters :
    letters.validate = .ok () ∧ names.Nodup ∧ Plannable letters names ∧
      ∃ ls, plan .postgres letters names = .ok ⟨ls.map (·.create.text .postgres),
        ((ls.flatMap Layout.outside).map (Definition.text .postgres)).eraseDups⟩ ∧
      ReferencesCreated letters names ls := by
  have hplan : Plannable letters names := plannable_of_scalar (by decide) (by decide)
  have hfalls : ∀ e ∈ names, ∀ f ∈ names, f ≠ e →
      .reference f ∈ kindsOf letters e ∨ .collection e ∈ kindsOf letters f → rank f < rank e := by
    decide
  obtain ⟨ls, -, -, hscript, hcreated⟩ :=
    plan_references_created (d := .postgres) (c := letters) rfl (by decide) hplan
  exact ⟨rfl, by decide, hplan, ls, hscript, hcreated <| acyclic_of_rank rank
    fun e f ⟨he, hf, hne, hk⟩ => hfalls e he f hf hne hk⟩

open LetterClub in
/-- Clubs with members and a chair: the references are acyclic, but the letters' reference to the
clubs and the clubs' reference to the persons come before what they lead to. -/
theorem references_before_tables :
    members.validate = .ok () ∧ names.Nodup ∧ Plannable members names ∧
      (∀ e, ¬ Relation.TransGen (fun e f => e ∈ names ∧ f ∈ names ∧ f ≠ e ∧
        .reference f ∈ kindsOf members e) e e) ∧
      ∃ ls, plan .postgres members names = .ok ⟨ls.map (·.create.text .postgres),
        ((ls.flatMap Layout.outside).map (Definition.text .postgres)).eraseDups⟩ ∧
      ¬ ReferencesCreated members names ls := by
  have hfalls : ∀ e ∈ names, ∀ f ∈ names, f ≠ e → .reference f ∈ kindsOf members e →
      rank f < rank e := by
    decide
  have hplan : Plannable members names := plannable_of_scalar (by decide) (by decide)
  have hvalid : members.validate = .ok () := rfl
  obtain ⟨order, ls, horder, hls, hscript⟩ := plan_eq_ok (d := .postgres) hvalid hplan
  obtain rfl : names = order := by
    have hgiven : creationOrder members names = .ok names := by decide
    exact Except.ok.inj (hgiven.symm.trans horder)
  refine ⟨hvalid, by decide, hplan, acyclic_of_rank rank
    fun e f ⟨he, hf, hne, hk⟩ => hfalls e he f hf hne hk, ls, hscript, fun hcreated => ?_⟩
  obtain _ | ⟨hletter, hls⟩ := hls
  obtain rfl := Except.ok.inj ((rfl : layout members "Letter" = .ok letter).symm.trans hletter)
  obtain ⟨target, table, hkind, -, -, hearlier⟩ := hcreated [] letter _ rfl clubColumn
    (by simp [letter]) ⟨{ name := "CLUB" }, "ID"⟩ rfl
  have hkinds : kindsOf members letter.entity =
      [.scalar .int false none, .reference "Club"] := by decide
  obtain rfl : target = "Club" := by simpa [hkinds] using hkind
  obtain ⟨earlier, hnone, -⟩ := hearlier (by decide) (by decide)
  cases hnone

end EntityQuery.Schema
