import EntityQuery.Proofs.Layouts.Result

/-!
The objects that a row is read as.

* `objects`: the columns of a layout, cut where a column starts a new element.
* `readRow_eq`: a row with a value for every column is read as one record for every object, and the last
  one of several columns of a name gives it its value.
* `readRow_keeps_iff`: so no value is lost exactly if the columns of each object differ in their names.
* `readRow_compile`: which they do in a projection in which the objects inside an object come after its
  own values. A value behind an object inside belongs to the object inside, and takes the place of its
  value of that name.
-/

namespace EntityQuery

/-! ### Objects -/

/-- A column of a layout at its position. -/
abbrev PlacedColumn := LayoutColumn × Nat

/-- The name of a column in a record. -/
def PlacedColumn.name (x : PlacedColumn) : String :=
  match x.1.property with
  | some p => p.name
  | none => "c" ++ toString x.2

/-- The columns that go on with an open object, and the objects behind it. -/
def cut : List PlacedColumn → List PlacedColumn × List (List PlacedColumn)
  | [] => ([], [])
  | x :: rest =>
    if x.1.newElement then ([], (x :: (cut rest).1) :: (cut rest).2)
    else (x :: (cut rest).1, (cut rest).2)

/-- The columns of a layout by the objects they belong to: the first column starts an object. -/
def objects : List LayoutColumn → List (List PlacedColumn)
  | [] => []
  | c :: rest => ((c, 0) :: (cut (rest.zipIdx 1)).1) :: (cut (rest.zipIdx 1)).2

/-- The columns of each object differ in their names. -/
def Apart (layout : List LayoutColumn) : Prop :=
  ∀ o ∈ objects layout, (o.map PlacedColumn.name).Nodup

instance : DecidablePred Apart := fun layout =>
  inferInstanceAs (Decidable (∀ o ∈ objects layout, (o.map PlacedColumn.name).Nodup))

lemma flatten_cut (xs : List PlacedColumn) : (cut xs).1 ++ (cut xs).2.flatten = xs := by
  induction xs with
  | nil => rfl
  | cons x xs ih =>
    rw [cut]
    split
    · rw [List.nil_append, List.flatten_cons, List.cons_append, ih]
    · rw [List.cons_append, ih]

/-- Every column belongs to one object, in the order of the layout. -/
theorem flatten_objects (layout : List LayoutColumn) : (objects layout).flatten = layout.zipIdx := by
  cases layout with
  | nil => rfl
  | cons c rest => rw [objects, List.flatten_cons, List.cons_append, flatten_cut, List.zipIdx_cons]

lemma newElement_cut (xs : List PlacedColumn) : (∀ x ∈ (cut xs).1, x.1.newElement = false) ∧
    ∀ o ∈ (cut xs).2, ∃ x rest, o = x :: rest ∧ x.1.newElement = true ∧
      ∀ y ∈ rest, y.1.newElement = false := by
  induction xs with
  | nil => simp [cut]
  | cons x xs ih =>
    rw [cut]
    split
    · next hx =>
      refine ⟨by simp, List.forall_mem_cons.2 ⟨⟨x, _, rfl, hx, ih.1⟩, ih.2⟩⟩
    · next hx => exact ⟨List.forall_mem_cons.2 ⟨by simpa using hx, ih.1⟩, ih.2⟩

/-- Objects start at the first column and at the columns that start a new element. -/
theorem newElement_objects {layout : List LayoutColumn} {o : List PlacedColumn}
    (ho : o ∈ objects layout) : ∃ x rest, o = x :: rest ∧ (x.2 = 0 ∨ x.1.newElement = true) ∧
      ∀ y ∈ rest, y.1.newElement = false := by
  cases layout with
  | nil => cases ho
  | cons c cs =>
    obtain ⟨hopen, hothers⟩ := newElement_cut (cs.zipIdx 1)
    rcases List.mem_cons.1 ho with rfl | ho
    · exact ⟨(c, 0), _, rfl, .inl rfl, hopen⟩
    · obtain ⟨x, rest, rfl, hx, hrest⟩ := hothers o ho
      exact ⟨x, rest, rfl, .inr hx, hrest⟩

/-- No column is in an object twice. -/
lemma nodup_object {layout : List LayoutColumn} {o : List PlacedColumn} (ho : o ∈ objects layout) :
    o.Pairwise fun x y => x.2 ≠ y.2 := by
  have hsub : o.Sublist layout.zipIdx := by
    rw [← flatten_objects]
    exact List.sublist_flatten_of_mem ho
  have hnodup : (layout.zipIdx.map Prod.snd).Nodup := by
    rw [List.zipIdx_map_snd]
    exact List.nodup_range'
  exact (List.pairwise_map.1 hnodup).sublist hsub

/-! ### Records -/

namespace Record

variable {r : Record} {name other : String} {v : Value}

lemma lookup_put_self : (r.put name v).lookup name = some v := by
  have hnone : List.lookup name (List.filter (fun field => field.1 ≠ name) r) = none := by
    rw [List.lookup_eq_none_iff]
    intro field hfield
    have hne : field.1 ≠ name := by simpa using (List.mem_filter.1 hfield).2
    exact bne_iff_ne.2 hne.symm
  rw [put, List.lookup_append, hnone, List.lookup_cons_self]
  rfl

lemma lookup_put_of_ne (h : other ≠ name) : (r.put name v).lookup other = r.lookup other := by
  have hkept : List.lookup other (List.filter (fun field => field.1 ≠ name) r) = r.lookup other := by
    induction r with
    | nil => rfl
    | cons field rest ih =>
      by_cases hfield : field.1 = name
      · rw [List.filter_cons_of_neg (by simpa using hfield), ih, List.lookup_cons,
          beq_false_of_ne (hfield ▸ h)]
      · rw [List.filter_cons_of_pos (by simpa using hfield), List.lookup_cons, List.lookup_cons, ih]
  rw [put, List.lookup_append, hkept, List.lookup_cons, beq_false_of_ne h, List.lookup_nil, Option.or_none]

/-- The values of a row for columns, after those of a record. -/
def read (row : List Value) (r : Record) (o : List PlacedColumn) : Record :=
  o.foldl (fun r x => r.putCell (row[x.2]?.map fun v => (x.name, v))) r

variable {row : List Value} {o : List PlacedColumn} {x : PlacedColumn}

/-- A name that no column has keeps its value. -/
lemma lookup_read_of_forall (h : ∀ y ∈ o, y.name ≠ name) : (read row r o).lookup name = r.lookup name := by
  induction o generalizing r with
  | nil => rfl
  | cons y o ih =>
    obtain ⟨hy, ho⟩ := List.forall_mem_cons.1 h
    change (read row (r.putCell _) o).lookup name = _
    rw [ih ho]
    cases row[y.2]? with
    | none => rfl
    | some v => exact lookup_put_of_ne hy.symm

/-- The last column of a name gives the value. -/
lemma lookup_read {before after : List PlacedColumn} (hx : x.2 < row.length)
    (hlast : ∀ y ∈ after, y.name ≠ x.name) :
    (read row r (before ++ x :: after)).lookup x.name = row[x.2]? := by
  have hread : read row r (before ++ x :: after) =
      read row ((read row r before).putCell (row[x.2]?.map fun v => (x.name, v))) after := by
    simp only [read, List.foldl_append, List.foldl_cons]
  rw [hread, lookup_read_of_forall hlast, List.getElem?_eq_getElem hx]
  exact lookup_put_self

end Record

/-! ### Rows -/

section Rows

variable {m : Mapping} {row : List Value}

/-- Where the row has a value, a column has its name and this value. -/
lemma cell_eq {index : Nat} (h : index < row.length) (c : LayoutColumn) :
    m.cell row index c = .ok (row[index]?.map fun v => (PlacedColumn.name (c, index), v)) := by
  rw [Mapping.cell, List.getElem?_eq_getElem h, PlacedColumn.name]
  cases c.property <;> rfl

/-- Columns go on with the open record as they go on with the open object. -/
lemma readFrom_eq {cs : List LayoutColumn} {index : Nat} {r : Record} (h : index + cs.length ≤ row.length) :
    m.readFrom row index (some r) cs = .ok (r.read row (cut (cs.zipIdx index)).1 ::
      (cut (cs.zipIdx index)).2.map (Record.read row [])) := by
  induction cs generalizing index r with
  | nil => rfl
  | cons c cs ih =>
    rw [List.length_cons] at h
    rw [Mapping.readFrom, cell_eq (by omega), List.zipIdx_cons, cut]
    cases hc : c.newElement with
    | true =>
      change (m.readFrom row (index + 1) (some _) cs >>= fun records => pure (r :: records)) = _
      rw [ih (by omega)]
      rfl
    | false =>
      change m.readFrom row (index + 1) (some _) cs = _
      rw [ih (by omega)]
      rfl

/-- **A row is read as its objects**, if it has a value for every column. -/
theorem readRow_eq {layout : List LayoutColumn} (h : layout.length ≤ row.length) :
    m.readRow layout row = .ok ((objects layout).map (Record.read row [])) := by
  cases layout with
  | nil => rfl
  | cons c cs =>
    rw [List.length_cons] at h
    rw [Mapping.readRow, Mapping.readFrom, cell_eq (by omega)]
    change m.readFrom row 1 (some _) cs = _
    rw [readFrom_eq (by omega)]
    rfl

/-- Columns that differ in their names have their values in the record of their object. -/
lemma lookup_object {o : List PlacedColumn} (hnames : (o.map PlacedColumn.name).Nodup)
    {x : PlacedColumn} (hx : x ∈ o) (hlt : x.2 < row.length) :
    (Record.read row [] o).lookup x.name = row[x.2]? := by
  obtain ⟨before, after, rfl⟩ := List.append_of_mem hx
  refine Record.lookup_read hlt fun y hy heq => ?_
  rw [List.map_append, List.map_cons, List.nodup_append] at hnames
  exact (List.nodup_cons.1 hnames.2.1).1 (heq ▸ List.mem_map_of_mem hy)

variable {layout : List LayoutColumn} {k : Nat} {o : List PlacedColumn} {x : PlacedColumn}

lemma lt_of_mem_objects (hrow : row.length = layout.length) (ho : (objects layout)[k]? = some o)
    (hx : x ∈ o) : x.2 < row.length := by
  have hmem : x ∈ layout.zipIdx := by
    rw [← flatten_objects]
    exact List.mem_flatten_of_mem (List.mem_of_getElem? ho) hx
  rw [hrow]
  exact (List.mem_zipIdx' hmem).1

lemma getElem?_records (row : List Value) (ho : (objects layout)[k]? = some o) :
    ((objects layout).map (Record.read row []))[k]? = some (Record.read row [] o) := by
  rw [List.getElem?_map, ho, Option.map_some]

/-- Every column of a row has its value in the record of its object. -/
def Mapping.Keeps (m : Mapping) (layout : List LayoutColumn) (row : List Value) : Prop :=
  ∃ records, m.readRow layout row = .ok records ∧ ∀ (k : Nat) (o : List PlacedColumn),
    (objects layout)[k]? = some o → ∃ record : Record, records[k]? = some record ∧
      ∀ x ∈ o, record.lookup x.name = row[x.2]?

lemma keeps_of_apart (h : Apart layout) (hrow : row.length = layout.length) : m.Keeps layout row :=
  ⟨_, readRow_eq hrow.ge, fun _ o ho => ⟨_, getElem?_records row ho, fun _ hx =>
    lookup_object (h o (List.mem_of_getElem? ho)) hx (lt_of_mem_objects hrow ho hx)⟩⟩

/-- Two columns of one name would have the same value in all rows, also in one in which they differ. -/
lemma apart_of_keeps (h : ∀ row : List Value, row.length = layout.length → m.Keeps layout row) :
    Apart layout := by
  intro o ho
  obtain ⟨k, hk⟩ := List.getElem?_of_mem ho
  refine List.pairwise_map.2 ((nodup_object ho).imp_of_mem fun {x y} hx hy hne heq => ?_)
  set row : List Value := (List.range layout.length).map fun i => .boolean (decide (i = x.2)) with hvalues
  have hrow : row.length = layout.length := by simp [hvalues]
  obtain ⟨records, -, hkeeps⟩ := h row hrow
  obtain ⟨record, -, hrecord⟩ := hkeeps k o hk
  have hsame : row[x.2]? = row[y.2]? := by rw [← hrecord x hx, ← hrecord y hy, heq]
  rw [List.getElem?_eq_getElem (lt_of_mem_objects hrow hk hx),
    List.getElem?_eq_getElem (lt_of_mem_objects hrow hk hy)] at hsame
  simp [hvalues, hne.symm] at hsame

/-- **No value is lost exactly if the columns of each object differ in their names.** A row with one value
for every column is read as one record for every object. In it, the last one of the columns of a name
gives it its value. So every column has its value in the record of its object, whatever the row, exactly
if no two columns of one object have the same name. -/
theorem readRow_keeps_iff (m : Mapping) (layout : List LayoutColumn) :
    (∀ row : List Value, row.length = layout.length → ∃ records, m.readRow layout row = .ok records ∧
      records.length = (objects layout).length ∧
      ∀ (k : Nat) (o : List PlacedColumn), (objects layout)[k]? = some o →
        ∃ record : Record, records[k]? = some record ∧
          ∀ (before : List PlacedColumn) (x : PlacedColumn) (after : List PlacedColumn),
            o = before ++ x :: after → (∀ y ∈ after, y.name ≠ x.name) →
              record.lookup x.name = row[x.2]?) ∧
    ((∀ row : List Value, row.length = layout.length → m.Keeps layout row) ↔ Apart layout) := by
  refine ⟨fun row hrow => ?_, apart_of_keeps, fun h row hrow => keeps_of_apart h hrow⟩
  refine ⟨_, readRow_eq hrow.ge, List.length_map _, fun k o ho => ⟨_, getElem?_records row ho, ?_⟩⟩
  rintro before x after rfl hlast
  exact Record.lookup_read (lt_of_mem_objects hrow ho (by simp)) hlast

end Rows

/-! ### Objects with their own values first -/

namespace Expr

def isObject : Expr → Bool
  | .new _ _ => true
  | _ => false

/-- The names of the members of an object that are no objects themselves. -/
def ownNames (members : List (PropertyRef × Expr)) : List String :=
  (members.filter fun x => !x.2.isObject).map fun x => x.1.name

mutual
/-- Whether the own values of each object differ in their names, and objects inside it come after them. -/
def ownFirst : Expr → Bool
  | .new _ members => decide (ownNames members).Nodup && ownFirstAll members
  | _ => true

def ownFirstAll : List (PropertyRef × Expr) → Bool
  | [] => true
  | (_, e) :: rest => ownFirst e && (!e.isObject || rest.all fun x => x.2.isObject) && ownFirstAll rest
end

lemma ownNames_eq_nil {members : List (PropertyRef × Expr)} (h : members.all fun x => x.2.isObject) :
    ownNames members = [] := by
  have hnone : members.filter (fun x => !x.2.isObject) = [] :=
    List.filter_eq_nil_iff.2 fun x hx => by simpa using List.all_eq_true.1 h x hx
  rw [ownNames, hnone, List.map_nil]

end Expr

/-- Objects start and end with the columns, and the columns of each differ in their names. -/
def Whole (layout : List LayoutColumn) : Prop :=
  ∀ k, (cut (layout.zipIdx k)).1 = [] ∧ ∀ o ∈ (cut (layout.zipIdx k)).2, (o.map PlacedColumn.name).Nodup

/-- Columns behind which an object is open go on with columns of new objects. -/
lemma cut_append {xs ys : List PlacedColumn} (h : (cut ys).1 = []) :
    cut (xs ++ ys) = ((cut xs).1, (cut xs).2 ++ (cut ys).2) := by
  induction xs with
  | nil => rw [List.nil_append, cut, List.nil_append, ← h]
  | cons x xs ih =>
    rw [List.cons_append, cut, cut, ih]
    split <;> rfl

lemma Whole.apart {layout : List LayoutColumn} (h : Whole layout) : Apart layout := by
  obtain ⟨hopen, hnames⟩ := h 0
  cases layout with
  | nil => exact fun o ho => absurd ho List.not_mem_nil
  | cons c cs =>
    rw [List.zipIdx_cons, cut] at hopen hnames
    cases hc : c.newElement with
    | false => simp [hc] at hopen
    | true =>
      simp only [hc, if_true] at hnames
      exact hnames

/-- The columns of members behind the first value of their object. -/
structure Behind (members : List (PropertyRef × Expr)) (k : Nat) : Prop where
  own : (cut ((Expr.columnsOf false members).zipIdx k)).1.map PlacedColumn.name = Expr.ownNames members
  others : ∀ o ∈ (cut ((Expr.columnsOf false members).zipIdx k)).2, (o.map PlacedColumn.name).Nodup

namespace Expr

section Members

variable {p : PropertyRef} {first : Bool} {e : Expr} {rest : List (PropertyRef × Expr)}

lemma columns_of_not_isObject (h : e.isObject = false) : columns p first e = [⟨some p, first⟩] := by
  cases e with
  | new t members => cases h
  | _ => rfl

lemma ownNames_cons_value (h : e.isObject = false) : ownNames ((p, e) :: rest) = p.name :: ownNames rest := by
  simp [ownNames, h]

lemma ownNames_cons_object (h : e.isObject = true) : ownNames ((p, e) :: rest) = ownNames rest := by
  simp [ownNames, h]

/-- Behind a value, the open object goes on. -/
lemma cut_cons_value (h : e.isObject = false) (k : Nat) :
    cut ((columnsOf first ((p, e) :: rest)).zipIdx k) =
      cut ((⟨some p, first⟩, k) :: (columnsOf false rest).zipIdx (k + 1)) := by
  rw [columnsOf, columns_of_not_isObject h]
  rfl

/-- Objects behind which there are only objects are whole ones. -/
lemma cut_cons_object (hwhole : Whole (columns p first e)) (hrest : ∀ k, Behind rest k)
    (hall : rest.all fun x => x.2.isObject) (k : Nat) :
    (cut ((columnsOf first ((p, e) :: rest)).zipIdx k)).1 = [] ∧
      ∀ o ∈ (cut ((columnsOf first ((p, e) :: rest)).zipIdx k)).2, (o.map PlacedColumn.name).Nodup := by
  have hbehind := hrest (k + (columns p first e).length)
  have hopen : (cut ((columnsOf false rest).zipIdx (k + (columns p first e).length))).1 = [] := by
    have hown := hbehind.own
    rwa [ownNames_eq_nil hall, List.map_eq_nil_iff] at hown
  rw [columnsOf, List.zipIdx_append, cut_append hopen]
  exact ⟨(hwhole k).1, List.forall_mem_append.2 ⟨(hwhole k).2, hbehind.others⟩⟩

end Members

mutual
theorem whole_columns (p : PropertyRef) (first : Bool) : ∀ e : Expr, e.isObject = true →
    e.ownFirst = true → Whole (columns p first e)
  | .new _ members, _, h => by
    rw [ownFirst, Bool.and_eq_true] at h
    exact whole_columnsOf members (of_decide_eq_true h.1) h.2

theorem whole_columnsOf : ∀ members : List (PropertyRef × Expr), (ownNames members).Nodup →
    ownFirstAll members = true → Whole (columnsOf true members)
  | [], _, _ => fun k => ⟨rfl, by simp [columnsOf, cut]⟩
  | (p, e) :: rest, hnames, h => fun k => by
    rw [ownFirstAll, Bool.and_eq_true, Bool.and_eq_true, Bool.or_eq_true, Bool.not_eq_true'] at h
    obtain ⟨⟨he, hlast⟩, hrest⟩ := h
    cases hobject : e.isObject with
    | true =>
      have hall := hlast.resolve_left (by simp [hobject])
      exact cut_cons_object (whole_columns p true e hobject he)
        (fun k => behind_columnsOf rest k hrest) hall k
    | false =>
      obtain ⟨hown, hothers⟩ := behind_columnsOf rest (k + 1) hrest
      rw [cut_cons_value hobject, cut, if_pos rfl]
      refine ⟨rfl, List.forall_mem_cons.2 ⟨?_, hothers⟩⟩
      rw [List.map_cons, hown, PlacedColumn.name, ← ownNames_cons_value hobject]
      exact hnames

theorem behind_columnsOf : ∀ (members : List (PropertyRef × Expr)) (k : Nat),
    ownFirstAll members = true → Behind members k
  | [], _, _ => ⟨rfl, by simp [columnsOf, cut]⟩
  | (p, e) :: rest, k, h => by
    rw [ownFirstAll, Bool.and_eq_true, Bool.and_eq_true, Bool.or_eq_true, Bool.not_eq_true'] at h
    obtain ⟨⟨he, hlast⟩, hrest⟩ := h
    cases hobject : e.isObject with
    | true =>
      have hall := hlast.resolve_left (by simp [hobject])
      obtain ⟨hopen, hothers⟩ := cut_cons_object (whole_columns p false e hobject he)
        (fun k => behind_columnsOf rest k hrest) hall k
      refine ⟨?_, hothers⟩
      rw [hopen, ownNames_cons_object hobject, ownNames_eq_nil hall, List.map_nil]
    | false =>
      obtain ⟨hown, hothers⟩ := behind_columnsOf rest (k + 1) hrest
      refine ⟨?_, ?_⟩
      · rw [cut_cons_value hobject, cut, if_neg Bool.false_ne_true, List.map_cons, hown,
          PlacedColumn.name, ← ownNames_cons_value hobject]
      · rw [cut_cons_value hobject, cut, if_neg Bool.false_ne_true]
        exact hothers
end

end Expr

/-! ### Rows of projections -/

/-- **A projection loses no value** if the own values of each object differ in their names and objects
inside it come after them. -/
theorem Mapping.readRow_compile (m : Mapping) (single : String → String → Bool)
    (hsingle : ∀ p, single p.owner p.name = true → m.catalog.isNavigation p = false)
    (hregistered : ∀ x ∈ m.equivalents, single x.1.owner x.1.name = true → x.2.isRow = false)
    {entity type : String} {ps : List Param} {members : List (PropertyRef × Expr)}
    (hreceives : Expr.receivesMembers m.catalog members = true)
    (hdivides : Expr.dividesMembers single members = true)
    (hleaves : Expr.allLeavesSingle single members = true)
    (hcolumns : Expr.columnsOf true members ≠ []) (hnames : (Expr.ownNames members).Nodup)
    (hfirst : Expr.ownFirstAll members = true) {statement : Statement}
    (hstatement : (m.compile (.call .select [.source entity, .lambda ps (.new type members)])).1 =
      .ok statement) {row : List Value} (hrow : row.length = statement.layout.length) :
    m.Keeps statement.layout row := by
  obtain ⟨u, hrun, hgraph⟩ := Mapping.runs_of_compile hstatement
  obtain ⟨hkind, hitems⟩ := Compile.ensures_root_select hsingle hregistered hreceives hdivides hleaves
    hcolumns entity type ps _ u hrun
  rw [hgraph] at hkind hitems
  have hlayout : statement.layout = Expr.columnsOf true members := by
    rw [← hitems]
    unfold Statement.layout Statement.request
    rw [hkind]
  refine keeps_of_apart ?_ hrow
  rw [hlayout]
  exact (Expr.whole_columnsOf members hnames hfirst).apart

namespace Bosses

/-- The buyer of an order with its number, and the number of the order. -/
def numbered : List (PropertyRef × Expr) :=
  [(⟨"Report", "buyer", .object "Buyer"⟩,
      .new "Buyer" [(number "Buyer" "id", .member customer (number "Customer" "id"))]),
    (number "Report" "id", .member (.param someOrder) (number "Order" "id"))]

end Bosses

/-- With the buyer at the end, both numbers are kept. -/
example : Expr.ownFirstAll Bosses.numbered.reverse ∧
    Apart (Expr.columnsOf true Bosses.numbered.reverse) := by decide

/-- **The number of an order takes the place of its buyer's number**, which comes before it in an object
inside. -/
theorem numbered_loses_buyer :
    (Bosses.mapping.compile (Bosses.reporting Bosses.numbered)).1.toOption.map Statement.layout =
        some [⟨some (Bosses.number "Buyer" "id"), true⟩, ⟨some (Bosses.number "Report" "id"), false⟩] ∧
      Bosses.mapping.readRow [⟨some (Bosses.number "Buyer" "id"), true⟩,
        ⟨some (Bosses.number "Report" "id"), false⟩] [.int 7, .int 5] = .ok [[("id", .int 5)]] ∧
      ¬ Bosses.mapping.Keeps [⟨some (Bosses.number "Buyer" "id"), true⟩,
        ⟨some (Bosses.number "Report" "id"), false⟩] [.int 7, .int 5] := by
  refine ⟨by decide +kernel, rfl, ?_⟩
  rintro ⟨records, hrecords, hkeeps⟩
  cases hrecords
  obtain ⟨record, hrecord, hvalues⟩ := hkeeps 0 _ rfl
  cases hrecord
  have hbuyer : some (Value.int 5) = some (.int 7) := hvalues _ List.mem_cons_self
  simp at hbuyer

end EntityQuery
