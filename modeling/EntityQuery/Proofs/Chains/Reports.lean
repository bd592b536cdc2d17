import EntityQuery.Proofs.Chains.Endings
import EntityQuery.Proofs.Chains.Result
import EntityQuery.Proofs.Chains.Showing

/-!
Reports: grouped rows, what is shown of the groups, and what is asked of them in the end.

* `Report.ranged`: the request of a report, up to its ending.
* `Mapping.exposes_compile`: every report exposes only grouped values.
* What is asked of the rows before they are grouped stays in the request, and the existence of groups
  selects all columns: `existence_exposes_rows`.
-/

namespace EntityQuery

open Sql

/-! ### Reports -/

/-- Whether an operator is an order that replaces those before it. -/
def Link.restarts : Link → Bool
  | .order m _ _ => m = .orderBy || m = .orderByDescending
  | _ => false

/-- Rows of an entity that are grouped, operators on the groups, what is shown of them with operators on
that, and what is asked in the end. -/
structure Report where
  entity : String
  rows : List Link
  grouping : Grouping
  groups : List Link
  shown : Option (Showing × List Link) := none
  ending : Ending := .rows

namespace Report

def chain (h : Report) : Chain := ⟨h.entity, h.rows, some (h.grouping, h.groups)⟩

/-- The expression before the ending. -/
def body (h : Report) : Expr :=
  match h.shown with
  | some (w, links) => links.foldl Link.expr (w.expr h.chain.expr)
  | none => h.chain.expr

def expr (h : Report) : Expr := h.ending.expr h.body

variable (c : Catalog)

def keys (h : Report) : GroupKeys := h.grouping.keys c h.entity

def selection (h : Report) : Compile.Selection :=
  match h.shown with
  | some (w, _) => w.selection c h.entity (h.keys c)
  | none => {}

/-- What is read in the end: groups, or the members of what is shown of them. -/
def leaf (h : Report) (p : Param) : Expr → Option Fragment :=
  match h.shown with
  | some _ => Expr.heldLeaf (h.selection c).values p
  | none => Expr.groupLeaf c h.entity (h.keys c) p

def value (h : Report) (p : Param) (e : Expr) : Fragment := e.written (h.leaf c p) c

/-- The operators on what is shown. -/
def links (h : Report) : List Link := (h.shown.map Prod.snd).getD []

/-- **No order of the rows is left**: each of them is by keys, or an order of the groups replaces it. -/
def settles (h : Report) : Bool :=
  (h.rows.filterMap (Link.sort? (h.chain.rowValue c))).all (·.2.2.isGrouped (h.keys c)) ||
    (h.groups ++ h.links).any Link.restarts

/-- Whether all expressions are scalar, no order of the rows is left, and something is shown of groups
before it is asked whether there are any. -/
def fits (h : Report) : Bool :=
  h.chain.fits c && h.settles c &&
    h.shown.all (fun x => x.1.fits c h.entity (h.keys c) && x.2.all (Link.fits (h.leaf c))) &&
    h.ending.fits (h.leaf c) && (!h.ending.isAny || !(h.selection c).items.isEmpty)

def clauses (h : Report) : Clauses := h.links.foldl (Clauses.add (h.value c)) (h.chain.clauses c)

end Report

/-! ### Grouped clauses of reports -/

/-- A key that is left is one of those that were asked for. -/
lemma mem_of_mem_sinceRestart {ks : List (Bool × Bool × Fragment)} {o : Bool × Fragment}
    (ho : o ∈ sinceRestart ks) : ∃ k ∈ ks, k.2 = o := by
  induction ks with
  | nil => cases ho
  | cons k ks ih =>
    rw [sinceRestart] at ho
    split at ho
    · obtain ⟨k', hk', hk⟩ := ih ho
      exact ⟨k', List.mem_cons_of_mem _ hk', hk⟩
    · rcases List.mem_cons.1 ho with rfl | ho
      · exact ⟨k, List.mem_cons_self, rfl⟩
      · obtain ⟨k', hk', hk⟩ := List.mem_map.1 ho
        exact ⟨k', List.mem_cons_of_mem _ hk', hk⟩

/-- Nothing is left of the keys before one that replaces them. -/
lemma sinceRestart_append {ks ks' : List (Bool × Bool × Fragment)} (h : ks'.any (·.1) = true) :
    sinceRestart (ks ++ ks') = sinceRestart ks' := by
  induction ks with
  | nil => rfl
  | cons k ks ih =>
    rw [List.cons_append, sinceRestart, if_pos, ih]
    rw [List.any_append, h, Bool.or_true]

namespace Link

lemma any_sort? (value : Param → Expr → Fragment) (links : List Link) :
    (links.filterMap (sort? value)).any (·.1) = links.any restarts := by
  induction links with
  | nil => rfl
  | cons l links ih =>
    rw [List.filterMap_cons, List.any_cons, ← ih]
    cases l <;> rfl

variable {c : Catalog} {keys : GroupKeys} {leaf : Param → Expr → Option Fragment} {links : List Link}
  (hleaf : ∀ p e f, leaf p e = some f → f.isGrouped keys = true)
  (hlinks : links.all (Link.fits leaf) = true)
include hleaf hlinks

/-- The tests of operators on groups are grouped. -/
lemma isGrouped_tests {f : Fragment}
    (hf : f ∈ links.filterMap (test? fun p e => e.written (leaf p) c)) : f.isGrouped keys = true := by
  obtain ⟨l, hl, hf⟩ := List.mem_filterMap.1 hf
  have hfits := List.all_eq_true.1 hlinks l hl
  cases l with
  | filter p test =>
    cases hf
    rw [Fragment.isGrouped_asCondition]
    exact Expr.isGrouped_written (hleaf p) test hfits
  | firstOf p test =>
    cases hf
    rw [Fragment.isGrouped_asCondition]
    exact Expr.isGrouped_written (hleaf p) test hfits
  | _ => cases hf

/-- The keys that groups are sorted by are grouped. -/
lemma isGrouped_sorts {k : Bool × Bool × Fragment}
    (hk : k ∈ links.filterMap (sort? fun p e => e.written (leaf p) c)) : k.2.2.isGrouped keys = true := by
  obtain ⟨l, hl, hk⟩ := List.mem_filterMap.1 hk
  have hfits := List.all_eq_true.1 hlinks l hl
  cases l with
  | order method p key =>
    cases hk
    exact Expr.isGrouped_written (hleaf p) key (Bool.and_eq_true_iff.1 hfits).2
  | _ => cases hk

end Link

namespace Showing

variable {c : Catalog} {entity : String} {keys : GroupKeys} {g : Param}

/-- What is shown, and what members hold, is grouped. -/
structure Grouped (keys : GroupKeys) (V : Compile.Selection) : Prop where
  items : ∀ f ∈ V.items, f.isGrouped keys = true
  values : ∀ x ∈ V.values, x.2.isGrouped keys = true

lemma Grouped.add {V : Compile.Selection} (hV : Grouped keys V) (p : PropertyRef) {f : Fragment}
    (hf : f.isGrouped keys = true) : Grouped keys (V.add p f) := by
  refine ⟨fun f' hf' => ?_, fun x hx => ?_⟩
  · rcases List.mem_append.1 hf' with hf' | hf'
    · exact hV.items f' hf'
    · rw [List.mem_singleton.1 hf']
      exact hf
  · rcases List.mem_cons.1 hx with rfl | hx
    · exact hf
    · exact hV.values x (List.mem_of_mem_filter hx)

lemma Grouped.addKeys {V : Compile.Selection} (hV : Grouped keys V) : Grouped keys (V.addKeys keys) := by
  refine ⟨fun f hf => ?_, hV.values⟩
  rcases List.mem_append.1 hf with hf | hf
  · exact hV.items f hf
  · obtain ⟨k, hk, rfl⟩ := List.mem_map.1 hf
    exact Fragment.isGrouped_key hk

lemma isGrouped_inGroup {e : Expr} (he : e.isScalar (Expr.groupLeaf c entity keys g) = true) :
    (e.inGroup c entity keys g).isGrouped keys = true :=
  Expr.isGrouped_written (fun _ _ => Expr.isGrouped_groupLeaf) e he

mutual
/-- A member of an object is grouped, by the form of its value. -/
theorem Grouped.addMember {foreign : PropertyRef → Bool} : ∀ (e : Expr) {p : PropertyRef}
    {V : Compile.Selection}, Grouped keys V →
    e.showsMember (Expr.groupLeaf c entity keys g) foreign g p = true →
    Grouped keys (V.addMember (·.inGroup c entity keys g) keys p e)
  | .new _ members, _, _, hV, h => Grouped.addMembers members hV h
  | .key e, _, _, hV, h => by
    rw [Compile.Selection.addMember.eq_def]
    dsimp only
    split
    · exact hV.add _ (Fragment.isGrouped_key List.mem_cons_self)
    · exact hV.addKeys
  | .member _ _, _, _, hV, h | .const _, _, _, hV, h | .binary _ _ _, _, _, hV, h
  | .unary _ _, _, _, hV, h | .cond _ _ _, _, _, hV, h | .call _ _, _, _, hV, h
  | .source _, _, _, hV, h | .param _, _, _, hV, h | .lambda _ _, _, _, hV, h
  | .init _ _, _, _, hV, h => by
    simp only [Expr.showsMember, Bool.and_eq_true] at h
    exact hV.add _ (isGrouped_inGroup h.1)

theorem Grouped.addMembers {foreign : PropertyRef → Bool} : ∀ (members : List (PropertyRef × Expr))
    {V : Compile.Selection}, Grouped keys V →
    Expr.showsMembers (Expr.groupLeaf c entity keys g) foreign g members = true →
    Grouped keys (V.addMembers (·.inGroup c entity keys g) keys members)
  | [], _, hV, _ => hV
  | (p, e) :: rest, _, hV, h => by
    obtain ⟨he, hrest⟩ := Bool.and_eq_true_iff.1 h
    exact Grouped.addMembers rest (Grouped.addMember e hV he) hrest
end

/-- **What a projection shows is grouped.** -/
theorem grouped_selection {w : Showing} (hw : w.fits c entity keys = true) :
    Grouped keys (w.selection c entity keys) := by
  cases w with
  | key g member => exact ⟨fun f hf => by rw [List.mem_singleton.1 hf]; exact isGrouped_inGroup hw, nofun⟩
  | object g type members => exact Grouped.addMembers members ⟨nofun, nofun⟩ hw

/-- What is read from a member is grouped. -/
lemma isGrouped_heldLeaf {V : Compile.Selection} (hV : Grouped keys V) {p : Param} {e : Expr}
    {f : Fragment} (h : Expr.heldLeaf V.values p e = some f) : f.isGrouped keys = true := by
  unfold Expr.heldLeaf at h
  split at h
  · split at h
    · obtain ⟨x, hx, rfl⟩ := Option.map_eq_some_iff.1 h
      exact hV.values x (List.mem_of_find?_eq_some hx)
    · cases h
  · cases h

end Showing

namespace Report

variable {m : Mapping} {h : Report}

/-! ### The request of a report -/

/-- The conditions on a report, one by one. -/
structure Fits (c : Catalog) (h : Report) : Prop where
  chain : h.chain.fits c = true
  settles : h.settles c = true
  shown : ∀ w links, h.shown = some (w, links) →
    w.fits c h.entity (h.keys c) = true ∧ links.all (Link.fits (h.leaf c)) = true
  ending : h.ending.fits (h.leaf c) = true
  any : h.ending.isAny = true → (h.selection c).items ≠ []

lemma fits_iff (c : Catalog) (h : Report) : h.fits c = true ↔ h.Fits c := by
  simp only [fits, Bool.and_eq_true, Bool.or_eq_true, Bool.not_eq_true', List.isEmpty_eq_false_iff,
    Option.all_eq_true, Prod.forall]
  constructor
  · rintro ⟨⟨⟨⟨hchain, hsettles⟩, hshown⟩, hending⟩, hany⟩
    exact ⟨hchain, hsettles, hshown, hending, fun h => hany.resolve_left (by rw [h]; nofun)⟩
  · rintro ⟨hchain, hsettles, hshown, hending, hany⟩
    refine ⟨⟨⟨⟨hchain, hsettles⟩, hshown⟩, hending⟩, ?_⟩
    cases h : h.ending.isAny with
    | false => exact .inl rfl
    | true => exact .inr (hany h)

lemma keys_clauses (c : Catalog) (h : Report) : (h.clauses c).keys = h.keys c := Clauses.keys_foldl ..

namespace Fits

variable {c : Catalog} (hfits : h.Fits c)
include hfits

lemma keys_ne_nil : h.keys c ≠ [] :=
  Compile.keys_ne_nil (Bool.and_eq_true_iff.1 (Bool.and_eq_true_iff.1 hfits.chain).2).1

lemma groups : h.groups.all (Link.fits (Expr.groupLeaf c h.entity (h.keys c))) = true :=
  (Bool.and_eq_true_iff.1 (Bool.and_eq_true_iff.1 hfits.chain).2).2

lemma links : h.links.all (Link.fits (h.leaf c)) = true := by
  unfold Report.links
  cases hshown : h.shown with
  | none => rfl
  | some x => exact (hfits.shown x.1 x.2 hshown).2

lemma grouped_selection : Showing.Grouped (h.keys c) (h.selection c) := by
  unfold selection
  split
  · next w links hshown => exact Showing.grouped_selection (hfits.shown w links hshown).1
  · exact ⟨nofun, nofun⟩

/-- What is read in the end is grouped. -/
lemma isGrouped_leaf (p : Param) (e : Expr) (f : Fragment) (hf : h.leaf c p e = some f) :
    f.isGrouped (h.keys c) = true := by
  rw [leaf] at hf
  cases hshown : h.shown with
  | none =>
    rw [hshown] at hf
    exact Expr.isGrouped_groupLeaf hf
  | some x =>
    rw [hshown] at hf
    exact Showing.isGrouped_heldLeaf hfits.grouped_selection hf

/-- The tests on groups are grouped. -/
lemma isGrouped_groupTests {f : Fragment} (hf : f ∈ (h.clauses c).groupTests) :
    f.isGrouped (h.keys c) = true := by
  have hfull : (h.chain.clauses c).keys.isEmpty = false := List.isEmpty_eq_false_iff.2 hfits.keys_ne_nil
  rw [clauses, Clauses.foldl_add, hfull] at hf
  rcases List.mem_append.1 hf with hf | hf
  · exact Link.isGrouped_tests (fun _ _ _ => Expr.isGrouped_groupLeaf) hfits.groups hf
  · exact Link.isGrouped_tests hfits.isGrouped_leaf hfits.links hf

/-- **The orders are grouped**: those of the rows that are left are by keys. -/
lemma isGrouped_orders {o : Bool × Fragment} (ho : o ∈ (h.clauses c).orders) :
    o.2.isGrouped (h.keys c) = true := by
  have hgroups : ∀ {k}, k ∈ h.groups.filterMap (Link.sort? (h.chain.groupValue c)) →
      k.2.2.isGrouped (h.keys c) = true :=
    fun hk => Link.isGrouped_sorts (fun _ _ _ => Expr.isGrouped_groupLeaf) hfits.groups hk
  have hlinks : ∀ {k}, k ∈ h.links.filterMap (Link.sort? (h.value c)) →
      k.2.2.isGrouped (h.keys c) = true :=
    fun hk => Link.isGrouped_sorts hfits.isGrouped_leaf hfits.links hk
  rw [clauses, Clauses.foldl_add, foldl_restart, Link.any_sort?] at ho
  dsimp only at ho
  split at ho
  · obtain ⟨k, hk, rfl⟩ := mem_of_mem_sinceRestart ho
    exact hlinks hk
  · next hnone =>
    rcases List.mem_append.1 ho with ho | ho
    · change o ∈ sinceRestart (h.rows.filterMap (Link.sort? (h.chain.rowValue c)) ++
        h.groups.filterMap (Link.sort? (h.chain.groupValue c))) at ho
      rcases Bool.or_eq_true_iff.1 hfits.settles with hrows | hrestart
      · obtain ⟨k, hk, rfl⟩ := mem_of_mem_sinceRestart ho
        rcases List.mem_append.1 hk with hk | hk
        · exact List.all_eq_true.1 hrows k hk
        · exact hgroups hk
      · rw [List.any_append, Bool.or_eq_true_iff, or_iff_left hnone] at hrestart
        rw [sinceRestart_append (by rw [Link.any_sort?, hrestart])] at ho
        obtain ⟨k, hk, rfl⟩ := mem_of_mem_sinceRestart ho
        exact hgroups hk
    · obtain ⟨k, hk, rfl⟩ := List.mem_map.1 ho
      exact hlinks hk

lemma groupedClauses : Compile.GroupedClauses (h.clauses c) := by
  refine ⟨fun f hf => ?_, fun o ho => ?_⟩
  · rw [keys_clauses]
    exact hfits.isGrouped_groupTests hf
  · rw [keys_clauses]
    exact hfits.isGrouped_orders ho

end Fits

/-- What is read in the end becomes the value that is written for it. -/
lemma compiles_value {K : Clauses} (hK : K.keys = h.keys m.catalog) {p : Param} {e : Expr}
    (he : e.isScalar (h.leaf m.catalog p) = true) (fuel : Nat) :
    Compile.Compiles m h.entity K (h.selection m.catalog) (Compile.visit [] fuel) e
      (h.value m.catalog p e) := by
  rw [leaf] at he
  rw [value, leaf]
  cases hshown : h.shown with
  | none =>
    rw [hshown, ← hK] at he
    rw [← hK]
    exact Compile.compiles_group he fuel
  | some _ =>
    rw [hshown] at he
    exact Compile.compiles_held he fuel

/-- **The request of a report**, before its ending. -/
theorem ranged (hm : Compile.Unregistered m h.entity) (hfits : h.Fits m.catalog) :
    Compile.Ranged m h.entity (h.clauses m.catalog) (h.selection m.catalog) h.body := by
  have hchain := Compile.ranged_chain hm hfits.chain
  cases hshown : h.shown with
  | none =>
    have hbody : h.body = h.chain.expr := by rw [body, hshown]
    have hselection : h.selection m.catalog = {} := by rw [selection, hshown]
    have hclauses : h.clauses m.catalog = h.chain.clauses m.catalog := by rw [clauses, links, hshown]; rfl
    rw [hbody, hselection, hclauses]
    exact hchain
  | some x =>
    obtain ⟨w, links⟩ := x
    obtain ⟨hw, hlinks⟩ := hfits.shown w links hshown
    have hselect := hchain.select hfits.keys_ne_nil hw
    have hselection : h.selection m.catalog = w.selection m.catalog h.entity (h.keys m.catalog) := by
      rw [selection, hshown]
    have hbody : h.body = links.foldl Link.expr (w.expr h.chain.expr) := by rw [body, hshown]
    have hclauses : h.clauses m.catalog =
        links.foldl (Clauses.add (h.value m.catalog)) (h.chain.clauses m.catalog) := by
      rw [clauses, Report.links, hshown]
      rfl
    rw [hbody, hclauses]
    exact Compile.ranged_foldl links hlinks (fun hK _ _ he fuel => compiles_value hK he fuel)
      (hselection ▸ hselect)

end Report

/-- **A grouped request only exposes grouped values.** The statement of a report groups by the columns of
its keys, and every request of it that groups exposes nothing but keys, constants, aggregates, requests of
their own and combinations of these in its columns, its condition on groups and its order. Own scalar
members are read where they are mapped. -/
theorem Mapping.exposes_compile {m : Mapping} {h : Report} {s : Statement}
    (hm : Compile.Unregistered m h.entity) (hfits : h.fits m.catalog = true)
    (hrun : (m.compile h.expr).1 = .ok s) :
    (s.graph.request ⟨0⟩).groups.map s.graph.node = (h.keys m.catalog).map (.column ⟨0⟩ ·.1) ∧
      ∀ r, (s.graph.request r).groups ≠ [] → s.graph.Exposes (s.graph.request r) := by
  have hfits := (Report.fits_iff m.catalog h).1 hfits
  have hkeys := h.keys_clauses m.catalog
  have hfull : (h.clauses m.catalog).keys ≠ [] := hkeys ▸ hfits.keys_ne_nil
  obtain ⟨t, hroot, hgraph⟩ := Mapping.runs_of_compile hrun
  have hreported : t.graph.Reported (h.clauses m.catalog).keys := Compile.reported_root hfull
    (fun fuel => (Report.ranged hm hfits).reported_ending hfull hfits.groupedClauses
      (hkeys ▸ hfits.grouped_selection.items) (hkeys ▸ hfits.isGrouped_leaf)
      (fun he fuel => Report.compiles_value hkeys he fuel) fuel hfits.ending hfits.any) s.root t hroot
  rw [hgraph, hkeys] at hreported
  refine ⟨?_, hreported.exposes⟩
  have hgroups := hreported.groups.imp fun _ _ hn => hn.2.symm
  rw [← List.forall₂_eq_eq_eq, List.forall₂_map_left_iff, List.forall₂_map_right_iff]
  exact hgroups.flip.imp fun _ _ h => h.symm

/-! ### Totals of orders -/

namespace Sums

def byTotal : Param := ⟨⟨3⟩, "g", .grouping (.scalar .int false) (.entity "Order")⟩

def row : Param := ⟨⟨4⟩, "x", .object "Row"⟩

def shownTotal : PropertyRef := ⟨"Row", "total", .scalar .int false⟩

def shownSum : PropertyRef := ⟨"Row", "sum", .scalar .int false⟩

def sumOfGroup : Expr := .call .sum [.param byTotal, .lambda [order] (.member (.param order) id)]

/-- The number of totals, among those of orders by total whose sum of numbers is above three. -/
def report : Report where
  entity := "Order"
  rows := [.filter order (.binary .greaterThan (.member (.param order) total) (int 1)),
    .order .orderBy order (.member (.param order) total)]
  grouping := .single order total
  groups := [.filter byTotal (.binary .greaterThan sumOfGroup (int 3))]
  shown := some (.object byTotal "Row" [(shownTotal, .key (.param byTotal)), (shownSum, sumOfGroup)],
    [.order .thenBy row (.member (.param row) shownSum)])
  ending := .aggregate .count (some (row, .binary .lessThan (.member (.param row) shownSum) (int 9)))

/-- Whether there are totals. -/
def existence : Report where
  entity := "Order"
  rows := []
  grouping := .single order total
  groups := []
  ending := .any none

/-- The request whose existence a statement asks for. -/
def existing? (s : Statement) : Option RequestId := do
  let i ← s.request.items.head?
  match s.graph.node i.node with
  | .cond test _ _ =>
    match s.graph.node test with
    | .unary .exists (some n) =>
      match s.graph.node n with
      | .sub r => some r
      | _ => none
    | _ => none
  | _ => none

lemma nests_of_existing? {s : Statement} {r : RequestId} (h : existing? s = some r) :
    s.graph.Nests s.root r := by
  obtain ⟨i, hi, h⟩ := Option.bind_eq_some_iff.1 h
  have hitem : i.node ∈ s.request.clauseNodes := by
    have hmem := List.mem_map_of_mem (f := Item.node) (List.mem_of_mem_head? hi)
    simp only [Request.clauseNodes, List.mem_append, hmem, true_or, or_true]
  split at h
  · next test _ _ hcond =>
    split at h
    · next n hexists =>
      split at h
      · next hsub =>
        cases h
        have htest : test ∈ (s.graph.node i.node).children := by rw [hcond]; exact List.mem_cons_self
        have hn : n ∈ (s.graph.node test).children := by rw [hexists]; exact List.mem_cons_self
        exact .inl ⟨i.node, hitem, n, .tail (.single htest) hn, hsub⟩
      · cases h
    · cases h
  · cases h

/-- The names of columns of the first source. -/
def names (g : Graph) (ns : List NodeId) : List (Option String) := ns.map fun n =>
  match g.node n with
  | .column ⟨0⟩ name => some name
  | _ => none

lemma eq_of_names {g : Graph} {ns : List NodeId} {x : String} (h : names g ns = [some x]) :
    ∃ n, ns = [n] ∧ g.node n = .column ⟨0⟩ x := by
  obtain ⟨n, rest, rfl, hn, hrest⟩ := List.map_eq_cons_iff.1 h
  obtain rfl := List.map_eq_nil_iff.1 hrest
  refine ⟨n, rfl, ?_⟩
  split at hn
  · next name hnode => rw [hnode, Option.some.inj hn]
  · cases hn

end Sums

/-- A report with a projection, whose groups are counted. -/
theorem exposes_compile_sums : Compile.Unregistered Sums.mapping "Order" ∧
    Sums.report.fits Sums.mapping.catalog = true ∧
    ∃ s, (Sums.mapping.compile Sums.report.expr).1 = .ok s ∧
      (s.graph.request ⟨0⟩).groups.map s.graph.node = [.column ⟨0⟩ "total"] ∧
      ∀ r, (s.graph.request r).groups ≠ [] → s.graph.Exposes (s.graph.request r) := by
  have hm : Compile.Unregistered Sums.mapping "Order" := fun _ _ => rfl
  have hfits : Sums.report.fits Sums.mapping.catalog = true := by decide +kernel
  have hok : (Sums.mapping.compile Sums.report.expr).1.toOption.isSome = true := by decide +kernel
  refine ⟨hm, hfits, ?_⟩
  cases hcompile : (Sums.mapping.compile Sums.report.expr).1 with
  | error f =>
    rw [hcompile] at hok
    cases hok
  | ok s => exact ⟨s, rfl, Mapping.exposes_compile hm hfits hcompile⟩

/-- **The existence of groups exposes rows.** The statement that tells whether there are totals selects all
columns of the rows that it groups by total. -/
theorem existence_exposes_rows : ∃ s r, (Sums.mapping.compile Sums.existence.expr).1 = .ok s ∧
    s.graph.Nests s.root r ∧ (s.graph.request r).kind = .select ∧ (s.graph.request r).groups ≠ [] ∧
    ¬ s.graph.Exposes (s.graph.request r) := by
  have hfacts : (Sums.mapping.compile Sums.existence.expr).1.toOption.map (fun s =>
      (Sums.existing? s, (s.graph.request ⟨0⟩).kind,
        Sums.names s.graph ((s.graph.request ⟨0⟩).items.map Item.node),
        Sums.names s.graph (s.graph.request ⟨0⟩).groups)) =
      some (some ⟨0⟩, .select, [some allColumns], [some "total"]) := by decide +kernel
  obtain ⟨s, hs, hfacts⟩ := Option.map_eq_some_iff.1 hfacts
  simp only [Prod.mk.injEq] at hfacts
  obtain ⟨hnests, hkind, hitems, hgroups⟩ := hfacts
  obtain ⟨n, hitems, hall⟩ := Sums.eq_of_names hitems
  obtain ⟨k, hgroups, htotal⟩ := Sums.eq_of_names hgroups
  obtain ⟨i, hi, rfl⟩ := List.mem_map.1 (hitems ▸ List.mem_cons_self)
  refine ⟨s, ⟨0⟩, ?_, Sums.nests_of_existing? hnests, hkind, ?_, fun hexposes => ?_⟩
  · cases hcompile : (Sums.mapping.compile Sums.existence.expr).1 with
    | error f =>
      rw [hcompile] at hs
      cases hs
    | ok s' =>
      rw [hcompile] at hs
      cases hs
      rfl
  · rw [hgroups]
    exact List.cons_ne_nil _ _
  · obtain ⟨k', hk', hsame⟩ := (hexposes.items i hi).column hall
    rw [hgroups, List.mem_singleton] at hk'
    subst hk'
    rw [Graph.sameNodes_column hall htotal] at hsame
    cases hsame

end EntityQuery
