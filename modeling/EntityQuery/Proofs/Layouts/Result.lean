import EntityQuery.Proofs.Layouts.Summary
import EntityQuery.Proofs.Roots.Result

/-!
The columns of a projection.

* `Expr.columns`: the values of an object in the order of its members, an object inside it at its place.
  The first value of every object starts a new element.
* `layout_compile`: these are what the statement of a projection selects, and its layout.
* A member that an object inside gives a row is spread over the columns of its entity.
-/

namespace EntityQuery

open Sql Graph

namespace Expr

/-! ### The values of an object -/

mutual
/-- The columns that fill a member. -/
def columns (p : PropertyRef) (first : Bool) : Expr → List LayoutColumn
  | .new _ members => columnsOf true members
  | _ => [⟨some p, first⟩]

/-- The columns of the members of an object, the first of which may start a new element. -/
def columnsOf (first : Bool) : List (PropertyRef × Expr) → List LayoutColumn
  | [] => []
  | (p, e) :: rest => columns p first e ++ columnsOf false rest
end

mutual
/-- Whether all values in objects are single ones. -/
def leavesSingle (single : String → String → Bool) : Expr → Bool
  | .new _ members => allLeavesSingle single members
  | e => isSingle single e

def allLeavesSingle (single : String → String → Bool) : List (PropertyRef × Expr) → Bool
  | [] => true
  | (_, e) :: rest => leavesSingle single e && allLeavesSingle single rest
end

end Expr

/-- A request selects values for further columns. -/
def Sql.Request.Adds (k : Request) (columns : List LayoutColumn) (k' : Request) : Prop :=
  ∃ items : List Item, items.map (fun i => ⟨i.property, i.newElement⟩) = columns ∧
    k' = { k with items := k.items ++ items }

namespace Sql.Request.Adds

lemma nil (k : Request) : k.Adds [] k := ⟨[], rfl, by simp⟩

lemma append {k k' k'' : Request} {l l' : List LayoutColumn} (h : k.Adds l k') (h' : k'.Adds l' k'') :
    k.Adds (l ++ l') k'' := by
  obtain ⟨items, rfl, rfl⟩ := h
  obtain ⟨items', rfl, rfl⟩ := h'
  exact ⟨items ++ items', by simp, by simp⟩

end Sql.Request.Adds

namespace Compile

variable {c : Catalog} {single : String → String → Bool} {A : Anchor} {k : Request} {s : CompileState}

/-! ### The request itself -/

/-- A change to clauses of the request that is being put together. -/
lemma Filling.change (h : Filling c single A k s) {A' : Anchor} {k' : Request} {f : Request → Request}
    (hA : (s.graph.modifyRequest A.request f).Anchored A') (hrequest : A'.request = A.request)
    (hf : ∀ joins, f { k with joins } = { k' with joins })
    (hitems : ∀ i ∈ k'.items, s.graph.Plain i.node) :
    Filling c single A' k' { s with graph := s.graph.modifyRequest A.request f } := by
  obtain ⟨joins, hk⟩ := h.request
  refine ⟨hA, h.active, ⟨joins, ?_⟩, fun i hi => ⟨(hitems i hi).inside, (hitems i hi).scalar⟩, h.catalog,
    h.relations, h.paths, fun x hx hx' => ⟨(h.computed x hx hx').inside, (h.computed x hx hx').scalar⟩,
    h.equivalents⟩
  rw [hrequest, request_modifyRequest_self _ _ h.anchored.inside, hk, hf]

lemma Filling.clearItems (h : Filling c single A k s) :
    Filling c single A { k with items := [] } { s with graph := s.graph.clearItems A.request } :=
  h.change (h.anchored.clearItems A.request) rfl (fun _ => rfl) (by simp)

/-- The request selects a further plain value. -/
lemma Filling.pushItem (h : Filling c single A k s) {i : Item} (hi : s.graph.Plain i.node) :
    Filling c single A { k with items := k.items ++ [i] }
      { s with graph := s.graph.pushItem A.request i } := by
  have hattach := h.anchored.skirts_attach A.request i.node
  refine (h.skirt hattach).change (h.anchored.pushItem A.request i) rfl (fun _ => rfl) fun j hj => ?_
  rcases List.mem_append.1 hj with hj | hj
  · exact hattach.plain (h.items j hj)
  · rw [List.mem_singleton.1 hj]
    exact hattach.plain hi

lemma Filling.adds {p : PropertyRef} {newElement : Bool} {n : NodeId} (h : Filling c single A k s)
    (hn : s.graph.Plain n) :
    ∃ k', k.Adds [⟨some p, newElement⟩] k' ∧ Filling c single A k' { s with
      graph := s.graph.pushItem A.request { node := n, property := some p, newElement } } :=
  ⟨_, ⟨[_], rfl, rfl⟩, h.pushItem hn⟩

/-! ### Members of an object -/

mutual
/-- A member adds its columns to what the request selects. -/
theorem adds_projectMember {visit : Visit} (hv : Fills c single visit) (p : PropertyRef)
    (newElement : Bool) : ∀ e, Expr.Parted.Filled c single p e → e.leavesSingle single = true →
      ∀ {k s}, Filling c single A k s → Ensures (projectMember visit A.request p newElement e) s
        fun _ t => ∃ k', k.Adds (e.columns p newElement) k' ∧ Filling c single A k' t
  | .new _ members, he, hleaves, k, s, hs => by
    rw [projectMember, Expr.columns]
    rw [Expr.leavesSingle] at hleaves
    exact adds_projectMembers hv true members he.2.2.new hleaves hs
  | .member target q, he, hleaves, k, s, hs => by
    rw [projectMember]
    exact ensures_projectPath hv he (fun n t ht hn => ht.adds (hn hleaves)) hs
  | .source _, he, hleaves, k, s, hs | .const _, he, hleaves, k, s, hs
  | .binary _ _ _, he, hleaves, k, s, hs | .unary _ _, he, hleaves, k, s, hs
  | .cond _ _ _, he, hleaves, k, s, hs | .call _ _, he, hleaves, k, s, hs =>
    ensures_projectComputed hv he (fun n t ht hn => ht.adds (hn hleaves)) hs

/-- The members of an object add their columns in order. -/
theorem adds_projectMembers {visit : Visit} (hv : Fills c single visit) (newElement : Bool) :
    ∀ members, (∀ x ∈ members, Expr.Parted.Filled c single x.1 x.2) →
      Expr.allLeavesSingle single members = true → ∀ {k s}, Filling c single A k s →
        Ensures (projectMembers visit A.request newElement members) s fun _ t =>
          ∃ k', k.Adds (Expr.columnsOf newElement members) k' ∧ Filling c single A k' t
  | [], _, _, k, s, hs => ensures_pure.2 ⟨k, .nil k, hs⟩
  | (p, e) :: rest, hmembers, hleaves, k, s, hs => by
    rw [Expr.allLeavesSingle, Bool.and_eq_true] at hleaves
    rw [projectMembers, Expr.columnsOf]
    refine (adds_projectMember hv p newElement e (hmembers _ List.mem_cons_self) hleaves.1 hs).bind ?_
    rintro _ t ⟨k', hk', ht⟩
    refine (adds_projectMembers hv false rest (fun x hx => hmembers x (List.mem_cons_of_mem _ hx))
      hleaves.2 ht).mono ?_
    rintro _ u ⟨k'', hk'', hu⟩
    exact ⟨k'', hk'.append hk'', hu⟩
end

/-! ### Statements -/

/-- Nothing is known of members yet, and nothing is selected. -/
lemma Guarded.filling {o : RequestId} (h : Guarded single A o s) (hpaths : s.paths = [])
    (hcomputed : s.computed = []) (hitems : (s.graph.request A.request).items = [])
    (hregistered : ∀ x ∈ s.mapping.equivalents, single x.1.owner x.1.name = true → x.2.isRow = false) :
    Filling s.mapping.catalog single A (s.graph.request A.request) s where
  anchored := h.anchored
  active := by rw [h.active]; rfl
  request := ⟨(s.graph.request A.request).joins, rfl⟩
  items i hi := by rw [hitems] at hi; cases hi
  catalog := rfl
  relations p _ := by rw [hpaths]; rfl
  paths := h.paths
  computed x hx := by rw [hcomputed] at hx; cases hx
  equivalents := hregistered

/-- The first request of a statement selects nothing. -/
lemma filling_initial {m : Mapping} (hregistered : ∀ x ∈ m.equivalents,
      single x.1.owner x.1.name = true → x.2.isRow = false) (entity : String) :
    Ensures (source entity) { mapping := m } fun x t => ∃ A k, x = .query A.request ∧
      Filling m.catalog single A k t ∧ k.kind = .select := by
  refine ensures_source_iff.2 fun table htable => ?_
  have hroots : Ensures (source entity) { mapping := m } fun x t => Roots single (.source entity) t x :=
    roots_source ⟨rfl, rfl, rfl⟩ entity
  obtain ⟨⟨base, hs⟩, -⟩ := ensures_source_iff.1 hroots table htable
  refine ⟨_, _, rfl, hs.filling rfl rfl ?_ hregistered, ?_⟩
  all_goals
    rw [request_modifyRequest_self _ _ (by simp), request_addAlias, request_addRequest_self]

/-- The selected values are selected again. -/
lemma filling_expandItems (items : List Item) (hs : Filling c single A k s)
    (hitems : ∀ i ∈ items, s.graph.Plain i.node) :
    Ensures (items.forM (expandItem A.request)) s fun _ t =>
      Filling c single A { k with items := k.items ++ items } t := by
  induction items generalizing k s with
  | nil => exact ensures_pure.2 (by simpa using hs)
  | cons i items ih =>
    have hi := hitems i List.mem_cons_self
    have hexpand : Ensures (expandItem A.request i) s fun _ t => t = { s with
        graph := s.graph.pushItem A.request i } := by
      rw [expandItem, ensures_bind, ensures_graph]
      split
      · next a ha =>
        have hscalar := hi.scalar
        rw [ha] at hscalar
        cases hscalar
      · exact ensures_edit.2 rfl
    refine hexpand.bind ?_
    rintro _ t rfl
    have hrest := ih (hs.pushItem hi) fun j hj => (hitems j (List.mem_cons_of_mem _ hj)).pushItem _ _
    simpa using hrest

/-- The result has the values that the request selects. -/
lemma filling_declareColumns (e : Expr) (hs : Filling c single A k s) (hitems : k.items ≠ []) :
    Ensures (declareColumns e A.request) s fun _ t => Filling c single A k t := by
  obtain ⟨joins, hrequest⟩ := hs.request
  rw [declareColumns, ensures_bind, ensures_request, hrequest]
  split
  · next hnone => exact absurd hnone hitems
  · rw [ensures_bind, ensures_edit]
    have hplain : ∀ i ∈ k.items, (s.graph.clearItems A.request).Plain i.node := fun i hi =>
      ⟨(hs.items i hi).inside, (hs.items i hi).scalar⟩
    exact (filling_expandItems k.items hs.clearItems hplain).mono fun _ t ht => by simpa using ht
  · exact ensures_pure.2 hs

section Projections

variable {m : Mapping} (hsingle : ∀ p, single p.owner p.name = true → m.catalog.isNavigation p = false)
  (hregistered : ∀ x ∈ m.equivalents, single x.1.owner x.1.name = true → x.2.isRow = false)
  {members : List (PropertyRef × Expr)} (hreceives : Expr.receivesMembers m.catalog members = true)
  (hdivides : Expr.dividesMembers single members = true)
  (hleaves : Expr.allLeavesSingle single members = true)
include hsingle hregistered hreceives hdivides hleaves

/-- A projection of rows selects the values of its object. -/
lemma filling_select (e : Expr) (entity type : String) (ps : List Param) (fuel : Nat) :
    Ensures (select (visit [] fuel) e false (.source entity)
      [.source entity, .lambda ps (.new type members)]) { mapping := m } fun x t =>
        ∃ A k, x = .query A.request ∧ Filling m.catalog single A k t ∧ k.kind = .select ∧
          k.items.map (fun i => ⟨i.property, i.newElement⟩) = Expr.columnsOf true members := by
  have hsource : Ensures (visit [] fuel (.source entity)) { mapping := m } fun x t =>
      ∃ A k, x = .query A.request ∧ Filling m.catalog single A k t ∧ k.kind = .select := by
    cases fuel with
    | zero => exact ensures_reject
    | succ fuel => exact filling_initial hregistered entity
  rw [select, openReceiver, bind_assoc, receiver, bind_assoc]
  refine hsource.bind ?_
  rintro _ t ⟨A, k, rfl, ht, hkind⟩
  rw [pure_bind, bind_assoc, ensures_bind, ensures_setActive, pure_bind]
  have ht : Filling m.catalog single A k { t with active := some A.request } := ht.activate rfl
  refine ensures_bind.2 (ensures_pure.2 ?_)
  refine (filling_enter e A.request (.lambda ps (.new type members)) _ ht).bind ?_
  rintro _ u ⟨hu, _, ⟨⟩⟩
  rw [ensures_bind, ensures_edit, ensures_bind, ensures_widening]
  refine (adds_projectMembers (fills_visit hsingle fuel) true members
    (Expr.Parted.members hreceives hdivides) hleaves (hu.clearItems.widen true)).mono ?_
  rintro _ v ⟨_, ⟨items, hitems, rfl⟩, hv⟩
  have hv := hv.widen u.widen
  rw [pure_bind, ensures_bind, ensures_editRequest, ensures_pure]
  have hrequest : (A.showing A.request (.object type)).request = A.request := by
    rw [Anchor.showing, if_pos rfl]
  refine ⟨_, { k with items, projection := some (.object type) }, by rw [hrequest], ?_, hkind, hitems⟩
  have hanchored := hv.anchored.project A.request (.object type) (f := ({ · with
    projection := some (.object type) })) fun _ => by simp
  exact hv.change hanchored hrequest (fun _ => rfl) hv.items

variable (hcolumns : Expr.columnsOf true members ≠ [])
include hcolumns

/-- The root is the request of the rows, and has the selected values. -/
lemma ensures_root_select (entity type : String) (ps : List Param) :
    Ensures (root [] (.call .select [.source entity, .lambda ps (.new type members)])) { mapping := m }
      fun r t => (t.graph.request r).kind = .select ∧ (t.graph.request r).items.map
        (fun i => ⟨i.property, i.newElement⟩) = Expr.columnsOf true members := by
  set e : Expr := .call .select [.source entity, .lambda ps (.new type members)] with he
  have hvisit : Ensures (visit [] e.depth e) { mapping := m } fun x t => ∃ A k, x = .query A.request ∧
      t.active = some A.request ∧ Filling m.catalog single A k t ∧ k.kind = .select ∧
        k.items.map (fun i => ⟨i.property, i.newElement⟩) = Expr.columnsOf true members := by
    intro x t hrun
    have hactive := points_visit e.depth e _ x t hrun
    rw [he, Expr.depth] at hrun
    obtain ⟨A, k, rfl, ht⟩ :=
      filling_select hsingle hregistered hreceives hdivides hleaves e entity type ps _ x t hrun
    exact ⟨A, k, rfl, hactive, ht⟩
  change Ensures (do
    let _ ← visit [] e.depth e
    let r := (← graph).outermost (← active e)
    declareColumns e r
    return r) { mapping := m } _
  refine hvisit.bind ?_
  rintro _ t ⟨A, k, rfl, hactive, ht, hkind, hitems⟩
  rw [ensures_bind, ensures_graph, ensures_bind, ensures_active, hactive]
  rintro _ ⟨⟩
  rw [ht.anchored.outermost]
  have hsome : k.items ≠ [] := fun hnone => hcolumns (by rw [← hitems, hnone]; rfl)
  refine (filling_declareColumns e ht hsome).bind fun _ u hu => ensures_pure.2 ?_
  obtain ⟨joins, hrequest⟩ := hu.request
  rw [hrequest]
  exact ⟨hkind, hitems⟩

end Projections

end Compile

/-! ### Layouts -/

namespace Mapping

/-- **The columns of a projection are the values of its object**, each in its place, if objects give
single values to the members that have them. The first value of every object starts a new element. -/
theorem layout_compile (m : Mapping) (single : String → String → Bool)
    (hsingle : ∀ p, single p.owner p.name = true → m.catalog.isNavigation p = false)
    (hregistered : ∀ x ∈ m.equivalents, single x.1.owner x.1.name = true → x.2.isRow = false)
    {entity type : String} {ps : List Param} {members : List (PropertyRef × Expr)}
    (hreceives : Expr.receivesMembers m.catalog members = true)
    (hdivides : Expr.dividesMembers single members = true)
    (hleaves : Expr.allLeavesSingle single members = true)
    (hcolumns : Expr.columnsOf true members ≠ []) {statement : Statement}
    (hstatement : (m.compile (.call .select [.source entity, .lambda ps (.new type members)])).1 =
      .ok statement) :
    statement.request.items.map (fun i => ⟨i.property, i.newElement⟩) = Expr.columnsOf true members ∧
      statement.layout = Expr.columnsOf true members := by
  obtain ⟨u, hrun, hgraph⟩ := Mapping.runs_of_compile hstatement
  obtain ⟨hkind, hitems⟩ := Compile.ensures_root_select hsingle hregistered hreceives hdivides hleaves
    hcolumns entity type ps _ u hrun
  rw [hgraph] at hkind hitems
  have hlayout : statement.layout = statement.request.items.map fun i => ⟨i.property, i.newElement⟩ := by
    unfold Statement.layout Statement.request
    rw [hkind]
  exact ⟨hitems, hlayout.trans hitems⟩

end Mapping

/-! ### Orders and the bosses of customers -/

namespace Bosses

def mapping : Mapping where
  catalog := ⟨[⟨"Customer", "customers", some "id", [⟨"id", "id", .scalar .int false none⟩,
      ⟨"name", "name", .scalar .string false none⟩, ⟨"boss", "boss_id", .reference "Customer"⟩,
      ⟨"orders", "customer_id", .collection "Order"⟩]⟩,
    ⟨"Order", "orders", some "id", [⟨"id", "id", .scalar .int false none⟩,
      ⟨"total", "total", .scalar .int false none⟩, ⟨"customer", "customer_id", .reference "Customer"⟩]⟩]⟩

def someOrder : Param := ⟨⟨1⟩, "o", .entity "Order"⟩

def someCustomer : Param := ⟨⟨2⟩, "c", .entity "Customer"⟩

/-- A member of an object that holds a number. -/
def number (owner name : String) : PropertyRef := ⟨owner, name, .scalar .int false⟩

/-- How many customers have a boss, counted over objects of a type with the boss as their total. -/
def bosses (type : String) : Expr :=
  .call .count [.call .select [.source "Customer", .lambda [someCustomer]
    (.new type [(⟨type, "total", .entity "Customer"⟩,
      .member (.param someCustomer) ⟨"Customer", "boss", .entity "Customer"⟩)])]]

def total : Expr := .member (.param someOrder) (number "Order" "total")

def customer : Expr := .member (.param someOrder) ⟨"Order", "customer", .entity "Customer"⟩

/-- The number of bosses and the total of an order. -/
def totals (type : String) : List (PropertyRef × Expr) :=
  [(number "Report" "bosses", bosses type), (number "Report" "total", total)]

/-- The customer of an order with the number of orders. -/
def buyer : List (PropertyRef × Expr) :=
  [(⟨"Buyer", "name", .scalar .string false⟩,
      .member customer ⟨"Customer", "name", .scalar .string false⟩),
    (number "Buyer" "orders",
      .call .count [.member customer ⟨"Customer", "orders", .collection (.entity "Order")⟩])]

/-- The totals of an order with its buyer between them. -/
def report (type : String) : List (PropertyRef × Expr) :=
  [(number "Report" "bosses", bosses type), (⟨"Report", "buyer", .object "Buyer"⟩, .new "Buyer" buyer),
    (number "Report" "total", total)]

/-- Objects for all orders. -/
def reporting (members : List (PropertyRef × Expr)) : Expr :=
  .call .select [.source "Order", .lambda [someOrder] (.new "Report" members)]

/-- Members have single values that are not mapped to navigations, except those of a type. -/
def single (type owner name : String) : Bool :=
  owner != type && !mapping.catalog.isNavigation ⟨owner, name, .boolean⟩

lemma isNavigation_of_single {type : String} (p : PropertyRef)
    (hp : single type p.owner p.name = true) : mapping.catalog.isNavigation p = false := by
  have hsame : p.same ⟨p.owner, p.name, .boolean⟩ = true := by simp [PropertyRef.same]
  unfold single at hp
  rw [Bool.and_eq_true, Bool.not_eq_true'] at hp
  rw [← hp.2, Catalog.isNavigation, Catalog.isNavigation, mapping.catalog.propertyMapping_of_same hsame]

end Bosses

/-- An object inside another one, after a count over objects with rows. -/
theorem layout_compile_report : ∃ s,
    (Bosses.mapping.compile (Bosses.reporting (Bosses.report "Boss"))).1 = .ok s ∧
      s.layout = [⟨some (Bosses.number "Report" "bosses"), true⟩,
        ⟨some ⟨"Buyer", "name", .scalar .string false⟩, true⟩,
        ⟨some (Bosses.number "Buyer" "orders"), false⟩,
        ⟨some (Bosses.number "Report" "total"), false⟩] := by
  have hreceives : Expr.receivesMembers Bosses.mapping.catalog (Bosses.report "Boss") = true := by
    decide +kernel
  have hdivides : Expr.dividesMembers (Bosses.single "Boss") (Bosses.report "Boss") = true := by
    decide +kernel
  have hleaves : Expr.allLeavesSingle (Bosses.single "Boss") (Bosses.report "Boss") = true := by
    decide +kernel
  have hok : (Bosses.mapping.compile (Bosses.reporting (Bosses.report "Boss"))).1.toOption.isSome =
      true := by decide +kernel
  cases hcompile : (Bosses.mapping.compile (Bosses.reporting (Bosses.report "Boss"))).1 with
  | error f =>
    rw [hcompile] at hok
    cases hok
  | ok s =>
    exact ⟨s, rfl, (Bosses.mapping.layout_compile (Bosses.single "Boss") Bosses.isNavigation_of_single
      (by simp [Bosses.mapping]) hreceives hdivides hleaves (by decide +kernel) hcompile).2⟩

/-- **A row that an object inside has for a member is spread over its columns**, where the whole object
has a number for a member of that name: two values take three columns. -/
theorem layout_spreads_row :
    Expr.columnsOf true (Bosses.totals "Order") =
      [⟨some (Bosses.number "Report" "bosses"), true⟩, ⟨some (Bosses.number "Report" "total"), false⟩] ∧
    (Bosses.mapping.compile (Bosses.reporting (Bosses.totals "Order"))).1.toOption.map Statement.layout =
      some [⟨some (Bosses.number "Report" "bosses"), true⟩,
        ⟨some ⟨"Customer", "id", .scalar .int false⟩, true⟩,
        ⟨some ⟨"Customer", "name", .scalar .string false⟩, false⟩] := by
  decide +kernel

end EntityQuery
