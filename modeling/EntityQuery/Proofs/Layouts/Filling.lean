import EntityQuery.Proofs.Layouts.Skirts
import EntityQuery.Proofs.Nesting.Shape
import EntityQuery.Proofs.Projections.Scope

/-!
A request whose selected values are being put together.

* The properties are divided into those with single values and the others. `divides`: objects give
  single values to members with single values.
* `Filling c single A k s`: the request of the anchor is `k` but for its joins, its selected values are
  plain, and so are the values that are known of members with single values.
* `Fills`: expressions keep this for every such request. An operator inside works on another request,
  and a single expression stands for a plain value.
-/

namespace EntityQuery

open Sql Graph

/-! ### Single values -/

namespace Expr

/-- Whether an expression stands for a single value, given the members that do. An object is nothing by
itself, so it may fill any member. -/
def isSingle (single : String → String → Bool) : Expr → Bool
  | .source _ | .const _ | .binary _ _ _ | .cond _ _ _ | .new _ _ => true
  | .unary op e => op != .convert || isSingle single e
  | .member (.key _) _ => false
  | .member _ p => single p.owner p.name
  | .call m (arg :: _) => !(m.isLoadingHint || m == .useLeftJoin) || isSingle single arg
  | .call _ [] => true
  | .key _ | .param _ | .lambda _ _ | .init _ _ => false

mutual
/-- Whether every object in an expression gives single values to its members with single values. -/
def divides (single : String → String → Bool) : Expr → Bool
  | .source _ | .const _ | .param _ => true
  | .member e _ => divides single e
  | .key e => divides single e
  | .binary _ l r => divides single l && divides single r
  | .unary _ e => divides single e
  | .cond t y n => divides single t && divides single y && divides single n
  | .call _ args => dividesAll single args
  | .lambda _ body => divides single body
  | .new _ members => dividesMembers single members
  | .init _ bindings => dividesBindings single bindings

def dividesAll (single : String → String → Bool) : List Expr → Bool
  | [] => true
  | e :: rest => divides single e && dividesAll single rest

def dividesMembers (single : String → String → Bool) : List (PropertyRef × Expr) → Bool
  | [] => true
  | (p, e) :: rest =>
    (!single p.owner p.name || isSingle single e) && divides single e && dividesMembers single rest

def dividesBindings (single : String → String → Bool) : List Binding → Bool
  | [] => true
  | .assign p e :: rest =>
    (!single p.owner p.name || isSingle single e) && divides single e && dividesBindings single rest
  | .list _ es :: rest => dividesAll single es && dividesBindings single rest
end

lemma divides_of_mem {single : String → String → Bool} {es : List Expr}
    (h : dividesAll single es = true) {e : Expr} (he : e ∈ es) : e.divides single = true := by
  induction es with
  | nil => cases he
  | cons x es ih =>
    rw [dividesAll, Bool.and_eq_true] at h
    rcases List.mem_cons.1 he with rfl | he
    · exact h.1
    · exact ih h.2 he

/-- Every operator works on a sequence, and objects give single values to members with single
values. -/
structure Parted (c : Catalog) (single : String → String → Bool) (e : Expr) : Prop where
  receives : e.receives c = true
  divides : e.divides single = true

namespace Parted

variable {c : Catalog} {single : String → String → Bool} {e : Expr}

lemma member {target : Expr} {p : PropertyRef} (h : (Expr.member target p).Parted c single) :
    target.Parted c single :=
  ⟨by simpa only [Expr.receives] using h.receives, by simpa only [Expr.divides] using h.divides⟩

lemma key (h : (Expr.key e).Parted c single) : e.Parted c single :=
  ⟨by simpa only [Expr.receives] using h.receives, by simpa only [Expr.divides] using h.divides⟩

lemma unary {op : UnaryOperator} (h : (Expr.unary op e).Parted c single) : e.Parted c single :=
  ⟨by simpa only [Expr.receives] using h.receives, by simpa only [Expr.divides] using h.divides⟩

lemma lambda {ps : List Param} (h : (Expr.lambda ps e).Parted c single) : e.Parted c single :=
  ⟨by simpa only [Expr.receives] using h.receives, by simpa only [Expr.divides] using h.divides⟩

lemma binary {op : BinaryOperator} {l r : Expr} (h : (Expr.binary op l r).Parted c single) :
    l.Parted c single ∧ r.Parted c single := by
  obtain ⟨hreceives, hdivides⟩ := h
  rw [Expr.receives, Bool.and_eq_true] at hreceives
  rw [Expr.divides, Bool.and_eq_true] at hdivides
  exact ⟨⟨hreceives.1, hdivides.1⟩, ⟨hreceives.2, hdivides.2⟩⟩

lemma cond {t y n : Expr} (h : (Expr.cond t y n).Parted c single) :
    t.Parted c single ∧ y.Parted c single ∧ n.Parted c single := by
  obtain ⟨hreceives, hdivides⟩ := h
  rw [Expr.receives, Bool.and_eq_true, Bool.and_eq_true] at hreceives
  rw [Expr.divides, Bool.and_eq_true, Bool.and_eq_true] at hdivides
  exact ⟨⟨hreceives.1.1, hdivides.1.1⟩, ⟨hreceives.1.2, hdivides.1.2⟩, ⟨hreceives.2, hdivides.2⟩⟩

/-- The arguments of an operator, the first of which is its receiver. -/
lemma call {m : Method} {arg : Expr} {rest : List Expr}
    (h : (Expr.call m (arg :: rest)).Parted c single) :
    arg.isReceiver c m = true ∧ ∀ a ∈ arg :: rest, a.Parted c single := by
  obtain ⟨hreceives, hdivides⟩ := h
  rw [Expr.receives, Bool.and_eq_true] at hreceives
  rw [Expr.divides] at hdivides
  exact ⟨by simpa using hreceives.1, fun a ha =>
    ⟨receives_of_mem hreceives.2 ha, divides_of_mem hdivides ha⟩⟩

/-- What may fill a member. -/
def Filled (c : Catalog) (single : String → String → Bool) (p : PropertyRef) (e : Expr) : Prop :=
  c.relates p = false ∧ (single p.owner p.name = true → e.isSingle single = true) ∧ e.Parted c single

lemma members {members : List (PropertyRef × Expr)} (hreceives : receivesMembers c members = true)
    (hdivides : dividesMembers single members = true) : ∀ x ∈ members, Filled c single x.1 x.2 := by
  induction members with
  | nil => simp
  | cons x members ih =>
    obtain ⟨p, e⟩ := x
    simp only [receivesMembers, dividesMembers, Bool.and_eq_true, Bool.or_eq_true,
      Bool.not_eq_true'] at hreceives hdivides
    intro y hy
    rcases List.mem_cons.1 hy with rfl | hy
    · refine ⟨hreceives.1.1, fun hsingle => ?_, hreceives.1.2, hdivides.1.2⟩
      exact hdivides.1.1.resolve_left (by simp [hsingle])
    · exact ih hreceives.2 hdivides.2 y hy

lemma new {type : String} {members : List (PropertyRef × Expr)}
    (h : (Expr.new type members).Parted c single) : ∀ x ∈ members, Filled c single x.1 x.2 :=
  Parted.members (by simpa only [Expr.receives] using h.receives)
    (by simpa only [Expr.divides] using h.divides)

lemma init {type : String} {bindings : List Binding} (h : (Expr.init type bindings).Parted c single) :
    ∀ p e, .assign p e ∈ bindings → Filled c single p e := by
  obtain ⟨hreceives, hdivides⟩ := h
  rw [Expr.receives] at hreceives
  rw [Expr.divides] at hdivides
  induction bindings with
  | nil => simp
  | cons b bindings ih =>
    intro p e hmem
    cases b with
    | list q es =>
      simp only [receivesBindings, dividesBindings, Bool.and_eq_true] at hreceives hdivides
      exact ih hreceives.2 hdivides.2 p e ((List.mem_cons.1 hmem).resolve_left (by simp))
    | assign q v =>
      simp only [receivesBindings, dividesBindings, Bool.and_eq_true, Bool.or_eq_true,
        Bool.not_eq_true'] at hreceives hdivides
      rcases List.mem_cons.1 hmem with heq | hmem
      · cases heq
        refine ⟨hreceives.1.1, fun hsingle => ?_, hreceives.1.2, hdivides.1.2⟩
        exact hdivides.1.1.resolve_left (by simp [hsingle])
      · exact ih hreceives.2 hdivides.2 p e hmem

end Parted

/-- The path of a single member ends with one. -/
lemma endsMany_of_isSingle {single : String → String → Bool} {e : Expr} (he : e.isSingle single = true)
    {path : List PropertyRef} (hpath : e.memberPath? = some path) : EndsMany single path := by
  cases e with
  | member target p =>
    obtain ⟨init, -, rfl⟩ := Option.map_eq_some_iff.1 hpath
    refine ⟨p, by simp, ?_⟩
    cases target with
    | key g => cases he
    | _ => exact he
  | param p => cases he
  | _ => cases hpath

end Expr

/-- What is found for a property is kept for one of its name. -/
lemma PropertyTable.exists_of_find? {α : Type} {t : PropertyTable α} {p : PropertyRef} {a : α}
    (h : t.find? p = some a) :
    ∃ row ∈ t, row.1.owner = p.owner ∧ row.1.name = p.name ∧ row.2 = a := by
  obtain ⟨row, hrow, rfl⟩ := Option.map_eq_some_iff.1 h
  have hsame := List.find?_some hrow
  simp only [PropertyRef.same, Bool.and_eq_true, beq_iff_eq] at hsame
  exact ⟨row, List.mem_of_find?_eq_some hrow, hsame.1, hsame.2, rfl⟩

namespace Compile

/-! ### States -/

/-- The request of an anchor is `k` but for its joins, with plain values selected. What is known of
members with single values are plain values too. -/
structure Filling (c : Catalog) (single : String → String → Bool) (A : Anchor) (k : Request)
    (s : CompileState) : Prop where
  anchored : s.graph.Anchored A
  active : s.active.isSome = true
  request : ∃ joins, s.graph.request A.request = { k with joins }
  items : ∀ i ∈ k.items, s.graph.Plain i.node
  catalog : s.mapping.catalog = c
  relations : ∀ p, c.relates p = true → s.paths.find? p = none
  paths : LeadMany single s.paths
  computed : ∀ x ∈ s.computed, single x.1.owner x.1.name = true → s.graph.Plain x.2
  equivalents : ∀ x ∈ s.mapping.equivalents, single x.1.owner x.1.name = true → x.2.isRow = false

variable {c : Catalog} {single : String → String → Bool} {A : Anchor} {k : Request}
  {s t : CompileState} {r : RequestId} {n : NodeId}

namespace Filling

variable (h : Filling c single A k s)
include h

lemma skirt {g : Graph} (hg : s.graph.Skirts A g) : Filling c single A k { s with graph := g } where
  anchored := hg.anchored
  active := h.active
  request := by
    obtain ⟨joins, hs⟩ := h.request
    obtain ⟨joins', hg⟩ := hg.request
    exact ⟨joins', by rw [hg, hs]⟩
  items i hi := hg.plain (h.items i hi)
  catalog := h.catalog
  relations := h.relations
  paths := h.paths
  computed x hx hsingle := hg.plain (h.computed x hx hsingle)
  equivalents := h.equivalents

/-- Whether navigations drop rows, the active request and the hints play no part. -/
lemma congr (hgraph : t.graph = s.graph) (hactive : t.active.isSome = true)
    (hmapping : t.mapping = s.mapping) (hpaths : t.paths = s.paths)
    (hcomputed : t.computed = s.computed) : Filling c single A k t := by
  refine ⟨?_, hactive, ?_, ?_, ?_, ?_, ?_, ?_, ?_⟩
  · exact hgraph ▸ h.anchored
  · exact hgraph ▸ h.request
  · exact hgraph ▸ h.items
  · exact hmapping ▸ h.catalog
  · exact hpaths ▸ h.relations
  · exact hpaths ▸ h.paths
  · exact hgraph ▸ hcomputed ▸ h.computed
  · exact hmapping ▸ h.equivalents

lemma activate {active : Option RequestId} (hactive : active.isSome = true) :
    Filling c single A k { s with active } := h.congr rfl hactive rfl rfl rfl

lemma widen (widen : Bool) : Filling c single A k { s with widen } := h.congr rfl h.active rfl rfl rfl

end Filling

/-! ### Steps -/

lemma filling_add (x : Node) : Keeps (Filling c single A k) (add x) := fun _ hs =>
  ensures_add.2 (hs.skirt (hs.anchored.skirts_add x))

/-- A node that is no whole row is a plain value. -/
lemma plain_addNode {x : Node} (hx : x.isRow = false) :
    Gives (Filling c single A k) (fun n t => t.graph.Plain n) (add x) := fun s hs =>
  ensures_add.2 ⟨hs.skirt (hs.anchored.skirts_add x), s.graph.plain_add hx⟩

lemma filling_edit {f : Graph → Graph} (hf : ∀ g : Graph, g.Anchored A → g.Skirts A (f g)) :
    Keeps (Filling c single A k) (edit f) := fun _ hs => ensures_edit.2 (hs.skirt (hf _ hs.anchored))

/-- A change to another request that keeps its joins. -/
lemma filling_other (hr : r ≠ A.request) {f : Request → Request} (hf : ∀ q, (f q).joins = q.joins) :
    Keeps (Filling c single A k) (editRequest r f) := filling_edit fun _ hg => hg.skirts_other hr hf

lemma filling_pushItem (hr : r ≠ A.request) (i : Item) :
    Keeps (Filling c single A k) (edit (·.pushItem r i)) := filling_edit fun _ hg => hg.skirts_pushItem hr i

lemma filling_selectOnly (hr : r ≠ A.request) (i : Item) :
    Keeps (Filling c single A k) (edit fun g => (g.clearItems r).pushItem r i) :=
  filling_edit fun _ hg => hg.skirts_selectOnly hr i

lemma Filling.ensures_duplicate (h : Filling c single A k s) (e : Expr) (n : NodeId) :
    Ensures (duplicate e n) s fun m t =>
      Filling c single A k t ∧ (s.graph.Plain n → t.graph.Plain m) := by
  rw [duplicate, ensures_bind, ensures_build]
  rcases hrun : (Build.duplicate n).run s.graph with ⟨_ | m, g⟩
  · exact ensures_reject
  · obtain ⟨hg, hplain⟩ := h.anchored.skirts_duplicate hrun
    exact ensures_pure.2 ⟨h.skirt hg, hplain⟩

lemma filling_duplicate (e : Expr) (n : NodeId) : Keeps (Filling c single A k) (duplicate e n) :=
  fun _ hs => (hs.ensures_duplicate e n).mono fun _ _ ht => ht.1

lemma filling_valueOf (m : Meaning) : Keeps (Filling c single A k) (valueOf m) := by
  cases m with
  | value n => exact keeps_pure
  | row a => exact filling_add _
  | query r => exact filling_add _

lemma filling_condition (n : NodeId) : Keeps (Filling c single A k) (condition n) := by
  refine keeps_graph.bind fun g => ?_
  split
  · exact (filling_add _).bind fun truth => filling_add _
  · exact keeps_pure

lemma filling_setActive (r : RequestId) : Keeps (Filling c single A k) (setActive r) := fun _ hs =>
  ensures_setActive.2 (hs.activate rfl)

lemma filling_leave (r : RequestId) : Keeps (Filling c single A k) (leave r) := fun _ hs => by
  rw [ensures_leave]
  split
  · exact hs.activate rfl
  · exact hs

lemma filling_within {α : Type} (r : RequestId) {x : Compile α}
    (hx : Keeps (Filling c single A k) x) : Keeps (Filling c single A k) (within r x) := fun _ hs =>
  ensures_within.2 ((hx _ (hs.activate rfl)).mono fun _ _ ht => ht.activate hs.active)

lemma filling_widening {α : Type} (w : Bool) {x : Compile α} (hx : Keeps (Filling c single A k) x) :
    Keeps (Filling c single A k) (widening w x) := fun s hs =>
  ensures_widening.2 ((hx _ (hs.widen w)).mono fun _ _ ht => ht.widen s.widen)

/-! ### Projected members -/

/-- A member with single values is remembered by a path to one. -/
lemma Filling.ensures_setPath (h : Filling c single A k s) {p : PropertyRef} {path : List PropertyRef}
    (hp : c.relates p = false) (hpath : single p.owner p.name = true → EndsMany single path) :
    Ensures (setPath p path) s fun _ t => Filling c single A k t ∧ t.graph = s.graph := by
  have hrecord : Ensures (setPath.record p path) s fun _ t =>
      Filling c single A k t ∧ t.graph = s.graph := by
    refine ensures_modify.2 ⟨⟨h.anchored, h.active, h.request, h.items, h.catalog,
      fun q hq => ?_, fun row hrow => ?_,
      fun x hx => h.computed x (List.mem_of_mem_filter hx), h.equivalents⟩, rfl⟩
    · refine PropertyTable.find?_insert_eq_none (h.relations q hq) ?_ path
      by_contra hsame
      rw [c.relates_of_same (by simpa using hsame), hq] at hp
      cases hp
    · rcases List.mem_cons.1 hrow with rfl | hrow
      · exact hpath
      · exact h.paths row (List.mem_of_mem_filter hrow)
  unfold setPath
  split
  · split
    · exact ensures_pure.2 ⟨h, rfl⟩
    · exact hrecord
  · exact hrecord

/-- A member with single values is remembered as a plain value. -/
lemma Filling.setComputed (h : Filling c single A k s) {p : PropertyRef}
    (hn : single p.owner p.name = true → s.graph.Plain n) :
    Filling c single A k
      { s with paths := s.paths.erase p, computed := s.computed.insert p n } := by
  refine ⟨h.anchored, h.active, h.request, h.items, h.catalog,
    fun q hq => PropertyTable.find?_erase_eq_none (h.relations q hq),
    fun row hrow => h.paths row (List.mem_of_mem_filter hrow), fun x hx => ?_, h.equivalents⟩
  rcases List.mem_cons.1 hx with rfl | hx
  · exact hn
  · exact h.computed x (List.mem_of_mem_filter hx)

/-- A member with single values is registered with a plain value. -/
lemma Filling.register (h : Filling c single A k s) {p : PropertyRef}
    (hn : single p.owner p.name = true → s.graph.Plain n) :
    Filling c single A k { s with mapping := s.mapping.register s.graph p n } := by
  refine ⟨h.anchored, h.active, h.request, h.items,
    (s.mapping.catalog_register s.graph p n).trans h.catalog, h.relations, h.paths, h.computed,
    fun x hx hsingle => ?_⟩
  obtain hx | ⟨rfl, hrow⟩ := Mapping.mem_register hx
  · exact h.equivalents x hx hsingle
  · exact hrow (hn hsingle).scalar

/-! ### Members -/

/-- A meaning that is a plain value. -/
def Simple (t : CompileState) : Meaning → Prop
  | .value n => t.graph.Plain n
  | _ => False

section Members

variable (hsingle : ∀ p, single p.owner p.name = true → c.isNavigation p = false)
include hsingle

lemma filling_resolveStep (r : RequestId) (a : AliasId) (p : PropertyRef) :
    Gives (Filling c single A k) (fun m t => Brought A m ∧
      (single p.owner p.name = true → Simple t m)) (resolveStep r a p) := by
  intro s hs
  rw [Compile.ensures_resolveStep]
  intro x g hrun
  obtain ⟨hg, hrow⟩ := Mapping.skirts_resolve hs.anchored a p x g hrun
  refine ⟨hs.skirt hg, ?_, fun hp => ?_⟩
  · cases x with
    | value n => trivial
    | row b => exact hrow b rfl
  · have hregistered : ∀ f, s.mapping.equivalents.find? p = some f → f.isRow = false := by
      intro f hf
      obtain ⟨row, hrow, howner, hname, rfl⟩ := PropertyTable.exists_of_find? hf
      exact hs.equivalents row hrow (by rw [howner, hname]; exact hp)
    obtain ⟨n, rfl, hn⟩ := Mapping.plain_resolve (by rw [hs.catalog]; exact hsingle p hp) hregistered a x g
      hrun
    exact hn

/-- A path from a row leads to a row that a join brings in, or to a value; a path to a single member
leads to a plain value. -/
lemma filling_follow (e : Expr) (r : RequestId) (a : AliasId) (p : PropertyRef)
    (path : List PropertyRef) :
    Gives (Filling c single A k) (fun m t => Brought A m ∧ (EndsMany single (p :: path) → Simple t m))
      (follow e r (.row a) (p :: path)) := by
  induction path generalizing a p with
  | nil =>
    refine (filling_resolveStep hsingle r a p).bind fun m s hs hm => ?_
    have hfollow : follow e r m [] = pure m := by cases m <;> rfl
    rw [hfollow]
    refine ensures_pure.2 ⟨hs, hm.1, fun hends => hm.2 ?_⟩
    obtain ⟨q, hq, hsingle⟩ := hends
    cases hq
    exact hsingle
  | cons q path ih =>
    refine (filling_resolveStep hsingle r a p).bind fun m s hs _ => ?_
    cases m with
    | row b =>
      refine (ih b q s hs).mono fun m t ht => ⟨ht.1, ht.2.1, fun hends => ht.2.2 ?_⟩
      obtain ⟨q', hq', hsingle⟩ := hends
      exact ⟨q', by simpa only [List.getLast?_cons_cons] using hq', hsingle⟩
    | value n => exact ensures_reject
    | query q => exact ensures_reject

lemma filling_resolveMember (e : Expr) (a : AliasId) (p : PropertyRef) :
    Gives (Filling c single A k) (fun m t => (∀ q, m ≠ .query q) ∧
      (c.relates p = true → Brought A m) ∧ (single p.owner p.name = true → Simple t m))
      (resolveMember e a p) := by
  intro s hs
  rw [resolveMember, ensures_bind, ensures_active]
  intro r _
  rw [ensures_get_bind]
  dsimp only
  rw [ensures_get_bind]
  have hrelation : c.relates p = true → realPath s.paths pathLimit [p] = [p] := by
    intro hp
    rw [pathLimit, realPath, hs.relations p hp]
  have hends : single p.owner p.name = true → EndsMany single (realPath s.paths pathLimit [p]) :=
    fun hp => endsMany_realPath hs.paths pathLimit (endsMany_single hp)
  rcases hreal : realPath s.paths pathLimit [p] with _ | ⟨q, rest⟩
  · rw [hreal] at hrelation hends
    refine ensures_pure.2 ⟨hs, by simp, fun hp => ?_, fun hp => ?_⟩
    · cases hrelation hp
    · obtain ⟨q, hq, -⟩ := hends hp
      cases hq
  · rw [hreal] at hends
    split
    · exact ensures_reject
    · next n hfind hne =>
      rw [ensures_map]
      refine (hs.ensures_duplicate e n).mono fun m t ht => ⟨ht.1, by simp, fun _ => trivial,
        fun hp => ht.2 ?_⟩
      obtain rfl : rest = [] := by
        cases rest with
        | nil => rfl
        | cons step tail => exact (hne _ _ _ rfl).elim
      obtain ⟨q', hq', hq⟩ := hends hp
      cases hq'
      obtain ⟨row, hrow, howner, hname, rfl⟩ := PropertyTable.exists_of_find? hfind
      exact hs.computed row hrow (by rw [howner, hname]; exact hq)
    · refine (filling_follow hsingle e r a q rest s hs).mono fun m t ht =>
        ⟨ht.1, ?_, fun _ => ht.2.1, fun hp => ht.2.2 (hends hp)⟩
      rintro q rfl
      exact ht.2.1

end Members

/-! ### Rows -/

lemma filling_enter (e : Expr) (r : RequestId) (f : Expr) :
    Gives (Filling c single A k) (fun body _ => ∃ ps, f = .lambda ps body) (enter e r f) := by
  unfold enter
  split
  · next ps body =>
    split
    · refine (keeps_rowOf e r).andThen fun a => Keeps.andThen ?_ fun _ => gives_pure fun _ _ => ⟨ps, rfl⟩
      exact filling_edit fun _ hg => hg.skirts_bind a _
    · exact gives_reject
  · exact gives_reject

/-- The body of a lambda over a row. -/
lemma gives_body {α : Type} {Q : α → CompileState → Prop} {e f : Expr} (hf : f.Parted c single)
    {x : Expr → Compile α} (hx : ∀ body, body.Parted c single → Gives (Filling c single A k) Q (x body)) :
    Gives (Filling c single A k) Q (enter e r f >>= x) := by
  refine (filling_enter e r f).andThen ?_
  rintro body ⟨ps, rfl⟩
  exact hx body hf.lambda

/-- A collection moves into a new request. -/
lemma filling_hoist (e : Expr) (a : AliasId) :
    Gives (Filling c single A k) (fun q _ => q ≠ A.request) (hoist e a) := by
  intro s hs q t hrun
  obtain ⟨outer, first, -, -, rfl, hrest⟩ := runs_hoist.1 hrun
  have hnew := hs.anchored.ne_new
  refine ⟨?_, hnew⟩
  have hdrop := hs.anchored.skirts_dropJoin outer a
  cases hvia : (s.graph.aliasOf a).via? with
  | none =>
    rw [hvia] at hrest
    rw [hrest]
    have hopen := hdrop.trans (hdrop.anchored.skirts_openRequest outer a)
    exact hs.skirt (hopen.trans (hopen.anchored.skirts_andFilter hnew _))
  | some l =>
    rw [hvia] at hrest
    obtain ⟨last, hlast, hrest⟩ := hrest
    rw [hrest]
    have hmem : last ∈ ((s.graph.dropJoin outer a).request outer).joins :=
      List.mem_of_find?_eq_some hlast
    have hlink := hdrop.trans (hdrop.anchored.skirts_dropJoin outer l)
    have hopen := hlink.trans (hlink.anchored.skirts_openRequest outer a)
    have hjoin := hopen.trans (hopen.anchored.skirts_pushJoin ⟨s.graph.requests.size⟩
      (j := ⟨last.source, .inner, first.condition⟩) (hdrop.anchored.apart outer last hmem))
    exact hs.skirt (hjoin.trans (hjoin.anchored.skirts_andFilter hnew _))

/-! ### Meanings -/

/-- What an expression stands for beside the request that is being put together: another request; a
row that is not its base, if the expression is a sequence; and a plain value, if it is a single one. -/
def Beside (c : Catalog) (single : String → String → Bool) (A : Anchor) (e : Expr) (m : Meaning)
    (t : CompileState) : Prop :=
  match m with
  | .value n => e.isSingle single = true → t.graph.Plain n
  | .row a => e.isSingle single = false ∧ (e.isSequence c = true → A.base ≠ some a)
  | .query r => r ≠ A.request

/-- A rule under which expressions leave every request alone that is being put together. -/
def Fills (c : Catalog) (single : String → String → Bool) (visit : Visit) : Prop :=
  ∀ A k e, e.Parted c single → Gives (Filling c single A k) (Beside c single A e) (visit e)

/-- Steps that stand for a plain value. -/
def GivesSimple (c : Catalog) (single : String → String → Bool) (A : Anchor) (k : Request)
    (x : Compile Meaning) : Prop := Gives (Filling c single A k) (fun m t => Simple t m) x

/-- Steps that stand for another request. -/
def GivesOther (c : Catalog) (single : String → String → Bool) (A : Anchor) (k : Request)
    (x : Compile Meaning) : Prop :=
  Gives (Filling c single A k) (fun m _ => ∃ r, m = .query r ∧ r ≠ A.request) x

lemma Beside.congr {e : Expr} {m : Meaning} {u : CompileState} (h : Beside c single A e m t)
    (hgraph : u.graph = t.graph) : Beside c single A e m u := by
  cases m with
  | value n => exact fun hsingle => hgraph ▸ h hsingle
  | row a => exact h
  | query r => exact h

/-- What passes another expression on stands for what that one stands for. -/
lemma Beside.pass {m : Method} {arg : Expr} {rest : List Expr} {x : Meaning}
    (h : Beside c single A arg x t) (hm : (m.isLoadingHint || m == .useLeftJoin) = true) :
    Beside c single A (.call m (arg :: rest)) x t := by
  have hsingle : (Expr.call m (arg :: rest)).isSingle single = arg.isSingle single := by
    rw [Expr.isSingle, hm, Bool.not_true, Bool.false_or]
  have hsequence : (Expr.call m (arg :: rest)).isSequence c = arg.isSequence c := by
    rw [Expr.isSequence, hm, Bool.not_true, Bool.false_or]
  cases x with
  | value n => exact fun h' => h (hsingle ▸ h')
  | row a => exact ⟨hsingle.trans h.1, fun h' => h.2 (hsequence ▸ h')⟩
  | query r => exact h

lemma GivesSimple.beside {x : Compile Meaning} (h : GivesSimple c single A k x) (e : Expr) :
    Gives (Filling c single A k) (Beside c single A e) x := fun s hs =>
  (h s hs).mono fun m t hmt => by
    obtain ⟨ht, hm⟩ := hmt
    cases m with
    | value n => exact ⟨ht, fun _ => hm⟩
    | row a => exact hm.elim
    | query q => exact hm.elim

lemma GivesOther.beside {x : Compile Meaning} (h : GivesOther c single A k x) (e : Expr) :
    Gives (Filling c single A k) (Beside c single A e) x := fun s hs =>
  (h s hs).mono fun m t hmt => by
    obtain ⟨ht, r, rfl, hr⟩ := hmt
    exact ⟨ht, hr⟩

/-- A new node that is no whole row. -/
lemma givesSimple_add {x : Node} (hx : x.isRow = false) :
    GivesSimple c single A k (.value <$> add x) := fun s hs =>
  ensures_map.2 (plain_addNode hx s hs)

lemma givesOther_query (hr : r ≠ A.request) : GivesOther c single A k (pure (.query r)) :=
  gives_pure fun _ _ => ⟨r, rfl, hr⟩

section Visit

variable {visit : Visit} (hv : Fills c single visit) {e : Expr} (he : e.Parted c single)
include hv he

/-- A single expression has a plain value. -/
lemma filling_value :
    Gives (Filling c single A k) (fun n t => e.isSingle single = true → t.graph.Plain n)
      (value visit e) := by
  intro s hs
  rw [value, ensures_get_bind]
  refine (hv A k e he s hs).bind fun m t hmt => ?_
  obtain ⟨ht, hm⟩ := hmt
  simp only [hs.active, if_true]
  rw [ensures_bind, ensures_modify]
  have hback : Filling c single A k { t with active := s.active } := ht.activate hs.active
  cases m with
  | value n => exact ensures_pure.2 ⟨hback, hm⟩
  | row a =>
    refine (filling_add (.row a) _ hback).mono fun n u hu => ⟨hu, fun hsingle => ?_⟩
    rw [hm.1] at hsingle
    cases hsingle
  | query r => exact (plain_addNode rfl _ hback).mono fun n u hu => ⟨hu.1, fun _ => hu.2⟩

lemma filling_rowValue : Keeps (Filling c single A k) (rowValue visit e) := fun s hs =>
  (hv A k e he s hs).bind fun m t ht => by
    cases m with
    | row a => exact ensures_pure.2 ht.1
    | value n => exact ensures_reject
    | query r => exact ensures_reject

/-- The entries of a grouping. -/
lemma filling_groupingKeys (whole : Expr) :
    Keeps (Filling c single A k) (groupingKeys visit whole e) := by
  refine (filling_rowValue hv he).bind fun a => (keeps_active whole).bind fun r =>
    keeps_graph.bind fun g => ?_
  dsimp only
  split
  · exact keeps_pure
  · exact keeps_reject

/-- An operator works on another request. -/
lemma filling_receiver (hsequence : e.isSequence c = true) (whole : Expr) :
    Gives (Filling c single A k) (fun r _ => r ≠ A.request) (receiver visit whole e) := by
  intro s hs
  refine (hv A k e he s hs).bind fun m t hmt => ?_
  obtain ⟨ht, hm⟩ := hmt
  cases m with
  | query r => exact ensures_pure.2 ⟨ht, hm⟩
  | row a =>
    rw [ensures_bind, ensures_active]
    intro q _
    rw [ensures_bind, ensures_graph]
    split
    · next q' hq => exact ensures_pure.2 ⟨ht, ht.anchored.requestOver?_ne (hm.2 hsequence) hq⟩
    · exact filling_hoist whole a t ht
  | value n => exact ensures_reject

lemma filling_openReceiver (hsequence : e.isSequence c = true) (whole : Expr) :
    Gives (Filling c single A k) (fun r _ => r ≠ A.request) (openReceiver visit whole e) :=
  (filling_receiver hv he hsequence whole).bind fun r s hs hr => by
    rw [ensures_bind, ensures_setActive]
    exact ensures_pure.2 ⟨hs.activate rfl, hr⟩

end Visit

end Compile

end EntityQuery
