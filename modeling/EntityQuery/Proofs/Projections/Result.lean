import EntityQuery.Proofs.Nesting.Result
import EntityQuery.Proofs.Projections.Operators

/-!
The static type of an expression is the type that its statement shows.

* At the top there are no rows: a chain builds one request, operator after operator, and the lambdas
  of the chain leave it alone. An aggregate and `Any` put a new request around it.
* `Roots` is what an expression stands for at the top, by induction on its nesting.
* A sum or an extremum of collections shows the collection, and a member of a collection type that
  holds a row can be the request itself: there the two types differ.
-/

namespace EntityQuery

namespace Compile

open Sql Graph

variable {many : String → String → Bool} {A : Anchor} {o r : RequestId} {s t : CompileState}

/-! ### Steps that give values -/

/-- Whatever the steps give is a value. -/
def GivesValue (x : Compile Meaning) : Prop := ∀ s, Ensures x s fun m _ => ∃ n, m = .value n

section GivesValue

lemma givesValue_map {x : Compile NodeId} : GivesValue (Meaning.value <$> x) := fun _ =>
  ensures_map.2 fun n _ _ => ⟨n, rfl⟩

lemma givesValue_reject {e : Expr} {cause : Cause} : GivesValue (reject e cause) := fun _ => ensures_reject

lemma GivesValue.after {α : Type} {x : Compile α} {k : α → Compile Meaning}
    (h : ∀ a, GivesValue (k a)) : GivesValue (x >>= k) := fun _ => ensures_bind.2 fun a t _ => h a t

variable (visit : Visit) (e : Expr)

lemma givesValue_constant (l : Literal) : GivesValue (constant e l) := by
  exact fun s => ensures_constant_of e l fun v => givesValue_map s

lemma givesValue_key (grouping : Expr) : GivesValue (key visit e grouping) := by
  refine GivesValue.after fun keys => ?_
  split
  · exact givesValue_map
  · exact givesValue_reject

lemma givesValue_keyMember (grouping : Expr) (p : PropertyRef) :
    GivesValue (keyMember visit e grouping p) := by
  refine GivesValue.after fun keys => ?_
  split
  · exact givesValue_map
  · split
    · refine GivesValue.after fun g => ?_
      split
      · exact GivesValue.after fun m => givesValue_map
      · exact givesValue_reject
    · exact givesValue_reject

lemma givesValue_memberOfQuery (r : RequestId) (p : PropertyRef) : GivesValue (memberOfQuery e r p) :=
  GivesValue.after fun _ => GivesValue.after fun _ => GivesValue.after fun _ => GivesValue.after fun _ =>
    GivesValue.after fun _ => GivesValue.after fun _ => givesValue_map

lemma givesValue_binary (op : BinaryOperator) (l r : Expr) : GivesValue (binary visit e op l r) := by
  unfold binary
  split
  · exact givesValue_reject
  · refine GivesValue.after fun s => fun t => ?_
    rw [ensures_widening]
    have hvalues : ∀ sqlOp, GivesValue (do
        let left ← value visit l
        let right ← value visit r
        if op.isLogical then
          let left ← condition left
          let right ← condition right
          .value <$> add (.binary sqlOp left right)
        else .value <$> add (.binary sqlOp left right)) := by
      refine fun sqlOp => GivesValue.after fun left => GivesValue.after fun right => ?_
      split
      · exact GivesValue.after fun left => GivesValue.after fun right => givesValue_map
      · exact givesValue_map
    exact hvalues _ _

lemma givesValue_conditional (test yes no : Expr) : GivesValue (conditional visit test yes no) :=
  GivesValue.after fun _ => GivesValue.after fun _ => GivesValue.after fun _ => GivesValue.after fun _ =>
    givesValue_map

lemma givesValue_like (before after : Bool) (arg : Expr) (args : List Expr) :
    GivesValue (like visit e before after arg args) := by
  refine GivesValue.after fun subject => GivesValue.after fun f => GivesValue.after fun operand => ?_
  have hpattern : ∀ tail, GivesValue (do
      let pattern ← if before then concat (← wildcard) tail else pure tail
      .value <$> add (.binary .like subject pattern)) := by
    intro tail
    split
    · exact GivesValue.after fun w => GivesValue.after fun pattern => givesValue_map
    · exact GivesValue.after fun pattern => givesValue_map
  dsimp only
  split
  · exact GivesValue.after fun w => GivesValue.after fun tail => hpattern tail
  · exact GivesValue.after fun tail => hpattern tail

lemma givesValue_contains (arg : Expr) (args : List Expr) : GivesValue (contains visit e arg args) := by
  refine GivesValue.after fun item => ?_
  split
  · exact givesValue_like visit e true true arg args
  · split
    · exact GivesValue.after fun operand => GivesValue.after fun values => givesValue_map
    · exact givesValue_reject

end GivesValue

/-! ### At the top -/

/-- Nothing is built yet. -/
structure Blank (s : CompileState) : Prop where
  graph : s.graph = {}
  active : s.active = none
  paths : s.paths = []

/-- What an expression stands for at the top: a request is outermost and shows the static type, and a
sequence ranges over items. There are no rows. -/
def Roots (many : String → String → Bool) (e : Expr) (t : CompileState) : Meaning → Prop
  | .value _ => True
  | .row _ => False
  | .query r => (∃ base, Guarded many ⟨r, base, some e.type.shown⟩ r t) ∧
      (e.type.isSequence = true → e.elementType.isItem = true)

lemma Roots.pass {e e' : Expr} {x : Meaning} (h : Roots many e t x) (htype : e'.type = e.type) :
    Roots many e' t x := by
  cases x with
  | value n => trivial
  | row a => exact h
  | query r =>
    unfold Roots Expr.elementType at h ⊢
    rw [htype]
    exact h

/-- Whether navigations drop rows and which hints there are changes no request. -/
lemma Roots.congr {e : Expr} {u : CompileState} {x : Meaning} (h : Roots many e t x)
    (hgraph : u.graph = t.graph) (hactive : u.active = t.active) (hpaths : u.paths = t.paths) :
    Roots many e u x := by
  cases x with
  | value n => trivial
  | row a => exact h
  | query r =>
    obtain ⟨⟨base, ht⟩, hitem⟩ := h
    exact ⟨⟨base, hgraph ▸ ht.anchored, hactive ▸ ht.active, hpaths ▸ ht.paths⟩, hitem⟩

/-- A rule under which expressions at the top are requests that show their static types. -/
def Plants (many : String → String → Bool) (visit : Visit) : Prop :=
  ∀ e s, e.Fits many → Blank s → Ensures (visit e) s fun x t => Roots many e t x

/-- An operator works on the anchored request, which shows a type. -/
def Here (type : TypeRef) (r : RequestId) (A : Anchor) : Prop :=
  A.request = r ∧ A.projection = some type

lemma Here.showing {type : TypeRef} {A : Anchor} (h : Here type r A) : A.showing r type = A := by
  obtain ⟨rfl, htype⟩ := h
  rw [Anchor.showing, if_pos rfl, ← htype]

lemma Operated.roots {type : TypeRef} {e : Expr} {x : Meaning} (h : Operated many (Here type) e t x) :
    Roots many e t x := by
  obtain ⟨⟨r, A, rfl, ⟨rfl, -⟩, ht⟩, hitem⟩ := h
  rw [Anchor.showing, if_pos rfl] at ht
  exact ⟨⟨_, ht⟩, hitem⟩

/-- What gives values gives no requests. -/
lemma GivesValue.roots {x : Compile Meaning} (h : GivesValue x) (e : Expr) :
    Ensures x s fun m t => Roots many e t m :=
  (h s).mono fun m t ⟨n, hm⟩ => by
    subst hm
    trivial

/-- The first request of a statement is over the table of an entity. -/
lemma roots_source (hs : Blank s) (entity : String) :
    Ensures (source entity) s fun x t => Roots many (.source entity) t x := by
  refine ensures_source_iff.2 fun table _ => ?_
  rw [hs.active]
  have hjoins : ∀ q, (s.graph.request q).joins = [] := fun q => by
    rw [hs.graph]
    rfl
  have hnew := (Graph.anchored_new (g := s.graph) fun q j hj => by rw [hjoins] at hj; cases hj).addAlias
    (.ofTable table entity (s.mapping.catalog.idColumn entity).toOption)
  refine ⟨⟨some ⟨s.graph.aliases.size⟩, hnew.setBase (by simp) (fun q j hj => ?_) (fun _ => rfl)
    (fun _ => rfl) (fun _ => rfl) rfl, rfl, ?_⟩, fun _ => rfl⟩
  · rw [request_addAlias, request_addRequest] at hj
    split at hj
    · cases hj
    · rw [hjoins] at hj
      cases hj
  · change LeadMany many s.paths
    rw [hs.paths]
    intro row hrow
    cases hrow

section Top

variable {visit : Visit} (hplants : Plants many visit) (hs : Blank s)
include hplants hs

lemma received_top {arg : Expr} (harg : arg.Fits many) (hsequence : arg.type.isSequence = true)
    (e : Expr) : Ensures (receiver visit e arg) s (Received many (Here arg.type.shown) arg) := by
  refine (hplants arg s harg hs).bind fun x t hx => ?_
  cases x with
  | value n => exact ensures_reject
  | row a => exact hx.elim
  | query r =>
    obtain ⟨⟨base, ht⟩, hitem⟩ := hx
    exact ensures_pure.2 ⟨⟨_, r, ⟨rfl, rfl⟩, ht⟩, hitem hsequence⟩

lemma roots_member {target : Expr} {p : PropertyRef} (htarget : target.Fits many) (e : Expr) :
    Ensures (member visit e target p) s fun x t => Roots many (.member target p) t x := by
  unfold member
  split
  · next grouping => exact (givesValue_keyMember visit e grouping p).roots _
  · refine (hplants target s htarget hs).bind fun x t hx => ?_
    cases x with
    | row a => exact hx.elim
    | query r => exact (givesValue_memberOfQuery e r p).roots _
    | value n => exact ensures_reject

lemma roots_unary {operand : Expr} (hoperand : operand.Fits many) (e : Expr) (op : UnaryOperator) :
    Ensures (unary visit e op operand) s fun x t => Roots many (.unary op operand) t x := by
  cases op with
  | not => exact (GivesValue.after fun _ => GivesValue.after fun _ => givesValue_map).roots _
  | convert => exact (hplants operand s hoperand hs).mono fun x t hx => hx.pass rfl
  | negate => exact ensures_reject

variable (hv : Shelters many visit)
include hv

lemma roots_aggregate {m : Method} {arg : Expr} {rest : List Expr} (harg : arg.Fits many)
    (hrest : Expr.FitsArgs many m arg.elementType rest)
    (htakes : (arg.type.isSequence || arg.type.isGrouping) = true) (hm : m.isAggregate = true)
    (op : UnaryOp) :
    Ensures (aggregate visit (.call m (arg :: rest)) op arg (arg :: rest)) s fun x t =>
      Roots many (.call m (arg :: rest)) t x := by
  unfold aggregate
  dsimp only
  split
  · refine ensures_bind.2 ?_
    refine ensures_bind.2 ((hplants arg s harg hs).mono fun x t hx => ?_)
    cases x with
    | row a => exact hx.elim
    | value n => exact ensures_reject
    | query r => exact ensures_reject
  · next hgrouping =>
    have hsequence : arg.type.isSequence = true := by
      rw [Bool.or_eq_true] at htakes
      exact htakes.resolve_right hgrouping
    refine (received_top hplants hs harg hsequence _).bind ?_
    rintro r t ⟨⟨A, o, ⟨rfl, -⟩, ht⟩, hitem⟩
    have hsingle := not_isSequence_aggregate hrest hitem hm
    rw [ensures_bind, ensures_request, ht.anchored.parent]
    refine ensures_map.2 ((moved_aggregateDerived hv ht hitem (fitsArgs_second hrest) _ op A.request).mono
      fun outer u hu => ?_)
    obtain ⟨base, hu⟩ := hu.root
    refine ⟨⟨base, ?_⟩, fun hsequence => by rw [hsingle] at hsequence; cases hsequence⟩
    rw [TypeRef.shown_eq_self hsingle]
    exact hu

lemma roots_any {arg : Expr} {rest : List Expr} (harg : arg.Fits many)
    (hrest : Expr.FitsArgs many .any arg.elementType rest) (hsequence : arg.type.isSequence = true) :
    Ensures (any visit (.call .any (arg :: rest)) arg (arg :: rest)) s fun x t =>
      Roots many (.call .any (arg :: rest)) t x := by
  unfold any
  split
  · exact ensures_reject_bind
  · refine (received_top hplants hs harg hsequence _).bind ?_
    rintro r t ⟨⟨A, o, ⟨rfl, -⟩, ht⟩, hitem⟩
    have hboolean : (Expr.call .any (arg :: rest)).type = .boolean := Expr.type_call _ arg rest
    refine ensures_anyOf hv ht hitem (fitsArgs_second hrest) _ A.request (fun u n o' _ _ => trivial) ?_
    intro u outer hu
    obtain ⟨base, hu⟩ := hu.root
    unfold Roots
    rw [hboolean]
    exact ⟨⟨base, hu⟩, nofun⟩

theorem roots_operator {m : Method} {arg : Expr} {rest : List Expr}
    (he : (Expr.call m (arg :: rest)).Fits many) :
    Ensures (operator visit (.call m (arg :: rest)) m arg (arg :: rest)) s fun x t =>
      Roots many (.call m (arg :: rest)) t x := by
  obtain ⟨harg, htakes, hrest⟩ := he.call
  have htype := Expr.type_call m arg rest
  have hrows : m.onRows = true → Ensures (operator visit (.call m (arg :: rest)) m arg (arg :: rest)) s
      fun x t => Roots many (.call m (arg :: rest)) t x := by
    intro hm
    have hsequence : arg.type.isSequence = true := by
      cases m <;> first | exact htakes | cases hm
    exact (operated_operator (fun r A hA => hA.showing) hv
      (received_top hplants hs harg hsequence _) hrest hsequence hm).mono fun x t hx => hx.roots
  have haggregate : ∀ op, m.isAggregate = true →
      Ensures (aggregate visit (.call m (arg :: rest)) op arg (arg :: rest)) s fun x t =>
        Roots many (.call m (arg :: rest)) t x := by
    intro op hm
    have hsource : (arg.type.isSequence || arg.type.isGrouping) = true := by
      cases m <;> first | exact htakes | cases hm
    exact roots_aggregate hplants hs hv harg hrest hsource hm op
  have hhint : (Expr.call m (arg :: rest)).type = arg.type →
      Ensures (hint visit (.call m (arg :: rest)) m arg (arg :: rest)) s fun x t =>
        Roots many (.call m (arg :: rest)) t x := fun hsame =>
    ensures_hint_pass ((hplants arg s harg hs).mono fun x t hx => hx.pass hsame)
      (fun x t hints hx => hx.congr rfl rfl rfl) _ m
  cases m with
  | count => exact haggregate .count rfl
  | sum => exact haggregate .sum rfl
  | average => exact haggregate .average rfl
  | min => exact haggregate .min rfl
  | max => exact haggregate .max rfl
  | any => exact roots_any hplants hs hv harg hrest htakes
  | contains => exact (givesValue_contains visit _ arg _).roots _
  | startsWith => exact (givesValue_like visit _ false true arg _).roots _
  | endsWith => exact (givesValue_like visit _ true false arg _).roots _
  | eagerLoad => exact hhint htype
  | lazyLoad => exact hhint htype
  | batchLazyLoad => exact hhint htype
  | dontLoad => exact hhint htype
  | useLeftJoin =>
    change Ensures (widening true (visit arg)) s _
    rw [ensures_widening]
    exact (hplants arg { s with widen := true } harg ⟨hs.graph, hs.active, hs.paths⟩).mono fun x t hx =>
      (hx.pass htype).congr rfl rfl rfl
  | named name => exact ensures_reject
  | _ => exact hrows rfl

end Top

/-- **What one rule does at the top.** -/
theorem plants_step {visit : Visit} (hplants : Plants many visit) (hv : Shelters many visit) :
    Plants many (step visit) := by
  intro e s he hs
  cases e with
  | source entity => exact roots_source hs entity
  | const l => exact (givesValue_constant _ l).roots _
  | param p =>
    change Ensures (parameter _ p) s _
    refine ensures_parameter_of _ p fun r a hr _ => ?_
    rw [hs.active] at hr
    cases hr
  | member target p => exact roots_member hplants hs he.member.1 _
  | key grouping => exact (givesValue_key visit _ grouping).roots _
  | binary op l r => exact (givesValue_binary visit _ op l r).roots _
  | unary op operand => exact roots_unary hplants hs he.unary _ op
  | cond test yes no => exact (givesValue_conditional visit test yes no).roots _
  | call m args =>
    rcases args with _ | ⟨arg, rest⟩
    · cases m <;> exact ensures_reject
    · have hoperator := roots_operator hplants hs hv he
      cases m <;> first | exact ensures_reject | exact hoperator
  | lambda ps body => exact ensures_reject
  | new type members => exact ensures_reject
  | init type bindings => exact ensures_reject

/-- **Requests at the top show static types**, by induction on how deeply an expression is nested. -/
theorem plants_visit (fuel : Nat) : Plants many (visit [] fuel) := by
  induction fuel with
  | zero => exact fun _ _ _ _ => ensures_reject
  | succ fuel ih => exact plants_step ih (shelters_visit fuel)

/-! ### Columns of the result -/

section Columns

variable (h : Guarded many A o s)
include h

lemma guarded_selectColumns (r : RequestId) (a : AliasId) (newElement : Bool)
    (columns : List (PropertyRef × String)) :
    Ensures (selectColumns r a newElement columns) s fun _ t => Guarded many A o t := by
  induction columns generalizing s newElement with
  | nil => exact ensures_pure.2 h
  | cons column columns ih =>
    refine (h.ensures_add _).bind fun n t ht => ?_
    exact (guarded_selectMember ht r n (some column.1) newElement).bind fun _ u hu => ih hu false

lemma guarded_selectRow (r : RequestId) (a : AliasId) :
    Ensures (selectRow r a) s fun _ t => Guarded many A o t := by
  rw [selectRow, ensures_bind, ensures_graph]
  split
  · refine (ensures_shownColumns _).bind fun columns s' hs' => ?_
    subst hs'
    exact guarded_selectColumns h r a true columns
  · exact ensures_pure.2 h

lemma guarded_selectGroups (e : Expr) (r : RequestId) (newElement : Bool)
    (keys : List (NodeId × Option PropertyRef)) :
    Ensures (selectGroups e r newElement keys) s fun _ t => Guarded many A o t := by
  induction keys generalizing s newElement with
  | nil => exact ensures_pure.2 h
  | cons key keys ih =>
    refine (h.ensures_duplicate e key.1).bind fun n t ht => ?_
    exact (guarded_selectMember ht r n key.2 newElement).bind fun _ u hu => ih hu false

lemma guarded_expandItem (r : RequestId) (i : Item) :
    Ensures (expandItem r i) s fun _ t => Guarded many A o t := by
  have hkeep := h.ensures_edit (f := (·.pushItem r i)) (h.anchored.pushItem r i)
  rw [expandItem, ensures_bind, ensures_graph]
  split
  · split
    · exact guarded_selectRow h r _
    · exact hkeep
  · exact hkeep

lemma guarded_declareColumns (e : Expr) (r : RequestId) :
    Ensures (declareColumns e r) s fun _ t => Guarded many A o t := by
  rw [declareColumns, ensures_bind, ensures_request]
  split
  · split
    · exact guarded_selectGroups h e r true _
    · split
      · exact guarded_selectRow h r _
      · exact ensures_pure.2 h
  · refine (h.ensures_edit (h.anchored.clearItems r)).bind fun _ t ht => ?_
    exact ensures_forM (I := Guarded many A o) _ (fun i _ u hu => guarded_expandItem hu r i) ht
  · exact ensures_pure.2 h

end Columns

end Compile

/-! ### Statements -/

namespace Mapping

/-- Whether an expression stands for a request: a query, an aggregate, `Any` or a write, not a value
alone. -/
def requests (m : Mapping) (e : Expr) : Bool :=
  match (Compile.visit [] e.depth e).run.run { mapping := m } with
  | (.ok (.query _), _) => true
  | _ => false

open Compile in
/-- **A statement shows the static type of its expression**, the type of the elements if that is a
sequence. Types fit together under any division of the properties into those of collection types and
the others. -/
theorem projection_compile (m : Mapping) (many : String → String → Bool) {e : Expr}
    (he : e.wellTyped many [] = true) (hrequest : m.requests e = true) {statement : Statement}
    (hstatement : (m.compile e).1 = .ok statement) :
    statement.request.projection = some e.type.shown := by
  obtain ⟨u, hrun, hgraph⟩ := Mapping.runs_of_compile hstatement
  have hvisit : Ensures (visit [] e.depth e) { mapping := m } fun x t =>
      (∃ r, x = .query r) ∧ Roots many e t x := by
    intro x t hx
    have hroots := plants_visit e.depth e { mapping := m } ⟨[], nofun, he⟩ ⟨rfl, rfl, rfl⟩ x t hx
    refine ⟨?_, hroots⟩
    unfold Mapping.requests at hrequest
    rw [hx] at hrequest
    cases x with
    | query r => exact ⟨r, rfl⟩
    | value n => cases hrequest
    | row a => cases hrequest
  have hroot : Ensures (root [] e) { mapping := m } fun r t =>
      (t.graph.request r).projection = some e.type.shown := by
    have hquery : Ensures (do
        let _ ← visit [] e.depth e
        let r := (← graph).outermost (← active e)
        declareColumns e r
        return r) { mapping := m } fun r t => (t.graph.request r).projection = some e.type.shown := by
      refine hvisit.bind fun x t ⟨⟨r, hr⟩, hx⟩ => ?_
      subst hr
      obtain ⟨⟨base, ht⟩, -⟩ := hx
      rw [ensures_bind, ensures_graph, ensures_bind, ensures_active, ht.active]
      rintro _ ⟨⟩
      rw [ht.anchored.outermost]
      exact (guarded_declareColumns ht e r).bind fun _ u hu => ensures_pure.2 hu.anchored.projection
    unfold root
    split
    · exact hquery
    · exact hquery
    · exact ensures_reject
  rw [Statement.request, ← hgraph]
  exact hroot _ u hrun

end Mapping

/-! ### Orders and their lines -/

namespace Lines

def mapping : Mapping where
  catalog := ⟨[⟨"Order", "orders", some "id", [⟨"id", "id", .scalar .int false none⟩,
      ⟨"lines", "order_id", .collection "Line"⟩]⟩,
    ⟨"Line", "lines", some "id", [⟨"id", "id", .scalar .int false none⟩,
      ⟨"quantity", "quantity", .scalar .int false none⟩]⟩]⟩

def someOrder : Param := ⟨⟨1⟩, "o", .entity "Order"⟩

def someLine : Param := ⟨⟨2⟩, "l", .entity "Line"⟩

/-- The lines of an order. -/
def lines (o : Expr) : Expr := .member o ⟨"Order", "lines", .collection (.entity "Line")⟩

def quantity (l : Expr) : Expr := .member l ⟨"Line", "quantity", .scalar .int false⟩

def one : Expr := .const (.value (.int 1))

/-- The lines are the only members of a collection type. -/
def many (owner name : String) : Bool := owner == "Order" && name == "lines"

/-- All lines of the orders that have a line of more than one piece. -/
def ofBulkOrders : Expr :=
  .call .selectMany [.call .where [.source "Order", .lambda [someOrder]
      (.call .any [lines (.param someOrder), .lambda [someLine]
        (.binary .greaterThan (quantity (.param someLine)) one)])],
    .lambda [someOrder] (lines (.param someOrder))]

/-- The greatest of the orders' lines, as a collection each. -/
def greatest : Expr := .call .max [.source "Order", .lambda [someOrder] (lines (.param someOrder))]

/-- A member of a collection type that holds a row. -/
def held : PropertyRef := ⟨"Holder", "order", .collection (.entity "Order")⟩

def holder : Param := ⟨⟨3⟩, "h", .object "Holder"⟩

/-- The holders of any order. -/
def holders : Expr :=
  .call .where [.call .select [.source "Order",
      .lambda [someOrder] (.new "Holder" [(held, .param someOrder)])],
    .lambda [holder] (.call .any [.member (.param holder) held])]

end Lines

/-- A flattened relation to many. -/
theorem projection_compile_lines : Lines.ofBulkOrders.wellTyped Lines.many [] = true ∧
    Lines.mapping.requests Lines.ofBulkOrders = true ∧
    ∃ s, (Lines.mapping.compile Lines.ofBulkOrders).1 = .ok s ∧
      s.request.projection = some (.entity "Line") := by
  have htyped : Lines.ofBulkOrders.wellTyped Lines.many [] = true := by decide +kernel
  have hrequest : Lines.mapping.requests Lines.ofBulkOrders = true := by decide +kernel
  have hok : (Lines.mapping.compile Lines.ofBulkOrders).1.toOption.isSome = true := by decide +kernel
  refine ⟨htyped, hrequest, ?_⟩
  cases hcompile : (Lines.mapping.compile Lines.ofBulkOrders).1 with
  | error f =>
    rw [hcompile] at hok
    cases hok
  | ok s => exact ⟨s, rfl, Lines.mapping.projection_compile Lines.many htyped hrequest hcompile⟩

/-- **An extremum of collections shows the collection**, and a member of a collection type that holds a
row lets the operators on it change what the whole query shows. -/
theorem projections_differ :
    (∃ s, (Lines.mapping.compile Lines.greatest).1 = .ok s ∧
      Lines.mapping.requests Lines.greatest = true ∧
      Lines.greatest.type = .collection (.entity "Line") ∧
      s.request.projection = some (.collection (.entity "Line"))) ∧
    ∃ s, (Lines.mapping.compile Lines.holders).1 = .ok s ∧
      Lines.mapping.requests Lines.holders = true ∧
      Lines.holders.type = .query (.object "Holder") ∧
      s.request.projection = some .boolean := by
  have hgreatest : (Lines.mapping.compile Lines.greatest).1.toOption.any (fun s =>
      s.request.projection == some (.collection (.entity "Line"))) = true := by decide +kernel
  have hholders : (Lines.mapping.compile Lines.holders).1.toOption.any (fun s =>
      s.request.projection == some .boolean) = true := by decide +kernel
  have hdone : ∀ e type, (Lines.mapping.compile e).1.toOption.any (fun s =>
      s.request.projection == some type) = true →
      ∃ s, (Lines.mapping.compile e).1 = .ok s ∧ s.request.projection = some type := by
    intro e type h
    cases hcompile : (Lines.mapping.compile e).1 with
    | error f =>
      rw [hcompile] at h
      cases h
    | ok s =>
      rw [hcompile] at h
      exact ⟨s, rfl, eq_of_beq h⟩
  obtain ⟨s, hs, hprojection⟩ := hdone _ _ hgreatest
  obtain ⟨u, hu, hother⟩ := hdone _ _ hholders
  exact ⟨⟨s, hs, by decide +kernel, rfl, hprojection⟩, ⟨u, hu, by decide +kernel, rfl, hother⟩⟩

end EntityQuery
