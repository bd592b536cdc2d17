import EntityQuery.Proofs.Chains.Steps
import EntityQuery.Proofs.Nesting.Result

/-!
The statement of a chain of operators.

* `ranged_foldl`: operators in a row, by one step for each of them. `Chain.ranged` has the whole chain.
* `Normal`: a single request over one table, without joins, whose clauses and columns stand for what a
  chain asks for.
* `Mapping.compile_chain`: every chain of operators over scalar expressions has that form.
-/

namespace EntityQuery

open Sql

/-! ### Clauses of many operators -/

namespace Clauses

variable (value : Param → Expr → Fragment)

/-- What one operator asks for, clause by clause. -/
lemma add_eq (K : Clauses) (l : Link) : K.add value l =
    { tests := if K.keys.isEmpty then K.tests ++ (l.test? value).toList else K.tests
      groupTests := if K.keys.isEmpty then K.groupTests else K.groupTests ++ (l.test? value).toList
      keys := K.keys
      orders := (l.sort? value).toList.foldl
        (fun orders key => (if key.1 then [] else orders) ++ [key.2]) K.orders
      skip := l.skip?.or K.skip
      take := l.take?.or K.take
      distinct := K.distinct || l.isDistinct } := by
  have hrestrict : ∀ f, K.restrict f = { K with
      tests := if K.keys.isEmpty then K.tests ++ [f] else K.tests
      groupTests := if K.keys.isEmpty then K.groupTests else K.groupTests ++ [f] } := fun f => by
    unfold restrict
    split <;> rfl
  cases l <;>
    simp [add, sort, hrestrict, Link.test?, Link.sort?, Link.skip?, Link.take?, Link.isDistinct]

/-- What a list of operators asks for, clause by clause. -/
lemma foldl_add (links : List Link) (K : Clauses) : links.foldl (add value) K =
    { tests := if K.keys.isEmpty then K.tests ++ links.filterMap (Link.test? value) else K.tests
      groupTests := if K.keys.isEmpty then K.groupTests
        else K.groupTests ++ links.filterMap (Link.test? value)
      keys := K.keys
      orders := (links.filterMap (Link.sort? value)).foldl
        (fun orders key => (if key.1 then [] else orders) ++ [key.2]) K.orders
      skip := (links.filterMap Link.skip?).getLast?.or K.skip
      take := (links.filterMap Link.take?).getLast?.or K.take
      distinct := K.distinct || links.any Link.isDistinct } := by
  induction links generalizing K with
  | nil => simp
  | cons l links ih =>
    have hlast : ∀ {α : Type} (o : Option α), o.toList.getLast? = o := fun o => by cases o <;> rfl
    have hcons : ∀ {α : Type} (f : Link → Option α),
        (l :: links).filterMap f = (f l).toList ++ links.filterMap f := fun f => by
      rw [List.filterMap_cons]
      cases f l <;> rfl
    rw [List.foldl_cons, ih, add_eq]
    simp only [hcons, List.foldl_append, List.getLast?_append, hlast, Option.or_assoc, List.any_cons,
      Bool.or_assoc]
    cases K.keys.isEmpty <;> simp

lemma group_nil (K : Clauses) : K.group [] = K := by rw [group, List.append_nil]

lemma keys_foldl (links : List Link) (K : Clauses) : (links.foldl (add value) K).keys = K.keys := by
  rw [foldl_add]

end Clauses

/-- Keys to sort by, after others: one that replaces those before it leaves none of them. -/
lemma foldl_restart (keys : List (Bool × Bool × Fragment)) (orders : List (Bool × Fragment)) :
    keys.foldl (fun orders key => (if key.1 then [] else orders) ++ [key.2]) orders =
      if keys.any (·.1) then sinceRestart keys else orders ++ keys.map Prod.snd := by
  induction keys generalizing orders with
  | nil => simp
  | cons key keys ih =>
    rw [List.foldl_cons, ih, List.any_cons, sinceRestart]
    cases key.1 <;> cases keys.any (·.1) <;> simp

lemma sinceRestart_of_none {keys : List (Bool × Bool × Fragment)} (h : keys.any (·.1) = false) :
    sinceRestart keys = keys.map Prod.snd := by
  cases keys with
  | nil => rfl
  | cons key keys =>
    rw [List.any_cons, Bool.or_eq_false_iff] at h
    rw [sinceRestart, h.2]
    rfl

lemma foldl_eq_sinceRestart (keys : List (Bool × Bool × Fragment)) :
    keys.foldl (fun orders key => (if key.1 then [] else orders) ++ [key.2]) [] = sinceRestart keys := by
  rw [foldl_restart]
  split
  · rfl
  · next h =>
    rw [Bool.not_eq_true] at h
    rw [sinceRestart_of_none h, List.nil_append]

/-- The clauses of a chain, one operator after another. -/
lemma Chain.clauses_eq (c : Catalog) (h : Chain) (hkeys : h.grouping.isSome = true → h.keys c ≠ []) :
    h.clauses c = h.groups.foldl (Clauses.add (h.groupValue c))
      ((h.rows.foldl (Clauses.add (h.rowValue c)) {}).group (h.keys c)) := by
  rw [Clauses.foldl_add, Clauses.foldl_add, clauses, links]
  simp only [Clauses.group, List.filterMap_append, List.getLast?_append, List.any_append,
    ← foldl_eq_sinceRestart, List.foldl_append, List.isEmpty_nil, if_true, List.nil_append,
    Option.or_none, Bool.false_or]
  rcases hgrouping : h.grouping with _ | ⟨g, groups⟩
  · have hnone : h.groups = [] := by rw [Chain.groups, hgrouping]; rfl
    have hzero : h.keys c = [] := by rw [Chain.keys, hgrouping]; rfl
    simp [hnone, hzero]
  · have hfull : (h.keys c).isEmpty = false := by
      rw [List.isEmpty_eq_false_iff]
      exact hkeys (by rw [hgrouping]; rfl)
    simp [hfull]

namespace Compile

open Graph

variable {m : Mapping} {entity : String} {K : Clauses} {V : Selection} {s t : CompileState} {q : Expr}

/-! ### Chains -/

/-- **Operators in a row**, by one step for each of them. -/
theorem ranged_foldl {leaf : Param → Expr → Option Fragment} {value : Param → Expr → Fragment}
    (links : List Link) (hlinks : links.all (Link.fits leaf) = true) :
    ∀ {K q}, (∀ {K' : Clauses}, K'.keys = K.keys → ∀ {p e}, e.isScalar (leaf p) = true →
      ∀ fuel, Compiles m entity K' V (visit [] fuel) e (value p e)) → Ranged m entity K V q →
      Ranged m entity (links.foldl (Clauses.add value) K) V (links.foldl Link.expr q) := by
  induction links with
  | nil => exact fun _ h => h
  | cons l links ih =>
    intro K q hvalue h
    obtain ⟨hl, hlinks⟩ := Bool.and_eq_true_iff.1 (List.all_cons ▸ hlinks)
    refine ih hlinks (fun hkeys => hvalue ?_) (h.link hvalue hl)
    rw [hkeys, Clauses.keys_add]

/-- The keys of a grouping that fits. -/
lemma keys_ne_nil {c : Catalog} {g : Grouping} (hg : g.fits c entity = true) : g.keys c entity ≠ [] := by
  obtain ⟨hmembers, -⟩ := Bool.and_eq_true_iff.1 hg
  intro hkeys
  rw [Grouping.keys, List.map_eq_nil_iff] at hkeys
  rw [hkeys] at hmembers
  cases hmembers

/-- The request of a chain. -/
theorem ranged_chain {h : Chain} (hm : Unregistered m h.entity) (hfits : h.fits m.catalog = true) :
    Ranged m h.entity (h.clauses m.catalog) {} h.expr := by
  obtain ⟨hrows, hgroups⟩ := Bool.and_eq_true_iff.1 hfits
  have hbase := ranged_foldl h.rows hrows (fun _ _ _ he fuel => compiles_row he fuel)
    (ranged_source hm)
  rcases h with ⟨entity, rows, _ | ⟨g, groups⟩⟩
  · rw [Chain.clauses_eq m.catalog ⟨entity, rows, none⟩ nofun]
    exact (Clauses.group_nil _).symm ▸ hbase
  · obtain ⟨hg, hgroups⟩ := Bool.and_eq_true_iff.1 hgroups
    have hfull : Chain.keys m.catalog ⟨entity, rows, some (g, groups)⟩ ≠ [] := keys_ne_nil hg
    rw [Chain.clauses_eq _ _ fun _ => hfull]
    refine ranged_foldl groups hgroups (fun {K'} hK {p e} he fuel => ?_) (hbase.group hg)
    have hkeys : K'.keys = Chain.keys m.catalog ⟨entity, rows, some (g, groups)⟩ := by
      rw [hK, Clauses.keys_group, Clauses.keys_foldl, List.nil_append]
    rw [← hkeys] at he
    rw [Chain.groupValue, ← hkeys]
    exact compiles_group he fuel

end Compile

/-! ### Columns -/

/-- The columns of a request over a source. -/
def ColumnsAt (g : Graph) (a : AliasId) (columns : List (String × LayoutColumn)) (items : List Item) :
    Prop :=
  List.Forall₂ (fun k i => g.Has i.node (.column a k.1) ∧
    i = { node := i.node, property := k.2.property, newElement := k.2.newElement }) columns items

lemma ColumnsAt.later {g h : Graph} {a : AliasId} {columns : List (String × LayoutColumn)}
    {items : List Item} (hi : ColumnsAt g a columns items) (hgh : g.Extends h) :
    ColumnsAt h a columns items :=
  hi.imp fun _ _ hn => ⟨hn.1.later hgh, hn.2⟩

/-- **A normal form**: a single request over the table of an entity, without joins, whose clauses and
columns stand for what a chain asks for. -/
structure Normal (m : Mapping) (entity : String) (K : Clauses) (columns : List (String × LayoutColumn))
    (g : Graph) : Prop where
  single : g.requests.size = 1
  sole : g.aliases.size = 1
  source : ∃ table, m.catalog.tableName entity = .ok table ∧ (g.aliasOf ⟨0⟩).origin = .table table
  clauses : K.At g ⟨0⟩ (g.request ⟨0⟩)
  columns : ColumnsAt g ⟨0⟩ columns (g.request ⟨0⟩).items

namespace Compile

open Graph

variable {m : Mapping} {entity : String} {K : Clauses} {s t : CompileState} {q : Expr}
  {columns : List (String × LayoutColumn)}

/-- Nothing is selected before the first projection. -/
lemma Alone.items_eq_nil (hs : Alone m entity K {} s) : (s.graph.request ⟨0⟩).items = [] :=
  List.forall₂_nil_left_iff.1 hs.items

lemma Alone.normal (hs : Alone m entity K {} s) : Normal m entity K [] s.graph := by
  refine ⟨hs.single, hs.sole, hs.source, hs.clauses, ?_⟩
  rw [hs.items_eq_nil]
  exact .nil

/-- A further column. -/
lemma ensures_selectNode {x : Compile NodeId} {column : String}
    (hx : Ensures x s (Makes s (.column [] column))) (h : Normal m entity K columns s.graph)
    (property : Option PropertyRef) (newElement : Bool) : Ensures (do
      let n ← x
      edit (·.pushItem ⟨0⟩ { node := n, property, newElement })) s fun _ t =>
        s.graph.Extends t.graph ∧
          Normal m entity K (columns ++ [(column, ⟨property, newElement⟩)]) t.graph := by
  refine hx.bind fun n t ⟨ht, hn⟩ => ensures_edit.2 ?_
  have hrequest : t.graph.request ⟨0⟩ = s.graph.request ⟨0⟩ := by
    rw [Graph.request, ht.requests, Graph.request]
  have hpush : t.graph.Extends (t.graph.pushItem ⟨0⟩ { node := n, property, newElement }) :=
    (Kept.pushItem (A := []) t.graph (List.mem_singleton_self (⟨0⟩ : RequestId)) _).extension
  have hgraph := ht.graph.trans hpush
  have hitem : (t.graph.pushItem ⟨0⟩ { node := n, property, newElement }).request ⟨0⟩ =
      { s.graph.request ⟨0⟩ with
        items := (s.graph.request ⟨0⟩).items ++ [{ node := n, property, newElement }] } := by
    rw [pushItem, request_modifyRequest_self, request_attach, hrequest]
    rw [requests_attach, ht.requests, h.single]
    exact Nat.zero_lt_one
  refine ⟨hgraph, ?_, ?_, ?_, ?_, ?_⟩
  · rw [pushItem, size_requests_modifyRequest, requests_attach, ht.requests, h.single]
  · exact ht.aliases.trans h.sole
  · obtain ⟨table, htable, horigin⟩ := h.source
    exact ⟨table, htable, (hgraph.origin ⟨0⟩ (by rw [h.sole]; exact Nat.zero_lt_one)).trans horigin⟩
  · rw [hitem]
    exact { h.clauses.later hgraph with }
  · rw [hitem]
    exact List.rel_append (h.columns.later hgraph) (.cons ⟨hn.2.later hpush, rfl⟩ .nil)

/-- Columns of the row of the source. -/
lemma normal_selectColumns (ks : List (PropertyRef × String)) : ∀ {new columns s},
    Normal m entity K columns s.graph → Ensures (selectColumns ⟨0⟩ ⟨0⟩ new ks) s fun _ t =>
      Normal m entity K (columns ++ elementColumns new (ks.map fun k => (k.2, some k.1))) t.graph := by
  induction ks with
  | nil =>
    intro new columns s h
    refine ensures_pure.2 ?_
    rw [List.map_nil, elementColumns, List.append_nil]
    exact h
  | cons k ks ih =>
    intro new columns s h
    have hnode : Ensures (add (.column ⟨0⟩ k.2)) s (Makes s (.column [] k.2)) :=
      makes_add (.refl s) fun _ _ _ hn => ⟨rfl, hn⟩
    have hcolumn := ensures_selectNode hnode h (some k.1) new
    rw [selectColumns]
    rw [ensures_bind] at hcolumn ⊢
    refine hcolumn.mono fun n u hpush => hpush.bind fun _ v hv => (ih hv.2).mono fun _ t ht => ?_
    rw [List.append_assoc] at ht
    exact ht

/-- Keys of the groups. -/
lemma normal_selectGroups (e : Expr) {keys : GroupKeys}
    {entries : List (NodeId × Option PropertyRef)} {g : Graph} (hentries : KeysAt g keys entries) :
    ∀ {new columns s}, g.Extends s.graph → Normal m entity K columns s.graph →
      Ensures (selectGroups e ⟨0⟩ new entries) s fun _ t =>
        Normal m entity K (columns ++ elementColumns new keys) t.graph := by
  induction hentries with
  | nil =>
    intro new columns s _ h
    refine ensures_pure.2 ?_
    rw [elementColumns, List.append_nil]
    exact h
  | @cons k x keys entries hx _ ih =>
    intro new columns s hgs h
    obtain ⟨n, member⟩ := x
    obtain ⟨hn, rfl⟩ := hx
    have hkey := ensures_selectNode (makes_duplicate (f := .column [] k.1) ⟨rfl, hn.later hgs⟩ e) h k.2 new
    rw [selectGroups]
    rw [ensures_bind] at hkey ⊢
    refine hkey.mono fun n u hpush => hpush.bind fun _ v hv =>
      (ih (hgs.trans hv.1) hv.2).mono fun _ t ht => ?_
    rw [List.append_assoc] at ht
    exact ht

/-- The columns of a whole row. -/
lemma ensures_rowColumns (entity : String) : Ensures (shownColumns entity) s fun ks t =>
    t = s ∧ ks.map (fun k => (k.2, some k.1)) = s.mapping.rowColumns entity := by
  have hmap : ∀ ps : List PropertyRef,
      Ensures (ps.mapM fun p => return (p, ← ask (·.columnName p)) : Compile _) s fun ks t =>
        t = s ∧ ks.map (fun k => (k.2, some k.1)) =
          ps.map fun p => ((s.mapping.catalog.columnName p).toOption.getD "", some p) := by
    intro ps
    induction ps with
    | nil => exact ensures_pure.2 ⟨rfl, rfl⟩
    | cons p ps ih =>
      rw [List.mapM_cons, bind_assoc, ensures_bind, ensures_ask]
      intro column hcolumn
      rw [pure_bind]
      refine ih.bind ?_
      rintro ks _ ⟨rfl, hks⟩
      refine ensures_pure.2 ⟨rfl, ?_⟩
      rw [List.map_cons, List.map_cons, hks, hcolumn]
      rfl
  rw [shownColumns, ensures_get_bind]
  dsimp only
  rw [ensures_bind, ensures_ask]
  intro scalars hscalars
  rw [ensures_bind, ensures_ask]
  intro all hall
  refine (hmap _).mono fun ks t hks => ?_
  rw [Mapping.rowColumns, hscalars, hall]
  exact hks

/-! ### Statements -/

/-- The request shows its keys, or its rows where there are none. -/
lemma Alone.ensures_declareColumns (hs : Alone m entity K {} s) (e : Expr) :
    Ensures (declareColumns e ⟨0⟩) s fun _ t => Normal m entity K
      (elementColumns true (if K.keys.isEmpty then m.rowColumns entity else K.keys)) t.graph := by
  have hclauses := hs.clauses
  rw [declareColumns, ensures_bind, ensures_request]
  simp only [hclauses.kind, hs.items_eq_nil, hs.isGrouped, hclauses.base]
  cases hkeys : K.keys.isEmpty with
  | true =>
    simp only [Bool.not_true, Bool.false_eq_true, if_false, if_true]
    rw [selectRow, ensures_bind, ensures_graph, hs.row]
    refine (ensures_rowColumns entity).bind ?_
    rintro ks _ ⟨rfl, hks⟩
    obtain ⟨table, hmapping⟩ := hs.mapping
    rw [hmapping] at hks
    change _ = m.rowColumns entity at hks
    rw [← hks]
    exact normal_selectColumns ks hs.normal
  | false =>
    simp only [Bool.not_false, Bool.false_eq_true, if_false, if_true]
    rw [hclauses.members]
    exact normal_selectGroups e (keysAt_zip hclauses.groups) (.refl _) hs.normal

/-- **The statement of an expression** whose request stands for what a chain asks for. -/
theorem Ranged.root (h : Ranged m entity K {} q) :
    Ensures (root [] q) { mapping := m } fun r t => r = ⟨0⟩ ∧ Normal m entity K
      (elementColumns true (if K.keys.isEmpty then m.rowColumns entity else K.keys)) t.graph := by
  have hrun : Ensures (do
      let _ ← visit [] q.depth q
      let r := (← graph).outermost (← active q)
      declareColumns q r
      return r) { mapping := m } fun r t => r = ⟨0⟩ ∧ Normal m entity K
        (elementColumns true (if K.keys.isEmpty then m.rowColumns entity else K.keys)) t.graph := by
    refine (h q.depth).bind ?_
    rintro _ s ⟨-, hs⟩
    have houter : s.graph.outermost ⟨0⟩ = ⟨0⟩ := by
      rw [outermost, enclosing?, enclosingWithin, hs.clauses.parent]
      rfl
    rw [ensures_bind, ensures_graph, ensures_bind, ensures_active, hs.active]
    rintro _ ⟨⟩
    dsimp only
    rw [houter]
    exact (hs.ensures_declareColumns q).bind fun _ t ht => ensures_pure.2 ⟨rfl, ht⟩
  cases q with
  | source _ => exact hrun
  | call _ _ => exact hrun
  | _ => exact ensures_reject

end Compile

/-- **The normal form of a chain.** Every chain of operators over scalar expressions on the rows of an
entity, grouped once at most, that has a statement has one of a single request over the table of the
entity. It joins nothing, and its clauses and columns are those that the chain asks for, in the order in
which it asks for them. Own scalar members are read where they are mapped: nothing has been registered
for them, and no key of a grouping is one of them and read from another. -/
theorem Mapping.compile_chain {m : Mapping} {h : Chain} {s : Statement}
    (hm : Compile.Unregistered m h.entity) (hfits : h.fits m.catalog = true)
    (hrun : (m.compile h.expr).1 = .ok s) :
    s.root = ⟨0⟩ ∧ Normal m h.entity (h.clauses m.catalog) (h.columns m) s.graph := by
  obtain ⟨t, hroot, hgraph⟩ := Mapping.runs_of_compile hrun
  obtain ⟨hzero, hnormal⟩ := (Compile.ranged_chain hm hfits).root s.root t hroot
  have hcolumns : elementColumns true (if (h.clauses m.catalog).keys.isEmpty then
      m.rowColumns h.entity else (h.clauses m.catalog).keys) = h.columns m := by
    rcases h with ⟨entity, rows, _ | ⟨g, groups⟩⟩
    · rfl
    · have hg := (Bool.and_eq_true_iff.1 (Bool.and_eq_true_iff.1 hfits).2).1
      have hfull : (g.keys m.catalog entity).isEmpty = false :=
        List.isEmpty_eq_false_iff.2 (Compile.keys_ne_nil hg)
      change elementColumns true (if (g.keys m.catalog entity).isEmpty then _ else _) = _
      rw [hfull]
      rfl
  rw [hcolumns, hgraph] at hnormal
  exact ⟨hzero, hnormal⟩

/-! ### Sums of orders -/

namespace Sums

def mapping : Mapping where
  catalog := ⟨[⟨"Order", "orders", some "id", [⟨"id", "id", .scalar .int false none⟩,
    ⟨"total", "total", .scalar .int false none⟩]⟩]⟩

def order : Param := ⟨⟨1⟩, "o", .entity "Order"⟩

def byKey : Param := ⟨⟨2⟩, "g", .grouping (.object "Key") (.entity "Order")⟩

def id : PropertyRef := ⟨"Order", "id", .scalar .int false⟩

def total : PropertyRef := ⟨"Order", "total", .scalar .int false⟩

def key : PropertyRef := ⟨"Key", "value", .scalar .int false⟩

def int (i : Int64) : Expr := .const (.value (.int i))

/-- The sum of the totals of a group. -/
def sum : Expr := .call .sum [.param byKey, .lambda [order] (.member (.param order) total)]

/-- Groups of a sum above three, by the totals of orders from the second one on. -/
def chain : Chain where
  entity := "Order"
  rows := [.filter order (.binary .greaterThan (.member (.param order) Sums.id) (int 1)), .skip 2,
    .order .orderBy order (.member (.param order) Sums.id)]
  grouping := some (.composite order "Key" [(key, total)],
    [.filter byKey (.binary .greaterThan sum (int 3)),
      .order .orderByDescending byKey (.member (.key (.param byKey)) key), .first])

/-- Groups of a sum above three, by orders whose total is their number. -/
def renamed : Chain where
  entity := "Order"
  rows := []
  grouping := some (.composite order "Order" [(total, Sums.id)],
    [.filter byKey (.binary .greaterThan sum (int 3))])

/-- Whether a column is read anywhere. -/
def reads (column : String) (g : Graph) : Bool :=
  (List.range g.entries.size).any fun i =>
    match g.node ⟨i⟩ with
    | .column _ name => name == column
    | _ => false

end Sums

/-- Rows before the grouping and groups after it. -/
theorem compile_chain_sums : Compile.Unregistered Sums.mapping "Order" ∧
    Sums.chain.fits Sums.mapping.catalog = true ∧
    ∃ s, (Sums.mapping.compile Sums.chain.expr).1 = .ok s ∧ s.root = ⟨0⟩ ∧
      Normal Sums.mapping "Order" (Sums.chain.clauses Sums.mapping.catalog)
        (Sums.chain.columns Sums.mapping) s.graph := by
  have hm : Compile.Unregistered Sums.mapping "Order" := fun _ _ => rfl
  have hfits : Sums.chain.fits Sums.mapping.catalog = true := by decide +kernel
  have hok : (Sums.mapping.compile Sums.chain.expr).1.toOption.isSome = true := by decide +kernel
  refine ⟨hm, hfits, ?_⟩
  cases hcompile : (Sums.mapping.compile Sums.chain.expr).1 with
  | error f =>
    rw [hcompile] at hok
    cases hok
  | ok s => exact ⟨s, rfl, Mapping.compile_chain hm hfits hcompile⟩

/-- **A key that is another member of the rows takes its place.** The sum of the totals of a group does not
read them: it has become the sum of what the key is read from. -/
theorem compile_chain_renamed : ∃ s, (Sums.mapping.compile Sums.renamed.expr).1 = .ok s ∧
    Sums.reads "total" s.graph = false ∧
    (Sums.renamed.clauses Sums.mapping.catalog).groupTests =
      [.binary .greaterThan (.unary .sum (some (.column [] "total"))) (.const (.int 3))] ∧
    ¬ Normal Sums.mapping "Order" (Sums.renamed.clauses Sums.mapping.catalog)
      (Sums.renamed.columns Sums.mapping) s.graph := by
  have hnone : (Sums.mapping.compile Sums.renamed.expr).1.toOption.any (fun s =>
      !Sums.reads "total" s.graph) = true := by decide +kernel
  have htests : (Sums.renamed.clauses Sums.mapping.catalog).groupTests =
      [.binary .greaterThan (.unary .sum (some (.column [] "total"))) (.const (.int 3))] := by
    rfl
  cases hcompile : (Sums.mapping.compile Sums.renamed.expr).1 with
  | error f =>
    rw [hcompile] at hnone
    cases hnone
  | ok s =>
    rw [hcompile] at hnone
    have hreads : Sums.reads "total" s.graph = false :=
      (Bool.not_eq_true' _).mp hnone
    refine ⟨s, rfl, hreads, htests, fun hnormal => ?_⟩
    have hhaving := hnormal.clauses.having
    rw [htests, Fragment.conjunction?, List.foldl_nil] at hhaving
    cases hn : (s.graph.request ⟨0⟩).having with
    | none =>
      rw [hn] at hhaving
      exact hhaving
    | some n =>
      rw [hn] at hhaving
      obtain ⟨i, j, -, ⟨k, -, -, hk⟩, -⟩ := hhaving
      have hother := List.any_eq_false.1 hreads k.index (List.mem_range.2 hk.1)
      rw [hk.2] at hother
      exact hother rfl

end EntityQuery
