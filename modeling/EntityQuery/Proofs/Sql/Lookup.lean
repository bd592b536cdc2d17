import EntityQuery.Mapping.Resolve
import Mathlib.Tactic.Lemma

/-!
What the operations on graphs do to nodes, aliases and requests.

* Every operation is described by what it looks up afterwards: a node that was there stays what it
  is, and an operation on a request changes that request only.
* Links upwards are not looked at here.
-/

namespace EntityQuery.Sql

/-- An alias without its parameters. -/
def Alias.bare (a : Alias) : Alias := { a with params := [] }

lemma Alias.origin_eq_of_bare {a b : Alias} (h : a.bare = b.bare) : a.origin = b.origin := by
  have horigin : a.bare.origin = b.bare.origin := by rw [h]
  exact horigin

lemma Alias.route_eq_of_bare {a b : Alias} (h : a.bare = b.bare) : a.route = b.route := by
  have hroute : a.bare.route = b.bare.route := by rw [h]
  exact hroute

namespace Graph

variable (g : Graph)

/-! ### Parents -/

@[simp] lemma node_setParent (o : Owner) (n m : NodeId) : (g.setParent o n).node m = g.node m := by
  unfold node entry setParent
  simp only [Array.getD_eq_getD_getElem?, Array.getElem?_modify]
  split
  · cases g.entries[m.index]? <;> rfl
  · rfl

@[simp] lemma size_entries_setParent (o : Owner) (n : NodeId) :
    (g.setParent o n).entries.size = g.entries.size := by simp [setParent]

@[simp] lemma aliases_setParent (o : Owner) (n : NodeId) :
    (g.setParent o n).aliases = g.aliases := rfl

@[simp] lemma requests_setParent (o : Owner) (n : NodeId) :
    (g.setParent o n).requests = g.requests := rfl

section Adopt

variable (o : Owner) (ns : List NodeId)

lemma node_foldl_setParent (m : NodeId) :
    (ns.foldl (fun g c => g.setParent o c) g).node m = g.node m := by
  induction ns generalizing g with
  | nil => rfl
  | cons n ns ih => rw [List.foldl_cons, ih, node_setParent]

lemma size_entries_foldl_setParent :
    (ns.foldl (fun g c => g.setParent o c) g).entries.size = g.entries.size := by
  induction ns generalizing g with
  | nil => rfl
  | cons n ns ih => rw [List.foldl_cons, ih, size_entries_setParent]

lemma aliases_foldl_setParent :
    (ns.foldl (fun g c => g.setParent o c) g).aliases = g.aliases := by
  induction ns generalizing g with
  | nil => rfl
  | cons n ns ih => rw [List.foldl_cons, ih, aliases_setParent]

lemma requests_foldl_setParent :
    (ns.foldl (fun g c => g.setParent o c) g).requests = g.requests := by
  induction ns generalizing g with
  | nil => rfl
  | cons n ns ih => rw [List.foldl_cons, ih, requests_setParent]

end Adopt

/-! ### Adding nodes -/

@[simp] lemma add_fst (x : Node) : (g.add x).1 = ⟨g.entries.size⟩ := rfl

@[simp] lemma size_entries_add (x : Node) : (g.add x).2.entries.size = g.entries.size + 1 := by
  simp [add, size_entries_foldl_setParent]

@[simp] lemma aliases_add (x : Node) : (g.add x).2.aliases = g.aliases :=
  g.aliases_foldl_setParent _ _

@[simp] lemma requests_add (x : Node) : (g.add x).2.requests = g.requests :=
  g.requests_foldl_setParent _ _

lemma node_add (x : Node) (m : NodeId) :
    (g.add x).2.node m = if m.index = g.entries.size then x else g.node m := by
  have hold := g.node_foldl_setParent (.node ⟨g.entries.size⟩) x.children m
  have hsize := g.size_entries_foldl_setParent (.node ⟨g.entries.size⟩) x.children
  unfold node entry at hold ⊢
  simp only [add, Array.getD_eq_getD_getElem?, Array.getElem?_push, hsize] at hold ⊢
  split
  · rfl
  · exact hold

@[simp] lemma node_add_self (x : Node) : (g.add x).2.node ⟨g.entries.size⟩ = x := by
  rw [node_add, if_pos rfl]

lemma node_add_of_lt (x : Node) {m : NodeId} (h : m.index < g.entries.size) :
    (g.add x).2.node m = g.node m := by
  rw [node_add, if_neg (by omega)]

@[simp] lemma aliasOf_add (x : Node) (a : AliasId) : (g.add x).2.aliasOf a = g.aliasOf a := by
  rw [aliasOf, aliases_add, aliasOf]

@[simp] lemma request_add (x : Node) (r : RequestId) : (g.add x).2.request r = g.request r := by
  rw [request, requests_add, request]

/-! ### Adding aliases -/

@[simp] lemma addAlias_fst (d : Alias) : (g.addAlias d).1 = ⟨g.aliases.size⟩ := rfl

@[simp] lemma size_aliases_addAlias (d : Alias) :
    (g.addAlias d).2.aliases.size = g.aliases.size + 1 := by simp [addAlias]

@[simp] lemma entries_addAlias (d : Alias) : (g.addAlias d).2.entries = g.entries := rfl

@[simp] lemma requests_addAlias (d : Alias) : (g.addAlias d).2.requests = g.requests := rfl

@[simp] lemma node_addAlias (d : Alias) (n : NodeId) : (g.addAlias d).2.node n = g.node n := rfl

@[simp] lemma request_addAlias (d : Alias) (r : RequestId) :
    (g.addAlias d).2.request r = g.request r := rfl

lemma aliasOf_addAlias (d : Alias) (a : AliasId) :
    (g.addAlias d).2.aliasOf a =
      if a.index = g.aliases.size then { d with name := "t" ++ toString g.aliases.size }
      else g.aliasOf a := by
  unfold aliasOf
  simp only [addAlias, Array.getD_eq_getD_getElem?, Array.getElem?_push]
  split <;> rfl

@[simp] lemma aliasOf_addAlias_self (d : Alias) :
    (g.addAlias d).2.aliasOf ⟨g.aliases.size⟩ =
      { d with name := "t" ++ toString g.aliases.size } := by
  rw [aliasOf_addAlias, if_pos rfl]

lemma aliasOf_addAlias_of_lt (d : Alias) {a : AliasId} (h : a.index < g.aliases.size) :
    (g.addAlias d).2.aliasOf a = g.aliasOf a := by
  rw [aliasOf_addAlias, if_neg (by omega)]

/-! ### Binding parameters -/

@[simp] lemma entries_bind (a : AliasId) (p : ParamId) : (g.bind a p).entries = g.entries := rfl

@[simp] lemma requests_bind (a : AliasId) (p : ParamId) : (g.bind a p).requests = g.requests := rfl

@[simp] lemma node_bind (a : AliasId) (p : ParamId) (n : NodeId) :
    (g.bind a p).node n = g.node n := rfl

@[simp] lemma request_bind (a : AliasId) (p : ParamId) (r : RequestId) :
    (g.bind a p).request r = g.request r := rfl

@[simp] lemma size_aliases_bind (a : AliasId) (p : ParamId) :
    (g.bind a p).aliases.size = g.aliases.size := by simp [bind, modifyAlias]

lemma aliasOf_bind_of_ne {a b : AliasId} (p : ParamId) (h : b ≠ a) :
    (g.bind a p).aliasOf b = g.aliasOf b := by
  have hne : a.index ≠ b.index := fun he => h (by cases a; cases b; simp_all)
  simp [aliasOf, bind, modifyAlias, Array.getD_eq_getD_getElem?, Array.getElem?_modify, hne]

lemma aliasOf_bind_self {a : AliasId} (p : ParamId) (h : a.index < g.aliases.size) :
    (g.bind a p).aliasOf a =
      { g.aliasOf a with
        params := if p ∈ (g.aliasOf a).params then (g.aliasOf a).params
          else (g.aliasOf a).params ++ [p] } := by
  simp only [aliasOf, bind, modifyAlias, Array.getD_eq_getD_getElem?, Array.getElem?_modify, if_pos,
    Array.getElem?_eq_getElem h, Option.map_some, Option.getD_some, List.contains_iff_mem]
  split <;> rfl

/-- Binding changes no more of an alias than its parameters. -/
lemma bare_bind (a b : AliasId) (p : ParamId) :
    ((g.bind a p).aliasOf b).bare = (g.aliasOf b).bare := by
  by_cases hb : b = a
  · subst hb
    by_cases h : b.index < g.aliases.size
    · rw [aliasOf_bind_self g p h]
      rfl
    · simp [aliasOf, bind, modifyAlias, Array.getD_eq_getD_getElem?, Array.getElem?_modify,
        Array.getElem?_eq_none (Nat.not_lt.1 h)]
  · rw [aliasOf_bind_of_ne g p hb]

/-! ### Requests -/

@[simp] lemma addRequest_fst (parent : Option RequestId) :
    (g.addRequest parent).1 = ⟨g.requests.size⟩ := rfl

@[simp] lemma entries_addRequest (parent : Option RequestId) :
    (g.addRequest parent).2.entries = g.entries := rfl

@[simp] lemma aliases_addRequest (parent : Option RequestId) :
    (g.addRequest parent).2.aliases = g.aliases := rfl

@[simp] lemma node_addRequest (parent : Option RequestId) (n : NodeId) :
    (g.addRequest parent).2.node n = g.node n := rfl

@[simp] lemma aliasOf_addRequest (parent : Option RequestId) (a : AliasId) :
    (g.addRequest parent).2.aliasOf a = g.aliasOf a := rfl

@[simp] lemma size_requests_addRequest (parent : Option RequestId) :
    (g.addRequest parent).2.requests.size = g.requests.size + 1 := by simp [addRequest]

lemma request_addRequest (parent : Option RequestId) (r : RequestId) :
    (g.addRequest parent).2.request r =
      if r.index = g.requests.size then { parent } else g.request r := by
  unfold request
  simp only [addRequest, Array.getD_eq_getD_getElem?, Array.getElem?_push]
  split <;> rfl

@[simp] lemma request_addRequest_self (parent : Option RequestId) :
    (g.addRequest parent).2.request ⟨g.requests.size⟩ = { parent } := by
  rw [request_addRequest, if_pos rfl]

lemma request_addRequest_of_lt (parent : Option RequestId) {r : RequestId}
    (h : r.index < g.requests.size) : (g.addRequest parent).2.request r = g.request r := by
  rw [request_addRequest, if_neg (by omega)]

section Modify

variable (r : RequestId) (f : Request → Request)

@[simp] lemma entries_modifyRequest : (g.modifyRequest r f).entries = g.entries := rfl

@[simp] lemma aliases_modifyRequest : (g.modifyRequest r f).aliases = g.aliases := rfl

@[simp] lemma node_modifyRequest (n : NodeId) : (g.modifyRequest r f).node n = g.node n := rfl

@[simp] lemma aliasOf_modifyRequest (a : AliasId) :
    (g.modifyRequest r f).aliasOf a = g.aliasOf a := rfl

@[simp] lemma size_requests_modifyRequest :
    (g.modifyRequest r f).requests.size = g.requests.size := by simp [modifyRequest]

variable {r}

lemma request_modifyRequest_self (h : r.index < g.requests.size) :
    (g.modifyRequest r f).request r = f (g.request r) := by
  simp [request, modifyRequest, Array.getD_eq_getD_getElem?, Array.getElem?_modify,
    Array.getElem?_eq_getElem h]

lemma request_modifyRequest_of_ne {q : RequestId} (h : q ≠ r) :
    (g.modifyRequest r f).request q = g.request q := by
  have hne : r.index ≠ q.index := fun he => h (by cases r; cases q; simp_all)
  simp [request, modifyRequest, Array.getD_eq_getD_getElem?, Array.getElem?_modify, hne]

end Modify

/-! ### Clauses -/

@[simp] lemma node_attach (r : RequestId) (n m : NodeId) : (g.attach r n).node m = g.node m :=
  g.node_setParent _ n m

@[simp] lemma size_entries_attach (r : RequestId) (n : NodeId) :
    (g.attach r n).entries.size = g.entries.size := g.size_entries_setParent _ n

@[simp] lemma aliases_attach (r : RequestId) (n : NodeId) : (g.attach r n).aliases = g.aliases := rfl

@[simp] lemma requests_attach (r : RequestId) (n : NodeId) :
    (g.attach r n).requests = g.requests := rfl

@[simp] lemma aliasOf_attach (r : RequestId) (n : NodeId) (a : AliasId) :
    (g.attach r n).aliasOf a = g.aliasOf a := rfl

@[simp] lemma request_attach (r : RequestId) (n : NodeId) (q : RequestId) :
    (g.attach r n).request q = g.request q := rfl

@[simp] lemma aliases_pushJoin (r : RequestId) (j : Join) :
    (g.pushJoin r j).aliases = g.aliases := rfl

@[simp] lemma aliasOf_pushJoin (r : RequestId) (j : Join) (a : AliasId) :
    (g.pushJoin r j).aliasOf a = g.aliasOf a := rfl

section Clauses

variable {r : RequestId} (h : r.index < g.requests.size)
include h

lemma request_pushJoin_self (j : Join) :
    (g.pushJoin r j).request r = { g.request r with joins := (g.request r).joins ++ [j] } :=
  request_modifyRequest_self (g.attach r j.condition) _ h

lemma request_pushItem_self (i : Item) :
    (g.pushItem r i).request r = { g.request r with items := (g.request r).items ++ [i] } :=
  request_modifyRequest_self (g.attach r i.node) _ h

end Clauses

/-- Sets the filter of a request. -/
def setFilter (g : Graph) (r : RequestId) (n : NodeId) : Graph :=
  (g.attach r n).modifyRequest r fun q => { q with filter := some n }

lemma andFilter_of_none {r : RequestId} (n : NodeId) (hr : (g.request r).filter = none) :
    g.andFilter r n = g.setFilter r n := by simp [andFilter, conjoin, hr, setFilter]

lemma andFilter_of_some {r : RequestId} {m : NodeId} (n : NodeId)
    (hr : (g.request r).filter = some m) :
    g.andFilter r n = (g.add (.binary .and m n)).2.setFilter r ⟨g.entries.size⟩ := by
  simp [andFilter, conjoin, hr, setFilter]

@[simp] lemma aliasOf_setFilter (r : RequestId) (n : NodeId) (a : AliasId) :
    (g.setFilter r n).aliasOf a = g.aliasOf a := rfl

@[simp] lemma aliases_setFilter (r : RequestId) (n : NodeId) :
    (g.setFilter r n).aliases = g.aliases := rfl

@[simp] lemma node_setFilter (r : RequestId) (n m : NodeId) :
    (g.setFilter r n).node m = g.node m := by simp [setFilter]

@[simp] lemma size_entries_setFilter (r : RequestId) (n : NodeId) :
    (g.setFilter r n).entries.size = g.entries.size := by simp [setFilter]

@[simp] lemma size_requests_setFilter (r : RequestId) (n : NodeId) :
    (g.setFilter r n).requests.size = g.requests.size := by simp [setFilter]

@[simp] lemma size_entries_pushItem (r : RequestId) (i : Item) :
    (g.pushItem r i).entries.size = g.entries.size := by simp [pushItem]

@[simp] lemma size_requests_pushItem (r : RequestId) (i : Item) :
    (g.pushItem r i).requests.size = g.requests.size := by simp [pushItem]

lemma request_setFilter_self {r : RequestId} (n : NodeId) (h : r.index < g.requests.size) :
    (g.setFilter r n).request r = { g.request r with filter := some n } :=
  request_modifyRequest_self (g.attach r n) _ h

lemma request_setFilter_of_ne {r q : RequestId} (n : NodeId) (h : q ≠ r) :
    (g.setFilter r n).request q = g.request q :=
  request_modifyRequest_of_ne (g.attach r n) _ h

lemma request_pushJoin_of_ne {r q : RequestId} (j : Join) (h : q ≠ r) :
    (g.pushJoin r j).request q = g.request q :=
  request_modifyRequest_of_ne (g.attach r j.condition) _ h

/-- Takes the join of a source out of a request. -/
def dropJoin (g : Graph) (r : RequestId) (a : AliasId) : Graph :=
  g.modifyRequest r fun q => { q with joins := q.joins.eraseP fun k => k.source = a }

@[simp] lemma size_requests_dropJoin (r : RequestId) (a : AliasId) :
    (g.dropJoin r a).requests.size = g.requests.size := by simp [dropJoin]

@[simp] lemma aliasOf_dropJoin (r : RequestId) (a b : AliasId) :
    (g.dropJoin r a).aliasOf b = g.aliasOf b := rfl

/-- The join that came last has a source of its own. -/
lemma request_dropJoin_last {r : RequestId} (h : r.index < g.requests.size) {js : List Join} {j : Join}
    (hjoins : (g.request r).joins = js ++ [j]) (hnew : ∀ i ∈ js, i.source ≠ j.source) :
    (g.request r).joinFor? j.source = some j ∧
      (g.dropJoin r j.source).request r = { g.request r with joins := js } := by
  constructor
  · have hnone : js.find? (fun i => i.source = j.source) = none :=
      List.find?_eq_none.2 fun i hi => by simpa using hnew i hi
    simp [Request.joinFor?, hjoins, List.find?_append, hnone]
  · have herase : (js ++ [j]).eraseP (fun k => k.source = j.source) = js := by
      rw [List.eraseP_append_right]
      · simp
      · exact fun i hi => by simpa using hnew i hi
    rw [dropJoin, request_modifyRequest_self _ _ h, hjoins, herase]

/-- A new request inside another one, over a source. -/
def openRequest (g : Graph) (outer : RequestId) (a : AliasId) : Graph :=
  (g.addRequest (some outer)).2.modifyRequest ⟨g.requests.size⟩ fun q =>
    { q with base := some a, projection := (g.aliasOf a).entity.map .entity,
             idColumn := (g.aliasOf a).idColumn }

@[simp] lemma size_requests_openRequest (outer : RequestId) (a : AliasId) :
    (g.openRequest outer a).requests.size = g.requests.size + 1 := by simp [openRequest]

lemma request_openRequest_self (outer : RequestId) (a : AliasId) :
    (g.openRequest outer a).request ⟨g.requests.size⟩ =
      { parent := some outer, base := some a, projection := (g.aliasOf a).entity.map .entity,
        idColumn := (g.aliasOf a).idColumn } := by
  rw [openRequest, request_modifyRequest_self _ _ (by simp), request_addRequest_self]

lemma request_openRequest_of_lt (outer : RequestId) (a : AliasId) {r : RequestId}
    (h : r.index < g.requests.size) : (g.openRequest outer a).request r = g.request r := by
  have hne : r ≠ ⟨g.requests.size⟩ := by
    rintro rfl
    exact Nat.lt_irrefl _ h
  rw [openRequest, request_modifyRequest_of_ne _ _ hne, request_addRequest_of_lt g _ h]

/-- A node is the condition that two columns are equal. -/
def Compares (g : Graph) (n : NodeId) (a : AliasId) (c : String) (b : AliasId) (c' : String) : Prop :=
  ∃ l r, g.node n = .binary .equal l r ∧ g.node l = .column a c ∧ g.node r = .column b c'

/-- The condition that two columns are equal, with the graph that has it. -/
def equate (g : Graph) (a : AliasId) (c : String) (b : AliasId) (c' : String) : NodeId × Graph :=
  let (l, g) := g.add (.column a c)
  let (r, g) := g.add (.column b c')
  g.add (.binary .equal l r)

section Equate

variable (a : AliasId) (c : String) (b : AliasId) (c' : String)

@[simp] lemma equate_fst : (g.equate a c b c').1 = ⟨g.entries.size + 2⟩ := by simp [equate]

@[simp] lemma size_entries_equate : (g.equate a c b c').2.entries.size = g.entries.size + 3 := by
  simp [equate]

@[simp] lemma aliases_equate : (g.equate a c b c').2.aliases = g.aliases := by simp [equate]

@[simp] lemma requests_equate : (g.equate a c b c').2.requests = g.requests := by simp [equate]

@[simp] lemma aliasOf_equate (d : AliasId) : (g.equate a c b c').2.aliasOf d = g.aliasOf d := by
  simp [equate]

@[simp] lemma request_equate (r : RequestId) : (g.equate a c b c').2.request r = g.request r := by
  simp [equate]

/-- The condition compares the columns. -/
lemma compares_equate : (g.equate a c b c').2.Compares (g.equate a c b c').1 a c b c' := by
  refine ⟨⟨g.entries.size⟩, ⟨g.entries.size + 1⟩, ?_, ?_, ?_⟩
  · simp [equate, node_add]
  · simp only [equate, node_add, size_entries_add]
    rw [if_neg (by omega), if_neg (by omega), if_pos trivial]
  · simp [equate, node_add]

end Equate

/-- A source joined on equal columns. -/
def joinEqual (g : Graph) (r : RequestId) (source : AliasId) (widen : Bool) (a : AliasId)
    (c : String) (b : AliasId) (c' : String) : Graph :=
  (g.equate a c b c').2.pushJoin r ⟨source, .ofWiden widen, (g.equate a c b c').1⟩

end Graph

end EntityQuery.Sql
