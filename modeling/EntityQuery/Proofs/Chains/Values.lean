import EntityQuery.Proofs.Chains.Links
import EntityQuery.Proofs.Compile.Ensures
import EntityQuery.Proofs.Nesting.Copies

/-!
Scalar expressions compiled over the one source of a request.

* `Fragment.At`: a node is the value of a fragment. It stays so in a graph that has grown.
* `Clauses.At`: the clauses of a request stand for what a chain asks for.
* `Alone`: the only request there is ranges over the table of an entity and joins nothing. It shows
  what the last projection of its groups shows, if there is one.
* `makes_duplicate`: a copy of the value of a fragment is a value of the fragment.
* `compiles_visit`: a scalar expression becomes the value that is written for it, and nothing else
  changes.
-/

namespace EntityQuery

open Sql

/-! ### Nodes of fragments -/

namespace Fragment

open Graph

variable {g h : Graph} {a : AliasId}

mutual
/-- A node is the value of a fragment over a source. -/
def At (g : Graph) (a : AliasId) : Fragment → NodeId → Prop
  | .column path name, n => path = [] ∧ g.Has n (.column a name)
  | .row path, n => path = [] ∧ g.Has n (.row a)
  | .const v, n => g.Has n (.const v)
  | .unary op none, n => g.Has n (.unary op none)
  | .unary op (some e), n => ∃ m, g.Has n (.unary op (some m)) ∧ At g a e m
  | .binary op l r, n => ∃ i j, g.Has n (.binary op i j) ∧ At g a l i ∧ At g a r j
  | .isIn e vs, n => ∃ m ms, g.Has n (.isIn m ms) ∧ At g a e m ∧ AllAt g a vs ms
  | .cond t y z, n => ∃ i j k, g.Has n (.cond i j k) ∧ At g a t i ∧ At g a y j ∧ At g a z k

def AllAt (g : Graph) (a : AliasId) : List Fragment → List NodeId → Prop
  | [], [] => True
  | f :: fs, n :: ns => At g a f n ∧ AllAt g a fs ns
  | _, _ => False
end

mutual
/-- The value of a fragment stays its value. -/
theorem At.later (hgh : g.Extends h) : ∀ {f : Fragment} {n : NodeId}, f.At g a n → f.At h a n
  | .column _ _, _, hn => ⟨hn.1, hn.2.later hgh⟩
  | .row _, _, hn => ⟨hn.1, hn.2.later hgh⟩
  | .const _, _, hn => Has.later hn hgh
  | .unary _ none, _, hn => Has.later hn hgh
  | .unary _ (some _), _, ⟨m, hn, he⟩ => ⟨m, hn.later hgh, he.later hgh⟩
  | .binary _ _ _, _, ⟨i, j, hn, hl, hr⟩ => ⟨i, j, hn.later hgh, hl.later hgh, hr.later hgh⟩
  | .isIn _ _, _, ⟨m, ms, hn, he, hvs⟩ => ⟨m, ms, hn.later hgh, he.later hgh, hvs.later hgh⟩
  | .cond _ _ _, _, ⟨i, j, k, hn, ht, hy, hz⟩ =>
    ⟨i, j, k, hn.later hgh, ht.later hgh, hy.later hgh, hz.later hgh⟩

theorem AllAt.later (hgh : g.Extends h) :
    ∀ {fs : List Fragment} {ns : List NodeId}, AllAt g a fs ns → AllAt h a fs ns
  | [], [], _ => trivial
  | _ :: _, _ :: _, hns => ⟨hns.1.later hgh, hns.2.later hgh⟩
end

/-- A node that may be missing is the value of a fragment that may be missing. -/
def MaybeAt (g : Graph) (a : AliasId) : Option Fragment → Option NodeId → Prop
  | none, none => True
  | some f, some n => f.At g a n
  | _, _ => False

lemma MaybeAt.later (hgh : g.Extends h) :
    ∀ {f : Option Fragment} {n : Option NodeId}, MaybeAt g a f n → MaybeAt h a f n
  | none, none, _ => trivial
  | some _, some _, hn => At.later hgh hn

/-- A node is a column if its fragment is one. -/
lemma At.column_of_isColumn {f : Fragment} {n : NodeId} (hn : f.At g a n) :
    (g.node n).isColumn = true ↔ ∃ name, f = .column [] name := by
  have hother : ∀ {x : Node}, g.Has n x → x.isColumn = false → (g.node n).isColumn = false :=
    fun hx hcolumn => by rw [hx.2, hcolumn]
  cases f with
  | column path name =>
    obtain ⟨rfl, hn⟩ := hn
    rw [hn.2]
    simp [Node.isColumn]
  | row path => simp [hother hn.2 rfl]
  | const v => simp [hother hn rfl]
  | unary op operand =>
    cases operand with
    | none => simp [hother hn rfl]
    | some e =>
      obtain ⟨m, hn, -⟩ := hn
      simp [hother hn rfl]
  | binary op l r =>
    obtain ⟨i, j, hn, -⟩ := hn
    simp [hother hn rfl]
  | isIn e vs =>
    obtain ⟨m, ms, hn, -⟩ := hn
    simp [hother hn rfl]
  | cond t y z =>
    obtain ⟨i, j, k, hn, -⟩ := hn
    simp [hother hn rfl]

end Fragment

/-! ### Clauses -/

/-- The clauses of a request over a source stand for what a chain asks for. -/
structure Clauses.At (K : Clauses) (g : Graph) (a : AliasId) (q : Request) : Prop where
  kind : q.kind = .select
  base : q.base = some a
  joins : q.joins = []
  parent : q.parent = none
  filter : Fragment.MaybeAt g a (Fragment.conjunction? K.tests) q.filter
  having : Fragment.MaybeAt g a (Fragment.conjunction? K.groupTests) q.having
  groups : List.Forall₂ (fun k n => g.Has n (.column a k.1)) K.keys q.groups
  members : q.groupMembers = K.keys.map Prod.snd
  orders : List.Forall₂ (fun k o => o.ascending = k.1 ∧ k.2.At g a o.node) K.orders q.orders
  skip : q.skip = K.skip
  take : q.take = K.take
  distinct : q.distinct = K.distinct

lemma Clauses.At.later {K : Clauses} {g h : Graph} {a : AliasId} {q : Request} (hK : K.At g a q)
    (hgh : g.Extends h) : K.At h a q :=
  { hK with
    filter := hK.filter.later hgh
    having := hK.having.later hgh
    groups := hK.groups.imp fun _ _ hn => hn.later hgh
    orders := hK.orders.imp fun _ _ hn => ⟨hn.1, hn.2.later hgh⟩ }

namespace Compile

open Graph

variable {m : Mapping} {entity : String} {K : Clauses} {V : Selection} {s t u : CompileState}

/-! ### The state -/

/-- Values have been added, and nothing else has changed but what parameters stand for. -/
structure Appends (s t : CompileState) : Prop where
  mapping : t.mapping = s.mapping
  active : t.active = s.active
  computed : t.computed = s.computed
  paths : t.paths = s.paths
  requests : t.graph.requests = s.graph.requests
  aliases : t.graph.aliases.size = s.graph.aliases.size
  bare : ∀ a, (t.graph.aliasOf a).bare = (s.graph.aliasOf a).bare
  graph : s.graph.Extends t.graph

namespace Appends

lemma refl (s : CompileState) : Appends s s := ⟨rfl, rfl, rfl, rfl, rfl, rfl, fun _ => rfl, .refl _⟩

lemma trans (hst : Appends s t) (htu : Appends t u) : Appends s u where
  mapping := htu.mapping.trans hst.mapping
  active := htu.active.trans hst.active
  computed := htu.computed.trans hst.computed
  paths := htu.paths.trans hst.paths
  requests := htu.requests.trans hst.requests
  aliases := htu.aliases.trans hst.aliases
  bare a := (htu.bare a).trans (hst.bare a)
  graph := hst.graph.trans htu.graph

lemma add (s : CompileState) (x : Node) : Appends s { s with graph := (s.graph.add x).2 } where
  mapping := rfl
  active := rfl
  computed := rfl
  paths := rfl
  requests := requests_add _ x
  aliases := by rw [aliases_add]
  bare a := by rw [aliasOf_add]
  graph := extends_add _ x

lemma bind (s : CompileState) (a : AliasId) (p : ParamId) :
    Appends s { s with graph := s.graph.bind a p } where
  mapping := rfl
  active := rfl
  computed := rfl
  paths := rfl
  requests := rfl
  aliases := by simp
  bare b := bare_bind _ a b p
  graph := (Kept.bind s.graph (List.mem_singleton_self a) p : Kept [] [a] _ _).extension

end Appends

/-- What a projection shows: the values it selects, and those its members hold. -/
structure Selection where
  items : List Fragment := []
  values : PropertyTable Fragment := []

/-- Members hold the values of fragments. -/
def Holds (g : Graph) (values : PropertyTable Fragment) (computed : PropertyTable NodeId) : Prop :=
  List.Forall₂ (fun k x => x.1 = k.1 ∧ k.2.At g ⟨0⟩ x.2) values computed

/-- The only request ranges over the table of an entity, which is the only source, and its clauses
stand for what a chain asks for. Own members are read where they are mapped. What is selected is what
the last projection shows. -/
structure Alone (m : Mapping) (entity : String) (K : Clauses) (V : Selection) (s : CompileState) :
    Prop where
  mapping : ∃ table, s.mapping = { m with equivalents := table }
  own : ∀ p, (m.catalog.ownColumn? entity p).isSome = true →
    s.mapping.equivalents.find? p = none ∧ V.values.find? p = none ∧ s.paths.find? p = none
  held : ∀ p, (V.values.find? p).isSome = true → s.paths.find? p = none
  active : s.active = some ⟨0⟩
  computed : Holds s.graph V.values s.computed
  single : s.graph.requests.size = 1
  sole : s.graph.aliases.size = 1
  row : (s.graph.aliasOf ⟨0⟩).entity = some entity
  source : ∃ table, m.catalog.tableName entity = .ok table ∧
    (s.graph.aliasOf ⟨0⟩).origin = .table table
  grouped : K.keys ≠ [] ∨ V.items = []
  items : List.Forall₂ (fun f i => f.At s.graph ⟨0⟩ i.node) V.items (s.graph.request ⟨0⟩).items
  clauses : K.At s.graph ⟨0⟩ (s.graph.request ⟨0⟩)

lemma Holds.later {g h : Graph} {values : PropertyTable Fragment} {computed : PropertyTable NodeId}
    (hc : Holds g values computed) (hgh : g.Extends h) : Holds h values computed :=
  hc.imp fun _ _ hx => ⟨hx.1, hx.2.later hgh⟩

section Tables

variable {g : Graph} {values : PropertyTable Fragment} {computed : PropertyTable NodeId}

/-- A member that holds a value holds the one that is shown. -/
lemma Holds.find? (hc : Holds g values computed) (p : PropertyRef) :
    (values.find? p = none ∧ computed.find? p = none) ∨
      ∃ f n, values.find? p = some f ∧ computed.find? p = some n ∧ f.At g ⟨0⟩ n := by
  induction hc with
  | nil => exact .inl ⟨rfl, rfl⟩
  | @cons k x values computed hx _ ih =>
    simp only [PropertyTable.find?, List.find?_cons, hx.1] at ih ⊢
    cases hsame : k.1.same p with
    | true => exact .inr ⟨k.2, x.2, rfl, rfl, hx.2⟩
    | false => exact ih

lemma Holds.find?_eq_none (hc : Holds g values computed) {p : PropertyRef}
    (hp : values.find? p = none) : computed.find? p = none := by
  obtain ⟨-, hnone⟩ | ⟨f, n, hf, -⟩ := hc.find? p
  · exact hnone
  · rw [hp] at hf
    cases hf

end Tables

lemma Alone.catalog (hs : Alone m entity K V s) : s.mapping.catalog = m.catalog := by
  obtain ⟨table, htable⟩ := hs.mapping
  rw [htable]

lemma Alone.appends (hs : Alone m entity K V s) (hst : Appends s t) : Alone m entity K V t := by
  have hbare := hst.bare ⟨0⟩
  have hrequest : t.graph.request ⟨0⟩ = s.graph.request ⟨0⟩ := by
    rw [Graph.request, hst.requests, Graph.request]
  have hentity := congrArg Alias.entity hbare
  refine ⟨?_, ?_, ?_, ?_, ?_, ?_, ?_, hentity.trans hs.row, ?_, hs.grouped, ?_, ?_⟩
  · rw [hst.mapping]
    exact hs.mapping
  · rw [hst.mapping, hst.paths]
    exact hs.own
  · rw [hst.paths]
    exact hs.held
  · rw [hst.active, hs.active]
  · rw [hst.computed]
    exact hs.computed.later hst.graph
  · rw [hst.requests, hs.single]
  · rw [hst.aliases, hs.sole]
  · rw [Alias.origin_eq_of_bare hbare]
    exact hs.source
  · rw [hrequest]
    exact hs.items.imp fun _ _ hi => hi.later hst.graph
  · rw [hrequest]
    exact hs.clauses.later hst.graph

lemma Alone.widen (hs : Alone m entity K V s) (w : Bool) :
    Alone m entity K V { s with widen := w } := { hs with }

/-! ### Values -/

/-- A value is given, and nothing but values has been added. -/
def Makes (s : CompileState) (f : Fragment) (n : NodeId) (t : CompileState) : Prop :=
  Appends s t ∧ f.At t.graph ⟨0⟩ n

/-- An expression stands for a value. -/
def Made (s : CompileState) (f : Fragment) (x : Meaning) (t : CompileState) : Prop :=
  ∃ n, x = .value n ∧ Makes s f n t

/-- A rule for an expression gives the value that is written for it, and adds nothing but values. -/
def Compiles (m : Mapping) (entity : String) (K : Clauses) (V : Selection) (visit : Visit) (e : Expr)
    (f : Fragment) : Prop :=
  ∀ s, Alone m entity K V s → Ensures (visit e) s (Made s f)

variable {f f' : Fragment} {n : NodeId}

lemma Makes.after (hst : Appends s t) (h : Makes t f n u) : Makes s f n u := ⟨hst.trans h.1, h.2⟩

/-- The active request is the same as before. -/
lemma Makes.back (h : Makes s f n u) : Makes s f n { u with active := s.active } :=
  ⟨h.1.trans ⟨rfl, h.1.active.symm, rfl, rfl, rfl, rfl, fun _ => rfl, .refl _⟩, h.2⟩

lemma made_of_gives {x : Compile NodeId} (h : Ensures x t (Makes s f)) :
    Ensures (Meaning.value <$> x) t (Made s f) := ensures_map.2 (h.mono fun n _ hn => ⟨n, rfl, hn⟩)

/-- A new node is the value of a fragment if its parts are. -/
lemma makes_add {x : Node} (hst : Appends s t)
    (h : ∀ g n, t.graph.Extends g → g.Has n x → f.At g ⟨0⟩ n) : Ensures (add x) t (Makes s f) :=
  ensures_add.2 ⟨hst.trans (.add t x), h _ _ (extends_add _ x) (has_add _ x)⟩

lemma makes_const (v : Value) : Ensures (add (.const v)) s (Makes s (.const v)) :=
  makes_add (.refl s) fun _ _ _ hn => hn

lemma makes_binary {i j : NodeId} (op : BinaryOp) (hst : Appends s t) (hi : f.At t.graph ⟨0⟩ i)
    (hj : f'.At t.graph ⟨0⟩ j) :
    Ensures (add (.binary op i j)) t (Makes s (.binary op f f')) :=
  makes_add hst fun _ _ hg hn => ⟨i, j, hn, hi.later hg, hj.later hg⟩

/-- A bare column becomes a comparison with the truth. -/
lemma makes_condition (hn : f.At s.graph ⟨0⟩ n) :
    Ensures (condition n) s (Makes s f.asCondition) := by
  have hcolumn := hn.column_of_isColumn
  rw [condition, ensures_bind, ensures_graph]
  split
  · next h =>
    obtain ⟨name, rfl⟩ := hcolumn.1 h
    exact (makes_const _).bind fun k t ⟨ht, hk⟩ => makes_binary .equal ht (hn.later ht.graph) hk
  · next h =>
    have hself : f.asCondition = f := by
      cases f with
      | column path name =>
        obtain ⟨rfl, -⟩ := hn
        exact absurd (hcolumn.2 ⟨name, rfl⟩) h
      | _ => rfl
    rw [hself]
    exact ensures_pure.2 ⟨.refl s, hn⟩

/-- Whether navigations drop rows plays no part. -/
lemma made_widening {x : Compile Meaning} (w : Bool)
    (h : Ensures x { s with widen := w } (Made { s with widen := w } f)) :
    Ensures (widening w x) s (Made s f) := by
  rw [ensures_widening]
  refine h.mono ?_
  rintro _ t ⟨n, rfl, ht, hn⟩
  exact ⟨n, rfl, ⟨ht.mapping, ht.active, ht.computed, ht.paths, ht.requests, ht.aliases, ht.bare,
    ht.graph⟩, hn⟩

/-! ### Copies -/

section Copies

open Copy

variable {g : Graph}

/-- A new node of copied parts. -/
lemma after_copied {x : Node} (hst : Appends s t)
    (h : ∀ g n, t.graph.Extends g → g.Has n x → f.At g ⟨0⟩ n) :
    After (liftM (Build.add x) : Copy NodeId) t.graph fun n h =>
      Makes s f n { t with graph := h } :=
  after_lift ⟨hst.trans (.add t x), h _ _ (extends_add _ x) (has_add _ x)⟩

/-- The copy of a node at any depth is made by the rule for nodes. -/
lemma after_readNode {x : Node} (hn : g.Has n x) {Q : NodeId → Graph → Prop}
    (h : ∀ fuel, After (Swap.copyNode {} (g.readNodeWithin (Swap.copying {} g) fuel [])
      (g.readRequestWithin (Swap.copying {} g) fuel []) x {}) s.graph Q) (fuel : Nat) :
    After (g.readNodeWithin (Swap.copying {} g) fuel [] n {}) s.graph Q := by
  cases fuel with
  | zero => exact after_failure
  | succ fuel =>
    rw [readNodeWithin, hn.2]
    exact h fuel

mutual
/-- **A copy of the value of a fragment is a value of the fragment.** -/
theorem after_copy : ∀ (fuel : Nat) {f : Fragment} {n : NodeId} {s : CompileState},
    f.At g ⟨0⟩ n → g.Extends s.graph →
      After (g.readNodeWithin (Swap.copying {} g) fuel [] n {}) s.graph fun k h =>
        Makes s f k { s with graph := h }
  | fuel, .column path name, _, s, ⟨hpath, hn⟩, _ => by
    refine after_readNode hn (fun _ => ?_) fuel
    exact after_copied (f := .column path name) (.refl s) fun _ _ _ hk => ⟨hpath, hk⟩
  | fuel, .row path, _, s, ⟨hpath, hn⟩, _ => by
    refine after_readNode hn (fun _ => ?_) fuel
    exact after_copied (f := .row path) (.refl s) fun _ _ _ hk => ⟨hpath, hk⟩
  | fuel, .const v, _, s, hn, _ => by
    refine after_readNode hn (fun _ => ?_) fuel
    exact after_copied (f := .const v) (.refl s) fun _ _ _ hk => hk
  | fuel, .unary op none, _, s, hn, _ => by
    refine after_readNode hn (fun _ => ?_) fuel
    exact after_copied (f := .unary op none) (.refl s) fun _ _ _ hk => hk
  | fuel, .unary _ (some _), _, _, ⟨_, hn, he⟩, hgs => by
    refine after_readNode hn (fun fuel => ?_) fuel
    refine (after_copy fuel he hgs).bind fun i h ⟨hi, hif⟩ => ?_
    exact after_copied hi fun _ _ hh hk => ⟨i, hk, hif.later hh⟩
  | fuel, .binary _ _ _, _, s, ⟨_, _, hn, hl, hr⟩, hgs => by
    refine after_readNode hn (fun fuel => ?_) fuel
    refine (after_copy fuel hl hgs).bind fun i h ⟨hi, hif⟩ => ?_
    have hgh := hgs.trans hi.graph
    refine (after_copy (s := { s with graph := h }) fuel hr hgh).bind fun j h' ⟨hj, hjf⟩ => ?_
    exact after_copied (hi.trans hj) fun _ _ hh hk =>
      ⟨i, j, hk, (hif.later hj.graph).later hh, hjf.later hh⟩
  | fuel, .isIn _ _, _, s, ⟨_, _, hn, he, hvs⟩, hgs => by
    refine after_readNode hn (fun fuel => ?_) fuel
    refine (after_copy fuel he hgs).bind fun i h ⟨hi, hif⟩ => ?_
    have hgh := hgs.trans hi.graph
    refine (after_copies (s := { s with graph := h }) fuel hvs hgh).bind fun js h' ⟨hjs, hjf⟩ => ?_
    exact after_copied (hi.trans hjs) fun _ _ hh hk =>
      ⟨i, js, hk, (hif.later hjs.graph).later hh, hjf.later hh⟩
  | fuel, .cond _ _ _, _, s, ⟨_, _, _, hn, ht, hy, hz⟩, hgs => by
    refine after_readNode hn (fun fuel => ?_) fuel
    refine (after_copy fuel ht hgs).bind fun i h ⟨hi, hif⟩ => ?_
    have hgh := hgs.trans hi.graph
    refine (after_copy (s := { s with graph := h }) fuel hy hgh).bind fun j h' ⟨hj, hjf⟩ => ?_
    have hgh' := hgh.trans hj.graph
    refine (after_copy (s := { s with graph := h' }) fuel hz hgh').bind fun k h'' ⟨hk, hkf⟩ => ?_
    exact after_copied ((hi.trans hj).trans hk) fun _ _ hh hn => ⟨i, j, k, hn,
      ((hif.later hj.graph).later hk.graph).later hh, (hjf.later hk.graph).later hh, hkf.later hh⟩

theorem after_copies : ∀ (fuel : Nat) {fs : List Fragment} {ns : List NodeId} {s : CompileState},
    Fragment.AllAt g ⟨0⟩ fs ns → g.Extends s.graph →
      After (ns.mapM fun n => g.readNodeWithin (Swap.copying {} g) fuel [] n {}) s.graph fun ks h =>
        Appends s { s with graph := h } ∧ Fragment.AllAt h ⟨0⟩ fs ks
  | _, [], [], s, _, _ => after_pure ⟨.refl s, trivial⟩
  | fuel, _ :: _, _ :: _, s, ⟨hn, hns⟩, hgs => by
    rw [List.mapM_cons]
    refine (after_copy fuel hn hgs).bind fun k h ⟨hk, hkf⟩ => ?_
    have hgh := hgs.trans hk.graph
    refine (after_copies (s := { s with graph := h }) fuel hns hgh).bind fun ks h' ⟨hks, hksf⟩ => ?_
    exact after_pure ⟨hk.trans hks, hkf.later hks.graph, hksf⟩
end

/-- A copy of a value. -/
lemma makes_duplicate (hn : f.At s.graph ⟨0⟩ n) (e : Expr) : Ensures (duplicate e n) s (Makes s f) := by
  rw [duplicate, ensures_bind, ensures_build]
  cases hrun : (Build.duplicate n).run s.graph with
  | mk k h =>
    cases k with
    | none => exact ensures_reject
    | some k =>
      exact ensures_pure.2 (after_copy _ hn (.refl _) k h (Build.run_copy_eq_some.1 hrun))

end Copies

section Value

variable {visit : Visit} {e : Expr} (he : Compiles m entity K V visit e f)
  (hs : Alone m entity K V s)
include he hs

lemma makes_value : Ensures (value visit e) s (Makes s f) := by
  rw [value, ensures_get_bind]
  refine (he s hs).bind ?_
  rintro _ t ⟨n, rfl, hn⟩
  have hactive : s.active.isSome = true := by rw [hs.active]; rfl
  simp only [hactive, if_true]
  rw [ensures_bind, ensures_modify]
  exact ensures_pure.2 hn.back

lemma makes_test : Ensures (do condition (← value visit e)) s (Makes s f.asCondition) :=
  (makes_value he hs).bind fun _ _ ⟨ht, hn⟩ => (makes_condition hn).mono fun _ _ hk => hk.after ht

end Value

/-! ### Forms of scalar expressions -/

section Forms

variable {visit : Visit} (hs : Alone m entity K V s)
include hs

lemma made_constant (e : Expr) (l : Literal) :
    Ensures (constant e l) s (Made s (Expr.constant m.catalog l)) := by
  cases l with
  | value v => exact made_of_gives (makes_const v)
  | list vs => exact ensures_reject
  | entity name fields =>
    change Ensures (get >>= _) s _
    rw [ensures_get_bind, hs.catalog, Expr.constant]
    split
    · exact ensures_reject
    · next id hid =>
      rw [hid]
      dsimp only
      split
      · next v hv =>
        rw [hv]
        exact made_of_gives (makes_const v)
      · exact ensures_reject

variable {l r : Expr} {fl fr : Fragment} (hl : Compiles m entity K V visit l fl)
  (hr : Compiles m entity K V visit r fr)

include hl

lemma made_not (e : Expr) :
    Ensures (unary visit e .not l) s (Made s (.unary .not (some fl.asCondition))) := by
  rw [unary, ← bind_assoc]
  refine (makes_test hl hs).bind fun i t ⟨ht, hi⟩ => ?_
  exact made_of_gives (makes_add ht fun _ _ hg hn => ⟨i, hn, hi.later hg⟩)

include hr

lemma made_binary (e : Expr) (op : BinaryOperator) :
    Ensures (binary visit e op l r) s (Made s
      (match sqlOperator? op (l.type.isTextual || r.type.isTextual) with
      | some o => if op.isLogical then .binary o fl.asCondition fr.asCondition else .binary o fl fr
      | none => .const .null)) := by
  unfold binary
  cases hop : sqlOperator? op (l.type.isTextual || r.type.isTextual) with
  | none => exact ensures_reject
  | some o =>
    dsimp only
    rw [ensures_get_bind]
    refine made_widening _ ?_
    have hs := hs.widen (s.widen || op == .or)
    refine (makes_value hl hs).bind fun i t ⟨ht, hi⟩ => ?_
    refine (makes_value hr (hs.appends ht)).bind fun j u ⟨hu, hj⟩ => ?_
    have hi := hi.later hu.graph
    split
    · refine (makes_condition hi).bind fun i' v ⟨hv, hi'⟩ => ?_
      refine (makes_condition (hj.later hv.graph)).bind fun j' w ⟨hw, hj'⟩ => ?_
      have hbase := (ht.trans hu).trans (hv.trans hw)
      exact made_of_gives (makes_binary o hbase (hi'.later hw.graph) hj')
    · exact made_of_gives (makes_binary o (ht.trans hu) hi hj)

lemma made_like (e : Expr) (before after : Bool) :
    Ensures (like visit e before after l [l, r]) s (Made s (.likeText before after fl fr)) := by
  refine (makes_value hl hs).bind fun i t ⟨ht, hi⟩ => ?_
  rw [show argument e [l, r] 1 = pure r from rfl, pure_bind]
  refine (makes_value hr (hs.appends ht)).bind fun j u ⟨hu, hj⟩ => ?_
  have hbase := ht.trans hu
  have hi := hi.later hu.graph
  -- the rest of the pattern is built already
  have hpattern : ∀ f k v, Appends u v → f.At v.graph ⟨0⟩ k → Ensures (do
        let pattern ← if before = true then concat (← wildcard) k else pure k
        Meaning.value <$> add (.binary .like i pattern)) v
      (Made s (.binary .like fl
        (if before = true then .binary .concat (.const (.string "%")) f else f))) := by
    intro f k v hv hk
    split
    · refine (makes_const (.string "%")).bind fun w x ⟨hx, hw⟩ => ?_
      refine (makes_binary .concat (.refl x) hw (hk.later hx.graph)).bind fun p y ⟨hy, hp⟩ => ?_
      have hxy := hx.trans hy
      exact made_of_gives (makes_binary .like ((hbase.trans hv).trans hxy)
        ((hi.later hv.graph).later hxy.graph) hp)
    · rw [pure_bind]
      exact made_of_gives (makes_binary .like (hbase.trans hv) (hi.later hv.graph) hk)
  unfold Fragment.likeText
  dsimp only
  split
  · refine (makes_const (.string "%")).bind fun w x ⟨hx, hw⟩ => ?_
    refine (makes_binary .concat (.refl x) (hj.later hx.graph) hw).bind fun p y ⟨hy, hp⟩ => ?_
    exact hpattern _ p y (hx.trans hy) hp
  · exact hpattern fr j u (.refl u) hj

/-- A part of a text, or a member of a list of the values that are not null. -/
lemma made_contains (e : Expr) :
    Ensures (contains visit e l [l, r]) s (Made s
      (if l.type.isTextual then .likeText true true fl fr else Expr.memberOf fr l)) := by
  have hvalues : ∀ (ws : List Value) t, Ensures (ws.mapM fun v => add (.const v)) t fun ns u =>
      Appends t u ∧ Fragment.AllAt u.graph ⟨0⟩ (ws.map .const) ns := by
    intro ws
    induction ws with
    | nil => exact fun t => ensures_pure.2 ⟨.refl t, trivial⟩
    | cons w ws ih =>
      intro t
      rw [List.mapM_cons]
      refine (makes_const w).bind fun n u ⟨hu, hn⟩ => ?_
      refine (ih u).bind fun ns v ⟨hv, hns⟩ => ensures_pure.2 ⟨hu.trans hv, ?_, hns⟩
      exact Fragment.At.later hv.graph hn
  rw [contains, show argument e [l, r] 1 = pure r from rfl, pure_bind]
  split
  · exact made_like hs hl hr e true true
  · split
    · next vs =>
      refine (makes_value hr hs).bind fun j t ⟨ht, hj⟩ => ?_
      refine (hvalues _ t).bind fun ns u ⟨hu, hns⟩ => made_of_gives (makes_add (ht.trans hu) ?_)
      exact fun g n hg hn => ⟨j, ns, hn, (hj.later hu.graph).later hg, hns.later hg⟩
    · exact ensures_reject

lemma made_conditional {k : Expr} {fk : Fragment} (hk : Compiles m entity K V visit k fk) :
    Ensures (conditional visit k l r) s (Made s (.cond fk.asCondition fl fr)) := by
  rw [conditional, ← bind_assoc]
  refine (makes_test hk hs).bind fun i t ⟨ht, hi⟩ => ?_
  refine (makes_value hl (hs.appends ht)).bind fun j u ⟨hu, hj⟩ => ?_
  have hbase := ht.trans hu
  refine (makes_value hr (hs.appends hbase)).bind fun z v ⟨hv, hz⟩ =>
    made_of_gives (makes_add (hbase.trans hv) ?_)
  intro g n hg hn
  exact ⟨i, j, z, hn, ((hi.later hu.graph).later hv.graph).later hg, (hj.later hv.graph).later hg,
    hz.later hg⟩

end Forms

/-! ### Scalar expressions -/

/-- **A scalar expression becomes the value that is written for it** if its leaves do, by induction on
its nesting. -/
theorem compiles_visit {leaf : Expr → Option Fragment}
    (hleaf : ∀ fuel e f, leaf e = some f → Compiles m entity K V (visit [] fuel) e f) (fuel : Nat) :
    ∀ e, e.isScalar leaf = true →
      Compiles m entity K V (visit [] fuel) e (e.written leaf m.catalog) := by
  induction fuel with
  | zero => exact fun _ _ _ _ => ensures_reject
  | succ fuel ih =>
    intro e he s hs
    cases hf : leaf e with
    | some f =>
      have hwritten : e.written leaf m.catalog = f := by rw [Expr.written.eq_def, hf]; rfl
      rw [hwritten]
      exact hleaf (fuel + 1) e f hf s hs
    | none =>
      rw [Expr.isScalar.eq_def, hf] at he
      rw [Expr.written.eq_def, hf]
      change Ensures (step (visit [] fuel) e) s _
      cases e with
      | const l => exact made_constant hs _ l
      | binary op l r =>
        obtain ⟨hl, hr⟩ := Bool.and_eq_true_iff.1 he
        exact made_binary hs (ih l hl) (ih r hr) _ op
      | unary op operand =>
        cases op with
        | not => exact made_not hs (ih operand he) (.unary .not operand)
        | convert => exact ih operand he s hs
        | negate => exact ensures_reject
      | cond k l r =>
        obtain ⟨hkl, hr⟩ := Bool.and_eq_true_iff.1 he
        obtain ⟨hk, hl⟩ := Bool.and_eq_true_iff.1 hkl
        exact made_conditional hs (ih l hl) (ih r hr) (ih k hk)
      | call method args =>
        rcases args with _ | ⟨l, _ | ⟨r, _ | ⟨x, rest⟩⟩⟩
        · cases method <;> cases he
        · cases method <;> cases he
        · cases method with
          | contains =>
            obtain ⟨hl, hr⟩ := Bool.and_eq_true_iff.1 he
            exact made_contains hs (ih l hl) (ih r hr) _
          | startsWith =>
            obtain ⟨hl, hr⟩ := Bool.and_eq_true_iff.1 he
            exact made_like hs (ih l hl) (ih r hr) _ false true
          | endsWith =>
            obtain ⟨hl, hr⟩ := Bool.and_eq_true_iff.1 he
            exact made_like hs (ih l hl) (ih r hr) _ true false
          | _ => cases he
        · cases method <;> cases he
      | _ => cases he

end Compile

end EntityQuery
