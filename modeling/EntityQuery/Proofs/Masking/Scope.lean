import EntityQuery.Proofs.Compile.Runs
import EntityQuery.Proofs.Masking.Mapping

/-!
Compilation steps that do not look at the contents of constants.

* Two states are alike if they differ in the contents of constants only.
* `Blind R x y`: from states that are alike, the steps `x` and `y` both fail with one fault, or both
  succeed with results in `R` and with states that are alike.
* Everything that rules do with the state is blind. A mask itself is not kept: rules add constants
  of their own.
-/

namespace EntityQuery

open Sql

/-! ### States that are alike -/

namespace Sql.Graph

/-- Graphs that differ in the contents of constants only. -/
def Alike (g h : Graph) : Prop := g.mask = h.mask

namespace Alike

variable {g h : Graph}

lemma request (hg : g.Alike h) (r : RequestId) : g.request r = h.request r := by
  rw [← request_mask g, hg, request_mask]

lemma aliasOf (hg : g.Alike h) (a : AliasId) : g.aliasOf a = h.aliasOf a := by
  rw [← aliasOf_mask g, hg, aliasOf_mask]

lemma node (hg : g.Alike h) (n : NodeId) : (g.node n).mask = (h.node n).mask := by
  rw [← node_mask g, hg, node_mask]

/-- A node is the same, or a constant in both graphs. -/
lemma node_eq_or_const (hg : g.Alike h) (n : NodeId) :
    g.node n = h.node n ∨ ∃ v v', g.node n = .const v ∧ h.node n = .const v' := by
  have hmask := hg.node n
  cases hn : g.node n <;> cases hm : h.node n <;> simp_all [Node.mask]

lemma isColumn (hg : g.Alike h) (n : NodeId) : (g.node n).isColumn = (h.node n).isColumn := by
  rw [← Node.isColumn_mask, hg.node, Node.isColumn_mask]

lemma requestOver? (hg : g.Alike h) (r : RequestId) (a : AliasId) :
    g.requestOver? r a = h.requestOver? r a := by
  rw [← requestOver?_mask g, hg, requestOver?_mask]

lemma aliasFor? (hg : g.Alike h) (r : RequestId) (p : ParamId) :
    g.aliasFor? r p = h.aliasFor? r p := by
  rw [← aliasFor?_mask g, hg, aliasFor?_mask]

lemma outermost (hg : g.Alike h) (r : RequestId) : g.outermost r = h.outermost r := by
  rw [← outermost_mask g, hg, outermost_mask]

lemma edit {f : Graph → Graph} (hg : g.Alike h) (hf : ∀ g : Graph, f g.mask = (f g).mask) :
    (f g).Alike (f h) := by
  rw [Alike, ← hf, hg, hf]

end Alike

end Sql.Graph

/-- States that differ in the contents of constants only. -/
structure CompileState.Alike (s t : CompileState) : Prop where
  mapping : s.mapping.mask = t.mapping.mask
  graph : s.graph.Alike t.graph
  active : s.active = t.active
  widen : s.widen = t.widen
  paths : s.paths = t.paths
  computed : s.computed = t.computed
  hints : s.hints = t.hints

namespace CompileState.Alike

variable {s t : CompileState}

lemma catalog (h : s.Alike t) : s.mapping.catalog = t.mapping.catalog := by
  rw [← s.mapping.catalog_mask, h.mapping, Mapping.catalog_mask]

lemma withGraph (h : s.Alike t) {g g' : Graph} (hg : g.Alike g') :
    CompileState.Alike { s with graph := g } { t with graph := g' } := { h with graph := hg }

end CompileState.Alike

namespace Compile

variable {α β : Type}

/-- Outcomes of the same kind: one fault, or related results and states that are alike. -/
inductive Agree (R : α → α → Prop) :
    Except CompileError α × CompileState → Except CompileError α × CompileState → Prop
  | ok {a b : α} {s t : CompileState} (h : R a b) (hs : s.Alike t) : Agree R (.ok a, s) (.ok b, t)
  | error {e e' : CompileError} {s t : CompileState} (h : e.fault = e'.fault) :
      Agree R (.error e, s) (.error e', t)

/-- Two steps do the same, from states that are alike, up to the contents of constants. -/
def Blind (R : α → α → Prop) (x y : Compile α) : Prop :=
  ∀ s t : CompileState, s.Alike t → Agree R (x.run.run s) (y.run.run t)

/-! ### Steps in general -/

namespace Blind

variable {R : α → α → Prop} {S : β → β → Prop}

lemma pure {a b : α} (h : R a b) : Blind R (Pure.pure a) (Pure.pure b) := fun _ _ hs => .ok h hs

lemma bind {x y : Compile α} {k k' : α → Compile β} (h : Blind R x y)
    (hk : ∀ a b, R a b → Blind S (k a) (k' b)) : Blind S (x >>= k) (y >>= k') := by
  intro s t hs
  rw [run_bind, run_bind]
  generalize x.run.run s = o, y.run.run t = o', h s t hs = hagree
  cases hagree with
  | ok hab hs => exact hk _ _ hab _ _ hs
  | error hf => exact .error hf

/-- Steps that give one result, followed by steps that use it. -/
lemma seq {x y : Compile α} {k k' : α → Compile β} (h : Blind Eq x y)
    (hk : ∀ a, Blind S (k a) (k' a)) : Blind S (x >>= k) (y >>= k') :=
  h.bind fun a _ hab => hab ▸ hk a

lemma get_bind {k k' : CompileState → Compile β}
    (h : ∀ s t : CompileState, s.Alike t → Blind S (k s) (k' t)) :
    Blind S (get >>= k) (get >>= k') := fun s t hs => h s t hs s t hs

lemma map {x y : Compile α} {h : α → β} (hx : Blind Eq x y) : Blind Eq (h <$> x) (h <$> y) := by
  rw [map_eq_pure_bind, map_eq_pure_bind]
  exact hx.seq fun a => .pure rfl

lemma reject {e e' : Expr} {c c' : Cause} (h : c.fault = c'.fault) :
    Blind R (Compile.reject e c) (Compile.reject e' c') := fun _ _ _ => .error h

lemma reject_bind {e e' : Expr} {c c' : Cause} {k k' : α → Compile β} (h : c.fault = c'.fault) :
    Blind S (Compile.reject e c >>= k) (Compile.reject e' c' >>= k') := fun _ _ _ => .error h

lemma throwMapping (e : MappingError) :
    Blind R (throw (CompileError.mapping e)) (throw (CompileError.mapping e)) :=
  fun _ _ _ => .error rfl

lemma modify {f f' : CompileState → CompileState}
    (h : ∀ s t : CompileState, s.Alike t → (f s).Alike (f' t)) :
    Blind Eq (modify f) (modify f') := fun s t hs => .ok rfl (h s t hs)

lemma forM {c : α → α} {f f' : α → Compile PUnit} {as as' : List α} (has : as' = as.map c)
    (h : ∀ a, Blind Eq (f a) (f' (c a))) : Blind Eq (as.forM f) (as'.forM f') := by
  subst has
  induction as with
  | nil => exact .pure rfl
  | cons a as ih => exact (h a).seq fun _ => ih

lemma mapM {c : α → α} {f f' : α → Compile β} {as as' : List α} (has : as' = as.map c)
    (h : ∀ a, Blind Eq (f a) (f' (c a))) : Blind Eq (as.mapM f) (as'.mapM f') := by
  subst has
  induction as with
  | nil => exact .pure rfl
  | cons a as ih =>
    rw [List.map_cons, List.mapM_cons, List.mapM_cons]
    exact (h a).seq fun b => ih.seq fun bs => .pure rfl

end Blind

/-! ### The state -/

lemma blind_ask {f : Catalog → Except MappingError α} : Blind Eq (ask f) (ask f) := by
  refine .get_bind fun s t hs => ?_
  rw [hs.catalog]
  cases f t.mapping.catalog with
  | ok a => exact .pure rfl
  | error e => exact .throwMapping e

lemma blind_graph : Blind Graph.Alike graph graph := .get_bind fun _ _ hs => .pure hs.graph

lemma blind_request (r : RequestId) : Blind Eq (request r) (request r) :=
  blind_graph.bind fun _ _ hg => .pure (hg.request r)

/-- Extensions of a graph that are the same on the masked graph. -/
lemma blind_build {x y z : Build α} (hx : Sql.Blind x z) (hy : Sql.Blind y z) :
    Blind Eq (build x) (build y) := by
  intro s t hs
  have h : ((x.run s.graph).1, (x.run s.graph).2.mask) =
      ((y.run t.graph).1, (y.run t.graph).2.mask) :=
    (hx s.graph).symm.trans ((congrArg z.run hs.graph).trans (hy t.graph))
  obtain ⟨hfst, hsnd⟩ := Prod.mk.inj h
  exact .ok hfst (hs.withGraph hsnd)

lemma blind_add {node node' : Node} (h : node.mask = node'.mask) :
    Blind Eq (add node) (add node') :=
  blind_build (h ▸ Build.blind_add node) (Build.blind_add node')

lemma blind_edit {f : Graph → Graph} (hf : ∀ g : Graph, f g.mask = (f g).mask) :
    Blind Eq (edit f) (edit f) := .modify fun _ _ hs => hs.withGraph (hs.graph.edit hf)

lemma blind_editRequest (r : RequestId) (f : Request → Request) :
    Blind Eq (editRequest r f) (editRequest r f) := blind_edit fun g => g.modifyRequest_mask r f

lemma blind_duplicate (e e' : Expr) (n : NodeId) : Blind Eq (duplicate e n) (duplicate e' n) := by
  have h := Build.blind_duplicate n
  refine (blind_build h h).seq fun m => ?_
  cases m with
  | some m => exact .pure rfl
  | none => exact .reject rfl

/-! ### Scopes -/

lemma blind_active (e e' : Expr) : Blind Eq (active e) (active e') := by
  refine .get_bind fun s t hs => ?_
  rw [hs.active]
  cases t.active with
  | some r => exact .pure rfl
  | none => exact .reject rfl

lemma blind_setActive (r : RequestId) : Blind Eq (setActive r) (setActive r) :=
  .modify fun _ _ hs => { hs with active := rfl }

/-- Goes back to the request that was being built. -/
lemma blind_restore {s t : CompileState} (hs : s.Alike t) :
    Blind Eq (modify ({ · with active := s.active })) (modify ({ · with active := t.active })) :=
  .modify fun _ _ h => { h with active := hs.active }

lemma blind_leave (r : RequestId) : Blind Eq (leave r) (leave r) := by
  refine (blind_request r).seq fun q => ?_
  split
  · exact blind_setActive _
  · exact .pure rfl

lemma blind_within {R : α → α → Prop} {x y : Compile α} (r : RequestId) (h : Blind R x y) :
    Blind R (within r x) (within r y) := by
  refine .get_bind fun s t hs => (blind_setActive r).seq fun _ => h.bind fun a b hab => ?_
  exact (blind_restore hs).seq fun _ => .pure hab

lemma blind_widening {R : α → α → Prop} {x y : Compile α} (widen : Bool) (h : Blind R x y) :
    Blind R (widening widen x) (widening widen y) := by
  refine .get_bind fun s t hs => ?_
  refine Blind.seq (.modify fun _ _ h => { h with widen := rfl }) fun _ => ?_
  refine h.bind fun a b hab => ?_
  exact Blind.seq (.modify fun _ _ h => { h with widen := hs.widen }) fun _ => .pure hab

/-! ### Values -/

lemma blind_valueOf (m : Meaning) : Blind Eq (valueOf m) (valueOf m) := by
  cases m with
  | value n => exact .pure rfl
  | row a => exact blind_add rfl
  | query r => exact blind_add rfl

lemma blind_condition (n : NodeId) : Blind Eq (condition n) (condition n) := by
  refine blind_graph.bind fun g h hg => ?_
  rw [hg.isColumn]
  split
  · exact (blind_add rfl).seq fun truth => blind_add rfl
  · exact .pure rfl

/-- A rule for expressions that does not look at the contents of constants. -/
def BlindVisit (visit : Visit) : Prop := ∀ e : Expr, Blind Eq (visit e) (visit e.mask)

section Visit

variable {visit : Visit} (hv : BlindVisit visit)
include hv

lemma blind_value (e : Expr) : Blind Eq (value visit e) (value visit e.mask) := by
  refine .get_bind fun s t hs => (hv e).seq fun m => ?_
  rw [hs.active]
  cases t.active with
  | none => exact blind_valueOf m
  | some r =>
    refine Blind.seq (.modify fun _ _ h => { h with active := rfl }) fun _ => ?_
    exact blind_valueOf m

lemma blind_rowValue (e : Expr) : Blind Eq (rowValue visit e) (rowValue visit e.mask) := by
  refine (hv e).seq fun m => ?_
  cases m with
  | row a => exact .pure rfl
  | value n => exact .reject rfl
  | query r => exact .reject rfl

end Visit

/-! ### Projected members -/

lemma blind_setPath (p : PropertyRef) (path : List PropertyRef) :
    Blind Eq (setPath p path) (setPath p path) := by
  have hrecord : Blind Eq (setPath.record p path) (setPath.record p path) :=
    .modify fun _ _ hs =>
      { hs with computed := by rw [hs.computed], paths := by rw [hs.paths] }
  unfold setPath
  split
  · split
    · exact .pure rfl
    · exact hrecord
  · exact hrecord

lemma blind_setComputed (p : PropertyRef) (n : NodeId) :
    Blind Eq (setComputed p n) (setComputed p n) :=
  .modify fun _ _ hs => { hs with computed := by rw [hs.computed], paths := by rw [hs.paths] }

/-! ### Members -/

lemma blind_resolveStep (r : RequestId) (a : AliasId) (p : PropertyRef) :
    Blind Eq (resolveStep r a p) (resolveStep r a p) := by
  intro s t hs
  have h : (((s.mapping.resolve r a p s.widen).run.run s.graph).1,
        ((s.mapping.resolve r a p s.widen).run.run s.graph).2.mask) =
      (((t.mapping.resolve r a p t.widen).run.run t.graph).1,
        ((t.mapping.resolve r a p t.widen).run.run t.graph).2.mask) := by
    refine (s.mapping.blind_resolve r a p s.widen s.graph).symm.trans ?_
    rw [hs.mapping, hs.graph, hs.widen]
    exact t.mapping.blind_resolve r a p t.widen t.graph
  rw [run_resolveStep, run_resolveStep]
  generalize (s.mapping.resolve r a p s.widen).run.run s.graph = o at h
  generalize (t.mapping.resolve r a p t.widen).run.run t.graph = o' at h
  obtain ⟨result, g⟩ := o
  obtain ⟨result', g'⟩ := o'
  obtain ⟨rfl, hg⟩ := Prod.mk.inj h
  rcases result with e | (n | b)
  · exact .error rfl
  · exact .ok rfl (hs.withGraph hg)
  · exact .ok rfl (hs.withGraph hg)

lemma blind_follow (e e' : Expr) (r : RequestId) (path : List PropertyRef) (m : Meaning) :
    Blind Eq (follow e r m path) (follow e' r m path) := by
  induction path generalizing m with
  | nil => exact .pure rfl
  | cons p path ih =>
    cases m with
    | row a => exact (blind_resolveStep r a p).seq fun m => ih m
    | value n => exact .reject rfl
    | query q => exact .reject rfl

lemma blind_resolveMember (e e' : Expr) (a : AliasId) (p : PropertyRef) :
    Blind Eq (resolveMember e a p) (resolveMember e' a p) := by
  refine (blind_active e e').seq fun r => .get_bind fun s t hs => .get_bind fun s' t' hs' => ?_
  rw [hs.paths, hs'.computed]
  split
  · exact .reject rfl
  · exact .map (blind_duplicate e e' _)
  · exact blind_follow e e' r _ _

/-! ### Rows -/

/-- The base of a request, if there is one. -/
lemma blind_base (e e' : Expr) (o : Option AliasId) :
    Blind Eq (match o with | some a => pure a | none => reject e .noBase)
      (match o with | some a => pure a | none => reject e' .noBase) := by
  cases o with
  | some a => exact .pure rfl
  | none => exact .reject rfl

lemma blind_rowOf (e e' : Expr) (r : RequestId) : Blind Eq (rowOf e r) (rowOf e' r) := by
  refine blind_graph.bind fun g h hg => ?_
  rw [hg.request]
  dsimp only
  rcases (h.request r).items with _ | ⟨i, _ | ⟨j, rest⟩⟩
  · exact blind_base e e' _
  · -- a selected constant is a row in neither graph
    dsimp only
    rcases hg.node_eq_or_const i.node with hn | ⟨v, v', hn, hn'⟩
    · rw [hn]
      exact blind_base e e' _
    · rw [hn, hn']
      exact blind_base e e' _
  · exact blind_base e e' _

lemma blind_enter (e e' : Expr) (r : RequestId) (f : Expr) :
    Blind (fun b b' => b' = b.mask) (enter e r f) (enter e' r f.mask) := by
  cases f with
  | lambda ps body =>
    unfold enter
    rw [Expr.mask]
    dsimp only
    split
    · refine (blind_rowOf e e' r).seq fun a => ?_
      exact (blind_edit fun g => g.bind_mask a _).seq fun _ => .pure rfl
    · exact .reject rfl
  | _ => exact .reject rfl

lemma blind_argument (e e' : Expr) {args args' : List Expr} {f : Expr → Expr} {index : Nat}
    (h : args'[index]? = args[index]?.map f) :
    Blind (fun b b' => b' = f b) (argument e args index) (argument e' args' index) := by
  unfold argument
  rw [h]
  cases args[index]? with
  | some a => exact .pure rfl
  | none => exact .reject rfl

lemma blind_takeJoin (e e' : Expr) (r : RequestId) (a : AliasId) :
    Blind Eq (takeJoin e r a) (takeJoin e' r a) := by
  have htake : Sql.Blind (m := Id) (modifyGet (·.takeJoin r a)) (modifyGet (·.takeJoin r a)) :=
    Blind.modifyGet fun g => g.takeJoin_mask r a
  refine (blind_build htake htake).seq fun j => ?_
  cases j with
  | some j => exact .pure rfl
  | none => exact .reject rfl

lemma blind_hoist (e e' : Expr) (a : AliasId) : Blind Eq (hoist e a) (hoist e' a) := by
  refine (blind_active e e').seq fun outer => blind_graph.bind fun g h hg => ?_
  rw [hg.aliasOf]
  refine (blind_takeJoin e e' outer a).seq fun first => ?_
  have hlink : Blind Eq ((h.aliasOf a).via?.mapM (takeJoin e outer))
      ((h.aliasOf a).via?.mapM (takeJoin e' outer)) := by
    cases (h.aliasOf a).via? with
    | none => exact .pure rfl
    | some link => exact .map (blind_takeJoin e e' outer link)
  refine hlink.seq fun link => ?_
  have hnew := Build.blind_addRequest (some outer)
  refine (blind_build hnew hnew).seq fun r => (blind_editRequest r _).seq fun _ => ?_
  cases link with
  | some last =>
    refine (blind_edit fun g => g.pushJoin_mask r _).seq fun _ => ?_
    exact (blind_edit fun g => g.andFilter_mask r _).seq fun _ => .pure rfl
  | none => exact (blind_edit fun g => g.andFilter_mask r _).seq fun _ => .pure rfl

lemma blind_receiver {visit : Visit} (hv : BlindVisit visit) (e e' arg : Expr) :
    Blind Eq (receiver visit e arg) (receiver visit e' arg.mask) := by
  refine (hv arg).seq fun m => ?_
  cases m with
  | query r => exact .pure rfl
  | value n => exact .reject rfl
  | row a =>
    refine (blind_active e e').seq fun r => blind_graph.bind fun g h hg => ?_
    rw [hg.requestOver?]
    split
    · exact .pure rfl
    · exact blind_hoist e e' a

end Compile

end EntityQuery
