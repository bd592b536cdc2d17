import EntityQuery.Proofs.Compile.Ensures
import EntityQuery.Proofs.Registry.Basic

/-!
Compilation steps over mappings that cannot be told apart.

* `Discipline`: properties that may be read and filled, and mappings that agree on what may be read as
  long as only what may be filled is registered.
* `Agrees d x`: over two such mappings the steps `x` have one outcome, a failure included, and leave two
  such mappings.
* Everything that rules do with the state agrees, as long as the members they resolve may be read.
-/

namespace EntityQuery

open Sql

/-- What expressions may read and fill, and the mappings they cannot tell apart. -/
structure Discipline where
  reads : PropertyRef → Bool
  fills : PropertyRef → Bool
  Alike : Mapping → Mapping → Prop
  catalog : ∀ {m n}, Alike m n → m.catalog = n.catalog
  keys : ∀ {m n}, Alike m n → m.readsReferenceKeys = n.readsReferenceKeys
  resolve : ∀ {m n p}, Alike m n → reads p = true →
    ∀ r a widen, m.resolve r a p widen = n.resolve r a p widen
  register : ∀ {m n p}, Alike m n → fills p = true → ∀ g k, Alike (m.register g p k) (n.register g p k)

/-- A state over another mapping. -/
def CompileState.over (s : CompileState) (m : Mapping) : CompileState := { s with mapping := m }

namespace Discipline

variable (d : Discipline) {α β : Type} {s : CompileState} {m : Mapping}

/-- The mapping of a state and another one cannot be told apart; projected members were read from paths
that may be read. -/
structure Holds (s : CompileState) (m : Mapping) : Prop where
  alike : d.Alike s.mapping m
  paths : ∀ row ∈ s.paths, ∀ p ∈ row.2, d.reads p = true

/-- Steps that have one outcome over mappings that cannot be told apart. -/
def Agrees (x : Compile α) : Prop :=
  ∀ s m, d.Holds s m → ∃ n, x.run.run (s.over m) = ((x.run.run s).1, (x.run.run s).2.over n) ∧
    d.Holds (x.run.run s).2 n

variable {d}

lemma Holds.catalog (h : d.Holds s m) : (s.over m).mapping.catalog = s.mapping.catalog :=
  (d.catalog h.alike).symm

lemma Holds.readsKeyOf (h : d.Holds s m) : (s.over m).mapping.readsKeyOf = s.mapping.readsKeyOf := by
  funext p
  have hreference : (s.over m).mapping.isReference p = s.mapping.isReference p := by
    unfold Mapping.isReference
    rw [h.catalog]
  unfold Mapping.readsKeyOf
  rw [hreference, d.keys h.alike]
  rfl

/-! ### Steps in general -/

lemma agrees_pure (a : α) : d.Agrees (pure a) := fun _ m h => ⟨m, rfl, h⟩

lemma agrees_throw (e : CompileError) : d.Agrees (throw e : Compile α) := fun _ m h => ⟨m, rfl, h⟩

lemma agrees_reject (e : Expr) (c : Cause) : d.Agrees (Compile.reject e c : Compile α) :=
  agrees_throw _

lemma Agrees.bind {x : Compile α} {k : α → Compile β} (hx : d.Agrees x) (hk : ∀ a, d.Agrees (k a)) :
    d.Agrees (x >>= k) := by
  intro s m h
  obtain ⟨n, hrun, hn⟩ := hx s m h
  rw [run_bind, run_bind, hrun]
  rcases hs : x.run.run s with ⟨e | a, t⟩ <;> rw [hs] at hn
  · exact ⟨n, rfl, hn⟩
  · exact hk a t n hn

/-- Steps whose results may be known. -/
lemma Agrees.bind_of {x : Compile α} {k : α → Compile β} {Q : α → Prop} (hx : d.Agrees x)
    (hQ : ∀ s, Ensures x s fun a _ => Q a) (hk : ∀ a, Q a → d.Agrees (k a)) : d.Agrees (x >>= k) := by
  intro s m h
  obtain ⟨n, hrun, hn⟩ := hx s m h
  rw [run_bind, run_bind, hrun]
  rcases hs : x.run.run s with ⟨e | a, t⟩ <;> rw [hs] at hn
  · exact ⟨n, rfl, hn⟩
  · exact hk a (hQ s a t hs) t n hn

lemma agrees_reject_bind {e : Expr} {c : Cause} {k : α → Compile β} :
    d.Agrees (Compile.reject e c >>= k) := fun _ m h => ⟨m, rfl, h⟩

lemma Agrees.map {x : Compile α} (hx : d.Agrees x) (f : α → β) : d.Agrees (f <$> x) := by
  rw [map_eq_pure_bind]
  exact hx.bind fun a => agrees_pure (f a)

/-- Steps that go on with the state, but do the same over both mappings. -/
lemma agrees_get_bind {k : CompileState → Compile β}
    (hk : ∀ s m, d.Holds s m → k (s.over m) = k s ∧ d.Agrees (k s)) : d.Agrees (get >>= k) := by
  intro s m h
  obtain ⟨hsame, hagrees⟩ := hk s m h
  obtain ⟨n, hrun, hn⟩ := hagrees s m h
  refine ⟨n, Eq.trans ?_ hrun, hn⟩
  show (k (s.over m)).run.run (s.over m) = (k s).run.run (s.over m)
  rw [hsame]

lemma agrees_modify {f : CompileState → CompileState} (hf : ∀ s m, f (s.over m) = (f s).over m)
    (hmapping : ∀ s, (f s).mapping = s.mapping) (hpaths : ∀ s, (f s).paths = s.paths) :
    d.Agrees (modify f) := by
  intro s m h
  refine ⟨m, congrArg (Except.ok (), ·) (hf s m), ?_, ?_⟩
  · show d.Alike (f s).mapping m
    rw [hmapping]
    exact h.alike
  · show ∀ row ∈ (f s).paths, _
    rw [hpaths]
    exact h.paths

lemma agrees_forM {f : α → Compile PUnit} (as : List α) (hf : ∀ a ∈ as, d.Agrees (f a)) :
    d.Agrees (as.forM f) := by
  induction as with
  | nil => exact agrees_pure _
  | cons a as ih =>
    refine (hf a List.mem_cons_self).bind fun _ => ?_
    exact ih fun b hb => hf b (List.mem_cons_of_mem _ hb)

lemma agrees_mapM {f : α → Compile β} (as : List α) (hf : ∀ a ∈ as, d.Agrees (f a)) :
    d.Agrees (as.mapM f) := by
  induction as with
  | nil => exact agrees_pure _
  | cons a as ih =>
    rw [List.mapM_cons]
    refine (hf a List.mem_cons_self).bind fun b => ?_
    exact (ih fun c hc => hf c (List.mem_cons_of_mem _ hc)).bind fun bs => agrees_pure _

end Discipline

namespace Compile

open Discipline

variable {d : Discipline} {α β : Type}

/-! ### The state -/

lemma agrees_graph : d.Agrees graph := agrees_get_bind fun _ _ _ => ⟨rfl, agrees_pure _⟩

lemma agrees_request (r : RequestId) : d.Agrees (request r) :=
  agrees_graph.bind fun _ => agrees_pure _

lemma agrees_build (x : Build α) : d.Agrees (build x) := fun _ m h => ⟨m, rfl, h.alike, h.paths⟩

lemma agrees_add (x : Node) : d.Agrees (add x) := agrees_build _

lemma agrees_edit (f : Graph → Graph) : d.Agrees (edit f) :=
  agrees_modify (fun _ _ => rfl) (fun _ => rfl) fun _ => rfl

lemma agrees_editRequest (r : RequestId) (f : Request → Request) : d.Agrees (editRequest r f) :=
  agrees_edit _

lemma agrees_ask (f : Catalog → Except MappingError α) : d.Agrees (ask f) := by
  refine agrees_get_bind fun s m h => ⟨?_, ?_⟩
  · rw [h.catalog]
  · split
    · exact agrees_pure _
    · exact agrees_throw _

lemma agrees_duplicate (e : Expr) (n : NodeId) : d.Agrees (duplicate e n) := by
  refine (agrees_build _).bind fun m => ?_
  split
  · exact agrees_pure _
  · exact agrees_reject e _

/-! ### Scopes -/

lemma agrees_active (e : Expr) : d.Agrees (active e) := by
  refine agrees_get_bind fun s m _ => ⟨rfl, ?_⟩
  split
  · exact agrees_pure _
  · exact agrees_reject e _

lemma agrees_activate (o : Option RequestId) : d.Agrees (modify ({ · with active := o })) :=
  agrees_modify (fun _ _ => rfl) (fun _ => rfl) fun _ => rfl

lemma agrees_setActive (r : RequestId) : d.Agrees (setActive r) := agrees_activate _

lemma agrees_leave (r : RequestId) : d.Agrees (leave r) := by
  refine (agrees_request r).bind fun q => ?_
  split
  · exact agrees_setActive _
  · exact agrees_pure _

lemma agrees_within {x : Compile α} (r : RequestId) (hx : d.Agrees x) : d.Agrees (within r x) := by
  refine agrees_get_bind fun s m _ => ⟨rfl, (agrees_setActive r).bind fun _ => hx.bind fun a => ?_⟩
  exact (agrees_activate _).bind fun _ => agrees_pure a

lemma agrees_widening {x : Compile α} (widen : Bool) (hx : d.Agrees x) :
    d.Agrees (widening widen x) := by
  have hset : ∀ w, d.Agrees (modify ({ · with widen := w })) := fun w =>
    agrees_modify (fun _ _ => rfl) (fun _ => rfl) fun _ => rfl
  refine agrees_get_bind fun s m _ => ⟨rfl, (hset widen).bind fun _ => hx.bind fun a => ?_⟩
  exact (hset _).bind fun _ => agrees_pure a

/-! ### Values -/

lemma agrees_valueOf (m : Meaning) : d.Agrees (valueOf m) := by
  cases m with
  | value n => exact agrees_pure n
  | row a => exact agrees_add _
  | query r => exact agrees_add _

lemma agrees_condition (n : NodeId) : d.Agrees (condition n) := by
  refine agrees_graph.bind fun g => ?_
  split
  · exact (agrees_add _).bind fun _ => agrees_add _
  · exact agrees_pure n

variable (d) in
/-- A rule for expressions that has one outcome on every expression that is confined. -/
def AgreesVisit (visit : Visit) : Prop :=
  ∀ e : Expr, e.confined d.reads d.fills = true → d.Agrees (visit e)

section Visit

variable {visit : Visit} (hv : AgreesVisit d visit) {e : Expr}
  (he : e.confined d.reads d.fills = true)
include hv he

lemma agrees_value : d.Agrees (value visit e) := by
  refine agrees_get_bind fun s m _ => ⟨rfl, (hv e he).bind fun x => ?_⟩
  dsimp only
  split
  · exact (agrees_activate _).bind fun _ => agrees_valueOf x
  · exact agrees_valueOf x

lemma agrees_rowValue : d.Agrees (rowValue visit e) := by
  refine (hv e he).bind fun m => ?_
  split
  · exact agrees_pure _
  · exact agrees_reject e _

end Visit

/-! ### Members -/

/-- A projected member may be followed to where it was read from. -/
lemma reads_realPath {paths : PropertyTable (List PropertyRef)}
    (hpaths : ∀ row ∈ paths, ∀ p ∈ row.2, d.reads p = true) (fuel : Nat) {path : List PropertyRef}
    (hpath : ∀ p ∈ path, d.reads p = true) : ∀ p ∈ realPath paths fuel path, d.reads p = true := by
  induction fuel generalizing path with
  | zero => exact hpath
  | succ fuel ih =>
    cases path with
    | nil => exact hpath
    | cons p rest =>
      rw [realPath]
      split
      · next source hsource =>
        refine ih fun q hq => ?_
        rcases List.mem_append.1 hq with hq | hq
        · obtain ⟨row, hrow, rfl⟩ := Option.map_eq_some_iff.1 hsource
          exact hpaths row (List.mem_of_find?_eq_some hrow) q hq
        · exact hpath q (List.mem_cons_of_mem _ hq)
      · exact hpath

lemma agrees_setPath (p : PropertyRef) {path : List PropertyRef}
    (hpath : ∀ q ∈ path, d.reads q = true) : d.Agrees (setPath p path) := by
  have hrecord : d.Agrees (setPath.record p path) := by
    intro s m h
    refine ⟨m, rfl, h.alike, fun row hrow => ?_⟩
    rcases List.mem_cons.1 hrow with rfl | hrow
    · exact hpath
    · exact h.paths row (List.mem_of_mem_filter hrow)
  unfold setPath
  split
  · split
    · exact agrees_pure _
    · exact hrecord
  · exact hrecord

lemma agrees_setComputed (p : PropertyRef) (n : NodeId) : d.Agrees (setComputed p n) :=
  fun _ m h => ⟨m, rfl, h.alike, fun row hrow => h.paths row (List.mem_of_mem_filter hrow)⟩

lemma agrees_resolveStep (r : RequestId) (a : AliasId) {p : PropertyRef} (hp : d.reads p = true) :
    d.Agrees (resolveStep r a p) := by
  intro s m h
  refine ⟨m, ?_, ?_⟩
  · rw [run_resolveStep, run_resolveStep]
    show _ = _
    rw [CompileState.over, ← d.resolve h.alike hp]
    rfl
  · rw [run_resolveStep]
    exact ⟨h.alike, h.paths⟩

lemma agrees_follow (e : Expr) (r : RequestId) {path : List PropertyRef}
    (hpath : ∀ p ∈ path, d.reads p = true) (m : Meaning) : d.Agrees (follow e r m path) := by
  induction path generalizing m with
  | nil => cases m <;> exact agrees_pure _
  | cons p path ih =>
    cases m with
    | row a =>
      refine (agrees_resolveStep r a (hpath p List.mem_cons_self)).bind fun m => ?_
      exact ih (fun q hq => hpath q (List.mem_cons_of_mem _ hq)) m
    | value n => exact agrees_reject e _
    | query q => exact agrees_reject e _

lemma agrees_resolveMember (e : Expr) (a : AliasId) {p : PropertyRef} (hp : d.reads p = true) :
    d.Agrees (resolveMember e a p) := by
  refine (agrees_active e).bind fun r => agrees_get_bind fun s m h => ⟨rfl, ?_⟩
  refine agrees_get_bind fun s' m' _ => ⟨rfl, ?_⟩
  split
  · exact agrees_reject e _
  · exact (agrees_duplicate e _).map _
  · refine agrees_follow e r (reads_realPath h.paths _ fun q hq => ?_) _
    rw [List.mem_singleton.1 hq]
    exact hp

/-! ### Rows -/

lemma agrees_rowOf (e : Expr) (r : RequestId) : d.Agrees (rowOf e r) := by
  refine agrees_graph.bind fun g => ?_
  dsimp only
  split
  · exact agrees_pure _
  · exact agrees_reject e _

lemma agrees_enter (e : Expr) (r : RequestId) (f : Expr) : d.Agrees (enter e r f) := by
  unfold enter
  split
  · split
    · exact (agrees_rowOf e r).bind fun a => (agrees_edit _).bind fun _ => agrees_pure _
    · exact agrees_reject e _
  · exact agrees_reject e _

/-- The body of a lambda that is entered. -/
lemma agrees_enter_bind {e : Expr} {r : RequestId} {f : Expr} {k : Expr → Compile β}
    (hk : ∀ ps body, f = .lambda ps body → d.Agrees (k body)) : d.Agrees (enter e r f >>= k) := by
  refine (agrees_enter e r f).bind_of (Q := fun body => ∃ ps, f = .lambda ps body) (fun s => ?_)
    fun body ⟨ps, hf⟩ => hk ps body hf
  unfold enter
  split
  · next ps body =>
    split
    · refine ensures_bind.2 fun a t _ => ensures_bind.2 (ensures_edit.2 (ensures_pure.2 ?_))
      exact ⟨ps, rfl⟩
    · exact ensures_reject
  · exact ensures_reject

lemma agrees_argument_bind {e : Expr} {args : List Expr} {index : Nat} {k : Expr → Compile β}
    (hk : ∀ a, args[index]? = some a → d.Agrees (k a)) :
    d.Agrees (argument e args index >>= k) := by
  unfold argument
  split
  · next a ha =>
    rw [pure_bind]
    exact hk a ha
  · exact agrees_reject_bind

/-! ### Collections -/

lemma agrees_takeJoin (e : Expr) (r : RequestId) (a : AliasId) : d.Agrees (takeJoin e r a) := by
  unfold takeJoin
  refine Agrees.bind (fun _ m h => ⟨m, rfl, h.alike, h.paths⟩) fun j => ?_
  split
  · exact agrees_pure _
  · exact agrees_reject e _

lemma agrees_hoist (e : Expr) (a : AliasId) : d.Agrees (hoist e a) := by
  refine (agrees_active e).bind fun outer => agrees_graph.bind fun g => ?_
  refine (agrees_takeJoin e outer a).bind fun first => ?_
  have hlink : d.Agrees ((g.aliasOf a).via?.mapM (takeJoin e outer)) := by
    cases (g.aliasOf a).via? with
    | none => exact agrees_pure _
    | some link => exact (agrees_takeJoin e outer link).map _
  refine hlink.bind fun link => (agrees_build _).bind fun r => (agrees_editRequest r _).bind fun _ => ?_
  split
  · exact (agrees_edit _).bind fun _ => (agrees_edit _).bind fun _ => agrees_pure r
  · exact (agrees_edit _).bind fun _ => agrees_pure r

lemma agrees_receiver {visit : Visit} (hv : AgreesVisit d visit) (e : Expr) {arg : Expr}
    (harg : arg.confined d.reads d.fills = true) : d.Agrees (receiver visit e arg) := by
  refine (hv arg harg).bind fun m => ?_
  split
  · exact agrees_pure _
  · next a =>
    refine (agrees_active e).bind fun r => agrees_graph.bind fun g => ?_
    split
    · exact agrees_pure _
    · exact agrees_hoist e a
  · exact agrees_reject e _

end Compile

end EntityQuery
