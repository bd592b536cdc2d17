import EntityQuery.Proofs.Compile.Runs
import EntityQuery.Proofs.Lockstep.Hints
import EntityQuery.Proofs.Lockstep.Mapping

/-!
Two compilations in lockstep.

* Two states are in lockstep if they differ in their hints and, as `K` allows, in the kinds of joins
  and in whether navigations must keep rows.
* `Follows K R L x y`: where `x` succeeds, `y` succeeds from every state in lockstep, with a result
  related by `R` and a state in lockstep; a word of `L` tells the hints that both give, and which of
  them only `x` gives.
* Everything that rules do with the state follows itself, and gives no hints.
-/

namespace EntityQuery

open Sql

/-! ### States in lockstep -/

/-- States that differ in hints, in the kinds of joins and in what is asked of navigations. -/
structure CompileState.Rejoined (K : JoinKind → JoinKind → Prop) (s t : CompileState) : Prop where
  mapping : t.mapping = s.mapping
  graph : s.graph.Rejoined K t.graph
  active : t.active = s.active
  widen : K (.ofWiden s.widen) (.ofWiden t.widen)
  paths : t.paths = s.paths
  computed : t.computed = s.computed

/-- States after two runs in lockstep from `s` and `t`: the first gives the hints of a log, the second
those that are kept. What is asked of navigations is what was asked before. -/
structure CompileState.Trails (K : JoinKind → JoinKind → Prop) (s t s' t' : CompileState)
    (log : List (LoadingHint × Bool)) : Prop where
  rejoined : s'.Rejoined K t'
  widen : s'.widen = s.widen
  hints : s'.hints = s.hints ++ log.map Prod.fst
  kept : t'.hints = t.hints ++ keptHints log

namespace CompileState.Trails

variable {K : JoinKind → JoinKind → Prop} {s t s' t' s'' t'' : CompileState}
  {log log' : List (LoadingHint × Bool)}

/-- No hints are given. -/
lemma quiet (h : s'.Rejoined K t') (hw : s'.widen = s.widen) (hs : s'.hints = s.hints)
    (ht : t'.hints = t.hints) : Trails K s t s' t' [] := by
  refine ⟨h, hw, ?_, ?_⟩
  · rw [hs, List.map_nil, List.append_nil]
  · rw [ht, keptHints_nil, List.append_nil]

lemma trans (h : Trails K s t s' t' log) (h' : Trails K s' t' s'' t'' log') :
    Trails K s t s'' t'' (log ++ log') := by
  refine ⟨h'.rejoined, h'.widen.trans h.widen, ?_, ?_⟩
  · rw [h'.hints, h.hints, List.map_append, List.append_assoc]
  · rw [h'.kept, h.kept, keptHints_append, List.append_assoc]

end CompileState.Trails

namespace Compile

variable {K : JoinKind → JoinKind → Prop} {α β : Type}

/-- Wherever `x` succeeds, so does `y` in lockstep, with hints as in a word of `L`. -/
def Follows (K : JoinKind → JoinKind → Prop) (R : α → α → Prop)
    (L : Language (LoadingHint × Bool)) (x y : Compile α) : Prop :=
  ∀ ⦃s t : CompileState⦄, s.Rejoined K t → ∀ ⦃a : α⦄ ⦃s' : CompileState⦄, Runs x s a s' →
    ∃ b t', ∃ log ∈ L, Runs y t b t' ∧ R a b ∧ s.Trails K t s' t' log

/-! ### Steps in general -/

namespace Follows

variable {R : α → α → Prop} {S : β → β → Prop} {L M : Language (LoadingHint × Bool)}

lemma pure {a b : α} (h : R a b) : Follows K R 1 (Pure.pure a) (Pure.pure b) := by
  intro s t hs a' s' hrun
  obtain ⟨rfl, rfl⟩ := runs_pure.1 hrun
  exact ⟨b, t, [], Language.nil_mem_one, runs_pure.2 ⟨rfl, rfl⟩, h, .quiet hs rfl rfl rfl⟩

lemma bind {x y : Compile α} {k k' : α → Compile β} (hx : Follows K R L x y)
    (hk : ∀ a b, R a b → Follows K S M (k a) (k' b)) :
    Follows K S (L * M) (x >>= k) (y >>= k') := by
  intro s t hs c s₂ hrun
  obtain ⟨a, s₁, h₁, h₂⟩ := runs_bind.1 hrun
  obtain ⟨b, t₁, log, hlog, hy, hab, htrails⟩ := hx hs h₁
  obtain ⟨d, t₂, log', hlog', hk', hcd, htrails'⟩ := hk a b hab htrails.rejoined h₂
  exact ⟨d, t₂, log ++ log', Language.append_mem_mul hlog hlog', hy.bind hk', hcd,
    htrails.trans htrails'⟩

/-- Steps with one result, followed by steps that use it. -/
lemma seq {x y : Compile α} {k k' : α → Compile β} (hx : Follows K Eq L x y)
    (hk : ∀ a, Follows K S M (k a) (k' a)) : Follows K S (L * M) (x >>= k) (y >>= k') :=
  hx.bind fun a _ hab => hab ▸ hk a

/-- Steps without hints, followed by others. -/
lemma lead {x y : Compile α} {k k' : α → Compile β} (hx : Follows K R 1 x y)
    (hk : ∀ a b, R a b → Follows K S M (k a) (k' b)) : Follows K S M (x >>= k) (y >>= k') :=
  one_mul M ▸ hx.bind hk

/-- Steps with one result and without hints, followed by others. -/
lemma andThen {x y : Compile α} {k k' : α → Compile β} (hx : Follows K Eq 1 x y)
    (hk : ∀ a, Follows K S M (k a) (k' a)) : Follows K S M (x >>= k) (y >>= k') :=
  hx.lead fun a _ hab => hab ▸ hk a

/-- Steps, followed by others without hints. -/
lemma ending {x y : Compile α} {k k' : α → Compile β} (hx : Follows K Eq L x y)
    (hk : ∀ a, Follows K S 1 (k a) (k' a)) : Follows K S L (x >>= k) (y >>= k') :=
  mul_one L ▸ hx.seq hk

lemma weaken {x y : Compile α} (hx : Follows K R L x y) (h : L ≤ M) : Follows K R M x y := by
  intro s t hs a s' hrun
  obtain ⟨b, t', log, hlog, hrest⟩ := hx hs hrun
  exact ⟨b, t', log, h hlog, hrest⟩

lemma get_bind {k k' : CompileState → Compile β}
    (h : ∀ s t : CompileState, s.Rejoined K t → Follows K S M (k s) (k' t)) :
    Follows K S M (get >>= k) (get >>= k') := by
  intro s t hs b s' hrun
  obtain ⟨d, t', log, hlog, hk, hrest⟩ := h s t hs hs (runs_get_bind.1 hrun)
  exact ⟨d, t', log, hlog, runs_get_bind.2 hk, hrest⟩

lemma map {f : α → β} {x y : Compile α} (hx : Follows K Eq L x y) :
    Follows K Eq L (f <$> x) (f <$> y) := by
  rw [map_eq_pure_bind, map_eq_pure_bind]
  exact hx.ending fun a => .pure rfl

/-- A rejection succeeds nowhere. -/
lemma reject {e : Expr} {c : Cause} {y : Compile α} : Follows K R L (Compile.reject e c) y :=
  fun _ _ _ _ _ hrun => absurd hrun not_runs_reject

lemma reject_bind {e : Expr} {c : Cause} {k : α → Compile β} {y : Compile β} :
    Follows K S L (Compile.reject e c >>= k) y := by
  intro s t _ b s' hrun
  obtain ⟨_, _, h, -⟩ := runs_bind.1 hrun
  exact absurd h not_runs_reject

lemma modify {f f' : CompileState → CompileState} (hw : ∀ s, (f s).widen = s.widen)
    (hf : ∀ s, (f s).hints = s.hints) (hf' : ∀ s, (f' s).hints = s.hints)
    (h : ∀ s t : CompileState, s.Rejoined K t → (f s).Rejoined K (f' t)) :
    Follows K Eq 1 (modify f) (modify f') := by
  intro s t hs a s' hrun
  obtain rfl := runs_modify.1 hrun
  exact ⟨a, f' t, [], Language.nil_mem_one, runs_modify.2 rfl, rfl,
    .quiet (h s t hs) (hw s) (hf s) (hf' t)⟩

lemma forM {c : α → α} {f f' : α → Compile PUnit} {as as' : List α} (has : as' = as.map c)
    (h : ∀ a, Follows K Eq 1 (f a) (f' (c a))) : Follows K Eq 1 (as.forM f) (as'.forM f') := by
  subst has
  induction as with
  | nil => exact .pure rfl
  | cons a as ih => exact (h a).andThen fun _ => ih

lemma mapM {f f' : α → Compile β} (h : ∀ a, Follows K Eq 1 (f a) (f' a)) (as : List α) :
    Follows K Eq 1 (as.mapM f) (as.mapM f') := by
  induction as with
  | nil => exact .pure rfl
  | cons a as ih =>
    rw [List.mapM_cons, List.mapM_cons]
    exact (h a).andThen fun b => ih.andThen fun bs => .pure rfl

end Follows

/-! ### The state -/

lemma follows_ask {f : Catalog → Except MappingError α} : Follows K Eq 1 (ask f) (ask f) := by
  refine .get_bind fun s t hs => ?_
  rw [hs.mapping]
  cases f s.mapping.catalog with
  | ok a => exact .pure rfl
  | error e => exact fun _ _ _ _ _ hrun => absurd hrun not_runs_throw

lemma follows_graph_bind {S : β → β → Prop} {M : Language (LoadingHint × Bool)}
    {k k' : Graph → Compile β} (h : ∀ g h : Graph, g.Rejoined K h → Follows K S M (k g) (k' h)) :
    Follows K S M (graph >>= k) (graph >>= k') :=
  Follows.lead (R := Graph.Rejoined K) (.get_bind fun _ _ hs => .pure hs.graph) h

/-- Steps that look at a request, but not at its joins. -/
lemma follows_request_bind {S : β → β → Prop} {M : Language (LoadingHint × Bool)} {r : RequestId}
    {k k' : Request → Compile β} (hjoins : ∀ (q : Request) joins, k' { q with joins } = k' q)
    (h : ∀ q, Follows K S M (k q) (k' q)) :
    Follows K S M (request r >>= k) (request r >>= k') := by
  refine Follows.lead (R := fun q q' => ∃ joins, q' = { q with joins }) ?_ ?_
  · refine follows_graph_bind fun g g' hg => .pure ?_
    obtain ⟨joins, -, hq⟩ := hg.request r
    exact ⟨joins, hq⟩
  · rintro q _ ⟨joins, rfl⟩
    rw [hjoins]
    exact h q

lemma follows_build {x y : Build α} (hx : Tracks K x y) :
    Follows K Eq 1 (build x) (build y) := by
  intro s t hs a s' hrun
  obtain ⟨rfl, rfl⟩ := runs_build.1 hrun
  obtain ⟨hfst, hsnd⟩ := hx.run hs.graph
  exact ⟨_, _, [], Language.nil_mem_one, runs_build.2 ⟨rfl, rfl⟩, hfst.symm,
    .quiet { hs with graph := hsnd } rfl rfl rfl⟩

lemma follows_add (node : Node) : Follows K Eq 1 (add node) (add node) :=
  follows_build (Build.tracks_add node)

lemma follows_edit {f f' : Graph → Graph}
    (hf : ∀ g h : Graph, g.Rejoined K h → (f g).Rejoined K (f' h)) :
    Follows K Eq 1 (edit f) (edit f') :=
  .modify (fun _ => rfl) (fun _ => rfl) (fun _ => rfl) fun _ _ hs => { hs with graph := hf _ _ hs.graph }

/-- A change of a request that does not look at its joins. -/
lemma follows_editRequest (r : RequestId) {f : Request → Request}
    (hf : ∀ (q : Request) joins, f { q with joins } = { f q with joins }) :
    Follows K Eq 1 (editRequest r f) (editRequest r f) :=
  follows_edit fun _ _ hg => hg.editRequest r hf

lemma follows_duplicate [Std.Refl K] (e e' : Expr) (n : NodeId) :
    Follows K Eq 1 (duplicate e n) (duplicate e' n) := by
  refine (follows_build (Build.tracks_duplicate n)).andThen fun m => ?_
  cases m with
  | some m => exact .pure rfl
  | none => exact .reject

/-! ### Scopes -/

lemma follows_active (e e' : Expr) : Follows K Eq 1 (active e) (active e') := by
  refine .get_bind fun s t hs => ?_
  rw [hs.active]
  cases s.active with
  | some r => exact .pure rfl
  | none => exact .reject

lemma follows_activate (active : Option RequestId) :
    Follows K Eq 1 (modify ({ · with active })) (modify ({ · with active })) :=
  .modify (fun _ => rfl) (fun _ => rfl) (fun _ => rfl) fun _ _ hs => { hs with active := rfl }

lemma follows_setActive (r : RequestId) : Follows K Eq 1 (setActive r) (setActive r) :=
  follows_activate _

lemma follows_leave (r : RequestId) : Follows K Eq 1 (leave r) (leave r) := by
  refine follows_request_bind (fun _ _ => rfl) fun q => ?_
  split
  · exact follows_setActive _
  · exact .pure rfl

variable {R : α → α → Prop} {L : Language (LoadingHint × Bool)}

lemma follows_within {x y : Compile α} (r : RequestId) (h : Follows K R L x y) :
    Follows K R L (within r x) (within r y) := by
  refine .get_bind fun s t hs => (follows_setActive r).andThen fun _ => ?_
  refine mul_one L ▸ h.bind fun a b hab => ?_
  rw [hs.active]
  exact (follows_activate _).andThen fun _ => .pure hab

lemma follows_widening {x y : Compile α} {w w' : Bool} (hw : K (.ofWiden w) (.ofWiden w'))
    (h : Follows K R L x y) : Follows K R L (widening w x) (widening w' y) := by
  intro s t hs a s' hrun
  obtain ⟨u, hx, rfl⟩ := runs_widening.1 hrun
  obtain ⟨b, u', log, hlog, hy, hab, hu⟩ := h (s := { s with widen := w })
    (t := { t with widen := w' }) { hs with widen := hw } hx
  exact ⟨b, _, log, hlog, runs_widening.2 ⟨u', hy, rfl⟩, hab,
    { hu.rejoined with widen := hs.widen }, rfl, hu.hints, hu.kept⟩

/-! ### Values -/

lemma follows_valueOf (m : Meaning) : Follows K Eq 1 (valueOf m) (valueOf m) := by
  cases m with
  | value n => exact .pure rfl
  | row a => exact follows_add _
  | query r => exact follows_add _

lemma follows_condition (n : NodeId) : Follows K Eq 1 (condition n) (condition n) := by
  refine follows_graph_bind fun g h hg => ?_
  rw [hg.node]
  split
  · exact (follows_add _).andThen fun truth => follows_add _
  · exact .pure rfl

/-- A rule compiles an expression in lockstep with another rule that compiles it without hints. -/
abbrev Shadows (K : JoinKind → JoinKind → Prop) (drop : Method → Bool) (visit visit' : Visit)
    (e : Expr) : Prop :=
  Follows K Eq (e.hintLogs drop) (visit e) (visit' (e.shed drop))

section Visit

variable {drop : Method → Bool} {visit visit' : Visit} {e : Expr}

lemma follows_value (he : Shadows K drop visit visit' e) :
    Follows K Eq (e.hintLogs drop) (value visit e) (value visit' (e.shed drop)) := by
  refine .get_bind fun s t hs => he.ending fun m => ?_
  rw [hs.active]
  cases s.active with
  | none => exact follows_valueOf m
  | some r => exact (follows_activate _).andThen fun _ => follows_valueOf m

lemma follows_rowValue (he : Shadows K drop visit visit' e) :
    Follows K Eq (e.hintLogs drop) (rowValue visit e) (rowValue visit' (e.shed drop)) := by
  refine he.ending fun m => ?_
  cases m with
  | row a => exact .pure rfl
  | value n => exact .reject
  | query r => exact .reject

end Visit

/-! ### Projected members -/

lemma follows_setPath (p : PropertyRef) (path : List PropertyRef) :
    Follows K Eq 1 (setPath p path) (setPath p path) := by
  have hrecord : Follows K Eq 1 (setPath.record p path) (setPath.record p path) :=
    .modify (fun _ => rfl) (fun _ => rfl) (fun _ => rfl) fun _ _ hs =>
      { hs with computed := by rw [hs.computed], paths := by rw [hs.paths] }
  unfold setPath
  split
  · split
    · exact .pure rfl
    · exact hrecord
  · exact hrecord

lemma follows_setComputed (p : PropertyRef) (n : NodeId) :
    Follows K Eq 1 (setComputed p n) (setComputed p n) :=
  .modify (fun _ => rfl) (fun _ => rfl) (fun _ => rfl) fun _ _ hs =>
    { hs with computed := by rw [hs.computed], paths := by rw [hs.paths] }

/-! ### Members -/

section Members

variable [Std.Refl K]

lemma follows_resolveStep (r : RequestId) (a : AliasId) (p : PropertyRef) :
    Follows K Eq 1 (resolveStep r a p) (resolveStep r a p) := by
  intro s t hs m s' hrun
  obtain ⟨x, g, hx, rfl, rfl⟩ := runs_resolveStep.1 hrun
  have hresolved := (s.mapping.tracks_resolve hs.widen r a p).run hs.graph
  rw [Runs] at hx
  rw [hx, ← hs.mapping] at hresolved
  obtain ⟨hfst, hsnd⟩ := hresolved
  have ht : Runs (t.mapping.resolve r a p t.widen) t.graph x
      ((t.mapping.resolve r a p t.widen).run.run t.graph).2 := Prod.ext hfst rfl
  exact ⟨_, _, [], Language.nil_mem_one, runs_resolveStep.2 ⟨x, _, ht, rfl, rfl⟩, rfl,
    .quiet { hs with graph := hsnd } rfl rfl rfl⟩

lemma follows_follow (e e' : Expr) (r : RequestId) (path : List PropertyRef) (m : Meaning) :
    Follows K Eq 1 (follow e r m path) (follow e' r m path) := by
  induction path generalizing m with
  | nil => exact .pure rfl
  | cons p path ih =>
    cases m with
    | row a => exact (follows_resolveStep r a p).andThen fun m => ih m
    | value n => exact .reject
    | query q => exact .reject

lemma follows_resolveMember (e e' : Expr) (a : AliasId) (p : PropertyRef) :
    Follows K Eq 1 (resolveMember e a p) (resolveMember e' a p) := by
  refine (follows_active e e').andThen fun r => .get_bind fun s t hs => .get_bind fun s' t' hs' => ?_
  rw [hs.paths, hs'.computed]
  split
  · exact .reject
  · exact .map (follows_duplicate e e' _)
  · exact follows_follow e e' r _ _

end Members

/-! ### Rows -/

lemma follows_rowOf (e e' : Expr) (r : RequestId) :
    Follows K Eq 1 (rowOf e r) (rowOf e' r) := by
  refine follows_graph_bind fun g h hg => ?_
  obtain ⟨joins, -, hq⟩ := hg.request r
  have hnode : h.node = g.node := funext hg.node
  rw [hq, hnode]
  dsimp only
  -- both requests have the same items and the same base
  split
  · next a ha =>
    split
    · next b hb => exact .pure (Option.some.inj (ha.symm.trans hb))
    · next hb => cases ha.symm.trans hb
  · exact .reject

lemma follows_enter {drop : Method → Bool} (e e' : Expr) (r : RequestId) (f : Expr) :
    Follows K (fun b b' => ∃ ps, f = .lambda ps b ∧ b' = b.shed drop) 1 (enter e r f)
      (enter e' r (f.shed drop)) := by
  cases f with
  | lambda ps body =>
    unfold enter
    rw [Expr.shed_lambda]
    dsimp only
    split
    · refine (follows_rowOf e e' r).andThen fun a => ?_
      exact (follows_edit fun _ _ hg => hg.bind a _).andThen fun _ => .pure ⟨ps, rfl, rfl⟩
    · exact .reject
  | _ => exact .reject

lemma follows_argument (e e' : Expr) {args args' : List Expr} {f : Expr → Expr} {index : Nat}
    (h : args'[index]? = args[index]?.map f) :
    Follows K (fun b b' => args[index]? = some b ∧ b' = f b) 1 (argument e args index)
      (argument e' args' index) := by
  unfold argument
  rw [h]
  cases args[index]? with
  | some a => exact .pure ⟨rfl, rfl⟩
  | none => exact .reject

/-! ### Collections -/

/-- The same join is taken out of both requests, whatever its kind is. -/
lemma follows_takeJoin (e e' : Expr) (r : RequestId) (a : AliasId) :
    Follows K (Join.Rejoined K) 1 (takeJoin e r a) (takeJoin e' r a) := by
  intro s t hs j s' hrun
  obtain ⟨hj, rfl⟩ := runs_takeJoin.1 hrun
  have hfound := (hs.graph.request r).joinFor? a
  rw [hj] at hfound
  generalize hj' : (t.graph.request r).joinFor? a = o at hfound
  cases hfound with
  | some hjoin =>
    refine ⟨_, _, [], Language.nil_mem_one, runs_takeJoin.2 ⟨hj', rfl⟩, hjoin,
      .quiet { hs with graph := ?_ } rfl rfl rfl⟩
    exact hs.graph.modifyRequest r fun _ _ hq => hq.eraseJoin a

variable [Std.Refl K]

lemma follows_hoist (e e' : Expr) (a : AliasId) : Follows K Eq 1 (hoist e a) (hoist e' a) := by
  refine (follows_active e e').andThen fun outer => follows_graph_bind fun g h hg => ?_
  rw [hg.aliasOf]
  refine (follows_takeJoin e e' outer a).lead fun first first' hfirst => ?_
  have hlink : Follows K (Option.Rel (Join.Rejoined K)) 1
      ((g.aliasOf a).via?.mapM (takeJoin e outer)) ((g.aliasOf a).via?.mapM (takeJoin e' outer)) := by
    cases (g.aliasOf a).via? with
    | none => exact .pure .none
    | some link =>
      refine Follows.lead (follows_takeJoin e e' outer link) fun j j' hj => .pure (.some hj)
  refine hlink.lead fun link link' hlast => ?_
  refine (follows_build (Build.tracks_addRequest (some outer))).andThen fun r => ?_
  refine (follows_editRequest r fun _ _ => rfl).andThen fun _ => ?_
  cases hlast with
  | some hlast =>
    refine (follows_edit fun _ _ hg => ?_).andThen fun _ => ?_
    · exact hg.pushJoin r ⟨hlast.source, hfirst.condition, Std.Refl.refl _⟩
    · rw [hlast.condition]
      exact (follows_edit fun _ _ hg => hg.andFilter r _).andThen fun _ => .pure rfl
  | none =>
    rw [hfirst.condition]
    exact (follows_edit fun _ _ hg => hg.andFilter r _).andThen fun _ => .pure rfl

lemma follows_receiver {drop : Method → Bool} {visit visit' : Visit} (e e' : Expr) {arg : Expr}
    (harg : Shadows K drop visit visit' arg) :
    Follows K Eq (arg.hintLogs drop) (receiver visit e arg)
      (receiver visit' e' (arg.shed drop)) := by
  refine harg.ending fun m => ?_
  cases m with
  | query r => exact .pure rfl
  | value n => exact .reject
  | row a =>
    refine (follows_active e e').andThen fun r => follows_graph_bind fun g h hg => ?_
    rw [hg.requestOver?]
    split
    · exact .pure rfl
    · exact follows_hoist e e' a

end Compile

end EntityQuery
