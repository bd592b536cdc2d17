import EntityQuery.Compile.Statement
import EntityQuery.Proofs.Compile.Runs

/-!
What holds after every successful run of compilation steps.

* `Ensures x s Q`: whenever the steps `x` succeed from the state `s`, their result and the state they
  leave satisfy `Q`. Steps that fail ensure everything.
* For a single step this is a statement about the state before it, so that steps in a row are
  followed from the first to the last.
* `Keeps I x`: from every state with `I`, whenever the steps `x` succeed they leave a state with `I`.
  `Gives I Q x` says besides what their result is then.
* Steps in a row keep what each of them keeps. Steps that only read keep everything.
-/

namespace EntityQuery

open Sql

/-- Whenever the steps succeed from a state, the result and the new state satisfy `Q`. -/
def Ensures {ε σ α : Type} (x : ExceptT ε (StateM σ) α) (s : σ) (Q : α → σ → Prop) : Prop :=
  ∀ a t, Runs x s a t → Q a t

/-! ### Steps in a row -/

section General

variable {ε σ α β : Type} {s : σ} {Q R : α → σ → Prop}

lemma Ensures.mono {x : ExceptT ε (StateM σ) α} (h : Ensures x s R) (hRQ : ∀ a t, R a t → Q a t) :
    Ensures x s Q := fun a t hrun => hRQ a t (h a t hrun)

/-- What steps ensure is told by the one run that they have. -/
lemma Runs.ensures {x : ExceptT ε (StateM σ) α} {a : α} {t : σ} (h : Runs x s a t) :
    Ensures x s Q ↔ Q a t := by
  constructor
  · exact fun hx => hx a t h
  · intro hQ b u hrun
    have hsame : ((.ok b, u) : Except ε α × σ) = (.ok a, t) := hrun.symm.trans h
    cases hsame
    exact hQ

lemma ensures_pure {a : α} : Ensures (pure a : ExceptT ε (StateM σ) α) s Q ↔ Q a s := by
  constructor
  · intro h
    exact h a s (runs_pure.2 ⟨rfl, rfl⟩)
  · intro h b t hrun
    obtain ⟨rfl, rfl⟩ := runs_pure.1 hrun
    exact h

lemma ensures_bind {x : ExceptT ε (StateM σ) α} {k : α → ExceptT ε (StateM σ) β}
    {P : β → σ → Prop} :
    Ensures (x >>= k) s P ↔ Ensures x s fun a u => Ensures (k a) u P := by
  constructor
  · intro h a u hx b t hk
    exact h b t (hx.bind hk)
  · intro h b t hrun
    obtain ⟨a, u, hx, hk⟩ := runs_bind.1 hrun
    exact h a u hx b t hk

/-- Steps in a row, by what the first of them ensures. -/
lemma Ensures.bind {x : ExceptT ε (StateM σ) α} {k : α → ExceptT ε (StateM σ) β}
    {P : β → σ → Prop} (h : Ensures x s R) (hk : ∀ a u, R a u → Ensures (k a) u P) :
    Ensures (x >>= k) s P := ensures_bind.2 (h.mono hk)

lemma ensures_map {x : ExceptT ε (StateM σ) α} {f : α → β} {P : β → σ → Prop} :
    Ensures (f <$> x) s P ↔ Ensures x s fun a => P (f a) := by
  rw [map_eq_pure_bind, ensures_bind]
  simp only [ensures_pure]

lemma ensures_get_bind {k : σ → ExceptT ε (StateM σ) β} {P : β → σ → Prop} :
    Ensures (get >>= k) s P ↔ Ensures (k s) s P := by
  constructor
  · exact fun h b t hrun => h b t (runs_get_bind.2 hrun)
  · exact fun h b t hrun => h b t (runs_get_bind.1 hrun)

lemma ensures_throw {e : ε} : Ensures (throw e : ExceptT ε (StateM σ) α) s Q :=
  fun _ _ hrun => absurd hrun not_runs_throw

lemma ensures_modify {f : σ → σ} {P : PUnit → σ → Prop} :
    Ensures (modify f : ExceptT ε (StateM σ) PUnit) s P ↔ P ⟨⟩ (f s) := by
  constructor
  · exact fun h => h ⟨⟩ (f s) (runs_modify.2 rfl)
  · intro h a t hrun
    rw [runs_modify.1 hrun]
    exact h

/-- A step that cannot fail. -/
lemma ensures_lift {x : StateM σ α} :
    Ensures (liftM x : ExceptT ε (StateM σ) α) s Q ↔ Q (x.run s).1 (x.run s).2 := by
  constructor
  · exact fun h => h _ _ (runs_lift.2 rfl)
  · intro h a t hrun
    have hpair := runs_lift.1 hrun
    rw [← hpair] at h
    exact h

/-- An invariant of a loop over a list. -/
lemma ensures_forM {f : α → ExceptT ε (StateM σ) PUnit} {I : σ → Prop} (as : List α)
    (h : ∀ a ∈ as, ∀ t, I t → Ensures (f a) t fun _ => I) (hs : I s) :
    Ensures (as.forM f) s fun _ => I := by
  induction as generalizing s with
  | nil => exact ensures_pure.2 hs
  | cons a as ih =>
    refine (h a List.mem_cons_self s hs).bind fun _ u hu => ?_
    exact ih (fun b hb => h b (List.mem_cons_of_mem _ hb)) hu

lemma ensures_mapM {f : α → ExceptT ε (StateM σ) β} {I : σ → Prop} (as : List α)
    (h : ∀ a ∈ as, ∀ t, I t → Ensures (f a) t fun _ => I) (hs : I s) :
    Ensures (as.mapM f) s fun _ => I := by
  induction as generalizing s with
  | nil => exact ensures_pure.2 hs
  | cons a as ih =>
    rw [List.mapM_cons]
    refine (h a List.mem_cons_self s hs).bind fun b u hu => ?_
    exact (ih (fun c hc => h c (List.mem_cons_of_mem _ hc)) hu).bind fun bs w hw => ensures_pure.2 hw

end General

namespace Compile

variable {α : Type} {s : CompileState} {Q : α → CompileState → Prop}

lemma ensures_reject {e : Expr} {c : Cause} : Ensures (reject e c) s Q := ensures_throw

lemma ensures_reject_bind {β : Type} {e : Expr} {cause : Cause} {k : α → Compile β}
    {Q : β → CompileState → Prop} : Ensures (reject e cause >>= k) s Q :=
  ensures_bind.2 ensures_reject

/-! ### The state -/

lemma ensures_graph {Q : Graph → CompileState → Prop} : Ensures graph s Q ↔ Q s.graph s := by
  rw [graph, ensures_get_bind, ensures_pure]

lemma ensures_request {r : RequestId} {Q : Request → CompileState → Prop} :
    Ensures (request r) s Q ↔ Q (s.graph.request r) s := by
  rw [request, ensures_bind, ensures_graph, ensures_pure]

lemma ensures_build {x : Build α} :
    Ensures (build x) s Q ↔ Q (x.run s.graph).1 { s with graph := (x.run s.graph).2 } := by
  constructor
  · exact fun h => h _ _ (runs_build.2 ⟨rfl, rfl⟩)
  · intro h a t hrun
    obtain ⟨rfl, rfl⟩ := runs_build.1 hrun
    exact h

lemma ensures_add {x : Node} {Q : NodeId → CompileState → Prop} :
    Ensures (add x) s Q ↔ Q ⟨s.graph.entries.size⟩ { s with graph := (s.graph.add x).2 } :=
  ensures_build

lemma ensures_edit {f : Graph → Graph} {Q : Unit → CompileState → Prop} :
    Ensures (edit f) s Q ↔ Q () { s with graph := f s.graph } := ensures_modify

lemma ensures_editRequest {r : RequestId} {f : Request → Request}
    {Q : Unit → CompileState → Prop} :
    Ensures (editRequest r f) s Q ↔ Q () { s with graph := s.graph.modifyRequest r f } :=
  ensures_edit

lemma ensures_ask {f : Catalog → Except MappingError α} :
    Ensures (ask f) s Q ↔ ∀ a, f s.mapping.catalog = .ok a → Q a s := by
  constructor
  · exact fun h a ha => h a s (runs_ask.2 ⟨ha, rfl⟩)
  · intro h a t hrun
    obtain ⟨ha, rfl⟩ := runs_ask.1 hrun
    exact h a ha

/-! ### Scopes -/

lemma ensures_active {e : Expr} {Q : RequestId → CompileState → Prop} :
    Ensures (active e) s Q ↔ ∀ r, s.active = some r → Q r s := by
  constructor
  · exact fun h r hr => h r s (runs_active.2 ⟨hr, rfl⟩)
  · intro h r t hrun
    obtain ⟨hr, rfl⟩ := runs_active.1 hrun
    exact h r hr

lemma ensures_setActive {r : RequestId} {Q : Unit → CompileState → Prop} :
    Ensures (setActive r) s Q ↔ Q () { s with active := some r } := ensures_modify

lemma ensures_leave {r : RequestId} {Q : Unit → CompileState → Prop} :
    Ensures (leave r) s Q ↔ Q () (match (s.graph.request r).parent with
      | some outer => { s with active := some outer }
      | none => s) := by
  constructor
  · exact fun h => h _ _ (runs_leave.2 rfl)
  · intro h a t hrun
    rw [runs_leave.1 hrun]
    exact h

lemma ensures_within {r : RequestId} {x : Compile α} :
    Ensures (within r x) s Q ↔
      Ensures x { s with active := some r } fun a t => Q a { t with active := s.active } := by
  constructor
  · exact fun h a t hrun => h a _ (runs_within.2 ⟨t, hrun, rfl⟩)
  · intro h a t hrun
    obtain ⟨u, hu, rfl⟩ := runs_within.1 hrun
    exact h a u hu

lemma ensures_widening {w : Bool} {x : Compile α} :
    Ensures (widening w x) s Q ↔
      Ensures x { s with widen := w } fun a t => Q a { t with widen := s.widen } := by
  constructor
  · exact fun h a t hrun => h a _ (runs_widening.2 ⟨t, hrun, rfl⟩)
  · intro h a t hrun
    obtain ⟨u, hu, rfl⟩ := runs_widening.1 hrun
    exact h a u hu

/-! ### Leaves -/

/-- A source opens a request over the table of an entity. -/
lemma ensures_source_iff {entity : String} {Q : Meaning → CompileState → Prop} :
    Ensures (source entity) s Q ↔ ∀ table, s.mapping.catalog.tableName entity = .ok table →
      Q (.query ⟨s.graph.requests.size⟩) { s with
        graph := ((s.graph.addRequest s.active).2.addAlias
          (.ofTable table entity (s.mapping.catalog.idColumn entity).toOption)).2.modifyRequest
            ⟨s.graph.requests.size⟩ fun q => { q with
              base := some ⟨s.graph.aliases.size⟩, projection := some (.entity entity),
              idColumn := (s.mapping.catalog.idColumn entity).toOption }
        active := some ⟨s.graph.requests.size⟩ } := by
  rw [source, ensures_bind, ensures_ask]
  refine forall₂_congr fun table _ => ?_
  rw [ensures_get_bind]
  dsimp only
  rw [ensures_get_bind, ensures_bind, ensures_build, ensures_bind, ensures_build, ensures_bind,
    ensures_editRequest, ensures_bind, ensures_setActive, ensures_pure]
  exact Iff.rfl

/-- A constant is a new node, if there is a value for it. -/
lemma ensures_constant_of {Q : Meaning → CompileState → Prop} (e : Expr) (l : Literal)
    (h : ∀ v, Ensures (Meaning.value <$> add (.const v)) s Q) : Ensures (constant e l) s Q := by
  unfold constant
  split
  · exact h _
  · rw [ensures_get_bind]
    split
    · exact ensures_reject
    · split
      · exact h _
      · exact ensures_reject
  · exact ensures_reject

/-- A parameter is a row that the active request or one around it ranges over. -/
lemma ensures_parameter_of {Q : Meaning → CompileState → Prop} (e : Expr) (p : Param)
    (h : ∀ r a, s.active = some r → s.graph.aliasFor? r p.id = some a → Q (.row a) s) :
    Ensures (parameter e p) s Q := by
  rw [parameter, ensures_bind, ensures_active]
  intro r hr
  rw [ensures_bind, ensures_graph]
  split
  · next a ha => exact ensures_pure.2 (h r a hr ha)
  · exact ensures_reject

/-! ### Members -/

lemma ensures_resolveStep {r : RequestId} {a : AliasId} {p : PropertyRef}
    {Q : Meaning → CompileState → Prop} :
    Ensures (resolveStep r a p) s Q ↔ Ensures (s.mapping.resolve r a p s.widen) s.graph
      fun x g => Q (meaningOf x) { s with graph := g } := by
  constructor
  · exact fun h x g hrun => h _ _ (runs_resolveStep.2 ⟨x, g, hrun, rfl, rfl⟩)
  · intro h m t hrun
    obtain ⟨x, g, hx, rfl, rfl⟩ := runs_resolveStep.1 hrun
    exact h x g hx

/-! ### Steps that change nothing -/

lemma ensures_argument (e : Expr) (args : List Expr) (index : Nat) :
    Ensures (argument e args index) s fun a t => a ∈ args ∧ t = s := by
  rw [argument]
  split
  · next a ha => exact ensures_pure.2 ⟨List.mem_of_getElem? ha, rfl⟩
  · exact ensures_reject

lemma ensures_rowCount (e count : Expr) : Ensures (rowCount e count) s fun _ t => t = s := by
  unfold rowCount
  split
  · split
    · exact ensures_reject
    · exact ensures_pure.2 rfl
  · exact ensures_reject

/-- The number of rows that an operator asks for is read without a change. -/
lemma ensures_rowCount_bind {e : Expr} {args : List Expr} {k : Nat → Compile α}
    (h : ∀ n, Ensures (k n) s Q) :
    Ensures (do let n ← rowCount e (← argument e args 1); k n) s Q := by
  refine (ensures_argument e args 1).bind fun count t ⟨_, ht⟩ => ?_
  refine (ensures_rowCount e count).bind fun n u hu => ?_
  rw [hu, ht]
  exact h n

/-- The path of a loading hint changes nothing. -/
lemma ensures_hintPath (e : Expr) : ∀ e', Ensures (hintPath e e') s fun _ t => t = s
  | .member target _ => (ensures_hintPath e target).bind fun _ _ ht => ensures_pure.2 ht
  | .call m args => by
    by_cases hm : m = .first
    · subst hm
      rcases args with _ | ⟨arg, _ | ⟨arg', rest⟩⟩
      · exact ensures_reject
      · exact ensures_hintPath e arg
      · exact ensures_reject
    · have hreject : hintPath e (.call m args) = reject e (.notAPath (Expr.call m args).text) := by
        cases m <;> first | rfl | exact absurd rfl hm
      rw [hreject]
      exact ensures_reject
  | .param _ => ensures_pure.2 rfl
  | .source _ | .const _ | .key _ | .binary _ _ _ | .unary _ _ | .cond _ _ _ | .lambda _ _ | .new _ _
  | .init _ _ => ensures_reject

lemma ensures_shownColumns (entity : String) :
    Ensures (shownColumns entity) s fun _ t => t = s := by
  rw [shownColumns, ensures_get_bind]
  dsimp only
  rw [ensures_bind, ensures_ask]
  intro simple _
  rw [ensures_bind, ensures_ask]
  intro all _
  refine ensures_mapM _ (fun p _ t ht => ?_) rfl
  rw [ensures_bind, ensures_ask]
  exact fun column _ => ensures_pure.2 ht

end Compile

end EntityQuery

/-! ### What steps keep -/

namespace EntityQuery

/-- Steps that keep a property of states. -/
def Keeps {ε σ α : Type} (I : σ → Prop) (x : ExceptT ε (StateM σ) α) : Prop :=
  ∀ s, I s → Ensures x s fun _ => I

/-- Steps that keep a property of states, with what is known of their result. -/
def Gives {ε σ α : Type} (I : σ → Prop) (Q : α → σ → Prop) (x : ExceptT ε (StateM σ) α) : Prop :=
  ∀ s, I s → Ensures x s fun a t => I t ∧ Q a t

/-! ### Steps in a row -/

section General

variable {ε σ α β : Type} {I : σ → Prop} {P : α → σ → Prop} {Q : β → σ → Prop}
  {x : ExceptT ε (StateM σ) α} {k : α → ExceptT ε (StateM σ) β}

/-- Steps of which nothing is known come before those that count. -/
lemma ensures_after {s : σ} (hk : ∀ a t, Ensures (k a) t Q) : Ensures (x >>= k) s Q :=
  ensures_bind.2 fun a t _ => hk a t

lemma Gives.keeps (h : Gives I P x) : Keeps I x := fun s hs => (h s hs).mono fun _ _ ht => ht.1

lemma Keeps.gives (h : Keeps I x) (hP : ∀ a t, I t → P a t) : Gives I P x := fun s hs =>
  (h s hs).mono fun a t ht => ⟨ht, hP a t ht⟩

lemma keeps_pure {a : α} : Keeps I (pure a : ExceptT ε (StateM σ) α) := fun _ hs => ensures_pure.2 hs

lemma gives_pure {a : α} (h : ∀ s, I s → P a s) : Gives I P (pure a : ExceptT ε (StateM σ) α) :=
  fun s hs => ensures_pure.2 ⟨hs, h s hs⟩

lemma keeps_throw {e : ε} : Keeps I (throw e : ExceptT ε (StateM σ) α) := fun _ _ => ensures_throw

lemma gives_throw {e : ε} : Gives I P (throw e : ExceptT ε (StateM σ) α) := fun _ _ => ensures_throw

lemma Keeps.bind (hx : Keeps I x) (hk : ∀ a, Keeps I (k a)) : Keeps I (x >>= k) := fun s hs =>
  (hx s hs).bind fun a t ht => hk a t ht

/-- Steps before those whose result is known. -/
lemma Keeps.andThen (hx : Keeps I x) (hk : ∀ a, Gives I Q (k a)) : Gives I Q (x >>= k) := fun s hs =>
  (hx s hs).bind fun a t ht => hk a t ht

/-- Steps that go on with a known result. -/
lemma Gives.bind (hx : Gives I P x)
    (hk : ∀ a s, I s → P a s → Ensures (k a) s fun b t => I t ∧ Q b t) : Gives I Q (x >>= k) :=
  fun s hs => (hx s hs).bind fun a t ht => hk a t ht.1 ht.2

/-- Steps that go on with a result of which the same is known in every state. -/
lemma Gives.andThen {R : α → Prop} (hx : Gives I (fun a _ => R a) x)
    (hk : ∀ a, R a → Gives I Q (k a)) : Gives I Q (x >>= k) :=
  hx.bind fun a s hs ha => hk a ha s hs

lemma Keeps.map (hx : Keeps I x) (f : α → β) : Keeps I (f <$> x) := fun s hs =>
  ensures_map.2 (hx s hs)

lemma keeps_get_bind {k : σ → ExceptT ε (StateM σ) β} (hk : ∀ s, I s → Keeps I (k s)) :
    Keeps I (get >>= k) := fun s hs => ensures_get_bind.2 (hk s hs s hs)

lemma gives_get_bind {k : σ → ExceptT ε (StateM σ) β} (hk : ∀ s, I s → Gives I Q (k s)) :
    Gives I Q (get >>= k) := fun s hs => ensures_get_bind.2 (hk s hs s hs)

lemma keeps_modify {f : σ → σ} (hf : ∀ s, I s → I (f s)) :
    Keeps I (modify f : ExceptT ε (StateM σ) PUnit) := fun s hs => ensures_modify.2 (hf s hs)

lemma keeps_forM {f : α → ExceptT ε (StateM σ) PUnit} (as : List α) (hf : ∀ a ∈ as, Keeps I (f a)) :
    Keeps I (as.forM f) := fun _ hs => ensures_forM as (fun a ha t ht => hf a ha t ht) hs

lemma keeps_mapM {f : α → ExceptT ε (StateM σ) β} (as : List α) (hf : ∀ a ∈ as, Keeps I (f a)) :
    Keeps I (as.mapM f) := fun _ hs => ensures_mapM as (fun a ha t ht => hf a ha t ht) hs

end General

namespace Compile

open Sql

variable {α : Type} {I : CompileState → Prop} {Q : α → CompileState → Prop}

lemma keeps_reject {e : Expr} {c : Cause} : Keeps I (reject e c : Compile α) := keeps_throw

lemma gives_reject {e : Expr} {c : Cause} : Gives I Q (reject e c) := gives_throw

lemma keeps_reject_bind {β : Type} {e : Expr} {c : Cause} {k : β → Compile α} :
    Keeps I (reject e c >>= k) := fun _ _ => ensures_reject_bind

/-! ### Steps that only read -/

lemma keeps_graph : Keeps I graph := fun _ hs => ensures_graph.2 hs

lemma keeps_request (r : RequestId) : Keeps I (request r) := fun _ hs => ensures_request.2 hs

lemma keeps_ask (f : Catalog → Except MappingError α) : Keeps I (ask f) := fun _ hs =>
  ensures_ask.2 fun _ _ => hs

lemma keeps_active (e : Expr) : Keeps I (active e) := fun _ hs => ensures_active.2 fun _ _ => hs

lemma gives_argument (e : Expr) (args : List Expr) (index : Nat) :
    Gives I (fun a _ => a ∈ args) (argument e args index) := fun _ hs =>
  (ensures_argument e args index).mono fun _ _ ⟨ha, ht⟩ => ⟨ht ▸ hs, ha⟩

lemma keeps_rowCount (e count : Expr) : Keeps I (rowCount e count) := fun _ hs =>
  (ensures_rowCount e count).mono fun _ _ ht => ht ▸ hs

lemma keeps_rowOf (e : Expr) (r : RequestId) : Keeps I (rowOf e r) := by
  refine keeps_graph.bind fun g => ?_
  dsimp only
  split
  · exact keeps_pure
  · exact keeps_reject

end Compile

end EntityQuery
