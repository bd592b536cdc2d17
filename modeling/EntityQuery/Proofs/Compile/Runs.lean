import EntityQuery.Compile.Scope
import EntityQuery.Proofs.Sql.Lookup

/-!
Successful runs of compilation steps.

* `Runs x s a t`: from the state `s` the steps `x` succeed with `a` and leave the state `t`; so for
  compilation, and for the resolution of properties, whose state is the graph.
* A run of steps in a row is a run of each; a run of a single step says what the step does to the
  state.
-/

namespace EntityQuery

open Sql

/-- Steps that succeed from one state with a result and another state. -/
def Runs {ε σ α : Type} (x : ExceptT ε (StateM σ) α) (s : σ) (a : α) (t : σ) : Prop :=
  x.run.run s = (.ok a, t)

/-! ### Steps in a row -/

section General

variable {ε σ α β : Type} {s t : σ}

lemma runs_pure {a b : α} : Runs (pure a : ExceptT ε (StateM σ) α) s b t ↔ b = a ∧ t = s := by
  change ((Except.ok a : Except ε α), s) = (.ok b, t) ↔ _
  simp [eq_comm]

lemma run_bind (x : ExceptT ε (StateM σ) α) (k : α → ExceptT ε (StateM σ) β) (s : σ) :
    (x >>= k).run.run s = match x.run.run s with
      | (.ok a, t) => (k a).run.run t
      | (.error e, t) => (.error e, t) := by
  simp only [ExceptT.run_bind, StateT.run_bind]
  rcases x.run.run s with ⟨_ | _, t⟩ <;> rfl

lemma runs_bind {x : ExceptT ε (StateM σ) α} {k : α → ExceptT ε (StateM σ) β} {b : β} :
    Runs (x >>= k) s b t ↔ ∃ a u, Runs x s a u ∧ Runs (k a) u b t := by
  unfold Runs
  rw [run_bind]
  rcases x.run.run s with ⟨e | a, u⟩
  · constructor
    · intro h
      cases congrArg Prod.fst h
    · rintro ⟨a, u', h, -⟩
      cases congrArg Prod.fst h
  · constructor
    · exact fun h => ⟨a, u, rfl, h⟩
    · rintro ⟨a', u', h, h'⟩
      cases h
      exact h'

lemma Runs.bind {x : ExceptT ε (StateM σ) α} {k : α → ExceptT ε (StateM σ) β} {u : σ} {a : α}
    {b : β} (h : Runs x s a u) (hk : Runs (k a) u b t) : Runs (x >>= k) s b t :=
  runs_bind.2 ⟨a, u, h, hk⟩

lemma runs_map {x : ExceptT ε (StateM σ) α} {f : α → β} {b : β} :
    Runs (f <$> x) s b t ↔ ∃ a, Runs x s a t ∧ b = f a := by
  rw [map_eq_pure_bind, runs_bind]
  constructor
  · rintro ⟨a, u, h, h'⟩
    obtain ⟨rfl, rfl⟩ := runs_pure.1 h'
    exact ⟨a, h, rfl⟩
  · rintro ⟨a, h, rfl⟩
    exact ⟨a, t, h, runs_pure.2 ⟨rfl, rfl⟩⟩

lemma Runs.map {x : ExceptT ε (StateM σ) α} {f : α → β} {a : α} (h : Runs x s a t) :
    Runs (f <$> x) s (f a) t := runs_map.2 ⟨a, h, rfl⟩

lemma not_runs_throw {e : ε} {a : α} :
    ¬ Runs (throw e : ExceptT ε (StateM σ) α) s a t := by
  intro h
  cases congrArg Prod.fst h

lemma runs_get {u : σ} : Runs (get : ExceptT ε (StateM σ) σ) s u t ↔ u = s ∧ t = s := by
  change ((Except.ok s : Except ε σ), s) = (.ok u, t) ↔ _
  simp [eq_comm]

lemma runs_modify {f : σ → σ} {a : PUnit} :
    Runs (modify f : ExceptT ε (StateM σ) PUnit) s a t ↔ t = f s := by
  change ((Except.ok PUnit.unit : Except ε PUnit), f s) = (.ok a, t) ↔ _
  simp [eq_comm]

lemma runs_get_bind {k : σ → ExceptT ε (StateM σ) β} {b : β} :
    Runs (get >>= k) s b t ↔ Runs (k s) s b t := by
  rw [runs_bind]
  constructor
  · rintro ⟨u, v, h, h'⟩
    obtain ⟨rfl, rfl⟩ := runs_get.1 h
    exact h'
  · exact fun h => ⟨s, s, runs_get.2 ⟨rfl, rfl⟩, h⟩

/-- A step that cannot fail. -/
lemma runs_lift {x : StateM σ α} {a : α} :
    Runs (liftM x : ExceptT ε (StateM σ) α) s a t ↔ (a, t) = x.run s := by
  change ((Except.ok (x.run s).1 : Except ε α), (x.run s).2) = (.ok a, t) ↔ _
  rcases x.run s with ⟨b, u⟩
  simp [eq_comm]

end General

namespace Resolve

variable {α : Type} {g h : Graph}

lemma runs_ask {answer : Except MappingError α} {a : α} :
    Runs (Resolve.ask answer) g a h ↔ answer = .ok a ∧ h = g := by
  change (answer, g) = (.ok a, h) ↔ _
  simp [eq_comm]

end Resolve

namespace Compile

variable {α β : Type} {s t : CompileState}

lemma not_runs_reject {e : Expr} {c : Cause} {a : α} : ¬ Runs (reject e c) s a t := not_runs_throw

/-! ### The state -/

lemma runs_graph {g : Graph} : Runs graph s g t ↔ g = s.graph ∧ t = s := by
  rw [graph, runs_get_bind, runs_pure]

lemma runs_request {r : RequestId} {q : Request} :
    Runs (request r) s q t ↔ q = s.graph.request r ∧ t = s := by
  simp only [request, runs_bind, runs_graph, runs_pure]
  grind

lemma runs_build {x : Build α} {a : α} :
    Runs (build x) s a t ↔ a = (x.run s.graph).1 ∧ t = { s with graph := (x.run s.graph).2 } := by
  change ((Except.ok (x.run s.graph).1 : Except CompileError α),
    ({ s with graph := (x.run s.graph).2 } : CompileState)) = (.ok a, t) ↔ _
  simp [eq_comm]

lemma runs_add {x : Node} {n : NodeId} :
    Runs (add x) s n t ↔
      n = ⟨s.graph.entries.size⟩ ∧ t = { s with graph := (s.graph.add x).2 } := runs_build

lemma runs_edit {f : Graph → Graph} {a : Unit} :
    Runs (edit f) s a t ↔ t = { s with graph := f s.graph } := runs_modify

lemma runs_editRequest {r : RequestId} {f : Request → Request} {a : Unit} :
    Runs (editRequest r f) s a t ↔ t = { s with graph := s.graph.modifyRequest r f } := runs_edit

lemma runs_ask {f : Catalog → Except MappingError α} {a : α} :
    Runs (ask f) s a t ↔ f s.mapping.catalog = .ok a ∧ t = s := by
  rw [ask, runs_get_bind]
  cases f s.mapping.catalog with
  | ok b =>
    rw [runs_pure]
    simp [eq_comm]
  | error e => simp [not_runs_throw]

/-! ### Scopes -/

lemma runs_active {e : Expr} {r : RequestId} :
    Runs (active e) s r t ↔ s.active = some r ∧ t = s := by
  rw [active, runs_get_bind]
  cases s.active with
  | some q =>
    rw [runs_pure]
    simp [eq_comm]
  | none => simp [not_runs_reject]

lemma runs_setActive {r : RequestId} {a : Unit} :
    Runs (setActive r) s a t ↔ t = { s with active := some r } := runs_modify

lemma runs_within {r : RequestId} {x : Compile α} {a : α} :
    Runs (within r x) s a t ↔
      ∃ u, Runs x { s with active := some r } a u ∧ t = { u with active := s.active } := by
  rw [within, runs_get_bind]
  simp only [runs_bind, runs_setActive, runs_modify, runs_pure]
  constructor
  · rintro ⟨_, _, rfl, a', u, h, _, _, rfl, rfl, rfl⟩
    exact ⟨u, h, rfl⟩
  · rintro ⟨u, h, rfl⟩
    exact ⟨(), _, rfl, a, u, h, ⟨⟩, _, rfl, rfl, rfl⟩

lemma runs_widening {w : Bool} {x : Compile α} {a : α} :
    Runs (widening w x) s a t ↔
      ∃ u, Runs x { s with widen := w } a u ∧ t = { u with widen := s.widen } := by
  rw [widening, runs_get_bind]
  simp only [runs_bind, runs_modify, runs_pure]
  constructor
  · rintro ⟨_, _, rfl, a', u, h, _, _, rfl, rfl, rfl⟩
    exact ⟨u, h, rfl⟩
  · rintro ⟨u, h, rfl⟩
    exact ⟨⟨⟩, _, rfl, a, u, h, ⟨⟩, _, rfl, rfl, rfl⟩

lemma runs_leave {r : RequestId} {a : Unit} :
    Runs (leave r) s a t ↔
      t = match (s.graph.request r).parent with
        | some outer => { s with active := some outer }
        | none => s := by
  simp only [leave, runs_bind, runs_request]
  constructor
  · rintro ⟨q, u, ⟨rfl, rfl⟩, h⟩
    cases hp : (u.graph.request r).parent with
    | some outer => simpa [hp, runs_setActive] using h
    | none => simpa [hp, runs_pure] using h
  · rintro rfl
    refine ⟨_, s, ⟨rfl, rfl⟩, ?_⟩
    cases hp : (s.graph.request r).parent with
    | some outer => simp [runs_setActive]
    | none => simp [runs_pure]

/-! ### Members -/

/-- What a resolved property stands for. -/
def meaningOf : Resolved → Meaning
  | .value n => .value n
  | .row a => .row a

lemma run_resolveStep (r : RequestId) (a : AliasId) (p : PropertyRef) (s : CompileState) :
    (resolveStep r a p).run.run s =
      let (result, g) := (s.mapping.resolve r a p s.widen).run.run s.graph
      (match result with
        | .ok (.value n) => .ok (.value n)
        | .ok (.row b) => .ok (.row b)
        | .error e => .error (.mapping e), { s with graph := g }) := by
  have hrun : (resolveStep r a p).run.run s =
      (match ((s.mapping.resolve r a p s.widen).run.run s.graph).1 with
        | .ok (.value n) => (pure (.value n) : Compile Meaning)
        | .ok (.row b) => pure (.row b)
        | .error e => throw (CompileError.mapping e)).run.run
          { s with graph := ((s.mapping.resolve r a p s.widen).run.run s.graph).2 } := rfl
  rw [hrun]
  rcases (s.mapping.resolve r a p s.widen).run.run s.graph with ⟨(e | (n | b)), g⟩ <;> rfl

lemma runs_resolveStep {r : RequestId} {a : AliasId} {p : PropertyRef} {m : Meaning} :
    Runs (resolveStep r a p) s m t ↔
      ∃ x g, Runs (s.mapping.resolve r a p s.widen) s.graph x g ∧ m = meaningOf x ∧
        t = { s with graph := g } := by
  rw [resolveStep, runs_get_bind]
  unfold Runs
  rcases hx : (s.mapping.resolve r a p s.widen).run.run s.graph with ⟨e | x, g⟩
  · constructor
    · intro h
      cases congrArg Prod.fst h
    · rintro ⟨x, g', h, -⟩
      cases congrArg Prod.fst h
  · constructor
    · intro h
      refine ⟨x, g, rfl, ?_⟩
      cases x <;> cases h <;> exact ⟨rfl, rfl⟩
    · rintro ⟨x', g', h, rfl, rfl⟩
      cases h
      cases x <;> rfl

/-- Without projected members, a member is what the mapping says. -/
lemma runs_resolveMember {e : Expr} {a : AliasId} {p : PropertyRef} {m : Meaning}
    (hpaths : s.paths = []) (hcomputed : s.computed = []) :
    Runs (resolveMember e a p) s m t ↔
      ∃ r, s.active = some r ∧ Runs (resolveStep r a p) s m t := by
  have hfollow : ∀ r, Runs (follow e r (.row a) [p]) s m t ↔ Runs (resolveStep r a p) s m t := by
    intro r
    rw [follow, runs_bind]
    constructor
    · rintro ⟨m', u, h, h'⟩
      cases m' <;> obtain ⟨rfl, rfl⟩ := runs_pure.1 h' <;> exact h
    · intro h
      refine ⟨m, t, h, ?_⟩
      cases m <;> exact runs_pure.2 ⟨rfl, rfl⟩
  have hpath : realPath s.paths pathLimit [p] = [p] := by rw [hpaths]; rfl
  rw [resolveMember, runs_bind]
  constructor
  · rintro ⟨r, u, h, h'⟩
    obtain ⟨hr, rfl⟩ := runs_active.1 h
    rw [runs_get_bind] at h'
    dsimp only at h'
    rw [runs_get_bind, hpath, hcomputed] at h'
    exact ⟨r, hr, (hfollow r).1 h'⟩
  · rintro ⟨r, hr, h⟩
    refine ⟨r, s, runs_active.2 ⟨hr, rfl⟩, ?_⟩
    rw [runs_get_bind]
    dsimp only
    rw [runs_get_bind, hpath, hcomputed]
    exact (hfollow r).2 h

/-! ### Collections -/

lemma runs_takeJoin {e : Expr} {r : RequestId} {a : AliasId} {j : Join} :
    Runs (takeJoin e r a) s j t ↔ (s.graph.request r).joinFor? a = some j ∧
      t = { s with graph := s.graph.dropJoin r a } := by
  rw [takeJoin, runs_bind]
  have htake : ∀ o u, Runs (modifyGet fun s : CompileState =>
      ((s.graph.takeJoin r a).1, { s with graph := (s.graph.takeJoin r a).2 }) : Compile (Option Join))
      s o u ↔ o = (s.graph.takeJoin r a).1 ∧ u = { s with graph := (s.graph.takeJoin r a).2 } := by
    intro o u
    change ((Except.ok (s.graph.takeJoin r a).1 : Except CompileError (Option Join)), _) = (_, _) ↔ _
    simp [eq_comm]
  constructor
  · rintro ⟨o, u, h, h'⟩
    obtain ⟨rfl, rfl⟩ := (htake o u).1 h
    cases hj : (s.graph.request r).joinFor? a with
    | none =>
      simp only [Graph.takeJoin, hj] at h'
      exact absurd h' not_runs_reject
    | some k =>
      simp only [Graph.takeJoin, hj] at h'
      obtain ⟨rfl, rfl⟩ := runs_pure.1 h'
      exact ⟨rfl, rfl⟩
  · rintro ⟨hj, rfl⟩
    refine ⟨_, _, (htake _ _).2 ⟨rfl, rfl⟩, ?_⟩
    simp only [Graph.takeJoin, hj]
    exact runs_pure.2 ⟨rfl, rfl⟩

/-- A collection moves into a request of its own; its link table moves along. -/
lemma runs_hoist {e : Expr} {a : AliasId} {r : RequestId} :
    Runs (hoist e a) s r t ↔ ∃ outer first, s.active = some outer ∧
      (s.graph.request outer).joinFor? a = some first ∧ r = ⟨s.graph.requests.size⟩ ∧
      match (s.graph.aliasOf a).via? with
      | none => t = { s with graph :=
          ((s.graph.dropJoin outer a).openRequest outer a).andFilter r first.condition }
      | some l => ∃ last, ((s.graph.dropJoin outer a).request outer).joinFor? l = some last ∧
        t = { s with graph := ((((s.graph.dropJoin outer a).dropJoin outer l).openRequest outer a).pushJoin
          r ⟨last.source, .inner, first.condition⟩).andFilter r last.condition } := by
  unfold hoist
  constructor
  · intro hrun
    obtain ⟨outer, u₁, h₁, hrun₁⟩ := runs_bind.1 hrun
    obtain ⟨hactive, hu₁⟩ := runs_active.1 h₁
    subst u₁
    obtain ⟨g, u₂, h₂, hrun₂⟩ := runs_bind.1 hrun₁
    obtain ⟨hg, hu₂⟩ := runs_graph.1 h₂
    subst u₂ g
    obtain ⟨first, u₃, h₃, hrun₃⟩ := runs_bind.1 hrun₂
    obtain ⟨hfirst, hu₃⟩ := runs_takeJoin.1 h₃
    subst u₃
    obtain ⟨link, u₄, h₄, hrun₄⟩ := runs_bind.1 hrun₃
    obtain ⟨q, u₅, h₅, hrun₅⟩ := runs_bind.1 hrun₄
    obtain ⟨hq, hu₅⟩ := runs_build.1 h₅
    obtain ⟨_, u₆, h₆, hrun₆⟩ := runs_bind.1 hrun₅
    have hu₆ := runs_editRequest.1 h₆
    refine ⟨outer, first, hactive, hfirst, ?_⟩
    cases hvia : (s.graph.aliasOf a).via? with
    | none =>
      rw [hvia] at h₄
      obtain ⟨hlink, hu₄⟩ := runs_pure.1 h₄
      subst link u₄
      obtain ⟨_, u₇, h₇, hrun₇⟩ := runs_bind.1 hrun₆
      obtain ⟨rfl, rfl⟩ := runs_pure.1 hrun₇
      have hu₇ := runs_edit.1 h₇
      subst hu₇ hu₆ hu₅ hq
      refine ⟨congrArg RequestId.mk ?_, rfl⟩
      exact s.graph.size_requests_dropJoin outer a
    | some l =>
      rw [hvia] at h₄
      obtain ⟨last, h₄, hlink⟩ := runs_map.1 h₄
      obtain ⟨hlast, hu₄⟩ := runs_takeJoin.1 h₄
      subst link u₄
      obtain ⟨_, u₇, h₇, hrun₇⟩ := runs_bind.1 hrun₆
      obtain ⟨_, u₈, h₈, hrun₈⟩ := runs_bind.1 hrun₇
      obtain ⟨rfl, rfl⟩ := runs_pure.1 hrun₈
      have hu₇ := runs_edit.1 h₇
      have hu₈ := runs_edit.1 h₈
      subst hu₈ hu₇ hu₆ hu₅ hq
      refine ⟨congrArg RequestId.mk ?_, last, hlast, rfl⟩
      exact ((s.graph.dropJoin outer a).size_requests_dropJoin outer l).trans
        (s.graph.size_requests_dropJoin outer a)
  · rintro ⟨outer, first, hactive, hfirst, hr, hrest⟩
    refine Runs.bind (runs_active.2 ⟨hactive, rfl⟩) (Runs.bind (runs_graph.2 ⟨rfl, rfl⟩)
      (Runs.bind (runs_takeJoin.2 ⟨hfirst, rfl⟩) ?_))
    cases hvia : (s.graph.aliasOf a).via? with
    | none =>
      rw [hvia] at hrest
      have hr' : r = ⟨(s.graph.dropJoin outer a).requests.size⟩ := by
        rw [hr, Graph.size_requests_dropJoin]
      rw [hrest, hr']
      exact Runs.bind (runs_pure.2 ⟨rfl, rfl⟩) (Runs.bind (runs_build.2 ⟨rfl, rfl⟩)
        (Runs.bind (a := ()) (runs_editRequest.2 rfl) (Runs.bind (a := ()) (runs_edit.2 rfl)
          (runs_pure.2 ⟨rfl, rfl⟩))))
    | some l =>
      rw [hvia] at hrest
      obtain ⟨last, hlast, ht⟩ := hrest
      have hr' : r = ⟨((s.graph.dropJoin outer a).dropJoin outer l).requests.size⟩ := by
        rw [hr, Graph.size_requests_dropJoin, Graph.size_requests_dropJoin]
      rw [ht, hr']
      exact Runs.bind (Runs.map (runs_takeJoin.2 ⟨hlast, rfl⟩)) (Runs.bind (runs_build.2 ⟨rfl, rfl⟩)
        (Runs.bind (a := ()) (runs_editRequest.2 rfl) (Runs.bind (a := ()) (runs_edit.2 rfl)
          (Runs.bind (a := ()) (runs_edit.2 rfl) (runs_pure.2 ⟨rfl, rfl⟩)))))

end Compile

/-! ### Properties -/

namespace Mapping

variable {m : Mapping} {g h : Graph} {r : RequestId} {owner : AliasId} {p : PropertyRef}
  {widen : Bool}

/-- Without registered fragments, a property is where the catalog says. -/
lemma resolve_eq_locate (hm : m.equivalents = []) (r : RequestId) (a : AliasId) (p : PropertyRef)
    (widen : Bool) : m.resolve r a p widen = m.locate r a p widen := by
  rw [resolve, resolveWithin, hm]
  rfl

lemma runs_joinOn {source a b : AliasId} {c c' : String} {u : Unit} :
    Runs (liftM (joinOn r source widen a c b c') : Resolve Unit) g u h ↔
      h = g.joinEqual r source widen a c b c' := by
  rw [runs_lift]
  change (u, h) = ((), g.joinEqual r source widen a c b c') ↔ _
  simp

lemma runs_tableAlias {entity : String} {route : Route} {a : AliasId} :
    Runs (m.tableAlias entity route) g a h ↔ ∃ table key, m.catalog.tableName entity = .ok table ∧
      m.catalog.idColumn entity = .ok key ∧ a = ⟨g.aliases.size⟩ ∧
      h = (g.addAlias { Alias.ofTable table entity (some key) with route }).2 := by
  unfold tableAlias
  simp only [runs_bind, Resolve.runs_ask]
  constructor
  · rintro ⟨table, _, ⟨htable, rfl⟩, key, _, ⟨hkey, rfl⟩, hrun⟩
    have hpair := runs_lift.1 hrun
    exact ⟨table, key, htable, hkey, congrArg Prod.fst hpair, congrArg Prod.snd hpair⟩
  · rintro ⟨table, key, htable, hkey, rfl, rfl⟩
    exact ⟨table, g, ⟨htable, rfl⟩, key, g, ⟨hkey, rfl⟩, runs_lift.2 rfl⟩

/-- A reference is joined once; a join that exists may have to keep rows without a partner. -/
lemma runs_joinReference {column target : String} {a : AliasId} :
    Runs (m.joinReference r owner p column target widen) g a h ↔
      (g.navigated? r owner p = some a ∧ h = if widen then g.widenJoin r a else g) ∨
      (g.navigated? r owner p = none ∧ ∃ table key, m.catalog.tableName target = .ok table ∧
        m.catalog.idColumn target = .ok key ∧ a = ⟨g.aliases.size⟩ ∧
        h = (g.addAlias { Alias.ofTable table target (some key) with
            route := .navigation owner p none }).2.joinEqual r a widen owner column a key) := by
  rw [joinReference, runs_get_bind]
  cases hnavigated : g.navigated? r owner p with
  | some b =>
    simp only [reduceCtorEq, false_and, or_false, Option.some.injEq]
    cases widen with
    | true =>
      change Runs ((modify (·.widenJoin r b) : Resolve PUnit) >>= fun _ => pure b) g a h ↔ _
      simp only [runs_bind, runs_modify, runs_pure, if_pos]
      constructor
      · rintro ⟨_, _, rfl, rfl, rfl⟩
        exact ⟨rfl, rfl⟩
      · rintro ⟨rfl, rfl⟩
        exact ⟨⟨⟩, _, rfl, rfl, rfl⟩
    | false =>
      change Runs (pure b : Resolve AliasId) g a h ↔ _
      rw [runs_pure, if_neg Bool.false_ne_true, eq_comm]
  | none =>
    simp only [reduceCtorEq, false_and, false_or, true_and, runs_bind, runs_tableAlias,
      Resolve.runs_ask, runs_joinOn, runs_pure]
    constructor
    · rintro ⟨_, _, ⟨table, key, htable, hkey, rfl, rfl⟩, key', _, ⟨hkey', rfl⟩, _, _, rfl, rfl, rfl⟩
      cases hkey.symm.trans hkey'
      exact ⟨table, key, htable, hkey, rfl, rfl⟩
    · rintro ⟨table, key, htable, hkey, rfl, rfl⟩
      exact ⟨_, _, ⟨table, key, htable, hkey, rfl, rfl⟩, key, _, ⟨hkey, rfl⟩, (), _, rfl, rfl, rfl⟩

lemma runs_joinCollection {column target : String} {a : AliasId} :
    Runs (m.joinCollection r owner p column target widen) g a h ↔
      ∃ table targetKey key, m.catalog.tableName target = .ok table ∧
        m.catalog.idColumn target = .ok targetKey ∧ m.catalog.idColumn p.owner = .ok key ∧
        a = ⟨g.aliases.size⟩ ∧
        h = (g.addAlias { Alias.ofTable table target (some targetKey) with
            route := .navigation owner p none }).2.joinEqual r a widen a column owner key := by
  simp only [joinCollection, runs_bind, runs_tableAlias, Resolve.runs_ask, runs_joinOn, runs_pure]
  constructor
  · rintro ⟨_, _, ⟨table, targetKey, htable, htarget, rfl, rfl⟩, key, _, ⟨hkey, rfl⟩, _, _, rfl, rfl,
      rfl⟩
    exact ⟨table, targetKey, key, htable, htarget, hkey, rfl, rfl⟩
  · rintro ⟨table, targetKey, key, htable, htarget, hkey, rfl, rfl⟩
    exact ⟨_, _, ⟨table, targetKey, htable, htarget, rfl, rfl⟩, key, _, ⟨hkey, rfl⟩, (), _, rfl, rfl,
      rfl⟩

/-- The link table of a relation. -/
def linkAlias (owner : AliasId) (p : PropertyRef) (linkTable : String) : Alias :=
  { origin := .table linkTable, entity := none, idColumn := none, route := .link owner p }

/-- The link table of a relation, joined to the owner. -/
def joinLink (g : Graph) (r : RequestId) (owner : AliasId) (p : PropertyRef)
    (linkTable ownerColumn ownerKey : String) (widen : Bool) : Graph :=
  (g.addAlias (linkAlias owner p linkTable)).2.joinEqual r ⟨g.aliases.size⟩ widen ⟨g.aliases.size⟩
    ownerColumn owner ownerKey

lemma runs_joinLinked {target linkTable ownerColumn targetColumn : String} {a : AliasId} :
    Runs (m.joinLinked r owner p target linkTable ownerColumn targetColumn widen) g a h ↔
      ∃ table targetKey ownerKey, m.catalog.tableName target = .ok table ∧
        m.catalog.idColumn target = .ok targetKey ∧ m.catalog.idColumn p.owner = .ok ownerKey ∧
        a = ⟨g.aliases.size + 1⟩ ∧
        h = ((joinLink g r owner p linkTable ownerColumn ownerKey widen).addAlias
          { Alias.ofTable table target (some targetKey) with
            route := .navigation owner p (some ⟨g.aliases.size⟩) }).2.joinEqual r a widen a targetKey
          ⟨g.aliases.size⟩ targetColumn := by
  have hsize : ∀ k, (joinLink g r owner p linkTable ownerColumn k widen).aliases.size =
      g.aliases.size + 1 := fun k => by simp [joinLink, Graph.joinEqual, Graph.pushJoin]
  have hlink : ∀ l k, Runs (liftM (Build.addAlias (linkAlias owner p linkTable)) :
      Resolve AliasId) g l k ↔
        l = ⟨g.aliases.size⟩ ∧ k = (g.addAlias (linkAlias owner p linkTable)).2 := by
    intro l k
    rw [runs_lift]
    change (l, k) = (⟨g.aliases.size⟩, (g.addAlias (linkAlias owner p linkTable)).2) ↔ _
    rw [Prod.mk.injEq]
  unfold joinLinked
  constructor
  · intro hrun
    obtain ⟨ownerKey, _, h₁, hrun₁⟩ := runs_bind.1 hrun
    obtain ⟨howner, rfl⟩ := Resolve.runs_ask.1 h₁
    obtain ⟨targetKey, _, h₂, hrun₂⟩ := runs_bind.1 hrun₁
    obtain ⟨htarget, rfl⟩ := Resolve.runs_ask.1 h₂
    obtain ⟨l, k, h₃, hrun₃⟩ := runs_bind.1 hrun₂
    obtain ⟨rfl, rfl⟩ := (hlink l k).1 h₃
    obtain ⟨_, k, h₄, hrun₄⟩ := runs_bind.1 hrun₃
    obtain rfl : k = joinLink _ r owner p linkTable ownerColumn ownerKey widen := runs_joinOn.1 h₄
    obtain ⟨b, k, h₅, hrun₅⟩ := runs_bind.1 hrun₄
    obtain ⟨table, targetKey', htable, htarget', rfl, rfl⟩ := runs_tableAlias.1 h₅
    cases htarget.symm.trans htarget'
    obtain ⟨_, k, h₆, hrun₆⟩ := runs_bind.1 hrun₅
    obtain ⟨rfl, rfl⟩ := runs_pure.1 hrun₆
    rw [runs_joinOn.1 h₆, hsize]
    exact ⟨table, targetKey, ownerKey, htable, htarget, howner, rfl, rfl⟩
  · rintro ⟨table, targetKey, ownerKey, htable, htarget, howner, rfl, rfl⟩
    refine Runs.bind (Resolve.runs_ask.2 ⟨howner, rfl⟩) (Runs.bind (Resolve.runs_ask.2 ⟨htarget, rfl⟩)
      (Runs.bind ((hlink _ _).2 ⟨rfl, rfl⟩) (Runs.bind (a := ()) (runs_joinOn.2 rfl)
        (Runs.bind (runs_tableAlias.2 ⟨table, targetKey, htable, htarget, rfl, rfl⟩)
          (Runs.bind (a := ()) (runs_joinOn.2 rfl) (runs_pure.2 ?_))))))
    rw [← hsize ownerKey]
    exact ⟨rfl, rfl⟩

/-- A mapped property is a column of the row or a navigation from it. -/
lemma runs_locate {x : Resolved} :
    Runs (m.locate r owner p widen) g x h ↔ ∃ stored, m.catalog.propertyMapping p = .ok stored ∧
      match stored.kind with
      | .scalar _ _ _ => x = .value ⟨g.entries.size⟩ ∧ h = (g.add (.column owner stored.column)).2
      | .reference target => ∃ a, x = .row a ∧
        Runs (m.joinReference r owner p stored.column target widen) g a h
      | .collection target => ∃ a, x = .row a ∧
        Runs (m.joinCollection r owner p stored.column target widen) g a h
      | .manyToMany target link oc tc => ∃ a, x = .row a ∧
        Runs (m.joinLinked r owner p target link oc tc widen) g a h := by
  have hcolumn : ∀ c, Runs (Resolved.value <$> (liftM (Build.add (.column owner c)) :
      Resolve NodeId)) g x h ↔
      x = .value ⟨g.entries.size⟩ ∧ h = (g.add (.column owner c)).2 := by
    intro c
    simp only [runs_map, runs_lift]
    constructor
    · rintro ⟨n, hn, rfl⟩
      exact ⟨congrArg (fun y => Resolved.value y.1) hn, congrArg Prod.snd hn⟩
    · rintro ⟨rfl, rfl⟩
      exact ⟨_, rfl, rfl⟩
  have hrow : ∀ y : Resolve AliasId, Runs (Resolved.row <$> y) g x h ↔
      ∃ a, x = .row a ∧ Runs y g a h := by
    intro y
    rw [runs_map]
    exact exists_congr fun a => and_comm
  unfold locate
  simp only [runs_bind, Resolve.runs_ask]
  constructor
  · rintro ⟨stored, _, ⟨hstored, rfl⟩, hrun⟩
    refine ⟨stored, hstored, ?_⟩
    cases hkind : stored.kind <;> simp only [hkind] at hrun ⊢
    · exact (hcolumn _).1 hrun
    · exact (hrow _).1 hrun
    · exact (hrow _).1 hrun
    · exact (hrow _).1 hrun
  · rintro ⟨stored, hstored, hrun⟩
    refine ⟨stored, g, ⟨hstored, rfl⟩, ?_⟩
    cases hkind : stored.kind <;> simp only [hkind] at hrun ⊢
    · exact (hcolumn _).2 hrun
    · exact (hrow _).2 hrun
    · exact (hrow _).2 hrun
    · exact (hrow _).2 hrun

/-- A scalar is read from its column. -/
lemma runs_locate_scalar {stored : PropertyMapping} (hp : m.catalog.propertyMapping p = .ok stored)
    (hscalar : stored.isScalar = true) : Runs (m.locate r owner p widen) g
      (.value ⟨g.entries.size⟩) (g.add (.column owner stored.column)).2 := by
  refine runs_locate.2 ⟨stored, hp, ?_⟩
  unfold PropertyMapping.isScalar at hscalar
  split at hscalar
  · next hkind =>
    rw [hkind]
    exact ⟨rfl, rfl⟩
  · cases hscalar

end Mapping

end EntityQuery
