import EntityQuery.Mapping.Resolve
import EntityQuery.Proofs.Climbing.Graphs
import EntityQuery.Proofs.Compile.Runs

/-!
Properties and compilation steps by single steps of the graph.

* `Climbs x`: however the steps `x` end, in a result or in an unknown property, what they have done to
  the graph is a row of single steps.
* Resolving a property opens no request and moves none: it adds aliases, joins and values.
* `Reaches n x Q`: from every upright state with `n` requests or more, the steps `x` change the graph
  by single steps and leave an upright state, whether they succeed or fail; if they succeed, their
  result and the number of requests then satisfy `Q`.
* Requests are never taken away, so that a request that is there at first is there throughout.
-/

namespace EntityQuery

open Sql Graph

namespace Resolve

variable {α β : Type}

/-- Steps of a graph, whether a property is found or not. -/
def Climbs (x : Resolve α) : Prop := ∀ g, Steps g (x.run.run g).2

lemma climbs_pure (a : α) : Climbs (pure a) := fun _ => .refl

lemma climbs_throw (e : MappingError) : Climbs (throw e : Resolve α) := fun _ => .refl

lemma Climbs.bind {x : Resolve α} {k : α → Resolve β} (hx : Climbs x) (hk : ∀ a, Climbs (k a)) :
    Climbs (x >>= k) := by
  intro g
  have hfirst := hx g
  rw [run_bind]
  rcases hrun : x.run.run g with ⟨e | a, h⟩ <;> rw [hrun] at hfirst
  · exact hfirst
  · exact hfirst.trans (hk a h)

lemma Climbs.map {x : Resolve α} (hx : Climbs x) (f : α → β) : Climbs (f <$> x) := by
  rw [map_eq_pure_bind]
  exact hx.bind fun a => climbs_pure (f a)

lemma climbs_ask (answer : Except MappingError α) : Climbs (ask answer) := fun _ => .refl

lemma climbs_get_bind {k : Graph → Resolve β} (hk : ∀ g, Climbs (k g)) : Climbs (get >>= k) :=
  fun g => hk g g

lemma climbs_modify {f : Graph → Graph} (hf : ∀ g, Steps g (f g)) : Climbs (modify f) := hf

lemma climbs_build {x : Build α} (hx : ∀ g, Steps g (x.run g).2) : Climbs (liftM x) := hx

lemma climbs_add (x : Node) : Climbs (liftM (Build.add x)) := climbs_build fun g => steps_add g x

end Resolve

open Resolve

/-! ### Joins -/

lemma climbs_joinOn (r : RequestId) (source : AliasId) (widen : Bool) (a : AliasId) (column : String)
    (b : AliasId) (column' : String) : Climbs (liftM (joinOn r source widen a column b column')) := by
  refine climbs_build fun g => ?_
  have hcolumns := (steps_add g (.column a column)).trans (steps_add _ (.column b column'))
  have hcondition := hcolumns.trans (steps_add _ (.binary .equal ⟨g.entries.size⟩
    ((g.add (.column a column)).2.add (.column b column')).1))
  exact hcondition.trans (steps_pushJoin _ r ⟨source, .ofWiden widen, _⟩)

lemma steps_widenJoin (g : Graph) (r : RequestId) (a : AliasId) : Steps g (g.widenJoin r a) :=
  steps_modifyRequest g r fun _ => rfl

namespace Mapping

variable (m : Mapping) (r : RequestId) (owner : AliasId) (p : PropertyRef) (widen : Bool)

lemma climbs_tableAlias (entity : String) (route : Route) : Climbs (m.tableAlias entity route) :=
  (climbs_ask _).bind fun _ => (climbs_ask _).bind fun _ => climbs_build fun g => steps_addAlias g _

lemma climbs_joinReference (column target : String) :
    Climbs (m.joinReference r owner p column target widen) := by
  refine climbs_get_bind fun g => ?_
  split
  · next a _ =>
    split
    · exact (climbs_modify fun g => steps_widenJoin g r a).bind fun _ => climbs_pure _
    · exact climbs_pure _
  · refine (m.climbs_tableAlias target _).bind fun a => (climbs_ask _).bind fun key => ?_
    exact (climbs_joinOn r a widen owner column a key).bind fun _ => climbs_pure a

lemma climbs_joinCollection (column target : String) :
    Climbs (m.joinCollection r owner p column target widen) := by
  refine (m.climbs_tableAlias target _).bind fun a => (climbs_ask _).bind fun key => ?_
  exact (climbs_joinOn r a widen a column owner key).bind fun _ => climbs_pure a

lemma climbs_joinLinked (target linkTable ownerColumn targetColumn : String) :
    Climbs (m.joinLinked r owner p target linkTable ownerColumn targetColumn widen) := by
  refine (climbs_ask _).bind fun ownerKey => (climbs_ask _).bind fun targetKey => ?_
  refine (climbs_build fun g => steps_addAlias g _).bind fun link => ?_
  refine (climbs_joinOn r link widen link ownerColumn owner ownerKey).bind fun _ => ?_
  refine (m.climbs_tableAlias target _).bind fun a => ?_
  exact (climbs_joinOn r a widen a targetKey link targetColumn).bind fun _ => climbs_pure a

/-! ### Properties -/

lemma climbs_locate : Climbs (m.locate r owner p widen) := by
  refine (climbs_ask _).bind fun stored => ?_
  split
  · exact (climbs_add _).map _
  · exact (m.climbs_joinReference r owner p widen _ _).map _
  · exact (m.climbs_joinCollection r owner p widen _ _).map _
  · exact (m.climbs_joinLinked r owner p widen _ _ _ _).map _

variable {m r widen}

mutual
/-- A fragment is placed by steps if its paths are walked by steps. -/
theorem climbs_place {walk : List PropertyRef → Resolve AliasId} (hwalk : ∀ path, Climbs (walk path)) :
    ∀ f : Fragment, Climbs (f.place walk)
  | .column path _ => (hwalk path).bind fun _ => climbs_add _
  | .row path => (hwalk path).bind fun _ => climbs_add _
  | .const _ => climbs_add _
  | .unary _ none => climbs_add _
  | .unary _ (some e) => (climbs_place hwalk e).bind fun _ => climbs_add _
  | .binary _ l r =>
    (climbs_place hwalk l).bind fun _ => (climbs_place hwalk r).bind fun _ => climbs_add _
  | .isIn e vs =>
    (climbs_place hwalk e).bind fun _ => (climbs_placeAll hwalk vs).bind fun _ => climbs_add _
  | .cond t y n =>
    (climbs_place hwalk t).bind fun _ => (climbs_place hwalk y).bind fun _ =>
      (climbs_place hwalk n).bind fun _ => climbs_add _

theorem climbs_placeAll {walk : List PropertyRef → Resolve AliasId}
    (hwalk : ∀ path, Climbs (walk path)) : ∀ fs : List Fragment, Climbs (Fragment.placeAll walk fs)
  | [] => climbs_pure _
  | f :: fs =>
    (climbs_place hwalk f).bind fun _ => (climbs_placeAll hwalk fs).bind fun _ => climbs_pure _
end

lemma climbs_walk {resolve : AliasId → PropertyRef → Resolve Resolved}
    (hresolve : ∀ owner p, Climbs (resolve owner p)) (owner : AliasId) (path : List PropertyRef) :
    Climbs (walk resolve owner path) := by
  induction path generalizing owner with
  | nil => exact climbs_pure owner
  | cons p path ih =>
    refine (hresolve owner p).bind fun x => ?_
    cases x with
    | row a => exact ih a
    | value n => exact climbs_throw _

lemma climbs_resolveWithin (fuel : Nat) (owner : AliasId) (p : PropertyRef) :
    Climbs (m.resolveWithin r widen fuel owner p) := by
  induction fuel generalizing owner p with
  | zero =>
    rw [resolveWithin]
    split
    · exact m.climbs_locate r owner p widen
    · exact climbs_throw _
  | succ fuel ih =>
    rw [resolveWithin]
    split
    · exact m.climbs_locate r owner p widen
    · next f _ => exact (climbs_place (climbs_walk ih owner) f).map _

theorem climbs_resolve (m : Mapping) (r : RequestId) (owner : AliasId) (p : PropertyRef)
    (widen : Bool) : Climbs (m.resolve r owner p widen) := climbs_resolveWithin _ owner p

end Mapping

/-! ### Compilation steps -/

/-- The graph of a state ascends, and the active request is in it. -/
structure CompileState.Upright (s : CompileState) : Prop where
  graph : s.graph.Ascends
  active : ∀ r, s.active = some r → r.index < s.graph.requests.size

/-- A request that an expression stands for is one of the first `n`. -/
def Meaning.Inside (m : Meaning) (n : ℕ) : Prop := ∀ r, m = .query r → r.index < n

lemma Meaning.inside_mono (m : Meaning) (n k : ℕ) (h : m.Inside n) (hnk : n ≤ k) : m.Inside k :=
  fun r hr => (h r hr).trans_le hnk

lemma Meaning.inside_value (a : NodeId) (n : ℕ) : Meaning.Inside (.value a) n := nofun

lemma Meaning.inside_row (a : AliasId) (n : ℕ) : Meaning.Inside (.row a) n := nofun

lemma Meaning.inside_query {r : RequestId} {n : ℕ} (h : r.index < n) : Meaning.Inside (.query r) n := by
  rintro q ⟨⟩
  exact h

namespace Compile

variable {α β : Type} {n k : ℕ} {x : Compile α} {P : α → ℕ → Prop} {Q : β → ℕ → Prop}
  {s : CompileState} {r : RequestId}

/-- However steps end, they change the graph by single steps; what is known of a result. -/
def Reaches (n : ℕ) (x : Compile α) (P : α → ℕ → Prop) : Prop :=
  ∀ s, s.Upright → n ≤ s.graph.requests.size →
    Steps s.graph (x.run.run s).2.graph ∧ (x.run.run s).2.Upright ∧
      ∀ a, (x.run.run s).1 = .ok a → P a (x.run.run s).2.graph.requests.size

/-- However steps end, they change the graph by single steps. -/
abbrev Climbs (n : ℕ) (x : Compile α) : Prop := Reaches n x fun _ _ => True

/-! ### Steps in general -/

lemma reaches_pure {a : α} (h : ∀ k, n ≤ k → P a k) : Reaches n (pure a) P := by
  refine fun s hs hn => ⟨.refl, hs, ?_⟩
  rintro b ⟨⟩
  exact h _ hn

lemma climbs_pure (a : α) : Climbs n (pure a) := reaches_pure fun _ _ => trivial

lemma reaches_throw (e : CompileError) : Reaches n (throw e) P := by
  refine fun s hs _ => ⟨.refl, hs, ?_⟩
  rintro a ⟨⟩

lemma reaches_reject (e : Expr) (c : Cause) : Reaches n (reject e c) P := reaches_throw _

lemma reaches_reject_bind {e : Expr} {c : Cause} {f : α → Compile β} :
    Reaches n (reject e c >>= f) Q := by
  refine fun s hs _ => ⟨.refl, hs, ?_⟩
  rintro a ⟨⟩

lemma Reaches.later (hx : Reaches n x P) (hnk : n ≤ k) : Reaches k x P := fun s hs hk =>
  hx s hs (hnk.trans hk)

lemma Reaches.mono {P' : α → ℕ → Prop} (hx : Reaches n x P) (h : ∀ a k, P a k → P' a k) :
    Reaches n x P' := fun s hs hn =>
  let ⟨hsteps, hupright, ha⟩ := hx s hs hn
  ⟨hsteps, hupright, fun a hrun => h a _ (ha a hrun)⟩

lemma Reaches.bind {f : α → Compile β} (hx : Reaches n x P)
    (hf : ∀ a k, n ≤ k → P a k → Reaches k (f a) Q) : Reaches n (x >>= f) Q := by
  intro s hs hn
  obtain ⟨hsteps, hupright, ha⟩ := hx s hs hn
  rw [run_bind]
  rcases hrun : x.run.run s with ⟨e | a, t⟩ <;> rw [hrun] at hsteps hupright ha
  · exact ⟨hsteps, hupright, nofun⟩
  · have hsize := Steps.size_le hsteps
    obtain ⟨hsteps', hrest⟩ := hf a _ (hn.trans hsize) (ha a rfl) t hupright le_rfl
    exact ⟨hsteps.trans hsteps', hrest⟩

/-- Steps of whose result nothing is known. -/
lemma Climbs.andThen {f : α → Compile β} (hx : Climbs n x) (hf : ∀ a, Reaches n (f a) Q) :
    Reaches n (x >>= f) Q := Reaches.bind hx fun a _ hk _ => (hf a).later hk

lemma Reaches.map {f : α → β} (hx : Reaches n x P) (hf : ∀ a k m, P a k → k ≤ m → Q (f a) m) :
    Reaches n (f <$> x) Q := by
  rw [map_eq_pure_bind]
  exact hx.bind fun a k _ ha => reaches_pure fun m hm => hf a k m ha hm

/-- A value is no request. -/
lemma Climbs.value {x : Compile NodeId} (hx : Climbs n x) :
    Reaches n (Meaning.value <$> x) Meaning.Inside :=
  hx.map fun a _ m _ _ => Meaning.inside_value a m

/-- What is read from a state is there for what follows. -/
lemma reaches_get_bind {f : CompileState → Compile β}
    (hf : ∀ s, s.Upright → n ≤ s.graph.requests.size → Reaches s.graph.requests.size (f s) Q) :
    Reaches n (get >>= f) Q := fun s hs hn => hf s hs hn s hs le_rfl

/-- Changes of the state that leave its graph and its active request alone. -/
lemma climbs_modify {f : CompileState → CompileState} (hgraph : ∀ s, (f s).graph = s.graph)
    (hactive : ∀ s, (f s).active = s.active) : Climbs n (modify f) := by
  intro s hs _
  show Steps s.graph (f s).graph ∧ (f s).Upright ∧ _
  refine ⟨by rw [hgraph], ⟨?_, ?_⟩, fun _ _ => trivial⟩
  · rw [hgraph]
    exact hs.graph
  · rw [hactive, hgraph]
    exact hs.active

lemma climbs_forM {f : α → Compile PUnit} (as : List α) (hf : ∀ a ∈ as, Climbs n (f a)) :
    Climbs n (as.forM f) := by
  induction as with
  | nil => exact climbs_pure _
  | cons a as ih =>
    refine (hf a List.mem_cons_self).andThen fun _ => ?_
    exact ih fun b hb => hf b (List.mem_cons_of_mem _ hb)

lemma climbs_mapM {f : α → Compile β} (as : List α) (hf : ∀ a ∈ as, Climbs n (f a)) :
    Climbs n (as.mapM f) := by
  induction as with
  | nil => exact climbs_pure _
  | cons a as ih =>
    rw [List.mapM_cons]
    refine (hf a List.mem_cons_self).andThen fun b => ?_
    exact (ih fun c hc => hf c (List.mem_cons_of_mem _ hc)).andThen fun bs => climbs_pure _

/-! ### The graph -/

/-- A change of the graph by single steps. -/
lemma CompileState.Upright.climb (hs : s.Upright) {g : Graph} (hg : Steps s.graph g) :
    CompileState.Upright { s with graph := g } :=
  ⟨Steps.ascends hg hs.graph, fun r hr => (hs.active r hr).trans_le (Steps.size_le hg)⟩

lemma reaches_graph_bind {f : Graph → Compile β}
    (hf : ∀ g, g.Ascends → n ≤ g.requests.size → Reaches g.requests.size (f g) Q) :
    Reaches n (graph >>= f) Q := by
  intro s hs hn
  exact hf s.graph hs.graph hn s hs le_rfl

lemma climbs_request (r : RequestId) : Climbs n (request r) := by
  refine reaches_graph_bind fun g _ _ => ?_
  exact climbs_pure _

lemma reaches_build {x : Build α} (hx : ∀ g, g.Ascends → n ≤ g.requests.size →
    Steps g (x.run g).2 ∧ P (x.run g).1 (x.run g).2.requests.size) : Reaches n (build x) P := by
  intro s hs hn
  obtain ⟨hsteps, hresult⟩ := hx s.graph hs.graph hn
  refine ⟨hsteps, CompileState.Upright.climb hs hsteps, ?_⟩
  rintro a ⟨⟩
  exact hresult

lemma climbs_build {x : Build α} (hx : ∀ g, g.Ascends → Steps g (x.run g).2) : Climbs n (build x) :=
  reaches_build fun g hg _ => ⟨hx g hg, trivial⟩

lemma climbs_add (node : Node) : Climbs n (add node) := climbs_build fun g _ => steps_add g node

lemma climbs_edit {f : Graph → Graph} (hf : ∀ g, Steps g (f g)) : Climbs n (edit f) :=
  fun _ hs _ => ⟨hf _, CompileState.Upright.climb hs (hf _), fun _ _ => trivial⟩

lemma climbs_editRequest {f : Request → Request} (hf : ∀ q, (f q).parent = q.parent) :
    Climbs n (editRequest r f) := climbs_edit fun g => steps_modifyRequest g r hf

/-- A request is changed and keeps its parent, and other steps follow. -/
lemma reaches_editRequest_bind {f : Request → Request} {x : Unit → Compile β}
    (hf : ∀ q, (f q).parent = q.parent) (hx : Reaches n (x ()) Q) :
    Reaches n (editRequest r f >>= x) Q := (climbs_editRequest hf).andThen fun _ => hx

/-- A request is opened outside of all others, or under one that is there. -/
lemma reaches_addRequest {parent : Option RequestId} (hparent : ∀ q, parent = some q → q.index < n) :
    Reaches n (build (Build.addRequest parent)) fun r k => r.index < k := by
  refine reaches_build fun g _ hn => ⟨.single (.addRequest g parent fun q hq => ?_), ?_⟩
  · exact (hparent q hq).trans_le hn
  · show g.requests.size < (g.addRequest parent).2.requests.size
    simp

lemma climbs_ask (f : Catalog → Except MappingError α) : Climbs n (ask f) := by
  refine reaches_get_bind fun s _ _ => ?_
  split
  · exact climbs_pure _
  · exact reaches_throw _

lemma climbs_duplicate (e : Expr) (a : NodeId) : Climbs n (duplicate e a) := by
  refine (climbs_build fun g hg => steps_copy hg {} a).andThen fun m => ?_
  split
  · exact climbs_pure _
  · exact reaches_reject e _

/-! ### Scopes -/

lemma reaches_active (e : Expr) : Reaches n (active e) fun r k => r.index < k := by
  refine reaches_get_bind fun s hs hn => ?_
  cases hactive : s.active with
  | none => exact reaches_reject e _
  | some r => exact reaches_pure fun k hk => (hs.active r hactive).trans_le hk

/-- A request that is there is made active. -/
lemma climbs_activate {o : Option RequestId} (ho : ∀ r, o = some r → r.index < n) :
    Climbs n (modify ({ · with active := o })) := by
  refine fun s hs hn => ⟨.refl, ⟨hs.graph, fun r hr => ?_⟩, fun _ _ => trivial⟩
  exact (ho r hr).trans_le hn

lemma climbs_setActive (hr : r.index < n) : Climbs n (setActive r) :=
  climbs_activate fun q hq => by rwa [← Option.some.inj hq]

lemma climbs_leave (r : RequestId) : Climbs n (leave r) := by
  unfold leave request
  rw [bind_assoc]
  refine reaches_graph_bind fun g hg hn => ?_
  rw [pure_bind]
  cases hparent : (g.request r).parent with
  | none => exact climbs_pure _
  | some outer => exact climbs_setActive (hg.inside r outer hparent)

lemma reaches_within (hP : ∀ a k m, P a k → k ≤ m → P a m) (hr : r.index < n) (hx : Reaches n x P) :
    Reaches n (within r x) P := by
  refine reaches_get_bind fun s hs hn => ?_
  refine (climbs_setActive (hr.trans_le hn)).andThen fun _ => ?_
  refine (hx.later hn).bind fun a k hk ha => ?_
  refine (climbs_activate fun q hq => (hs.active q hq).trans_le hk).andThen fun _ => ?_
  exact reaches_pure fun m hm => hP a k m ha hm

lemma climbs_within (hr : r.index < n) (hx : Climbs n x) : Climbs n (within r x) :=
  reaches_within (fun _ _ _ _ _ => trivial) hr hx

lemma reaches_widening (hP : ∀ a k m, P a k → k ≤ m → P a m) (w : Bool) (hx : Reaches n x P) :
    Reaches n (widening w x) P := by
  have hset : ∀ {k} (w : Bool), Climbs k (modify fun s : CompileState => { s with widen := w }) :=
    fun w => climbs_modify (fun _ => rfl) fun _ => rfl
  refine reaches_get_bind fun s hs hn => (hset w).andThen fun _ => ?_
  refine (hx.later hn).bind fun a k hk ha => (hset s.widen).andThen fun _ => ?_
  exact reaches_pure fun m hm => hP a k m ha hm

lemma climbs_widening (w : Bool) (hx : Climbs n x) : Climbs n (widening w x) :=
  reaches_widening (fun _ _ _ _ _ => trivial) w hx

/-! ### Values -/

lemma climbs_valueOf (m : Meaning) : Climbs n (valueOf m) := by
  cases m with
  | value a => exact climbs_pure a
  | row a => exact climbs_add _
  | query r => exact climbs_add _

lemma climbs_condition (a : NodeId) : Climbs n (condition a) := by
  refine reaches_graph_bind fun g _ _ => ?_
  split
  · exact (climbs_add _).andThen fun _ => climbs_add _
  · exact climbs_pure a

/-- A rule for expressions that changes the graph by single steps. -/
def ClimbsVisit (visit : Visit) : Prop := ∀ e, Reaches 0 (visit e) Meaning.Inside

section Visit

variable {visit : Visit} (hv : ClimbsVisit visit) (e : Expr)
include hv

lemma ClimbsVisit.reaches : Reaches n (visit e) Meaning.Inside := (hv e).later (Nat.zero_le n)

lemma climbs_value : Climbs n (value visit e) := by
  refine reaches_get_bind fun s hs hn => ?_
  refine (hv.reaches e).bind fun m k hk _ => ?_
  dsimp only
  split
  · refine (climbs_activate fun r hr => (hs.active r hr).trans_le hk).andThen fun _ => ?_
    exact climbs_valueOf m
  · exact climbs_valueOf m

lemma climbs_rowValue : Climbs n (rowValue visit e) := by
  refine (hv.reaches e).bind fun m k _ _ => ?_
  split
  · exact climbs_pure _
  · exact reaches_reject e _

end Visit

/-! ### Members -/

lemma climbs_setPath (p : PropertyRef) (path : List PropertyRef) : Climbs n (setPath p path) := by
  have hrecord : Climbs n (setPath.record p path) := climbs_modify (fun _ => rfl) fun _ => rfl
  unfold setPath
  split
  · split
    · exact climbs_pure _
    · exact hrecord
  · exact hrecord

lemma climbs_setComputed (p : PropertyRef) (a : NodeId) : Climbs n (setComputed p a) :=
  climbs_modify (fun _ => rfl) fun _ => rfl

lemma reaches_resolveStep (r : RequestId) (a : AliasId) (p : PropertyRef) :
    Reaches n (resolveStep r a p) Meaning.Inside := by
  intro s hs hn
  have hsteps := Mapping.climbs_resolve s.mapping r a p s.widen s.graph
  rw [run_resolveStep]
  refine ⟨hsteps, CompileState.Upright.climb hs hsteps, ?_⟩
  rcases (s.mapping.resolve r a p s.widen).run.run s.graph with ⟨(_ | (b | b)), g⟩
  · rintro m ⟨⟩
  · rintro m ⟨⟩
    exact Meaning.inside_value _ _
  · rintro m ⟨⟩
    exact Meaning.inside_row _ _

lemma reaches_follow (e : Expr) (r : RequestId) (path : List PropertyRef) {m : Meaning}
    (hm : m.Inside n) : Reaches n (follow e r m path) Meaning.Inside := by
  induction path generalizing m n with
  | nil =>
    have hpure : Reaches n (pure m) Meaning.Inside := reaches_pure fun k hk => m.inside_mono _ k hm hk
    cases m <;> exact hpure
  | cons p path ih =>
    cases m with
    | row a => exact (reaches_resolveStep r a p).bind fun m k _ hm => ih hm
    | value a => exact reaches_reject e _
    | query q => exact reaches_reject e _

lemma reaches_resolveMember (e : Expr) (a : AliasId) (p : PropertyRef) :
    Reaches n (resolveMember e a p) Meaning.Inside := by
  refine (reaches_active e).bind fun r k _ _ => reaches_get_bind fun s _ _ => ?_
  refine reaches_get_bind fun s' _ _ => ?_
  split
  · exact reaches_reject e _
  · exact (climbs_duplicate e _).value
  · exact reaches_follow e r _ (Meaning.inside_row a _)

/-! ### Rows -/

lemma climbs_rowOf (e : Expr) (r : RequestId) : Climbs n (rowOf e r) := by
  refine reaches_graph_bind fun g _ _ => ?_
  dsimp only
  split
  · exact climbs_pure _
  · exact reaches_reject e _

lemma climbs_enter (e : Expr) (r : RequestId) (f : Expr) : Climbs n (enter e r f) := by
  unfold enter
  split
  · split
    · next p _ =>
      refine (climbs_rowOf e r).andThen fun a => ?_
      exact (climbs_edit fun g => steps_bind g a p.id).andThen fun _ => climbs_pure _
    · exact reaches_reject e _
  · exact reaches_reject e _

lemma climbs_argument (e : Expr) (args : List Expr) (index : Nat) :
    Climbs n (argument e args index) := by
  unfold argument
  split
  · exact climbs_pure _
  · exact reaches_reject e _

/-! ### Collections -/

lemma climbs_takeJoin (e : Expr) (r : RequestId) (a : AliasId) : Climbs n (takeJoin e r a) := by
  unfold takeJoin
  refine Climbs.andThen (fun s hs _ => ?_) fun j => ?_
  · have hsteps := steps_takeJoin s.graph r a
    exact ⟨hsteps, CompileState.Upright.climb hs hsteps, fun _ _ => trivial⟩
  · split
    · exact climbs_pure _
    · exact reaches_reject e _

lemma reaches_hoist (e : Expr) (a : AliasId) : Reaches n (hoist e a) fun r k => r.index < k := by
  refine (reaches_active e).bind fun outer k _ houter => reaches_graph_bind fun g _ hk => ?_
  refine (climbs_takeJoin e outer a).andThen fun first => ?_
  have hlink : Climbs g.requests.size ((g.aliasOf a).via?.mapM (takeJoin e outer)) := by
    cases (g.aliasOf a).via? with
    | none => exact climbs_pure _
    | some link => exact (climbs_takeJoin e outer link).map fun _ _ _ _ _ => trivial
  refine hlink.andThen fun link => ?_
  have hparent : ∀ q, some outer = some q → q.index < g.requests.size := by
    rintro q ⟨⟩
    exact houter.trans_le hk
  refine (reaches_addRequest hparent).bind fun r m _ hr => ?_
  have hdone : Reaches m (pure r) fun r k => r.index < k := reaches_pure fun l hl => hr.trans_le hl
  refine reaches_editRequest_bind (fun _ => rfl) ?_
  split
  · refine (climbs_edit fun g => steps_pushJoin g r _).andThen fun _ => ?_
    exact (climbs_edit fun g => steps_andFilter g r _).andThen fun _ => hdone
  · exact (climbs_edit fun g => steps_andFilter g r _).andThen fun _ => hdone

/-- Walks outwards stay in the graph. -/
lemma inside_of_requestWalk {g : Graph} (hg : g.Ascends) {p : RequestId → Bool} {q : RequestId}
    {o : Option RequestId} (h : g.RequestWalk p r o) (hr : r.index < g.requests.size)
    (ho : o = some q) : q.index < g.requests.size := by
  induction h with
  | found _ => rwa [← Option.some.inj ho]
  | out _ hparent _ ih => exact ih (hg.inside _ _ hparent) ho
  | lost _ _ => cases ho

lemma reaches_receiver {visit : Visit} (hv : ClimbsVisit visit) (e arg : Expr) :
    Reaches n (receiver visit e arg) fun r k => r.index < k := by
  refine (hv.reaches arg).bind fun m k _ hm => ?_
  split
  · next r => exact reaches_pure fun l hl => (hm r rfl).trans_le hl
  · next a =>
    refine (reaches_active e).bind fun r l _ hr => reaches_graph_bind fun g hg hl => ?_
    split
    · next q hq =>
      have hwalk := hg.requestWalk_enclosing? (fun q => (g.request q).base == some a) r
      refine reaches_pure fun i hi => ?_
      exact (inside_of_requestWalk hg hwalk (hr.trans_le hl) hq).trans_le hi
    · exact reaches_hoist e a
  · exact reaches_reject e _

end Compile
end EntityQuery
