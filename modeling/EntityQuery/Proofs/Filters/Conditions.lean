import EntityQuery.Proofs.Filters.Paths

/-!
Conditions without related rows.

* `Decides`: at a site, an expression stands for a truth value, and new inner joins lead to rows
  where it is true.
* Comparisons, patterns and memberships are never true of null, so the references that their
  operands read have rows.
* A conjunction is true where both sides are; under a disjunction all joins keep their rows.
-/

namespace EntityQuery

open Sql Store Compile

variable {st : Store} {S : Site}

/-- What there is to know about a condition. -/
structure Decided (st : Store) (S : Site) (s t : CompileState) (n : NodeId) (f : Env → Option Bool) :
    Prop where
  step : Step st S s t
  tells : Tells st S t n f
  strict : Strict st S s t fun ρ => f ρ = some true

/-- At a site, an expression stands for a truth value. -/
def Decides (st : Store) (S : Site) (e : Expr) (f : Env → Option Bool) : Prop :=
  ∀ s fuel, Ready st S s → e.depth ≤ fuel →
    ∃ n t, Runs (visit [] fuel e) s (.value n) t ∧ Decided st S s t n f

/-! ### Values -/

section Values

variable {s t : CompileState}

/-- A value leaves the active request as it was. -/
lemma runs_value {fuel : Nat} {e : Expr} {n : NodeId} (hs : Ready st S s)
    (hrun : Runs (visit [] fuel e) s (.value n) t) (hstep : Step st S s t) :
    Runs (value (visit [] fuel) e) s n t := by
  have hactive : { t with active := s.active } = t := by rw [hstep.state]
  rw [value, runs_get_bind]
  refine Runs.bind hrun ?_
  rw [hs.active] at hactive ⊢
  exact Runs.bind (a := ⟨⟩) (runs_modify.2 hactive.symm) (runs_pure.2 ⟨rfl, rfl⟩)

lemma runs_widening_self {α : Type} {x : Compile α} {a : α} (hrun : Runs x s a t)
    (hwiden : t.widen = s.widen) : Runs (widening s.widen x) s a t := by
  refine runs_widening.2 ⟨t, hrun, ?_⟩
  rw [← hwiden]

/-- A new binary node combines the values of its operands. -/
lemma means_binary (hs : Ready st S s) (op : BinaryOp) {l r : NodeId} {f g : Env → Value}
    (hl : Means st S s l f) (hr : Means st S s r g) :
    Step st S s { s with graph := (s.graph.add (.binary op l r)).2 } ∧
      Means st S { s with graph := (s.graph.add (.binary op l r)).2 } ⟨s.graph.entries.size⟩
        fun ρ => st.engine.binary op (f ρ) (g ρ) := by
  have hchildren : ∀ c ∈ (Node.binary op l r).children, c.index < s.graph.entries.size :=
    Node.forall_children_binary hl.lt hr.lt
  refine ⟨step_add hs hchildren (by simp), means_add hs hchildren (by simp) rfl ?_⟩
  intro G μ ρ hμ hv hnode
  have hl' : (G.node l).isNull = false := by rw [hv.node hl.lt, hl.notNull]
  have hr' : (G.node r).isNull = false := by rw [hv.node hr.lt, hr.notNull]
  rw [Store.valueAt, Term.alone, G.value_binary hμ ρ [ρ] hnode hl' hr']
  exact congrArg₂ _ (hl.value G μ ρ hμ hv) (hr.value G μ ρ hμ hv)

/-- A node that is no column is true if its value is. -/
lemma Means.tells {n : NodeId} {f : Env → Value} (hn : Means st S s n f)
    (hcolumn : (s.graph.node n).isColumn = false) : Tells st S s n fun ρ => truthOf (f ρ) where
  lt := hn.lt
  notNull := hn.notNull
  truth G μ ρ hμ hv := by
    rw [Store.truthAt, hv.node hn.lt, hcolumn, if_neg Bool.false_ne_true, hn.value G μ ρ hμ hv]

end Values

/-- An operator other than the logical ones and `COALESCE` is not true of null. -/
lemma Sql.Engine.not_null_of_binary {e : Engine} {op : BinaryOp} {v w : Value}
    (hop : op ≠ .and ∧ op ≠ .or ∧ op ≠ .coalesce) (h : truthOf (e.binary op v w) = some true) :
    v.isNull = false ∧ w.isNull = false := by
  by_contra hnull
  have hnull' : (v.isNull || w.isNull) = true := by
    cases hv : v.isNull <;> cases hw : w.isNull <;> simp_all
  have hequal : e.equal v w = none := if_pos hnull'
  have hbinary : e.binary op v w = .null := by
    cases op <;> simp_all [Engine.binary, ofTruth]
  rw [hbinary] at h
  cases h

section Atoms

variable (hc : st.catalog.validate = .ok ())
include hc

/-- **A comparison of operands is true if their values compare.** -/
theorem decides_compare (op : Comparison) {l r : Operand} (hl : l.typed st.catalog S.scope)
    (hr : r.typed st.catalog S.scope) :
    Decides st S (.binary op.operator l.expr r.expr) fun ρ =>
      truthOf (st.engine.binary op.sql (l.value st fun x => ρ (S.place x))
        (r.value st fun x => ρ (S.place x))) := by
  intro s fuel hs hfuel
  obtain ⟨fuel, rfl⟩ := fuel_succ hfuel
  rw [Expr.depth] at hfuel
  obtain ⟨n, t, hrun, hn⟩ := yields_operand hc hl s fuel hs (by omega)
  have ht := hn.step.ready hs
  obtain ⟨m, u, hrun', hm⟩ := yields_operand hc hr t fuel ht (by omega)
  have hu := hm.step.ready ht
  obtain ⟨hstep, hmeans⟩ := means_binary hu op.sql (hn.means.step hm.step) hm.means
  have hop : op.sql ≠ .and ∧ op.sql ≠ .or ∧ op.sql ≠ .coalesce := by cases op <;> simp [Comparison.sql]
  refine ⟨_, _, ?_, (hn.step.trans hm.step).trans hstep, hmeans.tells (by simp [Node.isColumn]), ?_⟩
  · have hsql : sqlOperator? op.operator (l.expr.type.isTextual || r.expr.type.isTextual) =
        some op.sql := by cases op <;> rfl
    have hor : (op.operator == .or) = false := by cases op <;> rfl
    have hlogical : op.operator.isLogical = false := by cases op <;> rfl
    rw [visit_succ, step, binary, hsql]
    dsimp only
    rw [runs_get_bind, hor, Bool.or_false]
    refine runs_widening_self ?_ (hn.step.trans hm.step).widen_eq
    refine Runs.bind (runs_value hs hrun hn.step) (Runs.bind (runs_value ht hrun' hm.step) ?_)
    rw [hlogical]
    exact Runs.map (runs_add.2 ⟨rfl, rfl⟩)
  · refine ((hn.strict.trans hm.step hm.strict).trans hstep
      (.of_joins (P := fun _ => True) (joins_add S u _))).mono fun G ρ _ htrue => ⟨?_, trivial⟩
    exact Engine.not_null_of_binary hop htrue

end Atoms

/-! ### Patterns -/

section Patterns

variable {s : CompileState}

/-- Compilation goes on with a value, and no join is new. -/
structure Plain (st : Store) (S : Site) (s t : CompileState) (n : NodeId) (f : Env → Value) :
    Prop where
  step : Step st S s t
  joins : S.joins t = S.joins s
  means : Means st S t n f

lemma runs_wildcard (hs : Ready st S s) :
    ∃ n t, Runs wildcard s n t ∧ Plain st S s t n fun _ => .string "%" := by
  have hv := valued_const hs (v := .string "%") rfl
  exact ⟨_, _, runs_add.2 ⟨rfl, rfl⟩, hv.step, joins_add S s _, hv.means⟩

lemma runs_concat (hs : Ready st S s) {l r : NodeId} {f g : Env → Value} (hl : Means st S s l f)
    (hr : Means st S s r g) : ∃ n t, Runs (concat l r) s n t ∧
      Plain st S s t n fun ρ => st.engine.binary .concat (f ρ) (g ρ) := by
  obtain ⟨hstep, hmeans⟩ := means_binary hs .concat hl hr
  exact ⟨_, _, runs_add.2 ⟨rfl, rfl⟩, hstep, joins_add S s _, hmeans⟩

lemma runs_after (hs : Ready st S s) {n : NodeId} {f : Env → Value} (hn : Means st S s n f) :
    ∃ w t m u, Runs wildcard s w t ∧ Runs (concat n w) t m u ∧
      Plain st S s u m fun ρ => st.engine.binary .concat (f ρ) (.string "%") := by
  obtain ⟨w, t, hw, ht⟩ := runs_wildcard hs
  obtain ⟨m, u, hm, hu⟩ := runs_concat (ht.step.ready hs) (hn.step ht.step) ht.means
  exact ⟨w, t, m, u, hw, hm, ht.step.trans hu.step, hu.joins.trans ht.joins, hu.means⟩

lemma runs_before (hs : Ready st S s) {n : NodeId} {f : Env → Value} (hn : Means st S s n f) :
    ∃ w t m u, Runs wildcard s w t ∧ Runs (concat w n) t m u ∧
      Plain st S s u m fun ρ => st.engine.binary .concat (.string "%") (f ρ) := by
  obtain ⟨w, t, hw, ht⟩ := runs_wildcard hs
  obtain ⟨m, u, hm, hu⟩ := runs_concat (ht.step.ready hs) ht.means (hn.step ht.step)
  exact ⟨w, t, m, u, hw, hm, ht.step.trans hu.step, hu.joins.trans ht.joins, hu.means⟩

/-- The pattern of the texts with a part at a place. -/
lemma runs_pattern (hs : Ready st S s) (place : Place) {n : NodeId} {f : Env → Value}
    (hn : Means st S s n f) : ∃ m t, Plain st S s t m (fun ρ => place.pattern st.engine (f ρ)) ∧
      ∀ (k : NodeId → Compile Meaning) x u, Runs (k m) t x u → Runs (do
        let tail ← if place != .finish then concat n (← wildcard) else pure n
        let pattern ← if place != .start then concat (← wildcard) tail else pure tail
        k pattern) s x u := by
  cases place with
  | start =>
    obtain ⟨w, t, m, u, hw, hm, hu⟩ := runs_after hs hn
    exact ⟨m, u, hu, fun k x v hk => Runs.bind hw (Runs.bind hm hk)⟩
  | finish =>
    obtain ⟨w, t, m, u, hw, hm, hu⟩ := runs_before hs hn
    exact ⟨m, u, hu, fun k x v hk =>
      Runs.bind (runs_pure.2 ⟨rfl, rfl⟩) (Runs.bind hw (Runs.bind hm hk))⟩
  | anywhere =>
    obtain ⟨w, t, m, u, hw, hm, hu⟩ := runs_after hs hn
    obtain ⟨w', t', m', u', hw', hm', hu'⟩ := runs_before (hu.step.ready hs) hu.means
    exact ⟨m', u', ⟨hu.step.trans hu'.step, hu'.joins.trans hu.joins, hu'.means⟩, fun k x v hk =>
      Runs.bind hw (Runs.bind hm (Runs.bind hw' (Runs.bind hm' hk)))⟩

/-- A pattern of a missing part is missing. -/
lemma Place.not_null_of_pattern {e : Engine} {place : Place} {v : Value}
    (h : (place.pattern e v).isNull = false) : v.isNull = false := by
  have hconcat : ∀ u w : Value, (e.binary .concat u w).isNull = false →
      u.isNull = false ∧ w.isNull = false := by
    intro u w h
    cases hu : u.isNull <;> cases hw : w.isNull <;> simp_all [Engine.binary, Value.isNull]
  cases place with
  | start => exact (hconcat _ _ h).1
  | finish => exact (hconcat _ _ h).2
  | anywhere => exact (hconcat _ _ (hconcat _ _ h).2).1

end Patterns

section Atoms

variable (hc : st.catalog.validate = .ok ())
include hc

/-- **A text has a part if it matches the pattern of the part.** -/
theorem decides_like (place : Place) {l r : Operand} (hl : l.typed st.catalog S.scope)
    (hr : r.typed st.catalog S.scope) (htext : place = .anywhere → l.expr.type.isTextual) :
    Decides st S (.call place.method [l.expr, r.expr]) fun ρ =>
      truthOf (st.engine.binary .like (l.value st fun x => ρ (S.place x))
        (place.pattern st.engine (r.value st fun x => ρ (S.place x)))) := by
  intro s fuel hs hfuel
  obtain ⟨fuel, rfl⟩ := fuel_succ hfuel
  simp only [Expr.depth, Expr.depthAll] at hfuel
  obtain ⟨n, t, hrun, hn⟩ := yields_operand hc hl s fuel hs (by omega)
  have ht := hn.step.ready hs
  obtain ⟨m, u, hrun', hm⟩ := yields_operand hc hr t fuel ht (by omega)
  have hu := hm.step.ready ht
  obtain ⟨q, v, hq, hpattern⟩ := runs_pattern hu place hm.means
  have hv := hq.step.ready hu
  have hsteps := (hn.step.trans hm.step).trans hq.step
  obtain ⟨hstep, hmeans⟩ := means_binary hv .like ((hn.means.step hm.step).step hq.step) hq.means
  refine ⟨_, _, ?_, hsteps.trans hstep, hmeans.tells (by simp [Node.isColumn]), ?_⟩
  · have hlike : Runs (like (visit [] fuel) (.call place.method [l.expr, r.expr]) (place != .start)
        (place != .finish) l.expr [l.expr, r.expr]) s (.value ⟨v.graph.entries.size⟩)
        { v with graph := (v.graph.add (.binary .like n q)).2 } := by
      refine Runs.bind (runs_value hs hrun hn.step) (Runs.bind (runs_pure.2 ⟨rfl, rfl⟩)
        (Runs.bind (runs_value ht hrun' hm.step) ?_))
      exact hpattern (fun q => Meaning.value <$> add (.binary .like n q)) _ _
        (Runs.map (runs_add.2 ⟨rfl, rfl⟩))
    cases place with
    | start => exact hlike
    | finish => exact hlike
    | anywhere =>
      change Runs (contains (visit [] fuel) _ _ _) s _ _
      refine Runs.bind (runs_pure.2 ⟨rfl, rfl⟩) ?_
      rw [htext rfl, if_pos rfl]
      exact hlike
  · refine (((hn.strict.trans hm.step hm.strict).trans hq.step
      (.of_joins (P := fun _ => True) hq.joins)).trans hstep
      (.of_joins (P := fun _ => True) (joins_add S v _))).mono
      fun G ρ _ htrue => ⟨⟨?_, trivial⟩, trivial⟩
    obtain ⟨hsubject, hpart⟩ := Engine.not_null_of_binary (by simp) htrue
    exact ⟨hsubject, Place.not_null_of_pattern hpart⟩

end Atoms

/-! ### Lists -/

section Lists

variable {s : CompileState}

/-- Nodes have values, whatever comes later. -/
structure MeansAll (st : Store) (S : Site) (t : CompileState) (ns : List NodeId) (vs : List Value) :
    Prop where
  lt : ∀ n ∈ ns, n.index < t.graph.entries.size
  values : ∀ G μ ρ, G.Ranked μ → View st S t G ρ → ns.map (st.valueAt G · ρ) = vs

/-- New constants mean themselves. -/
lemma runs_constants (hs : Ready st S s) {vs : List Value} (hvs : ∀ v ∈ vs, v.isNull = false) :
    ∃ ns t, Runs (vs.mapM fun v => add (.const v)) s ns t ∧ Step st S s t ∧
      S.joins t = S.joins s ∧ MeansAll st S t ns vs := by
  induction vs generalizing s with
  | nil => exact ⟨[], s, runs_pure.2 ⟨rfl, rfl⟩, .refl hs, rfl, by simp, fun _ _ _ _ _ => rfl⟩
  | cons v vs ih =>
    have hv := valued_const hs (hvs v List.mem_cons_self)
    obtain ⟨ns, t, hrun, hstep, hjoins, hns⟩ :=
      ih (hv.step.ready hs) fun w hw => hvs w (List.mem_cons_of_mem _ hw)
    have hn := hv.means.step hstep
    refine ⟨⟨s.graph.entries.size⟩ :: ns, t, ?_, hv.step.trans hstep, hjoins.trans (joins_add S s _),
      List.forall_mem_cons.2 ⟨hn.lt, hns.lt⟩, fun G μ ρ hμ hview => ?_⟩
    · rw [List.mapM_cons]
      exact Runs.bind (runs_add.2 ⟨rfl, rfl⟩) (Runs.bind hrun (runs_pure.2 ⟨rfl, rfl⟩))
    · rw [List.map_cons, hn.value G μ ρ hμ hview, hns.values G μ ρ hμ hview]

/-- A new list of values has the values of its nodes. -/
lemma means_isIn (hs : Ready st S s) {n : NodeId} {f : Env → Value} (hn : Means st S s n f)
    {ns : List NodeId} {vs : List Value} (hns : MeansAll st S s ns vs) :
    Step st S s { s with graph := (s.graph.add (.isIn n ns)).2 } ∧
      Means st S { s with graph := (s.graph.add (.isIn n ns)).2 } ⟨s.graph.entries.size⟩
        fun ρ => ofTruth (st.engine.among (f ρ) vs) := by
  have hchildren : ∀ c ∈ (Node.isIn n ns).children, c.index < s.graph.entries.size :=
    List.forall_mem_cons.2 ⟨hn.lt, hns.lt⟩
  refine ⟨step_add hs hchildren (by simp), means_add hs hchildren (by simp) rfl ?_⟩
  intro G μ ρ hμ hv hnode
  have hvalues : ns.map (fun m => ((G.evaluator st.engine st.database).term m).value ρ [ρ]) = vs :=
    hns.values G μ ρ hμ hv
  rw [Store.valueAt, Term.alone, G.value_isIn hμ ρ [ρ] hnode, hvalues]
  exact congrArg (fun v => ofTruth (st.engine.among v vs)) (hn.value G μ ρ hμ hv)

end Lists

/-- Null is in no list. -/
lemma Sql.Engine.not_null_of_among {e : Engine} {v : Value} {ws : List Value}
    (h : e.among v ws = some true) : v.isNull = false := by
  cases hv : v.isNull with
  | false => rfl
  | true =>
    have hequal : ∀ w, e.equal v w = none := fun w => by simp [Engine.equal, hv]
    have hnot : ∀ ws, e.among v ws ≠ some true := by
      intro ws
      induction ws with
      | nil => simp [Engine.among]
      | cons w ws ih =>
        change truthOr (e.equal v w) (e.among v ws) ≠ _
        rw [hequal]
        cases hrest : e.among v ws with
        | none => simp [truthOr]
        | some b => cases b <;> simp_all [truthOr]
    exact absurd h (hnot ws)

section Atoms

variable (hc : st.catalog.validate = .ok ())
include hc

/-- **A list has an operand if it has its value.** -/
theorem decides_among {vs : List Value} (hvs : ∀ v ∈ vs, v.isNull = false) {o : Operand}
    (ho : o.typed st.catalog S.scope) :
    Decides st S (.call .contains [.const (.list vs), o.expr]) fun ρ =>
      st.engine.among (o.value st fun x => ρ (S.place x)) vs := by
  intro s fuel hs hfuel
  obtain ⟨fuel, rfl⟩ := fuel_succ hfuel
  simp only [Expr.depth, Expr.depthAll] at hfuel
  obtain ⟨n, t, hrun, hn⟩ := yields_operand hc ho s fuel hs (by omega)
  have ht := hn.step.ready hs
  obtain ⟨ns, u, hrun', hstep, hjoins, hns⟩ := runs_constants ht hvs
  have hu := hstep.ready ht
  obtain ⟨hstep', hmeans⟩ := means_isIn hu (hn.means.step hstep) hns
  refine ⟨⟨u.graph.entries.size⟩, { u with graph := (u.graph.add (.isIn n ns)).2 }, ?_,
    (hn.step.trans hstep).trans hstep', ?_, ?_⟩
  · have htext : (Expr.const (.list vs)).type.isTextual = false := by
      simp only [Expr.type, Literal.type]
      split <;> rfl
    have hfilter : vs.filter (fun v => !v.isNull) = vs :=
      List.filter_eq_self.2 fun v hv => by rw [hvs v hv]; rfl
    change Runs (contains (visit [] fuel) _ _ _) s _ _
    refine Runs.bind (runs_pure.2 ⟨rfl, rfl⟩) ?_
    rw [htext, if_neg Bool.false_ne_true]
    refine Runs.bind (runs_value hs hrun hn.step) ?_
    rw [hfilter]
    exact Runs.bind hrun' (Runs.map (runs_add.2 ⟨rfl, rfl⟩))
  · simpa using hmeans.tells (by simp [Node.isColumn])
  · refine ((hn.strict.trans hstep (.of_joins (P := fun _ => True) hjoins)).trans hstep'
      (.of_joins (P := fun _ => True) (joins_add S u _))).mono
      fun G ρ _ htrue => ⟨⟨Engine.not_null_of_among htrue, trivial⟩, trivial⟩

/-- **A bare member is a condition that it is true.** -/
theorem decides_flag {m : Member}
    (hm : (st.catalog.member? S.scope m).any PropertyMapping.isScalar) :
    Decides st S m.expr fun ρ =>
      st.engine.equal (m.value st fun x => ρ (S.place x)) (.boolean true) := by
  intro s fuel hs hfuel
  obtain ⟨n, t, hrun, hcolumn, hn⟩ := runs_scalar hc hm hs hfuel
  refine ⟨n, t, hrun, hn.step, ⟨hn.means.lt, hn.means.notNull, fun G μ ρ hμ hv => ?_⟩, ?_⟩
  · rw [Store.truthAt, hv.node hn.means.lt, hcolumn, if_pos rfl, hn.means.value G μ ρ hμ hv]
  · refine hn.strict.mono fun G ρ _ htrue => ?_
    unfold Engine.equal at htrue
    split at htrue
    · cases htrue
    · rename_i hnull
      simp only [Bool.or_eq_true, not_or, Bool.not_eq_true] at hnull
      exact hnull.1

end Atoms

/-! ### Conjunctions and disjunctions -/

section Logic

variable {s t : CompileState}

/-- A condition is no bare column. -/
lemma runs_condition (ht : Ready st S t) {n : NodeId} {f : Env → Option Bool}
    (hn : Tells st S t n f) :
    ∃ m u, Runs (condition n) t m u ∧ Step st S t u ∧ S.joins u = S.joins t ∧ Tells st S u m f ∧
      (u.graph.node m).isColumn = false := by
  cases hcolumn : (t.graph.node n).isColumn with
  | false =>
    refine ⟨n, t, Runs.bind (runs_graph.2 ⟨rfl, rfl⟩) ?_, .refl ht, rfl, hn, hcolumn⟩
    rw [hcolumn]
    exact runs_pure.2 ⟨rfl, rfl⟩
  | true =>
    have hc := valued_const ht (v := .boolean true) rfl
    let t' : CompileState := { t with graph := (t.graph.add (.const (.boolean true))).2 }
    have ht' : Ready st S t' := hc.step.ready ht
    have hchildren : ∀ c ∈ (Node.binary .equal n ⟨t.graph.entries.size⟩).children,
        c.index < t'.graph.entries.size :=
      Node.forall_children_binary (hn.step hc.step).lt hc.means.lt
    have hstep := step_add ht' hchildren (by simp)
    refine ⟨⟨t'.graph.entries.size⟩, _, ?_, hc.step.trans hstep,
      (joins_add S t' _).trans (joins_add S t _), ⟨by simp, ?_, fun G μ ρ hμ hv => ?_⟩, ?_⟩
    · refine Runs.bind (runs_graph.2 ⟨rfl, rfl⟩) ?_
      rw [hcolumn]
      exact Runs.bind (runs_add.2 ⟨rfl, rfl⟩) (runs_add.2 ⟨rfl, rfl⟩)
    · simp [Node.isNull]
    · have hv' := hstep.view hv
      have hn' : G.node n = t.graph.node n := (hc.step.view hv').node hn.lt
      have hnode : G.node ⟨t'.graph.entries.size⟩ = .binary .equal n ⟨t.graph.entries.size⟩ := by
        rw [hv.node (by simp)]
        simp
      have hnull : (G.node ⟨t.graph.entries.size⟩).isNull = false := by
        rw [hv'.node hc.means.lt, hc.means.notNull]
      have hvalue : st.valueAt G ⟨t'.graph.entries.size⟩ ρ =
          ofTruth (st.engine.equal (st.valueAt G n ρ) (.boolean true)) := by
        rw [← hc.means.value G μ ρ hμ hv']
        exact G.value_binary hμ ρ [ρ] hnode (by rw [hn', hn.notNull]) hnull
      have htruth := hn.truth G μ ρ hμ (hc.step.view hv')
      rw [Store.truthAt, hn', hcolumn, if_pos rfl] at htruth
      have hbinary : (G.node ⟨t'.graph.entries.size⟩).isColumn = false := by
        rw [hnode]
        rfl
      rw [Store.truthAt, hbinary, if_neg Bool.false_ne_true, hvalue, truthOf_ofTruth, htruth]
    · simp [Node.isColumn]

lemma truthAnd_eq_true {a b : Option Bool} :
    truthAnd a b = some true ↔ a = some true ∧ b = some true := by
  rcases a with _ | _ | _ <;> rcases b with _ | _ | _ <;> simp [truthAnd]

/-- A new conjunction or disjunction combines the truths of its sides. -/
lemma tells_logical (hs : Ready st S s) {op : BinaryOp} {combine : Option Bool → Option Bool → Option Bool}
    (hop : ∀ v w, st.engine.binary op v w = ofTruth (combine (truthOf v) (truthOf w)))
    {l r : NodeId} {f g : Env → Option Bool} (hl : Tells st S s l f) (hr : Tells st S s r g)
    (hl' : (s.graph.node l).isColumn = false) (hr' : (s.graph.node r).isColumn = false) :
    Step st S s { s with graph := (s.graph.add (.binary op l r)).2 } ∧
      Tells st S { s with graph := (s.graph.add (.binary op l r)).2 } ⟨s.graph.entries.size⟩
        fun ρ => combine (f ρ) (g ρ) := by
  have hchildren : ∀ c ∈ (Node.binary op l r).children, c.index < s.graph.entries.size :=
    Node.forall_children_binary hl.lt hr.lt
  have hstep := step_add hs hchildren (by simp)
  refine ⟨hstep, by simp, by simp [Node.isNull], fun G μ ρ hμ hv => ?_⟩
  have hv' := hstep.view hv
  have hnode : G.node ⟨s.graph.entries.size⟩ = .binary op l r := by
    rw [hv.node (by simp)]
    simp
  have hvalue : st.valueAt G ⟨s.graph.entries.size⟩ ρ =
      st.engine.binary op (st.valueAt G l ρ) (st.valueAt G r ρ) := by
    refine G.value_binary hμ ρ [ρ] hnode ?_ ?_
    · rw [hv'.node hl.lt, hl.notNull]
    · rw [hv'.node hr.lt, hr.notNull]
  have hside : ∀ {n : NodeId} {h : Env → Option Bool}, Tells st S s n h →
      (s.graph.node n).isColumn = false → truthOf (st.valueAt G n ρ) = h ρ := by
    intro n h hn hcolumn
    have htruth := hn.truth G μ ρ hμ hv'
    rwa [Store.truthAt, hv'.node hn.lt, hcolumn, if_neg Bool.false_ne_true] at htruth
  have hbinary : (G.node ⟨s.graph.entries.size⟩).isColumn = false := by
    rw [hnode]
    rfl
  rw [Store.truthAt, hbinary, if_neg Bool.false_ne_true, hvalue, hop, truthOf_ofTruth, hside hl hl',
    hside hr hr']

/-- Both sides of a conjunction or a disjunction, under one setting for joins. -/
lemma runs_sides {l r : Expr} {f g : Env → Option Bool} (hl : Decides st S l f)
    (hr : Decides st S r g) (op : BinaryOp) (combine : Option Bool → Option Bool → Option Bool)
    (hop : ∀ v w, st.engine.binary op v w = ofTruth (combine (truthOf v) (truthOf w)))
    {fuel : Nat} (hs : Ready st S s) (hfuel : max l.depth r.depth ≤ fuel) :
    ∃ n t, Runs (do
        let left ← value (visit [] fuel) l
        let right ← value (visit [] fuel) r
        let left ← condition left
        let right ← condition right
        Meaning.value <$> add (.binary op left right)) s (.value n) t ∧
      Step st S s t ∧ Tells st S t n (fun ρ => combine (f ρ) (g ρ)) ∧
      Strict st S s t fun ρ => f ρ = some true ∧ g ρ = some true := by
  obtain ⟨n, t, hrun, hn⟩ := hl s fuel hs (by omega)
  have ht := hn.step.ready hs
  obtain ⟨m, u, hrun', hm⟩ := hr t fuel ht (by omega)
  have hu := hm.step.ready ht
  obtain ⟨n', u₁, hcond, hstep₁, hjoins₁, hn', hcolumn⟩ := runs_condition hu (hn.tells.step hm.step)
  have hu₁ := hstep₁.ready hu
  obtain ⟨m', u₂, hcond', hstep₂, hjoins₂, hm', hcolumn'⟩ := runs_condition hu₁ (hm.tells.step hstep₁)
  have hu₂ := hstep₂.ready hu₁
  have hcolumn₂ : (u₂.graph.node n').isColumn = false := by
    rw [hstep₂.grown.kept.node n' hn'.lt, hcolumn]
  obtain ⟨hstep₃, htells⟩ := tells_logical hu₂ hop (hn'.step hstep₂) hm' hcolumn₂ hcolumn'
  have hrest := (hstep₁.trans hstep₂).trans hstep₃
  refine ⟨_, _, ?_, (hn.step.trans hm.step).trans hrest, htells, ?_⟩
  · exact Runs.bind (runs_value hs hrun hn.step) (Runs.bind (runs_value ht hrun' hm.step)
      (Runs.bind hcond (Runs.bind hcond' (Runs.map (runs_add.2 ⟨rfl, rfl⟩)))))
  · refine ((hn.strict.trans hm.step hm.strict).trans hrest (.of_joins (P := fun _ => True)
      ((joins_add S u₂ _).trans (hjoins₂.trans hjoins₁)))).mono fun G ρ _ htrue => ⟨htrue, trivial⟩

/-- **A conjunction is true where both sides are.** -/
theorem decides_and {l r : Expr} {f g : Env → Option Bool} (hl : Decides st S l f)
    (hr : Decides st S r g) : Decides st S (.binary .and l r) fun ρ => truthAnd (f ρ) (g ρ) := by
  intro s fuel hs hfuel
  obtain ⟨fuel, rfl⟩ := fuel_succ hfuel
  rw [Expr.depth] at hfuel
  obtain ⟨n, t, hrun, hstep, htells, hstrict⟩ :=
    runs_sides hl hr .and truthAnd (fun _ _ => rfl) hs (Nat.le_of_succ_le_succ hfuel)
  refine ⟨n, t, ?_, hstep, htells, hstrict.mono fun G ρ _ htrue => truthAnd_eq_true.1 htrue⟩
  change Runs (get >>= fun s => widening (s.widen || false) _) s _ t
  rw [runs_get_bind, Bool.or_false]
  exact runs_widening_self hrun hstep.widen_eq

/-- **A disjunction is true where one of its sides is; its joins lose no rows.** -/
theorem decides_or {l r : Expr} {f g : Env → Option Bool} (hl : Decides st S l f)
    (hr : Decides st S r g) : Decides st S (.binary .or l r) fun ρ => truthOr (f ρ) (g ρ) := by
  intro s fuel hs hfuel
  obtain ⟨fuel, rfl⟩ := fuel_succ hfuel
  rw [Expr.depth] at hfuel
  have hwide : Ready st S { s with widen := true } := { hs with fits := hs.fits }
  obtain ⟨n, t, hrun, hstep, htells, -⟩ :=
    runs_sides hl hr .or truthOr (fun _ _ => rfl) hwide (Nat.le_of_succ_le_succ hfuel)
  have hstep' : Step st S s { t with widen := s.widen } := by
    refine ⟨?_, hstep.fits, hstep.grown, fun _ => hstep.widened rfl⟩
    rw [hstep.state]
  refine ⟨n, _, ?_, hstep', ⟨htells.lt, htells.notNull, fun G μ ρ hμ hv => ?_⟩,
    fun G ρ hv _ j hj hkind => .inl (hstep.widened rfl j hj hkind)⟩
  · change Runs (get >>= fun s => widening (s.widen || true) _) s _ _
    rw [runs_get_bind, Bool.or_true]
    exact runs_widening.2 ⟨t, hrun, rfl⟩
  · exact htells.truth G μ ρ hμ ⟨hv.kept, hv.settled⟩

end Logic

end EntityQuery
