import EntityQuery.Compile.Statement
import EntityQuery.Proofs.Lockstep.Shape
import EntityQuery.Proofs.Masking.Statement

/-!
Whole compilations in lockstep.

* `shadows_visit`: by induction on the nesting, any expression is compiled in lockstep with itself
  without hints. A hint that is taken out only adds to the list of hints.
* `runs_root_useLeftJoin`: under `UseLeftJoin` the root is compiled in lockstep with itself, once joins
  may be wider.
* `compile_withoutHints`: without its loading hints for sources and operator calls, an expression has
  the same graph and root, and the other hints in the same order.
* `compile_useLeftJoin`: under `UseLeftJoin` an expression has the same statement, but that joins which
  drop rows without a partner may keep them.
-/

namespace EntityQuery

open Sql

variable {K : JoinKind → JoinKind → Prop} {drop : Method → Bool} {n : Nat}

namespace Compile

/-! ### The columns of a result -/

lemma follows_shownColumns (entity : String) :
    Follows K Eq 1 (shownColumns entity) (shownColumns entity) := by
  refine .get_bind fun s t hs => ?_
  rw [hs.mapping]
  refine follows_ask.andThen fun simple => follows_ask.andThen fun all => ?_
  exact .mapM (fun p => follows_ask.andThen fun column => .pure rfl) _

lemma follows_selectColumns (r : RequestId) (a : AliasId) (newElement : Bool)
    (columns : List (PropertyRef × String)) :
    Follows K Eq 1 (selectColumns r a newElement columns)
      (selectColumns r a newElement columns) := by
  induction columns generalizing newElement with
  | nil => exact .pure rfl
  | cons column columns ih =>
    refine (follows_add _).andThen fun n => ?_
    exact (follows_edit fun _ _ hg => hg.pushItem r _).andThen fun _ => ih false

lemma follows_selectRow (r : RequestId) (a : AliasId) :
    Follows K Eq 1 (selectRow r a) (selectRow r a) := by
  refine follows_graph_bind fun g h hg => ?_
  rw [hg.aliasOf]
  split
  · exact (follows_shownColumns _).andThen fun columns => follows_selectColumns r a true columns
  · exact .pure rfl

variable [Std.Refl K]

lemma follows_selectGroups (e e' : Expr) (r : RequestId) (newElement : Bool)
    (keys : List (NodeId × Option PropertyRef)) :
    Follows K Eq 1 (selectGroups e r newElement keys) (selectGroups e' r newElement keys) := by
  induction keys generalizing newElement with
  | nil => exact .pure rfl
  | cons key keys ih =>
    refine (follows_duplicate e e' _).andThen fun n => ?_
    exact (follows_edit fun _ _ hg => hg.pushItem r _).andThen fun _ => ih false

omit [Std.Refl K] in
lemma follows_expandItem (r : RequestId) (i : Item) :
    Follows K Eq 1 (expandItem r i) (expandItem r i) := by
  refine follows_graph_bind fun g h hg => ?_
  have hpush : Follows K Eq 1 (edit (·.pushItem r i)) (edit (·.pushItem r i)) :=
    follows_edit fun _ _ hg => hg.pushItem r i
  rw [hg.node]
  split
  · rw [hg.aliasOf]
    split
    · exact follows_selectRow r _
    · exact hpush
  · exact hpush

lemma follows_declareColumns (e e' : Expr) (r : RequestId) :
    Follows K Eq 1 (declareColumns e r) (declareColumns e' r) := by
  refine follows_request_bind (fun _ _ => rfl) fun q => ?_
  split
  · split
    · exact follows_selectGroups e e' r true _
    · split
      · exact follows_selectRow r _
      · exact .pure rfl
  · refine (follows_edit fun _ _ hg => hg.clearItems r).andThen fun _ => ?_
    exact .forM (List.map_id _).symm fun i => follows_expandItem r i
  · exact .pure rfl

/-! ### Loading hints -/

omit [Std.Refl K] in
/-- The path of a hint is read off its lambda, in which there is no hint to take out. -/
lemma runs_hintPath (drop : Method → Bool) {e path : Expr} {s t : CompileState} {members : List PropertyRef}
    (h : Runs (hintPath e path) s members t) :
    members = path.hintedPath ∧ path.shed drop = path ∧
      ∀ e' s', Runs (hintPath e' path) s' members s' := by
  fun_induction hintPath e path generalizing members t with
  | case1 target p ih =>
    obtain ⟨inner, u, h₁, h₂⟩ := runs_bind.1 h
    obtain ⟨rfl, rfl⟩ := runs_pure.1 h₂
    obtain ⟨rfl, hshed, hruns⟩ := ih h₁
    refine ⟨rfl, by rw [Expr.shed, hshed], fun e' s' => ?_⟩
    exact (hruns e' s').bind (runs_pure.2 ⟨rfl, rfl⟩)
  | case2 arg ih =>
    obtain ⟨rfl, hshed, hruns⟩ := ih h
    refine ⟨rfl, ?_, hruns⟩
    rw [Expr.shed_call_of_keeps rfl, hshed, Expr.shedAll]
  | case3 p =>
    obtain ⟨rfl, rfl⟩ := runs_pure.1 h
    exact ⟨rfl, rfl, fun _ _ => runs_pure.2 ⟨rfl, rfl⟩⟩
  | case4 other hmember hfirst hparam => exact absurd h not_runs_reject

/-- The state after a hint. -/
def withHint (s : CompileState) (hint : LoadingHint) : CompileState :=
  { s with hints := s.hints ++ [hint] }

section Hint

variable {visit : Visit} {e arg : Expr} {m : Method} {s t : CompileState} {a : Meaning}

omit [Std.Refl K] in
lemma runs_hint {ps : List Param} {body : Expr} {rest : List Expr} {path : List PropertyRef}
    (hpath : Runs (hintPath e body) s path s) (hne : path ≠ []) (h : Runs (visit arg) s a t) :
    Runs (hint visit e m arg (arg :: .lambda ps body :: rest)) s a
      (withHint t ⟨.ofMethod m, path⟩) := by
  refine Runs.bind (runs_pure.2 ⟨rfl, rfl⟩) (Runs.bind hpath ?_)
  obtain ⟨p, path, rfl⟩ := List.exists_cons_of_ne_nil hne
  exact h.bind (Runs.bind (a := ⟨⟩) (runs_modify.2 rfl) (runs_pure.2 ⟨rfl, rfl⟩))

omit [Std.Refl K] in
/-- A hint compiles its receiver and adds itself to the list of hints. -/
lemma hint_runs (drop : Method → Bool) {rest : List Expr} (h : Runs (hint visit e m arg (arg :: rest)) s a t) :
    ∃ ps body tail u, rest = .lambda ps body :: tail ∧ Runs (visit arg) s a u ∧
      t = withHint u (Expr.hintOf m rest) ∧ body.hintedPath ≠ [] ∧ body.shed drop = body ∧
      ∀ e' s', Runs (hintPath e' body) s' body.hintedPath s' := by
  obtain ⟨f, s₁, h₁, h₂⟩ := runs_bind.1 h
  cases rest with
  | nil => exact absurd h₁ not_runs_reject
  | cons g tail =>
    obtain ⟨rfl, rfl⟩ := runs_pure.1 h₁
    cases f with
    | lambda ps body =>
      obtain ⟨path, s₂, h₃, h₄⟩ := runs_bind.1 h₂
      obtain ⟨rfl, hshed, hruns⟩ := runs_hintPath drop h₃
      obtain rfl : s₂ = s₁ := congrArg Prod.snd (h₃.symm.trans (hruns e s₁))
      have hne : body.hintedPath ≠ [] := by
        intro hnil
        rw [hnil] at h₄
        exact not_runs_reject h₄
      refine ⟨ps, body, tail, ?_⟩
      obtain ⟨p, path, hcons⟩ := List.exists_cons_of_ne_nil hne
      rw [hcons] at h₄
      obtain ⟨b, u, h₅, h₆⟩ := runs_bind.1 h₄
      obtain ⟨_, v, h₇, h₈⟩ := runs_bind.1 h₆
      obtain ⟨rfl, rfl⟩ := runs_pure.1 h₈
      obtain rfl := runs_modify.1 h₇
      refine ⟨u, rfl, h₅, ?_, hne, hshed, hruns⟩
      rw [withHint, Expr.hintOf, hcons]
    | _ => exact absurd h₂ not_runs_reject

end Hint

section Visit

variable {visit visit' : Visit} {arg : Expr}

omit [Std.Refl K] in
/-- A hint that stays is given by both. -/
lemma follows_hint (e e' : Expr) (m : Method) (rest : List Expr)
    (h : Shadows K drop visit visit' arg) :
    Follows K Eq (arg.hintLogs drop * {[(Expr.hintOf m rest, true)]})
      (hint visit e m arg (arg :: rest))
      (hint visit' e' m (arg.shed drop) (arg.shed drop :: Expr.shedAll drop rest)) := by
  intro s t hs a s' hrun
  obtain ⟨ps, body, tail, u, rfl, hvisit, rfl, hne, hshed, hpath⟩ := hint_runs drop hrun
  obtain ⟨b, t', log, hlog, hvisit', rfl, hu⟩ := h hs hvisit
  rw [Expr.shedAll, Expr.shed_lambda, hshed]
  refine ⟨a, _, log ++ [(_, true)], Language.append_mem_mul hlog rfl,
    runs_hint (hpath e' t) hne hvisit', rfl, hu.trans ⟨?_, rfl, rfl, rfl⟩⟩
  exact ⟨hu.rejoined.mapping, hu.rejoined.graph, hu.rejoined.active, hu.rejoined.widen,
    hu.rejoined.paths, hu.rejoined.computed⟩

omit [Std.Refl K] in
/-- A hint that is taken out is given by one of the runs, after its receiver. -/
lemma follows_hint_dropped (e : Expr) (m : Method) (rest : List Expr) {y : Compile Meaning}
    (h : Follows K Eq (arg.hintLogs drop) (visit arg) y) :
    Follows K Eq (arg.hintLogs drop * {[(Expr.hintOf m rest, false)]})
      (hint visit e m arg (arg :: rest)) y := by
  intro s t hs a s' hrun
  obtain ⟨ps, body, tail, u, rfl, hvisit, rfl, -, -, -⟩ := hint_runs drop hrun
  obtain ⟨b, t', log, hlog, hvisit', rfl, hu⟩ := h hs hvisit
  refine ⟨a, t', log ++ [(_, false)], Language.append_mem_mul hlog rfl, hvisit', rfl,
    hu.trans ⟨?_, rfl, rfl, (List.append_nil _).symm⟩⟩
  exact ⟨hu.rejoined.mapping, hu.rejoined.graph, hu.rejoined.active, hu.rejoined.widen,
    hu.rejoined.paths, hu.rejoined.computed⟩

end Visit

/-! ### Calls -/

omit [Std.Refl K] in
lemma operator_of_isLoadingHint {visit : Visit} {m : Method} (h : m.isLoadingHint = true)
    {e arg : Expr} {args : List Expr} :
    operator visit e m arg args = hint visit e m arg args := by
  cases m <;> first | rfl | cases h

section Visit

variable {visit visit' : Visit} (hv : ShadowsBelow K drop n visit visit') {arg : Expr}
  (h : (arg.shed drop).depth ≤ n)
include hv h

/-- A call of a method that compiles its argument. -/
lemma follows_operator {e e' : Expr} (htype : e'.type = e.type) {m : Method}
    (hm : m.compilesArgument = true) {args args' : List Expr}
    (hargs : ShedArguments drop n args args') :
    Follows K Eq (arg.hintLogs drop * Expr.hintLogs? drop args[1]?) (operator visit e m arg args)
      (operator visit' e' m (arg.shed drop) args') := by
  cases m with
  | «where» => exact follows_filter hv hargs e e' h
  | first => exact follows_first hv hargs e e' h
  | skip => exact follows_skip hv hargs e e' h
  | take => exact follows_take hv hargs e e' h
  | orderBy => exact follows_order hv hargs e e' true true h
  | orderByDescending => exact follows_order hv hargs e e' true false h
  | thenBy => exact follows_order hv hargs e e' false true h
  | thenByDescending => exact follows_order hv hargs e e' false false h
  | contains => exact follows_contains hv hargs e e' h
  | startsWith => exact follows_like hv hargs e e' false true h
  | endsWith => exact follows_like hv hargs e e' true false h
  | select => exact follows_select hv e e' false hargs h
  | selectMany => exact follows_select hv e e' true hargs h
  | groupBy => exact follows_groupBy hv htype hargs h
  | count => exact follows_aggregate hv htype .count hargs h
  | sum => exact follows_aggregate hv htype .sum hargs h
  | average => exact follows_aggregate hv htype .average hargs h
  | min => exact follows_aggregate hv htype .min hargs h
  | max => exact follows_aggregate hv htype .max hargs h
  | any => exact follows_any hv e e' hargs h
  | insert => exact follows_insert hv hargs htype h
  | update => exact follows_update hv hargs htype h
  | named name => exact .reject
  | distinct | delete | eagerLoad | lazyLoad | batchLazyLoad | dontLoad | useLeftJoin => cases hm

/-- A call that stays: the hints of its receiver, then those of its argument or its own. -/
lemma follows_call {e e' : Expr} (htype : e'.type = e.type) (m : Method) (rest : List Expr)
    (hkeep : Expr.sheds drop m arg = false)
    (hargs : ShedArguments drop n (arg :: rest) (arg.shed drop :: Expr.shedAll drop rest)) :
    Follows K Eq ((Expr.call m (arg :: rest)).hintLogs drop) (operator visit e m arg (arg :: rest))
      (operator visit' e' m (arg.shed drop) (arg.shed drop :: Expr.shedAll drop rest)) := by
  rw [Expr.hintLogs, hkeep]
  cases hhint : m.isLoadingHint with
  | true =>
    rw [operator_of_isLoadingHint hhint, operator_of_isLoadingHint hhint]
    exact follows_hint e e' m rest (hv arg h)
  | false =>
    rw [if_neg Bool.false_ne_true]
    cases hm : m.compilesArgument with
    | true =>
      have hsecond : Expr.hintLogsHead drop rest = Expr.hintLogs? drop (arg :: rest)[1]? := by
        cases rest <;> rw [Expr.hintLogsHead] <;> rfl
      rw [if_pos rfl, hsecond]
      exact follows_operator hv h htype hm hargs
    | false =>
      rw [if_neg Bool.false_ne_true, mul_one]
      cases m with
      | distinct => exact follows_distinct hv e e' h
      | delete => exact follows_delete hv htype h
      | useLeftJoin => exact follows_widening (Std.Refl.refl _) (hv arg h)
      | eagerLoad | lazyLoad | batchLazyLoad | dontLoad => cases hhint
      | _ => cases hm

end Visit

/-! ### Expressions -/

omit [Std.Refl K] in
lemma shedArguments_cons {arg : Expr} {rest : List Expr}
    (h : Expr.depthAll (arg.shed drop :: Expr.shedAll drop rest) ≤ n) :
    ShedArguments drop n (arg :: rest) (arg.shed drop :: Expr.shedAll drop rest) := by
  refine ⟨by simp [Expr.shedAll_eq_map], fun f hf => ?_⟩
  cases rest with
  | nil => cases hf
  | cons g rest =>
    obtain rfl : g = f := Option.some.inj hf
    rw [Expr.shedAll, Expr.depthAll, Expr.depthAll] at h
    omega

/-- Expressions are compiled in lockstep, if they stay and their parts are. -/
lemma shadows_step {visit visit' : Visit} (hv : ShadowsBelow K drop n visit visit') {e : Expr}
    (hkeep : ∀ m arg rest, e = .call m (arg :: rest) → Expr.sheds drop m arg = false)
    (h : (e.shed drop).depth ≤ n + 1) :
    Follows K Eq (e.hintLogs drop) (step visit e) (step visit' (e.shed drop)) := by
  cases e with
  | source entity => exact follows_source entity
  | const l => exact follows_constant _ _ l
  | param p => exact follows_parameter _ _ p
  | member target p =>
    rw [Expr.shed, Expr.depth] at h
    rw [Expr.shed, Expr.hintLogs]
    exact follows_member hv _ _ (by omega) p
  | key grouping =>
    rw [Expr.shed, Expr.depth] at h
    rw [Expr.shed, Expr.hintLogs]
    exact follows_key (hv _ (by omega)) _ _
  | binary op l r =>
    rw [Expr.shed, Expr.depth] at h
    rw [Expr.shed, Expr.hintLogs]
    exact follows_binary hv _ _ op (by omega) (by omega)
  | unary op operand =>
    rw [Expr.shed, Expr.depth] at h
    rw [Expr.shed, Expr.hintLogs]
    exact follows_unary hv _ _ op (by omega)
  | cond t y n =>
    rw [Expr.shed, Expr.depth] at h
    rw [Expr.shed, Expr.hintLogs]
    exact follows_conditional hv (by omega) (by omega) (by omega)
  | call m args =>
    cases args with
    | nil => cases m <;> exact .reject
    | cons arg rest =>
      have htype : ((Expr.call m (arg :: rest)).shed drop).type = _ := Expr.type_shed _
      have hstays := hkeep m arg rest rfl
      rw [Expr.shed_call_of_keeps hstays] at h htype ⊢
      rw [Expr.depth] at h
      have hargs : ShedArguments drop n (arg :: rest) _ := shedArguments_cons (by omega)
      rw [Expr.depthAll] at h
      rw [step, step, call_cons, call_cons]
      exact follows_call hv (by omega) htype m rest hstays hargs
  | lambda ps body => exact .reject
  | new type members => exact .reject
  | init type bindings => exact .reject

/-- **An expression is compiled in lockstep with itself without hints.** A hint that is taken out is
nested once more in the first run only, so the two runs may take different numbers of steps. -/
theorem shadows_visit (fuel : Nat) : ∀ fuel', ShadowsBelow K drop fuel' (visit [] fuel) (visit [] fuel') := by
  induction fuel with
  | zero => exact fun fuel' e h => .reject
  | succ fuel ih =>
    intro fuel' e h
    by_cases hshed : ∃ m arg rest, e = .call m (arg :: rest) ∧ Expr.sheds drop m arg = true
    · obtain ⟨m, arg, rest, rfl, hsheds⟩ := hshed
      have hhint : m.isLoadingHint = true := by grind [Expr.sheds]
      rw [Expr.shed_call_of_sheds hsheds] at h
      rw [Shadows, Expr.shed_call_of_sheds hsheds, Expr.hintLogs, hsheds, hhint]
      have hstep : visit [] (fuel + 1) (.call m (arg :: rest)) =
          hint (visit [] fuel) (.call m (arg :: rest)) m arg (arg :: rest) := by
        rw [visit, ← operator_of_isLoadingHint hhint, ← call_cons]
        rfl
      rw [hstep]
      exact follows_hint_dropped _ m rest (ih fuel' arg h)
    · have hkeep : ∀ m arg rest, e = .call m (arg :: rest) → Expr.sheds drop m arg = false := by
        intro m arg rest he
        exact Bool.eq_false_iff.2 fun hsheds => hshed ⟨m, arg, rest, he, hsheds⟩
      cases fuel' with
      | zero => exact absurd h (Nat.not_le.2 (Expr.depth_pos _))
      | succ fuel' => exact shadows_step (ih fuel') hkeep h

/-! ### Roots -/

/-- What the root of a statement does once its expression is compiled. -/
def finishRoot (e : Expr) : Compile RequestId := do
  let r := (← graph).outermost (← active e)
  declareColumns e r
  return r

omit [Std.Refl K] in
lemma root_eq_finishRoot {e : Expr} (h : e.isSourceOrCall = true) :
    root [] e = (visit [] e.depth e >>= fun _ => finishRoot e) := by
  cases e <;> first | rfl | cases h

omit [Std.Refl K] in
lemma isSourceOrCall_of_runs {e : Expr} {s t : CompileState} {r : RequestId}
    (h : Runs (root [] e) s r t) : e.isSourceOrCall = true := by
  cases e <;> first | rfl | exact absurd h not_runs_reject

lemma follows_finishRoot (e e' : Expr) : Follows K Eq 1 (finishRoot e) (finishRoot e') := by
  refine follows_graph_bind fun g h hg => (follows_active e e').andThen fun r => ?_
  rw [hg.outermost]
  exact (follows_declareColumns e e' _).andThen fun _ => .pure rfl

lemma follows_root (drop : Method → Bool) {e : Expr} (h : e.isSourceOrCall = true) :
    Follows K Eq (e.hintLogs drop) (root [] e) (root [] (e.shed drop)) := by
  rw [root_eq_finishRoot h, root_eq_finishRoot (Expr.isSourceOrCall_shed e h)]
  exact (shadows_visit e.depth _ e le_rfl).ending fun _ => follows_finishRoot e _

omit [Std.Refl K] in
lemma visit_useLeftJoin (e : Expr) :
    visit [] (Expr.call .useLeftJoin [e]).depth (.call .useLeftJoin [e]) =
      widening true (visit [] e.depth e) := by
  rw [Expr.depth, Expr.depthAll, Expr.depthAll, Nat.max_zero]
  rfl

/-- Under `UseLeftJoin` an expression is compiled in lockstep with itself, if `K` lets joins that drop
rows be joins that keep them. -/
lemma runs_root_useLeftJoin (hwiden : K .inner .left) {e : Expr} (h : e.isSourceOrCall = true)
    {s t : CompileState} (hs : s.Rejoined K t) (hdrops : s.widen = false) {r : RequestId}
    {s' : CompileState} (hrun : Runs (root [] e) s r s') :
    ∃ t' log, Runs (root [] (.call .useLeftJoin [e])) t r t' ∧
      log ∈ e.hintLogs (fun _ => false) ∧ s.Trails K t s' t' log := by
  rw [root_eq_finishRoot h] at hrun
  obtain ⟨m, u, hvisit, hfinish⟩ := runs_bind.1 hrun
  have hshadows : Shadows K (fun _ => false) (visit [] e.depth) (visit [] e.depth) e :=
    shadows_visit e.depth e.depth e (by rw [Expr.shed_none])
  rw [Shadows, Expr.shed_none] at hshadows
  obtain ⟨_, u', log, hlog, hvisit', rfl, hu⟩ := hshadows (t := { t with widen := true })
    { hs with widen := hdrops ▸ hwiden } hvisit
  have hback : u.Rejoined K { u' with widen := t.widen } :=
    { hu.rejoined with widen := hu.widen ▸ hs.widen }
  obtain ⟨_, t', log', hlog', hfinish', rfl, ht'⟩ :=
    follows_finishRoot e (.call .useLeftJoin [e]) hback hfinish
  obtain rfl := (Language.mem_one log').1 hlog'
  refine ⟨t', log, ?_, hlog, ?_⟩
  · rw [root_eq_finishRoot rfl, visit_useLeftJoin]
    exact Runs.bind (runs_widening.2 ⟨u', hvisit', rfl⟩) hfinish'
  · exact List.append_nil log ▸ CompileState.Trails.trans ⟨hback, hu.widen, hu.hints, hu.kept⟩ ht'

end Compile

/-! ### Statements -/

/-- What a run of the root gives and leaves is a statement and a mapping. -/
lemma Mapping.compile_of_runs {m : Mapping} {e : Expr} {r : RequestId} {t : CompileState}
    (h : Runs (Compile.root [] e) { mapping := m } r t) :
    m.compile e = (.ok ⟨t.graph, r, t.hints⟩, t.mapping) := by
  unfold Runs at h
  rw [compile, compileWith, h]
  rfl

lemma Mapping.exists_runs_of_compile {m : Mapping} {e : Expr} {st : Statement}
    (h : (m.compile e).1 = .ok st) :
    ∃ r t, Runs (Compile.root [] e) { mapping := m } r t ∧ st = ⟨t.graph, r, t.hints⟩ := by
  rw [compile, compileWith] at h
  unfold Runs
  rcases hrun : (Compile.root [] e).run.run { mapping := m } with ⟨f | r, t⟩
  · rw [hrun] at h
    cases h
  · rw [hrun] at h
    exact ⟨r, t, rfl, (Except.ok.inj h).symm⟩

end EntityQuery

namespace EntityQuery

open Sql

/-! ### Loading hints -/

/-- **Loading hints do not change a statement.** An expression that has a statement has one without
its hints for sources and operator calls: the graph and the root are the same. A log of the hints of
the expression, in the order in which it gives them, says of each whether it was taken out; the hints
left are the others. -/
theorem Mapping.compile_withoutHints (m : Mapping) {e : Expr} {st : Statement}
    (h : (m.compile e).1 = .ok st) :
    ∃ st' log, m.compile e.withoutHints = (.ok st', (m.compile e).2) ∧ st'.graph = st.graph ∧
      st'.root = st.root ∧ log ∈ e.hintLogs (fun _ => true) ∧ st.hints = log.map Prod.fst ∧
      st'.hints = keptHints log := by
  obtain ⟨r, s, hrun, rfl⟩ := exists_runs_of_compile h
  have hstart : CompileState.Rejoined Eq { mapping := m } { mapping := m } :=
    ⟨rfl, .refl _, rfl, rfl, rfl, rfl⟩
  obtain ⟨_, t, log, hlog, hrun', rfl, ht⟩ :=
    Compile.follows_root (fun _ => true) (Compile.isSourceOrCall_of_runs hrun) hstart hrun
  have hcompile : m.compile e.withoutHints = (.ok ⟨t.graph, r, t.hints⟩, t.mapping) :=
    compile_of_runs hrun'
  refine ⟨⟨t.graph, r, t.hints⟩, log, ?_, ht.rejoined.graph.eq, rfl, hlog, ht.hints, ht.kept⟩
  rw [hcompile, compile_of_runs hrun, ht.rejoined.mapping]

/-- The people whose boss is called Ann, with hints along the chain and one for the lambda's row. -/
def Expr.hinted : Expr :=
  let person : Param := ⟨⟨1⟩, "p", .entity "Person"⟩
  let other : Param := ⟨⟨2⟩, "q", .entity "Person"⟩
  let name : PropertyRef := ⟨"Person", "Name", .scalar .varChar false⟩
  let boss : PropertyRef := ⟨"Person", "Boss", .entity "Person"⟩
  let bossOf (p : Param) : Expr := .lambda [p] (.member (.param p) boss)
  let row : Expr := .call .batchLazyLoad [.param person, bossOf other]
  let test : Expr := .binary .equal (.member (.member row boss) name) (.const (.value (.string "Ann")))
  .call .dontLoad [.call .where [.call .eagerLoad [.source "Person", bossOf other],
    .lambda [person] test], bossOf other]

lemma Mapping.exists_compile_hinted : ∃ st, (staff.compile .hinted).1 = .ok st := by
  have hok : (staff.compile .hinted).1.toOption.isSome = true := by decide +kernel
  cases hst : (staff.compile .hinted).1 with
  | ok st => exact ⟨st, rfl⟩
  | error f =>
    rw [hst] at hok
    cases hok

/-- Two hints are taken out of the chain; the one for the row of the lambda stays. -/
theorem Mapping.compile_withoutHints_hinted :
    ∃ st, (staff.compile .hinted).1 = .ok st ∧ ∃ st' log,
      staff.compile Expr.hinted.withoutHints = (.ok st', (staff.compile .hinted).2) ∧
      st'.graph = st.graph ∧ st'.root = st.root ∧ log ∈ Expr.hinted.hintLogs (fun _ => true) ∧
      st.hints = log.map Prod.fst ∧ st'.hints = keptHints log := by
  obtain ⟨st, hst⟩ := exists_compile_hinted
  exact ⟨st, hst, staff.compile_withoutHints hst⟩

example : (Mapping.staff.compile .hinted).1.toOption.map (·.hints.map LoadingHint.text) =
    some ["Eager(Boss)", "BatchLazy(Boss)", "Exclude(Boss)"] := by decide +kernel

example : (Mapping.staff.compile Expr.hinted.withoutHints).1.toOption.map
    (·.hints.map LoadingHint.text) = some ["BatchLazy(Boss)"] := by decide +kernel

/-! ### `UseLeftJoin` -/

/-- A join of a kind may become a join of another kind that keeps every row it kept. -/
def Sql.JoinKind.Widens (k k' : JoinKind) : Prop := k = .left → k' = .left

instance : Std.Refl JoinKind.Widens := ⟨fun _ h => h⟩

/-- **`UseLeftJoin` only widens.** An expression that has a statement has one under `UseLeftJoin`, with
the same nodes, aliases, requests, root and hints, but that some inner joins may be left joins. -/
theorem Mapping.compile_useLeftJoin (m : Mapping) {e : Expr} {st : Statement}
    (h : (m.compile e).1 = .ok st) :
    ∃ st', m.compile (.call .useLeftJoin [e]) = (.ok st', (m.compile e).2) ∧
      st.graph.Rejoined JoinKind.Widens st'.graph ∧ st'.root = st.root ∧ st'.hints = st.hints := by
  obtain ⟨r, s, hrun, rfl⟩ := exists_runs_of_compile h
  have hstart : CompileState.Rejoined JoinKind.Widens { mapping := m } { mapping := m } :=
    ⟨rfl, .refl _, rfl, Std.Refl.refl _, rfl, rfl⟩
  obtain ⟨t, log, hrun', hlog, ht⟩ := Compile.runs_root_useLeftJoin (K := JoinKind.Widens)
    (fun hleft => nomatch hleft) (Compile.isSourceOrCall_of_runs hrun) hstart rfl hrun
  have hkept : keptHints log = log.map Prod.fst := Expr.hintLogs_le_allKept e hlog
  refine ⟨⟨t.graph, r, t.hints⟩, ?_, ht.rejoined.graph, rfl, ?_⟩
  · rw [compile_of_runs hrun', compile_of_runs hrun, ht.rejoined.mapping]
  · exact (ht.kept.trans (congrArg _ hkept)).trans ht.hints.symm

/-- The statement of a query that navigates, and the one under `UseLeftJoin`. -/
theorem Mapping.compile_useLeftJoin_hinted :
    ∃ st, (staff.compile .hinted).1 = .ok st ∧ ∃ st',
      staff.compile (.call .useLeftJoin [.hinted]) = (.ok st', (staff.compile .hinted).2) ∧
      st.graph.Rejoined JoinKind.Widens st'.graph ∧ st'.root = st.root ∧ st'.hints = st.hints := by
  obtain ⟨st, hst⟩ := exists_compile_hinted
  exact ⟨st, hst, staff.compile_useLeftJoin hst⟩

example : (Mapping.staff.compile .hinted).1.toOption.map (·.request.joins.map Join.kind) =
    some [.inner] := by decide +kernel

example : (Mapping.staff.compile (.call .useLeftJoin [.hinted])).1.toOption.map
    (·.request.joins.map Join.kind) = some [.left] := by decide +kernel

end EntityQuery
