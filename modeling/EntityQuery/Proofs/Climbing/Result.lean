import EntityQuery.Compile.Statement
import EntityQuery.Proofs.Climbing.Rules
import EntityQuery.Proofs.Nesting.Result

/-!
Walks upwards end.

* `watched`: the translation with a watch that may stop it before and after every expression that it
  comes to. A watch that stops nothing leaves the translation as it is; one that stops at a state shows
  the graph as it is there.
* Wherever a translation ends or is stopped, the graph came about by single steps from the empty one;
  so did a graph that operations have built. Such a graph ascends, and all walks on it end.
-/

namespace EntityQuery

open Sql Graph

namespace Compile

variable {n : ℕ} {r : RequestId}

/-! ### Columns of the result -/

lemma climbs_shownColumns (entity : String) : Climbs n (shownColumns entity) := by
  refine reaches_get_bind fun s _ _ => ?_
  refine (climbs_ask _).andThen fun simple => (climbs_ask _).andThen fun all => ?_
  exact climbs_mapM _ fun p _ => (climbs_ask _).andThen fun column => climbs_pure _

lemma climbs_selectColumns (r : RequestId) (a : AliasId) (newElement : Bool)
    (columns : List (PropertyRef × String)) : Climbs n (selectColumns r a newElement columns) := by
  induction columns generalizing newElement with
  | nil => exact climbs_pure _
  | cons column columns ih =>
    refine (climbs_add _).andThen fun m => ?_
    exact (climbs_edit fun g => steps_pushItem g r _).andThen fun _ => ih false

lemma climbs_selectRow (r : RequestId) (a : AliasId) : Climbs n (selectRow r a) := by
  refine reaches_graph_bind fun g _ _ => ?_
  split
  · exact (climbs_shownColumns _).andThen fun columns => climbs_selectColumns r a true columns
  · exact climbs_pure _

lemma climbs_selectGroups (e : Expr) (r : RequestId) (newElement : Bool)
    (keys : List (NodeId × Option PropertyRef)) : Climbs n (selectGroups e r newElement keys) := by
  induction keys generalizing newElement with
  | nil => exact climbs_pure _
  | cons key keys ih =>
    refine (climbs_duplicate e key.1).andThen fun m => ?_
    exact (climbs_edit fun g => steps_pushItem g r _).andThen fun _ => ih false

lemma climbs_expandItem (r : RequestId) (i : Item) : Climbs n (expandItem r i) := by
  have hpush : ∀ {k}, Climbs k (edit (·.pushItem r i)) := climbs_edit fun g => steps_pushItem g r i
  refine reaches_graph_bind fun g _ _ => ?_
  split
  · split
    · exact climbs_selectRow r _
    · exact hpush
  · exact hpush

lemma climbs_declareColumns (e : Expr) (r : RequestId) : Climbs n (declareColumns e r) := by
  refine (climbs_request r).andThen fun q => ?_
  split
  · split
    · exact climbs_selectGroups e r true _
    · split
      · exact climbs_selectRow r _
      · exact climbs_pure _
  · refine (climbs_edit fun g => steps_clearItems g r).andThen fun _ => ?_
    exact climbs_forM _ fun i _ => climbs_expandItem r i
  · exact climbs_pure _

/-! ### Expressions -/

section Visit

variable {visit : Visit} (hv : ClimbsVisit visit)
include hv

lemma reaches_hint (e : Expr) (m : Method) (arg : Expr) (args : List Expr) :
    Reaches n (hint visit e m arg args) Meaning.Inside := by
  have hpath : ∀ {k} (body : Expr), Climbs k (hintPath e body) := by
    intro k body
    induction body using hintPath.induct with
    | case1 target p ih =>
      rw [hintPath]
      exact ih.andThen fun path => climbs_pure _
    | case2 arg ih =>
      rw [hintPath]
      exact ih
    | case3 p =>
      rw [hintPath]
      exact climbs_pure _
    | case4 other hmember hcall hparam =>
      rw [hintPath] <;> first | exact reaches_reject e _ | assumption
  refine (climbs_argument e args 1).andThen fun f => ?_
  split
  · refine (hpath _).andThen fun path => ?_
    split
    · exact reaches_reject e _
    · refine (hv.reaches arg).bind fun x k _ hx => ?_
      refine Climbs.andThen (climbs_modify (fun _ => rfl) fun _ => rfl) fun _ => ?_
      exact reaches_pure fun l hl => x.inside_mono k l hx hl
  · exact reaches_reject e _

lemma reaches_operator (e : Expr) (m : Method) (arg : Expr) (args : List Expr) :
    Reaches n (operator visit e m arg args) Meaning.Inside := by
  cases m with
  | «where» => exact reaches_filter hv e arg args
  | first => exact reaches_first hv e arg args
  | skip => exact reaches_skip hv e arg args
  | take => exact reaches_take hv e arg args
  | distinct => exact reaches_distinct hv e arg
  | orderBy | orderByDescending | thenBy | thenByDescending => exact reaches_order hv e _ _ arg args
  | contains => exact reaches_contains hv e arg args
  | startsWith | endsWith => exact reaches_like hv e _ _ arg args
  | select | selectMany => exact reaches_select hv e _ arg args
  | groupBy => exact reaches_groupBy hv e arg args
  | count | sum | average | min | max => exact reaches_aggregate hv e _ arg args
  | any => exact reaches_any hv e arg args
  | insert => exact reaches_insert hv e arg args
  | update => exact reaches_update hv e arg args
  | delete => exact reaches_delete hv e arg
  | eagerLoad | lazyLoad | batchLazyLoad | dontLoad => exact reaches_hint hv e _ arg args
  | useLeftJoin => exact reaches_widening Meaning.inside_mono true (hv.reaches arg)
  | named name => exact reaches_reject e _

lemma reaches_step (e : Expr) : Reaches n (step visit e) Meaning.Inside := by
  cases e with
  | source entity => exact reaches_source entity
  | const l => exact reaches_constant _ l
  | param p => exact reaches_parameter _ p
  | member target p => exact reaches_member hv _ target p
  | key grouping => exact reaches_key hv _ grouping
  | binary op l r => exact reaches_binary hv _ op l r
  | unary op operand => exact reaches_unary hv _ op operand
  | cond test yes no => exact reaches_conditional hv test yes no
  | call m args =>
    rw [step]
    unfold call
    split
    · exact reaches_reject _ _
    · exact reaches_reject _ _
    · exact reaches_operator hv _ _ _ _
  | lambda ps body => exact reaches_reject _ _
  | new type members => exact reaches_reject _ _
  | init type bindings => exact reaches_reject _ _

end Visit

/-! ### Watched translations -/

/-- Goes on unless the watch stops at the state. -/
def pause (watch : CompileState → Bool) (e : Expr) : Compile Unit := do
  if watch (← get) then pure () else reject e .endless

/-- What an expression stands for, with a pause before and after every part. -/
def watched (watch : CompileState → Bool) : Nat → Visit
  | 0, e => reject e .endless
  | fuel + 1, e => do
    pause watch e
    let m ← step (watched watch fuel) e
    pause watch e
    return m

/-- The root of the statement of an expression, found with pauses. -/
def watchedRoot (watch : CompileState → Bool) (e : Expr) : Compile RequestId := do
  match e with
  | .source _ | .call _ _ =>
    let _ ← watched watch e.depth e
    let r := (← graph).outermost (← active e)
    declareColumns e r
    return r
  | _ => reject e .notAQuery

variable {watch : CompileState → Bool}

/-- A watch that stops nothing changes nothing. -/
lemma watched_true (fuel : Nat) : watched (fun _ => true) fuel = visit [] fuel := by
  induction fuel with
  | zero => rfl
  | succ fuel ih =>
    funext e
    rw [watched, ih]
    show (pure () >>= fun _ => step (visit [] fuel) e >>= fun m => pure () >>= fun _ => pure m) =
      step (visit [] fuel) e
    simp only [pure_bind, bind_pure]

lemma watchedRoot_true (e : Expr) : watchedRoot (fun _ => true) e = root [] e := by
  cases e <;> simp only [watchedRoot, root, watched_true]

lemma climbs_pause (e : Expr) : Climbs n (pause watch e) := by
  refine reaches_get_bind fun s _ _ => ?_
  split
  · exact climbs_pure _
  · exact reaches_reject e _

theorem climbsVisit_watched (watch : CompileState → Bool) (fuel : Nat) :
    ClimbsVisit (watched watch fuel) := by
  induction fuel with
  | zero => exact fun e => reaches_reject e _
  | succ fuel ih =>
    intro e
    refine (climbs_pause e).andThen fun _ => (reaches_step ih e).bind fun m k _ hm => ?_
    exact (climbs_pause e).andThen fun _ => reaches_pure fun l hl => m.inside_mono k l hm hl

lemma climbs_watchedRoot (e : Expr) : Climbs 0 (watchedRoot watch e) := by
  have hroot : Climbs 0 (do
      let _ ← watched watch e.depth e
      let r := (← graph).outermost (← active e)
      declareColumns e r
      return r) := by
    refine (climbsVisit_watched watch e.depth e).bind fun m k _ _ => ?_
    refine reaches_graph_bind fun g _ _ => (reaches_active e).bind fun r l _ _ => ?_
    exact (climbs_declareColumns e _).andThen fun _ => climbs_pure _
  unfold watchedRoot
  split
  · exact hroot
  · exact hroot
  · exact reaches_reject e _

end Compile

/-! ### All walks -/

namespace Sql.Graph

/-- **Walks upwards end.** At whichever expression a translation is stopped, before it or after it, and
wherever it ends, be it in a statement or with an error, the graph came about by single steps from the
empty one; so did every graph that operations have built. On a graph that came about so, the link of a
node to a node leads to a later one that has it as a child, and the links of requests do not run in a
circle. The walks to the owner of a node, and from a request to the outermost one, to the one that
binds a parameter and to the one over a source, end with what the functions give. -/
theorem walks_end :
    (∀ (m : Mapping) (e : Expr) (watch : CompileState → Bool),
      Steps {} ((Compile.watchedRoot watch e).run.run { mapping := m }).2.graph) ∧
    (∀ e, Compile.watchedRoot (fun _ => true) e = Compile.root [] e) ∧
    (∀ g, Relation.ReflTransGen Operation {} g → Steps {} g) ∧
    ∀ g : Graph, Steps {} g →
      g.Ascends ∧
      (∀ n, g.NodeWalk n (g.owner? n)) ∧
      ∀ r, g.RequestWalk (fun q => (g.request q).parent.isNone) r (some (g.outermost r)) ∧
        (∀ p, ∃ o, g.RequestWalk (fun q => (g.boundSource? p q).isSome) r o ∧
          g.aliasFor? r p = o.bind (g.boundSource? p)) ∧
        ∀ a, g.RequestWalk (fun q => (g.request q).base == some a) r (g.requestOver? r a) := by
  refine ⟨fun m e watch => ?_, Compile.watchedRoot_true, fun g => steps_of_operations, fun g hg => ?_⟩
  · exact (Compile.climbs_watchedRoot e { mapping := m } ⟨ascends_empty, nofun⟩ (Nat.zero_le _)).1
  · have hascends := Steps.ascends hg ascends_empty
    refine ⟨hascends, hascends.nodeWalk_owner?, fun r => ⟨hascends.requestWalk_outermost r, ?_, ?_⟩⟩
    · exact fun p => ⟨_, hascends.requestWalk_enclosing? _ r, rfl⟩
    · exact fun a => hascends.requestWalk_enclosing? _ r

/-- Asking whether there are orders puts a younger request around the one over the orders. -/
theorem walks_end_any :
    (((Compile.root [] (.call .any [.source "Order"])).run.run
      { mapping := Totals.mapping }).2.graph.request ⟨0⟩).parent = some ⟨1⟩ ∧
    ((Compile.root [] (.call .any [.source "Order"])).run.run
      { mapping := Totals.mapping }).2.graph.Ascends ∧
    ((Compile.root [] (.call .any [.source "Order"])).run.run
      { mapping := Totals.mapping }).2.graph.owner? ⟨0⟩ = some ⟨0⟩ ∧
    ((Compile.root [] (.call .any [.source "Order"])).run.run
      { mapping := Totals.mapping }).2.graph.NodeWalk ⟨0⟩ (some ⟨0⟩) := by
  obtain ⟨htranslation, hwatch, -, hwalks⟩ := walks_end
  have hsteps := htranslation Totals.mapping (.call .any [.source "Order"]) fun _ => true
  rw [hwatch] at hsteps
  obtain ⟨hascends, hnodes, -⟩ := hwalks _ hsteps
  have howner : ((Compile.root [] (.call .any [.source "Order"])).run.run
      { mapping := Totals.mapping }).2.graph.owner? ⟨0⟩ = some ⟨0⟩ := by decide +kernel
  exact ⟨by decide +kernel, hascends, howner, howner ▸ hnodes ⟨0⟩⟩

end Sql.Graph
end EntityQuery
