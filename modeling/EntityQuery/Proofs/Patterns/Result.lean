import EntityQuery.Proofs.Filters.Result
import EntityQuery.Proofs.Formulas.Values
import EntityQuery.Proofs.Patterns.Texts
import Mathlib.Tactic.IntervalCases

/-!
What the tests for a part of a text mean.

* `isTrue_visit_like`: the test of two expressions is true exactly where the text of the first one has,
  at the place, a text that the second one describes as a pattern. The letters `%` and `_` of the second
  text keep their meaning in patterns: only where it has none is the test one for the text itself.
* `rowsOf_compile_like`: what this makes of a query, for constants and members.
* `underscore_starts_name`: a name is found that does not start with the text.
-/

namespace EntityQuery

open Sql Compile

/-! ### Nodes of the pattern -/

namespace Compile

/-- A state with a new node. -/
def push (s : CompileState) (x : Node) : CompileState := { s with graph := (s.graph.add x).2 }

/-- The nodes of a state are those of a graph. -/
def Lays (s : CompileState) (g : Graph) : Prop :=
  ∀ n, n.index < s.graph.entries.size → g.node n = s.graph.node n

variable {s : CompileState} {x : Node} {g : Graph}

lemma runs_push (s : CompileState) (x : Node) : Runs (add x) s ⟨s.graph.entries.size⟩ (push s x) :=
  runs_add.2 ⟨rfl, rfl⟩

lemma Lays.before (h : Lays (push s x) g) : Lays s g := by
  intro n hn
  rw [h n (by simp [push]; omega)]
  exact s.graph.node_add_of_lt x hn

lemma Lays.new (h : Lays (push s x) g) : g.node ⟨s.graph.entries.size⟩ = x := by
  rw [h _ (by simp [push])]
  exact s.graph.node_add_self x

section Values

variable {μ : Part → Nat} (hμ : g.Ranked μ) (e : Engine) (db : Database) (ρ : Env) (γ : List Env)
include hμ

/-- Only tests for equality look at the null constant. -/
lemma value_push_binary {op : BinaryOp} (hop : op ≠ .equal ∧ op ≠ .notEqual) {l r : NodeId}
    (h : Lays (push s (.binary op l r)) g) :
    ((g.evaluator e db).term ⟨s.graph.entries.size⟩).value ρ γ = e.binary op
      (((g.evaluator e db).term l).value ρ γ) (((g.evaluator e db).term r).value ρ γ) := by
  rw [Graph.value_relate hμ ρ γ h.new, Engine.relate_eq_binary op hop]

lemma value_push_const {v : Value} (h : Lays (push s (.const v)) g) :
    ((g.evaluator e db).term ⟨s.graph.entries.size⟩).value ρ γ = v :=
  Graph.value_const hμ ρ γ h.new

end Values

/-- A node stands for the pattern of a part, whatever comes later. -/
structure Patterned (place : Place) (part : NodeId) (s t : CompileState) (m : NodeId) : Prop where
  lays : ∀ g, Lays t g → Lays s g
  value : ∀ g μ e db ρ γ, Graph.Ranked g μ → Lays t g → ((g.evaluator e db).term m).value ρ γ =
    place.pattern e (((g.evaluator e db).term part).value ρ γ)

lemma exists_patterned (place : Place) (part : NodeId) (s : CompileState) :
    ∃ m t, Patterned place part s t m ∧ ∀ (k : NodeId → Compile Meaning) a u, Runs (k m) t a u →
      Runs (do
        let tail ← if place != .finish then concat part (← wildcard) else pure part
        let pattern ← if place != .start then concat (← wildcard) tail else pure tail
        k pattern) s a u := by
  have hrest := runs_push s (.const (.string "%"))
  cases place with
  | start =>
    have hjoined := runs_push (push s (.const (.string "%"))) (.binary .concat part ⟨s.graph.entries.size⟩)
    refine ⟨_, _, ⟨fun g h => h.before.before, ?_⟩, fun k a u hk => Runs.bind hrest (Runs.bind hjoined hk)⟩
    intro g μ e db ρ γ hμ h
    rw [value_push_binary hμ e db ρ γ (by simp) h, value_push_const hμ e db ρ γ h.before]
    rfl
  | finish =>
    have hjoined := runs_push (push s (.const (.string "%"))) (.binary .concat ⟨s.graph.entries.size⟩ part)
    refine ⟨_, _, ⟨fun g h => h.before.before, ?_⟩, fun k a u hk =>
      Runs.bind (runs_pure.2 ⟨rfl, rfl⟩) (Runs.bind hrest (Runs.bind hjoined hk))⟩
    intro g μ e db ρ γ hμ h
    rw [value_push_binary hμ e db ρ γ (by simp) h, value_push_const hμ e db ρ γ h.before]
    rfl
  | anywhere =>
    have hjoined := runs_push (push s (.const (.string "%"))) (.binary .concat part ⟨s.graph.entries.size⟩)
    generalize htail : push (push s (.const (.string "%")))
      (.binary .concat part ⟨s.graph.entries.size⟩) = t at hjoined
    have hrest' := runs_push t (.const (.string "%"))
    have hjoined' := runs_push (push t (.const (.string "%")))
      (.binary .concat ⟨t.graph.entries.size⟩ ⟨(push s (.const (.string "%"))).graph.entries.size⟩)
    refine ⟨_, _, ⟨fun g h => ?_, ?_⟩, fun k a u hk =>
      Runs.bind hrest (Runs.bind hjoined (Runs.bind hrest' (Runs.bind hjoined' hk)))⟩
    · have ht := h.before.before
      rw [← htail] at ht
      exact ht.before.before
    · intro g μ e db ρ γ hμ h
      have ht := h.before.before
      rw [← htail] at ht
      rw [value_push_binary hμ e db ρ γ (by simp) h, value_push_const hμ e db ρ γ h.before,
        value_push_binary hμ e db ρ γ (by simp) ht, value_push_const hμ e db ρ γ ht.before]
      rfl

/-! ### Tests of expressions -/

section Tests

variable {fuel : Nat} {subject part : Expr} (rest : List Expr) {s t u : CompileState} {n k : NodeId}
  (place : Place)

/-- The test for a part compares the subject with the pattern of the part. -/
lemma runs_like (htext : place = .anywhere → subject.type.isTextual)
    (hsubject : Runs (value (visit [] fuel) subject) s n t)
    (hpart : Runs (value (visit [] fuel) part) t k u) :
    ∃ m v, Patterned place k u v m ∧
      Runs (visit [] (fuel + 1) (.call place.method (subject :: part :: rest))) s
        (.value ⟨v.graph.entries.size⟩) (push v (.binary .like n m)) := by
  obtain ⟨m, v, hm, hpattern⟩ := exists_patterned place k u
  have hlike : Runs (like (visit [] fuel) (.call place.method (subject :: part :: rest))
      (place != .start) (place != .finish) subject (subject :: part :: rest)) s
      (.value ⟨v.graph.entries.size⟩) (push v (.binary .like n m)) := by
    refine Runs.bind hsubject (Runs.bind (runs_pure.2 ⟨rfl, rfl⟩) (Runs.bind hpart ?_))
    exact hpattern (fun q => Meaning.value <$> add (.binary .like n q)) _ _ (Runs.map (runs_push v _))
  refine ⟨m, v, hm, ?_⟩
  cases place with
  | start => exact hlike
  | finish => exact hlike
  | anywhere =>
    change Runs (contains (visit [] fuel) _ _ _) s _ _
    refine Runs.bind (runs_pure.2 ⟨rfl, rfl⟩) ?_
    rw [htext rfl, if_pos rfl]
    exact hlike

/-- **The test for a part of a text.** Where two expressions have values, the test of the second one in
the first one has a value too. In every graph that has its nodes, and in every server in which patterns
describe texts, it is true of texts exactly if a text that the second one describes stands in the first
one at the place. So it is true if the second text itself stands there; and if all letters of the second
text stand for themselves, it is true only then. -/
theorem isTrue_visit_like (htext : place = .anywhere → subject.type.isTextual)
    (hsubject : Runs (value (visit [] fuel) subject) s n t)
    (hpart : Runs (value (visit [] fuel) part) t k u) :
    ∃ p v, Runs (visit [] (fuel + 1) (.call place.method (subject :: part :: rest))) s (.value p) v ∧
      ∀ (g : Graph) (μ : Part → Nat) (e : Engine) (db : Database) (ρ : Env) (γ : List Env) (a b : String),
        g.Ranked μ → Lays v g → e.FollowsPatterns →
        ((g.evaluator e db).term n).value ρ γ = .string a →
        ((g.evaluator e db).term k).value ρ γ = .string b →
        (isTrue (((g.evaluator e db).term p).value ρ γ) ↔
            ∃ w, Matches b.toList w ∧ place.Has w a.toList) ∧
          (place.Has b.toList a.toList → isTrue (((g.evaluator e db).term p).value ρ γ)) ∧
          (Verbatim b.toList →
            (isTrue (((g.evaluator e db).term p).value ρ γ) ↔ place.Has b.toList a.toList)) := by
  obtain ⟨m, v, hm, hrun⟩ := runs_like rest place htext hsubject hpart
  refine ⟨_, _, hrun, ?_⟩
  intro g μ e db ρ γ a b hμ hv he ha hb
  have htest : isTrue (((g.evaluator e db).term ⟨v.graph.entries.size⟩).value ρ γ) ↔
      ∃ w, Matches b.toList w ∧ place.Has w a.toList := by
    rw [value_push_binary hμ e db ρ γ (by simp) hv, hm.value g μ e db ρ γ hμ hv.before, ha, hb]
    exact he.isTrue_like place a b
  refine ⟨htest, fun h => htest.2 (Place.exists_has.1 h), fun h => ?_⟩
  rw [htest]
  exact Place.exists_has.2 h

end Tests

end Compile

/-! ### A test of names -/

namespace Initials

/-- A server that also joins texts and knows patterns. -/
def engine : Engine := { People.engine with
  operate := fun op v w =>
    match op, v, w with
    | .concat, .string s, .string t => .string (s ++ t)
    | .like, .string s, .string p => .boolean (decide (Matches p.toList s.toList))
    | _, _, _ => .null }

lemma followsPatterns : engine.FollowsPatterns := ⟨fun _ _ => rfl, fun _ _ => rfl⟩

/-- The name and the initial, each in a node. -/
def state : CompileState :=
  push (push { mapping := People.mapping } (.const (.string "Ann"))) (.const (.string "A"))

/-- The state with the nodes of a test whether the name starts with the initial. -/
def tested : CompileState :=
  push (push (push state (.const (.string "%"))) (.binary .concat ⟨1⟩ ⟨2⟩)) (.binary .like ⟨0⟩ ⟨3⟩)

lemma ordered : tested.graph.Ordered := Graph.ordered_iff.2 (by decide)

/-- There is nothing to nest. -/
lemma acyclic : tested.graph.Acyclic := by
  refine Graph.acyclic_of_older ordered ?_ ?_
  · rintro ⟨m⟩ r hm
    have hlt := Graph.lt_size_of_node_eq_sub hm
    change m < 5 at hlt
    interval_cases m <;> cases hm
  · rintro r ⟨a⟩ - q hq
    cases hq

end Initials

open Initials in
theorem isTrue_visit_like_initial :
    (Place.start = .anywhere → (Expr.const (.value (.string "Ann"))).type.isTextual) ∧
      tested.graph.Ranked tested.graph.rank ∧ engine.FollowsPatterns ∧ Verbatim "A".toList ∧
      Runs (visit [] 2 (.call .startsWith [.const (.value (.string "Ann")), .const (.value (.string "A"))]))
        { mapping := People.mapping } (.value ⟨4⟩) tested ∧
      isTrue (((tested.graph.evaluator engine People.database).term ⟨4⟩).value (fun _ => []) []) := by
  have hranked := Graph.ranked_rank ordered acyclic
  have htext : Place.start = .anywhere → (Expr.const (.value (.string "Ann"))).type.isTextual :=
    fun h => absurd h (by decide)
  have hrun : Runs (visit [] 2 (.call .startsWith
      [.const (.value (.string "Ann")), .const (.value (.string "A"))]))
      { mapping := People.mapping } (.value ⟨4⟩) tested := rfl
  have hname : Runs (value (visit [] 1) (.const (.value (.string "Ann")))) { mapping := People.mapping }
      ⟨0⟩ (push { mapping := People.mapping } (.const (.string "Ann"))) := rfl
  have hinitial : Runs (value (visit [] 1) (.const (.value (.string "A"))))
      (push { mapping := People.mapping } (.const (.string "Ann"))) ⟨1⟩ state := rfl
  obtain ⟨p, v, hrun', htest⟩ := isTrue_visit_like [] .start htext hname hinitial
  cases hrun.symm.trans hrun'
  obtain ⟨-, -, hverbatim⟩ := htest tested.graph _ engine People.database (fun _ => []) [] "Ann" "A" hranked
    (fun _ _ => rfl) followsPatterns (Graph.value_const hranked _ _ rfl) (Graph.value_const hranked _ _ rfl)
  exact ⟨htext, hranked, followsPatterns, by decide, hrun, (hverbatim (by decide)).2 (by decide)⟩

/-! ### Queries of rows by a part of a text -/

/-- **The rows with a part of a text.** A query for the rows in which a text has a part, both of them
constants or members, compiles, and it returns the rows of the table in which the pattern of the part
describes the text. -/
theorem rowsOf_compile_like (m : Mapping) (hm : m.equivalents = []) (hc : m.catalog.validate = .ok ())
    {e : Engine} (he : e.FollowsPatterns) (db : Database) (hkeys : Store.Keyed ⟨m.catalog, e, db⟩)
    {E table : String} (htable : m.catalog.tableName E = .ok table) (x : Param) (place : Place)
    (subject part : Operand) (htyped : (Filter.like place subject part).typed m.catalog [(x.id, E)]) :
    ∃ s, (m.compile (Filter.query E [(x, .like place subject part)])).1 = .ok s ∧
      ∃ (keep : Row → Bool) (out : Row → Row),
        s.graph.rowsOf e db s.root = ((db.rows table).filter keep).map out ∧
        (∀ row, m.Shows E row (out row)) ∧
        ∀ row a b, subject.value ⟨m.catalog, e, db⟩ (fun _ => row) = .string a →
          part.value ⟨m.catalog, e, db⟩ (fun _ => row) = .string b →
          (keep row ↔ ∃ w, Matches b.toList w ∧ place.Has w a.toList) := by
  obtain ⟨s, hs, out, hrows, hout⟩ := rowsOf_compile_query m hm hc e db hkeys htable
    [(x, .like place subject part)] (by simpa using htyped)
  refine ⟨s, hs, _, out, hrows, hout, ?_⟩
  intro row a b ha hb
  rw [← he.isTrue_like place a b, Filter.satisfied, List.all_cons, List.all_nil, Bool.and_true,
    Filter.eval, ha, hb]
  rfl

namespace Initials

def name (p : Param) : Operand := .member ⟨p, [], ⟨"Person", "name", .scalar .string false⟩⟩

def underscored : Filter := .like .start (name ⟨⟨1⟩, "p", .entity "Person"⟩) (.const (.string "_"))

end Initials

open Initials in
/-- No name starts with an underscore, and all people are found by it. -/
theorem underscore_starts_name :
    (∀ row ∈ People.database.rows "person", ∃ a, row.value "name" = .string a ∧
      ¬ Place.start.Has "_".toList a.toList) ∧
    ∃ s, (People.mapping.compile (Filter.query "Person" [(⟨⟨1⟩, "p", .entity "Person"⟩, underscored)])).1 =
        .ok s ∧
      s.graph.rowsOf engine People.database s.root =
        [[("id", .int 1), ("name", .string "Ann")], [("id", .int 2), ("name", .string "Bob")],
          [("id", .int 3), ("name", .string "Cid")]] := by
  refine ⟨?_, ?_⟩
  · simp only [People.database, List.forall_mem_cons, List.not_mem_nil, false_implies, implies_true,
      and_true]
    exact ⟨⟨"Ann", rfl, by decide⟩, ⟨"Bob", rfl, by decide⟩, ⟨"Cid", rfl, by decide⟩⟩
  · have htable : People.mapping.catalog.tableName "Person" = .ok "person" := rfl
    obtain ⟨s, hs, out, hrows, hout⟩ := rowsOf_compile_query People.mapping rfl rfl engine
      People.database People.keyed htable
      [(⟨⟨1⟩, "p", .entity "Person"⟩, underscored)] (by decide +kernel)
    have hall : (People.database.rows "person").filter (Filter.satisfied ⟨People.mapping.catalog,
        engine, People.database⟩ [(⟨⟨1⟩, "p", .entity "Person"⟩, underscored)]) =
        People.database.rows "person" := List.filter_eq_self.2 (by decide +kernel)
    have hann : out (People.person 1 "Ann" .null) = [("id", .int 1), ("name", .string "Ann")] := hout _
    have hbob : out (People.person 2 "Bob" (.int 1)) = [("id", .int 2), ("name", .string "Bob")] := hout _
    have hcid : out (People.person 3 "Cid" (.int 2)) = [("id", .int 3), ("name", .string "Cid")] := hout _
    refine ⟨s, hs, ?_⟩
    rw [hrows, hall, ← hann, ← hbob, ← hcid]
    rfl

end EntityQuery
