import EntityQuery.Proofs.Filters.Basic
import EntityQuery.Proofs.Sql.Lookup

/-!
Queries that join the rows of references.

* A foreign key points to one row at most, so that joins of references give every row of the base
  either one place for all sources (`settle`) or none.
* `filtered_eq`: if a filter is never true where an inner join has no partner, a query returns the
  rows of the base whose place satisfies the filter, each of them once.
-/

namespace EntityQuery

open Sql

/-! ### Foreign keys -/

namespace Store

variable {st : Store}

lemma equals_iff {v w : Value} :
    st.equals v w = true ↔ v.isNull = false ∧ w.isNull = false ∧ st.engine.same v w = true := by
  unfold equals Engine.equal
  cases v.isNull <;> cases w.isNull <;> simp

lemma equals_symm {v w : Value} (h : st.equals v w = true) : st.equals w v = true := by
  rw [equals_iff] at h ⊢
  exact ⟨h.2.1, h.1, st.engine.same_symm h.2.2⟩

lemma equals_trans {u v w : Value} (h : st.equals u v = true) (h' : st.equals v w = true) :
    st.equals u w = true := by
  rw [equals_iff] at h h' ⊢
  exact ⟨h.1, h'.2.1, st.engine.same_trans h.2.2 h'.2.2⟩

/-- A value is equal to the key of one row at most. -/
lemma filter_equals_key {rows : List Row} {key : String} (v : Value)
    (h : rows.Pairwise fun t u => st.equals (t.value key) (u.value key) = false) :
    rows.filter (fun t => st.equals v (t.value key)) =
      (rows.find? fun t => st.equals v (t.value key)).toList := by
  induction rows with
  | nil => rfl
  | cons t rows ih =>
    rw [List.pairwise_cons] at h
    cases ht : st.equals v (t.value key) with
    | false =>
      rw [List.filter_cons_of_neg (by simp [ht]), List.find?_cons_of_neg (by simp [ht]), ih h.2]
    | true =>
      have hrest : rows.filter (fun t => st.equals v (t.value key)) = [] := by
        rw [List.filter_eq_nil_iff]
        intro u hu hvu
        have htu := equals_trans (equals_symm ht) hvu
        rw [h.1 u hu] at htu
        cases htu
      rw [List.filter_cons_of_pos (by simpa using ht), List.find?_cons_of_pos (by simpa using ht),
        hrest]
      rfl

lemma foreignKey?_eq {c : Catalog} {p : PropertyRef} {k : ForeignKey}
    (h : c.foreignKey? p = some k) :
    ∃ target, c.tableName target = .ok k.table ∧ c.idColumn target = .ok k.key := by
  unfold Catalog.foreignKey? at h
  cases hp : c.propertyMapping p with
  | error e => simp [hp, Except.toOption] at h
  | ok stored =>
    cases hk : stored.kind with
    | reference target =>
      cases ht : c.tableName target with
      | error e => simp [hp, hk, ht, Except.toOption] at h
      | ok table =>
        cases hi : c.idColumn target with
        | error e => simp [hp, hk, ht, hi, Except.toOption] at h
        | ok key =>
          simp [hp, hk, ht, hi, Except.toOption] at h
          subst h
          exact ⟨target, ht, hi⟩
    | _ => simp [hp, hk, Except.toOption] at h

lemma refer_eq {p : PropertyRef} {k : ForeignKey} (h : st.catalog.foreignKey? p = some k)
    (row : Row) : st.refer row p = (st.target? k row).getD [] := by
  rw [refer, h, Option.bind_some]

/-- Nothing is referred to from a missing row. -/
lemma target?_nil (k : ForeignKey) : st.target? k [] = none := by
  rw [target?, List.find?_eq_none]
  intro t _ h
  have hnull := (equals_iff.1 h).1
  simp [Row.value, Value.isNull] at hnull

end Store

/-! ### Joins of references -/

namespace Sql.Graph

/-- A join brings in the row that a reference of another source points to. -/
structure Refers (c : Catalog) (g : Graph) (j : Join) (owner : AliasId) (p : PropertyRef)
    (k : ForeignKey) : Prop where
  route : (g.aliasOf j.source).route = .navigation owner p none
  foreign : c.foreignKey? p = some k
  origin : (g.aliasOf j.source).origin = .table k.table
  owner_lt : owner.index < j.source.index
  condition : g.Compares j.condition owner k.column j.source k.key

/-- A join brings in the row that some reference points to. -/
def IsReference (c : Catalog) (g : Graph) (j : Join) : Prop := ∃ owner p k, Refers c g j owner p k

end Sql.Graph

namespace Store

variable (st : Store) (g : Graph)

/-- The row that a join of a reference brings in. -/
def land (j : Join) (ρ : Env) : Row :=
  match (g.aliasOf j.source).route with
  | .navigation owner p none => st.refer (ρ owner) p
  | _ => []

/-- Whether the reference of a join leads to a row. -/
def lands (j : Join) (ρ : Env) : Bool :=
  match (g.aliasOf j.source).route with
  | .navigation owner p none => ((st.catalog.foreignKey? p).bind (st.target? · (ρ owner))).isSome
  | _ => false

/-- The places of joined sources, one after the other. -/
def settle (js : List Join) (ρ : Env) : Env :=
  js.foldl (fun ρ j => Function.update ρ j.source (st.land g j ρ)) ρ

/-- Whether a row of the base keeps its place in all joins. -/
def keeps : List Join → Env → Bool
  | [], _ => true
  | j :: js, ρ => (st.lands g j ρ || j.kind == .left) &&
      keeps js (Function.update ρ j.source (st.land g j ρ))

/-- Every reference among sources stands at the row that it points to. -/
def Settled (as : List AliasId) (ρ : Env) : Prop :=
  ∀ a ∈ as, ∀ owner p, (g.aliasOf a).route = .navigation owner p none → ρ a = st.refer (ρ owner) p

variable {st g}

lemma land_eq {j : Join} {owner : AliasId} {p : PropertyRef} {k : ForeignKey}
    (h : g.Refers st.catalog j owner p k) (ρ : Env) :
    st.land g j ρ = (st.target? k (ρ owner)).getD [] := by
  rw [land, h.route]
  exact refer_eq h.foreign (ρ owner)

lemma lands_eq {j : Join} {owner : AliasId} {p : PropertyRef} {k : ForeignKey}
    (h : g.Refers st.catalog j owner p k) (ρ : Env) :
    st.lands g j ρ = (st.target? k (ρ owner)).isSome := by
  rw [lands, h.route]
  dsimp only
  rw [h.foreign, Option.bind_some]

lemma settle_cons (j : Join) (js : List Join) (ρ : Env) :
    st.settle g (j :: js) ρ = st.settle g js (Function.update ρ j.source (st.land g j ρ)) := rfl

/-- Sources that are not joined stay where they are. -/
lemma settle_of_not_mem {js : List Join} {a : AliasId} (h : ∀ j ∈ js, j.source ≠ a) (ρ : Env) :
    st.settle g js ρ a = ρ a := by
  induction js generalizing ρ with
  | nil => rfl
  | cons j js ih =>
    rw [settle_cons, ih fun k hk => h k (List.mem_cons_of_mem _ hk)]
    exact Function.update_of_ne (h j List.mem_cons_self).symm _ _

section Rising

/-- Joined sources in the order of their age. -/
def Rising (js : List Join) : Prop := js.Pairwise fun j k => j.source.index < k.source.index

variable {j : Join} {js : List Join} {owner : AliasId} {p : PropertyRef} {k : ForeignKey}

lemma source_ne_of_rising (h : Rising (j :: js)) {a : AliasId} (ha : a.index ≤ j.source.index) :
    ∀ i ∈ js, i.source ≠ a := by
  rintro i hi rfl
  have := (List.pairwise_cons.1 h).1 i hi
  omega

/-- The owner of a reference has its place before the reference has. -/
lemma settle_owner (h : Rising (j :: js)) (hj : g.Refers st.catalog j owner p k) (ρ : Env) :
    st.settle g (j :: js) ρ owner = ρ owner := by
  have howner := hj.owner_lt
  rw [settle_cons, settle_of_not_mem (source_ne_of_rising h howner.le)]
  exact Function.update_of_ne (by rintro rfl; exact howner.false) _ _

/-- **Joined sources stand at the rows that their references point to.** -/
theorem settled_settle (h : Rising js) (href : ∀ j ∈ js, g.IsReference st.catalog j) (ρ : Env) :
    st.Settled g (js.map Join.source) (st.settle g js ρ) := by
  induction js generalizing ρ with
  | nil => exact fun a ha => absurd ha (List.not_mem_nil)
  | cons j js ih =>
    intro a ha owner p hroute
    rcases List.mem_cons.1 ha with rfl | ha
    · obtain ⟨owner', p', k, hj⟩ := href j List.mem_cons_self
      have hplace : st.settle g (j :: js) ρ j.source = st.land g j ρ := by
        rw [settle_cons, settle_of_not_mem (source_ne_of_rising h le_rfl), Function.update_self]
      obtain ⟨rfl, rfl, -⟩ : owner' = owner ∧ p' = p ∧ _ :=
        Route.navigation.inj (hj.route.symm.trans hroute)
      rw [hplace, land_eq hj, settle_owner h hj, refer_eq hj.foreign]
    · rw [settle_cons]
      exact ih (List.pairwise_cons.1 h).2 (fun k hk => href k (List.mem_cons_of_mem _ hk)) _ a ha
        owner p hroute

/-- A place is kept if every inner join has a partner there. -/
lemma keeps_of_lands (h : Rising js) (href : ∀ j ∈ js, g.IsReference st.catalog j) {ρ : Env}
    (hland : ∀ j ∈ js, j.kind = .inner → st.lands g j (st.settle g js ρ) = true) :
    st.keeps g js ρ = true := by
  induction js generalizing ρ with
  | nil => rfl
  | cons j js ih =>
    obtain ⟨owner, p, k, hj⟩ := href j List.mem_cons_self
    have hrest := ih (List.pairwise_cons.1 h).2 (fun i hi => href i (List.mem_cons_of_mem _ hi))
      (ρ := Function.update ρ j.source (st.land g j ρ))
      fun i hi => hland i (List.mem_cons_of_mem _ hi)
    rw [keeps, hrest, Bool.and_true]
    cases hkind : j.kind with
    | left => simp
    | inner =>
      have hj' := hland j List.mem_cons_self hkind
      rw [lands_eq hj, settle_owner h hj, ← lands_eq hj] at hj'
      simp [hj']

end Rising

/-! ### Evaluation -/

section Evaluation

variable {μ : Part → Nat} (hμ : g.Ranked μ)
include hμ

/-- A comparison of columns is true if their values are equal. -/
lemma holds_compares {n : NodeId} {a b : AliasId} {c c' : String} (h : g.Compares n a c b c') (ρ : Env) :
    ((g.evaluator st.engine st.database).term n).holds ρ =
      st.equals ((ρ a).value c) ((ρ b).value c') := by
  obtain ⟨l, r, hn, hl, hr⟩ := h
  have hnull : (g.node l).isNull = false ∧ (g.node r).isNull = false := by
    rw [hl, hr]
    exact ⟨rfl, rfl⟩
  rw [Term.holds, Term.alone, g.value_binary hμ ρ [ρ] hn hnull.1 hnull.2, g.value_column hμ ρ [ρ] hl,
    g.value_column hμ ρ [ρ] hr, Engine.binary, isTrue_ofTruth]
  rfl

variable (hkeys : st.Keyed)
include hkeys

/-- A row has one partner in a join of a reference, or none. -/
lemma partners_eq {j : Join} {owner : AliasId} {p : PropertyRef} {k : ForeignKey}
    (h : g.Refers st.catalog j owner p k) (ρ : Env) :
    (g.evaluator st.engine st.database).partners j ρ =
      if st.lands g j ρ || j.kind == .left
      then [Function.update ρ j.source (st.land g j ρ)] else [] := by
  have hne : owner ≠ j.source := by
    rintro rfl
    exact h.owner_lt.false
  obtain ⟨target, htable, hkey⟩ := foreignKey?_eq h.foreign
  have hrows : (g.evaluator st.engine st.database).source ρ j.source = st.database.rows k.table :=
    Graph.source_of_table h.origin
  have hfound : ((st.database.rows k.table).map (Function.update ρ j.source)).filter
      ((g.evaluator st.engine st.database).term j.condition).holds =
      (st.target? k (ρ owner)).toList.map (Function.update ρ j.source) := by
    rw [List.filter_map, target?, ← filter_equals_key _ (hkeys target _ _ htable hkey).2]
    congr 2
    funext t
    rw [Function.comp_apply, holds_compares hμ h.condition, Function.update_of_ne hne,
      Function.update_self]
  rw [Evaluator.partners, hrows, hfound, lands_eq h, land_eq h]
  cases st.target? k (ρ owner) with
  | none => cases j.kind <;> rfl
  | some t => rfl

lemma foldl_partners {js : List Join} (href : ∀ j ∈ js, g.IsReference st.catalog j)
    (ρs : List Env) :
    js.foldl (fun ρs j => ρs.flatMap ((g.evaluator st.engine st.database).partners j)) ρs =
      (ρs.filter (st.keeps g js)).map (st.settle g js) := by
  induction js generalizing ρs with
  | nil =>
    have hall : ρs.filter (st.keeps g []) = ρs := List.filter_eq_self.2 fun _ _ => rfl
    rw [hall, List.foldl_nil]
    exact (List.map_id ρs).symm
  | cons j js ih =>
    obtain ⟨owner, p, k, hj⟩ := href j List.mem_cons_self
    rw [List.foldl_cons, ih fun i hi => href i (List.mem_cons_of_mem _ hi)]
    induction ρs with
    | nil => rfl
    | cons ρ ρs ihρ =>
      rw [List.flatMap_cons, List.filter_append, List.map_append, ihρ, partners_eq hμ hkeys hj]
      cases hland : st.lands g j ρ || j.kind == .left with
      | false => simp [keeps, hland]
      | true =>
        cases hrest : st.keeps g js (Function.update ρ j.source (st.land g j ρ)) with
        | false => simp [keeps, hland, hrest]
        | true => simp [keeps, hland, hrest, settle_cons]

/-- **A filter that is never true where an inner join has no partner decides alone.** -/
theorem filter_foldl_partners {js : List Join} (h : Rising js)
    (href : ∀ j ∈ js, g.IsReference st.catalog j) {holds : Env → Bool}
    (hland : ∀ ρ, holds (st.settle g js ρ) = true →
      ∀ j ∈ js, j.kind = .inner → st.lands g j (st.settle g js ρ) = true) (ρs : List Env) :
    (js.foldl (fun ρs j => ρs.flatMap ((g.evaluator st.engine st.database).partners j)) ρs).filter
        holds =
      (ρs.filter fun ρ => holds (st.settle g js ρ)).map (st.settle g js) := by
  rw [foldl_partners hμ hkeys href, List.filter_map, List.filter_filter]
  congr 2
  funext ρ
  cases hρ : holds (st.settle g js ρ) with
  | false => simp [hρ]
  | true => simp [hρ, keeps_of_lands h href (hland ρ hρ)]

end Evaluation

end Store

end EntityQuery
