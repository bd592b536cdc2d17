import EntityQuery.Proofs.Catalog.Validated
import EntityQuery.Schema.Plan
import Mathlib.Data.Fintype.EquivFin
import Mathlib.Logic.Relation
import Mathlib.Order.WellFounded

/-!
The order in which a plan creates its entities.

* Every place of the order is taken by an entity whose dependencies are all done, or else no entity
  that is left has all of its dependencies done: `orderFrom_place`.
* Each listed entity has one place: `nodup_orderFrom`, `mem_orderFrom`.
* If the dependencies are acyclic, then some entity that is left is ready at each place, so that
  every entity comes after all that it depends on.
* `IsStable`: at each place stands the earliest listed entity that is left and whose needs are met.
* There is one such order of a list, and for acyclic needs the order of creation is this one.
* Repeated names and cyclic needs do no harm: each entity has one place.
-/

namespace EntityQuery.Schema

/-! ### One place after the other -/

section Places

variable {deps : List (String × List String)} {done : List String} {fuel : Nat}

/-- Whether an entity has no dependency that is left. -/
def IsReady (done : List String) (row : String × List String) : Prop := ∀ e ∈ row.2, e ∈ done

/-- Whether a row may take the next place: it is ready, or no row that is left is. -/
def MayFollow (deps : List (String × List String)) (done : List String)
    (row : String × List String) : Prop :=
  row ∈ deps ∧ row.1 ∉ done ∧
    (IsReady done row ∨ ∀ other ∈ deps, other.1 ∉ done → ¬ IsReady done other)

/-- The rows of entities that are left. -/
def left (deps : List (String × List String)) (done : List String) : List (String × List String) :=
  deps.filter fun row => !done.contains row.1

lemma mem_left {row : String × List String} : row ∈ left deps done ↔ row ∈ deps ∧ row.1 ∉ done := by
  simp [left]

/-- The row that takes the next place. -/
def next? (deps : List (String × List String)) (done : List String) :
    Option (String × List String) :=
  ((left deps done).find? fun row => row.2.all done.contains) <|> (left deps done).head?

lemma orderFrom_succ_eq (deps : List (String × List String)) (fuel : Nat) (done : List String) :
    orderFrom deps (fuel + 1) done =
      (next? deps done).elim [] fun row => row.1 :: orderFrom deps fuel (row.1 :: done) := by
  rw [orderFrom, next?, left]
  split
  · next h => rw [h]; rfl
  · next h => rw [h]; rfl

lemma mayFollow_of_next? {row : String × List String} (h : next? deps done = some row) :
    MayFollow deps done row := by
  have hready (row : String × List String) :
      (row.2.all done.contains) = true ↔ IsReady done row := by simp [IsReady]
  unfold next? at h
  cases hfind : (left deps done).find? fun row => row.2.all done.contains with
  | some ready =>
    rw [hfind] at h
    obtain rfl : ready = row := Option.some.inj h
    obtain ⟨hmem, hnew⟩ := mem_left.1 (List.mem_of_find?_eq_some hfind)
    have hall : ready.2.all done.contains = true :=
      List.find?_some (p := fun row : String × List String => row.2.all done.contains) hfind
    exact ⟨hmem, hnew, .inl ((hready ready).1 hall)⟩
  | none =>
    rw [hfind] at h
    obtain ⟨hmem, hnew⟩ := mem_left.1 (List.mem_of_head? h)
    refine ⟨hmem, hnew, .inr fun other hother hleft hrow => ?_⟩
    exact List.find?_eq_none.1 hfind other (mem_left.2 ⟨hother, hleft⟩) ((hready other).2 hrow)

lemma left_of_next?_eq_none (h : next? deps done = none) : left deps done = [] := by
  unfold next? at h
  cases hfind : (left deps done).find? fun row => row.2.all done.contains with
  | some ready => simp [hfind] at h
  | none => simpa [hfind] using h

/-- The next place is taken by a row that may follow; there is none if all entities are done. -/
lemma orderFrom_succ (deps : List (String × List String)) (fuel : Nat) (done : List String) :
    (orderFrom deps (fuel + 1) done = [] ∧ left deps done = []) ∨
      ∃ row, MayFollow deps done row ∧
        orderFrom deps (fuel + 1) done = row.1 :: orderFrom deps fuel (row.1 :: done) := by
  rw [orderFrom_succ_eq]
  cases h : next? deps done with
  | none => exact .inl ⟨rfl, left_of_next?_eq_none h⟩
  | some row => exact .inr ⟨row, mayFollow_of_next? h, rfl⟩

/-- What is done has no place any more, and no entity has two. -/
lemma nodup_orderFrom (deps : List (String × List String)) : ∀ (fuel : Nat) (done : List String),
    (orderFrom deps fuel done).Nodup ∧
      ∀ e ∈ orderFrom deps fuel done, e ∉ done ∧ e ∈ deps.map Prod.fst
  | 0, done => by simp [orderFrom]
  | fuel + 1, done => by
    rcases orderFrom_succ deps fuel done with ⟨hnil, -⟩ | ⟨row, ⟨hmem, hnew, -⟩, hcons⟩
    · simp [hnil]
    · obtain ⟨hnodup, hrest⟩ := nodup_orderFrom deps fuel (row.1 :: done)
      rw [hcons]
      refine ⟨List.nodup_cons.2 ⟨fun h => (hrest _ h).1 List.mem_cons_self, hnodup⟩, ?_⟩
      intro e he
      rcases List.mem_cons.1 he with rfl | he
      · exact ⟨hnew, List.mem_map_of_mem hmem⟩
      · exact ⟨fun h => (hrest e he).1 (List.mem_cons_of_mem _ h), (hrest e he).2⟩

lemma length_left_lt {row : String × List String} (h : row ∈ left deps done) :
    (left deps (row.1 :: done)).length < (left deps done).length := by
  have hfilter : left deps (row.1 :: done) =
      (left deps done).filter fun other => other.1 ≠ row.1 := by
    unfold left
    rw [List.filter_filter]
    exact List.filter_congr fun other _ => by simp
  rw [hfilter]
  exact List.length_filter_lt_length_iff_exists.2 ⟨row, h, by simp⟩

/-- With enough fuel every entity is done or has a place. -/
lemma mem_orderFrom : ∀ (fuel : Nat) (done : List String), (left deps done).length ≤ fuel →
    ∀ row ∈ deps, row.1 ∈ done ∨ row.1 ∈ orderFrom deps fuel done
  | 0, done, hfuel, row, hrow => by
    by_contra hnew
    have hleft := mem_left.2 ⟨hrow, fun h => hnew (.inl h)⟩
    rw [List.eq_nil_of_length_eq_zero (Nat.le_zero.1 hfuel)] at hleft
    cases hleft
  | fuel + 1, done, hfuel, row, hrow => by
    rcases orderFrom_succ deps fuel done with ⟨-, hnil⟩ | ⟨next, ⟨hmem, hnew, -⟩, hcons⟩
    · by_contra hleft
      have hleft := mem_left.2 ⟨hrow, fun h => hleft (.inl h)⟩
      rw [hnil] at hleft
      cases hleft
    · have hless := length_left_lt (mem_left.2 ⟨hmem, hnew⟩)
      rw [hcons]
      rcases mem_orderFrom fuel (next.1 :: done) (by omega) row hrow with h | h
      · rcases List.mem_cons.1 h with h | h
        · exact .inr (h ▸ List.mem_cons_self)
        · exact .inl h
      · exact .inr (List.mem_cons_of_mem _ h)

/-- Every place is taken by the next row after those before it. -/
lemma orderFrom_place : ∀ (fuel : Nat) (done before after : List String) (e : String),
    orderFrom deps fuel done = before ++ e :: after →
      ∃ row ids, row.1 = e ∧ (∀ f, f ∈ ids ↔ f ∈ done ∨ f ∈ before) ∧ next? deps ids = some row
  | 0, done, before, after, e, h => by simp [orderFrom] at h
  | fuel + 1, done, before, after, e, h => by
    rw [orderFrom_succ_eq] at h
    cases hnext : next? deps done with
    | none => simp [hnext] at h
    | some row =>
      rw [hnext, Option.elim_some] at h
      cases before with
      | nil =>
        obtain ⟨rfl, -⟩ := List.cons.inj h
        exact ⟨row, done, rfl, by simp, hnext⟩
      | cons first before =>
        obtain ⟨hfirst, h⟩ := List.cons.inj h
        obtain ⟨other, ids, hother, hids, hfollow⟩ :=
          orderFrom_place fuel (row.1 :: done) before after e h
        refine ⟨other, ids, hother, fun f => ?_, hfollow⟩
        rw [hids f, List.mem_cons, List.mem_cons, ← hfirst]
        tauto

/-- While some row is ready, the next one is the earliest of them. -/
lemma earliest_of_next? {row : String × List String} (h : next? deps done = some row)
    (hready : ∃ ready ∈ left deps done, IsReady done ready) :
    IsReady done row ∧ ∃ earlier later, deps = earlier ++ row :: later ∧
      ∀ other ∈ earlier, other.1 ∈ done ∨ ¬ IsReady done other := by
  have hall (row : String × List String) :
      (row.2.all done.contains) = true ↔ IsReady done row := by simp [IsReady]
  obtain ⟨ready, hleft, hready⟩ := hready
  have hsome : ((left deps done).find? fun row => row.2.all done.contains).isSome :=
    List.find?_isSome.2 ⟨ready, hleft, (hall ready).2 hready⟩
  obtain ⟨first, hfirst⟩ := Option.isSome_iff_exists.1 hsome
  obtain rfl : first = row := by
    rw [next?, hfirst] at h
    exact Option.some.inj h
  rw [left, List.find?_filter, List.find?_eq_some_iff_append] at hfirst
  obtain ⟨htest, earlier, later, hsplit, hearlier⟩ := hfirst
  simp only [Bool.decide_and, Bool.decide_eq_true, Bool.and_eq_true, hall] at htest
  refine ⟨htest.2, earlier, later, hsplit, fun other hother => ?_⟩
  by_contra hnew
  rw [not_or, not_not] at hnew
  have htest := hearlier other hother
  simp [hnew.1, (hall other).2 hnew.2] at htest

end Places

/-! ### Acyclic dependencies -/

section Acyclic

variable {deps : List (String × List String)}

/-- Whether an entity depends on another one. -/
def Depends (deps : List (String × List String)) (e f : String) : Prop :=
  ∃ row ∈ deps, row.1 = e ∧ f ∈ row.2

/-- Among the rows that are left, one is ready. -/
lemma exists_isReady (hacyclic : ∀ e, ¬ Relation.TransGen (Depends deps) e e)
    (hclosed : ∀ row ∈ deps, ∀ f ∈ row.2, f ∈ deps.map Prod.fst) {done : List String}
    {row : String × List String} (hrow : row ∈ left deps done) :
    ∃ ready ∈ left deps done, IsReady done ready := by
  let R (a b : { e // e ∈ (left deps done).map Prod.fst }) : Prop :=
    Relation.TransGen (Depends deps) b a
  have : IsTrans _ R := ⟨fun _ _ _ h h' => h'.trans h⟩
  have : Std.Irrefl R := ⟨fun a h => hacyclic a h⟩
  obtain ⟨⟨e, he⟩, -, hmin⟩ := (Finite.wellFounded_of_trans_of_irrefl R).has_min Set.univ
    ⟨⟨row.1, List.mem_map_of_mem hrow⟩, trivial⟩
  obtain ⟨ready, hready, rfl⟩ := List.mem_map.1 he
  refine ⟨ready, hready, fun f hf => ?_⟩
  -- a dependency that is left would come before the minimal entity
  by_contra hnew
  obtain ⟨hmem, -⟩ := mem_left.1 hready
  obtain ⟨other, hother, rfl⟩ := List.mem_map.1 (hclosed ready hmem f hf)
  have hleft := List.mem_map_of_mem (f := Prod.fst) (mem_left.2 ⟨hother, hnew⟩)
  exact hmin ⟨other.1, hleft⟩ trivial (.single ⟨ready, hmem, rfl, hf⟩)

/-- **Acyclic dependencies are met**: every entity comes after all that it depends on. -/
lemma before_of_depends (hacyclic : ∀ e, ¬ Relation.TransGen (Depends deps) e e)
    (hclosed : ∀ row ∈ deps, ∀ f ∈ row.2, f ∈ deps.map Prod.fst)
    (hnodup : (deps.map Prod.fst).Nodup) {fuel : Nat} {before after : List String} {e : String}
    (h : orderFrom deps fuel [] = before ++ e :: after) {f : String} (hf : Depends deps e f) :
    f ∈ before := by
  obtain ⟨row, ids, rfl, hids, hnext⟩ := orderFrom_place fuel [] before after e h
  obtain ⟨hmem, hnew, hready⟩ := mayFollow_of_next? hnext
  obtain ⟨other, hother, hname, hf⟩ := hf
  obtain rfl : other = row := List.inj_on_of_nodup_map hnodup hother hmem hname
  have hall : IsReady ids other := by
    rcases hready with hready | hnone
    · exact hready
    · obtain ⟨ready, hleft, hready⟩ := exists_isReady hacyclic hclosed (mem_left.2 ⟨hmem, hnew⟩)
      obtain ⟨hmem', hnew'⟩ := mem_left.1 hleft
      exact absurd hready (hnone ready hmem' hnew')
  simpa using (hids f).1 (hall f hf)

end Acyclic

/-- Whatever falls along a relation excludes cycles. -/
lemma acyclic_of_rank {R : String → String → Prop} (rank : String → Nat)
    (h : ∀ e f, R e f → rank f < rank e) (e : String) : ¬ Relation.TransGen R e e := by
  have hpath : ∀ f, Relation.TransGen R e f → rank f < rank e := by
    intro f hf
    induction hf with
    | single hf => exact h e _ hf
    | tail _ hg ih => exact (h _ _ hg).trans ih
  exact fun hcycle => (hpath e hcycle).false

/-! ### What entities depend on -/

section Needs

variable {c : Catalog} {entities : List String}

/-- The stored kinds of an entity's properties; none if the entity is not mapped. -/
def kindsOf (c : Catalog) (entity : String) : List PropertyKind :=
  ((c.find? entity).elim [] EntityMapping.stored).map PropertyMapping.kind

/-- Whether a listed entity needs another one to be created first: it refers to the other one, or
the other one has a collection of it. -/
def Needs (c : Catalog) (entities : List String) (e f : String) : Prop :=
  e ∈ entities ∧ f ∈ entities ∧ f ≠ e ∧ (.reference f ∈ kindsOf c e ∨ .collection e ∈ kindsOf c f)

lemma kinds_of_find? {e : EntityMapping} {name : String} (h : c.find? name = some e) :
    kinds c name = .ok (kindsOf c name) := by
  refine bind_eq_ok.2 ⟨_, Catalog.properties_of_find? h, ?_⟩
  rw [List.mapM_map, kindsOf, h, Option.elim_some, EntityMapping.stored, List.map_map]
  refine mapM_eq_ok fun q hq => ?_
  exact bind_eq_ok.2 ⟨_, Catalog.propertyMapping_ref h (EntityMapping.property?_name hq), rfl⟩

/-- The listed entities with the kinds of their properties. -/
def kindTable (c : Catalog) (entities : List String) : List (String × List PropertyKind) :=
  entities.map fun e => (e, kindsOf c e)

lemma map_fst_kindTable : (kindTable c entities).map Prod.fst = entities := by
  simp [kindTable, Function.comp_def]

lemma map_fst_dependencies (table : List (String × List PropertyKind)) :
    (dependencies table).map Prod.fst = table.map Prod.fst := by
  have hpairs : (dependencies table).map Prod.fst = (table.zipIdx.map Prod.fst).map Prod.fst := by
    rw [dependencies, List.map_map, List.map_map]
    rfl
  rw [hpairs, List.zipIdx_map_fst]

lemma mem_referenced {ks : List PropertyKind} {e f : String} :
    f ∈ referenced entities e ks ↔ .reference f ∈ ks ∧ f ≠ e ∧ f ∈ entities := by
  simp only [referenced, List.mem_filterMap]
  constructor
  · rintro ⟨k, hk, h⟩
    cases k with
    | reference target =>
      simp only [Option.ite_none_right_eq_some, Option.some.injEq] at h
      obtain ⟨⟨hne, hlisted⟩, rfl⟩ := h
      exact ⟨hk, hne, by simpa using hlisted⟩
    | scalar _ _ _ | collection _ | manyToMany _ _ _ _ => cases h
  · rintro ⟨hk, hne, hlisted⟩
    exact ⟨_, hk, by simp [hne, hlisted]⟩

lemma mem_owners {e f : String} :
    f ∈ owners (kindTable c entities) e ↔ f ∈ entities ∧ f ≠ e ∧ .collection e ∈ kindsOf c f := by
  have hkind (ks : List PropertyKind) :
      ks.any (isCollectionOf e) = true ↔ PropertyKind.collection e ∈ ks := by
    rw [List.any_eq_true]
    constructor
    · rintro ⟨k, hk, h⟩
      cases k with
      | collection target =>
        obtain rfl : target = e := by simpa [isCollectionOf] using h
        exact hk
      | scalar _ _ _ | reference _ | manyToMany _ _ _ _ => cases h
    · exact fun h => ⟨_, h, by simp [isCollectionOf]⟩
  simp only [owners, kindTable, List.mem_map, List.mem_filter]
  constructor
  · rintro ⟨row, ⟨⟨g, hg, rfl⟩, h⟩, rfl⟩
    rw [decide_eq_true_eq, hkind] at h
    exact ⟨hg, h.1, h.2⟩
  · rintro ⟨hf, hne, hk⟩
    exact ⟨(f, kindsOf c f), ⟨⟨f, hf, rfl⟩, decide_eq_true ⟨hne, (hkind _).2 hk⟩⟩, rfl⟩

/-- In a list without repetitions a row holds what its entity needs. -/
lemma mem_dependencies (hnodup : entities.Nodup) {row : String × List String}
    (h : row ∈ dependencies (kindTable c entities)) (f : String) :
    f ∈ row.2 ↔ Needs c entities row.1 f := by
  obtain ⟨⟨⟨e, ks⟩, index⟩, hmem, rfl⟩ := List.mem_map.1 h
  have hget : (kindTable c entities)[index]? = some (e, ks) := List.mem_zipIdx_iff_getElem?.1 hmem
  have hlisted : entities[index]? = some e ∧ ks = kindsOf c e := by
    rw [kindTable, List.getElem?_map, Option.map_eq_some_iff] at hget
    obtain ⟨g, hg, hrow⟩ := hget
    obtain ⟨rfl, rfl⟩ := Prod.mk.inj hrow
    exact ⟨hg, rfl⟩
  obtain ⟨hentity, rfl⟩ := hlisted
  have hindex : entities.idxOf e = index := by
    obtain ⟨hlt, rfl⟩ := List.getElem?_eq_some_iff.1 hentity
    exact hnodup.idxOf_getElem index hlt
  have he : e ∈ entities := List.mem_of_getElem? hentity
  simp only [map_fst_kindTable, hindex, if_true, List.mem_append, mem_referenced, mem_owners, Needs]
  tauto

/-- The order of creation is made from what the listed entities need. -/
lemma creationOrder_of_mapped (hmapped : ∀ e ∈ entities, (c.find? e).isSome) :
    creationOrder c entities =
      .ok (orderFrom (dependencies (kindTable c entities)) entities.length []) := by
  have hkinds : entities.mapM (fun e => return (e, ← kinds c e)) =
      (.ok (kindTable c entities) : Except MappingError _) := by
    refine mapM_eq_ok fun e he => ?_
    obtain ⟨m, hm⟩ := Option.isSome_iff_exists.1 (hmapped e he)
    exact bind_eq_ok.2 ⟨_, kinds_of_find? hm, rfl⟩
  exact bind_eq_ok.2 ⟨_, hkinds, rfl⟩

lemma map_fst_dependencies_kindTable (c : Catalog) (entities : List String) :
    (dependencies (kindTable c entities)).map Prod.fst = entities := by
  rw [map_fst_dependencies, map_fst_kindTable]

/-- In a list without repetitions an entity depends on what it needs. -/
lemma depends_dependencies (hunique : entities.Nodup) :
    Depends (dependencies (kindTable c entities)) = Needs c entities := by
  funext e f
  refine propext ⟨?_, fun hneeds => ?_⟩
  · rintro ⟨row, hrow, rfl, hf⟩
    exact (mem_dependencies hunique hrow f).1 hf
  · have hkeys := map_fst_dependencies_kindTable c entities
    obtain ⟨row, hrow, rfl⟩ := List.mem_map.1 (hkeys.symm ▸ hneeds.1)
    exact ⟨row, hrow, rfl, (mem_dependencies hunique hrow f).2 hneeds⟩

/-- Only listed entities are depended on. -/
lemma closed_dependencies (hunique : entities.Nodup) :
    ∀ row ∈ dependencies (kindTable c entities), ∀ f ∈ row.2,
      f ∈ (dependencies (kindTable c entities)).map Prod.fst := by
  intro row hrow f hf
  rw [map_fst_dependencies_kindTable]
  exact ((mem_dependencies hunique hrow f).1 hf).2.1

/-- **The order of creation** lists every entity once; if what they need is acyclic, then every
entity comes after all that it needs. -/
theorem creationOrder_eq_ok (hmapped : ∀ e ∈ entities, (c.find? e).isSome) :
    ∃ order, creationOrder c entities = .ok order ∧ order.Nodup ∧ (∀ e, e ∈ order ↔ e ∈ entities) ∧
      (entities.Nodup → (∀ e, ¬ Relation.TransGen (Needs c entities) e e) →
        ∀ before e after, order = before ++ e :: after → ∀ f, Needs c entities e f → f ∈ before) := by
  have hkeys := map_fst_dependencies_kindTable c entities
  refine ⟨_, creationOrder_of_mapped hmapped, (nodup_orderFrom _ _ _).1, fun e => ?_,
    fun hunique hacyclic before e after h f hf => ?_⟩
  · refine ⟨fun he => hkeys ▸ ((nodup_orderFrom _ _ _).2 e he).2, fun he => ?_⟩
    obtain ⟨row, hrow, rfl⟩ := List.mem_map.1 (hkeys.symm ▸ he)
    have hfuel : (left (dependencies (kindTable c entities)) []).length ≤ entities.length := by
      conv_rhs => rw [← hkeys, List.length_map]
      exact List.length_filter_le _ _
    simpa using mem_orderFrom entities.length [] hfuel row hrow
  · have hdepends := depends_dependencies (c := c) hunique
    exact before_of_depends (hdepends ▸ hacyclic) (closed_dependencies hunique) (hkeys.symm ▸ hunique)
      h (hdepends ▸ hf)

end Needs

end EntityQuery.Schema

namespace EntityQuery.Schema

/-! ### Stable orders -/

section Stable

variable {R : String → String → Prop} {listed order other : List String}

/-- Whether every place of an order is taken by an element whose needs are met before it, the
earliest listed one of those that are left. -/
def IsStable (R : String → String → Prop) (listed order : List String) : Prop :=
  ∀ before e after, order = before ++ e :: after → (∀ f, R e f → f ∈ before) ∧
    ∃ earlier later, listed = earlier ++ e :: later ∧
      ∀ f ∈ earlier, f ∈ before ∨ ∃ need, R f need ∧ need ∉ before

/-- Of two elements that may follow the same elements, none is listed earlier. -/
lemma IsStable.place_eq (horder : IsStable R listed order) (hother : IsStable R listed other)
    (hnodup : order.Nodup) (hnodup' : other.Nodup) {before after after' : List String} {e e' : String}
    (h : order = before ++ e :: after) (h' : other = before ++ e' :: after') : e = e' := by
  obtain ⟨hneeds, earlier, later, hsplit, hearlier⟩ := horder before e after h
  obtain ⟨hneeds', earlier', later', hsplit', hearlier'⟩ := hother before e' after' h'
  have hnew : e ∉ before := fun he =>
    (List.nodup_append.1 (h ▸ hnodup)).2.2 e he e List.mem_cons_self rfl
  have hnew' : e' ∉ before := fun he =>
    (List.nodup_append.1 (h' ▸ hnodup')).2.2 e' he e' List.mem_cons_self rfl
  -- an element that is ready and left does not stand before the earliest one
  have hlate : e ∉ earlier' := by
    intro he
    rcases hearlier' e he with he | ⟨need, hneed, hmissing⟩
    · exact hnew he
    · exact hmissing (hneeds need hneed)
  have hlate' : e' ∉ earlier := by
    intro he
    rcases hearlier e' he with he | ⟨need, hneed, hmissing⟩
    · exact hnew' he
    · exact hmissing (hneeds' need hneed)
  have hboth : earlier ++ e :: later = earlier' ++ e' :: later' := hsplit.symm.trans hsplit'
  rcases List.append_eq_append_iff.1 hboth with ⟨gap, rfl, hgap⟩ | ⟨gap, rfl, hgap⟩
  · cases gap with
    | nil => exact (List.cons.inj hgap).1
    | cons x gap =>
      obtain rfl : e = x := (List.cons.inj hgap).1
      exact absurd (by simp) hlate
  · cases gap with
    | nil => exact (List.cons.inj hgap).1.symm
    | cons x gap =>
      obtain rfl : e' = x := (List.cons.inj hgap).1
      exact absurd (by simp) hlate'

/-- **There is one stable order** of the same elements. -/
theorem IsStable.eq (horder : IsStable R listed order) (hother : IsStable R listed other)
    (hnodup : order.Nodup) (hnodup' : other.Nodup) (hsame : ∀ e, e ∈ order ↔ e ∈ other) :
    order = other := by
  suffices hrest : ∀ (rest before rest' : List String), order = before ++ rest →
      other = before ++ rest' → rest = rest' from hrest order [] other rfl rfl
  intro rest
  induction rest with
  | nil =>
    intro before rest' h h'
    cases rest' with
    | nil => rfl
    | cons e' rest' =>
      have he' : e' ∈ before := by
        rw [List.append_nil] at h
        exact h ▸ (hsame e').2 (by simp [h'])
      have hdisjoint := (List.nodup_append.1 (h' ▸ hnodup')).2.2
      exact absurd rfl (hdisjoint e' he' e' List.mem_cons_self)
  | cons e rest ih =>
    intro before rest' h h'
    cases rest' with
    | nil =>
      have he : e ∈ before := by
        rw [List.append_nil] at h'
        exact h' ▸ (hsame e).1 (by simp [h])
      have hdisjoint := (List.nodup_append.1 (h ▸ hnodup)).2.2
      exact absurd rfl (hdisjoint e he e List.mem_cons_self)
    | cons e' rest' =>
      obtain rfl := horder.place_eq hother hnodup hnodup' h h'
      rw [ih (before ++ [e]) rest' (by simpa using h) (by simpa using h')]

end Stable

/-! ### The order of creation -/

variable {c : Catalog} {entities : List String}

/-- At each place of the order of creation stands the earliest entity whose needs are met. -/
lemma isStable_orderFrom (hunique : entities.Nodup)
    (hacyclic : ∀ e, ¬ Relation.TransGen (Needs c entities) e e) (fuel : Nat) :
    IsStable (Needs c entities) entities
      (orderFrom (dependencies (kindTable c entities)) fuel []) := by
  intro before e after h
  have hkeys := map_fst_dependencies_kindTable c entities
  have hdepends := depends_dependencies (c := c) hunique
  obtain ⟨row, ids, rfl, hids, hnext⟩ := orderFrom_place fuel [] before after e h
  have hids : ∀ f, f ∈ ids ↔ f ∈ before := fun f => by simpa using hids f
  obtain ⟨hmem, hnew, -⟩ := mayFollow_of_next? hnext
  have hready : ∃ ready ∈ left (dependencies (kindTable c entities)) ids, IsReady ids ready :=
    exists_isReady (hdepends ▸ hacyclic) (closed_dependencies hunique) (mem_left.2 ⟨hmem, hnew⟩)
  obtain ⟨hmet, earlier, later, hsplit, hearlier⟩ := earliest_of_next? hnext hready
  refine ⟨fun f hf => ?_, earlier.map Prod.fst, later.map Prod.fst, ?_, fun f hf => ?_⟩
  · exact (hids f).1 (hmet f ((mem_dependencies hunique hmem f).2 hf))
  · rw [← hkeys, hsplit, List.map_append, List.map_cons]
  · obtain ⟨other, hother, rfl⟩ := List.mem_map.1 hf
    have hrow : other ∈ dependencies (kindTable c entities) := by simp [hsplit, hother]
    rcases hearlier other hother with hdone | hwaits
    · exact .inl ((hids _).1 hdone)
    · obtain ⟨need, hneed, hmissing⟩ : ∃ need ∈ other.2, need ∉ ids := by simpa [IsReady] using hwaits
      exact .inr ⟨need, (mem_dependencies hunique hrow need).1 hneed, fun h => hmissing ((hids need).2 h)⟩

/-- **The order of creation is the stable topological order**: of any mapped entities it lists each
one once, and for a list without repetitions and with acyclic needs it is the one order in which at
each place stands the earliest entity that is left and whose needs are met. -/
theorem creationOrder_isStable (hmapped : ∀ e ∈ entities, (c.find? e).isSome) :
    ∃ order, creationOrder c entities = .ok order ∧ order.Nodup ∧ (∀ e, e ∈ order ↔ e ∈ entities) ∧
      (entities.Nodup → (∀ e, ¬ Relation.TransGen (Needs c entities) e e) →
        IsStable (Needs c entities) entities order ∧
        ∀ other : List String, other.Nodup → (∀ e, e ∈ other ↔ e ∈ entities) →
          IsStable (Needs c entities) entities other → other = order) := by
  obtain ⟨order, horder, hnodup, hlisted, -⟩ := creationOrder_eq_ok hmapped
  refine ⟨order, horder, hnodup, hlisted, fun hunique hacyclic => ?_⟩
  have hstable : IsStable (Needs c entities) entities order := by
    obtain rfl := Except.ok.inj (horder.symm.trans (creationOrder_of_mapped hmapped))
    exact isStable_orderFrom hunique hacyclic _
  refine ⟨hstable, fun other hnodup' hlisted' hother => ?_⟩
  exact hother.eq hstable hnodup' hnodup fun e => (hlisted' e).trans (hlisted e).symm

namespace ParcelPost

/-- Parcels of a sender, kept in depots, and stamps. -/
def post : Catalog :=
  ⟨[⟨"Parcel", "PARCEL", some "id", [⟨"id", "ID", .scalar .int false none⟩,
      ⟨"sender", "IDFK_SENDER", .reference "Person"⟩]⟩,
    ⟨"Stamp", "STAMP", some "id", [⟨"id", "ID", .scalar .int false none⟩]⟩,
    ⟨"Depot", "DEPOT", some "id", [⟨"id", "ID", .scalar .int false none⟩,
      ⟨"parcels", "IDFK_DEPOT", .collection "Parcel"⟩]⟩,
    ⟨"Person", "PERSON", some "id", [⟨"id", "ID", .scalar .int false none⟩]⟩]⟩

def names : List String := ["Parcel", "Stamp", "Depot", "Person"]

/-- Parcels need depots and persons. -/
def rank (e : String) : Nat := if e = "Parcel" then 1 else 0

end ParcelPost

open ParcelPost in
theorem creationOrder_isStable_post :
    (∀ e ∈ names, (post.find? e).isSome) ∧ names.Nodup ∧
      creationOrder post names = .ok ["Stamp", "Depot", "Person", "Parcel"] ∧
      IsStable (Needs post names) names ["Stamp", "Depot", "Person", "Parcel"] := by
  have hmapped : ∀ e ∈ names, (post.find? e).isSome := by decide
  have hfalls : ∀ e ∈ names, ∀ f ∈ names, f ≠ e →
      .reference f ∈ kindsOf post e ∨ .collection e ∈ kindsOf post f → rank f < rank e := by
    decide
  have hgiven : creationOrder post names = .ok ["Stamp", "Depot", "Person", "Parcel"] := by decide
  obtain ⟨order, horder, -, -, hstable⟩ := creationOrder_isStable hmapped
  obtain rfl := Except.ok.inj (hgiven.symm.trans horder)
  refine ⟨hmapped, by decide, hgiven, (hstable (by decide) ?_).1⟩
  exact acyclic_of_rank rank fun e f ⟨he, hf, hne, hk⟩ => hfalls e he f hf hne hk

end EntityQuery.Schema
