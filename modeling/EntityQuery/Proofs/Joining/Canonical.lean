import EntityQuery.Proofs.Joining.Steps

/-!
What a sequence of calls leaves in a graph.

* `Canonical`: a reference is joined once for all calls that ask for it in a request, and its join
  keeps rows without a partner if one of them has asked for that; a relation to many is joined for
  each call that asks for it, in the call's own way. Every join equates columns of the catalog.
* One call keeps a graph canonical, so that every sequence of calls leaves a canonical one.
-/

namespace EntityQuery

open Sql

/-! ### Calls and their answers -/

/-- Whether a call asks for a property of a row in a request. -/
def Call.asks (k : Call) (r : RequestId) (owner : AliasId) (p : PropertyRef) : Bool :=
  k.request == r && (k.owner == owner && k.property.same p)

lemma Call.asks_iff {k : Call} {r : RequestId} {owner : AliasId} {p : PropertyRef} :
    k.asks r owner p = true ↔ k.request = r ∧ k.owner = owner ∧ k.property.same p = true := by
  simp [asks]

/-- Calls with their answers, in order. -/
abbrev History := List (Call × Resolved)

/-- The calls that ask for a property of a row in a request, with their answers. -/
def History.asked (done : History) (r : RequestId) (owner : AliasId) (p : PropertyRef) : History :=
  done.filter fun x => x.1.asks r owner p

section Asked

variable (done : History) {k : Call} {r : RequestId} {owner : AliasId} {p : PropertyRef}

lemma History.asked_append (hasks : k.asks r owner p = true) (x : Resolved) :
    History.asked (done ++ [(k, x)]) r owner p = done.asked r owner p ++ [(k, x)] := by
  simp [asked, hasks]

lemma History.asked_append_other (hasks : k.asks r owner p = false) (x : Resolved) :
    History.asked (done ++ [(k, x)]) r owner p = done.asked r owner p := by
  simp [asked, hasks]

end Asked

/-- The answers of a mapping to calls, one after the other. -/
def Mapping.answers (m : Mapping) (calls : List Call) : Resolve History :=
  calls.mapM fun k => (k, ·) <$> m.answer k

/-! ### Canonical graphs -/

/-- The joins of a reference are one join for all calls, if there are any. -/
def Shared (asked : History) (joins : List Join) : Prop :=
  (asked = [] ∧ joins = []) ∨ ∃ j, asked ≠ [] ∧ joins = [j] ∧ (∀ x ∈ asked, x.2 = .row j.source) ∧
    j.kind = .ofWiden (asked.any (·.1.widen))

/-- The joins of a relation to many are one join for each call. -/
def Separate (asked : History) (joins : List Join) : Prop :=
  joins.map (fun j => (Resolved.row j.source, j.kind)) = asked.map fun x => (x.2, .ofWiden x.1.widen)

/-- **The joins of a graph are what calls have asked for.** -/
structure Canonical (c : Catalog) (done : History) (g : Graph) : Prop where
  reference : ∀ r owner p stored, c.propertyMapping p = .ok stored → stored.isReference = true →
    Shared (done.asked r owner p) (g.navigating r owner p)
  many : ∀ r owner p stored, c.propertyMapping p = .ok stored → stored.target?.isSome = true →
    stored.isReference = false → Separate (done.asked r owner p) (g.navigating r owner p)
  /-- A join belongs to a navigation, all of whose joins are there and of one kind. -/
  equates : ∀ r, ∀ j ∈ (g.request r).joins, ∃ owner p js a, c.Navigates g owner p js a ∧ j ∈ js ∧
    ∀ i ∈ js, i ∈ (g.request r).joins ∧ i.kind = j.kind

namespace Canonical

variable {c : Catalog} {done : History} {g h : Graph} {k : Call} {x : Resolved}

/-- A graph without joins is canonical before any call. -/
lemma nil (c : Catalog) (hg : ∀ r, (g.request r).joins = []) : Canonical c [] g where
  reference r owner p _ _ _ := .inl ⟨rfl, by rw [Graph.navigating, hg, List.filter_nil]⟩
  many r owner p _ _ _ _ := by simp [Separate, Graph.navigating, hg, History.asked]
  equates r j hj := by simp [hg] at hj

lemma lt (hg : Canonical c done g) {r : RequestId} {j : Join} (hj : j ∈ (g.request r).joins) :
    j.source.index < g.aliases.size := by
  obtain ⟨owner, p, js, a, hjs, hmem, -⟩ := hg.equates r j hj
  exact hjs.lt j hmem

end Canonical

/-! ### Navigations after a call -/

lemma PropertyMapping.target?_isSome {p : PropertyMapping} (h : p.isReference = true) :
    p.target?.isSome = true := by
  unfold isReference at h
  unfold target?
  cases hkind : p.kind <;> simp_all

namespace Sql.Graph

variable {g h : Graph} {C : List RequestId} {A : List AliasId} {q : RequestId} {o : AliasId}
  {p : PropertyRef}

lemma navigating_append (hgh : Kept C A g h)
    (hlt : ∀ j ∈ (g.request q).joins, j.source.index < g.aliases.size) {added : List Join}
    (hjoins : (h.request q).joins = (g.request q).joins ++ added) :
    h.navigating q o p = g.navigating q o p ++
      added.filter fun j => (h.aliasOf j.source).isNavigationOf o p := by
  rw [navigating, hjoins, List.filter_append, navigating]
  congr 1
  exact List.filter_congr fun j hj => hgh.isNavigationOf (hlt j hj)

lemma navigating_widened (hgh : Kept C A g h)
    (hlt : ∀ j ∈ (g.request q).joins, j.source.index < g.aliases.size) {widen : Bool} {a : AliasId}
    {via : Option AliasId}
    (hjoins : (h.request q).joins = (g.request q).joins.map (Join.widened widen a via)) :
    h.navigating q o p = (g.navigating q o p).map (Join.widened widen a via) := by
  rw [navigating, hjoins, List.filter_map, navigating]
  congr 1
  refine List.filter_congr fun j hj => ?_
  rw [Function.comp_apply, Join.source_widened, hgh.isNavigationOf (hlt j hj)]

lemma navigating_of_same (g : Graph) (r : RequestId) (o : AliasId) {p q : PropertyRef}
    (h : p.same q = true) : g.navigating r o p = g.navigating r o q := by
  have hsame (s : PropertyRef) : s.same p = s.same q := by
    obtain ⟨howner, hname⟩ := PropertyRef.same_iff.1 h
    rw [PropertyRef.same, howner, hname, PropertyRef.same]
  simp only [navigating, Alias.isNavigationOf, hsame]

lemma isNavigationOf_of_navigating {j : Join} (hj : j ∈ g.navigating q o p) :
    (g.aliasOf j.source).isNavigationOf o p = true := (List.mem_filter.1 hj).2

end Sql.Graph

/-- The joins of a reference are one join, without a link table. -/
lemma Catalog.Navigates.single {c : Catalog} {g : Graph} {owner a o : AliasId} {p q : PropertyRef}
    {js : List Join} (hjs : c.Navigates g owner p js a) {j : Join} (hj : j ∈ js)
    (hnavigation : (g.aliasOf j.source).isNavigationOf o q = true) {stored : PropertyMapping}
    (hstored : c.propertyMapping q = .ok stored) (href : stored.isReference = true) :
    js = [j] ∧ (g.aliasOf j.source).via? = none := by
  obtain ⟨q', via, hroute, hsame⟩ := Alias.isNavigationOf_iff.1 hnavigation
  cases hjs with
  | reference _ _ _ hsource =>
    obtain rfl := List.mem_singleton.1 hj
    exact ⟨rfl, by rw [Alias.via?, hsource.2]⟩
  | collection _ _ _ hsource =>
    obtain rfl := List.mem_singleton.1 hj
    exact ⟨rfl, by rw [Alias.via?, hsource.2]⟩
  | linked hmany _ _ _ hlink hsource =>
    rcases List.mem_pair.1 hj with rfl | rfl
    · rw [hlink.2] at hroute
      cases hroute
    · rw [hsource.2] at hroute
      cases hroute
      rw [c.propertyMapping_of_same hsame, hstored] at hmany
      cases hmany
      cases href

section Step

variable {c : Catalog} {done : History} {g h : Graph} {k : Call} {x : Resolved} {r : RequestId}
  {o : AliasId} {p : PropertyRef} {stored : PropertyMapping}

/-- A reference that is found has no link table. -/
lemma Canonical.via?_eq_none (hg : Canonical c done g) {a : AliasId}
    (hfound : g.navigated? r o p = some a) (hstored : c.propertyMapping p = .ok stored)
    (href : stored.isReference = true) : (g.aliasOf a).via? = none := by
  obtain ⟨j, hj, rfl⟩ := List.mem_map.1 (List.mem_of_find?_eq_some hfound)
  obtain ⟨owner, q, js, b, hjs, hmem, -⟩ := hg.equates _ j hj
  exact (hjs.single hmem (Graph.isNavigationOf_of_navigated? hfound) hstored href).2

/-- A call leaves the navigations that it does not ask for as they are. -/
lemma Call.Does.navigating_other (hg : Canonical c done g) (hdoes : k.Does c g x h)
    (hasks : k.asks r o p = false) : h.navigating r o p = g.navigating r o p := by
  have hsame {q : RequestId} (hjoins : (h.request q).joins = (g.request q).joins) :
      h.navigating q o p = g.navigating q o p := by
    have happend := Graph.navigating_append (o := o) (p := p) hdoes.touches.kept
      (fun j hj => hg.lt hj) (hjoins.trans (List.append_nil _).symm)
    rwa [List.filter_nil, List.append_nil] at happend
  by_cases hr : r = k.request
  · subst hr
    cases hdoes with
    | column _ _ _ hjoins => exact hsame hjoins
    | @found _ a _ hstored href hfound hjoins _ htouches =>
      rw [hg.via?_eq_none hfound hstored href] at hjoins
      rw [Graph.navigating_widened htouches.kept (fun j hj => hg.lt hj) hjoins]
      have hid : ∀ j ∈ g.navigating k.request o p, j.widened k.widen a none = j := by
        refine fun j hj => Join.widened_of_ne ?_
        rintro rfl
        obtain ⟨howner, hproperty⟩ := Alias.isNavigationOf_unique
          (Graph.isNavigationOf_of_navigated? hfound) (Graph.isNavigationOf_of_navigating hj)
        simp [Call.asks, howner, hproperty] at hasks
      rw [List.map_congr_left hid, List.map_id']
    | joined _ _ hadds =>
      obtain ⟨j, -, -, -, hfilter⟩ := hadds.navigates.filter o p
      have hno : (k.owner == o && k.property.same p) = false := by simpa [Call.asks] using hasks
      rw [Graph.navigating_append hadds.touches.kept (fun j hj => hg.lt hj) hadds.joins, hfilter, hno]
      simp
  · exact hsame (by rw [hdoes.touches.request r hr])

/-- A call of a relation to many adds the join that leads to its answer. -/
lemma Call.Does.navigating_many (hg : Canonical c done g) (hdoes : k.Does c g x h)
    (hasks : k.asks r o p = true) (hstored : c.propertyMapping p = .ok stored)
    (htarget : stored.target?.isSome = true) (hmany : stored.isReference = false) :
    ∃ j, h.navigating r o p = g.navigating r o p ++ [j] ∧ x = .row j.source ∧
      j.kind = .ofWiden k.widen := by
  obtain ⟨rfl, rfl, hsame⟩ := Call.asks_iff.1 hasks
  rw [← c.propertyMapping_of_same hsame] at hstored
  cases hdoes with
  | column hstored' hscalar =>
    cases hstored.symm.trans hstored'
    simp [hscalar] at htarget
  | found hstored' href =>
    cases hstored.symm.trans hstored'
    simp [hmany] at href
  | joined _ _ hadds =>
    obtain ⟨j, hj, rfl, -, hfilter⟩ := hadds.navigates.filter k.owner p
    refine ⟨j, ?_, rfl, (hadds.own j hj).1⟩
    rw [Graph.navigating_append hadds.touches.kept (fun j hj => hg.lt hj) hadds.joins, hfilter]
    simp [hsame]

/-- A call of a reference finds the join that is there, or adds one. -/
lemma Call.Does.navigating_reference (hg : Canonical c done g) (hdoes : k.Does c g x h)
    (hasks : k.asks r o p = true) (hstored : c.propertyMapping p = .ok stored)
    (href : stored.isReference = true) :
    (∃ j js, g.navigating r o p = j :: js ∧ x = .row j.source ∧
      h.navigating r o p = (j :: js).map (Join.widened k.widen j.source none)) ∨
    ∃ j, g.navigating r o p = [] ∧ h.navigating r o p = [j] ∧ x = .row j.source ∧
      j.kind = .ofWiden k.widen := by
  obtain ⟨rfl, rfl, hsame⟩ := Call.asks_iff.1 hasks
  have hnavigated : g.navigated? k.request k.owner k.property =
      (g.navigating k.request k.owner p).head?.map Join.source := by
    rw [Graph.navigated?_eq, g.navigating_of_same _ _ hsame]
  rw [← c.propertyMapping_of_same hsame] at hstored
  cases hdoes with
  | column hstored' hscalar =>
    cases hstored.symm.trans hstored'
    simpa [hscalar] using PropertyMapping.target?_isSome href
  | @found _ a _ hstored' href' hfound hjoins _ htouches =>
    refine .inl ?_
    rw [hg.via?_eq_none hfound hstored' href'] at hjoins
    rw [Graph.navigating_widened htouches.kept (fun j hj => hg.lt hj) hjoins]
    cases hjs : g.navigating k.request k.owner p with
    | nil => simp [hnavigated, hjs] at hfound
    | cons j js =>
      obtain rfl : j.source = a := by simpa [hnavigated, hjs] using hfound
      exact ⟨j, js, rfl, rfl, rfl⟩
  | joined hstored' hnew hadds =>
    cases hstored.symm.trans hstored'
    refine .inr ?_
    have hnone : g.navigating k.request k.owner p = [] := by
      simpa [hnavigated] using hnew href
    obtain ⟨j, hj, rfl, -, hfilter⟩ := hadds.navigates.filter k.owner p
    refine ⟨j, hnone, ?_, rfl, (hadds.own j hj).1⟩
    rw [Graph.navigating_append hadds.touches.kept (fun j hj => hg.lt hj) hadds.joins, hfilter, hnone]
    simp [hsame]

/-- The joins of a request come from navigations after a call. -/
lemma Call.Does.equates (hg : Canonical c done g) (hdoes : k.Does c g x h) (r : RequestId) :
    ∀ j ∈ (h.request r).joins, ∃ owner p js a, c.Navigates h owner p js a ∧ j ∈ js ∧
      ∀ i ∈ js, i ∈ (h.request r).joins ∧ i.kind = j.kind := by
  -- what was there is still a navigation
  have hold {q : RequestId} {j : Join} (hj : j ∈ (g.request q).joins)
      (hjoins : ∀ i ∈ (g.request q).joins, i ∈ (h.request q).joins) :
      ∃ owner p js a, c.Navigates h owner p js a ∧ j ∈ js ∧
        ∀ i ∈ js, i ∈ (h.request q).joins ∧ i.kind = j.kind := by
    obtain ⟨owner, p, js, a, hjs, hmem, hall⟩ := hg.equates q j hj
    exact ⟨owner, p, js, a, hjs.later hdoes.touches.kept, hmem,
      fun i hi => ⟨hjoins i (hall i hi).1, (hall i hi).2⟩⟩
  intro j hj
  by_cases hr : r = k.request
  · subst hr
    cases hdoes with
    | column _ _ _ hjoins =>
      rw [hjoins] at hj
      exact hold hj fun i hi => hjoins ▸ hi
    | @found _ a _ hstored href hfound hjoins _ htouches =>
      rw [hjoins, hg.via?_eq_none hfound hstored href] at hj ⊢
      obtain ⟨i, hi, rfl⟩ := List.mem_map.1 hj
      obtain ⟨owner, p, js, b, hjs, hmem, hall⟩ := hg.equates _ i hi
      refine ⟨owner, p, js.map (Join.widened k.widen a none), b,
        (hjs.later htouches.kept).map (fun _ => Join.source_widened) fun _ => Join.condition_widened,
        List.mem_map_of_mem hmem, fun i' hi' => ?_⟩
      obtain ⟨l, hl, rfl⟩ := List.mem_map.1 hi'
      refine ⟨List.mem_map_of_mem (hall l hl).1, ?_⟩
      -- only the join of a reference is widened, and it is the only one of its navigation
      by_cases hsource : ∃ m ∈ js, m.source = a
      · obtain ⟨m, hm, rfl⟩ := hsource
        have hnavigation := Graph.isNavigationOf_of_navigated? hfound
        obtain ⟨rfl, -⟩ := hjs.single hm hnavigation hstored href
        rw [List.mem_singleton.1 hl, List.mem_singleton.1 hmem]
      · push Not at hsource
        rw [Join.widened_of_ne (hsource l hl), Join.widened_of_ne (hsource i hmem)]
        exact (hall l hl).2
    | joined _ _ hadds =>
      rw [hadds.joins] at hj
      rcases List.mem_append.1 hj with hj | hj
      · exact hold hj fun i hi => by simp [hadds.joins, hi]
      · refine ⟨k.owner, k.property, _, _, hadds.navigates, hj, fun i hi => ⟨?_, ?_⟩⟩
        · simp [hadds.joins, hi]
        · rw [(hadds.own i hi).1, (hadds.own j hj).1]
  · have hrequest := hdoes.touches.request r hr
    rw [hrequest] at hj
    exact hold hj fun i hi => hrequest ▸ hi

/-- **A call keeps a graph canonical.** -/
theorem Canonical.call (hg : Canonical c done g) (hdoes : k.Does c g x h) :
    Canonical c (done ++ [(k, x)]) h where
  reference r o p stored hstored href := by
    have hshared := hg.reference r o p stored hstored href
    cases hasks : k.asks r o p with
    | false => rwa [done.asked_append_other hasks, hdoes.navigating_other hg hasks]
    | true =>
      rw [done.asked_append hasks]
      obtain ⟨j, js, hjs, rfl, hjoins⟩ | ⟨j, hnone, hjoins, rfl, hkind⟩ :=
        hdoes.navigating_reference hg hasks hstored href
      · obtain ⟨-, hnone⟩ | ⟨i, -, hone, hanswers, hkind⟩ := hshared
        · simp [hnone] at hjs
        · rw [hone] at hjs
          cases hjs
          refine .inr ⟨_, by simp, hjoins, fun y hy => ?_, ?_⟩
          · rw [Join.source_widened]
            rcases List.mem_append.1 hy with hy | hy
            · exact hanswers y hy
            · rw [List.mem_singleton.1 hy]
          · rw [List.any_append, List.any_cons, List.any_nil, Bool.or_false]
            cases k.widen with
            | false => rw [Bool.or_false, ← hkind]; rfl
            | true => rw [Bool.or_true]; simp [Join.widened, JoinKind.ofWiden]
      · obtain ⟨hnever, -⟩ | ⟨i, -, hone, -⟩ := hshared
        · rw [hnever]
          exact .inr ⟨j, by simp, hjoins, by simp, by simpa using hkind⟩
        · simp [hone] at hnone
  many r o p stored hstored htarget hmany := by
    have hseparate := hg.many r o p stored hstored htarget hmany
    cases hasks : k.asks r o p with
    | false => rwa [done.asked_append_other hasks, hdoes.navigating_other hg hasks]
    | true =>
      obtain ⟨j, hjoins, rfl, hkind⟩ := hdoes.navigating_many hg hasks hstored htarget hmany
      rw [Separate, done.asked_append hasks, hjoins, List.map_append, hseparate, List.map_append]
      simp [hkind]
  equates := hdoes.equates hg

end Step

/-! ### Sequences of calls -/

section Calls

variable {m : Mapping} {g : Graph}

lemma runs_answers (hm : m.equivalents = []) (hc : m.catalog.validate = .ok ()) {done : History}
    (hg : Canonical m.catalog done g) {calls : List Call} (hcalls : ∀ k ∈ calls, k.Valid m.catalog g) :
    ∃ new h, Runs (m.answers calls) g new h ∧ new.map Prod.fst = calls ∧
      Canonical m.catalog (done ++ new) h ∧ g.requests.size ≤ h.requests.size := by
  induction calls generalizing g done with
  | nil =>
    exact ⟨[], g, runs_pure.2 ⟨rfl, rfl⟩, rfl, by rwa [List.append_nil], le_rfl⟩
  | cons k calls ih =>
    obtain ⟨x, u, hrun, hdoes⟩ := m.does_answer hm hc (hcalls k List.mem_cons_self)
    have hsize := hdoes.touches.kept.requests
    obtain ⟨new, h, hruns, hnew, hh, hle⟩ := ih (hg.call hdoes) fun k hk =>
      ⟨(hcalls k (List.mem_cons_of_mem _ hk)).1.trans_le hsize,
        (hcalls k (List.mem_cons_of_mem _ hk)).2⟩
    refine ⟨(k, x) :: new, h, ?_, by rw [List.map_cons, hnew], ?_, hsize.trans hle⟩
    · rw [Mapping.answers, List.mapM_cons]
      exact hrun.map.bind (hruns.bind (runs_pure.2 ⟨rfl, rfl⟩))
    · rwa [List.append_assoc] at hh

/-- **Joins are canonical after every sequence of calls.** On a validated catalog without computed
properties, calls of mapped properties succeed. In a graph that had no joins, a reference is joined
once for all calls that ask for it in a request, and its join is a left one if one of them has asked
for that; every call of a relation to many has joins of its own; all joins equate the columns of the
catalog. A further call does to the joins what the kind of its property says, and leaves them
canonical. -/
theorem canonical_answers (hm : m.equivalents = []) (hc : m.catalog.validate = .ok ())
    (hg : ∀ r, (g.request r).joins = []) (calls : List Call)
    (hcalls : ∀ k ∈ calls, k.Valid m.catalog g) :
    ∃ done h, Runs (m.answers calls) g done h ∧ done.map Prod.fst = calls ∧
      Canonical m.catalog done h ∧ ∀ k : Call, k.Valid m.catalog g →
        ∃ x h', Runs (m.answer k) h x h' ∧ k.Does m.catalog h x h' ∧
          Canonical m.catalog (done ++ [(k, x)]) h' := by
  obtain ⟨done, h, hruns, hdone, hh, hsize⟩ := runs_answers hm hc (.nil m.catalog hg) hcalls
  refine ⟨done, h, hruns, hdone, hh, fun k hk => ?_⟩
  obtain ⟨x, h', hrun, hdoes⟩ := m.does_answer hm hc (k := k) (g := h) ⟨hk.1.trans_le hsize, hk.2⟩
  exact ⟨x, h', hrun, hdoes, hh.call hdoes⟩

end Calls

namespace Bookshop

/-- Books with an author, reviews and tags. -/
def catalog : Catalog :=
  ⟨[⟨"Book", "BOOK", some "id", [⟨"id", "ID", .scalar .int false none⟩,
      ⟨"author", "IDFK_AUTHOR", .reference "Author"⟩, ⟨"reviews", "IDFK_BOOK", .collection "Review"⟩,
      ⟨"tags", "", .manyToMany "Tag" "BOOK_TAGS" "IDFK_BOOK" "IDFK_TAG"⟩]⟩,
    ⟨"Author", "AUTHOR", some "id", [⟨"id", "ID", .scalar .int false none⟩]⟩,
    ⟨"Review", "REVIEW", some "id", [⟨"id", "ID", .scalar .int false none⟩]⟩,
    ⟨"Tag", "TAG", some "id", [⟨"id", "ID", .scalar .int false none⟩]⟩]⟩

def mapping : Mapping := { catalog }

/-- A query of books inside a query of books. -/
def graph : Graph :=
  { aliases := #[.ofTable "BOOK" "Book" (some "ID"), .ofTable "BOOK" "Book" (some "ID")]
    requests := #[{ base := some ⟨0⟩ }, { base := some ⟨1⟩, parent := some ⟨0⟩ }] }

def author : PropertyRef := ⟨"Book", "author", .entity "Author"⟩

def reviews : PropertyRef := ⟨"Book", "reviews", .collection (.entity "Review")⟩

def tags : PropertyRef := ⟨"Book", "tags", .collection (.entity "Tag")⟩

/-- The author of a book is asked for twice outside and twice inside, once for the outer book. -/
def calls : List Call :=
  [⟨⟨0⟩, ⟨0⟩, author, false⟩, ⟨⟨0⟩, ⟨0⟩, reviews, true⟩, ⟨⟨1⟩, ⟨1⟩, author, false⟩,
    ⟨⟨0⟩, ⟨0⟩, tags, false⟩, ⟨⟨0⟩, ⟨0⟩, author, true⟩, ⟨⟨1⟩, ⟨0⟩, author, false⟩,
    ⟨⟨0⟩, ⟨0⟩, reviews, false⟩]

end Bookshop

open Bookshop in
theorem canonical_answers_books :
    mapping.equivalents = [] ∧ mapping.catalog.validate = .ok () ∧
      (∀ r, (graph.request r).joins = []) ∧ (∀ k ∈ calls, k.Valid mapping.catalog graph) ∧
      ∃ done h, Runs (mapping.answers calls) graph done h ∧ done.map Prod.fst = calls ∧
        Canonical mapping.catalog done h := by
  have hjoins : ∀ r, (graph.request r).joins = [] := by
    rintro ⟨_ | _ | n⟩ <;> rfl
  have hcalls : ∀ k ∈ calls, k.Valid mapping.catalog graph := by
    unfold Call.Valid
    decide
  obtain ⟨done, h, hruns, hdone, hh, -⟩ :=
    canonical_answers (m := mapping) rfl rfl hjoins calls hcalls
  exact ⟨rfl, rfl, hjoins, hcalls, done, h, hruns, hdone, hh⟩

end EntityQuery
