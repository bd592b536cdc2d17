import EntityQuery.Proofs.Filters.Conditions

/-!
Requests over related rows.

* A relation to many is joined and then moved into a request of its own (`Opened`). Its condition, or
  the one of its link table, ties the request to the row outside.
* `Relates`: for conditions that do not look at link tables, the request ranges over the related rows.
-/

namespace EntityQuery

open Sql Store Compile

variable {st : Store} {S : Site}

/-! ### Requests over related rows -/

namespace Sql.Graph

/-- Joins pushed one after the other. -/
def pushJoins (g : Graph) (r : RequestId) (js : List Join) : Graph :=
  js.foldl (fun g j => g.pushJoin r j) g

variable {g : Graph} {r : RequestId} {js : List Join} {C : List RequestId} {A : List AliasId}

lemma request_pushJoins_self (h : r.index < g.requests.size) :
    (g.pushJoins r js).request r = { g.request r with joins := (g.request r).joins ++ js } := by
  induction js generalizing g with
  | nil => simp [pushJoins]
  | cons j js ih =>
    have hlt : r.index < (g.pushJoin r j).requests.size := by simpa [pushJoin] using h
    have hrest := ih hlt
    rw [request_pushJoin_self g h] at hrest
    rw [pushJoins, List.foldl_cons, ← pushJoins, hrest]
    simp

lemma request_pushJoins_of_ne {q : RequestId} (h : q ≠ r) :
    (g.pushJoins r js).request q = g.request q := by
  induction js generalizing g with
  | nil => rfl
  | cons j js ih => rw [pushJoins, List.foldl_cons, ← pushJoins, ih, request_pushJoin_of_ne g j h]

lemma Kept.pushJoins (g : Graph) (hr : r ∈ C) (js : List Join) : Kept C A g (g.pushJoins r js) := by
  induction js generalizing g with
  | nil => exact .refl C A g
  | cons j js ih => exact (Kept.pushJoin g hr j).trans (ih _)

lemma size_requests_pushJoins : (g.pushJoins r js).requests.size = g.requests.size := by
  induction js generalizing g with
  | nil => rfl
  | cons j js ih =>
    rw [Graph.pushJoins, List.foldl_cons, ← Graph.pushJoins, ih]
    simp [pushJoin]

lemma Sound.pushJoins (hg : g.Sound C) (hr : r ∈ C)
    (hjs : ∀ j ∈ js, j.source.index < g.aliases.size ∧ j.condition.index < g.entries.size) :
    (g.pushJoins r js).Sound C := by
  induction js generalizing g with
  | nil => exact hg
  | cons j js ih =>
    obtain ⟨hsource, hcondition⟩ := hjs j List.mem_cons_self
    refine ih (hg.pushJoin hr hsource hcondition) fun i hi => ?_
    obtain ⟨hi₁, hi₂⟩ := hjs i (List.mem_cons_of_mem _ hi)
    exact ⟨hi₁, hi₂.trans_le (Kept.pushJoin (A := []) g hr j).entries⟩

/-- The request over a source, with link tables and the condition that ties it to the request
outside. -/
def nest (g : Graph) (outer : RequestId) (a : AliasId) (links : List Join) (tie : NodeId) : Graph :=
  ((g.openRequest outer a).pushJoins ⟨g.requests.size⟩ links).andFilter ⟨g.requests.size⟩ tie

end Sql.Graph

/-- A request has been opened inside the request of a site. -/
structure Opened (S : Site) (g H : Graph) (a : AliasId) (links : List Join) (tie : NodeId) : Prop where
  kept : g.Kept [S.request] [] H
  same : H.request S.request = g.request S.request
  size : H.requests.size = g.requests.size + 1
  child : ∃ projection idColumn, H.request ⟨g.requests.size⟩ =
    { parent := some S.request, base := some a, joins := links, filter := some tie,
      projection := projection, idColumn := idColumn }
  sound : H.Sound (⟨g.requests.size⟩ :: S.opened)

/-- A request has gained joins, and nothing else has changed. -/
structure Grew (S : Site) (g h : Graph) (extra : List Join) : Prop where
  kept : g.Kept [S.request] [] h
  request : h.request S.request =
    { g.request S.request with joins := (g.request S.request).joins ++ extra }
  size : h.requests.size = g.requests.size
  sound : h.Sound S.opened

namespace Grew

variable {g h k : Graph} {xs ys : List Join} {j : Join}

lemma trans (hgh : Grew S g h xs) (hhk : Grew S h k ys) : Grew S g k (xs ++ ys) where
  kept := hgh.kept.trans hhk.kept
  request := by rw [hhk.request, hgh.request, List.append_assoc]
  size := hhk.size.trans hgh.size
  sound := hhk.sound

/-- A new source joined on equal columns. -/
lemma joinEqual (hg : g.Sound S.opened) (hr : S.request.index < g.requests.size) {d : Alias}
    (hd : ∀ q, d.origin ≠ .request q) (widen : Bool) (a : AliasId) (c : String) (b : AliasId)
    (c' : String) :
    Grew S g ((g.addAlias d).2.joinEqual S.request ⟨g.aliases.size⟩ widen a c b c')
      [⟨⟨g.aliases.size⟩, .ofWiden widen, ((g.addAlias d).2.equate a c b c').1⟩] where
  kept := ((Graph.Kept.addAlias _ _ g d).trans (.equate _ a c b c')).trans
    (.pushJoin _ List.mem_cons_self _)
  request := by
    rw [Graph.joinEqual, Graph.request_pushJoin_self _ (by simpa using hr), Graph.request_equate,
      Graph.request_addAlias]
  size := by simp [Graph.joinEqual, Graph.pushJoin]
  sound := ((hg.addAlias hd).equate a c b c').pushJoin List.mem_cons_self (by simp) (by simp)

/-- The last join can be taken out again. -/
lemma drop (xs : List Join) (h : Grew S g k (xs ++ [j])) (hr : S.request.index < g.requests.size)
    (hnew : ∀ i ∈ (g.request S.request).joins ++ xs, i.source ≠ j.source) :
    (k.request S.request).joinFor? j.source = some j ∧
      Grew S g (k.dropJoin S.request j.source) xs := by
  have hjoins : (k.request S.request).joins = ((g.request S.request).joins ++ xs) ++ [j] := by
    rw [h.request, List.append_assoc]
  obtain ⟨hfor, hdrop⟩ := k.request_dropJoin_last (by rwa [h.size]) hjoins hnew
  refine ⟨hfor, h.kept.trans (.dropJoin _ List.mem_cons_self _), ?_, ?_, ?_⟩
  · rw [hdrop, h.request]
  · rw [Graph.size_requests_dropJoin, h.size]
  · exact h.sound.dropJoin List.mem_cons_self _

/-- No request has a base that is new. -/
lemma requestOver?_eq_none (h : Grew S g k xs) (hg : g.Sound S.opened) {a : AliasId}
    (ha : g.aliases.size ≤ a.index) (r : RequestId) : k.requestOver? r a = none := by
  refine Graph.requestOver?_eq_none (fun q hq => ?_) r
  have hold : (g.request q).base = some a → False := fun hq => by
    have hlt := hg.source q a (Request.mem_origins.2 (.inl hq))
    omega
  by_cases hqr : q = S.request
  · subst hqr
    rw [h.request] at hq
    exact hold hq
  · by_cases hlt : q.index < g.requests.size
    · rw [h.kept.request q hlt (by simpa using hqr)] at hq
      exact hold hq
    · rw [Graph.request_of_size_le (by rw [h.size]; exact Nat.not_lt.1 hlt)] at hq
      cases hq

end Grew

section Nest

variable {g k : Graph} {a : AliasId} {links : List Join} {tie : NodeId}

lemma nest_eq (g : Graph) (outer : RequestId) (a : AliasId) (links : List Join) (tie : NodeId) :
    g.nest outer a links tie = ((g.openRequest outer a).pushJoins ⟨g.requests.size⟩ links).setFilter
      ⟨g.requests.size⟩ tie := by
  refine Graph.andFilter_of_none _ _ ?_
  rw [Graph.request_pushJoins_self (by simp), Graph.request_openRequest_self]

lemma kept_nest (k : Graph) (outer : RequestId) (a : AliasId) (links : List Join) (tie : NodeId) :
    k.Kept [⟨k.requests.size⟩] [] (k.nest outer a links tie) := by
  rw [nest_eq]
  exact ((Graph.Kept.openRequest k List.mem_cons_self _ _).trans
    (.pushJoins _ List.mem_cons_self links)).trans (.setFilter _ List.mem_cons_self _)

lemma opened_nest (h : Grew S g k []) (hr : S.request.index < g.requests.size)
    (ha : a.index < k.aliases.size)
    (hlinks : ∀ j ∈ links, j.source.index < k.aliases.size ∧ j.condition.index < k.entries.size)
    (htie : tie.index < k.entries.size) : Opened S g (k.nest S.request a links tie) a links tie := by
  have hsame : k.request S.request = g.request S.request := by rw [h.request, List.append_nil]
  have hne : S.request ≠ ⟨k.requests.size⟩ := by
    intro heq
    rw [heq, h.size] at hr
    exact Nat.lt_irrefl _ hr
  have hopen : (⟨k.requests.size⟩ : RequestId).index <
      (k.openRequest S.request a).requests.size := by simp
  refine ⟨?_, ?_, ?_, ?_, ?_⟩
  · refine h.kept.trans ((kept_nest k S.request a links tie).mono ?_ fun _ h => absurd h List.not_mem_nil)
    intro q hq hlt
    rw [List.mem_singleton.1 hq] at hlt
    exact absurd hlt (Nat.lt_irrefl _)
  · rw [nest_eq, Graph.request_setFilter_of_ne _ _ hne, Graph.request_pushJoins_of_ne hne,
      Graph.request_openRequest_of_lt _ _ _ (by rwa [h.size]), hsame]
  · rw [nest_eq, ← h.size]
    simp [Graph.setFilter, Graph.size_requests_pushJoins]
  · refine ⟨(k.aliasOf a).entity.map .entity, (k.aliasOf a).idColumn, ?_⟩
    rw [← h.size, nest_eq, Graph.request_setFilter_self, Graph.request_pushJoins_self hopen,
      Graph.request_openRequest_self]
    · rfl
    · rw [Graph.size_requests_pushJoins]
      exact hopen
  · rw [← h.size, nest_eq]
    refine ((h.sound.openRequest S.request ha).pushJoins List.mem_cons_self hlinks).setFilter
      List.mem_cons_self ?_
    exact htie.trans_le (Graph.Kept.pushJoins (C := [⟨k.requests.size⟩]) (A := [])
      (k.openRequest S.request a) List.mem_cons_self links).entries

end Nest

/-! ### Relations to many -/

/-- A new source has been joined on equal columns. -/
structure Joins (S : Site) (g h : Graph) (d : Alias) (j : Join) (x : AliasId) (c : String) (y : AliasId)
    (c' : String) : Prop where
  grew : Grew S g h [j]
  source : j.source = ⟨g.aliases.size⟩
  size : h.aliases.size = g.aliases.size + 1
  origin : (h.aliasOf j.source).origin = d.origin
  route : (h.aliasOf j.source).route = d.route
  params : (h.aliasOf j.source).params = d.params
  condition : j.condition.index < h.entries.size
  compares : h.Compares j.condition x c y c'

lemma joins_joinEqual {g h : Graph} (hg : g.Sound S.opened) (hr : S.request.index < g.requests.size)
    {d : Alias} (hd : ∀ q, d.origin ≠ .request q) {widen : Bool} {x y : AliasId} {c c' : String}
    (hh : h = (g.addAlias d).2.joinEqual S.request ⟨g.aliases.size⟩ widen x c y c') :
    ∃ j, Joins S g h d j x c y c' := by
  have halias : h.aliasOf ⟨g.aliases.size⟩ = { d with name := "t" ++ toString g.aliases.size } := by
    rw [hh, Graph.joinEqual]
    simp
  have hgrew := Grew.joinEqual hg hr hd widen x c y c'
  rw [← hh] at hgrew
  refine ⟨_, hgrew, rfl, ?_, ?_, ?_, ?_, ?_, ?_⟩
  · rw [hh, Graph.joinEqual]
    simp
  · rw [halias]
  · rw [halias]
  · rw [halias]
  · rw [hh, Graph.joinEqual, Graph.pushJoin]
    simp
  · rw [hh, Graph.joinEqual]
    exact (Graph.Kept.pushJoin (C := [S.request]) (A := []) _ List.mem_cons_self _).compares
      ((g.addAlias d).2.compares_equate x c y c')

/-- A request has been opened over the rows that a member of a row relates to. -/
structure Relates (st : Store) (S : Site) (g : Graph) (owner : AliasId) (p : PropertyRef) (H : Graph)
    (a : AliasId) (links : List Join) (tie : NodeId) : Prop where
  opened : Opened S g H a links tie
  base : g.aliases.size ≤ a.index
  params : (H.aliasOf a).params = []
  link : ∀ j ∈ links, g.aliases.size ≤ j.source.index ∧ j.source ≠ a ∧
    (H.aliasOf j.source).params = [] ∧
    ∀ o q via, (H.aliasOf j.source).route ≠ .navigation o q via
  equates : ∃ x c y c', H.Compares tie x c y c' ∧ x.index < H.aliases.size ∧
    y.index < H.aliases.size
  /-- Conditions that do not look at link tables hold for related rows only. -/
  related : ∀ G μ A ρ, H.Kept (⟨g.requests.size⟩ :: S.opened) A G → G.Ranked μ →
    ∀ keep : Env → Bool, (∀ j ∈ links, ∀ σ row, keep (Function.update σ j.source row) = keep σ) →
      ((links.foldl (fun ρs j => ρs.flatMap ((G.evaluator st.engine st.database).partners j))
        (((G.evaluator st.engine st.database).source ρ a).map (Function.update ρ a))).any fun σ =>
          ((G.evaluator st.engine st.database).term tie).holds σ && keep σ) =
      (st.related (ρ owner) p).any fun row => keep (Function.update ρ a row)

section Hoist

variable {s : CompileState} {outer : RequestId} {a : AliasId} {first : Join}

lemma runs_hoist_plain (e : Expr) (hactive : s.active = some outer)
    (hfirst : (s.graph.request outer).joinFor? a = some first)
    (hvia : (s.graph.aliasOf a).via? = none) :
    Runs (hoist e a) s ⟨s.graph.requests.size⟩
      { s with graph := (s.graph.dropJoin outer a).nest outer a [] first.condition } := by
  refine runs_hoist.2 ⟨outer, first, hactive, hfirst, rfl, ?_⟩
  rw [hvia, Graph.nest, Graph.size_requests_dropJoin]
  rfl

lemma runs_hoist_linked (e : Expr) (hactive : s.active = some outer)
    (hfirst : (s.graph.request outer).joinFor? a = some first) {l : AliasId}
    (hvia : (s.graph.aliasOf a).via? = some l) {last : Join}
    (hlast : ((s.graph.dropJoin outer a).request outer).joinFor? l = some last) :
    Runs (hoist e a) s ⟨s.graph.requests.size⟩
      { s with graph := ((s.graph.dropJoin outer a).dropJoin outer l).nest outer a
                [⟨last.source, .inner, first.condition⟩] last.condition } := by
  refine runs_hoist.2 ⟨outer, first, hactive, hfirst, rfl, ?_⟩
  rw [hvia]
  refine ⟨last, hlast, ?_⟩
  rw [Graph.nest, Graph.size_requests_dropJoin, Graph.size_requests_dropJoin]
  rfl

end Hoist

section Relations

variable {s : CompileState} {owner : AliasId} {p : PropertyRef}

/-- The rows of a one to many relation. -/
lemma relates_collection {c : Catalog} {g h : Graph} (hg : S.Fits c g)
    (howner : owner.index < g.aliases.size) {d : Alias} {j : Join} {column table key : String}
    (hj : Joins S g h d j j.source column owner key) (hd : d.origin = .table table)
    (hparams : d.params = [])
    (hrelated : ∀ row, st.related row p = (st.database.rows table).filter fun t =>
      st.equals (t.value column) (row.value key)) :
    (h.request S.request).joinFor? j.source = some j ∧
      Relates st S g owner p ((h.dropJoin S.request j.source).nest S.request j.source [] j.condition)
        j.source [] j.condition := by
  have hr := hg.request_lt
  obtain ⟨hfor, hdrop⟩ := Grew.drop [] hj.grew hr fun i hi heq => by
    rw [List.append_nil] at hi
    have hlt := hg.sound.source_lt hi
    rw [heq, hj.source] at hlt
    exact Nat.lt_irrefl _ hlt
  have hsource : j.source.index < h.aliases.size := by
    rw [hj.source, hj.size]
    exact Nat.lt_succ_self _
  have hkept : ∀ C, S.request ∈ C → ⟨g.requests.size⟩ ∈ C → h.Kept C []
      ((h.dropJoin S.request j.source).nest S.request j.source [] j.condition) := by
    intro C hr hchild
    refine (Graph.Kept.dropJoin h hr _).trans ((kept_nest _ _ _ _ _).mono (fun q hq _ => ?_) (by simp))
    rw [List.mem_singleton.1 hq, Graph.size_requests_dropJoin, hj.grew.size]
    exact hchild
  have hkept' := hkept [S.request, ⟨g.requests.size⟩] (by simp) (by simp)
  refine ⟨hfor, opened_nest hdrop hr hsource (by simp) hj.condition, ?_, ?_, by simp, ?_, ?_⟩
  · rw [hj.source]
  · rw [hkept'.params _ hsource List.not_mem_nil, hj.params, hparams]
  · have howner' := howner.trans_le hj.grew.kept.aliases
    exact ⟨_, _, _, _, hkept'.compares hj.compares,
      hsource.trans_le hkept'.aliases, howner'.trans_le hkept'.aliases⟩
  · intro G μ A ρ hG hμ keep _
    have hall := (hkept (⟨g.requests.size⟩ :: S.opened) (by simp [Site.opened]) (by simp)).mono
      (D := ⟨g.requests.size⟩ :: S.opened) (B := A) (fun _ h _ => h) (by simp)
    have hlater := hall.trans hG
    have hne : owner ≠ j.source := by
      rintro rfl
      rw [hj.source] at howner
      exact Nat.lt_irrefl _ howner
    have hcompares := hlater.compares hj.compares
    rw [List.foldl_nil, Graph.source_of_table ((hlater.origin hsource).trans (hj.origin.trans hd)), hrelated,
      List.any_map, List.any_filter]
    congr 1
    funext row
    rw [Function.comp_apply, holds_compares hμ hcompares, Function.update_self,
      Function.update_of_ne hne]

/-- An inner join has the partners that its condition admits. -/
lemma partners_inner {G : Graph} {j : Join} (hkind : j.kind = .inner) {table : String}
    (horigin : (G.aliasOf j.source).origin = .table table) (ρ : Env) :
    (G.evaluator st.engine st.database).partners j ρ =
      ((st.database.rows table).map (Function.update ρ j.source)).filter
        ((G.evaluator st.engine st.database).term j.condition).holds := by
  have hleft : (j.kind == .left) = false := by rw [hkind]; rfl
  rw [Evaluator.partners, Graph.source_of_table horigin]
  simp [hleft]

/-- The rows of a many to many relation. -/
lemma relates_linked {c : Catalog} {g h k : Graph} (hg : S.Fits c g)
    (howner : owner.index < g.aliases.size) {d d' : Alias} {i j : Join}
    {ownerColumn targetColumn link table key targetKey : String}
    (hi : Joins S g h d i i.source ownerColumn owner key)
    (hj : Joins S h k d' j j.source targetKey i.source targetColumn) (hd : d.origin = .table link)
    (hroute : ∀ o q via, d.route ≠ .navigation o q via) (hparams : d.params = [])
    (hd' : d'.origin = .table table) (hparams' : d'.params = [])
    (hrelated : ∀ row, st.related row p = (st.database.rows table).filter fun t =>
      (st.database.rows link).any fun l =>
        st.equals (l.value ownerColumn) (row.value key) &&
          st.equals (t.value targetKey) (l.value targetColumn)) :
    (k.request S.request).joinFor? j.source = some j ∧
      ((k.dropJoin S.request j.source).request S.request).joinFor? i.source = some i ∧
      Relates st S g owner p
        (((k.dropJoin S.request j.source).dropJoin S.request i.source).nest S.request j.source
          [⟨i.source, .inner, j.condition⟩] i.condition)
        j.source [⟨i.source, .inner, j.condition⟩] i.condition := by
  have hr := hg.request_lt
  have hindex : i.source.index = g.aliases.size ∧ j.source.index = g.aliases.size + 1 := by
    rw [hi.source, hj.source, hi.size]
    exact ⟨rfl, rfl⟩
  have hold : ∀ x ∈ (g.request S.request).joins, x.source.index < g.aliases.size :=
    fun x hx => hg.sound.source_lt hx
  have hij : i.source ≠ j.source := by
    intro heq
    rw [heq] at hindex
    omega
  obtain ⟨hfirst, hdrop⟩ := Grew.drop [i] (hi.grew.trans hj.grew) hr fun x hx heq => by
    rcases List.mem_append.1 hx with hx | hx
    · have hlt := hold x hx
      rw [heq] at hlt
      omega
    · rw [List.mem_singleton.1 hx] at heq
      exact hij heq
  obtain ⟨hlast, hdrop'⟩ := Grew.drop [] hdrop hr fun x hx heq => by
    rw [List.append_nil] at hx
    have hlt := hold x hx
    rw [heq] at hlt
    omega
  have hsizes : i.source.index < k.aliases.size ∧ j.source.index < k.aliases.size := by
    rw [hj.size, hi.size]
    omega
  have hcondition : i.condition.index < k.entries.size := hi.condition.trans_le hj.grew.kept.entries
  have hi' : i.source.index < h.aliases.size := by
    rw [hi.size]
    omega
  have hkept : ∀ C, S.request ∈ C → ⟨g.requests.size⟩ ∈ C → k.Kept C []
      (((k.dropJoin S.request j.source).dropJoin S.request i.source).nest S.request j.source
        [⟨i.source, .inner, j.condition⟩] i.condition) := by
    intro C hr hchild
    refine ((Graph.Kept.dropJoin k hr _).trans (.dropJoin _ hr _)).trans
      ((kept_nest _ _ _ _ _).mono (fun q hq _ => ?_) (by simp))
    rw [List.mem_singleton.1 hq, Graph.size_requests_dropJoin, Graph.size_requests_dropJoin,
      hj.grew.size, hi.grew.size]
    exact hchild
  have hkept' := hkept [S.request, ⟨g.requests.size⟩] (by simp) (by simp)
  have hlinkOrigin : (k.aliasOf i.source).origin = .table link := by
    rw [hj.grew.kept.origin hi', hi.origin, hd]
  have hcompares : k.Compares i.condition i.source ownerColumn owner key :=
    hj.grew.kept.compares hi.compares
  refine ⟨hfirst, hlast, opened_nest hdrop' hr hsizes.2 ?_ hcondition, ?_, ?_, ?_, ?_, ?_⟩
  · exact fun x hx => by
      rw [List.mem_singleton.1 hx]
      exact ⟨hsizes.1, hj.condition⟩
  · omega
  · rw [hkept'.params _ hsizes.2 List.not_mem_nil, hj.params, hparams']
  · intro x hx
    rw [List.mem_singleton.1 hx]
    refine ⟨hindex.1.ge, hij, ?_, fun o q via => ?_⟩
    · rw [hkept'.params _ hsizes.1 List.not_mem_nil, hj.grew.kept.params _ hi' List.not_mem_nil,
        hi.params, hparams]
    · rw [hkept'.route hsizes.1, hj.grew.kept.route hi', hi.route]
      exact hroute o q via
  · have howner' := howner.trans_le (hi.grew.kept.aliases.trans hj.grew.kept.aliases)
    exact ⟨_, _, _, _, hkept'.compares hcompares,
      hsizes.1.trans_le hkept'.aliases, howner'.trans_le hkept'.aliases⟩
  · intro G μ A ρ hG hμ keep hkeep
    have hall := (hkept (⟨g.requests.size⟩ :: S.opened) (by simp [Site.opened]) (by simp)).mono
      (D := ⟨g.requests.size⟩ :: S.opened) (B := A) (fun _ h _ => h) (by simp)
    have hlater := hall.trans hG
    have howner' : owner ≠ j.source ∧ owner ≠ i.source := by
      constructor <;> rintro rfl <;> omega
    have htie := hlater.compares hcompares
    have hlink := hlater.compares hj.compares
    have hpartners : ∀ σ, (G.evaluator st.engine st.database).partners
        ⟨i.source, .inner, j.condition⟩ σ = _ :=
      partners_inner rfl ((hlater.origin hsizes.1).trans hlinkOrigin)
    rw [List.foldl_cons, List.foldl_nil,
      Graph.source_of_table ((hlater.origin hsizes.2).trans (hj.origin.trans hd')), hrelated, List.any_filter,
      List.any_flatMap, List.any_map]
    congr 1
    funext row
    rw [Function.comp_apply, hpartners, List.any_filter, List.any_map, List.and_any_distrib_right]
    congr 1
    funext l
    rw [Function.comp_apply, holds_compares hμ hlink, holds_compares hμ htie,
      hkeep _ List.mem_cons_self, Function.update_self, Function.update_of_ne hij.symm,
      Function.update_self, Function.update_of_ne howner'.2, Function.update_of_ne howner'.1,
      ← Bool.and_assoc, Bool.and_comm (st.equals _ _)]

/-- **A relation to many opens a request over the related rows.** -/
theorem runs_relation (hc : st.catalog.validate = .ok ()) (hs : Ready st S s)
    (howner : owner.index < s.graph.aliases.size) {stored : PropertyMapping}
    (hp : st.catalog.propertyMapping p = .ok stored) {target : String}
    (ht : Filter.relationTarget? stored = some target) (e e' : Expr) :
    ∃ a t H links tie, Runs (resolveMember e owner p) s (.row a) t ∧ t.active = some S.request ∧
      t.graph.requestOver? S.request a = none ∧
      Runs (hoist e' a) t ⟨s.graph.requests.size⟩ { s with graph := H } ∧
      Relates st S s.graph owner p H a links tie := by
  obtain ⟨name, column, kind⟩ := stored
  have hr := hs.fits.request_lt
  have hp' := hp
  rw [← hs.catalog] at hp'
  cases kind with
  | scalar t nullable length => cases ht
  | reference target => cases ht
  | collection target' =>
    obtain ⟨⟨table, targetKey, htable, htarget⟩, hkey⟩ := Catalog.target_of_validate hc hp rfl
    obtain ⟨key, hkey⟩ := hkey rfl
    have hrelated : ∀ row, st.related row p = (st.database.rows table).filter fun t =>
        st.equals (t.value column) (row.value key) := by
      intro row
      rw [Store.related, hp, hkey]
      dsimp only
      rw [htable]
    rw [← hs.catalog] at htable htarget hkey
    let d : Alias := { Alias.ofTable table target' (some targetKey) with
                       route := .navigation owner p none }
    obtain ⟨h, hh⟩ : ∃ h, h = (s.graph.addAlias d).2.joinEqual S.request ⟨s.graph.aliases.size⟩
      s.widen ⟨s.graph.aliases.size⟩ column owner key := ⟨_, rfl⟩
    obtain ⟨j, hj⟩ := joins_joinEqual hs.fits.sound hr (fun q hq => by cases hq) hh
    have hj' := hj
    rw [← hj.source] at hj'
    obtain ⟨hfirst, hrelates⟩ := relates_collection hs.fits howner hj' rfl rfl hrelated
    have hvia : (h.aliasOf j.source).via? = none := by rw [Alias.via?, hj.route]
    refine ⟨j.source, { s with graph := h }, _, [], j.condition,
      runs_member (x := .row j.source) hs ?_ e, hs.active, ?_, ?_, hrelates⟩
    · refine Mapping.runs_locate.2 ⟨_, hp', j.source, rfl, Mapping.runs_joinCollection.2 ?_⟩
      rw [hj.source]
      exact ⟨table, targetKey, key, htable, htarget, hkey, rfl, hh⟩
    · exact hj.grew.requestOver?_eq_none hs.fits.sound (by rw [hj.source]) _
    · have hrun := runs_hoist_plain (s := { s with graph := h }) e' hs.active hfirst hvia
      rwa [hj.grew.size] at hrun
  | manyToMany target' link ownerColumn targetColumn =>
    obtain ⟨⟨table, targetKey, htable, htarget⟩, hkey⟩ := Catalog.target_of_validate hc hp rfl
    obtain ⟨key, hkey⟩ := hkey rfl
    have hrelated : ∀ row, st.related row p = (st.database.rows table).filter fun t =>
        (st.database.rows link).any fun l =>
          st.equals (l.value ownerColumn) (row.value key) &&
            st.equals (t.value targetKey) (l.value targetColumn) := by
      intro row
      rw [Store.related, hp, hkey]
      dsimp only
      rw [htable, htarget]
    rw [← hs.catalog] at htable htarget hkey
    let d : Alias := { Alias.ofTable table target' (some targetKey) with
                       route := .navigation owner p (some ⟨s.graph.aliases.size⟩) }
    obtain ⟨h, hh⟩ : ∃ h, h = Mapping.joinLink s.graph S.request owner p link ownerColumn key s.widen :=
      ⟨_, rfl⟩
    obtain ⟨i, hi⟩ := joins_joinEqual hs.fits.sound hr (fun q hq => by cases hq) hh
    obtain ⟨k, hk⟩ : ∃ k, k = (h.addAlias d).2.joinEqual S.request ⟨h.aliases.size⟩ s.widen
      ⟨h.aliases.size⟩ targetKey i.source targetColumn := ⟨_, rfl⟩
    obtain ⟨j, hj⟩ := joins_joinEqual hi.grew.sound (by rw [hi.grew.size]; exact hr)
      (fun q hq => by cases hq) hk
    have hi' := hi
    rw [← hi.source] at hi'
    have hj' := hj
    rw [← hj.source] at hj'
    obtain ⟨hfirst, hlast, hrelates⟩ := relates_linked hs.fits howner hi' hj' rfl
      (fun o q via hroute => by cases hroute) rfl rfl rfl hrelated
    have hvia : (k.aliasOf j.source).via? = some i.source := by rw [Alias.via?, hj.route, hi.source]
    refine ⟨j.source, { s with graph := k }, _, _, i.condition,
      runs_member (x := .row j.source) hs ?_ e, hs.active, ?_, ?_, hrelates⟩
    · refine Mapping.runs_locate.2 ⟨_, hp', j.source, rfl, Mapping.runs_joinLinked.2 ?_⟩
      rw [hj.source, hi.size]
      refine ⟨table, targetKey, key, htable, htarget, hkey, rfl, ?_⟩
      rw [hk, hi.size, hi.source, hh]
    · exact (hi.grew.trans hj.grew).requestOver?_eq_none hs.fits.sound
        (by rw [hj.source, hi.size]; exact Nat.le_succ _) _
    · have hrun := runs_hoist_linked (s := { s with graph := k }) e' hs.active hfirst hvia hlast
      rwa [hj.grew.size, hi.grew.size] at hrun

end Relations

end EntityQuery
