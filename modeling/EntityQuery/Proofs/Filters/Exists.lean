import EntityQuery.Proofs.Filters.Related

/-!
Conditions that a related row exists.

* Inside a request over related rows, a filter is compiled as outside, with one more parameter in
  scope (`fits_inside`).
* `Inside.isEmpty`: the request has a row if and only if one of the related rows satisfies the filter.
-/

namespace EntityQuery

open Sql Store Compile

variable {st : Store} {S : Site}

/-! ### Inside a request -/

/-- The site inside a request over related rows. -/
def Site.inside (S : Site) (g H : Graph) (a : AliasId) (links : List Join) (x : ParamId)
    (target : String) : Site where
  request := ⟨g.requests.size⟩
  around := S.opened
  links := links
  fresh := H.aliases.size
  scope := (x, target) :: S.scope
  place := Function.update S.place x a

section Inside

variable {c : Catalog} {g H : Graph} {owner a : AliasId} {p : PropertyRef} {links : List Join}
  {tie : NodeId} {x : ParamId} {target : String}

lemma Relates.base_lt (h : Relates st S g owner p H a links tie) : a.index < H.aliases.size := by
  obtain ⟨projection, idColumn, hchild⟩ := h.opened.child
  refine h.opened.sound.source ⟨g.requests.size⟩ a ?_
  rw [hchild]
  exact Request.mem_origins.2 (.inl rfl)

lemma Relates.link_lt (h : Relates st S g owner p H a links tie) {j : Join} (hj : j ∈ links) :
    j.source.index < H.aliases.size := by
  obtain ⟨projection, idColumn, hchild⟩ := h.opened.child
  exact h.opened.sound.source_lt (r := ⟨g.requests.size⟩) (by rw [hchild]; exact hj)

/-- Nothing outside changes when a parameter is bound inside. -/
lemma Relates.kept_bind (h : Relates st S g owner p H a links tie) (x : ParamId) :
    g.Kept [S.request] [] (H.bind a x) := by
  have hbind : H.Kept [S.request] [a] (H.bind a x) := .bind H List.mem_cons_self x
  refine ((h.opened.kept.mono (fun _ hq _ => hq) (by simp)).trans hbind).mono (fun _ hq _ => hq) ?_
  intro b hb hlt
  rw [List.mem_singleton.1 hb] at hlt
  have := h.base
  omega

/-- Inside, the new parameter stands for the related row. -/
lemma Relates.boundSource?_self (h : Relates st S g owner p H a links tie) :
    (H.bind a x).boundSource? x ⟨g.requests.size⟩ = some a := by
  obtain ⟨projection, idColumn, hchild⟩ := h.opened.child
  rw [Graph.boundSource?, Graph.request_bind, hchild]
  have hcontains : ((H.bind a x).aliasOf a).params.contains x = true := by
    rw [Graph.aliasOf_bind_self _ _ h.base_lt, h.params]
    simp
  simp only [Request.sources, Option.toList_some, List.singleton_append, List.find?_cons, hcontains]

/-- Inside, no other parameter is bound. -/
lemma Relates.boundSource?_of_ne (h : Relates st S g owner p H a links tie) {y : ParamId}
    (hy : y ≠ x) : (H.bind a x).boundSource? y ⟨g.requests.size⟩ = none := by
  obtain ⟨projection, idColumn, hchild⟩ := h.opened.child
  rw [Graph.boundSource?, Graph.request_bind, hchild, List.find?_eq_none]
  intro b hb
  simp only [Request.sources, Option.toList_some, List.singleton_append] at hb
  rcases List.mem_cons.1 hb with rfl | hb
  · rw [Graph.aliasOf_bind_self _ _ h.base_lt, h.params]
    simpa using hy
  · obtain ⟨j, hj, rfl⟩ := List.mem_map.1 hb
    obtain ⟨-, hne, hparams, -⟩ := h.link j hj
    rw [Graph.aliasOf_bind_of_ne _ _ hne, hparams]
    simp

/-- A filter can be compiled inside. -/
lemma fits_inside (hg : S.Fits c g) (h : Relates st S g owner p H a links tie) :
    (S.inside g H a links x target).Fits c (H.bind a x) := by
  obtain ⟨projection, idColumn, hchild⟩ := h.opened.child
  have hkept := h.kept_bind x
  refine ⟨h.opened.sound.bind a x, ?_, ?_, ?_, ?_, ?_, ?_⟩
  · intro q hq
    rw [Graph.requests_bind, h.opened.size]
    rcases List.mem_cons.1 hq with rfl | hq
    · exact Nat.lt_succ_self _
    · exact (hg.opened q hq).trans (Nat.lt_succ_self _)
  · rw [Graph.size_aliases_bind]
    exact le_rfl
  · intro y
    by_cases hy : y = x
    · subst hy
      simpa [Site.inside] using h.base_lt
    · have hlt := (hg.place_lt y).trans_le h.opened.kept.aliases
      simpa [Site.inside, Function.update_of_ne hy] using hlt
  · intro y entity hscope
    by_cases hy : y = x
    · subst hy
      have hself := h.boundSource?_self (x := y)
      have henclosing : (H.bind a y).enclosing? (fun q => ((H.bind a y).boundSource? y q).isSome)
          ⟨g.requests.size⟩ = some ⟨g.requests.size⟩ := by
        rw [Graph.enclosing?, Graph.enclosingWithin, if_pos (by rw [hself]; rfl)]
      simp only [Site.inside, Function.update_self]
      rw [Graph.aliasFor?, henclosing, Option.bind_some, hself]
    · have hbeq : (y == x) = false := by simpa using hy
      have hscope' : S.scope.lookup y = some entity := by
        simpa only [Site.inside, List.lookup_cons, hbeq] using hscope
      have hsame : (H.bind a x).request S.request = g.request S.request := h.opened.same
      have hgrown : g.Grown S.request (H.bind a x) := .of_kept hkept hsame
      have hsize : g.requests.size < (H.bind a x).requests.size := by
        rw [Graph.requests_bind, h.opened.size]
        exact Nat.lt_succ_self _
      simp only [Site.inside, Function.update_of_ne hy]
      refine hgrown.aliasFor?_inside hg.sound hsize ?_ (h.boundSource?_of_ne hy) (hg.bound y entity hscope')
      rw [Graph.request_bind, hchild]
  · intro j hj o q via
    rw [Alias.route_eq_of_bare (H.bare_bind a j.source x)]
    exact (h.link j hj).2.2.2 o q via
  · refine ⟨[], ?_, List.Pairwise.nil, by simp⟩
    change (H.request ⟨g.requests.size⟩).joins = links ++ []
    rw [hchild, List.append_nil]

end Inside

/-! ### Finished requests -/

section Finished

/-- A request has got its filter and become a condition. -/
structure Finished (S : Site) (child : RequestId) (a : AliasId) (tie n : NodeId) (g K : Graph)
    (found : NodeId) : Prop where
  kept : g.Kept [child] [] K
  sound : K.Sound S.opened
  lt : found.index < K.entries.size
  nodes : ∃ test item sub, K.request child =
      { g.request child with filter := some test, items := [{ node := item }] } ∧
    K.node test = .binary .and tie n ∧ K.node item = .column a allColumns ∧
    K.node sub = .sub child ∧ K.node found = .unary .exists (some sub)

variable {child : RequestId} {a : AliasId} {tie n : NodeId} {g : Graph}

/-- The graph with a finished request. -/
def Sql.Graph.finish (g : Graph) (child : RequestId) (a : AliasId) (n : NodeId) : NodeId × Graph :=
  let g := g.andFilter child n
  let (item, g) := g.add (.column a allColumns)
  let g := g.pushItem child { node := item }
  let (sub, g) := g.add (.sub child)
  g.add (.unary .exists (some sub))

lemma finished_finish (hg : g.Sound (child :: S.opened)) (hchild : child.index < g.requests.size)
    (hopened : child ∉ S.opened) (hfilter : (g.request child).filter = some tie)
    (hitems : (g.request child).items = []) (hn : n.index < g.entries.size) :
    Finished S child a tie n g (g.finish child a n).2 (g.finish child a n).1 := by
  have htie : tie.index < g.entries.size :=
    hg.clause child tie (Request.mem_clauseNodes.2 (.inr (.inr (.inl hfilter))))
  obtain ⟨g₁, hg₁⟩ : ∃ g₁, g₁ = (g.add (.binary .and tie n)).2 := ⟨_, rfl⟩
  obtain ⟨g₂, hg₂⟩ : ∃ g₂, g₂ = g₁.setFilter child ⟨g.entries.size⟩ := ⟨_, rfl⟩
  obtain ⟨g₃, hg₃⟩ : ∃ g₃, g₃ = (g₂.add (.column a allColumns)).2 := ⟨_, rfl⟩
  obtain ⟨g₄, hg₄⟩ : ∃ g₄, g₄ = g₃.pushItem child { node := ⟨g₂.entries.size⟩ } := ⟨_, rfl⟩
  obtain ⟨g₅, hg₅⟩ : ∃ g₅, g₅ = (g₄.add (.sub child)).2 := ⟨_, rfl⟩
  obtain ⟨K, hK⟩ : ∃ K, K = (g₅.add (.unary .exists (some ⟨g₄.entries.size⟩))).2 := ⟨_, rfl⟩
  have hfinish : g.finish child a n = (⟨g₅.entries.size⟩, K) := by
    rw [Graph.finish, Graph.andFilter_of_some g n hfilter, ← hg₁, ← hg₂, hK, hg₅, hg₄, hg₃]
    rfl
  rw [hfinish]
  -- every part is added to the graph of the one before
  have hmem : child ∈ [child] := List.mem_cons_self
  have k₁ : g.Kept [child] [] g₁ := hg₁ ▸ .add _ _ g _
  have k₂ : g₁.Kept [child] [] g₂ := hg₂ ▸ .setFilter g₁ hmem _
  have k₃ : g₂.Kept [child] [] g₃ := hg₃ ▸ .add _ _ g₂ _
  have k₄ : g₃.Kept [child] [] g₄ := hg₄ ▸ .pushItem g₃ hmem _
  have k₅ : g₄.Kept [child] [] g₅ := hg₅ ▸ .add _ _ g₄ _
  have k₆ : g₅.Kept [child] [] K := hK ▸ .add _ _ g₅ _
  have s₁ : g₁.entries.size = g.entries.size + 1 := by rw [hg₁, Graph.size_entries_add]
  have s₂ : g₂.entries.size = g.entries.size + 1 := by rw [hg₂, Graph.size_entries_setFilter, s₁]
  have s₃ : g₃.entries.size = g₂.entries.size + 1 := by rw [hg₃, Graph.size_entries_add]
  have s₄ : g₄.entries.size = g₂.entries.size + 1 := by rw [hg₄, Graph.size_entries_pushItem, s₃]
  have s₅ : g₅.entries.size = g₄.entries.size + 1 := by rw [hg₅, Graph.size_entries_add]
  have s₆ : K.entries.size = g₅.entries.size + 1 := by rw [hK, Graph.size_entries_add]
  have r₁ : child.index < g₁.requests.size := hchild.trans_le k₁.requests
  have r₃ : child.index < g₃.requests.size := r₁.trans_le (k₂.requests.trans k₃.requests)
  have hsound₂ : g₂.Sound (child :: S.opened) := by
    rw [hg₂, hg₁]
    exact (hg.add (Node.forall_children_binary htie hn) (by simp)).setFilter List.mem_cons_self (by simp)
  have hsound₄ : g₄.Sound (child :: S.opened) := by
    rw [hg₄, hg₃]
    exact (hsound₂.add (by simp [Node.children]) (by simp)).pushItem List.mem_cons_self (by simp)
  have hsound₅ : g₅.Sound S.opened := by
    rw [hg₅]
    refine hsound₄.close.add (by simp [Node.children]) fun r hr => ?_
    cases hr
    exact ⟨hopened, r₃.trans_le k₄.requests⟩
  refine ⟨((((k₁.trans k₂).trans k₃).trans k₄).trans k₅).trans k₆, ?_, ?_, ⟨g.entries.size⟩,
    ⟨g₂.entries.size⟩, ⟨g₄.entries.size⟩, ?_, ?_, ?_, ?_, ?_⟩
  · rw [hK]
    refine hsound₅.add (fun c hc => ?_) (by simp)
    simp only [Node.children, Option.toList_some, List.mem_singleton] at hc
    rw [hc, s₅]
    exact Nat.lt_succ_self _
  · rw [s₆]
    exact Nat.lt_succ_self _
  · rw [hK, Graph.request_add, hg₅, Graph.request_add, hg₄, Graph.request_pushItem_self _ r₃, hg₃,
      Graph.request_add, hg₂, Graph.request_setFilter_self _ _ r₁, hg₁, Graph.request_add, hitems]
    rfl
  · rw [k₆.node _ (by simp; omega), k₅.node _ (by simp; omega), k₄.node _ (by simp; omega),
      k₃.node _ (by simp; omega), k₂.node _ (by simp; omega), hg₁, Graph.node_add_self]
  · rw [k₆.node _ (by simp; omega), k₅.node _ (by simp; omega), k₄.node _ (by simp; omega), hg₃,
      Graph.node_add_self]
  · rw [k₆.node _ (by simp; omega), hg₅, Graph.node_add_self]
  · rw [hK, Graph.node_add_self]

end Finished

/-! ### The rows of a finished request -/

lemma truthAnd_beq (b c : Option Bool) :
    (truthAnd b c == some true) = (b == some true && c == some true) := by
  rcases b with _ | _ | _ <;> rcases c with _ | _ | _ <;> rfl

lemma isEmpty_filter {α : Type} (test : α → Bool) (as : List α) :
    (as.filter test).isEmpty = !as.any test := by
  induction as with
  | nil => rfl
  | cons a as ih => cases h : test a <;> simp [h, ih]

/-- A filter has been compiled inside a request over related rows, and the request is finished. -/
structure Inside (st : Store) (S : Site) (g : Graph) (owner : AliasId) (p : PropertyRef) (H : Graph)
    (a : AliasId) (links : List Join) (tie : NodeId) (I : Site) (u v : CompileState) (n : NodeId)
    (f : Env → Option Bool) (K : Graph) (found : NodeId) : Prop where
  fits : S.Fits st.catalog g
  relates : Relates st S g owner p H a links tie
  site : ∃ x target, I = S.inside g H a links x target ∧ u.graph = H.bind a x
  decided : Decided st I u v n f
  column : (v.graph.node n).isColumn = false
  finished : Finished S I.request a tie n v.graph K found

namespace Inside

variable {g H K G : Graph} {owner a : AliasId} {p : PropertyRef} {links : List Join} {tie n found : NodeId}
  {I : Site} {u v : CompileState} {f : Env → Option Bool} {A : List AliasId} {μ : Part → Nat}
  (h : Inside st S g owner p H a links tie I u v n f K found) (hG : K.Kept S.opened A G)
include h

lemma eqs : I.request = ⟨g.requests.size⟩ ∧ I.opened = ⟨g.requests.size⟩ :: S.opened ∧
    I.links = links ∧ I.fresh = H.aliases.size := by
  obtain ⟨x, target, rfl, -⟩ := h.site
  exact ⟨rfl, rfl, rfl, rfl⟩

lemma not_mem : I.request ∉ S.opened := by
  rw [h.eqs.1]
  exact fun hmem => (h.fits.opened _ hmem).false

/-- What was there when the request was opened is there when the filter has been compiled. -/
lemma kept_opened : H.Kept I.opened [a] v.graph := by
  obtain ⟨x, target, rfl, hu⟩ := h.site
  have hbind : H.Kept (S.inside g H a links x target).opened [a] (H.bind a x) :=
    .bind H List.mem_cons_self x
  rw [← hu] at hbind
  refine hbind.trans (h.decided.step.grown.kept.mono (fun q hq _ => ?_) (by simp))
  exact List.mem_cons.2 (.inl (List.mem_singleton.1 hq))

/-- The request starts with its link tables. -/
lemma joins_start : I.joins u = links := by
  obtain ⟨projection, idColumn, hchild⟩ := h.relates.opened.child
  obtain ⟨x, target, rfl, hu⟩ := h.site
  rw [Site.joins, hu, Graph.request_bind]
  change (H.request ⟨g.requests.size⟩).joins = _
  rw [hchild]

include hG

/-- What was there when the filter was compiled is there later. -/
lemma kept : v.graph.Kept I.opened A G := by
  refine (h.finished.kept.mono (fun q hq _ => ?_) (by simp)).trans
    (hG.mono (fun q hq _ => ?_) fun _ hb _ => hb)
  · exact List.mem_cons.2 (.inl (List.mem_singleton.1 hq))
  · rw [h.eqs.2.1]
    exact List.mem_cons_of_mem _ hq

/-- The clauses of the request. -/
lemma request : ∃ test item refs projection idColumn,
    G.request I.request =
      { parent := some S.request, base := some a, joins := links ++ refs, filter := some test,
        items := [{ node := item }], projection := projection, idColumn := idColumn } ∧
    G.node test = .binary .and tie n ∧ G.node item = .column a allColumns ∧ Rising refs ∧
    I.joins v = links ++ refs ∧
    ∀ j ∈ refs, G.IsReference st.catalog j ∧ I.fresh ≤ j.source.index := by
  obtain ⟨test, item, sub, hrequest, htest, hitem, -, -⟩ := h.finished.nodes
  obtain ⟨projection, idColumn, hchild⟩ := h.relates.opened.child
  obtain ⟨refs, hrefs, hrising, href⟩ := h.decided.step.fits.joins
  obtain ⟨x, target, -, hu⟩ := h.site
  have hlt := h.decided.step.fits.request_lt.trans_le h.finished.kept.requests
  refine ⟨test, item, refs, projection, idColumn, ?_, hG.node_eq htest nofun, hG.node_eq hitem nofun,
    hrising, by rw [Site.joins, hrefs, h.eqs.2.2.1], fun j hj => ⟨?_, (href j hj).2⟩⟩
  · have hframe := h.decided.step.grown.frame
    rw [hrefs, h.eqs.2.2.1, hu, Graph.request_bind, h.eqs.1, hchild] at hframe
    rw [hG.request _ hlt h.not_mem, hrequest, h.eqs.1, hframe]
  · exact (href j hj).1.kept (h.kept hG)

/-- With all references in place, what the filter says can be seen. -/
lemma view {refs : List Join} (hrefs : I.joins v = links ++ refs) (hrising : Rising refs)
    (href : ∀ j ∈ refs, G.IsReference st.catalog j) (ρ : Env) :
    View st I v G (st.settle G refs ρ) := by
  refine ⟨⟨A, h.kept hG⟩, ?_⟩
  intro b hb o q hroute
  rw [hrefs, List.map_append] at hb
  rcases List.mem_append.1 hb with hb | hb
  · obtain ⟨j, hj, rfl⟩ := List.mem_map.1 hb
    have hlt : j.source.index < v.graph.aliases.size :=
      h.decided.step.fits.sound.source_lt (r := I.request) (by
        change j ∈ I.joins v
        rw [hrefs]
        exact List.mem_append_left _ hj)
    rw [(h.kept hG).route hlt] at hroute
    exact absurd hroute (h.decided.step.fits.links j (by rw [h.eqs.2.2.1]; exact hj) o q none)
  · exact settled_settle hrising href ρ b hb o q hroute

omit h hG in
/-- Sources that are older than the references keep their places. -/
lemma settle_of_lt {refs : List Join} {k : Nat} (hrefs : ∀ j ∈ refs, k ≤ j.source.index) {b : AliasId}
    (hb : b.index < k) (ρ : Env) : st.settle G refs ρ b = ρ b := by
  refine settle_of_not_mem (fun j hj heq => ?_) ρ
  have := hrefs j hj
  rw [heq] at this
  omega

omit hG in
/-- The filter inside looks at no reference of the request by itself. -/
lemma settle_eq {F : (ParamId → Row) → Option Bool} (hf : f = fun σ => F fun y => σ (I.place y))
    {refs : List Join} (href : ∀ j ∈ refs, I.fresh ≤ j.source.index) (ρ : Env) :
    f (st.settle G refs ρ) = f ρ := by
  rw [hf]
  dsimp only
  congr 1
  funext y
  exact settle_of_lt href (h.decided.step.fits.place y) ρ

/-- The filter of the request is true where the tie and the filter inside are. -/
lemma holds_test (hμ : G.Ranked μ) {F : (ParamId → Row) → Option Bool}
    (hf : f = fun σ => F fun y => σ (I.place y)) {test : NodeId} (htest : G.node test = .binary .and tie n)
    {refs : List Join} (hrefs : I.joins v = links ++ refs) (hrising : Rising refs)
    (href : ∀ j ∈ refs, G.IsReference st.catalog j ∧ I.fresh ≤ j.source.index) (ρ : Env) :
    ((G.evaluator st.engine st.database).term test).holds (st.settle G refs ρ) =
      (((G.evaluator st.engine st.database).term tie).holds ρ && f ρ == some true) := by
  have hview := h.view hG hrefs hrising (fun j hj => (href j hj).1) ρ
  have hplace : f (st.settle G refs ρ) = f ρ := h.settle_eq hf (fun j hj => (href j hj).2) ρ
  obtain ⟨x, c, y, c', hcompares, hx, hy⟩ := h.relates.equates
  have hcompares' : G.Compares tie x c y c' := (h.kept hG).compares (h.kept_opened.compares hcompares)
  have hsame : ((G.evaluator st.engine st.database).term tie).holds (st.settle G refs ρ) =
      ((G.evaluator st.engine st.database).term tie).holds ρ := by
    have hfresh : ∀ j ∈ refs, H.aliases.size ≤ j.source.index := fun j hj =>
      h.eqs.2.2.2 ▸ (href j hj).2
    rw [holds_compares hμ hcompares', holds_compares hμ hcompares', settle_of_lt hfresh hx,
      settle_of_lt hfresh hy]
  have htruth := h.decided.tells.truth G μ _ hμ hview
  rw [Store.truthAt, hview.node h.decided.tells.lt, h.column, if_neg Bool.false_ne_true, hplace] at htruth
  have hnull : (G.node tie).isNull = false := by
    obtain ⟨l, r, hnode, -⟩ := hcompares'
    rw [hnode]
    rfl
  have hnull' : (G.node n).isNull = false := by
    rw [hview.node h.decided.tells.lt, h.decided.tells.notNull]
  rw [← hsame, ← htruth, Term.holds, Term.alone, G.value_binary hμ _ _ htest hnull hnull',
    Engine.binary, isTrue_ofTruth, truthAnd_beq]
  rfl

/-- **The request has a row if and only if one of the related rows satisfies the filter.** -/
theorem isEmpty (hkeys : st.Keyed) (hμ : G.Ranked μ) {F : (ParamId → Row) → Option Bool}
    (hf : f = fun σ => F fun y => σ (I.place y)) (hlink : ∀ j ∈ links, ∀ y, I.place y ≠ j.source)
    (ρ : Env) :
    ((G.evaluator st.engine st.database).query I.request ρ).isEmpty =
      !((st.related (ρ owner) p).any fun row => f (Function.update ρ a row) == some true) := by
  obtain ⟨test, item, refs, projection, idColumn, hrequest, htest, hitem, hrising, hrefs, href⟩ :=
    h.request hG
  have hholds := h.holds_test hG hμ hf htest hrefs hrising href
  have hsummary : ((G.evaluator st.engine st.database).term item).summary = false := by
    rw [G.term_eq hμ, hitem]
    rfl
  have hland : ∀ ρ, ((G.evaluator st.engine st.database).term test).holds (st.settle G refs ρ) = true →
      ∀ j ∈ refs, j.kind = .inner → st.lands G j (st.settle G refs ρ) = true := by
    intro ρ htrue j hj hkind
    have hview := h.view hG hrefs hrising (fun j hj => (href j hj).1) ρ
    have hf' : f (st.settle G refs ρ) = some true := by
      rw [hholds, Bool.and_eq_true, beq_iff_eq] at htrue
      rw [h.settle_eq hf (fun j hj => (href j hj).2), htrue.2]
    refine (h.decided.strict G _ hview hf' j (by rw [hrefs]; exact List.mem_append_right _ hj)
      hkind).resolve_left fun hj' => ?_
    -- a link table is older than every reference
    rw [h.joins_start] at hj'
    have hlt := h.relates.link_lt hj'
    have hle := (href j hj).2
    rw [h.eqs.2.2.2] at hle
    omega
  have hkept : H.Kept (⟨g.requests.size⟩ :: S.opened) (a :: A) G := by
    rw [← h.eqs.2.1]
    exact (h.kept_opened.mono (fun _ hq _ => hq) (by simp)).trans
      ((h.kept hG).mono (fun _ hq _ => hq) fun b hb _ => List.mem_cons_of_mem _ hb)
  have hkeep : ∀ j ∈ links, ∀ σ row,
      (f (Function.update σ j.source row) == some true) = (f σ == some true) := by
    intro j hj σ row
    have hplaces : (fun y => Function.update σ j.source row (I.place y)) = fun y => σ (I.place y) :=
      funext fun y => Function.update_of_ne (hlink j hj y) _ _
    rw [hf]
    dsimp only
    rw [hplaces]
  rw [G.query_eq hμ, hrequest, Evaluator.request_of_plain _ ⟨rfl, rfl, rfl, rfl, rfl, rfl, rfl⟩
    (by simpa using hsummary), List.isEmpty_map]
  simp only [Evaluator.filtered, Evaluator.joined, List.foldl_append]
  rw [filter_foldl_partners hμ hkeys hrising (fun j hj => (href j hj).1) hland, List.isEmpty_map,
    isEmpty_filter]
  simp only [hholds]
  rw [h.relates.related G μ (a :: A) ρ hkept hμ (fun σ => f σ == some true) hkeep]

end Inside

/-! ### Compiling -/

/-- Nothing is related to a missing row. -/
lemma Store.related_nil (p : PropertyRef) : st.related [] p = [] := by
  have hnull : ∀ (v : Value) (key : String), st.equals v (Row.value [] key) = false := by
    intro v key
    simp [Store.equals, Engine.equal, Row.value, Value.isNull]
  unfold Store.related
  split
  · split
    · simp [hnull]
    · rfl
  · split
    · simp [hnull]
    · rfl
  · rfl

section Runs

variable {s t : CompileState} {r : RequestId} {a : AliasId} {n : NodeId}

/-- Without selected values, the row of a request is the one of its base. -/
lemma runs_rowOf (e : Expr) (hitems : (s.graph.request r).items = [])
    (hbase : (s.graph.request r).base = some a) : Runs (rowOf e r) s a s := by
  refine Runs.bind (runs_graph.2 ⟨rfl, rfl⟩) ?_
  dsimp only
  rw [hitems, hbase]
  exact runs_pure.2 ⟨rfl, rfl⟩

lemma runs_enter (e : Expr) (hitems : (s.graph.request r).items = [])
    (hbase : (s.graph.request r).base = some a) (x : Param) (body : Expr) :
    Runs (enter e r (.lambda [x] body)) s body { s with graph := s.graph.bind a x.id } :=
  Runs.bind (runs_rowOf e hitems hbase) (Runs.bind (a := ()) (runs_edit.2 rfl)
    (runs_pure.2 ⟨rfl, rfl⟩))

lemma runs_restrict (hgroups : (s.graph.request r).groups = []) (n : NodeId) :
    Runs (restrict r n) s () { s with graph := s.graph.andFilter r n } := by
  refine Runs.bind (runs_request.2 ⟨rfl, rfl⟩) ?_
  have hgrouped : (s.graph.request r).isGrouped = false := by
    rw [Request.isGrouped, hgroups]
    rfl
  rw [hgrouped, if_neg Bool.false_ne_true]
  exact runs_edit.2 rfl

lemma runs_selectAll (e : Expr) (hitems : (s.graph.request r).items = [])
    (hbase : (s.graph.request r).base = some a) :
    Runs (selectAll e r) s () { s with graph :=
      (s.graph.add (.column a allColumns)).2.pushItem r { node := ⟨s.graph.entries.size⟩ } } := by
  refine Runs.bind (runs_request.2 ⟨rfl, rfl⟩) ?_
  rw [hitems, hbase]
  exact Runs.bind (runs_add.2 ⟨rfl, rfl⟩) (runs_edit.2 rfl)

end Runs

/-- The condition of a lambda over the row of a request. -/
lemma runs_predicate {u : CompileState} {r : RequestId} {a : AliasId} {fuel : Nat} {x : Param}
    {b : Expr} {f : Env → Option Bool} (hitems : (u.graph.request r).items = [])
    (hbase : (u.graph.request r).base = some a) (hb : Decides st S b f)
    (hready : Ready st S { u with graph := u.graph.bind a x.id }) (hfuel : b.depth ≤ fuel) (e : Expr) :
    ∃ n v, Runs (predicate (visit [] fuel) e r (.lambda [x] b)) u n v ∧
      Decided st S { u with graph := u.graph.bind a x.id } v n f ∧
      (v.graph.node n).isColumn = false := by
  obtain ⟨n, v, hrun, hn⟩ := hb _ fuel hready hfuel
  obtain ⟨m, w, hrun', hstep, hjoins, hm, hcolumn⟩ := runs_condition (hn.step.ready hready) hn.tells
  refine ⟨m, w, ?_, ⟨hn.step.trans hstep, hm, ?_⟩, hcolumn⟩
  · exact Runs.bind (runs_enter e hitems hbase x b)
      (Runs.bind (runs_value hready hrun hn.step) hrun')
  · exact (hn.strict.trans hstep (.of_joins (P := fun _ => True) hjoins)).mono
      fun G ρ _ htrue => ⟨htrue, trivial⟩

/-- A request with a condition becomes a condition. -/
lemma runs_any {visit : Visit} {e arg f : Expr} (hgrouping : arg.type.isGrouping = false)
    {s t v : CompileState} {r outer : RequestId} {n tie : NodeId} {a : AliasId}
    (hreceiver : Runs (receiver visit e arg) s r t)
    (hpredicate : Runs (predicate visit e r f) { t with active := some r } n v)
    (hr : r.index < v.graph.requests.size) {q : Request} (hq : v.graph.request r = q)
    (hplain : q.parent = some outer ∧ q.base = some a ∧ q.groups = [] ∧ q.items = [] ∧
      q.filter = some tie) :
    Runs (any visit e arg [arg, f]) s (.value (v.graph.finish r a n).1)
      { v with graph := (v.graph.finish r a n).2, active := some outer } := by
  obtain ⟨hparent, hbase, hgroups, hitems, hfilter⟩ := hplain
  subst hq
  obtain ⟨g₁, hg₁⟩ : ∃ g₁, g₁ = v.graph.andFilter r n := ⟨_, rfl⟩
  have hsize : r.index < (v.graph.add (.binary .and tie n)).2.requests.size := by simpa using hr
  have hfiltered : g₁.request r = { v.graph.request r with filter := some ⟨v.graph.entries.size⟩ } := by
    rw [hg₁, Graph.andFilter_of_some _ n hfilter, Graph.request_setFilter_self _ _ hsize,
      Graph.request_add]
  have hrestrict : Runs (restrictBy visit e r (some f)) t () { v with graph := g₁, active := t.active } := by
    refine Runs.bind (runs_within.2 ⟨v, hpredicate, rfl⟩) ?_
    rw [hg₁]
    exact runs_restrict (s := { v with active := t.active }) hgroups n
  rw [any, hgrouping, if_neg Bool.false_ne_true]
  refine Runs.bind hreceiver (Runs.bind hrestrict (Runs.bind (runs_selectAll (a := a) e ?_ ?_)
    (Runs.bind (runs_add.2 ⟨rfl, rfl⟩) (Runs.bind (runs_add.2 ⟨rfl, rfl⟩)
    (Runs.bind (runs_request.2 ⟨rfl, rfl⟩) ?_)))))
  · rw [hfiltered, hitems]
  · rw [hfiltered, hbase]
  · have hlt : r.index < (g₁.add (.column a allColumns)).2.requests.size := by
      rw [Graph.requests_add, hg₁, Graph.andFilter_of_some _ n hfilter]
      simpa [Graph.setFilter] using hr
    obtain ⟨K, hK⟩ : ∃ K, K = (v.graph.finish r a n).2 := ⟨_, rfl⟩
    have houter : (K.request r).parent = some outer := by
      rw [hK, Graph.finish, ← hg₁]
      dsimp only
      rw [Graph.request_add, Graph.request_add, Graph.request_pushItem_self _ hlt, Graph.request_add,
        hfiltered, hparent]
    subst hg₁
    change Runs (if (((v.graph.finish r a n).2.request r).parent).isSome = true then _ else _)
      { v with graph := (v.graph.finish r a n).2, active := t.active } _ _
    rw [← hK, houter, Option.isSome_some, if_pos rfl]
    refine Runs.bind (a := ()) (runs_leave.2 rfl) (runs_pure.2 ⟨?_, ?_⟩)
    · rfl
    · dsimp only
      rw [houter]

/-- An operator on a new relation to many works on a request of its own. -/
lemma runs_receiver {visit : Visit} {e arg : Expr} {s t u : CompileState} {a : AliasId}
    {r q : RequestId} (hrun : Runs (visit arg) s (.row a) t) (hactive : t.active = some r)
    (hover : t.graph.requestOver? r a = none) (hhoist : Runs (hoist e a) t q u) :
    Runs (receiver visit e arg) s q u := by
  refine Runs.bind hrun (Runs.bind (runs_active.2 ⟨hactive, rfl⟩)
    (Runs.bind (runs_graph.2 ⟨rfl, rfl⟩) ?_))
  rw [hover]
  exact hhoist

/-! ### Conditions on related rows -/

section Condition

variable {g H K : Graph} {owner a : AliasId} {p : PropertyRef} {links : List Join}
  {tie n found : NodeId} {x : ParamId} {target : String} {u v : CompileState}
  {f : Env → Option Bool}

/-- No parameter stands for a link table. -/
lemma Relates.place_ne (h : Relates st S g owner p H a links tie) (hg : S.Fits st.catalog g)
    {j : Join} (hj : j ∈ links) (y : ParamId) :
    (S.inside g H a links x target).place y ≠ j.source := by
  obtain ⟨hle, hne, -⟩ := h.link j hj
  by_cases hy : y = x
  · subst hy
    simpa [Site.inside] using hne.symm
  · have hlt := hg.place_lt y
    intro heq
    simp only [Site.inside, Function.update_of_ne hy] at heq
    rw [heq] at hlt
    omega

/-- Inside, the new parameter stands for the row of the new source. -/
lemma Relates.place_update (h : Relates st S g owner p H a links tie) (hg : S.Fits st.catalog g)
    (ρ : Env) (row : Row) :
    (fun y => Function.update ρ a row ((S.inside g H a links x target).place y)) =
      Function.update (fun y => ρ (S.place y)) x row := by
  funext y
  by_cases hy : y = x
  · subst hy
    simp [Site.inside]
  · have hlt := hg.place_lt y
    have hne : S.place y ≠ a := by
      intro heq
      have := h.base
      rw [heq] at hlt
      omega
    simp [Site.inside, Function.update_of_ne hy, Function.update_of_ne hne]

/-- Outside, a finished request changes nothing. -/
lemma Inside.outside {I : Site} (h : Inside st S g owner p H a links tie I u v n f K found) :
    g.Kept [S.request] [] K ∧ K.request S.request = g.request S.request := by
  obtain ⟨x, target, hI, hu⟩ := h.site
  have hrequest : I.request = ⟨g.requests.size⟩ := h.eqs.1
  have hstep := h.decided.step.grown.kept
  rw [hu] at hstep
  have hlt : S.request.index < g.requests.size := h.fits.request_lt
  have hne : S.request ∉ [I.request] := by
    intro hmem
    rw [List.mem_singleton.1 hmem, hrequest] at hlt
    exact hlt.false
  have hbind := h.relates.kept_bind x
  have hlt' : S.request.index < (H.bind a x).requests.size := hlt.trans_le hbind.requests
  constructor
  · refine ((hbind.mono (D := [S.request, I.request]) (B := []) (by simp) (by simp)).trans
      ((hstep.trans h.finished.kept).mono (by simp) (by simp))).mono (fun q hq hlt => ?_) (by simp)
    rcases List.mem_cons.1 hq with rfl | hq
    · exact List.mem_cons_self
    · rw [List.mem_singleton.1 hq, hrequest] at hlt
      exact absurd hlt (Nat.lt_irrefl _)
  · rw [(hstep.trans h.finished.kept).request _ hlt' hne, Graph.request_bind, h.relates.opened.same]

/-- A finished request says whether a related row satisfies the filter. -/
lemma Inside.truth {I : Site} (h : Inside st S g owner p H a links tie I u v n f K found)
    (hkeys : st.Keyed) {F : (ParamId → Row) → Option Bool}
    (hf : f = fun σ => F fun y => σ (I.place y)) {G : Graph} {A : List AliasId} {μ : Part → Nat}
    (hμ : G.Ranked μ) (hG : K.Kept S.opened A G) (ρ : Env) :
    st.truthAt G found ρ =
      some ((st.related (ρ owner) p).any fun row => f (Function.update ρ a row) == some true) := by
  obtain ⟨test, item, sub, -, -, -, hsub, hfound⟩ := h.finished.nodes
  have hfound' : G.node found = .unary .exists (some sub) := by rw [hG.node _ h.finished.lt, hfound]
  have hsub' : G.node sub = .sub I.request := hG.node_eq hsub nofun
  have hcolumn : (G.node found).isColumn = false := by
    rw [hfound']
    rfl
  obtain ⟨x, target, hI, -⟩ := h.site
  have hlink : ∀ j ∈ links, ∀ y, I.place y ≠ j.source := by
    rw [hI]
    exact fun j hj y => h.relates.place_ne h.fits hj y
  rw [Store.truthAt, hcolumn, if_neg Bool.false_ne_true, Store.valueAt, Term.alone,
    G.value_exists hμ ρ [ρ] hfound' hsub', h.isEmpty hG hkeys hμ hf hlink, Bool.not_not]
  rfl

end Condition

/-- A filter is compiled inside a request over related rows, and the request becomes a condition. -/
lemma runs_any_inside {s t : CompileState} (ht : Ready st S t) {H : Graph} {owner a : AliasId}
    {p : PropertyRef} {links : List Join} {tie : NodeId}
    (hrel : Relates st S t.graph owner p H a links tie) {x : Param} {target : String} {I : Site}
    (hI : I = S.inside t.graph H a links x.id target) {b : Expr} {f : Env → Option Bool}
    (hb : Decides st I b f) {fuel : Nat} (hfuel : b.depth ≤ fuel) {e arg : Expr}
    (hgrouping : arg.type.isGrouping = false)
    (hreceiver : Runs (receiver (visit [] fuel) e arg) s ⟨t.graph.requests.size⟩ { t with graph := H }) :
    ∃ u v n K found, Runs (any (visit [] fuel) e arg [arg, .lambda [x] b]) s (.value found)
        { t with graph := K } ∧
      Inside st S t.graph owner p H a links tie I u v n f K found := by
  obtain ⟨u, hu⟩ : ∃ u : CompileState, u =
    { t with graph := H.bind a x.id, active := some ⟨t.graph.requests.size⟩ } := ⟨_, rfl⟩
  have hready : Ready st I u := by
    rw [hI, hu]
    exact ⟨rfl, ht.paths, ht.computed, ht.equivalents, ht.catalog, fits_inside ht.fits hrel⟩
  obtain ⟨projection, idColumn, hchild⟩ := hrel.opened.child
  obtain ⟨n, v, hpredicate, hn, hcolumn⟩ := runs_predicate (a := a) (r := ⟨t.graph.requests.size⟩)
    (u := { t with graph := H, active := some ⟨t.graph.requests.size⟩ }) (by rw [hchild])
    (by rw [hchild]) hb (by rw [hu] at hready; exact hready) hfuel e
  change Decided st I { t with graph := H.bind a x.id, active := some ⟨t.graph.requests.size⟩ } v n f
    at hn
  rw [← hu] at hn
  have hrequest : I.request = ⟨t.graph.requests.size⟩ := by rw [hI]; rfl
  have hplain : v.graph.request I.request =
      { parent := some S.request, base := some a, joins := (v.graph.request I.request).joins,
        filter := some tie, projection := projection, idColumn := idColumn } := by
    have hframe := hn.step.grown.frame
    rw [hu, Graph.request_bind, hrequest, hchild] at hframe
    rw [hrequest, hframe]
  have hfinished : Finished S I.request a tie n v.graph (v.graph.finish I.request a n).2
      (v.graph.finish I.request a n).1 := by
    refine finished_finish ?_ hn.step.fits.request_lt ?_ ?_ ?_ hn.tells.lt
    · have hsound := hn.step.fits.sound
      rw [hI] at hsound ⊢
      exact hsound
    · rw [hrequest]
      exact fun hmem => (ht.fits.opened _ hmem).false
    · rw [hplain]
    · rw [hplain]
  refine ⟨u, v, n, _, _, ?_, ht.fits, hrel, ⟨x.id, target, hI, by rw [hu]⟩, hn, hcolumn, hfinished⟩
  have hstate : v = { t with graph := v.graph, active := some ⟨t.graph.requests.size⟩ } := by
    rw [hn.step.state, hu]
  have hrun := runs_any hgrouping hreceiver hpredicate (hrequest ▸ hn.step.fits.request_lt)
    (hrequest ▸ hplain) ⟨rfl, rfl, rfl, rfl, rfl⟩
  rw [hrequest]
  rw [hstate, ← ht.active] at hrun
  exact hrun

/-- **A condition on related rows is true if one of them satisfies the filter inside.** -/
theorem decides_any (hc : st.catalog.validate = .ok ()) (hkeys : st.Keyed) {m : Member}
    {stored : PropertyMapping} (hm : st.catalog.member? S.scope m = some stored) {target : String}
    (htarget : Filter.relationTarget? stored = some target) {x : Param} {b : Expr}
    {F : (ParamId → Row) → Option Bool}
    (hb : ∀ I : Site, I.scope = (x.id, target) :: S.scope →
      Decides st I b fun ρ => F fun y => ρ (I.place y)) :
    Decides st S (.call .any [m.expr, .lambda [x] b]) fun ρ =>
      some ((st.related (m.row st fun y => ρ (S.place y)) m.property).any fun row =>
        F (Function.update (fun y => ρ (S.place y)) x.id row) == some true) := by
  intro s fuel hs hfuel
  obtain ⟨fuel, rfl⟩ := fuel_succ hfuel
  simp only [Expr.depth, Expr.depthAll] at hfuel
  have hdepth : m.expr.depth = m.rowExpr.depth + 1 := rfl
  have hfuel' : m.expr.depth ≤ fuel := by omega
  obtain ⟨fuel, rfl⟩ := fuel_succ hfuel'
  obtain ⟨hp, htype, hrow⟩ := locates_member hc hm
  obtain ⟨owner, t, hrun, howner⟩ := hrow s fuel hs (by omega)
  have ht := howner.step.ready hs
  obtain ⟨a, t₁, H, links, tie, hmember, hactive, hover, hhoist, hrel⟩ :=
    runs_relation hc ht howner.lt hp htarget m.expr (.call .any [m.expr, .lambda [x] b])
  have hgrouping : m.expr.type.isGrouping = false := by
    change m.property.type.isGrouping = false
    rw [htype, PropertyMapping.type]
    cases stored.kind <;> rfl
  obtain ⟨I, hI⟩ : ∃ I, I = S.inside t.graph H a links x.id target := ⟨_, rfl⟩
  have hbody : b.depth ≤ fuel + 1 := by omega
  obtain ⟨u, v, n, K, found, hany, hinside⟩ := runs_any_inside ht hrel hI (hb I (by rw [hI]; rfl))
    hbody hgrouping (runs_receiver (runs_visit_member m.rowExpr_ne_key hrun hmember) hactive hover hhoist)
  obtain ⟨hkept, hsame⟩ := hinside.outside
  have hjoins : S.joins { t with graph := K } = S.joins t := congrArg Request.joins hsame
  have hstep : Step st S t { t with graph := K } :=
    ⟨rfl, ht.fits.of_kept hkept hinside.finished.sound hsame, .of_kept hkept hsame,
      fun _ j hj _ => hjoins ▸ hj⟩
  refine ⟨found, { t with graph := K }, hany, howner.step.trans hstep,
    ⟨hinside.finished.lt, ?_, fun G μ ρ hμ hv => ?_⟩, ?_⟩
  · obtain ⟨test, item, sub, -, -, -, -, hfound⟩ := hinside.finished.nodes
    change (K.node found).isNull = false
    rw [hfound]
    rfl
  · obtain ⟨A, hG⟩ := hv.kept
    rw [hinside.truth hkeys rfl hμ hG, howner.place G ρ (hstep.view hv), hI]
    simp only [hrel.place_update ht.fits]
  · refine (howner.strict.trans hstep (.of_joins (P := fun _ => True) hjoins)).mono
      fun G ρ _ htrue => ⟨fun hnil => ?_, trivial⟩
    rw [hnil, Store.related_nil] at htrue
    cases htrue

end EntityQuery
