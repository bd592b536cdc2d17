import EntityQuery.Proofs.Nesting.Graphs
import EntityQuery.Sql.Copy

/-!
Copies of values among requests that are being built.

* `After x g Q`: whenever copying succeeds from the graph `g`, the result and the new graph satisfy
  `Q`.
* A copied request is opened, filled and closed like any other: while it is filled, it is one of the
  requests that nothing holds. So a copy holds none of the requests around it.
-/

namespace EntityQuery.Sql

/-! ### What copying leaves -/

/-- Whenever copying succeeds from a graph, the result and the new graph satisfy `Q`. -/
def Copy.After {α : Type} (x : Copy α) (g : Graph) (Q : α → Graph → Prop) : Prop :=
  ∀ a h, x.run g = some (a, h) → Q a h

namespace Copy

variable {α β : Type} {g : Graph}

lemma after_pure {a : α} {Q : α → Graph → Prop} (h : Q a g) : After (pure a : Copy α) g Q := by
  intro b k hrun
  cases hrun
  exact h

lemma After.bind {x : Copy α} {k : α → Copy β} {R : α → Graph → Prop} {Q : β → Graph → Prop}
    (hx : After x g R) (hk : ∀ a h, R a h → After (k a) h Q) : After (x >>= k) g Q := by
  intro b h' hrun
  rw [StateT.run_bind] at hrun
  cases hrunx : x.run g with
  | none =>
    rw [hrunx] at hrun
    cases hrun
  | some p =>
    rw [hrunx] at hrun
    exact hk p.1 p.2 (hx p.1 p.2 hrunx) b h' hrun

lemma After.mono {x : Copy α} {R Q : α → Graph → Prop} (hx : After x g R)
    (hRQ : ∀ a h, R a h → Q a h) : After x g Q := fun a h hrun => hRQ a h (hx a h hrun)

lemma after_lift {x : Build α} {Q : α → Graph → Prop} (h : Q (x.run g).1 (x.run g).2) :
    After (liftM x : Copy α) g Q := by
  intro a k hrun
  have hpair : x.run g = (a, k) := Option.some.inj hrun
  rw [hpair] at h
  exact h

lemma after_modify {f : Graph → Graph} {Q : PUnit → Graph → Prop} (h : Q ⟨⟩ (f g)) :
    After (modify f : Copy PUnit) g Q := by
  intro a k hrun
  cases hrun
  exact h

lemma after_failure {Q : α → Graph → Prop} : After (failure : Copy α) g Q := by
  intro a h hrun
  cases hrun

/-- An invariant of a loop over a list. -/
lemma after_forM {f : α → Copy PUnit} {I : Graph → Prop} (as : List α)
    (hf : ∀ a ∈ as, ∀ h, I h → After (f a) h fun _ => I) (hg : I g) :
    After (as.forM f) g fun _ => I := by
  induction as generalizing g with
  | nil => exact after_pure hg
  | cons a as ih =>
    refine (hf a List.mem_cons_self g hg).bind fun _ h hh => ?_
    exact ih (fun b hb => hf b (List.mem_cons_of_mem _ hb)) hh

lemma after_forM_option {f : α → Copy PUnit} {I : Graph → Prop} (o : Option α)
    (hf : ∀ a, o = some a → ∀ h, I h → After (f a) h fun _ => I) (hg : I g) :
    After (o.forM f) g fun _ => I := by
  cases o with
  | none => exact after_pure hg
  | some a => exact hf a rfl g hg

end Copy

namespace Graph

open Copy

/-! ### Names -/

/-- Where the renames of a copy stand: an alias of a table is renamed to an alias of a table. -/
structure Renamed (g h : Graph) (ren : Renames) : Prop where
  extension : g.Extends h
  inside : ∀ a b, ren.alias? a = some b → b.index < h.aliases.size
  table : ∀ a b, ren.alias? a = some b → (∀ s, (g.aliasOf a).origin ≠ .request s) →
    ∀ s, (h.aliasOf b).origin ≠ .request s

variable {g h k : Graph} {C : List RequestId} {ren : Renames}

lemma Renamed.later (hren : Renamed g h ren) (hhk : h.Extends k) : Renamed g k ren where
  extension := hren.extension.trans hhk
  inside a b hab := (hren.inside a b hab).trans_le hhk.aliases
  table a b hab htable s hs := by
    rw [hhk.origin b (hren.inside a b hab)] at hs
    exact hren.table a b hab htable s hs

lemma alias?_cons (a b c : AliasId) (ren : Renames) :
    ({ ren with aliases := (a, b) :: ren.aliases } : Renames).alias? c =
      if c = a then some b else ren.alias? c := by
  unfold Renames.alias?
  rw [List.lookup_cons]
  by_cases hc : c = a
  · simp [hc]
  · have hne : (c == a) = false := by simpa using hc
    rw [hne, if_neg hc]

/-! ### Parts -/

/-- Copies of nodes hold none of the requests around them. -/
def CopiesNodes (g : Graph) (part : NodeId → Renames → Copy NodeId) : Prop :=
  ∀ n ren h C, h.Open C → Renamed g h ren →
    After (part n ren) h fun m k => Built C h k ∧ k.Fit C m

/-- Copies of requests are none of the requests around them. -/
def CopiesRequests (g : Graph) (query : RequestId → Renames → Copy RequestId) : Prop :=
  ∀ r ren h C, h.Open C → Renamed g h ren →
    After (query r ren) h fun q k => Built C h k ∧ q ∉ C ∧ q.index < k.requests.size

section Parts

variable {part : NodeId → Renames → Copy NodeId} {query : RequestId → Renames → Copy RequestId}

/-- A node of copied parts. -/
lemma after_add (hh : h.Open C) {x : Node} (hx : ∀ c ∈ x.children, h.Fit C c)
    (hsub : ∀ s, x = .sub s → s ∉ C ∧ s.index < h.requests.size) :
    After (liftM (Build.add x) : Copy NodeId) h fun m k => Built C h k ∧ k.Fit C m :=
  after_lift ⟨.add hh (fun c hc => (hx c hc).inside) fun s hs => (hsub s hs).2,
    hh.fit_add hx fun s hs => (hsub s hs).1⟩

lemma after_mapM (hpart : CopiesNodes g part) (vs : List NodeId) (hh : h.Open C)
    (hren : Renamed g h ren) :
    After (vs.mapM (part · ren)) h fun ms k => Built C h k ∧ ∀ m ∈ ms, k.Fit C m := by
  induction vs generalizing h with
  | nil => exact after_pure ⟨.refl hh, by simp⟩
  | cons v vs ih =>
    rw [List.mapM_cons]
    refine (hpart v ren h C hh hren).bind fun m k ⟨hk, hm⟩ => ?_
    refine (ih hk.opened (hren.later hk.extension)).bind fun ms l ⟨hl, hms⟩ => ?_
    refine after_pure ⟨hk.trans hl, fun n hn => ?_⟩
    rcases List.mem_cons.1 hn with rfl | hn
    · exact hm.later hl.extension hk.opened.ordered
    · exact hms n hn

lemma copiesNodes_copyNode (hpart : CopiesNodes g part) (hquery : CopiesRequests g query) (x : Node)
    (hh : h.Open C) (hren : Renamed g h ren) :
    After (Swap.copyNode {} part query x ren) h fun m k => Built C h k ∧ k.Fit C m := by
  have hleaf : ∀ y : Node, y.children = [] → (∀ s, y ≠ .sub s) →
      After (liftM (Build.add y) : Copy NodeId) h fun m k => Built C h k ∧ k.Fit C m := by
    intro y hchildren hsub
    refine after_add hh (fun c hc => ?_) fun s hs => absurd hs (hsub s)
    rw [hchildren] at hc
    cases hc
  cases x with
  | column a c => exact hleaf _ rfl (by simp)
  | row a => exact hleaf _ rfl (by simp)
  | const v => exact hleaf _ rfl (by simp)
  | unary op operand =>
    cases operand with
    | none => exact hleaf _ rfl (by simp)
    | some e =>
      refine (hpart e ren h C hh hren).bind fun m k ⟨hk, hm⟩ => ?_
      refine (after_add hk.opened (fun c hc => ?_) (by simp)).mono fun n l ⟨hl, hn⟩ => ⟨hk.trans hl, hn⟩
      obtain rfl : c = m := by simpa [Node.children] using hc
      exact hm
  | binary op l r =>
    refine (hpart l ren h C hh hren).bind fun m k ⟨hk, hm⟩ => ?_
    refine (hpart r ren k C hk.opened (hren.later hk.extension)).bind fun n k' ⟨hk', hn⟩ => ?_
    refine (after_add hk'.opened (fun c hc => ?_) (by simp)).mono
      fun n l ⟨hl, hn⟩ => ⟨(hk.trans hk').trans hl, hn⟩
    have hm' := hm.later hk'.extension hk.opened.ordered
    rcases (by simpa [Node.children] using hc : c = m ∨ c = n) with rfl | rfl
    · exact hm'
    · exact hn
  | isIn e vs =>
    refine (hpart e ren h C hh hren).bind fun m k hk => ?_
    obtain ⟨hk, hm⟩ := hk
    refine (after_mapM hpart vs hk.opened (hren.later hk.extension)).bind fun ms k' hk' => ?_
    obtain ⟨hk', hms⟩ := hk'
    refine (after_add hk'.opened (fun c hc => ?_) (by simp)).mono
      fun n l hl => ⟨(hk.trans hk').trans hl.1, hl.2⟩
    have hm' := hm.later hk'.extension hk.opened.ordered
    rcases (by simpa [Node.children] using hc : c = m ∨ c ∈ ms) with rfl | hc
    · exact hm'
    · exact hms c hc
  | cond t y n =>
    refine (hpart t ren h C hh hren).bind fun t' k₁ hk₁ => ?_
    obtain ⟨hk₁, ht⟩ := hk₁
    refine (hpart y ren k₁ C hk₁.opened (hren.later hk₁.extension)).bind fun y' k₂ hk₂ => ?_
    obtain ⟨hk₂, hy⟩ := hk₂
    have hren₂ := (hren.later hk₁.extension).later hk₂.extension
    refine (hpart n ren k₂ C hk₂.opened hren₂).bind fun n' k₃ hk₃ => ?_
    obtain ⟨hk₃, hn⟩ := hk₃
    refine (after_add hk₃.opened (fun c hc => ?_) (by simp)).mono
      fun n l hl => ⟨((hk₁.trans hk₂).trans hk₃).trans hl.1, hl.2⟩
    have ht' := (ht.later hk₂.extension hk₁.opened.ordered).later hk₃.extension hk₂.opened.ordered
    have hy' := hy.later hk₃.extension hk₂.opened.ordered
    rcases (by simpa [Node.children] using hc : c = t' ∨ c = y' ∨ c = n') with rfl | rfl | rfl
    · exact ht'
    · exact hy'
    · exact hn
  | sub r =>
    refine (hquery r ren h C hh hren).bind fun q k hk => ?_
    obtain ⟨hk, hq, hlt⟩ := hk
    refine (after_add hk.opened (by simp [Node.children]) fun s hs => ?_).mono
      fun n l hl => ⟨hk.trans hl.1, hl.2⟩
    cases hs
    exact ⟨hq, hlt⟩

/-! ### Requests -/

/-- The renames after the sources of a copied request: a source is renamed to a new alias, which is
over none of the requests around. -/
def Sourced (h : Graph) (C : List RequestId) (ren : Renames) (as : List AliasId) : Prop :=
  ∀ a ∈ as, ∃ b, ren.alias? a = some b ∧ ∀ s, (h.aliasOf b).origin = .request s → s ∉ C

lemma after_addAlias (d : Alias) :
    After (liftM (Build.addAlias d) : Copy AliasId) h fun b k =>
      b = ⟨h.aliases.size⟩ ∧ k = (h.addAlias d).2 := after_lift ⟨rfl, rfl⟩

lemma after_addRequest (parent : Option RequestId) :
    After (liftM (Build.addRequest parent) : Copy RequestId) h fun q k =>
      q = ⟨h.requests.size⟩ ∧ k = (h.addRequest parent).2 := after_lift ⟨rfl, rfl⟩

/-- A source gets a new alias. -/
lemma after_rename {a : AliasId} {d : Alias} (hk : Built C h k) (hren : Renamed g h ren)
    {as : List AliasId} (has : Sourced h C ren as)
    (horigin : ∀ s, d.origin = .request s → s ∉ C ∧ s.index < k.requests.size)
    (htable : (∀ s, (g.aliasOf a).origin ≠ .request s) → ∀ s, d.origin ≠ .request s) :
    After (do
      let fresh ← (liftM (Build.addAlias d) : Copy AliasId)
      return { ren with aliases := (a, fresh) :: ren.aliases }) k fun ren' l =>
        Built C h l ∧ Renamed g l ren' ∧ Sourced l C ren' (a :: as) := by
  have hl := Built.addAlias hk.opened (d := d) fun s hs => (horigin s hs).2
  have hself : ((k.addAlias d).2.aliasOf ⟨k.aliases.size⟩).origin = d.origin := by
    rw [aliasOf_addAlias_self]
  refine (after_addAlias d).bind ?_
  rintro b l ⟨rfl, rfl⟩
  have hren' := (hren.later hk.extension).later hl.extension
  refine after_pure ⟨hk.trans hl, ⟨hren'.extension, fun c b hb => ?_, fun c b hb hc => ?_⟩,
    fun c hc => ?_⟩
  · rw [alias?_cons] at hb
    split at hb
    · cases hb
      simp
    · exact hren'.inside c b hb
  · rw [alias?_cons] at hb
    split at hb
    · rename_i heq
      cases hb
      subst heq
      rw [hself]
      exact htable hc
    · exact hren'.table c b hb hc
  · rw [alias?_cons]
    by_cases heq : c = a
    · rw [if_pos heq]
      refine ⟨_, rfl, fun s hs => ?_⟩
      rw [hself] at hs
      exact (horigin s hs).1
    · rw [if_neg heq]
      obtain ⟨b, hb, hs⟩ := has c ((List.mem_cons.1 hc).resolve_left heq)
      refine ⟨b, hb, fun s hs' => hs s ?_⟩
      rw [(hk.trans hl).extension.origin b (hren.inside c b hb)] at hs'
      exact hs'

lemma after_copySource (hquery : CopiesRequests g query) {a : AliasId} (hh : h.Open C)
    (hren : Renamed g h ren) {as : List AliasId} (has : Sourced h C ren as) :
    After (Swap.copySource {} g query ren a) h fun ren' k =>
      Built C h k ∧ Renamed g k ren' ∧ Sourced k C ren' (a :: as) := by
  unfold Swap.copySource
  cases horigin : (g.aliasOf a).origin with
  | table name =>
    simp only [horigin, pure_bind]
    exact after_rename (.refl hh) hren has (by simp) (by simp)
  | request r =>
    simp only [horigin, map_eq_pure_bind, bind_assoc, pure_bind]
    refine (hquery r ren h C hh hren).bind fun q k ⟨hk, hq, hlt⟩ => ?_
    refine after_rename hk hren has (fun s hs => ?_) (fun htable => absurd horigin (htable r))
    cases hs
    exact ⟨hq, hlt⟩

lemma after_copySources (hquery : CopiesRequests g query) (as : List AliasId) {bs : List AliasId}
    (hh : h.Open C) (hren : Renamed g h ren) (hbs : Sourced h C ren bs) :
    After (as.foldlM (Swap.copySource {} g query) ren) h fun ren' k =>
      Built C h k ∧ Renamed g k ren' ∧ Sourced k C ren' (as ++ bs) := by
  induction as generalizing h ren bs with
  | nil => exact after_pure ⟨.refl hh, hren, hbs⟩
  | cons a as ih =>
    rw [List.foldlM_cons]
    refine (after_copySource hquery hh hren hbs).bind fun ren' k ⟨hk, hren', has⟩ => ?_
    refine (ih hk.opened hren' has).mono fun ren'' l ⟨hl, hren'', has'⟩ => ?_
    refine ⟨hk.trans hl, hren'', fun c hc => has' c ?_⟩
    simp only [List.cons_append, List.mem_cons, List.mem_append] at hc ⊢
    tauto

lemma Sourced.later {as : List AliasId} (has : Sourced h C ren as) (hren : Renamed g h ren)
    (hhk : h.Extends k) : Sourced k C ren as := by
  intro a ha
  obtain ⟨b, hb, hs⟩ := has a ha
  refine ⟨b, hb, fun s hs' => hs s ?_⟩
  rw [hhk.origin b (hren.inside a b hb)] at hs'
  exact hs'

/-- A source of a copied request refers to its new alias. -/
lemma Sourced.refer {as : List AliasId} (has : Sourced h C ren as) (hren : Renamed g h ren)
    {a : AliasId} (ha : a ∈ as) : (Swap.refer {} ren a).index < h.aliases.size ∧
      ∀ s, (h.aliasOf (Swap.refer {} ren a)).origin = .request s → s ∉ C := by
  obtain ⟨b, hb, hs⟩ := has a ha
  have hrefer : Swap.refer {} ren a = b := by simp [Swap.refer, hb]
  rw [hrefer]
  exact ⟨hren.inside a b hb, hs⟩

/-- An alias of a table refers to an alias of a table. -/
lemma Renamed.refer (hren : Renamed g h ren) {a : AliasId} (ha : a.index < g.aliases.size)
    (htable : ∀ s, (g.aliasOf a).origin ≠ .request s) :
    (Swap.refer {} ren a).index < h.aliases.size ∧
      ∀ s, (h.aliasOf (Swap.refer {} ren a)).origin ≠ .request s := by
  cases hb : ren.alias? a with
  | some b =>
    have hrefer : Swap.refer {} ren a = b := by simp [Swap.refer, hb]
    rw [hrefer]
    exact ⟨hren.inside a b hb, hren.table a b hb htable⟩
  | none =>
    have hrefer : Swap.refer {} ren a = a := by simp [Swap.refer, hb]
    rw [hrefer]
    refine ⟨ha.trans_le hren.extension.aliases, fun s hs => htable s ?_⟩
    rw [hren.extension.origin a ha] at hs
    exact hs

/-- A new request gets its sources. -/
lemma open_frame {D : List RequestId} {r q : RequestId} (hg : g.Open D) (hh : h.Open C)
    (hq : q ∈ C) (hren : Renamed g h ren) (has : Sourced h C ren (g.request r).sources) :
    (h.modifyRequest q (Swap.frame {} ren (g.request r))).Open C := by
  have hbase : ∀ a, (g.request r).base = some a → a ∈ (g.request r).sources := by
    intro a ha
    simp [Request.sources, ha]
  have htarget : ∀ a, (g.request r).target = some a → (g.request r).base = some a ∨
      ((Swap.refer {} ren a).index < h.aliases.size ∧
        ∀ s, (h.aliasOf (Swap.refer {} ren a)).origin ≠ .request s) := by
    intro a ha
    rcases hg.target r a ha with hb | htable
    · exact .inl hb
    · exact .inr (hren.refer (hg.source r a (Request.mem_origins.2 (.inr (.inr ha)))) htable)
  refine hh.modifyRequest hq (fun n hn => ?_) (fun a ha => ?_) (fun a ha => ?_)
  · exact ⟨hh.clause q n hn, hh.clear_of_clause hn⟩
  · rw [Request.mem_origins] at ha
    rcases ha with ha | hjoin | ha
    · obtain ⟨b, hb, rfl⟩ := Option.map_eq_some_iff.1 ha
      exact has.refer hren (hbase b hb)
    · have hsource : a ∈ (h.request q).origins := Request.mem_origins.2 (.inr (.inl hjoin))
      exact ⟨hh.source q a hsource, fun s hs => hh.not_mem_of_source hsource hs⟩
    · obtain ⟨b, hb, rfl⟩ := Option.map_eq_some_iff.1 ha
      rcases htarget b hb with hb' | ⟨hlt, hs⟩
      · exact has.refer hren (hbase b hb')
      · exact ⟨hlt, fun s hs' => absurd hs' (hs s)⟩
  · obtain ⟨b, hb, rfl⟩ := Option.map_eq_some_iff.1 ha
    rcases htarget b hb with hb' | ⟨-, hs⟩
    · refine .inl ?_
      show (g.request r).base.map _ = _
      rw [hb']
      rfl
    · exact .inr hs

/-- A value of a clause is copied and put into the new request. -/
lemma after_put (hpart : CopiesNodes g part) (hren : Renamed g h ren) (hk : Built C h k) (n : NodeId)
    {put : NodeId → Graph → Graph}
    (hput : ∀ m l, Built C k l → l.Fit C m → Built C l (put m l)) :
    After (do let m ← part n ren; modify (put m)) k fun _ => Built C h := by
  refine (hpart n ren k C hk.opened (hren.later hk.extension)).bind fun m l ⟨hl, hm⟩ => ?_
  exact after_modify ((hk.trans hl).trans (hput m l hl hm))

lemma copiesRequests_copyRequest {D : List RequestId} (hg : g.Open D) (hpart : CopiesNodes g part)
    (hquery : CopiesRequests g query) (r : RequestId) (hh : h.Open C) (hren : Renamed g h ren) :
    After (Swap.copyRequest {} g part query r ren) h fun q k =>
      Built C h k ∧ q ∉ C ∧ q.index < k.requests.size := by
  unfold Swap.copyRequest
  refine (after_addRequest _).bind ?_
  generalize (g.request r).parent.map ren.request = parent
  rintro q k ⟨hq, hk⟩
  -- the new request is filled while nothing holds it
  have hopen : k.Open (q :: C) := by
    rw [hk, hq]
    exact hh.addRequest parent
  have hfirst : Built C h k := by
    rw [hk]
    exact .addRequest hh parent
  have hnew : q ∉ C := by
    rw [hq]
    exact hh.new_not_mem
  have hren₁ : Renamed g k { ren with requests := (r, q) :: ren.requests } :=
    let hlater := hren.later hfirst.extension
    ⟨hlater.extension, hlater.inside, hlater.table⟩
  have hnone : Sourced k (q :: C) { ren with requests := (r, q) :: ren.requests } [] :=
    fun a ha => by cases ha
  refine (after_copySources hquery (g.request r).sources hopen hren₁ hnone).bind
    fun ren' h₂ ⟨hh₂, hren₂, has⟩ => ?_
  rw [List.append_nil] at has
  have hq : q ∈ q :: C := List.mem_cons_self
  have hframe := open_frame hg hh₂.opened hq hren₂ has
  have hplace : Built C h (h₂.modifyRequest q (Swap.frame {} ren' (g.request r))) :=
    (hfirst.close hh₂).trans (.modifyOther hnew (hframe.mono (List.subset_cons_self _ _)))
  have hext : h₂.Extends (h₂.modifyRequest q (Swap.frame {} ren' (g.request r))) :=
    (Kept.modifyRequest (A := []) h₂ hq _).extension
  replace has := has.later hren₂ hext
  replace hren₂ := hren₂.later hext
  refine (after_modify (Q := fun _ => Built (q :: C)
    (h₂.modifyRequest q (Swap.frame {} ren' (g.request r)))) (.refl hframe)).bind fun _ l₁ hl₁ => ?_
  generalize h₂.modifyRequest q (Swap.frame {} ren' (g.request r)) = h₃ at hplace hframe has hren₂ hl₁
  refine (after_forM _ (fun j hj l hl => ?_) hl₁).bind fun _ l₂ hl₂ => ?_
  · refine after_put hpart hren₂ hl j.condition fun m l' hl' hm => ?_
    have hmem : j.source ∈ (g.request r).sources :=
      List.mem_append_right _ (List.mem_map_of_mem hj)
    have hext := (hl.trans hl').extension
    obtain ⟨hlt, hs⟩ := (has.later hren₂ hext).refer (hren₂.later hext) hmem
    exact built_pushJoin hl'.opened hq hm hlt hs
  refine (after_forM _ (fun i _ l hl => ?_) hl₂).bind fun _ l₃ hl₃ => ?_
  · exact after_put hpart hren₂ hl i.node fun m l' hl' hm => built_pushItem hl'.opened hq hm
  refine (after_forM_option _ (fun n _ l hl => ?_) hl₃).bind fun _ l₄ hl₄ => ?_
  · exact after_put hpart hren₂ hl n fun m l' hl' hm => built_andFilter hl'.opened hq hm
  refine (after_forM_option _ (fun n _ l hl => ?_) hl₄).bind fun _ l₅ hl₅ => ?_
  · exact after_put hpart hren₂ hl n fun m l' hl' hm => built_andHaving hl'.opened hq hm
  refine (after_forM _ (fun key _ l hl => ?_) hl₅).bind fun _ l₆ hl₆ => ?_
  · exact after_put hpart hren₂ hl key.1 fun m l' hl' hm => built_pushGroup hl'.opened hq hm _
  refine (after_forM _ (fun o _ l hl => ?_) hl₆).bind fun _ l₇ hl₇ => ?_
  · exact after_put hpart hren₂ hl o.node fun m l' hl' hm => built_pushOrder hl'.opened hq hm _
  refine (after_forM _ (fun a _ l hl => ?_) hl₇).bind fun _ l₈ hl₈ => ?_
  · refine (hpart a.column ren' l _ hl.opened (hren₂.later hl.extension)).bind fun m l' ⟨hl', hm⟩ => ?_
    refine after_put hpart hren₂ (hl.trans hl') a.value fun n l'' hl'' hn => ?_
    exact built_pushAssignment hl''.opened hq (hm.later hl''.extension hl'.opened.ordered) hn
  exact after_pure ⟨hplace.close hl₈, hnew, hl₈.opened.inside q hq⟩

end Parts

/-! ### Copies -/

/-- Copies hold none of the requests around them, by induction on the depth of the reading. -/
theorem copies_read {D : List RequestId} (hg : g.Open D) (fuel : Nat) (above : List RequestId) :
    CopiesNodes g (g.readNodeWithin (Swap.copying {} g) fuel above) ∧
      CopiesRequests g (g.readRequestWithin (Swap.copying {} g) fuel above) := by
  induction fuel generalizing above with
  | zero => exact ⟨fun _ _ _ _ _ _ => after_failure, fun _ _ _ _ _ _ => after_failure⟩
  | succ fuel ih =>
    constructor
    · intro n ren h C hh hren
      exact copiesNodes_copyNode (ih above).1 (ih above).2 (g.node n) hh hren
    · intro r ren h C hh hren
      rw [readRequestWithin]
      split
      · exact after_failure
      · exact copiesRequests_copyRequest hg (ih (r :: above)).1 (ih (r :: above)).2 r hh hren

/-- **A copy of a value** holds none of the requests that are being built. -/
theorem built_duplicate (hg : g.Open C) {n m : NodeId}
    (hrun : (Build.duplicate n).run g = (some m, h)) : Built C g h ∧ h.Fit C m := by
  have hren : Renamed g g {} := ⟨.refl g, nofun, nofun⟩
  have hread := (copies_read hg g.height []).1 n {} g C hg hren
  exact hread _ _ (Build.run_copy_eq_some.1 hrun)

end Graph

end EntityQuery.Sql
