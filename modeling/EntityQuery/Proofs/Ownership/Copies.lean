import EntityQuery.Proofs.Nesting.Copies
import EntityQuery.Proofs.Ownership.Graphs

/-!
Copies of values are loose.

* Every node of a copy is new and becomes part of one thing: of the copy of what its original is part
  of. The copy as a whole is part of nothing.
* A copied request is filled clause by clause, each with a copy of its own.
-/

namespace EntityQuery.Sql

/-- The aliases that take the place of others are in a graph. -/
def Swap.Inside (h : Graph) (s : Swap) : Prop := ∀ a b, s.source a = some b → b.index < h.aliases.size

lemma Swap.inside_nothing (h : Graph) : ({} : Swap).Inside h := nofun

lemma Swap.Inside.mono {h k : Graph} {s : Swap} (hs : s.Inside h) (hhk : h.Grows k) : s.Inside k :=
  fun a b hab => (hs a b hab).trans_le hhk.aliases

/-- The aliases and requests that a copy has made are in a graph. -/
structure Renames.Inside (h : Graph) (ren : Renames) : Prop where
  source : ∀ a b, ren.alias? a = some b → b.index < h.aliases.size
  request : ∀ r q, ren.requests.lookup r = some q → q.index < h.requests.size

namespace Renames.Inside

variable {h k : Graph} {ren : Renames} {s : Swap}

lemma mono (hren : ren.Inside h) (hhk : h.Grows k) : ren.Inside k :=
  ⟨fun a b hab => (hren.source a b hab).trans_le hhk.aliases,
    fun r q hrq => (hren.request r q hrq).trans_le hhk.requests⟩

lemma refer (hren : ren.Inside h) (hs : s.Inside h) {a : AliasId} (ha : a.index < h.aliases.size) :
    (s.refer ren a).index < h.aliases.size := by
  unfold Swap.refer
  cases hb : ren.alias? a with
  | some b => exact hren.source a b hb
  | none =>
    cases hc : s.source a with
    | some c => exact hs a c hc
    | none => exact ha

lemma read (hren : ren.Inside h) (hs : s.Inside h) {a : AliasId} (ha : a.index < h.aliases.size) :
    (s.read ren a).index < h.aliases.size := by
  unfold Swap.read
  cases hc : s.source a with
  | some c => exact hs a c hc
  | none =>
    cases hb : ren.alias? a with
    | some b => exact hren.source a b hb
    | none => exact ha

lemma outer (hren : ren.Inside h) {r : RequestId} (hr : r.index < h.requests.size) :
    (ren.request r).index < h.requests.size := by
  unfold Renames.request
  cases hq : ren.requests.lookup r with
  | none => exact hr
  | some q => exact hren.request r q hq

lemma route (hren : ren.Inside h) (hs : s.Inside h) {way : Route}
    (hway : ∀ a ∈ way.aliases, a.index < h.aliases.size) :
    ∀ a ∈ (s.route ren way).aliases, a.index < h.aliases.size := by
  cases way with
  | root => simp [Swap.route, Route.aliases]
  | link owner p =>
    intro a ha
    rw [List.mem_singleton.1 ha]
    exact hren.refer hs (hway owner List.mem_cons_self)
  | navigation owner p via =>
    intro a ha
    rcases List.mem_cons.1 ha with rfl | ha
    · exact hren.refer hs (hway owner List.mem_cons_self)
    · cases via with
      | none => cases ha
      | some b =>
        rw [List.mem_singleton.1 ha]
        exact hren.refer hs (hway b (List.mem_cons_of_mem _ List.mem_cons_self))

end Renames.Inside

namespace Graph

open Copy

variable {g h k : Graph} {L : List NodeId} {ren : Renames}

/-! ### Parts -/

/-- Copies of nodes are loose. -/
def TendsNodes (g : Graph) (part : NodeId → Renames → Copy NodeId) : Prop :=
  ∀ n ren h L, h.Tidy L → g.Grows h → ren.Inside h →
    After (part n ren) h fun m k => Tended h (m :: L) k

/-- Copies of requests take no loose node. -/
def TendsRequests (g : Graph) (query : RequestId → Renames → Copy RequestId) : Prop :=
  ∀ r ren h L, h.Tidy L → g.Grows h → ren.Inside h →
    After (query r ren) h fun q k => Tended h L k ∧ q.index < k.requests.size

section Parts

variable {part : NodeId → Renames → Copy NodeId} {query : RequestId → Renames → Copy RequestId}

lemma after_tended_add {x : Node} (hh : h.Tidy (x.children ++ L)) (hx : x.Inside h) :
    After (liftM (Build.add x) : Copy NodeId) h fun m k => Tended h (m :: L) k :=
  after_lift (tended_add hh hx)

lemma after_tended_mapM (hpart : TendsNodes g part) (vs : List NodeId) (hh : h.Tidy L)
    (hgh : g.Grows h) (hren : ren.Inside h) :
    After (vs.mapM (part · ren)) h fun ms k => Tended h (ms ++ L) k := by
  induction vs generalizing h L with
  | nil => exact after_pure (.refl hh)
  | cons v vs ih =>
    rw [List.mapM_cons]
    refine (hpart v ren h L hh hgh hren).bind fun m k hk => ?_
    refine (ih hk.tidy (hgh.trans hk.grows) (hren.mono hk.grows)).bind fun ms l hl => ?_
    exact after_pure ((hk.trans hl).only List.perm_middle.symm.subperm)

/-- A copied node takes the copies of its parts. -/
lemma tendsNodes_copyNode (hpart : TendsNodes g part) (hquery : TendsRequests g query) {x : Node}
    (hx : x.Inside g) (hh : h.Tidy L) (hgh : g.Grows h) (hren : ren.Inside h) :
    After (Swap.copyNode {} part query x ren) h fun m k => Tended h (m :: L) k := by
  have hread : ∀ a, x.source? = some a → (Swap.read {} ren a).index < h.aliases.size := fun a ha =>
    hren.read (Swap.inside_nothing h) ((hx.1 a ha).trans_le hgh.aliases)
  cases x with
  | column a c =>
    refine after_tended_add hh ⟨fun b hb => ?_, by simp⟩
    cases hb
    exact hread a rfl
  | row a =>
    refine after_tended_add hh ⟨fun b hb => ?_, by simp⟩
    cases hb
    exact hread a rfl
  | const v => exact after_tended_add hh ⟨by simp [Node.source?], by simp⟩
  | unary op operand =>
    cases operand with
    | none => exact after_tended_add hh ⟨by simp [Node.source?], by simp⟩
    | some e =>
      refine (hpart e ren h L hh hgh hren).bind fun m k hk => ?_
      refine (after_tended_add hk.tidy ⟨by simp [Node.source?], by simp⟩).mono ?_
      exact fun n l hl => hk.trans hl
  | binary op l r =>
    refine (hpart l ren h L hh hgh hren).bind fun m k hk => ?_
    refine (hpart r ren k _ hk.tidy (hgh.trans hk.grows) (hren.mono hk.grows)).bind fun n l hl => ?_
    have hboth := (hk.trans hl).only ((List.reverse_perm [n, m]).append_right L).subperm
    refine (after_tended_add hboth.tidy ⟨by simp [Node.source?], by simp⟩).mono ?_
    exact fun i l' hl' => hboth.trans hl'
  | isIn e vs =>
    refine (hpart e ren h L hh hgh hren).bind fun m k hk => ?_
    refine (after_tended_mapM hpart vs hk.tidy (hgh.trans hk.grows) (hren.mono hk.grows)).bind
      fun ms l hl => ?_
    have hboth : Tended h ((m :: ms) ++ L) l := (hk.trans hl).only List.perm_middle.symm.subperm
    refine (after_tended_add hboth.tidy ⟨by simp [Node.source?], by simp⟩).mono ?_
    exact fun i l' hl' => hboth.trans hl'
  | cond t y n =>
    refine (hpart t ren h L hh hgh hren).bind fun t' k₁ hk₁ => ?_
    refine (hpart y ren k₁ _ hk₁.tidy (hgh.trans hk₁.grows) (hren.mono hk₁.grows)).bind fun y' k₂ hk₂ => ?_
    have hk₂ := hk₁.trans hk₂
    refine (hpart n ren k₂ _ hk₂.tidy (hgh.trans hk₂.grows) (hren.mono hk₂.grows)).bind fun n' k₃ hk₃ => ?_
    have hall := (hk₂.trans hk₃).only ((List.reverse_perm [n', y', t']).append_right L).subperm
    refine (after_tended_add hall.tidy ⟨by simp [Node.source?], by simp⟩).mono ?_
    exact fun i l hl => hall.trans hl
  | sub r =>
    refine (hquery r ren h L hh hgh hren).bind fun q k hk => ?_
    obtain ⟨hk, hq⟩ := hk
    refine (after_tended_add hk.tidy ⟨by simp [Node.source?], fun s hs => ?_⟩).mono
      fun n l hl => hk.trans hl
    cases hs
    exact hq

/-! ### Requests -/

lemma after_tended_copySource (hg : g.Closed) (hquery : TendsRequests g query) (a : AliasId)
    (hh : h.Tidy L) (hgh : g.Grows h) (hren : ren.Inside h) :
    After (Swap.copySource {} g query ren a) h fun ren' k => Tended h L k ∧ ren'.Inside k := by
  -- a new alias, once its origin is copied
  have hrename : ∀ k origin, Tended h L k → (∀ q, origin = .request q → q.index < k.requests.size) →
      After (do
        let fresh ← (liftM (Build.addAlias { g.aliasOf a with
          origin, route := Swap.route {} ren (g.aliasOf a).route }) : Copy AliasId)
        return { ren with aliases := (a, fresh) :: ren.aliases }) k fun ren' l =>
          Tended h L l ∧ ren'.Inside l := by
    intro k origin hk horigin
    have hren' := hren.mono hk.grows
    have hroute : ∀ b ∈ (g.aliasOf a).route.aliases, b.index < k.aliases.size := fun b hb =>
      ((hg.source a).2 b hb).trans_le (hgh.trans hk.grows).aliases
    have hadd := tended_addAlias hk.tidy (d := { g.aliasOf a with
      origin, route := Swap.route {} ren (g.aliasOf a).route })
      ⟨horigin, hren'.route (Swap.inside_nothing k) hroute⟩
    refine (after_addAlias _).bind ?_
    rintro b l ⟨rfl, rfl⟩
    refine after_pure ⟨hk.trans hadd, fun c b hb => ?_, (hren'.mono hadd.grows).request⟩
    rw [alias?_cons] at hb
    split at hb
    · cases hb
      simp
    · exact (hren'.mono hadd.grows).source c b hb
  unfold Swap.copySource
  cases horigin : (g.aliasOf a).origin with
  | table name =>
    simp only [horigin, pure_bind]
    exact hrename h _ (.refl hh) (by simp)
  | request r =>
    simp only [horigin, map_eq_pure_bind, bind_assoc, pure_bind]
    refine (hquery r ren h L hh hgh hren).bind fun q k hk => ?_
    obtain ⟨hk, hq⟩ := hk
    refine hrename k _ hk fun s hs => ?_
    cases hs
    exact hq

lemma after_tended_copySources (hg : g.Closed) (hquery : TendsRequests g query) (as : List AliasId)
    (hh : h.Tidy L) (hgh : g.Grows h) (hren : ren.Inside h) :
    After (as.foldlM (Swap.copySource {} g query) ren) h fun ren' k => Tended h L k ∧ ren'.Inside k := by
  induction as generalizing h ren with
  | nil => exact after_pure ⟨.refl hh, hren⟩
  | cons a as ih =>
    rw [List.foldlM_cons]
    refine (after_tended_copySource hg hquery a hh hgh hren).bind fun ren' k ⟨hk, hren'⟩ => ?_
    refine (ih hk.tidy (hgh.trans hk.grows) hren').mono fun ren'' l ⟨hl, hren''⟩ => ?_
    exact ⟨hk.trans hl, hren''⟩

/-- A value of a clause is copied, and the new request takes the copy. -/
lemma after_tended_put (hpart : TendsNodes g part) (hgh : g.Grows h) (hren : ren.Inside h)
    (hk : Tended h L k) (n : NodeId) {put : NodeId → Graph → Graph}
    (hput : ∀ m l, h.Grows l → l.Tidy (m :: L) → Tended l L (put m l)) :
    After (do let m ← part n ren; modify (put m)) k fun _ => Tended h L := by
  refine (hpart n ren k L hk.tidy (hgh.trans hk.grows) (hren.mono hk.grows)).bind fun m l hl => ?_
  exact after_modify ((hk.trans hl).trans (hput m l (hk.trans hl).grows hl.tidy))

lemma tendsRequests_copyRequest (hg : g.Closed) (hpart : TendsNodes g part)
    (hquery : TendsRequests g query) (r : RequestId) (hh : h.Tidy L) (hgh : g.Grows h)
    (hren : ren.Inside h) :
    After (Swap.copyRequest {} g part query r ren) h fun q k =>
      Tended h L k ∧ q.index < k.requests.size := by
  obtain ⟨hparent, horigins⟩ := hg.request r
  unfold Swap.copyRequest
  have hadd : Tended h L (h.addRequest ((g.request r).parent.map ren.request)).2 := by
    refine tended_addRequest hh fun p hp => ?_
    obtain ⟨p', hp', rfl⟩ := Option.map_eq_some_iff.1 hp
    exact hren.outer ((hparent p' hp').trans_le hgh.requests)
  refine (after_addRequest _).bind ?_
  generalize (g.request r).parent.map ren.request = parent at hadd
  rintro q h₁ ⟨hq, rfl⟩
  have hq₁ : q.index < (h.addRequest parent).2.requests.size := by
    rw [hq, size_requests_addRequest]
    exact Nat.lt_succ_self _
  have hren₁ : Renames.Inside (h.addRequest parent).2
      { ren with requests := (r, q) :: ren.requests } := by
    refine ⟨(hren.mono hadd.grows).source, fun s q' hs => ?_⟩
    rw [List.lookup_cons] at hs
    split at hs
    · cases hs
      exact hq₁
    · exact (hren.mono hadd.grows).request s q' hs
  refine (after_tended_copySources hg hquery (g.request r).sources hadd.tidy (hgh.trans hadd.grows)
    hren₁).bind fun ren' h₂ ⟨hh₂, hren₂⟩ => ?_
  have hq₂ := hq₁.trans_le hh₂.grows.requests
  have hg₂ := (hgh.trans hadd.grows).trans hh₂.grows
  have hrefer : ∀ a ∈ (g.request r).origins, (Swap.refer {} ren' a).index < h₂.aliases.size :=
    fun a ha => hren₂.refer (Swap.inside_nothing h₂) ((horigins a ha).trans_le hg₂.aliases)
  -- the new request gets its sources, and then clause by clause the copied values
  have hframe : Tended h₂ L (h₂.modifyRequest q (Swap.frame {} ren' (g.request r))) := by
    obtain ⟨hparent₂, horigins₂⟩ := hh₂.tidy.closed.request q
    refine tended_modifyRequest hh₂.tidy hq₂ ⟨hparent₂, fun a ha => ?_⟩ (List.Perm.refl _).subperm
    rw [Request.mem_origins] at ha
    rcases ha with ha | ha | ha
    · obtain ⟨b, hb, rfl⟩ := Option.map_eq_some_iff.1 ha
      exact hrefer b (Request.mem_origins.2 (.inl hb))
    · exact horigins₂ a (Request.mem_origins.2 (.inr (.inl ha)))
    · obtain ⟨b, hb, rfl⟩ := Option.map_eq_some_iff.1 ha
      exact hrefer b (Request.mem_origins.2 (.inr (.inr hb)))
  have hq₃ := hq₂.trans_le hframe.grows.requests
  have hg₃ := hg₂.trans hframe.grows
  have hren₃ := hren₂.mono hframe.grows
  have hbefore := (hadd.trans hh₂).trans hframe
  refine (after_modify (Q := fun _ => Tended (h₂.modifyRequest q (Swap.frame {} ren' (g.request r))) L)
    (.refl hframe.tidy)).bind fun _ l₁ hl₁ => ?_
  generalize h₂.modifyRequest q (Swap.frame {} ren' (g.request r)) = h₃ at *
  have hput := fun (l : Graph) (hl : Tended h₃ L l) => after_tended_put hpart hg₃ hren₃ hl
  refine (after_forM _ (fun j hj l hl => hput l hl j.condition fun m l' hl' hm => ?_) hl₁).bind
    fun _ l₂ hl₂ => ?_
  · refine tended_pushJoin hm (hq₃.trans_le hl'.requests) ?_
    have hsource := hrefer j.source (Request.mem_origins.2 (.inr (.inl ⟨j, hj, rfl⟩)))
    exact (hsource.trans_le hframe.grows.aliases).trans_le hl'.aliases
  refine (after_forM _ (fun i _ l hl => hput l hl i.node fun m l' hl' hm => ?_) hl₂).bind
    fun _ l₃ hl₃ => ?_
  · exact tended_pushItem hm (hq₃.trans_le hl'.requests)
  refine (after_forM_option _ (fun n _ l hl => hput l hl n fun m l' hl' hm => ?_) hl₃).bind
    fun _ l₄ hl₄ => ?_
  · exact tended_andFilter hm (hq₃.trans_le hl'.requests)
  refine (after_forM_option _ (fun n _ l hl => hput l hl n fun m l' hl' hm => ?_) hl₄).bind
    fun _ l₅ hl₅ => ?_
  · exact tended_andHaving hm (hq₃.trans_le hl'.requests)
  refine (after_forM _ (fun key _ l hl => hput l hl key.1 fun m l' hl' hm => ?_) hl₅).bind
    fun _ l₆ hl₆ => ?_
  · exact tended_pushGroup hm (hq₃.trans_le hl'.requests) _
  refine (after_forM _ (fun o _ l hl => hput l hl o.node fun m l' hl' hm => ?_) hl₆).bind
    fun _ l₇ hl₇ => ?_
  · exact tended_pushOrder hm (hq₃.trans_le hl'.requests) _
  refine (after_forM _ (fun a _ l hl => ?_) hl₇).bind fun _ l₈ hl₈ => ?_
  · refine (hpart a.column ren' l L hl.tidy (hg₃.trans hl.grows) (hren₃.mono hl.grows)).bind
      fun column l' hl' => ?_
    have hl' := hl.trans hl'
    refine (hpart a.value ren' l' _ hl'.tidy (hg₃.trans hl'.grows) (hren₃.mono hl'.grows)).bind
      fun value l'' hl'' => ?_
    have hboth := (hl'.trans hl'').only ((List.reverse_perm [value, column]).append_right L).subperm
    exact after_modify (hboth.trans (tended_pushAssignment hboth.tidy
      (hq₃.trans_le hboth.grows.requests)))
  exact after_pure ⟨hbefore.trans hl₈, hq₃.trans_le hl₈.grows.requests⟩

end Parts

/-! ### Copies -/

/-- Copies are loose, by induction on the depth of the reading. -/
theorem tends_read (hg : g.Closed) (fuel : Nat) (above : List RequestId) :
    TendsNodes g (g.readNodeWithin (Swap.copying {} g) fuel above) ∧
      TendsRequests g (g.readRequestWithin (Swap.copying {} g) fuel above) := by
  induction fuel generalizing above with
  | zero => exact ⟨fun _ _ _ _ _ _ _ => after_failure, fun _ _ _ _ _ _ _ => after_failure⟩
  | succ fuel ih =>
    constructor
    · intro n ren h L hh hgh hren
      exact tendsNodes_copyNode (ih above).1 (ih above).2 (hg.node n) hh hgh hren
    · intro r ren h L hh hgh hren
      rw [readRequestWithin]
      split
      · exact after_failure
      · exact tendsRequests_copyRequest hg (ih (r :: above)).1 (ih (r :: above)).2 r hh hgh hren

/-- **A copy of a value** is loose. -/
theorem tended_duplicate (hg : g.Tidy L) {n m : NodeId}
    (hrun : (Build.duplicate n).run g = (some m, h)) : Tended g (m :: L) h := by
  have hread := (tends_read hg.closed g.height []).1 n {} g L hg (.refl g) ⟨nofun, nofun⟩
  exact hread _ _ (Build.run_copy_eq_some.1 hrun)

end Graph

end EntityQuery.Sql
