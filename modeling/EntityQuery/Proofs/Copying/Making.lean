import EntityQuery.Proofs.Copying.Carrying
import EntityQuery.Proofs.Copying.Copied
import EntityQuery.Proofs.Nesting.Totality

/-!
Copying makes copies.

* `NewCopy`: a copy of a node that is new and part of nothing. `MakesNodes`, `MakesRequests`: what the
  rules for parts give.
* The sources of a request are copied one by one (`Sourced`), its clauses entry by entry (`Filled`); in
  between the new request is a copy of a part of the request.
-/

namespace EntityQuery.Sql

/-- A request with other clauses. -/
def Request.withClauses (x : Request) (joins : List Join) (items : List Item)
    (filter having : Option NodeId) (groups : List NodeId) (groupMembers : List (Option PropertyRef))
    (orders : List Order) (assignments : List Assignment) : Request :=
  { x with joins, items, filter, having, groups, groupMembers, orders, assignments }

/-- A copy that fails leaves the graph as it is. -/
lemma Build.eq_of_run_copy_eq_none {s : Swap} {n : NodeId} {g h : Graph}
    (hrun : (Build.copy s n).run g = (none, h)) : h = g := by
  rw [Build.copy, StateT.run_modifyGet] at hrun
  split at hrun
  · cases congrArg Prod.fst hrun
  · exact (congrArg Prod.snd hrun).symm

namespace Graph

open Copy

variable {s : Swap} {g h k l : Graph} {ren : Renames} {n m : NodeId}

/-! ### Steps -/

/-- A formed graph in which everything is as it was in another one. -/
structure Extended (h k : Graph) : Prop where
  formed : k.Formed
  intact : h.Intact k

namespace Extended

lemma refl (hh : h.Formed) : h.Extended h := ⟨hh, .refl h⟩

lemma trans (hhk : h.Extended k) (hkl : k.Extended l) : h.Extended l :=
  ⟨hkl.formed, hhk.intact.trans hkl.intact⟩

lemma grows (hhk : h.Extended k) : h.Grows k := hhk.intact.grows

end Extended

/-- Loose nodes become part of a new node. -/
lemma later_add (k : Graph) {x : Node} (hx : ∀ c ∈ x.children, k.parent? c = none) (first : Nat) :
    Later first k (k.add x).2 where
  grows := grows_add k x
  node n hn := node_add_of_lt k x hn
  parent? n o ho := by
    rw [parent?_add, if_neg]
    · exact ho
    · rintro ⟨hmem, -⟩
      rw [hx n hmem] at ho
      cases ho
  aliasOf a _ := aliasOf_add k x a
  request r _ _ := request_add k x r

/-- A request changes that is older than the number. -/
lemma later_modifyRequest (k : Graph) (r : RequestId) (f : Request → Request) :
    Later (r.index + 1) k (k.modifyRequest r f) where
  grows := grows_modifyRequest k r f
  node _ _ := rfl
  parent? _ _ ho := ho
  aliasOf _ _ := rfl
  request q hq _ := by
    refine request_modifyRequest_of_ne _ _ ?_
    rintro rfl
    omega

/-- Makes nodes part of a request. -/
def attachAll (g : Graph) (r : RequestId) (ns : List NodeId) : Graph :=
  ns.foldl (fun g n => g.setParent (.request r) n) g

section AttachAll

variable (r : RequestId) (ns : List NodeId)

lemma node_attachAll (k : Graph) (m : NodeId) : (k.attachAll r ns).node m = k.node m :=
  k.node_foldl_setParent _ ns m

lemma parent?_attachAll (k : Graph) (m : NodeId) : (k.attachAll r ns).parent? m =
    if m ∈ ns ∧ m.index < k.entries.size then some (.request r) else k.parent? m :=
  parent?_foldl_setParent _ ns k m

lemma aliasOf_attachAll (k : Graph) (a : AliasId) : (k.attachAll r ns).aliasOf a = k.aliasOf a := by
  rw [aliasOf, attachAll, aliases_foldl_setParent, aliasOf]

lemma request_attachAll (k : Graph) (q : RequestId) : (k.attachAll r ns).request q = k.request q := by
  rw [request, attachAll, requests_foldl_setParent, request]

lemma grows_attachAll (k : Graph) : k.Grows (k.attachAll r ns) := by
  refine ⟨?_, ?_, ?_⟩
  · rw [attachAll, size_entries_foldl_setParent]
  · rw [attachAll, aliases_foldl_setParent]
  · rw [attachAll, requests_foldl_setParent]

variable {r ns}

lemma later_attachAll (hns : ∀ n ∈ ns, k.parent? n = none) (first : Nat) :
    Later first k (k.attachAll r ns) where
  grows := grows_attachAll r ns k
  node m _ := node_attachAll r ns k m
  parent? m o ho := by
    rw [parent?_attachAll, if_neg]
    · exact ho
    · rintro ⟨hm, -⟩
      rw [hns m hm] at ho
      cases ho
  aliasOf a _ := aliasOf_attachAll r ns k a
  request q _ _ := request_attachAll r ns k q

/-- New nodes become part of a request. -/
lemma Extended.attachAll (hk : h.Extended k) (hr : r.index < k.requests.size)
    (hns : ∀ n ∈ ns, h.entries.size ≤ n.index) : h.Extended (k.attachAll r ns) := by
  have hgrows := grows_attachAll r ns k
  constructor
  · refine hk.formed.revise hgrows (fun m => .inl (node_attachAll r ns k m)) (fun m o ho => ?_)
      (fun a => .inl (aliasOf_attachAll r ns k a)) fun q => .inl (request_attachAll r ns k q)
    rw [parent?_attachAll] at ho
    split at ho
    · cases ho
      exact .inr (hr.trans_le hgrows.requests)
    · exact .inl ho
  · refine ⟨hk.grows.trans hgrows, fun m hm => ?_, fun a ha => ?_, fun q hq => ?_⟩
    · have hparent : (k.attachAll r ns).parent? m = k.parent? m := by
        rw [parent?_attachAll, if_neg fun hmem => (hns m hmem.1).not_gt hm]
      rw [← hk.intact.entry m hm]
      exact congrArg₂ Entry.mk (node_attachAll r ns k m) hparent
    · rw [aliasOf_attachAll]
      exact hk.intact.aliasOf a ha
    · rw [request_attachAll]
      exact hk.intact.request q hq

end AttachAll

/-! ### Nodes -/

/-- A new copy of a node, which is part of nothing. -/
structure NewCopy (s : Swap) (g h k : Graph) (ren : Renames) (n m : NodeId) : Prop where
  new : h.entries.size ≤ m.index
  inside : m.index < k.entries.size
  loose : k.parent? m = none
  copied : Copied s g k h.requests.size ren (.node n) (.node m)

lemma NewCopy.later (hm : NewCopy s g h k ren n m) (hkl : k.Intact l) : NewCopy s g h l ren n m where
  new := hm.new
  inside := hm.inside.trans_le hkl.grows.entries
  loose := (hkl.parent? hm.inside).trans hm.loose
  copied := hm.copied.later (hkl.later _)

lemma NewCopy.earlier (hm : NewCopy s g k l ren n m) (hhk : h.Grows k) : NewCopy s g h l ren n m :=
  { hm with
    new := hhk.entries.trans hm.new
    copied := hm.copied.of_le hhk.requests }

/-- Copies of nodes are new. -/
def MakesNodes (s : Swap) (g : Graph) (part : NodeId → Renames → Copy NodeId) : Prop :=
  ∀ n ren h, n.index < g.entries.size → h.Formed → g.Grows h → ren.Inside h →
    After (part n ren) h fun m k => h.Extended k ∧ NewCopy s g h k ren n m

/-- Copies of requests are new. -/
def MakesRequests (s : Swap) (g : Graph) (query : RequestId → Renames → Copy RequestId) : Prop :=
  ∀ r ren h, r.index < g.requests.size → h.Formed → g.Grows h → ren.Inside h →
    After (query r ren) h fun q k =>
      h.Extended k ∧ q.index < k.requests.size ∧ Copied s g k h.requests.size ren (.request r) (.request q)

section Parts

variable {part : NodeId → Renames → Copy NodeId} {query : RequestId → Renames → Copy RequestId}

lemma after_newCopies (hpart : MakesNodes s g part) (ns : List NodeId)
    (hns : ∀ n ∈ ns, n.index < g.entries.size) (hh : h.Formed) (hgh : g.Grows h) (hren : ren.Inside h) :
    After (ns.mapM (part · ren)) h fun ms k =>
      h.Extended k ∧ List.Forall₂ (NewCopy s g h k ren) ns ms := by
  induction ns generalizing h with
  | nil => exact after_pure ⟨.refl hh, .nil⟩
  | cons n ns ih =>
    rw [List.mapM_cons]
    refine (hpart n ren h (hns n List.mem_cons_self) hh hgh hren).bind fun m k ⟨hk, hm⟩ => ?_
    refine (ih (fun c hc => hns c (List.mem_cons_of_mem _ hc)) hk.formed (hgh.trans hk.grows)
      (hren.mono hk.grows)).bind fun ms l ⟨hl, hms⟩ => ?_
    exact after_pure ⟨hk.trans hl, .cons (hm.later hl.intact) (hms.imp fun _ _ h => h.earlier hk.grows)⟩

lemma index_add_lt (k : Graph) (x : Node) : k.entries.size < (k.add x).2.entries.size := by
  rw [size_entries_add]
  exact Nat.lt_succ_self _

/-- A new node over copied nodes is loose. -/
lemma after_newCopy (hk : h.Extended k) {x : Node} (hx : x.Inside k)
    (hchildren : ∀ c ∈ x.children, h.entries.size ≤ c.index ∧ c.index < k.entries.size)
    (hcopied : Copied s g (k.add x).2 h.requests.size ren (.node n) (.node ⟨k.entries.size⟩)) :
    After (liftM (Build.add x) : Copy NodeId) k fun m l => h.Extended l ∧ NewCopy s g h l ren n m := by
  refine after_lift ⟨⟨?_, ?_⟩, hk.grows.entries, index_add_lt k x, ?_, hcopied⟩
  · exact hk.formed.add hx fun c hc => (hchildren c hc).2
  · exact hk.intact.add fun c hc => (hchildren c hc).1
  · show (k.add x).2.parent? ⟨k.entries.size⟩ = none
    rw [parent?_add, if_neg fun h => Nat.lt_irrefl _ h.2]
    exact parent?_of_size_le (Nat.le_refl k.entries.size)

lemma makesNodes_copyNode (hg : g.Formed) (hs : s.Inside g) (hpart : MakesNodes s g part)
    (hquery : MakesRequests s g query) (hh : h.Formed) (hgh : g.Grows h) (hren : ren.Inside h) :
    After (s.copyNode part query (g.node n) ren) h fun m k =>
      h.Extended k ∧ NewCopy s g h k ren n m := by
  by_cases hsub : ∃ r, g.node n = .sub r
  · obtain ⟨r, hr⟩ := hsub
    rw [hr]
    refine (hquery r ren h ((hg.node n).2 r hr) hh hgh hren).bind ?_
    rintro q k ⟨hk, hq, hcopied⟩
    have hinside : (Node.sub q).Inside k := by
      refine ⟨by simp [Node.source?], fun q' hq' => ?_⟩
      cases hq'
      exact hq
    have hadd := later_add k (x := .sub q) (by simp [Node.children]) h.requests.size
    refine after_newCopy hk hinside (by simp [Node.children]) ?_
    exact .sub hr (index_add_lt k _) (node_add_self k _) (hcopied.later hadd)
  · have hsub : ∀ r, g.node n ≠ .sub r := fun r hr => hsub ⟨r, hr⟩
    rw [Swap.copyNode_eq part query hsub]
    refine (after_newCopies hpart _ (fun c hc => hg.closed.child n c hc) hh hgh hren).bind ?_
    rintro cs k ⟨hk, hcs⟩
    have hlike := Swap.like_refill s ren hcs.length_eq.symm
    have hchildren := Swap.children_refill s ren hcs.length_eq.symm
    generalize s.refill ren (g.node n) cs = x at hlike hchildren
    have hnew : ∀ d ∈ x.children, ∃ c ∈ (g.node n).children, NewCopy s g h k ren c d := by
      rw [hchildren]
      exact fun d hd => exists_of_mem_right hcs hd
    have hrange : ∀ d ∈ x.children, h.entries.size ≤ d.index ∧ d.index < k.entries.size := by
      intro d hd
      obtain ⟨c, -, hcd⟩ := hnew d hd
      exact ⟨hcd.new, hcd.inside⟩
    have hloose : ∀ d ∈ x.children, k.parent? d = none := by
      intro d hd
      obtain ⟨c, -, hcd⟩ := hnew d hd
      exact hcd.loose
    have hinside : x.Inside k := by
      constructor
      · intro b hb
        obtain ⟨a, ha, rfl⟩ := hlike.symm.source? hb
        refine (hren.mono hk.grows).read (hs.mono (hgh.trans hk.grows)) ?_
        exact ((hg.node n).1 a ha).trans_le (hgh.trans hk.grows).aliases
      · rintro r rfl
        obtain ⟨q, hq⟩ := hlike.symm.exists_sub
        exact absurd hq (hsub q)
    have hadd := later_add k hloose h.requests.size
    refine after_newCopy hk hinside hrange (.node hsub (index_add_lt k x) ?_ ?_ ?_)
    · rw [node_add_self]
      exact hlike
    · rw [node_add_self]
      intro d hd
      rw [parent?_add, if_pos ⟨hd, (hrange d hd).2⟩]
    · rw [node_add_self, hchildren]
      exact fun c d hcd => (List.forall₂_zip hcs hcd).copied.later hadd

/-! ### Sources -/

/-- Some sources of a request are copied for a new request `q`, which was not in `h`. -/
structure Matched (s : Swap) (g h : Graph) (ren : Renames) (r q : RequestId)
    (ps : List (AliasId × AliasId)) (k : Graph) : Prop where
  extended : h.Extended k
  new : h.requests.size ≤ q.index
  inside : q.index < k.requests.size
  outer : ren.Inside k
  names : (ren.own r q ps).Inside k
  fresh : ren.Fresh g k ps
  origin : ∀ a b, (a, b) ∈ ps → (g.aliasOf a).origin.Like (k.aliasOf b).origin
  inner : ∀ ps₁ a b ps₂ r' q', ps = ps₁ ++ (a, b) :: ps₂ → (g.aliasOf a).origin = .request r' →
    (k.aliasOf b).origin = .request q' →
    Copied s g k (q.index + 1) (ren.own r q ps₁) (.request r') (.request q')

variable {r q : RequestId} {ps : List (AliasId × AliasId)}

lemma Matched.later (hk : Matched s g h ren r q ps k) (hl : h.Extended l)
    (hkl : Later (q.index + 1) k l) : Matched s g h ren r q ps l where
  extended := hl
  new := hk.new
  inside := hk.inside.trans_le hkl.grows.requests
  outer := hk.outer.mono hkl.grows
  names := hk.names.mono hkl.grows
  fresh := { hk.fresh with inside := fun p hp => (hk.fresh.inside p hp).trans_le hkl.grows.aliases }
  origin a b hab := by
    rw [hkl.aliasOf b (hk.fresh.inside _ hab)]
    exact hk.origin a b hab
  inner ps₁ a b ps₂ r' q' hps hr' hq' := by
    rw [hkl.aliasOf b (hk.fresh.inside (a, b) (by simp [hps]))] at hq'
    exact (hk.inner ps₁ a b ps₂ r' q' hps hr' hq').later hkl

/-- A source gets a new alias over a copy of what it ranges over. -/
lemma after_freshAlias (hk : Matched s g h ren r q ps k) {a : AliasId} {d : Alias} (hd : d.Inside k)
    (hgk : g.Grows k) (horigin : (g.aliasOf a).origin.Like d.origin)
    (hinner : ∀ r' q', (g.aliasOf a).origin = .request r' → d.origin = .request q' →
      Copied s g k (q.index + 1) (ren.own r q ps) (.request r') (.request q')) :
    After (do
      let fresh ← (liftM (Build.addAlias d) : Copy AliasId)
      return { ren.own r q ps with aliases := (a, fresh) :: (ren.own r q ps).aliases }) k fun ren' l =>
        ∃ b, ren' = ren.own r q (ps ++ [(a, b)]) ∧ k.Intact l ∧
          Matched s g h ren r q (ps ++ [(a, b)]) l := by
  refine (after_addAlias d).bind ?_
  rintro b l ⟨rfl, rfl⟩
  have hintact := Intact.addAlias k d
  have hl := hk.later (hk.extended.trans ⟨hk.extended.formed.addAlias hd, hintact⟩) (hintact.later _)
  have hself : ((k.addAlias d).2.aliasOf ⟨k.aliases.size⟩).origin = d.origin := by
    rw [aliasOf_addAlias_self]
  refine after_pure ⟨_, Renames.own_snoc ren r q ps a _, hintact, hl.extended, hl.new, hl.inside, hl.outer,
    ?_, ?_, ?_, ?_⟩
  · rw [← Renames.own_snoc]
    refine ⟨fun c b hb => ?_, hl.names.request⟩
    rw [alias?_cons] at hb
    split at hb
    · cases hb
      rw [size_aliases_addAlias]
      exact Nat.lt_succ_self _
    · exact hl.names.source c b hb
  · refine hl.fresh.snoc a hgk.aliases ?_ (fun c hc => ?_) fun p hp heq => ?_
    · rw [size_aliases_addAlias]
      exact Nat.lt_succ_self _
    · exact (hk.outer.source c _ hc).false
    · have hlt := hk.fresh.inside p hp
      rw [heq] at hlt
      exact hlt.false
  · intro c b hb
    rcases List.mem_append.1 hb with hb | hb
    · exact hl.origin c b hb
    · cases List.mem_singleton.1 hb
      rw [hself]
      exact horigin
  · intro ps₁ c b ps₂ r' q' hps hr' hq'
    rcases List.eq_nil_or_concat' ps₂ with rfl | ⟨ps₂, p, rfl⟩
    · obtain ⟨rfl, hlast⟩ := List.append_inj' hps rfl
      cases hlast
      rw [hself] at hq'
      exact (hinner r' q' hr' hq').later (hintact.later _)
    · rw [← List.cons_append, ← List.append_assoc] at hps
      obtain ⟨hps, -⟩ := List.append_inj' hps rfl
      exact hl.inner ps₁ c b ps₂ r' q' hps hr' hq'

lemma after_matched_source (hg : g.Formed) (hs : s.Inside g) (hquery : MakesRequests s g query)
    (hk : Matched s g h ren r q ps k) (hgh : g.Grows h) (a : AliasId) :
    After (s.copySource g query (ren.own r q ps) a) k fun ren' l =>
      ∃ b, ren' = ren.own r q (ps ++ [(a, b)]) ∧ k.Intact l ∧
        Matched s g h ren r q (ps ++ [(a, b)]) l := by
  have hgk := hgh.trans hk.extended.grows
  have hsource := hg.source a
  -- the route of the new alias leads over copied aliases
  have hroute : ∀ {l : Graph}, k.Grows l →
      ∀ b ∈ (s.route (ren.own r q ps) (g.aliasOf a).route).aliases, b.index < l.aliases.size := by
    intro l hkl
    refine (hk.names.mono hkl).route (hs.mono (hgk.trans hkl)) fun b hb => ?_
    exact (hsource.2 b hb).trans_le (hgk.trans hkl).aliases
  unfold Swap.copySource
  cases horigin : (g.aliasOf a).origin with
  | table name =>
    simp only [horigin, pure_bind]
    refine after_freshAlias hk ⟨nofun, hroute (.refl k)⟩ hgk ?_ ?_
    · rw [horigin]
      exact .table name
    · rw [horigin]
      exact nofun
  | request r' =>
    simp only [horigin, map_eq_pure_bind, bind_assoc, pure_bind]
    refine (hquery r' _ k (hsource.1 r' horigin) hk.extended.formed hgk hk.names).bind
      fun q' l ⟨hl, hq', hcopied⟩ => ?_
    have hlater := hk.later (hk.extended.trans hl) (hl.intact.later _)
    refine (after_freshAlias hlater ⟨fun q hq => ?_, hroute hl.grows⟩ (hgk.trans hl.grows) ?_ ?_).mono ?_
    · cases hq
      exact hq'
    · rw [horigin]
      exact .request r' q'
    · intro r'' q'' hr'' hq''
      cases horigin.symm.trans hr''
      cases hq''
      exact hcopied.of_le hk.inside
    · rintro ren' l' ⟨b, hren', hl', hmatched⟩
      exact ⟨b, hren', hl.intact.trans hl', hmatched⟩

lemma after_matched_sources (hg : g.Formed) (hs : s.Inside g) (hquery : MakesRequests s g query)
    (hgh : g.Grows h) (as : List AliasId) (hk : Matched s g h ren r q ps k) :
    After (as.foldlM (s.copySource g query) (ren.own r q ps)) k fun ren' l =>
      ∃ ps', ps'.map Prod.fst = ps.map Prod.fst ++ as ∧ ren' = ren.own r q ps' ∧ k.Intact l ∧
        Matched s g h ren r q ps' l := by
  induction as generalizing k ps with
  | nil => exact after_pure ⟨ps, by simp, rfl, .refl k, hk⟩
  | cons a as ih =>
    rw [List.foldlM_cons]
    refine (after_matched_source hg hs hquery hk hgh a).bind ?_
    rintro _ l ⟨b, rfl, hkl, hl⟩
    refine (ih hl).mono ?_
    rintro ren' l' ⟨ps', hps', hren', hll', hl'⟩
    refine ⟨ps', ?_, hren', hkl.trans hll', hl'⟩
    rw [hps']
    simp

/-! ### Clauses -/

/-- A copied value in a clause of a new request. -/
structure Placed (s : Swap) (g k : Graph) (ren : Renames) (q : RequestId) (c d : NodeId) : Prop where
  copied : Copied s g k (q.index + 1) ren (.node c) (.node d)
  link : k.parent? d = some (.request q)

lemma Placed.later {c d : NodeId} (hcd : Placed s g k ren q c d) (hkl : Later (q.index + 1) k l) :
    Placed s g l ren q c d := ⟨hcd.copied.later hkl, hkl.parent? _ _ hcd.link⟩

/-- The new request is a copy of the request `x`, which has some of the clauses of `r`. -/
structure Filled (s : Swap) (g h : Graph) (ren : Renames) (r q : RequestId)
    (ps : List (AliasId × AliasId)) (x : Request) (k : Graph) : Prop
    extends Matched s g h ren r q ps k where
  like : x.Like (fun a b => s.refer (ren.own r q ps) a = b) (k.request q)
  parent : (k.request q).parent = (g.request r).parent.map ren.request
  values : x.Clausewise (Placed s g k (ren.own r q ps) q) (k.request q)

/-- The new request changes and gets new nodes. -/
lemma Matched.amend (hg : g.Formed) (hs : s.Inside g) (hgh : g.Grows h)
    (hk : Matched s g h ren r q ps k) (hl : k.Extended l) {ms : List NodeId}
    (hms : ∀ m ∈ ms, k.entries.size ≤ m.index ∧ l.parent? m = none) {y : Request}
    {f : Request → Request} (hlike : y.Like (fun a b => s.refer (ren.own r q ps) a = b) (f (k.request q)))
    (hparent : (f (k.request q)).parent = (k.request q).parent)
    (hclause : ∀ d ∈ (f (k.request q)).clauseNodes, d.index < l.entries.size)
    (horigins : ∀ a ∈ y.origins, a ∈ (g.request r).origins)
    (hkeyed : y.groupMembers.length = y.groups.length) :
    Matched s g h ren r q ps ((l.attachAll q ms).modifyRequest q f) ∧
      Later (q.index + 1) l ((l.attachAll q ms).modifyRequest q f) ∧
      ((l.attachAll q ms).modifyRequest q f).request q = f (k.request q) := by
  have hgrows := grows_attachAll q ms l
  have hq := hk.inside.trans_le hl.grows.requests
  have hattach : h.Extended (l.attachAll q ms) := by
    refine (hk.extended.trans hl).attachAll hq fun m hm => ?_
    exact hk.extended.grows.entries.trans (hms m hm).1
  have hlater : Later (q.index + 1) l ((l.attachAll q ms).modifyRequest q f) :=
    (later_attachAll (fun m hm => (hms m hm).2) _).trans (later_modifyRequest _ q f)
  have hrequest : (l.attachAll q ms).request q = k.request q := by
    rw [request_attachAll, hl.intact.request q hk.inside]
  have hfits : (f ((l.attachAll q ms).request q)).Fits (l.attachAll q ms) := by
    rw [hrequest]
    have hnames := hk.names.mono (hl.grows.trans hgrows)
    have hgl := (hgh.trans hk.extended.grows).trans (hl.grows.trans hgrows)
    refine ⟨⟨fun p hp => ?_, fun b hb => ?_⟩, fun d hd => ?_, ?_⟩
    · rw [hparent] at hp
      exact ((hk.extended.formed.request q).inside.1 p hp).trans_le (hl.grows.trans hgrows).requests
    · obtain ⟨a, ha, rfl⟩ := exists_of_mem_right (List.rel_append hlike.sources hlike.target) hb
      refine hnames.refer (hs.mono hgl) ?_
      exact ((hg.request r).inside.2 a (horigins a ha)).trans_le hgl.aliases
    · exact (hclause d hd).trans_le hgrows.entries
    · rw [← hlike.groupMembers, ← hlike.groups]
      exact hkeyed
  have hextended : h.Extended ((l.attachAll q ms).modifyRequest q f) :=
    ⟨hattach.formed.modifyRequest hfits, hattach.intact.modifyRequest hk.new f⟩
  refine ⟨(hk.later (hk.extended.trans hl) (hl.intact.later _)).later hextended hlater, hlater, ?_⟩
  rw [request_modifyRequest_self _ _ (hq.trans_le hgrows.requests), hrequest]

/-- New copies are put into a clause. -/
lemma Filled.push (hg : g.Formed) (hs : s.Inside g) (hgh : g.Grows h) {x y : Request}
    (hk : Filled s g h ren r q ps x k) (hl : k.Extended l) {ns ms : List NodeId}
    (hms : List.Forall₂ (NewCopy s g k l (ren.own r q ps)) ns ms) {f : Request → Request}
    (hlike : y.Like (fun a b => s.refer (ren.own r q ps) a = b) (f (k.request q)))
    (hvalues : ∀ R, x.Clausewise R (k.request q) → List.Forall₂ R ns ms →
      y.Clausewise R (f (k.request q)))
    (hparent : (f (k.request q)).parent = (k.request q).parent)
    (horigins : ∀ a ∈ y.origins, a ∈ (g.request r).origins)
    (hkeyed : y.groupMembers.length = y.groups.length) :
    Filled s g h ren r q ps y ((l.attachAll q ms).modifyRequest q f) := by
  have hnew : ∀ m ∈ ms, k.entries.size ≤ m.index ∧ l.parent? m = none := by
    intro m hm
    obtain ⟨n, -, hnm⟩ := exists_of_mem_right hms hm
    exact ⟨hnm.new, hnm.loose⟩
  have hclause : ∀ d ∈ (f (k.request q)).clauseNodes, d.index < l.entries.size := by
    have hall : y.Clausewise (fun _ d => d.index < l.entries.size) (f (k.request q)) := by
      refine hvalues _ (hk.values.mono fun c d hcd => ?_) (hms.imp fun n m hnm => hnm.inside)
      exact hcd.copied.inside_node.trans_le hl.grows.entries
    intro d hd
    obtain ⟨c, -, hcd⟩ := exists_of_mem_right hall.clauseNodes hd
    exact hcd
  obtain ⟨hmatched, hlater, hrequest⟩ :=
    hk.toMatched.amend hg hs hgh hl hnew hlike hparent hclause horigins hkeyed
  refine ⟨hmatched, ?_, ?_, ?_⟩
  all_goals rw [hrequest]
  · exact hlike
  · rw [hparent]
    exact hk.parent
  · refine hvalues _ (hk.values.mono fun c d hcd => ?_) (forall₂_mono hms fun n _ m hm hnm => ⟨?_, ?_⟩)
    · exact (hcd.later (hl.intact.later _)).later hlater
    · exact (hnm.copied.of_le hk.inside).later hlater
    · show (l.attachAll q ms).parent? m = _
      rw [parent?_attachAll, if_pos ⟨hm, hnm.inside⟩]

/-- A new request gets its sources. -/
lemma Matched.frame (hg : g.Formed) (hs : s.Inside g) (hgh : g.Grows h)
    (hk : Matched s g h ren r q ps k)
    (hq : k.request q = { parent := (g.request r).parent.map ren.request }) :
    Filled s g h ren r q ps ((g.request r).withClauses [] [] none none [] [] [] [])
      (k.modifyRequest q (s.frame (ren.own r q ps) (g.request r))) := by
  have hmapped : ∀ o : Option AliasId, List.Forall₂ (fun a b => s.refer (ren.own r q ps) a = b)
      o.toList (o.map (s.refer (ren.own r q ps))).toList := by
    intro o
    cases o with
    | none => exact .nil
    | some a => exact .cons rfl .nil
  have hlike : ((g.request r).withClauses [] [] none none [] [] [] []).Like
      (fun a b => s.refer (ren.own r q ps) a = b)
      (s.frame (ren.own r q ps) (g.request r) (k.request q)) := by
    rw [hq]
    refine ⟨rfl, ?_, ?_, hmapped _, .nil, .nil, rfl, rfl, rfl, rfl, .nil, rfl, rfl, rfl, rfl, rfl, rfl⟩
    · exact (Option.isSome_map).symm
    · exact List.rel_append (hmapped _) .nil
  have hbare : (s.frame (ren.own r q ps) (g.request r) (k.request q)).clauseNodes = [] := by
    rw [hq]
    rfl
  have horigins : ∀ a ∈ ((g.request r).withClauses [] [] none none [] [] [] []).origins,
      a ∈ (g.request r).origins := by
    intro a ha
    rw [Request.mem_origins] at ha ⊢
    rcases ha with ha | ⟨j, hj, -⟩ | ha
    · exact .inl ha
    · cases hj
    · exact .inr (.inr ha)
  have hnone : ∀ m ∈ ([] : List NodeId), k.entries.size ≤ m.index ∧ k.parent? m = none := nofun
  obtain ⟨hmatched, -, hrequest⟩ :=
    hk.amend hg hs hgh (.refl hk.extended.formed) hnone hlike rfl (by simp [hbare]) horigins rfl
  replace hrequest : (k.modifyRequest q (s.frame (ren.own r q ps) (g.request r))).request q =
    s.frame (ren.own r q ps) (g.request r) (k.request q) := hrequest
  refine ⟨hmatched, ?_, ?_, ?_⟩
  all_goals rw [hrequest]
  · exact hlike
  · rw [hq]
    rfl
  · rw [hq]
    exact ⟨.nil, .nil, .nil, .nil, .nil, .nil, .nil⟩

/-- An invariant of a loop that tells how far the loop is. -/
lemma after_forM_progress {α : Type} {f : α → Copy PUnit} {I : List α → Graph → Prop} (as : List α)
    (hf : ∀ done a rest, as = done ++ a :: rest → ∀ k, I done k →
      After (f a) k fun _ => I (done ++ [a])) (hk : I [] k) : After (as.forM f) k fun _ => I as := by
  suffices hrest : ∀ done rest, as = done ++ rest → ∀ k, I done k →
      After (rest.forM f) k fun _ => I as from hrest [] as rfl k hk
  intro done rest
  induction rest generalizing done with
  | nil =>
    intro has k hk
    rw [List.append_nil] at has
    exact after_pure (has ▸ hk)
  | cons a rest ih =>
    intro has k hk
    refine (hf done a rest has k hk).bind fun _ l hl => ?_
    exact ih (done ++ [a]) (by simp [has]) l hl

/-- A value is copied and put into a clause. -/
lemma Filled.after_push (hg : g.Formed) (hs : s.Inside g) (hpart : MakesNodes s g part)
    (hgh : g.Grows h) {x y : Request} (hk : Filled s g h ren r q ps x k) {n : NodeId}
    (hn : n ∈ (g.request r).clauseNodes) {put : NodeId → Graph → Graph} {f : NodeId → Request → Request}
    (hput : ∀ m l, l.request q = k.request q → put m l = (l.attachAll q [m]).modifyRequest q (f m))
    (hlike : ∀ m, y.Like (fun a b => s.refer (ren.own r q ps) a = b) (f m (k.request q)))
    (hvalues : ∀ R m, x.Clausewise R (k.request q) → R n m → y.Clausewise R (f m (k.request q)))
    (hparent : ∀ m, (f m (k.request q)).parent = (k.request q).parent)
    (horigins : ∀ a ∈ y.origins, a ∈ (g.request r).origins)
    (hkeyed : y.groupMembers.length = y.groups.length) :
    After (do let m ← part n (ren.own r q ps); modify (put m)) k fun _ =>
      Filled s g h ren r q ps y := by
  refine (hpart n _ k (hg.closed.clause r n hn) hk.extended.formed (hgh.trans hk.extended.grows)
    hk.names).bind fun m l ⟨hl, hm⟩ => after_modify ?_
  rw [hput m l (hl.intact.request q hk.inside)]
  refine hk.push hg hs hgh hl (.cons hm .nil) (hlike m) (fun R hR hall => ?_) (hparent m) horigins hkeyed
  cases hall with
  | cons h _ => exact hvalues R m hR h

/-- A new request, of which nothing is copied yet. -/
lemma matched_addRequest (hg : g.Formed) (hh : h.Formed) (hgh : g.Grows h) (hren : ren.Inside h)
    (r : RequestId) :
    Matched s g h ren r ⟨h.requests.size⟩ []
      (h.addRequest ((g.request r).parent.map ren.request)).2 := by
  have hparent : ∀ p, (g.request r).parent.map ren.request = some p → p.index < h.requests.size := by
    intro p hp
    obtain ⟨p', hp', rfl⟩ := Option.map_eq_some_iff.1 hp
    exact hren.outer (((hg.request r).inside.1 p' hp').trans_le hgh.requests)
  have hgrows := grows_addRequest h ((g.request r).parent.map ren.request)
  have hlt : h.requests.size <
      (h.addRequest ((g.request r).parent.map ren.request)).2.requests.size := by
    rw [size_requests_addRequest]
    exact Nat.lt_succ_self _
  refine ⟨⟨hh.addRequest hparent, Intact.addRequest h _⟩, le_rfl, hlt, hren.mono hgrows, ?_, ?_, ?_, ?_⟩
  · refine ⟨(hren.mono hgrows).source, fun r' q hq => ?_⟩
    rw [Renames.own, List.lookup_cons] at hq
    split at hq
    · cases hq
      exact hlt
    · exact (hren.mono hgrows).request r' q hq
  · exact ⟨by simp, by simp, by simp, List.nodup_nil⟩
  · simp
  · simp

lemma after_forM_option_progress {α : Type} {f : α → Copy PUnit} {I : Option α → Graph → Prop}
    (o : Option α) (hf : ∀ a, o = some a → After (f a) k fun _ => I (some a)) (hk : I none k) :
    After (o.forM f) k fun _ => I o := by
  cases o with
  | none => exact after_pure hk
  | some a => exact hf a rfl

section Clauses

variable (hg : g.Formed) (hs : s.Inside g) (hpart : MakesNodes s g part) (hgh : g.Grows h) {x : Request}
  (hx : g.request r = x)
include hg hs hpart hgh hx

lemma after_copyJoins
    (hk : Filled s g h ren r q ps (x.withClauses [] [] none none [] [] [] []) k) :
    After (x.joins.forM fun j => do
      let n ← part j.condition (ren.own r q ps)
      modify (·.pushJoin q { j with source := s.refer (ren.own r q ps) j.source, condition := n })) k
      fun _ => Filled s g h ren r q ps (x.withClauses x.joins [] none none [] [] [] []) := by
  subst hx
  refine after_forM_progress (I := fun js => Filled s g h ren r q ps
    ((g.request r).withClauses js [] none none [] [] [] [])) _ (fun js j rest hjs k hk => ?_) hk
  have hj : j ∈ (g.request r).joins := by simp [hjs]
  refine hk.after_push hg hs hpart hgh (Request.mem_clauseNodes.2 (.inl ⟨j, hj, rfl⟩))
    (f := fun m y => { y with
      joins := y.joins ++ [{ j with source := s.refer (ren.own r q ps) j.source, condition := m }] })
    (fun m l _ => rfl) (fun m => ?_) (fun R m hR hm => ?_) (fun m => rfl) ?_ rfl
  · refine { hk.like with joins := List.rel_append hk.like.joins (.cons rfl .nil), sources := ?_ }
    simp only [Request.sources, Request.withClauses, List.map_append, ← List.append_assoc]
    exact List.rel_append hk.like.sources (.cons rfl .nil)
  · exact { hR with joins := List.rel_append hR.joins (.cons hm .nil) }
  · intro a ha
    rw [Request.mem_origins] at ha ⊢
    rcases ha with ha | ⟨i, hi, rfl⟩ | ha
    · exact .inl ha
    · refine .inr (.inl ⟨i, ?_, rfl⟩)
      rw [hjs, ← List.singleton_append, ← List.append_assoc]
      exact List.mem_append_left _ hi
    · exact .inr (.inr ha)

lemma after_copyItems
    (hk : Filled s g h ren r q ps (x.withClauses x.joins [] none none [] [] [] []) k) :
    After (x.items.forM fun i => do
      let n ← part i.node (ren.own r q ps)
      modify (·.pushItem q { i with node := n })) k
      fun _ => Filled s g h ren r q ps (x.withClauses x.joins x.items none none [] [] [] []) := by
  subst hx
  refine after_forM_progress (I := fun is => Filled s g h ren r q ps
    ((g.request r).withClauses (g.request r).joins is none none [] [] [] [])) _
      (fun is i rest his k hk => ?_) hk
  have hi : i ∈ (g.request r).items := by simp [his]
  refine hk.after_push hg hs hpart hgh (Request.mem_clauseNodes.2 (.inr (.inl ⟨i, hi, rfl⟩)))
    (f := fun m y => { y with items := y.items ++ [{ i with node := m }] })
    (fun m l _ => rfl) (fun m => ?_) (fun R m hR hm => ?_) (fun m => rfl) (fun _ ha => ha) rfl
  · exact { hk.like with items := List.rel_append hk.like.items (.cons ⟨rfl, rfl, rfl⟩ .nil) }
  · exact { hR with items := List.rel_append hR.items (.cons hm .nil) }

lemma after_copyFilter
    (hk : Filled s g h ren r q ps (x.withClauses x.joins x.items none none [] [] [] []) k) :
    After (x.filter.forM fun n => do
      let n ← part n (ren.own r q ps)
      modify (·.andFilter q n)) k
      fun _ => Filled s g h ren r q ps (x.withClauses x.joins x.items x.filter none [] [] [] []) := by
  subst hx
  refine after_forM_option_progress (I := fun o => Filled s g h ren r q ps
    ((g.request r).withClauses (g.request r).joins (g.request r).items o none [] [] [] [])) _
      (fun n hn => ?_) hk
  have hnone : (k.request q).filter = none := by
    simpa [Request.withClauses] using hk.like.filter.symm
  refine hk.after_push hg hs hpart hgh (Request.mem_clauseNodes.2 (.inr (.inr (.inl hn))))
    (f := fun m y => { y with filter := some m })
    (fun m l hl => ?_) (fun m => ?_) (fun R m hR hm => ?_) (fun m => rfl) (fun _ ha => ha) rfl
  · rw [← hl] at hnone
    exact andFilter_of_none l m hnone
  · exact { hk.like with filter := rfl }
  · exact { hR with filter := .cons hm .nil }

lemma after_copyHaving
    (hk : Filled s g h ren r q ps (x.withClauses x.joins x.items x.filter none [] [] [] []) k) :
    After (x.having.forM fun n => do
      let n ← part n (ren.own r q ps)
      modify (·.andHaving q n)) k
      fun _ => Filled s g h ren r q ps (x.withClauses x.joins x.items x.filter x.having [] [] [] []) := by
  subst hx
  refine after_forM_option_progress (I := fun o => Filled s g h ren r q ps ((g.request r).withClauses
    (g.request r).joins (g.request r).items (g.request r).filter o [] [] [] [])) _ (fun n hn => ?_) hk
  have hnone : (k.request q).having = none := by
    simpa [Request.withClauses] using hk.like.having.symm
  refine hk.after_push hg hs hpart hgh (Request.mem_clauseNodes.2 (.inr (.inr (.inr (.inl hn)))))
    (f := fun m y => { y with having := some m })
    (fun m l hl => ?_) (fun m => ?_) (fun R m hR hm => ?_) (fun m => rfl) (fun _ ha => ha) rfl
  · rw [← hl] at hnone
    simp only [andHaving, hnone]
    rfl
  · exact { hk.like with having := rfl }
  · exact { hR with having := .cons hm .nil }

lemma after_copyGroups
    (hk : Filled s g h ren r q ps (x.withClauses x.joins x.items x.filter x.having [] [] [] []) k) :
    After ((x.groups.zip x.groupMembers).forM fun (n, p) => do
      let n ← part n (ren.own r q ps)
      modify (·.pushGroup q n p)) k
      fun _ => Filled s g h ren r q ps
        (x.withClauses x.joins x.items x.filter x.having x.groups x.groupMembers [] []) := by
  subst hx
  have hkeyed := (hg.request r).keyed
  have hloop : After (((g.request r).groups.zip (g.request r).groupMembers).forM fun (n, p) => do
      let n ← part n (ren.own r q ps)
      modify (·.pushGroup q n p)) k fun _ => Filled s g h ren r q ps ((g.request r).withClauses
        (g.request r).joins (g.request r).items (g.request r).filter (g.request r).having
        (((g.request r).groups.zip (g.request r).groupMembers).map Prod.fst)
        (((g.request r).groups.zip (g.request r).groupMembers).map Prod.snd) [] []) := by
    refine after_forM_progress (I := fun keys => Filled s g h ren r q ps ((g.request r).withClauses
      (g.request r).joins (g.request r).items (g.request r).filter (g.request r).having
      (keys.map Prod.fst) (keys.map Prod.snd) [] [])) _ (fun keys key rest hkeys k hk => ?_) hk
    have hn : key.1 ∈ (g.request r).groups := by
      have hmem : key ∈ (g.request r).groups.zip (g.request r).groupMembers := by simp [hkeys]
      exact (List.of_mem_zip hmem).1
    refine hk.after_push hg hs hpart hgh
      (Request.mem_clauseNodes.2 (.inr (.inr (.inr (.inr (.inl hn))))))
      (f := fun m y => { y with
        groups := y.groups ++ [m], groupMembers := y.groupMembers ++ [key.2] })
      (fun m l _ => rfl) (fun m => ?_) (fun R m hR hm => ?_) (fun m => rfl) (fun _ ha => ha) ?_
    · refine { hk.like with groups := ?_, groupMembers := ?_ }
      · have hgroups := hk.like.groups
        simp only [Request.withClauses, List.map_append, List.length_append] at hgroups ⊢
        rw [hgroups]
        rfl
      · rw [← hk.like.groupMembers]
        simp [Request.withClauses]
    · refine { hR with groups := ?_ }
      simp only [Request.withClauses, List.map_append]
      exact List.rel_append hR.groups (.cons hm .nil)
    · simp [Request.withClauses]
  rw [List.map_fst_zip hkeyed.ge, List.map_snd_zip hkeyed.le] at hloop
  exact hloop

lemma after_copyOrders (hk : Filled s g h ren r q ps
      (x.withClauses x.joins x.items x.filter x.having x.groups x.groupMembers [] []) k) :
    After (x.orders.forM fun o => do
      let n ← part o.node (ren.own r q ps)
      modify (·.pushOrder q n o.ascending)) k
      fun _ => Filled s g h ren r q ps
        (x.withClauses x.joins x.items x.filter x.having x.groups x.groupMembers x.orders []) := by
  subst hx
  refine after_forM_progress (I := fun os => Filled s g h ren r q ps ((g.request r).withClauses
    (g.request r).joins (g.request r).items (g.request r).filter (g.request r).having
    (g.request r).groups (g.request r).groupMembers os [])) _ (fun os o rest hos k hk => ?_) hk
  have ho : o ∈ (g.request r).orders := by simp [hos]
  refine hk.after_push hg hs hpart hgh
    (Request.mem_clauseNodes.2 (.inr (.inr (.inr (.inr (.inr (.inl ⟨o, ho, rfl⟩)))))))
    (f := fun m y => { y with orders := y.orders ++ [⟨m, o.ascending⟩] })
    (fun m l _ => rfl) (fun m => ?_) (fun R m hR hm => ?_) (fun m => rfl) (fun _ ha => ha)
    (hg.request r).keyed
  · exact { hk.like with orders := List.rel_append hk.like.orders (.cons rfl .nil) }
  · exact { hR with orders := List.rel_append hR.orders (.cons hm .nil) }

lemma after_copyAssignments (hk : Filled s g h ren r q ps
      (x.withClauses x.joins x.items x.filter x.having x.groups x.groupMembers x.orders []) k) :
    After (x.assignments.forM fun a => do
      let column ← part a.column (ren.own r q ps)
      let value ← part a.value (ren.own r q ps)
      modify (·.pushAssignment q ⟨column, value⟩)) k fun _ => Filled s g h ren r q ps x := by
  subst hx
  refine after_forM_progress (I := fun as => Filled s g h ren r q ps ((g.request r).withClauses
    (g.request r).joins (g.request r).items (g.request r).filter (g.request r).having
    (g.request r).groups (g.request r).groupMembers (g.request r).orders as)) _
      (fun as a rest has k hk => ?_) hk
  have ha : a ∈ (g.request r).assignments := by simp [has]
  have hin : ∀ n, n = a.column ∨ n = a.value → n.index < g.entries.size := fun n hn =>
    hg.closed.clause r n (Request.mem_clauseNodes.2 (.inr (.inr (.inr (.inr (.inr (.inr ⟨a, ha, hn⟩)))))))
  have hgk := hgh.trans hk.extended.grows
  refine (hpart a.column _ k (hin _ (.inl rfl)) hk.extended.formed hgk hk.names).bind
    fun column l ⟨hl, hcolumn⟩ => ?_
  refine (hpart a.value _ l (hin _ (.inr rfl)) hl.formed (hgk.trans hl.grows)
    (hk.names.mono hl.grows)).bind fun value l' ⟨hl', hvalue⟩ => after_modify ?_
  have hboth : List.Forall₂ (NewCopy s g k l' (ren.own r q ps)) [a.column, a.value] [column, value] :=
    .cons (hcolumn.later hl'.intact) (.cons (hvalue.earlier hl.grows) .nil)
  refine hk.push hg hs hgh (hl.trans hl') hboth
    (f := fun y => { y with assignments := y.assignments ++ [⟨column, value⟩] }) ?_
    (fun R hR hall => ?_) rfl (fun _ ha => ha) (hg.request r).keyed
  · refine { hk.like with assignments := ?_ }
    have hlength := hk.like.assignments
    simp only [Request.withClauses, List.length_append] at hlength ⊢
    rw [hlength]
    rfl
  · refine { hR with assignments := List.rel_append hR.assignments (.cons ?_ .nil) }
    cases hall with
    | cons hcolumn hall =>
      cases hall with
      | cons hvalue _ => exact ⟨hcolumn, hvalue⟩

end Clauses

/-- The copied request, clause by clause. -/
lemma makesRequests_copyRequest (hg : g.Formed) (hs : s.Inside g) (hpart : MakesNodes s g part)
    (hquery : MakesRequests s g query) (r : RequestId) (hh : h.Formed) (hgh : g.Grows h)
    (hren : ren.Inside h) :
    After (s.copyRequest g part query r ren) h fun q k => h.Extended k ∧ q.index < k.requests.size ∧
      Copied s g k h.requests.size ren (.request r) (.request q) := by
  unfold Swap.copyRequest
  refine (after_addRequest _).bind ?_
  rintro q h₁ ⟨rfl, rfl⟩
  have hstart := matched_addRequest (s := s) hg hh hgh hren r
  refine (after_matched_sources hg hs hquery hgh (g.request r).sources hstart).bind ?_
  rintro _ h₂ ⟨ps, hps, rfl, hintact, hmatched⟩
  have hnew := hintact.request _ hstart.inside
  rw [request_addRequest_self] at hnew
  generalize (⟨h.requests.size⟩ : RequestId) = q at hmatched hnew
  refine (after_modify (Q := fun _ => Filled s g h ren r q ps _) (hmatched.frame hg hs hgh hnew)).bind
    fun _ k₀ hk₀ => ?_
  refine (after_copyJoins hg hs hpart hgh rfl hk₀).bind fun _ k₁ hk₁ => ?_
  refine (after_copyItems hg hs hpart hgh rfl hk₁).bind fun _ k₂ hk₂ => ?_
  refine (after_copyFilter hg hs hpart hgh rfl hk₂).bind fun _ k₃ hk₃ => ?_
  refine (after_copyHaving hg hs hpart hgh rfl hk₃).bind fun _ k₄ hk₄ => ?_
  refine (after_copyGroups hg hs hpart hgh rfl hk₄).bind fun _ k₅ hk₅ => ?_
  refine (after_copyOrders hg hs hpart hgh rfl hk₅).bind fun _ k₆ hk₆ => ?_
  refine (after_copyAssignments hg hs hpart hgh rfl hk₆).bind fun _ k hk => ?_
  refine after_pure ⟨hk.extended, hk.inside, ?_⟩
  refine .request hk.new hk.inside ?_ hk.fresh hk.like hk.parent (fun d hd => ?_) hk.origin
    hk.inner fun c d hcd => ?_
  · simpa using hps
  · obtain ⟨c, -, hcd⟩ := exists_of_mem_right hk.values.clauseNodes hd
    exact hcd.link
  · exact (List.forall₂_zip hk.values.clauseNodes hcd).copied

end Parts

/-! ### Copies -/

/-- Copying makes copies, by induction on the depth of the reading. -/
theorem makes_read (hg : g.Formed) (hs : s.Inside g) (fuel : Nat) (above : List RequestId) :
    MakesNodes s g (g.readNodeWithin (s.copying g) fuel above) ∧
      MakesRequests s g (g.readRequestWithin (s.copying g) fuel above) := by
  induction fuel generalizing above with
  | zero => exact ⟨fun _ _ _ _ _ _ _ => after_failure, fun _ _ _ _ _ _ _ => after_failure⟩
  | succ fuel ih =>
    constructor
    · intro n ren h _ hh hgh hren
      exact makesNodes_copyNode hg hs (ih above).1 (ih above).2 hh hgh hren
    · intro r ren h _ hh hgh hren
      rw [readRequestWithin]
      split
      · exact after_failure
      · exact makesRequests_copyRequest hg hs (ih (r :: above)).1 (ih (r :: above)).2 r hh hgh hren

/-- **A copy of a value** is new and part of nothing, and everything else is as it was. -/
theorem newCopy_copy (hg : g.Formed) (hs : s.Inside g) (hn : n.index < g.entries.size)
    (hrun : (Build.copy s n).run g = (some m, h)) : g.Extended h ∧ NewCopy s g g h {} n m := by
  have hread := (makes_read hg hs g.height []).1 n {} g hn hg (.refl g) ⟨nofun, nofun⟩
  exact hread _ _ (Build.run_copy_eq_some.1 hrun)

/-- Nothing in the way of a copy: a part is never met inside itself. -/
lemma succeeds_read (hg : g.Closed) (s : Swap) (fuel : Nat) (above : List RequestId) :
    (∀ n, Ends g.Carries (.node n) → Enough (g.depth g.Carries) (.node n) fuel above →
      ∀ ren, Succeeds (g.readNodeWithin (s.copying g) fuel above n ren)) ∧
    ∀ r, Ends g.Carries (.request r) → Enough (g.depth g.Carries) (.request r) fuel above →
      ∀ ren, Succeeds (g.readRequestWithin (s.copying g) fuel above r ren) := by
  induction fuel generalizing above with
  | zero =>
    exact ⟨fun n _ hn => absurd hn.1 (Nat.not_lt_zero _), fun r _ hr => absurd hr.1 (Nat.not_lt_zero _)⟩
  | succ fuel ih =>
    constructor
    · intro n hends hn
      refine s.succeeds_copyNode (fun c hc => ?_) fun r hr => ?_
      · exact (ih above).1 c (hends.step (.child hc)) (hn.part (hg.falls hends (.child hc)))
      · exact (ih above).2 r (hends.step (.sub hr)) (hn.part (hg.falls hends (.sub hr)))
    · intro r hends hr
      rw [readRequestWithin, if_neg fun hmem => (hr.2 r hmem).false]
      refine s.succeeds_copyRequest (fun n hn => ?_) fun a ha q hq => ?_
      · exact (ih (r :: above)).1 n (hends.step (.clause hn))
          (hr.inside (hg.falls hends (.clause hn)))
      · exact (ih (r :: above)).2 q (hends.step (.source ha hq))
          (hr.inside (hg.falls hends (.source ha hq)))

/-- **A value that does not contain itself has a copy.** -/
theorem exists_copy (hg : g.Closed) (hn : Ends g.Carries (.node n)) (hin : n.index < g.entries.size)
    (s : Swap) : ∃ m h, (Build.copy s n).run g = (some m, h) := by
  have henough : Enough (g.depth g.Carries) (.node n) g.height [] := hn.enough hin (size_le_height g)
  obtain ⟨⟨m, h⟩, hrun⟩ :=
    Option.isSome_iff_exists.1 ((succeeds_read hg s g.height []).1 n hn henough {} g)
  exact ⟨m, h, Build.run_copy_eq_some.2 hrun⟩

end Graph

end EntityQuery.Sql
