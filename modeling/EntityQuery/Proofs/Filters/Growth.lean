import EntityQuery.Proofs.Filters.Joins

/-!
How a graph grows while a filter is compiled.

* `Sound`: the nodes of a graph are younger than their children, and a request is complete before it
  becomes a value; requests that are still built are no values yet.
* `Kept`: what is in a graph stays there, up to some requests and the parameters of some aliases.
* `Grown`: a request gains sources while everything else stays. The parameters in scope keep what
  they stand for.
-/

namespace EntityQuery.Sql.Graph

/-! ### Sound graphs -/

/-- Parts are older than what they are part of, and requests that are still built are part of
nothing. -/
structure Sound (g : Graph) (opened : List RequestId) : Prop where
  ordered : g.Ordered
  sub : ∀ m s, g.node m = .sub s → s ∉ opened ∧ s.index < g.requests.size ∧
    ∀ n ∈ (g.request s).clauseNodes, n.index < m.index
  clause : ∀ r, ∀ n ∈ (g.request r).clauseNodes, n.index < g.entries.size
  source : ∀ r, ∀ a ∈ (g.request r).origins, a.index < g.aliases.size
  table : ∀ a s, (g.aliasOf a).origin ≠ .request s

namespace Sound

variable {g h : Graph} {C : List RequestId}

/-- A sound graph has no request inside itself. -/
lemma acyclic (hg : g.Sound C) : g.Acyclic :=
  acyclic_of_older hg.ordered (fun m s hm => (hg.sub m s hm).2.2) fun _ a _ s => hg.table a s

lemma close {r : RequestId} (hg : g.Sound (r :: C)) : g.Sound C :=
  { hg with sub := fun m s hm => ⟨fun hs => (hg.sub m s hm).1 (List.mem_cons_of_mem _ hs),
      (hg.sub m s hm).2⟩ }

/-- Links upwards and parameters play no part. -/
lemma congr (hg : g.Sound C) (hentries : h.entries.size = g.entries.size)
    (hnode : ∀ n, h.node n = g.node n) (haliases : h.aliases.size = g.aliases.size)
    (horigin : ∀ a, (h.aliasOf a).origin = (g.aliasOf a).origin)
    (hrequests : h.requests = g.requests) : h.Sound C := by
  have hrequest : ∀ r, h.request r = g.request r := fun r => by rw [request, hrequests, request]
  constructor
  · intro n c hc
    rw [hnode] at hc
    exact hg.ordered n c hc
  · intro m s hm
    rw [hnode] at hm
    rw [hrequests, hrequest]
    exact hg.sub m s hm
  · intro r n hn
    rw [hrequest] at hn
    rw [hentries]
    exact hg.clause r n hn
  · intro r a ha
    rw [hrequest] at ha
    rw [haliases]
    exact hg.source r a ha
  · intro a s
    rw [horigin]
    exact hg.table a s

lemma attach (hg : g.Sound C) (r : RequestId) (n : NodeId) : (g.attach r n).Sound C :=
  hg.congr (by simp) (by simp) rfl (fun _ => rfl) rfl

lemma bind (hg : g.Sound C) (a : AliasId) (p : ParamId) : (g.bind a p).Sound C := by
  refine hg.congr rfl (fun _ => rfl) (by simp) (fun b => ?_) rfl
  exact Alias.origin_eq_of_bare (bare_bind g a b p)

lemma add (hg : g.Sound C) {x : Node} (hx : ∀ c ∈ x.children, c.index < g.entries.size)
    (hsub : ∀ s, x = .sub s → s ∉ C ∧ s.index < g.requests.size) : (g.add x).2.Sound C := by
  constructor
  · intro n c hc
    rw [node_add] at hc
    split at hc
    · have := hx c hc
      omega
    · exact hg.ordered n c hc
  · intro m s hm
    rw [node_add] at hm
    rw [requests_add, request_add]
    split at hm
    · rename_i hindex
      exact ⟨(hsub s hm).1, (hsub s hm).2, fun n hn => hindex ▸ hg.clause s n hn⟩
    · exact hg.sub m s hm
  · intro r n hn
    rw [request_add] at hn
    rw [size_entries_add]
    exact (hg.clause r n hn).trans (Nat.lt_succ_self _)
  · intro r a ha
    rw [request_add] at ha
    rw [aliases_add]
    exact hg.source r a ha
  · intro a s
    rw [aliasOf_add]
    exact hg.table a s

lemma addAlias (hg : g.Sound C) {d : Alias} (hd : ∀ s, d.origin ≠ .request s) :
    (g.addAlias d).2.Sound C := by
  refine { ordered := hg.ordered, sub := hg.sub, clause := hg.clause, source := ?_, table := ?_ }
  · intro r a ha
    rw [size_aliases_addAlias]
    exact (hg.source r a ha).trans (Nat.lt_succ_self _)
  · intro a s
    rw [aliasOf_addAlias]
    split
    · exact hd s
    · exact hg.table a s

lemma addRequest (hg : g.Sound C) (parent : Option RequestId) :
    (g.addRequest parent).2.Sound (⟨g.requests.size⟩ :: C) := by
  have hparts : ({ parent } : Request).clauseNodes = [] ∧ ({ parent } : Request).origins = [] := by
    simp [Request.clauseNodes, Request.origins, Request.sources]
  refine { ordered := hg.ordered, sub := ?_, clause := ?_, source := ?_, table := hg.table }
  · intro m s hm
    obtain ⟨hs, hlt, hn⟩ := hg.sub m s hm
    rw [size_requests_addRequest, request_addRequest_of_lt g parent hlt]
    refine ⟨?_, hlt.trans (Nat.lt_succ_self _), hn⟩
    rw [List.mem_cons, not_or]
    refine ⟨?_, hs⟩
    rintro rfl
    exact hlt.false
  · intro r n hn
    rw [request_addRequest] at hn
    split at hn
    · rw [hparts.1] at hn
      cases hn
    · exact hg.clause r n hn
  · intro r a ha
    rw [request_addRequest] at ha
    split at ha
    · rw [hparts.2] at ha
      cases ha
    · exact hg.source r a ha

lemma modifyRequest (hg : g.Sound C) {r : RequestId} (hr : r ∈ C) {f : Request → Request}
    (hclause : ∀ n ∈ (f (g.request r)).clauseNodes, n.index < g.entries.size)
    (hsource : ∀ a ∈ (f (g.request r)).origins, a.index < g.aliases.size) :
    (g.modifyRequest r f).Sound C := by
  have hcases : ∀ q, (g.modifyRequest r f).request q = f (g.request r) ∨
      (g.modifyRequest r f).request q = g.request q := by
    intro q
    by_cases hq : q = r
    · subst hq
      by_cases hlt : q.index < g.requests.size
      · exact .inl (request_modifyRequest_self g f hlt)
      · refine .inr ?_
        simp [request, Graph.modifyRequest, Array.getD_eq_getD_getElem?, Array.getElem?_modify,
          Array.getElem?_eq_none (Nat.not_lt.1 hlt)]
    · exact .inr (request_modifyRequest_of_ne g f hq)
  refine { ordered := hg.ordered, sub := ?_, clause := ?_, source := ?_, table := hg.table }
  · intro m s hm
    obtain ⟨hs, hlt, hn⟩ := hg.sub m s hm
    have hne : s ≠ r := by
      rintro rfl
      exact hs hr
    rw [size_requests_modifyRequest, request_modifyRequest_of_ne g f hne]
    exact ⟨hs, hlt, hn⟩
  · intro q n hn
    rcases hcases q with hq | hq
    · rw [hq] at hn
      exact hclause n hn
    · rw [hq] at hn
      exact hg.clause q n hn
  · intro q a ha
    rcases hcases q with hq | hq
    · rw [hq] at ha
      exact hsource a ha
    · rw [hq] at ha
      exact hg.source q a ha

end Sound

end EntityQuery.Sql.Graph

/-! ### Clauses of a request that is built -/

namespace EntityQuery.Sql.Graph

namespace Sound

variable {g : Graph} {C : List RequestId} {r : RequestId}

lemma pushJoin (hg : g.Sound C) (hr : r ∈ C) {j : Join} (hsource : j.source.index < g.aliases.size)
    (hcondition : j.condition.index < g.entries.size) : (g.pushJoin r j).Sound C := by
  refine (hg.attach r j.condition).modifyRequest hr (fun n hn => ?_) fun a ha => ?_
  · have hold := hg.clause r n
    rw [Request.mem_clauseNodes] at hold hn
    rw [size_entries_attach]
    rcases hn with ⟨i, hi, rfl⟩ | hn
    · rcases List.mem_append.1 hi with hi | hi
      · exact hold (.inl ⟨i, hi, rfl⟩)
      · rw [List.mem_singleton.1 hi]
        exact hcondition
    · exact hold (.inr hn)
  · have hold := hg.source r a
    rw [Request.mem_origins] at hold ha
    rcases ha with hbase | ⟨i, hi, rfl⟩ | htarget
    · exact hold (.inl hbase)
    · rcases List.mem_append.1 hi with hi | hi
      · exact hold (.inr (.inl ⟨i, hi, rfl⟩))
      · rw [List.mem_singleton.1 hi]
        exact hsource
    · exact hold (.inr (.inr htarget))

lemma pushItem (hg : g.Sound C) (hr : r ∈ C) {i : Item} (hi : i.node.index < g.entries.size) :
    (g.pushItem r i).Sound C := by
  refine (hg.attach r i.node).modifyRequest hr (fun n hn => ?_) fun a ha => hg.source r a ha
  have hold := hg.clause r n
  rw [Request.mem_clauseNodes] at hold hn
  rw [size_entries_attach]
  rcases hn with hn | ⟨i', hi', rfl⟩ | hn
  · exact hold (.inl hn)
  · rcases List.mem_append.1 hi' with hi' | hi'
    · exact hold (.inr (.inl ⟨i', hi', rfl⟩))
    · rw [List.mem_singleton.1 hi']
      exact hi
  · exact hold (.inr (.inr hn))

lemma setFilter (hg : g.Sound C) (hr : r ∈ C) {n : NodeId} (hn : n.index < g.entries.size) :
    (g.setFilter r n).Sound C := by
  refine (hg.attach r n).modifyRequest hr (fun m hm => ?_) fun a ha => hg.source r a ha
  rw [size_entries_attach]
  rcases Request.mem_clauseNodes_setFilter hm with hm | rfl
  · exact hg.clause r m hm
  · exact hn

lemma dropJoin (hg : g.Sound C) (hr : r ∈ C) (a : AliasId) : (g.dropJoin r a).Sound C := by
  refine hg.modifyRequest hr (fun m hm => ?_) fun b hb => ?_
  · have hold := hg.clause r m
    rw [Request.mem_clauseNodes] at hold hm
    rcases hm with ⟨j, hj, rfl⟩ | hm
    · exact hold (.inl ⟨j, List.mem_of_mem_eraseP hj, rfl⟩)
    · exact hold (.inr hm)
  · have hold := hg.source r b
    rw [Request.mem_origins] at hold hb
    rcases hb with hb | ⟨j, hj, rfl⟩ | hb
    · exact hold (.inl hb)
    · exact hold (.inr (.inl ⟨j, List.mem_of_mem_eraseP hj, rfl⟩))
    · exact hold (.inr (.inr hb))

lemma openRequest (hg : g.Sound C) (outer : RequestId) {a : AliasId}
    (ha : a.index < g.aliases.size) : (g.openRequest outer a).Sound (⟨g.requests.size⟩ :: C) := by
  refine (hg.addRequest (some outer)).modifyRequest List.mem_cons_self (fun n hn => ?_) fun b hb => ?_
  · rw [request_addRequest_self, Request.mem_clauseNodes] at hn
    simp at hn
  · rw [request_addRequest_self, Request.mem_origins] at hb
    simp only [Option.some.injEq, List.not_mem_nil, false_and, exists_false, reduceCtorEq,
      or_false] at hb
    rw [← hb]
    exact ha

lemma equate (hg : g.Sound C) (a : AliasId) (c : String) (b : AliasId) (c' : String) :
    (g.equate a c b c').2.Sound C := by
  have hcolumn : ∀ (g : Graph) (a : AliasId) (c : String), g.Sound C →
      (g.add (.column a c)).2.Sound C := by
    intro g a c hg
    refine hg.add (fun n hn => ?_) fun s hs => ?_
    · simp [Node.children] at hn
    · cases hs
  refine (hcolumn _ b c' (hcolumn _ a c hg)).add (fun n hn => ?_) fun s hs => ?_
  · have hl : (g.add (.column a c)).1.index = g.entries.size := rfl
    have hr : ((g.add (.column a c)).2.add (.column b c')).1.index = g.entries.size + 1 := by simp
    simp only [Node.children, List.mem_cons, List.not_mem_nil, or_false] at hn
    simp only [size_entries_add]
    rcases hn with rfl | rfl
    · exact hl.trans_lt (Nat.lt_succ_of_lt (Nat.lt_succ_self _))
    · exact hr.trans_lt (Nat.lt_succ_self _)
  · cases hs

end Sound

/-! ### What stays -/

/-- Nodes, aliases and requests stay as they are, but for some requests and for the parameters of
some aliases. -/
structure Kept (C : List RequestId) (A : List AliasId) (g h : Graph) : Prop where
  entries : g.entries.size ≤ h.entries.size
  node : ∀ n, n.index < g.entries.size → h.node n = g.node n
  aliases : g.aliases.size ≤ h.aliases.size
  bare : ∀ a, a.index < g.aliases.size → (h.aliasOf a).bare = (g.aliasOf a).bare
  params : ∀ a, a.index < g.aliases.size → a ∉ A → (h.aliasOf a).params = (g.aliasOf a).params
  requests : g.requests.size ≤ h.requests.size
  request : ∀ q, q.index < g.requests.size → q ∉ C → h.request q = g.request q

namespace Kept

variable {g h k : Graph} {C D : List RequestId} {A B : List AliasId}

lemma refl (C : List RequestId) (A : List AliasId) (g : Graph) : Kept C A g g :=
  ⟨le_rfl, fun _ _ => rfl, le_rfl, fun _ _ => rfl, fun _ _ _ => rfl, le_rfl, fun _ _ _ => rfl⟩

lemma trans (hgh : Kept C A g h) (hhk : Kept C A h k) : Kept C A g k where
  entries := hgh.entries.trans hhk.entries
  node n hn := (hhk.node n (hn.trans_le hgh.entries)).trans (hgh.node n hn)
  aliases := hgh.aliases.trans hhk.aliases
  bare a ha := (hhk.bare a (ha.trans_le hgh.aliases)).trans (hgh.bare a ha)
  params a ha hA := (hhk.params a (ha.trans_le hgh.aliases) hA).trans (hgh.params a ha hA)
  requests := hgh.requests.trans hhk.requests
  request q hq hC := (hhk.request q (hq.trans_le hgh.requests) hC).trans (hgh.request q hq hC)

/-- A request that was not there does not count. -/
lemma mono (hgh : Kept C A g h) (hC : ∀ q ∈ C, q.index < g.requests.size → q ∈ D)
    (hA : ∀ a ∈ A, a.index < g.aliases.size → a ∈ B) : Kept D B g h :=
  { hgh with
    params := fun a ha hB => hgh.params a ha fun h => hB (hA a h ha)
    request := fun q hq hD => hgh.request q hq fun h => hD (hC q h hq) }

lemma origin (hgh : Kept C A g h) {a : AliasId} (ha : a.index < g.aliases.size) :
    (h.aliasOf a).origin = (g.aliasOf a).origin := Alias.origin_eq_of_bare (hgh.bare a ha)

lemma route (hgh : Kept C A g h) {a : AliasId} (ha : a.index < g.aliases.size) :
    (h.aliasOf a).route = (g.aliasOf a).route := Alias.route_eq_of_bare (hgh.bare a ha)

/-- A node that is not empty stays what it is. -/
lemma node_eq (hgh : Kept C A g h) {n : NodeId} {x : Node} (hn : g.node n = x)
    (hx : x ≠ .const .null) : h.node n = x := by
  rw [hgh.node n (lt_of_node_ne (hn ▸ hx)), hn]

/-- A comparison of columns stays one. -/
lemma compares (hgh : Kept C A g h) {n : NodeId} {a b : AliasId} {c c' : String}
    (hcompares : g.Compares n a c b c') : h.Compares n a c b c' := by
  obtain ⟨l, r, hn, hl, hr⟩ := hcompares
  exact ⟨l, r, hgh.node_eq hn nofun, hgh.node_eq hl nofun, hgh.node_eq hr nofun⟩

variable (C A)

lemma attach (g : Graph) (r : RequestId) (n : NodeId) : Kept C A g (g.attach r n) where
  entries := (size_entries_attach g r n).ge
  node m _ := node_attach g r n m
  aliases := le_rfl
  bare _ _ := rfl
  params _ _ _ := rfl
  requests := le_rfl
  request _ _ _ := rfl

lemma add (g : Graph) (x : Node) : Kept C A g (g.add x).2 where
  entries := by simp
  node n hn := node_add_of_lt g x hn
  aliases := by simp
  bare a _ := by simp
  params a _ _ := by simp
  requests := by simp
  request q _ _ := by simp

lemma addAlias (g : Graph) (d : Alias) : Kept C A g (g.addAlias d).2 where
  entries := le_rfl
  node _ _ := rfl
  aliases := by simp
  bare a ha := by rw [aliasOf_addAlias_of_lt g d ha]
  params a ha _ := by rw [aliasOf_addAlias_of_lt g d ha]
  requests := le_rfl
  request _ _ _ := rfl

lemma addRequest (g : Graph) (parent : Option RequestId) : Kept C A g (g.addRequest parent).2 where
  entries := le_rfl
  node _ _ := rfl
  aliases := le_rfl
  bare _ _ := rfl
  params _ _ _ := rfl
  requests := by simp
  request q hq _ := request_addRequest_of_lt g parent hq

variable {C A}

lemma bind (g : Graph) {a : AliasId} (ha : a ∈ A) (p : ParamId) : Kept C A g (g.bind a p) where
  entries := le_rfl
  node _ _ := rfl
  aliases := by simp
  bare b _ := bare_bind g a b p
  params b _ hb := by
    have hne : b ≠ a := fun h => hb (h ▸ ha)
    rw [aliasOf_bind_of_ne g p hne]
  requests := le_rfl
  request _ _ _ := rfl

lemma modifyRequest (g : Graph) {r : RequestId} (hr : r ∈ C) (f : Request → Request) :
    Kept C A g (g.modifyRequest r f) where
  entries := le_rfl
  node _ _ := rfl
  aliases := le_rfl
  bare _ _ := rfl
  params _ _ _ := rfl
  requests := by simp
  request q _ hq := request_modifyRequest_of_ne g f fun h => hq (h ▸ hr)

lemma pushJoin (g : Graph) {r : RequestId} (hr : r ∈ C) (j : Join) :
    Kept C A g (g.pushJoin r j) :=
  (attach C A g r j.condition).trans (modifyRequest _ hr _)

lemma setFilter (g : Graph) {r : RequestId} (hr : r ∈ C) (n : NodeId) :
    Kept C A g (g.setFilter r n) :=
  (attach C A g r n).trans (modifyRequest _ hr _)

lemma openRequest (g : Graph) (hr : (⟨g.requests.size⟩ : RequestId) ∈ C) (outer : RequestId)
    (a : AliasId) : Kept C A g (g.openRequest outer a) :=
  (addRequest C A g (some outer)).trans (modifyRequest _ hr _)

lemma dropJoin (g : Graph) {r : RequestId} (hr : r ∈ C) (a : AliasId) :
    Kept C A g (g.dropJoin r a) := modifyRequest g hr _

lemma pushItem (g : Graph) {r : RequestId} (hr : r ∈ C) (i : Item) :
    Kept C A g (g.pushItem r i) :=
  (attach C A g r i.node).trans (modifyRequest _ hr _)

lemma equate (g : Graph) (a : AliasId) (c : String) (b : AliasId) (c' : String) :
    Kept C A g (g.equate a c b c').2 :=
  ((add C A g _).trans (add C A _ _)).trans (add C A _ _)

end Kept

/-! ### Parameters in scope -/

section Scope

variable {g h : Graph} {x : ParamId}

/-- Going outwards finds the same where requests have the same parents and pass the same test. -/
lemma enclosingWithin_of_agree {p q : RequestId → Bool}
    (hparent : ∀ r, r.index < g.requests.size → (h.request r).parent = (g.request r).parent)
    (hin : ∀ r, p r = true → r.index < g.requests.size)
    (htest : ∀ r, r.index < g.requests.size → q r = p r) {fuel fuel' : Nat} (hle : fuel ≤ fuel')
    {r s : RequestId} (hs : g.enclosingWithin p fuel r = some s) :
    h.enclosingWithin q fuel' r = some s := by
  induction fuel generalizing fuel' r with
  | zero => cases hs
  | succ fuel ih =>
    obtain ⟨fuel', rfl⟩ : ∃ k, fuel' = k + 1 := ⟨fuel' - 1, by omega⟩
    rw [enclosingWithin] at hs ⊢
    cases hp : p r with
    | true =>
      rw [htest r (hin r hp), hp, if_pos rfl]
      simpa [hp] using hs
    | false =>
      rw [hp, if_neg Bool.false_ne_true] at hs
      -- a request outside the graph has no parent, so nothing would be found
      by_cases hr : r.index < g.requests.size
      · rw [htest r hr, hp, if_neg Bool.false_ne_true, hparent r hr]
        cases hparent' : (g.request r).parent with
        | none => simp [hparent'] at hs
        | some outer =>
          rw [hparent'] at hs
          exact ih (by omega) hs
      · rw [request_of_size_le (Nat.not_lt.1 hr)] at hs
        cases hs

lemma lt_of_boundSource? {r : RequestId} (hr : (g.boundSource? x r).isSome) :
    r.index < g.requests.size := by
  by_contra hlt
  rw [boundSource?, request_of_size_le (Nat.not_lt.1 hlt)] at hr
  cases hr

/-- Going outwards finds no base that no request has. -/
lemma requestOver?_eq_none {a : AliasId} (ha : ∀ r, (g.request r).base ≠ some a) (r : RequestId) :
    g.requestOver? r a = none := by
  have hfind : ∀ fuel r,
      g.enclosingWithin (fun q => (g.request q).base == some a) fuel r = none := by
    intro fuel
    induction fuel with
    | zero => exact fun _ => rfl
    | succ fuel ih =>
      intro r
      rw [enclosingWithin, if_neg (by simpa using ha r)]
      cases (g.request r).parent with
      | none => rfl
      | some outer => exact ih outer
  exact hfind _ r

end Scope

/-! ### Growing requests -/

/-- A request gains joins, from sources that were not there, and may change the kinds of others. -/
structure Grown (r : RequestId) (g h : Graph) : Prop where
  kept : Kept [r] [] g h
  frame : h.request r = { g.request r with joins := (h.request r).joins }
  sources : ∃ added : List AliasId,
    (h.request r).joins.map Join.source = (g.request r).joins.map Join.source ++ added ∧
      ∀ a ∈ added, a.index < h.aliases.size ∧ (h.aliasOf a).params = []

namespace Grown

variable {g h k : Graph} {r : RequestId} {C : List RequestId} {x : ParamId}

lemma refl (r : RequestId) (g : Graph) : Grown r g g :=
  ⟨.refl _ _ g, rfl, [], by simp, fun _ ha => absurd ha (List.not_mem_nil)⟩

lemma trans (hgh : Grown r g h) (hhk : Grown r h k) : Grown r g k := by
  obtain ⟨added, hadded, hnew⟩ := hgh.sources
  obtain ⟨added', hadded', hnew'⟩ := hhk.sources
  refine ⟨hgh.kept.trans hhk.kept, ?_, added ++ added', ?_, ?_⟩
  · rw [hhk.frame, hgh.frame]
  · rw [hadded', hadded, List.append_assoc]
  · intro a ha
    rcases List.mem_append.1 ha with ha | ha
    · obtain ⟨hlt, hparams⟩ := hnew a ha
      exact ⟨hlt.trans_le hhk.kept.aliases,
        (hhk.kept.params a hlt (List.not_mem_nil)).trans hparams⟩
    · exact hnew' a ha

/-- Nothing but the handles that are in use changes. -/
lemma of_kept (hkept : Kept [r] [] g h) (hr : h.request r = g.request r) : Grown r g h :=
  ⟨hkept, by rw [hr], [], by simp [hr], fun _ ha => absurd ha (List.not_mem_nil)⟩

lemma sources_eq (hgh : Grown r g h) : ∃ added, (h.request r).sources =
    (g.request r).sources ++ added ∧
      ∀ a ∈ added, a.index < h.aliases.size ∧ (h.aliasOf a).params = [] := by
  obtain ⟨added, hadded, hnew⟩ := hgh.sources
  refine ⟨added, ?_, hnew⟩
  rw [Request.sources, hadded, hgh.frame, Request.sources, List.append_assoc]

/-- Sources that come in later have no parameters. -/
lemma boundSource?_eq (hgh : Grown r g h) (hg : g.Sound C) (x : ParamId) {q : RequestId}
    (hq : q.index < g.requests.size) : h.boundSource? x q = g.boundSource? x q := by
  have hold : ∀ a ∈ (g.request q).sources,
      (h.aliasOf a).params.contains x = (g.aliasOf a).params.contains x := by
    intro a ha
    rw [hgh.kept.params a (hg.source q a (List.mem_append_left _ ha)) (List.not_mem_nil)]
  have hfind : (g.request q).sources.find? (fun a => (h.aliasOf a).params.contains x) =
      g.boundSource? x q := by
    rw [boundSource?, ← List.head?_filter, ← List.head?_filter, List.filter_congr hold]
  by_cases hqr : q = r
  · subst hqr
    obtain ⟨added, hadded, hnew⟩ := hgh.sources_eq
    have hnone : added.find? (fun a => (h.aliasOf a).params.contains x) = none := by
      rw [List.find?_eq_none]
      intro a ha
      simp [(hnew a ha).2]
    rw [boundSource?, hadded, List.find?_append, hfind, hnone, Option.or_none]
  · rw [boundSource?, hgh.kept.request q hq (by simpa using hqr), hfind]

lemma parent_eq (hgh : Grown r g h) {q : RequestId} (hq : q.index < g.requests.size) :
    (h.request q).parent = (g.request q).parent := by
  by_cases hqr : q = r
  · subst hqr
    rw [hgh.frame]
  · rw [hgh.kept.request q hq (by simpa using hqr)]

lemma enclosingWithin_eq (hgh : Grown r g h) (hg : g.Sound C) {fuel fuel' : Nat}
    (hle : fuel ≤ fuel') {q s : RequestId}
    (hs : g.enclosingWithin (fun q => (g.boundSource? x q).isSome) fuel q = some s) :
    h.enclosingWithin (fun q => (h.boundSource? x q).isSome) fuel' q = some s := by
  refine enclosingWithin_of_agree (fun q hq => hgh.parent_eq hq) (fun q hq => lt_of_boundSource? hq)
    (fun q hq => ?_) hle hs
  rw [hgh.boundSource?_eq hg x hq]

lemma aliasFor?_cases {a : AliasId} (hx : g.aliasFor? r x = some a) :
    ∃ s, g.enclosing? (fun q => (g.boundSource? x q).isSome) r = some s ∧
      s.index < g.requests.size ∧ g.boundSource? x s = some a := by
  obtain ⟨s, hs, ha⟩ := Option.bind_eq_some_iff.1 hx
  exact ⟨s, hs, lt_of_boundSource? (by rw [ha]; rfl), ha⟩

/-- **Parameters keep what they stand for while a request grows.** -/
theorem aliasFor?_eq (hgh : Grown r g h) (hg : g.Sound C) {a : AliasId}
    (hx : g.aliasFor? r x = some a) : h.aliasFor? r x = some a := by
  obtain ⟨s, hs, hlt, ha⟩ := aliasFor?_cases hx
  have hs' : h.enclosing? (fun q => (h.boundSource? x q).isSome) r = some s :=
    hgh.enclosingWithin_eq hg (Nat.succ_le_succ hgh.kept.requests) hs
  rw [aliasFor?, hs', Option.bind_some, hgh.boundSource?_eq hg x hlt, ha]

/-- Parameters that a new request inside does not bind stand for what they stand for outside. -/
theorem aliasFor?_inside (hgh : Grown r g h) (hg : g.Sound C)
    (hlt : g.requests.size < h.requests.size) {q : RequestId} (hparent : (h.request q).parent = some r)
    (hunbound : h.boundSource? x q = none) {a : AliasId} (hx : g.aliasFor? r x = some a) :
    h.aliasFor? q x = some a := by
  obtain ⟨s, hs, hs', ha⟩ := aliasFor?_cases hx
  have hinside : h.enclosing? (fun q => (h.boundSource? x q).isSome) q = some s := by
    rw [enclosing?, enclosingWithin, if_neg (by simp [hunbound]), hparent]
    exact hgh.enclosingWithin_eq hg hlt hs
  rw [aliasFor?, hinside, Option.bind_some, hgh.boundSource?_eq hg x hs', ha]

end Grown

end EntityQuery.Sql.Graph
