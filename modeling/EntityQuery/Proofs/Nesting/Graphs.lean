import EntityQuery.Proofs.Filters.Growth

/-!
Requests that are being built.

* `Extends`: what is in a graph stays there.
* `Clear`: a value holds none of some requests.
* `Open g C`: no request of `g` is nested in itself, and nothing holds one of the requests `C`. These
  may be added to: what is put into them holds none of them, so no request comes to hold itself.
* `Built C g h`: `h` is `g` after steps that add to the requests `C`. There is one lemma for every
  operation on graphs.
-/

namespace EntityQuery.Sql.Graph

/-! ### What stays -/

/-- Nodes stay as they are, and aliases range over what they ranged over. -/
structure Extends (g h : Graph) : Prop where
  entries : g.entries.size ≤ h.entries.size
  node : ∀ n, n.index < g.entries.size → h.node n = g.node n
  aliases : g.aliases.size ≤ h.aliases.size
  origin : ∀ a, a.index < g.aliases.size → (h.aliasOf a).origin = (g.aliasOf a).origin
  requests : g.requests.size ≤ h.requests.size

lemma Kept.extension {C : List RequestId} {A : List AliasId} {g h : Graph} (hgh : Kept C A g h) :
    g.Extends h where
  entries := hgh.entries
  node := hgh.node
  aliases := hgh.aliases
  origin _ ha := hgh.origin ha
  requests := hgh.requests

namespace Extends

variable {g h k : Graph}

lemma refl (g : Graph) : g.Extends g := (Kept.refl [] [] g).extension

lemma trans (hgh : g.Extends h) (hhk : h.Extends k) : g.Extends k where
  entries := hgh.entries.trans hhk.entries
  node n hn := (hhk.node n (hn.trans_le hgh.entries)).trans (hgh.node n hn)
  aliases := hgh.aliases.trans hhk.aliases
  origin a ha := (hhk.origin a (ha.trans_le hgh.aliases)).trans (hgh.origin a ha)
  requests := hgh.requests.trans hhk.requests

/-- A value that was there has the parts it had. -/
lemma below (hgh : g.Extends h) (ho : g.Ordered) {n m : NodeId} (hn : n.index < g.entries.size)
    (hm : h.Below n m) : g.Below n m ∧ h.node m = g.node m := by
  suffices hboth : g.Below n m ∧ m.index < g.entries.size from
    ⟨hboth.1, hgh.node m hboth.2⟩
  induction hm with
  | refl => exact ⟨.refl, hn⟩
  | tail _ hc ih =>
    rw [hgh.node _ ih.2] at hc
    exact ⟨.tail ih.1 hc, (ho _ _ hc).trans ih.2⟩

end Extends

lemma extends_add (g : Graph) (x : Node) : g.Extends (g.add x).2 := (Kept.add [] [] g x).extension

/-- A node of a graph. -/
def Has (g : Graph) (n : NodeId) (x : Node) : Prop := n.index < g.entries.size ∧ g.node n = x

lemma has_add (g : Graph) (x : Node) : (g.add x).2.Has ⟨g.entries.size⟩ x := by simp [Has]

lemma Has.later {g h : Graph} {n : NodeId} {x : Node} (hn : g.Has n x) (hgh : g.Extends h) :
    h.Has n x := ⟨hn.1.trans_le hgh.entries, (hgh.node n hn.1).trans hn.2⟩

/-! ### Values without some requests -/

/-- A value holds none of some requests. -/
def Clear (g : Graph) (C : List RequestId) (n : NodeId) : Prop :=
  ∀ m s, g.Below n m → g.node m = .sub s → s ∉ C

namespace Clear

variable {g h : Graph} {C D : List RequestId} {n : NodeId}

lemma mono (hn : g.Clear D n) (hCD : C ⊆ D) : g.Clear C n := fun m s hm hs hC => hn m s hm hs (hCD hC)

lemma later (hn : g.Clear C n) (hgh : g.Extends h) (ho : g.Ordered)
    (hlt : n.index < g.entries.size) : h.Clear C n := by
  intro m s hm hs
  obtain ⟨hbelow, hnode⟩ := hgh.below ho hlt hm
  rw [hnode] at hs
  exact hn m s hbelow hs

/-- A value is clear if its parts are. -/
lemma of_children (hsub : ∀ s, g.node n = .sub s → s ∉ C)
    (hchildren : ∀ c ∈ (g.node n).children, g.Clear C c) : g.Clear C n := by
  intro m s hm hs
  rcases Relation.ReflTransGen.cases_head hm with rfl | ⟨c, hc, hcm⟩
  · exact hsub s hs
  · exact hchildren c hc m s hcm hs

end Clear

/-! ### Requests that are built -/

/-- No request is nested in itself, and nothing holds one of the requests `C`. -/
structure Open (g : Graph) (C : List RequestId) : Prop where
  ordered : g.Ordered
  acyclic : g.Acyclic
  free : ∀ q, ∀ r ∈ C, ¬ g.Nests q r
  inside : ∀ r ∈ C, r.index < g.requests.size
  sub : ∀ m s, g.node m = .sub s → s.index < g.requests.size
  clause : ∀ r, ∀ n ∈ (g.request r).clauseNodes, n.index < g.entries.size
  source : ∀ r, ∀ a ∈ (g.request r).origins, a.index < g.aliases.size
  origin : ∀ a s, (g.aliasOf a).origin = .request s → s.index < g.requests.size
  /-- A table that is written is the base, or no derived table. -/
  target : ∀ r a, (g.request r).target = some a →
    (g.request r).base = some a ∨ ∀ s, (g.aliasOf a).origin ≠ .request s

/-- An edge that is new starts at a request that nothing holds, so it closes no circle. -/
lemma acyclic_of_free {g h : Graph} {r : RequestId} (hg : g.Acyclic) (hfree : ∀ q, ¬ h.Nests q r)
    (hold : ∀ q s, q ≠ r → h.Nests q s → g.Nests q s) : h.Acyclic := by
  have hpath : ∀ x y, x ≠ r → Relation.TransGen h.Nests x y →
      y ≠ r ∧ Relation.TransGen g.Nests x y := by
    intro x y hx hxy
    induction hxy with
    | single hxy =>
      refine ⟨?_, .single (hold _ _ hx hxy)⟩
      rintro rfl
      exact hfree _ hxy
    | tail _ hyz ih =>
      refine ⟨?_, .tail ih.2 (hold _ _ ih.1 hyz)⟩
      rintro rfl
      exact hfree _ hyz
  intro x hx
  by_cases hxr : x = r
  · subst hxr
    obtain ⟨y, -, hy⟩ := Relation.TransGen.tail'_iff.1 hx
    exact hfree y hy
  · exact hg x (hpath x x hxr hx).2

namespace Open

variable {g h : Graph} {C D : List RequestId}

lemma mono (hg : g.Open D) (hCD : C ⊆ D) : g.Open C :=
  { hg with
    free := fun q r hr => hg.free q r (hCD hr)
    inside := fun r hr => hg.inside r (hCD hr) }

lemma clear_of_clause (hg : g.Open C) {q : RequestId} {n : NodeId}
    (hn : n ∈ (g.request q).clauseNodes) : g.Clear C n := by
  intro m s hm hs hC
  exact hg.free q s hC (.inl ⟨n, hn, m, hm, hs⟩)

lemma not_mem_of_source (hg : g.Open C) {q s : RequestId} {a : AliasId}
    (ha : a ∈ (g.request q).origins) (hs : (g.aliasOf a).origin = .request s) : s ∉ C :=
  fun hC => hg.free q s hC (.inr ⟨a, ha, hs⟩)

/-- A request that keeps its clauses and sources, or loses some, holds no more than before. -/
lemma nests_of_subset (hg : g.Open C) (hgh : g.Extends h) {q s : RequestId}
    (hclause : ∀ n ∈ (h.request q).clauseNodes, n ∈ (g.request q).clauseNodes)
    (hsource : ∀ a ∈ (h.request q).origins, a ∈ (g.request q).origins) (hs : h.Nests q s) :
    g.Nests q s := by
  rcases hs with ⟨n, hn, m, hm, hsub⟩ | ⟨a, ha, horigin⟩
  · obtain ⟨hbelow, hnode⟩ := hgh.below hg.ordered (hg.clause q n (hclause n hn)) hm
    rw [hnode] at hsub
    exact .inl ⟨n, hclause n hn, m, hbelow, hsub⟩
  · rw [hgh.origin a (hg.source q a (hsource a ha))] at horigin
    exact .inr ⟨a, hsource a ha, horigin⟩

/-- New nodes and aliases change nothing about the requests. -/
lemma extend (hg : g.Open C) (hgh : g.Extends h) (hrequests : h.requests = g.requests)
    (hordered : h.Ordered) (hsub : ∀ m s, h.node m = .sub s → s.index < g.requests.size)
    (horigin : ∀ a s, (h.aliasOf a).origin = .request s → s.index < g.requests.size) : h.Open C := by
  have hrequest : ∀ r, h.request r = g.request r := fun r => by rw [request, hrequests, request]
  have hnests : ∀ q s, h.Nests q s → g.Nests q s := fun q s hs =>
    hg.nests_of_subset hgh (fun n hn => hrequest q ▸ hn) (fun a ha => hrequest q ▸ ha) hs
  refine ⟨hordered, fun r hr => hg.acyclic r (.lift id hnests _ _ hr), fun q r hr hs => ?_, fun r hr => ?_,
    fun m s hs => ?_, fun r n hn => ?_, fun r a ha => ?_, fun a s hs => ?_, fun r a ha => ?_⟩
  · exact hg.free q r hr (hnests q r hs)
  · rw [hrequests]
    exact hg.inside r hr
  · rw [hrequests]
    exact hsub m s hs
  · rw [hrequest] at hn
    exact (hg.clause r n hn).trans_le hgh.entries
  · rw [hrequest] at ha
    exact (hg.source r a ha).trans_le hgh.aliases
  · rw [hrequests]
    exact horigin a s hs
  · rw [hrequest] at ha ⊢
    have hmem : a ∈ (g.request r).origins := Request.mem_origins.2 (.inr (.inr ha))
    rw [hgh.origin a (hg.source r a hmem)]
    exact hg.target r a ha

/-- One of the requests changes: what it then holds is none of them. -/
lemma modifyRequest (hg : g.Open C) {r : RequestId} (hr : r ∈ C) {f : Request → Request}
    (hclause : ∀ n ∈ (f (g.request r)).clauseNodes, n.index < g.entries.size ∧ g.Clear C n)
    (hsource : ∀ a ∈ (f (g.request r)).origins, a.index < g.aliases.size ∧
      ∀ s, (g.aliasOf a).origin = .request s → s ∉ C)
    (htarget : ∀ a, (f (g.request r)).target = some a →
      (f (g.request r)).base = some a ∨ ∀ s, (g.aliasOf a).origin ≠ .request s) :
    (g.modifyRequest r f).Open C := by
  have hself := request_modifyRequest_self g f (hg.inside r hr)
  have hother : ∀ q, q ≠ r → (g.modifyRequest r f).request q = g.request q :=
    fun q hq => request_modifyRequest_of_ne g f hq
  have hext : g.Extends (g.modifyRequest r f) := (Kept.modifyRequest (A := []) g hr f).extension
  have hold : ∀ q s, q ≠ r → (g.modifyRequest r f).Nests q s → g.Nests q s := fun q s hq hs =>
    hg.nests_of_subset hext (fun n hn => hother q hq ▸ hn) (fun a ha => hother q hq ▸ ha) hs
  have hfree : ∀ q, ∀ c ∈ C, ¬ (g.modifyRequest r f).Nests q c := by
    intro q c hc hs
    by_cases hq : q = r
    · subst hq
      rcases hs with ⟨n, hn, m, hm, hsub⟩ | ⟨a, ha, horigin⟩
      · rw [hself] at hn
        exact (hclause n hn).2 m c hm hsub hc
      · rw [hself] at ha
        exact (hsource a ha).2 c horigin hc
    · exact hg.free q c hc (hold q c hq hs)
  refine ⟨hg.ordered, acyclic_of_free hg.acyclic (fun q => hfree q r hr) hold, hfree, fun c hc => ?_,
    fun m s hs => ?_, fun q n hn => ?_, fun q a ha => ?_, fun a s hs => ?_, fun q a ha => ?_⟩
  · rw [size_requests_modifyRequest]
    exact hg.inside c hc
  · rw [size_requests_modifyRequest]
    exact hg.sub m s hs
  · by_cases hq : q = r
    · subst hq
      rw [hself] at hn
      exact (hclause n hn).1
    · rw [hother q hq] at hn
      exact hg.clause q n hn
  · by_cases hq : q = r
    · subst hq
      rw [hself] at ha
      exact (hsource a ha).1
    · rw [hother q hq] at ha
      exact hg.source q a ha
  · rw [size_requests_modifyRequest]
    exact hg.origin a s hs
  · by_cases hq : q = r
    · subst hq
      rw [hself] at ha ⊢
      exact htarget a ha
    · rw [hother q hq] at ha ⊢
      exact hg.target q a ha

/-- A new request is held by nothing. -/
lemma addRequest (hg : g.Open C) (parent : Option RequestId) :
    (g.addRequest parent).2.Open (⟨g.requests.size⟩ :: C) := by
  have hext : g.Extends (g.addRequest parent).2 := (Kept.addRequest [] [] g parent).extension
  have hsame : ∀ q : RequestId, q.index ≠ g.requests.size →
      (g.addRequest parent).2.request q = g.request q := fun q hq => by
    rw [request_addRequest, if_neg hq]
  have hparts : ∀ q : RequestId, q.index = g.requests.size →
      ((g.addRequest parent).2.request q).clauseNodes = [] ∧
        ((g.addRequest parent).2.request q).origins = [] ∧
        ((g.addRequest parent).2.request q).target = none := fun q hq => by
    rw [request_addRequest, if_pos hq]
    simp [Request.clauseNodes, Request.origins, Request.sources]
  have hnests : ∀ q s, (g.addRequest parent).2.Nests q s → g.Nests q s := by
    intro q s hs
    by_cases hq : q.index = g.requests.size
    · rcases hs with ⟨n, hn, -⟩ | ⟨a, ha, -⟩
      · rw [(hparts q hq).1] at hn
        cases hn
      · rw [(hparts q hq).2.1] at ha
        cases ha
    · exact hg.nests_of_subset hext (fun n hn => hsame q hq ▸ hn) (fun a ha => hsame q hq ▸ ha) hs
  have hnested : ∀ q s, g.Nests q s → s.index < g.requests.size := by
    rintro q s (⟨n, -, m, -, hs⟩ | ⟨a, -, hs⟩)
    · exact hg.sub m s hs
    · exact hg.origin a s hs
  have hle : g.requests.size ≤ (g.addRequest parent).2.requests.size := hext.requests
  refine ⟨hg.ordered, fun r hr => hg.acyclic r (.lift id hnests _ _ hr), fun q r hr hs => ?_, fun r hr => ?_,
    fun m s hs => (hg.sub m s hs).trans_le hle, fun q n hn => ?_, fun q a ha => ?_,
    fun a s hs => (hg.origin a s hs).trans_le hle, fun q a ha => ?_⟩
  · rcases List.mem_cons.1 hr with rfl | hr
    · exact (hnested q _ (hnests q _ hs)).false
    · exact hg.free q r hr (hnests q r hs)
  · rw [size_requests_addRequest]
    rcases List.mem_cons.1 hr with rfl | hr
    · exact Nat.lt_succ_self _
    · exact (hg.inside r hr).trans (Nat.lt_succ_self _)
  · by_cases hq : q.index = g.requests.size
    · rw [(hparts q hq).1] at hn
      cases hn
    · rw [hsame q hq] at hn
      exact hg.clause q n hn
  · by_cases hq : q.index = g.requests.size
    · rw [(hparts q hq).2.1] at ha
      cases ha
    · rw [hsame q hq] at ha
      exact hg.source q a ha
  · by_cases hq : q.index = g.requests.size
    · rw [(hparts q hq).2.2] at ha
      cases ha
    · rw [hsame q hq] at ha ⊢
      exact hg.target q a ha

lemma new_not_mem (hg : g.Open C) : (⟨g.requests.size⟩ : RequestId) ∉ C :=
  fun hC => (hg.inside _ hC).false

/-- The empty graph is open. -/
lemma empty : ({} : Graph).Open [] := by
  have hrequest : ∀ r, ({} : Graph).request r = {} := fun r => request_of_size_le (Nat.zero_le _)
  have hnests : ∀ q s, ¬ ({} : Graph).Nests q s := fun q s hs =>
    Nat.not_lt_zero _ (lt_size_of_nests hs)
  refine ⟨fun n c hc => ?_, fun r hr => ?_, fun q r _ => hnests q r, fun r hr => ?_, fun m s hs => ?_,
    fun r n hn => ?_, fun r a ha => ?_, fun a s hs => ?_, fun r a ha => ?_⟩
  · exact absurd (lt_size_of_mem_children hc) (Nat.not_lt_zero _)
  · obtain ⟨y, hy, -⟩ := Relation.TransGen.head'_iff.1 hr
    exact hnests r y hy
  · cases hr
  · exact absurd (lt_size_of_node_eq_sub hs) (Nat.not_lt_zero _)
  · rw [hrequest] at hn
    simp [Request.clauseNodes] at hn
  · rw [hrequest] at ha
    simp [Request.origins, Request.sources] at ha
  · cases hs
  · rw [hrequest] at ha
    cases ha

end Open

/-! ### Steps -/

/-- A graph after steps that add to the requests `C`: they stay where they are, over their bases. -/
structure Built (C : List RequestId) (g h : Graph) : Prop where
  extension : g.Extends h
  parent : ∀ r ∈ C, (h.request r).parent = (g.request r).parent
  base : ∀ r ∈ C, ∀ a, (g.request r).base = some a → (h.request r).base = some a
  opened : h.Open C

/-- A value that may be put into the requests `C`. -/
structure Fit (g : Graph) (C : List RequestId) (n : NodeId) : Prop where
  inside : n.index < g.entries.size
  clear : g.Clear C n

namespace Built

variable {g h k : Graph} {C : List RequestId} {r : RequestId}

lemma refl (hg : g.Open C) : Built C g g := ⟨.refl g, fun _ _ => rfl, fun _ _ _ ha => ha, hg⟩

lemma trans (hgh : Built C g h) (hhk : Built C h k) : Built C g k where
  extension := hgh.extension.trans hhk.extension
  parent r hr := (hhk.parent r hr).trans (hgh.parent r hr)
  base r hr a ha := hhk.base r hr a (hgh.base r hr a ha)
  opened := hhk.opened

/-- Fewer requests are built. -/
lemma mono {D : List RequestId} (hgh : Built D g h) (hCD : C ⊆ D) : Built C g h where
  extension := hgh.extension
  parent r hr := hgh.parent r (hCD hr)
  base r hr := hgh.base r (hCD hr)
  opened := hgh.opened.mono hCD

lemma of_requests (hgh : g.Extends h) (hrequests : h.requests = g.requests) (hh : h.Open C) :
    Built C g h := by
  have hrequest : ∀ r, h.request r = g.request r := fun r => by rw [request, hrequests, request]
  refine ⟨hgh, fun r _ => ?_, fun r _ a ha => ?_, hh⟩
  · rw [hrequest]
  · rw [hrequest]
    exact ha

lemma add (hg : g.Open C) {x : Node} (hx : ∀ c ∈ x.children, c.index < g.entries.size)
    (hsub : ∀ s, x = .sub s → s.index < g.requests.size) : Built C g (g.add x).2 := by
  have hext : g.Extends (g.add x).2 := (Kept.add [] [] g x).extension
  refine of_requests hext (requests_add g x) (hg.extend hext (requests_add g x) ?_ ?_ ?_)
  · intro n c hc
    rw [node_add] at hc
    split at hc
    · have := hx c hc
      omega
    · exact hg.ordered n c hc
  · intro m s hm
    rw [node_add] at hm
    split at hm
    · exact hsub s hm
    · exact hg.sub m s hm
  · intro a s hs
    rw [aliasOf_add] at hs
    exact hg.origin a s hs

lemma addAlias (hg : g.Open C) {d : Alias}
    (hd : ∀ s, d.origin = .request s → s.index < g.requests.size) :
    Built C g (g.addAlias d).2 := by
  have hext : g.Extends (g.addAlias d).2 := (Kept.addAlias [] [] g d).extension
  refine of_requests hext rfl (hg.extend hext rfl hg.ordered hg.sub ?_)
  intro a s hs
  rw [aliasOf_addAlias] at hs
  split at hs
  · exact hd s hs
  · exact hg.origin a s hs

lemma attach (hg : g.Open C) (r : RequestId) (n : NodeId) : Built C g (g.attach r n) := by
  have hext : g.Extends (g.attach r n) := (Kept.attach [] [] g r n).extension
  refine of_requests hext rfl (hg.extend hext rfl ?_ ?_ hg.origin)
  · intro m c hc
    rw [node_attach] at hc
    exact hg.ordered m c hc
  · intro m s hs
    rw [node_attach] at hs
    exact hg.sub m s hs

lemma bind (hg : g.Open C) (a : AliasId) (p : ParamId) : Built C g (g.bind a p) := by
  have hext : g.Extends (g.bind a p) :=
    (Kept.bind (C := []) g (List.mem_singleton.2 (rfl : a = a)) p).extension
  refine of_requests hext rfl (hg.extend hext rfl hg.ordered hg.sub ?_)
  intro b s hs
  rw [Alias.origin_eq_of_bare (bare_bind g a b p)] at hs
  exact hg.origin b s hs

lemma addRequest (hg : g.Open C) (parent : Option RequestId) :
    Built C g (g.addRequest parent).2 := by
  refine ⟨(Kept.addRequest [] [] g parent).extension, fun r hr => ?_, fun r hr a ha => ?_, ?_⟩
  · rw [request_addRequest_of_lt g parent (hg.inside r hr)]
  · rw [request_addRequest_of_lt g parent (hg.inside r hr)]
    exact ha
  · exact (hg.addRequest parent).mono (List.subset_cons_self _ _)

/-- One request less is built. -/
lemma close (hgh : Built C g h) (hhk : Built (r :: C) h k) : Built C g k :=
  hgh.trans (hhk.mono (List.subset_cons_self _ _))

/-- A request changes but stays inside the same one, over the same base. -/
lemma modifyRequest (hg : g.Open C) (hr : r ∈ C) {f : Request → Request}
    (hparent : (f (g.request r)).parent = (g.request r).parent)
    (hbase : ∀ a, (g.request r).base = some a → (f (g.request r)).base = some a)
    (hclause : ∀ n ∈ (f (g.request r)).clauseNodes, n ∈ (g.request r).clauseNodes ∨ g.Fit C n)
    (hsource : ∀ a ∈ (f (g.request r)).origins, a ∈ (g.request r).origins ∨
      a.index < g.aliases.size ∧ ∀ s, (g.aliasOf a).origin = .request s → s ∉ C)
    (htarget : ∀ a, (f (g.request r)).target = some a →
      (f (g.request r)).base = some a ∨ ∀ s, (g.aliasOf a).origin ≠ .request s) :
    Built C g (g.modifyRequest r f) := by
  refine ⟨(Kept.modifyRequest (A := []) g hr f).extension, fun q _ => ?_, fun q _ a ha => ?_, ?_⟩
  · by_cases hq : q = r
    · rw [hq, request_modifyRequest_self g f (hg.inside r hr), hparent]
    · rw [request_modifyRequest_of_ne g f hq]
  · by_cases hq : q = r
    · rw [hq] at ha ⊢
      rw [request_modifyRequest_self g f (hg.inside r hr)]
      exact hbase a ha
    · rw [request_modifyRequest_of_ne g f hq]
      exact ha
  · refine hg.modifyRequest hr (fun n hn => ?_) (fun a ha => ?_) htarget
    · rcases hclause n hn with hold | hnew
      · exact ⟨hg.clause r n hold, hg.clear_of_clause hold⟩
      · exact ⟨hnew.inside, hnew.clear⟩
    · rcases hsource a ha with hold | hnew
      · exact ⟨hg.source r a hold, fun s hs => hg.not_mem_of_source hold hs⟩
      · exact hnew

/-- A request keeps its sources and gets values of some clauses. -/
lemma amend (hg : g.Open C) (hr : r ∈ C) {f : Request → Request}
    (hframe : (f (g.request r)).parent = (g.request r).parent ∧
      (f (g.request r)).base = (g.request r).base ∧ (f (g.request r)).target = (g.request r).target ∧
      ∀ j ∈ (f (g.request r)).joins, ∃ k ∈ (g.request r).joins, k.source = j.source)
    (hclause : ∀ n ∈ (f (g.request r)).clauseNodes, n ∈ (g.request r).clauseNodes ∨ g.Fit C n) :
    Built C g (g.modifyRequest r f) := by
  obtain ⟨hparent, hbase, htarget, hjoins⟩ := hframe
  refine modifyRequest hg hr hparent (fun a ha => hbase.trans ha) hclause (fun a ha => .inl ?_)
    (fun a ha => ?_)
  · rw [Request.mem_origins] at ha ⊢
    rw [hbase, htarget] at ha
    rcases ha with ha | ⟨j, hj, rfl⟩ | ha
    · exact .inl ha
    · exact .inr (.inl (hjoins j hj))
    · exact .inr (.inr ha)
  · rw [htarget] at ha
    rw [hbase]
    exact hg.target r a ha

/-- A request outside the ones that are built changes. -/
lemma modifyOther (hr : r ∉ C) {f : Request → Request} (hopen : (g.modifyRequest r f).Open C) :
    Built C g (g.modifyRequest r f) := by
  have hother : ∀ q ∈ C, (g.modifyRequest r f).request q = g.request q := by
    intro q hq
    refine request_modifyRequest_of_ne g f ?_
    rintro rfl
    exact hr hq
  refine ⟨(Kept.modifyRequest (C := [r]) (A := []) g (List.mem_singleton.2 rfl) f).extension,
    fun q hq => ?_, fun q hq a ha => ?_, hopen⟩
  · rw [hother q hq]
  · rw [hother q hq]
    exact ha

/-- A request that is no longer built moves to another place, and may lose clauses. -/
lemma move (hg : g.Open (r :: C)) (hr : r ∉ C) {f : Request → Request}
    (hframe : (f (g.request r)).base = (g.request r).base ∧
      (f (g.request r)).target = (g.request r).target ∧ (f (g.request r)).joins = (g.request r).joins)
    (hclause : ∀ n ∈ (f (g.request r)).clauseNodes, n ∈ (g.request r).clauseNodes) :
    Built C g (g.modifyRequest r f) := by
  obtain ⟨hbase, htarget, hjoins⟩ := hframe
  have hopen : (g.modifyRequest r f).Open (r :: C) := by
    refine hg.modifyRequest List.mem_cons_self (fun n hn => ?_) (fun a ha => ?_) fun a ha => ?_
    · exact ⟨hg.clause r n (hclause n hn), hg.clear_of_clause (hclause n hn)⟩
    · rw [Request.mem_origins, hbase, htarget, hjoins, ← Request.mem_origins] at ha
      exact ⟨hg.source r a ha, fun s hs => hg.not_mem_of_source ha hs⟩
    · rw [htarget] at ha
      rw [hbase]
      exact hg.target r a ha
  exact modifyOther hr (hopen.mono (List.subset_cons_self _ _))

end Built

section Clauses

variable {g : Graph} {C : List RequestId} {r : RequestId}

lemma Fit.later {h : Graph} {n : NodeId} (hn : g.Fit C n) (hgh : g.Extends h) (ho : g.Ordered) :
    h.Fit C n := ⟨hn.inside.trans_le hgh.entries, hn.clear.later hgh ho hn.inside⟩

lemma Fit.mono {D : List RequestId} {n : NodeId} (hn : g.Fit D n) (hCD : C ⊆ D) : g.Fit C n :=
  ⟨hn.inside, hn.clear.mono hCD⟩

lemma Open.fit_of_clause (hg : g.Open C) {q : RequestId} {n : NodeId}
    (hn : n ∈ (g.request q).clauseNodes) : g.Fit C n := ⟨hg.clause q n hn, hg.clear_of_clause hn⟩

variable (hg : g.Open C)
include hg

/-- A node of fitting parts that is no request fits. -/
lemma Open.fit_add {x : Node} (hx : ∀ c ∈ x.children, g.Fit C c)
    (hsub : ∀ s, x = .sub s → s ∉ C) : (g.add x).2.Fit C ⟨g.entries.size⟩ := by
  have hext : g.Extends (g.add x).2 := (Kept.add [] [] g x).extension
  refine ⟨by simp, Clear.of_children ?_ ?_⟩
  · intro s hs
    rw [node_add_self] at hs
    exact hsub s hs
  · intro c hc
    rw [node_add_self] at hc
    exact ((hx c hc).later hext hg.ordered).clear

/-- A conjunction with a condition of a clause fits. -/
lemma built_conjoin {old : Option NodeId} {n : NodeId} (hn : g.Fit C n)
    (hold : ∀ m, old = some m → g.Fit C m) :
    Built C g (g.conjoin old n).2 ∧ (g.conjoin old n).2.Fit C (g.conjoin old n).1 := by
  cases old with
  | none => exact ⟨.refl hg, hn⟩
  | some m =>
    have hm := hold m rfl
    have hchildren : ∀ c ∈ (Node.binary .and m n).children, g.Fit C c :=
      Node.forall_children_binary hm hn
    exact ⟨.add hg (fun c hc => (hchildren c hc).inside) (by simp),
      hg.fit_add hchildren (by simp)⟩

/-- A value that was there does not hold a request that was not. -/
lemma Fit.inNew {n : NodeId} (hn : g.Fit C n) (parent : Option RequestId) :
    (g.addRequest parent).2.Fit (⟨g.requests.size⟩ :: C) n := by
  refine ⟨hn.inside, fun m s hm hs hC => ?_⟩
  rcases List.mem_cons.1 hC with rfl | hC
  · exact (hg.sub m _ hs).false
  · exact hn.clear m s hm hs hC

/-- A source that was there is not over a request that was not. -/
lemma Open.not_mem_new {a : AliasId} (ha : ∀ s, (g.aliasOf a).origin = .request s → s ∉ C)
    (s : RequestId) (hs : (g.aliasOf a).origin = .request s) : s ∉ ⟨g.requests.size⟩ :: C := by
  intro hC
  rcases List.mem_cons.1 hC with rfl | hC
  · exact (hg.origin a _ hs).false
  · exact ha s hs hC

/-- A request gets a base that is over none of the requests being built. -/
lemma built_setBase (hr : r ∈ C) {a : AliasId} (ha : a.index < g.aliases.size)
    (horigin : ∀ s, (g.aliasOf a).origin = .request s → s ∉ C)
    (hnew : (g.request r).target = none ∧ (g.request r).base = none)
    {f : Request → Request} (hf : (f (g.request r)).parent = (g.request r).parent ∧
      (f (g.request r)).clauseNodes = (g.request r).clauseNodes ∧
      (f (g.request r)).joins = (g.request r).joins ∧ (f (g.request r)).target = (g.request r).target ∧
      (f (g.request r)).base = some a) : Built C g (g.modifyRequest r f) := by
  obtain ⟨hparent, hclause, hjoins, htarget', hbase⟩ := hf
  refine .modifyRequest hg hr hparent (fun b hb => ?_) (fun n hn => .inl (hclause ▸ hn)) (fun b hb => ?_)
    fun b hb => ?_
  · rw [hnew.2] at hb
    cases hb
  · rw [Request.mem_origins, hbase, hjoins, htarget'] at hb
    rcases hb with hb | hb
    · cases hb
      exact .inr ⟨ha, horigin⟩
    · exact .inl (Request.mem_origins.2 (.inr hb))
  · rw [htarget', hnew.1] at hb
    cases hb

omit hg in
/-- A request becomes a derived table of another one. -/
lemma built_derived {inner outer : RequestId} (hg : g.Open (inner :: outer :: C))
    (hnot : inner ∉ outer :: C)
    (hnew : (g.request outer).target = none ∧ (g.request outer).base = none) {f : Request → Request}
    (hframe : (f (g.request inner)).base = (g.request inner).base ∧
      (f (g.request inner)).target = (g.request inner).target ∧
      (f (g.request inner)).joins = (g.request inner).joins)
    (hclause : ∀ n ∈ (f (g.request inner)).clauseNodes, n ∈ (g.request inner).clauseNodes) :
    Built (outer :: C) g (((g.addAlias (.derived inner)).2.modifyRequest inner f).modifyRequest outer
      ({ · with base := some ⟨g.aliases.size⟩ })) := by
  have hsource : ∀ s, (Alias.derived inner).origin = .request s → s.index < g.requests.size := by
    intro s hs
    cases hs
    exact hg.inside inner List.mem_cons_self
  have hne : outer ≠ inner := by
    rintro rfl
    exact hnot List.mem_cons_self
  have halias : Built (outer :: C) g (g.addAlias (.derived inner)).2 :=
    .addAlias (hg.mono (List.subset_cons_self _ _)) hsource
  have hmove : Built (outer :: C) (g.addAlias (.derived inner)).2
      ((g.addAlias (.derived inner)).2.modifyRequest inner f) :=
    .move (Built.addAlias hg hsource).opened hnot hframe hclause
  refine (halias.trans hmove).trans (built_setBase hmove.opened List.mem_cons_self ?_ ?_ ?_
    ⟨rfl, rfl, rfl, rfl, rfl⟩)
  · rw [aliases_modifyRequest, size_aliases_addAlias]
    exact Nat.lt_succ_self _
  · intro q hq
    rw [aliasOf_modifyRequest, aliasOf_addAlias_self] at hq
    cases hq
    exact hnot
  · rw [request_modifyRequest_of_ne _ _ hne]
    exact hnew

/-- A new request over a source that is over none of the requests being built. -/
lemma built_openRequest (outer : RequestId) {a : AliasId} (ha : a.index < g.aliases.size)
    (horigin : ∀ s, (g.aliasOf a).origin = .request s → s ∉ C) :
    Built (⟨g.requests.size⟩ :: C) (g.addRequest (some outer)).2 (g.openRequest outer a) := by
  exact built_setBase (hg.addRequest (some outer)) List.mem_cons_self ha (hg.not_mem_new horigin)
    (by rw [request_addRequest_self]; exact ⟨rfl, rfl⟩) ⟨rfl, rfl, rfl, rfl, rfl⟩

variable (hr : r ∈ C)
include hr

/-- A value becomes part of a clause. -/
lemma built_put {n : NodeId} (hn : g.Fit C n) {f : Request → Request}
    (hframe : (f (g.request r)).parent = (g.request r).parent ∧
      (f (g.request r)).base = (g.request r).base ∧ (f (g.request r)).target = (g.request r).target ∧
      (f (g.request r)).joins = (g.request r).joins)
    (hclause : ∀ m ∈ (f (g.request r)).clauseNodes, m ∈ (g.request r).clauseNodes ∨ m = n) :
    Built C g ((g.attach r n).modifyRequest r f) := by
  have hattach := Built.attach hg r n
  obtain ⟨hparent, hbase, htarget, hjoins⟩ := hframe
  refine hattach.trans (.amend hattach.opened hr ⟨hparent, hbase, htarget, fun j hj => ?_⟩ ?_)
  · rw [request_attach, hjoins] at hj
    exact ⟨j, hj, rfl⟩
  · intro m hm
    rcases hclause m hm with hold | rfl
    · exact .inl hold
    · exact .inr (hn.later hattach.extension hg.ordered)

lemma built_pushItem {i : Item} (hi : g.Fit C i.node) : Built C g (g.pushItem r i) := by
  refine built_put hg hr hi ⟨rfl, rfl, rfl, rfl⟩ fun m hm => ?_
  simp only [Request.mem_clauseNodes, List.mem_append, List.mem_singleton] at hm ⊢
  grind

lemma built_pushOrder {n : NodeId} (hn : g.Fit C n) (ascending : Bool) :
    Built C g (g.pushOrder r n ascending) := by
  refine built_put hg hr hn ⟨rfl, rfl, rfl, rfl⟩ fun m hm => ?_
  simp only [Request.mem_clauseNodes, List.mem_append, List.mem_singleton] at hm ⊢
  grind

lemma built_pushGroup {n : NodeId} (hn : g.Fit C n) (member : Option PropertyRef) :
    Built C g (g.pushGroup r n member) := by
  refine built_put hg hr hn ⟨rfl, rfl, rfl, rfl⟩ fun m hm => ?_
  simp only [Request.mem_clauseNodes, List.mem_append, List.mem_singleton] at hm ⊢
  grind

lemma built_clearItems : Built C g (g.clearItems r) := by
  refine .amend hg hr ⟨rfl, rfl, rfl, fun j hj => ⟨j, hj, rfl⟩⟩ fun n hn => .inl ?_
  rw [Request.mem_clauseNodes] at hn ⊢
  rcases hn with hn | ⟨i, hi, -⟩ | hn
  · exact .inl hn
  · cases hi
  · exact .inr (.inr hn)

lemma built_dropJoin (a : AliasId) : Built C g (g.dropJoin r a) := by
  have hjoin : ∀ j ∈ (g.request r).joins.eraseP fun k => k.source = a, j ∈ (g.request r).joins :=
    fun j hj => List.mem_of_mem_eraseP hj
  refine .amend hg hr ⟨rfl, rfl, rfl, fun j hj => ⟨j, hjoin j hj, rfl⟩⟩ fun n hn => .inl ?_
  rw [Request.mem_clauseNodes] at hn ⊢
  rcases hn with ⟨j, hj, rfl⟩ | hn
  · exact .inl ⟨j, hjoin j hj, rfl⟩
  · exact .inr hn

lemma built_andFilter {n : NodeId} (hn : g.Fit C n) : Built C g (g.andFilter r n) := by
  have hold : ∀ m, (g.request r).filter = some m → g.Fit C m := fun m hm =>
    hg.fit_of_clause (Request.mem_clauseNodes.2 (.inr (.inr (.inl hm))))
  obtain ⟨hbuilt, hfit⟩ := built_conjoin hg hn hold
  unfold andFilter
  rcases hx : g.conjoin (g.request r).filter n with ⟨m, h⟩
  rw [hx] at hbuilt hfit
  refine hbuilt.trans (built_put hbuilt.opened hr hfit ⟨rfl, rfl, rfl, rfl⟩ fun k hk => ?_)
  simp only [Request.mem_clauseNodes, Option.some.injEq] at hk ⊢
  grind

lemma built_andHaving {n : NodeId} (hn : g.Fit C n) : Built C g (g.andHaving r n) := by
  have hold : ∀ m, (g.request r).having = some m → g.Fit C m := fun m hm =>
    hg.fit_of_clause (Request.mem_clauseNodes.2 (.inr (.inr (.inr (.inl hm)))))
  obtain ⟨hbuilt, hfit⟩ := built_conjoin hg hn hold
  unfold andHaving
  rcases hx : g.conjoin (g.request r).having n with ⟨m, h⟩
  rw [hx] at hbuilt hfit
  refine hbuilt.trans (built_put hbuilt.opened hr hfit ⟨rfl, rfl, rfl, rfl⟩ fun k hk => ?_)
  simp only [Request.mem_clauseNodes, Option.some.injEq] at hk ⊢
  grind

lemma built_pushAssignment {s : Assignment} (hcolumn : g.Fit C s.column) (hvalue : g.Fit C s.value) :
    Built C g (g.pushAssignment r s) := by
  have hfirst := Built.attach hg r s.column
  have hboth := hfirst.trans (.attach hfirst.opened r s.value)
  refine hboth.trans (.amend hboth.opened hr ⟨rfl, rfl, rfl, fun j hj => ⟨j, hj, rfl⟩⟩ fun m hm => ?_)
  have hcolumn := hcolumn.later hboth.extension hg.ordered
  have hvalue := hvalue.later hboth.extension hg.ordered
  simp only [Request.mem_clauseNodes, List.mem_append, List.mem_singleton] at hm ⊢
  grind

/-- A source is joined on a condition. -/
lemma built_pushJoin {j : Join} (hj : g.Fit C j.condition) (hsource : j.source.index < g.aliases.size)
    (horigin : ∀ s, (g.aliasOf j.source).origin = .request s → s ∉ C) :
    Built C g (g.pushJoin r j) := by
  have hattach := Built.attach hg r j.condition
  refine hattach.trans (.modifyRequest hattach.opened hr rfl (fun _ ha => ha) (fun n hn => ?_)
    (fun a ha => ?_) fun a ha => hattach.opened.target r a ha)
  · have hfit := hj.later hattach.extension hg.ordered
    simp only [Request.mem_clauseNodes, List.mem_append, List.mem_singleton] at hn ⊢
    grind
  · have hnew : j.source.index < (g.attach r j.condition).aliases.size ∧ ∀ s,
        ((g.attach r j.condition).aliasOf j.source).origin = .request s → s ∉ C := ⟨hsource, horigin⟩
    simp only [Request.mem_origins, List.mem_append, List.mem_singleton] at ha ⊢
    grind

end Clauses

end EntityQuery.Sql.Graph
