import EntityQuery.Proofs.Compile.Ensures
import EntityQuery.Proofs.Filters.Growth
import EntityQuery.Proofs.Sql.Scopes

/-!
Statements over tables that are joined one after the other.

* `Flat`: the graph has one request. Its joins bring in the sources in the order in which they were made,
  and what is older than the condition of a join reads no later source.
* `Spread`: a value adds nodes and joins to a flat graph, and the graph stays flat.
* `Flat.placed`: no clause reads anything but the sources of the request, and no join a later one.
-/

namespace EntityQuery

open Sql

namespace Sql

/-- The source and the condition of every join. -/
def Request.links (q : Request) : List (AliasId × NodeId) := q.joins.map fun j => (j.source, j.condition)

namespace Graph

/-- Every node reads a source of the graph. -/
def Inside (g : Graph) : Prop := ∀ n a, (g.node n).source? = some a → a.index < g.aliases.size

/-- One request, which joins every source after the first. -/
structure Flat (g : Graph) : Prop where
  sound : g.Sound [⟨0⟩]
  single : g.requests.size = 1
  inside : g.Inside
  size : g.aliases.size = (g.request ⟨0⟩).links.length + 1
  /-- The joins are in the order of their sources. -/
  numbered : ∀ i l, (g.request ⟨0⟩).links[i]? = some l → l.1.index = i + 1
  /-- What is older than the condition of a join reads no later source. -/
  dated : ∀ l ∈ (g.request ⟨0⟩).links, ∀ n a, n.index ≤ l.2.index → (g.node n).source? = some a →
    a.index ≤ l.1.index

variable {g h k : Graph}

namespace Inside

lemma add (hg : g.Inside) {x : Node} (hx : ∀ a, x.source? = some a → a.index < g.aliases.size) :
    (g.add x).2.Inside := by
  intro n a ha
  rw [node_add] at ha
  rw [aliases_add]
  split at ha
  · exact hx a ha
  · exact hg n a ha

lemma equate (hg : g.Inside) {a b : AliasId} (ha : a.index < g.aliases.size) (hb : b.index < g.aliases.size)
    (c c' : String) : (g.equate a c b c').2.Inside := by
  have hl := hg.add (x := .column a c) fun d hd => by
    cases hd
    exact ha
  have hr := hl.add (x := .column b c') fun d hd => by
    cases hd
    rwa [aliases_add]
  exact hr.add fun d hd => by cases hd

end Inside

namespace Flat

lemma zero_lt (hg : g.Flat) : (⟨0⟩ : RequestId).index < g.requests.size := by
  rw [hg.single]
  exact Nat.one_pos

/-- There is no other request that a node could read. -/
lemma not_sub (hg : g.Flat) (n : NodeId) (r : RequestId) : g.node n ≠ .sub r := by
  intro hsub
  obtain ⟨hr, hlt, -⟩ := hg.sound.sub n r hsub
  rw [hg.single, Nat.lt_one_iff] at hlt
  exact hr (List.mem_singleton.2 (congrArg RequestId.mk hlt))

lemma mem_links {j : Join} (hj : j ∈ (g.request ⟨0⟩).joins) :
    (j.source, j.condition) ∈ (g.request ⟨0⟩).links := List.mem_map_of_mem hj

lemma condition_lt (hg : g.Flat) {l : AliasId × NodeId} (hl : l ∈ (g.request ⟨0⟩).links) :
    l.2.index < g.entries.size := by
  obtain ⟨j, hj, rfl⟩ := List.mem_map.1 hl
  exact hg.sound.clause ⟨0⟩ _ (Request.mem_clauseNodes.2 (.inl ⟨j, hj, rfl⟩))

/-- A node of the graph is new, or what it was. -/
lemma add (hg : g.Flat) {x : Node} (hx : ∀ c ∈ x.children, c.index < g.entries.size)
    (hsource : ∀ a, x.source? = some a → a.index < g.aliases.size) (hsub : ∀ r, x ≠ .sub r) :
    (g.add x).2.Flat where
  sound := hg.sound.add hx fun r hr => absurd hr (hsub r)
  single := by rw [requests_add, hg.single]
  inside := hg.inside.add hsource
  size := by rw [aliases_add, request_add, hg.size]
  numbered := by
    rw [request_add]
    exact hg.numbered
  dated l hl n a hn ha := by
    rw [request_add] at hl
    rw [node_add_of_lt g x (hn.trans_lt (hg.condition_lt hl))] at ha
    exact hg.dated l hl n a hn ha

/-- Parameters play no part. -/
lemma bind (hg : g.Flat) (a : AliasId) (p : ParamId) : (g.bind a p).Flat where
  sound := hg.sound.bind a p
  single := hg.single
  inside n b hb := by
    rw [size_aliases_bind]
    exact hg.inside n b hb
  size := by
    rw [size_aliases_bind]
    exact hg.size
  numbered := hg.numbered
  dated := hg.dated

lemma attach (hg : g.Flat) (r : RequestId) (n : NodeId) : (g.attach r n).Flat where
  sound := hg.sound.attach r n
  single := hg.single
  inside m b hb := by
    rw [node_attach] at hb
    exact hg.inside m b hb
  size := hg.size
  numbered := hg.numbered
  dated l hl m a hm ha := by
    rw [node_attach] at ha
    exact hg.dated l hl m a hm ha

/-- The request changes in anything but its joins. -/
lemma modify (hg : g.Flat) {f : Request → Request}
    (hlinks : (f (g.request ⟨0⟩)).links = (g.request ⟨0⟩).links)
    (hclause : ∀ n ∈ (f (g.request ⟨0⟩)).clauseNodes, n.index < g.entries.size)
    (horigin : ∀ a ∈ (f (g.request ⟨0⟩)).origins, a.index < g.aliases.size) :
    (g.modifyRequest ⟨0⟩ f).Flat := by
  have hrequest : (g.modifyRequest ⟨0⟩ f).request ⟨0⟩ = f (g.request ⟨0⟩) :=
    request_modifyRequest_self _ _ hg.zero_lt
  refine ⟨hg.sound.modifyRequest List.mem_cons_self hclause horigin, ?_, hg.inside, ?_, ?_, ?_⟩
  · rw [size_requests_modifyRequest, hg.single]
  · rw [hrequest, hlinks]
    exact hg.size
  · rw [hrequest, hlinks]
    exact hg.numbered
  · rw [hrequest, hlinks]
    exact hg.dated

/-- The newest source is joined to the sources before it. -/
lemma pushJoin (hg : g.Flat) (hsound : k.Sound [⟨0⟩]) (hinside : k.Inside)
    (hnode : ∀ n, n.index < g.entries.size → k.node n = g.node n) (hrequests : k.requests = g.requests)
    (hsize : k.aliases.size = g.aliases.size + 1) {n : NodeId} (hn : n.index < k.entries.size)
    (kind : JoinKind) : (k.pushJoin ⟨0⟩ ⟨⟨g.aliases.size⟩, kind, n⟩).Flat := by
  have hrequest : k.request ⟨0⟩ = g.request ⟨0⟩ := by rw [request, hrequests, request]
  have hlinks : ((k.pushJoin ⟨0⟩ ⟨⟨g.aliases.size⟩, kind, n⟩).request ⟨0⟩).links =
      (g.request ⟨0⟩).links ++ [(⟨g.aliases.size⟩, n)] := by
    rw [request_pushJoin_self k (by rw [hrequests]; exact hg.zero_lt), hrequest, Request.links,
      List.map_append]
    rfl
  refine ⟨hsound.pushJoin List.mem_cons_self ?_ hn, ?_, ?_, ?_, ?_, ?_⟩
  · rw [hsize]
    exact Nat.lt_succ_self _
  · rw [Graph.pushJoin, size_requests_modifyRequest, requests_attach, hrequests, hg.single]
  · intro m b hb
    rw [Graph.pushJoin, node_modifyRequest, node_attach] at hb
    rw [aliases_pushJoin]
    exact hinside m b hb
  · rw [hlinks, aliases_pushJoin, hsize, hg.size, List.length_append, List.length_singleton]
  · rw [hlinks]
    intro i l hl
    by_cases hi : i < (g.request ⟨0⟩).links.length
    · rw [List.getElem?_append_left hi] at hl
      exact hg.numbered i l hl
    · rw [List.getElem?_append_right (Nat.not_lt.1 hi), List.getElem?_singleton] at hl
      split at hl
      · cases hl
        have := hg.size
        dsimp only
        omega
      · cases hl
  · rw [hlinks]
    intro l hl m b hm hb
    rw [Graph.pushJoin, node_modifyRequest, node_attach] at hb
    rcases List.mem_append.1 hl with hl | hl
    · rw [hnode m (hm.trans_lt (hg.condition_lt hl))] at hb
      exact hg.dated l hl m b hm hb
    · have hlt := hinside m b hb
      rw [List.mem_singleton.1 hl]
      dsimp only
      omega

/-- A new table is joined by two columns. -/
lemma joinTable (hg : g.Flat) {d : Alias} (hd : ∀ r, d.origin ≠ .request r) (widen : Bool)
    {a b : AliasId} (ha : a.index ≤ g.aliases.size) (hb : b.index ≤ g.aliases.size) (c c' : String) :
    ((g.addAlias d).2.joinEqual ⟨0⟩ ⟨g.aliases.size⟩ widen a c b c').Flat := by
  have hnew : (g.addAlias d).2.aliases.size = g.aliases.size + 1 := size_aliases_addAlias g d
  have hinside : (g.addAlias d).2.Inside := by
    intro n a ha
    rw [hnew]
    exact Nat.lt_succ_of_lt (hg.inside n a ha)
  have hequate : ((g.addAlias d).2.equate a c b c').2.Inside :=
    hinside.equate (by rw [hnew]; omega) (by rw [hnew]; omega) c c'
  refine hg.pushJoin ((hg.sound.addAlias hd).equate a c b c') hequate (fun n hn => ?_) ?_ ?_ ?_ _
  · exact (Kept.equate (C := []) (A := []) (g.addAlias d).2 a c b c').node n hn
  · rw [requests_equate, requests_addAlias]
  · rw [aliases_equate, hnew]
  · rw [equate_fst, size_entries_equate]
    exact Nat.lt_succ_self _

/-! ### Reading -/

/-- Sources and requests with smaller numbers are older. -/
lemma index_le_of_reads (hg : g.Flat) {l : AliasId × NodeId} (hl : l ∈ (g.request ⟨0⟩).links) {a : AliasId}
    (ha : g.Reads l.2 a) : a.index ≤ l.1.index := by
  obtain ⟨n, hn, ha⟩ := ha
  exact hg.dated l hl n a (hn.le hg.sound.ordered) ha

lemma getElem?_source (hg : g.Flat) {i : Nat} {j : Join} (hj : (g.request ⟨0⟩).joins[i]? = some j) :
    j.source.index = i + 1 := by
  refine hg.numbered i (j.source, j.condition) ?_
  rw [Request.links, List.getElem?_map, hj]
  rfl

/-- The first source and those of the first joins. -/
lemma mem_sources (hg : g.Flat) {a : AliasId} (ha : a.index < g.aliases.size) {k : Nat}
    (hk : a.index ≤ k) : a ∈ ⟨0⟩ :: ((g.request ⟨0⟩).joins.take k).map Join.source := by
  obtain ⟨i⟩ := a
  cases i with
  | zero => exact List.mem_cons_self
  | succ i =>
    have hi : i < (g.request ⟨0⟩).joins.length := by
      rw [hg.size, Request.links, List.length_map] at ha
      exact Nat.lt_of_succ_lt_succ ha
    obtain ⟨j, hj⟩ : ∃ j, (g.request ⟨0⟩).joins[i]? = some j := ⟨_, List.getElem?_eq_getElem hi⟩
    refine List.mem_cons_of_mem _ (List.mem_map.2 ⟨j, ?_, congrArg AliasId.mk (hg.getElem?_source hj)⟩)
    refine List.mem_of_getElem? (i := i) ?_
    rw [List.getElem?_take, if_pos (Nat.lt_of_succ_le hk), hj]

/-- Without joins there is nothing to read but the first source. -/
lemma detached (hg : g.Flat) (hjoins : (g.request ⟨0⟩).joins = []) : g.Detached (g.request ⟨0⟩) ⟨0⟩ := by
  have hreads : ∀ n a, g.Reads n a → a = ⟨0⟩ := by
    rintro n a ⟨k, -, ha⟩
    have hlt := hg.inside k a ha
    rw [hg.size, Request.links, hjoins, List.map_nil, List.length_nil, Nat.lt_one_iff] at hlt
    exact congrArg AliasId.mk hlt
  exact ⟨fun s _ => hreads s.value, fun _ n _ => hreads n⟩

/-- **The clauses read the sources of the request**, and no join reads a later source. -/
theorem placed (hg : g.Flat) (d : Dialect) {fuel : Nat} (hfuel : g.entries.size ≤ fuel)
    (above : List RequestId) (query : RequestId → List Piece) :
    Writer.Placed ⟨g, d, g.readNodeWithin (g.writing d) fuel above, query⟩ (g.request ⟨0⟩) ⟨0⟩ := by
  refine ⟨fun a _ => hg.sound.table a, fun n hn P hP => ?_, fun n hn a ha => ?_, fun k j hj a ha => ?_⟩
  · have hlt := hg.sound.clause ⟨0⟩ n hn
    exact scoping_readNodeWithin hg.sound.ordered hg.not_sub d above (hlt.trans_le hfuel) hP
  · obtain ⟨m, -, ha⟩ := ha
    have hlt := hg.inside m a ha
    have hmem := hg.mem_sources hlt (k := (g.request ⟨0⟩).joins.length) ?_
    · rwa [List.take_length] at hmem
    · rw [hg.size, Request.links, List.length_map] at hlt
      exact Nat.le_of_lt_succ hlt
  · obtain ⟨i, hi⟩ := List.mem_iff_getElem?.1 hj
    rw [List.getElem?_take] at hi
    split at hi
    · next hik =>
      have hle := hg.index_le_of_reads (mem_links (List.mem_of_getElem? hi)) ha
      rw [hg.getElem?_source hi] at hle
      obtain ⟨m, -, ha⟩ := ha
      exact hg.mem_sources (hg.inside m a ha) (hle.trans hik)
    · cases hi

end Flat

/-! ### More joins -/

/-- More tables are joined, and nothing else changes in the request. -/
structure Spread (g h : Graph) : Prop where
  flat : h.Flat
  entries : g.entries.size ≤ h.entries.size
  aliases : g.aliases.size ≤ h.aliases.size
  request : h.request ⟨0⟩ = { g.request ⟨0⟩ with joins := (h.request ⟨0⟩).joins }

namespace Spread

lemma refl (hg : g.Flat) : Spread g g := ⟨hg, le_rfl, le_rfl, rfl⟩

lemma trans (hgh : Spread g h) (hhk : Spread h k) : Spread g k where
  flat := hhk.flat
  entries := hgh.entries.trans hhk.entries
  aliases := hgh.aliases.trans hhk.aliases
  request := by rw [hhk.request, hgh.request]

lemma add (hg : g.Flat) {x : Node} (hx : ∀ c ∈ x.children, c.index < g.entries.size)
    (hsource : ∀ a, x.source? = some a → a.index < g.aliases.size) (hsub : ∀ r, x ≠ .sub r) :
    Spread g (g.add x).2 where
  flat := hg.add hx hsource hsub
  entries := (Kept.add [] [] g x).entries
  aliases := by rw [aliases_add]
  request := by rw [request_add]

lemma joinTable (hg : g.Flat) {d : Alias} (hd : ∀ r, d.origin ≠ .request r) (widen : Bool)
    {a b : AliasId} (ha : a.index ≤ g.aliases.size) (hb : b.index ≤ g.aliases.size) (c c' : String) :
    Spread g ((g.addAlias d).2.joinEqual ⟨0⟩ ⟨g.aliases.size⟩ widen a c b c') := by
  have hkept : g.Kept [⟨0⟩] [] ((g.addAlias d).2.joinEqual ⟨0⟩ ⟨g.aliases.size⟩ widen a c b c') :=
    ((Kept.addAlias _ _ g d).trans (.equate _ a c b c')).trans (.pushJoin _ List.mem_cons_self _)
  refine ⟨hg.joinTable hd widen ha hb c c', hkept.entries, hkept.aliases, ?_⟩
  rw [joinEqual, request_pushJoin_self _ (by simpa using hg.zero_lt), request_equate, request_addAlias]

/-- Only the kinds of joins change. -/
lemma widenJoin (hg : g.Flat) (a : AliasId) : Spread g (g.widenJoin ⟨0⟩ a) := by
  have hsame : ∀ j : Join, (if j.source = a ∨ some j.source = (g.aliasOf a).via?
      then { j with kind := .left } else j).source = j.source ∧ (if j.source = a ∨
      some j.source = (g.aliasOf a).via? then { j with kind := .left } else j).condition = j.condition := by
    intro j
    split <;> exact ⟨rfl, rfl⟩
  refine ⟨hg.modify ?_ (fun n hn => ?_) (fun b hb => ?_), le_rfl, le_rfl, ?_⟩
  · simp only [Request.links, List.map_map, Function.comp_def, (hsame _).1, (hsame _).2]
  · refine hg.sound.clause ⟨0⟩ n ?_
    rw [Request.mem_clauseNodes] at hn ⊢
    rcases hn with ⟨j, hj, rfl⟩ | hn
    · obtain ⟨k, hk, rfl⟩ := List.mem_map.1 hj
      exact .inl ⟨k, hk, (hsame k).2.symm⟩
    · exact .inr hn
  · refine hg.sound.source ⟨0⟩ b ?_
    rw [Request.mem_origins] at hb ⊢
    rcases hb with hb | ⟨j, hj, rfl⟩ | hb
    · exact .inl hb
    · obtain ⟨k, hk, rfl⟩ := List.mem_map.1 hj
      exact .inr (.inl ⟨k, hk, (hsame k).1.symm⟩)
    · exact .inr (.inr hb)
  · rw [Graph.widenJoin, request_modifyRequest_self _ _ hg.zero_lt]

end Spread

end Graph

/-! ### Members -/

end Sql

open Graph

/-- What a property of a row stands for is in a graph. -/
def Resolved.Within (g : Graph) : Resolved → Prop
  | .value n => n.index < g.entries.size
  | .row a => a.index < g.aliases.size

namespace Mapping

variable {m : Mapping} {g : Graph} {owner : AliasId} {p : PropertyRef} {widen : Bool}

lemma spread_joinReference (hg : g.Flat) (howner : owner.index < g.aliases.size) {column target : String} :
    Ensures (m.joinReference ⟨0⟩ owner p column target widen) g fun a h =>
      Spread g h ∧ a.index < h.aliases.size := by
  intro a h hrun
  rcases runs_joinReference.1 hrun with ⟨hnavigated, rfl⟩ | ⟨-, table, key, -, -, rfl, rfl⟩
  · obtain ⟨j, hj, rfl⟩ := List.mem_map.1 (List.mem_of_find?_eq_some hnavigated)
    have ha := hg.sound.source ⟨0⟩ j.source (Request.mem_origins.2 (.inr (.inl ⟨j, hj, rfl⟩)))
    split
    · exact ⟨.widenJoin hg _, ha⟩
    · exact ⟨.refl hg, ha⟩
  · refine ⟨.joinTable hg (by simp [Alias.ofTable]) widen howner.le le_rfl column key, ?_⟩
    simp [joinEqual]

lemma spread_joinCollection (hg : g.Flat) (howner : owner.index < g.aliases.size) {column target : String} :
    Ensures (m.joinCollection ⟨0⟩ owner p column target widen) g fun a h =>
      Spread g h ∧ a.index < h.aliases.size := by
  intro a h hrun
  obtain ⟨table, targetKey, key, -, -, -, rfl, rfl⟩ := runs_joinCollection.1 hrun
  refine ⟨.joinTable hg (by simp [Alias.ofTable]) widen le_rfl howner.le column key, ?_⟩
  simp [joinEqual]

lemma spread_joinLinked (hg : g.Flat) (howner : owner.index < g.aliases.size)
    {target link ownerColumn targetColumn : String} :
    Ensures (m.joinLinked ⟨0⟩ owner p target link ownerColumn targetColumn widen) g fun a h =>
      Spread g h ∧ a.index < h.aliases.size := by
  intro a h hrun
  obtain ⟨table, targetKey, ownerKey, -, -, -, rfl, rfl⟩ := runs_joinLinked.1 hrun
  have hlink : Spread g (joinLink g ⟨0⟩ owner p link ownerColumn ownerKey widen) :=
    .joinTable hg (by simp [linkAlias]) widen le_rfl howner.le ownerColumn ownerKey
  have hsize : (joinLink g ⟨0⟩ owner p link ownerColumn ownerKey widen).aliases.size =
      g.aliases.size + 1 := by simp [joinLink, joinEqual]
  rw [← hsize]
  refine ⟨hlink.trans (.joinTable hlink.flat (by simp [Alias.ofTable]) widen le_rfl ?_ targetKey
    targetColumn), ?_⟩
  · rw [hsize]
    exact Nat.le_succ _
  · simp [joinEqual]

/-- **A property of a row is a column of it or leads to joined tables.** -/
theorem spread_locate (hg : g.Flat) (howner : owner.index < g.aliases.size) :
    Ensures (m.locate ⟨0⟩ owner p widen) g fun x h => Spread g h ∧ x.Within h := by
  intro x h hrun
  obtain ⟨stored, -, hkind⟩ := runs_locate.1 hrun
  rcases stored with ⟨name, column, kind⟩
  cases kind with
  | scalar t nullable length =>
    obtain ⟨rfl, rfl⟩ := hkind
    refine ⟨.add hg (by simp [Node.children]) (fun a ha => ?_) (by simp), ?_⟩
    · cases ha
      exact howner
    · simp [Resolved.Within]
  | reference target =>
    obtain ⟨a, rfl, hjoin⟩ := hkind
    exact spread_joinReference hg howner a h hjoin
  | collection target =>
    obtain ⟨a, rfl, hjoin⟩ := hkind
    exact spread_joinCollection hg howner a h hjoin
  | manyToMany target link oc tc =>
    obtain ⟨a, rfl, hjoin⟩ := hkind
    exact spread_joinLinked hg howner a h hjoin

/-- A column of a row joins nothing. -/
lemma joins_locate (hp : ∀ stored, m.catalog.propertyMapping p = .ok stored → stored.isScalar = true) :
    Ensures (m.locate ⟨0⟩ owner p widen) g fun _ h =>
      (h.request ⟨0⟩).joins = (g.request ⟨0⟩).joins := by
  intro x h hrun
  obtain ⟨stored, hstored, hkind⟩ := runs_locate.1 hrun
  have hscalar := hp stored hstored
  rcases stored with ⟨name, column, kind⟩
  cases kind with
  | scalar t nullable length =>
    rw [hkind.2, request_add]
  | _ => cases hscalar

end Mapping

end EntityQuery
