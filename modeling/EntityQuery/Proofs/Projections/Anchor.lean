import EntityQuery.Proofs.Compile.Ensures
import EntityQuery.Proofs.Nesting.Copies

/-!
An outermost request that keeps its place while values are built inside it.

* `Anchored`: the base of the request, the type of its rows and its place are what the anchor says,
  and its base is brought in by no join.
* Whatever extends the graph keeps this, and so does every change to another request.
* So a row that a property leads to is never the base of that request: it is brought in by a join.
-/

namespace EntityQuery

open Sql

namespace Sql

/-- An outermost request, with its base and the type that a row of it stands for. -/
structure Anchor where
  request : RequestId
  base : Option AliasId
  projection : Option TypeRef

/-- A request is as the anchor says, and no join brings in its base. Joins bring in aliases that there
are. -/
structure Graph.Anchored (A : Anchor) (g : Graph) : Prop where
  inside : A.request.index < g.requests.size
  base : (g.request A.request).base = A.base
  parent : (g.request A.request).parent = none
  projection : (g.request A.request).projection = A.projection
  room : ∀ a, A.base = some a → a.index < g.aliases.size
  apart : ∀ q, ∀ j ∈ (g.request q).joins, A.base ≠ some j.source ∧ j.source.index < g.aliases.size

namespace Graph

lemma aliases_conjoin (g : Graph) (old : Option NodeId) (n : NodeId) :
    (g.conjoin old n).2.aliases = g.aliases := by
  cases old with
  | none => rfl
  | some m => exact aliases_add g _

lemma aliases_andFilter (g : Graph) (r : RequestId) (n : NodeId) :
    (g.andFilter r n).aliases = g.aliases := g.aliases_conjoin _ n

lemma aliases_andHaving (g : Graph) (r : RequestId) (n : NodeId) :
    (g.andHaving r n).aliases = g.aliases := g.aliases_conjoin _ n

namespace Anchored

variable {A : Anchor} {g h : Graph}

/-! ### Extensions -/

lemma congr (hg : g.Anchored A) (hrequests : h.requests = g.requests)
    (haliases : g.aliases.size ≤ h.aliases.size) : h.Anchored A := by
  have hrequest : ∀ q, h.request q = g.request q := fun q => by rw [request, hrequests, request]
  refine ⟨?_, ?_, ?_, ?_, fun a ha => (hg.room a ha).trans_le haliases, fun q j hj => ?_⟩
  · rw [hrequests]
    exact hg.inside
  · rw [hrequest]
    exact hg.base
  · rw [hrequest]
    exact hg.parent
  · rw [hrequest]
    exact hg.projection
  · rw [hrequest] at hj
    exact ⟨(hg.apart q j hj).1, (hg.apart q j hj).2.trans_le haliases⟩

lemma add (hg : g.Anchored A) (x : Node) : (g.add x).2.Anchored A :=
  hg.congr (by simp) (by simp)

lemma attach (hg : g.Anchored A) (r : RequestId) (n : NodeId) : (g.attach r n).Anchored A :=
  hg.congr rfl le_rfl

lemma addAlias (hg : g.Anchored A) (d : Alias) : (g.addAlias d).2.Anchored A :=
  hg.congr rfl (by simp)

lemma bind (hg : g.Anchored A) (a : AliasId) (p : ParamId) : (g.bind a p).Anchored A :=
  hg.congr rfl (by simp)

/-- A new alias is not the base. -/
lemma base_ne_new (hg : g.Anchored A) {a : AliasId} (ha : g.aliases.size ≤ a.index) :
    A.base ≠ some a := fun hbase => absurd (hg.room a hbase) (by omega)

lemma ne_new (hg : g.Anchored A) : (⟨g.requests.size⟩ : RequestId) ≠ A.request := by
  intro hnew
  exact absurd hg.inside (by rw [← hnew]; exact lt_irrefl _)

lemma addRequest (hg : g.Anchored A) (parent : Option RequestId) :
    (g.addRequest parent).2.Anchored A := by
  have hold := request_addRequest_of_lt g parent hg.inside
  refine ⟨?_, ?_, ?_, ?_, hg.room, fun q => ?_⟩
  · rw [size_requests_addRequest]
    exact Nat.lt_succ_of_lt hg.inside
  · rw [hold]
    exact hg.base
  · rw [hold]
    exact hg.parent
  · rw [hold]
    exact hg.projection
  · rw [request_addRequest]
    split
    · simp
    · exact hg.apart q

/-! ### Changes of requests -/

/-- A change to a request, which brings in no base and, if it is the anchored one, leaves what the
anchor says. -/
lemma modifyRequest (hg : g.Anchored A) {r : RequestId} {f : Request → Request}
    (hjoins : ∀ j ∈ (f (g.request r)).joins, A.base ≠ some j.source ∧
      j.source.index < g.aliases.size)
    (hsame : r = A.request → (f (g.request r)).base = A.base ∧ (f (g.request r)).parent = none ∧
      (f (g.request r)).projection = A.projection) : (g.modifyRequest r f).Anchored A := by
  have hplace : ((g.modifyRequest r f).request A.request).base = A.base ∧
      ((g.modifyRequest r f).request A.request).parent = none ∧
      ((g.modifyRequest r f).request A.request).projection = A.projection := by
    by_cases hr : r = A.request
    · have hlt : r.index < g.requests.size := by
        rw [hr]
        exact hg.inside
      rw [← hr, request_modifyRequest_self _ _ hlt]
      exact hsame hr
    · rw [request_modifyRequest_of_ne _ _ (Ne.symm hr)]
      exact ⟨hg.base, hg.parent, hg.projection⟩
  refine ⟨?_, hplace.1, hplace.2.1, hplace.2.2, hg.room, fun q => ?_⟩
  · rw [size_requests_modifyRequest]
    exact hg.inside
  · by_cases hq : q = r
    · subst hq
      by_cases hlt : q.index < g.requests.size
      · rw [request_modifyRequest_self _ _ hlt]
        exact hjoins
      · rw [request_of_size_le (by rw [size_requests_modifyRequest]; exact Nat.not_lt.1 hlt)]
        simp
    · rw [request_modifyRequest_of_ne _ _ hq]
      exact hg.apart q

/-- A change to clauses of a request. -/
lemma clauses (hg : g.Anchored A) (r : RequestId) {f : Request → Request}
    (hf : ∀ q, (f q).joins = q.joins ∧ (f q).base = q.base ∧ (f q).parent = q.parent ∧
      (f q).projection = q.projection) : (g.modifyRequest r f).Anchored A := by
  obtain ⟨hjoins, hbase, hparent, hprojection⟩ := hf (g.request r)
  refine hg.modifyRequest ?_ fun hr => ?_
  · rw [hjoins]
    exact hg.apart r
  · rw [hbase, hparent, hprojection, hr]
    exact ⟨hg.base, hg.parent, hg.projection⟩

/-- A change to another request that keeps its joins. -/
lemma other (hg : g.Anchored A) {r : RequestId} (hr : r ≠ A.request) {f : Request → Request}
    (hf : ∀ q, (f q).joins = q.joins) : (g.modifyRequest r f).Anchored A := by
  refine hg.modifyRequest ?_ fun h => absurd h hr
  rw [hf]
  exact hg.apart r

lemma pushItem (hg : g.Anchored A) (r : RequestId) (i : Item) : (g.pushItem r i).Anchored A :=
  (hg.attach r i.node).clauses r fun _ => ⟨rfl, rfl, rfl, rfl⟩

lemma clearItems (hg : g.Anchored A) (r : RequestId) : (g.clearItems r).Anchored A :=
  hg.clauses r fun _ => ⟨rfl, rfl, rfl, rfl⟩

lemma pushGroup (hg : g.Anchored A) (r : RequestId) (n : NodeId) (p : Option PropertyRef) :
    (g.pushGroup r n p).Anchored A := (hg.attach r n).clauses r fun _ => ⟨rfl, rfl, rfl, rfl⟩

lemma pushOrder (hg : g.Anchored A) (r : RequestId) (n : NodeId) (ascending : Bool) :
    (g.pushOrder r n ascending).Anchored A :=
  (hg.attach r n).clauses r fun _ => ⟨rfl, rfl, rfl, rfl⟩

lemma pushAssignment (hg : g.Anchored A) (r : RequestId) (s : Assignment) :
    (g.pushAssignment r s).Anchored A :=
  ((hg.attach r s.column).attach r s.value).clauses r fun _ => ⟨rfl, rfl, rfl, rfl⟩

lemma conjoin (hg : g.Anchored A) (old : Option NodeId) (n : NodeId) :
    (g.conjoin old n).2.Anchored A := by
  cases old with
  | none => exact hg
  | some m => exact hg.add _

lemma andFilter (hg : g.Anchored A) (r : RequestId) (n : NodeId) : (g.andFilter r n).Anchored A :=
  ((hg.conjoin _ n).attach r _).clauses r fun _ => ⟨rfl, rfl, rfl, rfl⟩

lemma andHaving (hg : g.Anchored A) (r : RequestId) (n : NodeId) : (g.andHaving r n).Anchored A :=
  ((hg.conjoin _ n).attach r _).clauses r fun _ => ⟨rfl, rfl, rfl, rfl⟩

/-- A join that does not bring in the base. -/
lemma pushJoin (hg : g.Anchored A) (r : RequestId) {j : Join}
    (hj : A.base ≠ some j.source ∧ j.source.index < g.aliases.size) :
    (g.pushJoin r j).Anchored A := by
  refine (hg.attach r j.condition).modifyRequest (fun k hk => ?_) fun hr => ?_
  · rcases List.mem_append.1 hk with hk | hk
    · exact hg.apart r k hk
    · rw [List.mem_singleton.1 hk]
      exact hj
  · rw [request_attach, hr]
    exact ⟨hg.base, hg.parent, hg.projection⟩

lemma joinEqual (hg : g.Anchored A) (r : RequestId) {source : AliasId}
    (hsource : A.base ≠ some source ∧ source.index < g.aliases.size) (widen : Bool) (a : AliasId)
    (c : String) (b : AliasId) (c' : String) :
    (g.joinEqual r source widen a c b c').Anchored A := by
  refine pushJoin (hg.congr (by simp) (by simp)) r ?_
  rw [aliases_equate]
  exact hsource

/-- A new alias, joined on equal columns. -/
lemma joinNew (hg : g.Anchored A) (d : Alias) (r : RequestId) (widen : Bool) (a : AliasId)
    (c : String) (b : AliasId) (c' : String) :
    ((g.addAlias d).2.joinEqual r ⟨g.aliases.size⟩ widen a c b c').Anchored A :=
  (hg.addAlias d).joinEqual r ⟨hg.base_ne_new le_rfl, by simp⟩ widen a c b c'

lemma dropJoin (hg : g.Anchored A) (r : RequestId) (a : AliasId) : (g.dropJoin r a).Anchored A := by
  refine hg.modifyRequest (fun j hj => hg.apart r j (List.mem_of_mem_eraseP hj)) fun hr => ?_
  rw [hr]
  exact ⟨hg.base, hg.parent, hg.projection⟩

lemma widenJoin (hg : g.Anchored A) (r : RequestId) (a : AliasId) : (g.widenJoin r a).Anchored A := by
  refine hg.modifyRequest (fun j hj => ?_) fun hr => ?_
  · obtain ⟨k, hk, rfl⟩ := List.mem_map.1 hj
    have hsource : (if k.source = a ∨ some k.source = (g.aliasOf a).via? then
        { k with kind := .left } else k).source = k.source := by split <;> rfl
    rw [hsource]
    exact hg.apart r k hk
  · rw [hr]
    exact ⟨hg.base, hg.parent, hg.projection⟩

lemma openRequest (hg : g.Anchored A) (outer : RequestId) (a : AliasId) :
    (g.openRequest outer a).Anchored A :=
  (hg.addRequest (some outer)).other hg.ne_new fun _ => rfl

/-- The outermost request around the anchored one is that request. -/
lemma outermost (hg : g.Anchored A) : g.outermost A.request = A.request := by
  rw [Graph.outermost, enclosing?, enclosingWithin, if_pos (by rw [hg.parent]; rfl)]
  rfl

/-- A request over a source that is not the base is another one. -/
lemma requestOver?_ne (hg : g.Anchored A) {a : AliasId} (ha : A.base ≠ some a) {r q : RequestId}
    (hq : g.requestOver? r a = some q) : q ≠ A.request := by
  rintro rfl
  have hbase : ∀ fuel r, g.enclosingWithin (fun q => (g.request q).base == some a) fuel r =
      some A.request → A.base = some a := by
    intro fuel
    induction fuel with
    | zero => exact fun r h => nomatch h
    | succ fuel ih =>
      intro r h
      rw [enclosingWithin] at h
      split at h
      · next hr =>
        obtain rfl := Option.some.inj h
        rw [← hg.base]
        exact eq_of_beq hr
      · split at h
        · exact ih _ h
        · cases h
  exact ha (hbase _ _ hq)

end Anchored

end Graph

/-! ### Anchors that move -/

/-- The anchor after a request has come to show another type. -/
def Anchor.showing (A : Anchor) (r : RequestId) (type : TypeRef) : Anchor :=
  if r = A.request then { A with projection := some type } else A

/-- The anchor after a request has become part of a new one. -/
def Anchor.around (A : Anchor) (r outer : RequestId) (base : Option AliasId) : Anchor :=
  if r = A.request then ⟨outer, base, none⟩ else A

namespace Graph

variable {A : Anchor} {g : Graph}

lemma joins_modifyRequest (g : Graph) (r : RequestId) {f : Request → Request}
    (hf : ∀ q, (f q).joins = q.joins) (q : RequestId) :
    ((g.modifyRequest r f).request q).joins = (g.request q).joins := by
  by_cases hq : q = r
  · subst hq
    by_cases hlt : q.index < g.requests.size
    · rw [request_modifyRequest_self _ _ hlt, hf]
    · rw [request_of_size_le (Nat.not_lt.1 hlt), request_of_size_le]
      rw [size_requests_modifyRequest]
      exact Nat.not_lt.1 hlt
  · rw [request_modifyRequest_of_ne _ _ hq]

/-- A new outermost request without a base. -/
lemma anchored_new (hg : ∀ q, ∀ j ∈ (g.request q).joins, j.source.index < g.aliases.size) :
    (g.addRequest none).2.Anchored ⟨⟨g.requests.size⟩, none, none⟩ := by
  refine ⟨by simp, ?_, ?_, ?_, by simp, fun q j hj => ⟨by simp, ?_⟩⟩
  · rw [request_addRequest_self]
  · rw [request_addRequest_self]
  · rw [request_addRequest_self]
  · rw [request_addRequest] at hj
    split at hj
    · cases hj
    · exact hg q j hj

namespace Anchored

/-- An outermost request gets a base. -/
lemma setBase {o : RequestId} {k k' : Option TypeRef} (hg : g.Anchored ⟨o, none, k⟩) {a : AliasId}
    (ha : a.index < g.aliases.size) (hnew : ∀ q, ∀ j ∈ (g.request q).joins, j.source ≠ a)
    {f : Request → Request} (hjoins : ∀ q, (f q).joins = q.joins)
    (hparent : ∀ q, (f q).parent = q.parent) (hbase : ∀ q, (f q).base = some a)
    (hprojection : (f (g.request o)).projection = k') :
    (g.modifyRequest o f).Anchored ⟨o, some a, k'⟩ := by
  have hself : (g.modifyRequest o f).request o = f (g.request o) :=
    request_modifyRequest_self _ _ hg.inside
  refine ⟨?_, ?_, ?_, ?_, fun b hb => ?_, fun q j hj => ?_⟩
  · rw [size_requests_modifyRequest]
    exact hg.inside
  · rw [hself]
    exact hbase _
  · rw [hself, hparent]
    exact hg.parent
  · rw [hself]
    exact hprojection
  · cases hb
    exact ha
  · rw [joins_modifyRequest g o hjoins] at hj
    exact ⟨fun hsome => hnew q j hj (Option.some.inj hsome).symm, (hg.apart q j hj).2⟩

/-- A request shows another type. -/
lemma project (hg : g.Anchored A) (r : RequestId) (type : TypeRef) {f : Request → Request}
    (hf : ∀ q, (f q).joins = q.joins ∧ (f q).base = q.base ∧ (f q).parent = q.parent ∧
      (f q).projection = some type) : (g.modifyRequest r f).Anchored (A.showing r type) := by
  unfold Anchor.showing
  split
  · next hr =>
    have hself : (g.modifyRequest r f).request A.request = f (g.request A.request) := by
      rw [hr, request_modifyRequest_self _ _ hg.inside]
    obtain ⟨-, hbase, hparent, hprojection⟩ := hf (g.request A.request)
    refine ⟨?_, ?_, ?_, ?_, hg.room, fun q j hj => ?_⟩
    · rw [size_requests_modifyRequest]
      exact hg.inside
    · rw [hself, hbase]
      exact hg.base
    · rw [hself, hparent]
      exact hg.parent
    · rw [hself]
      exact hprojection
    · rw [joins_modifyRequest g r fun q => (hf q).1] at hj
      exact hg.apart q j hj
  · next hr => exact hg.other hr fun q => (hf q).1

/-- A request becomes part of a new one without a base. -/
lemma enclose (hg : g.Anchored A) (r : RequestId) {parent : Option RequestId}
    (hparent : r = A.request → parent = none) {f : Request → Request}
    (hf : ∀ q, (f q).joins = q.joins) :
    ((g.addRequest parent).2.modifyRequest r f).Anchored (A.around r ⟨g.requests.size⟩ none) := by
  unfold Anchor.around
  split
  · next hr =>
    rw [hparent hr]
    have hold := anchored_new fun q j hj => (hg.apart q j hj).2
    exact hold.other (by rw [hr]; exact hg.ne_new.symm) hf
  · next hr => exact (hg.addRequest parent).other hr hf

/-- A request becomes a derived table of a new one. -/
lemma derive (hg : g.Anchored A) (r : RequestId) (d : Alias) {f : Request → Request}
    (hf : ∀ q, (f q).joins = q.joins) :
    ((((g.addRequest (g.request r).parent).2.addAlias d).2.modifyRequest r f).modifyRequest
      ⟨g.requests.size⟩ ({ · with base := some ⟨g.aliases.size⟩ })).Anchored
        (A.around r ⟨g.requests.size⟩ (some ⟨g.aliases.size⟩)) := by
  unfold Anchor.around
  split
  · next hr =>
    have hparent : (g.request r).parent = none := by
      rw [hr]
      exact hg.parent
    rw [hparent]
    have hnew := anchored_new fun q j hj => (hg.apart q j hj).2
    have hinner := (hnew.addAlias d).other (r := r) (by rw [hr]; exact hg.ne_new.symm) hf
    refine hinner.setBase (by simp) (fun q j hj hsource => ?_) (fun _ => rfl) (fun _ => rfl)
      (fun _ => rfl) hinner.projection
    rw [joins_modifyRequest _ r hf] at hj
    have hlt := (hnew.apart q j hj).2
    rw [hsource] at hlt
    exact lt_irrefl _ hlt
  · next hr => exact (((hg.addRequest _).addAlias d).other hr hf).other hg.ne_new fun _ => rfl

end Anchored

end Graph

/-! ### Copies -/

/-- A request is anchored in a graph with room for at least `n` aliases. -/
def Graph.AnchoredIn (A : Anchor) (n : Nat) (g : Graph) : Prop := g.Anchored A ∧ n ≤ g.aliases.size

/-- No alias has become the base, and every alias has become one of the first `n`. -/
def Renames.Avoids (A : Anchor) (n : Nat) (ren : Renames) : Prop :=
  ∀ a b, ren.alias? a = some b → A.base ≠ some b ∧ b.index < n

namespace Graph.Anchored

open Copy

variable {A : Anchor} {n : Nat} {g h : Graph} {ren : Renames}

/-- Copies out of a graph leave the anchored request alone. -/
def Spares (A : Anchor) (g : Graph) {ι κ : Type} (copy : ι → Renames → Copy κ) : Prop :=
  ∀ i ren n h, g.aliases.size ≤ n → h.AnchoredIn A n → ren.Avoids A n →
    After (copy i ren) h fun _ k => k.AnchoredIn A n

section Parts

variable {part : NodeId → Renames → Copy NodeId} {query : RequestId → Renames → Copy RequestId}
  (hn : g.aliases.size ≤ n)

lemma after_add (hh : h.AnchoredIn A n) (x : Node) :
    After (liftM (Build.add x) : Copy NodeId) h fun _ k => k.AnchoredIn A n := by
  refine after_lift ⟨hh.1.add x, hh.2.trans ?_⟩
  change h.aliases.size ≤ (h.add x).2.aliases.size
  rw [aliases_add]

include hn

lemma after_mapM (hpart : Spares A g part) (hren : ren.Avoids A n) (vs : List NodeId)
    (hh : h.AnchoredIn A n) : After (vs.mapM (part · ren)) h fun _ k => k.AnchoredIn A n := by
  induction vs generalizing h with
  | nil => exact after_pure hh
  | cons v vs ih =>
    rw [List.mapM_cons]
    refine (hpart v ren n h hn hh hren).bind fun m k hk => ?_
    exact (ih hk).bind fun ms l hl => after_pure hl

lemma spares_copyNode (hpart : Spares A g part) (hquery : Spares A g query) (x : Node)
    (hh : h.AnchoredIn A n) (hren : ren.Avoids A n) :
    After (Swap.copyNode {} part query x ren) h fun _ k => k.AnchoredIn A n := by
  cases x with
  | column a c => exact after_add hh _
  | row a => exact after_add hh _
  | const v => exact after_add hh _
  | unary op operand =>
    cases operand with
    | none => exact after_add hh _
    | some e => exact (hpart e ren n h hn hh hren).bind fun m k hk => after_add hk _
  | binary op l r =>
    refine (hpart l ren n h hn hh hren).bind fun m k hk => ?_
    exact (hpart r ren n k hn hk hren).bind fun m' k' hk' => after_add hk' _
  | isIn e vs =>
    refine (hpart e ren n h hn hh hren).bind fun m k hk => ?_
    exact (after_mapM hn hpart hren vs hk).bind fun ms k' hk' => after_add hk' _
  | cond t y z =>
    refine (hpart t ren n h hn hh hren).bind fun t' k hk => ?_
    refine (hpart y ren n k hn hk hren).bind fun y' k' hk' => ?_
    exact (hpart z ren n k' hn hk' hren).bind fun z' l hl => after_add hl _
  | sub r => exact (hquery r ren n h hn hh hren).bind fun q k hk => after_add hk _

/-- A source that is copied becomes a new alias. -/
lemma after_copySource (hquery : Spares A g query) (a : AliasId) (hh : h.AnchoredIn A n)
    (hren : ren.Avoids A n) :
    After (Swap.copySource {} g query ren a) h fun ren' k =>
      ∃ n', n ≤ n' ∧ k.AnchoredIn A n' ∧ ren'.Avoids A n' := by
  have hrename : ∀ (d : Alias) k, k.AnchoredIn A n → After (do
      let fresh ← (liftM (Build.addAlias d) : Copy AliasId)
      return { ren with aliases := (a, fresh) :: ren.aliases }) k fun ren' l =>
        ∃ n', n ≤ n' ∧ l.AnchoredIn A n' ∧ ren'.Avoids A n' := by
    intro d k ⟨hk, hn⟩
    refine (after_addAlias d).bind ?_
    rintro b l ⟨rfl, rfl⟩
    refine after_pure ⟨k.aliases.size + 1, Nat.le_succ_of_le hn, ⟨hk.addAlias d, by simp⟩,
      fun c b hb => ?_⟩
    rw [alias?_cons] at hb
    split at hb
    · cases hb
      exact ⟨hk.base_ne_new le_rfl, Nat.lt_succ_self _⟩
    · exact ⟨(hren c b hb).1, by have := (hren c b hb).2; omega⟩
  unfold Swap.copySource
  cases horigin : (g.aliasOf a).origin with
  | table name =>
    simp only [horigin, pure_bind]
    exact hrename _ h hh
  | request r =>
    simp only [horigin, map_eq_pure_bind, bind_assoc, pure_bind]
    exact (hquery r ren n h hn hh hren).bind fun q k hk => hrename _ k hk

lemma after_copySources (hquery : Spares A g query) (as : List AliasId) (hh : h.AnchoredIn A n)
    (hren : ren.Avoids A n) :
    After (as.foldlM (Swap.copySource {} g query) ren) h fun ren' k =>
      ∃ n', n ≤ n' ∧ k.AnchoredIn A n' ∧ ren'.Avoids A n' := by
  induction as generalizing h ren n with
  | nil => exact after_pure ⟨n, le_rfl, hh, hren⟩
  | cons a as ih =>
    rw [List.foldlM_cons]
    refine (after_copySource hn hquery a hh hren).bind fun ren' k ⟨n', hn', hk, hren'⟩ => ?_
    refine (ih (hn.trans hn') hk hren').mono fun ren'' l ⟨n'', hn'', hl⟩ => ⟨n'', hn'.trans hn'', hl⟩

omit hn in
/-- The source of a join stays, or becomes a new alias. -/
lemma refer_apart (hren : ren.Avoids A n) {a : AliasId} (ha : A.base ≠ some a ∧ a.index < n) :
    A.base ≠ some (Swap.refer {} ren a) ∧ (Swap.refer {} ren a).index < n := by
  cases hb : ren.alias? a with
  | some b =>
    have hrefer : Swap.refer {} ren a = b := by simp [Swap.refer, hb]
    rw [hrefer]
    exact hren a b hb
  | none =>
    have hrefer : Swap.refer {} ren a = a := by simp [Swap.refer, hb]
    rw [hrefer]
    exact ha

/-- A request is copied into a new one. -/
lemma spares_copyRequest (hg : g.Anchored A) (hpart : Spares A g part)
    (hquery : Spares A g query) (r : RequestId) (hh : h.AnchoredIn A n) (hren : ren.Avoids A n) :
    After (Swap.copyRequest {} g part query r ren) h fun _ k => k.AnchoredIn A n := by
  unfold Swap.copyRequest
  refine (after_addRequest _).bind ?_
  generalize (g.request r).parent.map ren.request = parent
  rintro q k ⟨rfl, rfl⟩
  have hnew := hh.1.ne_new
  generalize (⟨h.requests.size⟩ : RequestId) = q at hnew
  have hren' : Renames.Avoids A n { ren with requests := (r, q) :: ren.requests } := hren
  refine (after_copySources hn hquery (g.request r).sources ⟨hh.1.addRequest parent, hh.2⟩ hren').bind
    fun ren' k ⟨n', hn', hk, hren'⟩ => ?_
  have hput : ∀ i (put : NodeId → Graph → Graph),
      (∀ m l, l.AnchoredIn A n' → (put m l).AnchoredIn A n') → ∀ l, l.AnchoredIn A n' →
      After (do let m ← part i ren'; modify (put m)) l fun _ l => l.AnchoredIn A n' :=
    fun i put hput l hl => (hpart i ren' n' l (hn.trans hn') hl hren').bind fun m l' hl' =>
      after_modify (hput m l' hl')
  refine (after_modify (Q := fun _ l => l.AnchoredIn A n')
    ⟨hk.1.other hnew (f := Swap.frame {} ren' (g.request r)) fun _ => rfl, hk.2⟩).bind
    fun _ l₁ hl₁ => ?_
  refine (after_forM _ (fun j hj => hput j.condition
    (fun m l => l.pushJoin q { j with source := Swap.refer {} ren' j.source, condition := m })
    fun m l hl => ⟨?_, hl.2⟩) hl₁).bind
    fun _ l₂ hl₂ => ?_
  · have hsource := hg.apart r j hj
    obtain ⟨hbase, hlt⟩ := refer_apart hren' ⟨hsource.1, (hsource.2.trans_le hn).trans_le hn'⟩
    exact hl.1.pushJoin q ⟨hbase, hlt.trans_le hl.2⟩
  refine (after_forM _ (fun i _ => hput i.node (fun m l => l.pushItem q { i with node := m })
    fun m l hl => ⟨?_, hl.2⟩) hl₂).bind fun _ l₃ hl₃ => ?_
  · exact hl.1.pushItem q _
  refine (after_forM_option _ (fun i _ => hput i _ fun m l hl => ⟨?_, ?_⟩) hl₃).bind
    fun _ l₄ hl₄ => ?_
  · exact hl.1.andFilter q m
  · exact hl.2.trans (by rw [aliases_andFilter])
  refine (after_forM_option _ (fun i _ => hput i _ fun m l hl => ⟨?_, ?_⟩) hl₄).bind
    fun _ l₅ hl₅ => ?_
  · exact hl.1.andHaving q m
  · exact hl.2.trans (by rw [aliases_andHaving])
  refine (after_forM _ (fun ⟨i, p⟩ _ => hput i (fun m l => l.pushGroup q m p)
    fun m l hl => ⟨hl.1.pushGroup q m p, hl.2⟩) hl₅).bind fun _ l₆ hl₆ => ?_
  refine (after_forM _ (fun o _ => hput o.node (fun m l => l.pushOrder q m o.ascending)
    fun m l hl => ⟨?_, hl.2⟩) hl₆).bind fun _ l₇ hl₇ => ?_
  · exact hl.1.pushOrder q m o.ascending
  refine (after_forM _ (fun a _ l hl => ?_) hl₇).bind fun _ l₈ hl₈ =>
    after_pure ⟨hl₈.1, hn'.trans hl₈.2⟩
  refine (hpart a.column ren' n' l (hn.trans hn') hl hren').bind fun m l' hl' => ?_
  exact hput a.value (fun i l => l.pushAssignment q ⟨m, i⟩)
    (fun i l hl => ⟨hl.1.pushAssignment q ⟨m, i⟩, hl.2⟩) l' hl'

end Parts

/-- Copies leave the anchored request alone, by induction on the depth of the reading. -/
theorem spares_read (hg : g.Anchored A) (fuel : Nat) (above : List RequestId) :
    Spares A g (g.readNodeWithin (Swap.copying {} g) fuel above) ∧
      Spares A g (g.readRequestWithin (Swap.copying {} g) fuel above) := by
  induction fuel generalizing above with
  | zero => exact ⟨fun _ _ _ _ _ _ _ => after_failure, fun _ _ _ _ _ _ _ => after_failure⟩
  | succ fuel ih =>
    constructor
    · intro i ren n h hn hh hren
      exact spares_copyNode hn (ih above).1 (ih above).2 (g.node i) hh hren
    · intro r ren n h hn hh hren
      rw [readRequestWithin]
      split
      · exact after_failure
      · exact spares_copyRequest hn hg (ih (r :: above)).1 (ih (r :: above)).2 r hh hren

lemma duplicate (hg : g.Anchored A) {i m : NodeId} (hrun : (Build.duplicate i).run g = (some m, h)) :
    h.Anchored A := by
  have hread := (spares_read hg g.height []).1 i {} g.aliases.size g le_rfl ⟨hg, le_rfl⟩ nofun
  exact (hread _ _ (Build.run_copy_eq_some.1 hrun)).1

end Graph.Anchored

end Sql

/-! ### Properties -/

namespace Fragment

variable {I : Graph → Prop} {walk : List PropertyRef → Resolve AliasId}

mutual
/-- Placing a fragment keeps what new nodes and the ways to its sources keep. -/
theorem keeps_place (hadd : ∀ g x, I g → I (g.add x).2)
    (hwalk : ∀ path g, I g → Ensures (walk path) g fun _ => I) :
    ∀ (f : Fragment) (g : Graph), I g → Ensures (f.place walk) g fun _ => I
  | .column path name, g, hg => by
    rw [place]
    exact (hwalk path g hg).bind fun a h hh => ensures_lift.2 (hadd h _ hh)
  | .row path, g, hg => by
    rw [place]
    exact (hwalk path g hg).bind fun a h hh => ensures_lift.2 (hadd h _ hh)
  | .const v, g, hg => by
    rw [place]
    exact ensures_lift.2 (hadd g _ hg)
  | .unary op none, g, hg => by
    rw [place]
    exact ensures_lift.2 (hadd g _ hg)
  | .unary op (some e), g, hg => by
    rw [place]
    exact (keeps_place hadd hwalk e g hg).bind fun m h hh => ensures_lift.2 (hadd h _ hh)
  | .binary op l r, g, hg => by
    rw [place]
    refine (keeps_place hadd hwalk l g hg).bind fun m h hh => ?_
    exact (keeps_place hadd hwalk r h hh).bind fun m' h' hh' => ensures_lift.2 (hadd h' _ hh')
  | .isIn e vs, g, hg => by
    rw [place]
    refine (keeps_place hadd hwalk e g hg).bind fun m h hh => ?_
    exact (keeps_placeAll hadd hwalk vs h hh).bind fun ms h' hh' => ensures_lift.2 (hadd h' _ hh')
  | .cond t y n, g, hg => by
    rw [place]
    refine (keeps_place hadd hwalk t g hg).bind fun t' h hh => ?_
    refine (keeps_place hadd hwalk y h hh).bind fun y' h' hh' => ?_
    exact (keeps_place hadd hwalk n h' hh').bind fun n' k hk => ensures_lift.2 (hadd k _ hk)

theorem keeps_placeAll (hadd : ∀ g x, I g → I (g.add x).2)
    (hwalk : ∀ path g, I g → Ensures (walk path) g fun _ => I) :
    ∀ (fs : List Fragment) (g : Graph), I g → Ensures (placeAll walk fs) g fun _ => I
  | [], g, hg => by
    rw [placeAll]
    exact ensures_pure.2 hg
  | f :: fs, g, hg => by
    rw [placeAll]
    refine (keeps_place hadd hwalk f g hg).bind fun m h hh => ?_
    exact (keeps_placeAll hadd hwalk fs h hh).bind fun ms k hk => ensures_pure.2 hk
end

end Fragment

namespace Mapping

open Graph

variable {m : Mapping} {A : Anchor} {g : Graph} {r : RequestId} {widen : Bool}

/-- What a property stands for is brought in by a join. -/
def Brings (A : Anchor) (x : Resolved) (h : Graph) : Prop :=
  h.Anchored A ∧ ∀ a, x = .row a → A.base ≠ some a

lemma brings_joinReference (hg : g.Anchored A) {owner : AliasId} {p : PropertyRef}
    {column target : String} :
    Ensures (m.joinReference r owner p column target widen) g fun a h =>
      h.Anchored A ∧ A.base ≠ some a := by
  intro a h hrun
  rcases runs_joinReference.1 hrun with ⟨hnavigated, rfl⟩ | ⟨-, table, key, -, -, rfl, rfl⟩
  · have hmem := List.mem_of_find?_eq_some hnavigated
    obtain ⟨j, hj, rfl⟩ := List.mem_map.1 hmem
    refine ⟨?_, (hg.apart r j hj).1⟩
    split
    · exact hg.widenJoin r _
    · exact hg
  · exact ⟨hg.joinNew _ r _ _ _ _ _, hg.base_ne_new le_rfl⟩

lemma brings_joinCollection (hg : g.Anchored A) {owner : AliasId} {p : PropertyRef}
    {column target : String} :
    Ensures (m.joinCollection r owner p column target widen) g fun a h =>
      h.Anchored A ∧ A.base ≠ some a := by
  intro a h hrun
  obtain ⟨table, targetKey, key, -, -, -, rfl, rfl⟩ := runs_joinCollection.1 hrun
  exact ⟨hg.joinNew _ r _ _ _ _ _, hg.base_ne_new le_rfl⟩

lemma brings_joinLinked (hg : g.Anchored A) {owner : AliasId} {p : PropertyRef}
    {target linkTable ownerColumn targetColumn : String} :
    Ensures (m.joinLinked r owner p target linkTable ownerColumn targetColumn widen) g fun a h =>
      h.Anchored A ∧ A.base ≠ some a := by
  intro a h hrun
  obtain ⟨table, targetKey, ownerKey, -, -, -, rfl, rfl⟩ := runs_joinLinked.1 hrun
  have hlink : (joinLink g r owner p linkTable ownerColumn ownerKey widen).Anchored A :=
    hg.joinNew _ r _ _ _ _ _
  have hsize : (joinLink g r owner p linkTable ownerColumn ownerKey widen).aliases.size =
      g.aliases.size + 1 := by simp [joinLink, Graph.joinEqual, Graph.pushJoin]
  generalize joinLink g r owner p linkTable ownerColumn ownerKey widen = k at hlink hsize ⊢
  rw [← hsize]
  exact ⟨hlink.joinNew _ r _ _ _ _ _, hlink.base_ne_new le_rfl⟩

lemma brings_locate (hg : g.Anchored A) (owner : AliasId) (p : PropertyRef) :
    Ensures (m.locate r owner p widen) g (Brings A) := by
  intro x h hrun
  obtain ⟨stored, -, hkind⟩ := runs_locate.1 hrun
  rcases stored with ⟨name, column, kind⟩
  cases kind with
  | scalar t nullable length =>
    obtain ⟨rfl, rfl⟩ := hkind
    exact ⟨hg.add _, by simp⟩
  | reference target =>
    obtain ⟨a, rfl, hjoin⟩ := hkind
    obtain ⟨hh, ha⟩ := brings_joinReference hg a h hjoin
    exact ⟨hh, fun b hb => by cases hb; exact ha⟩
  | collection target =>
    obtain ⟨a, rfl, hjoin⟩ := hkind
    obtain ⟨hh, ha⟩ := brings_joinCollection hg a h hjoin
    exact ⟨hh, fun b hb => by cases hb; exact ha⟩
  | manyToMany target link oc tc =>
    obtain ⟨a, rfl, hjoin⟩ := hkind
    obtain ⟨hh, ha⟩ := brings_joinLinked hg a h hjoin
    exact ⟨hh, fun b hb => by cases hb; exact ha⟩

lemma anchored_walk {resolve : AliasId → PropertyRef → Resolve Resolved}
    (hresolve : ∀ a p g, g.Anchored A → Ensures (resolve a p) g (Brings A))
    (path : List PropertyRef) (owner : AliasId) (g : Graph) (hg : g.Anchored A) :
    Ensures (walk resolve owner path) g fun _ h => h.Anchored A := by
  induction path generalizing owner g with
  | nil => exact ensures_pure.2 hg
  | cons p path ih =>
    refine (hresolve owner p g hg).bind fun x k hk => ?_
    cases x with
    | row a => exact ih a k hk.1
    | value n => exact ensures_throw

theorem brings_resolveWithin (fuel : Nat) (owner : AliasId) (p : PropertyRef) (g : Graph)
    (hg : g.Anchored A) : Ensures (m.resolveWithin r widen fuel owner p) g (Brings A) := by
  induction fuel generalizing owner p g with
  | zero =>
    rw [resolveWithin]
    cases m.equivalents.find? p with
    | none => exact brings_locate hg owner p
    | some f => exact ensures_throw
  | succ fuel ih =>
    rw [resolveWithin]
    cases m.equivalents.find? p with
    | none => exact brings_locate hg owner p
    | some f =>
      refine ensures_map.2 ((f.keeps_place (fun g x hg => hg.add x) (fun path g hg => ?_) g hg).mono
        fun n h hh => ⟨hh, by simp⟩)
      exact anchored_walk ih path owner g hg

lemma brings_resolve (owner : AliasId) (p : PropertyRef) (hg : g.Anchored A) :
    Ensures (m.resolve r owner p widen) g (Brings A) := brings_resolveWithin _ owner p g hg

end Mapping

end EntityQuery
