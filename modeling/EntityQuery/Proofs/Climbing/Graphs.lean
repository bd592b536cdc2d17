import EntityQuery.Proofs.Nesting.Copies
import EntityQuery.Proofs.Ownership.Graphs
import Mathlib.Data.Fintype.Card
import Mathlib.Logic.Relation

/-!
Links upwards in a graph that is built step by step.

* `Step`: what a single change of a graph can be. Only `enclose` gives a request that is there a new
  parent; the new parent itself stands where the request stood, or at the outside.
* `Ascends`: links of nodes lead to later nodes, of which the node is a child, and links of requests
  do not run in a circle. Every step keeps this.
* Links of requests cannot be ordered by age, since a request may get a younger parent. What bounds a
  walk is the number of requests around the one it has come to.
* `NodeWalk` and `RequestWalk`: walks along the links, as far as they go. On a graph that ascends
  every walk ends, with what the functions that count their steps give.
* Every clause is filled by steps that give no request another parent.
* Copying opens new requests only. The parent of a copied request is the parent of the original or
  the copy of it, and both are there.
* `Operation`: what can be done with a graph from outside. Whatever is done one after the other, a
  graph that began empty ascends.
-/

namespace EntityQuery.Sql.Graph

open Relation

variable {g h : Graph} {r q : RequestId}

/-! ### Steps -/

/-- A single change of a graph. -/
inductive Step : Graph → Graph → Prop
  | add (g : Graph) (x : Node) : Step g (g.add x).2
  | attach (g : Graph) (r : RequestId) (n : NodeId) : Step g (g.attach r n)
  | addAlias (g : Graph) (d : Alias) : Step g (g.addAlias d).2
  | modifyAlias (g : Graph) (a : AliasId) (f : Alias → Alias) : Step g (g.modifyAlias a f)
  | addRequest (g : Graph) (parent : Option RequestId)
      (inside : ∀ q, parent = some q → q.index < g.requests.size) : Step g (g.addRequest parent).2
  | modifyRequest (g : Graph) (r : RequestId) (f : Request → Request)
      (keeps : ∀ q, (f q).parent = q.parent) : Step g (g.modifyRequest r f)
  /-- A request gets a parent that stands where it stood itself, or at the outside. -/
  | enclose (g : Graph) (r outer : RequestId) (f : Request → Request)
      (gives : ∀ q, (f q).parent = some outer) (ne : outer ≠ r) (inner : r.index < g.requests.size)
      (inside : outer.index < g.requests.size)
      (between : ∀ q, (g.request outer).parent = some q → (g.request r).parent = some q) :
      Step g (g.modifyRequest r f)

/-- Changes of a graph one after the other. -/
abbrev Steps : Graph → Graph → Prop := ReflTransGen Step

lemma Step.size_le (h' : Step g h) : g.requests.size ≤ h.requests.size := by
  cases h' with
  | addAlias | modifyAlias | attach => exact le_rfl
  | _ => simp

lemma Steps.size_le (h' : Steps g h) : g.requests.size ≤ h.requests.size := by
  induction h' with
  | refl => exact le_rfl
  | tail _ hlast ih => exact ih.trans hlast.size_le

/-! ### Graphs that ascend -/

/-- The request `q` is the parent of the request `r`. -/
def StandsIn (g : Graph) (r q : RequestId) : Prop := (g.request r).parent = some q

/-- Links of nodes lead to later nodes, which the node is a child of; links of requests stay in the
graph and do not run in a circle. -/
structure Ascends (g : Graph) : Prop where
  nodes : ∀ n p, g.parent? n = some (.node p) → n.index < p.index ∧ n ∈ (g.node p).children
  inside : ∀ r q, g.StandsIn r q → q.index < g.requests.size
  acyclic : ∀ r, ¬ TransGen g.StandsIn r r

lemma ascends_empty : ({} : Graph).Ascends := by
  have hparent (r : RequestId) : (({} : Graph).request r).parent = none := by simp [request]
  refine ⟨fun n p h => ?_, fun r q h => ?_, fun r h => ?_⟩
  · rw [parent?_of_size_le (Nat.zero_le _)] at h
    cases h
  · rw [StandsIn, hparent] at h
    cases h
  · obtain ⟨q, hq, -⟩ := TransGen.head'_iff.1 h
    rw [StandsIn, hparent] at hq
    cases hq

/-- Changes that concern no link of a request. -/
lemma Ascends.of_standsIn (hg : g.Ascends) (hsize : g.requests.size ≤ h.requests.size)
    (hstands : h.StandsIn = g.StandsIn)
    (hnodes : ∀ n p, h.parent? n = some (.node p) → n.index < p.index ∧ n ∈ (h.node p).children) :
    h.Ascends where
  nodes := hnodes
  inside r q hq := (hg.inside r q (hstands ▸ hq)).trans_le hsize
  acyclic := by
    rw [hstands]
    exact hg.acyclic

lemma standsIn_of_requests (hrequests : h.requests = g.requests) : h.StandsIn = g.StandsIn := by
  funext r q
  rw [StandsIn, StandsIn, request, request, hrequests]

/-- Changes of requests and aliases concern no link of a node. -/
lemma Ascends.nodes_of_entries (hg : g.Ascends) (hentries : h.entries = g.entries) (n p : NodeId)
    (hp : h.parent? n = some (.node p)) : n.index < p.index ∧ n ∈ (h.node p).children := by
  rw [parent?, entry, hentries] at hp
  rw [node, entry, hentries]
  exact hg.nodes n p hp

lemma Ascends.add (hg : g.Ascends) (x : Node) : (g.add x).2.Ascends := by
  refine hg.of_standsIn (by simp) (standsIn_of_requests (by simp)) fun n p hp => ?_
  rw [parent?_add] at hp
  split at hp
  · next hn =>
    obtain rfl : ⟨g.entries.size⟩ = p := by simpa using hp
    exact ⟨hn.2, by simpa using hn.1⟩
  · obtain ⟨hlt, hmem⟩ := hg.nodes n p hp
    -- a node of children is no node outside the graph
    have hinside : p.index < g.entries.size := by
      by_contra hout
      rw [node, entry, Array.getD_eq_getD_getElem?, Array.getElem?_eq_none (not_lt.1 hout)] at hmem
      cases hmem
    exact ⟨hlt, by rwa [node_add_of_lt g x hinside]⟩

lemma Ascends.attach (hg : g.Ascends) (r : RequestId) (n : NodeId) : (g.attach r n).Ascends := by
  refine hg.of_standsIn le_rfl rfl fun m p hp => ?_
  rw [Graph.attach, parent?_setParent] at hp
  rw [node_attach]
  split at hp
  · cases hp
  · exact hg.nodes m p hp

lemma Ascends.addRequest (hg : g.Ascends) {parent : Option RequestId}
    (hparent : ∀ q, parent = some q → q.index < g.requests.size) :
    (g.addRequest parent).2.Ascends := by
  have hinside : ∀ r q, (g.addRequest parent).2.StandsIn r q → q.index < g.requests.size := by
    intro r q hq
    rw [StandsIn, request_addRequest] at hq
    split at hq
    · exact hparent q hq
    · exact hg.inside r q hq
  -- no link leads to the new request, so that a circle would be one of requests before it
  have hold : ∀ a b, TransGen (g.addRequest parent).2.StandsIn a b → a.index < g.requests.size →
      TransGen g.StandsIn a b := by
    intro a b hab
    have hlink : ∀ {a b}, (g.addRequest parent).2.StandsIn a b → a.index < g.requests.size →
        g.StandsIn a b := fun hab ha => by rwa [StandsIn, request_addRequest_of_lt g parent ha] at hab
    induction hab using TransGen.head_induction_on with
    | single hab => exact fun ha => .single (hlink hab ha)
    | head hac _ ih => exact fun ha => .head (hlink hac ha) (ih (hinside _ _ hac))
  refine ⟨hg.nodes_of_entries rfl, fun r q hq => ?_, fun r hr => ?_⟩
  · exact (hinside r q hq).trans_le (by simp)
  · obtain ⟨q, -, hq⟩ := TransGen.tail'_iff.1 hr
    exact hg.acyclic r (hold r r hr (hinside q r hq))

section Enclose

variable {outer : RequestId} {f : Request → Request}

lemma standsIn_modifyRequest (hf : ∀ q, (f q).parent = some outer) (hr : r.index < g.requests.size)
    (a b : RequestId) : (g.modifyRequest r f).StandsIn a b ↔ if a = r then b = outer else g.StandsIn a b := by
  split
  · next ha => rw [ha, StandsIn, request_modifyRequest_self g f hr, hf, Option.some.injEq, eq_comm]
  · next ha => rw [StandsIn, request_modifyRequest_of_ne g f ha, StandsIn]

/-- A way to `r` takes no new link until it is there. -/
lemma reflTransGen_of_modifyRequest (hf : ∀ q, (f q).parent = some outer)
    (hr : r.index < g.requests.size) {a : RequestId}
    (ha : ReflTransGen (g.modifyRequest r f).StandsIn a r) : ReflTransGen g.StandsIn a r := by
  induction ha using ReflTransGen.head_induction_on with
  | refl => exact .refl
  | @head a c hac _ ih =>
    rw [standsIn_modifyRequest hf hr] at hac
    split at hac
    · next ha => rw [ha]
    · exact .head hac ih

/-- A way goes along old links, or over the new one. -/
lemma transGen_modifyRequest (hf : ∀ q, (f q).parent = some outer) (hr : r.index < g.requests.size)
    {a b : RequestId} (hab : TransGen (g.modifyRequest r f).StandsIn a b) :
    TransGen g.StandsIn a b ∨ ReflTransGen (g.modifyRequest r f).StandsIn a r ∧
      ReflTransGen (g.modifyRequest r f).StandsIn outer b := by
  induction hab using TransGen.head_induction_on with
  | @single a hab =>
    have hlink := hab
    rw [standsIn_modifyRequest hf hr] at hlink
    split at hlink
    · next ha => exact .inr ⟨by rw [ha], by rw [hlink]⟩
    · exact .inl (.single hlink)
  | @head a c hac hcb ih =>
    have hlink := hac
    rw [standsIn_modifyRequest hf hr] at hlink
    split at hlink
    · next ha => exact .inr ⟨by rw [ha], hlink ▸ hcb.to_reflTransGen⟩
    · rcases ih with ih | ⟨hcr, hob⟩
      · exact .inl (.head hlink ih)
      · exact .inr ⟨.head hac hcr, hob⟩

lemma Ascends.enclose (hg : g.Ascends) (hf : ∀ q, (f q).parent = some outer) (hne : outer ≠ r)
    (hr : r.index < g.requests.size) (hinside : outer.index < g.requests.size)
    (hbetween : ∀ q, (g.request outer).parent = some q → (g.request r).parent = some q) :
    (g.modifyRequest r f).Ascends := by
  -- a way from the new parent to the request would go on as the links of the request did
  have hway : ¬ ReflTransGen (g.modifyRequest r f).StandsIn outer r := by
    intro hor
    rcases ReflTransGen.cases_head hor with heq | ⟨q, hoq, hqr⟩
    · exact hne heq
    · rw [standsIn_modifyRequest hf hr, if_neg hne] at hoq
      exact hg.acyclic r (.head' (hbetween q hoq) (reflTransGen_of_modifyRequest hf hr hqr))
  refine ⟨hg.nodes_of_entries rfl, fun a b hab => ?_, fun a ha => ?_⟩
  · rw [size_requests_modifyRequest]
    rw [standsIn_modifyRequest hf hr] at hab
    split at hab
    · rwa [hab]
    · exact hg.inside a b hab
  · rcases transGen_modifyRequest hf hr ha with ha | ⟨har, hoa⟩
    · exact hg.acyclic a ha
    · exact hway (hoa.trans har)

end Enclose

lemma Step.ascends (h' : Step g h) (hg : g.Ascends) : h.Ascends := by
  cases h' with
  | add x => exact hg.add x
  | attach r n => exact hg.attach r n
  | addAlias d => exact hg.of_standsIn le_rfl rfl (hg.nodes_of_entries rfl)
  | modifyAlias a f => exact hg.of_standsIn le_rfl rfl (hg.nodes_of_entries rfl)
  | addRequest parent hparent => exact hg.addRequest hparent
  | modifyRequest r f hf =>
    refine hg.of_standsIn (by simp) ?_ (hg.nodes_of_entries rfl)
    have hparent (a : RequestId) : ((g.modifyRequest r f).request a).parent = (g.request a).parent := by
      by_cases ha : a = r
      · subst ha
        by_cases hlt : a.index < g.requests.size
        · rw [request_modifyRequest_self g f hlt, hf]
        · have hnone : g.requests[a.index]? = none := Array.getElem?_eq_none (not_lt.1 hlt)
          simp [request, Array.getD_eq_getD_getElem?, Array.getElem?_modify, Graph.modifyRequest, hnone]
      · rw [request_modifyRequest_of_ne g f ha]
    funext a b
    rw [StandsIn, StandsIn, hparent]
  | enclose r outer f hf hne hr hinside hbetween => exact hg.enclose hf hne hr hinside hbetween

theorem Steps.ascends (h' : Steps g h) (hg : g.Ascends) : h.Ascends := by
  induction h' with
  | refl => exact hg
  | tail _ hlast ih => exact hlast.ascends ih

/-! ### Walks -/

/-- The walk from a node along its links, up to a request or to a node that is part of nothing. -/
inductive NodeWalk (g : Graph) : NodeId → Option RequestId → Prop
  | loose {n : NodeId} (h : g.parent? n = none) : NodeWalk g n none
  | up {n p : NodeId} {o : Option RequestId} (h : g.parent? n = some (.node p))
      (rest : NodeWalk g p o) : NodeWalk g n o
  | arrived {n : NodeId} {r : RequestId} (h : g.parent? n = some (.request r)) : NodeWalk g n (some r)

/-- The walk from a request outwards, up to the first one with a property. -/
inductive RequestWalk (g : Graph) (p : RequestId → Bool) : RequestId → Option RequestId → Prop
  | found {r : RequestId} (h : p r = true) : RequestWalk g p r (some r)
  | out {r q : RequestId} {o : Option RequestId} (hp : p r = false)
      (h : (g.request r).parent = some q) (rest : RequestWalk g p q o) : RequestWalk g p r o
  | lost {r : RequestId} (hp : p r = false) (h : (g.request r).parent = none) : RequestWalk g p r none

/-- A walk from a node passes later nodes only. -/
lemma Ascends.nodeWalk_ownerWithin (hg : g.Ascends) {fuel : Nat} {n : NodeId}
    (hfuel : g.entries.size ≤ fuel + n.index) : g.NodeWalk n (g.ownerWithin fuel n) := by
  induction fuel generalizing n with
  | zero => exact .loose (parent?_of_size_le (by omega))
  | succ fuel ih =>
    rw [ownerWithin]
    split
    · next h => exact .loose h
    · next p h =>
      have hlt := (hg.nodes n p h).1
      exact .up h (ih (by omega))
    · next r h => exact .arrived h

lemma Ascends.nodeWalk_owner? (hg : g.Ascends) (n : NodeId) : g.NodeWalk n (g.owner? n) :=
  hg.nodeWalk_ownerWithin (Nat.le_add_right _ _)

open Classical in
/-- The requests around a request, by their places in the graph. -/
noncomputable def around (g : Graph) (r : RequestId) : Finset (Fin g.requests.size) :=
  Finset.univ.filter fun i => TransGen g.StandsIn r ⟨i⟩

lemma mem_around {i : Fin g.requests.size} : i ∈ g.around r ↔ TransGen g.StandsIn r ⟨i⟩ := by
  simp [around]

/-- One request less is around the parent of a request. -/
lemma Ascends.card_around_lt (hg : g.Ascends) (h : g.StandsIn r q) :
    (g.around q).card < (g.around r).card := by
  have hq := hg.inside r q h
  refine Finset.card_lt_card ⟨fun i hi => mem_around.2 (.head h (mem_around.1 hi)), fun hsub => ?_⟩
  exact hg.acyclic q (mem_around.1 (hsub (mem_around.2 (.single h : TransGen g.StandsIn r ⟨(⟨_, hq⟩ :
    Fin g.requests.size)⟩))))

lemma Ascends.requestWalk_enclosingWithin (hg : g.Ascends) {p : RequestId → Bool} {fuel : Nat}
    (hfuel : (g.around r).card < fuel) : g.RequestWalk p r (g.enclosingWithin p fuel r) := by
  induction fuel generalizing r with
  | zero => exact absurd hfuel (Nat.not_lt_zero _)
  | succ fuel ih =>
    rw [enclosingWithin]
    split
    · next hp => exact .found hp
    · next hp =>
      have hp' := eq_false_of_ne_true hp
      split
      · next q hq => exact .out hp' hq (ih (by have := hg.card_around_lt hq; omega))
      · next hq => exact .lost hp' hq

lemma Ascends.requestWalk_enclosing? (hg : g.Ascends) (p : RequestId → Bool) (r : RequestId) :
    g.RequestWalk p r (g.enclosing? p r) := by
  have hcard := Finset.card_le_univ (g.around r)
  rw [Fintype.card_fin] at hcard
  exact hg.requestWalk_enclosingWithin (Nat.lt_succ_of_le hcard)

/-- The outermost request is found from everywhere. -/
lemma Ascends.requestWalk_outermost (hg : g.Ascends) (r : RequestId) :
    g.RequestWalk (fun q => (g.request q).parent.isNone) r (some (g.outermost r)) := by
  have hwalk := hg.requestWalk_enclosing? (fun q => (g.request q).parent.isNone) r
  have hfound : ∀ r o, g.RequestWalk (fun q => (g.request q).parent.isNone) r o → o.isSome := by
    intro r o ho
    induction ho with
    | found _ => rfl
    | out _ _ _ ih => exact ih
    | lost hp h => simp [h] at hp
  obtain ⟨q, hq⟩ := Option.isSome_iff_exists.1 (hfound _ _ hwalk)
  rw [outermost, hq, Option.getD_some, ← hq]
  exact hwalk

end EntityQuery.Sql.Graph

namespace EntityQuery.Sql

namespace Graph

variable {g h k : Graph} {r : RequestId} {n : NodeId}

/-! ### Clauses -/

/-- A node is attached and a request changed around it. -/
lemma steps_put (g : Graph) (r : RequestId) (n : NodeId) {f : Request → Request}
    (hf : ∀ q, (f q).parent = q.parent) : Steps g ((g.attach r n).modifyRequest r f) :=
  .tail (.single (.attach g r n)) (.modifyRequest _ r f hf)

lemma steps_modifyRequest (g : Graph) (r : RequestId) {f : Request → Request}
    (hf : ∀ q, (f q).parent = q.parent) : Steps g (g.modifyRequest r f) :=
  .single (.modifyRequest g r f hf)

lemma steps_add (g : Graph) (x : Node) : Steps g (g.add x).2 := .single (.add g x)

lemma steps_addAlias (g : Graph) (d : Alias) : Steps g (g.addAlias d).2 := .single (.addAlias g d)

lemma steps_bind (g : Graph) (a : AliasId) (p : ParamId) : Steps g (g.bind a p) :=
  .single (.modifyAlias g a _)

lemma steps_clearItems (g : Graph) (r : RequestId) : Steps g (g.clearItems r) :=
  steps_modifyRequest g r fun _ => rfl

lemma steps_pushItem (g : Graph) (r : RequestId) (i : Item) : Steps g (g.pushItem r i) :=
  steps_put g r i.node fun _ => rfl

lemma steps_pushGroup (g : Graph) (r : RequestId) (n : NodeId) (p : Option PropertyRef) :
    Steps g (g.pushGroup r n p) := steps_put g r n fun _ => rfl

lemma steps_pushOrder (g : Graph) (r : RequestId) (n : NodeId) (ascending : Bool) :
    Steps g (g.pushOrder r n ascending) := steps_put g r n fun _ => rfl

lemma steps_pushJoin (g : Graph) (r : RequestId) (j : Join) : Steps g (g.pushJoin r j) :=
  steps_put g r j.condition fun _ => rfl

lemma steps_pushAssignment (g : Graph) (r : RequestId) (s : Assignment) :
    Steps g (g.pushAssignment r s) :=
  .trans (.single (.attach g r s.column)) (steps_put _ r s.value fun _ => rfl)

lemma steps_conjoin (g : Graph) (old : Option NodeId) (n : NodeId) :
    Steps g (g.conjoin old n).2 := by
  cases old with
  | none => exact .refl
  | some m => exact steps_add g _

lemma steps_andFilter (g : Graph) (r : RequestId) (n : NodeId) : Steps g (g.andFilter r n) :=
  (steps_conjoin g _ n).trans (steps_put _ r _ fun _ => rfl)

lemma steps_andHaving (g : Graph) (r : RequestId) (n : NodeId) : Steps g (g.andHaving r n) :=
  (steps_conjoin g _ n).trans (steps_put _ r _ fun _ => rfl)

lemma steps_takeJoin (g : Graph) (r : RequestId) (a : AliasId) : Steps g (g.takeJoin r a).2 := by
  unfold takeJoin
  split
  · exact steps_modifyRequest g r fun _ => rfl
  · exact .refl

/-! ### Parts of copies -/

open Copy

/-- The requests that a copy has made are there. -/
def HasCopies (h : Graph) (ren : Renames) : Prop :=
  ∀ r q, ren.requests.lookup r = some q → q.index < h.requests.size

variable {ren : Renames} {s : Swap}

lemma HasCopies.mono (hren : h.HasCopies ren) (hhk : Steps h k) : k.HasCopies ren :=
  fun r q hrq => (hren r q hrq).trans_le hhk.size_le

lemma HasCopies.request (hren : h.HasCopies ren) (hr : r.index < h.requests.size) :
    (ren.request r).index < h.requests.size := by
  rw [Renames.request]
  cases hq : ren.requests.lookup r with
  | none => exact hr
  | some q => exact hren r q hq

/-- Copies of nodes are steps. -/
def StepsNodes (g : Graph) (part : NodeId → Renames → Copy NodeId) : Prop :=
  ∀ n ren h, Steps g h → h.HasCopies ren → After (part n ren) h fun _ k => Steps h k

/-- Copies of requests are steps, and the copies are there. -/
def StepsRequests (g : Graph) (query : RequestId → Renames → Copy RequestId) : Prop :=
  ∀ r ren h, Steps g h → h.HasCopies ren →
    After (query r ren) h fun q k => Steps h k ∧ q.index < k.requests.size

section Parts

variable {part : NodeId → Renames → Copy NodeId} {query : RequestId → Renames → Copy RequestId}

lemma after_steps_add (hhk : Steps h k) (x : Node) :
    After (liftM (Build.add x) : Copy NodeId) k fun _ l => Steps h l :=
  after_lift (hhk.tail (.add k x))

/-- A part is copied after other steps. -/
lemma StepsNodes.after (hpart : StepsNodes g part) (hgh : Steps g h) (hren : h.HasCopies ren)
    (hhk : Steps h k) (n : NodeId) : After (part n ren) k fun _ l => Steps h l :=
  (hpart n ren k (hgh.trans hhk) (hren.mono hhk)).mono fun _ _ hkl => hhk.trans hkl

lemma StepsNodes.mapM (hpart : StepsNodes g part) (hgh : Steps g h) (hren : h.HasCopies ren)
    (hhk : Steps h k) (vs : List NodeId) :
    After (vs.mapM (part · ren)) k fun _ l => Steps h l := by
  induction vs generalizing k with
  | nil => exact after_pure hhk
  | cons v vs ih =>
    rw [List.mapM_cons]
    refine (hpart.after hgh hren hhk v).bind fun m l hl => (ih hl).bind fun ms l' hl' => ?_
    exact after_pure hl'

lemma steps_copyNode (hpart : StepsNodes g part) (hquery : StepsRequests g query) (x : Node)
    (hgh : Steps g h) (hren : h.HasCopies ren) :
    After (s.copyNode part query x ren) h fun _ k => Steps h k := by
  have hpart' := fun (k : Graph) (hk : Steps h k) => hpart.after hgh hren hk
  cases x with
  | column a c => exact after_steps_add .refl _
  | row a => exact after_steps_add .refl _
  | const v => exact after_steps_add .refl _
  | unary op e =>
    cases e with
    | none => exact after_steps_add .refl _
    | some e => exact (hpart' h .refl e).bind fun _ k hk => after_steps_add hk _
  | binary op l r =>
    refine (hpart' h .refl l).bind fun _ k hk => (hpart' k hk r).bind fun _ k' hk' => ?_
    exact after_steps_add hk' _
  | isIn e vs =>
    refine (hpart' h .refl e).bind fun _ k hk => ?_
    exact (hpart.mapM hgh hren hk vs).bind fun _ k' hk' => after_steps_add hk' _
  | cond t y n =>
    refine (hpart' h .refl t).bind fun _ k hk => (hpart' k hk y).bind fun _ k' hk' => ?_
    exact (hpart' k' hk' n).bind fun _ k'' hk'' => after_steps_add hk'' _
  | sub r => exact (hquery r ren h hgh hren).bind fun _ k hk => after_steps_add hk.1 _

lemma steps_copySource (hquery : StepsRequests g query) (a : AliasId) (hgh : Steps g h)
    (hren : h.HasCopies ren) :
    After (s.copySource g query ren a) h fun ren' k => Steps h k ∧ k.HasCopies ren' := by
  have hfresh : ∀ origin k, Steps h k → After (do
      let fresh ← (liftM (Build.addAlias { g.aliasOf a with
        origin, route := s.route ren (g.aliasOf a).route }) : Copy AliasId)
      return { ren with aliases := (a, fresh) :: ren.aliases }) k fun ren' l =>
        Steps h l ∧ l.HasCopies ren' := by
    intro origin k hk
    refine After.bind (R := fun _ l => Steps h l) (after_lift (hk.tail (.addAlias k _))) fun b l hl => ?_
    exact after_pure ⟨hl, hren.mono hl⟩
  unfold Swap.copySource
  cases horigin : (g.aliasOf a).origin with
  | table name =>
    simp only [horigin, pure_bind]
    exact hfresh _ h .refl
  | request r =>
    simp only [horigin, map_eq_pure_bind, bind_assoc, pure_bind]
    exact (hquery r ren h hgh hren).bind fun q k hk => hfresh _ k hk.1

lemma steps_copySources (hquery : StepsRequests g query) (as : List AliasId) (hgh : Steps g h)
    (hren : h.HasCopies ren) :
    After (as.foldlM (s.copySource g query) ren) h fun ren' k => Steps h k ∧ k.HasCopies ren' := by
  induction as generalizing h ren with
  | nil => exact after_pure ⟨.refl, hren⟩
  | cons a as ih =>
    rw [List.foldlM_cons]
    refine (steps_copySource hquery a hgh hren).bind fun ren' k ⟨hk, hren'⟩ => ?_
    exact (ih (hgh.trans hk) hren').mono fun ren'' l ⟨hl, hren''⟩ => ⟨hk.trans hl, hren''⟩

/-- A value of a clause is copied, and the new request takes the copy. -/
lemma StepsNodes.put (hpart : StepsNodes g part) (hgh : Steps g h) (hren : h.HasCopies ren)
    (hhk : Steps h k) (n : NodeId) {put : NodeId → Graph → Graph}
    (hput : ∀ m l, Steps l (put m l)) :
    After (do let m ← part n ren; modify (put m)) k fun _ l => Steps h l :=
  (hpart.after hgh hren hhk n).bind fun m l hl => after_modify (hl.trans (hput m l))

lemma steps_copyRequest (hg : g.Ascends) (hpart : StepsNodes g part)
    (hquery : StepsRequests g query) (r : RequestId) (hgh : Steps g h) (hren : h.HasCopies ren) :
    After (s.copyRequest g part query r ren) h fun q k =>
      Steps h k ∧ q.index < k.requests.size := by
  have hadd : Steps h (h.addRequest ((g.request r).parent.map ren.request)).2 := by
    refine .single (.addRequest h _ fun q hq => ?_)
    obtain ⟨p, hp, rfl⟩ := Option.map_eq_some_iff.1 hq
    exact hren.request ((hg.inside r p hp).trans_le hgh.size_le)
  unfold Swap.copyRequest
  refine After.bind (R := fun q k => q = ⟨h.requests.size⟩ ∧
    k = (h.addRequest ((g.request r).parent.map ren.request)).2) (after_lift ⟨rfl, rfl⟩) ?_
  rintro q k₁ ⟨rfl, rfl⟩
  have hnew : h.requests.size <
      (h.addRequest ((g.request r).parent.map ren.request)).2.requests.size := by simp
  generalize (h.addRequest ((g.request r).parent.map ren.request)).2 = k₁ at *
  have hren₁ : k₁.HasCopies { ren with requests := (r, ⟨h.requests.size⟩) :: ren.requests } := by
    intro p q hpq
    rw [List.lookup_cons] at hpq
    split at hpq
    · obtain rfl := Option.some.inj hpq
      exact hnew
    · exact hren.mono hadd p q hpq
  refine (steps_copySources hquery (g.request r).sources (hgh.trans hadd) hren₁).bind
    fun ren' k₂ ⟨hk₂, hren₂⟩ => ?_
  have hgk₂ := (hgh.trans hadd).trans hk₂
  -- the new request keeps its parent, clause by clause
  have hput := fun (l : Graph) (hl : Steps k₂ l) (n : NodeId) {put : NodeId → Graph → Graph}
    (hkeeps : ∀ m l, Steps l (put m l)) => hpart.put hgk₂ hren₂ hl n hkeeps
  have hframe : Steps k₂ (k₂.modifyRequest ⟨h.requests.size⟩ (s.frame ren' (g.request r))) :=
    steps_modifyRequest k₂ _ fun _ => rfl
  refine (after_modify (Q := fun _ => Steps k₂) hframe).bind fun _ l₁ hl₁ => ?_
  refine (after_forM _ (fun j _ l hl => hput l hl j.condition fun m l' => steps_pushJoin ..) hl₁).bind
    fun _ l₂ hl₂ => ?_
  refine (after_forM _ (fun i _ l hl => hput l hl i.node fun m l' => steps_pushItem ..) hl₂).bind
    fun _ l₃ hl₃ => ?_
  refine (after_forM_option _ (fun n _ l hl => hput l hl n fun m l' => steps_andFilter ..) hl₃).bind
    fun _ l₄ hl₄ => ?_
  refine (after_forM_option _ (fun n _ l hl => hput l hl n fun m l' => steps_andHaving ..) hl₄).bind
    fun _ l₅ hl₅ => ?_
  refine (after_forM _ (fun key _ l hl => hput l hl key.1 fun m l' => steps_pushGroup ..) hl₅).bind
    fun _ l₆ hl₆ => ?_
  refine (after_forM _ (fun o _ l hl => hput l hl o.node fun m l' => steps_pushOrder ..) hl₆).bind
    fun _ l₇ hl₇ => ?_
  refine (after_forM _ (fun a _ l hl => ?_) hl₇).bind fun _ l₈ hl₈ => ?_
  · exact (hpart.after hgk₂ hren₂ hl a.column).bind fun m l' hl' =>
      hput l' hl' a.value fun m' l'' => steps_pushAssignment ..
  · have hall := (hadd.trans hk₂).trans hl₈
    exact after_pure ⟨hall, hnew.trans_le (Steps.size_le (hk₂.trans hl₈))⟩

end Parts

/-- Copies are steps, by induction on the depth of the reading. -/
lemma steps_read (hg : g.Ascends) (s : Swap) (fuel : Nat) (above : List RequestId) :
    StepsNodes g (g.readNodeWithin (s.copying g) fuel above) ∧
      StepsRequests g (g.readRequestWithin (s.copying g) fuel above) := by
  induction fuel generalizing above with
  | zero => exact ⟨fun _ _ _ _ _ => after_failure, fun _ _ _ _ _ => after_failure⟩
  | succ fuel ih =>
    constructor
    · intro n ren h hgh hren
      exact steps_copyNode (ih above).1 (ih above).2 _ hgh hren
    · intro r ren h hgh hren
      rw [readRequestWithin]
      split
      · exact after_failure
      · exact steps_copyRequest hg (ih _).1 (ih _).2 r hgh hren

theorem steps_copy (hg : g.Ascends) (s : Swap) (n : NodeId) :
    Steps g ((Build.copy s n).run g).2 := by
  cases hread : (g.readNode (s.copying g) n {}).run g with
  | none =>
    have hsame : (Build.copy s n).run g = (none, g) := by
      simp only [Build.copy, StateT.run_modifyGet, hread]
      rfl
    rw [hsame]
  | some p =>
    obtain ⟨m, h⟩ := p
    rw [Build.run_copy_eq_some.2 hread]
    exact (steps_read hg s g.height []).1 n {} g .refl (fun r q hrq => by cases hrq) m h hread

/-! ### Operations -/

/-- What can be done with a graph: parts are added and changed, clauses filled and values copied. A
request is opened under one that is there. -/
inductive Operation : Graph → Graph → Prop
  | add (g : Graph) (x : Node) : Operation g (g.add x).2
  | addAlias (g : Graph) (d : Alias) : Operation g (g.addAlias d).2
  | modifyAlias (g : Graph) (a : AliasId) (f : Alias → Alias) : Operation g (g.modifyAlias a f)
  | bind (g : Graph) (a : AliasId) (p : ParamId) : Operation g (g.bind a p)
  | addRequest (g : Graph) (parent : Option RequestId)
      (inside : ∀ q, parent = some q → q.index < g.requests.size) :
      Operation g (g.addRequest parent).2
  | modifyRequest (g : Graph) (r : RequestId) (f : Request → Request)
      (keeps : ∀ q, (f q).parent = q.parent) : Operation g (g.modifyRequest r f)
  | clearItems (g : Graph) (r : RequestId) : Operation g (g.clearItems r)
  | pushItem (g : Graph) (r : RequestId) (i : Item) : Operation g (g.pushItem r i)
  | andFilter (g : Graph) (r : RequestId) (n : NodeId) : Operation g (g.andFilter r n)
  | andHaving (g : Graph) (r : RequestId) (n : NodeId) : Operation g (g.andHaving r n)
  | pushGroup (g : Graph) (r : RequestId) (n : NodeId) (p : Option PropertyRef) :
      Operation g (g.pushGroup r n p)
  | pushOrder (g : Graph) (r : RequestId) (n : NodeId) (ascending : Bool) :
      Operation g (g.pushOrder r n ascending)
  | pushJoin (g : Graph) (r : RequestId) (j : Join) : Operation g (g.pushJoin r j)
  | takeJoin (g : Graph) (r : RequestId) (a : AliasId) : Operation g (g.takeJoin r a).2
  | pushAssignment (g : Graph) (r : RequestId) (s : Assignment) : Operation g (g.pushAssignment r s)
  /-- Duplicates, redirected values and all other copies. -/
  | copy (g : Graph) (s : Swap) (n : NodeId) : Operation g ((Build.copy s n).run g).2

lemma Operation.steps (h' : Operation g h) (hg : g.Ascends) : Steps g h := by
  cases h' with
  | add x => exact steps_add g x
  | addAlias d => exact steps_addAlias g d
  | modifyAlias a f => exact .single (.modifyAlias g a f)
  | bind a p => exact steps_bind g a p
  | addRequest parent hparent => exact .single (.addRequest g parent hparent)
  | modifyRequest r f hf => exact steps_modifyRequest g r hf
  | clearItems r => exact steps_clearItems g r
  | pushItem r i => exact steps_pushItem g r i
  | andFilter r n => exact steps_andFilter g r n
  | andHaving r n => exact steps_andHaving g r n
  | pushGroup r n p => exact steps_pushGroup g r n p
  | pushOrder r n ascending => exact steps_pushOrder g r n ascending
  | pushJoin r j => exact steps_pushJoin g r j
  | takeJoin r a => exact steps_takeJoin g r a
  | pushAssignment r s => exact steps_pushAssignment g r s
  | copy s n => exact steps_copy hg s n

lemma steps_of_operations (h' : Relation.ReflTransGen Operation {} g) : Steps {} g := by
  induction h' with
  | refl => exact .refl
  | tail _ hlast ih => exact ih.trans (hlast.steps (ih.ascends ascends_empty))

end Graph
end EntityQuery.Sql
