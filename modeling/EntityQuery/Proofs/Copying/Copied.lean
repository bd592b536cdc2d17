import EntityQuery.Proofs.Copying.Likeness
import EntityQuery.Proofs.Ownership.Copies

/-!
What a copy looks like.

* `Copied s g h first ren x y`: the part `y` of `h` is a copy of the part `x` of `g`. The aliases and
  requests around it that are copied as well stand in `ren`; new requests start at the number `first`.
* `Later first h k`: nothing in `h` is different in `k` but links of nodes that were part of nothing and
  requests before the number `first`. Copies stay copies.
* Copying a formed graph gives a formed graph, a copy, and leaves everything that was there.
-/

namespace EntityQuery.Sql

/-! ### Nodes with new children -/

namespace Swap

variable (s : Swap) (ren : Renames)

/-- A node with other children, which reads what a copy reads. -/
def refill : Node → List NodeId → Node
  | .column a c, _ => .column (s.read ren a) c
  | .row a, _ => .row (s.read ren a)
  | .const v, _ => .const (s.value v)
  | .unary op _, cs => .unary op cs.head?
  | .binary op l r, cs => .binary op (cs.getD 0 l) (cs.getD 1 r)
  | .isIn e _, cs => .isIn (cs.headD e) cs.tail
  | .cond t y n, cs => .cond (cs.getD 0 t) (cs.getD 1 y) (cs.getD 2 n)
  | .sub r, _ => .sub r

variable {s ren} {x : Node} {cs : List NodeId}

lemma like_refill (s : Swap) (ren : Renames) (hcs : cs.length = x.children.length) :
    x.Like (fun a b => s.read ren a = b) (fun v w => s.value v = w) (s.refill ren x cs) := by
  cases x with
  | column a c => exact .column (E := fun a b => s.read ren a = b) rfl c
  | row a => exact .row (E := fun a b => s.read ren a = b) rfl
  | const v => exact .const (V := fun v w => s.value v = w) rfl
  | unary op operand =>
    refine .unary op ?_
    cases operand <;> cases cs <;> simp_all [Node.children]
  | binary op l r => exact .binary op l r _ _
  | isIn e vs =>
    refine .isIn e _ ?_
    rw [List.length_tail, hcs]
    rfl
  | cond t y n => exact .cond t y n _ _ _
  | sub r => exact .sub r r

lemma children_refill (s : Swap) (ren : Renames) (hcs : cs.length = x.children.length) :
    (s.refill ren x cs).children = cs := by
  cases x with
  | unary op operand =>
    cases operand with
    | none =>
      rw [List.length_eq_zero_iff.1 hcs]
      rfl
    | some e =>
      obtain ⟨c, rfl⟩ := List.length_eq_one_iff.1 hcs
      rfl
  | binary op l r =>
    obtain ⟨a, b, rfl⟩ := List.length_eq_two.1 hcs
    rfl
  | isIn e vs =>
    cases cs with
    | nil => cases hcs
    | cons c cs => rfl
  | cond t y n =>
    obtain ⟨a, b, c, rfl⟩ := List.length_eq_three.1 hcs
    rfl
  | _ =>
    rw [List.length_eq_zero_iff.1 hcs]
    rfl

/-- Copying a node copies its children from left to right. -/
lemma copyNode_eq (part : NodeId → Renames → Copy NodeId) (query : RequestId → Renames → Copy RequestId)
    (hx : ∀ r, x ≠ .sub r) : s.copyNode part query x ren =
      x.children.mapM (part · ren) >>= fun cs => liftM (Build.add (s.refill ren x cs)) := by
  cases x with
  | unary op operand => cases operand <;> simp [copyNode, refill, Node.children]
  | sub r => exact absurd rfl (hx r)
  | _ => simp [copyNode, refill, Node.children]

end Swap

/-! ### Renames -/

/-- The renames inside a copied request: those around it, its own sources, and the request. -/
def Renames.own (ren : Renames) (r q : RequestId) (ps : List (AliasId × AliasId)) : Renames where
  aliases := ps.reverse ++ ren.aliases
  requests := (r, q) :: ren.requests

lemma Renames.own_snoc (ren : Renames) (r q : RequestId) (ps : List (AliasId × AliasId))
    (a b : AliasId) :
    ({ ren.own r q ps with aliases := (a, b) :: (ren.own r q ps).aliases } : Renames) =
      ren.own r q (ps ++ [(a, b)]) := by
  simp [own]

section Own

variable {s : Swap} {ren : Renames} {r q : RequestId} {ps : List (AliasId × AliasId)}

lemma alias?_own (ren : Renames) (r q : RequestId) (ps : List (AliasId × AliasId)) (a : AliasId) :
    (ren.own r q ps).alias? a = (ps.reverse.lookup a).or (ren.alias? a) := by
  rw [Renames.alias?, Renames.own, List.lookup_append]
  rfl

/-- An alias that is no copied source has the meaning that it has outside. -/
lemma alias?_own_of_not_mem {a : AliasId} (ha : a ∉ ps.map Prod.fst) :
    (ren.own r q ps).alias? a = ren.alias? a := by
  have hnone : ps.reverse.lookup a = none := by
    rw [List.lookup_eq_none_iff]
    intro p hp
    rw [bne_iff_ne]
    rintro rfl
    exact ha (List.mem_map_of_mem (List.mem_reverse.1 hp))
  rw [alias?_own, hnone, Option.none_or]

/-- A copied source gets one of the aliases that are made for it. -/
lemma exists_alias?_own (ren : Renames) (r q : RequestId) {a : AliasId} (ha : a ∈ ps.map Prod.fst) :
    ∃ b, (a, b) ∈ ps ∧ (ren.own r q ps).alias? a = some b := by
  have hsome : ps.reverse.lookup a ≠ none := by
    rw [Ne, List.lookup_eq_none_iff]
    intro hall
    obtain ⟨p, hp, rfl⟩ := List.mem_map.1 ha
    have hne := hall p (List.mem_reverse.2 hp)
    simp at hne
  obtain ⟨b, hb⟩ := Option.ne_none_iff_exists'.1 hsome
  refine ⟨b, ?_, ?_⟩
  · obtain ⟨l₁, l₂, hps, -⟩ := List.lookup_eq_some_iff.1 hb
    rw [← List.mem_reverse, hps]
    simp
  · rw [alias?_own, hb, Option.some_or]

lemma refer_own_mem (s : Swap) (ren : Renames) (r q : RequestId) {a : AliasId} (ha : a ∈ ps.map Prod.fst) :
    (a, s.refer (ren.own r q ps) a) ∈ ps := by
  obtain ⟨b, hab, hb⟩ := exists_alias?_own ren r q ha
  rw [Swap.refer, hb]
  exact hab

lemma refer_own_of_not_mem {a : AliasId} (ha : a ∉ ps.map Prod.fst) :
    s.refer (ren.own r q ps) a = s.refer ren a := by
  rw [Swap.refer, Swap.refer, alias?_own_of_not_mem ha]

/-- Different sources have different copies, so that each refers to its own. -/
lemma map_snd_of_refer (s : Swap) (ren : Renames) (r q : RequestId) (hps : (ps.map Prod.fst).Nodup)
    {bs : List AliasId}
    (h : List.Forall₂ (fun a b => s.refer (ren.own r q ps) a = b) (ps.map Prod.fst) bs) :
    ps.map Prod.snd = bs := by
  have hown : ∀ p ∈ ps, s.refer (ren.own r q ps) p.1 = p.2 := by
    intro p hp
    have hmem := refer_own_mem s ren r q (List.mem_map_of_mem hp)
    have hsame := List.inj_on_of_nodup_map hps hmem hp rfl
    exact congrArg Prod.snd hsame
  rw [List.forall₂_map_left_iff] at h
  have hsnd : List.Forall₂ (fun p b => p.2 = b) ps bs :=
    forall₂_mono h fun p hp b _ hb => (hown p hp).symm.trans hb
  rw [← List.forall₂_map_left_iff (f := Prod.snd), List.forall₂_eq_eq_eq] at hsnd
  exact hsnd

end Own

/-- The aliases that copied sources get are new, and different from each other. -/
structure Renames.Fresh (g h : Graph) (ren : Renames) (ps : List (AliasId × AliasId)) : Prop where
  new : ∀ p ∈ ps, g.aliases.size ≤ p.2.index
  inside : ∀ p ∈ ps, p.2.index < h.aliases.size
  apart : ∀ p ∈ ps, ∀ a, ren.alias? a ≠ some p.2
  nodup : (ps.map Prod.snd).Nodup

lemma Renames.Fresh.snoc {g h : Graph} {ren : Renames} {ps : List (AliasId × AliasId)}
    (hps : ren.Fresh g h ps) (a : AliasId) {b : AliasId} (hnew : g.aliases.size ≤ b.index)
    (hinside : b.index < h.aliases.size) (hapart : ∀ c, ren.alias? c ≠ some b)
    (hb : ∀ p ∈ ps, p.2 ≠ b) : ren.Fresh g h (ps ++ [(a, b)]) where
  new := List.forall_mem_append.2 ⟨hps.new, List.forall_mem_singleton.2 hnew⟩
  inside := List.forall_mem_append.2 ⟨hps.inside, List.forall_mem_singleton.2 hinside⟩
  apart := List.forall_mem_append.2 ⟨hps.apart, List.forall_mem_singleton.2 hapart⟩
  nodup := by
    rw [List.map_append]
    refine List.nodup_append'.2 ⟨hps.nodup, List.nodup_singleton _, ?_⟩
    rintro c hc hc'
    obtain ⟨p, hp, rfl⟩ := List.mem_map.1 hc
    exact hb p hp (List.mem_singleton.1 hc')

/-- Both ranges are one table, or both are requests. -/
inductive Origin.Like : Origin → Origin → Prop
  | table (name : String) : Like (.table name) (.table name)
  | request (r q : RequestId) : Like (.request r) (.request q)

lemma Origin.Like.symm {o p : Origin} (h : o.Like p) : p.Like o := by
  cases h with
  | table name => exact .table name
  | request r q => exact .request q r

lemma Origin.Like.trans {o p q : Origin} (hop : o.Like p) (hpq : p.Like q) : o.Like q := by
  cases hop with
  | table name => exact hpq
  | request r s =>
    cases hpq with
    | request s t => exact .request r t

lemma Origin.Like.exists_request {o p : Origin} (h : o.Like p) {r : RequestId} (ho : o = .request r) :
    ∃ q, p = .request q := by
  cases h with
  | table name => cases ho
  | request r q => exact ⟨q, rfl⟩

/-! ### Copies -/

/-- A part of `g` and its copy in `h`. -/
inductive Copied (s : Swap) (g h : Graph) : Nat → Renames → Part → Part → Prop
  | node {first : Nat} {ren : Renames} {n m : NodeId} (hsub : ∀ r, g.node n ≠ .sub r)
      (hm : m.index < h.entries.size)
      (hlike : (g.node n).Like (fun a b => s.read ren a = b) (fun v w => s.value v = w) (h.node m))
      (hlink : ∀ d ∈ (h.node m).children, h.parent? d = some (.node m))
      (hparts : ∀ c d, (c, d) ∈ (g.node n).children.zip (h.node m).children →
        Copied s g h first ren (.node c) (.node d)) :
      Copied s g h first ren (.node n) (.node m)
  | sub {first : Nat} {ren : Renames} {n m : NodeId} {r q : RequestId} (hn : g.node n = .sub r)
      (hm : m.index < h.entries.size) (hnode : h.node m = .sub q)
      (hpart : Copied s g h first ren (.request r) (.request q)) :
      Copied s g h first ren (.node n) (.node m)
  | request {first : Nat} {ren : Renames} {r q : RequestId} {ps : List (AliasId × AliasId)}
      (hfirst : first ≤ q.index) (hq : q.index < h.requests.size)
      (hsources : ps.map Prod.fst = (g.request r).sources) (hfresh : ren.Fresh g h ps)
      (hlike : (g.request r).Like (fun a b => s.refer (ren.own r q ps) a = b) (h.request q))
      (hparent : (h.request q).parent = (g.request r).parent.map ren.request)
      (hlink : ∀ d ∈ (h.request q).clauseNodes, h.parent? d = some (.request q))
      (horigin : ∀ a b, (a, b) ∈ ps → (g.aliasOf a).origin.Like (h.aliasOf b).origin)
      (hinner : ∀ ps₁ a b ps₂ r' q', ps = ps₁ ++ (a, b) :: ps₂ → (g.aliasOf a).origin = .request r' →
        (h.aliasOf b).origin = .request q' →
        Copied s g h (q.index + 1) (ren.own r q ps₁) (.request r') (.request q'))
      (hparts : ∀ c d, (c, d) ∈ (g.request r).clauseNodes.zip (h.request q).clauseNodes →
        Copied s g h (q.index + 1) (ren.own r q ps) (.node c) (.node d)) :
      Copied s g h first ren (.request r) (.request q)

namespace Graph

variable {h k l : Graph}

/-- Nothing in `h` is different in `k` but links of nodes that were part of nothing and requests before
the number `first`. -/
structure Later (first : Nat) (h k : Graph) : Prop where
  grows : h.Grows k
  node : ∀ n, n.index < h.entries.size → k.node n = h.node n
  parent? : ∀ n o, h.parent? n = some o → k.parent? n = some o
  aliasOf : ∀ a, a.index < h.aliases.size → k.aliasOf a = h.aliasOf a
  request : ∀ r, first ≤ r.index → r.index < h.requests.size → k.request r = h.request r

lemma Later.mono {first first' : Nat} (hhk : Later first h k) (hfirst : first ≤ first') :
    Later first' h k := { hhk with request := fun r hr => hhk.request r (hfirst.trans hr) }

lemma Later.trans {first : Nat} (hhk : Later first h k) (hkl : Later first k l) : Later first h l where
  grows := hhk.grows.trans hkl.grows
  node n hn := (hkl.node n (hn.trans_le hhk.grows.entries)).trans (hhk.node n hn)
  parent? n o ho := hkl.parent? n o (hhk.parent? n o ho)
  aliasOf a ha := (hkl.aliasOf a (ha.trans_le hhk.grows.aliases)).trans (hhk.aliasOf a ha)
  request r hr hlt :=
    (hkl.request r hr (hlt.trans_le hhk.grows.requests)).trans (hhk.request r hr hlt)

lemma lt_size_of_parent? {g : Graph} {n : NodeId} {o : Owner} (h : g.parent? n = some o) :
    n.index < g.entries.size := by
  by_contra hn
  rw [parent?_of_size_le (Nat.not_lt.1 hn)] at h
  cases h

lemma Intact.later (hhk : h.Intact k) (first : Nat) : Later first h k where
  grows := hhk.grows
  node _ hn := hhk.node hn
  parent? n o ho := by
    rw [hhk.parent? (lt_size_of_parent? ho)]
    exact ho
  aliasOf := hhk.aliasOf
  request r _ hr := hhk.request r hr

end Graph

namespace Copied

variable {s : Swap} {g h k : Graph} {first first' : Nat} {ren : Renames} {x y : Part}

lemma of_le (hxy : Copied s g h first ren x y) (hfirst : first' ≤ first) : Copied s g h first' ren x y := by
  induction hxy with
  | node hsub hm hlike hlink _ ih => exact .node hsub hm hlike hlink fun c d hcd => ih c d hcd hfirst
  | sub hn hm hnode _ ih => exact .sub hn hm hnode (ih hfirst)
  | request hq hlt hsources hfresh hlike hparent hlink horigin hinner hparts =>
    exact .request (hfirst.trans hq) hlt hsources hfresh hlike hparent hlink horigin hinner hparts

lemma inside_node {n m : NodeId} (hnm : Copied s g h first ren (.node n) (.node m)) :
    m.index < h.entries.size := by
  cases hnm with
  | node _ hm _ _ _ => exact hm
  | sub _ hm _ _ => exact hm

/-- A copy stays a copy. -/
lemma later (hxy : Copied s g h first ren x y) (hhk : Graph.Later first h k) :
    Copied s g k first ren x y := by
  induction hxy with
  | node hsub hm hlike hlink _ ih =>
    have hnode := hhk.node _ hm
    refine .node hsub (hm.trans_le hhk.grows.entries) ?_ ?_ ?_
    · rw [hnode]
      exact hlike
    · rw [hnode]
      exact fun d hd => hhk.parent? _ _ (hlink d hd)
    · rw [hnode]
      exact fun c d hcd => ih c d hcd hhk
  | sub hn hm hnode _ ih =>
    exact .sub hn (hm.trans_le hhk.grows.entries) ((hhk.node _ hm).trans hnode) (ih hhk)
  | @request first ren r q ps hq hlt hsources hfresh hlike hparent hlink horigin _ _ ihinner ihparts =>
    have hrequest := hhk.request q hq hlt
    have hinside := hhk.mono (hq.trans (Nat.le_succ _))
    have haliasOf : ∀ a b, (a, b) ∈ ps → k.aliasOf b = h.aliasOf b := fun a b hab =>
      hhk.aliasOf b (hfresh.inside _ hab)
    refine .request hq (hlt.trans_le hhk.grows.requests) hsources ?_ ?_ ?_ ?_ ?_ ?_ ?_
    · exact { hfresh with inside := fun p hp => (hfresh.inside p hp).trans_le hhk.grows.aliases }
    · rw [hrequest]
      exact hlike
    · rw [hrequest]
      exact hparent
    · rw [hrequest]
      exact fun d hd => hhk.parent? _ _ (hlink d hd)
    · intro a b hab
      rw [haliasOf a b hab]
      exact horigin a b hab
    · intro ps₁ a b ps₂ r' q' hps hr' hq'
      rw [haliasOf a b (by simp [hps])] at hq'
      exact ihinner ps₁ a b ps₂ r' q' hps hr' hq' hinside
    · rw [hrequest]
      exact fun c d hcd => ihparts c d hcd hinside

end Copied

end EntityQuery.Sql
