import EntityQuery.Proofs.Chains.Values
import EntityQuery.Sql.Same

/-!
Grouped values.

* In a request that groups its rows, a value is grouped if it is one of the keys, a constant, an
  aggregate or a request of its own, or if it combines grouped values.
* `Fragment.isGrouped` tells the same of fragments over one source. A scalar expression over groups is
  written by such a fragment.
* `Sql.Graph.Reported`: the first request groups by columns and exposes only grouped fragments, and no
  other request groups.
-/

namespace EntityQuery

open Sql

/-! ### Nodes -/

namespace Sql

/-- Whether a node combines the values below it. -/
def Node.combines : Node → Bool
  | .unary _ _ | .binary _ _ _ | .isIn _ _ | .cond _ _ _ => true
  | .column _ _ | .row _ | .const _ | .sub _ => false

namespace Graph

/-- **Grouped values** under some keys. -/
inductive Grouped (g : Graph) (keys : List NodeId) : NodeId → Prop
  | key {n k : NodeId} (hk : k ∈ keys) (hsame : g.sameNodes n k = true) : Grouped g keys n
  | const {n : NodeId} {v : Value} (hn : g.node n = .const v) : Grouped g keys n
  | aggregate {n : NodeId} (hn : (g.node n).isAggregate = true) : Grouped g keys n
  | sub {n : NodeId} {r : RequestId} (hn : g.node n = .sub r) : Grouped g keys n
  | combined {n : NodeId} (hn : (g.node n).combines = true)
      (hparts : ∀ c ∈ (g.node n).children, Grouped g keys c) : Grouped g keys n

/-- **A request exposes only grouped values** in its columns, in its condition on groups and in its
order. -/
structure Exposes (g : Graph) (q : Request) : Prop where
  items : ∀ i ∈ q.items, g.Grouped q.groups i.node
  having : ∀ n, q.having = some n → g.Grouped q.groups n
  orders : ∀ o ∈ q.orders, g.Grouped q.groups o.node

variable {g : Graph} {keys : List NodeId} {n : NodeId}

lemma comparisonDepth_pos (g : Graph) : 0 < g.comparisonDepth :=
  Nat.mul_pos (Nat.succ_pos _) (Nat.succ_pos _)

/-- Two columns of one source are the same value if they have the same name. -/
lemma sameNodes_column {m : NodeId} {a : AliasId} {x y : String} (hm : g.node m = .column a x)
    (hn : g.node n = .column a y) : g.sameNodes m n = (x == y) := by
  obtain ⟨fuel, hfuel⟩ := Nat.exists_eq_add_one_of_ne_zero g.comparisonDepth_pos.ne'
  rw [sameNodes, hfuel, sameWithin, hm, hn]
  simp only [Node.sameHead, Pairs.agrees, Pairs.image, List.lookup_nil, Option.getD_none, BEq.rfl,
    Bool.true_and, Node.children, List.length_nil, Bool.and_true, List.zip_nil_left]
  cases x == y <;> rfl

/-- A grouped column is one of the keys. -/
lemma Grouped.column {a : AliasId} {name : String} (hn : g.node n = .column a name)
    (hgrouped : g.Grouped keys n) : ∃ k ∈ keys, g.sameNodes n k = true := by
  cases hgrouped with
  | key hk hsame => exact ⟨_, hk, hsame⟩
  | const h => rw [hn] at h; cases h
  | aggregate h => rw [hn] at h; cases h
  | sub h => rw [hn] at h; cases h
  | combined h => rw [hn] at h; cases h

end Graph

end Sql

/-! ### Fragments -/

namespace Fragment

variable (keys : GroupKeys)

mutual
/-- Whether a fragment over the source of a request is grouped under keys that are columns. -/
def isGrouped : Fragment → Bool
  | .column path name => path.isEmpty && keys.any (·.1 == name)
  | .row _ => false
  | .const _ => true
  | .unary op none => op.function?.isSome
  | .unary op (some e) => op.function?.isSome || isGrouped e
  | .binary _ l r => isGrouped l && isGrouped r
  | .isIn e vs => isGrouped e && allGrouped vs
  | .cond t y n => isGrouped t && isGrouped y && isGrouped n

def allGrouped : List Fragment → Bool
  | [] => true
  | f :: fs => isGrouped f && allGrouped fs
end

variable {keys}

lemma isGrouped_key {k : String × Option PropertyRef} (hk : k ∈ keys) :
    isGrouped keys (.column [] k.1) = true :=
  List.any_eq_true.2 ⟨k, hk, beq_self_eq_true k.1⟩

@[simp] lemma isGrouped_const (v : Value) : isGrouped keys (.const v) = true := rfl

@[simp] lemma isGrouped_binary (op : BinaryOp) (l r : Fragment) :
    isGrouped keys (.binary op l r) = (isGrouped keys l && isGrouped keys r) := rfl

@[simp] lemma isGrouped_asCondition (f : Fragment) :
    isGrouped keys f.asCondition = isGrouped keys f := by
  cases f <;> simp [asCondition]

@[simp] lemma isGrouped_likeText (before after : Bool) (f f' : Fragment) :
    isGrouped keys (likeText before after f f') = (isGrouped keys f && isGrouped keys f') := by
  cases before <;> cases after <;> simp [likeText]

lemma allGrouped_const (vs : List Value) : allGrouped keys (vs.map .const) = true := by
  induction vs with
  | nil => rfl
  | cons v vs ih => exact ih

lemma isGrouped_memberOf {item : Fragment} (hitem : isGrouped keys item = true) (e : Expr) :
    isGrouped keys (Expr.memberOf item e) = true := by
  unfold Expr.memberOf
  split
  · rw [isGrouped, hitem, allGrouped_const]
    rfl
  · rfl

/-- The conjunction of grouped conditions is grouped. -/
lemma isGrouped_conjunction? {fs : List Fragment} (hfs : ∀ f ∈ fs, isGrouped keys f = true) {f : Fragment}
    (hf : conjunction? fs = some f) : isGrouped keys f = true := by
  have hfold : ∀ (fs : List Fragment) (f : Fragment), isGrouped keys f = true →
      (∀ f ∈ fs, isGrouped keys f = true) → isGrouped keys (fs.foldl (.binary .and) f) = true := by
    intro fs
    induction fs with
    | nil => exact fun _ hf _ => hf
    | cons f' fs ih =>
      intro f hf hfs
      refine ih _ ?_ fun f'' hf'' => hfs f'' (List.mem_cons_of_mem _ hf'')
      rw [isGrouped_binary, hf, hfs f' List.mem_cons_self]
      rfl
  cases fs with
  | nil => cases hf
  | cons f' fs =>
    cases hf
    exact hfold fs f' (hfs f' List.mem_cons_self) fun f hf => hfs f (List.mem_cons_of_mem _ hf)

/-! ### Nodes of fragments -/

variable {g : Graph} {a : AliasId} {groups : List NodeId}

/-- A column under the name of a key is the same as the key. -/
lemma grouped_column (hgroups : List.Forall₂ (fun k n => g.Has n (.column a k.1)) keys groups)
    {n : NodeId} {name : String} (hname : keys.any (·.1 == name) = true)
    (hn : g.Has n (.column a name)) : g.Grouped groups n := by
  obtain ⟨k, hk, hkname⟩ := List.any_eq_true.1 hname
  obtain ⟨i, hi, rfl⟩ := List.getElem_of_mem hk
  have hlength := hgroups.length_eq ▸ hi
  have hkey : g.Has groups[i] (.column a keys[i].1) := (List.forall₂_iff_get.1 hgroups).2 i hi hlength
  refine .key (List.getElem_mem hlength) ?_
  rw [Graph.sameNodes_column hn.2 hkey.2]
  exact (beq_iff_eq.1 hkname ▸ beq_self_eq_true name)

mutual
/-- **The node of a grouped fragment is grouped.** -/
theorem At.grouped (hgroups : List.Forall₂ (fun k n => g.Has n (.column a k.1)) keys groups) :
    ∀ {f : Fragment} {n : NodeId}, f.At g a n → f.isGrouped keys = true → g.Grouped groups n
  | .column _ _, _, hn, hf => grouped_column hgroups (Bool.and_eq_true_iff.1 hf).2 hn.2
  | .const _, _, hn, _ => .const hn.2
  | .unary _ none, _, hn, hf => .aggregate (by rw [hn.2]; exact hf)
  | .unary _ (some _), _, ⟨m, hn, he⟩, hf => by
    rcases Bool.or_eq_true_iff.1 hf with haggregate | hf
    · exact .aggregate (by rw [hn.2]; exact haggregate)
    · refine .combined (by rw [hn.2]; rfl) fun c hc => ?_
      rw [hn.2, Node.children, Option.toList_some, List.mem_singleton] at hc
      exact hc ▸ he.grouped hgroups hf
  | .binary _ _ _, _, ⟨i, j, hn, hl, hr⟩, hf => by
    obtain ⟨hfl, hfr⟩ := Bool.and_eq_true_iff.1 hf
    refine .combined (by rw [hn.2]; rfl) fun c hc => ?_
    rw [hn.2, Node.children] at hc
    rcases List.mem_pair.1 hc with rfl | rfl
    · exact hl.grouped hgroups hfl
    · exact hr.grouped hgroups hfr
  | .isIn _ _, _, ⟨m, ms, hn, he, hvs⟩, hf => by
    obtain ⟨hfe, hfvs⟩ := Bool.and_eq_true_iff.1 hf
    refine .combined (by rw [hn.2]; rfl) fun c hc => ?_
    rw [hn.2, Node.children] at hc
    rcases List.mem_cons.1 hc with rfl | hc
    · exact he.grouped hgroups hfe
    · exact hvs.grouped hgroups hfvs c hc
  | .cond _ _ _, _, ⟨i, j, k, hn, ht, hy, hz⟩, hf => by
    obtain ⟨hfty, hfz⟩ := Bool.and_eq_true_iff.1 hf
    obtain ⟨hft, hfy⟩ := Bool.and_eq_true_iff.1 hfty
    refine .combined (by rw [hn.2]; rfl) fun c hc => ?_
    rw [hn.2, Node.children] at hc
    rcases List.mem_cons.1 hc with rfl | hc
    · exact ht.grouped hgroups hft
    · rcases List.mem_pair.1 hc with rfl | rfl
      · exact hy.grouped hgroups hfy
      · exact hz.grouped hgroups hfz

theorem AllAt.grouped (hgroups : List.Forall₂ (fun k n => g.Has n (.column a k.1)) keys groups) :
    ∀ {fs : List Fragment} {ns : List NodeId}, AllAt g a fs ns → allGrouped keys fs = true →
      ∀ n ∈ ns, g.Grouped groups n
  | [], [], _, _ => by simp
  | _ :: _, _ :: _, hns, hfs => by
    obtain ⟨hf, hfs⟩ := Bool.and_eq_true_iff.1 hfs
    refine List.forall_mem_cons.2 ⟨hns.1.grouped hgroups hf, hns.2.grouped hgroups hfs⟩
end

end Fragment

/-! ### Expressions -/

namespace Expr

variable {c : Catalog} {keys : GroupKeys} {leaf : Expr → Option Fragment}

lemma isGrouped_constant (l : Literal) : (constant c l).isGrouped keys = true := by
  unfold constant
  split
  · rfl
  · split <;> rfl
  · rfl

/-- **Scalar expressions over grouped leaves are grouped**, by induction on the form of expressions. -/
theorem isGrouped_written (hleaf : ∀ e f, leaf e = some f → f.isGrouped keys = true) (e : Expr) :
    e.isScalar leaf = true → (e.written leaf c).isGrouped keys = true := by
  induction e using Expr.isScalar.induct with
  | case1 e ih =>
    intro he
    cases hf : leaf e with
    | some f =>
      rw [written.eq_def, hf]
      exact hleaf e f hf
    | none =>
      rw [isScalar.eq_def, hf] at he
      rw [written.eq_def, hf, Option.getD_none]
      cases e with
      | const l => exact isGrouped_constant l
      | binary op l r =>
        obtain ⟨hl, hr⟩ := Bool.and_eq_true_iff.1 he
        have hl := ih.1 hl
        have hr := ih.2 hr
        dsimp only
        split
        · split <;> simp [hl, hr]
        · rfl
      | unary op operand =>
        have hoperand := ih he
        cases op with
        | not => simpa [Fragment.isGrouped] using Or.inr hoperand
        | convert => exact hoperand
        | negate => exact hoperand
      | cond k l r =>
        obtain ⟨hkl, hr⟩ := Bool.and_eq_true_iff.1 he
        obtain ⟨hk, hl⟩ := Bool.and_eq_true_iff.1 hkl
        simp [Fragment.isGrouped, ih.1 hk, ih.2.1 hl, ih.2.2 hr]
      | call method args =>
        rcases args with _ | ⟨l, _ | ⟨r, _ | ⟨x, rest⟩⟩⟩
        · cases method <;> cases he
        · cases method <;> cases he
        · cases method with
          | contains =>
            obtain ⟨hl, hr⟩ := Bool.and_eq_true_iff.1 he
            dsimp only
            split
            · simp [ih.1 hl, ih.2 hr]
            · exact Fragment.isGrouped_memberOf (ih.2 hr) l
          | startsWith =>
            obtain ⟨hl, hr⟩ := Bool.and_eq_true_iff.1 he
            simp [ih.1 hl, ih.2 hr]
          | endsWith =>
            obtain ⟨hl, hr⟩ := Bool.and_eq_true_iff.1 he
            simp [ih.1 hl, ih.2 hr]
          | _ => cases he
        · cases method <;> cases he
      | _ => cases he

/-- What is read from a group is grouped. -/
lemma isGrouped_groupLeaf {entity : String} {g : Param} {e : Expr} {f : Fragment}
    (h : groupLeaf c entity keys g e = some f) : f.isGrouped keys = true := by
  have hfunction : ∀ {m : Method} {op : UnaryOp}, m.aggregateOp? = some op →
      op.function?.isSome = true := by
    intro m op hop
    cases m <;> cases hop <;> rfl
  unfold groupLeaf at h
  split at h
  · split at h
    · split at h
      · cases h
        exact Fragment.isGrouped_key List.mem_cons_self
      · cases h
    · cases h
  · split at h
    · obtain ⟨k, hk, rfl⟩ := Option.map_eq_some_iff.1 h
      exact Fragment.isGrouped_key (List.mem_of_find?_eq_some hk)
    · cases h
  · split at h
    · cases h
      rfl
    · cases h
  · split at h
    · next op hop =>
      split at h
      · cases h
        rw [aggregated, Fragment.isGrouped, hfunction hop, Bool.true_or]
      · cases h
    · cases h
  · cases h

end Expr

/-! ### Requests that expose grouped fragments -/

namespace Fragment

/-- A node is the value of a grouped fragment. -/
def Shows (keys : GroupKeys) (g : Graph) (n : NodeId) : Prop :=
  ∃ f : Fragment, f.isGrouped keys = true ∧ f.At g ⟨0⟩ n

variable {keys : GroupKeys} {g h : Graph} {n : NodeId}

lemma Shows.later (hn : Shows keys g n) (hgh : g.Extends h) : Shows keys h n := by
  obtain ⟨f, hf, hn⟩ := hn
  exact ⟨f, hf, hn.later hgh⟩

/-- A whole row is no grouped value. -/
lemma Shows.not_row (hn : Shows keys g n) (a : AliasId) : g.node n ≠ .row a := by
  obtain ⟨f, hf, hn⟩ := hn
  intro hrow
  have hother : ∀ {x : Node}, g.Has n x → x = .row a := fun hx => hx.2.symm.trans hrow
  cases f with
  | row path => cases hf
  | column path name => cases hother hn.2
  | const v => cases hother hn
  | unary op operand =>
    cases operand with
    | none => cases hother hn
    | some e =>
      obtain ⟨m, hn, -⟩ := hn
      cases hother hn
  | binary op l r =>
    obtain ⟨i, j, hn, -⟩ := hn
    cases hother hn
  | isIn e vs =>
    obtain ⟨m, ms, hn, -⟩ := hn
    cases hother hn
  | cond t y z =>
    obtain ⟨i, j, k, hn, -⟩ := hn
    cases hother hn

end Fragment

namespace Sql.Graph

open Fragment

/-- The first request groups by columns of its source and exposes only grouped fragments. No other request
groups. -/
structure Reported (keys : GroupKeys) (g : Graph) : Prop where
  inside : 0 < g.requests.size
  groups : List.Forall₂ (fun k n => g.Has n (.column ⟨0⟩ k.1)) keys (g.request ⟨0⟩).groups
  items : ∀ i ∈ (g.request ⟨0⟩).items, Shows keys g i.node
  having : ∀ n, (g.request ⟨0⟩).having = some n → Shows keys g n
  orders : ∀ o ∈ (g.request ⟨0⟩).orders, Shows keys g o.node
  others : ∀ r : RequestId, r ≠ ⟨0⟩ → (g.request r).groups = []

namespace Reported

variable {keys : GroupKeys} {g h : Graph} {n : NodeId} (hg : g.Reported keys)
include hg

/-- **A reported request exposes only grouped values.** -/
theorem exposes (r : RequestId) (hr : (g.request r).groups ≠ []) : g.Exposes (g.request r) := by
  obtain rfl : r = ⟨0⟩ := by
    by_contra hne
    exact hr (hg.others r hne)
  have hgrouped : ∀ {n}, Shows keys g n → g.Grouped (g.request ⟨0⟩).groups n :=
    fun ⟨f, hf, hn⟩ => hn.grouped hg.groups hf
  exact ⟨fun i hi => hgrouped (hg.items i hi), fun n hn => hgrouped (hg.having n hn),
    fun o ho => hgrouped (hg.orders o ho)⟩

/-- A key is grouped. -/
lemma shows_key (hn : n ∈ (g.request ⟨0⟩).groups) : Shows keys g n := by
  obtain ⟨i, hi, rfl⟩ := List.getElem_of_mem hn
  have hlength := hg.groups.length_eq ▸ hi
  have hkey : g.Has (g.request ⟨0⟩).groups[i] (.column ⟨0⟩ keys[i].1) :=
    (List.forall₂_iff_get.1 hg.groups).2 i hlength hi
  exact ⟨_, isGrouped_key (List.getElem_mem hlength), rfl, hkey⟩

lemma groups_ne_nil (hkeys : keys ≠ []) : (g.request ⟨0⟩).groups ≠ [] := by
  intro hgroups
  have hlength := hg.groups.length_eq
  rw [hgroups] at hlength
  exact hkeys (List.length_eq_zero_iff.1 hlength)

/-- The next request is another one. -/
lemma new_ne_first : (⟨g.requests.size⟩ : RequestId) ≠ ⟨0⟩ := fun h =>
  hg.inside.ne' (congrArg RequestId.index h)

/-! ### Changes of the graph -/

lemma of_requests (hgh : g.Extends h) (hrequests : h.requests = g.requests) : h.Reported keys := by
  have hrequest : ∀ r, h.request r = g.request r := fun r => by
    rw [Graph.request, hrequests, Graph.request]
  refine ⟨?_, ?_, ?_, ?_, ?_, ?_⟩
  · rw [hrequests]
    exact hg.inside
  · rw [hrequest]
    exact hg.groups.imp fun _ _ hn => hn.later hgh
  · rw [hrequest]
    exact fun i hi => (hg.items i hi).later hgh
  · rw [hrequest]
    exact fun n hn => (hg.having n hn).later hgh
  · rw [hrequest]
    exact fun o ho => (hg.orders o ho).later hgh
  · intro r hr
    rw [hrequest]
    exact hg.others r hr

lemma add (x : Node) : (g.add x).2.Reported keys := hg.of_requests (extends_add g x) (requests_add g x)

lemma addAlias (d : Alias) : (g.addAlias d).2.Reported keys :=
  hg.of_requests (Kept.addAlias [] [] g d).extension rfl

lemma addRequest (parent : Option RequestId) : (g.addRequest parent).2.Reported keys := by
  have hgh : g.Extends (g.addRequest parent).2 := (Kept.addRequest [] [] g parent).extension
  have hzero := request_addRequest_of_lt (g := g) parent (r := ⟨0⟩) hg.inside
  refine ⟨hg.inside.trans_le hgh.requests, ?_, ?_, ?_, ?_, fun r hr => ?_⟩
  · rw [hzero]
    exact hg.groups.imp fun _ _ hn => hn.later hgh
  · rw [hzero]
    exact fun i hi => (hg.items i hi).later hgh
  · rw [hzero]
    exact fun n hn => (hg.having n hn).later hgh
  · rw [hzero]
    exact fun o ho => (hg.orders o ho).later hgh
  · rw [request_addRequest]
    split
    · rfl
    · exact hg.others r hr

/-- A clause of a request changes. -/
lemma modifyRequest (r : RequestId) {change : Request → Request}
    (hgroups : ∀ q, (change q).groups = q.groups) (hhaving : ∀ q, (change q).having = q.having)
    (horders : ∀ q, (change q).orders ⊆ q.orders)
    (hitems : r = ⟨0⟩ → ∀ i ∈ (change (g.request ⟨0⟩)).items, Shows keys g i.node) :
    (g.modifyRequest r change).Reported keys := by
  have hgh : g.Extends (g.modifyRequest r change) :=
    (Kept.modifyRequest (A := []) g (List.mem_singleton_self r) change).extension
  have hinside : 0 < (g.modifyRequest r change).requests.size := by
    rw [size_requests_modifyRequest]
    exact hg.inside
  by_cases hr : r = ⟨0⟩
  · subst hr
    have hzero := request_modifyRequest_self g change hg.inside
    refine ⟨hinside, ?_, ?_, ?_, ?_, fun q hq => ?_⟩
    · rw [hzero, hgroups]
      exact hg.groups.imp fun _ _ hn => hn.later hgh
    · rw [hzero]
      exact fun i hi => (hitems rfl i hi).later hgh
    · rw [hzero, hhaving]
      exact fun n hn => (hg.having n hn).later hgh
    · rw [hzero]
      exact fun o ho => (hg.orders o (horders _ ho)).later hgh
    · rw [request_modifyRequest_of_ne _ _ hq]
      exact hg.others q hq
  · have hzero := request_modifyRequest_of_ne g change (q := ⟨0⟩) fun h => hr h.symm
    refine ⟨hinside, ?_, ?_, ?_, ?_, fun q hq => ?_⟩
    · rw [hzero]
      exact hg.groups.imp fun _ _ hn => hn.later hgh
    · rw [hzero]
      exact fun i hi => (hg.items i hi).later hgh
    · rw [hzero]
      exact fun n hn => (hg.having n hn).later hgh
    · rw [hzero]
      exact fun o ho => (hg.orders o ho).later hgh
    · by_cases hqr : q = r
      · subst hqr
        by_cases hlt : q.index < g.requests.size
        · rw [request_modifyRequest_self g change hlt, hgroups]
          exact hg.others q hq
        · rw [Graph.request, Array.getD_eq_getD_getElem?, Array.getElem?_eq_none]
          · rfl
          · rw [size_requests_modifyRequest]
            exact Nat.le_of_not_lt hlt
      · rw [request_modifyRequest_of_ne _ _ hqr]
        exact hg.others q hq

/-- A further item, which is grouped if it is one of the request that groups. -/
lemma pushItem (r : RequestId) {i : Item} (hi : r = ⟨0⟩ → Shows keys g i.node) :
    (g.pushItem r i).Reported keys := by
  have hgh : g.Extends (g.attach r i.node) := (Kept.attach [r] [] g r i.node).extension
  refine (hg.of_requests hgh (requests_attach ..)).modifyRequest r (fun _ => rfl) (fun _ => rfl)
    (fun _ => List.Subset.refl _) fun hr j hj => ?_
  rcases List.mem_append.1 hj with hj | hj
  · exact (hg.items j hj).later hgh
  · rw [List.mem_singleton.1 hj]
    exact (hi hr).later hgh

/-- The first request moves into another one. -/
lemma nest (parent : Option RequestId) : (g.modifyRequest ⟨0⟩ ({ · with parent })).Reported keys :=
  hg.modifyRequest ⟨0⟩ (fun _ => rfl) (fun _ => rfl) (fun _ => List.Subset.refl _) fun _ => hg.items

/-- The first request becomes a derived table, which keeps its order only if it is paged. -/
lemma wrap (outer : RequestId) : (g.modifyRequest ⟨0⟩ fun q => { q with
    parent := some outer, orders := if q.isPaged then q.orders else [] }).Reported keys := by
  refine hg.modifyRequest ⟨0⟩ (fun _ => rfl) (fun _ => rfl) (fun q => ?_) fun _ => hg.items
  dsimp only
  split
  · exact List.Subset.refl _
  · exact List.nil_subset _

/-- Another request shows any value. -/
lemma project {r : RequestId} (hr : r ≠ ⟨0⟩) (i : Item) (type : TypeRef) :
    ((g.pushItem r i).modifyRequest r ({ · with projection := some type })).Reported keys :=
  (hg.pushItem r fun h => absurd h hr).modifyRequest r (fun _ => rfl) (fun _ => rfl)
    (fun _ => List.Subset.refl _) fun h => absurd h hr

lemma clearItems (r : RequestId) : (g.clearItems r).Reported keys :=
  hg.modifyRequest r (fun _ => rfl) (fun _ => rfl) (fun _ => List.Subset.refl _) nofun

end Reported

end Sql.Graph

end EntityQuery
