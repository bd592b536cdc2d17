import EntityQuery.Proofs.Copying.Formed
import EntityQuery.Sql.Same

/-!
Nodes and requests that say the same about different handles.

* `Node.Like E V x y`: the nodes are of one kind with equally many children; their aliases are related
  by `E`, their constants by `V`.
* `Request.Like E x y`: the requests have the same clauses entry by entry, up to the values in them and
  the requests around them; their sources and written tables are related by `E`.
-/

namespace EntityQuery

lemma forall₂_comp {α β γ : Type} {R : α → β → Prop} {S : β → γ → Prop} {xs : List α} {ys : List β}
    {zs : List γ} (hxy : List.Forall₂ R xs ys) (hyz : List.Forall₂ S ys zs) :
    List.Forall₂ (Relation.Comp R S) xs zs := by
  induction hxy generalizing zs with
  | nil =>
    cases hyz
    exact .nil
  | cons h _ ih =>
    cases hyz with
    | cons h' hyz => exact .cons ⟨_, h, h'⟩ (ih hyz)

lemma forall₂_mono {α β : Type} {R S : α → β → Prop} {xs : List α} {ys : List β}
    (h : List.Forall₂ R xs ys) (hRS : ∀ x ∈ xs, ∀ y ∈ ys, R x y → S x y) : List.Forall₂ S xs ys := by
  induction h with
  | nil => exact .nil
  | cons h _ ih =>
    refine .cons (hRS _ List.mem_cons_self _ List.mem_cons_self h) (ih fun x hx y hy => ?_)
    exact hRS x (List.mem_cons_of_mem _ hx) y (List.mem_cons_of_mem _ hy)

lemma exists_of_mem_right {α β : Type} {R : α → β → Prop} {xs : List α} {ys : List β}
    (h : List.Forall₂ R xs ys) {y : β} (hy : y ∈ ys) : ∃ x ∈ xs, R x y := by
  induction h with
  | nil => cases hy
  | cons hxy _ ih =>
    rcases List.mem_cons.1 hy with rfl | hy
    · exact ⟨_, List.mem_cons_self, hxy⟩
    · obtain ⟨x, hx, hxy⟩ := ih hy
      exact ⟨x, List.mem_cons_of_mem _ hx, hxy⟩

lemma mem_zip_swap {α : Type} {xs ys : List α} {x y : α} (h : (x, y) ∈ xs.zip ys) :
    (y, x) ∈ ys.zip xs := by
  rw [← List.zip_swap]
  exact List.mem_map_of_mem (f := Prod.swap) h

lemma exists_mem_zip_left {α : Type} {xs ys : List α} (hxy : xs.length = ys.length) {x : α}
    (hx : x ∈ xs) : ∃ y, (x, y) ∈ xs.zip ys := by
  rw [← List.map_fst_zip hxy.le] at hx
  obtain ⟨⟨x, y⟩, hmem, rfl⟩ := List.mem_map.1 hx
  exact ⟨y, hmem⟩

lemma exists_mem_zip_right {α : Type} {xs ys : List α} (hxy : xs.length = ys.length) {y : α}
    (hy : y ∈ ys) : ∃ x, (x, y) ∈ xs.zip ys := by
  obtain ⟨x, hx⟩ := exists_mem_zip_left hxy.symm hy
  exact ⟨x, mem_zip_swap hx⟩

lemma exists_mem_zip {α : Type} {xs ys zs : List α} (hxy : xs.length = ys.length)
    (hyz : ys.length = zs.length) {x z : α} (h : (x, z) ∈ xs.zip zs) :
    ∃ y, (x, y) ∈ xs.zip ys ∧ (y, z) ∈ ys.zip zs := by
  obtain ⟨i, hi, heq⟩ := List.mem_iff_getElem.1 h
  rw [List.length_zip] at hi
  rw [List.getElem_zip] at heq
  cases heq
  refine ⟨ys[i], ?_, ?_⟩
  · exact List.mem_iff_getElem.2 ⟨i, by rw [List.length_zip]; omega, List.getElem_zip⟩
  · exact List.mem_iff_getElem.2 ⟨i, by rw [List.length_zip]; omega, List.getElem_zip⟩

lemma allPairs_of_forall₂ {α : Type} {r : α → α → Bool} {xs ys : List α}
    (h : List.Forall₂ (fun x y => r x y = true) xs ys) : allPairs r xs ys = true := by
  induction h with
  | nil => rfl
  | cons h _ ih =>
    rw [allPairs, h, ih]
    rfl

/-! ### Constants -/

namespace Binary64

variable {x y z : Binary64}

lemma equals_symm (h : x.equals y = true) : y.equals x = true := by
  simp only [equals, Bool.and_eq_true, Bool.or_eq_true, beq_iff_eq] at h ⊢
  obtain ⟨⟨hx, hy⟩, hxy | ⟨hzero, hzero'⟩⟩ := h
  · exact ⟨⟨hy, hx⟩, .inl hxy.symm⟩
  · exact ⟨⟨hy, hx⟩, .inr ⟨hzero', hzero⟩⟩

lemma equals_trans (h : x.equals y = true) (h' : y.equals z = true) : x.equals z = true := by
  simp only [equals, Bool.and_eq_true, Bool.or_eq_true, beq_iff_eq] at h h' ⊢
  obtain ⟨⟨hx, -⟩, hxy⟩ := h
  obtain ⟨⟨-, hz⟩, hyz⟩ := h'
  refine ⟨⟨hx, hz⟩, ?_⟩
  rcases hxy with rfl | ⟨hzero, hzero'⟩
  · exact hyz
  · rcases hyz with rfl | ⟨-, hzero''⟩
    · exact .inr ⟨hzero, hzero'⟩
    · exact .inr ⟨hzero, hzero''⟩

end Binary64

namespace Json

mutual
/-- Whether a document holds a number that is none. -/
def holdsNaN : Json → Bool
  | .float x => x.isNaN
  | .arr items => holdsNaNItems items
  | .obj fields => holdsNaNFields fields
  | _ => false

def holdsNaNItems : List Json → Bool
  | [] => false
  | j :: rest => holdsNaN j || holdsNaNItems rest

def holdsNaNFields : List (String × Json) → Bool
  | [] => false
  | (_, j) :: rest => holdsNaN j || holdsNaNFields rest
end

mutual
lemma equals_self {j : Json} (hj : j.holdsNaN = false) : j.equals j = true := by
  cases j with
  | float x =>
    have hx : x.isNaN = false := hj
    simp [equals, Binary64.equals, hx]
  | arr items => exact equalItems_self hj
  | obj fields => exact equalFields_self hj
  | _ => simp [equals]

lemma equalItems_self {items : List Json} (hitems : holdsNaNItems items = false) :
    equalItems items items = true := by
  cases items with
  | nil => rfl
  | cons j rest =>
    rw [holdsNaNItems, Bool.or_eq_false_iff] at hitems
    rw [equalItems, equals_self hitems.1, equalItems_self hitems.2]
    rfl

lemma equalFields_self {fields : List (String × Json)} (hfields : holdsNaNFields fields = false) :
    equalFields fields fields = true := by
  cases fields with
  | nil => rfl
  | cons field rest =>
    obtain ⟨key, j⟩ := field
    rw [holdsNaNFields, Bool.or_eq_false_iff] at hfields
    rw [equalFields, equals_self hfields.1, equalFields_self hfields.2, beq_self_eq_true]
    rfl
end

mutual
lemma equals_symm {j k : Json} (h : j.equals k = true) : k.equals j = true := by
  cases j <;> cases k
  case float.float x y => exact Binary64.equals_symm h
  case arr.arr items items' => exact equalItems_symm h
  case obj.obj fields fields' => exact equalFields_symm h
  all_goals simp_all [equals]

lemma equalItems_symm {items items' : List Json} (h : equalItems items items' = true) :
    equalItems items' items = true := by
  cases items <;> cases items'
  case cons.cons j rest k rest' =>
    rw [equalItems, Bool.and_eq_true] at h ⊢
    exact ⟨equals_symm h.1, equalItems_symm h.2⟩
  all_goals simp_all [equalItems]

lemma equalFields_symm {fields fields' : List (String × Json)} (h : equalFields fields fields' = true) :
    equalFields fields' fields = true := by
  cases fields <;> cases fields'
  case cons.cons field rest field' rest' =>
    rw [equalFields, Bool.and_eq_true, Bool.and_eq_true, beq_iff_eq] at h ⊢
    exact ⟨⟨h.1.1.symm, equals_symm h.1.2⟩, equalFields_symm h.2⟩
  all_goals simp_all [equalFields]
end

mutual
lemma equals_trans {j k l : Json} (h : j.equals k = true) (h' : k.equals l = true) :
    j.equals l = true := by
  cases j <;> cases k <;> try cases h
  all_goals cases l <;> try cases h'
  case float.float.float x y z => exact Binary64.equals_trans h h'
  case arr.arr.arr items items' items'' => exact equalItems_trans h h'
  case obj.obj.obj fields fields' fields'' => exact equalFields_trans h h'
  all_goals simp_all [equals]
termination_by structural j

lemma equalItems_trans {items items' items'' : List Json} (h : equalItems items items' = true)
    (h' : equalItems items' items'' = true) : equalItems items items'' = true := by
  cases items' with
  | nil =>
    cases items with
    | nil => exact h'
    | cons j rest => cases h
  | cons k rest' =>
    cases items <;> cases items''
    case cons.cons j rest l rest'' =>
      rw [equalItems, Bool.and_eq_true] at h h' ⊢
      exact ⟨equals_trans h.1 h'.1, equalItems_trans h.2 h'.2⟩
    all_goals simp_all [equalItems]
termination_by structural items

lemma equalFields_trans {fields fields' fields'' : List (String × Json)}
    (h : equalFields fields fields' = true) (h' : equalFields fields' fields'' = true) :
    equalFields fields fields'' = true := by
  cases fields' with
  | nil =>
    cases fields with
    | nil => exact h'
    | cons field rest => cases h
  | cons field' rest' =>
    cases fields <;> cases fields''
    case cons.cons field rest field'' rest'' =>
      rw [equalFields, Bool.and_eq_true, Bool.and_eq_true, beq_iff_eq] at h h' ⊢
      exact ⟨⟨h.1.1.trans h'.1.1, equals_trans h.1.2 h'.1.2⟩, equalFields_trans h.2 h'.2⟩
    all_goals simp_all [equalFields]
termination_by structural fields
end

end Json

namespace Value

/-- Whether a constant holds a number that is none. -/
def holdsNaN : Value → Bool
  | .float x => x.isNaN
  | .json j => j.holdsNaN
  | _ => false

lemma equals_self {v : Value} (hv : v.holdsNaN = false) : v.equals v = true := by
  cases v with
  | float x =>
    have hx : x.isNaN = false := hv
    simp [equals, Binary64.equals, hx]
  | json j => exact j.equals_self hv
  | _ => simp [equals]

variable {u v w : Value}

lemma equals_symm (h : v.equals w = true) : w.equals v = true := by
  cases v <;> cases w
  case float.float x y => exact Binary64.equals_symm h
  case json.json j k => exact Json.equals_symm h
  all_goals simp_all [equals]

lemma equals_trans (h : u.equals v = true) (h' : v.equals w = true) : u.equals w = true := by
  cases u <;> cases v <;> try cases h
  all_goals cases w <;> try cases h'
  case float.float.float x y z => exact Binary64.equals_trans h h'
  case json.json.json j k l => exact Json.equals_trans h h'
  all_goals simp_all [equals]

end Value

namespace Sql

/-! ### Nodes -/

/-- Nodes of one kind. -/
inductive Node.Like (E : AliasId → AliasId → Prop) (V : Value → Value → Prop) : Node → Node → Prop
  | column {a b : AliasId} (h : E a b) (c : String) : Like E V (.column a c) (.column b c)
  | row {a b : AliasId} (h : E a b) : Like E V (.row a) (.row b)
  | const {v w : Value} (h : V v w) : Like E V (.const v) (.const w)
  | unary (op : UnaryOp) {x y : Option NodeId} (h : x.isSome = y.isSome) :
      Like E V (.unary op x) (.unary op y)
  | binary (op : BinaryOp) (l r l' r' : NodeId) : Like E V (.binary op l r) (.binary op l' r')
  | isIn (x y : NodeId) {xs ys : List NodeId} (h : xs.length = ys.length) :
      Like E V (.isIn x xs) (.isIn y ys)
  | cond (t y n t' y' n' : NodeId) : Like E V (.cond t y n) (.cond t' y' n')
  | sub (r q : RequestId) : Like E V (.sub r) (.sub q)

namespace Node

variable {E F : AliasId → AliasId → Prop} {V W : Value → Value → Prop} {x y z : Node}

lemma Like.mono (h : x.Like E V y) (hE : ∀ a b, x.source? = some a → E a b → F a b)
    (hV : ∀ v w, x = .const v → V v w → W v w) : x.Like F W y := by
  cases h with
  | column h c => exact .column (hE _ _ rfl h) c
  | row h => exact .row (hE _ _ rfl h)
  | const h => exact .const (hV _ _ rfl h)
  | unary op h => exact .unary op h
  | binary op l r l' r' => exact .binary op l r l' r'
  | isIn x y h => exact .isIn x y h
  | cond t y n t' y' n' => exact .cond t y n t' y' n'
  | sub r q => exact .sub r q

lemma Like.symm (h : x.Like E V y) : y.Like (Function.swap E) (Function.swap V) x := by
  cases h with
  | column h c => exact .column (E := Function.swap E) h c
  | row h => exact .row (E := Function.swap E) h
  | const h => exact .const (V := Function.swap V) h
  | unary op h => exact .unary op h.symm
  | binary op l r l' r' => exact .binary op l' r' l r
  | isIn x y h => exact .isIn y x h.symm
  | cond t y n t' y' n' => exact .cond t' y' n' t y n
  | sub r q => exact .sub q r

lemma Like.trans (hxy : x.Like E V y) (hyz : y.Like F W z) :
    x.Like (Relation.Comp E F) (Relation.Comp V W) z := by
  cases hxy with
  | column h c =>
    cases hyz with
    | column h' c => exact .column ⟨_, h, h'⟩ c
  | row h =>
    cases hyz with
    | row h' => exact .row ⟨_, h, h'⟩
  | const h =>
    cases hyz with
    | const h' => exact .const ⟨_, h, h'⟩
  | unary op h =>
    cases hyz with
    | unary op h' => exact .unary op (h.trans h')
  | binary op l r l' r' =>
    cases hyz with
    | binary op l' r' l'' r'' => exact .binary op l r l'' r''
  | isIn x y h =>
    cases hyz with
    | isIn y z h' => exact .isIn x z (h.trans h')
  | cond t y n t' y' n' =>
    cases hyz with
    | cond t' y' n' t'' y'' n'' => exact .cond t y n t'' y'' n''
  | sub r q =>
    cases hyz with
    | sub q p => exact .sub r p

lemma Like.length_children (h : x.Like E V y) : x.children.length = y.children.length := by
  cases h with
  | @unary op x y h => cases x <;> cases y <;> simp_all [children]
  | isIn x y h => simp [children, h]
  | _ => rfl

lemma Like.source? (h : x.Like E V y) {a : AliasId} (ha : x.source? = some a) :
    ∃ b, y.source? = some b ∧ E a b := by
  cases h with
  | column h c =>
    cases ha
    exact ⟨_, rfl, h⟩
  | row h =>
    cases ha
    exact ⟨_, rfl, h⟩
  | _ => cases ha

lemma Like.exists_sub {r : RequestId} (h : (Node.sub r).Like E V y) : ∃ q, y = .sub q := by
  cases h with
  | sub r q => exact ⟨q, rfl⟩

lemma Like.exists_const {w : Value} (h : x.Like E V (.const w)) : ∃ v, x = .const v ∧ V v w := by
  cases h with
  | const h => exact ⟨_, rfl, h⟩

lemma Like.ne_sub (h : x.Like E V y) (hx : ∀ r, x ≠ .sub r) (q : RequestId) : y ≠ .sub q := by
  rintro rfl
  obtain ⟨r, hr⟩ := h.symm.exists_sub
  exact hx r hr

/-- Nodes with matched sources and equal constants have the same head. -/
lemma Like.sameHead {pairs : Pairs}
    (h : x.Like (fun a b => pairs.agrees a b = true) (fun v w => v.equals w = true) y)
    (hx : ∀ r, x ≠ .sub r) : x.sameHead pairs y = true := by
  cases h with
  | column h c => simp [Node.sameHead, h]
  | row h => exact h
  | const h => exact h
  | sub r q => exact absurd rfl (hx r)
  | _ => simp [Node.sameHead]

end Node

/-! ### Requests -/

namespace Request

/-- Requests with the same clauses, entry by entry. -/
structure Like (E : AliasId → AliasId → Prop) (x y : Request) : Prop where
  kind : x.kind = y.kind
  base : x.base.isSome = y.base.isSome
  sources : List.Forall₂ E x.sources y.sources
  target : List.Forall₂ E x.target.toList y.target.toList
  joins : List.Forall₂ (fun j k => j.kind = k.kind) x.joins y.joins
  items : List.Forall₂ (fun i k => i.property = k.property ∧ i.newElement = k.newElement ∧
    i.label = k.label) x.items y.items
  filter : x.filter.isSome = y.filter.isSome
  having : x.having.isSome = y.having.isSome
  groups : x.groups.length = y.groups.length
  groupMembers : x.groupMembers = y.groupMembers
  orders : List.Forall₂ (fun o p => o.ascending = p.ascending) x.orders y.orders
  skip : x.skip = y.skip
  take : x.take = y.take
  distinct : x.distinct = y.distinct
  assignments : x.assignments.length = y.assignments.length
  projection : x.projection = y.projection
  idColumn : x.idColumn = y.idColumn

variable {E F : AliasId → AliasId → Prop} {x y z : Request}

lemma Like.mono (h : x.Like E y) (hE : ∀ a ∈ x.origins, ∀ b ∈ y.origins, E a b → F a b) : x.Like F y :=
  { h with
    sources := forall₂_mono h.sources fun a ha b hb =>
      hE a (List.mem_append_left _ ha) b (List.mem_append_left _ hb)
    target := forall₂_mono h.target fun a ha b hb =>
      hE a (List.mem_append_right _ ha) b (List.mem_append_right _ hb) }

lemma Like.symm (h : x.Like E y) : y.Like (Function.swap E) x where
  kind := h.kind.symm
  base := h.base.symm
  sources := h.sources.flip
  target := h.target.flip
  joins := h.joins.flip.imp fun _ _ => Eq.symm
  items := h.items.flip.imp fun _ _ ⟨hproperty, hnew, hlabel⟩ =>
    ⟨hproperty.symm, hnew.symm, hlabel.symm⟩
  filter := h.filter.symm
  having := h.having.symm
  groups := h.groups.symm
  groupMembers := h.groupMembers.symm
  orders := h.orders.flip.imp fun _ _ => Eq.symm
  skip := h.skip.symm
  take := h.take.symm
  distinct := h.distinct.symm
  assignments := h.assignments.symm
  projection := h.projection.symm
  idColumn := h.idColumn.symm

lemma Like.trans (hxy : x.Like E y) (hyz : y.Like F z) : x.Like (Relation.Comp E F) z where
  kind := hxy.kind.trans hyz.kind
  base := hxy.base.trans hyz.base
  sources := forall₂_comp hxy.sources hyz.sources
  target := forall₂_comp hxy.target hyz.target
  joins := (forall₂_comp hxy.joins hyz.joins).imp fun _ _ ⟨_, h, h'⟩ => h.trans h'
  items := (forall₂_comp hxy.items hyz.items).imp fun _ _ ⟨_, h, h'⟩ =>
    ⟨h.1.trans h'.1, h.2.1.trans h'.2.1, h.2.2.trans h'.2.2⟩
  filter := hxy.filter.trans hyz.filter
  having := hxy.having.trans hyz.having
  groups := hxy.groups.trans hyz.groups
  groupMembers := hxy.groupMembers.trans hyz.groupMembers
  orders := (forall₂_comp hxy.orders hyz.orders).imp fun _ _ ⟨_, h, h'⟩ => h.trans h'
  skip := hxy.skip.trans hyz.skip
  take := hxy.take.trans hyz.take
  distinct := hxy.distinct.trans hyz.distinct
  assignments := hxy.assignments.trans hyz.assignments
  projection := hxy.projection.trans hyz.projection
  idColumn := hxy.idColumn.trans hyz.idColumn

lemma Like.length_clauseNodes (h : x.Like E y) : x.clauseNodes.length = y.clauseNodes.length := by
  have hoption : ∀ {o p : Option NodeId}, o.isSome = p.isSome → o.toList.length = p.toList.length := by
    intro o p h
    cases o <;> cases p <;> simp_all
  have hassigned : ∀ as : List Assignment,
      (as.flatMap fun s => [s.column, s.value]).length = 2 * as.length := by
    intro as
    induction as with
    | nil => rfl
    | cons a as ih =>
      simp only [List.flatMap_cons, List.length_append, List.length_cons, List.length_nil, ih]
      omega
  simp only [clauseNodes, List.length_append, List.length_map, hassigned, h.joins.length_eq,
    h.items.length_eq, hoption h.filter, hoption h.having, h.groups, h.orders.length_eq, h.assignments]

lemma sameMember_refl (p : Option PropertyRef) : sameMember p p = true := by
  cases p with
  | none => rfl
  | some p => simp [sameMember, PropertyRef.same]

lemma Like.sameShape (h : x.Like E y) : x.sameShape y = true := by
  have hjoins : allPairs (fun j k : Join => j.kind == k.kind) x.joins y.joins = true :=
    allPairs_of_forall₂ (h.joins.imp fun _ _ h => by simp [h])
  have hitems : allPairs (fun i k : Item => i.label == k.label && sameMember i.property k.property)
      x.items y.items = true :=
    allPairs_of_forall₂ (h.items.imp fun _ _ h => by simp [h, sameMember_refl])
  have hmembers : allPairs sameMember x.groupMembers y.groupMembers = true := by
    rw [h.groupMembers]
    exact allPairs_of_forall₂ (List.forall₂_same.2 fun p _ => sameMember_refl p)
  have horders : allPairs (fun o p : Order => o.ascending == p.ascending) x.orders y.orders = true :=
    allPairs_of_forall₂ (h.orders.imp fun _ _ h => by simp [h])
  simp [Request.sameShape, hjoins, hitems, hmembers, horders, h.kind, h.skip, h.take, h.distinct,
    h.filter, h.having, h.assignments]

/-- A written table is matched with the written table of a like request. -/
lemma Like.sameTarget {pairs : Pairs} (h : x.Like (fun a b => pairs.agrees a b = true) y) :
    Sql.sameTarget pairs x.target y.target = true := by
  have htarget := h.target
  cases hx : x.target <;> cases hy : y.target <;> rw [hx, hy] at htarget
  · rfl
  · cases htarget
  · cases htarget
  · cases htarget with
    | cons h _ => exact h

/-- The values in the clauses of two requests are related entry by entry. -/
structure Clausewise (R : NodeId → NodeId → Prop) (x y : Request) : Prop where
  joins : List.Forall₂ (fun j k => R j.condition k.condition) x.joins y.joins
  items : List.Forall₂ (fun i k => R i.node k.node) x.items y.items
  filter : List.Forall₂ R x.filter.toList y.filter.toList
  having : List.Forall₂ R x.having.toList y.having.toList
  groups : List.Forall₂ R x.groups y.groups
  orders : List.Forall₂ (fun o p => R o.node p.node) x.orders y.orders
  assignments : List.Forall₂ (fun a b => R a.column b.column ∧ R a.value b.value)
    x.assignments y.assignments

namespace Clausewise

variable {R S : NodeId → NodeId → Prop}

lemma mono (h : x.Clausewise R y) (hRS : ∀ c d, R c d → S c d) : x.Clausewise S y where
  joins := h.joins.imp fun _ _ => hRS _ _
  items := h.items.imp fun _ _ => hRS _ _
  filter := h.filter.imp fun _ _ => hRS _ _
  having := h.having.imp fun _ _ => hRS _ _
  groups := h.groups.imp fun _ _ => hRS _ _
  orders := h.orders.imp fun _ _ => hRS _ _
  assignments := h.assignments.imp fun _ _ ⟨hcolumn, hvalue⟩ => ⟨hRS _ _ hcolumn, hRS _ _ hvalue⟩

lemma clauseNodes (h : x.Clausewise R y) : List.Forall₂ R x.clauseNodes y.clauseNodes := by
  have hassigned : List.Forall₂ R (x.assignments.flatMap fun s => [s.column, s.value])
      (y.assignments.flatMap fun s => [s.column, s.value]) := by
    have hall := h.assignments
    generalize x.assignments = as at hall
    generalize y.assignments = bs at hall
    induction hall with
    | nil => exact .nil
    | cons hab _ ih => exact .cons hab.1 (.cons hab.2 ih)
  refine List.rel_append ?_ hassigned
  refine List.rel_append ?_ (List.forall₂_map_left_iff.2 (List.forall₂_map_right_iff.2 h.orders))
  refine List.rel_append (List.rel_append (List.rel_append ?_ h.filter) h.having) h.groups
  exact List.rel_append (List.forall₂_map_left_iff.2 (List.forall₂_map_right_iff.2 h.joins))
    (List.forall₂_map_left_iff.2 (List.forall₂_map_right_iff.2 h.items))

end Clausewise

end Request

end Sql

end EntityQuery
