import EntityQuery.Proofs.Registry.Result

/-!
What a query leaves in the mapping, with a statement or without one.

* `Discipline.keeping`: a property of mappings that registered values keep. A query keeps it too, also
  one that is rejected half-way: `Mapping.keeps_compile`.
* A query changes no fragment but those of the properties to which its own projections give computed
  values, and removes none.
* These are changed by a rejected query as well: `rejected_registers`.
-/

namespace EntityQuery

open Sql

/-! ### Fragments by property -/

namespace PropertyTable

variable {α : Type} {t : PropertyTable α} {p q : PropertyRef} {a : α}

/-- A value of another property is found as before. -/
lemma find?_insert_of_ne (h : p.same q = false) : (t.insert p a).find? q = t.find? q := by
  have herase : List.find? (fun row => row.1.same q) (t.erase p) =
      List.find? (fun row => row.1.same q) t := by
    rw [erase, List.find?_filter]
    congr 1
    funext row
    cases hrow : row.1.same q with
    | false => simp
    | true =>
      have hp : row.1.same p = false := by
        by_contra hp
        have hp : row.1.same p = true := by simpa using hp
        rw [PropertyRef.same_trans (PropertyRef.same_symm hp) hrow] at h
        cases h
      simp [hp]
  rw [find?, insert, List.find?_cons, h]
  exact congrArg _ herase

/-- A value that was there is there, or another one in its place. -/
lemma isSome_find?_insert (h : (t.find? q).isSome) : ((t.insert p a).find? q).isSome := by
  cases hpq : p.same q with
  | false => rwa [find?_insert_of_ne hpq]
  | true => simp [find?, insert, hpq]

end PropertyTable

/-! ### Expressions without restrictions -/

namespace Expr

mutual
lemma fillsMember_true (p : PropertyRef) : ∀ e : Expr, fillsMember (fun _ => true) p e = true
  | .new _ members => fillsMembers_true members
  | .source _ | .const _ | .binary _ _ _ | .unary _ _ | .cond _ _ _ | .call _ _ => rfl
  | .key _ | .member _ _ | .param _ | .lambda _ _ | .init _ _ => rfl

lemma fillsMembers_true : ∀ members, fillsMembers (fun _ => true) members = true
  | [] => rfl
  | (p, e) :: rest => by rw [fillsMembers, fillsMember_true p e, fillsMembers_true rest, Bool.and_self]
end

lemma fillsBindings_true (bindings : List Binding) : fillsBindings (fun _ => true) bindings = true := by
  induction bindings with
  | nil => rfl
  | cons b rest ih =>
    cases b with
    | assign p e => rw [fillsBindings, fillsMember_true p e, ih, Bool.and_self]
    | list p entries => rw [fillsBindings, ih]

lemma fillsObject_true (e : Expr) : fillsObject (fun _ => true) e = true := by
  unfold fillsObject
  split
  · exact fillsMembers_true _
  · exact fillsBindings_true _
  · rfl

mutual
lemma confined_true : ∀ e : Expr, confined (fun _ => true) (fun _ => true) e = true
  | .source _ | .const _ | .param _ => rfl
  | .member e _ | .key e | .unary _ e | .lambda _ e => by simp [confined, confined_true e]
  | .binary _ l r => by simp [confined, confined_true l, confined_true r]
  | .cond t y n => by simp [confined, confined_true t, confined_true y, confined_true n]
  | .call _ args => by
    have hfills : args[1]?.all (fillsObject fun _ => true) = true := by
      cases args[1]? <;> simp [fillsObject_true]
    rw [confined, hfills, confinedAll_true args, Bool.or_true, Bool.and_self]
  | .new _ members => by rw [confined, confinedMembers_true members]
  | .init _ bindings => by rw [confined, confinedBindings_true bindings]

lemma confinedAll_true : ∀ es, confinedAll (fun _ => true) (fun _ => true) es = true
  | [] => rfl
  | e :: rest => by rw [confinedAll, confined_true e, confinedAll_true rest, Bool.and_self]

lemma confinedMembers_true : ∀ members, confinedMembers (fun _ => true) (fun _ => true) members = true
  | [] => rfl
  | (_, e) :: rest => by
    rw [confinedMembers, confined_true e, confinedMembers_true rest, Bool.and_self]

lemma confinedBindings_true :
    ∀ bindings, confinedBindings (fun _ => true) (fun _ => true) bindings = true
  | [] => rfl
  | .assign _ e :: rest => by
    rw [confinedBindings, confined_true e, confinedBindings_true rest, Bool.and_self]
  | .list _ es :: rest => by
    rw [confinedBindings, confinedAll_true es, confinedBindings_true rest, Bool.and_self]
end

/-- Whether no projection in an expression gives a computed value to a property. -/
def spares (p : PropertyRef) (e : Expr) : Bool := e.confined (fun _ => true) fun q => !q.same p

end Expr

/-! ### What queries keep -/

/-- One mapping, with what the values that may be registered keep. -/
def Discipline.keeping (fills : PropertyRef → Bool) (P : Mapping → Prop)
    (hP : ∀ {m p}, P m → fills p = true → ∀ g n, P (m.register g p n)) : Discipline where
  reads _ := true
  fills := fills
  Alike m n := m = n ∧ P m
  catalog h := h.1 ▸ rfl
  keys h := h.1 ▸ rfl
  resolve := by
    rintro m _ p ⟨rfl, -⟩ - r a widen
    rfl
  register := by
    rintro m _ p ⟨rfl, hm⟩ hp g n
    exact ⟨rfl, hP hm hp g n⟩

namespace Mapping

variable {m : Mapping} {e : Expr} {p : PropertyRef}

/-- **A query keeps what its registered values keep**, whether it has a statement or not. -/
lemma keeps_compile {fills : PropertyRef → Bool} {P : Mapping → Prop}
    (hP : ∀ {m p}, P m → fills p = true → ∀ g n, P (m.register g p n)) (hm : P m)
    (he : e.confined (fun _ => true) fills = true) : P (m.compile e).2 := by
  have halike := compile_alike (d := .keeping fills P hP) (m := m) ⟨rfl, hm⟩ he
  exact halike.2.2

/-- A query leaves the catalog alone. -/
lemma catalog_compile (m : Mapping) (e : Expr) :
    (m.compile e).2.catalog = m.catalog ∧ (m.compile e).2.readsReferenceKeys = m.readsReferenceKeys := by
  refine keeps_compile (P := fun n => n.catalog = m.catalog ∧ n.readsReferenceKeys = m.readsReferenceKeys)
    ?_ ⟨rfl, rfl⟩ e.confined_true
  rintro n p ⟨hcatalog, hkeys⟩ - g k
  exact ⟨(n.catalog_register g p k).trans hcatalog, (n.readsReferenceKeys_register g p k).trans hkeys⟩

/-- A query changes no fragment of a property to which it gives no computed value. -/
lemma registered?_compile (m : Mapping) (he : e.spares p = true) :
    (m.compile e).2.registered? p = m.registered? p := by
  refine keeps_compile (P := fun n => n.registered? p = m.registered? p) ?_ rfl he
  intro n q hn hq g k
  obtain h | ⟨f, h⟩ := n.register_eq g q k <;> rw [h]
  · exact hn
  · exact (PropertyTable.find?_insert_of_ne (by simpa using hq)).trans hn

/-- A query removes no fragment. -/
lemma isSome_registered?_compile (h : (m.registered? p).isSome) (e : Expr) :
    ((m.compile e).2.registered? p).isSome := by
  refine keeps_compile (P := fun n => (n.registered? p).isSome = true) ?_ h e.confined_true
  intro n q hn _ g k
  obtain h | ⟨f, h⟩ := n.register_eq g q k <;> rw [h]
  · exact hn
  · exact PropertyTable.isSome_find?_insert hn

/-- **What a query changes in the mapping.** From any mapping, any query, a rejected one included, leaves
the catalog as it was, and the fragments of all properties but those to which its own projections give
computed values. None of the fragments is removed. -/
theorem compile_registers (m : Mapping) (e : Expr) :
    (m.compile e).2.catalog = m.catalog ∧
      (m.compile e).2.readsReferenceKeys = m.readsReferenceKeys ∧
      ∀ p, (e.spares p = true → (m.compile e).2.registered? p = m.registered? p) ∧
        ((m.registered? p).isSome → ((m.compile e).2.registered? p).isSome) :=
  ⟨(m.catalog_compile e).1, (m.catalog_compile e).2, fun _ =>
    ⟨m.registered?_compile, fun hp => isSome_registered?_compile hp e⟩⟩

end Mapping

namespace Raised

def rest : PropertyRef := ⟨"Raise", "rest", .scalar .int false⟩

/-- Selects the orders with their totals raised, and with a remainder, which has no SQL. -/
def halving : Expr :=
  .call .select [.source "Order", .lambda [order] (.new "Raise"
    [(raise, .binary .add (.member (.param order) total) (.const (.value (.int 1)))),
     (rest, .binary .modulo (.member (.param order) total) (.const (.value (.int 2))))])]

end Raised

/-- The mapped total is left as it was. -/
theorem compile_registers_halving :
    (Raised.mapping.compile Raised.halving).1.toOption.isNone = true ∧
      Raised.halving.spares Raised.total = true ∧
      (Raised.mapping.compile Raised.halving).2.registered? Raised.total =
        Raised.mapping.registered? Raised.total := by
  have hspares : Raised.halving.spares Raised.total = true := by decide +kernel
  exact ⟨by decide +kernel, hspares,
    ((Raised.mapping.compile_registers Raised.halving).2.2 Raised.total).1 hspares⟩

/-- A rejected query leaves a fragment: the raised total is registered before the remainder fails. -/
theorem rejected_registers :
    (Raised.mapping.compile Raised.halving).1.toOption.isNone = true ∧
      (Raised.mapping.registered? Raised.raise).isNone = true ∧
      ((Raised.mapping.compile Raised.halving).2.registered? Raised.raise).isSome = true := by
  decide +kernel

end EntityQuery
