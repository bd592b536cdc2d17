import EntityQuery.Expr.Typing
import Mathlib.Tactic.Lemma

/-!
Expressions whose types fit together.

* `isItem`: the types that the elements of a sequence have. A sequence ranges over single values, or
  over groupings by a key that is flat.
* `wellTyped`: parameters have the types of what they range over, operators are applied to
  sequences, and a member of a collection type is given a collection.
-/

namespace EntityQuery

namespace TypeRef

/-- A query or a collection. -/
def isSequence (t : TypeRef) : Bool := t.isQuery || t.isCollection

/-- The type that a row of a result of this type stands for. -/
def shown : TypeRef → TypeRef
  | .query t => t
  | .collection t => t
  | t => t

/-- The types of members: a value, a row, an object, or rows. -/
def isMember : TypeRef → Bool
  | .scalar _ _ | .entity _ | .object _ | .collection (.entity _) => true
  | _ => false

/-- The types of the elements of sequences. -/
def isItem : TypeRef → Bool
  | .scalar _ _ | .entity _ | .object _ => true
  | .collection _ | .query _ => false
  | .grouping (.collection k) e => isItem k && isItem e
  | .grouping k e => isItem k && isItem e

/-- An item or a collection of items. -/
def isFlat : TypeRef → Bool
  | .collection t => t.isItem
  | t => t.isItem

lemma isItem_grouping (k e : TypeRef) : (grouping k e).isItem = (k.isFlat && e.isItem) := by
  cases k <;> rfl

variable {t : TypeRef}

lemma not_isSequence_of_isItem (h : t.isItem = true) : t.isSequence = false := by
  cases t <;> first | rfl | cases h

lemma isFlat_of_isItem (h : t.isItem = true) : t.isFlat = true := by
  cases t <;> first | exact h | cases h

lemma isItem_of_isFlat (h : t.isFlat = true) (hcollection : t.isCollection = false) :
    t.isItem = true := by
  cases t <;> first | exact h | cases hcollection

lemma isFlat_of_isMember (h : t.isMember = true) : t.isFlat = true := by
  unfold isMember at h
  split at h <;> first | rfl | cases h

lemma shown_eq_self (h : t.isSequence = false) : t.shown = t := by
  cases t <;> first | rfl | cases h

lemma shown_eq_elementOrSelf (h : t.isSequence = true) : t.shown = t.elementOrSelf := by
  cases t <;> first | rfl | cases h

lemma elementOrSelf_eq_self (h : t.element?.isNone = true) : t.elementOrSelf = t := by
  cases t <;> first | rfl | cases h

/-- The elements of a flat sequence are items. -/
lemma isItem_elementOrSelf (h : t.isFlat = true) (hsequence : t.isSequence = true) :
    t.elementOrSelf.isItem = true := by
  cases t <;> first | exact h | cases h | cases hsequence

lemma isCollection_of_isFlat (h : t.isFlat = true) (hsequence : t.isSequence = true) :
    t.isCollection = true := by
  cases t <;> first | rfl | (cases h; done) | cases hsequence

/-- A sequence of other elements ranges over those. -/
lemma isSequence_reshape (receiver element : TypeRef) :
    (receiver.reshape element).isSequence = true ∧ (receiver.reshape element).elementOrSelf = element := by
  unfold reshape
  split <;> exact ⟨rfl, rfl⟩

end TypeRef

/-! ### Operators -/

namespace Method

/-- Whether an operator is applied to a receiver of a type. Predicates on texts and lists, and what
changes only the joins of a predicate, take any value. -/
def takes (m : Method) (t : TypeRef) : Bool :=
  match m with
  | .contains | .startsWith | .endsWith | .useLeftJoin | .named _ => true
  | .count | .sum | .average | .min | .max => t.isSequence || t.isGrouping
  | _ => t.isSequence

/-- Whether an operator may be given a selector of a type: flattening takes a collection or a single
value, and a sum or an extremum is one of values. -/
def selects (m : Method) (t : TypeRef) : Bool :=
  match m with
  | .selectMany => t.isCollection || t.element?.isNone
  | .sum | .min | .max => !t.isSequence
  | _ => true

end Method

/-! ### Expressions -/

namespace Expr

/-- The type of the lambda that follows a receiver. -/
def selectorType? : List Expr → Option TypeRef
  | .lambda _ body :: _ => some body.type
  | _ => none

lemma type_call (m : Method) (arg : Expr) (rest : List Expr) :
    (call m (arg :: rest)).type = m.resultType arg.type (selectorType? rest) := by
  rcases rest with _ | ⟨_ | _ | _ | _ | _ | _ | _ | _ | _ | _ | _ | _, rest⟩ <;> rfl

mutual
/-- Whether the types of an expression under some parameters fit together; `many` are the properties
of collection types, by owner and name. -/
def wellTyped (many : String → String → Bool) : List Param → Expr → Bool
  | _, .source _ | _, .const _ => true
  | scope, .param p => scope.contains p || p.type.isItem
  | scope, .member target p =>
    wellTyped many scope target && p.type.isMember && (!p.type.isCollection || many p.owner p.name)
  | scope, .key target => wellTyped many scope target
  | scope, .binary _ l r => wellTyped many scope l && wellTyped many scope r
  | scope, .unary _ e => wellTyped many scope e
  | scope, .cond t y n => wellTyped many scope t && wellTyped many scope y && wellTyped many scope n
  | _, .call _ [] => true
  | scope, .call m (receiver :: args) =>
    wellTyped many scope receiver && m.takes receiver.type &&
      wellTypedArgs many scope m receiver.elementType args
  | _, .lambda _ _ => true
  | scope, .new _ members => wellTypedMembers many scope members
  | scope, .init _ bindings => wellTypedBindings many scope bindings

/-- The arguments of an operator over elements of a type. -/
def wellTypedArgs (many : String → String → Bool) (scope : List Param) (m : Method)
    (element : TypeRef) : List Expr → Bool
  | [] => true
  | .lambda ps body :: rest =>
    ps.all (fun p => p.type == element) && m.selects body.type && wellTyped many (ps ++ scope) body &&
      wellTypedArgs many scope m element rest
  | e :: rest => wellTyped many scope e && wellTypedArgs many scope m element rest

/-- A member of a collection type is given a collection. -/
def wellTypedMembers (many : String → String → Bool) (scope : List Param) :
    List (PropertyRef × Expr) → Bool
  | [] => true
  | (p, e) :: rest =>
    (!many p.owner p.name || e.type.isCollection) && wellTyped many scope e &&
      wellTypedMembers many scope rest

def wellTypedBindings (many : String → String → Bool) (scope : List Param) : List Binding → Bool
  | [] => true
  | .assign p e :: rest =>
    (!many p.owner p.name || e.type.isCollection) && wellTyped many scope e &&
      wellTypedBindings many scope rest
  | .list _ _ :: rest => wellTypedBindings many scope rest
end

variable {many : String → String → Bool} {scope : List Param} {m : Method} {element : TypeRef}

/-- A lambda that follows a receiver. -/
lemma wellTyped_of_lambda {ps : List Param} {body : Expr} {rest : List Expr}
    (h : wellTypedArgs many scope m element (.lambda ps body :: rest) = true) :
    (∀ p ∈ ps, p.type = element) ∧ m.selects body.type = true ∧
      body.wellTyped many (ps ++ scope) = true := by
  simp only [wellTypedArgs, Bool.and_eq_true, List.all_eq_true, beq_iff_eq] at h
  exact ⟨h.1.1.1, h.1.1.2, h.1.2⟩

/-- An argument after the receiver, lambda or not. -/
lemma wellTyped_of_arg {e : Expr} {rest : List Expr}
    (h : wellTypedArgs many scope m element (e :: rest) = true) : e.wellTyped many scope = true := by
  cases e with
  | lambda ps body => rw [wellTyped]
  | _ =>
    simp only [wellTypedArgs, Bool.and_eq_true] at h
    exact h.1

end Expr

end EntityQuery
