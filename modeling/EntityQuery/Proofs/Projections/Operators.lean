import EntityQuery.Proofs.Projections.Summary

/-!
Operators, and expressions inside an anchored request.

* An operator on rows gives the request of its receiver, which shows the static type from then on.
* `shelters_visit`: an expression inside an anchored request leaves it alone, by induction on how
  deeply the expression is nested.
-/

namespace EntityQuery

open Sql

namespace Method

/-- The operators that give the request of their receiver. -/
def onRows : Method → Bool
  | .where | .first | .skip | .take | .distinct | .orderBy | .orderByDescending | .thenBy
  | .thenByDescending | .select | .selectMany | .groupBy | .insert | .update | .delete => true
  | _ => false

end Method

namespace Compile

open Graph

variable {many : String → String → Bool} {A : Anchor} {o r : RequestId} {s t : CompileState}

/-! ### Operators -/

section Operators

variable {visit : Visit} {K : RequestId → Anchor → Prop} {m : Method} {arg : Expr} {rest : List Expr}

/-- A request is given that shows what an expression ranges over. -/
def Operated (many : String → String → Bool) (K : RequestId → Anchor → Prop) (e : Expr)
    (t : CompileState) (x : Meaning) : Prop :=
  Shown many K e.type.shown t x ∧ (e.type.isSequence = true → e.elementType.isItem = true)

variable (hself : ∀ r A, K r A → A.showing r arg.type.shown = A)

include hself in
lemma Served.shown {x : Meaning} (h : Served many K arg t x) :
    Shown many K arg.type.shown t x ∧ arg.elementType.isItem = true := by
  obtain ⟨r, A, rfl, hK, ht, hitem⟩ := h
  refine ⟨⟨r, A, rfl, hK, ?_⟩, hitem⟩
  rw [hself r A hK]
  exact ht

variable (hv : Shelters many visit)
  (hopen : Ensures (receiver visit (.call m (arg :: rest)) arg) s (Received many K arg))
  (hrest : Expr.FitsArgs many m arg.elementType rest) (hsequence : arg.type.isSequence = true)
include hself hv hopen hrest hsequence

/-- **An operator on rows** gives the request of its receiver, which shows the static type. -/
theorem operated_operator (hm : m.onRows = true) :
    Ensures (operator visit (.call m (arg :: rest)) m arg (arg :: rest)) s fun x t =>
      Operated many K (.call m (arg :: rest)) t x := by
  have htype := Expr.type_call m arg rest
  -- an operator that keeps what its receiver ranges over
  have hkeep : (Expr.call m (arg :: rest)).type = arg.type → ∀ x t, Served many K arg t x →
      Operated many K (.call m (arg :: rest)) t x := by
    intro hsame x t hx
    unfold Operated Expr.elementType
    rw [hsame]
    exact ⟨(hx.shown hself).1, fun _ => (hx.shown hself).2⟩
  -- a projection of a request
  have hreshape : ∀ element, (Expr.call m (arg :: rest)).type = arg.type.reshape element →
      element.isItem = true → ∀ x t, Shown many K element t x →
        Operated many K (.call m (arg :: rest)) t x := by
    intro element hsame hitem x t hx
    obtain ⟨hseq, helement⟩ := TypeRef.isSequence_reshape arg.type element
    unfold Operated Expr.elementType
    rw [hsame, TypeRef.shown_eq_elementOrSelf hseq, helement]
    exact ⟨hx, fun _ => hitem⟩
  -- a write gives a number
  have hnumber : (Expr.call m (arg :: rest)).type = .scalar .int false → ∀ x t,
      Shown many K (Expr.call m (arg :: rest)).type t x → Operated many K (.call m (arg :: rest)) t x := by
    intro hint x t hx
    unfold Operated
    rw [hint] at hx ⊢
    exact ⟨hx, nofun⟩
  cases m with
  | «where» => exact (served_filter hopen hv hrest).mono (hkeep htype)
  | first =>
    refine (served_first hopen hv hrest).mono fun x t hx => ?_
    obtain ⟨hshown, hitem⟩ := hx.shown hself
    have hfirst : (Expr.call .first (arg :: rest)).type = arg.elementType := htype
    have hnot := TypeRef.not_isSequence_of_isItem hitem
    have helement : arg.type.shown = arg.elementType := TypeRef.shown_eq_elementOrSelf hsequence
    unfold Operated
    rw [hfirst, TypeRef.shown_eq_self hnot, ← helement]
    refine ⟨hshown, fun hseq => ?_⟩
    rw [helement, hnot] at hseq
    cases hseq
  | skip => exact (served_skip hopen).mono (hkeep htype)
  | take => exact (served_take hopen).mono (hkeep htype)
  | distinct => exact (served_distinct hopen).mono (hkeep htype)
  | orderBy => exact (served_order hopen hv hrest true true).mono (hkeep htype)
  | orderByDescending => exact (served_order hopen hv hrest true false).mono (hkeep htype)
  | thenBy => exact (served_order hopen hv hrest false true).mono (hkeep htype)
  | thenByDescending => exact (served_order hopen hv hrest false false).mono (hkeep htype)
  | select =>
    have hrun : Ensures (select visit _ false arg (arg :: rest)) s _ :=
      shown_select hv hopen hrest nofun
    refine hrun.mono ?_
    rintro x t ⟨type, hselector, hitem, hx⟩
    rw [hselector] at htype
    exact hreshape _ htype hitem x t hx
  | selectMany =>
    refine (shown_select hv hopen hrest fun _ => rfl).mono ?_
    rintro x t ⟨type, hselector, hitem, hx⟩
    rw [hselector] at htype
    exact hreshape _ htype hitem x t hx
  | groupBy =>
    refine (shown_groupBy hv hopen hrest).mono ?_
    rintro x t ⟨type, hselector, hflat, hitem, hx⟩
    rw [hselector] at htype
    have helement : (Expr.call .groupBy (arg :: rest)).elementType =
        .grouping type arg.elementType := by
      rw [Expr.elementType, htype]
      exact (TypeRef.isSequence_reshape _ _).2
    rw [helement] at hx
    have hitem : (TypeRef.grouping type arg.elementType).isItem = true := by
      rw [TypeRef.isItem_grouping, hflat]
      exact hitem
    exact hreshape _ htype hitem x t hx
  | insert => exact (shown_insert hv hopen hrest).mono (hnumber htype)
  | update => exact (shown_update hv hopen hrest).mono (hnumber htype)
  | delete => exact (shown_delete hopen).mono (hnumber htype)
  | _ => cases hm

end Operators

/-- An aggregate is no sequence: its selector is of a value, or its receiver ranges over items. -/
lemma not_isSequence_aggregate {m : Method} {arg : Expr} {rest : List Expr}
    (hrest : Expr.FitsArgs many m arg.elementType rest) (hitem : arg.elementType.isItem = true)
    (hm : m.isAggregate = true) : (Expr.call m (arg :: rest)).type.isSequence = false := by
  have hvalue : (m = .sum ∨ m = .min ∨ m = .max) →
      ((Expr.selectorType? rest).getD arg.elementType).isSequence = false := by
    intro hm
    cases hselector : Expr.selectorType? rest with
    | none => exact TypeRef.not_isSequence_of_isItem hitem
    | some type =>
      rcases rest with _ | ⟨f, tail⟩
      · cases hselector
      · cases f with
        | lambda ps body =>
          cases hselector
          have hselects := (hrest.lambda hitem).2
          rcases hm with rfl | rfl | rfl <;> simpa [Method.selects] using hselects
        | _ => cases hselector
  rw [Expr.type_call]
  cases m with
  | count => rfl
  | average => rfl
  | sum => exact hvalue (.inl rfl)
  | min => exact hvalue (.inr (.inl rfl))
  | max => exact hvalue (.inr (.inr rfl))
  | _ => cases hm

/-! ### Hints and joins that keep rows -/

section Passing

variable {visit : Visit} {arg : Expr} {rest : List Expr} {P : Meaning → CompileState → Prop}
  (hvisit : Ensures (visit arg) s P)
include hvisit

lemma ensures_hint_pass (hP : ∀ x t hints, P x t → P x { t with hints := hints }) (e : Expr)
    (m : Method) : Ensures (hint visit e m arg (arg :: rest)) s P := by
  refine (ensures_second e arg rest).bind fun f s' ⟨_, hs'⟩ => ?_
  subst hs'
  split
  · refine (ensures_hintPath e _).bind fun path s' hs' => ?_
    subst hs'
    split
    · exact ensures_reject
    · exact hvisit.bind fun x t hx => ensures_bind.2 (ensures_modify.2 (ensures_pure.2 (hP x t _ hx)))
  · exact ensures_reject

end Passing

/-! ### Inside a request -/

/-- What passes another expression on stands for what that one stands for. -/
lemma Inside.pass {e e' : Expr} {x : Meaning} (h : Inside many A e o t x) (htype : e'.type = e.type)
    (hkey : e'.isKey = false) : Inside many A e' o t x := by
  have hflat : e'.isKey = true → e'.type.isFlat = true := fun h => by rw [hkey] at h; cases h
  cases x with
  | value n => exact ⟨h.1, hflat⟩
  | row a =>
    obtain ⟨ht, hflat, hbase⟩ := h
    rw [← htype] at hflat hbase
    exact ⟨ht, hflat, hbase⟩
  | query r =>
    obtain ⟨ht, hr, -, hitem⟩ := h
    rw [Expr.elementType, ← htype] at hitem
    exact ⟨ht, hr, hkey, hitem⟩

lemma Inside.hints {e : Expr} {x : Meaning} (h : Inside many A e o t x) (hints : List LoadingHint) :
    Inside many A e o { t with hints := hints } x := by
  have hback : ∀ o, Guarded many A o t → Guarded many A o { t with hints := hints } :=
    fun _ ht => ⟨ht.anchored, ht.active, ht.paths⟩
  cases x with
  | value n => exact ⟨h.1.imp hback, h.2⟩
  | row a => exact ⟨hback o h.1, h.2⟩
  | query r => exact ⟨h.1.imp hback, h.2⟩

/-- An operator works on another request than the anchored one. -/
def Elsewhere (A : Anchor) (r : RequestId) (A' : Anchor) : Prop := A' = A ∧ r ≠ A.request

lemma Elsewhere.showing {A' : Anchor} (h : Elsewhere A r A') (type : TypeRef) :
    A'.showing r type = A' := by
  obtain ⟨rfl, hr⟩ := h
  exact if_neg hr

lemma Operated.inside {e : Expr} {x : Meaning} (h : Operated many (Elsewhere A) e t x)
    (hkey : e.isKey = false) : Inside many A e o t x := by
  obtain ⟨⟨r, A', rfl, helsewhere, ht⟩, hitem⟩ := h
  rw [helsewhere.showing] at ht
  obtain ⟨rfl, hr⟩ := helsewhere
  exact ⟨⟨r, ht⟩, hr, hkey, hitem⟩

lemma Sheltered.inside {e arg : Expr} {x : Meaning} (h : Sheltered many A arg t x)
    (hkey : e.isKey = false)
    (hsequence : arg.elementType.isItem = true → e.type.isSequence = false) :
    Inside many A e o t x := by
  cases x with
  | value n => exact ⟨h, fun h => by rw [hkey] at h; cases h⟩
  | row a => exact h.elim
  | query r =>
    obtain ⟨hr, ht, hitem⟩ := h
    exact ⟨ht, hr, hkey, fun h => by rw [hsequence hitem] at h; cases h⟩

section Inside

variable {visit : Visit} (hv : Shelters many visit) (h : Guarded many A o s)
include hv h

lemma received_inside {arg : Expr} (harg : arg.Fits many) (hsequence : arg.type.isSequence = true)
    (e : Expr) : Ensures (receiver visit e arg) s (Received many (Elsewhere A) arg) :=
  (guarded_receiver hv h harg hsequence e).mono fun _ _ ⟨hr, ⟨o', ht⟩, hitem⟩ =>
    ⟨⟨A, o', ⟨rfl, hr⟩, ht⟩, hitem⟩

theorem inside_operator {m : Method} {arg : Expr} {rest : List Expr}
    (he : (Expr.call m (arg :: rest)).Fits many) :
    Ensures (operator visit (.call m (arg :: rest)) m arg (arg :: rest)) s fun x t =>
      Inside many A (.call m (arg :: rest)) o t x := by
  obtain ⟨harg, htakes, hrest⟩ := he.call
  have htype := Expr.type_call m arg rest
  have hrows : m.onRows = true → Ensures (operator visit (.call m (arg :: rest)) m arg (arg :: rest)) s
      fun x t => Inside many A (.call m (arg :: rest)) o t x := by
    intro hm
    have hsequence : arg.type.isSequence = true := by
      cases m <;> first | exact htakes | cases hm
    exact (operated_operator (fun r A' hA => hA.showing _) hv
      (received_inside hv h harg hsequence _) hrest hsequence hm).mono fun x t hx => hx.inside rfl
  have haggregate : ∀ op, m.isAggregate = true →
      Ensures (aggregate visit (.call m (arg :: rest)) op arg (arg :: rest)) s fun x t =>
        Inside many A (.call m (arg :: rest)) o t x := by
    intro op hm
    have hsource : (arg.type.isSequence || arg.type.isGrouping) = true := by
      cases m <;> first | exact htakes | cases hm
    exact (sheltered_aggregate hv h harg hrest hsource _ op).mono fun x t hx =>
      hx.inside rfl fun hitem => not_isSequence_aggregate hrest hitem hm
  have hpass : (Expr.call m (arg :: rest)).type = arg.type →
      Ensures (visit arg) s fun x t => Inside many A (.call m (arg :: rest)) o t x := fun hsame =>
    (hv A arg o s harg h).mono fun x t hx => hx.pass hsame rfl
  have hhint : (Expr.call m (arg :: rest)).type = arg.type →
      Ensures (hint visit (.call m (arg :: rest)) m arg (arg :: rest)) s fun x t =>
        Inside many A (.call m (arg :: rest)) o t x := fun hsame =>
    ensures_hint_pass (hpass hsame) (fun x t hints hx => hx.hints hints) _ m
  cases m with
  | count => exact haggregate .count rfl
  | sum => exact haggregate .sum rfl
  | average => exact haggregate .average rfl
  | min => exact haggregate .min rfl
  | max => exact haggregate .max rfl
  | any =>
    have hboolean : (Expr.call .any (arg :: rest)).type.isSequence = false := by rw [htype]; rfl
    exact (sheltered_any hv h harg hrest htakes _).mono fun x t hx => hx.inside rfl fun _ => hboolean
  | contains => exact (valued_contains hv h harg hrest _).mono fun x t hx => hx.inside rfl
  | startsWith => exact (valued_like hv h harg hrest _ false true).mono fun x t hx => hx.inside rfl
  | endsWith => exact (valued_like hv h harg hrest _ true false).mono fun x t hx => hx.inside rfl
  | eagerLoad => exact hhint htype
  | lazyLoad => exact hhint htype
  | batchLazyLoad => exact hhint htype
  | dontLoad => exact hhint htype
  | useLeftJoin =>
    change Ensures (widening true (visit arg)) s _
    rw [ensures_widening]
    exact (hv A arg o _ harg (h.widen true)).mono fun x t hx => (hx.pass htype rfl).widen _
  | named name => exact ensures_reject
  | _ => exact hrows rfl

end Inside

/-- **What one rule does inside an anchored request.** -/
theorem shelters_step {visit : Visit} (hv : Shelters many visit) : Shelters many (step visit) := by
  intro A e o s he h
  cases e with
  | source entity => exact inside_source h entity
  | const l => exact (valued_constant h _ l).mono fun x t hx => hx.inside rfl
  | param p => exact inside_parameter h he.param _
  | member target p => exact inside_member hv h he _
  | key grouping => exact inside_key hv h he.key _
  | binary op l r => exact (valued_binary hv h he.binary.1 he.binary.2 _ op).mono fun x t hx => hx.inside rfl
  | unary op operand => exact inside_unary hv h he.unary _ op
  | cond test yes no =>
    obtain ⟨htest, hyes, hno⟩ := he.cond
    exact (valued_conditional hv h htest hyes hno).mono fun x t hx => hx.inside rfl
  | call m args =>
    rcases args with _ | ⟨arg, rest⟩
    · cases m <;> exact ensures_reject
    · have hoperator := inside_operator hv h he
      cases m <;> first | exact ensures_reject | exact hoperator
  | lambda ps body => exact ensures_reject
  | new type members => exact ensures_reject
  | init type bindings => exact ensures_reject

/-- **Expressions inside an anchored request leave it alone**, by induction on how deeply they are
nested. -/
theorem shelters_visit (fuel : Nat) : Shelters many (visit [] fuel) := by
  induction fuel with
  | zero => exact fun _ _ _ _ _ _ => ensures_reject
  | succ fuel ih => exact shelters_step ih

end Compile

end EntityQuery
