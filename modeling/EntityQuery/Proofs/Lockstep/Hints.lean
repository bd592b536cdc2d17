import EntityQuery.Compile.Scope
import EntityQuery.Proofs.Masking.Expr
import Mathlib.Computability.Language
import Mathlib.Order.CompletePartialOrder

/-!
Expressions without loading hints, and the hints that an expression gives.

* `shed drop` takes the hints of the methods in `drop` out of an expression, at any depth, where they
  are for a source or for the result of an operator; what they are for stays. The type of the
  expression stays, the path it reads, and its form unless it is such a hint itself.
* `hintLogs drop e` is the language of the hints that `e` may give, in order, each with whether
  `shed` keeps it. It has a single word, unless a projection reads the key of a grouping that is
  itself written with hints: the key may be compiled once or twice.
-/

namespace EntityQuery

namespace Expr

/-! ### Without hints -/

/-- Whether an expression is a source or the call of an operator. -/
def isSourceOrCall : Expr → Bool
  | .source _ | .call _ _ => true
  | _ => false

/-- Whether the call of a method is a hint that is taken out. -/
def sheds (drop : Method → Bool) (m : Method) (receiver : Expr) : Bool :=
  m.isLoadingHint && drop m && receiver.isSourceOrCall

mutual
/-- An expression without the hints of some methods for sources and operator calls. -/
def shed (drop : Method → Bool) : Expr → Expr
  | .source entity => .source entity
  | .const l => .const l
  | .param p => .param p
  | .member target p => .member (shed drop target) p
  | .key target => .key (shed drop target)
  | .binary op l r => .binary op (shed drop l) (shed drop r)
  | .unary op e => .unary op (shed drop e)
  | .cond t y n => .cond (shed drop t) (shed drop y) (shed drop n)
  | .call m [] => .call m []
  | .call m (arg :: rest) =>
    if sheds drop m arg then shed drop arg else .call m (shed drop arg :: shedAll drop rest)
  | .lambda ps body => .lambda ps (shed drop body)
  | .new t members => .new t (shedMembers drop members)
  | .init t bindings => .init t (shedBindings drop bindings)

def shedAll (drop : Method → Bool) : List Expr → List Expr
  | [] => []
  | e :: rest => shed drop e :: shedAll drop rest

def shedMembers (drop : Method → Bool) : List (PropertyRef × Expr) → List (PropertyRef × Expr)
  | [] => []
  | (p, e) :: rest => (p, shed drop e) :: shedMembers drop rest

def shedBindings (drop : Method → Bool) : List Binding → List Binding
  | [] => []
  | .assign p e :: rest => .assign p (shed drop e) :: shedBindings drop rest
  | .list p es :: rest => .list p (shedAll drop es) :: shedBindings drop rest
end

/-- An expression without its loading hints for sources and operator calls. -/
def withoutHints (e : Expr) : Expr := e.shed fun _ => true

variable {drop : Method → Bool}

@[simp] lemma shed_lambda (ps : List Param) (body : Expr) :
    (Expr.lambda ps body).shed drop = .lambda ps (body.shed drop) := by rw [shed]

lemma shed_call_of_sheds {m : Method} {arg : Expr} {rest : List Expr} (h : sheds drop m arg = true) :
    (Expr.call m (arg :: rest)).shed drop = arg.shed drop := by rw [shed, if_pos h]

lemma shed_call_of_keeps {m : Method} {arg : Expr} {rest : List Expr} (h : sheds drop m arg = false) :
    (Expr.call m (arg :: rest)).shed drop = .call m (arg.shed drop :: shedAll drop rest) := by
  rw [shed, h, if_neg Bool.false_ne_true]

lemma shedAll_eq_map (es : List Expr) : shedAll drop es = es.map (shed drop) := by
  induction es with
  | nil => rw [shedAll, List.map_nil]
  | cons e es ih => rw [shedAll, ih, List.map_cons]

/-! ### What stays -/

lemma depth_pos (e : Expr) : 0 < e.depth := by cases e <;> simp [depth]

/-- A source or a call stays one of the two. -/
theorem isSourceOrCall_shed : ∀ e : Expr, e.isSourceOrCall = true →
    (e.shed drop).isSourceOrCall = true
  | .source _, _ => rfl
  | .call _ [], _ => rfl
  | .call m (arg :: rest), _ => by
    cases h : sheds drop m arg with
    | true =>
      rw [shed_call_of_sheds h]
      exact isSourceOrCall_shed arg (by grind [sheds])
    | false =>
      rw [shed_call_of_keeps h]
      rfl

lemma isSourceOrCall_shed_call (drop : Method → Bool) (m : Method) (args : List Expr) :
    ((Expr.call m args).shed drop).isSourceOrCall = true := isSourceOrCall_shed _ rfl

lemma isLambda_shed (e : Expr) : (e.shed drop).isLambda = e.isLambda := by
  cases e with
  | call m args =>
    have h := isSourceOrCall_shed_call drop m args
    generalize (Expr.call m args).shed drop = e at h
    cases e <;> first | rfl | cases h
  | _ => rfl

lemma memberPath?_shed : ∀ e : Expr, (e.shed drop).memberPath? = e.memberPath?
  | .member target p => by rw [shed, memberPath?, memberPath?, memberPath?_shed target]
  | .call m args => by
    have h := isSourceOrCall_shed_call drop m args
    generalize (Expr.call m args).shed drop = e at h
    cases e <;> first | rfl | cases h
  | .source _ | .const _ | .param _ | .key _ | .binary _ _ _ | .unary _ _ | .cond _ _ _
  | .lambda _ _ | .new _ _ | .init _ _ => rfl

/-- A hint has the type of what it is for. -/
lemma resultType_of_isLoadingHint {m : Method} (h : m.isLoadingHint = true) (receiver : TypeRef)
    (selector : Option TypeRef) : m.resultType receiver selector = receiver := by
  cases m <;> first | rfl | cases h

@[simp] theorem type_shed (e : Expr) : (e.shed drop).type = e.type := by
  fun_induction type e with
  | case18 m => rfl
  | case19 m receiver ps body rest ih ih' =>
    cases h : sheds drop m receiver with
    | true => rw [shed_call_of_sheds h, ih, resultType_of_isLoadingHint (by grind [sheds])]
    | false => rw [shed_call_of_keeps h, shedAll, shed_lambda, type, ih, ih']
  | case20 m receiver rest hrest ih =>
    cases h : sheds drop m receiver with
    | true => rw [shed_call_of_sheds h, ih, resultType_of_isLoadingHint (by grind [sheds])]
    | false =>
      rw [shed_call_of_keeps h, type_call_of_not_lambda, ih]
      intro f hf
      cases rest with
      | nil => cases hf
      | cons f' rest =>
        rw [shedAll, List.head?_cons, Option.mem_some_iff] at hf
        rw [← hf, isLambda_shed]
        cases f' with
        | lambda ps body => exact absurd rfl (hrest ps body rest)
        | _ => rfl
  | _ => simp_all [shed, type]

/-! ### No hints to take out -/

mutual
theorem shed_none : ∀ e : Expr, e.shed (fun _ => false) = e
  | .source _ | .const _ | .param _ | .call _ [] => rfl
  | .member e _ => by rw [shed, shed_none e]
  | .key e => by rw [shed, shed_none e]
  | .binary _ l r => by rw [shed, shed_none l, shed_none r]
  | .unary _ e => by rw [shed, shed_none e]
  | .cond t y n => by rw [shed, shed_none t, shed_none y, shed_none n]
  | .call m (arg :: rest) => by
    have h : sheds (fun _ => false) m arg = false := by simp [sheds]
    rw [shed_call_of_keeps h, shed_none arg, shedAll_none rest]
  | .lambda _ body => by rw [shed, shed_none body]
  | .new _ members => by rw [shed, shedMembers_none members]
  | .init _ bindings => by rw [shed, shedBindings_none bindings]

theorem shedAll_none : ∀ es : List Expr, shedAll (fun _ => false) es = es
  | [] => rfl
  | e :: es => by rw [shedAll, shed_none e, shedAll_none es]

theorem shedMembers_none : ∀ ms : List (PropertyRef × Expr), shedMembers (fun _ => false) ms = ms
  | [] => rfl
  | (_, e) :: ms => by rw [shedMembers, shed_none e, shedMembers_none ms]

theorem shedBindings_none : ∀ bs : List Binding, shedBindings (fun _ => false) bs = bs
  | [] => rfl
  | .assign _ e :: bs => by rw [shedBindings, shed_none e, shedBindings_none bs]
  | .list _ es :: bs => by rw [shedBindings, shedAll_none es, shedBindings_none bs]
end

/-! ### The hints of an expression -/

/-- The members that the lambda of a hint reads, from its parameter outwards. -/
def hintedPath : Expr → List PropertyRef
  | .member target p => hintedPath target ++ [p]
  | .call .first [arg] => hintedPath arg
  | _ => []

/-- The hint that a call gives, by what follows its receiver. -/
def hintOf (m : Method) : List Expr → LoadingHint
  | .lambda _ body :: _ => ⟨.ofMethod m, body.hintedPath⟩
  | _ => ⟨.ofMethod m, []⟩

def readsKey : Expr → Bool
  | .key _ => true
  | _ => false

end Expr

/-- Whether the rule of a method compiles the argument that follows the receiver. -/
def Method.compilesArgument (m : Method) : Bool :=
  !(m.isLoadingHint || m == .distinct || m == .delete || m == .useLeftJoin)

namespace Expr

mutual
/-- The hints that an expression may give, in order, each with whether `shed` keeps it. -/
def hintLogs (drop : Method → Bool) : Expr → Language (LoadingHint × Bool)
  | .source _ | .const _ | .param _ | .call _ [] => 1
  | .member target _ => hintLogs drop target
  | .key target => hintLogs drop target
  | .binary _ l r => hintLogs drop l * hintLogs drop r
  | .unary _ e => hintLogs drop e
  | .cond t y n => hintLogs drop t * (hintLogs drop y * hintLogs drop n)
  | .call m (arg :: rest) =>
    hintLogs drop arg *
      if m.isLoadingHint then {[(hintOf m rest, !sheds drop m arg)]}
      else if m.compilesArgument then hintLogsHead drop rest else 1
  | .lambda _ body => hintLogs drop body
  | .new _ members => hintLogsMembers drop members
  | .init _ bindings => hintLogsBindings drop bindings

/-- The hints of the argument that follows a receiver, if there is one. -/
def hintLogsHead (drop : Method → Bool) : List Expr → Language (LoadingHint × Bool)
  | [] => 1
  | f :: _ => hintLogs drop f

/-- The hints of the members of an object; a key may be compiled a second time. -/
def hintLogsMembers (drop : Method → Bool) :
    List (PropertyRef × Expr) → Language (LoadingHint × Bool)
  | [] => 1
  | (_, e) :: rest =>
    hintLogs drop e * (if e.readsKey then 1 + hintLogs drop e else 1) * hintLogsMembers drop rest

def hintLogsBindings (drop : Method → Bool) : List Binding → Language (LoadingHint × Bool)
  | [] => 1
  | .assign _ e :: rest =>
    hintLogs drop e * (if e.readsKey then 1 + hintLogs drop e else 1) * hintLogsBindings drop rest
  | .list _ _ :: rest => hintLogsBindings drop rest
end

end Expr

/-- The hints of a log that are kept. -/
def keptHints (log : List (LoadingHint × Bool)) : List LoadingHint :=
  (log.filter Prod.snd).map Prod.fst

@[simp] lemma keptHints_nil : keptHints [] = [] := rfl

@[simp] lemma keptHints_append (log log' : List (LoadingHint × Bool)) :
    keptHints (log ++ log') = keptHints log ++ keptHints log' := by simp [keptHints]

namespace Expr

/-- The logs of which all hints are kept. -/
def allKept : Language (LoadingHint × Bool) := {log | keptHints log = log.map Prod.fst}

lemma one_le_allKept : 1 ≤ allKept := fun log hlog => by
  obtain rfl := (Language.mem_one log).1 hlog
  exact keptHints_nil

lemma mul_le_allKept {L M : Language (LoadingHint × Bool)} (hL : L ≤ allKept) (hM : M ≤ allKept) :
    L * M ≤ allKept := by
  rintro _ ⟨log, hlog, log', hlog', rfl⟩
  have hkept : keptHints log = log.map Prod.fst := hL hlog
  have hkept' : keptHints log' = log'.map Prod.fst := hM hlog'
  change keptHints (log ++ log') = (log ++ log').map Prod.fst
  rw [keptHints_append, hkept, hkept', List.map_append]

lemma again_le_allKept {L : Language (LoadingHint × Bool)} (hL : L ≤ allKept) (again : Bool) :
    L * (if again then 1 + L else 1) ≤ allKept := by
  refine mul_le_allKept hL ?_
  split
  · rintro log (hlog | hlog)
    · exact one_le_allKept hlog
    · exact hL hlog
  · exact one_le_allKept

mutual
/-- Where no hint is taken out, all are kept. -/
theorem hintLogs_le_allKept : ∀ e : Expr, e.hintLogs (fun _ => false) ≤ allKept
  | .source _ | .const _ | .param _ | .call _ [] => one_le_allKept
  | .member e _ | .key e | .unary _ e | .lambda _ e => by
    rw [hintLogs]
    exact hintLogs_le_allKept e
  | .binary _ l r => by
    rw [hintLogs]
    exact mul_le_allKept (hintLogs_le_allKept l) (hintLogs_le_allKept r)
  | .cond t y n => by
    rw [hintLogs]
    exact mul_le_allKept (hintLogs_le_allKept t)
      (mul_le_allKept (hintLogs_le_allKept y) (hintLogs_le_allKept n))
  | .call m (arg :: rest) => by
    have hkeep : sheds (fun _ => false) m arg = false := by simp [sheds]
    rw [hintLogs, hkeep]
    refine mul_le_allKept (hintLogs_le_allKept arg) ?_
    split
    · rintro _ rfl
      rfl
    · split
      · exact hintLogsHead_le_allKept rest
      · exact one_le_allKept
  | .new _ members => by
    rw [hintLogs]
    exact hintLogsMembers_le_allKept members
  | .init _ bindings => by
    rw [hintLogs]
    exact hintLogsBindings_le_allKept bindings

theorem hintLogsHead_le_allKept : ∀ args : List Expr,
    hintLogsHead (fun _ => false) args ≤ allKept
  | [] => by rw [hintLogsHead]; exact one_le_allKept
  | f :: _ => by rw [hintLogsHead]; exact hintLogs_le_allKept f

theorem hintLogsMembers_le_allKept : ∀ members : List (PropertyRef × Expr),
    hintLogsMembers (fun _ => false) members ≤ allKept
  | [] => by rw [hintLogsMembers]; exact one_le_allKept
  | (_, e) :: rest => by
    rw [hintLogsMembers]
    exact mul_le_allKept (again_le_allKept (hintLogs_le_allKept e) _)
      (hintLogsMembers_le_allKept rest)

theorem hintLogsBindings_le_allKept : ∀ bindings : List Binding,
    hintLogsBindings (fun _ => false) bindings ≤ allKept
  | [] => by rw [hintLogsBindings]; exact one_le_allKept
  | .assign _ e :: rest => by
    rw [hintLogsBindings]
    exact mul_le_allKept (again_le_allKept (hintLogs_le_allKept e) _)
      (hintLogsBindings_le_allKept rest)
  | .list _ _ :: rest => by
    rw [hintLogsBindings]
    exact hintLogsBindings_le_allKept rest
end

end Expr

end EntityQuery
