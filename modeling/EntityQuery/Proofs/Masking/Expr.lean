import EntityQuery.Expr.Typing
import Mathlib.Tactic.Lemma

/-!
Expressions without the contents of their constants.

* `mask` puts a fixed value of the same variant in place of every constant: two expressions have
  one mask if they differ in the contents of constants only. A null stays a null, and the row counts
  of `Skip` and `Take` stay as they are.
* Everything static about an expression (its type, its depth, the path it reads) is the same for
  its mask.
-/

namespace EntityQuery

/-! ### Values -/

/-- The variants of values. -/
inductive Variant where
  | int
  | float
  | string
  | boolean
  | json
  | uuid
  | bytes
  | date
  | timestamp
  | null
  deriving DecidableEq, Repr

/-- A value of a variant. -/
def Variant.sample : Variant → Value
  | .int => .int 0
  | .float => .float default
  | .string => .string ""
  | .boolean => .boolean false
  | .json => .json default
  | .uuid => .uuid default
  | .bytes => .bytes []
  | .date => .date default
  | .timestamp => .timestamp default
  | .null => .null

namespace Value

def variant : Value → Variant
  | .int _ => .int
  | .float _ => .float
  | .string _ => .string
  | .boolean _ => .boolean
  | .json _ => .json
  | .uuid _ => .uuid
  | .bytes _ => .bytes
  | .date _ => .date
  | .timestamp _ => .timestamp
  | .null => .null

/-- A value without its contents. -/
def mask (v : Value) : Value := v.variant.sample

@[simp] lemma variant_mask (v : Value) : v.mask.variant = v.variant := by cases v <;> rfl

@[simp] lemma isNull_mask (v : Value) : v.mask.isNull = v.isNull := by cases v <;> rfl

@[simp] lemma dataType_mask (v : Value) : v.mask.dataType = v.dataType := by cases v <;> rfl

@[simp] lemma mask_mask (v : Value) : v.mask.mask = v.mask := by cases v <;> rfl

end Value

/-! ### Literals -/

namespace Literal

def mask : Literal → Literal
  | .value v => .value v.mask
  | .list vs => .list (vs.map Value.mask)
  | .entity name fields => .entity name (fields.map fun f => (f.1, f.2.mask))

@[simp] lemma type_mask (l : Literal) : l.mask.type = l.type := by
  cases l with
  | value v => simp [mask, type]
  | list vs =>
    have hfind : (vs.map Value.mask).find? (fun v => !v.isNull) =
        (vs.find? fun v => !v.isNull).map Value.mask := by
      rw [List.find?_map]
      congr 2
      funext v
      simp
    simp only [mask, type, hfind]
    cases vs.find? fun v => !v.isNull <;> simp
  | entity name fields => rfl

end Literal

/-! ### Expressions -/

/-- The operators that take a number of rows. -/
def Method.isPaging : Method → Bool
  | .skip | .take => true
  | _ => false

namespace Expr

/-- The number of rows that an argument of `Skip` or `Take` states. -/
def count? : Expr → Option Int64
  | .const (.value (.int i)) => some i
  | _ => none

mutual
/-- An expression without the contents of its constants. -/
def mask : Expr → Expr
  | .source entity => .source entity
  | .const l => .const l.mask
  | .param p => .param p
  | .member target p => .member (mask target) p
  | .key target => .key (mask target)
  | .binary op l r => .binary op (mask l) (mask r)
  | .unary op e => .unary op (mask e)
  | .cond t y n => .cond (mask t) (mask y) (mask n)
  | .call m args => .call m (if m.isPaging then maskPaged args else maskAll args)
  | .lambda ps body => .lambda ps (mask body)
  | .new t members => .new t (maskMembers members)
  | .init t bindings => .init t (maskBindings bindings)

def maskAll : List Expr → List Expr
  | [] => []
  | e :: rest => mask e :: maskAll rest

/-- The arguments of `Skip` and `Take`: a number of rows in second place stays. -/
def maskPaged : List Expr → List Expr
  | [] => []
  | [e] => [mask e]
  | e :: count :: rest =>
    mask e :: (if count.count?.isSome then count else mask count) :: maskAll rest

def maskMembers : List (PropertyRef × Expr) → List (PropertyRef × Expr)
  | [] => []
  | (p, e) :: rest => (p, mask e) :: maskMembers rest

def maskBindings : List Binding → List Binding
  | [] => []
  | .assign p e :: rest => .assign p (mask e) :: maskBindings rest
  | .list p es :: rest => .list p (maskAll es) :: maskBindings rest
end

/-- The arguments of a call without the contents of their constants. -/
def maskArgs (m : Method) (args : List Expr) : List Expr :=
  if m.isPaging then maskPaged args else maskAll args

end Expr

def Binding.mask : Binding → Binding
  | .assign p e => .assign p e.mask
  | .list p es => .list p (Expr.maskAll es)

namespace Expr

lemma maskMembers_eq (ms : List (PropertyRef × Expr)) :
    maskMembers ms = ms.map fun m => (m.1, m.2.mask) := by
  induction ms with
  | nil => rfl
  | cons m ms ih => rw [maskMembers, ih, List.map_cons]

/-! ### Arguments -/

lemma isLambda_mask (e : Expr) : e.mask.isLambda = e.isLambda := by cases e <;> rfl

lemma mask_call (m : Method) (args : List Expr) :
    mask (.call m args) = .call m (maskArgs m args) := by rw [mask, maskArgs]

/-- An argument after the receiver: the number of rows of `Skip` and `Take` stays. -/
def maskSecond (m : Method) (e : Expr) : Expr :=
  if m.isPaging && e.count?.isSome then e else e.mask

lemma maskArgs_nil (m : Method) : maskArgs m [] = [] := by
  simp [maskArgs, maskPaged, maskAll]

lemma maskArgs_cons (m : Method) (receiver : Expr) (rest : List Expr) :
    ∃ rest', maskArgs m (receiver :: rest) = receiver.mask :: rest' ∧
      rest'.head? = rest.head?.map (maskSecond m) := by
  cases hm : m.isPaging with
  | false =>
    refine ⟨maskAll rest, by simp [maskArgs, hm, maskAll], ?_⟩
    cases rest <;> simp [maskAll, maskSecond, hm]
  | true =>
    cases rest with
    | nil => exact ⟨[], by simp [maskArgs, hm, maskPaged], rfl⟩
    | cons e rest =>
      exact ⟨_, by rw [maskArgs, if_pos hm, maskPaged], by simp [maskSecond, hm]⟩

lemma isLambda_maskSecond (m : Method) (e : Expr) : (maskSecond m e).isLambda = e.isLambda := by
  rw [maskSecond]
  split
  · rfl
  · exact isLambda_mask e

/-- What states no number of rows states none without its contents. -/
lemma count?_mask {e : Expr} (h : e.count? = none) : e.mask.count? = none := by
  match e with
  | .const (.value v) => cases v <;> first | rfl | cases h
  | .const (.list _) | .const (.entity _ _) => rfl
  | .source _ | .param _ | .member _ _ | .key _ | .binary _ _ _ | .unary _ _ | .cond _ _ _
  | .call _ _ | .lambda _ _ | .new _ _ | .init _ _ => rfl

lemma maskSecond_lambda (m : Method) (ps : List Param) (body : Expr) :
    maskSecond m (.lambda ps body) = .lambda ps body.mask := by
  simp [maskSecond, count?, mask]

lemma maskArgs_second (m : Method) (args : List Expr) :
    (maskArgs m args)[1]? = args[1]?.map (maskSecond m) := by
  cases args with
  | nil => rw [maskArgs_nil]; rfl
  | cons receiver rest =>
    obtain ⟨rest', hargs, hhead⟩ := maskArgs_cons m receiver rest
    rw [hargs]
    simpa [List.head?_eq_getElem?] using hhead

/-! ### What a mask keeps -/

mutual
theorem depth_mask : ∀ e : Expr, e.mask.depth = e.depth
  | .source _ | .const _ | .param _ => rfl
  | .member e _ => by simp [mask, depth, depth_mask e]
  | .key e => by simp [mask, depth, depth_mask e]
  | .binary _ l r => by simp [mask, depth, depth_mask l, depth_mask r]
  | .unary _ e => by simp [mask, depth, depth_mask e]
  | .cond t y n => by simp [mask, depth, depth_mask t, depth_mask y, depth_mask n]
  | .call m args => by
    simp only [mask, depth]
    split
    · rw [depthAll_maskPaged args]
    · rw [depthAll_maskAll args]
  | .lambda _ body => by simp [mask, depth, depth_mask body]
  | .new _ members => by simp [mask, depth, depthMembers_mask members]
  | .init _ bindings => by simp [mask, depth, depthBindings_mask bindings]

theorem depthAll_maskAll : ∀ es : List Expr, depthAll (maskAll es) = depthAll es
  | [] => rfl
  | e :: es => by simp [maskAll, depthAll, depth_mask e, depthAll_maskAll es]

theorem depthAll_maskPaged : ∀ es : List Expr, depthAll (maskPaged es) = depthAll es
  | [] => rfl
  | [e] => by simp [maskPaged, depthAll, depth_mask e]
  | e :: count :: rest => by
    have hcount : depth (if count.count?.isSome then count else mask count) = depth count := by
      split
      · rfl
      · exact depth_mask count
    simp [maskPaged, depthAll, depth_mask e, hcount, depthAll_maskAll rest]

theorem depthMembers_mask : ∀ ms : List (PropertyRef × Expr),
    depthMembers (maskMembers ms) = depthMembers ms
  | [] => rfl
  | (_, e) :: ms => by simp [maskMembers, depthMembers, depth_mask e, depthMembers_mask ms]

theorem depthBindings_mask : ∀ bs : List Binding, depthBindings (maskBindings bs) = depthBindings bs
  | [] => rfl
  | .assign _ e :: bs => by
    simp [maskBindings, depthBindings, depth_mask e, depthBindings_mask bs]
  | .list _ es :: bs => by
    simp [maskBindings, depthBindings, depthAll_maskAll es, depthBindings_mask bs]
end

lemma memberPath?_mask : ∀ e : Expr, e.mask.memberPath? = e.memberPath?
  | .member target _ => by simp [mask, memberPath?, memberPath?_mask target]
  | .source _ | .const _ | .param _ | .key _ | .binary _ _ _ | .unary _ _ | .cond _ _ _
  | .call _ _ | .lambda _ _ | .new _ _ | .init _ _ => rfl

lemma type_call_of_not_lambda {m : Method} {receiver : Expr} {rest : List Expr}
    (h : ∀ f ∈ rest.head?, f.isLambda = false) :
    (call m (receiver :: rest)).type = m.resultType receiver.type none := by
  match rest with
  | [] => rfl
  | .lambda _ _ :: _ => simp [isLambda] at h
  | .source _ :: _ | .const _ :: _ | .param _ :: _ | .member _ _ :: _ | .key _ :: _
  | .binary _ _ _ :: _ | .unary _ _ :: _ | .cond _ _ _ :: _ | .call _ _ :: _ | .new _ _ :: _
  | .init _ _ :: _ => rfl

@[simp] theorem type_mask (e : Expr) : e.mask.type = e.type := by
  fun_induction type e with
  | case18 m => rw [mask_call, maskArgs_nil, type]
  | case19 m receiver ps body rest ih ih' =>
    obtain ⟨rest', hargs, hhead⟩ := maskArgs_cons m receiver (.lambda ps body :: rest)
    rw [List.head?_cons, Option.map_some, maskSecond_lambda] at hhead
    obtain ⟨tail, rfl⟩ := List.head?_eq_some_iff.1 hhead
    rw [mask_call, hargs, type, ih, ih']
  | case20 m receiver rest hrest ih =>
    obtain ⟨rest', hargs, hhead⟩ := maskArgs_cons m receiver rest
    have hnot : ∀ f ∈ rest'.head?, f.isLambda = false := by
      intro f hf
      rw [hhead] at hf
      obtain ⟨f', hf', rfl⟩ := Option.map_eq_some_iff.1 hf
      rw [isLambda_maskSecond]
      cases f' with
      | lambda ps body =>
        obtain ⟨tail, rfl⟩ := List.head?_eq_some_iff.1 hf'
        exact absurd rfl (hrest ps body tail)
      | _ => rfl
    rw [mask_call, hargs, type_call_of_not_lambda hnot, ih]
  | _ => simp_all [mask, type]

end Expr

end EntityQuery
