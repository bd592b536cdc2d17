import EntityQuery.Expr.Codec
import Mathlib.Data.List.Basic
import Mathlib.Tactic.Lemma

/-!
Reading back the leaves of stored expressions.

* `Json.OneKey read` says that `read` takes an object for an alternative only if a single field
  names it; every reader of alternatives does.
* A unit alternative is written as its bare name, one with content as an object: a named method or
  a custom type is never mistaken for the plain one of the same name.
* Types are read back by induction on the type, each level taking one of the fuel that the nesting
  of the stored form gives.
* Integers, bytes, identities and texts are read back without a condition. A value is `Carried` if
  its double is finite and the text of its identifier, date or instant names it again.
-/

namespace EntityQuery

/-! ### Alternatives -/

namespace Json

variable {α β : Type}

/-- Whether a reader refuses every object that does not have exactly one field. -/
def OneKey (read : Json → Option α) : Prop :=
  ∀ fields : List (String × Json), fields.length ≠ 1 → read (.obj fields) = none

lemma tagged?_of_length {fields : List (String × Json)} (h : fields.length ≠ 1) :
    tagged? (.obj fields) = none := by
  match fields with
  | [] => rfl
  | [_] => exact absurd rfl h
  | _ :: _ :: _ => rfl

/-- A list whose items are each read back is read back. -/
lemma mapM_map_eq {write : α → β} {read : β → Option α} :
    ∀ {as : List α}, (∀ a ∈ as, read (write a) = some a) → (as.map write).mapM read = some as
  | [], _ => rfl
  | a :: as, h => by
    rw [List.map_cons, List.mapM_cons, h a List.mem_cons_self,
      mapM_map_eq fun b hb => h b (List.mem_cons_of_mem a hb)]
    rfl

lemma list?_map {write : α → Json} {read : Json → Option α} {as : List α}
    (h : ∀ a ∈ as, read (write a) = some a) :
    (Json.arr (as.map write)).list? read = some as := mapM_map_eq h

lemma depth_pos (j : Json) : 0 < j.depth := by cases j <;> simp [depth]

lemma hexValue?_hexDigit {n : Nat} (h : n < 16) : hexValue? (hexDigit n) = some n := by
  have all : ∀ n < 16, hexValue? (hexDigit n) = some n := by decide
  exact all n h

end Json

/-! ### Methods and operators -/

namespace Method

theorem ofJson?_toJson (m : Method) : ofJson? m.toJson = some m := by
  cases m with
  | named name => rfl
  | _ => decide +kernel

theorem oneKey_ofJson? : Json.OneKey ofJson? := fun fields h => by
  simp [ofJson?, Json.tagged?_of_length h]

end Method

namespace BinaryOperator

theorem ofJson?_name (op : BinaryOperator) : ofJson? (.str op.name) = some op := by
  cases op <;> decide +kernel

theorem oneKey_ofJson? : Json.OneKey ofJson? := fun fields h => by
  simp [ofJson?, Json.tagged?_of_length h]

end BinaryOperator

namespace UnaryOperator

theorem ofJson?_name (op : UnaryOperator) : ofJson? (.str op.name) = some op := by
  cases op <;> decide +kernel

theorem oneKey_ofJson? : Json.OneKey ofJson? := fun fields h => by
  simp [ofJson?, Json.tagged?_of_length h]

end UnaryOperator

/-! ### Types -/

namespace DataType

theorem ofJson?_toJson (t : DataType) : ofJson? t.toJson = some t := by
  cases t <;> rfl

theorem oneKey_ofJson? : Json.OneKey ofJson? := fun fields h => by
  simp [ofJson?, Json.tagged?_of_length h]

end DataType

namespace TypeRef

/-- Every level of a type takes one of the fuel. -/
lemma ofJsonWithin_toJson (t : TypeRef) :
    ∀ {fuel : Nat}, t.toJson.depth ≤ fuel → ofJsonWithin fuel t.toJson = some t := by
  induction t with
  | scalar t nullable =>
    rintro (_ | fuel) h
    · simp [toJson, Json.depth] at h
    · have ht : DataType.ofJson? t.toJson = some t := t.ofJson?_toJson
      simp [toJson, ofJsonWithin, Json.fields?, Json.lookup, Json.bool?, ht]
  | entity name | object name =>
    rintro (_ | fuel) h
    · simp [toJson, Json.depth] at h
    · rfl
  | collection t ih | query t ih =>
    rintro (_ | fuel) h
    · simp [toJson, Json.depth] at h
    · have ht := @ih fuel (by simpa [toJson, Json.depth, Json.depthFields] using h)
      simp [toJson, ofJsonWithin, ht]
  | grouping k t ihk iht =>
    rintro (_ | fuel) h
    · simp [toJson, Json.depth] at h
    · simp only [toJson, Json.depth, Json.depthFields] at h
      have hk := @ihk fuel (by omega)
      have ht := @iht fuel (by omega)
      simp [toJson, ofJsonWithin, Json.fields?, Json.lookup, hk, ht]

theorem ofJson?_toJson (t : TypeRef) : ofJson? t.toJson = some t :=
  t.ofJsonWithin_toJson (Nat.le_refl _)

theorem oneKey_ofJsonWithin (fuel : Nat) : Json.OneKey (ofJsonWithin fuel) := by
  intro fields h
  match fuel, fields with
  | 0, _ => rfl
  | _ + 1, [] => rfl
  | _ + 1, [_] => exact absurd rfl h
  | _ + 1, _ :: _ :: _ => rfl

theorem oneKey_ofJson? : Json.OneKey ofJson? := fun fields h =>
  oneKey_ofJsonWithin (Json.obj fields).depth fields h

end TypeRef

theorem PropertyRef.ofJson?_toJson (p : PropertyRef) : ofJson? p.toJson = some p := by
  have ht := p.type.ofJson?_toJson
  simp [toJson, ofJson?, Json.record?, Json.fields?, Json.lookup, Json.str?, ht]

/-! ### Parameters -/

namespace Param

lemma id?_toNat (i : ParamId) : id? (.int i.val.toNat) = some i := by
  have h : i.val.toNat < UInt64.size := i.val.toNat_lt
  simp [id?, Json.nat?, h]

theorem ofJson?_toJson (p : Param) : ofJson? p.toJson = some p := by
  have hi := id?_toNat p.id
  have ht := p.type.ofJson?_toJson
  simp [toJson, ofJson?, Json.record?, Json.fields?, Json.lookup, Json.str?, hi, ht]

end Param

/-! ### Identifiers -/

namespace Uuid

/-- The value of the last digits of a number, the most significant first. -/
lemma foldl_digits (k : Nat) :
    ∀ n : Nat, ((List.range k).map fun i => n / Nat.pow 16 (k - 1 - i) % 16).foldl
      (fun n d => 16 * n + d) 0 = n % Nat.pow 16 k := by
  induction k with
  | zero => intro n; simp [Nat.mod_one]
  | succ k ih =>
    intro n
    have hinit : ((List.range k).map fun i => n / Nat.pow 16 (k + 1 - 1 - i) % 16) =
        (List.range k).map fun i => n / 16 / Nat.pow 16 (k - 1 - i) % 16 := by
      refine List.map_congr_left fun i hi => ?_
      have hpow : Nat.pow 16 (k + 1 - 1 - i) = 16 * Nat.pow 16 (k - 1 - i) := by
        rw [show k + 1 - 1 - i = k - 1 - i + 1 by have := List.mem_range.1 hi; omega]
        exact Nat.pow_succ'
      rw [hpow, Nat.div_div_eq_div_mul]
    rw [List.range_succ, List.map_append, List.foldl_append, hinit, ih]
    have hlast : n / Nat.pow 16 (k + 1 - 1 - k) = n := by simp
    simp only [List.map_cons, List.map_nil, List.foldl_cons, List.foldl_nil, hlast]
    have := Nat.mod_mul (x := n) (a := 16) (b := Nat.pow 16 k)
    rw [show Nat.pow 16 (k + 1) = 16 * Nat.pow 16 k from Nat.pow_succ']
    omega

@[simp] lemma length_digits (u : Uuid) : u.digits.length = 32 := by simp [digits]

lemma ofDigits?_digits (u : Uuid) : ofDigits? u.digits = some u := by
  have hread : u.digits.mapM Json.hexValue? =
      some ((List.range 32).map fun i => u.bits.toNat / Nat.pow 16 (31 - i) % 16) := by
    unfold digits
    rw [← Function.comp_def Json.hexDigit, ← List.map_map]
    refine Json.mapM_map_eq fun n hn => ?_
    obtain ⟨i, -, rfl⟩ := List.mem_map.1 hn
    exact Json.hexValue?_hexDigit (Nat.mod_lt _ (by omega))
  have hvalue := foldl_digits 32 u.bits.toNat
  have hbits : u.bits.toNat % Nat.pow 16 32 = u.bits.toNat := Nat.mod_eq_of_lt u.bits.isLt
  rw [ofDigits?, if_pos u.length_digits, hread, Option.map_some, hvalue, hbits, BitVec.ofNat_toNat,
    BitVec.setWidth_eq]

/-- What stands between the hyphens is put together again. -/
lemma ofHyphenated?_groups {a b c d e : List Char} (ha : a.length = 8) (hb : b.length = 4)
    (hc : c.length = 4) (hd : d.length = 4) (he : e.length = 12) :
    ofHyphenated? (a ++ '-' :: (b ++ '-' :: (c ++ '-' :: (d ++ '-' :: e)))) =
      ofDigits? (a ++ (b ++ (c ++ (d ++ e)))) := by
  simp [ofHyphenated?, List.drop_append, List.drop_of_length_le, ha, hb, hc, hd,
    he]

theorem ofText?_text (u : Uuid) : ofText? u.text = some u := by
  have htext : u.text.toList = u.digits.take 8 ++ '-' :: ((u.digits.drop 8).take 4 ++ '-' ::
      ((u.digits.drop 12).take 4 ++ '-' :: ((u.digits.drop 16).take 4 ++ '-' ::
        (u.digits.drop 20).take 12))) := by
    simp [text]
  have hlength : u.text.toList.length = 36 := by simp [htext]
  have hgroups : u.digits.take 8 ++ ((u.digits.drop 8).take 4 ++ ((u.digits.drop 12).take 4 ++
      ((u.digits.drop 16).take 4 ++ (u.digits.drop 20).take 12))) = u.digits := by
    have part (n k : Nat) :
        (u.digits.drop n).take k ++ u.digits.drop (n + k) = u.digits.drop n := by
      rw [← List.drop_drop, List.take_append_drop]
    rw [List.take_of_length_le (i := 12) (by simp), part 16 4, part 12 4, part 8 4,
      List.take_append_drop]
  simp only [ofText?, hlength]
  rw [htext, ofHyphenated?_groups (by simp) (by simp) (by simp) (by simp) (by simp), hgroups,
    ofDigits?_digits]
end Uuid

/-! ### Values -/

namespace Value

lemma readInt?_toInt (i : Int64) : readInt? (.int i.toInt) = some i := by
  rw [readInt?, Json.int?, Option.bind_some, int64?, if_pos ⟨i.minValue_le_toInt, i.toInt_le⟩,
    Int64.ofInt_toInt]

lemma byte?_toNat (b : UInt8) : byte? (.int b.toNat) = some b := by
  have h : b.toNat < 256 := b.toNat_lt
  simp [byte?, Json.nat?, h]

/-- Whether the leaf codecs give a value's content back: its double is finite, and the text of its
date or instant names it again. -/
def Carried : Value → Prop
  | .float x => (x.isNaN || x.isInfinite) = false
  | .date d => Date.ofText? d.text = some d
  | .timestamp t => Timestamp.ofText? t.zuluText = some t
  | _ => True

instance : DecidablePred Carried := fun v =>
  match v with
  | .float x => inferInstanceAs (Decidable ((x.isNaN || x.isInfinite) = false))
  | .date d => inferInstanceAs (Decidable (Date.ofText? d.text = some d))
  | .timestamp t => inferInstanceAs (Decidable (Timestamp.ofText? t.zuluText = some t))
  | .int _ | .string _ | .boolean _ | .json _ | .uuid _ | .bytes _ | .null =>
    inferInstanceAs (Decidable True)

theorem ofJson?_toJson {v : Value} (h : v.Carried) : ofJson? v.toJson = some v := by
  cases v with
  | int i => simp [toJson, ofJson?, Json.tagged?, ofTagged?, readInt?_toInt]
  | float x =>
    have hx : (x.isNaN || x.isInfinite) = false := h
    simp [toJson, ofJson?, Json.tagged?, ofTagged?, double?, hx]
  | string s => rfl
  | boolean b => rfl
  | json j => rfl
  | uuid u => simp [toJson, ofJson?, Json.tagged?, ofTagged?, Json.str?, u.ofText?_text]
  | bytes bs =>
    have hbs : (Json.arr (bs.map fun b => .int b.toNat)).list? byte? = some bs :=
      Json.list?_map fun b _ => byte?_toNat b
    simp [toJson, ofJson?, Json.tagged?, ofTagged?, hbs]
  | date d =>
    have hd : Date.ofText? d.text = some d := h
    simp [toJson, ofJson?, Json.tagged?, ofTagged?, Json.str?, hd]
  | timestamp t =>
    have ht : Timestamp.ofText? t.zuluText = some t := h
    simp [toJson, ofJson?, Json.tagged?, ofTagged?, Json.str?, ht]
  | null => rfl

theorem oneKey_ofJson? : Json.OneKey ofJson? := fun fields h => by
  simp [ofJson?, Json.tagged?_of_length h]

end Value

/-! ### Literals -/

namespace Literal

/-- The values of a literal. -/
def values : Literal → List Value
  | .value v => [v]
  | .list vs => vs
  | .entity _ fields => fields.map Prod.snd

theorem ofJson?_toJson {l : Literal} (h : ∀ v ∈ l.values, v.Carried) :
    ofJson? l.toJson = some l := by
  cases l with
  | value v =>
    have hv := Value.ofJson?_toJson (h v (by simp [values]))
    simp [toJson, ofJson?, hv]
  | list vs =>
    have hvs : (Json.arr (vs.map Value.toJson)).list? Value.ofJson? = some vs :=
      Json.list?_map fun v hv => Value.ofJson?_toJson (h v hv)
    simp [toJson, ofJson?, hvs]
  | entity name fields =>
    have hfs : (Json.arr (fields.map fun f => .arr [.str f.1, f.2.toJson])).list?
        (Json.pair? Json.str? Value.ofJson?) = some fields :=
      Json.list?_map fun f hf => by
        have hv := Value.ofJson?_toJson (h f.2 (List.mem_map_of_mem hf))
        simp [Json.pair?, Json.str?, hv]
    simp [toJson, ofJson?, Json.fields?, Json.lookup, Json.str?, hfs]

theorem oneKey_ofJson? : Json.OneKey ofJson? := by
  intro fields h
  match fields with
  | [] => rfl
  | [_] => exact absurd rfl h
  | _ :: _ :: _ => simp [ofJson?]

end Literal

end EntityQuery
