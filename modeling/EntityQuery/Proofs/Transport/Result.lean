import EntityQuery.Proofs.Transport.Values

/-!
Expressions survive their stored form.

* `Expr.values` are the values of an expression's constants. Reading what was written gives the
  expression back if they are all `Carried`: structurally the same, so that parameters keep their
  identities, and properties and parameters their static types, which `Expr.equals` does not look
  at.
* Reading goes level by level. The lemmas on `ofTagged?` and `binding?` say for each form what one
  level gives if its parts are read back; the induction over the expression supplies the parts, and
  the nesting of the stored form the fuel.
-/

namespace EntityQuery

namespace Expr

section Levels

variable {expr : Json → Option Expr}

/-! ### One level of a path -/

lemma ofTagged?_key {e : Expr} (h : expr e.toJson = some e) :
    ofTagged? expr "Key" e.toJson = some (.key e) := by
  simp [ofTagged?, h]

lemma ofTagged?_member {e : Expr} (p : PropertyRef) (h : expr e.toJson = some e) :
    ofTagged? expr "Member" (.obj [("target", e.toJson), ("property", p.toJson)]) =
      some (.member e p) := by
  have hp := p.ofJson?_toJson
  simp [ofTagged?, ofFields?, Json.fields?, Json.lookup, h, hp]

/-! ### The values of an expression -/

mutual
/-- The values of the constants of an expression. -/
def values : Expr → List Value
  | .source _ | .param _ => []
  | .const l => l.values
  | .member e _ => values e
  | .key e => values e
  | .binary _ l r => values l ++ values r
  | .unary _ e => values e
  | .cond t y n => values t ++ (values y ++ values n)
  | .call _ args => valuesAll args
  | .lambda _ body => values body
  | .new _ members => valuesMembers members
  | .init _ bindings => valuesBindings bindings

def valuesAll : List Expr → List Value
  | [] => []
  | e :: rest => values e ++ valuesAll rest

def valuesMembers : List (PropertyRef × Expr) → List Value
  | [] => []
  | (_, e) :: rest => values e ++ valuesMembers rest

def valuesBindings : List Binding → List Value
  | [] => []
  | .assign _ e :: rest => values e ++ valuesBindings rest
  | .list _ es :: rest => valuesAll es ++ valuesBindings rest
end

/-! ### One level with several parts -/

lemma ofTagged?_binary (op : BinaryOperator) {l r : Expr} (hl : expr l.toJson = some l)
    (hr : expr r.toJson = some r) :
    ofTagged? expr "Binary"
      (.obj [("op", .str op.name), ("left", l.toJson), ("right", r.toJson)]) =
      some (.binary op l r) := by
  have hop := op.ofJson?_name
  simp [ofTagged?, ofFields?, Json.fields?, Json.lookup, hl, hr, hop]

lemma ofTagged?_unary (op : UnaryOperator) {e : Expr} (h : expr e.toJson = some e) :
    ofTagged? expr "Unary" (.obj [("op", .str op.name), ("operand", e.toJson)]) =
      some (.unary op e) := by
  have hop := op.ofJson?_name
  simp [ofTagged?, ofFields?, Json.fields?, Json.lookup, h, hop]

lemma ofTagged?_cond {t y n : Expr} (ht : expr t.toJson = some t) (hy : expr y.toJson = some y)
    (hn : expr n.toJson = some n) :
    ofTagged? expr "Conditional"
      (.obj [("test", t.toJson), ("if_true", y.toJson), ("if_false", n.toJson)]) =
      some (.cond t y n) := by
  simp [ofTagged?, ofFields?, Json.fields?, Json.lookup, ht, hy, hn]

lemma ofTagged?_call (m : Method) {args : List Expr}
    (h : (toJsonAll args).mapM expr = some args) :
    ofTagged? expr "Call" (.obj [("method", m.toJson), ("args", .arr (toJsonAll args))]) =
      some (.call m args) := by
  have hm := m.ofJson?_toJson
  simp [ofTagged?, ofFields?, Json.fields?, Json.lookup, Json.list?, h, hm]

lemma ofTagged?_lambda (ps : List Param) {body : Expr} (h : expr body.toJson = some body) :
    ofTagged? expr "Lambda" (.obj [("params", .arr (ps.map Param.toJson)), ("body", body.toJson)]) =
      some (.lambda ps body) := by
  have hps : (Json.arr (ps.map Param.toJson)).list? Param.ofJson? = some ps :=
    Json.list?_map fun p _ => p.ofJson?_toJson
  simp [ofTagged?, Json.record?, Json.fields?, Json.lookup, h, hps]

lemma ofTagged?_new (type : String) {ms : List (PropertyRef × Expr)}
    (h : (toJsonMembers ms).mapM (Json.pair? PropertyRef.ofJson? expr) = some ms) :
    ofTagged? expr "New" (.obj [("ty", .str type), ("members", .arr (toJsonMembers ms))]) =
      some (.new type ms) := by
  simp [ofTagged?, ofFields?, Json.fields?, Json.lookup, Json.str?, Json.list?, h]

lemma ofTagged?_init (type : String) {bs : List Binding}
    (h : (toJsonBindings bs).mapM (binding? expr) = some bs) :
    ofTagged? expr "MemberInit" (.obj [("ty", .str type), ("bindings", .arr (toJsonBindings bs))]) =
      some (.init type bs) := by
  simp [ofTagged?, ofFields?, Json.fields?, Json.lookup, Json.str?, Json.list?, h]

lemma pair?_member (p : PropertyRef) {e : Expr} (h : expr e.toJson = some e) :
    Json.pair? PropertyRef.ofJson? expr (.arr [p.toJson, e.toJson]) = some (p, e) := by
  simp [Json.pair?, p.ofJson?_toJson, h]

lemma binding?_assign (p : PropertyRef) {e : Expr} (h : expr e.toJson = some e) :
    binding? expr (.obj [("Assign", .obj [("member", p.toJson), ("value", e.toJson)])]) =
      some (.assign p e) := by
  simp [binding?, Json.fields?, Json.lookup, p.ofJson?_toJson, h]

lemma binding?_list (p : PropertyRef) {es : List Expr}
    (h : (toJsonAll es).mapM expr = some es) :
    binding? expr (.obj [("List", .obj [("member", p.toJson), ("items", .arr (toJsonAll es))])]) =
      some (.list p es) := by
  simp [binding?, Json.fields?, Json.lookup, Json.list?, p.ofJson?_toJson, h]

theorem oneKey_binding? : Json.OneKey (binding? expr) := by
  intro fields h
  match fields with
  | [] => rfl
  | [_] => exact absurd rfl h
  | _ :: _ :: _ => simp [binding?]

end Levels

/-! ### All levels -/

mutual
/-- What nests no deeper than the fuel is read back. -/
theorem ofJsonWithin_toJson : ∀ {fuel : Nat} (e : Expr), (∀ v ∈ e.values, v.Carried) →
    e.toJson.depth ≤ fuel → ofJsonWithin fuel e.toJson = some e
  | 0, e, _, h => by have := e.toJson.depth_pos; omega
  | fuel + 1, .source _, _, _ => rfl
  | fuel + 1, .const l, hv, _ => by
    simp [toJson, ofJsonWithin, ofTagged?, Literal.ofJson?_toJson hv]
  | fuel + 1, .param p, _, _ => by
    simp [toJson, ofJsonWithin, ofTagged?, p.ofJson?_toJson]
  | fuel + 1, .member e p, hv, h => by
    simp only [toJson, Json.depth, Json.depthFields] at h
    exact ofTagged?_member p (ofJsonWithin_toJson e hv (by omega))
  | fuel + 1, .key e, hv, h => by
    simp only [toJson, Json.depth, Json.depthFields] at h
    exact ofTagged?_key (ofJsonWithin_toJson e hv (by omega))
  | fuel + 1, .binary op l r, hv, h => by
    simp only [values, List.forall_mem_append] at hv
    simp only [toJson, Json.depth, Json.depthFields] at h
    exact ofTagged?_binary op (ofJsonWithin_toJson l hv.1 (by omega))
      (ofJsonWithin_toJson r hv.2 (by omega))
  | fuel + 1, .unary op e, hv, h => by
    simp only [toJson, Json.depth, Json.depthFields] at h
    exact ofTagged?_unary op (ofJsonWithin_toJson e hv (by omega))
  | fuel + 1, .cond t y n, hv, h => by
    simp only [values, List.forall_mem_append] at hv
    simp only [toJson, Json.depth, Json.depthFields] at h
    exact ofTagged?_cond (ofJsonWithin_toJson t hv.1 (by omega))
      (ofJsonWithin_toJson y hv.2.1 (by omega)) (ofJsonWithin_toJson n hv.2.2 (by omega))
  | fuel + 1, .call m args, hv, h => by
    simp only [toJson, Json.depth, Json.depthFields] at h
    exact ofTagged?_call m (mapM_toJsonAll args hv (by omega))
  | fuel + 1, .lambda ps body, hv, h => by
    simp only [toJson, Json.depth, Json.depthFields] at h
    exact ofTagged?_lambda ps (ofJsonWithin_toJson body hv (by omega))
  | fuel + 1, .new type ms, hv, h => by
    simp only [toJson, Json.depth, Json.depthFields] at h
    exact ofTagged?_new type (mapM_toJsonMembers ms hv (by omega))
  | fuel + 1, .init type bs, hv, h => by
    simp only [toJson, Json.depth, Json.depthFields] at h
    exact ofTagged?_init type (mapM_toJsonBindings bs hv (by omega))

theorem mapM_toJsonAll : ∀ {fuel : Nat} (es : List Expr), (∀ v ∈ valuesAll es, v.Carried) →
    Json.depthItems (toJsonAll es) ≤ fuel →
      (toJsonAll es).mapM (ofJsonWithin fuel) = some es
  | _, [], _, _ => rfl
  | _, e :: es, hv, h => by
    simp only [valuesAll, List.forall_mem_append] at hv
    simp only [toJsonAll, Json.depthItems] at h
    rw [toJsonAll, List.mapM_cons, ofJsonWithin_toJson e hv.1 (by omega),
      mapM_toJsonAll es hv.2 (by omega)]
    rfl

theorem mapM_toJsonMembers : ∀ {fuel : Nat} (ms : List (PropertyRef × Expr)),
    (∀ v ∈ valuesMembers ms, v.Carried) → Json.depthItems (toJsonMembers ms) ≤ fuel →
      (toJsonMembers ms).mapM (Json.pair? PropertyRef.ofJson? (ofJsonWithin fuel)) = some ms
  | _, [], _, _ => rfl
  | _, (p, e) :: ms, hv, h => by
    simp only [valuesMembers, List.forall_mem_append] at hv
    simp only [toJsonMembers, Json.depthItems, Json.depth] at h
    rw [toJsonMembers, List.mapM_cons,
      pair?_member p (ofJsonWithin_toJson e hv.1 (by omega)),
      mapM_toJsonMembers ms hv.2 (by omega)]
    rfl

theorem mapM_toJsonBindings : ∀ {fuel : Nat} (bs : List Binding),
    (∀ v ∈ valuesBindings bs, v.Carried) → Json.depthItems (toJsonBindings bs) ≤ fuel →
      (toJsonBindings bs).mapM (binding? (ofJsonWithin fuel)) = some bs
  | _, [], _, _ => rfl
  | _, .assign p e :: bs, hv, h => by
    simp only [valuesBindings, List.forall_mem_append] at hv
    simp only [toJsonBindings, Json.depthItems, Json.depth, Json.depthFields] at h
    rw [toJsonBindings, List.mapM_cons,
      binding?_assign p (ofJsonWithin_toJson e hv.1 (by omega)),
      mapM_toJsonBindings bs hv.2 (by omega)]
    rfl
  | _, .list p es :: bs, hv, h => by
    simp only [valuesBindings, List.forall_mem_append] at hv
    simp only [toJsonBindings, Json.depthItems, Json.depth, Json.depthFields] at h
    rw [toJsonBindings, List.mapM_cons,
      binding?_list p (mapM_toJsonAll es hv.1 (by omega)),
      mapM_toJsonBindings bs hv.2 (by omega)]
    rfl
end

/-! ### The whole expression -/

theorem oneKey_ofJsonWithin (fuel : Nat) : Json.OneKey (ofJsonWithin fuel) := by
  intro fields h
  match fuel, fields with
  | 0, _ => rfl
  | _ + 1, [] => rfl
  | _ + 1, [_] => exact absurd rfl h
  | _ + 1, _ :: _ :: _ => rfl

/-- **An expression survives its stored form**: reading what was written gives back the same
expression, with the identities of its parameters and the types of its parameters and properties.
On whatever level it stands, an object without alternatives or with several of them is refused. -/
theorem read_written (e : Expr) (h : ∀ v ∈ e.values, v.Carried) :
    ofJson? e.toJson = some e ∧
      (∀ fuel, Json.OneKey (ofJsonWithin fuel)) ∧ (∀ expr, Json.OneKey (binding? expr)) ∧
      Json.OneKey Literal.ofJson? ∧ Json.OneKey Value.ofJson? ∧ Json.OneKey Method.ofJson? ∧
      Json.OneKey BinaryOperator.ofJson? ∧ Json.OneKey UnaryOperator.ofJson? ∧
      (∀ fuel, Json.OneKey (TypeRef.ofJsonWithin fuel)) ∧ Json.OneKey DataType.ofJson? :=
  ⟨ofJsonWithin_toJson e h (Nat.le_refl _), oneKey_ofJsonWithin, fun _ => oneKey_binding?,
    Literal.oneKey_ofJson?, Value.oneKey_ofJson?, Method.oneKey_ofJson?,
    BinaryOperator.oneKey_ofJson?, UnaryOperator.oneKey_ofJson?, TypeRef.oneKey_ofJsonWithin,
    DataType.oneKey_ofJson?⟩

/-- An expression with every form of node, in which a named method and a custom type have names
of known ones. -/
def everyForm : Expr :=
  let row : Param := ⟨⟨18446744073709551615⟩, "\"x\\é", .grouping (.entity "Order") (.object "Dto")⟩
  let total : PropertyRef := ⟨"Order", "total", .scalar (.custom "Int") true⟩
  let lines : PropertyRef := ⟨"Order", "lines", .collection (.query (.entity "Line"))⟩
  .call (.named "Where")
    [.call .where [.source "Order", .lambda [row] (.binary .and
      (.unary .not (.member (.key (.param row)) total))
      (.cond (.const (.list [.int (-1), .float ⟨4623226492472524800⟩, .null]))
        (.const (.value (.date ⟨2024, 2, 29⟩)))
        (.const (.entity "Order" [("", .bytes [0, 255]), ("id", .timestamp ⟨19724, 3845, 120000000⟩),
          ("key", .uuid ⟨7⟩), ("doc", .json (.obj [("Null", .arr [])]))]))))],
     .new "Dto" [(total, .const (.value (.boolean true)))],
     .init "Dto" [.assign total (.const (.value (.string "Null"))), .list lines [.source ""]]]

theorem read_written_everyForm :
    (∀ v ∈ everyForm.values, v.Carried) ∧ ofJson? everyForm.toJson = some everyForm := by
  have h : ∀ v ∈ everyForm.values, v.Carried := by decide +kernel
  exact ⟨h, (read_written everyForm h).1⟩

end Expr

end EntityQuery
