import EntityQuery.Expr.Basic
import EntityQuery.Types.Codec
import EntityQuery.Value.Codec

/-!
The stored form of expressions.

* `ofJson?` reads what `toJson` writes. It refuses an object with no or several alternatives.
* The parts of an expression are nested less deeply than the whole, so the nesting bounds the
  recursion.
-/

namespace EntityQuery

namespace Method

def toJson : Method → Json
  | .named name => .obj [("Named", .str name)]
  | m => .str m.name

def ofJson? (j : Json) : Option Method :=
  match j.tagged? with
  | some ("Named", some content) => content.str?.map .named
  | some (name, content) => if Json.isBare content then ofName? name else none
  | none => none

end Method

def BinaryOperator.ofJson? (j : Json) : Option BinaryOperator :=
  match j.tagged? with
  | some (name, content) => if Json.isBare content then ofName? name else none
  | none => none

def UnaryOperator.ofJson? (j : Json) : Option UnaryOperator :=
  match j.tagged? with
  | some (name, content) => if Json.isBare content then ofName? name else none
  | none => none

namespace Param

def toJson (p : Param) : Json :=
  .obj [("id", .int p.id.val.toNat), ("name", .str p.name), ("ty", p.type.toJson)]

/-- An identity, a number of 64 bits. -/
def id? (j : Json) : Option ParamId := do
  let n ← j.nat?
  if n < UInt64.size then some ⟨UInt64.ofNat n⟩ else none

def ofJson? (j : Json) : Option Param := do
  match ← j.record? ["id", "name", "ty"] with
  | [id, name, type] => return ⟨← id? id, ← name.str?, ← TypeRef.ofJson? type⟩
  | _ => none

end Param

namespace Literal

def toJson : Literal → Json
  | .value v => .obj [("Value", v.toJson)]
  | .list vs => .obj [("List", .arr (vs.map Value.toJson))]
  | .entity name fields =>
    .obj [("Entity", .obj [("entity", .str name),
      ("fields", .arr (fields.map fun f => .arr [.str f.1, f.2.toJson]))])]

def ofJson? : Json → Option Literal
  | .obj [("Value", v)] => (Value.ofJson? v).map .value
  | .obj [("List", vs)] => (vs.list? Value.ofJson?).map .list
  | .obj [("Entity", content)] => do
    match ← content.fields? ["entity", "fields"] with
    | [name, fields] =>
      return .entity (← name.str?) (← fields.list? (Json.pair? Json.str? Value.ofJson?))
    | _ => none
  | _ => none

end Literal

namespace Expr

/-! ### Writing -/

mutual
def toJson : Expr → Json
  | .source entity => .obj [("Source", .str entity)]
  | .const l => .obj [("Constant", l.toJson)]
  | .param p => .obj [("Parameter", p.toJson)]
  | .member target p =>
    .obj [("Member", .obj [("target", toJson target), ("property", p.toJson)])]
  | .key target => .obj [("Key", toJson target)]
  | .binary op l r =>
    .obj [("Binary", .obj [("op", .str op.name), ("left", toJson l), ("right", toJson r)])]
  | .unary op e => .obj [("Unary", .obj [("op", .str op.name), ("operand", toJson e)])]
  | .cond t y n =>
    .obj [("Conditional",
      .obj [("test", toJson t), ("if_true", toJson y), ("if_false", toJson n)])]
  | .call m args => .obj [("Call", .obj [("method", m.toJson), ("args", .arr (toJsonAll args))])]
  | .lambda ps body =>
    .obj [("Lambda", .obj [("params", .arr (ps.map Param.toJson)), ("body", toJson body)])]
  | .new type members =>
    .obj [("New", .obj [("ty", .str type), ("members", .arr (toJsonMembers members))])]
  | .init type bindings =>
    .obj [("MemberInit", .obj [("ty", .str type), ("bindings", .arr (toJsonBindings bindings))])]

def toJsonAll : List Expr → List Json
  | [] => []
  | e :: rest => toJson e :: toJsonAll rest

def toJsonMembers : List (PropertyRef × Expr) → List Json
  | [] => []
  | (p, e) :: rest => .arr [p.toJson, toJson e] :: toJsonMembers rest

def toJsonBindings : List Binding → List Json
  | [] => []
  | .assign p e :: rest =>
    .obj [("Assign", .obj [("member", p.toJson), ("value", toJson e)])] :: toJsonBindings rest
  | .list p es :: rest =>
    .obj [("List", .obj [("member", p.toJson), ("items", .arr (toJsonAll es))])] ::
      toJsonBindings rest
end

/-! ### Reading -/

/-- A binding, given how expressions are read. -/
def binding? (expr : Json → Option Expr) : Json → Option Binding
  | .obj [("Assign", content)] => do
    match ← content.fields? ["member", "value"] with
    | [p, e] => return .assign (← PropertyRef.ofJson? p) (← expr e)
    | _ => none
  | .obj [("List", content)] => do
    match ← content.fields? ["member", "items"] with
    | [p, es] => return .list (← PropertyRef.ofJson? p) (← es.list? expr)
    | _ => none
  | _ => none

/-- The contents of an alternative's fields. An alternative is no record and has to be an object. -/
def ofFields? (expr : Json → Option Expr) (name : String) (content : Json) : Option Expr :=
  match name with
  | "Member" => do
    match ← content.fields? ["target", "property"] with
    | [target, p] => return .member (← expr target) (← PropertyRef.ofJson? p)
    | _ => none
  | "Binary" => do
    match ← content.fields? ["op", "left", "right"] with
    | [op, l, r] => return .binary (← BinaryOperator.ofJson? op) (← expr l) (← expr r)
    | _ => none
  | "Unary" => do
    match ← content.fields? ["op", "operand"] with
    | [op, e] => return .unary (← UnaryOperator.ofJson? op) (← expr e)
    | _ => none
  | "Conditional" => do
    match ← content.fields? ["test", "if_true", "if_false"] with
    | [t, y, n] => return .cond (← expr t) (← expr y) (← expr n)
    | _ => none
  | "Call" => do
    match ← content.fields? ["method", "args"] with
    | [m, args] => return .call (← Method.ofJson? m) (← args.list? expr)
    | _ => none
  | "New" => do
    match ← content.fields? ["ty", "members"] with
    | [type, ms] => return .new (← type.str?) (← ms.list? (Json.pair? PropertyRef.ofJson? expr))
    | _ => none
  | "MemberInit" => do
    match ← content.fields? ["ty", "bindings"] with
    | [type, bs] => return .init (← type.str?) (← bs.list? (binding? expr))
    | _ => none
  | _ => none

/-- One level of an expression, given how its parts are read. -/
def ofTagged? (expr : Json → Option Expr) (name : String) (content : Json) : Option Expr :=
  match name with
  | "Source" => content.str?.map .source
  | "Constant" => (Literal.ofJson? content).map .const
  | "Parameter" => (Param.ofJson? content).map .param
  | "Key" => (expr content).map .key
  | "Lambda" => do
    match ← content.record? ["params", "body"] with
    | [ps, body] => return .lambda (← ps.list? Param.ofJson?) (← expr body)
    | _ => none
  | _ => ofFields? expr name content

/-- Reads an expression nested less than `fuel` deep. -/
def ofJsonWithin : Nat → Json → Option Expr
  | fuel + 1, .obj [(name, content)] => ofTagged? (ofJsonWithin fuel) name content
  | _, _ => none

def ofJson? (j : Json) : Option Expr := ofJsonWithin j.depth j

/-- Whether reading what was written gives the expression back. -/
def survives (e : Expr) : Bool := (ofJson? e.toJson).any (·.equals e)

end Expr

end EntityQuery
