import EntityQuery.Expr.Basic

/-!
Static types of expressions.

* Operators over a query give queries, operators over anything else collections.
* The type of a lambda is the type of its body.
-/

namespace EntityQuery

/-- The type of the null constant. -/
def TypeRef.ofNull : TypeRef := .scalar (.custom "NULL") true

/-- The type of a literal; a list takes its element type from the first value that is not null. -/
def Literal.type : Literal → TypeRef
  | .value v => if v.isNull then .ofNull else .scalar v.dataType false
  | .list vs =>
    match vs.find? fun v => !v.isNull with
    | some v => .collection (.scalar v.dataType true)
    | none => .collection .ofNull
  | .entity name _ => .entity name

/-- A sequence of the kind the receiver is, over other elements. -/
def TypeRef.reshape (receiver element : TypeRef) : TypeRef :=
  if receiver.isQuery then .query element else .collection element

/-- The type of a call, from the types of its receiver and of the selector that follows it. -/
def Method.resultType (m : Method) (receiver : TypeRef) (selector : Option TypeRef) : TypeRef :=
  let element := receiver.elementOrSelf
  match m with
  | .select => receiver.reshape (selector.getD element)
  | .selectMany => receiver.reshape (selector.getD element).elementOrSelf
  | .groupBy => receiver.reshape (.grouping (selector.getD element) element)
  | .first => element
  | .count | .insert | .update | .delete => .scalar .int false
  | .average => .scalar .double false
  | .sum | .min | .max => selector.getD element
  | .any | .contains | .startsWith | .endsWith => .boolean
  | _ => receiver

namespace Expr

/-- The static type of an expression. -/
def type : Expr → TypeRef
  | .source entity => .query (.entity entity)
  | .const l => l.type
  | .param p => p.type
  | .member _ p => p.type
  | .key target =>
    match type target with
    | .grouping k _ => k
    | t => t
  | .binary op l r =>
    match op with
    | .coalesce => type r
    | .add | .subtract | .multiply | .divide | .modulo | .exclusiveOr => type l
    | _ => .boolean
  | .unary op e =>
    match op with
    | .not => .boolean
    | _ => type e
  | .cond _ yes _ => type yes
  | .call m [] => m.resultType .boolean none
  | .call m (receiver :: .lambda _ body :: _) => m.resultType (type receiver) (some (type body))
  | .call m (receiver :: _) => m.resultType (type receiver) none
  | .lambda _ body => type body
  | .new t _ => .object t
  | .init t _ => .object t

/-- The type of the values an expression ranges over. -/
def elementType (e : Expr) : TypeRef := e.type.elementOrSelf

end Expr

end EntityQuery
