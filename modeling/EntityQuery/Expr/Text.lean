import EntityQuery.Expr.Basic
import EntityQuery.Text.Split

/-!
Expressions as people write them, for messages.
-/

namespace EntityQuery

def Literal.text : Literal → String
  | .value v => v.text
  | .list vs => "[" ++ Text.joinWith ", " (vs.map Value.text) ++ "]"
  | .entity name _ => name ++ " instance"

namespace Expr

/-- The parameters of a lambda: a single one stands without parentheses. -/
def paramsText : List Param → String
  | [p] => p.name
  | ps => "(" ++ Text.joinWith ", " (ps.map Param.name) ++ ")"

/-- Members between braces. -/
def braced (parts : List String) : String := "\x7b " ++ Text.joinWith ", " parts ++ " \x7d"

mutual
/-- The text of an expression. -/
def text : Expr → String
  | .source entity => "Query<" ++ entity ++ ">"
  | .const l => l.text
  | .param p => p.name
  | .member target p => text target ++ "." ++ p.name
  | .key target => text target ++ ".Key"
  | .binary op l r => "(" ++ text l ++ " " ++ op.symbol ++ " " ++ text r ++ ")"
  | .unary .convert e => "Convert(" ++ text e ++ ")"
  | .unary op e => op.symbol ++ text e
  | .cond t y n => "(" ++ text t ++ " ? " ++ text y ++ " : " ++ text n ++ ")"
  | .call m [] => m.name ++ "()"
  | .call m (receiver :: rest) =>
    text receiver ++ "." ++ m.name ++ "(" ++ Text.joinWith ", " (textAll rest) ++ ")"
  | .lambda ps body => paramsText ps ++ " => " ++ text body
  | .new _ members => "new " ++ braced (textMembers members)
  | .init t bindings => "new " ++ t ++ " " ++ braced (textBindings bindings)

def textAll : List Expr → List String
  | [] => []
  | e :: rest => text e :: textAll rest

def textMembers : List (PropertyRef × Expr) → List String
  | [] => []
  | (p, e) :: rest => (p.name ++ " = " ++ text e) :: textMembers rest

def textBindings : List Binding → List String
  | [] => []
  | .assign p e :: rest => (p.name ++ " = " ++ text e) :: textBindings rest
  | .list p es :: rest => (p.name ++ " = " ++ braced (textAll es)) :: textBindings rest
end

end Expr

end EntityQuery
