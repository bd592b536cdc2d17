import EntityQuery.Expr.Path
import EntityQuery.Expr.Text

/-!
Why an expression has no statement.

* A `Cause` is what is wrong with one expression; its `fault` says whose fault it is.
* The message of an error names the fault, the reason and the expression.
-/

namespace EntityQuery

/-- The kinds of errors. -/
inductive Fault where
  /-- The expression uses an operator or a shape that has no SQL. -/
  | unsupported
  /-- The expression contradicts the mapping. -/
  | violation
  /-- An argument is missing or malformed. -/
  | invalid
  deriving DecidableEq, Repr

def Fault.title : Fault → String
  | .unsupported => "Unsupported construct"
  | .violation => "Mapping violation"
  | .invalid => "Invalid argument"

/-- What is wrong with an expression. -/
inductive Cause where
  -- arguments
  | notAQuery
  | unboundParameter
  | noScope
  | lambdaExpected
  | oneParameterExpected
  | missingArgument (index : Nat)
  | noReceiver
  | negativeCount
  | countNotConstant
  | groupingWithoutSelector
  | nothingToAggregate
  | initializerExpected (method : Method)
  | hintWithoutMember
  -- operators and shapes
  | argumentOnly
  | listConstant
  | memberOfValue
  | keyOutsideGrouping
  | compositeKey
  | operator (op : BinaryOperator)
  | negation
  | rowExpected
  | noBase
  | operatorOnValue
  | notNavigable
  | method (m : Method)
  | containsReceiver
  | selectShape
  | listInProjection
  | memberValue (name : String)
  | groupKeyShape
  | anyOfGrouping
  | updateWithoutSource
  | listAssignment (name : String)
  | notAPath (text : String)
  /-- A value that contains itself. -/
  | endless
  -- the mapping
  | entityConstant (entity : String)
  | constantWithoutId
  | notAKeyMember
  | unreachable (property : String)
  | collectionProjection
  | collectionAssignment (name : String)
  deriving DecidableEq, Repr

namespace Cause

def fault : Cause → Fault
  | .notAQuery | .unboundParameter | .noScope | .lambdaExpected | .oneParameterExpected
  | .missingArgument _ | .noReceiver | .negativeCount | .countNotConstant
  | .groupingWithoutSelector | .nothingToAggregate | .initializerExpected _
  | .hintWithoutMember => .invalid
  | .entityConstant _ | .constantWithoutId | .notAKeyMember | .unreachable _
  | .collectionProjection | .collectionAssignment _ => .violation
  | _ => .unsupported

def reason : Cause → String
  | .notAQuery => "Expression does not describe a query"
  | .unboundParameter => "Parameter is not bound to any source"
  | .noScope => "No query source in scope"
  | .lambdaExpected => "Expected a lambda argument"
  | .oneParameterExpected => "Expected a single-parameter lambda"
  | .missingArgument i => "Missing argument " ++ toString i
  | .noReceiver => "Operator call without a receiver"
  | .negativeCount => "Row count must not be negative"
  | .countNotConstant => "Row count must be an integer constant"
  | .groupingWithoutSelector => "Aggregating a grouping requires a selector"
  | .nothingToAggregate => "Aggregate requires a selector or a single projected value"
  | .initializerExpected m => m.name ++ " requires an object initializer"
  | .hintWithoutMember => "Loading hint without a member"
  | .argumentOnly => "Expression is only valid as an operator argument"
  | .listConstant => "Collection constants are only supported as the receiver of Contains"
  | .memberOfValue => "Member access on a computed value"
  | .keyOutsideGrouping => "Key used outside a grouping"
  | .compositeKey => "A composite key can only be projected or used member by member"
  | .operator op => "The operator '" ++ op.symbol ++ "' is not supported"
  | .negation => "Arithmetic negation is not supported"
  | .rowExpected => "Expected a row"
  | .noBase => "Request has no source"
  | .operatorOnValue => "Operator applied to a computed value"
  | .notNavigable => "Collection is not navigable from this scope"
  | .method m => "The method '" ++ m.name ++ "' is not supported"
  | .containsReceiver => "Contains is only supported on constant collections"
  | .selectShape => "No supported select"
  | .listInProjection => "Collection initializers are not supported in projections"
  | .memberValue name => "Unsupported value for member '" ++ name ++ "'"
  | .groupKeyShape => "Grouping keys must be members or anonymous objects of members"
  | .anyOfGrouping => "Any over a grouping"
  | .updateWithoutSource => "Update without a source"
  | .listAssignment name => "Collection initializer for '" ++ name ++ "'"
  | .notAPath text => "'" ++ text ++ "' is not a member path"
  | .endless => "The value contains itself"
  | .entityConstant entity => "The constant for '" ++ entity ++ "' is not supported"
  | .constantWithoutId => "The constant carries no id value"
  | .notAKeyMember => "Not a member of the grouping key"
  | .unreachable property => "'" ++ property ++ "' is not reachable from a value"
  | .collectionProjection => "A collection member can only be projected with SelectMany"
  | .collectionAssignment name => "'" ++ name ++ "' is a collection and cannot be assigned"

end Cause

/-- Why an expression has no statement. -/
inductive CompileError where
  | rejected (e : Expr) (cause : Cause)
  | mapping (e : MappingError)
  | path (e : PathError)

namespace CompileError

def fault : CompileError → Fault
  | .rejected _ cause => cause.fault
  | .mapping _ => .violation
  | .path _ => .invalid

/-- The message without the kind of the error. -/
def detail : CompileError → String
  | .rejected e cause => cause.reason ++ ": " ++ e.text
  | .mapping e => e.message
  | .path e => e.message

def message (e : CompileError) : String := e.fault.title ++ ": " ++ e.detail

end CompileError

end EntityQuery
