/-!
The operators of query expressions: binary and unary symbols, and the methods of operator calls.
-/

namespace EntityQuery

/-! ### Symbols -/

inductive BinaryOperator where
  | and
  | or
  | equal
  | notEqual
  | lessThan
  | lessOrEqual
  | greaterThan
  | greaterOrEqual
  | coalesce
  | add
  | subtract
  | multiply
  | divide
  | modulo
  | exclusiveOr
  deriving DecidableEq, Repr, Inhabited

namespace BinaryOperator

def all : List BinaryOperator :=
  [.and, .or, .equal, .notEqual, .lessThan, .lessOrEqual, .greaterThan, .greaterOrEqual, .coalesce,
    .add, .subtract, .multiply, .divide, .modulo, .exclusiveOr]

def isLogical : BinaryOperator → Bool
  | .and | .or => true
  | _ => false

def isComparison : BinaryOperator → Bool
  | .equal | .notEqual | .lessThan | .lessOrEqual | .greaterThan | .greaterOrEqual => true
  | _ => false

def symbol : BinaryOperator → String
  | .and => "&&"
  | .or => "||"
  | .equal => "=="
  | .notEqual => "!="
  | .lessThan => "<"
  | .lessOrEqual => "<="
  | .greaterThan => ">"
  | .greaterOrEqual => ">="
  | .coalesce => "??"
  | .add => "+"
  | .subtract => "-"
  | .multiply => "*"
  | .divide => "/"
  | .modulo => "%"
  | .exclusiveOr => "^"

/-- The name in stored expressions. -/
def name : BinaryOperator → String
  | .and => "And"
  | .or => "Or"
  | .equal => "Equal"
  | .notEqual => "NotEqual"
  | .lessThan => "LessThan"
  | .lessOrEqual => "LessOrEqual"
  | .greaterThan => "GreaterThan"
  | .greaterOrEqual => "GreaterOrEqual"
  | .coalesce => "Coalesce"
  | .add => "Add"
  | .subtract => "Subtract"
  | .multiply => "Multiply"
  | .divide => "Divide"
  | .modulo => "Modulo"
  | .exclusiveOr => "ExclusiveOr"

def ofName? (s : String) : Option BinaryOperator := all.find? fun op => op.name = s

def ofSymbol? (s : String) : Option BinaryOperator := all.find? fun op => op.symbol = s

end BinaryOperator

inductive UnaryOperator where
  | not
  /-- A change of type that the database does not see. -/
  | convert
  | negate
  deriving DecidableEq, Repr, Inhabited

namespace UnaryOperator

def all : List UnaryOperator := [.not, .convert, .negate]

def symbol : UnaryOperator → String
  | .not => "!"
  | .convert => "Convert"
  | .negate => "-"

/-- The name in stored expressions. -/
def name : UnaryOperator → String
  | .not => "Not"
  | .convert => "Convert"
  | .negate => "Negate"

def ofName? (s : String) : Option UnaryOperator := all.find? fun op => op.name = s

end UnaryOperator

/-! ### Methods -/

/-- The operator of a call. -/
inductive Method where
  | where
  | first
  | skip
  | take
  | distinct
  | select
  | selectMany
  | groupBy
  | orderBy
  | orderByDescending
  | thenBy
  | thenByDescending
  | count
  | sum
  | average
  | min
  | max
  | any
  /-- Membership in a list, or a part of a text. -/
  | contains
  | startsWith
  | endsWith
  | insert
  | update
  | delete
  | eagerLoad
  | lazyLoad
  | batchLazyLoad
  | dontLoad
  | useLeftJoin
  /-- A method without a meaning of its own. -/
  | named (name : String)
  deriving DecidableEq, Repr, Inhabited

namespace Method

/-- The methods with a meaning of their own. -/
def known : List Method :=
  [.where, .first, .skip, .take, .distinct, .select, .selectMany, .groupBy, .orderBy,
    .orderByDescending, .thenBy, .thenByDescending, .count, .sum, .average, .min, .max, .any,
    .contains, .startsWith, .endsWith, .insert, .update, .delete, .eagerLoad, .lazyLoad,
    .batchLazyLoad, .dontLoad, .useLeftJoin]

def name : Method → String
  | .where => "Where"
  | .first => "First"
  | .skip => "Skip"
  | .take => "Take"
  | .distinct => "Distinct"
  | .select => "Select"
  | .selectMany => "SelectMany"
  | .groupBy => "GroupBy"
  | .orderBy => "OrderBy"
  | .orderByDescending => "OrderByDescending"
  | .thenBy => "ThenBy"
  | .thenByDescending => "ThenByDescending"
  | .count => "Count"
  | .sum => "Sum"
  | .average => "Average"
  | .min => "Min"
  | .max => "Max"
  | .any => "Any"
  | .contains => "Contains"
  | .startsWith => "StartsWith"
  | .endsWith => "EndsWith"
  | .insert => "Insert"
  | .update => "Update"
  | .delete => "Delete"
  | .eagerLoad => "EagerLoad"
  | .lazyLoad => "LazyLoad"
  | .batchLazyLoad => "BatchLazyLoad"
  | .dontLoad => "DontLoad"
  | .useLeftJoin => "UseLeftJoin"
  | .named name => name

/-- The known method of a name. -/
def ofName? (s : String) : Option Method := known.find? fun m => m.name = s

def isAggregate : Method → Bool
  | .count | .sum | .average | .min | .max => true
  | _ => false

def isOrdering : Method → Bool
  | .orderBy | .orderByDescending | .thenBy | .thenByDescending => true
  | _ => false

def isLoadingHint : Method → Bool
  | .eagerLoad | .lazyLoad | .batchLazyLoad | .dontLoad => true
  | _ => false

end Method

end EntityQuery
