import FlatPlan.Keyword

/-!
# Errors

What can go wrong, by cause, and the wording of each cause. `DataError` belongs to types and
constants, `Error` to expressions, queries and everything built on them.
-/

namespace FlatPlan

/-- A fault in a type, a constant or a datum. -/
inductive DataError where
  /-- No base type has this name. -/
  | unknownType (name : String)
  /-- The value is not a member of the type. -/
  | invalidValue (type value : String)
  /-- The datum does not have the form that is read here. -/
  | malformed (expected found : String)
  deriving DecidableEq, Repr

namespace DataError

def message : DataError → String
  | .unknownType name => "[C001] Unknown type: " ++ name
  | .invalidValue type value => "[C002] Invalid value for type " ++ type ++ ": " ++ value
  | .malformed expected found =>
    "[C003] Malformed datum: expected " ++ expected ++ ", found " ++ found

end DataError

/-- An argument that a construction cannot accept. -/
inductive Misuse where
  | unknownAggregate (name : String)
  | unknownDirection (name : String)
  | repeatedColumn (name : String)
  | wrongArity (operator : String) (expected actual : Nat)
  | emptyComparison (operator : String)
  | unequalShapes (operator left right : String)
  | notBaseType (type : String)
  | notBaseRelation
  | structuredPredicate (predicate : String)
  | structuredCondition (condition : String)
  | operandWidths (op : CombineOp) (left right : Nat)
  | columnWidths (left right : String) (leftWidth rightWidth : Nat)
  | notAColumn (name bound : String)
  | emptyCount (expr : String)
  | cannotBuild (type source : String)
  | noArgument (index : Nat)
  | noArgumentType (index : Nat)
  | noLookupColumn (index : Nat)
  | noComponent (index : Nat)
  /-- A reason given by a user-defined rule. -/
  | refused (reason : String)
  deriving DecidableEq, Repr

namespace Misuse

def message : Misuse → String
  | .unknownAggregate name => "unknown aggregate function '" ++ name ++ "'"
  | .unknownDirection name => "sort direction must be 'asc' or 'desc', got '" ++ name ++ "'"
  | .repeatedColumn name => "projection maps column '" ++ name ++ "' more than once"
  | .wrongArity operator expected actual =>
    "operator '" ++ operator ++ "' takes " ++ toString expected ++ " argument(s), got " ++
      toString actual
  | .emptyComparison operator => "cannot compare empty tuples with '" ++ operator ++ "'"
  | .unequalShapes operator left right =>
    "'" ++ operator ++ "' compares values of different shapes: " ++ left ++ " and " ++ right
  | .notBaseType type => "only base types can be registered, got " ++ type
  | .notBaseRelation => "only base relations can be registered by name"
  | .structuredPredicate predicate => "restriction predicate '" ++ predicate ++ "' is not a scalar"
  | .structuredCondition condition => "CASE condition '" ++ condition ++ "' is not a scalar"
  | .operandWidths op left right =>
    op.name ++ " operands have " ++ toString left ++ " and " ++ toString right ++ " column(s)"
  | .columnWidths left right leftWidth rightWidth =>
    "columns '" ++ left ++ "' and '" ++ right ++ "' flatten to " ++ toString leftWidth ++ " and " ++
      toString rightWidth ++ " column(s)"
  | .notAColumn name bound => "'" ++ name ++ "' is bound to '" ++ bound ++ "', not a column"
  | .emptyCount expr => "cannot count the empty tuple in '" ++ expr ++ "'"
  | .cannotBuild type source => "cannot build " ++ type ++ " from " ++ source
  | .noArgument index => "no argument " ++ toString index
  | .noArgumentType index => "no argument type " ++ toString index
  | .noLookupColumn index => "no lookup column " ++ toString index
  | .noComponent index => "no component " ++ toString index
  | .refused reason => reason

end Misuse

/-- A form that flattening does not handle. -/
inductive Unsupported where
  | structuredGrouping (column : String)
  | structuredAggregate (fn : Aggregate) (expr : String)
  | multiAggregate (fn : MultiAggregate)
  | mixedCase (expr : String)
  | structuredSubquery (schema : String)
  deriving DecidableEq, Repr

namespace Unsupported

def message : Unsupported → String
  | .structuredGrouping column => "grouping column '" ++ column ++ "' over a structured value"
  | .structuredAggregate fn expr => fn.name ++ " over a structured value in '" ++ expr ++ "'"
  | .multiAggregate fn => "flattening the multi-argument aggregate '" ++ fn.name ++ "'"
  | .mixedCase expr => "CASE mixing structured and scalar branches in '" ++ expr ++ "'"
  | .structuredSubquery schema => "subquery yielding a structured value " ++ schema

end Unsupported

/-- A fault in an expression or a query, or met while working on one. -/
inductive Error where
  | invalidArgument (cause : Misuse)
  | unknownRelationalOperator (name : String)
  | unknownAttribute (name : String)
  | typeViolation (expected actual : String)
  | schemaMismatch (op : CombineOp) (left right : String)
  | notUnary (columns : Nat)
  | unsupportedOrdering (expr : String)
  | notYetImplemented (feature : Unsupported)
  | unknownBaseRelation (name : String)
  | unknownOperator (name : String)
  | misplacedAggregate (column : String)
  | rowShape (expected actual : Nat)
  | provisionFailed (galaxy reason : String)
  | data (cause : DataError)
  deriving DecidableEq, Repr

namespace Error

def message : Error → String
  | .invalidArgument cause => "[R001] Invalid argument: " ++ cause.message
  | .unknownRelationalOperator name => "[R002] Unknown relational operator '" ++ name ++ "'"
  | .unknownAttribute name => "[R003] Unknown attribute '" ++ name ++ "'"
  | .typeViolation expected actual =>
    "[R004] Type violation: expected " ++ expected ++ ", found " ++ actual
  | .schemaMismatch op left right =>
    "[R005] Schema mismatch in " ++ op.name ++ ": left is " ++ left ++ ", right is " ++ right
  | .notUnary columns => "[R006] Subquery must have exactly one column, found " ++ toString columns
  | .unsupportedOrdering expr =>
    "[R007] Ordering by '" ++ expr ++ "' is not supported after flattening"
  | .notYetImplemented feature => "[R008] Not yet implemented: " ++ feature.message
  | .unknownBaseRelation name => "[R009] Unknown base relation '" ++ name ++ "'"
  | .unknownOperator name => "[R010] Unknown operator '" ++ name ++ "'"
  | .misplacedAggregate column =>
    "[R011] Column '" ++ column ++ "' aggregates outside a grouping projection"
  | .rowShape expected actual =>
    "[R012] Row has " ++ toString actual ++ " value(s), schema needs " ++ toString expected
  | .provisionFailed galaxy reason =>
    "[R013] Provisioning galaxy '" ++ galaxy ++ "' failed: " ++ reason
  | .data cause => "[R014] Core error: " ++ cause.message

end Error

/-- Carry a fault of the data into the errors of the algebra. -/
def liftData {α : Type} : Except DataError α → Except Error α
  | .ok a => .ok a
  | .error e => .error (.data e)

instance : MonadLift (Except DataError) (Except Error) := ⟨liftData⟩

end FlatPlan
