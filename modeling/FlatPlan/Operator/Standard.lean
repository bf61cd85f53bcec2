import FlatPlan.Plan
import FlatPlan.Text.Upper
import FlatPlan.Ty.Builtin

/-!
# Standard operators

Arithmetic, comparison and the boolean connectives. All check the number of their arguments in both
modes and their types in checked mode only.
-/

namespace FlatPlan.Operator

/-- The text of an application whose arguments stand around a symbol. -/
def infixText (symbol : String) (args : List String) : String :=
  "(" ++ (" " ++ symbol ++ " ").intercalate args ++ ")"

/-- The number of arguments is not the one that the operator takes. -/
def wrongArity (name : String) (expected : Nat) (args : List Ty) : Error :=
  .invalidArgument (.wrongArity name expected args.length)

/-- Require two types to agree but for null. -/
def expectComparable (check : TypeCheck) (left right : Ty) : Except Error Unit :=
  check.require (left.nonNull == right.nonNull) left.text right.text

/-- The range of an operator on two arguments, from the rule for their types. -/
def onTwo (name : String) (rule : TypeCheck → Ty → Ty → Except Error Ty) (check : TypeCheck) :
    List Ty → Except Error Ty
  | [left, right] => rule check left right
  | args => .error (wrongArity name 2 args)

theorem onTwo_eq_ok {name : String} {rule : TypeCheck → Ty → Ty → Except Error Ty}
    {check : TypeCheck} {types : List Ty} {type : Ty} :
    onTwo name rule check types = .ok type ↔
      ∃ left right, types = [left, right] ∧ rule check left right = .ok type := by
  rcases types with _ | ⟨left, _ | ⟨right, _ | ⟨third, rest⟩⟩⟩ <;> simp [onTwo, and_assoc]

/-- Arithmetic on two numbers; the result has the type of the left one. -/
def arithmetic (name : String) : Operator where
  name := name
  range := onTwo name fun check left right => do
    check.expectNumeric left
    check.expectNumeric right
    expectComparable check left right
    return left
  render := infixText name
  flattening := .plain

/-- A boolean connective. -/
def logical (name : String) : Operator where
  name := name
  range := onTwo name fun check left right => do
    check.expect .boolean left
    check.expect .boolean right
    return .boolean
  render := infixText (Text.upper name)
  flattening := .plain

/-- Whether the operator of that name compares for equality only, not for order. -/
def isEquality (name : String) : Bool := name = "=" || name = "<>"

/-- Equal tuples are equal in all components, different ones differ in some. -/
def comparisonFlattening (name : String) : Flattening :=
  if name = "=" then .componentwise (logical "and")
  else if name = "<>" then .componentwise (logical "or")
  else .plain

/-- The comparison of two values. -/
def comparison (name : String) : Operator where
  name := name
  range := onTwo name fun check left right => do
    expectComparable check left right
    if isEquality name then return .boolean
    check.expectOrdered left
    return .boolean
  render := infixText name
  flattening := comparisonFlattening name

/-- The negation of a boolean. -/
def negation : Operator where
  name := "not"
  range check
    | [arg] => do
      check.expect .boolean arg
      return .boolean
    | args => .error (wrongArity "not" 1 args)
  render args := "NOT " ++ ", ".intercalate args
  flattening := .plain

/-- The operators that are always there. -/
def standard : List Operator :=
  ["+", "-", "*", "/"].map arithmetic ++ ["=", "<>", "<", "<=", ">", ">="].map comparison ++
    ["and", "or"].map logical ++ [negation]

end FlatPlan.Operator
