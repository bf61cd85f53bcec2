import FlatPlan.Plan

/-!
# The text of expressions

How an expression is shown in messages and answers. A subquery is shown as a word only.
-/

namespace FlatPlan.Expr

mutual

/-- The text of an expression. -/
def text : Expr → String
  | .attr name => name
  | .const _ value => value.text
  | .null type => "NULL::" ++ type.text
  | .apply op args => op.render (itemTexts args)
  | .tuple items => Operator.callText "TUPLE" (itemTexts items)
  | .aggregate fn arg => Operator.callText fn.name [arg.text]
  | .multiAggregate fn args => Operator.callText fn.name (itemTexts args)
  | .case branches default => "CASE" ++ branchTexts branches ++ " ELSE " ++ default.text ++ " END"
  | .scalarSubquery _ => "(subquery)"
  | .setSubquery _ => "SET(subquery)"

/-- The text of each expression. -/
def itemTexts : List Expr → List String
  | [] => []
  | e :: es => e.text :: itemTexts es

/-- The text of the branches of a choice. -/
def branchTexts : List (Expr × Expr) → String
  | [] => ""
  | (condition, result) :: branches =>
    " WHEN " ++ condition.text ++ " THEN " ++ result.text ++ branchTexts branches

end

end FlatPlan.Expr
