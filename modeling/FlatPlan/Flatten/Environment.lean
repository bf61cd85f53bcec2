import FlatPlan.Plan.Text

/-!
# Environments

What the structured attributes of a query have become after flattening: each is bound to a tuple of
references to flat columns. An attribute that is not bound is a flat column itself.
-/

namespace FlatPlan

/-- The flat form of attributes, by name. -/
abbrev Environment := NameMap Expr

namespace Environment

/-- The flat form of an attribute. -/
def resolve (env : Environment) (name : String) : Expr :=
  (env.find? name).getD (.attr name)

/-- The column that a leaf of a flat form refers to. -/
def columnOf (name : String) : Expr → Except Error String
  | .attr column => .ok column
  | other => .error (.invalidArgument (.notAColumn name other.text))

/-- The flat columns that carry an attribute. -/
def flatColumns (env : Environment) (name : String) : Except Error (List String) :=
  match env.find? name with
  | none => .ok [name]
  | some rep => rep.leaves.mapM (columnOf name)

end Environment

end FlatPlan
