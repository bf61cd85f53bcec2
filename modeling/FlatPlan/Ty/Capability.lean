import FlatPlan.Event
import FlatPlan.NameMap
import FlatPlan.Ty

/-!
# Capabilities

Which types are numeric and which are ordered. A base type answers as it was declared unless its
name is overridden; without override and declaration a type is ordered if it is numeric.
-/

namespace FlatPlan

/-- The answers that override what base types declare, by name. -/
structure Capabilities where
  numeric : NameMap Bool
  ordered : NameMap Bool

namespace Capabilities

def empty : Capabilities := ⟨.empty, .empty⟩

instance : Inhabited Capabilities := ⟨empty⟩

/-- Override whether a type is numeric; a changed override is reported. -/
def setNumeric (c : Capabilities) (name : String) (value : Bool) : Capabilities × List Event :=
  ({ c with numeric := c.numeric.insert name value },
    match c.numeric.find? name with
    | some before => if before = value then [] else [.numericChanged name before value]
    | none => [])

/-- Override whether a type is ordered; a changed override is reported. -/
def setOrdered (c : Capabilities) (name : String) (value : Bool) : Capabilities × List Event :=
  ({ c with ordered := c.ordered.insert name value },
    match c.ordered.find? name with
    | some before => if before = value then [] else [.orderedChanged name before value]
    | none => [])

/-- Whether arithmetic accepts the type. -/
def isNumeric (c : Capabilities) : Ty → Bool
  | .base b => (c.numeric.find? b.name).getD b.numeric
  | .nullable inner => c.isNumeric inner
  | .product _ | .set _ | .boundedString _ => false

/-- Whether sorting accepts the type. -/
def isOrdered (c : Capabilities) : Ty → Bool
  | .base b => ((c.ordered.find? b.name).or b.ordered).getD (c.isNumeric (.base b))
  | .nullable inner => c.isOrdered inner
  | .boundedString _ => true
  | .product _ | .set _ => false

end Capabilities

end FlatPlan
