import FlatPlan.Yaml.Directive
import FlatPlan.Yaml.Scalar

/-!
# Tokens of a YAML text

The parts that a text with one mapping of scalars is made of. Sequences have no tokens here: a text
with one is refused when it is cut into tokens.
-/

namespace FlatPlan.Yaml

inductive Token where
  | directive (d : Directive)
  | documentStart
  | documentEnd
  /-- The first entry of a block mapping follows. -/
  | blockStart
  | blockEnd
  | flowStart
  | flowEnd
  /-- The comma between two entries of a flow mapping. -/
  | comma
  /-- A key follows. -/
  | key
  /-- A value follows. -/
  | value
  | anchor (name : String)
  /-- The scalar that an anchor names. -/
  | reference (name : String)
  | tag (t : Tag)
  | scalar (text : String) (style : Style)

end FlatPlan.Yaml
