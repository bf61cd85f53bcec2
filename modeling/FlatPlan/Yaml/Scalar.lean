/-!
# Scalars

A scalar is a text with the style that it was written in and the tag in front of it. The style
matters where a scalar is read as something other than a text.
-/

namespace FlatPlan.Yaml

/-- How a scalar is written. -/
inductive Style where
  /-- Without quotes. -/
  | plain
  | quoted
  /-- A block that keeps its line breaks. -/
  | literal
  /-- A block whose line breaks are folded. -/
  | folded
  deriving DecidableEq

structure Scalar where
  text : String
  style : Style
  tag : Option String

/-- The scalar where nothing but perhaps a tag is written. -/
def Scalar.missing (tag : Option String) : Scalar := ⟨"", .plain, tag⟩

end FlatPlan.Yaml
