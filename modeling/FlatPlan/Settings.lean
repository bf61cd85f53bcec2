/-!
# Settings of a compilation

The stem of fresh names and whether types are checked before flattening.
-/

namespace FlatPlan

structure Settings where
  /-- The stem of the names drawn while flattening. -/
  freshStem : String
  /-- Whether a query is checked before it is flattened. -/
  checkTypes : Bool
  deriving DecidableEq, Repr

namespace Settings

/-- The settings where nothing is said. -/
def standard : Settings := ⟨"gx", false⟩

/-- Whether a character may begin an identifier. -/
def isIdentifierStart (c : Char) : Bool := c.isAlpha || c = '_'

/-- Whether a character may stand in an identifier. -/
def isIdentifierRest (c : Char) : Bool := c.isAlphanum || c = '_'

/-- Whether a text is an identifier of ASCII letters, digits and underscores, not a digit first. -/
def isIdentifier (s : String) : Bool :=
  match s.toList with
  | [] => false
  | c :: cs => isIdentifierStart c && (c :: cs).all isIdentifierRest

/-- Why settings cannot be used. -/
inductive Fault where
  | notFound (path : String)
  /-- The stem of fresh names is not an identifier. -/
  | invalidStem (stem : String)
  | unreadable (path : String)
  /-- The text is not a description of settings. -/
  | malformed
  deriving DecidableEq, Repr

namespace Fault

/-- The wording of a fault, where it has one of its own. -/
def message? : Fault → Option String
  | .notFound path => some ("[C004] Config file not found: " ++ path)
  | .invalidStem stem =>
    some ("[C005] Invalid config: fresh_prefix '" ++ stem ++ "' must be a SQL identifier")
  | .unreadable _ | .malformed => none

end Fault

/-- Refuse settings whose stem is not an identifier. -/
def validate (s : Settings) : Except Fault Settings :=
  if isIdentifier s.freshStem then .ok s else .error (.invalidStem s.freshStem)

end Settings

end FlatPlan
