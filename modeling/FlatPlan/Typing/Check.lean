import FlatPlan.Ty.Capability

/-!
# Type checks

A `TypeCheck` decides what happens to a type that does not fit: in checked mode it is an error, in
permissive mode it is passed over.
-/

namespace FlatPlan

/-- The mode of checking and the capabilities of types. -/
structure TypeCheck where
  /-- Whether a violation is an error. -/
  checked : Bool
  capabilities : Capabilities
  deriving Inhabited

namespace TypeCheck

/-- In checked mode, fail unless `ok`. -/
def require (c : TypeCheck) (ok : Bool) (expected actual : String) : Except Error Unit :=
  if ok || !c.checked then .ok () else .error (.typeViolation expected actual)

/-- Require one type to be another. -/
def expect (c : TypeCheck) (expected actual : Ty) : Except Error Unit :=
  c.require (expected == actual) expected.text actual.text

def expectNumeric (c : TypeCheck) (actual : Ty) : Except Error Unit :=
  c.require (c.capabilities.isNumeric actual) "numeric type" actual.text

def expectOrdered (c : TypeCheck) (actual : Ty) : Except Error Unit :=
  c.require (c.capabilities.isOrdered actual) "ordered type" actual.text

/-- The type of a choice between two: types that differ only in null have a common type with
null. -/
def unify (c : TypeCheck) (left right : Ty) : Except Error Ty :=
  if left == right then .ok left
  else if left.nonNull == right.nonNull then .ok left.nonNull.orNull
  else do
    c.require false left.text right.text
    return left

/-- In permissive mode nothing is required. -/
@[simp] theorem require_permissive (caps : Capabilities) (ok : Bool) (expected actual : String) :
    (⟨false, caps⟩ : TypeCheck).require ok expected actual = .ok () := by
  simp [require]

end TypeCheck

end FlatPlan
