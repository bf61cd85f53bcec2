import FlatPlan.Plan

/-!
# Operators by signature

A signature says what an operator expects of its arguments and what its result is.
`Operator.ofSignature` makes an operator of one.
-/

namespace FlatPlan

/-- What is expected of an argument. -/
inductive Expectation where
  | any
  | numeric
  | ordered
  | type (t : Ty)

/-- The type of a result. -/
inductive ResultType where
  /-- The type of an argument. -/
  | argument (index : Nat)
  | fixed (t : Ty)

/-- The argument expectations and the result of an operator. -/
structure Signature where
  expects : List Expectation
  result : ResultType

namespace Expectation

/-- Require an argument type to meet an expectation. -/
def check (c : TypeCheck) : Expectation → Ty → Except Error Unit
  | .any, _ => .ok ()
  | .numeric, actual => c.expectNumeric actual
  | .ordered, actual => c.expectOrdered actual
  | .type t, actual => c.expect t actual

end Expectation

namespace Signature

/-- The type of an application; arguments and expectations are paired as far as both go. -/
def range (s : Signature) (c : TypeCheck) (args : List Ty) : Except Error Ty := do
  (s.expects.zip args).forM fun (e, arg) => e.check c arg
  match s.result with
  | .fixed t => return t
  | .argument index =>
    match args[index]? with
    | some t => return t
    | none => .error (.invalidArgument (.noArgument index))

end Signature

namespace Operator

/-- An operator of a signature, written as a call or with its arguments around a separator. -/
def ofSignature (name : String) (signature : Signature) (separator : Option String)
    (flattening : Flattening) : Operator where
  name := name
  range := signature.range
  render args :=
    match separator with
    | some separator => separator.intercalate args
    | none => callText name args
  flattening := flattening

end Operator

end FlatPlan
