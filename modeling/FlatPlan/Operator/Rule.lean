import FlatPlan.Plan.Text

/-!
# Flattening an application

What an operator makes of flat arguments. A comparison of tuples becomes comparisons of their
components, joined by a connective; a template is filled in with the parts of the application. A
template can leave the answer to a rule that it names, and a layout to an encoder: `Rules` says what
these do, and they may do anything.
-/

namespace FlatPlan

namespace Operator

/-- Join comparisons from the left. -/
def joinAll (op joiner : Operator) : List Expr → Except Error Expr
  | [] => .error (.invalidArgument (.emptyComparison op.name))
  | first :: rest => .ok (rest.foldl (fun all part => .apply joiner [all, part]) first)

mutual

/-- Compare two flat values: tuples of one shape component by component, scalars by `op` itself. -/
def compare (op joiner : Operator) : Expr → Expr → Except Error Expr
  | .tuple ls, right =>
    match right with
    | .tuple rs =>
      if ls.length = rs.length then do
        joinAll op joiner (← compareItems op joiner ls rs)
      else .error (.invalidArgument (.unequalShapes op.name (Expr.tuple ls).text right.text))
    | right => .error (.invalidArgument (.unequalShapes op.name (Expr.tuple ls).text right.text))
  | left, right =>
    match right with
    | .tuple rs => .error (.invalidArgument (.unequalShapes op.name left.text (Expr.tuple rs).text))
    | right => .ok (.apply op [left, right])

/-- Compare two lists of flat values item by item. -/
def compareItems (op joiner : Operator) : List Expr → List Expr → Except Error (List Expr)
  | l :: ls, r :: rs => do
    let part ← compare op joiner l r
    let parts ← compareItems op joiner ls rs
    return part :: parts
  | _, _ => .ok []

end

end Operator

/-- The parts of an application that a template can use. -/
structure Application where
  op : Operator
  /-- The flat arguments. -/
  args : List Expr
  /-- The types of the arguments before flattening. -/
  argTypes : List Ty
  /-- References to the columns of the joined query. -/
  columns : List Expr

/-- What the rules and the encoders that are known by name answer. -/
structure Rules where
  /-- The expression that a rule makes of an application. -/
  answer : String → Application → Except Error Expr
  /-- The expression that an encoder makes of a value. -/
  encode : String → Value → Except Error Expr

namespace Rules

/-- No rule and no encoder has a name. -/
def none : Rules where
  answer name _ := .error (.unknownOperator name)
  encode name _ := .error (.data (.unknownType name))

instance : Inhabited Rules := ⟨none⟩

end Rules

namespace Template

/-- The item at a place, or else what is missing there. -/
def pick {α : Type} (items : List α) (index : Nat) (missing : Misuse) : Except Error α :=
  match items[index]? with
  | some a => .ok a
  | none => .error (.invalidArgument missing)

mutual

/-- The expression that a template makes of an application. -/
def fill (rules : Rules) (a : Application) : Template → Except Error Expr
  | .arg index => pick a.args index (.noArgument index)
  | .args => .ok (.tuple a.args)
  | .column index => pick a.columns index (.noLookupColumn index)
  | .argType index => do return .null (← pick a.argTypes index (.noArgumentType index))
  | .item whole index => do
    match ← whole.fill rules a with
    | .tuple items => pick items index (.noComponent index)
    | _ => .error (.invalidArgument (.noComponent index))
  | .tuple ts => do return .tuple (← fillItems rules a ts)
  | .self ts => do return .apply a.op (← fillItems rules a ts)
  | .apply op ts => do return .apply op (← fillItems rules a ts)
  | .expr e => .ok e
  | .rule name => rules.answer name a
  | .fail reason => .error (.invalidArgument (.refused reason))

/-- The expression that each template makes of an application. -/
def fillItems (rules : Rules) (a : Application) : List Template → Except Error (List Expr)
  | [] => .ok []
  | t :: ts => do
    let e ← t.fill rules a
    let es ← fillItems rules a ts
    return e :: es

end

end Template

end FlatPlan
