import FlatPlan.Operator.Rule
import FlatPlan.Operator.Signature
import FlatPlan.Ty.Record
import FlatPlan.Universe

/-!
# A sample universe

People with a first and a last name, a few tables, and an operator that looks nicknames up. What is
known by name only are a rule that makes a choice of its arguments and an encoder that stores a
null.
-/

namespace FlatPlan.Sample

/-- A person of that name. -/
def person (first last : String) : Value :=
  .record [("first", .string first), ("last", .string last)]

/-- The first and the last name of a person. -/
def personNames? (v : Value) : Option (String × String) :=
  match v.field? "first", v.field? "last" with
  | some (.string first), some (.string last) => some (first, last)
  | _, _ => none

/-- How people are stored: the first name and the last name. -/
def personLayout : Layout where
  columns := [("first", .string), ("last", .string)]
  encode v :=
    match personNames? v with
    | some (first, last) =>
      .ok (.group [.const .string (.string first), .const .string (.string last)])
    | none => .error (.data (Ty.invalidValue "person" v))
  reify
    | [.string first, .string last] => .ok (person first last)
    | columns =>
      .error (.invalidArgument (.cannotBuild "a person" (Text.dumpList (Value.dumpItems columns))))

/-- The structured type of people. -/
def personType : Ty :=
  .base {
    name := "person"
    contains := fun v => (personNames? v).isSome
    toDatum := fun v => match personNames? v with
      | some (first, last) => .ok (.array [.string first, .string last])
      | none => .error (Ty.invalidValue "person" v)
    ofDatum := fun d => match d with
      | .array [.string first, .string last] => .ok (person first last)
      | d => .error (d.malformed "person")
    numeric := false
    ordered := none
    layout := some personLayout }

/-- A table of a number and a text. -/
def tableT : Query := .table "T" ⟨[("a", .integer), ("b", .string)]⟩

/-- A table of first and last names. -/
def tableU : Query := .table "U" ⟨[("first", .string), ("last", .string)]⟩

/-- A table of names and nicknames. -/
def tableN : Query := .table "N" ⟨[("name", .string), ("nick", .string)]⟩

/-- The nickname of a name, looked up in the table of nicknames. -/
def nickname : Operator where
  name := "nickname"
  range check
    | [arg] => do
      check.expect .string arg
      return .string
    | _ => .ok .string
  render := Operator.callText "nickname"
  flattening := .lookup tableN (.apply (Operator.comparison "=") [.column 0, .arg 0]) (.column 1)

/-- The greater of two numbers. -/
def greater : Operator :=
  .ofSignature "greater" ⟨[.numeric, .numeric], .argument 0⟩ none (.template (.rule "greater"))

/-- The choice of the greater one of two scalars. -/
def choiceOfGreater (a : Application) : Except Error Expr :=
  match a.args with
  | [left, right] =>
    if left.isTuple || right.isTuple then .error
      (.invalidArgument (.refused "numbers are compared"))
    else .ok (.case [(.apply (Operator.comparison "<") [left, right], right)] left)
  | args => .error (.invalidArgument (.wrongArity "greater" 2 args.length))

/-- The structured type of people who go by one name. -/
def mononymType : Ty :=
  .base {
    name := "mononym"
    contains := fun
      | .string _ => true
      | _ => false
    toDatum := fun
      | .string name => .ok (.string name)
      | v => .error (Ty.invalidValue "mononym" v)
    ofDatum := fun
      | .string name => .ok (.string name)
      | d => .error (d.malformed "mononym")
    numeric := false
    ordered := none
    layout := some {
      columns := [("first", .string), ("last", .nullable .string)]
      encode := fun v => .ok (.named "mononym" v)
      reify := fun
        | [.string name, .null] => .ok (.string name)
        | columns => .error (.invalidArgument
          (.cannotBuild "a mononym" (Text.dumpList (Value.dumpItems columns)))) } }

/-- What the named rule and the named encoder answer: a single name is stored with a null beside
it. -/
def rules : Rules where
  answer name a :=
    if name = "greater" then choiceOfGreater a else .error (.unknownOperator name)
  encode name v :=
    if name = "mononym" then .ok (.tuple [.const .string v, .null .string])
    else .error (.data (.unknownType name))

/-- The built-in universe with people and the tables. -/
def people : Universe :=
  { Universe.builtins with
    types := Universe.builtins.types.insert "person" personType
    relations := .ofList [("T", tableT), ("U", tableU), ("N", tableN)] }

end FlatPlan.Sample
