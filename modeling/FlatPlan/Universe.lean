import FlatPlan.Operator.Standard

/-!
# Universes

A universe is the catalogue of the types, relations and operators that can be named, together with
the capabilities of types. What is registered later under a name replaces what was there.
-/

namespace FlatPlan

structure Universe where
  types : NameMap Ty
  relations : NameMap Query
  operators : NameMap Operator
  capabilities : Capabilities

namespace Universe

/-- The universe in which nothing has a name. -/
def empty : Universe := ⟨.empty, .empty, .empty, .empty⟩

instance : Inhabited Universe := ⟨empty⟩

/-- Register a base type under its name. -/
def registerType (u : Universe) : Ty → Except Error (Universe × List Event)
  | .base b =>
    .ok ({ u with types := u.types.insert b.name (.base b) },
      if u.types.contains b.name then [.typeReplaced b.name] else [])
  | t => .error (.invalidArgument (.notBaseType t.text))

/-- Register a relation under its name. -/
def registerRelation (u : Universe) (q : Query) : Except Error (Universe × List Event) :=
  match q.relation? with
  | some (name, _) =>
    .ok ({ u with relations := u.relations.insert name q },
      if u.relations.contains name then [.relationReplaced name] else [])
  | none => .error (.invalidArgument .notBaseRelation)

/-- Register an operator under its name. -/
def registerOperator (u : Universe) (op : Operator) : Universe :=
  { u with operators := u.operators.insert op.name op }

/-- The operator of a name. -/
def requireOperator (u : Universe) (name : String) : Except Error Operator :=
  match u.operators.find? name with
  | some op => .ok op
  | none => .error (.unknownOperator name)

/-- The relation of a name. -/
def requireRelation (u : Universe) (name : String) : Except Error Query :=
  match u.relations.find? name with
  | some q => .ok q
  | none => .error (.unknownBaseRelation name)

/-- The type of a name. -/
def type? (u : Universe) (name : String) : Option Ty := u.types.find? name

/-- The universe of the built-in types and the standard operators. -/
def builtins : Universe :=
  { empty with
    types := .ofList Ty.builtins
    operators := .ofList (Operator.standard.map fun op => (op.name, op)) }

end Universe

end FlatPlan
