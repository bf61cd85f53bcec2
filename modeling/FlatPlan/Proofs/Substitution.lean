import FlatPlan.Proofs.SampleVocabulary

/-!
# Substitution

An expression with other expressions in the place of its attributes reads what these read
(`Expr.attributes_substitute`). Main statement: if each of them has the type of the attribute it
stands for, the whole has the same type as before or is refused for the same reason, so that a type
depends on nothing but the types of the attributes (`Expr.typeOf_substitution`).
-/

namespace FlatPlan

/-! ## Attributes -/

theorem NameMap.mem_names_foldl_insert {names : List String} {m : NameMap Unit} {name : String} :
    name ∈ (names.foldl (fun m own => m.insert own ()) m).names ↔ name ∈ names ∨
      name ∈ m.names := by
  induction names generalizing m with
  | nil => simp
  | cons own names ih =>
    rw [List.foldl_cons, ih, mem_names_insert, List.mem_cons, or_left_comm, or_assoc]

namespace Expr

variable {check : TypeCheck} {schema schema' : Schema} {bound : String → Option Expr}

theorem mem_attributeNames {e : Expr} {name : String} : name ∈ e.attributeNames ↔
    name ∈ e.attributes := by
  rw [attributeNames, NameMap.mem_names_foldl_insert]
  exact or_iff_left List.not_mem_nil

/-- What a substitution puts in the place of an attribute: the bound expression, or else the
attribute. -/
def standIn (bound : String → Option Expr) (name : String) : Expr := (bound name).getD (.attr name)

mutual

/-- After a substitution, the attributes are read that are read at the places of the old ones. -/
theorem attributes_substitute (bound : String → Option Expr) : ∀ e : Expr,
    (e.substitute bound).attributes = e.attributes.flatMap fun name =>
      (standIn bound name).attributes
  | .attr name => by rw [substitute, attributes, List.flatMap_singleton, standIn]
  | .const _ _ | .null _ | .scalarSubquery _ | .setSubquery _ => by
    simp only [substitute, attributes, List.flatMap_nil]
  | .apply op args => by
    rw [substitute, attributes, attributes, itemAttributes_substitute bound args]
  | .tuple items => by
    rw [substitute, attributes, attributes, itemAttributes_substitute bound items]
  | .aggregate fn arg => by rw [substitute, attributes, attributes, attributes_substitute bound arg]
  | .multiAggregate fn args => by
    rw [substitute, attributes, attributes, itemAttributes_substitute bound args]
  | .case branches default => by
    rw [substitute, attributes, attributes, branchAttributes_substitute bound branches,
      attributes_substitute bound default, List.flatMap_append]

theorem itemAttributes_substitute (bound : String → Option Expr) : ∀ es : List Expr,
    itemAttributes (substituteItems bound es) =
      (itemAttributes es).flatMap fun name => (standIn bound name).attributes
  | [] => rfl
  | e :: es => by
    rw [substituteItems, itemAttributes, itemAttributes, attributes_substitute bound e,
      itemAttributes_substitute bound es, List.flatMap_append]

theorem branchAttributes_substitute (bound : String → Option Expr) : ∀ bs : List (Expr × Expr),
    branchAttributes (substituteBranches bound bs) =
      (branchAttributes bs).flatMap fun name => (standIn bound name).attributes
  | [] => rfl
  | (condition, result) :: bs => by
    rw [substituteBranches, branchAttributes, branchAttributes,
      attributes_substitute bound condition, attributes_substitute bound result,
      branchAttributes_substitute bound bs, List.flatMap_append, List.flatMap_append]

end

mutual

/-- A substitution that binds no attribute of an expression leaves it as it is. -/
theorem substitute_of_unbound : ∀ {e : Expr}, (∀ name ∈ e.attributes, bound name = none) →
    e.substitute bound = e
  | .attr name, unbound => by
    rw [substitute, unbound name (by simp [attributes]), Option.getD_none]
  | .const _ _, _ | .null _, _ | .scalarSubquery _, _ | .setSubquery _, _ => by rw [substitute]
  | .apply op args, unbound => by rw [substitute, substituteItems_of_unbound unbound]
  | .tuple items, unbound => by rw [substitute, substituteItems_of_unbound unbound]
  | .aggregate fn arg, unbound => by rw [substitute, substitute_of_unbound (e := arg) unbound]
  | .multiAggregate fn args, unbound => by rw [substitute, substituteItems_of_unbound unbound]
  | .case branches default, unbound => by
    rw [attributes, List.forall_mem_append] at unbound
    rw [substitute, substituteBranches_of_unbound unbound.1, substitute_of_unbound unbound.2]

theorem substituteItems_of_unbound :
    ∀ {es : List Expr}, (∀ name ∈ itemAttributes es, bound name = none) →
    substituteItems bound es = es
  | [], _ => rfl
  | e :: es, unbound => by
    rw [itemAttributes, List.forall_mem_append] at unbound
    rw [substituteItems, substitute_of_unbound unbound.1, substituteItems_of_unbound unbound.2]

theorem substituteBranches_of_unbound : ∀ {bs : List (Expr × Expr)},
    (∀ name ∈ branchAttributes bs, bound name = none) → substituteBranches bound bs = bs
  | [], _ => rfl
  | (condition, result) :: bs, unbound => by
    rw [branchAttributes, List.forall_mem_append, List.forall_mem_append] at unbound
    rw [substituteBranches, substitute_of_unbound unbound.1.1, substitute_of_unbound unbound.1.2,
      substituteBranches_of_unbound unbound.2]

end

/-! ## Types -/

/-- What stands for an attribute has the type of the attribute, or both are refused for the same
reason. -/
def TypedAs (check : TypeCheck) (bound : String → Option Expr) (schema schema' : Schema)
    (name : String) : Prop :=
  (standIn bound name).typeOf check schema' = (attr name).typeOf check schema

attribute [local simp] typeOf Query.schemaOf

mutual

/-- Expressions of the types of the attributes may stand for these. -/
theorem typeOf_substitute :
    ∀ {e : Expr}, (∀ name ∈ e.attributes, TypedAs check bound schema schema' name) →
    (e.substitute bound).typeOf check schema' = e.typeOf check schema
  | .attr name, typed => by
    rw [substitute]
    exact typed name (by simp [attributes])
  | .const _ _, _ | .null _, _ | .scalarSubquery _, _ | .setSubquery _, _ => by
    rw [substitute, typeOf, typeOf]
  | .apply op args, typed => by rw [substitute, typeOf, typeOf, typesOf_substitute typed]
  | .tuple items, typed => by rw [substitute, typeOf, typeOf, typesOf_substitute typed]
  | .aggregate fn arg, typed => by
    rw [substitute, typeOf, typeOf, typeOf_substitute (e := arg) typed]
  | .multiAggregate fn args, typed => by rw [substitute, typeOf, typeOf, typesOf_substitute typed]
  | .case branches default, typed => by
    rw [attributes, List.forall_mem_append] at typed
    rw [substitute, typeOf, typeOf, branchTypesOf_substitute typed.1, typeOf_substitute typed.2]

theorem typesOf_substitute : ∀ {es : List Expr},
    (∀ name ∈ itemAttributes es, TypedAs check bound schema schema' name) →
      typesOf check schema' (substituteItems bound es) = typesOf check schema es
  | [], _ => rfl
  | e :: es, typed => by
    rw [itemAttributes, List.forall_mem_append] at typed
    rw [substituteItems, typesOf, typesOf, typeOf_substitute typed.1, typesOf_substitute typed.2]

theorem branchTypesOf_substitute : ∀ {bs : List (Expr × Expr)},
    (∀ name ∈ branchAttributes bs, TypedAs check bound schema schema' name) →
      branchTypesOf check schema' (substituteBranches bound bs) = branchTypesOf check schema bs
  | [], _ => rfl
  | (condition, result) :: bs, typed => by
    rw [branchAttributes, List.forall_mem_append, List.forall_mem_append] at typed
    rw [substituteBranches, branchTypesOf, branchTypesOf, typeOf_substitute typed.1.1,
      typeOf_substitute typed.1.2, branchTypesOf_substitute typed.2]

end

/-- A type depends on the types of the attributes only. -/
theorem typeOf_congr {e : Expr}
    (agree : ∀ name ∈ e.attributes, schema'.get? name = schema.get? name) :
    e.typeOf check schema' = e.typeOf check schema := by
  have typed : ∀ name ∈ e.attributes, TypedAs check (fun _ => none) schema schema' name := by
    intro name read
    rw [TypedAs, standIn, Option.getD_none, typeOf, typeOf, agree name read]
  have same := typeOf_substitute typed
  rwa [substitute_of_unbound fun _ _ => rfl] at same

/-- If what stands for each attribute of an expression has the type of the attribute, the
substituted expression has the type of the expression, in both modes and errors included. In
particular schemas that give the attributes the same types give the expression the same type. The
attributes of the substituted expression are those of the expressions that stand for its attributes.
-/
theorem typeOf_substitution (check : TypeCheck) (e : Expr) (bound : String → Option Expr)
    (schema schema' : Schema) :
    ((∀ name ∈ e.attributeNames,
        ((bound name).getD (.attr name)).typeOf check schema' = (attr name).typeOf check schema) →
      (e.substitute bound).typeOf check schema' = e.typeOf check schema) ∧
    ((∀ name ∈ e.attributeNames, schema'.get? name = schema.get? name) →
      e.typeOf check schema' = e.typeOf check schema) ∧
    (∀ name, name ∈ (e.substitute bound).attributeNames ↔
      ∃ own ∈ e.attributeNames, name ∈ ((bound own).getD (.attr own)).attributeNames) := by
  simp only [mem_attributeNames]
  refine ⟨typeOf_substitute, typeOf_congr, fun name => ?_⟩
  rw [attributes_substitute, List.mem_flatMap]
  rfl

end Expr

namespace Sample

/-- A known person for the one of a row, and a column of another name for the number. -/
def knownPerson (name : String) : Option Expr :=
  if name = "p" then some ada else if name = "a" then some (.attr "x") else none

/-- The person of a row with a small number keeps its type if a known person and another column
stand for the attributes, and then reads that column only. -/
theorem smallPerson_substituted :
    smallPerson.attributeNames = ["a", "p"] ∧
    (smallPerson.substitute knownPerson).typeOf ⟨true, .empty⟩ (.single "x" .integer) =
      .ok (.nullable personType) ∧
    smallPerson.typeOf ⟨true, .empty⟩ ⟨[("p", personType), ("a", .integer)]⟩ =
      .ok (.nullable personType) ∧
    "x" ∈ (smallPerson.substitute knownPerson).attributeNames := by
  have substitution :=
    smallPerson.typeOf_substitution ⟨true, .empty⟩ knownPerson
      ⟨[("p", personType), ("a", .integer)]⟩ (.single "x" .integer)
  have names : smallPerson.attributeNames = ["a", "p"] := by decide
  refine ⟨names, ?_, rfl, (substitution.2.2 "x").2 ⟨"a", by decide, by decide⟩⟩
  refine (substitution.1 ?_).trans rfl
  rw [names, List.forall_mem_cons, List.forall_mem_singleton]
  exact ⟨rfl, rfl⟩

end Sample

end FlatPlan
