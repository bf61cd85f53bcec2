import FlatPlan.Proofs.TypeForms
import FlatPlan.Universe

/-!
# Universes built by registrations

A universe starts empty or with what is built in, and types, relations and operators are registered
in it one after another, over what had their names before. Main statement: whatever was registered
in which order, everything stands under its own name, and the types are base types
(`Universe.Built.coherent`).
-/

namespace FlatPlan

namespace NameMap

variable {α : Type} {m : NameMap α} {p : String → α → Prop}

/-- Whether each entry has a property together with its name. -/
def Every (p : String → α → Prop) (m : NameMap α) : Prop :=
  ∀ ⦃name a⦄, m.find? name = some a → p name a

theorem every_empty : (empty : NameMap α).Every p := by
  intro name a h
  cases h

/-- What holds of every entry still does after entering one more. -/
theorem Every.insert (h : m.Every p) {name : String} {a : α} (own : p name a) :
    (m.insert name a).Every p := by
  intro key b found
  rw [find?_insert] at found
  split at found
  case isTrue same =>
    cases found
    exact same ▸ own
  case isFalse => exact h found

/-- What holds of every entry still does after entering more. -/
theorem Every.insertAll {entries : List (String × α)} (h : m.Every p)
    (each : ∀ entry ∈ entries, p entry.1 entry.2) : (m.insertAll entries).Every p := by
  induction entries generalizing m with
  | nil => exact h
  | cons entry entries ih =>
    rw [List.forall_mem_cons] at each
    exact ih (h.insert each.1) each.2

end NameMap

namespace Universe

variable {p : BaseTy → Prop} {u : Universe}

/-- A universe that registrations have built, where the base types registered have a property. -/
inductive Built (p : BaseTy → Prop) : Universe → Prop
  | empty : Built p empty
  | builtins : Built p builtins
  | registerType {u next : Universe} {t : Ty} {events : List Event} (built : u.Built p)
    (own : t.EveryBase p) (registered : u.registerType t = .ok (next, events)) : Built p next
  | registerRelation {u next : Universe} {q : Query} {events : List Event} (built : u.Built p)
    (registered : u.registerRelation q = .ok (next, events)) : Built p next
  | registerOperator {u : Universe} {op : Operator}
      (built : u.Built p) : Built p (u.registerOperator op)

/-- A universe whose types, which are base types with a property, relations and operators have the
names under which they stand. -/
structure Coherent (p : BaseTy → Prop) (u : Universe) : Prop where
  types : u.types.Every fun name t => ∃ b, t = .base b ∧ b.name = name ∧ p b
  relations : u.relations.Every fun name q => ∃ schema, q.relation? = some (name, schema)
  operators : u.operators.Every fun name op => op.name = name

theorem coherent_empty : empty.Coherent p :=
  ⟨NameMap.every_empty, NameMap.every_empty, NameMap.every_empty⟩

/-- The built-in types are held under their names. -/
theorem coherent_builtins
    (own : ∀ entry ∈ Ty.builtins, ∃ b, entry.2 = .base b ∧ b.name = entry.1 ∧ p b) :
    builtins.Coherent p := by
  refine ⟨NameMap.every_empty.insertAll own, NameMap.every_empty, NameMap.every_empty.insertAll ?_⟩
  intro entry member
  obtain ⟨op, _, rfl⟩ := List.mem_map.1 member
  rfl

/-- Registering a type keeps every type under its name. -/
theorem Coherent.registerType (h : u.Coherent p) {t : Ty} (own : t.EveryBase p) {next : Universe}
    {events : List Event} (registered : u.registerType t = .ok (next, events)) :
    next.Coherent p := by
  cases t with
  | base b =>
    cases registered
    exact ⟨h.types.insert ⟨b, rfl, rfl, own⟩, h.relations, h.operators⟩
  | _ => cases registered

/-- Registering a relation touches no type. -/
theorem Coherent.registerRelation (h : u.Coherent p) {q : Query} {next : Universe}
    {events : List Event} (registered : u.registerRelation q = .ok (next, events)) :
    next.Coherent p := by
  unfold Universe.registerRelation at registered
  split at registered
  case h_1 name schema relation =>
    cases registered
    exact ⟨h.types, h.relations.insert ⟨schema, relation⟩, h.operators⟩
  case h_2 => cases registered

/-- Registering an operator touches no type. -/
theorem Coherent.registerOperator (h : u.Coherent p) (op : Operator) :
    (u.registerOperator op).Coherent p :=
  ⟨h.types, h.relations, h.operators.insert rfl⟩

/-- Registrations keep everything under its own name. -/
theorem Built.coherent
    (own : ∀ entry ∈ Ty.builtins, ∃ b, entry.2 = .base b ∧ b.name = entry.1 ∧ p b) (h : u.Built p) :
    u.Coherent p := by
  induction h with
  | empty => exact coherent_empty
  | builtins => exact coherent_builtins own
  | registerType _ base registered ih => exact ih.registerType base registered
  | registerRelation _ registered ih => exact ih.registerRelation registered
  | registerOperator _ ih => exact ih.registerOperator _

end Universe

end FlatPlan
