import Mathlib.Algebra.Ring.Nat
import FlatPlan.Proofs.Substitution

/-!
# Substitutions one after the other

A substitution replaces the attributes of an expression and leaves everything else at its place:
`Expr.at?` is the part of an expression at a path, and `Expr.at?_substitute_cases` says what stands
there after one. Main statement: two substitutions one after the other are one, a substitution adds
the aggregations of what it puts at each place of an attribute, and it leaves subqueries as they are
(`Expr.substitutions_compose`).
-/

namespace FlatPlan

namespace Expr

variable {bound first second : String → Option Expr} {e f : Expr} {name : String} {path : List Nat}

/-! ## Two substitutions -/

/-- One substitution after another: the second is made in what the first binds, and binds the other
names. -/
def composed (first second : String → Option Expr) (name : String) : Option Expr :=
  match first name with
  | some e => some (e.substitute second)
  | none => second name

theorem standIn_composed (first second : String → Option Expr) (name : String) :
    standIn (composed first second) name = (standIn first name).substitute second := by
  unfold standIn composed
  cases first name with
  | some e => rfl
  | none => rw [Option.getD_none, substitute]

mutual

theorem substitute_substitute (first second : String → Option Expr) : ∀ e : Expr,
    (e.substitute first).substitute second = e.substitute (composed first second)
  | .attr name => by
    rw [substitute, substitute]
    exact (standIn_composed first second name).symm
  | .const _ _ | .null _ | .scalarSubquery _ | .setSubquery _ => by simp only [substitute]
  | .apply op args => by
    rw [substitute, substitute, substitute, substituteItems_substituteItems first second args]
  | .tuple items => by
    rw [substitute, substitute, substitute, substituteItems_substituteItems first second items]
  | .aggregate fn arg => by
    rw [substitute, substitute, substitute, substitute_substitute first second arg]
  | .multiAggregate fn args => by
    rw [substitute, substitute, substitute, substituteItems_substituteItems first second args]
  | .case branches default => by
    rw [substitute, substitute, substitute,
      substituteBranches_substituteBranches first second branches,
      substitute_substitute first second default]

theorem substituteItems_substituteItems (first second : String → Option Expr) : ∀ es : List Expr,
    substituteItems second (substituteItems first es) = substituteItems (composed first second) es
  | [] => rfl
  | e :: es => by
    rw [substituteItems, substituteItems, substituteItems, substitute_substitute first second e,
      substituteItems_substituteItems first second es]

theorem substituteBranches_substituteBranches (first second : String → Option Expr) :
    ∀ bs : List (Expr × Expr),
    substituteBranches second (substituteBranches first bs) =
      substituteBranches (composed first second) bs
  | [] => rfl
  | (condition, result) :: bs => by
    rw [substituteBranches, substituteBranches, substituteBranches,
      substitute_substitute first second condition, substitute_substitute first second result,
      substituteBranches_substituteBranches first second bs]

end

/-! ## Aggregations -/

/-- The number of aggregations that a substitution puts at the place of an attribute. -/
def boundAggregates (bound : String → Option Expr) (name : String) : Nat :=
  ((bound name).map aggregateCount).getD 0

mutual

/-- A substitution adds the aggregations of the bound expression at each place of an attribute. -/
theorem aggregateCount_substitute (bound : String → Option Expr) : ∀ e : Expr,
    (e.substitute bound).aggregateCount =
      e.aggregateCount + (e.attributes.map (boundAggregates bound)).sum
  | .attr name => by
    rw [substitute, attributes, aggregateCount, List.map_singleton, List.sum_singleton,
      Nat.zero_add, boundAggregates]
    cases bound name with
    | some e => rfl
    | none => rw [Option.getD_none, aggregateCount]; rfl
  | .const _ _ | .null _ | .scalarSubquery _ | .setSubquery _ => by
    simp only [substitute, aggregateCount, attributes, List.map_nil, List.sum_nil, Nat.add_zero]
  | .apply op args => by
    rw [substitute, aggregateCount, aggregateCount, attributes,
      itemAggregateCount_substitute bound args]
  | .tuple items => by
    rw [substitute, aggregateCount, aggregateCount, attributes,
      itemAggregateCount_substitute bound items]
  | .aggregate fn arg => by
    rw [substitute, aggregateCount, aggregateCount, attributes, aggregateCount_substitute bound arg,
      Nat.add_right_comm]
  | .multiAggregate fn args => by
    rw [substitute, aggregateCount, aggregateCount, attributes,
      itemAggregateCount_substitute bound args, Nat.add_right_comm]
  | .case branches default => by
    rw [substitute, aggregateCount, aggregateCount, attributes,
      branchAggregateCount_substitute bound branches, aggregateCount_substitute bound default,
      List.map_append, List.sum_append, Nat.add_add_add_comm]

theorem itemAggregateCount_substitute (bound : String → Option Expr) : ∀ es : List Expr,
    itemAggregateCount (substituteItems bound es) =
      itemAggregateCount es + ((itemAttributes es).map (boundAggregates bound)).sum
  | [] => rfl
  | e :: es => by
    rw [substituteItems, itemAggregateCount, itemAggregateCount, itemAttributes,
      aggregateCount_substitute bound e, itemAggregateCount_substitute bound es, List.map_append,
      List.sum_append, Nat.add_add_add_comm]

theorem branchAggregateCount_substitute (bound : String → Option Expr) : ∀ bs : List (Expr × Expr),
    branchAggregateCount (substituteBranches bound bs) =
      branchAggregateCount bs + ((branchAttributes bs).map (boundAggregates bound)).sum
  | [] => rfl
  | (condition, result) :: bs => by
    rw [substituteBranches, branchAggregateCount, branchAggregateCount, branchAttributes,
      aggregateCount_substitute bound condition, aggregateCount_substitute bound result,
      branchAggregateCount_substitute bound bs, List.map_append, List.map_append, List.sum_append,
      List.sum_append, Nat.add_add_add_comm condition.aggregateCount, Nat.add_add_add_comm]

end

/-! ## Places -/

/-- The expressions of which an expression is made, in order. A subquery is not one of them. -/
def parts : Expr → List Expr
  | .attr _ | .const _ _ | .null _ | .scalarSubquery _ | .setSubquery _ => []
  | .apply _ args => args
  | .tuple items => items
  | .aggregate _ arg => [arg]
  | .multiAggregate _ args => args
  | .case branches default => branches.flatMap (fun b => [b.1, b.2]) ++ [default]

/-- What stands at the end of a path, which says at each step to which part to go. -/
def at? : Expr → List Nat → Option Expr
  | e, [] => some e
  | e, i :: path => e.parts[i]?.bind fun part => part.at? path

/-- Whether an expression is a subquery. -/
def isSubquery : Expr → Bool
  | .scalarSubquery _ | .setSubquery _ => true
  | _ => false

theorem substituteItems_eq_map (bound : String → Option Expr) (es : List Expr) :
    substituteItems bound es = es.map (substitute bound) := by
  induction es with
  | nil => rfl
  | cons e es ih => rw [substituteItems, ih, List.map_cons]

theorem substituteBranches_eq_map (bound : String → Option Expr) (bs : List (Expr × Expr)) :
    substituteBranches bound bs = bs.map fun b => (b.1.substitute bound, b.2.substitute bound) := by
  induction bs with
  | nil => rfl
  | cons b bs ih => rw [substituteBranches, ih, List.map_cons]

/-- The parts of anything but an attribute are substituted one by one. -/
theorem parts_substitute (bound : String → Option Expr) (other : ∀ name, e ≠ .attr name) :
    (e.substitute bound).parts = e.parts.map (substitute bound) := by
  cases e with
  | attr name => exact absurd rfl (other name)
  | const | null | scalarSubquery | setSubquery => rw [substitute]; rfl
  | apply op args => rw [substitute, parts, parts, substituteItems_eq_map]
  | tuple items => rw [substitute, parts, parts, substituteItems_eq_map]
  | aggregate fn arg => rw [substitute]; rfl
  | multiAggregate fn args => rw [substitute, parts, parts, substituteItems_eq_map]
  | case branches default =>
    rw [substitute, parts, parts, substituteBranches_eq_map, List.map_append, List.flatMap_map,
      List.map_flatMap]
    rfl

theorem at?_append (e : Expr) (outer inner : List Nat) :
    e.at? (outer ++ inner) = (e.at? outer).bind fun part => part.at? inner := by
  induction outer generalizing e with
  | nil => rfl
  | cons i outer ih => simp only [List.cons_append, at?, Option.bind_assoc, ih]

/-- A substitution is made at every place. -/
theorem at?_substitute_of_at? (h : e.at? path = some f) :
    (e.substitute bound).at? path = some (f.substitute bound) := by
  induction path generalizing e with
  | nil =>
    cases h
    rfl
  | cons i path ih =>
    -- the path goes on, and an attribute has no parts
    have other : ∀ name, e ≠ .attr name := by
      rintro name rfl
      cases h
    rw [at?, Option.bind_eq_some_iff] at h
    obtain ⟨part, found, rest⟩ := h
    rw [at?, parts_substitute bound other, List.getElem?_map, found]
    exact ih rest

/-- What stands at a path after a substitution: what stood there, substituted, or a part of what was
put at the place of an attribute. -/
theorem at?_substitute_cases (h : (e.substitute bound).at? path = some f) :
    (∃ old, e.at? path = some old ∧ f = old.substitute bound) ∨
      ∃ outer inner name, path = outer ++ inner ∧ e.at? outer = some (.attr name) ∧
        (standIn bound name).at? inner = some f := by
  induction path generalizing e with
  | nil =>
    cases h
    exact .inl ⟨e, rfl, rfl⟩
  | cons i path ih =>
    by_cases reads : ∃ name, e = .attr name
    · -- an attribute has no parts, so the path leads on into what stands for it
      obtain ⟨name, rfl⟩ := reads
      rw [substitute] at h
      exact .inr ⟨[], i :: path, name, rfl, rfl, h⟩
    · rw [at?, parts_substitute bound fun name equal => reads ⟨name, equal⟩, List.getElem?_map,
        Option.bind_eq_some_iff] at h
      obtain ⟨part, found, rest⟩ := h
      obtain ⟨old, among, rfl⟩ := Option.map_eq_some_iff.1 found
      have below : ∀ inner, e.at? (i :: inner) = old.at? inner := by
        intro inner
        rw [at?, among, Option.bind_some]
      rcases ih rest with ⟨own, there, equal⟩ | ⟨outer, inner, name, rfl, there, put⟩
      · exact .inl ⟨own, (below path).trans there, equal⟩
      · exact .inr ⟨i :: outer, inner, name, rfl, (below outer).trans there, put⟩

theorem substitute_of_isSubquery (h : e.isSubquery = true) : e.substitute bound = e := by
  cases e with
  | scalarSubquery | setSubquery => rw [substitute]
  | _ => cases h

/-- The subqueries after a substitution are those of the expression, at their places, and those of
what was put at the places of attributes. -/
theorem at?_substitute_subquery (subquery : f.isSubquery = true) :
    (e.substitute bound).at? path = some f ↔
    e.at? path = some f ∨ ∃ outer inner name, path = outer ++ inner ∧
      e.at? outer = some (.attr name) ∧ (standIn bound name).at? inner = some f := by
  constructor
  · intro h
    rcases at?_substitute_cases h with ⟨old, there, rfl⟩ | put
    · cases old with
      | attr name =>
        rw [substitute]
        exact .inr ⟨path, [], name, (List.append_nil path).symm, there, rfl⟩
      | scalarSubquery | setSubquery =>
        rw [substitute]
        exact .inl there
      | _ =>
        rw [substitute] at subquery
        cases subquery
    · exact .inr put
  · rintro (there | ⟨outer, inner, name, rfl, there, put⟩)
    · rw [at?_substitute_of_at? there, substitute_of_isSubquery subquery]
    · rw [at?_append, at?_substitute_of_at? there, substitute]
      exact put

/-- Two substitutions one after the other are one, which substitutes the second in what the first
binds. After a substitution, an expression makes its own aggregations and, for each place where it
reads an attribute, those of the expression bound to it. Its subqueries stay as they are and where
they are, and no others come in but those of the bound expressions. -/
theorem substitutions_compose (e : Expr) (first second : String → Option Expr) :
    (e.substitute first).substitute second = e.substitute (composed first second) ∧
    (e.substitute first).aggregateCount =
      e.aggregateCount +
        (e.attributes.map fun name => ((first name).map aggregateCount).getD 0).sum ∧
    ∀ path f, f.isSubquery = true →
      ((e.substitute first).at? path = some f ↔
        e.at? path = some f ∨ ∃ outer inner name, path = outer ++ inner ∧
          e.at? outer = some (.attr name) ∧ ((first name).getD (.attr name)).at? inner = some f) :=
  ⟨substitute_substitute first second e, aggregateCount_substitute first e,
    fun _ _ subquery => at?_substitute_subquery subquery⟩

end Expr

namespace Sample

/-- A number twice, the sum of others, and the number of people. -/
def tally : Expr :=
  .tuple [.attr "a", .apply (.arithmetic "+") [.attr "a", .aggregate .sum (.attr "b")],
    .scalarSubquery headcount]

/-- Attributes of which one is bound to what reads the other. -/
def crossed (name : String) : Option Expr :=
  if name = "a" then some (.aggregate .max (.attr "b"))
  else if name = "b" then some (.setSubquery tableU)
  else none

/-- Substituting twice puts what the second substitution binds into what the first one bound. The
aggregation bound to an attribute that is read twice counts twice, and the old subquery stays beside
the one that comes in. -/
theorem tally_substituted :
    (tally.substitute crossed).substitute crossed =
      tally.substitute (Expr.composed crossed crossed) ∧
    (Expr.composed crossed crossed "a") = some (.aggregate .max (.setSubquery tableU)) ∧
    tally.aggregateCount = 1 ∧ (tally.substitute crossed).aggregateCount = 3 ∧
    (tally.substitute crossed).at? [2] = some (.scalarSubquery headcount) ∧
    (tally.substitute crossed).at? [1, 1, 0] = some (.setSubquery tableU) := by
  obtain ⟨composes, counts, places⟩ := tally.substitutions_compose crossed crossed
  refine ⟨composes, rfl, rfl, counts, (places [2] _ rfl).2 (.inl rfl), ?_⟩
  exact (places [1, 1, 0] _ rfl).2 (.inr ⟨[1, 1, 0], [], "b", rfl, rfl, rfl⟩)

end Sample

end FlatPlan
