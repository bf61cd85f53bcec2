import FlatPlan.Operator.Standard
import FlatPlan.Proofs.Vocabulary

/-!
# Operators that flattening keeps

Flattening leaves most operators alone: they take scalars and give scalars, so their flat arguments
are no tuples (`Operator.OnScalars`). The two equality comparisons take arguments of any type and
are compared part by part. Every standard operator is of one of these kinds
(`Operator.regular_of_standard`).
-/

namespace FlatPlan.Operator

/-- An operator on scalars. Flattening keeps it, and what checked mode accepts permissive mode
accepts. -/
structure OnScalars (v : Vocabulary) (op : Operator) : Prop where
  plain : op.flattening = .plain
  range : ∀ {types : List Ty} {type : Ty}, (∀ t ∈ types, v.Names t) →
    op.range v.checked types = .ok type →
    (∀ t ∈ types, t.isScalar = true) ∧ type.isScalar = true ∧ v.Names type ∧
      op.range v.permissive types = .ok type

/-- An operator on scalars, or one of the two equality comparisons. -/
def Regular (v : Vocabulary) (op : Operator) : Prop :=
  op.OnScalars v ∨ op = comparison "=" ∨ op = comparison "<>"

variable {v : Vocabulary}

theorem expectComparable_checked {left right : Ty} (hl : v.Names left) (hr : v.Names right) :
    expectComparable v.checked left right = .ok () ↔ left.nonNull = right.nonNull := by
  unfold expectComparable
  rw [Session.require_checked, Ty.beq_iff_eq (Ty.namedIn_nonNull hl) (Ty.namedIn_nonNull hr)]

/-- A type that differs from a scalar in null only is a scalar. -/
theorem isScalar_of_nonNull_eq {a b : Ty} (h : a.nonNull = b.nonNull) (scalar : a.isScalar = true) :
    b.isScalar = true := by
  rw [Ty.isScalar_iff] at scalar ⊢
  exact ⟨Ty.layout?_eq_of_nonNull_eq h ▸ scalar.1, h ▸ scalar.2⟩

theorem arithmetic_onScalars (name : String) : (arithmetic name).OnScalars v where
  plain := rfl
  range named h := by
    simp only [arithmetic, onTwo_eq_ok, bind_eq_ok, pure_eq_ok] at h
    obtain ⟨left, right, rfl, _, numericLeft, _, numericRight, _, _, rfl⟩ := h
    simp only [List.forall_mem_cons] at named
    have scalarLeft :=
      v.isScalar_of_isNumeric named.1 (Vocabulary.expectNumeric_checked.1 numericLeft)
    have scalarRight :=
      v.isScalar_of_isNumeric named.2.1 (Vocabulary.expectNumeric_checked.1 numericRight)
    refine ⟨?_, scalarLeft, named.1, ?_⟩
    · simp only [List.forall_mem_cons]
      exact ⟨scalarLeft, scalarRight, fun _ member => nomatch member⟩
    · simp only [arithmetic, onTwo, bind_eq_ok, pure_eq_ok]
      exact ⟨(), Session.require_permissive, (), Session.require_permissive, (),
        Session.require_permissive, trivial⟩

theorem logical_onScalars (name : String) : (logical name).OnScalars v where
  plain := rfl
  range named h := by
    simp only [logical, onTwo_eq_ok, bind_eq_ok, pure_eq_ok] at h
    obtain ⟨left, right, rfl, _, booleanLeft, _, booleanRight, rfl⟩ := h
    simp only [List.forall_mem_cons] at named
    rw [Vocabulary.expect_checked Vocabulary.names_boolean named.1] at booleanLeft
    rw [Vocabulary.expect_checked Vocabulary.names_boolean named.2.1] at booleanRight
    refine ⟨?_, rfl, Vocabulary.names_boolean, ?_⟩
    · simp only [List.forall_mem_cons, booleanLeft, booleanRight]
      exact ⟨rfl, rfl, fun _ member => nomatch member⟩
    · simp only [logical, onTwo, bind_eq_ok, pure_eq_ok]
      exact ⟨(), Session.require_permissive, (), Session.require_permissive, trivial⟩

theorem negation_onScalars : negation.OnScalars v where
  plain := rfl
  range {types type} named h := by
    match types with
    | [arg] =>
      simp only [List.forall_mem_cons] at named
      simp only [negation, bind_eq_ok, pure_eq_ok] at h
      obtain ⟨_, boolean, rfl⟩ := h
      rw [Vocabulary.expect_checked Vocabulary.names_boolean named.1] at boolean
      refine ⟨?_, rfl, Vocabulary.names_boolean, ?_⟩
      · simp only [List.forall_mem_cons, boolean]
        exact ⟨rfl, fun _ member => nomatch member⟩
      · simp only [negation, bind_eq_ok, pure_eq_ok]
        exact ⟨(), Session.require_permissive, trivial⟩
    | [] | _ :: _ :: _ => cases h

/-- A comparison for order accepts ordered types, which are scalars. -/
theorem comparison_onScalars {name : String} (order : isEquality name = false) :
    (comparison name).OnScalars v where
  plain := by
    simp only [isEquality, Bool.or_eq_false_iff, decide_eq_false_iff_not] at order
    simp [comparison, comparisonFlattening, order.1, order.2]
  range named h := by
    simp only [comparison, order, onTwo_eq_ok, bind_eq_ok, pure_eq_ok, Bool.false_eq_true,
      if_false] at h
    obtain ⟨left, right, rfl, _, comparable, _, ordered, rfl⟩ := h
    simp only [List.forall_mem_cons] at named
    rw [expectComparable_checked named.1 named.2.1] at comparable
    have scalar := v.isScalar_of_isOrdered named.1 (Vocabulary.expectOrdered_checked.1 ordered)
    refine ⟨?_, rfl, Vocabulary.names_boolean, ?_⟩
    · simp only [List.forall_mem_cons]
      exact ⟨scalar, isScalar_of_nonNull_eq comparable scalar, fun _ member => nomatch member⟩
    · simp only [comparison, onTwo, order, bind_eq_ok, pure_eq_ok, Bool.false_eq_true, if_false]
      exact ⟨(), Session.require_permissive, (), Session.require_permissive, trivial⟩

/-- An equality comparison takes two types that differ in null only. -/
theorem range_equality {name : String} (equality : isEquality name = true) {types : List Ty}
    {type : Ty} (named : ∀ t ∈ types, v.Names t) :
    (comparison name).range v.checked types = .ok type ↔
      ∃ left right, types = [left, right] ∧ left.nonNull = right.nonNull ∧ type = .boolean := by
  simp only [comparison, equality, onTwo_eq_ok, bind_eq_ok, pure_eq_ok, if_true]
  refine exists₂_congr fun left right => and_congr_right ?_
  rintro rfl
  simp only [List.forall_mem_cons] at named
  rw [← expectComparable_checked named.1 named.2.1]
  constructor
  · rintro ⟨_, comparable, rfl⟩
    exact ⟨comparable, rfl⟩
  · rintro ⟨comparable, rfl⟩
    exact ⟨(), comparable, rfl⟩

theorem range_equality_permissive {name : String} (equality : isEquality name = true)
    (left right : Ty) :
    (comparison name).range v.permissive [left, right] = .ok .boolean := by
  simp only [comparison, onTwo, equality, bind_eq_ok, pure_eq_ok, if_true]
  exact ⟨(), Session.require_permissive, trivial⟩

theorem regular_equality {name : String} (equality : isEquality name = true) :
    (comparison name).Regular v := by
  simp only [isEquality, Bool.or_eq_true, decide_eq_true_eq] at equality
  rcases equality with rfl | rfl
  · exact .inr (.inl rfl)
  · exact .inr (.inr rfl)

theorem Regular.noLookup {op : Operator} (regular : op.Regular v) : op.lookupSource? = none := by
  rcases regular with scalars | rfl | rfl
  · rw [lookupSource?, scalars.plain]
  · rfl
  · rfl

theorem regular_of_standard {op : Operator} (h : op ∈ standard) : op.Regular v := by
  simp only [standard, List.mem_append, List.mem_map, List.mem_cons, List.not_mem_nil,
    or_false] at h
  rcases h with ((⟨name, _, rfl⟩ | ⟨name, cases, rfl⟩) | ⟨name, _, rfl⟩) | rfl
  · exact .inl (arithmetic_onScalars name)
  · rcases cases with rfl | rfl | rfl | rfl | rfl | rfl
    · exact .inr (.inl rfl)
    · exact .inr (.inr rfl)
    all_goals exact .inl (comparison_onScalars rfl)
  · exact .inl (logical_onScalars name)
  · exact .inl negation_onScalars

/-- What checked mode makes of an application, permissive mode makes of it too. -/
theorem Regular.range_permissive {op : Operator} (regular : op.Regular v) {types : List Ty}
    {type : Ty} (named : ∀ t ∈ types, v.Names t) (h : op.range v.checked types = .ok type) :
    v.Names type ∧ op.range v.permissive types = .ok type := by
  rcases regular with scalars | rfl | rfl
  · obtain ⟨_, _, namedType, accepted⟩ := scalars.range named h
    exact ⟨namedType, accepted⟩
  · obtain ⟨left, right, rfl, _, rfl⟩ := (range_equality rfl named).1 h
    exact ⟨Vocabulary.names_boolean, range_equality_permissive rfl left right⟩
  · obtain ⟨left, right, rfl, _, rfl⟩ := (range_equality rfl named).1 h
    exact ⟨Vocabulary.names_boolean, range_equality_permissive rfl left right⟩

end FlatPlan.Operator
