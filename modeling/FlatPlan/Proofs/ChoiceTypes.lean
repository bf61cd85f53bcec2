import Mathlib.Data.List.Perm.Basic
import FlatPlan.Proofs.SampleVocabulary
import FlatPlan.Proofs.TypeForms

/-!
# The type of a choice

The type of a choice is computed from its last branch backwards. What comes out is a join: without
null it is the one type that all results have without null, and it has null if one of them has
(`Ty.JoinOf`). Main statement: the order of the branches plays no part in it, nor does which of the
results is the default (`Expr.typeOf_choice`).
-/

namespace FlatPlan

/-! ## Types that compare as the same -/

namespace Ty

mutual

theorem same_symm : ∀ {a b : Ty}, a.same b = true → b.same a = true
  | .base a, .base b, h => BEq.symm (show (a.name == b.name) = true from h)
  | .nullable a, .nullable b, h => same_symm (a := a) (b := b) h
  | .product as, .product bs, h => @sameItems_symm as bs h
  | .set a, .set b, h => same_symm (a := a) (b := b) h
  | .boundedString m, .boundedString n, h => BEq.symm (show (m == n) = true from h)

theorem sameItems_symm : ∀ {as bs : List Ty}, sameItems as bs = true → sameItems bs as = true
  | [], [], _ => rfl
  | a :: as, b :: bs, h => by
    rw [sameItems, Bool.and_eq_true] at h ⊢
    exact ⟨same_symm h.1, sameItems_symm h.2⟩

end

mutual

theorem same_trans : ∀ {a b c : Ty}, a.same b = true → b.same c = true → a.same c = true
  | .base a, .base b, .base c, h, h' =>
    BEq.trans (show (a.name == b.name) = true from h) (show (b.name == c.name) = true from h')
  | .nullable a, .nullable b, .nullable c, h, h' => same_trans (a := a) (b := b) (c := c) h h'
  | .product as, .product bs, .product cs, h, h' => @sameItems_trans as bs cs h h'
  | .set a, .set b, .set c, h, h' => same_trans (a := a) (b := b) (c := c) h h'
  | .boundedString l, .boundedString m, .boundedString n, h, h' =>
    BEq.trans (show (l == m) = true from h) (show (m == n) = true from h')

theorem sameItems_trans : ∀ {as bs cs : List Ty}, sameItems as bs = true → sameItems bs cs = true →
    sameItems as cs = true
  | [], [], [], _, _ => rfl
  | a :: as, b :: bs, c :: cs, h, h' => by
    rw [sameItems, Bool.and_eq_true] at h h' ⊢
    exact ⟨same_trans h.1 h'.1, sameItems_trans h.2 h'.2⟩

end

/-- Types are the same if they are so without null and both have null or neither. -/
theorem same_iff {s t : Ty} : s == t ↔ s.nonNull == t.nonNull ∧ s.isNullable = t.isNullable := by
  cases s <;> cases t <;> simp [BEq.beq, same, nonNull, isNullable]

theorem nonNull_orNull {t : Ty} (once : t.isNullable = false) : t.orNull.nonNull = t := by
  rw [orNull_of_not_nullable once, nonNull]

/-! ## Joins -/

/-- A type that is the same as all parts without null, and has null if one of them has. -/
structure JoinOf (type : Ty) (parts : List Ty) : Prop where
  nonNull : ∀ t ∈ parts, type.nonNull == t.nonNull
  null : type.isNullable = parts.any isNullable

namespace JoinOf

variable {type other t : Ty} {parts : List Ty}

/-- Joins of the same parts are the same. -/
theorem same (h : type.JoinOf parts) (h' : other.JoinOf parts) (part : t ∈ parts) : type == other :=
  same_iff.2 ⟨same_trans (h.nonNull t part) (same_symm (h'.nonNull t part)),
    h.null.trans h'.null.symm⟩

/-- Only which types are among the parts counts. -/
theorem congr {parts' : List Ty} (h : type.JoinOf parts) (members : ∀ t, t ∈ parts' ↔ t ∈ parts) :
    type.JoinOf parts' := by
  refine ⟨fun t part => h.nonNull t ((members t).1 part), h.null.trans ?_⟩
  rw [Bool.eq_iff_iff, List.any_eq_true, List.any_eq_true]
  simp only [members]

/-- A join with one more part. -/
theorem cons (h : other.JoinOf parts) (both : type.JoinOf [t, other]) :
    type.JoinOf (t :: parts) := by
  have rest : type.nonNull == other.nonNull := both.nonNull other (by simp)
  refine ⟨List.forall_mem_cons.2 ⟨both.nonNull t List.mem_cons_self, fun s part => ?_⟩, ?_⟩
  · exact same_trans rest (h.nonNull s part)
  · rw [both.null, List.any_cons, List.any_cons, List.any_nil, Bool.or_false, h.null, List.any_cons]

/-- Parts that are all the same are their join. -/
theorem of_same (h : type.JoinOf parts) (part : t ∈ parts) (all : ∀ s ∈ parts, s == t) :
    type == t := by
  refine same_iff.2 ⟨h.nonNull t part, h.null.trans ?_⟩
  rw [Bool.eq_iff_iff, List.any_eq_true]
  constructor
  · rintro ⟨s, member, null⟩
    rw [← (same_iff.1 (all s member)).2, null]
  · exact fun null => ⟨t, part, null⟩

/-- The join of parts of which two differ has null. -/
theorem of_different (h : type.JoinOf parts) (part : t ∈ parts)
    (once : t.nonNull.isNullable = false) (different : ¬∀ s ∈ parts, s == t) :
    type == t.nonNull.orNull := by
  refine same_iff.2 ⟨?_, ?_⟩
  · rw [nonNull_orNull once]
    exact h.nonNull t part
  · rw [isNullable_orNull, h.null]
    by_contra none
    -- Without null the parts are the same, so they would be so as they are.
    rw [Bool.not_eq_true, List.any_eq_false] at none
    refine different fun s member => same_iff.2 ⟨?_, ?_⟩
    · exact same_trans (same_symm (h.nonNull s member)) (h.nonNull t part)
    · rw [Bool.eq_false_iff.2 (none s member), Bool.eq_false_iff.2 (none t part)]

end JoinOf

end Ty

/-! ## Choices -/

namespace TypeCheck

variable {check : TypeCheck} {branches : List (Ty × Ty)} {default type : Ty}

theorem exists_unify (checked : check.checked = true) {left right : Ty}
    (agree : left.nonNull == right.nonNull) :
    ∃ type, check.unify left right = .ok type := by
  simp only [unify_of_checked checked]
  by_cases same : left == right
  · exact ⟨left, .inl ⟨same, rfl⟩⟩
  · exact ⟨_, .inr ⟨same, agree, rfl⟩⟩

/-- The common type of two types is their join. -/
theorem joinOf_unify (checked : check.checked = true) {left right : Ty}
    (once : left.nonNull.isNullable = false) (h : check.unify left right = .ok type) :
    type.JoinOf [left, right] := by
  rcases (unify_of_checked checked).1 h with ⟨same, rfl⟩ | ⟨different, agree, rfl⟩
  · obtain ⟨agree, null⟩ := Ty.same_iff.1 same
    refine ⟨List.forall_mem_cons.2 ⟨Ty.same_self _, List.forall_mem_singleton.2 agree⟩, ?_⟩
    simp [null]
  · have stripped : left.nonNull.orNull.nonNull = left.nonNull := Ty.nonNull_orNull once
    refine ⟨List.forall_mem_cons.2 ⟨?_, List.forall_mem_singleton.2 ?_⟩, ?_⟩
    · rw [stripped]
      exact Ty.same_self _
    · rw [stripped]
      exact agree
    · -- Types that differ only in null are not both without it.
      rw [Ty.isNullable_orNull]
      have null : ¬left.isNullable = right.isNullable :=
        fun null => different (Ty.same_iff.2 ⟨agree, null⟩)
      simp only [List.any_cons, List.any_nil, Bool.or_false]
      revert null
      cases left.isNullable <;> cases right.isNullable <;> simp

/-- In checked mode an accepted choice has boolean conditions, and its type is the join of its
results. -/
theorem joinOf_caseType (checked : check.checked = true)
    (once : ∀ b ∈ branches, b.2.nonNull.isNullable = false)
    (h : check.caseType branches default = .ok type) :
    (∀ b ∈ branches, b.1 == .boolean) ∧ type.JoinOf (default :: branches.map Prod.snd) := by
  induction branches generalizing type with
  | nil =>
    cases h
    exact ⟨by simp, List.forall_mem_singleton.2 (Ty.same_self _), by simp⟩
  | cons b branches ih =>
    rw [List.forall_mem_cons] at once
    simp only [Vocabulary.caseType_cons, bind_eq_ok] at h
    obtain ⟨rest, before, _, expected, unified⟩ := h
    obtain ⟨conditions, join⟩ := ih once.2 before
    refine ⟨List.forall_mem_cons.2 ⟨Ty.same_symm ((expect_of_checked checked).1 expected),
      conditions⟩, ?_⟩
    refine (join.cons (joinOf_unify checked once.1 unified)).congr fun t => ?_
    simp only [List.map_cons, List.mem_cons]
    exact or_left_comm

/-- In checked mode a choice is accepted if its conditions are boolean and its results are the same
without null. -/
theorem exists_caseType (checked : check.checked = true)
    (once : ∀ b ∈ branches, b.2.nonNull.isNullable = false)
    (conditions : ∀ b ∈ branches, b.1 == .boolean)
    (agree : ∀ b ∈ branches, b.2.nonNull == default.nonNull) :
    ∃ type, check.caseType branches default = .ok type := by
  induction branches with
  | nil => exact ⟨default, rfl⟩
  | cons b branches ih =>
    rw [List.forall_mem_cons] at once conditions agree
    obtain ⟨rest, before⟩ := ih once.2 conditions.2 agree.2
    have last : rest.nonNull == default.nonNull :=
      (joinOf_caseType checked once.2 before).2.nonNull default List.mem_cons_self
    obtain ⟨type, unified⟩ := exists_unify checked (Ty.same_trans agree.1 (Ty.same_symm last))
    refine ⟨type, ?_⟩
    simp only [Vocabulary.caseType_cons, bind_eq_ok]
    exact ⟨rest, before, (), (expect_of_checked checked).2 (Ty.same_symm conditions.1), unified⟩

/-- When a choice is accepted depends on which conditions and which results it has, whichever is the
default. -/
theorem exists_caseType_iff (checked : check.checked = true)
    (once : ∀ b ∈ branches, b.2.nonNull.isNullable = false) :
    (∃ type, check.caseType branches default = .ok type) ↔
      (∀ c ∈ branches.map Prod.fst, c == .boolean) ∧
        ∀ s ∈ default :: branches.map Prod.snd, ∀ t ∈ default :: branches.map Prod.snd,
          s.nonNull == t.nonNull := by
  rw [List.forall_mem_map]
  constructor
  · rintro ⟨type, h⟩
    obtain ⟨conditions, join⟩ := joinOf_caseType checked once h
    exact ⟨conditions, fun s hs t ht => Ty.same_trans (Ty.same_symm (join.nonNull s hs))
      (join.nonNull t ht)⟩
  · rintro ⟨conditions, agree⟩
    refine exists_caseType checked once conditions fun b member => ?_
    exact agree b.2 (List.mem_cons_of_mem _ (List.mem_map_of_mem member)) default List.mem_cons_self

end TypeCheck

/-- Two answers that are the same type, or both errors. -/
inductive SameType : Except Error Ty → Except Error Ty → Prop
  | ok {s t : Ty} (same : s == t) : SameType (.ok s) (.ok t)
  | error (e e' : Error) : SameType (.error e) (.error e')

namespace SameType

theorem of_iff {r r' : Except Error Ty} (both : (∃ t, r = .ok t) ↔ ∃ t, r' = .ok t)
    (same : ∀ s t, r = .ok s → r' = .ok t → s == t) : SameType r r' := by
  cases r with
  | ok s =>
    obtain ⟨t, rfl⟩ := both.1 ⟨s, rfl⟩
    exact .ok (same s t rfl rfl)
  | error e =>
    cases r' with
    | ok t =>
      obtain ⟨s, equal⟩ := both.2 ⟨t, rfl⟩
      cases equal
    | error e' => exact .error e e'

end SameType

/-- Choices with the same conditions and the same results have the same type. -/
theorem TypeCheck.sameType_caseType {check : TypeCheck} (checked : check.checked = true)
    {bs bs' : List (Ty × Ty)} {last last' : Ty}
    (conditions : ∀ c, c ∈ bs'.map Prod.fst ↔ c ∈ bs.map Prod.fst)
    (results : ∀ t, t ∈ last' :: bs'.map Prod.snd ↔ t ∈ last :: bs.map Prod.snd)
    (once : ∀ t ∈ last :: bs.map Prod.snd, t.nonNull.isNullable = false) :
    SameType (check.caseType bs' last') (check.caseType bs last) := by
  have once' : ∀ b ∈ bs', b.2.nonNull.isNullable = false := by
    intro b member
    exact once b.2 ((results b.2).1 (List.mem_cons_of_mem _ (List.mem_map_of_mem member)))
  have onceAll : ∀ b ∈ bs, b.2.nonNull.isNullable = false := by
    intro b member
    exact once b.2 (List.mem_cons_of_mem _ (List.mem_map_of_mem member))
  refine .of_iff ?_ fun s t hs ht => ?_
  · rw [exists_caseType_iff checked once', exists_caseType_iff checked onceAll]
    simp only [conditions, results]
  · have join := (joinOf_caseType checked once' hs).2.congr fun t => (results t).symm
    exact join.same (joinOf_caseType checked onceAll ht).2 List.mem_cons_self

namespace Expr

variable {check : TypeCheck} {schema : Schema}

/-- The branches have these types of conditions and results. -/
def BranchesTyped (check : TypeCheck) (schema : Schema) : List (Expr × Expr) →
    List (Ty × Ty) → Prop :=
  List.Forall₂ fun b t => b.1.typeOf check schema = .ok t.1 ∧ b.2.typeOf check schema = .ok t.2

theorem typeOf_case_of_typed {branches : List (Expr × Expr)} {default : Expr}
    {types : List (Ty × Ty)} {last : Ty} (typed : BranchesTyped check schema branches types)
    (typedLast : default.typeOf check schema = .ok last) :
    (case branches default).typeOf check schema = check.caseType types last := by
  rw [typeOf, branchTypesOf_eq_ok.2 typed, typedLast]
  rfl

/-- With a result and the default exchanged, a choice has the same conditions and the same
results. -/
theorem BranchesTyped.exchange {before after : List (Expr × Expr)} {condition result default : Expr}
    {types : List (Ty × Ty)} {last : Ty}
    (typed : BranchesTyped check schema (before ++ (condition, result) :: after) types)
    (typedLast : default.typeOf check schema = .ok last) :
    ∃ types' last', BranchesTyped check schema (before ++ (condition, default) :: after) types' ∧
      result.typeOf check schema = .ok last' ∧ types'.map Prod.fst = types.map Prod.fst ∧
        (last' :: types'.map Prod.snd).Perm (last :: types.map Prod.snd) := by
  induction before generalizing types with
  | nil =>
    obtain ⟨⟨c, r⟩, rest, ⟨typedCondition, typedResult⟩, typedRest, rfl⟩ :=
      List.forall₂_cons_left_iff.1 typed
    exact ⟨(c, last) :: rest, r, .cons ⟨typedCondition, typedLast⟩ typedRest, typedResult, rfl,
      .swap last r _⟩
  | cons b before ih =>
    obtain ⟨t, rest, first, typedRest, rfl⟩ := List.forall₂_cons_left_iff.1 typed
    obtain ⟨types', last', typed', typedResult, conditions, perm⟩ := ih typedRest
    refine ⟨t :: types', last', .cons first typed', typedResult, congrArg (t.1 :: ·) conditions, ?_⟩
    -- The type of the branch in front is moved out of the way and back.
    exact ((List.Perm.swap t.2 last' _).trans (perm.cons t.2)).trans (.swap last t.2 _)

/-- In checked mode a choice whose parts have types, in none of which null is added twice, is
accepted exactly if its conditions are boolean and its results and its default are the same without
null. Its type is then that of all results if they are the same, and otherwise the type without null
of any of them with null added. Hence the type is the same in any order of the branches, and with
any result and the default exchanged. -/
theorem typeOf_choice {branches : List (Expr × Expr)} {default : Expr} {types : List (Ty × Ty)}
    {last : Ty} (checked : check.checked = true) (typed : BranchesTyped check schema branches types)
    (typedLast : default.typeOf check schema = .ok last)
    (once : ∀ t ∈ last :: types.map Prod.snd, t.nonNull.isNullable = false) :
    ((∃ type, (case branches default).typeOf check schema = .ok type) ↔
      (∀ c ∈ types.map Prod.fst, c == .boolean) ∧
        ∀ s ∈ last :: types.map Prod.snd, ∀ t ∈ last :: types.map Prod.snd,
          s.nonNull == t.nonNull) ∧
    (∀ type, (case branches default).typeOf check schema = .ok type →
      ∀ t ∈ last :: types.map Prod.snd, ((∀ s ∈ last :: types.map Prod.snd, s == t) → type == t) ∧
        (¬(∀ s ∈ last :: types.map Prod.snd, s == t) → type == t.nonNull.orNull)) ∧
    (∀ other, other.Perm branches →
      SameType ((case other default).typeOf check schema)
        ((case branches default).typeOf check schema)) ∧
    (∀ before condition result after, branches = before ++ (condition, result) :: after →
      SameType ((case (before ++ (condition, default) :: after) result).typeOf check schema)
        ((case branches default).typeOf check schema)) := by
  have onceAll : ∀ b ∈ types, b.2.nonNull.isNullable = false := by
    intro b member
    exact once b.2 (List.mem_cons_of_mem _ (List.mem_map_of_mem member))
  rw [typeOf_case_of_typed typed typedLast]
  refine ⟨TypeCheck.exists_caseType_iff checked onceAll, fun type h t part => ?_,
    fun other perm => ?_, ?_⟩
  · have join := (TypeCheck.joinOf_caseType checked onceAll h).2
    exact ⟨join.of_same part, join.of_different part (once t part)⟩
  · obtain ⟨types', typed', permTypes⟩ := List.perm_comp_forall₂ perm typed
    rw [typeOf_case_of_typed typed' typedLast]
    refine TypeCheck.sameType_caseType checked (fun c => (permTypes.map _).mem_iff)
      (fun t => ?_) once
    exact ((permTypes.map _).cons last).mem_iff
  · rintro before condition result after rfl
    obtain ⟨types', last', typed', typedResult, conditions, perm⟩ := typed.exchange typedLast
    rw [typeOf_case_of_typed typed' typedResult]
    exact TypeCheck.sameType_caseType checked (fun c => by rw [conditions])
      (fun t => perm.mem_iff) once

end Expr

namespace Sample

/-- The person of a row with a small number, nobody for a row with a text, and otherwise the
person. -/
def someone : List (Expr × Expr) :=
  [(.apply (.comparison "<") [.attr "a", .const .integer (.integer 3)], .attr "p"),
    (.apply (.comparison "=") [.attr "b", .const .string (.string "x")],
      .null (.nullable personType))]

/-- The columns of the people beside the rows of the table. -/
def rowsSchema : Schema := ⟨[("p", personType), ("a", .integer), ("b", .string)]⟩

/-- Of the three results one may be missing, so the choice may be, also with the branches in the
other order and with the default in the place of the missing person. -/
theorem someone_typed :
    (Expr.case someone (.attr "p")).typeOf ⟨true, .empty⟩ rowsSchema = .ok (.nullable personType) ∧
    (Ty.nullable personType == personType.nonNull.orNull) = true ∧
    SameType ((Expr.case someone.reverse (.attr "p")).typeOf ⟨true, .empty⟩ rowsSchema)
      ((Expr.case someone (.attr "p")).typeOf ⟨true, .empty⟩ rowsSchema) ∧
    SameType
      ((Expr.case (someone.map fun b => (b.1, .attr "p")) (.null (.nullable personType))).typeOf
        ⟨true, .empty⟩ rowsSchema)
      ((Expr.case someone (.attr "p")).typeOf ⟨true, .empty⟩ rowsSchema) := by
  have typed : Expr.BranchesTyped ⟨true, .empty⟩ rowsSchema someone
      [(.boolean, personType), (.boolean, .nullable personType)] :=
        .cons ⟨rfl, rfl⟩ (.cons ⟨rfl, rfl⟩ .nil)
  have once : ∀ t ∈ [personType, personType, .nullable personType],
      t.nonNull.isNullable = false := by
    simp only [List.forall_mem_cons, List.not_mem_nil, false_implies, implies_true, and_true]
    exact ⟨rfl, rfl, rfl⟩
  have typedLast : (Expr.attr "p").typeOf ⟨true, .empty⟩ rowsSchema = .ok personType := rfl
  obtain ⟨_, type, order, exchange⟩ := Expr.typeOf_choice rfl typed typedLast once
  refine ⟨rfl, (type _ rfl personType List.mem_cons_self).2 ?_, order _ (List.reverse_perm _),
    exchange [_] _ _ [] rfl⟩
  exact fun all => Bool.false_ne_true (all (.nullable personType) (by simp))

end Sample

end FlatPlan
