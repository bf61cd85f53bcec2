import FlatPlan.Proofs.Leaves
import FlatPlan.Proofs.SampleVocabulary

/-!
# Choices between tuples

A choice between values of one shape is distributed to their leaves: each leaf of the distributed
choice chooses between the leaves of the results at its own place, under all conditions in their
order (`Expr.getElem?_leaves_distribute`). A choice whose parts have a flat form has one itself
exactly if its conditions are scalars and its results have the shape of the default
(`Expr.flatten_choice`).
-/

namespace FlatPlan

open Pass

namespace Expr

/-! ## The leaves of a distributed choice -/

variable {conditions : List Expr}

/-- Every condition chooses at every leaf, and every result is chosen from there. -/
theorem getElem?_leaves_distribute {default : Expr} {results : List Expr}
    (length : results.length = conditions.length) (same : ∀ r ∈ results, r.shape = default.shape)
    {i : Nat} {leaf : Expr} (place : default.leaves[i]? = some leaf) :
    ∃ branches, (distribute conditions default results).leaves[i]? = some (.case branches leaf) ∧
      branches.map Prod.fst = conditions ∧
      branches.map (fun b => some b.2) = results.map (·.leaves[i]?) := by
  have chosen : ∀ r ∈ results, r.leaves[i]? = some (r.leaves.getD i leaf) := by
    intro r member
    have inside : i < r.leaves.length :=
      length_leaves_congr (same r member) ▸ (List.getElem?_eq_some_iff.1 place).1
    rw [List.getD_eq_getElem?_getD, List.getElem?_eq_getElem inside, Option.getD_some]
  have length' : (results.map (·.leaves.getD i leaf)).length = conditions.length := by
    rw [List.length_map, length]
  refine ⟨conditions.zip (results.map (·.leaves.getD i leaf)), ?_, ?_, ?_⟩
  · rw [leaves_distribute same, List.getElem?_mapIdx, place,
      List.filterMap_eq_map_iff_forall_eq_some.2 chosen]
    rfl
  · exact List.map_fst_zip (Nat.le_of_eq length'.symm)
  · rw [List.map_congr_left chosen]
    calc (conditions.zip (results.map (·.leaves.getD i leaf))).map (fun b => some b.2)
      _ = ((conditions.zip (results.map (·.leaves.getD i leaf))).map Prod.snd).map some :=
        List.map_map.symm
      _ = results.map (fun r => some (r.leaves.getD i leaf)) := by
        rw [List.map_snd_zip (Nat.le_of_eq length'), List.map_map]
        rfl

/-! ## Runs on a choice -/

/-- The parts of a choice in the order in which they are flattened. -/
def choiceParts {α : Type} (branches : List (α × α)) (default : α) : List α :=
  branches.flatMap (fun b => [b.1, b.2]) ++ [default]

variable {check : Regime} {env : Environment} {schema : Schema} {s t u : PassState}
  {branches : List (Expr × Expr)} {default : Expr} {choice : List (Flattened × Flattened)}
  {last : Flattened}

/-- The conditions and results of a choice are flattened one after the other. -/
inductive BranchRuns (check : Regime) (env : Environment) (schema : Schema) :
    PassState → List (Expr × Expr) → List (Flattened × Flattened) → PassState → Prop
  | nil (s : PassState) : BranchRuns check env schema s [] [] s
  | cons {s u w t : PassState} {condition result : Expr} {first second : Flattened}
      {branches : List (Expr × Expr)} {choice : List (Flattened × Flattened)}
      (head : (condition.flatten check env schema).Yields s first u)
      (chosen : (result.flatten check env schema).Yields u second w)
      (rest : BranchRuns check env schema w branches choice t) :
      BranchRuns check env schema s ((condition, result) :: branches) ((first, second) :: choice) t

theorem exists_branchRuns {parts : List Flattened}
    (run : (flattenItems check env schema (choiceParts branches default)).Yields s parts t) :
    ∃ choice u last, BranchRuns check env schema s branches choice u ∧
      (default.flatten check env schema).Yields u last t ∧ parts = choiceParts choice last := by
  induction branches generalizing s parts with
  | nil =>
    obtain ⟨last, u, final, rest, none, rfl⟩ := yields_flattenItems_cons.1 run
    obtain ⟨rfl, rfl⟩ := yields_flattenItems_nil.1 none
    exact ⟨[], s, last, .nil s, final, rfl⟩
  | cons b branches ih =>
    obtain ⟨first, u, head, later, behind, rfl⟩ := yields_flattenItems_cons.1 run
    obtain ⟨second, w, chosen, rest, others, rfl⟩ := yields_flattenItems_cons.1 behind
    obtain ⟨choice, v, last, runs, final, rfl⟩ := ih others
    exact ⟨(first, second) :: choice, v, last, .cons head chosen runs, final, rfl⟩

theorem BranchRuns.length (runs : BranchRuns check env schema s branches choice t) :
    choice.length = branches.length := by
  induction runs with
  | nil => rfl
  | cons _ _ _ ih => rw [List.length_cons, List.length_cons, ih]

/-- Scalar conditions pass the test. -/
theorem BranchRuns.yields (runs : BranchRuns check env schema s branches choice t)
    (scalars : ∀ b ∈ choice, b.1.expr.isTuple = false) :
    (flattenBranches check env schema branches).Yields s choice t := by
  induction runs with
  | nil s => exact yields_flattenBranches_nil.2 ⟨rfl, rfl⟩
  | cons head chosen _ ih =>
    rw [List.forall_mem_cons] at scalars
    exact yields_flattenBranches_cons.2 ⟨_, _, head, scalars.1, _, _, chosen, _, ih scalars.2, rfl⟩

/-- The first condition that is a tuple stops the run. -/
theorem BranchRuns.fails (runs : BranchRuns check env schema s branches choice t)
    {b : Flattened × Flattened} (first : choice.find? (·.1.expr.isTuple) = some b) :
    ∃ u, (flattenBranches check env schema branches).Fails s
      (.invalidArgument (.structuredCondition b.1.expr.text)) u := by
  induction runs with
  | nil => cases first
  | @cons s u w t condition result part second branches choice head chosen _ ih =>
    rw [List.find?_cons] at first
    cases isTuple : part.expr.isTuple with
    | true =>
      rw [isTuple] at first
      cases first
      exact ⟨u, fails_flattenBranches_cons.2 (.inr ⟨part, u, head, .inl ⟨isTuple, rfl, rfl⟩⟩)⟩
    | false =>
      rw [isTuple] at first
      obtain ⟨v, fails⟩ := ih first
      exact ⟨v, fails_flattenBranches_cons.2
        (.inr ⟨part, u, head, .inr ⟨isTuple, .inr ⟨second, w, chosen, fails⟩⟩⟩)⟩

theorem flattenCase_of_mixed {whole default : Expr} {conditions results : List Expr}
    (mixed : ¬∀ r ∈ results, r.shape = default.shape) :
    flattenCase whole conditions results default =
      .error (.notYetImplemented (.mixedCase whole.text)) := by
  rw [flattenCase, if_neg]
  simpa using mixed

/-- The flat form of a choice, given those of its parts. -/
def distributed (choice : List (Flattened × Flattened)) (last : Flattened) : Flattened :=
  .gather (choiceParts choice last)
    (distribute (choice.map (·.1.expr)) last.expr (choice.map (·.2.expr)))

theorem BranchRuns.yields_case (runs : BranchRuns check env schema s branches choice u)
    (final : (default.flatten check env schema).Yields u last t)
    (scalars : ∀ b ∈ choice, b.1.expr.isTuple = false)
    (same : ∀ b ∈ choice, b.2.expr.shape = last.expr.shape) :
    ((case branches default).flatten check env schema).Yields s (distributed choice last) t := by
  refine yields_flatten_case.2 ⟨choice, u, runs.yields scalars, last, _, final, ?_, rfl⟩
  exact flattenCase_eq_ok.2 ⟨List.forall_mem_map.2 same, rfl⟩

theorem BranchRuns.fails_case (runs : BranchRuns check env schema s branches choice u)
    (final : (default.flatten check env schema).Yields u last t)
    (scalars : ∀ b ∈ choice, b.1.expr.isTuple = false)
    (mixed : ¬∀ b ∈ choice, b.2.expr.shape = last.expr.shape) :
    ((case branches default).flatten check env schema).Fails s
      (.notYetImplemented (.mixedCase (case branches default).text)) t := by
  refine fails_flatten_case.2 (.inr ⟨choice, u, runs.yields scalars, .inr ⟨last, final, ?_⟩⟩)
  exact flattenCase_of_mixed fun same => mixed (List.forall_mem_map.1 same)

/-- A choice between values of one shape is distributed to their leaves, each of which chooses under
the same conditions between the leaves at its place. A choice whose parts have a flat form is so
distributed exactly if its conditions are scalars and its results have the shape of the default. The
first condition that is a tuple is a misuse, and results of other shapes are not supported. -/
theorem flatten_choice :
    (∀ (conditions results : List Expr) (default : Expr), results.length = conditions.length →
      (∀ r ∈ results, r.shape = default.shape) →
      (distribute conditions default results).shape = default.shape ∧
      (distribute conditions default results).leaves.length = default.leaves.length ∧
      ∀ (i : Nat) (leaf : Expr), default.leaves[i]? = some leaf →
        ∃ branches : List (Expr × Expr),
          (distribute conditions default results).leaves[i]? = some (.case branches leaf) ∧
          branches.map Prod.fst = conditions ∧
          branches.map (fun b => some b.2) = results.map (·.leaves[i]?)) ∧
    ∀ (check : Regime) (env : Environment) (schema : Schema) (branches : List (Expr × Expr))
      (default : Expr) (s t : PassState) (parts : List Flattened),
      (flattenItems check env schema (choiceParts branches default)).runFrom s = (.ok parts, t) →
      ∃ choice last, parts = choiceParts choice last ∧ choice.length = branches.length ∧
        (((case branches default).flatten check env schema).runFrom s =
          (.ok (distributed choice last), t) ↔
          (∀ b ∈ choice, b.1.expr.isTuple = false) ∧
          ∀ b ∈ choice, b.2.expr.shape = last.expr.shape) ∧
        ((∃ b ∈ choice, b.1.expr.isTuple = true) →
          ∃ first u, choice.find? (·.1.expr.isTuple) = some first ∧
            ((case branches default).flatten check env schema).runFrom s =
              (.error (.invalidArgument (.structuredCondition first.1.expr.text)), u)) ∧
        ((∀ b ∈ choice, b.1.expr.isTuple = false) →
          (¬∀ b ∈ choice, b.2.expr.shape = last.expr.shape) →
          ((case branches default).flatten check env schema).runFrom s =
            (.error (.notYetImplemented (.mixedCase (case branches default).text)), t)) := by
  constructor
  · intro conditions results default length same
    have shape := @shape_distribute conditions _ _ same
    exact ⟨shape, length_leaves_congr shape, fun i leaf => getElem?_leaves_distribute length same⟩
  · intro check env schema branches default s t parts run
    obtain ⟨choice, u, last, runs, final, rfl⟩ := exists_branchRuns run
    have refused : (∃ b ∈ choice, b.1.expr.isTuple = true) →
        ∃ first w, choice.find? (·.1.expr.isTuple) = some first ∧
          ((case branches default).flatten check env schema).Fails s
            (.invalidArgument (.structuredCondition first.1.expr.text)) w := by
      intro some
      obtain ⟨first, found⟩ := Option.isSome_iff_exists.1 (List.find?_isSome.2 some)
      obtain ⟨w, fails⟩ := runs.fails found
      exact ⟨first, w, found, fails_flatten_case.2 (.inl fails)⟩
    refine ⟨choice, last, rfl, runs.length,
      ⟨fun yields => ?_, fun h => runs.yields_case final h.1 h.2⟩, refused, runs.fails_case final⟩
    -- the run cannot both yield and fail
    have scalars : ∀ b ∈ choice, b.1.expr.isTuple = false := by
      by_contra some
      obtain ⟨_, _, _, fails⟩ := refused (by simpa using some)
      cases fails.symm.trans yields
    refine ⟨scalars, ?_⟩
    by_contra mixed
    cases (runs.fails_case final scalars mixed).symm.trans yields

end Expr

namespace Sample

/-- Two people in a row. -/
def twoPeople : Environment :=
  .ofList [("p", .tuple [.attr "a", .attr "b"]), ("q", .tuple [.attr "c", .attr "d"])]

/-- One of the people, depending on a condition. -/
def eitherOf (condition : Expr) : Expr := .case [(condition, .attr "p")] (.attr "q")

/-- A flag chooses between the people leaf by leaf. A person cannot be a condition. -/
theorem eitherOf_distributed :
    ((eitherOf (.attr "flag")).flatten session.permissive twoPeople ⟨[]⟩).runFrom start =
        (.ok (.plain (.tuple [.case [(.attr "flag", .attr "a")] (.attr "c"),
          .case [(.attr "flag", .attr "b")] (.attr "d")])), start) ∧
      ∃ t, ((eitherOf (.attr "p")).flatten session.permissive twoPeople ⟨[]⟩).runFrom start =
        (.error (.invalidArgument (.structuredCondition (Expr.tuple [.attr "a", .attr "b"]).text)),
          t) := by
  constructor
  · obtain ⟨choice, last, parts, length, distributed, _⟩ :=
      Expr.flatten_choice.2 session.permissive twoPeople ⟨[]⟩ [(.attr "flag", .attr "p")]
        (.attr "q") start start _ rfl
    obtain ⟨⟨condition, result⟩, rfl⟩ := List.length_eq_one_iff.1 length
    cases parts
    exact distributed.2 ⟨List.forall_mem_singleton.2 rfl, List.forall_mem_singleton.2 rfl⟩
  · obtain ⟨choice, last, parts, length, _, refused, _⟩ :=
      Expr.flatten_choice.2 session.permissive twoPeople ⟨[]⟩ [(.attr "p", .attr "p")] (.attr "q")
        start start _ rfl
    obtain ⟨⟨condition, result⟩, rfl⟩ := List.length_eq_one_iff.1 length
    cases parts
    obtain ⟨first, t, found, fails⟩ := refused ⟨_, List.mem_singleton_self _, rfl⟩
    cases found
    exact ⟨t, fails⟩

end Sample

end FlatPlan
