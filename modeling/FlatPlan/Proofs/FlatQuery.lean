import FlatPlan.Proofs.FlatCombination

/-!
# Flattening a query

The remaining query forms, and the induction over all of them: flattening an accepted plan gives a
query of the expanded schema in which nothing structured is left (`Query.flatForm`).
-/

namespace FlatPlan

open Pass

variable {v : Vocabulary} {s t : PassState} {schema rows : Schema} {env : Environment}

namespace FlatQuery

theorem empty : Query.empty.FlattensWell v := by
  intro schema env s t flat plan infer flattens
  have regular := Query.schema_regular _ plan infer
  obtain ⟨rfl, rfl, rfl⟩ := Query.yields_flatten_empty.1 flattens.run
  refine .unchanged infer ?_ ?_ regular.distinct
  · rw [Query.everywhere_empty]
    exact ⟨trivial, trivial⟩
  · rw [Query.schemaOf_empty.1 infer]
    exact fun _ member => nomatch member

theorem table (name : String) (own : Schema) : (Query.table name own).FlattensWell v := by
  intro schema env s t flat plan infer flattens
  have regular := Query.schema_regular _ plan infer
  obtain ⟨rfl, rfl, rfl⟩ := Query.yields_flatten_table.1 flattens.run
  rw [Query.everywhere_table] at plan
  obtain ⟨⟨_, columns⟩, _⟩ := plan
  refine .unchanged infer ?_ ?_ regular.distinct
  · rw [Query.everywhere_table]
    exact ⟨fun c member => (columns c member).2.1, trivial⟩
  · rw [Query.schemaOf_table.1 infer]
    exact fun c member => (Ty.isScalar_iff.1 (columns c member).2.2).1

/-- A restriction whose predicate needs no joins. -/
theorem flattenRestriction_eq_ok {check : TypeCheck} {predicate : Expr} {part : Flattened}
    {input restricted : Query} (queries : part.queries = [])
    (restrictions : part.restrictions = []) :
    Query.flattenRestriction check predicate part input = .ok restricted ↔
      part.expr.isTuple = false ∧ restricted = .restrict part.expr input := by
  unfold Query.flattenRestriction
  rw [queries, restrictions]
  cases part.expr.isTuple with
  | true => simp
  | false => simp [Query.restrictAll, eq_comm]

theorem restrict {predicate : Expr} {input : Query} (ihp : predicate.FlattensWell v)
    (ih : input.FlattensWell v) : (Query.restrict predicate input).FlattensWell v := by
  intro schema env s t flat plan infer flattens
  obtain ⟨inferInput, type, typed, expected⟩ := Query.schemaOf_restrict.1 infer
  rw [Query.everywhere_restrict] at plan
  obtain ⟨_, planPredicate, planInput⟩ := plan
  have named := (Query.schemaOf_permissive (Query.wording_of_plan planInput) inferInput).1
  obtain ⟨flatInput, u, part, flattensInput, leads, runPredicate, restriction⟩ :=
    flattens.restrict planInput inferInput
  have form := ih planInput inferInput flattensInput
  have behind := (predicate.flatten_advances v.permissive env schema).leads runPredicate
  have stands := ihp False planPredicate (form.scope named) typed False.elim
    (leads.stem.trans flattens.stem) runPredicate
  obtain ⟨noTuple, rfl⟩ :=
    (flattenRestriction_eq_ok stands.queries stands.restrictions).1 restriction
  have leaf := stands.represents.leaf_of_noTuple noTuple
  refine ⟨Query.schemaOf_restrict.2 ⟨form.typed, type, leaf.typed, expected⟩, ?_, form.carries, ?_,
    form.distinct⟩
  · rw [Query.everywhere_restrict]
    exact ⟨⟨trivial, trivial⟩, leaf.nodes, form.nodes⟩
  · intro c member d drawn
    exact (form.drawn c member d drawn).imp_right fun drawn => drawn.mono (.refl s) behind

/-- The keys of an ordering stay scalars of ordered types. -/
theorem keys {ks flats : List (Expr × Direction)} (ih : ∀ k ∈ ks, k.1.FlattensWell v)
    (plan : ∀ k ∈ ks, k.1.Everywhere v.plan) (scope : Scope v schema env rows)
    (ordered : ∀ k ∈ ks, ∃ type, k.1.typeOf v.checked schema = .ok type ∧
      v.checked.expectOrdered type = .ok ())
    (stem : s.names.stem = v.stem)
    (run : (Query.flattenKeys v.permissive env schema ks).Yields s flats t) :
    ∀ k ∈ flats, ∃ type, Leaf v rows False k.1 type ∧ v.checked.expectOrdered type = .ok () := by
  induction ks generalizing s flats with
  | nil =>
    rw [(Query.yields_flattenKeys_nil.1 run).1]
    exact fun _ member => (List.not_mem_nil member).elim
  | cons k ks ihs =>
    obtain ⟨e, direction⟩ := k
    rw [List.forall_mem_cons] at ih plan ordered
    obtain ⟨part, u, flat, _, rest, tail, rfl⟩ := Query.yields_flattenKeys_cons.1 run
    obtain ⟨⟨type, typed, isOrdered⟩, others⟩ := ordered
    have leads := (e.flatten_advances v.permissive env schema).leads flat
    have stands := ih.1 False plan.1 scope typed False.elim stem flat
    have named := (Expr.typeOf_permissive (Expr.wording_of_plan plan.1) scope.named typed).1
    have scalar := v.isScalar_of_isOrdered named (Vocabulary.expectOrdered_checked.1 isOrdered)
    have leaf := stands.represents.leaf_of_isScalar scalar
    have single : part.expr.leaves = [part.expr] := Expr.leaves_of_noTuple leaf.noTuple
    rw [single]
    exact List.forall_mem_cons.2 ⟨⟨type, leaf, isOrdered⟩,
      ihs ih.2 plan.2 others (leads.stem.trans stem) tail⟩

theorem order {ks : List (Expr × Direction)} {input : Query} (ihk : ∀ k ∈ ks, k.1.FlattensWell v)
    (ih : input.FlattensWell v) : (Query.order ks input).FlattensWell v := by
  intro schema env s t flat plan infer flattens
  obtain ⟨inferInput, ordered⟩ := Query.schemaOf_order.1 infer
  rw [Query.everywhere_order] at plan
  obtain ⟨_, planKeys, planInput⟩ := plan
  obtain ⟨named, permissive⟩ :=
    Query.schemaOf_permissive (Query.wording_of_plan planInput) inferInput
  obtain ⟨flatInput, u, _, flats, runInput, known, runKeys, rfl⟩ :=
    Query.yields_flatten_order.1 flattens.run
  cases permissive.symm.trans known
  have form := ih planInput inferInput ⟨flattens.stem, runInput⟩
  have leads := (input.flatten_advances v.permissive).leads runInput
  have behind := (Query.flattenKeys_advances _ v.permissive env schema).leads runKeys
  have standing := keys ihk planKeys (form.scope named) (Query.checkKeys_eq_ok.1 ordered)
    (leads.stem.trans flattens.stem) runKeys
  refine ⟨?_, ?_, form.carries, ?_, form.distinct⟩
  · refine Query.schemaOf_order.2 ⟨form.typed, Query.checkKeys_eq_ok.2 fun k member => ?_⟩
    obtain ⟨type, leaf, isOrdered⟩ := standing k member
    exact ⟨type, leaf.typed, isOrdered⟩
  · rw [Query.everywhere_order]
    refine ⟨⟨trivial, trivial⟩, fun k member => ?_, form.nodes⟩
    obtain ⟨_, leaf, _⟩ := standing k member
    exact leaf.nodes
  · intro c member d drawn
    exact (form.drawn c member d drawn).imp_right fun drawn => drawn.mono (.refl s) behind

theorem top {offset count : UInt64} {input : Query} (ih : input.FlattensWell v) :
    (Query.top offset count input).FlattensWell v := by
  intro schema env s t flat plan infer flattens
  rw [Query.everywhere_top] at plan
  obtain ⟨flatInput, runInput, rfl⟩ := Query.yields_flatten_top.1 flattens.run
  have form := ih plan.2 (Query.schemaOf_top.1 infer) ⟨flattens.stem, runInput⟩
  refine ⟨Query.schemaOf_top.2 form.typed, ?_, form.carries, form.drawn, form.distinct⟩
  rw [Query.everywhere_top]
  exact ⟨⟨trivial, trivial⟩, form.nodes⟩

theorem cases (v : Vocabulary) : Plan.Cases (Expr.FlattensWell v) (Query.FlattensWell v) where
  attr := FlatExpression.attr
  const := FlatExpression.const
  null := FlatExpression.null
  apply _ _ _ ih := FlatExpression.apply ih
  tuple _ ih := FlatExpression.tuple ih
  aggregate fn _ ih := FlatExpression.aggregate fn ih
  multiAggregate fn args _ := FlatExpression.multiAggregate fn args
  case _ _ ihb ihd := FlatExpression.case ihb ihd
  scalarSubquery _ ih := FlatExpression.scalarSubquery ih
  setSubquery _ ih := FlatExpression.setSubquery ih
  empty := FlatQuery.empty
  table := FlatQuery.table
  galaxy _ ih := FlatProjection.galaxy ih
  project _ _ ihc ih := FlatProjection.project ihc ih
  restrict _ _ ihp ih := FlatQuery.restrict ihp ih
  combine _ _ _ ihl ihr := FlatCombination.combine ihl ihr
  grouping _ _ ihc ih := FlatProjection.grouping ihc ih
  order _ _ ihk ih := FlatQuery.order ihk ih
  top _ _ _ ih := FlatQuery.top ih

end FlatQuery

/-- Flattening an accepted expression gives a flat value of its type. -/
theorem Expr.flatten_stands {e : Expr} : e.FlattensWell v := (FlatQuery.cases v).expr e

/-- Flattening an accepted plan gives the flat form of its schema. -/
theorem Query.flatForm {q : Query} : q.FlattensWell v := (FlatQuery.cases v).query q

end FlatPlan
