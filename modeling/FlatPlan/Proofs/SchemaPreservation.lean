import FlatPlan.Proofs.FlatQuery
import FlatPlan.Proofs.SampleVocabulary

/-!
# Flattening preserves typing

What the flat form of an accepted plan promises to whatever reads it: its schema is that of the plan
with the structured columns laid out in place (`Query.checkSchema_flatten`), and no tuple, galaxy or
structured constant is left anywhere in it (`Query.everywhere_flat_of_flatten`). Both rest on
different output names of projections: `Sample.repeatedName_not_flat` is a plan where a name is used
twice and a tuple stays.
-/

namespace FlatPlan

variable {v : Vocabulary} {q flat : Query} {schema : Schema} {env : Environment} {s t : PassState}

/-- A run of the pass on an accepted plan gives its flat form. -/
theorem Query.flatForm_of_run (admissible : q.Everywhere v.admissible)
    (distinct : q.Everywhere .distinctOutputs)
    (accepted : q.checkSchema v.capabilities = .ok schema)
    (stem : s.names.stem = v.stem)
    (run : (q.flatten v.permissive).runFrom s = (.ok (flat, env), t)) :
    FlatForm v schema s flat env t :=
  Query.flatForm (admissible.and distinct) accepted ⟨stem, run⟩

/-- The flat form of an accepted plan is accepted. It has the columns of the plan in order, where a
structured column is replaced by the columns that its binding refers to, as many as the layout has
and of their types, and any other column is kept and not bound; and all its columns have different
names. -/
theorem Query.checkSchema_flatten (admissible : q.Everywhere v.admissible)
    (distinct : q.Everywhere .distinctOutputs)
    (accepted : q.checkSchema v.capabilities = .ok schema)
    (stem : s.names.stem = v.stem)
    (run : (q.flatten v.permissive).runFrom s = (.ok (flat, env), t)) :
    flat.checkSchema v.capabilities = .ok (env.expand schema) ∧
      (∀ c ∈ schema.columns, env.Carries c) ∧ (env.expand schema).names.Nodup := by
  have form := Query.flatForm_of_run admissible distinct accepted stem run
  exact ⟨form.typed, form.carries, form.distinct⟩

theorem Sample.roster_checkSchema : ∃ flat env t,
    (roster.flatten session.permissive).runFrom start = (.ok (flat, env), t) ∧
      env.expand rosterSchema = ⟨[("gx_3", .string), ("gx_4", .string), ("n", .integer)]⟩ ∧
      flat.checkSchema .empty = .ok (env.expand rosterSchema) ∧
      (∀ c ∈ rosterSchema.columns, env.Carries c) ∧ (env.expand rosterSchema).names.Nodup :=
  ⟨_, _, _, rfl, rfl, Query.checkSchema_flatten (v := vocabulary) (s := start)
    roster_admissible roster_distinct roster_accepted rfl rfl⟩

/-- In the flat form of an accepted plan no tuple, no galaxy and no structured constant is left. -/
theorem Query.everywhere_flat_of_flatten (admissible : q.Everywhere v.admissible)
    (distinct : q.Everywhere .distinctOutputs)
    (accepted : q.checkSchema v.capabilities = .ok schema)
    (stem : s.names.stem = v.stem)
    (run : (q.flatten v.permissive).runFrom s = (.ok (flat, env), t)) :
    flat.Everywhere .flat := by
  have form := Query.flatForm_of_run admissible distinct accepted stem run
  exact form.nodes.imp (fun _ (node : v.flatPlan.expr _) => node.2)
    fun _ (node : v.flatPlan.query _) => node.2

theorem Sample.roster_everywhere_flat : ∃ flat env t,
    (roster.flatten session.permissive).runFrom start = (.ok (flat, env), t) ∧
      flat.Everywhere .flat :=
  ⟨_, _, _, rfl, Query.everywhere_flat_of_flatten (v := vocabulary) (s := start)
    roster_admissible roster_distinct roster_accepted rfl rfl⟩

namespace Sample

theorem one_admissible : one.Everywhere vocabulary.admissible := by
  rw [one, Expr.everywhere_const]
  exact ⟨rfl, fun _ _ layout => nomatch layout⟩

/-- A projection with one name for a number and for a person, and the number taken from it. -/
def repeatedName : Query :=
  .project [("y", .apply (.arithmetic "+") [.attr "x", one])]
    (.project [("x", one), ("x", .attr "p")] (.galaxy galaxyP))

/-- Its flat form, where the person stands in for the number. -/
def repeatedNameFlat : Query :=
  .project [("y", .apply (.arithmetic "+") [.tuple [.attr "gx_3", .attr "gx_4"], one])]
    (.project [("x", one), ("gx_3", .attr "gx_1"), ("gx_4", .attr "gx_2")]
      (.project [("gx_1", .attr "first"), ("gx_2", .attr "last")] tableU))

theorem repeatedName_admissible : repeatedName.Everywhere vocabulary.admissible := by
  simp only [repeatedName, Query.everywhere_project, Expr.everywhere_apply, Expr.everywhere_attr,
    List.forall_mem_cons, List.not_mem_nil, false_implies, implies_true, and_true]
  exact ⟨Session.declares_all (by decide), ⟨by
    simp [Vocabulary.admissible, Operator.standard], trivial, one_admissible⟩,
    Session.declares_all (by decide), ⟨one_admissible, trivial⟩, galaxyP_admissible⟩

/-- Where a projection uses a name twice, the number of that name is read as the tuple of the
person. -/
theorem repeatedName_not_flat : repeatedName.Everywhere vocabulary.admissible ∧
    repeatedName.checkSchema vocabulary.capabilities = .ok ⟨[("y", .integer)]⟩ ∧
    (∃ t, (repeatedName.flatten vocabulary.permissive).runFrom start =
      (.ok (repeatedNameFlat, .empty), t)) ∧
    ¬repeatedNameFlat.Everywhere .flat := by
  refine ⟨repeatedName_admissible, rfl, ⟨_, rfl⟩, ?_⟩
  simp [repeatedNameFlat, NodeProperty.flat]

end Sample

end FlatPlan
