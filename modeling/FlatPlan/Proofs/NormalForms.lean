import FlatPlan.Proofs.LookupCounts
import FlatPlan.Proofs.LosslessPlans
import FlatPlan.Proofs.Mentions

/-!
# Normal plans

A plan is normal if its nodes are what the constructors of queries answer: the columns of a
projection have different names, a projection to no columns does not stand on another projection,
and the empty relation is no factor of a product. The pass builds some nodes with these constructors
and others without. Main statement: the flat form of a normal plan is normal, and is read back from
its datum, if every projection over a query that becomes a projection keeps a flat column and if
predicates look something up only in rows whose columns have different names
(`Query.flatten_normal`). Otherwise it may not be (`Sample.normality_lost`).
-/

namespace FlatPlan

open Pass

/-- A node as the constructors of queries build it. -/
def NodeProperty.normal : NodeProperty where
  expr _ := True
  query
    | .project columns input =>
      (columns.map Prod.fst).Nodup ∧ (columns = [] → ∀ inner source, input ≠ .project inner source)
    | .grouping columns _ => (columns.map Prod.fst).Nodup
    | .combine .product left right => left ≠ .empty ∧ right ≠ .empty
    | _ => True

namespace Query

/-- Whether the flat form of a query is a projection: that of a restriction is if its predicate
looks something up. -/
def becomesProjection : Query → Bool
  | .project _ _ | .galaxy _ => true
  | .restrict predicate _ => predicate.lookupCount != 0
  | .empty | .table _ _ | .combine _ _ _ | .grouping _ _ | .order _ _ | .top _ _ _ => false

/-- A projection that looks nothing up keeps a flat column, if its input becomes a projection. -/
def Exposing (check : Regime) (columns : List (String × Expr)) (input : Query) : Prop :=
  input.becomesProjection = true → (∀ c ∈ columns, c.2.lookupCount = 0) →
    ∀ ⦃s t : PassState⦄ ⦃flat : Query⦄ ⦃env : Environment⦄,
      ((project columns input).flatten check).Yields s (flat, env) t → flat.outputNames ≠ []

/-- Whether the table that a query passes the columns of on has columns of different names; of a
combination the left operand decides. -/
def DistinctColumns : Query → Prop
  | .table _ schema => schema.names.Nodup
  | .restrict _ input | .order _ input | .top _ _ input => input.DistinctColumns
  | .combine _ left _ => left.DistinctColumns
  | .empty | .galaxy _ | .project _ _ | .grouping _ _ => True

end Query

/-- What the nodes of a normal plan keep to so that its flat form is normal. Columns of projections
are not named like fresh ones, rules answer normal expressions to normal parts, encoders answer
normal expressions, and operators look up queries of `sources`. -/
def Session.tidy (x : Session) (check : Regime) (sources : Query → Prop) : NodeProperty :=
  (NodeProperty.normal.and (.relying sources (Operator.Answers check.rules .normal)
    (check.rules.StoredAs (Expr.Everywhere .normal)))).and
    { expr _ := True
      query
        | .project columns input =>
          (∀ c ∈ columns, x.Declares c.1) ∧ Query.Exposing check columns input
        | .restrict predicate input => predicate.lookupCount ≠ 0 → input.DistinctColumns
        | _ => True }

/-- What flattening makes of constants, nulls and tables has a property, and so has what it makes of
an application to parts that have it. -/
def NodeProperty.supplied (p : NodeProperty) (rules : Rules) : NodeProperty where
  expr
    | .const type value => rules.StoredAs (Expr.Everywhere p) type value
    | .null type => (Expr.flattenNull type).Everywhere p
    | .apply op _ => op.Answers rules p
    | _ => True
  query
    | .table name schema => p.query (.table name schema)
    | _ => True

/-- A property of all normal nodes, but for those that refer to types, operators and relations. -/
structure NodeProperty.OfNormal (p : NodeProperty) : Prop where
  attr : ∀ name, p.expr (.attr name)
  tuple : ∀ items, p.expr (.tuple items)
  aggregate : ∀ fn arg, p.expr (.aggregate fn arg)
  case : ∀ branches default, p.expr (.case branches default)
  scalarSubquery : ∀ q, p.expr (.scalarSubquery q)
  setSubquery : ∀ q, p.expr (.setSubquery q)
  query : ∀ q : Query, q.relation? = none → NodeProperty.normal.query q → p.query q

variable {x : Session} {sources : Query → Prop} {p r : NodeProperty} {check : Regime}
  {env : Environment} {schema : Schema} {s t u : PassState}

/-! ## Forms of flat queries -/

namespace Query

variable {q flat : Query}

/-- Conditions leave a restriction. -/
theorem exists_restrict_of_restrictAll {predicates : List Expr} (some : predicates ≠ [])
    (q : Query) :
    ∃ predicate input, restrictAll predicates q = .restrict predicate input := by
  rw [restrictAll, ← List.dropLast_append_getLast some, List.foldl_append]
  exact ⟨_, _, rfl⟩

theorem restrictAll_ne_project {predicates : List Expr} (some : predicates ≠ []) (q : Query)
    (inner : List (String × Expr)) (source : Query) :
    restrictAll predicates q ≠ .project inner source := by
  obtain ⟨predicate, input, equal⟩ := exists_restrict_of_restrictAll some q
  rw [equal]
  exact Query.noConfusion

/-- Only the empty relation becomes the empty relation. -/
theorem ne_empty_of_flatten (other : q ≠ .empty) (run : (q.flatten check).Yields s (flat, env) t) :
    flat ≠ .empty := by
  cases q with
  | empty => exact absurd rfl other
  | table name schema =>
    obtain ⟨rfl, _⟩ := yields_flatten_table.1 run
    exact Query.noConfusion
  | galaxy g =>
    obtain ⟨_, _, _, _, _, _, _, project, equal, _⟩ := yields_flatten_galaxy.1 run
    cases equal
    rw [(projection_eq_ok.1 project).2]
    exact Query.noConfusion
  | project columns input =>
    obtain ⟨_, _, _, _, _, _, _, _, rfl, _⟩ := yields_flatten_project.1 run
    exact Query.noConfusion
  | restrict predicate input =>
    obtain ⟨_, _, _, _, _, _, _, restriction⟩ := yields_flatten_restrict.1 run
    rcases flattenRestriction_cases restriction with ⟨_, rfl⟩ | ⟨_, _, _, rfl⟩
    · obtain ⟨_, _, equal⟩ := exists_restrict_of_restrictAll (List.cons_ne_nil _ _) _
      rw [equal]
      exact Query.noConfusion
    · exact Query.noConfusion
  | combine op left right =>
    obtain ⟨_, _, _, _, _, _, _, combined⟩ := combined_of_yields run
    cases combined <;> exact Query.noConfusion
  | grouping columns input =>
    obtain ⟨_, _, _, _, _, _, _, _, rfl, _⟩ := yields_flatten_grouping.1 run
    exact Query.noConfusion
  | order keys input =>
    obtain ⟨_, _, _, _, _, _, _, rfl⟩ := yields_flatten_order.1 run
    exact Query.noConfusion
  | top offset count input =>
    obtain ⟨_, _, rfl⟩ := yields_flatten_top.1 run
    exact Query.noConfusion

/-- Which queries become projections. -/
theorem becomesProjection_of_flatten {inner : List (String × Expr)} {source : Query}
    (run : (q.flatten check).Yields s (.project inner source, env) t) :
    q.becomesProjection = true := by
  cases q with
  | project | galaxy => rfl
  | empty => cases (yields_flatten_empty.1 run).1
  | table name schema => cases (yields_flatten_table.1 run).1
  | restrict predicate input =>
    obtain ⟨_, _, _, part, _, _, runPredicate, restriction⟩ := yields_flatten_restrict.1 run
    rcases flattenRestriction_cases restriction with ⟨_, equal⟩ | ⟨some, _⟩
    · exact absurd equal.symm (restrictAll_ne_project (List.cons_ne_nil _ _) _ inner source)
    · rw [becomesProjection, bne_iff_ne]
      exact Expr.lookupCount_ne_zero runPredicate some
  | combine op left right =>
    obtain ⟨_, _, _, _, _, _, _, combined⟩ := combined_of_yields run
    cases combined
  | grouping columns input =>
    obtain ⟨_, _, _, _, _, _, _, _, equal, _⟩ := yields_flatten_grouping.1 run
    cases equal
  | order keys input =>
    obtain ⟨_, _, _, _, _, _, _, equal⟩ := yields_flatten_order.1 run
    cases equal
  | top offset count input =>
    obtain ⟨_, _, equal⟩ := yields_flatten_top.1 run
    cases equal

/-- A projection that keeps no flat column does not stand on a projection. -/
theorem ofOutputs_not_bare {columns : List (String × Expr)} {input flatInput : Query}
    {envInput : Environment} {outputs : List OutputColumn} (exposing : Exposing check columns input)
    (run : ((project columns input).flatten check).Yields s (ofOutputs outputs flatInput, env) t)
    (runInput : (input.flatten check).Yields s (flatInput, envInput) u)
    (runColumns : (flattenColumns check envInput schema columns).Yields u outputs t)
    (none : outputs.flatMap (·.columns) = []) (inner : List (String × Expr)) (source : Query) :
    restrictAll (outputs.flatMap (·.restrictions))
      (productAll (flatInput :: outputs.flatMap (·.queries))) ≠ .project inner source := by
  obtain ⟨queries, restrictions⟩ := lengths_of_flattenColumns runColumns
  by_cases free : Expr.itemLookupCount (columns.map Prod.snd) = 0
  · -- nothing is joined, so the projection stands on the flat input itself
    rw [free] at queries restrictions
    rw [List.eq_nil_of_length_eq_zero queries, List.eq_nil_of_length_eq_zero restrictions,
      restrictAll, productAll, List.foldl_nil, List.foldl_cons, List.foldl_nil,
      combination_empty_left]
    rintro rfl
    refine exposing (becomesProjection_of_flatten runInput) (fun c member => ?_) run ?_
    · exact Expr.itemLookupCount_eq_zero.1 free c.2 (List.mem_map.2 ⟨c, member, rfl⟩)
    · rw [ofOutputs, outputNames, none, List.map_nil]
  · refine restrictAll_ne_project (fun empty => free ?_) _ inner source
    rw [← restrictions, empty, List.length_nil]

/-- A column that is no tuple in any run is kept. -/
theorem exposing_of_scalar {columns : List (String × Expr)} {input : Query} {c : String × Expr}
    (member : c ∈ columns)
    (scalar : ∀ ⦃env : Environment⦄ ⦃schema : Schema⦄ ⦃s t : PassState⦄ ⦃part : Flattened⦄,
      (c.2.flatten check env schema).Yields s part t → part.expr.isTuple = false) :
    Exposing check columns input := by
  intro _ _ s t flat env run
  obtain ⟨flatInput, _, _, _, _, _, outputs, runColumns, rfl, _⟩ := yields_flatten_project.1 run
  obtain ⟨o, among, part, ⟨_, _, _, runPart, _⟩, _, _, _, output, _⟩ :=
    exists_of_mem_right (flattenColumns_within runColumns).flip member
  rcases (OutputColumn.carries_of_yields output).carried with ⟨_, _, equal, _⟩ | ⟨isTuple, _⟩
  · have kept : c.1 ∈ (ofOutputs outputs flatInput).outputNames := by
      rw [outputNames_ofOutputs, List.mem_flatMap]
      refine ⟨o, among, ?_⟩
      rw [equal]
      exact List.mem_singleton.2 rfl
    exact List.ne_nil_of_mem kept
  · rw [scalar runPart] at isTuple
    cases isTuple

/-! ## Names of flat columns -/

/-- The flat columns have different names, if those that are passed on from a table have. -/
theorem nodup_outputNames_of_flatten : ∀ {q flat : Query} {env : Environment} {s t : PassState},
    q.Everywhere (x.tidy check sources) → q.DistinctColumns → s.names.stem = x.stem →
    (q.flatten check).Yields s (flat, env) t → flat.outputNames.Nodup
  | .empty, flat, env, s, t, _, _, _, run => by
    obtain ⟨rfl, _⟩ := yields_flatten_empty.1 run
    exact .nil
  | .table _ _, flat, env, s, t, _, distinct, _, run => by
    obtain ⟨rfl, _⟩ := yields_flatten_table.1 run
    exact distinct
  | .galaxy g, flat, env, s, t, _, _, _, run => by
    obtain ⟨_, _, _, _, _, _, _, project, equal, _⟩ := yields_flatten_galaxy.1 run
    cases equal
    rw [outputNames_projection project]
    exact (projection_eq_ok.1 project).1
  | .project columns input, flat, env, s, t, plan, _, stem, run => by
    rw [everywhere_project] at plan
    obtain ⟨⟨⟨⟨distinct, _⟩, _⟩, declares, _⟩, _⟩ := plan
    obtain ⟨_, _, _, runInput, _, _, outputs, runColumns, rfl, _⟩ := yields_flatten_project.1 run
    have leads := (input.flatten_advances check).leads runInput
    rw [outputNames_ofOutputs]
    exact (names_of_columns (leads.stem.trans stem) declares runColumns).nodup distinct
  | .restrict predicate input, flat, env, s, t, plan, distinct, stem, run => by
    rw [everywhere_restrict] at plan
    obtain ⟨_, _, _, _, runInput, _, _, restriction⟩ := yields_flatten_restrict.1 run
    rw [outputNames_flattenRestriction restriction]
    exact nodup_outputNames_of_flatten (q := input) plan.2.2 distinct stem runInput
  | .combine op left right, flat, env, s, t, plan, distinct, stem, run => by
    rw [everywhere_combine] at plan
    obtain ⟨flatLeft, _, _, _, _, runLeft, _, combined⟩ := combined_of_yields run
    have own := nodup_outputNames_of_flatten (q := left) plan.2.1 distinct stem runLeft
    cases combined <;> exact nodup_combine own op
  | .grouping columns input, flat, env, s, t, plan, _, _, run => by
    rw [everywhere_grouping] at plan
    obtain ⟨⟨⟨distinct, _⟩, _⟩, _⟩ := plan
    obtain ⟨_, _, _, _, _, _, flats, runGroups, rfl, _⟩ := yields_flatten_grouping.1 run
    rw [outputNames, names_of_groups runGroups]
    exact distinct
  | .order _ input, flat, env, s, t, plan, distinct, stem, run => by
    rw [everywhere_order] at plan
    obtain ⟨_, _, _, _, runInput, _, _, rfl⟩ := yields_flatten_order.1 run
    rw [outputNames]
    exact nodup_outputNames_of_flatten (q := input) plan.2.2 distinct stem runInput
  | .top _ _ input, flat, env, s, t, plan, distinct, stem, run => by
    rw [everywhere_top] at plan
    obtain ⟨_, runInput, rfl⟩ := yields_flatten_top.1 run
    rw [outputNames]
    exact nodup_outputNames_of_flatten (q := input) plan.2 distinct stem runInput

end Query

/-! ## Runs -/

/-- The flat form of the expression has a property of normal nodes everywhere. -/
def Expr.FlattensNormal (x : Session) (check : Regime) (sources : Query → Prop) (p : NodeProperty)
    (e : Expr) :
    Prop :=
  e.Everywhere ((x.tidy check sources).and (p.supplied check.rules)) →
    ∀ ⦃env : Environment⦄ ⦃schema : Schema⦄ ⦃s t : PassState⦄ ⦃part : Flattened⦄,
      (∀ name, (env.resolve name).Everywhere p) → s.names.stem = x.stem →
    (e.flatten check env schema).Yields s part t → part.Everywhere p

/-- The flat form of the query has a property of normal nodes everywhere. -/
def Query.FlattensNormal (x : Session) (check : Regime) (sources : Query → Prop) (p : NodeProperty)
    (q : Query) :
    Prop :=
  q.Everywhere ((x.tidy check sources).and (p.supplied check.rules)) →
    ∀ ⦃env : Environment⦄ ⦃s t : PassState⦄ ⦃flat : Query⦄,
    s.names.stem = x.stem → (q.flatten check).Yields s (flat, env) t → flat.Everywhere p

namespace NormalForms

variable {part : Flattened}

theorem within {e : Expr} (ih : e.FlattensNormal x check sources p)
    (plan : e.Everywhere ((x.tidy check sources).and (p.supplied check.rules)))
    (scope : ∀ name, (env.resolve name).Everywhere p)
    (stem : s.names.stem = x.stem) (run : (e.flatten check env schema).Within s part t) :
    part.Everywhere p := by
  obtain ⟨_, _, stem, run⟩ := run.exists_run stem
  exact ih plan scope stem run

theorem items {es : List Expr} {parts : List Flattened}
    (ih : ∀ e ∈ es, e.FlattensNormal x check sources p)
    (plan : ∀ e ∈ es, e.Everywhere ((x.tidy check sources).and (p.supplied check.rules)))
    (scope : ∀ name, (env.resolve name).Everywhere p) (stem : s.names.stem = x.stem)
    (run : (Expr.flattenItems check env schema es).Yields s parts t) :
    ∀ part ∈ parts, part.Everywhere p := by
  intro part member
  obtain ⟨e, among, run⟩ := exists_of_mem_right (Expr.flattenItems_within run) member
  exact within (ih e among) (plan e among) scope stem run

/-- A query used as a value is flattened on its own. -/
theorem subquery {query flat : Query} (ih : query.FlattensNormal x check sources p)
    (plan : query.Everywhere ((x.tidy check sources).and (p.supplied check.rules)))
    (stem : s.names.stem = x.stem)
    (run : (query.flattenSubquery check (query.flatten check)).Yields s flat t) :
    flat.Everywhere p := by
  obtain ⟨_, _, env, run, _⟩ := Query.yields_flattenSubquery.1 run
  exact ih plan stem run

section Nodes

variable (normal : p.OfNormal)

include normal

theorem scope {q flat : Query} (run : (q.flatten check).Yields s (flat, env) t) (name : String) :
    (env.resolve name).Everywhere p :=
  Query.everywhere_resolve normal.attr normal.tuple run name

/-- A query under other names is a projection as the constructor builds it. -/
theorem projection {columns : List (String × Expr)} {input q : Query}
    (h : Query.projection columns input = .ok q) (nodes : input.Everywhere p)
    (references : ∀ c ∈ columns, ∃ name, c.2 = .attr name) : q.Everywhere p := by
  refine Query.everywhere_of_projection
    (fun below distinct bare => normal.query _ rfl ⟨distinct, bare⟩) h nodes ?_
  intro c member
  obtain ⟨name, equal⟩ := references c member
  rw [equal, Expr.everywhere_attr]
  exact normal.attr name

theorem renamed {names : List String} {columns : List Column} {input q : Query}
    (h : Query.projection (Query.renamings names columns) input = .ok q)
    (nodes : input.Everywhere p) :
    q.Everywhere p := by
  refine projection normal h nodes fun c member => ?_
  obtain ⟨d, _, equal⟩ := Query.exists_of_mem_renamings member
  exact ⟨d.1, equal⟩

/-- What is joined to a query and tested there. -/
theorem joins {input : Query} {queries : List Query} {conditions : List Expr}
    (nodes : input.Everywhere p) (joined : ∀ q ∈ queries, q.Everywhere p)
    (tests : ∀ e ∈ conditions, e.Everywhere p) :
    (Query.restrictAll conditions (Query.productAll (input :: queries))).Everywhere p :=
  Query.everywhere_joins (fun _ _ => normal.query _ rfl trivial)
    (fun _ _ onLeft onRight => normal.query _ rfl ⟨onLeft, onRight⟩) nodes joined tests

theorem apply (op : Operator) (args : List Expr)
    (registered : ∀ source, sources source →
      source.Everywhere ((x.tidy check sources).and (p.supplied check.rules)))
    (ihs : ∀ source, op.lookupSource? = some source → source.FlattensNormal x check sources p)
    (ih : ∀ e ∈ args, e.FlattensNormal x check sources p) :
    (Expr.apply op args).FlattensNormal x check sources p := by
  intro plan env schema s t part scope stem run
  rw [Expr.everywhere_apply] at plan
  obtain ⟨⟨⟨⟨_, _, lookups⟩, _⟩, answers⟩, planArgs⟩ := plan
  obtain ⟨parts, u, types, joined, runArgs, join, flat⟩ := Expr.exists_application run
  have each := items ih planArgs scope stem runArgs
  have lookup : (∀ q ∈ (joined.map Prod.fst).toList, q.Everywhere p) ∧
      ∀ c ∈ (joined.map Prod.snd).getD [], c.Everywhere p := by
    rcases Operator.joinSource_cases join with
      ⟨rfl, _⟩ | ⟨source, underlying, _, _, _, flat, found, runSource, _, project, rfl, _⟩
    · exact ⟨fun _ member => absurd member List.not_mem_nil,
        fun _ member => absurd member List.not_mem_nil⟩
    · have nodes := ihs source found (registered source (lookups source found))
        ((Expr.flattenItems_leads runArgs).stem.trans stem) runSource
      exact ⟨List.forall_mem_singleton.2 (renamed normal project nodes),
        Query.everywhere_attrs normal.attr⟩
  exact Flattened.everywhere_application each lookup.1 flat
    (answers rfl (Flattened.everywhere_exprs each) lookup.2 flat)

theorem case (bs : List (Expr × Expr)) (default : Expr)
    (ihb : ∀ b ∈ bs, b.1.FlattensNormal x check sources p ∧ b.2.FlattensNormal x check sources p)
    (ihd : default.FlattensNormal x check sources p) :
    (Expr.case bs default).FlattensNormal x check sources p := by
  intro plan env schema s t part scope stem run
  rw [Expr.everywhere_case] at plan
  obtain ⟨_, planBranches, planDefault⟩ := plan
  obtain ⟨parts, u, runBranches, last, e, runDefault, flat, rfl⟩ := Expr.yields_flatten_case.1 run
  have each : ∀ pair ∈ parts, pair.1.Everywhere p ∧ pair.2.Everywhere p := by
    intro pair member
    obtain ⟨b, among, first, _, second⟩ :=
      exists_of_mem_right (Expr.flattenBranches_within runBranches) member
    exact ⟨within (ihb b among).1 (planBranches b among).1 scope stem first,
      within (ihb b among).2 (planBranches b among).2 scope stem second⟩
  have final :=
    ihd planDefault scope ((Expr.flattenBranches_leads runBranches).stem.trans stem) runDefault
  refine Flattened.everywhere_gather (Expr.forall_mem_choice each final) ?_
  exact Expr.everywhere_flattenCase normal.tuple normal.case
    (List.forall_mem_map.2 fun pair member => (each pair member).1.expr)
    (List.forall_mem_map.2 fun pair member => (each pair member).2.expr) final.expr flat

theorem project (columns : List (String × Expr)) (input : Query)
    (ihc : ∀ c ∈ columns, c.2.FlattensNormal x check sources p)
    (ih : input.FlattensNormal x check sources p) :
    (Query.project columns input).FlattensNormal x check sources p := by
  intro plan env s t flat stem run
  rw [Query.everywhere_project] at plan
  obtain ⟨⟨⟨⟨⟨distinct, _⟩, _⟩, declares, exposing⟩, _⟩, planColumns, planInput⟩ := plan
  have whole := run
  obtain ⟨flatInput, envInput, u, runInput, inner, _, outputs, runColumns, rfl, _⟩ :=
    Query.yields_flatten_project.1 run
  have stemInput := ((input.flatten_advances check).leads runInput).stem.trans stem
  have each : ∀ o ∈ outputs, (∀ c ∈ o.columns, c.2.Everywhere p) ∧
      (∀ q ∈ o.queries, q.Everywhere p) ∧ ∀ r ∈ o.restrictions, r.Everywhere p := by
    intro o member
    obtain ⟨c, among, part, runPart, _, _, _, output, _⟩ :=
      exists_of_mem_right (Query.flattenColumns_within runColumns) member
    have own := within (ihc c among) (planColumns c among) (scope normal runInput) stemInput runPart
    have carries := OutputColumn.carries_of_yields output
    rw [carries.queries, carries.restrictions]
    exact ⟨fun d member => Expr.everywhere_leaves own.expr (carries.mem_leaves member), own.queries,
      own.restrictions⟩
  have names := (Query.names_of_columns stemInput declares runColumns).nodup distinct
  rw [← Query.outputNames_ofOutputs outputs flatInput] at names
  rw [Query.ofOutputs, Query.everywhere_project]
  refine ⟨normal.query _ rfl ⟨names, Query.ofOutputs_not_bare exposing whole runInput runColumns⟩,
    ?_, joins normal (ih planInput stem runInput) ?_ ?_⟩
  all_goals
    intro _ member
    obtain ⟨o, among, own⟩ := List.mem_flatMap.1 member
  · exact (each o among).1 _ own
  · exact (each o among).2.1 _ own
  · exact (each o among).2.2 _ own

theorem restrict (predicate : Expr) (input : Query)
    (ihp : predicate.FlattensNormal x check sources p)
    (ih : input.FlattensNormal x check sources p) :
    (Query.restrict predicate input).FlattensNormal x check sources p := by
  intro plan env s t flat stem run
  rw [Query.everywhere_restrict] at plan
  obtain ⟨⟨⟨_, distinct⟩, _⟩, planPredicate, planInput⟩ := plan
  obtain ⟨flatInput, u, inner, part, runInput, _, runPredicate, restriction⟩ :=
    Query.yields_flatten_restrict.1 run
  have nodes := ih planInput stem runInput
  have own := ihp planPredicate (scope normal runInput)
    (((input.flatten_advances check).leads runInput).stem.trans stem) runPredicate
  have tests : ∀ e ∈ part.expr :: part.restrictions, e.Everywhere p :=
    List.forall_mem_cons.2 ⟨own.expr, own.restrictions⟩
  rcases Query.flattenRestriction_cases restriction with ⟨_, rfl⟩ | ⟨some, visible, infer, rfl⟩
  · exact Query.everywhere_restrictAll (fun _ _ => normal.query _ rfl trivial) tests nodes
  · -- the columns are those of the flat input, and the projection stands on a restriction
    have looksUp := Expr.lookupCount_ne_zero runPredicate some
    have names := Query.nodup_outputNames_of_flatten planInput.left (distinct looksUp) stem runInput
    rw [← Query.names_of_schemaOf infer] at names
    rw [Query.everywhere_project]
    refine ⟨normal.query _ rfl ⟨?_, fun _ => Query.restrictAll_ne_project (List.cons_ne_nil _ _) _⟩,
      List.forall_mem_map.2 fun c _ => ?_, joins normal nodes own.queries tests⟩
    · rw [List.map_map]
      exact names
    · rw [Expr.everywhere_attr]
      exact normal.attr c.1

theorem combine (op : CombineOp) (left right : Query) (ihl : left.FlattensNormal x check sources p)
    (ihr : right.FlattensNormal x check sources p) :
    (Query.combine op left right).FlattensNormal x check sources p := by
  intro plan env s t flat stem run
  rw [Query.everywhere_combine] at plan
  obtain ⟨⟨⟨⟨node, _⟩, _⟩, _⟩, planLeft, planRight⟩ := plan
  obtain ⟨flatLeft, leftEnv, u, flatRight, rightEnv, runLeft, runRight, combined⟩ :=
    Query.combined_of_yields run
  have nodesLeft := ihl planLeft stem runLeft
  have nodesRight :=
    ihr planRight (((left.flatten_advances check).leads runLeft).stem.trans stem) runRight
  have sideBySide : NodeProperty.normal.query (.combine op flatLeft flatRight) := by
    cases op with
    | product =>
      exact ⟨Query.ne_empty_of_flatten node.1 runLeft, Query.ne_empty_of_flatten node.2 runRight⟩
    | _ => trivial
  have aligned :
      ∀ {pairs : List (String × String)} {aligned : Query} {columns : List (String × Expr)},
      Query.Aligns pairs leftEnv rightEnv flatRight aligned columns → aligned.Everywhere p := by
    intro pairs aligned columns alignment
    refine projection normal alignment.project nodesRight fun c member => ?_
    obtain ⟨_, _, source, _, equal⟩ := alignment.sources c member
    exact ⟨source, equal⟩
  cases combined with
  | plain | product =>
    exact (Query.everywhere_combine op _ _).2 ⟨normal.query _ rfl sideBySide, nodesLeft, nodesRight⟩
  | quotient own alignment _ =>
    subst own
    exact (Query.everywhere_combine _ _ _).2 ⟨normal.query _ rfl trivial, nodesLeft,
      aligned alignment⟩
  | setOperation noProduct _ alignment =>
    refine (Query.everywhere_combine op _ _).2 ⟨normal.query _ rfl ?_, nodesLeft, aligned alignment⟩
    cases op with
    | product => exact absurd rfl noProduct
    | _ => trivial

theorem grouping (columns : List (String × Expr)) (input : Query)
    (ihc : ∀ c ∈ columns, c.2.FlattensNormal x check sources p)
    (ih : input.FlattensNormal x check sources p) :
    (Query.grouping columns input).FlattensNormal x check sources p := by
  intro plan env s t flat stem run
  rw [Query.everywhere_grouping] at plan
  obtain ⟨⟨⟨⟨distinct, _⟩, _⟩, _⟩, planColumns, planInput⟩ := plan
  obtain ⟨flatInput, envInput, u, runInput, inner, _, flats, runGroups, rfl, _⟩ :=
    Query.yields_flatten_grouping.1 run
  have stemInput := ((input.flatten_advances check).leads runInput).stem.trans stem
  have names : (flats.map Prod.fst).Nodup := Query.names_of_groups runGroups ▸ distinct
  rw [Query.everywhere_grouping]
  refine ⟨normal.query _ rfl names, fun f member => ?_, ih planInput stem runInput⟩
  obtain ⟨c, among, part, runPart, _, _, rfl⟩ :=
    exists_of_mem_right (Query.flattenGroups_within runGroups) member
  exact (within (ihc c among) (planColumns c among) (scope normal runInput) stemInput runPart).expr

theorem order (keys : List (Expr × Direction)) (input : Query)
    (ihk : ∀ k ∈ keys, k.1.FlattensNormal x check sources p)
    (ih : input.FlattensNormal x check sources p) :
    (Query.order keys input).FlattensNormal x check sources p := by
  intro plan env s t flat stem run
  rw [Query.everywhere_order] at plan
  obtain ⟨_, planKeys, planInput⟩ := plan
  obtain ⟨flatInput, u, inner, flats, runInput, _, runKeys, rfl⟩ := Query.yields_flatten_order.1 run
  have stemInput := ((input.flatten_advances check).leads runInput).stem.trans stem
  rw [Query.everywhere_order]
  refine ⟨normal.query _ rfl trivial, fun f member => ?_, ih planInput stem runInput⟩
  obtain ⟨k, among, part, runPart, _, leaf⟩ := Query.flattenKeys_within runKeys f member
  have own := within (ihk k among) (planKeys k among) (scope normal runInput) stemInput runPart
  exact Expr.everywhere_leaves own.expr leaf

theorem cases (registered : ∀ source, sources source →
    source.Everywhere ((x.tidy check sources).and (p.supplied check.rules))) :
    Plan.Cases (Expr.FlattensNormal x check sources p)
      (Query.FlattensNormal x check sources p) where
  attr name _ _ _ _ _ _ scope _ run := by
    obtain ⟨rfl, _⟩ := Expr.yields_flatten_attr.1 run
    exact Flattened.everywhere_plain (scope name)
  const type value plan _ _ _ _ _ _ _ run := by
    rw [Expr.everywhere_const] at plan
    obtain ⟨e, flat, rfl, _⟩ := Expr.yields_flatten_const.1 run
    exact Flattened.everywhere_plain (plan.2 e flat)
  null type plan _ _ _ _ _ _ _ run := by
    rw [Expr.everywhere_null] at plan
    obtain ⟨rfl, _⟩ := Expr.yields_flatten_null.1 run
    exact Flattened.everywhere_plain plan.2
  apply op args := apply normal op args registered
  tuple es ih plan _ _ _ _ _ scope stem run := by
    rw [Expr.everywhere_tuple] at plan
    obtain ⟨parts, runItems, rfl⟩ := Expr.yields_flatten_tuple.1 run
    have each := items ih plan.2 scope stem runItems
    exact Flattened.everywhere_gather each
      ((Expr.everywhere_tuple _).2 ⟨normal.tuple _, Flattened.everywhere_exprs each⟩)
  aggregate fn arg ih plan _ _ _ _ _ scope stem run := by
    rw [Expr.everywhere_aggregate] at plan
    obtain ⟨flatArg, e, runArg, flat, rfl⟩ := Expr.yields_flatten_aggregate.1 run
    have own := ih plan.2 scope stem runArg
    exact ⟨Expr.everywhere_flattenAggregate (normal.aggregate fn) own.expr flat, own.queries,
      own.restrictions⟩
  multiAggregate _ _ _ _ _ _ _ _ _ _ _ run := (Expr.not_yields_flatten_multiAggregate run).elim
  case := case normal
  scalarSubquery query ih plan _ _ _ _ _ _ stem run := by
    rw [Expr.everywhere_scalarSubquery] at plan
    obtain ⟨flat, runQuery, rfl⟩ := Expr.yields_flatten_scalarSubquery.1 run
    exact Flattened.everywhere_plain ((Expr.everywhere_scalarSubquery flat).2
      ⟨normal.scalarSubquery flat, subquery ih plan.2 stem runQuery⟩)
  setSubquery query ih plan _ _ _ _ _ _ stem run := by
    rw [Expr.everywhere_setSubquery] at plan
    obtain ⟨flat, runQuery, rfl⟩ := Expr.yields_flatten_setSubquery.1 run
    exact Flattened.everywhere_plain ((Expr.everywhere_setSubquery flat).2
      ⟨normal.setSubquery flat, subquery ih plan.2 stem runQuery⟩)
  empty _ _ _ _ _ _ run := by
    obtain ⟨rfl, _, _⟩ := Query.yields_flatten_empty.1 run
    rw [Query.everywhere_empty]
    exact normal.query _ rfl trivial
  table name own plan _ _ _ _ _ run := by
    rw [Query.everywhere_table] at plan
    obtain ⟨rfl, _, _⟩ := Query.yields_flatten_table.1 run
    rw [Query.everywhere_table]
    exact plan.2
  galaxy g ih plan _ _ _ _ stem run := by
    rw [Query.everywhere_galaxy] at plan
    obtain ⟨_, _, _, _, _, runQuery, _, project, equal, _⟩ := Query.yields_flatten_galaxy.1 run
    cases equal
    exact renamed normal project (ih plan.2 stem runQuery)
  project := project normal
  restrict := restrict normal
  combine := combine normal
  grouping := grouping normal
  order := order normal
  top offset count input ih plan _ _ _ _ stem run := by
    rw [Query.everywhere_top] at plan
    obtain ⟨flatInput, runInput, rfl⟩ := Query.yields_flatten_top.1 run
    rw [Query.everywhere_top]
    exact ⟨normal.query _ rfl trivial, ih plan.2 stem runInput⟩

end Nodes

end NormalForms

/-! ## Reading back -/

/-- A node that refers to what a universe holds under that name; a constant is a finite member of
its type. -/
def Universe.holding (u : Universe) : NodeProperty where
  expr
    | .const type value => type.Resolved u.type? ∧ type.isMember value = true ∧
    value.isFinite = true
    | .null type => type.Resolved u.type?
    | .apply op _ => u.operators.find? op.name = some op
    | _ => True
  query
    | .table name schema => u.relations.find? name = some (.table name schema)
    | .galaxy g => u.relations.find? g.name = some (.galaxy g)
    | _ => True

theorem Operator.Answers.and {rules : Rules} {op : Operator} (hp : op.Answers rules p)
    (hr : op.Answers rules r) :
    op.Answers rules (p.and r) := by
  intro a source parts part own onArgs onColumns flat
  obtain ⟨exprFirst, testsFirst⟩ := hp own (fun e member => (onArgs e member).left)
    (fun c member => (onColumns c member).left) flat
  obtain ⟨exprSecond, testsSecond⟩ := hr own (fun e member => (onArgs e member).right)
    (fun c member => (onColumns c member).right) flat
  refine ⟨exprFirst.and exprSecond, fun test member => ?_⟩
  rcases testsFirst test member with known | new
  · exact .inl known
  · exact (testsSecond test member).imp_right fun other => new.and other

namespace NodeProperty

theorem ofNormal_normal : normal.OfNormal :=
  ⟨fun _ => trivial, fun _ => trivial, fun _ _ => trivial, fun _ _ => trivial, fun _ => trivial,
    fun _ => trivial, fun _ _ node => node⟩

/-- What a universe holds matters to references only. -/
theorem ofNormal_and_holding (u : Universe) : (normal.and u.holding).OfNormal where
  attr _ := ⟨trivial, trivial⟩
  tuple _ := ⟨trivial, trivial⟩
  aggregate _ _ := ⟨trivial, trivial⟩
  case _ _ := ⟨trivial, trivial⟩
  scalarSubquery _ := ⟨trivial, trivial⟩
  setSubquery _ := ⟨trivial, trivial⟩
  query q noRelation node := by
    refine ⟨node, ?_⟩
    cases q with
    | table | galaxy => cases noRelation
    | _ => trivial

theorem supplied_and {rules : Rules} :
    (p.supplied rules).Joins (r.supplied rules) ((p.and r).supplied rules) where
  expr e hp hr := by
    cases e with
    | const type value => exact fun e flat => (hp e flat).and (hr e flat)
    | null type => exact Expr.Everywhere.and hp hr
    | apply op args => exact Operator.Answers.and hp hr
    | _ => trivial
  query q hp hr := by
    cases q with
    | table name schema => exact ⟨hp, hr⟩
    | _ => trivial

end NodeProperty

/-- Nulls and tables are normal, and so is what the operators and the encoders of a tidy plan
answer. -/
theorem Query.supplied_of_tidy {q : Query} (plan : q.Everywhere (x.tidy check sources)) :
    q.Everywhere (NodeProperty.normal.supplied check.rules) := by
  refine plan.imp (fun e node => ?_) fun q _ => by cases q <;> trivial
  cases e with
  | const type value => exact node.1.2
  | null type =>
    refine Expr.everywhere_of_leaves (fun _ => trivial) (Expr.of_flattenNull fun type => ?_)
    exact (Expr.everywhere_null type).2 trivial
  | apply op args => exact node.1.2.1
  | _ => trivial

/-- A normal plan over what a universe holds is well-formed. -/
theorem NormalForms.wellFormed (u : Universe) :
    Plan.Cases (fun e => e.Everywhere (NodeProperty.normal.and u.holding) → e.WellFormed u)
      fun q => q.Everywhere (NodeProperty.normal.and u.holding) → q.WellFormed u where
  attr name _ := .attr name
  const type value h := by
    rw [Expr.everywhere_const] at h
    exact .const h.2.1 h.2.2.1 h.2.2.2
  null type h := by
    rw [Expr.everywhere_null] at h
    exact .null h.2
  apply op args _ ih h := by
    rw [Expr.everywhere_apply] at h
    exact .apply h.1.2 fun e member => ih e member (h.2 e member)
  tuple es ih h := by
    rw [Expr.everywhere_tuple] at h
    exact .tuple fun e member => ih e member (h.2 e member)
  aggregate fn arg ih h := by
    rw [Expr.everywhere_aggregate] at h
    exact .aggregate fn (ih h.2)
  multiAggregate fn args ih h := by
    rw [Expr.everywhere_multiAggregate] at h
    exact .multiAggregate fn fun e member => ih e member (h.2 e member)
  case bs default ih last h := by
    rw [Expr.everywhere_case] at h
    refine .case (fun b member => ?_) (fun b member => ?_) (last h.2.2)
    · exact (ih b member).1 (h.2.1 b member).1
    · exact (ih b member).2 (h.2.1 b member).2
  scalarSubquery query ih h := by
    rw [Expr.everywhere_scalarSubquery] at h
    exact .scalarSubquery (ih h.2)
  setSubquery query ih h := by
    rw [Expr.everywhere_setSubquery] at h
    exact .setSubquery (ih h.2)
  empty _ := .empty
  table name schema h := by
    rw [Query.everywhere_table] at h
    exact .table h.2
  galaxy g _ h := by
    rw [Query.everywhere_galaxy] at h
    exact .galaxy h.1.2
  project columns input ihc ih h := by
    rw [Query.everywhere_project] at h
    exact .project h.1.1.1 h.1.1.2 (fun c member => ihc c member (h.2.1 c member)) (ih h.2.2)
  restrict predicate input ihp ih h := by
    rw [Query.everywhere_restrict] at h
    exact .restrict (ihp h.2.1) (ih h.2.2)
  combine op left right ihl ihr h := by
    rw [Query.everywhere_combine] at h
    refine .combine ?_ (ihl h.2.1) (ihr h.2.2)
    rintro rfl
    exact h.1.1
  grouping columns input ihc ih h := by
    rw [Query.everywhere_grouping] at h
    exact .grouping h.1.1 (fun c member => ihc c member (h.2.1 c member)) (ih h.2.2)
  order keys input ihk ih h := by
    rw [Query.everywhere_order] at h
    exact .order (fun k member => ihk k member (h.2.1 k member)) (ih h.2.2)
  top offset count input ih h := by
    rw [Query.everywhere_top] at h
    exact .top offset count (ih h.2)

/-- The flat form of a normal plan is normal. So over a universe that registrations have built it is
read back from its datum, if the universe holds what flattening makes of the plan. `sources` are the
queries that operators look up. -/
theorem Query.flatten_normal {q flat : Query}
    (registered : ∀ source, sources source → source.Everywhere (x.tidy check sources))
    (plan : q.Everywhere (x.tidy check sources)) (stem : s.names.stem = x.stem)
    (run : (q.flatten check).runFrom s = (.ok (flat, env), t)) :
    flat.Everywhere .normal ∧
      ∀ u : Universe, u.Built BaseTy.Faithful →
        (∀ source, sources source → source.Everywhere (u.holding.supplied check.rules)) →
        q.Everywhere (u.holding.supplied check.rules) → ∃ d, flat.toDatum = .ok d ∧
          Query.ofDatum u d = .ok flat := by
  constructor
  · have cases := NormalForms.cases NodeProperty.ofNormal_normal
      fun source known => (registered source known).and (supplied_of_tidy (registered source known))
    exact cases.query q (plan.and (supplied_of_tidy plan)) stem run
  · intro u built held holds
    have both : ∀ q : Query, q.Everywhere (x.tidy check sources) →
        q.Everywhere (u.holding.supplied check.rules) →
        q.Everywhere ((x.tidy check sources).and
          ((NodeProperty.normal.and u.holding).supplied check.rules)) :=
      fun q tidy own => tidy.and
        (NodeProperty.supplied_and.everywhere.query q (supplied_of_tidy tidy) own)
    have cases := NormalForms.cases (NodeProperty.ofNormal_and_holding u)
      fun source known => both source (registered source known) (held source known)
    have nodes := cases.query q (both q plan holds) stem run
    exact (LosslessPlans.cases (built.coherent Ty.faithful_of_builtin)).query flat
      ((NormalForms.wellFormed u).query flat nodes)

namespace Sample

/-- The built-in universe with the tables and the operator that looks nicknames up. -/
def directory : Universe :=
  ({ Universe.builtins with
    relations :=
      ((Universe.builtins.relations.insert "T" tableT).insert "U" tableU).insert "N" tableN } :
      Universe).registerOperator nickname

theorem directory_built : directory.Built BaseTy.Faithful := by
  have first : ({ Universe.builtins with
      relations := Universe.builtins.relations.insert "T" tableT } : Universe).Built
      BaseTy.Faithful :=
    .registerRelation (q := tableT) .builtins rfl
  exact .registerOperator
    (.registerRelation (q := tableN) (.registerRelation (q := tableU) first rfl) rfl)

/-- Whether the nickname of a text is `x`. -/
def isNicknamed : Expr :=
  .apply (.comparison "=") [.apply nickname [.attr "b"], .const .string (.string "x")]

/-- A number and the people, beside the texts with that nickname. -/
def nicknamed : Query :=
  .project [("one", .const .integer (.integer 1)), ("q", .attr "p")]
    (.restrict isNicknamed (.combine .product (.galaxy galaxyP) tableT))

section Tidy

variable {check : Regime}

theorem table_tidy (name : String) (schema : Schema) :
    (Query.table name schema).Everywhere (session.tidy check (· = tableN)) := by
  rw [Query.everywhere_table]
  exact ⟨⟨trivial, trivial⟩, trivial⟩

theorem scalar_normal {rules : Rules} {type : Ty} {value : Value} (scalar : type.layout? = none) :
    rules.StoredAs (Expr.Everywhere .normal) type value :=
  Rules.storedAs_of_scalar scalar ((Expr.everywhere_const _ _).2 trivial)

theorem isNicknamed_tidy : isNicknamed.Everywhere (session.tidy check (· = tableN)) := by
  rw [isNicknamed, Expr.everywhere_apply, List.forall_mem_cons, List.forall_mem_singleton,
    Expr.everywhere_apply, List.forall_mem_singleton, Expr.everywhere_attr, Expr.everywhere_const]
  have equality : (session.tidy check (· = tableN)).expr isNicknamed :=
    ⟨⟨trivial, Operator.answers_of_noTemplate rfl (fun _ => trivial) (fun _ _ _ => trivial),
      fun _ found => by cases found⟩, trivial⟩
  have lookup : (session.tidy check (· = tableN)).expr (.apply nickname [.attr "b"]) :=
    ⟨⟨trivial, nickname_answers (fun _ => trivial) (fun _ => trivial),
      fun _ found => (Option.some.inj found).symm⟩, trivial⟩
  exact ⟨equality, ⟨lookup, ⟨trivial, trivial⟩, trivial⟩, ⟨trivial, scalar_normal rfl⟩, trivial⟩

theorem nicknamed_tidy : nicknamed.Everywhere (session.tidy check (· = tableN)) := by
  have exposing : Query.Exposing check [("one", .const .integer (.integer 1)), ("q", .attr "p")]
      (.restrict isNicknamed (.combine .product (.galaxy galaxyP) tableT)) := by
    refine Query.exposing_of_scalar List.mem_cons_self ?_
    intro env schema s t part run
    obtain ⟨e, flat, rfl, _⟩ := Expr.yields_flatten_const.1 run
    cases flat
    rfl
  rw [nicknamed, Query.everywhere_project, Query.everywhere_restrict, Query.everywhere_combine,
    Query.everywhere_galaxy, List.forall_mem_cons, List.forall_mem_singleton, Expr.everywhere_const,
    Expr.everywhere_attr]
  refine ⟨⟨⟨⟨by decide, by simp⟩, trivial⟩, Session.declares_all (by decide), exposing⟩,
    ⟨⟨⟨trivial, scalar_normal rfl⟩, trivial⟩, ⟨trivial, trivial⟩, trivial⟩,
    ⟨⟨trivial, trivial⟩, fun _ => trivial⟩, isNicknamed_tidy, ⟨⟨⟨?_, ?_⟩, trivial⟩, trivial⟩,
    ⟨⟨⟨trivial, trivial⟩, trivial⟩, table_tidy _ _⟩, table_tidy _ _⟩
  · exact Query.noConfusion
  · exact Query.noConfusion

end Tidy

/-! What the universe holds of the plan. -/

theorem nicknamed_held : nicknamed.Everywhere (directory.holding.supplied rules) := by
  have table : ∀ name schema, directory.relations.find? name = some (.table name schema) →
      (Query.table name schema).Everywhere (directory.holding.supplied rules) :=
    fun name schema known => (Query.everywhere_table name schema).2 known
  have integer : rules.StoredAs (Expr.Everywhere directory.holding) .integer (.integer 1) :=
    Rules.storedAs_of_scalar rfl ((Expr.everywhere_const _ _).2 ⟨⟨rfl, rfl⟩, rfl, rfl⟩)
  have text : rules.StoredAs (Expr.Everywhere directory.holding) .string (.string "x") :=
    Rules.storedAs_of_scalar rfl ((Expr.everywhere_const _ _).2 ⟨⟨rfl, rfl⟩, rfl, rfl⟩)
  have equality : (Operator.comparison "=").Answers rules directory.holding := by
    refine Operator.answers_of_noTemplate rfl (fun _ => rfl) fun joiner form args => ?_
    cases form
    rfl
  rw [nicknamed, Query.everywhere_project, Query.everywhere_restrict, Query.everywhere_combine,
    Query.everywhere_galaxy, List.forall_mem_cons, List.forall_mem_singleton, Expr.everywhere_const,
    Expr.everywhere_attr, isNicknamed, Expr.everywhere_apply, List.forall_mem_cons,
    List.forall_mem_singleton, Expr.everywhere_apply, List.forall_mem_singleton,
    Expr.everywhere_attr, Expr.everywhere_const]
  exact ⟨trivial, ⟨integer, trivial⟩, trivial,
    ⟨equality, ⟨nickname_answers (fun _ => rfl) (fun _ => rfl), trivial⟩, text⟩, trivial,
    ⟨trivial, table _ _ rfl⟩, table _ _ rfl⟩

/-- The flat form joins the looked up table, projects it away again and is read back from its
datum. -/
theorem nicknamed_normal : ∃ flat env t,
    (nicknamed.flatten session.permissive).runFrom start = (.ok (flat, env), t) ∧
    flat.Everywhere .normal ∧
      ∃ d, flat.toDatum = .ok d ∧ Query.ofDatum directory d = .ok flat := by
  have registered : ∀ source, source = tableN →
      source.Everywhere (session.tidy session.permissive (· = tableN)) ∧
        source.Everywhere (directory.holding.supplied rules) := by
    rintro source rfl
    exact ⟨table_tidy _ _, (Query.everywhere_table _ _).2 rfl⟩
  have normal := Query.flatten_normal (x := session) (s := start)
    (fun source known => (registered source known).1) nicknamed_tidy rfl rfl
  exact ⟨_, _, _, rfl, normal.1, normal.2 directory directory_built
    (fun source known => (registered source known).2) nicknamed_held⟩

/-- The texts of a table that has two columns of one name, with the nickname `x`. -/
def repeatedTexts : Query := .restrict isNicknamed (.table "X" ⟨[("b", .string), ("b", .string)]⟩)

/-- A number from the rows of a projection to nothing on a projection. -/
def rowCount : Operator where
  name := "rows"
  range _ _ := .ok .integer
  render := Operator.callText "rows"
  flattening :=
    .template (.expr (.scalarSubquery (.project [] (.project [("first", .attr "first")] tableU))))

/-- A normal projection of people to nothing, or to a tuple of nothing, stands on a projection when
it is flat, and is read back without it. The rows of a table with two columns of one name are
projected to both, where a lookup is projected away, which the constructor refuses. And a template
passes on what it holds. -/
theorem normality_lost :
    ((Query.project [] (.galaxy galaxyP)).Everywhere .normal ∧ ∃ inner env t d,
      ((Query.project [] (.galaxy galaxyP)).flatten session.permissive).runFrom start =
        (.ok (.project [] (.project inner tableU), env), t) ∧
      (Query.project [] (.project inner tableU)).toDatum = .ok d ∧
      Query.ofDatum directory d = .ok (.project [] tableU)) ∧
    ((Query.project [("r", .tuple [])] (.galaxy galaxyP)).Everywhere .normal ∧ ∃ inner env t,
      ((Query.project [("r", .tuple [])] (.galaxy galaxyP)).flatten session.permissive).runFrom
        start = (.ok (.project [] (.project inner tableU), env), t)) ∧
    (repeatedTexts.Everywhere .normal ∧ ∃ columns source env t,
      (repeatedTexts.flatten session.permissive).runFrom start =
        (.ok (.project columns source, env), t) ∧
      Query.projection columns source = .error (.invalidArgument (.repeatedColumn "b"))) ∧
    (Query.project [("n", .apply rowCount [])] tableT).Everywhere .normal ∧ ∃ inner env t,
      ((Query.project [("n", .apply rowCount [])] tableT).flatten session.permissive).runFrom
        start =
          (.ok (.project [("n", .scalarSubquery (.project [] (.project inner tableU)))] tableT,
            env), t) := by
  refine ⟨⟨?_, _, _, _, _, rfl, rfl, rfl⟩, ⟨?_, _, _, _, rfl⟩, ⟨?_, _, _, _, _, rfl, rfl⟩, ?_,
    _, _, _, rfl⟩
  · rw [Query.everywhere_project, Query.everywhere_galaxy]
    exact ⟨⟨.nil, fun _ _ _ => Query.noConfusion⟩, by
      simp, trivial, (Query.everywhere_table _ _).2 trivial⟩
  · rw [Query.everywhere_project, Query.everywhere_galaxy, List.forall_mem_singleton,
      Expr.everywhere_tuple]
    exact ⟨⟨by decide, by simp⟩, ⟨trivial, by simp⟩, trivial,
      (Query.everywhere_table _ _).2 trivial⟩
  · have tidy : isNicknamed.Everywhere (session.tidy session.permissive (· = tableN)) :=
      isNicknamed_tidy
    rw [repeatedTexts, Query.everywhere_restrict]
    exact ⟨trivial, tidy.left.left, (Query.everywhere_table _ _).2 trivial⟩
  · rw [Query.everywhere_project, List.forall_mem_singleton, Expr.everywhere_apply]
    exact ⟨⟨by decide, by simp⟩, ⟨trivial, by simp⟩, (Query.everywhere_table _ _).2 trivial⟩

end Sample

end FlatPlan
