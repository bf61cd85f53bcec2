import FlatPlan.Proofs.FixedPoints
import FlatPlan.Proofs.SchemaPreservation

/-!
# Flattening twice

A flat form is a plan that flattening leaves alone, so a second run of the pass changes nothing
(`Query.flatten_flatten`). That nothing structured is left in a flat form is known from its typing.
What is left to see is that it holds no aggregation of several arguments: the pass refuses them, and
operators without templates bring none in (`Query.singleAggregates_of_flatten`). Different output
names of projections are needed again: in `Sample.repeatedColumn` a name is used twice, and its flat
form does not flatten.
-/

namespace FlatPlan

open Pass

/-- No node is an aggregation of several arguments. -/
def NodeProperty.singleAggregates : NodeProperty where
  expr
    | .multiAggregate _ _ => False
    | _ => True
  query _ := True

/-- The operators make nothing but comparisons of components of their arguments, and constants are
stored without aggregations of several arguments. -/
def NodeProperty.noTemplates (rules : Rules) : NodeProperty where
  expr
    | .apply op _ => op.hasTemplate = false
    | .const type value => rules.StoredAs (Expr.Everywhere .singleAggregates) type value
    | _ => True
  query _ := True

/-- A flat expression without aggregations of several arguments that needs no joins. -/
structure Flattened.Single (part : Flattened) : Prop where
  expr : part.expr.Everywhere .singleAggregates
  queries : part.queries = []
  restrictions : part.restrictions = []

/-- Flattening brings no aggregations of several arguments in. -/
def Expr.FlattensSingle (check : Regime) (e : Expr) : Prop :=
  e.Everywhere (.noTemplates check.rules) →
    ∀ {schema : Schema} {env : Environment} {s t : PassState} {part : Flattened},
      (∀ name, (env.resolve name).Everywhere .singleAggregates) →
    (e.flatten check env schema).Yields s part t → part.Single

/-- Flattening brings no aggregations of several arguments in. -/
def Query.FlattensSingle (check : Regime) (q : Query) : Prop :=
  q.Everywhere (.noTemplates check.rules) → ∀ {env : Environment} {s t : PassState} {flat : Query},
    (q.flatten check).Yields s (flat, env) t → flat.Everywhere .singleAggregates

namespace Flattened

theorem single_plain {e : Expr} (h : e.Everywhere .singleAggregates) : (plain e).Single :=
  ⟨h, rfl, rfl⟩

theorem single_gather {parts : List Flattened} {e : Expr} (all : ∀ part ∈ parts, part.Single)
    (h : e.Everywhere .singleAggregates) : (gather parts e).Single :=
  ⟨h, List.flatMap_eq_nil_iff.2 fun part member => (all part member).queries,
    List.flatMap_eq_nil_iff.2 fun part member => (all part member).restrictions⟩

end Flattened

namespace Idempotence

variable {check : Regime} {env : Environment} {schema : Schema} {s t : PassState} {part : Flattened}

/-! ## Expressions -/

theorem everywhere_null (own : Ty) : (Expr.null own).Everywhere .singleAggregates :=
  (Expr.everywhere_null own).2 trivial

theorem everywhere_apply {op : Operator} {args : List Expr}
    (h : ∀ e ∈ args, e.Everywhere .singleAggregates) :
    (Expr.apply op args).Everywhere .singleAggregates :=
  (Expr.everywhere_apply op args).2 ⟨trivial, h⟩

theorem const (own : Ty) (value : Value) : (Expr.const own value).FlattensSingle check := by
  intro plan schema env s t part _ run
  obtain ⟨e, flat, rfl, _⟩ := Expr.yields_flatten_const.1 run
  rw [Expr.everywhere_const] at plan
  exact Flattened.single_plain (plan e flat)

theorem null (own : Ty) : (Expr.null own).FlattensSingle check := by
  intro _ schema env s t part _ run
  obtain ⟨rfl, _⟩ := Expr.yields_flatten_null.1 run
  exact Flattened.single_plain (Expr.everywhere_of_leaves
    (fun _ => trivial) (Expr.of_flattenNull everywhere_null))

/-- Flat expressions aggregate single columns only. -/
theorem items {es : List Expr} {parts : List Flattened} (ih : ∀ e ∈ es, e.FlattensSingle check)
    (plan : ∀ e ∈ es, e.Everywhere (.noTemplates check.rules))
    (scope : ∀ name, (env.resolve name).Everywhere .singleAggregates)
    (run : (Expr.flattenItems check env schema es).Yields s parts t) :
    ∀ part ∈ parts, part.Single := by
  intro part member
  obtain ⟨e, among, _, _, _, runItem, _⟩ :=
    exists_of_mem_right (Expr.flattenItems_within run) member
  exact ih e among (plan e among) scope runItem

theorem exprs {parts : List Flattened} (h : ∀ part ∈ parts, part.Single) :
    ∀ e ∈ parts.map (·.expr), e.Everywhere .singleAggregates :=
  List.forall_mem_map.2 fun part member => (h part member).expr

/-- Operators without templates apply themselves and their joiners to leaves of the arguments. -/
theorem application {rules : Rules} {a : Application} {source : Option Query}
    {parts : List Flattened} (noTemplate : a.op.hasTemplate = false)
    (args : ∀ e ∈ a.args, e.Everywhere .singleAggregates)
    (all : ∀ part ∈ parts, part.Single) (flat : a.flatten rules source parts = .ok part) :
    part.Single := by
  unfold Operator.hasTemplate at noTemplate
  unfold Application.flatten at flat
  split at flat
  case h_1 =>
    cases flat
    exact Flattened.single_gather all (everywhere_apply args)
  case h_2 joiner _ =>
    split at flat
    case h_1 left right equal =>
      simp only [bind_eq_ok, pure_eq_ok] at flat
      obtain ⟨e, compared, rfl⟩ := flat
      simp only [equal, List.forall_mem_cons] at args
      refine Flattened.single_gather all (Operator.of_compare (fun a b ha hb => ?_)
        (fun l hl r hr => ?_) compared)
      · exact everywhere_apply (by simp [ha, hb])
      · have left := Expr.everywhere_leaves args.1 hl
        have right := Expr.everywhere_leaves args.2.1 hr
        exact everywhere_apply (by simp [left, right])
    case h_2 =>
      cases flat
      exact Flattened.single_gather all (everywhere_apply args)
  all_goals simp_all

/-- A flat application aggregates what its arguments aggregate. -/
theorem apply (op : Operator) (args : List Expr) (ih : ∀ e ∈ args, e.FlattensSingle check) :
    (Expr.apply op args).FlattensSingle check := by
  intro plan schema env s t part scope run
  rw [Expr.everywhere_apply] at plan
  obtain ⟨parts, u, types, joined, runArgs, _, flat⟩ := Expr.exists_application run
  have noTemplate : op.hasTemplate = false := plan.1
  have all := items ih plan.2 scope runArgs
  exact application noTemplate (exprs all) all flat

theorem tuple (es : List Expr) (ih : ∀ e ∈ es, e.FlattensSingle check) :
    (Expr.tuple es).FlattensSingle check := by
  intro plan schema env s t part scope run
  rw [Expr.everywhere_tuple] at plan
  obtain ⟨parts, runItems, rfl⟩ := Expr.yields_flatten_tuple.1 run
  have all := items ih plan.2 scope runItems
  exact Flattened.single_gather all ((Expr.everywhere_tuple _).2 ⟨trivial, exprs all⟩)

/-- A flat aggregation is of one column: a count takes the first leaf of its argument. -/
theorem aggregate (fn : Aggregate) (arg : Expr) (ih : arg.FlattensSingle check) :
    (Expr.aggregate fn arg).FlattensSingle check := by
  intro plan schema env s t part scope run
  rw [Expr.everywhere_aggregate] at plan
  obtain ⟨flatArg, e, runArg, flat, rfl⟩ := Expr.yields_flatten_aggregate.1 run
  have single := ih plan.2 scope runArg
  exact ⟨Expr.everywhere_flattenAggregate (fun _ => trivial) single.expr flat, single.queries,
    single.restrictions⟩

/-- Flat branches aggregate single columns only. -/
theorem branches {bs : List (Expr × Expr)} {parts : List (Flattened × Flattened)}
    (ih : ∀ b ∈ bs, b.1.FlattensSingle check ∧ b.2.FlattensSingle check)
    (plan : ∀ b ∈ bs, b.1.Everywhere (.noTemplates check.rules) ∧
      b.2.Everywhere (.noTemplates check.rules))
    (scope : ∀ name, (env.resolve name).Everywhere .singleAggregates)
    (run : (Expr.flattenBranches check env schema bs).Yields s parts t) :
    ∀ part ∈ parts, part.1.Single ∧ part.2.Single := by
  intro part member
  obtain ⟨b, among, ⟨_, _, _, runCondition, _⟩, _, _, _, _, runResult, _⟩ :=
    exists_of_mem_right (Expr.flattenBranches_within run) member
  exact ⟨(ih b among).1 (plan b among).1 scope runCondition,
    (ih b among).2 (plan b among).2 scope runResult⟩

/-- A flat choice aggregates what its parts aggregate, also where it is distributed. -/
theorem case (bs : List (Expr × Expr)) (default : Expr)
    (ihb : ∀ b ∈ bs, b.1.FlattensSingle check ∧ b.2.FlattensSingle check)
    (ihd : default.FlattensSingle check) :
    (Expr.case bs default).FlattensSingle check := by
  intro plan schema env s t part scope run
  rw [Expr.everywhere_case] at plan
  obtain ⟨parts, u, runBranches, last, e, runDefault, flat, rfl⟩ := Expr.yields_flatten_case.1 run
  have all := branches ihb plan.2.1 scope runBranches
  have single := ihd plan.2.2 scope runDefault
  refine Flattened.single_gather (Expr.forall_mem_choice all single)
    (Expr.everywhere_flattenCase (fun _ => trivial) (fun _ _ => trivial) ?_ ?_ single.expr flat)
  · exact List.forall_mem_map.2 fun part member => (all part member).1.expr
  · exact List.forall_mem_map.2 fun part member => (all part member).2.expr

theorem scalarSubquery (query : Query) (ih : query.FlattensSingle check) :
    (Expr.scalarSubquery query).FlattensSingle check := by
  intro plan schema env s t part _ run
  rw [Expr.everywhere_scalarSubquery] at plan
  obtain ⟨flat, runSubquery, rfl⟩ := Expr.yields_flatten_scalarSubquery.1 run
  obtain ⟨_, _, env, runQuery, _⟩ := Query.yields_flattenSubquery.1 runSubquery
  exact Flattened.single_plain
    ((Expr.everywhere_scalarSubquery flat).2 ⟨trivial, ih plan.2 runQuery⟩)

theorem setSubquery (query : Query) (ih : query.FlattensSingle check) :
    (Expr.setSubquery query).FlattensSingle check := by
  intro plan schema env s t part _ run
  rw [Expr.everywhere_setSubquery] at plan
  obtain ⟨flat, runSubquery, rfl⟩ := Expr.yields_flatten_setSubquery.1 run
  obtain ⟨_, _, env, runQuery, _⟩ := Query.yields_flattenSubquery.1 runSubquery
  exact Flattened.single_plain ((Expr.everywhere_setSubquery flat).2 ⟨trivial, ih plan.2 runQuery⟩)

/-! ## Queries -/

/-- Bindings are references, so they aggregate nothing. -/
theorem scope {q flat : Query} (run : (q.flatten check).Yields s (flat, env) t) (name : String) :
    (env.resolve name).Everywhere .singleAggregates :=
  Query.everywhere_resolve (fun _ => trivial) (fun _ => trivial) run name

theorem galaxy (g : Galaxy) (ih : g.query.FlattensSingle check) :
    (Query.galaxy g).FlattensSingle check := by
  intro plan env s t flat run
  rw [Query.everywhere_galaxy] at plan
  obtain ⟨underlying, _, u, known, renamed, runQuery, _, project, equal, _⟩ :=
    Query.yields_flatten_galaxy.1 run
  cases equal
  exact Query.everywhere_projection (fun _ _ => trivial) project (ih plan.2 runQuery)
    (Query.everywhere_renamings fun _ => trivial)

theorem project (cs : List (String × Expr)) (input : Query)
    (ihc : ∀ c ∈ cs, c.2.FlattensSingle check) (ih : input.FlattensSingle check) :
    (Query.project cs input).FlattensSingle check := by
  intro plan env s t flat run
  rw [Query.everywhere_project] at plan
  obtain ⟨_, planColumns, planInput⟩ := plan
  obtain ⟨flatInput, envInput, u, runInput, known, _, outputs, runColumns, rfl, _⟩ :=
    Query.yields_flatten_project.1 run
  have each : ∀ o ∈ outputs, (∀ c ∈ o.columns, c.2.Everywhere .singleAggregates) ∧ o.queries = [] ∧
      o.restrictions = [] := by
    intro o member
    obtain ⟨c, among, part, ⟨_, _, _, runColumn, _⟩, _, _, _, output, _⟩ :=
      exists_of_mem_right (Query.flattenColumns_within runColumns) member
    have single := ihc c among (planColumns c among) (scope runInput) runColumn
    have carries := OutputColumn.carries_of_yields output
    refine ⟨fun d own => Expr.everywhere_leaves single.expr (carries.mem_leaves own), ?_, ?_⟩
    · rw [carries.queries, single.queries]
    · rw [carries.restrictions, single.restrictions]
  rw [Query.ofOutputs, List.flatMap_eq_nil_iff.2 fun o member => (each o member).2.1,
    List.flatMap_eq_nil_iff.2 fun o member => (each o member).2.2, Query.everywhere_project]
  refine ⟨trivial, fun c member => ?_, ih planInput runInput⟩
  obtain ⟨o, among, own⟩ := List.mem_flatMap.1 member
  exact (each o among).1 c own

theorem restrict (predicate : Expr) (input : Query) (ihp : predicate.FlattensSingle check)
    (ih : input.FlattensSingle check) :
    (Query.restrict predicate input).FlattensSingle check := by
  intro plan env s t flat run
  rw [Query.everywhere_restrict] at plan
  obtain ⟨flatInput, u, known, part, runInput, _, runPredicate, restriction⟩ :=
    Query.yields_flatten_restrict.1 run
  have single := ihp plan.2.1 (scope runInput) runPredicate
  simp only [Query.flattenRestriction, single.queries, single.restrictions, List.isEmpty_nil,
    if_true] at restriction
  split at restriction
  · cases restriction
  · cases restriction
    exact (Query.everywhere_restrict _ _).2 ⟨trivial, single.expr, ih plan.2.2 runInput⟩

theorem combine (op : CombineOp) (left right : Query) (ihl : left.FlattensSingle check)
    (ihr : right.FlattensSingle check) :
    (Query.combine op left right).FlattensSingle check := by
  intro plan env s t flat run
  rw [Query.everywhere_combine] at plan
  obtain ⟨flatLeft, leftEnv, u, flatRight, rightEnv, runLeft, runRight, combined⟩ :=
    Query.combined_of_yields run
  have nodesLeft := ihl plan.2.1 runLeft
  have nodesRight := ihr plan.2.2 runRight
  have aligned :
      ∀ {pairs : List (String × String)} {aligned : Query} {columns : List (String × Expr)},
      Query.Aligns pairs leftEnv rightEnv flatRight aligned columns →
        aligned.Everywhere .singleAggregates := by
    intro pairs aligned columns alignment
    refine Query.everywhere_projection (fun _ _ => trivial) alignment.project nodesRight
      fun c member => ?_
    obtain ⟨_, _, source, _, equal⟩ := alignment.sources c member
    rw [equal, Expr.everywhere_attr]
    trivial
  cases combined with
  | plain | product => exact (Query.everywhere_combine op _ _).2 ⟨trivial, nodesLeft, nodesRight⟩
  | quotient _ alignment | setOperation _ _ alignment =>
    exact (Query.everywhere_combine op _ _).2 ⟨trivial, nodesLeft, aligned alignment⟩

theorem grouping (cs : List (String × Expr)) (input : Query)
    (ihc : ∀ c ∈ cs, c.2.FlattensSingle check) (ih : input.FlattensSingle check) :
    (Query.grouping cs input).FlattensSingle check := by
  intro plan env s t flat run
  rw [Query.everywhere_grouping] at plan
  obtain ⟨flatInput, envInput, u, runInput, known, _, flats, runGroups, rfl, _⟩ :=
    Query.yields_flatten_grouping.1 run
  refine (Query.everywhere_grouping _ _).2 ⟨trivial, fun f member => ?_, ih plan.2.2 runInput⟩
  obtain ⟨c, among, part, ⟨_, _, _, runColumn, _⟩, _, _, rfl⟩ :=
    exists_of_mem_right (Query.flattenGroups_within runGroups) member
  exact (ihc c among (plan.2.1 c among) (scope runInput) runColumn).expr

theorem order (keys : List (Expr × Direction)) (input : Query)
    (ihk : ∀ k ∈ keys, k.1.FlattensSingle check) (ih : input.FlattensSingle check) :
    (Query.order keys input).FlattensSingle check := by
  intro plan env s t flat run
  rw [Query.everywhere_order] at plan
  obtain ⟨flatInput, u, known, flats, runInput, _, runKeys, rfl⟩ := Query.yields_flatten_order.1 run
  refine (Query.everywhere_order _ _).2 ⟨trivial, fun f member => ?_, ih plan.2.2 runInput⟩
  obtain ⟨k, among, part, ⟨_, _, _, runKey, _⟩, _, leaf⟩ :=
    Query.flattenKeys_within runKeys f member
  exact Expr.everywhere_leaves (ihk k among (plan.2.1 k among) (scope runInput) runKey).expr leaf

/-- Flat plans aggregate single columns only, node by node. -/
theorem singleCases : Plan.Cases (Expr.FlattensSingle check) (Query.FlattensSingle check) where
  attr name := by
    intro _ schema env s t part scope run
    obtain ⟨rfl, _⟩ := Expr.yields_flatten_attr.1 run
    exact Flattened.single_plain (scope name)
  const := const
  null := null
  apply op args _ := apply op args
  tuple := tuple
  aggregate := aggregate
  multiAggregate fn args _ := by
    intro _ schema env s t part _ run
    exact (Expr.not_yields_flatten_multiAggregate run).elim
  case := case
  scalarSubquery := scalarSubquery
  setSubquery := setSubquery
  empty := by
    intro _ env s t flat run
    obtain ⟨rfl, _, _⟩ := Query.yields_flatten_empty.1 run
    exact Query.everywhere_empty.2 trivial
  table name own := by
    intro _ env s t flat run
    obtain ⟨rfl, _, _⟩ := Query.yields_flatten_table.1 run
    exact (Query.everywhere_table name own).2 trivial
  galaxy := galaxy
  project := project
  restrict := restrict
  combine := combine
  grouping := grouping
  order := order
  top offset count input ih := by
    intro plan env s t flat run
    obtain ⟨flatInput, runInput, rfl⟩ := Query.yields_flatten_top.1 run
    exact (Query.everywhere_top _ _ _).2 ⟨trivial,
      ih ((Query.everywhere_top _ _ _).1 plan).2 runInput⟩

end Idempotence

/-! ## The second run -/

/-- The pass refuses aggregations of several arguments, so a flat form has none but those of
templates. -/
theorem Query.singleAggregates_of_flatten {check : Regime} {q flat : Query} {env : Environment}
    {s t : PassState} (plan : q.Everywhere (.noTemplates check.rules))
    (run : (q.flatten check).Yields s (flat, env) t) :
    flat.Everywhere .singleAggregates :=
  Idempotence.singleCases.query q plan run

variable {v : Vocabulary} {q flat : Query} {schema : Schema} {env : Environment} {s t : PassState}

/-- A regular operator has no template. -/
theorem Operator.Regular.noTemplate {op : Operator} (regular : op.Regular v) :
    op.hasTemplate = false := by
  unfold Operator.hasTemplate
  rcases regular with ⟨plain, _⟩ | rfl | rfl
  · rw [plain]
  · rfl
  · rfl

/-- A structured member is stored as constants. -/
theorem Vocabulary.storedAs_singleAggregates (v : Vocabulary) {type : Ty} {value : Value}
    (named : v.Names type) (stores : type.Stores v.rules value) :
    v.rules.StoredAs (Expr.Everywhere .singleAggregates) type value := by
  intro e flat
  rcases Expr.flattenConst_eq_ok.1 flat with ⟨_, rfl⟩ | ⟨l, layout, ⟨_, rfl⟩ | ⟨notNull, stored⟩⟩
  · exact (Expr.everywhere_const type value).2 trivial
  · exact Expr.everywhere_of_leaves (fun _ => trivial) (l.of_nulls Idempotence.everywhere_null)
  · obtain ⟨values, _, encoded⟩ :=
      v.stored_of_isMember named layout notNull (stores l e layout notNull stored)
    cases stored.symm.trans encoded
    refine (Expr.everywhere_tuple _).2 ⟨trivial, fun e member => ?_⟩
    rw [Layout.constants, ← List.map_uncurry_zip_eq_zipWith, List.mem_map] at member
    obtain ⟨pair, _, rfl⟩ := member
    exact (Expr.everywhere_const pair.1.2 pair.2).2 trivial

/-- Nothing is left in the flat form of an accepted plan that another run would change. -/
theorem Query.FlatForm.settled (form : FlatForm v schema s flat env t)
    (single : flat.Everywhere .singleAggregates) : flat.Everywhere .settled := by
  refine (form.nodes.and single).imp ?_ ?_
  · rintro e ⟨⟨word, plain⟩, oneArgument⟩
    cases e with
    | apply op args => exact Operator.Regular.noTemplate word
    | multiAggregate fn args => exact oneArgument
    | _ => exact plain
  · rintro q ⟨⟨_, plain⟩, _⟩
    cases q <;> exact plain

/-- Flattening is idempotent: the flat form of an accepted plan is its own flat form. The second run
may start from any state, also with names of another stem; it binds nothing and leaves the state as
it was. -/
theorem Query.flatten_flatten (admissible : q.Everywhere v.admissible)
    (distinct : q.Everywhere .distinctOutputs)
    (accepted : q.checkSchema v.capabilities = .ok schema) (stem : s.names.stem = v.stem)
    (run : (q.flatten v.permissive).runFrom s = (.ok (flat, env), t)) (again : PassState) :
    (flat.flatten v.permissive).runFrom again = (.ok (flat, .empty), again) := by
  have form := Query.flatForm_of_run admissible distinct accepted stem run
  have noTemplates : q.Everywhere (.noTemplates v.rules) := by
    refine admissible.imp (fun e node => ?_) fun _ _ => trivial
    cases e with
    | apply op args => exact (Operator.regular_of_standard (v := v) node).noTemplate
    | const type value => exact v.storedAs_singleAggregates node.1 node.2
    | _ => trivial
  exact Query.yields_of_settled (form.settled (Query.singleAggregates_of_flatten noTemplates run))
    again form.permissive

namespace Sample

/-- The roster is flat after one pass, and a second pass with other names leaves it alone. -/
theorem roster_flatten_flatten : ∃ flat env t,
    (roster.flatten session.permissive).runFrom start = (.ok (flat, env), t) ∧
      (flat.flatten session.permissive).runFrom ⟨⟨"other", 7⟩, []⟩ =
        (.ok (flat, .empty), ⟨⟨"other", 7⟩, []⟩) :=
  ⟨_, _, _, rfl, Query.flatten_flatten (v := vocabulary) (s := start)
    roster_admissible roster_distinct roster_accepted rfl rfl _⟩

def nobody : Expr := .null personType

/-- Nobody under a name that is used twice, beside a number, divided by nobody: the number is
left. -/
def repeatedColumn : Query :=
  .combine .quotient (.project [("x", nobody), ("x", nobody), ("n", one)] tableT)
    (.project [("x", nobody)] tableT)

/-- The number as a value of every row. -/
def repeatedColumnRows : Query :=
  .project [("y", .attr "z")] (.project [("z", .scalarSubquery repeatedColumn)] tableT)

/-- Its flat form, where the subquery has kept the columns of the first use of the name. -/
def repeatedColumnFlat : Query :=
  .project [("y", .attr "z")] (.project [("z", .scalarSubquery (.combine .quotient
    (.project [("gx_1", .null .string), ("gx_2", .null .string), ("gx_3", .null .string),
      ("gx_4", .null .string), ("n", one)] tableT)
    (.project [("gx_3", .attr "gx_5"), ("gx_4", .attr "gx_6")]
      (.project [("gx_5", .null .string), ("gx_6", .null .string)] tableT))))] tableT)

theorem repeatedColumn_admissible : repeatedColumnRows.Everywhere vocabulary.admissible := by
  have absent : nobody.Everywhere vocabulary.admissible := (Expr.everywhere_null personType).2 rfl
  have noCapture : vocabulary.NoCapture (.project [("x", nobody), ("x", nobody), ("n", one)] tableT)
      (.project [("x", nobody)] tableT) := by
    intro s t flat env _ name member other
    cases List.mem_singleton.1 member
    exact absurd List.mem_cons_self other
  simp only [repeatedColumnRows, repeatedColumn, Query.everywhere_project, Query.everywhere_combine,
    Expr.everywhere_scalarSubquery, Expr.everywhere_attr, List.forall_mem_cons, List.not_mem_nil,
    false_implies, implies_true, and_true]
  exact ⟨Session.declares_all (by decide), trivial, Session.declares_all (by decide),
    ⟨trivial, noCapture, ⟨Session.declares_all (by decide), ⟨absent, absent, one_admissible⟩,
      tableT_admissible⟩, Session.declares_all (by decide), absent,
    tableT_admissible⟩, tableT_admissible⟩

/-- Where a projection uses a name twice, a flat form may be one that is not flattened again. -/
theorem repeatedColumn_not_idempotent : repeatedColumnRows.Everywhere vocabulary.admissible ∧
    repeatedColumnRows.checkSchema vocabulary.capabilities = .ok ⟨[("y", .integer)]⟩ ∧
    (∃ t, (repeatedColumnRows.flatten vocabulary.permissive).runFrom start =
      (.ok (repeatedColumnFlat, .empty), t)) ∧
    ∀ s, (repeatedColumnFlat.flatten vocabulary.permissive).runFrom s = (.error (.notUnary 3), s) :=
  ⟨repeatedColumn_admissible, rfl, ⟨_, rfl⟩, fun _ => rfl⟩

end Sample

end FlatPlan
