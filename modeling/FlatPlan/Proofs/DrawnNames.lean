import FlatPlan.Proofs.Mentions

/-!
# Names that a run brings in

Flattening mentions no names but those of the plan and those drawn during the run, if the rules of
the operators and the encoders of the constants bring in none either. The names of the plan include
those of the queries that operators look up. Main statement: whatever holds of the names of the plan
and of the names drawn during a run holds of all names in the flat query and in its environment
(`Query.mentioned_of_yields`).
-/

namespace FlatPlan

open Pass

/-- A filled template mentions `own` names and those of the parts that fill it, and no others. -/
def Template.Confined (rules : Rules) (own : String → Prop) (op : Operator) (t : Template) : Prop :=
  ∀ ⦃a : Application⦄ ⦃e : Expr⦄, a.op = op → t.fill rules a = .ok e →
    ∀ name ∈ e.mentions, own name ∨ name ∈ a.mentions

/-- The rule of an operator brings in no names but `own` ones. -/
def Operator.Confined (rules : Rules) (own : String → Prop) (op : Operator) : Prop :=
  ∀ template ∈ op.templates, template.Confined rules own op

/-- A node mentions `own` names only, and so do the answers of the rule that it applies and of the
encoder that stores it. It looks up queries of `sources`. -/
def NodeProperty.confined (rules : Rules) (own : String → Prop) (sources : Query → Prop) :
    NodeProperty :=
  (NodeProperty.mentioning own).and
    (.relying sources (Operator.Confined rules own)
      (rules.StoredAs (Expr.Everywhere (.mentioning own))))

variable {own known : String → Prop} {sources : Query → Prop} {check : Regime} {schema : Schema}
  {env : Environment} {s t u : PassState}

/-- The flat form of the expression mentions known names only, if its plan and its environment do
and all names drawn are known. -/
def Expr.StaysConfined (check : Regime) (own known : String → Prop) (sources : Query → Prop)
    (e : Expr) : Prop :=
  e.Everywhere (.confined check.rules own sources) →
    ∀ ⦃env : Environment⦄ ⦃schema : Schema⦄ ⦃s t : PassState⦄ ⦃part : Flattened⦄,
      (∀ name, known name → (env.resolve name).Everywhere (.mentioning known)) →
    (∀ name, s.Draws t name → known name) → (e.flatten check env schema).Yields s part t →
    part.Everywhere (.mentioning known)

/-- The flat form of the query mentions known names only, if its plan does and all names drawn are
known. -/
def Query.StaysConfined (check : Regime) (own known : String → Prop) (sources : Query → Prop)
    (q : Query) : Prop :=
  q.Everywhere (.confined check.rules own sources) →
    ∀ ⦃env : Environment⦄ ⦃s t : PassState⦄ ⦃flat : Query⦄,
    (∀ name, s.Draws t name → known name) → (q.flatten check).Yields s (flat, env) t →
    flat.Everywhere (.mentioning known)

/-! ## Environments -/

namespace Query

/-- What a run binds an attribute to mentions the names of its leaves, which are drawn. -/
theorem mentioned_resolve {q flat : Query} (run : (q.flatten check).Yields s (flat, env) t)
    (drawn : ∀ name, s.Draws t name → known name) {name : String} (mentioned : known name) :
    (env.resolve name).Everywhere (.mentioning known) := by
  unfold Environment.resolve
  cases found : env.find? name with
  | none =>
    rw [Option.getD_none, Expr.everywhere_attr]
    exact mentioned
  | some rep =>
    have refers := bindings_drawn run name rep found
    rw [Option.getD_some]
    refine Expr.everywhere_of_leaves (fun _ => trivial) ?_
    rw [refers.leaves]
    exact mentioned_attrs fun leaf member => drawn leaf (refers.drawn leaf member)

/-- A run binds names that the plan mentions. -/
theorem mentioned_names :
    ∀ {q flat : Query} {env : Environment} {s t : PassState} {name : String} {rep : Expr},
    q.Everywhere (.mentioning known) → (q.flatten check).Yields s (flat, env) t →
    env.find? name = some rep →
    known name
  | .empty, _, _, _, _, _, _, _, run, bound => by
    obtain ⟨_, rfl, _⟩ := yields_flatten_empty.1 run
    cases bound
  | .table _ _, _, _, _, _, _, _, _, run, bound => by
    obtain ⟨_, rfl, _⟩ := yields_flatten_table.1 run
    cases bound
  | .galaxy g, _, _, _, _, name, _, plan, run, bound => by
    obtain ⟨_, _, _, _, _, _, _, _, equal, _⟩ := yields_flatten_galaxy.1 run
    cases equal
    rw [everywhere_galaxy] at plan
    rw [NameMap.find?_insert] at bound
    split at bound
    case isTrue same => exact same ▸ plan.1
    case isFalse => cases bound
  | .project columns input, _, _, _, _, name, _, plan, run, bound => by
    obtain ⟨_, _, _, _, _, _, outputs, runColumns, _, rfl⟩ := yields_flatten_project.1 run
    rw [everywhere_project] at plan
    rcases OutputColumn.find?_bound_or_attr bound with declared | ⟨c, member, renamed⟩
    · obtain ⟨o, member, named, _⟩ := OutputColumn.exists_of_find?_bindings declared
      have among : name ∈ columns.map Prod.fst := by
        rw [← names_of_flattenColumns runColumns, ← named]
        exact List.mem_map.2 ⟨o, member, rfl⟩
      obtain ⟨c, member, equal⟩ := List.mem_map.1 among
      exact equal ▸ plan.1 c member
    · have reference := plan.2.1 c member
      rw [renamed, Expr.everywhere_attr] at reference
      exact reference
  | .restrict _ input, _, _, _, _, _, _, plan, run, bound => by
    obtain ⟨_, _, _, _, runInput, _⟩ := yields_flatten_restrict.1 run
    rw [everywhere_restrict] at plan
    exact mentioned_names (q := input) plan.2.2 runInput bound
  | .combine _ left right, _, _, _, _, _, _, plan, run, bound => by
    obtain ⟨_, _, _, _, _, runLeft, runRight, combined⟩ := combined_of_yields run
    rw [everywhere_combine] at plan
    rcases combined.find? bound with onLeft | onRight
    · exact mentioned_names plan.2.1 runLeft onLeft
    · exact mentioned_names plan.2.2 runRight onRight
  | .grouping _ _, _, _, _, _, _, _, _, run, bound => by
    obtain ⟨_, _, _, _, _, _, _, _, _, rfl⟩ := yields_flatten_grouping.1 run
    cases bound
  | .order _ input, _, _, _, _, _, _, plan, run, bound => by
    obtain ⟨_, _, _, _, runInput, _⟩ := yields_flatten_order.1 run
    rw [everywhere_order] at plan
    exact mentioned_names (q := input) plan.2.2 runInput bound
  | .top _ _ input, _, _, _, _, _, _, plan, run, bound => by
    obtain ⟨_, runInput, _⟩ := yields_flatten_top.1 run
    rw [everywhere_top] at plan
    exact mentioned_names (q := input) plan.2 runInput bound

end Query

/-! ## Applications -/

/-- A rule brings in what its templates do, and what stands in the flat arguments and columns. -/
theorem Application.mentioned_of_flatten {rules : Rules} {a : Application} {source : Option Query}
    {parts : List Flattened} {part : Flattened} (confined : a.op.Confined rules own)
    (declared : ∀ name, own name → known name)
    (onArgs : ∀ e ∈ a.args, e.Everywhere (.mentioning known))
    (onColumns : ∀ c ∈ a.columns, c.Everywhere (.mentioning known))
    (flat : a.flatten rules source parts = .ok part) :
    part.expr.Everywhere (.mentioning known) ∧
      ∀ r ∈ part.restrictions, r ∈ parts.flatMap (·.restrictions) ∨
        r.Everywhere (.mentioning known) := by
  have given := Application.mentions_iff.2 ⟨onArgs, onColumns⟩
  refine everywhere_of_flatten (fun _ => trivial) (fun _ _ _ => trivial)
    (fun template member e filled => ?_) onArgs flat
  rw [Expr.everywhere_mentioning]
  intro name mentioned
  rcases confined template member rfl filled name mentioned with plain | part
  · exact declared name plain
  · exact given name part

/-! ## Expressions -/

namespace Confinement

variable {part : Flattened}

/-- What stays confined in any run does so in one within another. -/
theorem within {e : Expr} (ih : e.StaysConfined check own known sources)
    (plan : e.Everywhere (.confined check.rules own sources))
    (scope : ∀ name, known name → (env.resolve name).Everywhere (.mentioning known))
    (drawn : ∀ name, s.Draws t name → known name)
    (run : (e.flatten check env schema).Within s part t) :
    part.Everywhere (.mentioning known) := by
  obtain ⟨_, _, before, run, behind⟩ := run
  exact ih plan scope (fun name draws => drawn name (draws.mono before behind)) run

theorem items {es : List Expr} {parts : List Flattened}
    (ih : ∀ e ∈ es, e.StaysConfined check own known sources)
    (plan : ∀ e ∈ es, e.Everywhere (.confined check.rules own sources))
    (scope : ∀ name, known name → (env.resolve name).Everywhere (.mentioning known))
    (drawn : ∀ name, s.Draws t name → known name)
    (run : (Expr.flattenItems check env schema es).Yields s parts t) :
    ∀ part ∈ parts, part.Everywhere (.mentioning known) := by
  intro part member
  obtain ⟨e, among, run⟩ := exists_of_mem_right (Expr.flattenItems_within run) member
  exact within (ih e among) (plan e among) scope drawn run

/-- A query under fresh names mentions these besides the names of its own flat form. -/
theorem renamed {q underlying flat : Query} {inner : Schema} {envInner : Environment}
    (ih : q.StaysConfined check own known sources)
    (plan : q.Everywhere (.confined check.rules own sources))
    (drawn : ∀ name, s.Draws t name → known name)
    (run : (q.flatten check).Yields s (underlying, envInner) u)
    (infer : underlying.schemaOf check = .ok inner)
    (project : Query.projection (Query.renamings (u.block inner.columns.length) inner.columns)
      underlying = .ok flat)
    (behind : (u.after inner.columns.length).Leads t) :
    flat.Everywhere (.mentioning known) ∧ ∀ name ∈ u.block inner.columns.length, known name := by
  have before := (q.flatten_advances check).leads run
  have new : ∀ name ∈ u.block inner.columns.length, known name :=
    fun name member => drawn name ((PassState.draws_of_mem_block member).mono before behind)
  have nodes :=
    ih plan (fun name draws => drawn name (draws.mono (.refl s) ((u.leads_after _).trans behind)))
      run
  exact ⟨Query.mentioned_renamings nodes infer new (u.length_block _) project, new⟩

theorem apply (op : Operator) (args : List Expr) (declared : ∀ name, own name → known name)
    (registered : ∀ source, sources source → source.Everywhere (.confined check.rules own sources))
    (ihs : ∀ source, op.lookupSource? = some source → source.StaysConfined check own known sources)
    (ih : ∀ e ∈ args, e.StaysConfined check own known sources) :
    (Expr.apply op args).StaysConfined check own known sources := by
  intro plan env schema s t part scope drawn run
  rw [Expr.everywhere_apply] at plan
  obtain ⟨⟨_, confined, lookups⟩, planArgs⟩ := plan
  obtain ⟨parts, u, types, joined, runArgs, join, flat⟩ := Expr.exists_application run
  have behind := Operator.joinSource_leads join
  have each :=
    items ih planArgs scope (fun name draws => drawn name (draws.mono (.refl s) behind)) runArgs
  have lookup : (∀ q ∈ (joined.map Prod.fst).toList, q.Everywhere (.mentioning known)) ∧
      ∀ c ∈ (joined.map Prod.snd).getD [], c.Everywhere (.mentioning known) := by
    rcases Operator.joinSource_cases join with
      ⟨rfl, _⟩ | ⟨source, underlying, _, w, inner, flat, found, runSource, infer,
        project, rfl, last⟩
    · exact ⟨fun _ member => (by cases member), fun _ member => (by cases member)⟩
    · have draws : ∀ name, u.Draws t name → known name :=
        fun name draws => drawn name (draws.mono (Expr.flattenItems_leads runArgs) (.refl t))
      obtain ⟨nodes, new⟩ :=
        renamed (ihs source found) (registered source (lookups source found)) draws runSource
          infer project last
      exact ⟨List.forall_mem_singleton.2 nodes, Query.mentioned_attrs new⟩
  exact Flattened.everywhere_application each lookup.1 flat
    (Application.mentioned_of_flatten confined declared (Flattened.everywhere_exprs each)
      lookup.2 flat)

theorem subquery {query flat : Query} (ih : query.StaysConfined check own known sources)
    (plan : query.Everywhere (.confined check.rules own sources))
    (drawn : ∀ name, s.Draws t name → known name)
    (run : (query.flattenSubquery check (query.flatten check)).Yields s flat t) :
    flat.Everywhere (.mentioning known) := by
  obtain ⟨_, _, env, run, _⟩ := Query.yields_flattenSubquery.1 run
  exact ih plan drawn run

/-! ## Combinations -/

theorem combine (op : CombineOp) (left right : Query) (declared : ∀ name, own name → known name)
    (ihl : left.StaysConfined check own known sources)
    (ihr : right.StaysConfined check own known sources) :
    (Query.combine op left right).StaysConfined check own known sources := by
  intro plan env s t flat drawn run
  rw [Query.everywhere_combine] at plan
  obtain ⟨_, planLeft, planRight⟩ := plan
  obtain ⟨flatLeft, leftEnv, u, flatRight, rightEnv, runLeft, runRight, combined⟩ :=
    Query.combined_of_yields run
  have drawnLeft : ∀ name, s.Draws u name → known name :=
    fun name draws => drawn name
      (draws.mono (.refl s) ((right.flatten_advances check).leads runRight))
  have drawnRight : ∀ name, u.Draws t name → known name :=
    fun name draws => drawn name
      (draws.mono ((left.flatten_advances check).leads runLeft) (.refl t))
  have nodesLeft := ihl planLeft drawnLeft runLeft
  have nodesRight := ihr planRight drawnRight runRight
  have namesLeft := Query.mentioned_outputNames (Query.mentioning_of_and declared planLeft)
  have namesRight := Query.mentioned_outputNames (Query.mentioning_of_and declared planRight)
  -- the right operand is projected to flat names of the left, which are declared or drawn
  have aligned :
      ∀ {pairs : List (String × String)} {aligned : Query} {columns : List (String × Expr)},
      (∀ p ∈ pairs, known p.1 ∧ known p.2) →
        Query.Aligns pairs leftEnv rightEnv flatRight aligned columns →
      aligned.Everywhere (.mentioning known) := by
    intro pairs aligned columns paired alignment
    refine Query.mentioned_projection alignment.project nodesRight (fun c member => ?_)
      fun c member => ?_
    · have among : c.1 ∈ pairs.flatMap fun p => (leftEnv.resolve p.1).leafNames := by
        rw [← alignment.names]
        exact List.mem_map.2 ⟨c, member, rfl⟩
      obtain ⟨p, onPairs, name⟩ := List.mem_flatMap.1 among
      exact Expr.mentioned_leafNames
        (Query.mentioned_resolve runLeft drawnLeft (paired p onPairs).1) name
    · obtain ⟨p, onPairs, source, name, equal⟩ := alignment.sources c member
      rw [equal, Expr.everywhere_attr]
      exact Expr.mentioned_leafNames
        (Query.mentioned_resolve runRight drawnRight (paired p onPairs).2) name
  cases combined with
  | plain | product => exact (Query.everywhere_combine op _ _).2 ⟨trivial, nodesLeft, nodesRight⟩
  | quotient _ alignment _ =>
    refine (Query.everywhere_combine op _ _).2 ⟨trivial, nodesLeft,
      aligned (fun p member => ?_) alignment⟩
    obtain ⟨name, among, rfl⟩ := List.mem_map.1 member
    exact ⟨namesRight name among, namesRight name among⟩
  | setOperation _ _ alignment =>
    refine (Query.everywhere_combine op _ _).2 ⟨trivial, nodesLeft,
      aligned (fun p member => ?_) alignment⟩
    exact ⟨namesLeft p.1 (List.of_mem_zip member).1, namesRight p.2 (List.of_mem_zip member).2⟩

theorem project (columns : List (String × Expr)) (input : Query)
    (declared : ∀ name, own name → known name)
    (ihc : ∀ c ∈ columns, c.2.StaysConfined check own known sources)
    (ih : input.StaysConfined check own known sources) :
    (Query.project columns input).StaysConfined check own known sources := by
  intro plan env s t flat drawn run
  rw [Query.everywhere_project] at plan
  obtain ⟨⟨names, _⟩, planColumns, planInput⟩ := plan
  obtain ⟨flatInput, envInput, u, runInput, inner, _, outputs, runColumns, rfl, _⟩ :=
    Query.yields_flatten_project.1 run
  have before := (input.flatten_advances check).leads runInput
  have behind := Query.flattenColumns_leads runColumns
  have drawnInput : ∀ name, s.Draws u name → known name :=
    fun name draws => drawn name (draws.mono (.refl s) behind)
  have each : ∀ o ∈ outputs, (∀ c ∈ o.columns, known c.1 ∧ c.2.Everywhere (.mentioning known)) ∧
      (∀ q ∈ o.queries, q.Everywhere (.mentioning known)) ∧
      ∀ r ∈ o.restrictions, r.Everywhere (.mentioning known) := by
    intro o member
    obtain ⟨c, among, part, runPart, u', w, first, output, last⟩ :=
      exists_of_mem_right (Query.flattenColumns_within runColumns) member
    have mentioned := within (ihc c among) (planColumns c among)
      (fun name => Query.mentioned_resolve runInput drawnInput)
      (fun name draws => drawn name (draws.mono before (.refl t))) runPart
    have carries := OutputColumn.carries_of_yields output
    rw [carries.queries, carries.restrictions]
    refine ⟨fun d own => ⟨?_, Expr.everywhere_leaves mentioned.expr (carries.mem_leaves own)⟩,
      mentioned.queries, mentioned.restrictions⟩
    rcases carries.carried with ⟨_, _, equal, _⟩ | ⟨_, refs, _, spread⟩
    · rw [equal] at own
      rw [List.mem_singleton.1 own]
      exact declared c.1 (names c among)
    · rw [spread.carried] at own
      refine drawn d.1 ((PassState.draws_of_mem_block (List.of_mem_zip own).1).mono
        (before.trans first) ?_)
      exact spread.after ▸ last
  rw [Query.ofOutputs, Query.everywhere_project]
  refine ⟨fun c member => ?_, fun c member => ?_,
    Query.mentioned_joined (ih planInput drawnInput runInput) (fun q member => ?_)
      fun r member => ?_⟩
  · obtain ⟨o, among, own⟩ := List.mem_flatMap.1 member
    exact ((each o among).1 c own).1
  · obtain ⟨o, among, own⟩ := List.mem_flatMap.1 member
    exact ((each o among).1 c own).2
  · obtain ⟨o, among, own⟩ := List.mem_flatMap.1 member
    exact (each o among).2.1 q own
  · obtain ⟨o, among, own⟩ := List.mem_flatMap.1 member
    exact (each o among).2.2 r own

theorem restrict (predicate : Expr) (input : Query)
    (ihp : predicate.StaysConfined check own known sources)
    (ih : input.StaysConfined check own known sources) :
    (Query.restrict predicate input).StaysConfined check own known sources := by
  intro plan env s t flat drawn run
  rw [Query.everywhere_restrict] at plan
  obtain ⟨_, planPredicate, planInput⟩ := plan
  obtain ⟨flatInput, u, inner, part, runInput, _, runPredicate, restriction⟩ :=
    Query.yields_flatten_restrict.1 run
  have before := (input.flatten_advances check).leads runInput
  have behind := (predicate.flatten_advances check env inner).leads runPredicate
  have drawnInput : ∀ name, s.Draws u name → known name :=
    fun name draws => drawn name (draws.mono (.refl s) behind)
  have nodes := ih planInput drawnInput runInput
  have mentioned := ihp planPredicate (fun name => Query.mentioned_resolve runInput drawnInput)
    (fun name draws => drawn name (draws.mono before (.refl t))) runPredicate
  have tests : ∀ e ∈ part.expr :: part.restrictions, e.Everywhere (.mentioning known) :=
    List.forall_mem_cons.2 ⟨mentioned.expr, mentioned.restrictions⟩
  rcases Query.flattenRestriction_cases restriction with ⟨_, rfl⟩ | ⟨_, visible, infer, rfl⟩
  · exact Query.everywhere_restrictAll (fun _ _ => trivial) tests nodes
  · have names := Query.mentioned_schemaOf nodes infer
    rw [Query.everywhere_project]
    refine ⟨List.forall_mem_map.2 names, List.forall_mem_map.2 fun c member => ?_,
      Query.mentioned_joined nodes mentioned.queries tests⟩
    rw [Expr.everywhere_attr]
    exact names c member

theorem grouping (columns : List (String × Expr)) (input : Query)
    (declared : ∀ name, own name → known name)
    (ihc : ∀ c ∈ columns, c.2.StaysConfined check own known sources)
    (ih : input.StaysConfined check own known sources) :
    (Query.grouping columns input).StaysConfined check own known sources := by
  intro plan env s t flat drawn run
  rw [Query.everywhere_grouping] at plan
  obtain ⟨⟨names, _⟩, planColumns, planInput⟩ := plan
  obtain ⟨flatInput, envInput, u, runInput, inner, _, flats, runGroups, rfl, _⟩ :=
    Query.yields_flatten_grouping.1 run
  have before := (input.flatten_advances check).leads runInput
  have behind := (Query.flattenGroups_advances _ check envInput inner).leads runGroups
  have drawnInput : ∀ name, s.Draws u name → known name :=
    fun name draws => drawn name (draws.mono (.refl s) behind)
  have each : ∀ f ∈ flats, known f.1 ∧ f.2.Everywhere (.mentioning known) := by
    intro f member
    obtain ⟨c, among, part, runPart, _, _, rfl⟩ :=
      exists_of_mem_right (Query.flattenGroups_within runGroups) member
    refine ⟨declared c.1 (names c among), Flattened.Everywhere.expr ?_⟩
    exact within (ihc c among) (planColumns c among)
      (fun name => Query.mentioned_resolve runInput drawnInput)
        (fun name draws => drawn name (draws.mono before (.refl t))) runPart
  rw [Query.everywhere_grouping]
  exact ⟨fun f member => (each f member).1, fun f member => (each f member).2,
    ih planInput drawnInput runInput⟩

theorem order (keys : List (Expr × Direction)) (input : Query)
    (ihk : ∀ k ∈ keys, k.1.StaysConfined check own known sources)
    (ih : input.StaysConfined check own known sources) :
    (Query.order keys input).StaysConfined check own known sources := by
  intro plan env s t flat drawn run
  rw [Query.everywhere_order] at plan
  obtain ⟨_, planKeys, planInput⟩ := plan
  obtain ⟨flatInput, u, inner, flats, runInput, _, runKeys, rfl⟩ := Query.yields_flatten_order.1 run
  have before := (input.flatten_advances check).leads runInput
  have behind := (Query.flattenKeys_advances _ check env inner).leads runKeys
  have drawnInput : ∀ name, s.Draws u name → known name :=
    fun name draws => drawn name (draws.mono (.refl s) behind)
  rw [Query.everywhere_order]
  refine ⟨trivial, fun f member => ?_, ih planInput drawnInput runInput⟩
  obtain ⟨k, among, part, runPart, _, leaf⟩ := Query.flattenKeys_within runKeys f member
  refine Expr.everywhere_leaves (Flattened.Everywhere.expr ?_) leaf
  exact within (ihk k among) (planKeys k among)
    (fun name => Query.mentioned_resolve runInput drawnInput)
      (fun name draws => drawn name (draws.mono before (.refl t))) runPart

theorem case (bs : List (Expr × Expr)) (default : Expr)
    (ihb : ∀ b ∈ bs, b.1.StaysConfined check own known sources ∧
      b.2.StaysConfined check own known sources)
    (ihd : default.StaysConfined check own known sources) :
    (Expr.case bs default).StaysConfined check own known sources := by
  intro plan env schema s t part scope drawn run
  rw [Expr.everywhere_case] at plan
  obtain ⟨_, planBranches, planDefault⟩ := plan
  obtain ⟨parts, u, runBranches, last, e, runDefault, flat, rfl⟩ := Expr.yields_flatten_case.1 run
  have before := Expr.flattenBranches_leads runBranches
  have behind := (default.flatten_advances check env schema).leads runDefault
  have each : ∀ pair ∈ parts, pair.1.Everywhere (.mentioning known) ∧
      pair.2.Everywhere (.mentioning known) := by
    intro pair member
    obtain ⟨b, among, first, _, second⟩ :=
      exists_of_mem_right (Expr.flattenBranches_within runBranches) member
    have draws : ∀ name, s.Draws u name → known name :=
      fun name draws => drawn name (draws.mono (.refl s) behind)
    exact ⟨within (ihb b among).1 (planBranches b among).1 scope draws first,
      within (ihb b among).2 (planBranches b among).2 scope draws second⟩
  have mentioned :=
    ihd planDefault scope (fun name draws => drawn name (draws.mono before (.refl t))) runDefault
  refine Flattened.everywhere_gather (Expr.forall_mem_choice each mentioned) ?_
  exact Expr.everywhere_flattenCase (fun _ => trivial) (fun _ _ => trivial)
    (List.forall_mem_map.2 fun pair member => (each pair member).1.expr)
    (List.forall_mem_map.2 fun pair member => (each pair member).2.expr) mentioned.expr flat

theorem cases (declared : ∀ name, own name → known name)
    (registered : ∀ source, sources source →
      source.Everywhere (.confined check.rules own sources)) :
    Plan.Cases (Expr.StaysConfined check own known sources)
      (Query.StaysConfined check own known sources) where
  attr name plan _ _ _ _ _ scope _ run := by
    obtain ⟨rfl, _⟩ := Expr.yields_flatten_attr.1 run
    rw [Expr.everywhere_attr] at plan
    exact Flattened.everywhere_plain (scope name (declared name plan.1))
  const type value plan _ _ _ _ _ _ _ run := by
    obtain ⟨e, flat, rfl, _⟩ := Expr.yields_flatten_const.1 run
    rw [Expr.everywhere_const] at plan
    refine Flattened.everywhere_plain (Expr.Everywhere.imp ?_ ?_ (plan.2 e flat))
    · exact NodeProperty.mentioning_expr declared
    · exact NodeProperty.mentioning_query declared
  null type _ _ _ _ _ _ _ _ run := by
    obtain ⟨rfl, _⟩ := Expr.yields_flatten_null.1 run
    refine Flattened.everywhere_plain (Expr.everywhere_of_leaves (fun _ => trivial) ?_)
    exact Expr.of_flattenNull fun type => (Expr.everywhere_null type).2 trivial
  apply op args := apply op args declared registered
  tuple es ih plan _ _ _ _ _ scope drawn run := by
    rw [Expr.everywhere_tuple] at plan
    obtain ⟨parts, runItems, rfl⟩ := Expr.yields_flatten_tuple.1 run
    have each := items ih plan.2 scope drawn runItems
    exact Flattened.everywhere_gather each
      ((Expr.everywhere_tuple _).2 ⟨trivial, Flattened.everywhere_exprs each⟩)
  aggregate fn arg ih plan _ _ _ _ _ scope drawn run := by
    rw [Expr.everywhere_aggregate] at plan
    obtain ⟨flatArg, e, runArg, flat, rfl⟩ := Expr.yields_flatten_aggregate.1 run
    have mentioned := ih plan.2 scope drawn runArg
    exact ⟨Expr.everywhere_flattenAggregate (fun _ => trivial) mentioned.expr flat,
      mentioned.queries, mentioned.restrictions⟩
  multiAggregate _ _ _ _ _ _ _ _ _ _ _ run := (Expr.not_yields_flatten_multiAggregate run).elim
  case := case
  scalarSubquery query ih plan _ _ _ _ _ _ drawn run := by
    rw [Expr.everywhere_scalarSubquery] at plan
    obtain ⟨flat, runQuery, rfl⟩ := Expr.yields_flatten_scalarSubquery.1 run
    exact Flattened.everywhere_plain
      ((Expr.everywhere_scalarSubquery flat).2 ⟨trivial, subquery ih plan.2 drawn runQuery⟩)
  setSubquery query ih plan _ _ _ _ _ _ drawn run := by
    rw [Expr.everywhere_setSubquery] at plan
    obtain ⟨flat, runQuery, rfl⟩ := Expr.yields_flatten_setSubquery.1 run
    exact Flattened.everywhere_plain
      ((Expr.everywhere_setSubquery flat).2 ⟨trivial, subquery ih plan.2 drawn runQuery⟩)
  empty _ _ _ _ _ _ run := by
    obtain ⟨rfl, _, _⟩ := Query.yields_flatten_empty.1 run
    rw [Query.everywhere_empty]
    trivial
  table _ _ plan _ _ _ _ _ run := by
    obtain ⟨rfl, _, _⟩ := Query.yields_flatten_table.1 run
    exact Query.mentioning_of_and declared plan
  galaxy g ih plan _ _ _ _ drawn run := by
    rw [Query.everywhere_galaxy] at plan
    obtain ⟨underlying, _, u, inner, flat, runQuery, infer, project, equal, rfl⟩ :=
      Query.yields_flatten_galaxy.1 run
    cases equal
    exact (renamed ih plan.2 drawn runQuery infer project ⟨rfl, Nat.le_refl _⟩).1
  project columns input := project columns input declared
  restrict := restrict
  combine op left right := combine op left right declared
  grouping columns input := grouping columns input declared
  order := order
  top _ _ input ih plan _ _ _ _ drawn run := by
    rw [Query.everywhere_top] at plan
    obtain ⟨flatInput, runInput, rfl⟩ := Query.yields_flatten_top.1 run
    rw [Query.everywhere_top]
    exact ⟨trivial, ih plan.2 drawn runInput⟩

end Confinement

namespace Sample

end Sample

end FlatPlan
