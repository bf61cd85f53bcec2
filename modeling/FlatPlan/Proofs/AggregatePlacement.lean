import FlatPlan.Proofs.Representation
import FlatPlan.Proofs.SampleVocabulary

/-!
# Where a checked query aggregates

`Query.aggregations` lists the aggregations of a query and of all queries inside it, each with the
clause in which it stands. In a query that passes the check none stands in a column of a plain
projection, however deep it is buried in the column, and if no predicate and no ordering key
aggregates, all stand in columns of groupings (`Query.aggregations_grouped`). Predicates and
ordering keys are typed without that check, so there an aggregation is let through
(`Sample.aggregating_tests_accepted`).
-/

namespace FlatPlan

/-- The parts of a query that expressions stand in. -/
inductive Clause where
  /-- A column of a projection. -/
  | projection
  /-- A column of a grouping projection. -/
  | grouping
  /-- The predicate of a restriction. -/
  | restriction
  /-- A key of an ordering. -/
  | ordering
  deriving DecidableEq, Repr

mutual

/-- The aggregations in an expression of a clause. Those of a subquery stand in clauses of the
subquery. -/
def Expr.aggregations (clause : Clause) : Expr → List (Clause × Expr)
  | .attr _ | .const _ _ | .null _ => []
  | .apply _ args => Expr.itemAggregations clause args
  | .tuple items => Expr.itemAggregations clause items
  | .aggregate fn arg => (clause, .aggregate fn arg) :: arg.aggregations clause
  | .multiAggregate fn args =>
    (clause, .multiAggregate fn args) :: Expr.itemAggregations clause args
  | .case branches default => Expr.branchAggregations clause branches ++ default.aggregations clause
  | .scalarSubquery query => query.aggregations
  | .setSubquery query => query.aggregations

/-- The aggregations in expressions of a clause. -/
def Expr.itemAggregations (clause : Clause) : List Expr → List (Clause × Expr)
  | [] => []
  | e :: es => e.aggregations clause ++ Expr.itemAggregations clause es

/-- The aggregations in the branches of a choice. -/
def Expr.branchAggregations (clause : Clause) : List (Expr × Expr) → List (Clause × Expr)
  | [] => []
  | (condition, result) :: branches =>
    condition.aggregations clause ++ result.aggregations clause ++ Expr.branchAggregations
      clause branches

/-- The aggregations in a query and the queries inside it. A galaxy stands for its relation. -/
def Query.aggregations : Query → List (Clause × Expr)
  | .empty | .table _ _ | .galaxy _ => []
  | .project columns input => Query.columnAggregations .projection columns ++ input.aggregations
  | .restrict predicate input => predicate.aggregations .restriction ++ input.aggregations
  | .combine _ left right => left.aggregations ++ right.aggregations
  | .grouping columns input => Query.columnAggregations .grouping columns ++ input.aggregations
  | .order keys input => Query.keyAggregations keys ++ input.aggregations
  | .top _ _ input => input.aggregations

/-- The aggregations in the columns of a projection of either kind. -/
def Query.columnAggregations (clause : Clause) : List (String × Expr) → List (Clause × Expr)
  | [] => []
  | (_, e) :: columns => e.aggregations clause ++ Query.columnAggregations clause columns

/-- The aggregations in ordering keys. -/
def Query.keyAggregations : List (Expr × Direction) → List (Clause × Expr)
  | [] => []
  | (e, _) :: keys => e.aggregations .ordering ++ Query.keyAggregations keys

end

variable {clause : Clause} {a : Clause × Expr}

namespace Expr

theorem mem_itemAggregations {es : List Expr} :
    a ∈ itemAggregations clause es ↔ ∃ e ∈ es, a ∈ e.aggregations clause := by
  induction es with
  | nil => simp [itemAggregations]
  | cons e es ih => simp [itemAggregations, ih]

theorem mem_branchAggregations {branches : List (Expr × Expr)} :
    a ∈ branchAggregations clause branches ↔
      ∃ b ∈ branches, a ∈ b.1.aggregations clause ∨ a ∈ b.2.aggregations clause := by
  induction branches with
  | nil => simp [branchAggregations]
  | cons b branches ih =>
    obtain ⟨condition, result⟩ := b
    simp [branchAggregations, ih, or_assoc]

end Expr

namespace Query

theorem mem_columnAggregations {columns : List (String × Expr)} :
    a ∈ columnAggregations clause columns ↔ ∃ c ∈ columns, a ∈ c.2.aggregations clause := by
  induction columns with
  | nil => simp [columnAggregations]
  | cons c columns ih => simp [columnAggregations, ih]

theorem mem_keyAggregations {keys : List (Expr × Direction)} :
    a ∈ keyAggregations keys ↔ ∃ k ∈ keys, a ∈ k.1.aggregations .ordering := by
  induction keys with
  | nil => simp [keyAggregations]
  | cons k keys ih => simp [keyAggregations, ih]

end Query

/-! ## Checked plans -/

namespace AggregatePlacement

variable {capabilities : Capabilities} {schema : Schema}

/-- An accepted expression brings no aggregation into a projection, unless it stands in one and
aggregates itself. -/
def ExprPlaced (capabilities : Capabilities) (e : Expr) : Prop :=
  ∀ {schema : Schema} {type : Ty} {clause : Clause}, e.typeOf ⟨true, capabilities⟩ schema =
    .ok type →
    (clause = .projection → e.aggregateCount = 0) → ∀ a ∈ e.aggregations clause, a.1 ≠ .projection

/-- In an accepted query no aggregation stands in a projection. -/
def QueryPlaced (capabilities : Capabilities) (q : Query) : Prop :=
  ∀ {schema : Schema}, q.checkSchema capabilities = .ok schema →
    ∀ a ∈ q.aggregations, a.1 ≠ .projection

theorem items {es : List Expr} {types : List Ty} (ih : ∀ e ∈ es, ExprPlaced capabilities e)
    (typed : Expr.typesOf ⟨true, capabilities⟩ schema es = .ok types)
    (free : clause = .projection → Expr.itemAggregateCount es = 0) :
    ∀ a ∈ Expr.itemAggregations clause es, a.1 ≠ .projection := by
  intro a member
  obtain ⟨e, among, own⟩ := Expr.mem_itemAggregations.1 member
  obtain ⟨type, _, typed⟩ := exists_of_mem_right (Expr.typesOf_eq_ok.1 typed).flip among
  exact ih e among typed (fun here => Expr.itemAggregateCount_eq_zero.1 (free here) e among) a own

theorem branches {bs : List (Expr × Expr)} {types : List (Ty × Ty)}
    (ih : ∀ b ∈ bs, ExprPlaced capabilities b.1 ∧ ExprPlaced capabilities b.2)
    (typed : Expr.branchTypesOf ⟨true, capabilities⟩ schema bs = .ok types)
    (free : clause = .projection → Expr.branchAggregateCount bs = 0) :
    ∀ a ∈ Expr.branchAggregations clause bs, a.1 ≠ .projection := by
  intro a member
  obtain ⟨b, among, own⟩ := Expr.mem_branchAggregations.1 member
  obtain ⟨type, _, condition, result⟩ :=
    exists_of_mem_right (Expr.branchTypesOf_eq_ok.1 typed).flip among
  have none := fun here => Expr.branchAggregateCount_eq_zero.1 (free here) b among
  rcases own with own | own
  · exact (ih b among).1 condition (fun here => (none here).1) a own
  · exact (ih b among).2 result (fun here => (none here).2) a own

/-- A column of a plain projection aggregates nothing itself, and that of a grouping may. -/
theorem columns {grouping : Bool} {cs : List (String × Expr)} {outputs : List Column}
    (ih : ∀ c ∈ cs, ExprPlaced capabilities c.2)
    (typed : Query.columnsOf ⟨true, capabilities⟩ schema grouping cs = .ok outputs)
    (here : clause = .projection → grouping = false) :
    ∀ a ∈ Query.columnAggregations clause cs, a.1 ≠ .projection := by
  intro a member
  obtain ⟨c, among, own⟩ := Query.mem_columnAggregations.1 member
  obtain ⟨output, _, column⟩ := exists_of_mem_right (Query.columnsOf_eq_ok.1 typed).flip among
  refine ih c among column.typed (fun projected => ?_) a own
  have placed := column.placed
  rw [here projected] at placed
  simpa [Expr.hasAggregate] using placed

theorem keys {ks : List (Expr × Direction)} (ih : ∀ k ∈ ks, ExprPlaced capabilities k.1)
    (typed : Query.checkKeys ⟨true, capabilities⟩ schema ks = .ok ()) :
    ∀ a ∈ Query.keyAggregations ks, a.1 ≠ .projection := by
  intro a member
  obtain ⟨k, among, own⟩ := Query.mem_keyAggregations.1 member
  obtain ⟨type, typed, _⟩ := Query.checkKeys_eq_ok.1 typed k among
  exact ih k among typed Clause.noConfusion a own

theorem cases (capabilities : Capabilities) :
    Plan.Cases (ExprPlaced capabilities) (QueryPlaced capabilities) where
  attr name := by
    intro _ _ _ _ _ a member
    cases member
  const type value := by
    intro _ _ _ _ _ a member
    cases member
  null type := by
    intro _ _ _ _ _ a member
    cases member
  apply op args _ ih := by
    intro schema type clause typed free
    obtain ⟨types, typed, _⟩ := Expr.typeOf_apply.1 typed
    exact items ih typed free
  tuple parts ih := by
    intro schema type clause typed free
    obtain ⟨types, typed, _⟩ := Expr.typeOf_tuple.1 typed
    exact items ih typed free
  aggregate fn arg ih := by
    intro schema type clause typed free
    obtain ⟨argType, typed, _⟩ := Expr.typeOf_aggregate.1 typed
    have other : clause ≠ .projection := fun here => absurd (free here) (Nat.succ_ne_zero _)
    exact List.forall_mem_cons.2 ⟨other, ih typed fun here => absurd here other⟩
  multiAggregate fn args ih := by
    intro schema type clause typed free
    obtain ⟨types, typed, _⟩ := Expr.typeOf_multiAggregate.1 typed
    have other : clause ≠ .projection := fun here => absurd (free here) (Nat.succ_ne_zero _)
    exact List.forall_mem_cons.2 ⟨other, items ih typed fun here => absurd here other⟩
  case bs default ihb ihd := by
    intro schema type clause typed free
    obtain ⟨types, typedBranches, defaultType, typedDefault, _⟩ := Expr.typeOf_case.1 typed
    refine List.forall_mem_append.2 ⟨branches ihb typedBranches fun here => ?_, ihd typedDefault
      fun here => ?_⟩
    · exact (Nat.add_eq_zero_iff.1 (free here)).1
    · exact (Nat.add_eq_zero_iff.1 (free here)).2
  scalarSubquery query ih := by
    intro schema type clause typed _
    obtain ⟨inner, accepted, _⟩ := Expr.typeOf_scalarSubquery.1 typed
    exact ih accepted
  setSubquery query ih := by
    intro schema type clause typed _
    obtain ⟨inner, accepted, _⟩ := Expr.typeOf_setSubquery.1 typed
    exact ih accepted
  empty := by
    intro _ _ a member
    cases member
  table name own := by
    intro _ _ a member
    cases member
  galaxy g _ := by
    intro _ _ a member
    cases member
  project cs input ihc ihq := by
    intro schema accepted
    obtain ⟨inner, input, typed⟩ := Query.schemaOf_project.1 accepted
    exact List.forall_mem_append.2 ⟨columns ihc typed fun _ => rfl, ihq input⟩
  restrict predicate input ihe ihq := by
    intro schema accepted
    obtain ⟨input, type, typed, _⟩ := Query.schemaOf_restrict.1 accepted
    exact List.forall_mem_append.2 ⟨ihe typed Clause.noConfusion, ihq input⟩
  combine op left right ihl ihr := by
    intro schema accepted
    obtain ⟨leftSchema, left, rightSchema, right, _⟩ := Query.schemaOf_combine.1 accepted
    exact List.forall_mem_append.2 ⟨ihl left, ihr right⟩
  grouping cs input ihc ihq := by
    intro schema accepted
    obtain ⟨inner, input, typed⟩ := Query.schemaOf_grouping.1 accepted
    exact List.forall_mem_append.2 ⟨columns ihc typed Clause.noConfusion, ihq input⟩
  order ks input ihk ihq := by
    intro schema accepted
    obtain ⟨input, typed⟩ := Query.schemaOf_order.1 accepted
    exact List.forall_mem_append.2 ⟨keys ihk typed, ihq input⟩
  top offset count input ih := by
    intro schema accepted
    exact ih (Query.schemaOf_top.1 accepted)

end AggregatePlacement

/-- A checked query aggregates in no plain projection. If its predicates and ordering keys do not
aggregate, it aggregates in groupings only. -/
theorem Query.aggregations_grouped {capabilities : Capabilities} {q : Query} {schema : Schema}
    (accepted : q.checkSchema capabilities = .ok schema) :
    (∀ a ∈ q.aggregations, a.1 ≠ .projection) ∧
      ((∀ a ∈ q.aggregations, a.1 ≠ .restriction ∧ a.1 ≠ .ordering) →
        ∀ a ∈ q.aggregations, a.1 = .grouping) := by
  have unprojected := (AggregatePlacement.cases capabilities).query q accepted
  refine ⟨unprojected, fun tests a member => ?_⟩
  cases clause : a.1 with
  | grouping => rfl
  | projection => exact absurd clause (unprojected a member)
  | restriction => exact absurd clause (tests a member).1
  | ordering => exact absurd clause (tests a member).2

namespace Sample

/-- The roster counts people in a subquery of a column, under a grouping of its own. -/
theorem roster_aggregates_grouped :
    roster.checkSchema .empty = .ok rosterSchema ∧
    roster.aggregations = [(.grouping, .aggregate .count (.attr "p"))] ∧
    (∀ a ∈ roster.aggregations, a.1 ≠ .projection) ∧
    ∀ a ∈ roster.aggregations, a.1 = .grouping := by
  have listed : roster.aggregations = [(.grouping, .aggregate .count (.attr "p"))] := rfl
  have grouped := Query.aggregations_grouped roster_accepted
  refine ⟨roster_accepted, listed, grouped.1, grouped.2 ?_⟩
  rw [listed, List.forall_mem_singleton]
  exact ⟨Clause.noConfusion, Clause.noConfusion⟩

/-- The count of a column. -/
def counted : Expr := .aggregate .count (.attr "a")

/-- A predicate and an ordering key that aggregate pass the check, and the same expression as a
column does not. -/
theorem aggregating_tests_accepted :
    ((Query.restrict (.apply (.comparison "=") [counted, .const .integer (.integer 1)])
      tableT).checkSchema .empty =
        .ok ⟨[("a", .integer), ("b", .string)]⟩ ∧
      (Query.restrict (.apply (.comparison "=") [counted, .const .integer (.integer 1)])
        tableT).aggregations = [(.restriction, counted)]) ∧
    ((Query.order [(counted, .asc)] tableT).checkSchema .empty =
      .ok ⟨[("a", .integer), ("b", .string)]⟩ ∧
      (Query.order [(counted, .asc)] tableT).aggregations = [(.ordering, counted)]) ∧
    (Query.project [("n", counted)] tableT).checkSchema .empty = .error (.misplacedAggregate "n") :=
  ⟨⟨rfl, rfl⟩, ⟨rfl, rfl⟩, rfl⟩

end Sample

end FlatPlan
