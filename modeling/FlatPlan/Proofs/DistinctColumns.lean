import FlatPlan.Proofs.LosslessPlans
import FlatPlan.Proofs.OutputNames
import FlatPlan.Proofs.SampleVocabulary

/-!
# Different names of columns

Names are looked up as the first column that has them, so the columns of a schema should have
different names. `Query.Built` says which queries the constructors build over relations whose
columns have different names, and all queries that are read from datums are among them
(`Query.built_of_ofDatum`). Main statement: whenever inference finds the schema of such a query, in
either mode, its columns have different names (`Query.columns_distinct`).
-/

namespace FlatPlan

namespace Query

/-- The queries that the constructors build over relations whose columns have different names. -/
inductive Built : Query → Prop
  | empty : Built .empty
  | table (name : String) {schema : Schema} (distinct : schema.names.Nodup) :
      Built (.table name schema)
  | galaxy (g : Galaxy) : Built (.galaxy g)
  | projection {columns : List (String × Expr)} {input q : Query} (below : Built input)
    (accepted : projection columns input = .ok q) : Built q
  | groupingProjection {columns : List (String × Expr)} {input q : Query} (below : Built input)
    (accepted : groupingProjection columns input = .ok q) : Built q
  | restrict (predicate : Expr) {input : Query}
      (below : Built input) : Built (.restrict predicate input)
  | combination (op : CombineOp) {left right : Query} (first : Built left) (second : Built right) :
    Built (combination op left right)
  | order (keys : List (Expr × Direction)) {input : Query}
      (below : Built input) : Built (.order keys input)
  | top (offset count : UInt64) {input : Query}
      (below : Built input) : Built (.top offset count input)

theorem Built.combinationNamed (name : String) {left right q : Query} (first : left.Built)
    (second : right.Built) (accepted : combinationNamed name left right = .ok q) : q.Built := by
  unfold Query.combinationNamed at accepted
  split at accepted
  · cases accepted
    exact .combination _ first second
  · cases accepted

theorem Built.productAll {qs : List Query} (each : ∀ q ∈ qs, q.Built) : (productAll qs).Built :=
  List.foldlRecOn qs _ .empty fun _ before q member => .combination .product before (each q member)

theorem Built.nodup_outputNames {q : Query} (h : q.Built) : q.outputNames.Nodup := by
  induction h with
  | empty => exact .nil
  | table _ distinct => exact distinct
  | galaxy g => exact List.nodup_singleton g.name
  | projection _ accepted =>
    obtain ⟨distinct, rfl⟩ := projection_eq_ok.1 accepted
    exact distinct
  | groupingProjection _ accepted =>
    obtain ⟨distinct, rfl⟩ := groupingProjection_eq_ok.1 accepted
    exact distinct
  | restrict _ _ ih => exact ih
  | combination op _ _ first second =>
    -- the empty query is left out of a product
    unfold Query.combination
    split
    · exact second
    · exact first
    · exact nodup_combine first _
  | order _ _ ih => exact ih
  | top _ _ _ ih => exact ih

end Query

/-- Whether the columns of each relation of a universe have different names. -/
def Universe.DistinctRelations (u : Universe) : Prop :=
  u.relations.Every fun _ q => ∃ name schema, q.relation? = some (name, schema) ∧ schema.names.Nodup

namespace Query

/-- Reading a datum uses the constructors. -/
theorem built_of_ofDatum {u : Universe} (relations : u.DistinctRelations) {d : Datum} {q : Query}
    (h : ofDatum u d = .ok q) : q.Built := by
  induction d using Datum.smallerInduction generalizing q with
  | step d ih =>
    cases ofDatum_eq_ok.1 h with
    | empty => exact .empty
    | relation found =>
      -- a registered relation is a table or a galaxy
      obtain ⟨name, schema, relation, distinct⟩ := relations found
      cases q with
      | table own columns =>
        cases relation
        exact .table name distinct
      | galaxy g => exact .galaxy g
      | _ => cases relation
    | project distinct _ below =>
      exact .projection (ih _ (Datum.sizeOf_lt_tagged (by simp)) below)
        (projection_eq_ok.2 ⟨distinct, rfl⟩)
    | grouping distinct _ below =>
      exact .groupingProjection (ih _ (Datum.sizeOf_lt_tagged (by simp)) below)
        (groupingProjection_eq_ok.2 ⟨distinct, rfl⟩)
    | restrict _ below => exact .restrict _ (ih _ (Datum.sizeOf_lt_tagged (by simp)) below)
    | combine op first second =>
      exact .combination op (ih _ (Datum.sizeOf_lt_tagged (by simp)) first)
        (ih _ (Datum.sizeOf_lt_tagged (by simp)) second)
    | order _ below => exact .order _ (ih _ (Datum.sizeOf_lt_tagged (by simp)) below)
    | top offset count below =>
      exact .top offset count (ih _ (Datum.sizeOf_lt_tagged (by simp)) below)

/-- Whatever the constructors build, or a datum stands for, over relations whose columns have
different names: if inference or checking finds its columns, they have different names. -/
theorem columns_distinct (capabilities : Capabilities) {q : Query} {schema : Schema}
    (origin : q.Built ∨ ∃ u d, u.DistinctRelations ∧ ofDatum u d = .ok q)
    (typed : q.inferSchema capabilities = .ok schema ∨ q.checkSchema capabilities = .ok schema) :
    schema.names.Nodup := by
  have built : q.Built := by
    rcases origin with built | ⟨u, d, relations, read⟩
    · exact built
    · exact built_of_ofDatum relations read
  have names : schema.names = q.outputNames := by
    rcases typed with inferred | checked
    · exact names_of_schemaOf inferred
    · exact names_of_schemaOf checked
  exact names ▸ built.nodup_outputNames

end Query

namespace Sample

theorem people_distinctRelations : people.DistinctRelations := by
  refine NameMap.every_empty.insertAll ?_
  simp only [List.forall_mem_cons, List.not_mem_nil, false_implies, implies_true, and_true]
  exact ⟨⟨"T", ⟨[("a", .integer), ("b", .string)]⟩, rfl, by decide⟩,
    ⟨"U", ⟨[("first", .string), ("last", .string)]⟩, rfl, by decide⟩,
    ⟨"N", ⟨[("name", .string), ("nick", .string)]⟩, rfl, by decide⟩⟩

/-- The rows of a table beside themselves and all people, without the columns that a projection of
the table has. -/
def overlappingRows : Query :=
  .combine .quotient (.combine .product (.combine .product tableT tableT) (.galaxy galaxyP))
    (.project [("b", .attr "b"), ("c", .attr "a")] tableT)

theorem overlappingRows_built : overlappingRows.Built := by
  have table : tableT.Built := .table "T" (by decide)
  have factors : ∀ q ∈ [tableT, .empty, tableT, .galaxy galaxyP], q.Built := by
    simp only [List.forall_mem_cons, List.not_mem_nil, false_implies, implies_true, and_true]
    exact ⟨table, .empty, table, .galaxy galaxyP⟩
  have projected : (Query.project [("b", .attr "b"), ("c", .attr "a")] tableT).Built :=
    .projection table (Query.projection_eq_ok.2 ⟨by decide, rfl⟩)
  exact .combinationNamed "quotient" (.productAll factors) projected rfl

/-- Columns of one name that meet in a product or a quotient leave no name twice, whether the plan
is built or read. -/
theorem overlappingRows_distinct :
    overlappingRows.Built ∧
    overlappingRows.inferSchema .empty = .ok ⟨[("a", .integer), ("p", personType)]⟩ ∧
    (Schema.mk [("a", .integer), ("p", personType)]).names.Nodup ∧
    ∃ q, Query.ofDatum people (.tagged "product" [.tagged "base-relation" [.string "T"],
        .tagged "base-relation" [.string "T"]]) = .ok q ∧
      q.inferSchema .empty = .ok ⟨[("a", .integer), ("b", .string)]⟩ ∧
      (Schema.mk [("a", .integer), ("b", .string)]).names.Nodup := by
  have found : Query.ofDatum people (.tagged "base-relation" [.string "T"]) = .ok tableT :=
    (Query.Form.relation rfl).ofDatum
  have read := (Query.Form.combine .product found found).ofDatum
  exact ⟨overlappingRows_built, rfl,
    Query.columns_distinct .empty (.inl overlappingRows_built) (.inl rfl), _, read, rfl,
    Query.columns_distinct .empty (.inr ⟨people, _, people_distinctRelations, read⟩) (.inl rfl)⟩

end Sample

end FlatPlan
