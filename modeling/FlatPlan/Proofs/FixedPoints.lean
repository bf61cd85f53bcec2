import FlatPlan.Proofs.Applications
import FlatPlan.Proofs.SampleVocabulary

/-!
# Plans that flattening leaves alone

A plan in which nothing is structured comes out of the pass as it went in: the same query, an
environment that binds nothing, and no name drawn (`Query.flatten_settled`). What has to be absent
is said node by node (`NodeProperty.settled`); besides, the plan has to have a schema, since the
pass infers the schema of every input again.
-/

namespace FlatPlan

open Pass

/-- Nodes that flattening keeps: no galaxies, tuples, structured constants and aggregations of
several arguments, and only operators that make nothing else of scalars. -/
def NodeProperty.settled : NodeProperty where
  expr
    | .tuple _ => False
    | .multiAggregate _ _ => False
    | .const type _ => type.isStructured = false
    | .null type => type.isStructured = false
    | .apply op _ => op.hasTemplate = false
    | _ => True
  query
    | .galaxy _ => False
    | _ => True

variable {check : Regime} {schema : Schema} {s : PassState}

/-- The pass keeps the expression, over rows without structured attributes. -/
def Expr.Kept (check : Regime) (e : Expr) : Prop :=
  e.Everywhere .settled → ∀ {schema : Schema} {type : Ty} (s : PassState),
    e.typeOf check schema = .ok type → (e.flatten check .empty schema).Yields s (.plain e) s

/-- The pass keeps the query and binds nothing. -/
def Query.Kept (check : Regime) (q : Query) : Prop :=
  q.Everywhere .settled → ∀ {schema : Schema} (s : PassState),
    q.schemaOf check = .ok schema → (q.flatten check).Yields s (q, .empty) s

/-! ## Expressions -/

theorem Expr.isTuple_of_settled {e : Expr} (h : e.Everywhere .settled) : e.isTuple = false := by
  cases e with
  | tuple items => exact ((everywhere_tuple items).1 h).1.elim
  | _ => rfl

/-- Expressions without joins are gathered to one without joins. -/
theorem Flattened.gather_plain (es : List Expr) (e : Expr) : gather (es.map plain) e = plain e := by
  simp [gather, plain]

theorem Flattened.map_expr_plain (es : List Expr) : (es.map plain).map (·.expr) = es := by
  rw [List.map_map]
  exact List.map_id es

theorem Expr.firstLeaf?_of_noTuple {e : Expr} (noTuple : e.isTuple = false) :
    e.firstLeaf? = some e := by
  cases e with
  | tuple items => cases noTuple
  | _ => simp only [firstLeaf?]

/-- An operator without template keeps an application to scalars. -/
theorem Application.flatten_of_noTuple {rules : Rules} {a : Application} {source : Option Query}
    {parts : List Flattened} (noTemplate : a.op.hasTemplate = false)
    (scalars : ∀ e ∈ a.args, e.isTuple = false) :
    a.flatten rules source parts = .ok (.gather parts (.apply a.op a.args)) := by
  unfold Operator.hasTemplate at noTemplate
  unfold flatten
  split
  case h_1 => rfl
  case h_2 joiner form =>
    split
    case h_1 left right args =>
      rw [args] at scalars ⊢
      simp only [List.forall_mem_cons] at scalars
      rw [Operator.compare_of_noTuple scalars.1 scalars.2.1]
      rfl
    case h_2 => rfl
  all_goals simp_all

namespace FixedPoints

theorem items {es : List Expr} {types : List Ty} (ih : ∀ e ∈ es, e.Kept check)
    (settled : ∀ e ∈ es, e.Everywhere .settled) (s : PassState)
    (typed : Expr.typesOf check schema es = .ok types) :
    (Expr.flattenItems check .empty schema es).Yields s (es.map .plain) s := by
  rw [Expr.typesOf_eq_ok] at typed
  induction typed with
  | nil => exact Expr.yields_flattenItems_nil.2 ⟨rfl, rfl⟩
  | cons first rest ih' =>
    rw [List.forall_mem_cons] at ih settled
    exact Expr.yields_flattenItems_cons.2 ⟨_, s, ih.1 settled.1 s first, _, ih' ih.2 settled.2, rfl⟩

theorem branches {bs : List (Expr × Expr)} {types : List (Ty × Ty)}
    (ih : ∀ b ∈ bs, b.1.Kept check ∧ b.2.Kept check)
    (settled : ∀ b ∈ bs, b.1.Everywhere .settled ∧ b.2.Everywhere .settled) (s : PassState)
    (typed : Expr.branchTypesOf check schema bs = .ok types) :
    (Expr.flattenBranches check .empty schema bs).Yields s
      (bs.map fun b => (.plain b.1, .plain b.2)) s := by
  rw [Expr.branchTypesOf_eq_ok] at typed
  induction typed with
  | nil => exact Expr.yields_flattenBranches_nil.2 ⟨rfl, rfl⟩
  | cons first rest ih' =>
    rw [List.forall_mem_cons] at ih settled
    exact Expr.yields_flattenBranches_cons.2 ⟨_, s, ih.1.1 settled.1.1 s first.1,
      Expr.isTuple_of_settled settled.1.1, _, s, ih.1.2 settled.1.2 s first.2, _,
      ih' ih.2 settled.2, rfl⟩

theorem apply {op : Operator} {args : List Expr} (ih : ∀ e ∈ args, e.Kept check) :
    (Expr.apply op args).Kept check := by
  intro settled schema type s typed
  rw [Expr.everywhere_apply] at settled
  obtain ⟨noTemplate, settledArgs⟩ := settled
  obtain ⟨types, typedArgs, _⟩ := Expr.typeOf_apply.1 typed
  have noLookup : op.lookupSource? = none := by
    simp only [NodeProperty.settled, Operator.hasTemplate] at noTemplate
    unfold Operator.lookupSource?
    split at noTemplate <;> simp_all
  refine (Expr.yields_flatten_apply noLookup).2 ⟨_, items ih settledArgs s typedArgs, ?_⟩
  rw [Flattened.map_expr_plain, ← Flattened.gather_plain args]
  cases rule : op.hasRule with
  | false => exact .inl ⟨rfl, rfl⟩
  | true =>
    refine .inr ⟨rfl, types, typedArgs, Application.flatten_of_noTuple noTemplate ?_⟩
    exact fun e member => Expr.isTuple_of_settled (settledArgs e member)

theorem aggregate {fn : Aggregate} {arg : Expr} (ih : arg.Kept check) :
    (Expr.aggregate fn arg).Kept check := by
  intro settled schema type s typed
  rw [Expr.everywhere_aggregate] at settled
  obtain ⟨argType, typedArg, _⟩ := Expr.typeOf_aggregate.1 typed
  have noTuple := Expr.isTuple_of_settled settled.2
  refine Expr.yields_flatten_aggregate.2 ⟨_, .aggregate fn arg, ih settled.2 s typedArg, ?_, rfl⟩
  unfold Expr.flattenAggregate
  simp only [Flattened.plain, Expr.firstLeaf?_of_noTuple noTuple, noTuple, Bool.false_eq_true,
    if_false, ite_self]

theorem case {bs : List (Expr × Expr)} {default : Expr}
    (ihb : ∀ b ∈ bs, b.1.Kept check ∧ b.2.Kept check) (ihd : default.Kept check) :
    (Expr.case bs default).Kept check := by
  intro settled schema type s typed
  rw [Expr.everywhere_case] at settled
  obtain ⟨_, settledBranches, settledDefault⟩ := settled
  obtain ⟨types, typedBranches, defaultType, typedDefault, _⟩ := Expr.typeOf_case.1 typed
  have noTuple := Expr.isTuple_of_settled settledDefault
  have sameShape : ((bs.map (·.2)).all fun r => r.shape == default.shape) = true := by
    rw [List.all_map, List.all_eq_true]
    intro b member
    have scalar := Expr.isTuple_of_settled (settledBranches b member).2
    simp [Expr.shape_of_noTuple scalar, Expr.shape_of_noTuple noTuple]
  refine Expr.yields_flatten_case.2 ⟨_, s, branches ihb settledBranches s typedBranches, _,
    .case bs default, ihd settledDefault s typedDefault, ?_, ?_⟩
  · simp only [Expr.flattenCase, List.map_map, Function.comp_def, Flattened.plain, sameShape,
      if_true, Expr.distribute_of_noTuple noTuple, List.zip_map', List.map_id']
  · rw [List.flatMap_map, ← Flattened.gather_plain (bs.flatMap (fun b => [b.1, b.2]) ++ [default])]
    simp only [List.map_append, List.map_flatMap, List.map_cons, List.map_nil]

theorem subquery {query : Query} {schema : Schema} (ih : query.Kept check)
    (settled : query.Everywhere .settled) (s : PassState)
    (infer : query.schemaOf check = .ok schema) :
    (query.flattenSubquery check (query.flatten check)).Yields s query s := by
  refine Query.yields_flattenSubquery.2 ⟨schema, infer, .empty, ih settled s infer, ?_⟩
  rw [List.any_eq_false]
  intro c _
  rw [NameMap.find?_empty]
  simp

/-! ## Queries -/

/-- A scalar column stays one column, under its own name. -/
theorem columns {cs : List (String × Expr)} {grouping : Bool} {columns : List Column}
    (ih : ∀ c ∈ cs, c.2.Kept check) (settled : ∀ c ∈ cs, c.2.Everywhere .settled) (s : PassState)
    (typed : Query.columnsOf check schema grouping cs = .ok columns) :
    (Query.flattenColumns check .empty schema cs).Yields s
      (cs.map fun c => ⟨c.1, [c], none, [], []⟩) s := by
  rw [Query.columnsOf_eq_ok] at typed
  induction typed with
  | nil => exact Query.yields_flattenColumns_nil.2 ⟨rfl, rfl⟩
  | cons first rest ih' =>
    rw [List.forall_mem_cons] at ih settled
    refine Query.yields_flattenColumns_cons.2 ⟨_, s, ih.1 settled.1 s first.typed, _, s, ?_, _,
      ih' ih.2 settled.2, rfl⟩
    rw [OutputColumn.ofFlattened, Flattened.plain, if_neg (by
      simp [Expr.isTuple_of_settled settled.1]),
      yields_pure]
    exact ⟨rfl, rfl⟩

theorem groups {cs : List (String × Expr)} {grouping : Bool} {columns : List Column}
    (ih : ∀ c ∈ cs, c.2.Kept check) (settled : ∀ c ∈ cs, c.2.Everywhere .settled) (s : PassState)
    (typed : Query.columnsOf check schema grouping cs = .ok columns) :
    (Query.flattenGroups check .empty schema cs).Yields s cs s := by
  rw [Query.columnsOf_eq_ok] at typed
  induction typed with
  | nil => exact Query.yields_flattenGroups_nil.2 ⟨rfl, rfl⟩
  | cons first rest ih' =>
    rw [List.forall_mem_cons] at ih settled
    exact Query.yields_flattenGroups_cons.2 ⟨_, s, ih.1 settled.1 s first.typed,
      ⟨Expr.isTuple_of_settled settled.1, rfl⟩, _, ih' ih.2 settled.2, rfl⟩

theorem keys {ks : List (Expr × Direction)} (ih : ∀ k ∈ ks, k.1.Kept check)
    (settled : ∀ k ∈ ks, k.1.Everywhere .settled) (s : PassState)
    (typed : Query.checkKeys check schema ks = .ok ()) :
    (Query.flattenKeys check .empty schema ks).Yields s ks s := by
  rw [Query.checkKeys_eq_ok] at typed
  induction ks with
  | nil => exact Query.yields_flattenKeys_nil.2 ⟨rfl, rfl⟩
  | cons k ks ih' =>
    rw [List.forall_mem_cons] at ih settled typed
    obtain ⟨type, typedFirst, _⟩ := typed.1
    refine Query.yields_flattenKeys_cons.2 ⟨_, s, ih.1 settled.1 s typedFirst, rfl, _,
      ih' ih.2 settled.2 typed.2, ?_⟩
    rw [Flattened.plain, Expr.leaves_of_noTuple (Expr.isTuple_of_settled settled.1)]
    rfl

/-- Without bindings in the input there are none to keep under old names. -/
theorem withAliases_empty (cs : List (String × Expr)) (bound : Environment) :
    OutputColumn.withAliases cs .empty bound = bound := by
  unfold OutputColumn.withAliases
  refine List.foldlRecOn (motive := (· = bound)) cs _ rfl ?_
  rintro _ rfl ⟨name, e⟩ _
  dsimp only
  split
  · simp [NameMap.contains, NameMap.find?_empty]
  · rfl

theorem project {cs : List (String × Expr)} {input : Query} (ihc : ∀ c ∈ cs, c.2.Kept check)
    (ih : input.Kept check) : (Query.project cs input).Kept check := by
  intro settled schema s typed
  rw [Query.everywhere_project] at settled
  obtain ⟨_, settledColumns, settledInput⟩ := settled
  obtain ⟨inner, infer, typedColumns⟩ := Query.schemaOf_project.1 typed
  refine Query.yields_flatten_project.2 ⟨input, .empty, s, ih settledInput s infer, inner, infer, _,
    columns ihc settledColumns s typedColumns, ?_, ?_⟩
  · have noRestrictions : (cs.flatMap fun _ => ([] : List Expr)) = [] :=
      List.flatMap_eq_nil_iff.2 fun _ _ => rfl
    have noQueries : (cs.flatMap fun _ => ([] : List Query)) = [] :=
      List.flatMap_eq_nil_iff.2 fun _ _ => rfl
    simp only [Query.ofOutputs, List.flatMap_map, noRestrictions, noQueries,
      List.flatMap_singleton']
    rfl
  · simp only [withAliases_empty, OutputColumn.bindings, List.filterMap_map, Function.comp_def,
      Option.map_none, List.filterMap_none]
    rfl

/-- A node is kept if its parts are. -/
theorem keptCases (check : Regime) : Plan.Cases (Expr.Kept check) (Query.Kept check) where
  attr name := by
    intro _ schema type s _
    refine Expr.yields_flatten_attr.2 ⟨?_, rfl⟩
    rw [Environment.resolve, NameMap.find?_empty, Option.getD_none]
  const type value := by
    intro settled schema _ s _
    refine Expr.yields_flatten_const.2 ⟨.const type value, ?_, rfl, rfl⟩
    have unstructured := Option.isSome_eq_false_iff.1 ((Expr.everywhere_const type value).1 settled)
    rw [Expr.flattenConst, Option.isNone_iff_eq_none.1 unstructured]
  null type := by
    intro settled schema _ s _
    refine Expr.yields_flatten_null.2 ⟨?_, rfl⟩
    have unstructured := Option.isSome_eq_false_iff.1 ((Expr.everywhere_null type).1 settled)
    rw [Expr.flattenNull, Option.isNone_iff_eq_none.1 unstructured]
  apply _ _ _ ih := apply ih
  tuple items _ := by
    intro settled
    exact ((Expr.everywhere_tuple items).1 settled).1.elim
  aggregate _ _ ih := aggregate ih
  multiAggregate fn args _ := by
    intro settled
    exact ((Expr.everywhere_multiAggregate fn args).1 settled).1.elim
  case _ _ ihb ihd := case ihb ihd
  scalarSubquery query ih := by
    intro settled schema type s typed
    obtain ⟨inner, infer, _⟩ := Expr.typeOf_scalarSubquery.1 typed
    exact Expr.yields_flatten_scalarSubquery.2
      ⟨query, subquery ih ((Expr.everywhere_scalarSubquery query).1 settled).2 s infer, rfl⟩
  setSubquery query ih := by
    intro settled schema type s typed
    obtain ⟨inner, infer, _⟩ := Expr.typeOf_setSubquery.1 typed
    exact Expr.yields_flatten_setSubquery.2
      ⟨query, subquery ih ((Expr.everywhere_setSubquery query).1 settled).2 s infer, rfl⟩
  empty := by
    intro _ schema s _
    exact Query.yields_flatten_empty.2 ⟨rfl, rfl, rfl⟩
  table name own := by
    intro _ schema s _
    exact Query.yields_flatten_table.2 ⟨rfl, rfl, rfl⟩
  galaxy g _ := by
    intro settled
    exact ((Query.everywhere_galaxy g).1 settled).1.elim
  project _ _ ihc ih := project ihc ih
  restrict predicate input ihp ih := by
    intro settled schema s typed
    obtain ⟨_, settledPredicate, settledInput⟩ :=
      (Query.everywhere_restrict predicate input).1 settled
    obtain ⟨infer, type, typedPredicate, _⟩ := Query.schemaOf_restrict.1 typed
    refine Query.yields_flatten_restrict.2 ⟨input, s, schema, _, ih settledInput s infer, infer,
      ihp settledPredicate s typedPredicate, ?_⟩
    simp [Query.flattenRestriction, Flattened.plain, Expr.isTuple_of_settled settledPredicate,
      Query.restrictAll]
  combine op left right ihl ihr := by
    intro settled schema s typed
    obtain ⟨_, settledLeft, settledRight⟩ := (Query.everywhere_combine op left right).1 settled
    obtain ⟨leftSchema, inferLeft, rightSchema, inferRight, _⟩ := Query.schemaOf_combine.1 typed
    exact Query.yields_flatten_combine.2 ⟨left, .empty, s, ihl settledLeft s inferLeft, right,
      .empty, ihr settledRight s inferRight, .inl ⟨⟨rfl, rfl⟩, rfl, rfl⟩⟩
  grouping cs input ihc ih := by
    intro settled schema s typed
    obtain ⟨_, settledColumns, settledInput⟩ := (Query.everywhere_grouping cs input).1 settled
    obtain ⟨inner, infer, typedColumns⟩ := Query.schemaOf_grouping.1 typed
    exact Query.yields_flatten_grouping.2 ⟨input, .empty, s, ih settledInput s infer, inner, infer,
      cs, groups ihc settledColumns s typedColumns, rfl, rfl⟩
  order ks input ihk ih := by
    intro settled schema s typed
    obtain ⟨_, settledKeys, settledInput⟩ := (Query.everywhere_order ks input).1 settled
    obtain ⟨infer, typedKeys⟩ := Query.schemaOf_order.1 typed
    exact Query.yields_flatten_order.2 ⟨input, s, schema, ks, ih settledInput s infer, infer,
      keys ihk settledKeys s typedKeys, rfl⟩
  top offset count input ih := by
    intro settled schema s typed
    have settledInput := ((Query.everywhere_top offset count input).1 settled).2
    exact Query.yields_flatten_top.2 ⟨input, ih settledInput s (Query.schemaOf_top.1 typed), rfl⟩

end FixedPoints

/-- Queries without anything structured are fixed points of the pass, from any state and in either
mode. -/
theorem Query.yields_of_settled {q : Query} (settled : q.Everywhere .settled) (s : PassState)
    (infer : q.schemaOf check = .ok schema) : (q.flatten check).Yields s (q, .empty) s :=
  (FixedPoints.keptCases check).query q settled s infer

/-- Flattening is the identity on plans that have a schema and in which nothing is structured: it
answers the plan, binds nothing and leaves the state, from which the next names are drawn, as it
was. -/
theorem Query.flatten_settled {capabilities : Capabilities} {rules : Rules} {q : Query}
    {schema : Schema} (settled : q.Everywhere .settled)
    (infer : q.inferSchema capabilities = .ok schema) (s : PassState) :
    (q.flatten ⟨⟨false, capabilities⟩, rules⟩).runFrom s = (.ok (q, .empty), s) :=
  Query.yields_of_settled settled s infer

namespace Sample

/-- Whether the number of a row is that of all rows, or else its text is not before a first name. -/
def isLast : Expr :=
  .case [(.apply (.comparison "=")
      [.attr "a", .scalarSubquery (.grouping [("n", .aggregate .count (.attr "a"))] tableT)],
      .const .boolean (.boolean true))]
    (.apply .negation [.apply (.comparison "<")
      [.attr "b", .scalarSubquery (.project [("first", .attr "first")] tableU)]])

/-- The last rows of the table of numbers, twice. -/
def lastRows : Query :=
  .top 0 5 (.order [(.attr "a", .desc)] (.restrict isLast (.combine .union tableT tableT)))

theorem lastRows_settled : lastRows.Everywhere .settled := by
  have operators : (Operator.comparison "=").hasTemplate = false ∧
      (Operator.comparison "<").hasTemplate = false ∧
      Operator.negation.hasTemplate = false := ⟨rfl, rfl, rfl⟩
  have scalar : Ty.boolean.isStructured = false := rfl
  simp [lastRows, isLast, tableT, tableU, NodeProperty.settled, operators, scalar]

theorem lastRows_kept : lastRows.Everywhere .settled ∧
    lastRows.inferSchema .empty = .ok ⟨[("a", .integer), ("b", .string)]⟩ ∧
    (lastRows.flatten session.permissive).runFrom ⟨⟨"gx", 7⟩, []⟩ =
      (.ok (lastRows, .empty), ⟨⟨"gx", 7⟩, []⟩) := by
  have infer : lastRows.inferSchema .empty = .ok ⟨[("a", .integer), ("b", .string)]⟩ := rfl
  exact ⟨lastRows_settled, infer, Query.flatten_settled lastRows_settled infer _⟩

end Sample

end FlatPlan
