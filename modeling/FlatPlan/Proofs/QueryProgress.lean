import FlatPlan.Proofs.Progress
import FlatPlan.Proofs.SampleVocabulary

/-!
# Queries that flatten

The forms of queries, one case each, and the whole induction: an accepted plan inside what
flattening supports has a flat form (`Query.flatten_yields`). The projections that the pass makes up
name each column differently, since drawn names differ and the flat columns of an operand do; and
alignment finds as many flat columns on both sides, since they carry columns of one type.
-/

namespace FlatPlan

open Pass

variable {v : Vocabulary} {schema rows : Schema} {env : Environment} {s t : PassState}

namespace Progress

theorem empty : Query.empty.Progresses v := by
  intro schema s _ _ infer _
  rw [Query.schemaOf_empty.1 infer]
  exact ⟨fun _ member => (nomatch member), .empty, .empty, s,
    Query.yields_flatten_empty.2 ⟨rfl, rfl, rfl⟩⟩

/-- A table flattens as it is. -/
theorem table (name : String) (own : Schema) : (Query.table name own).Progresses v := by
  intro schema s plan _ infer _
  rw [Query.everywhere_table] at plan
  obtain ⟨⟨_, columns⟩, _⟩ := plan
  rw [Query.schemaOf_table.1 infer]
  exact ⟨fun c member => (Ty.isScalar_iff.1 (columns c member).2.2).2, .table name own, .empty, s,
    Query.yields_flatten_table.2 ⟨rfl, rfl, rfl⟩⟩

/-- A galaxy flattens, since its query does and its layout has a column. -/
theorem galaxy {g : Galaxy} (ih : g.query.Progresses v) : (Query.galaxy g).Progresses v := by
  intro schema s plan supported infer stem
  rw [Query.everywhere_galaxy] at plan supported
  obtain ⟨⟨⟨_, named, l, expands⟩, _⟩, planQuery⟩ := plan
  obtain ⟨inner, accepted⟩ := expands.accepted
  obtain ⟨_, flat, env, u, run⟩ := ih planQuery supported.2 accepted stem
  have form := Query.flatForm planQuery accepted ⟨stem, run⟩
  have noProduct : ∀ c ∈ schema.columns, c.2.nonNull.isProduct = false := by
    intro c member
    rw [Query.schemaOf_galaxy.1 infer] at member
    obtain ⟨b, base, _⟩ := Ty.layout?_eq_some.1 expands.layout
    rw [List.mem_singleton.1 member]
    change g.type.nonNull.isProduct = false
    rw [base]
    rfl
  let width := (env.expand inner).columns.length
  have unique : ((Query.renamings (u.block width) (env.expand inner).columns).map
    Prod.fst).Nodup := by
    rw [Query.names_renamings (u.length_block width)]
    exact u.nodup_block width
  exact ⟨noProduct, _, _, _, Query.yields_flatten_galaxy.2 ⟨flat, env, u, env.expand inner, _, run,
    form.permissive, Query.projection_eq_ok.2 ⟨unique, rfl⟩, rfl, rfl⟩⟩

mutual

/-- Spreading an expression over columns cannot fail: it only draws names. -/
theorem spread_yields : ∀ (e : Expr) (s : PassState), ∃ r t, e.spread.Yields s r t
  | .tuple items, s => by
    obtain ⟨r, t, run⟩ := spreadItems_yields items s
    refine ⟨(.tuple r.1, r.2), t, ?_⟩
    simp only [Expr.spread, yields_bind, yields_pure]
    exact ⟨r, t, run, rfl, rfl⟩
  | .attr _, s | .const _ _, s | .null _, s | .apply _ _, s | .aggregate _ _, s
  | .multiAggregate _ _, s | .case _ _, s | .scalarSubquery _, s | .setSubquery _, s => by
    rw [Expr.spread_of_noTuple rfl]
    simp only [yields_bind, yields_pure, yields_fresh]
    exact ⟨_, _, _, _, ⟨rfl, rfl⟩, rfl, rfl⟩

theorem spreadItems_yields :
    ∀ (es : List Expr) (s : PassState), ∃ r t, (Expr.spreadItems es).Yields s r t
  | [], s => by
    refine ⟨([], []), s, ?_⟩
    rw [Expr.spreadItems, yields_pure]
    exact ⟨rfl, rfl⟩
  | e :: es, s => by
    obtain ⟨first, u, head⟩ := spread_yields e s
    obtain ⟨rest, t, tail⟩ := spreadItems_yields es u
    refine ⟨(first.1 :: rest.1, first.2 ++ rest.2), t, ?_⟩
    simp only [Expr.spreadItems, yields_bind, yields_pure]
    exact ⟨first, u, head, rest, t, tail, rfl, rfl⟩

end

/-- Making an output column cannot fail: it only draws names. -/
theorem ofFlattened_yields (name : String) (part : Flattened) (s : PassState) :
    ∃ o t, (OutputColumn.ofFlattened name part).Yields s o t := by
  unfold OutputColumn.ofFlattened
  simp only [yields_ite, yields_bind, yields_pure]
  cases part.expr.isTuple with
  | true =>
    obtain ⟨r, t, run⟩ := spread_yields part.expr s
    exact ⟨_, t, .inl ⟨rfl, r, t, run, rfl, rfl⟩⟩
  | false => exact ⟨_, s, .inr ⟨Bool.false_ne_true, rfl, rfl⟩⟩

/-- A projected column is no product, with or without null. -/
theorem noProduct_of_column {grouping : Bool} {c : String × Expr} {d : Column}
    (column : Query.ColumnOf v.checked schema grouping c d) (settled : d.2.Settled) :
    d.2.nonNull.isProduct = false := by
  rw [settled.noNullProduct]
  exact column.isProduct_eq_false

/-- Columns that are typed flatten one after the other. -/
theorem columns {cs : List (String × Expr)} {ds : List Column} (ih : ∀ c ∈ cs, c.2.Progresses v)
    (plan : ∀ c ∈ cs, c.2.Everywhere v.plan) (supported : ∀ c ∈ cs, c.2.Everywhere v.supported)
    (ground : Ground v schema env rows)
    (typed : List.Forall₂ (Query.ColumnOf v.checked schema false) cs ds)
    (stem : s.names.stem = v.stem) :
    (∀ d ∈ ds, d.2.nonNull.isProduct = false) ∧
      ∃ outputs t, (Query.flattenColumns v.permissive env schema cs).Yields s outputs t := by
  induction typed generalizing s with
  | nil =>
    exact ⟨fun _ member => (nomatch member), [], s, Query.yields_flattenColumns_nil.2 ⟨rfl, rfl⟩⟩
  | @cons c d cs ds first _ ihs =>
    obtain ⟨name, e⟩ := c
    rw [List.forall_mem_cons] at ih plan supported
    obtain ⟨settled, part, u, flat, _⟩ := ih.1 plan.1 supported.1 ground first.typed stem
    obtain ⟨output, w, spread⟩ := ofFlattened_yields name part u
    have leads := ((e.flatten_advances v.permissive env schema).leads flat).trans
      ((OutputColumn.ofFlattened_advances name part).leads spread)
    obtain ⟨noProduct, outputs, t, tail⟩ := ihs ih.2 plan.2 supported.2 (leads.stem.trans stem)
    refine ⟨List.forall_mem_cons.2 ⟨noProduct_of_column first settled, noProduct⟩,
      output :: outputs, t, ?_⟩
    exact Query.yields_flattenColumns_cons.2 ⟨part, u, flat, output, w, spread, outputs, tail, rfl⟩

/-- The flat form of the input of a query, and how expressions over it are read. -/
theorem input {q : Query} (ih : q.Progresses v) (plan : q.Everywhere v.plan)
    (supported : q.Everywhere v.supported) (infer : q.schemaOf v.checked = .ok schema)
    (stem : s.names.stem = v.stem) :
    q.schemaOf v.permissive = .ok schema ∧
      ∃ flat env t, (q.flatten v.permissive).Yields s (flat, env) t ∧
      t.names.stem = v.stem ∧ Ground v schema env (env.expand schema) := by
  obtain ⟨named, permissive⟩ := Query.schemaOf_permissive (Query.wording_of_plan plan) infer
  obtain ⟨noProduct, flat, env, t, run⟩ := ih plan supported infer stem
  have form := Query.flatForm plan infer ⟨stem, run⟩
  have leads := (q.flatten_advances v.permissive).leads run
  exact ⟨permissive, flat, env, t, run, leads.stem.trans stem, form.scope named, noProduct⟩

/-- A projection flattens, since its columns and its input do. -/
theorem project {cs : List (String × Expr)} {q : Query} (ihc : ∀ c ∈ cs, c.2.Progresses v)
    (ih : q.Progresses v) : (Query.project cs q).Progresses v := by
  intro schema s plan supported infer stem
  obtain ⟨inner, inferInput, typed⟩ := Query.schemaOf_project.1 infer
  rw [Query.everywhere_project] at plan supported
  obtain ⟨permissive, flat, env, u, run, stem', ground⟩ :=
    input ih plan.2.2 supported.2.2 inferInput stem
  obtain ⟨noProduct, outputs, t, flatColumns⟩ :=
    columns ihc plan.2.1 supported.2.1 ground (Query.columnsOf_eq_ok.1 typed) stem'
  exact ⟨noProduct, Query.ofOutputs outputs flat,
    OutputColumn.withAliases cs env (OutputColumn.bindings outputs), t,
    Query.yields_flatten_project.2 ⟨flat, env, u, run, inner, permissive, outputs,
      flatColumns, rfl, rfl⟩⟩

/-- A restriction flattens, since its predicate and its input do. -/
theorem restrict {predicate : Expr} {q : Query} (ihp : predicate.Progresses v)
    (ih : q.Progresses v) :
    (Query.restrict predicate q).Progresses v := by
  intro schema s plan supported infer stem
  obtain ⟨inferInput, type, typed, expected⟩ := Query.schemaOf_restrict.1 infer
  rw [Query.everywhere_restrict] at plan supported
  obtain ⟨permissive, flat, env, u, run, stem', ground⟩ :=
    input ih plan.2.2 supported.2.2 inferInput stem
  obtain ⟨_, part, t, flatPredicate, _⟩ := ihp plan.2.1 supported.2.1 ground typed stem'
  have stands :=
    Expr.flatten_stands False plan.2.1 ground.toScope typed False.elim stem' flatPredicate
  have named := (Expr.typeOf_permissive (Expr.wording_of_plan plan.2.1) ground.named typed).1
  have noTuple : part.expr.isTuple = false := by
    rw [(Vocabulary.expect_checked Vocabulary.names_boolean named).1 expected] at stands
    exact (stands.represents.leaf_of_isScalar rfl).noTuple
  have restriction : Query.flattenRestriction v.permissive predicate part flat =
      .ok (.restrict part.expr flat) :=
    (FlatQuery.flattenRestriction_eq_ok stands.queries stands.restrictions).2 ⟨noTuple, rfl⟩
  exact ⟨ground.noProduct, .restrict part.expr flat, env, t,
    Query.yields_flatten_restrict.2 ⟨flat, u, schema, part, run, permissive, flatPredicate,
      restriction⟩⟩

/-- The columns of a grouping projection are leaves, if none of them is structured. -/
theorem groups {cs : List (String × Expr)} {ds : List Column} (ih : ∀ c ∈ cs, c.2.Progresses v)
    (plan : ∀ c ∈ cs, c.2.Everywhere v.plan) (supported : ∀ c ∈ cs, c.2.Everywhere v.supported)
    (ground : Ground v schema env rows)
    (typed : List.Forall₂ (Query.ColumnOf v.checked schema true) cs ds)
    (unstructured : ∀ d ∈ ds, d.2.isStructured = false) (stem : s.names.stem = v.stem) :
    (∀ d ∈ ds, d.2.nonNull.isProduct = false) ∧
      ∃ flats t, (Query.flattenGroups v.permissive env schema cs).Yields s flats t := by
  induction typed generalizing s with
  | nil =>
    exact ⟨fun _ member => (nomatch member), [], s, Query.yields_flattenGroups_nil.2 ⟨rfl, rfl⟩⟩
  | @cons c d cs ds first _ ihs =>
    obtain ⟨name, e⟩ := c
    rw [List.forall_mem_cons] at ih plan supported unstructured
    obtain ⟨settled, part, u, flat, _⟩ := ih.1 plan.1 supported.1 ground first.typed stem
    have leads := (e.flatten_advances v.permissive env schema).leads flat
    obtain ⟨noProduct, flats, t, tail⟩ :=
      ihs ih.2 plan.2 supported.2 unstructured.2 (leads.stem.trans stem)
    have stands := Expr.flatten_stands False plan.1 ground.toScope first.typed False.elim stem flat
    have scalar : d.2.isScalar = true :=
      Ty.isScalar_iff.2 ⟨Ty.isStructured_eq_false.1 unstructured.1,
        noProduct_of_column first settled⟩
    have noTuple := (stands.represents.leaf_of_isScalar scalar).noTuple
    refine ⟨List.forall_mem_cons.2 ⟨noProduct_of_column first settled, noProduct⟩,
      (name, part.expr) :: flats, t, ?_⟩
    exact Query.yields_flattenGroups_cons.2 ⟨part, u, flat, ⟨noTuple, stands.isSelfContained⟩,
      flats, tail, rfl⟩

theorem grouping {cs : List (String × Expr)} {q : Query} (ihc : ∀ c ∈ cs, c.2.Progresses v)
    (ih : q.Progresses v) : (Query.grouping cs q).Progresses v := by
  intro schema s plan supported infer stem
  obtain ⟨inner, inferInput, typed⟩ := Query.schemaOf_grouping.1 infer
  rw [Query.everywhere_grouping] at plan supported
  obtain ⟨permissive, flat, env, u, run, stem', ground⟩ :=
    input ih plan.2.2 supported.2.2 inferInput stem
  obtain ⟨noProduct, flats, t, flatColumns⟩ := groups ihc plan.2.1 supported.2.1 ground
    (Query.columnsOf_eq_ok.1 typed) (supported.1 infer) stem'
  exact ⟨noProduct, .grouping flats flat, .empty, t,
    Query.yields_flatten_grouping.2 ⟨flat, env, u, run, inner, permissive, flats,
      flatColumns, rfl, rfl⟩⟩

/-- Ordering keys that are typed flatten one after the other. -/
theorem keys {ks : List (Expr × Direction)} (ih : ∀ k ∈ ks, k.1.Progresses v)
    (plan : ∀ k ∈ ks, k.1.Everywhere v.plan) (supported : ∀ k ∈ ks, k.1.Everywhere v.supported)
    (ground : Ground v schema env rows)
    (typed : ∀ k ∈ ks, ∃ type, k.1.typeOf v.checked schema = .ok type)
    (stem : s.names.stem = v.stem) :
    ∃ flats t, (Query.flattenKeys v.permissive env schema ks).Yields s flats t := by
  induction ks generalizing s with
  | nil =>
    exact ⟨[], s, Query.yields_flattenKeys_nil.2 ⟨rfl, rfl⟩⟩
  | cons k ks ihs =>
    obtain ⟨e, direction⟩ := k
    rw [List.forall_mem_cons] at ih plan supported typed
    obtain ⟨type, typedKey⟩ := typed.1
    obtain ⟨_, part, u, flat, _⟩ := ih.1 plan.1 supported.1 ground typedKey stem
    have leads := (e.flatten_advances v.permissive env schema).leads flat
    obtain ⟨flats, t, tail⟩ := ihs ih.2 plan.2 supported.2 typed.2 (leads.stem.trans stem)
    have stands := Expr.flatten_stands False plan.1 ground.toScope typedKey False.elim stem flat
    exact ⟨part.expr.leaves.map (·, direction) ++ flats, t,
      Query.yields_flattenKeys_cons.2 ⟨part, u, flat, stands.isSelfContained, flats, tail, rfl⟩⟩

/-- An ordering flattens, since its keys and its input do. -/
theorem order {ks : List (Expr × Direction)} {q : Query} (ihk : ∀ k ∈ ks, k.1.Progresses v)
    (ih : q.Progresses v) : (Query.order ks q).Progresses v := by
  intro schema s plan supported infer stem
  obtain ⟨inferInput, ordered⟩ := Query.schemaOf_order.1 infer
  rw [Query.everywhere_order] at plan supported
  obtain ⟨permissive, flat, env, u, run, stem', ground⟩ :=
    input ih plan.2.2 supported.2.2 inferInput stem
  have typed : ∀ k ∈ ks, ∃ type, k.1.typeOf v.checked schema = .ok type := by
    intro k member
    obtain ⟨type, typed, _⟩ := Query.checkKeys_eq_ok.1 ordered k member
    exact ⟨type, typed⟩
  obtain ⟨flats, t, flatKeys⟩ := keys ihk plan.2.1 supported.2.1 ground typed stem'
  exact ⟨ground.noProduct, .order flats flat, env, t,
    Query.yields_flatten_order.2 ⟨flat, u, schema, flats, run, permissive, flatKeys, rfl⟩⟩

theorem top {offset count : UInt64} {q : Query} (ih : q.Progresses v) :
    (Query.top offset count q).Progresses v := by
  intro schema s plan supported infer stem
  rw [Query.everywhere_top] at plan supported
  obtain ⟨noProduct, flat, env, t, run⟩ := ih plan.2 supported.2 (Query.schemaOf_top.1 infer) stem
  exact ⟨noProduct, .top offset count flat, env, t, Query.yields_flatten_top.2 ⟨flat, run, rfl⟩⟩

/-! ## Combinations -/

section Alignment

variable {leftEnv rightEnv : Environment} (carriesLeft : ∀ c ∈ schema.columns, leftEnv.Carries c)
  (carriesRight : ∀ c ∈ schema.columns, rightEnv.Carries c)

include carriesLeft carriesRight

/-- A column that both environments carry has as many flat columns on both sides. -/
theorem same_width {c : Column} (member : c ∈ schema.columns) :
    (leftEnv.expandColumn c).length = (rightEnv.expandColumn c).length := by
  have types := congrArg List.length
    ((carriesLeft c member).flatTypes.trans (carriesRight c member).flatTypes.symm)
  simpa only [List.length_map] using types

/-- The columns of one operand line up with those of the other, since both carry the same schema. -/
theorem align_of_carries (distinct : (leftEnv.expand schema).names.Nodup) (right : Query) :
    ∃ aligned, Query.align (schema.names.map fun name => (name, name)) leftEnv rightEnv right =
      .ok aligned := by
  let pairs := schema.columns.map fun c =>
    ((leftEnv.expandColumn c).map Prod.fst).zip
      (((rightEnv.expandColumn c).map Prod.fst).map Expr.attr)
  have paired : (schema.names.map fun name => (name, name)).mapM
      (fun pair => Query.alignColumns leftEnv rightEnv pair.1 pair.2) = .ok pairs := by
    rw [mapM_eq_ok, Schema.names, List.map_map, List.forall₂_map_left_iff,
      List.forall₂_map_right_iff, List.forall₂_same]
    intro c member
    refine Query.alignColumns_eq_ok.2 ⟨_, _, (carriesLeft c member).flatColumns,
      (carriesRight c member).flatColumns, ?_, rfl⟩
    rw [List.length_map, List.length_map, same_width carriesLeft carriesRight member]
  have names : pairs.flatten.map Prod.fst = (leftEnv.expand schema).names := by
    rw [List.map_flatten, List.map_map, Schema.names, Environment.expand, List.map_flatMap,
      List.flatMap_def]
    refine congrArg List.flatten (List.map_congr_left
      fun c member => List.map_fst_zip (Nat.le_of_eq ?_))
    simp only [List.length_map, same_width carriesLeft carriesRight member]
  exact ⟨_, bind_eq_ok.2 ⟨pairs, paired, Query.projection_eq_ok.2 ⟨names ▸ distinct, rfl⟩⟩⟩

end Alignment

/-- Flat columns of some columns of a schema are different, if those of all are. -/
theorem nodup_expand_of_subset {part : Schema} (distinct : (env.expand schema).names.Nodup)
    (different : part.names.Nodup) (subset : ∀ c ∈ part.columns, c ∈ schema.columns) :
    (env.expand part).names.Nodup := by
  have columns : part.columns.Nodup := different.of_map _
  rw [Schema.names, Environment.expand, List.map_flatMap, List.nodup_flatMap]
  constructor
  · intro c member
    have sublist : (env.expandColumn c).Sublist (env.expand schema).columns :=
      List.sublist_flatten_of_mem (List.mem_map_of_mem (subset c member))
    exact (sublist.map Prod.fst).nodup distinct
  · refine columns.imp_of_mem fun {c c'} member member' ne name onFirst onSecond => ?_
    obtain ⟨d, first, rfl⟩ := List.mem_map.1 onFirst
    obtain ⟨d', second, same⟩ := List.mem_map.1 onSecond
    exact ne (FlatCombination.eq_of_nodup_flatMap distinct (subset c member) (subset c' member')
      first second same.symm).1

/-- A column of the right operand of a quotient is one of the left, if its name is. -/
theorem mem_left_of_covers {leftSchema rightSchema : Schema} (regularLeft : leftSchema.Regular v)
    (regularRight : rightSchema.Regular v)
    (agree : ∀ c ∈ leftSchema.columns, ∀ type, rightSchema.get? c.1 = some type →
      v.checked.expect c.2 type = .ok ())
    (covers : ∀ name ∈ rightSchema.names, name ∈ leftSchema.names) :
    ∀ c ∈ rightSchema.columns, c ∈ leftSchema.columns := by
  intro c member
  obtain ⟨c', onLeft, same⟩ := List.mem_map.1 (covers c.1 (Schema.mem_names_of_mem member))
  have contained := Schema.contains_iff.2 (same ▸ Schema.mem_names_of_mem member)
  have also := FlatCombination.mem_right_of_contains regularLeft regularRight agree onLeft contained
  have equal : c' = c := List.inj_on_of_nodup_map regularRight.distinct also member same
  exact equal ▸ onLeft

/-- Flat operands of schemas that fit together can be combined. -/
theorem combination {op : CombineOp} {flatLeft flatRight : Query} {leftEnv rightEnv : Environment}
    {leftSchema rightSchema : Schema} {u : PassState}
    (formLeft : Query.FlatForm v leftSchema s flatLeft leftEnv u)
    (formRight : Query.FlatForm v rightSchema u flatRight rightEnv t)
    (regularLeft : leftSchema.Regular v)
    (regularRight : rightSchema.Regular v)
    (combined : Schema.combine v.checked op leftSchema rightSchema = .ok schema)
    (covers : op = .quotient → ∀ name ∈ rightSchema.names, name ∈ leftSchema.names) :
    ∃ r, Query.flattenCombination op flatLeft flatRight leftEnv rightEnv leftSchema
      rightSchema = .ok r := by
  cases op with
  | product => exact ⟨_, rfl⟩
  | quotient =>
    have agree := (Schema.quotient_eq_ok.1 combined).1
    have subset := mem_left_of_covers regularLeft regularRight agree (covers rfl)
    obtain ⟨aligned, alignment⟩ :=
      align_of_carries (fun c member => formLeft.carries c (subset c member)) formRight.carries
        (nodup_expand_of_subset formLeft.distinct regularRight.distinct subset) flatRight
    exact ⟨_, bind_eq_ok.2 ⟨aligned, alignment, rfl⟩⟩
  | union | intersection | difference =>
    obtain ⟨same, _⟩ := (Schema.matching_checked regularLeft.named regularRight.named).1 combined
    subst same
    obtain ⟨aligned, alignment⟩ :=
      align_of_carries formLeft.carries formRight.carries formLeft.distinct flatRight
    simp only [Query.flattenCombination, if_true, FlatCombination.zip_diagonal,
      bind_eq_ok, pure_eq_ok]
    exact ⟨_, aligned, alignment, rfl⟩

/-- A combination flattens, since its operands do and line up with each other. -/
theorem combine {op : CombineOp} {left right : Query} (ihl : left.Progresses v)
    (ihr : right.Progresses v) :
    (Query.combine op left right).Progresses v := by
  intro schema s plan supported infer stem
  obtain ⟨leftSchema, inferLeft, rightSchema, inferRight, combined⟩ :=
    Query.schemaOf_combine.1 infer
  rw [Query.everywhere_combine] at plan supported
  obtain ⟨_, planLeft, planRight⟩ := plan
  obtain ⟨covers, supportedLeft, supportedRight⟩ := supported
  have regularLeft := Query.schema_regular _ planLeft inferLeft
  have regularRight := Query.schema_regular _ planRight inferRight
  obtain ⟨permissiveLeft, flatLeft, leftEnv, u, runLeft, stem', groundLeft⟩ :=
    input ihl planLeft supportedLeft inferLeft stem
  obtain ⟨permissiveRight, flatRight, rightEnv, t, runRight, _, groundRight⟩ :=
    input ihr planRight supportedRight inferRight stem'
  have formLeft := Query.flatForm planLeft inferLeft ⟨stem, runLeft⟩
  have formRight := Query.flatForm planRight inferRight ⟨stem', runRight⟩
  obtain ⟨⟨flat, env⟩, combination⟩ :=
    combination formLeft formRight regularLeft regularRight combined fun isQuotient => by
      subst isQuotient
      exact covers inferLeft inferRight
  refine ⟨fun c member => ?_, ?_⟩
  · rcases Schema.mem_of_combine regularLeft.named regularRight.named combined member with
      onLeft | onRight
    · exact groundLeft.noProduct c onLeft
    · exact groundRight.noProduct c onRight
  · by_cases plain : leftEnv.isEmpty = true ∧ rightEnv.isEmpty = true
    · exact ⟨_, _, t, Query.yields_flatten_combine.2
        ⟨flatLeft, leftEnv, u, runLeft, flatRight, rightEnv, runRight, .inl ⟨plain, rfl, rfl⟩⟩⟩
    · exact ⟨flat, env, t, Query.yields_flatten_combine.2
        ⟨flatLeft, leftEnv, u, runLeft, flatRight, rightEnv, runRight,
          .inr ⟨plain, leftSchema, rightSchema, permissiveLeft, permissiveRight, combination⟩⟩⟩

/-- Supported plans flatten, node by node. -/
theorem cases (columns : v.HasColumns) : Plan.Cases (Expr.Progresses v) (Query.Progresses v) where
  attr := attr columns
  const := const columns
  null := null columns
  apply _ _ _ ih := apply columns ih
  tuple _ ih := tuple ih
  aggregate fn _ ih := aggregate columns fn ih
  multiAggregate fn args _ := by
    intro schema rows env type s _ supported
    rw [Expr.everywhere_multiAggregate] at supported
    exact supported.1.elim
  case _ _ ihb ihd := case columns ihb ihd
  scalarSubquery _ ih := scalarSubquery columns ih
  setSubquery _ ih := setSubquery columns ih
  empty := empty
  table := table
  galaxy _ ih := galaxy ih
  project _ _ ihc ih := project ihc ih
  restrict _ _ ihp ih := restrict ihp ih
  combine _ _ _ ihl ihr := combine ihl ihr
  grouping _ _ ihc ih := grouping ihc ih
  order _ _ ihk ih := order ihk ih
  top _ _ _ ih := top ih

end Progress

namespace Sample

theorem vocabulary_hasColumns : vocabulary.HasColumns := by
  intro b l known layout
  rw [(eq_person_of_layout known layout).2]
  exact List.cons_ne_nil _ _

theorem headcount_unstructured : vocabulary.Unstructured headcount := by
  intro schema accepted
  have known : headcount.checkSchema .empty = .ok ⟨[("n", .integer)]⟩ := rfl
  cases known.symm.trans accepted
  simp only [List.forall_mem_cons, List.not_mem_nil, false_implies, implies_true, and_true]
  rfl

theorem headcount_supported : headcount.Everywhere vocabulary.supported := by
  simp only [headcount, galaxyP, tableU, Query.everywhere_grouping, Query.everywhere_galaxy,
    Query.everywhere_table, Expr.everywhere_aggregate, Expr.everywhere_attr, List.forall_mem_cons,
    List.not_mem_nil, false_implies, implies_true, and_true]
  exact ⟨headcount_unstructured, ⟨trivial, trivial⟩, trivial, trivial⟩

theorem rowsOfPeople_supported : rowsOfPeople.Everywhere vocabulary.supported := by
  simp only [rowsOfPeople, isFirstAda, ada, galaxyP, tableT, tableU, Query.everywhere_restrict,
    Query.everywhere_combine, Query.everywhere_galaxy, Query.everywhere_table,
    Expr.everywhere_apply, Expr.everywhere_tuple, Expr.everywhere_attr, Expr.everywhere_const,
    List.forall_mem_cons, List.not_mem_nil, false_implies, implies_true, and_true]
  exact ⟨trivial, ⟨trivial, trivial, ⟨List.cons_ne_nil _ _, trivial, trivial⟩, List.cons_ne_nil _ _,
    ⟨rfl, rfl⟩, rfl, rfl⟩, trivial, ⟨trivial, trivial⟩, trivial⟩

theorem roster_supported : roster.Everywhere vocabulary.supported := by
  simp only [roster, persons, smallPerson, tableT, Query.everywhere_top, Query.everywhere_order,
    Query.everywhere_combine, Query.everywhere_project, Query.everywhere_table,
    Expr.everywhere_attr, Expr.everywhere_apply, Expr.everywhere_case, Expr.everywhere_const,
    Expr.everywhere_null, Expr.everywhere_scalarSubquery, List.forall_mem_cons, List.not_mem_nil,
    false_implies, implies_true, and_true]
  refine ⟨trivial, trivial, trivial, trivial, ⟨trivial, ⟨?_, trivial⟩, rowsOfPeople_supported⟩,
    trivial, ⟨rfl, headcount_unstructured, headcount_supported⟩, trivial⟩
  exact ⟨trivial, ⟨⟨trivial, trivial, rfl, rfl⟩, trivial⟩, rfl⟩

end Sample

/-- Flattening an accepted plan inside what the pass supports does not fail, whatever names have
been drawn before: a plan over a vocabulary whose layouts all have columns. -/
theorem Query.flatten_yields {q : Query} (columns : v.HasColumns)
    (admissible : q.Everywhere v.admissible) (distinct : q.Everywhere .distinctOutputs)
    (supported : q.Everywhere v.supported)
    (accepted : q.checkSchema v.capabilities = .ok schema) (stem : s.names.stem = v.stem) :
    ∃ flat env t, (q.flatten v.permissive).runFrom s = (.ok (flat, env), t) :=
  ((Progress.cases columns).query q (admissible.and distinct) supported accepted stem).2

theorem Sample.roster_flatten_yields : ∃ flat env t,
    (roster.flatten vocabulary.permissive).runFrom start = (.ok (flat, env), t) :=
  Query.flatten_yields (v := vocabulary) vocabulary_hasColumns roster_admissible roster_distinct
    roster_supported roster_accepted rfl

end FlatPlan
