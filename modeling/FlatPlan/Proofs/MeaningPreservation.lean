import FlatPlan.Proofs.MeaningRows
import FlatPlan.Proofs.SampleVocabulary

/-!
# Flattening keeps the meaning of queries

The flat form of a query means the rows of the query, in the same order and each laid out over the
flat columns (`Query.rows_flatten`). The proof goes over the forms of queries: each shows that the
rows of the flat form are the flat rows, and that the rows of the query fit its schema, which is
what the next form reads them by.
-/

namespace FlatPlan

open Pass

attribute [local simp] Query.rows

variable {v : Vocabulary} {I : Interpretation v.rules} {s t u : PassState} {schema rows : Schema}
  {env : Environment} {row : Row}

/-- The flat form means the rows of the query over flat columns, and the schema describes these
rows. -/
structure Query.Preserved {rules : Rules} (I : Interpretation rules) (q : Query) (schema : Schema)
    (flat : Query) (env : Environment) : Prop where
  rows : flat.rows I = (q.rows I).map env.flatRow
  described : ∀ row ∈ q.rows I, schema.Describes row

/-- Flattening the query keeps its meaning. -/
def Query.Simulates (v : Vocabulary) (I : Interpretation v.rules) (q : Query) : Prop :=
  ∀ {schema : Schema} {env : Environment} {s t : PassState} {flat : Query}, q.Everywhere v.plan →
    q.Everywhere .relational → q.schemaOf v.checked = .ok schema → v.Flattens q s flat env t →
    q.Preserved I schema flat env

namespace Query

namespace Preserved

variable {q flat : Query} (h : q.Preserved I schema flat env)
  (form : FlatForm v schema s flat env t)

include h form

/-- A row and its flat row agree on what the names of the schema are bound to. -/
theorem reads (regular : schema.Regular v) (member : row ∈ q.rows I) :
    Reads I schema env row (env.flatRow row) :=
  (h.described row member).reads form.carries regular.distinct form.distinct

/-- The flat rows hold scalars only. -/
theorem isFlat (member : row ∈ q.rows I) : Row.IsFlat (env.flatRow row) :=
  (h.described row member).isFlat form.carries

omit form

/-- Only the bindings of the columns matter. -/
theorem congr {env' : Environment} (same : ∀ c ∈ schema.columns, env.find? c.1 = env'.find? c.1) :
    q.Preserved I schema flat env' := by
  refine ⟨h.rows.trans (List.map_congr_left fun row member => ?_), h.described⟩
  refine Environment.flatRow_congr fun entry among => ?_
  obtain ⟨c, column, equal⟩ := List.mem_map.1 ((h.described row member).mem_names among)
  exact equal ▸ same c column

end Preserved

/-! ## Rows of projections -/

/-- Projections keep the number of rows. -/
theorem length_rows_skipProjections :
    ∀ q : Query, (q.skipProjections.rows I).length = (q.rows I).length
  | .project columns input => by
    rw [skipProjections, length_rows_skipProjections input, rows, List.length_map]
  | .empty | .table _ _ | .galaxy _ | .restrict _ _ | .combine _ _ _ | .grouping _ _ | .order _ _
  | .top _ _ _ => rfl

/-- A projection to no columns has as many rows, whatever it stands on. -/
theorem rows_projection {columns : List (String × Expr)} {input q : Query}
    (h : projection columns input = .ok q) :
    q.rows I = (input.rows I).map fun row => columns.map fun c => (c.1, c.2.eval I row) := by
  obtain ⟨_, rfl⟩ := projection_eq_ok.1 h
  rw [rows]
  cases columns with
  | nil =>
    -- every row is empty, so only their number counts, and the skipped projections keep it
    simp only [List.isEmpty_nil, if_true, List.map_nil, List.map_const',
      length_rows_skipProjections]
  | cons column columns => rfl

theorem eval_zip (names : List String) (es : List Expr) :
    (names.zip es).map (fun c => (c.1, c.2.eval I row)) = names.zip (es.map (Expr.eval I row)) := by
  rw [List.zip_map_right]
  rfl

/-- Columns under new names hold the cells of the old ones. -/
theorem eval_renamings {names : List String} {columns : List Column} {flatRow : Row}
    (same : flatRow.map Prod.fst = columns.map Prod.fst) (distinct : (flatRow.map Prod.fst).Nodup) :
    (renamings names columns).map (fun c => (c.1, c.2.eval I flatRow)) =
      names.zip (flatRow.map Prod.snd) := by
  have length : (flatRow.map Prod.fst).length = (flatRow.map Prod.snd).length := by
    rw [List.length_map, List.length_map]
  have itself : (flatRow.map Prod.fst).zip (flatRow.map Prod.snd) = flatRow :=
    (List.zip_of_prod rfl rfl).symm
  have read := evals_of_zip (I := I) distinct length fun entry member => itself ▸ member
  have columnwise : renamings names columns = names.zip ((columns.map Prod.fst).map .attr) := by
    rw [renamings, List.map_map, List.zip, List.zipWith_map_right]
    rfl
  rw [columnwise, eval_zip, ← same, read]

end Query

namespace Simulation

/-! ## Tables and galaxies -/

/-- An empty query has one empty row, flat or not. -/
theorem empty : Query.empty.Simulates v I := by
  intro schema env s t flat _ _ infer flattens
  obtain ⟨rfl, rfl, _⟩ := Query.yields_flatten_empty.1 flattens.run
  cases Query.schemaOf_empty.1 infer
  refine ⟨rfl, fun row member => ?_⟩
  rw [Query.rows, List.mem_singleton] at member
  rw [member]
  exact .nil

/-- The rows of a table are flat already. -/
theorem table (name : String) (own : Schema) : (Query.table name own).Simulates v I := by
  intro schema env s t flat plan _ infer flattens
  obtain ⟨rfl, rfl, _⟩ := Query.yields_flatten_table.1 flattens.run
  cases Query.schemaOf_table.1 infer
  rw [Query.everywhere_table] at plan
  obtain ⟨⟨_, columns⟩, _⟩ := plan
  constructor
  · have itself : ∀ row : Row, Environment.flatRow .empty row = row := fun row =>
      Environment.flatRow_of_unbound fun _ _ => NameMap.find?_empty _
    rw [List.map_congr_left fun row _ => itself row, List.map_id']
  · intro row member
    obtain ⟨values, _, rfl⟩ := List.mem_map.1 member
    unfold Schema.Describes Schema.names
    rw [List.map_map, List.forall₂_map_right_iff, List.forall₂_same]
    intro c among
    have unstructured := (Ty.isScalar_iff.1 (columns c among).2.2).1
    exact ⟨rfl, (Cell.fits_unstructured unstructured).2 ⟨_, rfl⟩⟩

/-- The rows of a galaxy are flattened by its layout. -/
theorem galaxy {g : Galaxy} (ih : g.query.Simulates v I) : (Query.galaxy g).Simulates v I := by
  intro schema env s t flat plan relational infer flattens
  rw [Query.everywhere_galaxy] at plan relational
  obtain ⟨⟨⟨_, _, l, expands⟩, _⟩, planQuery⟩ := plan
  obtain ⟨underlying, inner, u, flatSchema, renamed, run, inferFlat, project, equal, rfl⟩ :=
    Query.yields_flatten_galaxy.1 flattens.run
  cases equal
  obtain ⟨querySchema, accepted⟩ := expands.accepted
  have form := Query.flatForm planQuery accepted ⟨flattens.stem, run⟩
  cases form.permissive.symm.trans inferFlat
  have types := expands.types ⟨flattens.stem, run⟩ form.typed
  have preserved := ih planQuery relational.2 accepted ⟨flattens.stem, run⟩
  have column : (Query.galaxy g).schemaOf v.checked = .ok ⟨[(g.name, g.type)]⟩ :=
    Query.schemaOf_galaxy.2 rfl
  cases column.symm.trans infer
  obtain ⟨name, type, setup, query⟩ := g
  constructor
  · -- the new names take over the scalars of the flat row, which are those of the row in order
    rw [Query.rows_projection project, preserved.rows, Query.rows, List.map_map, List.map_map]
    refine List.map_congr_left fun row member => ?_
    obtain ⟨names, cells⟩ :=
      Schema.Describes.names_flatRow form.carries (preserved.described row member)
    simp only [Function.comp_apply]
    rw [Query.eval_renamings names (names ▸ form.distinct), cells]
    simp only [Environment.flatRow, Environment.flatCells, NameMap.find?_insert_self,
      List.flatMap_cons, List.flatMap_nil, List.append_nil, Expr.leafNames_tuple_attrs,
      Cell.leaves_vector]
  · intro row member
    rw [Query.rows, List.mem_map] at member
    obtain ⟨source, among, rfl⟩ := member
    obtain ⟨names, cells⟩ :=
      Schema.Describes.names_flatRow form.carries (preserved.described source among)
    refine .cons ⟨rfl, (Cell.fits_structured expands.layout).2 ⟨_, rfl, ?_⟩⟩ .nil
    have width := congrArg List.length types
    have flatWidth := congrArg List.length names
    have cellWidth := congrArg List.length cells
    simp only [Schema.names, List.length_map] at width flatWidth cellWidth
    omega

/-! ## Projections -/

/-- An output column holds the flat cells of its value. -/
theorem flatCells_ofFlattened {part : Flattened} {name : String} {type : Ty} {o : OutputColumn}
    {flatRow : Row} (stands : part.Stands v rows True type) (named : v.Names type)
    (noProduct : type.isProduct = false)
    (flat : Row.IsFlat flatRow) (run : (OutputColumn.ofFlattened name part).Yields s o t)
    (bound : env.find? name = o.refs) :
    o.columns.map (fun c => (c.1, c.2.eval I flatRow)) =
      env.flatCells (name, part.expr.eval I flatRow) := by
  rcases OutputColumn.ofFlattened_cases stands named noProduct run with
    ⟨_, _, rfl⟩ | ⟨items, l, equal, _, leaves, _, rfl⟩
  · rw [Environment.flatCells, bound]
    rfl
  · obtain ⟨values, evals⟩ := exists_values_of_leaves (I := I) leaves flat
    simp only [Environment.flatCells, bound, Expr.leafNames_tuple_attrs, equal, Expr.eval_tuple,
      evals, Cell.leaves_vector]
    rw [Query.eval_zip, evals]

/-- The output columns of a projection hold the flat row of its row, under an environment that binds
them. -/
theorem columns {cs : List (String × Expr)} {ds : List Column} {outputs : List OutputColumn}
    {env' : Environment} {flatRow : Row} (ih : ∀ c ∈ cs, c.2.Simulates v I)
    (plan : ∀ c ∈ cs, c.2.Everywhere v.plan) (relational : ∀ c ∈ cs, c.2.Everywhere .relational)
    (scope : Scope v schema env rows) (reads : Reads I schema env row flatRow)
    (flat : Row.IsFlat flatRow)
    (typed : List.Forall₂ (Query.ColumnOf v.checked schema false) cs ds)
    (stem : s.names.stem = v.stem)
    (run : (Query.flattenColumns v.permissive env schema cs).Yields s outputs t)
    (bound : List.Forall₂ (fun (o : OutputColumn) d => env'.find? d.1 = o.refs) outputs ds) :
    (outputs.flatMap (·.columns)).map (fun c => (c.1, c.2.eval I flatRow)) =
        env'.flatRow (cs.map fun c => (c.1, c.2.eval I row)) ∧
      (Schema.mk ds).Describes (cs.map fun c => (c.1, c.2.eval I row)) := by
  induction typed generalizing s outputs with
  | nil =>
    rw [(Query.yields_flattenColumns_nil.1 run).1]
    exact ⟨rfl, .nil⟩
  | @cons c d cs ds column rest ihs =>
    obtain ⟨name, e⟩ := c
    obtain ⟨_, type⟩ := d
    cases column.name
    rw [List.forall_mem_cons] at ih plan relational
    obtain ⟨part, u, flatPart, o, w, output, others, tail, rfl⟩ :=
      Query.yields_flattenColumns_cons.1 run
    cases bound with
    | cons boundFirst boundRest =>
      have leads := (e.flatten_advances v.permissive env schema).leads flatPart
      have leads' := (OutputColumn.ofFlattened_advances name part).leads output
      have named :=
        (Expr.typeOf_permissive (Expr.wording_of_plan plan.1) scope.named column.typed).1
      have noProduct : type.isProduct = false := column.isProduct_eq_false
      have stands := Expr.flatten_stands True plan.1 scope column.typed
        (fun _ => column.aggregateCount_eq_zero) stem flatPart
      have equal : part.expr.eval I flatRow = e.eval I row :=
        ih.1 plan.1 relational.1 column.typed reads flatPart
      obtain ⟨cells, described⟩ := ihs ih.2 plan.2 relational.2
        ((leads.trans leads').stem.trans stem) tail boundRest
      constructor
      · rw [List.flatMap_cons, List.map_append, cells, List.map_cons, Environment.flatRow_cons,
          ← equal, flatCells_ofFlattened stands named noProduct flat output boundFirst]
      · refine .cons ⟨rfl, ?_⟩ described
        change (e.eval I row).Fits type
        rw [← equal]
        exact stands.represents.fits named noProduct flat

/-- A flat projection answers the flat rows of the projection. -/
theorem project {cs : List (String × Expr)} {input : Query} (ihc : ∀ c ∈ cs, c.2.Simulates v I)
    (ih : input.Simulates v I) : (Query.project cs input).Simulates v I := by
  intro schema env s t flat plan relational infer flattens
  have regular := Query.schema_regular _ plan infer
  obtain ⟨inner, inferInput, typed⟩ := Query.schemaOf_project.1 infer
  rw [Query.everywhere_project] at plan relational
  obtain ⟨_, planColumns, planInput⟩ := plan
  obtain ⟨_, relationalColumns, relationalInput⟩ := relational
  have named := (Query.schemaOf_permissive (Query.wording_of_plan planInput) inferInput).1
  obtain ⟨flatInput, envInput, u, outputs, flattensInput, leads, runColumns, rfl, rfl⟩ :=
    flattens.project planInput inferInput
  have form := Query.flatForm planInput inferInput flattensInput
  have preserved := ih planInput relationalInput inferInput flattensInput
  have stem := leads.stem.trans flattens.stem
  have typedColumns := Query.columnsOf_eq_ok.1 typed
  obtain ⟨standing, _⟩ := FlatProjection.columns (fun _ _ => Expr.flatten_stands) planColumns
    (form.scope named) typedColumns regular.distinct regular.declared stem runColumns
  have bound : List.Forall₂ (fun (o : OutputColumn) d =>
      (OutputColumn.withAliases cs envInput (OutputColumn.bindings outputs)).find? d.1 = o.refs)
      outputs schema.columns :=
    (FlatProjection.bound standing (Query.names_of_columnsOf typed) regular.distinct).imp
      fun _ _ h => h.2
  have regularInput := Query.schema_regular _ planInput inferInput
  -- the run is the same for all rows; each of them is read through its own flat row
  have outputRow := fun (row : Row) (member : row ∈ input.rows I) =>
    columns ihc planColumns relationalColumns (form.scope named)
      (preserved.reads form regularInput member) (preserved.isFlat form member) typedColumns stem
        runColumns bound
  rw [FlatProjection.ofOutputs standing]
  constructor
  · rw [Query.rows, Query.rows, preserved.rows, List.map_map, List.map_map]
    exact List.map_congr_left fun row member => (outputRow row member).1
  · intro row member
    rw [Query.rows, List.mem_map] at member
    obtain ⟨source, among, rfl⟩ := member
    exact (outputRow source among).2

/-! ## Restrictions and bounds -/

/-- A flat restriction keeps the flat rows of those rows that the restriction keeps. -/
theorem restrict {predicate : Expr} {input : Query} (ihp : predicate.Simulates v I)
    (ih : input.Simulates v I) : (Query.restrict predicate input).Simulates v I := by
  intro schema env s t flat plan relational infer flattens
  obtain ⟨inferInput, type, typed, expected⟩ := Query.schemaOf_restrict.1 infer
  rw [Query.everywhere_restrict] at plan relational
  obtain ⟨_, planPredicate, planInput⟩ := plan
  obtain ⟨_, relationalPredicate, relationalInput⟩ := relational
  have named := (Query.schemaOf_permissive (Query.wording_of_plan planInput) inferInput).1
  obtain ⟨flatInput, u, part, flattensInput, leads, runPredicate, restriction⟩ :=
    flattens.restrict planInput inferInput
  have form := Query.flatForm planInput inferInput flattensInput
  have preserved := ih planInput relationalInput inferInput flattensInput
  have stands := Expr.flatten_stands False planPredicate (form.scope named) typed False.elim
    (leads.stem.trans flattens.stem) runPredicate
  obtain ⟨_, rfl⟩ :=
    (FlatQuery.flattenRestriction_eq_ok stands.queries stands.restrictions).1 restriction
  have regularInput := Query.schema_regular _ planInput inferInput
  constructor
  · rw [Query.rows, Query.rows, preserved.rows, List.filter_map]
    refine congrArg _ (List.filter_congr fun row member => ?_)
    have reads := preserved.reads form regularInput member
    exact congrArg Cell.isTrue (ihp planPredicate relationalPredicate typed reads runPredicate)
  · intro row member
    rw [Query.rows] at member
    exact preserved.described row (List.mem_of_mem_filter member)

/-- The first rows stay the first rows when they are flattened. -/
theorem top {offset count : UInt64} {input : Query} (ih : input.Simulates v I) :
    (Query.top offset count input).Simulates v I := by
  intro schema env s t flat plan relational infer flattens
  rw [Query.everywhere_top] at plan relational
  obtain ⟨flatInput, runInput, rfl⟩ := Query.yields_flatten_top.1 flattens.run
  have preserved := ih plan.2 relational.2 (Query.schemaOf_top.1 infer) ⟨flattens.stem, runInput⟩
  constructor
  · rw [Query.rows, Query.rows, preserved.rows, List.map_take, List.map_drop]
  · intro row member
    rw [Query.rows] at member
    exact preserved.described row (List.mem_of_mem_drop (List.mem_of_mem_take member))

/-! ## Products and unions -/

/-- The flat rows of a product are the products of flat rows. -/
theorem product {left right flatLeft flatRight : Query} {leftSchema rightSchema : Schema}
    (onLeft : left.Preserved I leftSchema flatLeft env)
    (onRight : right.Preserved I rightSchema flatRight env) :
    (Query.combine .product left right).Preserved I ⟨leftSchema.columns ++ rightSchema.columns⟩
      (.combine .product flatLeft flatRight) env := by
  constructor
  · rw [Query.rows, Query.rows, onLeft.rows, onRight.rows, List.flatMap_map, List.map_flatMap]
    refine List.flatMap_congr fun a _ => ?_
    rw [List.map_map, List.map_map]
    exact List.map_congr_left fun b _ => (env.flatRow_append a b).symm
  · intro row member
    rw [Query.rows, List.mem_flatMap] at member
    obtain ⟨a, amongLeft, member⟩ := member
    obtain ⟨b, amongRight, rfl⟩ := List.mem_map.1 member
    exact List.rel_append (onLeft.described a amongLeft) (onRight.described b amongRight)

/-- The flat rows of a union are those of both operands. -/
theorem union {left right flatLeft flatRight : Query}
    (onLeft : left.Preserved I schema flatLeft env)
    (onRight : right.Preserved I schema flatRight env) :
    (Query.combine .union left right).Preserved I schema
      (.combine .union flatLeft flatRight) env := by
  constructor
  · rw [Query.rows, Query.rows, onLeft.rows, onRight.rows, List.map_append]
  · intro row member
    rw [Query.rows] at member
    exact (List.mem_append.1 member).elim (onLeft.described row) (onRight.described row)

/-- An aligned column holds its cell over the flat columns of the left. -/
theorem eval_alignColumns {leftEnv rightEnv : Environment} {c : Column} {cell : Cell}
    {flatRow : Row} {columns : List (String × Expr)} (carriesLeft : leftEnv.Carries c)
    (carriesRight : rightEnv.Carries c)
    (fits : cell.Fits c.2) (distinct : (flatRow.map Prod.fst).Nodup)
    (subset : ∀ entry ∈ rightEnv.flatCells (c.1, cell), entry ∈ flatRow)
    (pair : Query.alignColumns leftEnv rightEnv c.1 c.1 = .ok columns) :
    columns.map (fun d => (d.1, d.2.eval I flatRow)) = leftEnv.flatCells (c.1, cell) := by
  obtain ⟨targets, sources, flatLeft, flatRight, _, rfl⟩ := Query.alignColumns_eq_ok.1 pair
  cases carriesLeft.flatColumns.symm.trans flatLeft
  cases carriesRight.flatColumns.symm.trans flatRight
  obtain ⟨cells, length⟩ := Environment.flatCells_of_fits carriesRight fits
  have read := evals_of_zip (I := I) distinct (by rw [List.length_map, List.length_map, length])
    (fun entry member => subset entry (cells ▸ member))
  rw [Query.eval_zip, read, (Environment.flatCells_of_fits carriesLeft fits).1]

theorem eval_align {leftEnv rightEnv : Environment} {columns : List Column} {flatRow : Row}
    {aligned : List (List (String × Expr))} (carriesLeft : ∀ c ∈ columns, leftEnv.Carries c)
    (carriesRight : ∀ c ∈ columns, rightEnv.Carries c)
    (described : (Schema.mk columns).Describes row)
    (distinct : (flatRow.map Prod.fst).Nodup)
    (subset : ∀ entry ∈ rightEnv.flatRow row, entry ∈ flatRow)
    (paired : List.Forall₂ (fun c part => Query.alignColumns leftEnv rightEnv c.1 c.1 = .ok part)
      columns aligned) :
    aligned.flatten.map (fun d => (d.1, d.2.eval I flatRow)) = leftEnv.flatRow row := by
  induction paired generalizing row with
  | nil =>
    cases described
    rfl
  | cons first _ ih =>
    rw [List.forall_mem_cons] at carriesLeft carriesRight
    cases described with
    | @cons _ entry _ row fits others =>
      obtain ⟨name, cell⟩ := entry
      obtain ⟨rfl, fits⟩ := fits
      rw [Environment.flatRow_cons, List.forall_mem_append] at subset
      rw [List.flatten_cons, List.map_append, Environment.flatRow_cons,
        ih carriesLeft.2 carriesRight.2 others subset.2,
        eval_alignColumns carriesLeft.1 carriesRight.1 fits distinct subset.1 first]

/-- The aligned right operand means its rows over the flat columns of the left. -/
theorem align {leftEnv rightEnv : Environment} {right flatRight aligned : Query}
    (form : Query.FlatForm v schema s flatRight rightEnv t)
    (carries : ∀ c ∈ schema.columns, leftEnv.Carries c)
    (preserved : right.Preserved I schema flatRight rightEnv)
    (h : Query.align (schema.names.map fun name => (name, name)) leftEnv rightEnv flatRight =
      .ok aligned) :
    right.Preserved I schema aligned leftEnv := by
  simp only [Query.align, bind_eq_ok, mapM_eq_ok, Schema.names, List.forall₂_map_left_iff] at h
  obtain ⟨columns, paired, project⟩ := h
  refine ⟨?_, preserved.described⟩
  rw [Query.rows_projection project, preserved.rows, List.map_map]
  refine List.map_congr_left fun row member => ?_
  have described := preserved.described row member
  have names := (described.names_flatRow form.carries).1
  exact eval_align carries form.carries described (names ▸ form.distinct)
    (fun _ among => among) paired

/-- A flat combination answers the flat rows of the combination, after the columns of the right are
lined up. -/
theorem combine {op : CombineOp} {left right : Query} (ihl : left.Simulates v I)
    (ihr : right.Simulates v I) :
    (Query.combine op left right).Simulates v I := by
  intro schema env s t flat plan relational infer flattens
  obtain ⟨leftSchema, inferLeft, rightSchema, inferRight, combined⟩ :=
    Query.schemaOf_combine.1 infer
  rw [Query.everywhere_combine] at plan relational
  obtain ⟨⟨admissible, _⟩, planLeft, planRight⟩ := plan
  obtain ⟨operation, relationalLeft, relationalRight⟩ := relational
  have regularLeft := Query.schema_regular _ planLeft inferLeft
  have regularRight := Query.schema_regular _ planRight inferRight
  obtain ⟨flatLeft, leftEnv, u, flatRight, rightEnv, flattensLeft, flattensRight, _, _, rest⟩ :=
    flattens.combine planLeft planRight inferLeft inferRight
  have formLeft := Query.flatForm planLeft inferLeft flattensLeft
  have formRight := Query.flatForm planRight inferRight flattensRight
  have onLeft := ihl planLeft relationalLeft inferLeft flattensLeft
  have onRight := ihr planRight relationalRight inferRight flattensRight
  rcases rest with ⟨⟨emptyLeft, emptyRight⟩, rfl, rfl⟩ | combination
  · have plainLeft : left.Preserved I leftSchema flatLeft .empty :=
      onLeft.congr fun c _ => NameMap.find?_of_isEmpty emptyLeft c.1
    have plainRight : right.Preserved I rightSchema flatRight .empty :=
      onRight.congr fun c _ => NameMap.find?_of_isEmpty emptyRight c.1
    rcases operation with rfl | rfl
    · obtain ⟨_, rfl⟩ := Schema.product_checked.1 combined
      exact product plainLeft plainRight
    · obtain ⟨rfl, rfl⟩ := (Schema.matching_checked regularLeft.named regularRight.named).1 combined
      exact union plainLeft plainRight
  · rcases operation with rfl | rfl
    · have noCapture := Session.NoCapture.unbound admissible flattensLeft inferLeft inferRight
      obtain ⟨apart, rfl⟩ := Schema.product_checked.1 combined
      cases combination
      obtain ⟨sameLeft, sameRight⟩ := FlatCombination.find?_product apart noCapture _ rfl
      exact product (onLeft.congr sameLeft) (onRight.congr sameRight)
    · obtain ⟨same, rfl⟩ :=
        (Schema.matching_checked regularLeft.named regularRight.named).1 combined
      subst same
      simp only [Query.flattenCombination, if_true, bind_eq_ok, pure_eq_ok, Prod.mk.injEq,
        FlatCombination.zip_diagonal] at combination
      obtain ⟨aligned, alignment, rfl, rfl⟩ := combination
      exact union onLeft (align formRight formLeft.carries onRight alignment)

/-- Flattening keeps the rows of a plan, node by node. -/
theorem cases (v : Vocabulary) (I : Interpretation v.rules) :
    Plan.Cases (Expr.Simulates v I) (Query.Simulates v I) where
  attr := attr
  const := const
  null := null
  apply _ _ _ ih := apply ih
  tuple _ ih := tuple ih
  aggregate _ _ _ := fun _ relational => by simp [NodeProperty.relational] at relational
  multiAggregate _ _ _ := fun _ relational => by simp [NodeProperty.relational] at relational
  case _ _ ihb ihd := case ihb ihd
  scalarSubquery _ _ := fun _ relational => by simp [NodeProperty.relational] at relational
  setSubquery _ _ := fun _ relational => by simp [NodeProperty.relational] at relational
  empty := empty
  table := table
  galaxy _ ih := galaxy ih
  project _ _ ihc ih := project ihc ih
  restrict _ _ ihp ih := restrict ihp ih
  combine _ _ _ ihl ihr := combine ihl ihr
  grouping _ _ _ _ := fun _ relational => by simp [NodeProperty.relational] at relational
  order _ _ _ _ := fun _ relational => by simp [NodeProperty.relational] at relational
  top _ _ _ ih := top ih

end Simulation

/-! ## Queries -/

variable {q flat : Query}

/-- The flat form of an accepted plan means the rows of the plan, in order and each laid out over
the flat columns. Nothing is lost by that: the flat row has the columns of the expanded schema with
a scalar in each, and what a column is bound to reads from it the cell that the row has in the
column. -/
theorem Query.rows_flatten (I : Interpretation v.rules) (admissible : q.Everywhere v.admissible)
    (distinct : q.Everywhere .distinctOutputs) (relational : q.Everywhere .relational)
    (accepted : q.checkSchema v.capabilities = .ok schema) (stem : s.names.stem = v.stem)
    (run : (q.flatten v.permissive).runFrom s = (.ok (flat, env), t)) :
    flat.rows I = (q.rows I).map env.flatRow ∧
      ∀ row ∈ q.rows I, row.map Prod.fst = schema.names ∧
        (env.flatRow row).map Prod.fst = (env.expand schema).names ∧ Row.IsFlat (env.flatRow row) ∧
        ∀ entry ∈ row, (env.resolve entry.1).eval I (env.flatRow row) = entry.2 := by
  have plan := admissible.and distinct
  have form := Query.flatForm plan accepted ⟨stem, run⟩
  have preserved := (Simulation.cases v I).query q plan relational accepted ⟨stem, run⟩
  refine ⟨preserved.rows, fun row member => ?_⟩
  have described := preserved.described row member
  exact ⟨described.names, (described.names_flatRow form.carries).1, preserved.isFlat form member,
    fun entry among => described.eval_resolve form.carries form.distinct among⟩

namespace Sample

/-- Two numbers, two people, and the comparisons of numbers and texts. -/
def census : Interpretation rules where
  table
    | "T" =>
      [fun | "a" => .integer 1 | _ => .string "x", fun | "a" => .integer 4 | _ => .string "y"]
    | "U" =>
      [fun | "first" => .string "Ada" | _ => .string "Lovelace",
        fun | "first" => .string "Alan" | _ => .string "Turing"]
    | _ => []
  operator
    | "=", [.scalar (.integer a), .scalar (.integer b)] => .boolean (a == b)
    | "=", [.scalar (.string a), .scalar (.string b)] => .boolean (a == b)
    | "<", [.scalar (.integer a), .scalar (.integer b)] => .boolean (a < b)
    | _, _ => .null

/-- Three of the persons of rows with small numbers and of the rows of the table without person. -/
def visitors : Query :=
  .top 1 3 (.combine .union
    (.project [("q", smallPerson), ("n", .attr "a")] rowsOfPeople)
    (.project [("q", .null (.nullable personType)), ("n", .attr "a")] tableT))

theorem visitors_admissible : visitors.Everywhere vocabulary.admissible := by
  simp only [visitors, Query.everywhere_top, Query.everywhere_combine, Query.everywhere_project,
    List.forall_mem_cons, List.not_mem_nil, false_implies, implies_true, and_true,
    Expr.everywhere_attr, Expr.everywhere_null]
  exact ⟨trivial, trivial, ⟨Session.declares_all (by decide), ⟨smallPerson_admissible, trivial⟩,
    rowsOfPeople_admissible⟩, Session.declares_all (by decide), ⟨rfl, trivial⟩, tableT_admissible⟩

theorem visitors_distinct : visitors.Everywhere .distinctOutputs := by
  simp [visitors, rowsOfPeople, isFirstAda, smallPerson, ada, galaxyP, tableT, tableU,
    NodeProperty.distinctOutputs]

theorem visitors_relational : visitors.Everywhere .relational := by
  simp [visitors, rowsOfPeople, isFirstAda, smallPerson, ada, galaxyP, tableT, tableU,
    NodeProperty.relational]

theorem visitors_rows_flatten : ∃ flat env t,
    (visitors.flatten session.permissive).runFrom start = (.ok (flat, env), t) ∧
      flat.rows census =
        [[("gx_3", .scalar (.string "Alan")), ("gx_4", .scalar (.string "Turing")),
          ("n", .scalar (.integer 1))],
            [("gx_3", .scalar .null), ("gx_4", .scalar .null), ("n", .scalar (.integer 4))],
          [("gx_3", .scalar .null), ("gx_4", .scalar .null), ("n", .scalar (.integer 1))]] ∧
      flat.rows census = (visitors.rows census).map env.flatRow ∧
      ∀ row ∈ visitors.rows census, row.map Prod.fst = rosterSchema.names ∧
        (env.flatRow row).map Prod.fst = (env.expand rosterSchema).names ∧
        Row.IsFlat (env.flatRow row) ∧
        ∀ entry ∈ row, (env.resolve entry.1).eval census (env.flatRow row) = entry.2 :=
  ⟨_, _, _, rfl, rfl, Query.rows_flatten (v := vocabulary) (s := start) census visitors_admissible
    visitors_distinct visitors_relational rfl rfl rfl⟩

end Sample

end FlatPlan
