import FlatPlan.Proofs.MeaningExpression

/-!
# Rows laid out over flat columns

How the flat row of a row is read. A row that a schema describes has a cell for each column, a
vector of scalars where the column is structured. Its flat row has the columns of the expanded
schema, all with scalars in them, and reads every attribute as the row does
(`Schema.Describes.reads`).
-/

namespace FlatPlan

variable {v : Vocabulary} {rules : Rules} {I : Interpretation rules} {schema rows : Schema}
  {env : Environment} {row : Row}

/-- A cell that holds a value of a type: as many scalars as the layout has columns, or one
scalar. -/
def Cell.Fits (type : Ty) (cell : Cell) : Prop :=
  match type.layout? with
  | some l => ∃ values : List Value, cell = .vector (values.map .scalar) ∧
      values.length = l.columns.length
  | none => ∃ value, cell = .scalar value

/-- A row of the columns of a schema, with cells of their types. -/
def Schema.Describes (schema : Schema) (row : Row) : Prop :=
  List.Forall₂ (fun c entry => entry.1 = c.1 ∧ entry.2.Fits c.2) schema.columns row

/-- A row of scalars. -/
def Row.IsFlat (row : Row) : Prop := ∀ entry ∈ row, ∃ value, entry.2 = .scalar value

namespace Cell

theorem fits_structured {type : Ty} {l : Layout} {cell : Cell} (layout : type.layout? = some l) :
    cell.Fits type ↔ ∃ values : List Value, cell = .vector (values.map .scalar) ∧
      values.length = l.columns.length := by
  simp only [Fits, layout]

theorem fits_unstructured {type : Ty} {cell : Cell} (unstructured : type.layout? = none) :
    cell.Fits type ↔ ∃ value, cell = .scalar value := by
  simp only [Fits, unstructured]

theorem itemLeaves_scalars (values : List Value) : itemLeaves (values.map .scalar) = values := by
  induction values with
  | nil => rfl
  | cons value values ih => rw [List.map_cons, itemLeaves, ih, leaves, List.singleton_append]

theorem leaves_vector (values : List Value) : (vector (values.map .scalar)).leaves = values :=
  itemLeaves_scalars values

end Cell

namespace Environment

/-- The flat columns of a column with the scalars of its cell. -/
theorem flatCells_of_fits {c : Column} {cell : Cell} (carries : env.Carries c)
    (fits : cell.Fits c.2) :
    env.flatCells (c.1, cell) = ((env.expandColumn c).map Prod.fst).zip (cell.leaves.map .scalar) ∧
      cell.leaves.length = (env.expandColumn c).length := by
  cases layout : c.2.layout? with
  | none =>
    rw [carries_unstructured layout] at carries
    obtain ⟨value, rfl⟩ := (Cell.fits_unstructured layout).1 fits
    rw [expandColumn_unstructured layout]
    exact ⟨by rw [flatCells, carries]; rfl, rfl⟩
  | some l =>
    obtain ⟨names, bound, length⟩ := (carries_structured layout).1 carries
    obtain ⟨values, rfl, length'⟩ := (Cell.fits_structured layout).1 fits
    rw [expandColumn_structured layout bound,
      List.map_fst_zip (Nat.le_of_eq (by rw [List.length_map, length])), Cell.leaves_vector]
    constructor
    · simp only [flatCells, bound, Expr.leafNames_tuple_attrs, Cell.leaves_vector]
    · rw [List.length_zip, List.length_map, length, length', Nat.min_self]

theorem flatRow_cons (env : Environment) (entry : String × Cell) (row : Row) :
    env.flatRow (entry :: row) = env.flatCells entry ++ env.flatRow row := rfl

theorem flatRow_append (env : Environment) (first second : Row) :
    env.flatRow (first ++ second) = env.flatRow first ++ env.flatRow second := List.flatMap_append

/-- The flat row depends on the bindings of its columns only. -/
theorem flatRow_congr {env' : Environment}
    (same : ∀ entry ∈ row, env.find? entry.1 = env'.find? entry.1) :
    env.flatRow row = env'.flatRow row := by
  refine List.flatMap_congr fun entry member => ?_
  rw [flatCells, flatCells, same entry member]

/-- Without bindings a row stays as it is. -/
theorem flatRow_of_unbound (unbound : ∀ entry ∈ row, env.find? entry.1 = none) :
    env.flatRow row = row := by
  have itself : ∀ entry ∈ row, env.flatCells entry = [entry] := fun entry member => by
    rw [flatCells, unbound entry member]
  exact (List.flatMap_congr itself).trans (List.flatMap_singleton' row)

end Environment

namespace Schema.Describes

theorem names (h : schema.Describes row) : row.map Prod.fst = schema.names := by
  unfold Schema.Describes at h
  unfold Schema.names
  generalize schema.columns = columns at h
  induction h with
  | nil => rfl
  | cons first _ ih => rw [List.map_cons, List.map_cons, first.1, ih]

theorem mem_names (h : schema.Describes row) {entry : String × Cell} (member : entry ∈ row) :
    entry.1 ∈ schema.names :=
  h.names ▸ List.mem_map_of_mem member

variable (carries : ∀ c ∈ schema.columns, env.Carries c) (h : schema.Describes row)

include carries h

/-- The flat row has the flat columns, in order, with the scalars of the row. -/
theorem names_flatRow : (env.flatRow row).map Prod.fst = (env.expand schema).names ∧
    (env.flatRow row).map Prod.snd = (Cell.itemLeaves (row.map Prod.snd)).map .scalar := by
  unfold Schema.Describes at h
  unfold Schema.names Environment.expand
  generalize schema.columns = columns at carries h
  induction h with
  | nil => exact ⟨rfl, rfl⟩
  | @cons c entry columns row first _ ih =>
    obtain ⟨name, cell⟩ := entry
    obtain ⟨rfl, fits⟩ := first
    rw [List.forall_mem_cons] at carries
    obtain ⟨names, cells⟩ := ih carries.2
    obtain ⟨flat, length⟩ := Environment.flatCells_of_fits carries.1 fits
    rw [Environment.flatRow_cons, List.map_append, List.map_append, names, cells, flat]
    constructor
    · rw [List.map_fst_zip (Nat.le_of_eq (by rw [List.length_map, List.length_map, length])),
        List.flatMap_cons, List.map_append]
    · rw [List.map_snd_zip (Nat.le_of_eq (by rw [List.length_map, List.length_map, length])),
        List.map_cons, Cell.itemLeaves, List.map_append]

theorem isFlat : Row.IsFlat (env.flatRow row) := by
  intro entry member
  have among := List.mem_map_of_mem (f := Prod.snd) member
  rw [(names_flatRow carries h).2] at among
  obtain ⟨value, _, equal⟩ := List.mem_map.1 among
  exact ⟨value, equal.symm⟩

end Schema.Describes

/-! ## Reading -/

theorem eval_attr_of_mem (distinct : (row.map Prod.fst).Nodup) {entry : String × Cell}
    (member : entry ∈ row) :
    (Expr.attr entry.1).eval I row = entry.2 := by
  rw [Expr.eval, NameMap.lookup_of_mem distinct member, Option.getD_some]

/-- Columns of a row are read as the cells that the row has in them. -/
theorem evals_of_zip (distinct : (row.map Prod.fst).Nodup) {names : List String} {cells : List Cell}
    (length : names.length = cells.length) (subset : ∀ entry ∈ names.zip cells, entry ∈ row) :
    (names.map Expr.attr).map (Expr.eval I row) = cells := by
  induction names generalizing cells with
  | nil => rw [List.length_eq_zero_iff.1 length.symm]; rfl
  | cons name names ih =>
    cases cells with
    | nil => cases length
    | cons cell cells =>
      rw [List.zip_cons_cons, List.forall_mem_cons] at subset
      rw [List.map_cons, List.map_cons, ih (Nat.succ.inj length) subset.2]
      exact congrArg (· :: cells) (eval_attr_of_mem distinct subset.1)

/-- A column is read from its flat columns as the cell that they lay out. -/
theorem Environment.eval_resolve {flatRow : Row} {c : Column} {cell : Cell}
    (carries : env.Carries c) (fits : cell.Fits c.2) (distinct : (flatRow.map Prod.fst).Nodup)
    (subset : ∀ entry ∈ env.flatCells (c.1, cell), entry ∈ flatRow) :
    (env.resolve c.1).eval I flatRow = cell := by
  cases layout : c.2.layout? with
  | none =>
    rw [Environment.carries_unstructured layout] at carries
    rw [Environment.flatCells, carries] at subset
    rw [Environment.resolve, carries, Option.getD_none]
    exact eval_attr_of_mem distinct (subset _ List.mem_cons_self)
  | some l =>
    obtain ⟨names, bound, length⟩ := (Environment.carries_structured layout).1 carries
    obtain ⟨values, rfl, length'⟩ := (Cell.fits_structured layout).1 fits
    simp only [Environment.flatCells, bound, Expr.leafNames_tuple_attrs,
      Cell.leaves_vector] at subset
    rw [Environment.resolve, bound, Option.getD_some, Expr.eval_tuple,
      evals_of_zip distinct (by rw [List.length_map, length, length']) subset]

/-- Each cell of a row is what its column is read as from the flat row. -/
theorem Schema.Describes.eval_resolve (h : schema.Describes row)
    (carries : ∀ c ∈ schema.columns, env.Carries c) (distinct : (env.expand schema).names.Nodup)
    {entry : String × Cell} (member : entry ∈ row) :
    (env.resolve entry.1).eval I (env.flatRow row) = entry.2 := by
  obtain ⟨c, among, name, fits⟩ := exists_of_mem_right h member
  obtain ⟨_, cell⟩ := entry
  cases name
  refine Environment.eval_resolve (carries c among) fits ((names_flatRow carries h).1 ▸ distinct) ?_
  exact fun part inside => List.mem_flatMap.2 ⟨_, member, inside⟩

theorem Schema.Describes.reads (h : schema.Describes row)
    (carries : ∀ c ∈ schema.columns, env.Carries c) (different : schema.names.Nodup)
    (distinct : (env.expand schema).names.Nodup) :
    Reads I schema env row (env.flatRow row) := by
  intro name member
  rw [← h.names] at member different
  obtain ⟨entry, among, rfl⟩ := List.mem_map.1 member
  rw [h.eval_resolve carries distinct among, eval_attr_of_mem different among]

/-! ## Values over flat rows -/

theorem choose_mem {α : Type} (default : α) (conditions : List Cell) (results : List α) :
    choose default conditions results = default ∨ choose default conditions results ∈ results := by
  induction conditions generalizing results with
  | nil => exact .inl rfl
  | cons condition conditions ih =>
    cases results with
    | nil => exact .inl rfl
    | cons result results =>
      rw [choose]
      cases condition.isTrue with
      | true => exact .inr List.mem_cons_self
      | false => exact (ih results).imp_right (List.mem_cons_of_mem result)

mutual

/-- Over a flat row a flat expression is a scalar. -/
theorem Expr.eval_of_flat (flat : Row.IsFlat row) : ∀ {e : Expr}, e.Everywhere v.flatPlan →
    ∃ value, e.eval I row = .scalar value
  | .attr name, _ => by
    rw [Expr.eval]
    cases found : row.lookup name with
    | none => exact ⟨.null, rfl⟩
    | some cell =>
      obtain ⟨before, after, equal, _⟩ := List.lookup_eq_some_iff.1 found
      exact flat (name, cell) (by rw [equal]; simp)
  | .const type value, nodes => by
    rw [Expr.everywhere_const] at nodes
    have unstructured : type.layout? = none := Ty.isStructured_eq_false.1 nodes.2
    exact ⟨value, by rw [Expr.eval, Ty.cell, unstructured]⟩
  | .null type, nodes => by
    rw [Expr.everywhere_null] at nodes
    have unstructured : type.layout? = none := Ty.isStructured_eq_false.1 nodes.2
    exact ⟨.null, by rw [Expr.eval, Ty.nullCell, unstructured]⟩
  | .apply op args, _ => ⟨_, Expr.eval_apply op args⟩
  | .tuple items, nodes => by
    rw [Expr.everywhere_tuple] at nodes
    exact nodes.1.2.elim
  | .case branches default, nodes => by
    rw [Expr.everywhere_case] at nodes
    rw [Expr.eval_case]
    rcases choose_mem (default.eval I row) (branches.map fun b => b.1.eval I row)
      (branches.map fun b => b.2.eval I row) with isDefault | isResult
    · rw [isDefault]
      exact Expr.eval_of_flat flat nodes.2.2
    · exact Expr.evalResults_of_flat flat (fun b member => (nodes.2.1 b member).2) _ isResult
  | .aggregate _ _, _ | .multiAggregate _ _, _ | .scalarSubquery _, _ | .setSubquery _, _ =>
    ⟨.null, by rw [Expr.eval]⟩

theorem Expr.evalResults_of_flat (flat : Row.IsFlat row) : ∀ {branches : List (Expr × Expr)},
    (∀ b ∈ branches, b.2.Everywhere v.flatPlan) →
    ∀ cell ∈ branches.map (fun b => b.2.eval I row), ∃ value, cell = .scalar value
  | [], _, _, member => nomatch member
  | (_, result) :: branches, nodes, cell, member => by
    rw [List.forall_mem_cons] at nodes
    rcases List.mem_cons.1 member with rfl | member
    · exact Expr.eval_of_flat flat nodes.1
    · exact Expr.evalResults_of_flat flat nodes.2 cell member

end

/-- Over a flat row the leaves of a tuple are scalars. -/
theorem exists_values_of_leaves {free : Prop} {items : List Expr} {types : List Ty}
    (leaves : List.Forall₂ (Leaf v rows free) items types) (flat : Row.IsFlat row) :
    ∃ values : List Value, items.map (Expr.eval I row) = values.map .scalar := by
  induction leaves with
  | nil => exact ⟨[], rfl⟩
  | cons leaf _ ih =>
    obtain ⟨value, equal⟩ := Expr.eval_of_flat (I := I) flat leaf.nodes
    obtain ⟨values, others⟩ := ih
    exact ⟨value :: values, by rw [List.map_cons, equal, others, List.map_cons]⟩

/-- Over a flat row a flat value fits its type. -/
theorem Represents.fits {free : Prop} {e : Expr} {type : Ty} (h : Represents v rows free e type)
    (named : v.Names type) (noProduct : type.isProduct = false) (flat : Row.IsFlat row) :
    (e.eval I row).Fits type := by
  rcases h.leaf_or_leaves named noProduct with
    ⟨unstructured, leaf⟩ | ⟨items, l, rfl, layout, leaves⟩
  · exact (Cell.fits_unstructured unstructured).2 (Expr.eval_of_flat flat leaf.nodes)
  · obtain ⟨values, equal⟩ := exists_values_of_leaves (I := I) leaves flat
    refine (Cell.fits_structured layout).2 ⟨values, by rw [Expr.eval_tuple, equal], ?_⟩
    have lengths := congrArg List.length equal
    rw [List.length_map, List.length_map] at lengths
    rw [← lengths, leaves.length_eq, List.length_map]

end FlatPlan
