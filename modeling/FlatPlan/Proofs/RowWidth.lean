import FlatPlan.Proofs.Fitting
import FlatPlan.Proofs.Inference
import FlatPlan.Reify

/-!
# Widths of flat rows

The number of columns of a value is computed twice: from its type when rows are reified, and from
the shape of its flat form when plans are flattened. Main statement: on an accepted plan both agree,
so that a row of the flat form has the length that reification asks for
(`Query.flatWidth_of_flatten`), unless a column has a nullable product type. Such a column is one
flat column, and reification takes it for several (`Sample.nullPair_width`).
-/

namespace FlatPlan

open Pass

/-- Whether an expression is one constant for each column of the layout. -/
def Layout.Spells (l : Layout) (e : Expr) : Prop :=
  ∃ constants : List (Ty × Value), e = .tuple (constants.map fun c => .const c.1 c.2) ∧
    constants.length = l.columns.length

/-- What the nodes of a plan keep to so that widths agree: besides the conditions on flat columns,
operators are standard, structured types are not numeric, structured constants are stored as one
constant a column, tables have unstructured columns of width one, and a galaxy stands for a query of
as many flat columns as its layout has. -/
def Session.measured (x : Session) : NodeProperty :=
  x.inPlace.and
    { expr
        | .const type value => ∀ l, type.layout? = some l → x.capabilities.isNumeric type = false ∧
            ∀ e, l.stored x.rules value = .ok e → l.Spells e
        | .null type => type.isStructured = true → x.capabilities.isNumeric type = false
        | .apply op _ => op ∈ Operator.standard
        | _ => True
      query
        | .table _ schema => ∀ c ∈ schema.columns, c.2.isStructured = false ∧ c.2.flatWidth = 1
        | .galaxy g => x.capabilities.isNumeric g.type = false ∧ ∃ l, g.type.layout? = some l ∧
            ∀ ⦃s t : PassState⦄ ⦃flat : Query⦄ ⦃env : Environment⦄ ⦃inferred : Schema⦄,
              x.Flattens g.query s flat env t → flat.inferSchema x.capabilities = .ok inferred →
              inferred.columns.length = l.columns.length
        | _ => True }

variable {x : Session} {q flat : Query} {schema : Schema} {env : Environment} {s t : PassState}

/-! ## Reification -/

namespace Ty

mutual

/-- The layouts by which the values of a type are rebuilt. -/
def layouts : Ty → List Layout
  | .base b => b.layout.toList
  | .nullable (.base b) => b.layout.toList
  | .nullable (.product ts) => layoutsOf ts
  | .product ts => layoutsOf ts
  | _ => []

/-- The layouts by which the values of several types are rebuilt. -/
def layoutsOf : List Ty → List Layout
  | [] => []
  | t :: ts => t.layouts ++ layoutsOf ts

end

/-- One of the layouts refuses the width of a slice that has as many values as the layout has
columns. -/
def Refuses (layouts : List Layout) (expected actual : Nat) : Prop :=
  ∃ l ∈ layouts, ∃ slice : List Value, slice.length = l.columns.length ∧
    l.reify slice = .error (.rowShape expected actual)

variable {expected actual : Nat}

/-- Layouts refuse the length of a row if a layout among them does. -/
theorem refuses_append {ls ls' : List Layout} :
    Refuses (ls ++ ls') expected actual ↔ Refuses ls expected actual ∨
      Refuses ls' expected actual := by
  simp only [Refuses, List.mem_append, or_and_right, exists_or]

/-- Reading a single value complains about no length. -/
theorem only_ne_rowShape {slice : List Value} (length : slice.length = 1) :
    Value.only slice ≠ .error (.rowShape expected actual) := by
  match slice, length with
  | [v], _ => simp [Value.only]

/-- If reading a slice of the right length complains about a length, a layout of the base type does.
-/
theorem refuses_of_baseReify {b : BaseTy} {orNull : Bool} {slice : List Value}
    (length : slice.length = b.flatWidth)
    (h : b.reify orNull slice = .error (.rowShape expected actual)) :
    Refuses b.layout.toList expected actual := by
  unfold BaseTy.flatWidth at length
  unfold BaseTy.reify at h
  cases layout : b.layout with
  | none =>
    rw [layout] at length h
    exact absurd h (only_ne_rowShape length)
  | some l =>
    rw [layout] at length h
    dsimp only at h
    split at h
    · cases h
    · exact ⟨l, by simp, slice, length, h⟩

theorem reifyAll_of_tuple {ts : List Ty} {slice : List Value} {e : Error}
    (h : (do return Value.tuple (← reifyAll ts slice)) = Except.error e) :
    reifyAll ts slice = .error e := by
  rcases bind_eq_error.1 h with first | ⟨_, _, done⟩
  · exact first
  · cases done

mutual

/-- A slice of the width of a type is refused by a layout only. -/
theorem refuses_of_reify : ∀ {type : Ty} {slice : List Value}, slice.length = type.flatWidth →
    type.reify slice = .error (.rowShape expected actual) → Refuses type.layouts expected actual
  | .base b, slice, length, h => by
    rw [flatWidth] at length
    rw [reify] at h
    rw [layouts]
    exact refuses_of_baseReify length h
  | .nullable (.base b), slice, length, h => by
    rw [flatWidth] at length
    rw [reify] at h
    rw [layouts]
    exact refuses_of_baseReify length h
  | .nullable (.product ts), slice, length, h => by
    rw [flatWidth] at length
    rw [reify] at h
    rw [layouts]
    exact refuses_of_reifyAll length (reifyAll_of_tuple h)
  | .product ts, slice, length, h => by
    rw [flatWidth] at length
    rw [reify] at h
    rw [layouts]
    exact refuses_of_reifyAll length (reifyAll_of_tuple h)
  | .nullable (.nullable _), slice, length, h | .nullable (.set _), slice, length, h
  | .nullable (.boundedString _), slice, length, h | .set _, slice, length, h
  | .boundedString _, slice, length, h => absurd h (only_ne_rowShape length)

/-- If reading a row of the right length complains about a length, a layout of its columns does. -/
theorem refuses_of_reifyAll :
    ∀ {types : List Ty} {row : List Value}, row.length = flatWidths types →
    reifyAll types row = .error (.rowShape expected actual) →
    Refuses (layoutsOf types) expected actual
  | [], row, _, h => by cases h
  | t :: ts, row, length, h => by
    rw [flatWidths] at length
    rw [reifyAll] at h
    rw [layoutsOf, refuses_append]
    rcases bind_eq_error.1 h with first | ⟨v, _, rest⟩
    · exact .inl (refuses_of_reify (by rw [List.length_take]; omega) first)
    · rcases bind_eq_error.1 rest with others | ⟨vs, _, done⟩
      · exact .inr (refuses_of_reifyAll (by rw [List.length_drop]; omega) others)
      · cases done

end

/-- A structured type is as wide as its layout. -/
theorem flatWidth_of_layout? {type : Ty} {l : Layout} (layout : type.layout? = some l) :
    type.flatWidth = l.columns.length := by
  have base : ∀ {b : BaseTy}, b.layout = some l → b.flatWidth = l.columns.length := by
    intro b own
    rw [BaseTy.flatWidth, own]
  match type, layout with
  | .base b, own =>
    rw [flatWidth]
    exact base own
  | .nullable (.base b), own =>
    rw [flatWidth]
    exact base own

/-- A scalar type takes one column. -/
theorem flatWidth_of_scalar {type : Ty} (unstructured : type.layout? = none)
    (noProduct : type.nonNull.isProduct = false) : type.flatWidth = 1 := by
  have base : ∀ {b : BaseTy}, b.layout = none → b.flatWidth = 1 := by
    intro b own
    rw [BaseTy.flatWidth, own]
  match type, unstructured, noProduct with
  | .base b, own, _ =>
    rw [flatWidth]
    exact base own
  | .nullable (.base b), own, _ =>
    rw [flatWidth]
    exact base own
  | .nullable (.nullable _), _, _ | .nullable (.set _), _, _ | .nullable (.boundedString _), _,
      _ | .set _, _, _
  | .boundedString _, _, _ => rfl

end Ty

/-- A row of the width of a schema is refused by a layout only. -/
theorem Schema.refuses_of_reifyRow {row : List Value} {expected actual : Nat}
    (length : row.length = schema.flatWidth)
    (h : schema.reifyRow row = .error (.rowShape expected actual)) :
    Ty.Refuses (Ty.layoutsOf schema.types) expected actual := by
  rw [reifyRow, if_pos length] at h
  exact Ty.refuses_of_reifyAll length h

/-! ## Conditions on plans -/

/-- A stored constant has one scalar for each column of the layout. -/
theorem Layout.Spells.shape {l : Layout} {e : Expr} (h : l.Spells e) :
    e.shape = .tuple (List.replicate l.columns.length .leaf) := by
  obtain ⟨constants, rfl, length⟩ := h
  rw [Expr.shape, Expr.shapes_of_noTuples, List.length_map, length]
  intro e member
  obtain ⟨c, _, rfl⟩ := List.mem_map.1 member
  rfl

theorem Layout.Spells.infers {l : Layout} {e : Expr} (h : l.Spells e) (rows : Schema) :
    e.Infers x rows := by
  obtain ⟨constants, rfl, _⟩ := h
  refine Expr.infers_tuple.2 fun e member => ?_
  obtain ⟨c, _, rfl⟩ := List.mem_map.1 member
  exact Expr.infers_const c.1 c.2

namespace Expr

/-- Items that are no tuples are their own leaves. -/
theorem length_itemLeaves_of_shapes :
    ∀ {items : List Expr} {n : Nat}, shapes items = List.replicate n .leaf →
    (itemLeaves items).length = n
  | [], n, h => by
    rw [shapes, eq_comm, List.replicate_eq_nil_iff] at h
    rw [h]
    rfl
  | e :: items, 0, h => by cases h
  | e :: items, n + 1, h => by
    rw [shapes, List.replicate_succ, List.cons.injEq] at h
    have noTuple : e.isTuple = false := isTuple_eq_false_of_shape (d := .attr "") h.1 rfl
    rw [itemLeaves, List.length_append, leaves_of_noTuple noTuple, length_itemLeaves_of_shapes h.2]
    exact Nat.add_comm 1 n

/-- A tuple of scalars has as many leaves as items. -/
theorem length_leaves_of_shape {e : Expr} {n : Nat}
    (h : e.shape = .tuple (List.replicate n .leaf)) :
    e.leaves.length = n := by
  cases e with
  | tuple items => exact length_itemLeaves_of_shapes (Shape.tuple.inj h)
  | _ => cases h

end Expr

namespace Query

/-- A combination that captures no name shadows none. -/
theorem noShadow_of_noCapture {left right : Query} (h : x.NoCapture left right) :
    x.NoShadow left right := by
  intro s t flat env leftSchema rightSchema flattens acceptLeft acceptRight c member absent _
  refine h flattens c.1 ?_ ?_
  · exact names_of_schemaOf acceptRight ▸ Schema.mem_names_of_mem member
  · exact names_of_schemaOf acceptLeft ▸ absent

/-- A measured plan fits its types exactly. -/
theorem fitting_of_measured (plan : q.Everywhere x.measured) : q.Everywhere (x.fitting True) := by
  refine plan.imp (fun e (node : x.measured.expr _) => ?_) (fun q (node : x.measured.query _) => ?_)
  · obtain ⟨_, node⟩ := node
    cases e with
    | const type value =>
      intro _ l layout
      obtain ⟨notNumeric, stored⟩ := node l layout
      refine ⟨notNumeric, fun e flat => ?_⟩
      rcases Expr.flattenConst_eq_ok.1 flat with
        ⟨scalar, _⟩ | ⟨own, layout', ⟨_, rfl⟩ | ⟨_, answered⟩⟩
      · rw [scalar] at layout
        cases layout
      · cases layout.symm.trans layout'
        exact l.shape_nulls
      · cases layout.symm.trans layout'
        exact (stored e answered).shape
    | null type => exact fun _ l layout => node (Option.isSome_iff_exists.2 ⟨l, layout⟩)
    | apply op args => exact Operator.fitting_of_standard node
    | _ => trivial
  · obtain ⟨⟨_, node⟩, own⟩ := node
    cases q with
    | table name schema => exact fun c member => Ty.isStructured_eq_false.1 (own c member).1
    | galaxy g =>
      obtain ⟨notNumeric, l, layout, width⟩ := own
      refine ⟨Option.isSome_iff_exists.2 ⟨l, layout⟩, fun _ l' layout' => ⟨notNumeric, ?_⟩⟩
      cases layout.symm.trans layout'
      intro s t flat env inferred flattens infer
      exact width flattens infer
    | project columns input => exact node
    | combine op left right =>
      cases op with
      | product => exact noShadow_of_noCapture node
      | _ => trivial
    | _ => trivial

/-- A measured plan infers schemas. -/
theorem inferring_of_measured (plan : q.Everywhere x.measured) : q.Everywhere x.inferring := by
  refine plan.imp (fun e (node : x.measured.expr _) => ⟨node.1, ?_⟩)
    fun _ (node : x.measured.query _) =>
    ⟨node.1, trivial⟩
  cases e with
  | const type value =>
    intro rows e flat
    rcases Expr.flattenConst_eq_ok.1 flat with ⟨_, rfl⟩ | ⟨l, layout, ⟨_, rfl⟩ | ⟨_, answered⟩⟩
    · exact Expr.infers_const type value
    · exact Expr.infers_iff_leaves.2 (l.of_nulls Expr.infers_null)
    · exact ((node.2 l layout).2 e answered).infers rows
  | apply op args => exact fun rows => Operator.infers_of_standard node.2
  | _ => trivial

/-! ## Widths -/

/-- The columns of accepted projections are no products. -/
theorem isProduct_of_columnsOf {grouping : Bool} {inner : Schema} {cs : List (String × Expr)}
    {columns : List Column} (h : columnsOf x.checked inner grouping cs = .ok columns) :
    ∀ c ∈ columns, c.2.isProduct = false := by
  intro c member
  obtain ⟨_, _, column⟩ := exists_of_mem_right (columnsOf_eq_ok.1 h) member
  have scalar := Session.require_checked.1 column.noProduct
  rwa [Bool.not_eq_true'] at scalar

/-- A column of a product type comes from a table, and is one flat column. -/
theorem flatWidth_of_isProduct : ∀ {q : Query} {schema : Schema}, q.Everywhere x.measured →
    q.schemaOf x.checked = .ok schema → ∀ c ∈ schema.columns, c.2.isProduct = true →
      c.2.flatWidth = 1
  | .empty, schema, _, infer => by
    rw [schemaOf_empty.1 infer]
    exact fun c member => (by cases member)
  | .table _ _, schema, plan, infer => by
    rw [everywhere_table] at plan
    rw [schemaOf_table.1 infer]
    exact fun c member _ => (plan.2 c member).2
  | .galaxy g, schema, plan, infer => by
    rw [everywhere_galaxy] at plan
    obtain ⟨_, _, l, layout, _⟩ := plan.1
    rw [schemaOf_galaxy.1 infer]
    intro c member isProduct
    rw [List.mem_singleton.1 member] at isProduct
    match type : g.type, layout, isProduct with
    | .product items, layout, _ => cases layout
  | .project cs input, schema, _, infer => by
    obtain ⟨_, _, typed⟩ := schemaOf_project.1 infer
    intro c member isProduct
    rw [isProduct_of_columnsOf typed c member] at isProduct
    cases isProduct
  | .restrict _ input, schema, plan, infer => by
    rw [everywhere_restrict] at plan
    exact flatWidth_of_isProduct (q := input) plan.2.2 (schemaOf_restrict.1 infer).1
  | .combine op left right, schema, plan, infer => by
    rw [everywhere_combine] at plan
    obtain ⟨leftSchema, inferLeft, rightSchema, inferRight, combined⟩ := schemaOf_combine.1 infer
    have onLeft := flatWidth_of_isProduct plan.2.1 inferLeft
    have onRight := flatWidth_of_isProduct plan.2.2 inferRight
    cases op with
    | product =>
      obtain ⟨_, rfl⟩ := Schema.product_strict.1 combined
      exact List.forall_mem_append.2 ⟨onLeft, onRight⟩
    | quotient =>
      obtain ⟨_, rfl⟩ := Schema.quotient_eq_ok.1 combined
      exact fun c member => onLeft c (List.mem_filter.1 member).1
    | union | intersection | difference =>
      rw [Schema.eq_of_matching combined]
      exact onLeft
  | .grouping cs input, schema, _, infer => by
    obtain ⟨_, _, typed⟩ := schemaOf_grouping.1 infer
    intro c member isProduct
    rw [isProduct_of_columnsOf typed c member] at isProduct
    cases isProduct
  | .order _ input, schema, plan, infer => by
    rw [everywhere_order] at plan
    exact flatWidth_of_isProduct (q := input) plan.2.2 (schemaOf_order.1 infer).1
  | .top _ _ input, schema, plan, infer => by
    rw [everywhere_top] at plan
    exact flatWidth_of_isProduct (q := input) plan.2 (schemaOf_top.1 infer)

/-- A column has as many leaves as its type has columns, nullable products apart. -/
theorem length_leavesOf (fits : env.Fits x.capabilities True schema)
    (run : (q.flatten x.permissive).Yields s (flat, env) t) {c : Column}
    (member : c ∈ schema.columns)
    (products : c.2.isProduct = true → c.2.flatWidth = 1)
    (noNullableProduct : ∀ items, c.2 = .nullable (.product items) → c.2.flatWidth = 1) :
    (env.leavesOf c.1).length = c.2.flatWidth := by
  cases layout : c.2.layout? with
  | none =>
    rw [Environment.leavesOf_of_unbound (fits.unbound c member layout)]
    cases product : c.2.nonNull.isProduct with
    | false => exact (Ty.flatWidth_of_scalar layout product).symm
    | true =>
      suffices one : c.2.flatWidth = 1 from one.symm
      match type : c.2, product with
      | .product items, _ => exact type ▸ products (by rw [type]; rfl)
      | .nullable (.product items), _ => exact type ▸ noNullableProduct items type
  | some l =>
    obtain ⟨_, shape⟩ := fits.structured trivial c member l layout
    rw [Ty.flatWidth_of_layout? layout, Environment.leavesOf, ← Expr.length_leaves_of_shape shape]
    unfold Environment.resolve at shape ⊢
    cases found : env.find? c.1 with
    | none =>
      rw [found] at shape
      cases shape
    | some rep =>
      rw [Option.getD_some, (bindings_drawn run c.1 rep found).leaves, List.length_map]

/-- Columns that have as many leaves as their types have columns. -/
theorem length_flatMap_leavesOf {columns : List Column}
    (each : ∀ c ∈ columns, (env.leavesOf c.1).length = c.2.flatWidth) :
    ((columns.map Prod.fst).flatMap env.leavesOf).length =
      Ty.flatWidths (columns.map Prod.snd) := by
  induction columns with
  | nil => rfl
  | cons c columns ih =>
    rw [List.forall_mem_cons] at each
    rw [List.map_cons, List.map_cons, List.flatMap_cons, List.length_append, each.1, ih each.2,
      Ty.flatWidths]

/-- On an accepted plan without columns of nullable product types the flat form has as many columns
as the types have, and reification refuses the width of no row of it: only a layout may, on a slice
of its own width. -/
theorem flatWidth_of_flatten (plan : q.Everywhere x.measured)
    (accepted : q.checkSchema x.capabilities = .ok schema)
    (noNullableProduct : ∀ c ∈ schema.columns, ∀ items, c.2 = .nullable (.product items) →
      c.2.flatWidth = 1)
    (stem : s.names.stem = x.stem)
    (run : (q.flatten x.permissive).runFrom s = (.ok (flat, env), t)) :
    ∃ inferred, flat.inferSchema x.capabilities = .ok inferred ∧
      inferred.columns.length = schema.flatWidth ∧
      ∀ row : List Value, row.length = inferred.columns.length → ∀ expected actual,
        schema.reifyRow row = .error (.rowShape expected actual) →
          Ty.Refuses (Ty.layoutsOf schema.types) expected actual := by
  have flattens : x.Flattens q s flat env t := ⟨stem, run⟩
  have planInference := inferring_of_measured plan
  obtain ⟨inferred, infer⟩ := infers_of_flattens planInference accepted flattens
  have fits := flatten_fits q (fitting_of_measured plan) accepted flattens
  have inPlace := inPlace_of_flattens (inPlace_of_inferring planInference) accepted flattens
  have widths : inferred.columns.length = schema.flatWidth := by
    calc inferred.columns.length
      _ = inferred.names.length := (List.length_map _).symm
      _ = (schema.names.flatMap env.leavesOf).length := by
        rw [names_of_schemaOf infer, inPlace.columns, ← names_of_schemaOf accepted]
      _ = schema.flatWidth := length_flatMap_leavesOf fun c member =>
        length_leavesOf fits flattens.run member (flatWidth_of_isProduct plan accepted c member)
          (noNullableProduct c member)
  exact ⟨inferred, infer, widths,
    fun row length _ _ => Schema.refuses_of_reifyRow (length.trans widths)⟩

end Query

namespace Sample

theorem table_measured {name : String} {columns : List Column}
    (plain : ∀ c ∈ columns, '_' ∉ c.1.toList ∧ c.2.isStructured = false ∧ c.2.flatWidth = 1) :
    (Query.table name ⟨columns⟩).Everywhere session.measured := by
  rw [Query.everywhere_table]
  exact ⟨⟨Session.declares_names fun c member => (plain c member).1, trivial⟩,
    fun c member => (plain c member).2⟩

theorem galaxyP_measured : (Query.galaxy galaxyP).Everywhere session.measured := by
  rw [Query.everywhere_galaxy]
  refine ⟨⟨⟨Session.declares_of_noUnderscore (by decide), trivial⟩, rfl, personLayout, rfl, ?_⟩,
    table_measured (by decide)⟩
  intro s t flat env inferred flattens infer
  obtain ⟨rfl, _, _⟩ := Query.yields_flatten_table.1 flattens.run
  rw [Query.schemaOf_table.1 infer]
  rfl

theorem attr_measured (name : String) : (Expr.attr name).Everywhere session.measured :=
  (Expr.everywhere_attr name).2 ⟨⟨trivial, trivial⟩, trivial⟩

theorem number_measured (n : Int64) :
    (Expr.const .integer (.integer n)).Everywhere session.measured :=
  (Expr.everywhere_const _ _).2 ⟨⟨trivial, trivial⟩, fun l layout => (by cases layout)⟩

theorem nobody_measured : (Expr.null (.nullable personType)).Everywhere session.measured :=
  (Expr.everywhere_null _).2 ⟨⟨trivial, trivial⟩, fun _ => rfl⟩

theorem apply_measured {op : Operator} {args : List Expr} (standard : op ∈ Operator.standard)
    (each : ∀ e ∈ args, e.Everywhere session.measured) :
    (Expr.apply op args).Everywhere session.measured :=
  (Expr.everywhere_apply op args).2 ⟨⟨⟨trivial, trivial⟩, standard⟩, each⟩

theorem ada_measured : ada.Everywhere session.measured := by
  rw [ada, Expr.everywhere_const]
  refine ⟨⟨trivial, trivial⟩, fun l layout => ⟨rfl, fun e stored => ?_⟩⟩
  cases layout
  cases stored
  exact ⟨[(.string, .string "Ada"), (.string, .string "Lovelace")], rfl, rfl⟩

theorem isFirstAda_measured : isFirstAda.Everywhere session.measured := by
  refine apply_measured (by simp [Operator.standard]) ?_
  simp only [List.forall_mem_cons, List.not_mem_nil, false_implies, implies_true, and_true,
    Expr.everywhere_tuple]
  exact ⟨⟨⟨⟨trivial, trivial⟩, trivial⟩, attr_measured "p", attr_measured "a"⟩,
    ⟨⟨trivial, trivial⟩, trivial⟩, ada_measured, number_measured 1⟩

theorem rowsOfPeople_measured : rowsOfPeople.Everywhere session.measured := by
  rw [rowsOfPeople, Query.everywhere_restrict, Query.everywhere_combine]
  refine ⟨⟨⟨trivial, trivial⟩, trivial⟩, ?_, ⟨⟨trivial, Session.noCapture_galaxy⟩, trivial⟩,
    galaxyP_measured, table_measured (by decide)⟩
  exact apply_measured (by
    simp [Operator.standard]) (List.forall_mem_singleton.2 isFirstAda_measured)

theorem smallPerson_measured : smallPerson.Everywhere session.measured := by
  rw [smallPerson, Expr.everywhere_case, List.forall_mem_singleton]
  refine ⟨⟨⟨trivial, trivial⟩, trivial⟩,
    ⟨apply_measured (by simp [Operator.standard]) ?_, attr_measured "p"⟩, nobody_measured⟩
  simp only [List.forall_mem_cons, List.not_mem_nil, false_implies, implies_true, and_true]
  exact ⟨attr_measured "a", number_measured 3⟩

theorem headcount_measured : headcount.Everywhere session.measured := by
  rw [headcount, Query.everywhere_grouping, List.forall_mem_singleton, Expr.everywhere_aggregate]
  exact ⟨⟨⟨Session.declares_all (by decide), trivial⟩, trivial⟩,
    ⟨⟨⟨trivial, trivial⟩, trivial⟩, attr_measured "p"⟩, galaxyP_measured⟩

theorem persons_measured : persons.Everywhere session.measured := by
  simp only [persons, Query.everywhere_combine, Query.everywhere_project, List.forall_mem_cons,
    List.not_mem_nil, false_implies, implies_true, and_true, Expr.everywhere_scalarSubquery]
  exact ⟨⟨⟨trivial, trivial⟩, trivial⟩,
    ⟨⟨⟨Session.declares_all (by decide), by simp⟩, trivial⟩,
      ⟨smallPerson_measured, attr_measured "a"⟩, rowsOfPeople_measured⟩,
    ⟨⟨Session.declares_all (by decide), by simp⟩, trivial⟩,
    ⟨nobody_measured, ⟨⟨trivial, trivial⟩, trivial⟩, headcount_measured⟩,
    table_measured (by decide)⟩

theorem roster_measured : roster.Everywhere session.measured := by
  rw [roster, Query.everywhere_top, Query.everywhere_order, List.forall_mem_singleton]
  exact ⟨⟨⟨trivial, trivial⟩, trivial⟩, ⟨⟨trivial, trivial⟩, trivial⟩, attr_measured "n",
    persons_measured⟩

/-- The layout of people refuses no width. -/
theorem not_refuses_personLayout {expected actual : Nat} :
    ¬Ty.Refuses [personLayout] expected actual := by
  rintro ⟨l, member, slice, _, refused⟩
  cases List.mem_singleton.1 member
  simp only [personLayout] at refused
  split at refused <;> cases refused

theorem rosterSchema_noNullableProduct :
    ∀ c ∈ rosterSchema.columns, ∀ items, c.2 = .nullable (.product items) → c.2.flatWidth = 1 := by
  simp only [rosterSchema, List.forall_mem_cons, List.not_mem_nil, false_implies,
    implies_true, and_true]
  exact ⟨fun _ equal => (by cases equal), fun _ equal => (by cases equal)⟩

/-- Three columns come out of the roster, and a row of three values is read without complaint about
its length. -/
theorem roster_flatWidth : ∃ flat env t inferred,
    (roster.flatten session.permissive).runFrom start = (.ok (flat, env), t) ∧
      flat.inferSchema .empty = .ok inferred ∧ inferred.columns.length = 3 ∧
      ∀ row : List Value, row.length = 3 → ∀ expected actual,
        rosterSchema.reifyRow row ≠ .error (.rowShape expected actual) := by
  obtain ⟨inferred, infer, width, refused⟩ :=
    Query.flatWidth_of_flatten (x := session) (s := start) roster_measured roster_accepted
      rosterSchema_noNullableProduct rfl rfl
  exact ⟨_, _, _, inferred, rfl, infer, width, fun row length expected actual mismatch =>
    not_refuses_personLayout (refused row (length.trans width.symm) expected actual mismatch)⟩

/-- A column without a pair of numbers. -/
def nullPair : Query := .project [("x", .null (.nullable (.product [.integer, .integer])))] tableT

/-- An absent pair is one flat column, and reification takes it for two. -/
theorem nullPair_width :
    nullPair.checkSchema .empty = .ok ⟨[("x", .nullable (.product [.integer, .integer]))]⟩ ∧
    ∃ flat env t inferred, (nullPair.flatten session.permissive).runFrom start =
      (.ok (flat, env), t) ∧ flat.inferSchema .empty = .ok inferred ∧ inferred.columns.length = 1 ∧
      Schema.flatWidth ⟨[("x", .nullable (.product [.integer, .integer]))]⟩ = 2 ∧
      Schema.reifyRow ⟨[("x", .nullable (.product [.integer, .integer]))]⟩ [.null] =
        .error (.rowShape 2 1) :=
  ⟨rfl, _, _, _, _, rfl, rfl, rfl, rfl, rfl⟩

end Sample

end FlatPlan
