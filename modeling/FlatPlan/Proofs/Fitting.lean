import FlatPlan.Proofs.Applications

/-!
# Shapes that fit types

Types and flat values are computed apart from each other. A flat value fits a type if it is a scalar
where the type is neither structured nor a product, and, where an exact fit is asked for, a tuple of
as many scalars as the layout of a structured type has columns. Main statement: flattening an
accepted expression gives a value that fits its type, and an accepted query an environment that fits
its schema (`Fitting.cases`, `Query.flatten_fits`). Base types are known by their names here, as the
checks know them: two types that compare as the same may differ in their layouts.
-/

namespace FlatPlan

open Pass

/-- Whether a flat value of that shape may stand for a value of the type. -/
structure Ty.Fits (capabilities : Capabilities) (exact : Prop) (type : Ty)
    (shape : Shape) : Prop where
  scalar : type.layout? = none → type.isProduct = false → shape = .leaf
  structured : exact → ∀ l, type.layout? = some l →
    capabilities.isNumeric type = false ∧ shape = .tuple (List.replicate l.columns.length .leaf)

/-- Whether the flat form of every column of a schema fits its type; an unstructured column is its
own. -/
structure Environment.Fits (capabilities : Capabilities) (exact : Prop) (env : Environment)
    (schema : Schema) : Prop where
  unbound : ∀ c ∈ schema.columns, c.2.layout? = none → env.find? c.1 = none
  structured : exact → ∀ c ∈ schema.columns, ∀ l, c.2.layout? = some l →
    capabilities.isNumeric c.2 = false ∧
      (env.resolve c.1).shape = .tuple (List.replicate l.columns.length .leaf)

/-- Whether an application to values that fit their types fits the type of the application. -/
def Operator.Fitting (x : Session) (exact : Prop) (op : Operator) : Prop :=
  ∀ ⦃a : Application⦄ ⦃source : Option Query⦄ ⦃parts : List Flattened⦄ ⦃part : Flattened⦄ ⦃types :
    List Ty⦄ ⦃type : Ty⦄, a.op = op → op.range x.checked types = .ok type →
    List.Forall₂ (fun (e : Expr) (t : Ty) => t.Fits x.capabilities exact e.shape) a.args types →
    (∀ c ∈ a.columns, c.isTuple = false) → a.flatten x.rules source parts = .ok part →
    type.Fits x.capabilities exact part.expr.shape

namespace Session

variable (x : Session) (exact : Prop)

/-- No unstructured column of the right operand is bound on the left. -/
def NoShadow (left right : Query) : Prop :=
  ∀ {s t : PassState} {flat : Query} {env : Environment} {leftSchema rightSchema : Schema},
    x.Flattens left s flat env t → left.checkSchema x.capabilities = .ok leftSchema →
    right.checkSchema x.capabilities = .ok rightSchema →
    ∀ c ∈ rightSchema.columns, c.1 ∉ leftSchema.names → c.2.layout? = none → env.find? c.1 = none

/-- What the nodes of a plan keep to so that flat values fit types. -/
def fitting : NodeProperty where
  expr
    | .const type value =>
      exact → ∀ l, type.layout? = some l → x.capabilities.isNumeric type = false ∧
        ∀ e, Expr.flattenConst x.rules type value = .ok e →
          e.shape = .tuple (List.replicate l.columns.length .leaf)
    | .null type => exact → ∀ l, type.layout? = some l → x.capabilities.isNumeric type = false
    | .apply op _ => op.Fitting x exact
    | _ => True
  query
    | .table _ schema => ∀ c ∈ schema.columns, c.2.layout? = none
    | .galaxy g => g.type.isStructured = true ∧
        (exact → ∀ l, g.type.layout? = some l → x.capabilities.isNumeric g.type = false ∧
          ∀ {s t : PassState} {flat : Query} {env : Environment} {schema : Schema},
            x.Flattens g.query s flat env t → flat.inferSchema x.capabilities = .ok schema →
            schema.columns.length = l.columns.length)
    | .project columns _ => (columns.map Prod.fst).Nodup
    | .combine .product left right => x.NoShadow left right
    | _ => True

end Session

variable {x : Session} {exact : Prop} {schema : Schema} {env : Environment} {s t : PassState}

/-- Flattening the expression gives a value that fits its type. -/
def Expr.FlattensFitting (x : Session) (exact : Prop) (e : Expr) : Prop :=
  e.Everywhere (x.fitting exact) → ∀ {schema inferred : Schema} {env : Environment} {type : Ty}
    {s t : PassState} {part : Flattened}, env.Fits x.capabilities exact schema →
    e.typeOf x.checked schema = .ok type → s.names.stem = x.stem →
    (e.flatten x.permissive env inferred).Yields s part t →
      type.Fits x.capabilities exact part.expr.shape

/-- Flattening the query gives an environment that fits its schema. -/
def Query.FlattensFitting (x : Session) (exact : Prop) (q : Query) : Prop :=
  q.Everywhere (x.fitting exact) →
    ∀ {schema : Schema} {env : Environment} {s t : PassState} {flat : Query},
    q.schemaOf x.checked = .ok schema → x.Flattens q s flat env t →
      env.Fits x.capabilities exact schema

/-! ## Types -/

namespace Ty

variable {capabilities : Capabilities} {type : Ty} {shape : Shape}

/-- A scalar fits every unstructured type. -/
theorem fits_leaf (unstructured : exact → type.layout? = none) :
    type.Fits capabilities exact .leaf where
  scalar _ _ := rfl
  structured isExact l layout := by
    rw [unstructured isExact] at layout
    cases layout

/-- Where a scalar is an exact fit, the type is unstructured. -/
theorem Fits.layout?_of_leaf (h : type.Fits capabilities exact .leaf) (isExact : exact) :
    type.layout? = none := by
  cases layout : type.layout? with
  | none => rfl
  | some l => cases (h.structured isExact l layout).2

/-- Where the fit is exact, a scalar stands for no value of a structured type. -/
theorem Fits.layout?_of_noTuple {e : Expr} (h : type.Fits capabilities exact e.shape)
    (noTuple : e.isTuple = false) (isExact : exact) : type.layout? = none := by
  rw [Expr.shape_of_noTuple noTuple] at h
  exact h.layout?_of_leaf isExact

/-- A numeric type with an exact fit is unstructured. -/
theorem Fits.layout?_of_isNumeric (h : type.Fits capabilities exact shape) (isExact : exact)
    (numeric : capabilities.isNumeric type = true) : type.layout? = none := by
  cases layout : type.layout? with
  | none => rfl
  | some l =>
    rw [(h.structured isExact l layout).1] at numeric
    cases numeric

theorem exists_of_same_nullable {inner other : Ty} (h : (Ty.nullable inner).same other = true) :
    ∃ inner', other = .nullable inner' := by
  cases other with
  | nullable inner' => exact ⟨inner', rfl⟩
  | _ => cases h

/-- Only a product compares as the same as a product. -/
theorem exists_of_same_product {items : List Ty} {other : Ty}
    (h : (Ty.product items).same other = true) :
    ∃ items', other = .product items' := by
  cases other with
  | product items' => exact ⟨items', rfl⟩
  | _ => cases h

/-- The type that two types have in common with null fits what both fit. -/
theorem Fits.orNull {left right : Ty} (hl : left.Fits capabilities exact shape)
    (hr : right.Fits capabilities exact shape) (different : (left == right) = false)
    (same : (left.nonNull == right.nonNull) = true) :
    left.nonNull.orNull.Fits capabilities exact shape := by
  have different : left.same right = false := different
  have same : left.nonNull.same right.nonNull = true := same
  cases left with
  | nullable inner =>
    cases inner with
    | nullable deep =>
      -- such a type has the inner type in common with itself only
      obtain ⟨inner', equal⟩ := exists_of_same_nullable same
      cases right with
      | nullable other =>
        cases equal
        exact absurd same (by simpa [Ty.same, Ty.nonNull] using different)
      | _ => cases equal
    | _ => exact hl
  | product items =>
    obtain ⟨items', equal⟩ := exists_of_same_product same
    cases right with
    | nullable other =>
      cases equal
      exact ⟨fun _ _ => hr.scalar rfl rfl, fun _ _ layout => by cases layout⟩
    | product other => exact absurd same (by simpa [Ty.same, Ty.nonNull] using different)
    | _ => cases equal
  | base b =>
    exact ⟨fun layout _ => hl.scalar layout rfl,
      fun isExact l layout => hl.structured isExact l layout⟩
  | set member => exact ⟨fun _ _ => hl.scalar rfl rfl, fun _ _ layout => by cases layout⟩
  | boundedString limit => exact ⟨fun _ _ => hl.scalar rfl rfl, fun _ _ layout => by cases layout⟩

/-- The common type of two types fits what both fit. -/
theorem Fits.unify {left right : Ty} (hl : left.Fits capabilities exact shape)
    (hr : right.Fits capabilities exact shape) (h : x.checked.unify left right = .ok type) :
    type.Fits capabilities exact shape := by
  rcases (TypeCheck.unify_of_checked rfl).1 h with ⟨_, rfl⟩ | ⟨different, same, rfl⟩
  · exact hl
  · exact hl.orNull hr (by simpa using different) same

/-- The type of a choice fits what its default and all its results fit. -/
theorem Fits.caseType {branches : List (Ty × Ty)} {default : Ty}
    (hb : ∀ b ∈ branches, b.2.Fits capabilities exact shape)
    (hd : default.Fits capabilities exact shape)
    (h : x.checked.caseType branches default = .ok type) : type.Fits capabilities exact shape := by
  induction branches generalizing type with
  | nil =>
    cases h
    exact hd
  | cons branch branches ih =>
    rw [List.forall_mem_cons] at hb
    rw [Vocabulary.caseType_cons] at h
    simp only [bind_eq_ok] at h
    obtain ⟨rest, before, _, _, unified⟩ := h
    exact hb.1.unify (ih hb.2 before) unified

end Ty

/-- A value of the shape of a scalar is no tuple. -/
theorem Expr.isTuple_of_shape_leaf {e : Expr} (h : e.shape = .leaf) : e.isTuple = false := by
  cases e with
  | tuple items => cases h
  | _ => rfl

/-! ## Operators -/

namespace Operator

variable {op : Operator}

/-- An application whose flat form is no tuple fits its type, if the type is no structured one. -/
theorem fitting_of_noTuple
    (noTuple : ∀ {a : Application} {source : Option Query} {parts : List Flattened}
      {part : Flattened}, a.op = op → a.flatten x.rules source parts = .ok part →
      part.expr.isTuple = false)
    (unstructured : exact → ∀ {shapes : List Shape} {types : List Ty} {type : Ty},
      List.Forall₂ (fun shape (t : Ty) => t.Fits x.capabilities exact shape) shapes types →
      op.range x.checked types = .ok type → type.layout? = none) : op.Fitting x exact := by
  intro a source parts part types type own range fits _ flat
  rw [Expr.shape_of_noTuple (noTuple own flat)]
  have shapes : List.Forall₂ (fun shape (t : Ty) => t.Fits x.capabilities exact shape)
      (a.args.map Expr.shape) types := by
    rw [List.forall₂_map_left_iff]
    exact fits
  exact Ty.fits_leaf fun isExact => unstructured isExact shapes range

/-- An operator without a rule, or one that compares component by component, makes no tuples. -/
theorem isTuple_of_flatten
    (shape : op.flattening = .plain ∨ ∃ joiner, op.flattening = .componentwise joiner)
    {a : Application} {source : Option Query} {parts : List Flattened} {part : Flattened}
    (own : a.op = op)
    (flat : a.flatten x.rules source parts = .ok part) : part.expr.isTuple = false := by
  subst own
  rcases shape with plain | ⟨joiner, componentwise⟩
  · simp only [Application.flatten, plain] at flat
    cases flat
    rfl
  · simp only [Application.flatten, componentwise] at flat
    split at flat
    · simp only [bind_eq_ok, pure_eq_ok] at flat
      obtain ⟨e, compared, rfl⟩ := flat
      exact isTuple_compare compared
    · cases flat
      rfl

/-- An operator without a template that answers booleans fits. -/
theorem fitting_of_boolean
    (shape : op.flattening = .plain ∨ ∃ joiner, op.flattening = .componentwise joiner)
    (range : ∀ {types : List Ty} {type : Ty}, op.range x.checked types = .ok type →
      type = .boolean) :
    op.Fitting x exact := by
  refine fitting_of_noTuple (isTuple_of_flatten shape) fun _ _ _ type _ ranged => ?_
  rw [range ranged]
  rfl

/-- An arithmetic operator fits, since its type is numeric and so not structured. -/
theorem fitting_arithmetic (name : String) : (arithmetic name).Fitting x exact := by
  refine fitting_of_noTuple (isTuple_of_flatten (.inl rfl))
    fun isExact shapes types type fits range => ?_
  simp only [arithmetic, onTwo_eq_ok, bind_eq_ok, pure_eq_ok] at range
  obtain ⟨left, right, rfl, _, numeric, _, _, _, _, rfl⟩ := range
  cases fits with
  | cons first _ => exact first.layout?_of_isNumeric isExact (Session.require_checked.1 numeric)

theorem range_comparison {check : TypeCheck} {name : String} {types : List Ty} {type : Ty}
    (h : (comparison name).range check types = .ok type) : type = .boolean := by
  simp only [comparison, onTwo_eq_ok, bind_eq_ok] at h
  obtain ⟨_, _, _, _, _, rest⟩ := h
  split at rest
  · exact pure_eq_ok.1 rest
  · simp only [bind_eq_ok, pure_eq_ok] at rest
    obtain ⟨_, _, equal⟩ := rest
    exact equal

theorem range_logical {check : TypeCheck} {name : String} {types : List Ty} {type : Ty}
    (h : (logical name).range check types = .ok type) : type = .boolean := by
  simp only [logical, onTwo_eq_ok, bind_eq_ok, pure_eq_ok] at h
  obtain ⟨_, _, _, _, _, _, _, equal⟩ := h
  exact equal

theorem range_negation {check : TypeCheck} {types : List Ty} {type : Ty}
    (h : negation.range check types = .ok type) : type = .boolean := by
  match types with
  | [arg] =>
    simp only [negation, bind_eq_ok, pure_eq_ok] at h
    obtain ⟨_, _, equal⟩ := h
    exact equal
  | [] | _ :: _ :: _ => cases h

/-- The standard operators give values that fit. -/
theorem fitting_of_standard (h : op ∈ standard) : op.Fitting x exact := by
  simp only [standard, List.mem_append, List.mem_map, List.mem_singleton] at h
  rcases h with ((⟨name, _, rfl⟩ | ⟨name, _, rfl⟩) | ⟨name, _, rfl⟩) | rfl
  · exact fitting_arithmetic name
  · have form : (comparison name).flattening = .plain ∨
        ∃ joiner, (comparison name).flattening = .componentwise joiner := by
      rcases flattening_comparison name with plain | ⟨own, componentwise⟩
      · exact .inl plain
      · exact .inr ⟨logical own, componentwise⟩
    exact fitting_of_boolean form range_comparison
  · exact fitting_of_boolean (.inl rfl) range_logical
  · exact fitting_of_boolean (.inl rfl) range_negation

end Operator

/-! ## Constants -/

theorem Layout.shape_nulls (l : Layout) :
    l.nulls.shape = .tuple (List.replicate l.columns.length .leaf) := by
  rw [nulls, Expr.shape, Expr.shapes_of_noTuples, List.length_map]
  intro e member
  obtain ⟨c, _, rfl⟩ := List.mem_map.1 member
  rfl

/-- A reference to a column fits the type of the column. -/
theorem Environment.Fits.resolve {name : String} {type : Ty}
    (h : env.Fits x.capabilities exact schema) (found : schema.get? name = some type) :
    type.Fits x.capabilities exact (env.resolve name).shape where
  scalar unstructured _ := by
    rw [Environment.resolve, h.unbound _ (Schema.mem_of_get? found) unstructured, Option.getD_none]
    rfl
  structured isExact l layout := h.structured isExact _ (Schema.mem_of_get? found) l layout

/-! ## Expressions -/

namespace Fitting

variable {inferred : Schema} {type : Ty} {part : Flattened}

theorem attr (name : String) : (Expr.attr name).FlattensFitting x exact := by
  intro _ schema inferred env type s t part fits typed _ run
  obtain ⟨rfl, _⟩ := Expr.yields_flatten_attr.1 run
  exact fits.resolve (Expr.typeOf_attr.1 typed)

/-- What a constant is stored as fits its type, as the plan says. -/
theorem const (own : Ty) (value : Value) : (Expr.const own value).FlattensFitting x exact := by
  intro plan schema inferred env type s t part _ typed _ run
  rw [Expr.everywhere_const] at plan
  obtain ⟨e, flat, rfl, _⟩ := Expr.yields_flatten_const.1 run
  obtain rfl := Expr.typeOf_const.1 typed
  refine ⟨fun unstructured _ => ?_, fun isExact l layout => ?_⟩
  · rw [Expr.flattenConst, unstructured] at flat
    cases flat
    rfl
  · obtain ⟨notNumeric, shape⟩ := plan isExact l layout
    exact ⟨notNumeric, shape e flat⟩

theorem null (own : Ty) : (Expr.null own).FlattensFitting x exact := by
  intro plan schema inferred env type s t part _ typed _ run
  rw [Expr.everywhere_null] at plan
  obtain ⟨rfl, _⟩ := Expr.yields_flatten_null.1 run
  obtain rfl := Expr.typeOf_null.1 typed
  refine ⟨fun unstructured _ => ?_, fun isExact l layout => ⟨plan isExact l layout, ?_⟩⟩
  · rw [Flattened.plain, Expr.flattenNull, unstructured]
    rfl
  · rw [Flattened.plain, Expr.flattenNull, layout]
    exact l.shape_nulls

/-- The flat forms of the arguments fit their types. -/
theorem items {es : List Expr} {types : List Ty} {parts : List Flattened}
    (ih : ∀ e ∈ es, e.FlattensFitting x exact) (plan : ∀ e ∈ es, e.Everywhere (x.fitting exact))
    (fits : env.Fits x.capabilities exact schema)
    (typed : Expr.typesOf x.checked schema es = .ok types)
    (stem : s.names.stem = x.stem)
    (run : (Expr.flattenItems x.permissive env inferred es).Yields s parts t) :
    List.Forall₂ (fun (e : Expr) (type : Ty) => type.Fits x.capabilities exact e.shape)
      (parts.map (·.expr)) types := by
  rw [List.forall₂_map_left_iff]
  refine forall₂_of_common (Expr.flattenItems_within run) (Expr.typesOf_eq_ok.1 typed) ?_
  intro e member part type within typed
  obtain ⟨u, w, stem, run⟩ := within.exists_run stem
  exact ih e member (plan e member) fits typed stem run

/-- A flat application fits its type, since its operator does. -/
theorem apply (op : Operator) (args : List Expr) (ih : ∀ e ∈ args, e.FlattensFitting x exact) :
    (Expr.apply op args).FlattensFitting x exact := by
  intro plan schema inferred env type s t part fits typed stem run
  rw [Expr.everywhere_apply] at plan
  obtain ⟨types, typedArgs, range⟩ := Expr.typeOf_apply.1 typed
  obtain ⟨parts, u, argTypes, joined, runArgs, join, flat⟩ := Expr.exists_application run
  have fitting : op.Fitting x exact := plan.1
  refine fitting rfl range (items ih plan.2 fits typedArgs stem runArgs) (fun c member => ?_) flat
  rcases Operator.joinSource_cases join with ⟨rfl, _⟩ | ⟨_, _, _, _, _, _, _, _, _, _, rfl, _⟩
  · cases member
  · obtain ⟨name, _, rfl⟩ := List.mem_map.1 member
    rfl

/-- A tuple fits every product. -/
theorem tuple (es : List Expr) : (Expr.tuple es).FlattensFitting x exact := by
  intro _ schema inferred env type s t part _ typed _ _
  obtain ⟨types, _, rfl⟩ := Expr.typeOf_tuple.1 typed
  exact ⟨fun _ noProduct => (by cases noProduct), fun _ _ layout => (by cases layout)⟩

/-- An aggregation of a value of a structured type is refused, except for a count. -/
theorem aggregate (fn : Aggregate) (arg : Expr) (ih : arg.FlattensFitting x exact) :
    (Expr.aggregate fn arg).FlattensFitting x exact := by
  intro plan schema inferred env type s t part fits typed stem run
  rw [Expr.everywhere_aggregate] at plan
  obtain ⟨argType, typedArg, range⟩ := Expr.typeOf_aggregate.1 typed
  obtain ⟨flatArg, e, runArg, flat, rfl⟩ := Expr.yields_flatten_aggregate.1 run
  have fitsArg := ih plan.2 fits typedArg stem runArg
  obtain ⟨_, _, rfl⟩ := Aggregate.range_eq_ok.1 range
  unfold Expr.flattenAggregate at flat
  split at flat
  case isTrue count =>
    subst count
    split at flat <;> cases flat
    exact Ty.fits_leaf fun _ => rfl
  case isFalse =>
    split at flat
    case isTrue => cases flat
    case isFalse noTuple =>
      cases flat
      refine Ty.fits_leaf fun isExact => ?_
      have unstructured := fitsArg.layout?_of_noTuple (by simpa using noTuple) isExact
      cases fn <;> first | rfl | exact unstructured

/-- A flat choice fits its type: all its results have the shape of the default. -/
theorem case (bs : List (Expr × Expr)) (default : Expr)
    (ihb : ∀ b ∈ bs, b.1.FlattensFitting x exact ∧ b.2.FlattensFitting x exact)
    (ihd : default.FlattensFitting x exact) : (Expr.case bs default).FlattensFitting x exact := by
  intro plan schema inferred env type s t part fits typed stem run
  rw [Expr.everywhere_case] at plan
  obtain ⟨types, typedBranches, defaultType, typedDefault, chosen⟩ := Expr.typeOf_case.1 typed
  obtain ⟨parts, u, runBranches, last, e, runDefault, flat, rfl⟩ := Expr.yields_flatten_case.1 run
  have leads := Expr.flattenBranches_leads runBranches
  have fitsDefault := ihd plan.2.2 fits typedDefault (leads.stem.trans stem) runDefault
  obtain ⟨same, rfl⟩ := Expr.flattenCase_eq_ok.1 flat
  have shape : (Expr.distribute (parts.map (·.1.expr)) last.expr (parts.map (·.2.expr))).shape =
      last.expr.shape := Expr.shape_distribute same
  have results : List.Forall₂ (fun part (type : Ty × Ty) =>
      type.2.Fits x.capabilities exact (part : Flattened × Flattened).2.expr.shape)
        parts types := by
    refine forall₂_of_common (Expr.flattenBranches_within runBranches)
      (Expr.branchTypesOf_eq_ok.1 typedBranches) ?_
    intro b member part type within typed
    obtain ⟨u, w, stem, run⟩ := within.2.2.exists_run stem
    exact (ihb b member).2 (plan.2.1 b member).2 fits typed.2 stem run
  change type.Fits x.capabilities exact (Expr.distribute _ _ _).shape
  rw [shape]
  refine Ty.Fits.caseType (fun b member => ?_) fitsDefault chosen
  obtain ⟨part, among, fits⟩ := exists_of_mem_right results member
  rw [same _ (List.mem_map.2 ⟨part, among, rfl⟩)] at fits
  exact fits

/-- The only column of a subquery stays a scalar, so an exact fit leaves it unstructured. -/
theorem layout?_of_subquery {query flat : Query} (ih : query.FlattensFitting x exact)
    (plan : query.Everywhere (x.fitting exact)) {inner : Schema}
    (infer : query.schemaOf x.checked = .ok inner)
    {name : String} (only : inner.columns = [(name, type)]) (stem : s.names.stem = x.stem)
    (run : (query.flattenSubquery x.permissive (query.flatten x.permissive)).Yields s flat t)
    (isExact : exact) : type.layout? = none := by
  obtain ⟨known, inferred, env, runQuery, scalar⟩ := Query.yields_flattenSubquery.1 run
  have fits := ih plan infer ⟨stem, runQuery⟩
  have names : known.names = [name] := by
    rw [Query.names_of_schemaOf inferred, ← Query.names_of_schemaOf infer, Schema.names, only]
    rfl
  cases layout : type.layout? with
  | none => rfl
  | some l =>
    obtain ⟨_, shape⟩ := fits.structured isExact (name, type) (by simp [only]) l layout
    obtain ⟨c, member, equal⟩ := List.mem_map.1 (show name ∈ known.columns.map Prod.fst by
      rw [← Schema.names, names]; exact List.mem_singleton.2 rfl)
    have unbound := List.any_eq_false.1 scalar c member
    rw [equal] at unbound
    unfold Environment.resolve at shape
    cases found : env.find? name with
    | none =>
      rw [found] at shape
      cases shape
    | some rep =>
      rw [found] at shape unbound
      have noTuple : rep.isTuple = false := by simpa using unbound
      rw [Option.getD_some, Expr.shape_of_noTuple noTuple] at shape
      cases shape

/-- A scalar subquery is a scalar, and its only column is not bound to a tuple. -/
theorem scalarSubquery (query : Query) (ih : query.FlattensFitting x exact) :
    (Expr.scalarSubquery query).FlattensFitting x exact := by
  intro plan schema inferred env type s t part _ typed stem run
  rw [Expr.everywhere_scalarSubquery] at plan
  obtain ⟨inner, infer, only⟩ := Expr.typeOf_scalarSubquery.1 typed
  obtain ⟨name, only⟩ := Schema.onlyType_eq_ok.1 only
  obtain ⟨flat, runQuery, rfl⟩ := Expr.yields_flatten_scalarSubquery.1 run
  exact Ty.fits_leaf (layout?_of_subquery ih plan.2 infer only stem runQuery)

theorem setSubquery (query : Query) : (Expr.setSubquery query).FlattensFitting x exact := by
  intro _ schema inferred env type s t part _ typed _ run
  obtain ⟨inner, _, member, _, rfl⟩ := Expr.typeOf_setSubquery.1 typed
  obtain ⟨flat, _, rfl⟩ := Expr.yields_flatten_setSubquery.1 run
  exact Ty.fits_leaf fun _ => rfl

/-! ## Queries -/

theorem empty : Query.empty.FlattensFitting x exact := by
  intro _ schema env s t flat infer _
  obtain rfl := Query.schemaOf_empty.1 infer
  exact ⟨fun _ member => (by cases member), fun _ _ member => (by cases member)⟩

theorem table (name : String) (own : Schema) : (Query.table name own).FlattensFitting x exact := by
  intro plan schema env s t flat infer flattens
  rw [Query.everywhere_table] at plan
  have unstructured : ∀ c ∈ own.columns, c.2.layout? = none := plan
  obtain rfl := Query.schemaOf_table.1 infer
  obtain ⟨_, rfl, _⟩ := Query.yields_flatten_table.1 flattens.run
  refine ⟨fun _ _ _ => rfl, fun _ c member l layout => ?_⟩
  rw [unstructured c member] at layout
  cases layout

/-- The column of a galaxy is bound to as many references as its layout has columns. -/
theorem galaxy (g : Galaxy) : (Query.galaxy g).FlattensFitting x exact := by
  intro plan schema env s t flat infer flattens
  rw [Query.everywhere_galaxy] at plan
  obtain ⟨⟨structured, width⟩, _⟩ := plan
  obtain rfl := Query.schemaOf_galaxy.1 infer
  obtain ⟨underlying, _, u, known, renamed, run, inferred, _, equal, _⟩ :=
    Query.yields_flatten_galaxy.1 flattens.run
  cases equal
  have only : ∀ c ∈ g.schema.columns, c = (g.name, g.type) := fun c => List.mem_singleton.1
  constructor
  · intro c member unstructured
    rw [only c member] at unstructured
    rw [Ty.isStructured_eq_false.2 unstructured] at structured
    cases structured
  · intro isExact c member l layout
    rw [only c member] at layout ⊢
    obtain ⟨notNumeric, widths⟩ := width isExact l layout
    refine ⟨notNumeric, ?_⟩
    rw [Environment.resolve, NameMap.find?_insert_self, Option.getD_some, Expr.shape,
      Expr.shapes_of_noTuples, List.length_map, PassState.length_block,
      widths ⟨flattens.stem, run⟩ inferred]
    intro e among
    obtain ⟨name, _, rfl⟩ := List.mem_map.1 among
    rfl

/-- The columns of a projection are bound to references of the shape of what they compute. -/
theorem columns {cs : List (String × Expr)} {ds : List Column} {outputs : List OutputColumn}
    (ih : ∀ c ∈ cs, c.2.FlattensFitting x exact) (plan : ∀ c ∈ cs, c.2.Everywhere (x.fitting exact))
    (fits : env.Fits x.capabilities exact schema)
    (typed : List.Forall₂ (Query.ColumnOf x.checked schema false) cs ds)
    (stem : s.names.stem = x.stem)
    (run : (Query.flattenColumns x.permissive env inferred cs).Yields s outputs t) :
    List.Forall₂ (fun (o : OutputColumn) (d : Column) => o.name = d.1 ∧ d.2.isProduct = false ∧
      ∃ e : Expr, d.2.Fits x.capabilities exact e.shape ∧ ((e.isTuple = false ∧ o.refs = none) ∨
        (e.isTuple = true ∧ ∃ refs, o.refs = some refs ∧ refs.shape = e.shape))) outputs ds := by
  refine forall₂_of_common (Query.flattenColumns_within run) typed ?_
  rintro c member o d ⟨part, within, _, _, _, output, _⟩ column
  obtain ⟨u, w, stem, run⟩ := within.exists_run stem
  have carries := OutputColumn.carries_of_yields output
  have noProduct : d.2.isProduct = false := by
    simpa using Session.require_checked.1 column.noProduct
  exact ⟨carries.named.trans column.name.symm, noProduct, part.expr,
    ih c member (plan c member) fits column.typed stem run, carries.refs⟩

/-- The columns of a projection fit, and a name that is declared anew loses its old binding. -/
theorem project (cs : List (String × Expr)) (input : Query)
    (ihc : ∀ c ∈ cs, c.2.FlattensFitting x exact) (ih : input.FlattensFitting x exact) :
    (Query.project cs input).FlattensFitting x exact := by
  intro plan schema env s t flat infer flattens
  rw [Query.everywhere_project] at plan
  obtain ⟨distinct, planColumns, planInput⟩ := plan
  have distinct : (cs.map Prod.fst).Nodup := distinct
  obtain ⟨inner, inferInput, typed⟩ := Query.schemaOf_project.1 infer
  obtain ⟨flatInput, envInput, u, runInput, inferred, _, outputs, runColumns, rfl, rfl⟩ :=
    Query.yields_flatten_project.1 flattens.run
  have flattensInput : x.Flattens input s flatInput envInput u := ⟨flattens.stem, runInput⟩
  have each :=
    columns ihc planColumns (ih planInput inferInput flattensInput) (Query.columnsOf_eq_ok.1 typed)
      (flattensInput.leads.stem.trans flattens.stem) runColumns
  have names : outputs.map (·.name) = cs.map Prod.fst := Query.names_of_flattenColumns runColumns
  -- the aliases of a projection leave its own columns alone
  have found : ∀ o ∈ outputs,
      (OutputColumn.withAliases cs envInput (OutputColumn.bindings outputs)).find?
        o.name = o.refs := by
    intro o member
    rw [OutputColumn.find?_withAliases (names ▸ List.mem_map.2 ⟨o, member, rfl⟩)]
    exact OutputColumn.find?_bindings (names ▸ distinct) member
  constructor
  · intro d member unstructured
    obtain ⟨o, among, name, noProduct, e, fits, refs⟩ := exists_of_mem_right each member
    rw [← name, found o among]
    rcases refs with ⟨_, none⟩ | ⟨isTuple, _⟩
    · exact none
    · rw [Expr.isTuple_of_shape_leaf (fits.scalar unstructured noProduct)] at isTuple
      cases isTuple
  · intro isExact d member l layout
    obtain ⟨o, among, name, _, e, fits, refs⟩ := exists_of_mem_right each member
    obtain ⟨notNumeric, shape⟩ := fits.structured isExact l layout
    refine ⟨notNumeric, ?_⟩
    rw [← name, Environment.resolve, found o among]
    rcases refs with ⟨noTuple, _⟩ | ⟨_, refs, bound, same⟩
    · rw [Expr.shape_of_noTuple noTuple] at shape
      cases shape
    · rw [bound, Option.getD_some, same, shape]

/-- The columns of a grouping stay scalars. -/
theorem grouping (cs : List (String × Expr)) (input : Query)
    (ihc : ∀ c ∈ cs, c.2.FlattensFitting x exact) (ih : input.FlattensFitting x exact) :
    (Query.grouping cs input).FlattensFitting x exact := by
  intro plan schema env s t flat infer flattens
  rw [Query.everywhere_grouping] at plan
  obtain ⟨_, planColumns, planInput⟩ := plan
  obtain ⟨inner, inferInput, typed⟩ := Query.schemaOf_grouping.1 infer
  obtain ⟨flatInput, envInput, u, runInput, inferred, _, flats, runGroups, rfl, rfl⟩ :=
    Query.yields_flatten_grouping.1 flattens.run
  have flattensInput : x.Flattens input s flatInput envInput u := ⟨flattens.stem, runInput⟩
  have fits := ih planInput inferInput flattensInput
  have stem : u.names.stem = x.stem := flattensInput.leads.stem.trans flattens.stem
  have unstructured : exact →
      List.Forall₂ (fun _ (d : Column) => d.2.layout? = none) flats schema.columns := by
    intro isExact
    refine forall₂_of_common (Query.flattenGroups_within runGroups)
      (Query.columnsOf_eq_ok.1 typed) ?_
    rintro c member f d ⟨part, within, noTuple, _⟩ column
    obtain ⟨w, w', stem, run⟩ := within.exists_run stem
    exact (ihc c member (planColumns c member) fits column.typed stem run).layout?_of_noTuple
      noTuple isExact
  refine ⟨fun _ _ _ => rfl, fun isExact d member l layout => ?_⟩
  obtain ⟨_, _, none⟩ := exists_of_mem_right (unstructured isExact) member
  rw [none] at layout
  cases layout

theorem restrict (predicate : Expr) (input : Query) (ih : input.FlattensFitting x exact) :
    (Query.restrict predicate input).FlattensFitting x exact := by
  intro plan schema env s t flat infer flattens
  rw [Query.everywhere_restrict] at plan
  obtain ⟨flatInput, u, _, _, runInput, _, _, _⟩ := Query.yields_flatten_restrict.1 flattens.run
  exact ih plan.2.2 (Query.schemaOf_restrict.1 infer).1 ⟨flattens.stem, runInput⟩

theorem order (keys : List (Expr × Direction)) (input : Query)
    (ih : input.FlattensFitting x exact) :
    (Query.order keys input).FlattensFitting x exact := by
  intro plan schema env s t flat infer flattens
  rw [Query.everywhere_order] at plan
  obtain ⟨flatInput, u, _, _, runInput, _, _, _⟩ := Query.yields_flatten_order.1 flattens.run
  exact ih plan.2.2 (Query.schemaOf_order.1 infer).1 ⟨flattens.stem, runInput⟩

theorem top (offset count : UInt64) (input : Query) (ih : input.FlattensFitting x exact) :
    (Query.top offset count input).FlattensFitting x exact := by
  intro plan schema env s t flat infer flattens
  rw [Query.everywhere_top] at plan
  obtain ⟨flatInput, runInput, _⟩ := Query.yields_flatten_top.1 flattens.run
  exact ih plan.2 (Query.schemaOf_top.1 infer) ⟨flattens.stem, runInput⟩

/-! ## Combinations -/

variable {left right : Query} {leftEnv rightEnv : Environment} {leftSchema rightSchema : Schema}

/-- Columns that are bound as in an environment that fits fit as they do there. -/
theorem fits_of_find? {other : Schema} (fits : leftEnv.Fits x.capabilities exact other)
    (same : ∀ c ∈ schema.columns, c ∈ other.columns ∧ env.find? c.1 = leftEnv.find? c.1) :
    env.Fits x.capabilities exact schema where
  unbound c member unstructured := by
    rw [(same c member).2]
    exact fits.unbound c (same c member).1 unstructured
  structured isExact c member l layout := by
    rw [Environment.resolve, (same c member).2]
    exact fits.structured isExact c (same c member).1 l layout

/-- A product binds the columns of the left as the left does, and a structured one of the right as
the right does; an unstructured one of the right must not be bound on the left. -/
theorem product (fitsLeft : leftEnv.Fits x.capabilities exact leftSchema)
    (fitsRight : rightEnv.Fits x.capabilities exact rightSchema)
    (apart : leftSchema.Apart rightSchema)
    (noShadow : ∀ c ∈ rightSchema.columns, c.1 ∉ leftSchema.names → c.2.layout? = none →
      leftEnv.find? c.1 = none)
    (bound : ∀ name, env.find? name = if name ∈ leftSchema.names then leftEnv.find? name
      else (rightEnv.find? name).or (leftEnv.find? name)) :
    env.Fits x.capabilities exact ⟨leftSchema.columns ++ rightSchema.columns⟩ := by
  have onLeft : ∀ c ∈ leftSchema.columns, env.find? c.1 = leftEnv.find? c.1 := by
    intro c member
    rw [bound, if_pos (Schema.mem_names_of_mem member)]
  have onRight : ∀ c ∈ rightSchema.columns, env.find? c.1 = (rightEnv.find? c.1).or
      (leftEnv.find? c.1) := by
    intro c member
    rw [bound, if_neg (apart.disjoint c member)]
  constructor
  · intro c member unstructured
    rcases List.mem_append.1 member with member | member
    · rw [onLeft c member]
      exact fitsLeft.unbound c member unstructured
    · rw [onRight c member, fitsRight.unbound c member unstructured,
        noShadow c member (apart.disjoint c member) unstructured]
      rfl
  · intro isExact c member l layout
    rcases List.mem_append.1 member with member | member
    · rw [Environment.resolve, onLeft c member]
      exact fitsLeft.structured isExact c member l layout
    · obtain ⟨notNumeric, shape⟩ := fitsRight.structured isExact c member l layout
      refine ⟨notNumeric, ?_⟩
      rw [Environment.resolve, onRight c member]
      rw [Environment.resolve] at shape
      cases found : rightEnv.find? c.1 with
      | none =>
        rw [found] at shape
        cases shape
      | some rep =>
        rw [found] at shape
        exact shape

/-- The columns of a combination fit. Where the left binds a name that the right declares as a
scalar, the plan is ruled out. -/
theorem combine (op : CombineOp) (left right : Query) (ihl : left.FlattensFitting x exact)
    (ihr : right.FlattensFitting x exact) :
    (Query.combine op left right).FlattensFitting x exact := by
  intro plan schema env s t flat infer flattens
  rw [Query.everywhere_combine] at plan
  obtain ⟨node, planLeft, planRight⟩ := plan
  obtain ⟨leftSchema, inferLeft, rightSchema, inferRight, combined⟩ :=
    Query.schemaOf_combine.1 infer
  have namesLeft := Query.names_of_schemaOf inferLeft
  have namesRight := Query.names_of_schemaOf inferRight
  obtain ⟨flatLeft, leftEnv, u, flatRight, rightEnv, flattensLeft, flattensRight, rest⟩ :=
    Query.combined_of_flattens flattens
  have fitsLeft := ihl planLeft inferLeft flattensLeft
  have fitsRight := ihr planRight inferRight flattensRight
  cases op with
  | product =>
    obtain ⟨apart, rfl⟩ := Schema.product_strict.1 combined
    obtain ⟨_, bound⟩ := rest.product_eq
    have noShadow : x.NoShadow left right := node
    exact product fitsLeft fitsRight apart (noShadow flattensLeft inferLeft inferRight)
      (namesLeft ▸ bound)
  | quotient =>
    obtain ⟨_, rfl⟩ := Schema.quotient_eq_ok.1 combined
    refine fits_of_find? fitsLeft fun c member => ?_
    obtain ⟨onLeft, keep⟩ := List.mem_filter.1 member
    have absent : c.1 ∉ rightSchema.names := Schema.contains_eq_false.1 (by simpa using keep)
    exact ⟨onLeft, by rw [rest.find?_quotient, if_neg (namesRight ▸ absent)]⟩
  | union | intersection | difference =>
    obtain ⟨_, _, same⟩ := rest.setOperation_eq (by simp) (by simp)
    rw [Schema.eq_of_matching combined]
    exact fits_of_find? fitsLeft fun c member => ⟨member, same c.1⟩

/-- Flat values fit their types, node by node. -/
theorem cases : Plan.Cases (Expr.FlattensFitting x exact) (Query.FlattensFitting x exact) where
  attr := attr
  const := const
  null := null
  apply op args _ ih := apply op args ih
  tuple items _ := tuple items
  aggregate := aggregate
  multiAggregate _ _ _ _ _ _ _ _ _ _ _ _ _ _ run :=
    (Expr.not_yields_flatten_multiAggregate run).elim
  case := case
  scalarSubquery := scalarSubquery
  setSubquery query _ := setSubquery query
  empty := empty
  table := table
  galaxy g _ := galaxy g
  project := project
  restrict predicate input _ ih := restrict predicate input ih
  combine := combine
  grouping := grouping
  order keys input _ ih := order keys input ih
  top := top

end Fitting

/-- Flattening an accepted query gives an environment that fits its schema. -/
theorem Query.flatten_fits (q : Query) : q.FlattensFitting x exact := (Fitting.cases).query q

end FlatPlan
