import FlatPlan.Proofs.FlatQuery
import FlatPlan.Proofs.Shapes

/-!
# Expressions that flatten

Flattening does not fail on an accepted plan that stays inside what it supports
(`Vocabulary.supported`). The induction goes along with the shapes: a flat expression has the shape
of its type, so comparisons and choices find operands of one shape. Here are the cases for the forms
of expressions.
-/

namespace FlatPlan

open Pass

namespace Vocabulary

variable (v : Vocabulary)

/-- No column of the query is structured. -/
def Unstructured (q : Query) : Prop :=
  ∀ {schema : Schema}, q.checkSchema v.capabilities = .ok schema →
    ∀ c ∈ schema.columns, c.2.isStructured = false

/-- Every column of the right operand is one of the left. -/
def Covers (left right : Query) : Prop :=
  ∀ {leftSchema rightSchema : Schema}, left.checkSchema v.capabilities = .ok leftSchema →
    right.checkSchema v.capabilities = .ok rightSchema →
    ∀ name ∈ rightSchema.names, name ∈ leftSchema.names

/-- What flattening supports: no aggregation of several arguments, no empty tuples, only constants
that belong to their types, no products in their place, and no structured columns where a scalar is
needed. -/
def supported : NodeProperty where
  expr
    | .const type value => type.nonNull.isProduct = false ∧ type.isMember value = true
    | .null type => type.nonNull.isProduct = false
    | .tuple items => items ≠ []
    | .multiAggregate _ _ => False
    | .scalarSubquery q => v.Unstructured q
    | .setSubquery q => v.Unstructured q
    | _ => True
  query
    | .grouping columns input => v.Unstructured (.grouping columns input)
    | .combine .quotient left right => v.Covers left right
    | _ => True

end Vocabulary

/-- A schema without products, with or without null, and how it is read over flat rows. -/
structure Ground (v : Vocabulary) (schema : Schema) (env : Environment) (rows : Schema) : Prop
    extends Scope v schema env rows where
  noProduct : ∀ c ∈ schema.columns, c.2.nonNull.isProduct = false

/-- Flattening the expression gives a value of the shape of its type. -/
def Expr.Progresses (v : Vocabulary) (e : Expr) : Prop :=
  ∀ {schema rows : Schema} {env : Environment} {type : Ty} {s : PassState}, e.Everywhere v.plan →
    e.Everywhere v.supported → Ground v schema env rows → e.typeOf v.checked schema = .ok type →
    s.names.stem = v.stem →
    type.Settled ∧ ∃ part t, (e.flatten v.permissive env schema).Yields s part t ∧
      part.expr.shape = type.shape

/-- Flattening the query gives a result, and no column of the query is a product. -/
def Query.Progresses (v : Vocabulary) (q : Query) : Prop :=
  ∀ {schema : Schema} {s : PassState}, q.Everywhere v.plan → q.Everywhere v.supported →
    q.schemaOf v.checked = .ok schema → s.names.stem = v.stem →
    (∀ c ∈ schema.columns, c.2.nonNull.isProduct = false) ∧
      ∃ flat env t, (q.flatten v.permissive).Yields s (flat, env) t

variable {v : Vocabulary} {schema rows : Schema} {env : Environment} {s t : PassState}

namespace Progress

/-- A run on an expression of a type that is no product gives a value of the shape of the type. -/
theorem of_run (columns : v.HasColumns) {e : Expr} {type : Ty}
    (plan : e.Everywhere v.plan) (ground : Ground v schema env rows)
    (typed : e.typeOf v.checked schema = .ok type) (stem : s.names.stem = v.stem)
    (noProduct : type.nonNull.isProduct = false)
    (run : ∃ part t, (e.flatten v.permissive env schema).Yields s part t) :
    type.Settled ∧
      ∃ part t, (e.flatten v.permissive env schema).Yields s part t ∧
        part.expr.shape = type.shape := by
  obtain ⟨part, t, run⟩ := run
  have named := (Expr.typeOf_permissive (Expr.wording_of_plan plan) ground.named typed).1
  have stands := Expr.flatten_stands False plan ground.toScope typed False.elim stem run
  exact ⟨Ty.settled_of_noProduct columns named noProduct, part, t, run,
    stands.represents.shape_of_noProduct named (Ty.isProduct_of_nonNull noProduct)⟩

/-- A reference flattens. -/
theorem attr (columns : v.HasColumns) (name : String) : (Expr.attr name).Progresses v := by
  intro schema rows env type s plan _ ground typed stem
  have noProduct := ground.noProduct _ (Schema.mem_of_get? (Expr.typeOf_attr.1 typed))
  exact of_run columns plan ground typed stem noProduct
    ⟨.plain (env.resolve name), s, Expr.yields_flatten_attr.2 ⟨rfl, rfl⟩⟩

/-- A member of its type has a flat form. -/
theorem flattenConst_of_member {own : Ty} {value : Value} (named : v.Names own)
    (member : own.isMember value = true) : ∃ e, Expr.flattenConst v.rules own value = .ok e := by
  simp only [Expr.flattenConst_eq_ok]
  cases layout : own.layout? with
  | none => exact ⟨_, .inl ⟨rfl, rfl⟩⟩
  | some l =>
    cases null : value.isNull with
    | true => exact ⟨l.nulls, .inr ⟨l, rfl, .inl ⟨rfl, rfl⟩⟩⟩
    | false =>
      obtain ⟨values, _, stored⟩ := v.stored_of_isMember named layout null member
      exact ⟨_, .inr ⟨l, rfl, .inr ⟨rfl, stored⟩⟩⟩

/-- A constant flattens, since its type stores it. -/
theorem const (columns : v.HasColumns) (own : Ty) (value : Value) :
    (Expr.const own value).Progresses v := by
  intro schema rows env type s plan supported ground typed stem
  have node := Expr.everywhere_const own value |>.1 plan
  rw [Expr.everywhere_const] at supported
  obtain ⟨e, flat⟩ := flattenConst_of_member node.1.1 supported.2
  have noProduct : type.nonNull.isProduct = false := by
    rw [Expr.typeOf_const.1 typed]
    exact supported.1
  exact of_run columns plan ground typed stem noProduct
    ⟨.plain e, s, Expr.yields_flatten_const.2 ⟨e, flat, rfl, rfl⟩⟩

theorem null (columns : v.HasColumns) (own : Ty) : (Expr.null own).Progresses v := by
  intro schema rows env type s plan supported ground typed stem
  rw [Expr.everywhere_null] at supported
  have noProduct : type.nonNull.isProduct = false := by
    rw [Expr.typeOf_null.1 typed]
    exact supported
  exact of_run columns plan ground typed stem noProduct
    ⟨.plain (Expr.flattenNull own), s, Expr.yields_flatten_null.2 ⟨rfl, rfl⟩⟩

/-- Expressions that are typed flatten one after the other. -/
theorem items {es : List Expr} {types : List Ty} (ih : ∀ e ∈ es, e.Progresses v)
    (plan : ∀ e ∈ es, e.Everywhere v.plan) (supported : ∀ e ∈ es, e.Everywhere v.supported)
    (ground : Ground v schema env rows) (typed : Expr.typesOf v.checked schema es = .ok types)
    (stem : s.names.stem = v.stem) :
    (∀ type ∈ types, type.Settled) ∧ ∃ parts t,
      (Expr.flattenItems v.permissive env schema es).Yields s parts t ∧
        Expr.shapes (parts.map (·.expr)) = Ty.shapes types := by
  rw [Expr.typesOf_eq_ok] at typed
  induction typed generalizing s with
  | nil =>
    exact ⟨fun _ member => (nomatch member), [], s, Expr.yields_flattenItems_nil.2 ⟨rfl, rfl⟩, rfl⟩
  | @cons e type es types first rest ihs =>
    rw [List.forall_mem_cons] at ih plan supported
    obtain ⟨settled, part, u, head, shape⟩ := ih.1 plan.1 supported.1 ground first stem
    have leads := (e.flatten_advances v.permissive env schema).leads head
    obtain ⟨allSettled, parts, t, tail, shapes⟩ :=
      ihs ih.2 plan.2 supported.2 (leads.stem.trans stem)
    refine ⟨List.forall_mem_cons.2 ⟨settled, allSettled⟩, part :: parts, t, ?_, ?_⟩
    · exact Expr.yields_flattenItems_cons.2 ⟨part, u, head, parts, tail, rfl⟩
    · rw [List.map_cons, Expr.shapes, shape, shapes, Ty.shapes]

/-- The arguments of an equality comparison have one shape, so they can be compared. -/
theorem equality {name joiner : String} {left right : Ty} {parts : List Flattened}
    (argTypes : List Ty)
    (rule : (Operator.comparison name).flattening = .componentwise (.logical joiner))
    (shapes : Expr.shapes (parts.map (·.expr)) = Ty.shapes [left, right])
    (settledLeft : left.Settled) (settledRight : right.Settled)
    (agree : left.nonNull = right.nonNull) :
    ∃ part, Application.flatten v.rules ⟨.comparison name, parts.map (·.expr), argTypes, []⟩ none
      parts = .ok part := by
  match parts with
  | [] | [_] | _ :: _ :: _ :: _ => simp [Expr.shapes, Ty.shapes] at shapes
  | [first, second] =>
    simp only [List.map_cons, List.map_nil, Expr.shapes, Ty.shapes, List.cons.injEq,
      and_true] at shapes
    obtain ⟨shapeLeft, shapeRight⟩ := shapes
    have same : first.expr.shape = second.expr.shape := by
      rw [shapeLeft, shapeRight]
      exact Ty.shape_congr settledLeft.noNullProduct settledRight.noNullProduct agree
    obtain ⟨e, compared⟩ := Operator.compare_of_shape (.comparison name) (.logical joiner) same
      (shapeLeft ▸ settledLeft.full)
    refine ⟨.gather [first, second] e, ?_⟩
    simp only [Application.flatten, rule, List.map_cons, List.map_nil, compared]
    rfl

/-- An application flattens, since its operator answers for flat arguments. -/
theorem apply (columns : v.HasColumns) {op : Operator} {args : List Expr}
    (ih : ∀ e ∈ args, e.Progresses v) : (Expr.apply op args).Progresses v := by
  intro schema rows env type s plan supported ground typed stem
  have words := Expr.wording_of_plan plan
  obtain ⟨named, permissive⟩ := Expr.typeOf_permissive words ground.named typed
  obtain ⟨types, typedArgs, range⟩ := Expr.typeOf_apply.1 typed
  obtain ⟨argTypes, known, _⟩ := Expr.typeOf_apply.1 permissive
  have nodes := Expr.everywhere_apply op args |>.1 plan
  rw [Expr.everywhere_apply] at supported words
  have namedTypes := (Expr.typesOf_permissive words.2 ground.named typedArgs).1
  obtain ⟨settled, parts, t, run, shapes⟩ := items ih nodes.2 supported.2 ground typedArgs stem
  have regular : op.Regular v := words.1
  have noLookup := regular.noLookup
  rcases regular with scalars | equal
  · obtain ⟨_, scalar, _, _⟩ := scalars.range namedTypes range
    have noRule : op.hasRule = false := by rw [Operator.hasRule, scalars.plain]
    exact of_run columns plan ground typed stem (Ty.isScalar_iff.1 scalar).2
      ⟨_, t, (Expr.yields_flatten_apply noLookup).2 ⟨parts, run, .inl ⟨noRule, rfl⟩⟩⟩
  · have isEquality : ∃ name joiner, op = .comparison name ∧ Operator.isEquality name = true ∧
        (Operator.comparison name).flattening = .componentwise (.logical joiner) := by
      rcases equal with rfl | rfl
      · exact ⟨"=", "and", rfl, rfl, rfl⟩
      · exact ⟨"<>", "or", rfl, rfl, rfl⟩
    obtain ⟨name, joiner, rfl, equality', rule⟩ := isEquality
    obtain ⟨left, right, rfl, agree, rfl⟩ := (Operator.range_equality equality' namedTypes).1 range
    simp only [List.forall_mem_cons] at settled
    obtain ⟨part, flat⟩ := equality argTypes rule shapes settled.1 settled.2.1 agree
    have hasRule : (Operator.comparison name).hasRule = true := by rw [Operator.hasRule, rule]
    exact of_run columns plan ground typed stem rfl
      ⟨part, t, (Expr.yields_flatten_apply noLookup).2 ⟨parts, run,
        .inr ⟨hasRule, argTypes, known, flat⟩⟩⟩

/-- Settled types have full shapes, without an empty tuple. -/
theorem shape_allFull {types : List Ty} (settled : ∀ type ∈ types, type.Settled) :
    Shape.AllFull (Ty.shapes types) := by
  induction types with
  | nil => trivial
  | cons type types ih =>
    rw [List.forall_mem_cons] at settled
    exact ⟨settled.1.full, ih settled.2⟩

theorem tuple {es : List Expr} (ih : ∀ e ∈ es, e.Progresses v) : (Expr.tuple es).Progresses v := by
  intro schema rows env type s plan supported ground typed stem
  obtain ⟨types, typedItems, rfl⟩ := Expr.typeOf_tuple.1 typed
  rw [Expr.everywhere_tuple] at plan supported
  obtain ⟨settled, parts, t, run, shapes⟩ := items ih plan.2 supported.2 ground typedItems stem
  have nonempty : Ty.shapes types ≠ [] := by
    intro empty
    cases es with
    | nil => exact supported.1 rfl
    | cons e es =>
      cases Expr.typesOf_eq_ok.1 typedItems
      cases empty
  refine ⟨⟨rfl, ?_⟩, .gather parts (.tuple (parts.map (·.expr))), t, ?_, ?_⟩
  · rw [Ty.shape]
    exact ⟨nonempty, shape_allFull settled⟩
  · exact Expr.yields_flatten_tuple.2 ⟨parts, run, rfl⟩
  · rw [Flattened.gather, Expr.shape, shapes, Ty.shape]

/-- Apart from counting, aggregation is of numbers or of ordered values. -/
theorem isScalar_of_aggregate {fn : Aggregate} {arg type : Ty} (named : v.Names arg)
    (range : fn.range v.checked arg = .ok type) (other : fn ≠ .count) : arg.isScalar = true := by
  obtain ⟨numeric, ordered, _⟩ := Aggregate.range_eq_ok.1 range
  have numbers : fn.needsNumeric = true → arg.isScalar = true := fun needs =>
    v.isScalar_of_isNumeric named (Vocabulary.expectNumeric_checked.1 (numeric needs))
  have order : fn.needsOrdered = true → arg.isScalar = true := fun needs =>
    v.isScalar_of_isOrdered named (Vocabulary.expectOrdered_checked.1 (ordered needs))
  cases fn with
  | count => exact absurd rfl other
  | min | max => exact order rfl
  | sum | avg | stddev | stddevPop | variance | variancePop => exact numbers rfl

/-- A count flattens, since its argument has a leaf. Other aggregations flatten, since their
argument is a scalar. -/
theorem flattenAggregate (whole : Expr) {arg : Expr} {fn : Aggregate} {argType : Ty}
    (shape : arg.shape = argType.shape) (settled : argType.Settled)
    (scalar : fn ≠ .count → argType.isScalar = true) :
    ∃ e, Expr.flattenAggregate whole fn arg = .ok e := by
  unfold Expr.flattenAggregate
  by_cases count : fn = .count
  · obtain ⟨leaf, first⟩ := Expr.firstLeaf?_of_full (shape ▸ settled.full)
    exact ⟨.aggregate fn leaf, by rw [if_pos count, first]⟩
  · have isLeaf : arg.shape = .leaf :=
      shape.trans (Ty.shape_of_components?_eq_none (Ty.components?_of_isScalar (scalar count)))
    have noTuple : arg.isTuple = false := by
      cases arg with
      | tuple items => cases isLeaf
      | _ => rfl
    exact ⟨.aggregate fn arg, by rw [if_neg count, noTuple]; rfl⟩

theorem aggregate (columns : v.HasColumns) (fn : Aggregate) {arg : Expr} (ih : arg.Progresses v) :
    (Expr.aggregate fn arg).Progresses v := by
  intro schema rows env type s plan supported ground typed stem
  obtain ⟨argType, typedArg, range⟩ := Expr.typeOf_aggregate.1 typed
  have nodes := Expr.everywhere_aggregate fn arg |>.1 plan
  rw [Expr.everywhere_aggregate] at supported
  have named := (Expr.typeOf_permissive (Expr.wording_of_plan nodes.2) ground.named typedArg).1
  obtain ⟨settled, part, t, run, shape⟩ := ih nodes.2 supported.2 ground typedArg stem
  have scalar := isScalar_of_aggregate named range
  obtain ⟨e, flat⟩ := flattenAggregate (.aggregate fn arg) shape settled scalar
  have noProduct : type.nonNull.isProduct = false := by
    rw [(Aggregate.range_eq_ok.1 range).2.2]
    cases fn with
    | sum | min | max => exact (Ty.isScalar_iff.1 (scalar (by decide))).2
    | _ => rfl
  exact of_run columns plan ground typed stem noProduct
    ⟨⟨e, part.queries, part.restrictions⟩, t,
      Expr.yields_flatten_aggregate.2 ⟨part, e, run, flat, rfl⟩⟩

/-- Branches that are typed flatten one after the other. -/
theorem branches {bs : List (Expr × Expr)} {types : List (Ty × Ty)}
    (ih : ∀ b ∈ bs, b.1.Progresses v ∧ b.2.Progresses v)
    (plan : ∀ b ∈ bs, b.1.Everywhere v.plan ∧ b.2.Everywhere v.plan)
    (supported : ∀ b ∈ bs, b.1.Everywhere v.supported ∧ b.2.Everywhere v.supported)
    (ground : Ground v schema env rows) (typed : Expr.branchTypesOf v.checked schema bs = .ok types)
    (boolean : ∀ type ∈ types, type.1 = .boolean) (stem : s.names.stem = v.stem) :
    (∀ type ∈ types, type.2.Settled) ∧ ∃ parts t,
      (Expr.flattenBranches v.permissive env schema bs).Yields s parts t ∧
        List.Forall₂ (fun (part : Flattened × Flattened) type => part.2.expr.shape = type.2.shape)
          parts types := by
  rw [Expr.branchTypesOf_eq_ok] at typed
  induction typed generalizing s with
  | nil =>
    exact ⟨fun _ member => (nomatch member), [], s,
      Expr.yields_flattenBranches_nil.2 ⟨rfl, rfl⟩, .nil⟩
  | @cons b type bs types typedBranch rest ihs =>
    obtain ⟨condition, result⟩ := b
    rw [List.forall_mem_cons] at ih plan supported boolean
    obtain ⟨_, first, u, head, shape⟩ := ih.1.1 plan.1.1 supported.1.1 ground typedBranch.1 stem
    have leads := (condition.flatten_advances v.permissive env schema).leads head
    obtain ⟨settled, second, w, middle, shape'⟩ :=
      ih.1.2 plan.1.2 supported.1.2 ground typedBranch.2 (leads.stem.trans stem)
    have leads' := leads.trans ((result.flatten_advances v.permissive env schema).leads middle)
    obtain ⟨allSettled, parts, t, tail, shapes⟩ :=
      ihs ih.2 plan.2 supported.2 boolean.2 (leads'.stem.trans stem)
    have noTuple : first.expr.isTuple = false := by
      rw [boolean.1] at shape
      cases equal : first.expr with
      | tuple items =>
        rw [equal] at shape
        cases shape
      | _ => rfl
    refine ⟨List.forall_mem_cons.2 ⟨settled, allSettled⟩, (first, second) :: parts, t, ?_,
      .cons shape' shapes⟩
    exact Expr.yields_flattenBranches_cons.2 ⟨first, u, head, noTuple, second, w, middle,
      parts, tail, rfl⟩

/-- The type of a choice between values of settled types is settled and has their shape. -/
theorem settled_caseType (columns : v.HasColumns) {types : List (Ty × Ty)} {default type : Ty}
    (namedTypes : ∀ t ∈ types, v.Names t.1 ∧ v.Names t.2) (namedDefault : v.Names default)
    (chosen : v.checked.caseType types default = .ok type) (settled : ∀ t ∈ types, t.2.Settled)
    (settledDefault : default.Settled) : type.Settled ∧ default.shape = type.shape := by
  obtain ⟨named, agree, all⟩ := Vocabulary.nonNull_caseType namedTypes namedDefault chosen
  cases product : default.nonNull.isProduct with
  | false =>
    have typeSettled := Ty.settled_of_noProduct columns named (agree ▸ product)
    exact ⟨typeSettled, Ty.shape_congr settledDefault.noNullProduct typeSettled.noNullProduct agree⟩
  | true =>
    -- no branch is nullable, so all have the type of the default
    have itself : ∀ {t : Ty}, t.Settled → t.nonNull.isProduct = true → t.nonNull = t := by
      intro t settled product
      cases t with
      | nullable inner => cases settled.noNullProduct.symm.trans product
      | _ => rfl
    have constant : ∀ t ∈ types, t = (.boolean, default) := by
      intro t member
      obtain ⟨condition, same⟩ := all t member
      rw [← agree] at same
      refine Prod.ext condition ?_
      rw [← itself (settled t member) (same ▸ product), same, itself settledDefault product]
    have equal : type = default := by
      rw [Vocabulary.caseType_constant constant] at chosen
      exact (Except.ok.inj chosen).symm
    rw [equal]
    exact ⟨settledDefault, rfl⟩

/-- A choice flattens, since its results have one shape. -/
theorem case (columns : v.HasColumns) {bs : List (Expr × Expr)} {default : Expr}
    (ihb : ∀ b ∈ bs, b.1.Progresses v ∧ b.2.Progresses v) (ihd : default.Progresses v) :
    (Expr.case bs default).Progresses v := by
  intro schema rows env type s plan supported ground typed stem
  have words := Expr.wording_of_plan plan
  obtain ⟨types, typedBranches, defaultType, typedDefault, chosen⟩ := Expr.typeOf_case.1 typed
  rw [Expr.everywhere_case] at plan supported words
  have namedDefault := (Expr.typeOf_permissive words.2.2 ground.named typedDefault).1
  have namedTypes := (Expr.branchTypesOf_permissive words.2.1 ground.named typedBranches).1
  obtain ⟨_, agree, all⟩ := Vocabulary.nonNull_caseType namedTypes namedDefault chosen
  obtain ⟨settled, parts, u, flatBranches, shapes⟩ :=
    branches ihb plan.2.1 supported.2.1 ground typedBranches (fun t member => (all t member).1) stem
  have leads := (Expr.flattenBranches_advances _ v.permissive env schema).leads flatBranches
  obtain ⟨settledDefault, last, t, flatDefault, shape⟩ :=
    ihd plan.2.2 supported.2.2 ground typedDefault (leads.stem.trans stem)
  obtain ⟨typeSettled, typeShape⟩ :=
    settled_caseType columns namedTypes namedDefault chosen settled settledDefault
  have same : ∀ r ∈ parts.map (·.2.expr), r.shape = last.expr.shape := by
    intro r member
    obtain ⟨part, among, rfl⟩ := List.mem_map.1 member
    obtain ⟨type', member', shape'⟩ := exists_of_mem_right shapes.flip among
    rw [shape', shape]
    exact Ty.shape_congr (settled type' member').noNullProduct settledDefault.noNullProduct
      ((all type' member').2.trans agree.symm)
  let choice := Expr.distribute (parts.map (·.1.expr)) last.expr (parts.map (·.2.expr))
  have flat : Expr.flattenCase (.case bs default) (parts.map (·.1.expr)) (parts.map (·.2.expr))
      last.expr = .ok choice := by
    rw [Expr.flattenCase, if_pos]
    exact List.all_eq_true.2 fun r member => beq_iff_eq.2 (same r member)
  refine ⟨typeSettled, .gather (parts.flatMap (fun part => [part.1, part.2]) ++ [last]) choice, t,
    ?_, ?_⟩
  · exact Expr.yields_flatten_case.2 ⟨parts, u, flatBranches, last, choice, flatDefault, flat, rfl⟩
  · rw [Flattened.gather, Expr.shape_distribute same, shape, typeShape]

/-- A subquery flattens, since none of its columns is structured. -/
theorem subquery {query : Query} {inner : Schema} (ih : query.Progresses v)
    (plan : query.Everywhere v.plan) (supported : query.Everywhere v.supported)
    (unstructured : v.Unstructured query)
    (infer : query.schemaOf v.checked = .ok inner) (stem : s.names.stem = v.stem) :
    (∀ c ∈ inner.columns, c.2.nonNull.isProduct = false) ∧
      ∃ flat t, (query.flattenSubquery v.permissive (query.flatten v.permissive)).Yields
        s flat t := by
  obtain ⟨noProduct, flat, env, t, run⟩ := ih plan supported infer stem
  have permissive := (Query.schemaOf_permissive (Query.wording_of_plan plan) infer).2
  have form := Query.flatForm plan infer ⟨stem, run⟩
  have scalar : (inner.columns.any fun c => (env.find? c.1).any Expr.isTuple) = false := by
    rw [List.any_eq_false]
    intro c member
    have free := form.carries c member
    rw [Environment.carries_unstructured
      (Ty.isStructured_eq_false.1 (unstructured infer c member))] at free
    rw [free]
    exact Bool.false_ne_true
  exact ⟨noProduct, flat, t, Query.yields_flattenSubquery.2 ⟨inner, permissive, env, run, scalar⟩⟩

theorem scalarSubquery (columns : v.HasColumns) {query : Query} (ih : query.Progresses v) :
    (Expr.scalarSubquery query).Progresses v := by
  intro schema rows env type s plan supported ground typed stem
  obtain ⟨inner, infer, only⟩ := Expr.typeOf_scalarSubquery.1 typed
  have nodes := Expr.everywhere_scalarSubquery query |>.1 plan
  rw [Expr.everywhere_scalarSubquery] at supported
  obtain ⟨noProduct, flat, t, run⟩ := subquery ih nodes.2 supported.2 supported.1 infer stem
  obtain ⟨name, column⟩ := Schema.onlyType_eq_ok.1 only
  have member : (name, type) ∈ inner.columns := by rw [column]; exact List.mem_cons_self
  exact of_run columns plan ground typed stem (noProduct _ member)
    ⟨.plain (.scalarSubquery flat), t, Expr.yields_flatten_scalarSubquery.2 ⟨flat, run, rfl⟩⟩

theorem setSubquery (columns : v.HasColumns) {query : Query} (ih : query.Progresses v) :
    (Expr.setSubquery query).Progresses v := by
  intro schema rows env type s plan supported ground typed stem
  obtain ⟨inner, infer, member, only, rfl⟩ := Expr.typeOf_setSubquery.1 typed
  have nodes := Expr.everywhere_setSubquery query |>.1 plan
  rw [Expr.everywhere_setSubquery] at supported
  obtain ⟨_, flat, t, run⟩ := subquery ih nodes.2 supported.2 supported.1 infer stem
  exact of_run columns plan ground typed stem rfl
    ⟨.plain (.setSubquery flat), t, Expr.yields_flatten_setSubquery.2 ⟨flat, run, rfl⟩⟩

end Progress

end FlatPlan
