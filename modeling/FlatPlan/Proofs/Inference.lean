import FlatPlan.Proofs.Applications
import FlatPlan.Proofs.ColumnLayout
import FlatPlan.Proofs.SampleVocabulary

/-!
# Flat plans have schemas

Permissive mode refuses unknown attributes, subqueries of several columns and what an operator
refuses of its arguments. Main statement: the flat form of an accepted plan has a schema in
permissive mode (`Query.infers_of_flattens`), if its flat columns stand in place and its operators
give types to flat applications. The standard operators do (`Operator.infers_of_standard`).
-/

namespace FlatPlan

open Pass

/-- Whether permissive mode gives the expression a type over rows of a schema. -/
def Expr.Infers (x : Session) (rows : Schema) (e : Expr) : Prop :=
  ∃ type, e.typeOf x.permissive rows = .ok type

/-- Whether permissive mode gives the query a schema. -/
def Query.Infers (x : Session) (q : Query) : Prop := ∃ schema, q.schemaOf x.permissive = .ok schema

/-- Rows that have the columns given and those of the joined queries. -/
structure Schema.Spans (rows : Schema) (names : List String) (queries : List Query) : Prop where
  own : ∀ name ∈ names, name ∈ rows.names
  joined : ∀ q ∈ queries, ∀ name ∈ q.outputNames, name ∈ rows.names

/-- Whether a flat expression and what it needs have types over all rows that have the columns
given. -/
structure Flattened.Infers (x : Session) (names : List String) (part : Flattened) : Prop where
  queries : ∀ q ∈ part.queries, q.Infers x
  expr : ∀ rows : Schema, rows.Spans names part.queries → part.expr.Infers x rows
  tests : ∀ rows : Schema, rows.Spans names part.queries → ∀ r ∈ part.restrictions, r.Infers x rows

/-- Whether the flat forms of the columns of a schema refer to the columns given. -/
def Environment.Covers (env : Environment) (schema : Schema) (names : List String) : Prop :=
  ∀ name ∈ schema.names, ∀ leaf ∈ (env.resolve name).leaves, ∃ column ∈ names, leaf = .attr column

/-- What the nodes of a plan keep to so that its flat form has a schema. -/
def Session.inferring (x : Session) : NodeProperty :=
  x.inPlace.and
    { expr
        | .apply op _ => ∀ rows, op.Preserves x (Expr.Infers x rows)
        | .const type value => ∀ rows, x.rules.StoredAs (Expr.Infers x rows) type value
        | _ => True
      query _ := True }

variable {x : Session} {schema inferred rows : Schema} {env : Environment} {names : List String}
  {s t : PassState}

/-- The flat form of the expression has a type. -/
def Expr.FlattensInferring (x : Session) (e : Expr) : Prop :=
  e.Everywhere x.inferring →
    ∀ {schema inferred : Schema} {env : Environment} {type : Ty} {s t : PassState}
    {part : Flattened} {names : List String}, env.Covers schema names →
    e.typeOf x.checked schema = .ok type → s.names.stem = x.stem →
    (e.flatten x.permissive env inferred).Yields s part t → part.Infers x names

/-- The flat form of the query has a schema. -/
def Query.FlattensInferring (x : Session) (q : Query) : Prop :=
  q.Everywhere x.inferring →
    ∀ {schema : Schema} {env : Environment} {s t : PassState} {flat : Query},
    q.schemaOf x.checked = .ok schema → x.Flattens q s flat env t → flat.Infers x

/-- The flat columns of such a plan stand in place. -/
theorem Query.inPlace_of_inferring {q : Query} (plan : q.Everywhere x.inferring) :
    q.Everywhere x.inPlace :=
  plan.left

/-! ## Expressions in permissive mode -/

namespace Expr

/-- A reference has a type over every schema that has its name. -/
theorem infers_attr {name : String} (member : name ∈ rows.names) :
    (Expr.attr name).Infers x rows := by
  cases found : rows.get? name with
  | none => exact absurd member (Schema.get?_eq_none.1 found)
  | some type => exact ⟨type, typeOf_attr.2 found⟩

theorem infers_const (type : Ty) (value : Value) : (Expr.const type value).Infers x rows :=
  ⟨type, typeOf_const.2 rfl⟩

theorem infers_null (type : Ty) : (Expr.null type).Infers x rows := ⟨type, typeOf_null.2 rfl⟩

/-- Expressions have types exactly if each of them has one. -/
theorem exists_typesOf {es : List Expr} :
    (∃ types, typesOf x.permissive rows es = .ok types) ↔ ∀ e ∈ es, e.Infers x rows := by
  constructor
  · rintro ⟨types, typed⟩ e member
    obtain ⟨type, _, own⟩ := exists_of_mem_right (typesOf_eq_ok.1 typed).flip member
    exact ⟨type, own⟩
  · intro each
    induction es with
    | nil => exact ⟨[], rfl⟩
    | cons e es ih =>
      rw [List.forall_mem_cons] at each
      obtain ⟨type, first⟩ := each.1
      obtain ⟨types, rest⟩ := ih each.2
      exact ⟨type :: types, typesOf_eq_ok.2 (.cons first (typesOf_eq_ok.1 rest))⟩

/-- A tuple has a type exactly if its items have types. -/
theorem infers_tuple {items : List Expr} :
    (Expr.tuple items).Infers x rows ↔ ∀ e ∈ items, e.Infers x rows := by
  rw [← exists_typesOf]
  constructor
  · rintro ⟨_, typed⟩
    obtain ⟨types, items, _⟩ := typeOf_tuple.1 typed
    exact ⟨types, items⟩
  · rintro ⟨types, items⟩
    exact ⟨_, typeOf_tuple.2 ⟨types, items, rfl⟩⟩

mutual

/-- A flat value has a type if and only if its leaves have. -/
theorem infers_iff_leaves : ∀ {e : Expr}, e.Infers x rows ↔ ∀ leaf ∈ e.leaves, leaf.Infers x rows
  | .tuple items => by
    rw [infers_tuple, leaves]
    exact infers_iff_itemLeaves
  | .attr _ | .const _ _ | .null _ | .apply _ _ | .aggregate _ _ | .multiAggregate _ _ | .case _ _
  | .scalarSubquery _ | .setSubquery _ => List.forall_mem_singleton.symm

/-- Items have types exactly if all their leaves have. -/
theorem infers_iff_itemLeaves : ∀ {items : List Expr},
    (∀ e ∈ items, e.Infers x rows) ↔ ∀ leaf ∈ itemLeaves items, leaf.Infers x rows
  | [] => by simp [itemLeaves]
  | e :: items => by
    rw [List.forall_mem_cons, itemLeaves, List.forall_mem_append]
    exact and_congr infers_iff_leaves infers_iff_itemLeaves

end

/-- Permissive mode gives a type to every aggregation whose argument has one. -/
theorem infers_aggregate {fn : Aggregate} {arg : Expr} (h : arg.Infers x rows) :
    (Expr.aggregate fn arg).Infers x rows := by
  obtain ⟨type, typed⟩ := h
  refine ⟨fn.resultType type,
    typeOf_aggregate.2 ⟨type, typed, Aggregate.range_eq_ok.2 ⟨?_, ?_, rfl⟩⟩⟩
  · exact fun _ => Session.require_permissive
  · exact fun _ => Session.require_permissive

/-- In permissive mode any two types have a common one. -/
theorem exists_unify (left right : Ty) : ∃ type, x.permissive.unify left right = .ok type := by
  unfold TypeCheck.unify
  split
  · exact ⟨_, rfl⟩
  · split
    · exact ⟨_, rfl⟩
    · exact ⟨left, bind_eq_ok.2 ⟨(), Session.require_permissive, rfl⟩⟩

/-- Permissive mode gives a type to every choice whose parts have types. -/
theorem infers_case {branches : List (Expr × Expr)} {default : Expr}
    (each : ∀ b ∈ branches, b.1.Infers x rows ∧ b.2.Infers x rows) (last : default.Infers x rows) :
    (Expr.case branches default).Infers x rows := by
  have types : ∃ types, branchTypesOf x.permissive rows branches = .ok types := by
    induction branches with
    | nil => exact ⟨[], rfl⟩
    | cons b branches ih =>
      rw [List.forall_mem_cons] at each
      obtain ⟨⟨⟨condition, first⟩, result, second⟩, others⟩ := each
      obtain ⟨types, rest⟩ := ih others
      exact ⟨(condition, result) :: types,
        branchTypesOf_eq_ok.2 (.cons ⟨first, second⟩ (branchTypesOf_eq_ok.1 rest))⟩
  obtain ⟨types, typed⟩ := types
  obtain ⟨defaultType, typedDefault⟩ := last
  have chosen : ∃ type, x.permissive.caseType types defaultType = .ok type := by
    refine Schema.exists_foldlM (fun result branch => ?_) types.reverse defaultType
    obtain ⟨type, unified⟩ := exists_unify (x := x) branch.2 result
    exact ⟨type, bind_eq_ok.2 ⟨(), Session.require_permissive, unified⟩⟩
  obtain ⟨type, own⟩ := chosen
  exact ⟨type, typeOf_case.2 ⟨types, typed, defaultType, typedDefault, own⟩⟩

end Expr

/-! ## Queries in permissive mode -/

namespace Query

/-- Permissive mode finds the columns of a projection if each of its expressions has a type. -/
theorem exists_columnsOf {grouping : Bool} {columns : List (String × Expr)}
    (each : ∀ c ∈ columns, c.2.Infers x rows) :
    ∃ outputs, columnsOf x.permissive rows grouping columns = .ok outputs := by
  induction columns with
  | nil => exact ⟨[], rfl⟩
  | cons c columns ih =>
    rw [List.forall_mem_cons] at each
    obtain ⟨type, typed⟩ := each.1
    obtain ⟨outputs, rest⟩ := ih each.2
    refine ⟨(c.1, type) :: outputs,
      columnsOf_eq_ok.2 (.cons ⟨rfl, ?_, typed, ?_⟩ (columnsOf_eq_ok.1 rest))⟩
    · simp [Session.permissive]
    · exact Session.require_permissive

/-- A projection has a schema if its columns have types over that of its input. -/
theorem infers_project {columns : List (String × Expr)} {input : Query}
    (infer : input.schemaOf x.permissive = .ok rows) (each : ∀ c ∈ columns, c.2.Infers x rows) :
    (project columns input).Infers x := by
  obtain ⟨outputs, typed⟩ := exists_columnsOf each
  exact ⟨⟨outputs⟩, schemaOf_project.2 ⟨rows, infer, typed⟩⟩

/-- A projection to references to columns of its input has a schema. -/
theorem infers_projection {columns : List (String × Expr)} {input q : Query}
    (h : projection columns input = .ok q) (infers : input.Infers x)
    (refs : ∀ c ∈ columns, ∃ name ∈ input.outputNames, c.2 = .attr name) : q.Infers x := by
  obtain ⟨rows, infer⟩ := infers
  have each : ∀ c ∈ columns, c.2.Infers x rows := by
    intro c member
    obtain ⟨name, among, equal⟩ := refs c member
    rw [equal]
    exact Expr.infers_attr (names_of_schemaOf infer ▸ among)
  obtain ⟨outputs, typed⟩ := exists_columnsOf each
  exact ⟨⟨outputs⟩, schemaOf_projection h infer typed⟩

/-- Permissive mode gives a schema to every combination of queries that have one. -/
theorem infers_combine {op : CombineOp} {left right : Query} (hl : left.Infers x)
    (hr : right.Infers x) :
    (combine op left right).Infers x := by
  obtain ⟨leftSchema, inferLeft⟩ := hl
  obtain ⟨rightSchema, inferRight⟩ := hr
  have combined : ∃ schema, Schema.combine x.permissive op leftSchema rightSchema = .ok schema := by
    cases op with
    | product => exact Schema.exists_product_permissive leftSchema rightSchema
    | quotient =>
      exact ⟨_, Schema.quotient_eq_ok.2 ⟨fun _ _ _ _ => Session.require_permissive, rfl⟩⟩
    | union | intersection | difference => exact ⟨leftSchema, rfl⟩
  obtain ⟨schema, own⟩ := combined
  exact ⟨schema, schemaOf_combine.2 ⟨leftSchema, inferLeft, rightSchema, inferRight, own⟩⟩

theorem infers_combination {left right : Query} (hl : left.Infers x) (hr : right.Infers x) :
    (combination .product left right).Infers x := by
  rcases combination_product left right with ⟨_, equal⟩ | ⟨_, equal⟩ | equal
  · rw [equal]
    exact hr
  · rw [equal]
    exact hl
  · rw [equal]
    exact infers_combine hl hr

/-- The product of a query with others has all their columns. -/
theorem exists_schemaOf_productAll {queries : List Query} {input : Query} (h : input.Infers x)
    (each : ∀ q ∈ queries, q.Infers x) :
    ∃ rows, (productAll (input :: queries)).schemaOf x.permissive = .ok rows ∧
      rows.Spans input.outputNames queries := by
  rw [productAll, List.foldl_cons, combination_empty_left]
  induction queries generalizing input with
  | nil =>
    obtain ⟨rows, infer⟩ := h
    exact ⟨rows, infer, fun _ member => names_of_schemaOf infer ▸ member, fun _ member => (by
      cases member)⟩
  | cons q queries ih =>
    rw [List.forall_mem_cons] at each
    obtain ⟨rows, infer, spans⟩ := ih (infers_combination h each.1) each.2
    refine ⟨rows, infer, fun name member => ?_,
      List.forall_mem_cons.2 ⟨fun name member => ?_, spans.joined⟩⟩
    · exact spans.own name (mem_outputNames_combination.2 (.inl member))
    · exact spans.own name (mem_outputNames_combination.2 (.inr member))

/-- Conditions that have types keep the schema. -/
theorem schemaOf_restrictAll {predicates : List Expr} {input : Query}
    (infer : input.schemaOf x.permissive = .ok rows) (each : ∀ e ∈ predicates, e.Infers x rows) :
    (restrictAll predicates input).schemaOf x.permissive = .ok rows := by
  refine List.foldlRecOn (motive := fun q : Query => q.schemaOf x.permissive = .ok rows) predicates
    _ infer fun q known predicate member => ?_
  obtain ⟨type, typed⟩ := each predicate member
  exact schemaOf_restrict.2 ⟨known, type, typed, Session.require_permissive⟩

end Query

/-! ## Operators -/

namespace Operator

variable {op : Operator}

/-- An application has a type if its operator gives one to any types of as many arguments. -/
theorem infers_apply {args : List Expr} (each : ∀ e ∈ args, e.Infers x rows)
    (range : ∀ types : List Ty, types.length = args.length →
      ∃ type, op.range x.permissive types = .ok type) :
    (Expr.apply op args).Infers x rows := by
  obtain ⟨types, typed⟩ := Expr.exists_typesOf.2 each
  obtain ⟨type, own⟩ := range types (Expr.typesOf_eq_ok.1 typed).length_eq.symm
  exact ⟨type, Expr.typeOf_apply.2 ⟨types, typed, own⟩⟩

/-- Whether the operator takes so many arguments, of any types in permissive mode. -/
structure HasArity (x : Session) (op : Operator) (arity : Nat) : Prop where
  needs : ∀ {types : List Ty} {type : Ty}, op.range x.checked types = .ok type →
    types.length = arity
  accepts : ∀ {types : List Ty}, types.length = arity →
    ∃ type, op.range x.permissive types = .ok type

/-- What an operator makes of an application has a type if only the number of arguments counts. -/
theorem HasArity.infers {arity : Nat} (h : op.HasArity x arity)
    (noTemplate : op.hasTemplate = false)
    (join : ∀ joiner, op.flattening = .componentwise joiner → joiner.HasArity x 2) :
    op.Preserves x (Expr.Infers x rows) := by
  refine @preserves_of_noTemplate x op (Expr.Infers x rows) noTemplate
    (fun e infers => Expr.infers_iff_leaves.1 infers) ?_ ?_
  · intro args types type range length each
    exact infers_apply each fun types' length' =>
      h.accepts (length'.trans (length.trans (h.needs range)))
  · intro joiner form a b onLeft onRight
    refine infers_apply ?_ fun types length => (join joiner form).accepts length
    rw [List.forall_mem_cons, List.forall_mem_singleton]
    exact ⟨onLeft, onRight⟩

/-- An operator on two arguments whose rule refuses nothing in permissive mode. -/
theorem hasArity_onTwo {name : String} {rule : TypeCheck → Ty → Ty → Except Error Ty}
    (range : op.range = onTwo name rule)
    (accepts : ∀ left right, ∃ type, rule x.permissive left right = .ok type) :
    op.HasArity x 2 where
  needs {types type} typed := by
    rw [range, onTwo_eq_ok] at typed
    obtain ⟨left, right, rfl, _⟩ := typed
    rfl
  accepts {types} length := by
    obtain ⟨left, right, rfl⟩ := List.length_eq_two.1 length
    obtain ⟨type, accepted⟩ := accepts left right
    exact ⟨type, by rw [range, onTwo_eq_ok]; exact ⟨left, right, rfl, accepted⟩⟩

theorem hasArity_arithmetic (name : String) : (arithmetic name).HasArity x 2 := by
  refine hasArity_onTwo rfl fun left right => ⟨left, ?_⟩
  simp only [TypeCheck.expectNumeric, expectComparable, Session.require_permissive]
  rfl

theorem hasArity_logical (name : String) : (logical name).HasArity x 2 := by
  refine hasArity_onTwo rfl fun left right => ⟨.boolean, ?_⟩
  simp only [TypeCheck.expect, Session.require_permissive]
  rfl

theorem hasArity_comparison (name : String) : (comparison name).HasArity x 2 := by
  refine hasArity_onTwo rfl fun left right => ⟨.boolean, ?_⟩
  simp only [expectComparable, TypeCheck.expectOrdered, Session.require_permissive]
  cases isEquality name <;> rfl

/-- The negation takes one argument, and gives a type to it in permissive mode. -/
theorem hasArity_negation : negation.HasArity x 1 where
  needs {types type} range := by
    match types with
    | [_] => rfl
    | [] | _ :: _ :: _ => cases range
  accepts {types} length := by
    match types, length with
    | [arg], _ =>
      refine ⟨.boolean, ?_⟩
      simp only [negation, TypeCheck.expect, Session.require_permissive]
      rfl

/-- The standard operators give types to flat applications. -/
theorem infers_of_standard (h : op ∈ standard) : op.Preserves x (Expr.Infers x rows) := by
  simp only [standard, List.mem_append, List.mem_map, List.mem_singleton] at h
  rcases h with ((⟨name, _, rfl⟩ | ⟨name, _, rfl⟩) | ⟨name, _, rfl⟩) | rfl
  · exact (hasArity_arithmetic name).infers rfl fun _ form => (by cases form)
  · have arity : (comparison name).HasArity x 2 := hasArity_comparison name
    rcases flattening_comparison name with plain | ⟨own, componentwise⟩
    · exact arity.infers (by rw [hasTemplate, plain]) fun joiner form =>
        (by rw [plain] at form; cases form)
    · refine arity.infers (by rw [hasTemplate, componentwise]) fun joiner form => ?_
      rw [componentwise] at form
      cases form
      exact hasArity_logical own
  · exact (hasArity_logical name).infers rfl fun _ form => (by cases form)
  · exact hasArity_negation.infers rfl fun _ form => (by cases form)

end Operator

/-! ## Flat expressions -/

/-- A schema that spans some queries spans fewer of them. -/
theorem Schema.Spans.mono {queries others : List Query} (h : rows.Spans names queries)
    (sub : ∀ q ∈ others, q ∈ queries) : rows.Spans names others :=
  ⟨h.own, fun q member => h.joined q (sub q member)⟩

namespace Inference

/-- A value that needs no joins has a type if its expression has one. -/
theorem plain {e : Expr} (infers : ∀ rows : Schema, rows.Spans names [] → e.Infers x rows) :
    (Flattened.plain e).Infers x names :=
  ⟨fun _ member => (by cases member), infers, fun _ _ _ member => (by cases member)⟩

/-- An expression made of others that have types. -/
theorem gather {parts : List Flattened} {e : Expr} (each : ∀ part ∈ parts, part.Infers x names)
    (whole : ∀ rows : Schema, (∀ part ∈ parts, part.expr.Infers x rows) → e.Infers x rows) :
    (Flattened.gather parts e).Infers x names where
  queries q member := by
    obtain ⟨part, among, own⟩ := List.mem_flatMap.1 member
    exact (each part among).queries q own
  expr rows spans := by
    refine whole rows fun part member => (each part member).expr rows (spans.mono fun q own => ?_)
    exact List.mem_flatMap.2 ⟨part, member, own⟩
  tests rows spans r member := by
    obtain ⟨part, among, own⟩ := List.mem_flatMap.1 member
    refine (each part among).tests rows (spans.mono fun q own => ?_) r own
    exact List.mem_flatMap.2 ⟨part, among, own⟩

/-- A bound name has the type of the columns that it refers to, and any other is a flat column
itself. -/
theorem attr (name : String) : (Expr.attr name).FlattensInferring x := by
  intro _ schema inferred env type s t part names covers typed _ run
  obtain ⟨rfl, _⟩ := Expr.yields_flatten_attr.1 run
  have known : name ∈ schema.names := by
    by_contra absent
    rw [Expr.typeOf_attr, Schema.get?_eq_none.2 absent] at typed
    cases typed
  refine plain fun rows spans => Expr.infers_iff_leaves.2 fun leaf member => ?_
  obtain ⟨column, among, rfl⟩ := covers name known leaf member
  exact Expr.infers_attr (spans.own column among)

/-- What a constant is stored as has a type, as the plan says. -/
theorem const (own : Ty) (value : Value) : (Expr.const own value).FlattensInferring x := by
  intro plan schema inferred env type s t part names _ _ _ run
  obtain ⟨e, flat, rfl, _⟩ := Expr.yields_flatten_const.1 run
  rw [Expr.everywhere_const] at plan
  exact plain fun rows _ => plan.2 rows e flat

theorem null (own : Ty) : (Expr.null own).FlattensInferring x := by
  intro _ schema inferred env type s t part names _ _ _ run
  obtain ⟨rfl, _⟩ := Expr.yields_flatten_null.1 run
  exact plain fun rows _ => Expr.infers_iff_leaves.2 (Expr.of_flattenNull Expr.infers_null)

/-- Flat expressions have types, one after the other. -/
theorem items {es : List Expr} {types : List Ty} {parts : List Flattened}
    (ih : ∀ e ∈ es, e.FlattensInferring x) (plan : ∀ e ∈ es, e.Everywhere x.inferring)
    (covers : env.Covers schema names) (typed : Expr.typesOf x.checked schema es = .ok types)
    (stem : s.names.stem = x.stem)
    (run : (Expr.flattenItems x.permissive env inferred es).Yields s parts t) :
    ∀ part ∈ parts, part.Infers x names := by
  intro part member
  obtain ⟨e, among, within⟩ := exists_of_mem_right (Expr.flattenItems_within run) member
  obtain ⟨u, w, stem, own⟩ := within.exists_run stem
  obtain ⟨type, _, typedOwn⟩ := exists_of_mem_right (Expr.typesOf_eq_ok.1 typed).flip among
  exact ih e among (plan e among) covers typedOwn stem own

theorem tuple (es : List Expr) (ih : ∀ e ∈ es, e.FlattensInferring x) :
    (Expr.tuple es).FlattensInferring x := by
  intro plan schema inferred env type s t part names covers typed stem run
  rw [Expr.everywhere_tuple] at plan
  obtain ⟨types, typedItems, _⟩ := Expr.typeOf_tuple.1 typed
  obtain ⟨parts, runItems, rfl⟩ := Expr.yields_flatten_tuple.1 run
  refine gather (items ih plan.2 covers typedItems stem runItems) fun rows each => ?_
  exact Expr.infers_tuple.2 (List.forall_mem_map.2 each)

/-- A query under new names has a schema. -/
theorem renamed {underlying renamed : Query} {columns : List String}
    (infer : underlying.schemaOf x.permissive = .ok schema)
    (project : Query.projection (Query.renamings columns schema.columns) underlying = .ok renamed) :
    renamed.Infers x := by
  refine Query.infers_projection project ⟨schema, infer⟩ fun c member => ?_
  obtain ⟨d, among, equal⟩ := Query.exists_of_mem_renamings member
  exact ⟨d.1, Query.names_of_schemaOf infer ▸ Schema.mem_names_of_mem among, equal⟩

/-- A looked up query has a schema, and the references to it are to its columns. -/
theorem lookup {op : Operator} {joined : Option (Query × List Expr)}
    (run : (op.joinSource x.permissive).Yields s joined t) :
    (op.lookupSource? = none → joined = none) ∧ (∀ q ∈ (joined.map Prod.fst).toList, q.Infers x) ∧
      ∀ e ∈ (joined.map Prod.snd).getD [], ∃ q ∈ (joined.map Prod.fst).toList,
        ∃ name ∈ q.outputNames, e = .attr name := by
  rcases Operator.joinSource_cases run with
    ⟨rfl, _⟩ | ⟨source, underlying, _, u, schema, renamed, found, _, infer, project, rfl, _⟩
  · exact ⟨fun _ => rfl, fun _ member => (by cases member), fun _ member => (by cases member)⟩
  · refine ⟨fun none => by simp [found] at none, fun q member => ?_, fun e member => ?_⟩
    · rw [List.mem_singleton.1 member]
      exact Inference.renamed infer project
    · obtain ⟨name, among, rfl⟩ := List.mem_map.1 member
      refine ⟨renamed, List.mem_singleton.2 rfl, name, ?_, rfl⟩
      rw [Query.outputNames_projection project, Query.names_renamings (u.length_block _)]
      exact among

/-- A flat application has a type over its own columns and those of the query that it looks up. -/
theorem apply (op : Operator) (args : List Expr) (ih : ∀ e ∈ args, e.FlattensInferring x) :
    (Expr.apply op args).FlattensInferring x := by
  intro plan schema inferred env type s t part names covers typed stem run
  rw [Expr.everywhere_apply] at plan
  obtain ⟨⟨_, preserves⟩, planArgs⟩ := plan
  obtain ⟨types, typedArgs, range⟩ := Expr.typeOf_apply.1 typed
  obtain ⟨parts, u, argTypes, joined, runArgs, join, flat⟩ := Expr.exists_application run
  have each := items ih planArgs covers typedArgs stem runArgs
  have width : (parts.map (·.expr)).length = types.length := by
    rw [List.length_map, ← (Expr.flattenItems_within runArgs).length_eq,
      (Expr.typesOf_eq_ok.1 typedArgs).length_eq]
  obtain ⟨unneeded, infersJoined, refs⟩ := lookup join
  have queries : part.queries = parts.flatMap (·.queries) ++ (joined.map Prod.fst).toList := by
    rcases Application.queries_of_flatten flat with ⟨noLookup, equal⟩ | equal
    · rw [equal, unneeded noLookup]
      exact (List.append_nil _).symm
    · exact equal
  -- over rows with all that is joined, the arguments and the looked up columns have types
  have withRows : ∀ rows : Schema, rows.Spans names part.queries →
      (∀ p ∈ parts, rows.Spans names p.queries) ∧ part.expr.Infers x rows ∧
        ∀ r ∈ part.restrictions, r ∈ parts.flatMap (·.restrictions) ∨ r.Infers x rows := by
    intro rows spans
    have spansPart : ∀ p ∈ parts, rows.Spans names p.queries := by
      intro p member
      refine spans.mono fun q own => ?_
      rw [queries]
      exact List.mem_append_left _ (List.mem_flatMap.2 ⟨p, member, own⟩)
    refine ⟨spansPart, preserves rows rfl range width (List.forall_mem_map.2 fun p member => ?_)
      (fun c member => ?_) flat⟩
    · exact (each p member).expr rows (spansPart p member)
    · obtain ⟨q, among, name, own, rfl⟩ := refs c member
      refine Expr.infers_attr (spans.joined q ?_ name own)
      rw [queries]
      exact List.mem_append_right _ among
  refine ⟨fun q member => ?_, fun rows spans => (withRows rows spans).2.1,
    fun rows spans r member => ?_⟩
  · rw [queries] at member
    rcases List.mem_append.1 member with own | looked
    · obtain ⟨p, among, own⟩ := List.mem_flatMap.1 own
      exact (each p among).queries q own
    · exact infersJoined q looked
  · obtain ⟨spansPart, _, tests⟩ := withRows rows spans
    rcases tests r member with own | infers
    · obtain ⟨p, among, own⟩ := List.mem_flatMap.1 own
      exact (each p among).tests rows (spansPart p among) r own
    · exact infers

/-- A flat aggregation has a type. -/
theorem aggregate (fn : Aggregate) (arg : Expr) (ih : arg.FlattensInferring x) :
    (Expr.aggregate fn arg).FlattensInferring x := by
  intro plan schema inferred env type s t part names covers typed stem run
  rw [Expr.everywhere_aggregate] at plan
  obtain ⟨argType, typedArg, _⟩ := Expr.typeOf_aggregate.1 typed
  obtain ⟨flatArg, e, runArg, flat, rfl⟩ := Expr.yields_flatten_aggregate.1 run
  have infers := ih plan.2 covers typedArg stem runArg
  refine ⟨infers.queries, fun rows spans => ?_, infers.tests⟩
  have own := infers.expr rows spans
  obtain ⟨counted, rfl, origin⟩ := Expr.flattenAggregate_cases flat
  refine Expr.infers_aggregate ?_
  rcases origin with rfl | leaf
  · exact own
  · exact Expr.infers_iff_leaves.1 own counted leaf

/-- A flat choice has a type, also where it is distributed over a tuple. -/
theorem case (bs : List (Expr × Expr)) (default : Expr)
    (ihb : ∀ b ∈ bs, b.1.FlattensInferring x ∧ b.2.FlattensInferring x)
    (ihd : default.FlattensInferring x) :
    (Expr.case bs default).FlattensInferring x := by
  intro plan schema inferred env type s t part names covers typed stem run
  rw [Expr.everywhere_case] at plan
  obtain ⟨types, typedBranches, defaultType, typedDefault, _⟩ := Expr.typeOf_case.1 typed
  obtain ⟨parts, u, runBranches, last, e, runDefault, flat, rfl⟩ := Expr.yields_flatten_case.1 run
  have leads := Expr.flattenBranches_leads runBranches
  have infersLast := ihd plan.2.2 covers typedDefault (leads.stem.trans stem) runDefault
  have each : ∀ p ∈ parts, p.1.Infers x names ∧ p.2.Infers x names := by
    intro p member
    obtain ⟨b, among, condition, _, result⟩ :=
      exists_of_mem_right (Expr.flattenBranches_within runBranches) member
    obtain ⟨_, _, typedOwn⟩ :=
      exists_of_mem_right (Expr.branchTypesOf_eq_ok.1 typedBranches).flip among
    obtain ⟨_, _, stemCondition, runCondition⟩ := condition.exists_run stem
    obtain ⟨_, _, stemResult, runResult⟩ := result.exists_run stem
    exact ⟨(ihb b among).1 (plan.2.1 b among).1 covers typedOwn.1 stemCondition runCondition,
      (ihb b among).2 (plan.2.1 b among).2 covers typedOwn.2 stemResult runResult⟩
  refine gather (fun p member => ?_) (fun rows known => ?_)
  · rcases List.mem_append.1 member with own | own
    · obtain ⟨pair, among, own⟩ := List.mem_flatMap.1 own
      rcases List.mem_cons.1 own with rfl | own
      · exact (each pair among).1
      · exact List.mem_singleton.1 own ▸ (each pair among).2
    · exact List.mem_singleton.1 own ▸ infersLast
  · rw [List.forall_mem_append, List.forall_mem_singleton] at known
    obtain ⟨known, knownLast⟩ := known
    have branch : ∀ p ∈ parts, p.1.expr.Infers x rows ∧ p.2.expr.Infers x rows := fun p member =>
      ⟨known p.1 (List.mem_flatMap.2 ⟨p, member, List.mem_cons_self⟩),
        known p.2 (List.mem_flatMap.2 ⟨p, member, List.mem_cons_of_mem _ List.mem_cons_self⟩)⟩
    obtain ⟨same, rfl⟩ := Expr.flattenCase_eq_ok.1 flat
    have choose : ∀ chosen default, (∀ r ∈ chosen, r.Infers x rows) → default.Infers x rows →
        (Expr.case ((parts.map (·.1.expr)).zip chosen) default).Infers x rows := by
      intro chosen default among own
      refine Expr.infers_case (fun b member => ?_) own
      obtain ⟨onLeft, onRight⟩ := List.of_mem_zip member
      obtain ⟨p, among', equal⟩ := List.mem_map.1 onLeft
      exact ⟨equal ▸ (branch p among').1, among b.2 onRight⟩
    refine Expr.infers_iff_leaves.2 (Expr.of_distribute choose same (fun r member => ?_)
      (Expr.infers_iff_leaves.1 knownLast))
    obtain ⟨p, among, rfl⟩ := List.mem_map.1 member
    exact Expr.infers_iff_leaves.1 (branch p among).2

/-- The flat form of a query of one scalar column has one column. -/
theorem subquery {query flat : Query} {type : Ty} (ih : query.FlattensInferring x)
    (plan : query.Everywhere x.inferring) (infer : query.schemaOf x.checked = .ok schema)
    (only : schema.onlyType = .ok type) (stem : s.names.stem = x.stem)
    (run : (query.flattenSubquery x.permissive (query.flatten x.permissive)).Yields s flat t) :
    ∃ rows type, flat.schemaOf x.permissive = .ok rows ∧ rows.onlyType = .ok type := by
  obtain ⟨known, inferKnown, env, runQuery, scalar⟩ := Query.yields_flattenSubquery.1 run
  have flattens : x.Flattens query s flat env t := ⟨stem, runQuery⟩
  obtain ⟨rows, inferFlat⟩ := ih plan infer flattens
  obtain ⟨name, column⟩ := Schema.onlyType_eq_ok.1 only
  have outputs : query.outputNames = [name] := by
    rw [← Query.names_of_schemaOf infer, Schema.names, column]
    rfl
  have unbound : env.find? name = none := by
    cases found : env.find? name with
    | none => rfl
    | some rep =>
      have isTuple := (Query.bindings_drawn runQuery name rep found).isTuple
      have among : name ∈ known.names := by
        rw [Query.names_of_schemaOf inferKnown, outputs]
        exact List.mem_singleton.2 rfl
      obtain ⟨c, member, rfl⟩ := List.mem_map.1 among
      have noTuple := List.any_eq_false.1 scalar c member
      rw [found] at noTuple
      exact absurd isTuple noTuple
  have inPlace := Query.inPlace_of_flattens (Query.inPlace_of_inferring plan) infer flattens
  have names : rows.names = [name] := by
    rw [Query.names_of_schemaOf inferFlat, inPlace.columns, outputs, List.flatMap_singleton,
      Environment.leavesOf_of_unbound unbound]
  obtain ⟨c, columns, _⟩ := List.map_eq_singleton_iff.1 names
  exact ⟨rows, c.2, inferFlat, Schema.onlyType_eq_ok.2 ⟨c.1, columns⟩⟩

/-- A flat subquery has a type, since it has one column where its query has one. -/
theorem scalarSubquery (query : Query) (ih : query.FlattensInferring x) :
    (Expr.scalarSubquery query).FlattensInferring x := by
  intro plan schema inferred env type s t part names _ typed stem run
  rw [Expr.everywhere_scalarSubquery] at plan
  obtain ⟨inner, infer, only⟩ := Expr.typeOf_scalarSubquery.1 typed
  obtain ⟨flat, runQuery, rfl⟩ := Expr.yields_flatten_scalarSubquery.1 run
  obtain ⟨rows, own, inferFlat, onlyFlat⟩ := subquery ih plan.2 infer only stem runQuery
  exact plain fun _ _ => ⟨own, Expr.typeOf_scalarSubquery.2 ⟨rows, inferFlat, onlyFlat⟩⟩

theorem setSubquery (query : Query) (ih : query.FlattensInferring x) :
    (Expr.setSubquery query).FlattensInferring x := by
  intro plan schema inferred env type s t part names _ typed stem run
  rw [Expr.everywhere_setSubquery] at plan
  obtain ⟨inner, infer, member, only, _⟩ := Expr.typeOf_setSubquery.1 typed
  obtain ⟨flat, runQuery, rfl⟩ := Expr.yields_flatten_setSubquery.1 run
  obtain ⟨rows, own, inferFlat, onlyFlat⟩ := subquery ih plan.2 infer only stem runQuery
  exact plain fun _ _ => ⟨.set own, Expr.typeOf_setSubquery.2 ⟨rows, inferFlat, own, onlyFlat, rfl⟩⟩

/-! ## Flat queries -/

/-- The flat columns of a query are there for the columns of its schema. -/
theorem covers {q flat : Query} (plan : q.Everywhere x.inferring)
    (infer : q.schemaOf x.checked = .ok schema) (flattens : x.Flattens q s flat env t) :
    env.Covers schema flat.outputNames := by
  have inPlace := Query.inPlace_of_flattens (Query.inPlace_of_inferring plan) infer flattens
  intro name member leaf own
  have refs : (env.resolve name).leaves = (env.leavesOf name).map .attr := by
    unfold Environment.leavesOf Environment.resolve
    cases found : env.find? name with
    | none => rfl
    | some rep => exact (Query.bindings_drawn flattens.run name rep found).leaves
  rw [refs] at own
  obtain ⟨column, among, rfl⟩ := List.mem_map.1 own
  refine ⟨column, ?_, rfl⟩
  rw [inPlace.columns, List.mem_flatMap]
  exact ⟨name, Query.names_of_schemaOf infer ▸ member, among⟩

theorem empty : Query.empty.FlattensInferring x := by
  intro _ schema env s t flat _ flattens
  obtain ⟨rfl, _, _⟩ := Query.yields_flatten_empty.1 flattens.run
  exact ⟨_, Query.schemaOf_empty.2 rfl⟩

theorem table (name : String) (own : Schema) : (Query.table name own).FlattensInferring x := by
  intro _ schema env s t flat _ flattens
  obtain ⟨rfl, _, _⟩ := Query.yields_flatten_table.1 flattens.run
  exact ⟨_, Query.schemaOf_table.2 rfl⟩

theorem galaxy (g : Galaxy) : (Query.galaxy g).FlattensInferring x := by
  intro _ schema env s t flat _ flattens
  obtain ⟨underlying, _, u, known, own, _, infer, project, equal, _⟩ :=
    Query.yields_flatten_galaxy.1 flattens.run
  cases equal
  exact renamed infer project

/-- A flat projection has a schema: the columns that it exposes have types over the flat input and
the queries that are joined to it. -/
theorem project (cs : List (String × Expr)) (input : Query)
    (ihc : ∀ c ∈ cs, c.2.FlattensInferring x) (ih : input.FlattensInferring x) :
    (Query.project cs input).FlattensInferring x := by
  intro plan schema env s t flat infer flattens
  rw [Query.everywhere_project] at plan
  obtain ⟨_, planColumns, planInput⟩ := plan
  obtain ⟨inner, inferInput, typed⟩ := Query.schemaOf_project.1 infer
  obtain ⟨flatInput, envInput, u, runInput, known, _, outputs, runColumns, rfl, _⟩ :=
    Query.yields_flatten_project.1 flattens.run
  have flattensInput : x.Flattens input s flatInput envInput u := ⟨flattens.stem, runInput⟩
  have scope := covers planInput inferInput flattensInput
  have each : ∀ o ∈ outputs, ∃ part : Flattened, part.Infers x flatInput.outputNames ∧
      o.queries = part.queries ∧ o.restrictions = part.restrictions ∧
      ∀ c ∈ o.columns, c.2 ∈ part.expr.leaves := by
    intro o member
    obtain ⟨c, among, part, within, w, w', _, output, _⟩ :=
      exists_of_mem_right (Query.flattenColumns_within runColumns) member
    obtain ⟨_, _, column⟩ := exists_of_mem_right (Query.columnsOf_eq_ok.1 typed).flip among
    obtain ⟨_, _, stem, run⟩ := within.exists_run (flattensInput.leads.stem.trans flattens.stem)
    have carries := OutputColumn.carries_of_yields output
    exact ⟨part, ihc c among (planColumns c among) scope column.typed stem run, carries.queries,
      carries.restrictions, fun _ own => carries.mem_leaves own⟩
  have joined : ∀ q ∈ outputs.flatMap (·.queries), q.Infers x := by
    intro q member
    obtain ⟨o, among, own⟩ := List.mem_flatMap.1 member
    obtain ⟨part, infers, queries, _⟩ := each o among
    exact infers.queries q (queries ▸ own)
  obtain ⟨rows, inferJoined, spans⟩ :=
    Query.exists_schemaOf_productAll (ih planInput inferInput flattensInput) joined
  have spansPart : ∀ o ∈ outputs, rows.Spans flatInput.outputNames o.queries := fun o member =>
    spans.mono fun q own => List.mem_flatMap.2 ⟨o, member, own⟩
  refine Query.infers_project (Query.schemaOf_restrictAll inferJoined fun r member => ?_)
    fun c member => ?_
  · obtain ⟨o, among, own⟩ := List.mem_flatMap.1 member
    obtain ⟨part, infers, queries, restrictions, _⟩ := each o among
    exact infers.tests rows (queries ▸ spansPart o among) r (restrictions ▸ own)
  · obtain ⟨o, among, own⟩ := List.mem_flatMap.1 member
    obtain ⟨part, infers, queries, _, leaves⟩ := each o among
    exact Expr.infers_iff_leaves.1 (infers.expr rows (queries ▸ spansPart o among)) c.2
      (leaves c own)

/-- A flat restriction has a schema, also where queries are joined and dropped again. -/
theorem restrict (predicate : Expr) (input : Query) (ihp : predicate.FlattensInferring x)
    (ih : input.FlattensInferring x) : (Query.restrict predicate input).FlattensInferring x := by
  intro plan schema env s t flat infer flattens
  rw [Query.everywhere_restrict] at plan
  obtain ⟨_, planPredicate, planInput⟩ := plan
  obtain ⟨inferInput, type, typed, _⟩ := Query.schemaOf_restrict.1 infer
  obtain ⟨flatInput, u, known, part, runInput, _, runPredicate, restriction⟩ :=
    Query.yields_flatten_restrict.1 flattens.run
  have flattensInput : x.Flattens input s flatInput env u := ⟨flattens.stem, runInput⟩
  have infers := ihp planPredicate (covers planInput inferInput flattensInput) typed
    (flattensInput.leads.stem.trans flattens.stem) runPredicate
  obtain ⟨rows, inferJoined, spans⟩ :=
    Query.exists_schemaOf_productAll (ih planInput inferInput flattensInput) infers.queries
  have tests : ∀ e ∈ part.expr :: part.restrictions, e.Infers x rows :=
    List.forall_mem_cons.2 ⟨infers.expr rows spans, infers.tests rows spans⟩
  rcases Query.flattenRestriction_cases restriction with
    ⟨none, rfl⟩ | ⟨_, visible, inferVisible, rfl⟩
  · rw [none] at inferJoined
    exact ⟨rows, Query.schemaOf_restrictAll inferJoined tests⟩
  · refine Query.infers_project (Query.schemaOf_restrictAll inferJoined tests) fun c member => ?_
    obtain ⟨d, among, rfl⟩ := List.mem_map.1 member
    refine Expr.infers_attr (spans.own d.1 ?_)
    exact Query.names_of_schemaOf inferVisible ▸ Schema.mem_names_of_mem among

/-- Rows without joins. -/
theorem spans_own {q : Query} (infer : q.schemaOf x.permissive = .ok rows) :
    rows.Spans q.outputNames [] :=
  ⟨fun _ member => Query.names_of_schemaOf infer ▸ member, fun _ member => (by cases member)⟩

/-- A value that stands by itself joins no queries. -/
theorem queries_of_isSelfContained {part : Flattened} (h : part.isSelfContained = true) :
    part.queries = [] := by
  rw [Flattened.isSelfContained, Bool.and_eq_true, List.isEmpty_iff] at h
  exact h.1

/-- A flat grouping has a schema. -/
theorem grouping (cs : List (String × Expr)) (input : Query)
    (ihc : ∀ c ∈ cs, c.2.FlattensInferring x) (ih : input.FlattensInferring x) :
    (Query.grouping cs input).FlattensInferring x := by
  intro plan schema env s t flat infer flattens
  rw [Query.everywhere_grouping] at plan
  obtain ⟨_, planColumns, planInput⟩ := plan
  obtain ⟨inner, inferInput, typed⟩ := Query.schemaOf_grouping.1 infer
  obtain ⟨flatInput, envInput, u, runInput, known, _, flats, runGroups, rfl, _⟩ :=
    Query.yields_flatten_grouping.1 flattens.run
  have flattensInput : x.Flattens input s flatInput envInput u := ⟨flattens.stem, runInput⟩
  obtain ⟨rows, inferFlat⟩ := ih planInput inferInput flattensInput
  have each : ∀ f ∈ flats, f.2.Infers x rows := by
    intro f member
    obtain ⟨c, among, part, within, _, selfContained, rfl⟩ :=
      exists_of_mem_right (Query.flattenGroups_within runGroups) member
    obtain ⟨_, _, column⟩ := exists_of_mem_right (Query.columnsOf_eq_ok.1 typed).flip among
    obtain ⟨_, _, stem, run⟩ := within.exists_run (flattensInput.leads.stem.trans flattens.stem)
    have infers :=
      ihc c among (planColumns c among) (covers planInput inferInput flattensInput)
        column.typed stem run
    exact infers.expr rows (queries_of_isSelfContained selfContained ▸ spans_own inferFlat)
  obtain ⟨outputs, own⟩ := Query.exists_columnsOf each
  exact ⟨⟨outputs⟩, Query.schemaOf_grouping.2 ⟨rows, inferFlat, own⟩⟩

/-- A flat ordering has a schema. -/
theorem order (keys : List (Expr × Direction)) (input : Query)
    (ihk : ∀ k ∈ keys, k.1.FlattensInferring x) (ih : input.FlattensInferring x) :
    (Query.order keys input).FlattensInferring x := by
  intro plan schema env s t flat infer flattens
  rw [Query.everywhere_order] at plan
  obtain ⟨_, planKeys, planInput⟩ := plan
  obtain ⟨inferInput, typed⟩ := Query.schemaOf_order.1 infer
  obtain ⟨flatInput, u, known, flats, runInput, _, runKeys, rfl⟩ :=
    Query.yields_flatten_order.1 flattens.run
  have flattensInput : x.Flattens input s flatInput env u := ⟨flattens.stem, runInput⟩
  obtain ⟨rows, inferFlat⟩ := ih planInput inferInput flattensInput
  refine ⟨rows, Query.schemaOf_order.2 ⟨inferFlat, Query.checkKeys_eq_ok.2 fun f member => ?_⟩⟩
  obtain ⟨k, among, part, within, selfContained, leaf⟩ := Query.flattenKeys_within runKeys f member
  obtain ⟨_, _, stem, run⟩ := within.exists_run (flattensInput.leads.stem.trans flattens.stem)
  obtain ⟨_, typedKey, _⟩ := Query.checkKeys_eq_ok.1 typed k among
  have infers :=
    ihk k among (planKeys k among) (covers planInput inferInput flattensInput) typedKey stem run
  obtain ⟨type, typedLeaf⟩ := Expr.infers_iff_leaves.1
    (infers.expr rows (queries_of_isSelfContained selfContained ▸ spans_own inferFlat)) f.1 leaf
  exact ⟨type, typedLeaf, Session.require_permissive⟩

theorem top (offset count : UInt64) (input : Query) (ih : input.FlattensInferring x) :
    (Query.top offset count input).FlattensInferring x := by
  intro plan schema env s t flat infer flattens
  rw [Query.everywhere_top] at plan
  obtain ⟨flatInput, runInput, rfl⟩ := Query.yields_flatten_top.1 flattens.run
  obtain ⟨rows, inferFlat⟩ := ih plan.2 (Query.schemaOf_top.1 infer) ⟨flattens.stem, runInput⟩
  exact ⟨rows, Query.schemaOf_top.2 inferFlat⟩

/-- A flat combination has a schema, also where the columns of the operands are aligned first. -/
theorem combine (op : CombineOp) (left right : Query) (ihl : left.FlattensInferring x)
    (ihr : right.FlattensInferring x) : (Query.combine op left right).FlattensInferring x := by
  intro plan schema env s t flat infer flattens
  rw [Query.everywhere_combine] at plan
  obtain ⟨_, planLeft, planRight⟩ := plan
  obtain ⟨leftSchema, inferLeft, rightSchema, inferRight, _⟩ := Query.schemaOf_combine.1 infer
  obtain ⟨flatLeft, leftEnv, u, flatRight, rightEnv, flattensLeft, flattensRight, combined⟩ :=
    Query.combined_of_flattens flattens
  have hl := ihl planLeft inferLeft flattensLeft
  have hr := ihr planRight inferRight flattensRight
  have inPlace :=
    Query.inPlace_of_flattens (Query.inPlace_of_inferring planRight) inferRight flattensRight
  -- what is aligned are flat columns of the right
  have aligned :
      ∀ {pairs : List (String × String)} {aligned : Query} {columns : List (String × Expr)},
      (∀ p ∈ pairs, p.2 ∈ right.outputNames) →
      Query.Aligns pairs leftEnv rightEnv flatRight aligned columns → aligned.Infers x := by
    intro pairs aligned columns onRight alignment
    refine Query.infers_projection alignment.project hr fun c member => ?_
    obtain ⟨p, paired, source, among, equal⟩ := alignment.sources c member
    refine ⟨source, ?_, equal⟩
    rw [inPlace.columns, List.mem_flatMap]
    exact ⟨p.2, onRight p paired, among⟩
  cases combined with
  | plain | product => exact Query.infers_combine hl hr
  | quotient own alignment _ =>
    refine Query.infers_combine hl (aligned (fun p paired => ?_) alignment)
    obtain ⟨name, member, rfl⟩ := List.mem_map.1 paired
    exact member
  | setOperation _ _ alignment =>
    exact Query.infers_combine hl (aligned (fun p paired => (List.of_mem_zip paired).2) alignment)

/-- Flat plans have types and schemas, node by node. -/
theorem cases : Plan.Cases (Expr.FlattensInferring x) (Query.FlattensInferring x) where
  attr := attr
  const := const
  null := null
  apply op args _ := apply op args
  tuple := tuple
  aggregate := aggregate
  multiAggregate _ _ _ _ _ _ _ _ _ _ _ _ _ _ _ run :=
    (Expr.not_yields_flatten_multiAggregate run).elim
  case := case
  scalarSubquery := scalarSubquery
  setSubquery := setSubquery
  empty := empty
  table := table
  galaxy g _ := galaxy g
  project := project
  restrict := restrict
  combine := combine
  grouping := grouping
  order := order
  top := top

end Inference

/-- The flat form of an accepted plan has a schema. -/
theorem Query.infers_of_flattens {q flat : Query} (plan : q.Everywhere x.inferring)
    (accepted : q.schemaOf x.checked = .ok schema) (flattens : x.Flattens q s flat env t) :
    flat.Infers x :=
  (Inference.cases).query q plan accepted flattens

namespace Sample

theorem table_inferring {name : String} {columns : List Column}
    (plain : ∀ c ∈ columns, '_' ∉ c.1.toList) :
    (Query.table name ⟨columns⟩).Everywhere session.inferring := by
  rw [Query.everywhere_table]
  exact ⟨⟨Session.declares_names plain, trivial⟩, trivial⟩

theorem galaxyP_inferring : (Query.galaxy galaxyP).Everywhere session.inferring := by
  rw [Query.everywhere_galaxy]
  exact ⟨⟨⟨Session.declares_of_noUnderscore (by decide), trivial⟩, trivial⟩, table_inferring (by
    decide)⟩

theorem renamedPeople_inferring : renamedPeople.Everywhere session.inferring := by
  simp only [renamedPeople, Query.everywhere_project, Expr.everywhere_attr,
    List.forall_mem_singleton]
  exact ⟨⟨⟨Session.declares_all (by decide), by decide⟩, trivial⟩, ⟨⟨trivial, trivial⟩, trivial⟩,
    galaxyP_inferring⟩

/-- The names of the table are not bound among the people. -/
theorem renamedPeople_noCapture : session.NoCapture renamedPeople tableT := by
  intro s t flat env flattens name member _
  refine Query.unbound_of_project flattens.run ?_
  rcases eq_of_mem_tableT member with rfl | rfl <;> simp

theorem renamedRows_inferring : renamedRows.Everywhere session.inferring := by
  rw [renamedRows, Query.everywhere_combine]
  exact ⟨⟨⟨trivial, renamedPeople_noCapture⟩, trivial⟩, renamedPeople_inferring, table_inferring (by
    decide)⟩

end Sample

end FlatPlan
