import FlatPlan.Proofs.GalaxyTrace

/-!
# Plans that flattening is specified for

What a plan has to keep to so that its flat form can be described. `Vocabulary.admissible` is a
property of single nodes: tables have scalar columns of different names, a galaxy stands for a query
that flattens to the columns of its layout, no declared name looks like a fresh one, and no operand
of a product or a quotient captures a column of the other. `NodeProperty.distinctOutputs` says that
a projection names each of its columns differently. Main statement: the schema of such a plan has
different names and no products (`Query.schema_regular`). On an accepted plan the schemas that a run
infers are those that checking finds, so such a run is taken apart along the checked schemas
(`Session.Flattens.project` and its companions).
-/

namespace FlatPlan

open Pass

/-- No column of the right operand that the left one does not have is bound on the left. -/
def Session.NoCapture (x : Session) (left right : Query) : Prop :=
  ∀ ⦃s t : PassState⦄ ⦃flat : Query⦄ ⦃env : Environment⦄, x.Flattens left s flat env t →
    ∀ name ∈ right.outputNames, name ∉ left.outputNames → env.find? name = none

/-- A combination that captures no name leaves the names of the right operand unbound on the left.
-/
theorem Session.NoCapture.unbound {x : Session} {check : TypeCheck} {left right flat : Query}
    {s t : PassState} {env : Environment} {leftSchema rightSchema : Schema}
    (h : x.NoCapture left right)
    (flattens : x.Flattens left s flat env t) (inferLeft : left.schemaOf check = .ok leftSchema)
    (inferRight : right.schemaOf check = .ok rightSchema) :
    ∀ name ∈ rightSchema.names, name ∉ leftSchema.names → env.find? name = none := by
  rw [Query.names_of_schemaOf inferLeft, Query.names_of_schemaOf inferRight]
  exact h flattens

/-- A galaxy binds its own column only. -/
theorem Session.noCapture_galaxy {x : Session} {g : Galaxy} {right : Query} :
    x.NoCapture (.galaxy g) right := by
  intro s t flat env flattens name _ absent
  obtain ⟨_, _, _, _, _, _, _, _, equal, _⟩ := Query.yields_flatten_galaxy.1 flattens.run
  cases equal
  have other : name ≠ g.name := by
    rintro rfl
    exact absent (List.mem_singleton.2 rfl)
  rw [NameMap.find?_insert_of_ne _ _ other]
  rfl

namespace Vocabulary

variable (v : Vocabulary)

/-- A galaxy of structured type, whose query is accepted and flattens to the columns of the
layout. -/
structure Expands (g : Galaxy) (l : Layout) : Prop where
  layout : g.type.layout? = some l
  accepted : ∃ schema, g.query.checkSchema v.capabilities = .ok schema
  types : ∀ {s t : PassState} {flat : Query} {env : Environment} {schema : Schema},
    v.Flattens g.query s flat env t → flat.checkSchema v.capabilities = .ok schema →
    schema.columns.map Prod.snd = l.columns.map Prod.snd

/-- What the nodes of a plan keep to. -/
def admissible : NodeProperty where
  expr
    | .const type value => v.Names type ∧ type.Stores v.rules value
    | .null type => v.Names type
    | .apply op _ => op ∈ Operator.standard
    | _ => True
  query
    | .table _ schema => schema.names.Nodup ∧
        ∀ c ∈ schema.columns, v.Declares c.1 ∧ v.Names c.2 ∧ c.2.isScalar = true
    | .galaxy g => v.Declares g.name ∧ v.Names g.type ∧ ∃ l, v.Expands g l
    | .project columns _ => ∀ c ∈ columns, v.Declares c.1
    | .grouping columns _ => ∀ c ∈ columns, v.Declares c.1
    | .combine .product left right => v.NoCapture left right
    | .combine .quotient left right => v.NoCapture left right
    | _ => True

end Vocabulary

/-- Projections name each of their columns differently. -/
def NodeProperty.distinctOutputs : NodeProperty where
  expr _ := True
  query
    | .project columns _ => (columns.map Prod.fst).Nodup
    | .grouping columns _ => (columns.map Prod.fst).Nodup
    | _ => True

/-- An admissible plan whose projections have different output names. -/
def Vocabulary.plan (v : Vocabulary) : NodeProperty := v.admissible.and .distinctOutputs

/-- A schema of different declared names and of types that are no products. -/
structure Schema.Regular (v : Vocabulary) (schema : Schema) : Prop where
  distinct : schema.names.Nodup
  declared : ∀ c ∈ schema.columns, v.Declares c.1
  named : schema.NamedBy v
  noProduct : ∀ c ∈ schema.columns, c.2.isProduct = false

variable {v : Vocabulary}

/-! ## Nodes of a plan -/

namespace Vocabulary

theorem wording_of_plan_expr {e : Expr} (h : v.plan.expr e) : v.wording.expr e := by
  cases e with
  | const type value => exact h.1.1
  | null type => exact h.1
  | apply op args => exact Operator.regular_of_standard h.1
  | _ => trivial

theorem wording_of_plan_query {q : Query} (h : v.plan.query q) : v.wording.query q := by
  cases q with
  | table name schema =>
    intro c member
    exact (h.1.2 c member).2.1
  | galaxy g => exact h.1.2.1
  | _ => trivial

end Vocabulary

theorem Expr.wording_of_plan {e : Expr} (h : e.Everywhere v.plan) : e.Everywhere v.wording :=
  h.imp (fun _ => Vocabulary.wording_of_plan_expr) fun _ => Vocabulary.wording_of_plan_query

theorem Query.wording_of_plan {q : Query} (h : q.Everywhere v.plan) : q.Everywhere v.wording :=
  h.imp (fun _ => Vocabulary.wording_of_plan_expr) fun _ => Vocabulary.wording_of_plan_query

/-! ## Schemas of a plan -/

namespace Schema

variable {schema leftSchema rightSchema : Schema} {op : CombineOp}

/-- The columns of a combination come from one of its operands. -/
theorem mem_of_combine (namedLeft : leftSchema.NamedBy v) (namedRight : rightSchema.NamedBy v)
    (combined : Schema.combine v.checked op leftSchema rightSchema = .ok schema) {c : Column}
    (member : c ∈ schema.columns) : c ∈ leftSchema.columns ∨ c ∈ rightSchema.columns := by
  cases op with
  | product =>
    obtain ⟨_, rfl⟩ := product_checked.1 combined
    exact List.mem_append.1 member
  | quotient =>
    obtain ⟨_, rfl⟩ := quotient_eq_ok.1 combined
    exact .inl (List.mem_filter.1 member).1
  | union | intersection | difference =>
    obtain ⟨_, rfl⟩ := (matching_checked namedLeft namedRight).1 combined
    exact .inl member

/-- The columns of a combination have distinct names. -/
theorem nodup_of_combine (regularLeft : leftSchema.Regular v) (regularRight : rightSchema.Regular v)
    (combined : Schema.combine v.checked op leftSchema rightSchema = .ok schema) :
    schema.names.Nodup := by
  cases op with
  | product =>
    obtain ⟨apart, rfl⟩ := product_checked.1 combined
    rw [names, List.map_append, List.nodup_append]
    refine ⟨regularLeft.distinct, regularRight.distinct, ?_⟩
    rintro name onLeft _ onRight rfl
    obtain ⟨c, member, rfl⟩ := List.mem_map.1 onRight
    exact apart.disjoint c member onLeft
  | quotient =>
    obtain ⟨_, rfl⟩ := quotient_eq_ok.1 combined
    exact (List.filter_sublist.map Prod.fst).nodup regularLeft.distinct
  | union | intersection | difference =>
    obtain ⟨_, rfl⟩ := (matching_checked regularLeft.named regularRight.named).1 combined
    exact regularLeft.distinct

/-- A combination of regular schemas has a regular schema. -/
theorem Regular.combine (named : schema.NamedBy v) (regularLeft : leftSchema.Regular v)
    (regularRight : rightSchema.Regular v)
    (combined : Schema.combine v.checked op leftSchema rightSchema = .ok schema) :
    schema.Regular v where
  distinct := nodup_of_combine regularLeft regularRight combined
  declared c member :=
    (mem_of_combine regularLeft.named regularRight.named combined member).elim
      (regularLeft.declared c) (regularRight.declared c)
  named := named
  noProduct c member :=
    (mem_of_combine regularLeft.named regularRight.named combined member).elim
      (regularLeft.noProduct c) (regularRight.noProduct c)

end Schema

namespace Query

/-- No column holds a product. -/
theorem ColumnOf.isProduct_eq_false {inner : Schema} {grouping : Bool} {c : String × Expr}
    {column : Column} (h : ColumnOf v.checked inner grouping c column) :
    column.2.isProduct = false := by
  simpa using Session.require_checked.1 h.noProduct

/-- The columns of a projection aggregate nothing. -/
theorem ColumnOf.aggregateCount_eq_zero {inner : Schema} {c : String × Expr} {column : Column}
    (h : ColumnOf v.checked inner false c column) : c.2.aggregateCount = 0 := by
  simpa [Session.checked, Expr.hasAggregate] using h.placed

/-- The columns of a projection are what it declares, and none is a product. -/
theorem schema_regular_of_columnsOf {inner schema : Schema} {grouping : Bool}
    {columns : List (String × Expr)} (named : schema.NamedBy v)
    (distinct : (columns.map Prod.fst).Nodup)
    (declared : ∀ c ∈ columns, v.Declares c.1)
    (h : columnsOf v.checked inner grouping columns = .ok schema.columns) : schema.Regular v where
  distinct := by
    rw [names_of_columnsOf h]
    exact distinct
  declared c member := by
    have among : c.1 ∈ schema.names := Schema.mem_names_of_mem member
    rw [names_of_columnsOf h] at among
    obtain ⟨d, declares, equal⟩ := List.mem_map.1 among
    exact equal ▸ declared d declares
  named := named
  noProduct c member := by
    rw [columnsOf_eq_ok] at h
    obtain ⟨_, _, column⟩ := exists_of_mem_right h member
    exact column.isProduct_eq_false

/-- The schema of an admissible plan has different declared names and no products. -/
theorem schema_regular {schema : Schema} : ∀ q : Query, q.Everywhere v.plan →
    q.schemaOf v.checked = .ok schema → schema.Regular v
  | .empty, _, h => by
    rw [schemaOf_empty] at h
    rw [h]
    exact ⟨.nil, by
      simp [Schema.empty], by simp [Schema.NamedBy, Schema.empty], by simp [Schema.empty]⟩
  | .table name own, plan, h => by
    rw [schemaOf_table] at h
    rw [everywhere_table] at plan
    obtain ⟨⟨distinct, columns⟩, _⟩ := plan
    rw [h]
    refine ⟨distinct, fun c member => (columns c member).1,
      fun c member => (columns c member).2.1, ?_⟩
    intro c member
    exact Ty.isProduct_of_nonNull (Ty.isScalar_iff.1 (columns c member).2.2).2
  | .galaxy g, plan, h => by
    rw [schemaOf_galaxy] at h
    rw [everywhere_galaxy] at plan
    obtain ⟨⟨⟨declares, named, _, expands⟩, _⟩, _⟩ := plan
    have noProduct : g.type.isProduct = false := by
      obtain ⟨b, base, _⟩ := Ty.layout?_eq_some.1 expands.layout
      apply Ty.isProduct_of_nonNull
      rw [base]
      rfl
    have only : ∀ c ∈ g.schema.columns, c = (g.name, g.type) := fun c => List.mem_singleton.1
    rw [h]
    exact ⟨by
      simp [Galaxy.schema, Schema.single, Schema.names], fun c member => only c member ▸ declares,
      fun c member => only c member ▸ named, fun c member => only c member ▸ noProduct⟩
  | .project columns input, plan, h => by
    have named := (schemaOf_permissive (wording_of_plan plan) h).1
    obtain ⟨inner, _, typed⟩ := schemaOf_project.1 h
    rw [everywhere_project] at plan
    exact schema_regular_of_columnsOf named plan.1.2 plan.1.1 typed
  | .restrict predicate input, plan, h => by
    rw [everywhere_restrict] at plan
    exact schema_regular input plan.2.2 (schemaOf_restrict.1 h).1
  | .combine op left right, plan, h => by
    have named := (schemaOf_permissive (wording_of_plan plan) h).1
    obtain ⟨leftSchema, inferLeft, rightSchema, inferRight, combined⟩ := schemaOf_combine.1 h
    rw [everywhere_combine] at plan
    exact .combine named (schema_regular left plan.2.1 inferLeft)
      (schema_regular right plan.2.2 inferRight) combined
  | .grouping columns input, plan, h => by
    have named := (schemaOf_permissive (wording_of_plan plan) h).1
    obtain ⟨inner, _, typed⟩ := schemaOf_grouping.1 h
    rw [everywhere_grouping] at plan
    exact schema_regular_of_columnsOf named plan.1.2 plan.1.1 typed
  | .order keys input, plan, h => by
    rw [everywhere_order] at plan
    exact schema_regular input plan.2.2 (schemaOf_order.1 h).1
  | .top offset count input, plan, h => by
    rw [everywhere_top] at plan
    exact schema_regular input plan.2 (schemaOf_top.1 h)

end Query

/-! ## Runs on accepted plans -/

namespace Session.Flattens

variable {v : Vocabulary} {flat : Query}

theorem project {columns : List (String × Expr)} {input : Query}
    (h : v.Flattens (.project columns input) s flat env t) (plan : input.Everywhere v.plan)
    (infer : input.schemaOf v.checked = .ok schema) :
    ∃ flatInput envInput u outputs, v.Flattens input s flatInput envInput u ∧ s.Leads u ∧
      (Query.flattenColumns v.permissive envInput schema columns).Yields u outputs t ∧
      flat = Query.ofOutputs outputs flatInput ∧
      env = OutputColumn.withAliases columns envInput (OutputColumn.bindings outputs) := by
  obtain ⟨flatInput, envInput, u, runInput, inner, known, outputs, runColumns, rfl, rfl⟩ :=
    Query.yields_flatten_project.1 h.run
  cases (Query.schemaOf_permissive (Query.wording_of_plan plan) infer).2.symm.trans known
  exact ⟨flatInput, envInput, u, outputs, ⟨h.stem, runInput⟩,
    (input.flatten_advances v.permissive).leads runInput, runColumns, rfl, rfl⟩

theorem restrict {predicate : Expr} {input : Query}
    (h : v.Flattens (.restrict predicate input) s flat env t) (plan : input.Everywhere v.plan)
    (infer : input.schemaOf v.checked = .ok schema) :
    ∃ flatInput u part, v.Flattens input s flatInput env u ∧ s.Leads u ∧
      (predicate.flatten v.permissive env schema).Yields u part t ∧
      Query.flattenRestriction v.permissive predicate part flatInput = .ok flat := by
  obtain ⟨flatInput, u, inner, part, runInput, known, runPredicate, restriction⟩ :=
    Query.yields_flatten_restrict.1 h.run
  cases (Query.schemaOf_permissive (Query.wording_of_plan plan) infer).2.symm.trans known
  exact ⟨flatInput, u, part, ⟨h.stem, runInput⟩,
    (input.flatten_advances v.permissive).leads runInput, runPredicate, restriction⟩

theorem combine {op : CombineOp} {left right : Query} {leftSchema rightSchema : Schema}
    (h : v.Flattens (.combine op left right) s flat env t) (planLeft : left.Everywhere v.plan)
    (planRight : right.Everywhere v.plan) (inferLeft : left.schemaOf v.checked = .ok leftSchema)
    (inferRight : right.schemaOf v.checked = .ok rightSchema) :
    ∃ flatLeft leftEnv u flatRight rightEnv, v.Flattens left s flatLeft leftEnv u ∧
      v.Flattens right u flatRight rightEnv t ∧ s.Leads u ∧ u.Leads t ∧
      (((leftEnv.isEmpty = true ∧ rightEnv.isEmpty = true) ∧ flat = .combine op flatLeft flatRight ∧
          env = .empty) ∨
        Query.flattenCombination op flatLeft flatRight leftEnv rightEnv leftSchema rightSchema =
          .ok (flat, env)) := by
  obtain ⟨flatLeft, leftEnv, u, runLeft, flatRight, rightEnv, runRight, rest⟩ :=
    Query.yields_flatten_combine.1 h.run
  have before := (left.flatten_advances v.permissive).leads runLeft
  have behind := (right.flatten_advances v.permissive).leads runRight
  refine ⟨flatLeft, leftEnv, u, flatRight, rightEnv, ⟨h.stem, runLeft⟩,
    ⟨before.stem.trans h.stem, runRight⟩, before, behind, rest.imp_right ?_⟩
  rintro ⟨_, _, _, knownLeft, knownRight, combination⟩
  cases (Query.schemaOf_permissive (Query.wording_of_plan planLeft) inferLeft).2.symm.trans
    knownLeft
  cases (Query.schemaOf_permissive (Query.wording_of_plan planRight) inferRight).2.symm.trans
    knownRight
  exact combination

end Session.Flattens

end FlatPlan
