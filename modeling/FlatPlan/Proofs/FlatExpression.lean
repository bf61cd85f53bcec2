import FlatPlan.Proofs.Expansion

/-!
# Flattening an expression

A well-typed expression flattens to a value of its type over the flat columns, and over the standard
operators it needs no joins. The statement is about an expression whose subqueries flatten to their
expanded schemas; `FlatExpression.scalarSubquery` and its neighbours are the cases of one induction
over expressions and queries, each for one form of expression.
-/

namespace FlatPlan

/-- A flat expression that needs no joins and is a value of the type. -/
structure Flattened.Stands (v : Vocabulary) (rows : Schema) (free : Prop) (part : Flattened)
    (type : Ty) :
    Prop where
  queries : part.queries = []
  restrictions : part.restrictions = []
  represents : Represents v rows free part.expr type

/-- Flattening the expression gives a value of its type. -/
def Expr.FlattensWell (v : Vocabulary) (e : Expr) : Prop :=
  ∀ {schema rows : Schema} {env : Environment} {type : Ty} {s t : PassState} {part : Flattened}
    (free : Prop), e.Everywhere v.plan → Scope v schema env rows →
    e.typeOf v.checked schema = .ok type →
    (free → e.aggregateCount = 0) → s.names.stem = v.stem →
    (e.flatten v.permissive env schema).Yields s part t → part.Stands v rows free type

/-- Flattening the query gives the flat form of its schema. -/
def Query.FlattensWell (v : Vocabulary) (q : Query) : Prop :=
  ∀ {schema : Schema} {env : Environment} {s t : PassState} {flat : Query}, q.Everywhere v.plan →
    q.schemaOf v.checked = .ok schema → v.Flattens q s flat env t → FlatForm v schema s flat env t

variable {v : Vocabulary} {schema rows : Schema} {env : Environment} {free : Prop} {s t : PassState}

open Pass

theorem Flattened.Stands.plain {e : Expr} {type : Ty} (h : Represents v rows free e type) :
    (Flattened.plain e).Stands v rows free type :=
  ⟨rfl, rfl, h⟩

/-- A value made of parts that need no joins needs none. -/
theorem Flattened.Stands.gather {parts : List Flattened} {e : Expr} {type : Ty}
    (selfContained : ∀ part ∈ parts, part.queries = [] ∧ part.restrictions = [])
    (h : Represents v rows free e type) : (Flattened.gather parts e).Stands v rows free type where
  queries := List.flatMap_eq_nil_iff.2 fun part member => (selfContained part member).1
  restrictions := List.flatMap_eq_nil_iff.2 fun part member => (selfContained part member).2
  represents := h

/-- What stands for a value joins no query and restricts no row. -/
theorem Flattened.Stands.isSelfContained {part : Flattened} {type : Ty}
    (h : part.Stands v rows free type) :
    part.isSelfContained = true := by
  rw [Flattened.isSelfContained, h.queries, h.restrictions]
  rfl

namespace FlatExpression

theorem selfContained {parts : List Flattened} {types : List Ty}
    (h : List.Forall₂ (Flattened.Stands v rows free) parts types) :
    ∀ part ∈ parts, part.queries = [] ∧ part.restrictions = [] := by
  intro part member
  obtain ⟨_, _, stands⟩ := exists_of_mem_right h.flip member
  exact ⟨stands.queries, stands.restrictions⟩

theorem representAll {parts : List Flattened} {types : List Ty}
    (h : List.Forall₂ (Flattened.Stands v rows free) parts types) :
    RepresentAll v rows free (parts.map (·.expr)) types := by
  rw [representAll_iff, List.forall₂_map_left_iff]
  exact h.imp fun _ _ stands => stands.represents

/-- Flat expressions stand for values of the types of the expressions. -/
theorem items {es : List Expr} {types : List Ty} {parts : List Flattened}
    (ih : ∀ e ∈ es, e.FlattensWell v) (plan : ∀ e ∈ es, e.Everywhere v.plan)
    (scope : Scope v schema env rows) (typed : Expr.typesOf v.checked schema es = .ok types)
    (count : free → ∀ e ∈ es, e.aggregateCount = 0) (stem : s.names.stem = v.stem)
    (run : (Expr.flattenItems v.permissive env schema es).Yields s parts t) :
    List.Forall₂ (Flattened.Stands v rows free) parts types := by
  rw [Expr.typesOf_eq_ok] at typed
  induction typed generalizing s parts with
  | nil =>
    rw [(Expr.yields_flattenItems_nil.1 run).1]
    exact .nil
  | @cons e type es types first rest ihs =>
    rw [List.forall_mem_cons] at ih plan
    simp only [List.forall_mem_cons] at count
    obtain ⟨part, u, head, others, tail, rfl⟩ := Expr.yields_flattenItems_cons.1 run
    have leads := (e.flatten_advances v.permissive env schema).leads head
    refine .cons (ih.1 free plan.1 scope first (fun isFree => (count isFree).1) stem head) ?_
    exact ihs ih.2 plan.2 (fun isFree => (count isFree).2) (leads.stem.trans stem) tail

/-- Flat branches stand for conditions and results of their types. -/
theorem branches {bs : List (Expr × Expr)} {types : List (Ty × Ty)}
    {parts : List (Flattened × Flattened)} (ih : ∀ b ∈ bs, b.1.FlattensWell v ∧ b.2.FlattensWell v)
    (plan : ∀ b ∈ bs, b.1.Everywhere v.plan ∧ b.2.Everywhere v.plan)
    (scope : Scope v schema env rows)
    (typed : Expr.branchTypesOf v.checked schema bs = .ok types)
    (count : free → ∀ b ∈ bs, b.1.aggregateCount = 0 ∧ b.2.aggregateCount = 0)
    (stem : s.names.stem = v.stem)
    (run : (Expr.flattenBranches v.permissive env schema bs).Yields s parts t) :
    List.Forall₂
      (fun part types => part.1.expr.isTuple = false ∧ part.1.Stands v rows free types.1 ∧
      part.2.Stands v rows free types.2) parts types := by
  rw [Expr.branchTypesOf_eq_ok] at typed
  induction typed generalizing s parts with
  | nil =>
    rw [(Expr.yields_flattenBranches_nil.1 run).1]
    exact .nil
  | @cons b type bs types typedBranch rest ihs =>
    obtain ⟨condition, result⟩ := b
    rw [List.forall_mem_cons] at ih plan
    simp only [List.forall_mem_cons] at count
    obtain ⟨first, u, head, noTuple, second, w, middle, others, tail, rfl⟩ :=
      Expr.yields_flattenBranches_cons.1 run
    have leads := (condition.flatten_advances v.permissive env schema).leads head
    have leads' := leads.trans ((result.flatten_advances v.permissive env schema).leads middle)
    refine .cons ⟨noTuple, ?_, ?_⟩ ?_
    · exact ih.1.1 free plan.1.1 scope typedBranch.1 (fun isFree => (count isFree).1.1) stem head
    · exact ih.1.2 free plan.1.2 scope typedBranch.2 (fun isFree => (count isFree).1.2)
        (leads.stem.trans stem) middle
    · exact ihs ih.2 plan.2 (fun isFree => (count isFree).2) (leads'.stem.trans stem) tail

/-- An operator on scalars is applied to the flat arguments, which are leaves. -/
theorem apply_onScalars {op : Operator} {args : List Expr} {types : List Ty} {type : Ty}
    (scalars : op.OnScalars v) (named : ∀ t ∈ types, v.Names t)
    (range : op.range v.checked types = .ok type) (h : RepresentAll v rows free args types) :
    Represents v rows free (.apply op args) type := by
  obtain ⟨scalarArgs, scalar, namedType, _⟩ := scalars.range named range
  have leaves := h.leaves fun t member => Ty.components?_of_isScalar (scalarArgs t member)
  exact .leaf (.apply (.inl scalars) leaves range
    (Ty.isStructured_eq_false.2 (Ty.isScalar_iff.1 scalar).1) namedType)

/-- An equality comparison is made leaf by leaf. -/
theorem apply_equality {name joiner : String} {args : List Expr} {argTypes types : List Ty}
    {type : Ty} {parts : List Flattened} {part : Flattened}
    (equality : Operator.isEquality name = true)
    (rule : (Operator.comparison name).flattening = .componentwise (.logical joiner))
    (named : ∀ t ∈ types, v.Names t)
    (range : (Operator.comparison name).range v.checked types = .ok type)
    (h : RepresentAll v rows free args types)
    (contained : ∀ part ∈ parts, part.queries = [] ∧ part.restrictions = [])
    (flat : Application.flatten v.rules ⟨.comparison name, args, argTypes, []⟩ none
      parts = .ok part) :
    part.Stands v rows free type := by
  obtain ⟨left, right, rfl, agree, rfl⟩ := (Operator.range_equality equality named).1 range
  cases h with
  | cons first rest =>
    cases rest with
    | cons second rest =>
      cases rest
      simp only [Application.flatten, rule, bind_eq_ok, pure_eq_ok] at flat
      obtain ⟨e, compared, rfl⟩ := flat
      exact .gather contained (.leaf (Represents.compare equality first second agree compared))

/-- A flat application stands for an answer of its operator, item by item if it compares tuples. -/
theorem apply {op : Operator} {args : List Expr} (ih : ∀ e ∈ args, e.FlattensWell v) :
    (Expr.apply op args).FlattensWell v := by
  intro schema rows env type s t part free plan scope typed count stem run
  have words := Expr.wording_of_plan plan
  obtain ⟨types, typedArgs, range⟩ := Expr.typeOf_apply.1 typed
  rw [Expr.everywhere_apply] at plan words
  rw [Expr.aggregateCount, Expr.itemAggregateCount_eq_zero] at count
  have named := (Expr.typesOf_permissive words.2 scope.named typedArgs).1
  have regular : op.Regular v := words.1
  obtain ⟨parts, flatArgs, rest⟩ := (Expr.yields_flatten_apply regular.noLookup).1 run
  have stand := items ih plan.2 scope typedArgs count stem flatArgs
  rcases regular with scalars | rfl | rfl
  · rcases rest with ⟨_, rfl⟩ | ⟨rule, _⟩
    · exact .gather (selfContained stand) (apply_onScalars scalars named range (representAll stand))
    · cases rule.symm.trans (by rw [Operator.hasRule, scalars.plain])
  · rcases rest with ⟨noRule, _⟩ | ⟨_, _, _, flat⟩
    · cases noRule
    · exact apply_equality rfl rfl named range (representAll stand) (selfContained stand) flat
  · rcases rest with ⟨noRule, _⟩ | ⟨_, _, _, flat⟩
    · cases noRule
    · exact apply_equality rfl rfl named range (representAll stand) (selfContained stand) flat

/-- A reference is replaced by what its name is bound to. -/
theorem attr (name : String) : (Expr.attr name).FlattensWell v := by
  intro schema rows env type s t part free _ scope typed _ _ run
  rw [(Expr.yields_flatten_attr.1 run).1]
  exact .plain (scope.reads (Expr.typeOf_attr.1 typed))

/-- A constant is replaced by what it is stored as. -/
theorem const (own : Ty) (value : Value) : (Expr.const own value).FlattensWell v := by
  intro schema rows env type s t part free plan _ typed _ _ run
  rw [Expr.everywhere_const] at plan
  obtain ⟨e, flat, rfl, _⟩ := Expr.yields_flatten_const.1 run
  rw [Expr.typeOf_const.1 typed]
  exact .plain (.flattenConst plan.1.1 plan.1.2 flat)

/-- A null is replaced by the nulls of its layout. -/
theorem null (own : Ty) : (Expr.null own).FlattensWell v := by
  intro schema rows env type s t part free plan _ typed _ _ run
  rw [Expr.everywhere_null] at plan
  rw [(Expr.yields_flatten_null.1 run).1, Expr.typeOf_null.1 typed]
  exact .plain (.flattenNull plan.1)

theorem tuple {es : List Expr} (ih : ∀ e ∈ es, e.FlattensWell v) :
    (Expr.tuple es).FlattensWell v := by
  intro schema rows env type s t part free plan scope typed count stem run
  obtain ⟨types, typedItems, rfl⟩ := Expr.typeOf_tuple.1 typed
  rw [Expr.everywhere_tuple] at plan
  rw [Expr.aggregateCount, Expr.itemAggregateCount_eq_zero] at count
  obtain ⟨parts, flatItems, rfl⟩ := Expr.yields_flatten_tuple.1 run
  have stand := items ih plan.2 scope typedItems count stem flatItems
  exact .gather (selfContained stand) (.tuple rfl (representAll stand))

/-- A flat aggregation stands for its answer, and is of one column. -/
theorem aggregate (fn : Aggregate) {arg : Expr} (ih : arg.FlattensWell v) :
    (Expr.aggregate fn arg).FlattensWell v := by
  intro schema rows env type s t part free plan scope typed count stem run
  obtain ⟨argType, typedArg, range⟩ := Expr.typeOf_aggregate.1 typed
  rw [Expr.everywhere_aggregate] at plan
  have notFree : ¬free := by
    intro isFree
    have none := count isFree
    rw [Expr.aggregateCount] at none
    omega
  obtain ⟨part', e, flatArg, flat, rfl⟩ := Expr.yields_flatten_aggregate.1 run
  have stands := ih free plan.2 scope typedArg (fun isFree => absurd isFree notFree) stem flatArg
  exact ⟨stands.queries, stands.restrictions,
    .leaf (stands.represents.flattenAggregate notFree range flat)⟩

/-- An aggregation of several columns does not flatten. -/
theorem multiAggregate (fn : MultiAggregate) (args : List Expr) :
    (Expr.multiAggregate fn args).FlattensWell v := by
  intro schema rows env type s t part free _ _ _ _ _ run
  exact absurd run Expr.not_yields_flatten_multiAggregate

/-- A flat choice stands for its answer, also where it is distributed over a tuple. -/
theorem case {bs : List (Expr × Expr)} {default : Expr}
    (ihb : ∀ b ∈ bs, b.1.FlattensWell v ∧ b.2.FlattensWell v) (ihd : default.FlattensWell v) :
    (Expr.case bs default).FlattensWell v := by
  intro schema rows env type s t part free plan scope typed count stem run
  have words := Expr.wording_of_plan plan
  obtain ⟨types, typedBranches, defaultType, typedDefault, chosen⟩ := Expr.typeOf_case.1 typed
  rw [Expr.everywhere_case] at plan words
  simp only [Expr.aggregateCount, Nat.add_eq_zero_iff, Expr.branchAggregateCount_eq_zero] at count
  have namedDefault := (Expr.typeOf_permissive words.2.2 scope.named typedDefault).1
  have namedTypes := (Expr.branchTypesOf_permissive words.2.1 scope.named typedBranches).1
  obtain ⟨parts, u, flatBranches, last, e, flatDefault, flat, rfl⟩ := Expr.yields_flatten_case.1 run
  have stand :=
    branches ihb plan.2.1 scope typedBranches (fun isFree => (count isFree).1) stem flatBranches
  have leads := (Expr.flattenBranches_advances _ v.permissive env schema).leads flatBranches
  have standDefault := ihd free plan.2.2 scope typedDefault (fun isFree => (count isFree).2)
    (leads.stem.trans stem) flatDefault
  let flatParts := parts.map fun part => (part.1.expr, part.2.expr)
  have standParts : List.Forall₂ (fun b types =>
      Leaf v rows free b.1 types.1 ∧ Represents v rows free b.2 types.2) flatParts types := by
    rw [List.forall₂_map_left_iff]
    exact stand.imp fun part types h => ⟨h.2.1.represents.leaf_of_noTuple h.1, h.2.2.represents⟩
  have flatCase : (Expr.case bs default).flattenCase (flatParts.map Prod.fst)
      (flatParts.map Prod.snd) last.expr = .ok e := by
    rw [List.map_map, List.map_map]
    exact flat
  refine .gather (fun part member => ?_)
    (.flattenCase standParts namedTypes namedDefault chosen standDefault.represents flatCase)
  rcases List.mem_append.1 member with member | member
  · obtain ⟨pair, among, part'⟩ := List.mem_flatMap.1 member
    obtain ⟨_, _, _, first, second⟩ := exists_of_mem_right stand.flip among
    simp only [List.mem_cons, List.not_mem_nil, or_false] at part'
    rcases part' with rfl | rfl
    · exact ⟨first.queries, first.restrictions⟩
    · exact ⟨second.queries, second.restrictions⟩
  · rw [List.mem_singleton.1 member]
    exact ⟨standDefault.queries, standDefault.restrictions⟩

/-- A query used as a value keeps its single column, which is not structured. -/
theorem subquery {query flat : Query} {inner : Schema} {type : Ty} (ih : query.FlattensWell v)
    (plan : query.Everywhere v.plan) (infer : query.schemaOf v.checked = .ok inner)
    (only : inner.onlyType = .ok type) (stem : s.names.stem = v.stem)
    (run : (query.flattenSubquery v.permissive (query.flatten v.permissive)).Yields s flat t) :
    flat.schemaOf v.checked = .ok inner ∧ flat.Everywhere v.flatPlan ∧ type.isStructured = false ∧
      v.Names type := by
  obtain ⟨named, permissive⟩ := Query.schemaOf_permissive (Query.wording_of_plan plan) infer
  obtain ⟨_, known, env, flattens, scalar⟩ := Query.yields_flattenSubquery.1 run
  cases permissive.symm.trans known
  obtain ⟨name, column⟩ := Schema.onlyType_eq_ok.1 only
  have member : (name, type) ∈ inner.columns := by rw [column]; exact List.mem_cons_self
  have form := ih plan infer ⟨stem, flattens⟩
  have unstructured : type.layout? = none := by
    cases layout : type.layout? with
    | none => rfl
    | some l =>
      obtain ⟨names, bound, _⟩ := (Environment.carries_structured layout).1 (form.carries _ member)
      refine absurd (List.any_eq_true.2 ⟨_, member, ?_⟩) (Bool.eq_false_iff.1 scalar)
      rw [bound]
      rfl
  have same : env.expand inner = inner := by
    refine Environment.expand_of_unstructured fun c among => ?_
    rw [column] at among
    rw [List.mem_singleton.1 among]
    exact unstructured
  exact ⟨same ▸ form.typed, form.nodes, Ty.isStructured_eq_false.2 unstructured, named _ member⟩

/-- A flat scalar subquery stands for the value of its only column. -/
theorem scalarSubquery {query : Query} (ih : query.FlattensWell v) :
    (Expr.scalarSubquery query).FlattensWell v := by
  intro schema rows env type s t part free plan _ typed _ stem run
  obtain ⟨inner, infer, only⟩ := Expr.typeOf_scalarSubquery.1 typed
  rw [Expr.everywhere_scalarSubquery] at plan
  obtain ⟨flat, flattens, rfl⟩ := Expr.yields_flatten_scalarSubquery.1 run
  obtain ⟨inferFlat, nodes, unstructured, named⟩ := subquery ih plan.2 infer only stem flattens
  exact .plain (.leaf (.scalarSubquery inferFlat only nodes unstructured named))

/-- A flat set subquery stands for the set of values of its only column. -/
theorem setSubquery {query : Query} (ih : query.FlattensWell v) :
    (Expr.setSubquery query).FlattensWell v := by
  intro schema rows env type s t part free plan _ typed _ stem run
  obtain ⟨inner, infer, member, only, rfl⟩ := Expr.typeOf_setSubquery.1 typed
  rw [Expr.everywhere_setSubquery] at plan
  obtain ⟨flat, flattens, rfl⟩ := Expr.yields_flatten_setSubquery.1 run
  obtain ⟨inferFlat, nodes, _, named⟩ := subquery ih plan.2 infer only stem flattens
  exact .plain (.leaf (.setSubquery inferFlat only nodes named))

end FlatExpression

end FlatPlan
