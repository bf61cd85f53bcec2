import FlatPlan.Proofs.FlatQuery
import FlatPlan.Proofs.Meaning
import FlatPlan.Proofs.Shapes

/-!
# Flattening keeps the meaning of expressions

Over the flat row the flat expression evaluates to the same cell as the expression over its row, if
each attribute does (`Expr.Simulates`). A comparison of tuples has the value of the comparison of
the vectors (`Equality.eval_compare`), and a choice that is distributed over a tuple chooses the
same vector (`Expr.eval_distribute`).
-/

namespace FlatPlan

open Pass

variable {rules : Rules} {I : Interpretation rules} {row : Row}

namespace Expr

theorem evalAll_eq_map (es : List Expr) : evalAll I row es = es.map (eval I row) := by
  induction es with
  | nil => rfl
  | cons e es ih => rw [evalAll, ih, List.map_cons]

theorem eval_apply (op : Operator) (args : List Expr) :
    (Expr.apply op args).eval I row = .scalar (I.apply op.name (args.map (eval I row))) := by
  rw [eval, evalAll_eq_map]

theorem eval_tuple (items : List Expr) :
    (Expr.tuple items).eval I row = .vector (items.map (eval I row)) := by
  rw [eval, evalAll_eq_map]

theorem evalConditions_eq_map (bs : List (Expr × Expr)) :
    evalConditions I row bs = bs.map fun b => b.1.eval I row := by
  induction bs with
  | nil => rfl
  | cons b bs ih => rw [evalConditions, ih, List.map_cons]

theorem evalResults_eq_map (bs : List (Expr × Expr)) :
    evalResults I row bs = bs.map fun b => b.2.eval I row := by
  induction bs with
  | nil => rfl
  | cons b bs ih => rw [evalResults, ih, List.map_cons]

theorem eval_case (bs : List (Expr × Expr)) (default : Expr) :
    (Expr.case bs default).eval I row =
      choose (default.eval I row) (bs.map fun b => b.1.eval I row)
        (bs.map fun b => b.2.eval I row) := by
  rw [eval, evalConditions_eq_map, evalResults_eq_map]

end Expr

/-! ## Choices -/

section Choose

variable {α β γ : Type}

/-- A function may be applied to what is chosen, or to all that may be. -/
theorem choose_map (f : α → β) (default : α) (conditions : List Cell) (results : List α) :
    choose (f default) conditions (results.map f) = f (choose default conditions results) := by
  induction conditions generalizing results with
  | nil => rfl
  | cons condition conditions ih =>
    cases results with
    | nil => rfl
    | cons result results =>
      rw [List.map_cons, choose, choose, ih]
      cases condition.isTrue <;> rfl

/-- Choosing between pairs is choosing by their conditions among their results. -/
theorem choose_zip (f : γ → Cell) (g : γ → α) (default : α) (conditions results : List γ) :
    choose default ((conditions.zip results).map fun b => f b.1)
      ((conditions.zip results).map fun b => g b.2) = choose default (conditions.map f)
        (results.map g) := by
  induction conditions generalizing results with
  | nil => rfl
  | cons condition conditions ih =>
    cases results with
    | nil => rfl
    | cons result results =>
      rw [List.zip_cons_cons, List.map_cons, List.map_cons, List.map_cons, List.map_cons,
        choose, choose, ih]

/-- Choosing between lists is choosing their heads and their tails. -/
theorem choose_cons (f : γ → α) (g : γ → List α) (first : α) (rest : List α)
    (conditions : List Cell) (results : List γ) :
    choose (first :: rest) conditions (results.map fun r => f r :: g r) =
      choose first conditions (results.map f) :: choose rest conditions (results.map g) := by
  induction conditions generalizing results with
  | nil => rfl
  | cons condition conditions ih =>
    cases results with
    | nil => rfl
    | cons result results =>
      rw [List.map_cons, List.map_cons, List.map_cons, choose, choose, choose, ih]
      cases condition.isTrue <;> rfl

end Choose

namespace Expr

mutual

/-- A distributed choice chooses as the choice between the whole values. -/
theorem eval_distribute {conditions : List Expr} : ∀ {default : Expr} {results : List Expr},
    (∀ r ∈ results, r.shape = default.shape) →
    (distribute conditions default results).eval I row =
      choose (default.eval I row) (conditions.map (eval I row)) (results.map (eval I row))
  | .tuple defaults, results, same => by
    obtain ⟨table, rfl, sameItems⟩ := exists_tuples_of_shape same
    have chosen := choose_map Cell.vector (defaults.map (eval I row)) (conditions.map (eval I row))
      (table.map fun items => items.map (eval I row))
    rw [distribute, filterMap_components?, eval_tuple, evalItems_distribute sameItems, ← chosen,
      eval_tuple, List.map_map, List.map_map]
    congr 1
    exact List.map_congr_left fun items _ => (eval_tuple items).symm
  | .attr _, _, _ | .const _ _, _, _ | .null _, _, _ | .apply _ _, _, _
  | .aggregate _ _, _, _ | .multiAggregate _ _, _, _ | .case _ _, _, _
  | .scalarSubquery _, _, _ | .setSubquery _, _, _ => by
    rw [distribute_of_noTuple rfl, eval_case, choose_zip]

/-- Distributing a choice over the items of tuples keeps the value of each item. -/
theorem evalItems_distribute {conditions : List Expr} : ∀ {defaults : List Expr}
    {table : List (List Expr)}, (∀ items ∈ table, shapes items = shapes defaults) →
    (distributeItems conditions defaults table).map (eval I row) =
      choose (defaults.map (eval I row)) (conditions.map (eval I row))
        (table.map fun items => items.map (eval I row))
  | [], table, same => by
    have empty : (table.map fun items => items.map (eval I row)) = table.map fun _ => [] := by
      refine List.map_congr_left fun items member => ?_
      cases items with
      | nil => rfl
      | cons e es => cases same _ member
    rw [distributeItems, empty]
    exact (choose_map (fun _ => []) [] _ table).symm
  | default :: defaults, table, same => by
    obtain ⟨pairs, rfl, heads⟩ := exists_heads_of_shapes same
    rw [distributeItems, List.map_cons, heads_of_pairs, tails_of_pairs, eval_distribute,
      evalItems_distribute, List.map_map, List.map_map, List.map_map]
    · exact (choose_cons (fun p : Expr × List Expr => p.1.eval I row)
        (fun p => p.2.map (eval I row)) _ _ _ pairs).symm
    · intro items member
      obtain ⟨p, among, rfl⟩ := List.mem_map.1 member
      exact (heads p among).2
    · intro e member
      obtain ⟨p, among, rfl⟩ := List.mem_map.1 member
      exact (heads p among).1

end

end Expr

/-! ## Comparisons -/

namespace Equality

variable (k : Equality)

/-- An equality means the comparison of its name. -/
theorem apply_name (a b : Cell) : I.apply k.name [a, b] = I.compare k a b := by
  cases k <;> rfl

/-- The operator that joins the parts of an equality means joining their answers. -/
theorem apply_joiner (a b : Value) : I.apply k.joiner [.scalar a, .scalar b] = k.join a b := by
  cases k <;> rfl

theorem eval_foldl {parts : List Expr} {values : List Value} {first : Expr} {value : Value}
    (evalFirst : first.eval I row = .scalar value)
    (evals : parts.map (Expr.eval I row) = values.map .scalar) :
    (parts.foldl (fun all part => .apply (.logical k.joiner) [all, part]) first).eval I row =
      .scalar (values.foldl k.join value) := by
  induction parts generalizing values first value with
  | nil =>
    cases values with
    | nil => exact evalFirst
    | cons v vs => cases evals
  | cons part parts ih =>
    cases values with
    | nil => cases evals
    | cons v vs =>
      rw [List.map_cons, List.map_cons, List.cons.injEq] at evals
      rw [List.foldl_cons, List.foldl_cons]
      refine ih ?_ evals.2
      rw [Expr.eval_apply, List.map_cons, List.map_cons, List.map_nil, evalFirst, evals.1]
      exact congrArg Cell.scalar (k.apply_joiner value v)

/-- The parts of an equality, joined by an operator, mean their answers joined. -/
theorem eval_joinAll {op : Operator} {parts : List Expr} {values : List Value} {e : Expr}
    (h : op.joinAll (.logical k.joiner) parts = .ok e)
    (evals : parts.map (Expr.eval I row) = values.map .scalar) :
    e.eval I row = .scalar (k.joinAll values) := by
  cases parts with
  | nil => cases h
  | cons first rest =>
    cases values with
    | nil => cases evals
    | cons v vs =>
      cases h
      rw [List.map_cons, List.map_cons, List.cons.injEq] at evals
      exact k.eval_foldl evals.1 evals.2

mutual

/-- The comparison of flat values compares the cells that they evaluate to. -/
theorem eval_compare : ∀ {left right e : Expr},
    (Operator.comparison k.name).compare (.logical k.joiner) left right = .ok e →
    e.eval I row = .scalar (I.compare k (left.eval I row) (right.eval I row))
  | .tuple ls, right, e, h => by
    cases right with
    | tuple rs =>
      rw [Operator.compare] at h
      split at h
      · obtain ⟨parts, compared, joined⟩ := bind_eq_ok.1 h
        rw [k.eval_joinAll joined (evals_compareItems compared), Expr.eval_tuple, Expr.eval_tuple,
          Interpretation.compare]
      · cases h
    | _ => cases h
  | .attr _, _, _, h | .const _ _, _, _, h | .null _, _, _, h | .apply _ _, _, _, h
  | .aggregate _ _, _, _, h | .multiAggregate _ _, _, _, h | .case _ _, _, _, h
  | .scalarSubquery _, _, _, h | .setSubquery _, _, _, h => by
    rw [Operator.compare_of_noTuple rfl (Operator.isTuple_of_compare h).symm] at h
    cases h
    rw [Expr.eval_apply]
    exact congrArg Cell.scalar (k.apply_name _ _)

/-- Comparing tuples item by item means comparing the values of the items. -/
theorem evals_compareItems : ∀ {ls rs parts : List Expr},
    (Operator.comparison k.name).compareItems (.logical k.joiner) ls rs = .ok parts →
    parts.map (Expr.eval I row) =
      (I.compareItems k (ls.map (Expr.eval I row)) (rs.map (Expr.eval I row))).map .scalar
  | [], rs, parts, h => by
    cases h
    rfl
  | l :: ls, [], parts, h => by
    cases h
    rfl
  | l :: ls, r :: rs, parts, h => by
    simp only [Operator.compareItems, bind_eq_ok, pure_eq_ok] at h
    obtain ⟨part, compared, rest, others, rfl⟩ := h
    rw [List.map_cons, eval_compare compared, evals_compareItems others]
    rfl

end

end Equality

/-! ## Constants -/

variable {v : Vocabulary}

theorem eval_nulls {type : Ty} {l : Layout} (named : v.Names type)
    (layout : type.layout? = some l) :
    l.nulls.eval I row = l.nullCell := by
  rw [Layout.nulls, Expr.eval_tuple, List.map_map, Layout.nullCell]
  refine congrArg Cell.vector (List.map_congr_left fun c member => ?_)
  have unstructured := (v.layout_columns named layout c member).2.1
  rw [Function.comp_apply, Expr.eval, Ty.nullCell, Ty.isStructured_eq_false.1 unstructured]

/-- The null that a type is stored as means the null of the type. -/
theorem eval_flattenNull {type : Ty} (named : v.Names type) :
    (Expr.flattenNull type).eval I row = type.nullCell := by
  unfold Expr.flattenNull
  cases layout : type.layout? with
  | none => rw [Expr.eval]
  | some l =>
    rw [Ty.nullCell, layout]
    exact eval_nulls named layout

/-- The constants of a layout mean themselves, since none is structured. -/
theorem eval_constants {l : Layout} {values : List Value}
    (unstructured : ∀ c ∈ l.columns, c.2.isStructured = false) :
    (Expr.tuple (l.constants values)).eval I row =
      (Expr.tuple (l.constants values)).constantCell := by
  rw [Expr.eval_tuple, Expr.constantCell, Layout.constants]
  refine congrArg Cell.vector ?_
  generalize l.columns = columns at unstructured
  induction columns generalizing values with
  | nil => rfl
  | cons c columns ih =>
    rw [List.forall_mem_cons] at unstructured
    cases values with
    | nil => rfl
    | cons value values =>
      rw [List.zipWith_cons_cons, List.map_cons, Expr.constantCells, Expr.constantCell,
        ih unstructured.2, Expr.eval, Ty.cell, Ty.isStructured_eq_false.1 unstructured.1]

/-- What a constant is stored as means the cell of the constant. -/
theorem eval_flattenConst {I : Interpretation v.rules} {type : Ty} {value : Value} {e : Expr}
    (named : v.Names type) (stores : type.Stores v.rules value)
    (h : Expr.flattenConst v.rules type value = .ok e) :
    e.eval I row = type.cell v.rules value := by
  rcases Expr.flattenConst_eq_ok.1 h with
    ⟨layout, rfl⟩ | ⟨l, layout, ⟨null, rfl⟩ | ⟨notNull, stored⟩⟩
  · rw [Expr.eval]
  · rw [Ty.cell, layout, null]
    exact eval_nulls named layout
  · obtain ⟨values, _, encoded⟩ :=
      v.stored_of_isMember named layout notNull (stores l e layout notNull stored)
    cases stored.symm.trans encoded
    simp only [Ty.cell, layout, notNull, Bool.false_eq_true, if_false, stored]
    exact eval_constants fun c member => (v.layout_columns named layout c member).2.1

/-! ## Expressions -/

/-- A flat row reads every attribute of a schema as the row does. -/
def Reads {rules : Rules} (I : Interpretation rules) (schema : Schema) (env : Environment)
    (row flatRow : Row) : Prop :=
  ∀ name ∈ schema.names, (env.resolve name).eval I flatRow = (Expr.attr name).eval I row

/-- Over a flat row that reads the attributes as a row does, the flat expression has the value of
the expression. -/
def Expr.Simulates (v : Vocabulary) (I : Interpretation v.rules) (e : Expr) : Prop :=
  ∀ {schema : Schema} {env : Environment} {type : Ty} {s t : PassState} {part : Flattened}
    {row flatRow : Row}, e.Everywhere v.plan → e.Everywhere .relational →
    e.typeOf v.checked schema = .ok type → Reads I schema env row flatRow →
    (e.flatten v.permissive env schema).Yields s part t → part.expr.eval I flatRow = e.eval I row

variable {schema : Schema} {env : Environment} {s t : PassState} {flatRow : Row}

namespace Simulation

variable {I : Interpretation v.rules}

/-- A reference means the value of what it is bound to. -/
theorem attr (name : String) : (Expr.attr name).Simulates v I := by
  intro schema env type s t part row flatRow _ _ typed reads run
  rw [(Expr.yields_flatten_attr.1 run).1]
  exact reads name (Schema.mem_names_of_mem (Schema.mem_of_get? (Expr.typeOf_attr.1 typed)))

/-- A constant means what it is stored as. -/
theorem const (own : Ty) (value : Value) : (Expr.const own value).Simulates v I := by
  intro schema env type s t part row flatRow plan _ _ _ run
  rw [Expr.everywhere_const] at plan
  obtain ⟨e, flat, rfl, _⟩ := Expr.yields_flatten_const.1 run
  rw [Expr.eval]
  exact eval_flattenConst plan.1.1 plan.1.2 flat

/-- A null means the nulls of its layout. -/
theorem null (own : Ty) : (Expr.null own).Simulates v I := by
  intro schema env type s t part row flatRow plan _ _ _ run
  rw [Expr.everywhere_null] at plan
  rw [(Expr.yields_flatten_null.1 run).1, Expr.eval]
  exact eval_flattenNull plan.1

/-- Flat expressions mean what the expressions do. -/
theorem items {es : List Expr} {types : List Ty} {parts : List Flattened}
    (ih : ∀ e ∈ es, e.Simulates v I) (plan : ∀ e ∈ es, e.Everywhere v.plan)
    (relational : ∀ e ∈ es, e.Everywhere .relational)
    (typed : Expr.typesOf v.checked schema es = .ok types) (reads : Reads I schema env row flatRow)
    (run : (Expr.flattenItems v.permissive env schema es).Yields s parts t) :
    (parts.map (·.expr)).map (Expr.eval I flatRow) = es.map (Expr.eval I row) := by
  rw [Expr.typesOf_eq_ok] at typed
  induction typed generalizing s parts with
  | nil =>
    rw [(Expr.yields_flattenItems_nil.1 run).1]
    rfl
  | cons first _ ihs =>
    rw [List.forall_mem_cons] at ih plan relational
    obtain ⟨part, u, head, others, tail, rfl⟩ := Expr.yields_flattenItems_cons.1 run
    rw [List.map_cons, List.map_cons, List.map_cons, ih.1 plan.1 relational.1 first reads head,
      ihs ih.2 plan.2 relational.2 tail]

/-- An equality comparison has the value of the comparison of its arguments. -/
theorem equality (k : Equality) {parts : List Flattened} {argTypes : List Ty} {part : Flattened}
    (rule : (Operator.comparison k.name).flattening = .componentwise (.logical k.joiner))
    (flat : Application.flatten v.rules ⟨.comparison k.name, parts.map (·.expr), argTypes, []⟩ none
      parts = .ok part) :
    part.expr.eval I row = .scalar
      (I.apply k.name ((parts.map (·.expr)).map (Expr.eval I row))) := by
  simp only [Application.flatten, rule] at flat
  split at flat
  case h_1 left right two =>
    simp only [bind_eq_ok, pure_eq_ok] at flat
    obtain ⟨e, compared, rfl⟩ := flat
    rw [Flattened.gather, k.eval_compare compared, two]
    exact congrArg Cell.scalar (k.apply_name _ _).symm
  case h_2 =>
    cases flat
    rw [Flattened.gather, Expr.eval_apply]
    rfl

/-- A flat application means the application of the operator to the values of its arguments. -/
theorem apply {op : Operator} {args : List Expr} (ih : ∀ e ∈ args, e.Simulates v I) :
    (Expr.apply op args).Simulates v I := by
  intro schema env type s t part row flatRow plan relational typed reads run
  obtain ⟨types, typedArgs, _⟩ := Expr.typeOf_apply.1 typed
  have regular : op.Regular v := (Expr.everywhere_apply op args).1 (Expr.wording_of_plan plan) |>.1
  rw [Expr.everywhere_apply] at plan relational
  obtain ⟨parts, flatArgs, rest⟩ := (Expr.yields_flatten_apply regular.noLookup).1 run
  have evals := items ih plan.2 relational.2 typedArgs reads flatArgs
  rw [Expr.eval_apply, ← evals]
  rcases rest with ⟨_, rfl⟩ | ⟨rule, argTypes, _, flat⟩
  · rw [Flattened.gather, Expr.eval_apply]
  · rcases regular with scalars | rfl | rfl
    · cases rule.symm.trans (by rw [Operator.hasRule, scalars.plain])
    · exact equality .equal rfl flat
    · exact equality .differ rfl flat

/-- A flat tuple means the values of its items. -/
theorem tuple {es : List Expr} (ih : ∀ e ∈ es, e.Simulates v I) :
    (Expr.tuple es).Simulates v I := by
  intro schema env type s t part row flatRow plan relational typed reads run
  obtain ⟨types, typedItems, rfl⟩ := Expr.typeOf_tuple.1 typed
  rw [Expr.everywhere_tuple] at plan relational
  obtain ⟨parts, flatItems, rfl⟩ := Expr.yields_flatten_tuple.1 run
  rw [Flattened.gather, Expr.eval_tuple, Expr.eval_tuple,
    items ih plan.2 relational.2 typedItems reads flatItems]

/-- Flat branches mean what the branches do. -/
theorem branches {bs : List (Expr × Expr)} {types : List (Ty × Ty)}
    {parts : List (Flattened × Flattened)} (ih : ∀ b ∈ bs, b.1.Simulates v I ∧ b.2.Simulates v I)
    (plan : ∀ b ∈ bs, b.1.Everywhere v.plan ∧ b.2.Everywhere v.plan)
    (relational : ∀ b ∈ bs, b.1.Everywhere .relational ∧ b.2.Everywhere .relational)
    (typed : Expr.branchTypesOf v.checked schema bs = .ok types)
    (reads : Reads I schema env row flatRow)
    (run : (Expr.flattenBranches v.permissive env schema bs).Yields s parts t) :
    (parts.map (·.1.expr)).map (Expr.eval I flatRow) = bs.map (fun b => b.1.eval I row) ∧
      (parts.map (·.2.expr)).map (Expr.eval I flatRow) = bs.map (fun b => b.2.eval I row) := by
  rw [Expr.branchTypesOf_eq_ok] at typed
  induction typed generalizing s parts with
  | nil =>
    rw [(Expr.yields_flattenBranches_nil.1 run).1]
    exact ⟨rfl, rfl⟩
  | @cons b type bs types typedBranch rest ihs =>
    obtain ⟨condition, result⟩ := b
    rw [List.forall_mem_cons] at ih plan relational
    obtain ⟨first, u, head, _, second, w, middle, others, tail, rfl⟩ :=
      Expr.yields_flattenBranches_cons.1 run
    obtain ⟨conditions, results⟩ := ihs ih.2 plan.2 relational.2 tail
    have evalCondition := ih.1.1 plan.1.1 relational.1.1 typedBranch.1 reads head
    have evalResult := ih.1.2 plan.1.2 relational.1.2 typedBranch.2 reads middle
    simp only [List.map_cons, evalCondition, evalResult, conditions, results, and_self]

/-- A flat choice means the choice, also where it is distributed. -/
theorem case {bs : List (Expr × Expr)} {default : Expr}
    (ihb : ∀ b ∈ bs, b.1.Simulates v I ∧ b.2.Simulates v I) (ihd : default.Simulates v I) :
    (Expr.case bs default).Simulates v I := by
  intro schema env type s t part row flatRow plan relational typed reads run
  obtain ⟨types, typedBranches, defaultType, typedDefault, _⟩ := Expr.typeOf_case.1 typed
  rw [Expr.everywhere_case] at plan relational
  obtain ⟨parts, u, flatBranches, last, e, flatDefault, flat, rfl⟩ := Expr.yields_flatten_case.1 run
  obtain ⟨conditions, results⟩ :=
    branches ihb plan.2.1 relational.2.1 typedBranches reads flatBranches
  have evalDefault := ihd plan.2.2 relational.2.2 typedDefault reads flatDefault
  obtain ⟨shapes, rfl⟩ := Expr.flattenCase_eq_ok.1 flat
  rw [Flattened.gather, Expr.eval_distribute shapes, Expr.eval_case, conditions,
    results, evalDefault]

end Simulation

end FlatPlan
