import FlatPlan.Proofs.Relabelling

/-!
# Renaming and the steps of flattening

Each step of flattening that needs no state does the same under new names: it fails on both sides,
or it gives the renamed answer (`Alike`). Inference is one of them, since an injective renaming
keeps apart what was apart before (`Query.alike_schemaOf`).
-/

namespace FlatPlan

/-- Two answers of which the second is the first under `f`, or that are both errors. -/
inductive Alike {α β : Type} (f : α → β) : Except Error α → Except Error β → Prop
  | ok (a : α) : Alike f (.ok a) (.ok (f a))
  | error (e e' : Error) : Alike f (.error e) (.error e')

namespace Alike

variable {α α' β β' : Type} {f : α → α'} {g : β → β'}

/-- An outcome is like itself. -/
theorem refl (r : Except Error α) : Alike id r r := by
  cases r with
  | ok a => exact .ok a
  | error e => exact .error e e

/-- Two answers are alike if the second is the first under the renaming. -/
theorem of_eq {a : α} {b : α'} (same : b = f a) : Alike f (pure a) (pure b) := same ▸ .ok a

/-- Of two answers that are alike the second is the first under the renaming. -/
theorem eq_of_ok {a : α} {b : α'} (alike : Alike f (.ok a) (.ok b)) : b = f a := by
  cases alike
  rfl

/-- Only what `f` does to the answer counts. -/
theorem congr {h : α → α'} {r : Except Error α} {r' : Except Error α'} (alike : Alike f r r')
    (agree : ∀ a, r = .ok a → f a = h a) : Alike h r r' := by
  cases alike with
  | ok a => exact .of_eq (agree a rfl)
  | error e e' => exact .error e e'

/-- Steps that are alike may be taken one after the other. The second one has to be alike only where
the first one answers. -/
theorem bind {r : Except Error α} {r' : Except Error α'} {k : α → Except Error β}
    {k' : α' → Except Error β'} (first : Alike f r r')
    (rest : ∀ a, r = .ok a → Alike g (k a) (k' (f a))) : Alike g (r >>= k) (r' >>= k') := by
  cases first with
  | ok a => exact rest a rfl
  | error e e' => exact .error e e'

/-- Outcomes that are alike in both cases of a decision are alike. -/
theorem ite {c : Prop} [Decidable c] {r s : Except Error α} {r' s' : Except Error α'}
    (first : Alike f r r') (second : Alike f s s') :
    Alike f (if c then r else s) (if c then r' else s') := by
  by_cases h : c
  · rw [if_pos h, if_pos h]; exact first
  · rw [if_neg h, if_neg h]; exact second

/-- Folds of alike steps are alike. -/
theorem foldlM {step : β → α → Except Error β} {step' : β' → α' → Except Error β'}
    (each : ∀ b a, Alike g (step b a) (step' (g b) (f a))) (l : List α) (b : β) :
    Alike g (l.foldlM step b) ((l.map f).foldlM step' (g b)) := by
  induction l generalizing b with
  | nil => exact .ok b
  | cons a l ih =>
    rw [List.map_cons, List.foldlM_cons, List.foldlM_cons]
    exact (each b a).bind fun next _ => ih next

/-- Mapping alike steps over a list and over its renaming is alike. -/
theorem mapM {step : α → Except Error β} {step' : α' → Except Error β'} {l : List α}
    (each : ∀ a ∈ l, Alike g (step a) (step' (f a))) :
    Alike (List.map g) (l.mapM step) ((l.map f).mapM step') := by
  induction l with
  | nil => exact .ok []
  | cons a l ih =>
    rw [List.forall_mem_cons] at each
    rw [List.map_cons, List.mapM_cons, List.mapM_cons]
    exact each.1.bind fun b _ => (ih each.2).bind fun bs _ => .ok (b :: bs)

/-- Answers of the same condition, one error for both ways to miss it. -/
theorem unit_of_iff {r r' : Except Error Unit} (same : r = .ok () ↔ r' = .ok ()) :
    Alike id r r' := by
  cases r with
  | ok _ =>
    rw [same.1 rfl]
    exact .ok ()
  | error e =>
    cases r' with
    | ok _ => cases same.2 rfl
    | error e' => exact .error e e'

end Alike

variable {σ : String → String}

/-! ## Flat values -/

namespace Expr

/-- Renaming makes no tuple of a scalar. -/
@[simp] theorem isTuple_relabel (e : Expr) : (e.relabel σ).isTuple = e.isTuple := by
  cases e <;> simp [isTuple]

mutual

/-- The leaves of a renamed value are its leaves, renamed. -/
theorem leaves_relabel : ∀ e : Expr, (e.relabel σ).leaves = e.leaves.map (relabel σ)
  | .tuple items => by rw [relabel_tuple, leaves, leaves, itemLeaves_relabel items]
  | .attr _ | .const _ _ | .null _ | .apply _ _ | .aggregate _ _ | .multiAggregate _ _ | .case _ _
  | .scalarSubquery _ | .setSubquery _ => by simp [leaves]

theorem itemLeaves_relabel :
    ∀ es : List Expr, itemLeaves (es.map (relabel σ)) = (itemLeaves es).map (relabel σ)
  | [] => rfl
  | e :: es => by
    rw [List.map_cons, itemLeaves, itemLeaves, leaves_relabel e, itemLeaves_relabel es,
      List.map_append]

end

/-- The first leaf of a renamed value is its first leaf, renamed. -/
theorem firstLeaf?_relabel : ∀ e : Expr, (e.relabel σ).firstLeaf? = e.firstLeaf?.map (relabel σ)
  | .tuple [] => by simp [firstLeaf?]
  | .tuple (e :: items) => by
    rw [relabel_tuple, List.map_cons, firstLeaf?, firstLeaf?, firstLeaf?_relabel e]
  | .attr _ | .const _ _ | .null _ | .apply _ _ | .aggregate _ _ | .multiAggregate _ _ | .case _ _
  | .scalarSubquery _ | .setSubquery _ => by simp [firstLeaf?]

mutual

/-- Renaming keeps the shape of a value. -/
theorem shape_relabel : ∀ e : Expr, (e.relabel σ).shape = e.shape
  | .tuple items => by rw [relabel_tuple, shape, shape, shapes_relabel items]
  | .attr _ | .const _ _ | .null _ | .apply _ _ | .aggregate _ _ | .multiAggregate _ _ | .case _ _
  | .scalarSubquery _ | .setSubquery _ => by simp [shape]

theorem shapes_relabel : ∀ es : List Expr, shapes (es.map (relabel σ)) = shapes es
  | [] => rfl
  | e :: es => by rw [List.map_cons, shapes, shapes, shape_relabel e, shapes_relabel es]

end

/-- The components of a renamed tuple are its components, renamed. -/
theorem components?_relabel (e : Expr) :
    (e.relabel σ).components? = e.components?.map (List.map (relabel σ)) := by
  cases e <;> simp [components?]

mutual

/-- A choice between values under new names. -/
theorem relabel_distribute (conditions : List Expr) : ∀ (default : Expr) (results : List Expr),
    (distribute conditions default results).relabel σ =
      distribute (conditions.map (relabel σ)) (default.relabel σ) (results.map (relabel σ))
  | .tuple defaults, results => by
    have rows : (results.map (relabel σ)).filterMap components? =
        (results.filterMap components?).map (List.map (relabel σ)) := by
      rw [List.filterMap_map, List.map_filterMap]
      exact List.filterMap_congr fun e _ => components?_relabel e
    rw [distribute, relabel_tuple, relabel_tuple, distribute, rows,
      relabel_distributeItems conditions defaults]
  | .attr _, results | .const _ _, results | .null _, results | .apply _ _, results
  | .aggregate _ _, results | .multiAggregate _ _, results | .case _ _, results
  | .scalarSubquery _, results | .setSubquery _, results => by
    rw [distribute_of_noTuple rfl, relabel_case, distribute_of_noTuple (isTuple_relabel _),
      List.zip_map]
    rfl

/-- Distributing a choice over tuples commutes with renaming, component by component. -/
theorem relabel_distributeItems (conditions : List Expr) :
    ∀ (defaults : List Expr) (rows : List (List Expr)),
    (distributeItems conditions defaults rows).map (relabel σ) =
      distributeItems (conditions.map (relabel σ)) (defaults.map (relabel σ))
        (rows.map (List.map (relabel σ)))
  | [], _ => rfl
  | default :: defaults, rows => by
    have heads : (rows.map (List.map (relabel σ))).filterMap List.head? =
        (rows.filterMap List.head?).map (relabel σ) := by
      rw [List.filterMap_map, List.map_filterMap]
      exact List.filterMap_congr fun row _ => List.head?_map
    have tails : (rows.map (List.map (relabel σ))).map List.tail = (rows.map List.tail).map
        (List.map (relabel σ)) := by
      rw [List.map_map, List.map_map]
      exact List.map_congr_left fun row _ => List.map_tail.symm
    rw [distributeItems, List.map_cons, List.map_cons, distributeItems, heads, tails,
      relabel_distribute conditions default, relabel_distributeItems conditions defaults]

end

/-- Nulls mention no names. -/
theorem relabel_flattenNull (type : Ty) : (flattenNull type).relabel σ = flattenNull type := by
  have nulls : (flattenNull type).Everywhere (.mentioning fun _ => False) :=
    everywhere_of_leaves (fun _ => trivial) (of_flattenNull
      fun type => (everywhere_null type).2 trivial)
  exact relabel_eq_self.2 fun name member => (everywhere_mentioning.1 nulls name member).elim

/-- A constant is stored alike if the renaming keeps what it is stored as. -/
theorem alike_flattenConst {rules : Rules} {type : Ty} {value : Value}
    (fixed : rules.StoredAs (fun e => e.relabel σ = e) type value) :
    Alike (relabel σ) (flattenConst rules type value) (flattenConst rules type value) := by
  cases flat : flattenConst rules type value with
  | ok e => exact .of_eq (fixed e flat).symm
  | error e => exact .error e e

/-- An aggregation fails on the same values under every renaming. -/
theorem alike_flattenAggregate (whole : Expr) (fn : Aggregate) (arg : Expr) :
    Alike (relabel σ) (flattenAggregate whole fn arg)
      (flattenAggregate whole fn (arg.relabel σ)) := by
  unfold flattenAggregate
  refine .ite ?_ ?_
  · rw [firstLeaf?_relabel]
    cases arg.firstLeaf? with
    | none => exact .error _ _
    | some leaf => exact .of_eq (relabel_aggregate fn leaf).symm
  · rw [isTuple_relabel]
    exact .ite (.error _ _) (.of_eq (relabel_aggregate fn arg).symm)

/-- A choice fails on the same conditions and results under every renaming. -/
theorem alike_flattenCase (whole : Expr) (conditions results : List Expr) (default : Expr) :
    Alike (relabel σ) (flattenCase whole conditions results default)
      (flattenCase whole (conditions.map (relabel σ)) (results.map (relabel σ))
        (default.relabel σ)) := by
  unfold flattenCase
  have same : ((results.map (relabel σ)).all fun r => r.shape == (default.relabel σ).shape) =
      results.all fun r => r.shape == default.shape := by
    rw [List.all_map]
    exact congrArg results.all (funext fun r => by
      rw [Function.comp_apply, shape_relabel, shape_relabel])
  rw [same]
  exact .ite (.of_eq (relabel_distribute conditions default results).symm) (.error _ _)

end Expr

/-! ## Comparisons -/

namespace Operator

variable {op joiner : Operator}

/-- Joining comparisons commutes with renaming. -/
theorem alike_joinAll (parts : List Expr) :
    Alike (Expr.relabel σ) (op.joinAll joiner parts)
      (op.joinAll joiner (parts.map (Expr.relabel σ))) := by
  cases parts with
  | nil => exact .error _ _
  | cons first rest =>
    rw [List.map_cons, joinAll, joinAll]
    refine .of_eq ?_
    induction rest generalizing first with
    | nil => rfl
    | cons part rest ih =>
      rw [List.map_cons, List.foldl_cons, List.foldl_cons, ← ih, Expr.relabel_apply]
      rfl

mutual

/-- Comparing two values commutes with renaming, also where their shapes differ. -/
theorem alike_compare : ∀ left right : Expr,
    Alike (Expr.relabel σ) (op.compare joiner left right)
      (op.compare joiner (left.relabel σ) (right.relabel σ))
  | .tuple ls, right => by
    cases right with
    | tuple rs =>
      simp only [Expr.relabel_tuple, compare, List.length_map]
      refine .ite ((alike_compareItems ls rs).bind fun parts _ => alike_joinAll parts) (.error _ _)
    | _ => exact .error _ _
  | .attr _, right | .const _ _, right | .null _, right | .apply _ _, right | .aggregate _ _, right
  | .multiAggregate _ _, right | .case _ _, right | .scalarSubquery _, right
  | .setSubquery _, right => by
    cases noTuple : right.isTuple with
    | false =>
      rw [compare_of_noTuple rfl noTuple,
        compare_of_noTuple (Expr.isTuple_relabel _) ((Expr.isTuple_relabel _).trans noTuple)]
      exact .of_eq (Expr.relabel_apply op [_, right]).symm
    | true =>
      cases right with
      | tuple rs => exact .error _ _
      | _ => cases noTuple

theorem alike_compareItems : ∀ ls rs : List Expr,
    Alike (List.map (Expr.relabel σ)) (op.compareItems joiner ls rs)
      (op.compareItems joiner (ls.map (Expr.relabel σ)) (rs.map (Expr.relabel σ)))
  | l :: ls, r :: rs => by
    rw [List.map_cons, List.map_cons, compareItems, compareItems]
    exact (alike_compare l r).bind fun part _ => (alike_compareItems ls rs).bind fun parts _ => .ok
      (part :: parts)
  | [], _ => .ok []
  | _ :: _, [] => .ok []

end

end Operator

/-! ## Queries as they are built -/

namespace Query

/-- Adding conditions to a query commutes with renaming. -/
theorem relabel_restrictAll (predicates : List Expr) (q : Query) :
    (restrictAll predicates q).relabel σ = restrictAll (predicates.map (Expr.relabel σ))
      (q.relabel σ) := by
  unfold restrictAll
  induction predicates generalizing q with
  | nil => rfl
  | cons predicate predicates ih =>
    rw [List.map_cons, List.foldl_cons, List.foldl_cons, ih, relabel_restrict]

theorem relabel_eq_empty {q : Query} : q.relabel σ = .empty ↔ q = .empty := by
  cases q <;> simp

/-- The product that leaves the empty relation out commutes with renaming. -/
theorem relabel_combination (left right : Query) :
    (combination .product left right).relabel σ = combination .product (left.relabel σ)
      (right.relabel σ) := by
  by_cases hl : left = .empty
  · rw [hl, relabel_empty, combination_empty_left, combination_empty_left]
  · by_cases hr : right = .empty
    · rw [hr, relabel_empty, combination_empty_right, combination_empty_right]
    · rw [combination_of_ne hl hr, relabel_combine,
        combination_of_ne (mt relabel_eq_empty.1 hl) (mt relabel_eq_empty.1 hr)]

/-- The product of several queries commutes with renaming. -/
theorem relabel_productAll (queries : List Query) :
    (productAll queries).relabel σ = productAll (queries.map (relabel σ)) := by
  unfold productAll
  suffices general : ∀ q, (queries.foldl (combination .product) q).relabel σ =
      (queries.map (relabel σ)).foldl (combination .product) (q.relabel σ) from
    (general .empty).trans (by rw [relabel_empty])
  intro q
  induction queries generalizing q with
  | nil => rfl
  | cons first queries ih =>
    rw [List.map_cons, List.foldl_cons, List.foldl_cons, ih, relabel_combination]

/-- Looking below projections commutes with renaming. -/
theorem relabel_skipProjections :
    ∀ q : Query, q.skipProjections.relabel σ = (q.relabel σ).skipProjections
  | .project _ input => by
    rw [relabel_project, skipProjections, skipProjections, relabel_skipProjections input]
  | .empty | .table _ _ | .galaxy _ | .restrict _ _ | .combine _ _ _ | .grouping _ _
  | .order _ _ | .top _ _ _ => by
    simp [skipProjections]

variable (injective : Function.Injective σ)

include injective

/-- Building a projection commutes with renaming. An injective renaming keeps different names
different. -/
theorem alike_projection (columns : List (String × Expr)) (input : Query) :
    Alike (relabel σ) (projection columns input)
      (projection (columns.map fun c => (σ c.1, c.2.relabel σ)) (input.relabel σ)) := by
  unfold projection
  -- names that were different have to stay so, or the projection under new names is refused
  have unique : checkUnique columns = .ok () ↔
      checkUnique (columns.map fun c => (σ c.1, c.2.relabel σ)) = .ok () := by
    have names : (columns.map fun c => (σ c.1, c.2.relabel σ)).map Prod.fst =
        (columns.map Prod.fst).map σ := by
      rw [List.map_map, List.map_map]
      rfl
    rw [checkUnique_eq_ok, checkUnique_eq_ok, names, List.nodup_map_iff injective]
  refine (Alike.unit_of_iff unique).bind fun _ _ => .of_eq ?_
  rw [relabel_project, List.isEmpty_map]
  split
  · rw [relabel_skipProjections]
  · rfl

end Query

/-! ## Types -/

namespace Schema

variable (injective : Function.Injective σ)

include injective

/-- A renamed schema has under a new name what it has under the old one. -/
theorem get?_relabel (s : Schema) (name : String) : (s.relabel σ).get? (σ name) = s.get? name := by
  unfold get? relabel
  induction s.columns with
  | nil => rfl
  | cons c columns ih =>
    by_cases same : name = c.1
    · rw [List.map_cons, List.lookup_cons, List.lookup_cons, same, beq_self_eq_true,
        beq_self_eq_true]
    · have other : σ name ≠ σ c.1 := fun equal => same (injective equal)
      rw [List.map_cons, List.lookup_cons, List.lookup_cons, beq_eq_false_iff_ne.2 same,
        beq_eq_false_iff_ne.2 other]
      exact ih

theorem contains_relabel (s : Schema) (name : String) :
    (s.relabel σ).contains (σ name) = s.contains name := by
  rw [contains, contains, get?_relabel injective]

/-- Renamed schemas compare as the schemas do. -/
theorem same_relabel (left right : Schema) :
    (left.relabel σ == right.relabel σ) = (left == right) := by
  suffices general : ∀ as bs : List Column,
      same.sameColumns (as.map fun c => (σ c.1, c.2)) (bs.map fun c => (σ c.1, c.2)) =
        same.sameColumns as bs from
    general left.columns right.columns
  intro as
  induction as with
  | nil => intro bs; cases bs <;> rfl
  | cons a as ih =>
    intro bs
    cases bs with
    | nil => rfl
    | cons b bs =>
      have names : (σ a.1 == σ b.1) = (a.1 == b.1) := by
        rw [Bool.eq_iff_iff, beq_iff_eq, beq_iff_eq]
        exact injective.eq_iff
      rw [List.map_cons, List.map_cons, same.sameColumns, same.sameColumns, names, ih]

omit injective in
theorem relabel_push (s : Schema) (name : String) (type : Ty) :
    (s.push name type).relabel σ = (s.relabel σ).push (σ name) type := by
  simp [relabel, push]

/-- The schema of a combination commutes with renaming. -/
theorem alike_combine {check : TypeCheck} (op : CombineOp) (left right : Schema) :
    Alike (relabel σ) (combine check op left right)
      (combine check op (left.relabel σ) (right.relabel σ)) := by
  have sameColumns : ∀ op, Alike (relabel σ) (matching check op left right)
      (matching check op (left.relabel σ) (right.relabel σ)) := by
    intro op
    unfold matching
    rw [same_relabel injective]
    exact .ite (.error _ _) (.ok left)
  cases op with
  | product =>
    refine Alike.foldlM (f := fun c => (σ c.1, c.2)) (fun schema c => ?_) right.columns left
    rw [contains_relabel injective]
    exact .ite (.ite (.error _ _) (.ok schema)) (.of_eq (relabel_push schema c.1 c.2).symm)
  | quotient =>
    refine Alike.foldlM (f := fun c => (σ c.1, c.2)) (fun schema c => ?_) left.columns Schema.empty
    dsimp only
    rw [get?_relabel injective]
    cases right.get? c.1 with
    | some type => exact (Alike.refl _).bind fun _ _ => .ok schema
    | none => exact .of_eq (relabel_push schema c.1 c.2).symm
  | union | intersection | difference => exact sameColumns _

end Schema

mutual

/-- Renaming keeps the number of aggregations. -/
theorem Expr.aggregateCount_relabel : ∀ e : Expr, (e.relabel σ).aggregateCount = e.aggregateCount
  | .apply _ args => by
    rw [relabel_apply, aggregateCount, aggregateCount, Expr.itemAggregateCount_relabel args]
  | .tuple items => by
    rw [relabel_tuple, aggregateCount, aggregateCount, Expr.itemAggregateCount_relabel items]
  | .aggregate _ arg => by
    rw [relabel_aggregate, aggregateCount, aggregateCount, Expr.aggregateCount_relabel arg]
  | .multiAggregate _ args => by
    rw [relabel_multiAggregate, aggregateCount, aggregateCount,
      Expr.itemAggregateCount_relabel args]
  | .case branches default => by
    rw [relabel_case, aggregateCount, aggregateCount, Expr.branchAggregateCount_relabel branches,
      Expr.aggregateCount_relabel default]
  | .attr _ | .const _ _ | .null _ | .scalarSubquery _ | .setSubquery _ => by simp [aggregateCount]

theorem Expr.itemAggregateCount_relabel : ∀ es : List Expr,
    Expr.itemAggregateCount (es.map (relabel σ)) = Expr.itemAggregateCount es
  | [] => rfl
  | e :: es => by
    rw [List.map_cons, itemAggregateCount, itemAggregateCount, Expr.aggregateCount_relabel e,
      Expr.itemAggregateCount_relabel es]

theorem Expr.branchAggregateCount_relabel : ∀ bs : List (Expr × Expr),
    Expr.branchAggregateCount (bs.map fun b => (b.1.relabel σ, b.2.relabel σ)) =
      Expr.branchAggregateCount bs
  | [] => rfl
  | (condition, result) :: bs => by
    rw [List.map_cons, branchAggregateCount, branchAggregateCount,
      Expr.aggregateCount_relabel condition, Expr.aggregateCount_relabel result,
      Expr.branchAggregateCount_relabel bs]

end

theorem Expr.hasAggregate_relabel (e : Expr) : (e.relabel σ).hasAggregate = e.hasAggregate := by
  rw [hasAggregate, hasAggregate, aggregateCount_relabel]

namespace Equivariance

attribute [local simp] Expr.typeOf Query.schemaOf

/-- An expression has the same type under new names. -/
def OfExpr (σ : String → String) (e : Expr) : Prop :=
  ∀ check schema, Alike id (e.typeOf check schema) ((e.relabel σ).typeOf check (schema.relabel σ))

/-- A query has the renamed schema under new names. -/
def OfQuery (σ : String → String) (q : Query) : Prop :=
  ∀ check, Alike (Schema.relabel σ) (q.schemaOf check) ((q.relabel σ).schemaOf check)

variable {check : TypeCheck} {schema : Schema}

/-- The types of expressions do not depend on the names of the columns. -/
theorem items {es : List Expr} (h : ∀ e ∈ es, OfExpr σ e) :
    Alike id (Expr.typesOf check schema es)
      (Expr.typesOf check (schema.relabel σ) (es.map (Expr.relabel σ))) := by
  induction es with
  | nil =>
    rw [List.map_nil, Expr.typesOf, Expr.typesOf]
    exact .ok []
  | cons e es ih =>
    rw [List.forall_mem_cons] at h
    rw [List.map_cons, Expr.typesOf, Expr.typesOf]
    exact (h.1 check schema).bind fun type _ => (ih h.2).bind fun types _ => .ok (type :: types)

/-- The types of branches do not depend on the names of the columns. -/
theorem branches {bs : List (Expr × Expr)} (h : ∀ b ∈ bs, OfExpr σ b.1 ∧ OfExpr σ b.2) :
    Alike id (Expr.branchTypesOf check schema bs)
      (Expr.branchTypesOf check (schema.relabel σ)
        (bs.map fun b => (b.1.relabel σ, b.2.relabel σ))) := by
  induction bs with
  | nil =>
    rw [List.map_nil, Expr.branchTypesOf, Expr.branchTypesOf]
    exact .ok []
  | cons b bs ih =>
    rw [List.forall_mem_cons] at h
    rw [List.map_cons, Expr.branchTypesOf, Expr.branchTypesOf]
    exact (h.1.1 check schema).bind fun first _ => (h.1.2 check schema).bind fun second _ =>
      (ih h.2).bind fun types _ => .ok ((first, second) :: types)

/-- The columns of a renamed projection are its columns, renamed. -/
theorem columns {cs : List (String × Expr)} (h : ∀ c ∈ cs, OfExpr σ c.2) (grouping : Bool) :
    Alike (List.map fun c => (σ c.1, c.2)) (Query.columnsOf check schema grouping cs)
      (Query.columnsOf check (schema.relabel σ) grouping
        (cs.map fun c => (σ c.1, c.2.relabel σ))) := by
  induction cs with
  | nil =>
    rw [List.map_nil, Query.columnsOf, Query.columnsOf]
    exact .ok []
  | cons c cs ih =>
    rw [List.forall_mem_cons] at h
    rw [List.map_cons, Query.columnsOf, Query.columnsOf, Expr.hasAggregate_relabel]
    refine .ite (.error _ _) ?_
    exact (h.1 check schema).bind fun type _ => (Alike.refl _).bind fun _ _ =>
      (ih h.2).bind fun columns _ => .ok ((c.1, type) :: columns)

/-- Whether ordering keys are accepted does not depend on the names of the columns. -/
theorem keys {ks : List (Expr × Direction)} (h : ∀ k ∈ ks, OfExpr σ k.1) :
    Alike id (Query.checkKeys check schema ks)
      (Query.checkKeys check (schema.relabel σ) (ks.map fun k => (k.1.relabel σ, k.2))) := by
  induction ks with
  | nil =>
    rw [List.map_nil, Query.checkKeys, Query.checkKeys]
    exact .ok ()
  | cons k ks ih =>
    rw [List.forall_mem_cons] at h
    rw [List.map_cons, Query.checkKeys, Query.checkKeys]
    exact (h.1 check schema).bind fun type _ => (Alike.refl _).bind fun _ _ => ih h.2

theorem onlyType (s : Schema) : Alike id s.onlyType (s.relabel σ).onlyType := by
  obtain ⟨columns⟩ := s
  match columns with
  | [] => exact .error _ _
  | [(_, type)] => exact .ok type
  | _ :: _ :: _ => exact .error _ _

/-- Inference commutes with renaming, node by node. -/
theorem cases (injective : Function.Injective σ) : Plan.Cases (OfExpr σ) (OfQuery σ) where
  attr name check schema := by
    rw [Expr.relabel_attr, Expr.typeOf, Expr.typeOf, Schema.get?_relabel injective]
    cases schema.get? name with
    | none => exact .error _ _
    | some type => exact .ok type
  const type _ check schema := by
    rw [Expr.relabel_const, Expr.typeOf, Expr.typeOf]
    exact .ok type
  null type check schema := by
    rw [Expr.relabel_null, Expr.typeOf, Expr.typeOf]
    exact .ok type
  apply op _ _ ih check schema := by
    rw [Expr.relabel_apply, Expr.typeOf, Expr.typeOf]
    exact (items ih).bind fun types _ => .refl _
  tuple _ ih check schema := by
    rw [Expr.relabel_tuple, Expr.typeOf, Expr.typeOf]
    exact (items ih).bind fun types _ => .refl _
  aggregate _ _ ih check schema := by
    rw [Expr.relabel_aggregate, Expr.typeOf, Expr.typeOf]
    exact (ih check schema).bind fun type _ => .refl _
  multiAggregate _ _ ih check schema := by
    rw [Expr.relabel_multiAggregate, Expr.typeOf, Expr.typeOf]
    exact (items ih).bind fun types _ => .refl _
  case _ _ ihb ihd check schema := by
    rw [Expr.relabel_case, Expr.typeOf, Expr.typeOf]
    exact (branches ihb).bind fun types _ => (ihd check schema).bind fun type _ => .refl _
  scalarSubquery _ ih check schema := by
    rw [Expr.relabel_scalarSubquery, Expr.typeOf, Expr.typeOf]
    exact (ih check).bind fun inner _ => onlyType inner
  setSubquery _ ih check schema := by
    rw [Expr.relabel_setSubquery, Expr.typeOf, Expr.typeOf]
    exact (ih check).bind fun inner _ => (onlyType inner).bind fun member _ => .refl _
  empty check := by
    rw [Query.relabel_empty, Query.schemaOf]
    exact .of_eq rfl
  table _ schema check := by
    rw [Query.relabel_table, Query.schemaOf, Query.schemaOf]
    exact .ok schema
  galaxy g _ check := by
    rw [Query.relabel_galaxy, Query.schemaOf, Query.schemaOf]
    exact .ok g.schema
  project _ _ ihc ih check := by
    rw [Query.relabel_project, Query.schemaOf, Query.schemaOf]
    exact (ih check).bind fun inner _ => (columns ihc false).bind fun outputs _ => .of_eq rfl
  restrict _ _ ihp ih check := by
    rw [Query.relabel_restrict, Query.schemaOf, Query.schemaOf]
    exact (ih check).bind fun inner _ => (ihp check inner).bind fun type _ =>
      (Alike.refl _).bind fun _ _ => .ok inner
  combine op _ _ ihl ihr check := by
    rw [Query.relabel_combine, Query.schemaOf, Query.schemaOf]
    exact (ihl check).bind fun left _ => (ihr check).bind fun right _ =>
      Schema.alike_combine injective op left right
  grouping _ _ ihc ih check := by
    rw [Query.relabel_grouping, Query.schemaOf, Query.schemaOf]
    exact (ih check).bind fun inner _ => (columns ihc true).bind fun outputs _ => .of_eq rfl
  order _ _ ihk ih check := by
    rw [Query.relabel_order, Query.schemaOf, Query.schemaOf]
    exact (ih check).bind fun inner _ => (keys ihk).bind fun _ _ => .ok inner
  top _ _ _ ih check := by
    rw [Query.relabel_top, Query.schemaOf, Query.schemaOf]
    exact ih check

end Equivariance

/-- Under new names a query has the renamed schema, or none as before. -/
theorem Query.alike_schemaOf (injective : Function.Injective σ) (check : TypeCheck) (q : Query) :
    Alike (Schema.relabel σ) (q.schemaOf check) ((q.relabel σ).schemaOf check) :=
  (Equivariance.cases injective).query q check

end FlatPlan
