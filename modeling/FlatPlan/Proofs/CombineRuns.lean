import FlatPlan.Proofs.FlatCombination
import FlatPlan.Proofs.OutputNames

/-!
# Runs on combinations

What a run makes of two operands, by the names of their columns alone. The right operand of a
quotient or a set operation is projected to the flat names of its counterparts on the left
(`Query.Aligns`). Main statement: the flat form and the environment of a combination are given by
those of its operands and by the names of their columns (`Query.combined_of_yields`).
-/

namespace FlatPlan

open Pass

variable {check : Regime} {s t : PassState} {env leftEnv rightEnv : Environment} {name : String}

/-- The flat columns of an attribute are the leaves of its flat form. -/
theorem Environment.leafNames_of_flatColumns {columns : List String}
    (h : env.flatColumns name = .ok columns) :
    (env.resolve name).leafNames = columns := by
  unfold flatColumns at h
  unfold resolve
  split at h
  case h_1 unbound =>
    cases h
    rw [unbound]
    rfl
  case h_2 rep bound =>
    rw [bound, Option.getD_some]
    refine Expr.leafNames_of_leaves ?_
    rw [mapM_eq_ok] at h
    generalize rep.leaves = leaves at h
    induction h with
    | nil => rfl
    | @cons leaf column leaves columns first _ ih =>
      rw [List.map_cons, ih]
      cases leaf with
      | attr own =>
        cases first
        rfl
      | _ => cases first

namespace Query

variable {flat flatLeft flatRight left right aligned : Query} {op : CombineOp}
  {pairs : List (String × String)}

/-! ## Alignment -/

/-- The right operand with the flat names of the left, for attributes that are paired. -/
structure Aligns (pairs : List (String × String)) (leftEnv rightEnv : Environment)
    (right aligned : Query) (columns : List (String × Expr)) : Prop where
  project : projection columns right = .ok aligned
  names : columns.map Prod.fst = pairs.flatMap fun p => (leftEnv.resolve p.1).leafNames
  sources : ∀ c ∈ columns, ∃ p ∈ pairs, ∃ source ∈ (rightEnv.resolve p.2).leafNames,
    c.2 = .attr source

theorem names_alignColumns {l r : String} {columns : List (String × Expr)}
    (h : alignColumns leftEnv rightEnv l r = .ok columns) :
    columns.map Prod.fst = (leftEnv.resolve l).leafNames ∧
      ∀ c ∈ columns, ∃ source ∈ (rightEnv.resolve r).leafNames, c.2 = .attr source := by
  obtain ⟨targets, sources, onLeft, onRight, length, rfl⟩ := alignColumns_eq_ok.1 h
  rw [Environment.leafNames_of_flatColumns onLeft, Environment.leafNames_of_flatColumns onRight]
  refine ⟨List.map_fst_zip (Nat.le_of_eq (by rw [List.length_map, length])), fun c member => ?_⟩
  obtain ⟨source, among, equal⟩ := List.mem_map.1 (List.of_mem_zip member).2
  exact ⟨source, among, equal.symm⟩

theorem exists_aligns (h : align pairs leftEnv rightEnv right = .ok aligned) :
    ∃ columns, Aligns pairs leftEnv rightEnv right aligned columns := by
  simp only [align, bind_eq_ok, mapM_eq_ok] at h
  obtain ⟨groups, each, project⟩ := h
  refine ⟨groups.flatten, project, ?_, ?_⟩
  · clear project
    induction each with
    | nil => rfl
    | cons first _ ih =>
      rw [List.flatten_cons, List.map_append, List.flatMap_cons, ih, (names_alignColumns first).1]
  · intro c member
    obtain ⟨group, among, own⟩ := List.mem_flatten.1 member
    obtain ⟨p, paired, aligned⟩ := exists_of_mem_right each among
    exact ⟨p, paired, (names_alignColumns aligned).2 c own⟩

theorem outputNames_projection {columns : List (String × Expr)} {input q : Query}
    (h : projection columns input = .ok q) : q.outputNames = columns.map Prod.fst := by
  obtain ⟨_, rfl⟩ := projection_eq_ok.1 h
  rfl

theorem Aligns.outputNames {columns : List (String × Expr)}
    (h : Aligns pairs leftEnv rightEnv right aligned columns) :
    aligned.outputNames = pairs.flatMap fun p => (leftEnv.resolve p.1).leafNames := by
  rw [outputNames_projection h.project, h.names]

/-! ## Combinations -/

/-- The flat form of a combination and its environment, given those of the operands: `left` and
`right` are the operands before flattening. -/
inductive Combined (op : CombineOp) (left right flatLeft flatRight : Query)
    (leftEnv rightEnv : Environment) :
    Query → Environment → Prop
  /-- Nothing structured on either side. -/
  | plain (unboundLeft : ∀ name, leftEnv.find? name = none)
    (unboundRight : ∀ name, rightEnv.find? name = none) :
    Combined op left right flatLeft flatRight leftEnv rightEnv
      (.combine op flatLeft flatRight) .empty
  | product {env : Environment} (own : op = .product)
    (bound : ∀ name, env.find? name = if name ∈ left.outputNames then leftEnv.find? name
      else (rightEnv.find? name).or (leftEnv.find? name)) :
    Combined op left right flatLeft flatRight leftEnv rightEnv (.combine op flatLeft flatRight) env
  | quotient {env : Environment} {aligned : Query} {columns : List (String × Expr)}
    (own : op = .quotient) (alignment : Aligns (right.outputNames.map fun name => (name, name))
      leftEnv rightEnv flatRight aligned columns)
    (bound : ∀ name, env.find? name =
      if name ∈ right.outputNames then none else leftEnv.find? name) :
    Combined op left right flatLeft flatRight leftEnv rightEnv (.combine op flatLeft aligned) env
  | setOperation {aligned : Query} {columns : List (String × Expr)} (noProduct : op ≠ .product)
    (noQuotient : op ≠ .quotient)
    (alignment : Aligns (left.outputNames.zip right.outputNames) leftEnv rightEnv flatRight
      aligned columns) :
    Combined op left right flatLeft flatRight leftEnv rightEnv
      (.combine op flatLeft aligned) leftEnv

theorem combined_of_flattenCombination {leftSchema rightSchema : Schema}
    (namesLeft : leftSchema.names = left.outputNames)
    (namesRight : rightSchema.names = right.outputNames)
    (h : flattenCombination op flatLeft flatRight leftEnv rightEnv leftSchema rightSchema =
      .ok (flat, env)) :
    Combined op left right flatLeft flatRight leftEnv rightEnv flat env := by
  have filtered : ∀ (schema : Schema) (env' : Environment) (name : String),
      (env'.filterNames fun name => !schema.contains name).find? name =
        if name ∈ schema.names then none else env'.find? name := by
    intro schema env' name
    rw [NameMap.find?_filterNames]
    by_cases member : name ∈ schema.names
    · rw [Schema.contains_iff.2 member, if_pos member]
      rfl
    · rw [Schema.contains_eq_false.2 member, if_neg member]
      rfl
  cases op with
  | product =>
    cases h
    refine .product rfl fun name => ?_
    rw [NameMap.find?_insertAll_entries, filtered, namesLeft]
    split
    · rfl
    · rfl
  | quotient =>
    simp only [flattenCombination, bind_eq_ok, pure_eq_ok, Prod.mk.injEq] at h
    obtain ⟨aligned, alignment, rfl, rfl⟩ := h
    obtain ⟨columns, aligns⟩ := exists_aligns alignment
    rw [namesRight] at aligns
    refine .quotient rfl aligns fun name => ?_
    rw [filtered, namesRight]
  | union | intersection | difference =>
    simp only [flattenCombination] at h
    split at h
    · simp only [bind_eq_ok, pure_eq_ok, Prod.mk.injEq] at h
      obtain ⟨aligned, alignment, rfl, rfl⟩ := h
      obtain ⟨columns, aligns⟩ := exists_aligns alignment
      rw [namesLeft, namesRight] at aligns
      exact .setOperation (by simp) (by simp) aligns
    · cases h

/-- A run on a combination runs on both operands and combines their flat forms. -/
theorem combined_of_yields (run : ((combine op left right).flatten check).Yields s (flat, env) t) :
    ∃ flatLeft leftEnv u flatRight rightEnv, (left.flatten check).Yields s (flatLeft, leftEnv) u ∧
      (right.flatten check).Yields u (flatRight, rightEnv) t ∧
      Combined op left right flatLeft flatRight leftEnv rightEnv flat env := by
  obtain ⟨flatLeft, leftEnv, u, runLeft, flatRight, rightEnv, runRight, rest⟩ :=
    yields_flatten_combine.1 run
  refine ⟨flatLeft, leftEnv, u, flatRight, rightEnv, runLeft, runRight, ?_⟩
  rcases rest with
    ⟨⟨emptyLeft, emptyRight⟩, rfl, rfl⟩ | ⟨_, leftSchema, rightSchema, knowLeft, knowRight, h⟩
  · exact .plain (NameMap.find?_of_isEmpty emptyLeft) (NameMap.find?_of_isEmpty emptyRight)
  · exact combined_of_flattenCombination (names_of_schemaOf knowLeft)
      (names_of_schemaOf knowRight) h

theorem combined_of_flattens {x : Session}
    (flattens : x.Flattens (combine op left right) s flat env t) :
    ∃ flatLeft leftEnv u flatRight rightEnv, x.Flattens left s flatLeft leftEnv u ∧
      x.Flattens right u flatRight rightEnv t ∧
      Combined op left right flatLeft flatRight leftEnv rightEnv flat env := by
  obtain ⟨flatLeft, leftEnv, u, flatRight, rightEnv, runLeft, runRight, combined⟩ :=
    combined_of_yields flattens.run
  have flattensLeft : x.Flattens left s flatLeft leftEnv u := ⟨flattens.stem, runLeft⟩
  have stem := flattensLeft.leads.stem.trans flattens.stem
  exact ⟨flatLeft, leftEnv, u, flatRight, rightEnv, flattensLeft, ⟨stem, runRight⟩, combined⟩

namespace Combined

/-- A combination binds an attribute as one of its operands does. -/
theorem find? {rep : Expr} (h : Combined op left right flatLeft flatRight leftEnv rightEnv flat env)
    (bound : env.find? name = some rep) : leftEnv.find? name = some rep ∨
    rightEnv.find? name = some rep := by
  cases h with
  | plain => cases bound
  | product _ own =>
    rw [own] at bound
    split at bound
    · exact .inl bound
    · rw [Option.or_eq_some_iff] at bound
      exact bound.elim .inr fun onLeft => .inl onLeft.2
  | quotient _ _ own =>
    rw [own] at bound
    split at bound
    · cases bound
    · exact .inl bound
  | setOperation => exact .inl bound

theorem product_eq (h : Combined .product left right flatLeft flatRight leftEnv rightEnv flat env) :
    flat = .combine .product flatLeft flatRight ∧
      ∀ name, env.find? name = if name ∈ left.outputNames then leftEnv.find? name
        else (rightEnv.find? name).or (leftEnv.find? name) := by
  cases h with
  | plain unboundLeft unboundRight =>
    refine ⟨rfl, fun name => ?_⟩
    rw [unboundLeft, unboundRight, NameMap.find?_empty]
    simp
  | product _ bound => exact ⟨rfl, bound⟩
  | quotient own => cases own
  | setOperation noProduct => exact absurd rfl noProduct

/-- A quotient binds what is left of the left operand. -/
theorem find?_quotient
    (h : Combined .quotient left right flatLeft flatRight leftEnv rightEnv flat env) :
    ∀ name, env.find? name = if name ∈ right.outputNames then none else leftEnv.find? name := by
  cases h with
  | plain unboundLeft =>
    intro name
    rw [unboundLeft, NameMap.find?_empty, ite_self]
  | product own => cases own
  | quotient _ _ bound => exact bound
  | setOperation _ noQuotient => exact absurd rfl noQuotient

theorem setOperation_eq (noProduct : op ≠ .product) (noQuotient : op ≠ .quotient)
    (h : Combined op left right flatLeft flatRight leftEnv rightEnv flat env) :
    ∃ aligned, flat = .combine op flatLeft aligned ∧
      ∀ name, env.find? name = leftEnv.find? name := by
  cases h with
  | plain unboundLeft _ =>
    refine ⟨flatRight, rfl, fun name => ?_⟩
    rw [unboundLeft, NameMap.find?_empty]
  | product own => exact absurd own noProduct
  | quotient own => exact absurd own noQuotient
  | setOperation => exact ⟨_, rfl, fun _ => rfl⟩

end Combined

end Query

end FlatPlan
