import FlatPlan.Proofs.FlatNames
import Mathlib.Data.List.Pairwise

/-!
# Flat columns in place

How the flat columns of an accepted plan are laid out: they are those of its columns, one column
after the other, where a bound column has the leaves of its binding and any other is its own, and no
flat column belongs to two columns (`Query.inPlace_of_flattens`). Output names of projections have
to differ, and no product or quotient may have a column on the right that the left does not have but
binds.
-/

namespace FlatPlan

open Pass

namespace Session

variable (x : Session)

/-- What the nodes of a plan keep to so that flat columns stand in place. -/
def inPlace : NodeProperty :=
  x.declaring.and
    { expr _ := True
      query
        | .project columns _ => (columns.map Prod.fst).Nodup
        | .combine .product left right | .combine .quotient left right => x.NoCapture left right
        | _ => True }

end Session

/-- The flat columns that carry a column. -/
def Environment.leavesOf (env : Environment) (name : String) : List String :=
  (env.resolve name).leafNames

/-- The flat columns of a query are those of its columns, in order and apart from each other. -/
structure Query.InPlace (q flat : Query) (env : Environment) : Prop where
  columns : flat.outputNames = q.outputNames.flatMap env.leavesOf
  apart : ∀ a ∈ q.outputNames, ∀ b ∈ q.outputNames, a ≠ b → ∀ c ∈ env.leavesOf a, c ∉ env.leavesOf b

variable {x : Session} {check : Regime} {s t u : PassState} {env leftEnv rightEnv : Environment}

/-! ## Leaves of columns -/

namespace Environment

theorem leavesOf_of_unbound {name : String} (unbound : env.find? name = none) :
    env.leavesOf name = [name] := by
  rw [leavesOf, resolve, unbound]
  rfl

theorem leavesOf_congr {other : Environment} {name : String}
    (same : env.find? name = other.find? name) :
    env.leavesOf name = other.leavesOf name := by
  rw [leavesOf, resolve, same]
  rfl

/-- A leaf of a column is the column itself, or drawn. -/
theorem eq_or_drawn {q flat : Query} (run : (q.flatten check).Yields s (flat, env) t)
    {name leaf : String} (member : leaf ∈ env.leavesOf name) :
    (env.find? name = none ∧ leaf = name) ∨ s.Draws t leaf := by
  cases found : env.find? name with
  | none =>
    rw [leavesOf_of_unbound found] at member
    exact .inl ⟨rfl, List.mem_singleton.1 member⟩
  | some rep =>
    rw [leavesOf, resolve, found] at member
    exact .inr ((Query.bindings_drawn run name rep found).drawn leaf member)

/-- The leaves of a column differ. -/
theorem nodup_leavesOf {q flat : Query} (run : (q.flatten check).Yields s (flat, env) t)
    (name : String) :
    (env.leavesOf name).Nodup := by
  cases found : env.find? name with
  | none =>
    rw [leavesOf_of_unbound found]
    exact List.nodup_singleton name
  | some rep =>
    rw [leavesOf, resolve, found]
    exact (Query.bindings_drawn run name rep found).distinct

/-- Different columns of operands have no leaf in common. -/
theorem leaves_apart {left right flatLeft flatRight : Query} (stem : s.names.stem = x.stem)
    (runLeft : (left.flatten check).Yields s (flatLeft, leftEnv) u)
    (runRight : (right.flatten check).Yields u (flatRight, rightEnv) t) {a b : String}
    (different : a ≠ b)
    (declaresLeft : x.Declares a) (declaresRight : x.Declares b) :
    ∀ c ∈ leftEnv.leavesOf a, c ∉ rightEnv.leavesOf b := by
  have before := (left.flatten_advances check).leads runLeft
  intro c onLeft onRight
  rcases eq_or_drawn runLeft onLeft with ⟨_, rfl⟩ | drawn
  · rcases eq_or_drawn runRight onRight with ⟨_, rfl⟩ | drawn
    · exact different rfl
    · exact declaresLeft.not_drawn (before.stem.trans stem) drawn
  · rcases eq_or_drawn runRight onRight with ⟨_, rfl⟩ | again
    · exact declaresRight.not_drawn stem drawn
    · exact drawn.not_again before again

end Environment

namespace Query.Combined

variable {left right flatLeft flatRight flat : Query}

/-- A quotient divides by the flat columns that the left has for the columns of the right. -/
theorem quotient_eq (h : Combined .quotient left right flatLeft flatRight leftEnv rightEnv flat env)
    (columns : flatRight.outputNames = right.outputNames.flatMap rightEnv.leavesOf) :
    ∃ aligned, flat = .combine .quotient flatLeft aligned ∧
      aligned.outputNames = right.outputNames.flatMap leftEnv.leavesOf ∧
      ∀ name, env.find? name = if name ∈ right.outputNames then none else leftEnv.find? name := by
  have bound := h.find?_quotient
  cases h with
  | plain unboundLeft unboundRight =>
    refine ⟨flatRight, rfl, ?_, bound⟩
    rw [columns]
    refine List.flatMap_congr fun name _ => Environment.leavesOf_congr ?_
    rw [unboundLeft, unboundRight]
  | product own => cases own
  | quotient _ alignment _ =>
    refine ⟨_, rfl, ?_, bound⟩
    rw [alignment.outputNames, List.flatMap_map]
    rfl
  | setOperation _ noQuotient => exact absurd rfl noQuotient

end Query.Combined

namespace Query.InPlace

variable {q flat input left right flatLeft flatRight : Query}

/-! ## Forms of queries -/

theorem of_unbound (unbound : ∀ name ∈ q.outputNames, env.find? name = none)
    (same : flat.outputNames = q.outputNames) : q.InPlace flat env where
  columns := by
    rw [same, List.flatMap_congr fun name member => Environment.leavesOf_of_unbound
      (unbound name member)]
    exact (List.flatMap_singleton' _).symm
  apart a onA b onB different c := by
    rw [Environment.leavesOf_of_unbound (unbound a onA),
      Environment.leavesOf_of_unbound (unbound b onB)]
    intro own other
    exact different ((List.mem_singleton.1 own).symm.trans (List.mem_singleton.1 other))

/-- A query that passes the columns of its input on. -/
theorem congr {flatInput : Query} {envInput : Environment} (h : input.InPlace flatInput envInput)
    (names : q.outputNames = input.outputNames)
    (flatNames : flat.outputNames = flatInput.outputNames)
    (same : ∀ name, env.find? name = envInput.find? name) : q.InPlace flat env := by
  have leaves : env.leavesOf = envInput.leavesOf :=
    funext fun name => Environment.leavesOf_congr (same name)
  constructor
  · rw [flatNames, names, leaves, h.columns]
  · rw [names, leaves]
    exact h.apart

/-- If all leaves differ, those of different columns are apart. -/
theorem apart_of_nodup {names : List String} (distinct : (names.flatMap env.leavesOf).Nodup) :
    ∀ a ∈ names, ∀ b ∈ names, a ≠ b → ∀ c ∈ env.leavesOf a, c ∉ env.leavesOf b := by
  intro a onA b onB different c own other
  have symm : Std.Symm (Function.onFun List.Disjoint env.leavesOf) :=
    ⟨fun _ _ disjoint _ own other => disjoint other own⟩
  exact (List.nodup_flatMap.1 distinct).2.forall onA onB different own other

theorem project {cs : List (String × Expr)} {envInput : Environment} {flatInput : Query}
    {inner : Schema} {outputs : List OutputColumn} (stem : s.names.stem = x.stem)
    (declares : ∀ c ∈ cs, x.Declares c.1)
    (distinct : (cs.map Prod.fst).Nodup)
    (run : (flattenColumns check envInput inner cs).Yields s outputs t) :
    (Query.project cs input).InPlace (ofOutputs outputs flatInput)
      (OutputColumn.withAliases cs envInput (OutputColumn.bindings outputs)) := by
  have names := names_of_flattenColumns run
  have leaves : ∀ o ∈ outputs, o.columns.map Prod.fst =
      (OutputColumn.withAliases cs envInput (OutputColumn.bindings outputs)).leavesOf o.name := by
    intro o member
    obtain ⟨c, _, part, _, u, w, _, output, _⟩ :=
      exists_of_mem_right (flattenColumns_within run) member
    rw [(OutputColumn.carries_of_yields output).names, Environment.leavesOf, Environment.resolve,
      OutputColumn.find?_withAliases (names ▸ List.mem_map.2 ⟨o, member, rfl⟩),
      OutputColumn.find?_bindings (names ▸ distinct) member]
  have columns : (ofOutputs outputs flatInput).outputNames = (cs.map Prod.fst).flatMap
      (OutputColumn.withAliases cs envInput (OutputColumn.bindings outputs)).leavesOf := by
    rw [outputNames_ofOutputs, List.flatMap_congr leaves, ← names, List.flatMap_map]
  refine ⟨columns, apart_of_nodup ?_⟩
  rw [outputNames_ofOutputs] at columns
  exact columns ▸ (names_of_columns stem declares run).nodup distinct

theorem product (stem : s.names.stem = x.stem)
    (runLeft : (left.flatten check).Yields s (flatLeft, leftEnv) u)
    (runRight : (right.flatten check).Yields u (flatRight, rightEnv) t)
    (declaresLeft : ∀ name ∈ left.outputNames, x.Declares name)
    (declaresRight : ∀ name ∈ right.outputNames, x.Declares name)
    (hl : left.InPlace flatLeft leftEnv) (hr : right.InPlace flatRight rightEnv)
    (disjoint : ∀ name ∈ right.outputNames, name ∉ left.outputNames)
    (distinct : right.outputNames.Nodup)
    (noCapture : ∀ name ∈ right.outputNames, name ∉ left.outputNames → leftEnv.find? name = none)
    (bound : ∀ name, env.find? name = if name ∈ left.outputNames then leftEnv.find? name
      else (rightEnv.find? name).or (leftEnv.find? name)) :
    (Query.combine .product left right).InPlace (.combine .product flatLeft flatRight) env := by
  have onLeft : ∀ name ∈ left.outputNames, env.leavesOf name = leftEnv.leavesOf name := by
    intro name member
    exact Environment.leavesOf_congr (by rw [bound, if_pos member])
  have onRight : ∀ name ∈ right.outputNames, env.leavesOf name = rightEnv.leavesOf name := by
    intro name member
    have absent := disjoint name member
    refine Environment.leavesOf_congr ?_
    rw [bound, if_neg absent, noCapture name member absent, Option.or_none]
  have across : ∀ a ∈ left.outputNames, ∀ b ∈ right.outputNames,
      ∀ c ∈ leftEnv.leavesOf a, c ∉ rightEnv.leavesOf b := by
    intro a onA b onB
    refine Environment.leaves_apart stem runLeft runRight ?_ (declaresLeft a onA)
      (declaresRight b onB)
    rintro rfl
    exact disjoint a onB onA
  have names : (Query.combine .product left right).outputNames = left.outputNames ++
      right.outputNames :=
    mergeNames_of_disjoint distinct disjoint
  have flatDistinct : flatRight.outputNames.Nodup := by
    rw [hr.columns, List.nodup_flatMap]
    refine ⟨fun name _ => Environment.nodup_leavesOf runRight name, ?_⟩
    refine distinct.imp_of_mem ?_
    intro a b onA onB different c own other
    exact hr.apart a onA b onB different c own other
  have flatDisjoint : ∀ c ∈ flatRight.outputNames, c ∉ flatLeft.outputNames := by
    intro c onRight onLeft
    rw [hr.columns, List.mem_flatMap] at onRight
    rw [hl.columns, List.mem_flatMap] at onLeft
    obtain ⟨b, onB, other⟩ := onRight
    obtain ⟨a, onA, own⟩ := onLeft
    exact across a onA b onB c own other
  constructor
  · rw [names, List.flatMap_append, List.flatMap_congr onLeft, List.flatMap_congr onRight,
      ← hl.columns, ← hr.columns]
    exact mergeNames_of_disjoint flatDistinct flatDisjoint
  · rw [names]
    intro a onA b onB different c
    rcases List.mem_append.1 onA with onA | onA <;> rcases List.mem_append.1 onB with onB | onB
    · rw [onLeft a onA, onLeft b onB]
      exact hl.apart a onA b onB different c
    · rw [onLeft a onA, onRight b onB]
      exact across a onA b onB c
    · rw [onRight a onA, onLeft b onB]
      exact fun own other => across b onB a onA c other own
    · rw [onRight a onA, onRight b onB]
      exact hr.apart a onA b onB different c

/-- A filter that keeps or drops all leaves of a column keeps or drops the column. -/
private theorem filter_leaves {keep keepLeaf : String → Bool} {names : List String}
    (kept : ∀ name ∈ names, keep name = true → ∀ c ∈ env.leavesOf name, keepLeaf c = true)
    (dropped : ∀ name ∈ names, ¬keep name = true → ∀ c ∈ env.leavesOf name, ¬keepLeaf c = true) :
    (names.flatMap env.leavesOf).filter keepLeaf = (names.filter keep).flatMap env.leavesOf := by
  induction names with
  | nil => rfl
  | cons name names ih =>
    rw [List.forall_mem_cons] at kept dropped
    rw [List.flatMap_cons, List.filter_append, ih kept.2 dropped.2]
    by_cases keeps : keep name = true
    · rw [List.filter_cons_of_pos keeps, List.filter_eq_self.2 (kept.1 keeps), List.flatMap_cons]
    · rw [List.filter_cons_of_neg keeps, List.filter_eq_nil_iff.2 (dropped.1 keeps),
        List.nil_append]

/-- A quotient drops the flat columns of the columns it divides by, and no others. -/
theorem quotient {aligned : Query} (stem : s.names.stem = x.stem)
    (runLeft : (left.flatten check).Yields s (flatLeft, leftEnv) u)
    (declaresRight : ∀ name ∈ right.outputNames, x.Declares name)
    (hl : left.InPlace flatLeft leftEnv)
    (noCapture : ∀ name ∈ right.outputNames, name ∉ left.outputNames → leftEnv.find? name = none)
    (names : aligned.outputNames = right.outputNames.flatMap leftEnv.leavesOf)
    (bound : ∀ name, name ∉ right.outputNames → env.find? name = leftEnv.find? name) :
    (Query.combine .quotient left right).InPlace (.combine .quotient flatLeft aligned) env := by
  have kept : ∀ name, name ∉ right.outputNames → env.leavesOf name = leftEnv.leavesOf name :=
    fun name absent => Environment.leavesOf_congr (bound name absent)
  -- a leaf that is dropped belongs to a column that is
  have dropped : ∀ name ∈ left.outputNames, name ∉ right.outputNames →
      ∀ c ∈ leftEnv.leavesOf name, c ∉ aligned.outputNames := by
    intro name onLeft absent c own other
    rw [names, List.mem_flatMap] at other
    obtain ⟨b, onRight, other⟩ := other
    have different : name ≠ b := by
      rintro rfl
      exact absent onRight
    by_cases onB : b ∈ left.outputNames
    · exact hl.apart name onLeft b onB different c own other
    · rw [Environment.leavesOf_of_unbound (noCapture b onRight onB), List.mem_singleton] at other
      subst other
      rcases Environment.eq_or_drawn runLeft own with ⟨_, equal⟩ | drawn
      · exact different equal.symm
      · exact (declaresRight c onRight).not_drawn stem drawn
  constructor
  · change flatLeft.outputNames.filter (· ∉ aligned.outputNames) =
      (left.outputNames.filter (· ∉ right.outputNames)).flatMap env.leavesOf
    have same : ∀ name ∈ left.outputNames.filter (· ∉ right.outputNames),
        env.leavesOf name = leftEnv.leavesOf name := by
      intro name member
      exact kept name (by simpa using (List.mem_filter.1 member).2)
    rw [List.flatMap_congr same, hl.columns]
    refine filter_leaves (fun name onLeft keeps c own => ?_) (fun name _ drops c own => ?_)
    · exact decide_eq_true (dropped name onLeft (by simpa using keeps) c own)
    · rw [decide_eq_true_eq, not_not, names, List.mem_flatMap]
      exact ⟨name, by simpa using drops, own⟩
  · intro a onA b onB different c
    obtain ⟨onA, absentA⟩ := List.mem_filter.1 onA
    obtain ⟨onB, absentB⟩ := List.mem_filter.1 onB
    rw [kept a (by simpa using absentA), kept b (by simpa using absentB)]
    exact hl.apart a onA b onB different c

end Query.InPlace

theorem Query.declaring_of_inPlace {q : Query} (plan : q.Everywhere x.inPlace) :
    q.Everywhere x.declaring :=
  plan.left

/-- The flat columns of an accepted plan stand in place of its columns. -/
theorem Query.inPlace_of_flattens :
    ∀ {q flat : Query} {env : Environment} {s t : PassState} {schema : Schema},
    q.Everywhere x.inPlace → q.schemaOf x.checked = .ok schema → x.Flattens q s flat env t →
    q.InPlace flat env
  | .empty, flat, env, s, t, _, _, _, flattens => by
    obtain ⟨rfl, rfl, _⟩ := yields_flatten_empty.1 flattens.run
    exact .of_unbound (fun _ _ => NameMap.find?_empty _) rfl
  | .table _ _, flat, env, s, t, _, _, _, flattens => by
    obtain ⟨rfl, rfl, _⟩ := yields_flatten_table.1 flattens.run
    exact .of_unbound (fun _ _ => NameMap.find?_empty _) rfl
  | .galaxy g, flat, env, s, t, _, _, _, flattens => by
    obtain ⟨underlying, _, u, schema, renamed, _, _, project, equal, rfl⟩ :=
      yields_flatten_galaxy.1 flattens.run
    cases equal
    constructor
    · rw [outputNames_projection project, names_renamings (u.length_block _)]
      change _ = [g.name].flatMap _
      rw [List.flatMap_singleton, Environment.leavesOf, Environment.resolve,
        NameMap.find?_insert_self, Option.getD_some,
        Expr.leafNames_of_leaves (Expr.leaves_tuple_attrs _)]
    · intro a onA b onB different
      exact absurd ((List.mem_singleton.1 onA).trans (List.mem_singleton.1 onB).symm) different
  | .project columns input, flat, env, s, t, _, plan, _, flattens => by
    obtain ⟨flatInput, envInput, u, runInput, inner, _, outputs, runColumns, rfl, rfl⟩ :=
      yields_flatten_project.1 flattens.run
    rw [everywhere_project] at plan
    obtain ⟨⟨declares, distinct⟩, _⟩ := plan
    have leads := (input.flatten_advances x.permissive).leads runInput
    exact .project (leads.stem.trans flattens.stem) declares distinct runColumns
  | .restrict predicate input, flat, env, s, t, _, plan, accepted, flattens => by
    obtain ⟨flatInput, u, inner, part, runInput, _, runPredicate, restriction⟩ :=
      yields_flatten_restrict.1 flattens.run
    rw [everywhere_restrict] at plan
    exact (inPlace_of_flattens plan.2.2 (schemaOf_restrict.1 accepted).1 ⟨flattens.stem,
      runInput⟩).congr rfl (outputNames_flattenRestriction restriction) fun _ => rfl
  | .combine op left right, flat, env, s, t, _, plan, accepted, flattens => by
    rw [everywhere_combine] at plan
    obtain ⟨node, planLeft, planRight⟩ := plan
    obtain ⟨leftSchema, acceptLeft, rightSchema, acceptRight, accept⟩ := schemaOf_combine.1 accepted
    obtain ⟨flatLeft, leftEnv, u, flatRight, rightEnv, flattensLeft, flattensRight, combined⟩ :=
      combined_of_flattens flattens
    have hl := inPlace_of_flattens planLeft acceptLeft flattensLeft
    have hr := inPlace_of_flattens planRight acceptRight flattensRight
    have declaresLeft := declared_outputNames (declaring_of_inPlace planLeft)
    have declaresRight := declared_outputNames (declaring_of_inPlace planRight)
    have namesLeft := names_of_schemaOf acceptLeft
    have namesRight := names_of_schemaOf acceptRight
    cases op with
    | product =>
      have noCapture : x.NoCapture left right := node.2
      obtain ⟨apart, _⟩ := Schema.product_strict.1 accept
      obtain ⟨rfl, bound⟩ := combined.product_eq
      refine .product flattens.stem flattensLeft.run flattensRight.run declaresLeft declaresRight hl
        hr ?_ ?_ (noCapture flattensLeft) bound
      · rw [← namesLeft, ← namesRight]
        exact List.forall_mem_map.2 apart.disjoint
      · exact namesRight ▸ apart.distinct
    | quotient =>
      have noCapture : x.NoCapture left right := node.2
      obtain ⟨aligned, rfl, names, bound⟩ := combined.quotient_eq hr.columns
      exact .quotient flattens.stem flattensLeft.run declaresRight hl (noCapture flattensLeft) names
        fun name absent => by rw [bound, if_neg absent]
    | union | intersection | difference =>
      obtain ⟨aligned, rfl, same⟩ := combined.setOperation_eq (by simp) (by simp)
      exact hl.congr rfl rfl same
  | .grouping columns input, flat, env, s, t, _, _, _, flattens => by
    obtain ⟨_, _, _, _, _, _, flats, runGroups, rfl, rfl⟩ := yields_flatten_grouping.1 flattens.run
    exact .of_unbound (fun _ _ => NameMap.find?_empty _) (names_of_groups runGroups)
  | .order keys input, flat, env, s, t, _, plan, accepted, flattens => by
    obtain ⟨flatInput, u, inner, flats, runInput, _, runKeys, rfl⟩ :=
      yields_flatten_order.1 flattens.run
    rw [everywhere_order] at plan
    exact (inPlace_of_flattens plan.2.2 (schemaOf_order.1 accepted).1 ⟨flattens.stem,
      runInput⟩).congr rfl rfl fun _ => rfl
  | .top _ _ input, flat, env, s, t, _, plan, accepted, flattens => by
    obtain ⟨flatInput, runInput, rfl⟩ := yields_flatten_top.1 flattens.run
    rw [everywhere_top] at plan
    exact (inPlace_of_flattens plan.2 (schemaOf_top.1 accepted) ⟨flattens.stem, runInput⟩).congr rfl
      rfl fun _ => rfl

end FlatPlan
