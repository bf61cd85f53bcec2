import FlatPlan.Proofs.Inference
import FlatPlan.Proofs.SampleVocabulary

/-!
# Bindings that resolve

A projection that renames a structured attribute binds the old name as well, to the same flat
columns. Main statement: every binding that a run answers is a tuple of references to columns that
the flat form has (`Query.bindings_resolve`), if no quotient divides by a column of which the left
operand keeps another name. Bindings are the same or have no column in common
(`Query.eq_of_common_leaf`), so nothing else can take the columns of a binding away. A quotient by a
renamed column does (`Sample.dividedPeople_dangling`).
-/

namespace FlatPlan

open Pass

/-- No column that a quotient divides by has another name on the left, one that is not divided
by. -/
def Session.NoAlias (x : Session) (left right : Query) : Prop :=
  ∀ ⦃s t : PassState⦄ ⦃flat : Query⦄ ⦃env : Environment⦄, x.Flattens left s flat env t →
    ∀ name ∈ right.outputNames, ∀ other, other ∉ right.outputNames →
      ∀ rep, env.find? name = some rep → env.find? other ≠ some rep

/-- What the nodes of a plan keep to so that bindings resolve. -/
def Session.unaliased (x : Session) : NodeProperty :=
  x.declaring.and
    { expr _ := True
      query
        | .combine .quotient left right => x.NoAlias left right
        | _ => True }

/-- Whether every binding is a tuple of references to columns of a schema. -/
def Environment.Resolves (env : Environment) (schema : Schema) : Prop :=
  ∀ name rep, env.find? name = some rep →
    rep.isTuple = true ∧ ∀ leaf ∈ rep.leaves, ∃ column ∈ schema.names, leaf = .attr column

variable {x : Session} {q flat : Query} {schema : Schema} {env : Environment} {s t : PassState}

/-! ## Bindings with a common column -/

/-- Of lists put one after the other only one has an item that stands once. -/
private theorem eq_of_count_flatMap {α : Type} {lists : List α} {items : α → List String}
    {c : String} (once : (lists.flatMap items).count c ≤ 1) {a b : α} (onA : a ∈ lists)
    (onB : b ∈ lists)
    (inA : c ∈ items a) (inB : c ∈ items b) : a = b := by
  induction lists with
  | nil => cases onA
  | cons first lists ih =>
    rw [List.flatMap_cons, List.count_append] at once
    have later : ∀ d ∈ lists, c ∈ items d → 0 < (lists.flatMap items).count c := fun d among own =>
      List.count_pos_iff.2 (List.mem_flatMap.2 ⟨d, among, own⟩)
    rcases List.mem_cons.1 onA with firstA | laterA <;>
      rcases List.mem_cons.1 onB with firstB | laterB
    · rw [firstA, firstB]
    · have own := List.count_pos_iff.2 (firstA ▸ inA)
      have other := later b laterB inB
      omega
    · have own := List.count_pos_iff.2 (firstB ▸ inB)
      have other := later a laterA inA
      omega
    · exact ih (by omega) laterA laterB

namespace Query

/-- A projection binds the names of its columns and their aliases to the flat columns of single
outputs. -/
theorem exists_output_of_find? {check : Regime} {inner : Schema} {envInput : Environment}
    {cs : List (String × Expr)} {outputs : List OutputColumn} {name : String} {rep : Expr}
    (run : (flattenColumns check envInput inner cs).Yields s outputs t)
    (bound : (OutputColumn.withAliases cs envInput (OutputColumn.bindings outputs)).find?
      name = some rep) :
    ∃ o ∈ outputs, o.refs = some rep ∧ o.columns.map Prod.fst = rep.leafNames := by
  obtain ⟨other, own⟩ := OutputColumn.exists_of_find?_withAliases bound
  obtain ⟨o, member, _, refs⟩ := OutputColumn.exists_of_find?_bindings own
  obtain ⟨c, _, part, _, u, w, _, output, _⟩ :=
    exists_of_mem_right (flattenColumns_within run) member
  refine ⟨o, member, refs, ?_⟩
  rw [(OutputColumn.carries_of_yields output).names, refs, Option.getD_some]

/-- Bindings with a common column are the same. -/
theorem eq_of_common_leaf : ∀ {q flat : Query} {env : Environment} {s t : PassState},
    q.Everywhere x.declaring → x.Flattens q s flat env t →
    ∀ {a b c : String} {rep rep' : Expr}, env.find? a = some rep → env.find? b = some rep' →
      c ∈ rep.leafNames → c ∈ rep'.leafNames → rep = rep'
  | .empty, flat, env, s, t, _, flattens, a, b, c, rep, rep', boundA, _, _, _ => by
    obtain ⟨_, rfl, _⟩ := yields_flatten_empty.1 flattens.run
    cases boundA
  | .table _ _, flat, env, s, t, _, flattens, a, b, c, rep, rep', boundA, _, _, _ => by
    obtain ⟨_, rfl, _⟩ := yields_flatten_table.1 flattens.run
    cases boundA
  | .galaxy g, flat, env, s, t, _, flattens, a, b, c, rep, rep', boundA, boundB, _, _ => by
    obtain ⟨_, _, _, _, _, _, _, _, equal, _⟩ := yields_flatten_galaxy.1 flattens.run
    cases equal
    rw [NameMap.find?_insert] at boundA boundB
    split at boundA
    · split at boundB
      · cases boundA
        cases boundB
        rfl
      · cases boundB
    · cases boundA
  | .project columns input, flat, env, s, t, plan, flattens, a, b, c, rep, rep', boundA, boundB,
      inA, inB => by
    obtain ⟨flatInput, envInput, u, runInput, inner, _, outputs, runColumns, rfl, rfl⟩ :=
      yields_flatten_project.1 flattens.run
    rw [everywhere_project] at plan
    have stem := ((input.flatten_advances x.permissive).leads runInput).stem.trans flattens.stem
    have drawn := (bindings_drawn_of_columns runColumns a rep boundA).drawn c inA
    obtain ⟨o, onA, refs, names⟩ := exists_output_of_find? runColumns boundA
    obtain ⟨o', onB, refs', names'⟩ := exists_output_of_find? runColumns boundB
    rw [← names] at inA
    rw [← names'] at inB
    have once :=
      ((names_of_columns stem plan.1 runColumns).drawn c (List.mem_flatMap.2 ⟨o, onA, inA⟩)
        fun declares => declares.not_drawn stem drawn).2
    cases eq_of_count_flatMap once onA onB inA inB
    exact Option.some.inj (refs.symm.trans refs')
  | .restrict _ input, _, _, _, _, plan, flattens, _, _, _, _, _, boundA, boundB, inA, inB => by
    obtain ⟨_, _, _, _, runInput, _⟩ := yields_flatten_restrict.1 flattens.run
    rw [everywhere_restrict] at plan
    exact eq_of_common_leaf plan.2.2 ⟨flattens.stem, runInput⟩ boundA boundB inA inB
  | .combine op left right, flat, env, s, t, plan, flattens, a, b, c, rep, rep', boundA, boundB,
      inA, inB => by
    rw [everywhere_combine] at plan
    obtain ⟨_, planLeft, planRight⟩ := plan
    obtain ⟨flatLeft, leftEnv, u, flatRight, rightEnv, flattensLeft, flattensRight, combined⟩ :=
      combined_of_flattens flattens
    -- columns of different operands are drawn in different runs
    have across : ∀ {a b : String} {rep rep' : Expr}, leftEnv.find? a = some rep →
        rightEnv.find? b = some rep' → c ∈ rep.leafNames → c ∉ rep'.leafNames := by
      intro a b rep rep' onLeft onRight inLeft inRight
      exact ((bindings_drawn flattensLeft.run a rep onLeft).drawn c inLeft).not_again
        flattensLeft.leads ((bindings_drawn flattensRight.run b rep' onRight).drawn c inRight)
    rcases combined.find? boundA with leftA | rightA <;>
      rcases combined.find? boundB with leftB | rightB
    · exact eq_of_common_leaf planLeft flattensLeft leftA leftB inA inB
    · exact absurd inB (across leftA rightB inA)
    · exact absurd inA (across leftB rightA inB)
    · exact eq_of_common_leaf planRight flattensRight rightA rightB inA inB
  | .grouping _ _, flat, env, s, t, _, flattens, a, b, c, rep, rep', boundA, _, _, _ => by
    obtain ⟨_, _, _, _, _, _, _, _, _, rfl⟩ := yields_flatten_grouping.1 flattens.run
    cases boundA
  | .order _ input, _, _, _, _, plan, flattens, _, _, _, _, _, boundA, boundB, inA, inB => by
    obtain ⟨_, _, _, _, runInput, _⟩ := yields_flatten_order.1 flattens.run
    rw [everywhere_order] at plan
    exact eq_of_common_leaf plan.2.2 ⟨flattens.stem, runInput⟩ boundA boundB inA inB
  | .top _ _ input, _, _, _, _, plan, flattens, _, _, _, _, _, boundA, boundB, inA, inB => by
    obtain ⟨_, runInput, _⟩ := yields_flatten_top.1 flattens.run
    rw [everywhere_top] at plan
    exact eq_of_common_leaf plan.2 ⟨flattens.stem, runInput⟩ boundA boundB inA inB

/-! ## Columns of the flat form -/

theorem declaring_of_unaliased (plan : q.Everywhere x.unaliased) : q.Everywhere x.declaring :=
  plan.left

/-- A quotient keeps the columns of the bindings that it keeps. -/
theorem not_mem_aligned {left right flatLeft flatRight aligned : Query}
    {leftEnv rightEnv : Environment} {columns : List (String × Expr)}
    (planLeft : left.Everywhere x.declaring)
    (declares : ∀ name ∈ right.outputNames, x.Declares name) (noAlias : x.NoAlias left right)
    (flattens : x.Flattens left s flatLeft leftEnv t)
    (alignment : Aligns (right.outputNames.map fun name => (name, name)) leftEnv rightEnv flatRight
      aligned columns)
    {name c : String} {rep : Expr} (kept : name ∉ right.outputNames)
    (bound : leftEnv.find? name = some rep)
    (leaf : c ∈ rep.leafNames) : c ∉ aligned.outputNames := by
  rw [alignment.outputNames, List.mem_flatMap]
  rintro ⟨p, paired, dropped⟩
  obtain ⟨divided, onRight, rfl⟩ := List.mem_map.1 paired
  unfold Environment.resolve at dropped
  cases found : leftEnv.find? divided with
  | none =>
    -- the column itself is divided by, but leaves are drawn
    rw [found] at dropped
    cases List.mem_singleton.1 dropped
    have drawn := (bindings_drawn flattens.run name rep bound).drawn divided leaf
    exact (declares divided onRight).not_drawn flattens.stem drawn
  | some rep' =>
    rw [found] at dropped
    cases eq_of_common_leaf planLeft flattens bound found leaf dropped
    exact noAlias flattens divided onRight name kept rep found bound

/-- The columns of a binding are columns of the flat form. -/
theorem mem_outputNames_of_binding : ∀ {q flat : Query} {env : Environment} {s t : PassState},
    q.Everywhere x.unaliased → x.Flattens q s flat env t →
    ∀ {name c : String} {rep : Expr}, env.find? name = some rep → c ∈ rep.leafNames →
      c ∈ flat.outputNames
  | .empty, flat, env, s, t, _, flattens, name, c, rep, bound, _ => by
    obtain ⟨_, rfl, _⟩ := yields_flatten_empty.1 flattens.run
    cases bound
  | .table _ _, flat, env, s, t, _, flattens, name, c, rep, bound, _ => by
    obtain ⟨_, rfl, _⟩ := yields_flatten_table.1 flattens.run
    cases bound
  | .galaxy g, flat, env, s, t, _, flattens, name, c, rep, bound, leaf => by
    obtain ⟨_, _, u, schema, renamed, _, _, project, equal, _⟩ :=
      yields_flatten_galaxy.1 flattens.run
    cases equal
    rw [NameMap.find?_insert] at bound
    split at bound
    · cases bound
      rw [outputNames_projection project, names_renamings (u.length_block _)]
      rwa [Expr.leafNames_of_leaves (Expr.leaves_tuple_attrs _)] at leaf
    · cases bound
  | .project columns input, flat, env, s, t, _, flattens, name, c, rep, bound, leaf => by
    obtain ⟨flatInput, envInput, u, _, inner, _, outputs, runColumns, rfl, rfl⟩ :=
      yields_flatten_project.1 flattens.run
    obtain ⟨o, member, _, names⟩ := exists_output_of_find? runColumns bound
    rw [outputNames_ofOutputs, List.mem_flatMap]
    exact ⟨o, member, names ▸ leaf⟩
  | .restrict _ input, flat, env, s, t, plan, flattens, name, c, rep, bound, leaf => by
    obtain ⟨_, _, _, _, runInput, _, _, restriction⟩ := yields_flatten_restrict.1 flattens.run
    rw [everywhere_restrict] at plan
    rw [outputNames_flattenRestriction restriction]
    exact mem_outputNames_of_binding plan.2.2 ⟨flattens.stem, runInput⟩ bound leaf
  | .combine op left right, flat, env, s, t, plan, flattens, name, c, rep, bound, leaf => by
    rw [everywhere_combine] at plan
    obtain ⟨node, planLeft, planRight⟩ := plan
    obtain ⟨flatLeft, leftEnv, u, flatRight, rightEnv, flattensLeft, flattensRight, combined⟩ :=
      combined_of_flattens flattens
    have found := combined.find? bound
    cases combined with
    | plain => cases bound
    | product own _ =>
      subst own
      refine mem_mergeNames.2 (found.imp (fun onLeft => ?_) (fun onRight => ?_))
      · exact mem_outputNames_of_binding planLeft flattensLeft onLeft leaf
      · exact mem_outputNames_of_binding planRight flattensRight onRight leaf
    | quotient own alignment keeps =>
      subst own
      have noAlias : x.NoAlias left right := node.2
      rw [keeps] at bound
      split at bound
      · cases bound
      case isFalse kept =>
        refine List.mem_filter.2 ⟨mem_outputNames_of_binding planLeft flattensLeft bound leaf,
          decide_eq_true ?_⟩
        exact not_mem_aligned (declaring_of_unaliased planLeft)
          (declared_outputNames (declaring_of_unaliased planRight)) noAlias flattensLeft alignment
            kept bound leaf
    | setOperation noProduct noQuotient _ =>
      rw [outputNames_setOperation noProduct noQuotient]
      exact mem_outputNames_of_binding planLeft flattensLeft bound leaf
  | .grouping _ _, flat, env, s, t, _, flattens, name, c, rep, bound, _ => by
    obtain ⟨_, _, _, _, _, _, _, _, _, rfl⟩ := yields_flatten_grouping.1 flattens.run
    cases bound
  | .order _ input, flat, env, s, t, plan, flattens, name, c, rep, bound, leaf => by
    obtain ⟨_, _, _, _, runInput, _, _, rfl⟩ := yields_flatten_order.1 flattens.run
    rw [everywhere_order] at plan
    exact mem_outputNames_of_binding (q := input) plan.2.2 ⟨flattens.stem, runInput⟩ bound leaf
  | .top _ _ input, flat, env, s, t, plan, flattens, name, c, rep, bound, leaf => by
    obtain ⟨_, runInput, rfl⟩ := yields_flatten_top.1 flattens.run
    rw [everywhere_top] at plan
    exact mem_outputNames_of_binding (q := input) plan.2 ⟨flattens.stem, runInput⟩ bound leaf

/-- Every binding that a run answers is a tuple of references to columns of the flat form, which has
a schema if its columns stand in place, its operators give types to flat applications and its
encoders answer what has a type. -/
theorem bindings_resolve (plan : q.Everywhere x.unaliased)
    (accepted : q.checkSchema x.capabilities = .ok schema) (stem : s.names.stem = x.stem)
    (run : (q.flatten x.permissive).runFrom s = (.ok (flat, env), t)) :
    (∀ inferred, flat.inferSchema x.capabilities = .ok inferred → env.Resolves inferred) ∧
      (q.Everywhere x.inferring → ∃ inferred, flat.inferSchema x.capabilities = .ok inferred) := by
  have flattens : x.Flattens q s flat env t := ⟨stem, run⟩
  refine ⟨fun inferred infer name rep bound => ?_, fun planInference => ?_⟩
  · have refers := bindings_drawn flattens.run name rep bound
    refine ⟨refers.isTuple, fun leaf member => ?_⟩
    rw [refers.leaves] at member
    obtain ⟨column, among, rfl⟩ := List.mem_map.1 member
    exact ⟨column, names_of_schemaOf infer ▸ mem_outputNames_of_binding plan flattens bound among,
      rfl⟩
  · exact infers_of_flattens planInference accepted flattens

end Query

namespace Sample

/-- The people under a new name that stand beside all rows of a table. -/
def dividedRows : Query := .combine .quotient renamedRows tableT

/-- The table has none of the bound names. -/
theorem unbound_of_renamedRows {name : String}
    (flattens : session.Flattens renamedRows s flat env t) (member : name ∈ tableT.outputNames) :
    env.find? name = none := by
  obtain ⟨_, leftEnv, _, _, rightEnv, flattensLeft, flattensRight, combined⟩ :=
    Query.combined_of_flattens flattens
  obtain ⟨_, rfl, _⟩ := Query.yields_flatten_table.1 flattensRight.run
  have absent : name ∉ renamedPeople.outputNames := by
    rcases eq_of_mem_tableT member with rfl | rfl <;> decide
  have unbound := renamedPeople_noCapture flattensLeft name member absent
  rw [Option.eq_none_iff_forall_ne_some]
  intro rep bound
  rcases combined.find? bound with own | own
  · cases unbound.symm.trans own
  · cases own

theorem dividedRows_inferring : dividedRows.Everywhere session.inferring := by
  rw [dividedRows, Query.everywhere_combine]
  refine ⟨⟨⟨trivial, ?_⟩, trivial⟩, renamedRows_inferring, table_inferring (by decide)⟩
  exact fun _ _ _ _ flattens name member _ => unbound_of_renamedRows flattens member

theorem table_unaliased {name : String} {columns : List Column}
    (plain : ∀ c ∈ columns, '_' ∉ c.1.toList) :
    (Query.table name ⟨columns⟩).Everywhere session.unaliased := by
  rw [Query.everywhere_table]
  exact ⟨Session.declares_names plain, trivial⟩

theorem renamedRows_unaliased : renamedRows.Everywhere session.unaliased := by
  simp only [renamedRows, renamedPeople, Query.everywhere_combine, Query.everywhere_project,
    Query.everywhere_galaxy, Expr.everywhere_attr, List.forall_mem_singleton]
  exact ⟨⟨trivial, trivial⟩, ⟨⟨Session.declares_all (by decide), trivial⟩, ⟨trivial, trivial⟩,
    ⟨Session.declares_of_noUnderscore (by decide), trivial⟩, table_unaliased (by decide)⟩,
    table_unaliased (by decide)⟩

theorem dividedRows_unaliased : dividedRows.Everywhere session.unaliased := by
  rw [dividedRows, Query.everywhere_combine]
  refine ⟨⟨trivial, ?_⟩, renamedRows_unaliased, table_unaliased (by decide)⟩
  intro s t flat env flattens name member _ _ rep bound
  cases (unbound_of_renamedRows flattens member).symm.trans bound

theorem dividedRows_resolve : ∃ flat env t,
    (dividedRows.flatten session.permissive).runFrom start = (.ok (flat, env), t) ∧
      env.contains "p" = true ∧ env.contains "q" = true ∧
      ∃ inferred, flat.inferSchema .empty = .ok inferred ∧ env.Resolves inferred := by
  obtain ⟨resolves, infers⟩ :=
    Query.bindings_resolve (x := session) (s := start) dividedRows_unaliased rfl rfl rfl
  obtain ⟨inferred, infer⟩ := infers dividedRows_inferring
  exact ⟨_, _, _, rfl, rfl, rfl, inferred, infer, resolves inferred infer⟩

/-- The people under a new name, divided by themselves. -/
def dividedPeople : Query := .combine .quotient renamedPeople renamedPeople

/-- A quotient drops the columns of the people, and keeps the old name bound to them. -/
theorem dividedPeople_dangling :
    dividedPeople.checkSchema .empty = .ok ⟨[]⟩ ∧
    ∃ flat env t, (dividedPeople.flatten session.permissive).runFrom start = (.ok (flat, env), t) ∧
      flat.inferSchema .empty = .ok ⟨[]⟩ ∧
      env.find? "p" = some (.tuple [.attr "gx_3", .attr "gx_4"]) ∧
      ¬env.Resolves ⟨[]⟩ := by
  refine ⟨rfl, _, _, _, rfl, rfl, rfl, fun resolves => ?_⟩
  obtain ⟨_, among, _⟩ := (resolves "p" _ rfl).2 (.attr "gx_3") List.mem_cons_self
  cases among

end Sample

end FlatPlan
