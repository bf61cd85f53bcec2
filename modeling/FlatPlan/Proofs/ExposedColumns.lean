import FlatPlan.Proofs.FlatNames
import FlatPlan.Proofs.SampleVocabulary

/-!
# What a projection exposes

A flat projection has exactly the columns that are declared: a scalar under its own name, and a
tuple spread over columns of its own, one for each leaf, whose names are drawn in the run. The
environment binds a declared column exactly if it computes a tuple. Besides it binds an attribute of
the input that is only passed on under other names, to the columns of the first of these
(`Query.project_exposes`). This holds of every projection with different column names, accepted or
not.
-/

namespace FlatPlan

open Pass

/-! ## Runs of columns -/

/-- A declared column in a run: the flat form of what it computes, and the names drawn for the
leaves of a tuple. -/
structure ColumnRun where
  part : Flattened
  fresh : List String

section Columns

variable {check : Regime} {env : Environment} {schema : Schema} {s t : PassState}

/-- The runs of declared columns, one after the other. -/
inductive ColumnRuns (check : Regime) (env : Environment) (schema : Schema) :
    PassState → List (String × Expr) → List ColumnRun → PassState → Prop
  | nil (s : PassState) : ColumnRuns check env schema s [] [] s
  | scalar {s u t : PassState} {c : String × Expr} {columns : List (String × Expr)}
    {part : Flattened} {runs : List ColumnRun}
    (run : (c.2.flatten check env schema).runFrom s = (.ok part, u))
    (noTuple : part.expr.isTuple = false) (rest : ColumnRuns check env schema u columns runs t) :
    ColumnRuns check env schema s (c :: columns) (⟨part, []⟩ :: runs) t
  | tuple {s u t : PassState} {c : String × Expr} {columns : List (String × Expr)}
    {part : Flattened} {runs : List ColumnRun}
    (run : (c.2.flatten check env schema).runFrom s = (.ok part, u))
    (isTuple : part.expr.isTuple = true)
    (rest : ColumnRuns check env schema (u.after part.expr.leaves.length) columns runs t) :
    ColumnRuns check env schema s (c :: columns) (⟨part, u.block part.expr.leaves.length⟩ :: runs) t

namespace ColumnRuns

variable {columns : List (String × Expr)} {runs : List ColumnRun}

theorem leads (h : ColumnRuns check env schema s columns runs t) : s.Leads t := by
  induction h with
  | nil s => exact .refl s
  | @scalar _ _ _ c _ _ _ run _ _ ih =>
    exact ((c.2.flatten_advances check env schema).leads run).trans ih
  | @tuple _ u _ c _ part _ run _ _ ih =>
    exact (((c.2.flatten_advances check env schema).leads run).trans (u.leads_after _)).trans ih

/-- All names drawn for leaves are drawn during the run, each once. -/
theorem fresh (h : ColumnRuns check env schema s columns runs t) :
    (runs.flatMap (·.fresh)).Nodup ∧ ∀ name ∈ runs.flatMap (·.fresh), s.Draws t name := by
  induction h with
  | nil s => exact ⟨.nil, fun _ member => absurd member List.not_mem_nil⟩
  | @scalar _ _ t c _ _ _ run _ _ ih =>
    have before := (c.2.flatten_advances check env schema).leads run
    exact ⟨ih.1, fun name member => (ih.2 name member).mono before (.refl t)⟩
  | @tuple _ u t c _ part _ run _ rest ih =>
    have before := (c.2.flatten_advances check env schema).leads run
    have own : ∀ name ∈ u.block part.expr.leaves.length,
        u.Draws (u.after part.expr.leaves.length) name :=
      fun name member => PassState.draws_of_mem_block member
    rw [List.flatMap_cons, List.nodup_append']
    refine ⟨⟨u.nodup_block _, ih.1, fun name first later => ?_⟩, List.forall_mem_append.2 ⟨?_, ?_⟩⟩
    · exact (own name first).not_again (u.leads_after _) (ih.2 name later)
    · exact fun name member => (own name member).mono before rest.leads
    · exact fun name member => (ih.2 name member).mono (before.trans (u.leads_after _)) (.refl t)

end ColumnRuns

/-- An output column has references exactly if its column is a tuple, to the names drawn for it. -/
structure OutputColumn.Shows (o : OutputColumn) (r : ColumnRun) : Prop where
  scalar : r.part.expr.isTuple = false → o.refs = none
  tuple : r.part.expr.isTuple = true →
    ∃ refs, o.refs = some refs ∧ refs.shape = r.part.expr.shape ∧ refs.leaves = r.fresh.map .attr

/-- Each output column shows the run of its column. -/
theorem Query.columnRuns_of_flattenColumns {columns : List (String × Expr)}
    {outputs : List OutputColumn}
    (run : (flattenColumns check env schema columns).Yields s outputs t) :
    ∃ runs, ColumnRuns check env schema s columns runs t ∧
      List.Forall₂ (fun c r => ∃ o ∈ outputs, o.name = c.1 ∧ o.Shows r) columns runs ∧
      (outputs.flatMap (·.columns)).map Prod.snd = runs.flatMap (·.part.expr.leaves) := by
  induction columns generalizing s outputs with
  | nil =>
    obtain ⟨rfl, rfl⟩ := yields_flattenColumns_nil.1 run
    exact ⟨[], .nil t, .nil, rfl⟩
  | cons c columns ih =>
    obtain ⟨part, u, flat, o, w, output, rest, others, rfl⟩ := yields_flattenColumns_cons.1 run
    obtain ⟨runs, later, shown, computes⟩ := ih others
    have carries := OutputColumn.carries_of_yields output
    -- What the rest shows is among the output columns of the whole.
    have behind : List.Forall₂ (fun c r => ∃ p ∈ o :: rest, p.name = c.1 ∧ p.Shows r)
        columns runs := by
      refine shown.imp fun _ _ h => ?_
      obtain ⟨p, member, own⟩ := h
      exact ⟨p, List.mem_cons_of_mem _ member, own⟩
    rw [List.flatMap_cons, List.map_append, computes]
    rcases carries.carried with ⟨noTuple, none, equal, rfl⟩ | ⟨isTuple, refs, bound, spread⟩
    · have leaves : o.columns.map Prod.snd = part.expr.leaves := by
        rw [equal, Expr.leaves_of_noTuple noTuple]
        rfl
      refine ⟨⟨part, []⟩ :: runs, .scalar flat noTuple later, .cons ⟨o, ?_⟩ behind, ?_⟩
      · refine ⟨List.mem_cons_self, carries.named, fun _ => none, fun isTuple => ?_⟩
        cases noTuple.symm.trans isTuple
      · rw [leaves, List.flatMap_cons]
    · have leaves : o.columns.map Prod.snd = part.expr.leaves := by
        rw [spread.carried, List.map_snd_zip (Nat.le_of_eq (PassState.length_block u _).symm)]
      obtain rfl := spread.after
      refine ⟨⟨part, u.block part.expr.leaves.length⟩ :: runs, .tuple flat isTuple later,
        .cons ⟨o, ?_⟩ behind, ?_⟩
      · refine ⟨List.mem_cons_self, carries.named, fun noTuple => ?_, fun _ => ?_⟩
        · cases noTuple.symm.trans isTuple
        · exact ⟨refs, bound, spread.shape, spread.leaves⟩
      · rw [leaves, List.flatMap_cons]

end Columns

/-! ## Aliases -/

/-- The first of the columns that passes the attribute on as it is. -/
def Query.FirstReference (columns : List (String × Expr)) (name : String)
    (c : String × Expr) : Prop :=
  ∃ before after, columns = before ++ c :: after ∧ c.2 = .attr name ∧ ∀ d ∈ before, d.2 ≠ .attr name

namespace Query.FirstReference

variable {columns : List (String × Expr)} {name : String} {c d : String × Expr}

theorem mem (h : FirstReference columns name c) : c ∈ columns := by
  obtain ⟨before, after, rfl, _⟩ := h
  exact List.mem_append_right _ List.mem_cons_self

theorem head (own : c.2 = .attr name) : FirstReference (c :: columns) name d ↔ d = c := by
  constructor
  · rintro ⟨before, after, equal, _, other⟩
    cases before with
    | nil => exact (List.cons.inj equal).1.symm
    | cons first before =>
      rw [← (List.cons.inj equal).1] at other
      exact absurd own (other c List.mem_cons_self)
  · rintro rfl
    exact ⟨[], columns, rfl, own, fun _ member => absurd member List.not_mem_nil⟩

theorem tail (other : c.2 ≠ .attr name) : FirstReference (c :: columns) name d ↔
    FirstReference columns name d := by
  constructor
  · rintro ⟨before, after, equal, own, others⟩
    cases before with
    | nil =>
      rw [(List.cons.inj equal).1] at other
      exact absurd own other
    | cons first before =>
      exact ⟨before, after, (List.cons.inj equal).2, own, (List.forall_mem_cons.1 others).2⟩
  · rintro ⟨before, after, rfl, own, others⟩
    exact ⟨c :: before, after, rfl, own, List.forall_mem_cons.2 ⟨other, others⟩⟩

end Query.FirstReference

namespace OutputColumn

variable {columns : List (String × Expr)} {env bound : Environment} {c : String × Expr}
  {name : String}

/-- What is bound stays bound as it is. -/
theorem find?_foldl_addAlias {cs : List (String × Expr)} {rep : Expr}
    (found : bound.find? name = some rep) :
    (cs.foldl (addAlias columns env) bound).find? name = some rep := by
  refine List.foldlRecOn (motive := fun bound' : Environment => bound'.find? name = some rep)
    cs _ found ?_
  intro bound' known c _
  rcases find?_addAlias columns env bound' c name with same | ⟨_, _, _, none⟩
  · exact same.trans known
  · cases none.symm.trans known

/-- A name that is neither declared nor bound in the input is not bound. -/
theorem find?_withAliases_of_unknown (unknown : env.contains name = false) :
    (withAliases columns env bound).find? name = bound.find? name := by
  rw [withAliases_eq_foldl]
  refine List.foldlRecOn
    (motive := fun bound' : Environment => bound'.find? name = bound.find? name) columns _ rfl ?_
  intro bound' same c _
  rcases find?_addAlias columns env bound' c name with kept | ⟨_, _, known, _⟩
  · exact kept.trans same
  · cases unknown.symm.trans known

/-- An attribute of the input that is not declared is bound as the first column that passes it
on. -/
theorem find?_withAliases_of_known {rep : Expr} (undeclared : name ∉ columns.map Prod.fst)
    (known : env.contains name = true) (unbound : bound.find? name = none)
    (carried : ∀ c ∈ columns, c.2 = .attr name → ∃ refs, bound.find? c.1 = some refs) :
    (withAliases columns env bound).find? name = some rep ↔
      ∃ c, Query.FirstReference columns name c ∧ bound.find? c.1 = some rep := by
  rw [withAliases_eq_foldl]
  -- Along the columns, the declared ones keep their bindings and the name stays unbound up to its
  -- first reference.
  suffices along : ∀ {cs : List (String × Expr)} {bound' : Environment}, (∀ c ∈ cs, c ∈ columns) →
      (∀ c ∈ columns, bound'.find? c.1 = bound.find? c.1) → bound'.find? name = none →
      ((cs.foldl (addAlias columns env) bound').find? name = some rep ↔
        ∃ c, Query.FirstReference cs name c ∧ bound.find? c.1 = some rep) from
    along (fun _ member => member) (fun _ _ => rfl) unbound
  intro cs bound' among same absent
  induction cs generalizing bound' with
  | nil =>
    rw [List.foldl_nil, absent]
    refine iff_of_false (by simp) ?_
    rintro ⟨c, first, _⟩
    exact List.not_mem_nil first.mem
  | cons c cs ih =>
    rw [List.forall_mem_cons] at among
    rw [List.foldl_cons]
    by_cases own : c.2 = .attr name
    · obtain ⟨refs, found⟩ := carried c among.1 own
      have step : (addAlias columns env bound' c).find? name = some refs := by
        rw [find?_addAlias_attr own undeclared known absent, same c among.1, found]
      simp only [find?_foldl_addAlias step, Query.FirstReference.head own, exists_eq_left, found]
    · simp only [Query.FirstReference.tail own]
      refine ih among.2 (fun d member => ?_) ?_
      · rcases find?_addAlias columns env bound' c d.1 with kept | ⟨_, new, _⟩
        · exact kept.trans (same d member)
        · exact absurd (List.mem_map_of_mem member) new
      · rcases find?_addAlias columns env bound' c name with kept | ⟨attr, _⟩
        · exact kept.trans absent
        · exact absurd attr own

end OutputColumn

/-! ## Projections -/

/-- A column is bound exactly if it computes a tuple, and then to references of that shape to the
names drawn for it. -/
def Environment.Binds (env : Environment) (c : String × Expr) (r : ColumnRun) : Prop :=
  if r.part.expr.isTuple then
    ∃ refs, env.find? c.1 = some refs ∧ refs.shape = r.part.expr.shape ∧
      refs.leaves = r.fresh.map .attr
  else env.find? c.1 = none

namespace Query

variable {check : Regime} {columns : List (String × Expr)} {input flat : Query}
  {env envInput : Environment} {schema : Schema} {outputs : List OutputColumn} {s t : PassState}

/-- The declared columns have the bindings of their output columns. -/
theorem find?_of_flattenColumns (distinct : (columns.map Prod.fst).Nodup)
    (run : (flattenColumns check envInput schema columns).Yields s outputs t) {o : OutputColumn}
    (member : o ∈ outputs) :
    (OutputColumn.withAliases columns envInput (OutputColumn.bindings outputs)).find?
      o.name = o.refs := by
  have names := names_of_flattenColumns run
  rw [OutputColumn.find?_withAliases (names ▸ List.mem_map_of_mem member)]
  exact OutputColumn.find?_bindings (names ▸ distinct) member

/-- The flat columns are those of the declared columns in order. -/
theorem names_of_outputs (run : (flattenColumns check envInput schema columns).Yields s outputs t)
    (found : ∀ o ∈ outputs, env.find? o.name = o.refs) :
    (outputs.flatMap (·.columns)).map Prod.fst =
      columns.flatMap fun c => ((env.find? c.1).map Expr.leafNames).getD [c.1] := by
  have each : ∀ o ∈ outputs,
      o.columns.map Prod.fst = ((env.find? o.name).map Expr.leafNames).getD [o.name] := by
    intro o member
    obtain ⟨c, _, part, _, _, _, _, output, _⟩ :=
      exists_of_mem_right (flattenColumns_within run) member
    rw [(OutputColumn.carries_of_yields output).names, found o member]
    cases o.refs <;> rfl
  calc (outputs.flatMap (·.columns)).map Prod.fst
      = outputs.flatMap fun o => o.columns.map Prod.fst := List.map_flatMap
    _ = outputs.flatMap fun o => ((env.find? o.name).map Expr.leafNames).getD [o.name] :=
      List.flatMap_congr each
    _ = (outputs.map (·.name)).flatMap fun name =>
      ((env.find? name).map Expr.leafNames).getD [name] := by
        rw [List.flatMap_map]
    _ = columns.flatMap fun c => ((env.find? c.1).map Expr.leafNames).getD [c.1] := by
        rw [names_of_flattenColumns run, List.flatMap_map]

theorem binds_of_shows {c : String × Expr} {r : ColumnRun} {o : OutputColumn} (named : o.name = c.1)
    (found : env.find? o.name = o.refs) (shown : o.Shows r) : env.Binds c r := by
  unfold Environment.Binds
  rw [← named, found]
  split
  case isTrue isTuple => exact shown.tuple isTuple
  case isFalse noTuple => exact shown.scalar (Bool.eq_false_iff.2 noTuple)

/-- A name that is not declared is bound exactly if the input binds it and a column passes it on, as
the first of these. -/
theorem find?_of_undeclared {name : String} {rep : Expr} (distinct : (columns.map Prod.fst).Nodup)
    (run : (flattenColumns check envInput schema columns).Yields s outputs t)
    (tuples : ∀ name rep, envInput.find? name = some rep → rep.isTuple = true)
    (undeclared : name ∉ columns.map Prod.fst) :
    (OutputColumn.withAliases columns envInput (OutputColumn.bindings outputs)).find? name =
      some rep ↔ envInput.contains name = true ∧ ∃ c, FirstReference columns name c ∧
        (OutputColumn.withAliases columns envInput (OutputColumn.bindings outputs)).find? c.1 =
          some rep := by
  have names := names_of_flattenColumns run
  have unbound : (OutputColumn.bindings outputs).find? name = none := by
    rw [Option.eq_none_iff_forall_ne_some]
    intro rep found
    obtain ⟨o, member, rfl, _⟩ := OutputColumn.exists_of_find?_bindings found
    exact undeclared (names ▸ List.mem_map_of_mem member)
  cases known : envInput.contains name with
  | false =>
    rw [OutputColumn.find?_withAliases_of_unknown known, unbound]
    simp
  | true =>
    -- A reference to an attribute that the input binds is a tuple, so it is bound again.
    have carried : ∀ c ∈ columns, c.2 = .attr name →
        ∃ refs, (OutputColumn.bindings outputs).find? c.1 = some refs := by
      intro c member own
      obtain ⟨bound, input⟩ := Option.isSome_iff_exists.1 known
      obtain ⟨o, among, part, ⟨_, _, _, flat, _⟩, _, _, _, output, _⟩ :=
        exists_of_mem_right (flattenColumns_within run).flip member
      rw [own] at flat
      obtain ⟨rfl, _⟩ := Expr.yields_flatten_attr.1 flat
      have carries := OutputColumn.carries_of_yields output
      have isTuple : (envInput.resolve name).isTuple = true := by
        rw [Environment.resolve, input]
        exact tuples name bound input
      rcases carries.refs with ⟨noTuple, _⟩ | ⟨_, refs, own, _⟩
      · cases noTuple.symm.trans isTuple
      · refine ⟨refs, ?_⟩
        rw [← own, ← carries.named]
        exact OutputColumn.find?_bindings (names ▸ distinct) among
    rw [OutputColumn.find?_withAliases_of_known undeclared known unbound carried]
    simp only [true_and]
    refine exists_congr fun c => and_congr_right fun first => ?_
    rw [OutputColumn.find?_withAliases (List.mem_map_of_mem first.mem)]

/-- A flat projection exposes its declared columns in order, and its environment binds the
structured ones and the attributes that are passed on under other names only. -/
theorem project_exposes (distinct : (columns.map Prod.fst).Nodup)
    (run : ((project columns input).flatten check).runFrom s = (.ok (flat, env), t)) :
    ∃ flatInput envInput u schema runs exposed source,
      (input.flatten check).runFrom s = (.ok (flatInput, envInput), u) ∧
      input.schemaOf check = .ok schema ∧
      ColumnRuns check envInput schema u columns runs t ∧
      flat = .project exposed source ∧
      exposed.map Prod.fst = columns.flatMap
        (fun c => ((env.find? c.1).map Expr.leafNames).getD [c.1]) ∧
      exposed.map Prod.snd = runs.flatMap (·.part.expr.leaves) ∧
      List.Forall₂ env.Binds columns runs ∧
      (runs.flatMap (·.fresh)).Nodup ∧ (∀ name ∈ runs.flatMap (·.fresh), u.Draws t name) ∧
      ∀ name, name ∉ columns.map Prod.fst → ∀ rep, (env.find? name = some rep ↔
        envInput.contains name = true ∧ ∃ c, FirstReference columns name c ∧
          env.find? c.1 = some rep) := by
  obtain ⟨flatInput, envInput, u, runInput, schema, inferred, outputs, runColumns, rfl, rfl⟩ :=
    yields_flatten_project.1 run
  obtain ⟨runs, columnRuns, shown, computes⟩ := columnRuns_of_flattenColumns runColumns
  have found := fun o (member : o ∈ outputs) => find?_of_flattenColumns distinct runColumns member
  refine ⟨flatInput, envInput, u, schema, runs, _, _, runInput, inferred, columnRuns, rfl,
    names_of_outputs runColumns found, computes, ?_, columnRuns.fresh.1, columnRuns.fresh.2, ?_⟩
  · refine shown.imp fun c r column => ?_
    obtain ⟨o, member, named, own⟩ := column
    exact binds_of_shows named (found o member) own
  · intro name undeclared rep
    have tuples : ∀ name rep, envInput.find? name = some rep → rep.isTuple = true :=
      fun name rep bound => (bindings_drawn runInput name rep bound).isTuple
    exact find?_of_undeclared distinct runColumns tuples undeclared

end Query

namespace Sample

/-- The people under two new names, and a nickname that is looked up between them. -/
def doubledColumns : List (String × Expr) :=
  [("q", .attr "p"), ("n", .apply nickname [.const .string (.string "Ada")]), ("r", .attr "p")]

/-- The people stay reachable under their old name, as the first of the new ones. -/
theorem doubledColumns_exposed : (doubledColumns.map Prod.fst).Nodup ∧ ∃ flat env t,
    ((Query.project doubledColumns (.galaxy galaxyP)).flatten session.permissive).runFrom start =
      (.ok (flat, env), t) ∧
    (∃ exposed source, flat = .project exposed source ∧
      exposed.map Prod.fst = ["gx_3", "gx_4", "n", "gx_7", "gx_8"]) ∧
    ∃ c, Query.FirstReference doubledColumns "p" c ∧
      env.find? c.1 = some (.tuple [.attr "gx_3", .attr "gx_4"]) := by
  refine ⟨by decide, _, _, _, rfl, ?_⟩
  obtain ⟨_, _, _, _, _, exposed, source, _, _, _, flat, names, _, _, _, _, aliases⟩ :=
    @Query.project_exposes session.permissive doubledColumns (.galaxy galaxyP) _ _ start _ (by
      decide) rfl
  exact ⟨⟨exposed, source, flat, names⟩, ((aliases "p" (by decide) _).1 rfl).2⟩

end Sample

end FlatPlan
