import Mathlib.Data.List.Nodup
import FlatPlan.Proofs.Run

/-!
# Flattening form by form

What a run of the pass consists of, for each form of expressions and queries: which runs it is made
of and how their results are put together. Proofs about the pass go through these equivalences, in
one direction to take a run apart and in the other to put one together.
-/

namespace FlatPlan

open Pass

variable {check : Regime} {env : Environment} {schema : Schema} {s t : PassState}

attribute [local simp] Expr.flatten Query.flatten

/-! ## Expressions -/

/-- An operator that looks nothing up joins nothing. -/
theorem Operator.joinSource_eq_pure {op : Operator} (h : op.lookupSource? = none) :
    op.joinSource check = pure none := by
  obtain ⟨name, range, render, flattening⟩ := op
  cases flattening with
  | lookup source condition result => cases h
  | _ => rfl

namespace Expr

/-- A constant of a scalar type stays; in place of a structured one there are nulls, or what is
stored. -/
theorem flattenConst_eq_ok {rules : Rules} {type : Ty} {value : Value} {e : Expr} :
    flattenConst rules type value = .ok e ↔
      (type.layout? = none ∧ e = .const type value) ∨
        ∃ l, type.layout? = some l ∧
          ((value.isNull = true ∧ e = l.nulls) ∨
            (value.isNull = false ∧ l.stored rules value = .ok e)) := by
  unfold flattenConst
  cases type.layout? with
  | none => simp [@eq_comm Expr e]
  | some l => cases value.isNull <;> simp [@eq_comm Expr e]

variable {part : Flattened}

/-- A reference becomes what the environment binds its name to. -/
theorem yields_flatten_attr {name : String} :
    ((attr name).flatten check env schema).Yields s part t ↔
      part = .plain (env.resolve name) ∧ t = s := by
  rw [flatten, yields_pure]

/-- A constant becomes what it is stored as. -/
theorem yields_flatten_const {type : Ty} {value : Value} :
    ((const type value).flatten check env schema).Yields s part t ↔
      ∃ e, flattenConst check.rules type value = .ok e ∧ part = .plain e ∧ t = s := by
  simp only [flatten, yields_bind, yields_ofExcept, yields_pure, existsAndEq, and_true]

theorem yields_flatten_null {type : Ty} :
    ((null type).flatten check env schema).Yields s part t ↔
      part = .plain (flattenNull type) ∧ t = s := by
  rw [flatten, yields_pure]

/-- An application whose operator looks nothing up: the arguments are flattened, then its rule is
applied, if it has one. -/
theorem yields_flatten_apply {op : Operator} {args : List Expr}
    (noLookup : op.lookupSource? = none) :
    ((apply op args).flatten check env schema).Yields s part t ↔
      ∃ parts, (flattenItems check env schema args).Yields s parts t ∧
        ((op.hasRule = false ∧ part = .gather parts (.apply op (parts.map (·.expr)))) ∨
          (op.hasRule = true ∧ ∃ types, typesOf check schema args = .ok types ∧
            Application.flatten check.rules ⟨op, parts.map (·.expr), types, []⟩ none parts =
              .ok part)) := by
  simp only [flatten, Operator.joinSource_eq_pure noLookup, yields_bind, yields_ite, yields_pure,
    yields_ofExcept]
  constructor
  · rintro ⟨parts, u, items, ⟨rule, types, _, ⟨typed, rfl⟩, _, _, ⟨rfl, rfl⟩, flat⟩
      | ⟨noRule, rfl, rfl⟩⟩
    · exact ⟨parts, (yields_ofExcept.1 flat).2 ▸ items,
        .inr ⟨rule, types, typed, (yields_ofExcept.1 flat).1⟩⟩
    · exact ⟨parts, items, .inl ⟨by simpa using noRule, rfl⟩⟩
  · rintro ⟨parts, items, ⟨noRule, rfl⟩ | ⟨rule, types, typed, flat⟩⟩
    · exact ⟨parts, t, items, .inr ⟨by simp [noRule], rfl, rfl⟩⟩
    · exact ⟨parts, t, items, .inl ⟨rule, types, t, ⟨typed, rfl⟩, none, t, ⟨rfl, rfl⟩,
        yields_ofExcept.2 ⟨flat, rfl⟩⟩⟩

/-- An application of any operator: the arguments are flattened, then what the operator looks up,
and then its rule is applied. -/
theorem yields_flatten_application {op : Operator} {args : List Expr} :
    ((apply op args).flatten check env schema).Yields s part t ↔
      ∃ parts u, (flattenItems check env schema args).Yields s parts u ∧
        ((op.hasRule = false ∧ part = .gather parts (.apply op (parts.map (·.expr))) ∧ t = u) ∨
          (op.hasRule = true ∧ ∃ types joined, typesOf check schema args = .ok types ∧
            (op.joinSource check).Yields u joined t ∧
            Application.flatten check.rules
              ⟨op, parts.map (·.expr), types, (joined.map Prod.snd).getD []⟩ (joined.map Prod.fst)
                parts = .ok part)) := by
  simp only [flatten, yields_bind, yields_ite, yields_pure, yields_ofExcept]
  constructor
  · rintro ⟨parts, u, items, ⟨rule, types, _, ⟨typed, rfl⟩, joined, w, join, flat⟩
      | ⟨noRule, rfl, rfl⟩⟩
    · refine ⟨parts, _, items, .inr ⟨rule, types, joined, typed, ?_⟩⟩
      cases joined with
      | none => exact ⟨(yields_ofExcept.1 flat).2 ▸ join, (yields_ofExcept.1 flat).1⟩
      | some pair => exact ⟨(yields_ofExcept.1 flat).2 ▸ join, (yields_ofExcept.1 flat).1⟩
    · exact ⟨parts, t, items, .inl ⟨by simpa using noRule, rfl, rfl⟩⟩
  · rintro ⟨parts, u, items, ⟨noRule, rfl, rfl⟩ | ⟨rule, types, joined, typed, join, flat⟩⟩
    · exact ⟨parts, t, items, .inr ⟨by simp [noRule], rfl, rfl⟩⟩
    · refine ⟨parts, u, items, .inl ⟨rule, types, u, ⟨typed, rfl⟩, joined, t, join, ?_⟩⟩
      cases joined with
      | none => exact yields_ofExcept.2 ⟨flat, rfl⟩
      | some pair => exact yields_ofExcept.2 ⟨flat, rfl⟩

/-- A tuple becomes the tuple of its flat items, with the joins of all of them. -/
theorem yields_flatten_tuple {items : List Expr} :
    ((tuple items).flatten check env schema).Yields s part t ↔
      ∃ parts, (flattenItems check env schema items).Yields s parts t ∧
        part = .gather parts (.tuple (parts.map (·.expr))) := by
  simp only [flatten, yields_bind, yields_pure, existsAndEq, and_true]

/-- An aggregation keeps the joins of its argument. -/
theorem yields_flatten_aggregate {fn : Aggregate} {arg : Expr} :
    ((aggregate fn arg).flatten check env schema).Yields s part t ↔
      ∃ flatArg e, (arg.flatten check env schema).Yields s flatArg t ∧
        flattenAggregate (.aggregate fn arg) fn flatArg.expr = .ok e ∧
        part = { flatArg with expr := e } := by
  simp only [flatten, yields_bind, yields_ofExcept, yields_pure, existsAndEq, and_true]

/-- An aggregation of several arguments is not flattened. -/
theorem not_yields_flatten_multiAggregate {fn : MultiAggregate} {args : List Expr} :
    ¬((multiAggregate fn args).flatten check env schema).Yields s part t := by
  rw [flatten, yields_throw]
  exact id

/-- The branches of a choice are flattened before its default. -/
theorem yields_flatten_case {branches : List (Expr × Expr)} {default : Expr} :
    ((case branches default).flatten check env schema).Yields s part t ↔
      ∃ parts u, (flattenBranches check env schema branches).Yields s parts u ∧
        ∃ last e, (default.flatten check env schema).Yields u last t ∧
          flattenCase (.case branches default) (parts.map (·.1.expr)) (parts.map (·.2.expr))
            last.expr = .ok e ∧
          part = .gather (parts.flatMap (fun part => [part.1, part.2]) ++ [last]) e := by
  simp only [flatten, yields_bind, yields_ofExcept, yields_pure, existsAndEq, and_true]

theorem yields_flatten_scalarSubquery {query : Query} :
    ((scalarSubquery query).flatten check env schema).Yields s part t ↔
      ∃ flat, (query.flattenSubquery check (query.flatten check)).Yields s flat t ∧
        part = .plain (.scalarSubquery flat) := by
  simp only [flatten, yields_bind, yields_pure, existsAndEq, and_true]

theorem yields_flatten_setSubquery {query : Query} :
    ((setSubquery query).flatten check env schema).Yields s part t ↔
      ∃ flat, (query.flattenSubquery check (query.flatten check)).Yields s flat t ∧
        part = .plain (.setSubquery flat) := by
  simp only [flatten, yields_bind, yields_pure, existsAndEq, and_true]

theorem yields_flattenItems_nil {parts : List Flattened} :
    (flattenItems check env schema []).Yields s parts t ↔ parts = [] ∧ t = s := by
  rw [flattenItems, yields_pure]

theorem yields_flattenItems_cons {e : Expr} {es : List Expr} {parts : List Flattened} :
    (flattenItems check env schema (e :: es)).Yields s parts t ↔
      ∃ part u, (e.flatten check env schema).Yields s part u ∧
        ∃ rest, (flattenItems check env schema es).Yields u rest t ∧ parts = part :: rest := by
  simp only [flattenItems, yields_bind, yields_pure, existsAndEq, and_true]

theorem yields_flattenBranches_nil {parts : List (Flattened × Flattened)} :
    (flattenBranches check env schema []).Yields s parts t ↔ parts = [] ∧ t = s := by
  rw [flattenBranches, yields_pure]

/-- A condition has to be a scalar. -/
theorem yields_flattenBranches_cons {condition result : Expr} {bs : List (Expr × Expr)}
    {parts : List (Flattened × Flattened)} :
    (flattenBranches check env schema ((condition, result) :: bs)).Yields s parts t ↔
      ∃ first u, (condition.flatten check env schema).Yields s first u ∧
        first.expr.isTuple = false ∧
        ∃ second w, (result.flatten check env schema).Yields u second w ∧
          ∃ rest, (flattenBranches check env schema bs).Yields w rest t ∧
            parts = (first, second) :: rest := by
  simp only [flattenBranches, yields_bind, yields_pure, yields_ite, yields_throw, false_and,
    exists_false, and_false, false_or, Bool.not_eq_true, existsAndEq, and_true]

/-- A condition that is a tuple is an error of its own. -/
theorem fails_flattenBranches_cons {condition result : Expr} {bs : List (Expr × Expr)} {e : Error} :
    (flattenBranches check env schema ((condition, result) :: bs)).Fails s e t ↔
      (condition.flatten check env schema).Fails s e t ∨
        ∃ first u, (condition.flatten check env schema).Yields s first u ∧
          ((first.expr.isTuple = true ∧
            e = .invalidArgument (.structuredCondition first.expr.text) ∧ t = u) ∨
            (first.expr.isTuple = false ∧ ((result.flatten check env schema).Fails u e t ∨
              ∃ second w, (result.flatten check env schema).Yields u second w ∧
                (flattenBranches check env schema bs).Fails w e t))) := by
  simp only [flattenBranches, fails_bind, fails_pure, fails_ite, fails_throw, yields_throw,
    false_and, exists_false, and_false, or_false, Bool.not_eq_true]

/-- A choice fails where its branches or its default do, or where they do not fit together. -/
theorem fails_flatten_case {branches : List (Expr × Expr)} {default : Expr} {e : Error} :
    ((case branches default).flatten check env schema).Fails s e t ↔
      (flattenBranches check env schema branches).Fails s e t ∨
        ∃ parts u, (flattenBranches check env schema branches).Yields s parts u ∧
          ((default.flatten check env schema).Fails u e t ∨
            ∃ last, (default.flatten check env schema).Yields u last t ∧
              flattenCase (.case branches default) (parts.map (·.1.expr)) (parts.map (·.2.expr))
                last.expr = .error e) := by
  simp only [flatten, fails_bind, fails_ofExcept, fails_pure, and_false, exists_false, or_false,
    existsAndEq, and_true]

end Expr

namespace Query

variable {flat : Query}

/-- A subquery is flattened if none of its columns is bound to a tuple. -/
theorem yields_flattenSubquery {check : TypeCheck} {q : Query}
    {flatten : Pass (Query × Environment)} :
    (q.flattenSubquery check flatten).Yields s flat t ↔
      ∃ schema, q.schemaOf check = .ok schema ∧ ∃ env, flatten.Yields s (flat, env) t ∧
        (schema.columns.any fun c => (env.find? c.1).any Expr.isTuple) = false := by
  simp only [flattenSubquery, yields_bind, yields_ofExcept, yields_pure, yields_ite, yields_throw,
    false_and, exists_false, and_false, false_or, Bool.not_eq_true, Prod.exists,
    existsAndEq, and_true]

/-! ## Queries -/

theorem yields_flatten_empty :
    (empty.flatten check).Yields s (flat, env) t ↔ flat = .empty ∧ env = .empty ∧ t = s := by
  simp only [flatten, yields_pure, Prod.mk.injEq, and_assoc]

theorem yields_flatten_table {name : String} :
    ((table name schema).flatten check).Yields s (flat, env) t ↔
      flat = .table name schema ∧ env = .empty ∧ t = s := by
  simp only [flatten, yields_pure, Prod.mk.injEq, and_assoc]

/-- A projection flattens its input first, and then its columns over the environment of the input.
-/
theorem yields_flatten_project {columns : List (String × Expr)} {input : Query} :
    ((project columns input).flatten check).Yields s (flat, env) t ↔
      ∃ flatInput envInput u, (input.flatten check).Yields s (flatInput, envInput) u ∧
        ∃ schema, input.schemaOf check = .ok schema ∧
          ∃ outputs, (flattenColumns check envInput schema columns).Yields u outputs t ∧
            flat = ofOutputs outputs flatInput ∧
            env = OutputColumn.withAliases columns envInput (OutputColumn.bindings outputs) := by
  simp only [flatten, yields_bind, yields_ofExcept, yields_pure, Prod.mk.injEq, Prod.exists,
    existsAndEq, and_true]

/-- A restriction keeps the environment of its input. -/
theorem yields_flatten_restrict {predicate : Expr} {input : Query} :
    ((restrict predicate input).flatten check).Yields s (flat, env) t ↔
      ∃ flatInput u schema part, (input.flatten check).Yields s (flatInput, env) u ∧
        input.schemaOf check = .ok schema ∧ (predicate.flatten check env schema).Yields u part t ∧
        flattenRestriction check predicate part flatInput = .ok flat := by
  simp only [flatten, yields_bind, yields_ofExcept, yields_pure, Prod.mk.injEq, Prod.exists,
    existsAndEq, and_true]

/-- A grouping binds nothing. -/
theorem yields_flatten_grouping {columns : List (String × Expr)} {input : Query} :
    ((grouping columns input).flatten check).Yields s (flat, env) t ↔
      ∃ flatInput envInput u, (input.flatten check).Yields s (flatInput, envInput) u ∧
        ∃ schema, input.schemaOf check = .ok schema ∧
          ∃ flats, (flattenGroups check envInput schema columns).Yields u flats t ∧
            flat = .grouping flats flatInput ∧ env = .empty := by
  simp only [flatten, yields_bind, yields_ofExcept, yields_pure, Prod.mk.injEq, Prod.exists,
    existsAndEq, and_true]

/-- An ordering keeps the environment of its input. -/
theorem yields_flatten_order {keys : List (Expr × Direction)} {input : Query} :
    ((order keys input).flatten check).Yields s (flat, env) t ↔
      ∃ flatInput u schema flats, (input.flatten check).Yields s (flatInput, env) u ∧
        input.schemaOf check = .ok schema ∧ (flattenKeys check env schema keys).Yields u flats t ∧
        flat = .order flats flatInput := by
  simp only [flatten, yields_bind, yields_ofExcept, yields_pure, Prod.mk.injEq, Prod.exists,
    existsAndEq, and_true]

theorem yields_flatten_top {offset count : UInt64} {input : Query} :
    ((top offset count input).flatten check).Yields s (flat, env) t ↔
      ∃ flatInput, (input.flatten check).Yields s (flatInput, env) t ∧
        flat = .top offset count flatInput := by
  simp only [flatten, yields_bind, yields_pure, Prod.mk.injEq, Prod.exists, existsAndEq, and_true]

/-- A combination flattens the left operand first. Where nothing is bound, the flat operands are
combined as they are. -/
theorem yields_flatten_combine {op : CombineOp} {left right : Query} :
    ((combine op left right).flatten check).Yields s (flat, env) t ↔
      ∃ flatLeft leftEnv u, (left.flatten check).Yields s (flatLeft, leftEnv) u ∧
        ∃ flatRight rightEnv, (right.flatten check).Yields u (flatRight, rightEnv) t ∧
          (((leftEnv.isEmpty = true ∧ rightEnv.isEmpty = true) ∧
              flat = .combine op flatLeft flatRight ∧ env = .empty) ∨
            (¬(leftEnv.isEmpty = true ∧ rightEnv.isEmpty = true) ∧ ∃ leftSchema rightSchema,
              left.schemaOf check = .ok leftSchema ∧ right.schemaOf check = .ok rightSchema ∧
              flattenCombination op flatLeft flatRight leftEnv rightEnv leftSchema rightSchema =
                .ok (flat, env))) := by
  simp only [flatten, yields_bind, yields_ofExcept, yields_pure, yields_ite, Prod.mk.injEq,
    Prod.exists, Bool.and_eq_true]
  constructor
  · rintro ⟨flatLeft, leftEnv, u, runLeft, flatRight, rightEnv, _, runRight,
      ⟨plain, equal, rfl⟩ | ⟨structured, leftSchema, _, ⟨inferLeft, rfl⟩, rightSchema, _,
        ⟨inferRight, rfl⟩, combined, rfl⟩⟩
    · exact ⟨flatLeft, leftEnv, u, runLeft, flatRight, rightEnv, runRight, .inl ⟨plain, equal⟩⟩
    · exact ⟨flatLeft, leftEnv, u, runLeft, flatRight, rightEnv, runRight,
        .inr ⟨structured, leftSchema, rightSchema, inferLeft, inferRight, combined⟩⟩
  · rintro ⟨flatLeft, leftEnv, u, runLeft, flatRight, rightEnv, runRight,
      ⟨plain, equal⟩ | ⟨structured, leftSchema, rightSchema, inferLeft, inferRight, combined⟩⟩
    · exact ⟨flatLeft, leftEnv, u, runLeft, flatRight, rightEnv, t, runRight,
        .inl ⟨plain, equal, rfl⟩⟩
    · exact ⟨flatLeft, leftEnv, u, runLeft, flatRight, rightEnv, t, runRight,
        .inr ⟨structured, leftSchema, t, ⟨inferLeft, rfl⟩, rightSchema, t, ⟨inferRight, rfl⟩,
          combined, rfl⟩⟩

theorem yields_flattenColumns_nil {outputs : List OutputColumn} :
    (flattenColumns check env schema []).Yields s outputs t ↔ outputs = [] ∧ t = s := by
  rw [flattenColumns, yields_pure]

/-- A column is flattened and spread before the next one. -/
theorem yields_flattenColumns_cons {name : String} {e : Expr} {columns : List (String × Expr)}
    {outputs : List OutputColumn} :
    (flattenColumns check env schema ((name, e) :: columns)).Yields s outputs t ↔
      ∃ part u, (e.flatten check env schema).Yields s part u ∧
        ∃ output w, (OutputColumn.ofFlattened name part).Yields u output w ∧
          ∃ rest, (flattenColumns check env schema columns).Yields w rest t ∧
            outputs = output :: rest := by
  simp only [flattenColumns, yields_bind, yields_pure, existsAndEq, and_true]

theorem yields_flattenGroups_nil {flats : List (String × Expr)} :
    (flattenGroups check env schema []).Yields s flats t ↔ flats = [] ∧ t = s := by
  rw [flattenGroups, yields_pure]

/-- The column of a grouping has to be a scalar that needs no joins. -/
theorem yields_flattenGroups_cons {name : String} {e : Expr}
    {columns flats : List (String × Expr)} :
    (flattenGroups check env schema ((name, e) :: columns)).Yields s flats t ↔
      ∃ part u, (e.flatten check env schema).Yields s part u ∧
        (part.expr.isTuple = false ∧ part.isSelfContained = true) ∧
        ∃ rest, (flattenGroups check env schema columns).Yields u rest t ∧
          flats = (name, part.expr) :: rest := by
  simp only [flattenGroups, yields_bind, yields_pure, yields_ite, yields_throw, false_and,
    exists_false, and_false, false_or, Bool.or_eq_true, not_or, Bool.not_eq_true, Bool.not_eq_false,
    existsAndEq, and_true, Bool.not_eq_eq_eq_not, Bool.not_true]

theorem yields_flattenKeys_nil {flats : List (Expr × Direction)} :
    (flattenKeys check env schema []).Yields s flats t ↔ flats = [] ∧ t = s := by
  rw [flattenKeys, yields_pure]

/-- An ordering key has to need no joins; a structured one is ordered by its leaves. -/
theorem yields_flattenKeys_cons {e : Expr} {direction : Direction}
    {keys flats : List (Expr × Direction)} :
    (flattenKeys check env schema ((e, direction) :: keys)).Yields s flats t ↔
      ∃ part u, (e.flatten check env schema).Yields s part u ∧ part.isSelfContained = true ∧
        ∃ rest, (flattenKeys check env schema keys).Yields u rest t ∧
          flats = part.expr.leaves.map (·, direction) ++ rest := by
  simp only [flattenKeys, yields_bind, yields_pure, yields_ite, yields_throw, false_and,
    exists_false, and_false, false_or, Bool.not_eq_false, existsAndEq, and_true,
    Bool.not_eq_eq_eq_not, Bool.not_true]

/-! ## Projections as they are built -/

/-- No name is found to be repeated exactly if all differ, among each other and from those seen
before. -/
theorem repeated?_eq_none {seen names : List String} :
    repeated? seen names = none ↔ names.Nodup ∧ ∀ name ∈ names, name ∉ seen := by
  induction names generalizing seen with
  | nil => simp [repeated?]
  | cons name names ih =>
    rw [repeated?, List.nodup_cons, List.forall_mem_cons]
    split
    case isTrue member => simp [member]
    case isFalse absent =>
      rw [ih]
      constructor
      · rintro ⟨distinct, apart⟩
        refine ⟨⟨fun again => apart name again List.mem_cons_self, distinct⟩, absent, ?_⟩
        exact fun other among later => apart other among (List.mem_cons_of_mem _ later)
      · rintro ⟨⟨once, distinct⟩, _, apart⟩
        refine ⟨distinct, fun other among later => ?_⟩
        rcases List.mem_cons.1 later with rfl | later
        · exact once among
        · exact apart other among later

/-- Columns pass the check exactly if their names differ. -/
theorem checkUnique_eq_ok {columns : List (String × Expr)} :
    checkUnique columns = .ok () ↔ (columns.map Prod.fst).Nodup := by
  unfold checkUnique
  have unique := @repeated?_eq_none [] (columns.map Prod.fst)
  simp only [List.not_mem_nil, not_false_eq_true, implies_true, and_true] at unique
  rw [← unique]
  cases repeated? [] (columns.map Prod.fst) <;> simp

/-- A projection is built only if its columns have different names. One without columns looks below
other projections. -/
theorem projection_eq_ok {columns : List (String × Expr)} {input q : Query} :
    projection columns input = .ok q ↔ (columns.map Prod.fst).Nodup ∧
      q = .project columns (if columns.isEmpty then input.skipProjections else input) := by
  simp only [projection, bind_eq_ok, pure_eq_ok, Unique.exists_iff, PUnit.default_eq_unit,
    checkUnique_eq_ok]

/-! ## Fresh columns -/

/-- Columns under new names. -/
def renamings (names : List String) (columns : List Column) : List (String × Expr) :=
  List.zipWith (fun new c => (new, Expr.attr c.1)) names columns

/-- A renamed column is a reference to a column. -/
theorem exists_of_mem_renamings {names : List String} {columns : List Column} {c : String × Expr}
    (h : c ∈ renamings names columns) : ∃ d ∈ columns, c.2 = .attr d.1 := by
  induction columns generalizing names with
  | nil => simp [renamings] at h
  | cons d columns ih =>
    cases names with
    | nil => simp [renamings] at h
    | cons name names =>
      rcases List.mem_cons.1 h with rfl | later
      · exact ⟨d, List.mem_cons_self, rfl⟩
      · obtain ⟨other, among, equal⟩ := ih later
        exact ⟨other, List.mem_cons_of_mem _ among, equal⟩

/-- The columns of a renaming have the new names. -/
theorem names_renamings {names : List String} {columns : List Column}
    (length : names.length = columns.length) :
    (renamings names columns).map Prod.fst = names := by
  calc (renamings names columns).map Prod.fst
    _ = (names.zip columns).map Prod.fst := by
      rw [renamings, List.map_zipWith, List.map_zip_eq_zipWith]
      rfl
    _ = names := List.map_fst_zip (Nat.le_of_eq length)

/-- Each column is given the next name, in order. -/
theorem yields_freshColumns {columns : List Column} {r : List (String × Expr) × List Expr} :
    (freshColumns columns).Yields s r t ↔
      r = (renamings (s.block columns.length) columns, (s.block columns.length).map .attr) ∧
        t = s.after columns.length := by
  induction columns generalizing s t r with
  | nil => rw [freshColumns, yields_pure]; rfl
  | cons c columns ih =>
    obtain ⟨name, type⟩ := c
    simp only [freshColumns, yields_bind, yields_fresh, yields_pure, ih, List.length_cons,
      PassState.block_succ]
    constructor
    · rintro ⟨_, _, ⟨rfl, rfl⟩, _, _, ⟨rfl, rfl⟩, rfl, rfl⟩
      exact ⟨rfl, by rw [PassState.after_after, Nat.add_comm]⟩
    · rintro ⟨rfl, rfl⟩
      exact ⟨_, _, ⟨rfl, rfl⟩, _, _, ⟨rfl, rfl⟩, rfl, by rw [PassState.after_after, Nat.add_comm]⟩

/-- The columns of a renamed query have the next names, in order. -/
theorem yields_rename {check : TypeCheck} {q : Query} {r : Query × List Expr} :
    (q.rename check).Yields s r t ↔ ∃ schema renamed, q.schemaOf check = .ok schema ∧
      projection (renamings (s.block schema.columns.length) schema.columns) q = .ok renamed ∧
      r = (renamed, (s.block schema.columns.length).map .attr) ∧
        t = s.after schema.columns.length := by
  simp only [rename, yields_bind, yields_ofExcept, yields_freshColumns, yields_pure]
  constructor
  · rintro ⟨schema, _, ⟨infer, rfl⟩, _, _, ⟨rfl, rfl⟩, renamed, _, ⟨project, rfl⟩, rfl, rfl⟩
    exact ⟨schema, renamed, infer, project, rfl, rfl⟩
  · rintro ⟨schema, renamed, infer, project, rfl, rfl⟩
    exact ⟨schema, _, ⟨infer, rfl⟩, _, _, ⟨rfl, rfl⟩, renamed, _, ⟨project, rfl⟩, rfl, rfl⟩

/-- A query is flattened, put under fresh names and reported. This is how galaxies are expanded and
what operators look up is joined. -/
theorem yields_renamed {β : Type} {b : β} (check : Regime) (q : Query) (event : Nat → Event)
    (answer : Query → List Expr → β) :
    (q.flatten check >>= fun flat => flat.1.rename check.toTypeCheck >>= fun renamed =>
      Pass.report (event renamed.2.length) >>= fun _ =>
        pure (answer renamed.1 renamed.2)).Yields s b t ↔
      ∃ underlying env u schema renamed, (q.flatten check).Yields s (underlying, env) u ∧
        underlying.schemaOf check = .ok schema ∧
        projection (renamings (u.block schema.columns.length) schema.columns) underlying =
          .ok renamed ∧
        b = answer renamed ((u.block schema.columns.length).map .attr) ∧
        t = { u.after schema.columns.length with
          events := u.events ++ [event schema.columns.length] } := by
  simp only [yields_bind, yields_rename, yields_report, yields_pure]
  constructor
  · rintro ⟨⟨underlying, env⟩, u, run, _, _, ⟨schema, renamed, infer, project, rfl, rfl⟩, _, _,
      rfl, rfl, rfl⟩
    refine ⟨underlying, env, u, schema, renamed, run, infer, project, rfl, ?_⟩
    simp [PassState.after]
  · rintro ⟨underlying, env, u, schema, renamed, run, infer, project, rfl, rfl⟩
    refine ⟨(underlying, env), u, run, _, _, ⟨schema, renamed, infer, project, rfl, rfl⟩, (), _,
      rfl, rfl, ?_⟩
    simp [PassState.after]

/-- A galaxy is the query behind it under fresh names, and its attribute the tuple of these
names. -/
theorem yields_flatten_galaxy {g : Galaxy} {r : Query × Environment} :
    ((Query.galaxy g).flatten check).Yields s r t ↔
      ∃ underlying env u schema renamed, (g.query.flatten check).Yields s (underlying, env) u ∧
        underlying.schemaOf check = .ok schema ∧
        projection (renamings (u.block schema.columns.length) schema.columns) underlying =
          .ok renamed ∧
        r = (renamed, NameMap.empty.insert g.name
          (.tuple ((u.block schema.columns.length).map .attr))) ∧
        t = { u.after schema.columns.length with
          events := u.events ++ [.galaxyExpanded g.name schema.columns.length] } := by
  obtain ⟨name, type, setup, query⟩ := g
  rw [flatten]
  have renamed := yields_renamed (b := r) (s := s) (t := t) check query (.galaxyExpanded name)
    fun renamed refs => (renamed, NameMap.empty.insert name (.tuple refs))
  exact renamed

/-- What an operator looks up is joined as the flat form of its query under fresh names. -/
theorem yields_joinSource {op : Operator} {source : Query} {joined : Option (Query × List Expr)}
    (lookup : op.lookupSource? = some source) :
    (op.joinSource check).Yields s joined t ↔
      ∃ underlying env u schema renamed, (source.flatten check).Yields s (underlying, env) u ∧
        underlying.schemaOf check = .ok schema ∧
        projection (renamings (u.block schema.columns.length) schema.columns) underlying =
          .ok renamed ∧
        joined = some (renamed, (u.block schema.columns.length).map .attr) ∧
        t = { u.after schema.columns.length with
          events := u.events ++ [.lookupJoined op.name schema.columns.length] } := by
  obtain ⟨name, range, render, flattening⟩ := op
  cases flattening with
  | lookup own condition result =>
    cases lookup
    exact yields_renamed check source (.lookupJoined name) fun renamed refs => some (renamed, refs)
  | _ => cases lookup

end Query

namespace Expr

/-- A scalar is given one name. -/
theorem spread_of_noTuple {e : Expr} (h : e.isTuple = false) :
    e.spread = Pass.fresh >>= fun name => pure (Expr.attr name, [(name, e)]) := by
  cases e with
  | tuple items => cases h
  | _ => simp only [spread]

/-- Values that are no tuples are spread over the next names, one each. -/
theorem yields_spreadItems {es : List Expr} (noTuple : ∀ e ∈ es, e.isTuple = false)
    {r : List Expr × List (String × Expr)} :
    (spreadItems es).Yields s r t ↔
      r = ((s.block es.length).map .attr, (s.block es.length).zip es) ∧ t = s.after es.length := by
  induction es generalizing s t r with
  | nil => rw [spreadItems, yields_pure]; rfl
  | cons e es ih =>
    rw [List.forall_mem_cons] at noTuple
    simp only [spreadItems, spread_of_noTuple noTuple.1, yields_bind, yields_fresh, yields_pure,
      ih noTuple.2, List.length_cons, PassState.block_succ]
    constructor
    · rintro ⟨_, _, ⟨_, _, ⟨rfl, rfl⟩, rfl, rfl⟩, _, _, ⟨rfl, rfl⟩, rfl, rfl⟩
      exact ⟨rfl, by rw [PassState.after_after, Nat.add_comm]⟩
    · rintro ⟨rfl, rfl⟩
      exact ⟨_, _, ⟨_, _, ⟨rfl, rfl⟩, rfl, rfl⟩, _, _, ⟨rfl, rfl⟩, rfl,
        by rw [PassState.after_after, Nat.add_comm]⟩

end Expr

end FlatPlan
