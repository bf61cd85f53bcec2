import FlatPlan.Proofs.FlatExpression

/-!
# Projections of flat queries

The flat form of a galaxy renames the columns of the query behind it, and that of a projection
computes one flat column for each leaf of its columns. Main statements: both have the expanded
schema (`FlatProjection.galaxy`, `FlatProjection.project`), and a grouping, whose columns stay
scalars, keeps its own (`FlatProjection.grouping`).
-/

namespace FlatPlan

open Pass

variable {v : Vocabulary} {check : TypeCheck} {s t : PassState}

namespace Query

/-! ## Schemas of projections -/

theorem exists_schemaOf_skipProjections {schema : Schema} :
    ∀ q : Query, q.schemaOf check = .ok schema →
    ∃ inner, q.skipProjections.schemaOf check = .ok inner
  | .project columns input, h => by
    obtain ⟨inner, infer, _⟩ := schemaOf_project.1 h
    exact exists_schemaOf_skipProjections input infer
  | .empty, h | .table _ _, h | .galaxy _, h | .restrict _ _, h | .combine _ _ _, h
  | .grouping _ _, h | .order _ _, h | .top _ _ _, h => ⟨_, h⟩

theorem everywhere_skipProjections {p : NodeProperty} : ∀ q : Query, q.Everywhere p →
    q.skipProjections.Everywhere p
  | .project columns input, h => by
    rw [everywhere_project] at h
    exact everywhere_skipProjections input h.2.2
  | .empty, h | .table _ _, h | .galaxy _, h | .restrict _ _, h | .combine _ _ _, h
  | .grouping _ _, h | .order _ _, h | .top _ _ _, h => h

/-- A projection to no columns has none, whatever it stands on. -/
theorem schemaOf_projection {columns : List (String × Expr)} {input q : Query} {inner : Schema}
    {outputs : List Column} (h : projection columns input = .ok q)
    (infer : input.schemaOf check = .ok inner)
    (typed : columnsOf check inner false columns = .ok outputs) :
    q.schemaOf check = .ok ⟨outputs⟩ := by
  obtain ⟨_, rfl⟩ := projection_eq_ok.1 h
  rw [schemaOf_project]
  cases columns with
  | nil =>
    obtain ⟨below, inferBelow⟩ := exists_schemaOf_skipProjections input infer
    cases typed
    exact ⟨below, inferBelow, rfl⟩
  | cons column columns => exact ⟨inner, infer, typed⟩

/-- The constructor makes one node, with different names, and never a projection to no columns on a
projection. -/
theorem everywhere_of_projection {p : NodeProperty} {columns : List (String × Expr)}
    {input q : Query}
    (node : ∀ below, (columns.map Prod.fst).Nodup →
      (columns = [] → ∀ inner source, below ≠ .project inner source) →
      p.query (.project columns below))
    (h : projection columns input = .ok q) (nodes : input.Everywhere p)
    (nodesColumns : ∀ c ∈ columns, c.2.Everywhere p) : q.Everywhere p := by
  obtain ⟨distinct, rfl⟩ := projection_eq_ok.1 h
  rw [everywhere_project]
  cases columns with
  | nil =>
    exact ⟨node _ distinct fun _ => input.skipProjections_ne_project, nodesColumns,
      everywhere_skipProjections input nodes⟩
  | cons c columns =>
    exact ⟨node _ distinct fun none => absurd none (List.cons_ne_nil c columns),
      nodesColumns, nodes⟩

theorem everywhere_projection {p : NodeProperty}
    (node : ∀ columns input, p.query (.project columns input)) {columns : List (String × Expr)}
    {input q : Query} (h : projection columns input = .ok q)
    (nodes : input.Everywhere p) (nodesColumns : ∀ c ∈ columns, c.2.Everywhere p) :
    q.Everywhere p :=
  everywhere_of_projection (fun _ _ _ => node _ _) h nodes nodesColumns

/-- A column that only refers to another one. -/
structure RefersTo (inner : Schema) (c : String × Expr) (output : Column) : Prop where
  name : output.1 = c.1
  source : ∃ source, c.2 = .attr source ∧ inner.get? source = some output.2
  noProduct : output.2.isProduct = false

theorem columnsOf_refs {inner : Schema} {grouping : Bool} {columns : List (String × Expr)}
    {outputs : List Column} (h : List.Forall₂ (RefersTo inner) columns outputs) :
    columnsOf v.checked inner grouping columns = .ok outputs := by
  rw [columnsOf_eq_ok]
  refine h.imp fun c output refers => ?_
  obtain ⟨source, equal, found⟩ := refers.source
  refine ⟨refers.name, ?_, ?_, ?_⟩
  · rw [equal, Expr.hasAggregate, Expr.aggregateCount]
    simp
  · rw [equal, Expr.typeOf_attr]
    exact found
  · rw [Session.require_checked, refers.noProduct]
    rfl

theorem everywhere_refs {inner : Schema} {columns : List (String × Expr)} {outputs : List Column}
    (h : List.Forall₂ (RefersTo inner) columns outputs) :
    ∀ c ∈ columns, c.2.Everywhere v.flatPlan := by
  intro c member
  obtain ⟨output, _, refers⟩ := exists_of_mem_right h.flip member
  obtain ⟨source, equal, _⟩ := refers.source
  rw [equal, Expr.everywhere_attr]
  exact ⟨trivial, trivial⟩

/-- New names for columns of different names, as columns over the old schema. -/
theorem refersTo_renamings {schema : Schema} (distinct : schema.names.Nodup)
    (noProduct : ∀ c ∈ schema.columns, c.2.isProduct = false) {names : List String}
    (length : names.length = schema.columns.length) :
    List.Forall₂ (RefersTo schema) (renamings names schema.columns)
      (names.zip (schema.columns.map Prod.snd)) := by
  have found : ∀ c ∈ schema.columns, schema.get? c.1 = some c.2 :=
    fun c => Schema.get?_of_mem distinct
  unfold renamings
  generalize schema.columns = columns at noProduct length found
  induction columns generalizing names with
  | nil =>
    rw [List.length_eq_zero_iff.1 length]
    exact .nil
  | cons c columns ih =>
    rw [List.forall_mem_cons] at noProduct found
    cases names with
    | nil => cases length
    | cons name names =>
      exact .cons ⟨rfl, ⟨c.1, rfl, found.1⟩, noProduct.1⟩
        (ih noProduct.2 (Nat.succ.inj length) found.2)

end Query

/-! ## Galaxies -/

namespace FlatProjection

theorem galaxy {g : Galaxy} (ih : g.query.FlattensWell v) : (Query.galaxy g).FlattensWell v := by
  intro schema env s t flat plan infer flattens
  rw [Query.everywhere_galaxy] at plan
  obtain ⟨⟨⟨_, named, l, expands⟩, _⟩, planQuery⟩ := plan
  obtain ⟨underlying, env', u, flatSchema, renamed, run, inferFlat, project, equal, rfl⟩ :=
    Query.yields_flatten_galaxy.1 flattens.run
  cases equal
  obtain ⟨querySchema, accepted⟩ := expands.accepted
  have form := ih planQuery accepted ⟨flattens.stem, run⟩
  cases form.permissive.symm.trans inferFlat
  have types := expands.types ⟨flattens.stem, run⟩ form.typed
  have noProduct : ∀ c ∈ (env'.expand querySchema).columns, c.2.isProduct = false := by
    intro c member
    have own : c.2 ∈ l.columns.map Prod.snd := types ▸ List.mem_map_of_mem member
    obtain ⟨d, among, same⟩ := List.mem_map.1 own
    exact same ▸ (v.layout_columns named expands.layout d among).2.2
  have width : (env'.expand querySchema).columns.length = l.columns.length := by
    simpa only [List.length_map] using congrArg List.length types
  generalize flatColumns : (env'.expand querySchema).columns = columns
    at types noProduct width project
  have length := PassState.length_block u columns.length
  have refers :=
    Query.refersTo_renamings form.distinct (flatColumns ▸ noProduct) (flatColumns ▸ length)
  rw [flatColumns, types] at refers
  have leads := (g.query.flatten_advances v.permissive).leads run
  have column : (Query.galaxy g).schemaOf v.checked = .ok ⟨[(g.name, g.type)]⟩ :=
    Query.schemaOf_galaxy.2 rfl
  cases column.symm.trans infer
  refine .single expands.layout (length.trans width) (u.nodup_block _) (fun name member => ?_) ?_ ?_
  · exact (PassState.draws_of_mem_block member).mono leads ⟨rfl, Nat.le_refl _⟩
  · exact Query.schemaOf_projection project form.typed (Query.columnsOf_refs refers)
  · exact Query.everywhere_projection (p := v.flatPlan) (fun _ _ => ⟨trivial, trivial⟩)
      project form.nodes (Query.everywhere_refs refers)

end FlatProjection

/-! ## Output columns -/

/-- The types of the flat columns of a column. -/
def Ty.flatTypes (type : Ty) : List Ty :=
  match type.layout? with
  | some l => l.columns.map Prod.snd
  | none => [type]

theorem Ty.flatTypes_noProduct {type : Ty} (named : v.Names type)
    (noProduct : type.isProduct = false) : ∀ t ∈ type.flatTypes, t.isProduct = false := by
  unfold Ty.flatTypes
  cases layout : type.layout? with
  | none =>
    intro t member
    rw [List.mem_singleton.1 member]
    exact noProduct
  | some l =>
    intro t member
    obtain ⟨c, among, rfl⟩ := List.mem_map.1 member
    exact (v.layout_columns named layout c among).2.2

/-- An output column of a projection: it is itself a flat column, or carried by drawn columns. -/
structure OutputColumn.Stands (v : Vocabulary) (rows : Schema) (s t : PassState) (o : OutputColumn)
    (d : Column) : Prop where
  name : o.name = d.1
  queries : o.queries = []
  restrictions : o.restrictions = []
  leaves : List.Forall₂ (Leaf v rows True) (o.columns.map Prod.snd) d.2.flatTypes
  carried : (d.2.layout? = none ∧ o.refs = none ∧ o.columns.map Prod.fst = [d.1]) ∨
    ((∃ l, d.2.layout? = some l) ∧ o.refs = some (.tuple ((o.columns.map Prod.fst).map .attr)) ∧
      (o.columns.map Prod.fst).Nodup ∧ ∀ name ∈ o.columns.map Prod.fst, s.Draws t name)

namespace OutputColumn

variable {rows : Schema}

theorem Stands.mono {u w : PassState} {o : OutputColumn} {d : Column} (h : o.Stands v rows t u d)
    (before : s.Leads t) (behind : u.Leads w) : o.Stands v rows s w d := by
  refine ⟨h.name, h.queries, h.restrictions, h.leaves, h.carried.imp_right ?_⟩
  rintro ⟨layout, refs, distinct, drawn⟩
  exact ⟨layout, refs, distinct, fun name member => (drawn name member).mono before behind⟩

/-- A flat column carries its column under its own name or under a drawn one. -/
theorem Stands.name_or_drawn {o : OutputColumn} {d : Column} (h : o.Stands v rows s t d)
    {name : String} (member : name ∈ o.columns.map Prod.fst) : name = d.1 ∨ s.Draws t name := by
  rcases h.carried with ⟨_, _, names⟩ | ⟨_, _, _, drawn⟩
  · rw [names] at member
    exact .inl (List.mem_singleton.1 member)
  · exact .inr (drawn name member)

theorem name_or_drawn {outputs : List OutputColumn} {ds : List Column}
    (h : List.Forall₂ (OutputColumn.Stands v rows s t) outputs ds) {name : String}
    (member : name ∈ (outputs.flatMap (·.columns)).map Prod.fst) :
    name ∈ ds.map Prod.fst ∨ s.Draws t name := by
  obtain ⟨column, part, rfl⟩ := List.mem_map.1 member
  obtain ⟨o, among, part⟩ := List.mem_flatMap.1 part
  obtain ⟨d, output, stands⟩ := exists_of_mem_right h.flip among
  rcases stands.name_or_drawn (List.mem_map_of_mem part) with equal | drawn
  · exact .inl (equal ▸ List.mem_map_of_mem output)
  · exact .inr drawn

theorem Stands.nodup {o : OutputColumn} {d : Column} (h : o.Stands v rows s t d) :
    (o.columns.map Prod.fst).Nodup := by
  rcases h.carried with ⟨_, _, names⟩ | ⟨_, _, distinct, _⟩
  · simp [names]
  · exact distinct

/-- An environment that binds an output column as it says carries the column. -/
theorem Stands.carries {o : OutputColumn} {d : Column} {env : Environment}
    (h : o.Stands v rows s t d) (bound : env.find? d.1 = o.refs) :
    env.Carries d ∧ env.expandColumn d = (o.columns.map Prod.fst).zip d.2.flatTypes := by
  have length := h.leaves.length_eq
  rcases h.carried with ⟨unstructured, refs, names⟩ | ⟨⟨l, layout⟩, refs, _, _⟩
  · rw [Environment.carries_unstructured unstructured,
      Environment.expandColumn_unstructured unstructured, names, Ty.flatTypes, unstructured]
    exact ⟨bound.trans refs, rfl⟩
  · rw [refs] at bound
    rw [Environment.carries_structured layout, Environment.expandColumn_structured layout bound]
    rw [Ty.flatTypes, layout] at length ⊢
    simp only [List.length_map] at length
    exact ⟨⟨_, bound, by rw [List.length_map, length]⟩, rfl⟩

theorem Stands.drawn {o : OutputColumn} {d d' : Column} {env : Environment}
    (h : o.Stands v rows s t d) (bound : env.find? d.1 = o.refs) (part : d' ∈ env.expandColumn d) :
    d' = d ∨ s.Draws t d'.1 := by
  rcases h.carried with ⟨unstructured, _, _⟩ | ⟨_, _, _, drawn⟩
  · rw [Environment.expandColumn_unstructured unstructured] at part
    exact .inl (List.mem_singleton.1 part)
  · rw [(h.carries bound).2] at part
    exact .inr (drawn _ (List.of_mem_zip part).1)

/-- Leaves under different names are columns of a projection. -/
theorem columnOf_of_leaves {columns : List (String × Expr)} {types : List Ty}
    (leaves : List.Forall₂ (Leaf v rows True) (columns.map Prod.snd) types)
    (noProduct : ∀ type ∈ types, type.isProduct = false) :
    List.Forall₂ (Query.ColumnOf v.checked rows false) columns
      ((columns.map Prod.fst).zip types) := by
  induction columns generalizing types with
  | nil => exact .nil
  | cons c columns ih =>
    cases leaves with
    | cons leaf rest =>
      rw [List.forall_mem_cons] at noProduct
      refine .cons ⟨rfl, ?_, leaf.typed, ?_⟩ (ih rest noProduct.2)
      · rw [Expr.hasAggregate, leaf.count trivial]
        rfl
      · rw [Session.require_checked, noProduct.1]
        rfl

/-- The output column of a flat value: a structured one is spread over the next names. -/
theorem ofFlattened_cases {part : Flattened} {name : String} {type : Ty} {o : OutputColumn}
    (stands : part.Stands v rows True type) (named : v.Names type)
    (noProduct : type.isProduct = false)
    (run : (OutputColumn.ofFlattened name part).Yields s o t) :
    (type.layout? = none ∧ Leaf v rows True part.expr type ∧
      o = ⟨name, [(name, part.expr)], none, [], []⟩) ∨
      ∃ items l, part.expr = .tuple items ∧ type.layout? = some l ∧
        List.Forall₂ (Leaf v rows True) items (l.columns.map Prod.snd) ∧ t = s.after items.length ∧
        o =
          ⟨name, (s.block items.length).zip items, some (.tuple ((s.block items.length).map .attr)),
            [], []⟩ := by
  obtain ⟨e, queries, restrictions⟩ := part
  obtain ⟨rfl, rfl, represents⟩ := stands
  rcases represents.leaf_or_leaves named noProduct with
    ⟨unstructured, leaf⟩ | ⟨items, l, rfl, layout, leaves⟩
  · have noTuple : e.isTuple = false := leaf.noTuple
    simp only [OutputColumn.ofFlattened, noTuple, Bool.false_eq_true, if_false, yields_pure] at run
    exact .inl ⟨unstructured, leaf, run.1⟩
  · have isTuple : (Expr.tuple items).isTuple = true := rfl
    simp only [OutputColumn.ofFlattened, isTuple, if_true, Expr.spread, yields_bind, yields_pure,
      Expr.yields_spreadItems (Leaf.noTuples leaves)] at run
    obtain ⟨_, _, ⟨_, _, ⟨rfl, rfl⟩, rfl, rfl⟩, rfl, rfl⟩ := run
    exact .inr ⟨items, l, rfl, layout, leaves, rfl, rfl⟩

theorem Stands.ofFlattened {part : Flattened} {name : String} {type : Ty} {o : OutputColumn}
    (stands : part.Stands v rows True type) (named : v.Names type)
    (noProduct : type.isProduct = false)
    (run : (OutputColumn.ofFlattened name part).Yields s o t) :
    o.Stands v rows s t (name, type) := by
  rcases ofFlattened_cases stands named noProduct run with
    ⟨unstructured, leaf, rfl⟩ | ⟨items, l, _, layout, leaves, rfl, rfl⟩
  · refine ⟨rfl, rfl, rfl, ?_, .inl ⟨unstructured, rfl, rfl⟩⟩
    rw [Ty.flatTypes, unstructured]
    exact .cons leaf .nil
  · have length := s.length_block items.length
    have names : ((s.block items.length).zip items).map Prod.fst = s.block items.length :=
      List.map_fst_zip (Nat.le_of_eq length)
    have exprs : ((s.block items.length).zip items).map Prod.snd = items :=
      List.map_snd_zip (Nat.le_of_eq length.symm)
    refine ⟨rfl, rfl, rfl, ?_, .inr ⟨⟨l, layout⟩, ?_, ?_, ?_⟩⟩
    · rw [exprs, Ty.flatTypes, layout]
      exact leaves
    · rw [names]
    · rw [names]
      exact s.nodup_block _
    · rw [names]
      exact fun name member => PassState.draws_of_mem_block member

theorem sublist_names (outputs : List OutputColumn) :
    ((outputs.filterMap fun o => o.refs.map fun refs => (o.name, refs)).map Prod.fst).Sublist
      (outputs.map (·.name)) := by
  induction outputs with
  | nil => exact .slnil
  | cons o outputs ih =>
    rw [List.filterMap_cons, List.map_cons]
    cases o.refs with
    | none => exact ih.cons _
    | some refs => exact ih.cons_cons _

/-- Of different output columns each has its own binding. -/
theorem find?_bindings {outputs : List OutputColumn} (distinct : (outputs.map (·.name)).Nodup)
    {o : OutputColumn} (member : o ∈ outputs) : (bindings outputs).find? o.name = o.refs := by
  let entries := outputs.filterMap fun o => o.refs.map fun refs => (o.name, refs)
  have mem_entries : ∀ {name : String} {refs : Expr},
      (name, refs) ∈ entries ↔ ∃ o ∈ outputs, o.name = name ∧ o.refs = some refs := by
    intro name refs
    simp only [entries, List.mem_filterMap, Option.map_eq_some_iff, Prod.mk.injEq]
    constructor
    · rintro ⟨o, among, _, bound, rfl, rfl⟩
      exact ⟨o, among, rfl, bound⟩
    · rintro ⟨o, among, rfl, bound⟩
      exact ⟨o, among, refs, bound, rfl, rfl⟩
  have nodup : (entries.reverse.map Prod.fst).Nodup := by
    rw [List.map_reverse, List.nodup_reverse]
    exact (sublist_names outputs).nodup distinct
  have found : (bindings outputs).find? o.name = entries.reverse.lookup o.name := by
    rw [bindings, NameMap.ofList, NameMap.find?_insertAll, NameMap.find?_empty, Option.or_none]
  rw [found]
  cases refs : o.refs with
  | some rep =>
    have entry : (o.name, rep) ∈ entries.reverse :=
      List.mem_reverse.2 (mem_entries.2 ⟨o, member, rfl, refs⟩)
    exact NameMap.lookup_of_mem nodup entry
  | none =>
    rw [List.lookup_eq_none_iff]
    rintro ⟨name, rep⟩ entry
    obtain ⟨other, among, rfl, bound⟩ := mem_entries.1 (List.mem_reverse.1 entry)
    rw [bne_iff_ne]
    intro same
    cases List.inj_on_of_nodup_map distinct member among same
    cases refs.symm.trans bound

/-! ### Aliases -/

section Aliases

variable {columns : List (String × Expr)} {env bound : Environment} {c : String × Expr}
  {name : String}

/-- What one column adds to the aliases. -/
def addAlias (columns : List (String × Expr)) (env bound : Environment) (c : String × Expr) :
    Environment :=
  match c.2 with
  | .attr source =>
    if columns.any (·.1 == source) || !env.contains source || bound.contains source then bound
    else match bound.find? c.1 with
      | some refs => bound.insert source refs
      | none => bound
  | _ => bound

theorem withAliases_eq_foldl :
    withAliases columns env bound = columns.foldl (addAlias columns env) bound := rfl

theorem kept_eq_false : (columns.any (·.1 == name) || !env.contains name || bound.contains name) =
    false ↔ name ∉ columns.map Prod.fst ∧ env.contains name = true ∧ bound.find? name = none := by
  simp only [Bool.or_eq_false_iff, List.any_eq_false, beq_iff_eq, Bool.not_eq_false',
    NameMap.contains, Option.isSome_eq_false_iff, Option.isNone_iff_eq_none, List.mem_map,
    not_exists, not_and, and_assoc]

/-- A column that passes on an attribute that only the input binds passes on its binding. -/
theorem find?_addAlias_attr (own : c.2 = .attr name) (undeclared : name ∉ columns.map Prod.fst)
    (known : env.contains name = true) (unbound : bound.find? name = none) :
    (addAlias columns env bound c).find? name = bound.find? c.1 := by
  unfold addAlias
  simp only [own, kept_eq_false.2 ⟨undeclared, known, unbound⟩, Bool.false_eq_true, if_false]
  split
  case h_1 refs found => rw [NameMap.find?_insert_self, found]
  case h_2 none => rw [unbound, none]

/-- A column changes no other binding. -/
theorem find?_addAlias (columns : List (String × Expr)) (env bound : Environment)
    (c : String × Expr) (name : String) :
    (addAlias columns env bound c).find? name = bound.find? name ∨
      (c.2 = .attr name ∧ name ∉ columns.map Prod.fst ∧ env.contains name = true ∧
        bound.find? name = none) := by
  unfold addAlias
  split
  case h_1 source attr =>
    split
    · exact .inl rfl
    case isFalse new =>
      rw [Bool.not_eq_true, kept_eq_false] at new
      split
      · rw [NameMap.find?_insert]
        split
        case isTrue same =>
          subst same
          exact .inr ⟨attr, new⟩
        case isFalse => exact .inl rfl
      · exact .inl rfl
  case h_2 => exact .inl rfl

/-- Aliases leave the declared columns alone. -/
theorem find?_withAliases (declared : name ∈ columns.map Prod.fst) :
    (withAliases columns env bound).find? name = bound.find? name := by
  rw [withAliases_eq_foldl]
  refine List.foldlRecOn
    (motive := fun env' : Environment => env'.find? name = bound.find? name) columns _ rfl ?_
  intro env' same c _
  rcases find?_addAlias columns env env' c name with kept | ⟨_, undeclared, _⟩
  · exact kept.trans same
  · exact absurd declared undeclared

end Aliases

end OutputColumn

/-! ## Projections -/

namespace FlatProjection

variable {schema rows : Schema} {env : Environment}

/-- The columns of a projection: each is carried, and no two flat columns have the same name. -/
theorem columns {cs : List (String × Expr)} {ds : List Column} {outputs : List OutputColumn}
    (ih : ∀ c ∈ cs, c.2.FlattensWell v) (plan : ∀ c ∈ cs, c.2.Everywhere v.plan)
    (scope : Scope v schema env rows)
    (typed : List.Forall₂ (Query.ColumnOf v.checked schema false) cs ds)
    (distinct : (ds.map Prod.fst).Nodup) (declared : ∀ d ∈ ds, v.Declares d.1)
    (stem : s.names.stem = v.stem)
    (run : (Query.flattenColumns v.permissive env schema cs).Yields s outputs t) :
    List.Forall₂ (OutputColumn.Stands v rows s t) outputs ds ∧
      ((outputs.flatMap (·.columns)).map Prod.fst).Nodup := by
  induction typed generalizing s outputs with
  | nil =>
    rw [(Query.yields_flattenColumns_nil.1 run).1]
    exact ⟨.nil, .nil⟩
  | @cons c d cs ds column rest ihs =>
    obtain ⟨name, e⟩ := c
    rw [List.forall_mem_cons] at ih plan declared
    rw [List.map_cons, List.nodup_cons] at distinct
    obtain ⟨part, u, flat, o, w, output, others, tail, rfl⟩ :=
      Query.yields_flattenColumns_cons.1 run
    have leads := (e.flatten_advances v.permissive env schema).leads flat
    have leads' := (OutputColumn.ofFlattened_advances name part).leads output
    have leads'' := (Query.flattenColumns_advances _ v.permissive env schema).leads tail
    have named := (Expr.typeOf_permissive (Expr.wording_of_plan plan.1) scope.named column.typed).1
    have stands :=
      ih.1 True plan.1 scope column.typed (fun _ => column.aggregateCount_eq_zero) stem flat
    have head : o.Stands v rows s w d := by
      have same : d = (name, d.2) := Prod.ext column.name rfl
      rw [same]
      exact (OutputColumn.Stands.ofFlattened stands named column.isProduct_eq_false output).mono
        leads (.refl w)
    obtain ⟨standing, nodup⟩ := ihs ih.2 plan.2 distinct.2 declared.2
      ((leads.trans leads').stem.trans stem) tail
    refine ⟨.cons (head.mono (.refl s) leads'')
      (standing.imp fun _ _ h => h.mono (leads.trans leads') (.refl _)), ?_⟩
    rw [List.flatMap_cons, List.map_append, List.nodup_append]
    refine ⟨head.nodup, nodup, ?_⟩
    rintro name onHead _ onTail rfl
    have stem' : w.names.stem = v.stem := (leads.trans leads').stem.trans stem
    rcases head.name_or_drawn onHead with rfl | drawn
    · rcases OutputColumn.name_or_drawn standing onTail with again | drawn
      · exact distinct.1 again
      · exact declared.1.not_drawn stem' drawn
    · rcases OutputColumn.name_or_drawn standing onTail with plain | again
      · obtain ⟨d', member, rfl⟩ := List.mem_map.1 plain
        exact (declared.2 d' member).not_drawn stem drawn
      · exact drawn.not_again (leads.trans leads') again

theorem ofOutputs {outputs : List OutputColumn} {ds : List Column}
    {input : Query} (h : List.Forall₂ (OutputColumn.Stands v rows s t) outputs ds) :
    Query.ofOutputs outputs input = .project (outputs.flatMap (·.columns)) input := by
  have queries : outputs.flatMap (·.queries) = [] := by
    rw [List.flatMap_eq_nil_iff]
    intro o member
    obtain ⟨_, _, stands⟩ := exists_of_mem_right h.flip member
    exact stands.queries
  have restrictions : outputs.flatMap (·.restrictions) = [] := by
    rw [List.flatMap_eq_nil_iff]
    intro o member
    obtain ⟨_, _, stands⟩ := exists_of_mem_right h.flip member
    exact stands.restrictions
  rw [Query.ofOutputs, queries, restrictions]
  exact congrArg _ (Query.combination_empty_left input)

/-- A projection to the flat columns of its outputs, under an environment that binds them. -/
theorem flatForm {u : PassState} {inner : Schema} {envInput : Environment} {flatInput : Query}
    {outputs : List OutputColumn} (form : Query.FlatForm v inner s flatInput envInput u)
    (leads : s.Leads u) (regular : schema.Regular v)
    (related : List.Forall₂ (fun (o : OutputColumn) d =>
      o.Stands v (envInput.expand inner) u t d ∧ env.find? d.1 = o.refs) outputs schema.columns)
    (nodup : ((outputs.flatMap (·.columns)).map Prod.fst).Nodup) :
    Query.FlatForm v schema s (.project (outputs.flatMap (·.columns)) flatInput) env t := by
  have flatColumns : Query.columnsOf v.checked (envInput.expand inner) false
      (outputs.flatMap (·.columns)) = .ok (env.expand schema).columns := by
    have parts : List.Forall₂ (fun (o : OutputColumn) d =>
        List.Forall₂ (Query.ColumnOf v.checked (envInput.expand inner) false) o.columns
          (env.expandColumn d)) outputs schema.columns := by
      refine forall₂_imp_of_mem related fun o _ d member h => ?_
      rw [(h.1.carries h.2).2]
      exact OutputColumn.columnOf_of_leaves h.1.leaves
        (Ty.flatTypes_noProduct (regular.named d member) (regular.noProduct d member))
    rw [Query.columnsOf_eq_ok]
    exact List.rel_flatMap parts fun _ _ part => part
  refine ⟨Query.schemaOf_project.2 ⟨_, form.typed, flatColumns⟩, ?_, ?_, ?_, ?_⟩
  · rw [Query.everywhere_project]
    refine ⟨⟨trivial, trivial⟩, fun c member => ?_, form.nodes⟩
    obtain ⟨o, output, part⟩ := List.mem_flatMap.1 member
    obtain ⟨d, _, stands, _⟩ := exists_of_mem_right related.flip output
    obtain ⟨_, _, leaf⟩ := exists_of_mem_right stands.leaves.flip (List.mem_map_of_mem part)
    exact leaf.nodes
  · intro d member
    obtain ⟨o, _, stands, bound⟩ := exists_of_mem_right related member
    exact (stands.carries bound).1
  · intro d member d' part
    obtain ⟨o, _, stands, bound⟩ := exists_of_mem_right related member
    exact (stands.drawn bound part).imp_right fun drawn => drawn.mono leads (.refl t)
  · rw [Query.names_of_columnsOf flatColumns]
    exact nodup

/-- The environment of a projection binds each declared column as its output says. -/
theorem bound {cs : List (String × Expr)} {ds : List Column} {outputs : List OutputColumn}
    (standing : List.Forall₂ (OutputColumn.Stands v rows s t) outputs ds)
    (names : ds.map Prod.fst = cs.map Prod.fst) (distinct : (ds.map Prod.fst).Nodup) :
    List.Forall₂ (fun (o : OutputColumn) d => o.Stands v rows s t d ∧
      (OutputColumn.withAliases cs env (OutputColumn.bindings outputs)).find? d.1 = o.refs)
        outputs ds := by
  have outputNames : outputs.map (·.name) = ds.map Prod.fst := by
    clear names distinct
    induction standing with
    | nil => rfl
    | cons first _ ih => rw [List.map_cons, List.map_cons, first.name, ih]
  refine forall₂_imp_of_mem standing fun o output d member stands => ⟨stands, ?_⟩
  have declared : d.1 ∈ cs.map Prod.fst := names ▸ List.mem_map_of_mem member
  rw [OutputColumn.find?_withAliases declared, ← stands.name]
  exact OutputColumn.find?_bindings (outputNames ▸ distinct) output

theorem project {cs : List (String × Expr)} {input : Query} (ihc : ∀ c ∈ cs, c.2.FlattensWell v)
    (ih : input.FlattensWell v) : (Query.project cs input).FlattensWell v := by
  intro schema env s t flat plan infer flattens
  have regular := Query.schema_regular _ plan infer
  obtain ⟨inner, inferInput, typed⟩ := Query.schemaOf_project.1 infer
  rw [Query.everywhere_project] at plan
  obtain ⟨_, planColumns, planInput⟩ := plan
  have named := (Query.schemaOf_permissive (Query.wording_of_plan planInput) inferInput).1
  obtain ⟨flatInput, envInput, u, outputs, flattensInput, leads, runColumns, rfl, rfl⟩ :=
    flattens.project planInput inferInput
  have form := ih planInput inferInput flattensInput
  obtain ⟨standing, nodup⟩ :=
    columns ihc planColumns (form.scope named) (Query.columnsOf_eq_ok.1 typed) regular.distinct
      regular.declared (leads.stem.trans flattens.stem) runColumns
  rw [ofOutputs standing]
  exact flatForm form leads regular
    (bound standing (Query.names_of_columnsOf typed) regular.distinct) nodup

/-- The columns of a grouping stay scalars of the same types. -/
theorem groups {cs flats : List (String × Expr)} {ds : List Column}
    (ih : ∀ c ∈ cs, c.2.FlattensWell v) (plan : ∀ c ∈ cs, c.2.Everywhere v.plan)
    (scope : Scope v schema env rows)
    (typed : List.Forall₂ (Query.ColumnOf v.checked schema true) cs ds)
    (stem : s.names.stem = v.stem)
    (run : (Query.flattenGroups v.permissive env schema cs).Yields s flats t) :
    List.Forall₂ (fun c d => Query.ColumnOf v.checked rows true c d ∧ Leaf v rows False c.2 d.2)
      flats ds := by
  induction typed generalizing s flats with
  | nil =>
    rw [(Query.yields_flattenGroups_nil.1 run).1]
    exact .nil
  | @cons c d cs ds column rest ihs =>
    obtain ⟨name, e⟩ := c
    rw [List.forall_mem_cons] at ih plan
    obtain ⟨part, u, flat, ⟨noTuple, _⟩, others, tail, rfl⟩ := Query.yields_flattenGroups_cons.1 run
    have leads := (e.flatten_advances v.permissive env schema).leads flat
    have stands := ih.1 False plan.1 scope column.typed False.elim stem flat
    have leaf := stands.represents.leaf_of_noTuple noTuple
    exact .cons ⟨⟨column.name, rfl, leaf.typed, column.noProduct⟩, leaf⟩
      (ihs ih.2 plan.2 (leads.stem.trans stem) tail)

theorem grouping {cs : List (String × Expr)} {input : Query} (ihc : ∀ c ∈ cs, c.2.FlattensWell v)
    (ih : input.FlattensWell v) : (Query.grouping cs input).FlattensWell v := by
  intro schema env s t flat plan infer flattens
  have regular := Query.schema_regular _ plan infer
  obtain ⟨inner, inferInput, typed⟩ := Query.schemaOf_grouping.1 infer
  rw [Query.everywhere_grouping] at plan
  obtain ⟨_, planColumns, planInput⟩ := plan
  obtain ⟨named, permissive⟩ :=
    Query.schemaOf_permissive (Query.wording_of_plan planInput) inferInput
  obtain ⟨flatInput, envInput, u, runInput, _, known, flats, runGroups, rfl, rfl⟩ :=
    Query.yields_flatten_grouping.1 flattens.run
  cases permissive.symm.trans known
  have form := ih planInput inferInput ⟨flattens.stem, runInput⟩
  have leads := (input.flatten_advances v.permissive).leads runInput
  have standing := groups ihc planColumns (form.scope named) (Query.columnsOf_eq_ok.1 typed)
    (leads.stem.trans flattens.stem) runGroups
  refine .unchanged ?_ ?_ (fun d member => ?_) regular.distinct
  · exact Query.schemaOf_grouping.2 ⟨_, form.typed,
      Query.columnsOf_eq_ok.2 (standing.imp fun _ _ h => h.1)⟩
  · rw [Query.everywhere_grouping]
    refine ⟨⟨trivial, trivial⟩, fun c member => ?_, form.nodes⟩
    obtain ⟨_, _, _, leaf⟩ := exists_of_mem_right standing.flip member
    exact leaf.nodes
  · obtain ⟨_, _, _, leaf⟩ := exists_of_mem_right standing member
    exact Ty.isStructured_eq_false.1 leaf.unstructured

end FlatProjection

end FlatPlan
