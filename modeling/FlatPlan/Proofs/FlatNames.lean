import FlatPlan.Proofs.Bindings

/-!
# Names of flat columns

Where the columns of a flat query get their names from. A declared name is that of a column of the
query, and any other is drawn during the run and stands once (`Query.named_of_flattens`). So the
flat columns of two operands have a name in common only if the operands themselves have. A quotient
is an exception if it divides by a column whose name is bound to other columns on the left: then the
flat column stays.
-/

namespace FlatPlan

open Pass

namespace Session

variable (x : Session)

/-- Where the names of flat columns come from: declared ones from the names given, each at most as
often, and the others from the draws of a run, each once. -/
structure Names (names flat : List String) (s t : PassState) : Prop where
  declared : ∀ name, x.Declares name → flat.count name ≤ names.count name
  drawn : ∀ name ∈ flat, ¬x.Declares name → s.Draws t name ∧ flat.count name ≤ 1

/-- No column of the right operand is a flat column on the left whose name is bound to others. -/
def Uncaptured (left right : Query) : Prop :=
  ∀ {s t : PassState} {flat : Query} {env : Environment}, x.Flattens left s flat env t →
    ∀ name ∈ right.outputNames, name ∈ flat.outputNames → env.find? name = none

/-- Names that the pass may draw are not declared. -/
def declaring : NodeProperty := .declaring x.Declares

/-- Besides, no quotient divides by a captured column. -/
def naming : NodeProperty :=
  x.declaring.and
    { expr _ := True
      query
        | .combine .quotient left right => x.Uncaptured left right
        | _ => True }

variable {x} {names flat : List String} {s t u : PassState} {name : String}

namespace Names

theorem mem_of_declares (h : x.Names names flat s t) (declares : x.Declares name)
    (member : name ∈ flat) :
    name ∈ names :=
  List.count_pos_iff.1 (Nat.lt_of_lt_of_le (List.count_pos_iff.2 member) (h.declared name declares))

theorem mono {s' t' : PassState} (h : x.Names names flat s t) (before : s'.Leads s)
    (behind : t.Leads t') :
    x.Names names flat s' t' where
  declared := h.declared
  drawn name member new :=
    ⟨(h.drawn name member new).1.mono before behind, (h.drawn name member new).2⟩

/-- Declared columns are their own flat columns. -/
theorem of_declared (declares : ∀ name ∈ names, x.Declares name) : x.Names names names s t where
  declared _ _ := Nat.le_refl _
  drawn name member new := absurd (declares name member) new

/-- The next names are drawn. -/
theorem of_block (stem : s.names.stem = x.stem) (names : List String) (n : Nat) :
    x.Names names (s.block n) s (s.after n) where
  declared name declares := by
    have absent : name ∉ s.block n :=
      fun member => declares.not_drawn stem (PassState.draws_of_mem_block member)
    rw [List.count_eq_zero.2 absent]
    exact Nat.zero_le _
  drawn name member _ :=
    ⟨PassState.draws_of_mem_block member, List.nodup_iff_count_le_one.1 (s.nodup_block n) name⟩

/-- Different names stay different. -/
theorem nodup (h : x.Names names flat s t) (distinct : names.Nodup) : flat.Nodup := by
  rw [List.nodup_iff_count_le_one] at distinct ⊢
  intro name
  by_cases declares : x.Declares name
  · exact Nat.le_trans (h.declared name declares) (distinct name)
  · by_cases member : name ∈ flat
    · exact (h.drawn name member declares).2
    · rw [List.count_eq_zero.2 member]
      exact Nat.zero_le _

section Operands

variable {left right flatLeft flatRight : List String} (before : s.Leads u)
  (hl : x.Names left flatLeft s u) (hr : x.Names right flatRight u t)

include before hl hr

/-- What two runs one after the other have in common is declared. -/
theorem declares_of_common (onLeft : name ∈ flatLeft) (onRight : name ∈ flatRight) :
    x.Declares name := by
  by_contra new
  exact (hl.drawn name onLeft new).1.not_again before (hr.drawn name onRight new).1

/-- Without a common name of the operands there is none of their flat columns. -/
theorem disjoint (apart : ∀ name ∈ right, name ∉ left) : ∀ name ∈ flatRight, name ∉ flatLeft := by
  intro name onRight onLeft
  have declares := declares_of_common before hl hr onLeft onRight
  exact apart name (hr.mem_of_declares declares onRight) (hl.mem_of_declares declares onLeft)

theorem append (behind : u.Leads t) : x.Names (left ++ right) (flatLeft ++ flatRight) s t where
  declared name declares := by
    rw [List.count_append, List.count_append]
    exact Nat.add_le_add (hl.declared name declares) (hr.declared name declares)
  drawn name member new := by
    rw [List.count_append]
    rcases List.mem_append.1 member with onLeft | onRight
    · have absent : name ∉ flatRight :=
        fun onRight => new (declares_of_common before hl hr onLeft onRight)
      rw [List.count_eq_zero.2 absent]
      exact ⟨(hl.drawn name onLeft new).1.mono (.refl s) behind, (hl.drawn name onLeft new).2⟩
    · have absent : name ∉ flatLeft :=
        fun onLeft => new (declares_of_common before hl hr onLeft onRight)
      rw [List.count_eq_zero.2 absent, Nat.zero_add]
      exact ⟨(hr.drawn name onRight new).1.mono before (.refl t), (hr.drawn name onRight new).2⟩

theorem merge (behind : u.Leads t) :
    x.Names (mergeNames left right) (mergeNames flatLeft flatRight) s t where
  declared name declares := by
    rw [count_mergeNames, count_mergeNames]
    by_cases onLeft : name ∈ flatLeft
    · rw [if_pos onLeft, if_pos (hl.mem_of_declares declares onLeft)]
      exact hl.declared name declares
    · rw [if_neg onLeft]
      by_cases onRight : name ∈ flatRight
      · rw [if_pos onRight, if_pos (hr.mem_of_declares declares onRight)]
        split
        case isTrue member => exact List.count_pos_iff.2 member
        case isFalse => exact Nat.le_refl 1
      · rw [if_neg onRight]
        exact Nat.zero_le _
  drawn name member new := by
    rw [count_mergeNames]
    by_cases onLeft : name ∈ flatLeft
    · rw [if_pos onLeft]
      exact ⟨(hl.drawn name onLeft new).1.mono (.refl s) behind, (hl.drawn name onLeft new).2⟩
    · have onRight := (mem_mergeNames.1 member).resolve_left onLeft
      rw [if_neg onLeft, if_pos onRight]
      exact ⟨(hr.drawn name onRight new).1.mono before (.refl t), Nat.le_refl 1⟩

end Operands

/-- Flat columns that are dropped take their declared names with them, if no other column has
one. -/
theorem filter {dropped targets : List String} (h : x.Names names flat s t)
    (gone : ∀ name ∈ dropped, x.Declares name → name ∈ flat → name ∈ targets) :
    x.Names (names.filter (· ∉ dropped)) (flat.filter (· ∉ targets)) s t where
  declared name declares := by
    by_cases among : name ∈ dropped
    · have absent : name ∉ flat.filter (· ∉ targets) := by
        intro member
        rw [List.mem_filter, decide_eq_true_eq] at member
        exact member.2 (gone name among declares member.1)
      rw [List.count_eq_zero.2 absent]
      exact Nat.zero_le _
    · rw [List.count_filter (l := names) (by simpa using among)]
      exact Nat.le_trans (List.Sublist.count_le name List.filter_sublist) (h.declared name declares)
  drawn name member new := by
    obtain ⟨drawn, once⟩ := h.drawn name (List.mem_filter.1 member).1 new
    exact ⟨drawn, Nat.le_trans (List.Sublist.count_le name List.filter_sublist) once⟩

end Names

end Session

variable {x : Session} {check : Regime} {s t : PassState} {env : Environment}

/-! ## Columns of projections -/

/-- The flat columns of an output column are the leaves of its flat form. -/
theorem OutputColumn.Carries.names {o : OutputColumn} {name : String} {part : Flattened}
    (h : o.Carries name part s t) :
    o.columns.map Prod.fst = ((o.refs.getD (.attr o.name)).leafNames) := by
  rcases h.carried with ⟨_, none, columns, _⟩ | ⟨_, refs, bound, spread⟩
  · rw [none, columns, h.named]
    rfl
  · rw [bound, Option.getD_some, Expr.leafNames_of_leaves spread.leaves, spread.carried,
      List.map_fst_zip (Nat.le_of_eq (PassState.length_block s _))]

/-- An output column has its own name or the next ones. -/
theorem OutputColumn.Carries.namesColumns {o : OutputColumn} {name : String} {part : Flattened}
    (h : o.Carries name part s t) (stem : s.names.stem = x.stem) (declares : x.Declares name) :
    x.Names [name] (o.columns.map Prod.fst) s t := by
  rcases h.carried with ⟨_, _, columns, rfl⟩ | ⟨_, refs, _, spread⟩
  · rw [columns]
    exact .of_declared fun other member => List.mem_singleton.1 member ▸ declares
  · rw [spread.carried, List.map_fst_zip (Nat.le_of_eq (PassState.length_block s _)), spread.after]
    exact .of_block stem _ _

namespace Query

theorem names_of_columns {inner : Schema} {cs : List (String × Expr)} {outputs : List OutputColumn}
    (stem : s.names.stem = x.stem) (declares : ∀ c ∈ cs, x.Declares c.1)
    (run : (flattenColumns check env inner cs).Yields s outputs t) :
    x.Names (cs.map Prod.fst) (outputs.flatMap fun o => o.columns.map Prod.fst) s t := by
  induction cs generalizing s outputs with
  | nil =>
    rw [(yields_flattenColumns_nil.1 run).1]
    exact .of_declared fun name member => (by cases member)
  | cons c cs ih =>
    rw [List.forall_mem_cons] at declares
    obtain ⟨part, u, flat, o, w, output, rest, others, rfl⟩ := yields_flattenColumns_cons.1 run
    have leads := (c.2.flatten_advances check env inner).leads flat
    have leads' := (OutputColumn.ofFlattened_advances c.1 part).leads output
    have first :=
      (OutputColumn.carries_of_yields output).namesColumns (leads.stem.trans stem) declares.1
    have later := ih ((leads.trans leads').stem.trans stem) declares.2 others
    exact (first.mono leads (.refl w)).append (leads.trans leads') later
      (flattenColumns_leads others)

/-! ## Queries -/

theorem outputNames_restrictAll (predicates : List Expr) (q : Query) :
    (restrictAll predicates q).outputNames = q.outputNames := by
  unfold restrictAll
  induction predicates generalizing q with
  | nil => rfl
  | cons predicate predicates ih =>
    rw [List.foldl_cons, ih]
    rfl

/-- A restriction tests the rows of its input, and projects away again what is joined for the
tests. -/
theorem flattenRestriction_cases {check : TypeCheck} {predicate : Expr} {part : Flattened}
    {input flat : Query} (h : flattenRestriction check predicate part input = .ok flat) :
    (part.queries = [] ∧ flat = restrictAll (part.expr :: part.restrictions) input) ∨
      (part.queries ≠ [] ∧ ∃ visible, input.schemaOf check = .ok visible ∧
        flat = .project (visible.columns.map fun c => (c.1, .attr c.1))
          (restrictAll (part.expr :: part.restrictions) (productAll (input :: part.queries)))) := by
  unfold flattenRestriction at h
  split at h
  · cases h
  · split at h
    case isTrue none => exact .inl ⟨List.isEmpty_iff.1 none, (Except.ok.inj h).symm⟩
    case isFalse some =>
      simp only [bind_eq_ok, pure_eq_ok] at h
      exact .inr ⟨fun none => some (List.isEmpty_iff.2 none), h⟩

/-- A restriction keeps the columns, also where joined queries are projected away again. -/
theorem outputNames_flattenRestriction {predicate : Expr} {part : Flattened} {input flat : Query}
    (h : flattenRestriction check predicate part input = .ok flat) :
    flat.outputNames = input.outputNames := by
  rcases flattenRestriction_cases h with ⟨_, rfl⟩ | ⟨_, visible, infer, rfl⟩
  · exact outputNames_restrictAll _ _
  · rw [← names_of_schemaOf infer, outputNames, List.map_map]
    rfl

theorem outputNames_ofOutputs (outputs : List OutputColumn) (input : Query) :
    (ofOutputs outputs input).outputNames = outputs.flatMap fun o => o.columns.map Prod.fst := by
  rw [ofOutputs, outputNames, List.map_flatMap]

theorem names_of_groups {inner : Schema} {cs flats : List (String × Expr)}
    (run : (flattenGroups check env inner cs).Yields s flats t) :
    flats.map Prod.fst = cs.map Prod.fst := by
  have each := flattenGroups_within run
  clear run
  induction each with
  | nil => rfl
  | cons first _ ih =>
    obtain ⟨part, _, _, _, rfl⟩ := first
    rw [List.map_cons, List.map_cons, ih]

theorem combination_product (left right : Query) :
    (left = .empty ∧ combination .product left right = right) ∨
    (right = .empty ∧ combination .product left right = left) ∨
    combination .product left right = .combine .product left right := by
  unfold combination
  split
  · exact .inl ⟨rfl, rfl⟩
  · exact .inr (.inl ⟨rfl, rfl⟩)
  · exact .inr (.inr rfl)

theorem combination_of_ne {left right : Query} (hl : left ≠ .empty) (hr : right ≠ .empty) :
    combination .product left right = .combine .product left right := by
  rcases combination_product left right with ⟨equal, _⟩ | ⟨equal, _⟩ | equal
  · exact absurd equal hl
  · exact absurd equal hr
  · exact equal

theorem mem_outputNames_combination {left right : Query} {name : String} :
    name ∈ (combination .product left right).outputNames ↔ name ∈ left.outputNames ∨
      name ∈ right.outputNames := by
  rcases combination_product left right with ⟨rfl, equal⟩ | ⟨rfl, equal⟩ | equal
  · rw [equal]
    simp [outputNames]
  · rw [equal]
    simp [outputNames]
  · rw [equal]
    exact mem_mergeNames

theorem outputNames_setOperation {op : CombineOp} (noProduct : op ≠ .product)
    (noQuotient : op ≠ .quotient) (left right : Query) :
    (combine op left right).outputNames = left.outputNames := by
  cases op with
  | product => exact absurd rfl noProduct
  | quotient => exact absurd rfl noQuotient
  | union | intersection | difference => rfl

section Alignment

variable {left right flatLeft flatRight aligned : Query} {leftEnv rightEnv : Environment}
  {columns : List (String × Expr)} {name : String}

/-- A column that the left does not bind is lined up under its own name. -/
theorem Aligns.mem_of_unbound
    (h : Aligns (right.outputNames.map fun name => (name, name)) leftEnv rightEnv flatRight aligned
      columns)
    (onRight : name ∈ right.outputNames) (unbound : leftEnv.find? name = none) :
    name ∈ aligned.outputNames := by
  rw [h.outputNames, List.mem_flatMap]
  refine ⟨(name, name), List.mem_map.2 ⟨name, onRight, rfl⟩, ?_⟩
  rw [Environment.resolve, unbound]
  exact List.mem_singleton.2 rfl

/-- A leaf of a binding is drawn, so a declared name is that of a column which is not bound. -/
theorem Aligns.mem_of_declares
    (h : Aligns (right.outputNames.map fun name => (name, name)) leftEnv rightEnv flatRight aligned
      columns)
    (flattens : x.Flattens left s flatLeft leftEnv t) (member : name ∈ aligned.outputNames)
    (own : x.Declares name) : name ∈ right.outputNames := by
  rw [h.outputNames, List.mem_flatMap] at member
  obtain ⟨p, paired, leaf⟩ := member
  obtain ⟨other, among, rfl⟩ := List.mem_map.1 paired
  unfold Environment.resolve at leaf
  cases found : leftEnv.find? other with
  | none =>
    rw [found] at leaf
    exact List.mem_singleton.1 leaf ▸ among
  | some rep =>
    rw [found] at leaf
    have drawn := (bindings_drawn flattens.run other rep found).drawn name leaf
    exact absurd drawn (own.not_drawn flattens.stem)

end Alignment

/-- The flat columns of a query have declared names of its columns or drawn ones, and a column that
is not bound is a flat column itself. -/
structure Named (x : Session) (q flat : Query) (env : Environment) (s t : PassState) : Prop where
  names : x.Names q.outputNames flat.outputNames s t
  unbound : ∀ name ∈ q.outputNames, env.find? name = none → name ∈ flat.outputNames

namespace Named

variable {q flat input : Query}

/-- A query without structured columns of its own, whose flat form has the same names. -/
theorem of_declared (declares : ∀ name ∈ q.outputNames, x.Declares name)
    (same : flat.outputNames = q.outputNames) :
    Named x q flat env s t where
  names := by
    rw [same]
    exact .of_declared declares
  unbound _ member _ := same ▸ member

/-- A query that passes the columns of its input on. -/
theorem congr {flatInput : Query} {envInput : Environment} {u : PassState}
    (h : Named x input flatInput envInput s u) (behind : u.Leads t)
    (names : q.outputNames = input.outputNames)
    (flatNames : flat.outputNames = flatInput.outputNames)
    (same : ∀ name, env.find? name = envInput.find? name) :
    Named x q flat env s t where
  names := by
    rw [names, flatNames]
    exact h.names.mono (.refl s) behind
  unbound name member unbound := by
    rw [names] at member
    rw [same] at unbound
    rw [flatNames]
    exact h.unbound name member unbound

theorem project {cs : List (String × Expr)} {envInput : Environment} {flatInput : Query}
    {inner : Schema} {outputs : List OutputColumn} (stem : s.names.stem = x.stem)
    (declares : ∀ c ∈ cs, x.Declares c.1)
    (run : (flattenColumns check envInput inner cs).Yields s outputs t) :
    Named x (.project cs input) (ofOutputs outputs flatInput)
      (OutputColumn.withAliases cs envInput (OutputColumn.bindings outputs)) s t where
  names := by
    rw [outputNames_ofOutputs]
    exact names_of_columns stem declares run
  unbound name member unbound := by
    have member : name ∈ cs.map Prod.fst := member
    rw [OutputColumn.find?_withAliases member] at unbound
    rw [← names_of_flattenColumns run] at member
    obtain ⟨o, among, named⟩ := List.mem_map.1 member
    have scalar := OutputColumn.refs_of_find?_bindings unbound among named
    obtain ⟨c, _, part, _, u, w, _, output, _⟩ :=
      exists_of_mem_right (flattenColumns_within run) among
    rw [outputNames_ofOutputs, List.mem_flatMap]
    refine ⟨o, among, ?_⟩
    rw [(OutputColumn.carries_of_yields output).names, scalar, named]
    exact List.mem_singleton.2 rfl

variable {op : CombineOp} {left right flatLeft flatRight : Query} {leftEnv rightEnv : Environment}
  {u : PassState}

theorem product (before : s.Leads u) (behind : u.Leads t) (hl : Named x left flatLeft leftEnv s u)
    (hr : Named x right flatRight rightEnv u t)
    (bound : ∀ name, env.find? name = if name ∈ left.outputNames then leftEnv.find? name
      else (rightEnv.find? name).or (leftEnv.find? name)) :
    Named x (.combine .product left right) (.combine .product flatLeft flatRight) env s t where
  names := hl.names.merge before hr.names behind
  unbound name member unbound := by
    rw [bound] at unbound
    refine mem_mergeNames.2 ?_
    split at unbound
    case isTrue onLeft => exact .inl (hl.unbound name onLeft unbound)
    case isFalse absent =>
      rw [Option.or_eq_none_iff] at unbound
      exact .inr (hr.unbound name ((mem_mergeNames.1 member).resolve_left absent) unbound.1)

/-- A quotient by columns that are flat columns on the left drops exactly these. -/
theorem quotient {aligned : Query} (hl : Named x left flatLeft leftEnv s u) (behind : u.Leads t)
    (declares : ∀ name ∈ left.outputNames, x.Declares name)
    (gone : ∀ name ∈ right.outputNames, name ∈ flatLeft.outputNames → name ∈ aligned.outputNames)
    (kept : ∀ name ∈ aligned.outputNames, x.Declares name → name ∈ right.outputNames)
    (bound : ∀ name, name ∉ right.outputNames → env.find? name = leftEnv.find? name) :
    Named x (.combine .quotient left right) (.combine .quotient flatLeft aligned) env s t where
  names :=
    (hl.names.filter fun name onRight _ onLeft => gone name onRight onLeft).mono (.refl s) behind
  unbound name member unbound := by
    obtain ⟨onLeft, absent⟩ := List.mem_filter.1 member
    have absent : name ∉ right.outputNames := by simpa using absent
    rw [bound name absent] at unbound
    refine List.mem_filter.2 ⟨hl.unbound name onLeft unbound, decide_eq_true ?_⟩
    exact fun onRight => absent (kept name onRight (declares name onLeft))

/-- A quotient by columns that the left does not bind. -/
theorem of_quotient (hl : Named x left flatLeft leftEnv s u)
    (hr : Named x right flatRight rightEnv u t) (flattens : x.Flattens left s flatLeft leftEnv u)
    (behind : u.Leads t) (declares : ∀ name ∈ left.outputNames, x.Declares name)
    (uncaptured : x.Uncaptured left right)
    (combined : Combined .quotient left right flatLeft flatRight leftEnv rightEnv flat env) :
    Named x (.combine .quotient left right) flat env s t := by
  have bound : ∀ name, name ∉ right.outputNames → env.find? name = leftEnv.find? name :=
    fun name absent => by rw [combined.find?_quotient, if_neg absent]
  cases combined with
  | plain _ unboundRight =>
    refine hl.quotient behind declares (fun name onRight _ => ?_) (fun name onRight own => ?_) bound
    · exact hr.unbound name onRight (unboundRight name)
    · exact hr.names.mem_of_declares own onRight
  | product own => cases own
  | quotient _ alignment _ =>
    refine hl.quotient behind declares (fun name onRight onLeft => ?_) (fun name onRight own => ?_)
      bound
    · exact alignment.mem_of_unbound onRight (uncaptured flattens name onRight onLeft)
    · exact alignment.mem_of_declares flattens onRight own
  | setOperation _ noQuotient => exact absurd rfl noQuotient

end Named

theorem declaring_of_naming {q : Query} (plan : q.Everywhere x.naming) : q.Everywhere x.declaring :=
  plan.left

/-- The flat columns of a query have declared names of its columns or drawn ones. -/
theorem named_of_flattens : ∀ {q flat : Query} {env : Environment} {s t : PassState},
    q.Everywhere x.naming → x.Flattens q s flat env t → Named x q flat env s t
  | .empty, flat, env, s, t, plan, flattens => by
    obtain ⟨rfl, _, _⟩ := yields_flatten_empty.1 flattens.run
    exact .of_declared (declared_outputNames (declaring_of_naming plan)) rfl
  | .table _ _, flat, env, s, t, plan, flattens => by
    obtain ⟨rfl, _, _⟩ := yields_flatten_table.1 flattens.run
    exact .of_declared (declared_outputNames (declaring_of_naming plan)) rfl
  | .galaxy g, flat, env, s, t, plan, flattens => by
    obtain ⟨underlying, _, u, schema, renamed, runQuery, _, project, equal, rfl⟩ :=
      yields_flatten_galaxy.1 flattens.run
    cases equal
    have leads := (g.query.flatten_advances x.permissive).leads runQuery
    constructor
    · rw [outputNames_projection project, names_renamings (u.length_block _)]
      exact (Session.Names.of_block (leads.stem.trans flattens.stem) _ _).mono leads ⟨rfl,
        Nat.le_refl _⟩
    · intro name member unbound
      rw [List.mem_singleton.1 member, NameMap.find?_insert_self] at unbound
      cases unbound
  | .project columns input, flat, env, s, t, plan, flattens => by
    obtain ⟨flatInput, envInput, u, runInput, inner, _, outputs, runColumns, rfl, rfl⟩ :=
      yields_flatten_project.1 flattens.run
    rw [everywhere_project] at plan
    have leads := (input.flatten_advances x.permissive).leads runInput
    have named : Named x (.project columns input) (ofOutputs outputs flatInput)
        (OutputColumn.withAliases columns envInput (OutputColumn.bindings outputs)) u t :=
      .project (leads.stem.trans flattens.stem) plan.1.1 runColumns
    exact ⟨named.names.mono leads (.refl t), named.unbound⟩
  | .restrict predicate input, flat, env, s, t, plan, flattens => by
    obtain ⟨flatInput, u, inner, part, runInput, _, runPredicate, restriction⟩ :=
      yields_flatten_restrict.1 flattens.run
    rw [everywhere_restrict] at plan
    exact (named_of_flattens plan.2.2 ⟨flattens.stem, runInput⟩).congr
      ((predicate.flatten_advances x.permissive env inner).leads runPredicate) rfl
      (outputNames_flattenRestriction restriction) fun _ => rfl
  | .combine op left right, flat, env, s, t, plan, flattens => by
    rw [everywhere_combine] at plan
    obtain ⟨node, planLeft, planRight⟩ := plan
    obtain ⟨flatLeft, leftEnv, u, flatRight, rightEnv, flattensLeft, flattensRight, combined⟩ :=
      combined_of_flattens flattens
    have before := flattensLeft.leads
    have behind := flattensRight.leads
    have hl := named_of_flattens planLeft flattensLeft
    have hr := named_of_flattens planRight flattensRight
    have declares := declared_outputNames (declaring_of_naming planLeft)
    cases op with
    | product =>
      obtain ⟨rfl, bound⟩ := combined.product_eq
      exact Named.product before behind hl hr bound
    | quotient => exact hl.of_quotient hr flattensLeft behind declares node.2 combined
    | union | intersection | difference =>
      obtain ⟨aligned, rfl, same⟩ := combined.setOperation_eq (by simp) (by simp)
      exact hl.congr behind rfl rfl same
  | .grouping columns input, flat, env, s, t, plan, flattens => by
    obtain ⟨_, _, _, _, _, _, flats, runGroups, rfl, _⟩ := yields_flatten_grouping.1 flattens.run
    exact .of_declared (declared_outputNames (declaring_of_naming plan)) (names_of_groups runGroups)
  | .order keys input, flat, env, s, t, plan, flattens => by
    obtain ⟨flatInput, u, inner, flats, runInput, _, runKeys, rfl⟩ :=
      yields_flatten_order.1 flattens.run
    rw [everywhere_order] at plan
    exact (named_of_flattens plan.2.2 ⟨flattens.stem, runInput⟩).congr
      ((Query.flattenKeys_advances _ x.permissive env inner).leads runKeys) rfl rfl fun _ => rfl
  | .top _ _ input, flat, env, s, t, plan, flattens => by
    obtain ⟨flatInput, runInput, rfl⟩ := yields_flatten_top.1 flattens.run
    rw [everywhere_top] at plan
    exact (named_of_flattens plan.2 ⟨flattens.stem, runInput⟩).congr (.refl t) rfl rfl
      fun _ => rfl

end Query

end FlatPlan
