import FlatPlan.Proofs.CombineRuns
import FlatPlan.Proofs.PartRuns
import FlatPlan.Proofs.Shapes

/-!
# Bindings of an environment

What a run binds structured attributes to. Spreading a value gives one fresh column to each of its
leaves (`Expr.spreads_of_yields`), and an environment is built from such columns only: every binding
that a run answers is a tuple of references to different columns, all drawn during the run
(`Query.bindings_drawn`). This holds of every query, accepted or not.
-/

namespace FlatPlan

open Pass

theorem PassState.block_append (s : PassState) (m n : Nat) :
    s.block (m + n) = s.block m ++ (s.after m).block n := by
  induction m generalizing s with
  | zero => simp [block, after]
  | succ m ih =>
    rw [Nat.succ_add, block_succ, block_succ, ih, after_after, Nat.add_comm 1 m, List.cons_append]

variable {check : Regime} {s t : PassState} {env : Environment}

/-! ## Spread values -/

/-- What spreading a value answers: references in place of its leaves, and the columns that carry
them. -/
structure Expr.Spreads (e : Expr) (s : PassState) (refs : Expr) (columns : List (String × Expr))
    (t : PassState) : Prop where
  leaves : refs.leaves = (s.block e.leaves.length).map .attr
  carried : columns = (s.block e.leaves.length).zip e.leaves
  shape : refs.shape = e.shape
  after : t = s.after e.leaves.length

namespace Expr

theorem zip_append_block {m n : Nat} {es es' : List Expr} (length : es.length = m) :
    (s.block (m + n)).zip (es ++ es') = (s.block m).zip es ++ ((s.after m).block n).zip es' := by
  rw [PassState.block_append, List.zip_append]
  rw [PassState.length_block, length]

theorem spread_leaf {e : Expr} {r : Expr × List (String × Expr)} (noTuple : e.isTuple = false)
    (run : e.spread.Yields s r t) : e.Spreads s r.1 r.2 t := by
  rw [spread_of_noTuple noTuple, yields_bind] at run
  obtain ⟨name, u, first, last⟩ := run
  obtain ⟨rfl, rfl⟩ := yields_fresh.1 first
  obtain ⟨rfl, rfl⟩ := yields_pure.1 last
  have leaves := leaves_of_noTuple noTuple
  refine ⟨?_, ?_, ?_, ?_⟩
  · rw [leaves]; rfl
  · rw [leaves]; rfl
  · rw [shape_of_noTuple noTuple]; rfl
  · rw [leaves]; rfl

mutual

/-- Every leaf of a value is spread over the next name. -/
theorem spreads_of_yields : ∀ {e : Expr} {r : Expr × List (String × Expr)} {s t : PassState},
    e.spread.Yields s r t → e.Spreads s r.1 r.2 t
  | .tuple items, r, s, t, run => by
    rw [spread, yields_bind] at run
    obtain ⟨⟨refs, columns⟩, u, spreadItems, last⟩ := run
    obtain ⟨rfl, rfl⟩ := yields_pure.1 last
    obtain ⟨leaves, carried, shapes, rfl⟩ := spreadItems_of_yields spreadItems
    exact ⟨leaves, carried, congrArg Shape.tuple shapes, rfl⟩
  | .attr _, _, _, _, run | .const _ _, _, _, _, run | .null _, _, _, _, run
  | .apply _ _, _, _, _, run | .aggregate _ _, _, _, _, run | .multiAggregate _ _, _, _, _, run
  | .case _ _, _, _, _, run | .scalarSubquery _, _, _, _, run | .setSubquery _, _, _, _, run =>
    spread_leaf rfl run

theorem spreadItems_of_yields :
    ∀ {es : List Expr} {r : List Expr × List (String × Expr)} {s t : PassState},
    (spreadItems es).Yields s r t →
    itemLeaves r.1 = (s.block (itemLeaves es).length).map .attr ∧
      r.2 = (s.block (itemLeaves es).length).zip (itemLeaves es) ∧ shapes r.1 = shapes es ∧
      t = s.after (itemLeaves es).length
  | [], r, s, t, run => by
    rw [spreadItems, yields_pure] at run
    obtain ⟨rfl, rfl⟩ := run
    exact ⟨rfl, rfl, rfl, rfl⟩
  | e :: es, r, s, t, run => by
    simp only [spreadItems, yields_bind, yields_pure] at run
    obtain ⟨⟨ref, columns⟩, u, first, ⟨refs, rest⟩, w, others, rfl, rfl⟩ := run
    obtain ⟨leaves, carried, shape, rfl⟩ := spreads_of_yields first
    obtain ⟨leaves', carried', shapes, rfl⟩ := spreadItems_of_yields others
    simp only [itemLeaves, List.length_append, Expr.shapes]
    refine ⟨?_, ?_, ?_, ?_⟩
    · rw [leaves, leaves', PassState.block_append, List.map_append]
    · rw [zip_append_block rfl, ← carried, ← carried']
    · rw [shape, shapes]
    · rw [PassState.after_after]

end

end Expr

/-! ## Output columns -/

namespace OutputColumn

/-- What an output column is, given the flat form of what it computes: a scalar under its own name,
or a tuple spread over fresh columns. -/
structure Carries (o : OutputColumn) (name : String) (part : Flattened)
    (s t : PassState) : Prop where
  named : o.name = name
  queries : o.queries = part.queries
  restrictions : o.restrictions = part.restrictions
  carried : (part.expr.isTuple = false ∧ o.refs = none ∧ o.columns = [(name, part.expr)] ∧ t = s) ∨
    (part.expr.isTuple = true ∧ ∃ refs, o.refs = some refs ∧ part.expr.Spreads s refs o.columns t)

theorem carries_of_yields {name : String} {part : Flattened} {o : OutputColumn}
    (run : (ofFlattened name part).Yields s o t) : o.Carries name part s t := by
  unfold ofFlattened at run
  rcases yields_ite.1 run with ⟨isTuple, run⟩ | ⟨noTuple, run⟩
  · rw [yields_bind] at run
    obtain ⟨⟨refs, columns⟩, u, spread, last⟩ := run
    obtain ⟨rfl, rfl⟩ := yields_pure.1 last
    exact ⟨rfl, rfl, rfl, .inr ⟨isTuple, refs, rfl, Expr.spreads_of_yields spread⟩⟩
  · obtain ⟨rfl, rfl⟩ := yields_pure.1 run
    exact ⟨rfl, rfl, rfl, .inl ⟨by simpa using noTuple, rfl, rfl, rfl⟩⟩

/-- The references of an output column have the shape of what it computes. -/
theorem Carries.refs {o : OutputColumn} {name : String} {part : Flattened}
    (h : o.Carries name part s t) :
    (part.expr.isTuple = false ∧ o.refs = none) ∨
      (part.expr.isTuple = true ∧ ∃ refs, o.refs = some refs ∧ refs.shape = part.expr.shape) := by
  rcases h.carried with ⟨noTuple, refs, _⟩ | ⟨isTuple, refs, bound, spread⟩
  · exact .inl ⟨noTuple, refs⟩
  · exact .inr ⟨isTuple, refs, bound, spread.shape⟩

/-- What a flat column computes is a leaf of the flat form. -/
theorem Carries.mem_leaves {o : OutputColumn} {name : String} {part : Flattened}
    (h : o.Carries name part s t) {c : String × Expr} (member : c ∈ o.columns) :
    c.2 ∈ part.expr.leaves := by
  rcases h.carried with ⟨noTuple, _, columns, _⟩ | ⟨_, refs, _, spread⟩
  · rw [columns] at member
    rw [List.mem_singleton.1 member, Expr.leaves_of_noTuple noTuple]
    exact List.mem_singleton.2 rfl
  · rw [spread.carried] at member
    exact (List.of_mem_zip member).2

variable {outputs : List OutputColumn} {name : String} {rep : Expr}

theorem find?_bindings_eq : (bindings outputs).find? name =
    (outputs.filterMap fun o => o.refs.map fun refs => (o.name, refs)).reverse.lookup name := by
  rw [bindings, NameMap.ofList, NameMap.find?_insertAll, NameMap.find?_empty, Option.or_none]

/-- A binding is that of an output column. -/
theorem exists_of_find?_bindings (bound : (bindings outputs).find? name = some rep) :
    ∃ o ∈ outputs, o.name = name ∧ o.refs = some rep := by
  rw [find?_bindings_eq] at bound
  obtain ⟨before, after, equal, _⟩ := List.lookup_eq_some_iff.1 bound
  have member : (name, rep) ∈ outputs.filterMap fun o => o.refs.map fun refs => (o.name, refs) := by
    rw [← List.mem_reverse, equal]
    simp
  obtain ⟨o, among, entry⟩ := List.mem_filterMap.1 member
  obtain ⟨refs, own, pair⟩ := Option.map_eq_some_iff.1 entry
  cases pair
  exact ⟨o, among, rfl, own⟩

/-- An output column whose name is not bound is a scalar. -/
theorem refs_of_find?_bindings (unbound : (bindings outputs).find? name = none) {o : OutputColumn}
    (member : o ∈ outputs) (named : o.name = name) : o.refs = none := by
  rw [find?_bindings_eq, List.lookup_eq_none_iff] at unbound
  cases refs : o.refs with
  | none => rfl
  | some own =>
    have entry : (o.name, own) ∈ outputs.filterMap fun o => o.refs.map fun refs => (o.name, refs) :=
      List.mem_filterMap.2 ⟨o, member, by rw [refs]; rfl⟩
    have other := unbound _ (List.mem_reverse.2 entry)
    rw [bne_iff_ne] at other
    exact absurd named.symm other

variable {columns : List (String × Expr)} {bound : Environment}

/-- An alias is bound as some declared column is. -/
theorem exists_of_find?_withAliases
    (found : (withAliases columns env bound).find? name = some rep) :
    ∃ other, bound.find? other = some rep := by
  revert name rep
  rw [withAliases_eq_foldl]
  refine List.foldlRecOn (motive := fun env' : Environment => ∀ {name : String} {rep : Expr},
    env'.find? name = some rep → ∃ other, bound.find? other = some rep) columns _ (fun found =>
      ⟨_, found⟩) ?_
  intro env' known c _ name rep found
  rcases find?_addAlias columns env env' c name with kept | ⟨own, undeclared, input, unbound⟩
  · exact known (kept.symm.trans found)
  · rw [find?_addAlias_attr own undeclared input unbound] at found
    exact known found

/-- A binding besides those of the declared columns is that of a renamed attribute. -/
theorem find?_bound_or_attr (found : (withAliases columns env bound).find? name = some rep) :
    bound.find? name = some rep ∨ ∃ c ∈ columns, c.2 = .attr name := by
  revert name rep
  rw [withAliases_eq_foldl]
  refine List.foldlRecOn (motive := fun env' : Environment => ∀ {name : String} {rep : Expr},
    env'.find? name = some rep → bound.find? name = some rep ∨ ∃ c ∈ columns, c.2 = .attr name)
      columns _
    (fun found => .inl found) ?_
  intro env' known c member name rep found
  rcases find?_addAlias columns env env' c name with kept | ⟨own, _⟩
  · exact known (kept.symm.trans found)
  · exact .inr ⟨c, member, own⟩

end OutputColumn

/-! ## Environments -/

/-- Values of one shape are both tuples or both none. -/
theorem Expr.isTuple_of_shape {e d : Expr} (same : e.shape = d.shape) : e.isTuple = d.isTuple := by
  cases tuple : d.isTuple with
  | false => exact isTuple_eq_false_of_shape same tuple
  | true =>
    by_contra other
    rw [Bool.not_eq_true] at other
    rw [isTuple_eq_false_of_shape same.symm other] at tuple
    cases tuple

/-- A tuple of references to different columns that are drawn during a run. -/
structure Expr.Refers (rep : Expr) (s t : PassState) : Prop where
  isTuple : rep.isTuple = true
  leaves : rep.leaves = rep.leafNames.map .attr
  distinct : rep.leafNames.Nodup
  drawn : ∀ name ∈ rep.leafNames, s.Draws t name

/-- Every binding is a tuple of references to columns drawn during a run. -/
def Environment.Drawn (env : Environment) (s t : PassState) : Prop :=
  ∀ name rep, env.find? name = some rep → rep.Refers s t

theorem Expr.Refers.mono {rep : Expr} {s' t' : PassState} (h : rep.Refers s t) (before : s'.Leads s)
    (behind : t.Leads t') : rep.Refers s' t' :=
  ⟨h.isTuple, h.leaves, h.distinct, fun name member => (h.drawn name member).mono before behind⟩

/-- References to the next names. -/
theorem Expr.refers_block {rep : Expr} {n : Nat} (isTuple : rep.isTuple = true)
    (leaves : rep.leaves = (s.block n).map .attr) : rep.Refers s (s.after n) := by
  have names := leafNames_of_leaves leaves
  refine ⟨isTuple, by rw [names]; exact leaves, by rw [names]; exact s.nodup_block n, ?_⟩
  rw [names]
  exact fun name member => PassState.draws_of_mem_block member

theorem OutputColumn.Carries.refers {o : OutputColumn} {name : String} {part : Flattened}
    {rep : Expr} (h : o.Carries name part s t) (refs : o.refs = some rep) : rep.Refers s t := by
  rcases h.carried with ⟨_, none, _⟩ | ⟨isTuple, own, bound, spread⟩
  · cases none.symm.trans refs
  · cases bound.symm.trans refs
    rw [spread.after]
    exact Expr.refers_block ((Expr.isTuple_of_shape spread.shape).trans isTuple) spread.leaves

namespace Environment

theorem Drawn.mono {s' t' : PassState} (h : env.Drawn s t) (before : s'.Leads s)
    (behind : t.Leads t') :
    env.Drawn s' t' :=
  fun name rep bound => (h name rep bound).mono before behind

theorem drawn_empty : Drawn .empty s t := by
  intro name rep bound
  rw [NameMap.find?_empty] at bound
  cases bound

end Environment

namespace Query

/-- Each output column has the name of the column it stands for. -/
theorem names_of_flattenColumns {schema : Schema} {columns : List (String × Expr)}
    {outputs : List OutputColumn}
    (run : (flattenColumns check env schema columns).Yields s outputs t) :
    outputs.map (·.name) = columns.map Prod.fst := by
  have each := flattenColumns_within run
  clear run
  induction each with
  | nil => rfl
  | cons first _ ih =>
    obtain ⟨part, _, _, _, _, output, _⟩ := first
    rw [List.map_cons, List.map_cons, ih, (OutputColumn.carries_of_yields output).named]

/-- A projection binds the names of its columns and of attributes that it renames, and no other. -/
theorem unbound_of_project {columns : List (String × Expr)} {input flat : Query} {name : String}
    (run : ((project columns input).flatten check).Yields s (flat, env) t)
    (other : ∀ c ∈ columns, c.1 ≠ name ∧ c.2 ≠ .attr name) : env.find? name = none := by
  obtain ⟨_, _, _, _, _, _, outputs, runColumns, _, rfl⟩ := yields_flatten_project.1 run
  rw [Option.eq_none_iff_forall_ne_some]
  intro rep found
  rcases OutputColumn.find?_bound_or_attr found with own | ⟨c, member, renamed⟩
  · obtain ⟨o, member, named, _⟩ := OutputColumn.exists_of_find?_bindings own
    have declared : name ∈ columns.map Prod.fst := by
      rw [← names_of_flattenColumns runColumns, ← named]
      exact List.mem_map.2 ⟨o, member, rfl⟩
    obtain ⟨c, member, equal⟩ := List.mem_map.1 declared
    exact (other c member).1 equal
  · exact (other c member).2 renamed

/-- The binding of a projection's column or alias. -/
theorem bindings_drawn_of_columns {inner : Schema} {envInput : Environment}
    {columns : List (String × Expr)} {outputs : List OutputColumn}
    (run : (flattenColumns check envInput inner columns).Yields s outputs t) :
    (OutputColumn.withAliases columns envInput (OutputColumn.bindings outputs)).Drawn s t := by
  intro name rep bound
  obtain ⟨other, own⟩ := OutputColumn.exists_of_find?_withAliases bound
  obtain ⟨o, member, _, refs⟩ := OutputColumn.exists_of_find?_bindings own
  obtain ⟨c, _, part, _, u, w, before, output, behind⟩ :=
    exists_of_mem_right (flattenColumns_within run) member
  exact ((OutputColumn.carries_of_yields output).refers refs).mono before behind

/-- Every binding that a run answers is a tuple of references to columns drawn during the run. -/
theorem bindings_drawn : ∀ {q flat : Query} {env : Environment} {s t : PassState},
    (q.flatten check).Yields s (flat, env) t → env.Drawn s t
  | .empty, flat, env, s, t, run => by
    obtain ⟨_, rfl, _⟩ := yields_flatten_empty.1 run
    exact Environment.drawn_empty
  | .table _ _, flat, env, s, t, run => by
    obtain ⟨_, rfl, _⟩ := yields_flatten_table.1 run
    exact Environment.drawn_empty
  | .galaxy g, flat, env, s, t, run => by
    obtain ⟨underlying, _, u, schema, renamed, runQuery, _, _, equal, rfl⟩ :=
      yields_flatten_galaxy.1 run
    cases equal
    intro name rep bound
    have leads := (g.query.flatten_advances check).leads runQuery
    rw [NameMap.find?_insert] at bound
    split at bound
    · cases bound
      exact (Expr.refers_block rfl (Expr.leaves_tuple_attrs _)).mono leads ⟨rfl, Nat.le_refl _⟩
    · cases bound
  | .project columns input, flat, env, s, t, run => by
    obtain ⟨flatInput, envInput, u, runInput, inner, _, outputs, runColumns, _, rfl⟩ :=
      yields_flatten_project.1 run
    exact (bindings_drawn_of_columns runColumns).mono
      ((input.flatten_advances check).leads runInput) (.refl t)
  | .restrict predicate input, flat, env, s, t, run => by
    obtain ⟨flatInput, u, inner, part, runInput, _, runPredicate, _⟩ :=
      yields_flatten_restrict.1 run
    exact (bindings_drawn runInput).mono (.refl s)
      ((predicate.flatten_advances check env inner).leads runPredicate)
  | .combine op left right, flat, env, s, t, run => by
    obtain ⟨flatLeft, leftEnv, u, flatRight, rightEnv, runLeft, runRight, combined⟩ :=
      combined_of_yields run
    intro name rep bound
    rcases combined.find? bound with own | own
    · exact (bindings_drawn runLeft name rep own).mono (.refl s)
        ((right.flatten_advances check).leads runRight)
    · exact (bindings_drawn runRight name rep own).mono
        ((left.flatten_advances check).leads runLeft) (.refl t)
  | .grouping columns input, flat, env, s, t, run => by
    obtain ⟨_, _, _, _, _, _, _, _, _, rfl⟩ := yields_flatten_grouping.1 run
    exact Environment.drawn_empty
  | .order keys input, flat, env, s, t, run => by
    obtain ⟨flatInput, u, inner, flats, runInput, _, runKeys, _⟩ := yields_flatten_order.1 run
    have leads := (Query.flattenKeys_advances _ check env inner).leads runKeys
    exact (bindings_drawn runInput).mono (.refl s) leads
  | .top _ _ input, flat, env, s, t, run => by
    obtain ⟨flatInput, runInput, _⟩ := yields_flatten_top.1 run
    exact bindings_drawn runInput

end Query

end FlatPlan
