import FlatPlan.Proofs.FlatNames
import FlatPlan.Proofs.LookupCounts

/-!
# A restriction keeps the columns

The flat form of a restriction has the columns of the flat input, with their types and in their
order, and its environment is that of the input (`Query.restriction_keeps`). Where the predicate
looks nothing up this is a single restriction of the flat input. Otherwise the joined queries stand
behind the flat input in a product, so that all columns of the input are in front
(`Query.extends_of_productAll`), and a projection to the names in front gives these columns back
(`Query.columnsOf_references`).
-/

namespace FlatPlan

open Pass

variable {check : TypeCheck}

namespace Schema

variable {schema left right : Schema}

/-- A schema with the columns of another in front, and perhaps more behind them. -/
def Extends (schema left : Schema) : Prop := ∃ rest, schema.columns = left.columns ++ rest

namespace Extends

theorem refl (s : Schema) : s.Extends s := ⟨[], (List.append_nil _).symm⟩

theorem trans {middle : Schema} (h : schema.Extends middle) (h' : middle.Extends left) :
    schema.Extends left := by
  obtain ⟨behind, equal⟩ := h
  obtain ⟨rest, equal'⟩ := h'
  exact ⟨rest ++ behind, by rw [equal, equal', List.append_assoc]⟩

/-- The columns in front are the ones that their names mean. -/
theorem get? (h : schema.Extends left) (distinct : left.names.Nodup) {c : Column}
    (member : c ∈ left.columns) :
    schema.get? c.1 = some c.2 := by
  obtain ⟨rest, equal⟩ := h
  have own : left.columns.lookup c.1 = some c.2 := get?_of_mem distinct member
  rw [Schema.get?, equal, List.lookup_append, own, Option.some_or]

end Extends

/-- A product has all columns of the left operand in front, in both modes. -/
theorem extends_of_product (h : product check left right = .ok schema) : schema.Extends left := by
  unfold product at h
  refine foldlM_invariant (motive := fun before : Schema => before.Extends left) (.refl left)
    (fun before c next extended step => ?_) h
  -- A step either keeps the columns or adds one at the end.
  split at step
  · split at step
    · cases step
    · exact Except.ok.inj step ▸ extended
  · rw [← Except.ok.inj step]
    exact .trans ⟨[(c.1, c.2)], rfl⟩ extended

end Schema

namespace Query

variable {schema visible : Schema}

/-- Tests change no columns. -/
theorem schemaOf_of_restrictAll {predicates : List Expr} {q : Query}
    (h : (restrictAll predicates q).schemaOf check = .ok schema) :
    q.schemaOf check = .ok schema := by
  unfold restrictAll at h
  induction predicates generalizing q with
  | nil => exact h
  | cons predicate predicates ih => exact (schemaOf_restrict.1 (ih h)).1

theorem extends_of_combination {left right : Query}
    (h : (combination .product left right).schemaOf check = .ok schema) :
    ∃ own, left.schemaOf check = .ok own ∧ schema.Extends own := by
  rcases combination_product left right with ⟨rfl, _⟩ | ⟨rfl, equal⟩ | equal
  · exact ⟨.empty, schemaOf_empty.2 rfl, schema.columns, rfl⟩
  · exact ⟨schema, equal ▸ h, .refl schema⟩
  · obtain ⟨own, infer, _, _, combined⟩ := schemaOf_combine.1 (equal ▸ h)
    exact ⟨own, infer, Schema.extends_of_product combined⟩

/-- The product of a query with others has the columns of the query in front, however many the
others are. -/
theorem extends_of_productAll {q : Query} {others : List Query}
    (h : (productAll (q :: others)).schemaOf check = .ok schema) :
    ∃ own, q.schemaOf check = .ok own ∧ schema.Extends own := by
  rw [productAll, List.foldl_cons, combination_empty_left] at h
  induction others generalizing q with
  | nil => exact ⟨schema, h, .refl schema⟩
  | cons other others ih =>
    obtain ⟨both, infer, behind⟩ := ih h
    obtain ⟨own, inferOwn, rest⟩ := extends_of_combination infer
    exact ⟨own, inferOwn, behind.trans rest⟩

/-- References to the columns in front have the types of these columns. -/
theorem columnsOf_references {rows : Schema} {columns : List Column}
    (extended : rows.Extends visible) (distinct : visible.names.Nodup)
    (h : columnsOf check rows false (visible.columns.map fun c => (c.1, .attr c.1)) = .ok columns) :
    columns = visible.columns := by
  have each := columnsOf_eq_ok.1 h
  rw [List.forall₂_map_left_iff] at each
  have same : List.Forall₂ (fun c d => c = d) visible.columns columns := by
    refine forall₂_imp_of_mem each fun c member d _ column => ?_
    have type : rows.get? c.1 = some d.2 := Expr.typeOf_attr.1 column.typed
    rw [extended.get? distinct member] at type
    exact Prod.ext column.name.symm (Option.some.inj type)
  exact (List.forall₂_eq_eq_eq ▸ same : visible.columns = columns).symm

/-- The flat form of a restriction has the columns of the flat input. -/
theorem schemaOf_flattenRestriction {predicate : Expr} {part : Flattened} {input flat : Query}
    (known : input.schemaOf check = .ok visible) (distinct : visible.names.Nodup)
    (h : flattenRestriction check predicate part input = .ok flat)
    (typed : flat.schemaOf check = .ok schema) :
    schema = visible := by
  rcases flattenRestriction_cases h with ⟨_, rfl⟩ | ⟨_, own, infer, rfl⟩
  · exact Except.ok.inj ((schemaOf_of_restrictAll typed).symm.trans known)
  · cases Except.ok.inj (infer.symm.trans known)
    obtain ⟨rows, inferRows, columns⟩ := schemaOf_project.1 typed
    obtain ⟨front, inferFront, extended⟩ :=
      extends_of_productAll (schemaOf_of_restrictAll inferRows)
    cases Except.ok.inj (inferFront.symm.trans known)
    exact congrArg Schema.mk (columnsOf_references extended distinct columns)

/-- A predicate that looks nothing up is tested on the rows of the flat input. -/
theorem flattenRestriction_of_noLookup {predicate : Expr} {part : Flattened} {input flat : Query}
    (needs : part.Needs 0) (h : flattenRestriction check predicate part input = .ok flat) :
    flat = .restrict part.expr input := by
  have restrictions : part.restrictions = [] := List.eq_nil_of_length_eq_zero needs.restrictions
  rcases flattenRestriction_cases h with ⟨_, rfl⟩ | ⟨some, _⟩
  · rw [restrictions]
    rfl
  · exact absurd (List.eq_nil_of_length_eq_zero needs.queries) some

/-- A restriction changes neither the columns nor the environment, however much its predicate looks
up. One that looks nothing up is a single test of the flat predicate on the flat input. -/
theorem restriction_keeps {check : Regime} {predicate : Expr} {input flatInput flat : Query}
    {env envInput : Environment} {s u t : PassState}
    (runInput : (input.flatten check).runFrom s = (.ok (flatInput, envInput), u))
    (known : flatInput.schemaOf check = .ok visible) (distinct : visible.names.Nodup)
    (run : ((restrict predicate input).flatten check).runFrom s = (.ok (flat, env), t))
    (typed : flat.schemaOf check = .ok schema) :
    schema = visible ∧ env = envInput ∧
      (predicate.lookupCount = 0 → ∃ rows part, input.schemaOf check = .ok rows ∧
        (predicate.flatten check envInput rows).runFrom u = (.ok part, t) ∧
        flat = .restrict part.expr flatInput) := by
  obtain ⟨own, w, rows, part, runOwn, infer, runPredicate, restriction⟩ :=
    yields_flatten_restrict.1 run
  cases runOwn.symm.trans runInput
  refine ⟨schemaOf_flattenRestriction known distinct restriction typed, rfl, fun noLookup => ?_⟩
  have needs := Expr.needs_of_yields runPredicate
  rw [noLookup] at needs
  exact ⟨rows, part, infer, runPredicate, flattenRestriction_of_noLookup needs restriction⟩

end Query

namespace Sample

/-- The people beside the rows of a table. -/
def peopleWithRows : Query := .combine .product (.galaxy galaxyP) tableT

/-- Whether the nickname of the nickname of a row is some text. -/
def nicknamedTwice : Expr :=
  .apply (.comparison "=") [.apply nickname [.apply nickname [.attr "b"]],
    .const .string (.string "Ada")]

/-- Two lookups are joined for the test, and no column of them is left. -/
theorem peopleWithRows_kept : ∃ flatInput envInput u flat env t schema,
    (peopleWithRows.flatten session.permissive).runFrom start = (.ok (flatInput, envInput), u) ∧
    ((Query.restrict nicknamedTwice peopleWithRows).flatten session.permissive).runFrom start =
      (.ok (flat, env), t) ∧
    flat.schemaOf session.permissive = .ok schema ∧
    schema = ⟨[("gx_1", .string), ("gx_2", .string), ("a", .integer), ("b", .string)]⟩ ∧
    env = envInput := by
  refine ⟨_, _, _, _, _, _, _, rfl, rfl, rfl, ?_⟩
  have kept := @Query.restriction_keeps _
    ⟨[("gx_1", .string), ("gx_2", .string), ("a", .integer), ("b", .string)]⟩ session.permissive
      nicknamedTwice peopleWithRows _ _ _ _
    start _ _ rfl rfl (by decide) rfl rfl
  exact ⟨kept.1, kept.2.1⟩

end Sample

end FlatPlan
