import FlatPlan.Proofs.Admissible
import FlatPlan.Proofs.Representation

/-!
# Columns of a flat query

`Environment.expand` replaces each structured column of a schema, in place, by the flat columns that
the environment names for it. `Query.FlatForm` is what flattening a query keeps up: the flat query
has the expanded schema, nothing structured is left in it, and the flat columns of a structured
column are drawn during the run. Main statement: over the flat columns every attribute of the schema
is read as a value of its type (`Query.FlatForm.scope`).
-/

namespace FlatPlan

/-- The columns that the leaves of a flat form refer to. -/
def Expr.leafNames (e : Expr) : List String :=
  e.leaves.filterMap fun
    | .attr name => some name
    | _ => none

namespace Environment

/-- The flat columns of a column. -/
def expandColumn (env : Environment) (c : Column) : List Column :=
  match c.2.layout? with
  | some l => (env.resolve c.1).leafNames.zip (l.columns.map Prod.snd)
  | none => [c]

/-- The flat columns of a schema, in the order of its columns. -/
def expand (env : Environment) (schema : Schema) : Schema :=
  ⟨schema.columns.flatMap env.expandColumn⟩

/-- A structured column is bound to references, one for each column of its layout, and no other
column is bound. -/
def Carries (env : Environment) (c : Column) : Prop :=
  match c.2.layout? with
  | some l => ∃ names : List String, env.find? c.1 = some (.tuple (names.map .attr)) ∧
      names.length = l.columns.length
  | none => env.find? c.1 = none

end Environment

/-- What a flat query and its environment are for a schema, after a run from `s` to `t`. -/
structure Query.FlatForm (v : Vocabulary) (schema : Schema) (s : PassState) (flat : Query)
    (env : Environment) (t : PassState) : Prop where
  typed : flat.schemaOf v.checked = .ok (env.expand schema)
  nodes : flat.Everywhere v.flatPlan
  carries : ∀ c ∈ schema.columns, env.Carries c
  drawn : ∀ c ∈ schema.columns, ∀ d ∈ env.expandColumn c, d = c ∨ s.Draws t d.1
  distinct : (env.expand schema).names.Nodup

/-- How expressions over a schema are read over flat rows. -/
structure Scope (v : Vocabulary) (schema : Schema) (env : Environment) (rows : Schema) : Prop where
  named : schema.NamedBy v
  reads : ∀ {free : Prop} {name : String} {type : Ty}, schema.get? name = some type →
    Represents v rows free (env.resolve name) type

variable {v : Vocabulary} {schema : Schema} {env : Environment} {c : Column}

namespace Expr

theorem leaves_of_noTuple {e : Expr} (noTuple : e.isTuple = false) : e.leaves = [e] := by
  cases e with
  | tuple items => cases noTuple
  | _ => rfl

theorem itemLeaves_map_attr (names : List String) :
    itemLeaves (names.map .attr) = names.map .attr := by
  induction names with
  | nil => rfl
  | cons name names ih => simp only [List.map_cons, itemLeaves, leaves, ih, List.singleton_append]

theorem leaves_tuple_attrs (names : List String) :
    (Expr.tuple (names.map .attr)).leaves = names.map .attr := by
  rw [leaves, itemLeaves_map_attr]

theorem leafNames_of_leaves {e : Expr} {names : List String} (leaves : e.leaves = names.map .attr) :
    e.leafNames = names := by
  rw [leafNames, leaves, List.filterMap_map]
  exact List.filterMap_some

theorem leafNames_tuple_attrs (names : List String) :
    (Expr.tuple (names.map .attr)).leafNames = names := by
  rw [leafNames, leaves_tuple_attrs, List.filterMap_map]
  exact List.filterMap_some

end Expr

namespace Environment

theorem carries_unstructured (unstructured : c.2.layout? = none) : env.Carries c ↔
    env.find? c.1 = none := by
  simp only [Carries, unstructured]

theorem carries_structured {l : Layout} (layout : c.2.layout? = some l) :
    env.Carries c ↔ ∃ names : List String, env.find? c.1 = some (.tuple (names.map .attr)) ∧
      names.length = l.columns.length := by
  simp only [Carries, layout]

theorem expandColumn_unstructured (unstructured : c.2.layout? = none) :
    env.expandColumn c = [c] := by
  simp only [expandColumn, unstructured]

theorem expandColumn_structured {l : Layout} (layout : c.2.layout? = some l) {names : List String}
    (bound : env.find? c.1 = some (.tuple (names.map .attr))) :
    env.expandColumn c = names.zip (l.columns.map Prod.snd) := by
  simp only [expandColumn, layout, resolve, bound, Option.getD_some, Expr.leafNames_tuple_attrs]

/-- The flat columns of a column depend on its binding only. -/
theorem expandColumn_congr {env' : Environment} (same : env.find? c.1 = env'.find? c.1) :
    env.expandColumn c = env'.expandColumn c := by
  simp only [expandColumn, resolve, same]

theorem Carries.congr {env' : Environment} (same : env.find? c.1 = env'.find? c.1)
    (h : env.Carries c) : env'.Carries c := by
  unfold Carries at h ⊢
  rw [← same]
  exact h

/-- Without structured columns nothing is expanded. -/
theorem expand_of_unstructured (unstructured : ∀ c ∈ schema.columns, c.2.layout? = none) :
    env.expand schema = schema := by
  unfold expand
  have columns : schema.columns.flatMap env.expandColumn = schema.columns :=
    (List.flatMap_congr fun c member => expandColumn_unstructured (unstructured c member)).trans
      (List.flatMap_singleton' _)
  rw [columns]

theorem mem_expand {d : Column} :
    d ∈ (env.expand schema).columns ↔ ∃ c ∈ schema.columns, d ∈ env.expandColumn c := by
  rw [expand, List.mem_flatMap]

end Environment

namespace Query.FlatForm

variable {s t : PassState} {flat : Query}

/-- Without structured columns the flat query has the columns of the schema. -/
theorem unchanged (typed : flat.schemaOf v.checked = .ok schema)
    (nodes : flat.Everywhere v.flatPlan) (unstructured : ∀ c ∈ schema.columns, c.2.layout? = none)
    (distinct : schema.names.Nodup) :
    FlatForm v schema s flat .empty t where
  typed := by rw [Environment.expand_of_unstructured unstructured, typed]
  nodes := nodes
  carries c member := (Environment.carries_unstructured (unstructured c member)).2 rfl
  drawn c member d part := by
    rw [Environment.expandColumn_unstructured (unstructured c member)] at part
    exact .inl (List.mem_singleton.1 part)
  distinct := by rw [Environment.expand_of_unstructured unstructured]; exact distinct

/-- A single structured column becomes the drawn columns of its layout. -/
theorem single {name : String} {type : Ty} {l : Layout} {names : List String}
    (layout : type.layout? = some l) (length : names.length = l.columns.length)
    (distinct : names.Nodup)
    (drawn : ∀ name ∈ names, s.Draws t name)
    (typed : flat.schemaOf v.checked = .ok ⟨names.zip (l.columns.map Prod.snd)⟩)
    (nodes : flat.Everywhere v.flatPlan) :
    FlatForm v ⟨[(name, type)]⟩ s flat
      (NameMap.empty.insert name (.tuple (names.map .attr))) t := by
  have only : ∀ {c : Column}, c ∈ [(name, type)] → c = (name, type) := List.mem_singleton.1
  have bound := NameMap.find?_insert_self NameMap.empty name (Expr.tuple (names.map .attr))
  have expanded := Environment.expandColumn_structured (c := (name, type)) layout bound
  have whole : Environment.expand (NameMap.empty.insert name (.tuple (names.map .attr)))
      ⟨[(name, type)]⟩ = ⟨names.zip (l.columns.map Prod.snd)⟩ := by
    rw [Environment.expand, List.flatMap_singleton, expanded]
  refine ⟨whole ▸ typed, nodes, ?_, ?_, ?_⟩
  · intro c member
    rw [only member, Environment.carries_structured layout]
    exact ⟨names, bound, length⟩
  · intro c member d part
    rw [only member, expanded] at part
    exact .inr (drawn d.1 (List.of_mem_zip part).1)
  · rw [whole, Schema.names, List.map_fst_zip (Nat.le_of_eq (by rw [List.length_map, length]))]
    exact distinct

/-- A flat query is made of the words of the vocabulary. -/
theorem words (form : FlatForm v schema s flat env t) : flat.Everywhere v.wording :=
  form.nodes.left

theorem named (form : FlatForm v schema s flat env t) : (env.expand schema).NamedBy v :=
  (schemaOf_permissive form.words form.typed).1

/-- Permissive mode finds the expanded schema too. -/
theorem permissive (form : FlatForm v schema s flat env t) :
    flat.schemaOf v.permissive = .ok (env.expand schema) :=
  (schemaOf_permissive form.words form.typed).2

/-- A flat column is a column of the schema or drawn during the run. -/
theorem mem_or_drawn (form : FlatForm v schema s flat env t) {d : Column}
    (member : d ∈ (env.expand schema).columns) : d ∈ schema.columns ∨ s.Draws t d.1 := by
  obtain ⟨c, among, part⟩ := Environment.mem_expand.1 member
  rcases form.drawn c among d part with rfl | draws
  · exact .inl among
  · exact .inr draws

/-- Every attribute is read as a value of its type. -/
theorem scope (form : FlatForm v schema s flat env t) (named : schema.NamedBy v) :
    Scope v schema env (env.expand schema) where
  named := named
  reads {free name type} found := by
    have member := Schema.mem_of_get? found
    have carries := form.carries _ member
    have get : ∀ d ∈ env.expandColumn (name, type), (env.expand schema).get? d.1 = some d.2 :=
      fun d part => Schema.get?_of_mem form.distinct (Environment.mem_expand.2 ⟨_, member, part⟩)
    cases layout : type.layout? with
    | none =>
      rw [Environment.expandColumn_unstructured layout] at get
      rw [Environment.carries_unstructured layout] at carries
      have itself : env.resolve name = .attr name := by
        rw [Environment.resolve, carries, Option.getD_none]
      rw [itself]
      exact .leaf (.attr (Ty.isStructured_eq_false.2 layout) (named _ member)
        (get (name, type) List.mem_cons_self))
    | some l =>
      obtain ⟨names, bound, length⟩ := (Environment.carries_structured layout).1 carries
      rw [Environment.expandColumn_structured layout bound] at get
      have tuple : env.resolve name = .tuple (names.map .attr) := by
        rw [Environment.resolve, bound, Option.getD_some]
      rw [tuple]
      refine .tuple (Ty.components?_of_layout? layout) (representAll_iff.2 ?_)
      rw [List.forall₂_map_left_iff, List.forall₂_iff_zip, List.length_map]
      refine ⟨length, fun {column columnType} part => ?_⟩
      obtain ⟨_, own⟩ := List.of_mem_zip part
      obtain ⟨c, among, rfl⟩ := List.mem_map.1 own
      obtain ⟨namedColumn, unstructured, _⟩ := v.layout_columns (named _ member) layout c among
      exact .leaf (.attr unstructured namedColumn (get _ part))

end Query.FlatForm

end FlatPlan
