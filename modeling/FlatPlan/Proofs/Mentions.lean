import FlatPlan.Proofs.Applications
import FlatPlan.Proofs.FlatNames
import FlatPlan.Proofs.SampleVocabulary

/-!
# Names that a plan mentions

The names of columns and the references to attributes that stand anywhere in a plan, inside
expressions, subqueries and the queries behind galaxies too. The names that an operator's own
definition holds do not count. A query mentions the names of its columns
(`Query.mentioned_outputNames`), and what flattening builds from queries and expressions mentions
nothing that they do not.
-/

namespace FlatPlan

mutual

/-- The names that an expression mentions. -/
def Expr.mentions : Expr → List String
  | .attr name => [name]
  | .const _ _ | .null _ => []
  | .apply _ args => Expr.itemMentions args
  | .tuple items => Expr.itemMentions items
  | .aggregate _ arg => arg.mentions
  | .multiAggregate _ args => Expr.itemMentions args
  | .case branches default => Expr.branchMentions branches ++ default.mentions
  | .scalarSubquery query => query.mentions
  | .setSubquery query => query.mentions

/-- The names that expressions mention. -/
def Expr.itemMentions : List Expr → List String
  | [] => []
  | e :: es => e.mentions ++ Expr.itemMentions es

/-- The names that the branches of a choice mention. -/
def Expr.branchMentions : List (Expr × Expr) → List String
  | [] => []
  | (condition, result) :: branches =>
    condition.mentions ++ result.mentions ++ Expr.branchMentions branches

/-- The names that a query mentions. -/
def Query.mentions : Query → List String
  | .empty => []
  | .table _ schema => schema.names
  | .galaxy ⟨name, _, _, query⟩ => name :: query.mentions
  | .project columns input => Query.columnMentions columns ++ input.mentions
  | .restrict predicate input => predicate.mentions ++ input.mentions
  | .combine _ left right => left.mentions ++ right.mentions
  | .grouping columns input => Query.columnMentions columns ++ input.mentions
  | .order keys input => Query.keyMentions keys ++ input.mentions
  | .top _ _ input => input.mentions

/-- The names of columns, and those that they mention. -/
def Query.columnMentions : List (String × Expr) → List String
  | [] => []
  | (name, e) :: columns => name :: e.mentions ++ Query.columnMentions columns

/-- The names that ordering keys mention. -/
def Query.keyMentions : List (Expr × Direction) → List String
  | [] => []
  | (e, _) :: keys => e.mentions ++ Query.keyMentions keys

end

/-- The bound names of an environment, and those that the bindings mention. -/
def Environment.mentions (env : Environment) : List String :=
  env.entries.flatMap fun entry => entry.1 :: entry.2.mentions

/-- The names that the parts of an application mention. -/
def Application.mentions (a : Application) : List String :=
  Expr.itemMentions a.args ++ Expr.itemMentions a.columns

/-- Whether the names that a node itself mentions satisfy a condition. -/
def NodeProperty.mentioning (known : String → Prop) : NodeProperty where
  expr
    | .attr name => known name
    | _ => True
  query := (declaring known).query

/-- Whether the operator that a node applies satisfies a condition and looks up a query of
`sources`, if any, and whether the constant that a node holds satisfies another. -/
def NodeProperty.relying (sources : Query → Prop) (applied : Operator → Prop)
    (stored : Ty → Value → Prop) :
    NodeProperty where
  expr
    | .apply op _ => applied op ∧ ∀ source, op.lookupSource? = some source → sources source
    | .const type value => stored type value
    | _ => True
  query _ := True

variable {own known : String → Prop}

/-- The names that an expression mentions itself are known if all own names are. -/
theorem NodeProperty.mentioning_expr (declared : ∀ name, own name → known name) :
    ∀ e, (mentioning own).expr e → (mentioning known).expr e
  | .attr name, h => declared name h
  | .const _ _, _ | .null _, _ | .apply _ _, _ | .tuple _, _ | .aggregate _ _, _
  | .multiAggregate _ _, _ | .case _ _, _ | .scalarSubquery _, _ | .setSubquery _, _ => trivial

/-- The names that a query mentions itself are known if all own names are. -/
theorem NodeProperty.mentioning_query (declared : ∀ name, own name → known name) :
    ∀ q, (mentioning own).query q → (mentioning known).query q
  | .table _ _, h => fun name member => declared name (h name member)
  | .galaxy _, h => declared _ h
  | .project _ _, h | .grouping _ _, h => fun c member => declared c.1 (h c member)
  | .empty, _ | .restrict _ _, _ | .combine _ _ _, _ | .order _ _, _ | .top _ _ _, _ => trivial

/-- What a plan mentions, whatever else is asked of its nodes. -/
theorem Query.mentioning_of_and {q : Query} {extra : NodeProperty}
    (declared : ∀ name, own name → known name)
    (plan : q.Everywhere ((NodeProperty.mentioning own).and extra)) :
    q.Everywhere (.mentioning known) :=
  Everywhere.imp (p := (NodeProperty.mentioning own).and extra)
    (fun e node => NodeProperty.mentioning_expr declared e node.1)
    (fun q node => NodeProperty.mentioning_query declared q node.1) plan

/-! ## Lists of names and single nodes -/

section Lists

theorem Expr.itemMentions_iff {es : List Expr} :
    (∀ name ∈ itemMentions es, known name) ↔ ∀ e ∈ es, ∀ name ∈ e.mentions, known name := by
  induction es with
  | nil => simp [itemMentions]
  | cons e es ih => rw [itemMentions, List.forall_mem_append, List.forall_mem_cons, ih]

theorem Expr.branchMentions_iff {bs : List (Expr × Expr)} :
    (∀ name ∈ branchMentions bs, known name) ↔
      ∀ b ∈ bs, (∀ name ∈ b.1.mentions, known name) ∧ ∀ name ∈ b.2.mentions, known name := by
  induction bs with
  | nil => simp [branchMentions]
  | cons b bs ih =>
    rw [branchMentions, List.forall_mem_append, List.forall_mem_append, List.forall_mem_cons, ih]

theorem Query.columnMentions_iff {cs : List (String × Expr)} :
    (∀ name ∈ columnMentions cs, known name) ↔
      (∀ c ∈ cs, known c.1) ∧ ∀ c ∈ cs, ∀ name ∈ c.2.mentions, known name := by
  induction cs with
  | nil => simp [columnMentions]
  | cons c cs ih =>
    rw [columnMentions, List.cons_append, List.forall_mem_cons, List.forall_mem_append,
      List.forall_mem_cons, List.forall_mem_cons, ih]
    exact ⟨fun h => ⟨⟨h.1, h.2.2.1⟩, h.2.1, h.2.2.2⟩, fun h => ⟨h.1.1, h.2.1, h.1.2, h.2.2⟩⟩

theorem Query.keyMentions_iff {ks : List (Expr × Direction)} :
    (∀ name ∈ keyMentions ks, known name) ↔ ∀ k ∈ ks, ∀ name ∈ k.1.mentions, known name := by
  induction ks with
  | nil => simp [keyMentions]
  | cons k ks ih => rw [keyMentions, List.forall_mem_append, List.forall_mem_cons, ih]

end Lists

namespace Mentions

attribute [local simp] Expr.mentions Query.mentions

/-- A plan mentions known names only, node by node, exactly if all names that it mentions are known.
-/
theorem cases (known : String → Prop) :
    Plan.Cases (fun e => e.Everywhere (.mentioning known) ↔ ∀ name ∈ e.mentions, known name)
      fun q => q.Everywhere (.mentioning known) ↔ ∀ name ∈ q.mentions, known name where
  attr name := by simp [NodeProperty.mentioning]
  const _ _ := by simp [NodeProperty.mentioning]
  null _ := by simp [NodeProperty.mentioning]
  apply _ args _ ih := by
    rw [Expr.everywhere_apply, Expr.mentions, Expr.itemMentions_iff, forall₂_congr ih]
    exact and_iff_right trivial
  tuple _ ih := by
    rw [Expr.everywhere_tuple, Expr.mentions, Expr.itemMentions_iff, forall₂_congr ih]
    exact and_iff_right trivial
  aggregate _ _ ih := by
    rw [Expr.everywhere_aggregate, Expr.mentions, ih]
    exact and_iff_right trivial
  multiAggregate _ _ ih := by
    rw [Expr.everywhere_multiAggregate, Expr.mentions, Expr.itemMentions_iff, forall₂_congr ih]
    exact and_iff_right trivial
  case _ _ ihb ihd := by
    rw [Expr.everywhere_case, Expr.mentions, List.forall_mem_append, Expr.branchMentions_iff, ihd,
      forall₂_congr fun b member => and_congr (ihb b member).1 (ihb b member).2]
    exact and_iff_right trivial
  scalarSubquery _ ih := by
    rw [Expr.everywhere_scalarSubquery, Expr.mentions, ih]
    exact and_iff_right trivial
  setSubquery _ ih := by
    rw [Expr.everywhere_setSubquery, Expr.mentions, ih]
    exact and_iff_right trivial
  empty := by simp [NodeProperty.mentioning, NodeProperty.declaring]
  table _ _ := by
    rw [Query.everywhere_table, Query.mentions]
    exact Iff.rfl
  galaxy g ih := by
    obtain ⟨name, type, setup, query⟩ := g
    rw [Query.everywhere_galaxy, Query.mentions, List.forall_mem_cons, ih]
    exact Iff.rfl
  project _ _ ihc ih := by
    rw [Query.everywhere_project, Query.mentions, List.forall_mem_append, Query.columnMentions_iff,
      ih, forall₂_congr ihc, and_assoc]
    exact Iff.rfl
  restrict _ _ ihp ih := by
    rw [Query.everywhere_restrict, Query.mentions, List.forall_mem_append, ihp, ih]
    exact and_iff_right trivial
  combine _ _ _ ihl ihr := by
    rw [Query.everywhere_combine, Query.mentions, List.forall_mem_append, ihl, ihr]
    exact and_iff_right trivial
  grouping _ _ ihc ih := by
    rw [Query.everywhere_grouping, Query.mentions, List.forall_mem_append, Query.columnMentions_iff,
      ih, forall₂_congr ihc, and_assoc]
    exact Iff.rfl
  order _ _ ihk ih := by
    rw [Query.everywhere_order, Query.mentions, List.forall_mem_append, Query.keyMentions_iff, ih,
      forall₂_congr ihk]
    exact and_iff_right trivial
  top _ _ _ ih := by
    rw [Query.everywhere_top, Query.mentions, ih]
    exact and_iff_right trivial

end Mentions

theorem Expr.everywhere_mentioning {e : Expr} :
    e.Everywhere (.mentioning known) ↔ ∀ name ∈ e.mentions, known name :=
  (Mentions.cases known).expr e

theorem Query.everywhere_mentioning {q : Query} :
    q.Everywhere (.mentioning known) ↔ ∀ name ∈ q.mentions, known name :=
  (Mentions.cases known).query q

/-- An application mentions what its arguments and its columns mention. -/
theorem Application.mentions_iff {a : Application} :
    (∀ name ∈ a.mentions, known name) ↔ (∀ e ∈ a.args, e.Everywhere (.mentioning known)) ∧
      ∀ c ∈ a.columns, c.Everywhere (.mentioning known) := by
  rw [mentions, List.forall_mem_append, Expr.itemMentions_iff, Expr.itemMentions_iff]
  simp only [Expr.everywhere_mentioning]

/-- Every binding is found under its name. -/
theorem Environment.mentions_iff {env : Environment} :
    (∀ name ∈ env.mentions, known name) ↔
      ∀ name rep, env.find? name = some rep → known name ∧ rep.Everywhere (.mentioning known) := by
  simp only [NameMap.find?_eq_some_iff, mentions, List.mem_flatMap, Expr.everywhere_mentioning]
  constructor
  · intro h name rep member
    refine ⟨h name ⟨_, member, List.mem_cons_self⟩, fun other among => ?_⟩
    exact h other ⟨_, member, List.mem_cons_of_mem _ among⟩
  · rintro h name ⟨entry, member, own⟩
    obtain ⟨bound, mentioned⟩ := h entry.1 entry.2 member
    rcases List.mem_cons.1 own with rfl | among
    · exact bound
    · exact mentioned name among

/-! ## Names of what is built -/

/-- The leaves of an expression are mentioned by it. -/
theorem Expr.mentioned_leafNames {e : Expr} {name : String}
    (nodes : e.Everywhere (.mentioning known)) (member : name ∈ e.leafNames) : known name := by
  obtain ⟨leaf, among, named⟩ := List.mem_filterMap.1 member
  have mentioned := everywhere_leaves nodes among
  cases leaf with
  | attr other =>
    cases named
    rwa [everywhere_attr] at mentioned
  | _ => cases named

namespace Query

variable {check : TypeCheck} {schema : Schema} {q flat : Query}

/-- A query mentions the names of its columns. -/
theorem mentioned_outputNames (nodes : q.Everywhere (.mentioning known)) :
    ∀ name ∈ q.outputNames, known name :=
  declared_outputNames (Everywhere.imp (p := .mentioning known) (fun _ _ => trivial)
    (fun _ node => node) nodes)

/-- The columns of a schema are mentioned by the query that has it. -/
theorem mentioned_schemaOf (nodes : q.Everywhere (.mentioning known))
    (infer : q.schemaOf check = .ok schema) :
    ∀ c ∈ schema.columns, known c.1 := by
  intro c member
  refine mentioned_outputNames nodes c.1 ?_
  rw [← names_of_schemaOf infer]
  exact Schema.mem_names_of_mem member

/-- A projection mentions the names of its columns, what these compute, and what stands below it. -/
theorem mentioned_projection {columns : List (String × Expr)} {input : Query}
    (h : projection columns input = .ok q) (nodes : input.Everywhere (.mentioning known))
    (names : ∀ c ∈ columns, known c.1) (exprs : ∀ c ∈ columns, c.2.Everywhere (.mentioning known)) :
    q.Everywhere (.mentioning known) := by
  obtain ⟨_, rfl⟩ := projection_eq_ok.1 h
  rw [everywhere_project]
  refine ⟨names, exprs, ?_⟩
  split
  · exact everywhere_skipProjections input nodes
  · exact nodes

/-- A query under new names mentions these besides its own. -/
theorem mentioned_renamings {names : List String} (nodes : q.Everywhere (.mentioning known))
    (infer : q.schemaOf check = .ok schema) (new : ∀ name ∈ names, known name)
    (length : names.length = schema.columns.length)
    (project : projection (renamings names schema.columns) q = .ok flat) :
    flat.Everywhere (.mentioning known) := by
  refine mentioned_projection project nodes (fun c member => ?_) fun c member => ?_
  · refine new c.1 ?_
    rw [← names_renamings length]
    exact List.mem_map.2 ⟨c, member, rfl⟩
  · obtain ⟨d, among, equal⟩ := exists_of_mem_renamings member
    rw [equal, Expr.everywhere_attr]
    exact mentioned_schemaOf nodes infer d among

theorem mentioned_attrs {names : List String} (new : ∀ name ∈ names, known name) :
    ∀ e ∈ names.map Expr.attr, e.Everywhere (.mentioning known) := by
  intro e member
  obtain ⟨name, among, rfl⟩ := List.mem_map.1 member
  rw [Expr.everywhere_attr]
  exact new name among

/-- What is joined to a query and tested there mentions nothing new. -/
theorem mentioned_joined {input : Query} {queries : List Query} {conditions : List Expr}
    (nodes : input.Everywhere (.mentioning known))
    (joined : ∀ q ∈ queries, q.Everywhere (.mentioning known))
    (tests : ∀ e ∈ conditions, e.Everywhere (.mentioning known)) :
    (restrictAll conditions (productAll (input :: queries))).Everywhere (.mentioning known) :=
  everywhere_joins (fun _ _ => trivial) (fun _ _ _ _ => trivial) nodes joined tests

end Query

/-! ## A plan with a lookup -/

namespace Sample

variable {extra : NodeProperty} (plain : ∀ name : String, '_' ∉ name.toList → own name)
  (attrs : ∀ name, extra.expr (.attr name)) (queries : ∀ q, extra.query q)

include plain

include attrs in
theorem attr_mentioning {name : String} (noUnderscore : '_' ∉ name.toList) :
    (Expr.attr name).Everywhere ((NodeProperty.mentioning own).and extra) :=
  (Expr.everywhere_attr name).2 ⟨plain name noUnderscore, attrs name⟩

include queries

theorem table_mentioning {name : String} {columns : List Column}
    (noUnderscore : ∀ c ∈ columns, '_' ∉ c.1.toList) :
    (Query.table name ⟨columns⟩).Everywhere ((NodeProperty.mentioning own).and extra) :=
  (Query.everywhere_table _ _).2
    ⟨List.forall_mem_map.2 fun c member => plain c.1 (noUnderscore c member), queries _⟩

theorem galaxyP_mentioning :
    (Query.galaxy galaxyP).Everywhere ((NodeProperty.mentioning own).and extra) :=
  (Query.everywhere_galaxy _).2 ⟨⟨plain _ (by decide), queries _⟩,
    table_mentioning plain queries (by decide)⟩

include attrs in
theorem profiles_mentioning (lookup : extra.expr (.apply nickname [.attr "b"]))
    (choice : extra.expr (.apply greater [.attr "a", one])) (number : extra.expr one)
    (name : extra.expr plato) :
    profiles.Everywhere ((NodeProperty.mentioning own).and extra) := by
  have looked : (Expr.apply nickname [.attr "b"]).Everywhere
      ((NodeProperty.mentioning own).and extra) := by
    rw [Expr.everywhere_apply, List.forall_mem_singleton]
    exact ⟨⟨trivial, lookup⟩, attr_mentioning plain attrs (by decide)⟩
  have chosen : (Expr.apply greater [.attr "a", one]).Everywhere
      ((NodeProperty.mentioning own).and extra) := by
    rw [Expr.everywhere_apply, List.forall_mem_cons, List.forall_mem_singleton, one,
      Expr.everywhere_const]
    exact ⟨⟨trivial, choice⟩, attr_mentioning plain attrs (by decide), trivial, number⟩
  have stored : plato.Everywhere ((NodeProperty.mentioning own).and extra) :=
    (Expr.everywhere_const _ _).2 ⟨trivial, name⟩
  simp only [profiles, Query.everywhere_project, Query.everywhere_combine, List.forall_mem_cons,
    List.not_mem_nil, false_implies, implies_true, and_true]
  refine ⟨⟨?_, queries _⟩, ⟨looked, chosen, stored, attr_mentioning plain attrs (by decide)⟩,
    ⟨trivial, queries _⟩, galaxyP_mentioning plain queries, table_mentioning plain queries (by
      decide)⟩
  simp only [NodeProperty.mentioning, NodeProperty.declaring, List.forall_mem_cons,
    List.not_mem_nil, false_implies, implies_true, and_true]
  exact ⟨plain _ (by decide), plain _ (by decide), plain _ (by decide), plain _ (by decide)⟩

end Sample

end FlatPlan
