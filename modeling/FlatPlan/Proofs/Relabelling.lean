import Mathlib.Logic.Function.Basic
import FlatPlan.Proofs.Mentions

/-!
# Renaming everything

A renaming of names is applied to all columns and references of a plan, inside expressions,
subqueries and the queries behind galaxies too; what an operator's own definition holds stays as it
is. Main statement: two renamings of a plan are the same if and only if they agree on the names that
it mentions (`Query.relabel_eq_relabel`). The operations from which flat plans are built commute
with renaming; those that compare names do so for injective renamings only.
-/

namespace FlatPlan

/-- The columns under new names. -/
def Schema.relabel (σ : String → String) (s : Schema) : Schema :=
  ⟨s.columns.map fun c => (σ c.1, c.2)⟩

mutual

/-- An expression under new names. -/
def Expr.relabel (σ : String → String) : Expr → Expr
  | .attr name => .attr (σ name)
  | .const type value => .const type value
  | .null type => .null type
  | .apply op args => .apply op (Expr.relabelItems σ args)
  | .tuple items => .tuple (Expr.relabelItems σ items)
  | .aggregate fn arg => .aggregate fn (arg.relabel σ)
  | .multiAggregate fn args => .multiAggregate fn (Expr.relabelItems σ args)
  | .case branches default => .case (Expr.relabelBranches σ branches) (default.relabel σ)
  | .scalarSubquery query => .scalarSubquery (query.relabel σ)
  | .setSubquery query => .setSubquery (query.relabel σ)

/-- Each expression under new names. -/
def Expr.relabelItems (σ : String → String) : List Expr → List Expr
  | [] => []
  | e :: es => e.relabel σ :: Expr.relabelItems σ es

/-- The branches of a choice under new names. -/
def Expr.relabelBranches (σ : String → String) : List (Expr × Expr) → List (Expr × Expr)
  | [] => []
  | (condition, result) :: branches =>
    (condition.relabel σ, result.relabel σ) :: Expr.relabelBranches σ branches

/-- A query under new names; stored relations keep theirs, but not those of their columns. -/
def Query.relabel (σ : String → String) : Query → Query
  | .empty => .empty
  | .table name schema => .table name (schema.relabel σ)
  | .galaxy ⟨name, type, setup, query⟩ => .galaxy ⟨σ name, type, setup, query.relabel σ⟩
  | .project columns input => .project (Query.relabelColumns σ columns) (input.relabel σ)
  | .restrict predicate input => .restrict (predicate.relabel σ) (input.relabel σ)
  | .combine op left right => .combine op (left.relabel σ) (right.relabel σ)
  | .grouping columns input => .grouping (Query.relabelColumns σ columns) (input.relabel σ)
  | .order keys input => .order (Query.relabelKeys σ keys) (input.relabel σ)
  | .top offset count input => .top offset count (input.relabel σ)

/-- Columns under new names. -/
def Query.relabelColumns (σ : String → String) : List (String × Expr) → List (String × Expr)
  | [] => []
  | (name, e) :: columns => (σ name, e.relabel σ) :: Query.relabelColumns σ columns

/-- Ordering keys under new names. -/
def Query.relabelKeys (σ : String → String) : List (Expr × Direction) → List (Expr × Direction)
  | [] => []
  | (e, direction) :: keys => (e.relabel σ, direction) :: Query.relabelKeys σ keys

end

variable {σ τ : String → String}

/-! ## Each node -/

section Nodes

attribute [local simp] Expr.relabel Query.relabel

/-- Expressions are renamed one by one. -/
@[simp] theorem Expr.relabelItems_eq_map (es : List Expr) :
    relabelItems σ es = es.map (relabel σ) := by
  induction es with
  | nil => rfl
  | cons e es ih => rw [relabelItems, ih, List.map_cons]

/-- Branches are renamed one by one, conditions and results alike. -/
@[simp] theorem Expr.relabelBranches_eq_map (bs : List (Expr × Expr)) :
    relabelBranches σ bs = bs.map fun b => (b.1.relabel σ, b.2.relabel σ) := by
  induction bs with
  | nil => rfl
  | cons b bs ih => rw [relabelBranches, ih, List.map_cons]

/-- Columns are renamed one by one, their names and what they compute. -/
@[simp] theorem Query.relabelColumns_eq_map (cs : List (String × Expr)) :
    relabelColumns σ cs = cs.map fun c => (σ c.1, c.2.relabel σ) := by
  induction cs with
  | nil => rfl
  | cons c cs ih => rw [relabelColumns, ih, List.map_cons]

/-- Ordering keys are renamed one by one. -/
@[simp] theorem Query.relabelKeys_eq_map (ks : List (Expr × Direction)) :
    relabelKeys σ ks = ks.map fun k => (k.1.relabel σ, k.2) := by
  induction ks with
  | nil => rfl
  | cons k ks ih => rw [relabelKeys, ih, List.map_cons]

@[simp] theorem Expr.relabel_attr (name : String) : (attr name).relabel σ = .attr (σ name) := by
  rw [relabel]

@[simp] theorem Expr.relabel_const (type : Ty) (value : Value) :
    (const type value).relabel σ = .const type value := by
  rw [relabel]

@[simp] theorem Expr.relabel_null (type : Ty) : (null type).relabel σ = .null type := by
  rw [relabel]

/-- The operator of an application is kept, and so is what it looks up. -/
@[simp] theorem Expr.relabel_apply (op : Operator) (args : List Expr) :
    (apply op args).relabel σ = .apply op (args.map (relabel σ)) := by
  rw [relabel, relabelItems_eq_map]

@[simp] theorem Expr.relabel_tuple (items : List Expr) :
    (tuple items).relabel σ = .tuple (items.map (relabel σ)) := by
  rw [relabel, relabelItems_eq_map]

@[simp] theorem Expr.relabel_aggregate (fn : Aggregate) (arg : Expr) :
    (aggregate fn arg).relabel σ = .aggregate fn (arg.relabel σ) := by
  rw [relabel]

@[simp] theorem Expr.relabel_multiAggregate (fn : MultiAggregate) (args : List Expr) :
    (multiAggregate fn args).relabel σ = .multiAggregate fn (args.map (relabel σ)) := by
  rw [relabel, relabelItems_eq_map]

@[simp] theorem Expr.relabel_case (branches : List (Expr × Expr)) (default : Expr) :
    (case branches default).relabel σ =
      .case (branches.map fun b => (b.1.relabel σ, b.2.relabel σ)) (default.relabel σ) := by
  rw [relabel, relabelBranches_eq_map]

@[simp] theorem Expr.relabel_scalarSubquery (query : Query) :
    (scalarSubquery query).relabel σ = .scalarSubquery (query.relabel σ) := by
  rw [relabel]

@[simp] theorem Expr.relabel_setSubquery (query : Query) :
    (setSubquery query).relabel σ = .setSubquery (query.relabel σ) := by
  rw [relabel]

@[simp] theorem Query.relabel_empty : empty.relabel σ = .empty := by
  rw [relabel]

/-- A table keeps its own name. Only its columns are renamed. -/
@[simp] theorem Query.relabel_table (name : String) (schema : Schema) :
    (table name schema).relabel σ = .table name (schema.relabel σ) := by
  rw [relabel]

/-- The name of a galaxy is that of its column, so it is renamed, as is the query behind it. -/
@[simp] theorem Query.relabel_galaxy (g : Galaxy) :
    (galaxy g).relabel σ = .galaxy { g with name := σ g.name, query := g.query.relabel σ } := by
  cases g
  rw [relabel]

/-- A projection is renamed in its names, in what they stand for, and in its input. -/
@[simp] theorem Query.relabel_project (columns : List (String × Expr)) (input : Query) :
    (project columns input).relabel σ =
      .project (columns.map fun c => (σ c.1, c.2.relabel σ)) (input.relabel σ) := by
  rw [relabel, relabelColumns_eq_map]

@[simp] theorem Query.relabel_restrict (predicate : Expr) (input : Query) :
    (restrict predicate input).relabel σ = .restrict (predicate.relabel σ) (input.relabel σ) := by
  rw [relabel]

/-- Both operands of a combination are renamed. -/
@[simp] theorem Query.relabel_combine (op : CombineOp) (left right : Query) :
    (combine op left right).relabel σ = .combine op (left.relabel σ) (right.relabel σ) := by
  rw [relabel]

@[simp] theorem Query.relabel_grouping (columns : List (String × Expr)) (input : Query) :
    (grouping columns input).relabel σ =
      .grouping (columns.map fun c => (σ c.1, c.2.relabel σ)) (input.relabel σ) := by
  rw [relabel, relabelColumns_eq_map]

@[simp] theorem Query.relabel_order (keys : List (Expr × Direction)) (input : Query) :
    (order keys input).relabel σ = .order (keys.map fun k => (k.1.relabel σ, k.2))
      (input.relabel σ) := by
  rw [relabel, relabelKeys_eq_map]

@[simp] theorem Query.relabel_top (offset count : UInt64) (input : Query) :
    (top offset count input).relabel σ = .top offset count (input.relabel σ) := by
  rw [relabel]

end Nodes

/-! ## Agreement on the names that are mentioned -/

/-- Two renamings of a schema agree exactly if they agree on its names. -/
theorem Schema.relabel_eq_relabel {s : Schema} :
    s.relabel σ = s.relabel τ ↔ ∀ name ∈ s.names, σ name = τ name := by
  unfold relabel names
  rw [Schema.mk.injEq, List.map_inj_left, List.forall_mem_map]
  simp only [Prod.mk.injEq, and_true]

namespace Relabelling

/-- Renamings give the same if and only if they agree on the names of every node. -/
theorem cases (σ τ : String → String) :
    Plan.Cases
      (fun e => e.relabel σ = e.relabel τ ↔ e.Everywhere (.mentioning fun name => σ name = τ name))
        fun q => q.relabel σ = q.relabel τ ↔
          q.Everywhere (.mentioning fun name => σ name = τ name) where
  attr name := by
    rw [Expr.relabel_attr, Expr.relabel_attr, Expr.attr.injEq, Expr.everywhere_attr]
    exact Iff.rfl
  const _ _ := by
    rw [Expr.relabel_const, Expr.relabel_const, Expr.everywhere_const]
    exact iff_of_true rfl trivial
  null _ := by
    rw [Expr.relabel_null, Expr.relabel_null, Expr.everywhere_null]
    exact iff_of_true rfl trivial
  apply _ _ _ ih := by
    rw [Expr.relabel_apply, Expr.relabel_apply, Expr.apply.injEq, List.map_inj_left,
      forall₂_congr ih, Expr.everywhere_apply]
    exact and_congr (iff_of_true rfl trivial) Iff.rfl
  tuple _ ih := by
    rw [Expr.relabel_tuple, Expr.relabel_tuple, Expr.tuple.injEq, List.map_inj_left,
      forall₂_congr ih, Expr.everywhere_tuple]
    exact (and_iff_right trivial).symm
  aggregate _ _ ih := by
    rw [Expr.relabel_aggregate, Expr.relabel_aggregate, Expr.aggregate.injEq, ih,
      Expr.everywhere_aggregate]
    exact and_congr (iff_of_true rfl trivial) Iff.rfl
  multiAggregate _ _ ih := by
    rw [Expr.relabel_multiAggregate, Expr.relabel_multiAggregate, Expr.multiAggregate.injEq,
      List.map_inj_left, forall₂_congr ih, Expr.everywhere_multiAggregate]
    exact and_congr (iff_of_true rfl trivial) Iff.rfl
  case _ _ ihb ihd := by
    rw [Expr.relabel_case, Expr.relabel_case, Expr.case.injEq, List.map_inj_left, ihd,
      Expr.everywhere_case]
    simp only [Prod.mk.injEq]
    rw [forall₂_congr fun b member => and_congr (ihb b member).1 (ihb b member).2]
    exact (and_iff_right trivial).symm
  scalarSubquery _ ih := by
    rw [Expr.relabel_scalarSubquery, Expr.relabel_scalarSubquery, Expr.scalarSubquery.injEq, ih,
      Expr.everywhere_scalarSubquery]
    exact (and_iff_right trivial).symm
  setSubquery _ ih := by
    rw [Expr.relabel_setSubquery, Expr.relabel_setSubquery, Expr.setSubquery.injEq, ih,
      Expr.everywhere_setSubquery]
    exact (and_iff_right trivial).symm
  empty := by
    rw [Query.relabel_empty, Query.relabel_empty, Query.everywhere_empty]
    exact iff_of_true rfl trivial
  table _ _ := by
    rw [Query.relabel_table, Query.relabel_table, Query.table.injEq, Schema.relabel_eq_relabel,
      Query.everywhere_table]
    exact and_iff_right rfl
  galaxy g ih := by
    rw [Query.relabel_galaxy, Query.relabel_galaxy, Query.galaxy.injEq, Galaxy.mk.injEq, ih,
      Query.everywhere_galaxy]
    exact and_congr Iff.rfl ((and_iff_right rfl).trans (and_iff_right rfl))
  project _ _ ihc ih := by
    rw [Query.relabel_project, Query.relabel_project, Query.project.injEq, List.map_inj_left, ih,
      Query.everywhere_project]
    simp only [Prod.mk.injEq, forall_and, and_assoc]
    rw [forall₂_congr ihc]
    exact Iff.rfl
  restrict _ _ ihp ih := by
    rw [Query.relabel_restrict, Query.relabel_restrict, Query.restrict.injEq, ihp, ih,
      Query.everywhere_restrict]
    exact (and_iff_right trivial).symm
  combine _ _ _ ihl ihr := by
    rw [Query.relabel_combine, Query.relabel_combine, Query.combine.injEq, ihl, ihr,
      Query.everywhere_combine]
    exact and_congr (iff_of_true rfl trivial) Iff.rfl
  grouping _ _ ihc ih := by
    rw [Query.relabel_grouping, Query.relabel_grouping, Query.grouping.injEq, List.map_inj_left, ih,
      Query.everywhere_grouping]
    simp only [Prod.mk.injEq, forall_and, and_assoc]
    rw [forall₂_congr ihc]
    exact Iff.rfl
  order _ _ ihk ih := by
    rw [Query.relabel_order, Query.relabel_order, Query.order.injEq, List.map_inj_left, ih,
      Query.everywhere_order]
    simp only [Prod.mk.injEq, and_true]
    rw [forall₂_congr ihk]
    exact (and_iff_right trivial).symm
  top _ _ _ ih := by
    rw [Query.relabel_top, Query.relabel_top, Query.top.injEq, ih, Query.everywhere_top]
    exact (and_iff_right rfl).trans (and_congr (iff_of_true rfl trivial) Iff.rfl)

/-- A list whose items are all kept is kept. -/
theorem map_eq_self {α : Type} {f : α → α} {l : List α} (each : ∀ a ∈ l, f a = a) : l.map f = l :=
  (List.map_congr_left each).trans (List.map_id' l)

/-- Columns whose expressions are kept are kept by the renaming that keeps all names. -/
theorem columns_id {columns : List (String × Expr)} (each : ∀ c ∈ columns, c.2.relabel id = c.2) :
    columns.map (fun c => (id c.1, c.2.relabel id)) = columns :=
  map_eq_self fun c member => Prod.ext rfl (each c member)

/-- Nothing changes under the names as they are. -/
theorem id_cases : Plan.Cases (fun e => e.relabel id = e) fun q => q.relabel id = q where
  attr _ := by rw [Expr.relabel_attr, id]
  const _ _ := by rw [Expr.relabel_const]
  null _ := by rw [Expr.relabel_null]
  apply _ _ _ ih := by rw [Expr.relabel_apply, map_eq_self ih]
  tuple _ ih := by rw [Expr.relabel_tuple, map_eq_self ih]
  aggregate _ _ ih := by rw [Expr.relabel_aggregate, ih]
  multiAggregate _ _ ih := by rw [Expr.relabel_multiAggregate, map_eq_self ih]
  case _ _ ihb ihd := by
    rw [Expr.relabel_case, ihd,
      map_eq_self fun b member => Prod.ext (ihb b member).1 (ihb b member).2]
  scalarSubquery _ ih := by rw [Expr.relabel_scalarSubquery, ih]
  setSubquery _ ih := by rw [Expr.relabel_setSubquery, ih]
  empty := by rw [Query.relabel_empty]
  table _ schema := by
    have same : schema.columns.map (fun c => (id c.1, c.2)) = schema.columns :=
      map_eq_self fun _ _ => rfl
    rw [Query.relabel_table, Schema.relabel, same]
  galaxy g ih := by
    cases g
    rw [Query.relabel_galaxy, ih, id]
  project _ _ ihc ih := by rw [Query.relabel_project, ih, columns_id ihc]
  restrict _ _ ihp ih := by rw [Query.relabel_restrict, ihp, ih]
  combine _ _ _ ihl ihr := by rw [Query.relabel_combine, ihl, ihr]
  grouping _ _ ihc ih := by rw [Query.relabel_grouping, ih, columns_id ihc]
  order keys _ ihk ih := by
    have same : keys.map (fun k => (k.1.relabel id, k.2)) = keys :=
      map_eq_self fun k member => Prod.ext (ihk k member) rfl
    rw [Query.relabel_order, ih, same]
  top _ _ _ ih := by rw [Query.relabel_top, ih]

end Relabelling

/-- Two renamings of an expression agree exactly if they agree on the names that it mentions. -/
theorem Expr.relabel_eq_relabel {e : Expr} :
    e.relabel σ = e.relabel τ ↔ ∀ name ∈ e.mentions, σ name = τ name :=
  ((Relabelling.cases σ τ).expr e).trans everywhere_mentioning

/-- Renamings of a plan are the same if and only if they agree on the names that it mentions. -/
theorem Query.relabel_eq_relabel {q : Query} :
    q.relabel σ = q.relabel τ ↔ ∀ name ∈ q.mentions, σ name = τ name :=
  ((Relabelling.cases σ τ).query q).trans everywhere_mentioning

/-- A renaming keeps an expression exactly if it keeps the names that it mentions. -/
theorem Expr.relabel_eq_self {e : Expr} : e.relabel σ = e ↔ ∀ name ∈ e.mentions, σ name = name := by
  conv_lhs => rhs; rw [← Relabelling.id_cases.expr e]
  exact relabel_eq_relabel

/-- A renaming keeps a query exactly if it keeps the names that it mentions. -/
theorem Query.relabel_eq_self {q : Query} : q.relabel σ = q ↔
    ∀ name ∈ q.mentions, σ name = name := by
  conv_lhs => rhs; rw [← Relabelling.id_cases.query q]
  exact relabel_eq_relabel

end FlatPlan
