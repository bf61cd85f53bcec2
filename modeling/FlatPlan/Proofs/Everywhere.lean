import FlatPlan.Plan.Build

/-!
# Properties of all nodes of a plan

`Plan.Cases` is the induction over expressions and queries together: a node may assume the property
of its parts, and an application also that of the query which its operator looks up. A
`NodeProperty` says something about single nodes; `Query.Everywhere` says it of every node of a
query, inside expressions, subqueries and the queries behind galaxies too.
-/

namespace FlatPlan

namespace Plan

section Induction

variable {onExpr : Expr → Prop} {onQuery : Query → Prop}

/-- What an induction over plans has to show: each node has the property if its parts have. -/
structure Cases (onExpr : Expr → Prop) (onQuery : Query → Prop) : Prop where
  attr : ∀ name, onExpr (.attr name)
  const : ∀ type value, onExpr (.const type value)
  null : ∀ type, onExpr (.null type)
  apply : ∀ op args, (∀ source, op.lookupSource? = some source → onQuery source) →
    (∀ e ∈ args, onExpr e) → onExpr (.apply op args)
  tuple : ∀ items, (∀ e ∈ items, onExpr e) → onExpr (.tuple items)
  aggregate : ∀ fn arg, onExpr arg → onExpr (.aggregate fn arg)
  multiAggregate : ∀ fn args, (∀ e ∈ args, onExpr e) → onExpr (.multiAggregate fn args)
  case : ∀ branches default, (∀ b ∈ branches, onExpr b.1 ∧ onExpr b.2) → onExpr default →
    onExpr (.case branches default)
  scalarSubquery : ∀ query, onQuery query → onExpr (.scalarSubquery query)
  setSubquery : ∀ query, onQuery query → onExpr (.setSubquery query)
  empty : onQuery .empty
  table : ∀ name schema, onQuery (.table name schema)
  galaxy : ∀ g : Galaxy, onQuery g.query → onQuery (.galaxy g)
  project : ∀ columns input, (∀ c ∈ columns, onExpr c.2) → onQuery input →
    onQuery (.project columns input)
  restrict : ∀ predicate input, onExpr predicate → onQuery input →
    onQuery (.restrict predicate input)
  combine : ∀ op left right, onQuery left → onQuery right → onQuery (.combine op left right)
  grouping : ∀ columns input, (∀ c ∈ columns, onExpr c.2) → onQuery input →
    onQuery (.grouping columns input)
  order : ∀ keys input, (∀ k ∈ keys, onExpr k.1) → onQuery input → onQuery (.order keys input)
  top : ∀ offset count input, onQuery input → onQuery (.top offset count input)

mutual

/-- Every expression has the property, if each node has it whose parts have it. -/
theorem Cases.expr (h : Cases onExpr onQuery) : ∀ e : Expr, onExpr e
  | .attr name => h.attr name
  | .const type value => h.const type value
  | .null type => h.null type
  | .apply op args => h.apply op args (Cases.lookup h op) (Cases.items h args)
  | .tuple items => h.tuple items (Cases.items h items)
  | .aggregate fn arg => h.aggregate fn arg (Cases.expr h arg)
  | .multiAggregate fn args => h.multiAggregate fn args (Cases.items h args)
  | .case branches default =>
    h.case branches default (Cases.branches h branches) (Cases.expr h default)
  | .scalarSubquery query => h.scalarSubquery query (Cases.query h query)
  | .setSubquery query => h.setSubquery query (Cases.query h query)

/-- All of several expressions have the property. -/
theorem Cases.items (h : Cases onExpr onQuery) : ∀ es : List Expr, ∀ e ∈ es, onExpr e
  | [] => fun _ member => nomatch member
  | e :: es => List.forall_mem_cons.2 ⟨Cases.expr h e, Cases.items h es⟩

/-- The conditions and the results of all branches have the property. -/
theorem Cases.branches (h : Cases onExpr onQuery) :
    ∀ bs : List (Expr × Expr), ∀ b ∈ bs, onExpr b.1 ∧ onExpr b.2
  | [] => fun _ member => nomatch member
  | (condition, result) :: bs =>
    List.forall_mem_cons.2 ⟨⟨Cases.expr h condition, Cases.expr h result⟩, Cases.branches h bs⟩

/-- The query that an operator looks up has the property. Operators hold queries, so the induction
goes through them too. -/
theorem Cases.lookup (h : Cases onExpr onQuery) :
    ∀ op : Operator, ∀ source, op.lookupSource? = some source → onQuery source
  | ⟨_, _, _, .lookup source _ _⟩ => fun _ equal => Option.some.inj equal ▸ Cases.query h source
  | ⟨_, _, _, .plain⟩ | ⟨_, _, _, .componentwise _⟩ | ⟨_, _, _, .template _⟩ => fun _ equal =>
      nomatch equal

/-- Every query has the property, if each node has it whose parts have it. -/
theorem Cases.query (h : Cases onExpr onQuery) : ∀ q : Query, onQuery q
  | .empty => h.empty
  | .table name schema => h.table name schema
  | .galaxy ⟨name, type, setup, query⟩ => h.galaxy ⟨name, type, setup, query⟩ (Cases.query h query)
  | .project columns input =>
    h.project columns input (Cases.columns h columns) (Cases.query h input)
  | .restrict predicate input =>
    h.restrict predicate input (Cases.expr h predicate) (Cases.query h input)
  | .combine op left right => h.combine op left right (Cases.query h left) (Cases.query h right)
  | .grouping columns input =>
    h.grouping columns input (Cases.columns h columns) (Cases.query h input)
  | .order keys input => h.order keys input (Cases.keys h keys) (Cases.query h input)
  | .top offset count input => h.top offset count input (Cases.query h input)

/-- The expressions of all columns have the property. -/
theorem Cases.columns (h : Cases onExpr onQuery) : ∀ cs : List (String × Expr), ∀ c ∈ cs, onExpr c.2
  | [] => fun _ member => nomatch member
  | (_, e) :: cs => List.forall_mem_cons.2 ⟨Cases.expr h e, Cases.columns h cs⟩

/-- The expressions of all ordering keys have the property. -/
theorem Cases.keys (h : Cases onExpr onQuery) : ∀ ks : List (Expr × Direction), ∀ k ∈ ks, onExpr k.1
  | [] => fun _ member => nomatch member
  | (e, _) :: ks => List.forall_mem_cons.2 ⟨Cases.expr h e, Cases.keys h ks⟩

end

end Induction

end Plan

/-- A property of single nodes. -/
structure NodeProperty where
  expr : Expr → Prop
  query : Query → Prop

namespace NodeProperty

/-- Both of two properties. -/
def and (p r : NodeProperty) : NodeProperty where
  expr e := p.expr e ∧ r.expr e
  query q := p.query q ∧ r.query q

end NodeProperty

mutual

/-- Whether every node of an expression has a property. -/
def Expr.Everywhere (p : NodeProperty) : Expr → Prop
  | .attr name => p.expr (.attr name)
  | .const type value => p.expr (.const type value)
  | .null type => p.expr (.null type)
  | .apply op args => p.expr (.apply op args) ∧ Expr.itemsEverywhere p args
  | .tuple items => p.expr (.tuple items) ∧ Expr.itemsEverywhere p items
  | .aggregate fn arg => p.expr (.aggregate fn arg) ∧ arg.Everywhere p
  | .multiAggregate fn args => p.expr (.multiAggregate fn args) ∧ Expr.itemsEverywhere p args
  | .case branches default =>
    p.expr (.case branches default) ∧ Expr.branchesEverywhere p branches ∧ default.Everywhere p
  | .scalarSubquery query => p.expr (.scalarSubquery query) ∧ query.Everywhere p
  | .setSubquery query => p.expr (.setSubquery query) ∧ query.Everywhere p

/-- Whether every node of the expressions has a property. -/
def Expr.itemsEverywhere (p : NodeProperty) : List Expr → Prop
  | [] => True
  | e :: es => e.Everywhere p ∧ Expr.itemsEverywhere p es

/-- Whether every node of the branches of a choice has a property. -/
def Expr.branchesEverywhere (p : NodeProperty) : List (Expr × Expr) → Prop
  | [] => True
  | (condition, result) :: branches =>
    (condition.Everywhere p ∧ result.Everywhere p) ∧ Expr.branchesEverywhere p branches

/-- Whether every node of a query has a property. -/
def Query.Everywhere (p : NodeProperty) : Query → Prop
  | .empty => p.query .empty
  | .table name schema => p.query (.table name schema)
  | .galaxy ⟨name, type, setup, query⟩ =>
    p.query (.galaxy ⟨name, type, setup, query⟩) ∧ query.Everywhere p
  | .project columns input =>
    p.query (.project columns input) ∧ Query.columnsEverywhere p columns ∧ input.Everywhere p
  | .restrict predicate input =>
    p.query (.restrict predicate input) ∧ predicate.Everywhere p ∧ input.Everywhere p
  | .combine op left right =>
    p.query (.combine op left right) ∧ left.Everywhere p ∧ right.Everywhere p
  | .grouping columns input =>
    p.query (.grouping columns input) ∧ Query.columnsEverywhere p columns ∧ input.Everywhere p
  | .order keys input =>
    p.query (.order keys input) ∧ Query.keysEverywhere p keys ∧ input.Everywhere p
  | .top offset count input => p.query (.top offset count input) ∧ input.Everywhere p

/-- Whether every node of the columns has a property. -/
def Query.columnsEverywhere (p : NodeProperty) : List (String × Expr) → Prop
  | [] => True
  | (_, e) :: columns => e.Everywhere p ∧ Query.columnsEverywhere p columns

/-- Whether every node of the ordering keys has a property. -/
def Query.keysEverywhere (p : NodeProperty) : List (Expr × Direction) → Prop
  | [] => True
  | (e, _) :: keys => e.Everywhere p ∧ Query.keysEverywhere p keys

end

section Everywhere

variable {p : NodeProperty}

attribute [local simp] Expr.Everywhere Query.Everywhere

/-- The property holds everywhere in a list of expressions if it does in each of them. -/
theorem Expr.itemsEverywhere_iff : ∀ es : List Expr,
    Expr.itemsEverywhere p es ↔ ∀ e ∈ es, e.Everywhere p
  | [] => by simp [Expr.itemsEverywhere]
  | e :: es => by simp [Expr.itemsEverywhere, Expr.itemsEverywhere_iff es]

/-- The property holds everywhere in branches if it does in each condition and each result. -/
theorem Expr.branchesEverywhere_iff : ∀ bs : List (Expr × Expr),
    Expr.branchesEverywhere p bs ↔ ∀ b ∈ bs, b.1.Everywhere p ∧ b.2.Everywhere p
  | [] => by simp [Expr.branchesEverywhere]
  | (condition, result) :: bs => by
    rw [Expr.branchesEverywhere, Expr.branchesEverywhere_iff bs, List.forall_mem_cons]

/-- The property holds everywhere in columns if it does in the expression of each. -/
theorem Query.columnsEverywhere_iff : ∀ cs : List (String × Expr),
    Query.columnsEverywhere p cs ↔ ∀ c ∈ cs, c.2.Everywhere p
  | [] => by simp [Query.columnsEverywhere]
  | (_, e) :: cs => by
    rw [Query.columnsEverywhere, Query.columnsEverywhere_iff cs, List.forall_mem_cons]

/-- The property holds everywhere in ordering keys if it does in the expression of each. -/
theorem Query.keysEverywhere_iff : ∀ ks : List (Expr × Direction),
    Query.keysEverywhere p ks ↔ ∀ k ∈ ks, k.1.Everywhere p
  | [] => by simp [Query.keysEverywhere]
  | (e, _) :: ks => by rw [Query.keysEverywhere, Query.keysEverywhere_iff ks, List.forall_mem_cons]

/-! Each node with its parts. -/

@[simp] theorem Expr.everywhere_attr (name : String) :
    (Expr.attr name).Everywhere p ↔ p.expr (.attr name) := by
  rw [Expr.Everywhere]

@[simp] theorem Expr.everywhere_const (type : Ty) (value : Value) :
    (Expr.const type value).Everywhere p ↔ p.expr (.const type value) := by
  rw [Expr.Everywhere]

@[simp] theorem Expr.everywhere_null (type : Ty) :
    (Expr.null type).Everywhere p ↔ p.expr (.null type) := by
  rw [Expr.Everywhere]

/-- An application has the property everywhere if it has it as a node and its arguments have it
everywhere. What the operator looks up is no part of the application here. -/
@[simp] theorem Expr.everywhere_apply (op : Operator) (args : List Expr) :
    (Expr.apply op args).Everywhere p ↔ p.expr (.apply op args) ∧ ∀ e ∈ args, e.Everywhere p := by
  rw [Expr.Everywhere, Expr.itemsEverywhere_iff]

@[simp] theorem Expr.everywhere_tuple (items : List Expr) :
    (Expr.tuple items).Everywhere p ↔ p.expr (.tuple items) ∧ ∀ e ∈ items, e.Everywhere p := by
  rw [Expr.Everywhere, Expr.itemsEverywhere_iff]

@[simp] theorem Expr.everywhere_aggregate (fn : Aggregate) (arg : Expr) :
    (Expr.aggregate fn arg).Everywhere p ↔ p.expr (.aggregate fn arg) ∧ arg.Everywhere p := by
  rw [Expr.Everywhere]

@[simp] theorem Expr.everywhere_multiAggregate (fn : MultiAggregate) (args : List Expr) :
    (Expr.multiAggregate fn args).Everywhere p ↔
      p.expr (.multiAggregate fn args) ∧ ∀ e ∈ args, e.Everywhere p := by
  rw [Expr.Everywhere, Expr.itemsEverywhere_iff]

/-- A choice has the property everywhere if it has it as a node and its branches and its default
have it everywhere. -/
@[simp] theorem Expr.everywhere_case (branches : List (Expr × Expr)) (default : Expr) :
    (Expr.case branches default).Everywhere p ↔ p.expr (.case branches default) ∧
      (∀ b ∈ branches, b.1.Everywhere p ∧ b.2.Everywhere p) ∧ default.Everywhere p := by
  rw [Expr.Everywhere, Expr.branchesEverywhere_iff]

@[simp] theorem Expr.everywhere_scalarSubquery (query : Query) :
    (Expr.scalarSubquery query).Everywhere p ↔ p.expr (.scalarSubquery query) ∧
      query.Everywhere p := by
  rw [Expr.Everywhere]

@[simp] theorem Expr.everywhere_setSubquery (query : Query) :
    (Expr.setSubquery query).Everywhere p ↔ p.expr (.setSubquery query) ∧ query.Everywhere p := by
  rw [Expr.Everywhere]

@[simp] theorem Query.everywhere_empty : Query.empty.Everywhere p ↔ p.query .empty := by
  rw [Query.Everywhere]

@[simp] theorem Query.everywhere_table (name : String) (schema : Schema) :
    (Query.table name schema).Everywhere p ↔ p.query (.table name schema) := by
  rw [Query.Everywhere]

/-- A galaxy has the property everywhere only if the query behind it has. -/
@[simp] theorem Query.everywhere_galaxy (g : Galaxy) :
    (Query.galaxy g).Everywhere p ↔ p.query (.galaxy g) ∧ g.query.Everywhere p := by
  cases g
  rw [Query.Everywhere]

/-- A projection has the property everywhere if it has it as a node and its columns and its input
have it everywhere. -/
@[simp] theorem Query.everywhere_project (columns : List (String × Expr)) (input : Query) :
    (Query.project columns input).Everywhere p ↔
      p.query (.project columns input) ∧ (∀ c ∈ columns, c.2.Everywhere p) ∧
      input.Everywhere p := by
  rw [Query.Everywhere, Query.columnsEverywhere_iff]

@[simp] theorem Query.everywhere_restrict (predicate : Expr) (input : Query) :
    (Query.restrict predicate input).Everywhere p ↔
      p.query (.restrict predicate input) ∧ predicate.Everywhere p ∧ input.Everywhere p := by
  rw [Query.Everywhere]

/-- A combination has the property everywhere if it has it as a node and both operands have it
everywhere. -/
@[simp] theorem Query.everywhere_combine (op : CombineOp) (left right : Query) :
    (Query.combine op left right).Everywhere p ↔
      p.query (.combine op left right) ∧ left.Everywhere p ∧ right.Everywhere p := by
  rw [Query.Everywhere]

@[simp] theorem Query.everywhere_grouping (columns : List (String × Expr)) (input : Query) :
    (Query.grouping columns input).Everywhere p ↔
      p.query (.grouping columns input) ∧ (∀ c ∈ columns, c.2.Everywhere p) ∧
      input.Everywhere p := by
  rw [Query.Everywhere, Query.columnsEverywhere_iff]

@[simp] theorem Query.everywhere_order (keys : List (Expr × Direction)) (input : Query) :
    (Query.order keys input).Everywhere p ↔
      p.query (.order keys input) ∧ (∀ k ∈ keys, k.1.Everywhere p) ∧ input.Everywhere p := by
  rw [Query.Everywhere, Query.keysEverywhere_iff]

@[simp] theorem Query.everywhere_top (offset count : UInt64) (input : Query) :
    (Query.top offset count input).Everywhere p ↔
      p.query (.top offset count input) ∧ input.Everywhere p := by
  rw [Query.Everywhere]

end Everywhere

namespace NodeProperty

/-- What holds of the nodes that have both of two properties. -/
structure Joins (p r u : NodeProperty) : Prop where
  expr : ∀ e, p.expr e → r.expr e → u.expr e
  query : ∀ q, p.query q → r.query q → u.query q

variable {p r u : NodeProperty}

/-- A property that follows at every node from two others holds everywhere where both do. -/
theorem Joins.everywhere (h : p.Joins r u) :
    Plan.Cases (fun e => e.Everywhere p → e.Everywhere r → e.Everywhere u)
      fun q => q.Everywhere p → q.Everywhere r → q.Everywhere u where
  attr _ hp hr := by
    rw [Expr.everywhere_attr] at *
    exact h.expr _ hp hr
  const _ _ hp hr := by
    rw [Expr.everywhere_const] at *
    exact h.expr _ hp hr
  null _ hp hr := by
    rw [Expr.everywhere_null] at *
    exact h.expr _ hp hr
  apply _ _ _ ih hp hr := by
    rw [Expr.everywhere_apply] at *
    exact ⟨h.expr _ hp.1 hr.1, fun e member => ih e member (hp.2 e member) (hr.2 e member)⟩
  tuple _ ih hp hr := by
    rw [Expr.everywhere_tuple] at *
    exact ⟨h.expr _ hp.1 hr.1, fun e member => ih e member (hp.2 e member) (hr.2 e member)⟩
  aggregate _ _ ih hp hr := by
    rw [Expr.everywhere_aggregate] at *
    exact ⟨h.expr _ hp.1 hr.1, ih hp.2 hr.2⟩
  multiAggregate _ _ ih hp hr := by
    rw [Expr.everywhere_multiAggregate] at *
    exact ⟨h.expr _ hp.1 hr.1, fun e member => ih e member (hp.2 e member) (hr.2 e member)⟩
  case _ _ ihb ihd hp hr := by
    rw [Expr.everywhere_case] at *
    refine ⟨h.expr _ hp.1 hr.1, fun b member => ?_, ihd hp.2.2 hr.2.2⟩
    have first := hp.2.1 b member
    have second := hr.2.1 b member
    exact ⟨(ihb b member).1 first.1 second.1, (ihb b member).2 first.2 second.2⟩
  scalarSubquery _ ih hp hr := by
    rw [Expr.everywhere_scalarSubquery] at *
    exact ⟨h.expr _ hp.1 hr.1, ih hp.2 hr.2⟩
  setSubquery _ ih hp hr := by
    rw [Expr.everywhere_setSubquery] at *
    exact ⟨h.expr _ hp.1 hr.1, ih hp.2 hr.2⟩
  empty hp hr := by
    rw [Query.everywhere_empty] at *
    exact h.query _ hp hr
  table _ _ hp hr := by
    rw [Query.everywhere_table] at *
    exact h.query _ hp hr
  galaxy _ ih hp hr := by
    rw [Query.everywhere_galaxy] at *
    exact ⟨h.query _ hp.1 hr.1, ih hp.2 hr.2⟩
  project _ _ ihc ih hp hr := by
    rw [Query.everywhere_project] at *
    exact ⟨h.query _ hp.1 hr.1, fun c member => ihc c member (hp.2.1 c member) (hr.2.1 c member),
      ih hp.2.2 hr.2.2⟩
  restrict _ _ ihp ih hp hr := by
    rw [Query.everywhere_restrict] at *
    exact ⟨h.query _ hp.1 hr.1, ihp hp.2.1 hr.2.1, ih hp.2.2 hr.2.2⟩
  combine _ _ _ ihl ihr hp hr := by
    rw [Query.everywhere_combine] at *
    exact ⟨h.query _ hp.1 hr.1, ihl hp.2.1 hr.2.1, ihr hp.2.2 hr.2.2⟩
  grouping _ _ ihc ih hp hr := by
    rw [Query.everywhere_grouping] at *
    exact ⟨h.query _ hp.1 hr.1, fun c member => ihc c member (hp.2.1 c member) (hr.2.1 c member),
      ih hp.2.2 hr.2.2⟩
  order _ _ ihk ih hp hr := by
    rw [Query.everywhere_order] at *
    exact ⟨h.query _ hp.1 hr.1, fun k member => ihk k member (hp.2.1 k member) (hr.2.1 k member),
      ih hp.2.2 hr.2.2⟩
  top _ _ _ ih hp hr := by
    rw [Query.everywhere_top] at *
    exact ⟨h.query _ hp.1 hr.1, ih hp.2 hr.2⟩

end NodeProperty

section Monotone

variable {p r : NodeProperty}

/-- Two properties that hold everywhere in a query hold there together. -/
theorem Query.Everywhere.and {q : Query} (hp : q.Everywhere p) (hr : q.Everywhere r) :
    q.Everywhere (p.and r) := by
  have joins : p.Joins r (p.and r) := ⟨fun _ => And.intro, fun _ => And.intro⟩
  exact joins.everywhere.query q hp hr

/-- Two properties that hold everywhere in an expression hold there together. -/
theorem Expr.Everywhere.and {e : Expr} (hp : e.Everywhere p) (hr : e.Everywhere r) :
    e.Everywhere (p.and r) := by
  have joins : p.Joins r (p.and r) := ⟨fun _ => And.intro, fun _ => And.intro⟩
  exact joins.everywhere.expr e hp hr

/-- A property that holds everywhere in a query may be weakened node by node. -/
theorem Query.Everywhere.imp {q : Query} (he : ∀ e, p.expr e → r.expr e)
    (hq : ∀ q, p.query q → r.query q) (h : q.Everywhere p) : q.Everywhere r := by
  have joins : p.Joins p r := ⟨fun e node _ => he e node, fun q node _ => hq q node⟩
  exact joins.everywhere.query q h h

/-- A property that holds everywhere in an expression may be weakened node by node. -/
theorem Expr.Everywhere.imp {e : Expr} (he : ∀ e, p.expr e → r.expr e)
    (hq : ∀ q, p.query q → r.query q) (h : e.Everywhere p) : e.Everywhere r := by
  have joins : p.Joins p r := ⟨fun e node _ => he e node, fun q node _ => hq q node⟩
  exact joins.everywhere.expr e h h

theorem Query.Everywhere.left {q : Query} (h : q.Everywhere (p.and r)) : q.Everywhere p :=
  h.imp (fun _ (node : (p.and r).expr _) => node.1) fun _ (node : (p.and r).query _) => node.1

theorem Expr.Everywhere.left {e : Expr} (h : e.Everywhere (p.and r)) : e.Everywhere p :=
  h.imp (fun _ (node : (p.and r).expr _) => node.1) fun _ (node : (p.and r).query _) => node.1

theorem Expr.Everywhere.right {e : Expr} (h : e.Everywhere (p.and r)) : e.Everywhere r :=
  h.imp (fun _ (node : (p.and r).expr _) => node.2) fun _ (node : (p.and r).query _) => node.2

end Monotone

/-! ## Queries built from others -/

namespace Query

/-- References are nodes of their own. -/
theorem everywhere_attrs {p : NodeProperty} (attr : ∀ name, p.expr (.attr name))
    {names : List String} :
    ∀ e ∈ names.map Expr.attr, e.Everywhere p := by
  intro e member
  obtain ⟨name, _, rfl⟩ := List.mem_map.1 member
  rw [Expr.everywhere_attr]
  exact attr name

/-- A product, of which the empty relation is no factor. -/
theorem everywhere_combination {p : NodeProperty} {left right : Query}
    (node : left ≠ .empty → right ≠ .empty → p.query (.combine .product left right))
    (hl : left.Everywhere p)
    (hr : right.Everywhere p) : (combination .product left right).Everywhere p := by
  unfold combination
  split
  · exact hr
  · exact hl
  case h_3 leftFactor rightFactor =>
    rw [everywhere_combine]
    exact ⟨node (leftFactor rfl) (rightFactor rfl), hl, hr⟩

/-- A query under conditions. -/
theorem everywhere_restrictAll {p : NodeProperty}
    (node : ∀ predicate input, p.query (.restrict predicate input)) {predicates : List Expr}
    {q : Query} (tests : ∀ e ∈ predicates, e.Everywhere p) (h : q.Everywhere p) :
    (restrictAll predicates q).Everywhere p := by
  refine List.foldlRecOn predicates _ h fun q known predicate member => ?_
  rw [everywhere_restrict]
  exact ⟨node predicate q, tests predicate member, known⟩

/-- Queries joined to another one, under conditions, where no product or restriction is special. -/
theorem everywhere_joins {p : NodeProperty}
    (tests : ∀ predicate input, p.query (.restrict predicate input))
    (products : ∀ left right, left ≠ .empty → right ≠ .empty →
      p.query (.combine .product left right))
    {input : Query} {queries : List Query} {conditions : List Expr} (h : input.Everywhere p)
    (joined : ∀ q ∈ queries, q.Everywhere p) (onConditions : ∀ e ∈ conditions, e.Everywhere p) :
    (restrictAll conditions (productAll (input :: queries))).Everywhere p := by
  refine everywhere_restrictAll tests onConditions ?_
  rw [productAll, List.foldl_cons, combination_empty_left]
  exact List.foldlRecOn queries _ h fun q known other member =>
    everywhere_combination (products q other) known (joined other member)

end Query

end FlatPlan
