import FlatPlan.Proofs.Inference
import FlatPlan.Proofs.LookupRuns
import FlatPlan.Proofs.Substitution

/-!
# Attributes of flat expressions

Flattening invents no attribute. A flat expression and the conditions on its joins read what the
flat forms of the attributes of the expression read, and columns of the joined queries
(`Flattened.Scoped`). Rules are taken to keep to what they are given and encoders to answer
expressions that read nothing (`Expr.Closed`), since either may answer any expression. Comparisons
of tuples and distributed choices need no such condition. Main statement: every attribute of the
flat form comes from one of three places (`Expr.attributes_of_flatten`).
-/

namespace FlatPlan

open Pass

namespace Expr

mutual

/-- The expression and all expressions inside it. A subquery has its own. -/
def nodes : Expr → List Expr
  | .apply op args => .apply op args :: itemNodes args
  | .tuple items => .tuple items :: itemNodes items
  | .aggregate fn arg => .aggregate fn arg :: arg.nodes
  | .multiAggregate fn args => .multiAggregate fn args :: itemNodes args
  | .case branches default => .case branches default :: (branchNodes branches ++ default.nodes)
  | .attr name => [.attr name]
  | .const type value => [.const type value]
  | .null type => [.null type]
  | .scalarSubquery query => [.scalarSubquery query]
  | .setSubquery query => [.setSubquery query]

/-- The expressions and all expressions inside them. -/
def itemNodes : List Expr → List Expr
  | [] => []
  | e :: es => e.nodes ++ itemNodes es

/-- The expressions inside the branches of a choice. -/
def branchNodes : List (Expr × Expr) → List Expr
  | [] => []
  | (condition, result) :: branches => condition.nodes ++ result.nodes ++ branchNodes branches

end

/-- The nodes of expressions are those of each of them. -/
theorem mem_itemNodes {es : List Expr} {node : Expr} : node ∈ itemNodes es ↔
    ∃ e ∈ es, node ∈ e.nodes := by
  induction es with
  | nil => simp [itemNodes]
  | cons e es ih => simp [itemNodes, ih]

theorem mem_branchNodes {bs : List (Expr × Expr)} {node : Expr} :
    node ∈ branchNodes bs ↔ ∃ b ∈ bs, node ∈ b.1.nodes ∨ node ∈ b.2.nodes := by
  induction bs with
  | nil => simp [branchNodes]
  | cons b bs ih => simp [branchNodes, ih, or_assoc]

/-- The attributes of expressions are those of each of them. -/
theorem mem_itemAttributes {es : List Expr} {name : String} :
    name ∈ itemAttributes es ↔ ∃ e ∈ es, name ∈ e.attributes := by
  induction es with
  | nil => simp [itemAttributes]
  | cons e es ih => simp [itemAttributes, ih]

theorem mem_branchAttributes {bs : List (Expr × Expr)} {name : String} :
    name ∈ branchAttributes bs ↔ ∃ b ∈ bs, name ∈ b.1.attributes ∨ name ∈ b.2.attributes := by
  induction bs with
  | nil => simp [branchAttributes]
  | cons b bs ih => simp [branchAttributes, ih, or_assoc]

end Expr

/-- Whether the answers of an operator's rule read nothing but what the arguments and the columns
read that it is given. -/
def Operator.Closed (rules : Rules) (op : Operator) : Prop :=
  ∀ template ∈ op.templates, ∀ (a : Application) (e : Expr), a.op = op →
    template.fill rules a = .ok e →
    ∀ name ∈ e.attributes, name ∈ Expr.itemAttributes a.args ∨ name ∈ Expr.itemAttributes a.columns

/-- Whether the rules that an expression applies are closed, and what its constants are stored as
reads nothing. -/
structure Expr.Closed (rules : Rules) (e : Expr) : Prop where
  applied : ∀ op args, .apply op args ∈ e.nodes → op.Closed rules
  stored : ∀ type value, .const type value ∈ e.nodes →
    rules.StoredAs (fun flat => flat.attributes = []) type value

namespace Expr.Closed

variable {rules : Rules} {e : Expr}

/-- A part of a closed expression is closed. -/
theorem mono {part : Expr} (h : e.Closed rules) (inside : part.nodes ⊆ e.nodes) :
    part.Closed rules :=
  ⟨fun op args among => h.applied op args (inside among),
    fun type value among => h.stored type value (inside among)⟩

/-- Flat expressions read only names in scope. -/
theorem items {es : List Expr} (h : e.Closed rules) (inside : itemNodes es ⊆ e.nodes) :
    ∀ part ∈ es, part.Closed rules :=
  fun part among => h.mono fun _ node => inside (mem_itemNodes.2 ⟨part, among, node⟩)

/-- Flat branches read only names in scope. -/
theorem branches {bs : List (Expr × Expr)} (h : e.Closed rules)
    (inside : branchNodes bs ⊆ e.nodes) :
    ∀ b ∈ bs, b.1.Closed rules ∧ b.2.Closed rules :=
  fun b among => ⟨h.mono fun _ node => inside (mem_branchNodes.2 ⟨b, among, .inl node⟩),
    h.mono fun _ node => inside (mem_branchNodes.2 ⟨b, among, .inr node⟩)⟩

end Expr.Closed

/-! ## Known attributes -/

/-- Whether an expression reads known attributes only. -/
def Expr.ReadsOnly (known : String → Prop) (e : Expr) : Prop := ∀ name ∈ e.attributes, known name

namespace Expr

variable {known wider : String → Prop} {e : Expr}

/-- What reads only known names reads only names of a wider kind. -/
theorem ReadsOnly.imp (h : e.ReadsOnly known) (imp : ∀ name, known name → wider name) :
    e.ReadsOnly wider :=
  fun name reads => imp name (h name reads)

theorem readsOnly_attr {name : String} : (attr name).ReadsOnly known ↔ known name :=
  List.forall_mem_singleton

/-- Expressions read only known names exactly if each of them does. -/
theorem readsOnly_items {es : List Expr} :
    (∀ name ∈ itemAttributes es, known name) ↔ ∀ e ∈ es, e.ReadsOnly known := by
  simp only [mem_itemAttributes, ReadsOnly]
  constructor
  · intro h e among name reads
    exact h name ⟨e, among, reads⟩
  · rintro h name ⟨e, among, reads⟩
    exact h e among name reads

theorem readsOnly_apply {op : Operator} {args : List Expr} :
    (apply op args).ReadsOnly known ↔ ∀ e ∈ args, e.ReadsOnly known := readsOnly_items

theorem readsOnly_tuple {items : List Expr} :
    (tuple items).ReadsOnly known ↔ ∀ e ∈ items, e.ReadsOnly known := readsOnly_items

/-- A choice reads what its parts read. -/
theorem readsOnly_case {branches : List (Expr × Expr)} {default : Expr}
    (each : ∀ b ∈ branches, b.1.ReadsOnly known ∧ b.2.ReadsOnly known)
    (last : default.ReadsOnly known) :
    (Expr.case branches default).ReadsOnly known := by
  intro name reads
  rcases List.mem_append.1 reads with reads | reads
  · obtain ⟨b, among, inCondition | inResult⟩ := mem_branchAttributes.1 reads
    · exact (each b among).1 name inCondition
    · exact (each b among).2 name inResult
  · exact last name reads

/-- A flat value reads what its leaves read. -/
theorem readsOnly_iff_leaves : e.ReadsOnly known ↔ ∀ leaf ∈ e.leaves, leaf.ReadsOnly known := by
  induction e using tuple_induction with
  | scalar e noTuple => rw [leaves_of_noTuple noTuple, List.forall_mem_singleton]
  | tuple items ih =>
    simp only [readsOnly_tuple, mem_leaves_tuple]
    constructor
    · rintro each leaf ⟨e, among, own⟩
      exact (ih e among).1 (each e among) leaf own
    · intro each e among
      exact (ih e among).2 fun leaf own => each leaf ⟨e, among, own⟩

theorem readsOnly_flattenNull (type : Ty) : (flattenNull type).ReadsOnly known :=
  readsOnly_iff_leaves.2 (of_flattenNull fun _ _ reads => absurd reads List.not_mem_nil)

/-- A flat aggregation reads what its argument reads. -/
theorem readsOnly_flattenAggregate {whole arg : Expr} {fn : Aggregate} (h : arg.ReadsOnly known)
    (flat : flattenAggregate whole fn arg = .ok e) : e.ReadsOnly known := by
  obtain ⟨own, rfl, rfl | leaf⟩ := flattenAggregate_cases flat
  · exact h
  · exact readsOnly_iff_leaves.1 h own leaf

/-- A flat choice reads what its conditions, its results and its default read, also where it is
distributed. -/
theorem readsOnly_flattenCase {whole default : Expr} {conditions results : List Expr}
    (onConditions : ∀ c ∈ conditions, c.ReadsOnly known)
    (onResults : ∀ r ∈ results, r.ReadsOnly known)
    (onDefault : default.ReadsOnly known)
    (flat : flattenCase whole conditions results default = .ok e) :
    e.ReadsOnly known := by
  obtain ⟨same, rfl⟩ := flattenCase_eq_ok.1 flat
  have choose : ∀ chosen default, (∀ r ∈ chosen, r.ReadsOnly known) → default.ReadsOnly known →
      (Expr.case (conditions.zip chosen) default).ReadsOnly known := by
    intro chosen default among own
    refine readsOnly_case (fun b member => ?_) own
    exact ⟨onConditions _ (List.of_mem_zip member).1, among _ (List.of_mem_zip member).2⟩
  exact readsOnly_iff_leaves.2 (of_distribute choose same
    (fun r member => readsOnly_iff_leaves.1 (onResults r member))
      (readsOnly_iff_leaves.1 onDefault))

end Expr

/-- The flat form of an application of a closed operator reads what its parts read. -/
theorem Application.readsOnly_of_flatten {rules : Rules} {known : String → Prop} {a : Application}
    {source : Option Query} {parts : List Flattened} {part : Flattened} (closed : a.op.Closed rules)
    (onArgs : ∀ e ∈ a.args, e.ReadsOnly known) (onColumns : ∀ c ∈ a.columns, c.ReadsOnly known)
    (flat : a.flatten rules source parts = .ok part) :
    part.expr.ReadsOnly known ∧ ∀ r ∈ part.restrictions, r ∈ parts.flatMap (·.restrictions) ∨
      r.ReadsOnly known := by
  refine of_flatten (fun e => Expr.readsOnly_iff_leaves.1)
    (fun args _ => Expr.readsOnly_apply.2) ?_ ?_ onArgs flat
  · intro joiner _ l r onLeft onRight
    rw [Expr.readsOnly_apply, List.forall_mem_cons, List.forall_mem_singleton]
    exact ⟨onLeft, onRight⟩
  · intro template member e fill name reads
    rcases closed template member a e rfl fill name reads with given | given
    · exact Expr.readsOnly_items.2 onArgs name given
    · exact Expr.readsOnly_items.2 onColumns name given

/-! ## What is in scope -/

/-- The names that the flat form of an expression with the attributes `own` may read: columns of the
queries it is joined with, and what the flat forms of the attributes read. -/
def Environment.InScope (env : Environment) (own : List String) (queries : List Query)
    (name : String) : Prop :=
  (∃ q ∈ queries, name ∈ q.outputNames) ∨ ∃ n ∈ own, name ∈ (env.resolve n).attributes

/-- A flat expression that reads, as its conditions do, what is in scope. -/
structure Flattened.Scoped (env : Environment) (own : List String) (part : Flattened) : Prop where
  expr : part.expr.ReadsOnly (env.InScope own part.queries)
  tests : ∀ r ∈ part.restrictions, r.ReadsOnly (env.InScope own part.queries)

variable {check : Regime} {env : Environment} {schema : Schema} {s t : PassState}
  {own names : List String} {queries joined : List Query}

/-- A name in scope stays there if more names are read or more queries joined. -/
theorem Environment.InScope.mono {name : String} (h : env.InScope own queries name)
    (wider : own ⊆ names) (more : queries ⊆ joined) : env.InScope names joined name := by
  rcases h with ⟨q, among, column⟩ | ⟨n, among, reads⟩
  · exact .inl ⟨q, more among, column⟩
  · exact .inr ⟨n, wider among, reads⟩

namespace Flattened.Scoped

variable {part : Flattened} {parts : List Flattened} {e : Expr}

theorem plain (h : e.ReadsOnly (env.InScope own [])) : (Flattened.plain e).Scoped env own :=
  ⟨h, fun _ member => absurd member List.not_mem_nil⟩

theorem widen (h : part.Scoped env own) (wider : own ⊆ names) : part.Scoped env names :=
  ⟨h.expr.imp fun _ known => known.mono wider (List.Subset.refl _),
    fun r member => (h.tests r member).imp fun _ known => known.mono wider (List.Subset.refl _)⟩

/-- What the parts of an expression read stays in scope if the joins of all of them come along. -/
theorem exprs_of_subset (each : ∀ part ∈ parts, part.Scoped env own)
    (more : parts.flatMap (·.queries) ⊆ queries) :
    ∀ part ∈ parts, part.expr.ReadsOnly (env.InScope own queries) := by
  intro part among
  refine (each part among).expr.imp fun _ known => known.mono (List.Subset.refl _)
    fun q inPart => ?_
  exact more (List.mem_flatMap.2 ⟨part, among, inPart⟩)

/-- The conditions of the parts read only names in scope of the whole. -/
theorem tests_of_subset (each : ∀ part ∈ parts, part.Scoped env own)
    (more : parts.flatMap (·.queries) ⊆ queries) :
    ∀ r ∈ parts.flatMap (·.restrictions), r.ReadsOnly (env.InScope own queries) := by
  intro r member
  obtain ⟨part, among, ofPart⟩ := List.mem_flatMap.1 member
  refine ((each part among).tests r ofPart).imp fun _ known => known.mono (List.Subset.refl _)
    fun q inPart => ?_
  exact more (List.mem_flatMap.2 ⟨part, among, inPart⟩)

/-- What is gathered from parts is in scope if it reads what they read. -/
theorem gather (each : ∀ part ∈ parts, part.Scoped env own)
    (whole : ∀ known : String → Prop, (∀ part ∈ parts, part.expr.ReadsOnly known) →
      e.ReadsOnly known) :
    (Flattened.gather parts e).Scoped env own :=
  ⟨whole _ (exprs_of_subset each (List.Subset.refl _)), tests_of_subset each (List.Subset.refl _)⟩

end Flattened.Scoped

/-! ## The pass -/

namespace AttributeScope

/-- The flat form of the expression reads what is in scope, if its rules and encoders are closed. -/
def OfExpr (check : Regime) (e : Expr) : Prop :=
  e.Closed check.rules →
    ∀ ⦃env : Environment⦄ ⦃schema : Schema⦄ ⦃s t : PassState⦄ ⦃part : Flattened⦄,
    (e.flatten check env schema).Yields s part t → part.Scoped env e.attributes

theorem items {es : List Expr} {parts : List Flattened} (ih : ∀ e ∈ es, OfExpr check e)
    (closed : ∀ e ∈ es, e.Closed check.rules)
    (run : (Expr.flattenItems check env schema es).Yields s parts t) :
    ∀ part ∈ parts, part.Scoped env (Expr.itemAttributes es) := by
  intro part member
  obtain ⟨e, among, _, _, _, runItem, _⟩ :=
    exists_of_mem_right (Expr.flattenItems_within run) member
  have inScope := ih e among (closed e among) runItem
  exact inScope.widen fun name reads => Expr.mem_itemAttributes.2 ⟨e, among, reads⟩

theorem branches {bs : List (Expr × Expr)} {parts : List (Flattened × Flattened)}
    (ih : ∀ b ∈ bs, OfExpr check b.1 ∧ OfExpr check b.2)
    (closed : ∀ b ∈ bs, b.1.Closed check.rules ∧ b.2.Closed check.rules)
    (run : (Expr.flattenBranches check env schema bs).Yields s parts t) :
    ∀ pair ∈ parts, pair.1.Scoped env (Expr.branchAttributes bs) ∧
      pair.2.Scoped env (Expr.branchAttributes bs) := by
  intro pair member
  obtain ⟨b, among, ⟨_, _, _, runCondition, _⟩, _, _, _, _, runResult, _⟩ :=
    exists_of_mem_right (Expr.flattenBranches_within run) member
  constructor
  · have inScope := (ih b among).1 (closed b among).1 runCondition
    exact inScope.widen fun name reads => Expr.mem_branchAttributes.2 ⟨b, among, .inl reads⟩
  · have inScope := (ih b among).2 (closed b among).2 runResult
    exact inScope.widen fun name reads => Expr.mem_branchAttributes.2 ⟨b, among, .inr reads⟩

/-- Encoders that answer expressions without attributes bring nothing into scope. -/
theorem const (type : Ty) (value : Value) : OfExpr check (.const type value) := by
  intro closed env schema s t part run
  obtain ⟨e, flat, rfl, _⟩ := Expr.yields_flatten_const.1 run
  have free : e.attributes = [] := closed.stored type value List.mem_cons_self e flat
  refine .plain fun name reads => ?_
  rw [free] at reads
  exact absurd reads List.not_mem_nil

/-- The references that a lookup is given are the columns of the query joined for it. -/
theorem columns {op : Operator} {joined : Option (Query × List Expr)}
    (join : (op.joinSource check).Yields s joined t)
    (kept : op.lookupSource? ≠ none → (joined.map Prod.fst).toList ⊆ queries) :
    ∀ c ∈ (joined.map Prod.snd).getD [], c.ReadsOnly (env.InScope own queries) := by
  rcases Operator.joinSource_cases join with
    ⟨rfl, _⟩ | ⟨source, underlying, bound, u, columns, renamed, lookup, _, _, renames, rfl, _⟩
  · exact fun _ member => absurd member List.not_mem_nil
  · intro c member
    obtain ⟨name, drawn, rfl⟩ := List.mem_map.1 member
    have column : name ∈ renamed.outputNames := by
      rw [Query.outputNames_projection renames, Query.names_renamings (PassState.length_block _ _)]
      exact drawn
    have among : renamed ∈ queries := kept (by simp [lookup]) (List.mem_singleton.2 rfl)
    exact Expr.readsOnly_attr.2 (.inl ⟨renamed, among, column⟩)

/-- A flat application reads what its arguments read and the columns of the query that is joined for
it. -/
theorem apply {op : Operator} {args : List Expr} (ih : ∀ e ∈ args, OfExpr check e) :
    OfExpr check (.apply op args) := by
  intro closed env schema s t part run
  obtain ⟨parts, u, types, joined, runArgs, join, flat⟩ := Expr.exists_application run
  have each := items ih (closed.items (List.subset_cons_self _ _)) runArgs
  have joins := Application.queries_of_flatten flat
  -- the joins of the arguments come along, so a condition of one may refer to columns of another
  have more : parts.flatMap (·.queries) ⊆ part.queries := by
    rcases joins with ⟨_, equal⟩ | equal
    · exact equal ▸ List.Subset.refl _
    · exact equal ▸ List.subset_append_left _ _
  have kept : op.lookupSource? ≠ none → (joined.map Prod.fst).toList ⊆ part.queries := by
    intro lookup
    rcases joins with ⟨noLookup, _⟩ | equal
    · exact absurd noLookup lookup
    · exact equal ▸ List.subset_append_right _ _
  obtain ⟨whole, tests⟩ :=
    Application.readsOnly_of_flatten (closed.applied op args List.mem_cons_self)
      (List.forall_mem_map.2 (Flattened.Scoped.exprs_of_subset each more)) (columns join kept) flat
  refine ⟨whole, fun r member => ?_⟩
  rcases tests r member with before | reads
  · exact Flattened.Scoped.tests_of_subset each more r before
  · exact reads

/-- A flat choice reads only names in scope. -/
theorem case {bs : List (Expr × Expr)} {default : Expr}
    (ihb : ∀ b ∈ bs, OfExpr check b.1 ∧ OfExpr check b.2) (ihd : OfExpr check default) :
    OfExpr check (.case bs default) := by
  intro closed env schema s t part run
  have inside : Expr.branchNodes bs ++ default.nodes ⊆ (Expr.case bs default).nodes :=
    List.subset_cons_self _ _
  obtain ⟨parts, u, runBranches, last, e, runDefault, flat, rfl⟩ := Expr.yields_flatten_case.1 run
  have inBranches :=
    branches ihb (closed.branches fun _ node => inside (List.mem_append_left _ node)) runBranches
  have inDefault := ihd (closed.mono fun _ node => inside (List.mem_append_right _ node)) runDefault
  rw [Expr.attributes]
  refine .gather (Expr.forall_mem_choice (fun pair among => ?_) ?_) fun known reads => ?_
  · exact ⟨(inBranches pair among).1.widen (List.subset_append_left _ _),
      (inBranches pair among).2.widen (List.subset_append_left _ _)⟩
  · exact inDefault.widen (List.subset_append_right _ _)
  · rw [List.forall_mem_append, List.forall_mem_singleton] at reads
    refine Expr.readsOnly_flattenCase (List.forall_mem_map.2 fun pair among => ?_)
      (List.forall_mem_map.2 fun pair among => ?_) reads.2 flat
    · exact reads.1 pair.1 (List.mem_flatMap.2 ⟨pair, among, List.mem_cons_self⟩)
    · exact reads.1 pair.2 (List.mem_flatMap.2 ⟨pair, among,
        List.mem_cons_of_mem _ List.mem_cons_self⟩)

/-- Only expressions count: a subquery reads rows of its own. -/
theorem cases : Plan.Cases (OfExpr check) fun _ => True where
  attr name _ env schema s t part run := by
    obtain ⟨rfl, _⟩ := Expr.yields_flatten_attr.1 run
    exact .plain fun n reads => .inr ⟨name, List.mem_singleton.2 rfl, reads⟩
  const := const
  null type _ env schema s t part run := by
    obtain ⟨rfl, _⟩ := Expr.yields_flatten_null.1 run
    exact .plain (Expr.readsOnly_flattenNull type)
  apply op args _ ih := apply ih
  tuple es ih closed env schema s t part run := by
    obtain ⟨parts, runItems, rfl⟩ := Expr.yields_flatten_tuple.1 run
    exact .gather (items ih (closed.items (List.subset_cons_self _ _)) runItems) fun known reads =>
      Expr.readsOnly_tuple.2 (List.forall_mem_map.2 reads)
  aggregate fn arg ih closed env schema s t part run := by
    obtain ⟨flatArg, e, runArg, flat, rfl⟩ := Expr.yields_flatten_aggregate.1 run
    have inScope := ih (closed.mono (List.subset_cons_self _ _)) runArg
    exact ⟨Expr.readsOnly_flattenAggregate inScope.expr flat, inScope.tests⟩
  multiAggregate fn args _ _ env schema s t part run :=
    (Expr.not_yields_flatten_multiAggregate run).elim
  case bs default ihb ihd := case ihb ihd
  scalarSubquery query _ _ env schema s t part run := by
    obtain ⟨flat, _, rfl⟩ := Expr.yields_flatten_scalarSubquery.1 run
    exact .plain fun _ reads => absurd reads List.not_mem_nil
  setSubquery query _ _ env schema s t part run := by
    obtain ⟨flat, _, rfl⟩ := Expr.yields_flatten_setSubquery.1 run
    exact .plain fun _ reads => absurd reads List.not_mem_nil
  empty := trivial
  table _ _ := trivial
  galaxy _ _ := trivial
  project _ _ _ _ := trivial
  restrict _ _ _ _ := trivial
  combine _ _ _ _ _ := trivial
  grouping _ _ _ _ := trivial
  order _ _ _ _ := trivial
  top _ _ _ _ := trivial

end AttributeScope

/-! ## Schemas of joined queries -/

section JoinedSchemas

variable {x : Session}

/-- A joined query renames the columns of a query that has a schema, so it has one as well. -/
theorem Joins.infers {call : Call} {q : Query} {restriction : Expr}
    (h : Joins x.permissive env schema s call q restriction t) : q.Infers x := by
  obtain ⟨_, _, _, _, inferred, renamed, _, _⟩ := h
  refine Query.infers_projection renamed ⟨_, inferred⟩ fun c member => ?_
  obtain ⟨d, among, equal⟩ := Query.exists_of_mem_renamings member
  refine ⟨d.1, ?_, equal⟩
  rw [← Query.names_of_schemaOf inferred]
  exact List.mem_map_of_mem among

/-- The queries that are joined have schemas. -/
theorem JoinRuns.infers {calls : List Call} {queries : List Query} {restrictions : List Expr}
    (h : JoinRuns x.permissive env schema s calls queries restrictions t) :
    ∀ q ∈ queries, q.Infers x := by
  induction h with
  | nil _ => exact fun _ member => absurd member List.not_mem_nil
  | cons _ first _ ih => exact List.forall_mem_cons.2 ⟨first.infers, ih⟩

end JoinedSchemas

/-- Flattening invents no attribute: what the flat form of an expression reads, or a condition on
its joins, is a column of a joined query, an attribute of the expression that is a flat column
itself, or read by the flat form of an attribute of the expression. -/
theorem Expr.attributes_of_flatten {capabilities : Capabilities} {rules : Rules} {e : Expr}
    {part : Flattened} (applied : ∀ op args, .apply op args ∈ e.nodes → op.Closed rules)
    (stored : ∀ type value, .const type value ∈ e.nodes →
      rules.StoredAs (fun flat => flat.attributes = []) type value)
    (run : (e.flatten ⟨⟨false, capabilities⟩, rules⟩ env schema).runFrom s = (.ok part, t)) :
    ∀ flat ∈ part.expr :: part.restrictions, ∀ name ∈ flat.attributeNames,
      (∃ q ∈ part.queries, ∃ columns, q.inferSchema capabilities = .ok columns ∧
        name ∈ columns.names) ∨
      (name ∈ e.attributeNames ∧ env.find? name = none) ∨
      ∃ own ∈ e.attributeNames, ∃ rep, env.find? own = some rep ∧ name ∈ rep.attributeNames := by
  have inScope := (AttributeScope.cases).expr e ⟨applied, stored⟩ run
  -- in permissive mode a renamed query has a schema whatever the types of its columns
  have infers :=
    @JoinRuns.infers env schema s t ⟨capabilities, rules, s.names.stem⟩
      _ _ _ (joinRuns_of_yields run)
  have all : ∀ flat ∈ part.expr :: part.restrictions,
      flat.ReadsOnly (env.InScope e.attributes part.queries) :=
    List.forall_mem_cons.2 ⟨inScope.expr, inScope.tests⟩
  intro flat member name reads
  simp only [mem_attributeNames] at reads ⊢
  rcases all flat member name reads with ⟨q, among, column⟩ | ⟨own, among, reads⟩
  · obtain ⟨columns, inferred⟩ := infers q among
    exact .inl ⟨q, among, columns, inferred, Query.names_of_schemaOf inferred ▸ column⟩
  · unfold Environment.resolve at reads
    cases bound : env.find? own with
    | none =>
      rw [bound] at reads
      obtain rfl : name = own := List.mem_singleton.1 reads
      exact .inr (.inl ⟨among, bound⟩)
    | some rep =>
      rw [bound] at reads
      exact .inr (.inr ⟨own, among, rep, bound, reads⟩)

namespace Sample

theorem nickname_closed {rules : Rules} : nickname.Closed rules := by
  intro template member a e _ filled name reads
  rw [Expr.mem_itemAttributes, Expr.mem_itemAttributes]
  rcases nickname_fills member filled with column | ⟨column, amongColumns, arg, amongArgs, rfl⟩
  · exact .inr ⟨e, column, reads⟩
  · obtain ⟨part, among, own⟩ := Expr.mem_itemAttributes.1 reads
    rcases List.mem_cons.1 among with rfl | among
    · exact .inr ⟨part, amongColumns, own⟩
    · exact .inl ⟨arg, amongArgs, List.mem_singleton.1 among ▸ own⟩

/-- The choice of the greater argument reads its arguments only. -/
theorem greater_closed : greater.Closed rules := by
  intro template member a e _ filled name reads
  obtain ⟨left, onLeft, right, onRight, rfl⟩ := greater_fills member filled
  have either : name ∈ left.attributes ∨ name ∈ right.attributes := by
    simp only [Expr.attributes, Expr.branchAttributes, Expr.itemAttributes, List.mem_append,
      List.not_mem_nil, or_false] at reads
    tauto
  refine .inl (Expr.mem_itemAttributes.2 ?_)
  rcases either with own | own
  · exact ⟨left, onLeft, own⟩
  · exact ⟨right, onRight, own⟩

/-- A person and one who goes by one name, beside the nickname of a nickname and the greater of two
numbers. -/
def portrait : Expr :=
  .tuple [.attr "p", plato, .apply nickname [.apply nickname [.attr "b"]],
    .apply greater [.attr "a", one]]

/-- The person is carried by two columns. -/
def personColumns : Environment := NameMap.empty.insert "p" (.tuple [.attr "gx_8", .attr "gx_9"])

/-- The columns of a row with a person. -/
def portraitRows : Schema := ⟨[("p", personType), ("a", .integer), ("b", .string)]⟩

theorem portrait_applied : ∀ op args, .apply op args ∈ portrait.nodes → op.Closed rules := by
  intro op args among
  simp only [portrait, plato, one, Expr.nodes, Expr.itemNodes, List.cons_append, List.nil_append,
    List.append_nil, List.mem_cons, List.not_mem_nil, or_false, Expr.apply.injEq, reduceCtorEq,
    false_or] at among
  rcases among with ⟨rfl, _⟩ | ⟨rfl, _⟩ | ⟨rfl, _⟩
  · exact nickname_closed
  · exact nickname_closed
  · exact greater_closed

theorem portrait_stored : ∀ type value, .const type value ∈ portrait.nodes →
    rules.StoredAs (fun flat => flat.attributes = []) type value := by
  intro type value among
  simp only [portrait, plato, one, Expr.nodes, Expr.itemNodes, List.cons_append, List.nil_append,
    List.append_nil, List.mem_cons, List.not_mem_nil, or_false, Expr.const.injEq, reduceCtorEq,
    false_or] at among
  rcases among with ⟨rfl, rfl⟩ | ⟨rfl, rfl⟩
  all_goals
    rintro e ⟨⟩
    rfl

/-- The person is read in two columns, and the condition of the second lookup reads a column of the
first one. -/
theorem portrait_scoped : ∃ part t,
    (portrait.flatten session.permissive personColumns portraitRows).runFrom start = (.ok part, t) ∧
    part.expr.attributeNames = ["a", "gx_4", "gx_8", "gx_9"] ∧
    part.restrictions.map Expr.attributeNames = [["b", "gx_1"], ["gx_2", "gx_3"]] ∧
    ∀ flat ∈ part.expr :: part.restrictions, ∀ name ∈ flat.attributeNames,
      (∃ q ∈ part.queries, ∃ columns, q.inferSchema .empty = .ok columns ∧ name ∈ columns.names) ∨
      (name ∈ portrait.attributeNames ∧ personColumns.find? name = none) ∨
      ∃ own ∈ portrait.attributeNames, ∃ rep, personColumns.find? own = some rep ∧
        name ∈ rep.attributeNames := by
  refine ⟨_, _, rfl, by decide, by decide, ?_⟩
  exact @Expr.attributes_of_flatten personColumns portraitRows start _ .empty rules portrait
    _ portrait_applied portrait_stored rfl

end Sample

end FlatPlan
