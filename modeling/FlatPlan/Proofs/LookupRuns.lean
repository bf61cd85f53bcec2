import FlatPlan.Proofs.Applications
import FlatPlan.Proofs.SampleVocabulary

/-!
# The joins of a flat expression

An application of an operator that looks something up is joined in its place: once its arguments are
flat, the query of the operator is flattened and projected to names of its own, and the condition of
the operator ties the columns to the flat arguments (`Joins`). `Expr.lookups` lists these
applications in the order in which a run meets them, and a flat expression brings exactly their
joins along, in this order (`Expr.joinRuns_of_yields`). So no join is lost or made twice, and no two
of them have a column in common (`Expr.joins_of_flatten`).
-/

namespace FlatPlan

open Pass

/-- An operator and its arguments. -/
abbrev Call := Operator × List Expr

mutual

/-- The applications of operators that look something up, those in the arguments first. A subquery
joins its own. -/
def Expr.lookups : Expr → List Call
  | .attr _ | .const _ _ | .null _ | .scalarSubquery _ | .setSubquery _ => []
  | .apply op args => Expr.itemLookups args ++ op.lookupSource?.toList.map fun _ => (op, args)
  | .tuple items => Expr.itemLookups items
  | .aggregate _ arg => arg.lookups
  | .multiAggregate _ args => Expr.itemLookups args
  | .case branches default => Expr.branchLookups branches ++ default.lookups

/-- Such applications in the expressions, from left to right. -/
def Expr.itemLookups : List Expr → List Call
  | [] => []
  | e :: es => e.lookups ++ Expr.itemLookups es

/-- Such applications in the branches of a choice, each condition before its result. -/
def Expr.branchLookups : List (Expr × Expr) → List Call
  | [] => []
  | (condition, result) :: branches =>
    condition.lookups ++ (result.lookups ++ Expr.branchLookups branches)

end

variable {check : Regime} {env : Environment} {schema : Schema} {s t u : PassState}

/-! ## One join -/

/-- What is joined for an application whose arguments are flat: the flat form of the query that the
operator looks up, projected to the next names, one for each of its columns, and the condition of
the operator over these columns. -/
inductive Joins (check : Regime) (env : Environment) (schema : Schema) :
    PassState → Call → Query → Expr → PassState → Prop
  | intro {op : Operator} {args : List Expr} {source underlying joined : Query}
    {condition result : Template} {parts : List Flattened} {types : List Ty} {bound : Environment}
    {columns : List Column} {restriction : Expr}
    {r s u t : PassState} (rule : op.flattening = .lookup source condition result)
    (arguments : (Expr.flattenItems check env schema args).runFrom r = (.ok parts, s))
    (typed : Expr.typesOf check schema args = .ok types)
    (run : (source.flatten check).runFrom s = (.ok (underlying, bound), u))
    (inferred : underlying.schemaOf check = .ok ⟨columns⟩)
    (renamed : Query.projection (Query.renamings (u.block columns.length) columns)
      underlying = .ok joined)
    (tied : condition.fill check.rules ⟨op, parts.map (·.expr), types,
      (u.block columns.length).map .attr⟩ = .ok restriction)
    (drawn : t = { u.after columns.length with
      events := u.events ++ [.lookupJoined op.name columns.length] }) :
    Joins check env schema s (op, args) joined restriction t

namespace Joins

variable {call : Call} {q : Query} {restriction : Expr}

theorem leads (h : Joins check env schema s call q restriction t) : s.Leads t := by
  obtain ⟨_, _, _, run, _, _, _, rfl⟩ := h
  exact ((Query.flatten_advances _ check).leads run).trans ⟨rfl, Nat.le_add_right _ _⟩

/-- The columns of a joined query are drawn for it. -/
theorem draws (h : Joins check env schema s call q restriction t) {name : String}
    (member : name ∈ q.outputNames) :
    s.Draws t name := by
  obtain ⟨_, _, _, run, _, renamed, _, rfl⟩ := h
  rw [Query.outputNames_projection renamed,
    Query.names_renamings (PassState.length_block _ _)] at member
  exact (PassState.draws_of_mem_block member).mono ((Query.flatten_advances _ check).leads run)
    ⟨rfl, Nat.le_refl _⟩

end Joins

/-! ## Joins one after the other -/

/-- The joins of applications in a run, each after the ones before it. -/
inductive JoinRuns (check : Regime) (env : Environment) (schema : Schema) :
    PassState → List Call → List Query → List Expr → PassState → Prop
  | nil {s t : PassState} (leads : s.Leads t) : JoinRuns check env schema s [] [] [] t
  | cons {s u w t : PassState} {call : Call} {q : Query} {restriction : Expr} {calls : List Call}
    {queries : List Query} {restrictions : List Expr} (before : s.Leads u)
    (first : Joins check env schema u call q restriction w)
    (rest : JoinRuns check env schema w calls queries restrictions t) :
    JoinRuns check env schema s (call :: calls) (q :: queries) (restriction :: restrictions) t

namespace JoinRuns

variable {calls calls' : List Call} {queries queries' : List Query}
  {restrictions restrictions' : List Expr}

theorem leads (h : JoinRuns check env schema s calls queries restrictions t) : s.Leads t := by
  induction h with
  | nil leads => exact leads
  | cons before first _ ih => exact before.trans (first.leads.trans ih)

/-- Steps in front of the first join make no difference. -/
theorem after (h : JoinRuns check env schema u calls queries restrictions t) (before : s.Leads u) :
    JoinRuns check env schema s calls queries restrictions t := by
  cases h with
  | nil leads => exact .nil (before.trans leads)
  | cons later first rest => exact .cons (before.trans later) first rest

theorem append (h : JoinRuns check env schema s calls queries restrictions u)
    (h' : JoinRuns check env schema u calls' queries' restrictions' t) :
    JoinRuns check env schema s (calls ++ calls') (queries ++ queries')
      (restrictions ++ restrictions') t := by
  induction h with
  | nil leads => exact h'.after leads
  | cons before first _ ih => exact .cons before first (ih h')

/-- There is one query and one condition for each application. -/
theorem length (h : JoinRuns check env schema s calls queries restrictions t) :
    queries.length = calls.length ∧ restrictions.length = calls.length := by
  induction h with
  | nil _ => exact ⟨rfl, rfl⟩
  | cons _ _ _ ih => exact ⟨congrArg (· + 1) ih.1, congrArg (· + 1) ih.2⟩

/-- The columns of all joined queries are drawn between the two states. -/
theorem draws (h : JoinRuns check env schema s calls queries restrictions t) :
    ∀ q ∈ queries, ∀ name ∈ q.outputNames, s.Draws t name := by
  induction h with
  | nil _ => exact fun _ member => absurd member List.not_mem_nil
  | cons before first rest ih =>
    refine List.forall_mem_cons.2 ⟨fun name member => ?_, fun q among name member => ?_⟩
    · exact (first.draws member).mono before rest.leads
    · exact (ih q among name member).mono (before.trans first.leads) (.refl _)

/-- No two joined queries have a column in common: the later one has later names. -/
theorem apart (h : JoinRuns check env schema s calls queries restrictions t) :
    queries.Pairwise fun p q => p.outputNames.Disjoint q.outputNames := by
  induction h with
  | nil _ => exact .nil
  | cons _ first rest ih =>
    refine .cons (fun q among name onFirst onLater => ?_) ih
    exact (first.draws onFirst).not_again first.leads (rest.draws q among name onLater)

end JoinRuns

/-! ## The pass -/

namespace LookupRuns

/-- The joins of the flat form of an expression are those of the applications that look something
up. -/
def OfExpr (e : Expr) : Prop :=
  ∀ ⦃check : Regime⦄ ⦃env : Environment⦄ ⦃schema : Schema⦄ ⦃s t : PassState⦄ ⦃part : Flattened⦄,
    (e.flatten check env schema).Yields s part t →
    JoinRuns check env schema s e.lookups part.queries part.restrictions t

theorem items {es : List Expr} {parts : List Flattened} (ih : ∀ e ∈ es, OfExpr e)
    (run : (Expr.flattenItems check env schema es).Yields s parts t) :
    JoinRuns check env schema s (Expr.itemLookups es) (parts.flatMap (·.queries))
      (parts.flatMap (·.restrictions)) t := by
  induction es generalizing s parts with
  | nil =>
    obtain ⟨rfl, rfl⟩ := Expr.yields_flattenItems_nil.1 run
    exact .nil (.refl t)
  | cons e es ih' =>
    rw [List.forall_mem_cons] at ih
    obtain ⟨part, u, first, rest, others, rfl⟩ := Expr.yields_flattenItems_cons.1 run
    exact (ih.1 first).append (ih' ih.2 others)

theorem branches {bs : List (Expr × Expr)} {parts : List (Flattened × Flattened)}
    (ih : ∀ b ∈ bs, OfExpr b.1 ∧ OfExpr b.2)
    (run : (Expr.flattenBranches check env schema bs).Yields s parts t) :
    JoinRuns check env schema s (Expr.branchLookups bs)
      ((parts.flatMap fun part => [part.1, part.2]).flatMap (·.queries))
      ((parts.flatMap fun part => [part.1, part.2]).flatMap (·.restrictions)) t := by
  induction bs generalizing s parts with
  | nil =>
    obtain ⟨rfl, rfl⟩ := Expr.yields_flattenBranches_nil.1 run
    exact .nil (.refl t)
  | cons b bs ih' =>
    rw [List.forall_mem_cons] at ih
    obtain ⟨first, u, condition, _, second, w, result, rest, others, rfl⟩ :=
      Expr.yields_flattenBranches_cons.1 run
    exact (ih.1.1 condition).append ((ih.1.2 result).append (ih' ih.2 others))

/-- An application that looks something up is joined after everything that its arguments join. -/
theorem apply {op : Operator} {args : List Expr} {part : Flattened} (ih : ∀ e ∈ args, OfExpr e)
    (run : ((Expr.apply op args).flatten check env schema).Yields s part t) :
    JoinRuns check env schema s (Expr.apply op args).lookups part.queries part.restrictions t := by
  rw [Expr.lookups]
  obtain ⟨parts, u, runArgs, ⟨noRule, rfl, rfl⟩ | ⟨_, types, joined, typed, join, flat⟩⟩ :=
    Expr.yields_flatten_application.1 run
  · have noLookup : op.lookupSource? = none := by
      unfold Operator.hasRule at noRule
      unfold Operator.lookupSource?
      split at noRule <;> simp_all
    rw [noLookup, Option.toList_none, List.map_nil, List.append_nil]
    exact items ih runArgs
  · rcases Application.flatten_cases flat with
      ⟨noLookup, e, rfl⟩ | ⟨source, condition, result, restriction, e, rule, tied, _, rfl⟩
    · rw [Operator.joinSource_eq_pure noLookup, yields_pure] at join
      obtain ⟨rfl, rfl⟩ := join
      rw [noLookup, Option.toList_none, List.map_nil, List.append_nil]
      exact items ih runArgs
    · have lookup : op.lookupSource? = some source := by rw [Operator.lookupSource?, rule]
      obtain ⟨underlying, bound, w, columns, renamed, runSource, inferred, renames, rfl, after⟩ :=
        (Query.yields_joinSource lookup).1 join
      have own : Joins check env schema u (op, args) renamed restriction t :=
        .intro rule runArgs typed runSource inferred renames tied after
      rw [lookup]
      exact (items ih runArgs).append (.cons (.refl u) own (.nil (.refl t)))

/-- Only expressions count: a subquery joins what it needs itself. -/
theorem cases : Plan.Cases OfExpr fun _ => True where
  attr name check env schema s t part run := by
    obtain ⟨rfl, rfl⟩ := Expr.yields_flatten_attr.1 run
    exact .nil (.refl t)
  const type value check env schema s t part run := by
    obtain ⟨e, _, rfl, rfl⟩ := Expr.yields_flatten_const.1 run
    exact .nil (.refl t)
  null type check env schema s t part run := by
    obtain ⟨rfl, rfl⟩ := Expr.yields_flatten_null.1 run
    exact .nil (.refl t)
  apply op args _ ih check env schema s t part run := apply ih run
  tuple es ih check env schema s t part run := by
    obtain ⟨parts, runItems, rfl⟩ := Expr.yields_flatten_tuple.1 run
    exact items ih runItems
  aggregate fn arg ih check env schema s t part run := by
    obtain ⟨flatArg, e, runArg, _, rfl⟩ := Expr.yields_flatten_aggregate.1 run
    have joins := ih runArg
    exact joins
  multiAggregate fn args _ check env schema s t part run :=
    (Expr.not_yields_flatten_multiAggregate run).elim
  case bs default ihb ihd check env schema s t part run := by
    obtain ⟨parts, u, runBranches, last, e, runDefault, _, rfl⟩ := Expr.yields_flatten_case.1 run
    have both := (branches ihb runBranches).append (ihd runDefault)
    simpa only [Flattened.gather, Expr.lookups, List.flatMap_append, List.flatMap_cons,
      List.flatMap_nil, List.append_nil] using both
  scalarSubquery query _ check env schema s t part run := by
    have leads := (Expr.flatten_advances _ check env schema).leads run
    obtain ⟨flat, _, rfl⟩ := Expr.yields_flatten_scalarSubquery.1 run
    exact .nil leads
  setSubquery query _ check env schema s t part run := by
    have leads := (Expr.flatten_advances _ check env schema).leads run
    obtain ⟨flat, _, rfl⟩ := Expr.yields_flatten_setSubquery.1 run
    exact .nil leads
  empty := trivial
  table _ _ := trivial
  galaxy _ _ := trivial
  project _ _ _ _ := trivial
  restrict _ _ _ _ := trivial
  combine _ _ _ _ _ := trivial
  grouping _ _ _ _ := trivial
  order _ _ _ _ := trivial
  top _ _ _ _ := trivial

end LookupRuns

namespace Expr

variable {e : Expr} {part : Flattened}

/-- A flat expression brings the joins of its lookups along, in the order in which a run meets
them. -/
theorem joinRuns_of_yields (run : (e.flatten check env schema).Yields s part t) :
    JoinRuns check env schema s e.lookups part.queries part.restrictions t :=
  (LookupRuns.cases).expr e run

/-- No join is lost or made twice: there is one query and one condition for each application that
looks something up, in evaluation order, and the columns of each query are drawn for it alone. -/
theorem joins_of_flatten (run : (e.flatten check env schema).runFrom s = (.ok part, t)) :
    part.queries.length = e.lookups.length ∧ part.restrictions.length = e.lookups.length ∧
      (part.isSelfContained = true ↔ e.lookups = []) ∧
      JoinRuns check env schema s e.lookups part.queries part.restrictions t ∧
      (∀ q ∈ part.queries, ∀ name ∈ q.outputNames, s.Draws t name) ∧
      part.queries.Pairwise fun p q => p.outputNames.Disjoint q.outputNames := by
  have runs := joinRuns_of_yields run
  obtain ⟨queries, restrictions⟩ := runs.length
  refine ⟨queries, restrictions, ?_, runs, runs.draws, runs.apart⟩
  rw [Flattened.isSelfContained, Bool.and_eq_true, List.isEmpty_iff_length_eq_zero,
    List.isEmpty_iff_length_eq_zero, queries, restrictions, and_self, List.length_eq_zero_iff]

end Expr

namespace Sample

/-- The nickname of a nickname beside a nickname, each looked up. -/
def nestedNicknames : Expr :=
  .tuple [.apply nickname [.apply nickname [.attr "b"]], .apply nickname [.attr "b"]]

/-- Three lookups, of which the first is made for the argument of the second, draw two names
each. -/
theorem nestedNicknames_joined : ∃ part t,
    (nestedNicknames.flatten session.permissive .empty ⟨[("b", .string)]⟩).runFrom start =
      (.ok part, t) ∧
    nestedNicknames.lookups.length = 3 ∧ part.queries.length = 3 ∧ part.isSelfContained = false ∧
    part.queries.map Query.outputNames = [["gx_1", "gx_2"], ["gx_3", "gx_4"], ["gx_5", "gx_6"]] ∧
    part.queries.Pairwise fun p q => p.outputNames.Disjoint q.outputNames := by
  refine ⟨_, _, rfl, rfl, ?_⟩
  have joins :=
    @Expr.joins_of_flatten session.permissive .empty ⟨[("b", .string)]⟩ start
      _ nestedNicknames _ rfl
  exact ⟨joins.1, Bool.eq_false_iff.2 (mt joins.2.2.1.1 (List.cons_ne_nil _ _)), rfl,
    joins.2.2.2.2.2⟩

end Sample

end FlatPlan
