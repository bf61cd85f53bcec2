import FlatPlan.Proofs.Everywhere
import FlatPlan.Proofs.OutputNames
import FlatPlan.Proofs.Steps

/-!
# The galaxies that a run expands

A galaxy is expanded anew wherever a run meets it: in the query itself, in subqueries, behind other
galaxies and in what operators look up. `Query.expansions` follows a run clause by clause and lists
the expansions, each with the columns of the query that stands in the galaxy's place. The events of
the run report the same expansions in the same order, also if the run fails. Main statement: all
their columns are drawn during the run, and no two expansions have a column in common
(`Query.traces_flatten`). The same walk through the pass shows that flattening only ever draws
names: the generator keeps its stem and takes no number back (`Expr.flatten_advances`,
`Query.flatten_advances`).
-/

namespace FlatPlan

open Pass

/-- A galaxy in a run, and the columns that it has become there. -/
structure Expansion where
  galaxy : String
  columns : List String
  deriving DecidableEq, Repr

/-- The expansions of a run from a state. -/
abbrev Trace := PassState → List Expansion

/-- Nothing is expanded. -/
def Trace.none : Trace := fun _ => []

/-- What a step expands, and then what comes after it does, if the step does not fail. -/
def Pass.traceThen {α : Type} (p : Pass α) (own : Trace) (next : α → Trace) : Trace := fun s =>
  match p.runFrom s with
  | (.ok a, t) => own s ++ next a t
  | (.error _, _) => own s

mutual

/-- The galaxies that flattening an expression expands. -/
def Expr.expansions (check : Regime) (env : Environment) (schema : Schema) : Expr → Trace
  | .attr _ | .const _ _ | .null _ | .multiAggregate _ _ => .none
  | .apply op args =>
    (Expr.flattenItems check env schema args).traceThen (Expr.itemExpansions check env schema args)
      fun _ =>
      if op.hasRule then
        (Pass.ofExcept (Expr.typesOf check schema args)).traceThen .none fun _ =>
          op.expansions check
      else .none
  | .tuple items => Expr.itemExpansions check env schema items
  | .aggregate _ arg => arg.expansions check env schema
  | .case branches default =>
    (Expr.flattenBranches check env schema branches).traceThen
      (Expr.branchExpansions check env schema branches) fun _ => default.expansions check env schema
  | .scalarSubquery query => (Pass.ofExcept (query.schemaOf check)).traceThen .none fun _ =>
      query.expansions check
  | .setSubquery query => (Pass.ofExcept (query.schemaOf check)).traceThen .none fun _ =>
      query.expansions check

/-- The galaxies that flattening expressions expands. -/
def Expr.itemExpansions (check : Regime) (env : Environment) (schema : Schema) : List Expr → Trace
  | [] => .none
  | e :: es => (e.flatten check env schema).traceThen (e.expansions check env schema) fun _ =>
      Expr.itemExpansions check env schema es

/-- The galaxies that flattening the branches of a choice expands. -/
def Expr.branchExpansions (check : Regime) (env : Environment) (schema : Schema) :
    List (Expr × Expr) → Trace
  | [] => .none
  | (condition, result) :: branches =>
    (condition.flatten check env schema).traceThen (condition.expansions check env schema)
      fun first =>
      if first.expr.isTuple then .none
      else (result.flatten check env schema).traceThen (result.expansions check env schema) fun _ =>
        Expr.branchExpansions check env schema branches

/-- The galaxies that flattening what an operator looks up expands. -/
def Operator.expansions (check : Regime) : Operator → Trace
  | ⟨_, _, _, .lookup source _ _⟩ => source.expansions check
  | _ => .none

/-- The galaxies that flattening a query expands. -/
def Query.expansions (check : Regime) : Query → Trace
  | .empty | .table _ _ => .none
  | .galaxy ⟨name, _, _, query⟩ =>
    (query.flatten check).traceThen (query.expansions check) fun underlying =>
      (underlying.1.rename check).traceThen .none fun renamed _ => [⟨name, renamed.1.outputNames⟩]
  | .project columns input =>
    (input.flatten check).traceThen (input.expansions check) fun flat =>
      (Pass.ofExcept (input.schemaOf check)).traceThen .none fun schema =>
        Query.columnExpansions check flat.2 schema columns
  | .restrict predicate input =>
    (input.flatten check).traceThen (input.expansions check) fun flat =>
      (Pass.ofExcept (input.schemaOf check)).traceThen .none fun schema =>
        predicate.expansions check flat.2 schema
  | .combine _ left right =>
    (left.flatten check).traceThen (left.expansions check) fun _ => right.expansions check
  | .grouping columns input =>
    (input.flatten check).traceThen (input.expansions check) fun flat =>
      (Pass.ofExcept (input.schemaOf check)).traceThen .none fun schema =>
        Query.groupExpansions check flat.2 schema columns
  | .order keys input =>
    (input.flatten check).traceThen (input.expansions check) fun flat =>
      (Pass.ofExcept (input.schemaOf check)).traceThen .none fun schema =>
        Query.keyExpansions check flat.2 schema keys
  | .top _ _ input => input.expansions check

/-- The galaxies that flattening the columns of a projection expands. -/
def Query.columnExpansions (check : Regime) (env : Environment) (schema : Schema) :
    List (String × Expr) → Trace
  | [] => .none
  | (name, e) :: columns =>
    (e.flatten check env schema).traceThen (e.expansions check env schema) fun flat =>
      (OutputColumn.ofFlattened name flat).traceThen .none fun _ =>
        Query.columnExpansions check env schema columns

/-- The galaxies that flattening the columns of a grouping expands. -/
def Query.groupExpansions (check : Regime) (env : Environment) (schema : Schema) :
    List (String × Expr) → Trace
  | [] => .none
  | (_, e) :: columns =>
    (e.flatten check env schema).traceThen (e.expansions check env schema) fun flat =>
      if flat.expr.isTuple || !flat.isSelfContained then .none
      else Query.groupExpansions check env schema columns

/-- The galaxies that flattening ordering keys expands. -/
def Query.keyExpansions (check : Regime) (env : Environment) (schema : Schema) :
    List (Expr × Direction) → Trace
  | [] => .none
  | (e, _) :: keys =>
    (e.flatten check env schema).traceThen (e.expansions check env schema) fun flat =>
      if !flat.isSelfContained then .none else Query.keyExpansions check env schema keys

end

/-! ## Accounts of a run -/

/-- The galaxy that an event reports to be expanded, and the number of its columns. -/
def Event.expansion? : Event → Option (String × Nat)
  | .galaxyExpanded name columns => some (name, columns)
  | _ => none

/-- The expansions that have been reported so far. -/
def PassState.reported (s : PassState) : List (String × Nat) := s.events.filterMap Event.expansion?

/-- The expansions between two states: they are reported in this order, and their columns are drawn
there, each column once and for one expansion only. -/
structure Accounts (l : List Expansion) (s t : PassState) : Prop where
  leads : s.Leads t
  reported : t.reported = s.reported ++ l.map fun x => (x.galaxy, x.columns.length)
  drawn : ∀ x ∈ l, ∀ name ∈ x.columns, s.Draws t name
  distinct : ∀ x ∈ l, x.columns.Nodup
  apart : l.Pairwise fun x y => x.columns.Disjoint y.columns

/-- Accounts of two runs, one after the other. What the second run draws has not been drawn in the
first. -/
theorem Accounts.append {l l' : List Expansion} {s u t : PassState} (h : Accounts l s u)
    (h' : Accounts l' u t) :
    Accounts (l ++ l') s t where
  leads := h.leads.trans h'.leads
  reported := by rw [h'.reported, h.reported, List.map_append, List.append_assoc]
  drawn :=
    List.forall_mem_append.2 ⟨fun x member name own => (h.drawn x member name own).mono (.refl s)
      h'.leads, fun x member name own => (h'.drawn x member name own).mono h.leads (.refl t)⟩
  distinct := List.forall_mem_append.2 ⟨h.distinct, h'.distinct⟩
  apart := by
    rw [List.pairwise_append]
    refine ⟨h.apart, h'.apart, fun x first y second name onFirst onSecond => ?_⟩
    exact (h.drawn x first name onFirst).not_again h.leads (h'.drawn y second name onSecond)

/-- Nothing is expanded where nothing is reported. -/
theorem accounts_nil {s t : PassState} (leads : s.Leads t) (silent : t.reported = s.reported) :
    Accounts [] s t :=
  ⟨leads, by rw [silent, List.map_nil, List.append_nil], fun _ member => (by cases member),
    fun _ member => (by cases member), .nil⟩

namespace Pass

variable {α β : Type}

/-- A trace accounts for every run of a pass, also one that fails. -/
def Traces (p : Pass α) (trace : Trace) : Prop :=
  ∀ s : PassState, Accounts (trace s) s (p.runFrom s).2

theorem traces_pure (a : α) : (pure a : Pass α).Traces .none := fun s => accounts_nil (.refl s) rfl

theorem traces_throw (e : Error) : (throw e : Pass α).Traces .none :=
  fun s => accounts_nil (.refl s) rfl

theorem traces_ofExcept (r : Except Error α) : (ofExcept r).Traces .none :=
  fun s => accounts_nil (.refl s) rfl

theorem traces_fresh : fresh.Traces .none := fun s => accounts_nil (s.leads_after 1) rfl

/-- Other events than expansions are not accounted for. -/
theorem traces_report {e : Event} (other : e.expansion? = none) : (report e).Traces .none := by
  intro s
  refine accounts_nil ⟨rfl, Nat.le_refl _⟩ ?_
  change (s.events ++ [e]).filterMap Event.expansion? = _
  rw [List.filterMap_append, List.filterMap_cons_none other, List.filterMap_nil, List.append_nil]
  rfl

/-- The expansions of two steps, one after the other. -/
theorem traces_bind {p : Pass α} {f : α → Pass β} {own : Trace} {next : α → Trace}
    (first : p.Traces own) (rest : ∀ a, (f a).Traces (next a)) :
    (p >>= f).Traces (p.traceThen own next) := by
  intro s
  have step := first s
  rw [runFrom_bind, traceThen]
  cases run : p.runFrom s with
  | mk result t =>
    rw [run] at step
    cases result with
    | ok a => exact step.append (rest a t)
    | error e => exact step

/-- A step after which nothing is expanded. -/
theorem traces_bind_none {p : Pass α} {f : α → Pass β} {own : Trace} (first : p.Traces own)
    (rest : ∀ a, (f a).Traces .none) : (p >>= f).Traces own := by
  have same : p.traceThen own (fun _ => .none) = own := by
    funext s
    unfold traceThen Trace.none
    split
    · exact List.append_nil _
    · rfl
  exact same ▸ traces_bind first rest

/-- The expansions of a decision. -/
theorem traces_ite {c : Prop} [Decidable c] {p q : Pass α} {first second : Trace}
    (hp : p.Traces first) (hq : q.Traces second) :
    (if c then p else q).Traces (if c then first else second) := by
  by_cases h : c
  · rw [if_pos h, if_pos h]; exact hp
  · rw [if_neg h, if_neg h]; exact hq

theorem traces_ite_none {c : Prop} [Decidable c] {p q : Pass α} (hp : p.Traces .none)
    (hq : q.Traces .none) :
    (if c then p else q).Traces .none := by
  have both := traces_ite (c := c) hp hq
  rwa [ite_self] at both

/-- A check that may fail before the rest. -/
theorem traces_guard {c : Prop} [Decidable c] {e : Error} {q : Pass α} {second : Trace}
    (hq : q.Traces second) :
    (if c then (throw e : Pass PUnit) >>= fun _ => q else q).Traces
      (if c then .none else second) := by
  refine traces_ite (fun s => ?_) hq
  exact accounts_nil (.refl s) rfl

end Pass

/-! ## Single steps -/

mutual

/-- Giving each leaf of a value a name of its own expands nothing. -/
theorem Expr.traces_spread : ∀ e : Expr, e.spread.Traces .none
  | .tuple items => by
    rw [Expr.spread]
    exact traces_bind_none (Expr.traces_spreadItems items) fun _ => traces_pure _
  | .attr _ | .const _ _ | .null _ | .apply _ _ | .aggregate _ _ | .multiAggregate _ _ | .case _ _
  | .scalarSubquery _ | .setSubquery _ => by
    simp only [Expr.spread]
    exact traces_bind_none traces_fresh fun _ => traces_pure _

theorem Expr.traces_spreadItems : ∀ es : List Expr, (Expr.spreadItems es).Traces .none
  | [] => traces_pure _
  | e :: es => by
    rw [Expr.spreadItems]
    exact traces_bind_none (Expr.traces_spread e) fun _ =>
      traces_bind_none (Expr.traces_spreadItems es) fun _ => traces_pure _

end

theorem OutputColumn.traces_ofFlattened (name : String) (flat : Flattened) :
    (OutputColumn.ofFlattened name flat).Traces .none := by
  unfold ofFlattened
  split
  · exact traces_bind_none (Expr.traces_spread _) fun _ => traces_pure _
  · exact traces_pure _

namespace Query

variable {check : TypeCheck}

theorem traces_freshColumns : ∀ columns : List Column, (freshColumns columns).Traces .none
  | [] => traces_pure _
  | (name, type) :: columns => by
    rw [freshColumns]
    exact traces_bind_none traces_fresh fun _ => traces_bind_none (traces_freshColumns columns)
      fun _ => traces_pure _

/-- Renaming the columns of a query expands nothing. -/
theorem traces_rename (q : Query) : (q.rename check).Traces .none :=
  traces_bind_none (traces_ofExcept _) fun _ => traces_bind_none (traces_freshColumns _) fun _ =>
    traces_bind_none (traces_ofExcept _) fun _ => traces_pure _

/-- A subquery expands what its query does, once its schema is known. -/
theorem traces_flattenSubquery {q : Query} {flatten : Pass (Query × Environment)} {trace : Trace}
    (h : flatten.Traces trace) : (q.flattenSubquery check flatten).Traces
      ((Pass.ofExcept (q.schemaOf check)).traceThen .none fun _ => trace) :=
  traces_bind (traces_ofExcept _) fun _ => traces_bind_none h fun ⟨_, _⟩ =>
    traces_ite_none (traces_bind_none (traces_throw _) fun _ => traces_pure _) (traces_pure _)

/-- The columns of a renamed query are the next names. -/
theorem accounts_of_rename {q : Query} {r : Query × List Expr} {s t : PassState} {name : String}
    (run : (q.rename check).Yields s r t) :
    Accounts [⟨name, r.1.outputNames⟩] s
      { t with events := t.events ++ [.galaxyExpanded name r.2.length] } := by
  obtain ⟨schema, renamed, infer, project, rfl, rfl⟩ := yields_rename.1 run
  have names : renamed.outputNames = s.block schema.columns.length := by
    obtain ⟨_, rfl⟩ := projection_eq_ok.1 project
    exact names_renamings (s.length_block _)
  constructor
  case leads => exact ⟨rfl, Nat.le_add_right _ _⟩
  case reported =>
    change (s.events ++ [_]).filterMap Event.expansion? = _
    rw [List.filterMap_append, names]
    simp [PassState.reported, Event.expansion?]
  case drawn =>
    rw [List.forall_mem_singleton, names]
    exact fun other member => PassState.draws_of_mem_block member
  case distinct =>
    rw [List.forall_mem_singleton, names]
    exact s.nodup_block _
  case apart => exact List.pairwise_singleton _ _

/-- A galaxy is expanded where the query behind it is renamed, and reports as many columns as it
draws. -/
theorem traces_expand {α : Type} (q : Query) (name : String) (result : Query × List Expr → α) :
    (q.rename check >>= fun r => report (.galaxyExpanded name r.2.length) >>= fun _ =>
      pure (result r)).Traces ((q.rename check).traceThen .none fun r _ =>
        [⟨name, r.1.outputNames⟩]) := by
  intro s
  have step : Accounts [] s ((q.rename check).runFrom s).2 := q.traces_rename s
  rw [runFrom_bind, traceThen]
  cases run : (q.rename check).runFrom s with
  | mk outcome t =>
    rw [run] at step
    cases outcome with
    | ok r => exact accounts_of_rename run
    | error e => exact step

end Query

/-! ## The pass -/

namespace GalaxyTrace

attribute [local simp] Expr.flatten Query.flatten Expr.expansions Query.expansions

/-- The expansions of an expression account for its runs. -/
def OfExpr (e : Expr) : Prop :=
  ∀ check env schema, (e.flatten check env schema).Traces (e.expansions check env schema)

/-- The expansions of a query account for its runs. -/
def OfQuery (q : Query) : Prop := ∀ check, (q.flatten check).Traces (q.expansions check)

variable {check : Regime} {env : Environment} {schema : Schema}

/-- The expansions of expressions, one after the other. -/
theorem items {es : List Expr} (h : ∀ e ∈ es, OfExpr e) :
    (Expr.flattenItems check env schema es).Traces (Expr.itemExpansions check env schema es) := by
  induction es with
  | nil =>
    rw [Expr.flattenItems, Expr.itemExpansions]
    exact traces_pure _
  | cons e es ih =>
    rw [List.forall_mem_cons] at h
    rw [Expr.flattenItems, Expr.itemExpansions]
    exact traces_bind (h.1 check env schema) fun _ => traces_bind_none (ih h.2) fun _ =>
      traces_pure _

/-- The expansions of branches. A condition that is a tuple ends the run. -/
theorem branches {bs : List (Expr × Expr)} (h : ∀ b ∈ bs, OfExpr b.1 ∧ OfExpr b.2) :
    (Expr.flattenBranches check env schema bs).Traces
      (Expr.branchExpansions check env schema bs) := by
  induction bs with
  | nil =>
    rw [Expr.flattenBranches, Expr.branchExpansions]
    exact traces_pure _
  | cons b bs ih =>
    rw [List.forall_mem_cons] at h
    rw [Expr.flattenBranches, Expr.branchExpansions]
    refine traces_bind (h.1.1 check env schema) fun first => traces_guard ?_
    exact traces_bind (h.1.2 check env schema) fun _ => traces_bind_none (ih h.2) fun _ =>
      traces_pure _

/-- The expansions of the columns of a projection. -/
theorem columns {cs : List (String × Expr)} (h : ∀ c ∈ cs, OfExpr c.2) :
    (Query.flattenColumns check env schema cs).Traces
      (Query.columnExpansions check env schema cs) := by
  induction cs with
  | nil =>
    rw [Query.flattenColumns, Query.columnExpansions]
    exact traces_pure _
  | cons c cs ih =>
    rw [List.forall_mem_cons] at h
    rw [Query.flattenColumns, Query.columnExpansions]
    exact traces_bind (h.1 check env schema) fun _ =>
      traces_bind (OutputColumn.traces_ofFlattened _ _) fun _ =>
      traces_bind_none (ih h.2) fun _ => traces_pure _

/-- The expansions of the columns of a grouping, up to the first that is refused. -/
theorem groups {cs : List (String × Expr)} (h : ∀ c ∈ cs, OfExpr c.2) :
    (Query.flattenGroups check env schema cs).Traces
      (Query.groupExpansions check env schema cs) := by
  induction cs with
  | nil =>
    rw [Query.flattenGroups, Query.groupExpansions]
    exact traces_pure _
  | cons c cs ih =>
    rw [List.forall_mem_cons] at h
    rw [Query.flattenGroups, Query.groupExpansions]
    refine traces_bind (h.1 check env schema) fun flat => traces_guard ?_
    exact traces_bind_none (ih h.2) fun _ => traces_pure _

/-- The expansions of ordering keys, up to the first that is refused. -/
theorem keys {ks : List (Expr × Direction)} (h : ∀ k ∈ ks, OfExpr k.1) :
    (Query.flattenKeys check env schema ks).Traces (Query.keyExpansions check env schema ks) := by
  induction ks with
  | nil =>
    rw [Query.flattenKeys, Query.keyExpansions]
    exact traces_pure _
  | cons k ks ih =>
    rw [List.forall_mem_cons] at h
    rw [Query.flattenKeys, Query.keyExpansions]
    refine traces_bind (h.1 check env schema) fun flat => traces_guard ?_
    exact traces_bind_none (ih h.2) fun _ => traces_pure _

/-- An operator expands what the query does that it looks up. -/
theorem joinSource {op : Operator} (h : ∀ source, op.lookupSource? = some source → OfQuery source) :
    (op.joinSource check).Traces (op.expansions check) := by
  obtain ⟨name, range, render, flattening⟩ := op
  cases flattening with
  | lookup source condition result =>
    rw [Operator.joinSource, Operator.expansions]
    exact traces_bind_none (h source rfl check) fun _ =>
      traces_bind_none (Query.traces_rename _) fun _ =>
      traces_bind_none (traces_report rfl) fun _ => traces_pure _
  | _ => exact traces_pure _

/-- The expansions account for the runs of every plan, node by node. -/
theorem cases : Plan.Cases OfExpr OfQuery where
  attr _ _ _ _ := by
    rw [Expr.flatten, Expr.expansions]
    exact traces_pure _
  const _ _ _ _ _ := by
    rw [Expr.flatten, Expr.expansions]
    exact traces_bind_none (traces_ofExcept _) fun _ => traces_pure _
  null _ _ _ _ := by
    rw [Expr.flatten, Expr.expansions]
    exact traces_pure _
  apply op args source ih check env schema := by
    rw [Expr.flatten, Expr.expansions]
    refine traces_bind (items ih) fun parts => traces_ite ?_ (traces_pure _)
    refine traces_bind (traces_ofExcept _) fun types => traces_bind_none (joinSource source) ?_
    rintro (_ | ⟨joined, refs⟩) <;> exact traces_ofExcept _
  tuple _ ih check env schema := by
    rw [Expr.flatten, Expr.expansions]
    exact traces_bind_none (items ih) fun _ => traces_pure _
  aggregate _ _ ih check env schema := by
    rw [Expr.flatten, Expr.expansions]
    exact traces_bind_none (ih check env schema) fun _ =>
      traces_bind_none (traces_ofExcept _) fun _ =>
      traces_pure _
  multiAggregate _ _ _ _ _ _ := by
    rw [Expr.flatten, Expr.expansions]
    exact traces_throw _
  case _ _ ihb ihd check env schema := by
    rw [Expr.flatten, Expr.expansions]
    exact traces_bind (branches ihb) fun _ => traces_bind_none (ihd check env schema) fun _ =>
      traces_bind_none (traces_ofExcept _) fun _ => traces_pure _
  scalarSubquery query ih check _ _ := by
    rw [Expr.flatten, Expr.expansions]
    exact traces_bind_none (Query.traces_flattenSubquery (ih check)) fun _ => traces_pure _
  setSubquery query ih check _ _ := by
    rw [Expr.flatten, Expr.expansions]
    exact traces_bind_none (Query.traces_flattenSubquery (ih check)) fun _ => traces_pure _
  empty _ := by
    rw [Query.flatten, Query.expansions]
    exact traces_pure _
  table _ _ _ := by
    rw [Query.flatten, Query.expansions]
    exact traces_pure _
  galaxy g ih check := by
    obtain ⟨name, _, _, query⟩ := g
    rw [Query.flatten, Query.expansions]
    exact traces_bind (ih check) fun underlying => underlying.1.traces_expand name fun r =>
      (r.1, NameMap.empty.insert name (Expr.tuple r.2))
  project _ _ ihc ih check := by
    rw [Query.flatten, Query.expansions]
    exact traces_bind (ih check) fun _ => traces_bind (traces_ofExcept _) fun _ =>
      traces_bind_none (columns ihc) fun _ => traces_pure _
  restrict _ _ ihp ih check := by
    rw [Query.flatten, Query.expansions]
    exact traces_bind (ih check) fun _ => traces_bind (traces_ofExcept _) fun _ =>
      traces_bind_none (ihp check _ _) fun _ => traces_bind_none (traces_ofExcept _) fun _ =>
        traces_pure _
  combine _ _ _ ihl ihr check := by
    rw [Query.flatten, Query.expansions]
    exact traces_bind (ihl check) fun _ => traces_bind_none (ihr check) fun _ =>
      traces_ite_none (traces_pure _) (traces_bind_none (traces_ofExcept _) fun _ =>
        traces_bind_none (traces_ofExcept _) fun _ => traces_ofExcept _)
  grouping _ _ ihc ih check := by
    rw [Query.flatten, Query.expansions]
    exact traces_bind (ih check) fun _ => traces_bind (traces_ofExcept _) fun _ =>
      traces_bind_none (groups ihc) fun _ => traces_pure _
  order _ _ ihk ih check := by
    rw [Query.flatten, Query.expansions]
    exact traces_bind (ih check) fun _ => traces_bind (traces_ofExcept _) fun _ =>
      traces_bind_none (keys ihk) fun _ => traces_pure _
  top _ _ _ ih check := by
    rw [Query.flatten, Query.expansions]
    exact traces_bind_none (ih check) fun _ => traces_pure _

end GalaxyTrace

/-- The expansions of an expression account for its runs. -/
theorem Expr.traces_flatten (e : Expr) : GalaxyTrace.OfExpr e := (GalaxyTrace.cases).expr e

/-- The expansions of a query account for its runs: a run draws the columns of each expansion for
that one only, and reports the expansions in order. -/
theorem Query.traces_flatten (q : Query) : GalaxyTrace.OfQuery q := (GalaxyTrace.cases).query q

/-! ## Numbers of fresh names -/

/-- A run that is accounted for takes no number back. -/
theorem Pass.Traces.advances {α : Type} {p : Pass α} {trace : Trace} (h : p.Traces trace) :
    p.Advances :=
  fun s => (h s).leads

theorem OutputColumn.ofFlattened_advances (name : String) (flat : Flattened) :
    (OutputColumn.ofFlattened name flat).Advances :=
  (OutputColumn.traces_ofFlattened name flat).advances

namespace Expr

/-- Flattening an expression takes no number back, also if it fails. -/
theorem flatten_advances (e : Expr) (check : Regime) (env : Environment) (schema : Schema) :
    (e.flatten check env schema).Advances :=
  (e.traces_flatten check env schema).advances

theorem flattenItems_advances (es : List Expr) (check : Regime) (env : Environment)
    (schema : Schema) :
    (flattenItems check env schema es).Advances :=
  (GalaxyTrace.items fun e _ => e.traces_flatten).advances

theorem flattenBranches_advances (bs : List (Expr × Expr)) (check : Regime) (env : Environment)
    (schema : Schema) : (flattenBranches check env schema bs).Advances :=
  (GalaxyTrace.branches fun b _ => ⟨b.1.traces_flatten, b.2.traces_flatten⟩).advances

end Expr

/-- Joining what an operator looks up takes no number back. -/
theorem Operator.joinSource_advances (op : Operator) (check : Regime) :
    (op.joinSource check).Advances :=
  (GalaxyTrace.joinSource fun source _ => source.traces_flatten).advances

namespace Query

/-- Flattening a query takes no number back, also if it fails. -/
theorem flatten_advances (q : Query) (check : Regime) : (q.flatten check).Advances :=
  (q.traces_flatten check).advances

theorem flattenColumns_advances (cs : List (String × Expr)) (check : Regime) (env : Environment)
    (schema : Schema) : (flattenColumns check env schema cs).Advances :=
  (GalaxyTrace.columns fun c _ => c.2.traces_flatten).advances

theorem flattenGroups_advances (cs : List (String × Expr)) (check : Regime) (env : Environment)
    (schema : Schema) : (flattenGroups check env schema cs).Advances :=
  (GalaxyTrace.groups fun c _ => c.2.traces_flatten).advances

theorem flattenKeys_advances (ks : List (Expr × Direction)) (check : Regime) (env : Environment)
    (schema : Schema) : (flattenKeys check env schema ks).Advances :=
  (GalaxyTrace.keys fun k _ => k.1.traces_flatten).advances

end Query

/-- A run that ends well leads from its first state to its last. -/
theorem Session.Flattens.leads {x : Session} {q flat : Query} {env : Environment} {s t : PassState}
    (h : x.Flattens q s flat env t) : s.Leads t :=
  (q.flatten_advances x.permissive).leads h.run

end FlatPlan
