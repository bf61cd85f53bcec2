import FlatPlan.Proofs.RelabelledParts

/-!
# Runs under new names

A run with another name generator does the same under new names. A `Renaming` takes the next names
of the one generator to those of the other and keeps the names of the plan. Main statement: where
the rules of all operators commute with such renamings and the encoders answer what these keep, both
runs fail or the answer of the second is that of the first under new names, and in any case they
draw equally many names (`Query.follows_flatten`).
-/

namespace FlatPlan

open Pass

/-- The rule of an operator commutes with every injective renaming that keeps the `own` names. -/
def Operator.Equivariant (rules : Rules) (own : String → Prop) (op : Operator) : Prop :=
  ∀ σ : String → String, Function.Injective σ → (∀ name, own name → σ name = name) →
    op.Commutes rules σ

/-- Every injective renaming that keeps the `own` names keeps the expression. -/
def Expr.Invariant (own : String → Prop) (e : Expr) : Prop :=
  ∀ σ : String → String, Function.Injective σ → (∀ name, own name → σ name = name) → e.relabel σ = e

/-- A node mentions `own` names only, its operator is equivariant and looks up queries of `sources`,
and what it is stored as is invariant. -/
def NodeProperty.equivariant (rules : Rules) (own : String → Prop) (sources : Query → Prop) :
    NodeProperty :=
  (NodeProperty.mentioning own).and
    (.relying sources (Operator.Equivariant rules own) (rules.StoredAs (Expr.Invariant own)))

/-- The `i`-th of the names that come next, counted from zero. -/
def FreshNames.next (g : FreshNames) (i : Nat) : String := numbered g.stem (g.issued + i + 1)

/-- An injective renaming that keeps the `own` names and takes the next `count` names of one
generator to those of another. -/
structure Renaming (own : String → Prop) (source target : FreshNames) (count : Nat) where
  map : String → String
  injective : Function.Injective map
  fixes : ∀ name, own name → map name = name
  takes : ∀ i, i < count → map (source.next i) = target.next i

variable {own : String → Prop} {sources : Query → Prop} {source target : FreshNames} {count : Nat}

/-- Both generators have issued equally many names since the start. -/
def Renaming.Pairs (_ : Renaming own source target count) (s s' : PassState) : Prop :=
  ∃ i, s.names = ⟨source.stem, source.issued + i⟩ ∧ s'.names = ⟨target.stem, target.issued + i⟩

/-- The renaming takes all names that the first generator has issued since the start. -/
def Renaming.Covers (_ : Renaming own source target count) (s : PassState) : Prop :=
  s.names.issued ≤ source.issued + count

/-- A renaming that covers all names up to a state covers those up to an earlier one. -/
theorem Renaming.Covers.of_leads {r : Renaming own source target count} {s t : PassState}
    (covers : r.Covers t) (leads : s.Leads t) : r.Covers s :=
  Nat.le_trans leads.issued covers

/-! ## Passes side by side -/

/-- From paired states the second pass answers what the first one does, under `f`, and the states
after it are paired again, as long as the renaming covers the names drawn. -/
structure Pass.Follows {α β : Type} (r : Renaming own source target count) (f : α → β) (p : Pass α)
    (p' : Pass β) :
    Prop where
  advances : p.Advances
  runs : ∀ ⦃s s' : PassState⦄, r.Pairs s s' → r.Covers (p.runFrom s).2 →
    Alike f (p.runFrom s).1 (p'.runFrom s').1 ∧ r.Pairs (p.runFrom s).2 (p'.runFrom s').2

namespace Pass

variable {r : Renaming own source target count} {α α' β β' : Type} {f : α → α'} {g : β → β'}

/-- Steps that neither draw names nor report follow each other if their outcomes are alike. -/
theorem follows_ofExcept {e : Except Error α} {e' : Except Error α'} (alike : Alike f e e') :
    (ofExcept e).Follows r f (ofExcept e') :=
  ⟨advances_ofExcept e, fun _ _ pairs _ => ⟨alike, pairs⟩⟩

theorem follows_pure {a : α} {b : α'} (same : b = f a) : (pure a : Pass α).Follows r f (pure b) :=
  follows_ofExcept (.of_eq same)

theorem follows_throw (e e' : Error) : (throw e : Pass α).Follows r f (throw e') :=
  follows_ofExcept (.error e e')

theorem follows_report (e e' : Event) : (report e).Follows r id (report e') :=
  ⟨advances_report e, fun _ _ pairs _ => ⟨.ok (), pairs⟩⟩

/-- The next names of both generators are partners. -/
theorem follows_fresh : fresh.Follows r r.map fresh where
  advances := advances_fresh
  runs := by
    rintro s s' ⟨i, before, before'⟩ covers
    rw [runFrom_fresh] at covers ⊢
    rw [runFrom_fresh]
    have below : i < count := by
      have drawn : s.names.issued + 1 ≤ source.issued + count := covers
      rw [before] at drawn
      exact Nat.lt_of_add_lt_add_left (Nat.lt_of_succ_le drawn)
    refine ⟨?_, i + 1, ?_, ?_⟩
    · rw [before, before']
      exact .of_eq (r.takes i below).symm
    · rw [PassState.after, before]
      rfl
    · rw [PassState.after, before']
      rfl

/-- Passes that follow each other step by step do so as a whole. The renaming covers what the first
step draws, since the rest takes no number back. -/
theorem follows_bind {p : Pass α} {p' : Pass α'} {k : α → Pass β} {k' : α' → Pass β'}
    (first : p.Follows r f p') (rest : ∀ a, (k a).Follows r g (k' (f a))) :
    (p >>= k).Follows r g (p' >>= k') where
  advances := advances_bind first.advances fun a => (rest a).advances
  runs := by
    intro s s' pairs covers
    -- what the whole run draws is covered, so what its first step draws is
    have step := first.runs pairs
    rw [runFrom_bind] at covers ⊢
    rw [runFrom_bind]
    generalize p.runFrom s = run at step covers ⊢
    generalize p'.runFrom s' = run' at step ⊢
    obtain ⟨result, t⟩ := run
    obtain ⟨result', t'⟩ := run'
    cases result with
    | ok a =>
      obtain ⟨alike, paired⟩ := step (covers.of_leads ((rest a).advances t))
      cases alike
      exact (rest a).runs paired covers
    | error e =>
      obtain ⟨alike, paired⟩ := step covers
      cases alike
      exact ⟨.error _ _, paired⟩

/-- A step that needs no state: what follows may use what it has answered. -/
theorem follows_bind_ofExcept {e : Except Error α} {e' : Except Error α'} {k : α → Pass β}
    {k' : α' → Pass β'} (first : Alike f e e')
    (rest : ∀ a, e = .ok a → (k a).Follows r g (k' (f a))) :
    (ofExcept e >>= k).Follows r g (ofExcept e' >>= k') := by
  cases first with
  | ok a => exact rest a rfl
  | error e e' => exact follows_ofExcept (.error e e')

/-- Passes that follow each other in both cases of a decision follow each other. -/
theorem follows_ite {c : Prop} [Decidable c] {p q : Pass α} {p' q' : Pass α'}
    (hp : p.Follows r f p') (hq : q.Follows r f q') :
    (if c then p else q).Follows r f (if c then p' else q') := by
  by_cases h : c
  · rw [if_pos h, if_pos h]; exact hp
  · rw [if_neg h, if_neg h]; exact hq

/-- A test that ends both passes. -/
theorem follows_guard {c : Prop} [Decidable c] {e e' : Error} {p : Pass α} {p' : Pass α'}
    (h : p.Follows r f p') :
    (if c then throw e >>= fun _ : PUnit => p else p).Follows r f
      (if c then throw e' >>= fun _ : PUnit => p' else p') :=
  follows_ite (follows_bind (f := id) (follows_throw e e') fun _ => h) h

end Pass

/-! ## Single steps -/

variable {r : Renaming own source target count} {check : Regime} {env : Environment}
  {schema : Schema}

mutual

/-- The leaves of a renamed value are given names that are partners of the names of its leaves. -/
theorem Expr.follows_spread : ∀ e : Expr,
    e.spread.Follows r
      (fun x => (x.1.relabel r.map, x.2.map fun c => (r.map c.1, c.2.relabel r.map)))
        (e.relabel r.map).spread
  | .tuple items => by
    rw [relabel_tuple, spread, spread]
    refine follows_bind (Expr.follows_spreadItems items) fun x => follows_pure ?_
    rw [relabel_tuple]
  | .attr _ | .const _ _ | .null _ | .apply _ _ | .aggregate _ _ | .multiAggregate _ _ | .case _ _
  | .scalarSubquery _ | .setSubquery _ => by
    rw [spread_of_noTuple rfl, spread_of_noTuple (isTuple_relabel _)]
    refine follows_bind follows_fresh fun name => follows_pure ?_
    rw [relabel_attr]
    rfl

theorem Expr.follows_spreadItems : ∀ es : List Expr,
    (spreadItems es).Follows r
      (fun x => (x.1.map (relabel r.map), x.2.map fun c => (r.map c.1, c.2.relabel r.map)))
      (spreadItems (es.map (relabel r.map)))
  | [] => by
    rw [List.map_nil, spreadItems]
    exact follows_pure rfl
  | e :: es => by
    rw [List.map_cons, spreadItems, spreadItems]
    refine follows_bind (Expr.follows_spread e) fun x =>
      follows_bind (Expr.follows_spreadItems es) fun y =>
      follows_pure ?_
    rw [List.map_cons, List.map_append]

end

/-- A column with a declared name is spread alike, whatever names are drawn for it. -/
theorem OutputColumn.follows_ofFlattened {name : String} (declared : own name) (part : Flattened) :
    (ofFlattened name part).Follows r (relabel r.map) (ofFlattened name (part.relabel r.map)) := by
  unfold ofFlattened
  have scalar : (part.relabel r.map).expr.isTuple = part.expr.isTuple :=
    Expr.isTuple_relabel part.expr
  rw [scalar]
  refine follows_ite (follows_bind (Expr.follows_spread part.expr) fun x => follows_pure rfl)
    (follows_pure ?_)
  rw [relabel, List.map_singleton, r.fixes name declared]
  rfl

namespace Query

theorem follows_freshColumns : ∀ columns : List Column,
    (freshColumns columns).Follows r
      (fun x => (x.1.map fun c => (r.map c.1, c.2.relabel r.map), x.2.map (Expr.relabel r.map)))
      (freshColumns (columns.map fun c => (r.map c.1, c.2)))
  | [] => by
    rw [List.map_nil, freshColumns]
    exact follows_pure rfl
  | (name, type) :: columns => by
    rw [List.map_cons, freshColumns, freshColumns]
    refine follows_bind follows_fresh fun new => follows_bind (follows_freshColumns columns)
      fun x => follows_pure ?_
    rw [List.map_cons, List.map_cons, Expr.relabel_attr, Expr.relabel_attr]

/-- The columns of a renamed query are given names that are partners. -/
theorem follows_rename (q : Query) :
    (q.rename check).Follows r (fun x => (x.1.relabel r.map, x.2.map (Expr.relabel r.map)))
      ((q.relabel r.map).rename check) :=
  follows_bind_ofExcept (alike_schemaOf r.injective check q) fun inner _ =>
    follows_bind (follows_freshColumns inner.columns) fun x =>
      follows_bind_ofExcept (alike_projection r.injective x.1 q) fun _ _ => follows_pure rfl

/-- A subquery is refused for the same columns under both generators. -/
theorem follows_flattenSubquery {q : Query}
    (flat : (q.flatten check).Follows r (relabelAnswer r.map) (q.flatten check)) :
    (q.flattenSubquery check (q.flatten check)).Follows r (relabel r.map)
      (q.flattenSubquery check (q.flatten check)) := by
  refine follows_bind_ofExcept (Alike.refl (q.schemaOf check)) fun inner _ => follows_bind flat
    fun answer => ?_
  have structured : ∀ c : Column, ((answer.2.rebind r.map).find? c.1).any Expr.isTuple =
      (answer.2.find? c.1).any Expr.isTuple := by
    intro c
    rw [Environment.rebind, NameMap.find?_map]
    cases answer.2.find? c.1 with
    | none => rfl
    | some rep => exact Expr.isTuple_relabel rep
  dsimp only [id, relabelAnswer]
  simp only [structured]
  exact follows_guard (follows_pure rfl)

end Query

/-! ## The pass -/

/-- Flattening the expression follows itself from one generator to another. -/
def Expr.FollowsItself (check : Regime) (r : Renaming own source target count)
    (sources : Query → Prop) (e : Expr) :
    Prop :=
  e.Everywhere (.equivariant check.rules own sources) → ∀ (env : Environment) (schema : Schema),
    (e.flatten check env schema).Follows r (Flattened.relabel r.map)
      (e.flatten check (env.rebind r.map) schema)

/-- Flattening the query follows itself from one generator to another. -/
def Query.FollowsItself (check : Regime) (r : Renaming own source target count)
    (sources : Query → Prop) (q : Query) :
    Prop :=
  q.Everywhere (.equivariant check.rules own sources) →
    (q.flatten check).Follows r (Query.relabelAnswer r.map) (q.flatten check)

/-- The names of the columns of a query stay. -/
theorem Query.fixed_of_schemaOf {q : Query}
    (plan : q.Everywhere (.equivariant check.rules own sources))
    (infer : q.schemaOf check = .ok schema) : ∀ name ∈ schema.names, r.map name = name :=
  List.forall_mem_map.2 fun c member =>
    r.fixes c.1 (mentioned_schemaOf (mentioning_of_and (fun _ => id) plan) infer c member)

namespace Following

attribute [local simp] Expr.flatten Query.flatten

/-- Runs on expressions, one after the other. -/
theorem items {es : List Expr} (ih : ∀ e ∈ es, e.FollowsItself check r sources)
    (plan : ∀ e ∈ es, e.Everywhere (.equivariant check.rules own sources)) (env : Environment)
    (schema : Schema) :
    (Expr.flattenItems check env schema es).Follows r (List.map (Flattened.relabel r.map))
      (Expr.flattenItems check (env.rebind r.map) schema es) := by
  induction es with
  | nil =>
    rw [Expr.flattenItems, Expr.flattenItems]
    exact follows_pure rfl
  | cons e es inner =>
    rw [List.forall_mem_cons] at ih plan
    rw [Expr.flattenItems, Expr.flattenItems]
    exact follows_bind (ih.1 plan.1 env schema) fun _ => follows_bind (inner ih.2 plan.2) fun _ =>
      follows_pure rfl

/-- Runs on branches. A condition that is a tuple is one under both generators. -/
theorem branches {bs : List (Expr × Expr)}
    (ih : ∀ b ∈ bs, b.1.FollowsItself check r sources ∧ b.2.FollowsItself check r sources)
    (plan : ∀ b ∈ bs, b.1.Everywhere (.equivariant check.rules own sources) ∧
      b.2.Everywhere (.equivariant check.rules own sources)) (env : Environment) (schema : Schema) :
    (Expr.flattenBranches check env schema bs).Follows r
      (List.map fun b => (b.1.relabel r.map, b.2.relabel r.map))
      (Expr.flattenBranches check (env.rebind r.map) schema bs) := by
  induction bs with
  | nil =>
    rw [Expr.flattenBranches, Expr.flattenBranches]
    exact follows_pure rfl
  | cons b bs inner =>
    rw [List.forall_mem_cons] at ih plan
    rw [Expr.flattenBranches, Expr.flattenBranches]
    refine follows_bind (ih.1.1 plan.1.1 env schema) fun first => ?_
    have scalar : (first.relabel r.map).expr.isTuple = first.expr.isTuple :=
      Expr.isTuple_relabel first.expr
    rw [scalar]
    exact follows_guard (follows_bind (ih.1.2 plan.1.2 env schema) fun second =>
      follows_bind (inner ih.2 plan.2) fun rest => follows_pure rfl)

/-- Runs on the columns of a projection, which have declared names. -/
theorem columns {cs : List (String × Expr)} (ih : ∀ c ∈ cs, c.2.FollowsItself check r sources)
    (declared : ∀ c ∈ cs, own c.1)
    (plan : ∀ c ∈ cs, c.2.Everywhere (.equivariant check.rules own sources))
    (env : Environment) (schema : Schema) :
    (Query.flattenColumns check env schema cs).Follows r (List.map (OutputColumn.relabel r.map))
      (Query.flattenColumns check (env.rebind r.map) schema cs) := by
  induction cs with
  | nil =>
    rw [Query.flattenColumns, Query.flattenColumns]
    exact follows_pure rfl
  | cons c cs inner =>
    rw [List.forall_mem_cons] at ih declared plan
    rw [Query.flattenColumns, Query.flattenColumns]
    exact follows_bind (ih.1 plan.1 env schema) fun part =>
      follows_bind (OutputColumn.follows_ofFlattened declared.1 part) fun _ =>
        follows_bind (inner ih.2 declared.2 plan.2) fun _ => follows_pure rfl

/-- Runs on the columns of a grouping. -/
theorem groups {cs : List (String × Expr)} (ih : ∀ c ∈ cs, c.2.FollowsItself check r sources)
    (declared : ∀ c ∈ cs, own c.1)
    (plan : ∀ c ∈ cs, c.2.Everywhere (.equivariant check.rules own sources))
    (env : Environment) (schema : Schema) :
    (Query.flattenGroups check env schema cs).Follows r
      (List.map fun c => (r.map c.1, c.2.relabel r.map))
        (Query.flattenGroups check (env.rebind r.map) schema cs) := by
  induction cs with
  | nil =>
    rw [Query.flattenGroups, Query.flattenGroups]
    exact follows_pure rfl
  | cons c cs inner =>
    rw [List.forall_mem_cons] at ih declared plan
    rw [Query.flattenGroups, Query.flattenGroups]
    refine follows_bind (ih.1 plan.1 env schema) fun part => ?_
    have scalar : (part.relabel r.map).expr.isTuple = part.expr.isTuple :=
      Expr.isTuple_relabel part.expr
    rw [scalar, Flattened.isSelfContained_relabel]
    refine follows_guard (follows_bind (inner ih.2 declared.2 plan.2) fun rest => follows_pure ?_)
    rw [List.map_cons, r.fixes c.1 declared.1]
    rfl

/-- Runs on ordering keys. A tuple is spread into its leaves, as many under both generators. -/
theorem keys {ks : List (Expr × Direction)} (ih : ∀ k ∈ ks, k.1.FollowsItself check r sources)
    (plan : ∀ k ∈ ks, k.1.Everywhere (.equivariant check.rules own sources)) (env : Environment)
    (schema : Schema) :
    (Query.flattenKeys check env schema ks).Follows r (List.map fun k => (k.1.relabel r.map, k.2))
      (Query.flattenKeys check (env.rebind r.map) schema ks) := by
  induction ks with
  | nil =>
    rw [Query.flattenKeys, Query.flattenKeys]
    exact follows_pure rfl
  | cons k ks inner =>
    rw [List.forall_mem_cons] at ih plan
    rw [Query.flattenKeys, Query.flattenKeys]
    refine follows_bind (ih.1 plan.1 env schema) fun part => ?_
    have leaves : (part.relabel r.map).expr.leaves = part.expr.leaves.map (Expr.relabel r.map) :=
      Expr.leaves_relabel part.expr
    rw [Flattened.isSelfContained_relabel, leaves]
    refine follows_guard (follows_bind (inner ih.2 plan.2) fun rest => follows_pure ?_)
    rw [List.map_append, List.map_map, List.map_map]
    rfl

/-! ## Expressions -/

/-- A reference to a declared name is resolved alike in environments that are renamed into each
other. -/
theorem attr (name : String) : (Expr.attr name).FollowsItself check r sources := by
  intro plan env schema
  rw [Expr.everywhere_attr] at plan
  rw [Expr.flatten, Expr.flatten, Environment.resolve_rebind (r.fixes name plan.1)]
  exact follows_pure rfl

/-- A constant is stored alike, since what it is stored as is invariant. -/
theorem const (type : Ty) (value : Value) :
    (Expr.const type value).FollowsItself check r sources := by
  intro plan env schema
  rw [Expr.everywhere_const] at plan
  rw [Expr.flatten, Expr.flatten]
  refine follows_bind_ofExcept (Expr.alike_flattenConst fun e flat => ?_) fun _ _ =>
    follows_pure rfl
  exact plan.2 e flat r.map r.injective r.fixes

theorem null (type : Ty) : (Expr.null type).FollowsItself check r sources := by
  intro _ env schema
  rw [Expr.flatten, Expr.flatten]
  refine follows_pure ?_
  rw [Flattened.relabel_plain, Expr.relabel_flattenNull]

/-- What an operator looks up, under fresh names. -/
theorem joinSource {op : Operator}
    (ih : ∀ q, op.lookupSource? = some q → q.FollowsItself check r sources)
    (plan : ∀ q, op.lookupSource? = some q → q.Everywhere (.equivariant check.rules own sources)) :
    (op.joinSource check).Follows r
      (Option.map fun x => (x.1.relabel r.map, x.2.map (Expr.relabel r.map)))
        (op.joinSource check) := by
  obtain ⟨name, range, render, flattening⟩ := op
  cases flattening with
  | lookup source condition result =>
    rw [Operator.joinSource]
    exact follows_bind (ih source rfl (plan source rfl)) fun answer =>
      follows_bind (Query.follows_rename answer.1) fun _ =>
        follows_bind (follows_report _ _) fun _ =>
        follows_pure rfl
  | _ => exact follows_pure rfl

/-- An application is flattened alike, since its rule commutes with renaming and the query that it
looks up is flattened alike. -/
theorem apply (op : Operator) (args : List Expr)
    (registered : ∀ q, sources q → q.Everywhere (.equivariant check.rules own sources))
    (ihs : ∀ q, op.lookupSource? = some q → q.FollowsItself check r sources)
    (ih : ∀ e ∈ args, e.FollowsItself check r sources) :
    (Expr.apply op args).FollowsItself check r sources := by
  intro plan env schema
  rw [Expr.everywhere_apply] at plan
  obtain ⟨⟨_, commutes, lookups⟩, planArgs⟩ := plan
  rw [Expr.flatten, Expr.flatten]
  refine follows_bind (items ih planArgs env schema) fun parts => ?_
  -- the rule sees the renamed parts on the other side
  have rule : ∀ (types : List Ty) (refs : List Expr) (source : Option Query),
      Alike (Flattened.relabel r.map)
        (Application.flatten check.rules ⟨op, parts.map (·.expr), types, refs⟩ source parts)
        (Application.flatten check.rules
          ⟨op, (parts.map (Flattened.relabel r.map)).map (·.expr), types,
            refs.map (Expr.relabel r.map)⟩
          (source.map (Query.relabel r.map)) (parts.map (Flattened.relabel r.map))) := by
    intro types refs source
    rw [Flattened.exprs_relabel]
    exact Application.alike_flatten (a := ⟨op, parts.map (·.expr), types, refs⟩)
      (commutes r.map r.injective r.fixes) source parts
  refine follows_ite ?_ (follows_pure ?_)
  · refine follows_bind_ofExcept (Alike.refl (Expr.typesOf check schema args)) fun types _ =>
      follows_bind (joinSource ihs fun q found => registered q (lookups q found)) fun joined => ?_
    cases joined with
    | none => exact follows_ofExcept (rule types [] none)
    | some pair => exact follows_ofExcept (rule types pair.2 (some pair.1))
  · rw [Flattened.relabel_gather, Expr.relabel_apply, Flattened.exprs_relabel]

theorem tuple (es : List Expr) (ih : ∀ e ∈ es, e.FollowsItself check r sources) :
    (Expr.tuple es).FollowsItself check r sources := by
  intro plan env schema
  rw [Expr.everywhere_tuple] at plan
  rw [Expr.flatten, Expr.flatten]
  refine follows_bind (items ih plan.2 env schema) fun parts => follows_pure ?_
  rw [Flattened.relabel_gather, Expr.relabel_tuple, Flattened.exprs_relabel]

theorem aggregate (fn : Aggregate) (arg : Expr) (ih : arg.FollowsItself check r sources) :
    (Expr.aggregate fn arg).FollowsItself check r sources := by
  intro plan env schema
  rw [Expr.everywhere_aggregate] at plan
  rw [Expr.flatten, Expr.flatten]
  exact follows_bind (ih plan.2 env schema) fun part =>
    follows_bind_ofExcept (Expr.alike_flattenAggregate _ fn part.expr) fun _ _ => follows_pure rfl

/-- An aggregate of several arguments is refused on both sides. -/
theorem multiAggregate (fn : MultiAggregate) (args : List Expr) :
    (Expr.multiAggregate fn args).FollowsItself check r sources := by
  intro _ env schema
  rw [Expr.flatten, Expr.flatten]
  exact follows_throw _ _

/-- A choice is flattened alike. Renaming keeps the shapes of its results, so it is distributed or
refused alike. -/
theorem case (bs : List (Expr × Expr)) (default : Expr)
    (ihb : ∀ b ∈ bs, b.1.FollowsItself check r sources ∧ b.2.FollowsItself check r sources)
    (ihd : default.FollowsItself check r sources) :
    (Expr.case bs default).FollowsItself check r sources := by
  intro plan env schema
  rw [Expr.everywhere_case] at plan
  rw [Expr.flatten, Expr.flatten]
  refine follows_bind (branches ihb plan.2.1 env schema) fun parts =>
    follows_bind (ihd plan.2.2 env schema) fun last => ?_
  have conditions : (parts.map fun b => (b.1.relabel r.map, b.2.relabel r.map)).map (·.1.expr) =
      (parts.map (·.1.expr)).map (Expr.relabel r.map) := by
    rw [List.map_map, List.map_map]
    rfl
  have results : (parts.map fun b => (b.1.relabel r.map, b.2.relabel r.map)).map (·.2.expr) =
      (parts.map (·.2.expr)).map (Expr.relabel r.map) := by
    rw [List.map_map, List.map_map]
    rfl
  rw [conditions, results]
  refine follows_bind_ofExcept (Expr.alike_flattenCase _ _ _ last.expr) fun e _ => follows_pure ?_
  rw [Flattened.relabel_gather, List.map_append, List.map_flatMap, List.flatMap_map]
  rfl

theorem scalarSubquery (query : Query) (ih : query.FollowsItself check r sources) :
    (Expr.scalarSubquery query).FollowsItself check r sources := by
  intro plan env schema
  rw [Expr.everywhere_scalarSubquery] at plan
  rw [Expr.flatten, Expr.flatten]
  refine follows_bind (Query.follows_flattenSubquery (ih plan.2)) fun flat => follows_pure ?_
  rw [Flattened.relabel_plain, Expr.relabel_scalarSubquery]

theorem setSubquery (query : Query) (ih : query.FollowsItself check r sources) :
    (Expr.setSubquery query).FollowsItself check r sources := by
  intro plan env schema
  rw [Expr.everywhere_setSubquery] at plan
  rw [Expr.flatten, Expr.flatten]
  refine follows_bind (Query.follows_flattenSubquery (ih plan.2)) fun flat => follows_pure ?_
  rw [Flattened.relabel_plain, Expr.relabel_setSubquery]

/-! ## Queries -/

theorem empty : Query.empty.FollowsItself check r sources := by
  intro _
  have fixed : Query.empty.relabel r.map = .empty := Query.relabel_empty
  rw [Query.flatten]
  exact follows_pure (Prod.ext fixed.symm rfl)

theorem table (name : String) (schema : Schema) :
    (Query.table name schema).FollowsItself check r sources := by
  intro plan
  rw [Query.everywhere_table] at plan
  have fixed : (Query.table name schema).relabel r.map = .table name schema :=
    Query.relabel_eq_self.2 fun name member => r.fixes name (plan.1 name member)
  rw [Query.flatten]
  exact follows_pure (Prod.ext fixed.symm rfl)

/-- A galaxy is expanded alike. Its own column is declared. -/
theorem galaxy (g : Galaxy) (ih : g.query.FollowsItself check r sources) :
    (Query.galaxy g).FollowsItself check r sources := by
  intro plan
  obtain ⟨name, type, setup, query⟩ := g
  rw [Query.everywhere_galaxy] at plan
  rw [Query.flatten]
  refine follows_bind (ih plan.2) fun answer =>
    follows_bind (Query.follows_rename answer.1) fun x =>
    follows_bind (follows_report _ _) fun _ => follows_pure (Prod.ext rfl ?_)
  change NameMap.empty.insert name (.tuple (x.2.map (Expr.relabel r.map))) =
    NameMap.map (Expr.relabel r.map) (NameMap.empty.insert name (.tuple x.2))
  rw [NameMap.map_insert, Expr.relabel_tuple]
  rfl

/-- A projection exposes partners under the names that it declares. -/
theorem project (cs : List (String × Expr)) (input : Query)
    (ihc : ∀ c ∈ cs, c.2.FollowsItself check r sources) (ih : input.FollowsItself check r sources) :
    (Query.project cs input).FollowsItself check r sources := by
  intro plan
  rw [Query.everywhere_project] at plan
  rw [Query.flatten]
  refine follows_bind (ih plan.2.2) fun answer =>
    follows_bind_ofExcept (Alike.refl (input.schemaOf check)) fun schema _ =>
      follows_bind (columns ihc plan.1.1 plan.2.1 answer.2 schema) fun outputs =>
        follows_pure (Prod.ext ?_ ?_)
  · exact (Query.relabel_ofOutputs outputs answer.1).symm
  · change _ = (OutputColumn.withAliases cs answer.2 (OutputColumn.bindings outputs)).rebind r.map
    rw [OutputColumn.rebind_withAliases, OutputColumn.rebind_bindings]

/-- A restriction joins the same number of queries under both generators. -/
theorem restrict (predicate : Expr) (input : Query) (ihp : predicate.FollowsItself check r sources)
    (ih : input.FollowsItself check r sources) :
    (Query.restrict predicate input).FollowsItself check r sources := by
  intro plan
  rw [Query.everywhere_restrict] at plan
  rw [Query.flatten]
  exact follows_bind (ih plan.2.2) fun answer =>
    follows_bind_ofExcept (Alike.refl (input.schemaOf check)) fun schema _ =>
      follows_bind (ihp plan.2.1 answer.2 schema) fun part =>
        follows_bind_ofExcept (Query.alike_flattenRestriction r.injective predicate part answer.1)
          fun _ _ =>
          follows_pure rfl

/-- Operands are combined alike. Which columns are aligned is decided by declared names and by
shapes. -/
theorem combine (op : CombineOp) (left right : Query) (ihl : left.FollowsItself check r sources)
    (ihr : right.FollowsItself check r sources) :
    (Query.combine op left right).FollowsItself check r sources := by
  intro plan
  rw [Query.everywhere_combine] at plan
  rw [Query.flatten]
  refine follows_bind (ihl plan.2.1) fun onLeft => follows_bind (ihr plan.2.2) fun onRight => ?_
  have plainLeft : (onLeft.2.rebind r.map).isEmpty = onLeft.2.isEmpty := NameMap.isEmpty_map _
  have plainRight : (onRight.2.rebind r.map).isEmpty = onRight.2.isEmpty := NameMap.isEmpty_map _
  dsimp only [Query.relabelAnswer]
  rw [plainLeft, plainRight]
  refine follows_ite (follows_pure (Prod.ext (Query.relabel_combine _ _ _).symm rfl)) ?_
  -- attributes are paired by the schemas before flattening, and the names of those stay
  exact follows_bind_ofExcept (Alike.refl (left.schemaOf check)) fun leftSchema inferLeft =>
    follows_bind_ofExcept (Alike.refl (right.schemaOf check)) fun rightSchema inferRight =>
      follows_ofExcept (Query.alike_flattenCombination r.injective op
        (Query.fixed_of_schemaOf plan.2.1 inferLeft) (Query.fixed_of_schemaOf plan.2.2 inferRight))

theorem grouping (cs : List (String × Expr)) (input : Query)
    (ihc : ∀ c ∈ cs, c.2.FollowsItself check r sources) (ih : input.FollowsItself check r sources) :
    (Query.grouping cs input).FollowsItself check r sources := by
  intro plan
  rw [Query.everywhere_grouping] at plan
  rw [Query.flatten]
  refine follows_bind (ih plan.2.2) fun answer =>
    follows_bind_ofExcept (Alike.refl (input.schemaOf check)) fun schema _ =>
      follows_bind (groups ihc plan.1.1 plan.2.1 answer.2 schema) fun flat =>
        follows_pure (Prod.ext ?_ rfl)
  exact (Query.relabel_grouping flat answer.1).symm

theorem order (ks : List (Expr × Direction)) (input : Query)
    (ihk : ∀ k ∈ ks, k.1.FollowsItself check r sources) (ih : input.FollowsItself check r sources) :
    (Query.order ks input).FollowsItself check r sources := by
  intro plan
  rw [Query.everywhere_order] at plan
  rw [Query.flatten]
  refine follows_bind (ih plan.2.2) fun answer =>
    follows_bind_ofExcept (Alike.refl (input.schemaOf check)) fun schema _ =>
      follows_bind (keys ihk plan.2.1 answer.2 schema) fun flat => follows_pure (Prod.ext ?_ rfl)
  exact (Query.relabel_order flat answer.1).symm

theorem top (offset limit : UInt64) (input : Query) (ih : input.FollowsItself check r sources) :
    (Query.top offset limit input).FollowsItself check r sources := by
  intro plan
  rw [Query.everywhere_top] at plan
  rw [Query.flatten]
  refine follows_bind (ih plan.2) fun answer => follows_pure (Prod.ext ?_ rfl)
  exact (Query.relabel_top offset limit answer.1).symm

/-- Every plan is flattened alike under both generators, node by node. -/
theorem cases (r : Renaming own source target count)
    (registered : ∀ q, sources q → q.Everywhere (.equivariant check.rules own sources)) :
    Plan.Cases (Expr.FollowsItself check r sources) (Query.FollowsItself check r sources) where
  attr := attr
  const := const
  null := null
  apply op args := apply op args registered
  tuple := tuple
  aggregate := aggregate
  multiAggregate fn args _ := multiAggregate fn args
  case := case
  scalarSubquery := scalarSubquery
  setSubquery := setSubquery
  empty := empty
  table := table
  galaxy := galaxy
  project := project
  restrict := restrict
  combine := combine
  grouping := grouping
  order := order
  top := top

end Following

/-- Flattening with another name generator gives the same under new names. -/
theorem Query.follows_flatten (r : Renaming own source target count) {q : Query}
    (registered : ∀ q, sources q → q.Everywhere (.equivariant check.rules own sources))
    (plan : q.Everywhere (.equivariant check.rules own sources)) :
    (q.flatten check).Follows r (relabelAnswer r.map) (q.flatten check) :=
  (Following.cases r registered).query q plan

end FlatPlan
