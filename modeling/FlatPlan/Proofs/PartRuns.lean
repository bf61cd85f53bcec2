import FlatPlan.Proofs.GalaxyTrace

/-!
# Runs of the parts of a node

A run on a list of expressions, branches, columns or keys contains a run on each of its members.
Proofs about single members start from the statements here and need not follow the states in
between. A name drawn during a part is drawn during the whole (`PassState.Draws.mono`).
-/

namespace FlatPlan

open Pass

/-- A run of the pass that yields `a` takes place between two states. -/
def Pass.Within {α : Type} (p : Pass α) (s : PassState) (a : α) (t : PassState) : Prop :=
  ∃ u w, s.Leads u ∧ p.Yields u a w ∧ w.Leads t

variable {check : Regime} {env : Environment} {schema : Schema} {s t : PassState}

theorem Pass.Within.mono {α : Type} {p : Pass α} {a : α} {s' t' : PassState} (h : p.Within s a t)
    (before : s'.Leads s) (behind : t.Leads t') : p.Within s' a t' := by
  obtain ⟨u, w, first, run, last⟩ := h
  exact ⟨u, w, before.trans first, run, last.trans behind⟩

theorem Pass.Within.exists_run {α : Type} {p : Pass α} {a : α} {stem : String} (h : p.Within s a t)
    (same : s.names.stem = stem) : ∃ u w, u.names.stem = stem ∧ p.Yields u a w := by
  obtain ⟨u, w, first, run, _⟩ := h
  exact ⟨u, w, first.stem.trans same, run⟩

/-- What two lists say of the members of a third they say of each other's. -/
theorem forall₂_of_common {α β γ : Type} {first : α → β → Prop} {second : α → γ → Prop}
    {joined : β → γ → Prop} {as : List α} {bs : List β} {cs : List γ}
    (hb : List.Forall₂ first as bs)
    (hc : List.Forall₂ second as cs) (join : ∀ a ∈ as, ∀ b c, first a b → second a c → joined b c) :
    List.Forall₂ joined bs cs := by
  induction hb generalizing cs with
  | nil =>
    cases hc
    exact .nil
  | cons head _ ih =>
    cases hc with
    | cons head' rest =>
      refine .cons (join _ List.mem_cons_self _ _ head head') (ih rest fun a member => ?_)
      exact join a (List.mem_cons_of_mem _ member)

namespace Expr

theorem flattenItems_leads {es : List Expr} {parts : List Flattened}
    (run : (flattenItems check env schema es).Yields s parts t) : s.Leads t :=
  (Expr.flattenItems_advances _ check env schema).leads run

theorem flattenBranches_leads {bs : List (Expr × Expr)} {parts : List (Flattened × Flattened)}
    (run : (flattenBranches check env schema bs).Yields s parts t) : s.Leads t :=
  (Expr.flattenBranches_advances _ check env schema).leads run

theorem flattenItems_within {es : List Expr} {parts : List Flattened}
    (run : (flattenItems check env schema es).Yields s parts t) :
    List.Forall₂ (fun e part => (e.flatten check env schema).Within s part t) es parts := by
  induction es generalizing s parts with
  | nil =>
    rw [(yields_flattenItems_nil.1 run).1]
    exact .nil
  | cons e es ih =>
    obtain ⟨part, u, first, rest, others, rfl⟩ := yields_flattenItems_cons.1 run
    have leads := (e.flatten_advances check env schema).leads first
    refine .cons ⟨s, u, .refl s, first, flattenItems_leads others⟩ ((ih others).imp fun _ _ h => ?_)
    exact h.mono leads (.refl t)

/-- The condition of a branch is a scalar. -/
theorem flattenBranches_within {bs : List (Expr × Expr)} {parts : List (Flattened × Flattened)}
    (run : (flattenBranches check env schema bs).Yields s parts t) :
    List.Forall₂ (fun b part => (b.1.flatten check env schema).Within s part.1 t ∧
      part.1.expr.isTuple = false ∧ (b.2.flatten check env schema).Within s part.2 t) bs parts := by
  induction bs generalizing s parts with
  | nil =>
    rw [(yields_flattenBranches_nil.1 run).1]
    exact .nil
  | cons b bs ih =>
    obtain ⟨first, u, condition, noTuple, second, w, result, rest, others, rfl⟩ :=
      yields_flattenBranches_cons.1 run
    have leads := (b.1.flatten_advances check env schema).leads condition
    have leads' := (b.2.flatten_advances check env schema).leads result
    have behind := flattenBranches_leads others
    refine .cons ⟨⟨s, u, .refl s, condition, leads'.trans behind⟩, noTuple, u, w, leads,
      result, behind⟩ ?_
    exact (ih others).imp fun _ _ h => ⟨h.1.mono (leads.trans leads') (.refl t), h.2.1,
      h.2.2.mono (leads.trans leads') (.refl t)⟩

/-- What holds of both parts of each branch of a choice and of the default holds of all its
parts. -/
theorem forall_mem_choice {motive : Flattened → Prop} {parts : List (Flattened × Flattened)}
    {last : Flattened} (each : ∀ pair ∈ parts, motive pair.1 ∧ motive pair.2)
    (final : motive last) :
    ∀ part ∈ parts.flatMap (fun pair => [pair.1, pair.2]) ++ [last], motive part := by
  refine List.forall_mem_append.2 ⟨fun part member => ?_, List.forall_mem_singleton.2 final⟩
  obtain ⟨pair, among, own⟩ := List.mem_flatMap.1 member
  have both : ∀ part ∈ [pair.1, pair.2], motive part :=
    List.forall_mem_cons.2 ⟨(each pair among).1, List.forall_mem_singleton.2 (each pair among).2⟩
  exact both part own

end Expr

namespace Query

theorem flattenColumns_leads {cs : List (String × Expr)} {outputs : List OutputColumn}
    (run : (flattenColumns check env schema cs).Yields s outputs t) : s.Leads t :=
  (Query.flattenColumns_advances _ check env schema).leads run

/-- An output column comes from the flat form of what it computes. -/
theorem flattenColumns_within {cs : List (String × Expr)} {outputs : List OutputColumn}
    (run : (flattenColumns check env schema cs).Yields s outputs t) :
    List.Forall₂ (fun c o => ∃ part, (c.2.flatten check env schema).Within s part t ∧
      (OutputColumn.ofFlattened c.1 part).Within s o t) cs outputs := by
  induction cs generalizing s outputs with
  | nil =>
    rw [(yields_flattenColumns_nil.1 run).1]
    exact .nil
  | cons c cs ih =>
    obtain ⟨part, u, flat, o, w, output, rest, others, rfl⟩ := yields_flattenColumns_cons.1 run
    have leads := (c.2.flatten_advances check env schema).leads flat
    have leads' := (OutputColumn.ofFlattened_advances c.1 part).leads output
    have behind := flattenColumns_leads others
    refine .cons ⟨part, ⟨s, u, .refl s, flat, leads'.trans behind⟩, u, w, leads, output, behind⟩ ?_
    refine (ih others).imp fun _ _ h => ?_
    obtain ⟨part', flat', output'⟩ := h
    exact ⟨part', flat'.mono (leads.trans leads') (.refl t),
      output'.mono (leads.trans leads') (.refl t)⟩

/-- A flat column of a grouping is a scalar that needs no joins. -/
theorem flattenGroups_within {cs flats : List (String × Expr)}
    (run : (flattenGroups check env schema cs).Yields s flats t) :
    List.Forall₂ (fun c flat => ∃ part : Flattened, (c.2.flatten check env schema).Within s part t ∧
      part.expr.isTuple = false ∧ part.isSelfContained = true ∧ flat = (c.1, part.expr))
        cs flats := by
  induction cs generalizing s flats with
  | nil =>
    rw [(yields_flattenGroups_nil.1 run).1]
    exact .nil
  | cons c cs ih =>
    obtain ⟨part, u, flat, ⟨noTuple, selfContained⟩, rest, others, rfl⟩ :=
      yields_flattenGroups_cons.1 run
    have leads := (c.2.flatten_advances check env schema).leads flat
    have behind := (Query.flattenGroups_advances _ check env schema).leads others
    refine .cons ⟨part, ⟨s, u, .refl s, flat, behind⟩, noTuple, selfContained, rfl⟩ ((ih others).imp
      fun _ _ h => ?_)
    obtain ⟨part', flat', rest⟩ := h
    exact ⟨part', flat'.mono leads (.refl t), rest⟩

/-- A flat ordering key is a leaf of the flat form of a key. -/
theorem flattenKeys_within {ks flats : List (Expr × Direction)}
    (run : (flattenKeys check env schema ks).Yields s flats t) :
    ∀ f ∈ flats, ∃ k ∈ ks, ∃ part : Flattened, (k.1.flatten check env schema).Within s part t ∧
      part.isSelfContained = true ∧ f.1 ∈ part.expr.leaves := by
  induction ks generalizing s flats with
  | nil =>
    rw [(yields_flattenKeys_nil.1 run).1]
    intro f member
    cases member
  | cons k ks ih =>
    obtain ⟨part, u, flat, selfContained, rest, others, rfl⟩ := yields_flattenKeys_cons.1 run
    have leads := (k.1.flatten_advances check env schema).leads flat
    have behind := (Query.flattenKeys_advances _ check env schema).leads others
    intro f member
    rcases List.mem_append.1 member with own | later
    · obtain ⟨leaf, among, rfl⟩ := List.mem_map.1 own
      exact ⟨k, List.mem_cons_self, part, ⟨s, u, .refl s, flat, behind⟩, selfContained, among⟩
    · obtain ⟨k', among, part', flat', rest⟩ := ih others f later
      exact ⟨k', List.mem_cons_of_mem _ among, part', flat'.mono leads (.refl t), rest⟩

end Query

end FlatPlan
