import FlatPlan.Proofs.LookupRuns

/-!
# How many joins a flat expression needs

A flat expression needs as many queries and as many conditions on them as the expression has
applications of operators that look something up, outside its subqueries (`Expr.needs_of_yields`).
So does a flat projection for all its columns (`Query.lengths_of_flattenColumns`).
-/

namespace FlatPlan

open Pass

mutual

/-- The number of applications of operators that look something up. Those inside subqueries are
joined there. -/
def Expr.lookupCount : Expr → Nat
  | .attr _ | .const _ _ | .null _ | .scalarSubquery _ | .setSubquery _ => 0
  | .apply op args => Expr.itemLookupCount args + op.lookupSource?.toList.length
  | .tuple items => Expr.itemLookupCount items
  | .aggregate _ arg => arg.lookupCount
  | .multiAggregate _ args => Expr.itemLookupCount args
  | .case branches default => Expr.branchLookupCount branches + default.lookupCount

/-- The number of such applications in the expressions. -/
def Expr.itemLookupCount : List Expr → Nat
  | [] => 0
  | e :: es => e.lookupCount + Expr.itemLookupCount es

/-- The number of such applications in the branches of a choice. -/
def Expr.branchLookupCount : List (Expr × Expr) → Nat
  | [] => 0
  | (condition, result) :: branches =>
    condition.lookupCount + result.lookupCount + Expr.branchLookupCount branches

end

theorem Expr.itemLookupCount_eq_zero {es : List Expr} : itemLookupCount es = 0 ↔
    ∀ e ∈ es, e.lookupCount = 0 := by
  induction es with
  | nil => simp [itemLookupCount]
  | cons e es ih => simp [itemLookupCount, ih]

namespace Expr

mutual

theorem length_lookups : ∀ e : Expr, e.lookups.length = e.lookupCount
  | .attr _ | .const _ _ | .null _ | .scalarSubquery _ | .setSubquery _ => by
    rw [lookups, lookupCount]; rfl
  | .apply op args => by
    rw [lookups, lookupCount, List.length_append, List.length_map, length_itemLookups args]
  | .tuple items => by rw [lookups, lookupCount, length_itemLookups items]
  | .aggregate _ arg => by rw [lookups, lookupCount, length_lookups arg]
  | .multiAggregate _ args => by rw [lookups, lookupCount, length_itemLookups args]
  | .case branches default => by
    rw [lookups, lookupCount, List.length_append, length_branchLookups branches,
      length_lookups default]

theorem length_itemLookups : ∀ es : List Expr, (itemLookups es).length = itemLookupCount es
  | [] => rfl
  | e :: es => by
    rw [itemLookups, itemLookupCount, List.length_append, length_lookups e, length_itemLookups es]

theorem length_branchLookups :
    ∀ bs : List (Expr × Expr), (branchLookups bs).length = branchLookupCount bs
  | [] => rfl
  | (condition, result) :: bs => by
    rw [branchLookups, branchLookupCount, List.length_append, List.length_append,
      length_lookups condition, length_lookups result, length_branchLookups bs, Nat.add_assoc]

end

end Expr

/-- A flat expression that needs that many queries, and one condition for each. -/
structure Flattened.Needs (part : Flattened) (count : Nat) : Prop where
  queries : part.queries.length = count
  restrictions : part.restrictions.length = count

variable {check : Regime} {env : Environment} {schema : Schema} {s t : PassState}

/-- A flat expression needs one query and one condition for each application that looks something
up. -/
theorem Expr.needs_of_yields {e : Expr} {part : Flattened}
    (run : (e.flatten check env schema).Yields s part t) :
    part.Needs e.lookupCount := by
  obtain ⟨queries, restrictions⟩ := (joinRuns_of_yields run).length
  exact ⟨queries.trans e.length_lookups, restrictions.trans e.length_lookups⟩

/-- Only an expression that looks something up needs a query. -/
theorem Expr.lookupCount_ne_zero {e : Expr} {part : Flattened}
    (run : (e.flatten check env schema).Yields s part t) (some : part.queries ≠ []) :
    e.lookupCount ≠ 0 := by
  rw [← (needs_of_yields run).queries]
  exact mt List.eq_nil_of_length_eq_zero some

/-- The output columns of a projection need what the columns do. -/
theorem Query.lengths_of_flattenColumns {columns : List (String × Expr)}
    {outputs : List OutputColumn}
    (run : (flattenColumns check env schema columns).Yields s outputs t) :
    (outputs.flatMap (·.queries)).length = Expr.itemLookupCount (columns.map Prod.snd) ∧
      (outputs.flatMap (·.restrictions)).length = Expr.itemLookupCount (columns.map Prod.snd) := by
  induction columns generalizing s outputs with
  | nil =>
    rw [(yields_flattenColumns_nil.1 run).1]
    exact ⟨rfl, rfl⟩
  | cons c columns ih =>
    obtain ⟨part, u, flat, o, w, output, rest, others, rfl⟩ := yields_flattenColumns_cons.1 run
    have own := Expr.needs_of_yields flat
    have carries := OutputColumn.carries_of_yields output
    obtain ⟨queries, restrictions⟩ := ih others
    rw [List.flatMap_cons, List.flatMap_cons, List.length_append, List.length_append,
      carries.queries, carries.restrictions, own.queries, own.restrictions, queries, restrictions]
    exact ⟨rfl, rfl⟩

end FlatPlan
