import FlatPlan.Plan

/-!
# Attributes of expressions

Which attributes an expression reads, what it becomes if other expressions stand for them, and how
many aggregations it makes. Subqueries read rows of their own and are left as they are.
-/

namespace FlatPlan.Expr

mutual

/-- The attributes that an expression reads, one entry for each place. -/
def attributes : Expr → List String
  | .attr name => [name]
  | .const _ _ | .null _ | .scalarSubquery _ | .setSubquery _ => []
  | .apply _ args => itemAttributes args
  | .tuple items => itemAttributes items
  | .aggregate _ arg => arg.attributes
  | .multiAggregate _ args => itemAttributes args
  | .case branches default => branchAttributes branches ++ default.attributes

/-- The attributes that the expressions read. -/
def itemAttributes : List Expr → List String
  | [] => []
  | e :: es => e.attributes ++ itemAttributes es

/-- The attributes that the branches of a choice read. -/
def branchAttributes : List (Expr × Expr) → List String
  | [] => []
  | (condition, result) :: branches =>
    condition.attributes ++ result.attributes ++ branchAttributes branches

end

mutual

/-- Put the bound expressions in the place of attributes. -/
def substitute (bound : String → Option Expr) : Expr → Expr
  | .attr name => (bound name).getD (.attr name)
  | .const type value => .const type value
  | .null type => .null type
  | .apply op args => .apply op (substituteItems bound args)
  | .tuple items => .tuple (substituteItems bound items)
  | .aggregate fn arg => .aggregate fn (arg.substitute bound)
  | .multiAggregate fn args => .multiAggregate fn (substituteItems bound args)
  | .case branches default => .case (substituteBranches bound branches) (default.substitute bound)
  | .scalarSubquery query => .scalarSubquery query
  | .setSubquery query => .setSubquery query

/-- Substitute in each expression. -/
def substituteItems (bound : String → Option Expr) : List Expr → List Expr
  | [] => []
  | e :: es => e.substitute bound :: substituteItems bound es

/-- Substitute in each branch of a choice. -/
def substituteBranches (bound : String → Option Expr) : List (Expr × Expr) → List (Expr × Expr)
  | [] => []
  | (condition, result) :: branches =>
    (condition.substitute bound, result.substitute bound) :: substituteBranches bound branches

end

mutual

/-- The number of aggregations. -/
def aggregateCount : Expr → Nat
  | .attr _ | .const _ _ | .null _ | .scalarSubquery _ | .setSubquery _ => 0
  | .apply _ args => itemAggregateCount args
  | .tuple items => itemAggregateCount items
  | .aggregate _ arg => arg.aggregateCount + 1
  | .multiAggregate _ args => itemAggregateCount args + 1
  | .case branches default => branchAggregateCount branches + default.aggregateCount

/-- The number of aggregations in the expressions. -/
def itemAggregateCount : List Expr → Nat
  | [] => 0
  | e :: es => e.aggregateCount + itemAggregateCount es

/-- The number of aggregations in the branches of a choice. -/
def branchAggregateCount : List (Expr × Expr) → Nat
  | [] => 0
  | (condition, result) :: branches =>
    condition.aggregateCount + result.aggregateCount + branchAggregateCount branches

end

/-- Whether the expression aggregates. -/
def hasAggregate (e : Expr) : Bool := 0 < e.aggregateCount

/-- The attributes that an expression reads, ascending and each once. -/
def attributeNames (e : Expr) : List String :=
  (e.attributes.foldl (fun names name => names.insert name ()) (NameMap.empty : NameMap Unit)).names

end FlatPlan.Expr
