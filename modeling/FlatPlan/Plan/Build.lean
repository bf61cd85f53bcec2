import FlatPlan.Plan

/-!
# Building queries

The constructors that keep queries in a simple form: the columns of a projection have different
names, a projection to no columns does not stand on another projection, and the empty relation is no
factor of a product.
-/

namespace FlatPlan.Query

/-- The first name that is among those before it. -/
def repeated? (seen : List String) : List String → Option String
  | [] => none
  | name :: names => if name ∈ seen then some name else repeated? (name :: seen) names

/-- Refuse columns of which two have the same name. -/
def checkUnique (columns : List (String × Expr)) : Except Error Unit :=
  match repeated? [] (columns.map Prod.fst) with
  | some name => .error (.invalidArgument (.repeatedColumn name))
  | none => .ok ()

/-- What a projection to no columns stands on: projections below it make no difference. -/
def skipProjections : Query → Query
  | .project _ input => input.skipProjections
  | q => q

/-- Compute columns from an input row. -/
def projection (columns : List (String × Expr)) (input : Query) : Except Error Query := do
  checkUnique columns
  return .project columns (if columns.isEmpty then input.skipProjections else input)

/-- Compute columns from a group of input rows. -/
def groupingProjection (columns : List (String × Expr)) (input : Query) : Except Error Query := do
  checkUnique columns
  return .grouping columns input

/-- Combine two queries; the empty relation is left out of a product. -/
def combination : CombineOp → Query → Query → Query
  | .product, .empty, q => q
  | .product, q, .empty => q
  | op, left, right => .combine op left right

/-- Combine two queries by the operator of that name. -/
def combinationNamed (name : String) (left right : Query) : Except Error Query :=
  match CombineOp.ofName? name with
  | some op => .ok (combination op left right)
  | none => .error (.unknownRelationalOperator name)

/-- The product of queries, grouped to the left. -/
def productAll (queries : List Query) : Query :=
  queries.foldl (combination .product) .empty

/-- Keep the rows that satisfy all predicates, the first one tested first. -/
def restrictAll (predicates : List Expr) (input : Query) : Query :=
  predicates.foldl (fun q p => .restrict p q) input

@[simp] theorem combination_empty_left (q : Query) : combination .product .empty q = q := by
  cases q <;> rfl

@[simp] theorem combination_empty_right (q : Query) : combination .product q .empty = q := by
  cases q <;> rfl

theorem skipProjections_ne_project (q : Query) (columns : List (String × Expr)) (input : Query) :
    q.skipProjections ≠ .project columns input := by
  match q with
  | .project _ inner => exact skipProjections_ne_project inner columns input
  | .empty | .table _ _ | .galaxy _ | .restrict _ _ | .combine _ _ _ | .grouping _ _ | .order _ _
  | .top _ _ _ => intro h; cases h

end FlatPlan.Query
