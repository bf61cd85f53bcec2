import FlatPlan.Plan

/-!
# Shapes

The shape of a flat value is the nesting of its tuples. A choice between values of one shape becomes
a value of that shape whose leaves are choices. Main statement: `Shape.same_iff` says that the
comparison of shapes decides their equality.
-/

namespace FlatPlan

/-- A nesting of tuples. -/
inductive Shape where
  | leaf
  | tuple (items : List Shape)

namespace Shape

mutual

/-- Whether two shapes are equal. -/
def same : Shape → Shape → Bool
  | .leaf, .leaf => true
  | .tuple as, .tuple bs => sameItems as bs
  | _, _ => false

/-- Whether two lists of shapes are equal. -/
def sameItems : List Shape → List Shape → Bool
  | [], [] => true
  | a :: as, b :: bs => a.same b && sameItems as bs
  | _, _ => false

end

mutual

theorem eq_of_same : ∀ {a b : Shape}, a.same b = true → a = b
  | .leaf, .leaf, _ => rfl
  | .leaf, .tuple _, h => nomatch h
  | .tuple _, .leaf, h => nomatch h
  | .tuple as, .tuple bs, h => by
    have h : sameItems as bs = true := h
    rw [eq_of_sameItems h]

theorem eq_of_sameItems : ∀ {as bs : List Shape}, sameItems as bs = true → as = bs
  | [], [], _ => rfl
  | [], _ :: _, h => nomatch h
  | _ :: _, [], h => nomatch h
  | a :: as, b :: bs, h => by
    rw [sameItems, Bool.and_eq_true] at h
    rw [eq_of_same h.1, eq_of_sameItems h.2]

end

mutual

theorem same_self : ∀ a : Shape, a.same a = true
  | .leaf => rfl
  | .tuple as => sameItems_self as

theorem sameItems_self : ∀ as : List Shape, sameItems as as = true
  | [] => rfl
  | a :: as => by rw [sameItems, same_self a, sameItems_self as]; rfl

end

/-- The comparison of shapes decides their equality. -/
theorem same_iff {a b : Shape} : a.same b = true ↔ a = b :=
  ⟨eq_of_same, fun h => h ▸ same_self a⟩

instance : DecidableEq Shape := fun a b =>
  if h : a.same b = true then .isTrue (eq_of_same h)
  else .isFalse fun e => h (same_iff.2 e)

end Shape

namespace Expr

mutual

/-- The nesting of tuples in a flat value. -/
def shape : Expr → Shape
  | .tuple items => .tuple (shapes items)
  | _ => .leaf

/-- The shape of each value. -/
def shapes : List Expr → List Shape
  | [] => []
  | e :: es => e.shape :: shapes es

end

/-- The components of a tuple. -/
def components? : Expr → Option (List Expr)
  | .tuple items => some items
  | _ => none

/-- The first leaf of a value, unless an empty tuple comes before it. -/
def firstLeaf? : Expr → Option Expr
  | .tuple [] => none
  | .tuple (e :: _) => e.firstLeaf?
  | e => some e

mutual

/--
The choice between results, given the conditions in the same order, and a default: where the default
is a tuple, the tuple of the choices between components. -/
def distribute (conditions : List Expr) : Expr → List Expr → Expr
  | .tuple defaults, results =>
    .tuple (distributeItems conditions defaults (results.filterMap components?))
  | default, results => .case (conditions.zip results) default

/-- The choice at each place of a tuple, given the components of the results. -/
def distributeItems (conditions : List Expr) : List Expr → List (List Expr) → List Expr
  | [], _ => []
  | default :: defaults, rows =>
    distribute conditions default (rows.filterMap List.head?) ::
      distributeItems conditions defaults (rows.map List.tail)

end

end Expr

end FlatPlan
