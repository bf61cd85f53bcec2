import FlatPlan.Plan

/-!
# Equality of expressions and queries

Two plans are the same if they agree node by node, where types and operators count by name, numbers
as numbers, and a galaxy by its name and type.
-/

namespace FlatPlan

mutual

/-- Whether two expressions are the same. -/
def Expr.same : Expr → Expr → Bool
  | .attr m, .attr n => m == n
  | .const s v, .const t w => s == t && v.same w
  | .null s, .null t => s == t
  | .apply f as, .apply g bs => f.name == g.name && Expr.sameItems as bs
  | .tuple as, .tuple bs => Expr.sameItems as bs
  | .aggregate f a, .aggregate g b => f == g && a.same b
  | .multiAggregate f as, .multiAggregate g bs => f == g && Expr.sameItems as bs
  | .case bs d, .case cs e => Expr.sameBranches bs cs && d.same e
  | .scalarSubquery p, .scalarSubquery q => p.same q
  | .setSubquery p, .setSubquery q => p.same q
  | _, _ => false

/-- Whether two lists of expressions agree item by item. -/
def Expr.sameItems : List Expr → List Expr → Bool
  | [], [] => true
  | a :: as, b :: bs => a.same b && Expr.sameItems as bs
  | _, _ => false

/-- Whether two lists of branches agree item by item. -/
def Expr.sameBranches : List (Expr × Expr) → List (Expr × Expr) → Bool
  | [], [] => true
  | (c, r) :: bs, (d, s) :: cs => c.same d && r.same s && Expr.sameBranches bs cs
  | _, _ => false

/-- Whether two queries are the same. -/
def Query.same : Query → Query → Bool
  | .empty, .empty => true
  | .table m s, .table n t => m == n && s == t
  | .galaxy g, .galaxy h => g.name == h.name && g.type == h.type
  | .project as p, .project bs q => Query.sameColumns as bs && p.same q
  | .restrict a p, .restrict b q => a.same b && p.same q
  | .combine f p q, .combine g r s => f == g && p.same r && q.same s
  | .grouping as p, .grouping bs q => Query.sameColumns as bs && p.same q
  | .order as p, .order bs q => Query.sameKeys as bs && p.same q
  | .top k m p, .top l n q => k == l && m == n && p.same q
  | _, _ => false

/-- Whether two lists of columns agree in names and expressions. -/
def Query.sameColumns : List (String × Expr) → List (String × Expr) → Bool
  | [], [] => true
  | (m, a) :: as, (n, b) :: bs => m == n && a.same b && Query.sameColumns as bs
  | _, _ => false

/-- Whether two lists of ordering keys agree in expressions and directions. -/
def Query.sameKeys : List (Expr × Direction) → List (Expr × Direction) → Bool
  | [], [] => true
  | (a, d) :: as, (b, e) :: bs => a.same b && d == e && Query.sameKeys as bs
  | _, _ => false

end

end FlatPlan
