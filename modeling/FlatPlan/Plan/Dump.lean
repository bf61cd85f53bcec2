import FlatPlan.Plan

/-!
# The structural text of expressions and queries

Every constructor is shown with its fields. Of a galaxy the setup is left out, of an operator all
but its name.
-/

namespace FlatPlan

mutual

/-- The structural text of an expression. -/
def Expr.dump : Expr → String
  | .attr name => Text.dumpCall "Attr" [Text.dumpString name]
  | .const type value => Text.dumpFields "Const" [("ty", type.dump), ("value", value.dump)]
  | .null type => Text.dumpCall "Null" [type.dump]
  | .apply op args =>
    Text.dumpFields "Apply" [("op", op.dump), ("args", Text.dumpList (Expr.dumpItems args))]
  | .tuple items => Text.dumpCall "Tuple" [Text.dumpList (Expr.dumpItems items)]
  | .aggregate fn arg => Text.dumpFields "Aggregate" [("op", fn.dump), ("arg", arg.dump)]
  | .multiAggregate fn args =>
    Text.dumpFields "MultiAggregate" [("op", fn.dump),
      ("args", Text.dumpList (Expr.dumpItems args))]
  | .case branches default =>
    Text.dumpFields "Case" [
      ("branches", Text.dumpList (Expr.dumpBranches branches)), ("default", default.dump)]
  | .scalarSubquery query => Text.dumpCall "ScalarSubquery" [query.dump]
  | .setSubquery query => Text.dumpCall "SetSubquery" [query.dump]

/-- The structural text of each expression. -/
def Expr.dumpItems : List Expr → List String
  | [] => []
  | e :: es => e.dump :: Expr.dumpItems es

/-- The structural text of each branch of a choice. -/
def Expr.dumpBranches : List (Expr × Expr) → List String
  | [] => []
  | (condition, result) :: branches =>
    Text.dumpPair condition.dump result.dump :: Expr.dumpBranches branches

/-- The structural text of a query. -/
def Query.dump : Query → String
  | .empty => "Empty"
  | .table name schema =>
    Text.dumpFields "BaseRelation" [
      ("name", Text.dumpString name), ("schema", schema.dump), ("handle", "Table")]
  | .galaxy ⟨name, type, _, query⟩ =>
    let galaxy := Text.dumpSomeFields "Galaxy" [
      ("name", Text.dumpString name), ("ty", type.dump), ("query", query.dump)]
    Text.dumpFields "BaseRelation" [
      ("name", Text.dumpString name), ("schema", (Schema.single name type).dump),
      ("handle", Text.dumpCall "Galaxy" [galaxy])]
  | .project columns input =>
    Text.dumpFields "Project" [
      ("columns", Text.dumpList (Query.dumpColumns columns)), ("input", input.dump)]
  | .restrict predicate input =>
    Text.dumpFields "Restrict" [("predicate", predicate.dump), ("input", input.dump)]
  | .combine op left right =>
    Text.dumpFields "Combine" [("op", op.dump), ("left", left.dump), ("right", right.dump)]
  | .grouping columns input =>
    Text.dumpFields "GroupingProject" [
      ("columns", Text.dumpList (Query.dumpColumns columns)), ("input", input.dump)]
  | .order keys input =>
    Text.dumpFields "Order" [("keys", Text.dumpList (Query.dumpKeys keys)), ("input", input.dump)]
  | .top offset count input =>
    Text.dumpFields "Top" [
      ("offset", toString offset.toNat), ("count", toString count.toNat), ("input", input.dump)]

/-- The structural text of each column of a projection. -/
def Query.dumpColumns : List (String × Expr) → List String
  | [] => []
  | (name, e) :: columns => Text.dumpPair (Text.dumpString name) e.dump :: Query.dumpColumns columns

/-- The structural text of each ordering key. -/
def Query.dumpKeys : List (Expr × Direction) → List String
  | [] => []
  | (e, direction) :: keys =>
    Text.dumpFields "SortKey" [("expr", e.dump), ("direction", direction.dump)] ::
      Query.dumpKeys keys

end

/-- The structural text of a galaxy. -/
def Galaxy.dump (g : Galaxy) : String :=
  Text.dumpSomeFields "Galaxy" [
    ("name", Text.dumpString g.name), ("ty", g.type.dump), ("query", g.query.dump)]

end FlatPlan
