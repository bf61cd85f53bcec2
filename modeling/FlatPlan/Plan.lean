import FlatPlan.Galaxy.Setup
import FlatPlan.Schema
import FlatPlan.Typing.Check

/-!
# Expressions and queries

A query is a tree of relational operations over named relations; an expression computes a value from
a row of a query. A galaxy is a relation of one structured column that stands for a query over
several columns. Operators are known by their names and carry what flattening does with their
applications.
-/

namespace FlatPlan

mutual

/-- A value computed from a row. -/
inductive Expr where
  /-- The attribute of that name. -/
  | attr (name : String)
  | const (type : Ty) (value : Value)
  /-- The null of a type. -/
  | null (type : Ty)
  | apply (op : Operator) (args : List Expr)
  /-- Several values side by side. -/
  | tuple (items : List Expr)
  | aggregate (fn : Aggregate) (arg : Expr)
  | multiAggregate (fn : MultiAggregate) (args : List Expr)
  /-- The result of the first branch whose condition holds, or else the default. -/
  | case (branches : List (Expr × Expr)) (default : Expr)
  /-- The single value of a query. -/
  | scalarSubquery (query : Query)
  /-- The set of the values of a query. -/
  | setSubquery (query : Query)

/-- A relational query. -/
inductive Query where
  /-- The relation of no columns and one row. -/
  | empty
  /-- A stored relation. -/
  | table (name : String) (schema : Schema)
  /-- The relation of a galaxy. -/
  | galaxy (g : Galaxy)
  /-- Compute each column from an input row. -/
  | project (columns : List (String × Expr)) (input : Query)
  /-- Keep the rows that satisfy the predicate. -/
  | restrict (predicate : Expr) (input : Query)
  | combine (op : CombineOp) (left right : Query)
  /-- Compute each column from a group of input rows. -/
  | grouping (columns : List (String × Expr)) (input : Query)
  /-- Sort by keys, the most significant first. -/
  | order (keys : List (Expr × Direction)) (input : Query)
  /-- Skip `offset` rows and keep `count`. -/
  | top (offset count : UInt64) (input : Query)

/-- A relation of one structured column, computed by a query. -/
structure Galaxy where
  /-- The name of the relation and of its column. -/
  name : String
  type : Ty
  /-- The procedure that prepares a database for the galaxy. -/
  setup : Setup
  query : Query

/-- A named scalar operator. -/
structure Operator where
  /-- The name, which is also the identity of the operator. -/
  name : String
  /-- The type of an application, given those of the arguments. -/
  range : TypeCheck → List Ty → Except Error Ty
  /-- The text of an application, given those of the arguments. -/
  render : List String → String
  flattening : Flattening

/-- What flattening makes of an application whose arguments are flat. -/
inductive Flattening where
  /-- The same application. -/
  | plain
  /-- Tuples are compared component by component, and the results joined. -/
  | componentwise (joiner : Operator)
  /-- The expression of a template. -/
  | template (result : Template)
  /-- The expression of a template over the columns of a query, joined under a condition. -/
  | lookup (source : Query) (condition result : Template)

/-- An expression with holes for the parts of an application. -/
inductive Template where
  /-- An argument. -/
  | arg (index : Nat)
  /-- The tuple of all arguments. -/
  | args
  /-- A column of the joined query. -/
  | column (index : Nat)
  /-- The null of an argument's type. -/
  | argType (index : Nat)
  /-- A component of a tuple. -/
  | item (whole : Template) (index : Nat)
  | tuple (items : List Template)
  /-- An application of the same operator. -/
  | self (args : List Template)
  | apply (op : Operator) (args : List Template)
  | expr (e : Expr)
  /-- The answer of a rule that is known by its name, which may be any expression. -/
  | rule (name : String)
  /-- No expression, for the reason given. -/
  | fail (reason : String)

end

namespace Operator

/-- The text of a call. -/
def callText (name : String) (args : List String) : String :=
  name ++ "(" ++ ", ".intercalate args ++ ")"

/-- Whether flattening treats applications of the operator in a way of its own. -/
def hasRule (op : Operator) : Bool :=
  match op.flattening with
  | .plain => false
  | _ => true

/-- The query that flattening joins for an application. -/
def lookupSource? (op : Operator) : Option Query :=
  match op.flattening with
  | .lookup source _ _ => some source
  | _ => none

/-- The structural text of an operator. -/
def dump (op : Operator) : String :=
  Text.dumpFields "Operator" [("name", Text.dumpString op.name),
    ("flatten", Text.dumpBool op.hasRule)]

end Operator

namespace Galaxy

/-- The one column of a galaxy. -/
def schema (g : Galaxy) : Schema := .single g.name g.type

end Galaxy

namespace Expr

/-- A constant of a type, refused if it does not belong to it. -/
def constant (type : Ty) (value : Value) : Except Error Expr := do
  type.ensureMember value
  return .const type value

def isTuple : Expr → Bool
  | .tuple _ => true
  | _ => false

mutual

/-- The parts of nested tuples in order, or the expression itself. -/
def leaves : Expr → List Expr
  | .tuple items => itemLeaves items
  | e => [e]

/-- The parts of each expression in order. -/
def itemLeaves : List Expr → List Expr
  | [] => []
  | e :: es => e.leaves ++ itemLeaves es

end

end Expr

namespace Query

/-- The galaxy behind a relation. -/
def galaxy? : Query → Option Galaxy
  | .galaxy g => some g
  | _ => none

/-- The name and schema of a relation. -/
def relation? : Query → Option (String × Schema)
  | .table name schema => some (name, schema)
  | .galaxy g => some (g.name, g.schema)
  | _ => none

end Query

end FlatPlan
