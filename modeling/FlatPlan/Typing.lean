import FlatPlan.Plan.Attribute
import FlatPlan.Ty.Builtin

/-!
# Schemas of queries and types of expressions

`Query.schemaOf` computes the columns of a query and `Expr.typeOf` the type of an expression over a
row. In both modes an unknown attribute, a subquery of several columns and a wrong number of
arguments are errors; in checked mode so is every type that does not fit, every pair of operands
whose schemas do not fit together, and an aggregation outside a grouping projection.
-/

namespace FlatPlan

namespace Schema

/-- The columns of a product: of two columns of one name the first stays, or in checked mode
none. -/
def product (check : TypeCheck) (left right : Schema) : Except Error Schema :=
  right.columns.foldlM (fun schema column =>
    if schema.contains column.1 then
      if check.checked then .error (.schemaMismatch .product left.text right.text) else .ok schema
    else .ok (schema.push column.1 column.2)) left

/-- The columns of the left that the right does not have. -/
def quotient (check : TypeCheck) (left right : Schema) : Except Error Schema :=
  left.columns.foldlM (fun schema column =>
    match right.get? column.1 with
    | some type => do
      check.expect column.2 type
      return schema
    | none => .ok (schema.push column.1 column.2)) .empty

/-- The columns of two operands that have to have the same ones. -/
def matching (check : TypeCheck) (op : CombineOp) (left right : Schema) : Except Error Schema :=
  if check.checked && !(left == right) then .error (.schemaMismatch op left.text right.text)
  else .ok left

/-- The columns of a combination. -/
def combine (check : TypeCheck) (op : CombineOp) (left right : Schema) : Except Error Schema :=
  match op with
  | .product => product check left right
  | .quotient => quotient check left right
  | .union | .intersection | .difference => matching check op left right

/-- The type of the only column. -/
def onlyType (s : Schema) : Except Error Ty :=
  match s.columns with
  | [(_, type)] => .ok type
  | columns => .error (.notUnary columns.length)

end Schema

namespace Aggregate

/-- The type of an aggregation, given that of its argument. -/
def range (check : TypeCheck) (fn : Aggregate) (arg : Ty) : Except Error Ty := do
  if fn.needsNumeric then check.expectNumeric arg
  if fn.needsOrdered then check.expectOrdered arg
  match fn with
  | .count => return .integer
  | .sum | .min | .max => return arg
  | .avg | .stddev | .stddevPop | .variance | .variancePop => return .float

end Aggregate

namespace TypeCheck

/-- The type of a choice, given those of its branches and its default; the last branch is unified
first. -/
def caseType (check : TypeCheck) (branches : List (Ty × Ty)) (default : Ty) : Except Error Ty :=
  branches.reverse.foldlM (fun result branch => do
    check.expect .boolean branch.1
    check.unify branch.2 result) default

/-- Require every type to be numeric. -/
def expectAllNumeric (check : TypeCheck) (types : List Ty) : Except Error Unit :=
  types.forM check.expectNumeric

end TypeCheck

mutual

/-- The type of an expression over rows of a schema. -/
def Expr.typeOf (check : TypeCheck) (schema : Schema) : Expr → Except Error Ty
  | .attr name =>
    match schema.get? name with
    | some type => .ok type
    | none => .error (.unknownAttribute name)
  | .const type _ => .ok type
  | .null type => .ok type
  | .apply op args => do
    let types ← Expr.typesOf check schema args
    op.range check types
  | .tuple items => do return .product (← Expr.typesOf check schema items)
  | .aggregate fn arg => do
    let type ← arg.typeOf check schema
    fn.range check type
  | .multiAggregate _ args => do
    let types ← Expr.typesOf check schema args
    check.expectAllNumeric types
    return .float
  | .case branches default => do
    let types ← Expr.branchTypesOf check schema branches
    let type ← default.typeOf check schema
    check.caseType types type
  | .scalarSubquery query => do (← query.schemaOf check).onlyType
  | .setSubquery query => do return .set (← (← query.schemaOf check).onlyType)

/-- The type of each expression. -/
def Expr.typesOf (check : TypeCheck) (schema : Schema) : List Expr → Except Error (List Ty)
  | [] => .ok []
  | e :: es => do
    let type ← e.typeOf check schema
    let types ← Expr.typesOf check schema es
    return type :: types

/-- The types of the conditions and results of a choice. -/
def Expr.branchTypesOf (check : TypeCheck) (schema : Schema) :
    List (Expr × Expr) → Except Error (List (Ty × Ty))
  | [] => .ok []
  | (condition, result) :: branches => do
    let conditionType ← condition.typeOf check schema
    let resultType ← result.typeOf check schema
    let types ← Expr.branchTypesOf check schema branches
    return (conditionType, resultType) :: types

/-- The columns of a query. -/
def Query.schemaOf (check : TypeCheck) : Query → Except Error Schema
  | .empty => .ok .empty
  | .table _ schema => .ok schema
  | .galaxy g => .ok g.schema
  | .project columns input => do
    let schema ← input.schemaOf check
    return ⟨← Query.columnsOf check schema false columns⟩
  | .grouping columns input => do
    let schema ← input.schemaOf check
    return ⟨← Query.columnsOf check schema true columns⟩
  | .restrict predicate input => do
    let schema ← input.schemaOf check
    let type ← predicate.typeOf check schema
    check.expect .boolean type
    return schema
  | .combine op left right => do
    let leftSchema ← left.schemaOf check
    let rightSchema ← right.schemaOf check
    Schema.combine check op leftSchema rightSchema
  | .order keys input => do
    let schema ← input.schemaOf check
    Query.checkKeys check schema keys
    return schema
  | .top _ _ input => input.schemaOf check

/-- The names and types of projected columns. -/
def Query.columnsOf (check : TypeCheck) (schema : Schema) (grouping : Bool) :
    List (String × Expr) → Except Error (List Column)
  | [] => .ok []
  | (name, e) :: columns => do
    if !grouping && check.checked && e.hasAggregate then
      throw (.misplacedAggregate name)
    let type ← e.typeOf check schema
    check.require (!type.isProduct) "scalar type" type.text
    let rest ← Query.columnsOf check schema grouping columns
    return (name, type) :: rest

/-- Require the ordering keys to have ordered types. -/
def Query.checkKeys (check : TypeCheck) (schema : Schema) : List (Expr × Direction) →
    Except Error Unit
  | [] => .ok ()
  | (e, _) :: keys => do
    let type ← e.typeOf check schema
    check.expectOrdered type
    Query.checkKeys check schema keys

end

namespace Query

/-- The columns of a query, where types are taken as they are. -/
def inferSchema (capabilities : Capabilities) (q : Query) : Except Error Schema :=
  q.schemaOf ⟨false, capabilities⟩

/-- The columns of a query, where every type has to fit. -/
def checkSchema (capabilities : Capabilities) (q : Query) : Except Error Schema :=
  q.schemaOf ⟨true, capabilities⟩

end Query

end FlatPlan
