import FlatPlan.Proofs.Expansion

/-!
# Meaning of queries

A query without aggregations, subqueries, grouping and ordering means a list of rows, given the rows
of the tables and an interpretation of the scalar operators. A cell of a row is a scalar or the
vector of the parts of a structured value. Equality of vectors is decided part by part; the
connectives are the boolean ones, and any other operator is interpreted freely. The other forms of
queries and expressions are given no meaning here (`NodeProperty.relational`).
-/

namespace FlatPlan

/-! ## Cells -/

/-- What a row holds in a column: a scalar, or the parts of a structured value. -/
inductive Cell where
  | scalar (value : Value)
  | vector (items : List Cell)

/-- The cells of a row by column, in order. -/
abbrev Row := List (String × Cell)

mutual

/-- The scalars in a cell, in order. -/
def Cell.leaves : Cell → List Value
  | .scalar value => [value]
  | .vector items => Cell.itemLeaves items

/-- The scalars in the cells, in order. -/
def Cell.itemLeaves : List Cell → List Value
  | [] => []
  | c :: cs => c.leaves ++ Cell.itemLeaves cs

end

namespace Value

def isTrue : Value → Bool
  | .boolean b => b
  | _ => false

def and (a b : Value) : Value := .boolean (a.isTrue && b.isTrue)

def or (a b : Value) : Value := .boolean (a.isTrue || b.isTrue)

def not (a : Value) : Value := .boolean (!a.isTrue)

end Value

/-- Whether a cell holds the truth value true. -/
def Cell.isTrue : Cell → Bool
  | .scalar value => value.isTrue
  | .vector _ => false

mutual

/-- The cell of a constant or of a tuple of them; anything else counts as null. -/
def Expr.constantCell : Expr → Cell
  | .const _ value => .scalar value
  | .tuple items => .vector (Expr.constantCells items)
  | _ => .scalar .null

/-- The cell of each constant. -/
def Expr.constantCells : List Expr → List Cell
  | [] => []
  | e :: es => e.constantCell :: Expr.constantCells es

end

/-- The vector of nulls that stands for an absent structured value. -/
def Layout.nullCell (l : Layout) : Cell := .vector (l.columns.map fun _ => .scalar .null)

namespace Ty

/-- The cell of a constant: that of a structured type holds what its encoder stores. -/
def cell (rules : Rules) (type : Ty) (value : Value) : Cell :=
  match type.layout? with
  | some l =>
    if value.isNull then l.nullCell
    else match l.stored rules value with
      | .ok e => e.constantCell
      | .error _ => .scalar value
  | none => .scalar value

/-- The cell of a typed null. -/
def nullCell (type : Ty) : Cell :=
  match type.layout? with
  | some l => l.nullCell
  | none => .scalar .null

end Ty

/-! ## Operators -/

/-- The comparisons that vectors take part in. -/
inductive Equality where
  | equal
  | differ

namespace Equality

def name : Equality → String
  | .equal => "="
  | .differ => "<>"

/-- The connective that joins the comparisons of the parts. -/
def joiner : Equality → String
  | .equal => "and"
  | .differ => "or"

/-- Vectors are equal if all their parts are, and differ if some part does. -/
def join : Equality → Value → Value → Value
  | .equal => .and
  | .differ => .or

/-- The comparison of vectors, given those of their parts. -/
def joinAll (k : Equality) : List Value → Value
  | [] => .boolean (match k with | .equal => true | .differ => false)
  | first :: rest => rest.foldl k.join first

end Equality

/-- The rows of the tables and the values of the scalar operators, where structured constants hold
what the encoders answer. -/
structure Interpretation (rules : Rules) where
  /-- The rows of a table by its name, each with a value for every column. -/
  table : String → List (String → Value)
  /-- The value of an operator by its name. -/
  operator : String → List Cell → Value

namespace Interpretation

variable {rules : Rules} (I : Interpretation rules)

mutual

/-- The comparison of two cells: vectors part by part. -/
def compare (k : Equality) : Cell → Cell → Value
  | .vector as, .vector bs => k.joinAll (compareItems k as bs)
  | a, b => I.operator k.name [a, b]

/-- The comparisons of cells, place by place. -/
def compareItems (k : Equality) : List Cell → List Cell → List Value
  | a :: as, b :: bs => compare k a b :: compareItems k as bs
  | _, _ => []

end

/-- The value of an operator: equality, connectives, and those that are interpreted freely. -/
def apply (name : String) (args : List Cell) : Value :=
  match name, args with
  | "=", [a, b] => I.compare .equal a b
  | "<>", [a, b] => I.compare .differ a b
  | "and", [.scalar a, .scalar b] => a.and b
  | "or", [.scalar a, .scalar b] => a.or b
  | "not", [.scalar a] => a.not
  | name, args => I.operator name args

end Interpretation

/-! ## Expressions and queries -/

/-- Of several results the first whose condition is true, or else the default. -/
def choose {α : Type} (default : α) : List Cell → List α → α
  | condition :: conditions, result :: results =>
    if condition.isTrue then result else choose default conditions results
  | _, _ => default

namespace Expr

mutual

/-- The cell of an expression over a row. -/
def eval {rules : Rules} (I : Interpretation rules) (row : Row) : Expr → Cell
  | .attr name => (row.lookup name).getD (.scalar .null)
  | .const type value => type.cell rules value
  | .null type => type.nullCell
  | .apply op args => .scalar (I.apply op.name (evalAll I row args))
  | .tuple items => .vector (evalAll I row items)
  | .case branches default =>
    choose (default.eval I row) (evalConditions I row branches) (evalResults I row branches)
  | .aggregate _ _ | .multiAggregate _ _ | .scalarSubquery _ | .setSubquery _ => .scalar .null

/-- The cell of each expression. -/
def evalAll {rules : Rules} (I : Interpretation rules) (row : Row) : List Expr → List Cell
  | [] => []
  | e :: es => e.eval I row :: evalAll I row es

/-- The cells of the conditions of a choice. -/
def evalConditions {rules : Rules} (I : Interpretation rules) (row : Row) :
    List (Expr × Expr) → List Cell
  | [] => []
  | (condition, _) :: branches => condition.eval I row :: evalConditions I row branches

/-- The cells of the results of a choice. -/
def evalResults {rules : Rules} (I : Interpretation rules) (row : Row) :
    List (Expr × Expr) → List Cell
  | [] => []
  | (_, result) :: branches => result.eval I row :: evalResults I row branches

end

end Expr

/-- The rows of a query. -/
def Query.rows {rules : Rules} (I : Interpretation rules) : Query → List Row
  | .empty => [[]]
  | .table name schema => (I.table name).map fun values => schema.names.map fun name =>
      (name, .scalar (values name))
  | .galaxy ⟨name, _, _, query⟩ =>
    (query.rows I).map fun row =>
      [(name, .vector ((Cell.itemLeaves (row.map Prod.snd)).map .scalar))]
  | .project columns input => (input.rows I).map fun row => columns.map fun c =>
      (c.1, c.2.eval I row)
  | .restrict predicate input => (input.rows I).filter fun row => (predicate.eval I row).isTrue
  | .combine .product left right => (left.rows I).flatMap fun row => (right.rows I).map (row ++ ·)
  | .combine .union left right => left.rows I ++ right.rows I
  | .top offset count input => ((input.rows I).drop offset.toNat).take count.toNat
  | .combine _ _ _ | .grouping _ _ | .order _ _ => []

/-- The forms of queries and expressions that have a meaning as rows. -/
def NodeProperty.relational : NodeProperty where
  expr
    | .aggregate _ _ | .multiAggregate _ _ | .scalarSubquery _ | .setSubquery _ => False
    | _ => True
  query
    | .combine op _ _ => op = .product ∨ op = .union
    | .grouping _ _ | .order _ _ => False
    | _ => True

/-! ## Rows over flat columns -/

namespace Environment

/-- The flat columns of a column, with the scalars that its cell holds. -/
def flatCells (env : Environment) (entry : String × Cell) : Row :=
  match env.find? entry.1 with
  | some rep => rep.leafNames.zip (entry.2.leaves.map .scalar)
  | none => [entry]

/-- A row over flat columns: each structured column is laid out in place. -/
def flatRow (env : Environment) (row : Row) : Row := row.flatMap env.flatCells

end Environment

end FlatPlan
