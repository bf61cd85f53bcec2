/-!
# Keywords

The closed vocabularies of the algebra: binary relational operators, sort directions and aggregate
functions. Each word has a name, under which it is written and read back.
-/

namespace FlatPlan

/-- A binary relational operator. -/
inductive CombineOp where
  | product
  | union
  | intersection
  | quotient
  | difference
  deriving DecidableEq, Repr

/-- The direction of an ordering key. -/
inductive Direction where
  | asc
  | desc
  deriving DecidableEq, Repr

/-- An aggregate function of one argument. -/
inductive Aggregate where
  | count
  | sum
  | avg
  | min
  | max
  | stddev
  | stddevPop
  | variance
  | variancePop
  deriving DecidableEq, Repr

/-- An aggregate function of several arguments. -/
inductive MultiAggregate where
  | covariance
  | covariancePop
  | correlation
  deriving DecidableEq, Repr

/-- The word of that name in a vocabulary, if it has one. -/
def Keyword.named? {α : Type} (words : List α) (name : α → String) (text : String) : Option α :=
  words.find? fun word => name word == text

/-- A word that was found by its name has it. -/
theorem Keyword.name_of_named? {α : Type} {words : List α} {name : α → String} {text : String}
    {word : α} (h : named? words name text = some word) : text = name word := by
  have found := List.find?_some h
  exact (beq_iff_eq.1 found).symm

namespace CombineOp

def name : CombineOp → String
  | .product => "product"
  | .union => "union"
  | .intersection => "intersection"
  | .quotient => "quotient"
  | .difference => "difference"

def all : List CombineOp :=
  [.product, .union, .intersection, .quotient, .difference]

def ofName? : String → Option CombineOp :=
  Keyword.named? all name

/-- The constructor's word in structural text. -/
def dump : CombineOp → String
  | .product => "Product"
  | .union => "Union"
  | .intersection => "Intersection"
  | .quotient => "Quotient"
  | .difference => "Difference"

@[simp] theorem ofName?_name (op : CombineOp) : ofName? op.name = some op := by
  cases op <;> rfl

end CombineOp

namespace Direction

def name : Direction → String
  | .asc => "asc"
  | .desc => "desc"

def all : List Direction :=
  [.asc, .desc]

def ofName? : String → Option Direction :=
  Keyword.named? all name

/-- The constructor's word in structural text. -/
def dump : Direction → String
  | .asc => "Asc"
  | .desc => "Desc"

@[simp] theorem ofName?_name (d : Direction) : ofName? d.name = some d := by
  cases d <;> rfl

end Direction

namespace Aggregate

def name : Aggregate → String
  | .count => "count"
  | .sum => "sum"
  | .avg => "avg"
  | .min => "min"
  | .max => "max"
  | .stddev => "stddev"
  | .stddevPop => "stddev-pop"
  | .variance => "variance"
  | .variancePop => "variance-pop"

def all : List Aggregate :=
  [.count, .sum, .avg, .min, .max, .stddev, .stddevPop, .variance, .variancePop]

def ofName? : String → Option Aggregate :=
  Keyword.named? all name

/-- The constructor's word in structural text. -/
def dump : Aggregate → String
  | .count => "Count"
  | .sum => "Sum"
  | .avg => "Avg"
  | .min => "Min"
  | .max => "Max"
  | .stddev => "Stddev"
  | .stddevPop => "StddevPop"
  | .variance => "Variance"
  | .variancePop => "VariancePop"

/-- Whether the argument has to be numeric. -/
def needsNumeric : Aggregate → Bool
  | .count | .min | .max => false
  | .sum | .avg | .stddev | .stddevPop | .variance | .variancePop => true

/-- Whether the argument has to be ordered. -/
def needsOrdered : Aggregate → Bool
  | .min | .max => true
  | _ => false

@[simp] theorem ofName?_name (f : Aggregate) : ofName? f.name = some f := by
  cases f <;> rfl

end Aggregate

namespace MultiAggregate

def name : MultiAggregate → String
  | .covariance => "covariance"
  | .covariancePop => "covariance-pop"
  | .correlation => "correlation"

def all : List MultiAggregate :=
  [.covariance, .covariancePop, .correlation]

def ofName? : String → Option MultiAggregate :=
  Keyword.named? all name

/-- The constructor's word in structural text. -/
def dump : MultiAggregate → String
  | .covariance => "Covariance"
  | .covariancePop => "CovariancePop"
  | .correlation => "Correlation"

@[simp] theorem ofName?_name (f : MultiAggregate) : ofName? f.name = some f := by
  cases f <;> rfl

end MultiAggregate

end FlatPlan
