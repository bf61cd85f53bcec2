import FlatPlan.Plan.Build
import FlatPlan.Ty.Constant
import FlatPlan.Ty.Form
import FlatPlan.Universe

/-!
# Expressions and queries as datums

Every node is a tagged array. Relations, operators and base types are written by name and read back
through a universe.
-/

namespace FlatPlan

mutual

/-- The datum of an expression. -/
def Expr.toDatum : Expr → Except Error Datum
  | .attr name => .ok (.tagged "attribute-ref" [.string name])
  | .const type value => do
    let d ← type.constToDatum value
    return .tagged "const" [type.toDatum, d]
  | .null type => .ok (.tagged "null-const" [type.toDatum])
  | .apply op args => do
    return .tagged "application" [.string op.name, .array (← Expr.toDatums args)]
  | .tuple items => do return .tagged "tuple" [.array (← Expr.toDatums items)]
  | .aggregate fn arg => do return .tagged "aggregation" [.string fn.name, ← arg.toDatum]
  | .multiAggregate fn args => do
    return .tagged "multi-aggregation" [.string fn.name, .array (← Expr.toDatums args)]
  | .case branches default => do
    let ds ← Expr.branchesToDatums branches
    return .tagged "case-expr" [.array ds, ← default.toDatum]
  | .scalarSubquery query => do return .tagged "scalar-subquery" [← query.toDatum]
  | .setSubquery query => do return .tagged "set-subquery" [← query.toDatum]

/-- The datum of each expression. -/
def Expr.toDatums : List Expr → Except Error (List Datum)
  | [] => .ok []
  | e :: es => do
    let d ← e.toDatum
    let ds ← Expr.toDatums es
    return d :: ds

/-- The datum of each branch of a choice. -/
def Expr.branchesToDatums : List (Expr × Expr) → Except Error (List Datum)
  | [] => .ok []
  | (condition, result) :: branches => do
    let c ← condition.toDatum
    let r ← result.toDatum
    let ds ← Expr.branchesToDatums branches
    return .array [c, r] :: ds

/-- The datum of a query. -/
def Query.toDatum : Query → Except Error Datum
  | .empty => .ok (.tagged "empty" [])
  | .table name _ => .ok (.tagged "base-relation" [.string name])
  | .galaxy g => .ok (.tagged "base-relation" [.string g.name])
  | .project columns input => do
    let ds ← Query.columnsToDatums columns
    return .tagged "project" [.array ds, ← input.toDatum]
  | .grouping columns input => do
    let ds ← Query.columnsToDatums columns
    return .tagged "grouping-project" [.array ds, ← input.toDatum]
  | .restrict predicate input => do
    let p ← predicate.toDatum
    return .tagged "restrict" [p, ← input.toDatum]
  | .combine op left right => do
    let l ← left.toDatum
    return .tagged op.name [l, ← right.toDatum]
  | .order keys input => do
    let ds ← Query.keysToDatums keys
    return .tagged "order" [.array ds, ← input.toDatum]
  | .top offset count input => do
    return .tagged "top" [.integer offset, .integer count, ← input.toDatum]

/-- The datum of each column of a projection. -/
def Query.columnsToDatums : List (String × Expr) → Except Error (List Datum)
  | [] => .ok []
  | (name, e) :: columns => do
    let d ← e.toDatum
    let ds ← Query.columnsToDatums columns
    return .array [.string name, d] :: ds

/-- The datum of each ordering key. -/
def Query.keysToDatums : List (Expr × Direction) → Except Error (List Datum)
  | [] => .ok []
  | (e, direction) :: keys => do
    let d ← e.toDatum
    let ds ← Query.keysToDatums keys
    return .array [d, .string direction.name] :: ds

end

/-- The datum is not what is read here. -/
def malformedForm {α : Type} (expected : String) (found : Datum) : Except Error α :=
  .error (.data (found.malformed expected))

/-- A tagged array with a wrong number of parts after its tag. -/
def wrongForm {α : Type} (tag : String) (expected : Nat) (parts : List Datum) : Except Error α :=
  .error (.data (Datum.wrongParts tag expected parts))

namespace Universe

/-- The constant that a type datum and a value datum stand for. -/
def constOfDatums (u : Universe) (type value : Datum) : Except Error Expr := do
  let t ← Ty.ofDatum u.type? type
  let v ← t.datumToConst value
  Expr.constant t v

end Universe

/-- The word of a vocabulary that a datum names. -/
def Keyword.ofDatum {α : Type} (ofName? : String → Option α) (what : String)
    (unknown : String → Misuse) (d : Datum) : Except Error α := do
  let name ← d.expectString what
  match ofName? name with
  | some word => return word
  | none => .error (.invalidArgument (unknown name))

/-- The aggregate function that a datum names. -/
def Aggregate.ofDatum : Datum → Except Error Aggregate :=
  Keyword.ofDatum ofName? "aggregate name" .unknownAggregate

/-- The aggregate function of several arguments that a datum names. -/
def MultiAggregate.ofDatum : Datum → Except Error MultiAggregate :=
  Keyword.ofDatum ofName? "aggregate name" .unknownAggregate

/-- The sort direction that a datum names. -/
def Direction.ofDatum : Datum → Except Error Direction :=
  Keyword.ofDatum ofName? "sort direction" .unknownDirection

mutual

/-- The expression that a datum stands for. -/
def Expr.ofDatum (u : Universe) : Datum → Except Error Expr
  | .array (.string tag :: parts) =>
    if tag = "attribute-ref" then
      match parts with
      | [name] => do return .attr (← name.expectString "attribute name")
      | parts => wrongForm tag 1 parts
    else if tag = "const" then
      match parts with
      | [type, value] => u.constOfDatums type value
      | parts => wrongForm tag 2 parts
    else if tag = "null-const" then
      match parts with
      | [type] => do return .null (← Ty.ofDatum u.type? type)
      | parts => wrongForm tag 1 parts
    else if tag = "application" then
      match parts with
      | [name, args] => do
        let op ← u.requireOperator (← name.expectString "operator name")
        return .apply op (← Expr.listOfDatum u args)
      | parts => wrongForm tag 2 parts
    else if tag = "tuple" then
      match parts with
      | [items] => do return .tuple (← Expr.listOfDatum u items)
      | parts => wrongForm tag 1 parts
    else if tag = "aggregation" then
      match parts with
      | [name, arg] => do
        let fn ← Aggregate.ofDatum name
        return .aggregate fn (← Expr.ofDatum u arg)
      | parts => wrongForm tag 2 parts
    else if tag = "multi-aggregation" then
      match parts with
      | [name, args] => do
        let fn ← MultiAggregate.ofDatum name
        return .multiAggregate fn (← Expr.listOfDatum u args)
      | parts => wrongForm tag 2 parts
    else if tag = "case-expr" then
      match parts with
      | [.array branches, default] => do
        let bs ← Expr.branchesOfDatums u branches
        return .case bs (← Expr.ofDatum u default)
      | [branches, _] => malformedForm "array of case branches" branches
      | parts => wrongForm tag 2 parts
    else if tag = "scalar-subquery" then
      match parts with
      | [query] => do return .scalarSubquery (← Query.ofDatum u query)
      | parts => wrongForm tag 1 parts
    else if tag = "set-subquery" then
      match parts with
      | [query] => do return .setSubquery (← Query.ofDatum u query)
      | parts => wrongForm tag 1 parts
    else .error (.data (.malformed "expression tag" tag))
  | d => malformedForm "tagged array" d

/-- The expressions that an array stands for. -/
def Expr.listOfDatum (u : Universe) : Datum → Except Error (List Expr)
  | .array items => Expr.ofDatums u items
  | d => malformedForm "array of expressions" d

/-- The expression that each datum stands for. -/
def Expr.ofDatums (u : Universe) : List Datum → Except Error (List Expr)
  | [] => .ok []
  | d :: ds => do
    let e ← Expr.ofDatum u d
    let es ← Expr.ofDatums u ds
    return e :: es

/-- The branch of a choice that each datum stands for. -/
def Expr.branchesOfDatums (u : Universe) : List Datum → Except Error (List (Expr × Expr))
  | [] => .ok []
  | .array [c, r] :: ds => do
    let condition ← Expr.ofDatum u c
    let result ← Expr.ofDatum u r
    let branches ← Expr.branchesOfDatums u ds
    return (condition, result) :: branches
  | .array items :: _ => malformedForm "[condition, result]" (.array items)
  | d :: _ => malformedForm "array of case branch" d

/-- The query that a datum stands for. -/
def Query.ofDatum (u : Universe) : Datum → Except Error Query
  | .array (.string tag :: parts) =>
    if tag = "empty" then
      match parts with
      | [] => .ok .empty
      | parts => wrongForm tag 0 parts
    else if tag = "base-relation" then
      match parts with
      | [name] => do u.requireRelation (← name.expectString "relation name")
      | parts => wrongForm tag 1 parts
    else if tag = "project" then
      match parts with
      | [columns, input] => do
        let cs ← Query.columnsOfDatum u columns
        let q ← Query.ofDatum u input
        Query.projection cs q
      | parts => wrongForm tag 2 parts
    else if tag = "grouping-project" then
      match parts with
      | [columns, input] => do
        let cs ← Query.columnsOfDatum u columns
        let q ← Query.ofDatum u input
        Query.groupingProjection cs q
      | parts => wrongForm tag 2 parts
    else if tag = "restrict" then
      match parts with
      | [predicate, input] => do
        let p ← Expr.ofDatum u predicate
        let q ← Query.ofDatum u input
        return .restrict p q
      | parts => wrongForm tag 2 parts
    else if tag = "order" then
      match parts with
      | [.array keys, input] => do
        let ks ← Query.keysOfDatums u keys
        let q ← Query.ofDatum u input
        return .order ks q
      | [keys, _] => malformedForm "array of ordering keys" keys
      | parts => wrongForm tag 2 parts
    else if tag = "top" then
      match parts with
      | [offset, count, input] => do
        let offset ← offset.expectUInt64 "offset"
        let count ← count.expectUInt64 "count"
        let q ← Query.ofDatum u input
        return .top offset count q
      | parts => wrongForm tag 3 parts
    else
      match CombineOp.ofName? tag with
      | none => .error (.unknownRelationalOperator tag)
      | some op =>
        match parts with
        | [left, right] => do
          let l ← Query.ofDatum u left
          let r ← Query.ofDatum u right
          return Query.combination op l r
        | parts => wrongForm tag 2 parts
  | d => malformedForm "tagged array" d

/-- The columns that an array stands for. -/
def Query.columnsOfDatum (u : Universe) : Datum → Except Error (List (String × Expr))
  | .array items => Query.columnsOfDatums u items
  | d => malformedForm "array of projection columns" d

/-- The column that each datum stands for. -/
def Query.columnsOfDatums (u : Universe) : List Datum → Except Error (List (String × Expr))
  | [] => .ok []
  | .array [n, d] :: ds => do
    let name ← n.expectString "column name"
    let e ← Expr.ofDatum u d
    let columns ← Query.columnsOfDatums u ds
    return (name, e) :: columns
  | .array items :: _ => malformedForm "[name, expression]" (.array items)
  | d :: _ => malformedForm "array of projection column" d

/-- The ordering key that each datum stands for. -/
def Query.keysOfDatums (u : Universe) : List Datum → Except Error (List (Expr × Direction))
  | [] => .ok []
  | .array [d, direction] :: ds => do
    let e ← Expr.ofDatum u d
    let direction ← Direction.ofDatum direction
    let keys ← Query.keysOfDatums u ds
    return (e, direction) :: keys
  | .array items :: _ => malformedForm "[expression, direction]" (.array items)
  | d :: _ => malformedForm "array of ordering key" d

end

end FlatPlan
