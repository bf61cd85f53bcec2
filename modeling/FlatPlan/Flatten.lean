import FlatPlan.Flatten.Environment
import FlatPlan.Flatten.Pass
import FlatPlan.Flatten.Shape
import FlatPlan.Operator.Rule
import FlatPlan.Plan.Build
import FlatPlan.Typing

/-!
# Flattening

Flattening turns a query over structured attributes into one over flat columns. A galaxy becomes the
query behind it under fresh column names, and its attribute is bound to the tuple of these columns.
An expression becomes a scalar or a tuple of scalars, and brings the queries that have to be joined
for it. `Query.flatten` answers the flat query and the environment of its structured attributes.
-/

namespace FlatPlan

/-- What a pass goes by: how types are checked, and what named rules and encoders answer. -/
structure Regime extends TypeCheck where
  rules : Rules
  deriving Inhabited

instance : Coe Regime TypeCheck := ⟨Regime.toTypeCheck⟩

/-- A flat expression and the joins that it needs. -/
structure Flattened where
  expr : Expr
  /-- Queries to join to the one whose rows the expression reads. -/
  queries : List Query
  /-- Conditions on the joined rows. -/
  restrictions : List Expr

namespace Flattened

/-- An expression that needs no joins. -/
def plain (e : Expr) : Flattened := ⟨e, [], []⟩

/-- Whether no joins are needed. -/
def isSelfContained (f : Flattened) : Bool := f.queries.isEmpty && f.restrictions.isEmpty

/-- An expression made of others needs all their joins, in order. -/
def gather (parts : List Flattened) (e : Expr) : Flattened :=
  ⟨e, parts.flatMap queries, parts.flatMap restrictions⟩

end Flattened

/-- What an output column of a projection has become. -/
structure OutputColumn where
  name : String
  /-- The flat columns that carry it, with what they compute. -/
  columns : List (String × Expr)
  /-- The tuple of references to the flat columns, if the column is structured. -/
  refs : Option Expr
  queries : List Query
  restrictions : List Expr

mutual

/-- The expression of what a value is stored as. -/
def Encoding.toExpr (rules : Rules) : Encoding → Except Error Expr
  | .const type value => .ok (.const type value)
  | .group items => do return .tuple (← Encoding.toExprs rules items)
  | .named encoder value => rules.encode encoder value

/-- The expression of each part of what a value is stored as. -/
def Encoding.toExprs (rules : Rules) : List Encoding → Except Error (List Expr)
  | [] => .ok []
  | e :: es => do
    let first ← e.toExpr rules
    let rest ← Encoding.toExprs rules es
    return first :: rest

end

/-- The expression that a value is stored as. -/
def Layout.stored (l : Layout) (rules : Rules) (value : Value) : Except Error Expr := do
  (← l.encode value).toExpr rules

/-- The tuple of nulls that stands for an absent structured value. -/
def Layout.nulls (l : Layout) : Expr := .tuple (l.columns.map fun c => .null c.2)

namespace Expr

/-- The flat form of a constant: that of a structured type is encoded, or a tuple of nulls. -/
def flattenConst (rules : Rules) (type : Ty) (value : Value) : Except Error Expr :=
  match type.layout? with
  | some layout => if value.isNull then .ok layout.nulls else layout.stored rules value
  | none => .ok (.const type value)

/-- The flat form of a typed null. -/
def flattenNull (type : Ty) : Expr :=
  match type.layout? with
  | some layout => layout.nulls
  | none => .null type

/-- The aggregation of a flat argument in place of `whole`: a count counts the first leaf. -/
def flattenAggregate (whole : Expr) (fn : Aggregate) (arg : Expr) : Except Error Expr :=
  if fn = .count then
    match arg.firstLeaf? with
    | some leaf => .ok (.aggregate fn leaf)
    | none => .error (.invalidArgument (.emptyCount whole.text))
  else if arg.isTuple then .error (.notYetImplemented (.structuredAggregate fn whole.text))
  else .ok (.aggregate fn arg)

/-- The choice between flat results in place of `whole`; all have to have the shape of the
default. -/
def flattenCase (whole : Expr) (conditions results : List Expr) (default : Expr) :
    Except Error Expr :=
  if results.all fun r => r.shape == default.shape then .ok (distribute conditions default results)
  else .error (.notYetImplemented (.mixedCase whole.text))

mutual

/-- Give every leaf a fresh column; answers the references and the columns with what they
compute. -/
def spread : Expr → Pass (Expr × List (String × Expr))
  | .tuple items => do
    let (refs, columns) ← spreadItems items
    return (.tuple refs, columns)
  | leaf => do
    let name ← Pass.fresh
    return (.attr name, [(name, leaf)])

/-- Give every leaf of the values a fresh column. -/
def spreadItems : List Expr → Pass (List Expr × List (String × Expr))
  | [] => return ([], [])
  | e :: es => do
    let (ref, columns) ← e.spread
    let (refs, rest) ← spreadItems es
    return (ref :: refs, columns ++ rest)

end

end Expr

namespace OutputColumn

/-- The output column of a flat expression: a tuple is spread over fresh columns. -/
def ofFlattened (name : String) (flat : Flattened) : Pass OutputColumn :=
  if flat.expr.isTuple then do
    let (refs, columns) ← flat.expr.spread
    return ⟨name, columns, some refs, flat.queries, flat.restrictions⟩
  else return ⟨name, [(name, flat.expr)], none, flat.queries, flat.restrictions⟩

/-- The structured columns by name; of columns of one name the last counts. -/
def bindings (outputs : List OutputColumn) : Environment :=
  .ofList (outputs.filterMap fun o => o.refs.map fun refs => (o.name, refs))

/--
A structured attribute that is passed on under a new name only stays reachable under its old one:
`columns` are the declared columns and `env` the environment of the input. -/
def withAliases (columns : List (String × Expr)) (env bound : Environment) : Environment :=
  columns.foldl (fun bound (name, e) =>
    match e with
    | .attr source =>
      if columns.any (·.1 == source) || !env.contains source || bound.contains source then bound
      else match bound.find? name with
        | some refs => bound.insert source refs
        | none => bound
    | _ => bound) bound

end OutputColumn

namespace Query

/-- The flat form of a projection, given its columns and the flat input. -/
def ofOutputs (outputs : List OutputColumn) (input : Query) : Query :=
  .project (outputs.flatMap (·.columns))
    (restrictAll (outputs.flatMap (·.restrictions))
      (productAll (input :: outputs.flatMap (·.queries))))

/-- Draw a fresh name for each column; answers the renamings and the references. -/
def freshColumns : List Column → Pass (List (String × Expr) × List Expr)
  | [] => return ([], [])
  | (name, _) :: columns => do
    let new ← Pass.fresh
    let (renamings, refs) ← freshColumns columns
    return ((new, .attr name) :: renamings, .attr new :: refs)

/-- Project a query to fresh names; answers also the references to them. -/
def rename (check : TypeCheck) (q : Query) : Pass (Query × List Expr) := do
  let schema ← Pass.ofExcept (q.schemaOf check)
  let (renamings, refs) ← freshColumns schema.columns
  let renamed ← Pass.ofExcept (projection renamings q)
  return (renamed, refs)

/-- The flat form of a restriction: joined queries are projected away again. -/
def flattenRestriction (check : TypeCheck) (predicate : Expr) (flat : Flattened) (input : Query) :
    Except Error Query :=
  if flat.expr.isTuple then .error (.invalidArgument (.structuredPredicate predicate.text))
  else if flat.queries.isEmpty then .ok (restrictAll (flat.expr :: flat.restrictions) input)
  else do
    let visible ← input.schemaOf check
    return .project (visible.columns.map fun c => (c.1, .attr c.1))
      (restrictAll (flat.expr :: flat.restrictions) (productAll (input :: flat.queries)))

/-- The flat columns of two attributes, paired. -/
def alignColumns (leftEnv rightEnv : Environment) (left right : String) :
    Except Error (List (String × Expr)) := do
  let targets ← leftEnv.flatColumns left
  let sources ← rightEnv.flatColumns right
  if targets.length = sources.length then return targets.zip (sources.map .attr)
  else .error (.invalidArgument (.columnWidths left right targets.length sources.length))

/-- Project the flat right operand so that paired attributes have the flat names of the left. -/
def align (pairs : List (String × String)) (leftEnv rightEnv : Environment) (right : Query) :
    Except Error Query := do
  let columns ← pairs.mapM fun (l, r) => alignColumns leftEnv rightEnv l r
  projection columns.flatten right

/-- The flat form of a combination, given the flat operands with their environments and the schemas
of the operands before flattening. A product keeps the left one of two attributes of one name, a
quotient drops those of the right, and the other operations have the attributes of the left. -/
def flattenCombination (op : CombineOp) (left right : Query) (leftEnv rightEnv : Environment)
    (leftSchema rightSchema : Schema) : Except Error (Query × Environment) :=
  match op with
  | .product =>
    .ok (.combine op left right,
      leftEnv.insertAll (rightEnv.filterNames fun name => !leftSchema.contains name).entries)
  | .quotient => do
    let aligned ← align (rightSchema.names.map fun name => (name, name)) leftEnv rightEnv right
    return (.combine op left aligned, leftEnv.filterNames fun name => !rightSchema.contains name)
  | .union | .intersection | .difference =>
    if leftSchema.width = rightSchema.width then do
      let aligned ← align (leftSchema.names.zip rightSchema.names) leftEnv rightEnv right
      return (.combine op left aligned, leftEnv)
    else .error (.invalidArgument (.operandWidths op leftSchema.width rightSchema.width))

end Query

/-- The flat form of an application, given its parts and the joined query if there is one. -/
def Application.flatten (rules : Rules) (a : Application) (source : Option Query)
    (parts : List Flattened) : Except Error Flattened :=
  match a.op.flattening with
  | .plain => .ok (.gather parts (.apply a.op a.args))
  | .componentwise joiner =>
    match a.args with
    | [left, right] => do return .gather parts (← a.op.compare joiner left right)
    | args => .ok (.gather parts (.apply a.op args))
  | .template result => do return .gather parts (← result.fill rules a)
  | .lookup _ condition result => do
    let restriction ← condition.fill rules a
    let e ← result.fill rules a
    let flat := Flattened.gather parts e
    return { flat with
      queries := flat.queries ++ source.toList
      restrictions := flat.restrictions ++ [restriction] }

/-- The flat form of a query used as a value, given that of the query; its columns have to stay
scalar. -/
def Query.flattenSubquery (check : TypeCheck) (q : Query) (flatten : Pass (Query × Environment)) :
    Pass Query := do
  let schema ← Pass.ofExcept (q.schemaOf check)
  let (flat, env) ← flatten
  if schema.columns.any fun c => (env.find? c.1).any Expr.isTuple then
    throw (.notYetImplemented (.structuredSubquery schema.text))
  return flat

mutual

/-- The flat form of an expression over rows of `schema`, whose structured attributes `env`
binds. -/
def Expr.flatten (check : Regime) (env : Environment) (schema : Schema) : Expr → Pass Flattened
  | .attr name => return .plain (env.resolve name)
  | .const type value =>
    do return .plain (← Pass.ofExcept (Expr.flattenConst check.rules type value))
  | .null type => return .plain (Expr.flattenNull type)
  | .apply op args => do
    let parts ← Expr.flattenItems check env schema args
    let flatArgs := parts.map (·.expr)
    if op.hasRule then
      let types ← Pass.ofExcept (Expr.typesOf check schema args)
      match ← op.joinSource check with
      | some (source, refs) =>
        Pass.ofExcept
          (Application.flatten check.rules ⟨op, flatArgs, types, refs⟩ (some source) parts)
      | none =>
        Pass.ofExcept (Application.flatten check.rules ⟨op, flatArgs, types, []⟩ none parts)
    else return .gather parts (.apply op flatArgs)
  | .tuple items => do
    let parts ← Expr.flattenItems check env schema items
    return .gather parts (.tuple (parts.map (·.expr)))
  | .aggregate fn arg => do
    let part ← arg.flatten check env schema
    let e ← Pass.ofExcept (Expr.flattenAggregate (.aggregate fn arg) fn part.expr)
    return { part with expr := e }
  | .multiAggregate fn _ => throw (.notYetImplemented (.multiAggregate fn))
  | .case branches default => do
    let parts ← Expr.flattenBranches check env schema branches
    let last ← default.flatten check env schema
    let e ← Pass.ofExcept (Expr.flattenCase (.case branches default)
      (parts.map (·.1.expr)) (parts.map (·.2.expr)) last.expr)
    return .gather (parts.flatMap (fun part => [part.1, part.2]) ++ [last]) e
  | .scalarSubquery query => do
    return .plain (.scalarSubquery (← query.flattenSubquery check (query.flatten check)))
  | .setSubquery query => do
    return .plain (.setSubquery (← query.flattenSubquery check (query.flatten check)))

/-- The flat form of each expression. -/
def Expr.flattenItems (check : Regime) (env : Environment) (schema : Schema) :
    List Expr → Pass (List Flattened)
  | [] => return []
  | e :: es => do
    let part ← e.flatten check env schema
    let parts ← Expr.flattenItems check env schema es
    return part :: parts

/-- The flat form of the conditions and results of a choice; a condition has to be a scalar. -/
def Expr.flattenBranches (check : Regime) (env : Environment) (schema : Schema) :
    List (Expr × Expr) → Pass (List (Flattened × Flattened))
  | [] => return []
  | (condition, result) :: branches => do
    let first ← condition.flatten check env schema
    if first.expr.isTuple then
      throw (.invalidArgument (.structuredCondition first.expr.text))
    let second ← result.flatten check env schema
    let parts ← Expr.flattenBranches check env schema branches
    return (first, second) :: parts

/-- The flat lookup query of an operator under fresh names, with references to its columns. -/
def Operator.joinSource (check : Regime) : Operator → Pass (Option (Query × List Expr))
  | ⟨name, _, _, .lookup source _ _⟩ => do
    let (flat, _) ← source.flatten check
    let (renamed, refs) ← flat.rename check
    Pass.report (.lookupJoined name refs.length)
    return some (renamed, refs)
  | _ => return none

/-- The flat form of a query, and the environment of its structured attributes. -/
def Query.flatten (check : Regime) : Query → Pass (Query × Environment)
  | .empty => return (.empty, .empty)
  | .table name schema => return (.table name schema, .empty)
  | .galaxy ⟨name, _, _, query⟩ => do
    let (underlying, _) ← query.flatten check
    let (renamed, refs) ← underlying.rename check
    Pass.report (.galaxyExpanded name refs.length)
    return (renamed, NameMap.empty.insert name (.tuple refs))
  | .project columns input => do
    let (flat, env) ← input.flatten check
    let schema ← Pass.ofExcept (input.schemaOf check)
    let outputs ← Query.flattenColumns check env schema columns
    return (Query.ofOutputs outputs flat,
      OutputColumn.withAliases columns env (OutputColumn.bindings outputs))
  | .restrict predicate input => do
    let (flat, env) ← input.flatten check
    let schema ← Pass.ofExcept (input.schemaOf check)
    let part ← predicate.flatten check env schema
    let restricted ← Pass.ofExcept (Query.flattenRestriction check predicate part flat)
    return (restricted, env)
  | .combine op left right => do
    let (flatLeft, leftEnv) ← left.flatten check
    let (flatRight, rightEnv) ← right.flatten check
    if leftEnv.isEmpty && rightEnv.isEmpty then return (.combine op flatLeft flatRight, .empty)
    else
      let leftSchema ← Pass.ofExcept (left.schemaOf check)
      let rightSchema ← Pass.ofExcept (right.schemaOf check)
      Pass.ofExcept
        (Query.flattenCombination op flatLeft flatRight leftEnv rightEnv leftSchema rightSchema)
  | .grouping columns input => do
    let (flat, env) ← input.flatten check
    let schema ← Pass.ofExcept (input.schemaOf check)
    let flatColumns ← Query.flattenGroups check env schema columns
    return (.grouping flatColumns flat, .empty)
  | .order keys input => do
    let (flat, env) ← input.flatten check
    let schema ← Pass.ofExcept (input.schemaOf check)
    let flatKeys ← Query.flattenKeys check env schema keys
    return (.order flatKeys flat, env)
  | .top offset count input => do
    let (flat, env) ← input.flatten check
    return (.top offset count flat, env)

/-- What the columns of a projection have become. -/
def Query.flattenColumns (check : Regime) (env : Environment) (schema : Schema) :
    List (String × Expr) → Pass (List OutputColumn)
  | [] => return []
  | (name, e) :: columns => do
    let flat ← e.flatten check env schema
    let output ← OutputColumn.ofFlattened name flat
    let outputs ← Query.flattenColumns check env schema columns
    return output :: outputs

/-- The flat columns of a grouping projection, which have to be scalars without joins. -/
def Query.flattenGroups (check : Regime) (env : Environment) (schema : Schema) :
    List (String × Expr) → Pass (List (String × Expr))
  | [] => return []
  | (name, e) :: columns => do
    let flat ← e.flatten check env schema
    if flat.expr.isTuple || !flat.isSelfContained then
      throw (.notYetImplemented (.structuredGrouping name))
    let rest ← Query.flattenGroups check env schema columns
    return (name, flat.expr) :: rest

/-- The flat ordering keys: a tuple is ordered by its leaves. -/
def Query.flattenKeys (check : Regime) (env : Environment) (schema : Schema) :
    List (Expr × Direction) → Pass (List (Expr × Direction))
  | [] => return []
  | (e, direction) :: keys => do
    let flat ← e.flatten check env schema
    if !flat.isSelfContained then throw (.unsupportedOrdering e.text)
    let rest ← Query.flattenKeys check env schema keys
    return flat.expr.leaves.map (·, direction) ++ rest

end

end FlatPlan
