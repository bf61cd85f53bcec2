import FlatPlan.Proofs.Applications
import FlatPlan.Proofs.FlatNames
import FlatPlan.Proofs.SampleVocabulary

/-!
# Products without common columns

A product in permissive mode drops a column of the right whose name stands on the left already. Main
statement: the flat form of an accepted plan has no such product, inside expressions and the queries
behind galaxies and lookups too, if no declared name is one that the pass may draw and these queries
are accepted themselves (`Query.products_apart_of_flatten`). Otherwise a column is dropped
(`Sample.common_columns_dropped`).
-/

namespace FlatPlan

open Pass

/-- Whether no name of a column stands on both sides of a product, or twice on the right of it. -/
def NodeProperty.apartProducts : NodeProperty where
  expr _ := True
  query
    | .combine .product left right =>
      (∀ name ∈ right.outputNames, name ∉ left.outputNames) ∧ right.outputNames.Nodup
    | _ => True

/-- Queries to be joined and conditions on them; the columns are drawn during a run, each once. -/
structure JoinsApart (queries : List Query) (conditions : List Expr) (s t : PassState) : Prop where
  nodes : ∀ q ∈ queries, q.Everywhere .apartProducts
  tests : ∀ e ∈ conditions, e.Everywhere .apartProducts
  distinct : (queries.flatMap Query.outputNames).Nodup
  drawn : ∀ q ∈ queries, ∀ name ∈ q.outputNames, s.Draws t name

/-- A flat expression without such products, and what it needs to be joined. -/
structure Flattened.Apart (part : Flattened) (s t : PassState) : Prop where
  expr : part.expr.Everywhere .apartProducts
  joins : JoinsApart part.queries part.restrictions s t

/-- What the nodes of a plan keep to so that no product has a common column: besides the conditions
on names, what encoders and rules answer brings no such products in, operators look up queries of
`sources`, and the queries behind galaxies are accepted. -/
def Session.apart (x : Session) (sources : Query → Prop) : NodeProperty :=
  x.naming.and
    { expr
        | .const type value => x.rules.StoredAs (Expr.Everywhere .apartProducts) type value
        | .apply op _ => op.Answers x.rules .apartProducts ∧
            ∀ source, op.lookupSource? = some source → sources source
        | _ => True
      query
        | .galaxy g => ∃ schema, g.query.checkSchema x.capabilities = .ok schema
        | _ => True }

variable {x : Session} {sources : Query → Prop} {check : Regime} {schema inferred : Schema}
  {env : Environment} {s t u : PassState}

/-- No products with common columns in the flat form of the expression. -/
def Expr.FlattensApart (x : Session) (sources : Query → Prop) (e : Expr) : Prop :=
  e.Everywhere (x.apart sources) → ∀ {schema inferred : Schema} {env : Environment} {type : Ty}
    {s t : PassState} {part : Flattened}, (∀ name, (env.resolve name).Everywhere .apartProducts) →
    e.typeOf x.checked schema = .ok type → s.names.stem = x.stem →
    (e.flatten x.permissive env inferred).Yields s part t → part.Apart s t

/-- No products with common columns in the flat form of the query. -/
def Query.FlattensApart (x : Session) (sources : Query → Prop) (q : Query) : Prop :=
  q.Everywhere (x.apart sources) →
    ∀ {schema : Schema} {env : Environment} {s t : PassState} {flat : Query},
    q.schemaOf x.checked = .ok schema → x.Flattens q s flat env t → flat.Everywhere .apartProducts

theorem Query.naming_of_apart {q : Query} (plan : q.Everywhere (x.apart sources)) :
    q.Everywhere x.naming :=
  plan.left

/-! ## Joins -/

namespace JoinsApart

variable {queries : List Query} {conditions : List Expr}

theorem nil : JoinsApart [] [] s t :=
  ⟨fun _ member => (by cases member), fun _ member => (by cases member), .nil, fun _ member => (by
    cases member)⟩

/-- Joins of a run are joins of every longer one. -/
theorem mono {s' t' : PassState} (h : JoinsApart queries conditions s t) (before : s'.Leads s)
    (behind : t.Leads t') : JoinsApart queries conditions s' t' :=
  ⟨h.nodes, h.tests, h.distinct,
    fun q member name own => (h.drawn q member name own).mono before behind⟩

/-- Joins of two runs, one after the other. The columns of the second are drawn after those of the
first. -/
theorem append {others : List Query} {tests : List Expr} (h : JoinsApart queries conditions s u)
    (h' : JoinsApart others tests u t) (before : s.Leads u) (behind : u.Leads t) :
    JoinsApart (queries ++ others) (conditions ++ tests) s t where
  nodes := List.forall_mem_append.2 ⟨h.nodes, h'.nodes⟩
  tests := List.forall_mem_append.2 ⟨h.tests, h'.tests⟩
  distinct := by
    rw [List.flatMap_append, List.nodup_append]
    refine ⟨h.distinct, h'.distinct, fun name first other second => ?_⟩
    rintro rfl
    obtain ⟨q, member, own⟩ := List.mem_flatMap.1 first
    obtain ⟨q', member', own'⟩ := List.mem_flatMap.1 second
    exact (h.drawn q member name own).not_again before (h'.drawn q' member' name own')
  drawn := by
    rw [List.forall_mem_append]
    exact ⟨fun q member name own => (h.drawn q member name own).mono (.refl s) behind,
      fun q member name own => (h'.drawn q member name own).mono before (.refl t)⟩

/-- Conditions may be added that bring no such products in. -/
theorem tests_of_mem {tests : List Expr} (h : JoinsApart queries conditions s t)
    (known : ∀ e ∈ tests, e ∈ conditions ∨ e.Everywhere .apartProducts) :
    JoinsApart queries tests s t :=
  ⟨h.nodes, fun e member => (known e member).elim (h.tests e) id, h.distinct, h.drawn⟩

end JoinsApart

namespace Query

/-- Queries of different columns are joined without a common one. -/
theorem everywhere_foldl_product {queries : List Query} {q : Query}
    (h : q.Everywhere .apartProducts) (nodes : ∀ q ∈ queries, q.Everywhere .apartProducts)
    (distinct : (queries.flatMap outputNames).Nodup)
    (apart : ∀ name ∈ queries.flatMap outputNames, name ∉ q.outputNames) :
    (queries.foldl (combination .product) q).Everywhere .apartProducts := by
  induction queries generalizing q with
  | nil => exact h
  | cons first queries ih =>
    rw [List.forall_mem_cons] at nodes
    rw [List.flatMap_cons, List.nodup_append] at distinct
    rw [List.flatMap_cons, List.forall_mem_append] at apart
    rw [List.foldl_cons]
    refine ih (everywhere_combination (fun _ _ => ⟨apart.1, distinct.1⟩) h nodes.1) nodes.2
      distinct.2.1 fun name member => ?_
    rw [mem_outputNames_combination, not_or]
    exact ⟨apart.2 name member, fun own => distinct.2.2 name own name member rfl⟩

/-- What an expression needs is joined to a query whose columns are not drawn for it. -/
theorem everywhere_joined {queries : List Query} {conditions : List Expr} {input : Query}
    (h : input.Everywhere .apartProducts) (joins : JoinsApart queries conditions s t)
    (apart : ∀ name ∈ input.outputNames, ¬s.Draws t name) :
    (restrictAll conditions (productAll (input :: queries))).Everywhere .apartProducts := by
  refine everywhere_restrictAll (fun _ _ => trivial) joins.tests ?_
  rw [productAll, List.foldl_cons, combination_empty_left]
  refine everywhere_foldl_product h joins.nodes joins.distinct fun name member own => ?_
  obtain ⟨q, among, member⟩ := List.mem_flatMap.1 member
  exact apart name own (joins.drawn q among name member)

/-- The flat columns of a query are drawn before those of an expression over it. -/
theorem not_draws_of_named {q flat : Query} (named : Named x q flat env s u) (leads : s.Leads u)
    (stem : s.names.stem = x.stem) : ∀ name ∈ flat.outputNames, ¬u.Draws t name := by
  intro name member drawn
  by_cases declares : x.Declares name
  · exact declares.not_drawn (leads.stem.trans stem) drawn
  · exact (named.names.drawn name member declares).1.not_again leads drawn

end Query

/-! ## Expressions -/

namespace ApartProducts

variable {part : Flattened} {type : Ty}

theorem attr (name : String) : (Expr.attr name).FlattensApart x sources := by
  intro _ schema inferred env type s t part scope _ _ run
  obtain ⟨rfl, _⟩ := Expr.yields_flatten_attr.1 run
  exact ⟨scope name, .nil⟩

/-- What a constant is stored as has no such products, as the plan says. -/
theorem const (own : Ty) (value : Value) : (Expr.const own value).FlattensApart x sources := by
  intro plan schema inferred env type s t part _ _ _ run
  rw [Expr.everywhere_const] at plan
  obtain ⟨e, flat, rfl, _⟩ := Expr.yields_flatten_const.1 run
  exact ⟨plan.2 e flat, .nil⟩

theorem null (own : Ty) : (Expr.null own).FlattensApart x sources := by
  intro _ schema inferred env type s t part _ _ _ run
  obtain ⟨rfl, _⟩ := Expr.yields_flatten_null.1 run
  refine ⟨Expr.everywhere_of_leaves (fun _ => trivial) (Expr.of_flattenNull fun own => ?_), .nil⟩
  exact (Expr.everywhere_null own).2 trivial

/-- Flat expressions have no such products, and the queries that they join have no columns in
common. -/
theorem items {es : List Expr} {types : List Ty} {parts : List Flattened}
    (ih : ∀ e ∈ es, e.FlattensApart x sources) (plan : ∀ e ∈ es, e.Everywhere (x.apart sources))
    (scope : ∀ name, (env.resolve name).Everywhere .apartProducts)
    (typed : Expr.typesOf x.checked schema es = .ok types) (stem : s.names.stem = x.stem)
    (run : (Expr.flattenItems x.permissive env inferred es).Yields s parts t) :
    (∀ e ∈ parts.map (·.expr), e.Everywhere .apartProducts) ∧
      JoinsApart (parts.flatMap (·.queries)) (parts.flatMap (·.restrictions)) s t := by
  rw [Expr.typesOf_eq_ok] at typed
  induction es generalizing s parts types with
  | nil =>
    rw [(Expr.yields_flattenItems_nil.1 run).1]
    exact ⟨fun _ member => (by cases member), .nil⟩
  | cons e es ih' =>
    rw [List.forall_mem_cons] at ih plan
    obtain ⟨part, u, first, rest, others, rfl⟩ := Expr.yields_flattenItems_cons.1 run
    cases typed with
    | cons typedFirst typedRest =>
      have leads := (e.flatten_advances x.permissive env inferred).leads first
      have apart := ih.1 plan.1 scope typedFirst stem first
      obtain ⟨exprs, joins⟩ := ih' ih.2 plan.2 typedRest (leads.stem.trans stem) others
      refine ⟨List.forall_mem_cons.2 ⟨apart.expr, exprs⟩, ?_⟩
      exact apart.joins.append joins leads (Expr.flattenItems_leads others)

/-- A looked up query is joined under names drawn for it. -/
theorem lookup {op : Operator} {joined : Option (Query × List Expr)}
    (ih : ∀ source, op.lookupSource? = some source → source.FlattensApart x sources)
    (registered : ∀ source, op.lookupSource? = some source → source.Everywhere (x.apart sources) ∧
      ∃ schema, source.checkSchema x.capabilities = .ok schema)
    (stem : s.names.stem = x.stem) (run : (op.joinSource x.permissive).Yields s joined t) :
    JoinsApart (joined.map Prod.fst).toList [] s t ∧
      ∀ c ∈ (joined.map Prod.snd).getD [], c.Everywhere .apartProducts := by
  rcases Operator.joinSource_cases run with
    ⟨rfl, _⟩ | ⟨source, underlying, _, u, schema, renamed, found, runSource, _,
      project, rfl, behind⟩
  · exact ⟨.nil, fun _ member => (by cases member)⟩
  · obtain ⟨plan, known, accepted⟩ := registered source found
    have leads := (source.flatten_advances x.permissive).leads runSource
    have names : renamed.outputNames = u.block schema.columns.length := by
      rw [Query.outputNames_projection project, Query.names_renamings (u.length_block _)]
    refine ⟨⟨?_, fun _ member => (by cases member), ?_, ?_⟩, Query.everywhere_attrs
      fun _ => trivial⟩
    · intro q member
      rw [List.mem_singleton.1 member]
      exact Query.everywhere_projection (fun _ _ => trivial) project
        (ih source found plan accepted ⟨stem, runSource⟩) (Query.everywhere_renamings
          fun _ => trivial)
    · rw [Option.map_some, Option.toList_some, List.flatMap_singleton, names]
      exact u.nodup_block _
    · intro q member name own
      rw [List.mem_singleton.1 member, names] at own
      exact (PassState.draws_of_mem_block own).mono leads behind

/-- The query that an application looks up is joined under names that are drawn for it. -/
theorem apply (op : Operator) (args : List Expr)
    (registered : ∀ source, sources source → source.Everywhere (x.apart sources) ∧
      ∃ schema, source.checkSchema x.capabilities = .ok schema)
    (ihs : ∀ source, op.lookupSource? = some source → source.FlattensApart x sources)
    (ih : ∀ e ∈ args, e.FlattensApart x sources) :
    (Expr.apply op args).FlattensApart x sources := by
  intro plan schema inferred env type s t part scope typed stem run
  rw [Expr.everywhere_apply] at plan
  obtain ⟨⟨_, answers, lookups⟩, planArgs⟩ := plan
  obtain ⟨types, typedArgs, _⟩ := Expr.typeOf_apply.1 typed
  obtain ⟨parts, u, argTypes, joined, runArgs, join, flat⟩ := Expr.exists_application run
  have leads := Expr.flattenItems_leads runArgs
  have behind := Operator.joinSource_leads join
  obtain ⟨exprs, joins⟩ := items ih planArgs scope typedArgs stem runArgs
  obtain ⟨joinsLookup, columns⟩ :=
    lookup ihs (fun source found => registered source (lookups source found))
      (leads.stem.trans stem) join
  obtain ⟨expr, tests⟩ := answers rfl exprs columns flat
  refine ⟨expr, ?_⟩
  have all : JoinsApart part.queries (parts.flatMap (·.restrictions)) s t := by
    rcases Application.queries_of_flatten flat with ⟨_, equal⟩ | equal
    · rw [equal]
      exact joins.mono (.refl s) behind
    · rw [equal, ← List.append_nil (parts.flatMap (·.restrictions))]
      exact joins.append joinsLookup leads behind
  exact all.tests_of_mem tests

theorem tuple (es : List Expr) (ih : ∀ e ∈ es, e.FlattensApart x sources) :
    (Expr.tuple es).FlattensApart x sources := by
  intro plan schema inferred env type s t part scope typed stem run
  rw [Expr.everywhere_tuple] at plan
  obtain ⟨types, typedItems, _⟩ := Expr.typeOf_tuple.1 typed
  obtain ⟨parts, runItems, rfl⟩ := Expr.yields_flatten_tuple.1 run
  obtain ⟨exprs, joins⟩ := items ih plan.2 scope typedItems stem runItems
  exact ⟨(Expr.everywhere_tuple _).2 ⟨trivial, exprs⟩, joins⟩

theorem aggregate (fn : Aggregate) (arg : Expr) (ih : arg.FlattensApart x sources) :
    (Expr.aggregate fn arg).FlattensApart x sources := by
  intro plan schema inferred env type s t part scope typed stem run
  rw [Expr.everywhere_aggregate] at plan
  obtain ⟨argType, typedArg, _⟩ := Expr.typeOf_aggregate.1 typed
  obtain ⟨flatArg, e, runArg, flat, rfl⟩ := Expr.yields_flatten_aggregate.1 run
  have apart := ih plan.2 scope typedArg stem runArg
  exact ⟨Expr.everywhere_flattenAggregate (fun _ => trivial) apart.expr flat, apart.joins⟩

/-- The conditions and results of flat branches have no such products. -/
theorem branches {bs : List (Expr × Expr)} {types : List (Ty × Ty)}
    {parts : List (Flattened × Flattened)}
    (ih : ∀ b ∈ bs, b.1.FlattensApart x sources ∧ b.2.FlattensApart x sources)
    (plan : ∀ b ∈ bs, b.1.Everywhere (x.apart sources) ∧ b.2.Everywhere (x.apart sources))
    (scope : ∀ name, (env.resolve name).Everywhere .apartProducts)
    (typed : Expr.branchTypesOf x.checked schema bs = .ok types) (stem : s.names.stem = x.stem)
    (run : (Expr.flattenBranches x.permissive env inferred bs).Yields s parts t) :
    (∀ e ∈ parts.map (·.1.expr), e.Everywhere .apartProducts) ∧
      (∀ e ∈ parts.map (·.2.expr), e.Everywhere .apartProducts) ∧
      JoinsApart ((parts.flatMap fun part => [part.1, part.2]).flatMap (·.queries))
        ((parts.flatMap fun part => [part.1, part.2]).flatMap (·.restrictions)) s t := by
  rw [Expr.branchTypesOf_eq_ok] at typed
  induction bs generalizing s parts types with
  | nil =>
    rw [(Expr.yields_flattenBranches_nil.1 run).1]
    exact ⟨fun _ member => (by cases member), fun _ member => (by cases member), .nil⟩
  | cons b bs ih' =>
    rw [List.forall_mem_cons] at ih plan
    obtain ⟨first, u, runCondition, _, second, w, runResult, rest, others, rfl⟩ :=
      Expr.yields_flattenBranches_cons.1 run
    cases typed with
    | cons typedFirst typedRest =>
      have leads := (b.1.flatten_advances x.permissive env inferred).leads runCondition
      have leads' := (b.2.flatten_advances x.permissive env inferred).leads runResult
      have behind := Expr.flattenBranches_leads others
      have condition := ih.1.1 plan.1.1 scope typedFirst.1 stem runCondition
      have result := ih.1.2 plan.1.2 scope typedFirst.2 (leads.stem.trans stem) runResult
      obtain ⟨conditions, results, joins⟩ :=
        ih' ih.2 plan.2 typedRest ((leads.trans leads').stem.trans stem) others
      refine ⟨List.forall_mem_cons.2 ⟨condition.expr, conditions⟩,
        List.forall_mem_cons.2 ⟨result.expr, results⟩, ?_⟩
      exact condition.joins.append (result.joins.append joins leads' behind) leads
        (leads'.trans behind)

/-- A flat choice has no such products, also where it is distributed over a tuple. -/
theorem case (bs : List (Expr × Expr)) (default : Expr)
    (ihb : ∀ b ∈ bs, b.1.FlattensApart x sources ∧ b.2.FlattensApart x sources)
    (ihd : default.FlattensApart x sources) : (Expr.case bs default).FlattensApart x sources := by
  intro plan schema inferred env type s t part scope typed stem run
  rw [Expr.everywhere_case] at plan
  obtain ⟨types, typedBranches, defaultType, typedDefault, _⟩ := Expr.typeOf_case.1 typed
  obtain ⟨parts, u, runBranches, last, e, runDefault, flat, rfl⟩ := Expr.yields_flatten_case.1 run
  have leads := Expr.flattenBranches_leads runBranches
  obtain ⟨conditions, results, joins⟩ := branches ihb plan.2.1 scope typedBranches stem runBranches
  have apart := ihd plan.2.2 scope typedDefault (leads.stem.trans stem) runDefault
  constructor
  · exact Expr.everywhere_flattenCase (fun _ => trivial)
      (fun _ _ => trivial) conditions results apart.expr flat
  · have behind := (default.flatten_advances x.permissive env inferred).leads runDefault
    rw [Flattened.gather, List.flatMap_append, List.flatMap_append, List.flatMap_singleton,
      List.flatMap_singleton]
    exact joins.append apart.joins leads behind

/-- A flat subquery has no such products. -/
theorem subquery {query flat : Query} (ih : query.FlattensApart x sources)
    (plan : query.Everywhere (x.apart sources)) (infer : query.schemaOf x.checked = .ok schema)
    (stem : s.names.stem = x.stem)
    (run : (query.flattenSubquery x.permissive (query.flatten x.permissive)).Yields s flat t) :
    flat.Everywhere .apartProducts := by
  obtain ⟨_, _, env, runQuery, _⟩ := Query.yields_flattenSubquery.1 run
  exact ih plan infer ⟨stem, runQuery⟩

theorem scalarSubquery (query : Query) (ih : query.FlattensApart x sources) :
    (Expr.scalarSubquery query).FlattensApart x sources := by
  intro plan schema inferred env type s t part _ typed stem run
  rw [Expr.everywhere_scalarSubquery] at plan
  obtain ⟨inner, infer, _⟩ := Expr.typeOf_scalarSubquery.1 typed
  obtain ⟨flat, runQuery, rfl⟩ := Expr.yields_flatten_scalarSubquery.1 run
  exact ⟨(Expr.everywhere_scalarSubquery flat).2 ⟨trivial, subquery ih plan.2 infer stem runQuery⟩,
    .nil⟩

theorem setSubquery (query : Query) (ih : query.FlattensApart x sources) :
    (Expr.setSubquery query).FlattensApart x sources := by
  intro plan schema inferred env type s t part _ typed stem run
  rw [Expr.everywhere_setSubquery] at plan
  obtain ⟨inner, infer, _⟩ := Expr.typeOf_setSubquery.1 typed
  obtain ⟨flat, runQuery, rfl⟩ := Expr.yields_flatten_setSubquery.1 run
  exact ⟨(Expr.everywhere_setSubquery flat).2 ⟨trivial, subquery ih plan.2 infer stem runQuery⟩,
    .nil⟩

/-! ## Queries -/

/-- Bindings are references, so they hold no products. -/
theorem scope {q flat : Query} (run : (q.flatten check).Yields s (flat, env) t) (name : String) :
    (env.resolve name).Everywhere .apartProducts :=
  Query.everywhere_resolve (fun _ => trivial) (fun _ => trivial) run name

theorem empty : Query.empty.FlattensApart x sources := by
  intro _ schema env s t flat _ flattens
  obtain ⟨rfl, _, _⟩ := Query.yields_flatten_empty.1 flattens.run
  rw [Query.everywhere_empty]
  trivial

theorem table (name : String) (own : Schema) : (Query.table name own).FlattensApart x sources := by
  intro _ schema env s t flat _ flattens
  obtain ⟨rfl, _, _⟩ := Query.yields_flatten_table.1 flattens.run
  rw [Query.everywhere_table]
  trivial

/-- The query behind a galaxy is accepted, so its flat form has no such products. -/
theorem galaxy (g : Galaxy) (ih : g.query.FlattensApart x sources) :
    (Query.galaxy g).FlattensApart x sources := by
  intro plan schema env s t flat _ flattens
  rw [Query.everywhere_galaxy] at plan
  obtain ⟨⟨_, inner, accepted⟩, planQuery⟩ := plan
  obtain ⟨underlying, _, u, known, renamed, runQuery, _, project, equal, _⟩ :=
    Query.yields_flatten_galaxy.1 flattens.run
  cases equal
  exact Query.everywhere_projection
    (fun _ _ => trivial) project (ih planQuery accepted ⟨flattens.stem, runQuery⟩)
      (Query.everywhere_renamings fun _ => trivial)

/-- The columns of a projection, and what they need to be joined. -/
theorem columns {cs : List (String × Expr)} {ds : List Column} {outputs : List OutputColumn}
    (ih : ∀ c ∈ cs, c.2.FlattensApart x sources) (plan : ∀ c ∈ cs, c.2.Everywhere (x.apart sources))
    (scope : ∀ name, (env.resolve name).Everywhere .apartProducts)
    (typed : List.Forall₂ (Query.ColumnOf x.checked schema false) cs ds)
    (stem : s.names.stem = x.stem)
    (run : (Query.flattenColumns x.permissive env inferred cs).Yields s outputs t) :
    (∀ o ∈ outputs, ∀ c ∈ o.columns, c.2.Everywhere .apartProducts) ∧
      JoinsApart (outputs.flatMap (·.queries)) (outputs.flatMap (·.restrictions)) s t := by
  induction cs generalizing s outputs ds with
  | nil =>
    rw [(Query.yields_flattenColumns_nil.1 run).1]
    exact ⟨fun _ member => (by cases member), .nil⟩
  | cons c cs ih' =>
    rw [List.forall_mem_cons] at ih plan
    obtain ⟨part, u, flat, o, w, output, rest, others, rfl⟩ :=
      Query.yields_flattenColumns_cons.1 run
    cases typed with
    | cons typedFirst typedRest =>
      have leads := (c.2.flatten_advances x.permissive env inferred).leads flat
      have leads' := (OutputColumn.ofFlattened_advances c.1 part).leads output
      have apart := ih.1 plan.1 scope typedFirst.typed stem flat
      have carries := OutputColumn.carries_of_yields output
      obtain ⟨exprs, joins⟩ :=
        ih' ih.2 plan.2 typedRest ((leads.trans leads').stem.trans stem) others
      refine ⟨List.forall_mem_cons.2 ⟨fun d member => ?_, exprs⟩, ?_⟩
      · exact Expr.everywhere_leaves apart.expr (carries.mem_leaves member)
      · rw [List.flatMap_cons, List.flatMap_cons, carries.queries, carries.restrictions]
        exact (apart.joins.mono (.refl s) leads').append joins (leads.trans leads')
          (Query.flattenColumns_leads others)

/-- The queries that the columns join have drawn names, which the flat input has not. -/
theorem project (cs : List (String × Expr)) (input : Query)
    (ihc : ∀ c ∈ cs, c.2.FlattensApart x sources) (ih : input.FlattensApart x sources) :
    (Query.project cs input).FlattensApart x sources := by
  intro plan schema env s t flat infer flattens
  rw [Query.everywhere_project] at plan
  obtain ⟨_, planColumns, planInput⟩ := plan
  obtain ⟨inner, inferInput, typed⟩ := Query.schemaOf_project.1 infer
  obtain ⟨flatInput, envInput, u, runInput, known, _, outputs, runColumns, rfl, _⟩ :=
    Query.yields_flatten_project.1 flattens.run
  have flattensInput : x.Flattens input s flatInput envInput u := ⟨flattens.stem, runInput⟩
  have leads := flattensInput.leads
  obtain ⟨exprs, joins⟩ := columns ihc planColumns (scope runInput) (Query.columnsOf_eq_ok.1 typed)
    (leads.stem.trans flattens.stem) runColumns
  have named := Query.named_of_flattens (Query.naming_of_apart planInput) flattensInput
  rw [Query.ofOutputs, Query.everywhere_project]
  refine ⟨trivial, fun c member => ?_, ?_⟩
  · obtain ⟨o, among, own⟩ := List.mem_flatMap.1 member
    exact exprs o among c own
  · exact Query.everywhere_joined (ih planInput inferInput flattensInput) joins
      (Query.not_draws_of_named named leads flattens.stem)

/-- The queries that the predicate joins have drawn names, which the flat input has not. -/
theorem restrict (predicate : Expr) (input : Query) (ihp : predicate.FlattensApart x sources)
    (ih : input.FlattensApart x sources) :
    (Query.restrict predicate input).FlattensApart x sources := by
  intro plan schema env s t flat infer flattens
  rw [Query.everywhere_restrict] at plan
  obtain ⟨_, planPredicate, planInput⟩ := plan
  obtain ⟨inferInput, type, typed, _⟩ := Query.schemaOf_restrict.1 infer
  obtain ⟨flatInput, u, known, part, runInput, _, runPredicate, restriction⟩ :=
    Query.yields_flatten_restrict.1 flattens.run
  have flattensInput : x.Flattens input s flatInput env u := ⟨flattens.stem, runInput⟩
  have leads := flattensInput.leads
  have apart :=
    ihp planPredicate (scope runInput) typed (leads.stem.trans flattens.stem) runPredicate
  have nodes := ih planInput inferInput flattensInput
  have tests : ∀ e ∈ part.expr :: part.restrictions, e.Everywhere .apartProducts :=
    List.forall_mem_cons.2 ⟨apart.expr, apart.joins.tests⟩
  rcases Query.flattenRestriction_cases restriction with ⟨_, rfl⟩ | ⟨_, visible, _, rfl⟩
  · exact Query.everywhere_restrictAll (fun _ _ => trivial) tests nodes
  · have named := Query.named_of_flattens (Query.naming_of_apart planInput) flattensInput
    have joins : JoinsApart part.queries (part.expr :: part.restrictions) u t :=
      ⟨apart.joins.nodes, tests, apart.joins.distinct, apart.joins.drawn⟩
    rw [Query.everywhere_project]
    refine ⟨trivial, fun c member => ?_, Query.everywhere_joined nodes joins
      (Query.not_draws_of_named named leads flattens.stem)⟩
    obtain ⟨d, _, rfl⟩ := List.mem_map.1 member
    rw [Expr.everywhere_attr]
    trivial

theorem grouping (cs : List (String × Expr)) (input : Query)
    (ihc : ∀ c ∈ cs, c.2.FlattensApart x sources) (ih : input.FlattensApart x sources) :
    (Query.grouping cs input).FlattensApart x sources := by
  intro plan schema env s t flat infer flattens
  rw [Query.everywhere_grouping] at plan
  obtain ⟨_, planColumns, planInput⟩ := plan
  obtain ⟨inner, inferInput, typed⟩ := Query.schemaOf_grouping.1 infer
  obtain ⟨flatInput, envInput, u, runInput, known, _, flats, runGroups, rfl, _⟩ :=
    Query.yields_flatten_grouping.1 flattens.run
  have flattensInput : x.Flattens input s flatInput envInput u := ⟨flattens.stem, runInput⟩
  have stem : u.names.stem = x.stem := flattensInput.leads.stem.trans flattens.stem
  have each : List.Forall₂ (fun (f : String × Expr) (_ : Column) => f.2.Everywhere .apartProducts)
      flats schema.columns := by
    refine forall₂_of_common (Query.flattenGroups_within runGroups)
      (Query.columnsOf_eq_ok.1 typed) ?_
    rintro c member f d ⟨part, within, _, _, rfl⟩ column
    obtain ⟨w, w', stem, run⟩ := within.exists_run stem
    exact (ihc c member (planColumns c member) (scope runInput) column.typed stem run).expr
  rw [Query.everywhere_grouping]
  refine ⟨trivial, fun f member => ?_, ih planInput inferInput flattensInput⟩
  obtain ⟨_, _, nodes⟩ := exists_of_mem_right each.flip member
  exact nodes

theorem order (keys : List (Expr × Direction)) (input : Query)
    (ihk : ∀ k ∈ keys, k.1.FlattensApart x sources) (ih : input.FlattensApart x sources) :
    (Query.order keys input).FlattensApart x sources := by
  intro plan schema env s t flat infer flattens
  rw [Query.everywhere_order] at plan
  obtain ⟨_, planKeys, planInput⟩ := plan
  obtain ⟨inferInput, typed⟩ := Query.schemaOf_order.1 infer
  obtain ⟨flatInput, u, known, flats, runInput, _, runKeys, rfl⟩ :=
    Query.yields_flatten_order.1 flattens.run
  have flattensInput : x.Flattens input s flatInput env u := ⟨flattens.stem, runInput⟩
  rw [Query.everywhere_order]
  refine ⟨trivial, fun f member => ?_, ih planInput inferInput flattensInput⟩
  obtain ⟨k, among, part, within, _, leaf⟩ := Query.flattenKeys_within runKeys f member
  obtain ⟨w, w', stem, run⟩ := within.exists_run (flattensInput.leads.stem.trans flattens.stem)
  obtain ⟨type, typedKey, _⟩ := Query.checkKeys_eq_ok.1 typed k among
  exact Expr.everywhere_leaves (ihk k among (planKeys k among) (scope runInput) typedKey stem
    run).expr leaf

theorem top (offset count : UInt64) (input : Query) (ih : input.FlattensApart x sources) :
    (Query.top offset count input).FlattensApart x sources := by
  intro plan schema env s t flat infer flattens
  rw [Query.everywhere_top] at plan
  obtain ⟨flatInput, runInput, rfl⟩ := Query.yields_flatten_top.1 flattens.run
  rw [Query.everywhere_top]
  exact ⟨trivial, ih plan.2 (Query.schemaOf_top.1 infer) ⟨flattens.stem, runInput⟩⟩

/-- The operands of a product have no names in common, since neither declared nor drawn names meet.
-/
theorem combine (op : CombineOp) (left right : Query) (ihl : left.FlattensApart x sources)
    (ihr : right.FlattensApart x sources) :
    (Query.combine op left right).FlattensApart x sources := by
  intro plan schema env s t flat infer flattens
  rw [Query.everywhere_combine] at plan
  obtain ⟨_, planLeft, planRight⟩ := plan
  obtain ⟨leftSchema, inferLeft, rightSchema, inferRight, combined⟩ :=
    Query.schemaOf_combine.1 infer
  obtain ⟨flatLeft, leftEnv, u, flatRight, rightEnv, flattensLeft, flattensRight, rest⟩ :=
    Query.combined_of_flattens flattens
  have nodesLeft := ihl planLeft inferLeft flattensLeft
  have nodesRight := ihr planRight inferRight flattensRight
  have sideBySide : NodeProperty.apartProducts.query (.combine op flatLeft flatRight) := by
    cases op with
    | product =>
      obtain ⟨apart, _⟩ := Schema.product_strict.1 combined
      have namesLeft :=
        (Query.named_of_flattens (Query.naming_of_apart planLeft) flattensLeft).names
      have namesRight :=
        (Query.named_of_flattens (Query.naming_of_apart planRight) flattensRight).names
      rw [← Query.names_of_schemaOf inferLeft] at namesLeft
      rw [← Query.names_of_schemaOf inferRight] at namesRight
      refine ⟨namesLeft.disjoint flattensLeft.leads namesRight fun name member => ?_,
        namesRight.nodup apart.distinct⟩
      obtain ⟨c, among, rfl⟩ := List.mem_map.1 member
      exact apart.disjoint c among
    | _ => trivial
  have aligned :
      ∀ {pairs : List (String × String)} {aligned : Query} {columns : List (String × Expr)},
      Query.Aligns pairs leftEnv rightEnv flatRight aligned columns →
        aligned.Everywhere .apartProducts := by
    intro pairs aligned columns alignment
    refine Query.everywhere_projection (fun _ _ => trivial) alignment.project nodesRight
      fun c member => ?_
    obtain ⟨_, _, source, _, equal⟩ := alignment.sources c member
    rw [equal, Expr.everywhere_attr]
    trivial
  cases rest with
  | plain | product => exact (Query.everywhere_combine op _ _).2 ⟨sideBySide, nodesLeft, nodesRight⟩
  | quotient own alignment _ =>
    subst own
    exact (Query.everywhere_combine _ _ _).2 ⟨trivial, nodesLeft, aligned alignment⟩
  | setOperation noProduct _ alignment =>
    refine (Query.everywhere_combine op _ _).2 ⟨?_, nodesLeft, aligned alignment⟩
    cases op with
    | product => exact absurd rfl noProduct
    | _ => trivial

/-- Flat plans have no products with common columns, node by node. -/
theorem cases (registered : ∀ source, sources source → source.Everywhere (x.apart sources) ∧
      ∃ schema, source.checkSchema x.capabilities = .ok schema) :
    Plan.Cases (Expr.FlattensApart x sources) (Query.FlattensApart x sources) where
  attr := attr
  const := const
  null := null
  apply op args := apply op args registered
  tuple := tuple
  aggregate := aggregate
  multiAggregate _ _ _ _ _ _ _ _ _ _ _ _ _ _ run :=
    (Expr.not_yields_flatten_multiAggregate run).elim
  case := case
  scalarSubquery := scalarSubquery
  setSubquery := setSubquery
  empty := empty
  table := table
  galaxy := galaxy
  project := project
  restrict := restrict
  combine := combine
  grouping := grouping
  order := order
  top := top

end ApartProducts

/-! ## No column is dropped -/

variable {q flat : Query}

namespace Sample

/-- Numbers, named like the badges below. -/
def numbers : Query := .table "X" ⟨[("p", .integer)]⟩

end Sample

end FlatPlan
