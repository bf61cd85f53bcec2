import FlatPlan.Proofs.Equivariance

/-!
# Parts of a run under new names

What a run puts together from its parts is renamed when the parts are: environments, the flat forms
of expressions with their joins, output columns, and the flat forms of applications, restrictions
and combinations. The bound names of an environment come from the plan, so a renaming leaves them as
they are (`Environment.rebind`). The rule of an operator may answer anything; that it commutes with
a renaming is therefore asked of it (`Operator.Commutes`).
-/

namespace FlatPlan

/-! ## Environments under new names -/

namespace NameMap

variable {α β : Type} {f : α → β}

/-- The same names, with each value under a function. -/
def map (f : α → β) (m : NameMap α) : NameMap β :=
  ⟨m.entries.map fun entry => (entry.1, f entry.2), List.pairwise_map.2 m.ascending⟩

theorem find?_map (m : NameMap α) (name : String) :
    (m.map f).find? name = (m.find? name).map f := by
  change (m.entries.map fun entry => (entry.1, f entry.2)).lookup name =
    (m.entries.lookup name).map f
  induction m.entries with
  | nil => rfl
  | cons entry entries ih =>
    rw [List.map_cons, List.lookup_cons, List.lookup_cons, ih]
    cases name == entry.1 <;> rfl

theorem contains_map (m : NameMap α) (name : String) :
    (m.map f).contains name = m.contains name := by
  rw [contains, contains, find?_map, Option.isSome_map]

theorem isEmpty_map (m : NameMap α) : (m.map f).isEmpty = m.isEmpty := List.isEmpty_map

/-- Mapping the values of a map commutes with entering one. -/
theorem map_insert (m : NameMap α) (name : String) (a : α) :
    (m.insert name a).map f = (m.map f).insert name (f a) := by
  refine ext ?_
  change (place name a m.entries).map (fun entry => (entry.1, f entry.2)) =
    place name (f a) (m.entries.map fun entry => (entry.1, f entry.2))
  induction m.entries with
  | nil => rfl
  | cons entry entries ih =>
    rw [List.map_cons, place, place]
    split
    · rfl
    · split
      · rfl
      · rw [List.map_cons, ih]

theorem map_insertAll (m : NameMap α) (entries : List (String × α)) :
    (m.insertAll entries).map f =
      (m.map f).insertAll (entries.map fun entry => (entry.1, f entry.2)) := by
  induction entries generalizing m with
  | nil => rfl
  | cons entry entries ih =>
    have step : (m.insert entry.1 entry.2).map f = (m.map f).insert entry.1 (f entry.2) :=
      map_insert m _ _
    exact (ih _).trans (by rw [step]; rfl)

theorem map_filterNames (p : String → Bool) (m : NameMap α) :
    (m.filterNames p).map f = (m.map f).filterNames p := by
  refine ext ?_
  change (m.entries.filter fun entry => p entry.1).map (fun entry => (entry.1, f entry.2)) =
    (m.entries.map fun entry => (entry.1, f entry.2)).filter fun entry => p entry.1
  rw [List.filter_map]
  rfl

end NameMap

variable {σ : String → String}

/-- What attributes are bound to, under new names; the bound names themselves stay. -/
def Environment.rebind (σ : String → String) (env : Environment) : Environment :=
  env.map (Expr.relabel σ)

namespace Environment

variable {env : Environment} {name : String}

/-- Relabelling commutes with putting the bindings of one operand before those of the other. -/
theorem rebind_insertAll (env other : Environment) :
    rebind σ (env.insertAll other.entries) = (env.rebind σ).insertAll (other.rebind σ).entries :=
  NameMap.map_insertAll env other.entries

theorem rebind_filterNames (p : String → Bool) (env : Environment) :
    rebind σ (env.filterNames p) = (env.rebind σ).filterNames p :=
  NameMap.map_filterNames p env

/-- A name that the labelling fixes resolves to the relabelled expression. -/
theorem resolve_rebind (fixed : σ name = name) :
    (env.rebind σ).resolve name = (env.resolve name).relabel σ := by
  rw [resolve, resolve, rebind, NameMap.find?_map]
  cases env.find? name with
  | none =>
    change Expr.attr name = (Expr.attr name).relabel σ
    rw [Expr.relabel_attr, fixed]
  | some rep => rfl

/-- A leaf is a reference to a column with or without relabelling, or in neither case. -/
theorem alike_columnOf (leaf : Expr) :
    Alike σ (columnOf name leaf) (columnOf name (leaf.relabel σ)) := by
  cases leaf with
  | attr column => exact .ok column
  | _ => exact .error _ _

/-- The flat columns of a name that the labelling fixes are relabelled, or missing as before. -/
theorem alike_flatColumns (fixed : σ name = name) :
    Alike (List.map σ) (env.flatColumns name) ((env.rebind σ).flatColumns name) := by
  rw [flatColumns, flatColumns, rebind, NameMap.find?_map]
  cases env.find? name with
  | none => exact .of_eq (by rw [List.map_singleton, fixed])
  | some rep =>
    rw [Option.map_some]
    dsimp only
    rw [Expr.leaves_relabel]
    exact Alike.mapM fun leaf _ => alike_columnOf leaf

end Environment

/-! ## Parts under new names -/

/-- A flat expression and its joins under new names. -/
def Flattened.relabel (σ : String → String) (part : Flattened) : Flattened :=
  ⟨part.expr.relabel σ, part.queries.map (Query.relabel σ), part.restrictions.map (Expr.relabel σ)⟩

/-- An output column under new names; the name of the column that it stands for stays. -/
def OutputColumn.relabel (σ : String → String) (o : OutputColumn) : OutputColumn :=
  ⟨o.name, o.columns.map fun c => (σ c.1, c.2.relabel σ), o.refs.map (Expr.relabel σ),
    o.queries.map (Query.relabel σ), o.restrictions.map (Expr.relabel σ)⟩

/-- The parts of an application under new names. -/
def Application.relabel (σ : String → String) (a : Application) : Application :=
  { a with args := a.args.map (Expr.relabel σ), columns := a.columns.map (Expr.relabel σ) }

/-- A flat query under new names, and its environment. -/
def Query.relabelAnswer (σ : String → String) (answer : Query × Environment) :
    Query × Environment :=
  (answer.1.relabel σ, answer.2.rebind σ)

namespace Flattened

theorem relabel_plain (e : Expr) : (plain e).relabel σ = plain (e.relabel σ) := rfl

/-- Gathering parts commutes with relabelling them. -/
theorem relabel_gather (parts : List Flattened) (e : Expr) :
    (gather parts e).relabel σ = gather (parts.map (relabel σ)) (e.relabel σ) := by
  simp only [relabel, gather, List.map_flatMap, List.flatMap_map]

theorem exprs_relabel (parts : List Flattened) :
    (parts.map (relabel σ)).map (·.expr) = (parts.map (·.expr)).map (Expr.relabel σ) := by
  rw [List.map_map, List.map_map]
  rfl

theorem isSelfContained_relabel (part : Flattened) :
    (part.relabel σ).isSelfContained = part.isSelfContained := by
  rw [isSelfContained, isSelfContained, relabel, List.isEmpty_map, List.isEmpty_map]

end Flattened

/-! ## Applications -/

/-- Filling the template commutes with a renaming. -/
def Template.Commutes (rules : Rules) (σ : String → String) (op : Operator) (t : Template) : Prop :=
  ∀ ⦃a : Application⦄, a.op = op →
    Alike (Expr.relabel σ) (t.fill rules a) (t.fill rules (a.relabel σ))

/-- The rule of an operator commutes with a renaming. -/
def Operator.Commutes (rules : Rules) (σ : String → String) (op : Operator) : Prop :=
  ∀ template ∈ op.templates, template.Commutes rules σ op

/-- A rule that commutes with a renaming does so on whole applications. -/
theorem Application.alike_flatten {rules : Rules} {a : Application}
    (commutes : a.op.Commutes rules σ) (source : Option Query) (parts : List Flattened) :
    Alike (Flattened.relabel σ) (a.flatten rules source parts)
      ((a.relabel σ).flatten rules (source.map (Query.relabel σ))
        (parts.map (Flattened.relabel σ))) := by
  have whole : ∀ args, Alike (Flattened.relabel σ) (.ok (.gather parts (.apply a.op args)))
      (.ok (.gather (parts.map (Flattened.relabel σ)) (.apply a.op (args.map (Expr.relabel σ))))) :=
    fun args => .of_eq (by rw [Flattened.relabel_gather, Expr.relabel_apply])
  unfold Operator.Commutes Operator.templates at commutes
  unfold flatten
  cases form : a.op.flattening with
  | plain =>
    simp only [relabel, form]
    exact whole a.args
  | componentwise joiner =>
    simp only [relabel, form]
    match a.args with
    | [left, right] =>
      exact (Operator.alike_compare left right).bind fun e _ =>
        .of_eq (Flattened.relabel_gather parts e).symm
    | [] | [_] | _ :: _ :: _ :: _ => exact whole _
  | template result =>
    rw [form] at commutes
    have own : (a.relabel σ).op.flattening = .template result := form
    simp only [own]
    exact (commutes result List.mem_cons_self rfl).bind fun e _ =>
      .of_eq (Flattened.relabel_gather parts e).symm
  | lookup query condition result =>
    rw [form] at commutes
    dsimp only at commutes
    rw [List.forall_mem_cons, List.forall_mem_singleton] at commutes
    have own : (a.relabel σ).op.flattening = .lookup query condition result := form
    simp only [own]
    refine (commutes.1 rfl).bind fun restriction _ => (commutes.2 rfl).bind fun e _ => .of_eq ?_
    rw [← Flattened.relabel_gather]
    cases source <;> simp [Flattened.relabel]

/-! ## Projections -/

namespace OutputColumn

/-- The bindings that output columns make are relabelled with the columns. -/
theorem rebind_bindings (outputs : List OutputColumn) :
    (bindings outputs).rebind σ = bindings (outputs.map (relabel σ)) := by
  unfold bindings NameMap.ofList Environment.rebind
  rw [NameMap.map_insertAll, List.map_filterMap, List.filterMap_map]
  refine congrArg (NameMap.empty.insertAll) (List.filterMap_congr fun o _ => ?_)
  simp only [relabel, Function.comp_apply, Option.map_map]
  rfl

/-- The same attributes stay reachable under their old names. -/
theorem rebind_withAliases (columns : List (String × Expr)) (env bound : Environment) :
    (withAliases columns env bound).rebind σ = withAliases columns (env.rebind σ)
      (bound.rebind σ) := by
  unfold withAliases
  generalize columns.any = declared
  induction columns generalizing bound with
  | nil => rfl
  | cons c columns ih =>
    obtain ⟨name, e⟩ := c
    rw [List.foldl_cons, List.foldl_cons, ih]
    congr 1
    cases e with
    | attr source =>
      simp only [Environment.rebind, NameMap.contains_map, NameMap.find?_map]
      split
      · rfl
      · cases bound.find? name with
        | none => rfl
        | some refs => exact NameMap.map_insert _ _ _
    | _ => rfl

end OutputColumn

namespace Query

/-- The query over output columns is relabelled with the columns and its input. -/
theorem relabel_ofOutputs (outputs : List OutputColumn) (input : Query) :
    (ofOutputs outputs input).relabel σ = ofOutputs (outputs.map (OutputColumn.relabel σ))
      (input.relabel σ) := by
  simp only [ofOutputs, relabel_project, relabel_restrictAll, relabel_productAll, List.map_cons,
    List.map_flatMap, List.flatMap_map, OutputColumn.relabel]

/-! ## Combinations and restrictions -/

variable {leftEnv rightEnv : Environment} {flatLeft flatRight : Query} {check : TypeCheck}

theorem alike_alignColumns {l r : String} (left : σ l = l) (right : σ r = r) :
    Alike (List.map fun c => (σ c.1, c.2.relabel σ)) (alignColumns leftEnv rightEnv l r)
      (alignColumns (leftEnv.rebind σ) (rightEnv.rebind σ) l r) := by
  unfold alignColumns
  refine (Environment.alike_flatColumns left).bind fun targets _ =>
    (Environment.alike_flatColumns right).bind fun sources _ => ?_
  rw [List.length_map, List.length_map]
  refine .ite (.of_eq ?_) (.error _ _)
  have references : (sources.map σ).map Expr.attr = (sources.map Expr.attr).map
      (Expr.relabel σ) := by
    rw [List.map_map, List.map_map]
    exact List.map_congr_left fun source _ => (Expr.relabel_attr source).symm
  rw [references, List.zip_map]
  rfl

variable (injective : Function.Injective σ)

include injective

/-- Lining up the columns of the right operand commutes with relabelling, if the declared names are
fixed. -/
theorem alike_align {pairs : List (String × String)}
    (fixed : ∀ p ∈ pairs, σ p.1 = p.1 ∧ σ p.2 = p.2) :
    Alike (relabel σ) (align pairs leftEnv rightEnv flatRight)
      (align pairs (leftEnv.rebind σ) (rightEnv.rebind σ) (flatRight.relabel σ)) := by
  have each : Alike (List.map (List.map fun c => (σ c.1, c.2.relabel σ)))
      (pairs.mapM fun p => alignColumns leftEnv rightEnv p.1 p.2)
      (pairs.mapM fun p => alignColumns (leftEnv.rebind σ) (rightEnv.rebind σ) p.1 p.2) := by
    nth_rewrite 2 [← List.map_id pairs]
    exact Alike.mapM fun p member => alike_alignColumns (fixed p member).1 (fixed p member).2
  refine each.bind fun columns _ => ?_
  rw [← List.map_flatten]
  exact alike_projection injective columns.flatten flatRight

/-- A flat combination is relabelled with its operands, if their declared names are fixed. -/
theorem alike_flattenCombination (op : CombineOp) {leftSchema rightSchema : Schema}
    (onLeft : ∀ name ∈ leftSchema.names, σ name = name)
    (onRight : ∀ name ∈ rightSchema.names, σ name = name) :
    Alike (relabelAnswer σ)
      (flattenCombination op flatLeft flatRight leftEnv rightEnv leftSchema rightSchema)
        (flattenCombination op (flatLeft.relabel σ) (flatRight.relabel σ) (leftEnv.rebind σ)
          (rightEnv.rebind σ) leftSchema rightSchema) := by
  cases op with
  | product =>
    refine .of_eq (Prod.ext (relabel_combine _ _ _).symm ?_)
    rw [← Environment.rebind_filterNames]
    exact (Environment.rebind_insertAll leftEnv _).symm
  | quotient =>
    refine (alike_align injective ?_).bind fun aligned _ =>
      .of_eq (Prod.ext (relabel_combine _ _ _).symm ?_)
    · intro p member
      obtain ⟨name, among, rfl⟩ := List.mem_map.1 member
      exact ⟨onRight name among, onRight name among⟩
    · rw [← Environment.rebind_filterNames]
      rfl
  | union | intersection | difference =>
    refine .ite ((alike_align injective ?_).bind fun aligned _ =>
      .of_eq (Prod.ext (relabel_combine _ _ _).symm rfl)) (.error _ _)
    intro p member
    exact ⟨onLeft p.1 (List.of_mem_zip member).1, onRight p.2 (List.of_mem_zip member).2⟩

/-- A flat restriction is relabelled with its predicate and its input. -/
theorem alike_flattenRestriction (predicate : Expr) (part : Flattened) (input : Query) :
    Alike (relabel σ) (flattenRestriction check predicate part input)
      (flattenRestriction check predicate (part.relabel σ) (input.relabel σ)) := by
  unfold flattenRestriction
  have restricted : ∀ q : Query, (restrictAll (part.expr :: part.restrictions) q).relabel σ =
      restrictAll ((part.relabel σ).expr :: (part.relabel σ).restrictions) (q.relabel σ) :=
    relabel_restrictAll (part.expr :: part.restrictions)
  have joined : (productAll (input :: part.queries)).relabel σ =
      productAll (input.relabel σ :: (part.relabel σ).queries) := relabel_productAll
      (input :: part.queries)
  have plain : (part.relabel σ).queries.isEmpty = part.queries.isEmpty := List.isEmpty_map
  have scalar : (part.relabel σ).expr.isTuple = part.expr.isTuple := Expr.isTuple_relabel part.expr
  rw [plain, scalar]
  refine .ite (.error _ _) (.ite (.of_eq (restricted input).symm) ?_)
  refine (alike_schemaOf injective check input).bind fun visible _ => .of_eq ?_
  have columns : (visible.relabel σ).columns.map (fun c => (c.1, Expr.attr c.1)) =
      (visible.columns.map fun c => (c.1, Expr.attr c.1)).map fun c => (σ c.1, c.2.relabel σ) := by
    rw [Schema.relabel, List.map_map, List.map_map]
    exact List.map_congr_left fun c _ => by
      rw [Function.comp_apply, Function.comp_apply, Expr.relabel_attr]
  rw [relabel_project, restricted, joined, columns]

end Query

end FlatPlan
