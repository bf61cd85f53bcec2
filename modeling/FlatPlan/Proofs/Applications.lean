import FlatPlan.Proofs.Leaves
import FlatPlan.Sample

/-!
# Applications

What a run makes of an application of any operator: the arguments are flattened, then the query that
the operator looks up is joined under fresh names, and then the rule is applied to the flat parts
(`Expr.exists_application`). A rule that fills a template may answer any expression. Any other rule
keeps what holds of the leaves of the arguments and of applications to leaves
(`Application.of_flatten`, `Operator.preserves_of_noTemplate`). What is asked of the others is asked
of their answers (`Operator.Preserves`, `Operator.Answers`).
-/

namespace FlatPlan

open Pass

/-- Whether the rule of the operator fills a template. -/
def Operator.hasTemplate (op : Operator) : Bool :=
  match op.flattening with
  | .plain | .componentwise _ => false
  | .template _ | .lookup _ _ _ => true

/-- The templates that the rule of an operator fills. -/
def Operator.templates (op : Operator) : List Template :=
  match op.flattening with
  | .plain | .componentwise _ => []
  | .template result => [result]
  | .lookup _ condition result => [condition, result]

/-- Whether the flat form of an accepted application has a property that its flat arguments and the
columns of the joined query have. -/
def Operator.Preserves (x : Session) (op : Operator) (property : Expr → Prop) : Prop :=
  ∀ ⦃a : Application⦄ ⦃source : Option Query⦄ ⦃parts : List Flattened⦄ ⦃part : Flattened⦄ ⦃types :
    List Ty⦄ ⦃type : Ty⦄, a.op = op → op.range x.checked types = .ok type →
    a.args.length = types.length →
    (∀ e ∈ a.args, property e) → (∀ c ∈ a.columns, property c) →
      a.flatten x.rules source parts = .ok part →
    property part.expr ∧ ∀ r ∈ part.restrictions, r ∈ parts.flatMap (·.restrictions) ∨ property r

variable {x : Session} {rules : Rules} {check : Regime} {env : Environment} {schema : Schema}
  {s t : PassState} {op : Operator}

/-! ## Runs -/

/-- A query is joined only for an operator that looks it up, as its flat form under fresh names. -/
theorem Operator.joinSource_cases {joined : Option (Query × List Expr)}
    (run : (op.joinSource check).Yields s joined t) :
    (joined = none ∧ t = s) ∨ ∃ source underlying env u schema renamed,
      op.lookupSource? = some source ∧
      (source.flatten check).Yields s (underlying, env) u ∧ underlying.schemaOf check = .ok schema ∧
      Query.projection (Query.renamings (u.block schema.columns.length) schema.columns) underlying =
        .ok renamed ∧
      joined = some (renamed, (u.block schema.columns.length).map .attr) ∧
      (u.after schema.columns.length).Leads t := by
  cases lookup : op.lookupSource? with
  | none =>
    rw [joinSource_eq_pure lookup, yields_pure] at run
    exact .inl run
  | some source =>
    obtain ⟨underlying, env, u, schema, renamed, runSource, infer, project, equal, rfl⟩ :=
      (Query.yields_joinSource lookup).1 run
    exact .inr ⟨source, underlying, env, u, schema, renamed, rfl, runSource, infer, project, equal,
      rfl, Nat.le_refl _⟩

theorem Operator.joinSource_leads {joined : Option (Query × List Expr)}
    (run : (op.joinSource check).Yields s joined t) : s.Leads t :=
  (Operator.joinSource_advances _ check).leads run

theorem Expr.exists_application {args : List Expr} {part : Flattened}
    (run : ((apply op args).flatten check env schema).Yields s part t) :
    ∃ parts u types joined, (flattenItems check env schema args).Yields s parts u ∧
      (op.joinSource check).Yields u joined t ∧
      Application.flatten check.rules ⟨op, parts.map (·.expr), types, (joined.map Prod.snd).getD []⟩
        (joined.map Prod.fst) parts = .ok part := by
  obtain ⟨parts, u, runArgs, rest⟩ := yields_flatten_application.1 run
  rcases rest with ⟨noRule, rfl, rfl⟩ | ⟨_, types, joined, _, join, flat⟩
  · -- without a rule the application stays as it is
    have plain : op.flattening = .plain := by
      cases form : op.flattening with
      | plain => rfl
      | _ => simp [Operator.hasRule, form] at noRule
    refine ⟨parts, t, [], none, runArgs, ?_, ?_⟩
    · rw [Operator.joinSource_eq_pure (by rw [Operator.lookupSource?, plain]), yields_pure]
      exact ⟨rfl, rfl⟩
    · simp only [Application.flatten, plain]
  · exact ⟨parts, u, types, joined, runArgs, join, flat⟩

/-- A rule that looks nothing up needs the joins of the arguments. One that looks something up needs
one query and one condition more, after those of the arguments. -/
theorem Application.flatten_cases {a : Application} {source : Option Query} {parts : List Flattened}
    {part : Flattened} (h : a.flatten rules source parts = .ok part) :
    (a.op.lookupSource? = none ∧ ∃ e, part = .gather parts e) ∨
      ∃ base condition result restriction e, a.op.flattening = .lookup base condition result ∧
        condition.fill rules a = .ok restriction ∧ result.fill rules a = .ok e ∧
        part = ⟨e, parts.flatMap (·.queries) ++ source.toList,
          parts.flatMap (·.restrictions) ++ [restriction]⟩ := by
  unfold flatten at h
  unfold Operator.lookupSource?
  cases form : a.op.flattening with
  | plain =>
    rw [form] at h
    cases h
    exact .inl ⟨rfl, _, rfl⟩
  | componentwise joiner =>
    rw [form] at h
    dsimp only at h
    split at h
    · simp only [bind_eq_ok, pure_eq_ok] at h
      obtain ⟨e, _, rfl⟩ := h
      exact .inl ⟨rfl, e, rfl⟩
    · cases h
      exact .inl ⟨rfl, _, rfl⟩
  | template result =>
    rw [form] at h
    simp only [bind_eq_ok, pure_eq_ok] at h
    obtain ⟨e, _, rfl⟩ := h
    exact .inl ⟨rfl, e, rfl⟩
  | lookup base condition result =>
    rw [form] at h
    simp only [bind_eq_ok, pure_eq_ok] at h
    obtain ⟨restriction, filled, e, answered, rfl⟩ := h
    exact .inr ⟨base, condition, result, restriction, e, rfl, filled, answered, rfl⟩

/-- An application needs the queries that its arguments need and the one that it looks up. -/
theorem Application.queries_of_flatten {a : Application} {source : Option Query}
    {parts : List Flattened} {part : Flattened} (h : a.flatten rules source parts = .ok part) :
    (a.op.lookupSource? = none ∧ part.queries = parts.flatMap (·.queries)) ∨
      part.queries = parts.flatMap (·.queries) ++ source.toList := by
  rcases flatten_cases h with ⟨noLookup, e, rfl⟩ | ⟨_, _, _, _, _, _, _, _, rfl⟩
  · exact .inl ⟨noLookup, rfl⟩
  · exact .inr rfl

theorem Application.mem_queries_of_flatten {a : Application} {source : Option Query}
    {parts : List Flattened} {part : Flattened} (h : a.flatten rules source parts = .ok part)
    {q : Query} (member : q ∈ part.queries) :
    q ∈ parts.flatMap (·.queries) ∨ q ∈ source.toList := by
  rcases queries_of_flatten h with ⟨_, equal⟩ | equal
  · exact .inl (equal ▸ member)
  · exact List.mem_append.1 (equal ▸ member)

/-! ## Rules -/

/-- What the arguments of an application have, the applications that its rule makes of them or of
their leaves, and the templates that it fills, the flat form has. -/
theorem Application.of_flatten {property : Expr → Prop} {a : Application} {source : Option Query}
    {parts : List Flattened} {part : Flattened}
    (leaves : ∀ e, property e → ∀ leaf ∈ e.leaves, property leaf)
    (applied : ∀ args, args.length = a.args.length → (∀ e ∈ args, property e) →
      property (.apply a.op args))
    (joined : ∀ joiner, a.op.flattening = .componentwise joiner →
      ∀ l r, property l → property r → property (.apply joiner [l, r]))
    (filled : ∀ template ∈ a.op.templates, ∀ e, template.fill rules a = .ok e → property e)
    (onArgs : ∀ e ∈ a.args, property e) (flat : a.flatten rules source parts = .ok part) :
    property part.expr ∧ ∀ r ∈ part.restrictions, r ∈ parts.flatMap (·.restrictions) ∨
      property r := by
  have whole : property (.apply a.op a.args) := applied a.args rfl onArgs
  unfold Operator.templates at filled
  unfold flatten at flat
  cases form : a.op.flattening with
  | plain =>
    rw [form] at flat
    cases flat
    exact ⟨whole, fun r member => .inl member⟩
  | componentwise joiner =>
    rw [form] at flat
    dsimp only at flat
    split at flat
    case h_1 left right args =>
      simp only [bind_eq_ok, pure_eq_ok] at flat
      obtain ⟨e, compared, rfl⟩ := flat
      rw [args, List.forall_mem_cons, List.forall_mem_singleton] at onArgs
      refine ⟨?_, fun r member => .inl member⟩
      refine Operator.of_compare (joined joiner form) (fun l onLeft r onRight => ?_) compared
      refine applied [l, r] (congrArg List.length args).symm ?_
      rw [List.forall_mem_cons, List.forall_mem_singleton]
      exact ⟨leaves left onArgs.1 l onLeft, leaves right onArgs.2 r onRight⟩
    case h_2 =>
      cases flat
      exact ⟨whole, fun r member => .inl member⟩
  | template result =>
    rw [form] at flat filled
    simp only [bind_eq_ok, pure_eq_ok] at flat
    obtain ⟨e, fill, rfl⟩ := flat
    exact ⟨filled result List.mem_cons_self e fill, fun r member => .inl member⟩
  | lookup _ condition result =>
    rw [form] at flat filled
    simp only [bind_eq_ok, pure_eq_ok] at flat
    obtain ⟨restriction, fillCondition, e, fill, rfl⟩ := flat
    rw [List.forall_mem_cons, List.forall_mem_singleton] at filled
    refine ⟨filled.2 e fill, fun r member => ?_⟩
    rcases List.mem_append.1 member with before | own
    · exact .inl before
    · rw [List.mem_singleton.1 own]
      exact .inr (filled.1 restriction fillCondition)

theorem Operator.templates_of_noTemplate (noTemplate : op.hasTemplate = false) :
    op.templates = [] := by
  unfold hasTemplate at noTemplate
  unfold templates
  cases form : op.flattening <;> simp_all

/-- What the leaves of flat values have, and with them the applications to values, holds of an
application whose rule fills no template. -/
theorem Operator.preserves_of_noTemplate {property : Expr → Prop}
    (noTemplate : op.hasTemplate = false)
    (leaves : ∀ e, property e → ∀ leaf ∈ e.leaves, property leaf)
    (apply : ∀ args types type, op.range x.checked types = .ok type → args.length = types.length →
      (∀ e ∈ args, property e) → property (.apply op args))
    (join : ∀ joiner, op.flattening = .componentwise joiner →
      ∀ a b, property a → property b → property (.apply joiner [a, b])) :
        op.Preserves x property := by
  intro a source parts part types type own range length onArgs _ flat
  subst own
  refine Application.of_flatten leaves (fun args same => ?_) join ?_ onArgs flat
  · exact apply args types type range (same.trans length)
  · rw [templates_of_noTemplate noTemplate]
    exact fun template member => absurd member List.not_mem_nil

/-- Comparisons of tuples are joined by connectives. -/
theorem Operator.flattening_comparison (name : String) : (comparison name).flattening = .plain ∨
    ∃ own, (comparison name).flattening = .componentwise (logical own) := by
  simp only [comparison, comparisonFlattening]
  split
  · exact .inr ⟨_, rfl⟩
  · split
    · exact .inr ⟨_, rfl⟩
    · exact .inl rfl

/-! ## Templates -/

theorem Template.mem_of_pick {α : Type} {items : List α} {index : Nat} {missing : Misuse} {item : α}
    (h : pick items index missing = .ok item) : item ∈ items := by
  unfold pick at h
  split at h
  case h_1 found =>
    cases h
    exact List.mem_of_getElem? found
  case h_2 => cases h

/-- The flat form of an application has a property everywhere if its arguments, the applications
that its rule makes and its filled templates have. -/
theorem Application.everywhere_of_flatten {p : NodeProperty} {a : Application}
    {source : Option Query} {parts : List Flattened} {part : Flattened}
    (applied : ∀ args, p.expr (.apply a.op args))
    (joined : ∀ joiner, a.op.flattening = .componentwise joiner →
      ∀ args, p.expr (.apply joiner args))
    (filled : ∀ template ∈ a.op.templates, ∀ e, template.fill rules a = .ok e → e.Everywhere p)
    (onArgs : ∀ e ∈ a.args, e.Everywhere p) (flat : a.flatten rules source parts = .ok part) :
    part.expr.Everywhere p ∧ ∀ r ∈ part.restrictions, r ∈ parts.flatMap (·.restrictions) ∨
      r.Everywhere p := by
  refine of_flatten (fun e nodes leaf => Expr.everywhere_leaves nodes) ?_ ?_ filled onArgs flat
  · intro args _ each
    exact (Expr.everywhere_apply _ _).2 ⟨applied args, each⟩
  · intro joiner form l r onLeft onRight
    rw [Expr.everywhere_apply, List.forall_mem_cons, List.forall_mem_singleton]
    exact ⟨joined joiner form _, onLeft, onRight⟩

/-- Whether the flat form of any application, accepted or not, has a property everywhere if its
parts have. -/
def Operator.Answers (rules : Rules) (p : NodeProperty) (op : Operator) : Prop :=
  ∀ ⦃a : Application⦄ ⦃source : Option Query⦄ ⦃parts : List Flattened⦄ ⦃part : Flattened⦄,
    a.op = op →
    (∀ e ∈ a.args, e.Everywhere p) → (∀ c ∈ a.columns, c.Everywhere p) →
      a.flatten rules source parts = .ok part →
    part.expr.Everywhere p ∧ ∀ r ∈ part.restrictions, r ∈ parts.flatMap (·.restrictions) ∨
      r.Everywhere p

/-- A rule answers applications of the operator, of the one that joins comparisons, and filled
templates. -/
theorem Operator.answers_of_fills {p : NodeProperty} (own : ∀ args, p.expr (.apply op args))
    (joined : ∀ joiner, op.flattening = .componentwise joiner →
      ∀ args, p.expr (.apply joiner args))
    (fills : ∀ {a : Application} {template : Template} {e : Expr}, (∀ e ∈ a.args, e.Everywhere p) →
      (∀ c ∈ a.columns, c.Everywhere p) → template ∈ op.templates →
      template.fill rules a = .ok e → e.Everywhere p) :
    op.Answers rules p := by
  intro a source parts part same onArgs onColumns flat
  subst same
  exact Application.everywhere_of_flatten own joined
    (fun _ member _ filled => fills onArgs onColumns member filled) onArgs flat

/-- A rule that fills no template answers applications of the operator and of the one that joins
comparisons. -/
theorem Operator.answers_of_noTemplate {p : NodeProperty} (noTemplate : op.hasTemplate = false)
    (own : ∀ args, p.expr (.apply op args))
    (joined : ∀ joiner, op.flattening = .componentwise joiner →
      ∀ args, p.expr (.apply joiner args)) :
    op.Answers rules p := by
  refine answers_of_fills own joined fun _ _ member _ => ?_
  rw [templates_of_noTemplate noTemplate] at member
  cases member

/-! ## Parts -/

/-- A flat expression and the joins that it needs have a property everywhere. -/
structure Flattened.Everywhere (p : NodeProperty) (part : Flattened) : Prop where
  expr : part.expr.Everywhere p
  queries : ∀ q ∈ part.queries, q.Everywhere p
  restrictions : ∀ e ∈ part.restrictions, e.Everywhere p

namespace Flattened

variable {p : NodeProperty} {parts : List Flattened} {part : Flattened} {e : Expr}

theorem everywhere_plain (h : e.Everywhere p) : (plain e).Everywhere p :=
  ⟨h, fun _ member => absurd member List.not_mem_nil,
    fun _ member => absurd member List.not_mem_nil⟩

/-- Parts whose joins are gathered around an expression. -/
theorem everywhere_gather (each : ∀ part ∈ parts, part.Everywhere p) (h : e.Everywhere p) :
    (gather parts e).Everywhere p where
  expr := h
  queries q member := by
    obtain ⟨part, among, own⟩ := List.mem_flatMap.1 member
    exact (each part among).queries q own
  restrictions r member := by
    obtain ⟨part, among, own⟩ := List.mem_flatMap.1 member
    exact (each part among).restrictions r own

theorem everywhere_exprs (each : ∀ part ∈ parts, part.Everywhere p) :
    ∀ e ∈ parts.map (·.expr), e.Everywhere p :=
  List.forall_mem_map.2 fun part member => (each part member).expr

/-- An application joins what its arguments need and what it looks up. -/
theorem everywhere_application {a : Application} {source : Option Query}
    (each : ∀ part ∈ parts, part.Everywhere p) (looked : ∀ q ∈ source.toList, q.Everywhere p)
    (flat : a.flatten rules source parts = .ok part)
    (answer : part.expr.Everywhere p ∧
      ∀ r ∈ part.restrictions, r ∈ parts.flatMap (·.restrictions) ∨ r.Everywhere p) :
        part.Everywhere p := by
  have gathered := everywhere_gather each answer.1
  refine ⟨answer.1, fun q member => ?_,
    fun r member => (answer.2 r member).elim (gathered.restrictions r) id⟩
  exact (Application.mem_queries_of_flatten flat member).elim (gathered.queries q) (looked q)

end Flattened

namespace Sample

/-- The lookup of nicknames compares a column with an argument, and answers a column. -/
theorem nickname_fills {a : Application} {template : Template} {e : Expr}
    (member : template ∈ nickname.templates) (h : template.fill rules a = .ok e) :
    e ∈ a.columns ∨ ∃ column ∈ a.columns, ∃ arg ∈ a.args,
      e = .apply (.comparison "=") [column, arg] := by
  change template ∈ [Template.apply (.comparison "=") [.column 0, .arg 0], .column 1] at member
  rcases List.mem_cons.1 member with rfl | own
  · rw [Template.fill] at h
    simp only [Template.fillItems, bind_eq_ok, pure_eq_ok] at h
    obtain ⟨_, ⟨column, fillColumn, _, ⟨arg, fillArg, _, ⟨⟩, rfl⟩, rfl⟩, rfl⟩ := h
    exact .inr ⟨column, Template.mem_of_pick fillColumn, arg, Template.mem_of_pick fillArg, rfl⟩
  · rw [List.mem_singleton.1 own] at h
    exact .inl (Template.mem_of_pick h)

/-- The rule of the greater number answers a choice between the arguments. -/
theorem greater_fills {a : Application} {template : Template} {e : Expr}
    (member : template ∈ greater.templates) (h : template.fill Sample.rules a = .ok e) :
    ∃ left ∈ a.args, ∃ right ∈ a.args,
      e = .case [(.apply (.comparison "<") [left, right], right)] left := by
  change template ∈ [Template.rule "greater"] at member
  rw [List.mem_singleton.1 member] at h
  change choiceOfGreater a = .ok e at h
  unfold choiceOfGreater at h
  split at h
  case h_1 left right args =>
    split at h
    · cases h
    · cases h
      rw [args]
      exact ⟨left, List.mem_cons_self, right, List.mem_cons_of_mem _ List.mem_cons_self, rfl⟩
  case h_2 => cases h

section Everywhere

variable {p : NodeProperty} {a : Application} {template : Template} {e : Expr}

theorem everywhere_nickname (equality : ∀ args, p.expr (.apply (.comparison "=") args))
    (onArgs : ∀ e ∈ a.args, e.Everywhere p) (onColumns : ∀ c ∈ a.columns, c.Everywhere p)
    (member : template ∈ nickname.templates) (filled : template.fill rules a = .ok e) :
    e.Everywhere p := by
  rcases nickname_fills member filled with column | ⟨column, amongColumns, arg, amongArgs, rfl⟩
  · exact onColumns e column
  · rw [Expr.everywhere_apply, List.forall_mem_cons, List.forall_mem_singleton]
    exact ⟨equality _, onColumns column amongColumns, onArgs arg amongArgs⟩

theorem nickname_answers (own : ∀ args, p.expr (.apply nickname args))
    (equality : ∀ args, p.expr (.apply (.comparison "=") args)) : nickname.Answers rules p :=
  Operator.answers_of_fills own (fun _ form => nomatch form) (everywhere_nickname equality)

end Everywhere

end Sample

end FlatPlan
