import FlatPlan.Proofs.SampleVocabulary

/-!
# Checked and permissive mode

Checked mode refuses more than permissive mode, and that is all it does: where it accepts,
permissive mode gives the same answer, and a fault that is no violation of types, schemas or places
of aggregations is found in both (`Refines`). The relation is kept by every step of inference, so it
holds of the type of an expression and of the schema of a query, over any schema and any
capabilities (`Query.checkSchema_refines_inferSchema`).
-/

namespace FlatPlan

/-- A fault that is passed over in permissive mode: types or schemas that do not fit, or an
aggregation outside a grouping projection. -/
def Error.isViolation : Error → Bool
  | .typeViolation _ _ | .schemaMismatch _ _ _ | .misplacedAggregate _ => true
  | _ => false

/-- How the answers of the two modes are related. -/
structure Refines {α : Type} (checked permissive : Except Error α) : Prop where
  /-- What checked mode accepts permissive mode accepts with the same result. -/
  accepts : ∀ a, checked = .ok a → permissive = .ok a
  /-- Any fault but a violation is found in both modes. -/
  structural : ∀ e, checked = .error e → e.isViolation = false → permissive = .error e
  /-- What permissive mode refuses checked mode refuses. -/
  refuses : ∀ e, permissive = .error e → ∃ fault, checked = .error fault
  /-- Permissive mode finds no violations. -/
  noViolation : ∀ e, permissive = .error e → e.isViolation = false

namespace Refines

variable {α β : Type} {checked permissive : Except Error α}

/-- The modes agree, or checked mode finds a violation; permissive mode finds none. -/
theorem iff_eq_or : Refines checked permissive ↔
    (checked = permissive ∨ ∃ e, checked = .error e ∧ e.isViolation = true) ∧
      ∀ e, permissive = .error e → e.isViolation = false := by
  constructor
  · intro h
    refine ⟨?_, h.noViolation⟩
    cases answer : checked with
    | ok a => exact .inl (h.accepts a answer).symm
    | error e =>
      cases violation : e.isViolation with
      | true => exact .inr ⟨e, rfl, violation⟩
      | false => exact .inl (h.structural e answer violation).symm
  · rintro ⟨rfl | ⟨e, rfl, violation⟩, lenient⟩
    · exact ⟨fun _ => id, fun _ same _ => same, fun e same => ⟨e, same⟩, lenient⟩
    · refine ⟨fun _ same => (by cases same), ?_, fun _ _ => ⟨e, rfl⟩, lenient⟩
      intro other same structural
      cases same
      exact absurd violation (by simp [structural])

theorem ok (a : α) : Refines (.ok a) (.ok a) :=
  iff_eq_or.2 ⟨.inl rfl, fun _ same => (by cases same)⟩

/-- A structural error is reported in either mode. -/
theorem error {e : Error} (structural : e.isViolation = false) :
    Refines (.error e : Except Error α) (.error e) := by
  refine iff_eq_or.2 ⟨.inl rfl, fun other same => ?_⟩
  cases same
  exact structural

/-- A condition that is a violation in checked mode and passed over in permissive mode. -/
theorem guard {e : Error} (violation : e.isViolation = true) (refused : Bool)
    (rest : Refines checked permissive) :
    Refines (if refused then .error e else checked) permissive := by
  cases refused with
  | true => exact iff_eq_or.2 ⟨.inr ⟨e, rfl, violation⟩, rest.noViolation⟩
  | false => exact rest

/-- Steps one after the other. -/
theorem bind {f g : α → Except Error β} (first : Refines checked permissive)
    (rest : ∀ a, Refines (f a) (g a)) : Refines (checked >>= f) (permissive >>= g) := by
  obtain ⟨agree, lenient⟩ := iff_eq_or.1 first
  refine iff_eq_or.2 ⟨?_, ?_⟩
  · rcases agree with rfl | ⟨e, rfl, violation⟩
    · cases checked with
      | error e => exact .inl rfl
      | ok a => exact (iff_eq_or.1 (rest a)).1
    · exact .inr ⟨e, rfl, violation⟩
  · intro e fault
    rcases bind_eq_error.1 fault with first | ⟨a, _, later⟩
    · exact lenient e first
    · exact (rest a).noViolation e later

/-- Folding refines if each step does. -/
theorem foldlM {f g : β → α → Except Error β} (step : ∀ b a, Refines (f b a) (g b a)) (l : List α)
    (b : β) :
    Refines (l.foldlM f b) (l.foldlM g b) := by
  induction l generalizing b with
  | nil => exact ok b
  | cons a l ih =>
    rw [List.foldlM_cons, List.foldlM_cons]
    exact (step b a).bind ih

theorem forM {f g : α → Except Error PUnit} (step : ∀ a, Refines (f a) (g a)) (l : List α) :
    Refines (l.forM f) (l.forM g) := by
  induction l with
  | nil => exact ok _
  | cons a l ih => exact (step a).bind fun _ => ih

end Refines

variable {capabilities : Capabilities}

/-! ## Types -/

namespace TypeCheck

/-- A check on types fails in checked mode only. -/
theorem require_refines (ok : Bool) (expected actual : String) :
    Refines ((⟨true, capabilities⟩ : TypeCheck).require ok expected actual)
      ((⟨false, capabilities⟩ : TypeCheck).require ok expected actual) := by
  rw [require_permissive]
  cases ok with
  | true => exact .ok ()
  | false => exact .guard rfl true (.ok ())

/-- Types that unify in checked mode unify to the same type in permissive mode. -/
theorem unify_refines (left right : Ty) :
    Refines ((⟨true, capabilities⟩ : TypeCheck).unify left right)
      ((⟨false, capabilities⟩ : TypeCheck).unify left right) := by
  unfold unify
  split
  · exact .ok _
  · split
    · exact .ok _
    · exact (require_refines _ _ _).bind fun _ => .ok _

/-- A choice that has a type in checked mode has the same one in permissive mode. -/
theorem caseType_refines (branches : List (Ty × Ty)) (default : Ty) :
    Refines ((⟨true, capabilities⟩ : TypeCheck).caseType branches default)
      ((⟨false, capabilities⟩ : TypeCheck).caseType branches default) :=
  .foldlM (fun _ _ => (require_refines _ _ _).bind fun _ => unify_refines _ _) _ _

end TypeCheck

namespace Schema

/-- A combination that has a schema in checked mode has the same one in permissive mode. -/
theorem combine_refines (op : CombineOp) (left right : Schema) :
    Refines (combine ⟨true, capabilities⟩ op left right)
      (combine ⟨false, capabilities⟩ op left right) := by
  cases op with
  | product =>
    refine .foldlM (fun schema column => ?_) _ _
    split
    · exact .guard rfl true (.ok schema)
    · exact .ok _
  | quotient =>
    refine .foldlM (fun schema column => ?_) _ _
    split
    · exact (TypeCheck.require_refines _ _ _).bind fun _ => .ok _
    · exact .ok _
  | union | intersection | difference => exact .guard rfl (!(left == right)) (.ok left)

theorem onlyType_refines (schema : Schema) : Refines schema.onlyType schema.onlyType := by
  unfold onlyType
  split
  · exact .ok _
  · exact .error rfl

end Schema

/-- An aggregation that has a type in checked mode has the same one in permissive mode. -/
theorem Aggregate.range_refines (fn : Aggregate) (arg : Ty) :
    Refines (fn.range ⟨true, capabilities⟩ arg) (fn.range ⟨false, capabilities⟩ arg) := by
  unfold range
  cases fn with
  | count => exact .ok _
  | sum | avg | stddev | stddevPop | variance | variancePop =>
    exact (TypeCheck.require_refines _ _ _).bind fun _ => .ok _
  | min | max => exact (TypeCheck.require_refines _ _ _).bind fun _ => .ok _

/-! ## Operators -/

namespace Operator

/-- The range of the operator treats the modes as inference does. That it is refused in both modes
or in checked mode only need not be asked for: it follows from what is accepted. -/
def RefinesRange (capabilities : Capabilities) (op : Operator) : Prop :=
  ∀ types, Refines (op.range ⟨true, capabilities⟩ types) (op.range ⟨false, capabilities⟩ types)

/-- A wrong number of arguments is refused in both modes, so it is for the rule to treat the modes
alike. -/
theorem onTwo_refines {op : Operator} {name : String} {rule : TypeCheck → Ty → Ty → Except Error Ty}
    (range : op.range = onTwo name rule)
    (refines : ∀ left right, Refines (rule ⟨true, capabilities⟩ left right)
      (rule ⟨false, capabilities⟩ left right)) :
    op.RefinesRange capabilities := by
  intro types
  rw [range]
  unfold onTwo
  split
  · exact refines _ _
  · exact .error rfl

theorem arithmetic_refines (name : String) : (arithmetic name).RefinesRange capabilities := by
  refine onTwo_refines rfl fun left right => ?_
  refine (TypeCheck.require_refines _ _ _).bind fun _ =>
    (TypeCheck.require_refines _ _ _).bind fun _ => ?_
  exact (TypeCheck.require_refines _ _ _).bind fun _ => .ok _

theorem comparison_refines (name : String) : (comparison name).RefinesRange capabilities := by
  refine onTwo_refines rfl fun left right => (TypeCheck.require_refines _ _ _).bind fun _ => ?_
  split
  · exact .ok _
  · exact (TypeCheck.require_refines _ _ _).bind fun _ => .ok _

theorem logical_refines (name : String) : (logical name).RefinesRange capabilities := by
  refine onTwo_refines rfl fun left right => (TypeCheck.require_refines _ _ _).bind fun _ => ?_
  exact (TypeCheck.require_refines _ _ _).bind fun _ => .ok _

theorem negation_refines : negation.RefinesRange capabilities := by
  intro types
  dsimp only [negation]
  split
  · exact (TypeCheck.require_refines _ _ _).bind fun _ => .ok _
  · exact .error rfl

/-- An operator of a signature requires types of its arguments, and any other fault is found in both
modes. -/
theorem ofSignature_refines (name : String) (signature : Signature) (separator : Option String)
    (flattening : Flattening) :
    (ofSignature name signature separator flattening).RefinesRange capabilities := by
  intro types
  refine Refines.bind (.forM (fun pair => ?_) _) fun _ => ?_
  · obtain ⟨expectation, type⟩ := pair
    cases expectation with
    | any => exact .ok ()
    | numeric | ordered | type => exact TypeCheck.require_refines _ _ _
  · cases signature.result with
    | fixed type => exact .ok type
    | argument index =>
      dsimp only
      split
      · exact .ok _
      · exact .error rfl

/-- Every standard operator refines. -/
theorem refines_of_standard {op : Operator} (h : op ∈ standard) : op.RefinesRange capabilities := by
  simp only [standard, List.mem_append, List.mem_map, List.mem_cons, List.not_mem_nil,
    or_false] at h
  rcases h with ((⟨name, _, rfl⟩ | ⟨name, _, rfl⟩) | ⟨name, _, rfl⟩) | rfl
  · exact arithmetic_refines name
  · exact comparison_refines name
  · exact logical_refines name
  · exact negation_refines

end Operator

/-! ## Plans -/

/-- Operators are standard ones, or others whose ranges treat the modes as inference does. -/
def NodeProperty.refiningOperators (capabilities : Capabilities) : NodeProperty where
  expr
    | .apply op _ => op ∈ Operator.standard ∨ op.RefinesRange capabilities
    | _ => True
  query _ := True

/-- The types of the expression in the two modes are related, over any schema. -/
def Expr.RefinesType (capabilities : Capabilities) (e : Expr) : Prop :=
  e.Everywhere (.refiningOperators capabilities) → ∀ schema,
    Refines (e.typeOf ⟨true, capabilities⟩ schema) (e.typeOf ⟨false, capabilities⟩ schema)

/-- The schemas of the query in the two modes are related. -/
def Query.RefinesSchema (capabilities : Capabilities) (q : Query) : Prop :=
  q.Everywhere (.refiningOperators capabilities) →
    Refines (q.schemaOf ⟨true, capabilities⟩) (q.schemaOf ⟨false, capabilities⟩)

namespace CheckedMode

attribute [local simp] Expr.typeOf Query.schemaOf

theorem items {es : List Expr} (ih : ∀ e ∈ es, e.RefinesType capabilities)
    (operators : ∀ e ∈ es, e.Everywhere (.refiningOperators capabilities)) (schema : Schema) :
    Refines (Expr.typesOf ⟨true, capabilities⟩ schema es)
      (Expr.typesOf ⟨false, capabilities⟩ schema es) := by
  induction es with
  | nil =>
    rw [Expr.typesOf, Expr.typesOf]
    exact .ok []
  | cons e es ih' =>
    rw [List.forall_mem_cons] at ih operators
    rw [Expr.typesOf, Expr.typesOf]
    exact (ih.1 operators.1 schema).bind fun _ => (ih' ih.2 operators.2).bind fun _ => .ok _

theorem branches {bs : List (Expr × Expr)}
    (ih : ∀ b ∈ bs, b.1.RefinesType capabilities ∧ b.2.RefinesType capabilities)
    (operators : ∀ b ∈ bs, b.1.Everywhere (.refiningOperators capabilities) ∧
      b.2.Everywhere (.refiningOperators capabilities)) (schema : Schema) :
    Refines (Expr.branchTypesOf ⟨true, capabilities⟩ schema bs)
      (Expr.branchTypesOf ⟨false, capabilities⟩ schema bs) := by
  induction bs with
  | nil =>
    rw [Expr.branchTypesOf, Expr.branchTypesOf]
    exact .ok []
  | cons b bs ih' =>
    rw [List.forall_mem_cons] at ih operators
    rw [Expr.branchTypesOf, Expr.branchTypesOf]
    refine (ih.1.1 operators.1.1 schema).bind fun _ =>
      (ih.1.2 operators.1.2 schema).bind fun _ => ?_
    exact (ih' ih.2 operators.2).bind fun _ => .ok _

theorem columns {cs : List (String × Expr)} (ih : ∀ c ∈ cs, c.2.RefinesType capabilities)
    (operators : ∀ c ∈ cs, c.2.Everywhere (.refiningOperators capabilities)) (schema : Schema)
    (grouping : Bool) :
    Refines (Query.columnsOf ⟨true, capabilities⟩ schema grouping cs)
      (Query.columnsOf ⟨false, capabilities⟩ schema grouping cs) := by
  induction cs with
  | nil =>
    rw [Query.columnsOf, Query.columnsOf]
    exact .ok []
  | cons c cs ih' =>
    rw [List.forall_mem_cons] at ih operators
    rw [Query.columnsOf, Query.columnsOf]
    have lenient : (!grouping && (⟨false, capabilities⟩ : TypeCheck).checked && c.2.hasAggregate) =
        false := by simp
    rw [lenient]
    refine .guard (e := .misplacedAggregate c.1) rfl (!grouping && true && c.2.hasAggregate) ?_
    refine (ih.1 operators.1 schema).bind fun _ =>
      (TypeCheck.require_refines _ _ _).bind fun _ => ?_
    exact (ih' ih.2 operators.2).bind fun _ => .ok _

theorem keys {ks : List (Expr × Direction)} (ih : ∀ k ∈ ks, k.1.RefinesType capabilities)
    (operators : ∀ k ∈ ks, k.1.Everywhere (.refiningOperators capabilities)) (schema : Schema) :
    Refines (Query.checkKeys ⟨true, capabilities⟩ schema ks)
      (Query.checkKeys ⟨false, capabilities⟩ schema ks) := by
  induction ks with
  | nil =>
    rw [Query.checkKeys, Query.checkKeys]
    exact .ok ()
  | cons k ks ih' =>
    rw [List.forall_mem_cons] at ih operators
    rw [Query.checkKeys, Query.checkKeys]
    refine (ih.1 operators.1 schema).bind fun _ =>
      (TypeCheck.require_refines _ _ _).bind fun _ => ?_
    exact ih' ih.2 operators.2

/-- Checked mode refines permissive mode, node by node. -/
theorem refinesCases (capabilities : Capabilities) :
    Plan.Cases (Expr.RefinesType capabilities) (Query.RefinesSchema capabilities) where
  attr name := by
    intro _ schema
    rw [Expr.typeOf, Expr.typeOf]
    split
    · exact .ok _
    · exact .error rfl
  const type value := by
    intro _ schema
    rw [Expr.typeOf, Expr.typeOf]
    exact .ok type
  null type := by
    intro _ schema
    rw [Expr.typeOf, Expr.typeOf]
    exact .ok type
  apply op args _ ih := by
    intro operators schema
    rw [Expr.everywhere_apply] at operators
    rw [Expr.typeOf, Expr.typeOf]
    have range : op.RefinesRange capabilities := operators.1.elim Operator.refines_of_standard id
    exact (items ih operators.2 schema).bind range
  tuple es ih := by
    intro operators schema
    rw [Expr.typeOf, Expr.typeOf]
    exact (items ih ((Expr.everywhere_tuple es).1 operators).2 schema).bind fun _ => .ok _
  aggregate fn arg ih := by
    intro operators schema
    rw [Expr.typeOf, Expr.typeOf]
    exact (ih ((Expr.everywhere_aggregate fn arg).1 operators).2 schema).bind fun type =>
      fn.range_refines type
  multiAggregate fn args ih := by
    intro operators schema
    rw [Expr.typeOf, Expr.typeOf]
    refine (items ih ((Expr.everywhere_multiAggregate fn args).1 operators).2 schema).bind
      fun types => ?_
    exact (Refines.forM (fun _ => TypeCheck.require_refines _ _ _) types).bind fun _ => .ok _
  case bs default ihb ihd := by
    intro operators schema
    rw [Expr.everywhere_case] at operators
    rw [Expr.typeOf, Expr.typeOf]
    refine (branches ihb operators.2.1 schema).bind fun types => (ihd operators.2.2 schema).bind
      fun type => ?_
    exact TypeCheck.caseType_refines types type
  scalarSubquery query ih := by
    intro operators schema
    rw [Expr.typeOf, Expr.typeOf]
    exact (ih ((Expr.everywhere_scalarSubquery query).1 operators).2).bind fun inner =>
      inner.onlyType_refines
  setSubquery query ih := by
    intro operators schema
    rw [Expr.typeOf, Expr.typeOf]
    refine (ih ((Expr.everywhere_setSubquery query).1 operators).2).bind fun inner => ?_
    exact inner.onlyType_refines.bind fun _ => .ok _
  empty := by
    intro _
    rw [Query.schemaOf, Query.schemaOf]
    exact .ok _
  table name schema := by
    intro _
    rw [Query.schemaOf, Query.schemaOf]
    exact .ok schema
  galaxy g _ := by
    intro _
    rw [Query.schemaOf, Query.schemaOf]
    exact .ok g.schema
  project cs input ihc ih := by
    intro operators
    rw [Query.everywhere_project] at operators
    rw [Query.schemaOf, Query.schemaOf]
    exact (ih operators.2.2).bind fun inner => (columns ihc operators.2.1 inner false).bind
      fun _ => .ok _
  restrict predicate input ihp ih := by
    intro operators
    rw [Query.everywhere_restrict] at operators
    rw [Query.schemaOf, Query.schemaOf]
    refine (ih operators.2.2).bind fun inner => (ihp operators.2.1 inner).bind fun _ => ?_
    exact (TypeCheck.require_refines _ _ _).bind fun _ => .ok _
  combine op left right ihl ihr := by
    intro operators
    rw [Query.everywhere_combine] at operators
    rw [Query.schemaOf, Query.schemaOf]
    refine (ihl operators.2.1).bind fun leftSchema => (ihr operators.2.2).bind fun rightSchema => ?_
    exact Schema.combine_refines op leftSchema rightSchema
  grouping cs input ihc ih := by
    intro operators
    rw [Query.everywhere_grouping] at operators
    rw [Query.schemaOf, Query.schemaOf]
    exact (ih operators.2.2).bind fun inner => (columns ihc operators.2.1 inner true).bind
      fun _ => .ok _
  order ks input ihk ih := by
    intro operators
    rw [Query.everywhere_order] at operators
    rw [Query.schemaOf, Query.schemaOf]
    exact (ih operators.2.2).bind fun inner => (keys ihk operators.2.1 inner).bind fun _ => .ok _
  top offset count input ih := by
    intro operators
    rw [Query.schemaOf, Query.schemaOf]
    exact ih ((Query.everywhere_top offset count input).1 operators).2

end CheckedMode

/-- Checked inference refines permissive inference, of schemas and of types: over the standard
operators and all others whose ranges do so. -/
theorem Query.checkSchema_refines_inferSchema (capabilities : Capabilities) :
    (∀ q : Query, q.Everywhere (.refiningOperators capabilities) →
      Refines (q.checkSchema capabilities) (q.inferSchema capabilities)) ∧
    ∀ e : Expr, e.Everywhere (.refiningOperators capabilities) → ∀ schema,
      Refines (e.typeOf ⟨true, capabilities⟩ schema) (e.typeOf ⟨false, capabilities⟩ schema) :=
  ⟨(CheckedMode.refinesCases capabilities).query, (CheckedMode.refinesCases capabilities).expr⟩

namespace Sample

theorem nickname_refines : nickname.RefinesRange .empty := by
  intro types
  dsimp only [nickname]
  split
  · exact (TypeCheck.require_refines _ _ _).bind fun _ => .ok _
  · exact .ok _

/-- The greater of the nickname of an attribute and of a number. -/
def greaterNickname (name : String) : Expr := .apply greater [.apply nickname [.attr name], one]

theorem greaterNickname_operators (name : String) :
    (greaterNickname name).Everywhere (.refiningOperators .empty) := by
  simp only [greaterNickname, one, Expr.everywhere_apply, List.forall_mem_cons, List.not_mem_nil,
    false_implies, implies_true, and_true, Expr.everywhere_attr, Expr.everywhere_const]
  exact ⟨.inr (Operator.ofSignature_refines _ _ _ _), ⟨.inr nickname_refines, trivial⟩, trivial⟩

/-- The nicknames of texts, compared with a number. -/
def greaterNicknames : Query := .project [("n", greaterNickname "b")] tableT

theorem greaterNicknames_operators : greaterNicknames.Everywhere (.refiningOperators .empty) := by
  refine (Query.everywhere_project _ _).2 ⟨trivial,
    List.forall_mem_singleton.2 (greaterNickname_operators "b"), ?_⟩
  exact (Query.everywhere_table _ _).2 trivial

/-- A nickname is no number, which permissive mode passes over, and that of an unknown attribute a
fault in both modes. -/
theorem nicknames_refine :
    greaterNicknames.checkSchema .empty = .error (.typeViolation "numeric type" "string") ∧
      greaterNicknames.inferSchema .empty = .ok ⟨[("n", .string)]⟩ ∧
      Refines (greaterNicknames.checkSchema .empty) (greaterNicknames.inferSchema .empty) ∧
      (greaterNickname "z").typeOf ⟨true, .empty⟩ .empty = .error (.unknownAttribute "z") ∧
      Refines ((greaterNickname "z").typeOf ⟨true, .empty⟩ .empty)
        ((greaterNickname "z").typeOf ⟨false, .empty⟩ .empty) ∧
      ∃ fault, (greaterNickname "z").typeOf ⟨true, .empty⟩ .empty = .error fault := by
  have refines :=
    (Query.checkSchema_refines_inferSchema .empty).2 _ (greaterNickname_operators "z") .empty
  exact ⟨rfl, rfl, (Query.checkSchema_refines_inferSchema .empty).1 _ greaterNicknames_operators,
    rfl, refines, refines.refuses _ rfl⟩

end Sample

end FlatPlan
