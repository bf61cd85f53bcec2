import Mathlib.Data.List.Forall2
import FlatPlan.Proofs.Everywhere
import FlatPlan.Proofs.Operators
import FlatPlan.Proofs.Schemas

/-!
# Typing over a vocabulary

The types of a list of expressions, of branches, of columns and of keys, each as a statement about
its members. Main statements: over a vocabulary every inferred type is made of its base types, and
what checked mode accepts permissive mode accepts with the same result (`Expr.typeOf_permissive`,
`Query.schemaOf_permissive`).
-/

namespace FlatPlan

variable {v : Vocabulary} {check : TypeCheck} {schema : Schema}

/-! ## Lists -/

/-- A list is mapped without error exactly if each of its items is. -/
theorem mapM_eq_ok {ε α β : Type} {f : α → Except ε β} {as : List α} {bs : List β} :
    as.mapM f = .ok bs ↔ List.Forall₂ (fun a b => f a = .ok b) as bs := by
  induction as generalizing bs with
  | nil => rw [List.mapM_nil, pure_eq_ok, List.forall₂_nil_left_iff]
  | cons a as ih =>
    simp only [List.mapM_cons, bind_eq_ok, pure_eq_ok, ih, List.forall₂_cons_left_iff]
    constructor
    · rintro ⟨b, first, rest, others, rfl⟩
      exact ⟨b, rest, first, others, rfl⟩
    · rintro ⟨b, rest, first, others, rfl⟩
      exact ⟨b, first, rest, others, rfl⟩

/-- A member of the second list has a partner in the first. -/
theorem exists_of_mem_right {α β : Type} {related : α → β → Prop} {as : List α} {bs : List β}
    (h : List.Forall₂ related as bs) {b : β} (member : b ∈ bs) : ∃ a ∈ as, related a b := by
  induction h with
  | nil => cases member
  | cons first _ ih =>
    rcases List.mem_cons.1 member with rfl | member
    · exact ⟨_, List.mem_cons_self, first⟩
    · obtain ⟨a, among, found⟩ := ih member
      exact ⟨a, List.mem_cons_of_mem _ among, found⟩

/-- Partners of the single members make up a list. -/
theorem exists_forall₂_of_mem {α β : Type} {related : α → β → Prop} {as : List α}
    (each : ∀ a ∈ as, ∃ b, related a b) : ∃ bs, List.Forall₂ related as bs := by
  induction as with
  | nil => exact ⟨[], .nil⟩
  | cons a as ih =>
    rw [List.forall_mem_cons] at each
    obtain ⟨b, first⟩ := each.1
    obtain ⟨bs, rest⟩ := ih each.2
    exact ⟨b :: bs, .cons first rest⟩

theorem exists_forall₂_both {α β : Type} {first second : α → β → Prop} {as : List α}
    (each : ∀ a ∈ as, ∃ b, first a b ∧ second a b) :
    ∃ bs, List.Forall₂ first as bs ∧ List.Forall₂ second as bs := by
  obtain ⟨bs, both⟩ := exists_forall₂_of_mem each
  exact ⟨bs, both.imp fun _ _ own => own.1, both.imp fun _ _ own => own.2⟩

/-- Lists that are related item by item stay so under a weaker relation; the implication may use
that both items are members. -/
theorem forall₂_imp_of_mem {α β : Type} {related implied : α → β → Prop} {as : List α} {bs : List β}
    (h : List.Forall₂ related as bs) (imp : ∀ a ∈ as, ∀ b ∈ bs, related a b → implied a b) :
    List.Forall₂ implied as bs := by
  induction h with
  | nil => exact .nil
  | cons first _ ih =>
    refine .cons (imp _ List.mem_cons_self _ List.mem_cons_self first)
      (ih fun a among b member => ?_)
    exact imp a (List.mem_cons_of_mem _ among) b (List.mem_cons_of_mem _ member)

/-- What is related to two lists, one after the other, falls into two parts. -/
theorem exists_of_forall₂_append {α β : Type} {related : α → β → Prop} {as bs : List α}
    {cs : List β} (h : List.Forall₂ related (as ++ bs) cs) :
    ∃ ss ts, cs = ss ++ ts ∧ List.Forall₂ related as ss ∧ List.Forall₂ related bs ts :=
  ⟨cs.take as.length, cs.drop as.length, (List.take_append_drop _ _).symm,
    (List.forall₂_take_append cs as bs h.flip).flip,
    (List.forall₂_drop_append cs as bs h.flip).flip⟩

/-- The types of expressions are found one after the other. -/
theorem Expr.typesOf_eq_mapM (es : List Expr) :
    Expr.typesOf check schema es = es.mapM fun e => e.typeOf check schema := by
  induction es with
  | nil => rw [Expr.typesOf, List.mapM_nil]; rfl
  | cons e es ih => rw [Expr.typesOf, List.mapM_cons, ih]

/-- The types of expressions are one type each, in order. -/
theorem Expr.typesOf_eq_ok {es : List Expr} {types : List Ty} :
    Expr.typesOf check schema es = .ok types ↔
      List.Forall₂ (fun e type => e.typeOf check schema = .ok type) es types := by
  rw [Expr.typesOf_eq_mapM, mapM_eq_ok]

/-- The types of branches are a type for each condition and for each result, in order. -/
theorem Expr.branchTypesOf_eq_ok {branches : List (Expr × Expr)} {types : List (Ty × Ty)} :
    Expr.branchTypesOf check schema branches = .ok types ↔
      List.Forall₂ (fun b type => b.1.typeOf check schema = .ok type.1 ∧
        b.2.typeOf check schema = .ok type.2) branches types := by
  induction branches generalizing types with
  | nil =>
    rw [Expr.branchTypesOf, List.forall₂_nil_left_iff, Except.ok.injEq, eq_comm]
  | cons b branches ih =>
    obtain ⟨condition, result⟩ := b
    simp only [Expr.branchTypesOf, bind_eq_ok, pure_eq_ok, ih,
      List.forall₂_cons_left_iff, Prod.exists]
    constructor
    · rintro ⟨c, hc, r, hr, rest, others, rfl⟩
      exact ⟨c, r, rest, ⟨hc, hr⟩, others, rfl⟩
    · rintro ⟨c, r, rest, ⟨hc, hr⟩, others, rfl⟩
      exact ⟨c, hc, r, hr, rest, others, rfl⟩

/-- What is asked of a projected column: no misplaced aggregation, and a type that is no product. -/
structure Query.ColumnOf (check : TypeCheck) (schema : Schema) (grouping : Bool) (c : String × Expr)
    (column : Column) : Prop where
  name : column.1 = c.1
  placed : (!grouping && check.checked && c.2.hasAggregate) = false
  typed : c.2.typeOf check schema = .ok column.2
  noProduct : check.require (!column.2.isProduct) "scalar type" column.2.text = .ok ()

/-- The columns of a projection are one column for each expression, in order. -/
theorem Query.columnsOf_eq_ok {grouping : Bool} {cs : List (String × Expr)}
    {columns : List Column} :
    Query.columnsOf check schema grouping cs = .ok columns ↔
      List.Forall₂ (Query.ColumnOf check schema grouping) cs columns := by
  induction cs generalizing columns with
  | nil =>
    rw [Query.columnsOf, List.forall₂_nil_left_iff, Except.ok.injEq, eq_comm]
  | cons c cs ih =>
    obtain ⟨name, e⟩ := c
    rw [Query.columnsOf, List.forall₂_cons_left_iff]
    cases misplaced : !grouping && check.checked && e.hasAggregate with
    | true =>
      simp only [if_true, bind_eq_ok, throw_ne_ok, false_and, exists_const, false_iff]
      rintro ⟨column, rest, one, _, _⟩
      exact absurd (misplaced.symm.trans one.placed) (by simp)
    | false =>
      simp only [Bool.false_eq_true, if_false, bind_eq_ok, pure_eq_ok, ih]
      constructor
      · rintro ⟨type, typed, _, scalar, rest, others, rfl⟩
        exact ⟨(name, type), rest, ⟨rfl, misplaced, typed, scalar⟩, others, rfl⟩
      · rintro ⟨⟨_, type⟩, rest, one, others, rfl⟩
        obtain ⟨rfl, _, typed, scalar⟩ := one
        exact ⟨type, typed, (), scalar, rest, others, rfl⟩

/-- Ordering keys are accepted exactly if each of them has an ordered type. -/
theorem Query.checkKeys_eq_ok {keys : List (Expr × Direction)} :
    Query.checkKeys check schema keys = .ok () ↔
      ∀ k ∈ keys, ∃ type, k.1.typeOf check schema = .ok type ∧
        check.expectOrdered type = .ok () := by
  induction keys with
  | nil => simp [Query.checkKeys]
  | cons k keys ih =>
    obtain ⟨e, direction⟩ := k
    simp only [Query.checkKeys, bind_eq_ok, ih, List.forall_mem_cons]
    constructor
    · rintro ⟨type, typed, _, ordered, rest⟩
      exact ⟨⟨type, typed, ordered⟩, rest⟩
    · rintro ⟨⟨type, typed, ordered⟩, rest⟩
      exact ⟨type, typed, (), ordered, rest⟩

/-! ## Single nodes -/

attribute [local simp] Expr.typeOf Query.schemaOf

/-- The type of an aggregation whose argument is accepted. -/
def Aggregate.resultType (arg : Ty) : Aggregate → Ty
  | .count => .integer
  | .sum | .min | .max => arg
  | .avg | .stddev | .stddevPop | .variance | .variancePop => .float

/-- An aggregation is accepted if its argument is numeric or ordered where that is needed. -/
theorem Aggregate.range_eq_ok {fn : Aggregate} {arg type : Ty} :
    fn.range check arg = .ok type ↔
      (fn.needsNumeric = true → check.expectNumeric arg = .ok ()) ∧
        (fn.needsOrdered = true → check.expectOrdered arg = .ok ()) ∧ type = fn.resultType arg := by
  cases fn <;>
    simp only [Aggregate.range, Aggregate.needsNumeric, Aggregate.needsOrdered,
      Aggregate.resultType, bind_eq_ok, pure_eq_ok, if_true, if_false, Bool.false_eq_true,
      false_implies, true_implies, true_and, Unique.exists_iff, PUnit.default_eq_unit]

/-- Only a schema of one column has a single type. -/
theorem Schema.onlyType_eq_ok {type : Ty} :
    schema.onlyType = .ok type ↔ ∃ name, schema.columns = [(name, type)] := by
  unfold Schema.onlyType
  split
  case h_1 name only equal =>
    rw [equal, Except.ok.injEq]
    constructor
    · rintro rfl
      exact ⟨name, rfl⟩
    · rintro ⟨_, same⟩
      cases same
      rfl
  case h_2 columns several =>
    simp only [reduceCtorEq, false_iff, not_exists]
    intro name equal
    exact several name type equal

namespace Expr

theorem typeOf_attr {name : String} {type : Ty} :
    (Expr.attr name).typeOf check schema = .ok type ↔ schema.get? name = some type := by
  rw [typeOf]
  cases schema.get? name <;> simp

theorem typeOf_const {own type : Ty} {value : Value} :
    (Expr.const own value).typeOf check schema = .ok type ↔ type = own := by
  rw [typeOf, Except.ok.injEq, eq_comm]

theorem typeOf_null {own type : Ty} : (Expr.null own).typeOf check schema = .ok type ↔
    type = own := by
  rw [typeOf, Except.ok.injEq, eq_comm]

/-- An application has the type that the operator gives to the types of its arguments. -/
theorem typeOf_apply {op : Operator} {args : List Expr} {type : Ty} :
    (Expr.apply op args).typeOf check schema = .ok type ↔
      ∃ types, typesOf check schema args = .ok types ∧ op.range check types = .ok type := by
  rw [typeOf, bind_eq_ok]

theorem typeOf_tuple {items : List Expr} {type : Ty} :
    (Expr.tuple items).typeOf check schema = .ok type ↔
      ∃ types, typesOf check schema items = .ok types ∧ type = .product types := by
  simp only [typeOf, bind_eq_ok, pure_eq_ok]

theorem typeOf_aggregate {fn : Aggregate} {arg : Expr} {type : Ty} :
    (Expr.aggregate fn arg).typeOf check schema = .ok type ↔
      ∃ argType, arg.typeOf check schema = .ok argType ∧ fn.range check argType = .ok type := by
  rw [typeOf, bind_eq_ok]

theorem typeOf_multiAggregate {fn : MultiAggregate} {args : List Expr} {type : Ty} :
    (Expr.multiAggregate fn args).typeOf check schema = .ok type ↔
      ∃ types, typesOf check schema args = .ok types ∧ check.expectAllNumeric types = .ok () ∧
        type = .float := by
  simp only [typeOf, bind_eq_ok, pure_eq_ok, Unique.exists_iff, PUnit.default_eq_unit]

/-- The type of a choice is found from the types of all its branches and of its default. -/
theorem typeOf_case {branches : List (Expr × Expr)} {default : Expr} {type : Ty} :
    (Expr.case branches default).typeOf check schema = .ok type ↔
      ∃ types, branchTypesOf check schema branches = .ok types ∧
        ∃ defaultType, default.typeOf check schema = .ok defaultType ∧
          check.caseType types defaultType = .ok type := by
  simp only [typeOf, bind_eq_ok]

/-- A scalar subquery has the type of the only column of its query. -/
theorem typeOf_scalarSubquery {query : Query} {type : Ty} :
    (Expr.scalarSubquery query).typeOf check schema = .ok type ↔
      ∃ inner, query.schemaOf check = .ok inner ∧ inner.onlyType = .ok type := by
  rw [typeOf, bind_eq_ok]

/-- A set subquery has the type of the sets over the only column of its query. -/
theorem typeOf_setSubquery {query : Query} {type : Ty} :
    (Expr.setSubquery query).typeOf check schema = .ok type ↔
      ∃ inner, query.schemaOf check = .ok inner ∧
        ∃ member, inner.onlyType = .ok member ∧ type = .set member := by
  simp only [typeOf, bind_eq_ok, pure_eq_ok]

end Expr

namespace Query

theorem schemaOf_empty : Query.empty.schemaOf check = .ok schema ↔ schema = .empty := by
  rw [schemaOf, Except.ok.injEq, eq_comm]

theorem schemaOf_table {name : String} {own : Schema} :
    (Query.table name own).schemaOf check = .ok schema ↔ schema = own := by
  rw [schemaOf, Except.ok.injEq, eq_comm]

/-- A galaxy has one column of its own name and type. The query behind it is not looked at. -/
theorem schemaOf_galaxy {g : Galaxy} : (Query.galaxy g).schemaOf check = .ok schema ↔
    schema = g.schema := by
  rw [schemaOf, Except.ok.injEq, eq_comm]

/-- A projection of either kind has the columns that are found over the schema of its input. -/
theorem projected_eq_ok {inferred : Except Error Schema} {grouping : Bool}
    {columns : List (String × Expr)} :
    (do let inner ← inferred
        return Schema.mk (← columnsOf check inner grouping columns)) = .ok schema ↔
      ∃ inner, inferred = .ok inner ∧
        columnsOf check inner grouping columns = .ok schema.columns := by
  simp only [bind_eq_ok, pure_eq_ok]
  constructor
  · rintro ⟨inner, infer, outer, columns, rfl⟩
    exact ⟨inner, infer, columns⟩
  · rintro ⟨inner, infer, columns⟩
    exact ⟨inner, infer, _, columns, rfl⟩

theorem schemaOf_project {columns : List (String × Expr)} {input : Query} :
    (Query.project columns input).schemaOf check = .ok schema ↔
      ∃ inner, input.schemaOf check = .ok inner ∧
        columnsOf check inner false columns = .ok schema.columns := by
  rw [schemaOf]
  exact projected_eq_ok

theorem schemaOf_grouping {columns : List (String × Expr)} {input : Query} :
    (Query.grouping columns input).schemaOf check = .ok schema ↔
      ∃ inner, input.schemaOf check = .ok inner ∧
        columnsOf check inner true columns = .ok schema.columns := by
  rw [schemaOf]
  exact projected_eq_ok

/-- A restriction keeps the columns of its input, over which its predicate is a boolean. -/
theorem schemaOf_restrict {predicate : Expr} {input : Query} :
    (Query.restrict predicate input).schemaOf check = .ok schema ↔
      input.schemaOf check = .ok schema ∧
        ∃ type, predicate.typeOf check schema = .ok type ∧ check.expect .boolean type = .ok () := by
  simp only [schemaOf, bind_eq_ok, pure_eq_ok, Unique.exists_iff, PUnit.default_eq_unit]
  constructor
  · rintro ⟨inner, infer, type, typed, expected, rfl⟩
    exact ⟨infer, type, typed, expected⟩
  · rintro ⟨infer, type, typed, expected⟩
    exact ⟨schema, infer, type, typed, expected, rfl⟩

/-- The schema of a combination is found from the schemas of its operands alone. -/
theorem schemaOf_combine {op : CombineOp} {left right : Query} :
    (Query.combine op left right).schemaOf check = .ok schema ↔
      ∃ leftSchema, left.schemaOf check = .ok leftSchema ∧
        ∃ rightSchema, right.schemaOf check = .ok rightSchema ∧
          Schema.combine check op leftSchema rightSchema = .ok schema := by
  simp only [schemaOf, bind_eq_ok]

/-- An ordering keeps the columns of its input, over which its keys are ordered. -/
theorem schemaOf_order {keys : List (Expr × Direction)} {input : Query} :
    (Query.order keys input).schemaOf check = .ok schema ↔
      input.schemaOf check = .ok schema ∧ checkKeys check schema keys = .ok () := by
  simp only [schemaOf, bind_eq_ok, pure_eq_ok, Unique.exists_iff, PUnit.default_eq_unit]
  constructor
  · rintro ⟨inner, infer, ordered, rfl⟩
    exact ⟨infer, ordered⟩
  · rintro ⟨infer, ordered⟩
    exact ⟨schema, infer, ordered, rfl⟩

theorem schemaOf_top {offset count : UInt64} {input : Query} :
    (Query.top offset count input).schemaOf check = .ok schema ↔
      input.schemaOf check = .ok schema := by
  rw [schemaOf]

end Query

/-! ## Inferred types -/

/-- Whether all types of a schema are made of base types of the vocabulary. -/
def Schema.NamedBy (v : Vocabulary) (schema : Schema) : Prop := ∀ c ∈ schema.columns, v.Names c.2

/-- A node whose types and operators are those of the vocabulary. -/
def Vocabulary.wording (v : Vocabulary) : NodeProperty where
  expr
    | .const type _ | .null type => v.Names type
    | .apply op _ => op.Regular v
    | _ => True
  query
    | .table _ schema => schema.NamedBy v
    | .galaxy g => v.Names g.type
    | _ => True

namespace Typing

/-- An expression has the same type in both modes, if it has one in checked mode. -/
def ExprAgrees (v : Vocabulary) (e : Expr) : Prop :=
  e.Everywhere v.wording → ∀ {schema : Schema} {type : Ty}, schema.NamedBy v →
    e.typeOf v.checked schema = .ok type → v.Names type ∧ e.typeOf v.permissive schema = .ok type

/-- A query has the same schema in both modes, if it has one in checked mode. -/
def QueryAgrees (v : Vocabulary) (q : Query) : Prop :=
  q.Everywhere v.wording → ∀ {schema : Schema}, q.schemaOf v.checked = .ok schema →
    schema.NamedBy v ∧ q.schemaOf v.permissive = .ok schema

/-- Both modes find the same types of expressions, since they do of each of them. -/
theorem agrees_items {es : List Expr} {types : List Ty} (agree : ∀ e ∈ es, ExprAgrees v e)
    (words : ∀ e ∈ es, e.Everywhere v.wording) (named : schema.NamedBy v)
    (h : Expr.typesOf v.checked schema es = .ok types) :
    (∀ t ∈ types, v.Names t) ∧ Expr.typesOf v.permissive schema es = .ok types := by
  rw [Expr.typesOf_eq_ok] at h ⊢
  induction h with
  | nil => exact ⟨by simp, .nil⟩
  | cons first rest ih =>
    rw [List.forall_mem_cons] at agree words
    obtain ⟨namedFirst, typed⟩ := agree.1 words.1 named first
    obtain ⟨namedRest, others⟩ := ih agree.2 words.2
    exact ⟨List.forall_mem_cons.2 ⟨namedFirst, namedRest⟩, .cons typed others⟩

/-- Both modes find the same types of branches. -/
theorem agrees_branches {branches : List (Expr × Expr)} {types : List (Ty × Ty)}
    (agree : ∀ b ∈ branches, ExprAgrees v b.1 ∧ ExprAgrees v b.2)
    (words : ∀ b ∈ branches, b.1.Everywhere v.wording ∧ b.2.Everywhere v.wording)
    (named : schema.NamedBy v) (h : Expr.branchTypesOf v.checked schema branches = .ok types) :
    (∀ t ∈ types, v.Names t.1 ∧ v.Names t.2) ∧
      Expr.branchTypesOf v.permissive schema branches = .ok types := by
  rw [Expr.branchTypesOf_eq_ok] at h ⊢
  induction h with
  | nil => exact ⟨by simp, .nil⟩
  | cons first rest ih =>
    rw [List.forall_mem_cons] at agree words
    obtain ⟨namedCondition, condition⟩ := agree.1.1 words.1.1 named first.1
    obtain ⟨namedResult, result⟩ := agree.1.2 words.1.2 named first.2
    obtain ⟨namedRest, others⟩ := ih agree.2 words.2
    exact ⟨List.forall_mem_cons.2 ⟨⟨namedCondition, namedResult⟩, namedRest⟩,
      .cons ⟨condition, result⟩ others⟩

/-- Both modes find the same columns of a projection. Permissive mode does not ask where
aggregations stand. -/
theorem agrees_columns {grouping : Bool} {cs : List (String × Expr)} {columns : List Column}
    (agree : ∀ c ∈ cs, ExprAgrees v c.2) (words : ∀ c ∈ cs, c.2.Everywhere v.wording)
    (named : schema.NamedBy v) (h : Query.columnsOf v.checked schema grouping cs = .ok columns) :
    (∀ c ∈ columns, v.Names c.2) ∧
      Query.columnsOf v.permissive schema grouping cs = .ok columns := by
  rw [Query.columnsOf_eq_ok] at h ⊢
  induction h with
  | nil => exact ⟨by simp, .nil⟩
  | cons first rest ih =>
    rw [List.forall_mem_cons] at agree words
    obtain ⟨namedFirst, typed⟩ := agree.1 words.1 named first.typed
    obtain ⟨namedRest, others⟩ := ih agree.2 words.2
    refine ⟨List.forall_mem_cons.2 ⟨namedFirst, namedRest⟩, .cons ?_ others⟩
    exact ⟨first.name, by simp [Session.permissive], typed, Session.require_permissive⟩

/-- Permissive mode finds the type of a choice that checked mode finds. -/
theorem caseType_permissive {branches : List (Ty × Ty)} {default type : Ty}
    (h : v.checked.caseType branches default = .ok type) :
    v.permissive.caseType branches default = .ok type := by
  induction branches generalizing type with
  | nil => exact h
  | cons branch branches ih =>
    obtain ⟨rest, before, _, unified⟩ := Vocabulary.caseType_checked.1 h
    rw [Vocabulary.caseType_cons]
    simp only [bind_eq_ok]
    refine ⟨rest, ih before, (), Session.require_permissive, ?_⟩
    unfold TypeCheck.unify at unified ⊢
    split
    · simp_all
    · split
      · simp_all
      · simp_all [TypeCheck.require, Session.checked, bind, Except.bind]

/-- Permissive mode finds the schema of a combination that checked mode finds. A product that
checked mode accepts has no column in common that permissive mode would drop. -/
theorem combine_permissive {op : CombineOp} {left right schema : Schema} (hl : left.NamedBy v)
    (hr : right.NamedBy v) (h : Schema.combine v.checked op left right = .ok schema) :
    schema.NamedBy v ∧ Schema.combine v.permissive op left right = .ok schema := by
  have setOperation : ∀ op, Schema.matching v.checked op left right = .ok schema →
      schema.NamedBy v ∧ Schema.matching v.permissive op left right = .ok schema := by
    intro op h
    obtain ⟨rfl, rfl⟩ := (Schema.matching_checked hl hr).1 h
    exact ⟨hl, rfl⟩
  cases op with
  | product =>
    obtain ⟨apart, rfl⟩ := Schema.product_checked.1 h
    refine ⟨fun c member => ?_, Schema.product_of_apart apart⟩
    rcases List.mem_append.1 member with member | member
    · exact hl c member
    · exact hr c member
  | quotient =>
    obtain ⟨_, rfl⟩ := Schema.quotient_eq_ok.1 h
    refine ⟨fun c member => hl c (List.mem_filter.1 member).1, ?_⟩
    exact Schema.quotient_eq_ok.2 ⟨fun _ _ _ _ => Session.require_permissive, rfl⟩
  | union => exact setOperation .union h
  | intersection => exact setOperation .intersection h
  | difference => exact setOperation .difference h

/-- Permissive mode finds the type of an aggregation that checked mode finds. -/
theorem range_permissive {fn : Aggregate} {arg type : Ty} (named : v.Names arg)
    (h : fn.range v.checked arg = .ok type) :
    v.Names type ∧ fn.range v.permissive arg = .ok type := by
  rw [Aggregate.range_eq_ok] at h ⊢
  obtain ⟨_, _, rfl⟩ := h
  refine ⟨?_, fun _ => Session.require_permissive, fun _ => Session.require_permissive, rfl⟩
  cases fn <;> first | exact named | exact Vocabulary.names_integer | exact Vocabulary.names_float

theorem expectAllNumeric_permissive (types : List Ty) :
    v.permissive.expectAllNumeric types = .ok () := by
  induction types with
  | nil => rfl
  | cons type types ih =>
    rw [TypeCheck.expectAllNumeric, List.forM, bind_eq_ok]
    exact ⟨(), Session.require_permissive, ih⟩

/-- The type of a subquery is made of base types of the vocabulary, if all its columns are. -/
theorem names_of_onlyType {type : Ty} (named : schema.NamedBy v) (h : schema.onlyType = .ok type) :
    v.Names type := by
  obtain ⟨name, equal⟩ := Schema.onlyType_eq_ok.1 h
  exact named (name, type) (by simp [equal])

theorem agrees_attr (name : String) : ExprAgrees v (.attr name) := by
  intro _ schema type named h
  rw [Expr.typeOf_attr] at h ⊢
  exact ⟨named _ (Schema.mem_of_get? h), h⟩

theorem agrees_const (own : Ty) (value : Value) : ExprAgrees v (.const own value) := by
  intro words schema type _ h
  rw [Expr.typeOf_const] at h ⊢
  rw [Expr.everywhere_const] at words
  exact ⟨h ▸ words, h⟩

theorem agrees_null (own : Ty) : ExprAgrees v (.null own) := by
  intro words schema type _ h
  rw [Expr.typeOf_null] at h ⊢
  rw [Expr.everywhere_null] at words
  exact ⟨h ▸ words, h⟩

/-- Both modes find the same type of an application, since the operators of a vocabulary are
regular. -/
theorem agrees_apply (op : Operator) (args : List Expr) (ih : ∀ e ∈ args, ExprAgrees v e) :
    ExprAgrees v (.apply op args) := by
  intro words schema type named h
  rw [Expr.typeOf_apply] at h ⊢
  rw [Expr.everywhere_apply] at words
  obtain ⟨types, typed, range⟩ := h
  obtain ⟨namedTypes, permissive⟩ := agrees_items ih words.2 named typed
  obtain ⟨namedType, accepted⟩ := Operator.Regular.range_permissive words.1 namedTypes range
  exact ⟨namedType, types, permissive, accepted⟩

theorem agrees_tuple (items : List Expr) (ih : ∀ e ∈ items, ExprAgrees v e) :
    ExprAgrees v (.tuple items) := by
  intro words schema type named h
  rw [Expr.typeOf_tuple] at h ⊢
  rw [Expr.everywhere_tuple] at words
  obtain ⟨types, typed, rfl⟩ := h
  obtain ⟨namedTypes, permissive⟩ := agrees_items ih words.2 named typed
  exact ⟨(Ty.allNamedIn_iff types).2 namedTypes, types, permissive, rfl⟩

theorem agrees_aggregate (fn : Aggregate) (arg : Expr) (ih : ExprAgrees v arg) :
    ExprAgrees v (.aggregate fn arg) := by
  intro words schema type named h
  rw [Expr.typeOf_aggregate] at h ⊢
  rw [Expr.everywhere_aggregate] at words
  obtain ⟨argType, typed, range⟩ := h
  obtain ⟨namedArg, permissive⟩ := ih words.2 named typed
  obtain ⟨namedType, accepted⟩ := range_permissive namedArg range
  exact ⟨namedType, argType, permissive, accepted⟩

theorem agrees_multiAggregate (fn : MultiAggregate) (args : List Expr)
    (ih : ∀ e ∈ args, ExprAgrees v e) : ExprAgrees v (.multiAggregate fn args) := by
  intro words schema type named h
  rw [Expr.typeOf_multiAggregate] at h ⊢
  rw [Expr.everywhere_multiAggregate] at words
  obtain ⟨types, typed, _, rfl⟩ := h
  obtain ⟨_, permissive⟩ := agrees_items ih words.2 named typed
  exact ⟨Vocabulary.names_float, types, permissive, expectAllNumeric_permissive types, rfl⟩

/-- Both modes find the same type of a choice. -/
theorem agrees_case (branches : List (Expr × Expr)) (default : Expr)
    (ihb : ∀ b ∈ branches, ExprAgrees v b.1 ∧ ExprAgrees v b.2) (ihd : ExprAgrees v default) :
    ExprAgrees v (.case branches default) := by
  intro words schema type named h
  rw [Expr.typeOf_case] at h ⊢
  rw [Expr.everywhere_case] at words
  obtain ⟨types, typed, defaultType, typedDefault, chosen⟩ := h
  obtain ⟨namedTypes, permissive⟩ := agrees_branches ihb words.2.1 named typed
  obtain ⟨namedDefault, permissiveDefault⟩ := ihd words.2.2 named typedDefault
  exact ⟨(Vocabulary.nonNull_caseType namedTypes namedDefault chosen).1, types, permissive,
    defaultType, permissiveDefault, caseType_permissive chosen⟩

theorem agrees_scalarSubquery (query : Query) (ih : QueryAgrees v query) :
    ExprAgrees v (.scalarSubquery query) := by
  intro words schema type _ h
  rw [Expr.typeOf_scalarSubquery] at h ⊢
  rw [Expr.everywhere_scalarSubquery] at words
  obtain ⟨inner, infer, only⟩ := h
  obtain ⟨namedInner, permissive⟩ := ih words.2 infer
  exact ⟨names_of_onlyType namedInner only, inner, permissive, only⟩

theorem agrees_setSubquery (query : Query) (ih : QueryAgrees v query) :
    ExprAgrees v (.setSubquery query) := by
  intro words schema type _ h
  rw [Expr.typeOf_setSubquery] at h ⊢
  rw [Expr.everywhere_setSubquery] at words
  obtain ⟨inner, infer, member, only, rfl⟩ := h
  obtain ⟨namedInner, permissive⟩ := ih words.2 infer
  have namedMember : v.Names member := names_of_onlyType namedInner only
  exact ⟨namedMember, inner, permissive, member, only, rfl⟩

theorem agrees_empty : QueryAgrees v .empty := by
  intro _ schema h
  rw [Query.schemaOf_empty] at h ⊢
  rw [h]
  exact ⟨fun _ member => (nomatch member), rfl⟩

theorem agrees_table (name : String) (own : Schema) : QueryAgrees v (.table name own) := by
  intro words schema h
  rw [Query.schemaOf_table] at h ⊢
  rw [Query.everywhere_table] at words
  exact ⟨h ▸ words, h⟩

/-- The schema of a galaxy does not depend on the mode. -/
theorem agrees_galaxy (g : Galaxy) : QueryAgrees v (.galaxy g) := by
  intro words schema h
  rw [Query.schemaOf_galaxy] at h ⊢
  rw [Query.everywhere_galaxy] at words
  refine ⟨fun c member => ?_, h⟩
  rw [h] at member
  rw [List.mem_singleton.1 member]
  exact words.1

/-- Both kinds of projection agree once the columns and the input do. -/
theorem agrees_columnsOver {grouping : Bool} {columns : List (String × Expr)} {input : Query}
    (ihc : ∀ c ∈ columns, ExprAgrees v c.2) (ih : QueryAgrees v input)
    (words : (∀ c ∈ columns, c.2.Everywhere v.wording) ∧ input.Everywhere v.wording)
    (h : ∃ inner, input.schemaOf v.checked = .ok inner ∧
      Query.columnsOf v.checked inner grouping columns = .ok schema.columns) :
    schema.NamedBy v ∧ ∃ inner, input.schemaOf v.permissive = .ok inner ∧
      Query.columnsOf v.permissive inner grouping columns = .ok schema.columns := by
  obtain ⟨inner, infer, typed⟩ := h
  obtain ⟨namedInner, permissive⟩ := ih words.2 infer
  obtain ⟨namedColumns, permissiveColumns⟩ := agrees_columns ihc words.1 namedInner typed
  exact ⟨namedColumns, inner, permissive, permissiveColumns⟩

theorem agrees_project (columns : List (String × Expr)) (input : Query)
    (ihc : ∀ c ∈ columns, ExprAgrees v c.2) (ih : QueryAgrees v input) :
    QueryAgrees v (.project columns input) := by
  intro words schema h
  rw [Query.schemaOf_project] at h ⊢
  rw [Query.everywhere_project] at words
  exact agrees_columnsOver ihc ih words.2 h

/-- A predicate that checked mode found to be a boolean is not looked at again in permissive mode.
-/
theorem agrees_restrict (predicate : Expr) (input : Query) (ihp : ExprAgrees v predicate)
    (ih : QueryAgrees v input) : QueryAgrees v (.restrict predicate input) := by
  intro words schema h
  rw [Query.schemaOf_restrict] at h ⊢
  rw [Query.everywhere_restrict] at words
  obtain ⟨infer, type, typed, _⟩ := h
  obtain ⟨named, permissive⟩ := ih words.2.2 infer
  obtain ⟨_, permissivePredicate⟩ := ihp words.2.1 named typed
  exact ⟨named, permissive, type, permissivePredicate, Session.require_permissive⟩

theorem agrees_combine (op : CombineOp) (left right : Query) (ihl : QueryAgrees v left)
    (ihr : QueryAgrees v right) : QueryAgrees v (.combine op left right) := by
  intro words schema h
  rw [Query.schemaOf_combine] at h ⊢
  rw [Query.everywhere_combine] at words
  obtain ⟨leftSchema, inferLeft, rightSchema, inferRight, combined⟩ := h
  obtain ⟨namedLeft, permissiveLeft⟩ := ihl words.2.1 inferLeft
  obtain ⟨namedRight, permissiveRight⟩ := ihr words.2.2 inferRight
  obtain ⟨named, permissive⟩ := combine_permissive namedLeft namedRight combined
  exact ⟨named, leftSchema, permissiveLeft, rightSchema, permissiveRight, permissive⟩

theorem agrees_grouping (columns : List (String × Expr)) (input : Query)
    (ihc : ∀ c ∈ columns, ExprAgrees v c.2) (ih : QueryAgrees v input) :
    QueryAgrees v (.grouping columns input) := by
  intro words schema h
  rw [Query.schemaOf_grouping] at h ⊢
  rw [Query.everywhere_grouping] at words
  exact agrees_columnsOver ihc ih words.2 h

/-- Keys that checked mode found to be ordered are not looked at again in permissive mode. -/
theorem agrees_order (keys : List (Expr × Direction)) (input : Query)
    (ihk : ∀ k ∈ keys, ExprAgrees v k.1) (ih : QueryAgrees v input) :
    QueryAgrees v (.order keys input) := by
  intro words schema h
  rw [Query.schemaOf_order, Query.checkKeys_eq_ok] at h ⊢
  rw [Query.everywhere_order] at words
  obtain ⟨infer, ordered⟩ := h
  obtain ⟨named, permissive⟩ := ih words.2.2 infer
  refine ⟨named, permissive, fun k member => ?_⟩
  obtain ⟨type, typed, _⟩ := ordered k member
  exact ⟨type, (ihk k member (words.2.1 k member) named typed).2, Session.require_permissive⟩

theorem agrees_top (offset count : UInt64) (input : Query) (ih : QueryAgrees v input) :
    QueryAgrees v (.top offset count input) := by
  intro words schema h
  rw [Query.schemaOf_top] at h ⊢
  rw [Query.everywhere_top] at words
  exact ih words.2 h

/-- What checked mode accepts has the same types in permissive mode, node by node. -/
theorem cases (v : Vocabulary) : Plan.Cases (ExprAgrees v) (QueryAgrees v) where
  attr := agrees_attr
  const := agrees_const
  null := agrees_null
  apply := fun op args _ => agrees_apply op args
  tuple := agrees_tuple
  aggregate := agrees_aggregate
  multiAggregate := agrees_multiAggregate
  case := agrees_case
  scalarSubquery := agrees_scalarSubquery
  setSubquery := agrees_setSubquery
  empty := agrees_empty
  table := agrees_table
  galaxy := fun g _ => agrees_galaxy g
  project := agrees_project
  restrict := agrees_restrict
  combine := agrees_combine
  grouping := agrees_grouping
  order := agrees_order
  top := agrees_top

end Typing

/-- Over a vocabulary, permissive mode finds the type that checked mode finds. -/
theorem Expr.typeOf_permissive {e : Expr} {type : Ty} (words : e.Everywhere v.wording)
    (named : schema.NamedBy v) (h : e.typeOf v.checked schema = .ok type) :
    v.Names type ∧ e.typeOf v.permissive schema = .ok type :=
  (Typing.cases v).expr e words named h

/-- Over a vocabulary, permissive mode finds the types that checked mode finds. -/
theorem Expr.typesOf_permissive {es : List Expr} {types : List Ty}
    (words : ∀ e ∈ es, e.Everywhere v.wording) (named : schema.NamedBy v)
    (h : Expr.typesOf v.checked schema es = .ok types) :
    (∀ t ∈ types, v.Names t) ∧ Expr.typesOf v.permissive schema es = .ok types :=
  Typing.agrees_items (fun e _ => (Typing.cases v).expr e) words named h

/-- Over a vocabulary, permissive mode finds the types of branches that checked mode finds. -/
theorem Expr.branchTypesOf_permissive {bs : List (Expr × Expr)} {types : List (Ty × Ty)}
    (words : ∀ b ∈ bs, b.1.Everywhere v.wording ∧ b.2.Everywhere v.wording)
    (named : schema.NamedBy v)
    (h : Expr.branchTypesOf v.checked schema bs = .ok types) :
    (∀ t ∈ types, v.Names t.1 ∧ v.Names t.2) ∧
      Expr.branchTypesOf v.permissive schema bs = .ok types :=
  Typing.agrees_branches (fun b _ => ⟨(Typing.cases v).expr b.1, (Typing.cases v).expr b.2⟩)
    words named h

/-- Over a vocabulary, permissive mode finds the schema that checked mode finds. -/
theorem Query.schemaOf_permissive {q : Query} (words : q.Everywhere v.wording)
    (h : q.schemaOf v.checked = .ok schema) :
    schema.NamedBy v ∧ q.schemaOf v.permissive = .ok schema :=
  (Typing.cases v).query q words h

end FlatPlan
