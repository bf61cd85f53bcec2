import FlatPlan.Proofs.ConstantForms
import FlatPlan.Proofs.PlanForms
import FlatPlan.Proofs.Registration
import FlatPlan.Sample

/-!
# Lossless plans

`Expr.WellFormed` and `Query.WellFormed` say which plans a universe can hold: those that refer to
what it holds under its name and that are built the way the constructors of queries build them. Main
statements: only such plans are read from datums (`Datum.sound`), and each of them is read back from
its datum (`LosslessPlans.cases`).
-/

namespace FlatPlan

/-! ## Well-formed plans -/

mutual

/-- An expression over the operators, types and relations of a universe, whose constants are finite
members of their types. -/
inductive Expr.WellFormed (u : Universe) : Expr → Prop
  | attr (name : String) : Expr.WellFormed u (.attr name)
  | const {type : Ty} {value : Value} (resolved : type.Resolved u.type?)
    (member : type.isMember value = true) (finite : value.isFinite = true) :
      Expr.WellFormed u (.const type value)
  | null {type : Ty} (resolved : type.Resolved u.type?) : Expr.WellFormed u (.null type)
  | apply {op : Operator} {args : List Expr} (known : u.operators.find? op.name = some op)
    (each : ∀ e ∈ args, Expr.WellFormed u e) : Expr.WellFormed u (.apply op args)
  | tuple {items : List Expr} (each : ∀ e ∈ items, Expr.WellFormed u e) :
      Expr.WellFormed u (.tuple items)
  | aggregate (fn : Aggregate) {arg : Expr} (own : Expr.WellFormed u arg) :
      Expr.WellFormed u (.aggregate fn arg)
  | multiAggregate (fn : MultiAggregate) {args : List Expr}
    (each : ∀ e ∈ args, Expr.WellFormed u e) :
    Expr.WellFormed u (.multiAggregate fn args)
  | case {branches : List (Expr × Expr)} {default : Expr}
    (conditions : ∀ b ∈ branches, Expr.WellFormed u b.1)
    (results : ∀ b ∈ branches, Expr.WellFormed u b.2) (otherwise : Expr.WellFormed u default) :
    Expr.WellFormed u (.case branches default)
  | scalarSubquery {query : Query} (own : Query.WellFormed u query) :
      Expr.WellFormed u (.scalarSubquery query)
  | setSubquery {query : Query} (own : Query.WellFormed u query) :
      Expr.WellFormed u (.setSubquery query)

/-- A query over a universe, whose projections have columns of different names, in which a
projection to no columns does not stand on another projection, and the empty relation is no factor
of a product. -/
inductive Query.WellFormed (u : Universe) : Query → Prop
  | empty : Query.WellFormed u .empty
  | table {name : String} {schema : Schema}
    (known : u.relations.find? name = some (.table name schema)) :
    Query.WellFormed u (.table name schema)
  | galaxy {g : Galaxy} (known : u.relations.find? g.name = some (.galaxy g)) :
      Query.WellFormed u (.galaxy g)
  | project {columns : List (String × Expr)} {input : Query}
    (distinct : (columns.map Prod.fst).Nodup)
    (bare : columns = [] → ∀ inner source, input ≠ .project inner source)
    (each : ∀ c ∈ columns, Expr.WellFormed u c.2) (below : Query.WellFormed u input) :
    Query.WellFormed u (.project columns input)
  | grouping {columns : List (String × Expr)} {input : Query}
    (distinct : (columns.map Prod.fst).Nodup) (each : ∀ c ∈ columns, Expr.WellFormed u c.2)
    (below : Query.WellFormed u input) :
    Query.WellFormed u (.grouping columns input)
  | restrict {predicate : Expr} {input : Query} (own : Expr.WellFormed u predicate)
    (below : Query.WellFormed u input) : Query.WellFormed u (.restrict predicate input)
  | combine {op : CombineOp} {left right : Query}
    (factors : op = .product → left ≠ .empty ∧ right ≠ .empty) (first : Query.WellFormed u left)
    (second : Query.WellFormed u right) :
    Query.WellFormed u (.combine op left right)
  | order {keys : List (Expr × Direction)} {input : Query}
    (each : ∀ k ∈ keys, Expr.WellFormed u k.1) (below : Query.WellFormed u input) :
      Query.WellFormed u (.order keys input)
  | top (offset count : UInt64) {input : Query} (below : Query.WellFormed u input) :
    Query.WellFormed u (.top offset count input)

end

variable {u : Universe}

/-! ## Constructors of queries -/

namespace Query

/-- What lies below projections of a well-formed query is well-formed. -/
theorem WellFormed.skipProjections : ∀ {q : Query}, q.WellFormed u → q.skipProjections.WellFormed u
  | .project _ _, .project _ _ _ below => below.skipProjections
  | .empty, h | .table _ _, h | .galaxy _, h | .restrict _ _, h | .combine _ _ _, h
  | .grouping _ _, h | .order _ _, h | .top _ _ _, h => h

theorem skipProjections_of_ne_project {q : Query} (h : ∀ inner source, q ≠ .project inner source) :
    q.skipProjections = q := by
  cases q with
  | project inner source => exact absurd rfl (h inner source)
  | _ => rfl

/-- A combination without an empty factor is built as it is. -/
theorem combination_of_ne_empty {op : CombineOp} {left right : Query}
    (factors : op = .product → left ≠ .empty ∧ right ≠ .empty) :
    combination op left right = .combine op left right := by
  unfold combination
  split
  · exact absurd rfl (factors rfl).1
  · exact absurd rfl (factors rfl).2
  · rfl

/-- Combining well-formed queries gives a well-formed one, also where an empty factor is left out.
-/
theorem WellFormed.combination {op : CombineOp} {left right : Query} (first : left.WellFormed u)
    (second : right.WellFormed u) : (combination op left right).WellFormed u := by
  unfold Query.combination
  split
  · exact second
  · exact first
  case h_3 leftFactor rightFactor =>
    refine .combine ?_ first second
    rintro rfl
    exact ⟨leftFactor rfl, rightFactor rfl⟩

end Query

/-! ## Reading -/

/-- Only well-formed plans are read from the datum. -/
structure Datum.Sound (u : Universe) (d : Datum) : Prop where
  expr : ∀ e, Expr.ofDatum u d = .ok e → e.WellFormed u
  query : ∀ q, Query.ofDatum u d = .ok q → q.WellFormed u

/-- Only well-formed plans are read from what is inside the datum. -/
def Datum.SoundInside (u : Universe) (whole : Datum) : Prop :=
  ∀ part : Datum, sizeOf part < sizeOf whole → part.Sound u

namespace Datum.SoundInside

variable {ds : List Datum} {tag : String}

/-- What is inside a part is inside the whole. -/
theorem part {d whole : Datum} (h : whole.SoundInside u) (inside : sizeOf d < sizeOf whole) :
    d.SoundInside u :=
  fun e own => h e (Nat.lt_trans own inside)

/-- Expressions that are read from the items of an array are well-formed. -/
theorem items (h : (array ds).SoundInside u) {es : List Expr}
    (read : List.Forall₂ (Expr.ReadFrom u) es ds) :
    ∀ e ∈ es, e.WellFormed u := by
  intro e member
  obtain ⟨d, among, own⟩ := exists_of_mem_right read.flip member
  exact (h d (sizeOf_lt_array among)).expr e own

/-- Branches that are read from pairs inside an array are well-formed. -/
theorem branches (h : (array ds).SoundInside u) {branches : List (Expr × Expr)}
    (read : List.Forall₂ (Expr.BranchForm (Expr.ReadFrom u)) branches ds) :
    ∀ b ∈ branches, b.1.WellFormed u ∧ b.2.WellFormed u := by
  intro b member
  obtain ⟨_, among, c, r, rfl, condition, result⟩ := exists_of_mem_right read.flip member
  have inside := h.part (sizeOf_lt_array among)
  exact ⟨(inside c (sizeOf_lt_array (by simp))).expr _ condition,
    (inside r (sizeOf_lt_array (by simp))).expr _ result⟩

/-- Columns that are read from pairs inside an array are well-formed. -/
theorem columns (h : (array ds).SoundInside u) {columns : List (String × Expr)}
    (read : List.Forall₂ (Query.ColumnForm (Expr.ReadFrom u)) columns ds) :
    ∀ c ∈ columns, c.2.WellFormed u := by
  intro c member
  obtain ⟨_, among, d, rfl, own⟩ := exists_of_mem_right read.flip member
  exact (h.part (sizeOf_lt_array among) d (sizeOf_lt_array (by simp))).expr _ own

/-- Ordering keys that are read from pairs inside an array are well-formed. -/
theorem keys (h : (array ds).SoundInside u) {keys : List (Expr × Direction)}
    (read : List.Forall₂ (Query.KeyForm (Expr.ReadFrom u)) keys ds) :
    ∀ k ∈ keys, k.1.WellFormed u := by
  intro k member
  obtain ⟨_, among, d, rfl, own⟩ := exists_of_mem_right read.flip member
  exact (h.part (sizeOf_lt_array among) d (sizeOf_lt_array (by simp))).expr _ own

end Datum.SoundInside

section Reading

variable (coherent : u.Coherent BaseTy.Faithful) {d : Datum}

include coherent

/-- A type that is read is made of types that the universe holds under their names. -/
theorem Universe.Coherent.resolved {t : Ty} (h : Ty.ofDatum u.type? d = .ok t) :
    t.Resolved u.type? := by
  refine Ty.resolved_of_ofDatum (fun name t found => ?_) h
  obtain ⟨b, equal, own, _⟩ := coherent.types found
  exact ⟨b, equal, own⟩

/-- The base types of a type that the universe resolves are faithful. -/
theorem Universe.Coherent.faithful {t : Ty} (h : t.Resolved u.type?) :
    t.EveryBase BaseTy.Faithful := by
  refine Ty.EveryBase.imp (fun b found => ?_) t h.bases
  obtain ⟨_, equal, _, own⟩ := coherent.types found
  cases equal
  exact own

/-- A form whose parts are read as well-formed plans is read as one. -/
theorem Expr.Form.wellFormed (inside : d.SoundInside u) {e : Expr} (h : Form u d e) :
    e.WellFormed u := by
  cases h with
  | attr name => exact .attr name
  | const resolved read member =>
    have own := coherent.resolved resolved
    have reads := Ty.EveryBase.imp (fun _ => BaseTy.Faithful.reads) _ (coherent.faithful own)
    exact .const own member (Ty.isFinite_of_datumToConst _ reads read)
  | null resolved => exact .null (coherent.resolved resolved)
  | apply found read =>
    refine .apply ?_ ((inside.part (Datum.sizeOf_lt_tagged (by simp))).items read)
    rw [coherent.operators found, found]
  | tuple read => exact .tuple ((inside.part (Datum.sizeOf_lt_tagged (by simp))).items read)
  | aggregate fn read =>
    exact .aggregate fn ((inside _ (Datum.sizeOf_lt_tagged (by simp))).expr _ read)
  | multiAggregate fn read =>
    exact .multiAggregate fn ((inside.part (Datum.sizeOf_lt_tagged (by simp))).items read)
  | case read otherwise =>
    have branches := (inside.part (Datum.sizeOf_lt_tagged (by simp))).branches read
    exact .case (fun b member => (branches b member).1) (fun b member => (branches b member).2)
      ((inside _ (Datum.sizeOf_lt_tagged (by simp))).expr _ otherwise)
  | scalarSubquery read =>
    exact .scalarSubquery ((inside _ (Datum.sizeOf_lt_tagged (by simp))).query _ read)
  | setSubquery read =>
    exact .setSubquery ((inside _ (Datum.sizeOf_lt_tagged (by simp))).query _ read)

/-- A form of a query whose parts are read as well-formed plans is read as one. -/
theorem Query.Form.wellFormed (inside : d.SoundInside u) {q : Query} (h : Form u d q) :
    q.WellFormed u := by
  cases h with
  | empty => exact .empty
  | relation found =>
    obtain ⟨schema, relation⟩ := coherent.relations found
    cases q with
    | table name own =>
      cases relation
      exact .table found
    | galaxy g =>
      cases relation
      exact .galaxy found
    | _ => cases relation
  | @project ds below columns input distinct read readBelow =>
    have below := (inside _ (Datum.sizeOf_lt_tagged (by simp))).query _ readBelow
    have each := (inside.part (Datum.sizeOf_lt_tagged (by simp))).columns read
    cases columns with
    | nil =>
      exact .project distinct (fun _ inner source => input.skipProjections_ne_project inner source)
        each below.skipProjections
    | cons c columns => exact .project distinct (fun equal => by cases equal) each below
  | grouping distinct read readBelow =>
    exact .grouping distinct ((inside.part (Datum.sizeOf_lt_tagged (by simp))).columns read)
      ((inside _ (Datum.sizeOf_lt_tagged (by simp))).query _ readBelow)
  | restrict read readBelow =>
    exact .restrict ((inside _ (Datum.sizeOf_lt_tagged (by simp))).expr _ read)
      ((inside _ (Datum.sizeOf_lt_tagged (by simp))).query _ readBelow)
  | combine op first second =>
    exact ((inside _ (Datum.sizeOf_lt_tagged (by simp))).query _ first).combination
      ((inside _ (Datum.sizeOf_lt_tagged (by simp))).query _ second)
  | order read readBelow =>
    exact .order ((inside.part (Datum.sizeOf_lt_tagged (by simp))).keys read)
      ((inside _ (Datum.sizeOf_lt_tagged (by simp))).query _ readBelow)
  | top offset count readBelow =>
    exact .top offset count ((inside _ (Datum.sizeOf_lt_tagged (by simp))).query _ readBelow)

/-- Only well-formed plans are read. -/
theorem Datum.sound (d : Datum) : d.Sound u := by
  induction d using Datum.smallerInduction with
  | step d inside =>
    exact ⟨fun e h => (Expr.ofDatum_eq_ok.1 h).wellFormed coherent inside,
      fun q h => (Query.ofDatum_eq_ok.1 h).wellFormed coherent inside⟩

end Reading

/-! ## Writing -/

/-- The expression has a datum, and is read back from it. -/
def Expr.ReadBack (u : Universe) (e : Expr) : Prop :=
  ∃ d, e.toDatum = .ok d ∧ Expr.ofDatum u d = .ok e

/-- The query has a datum, and is read back from it. -/
def Query.ReadBack (u : Universe) (q : Query) : Prop :=
  ∃ d, q.toDatum = .ok d ∧ Query.ofDatum u d = .ok q

namespace LosslessPlans

/-! ### Lists -/

/-- Expressions that are read back one by one are read back together. -/
theorem items {es : List Expr} (each : ∀ e ∈ es, e.ReadBack u) :
    ∃ ds, Expr.toDatums es = .ok ds ∧ List.Forall₂ (Expr.ReadFrom u) es ds := by
  simp only [Expr.toDatums_eq_ok]
  exact exists_forall₂_both each

theorem branches {branches : List (Expr × Expr)}
    (each : ∀ b ∈ branches, b.1.ReadBack u ∧ b.2.ReadBack u) :
    ∃ ds, Expr.branchesToDatums branches = .ok ds ∧
      List.Forall₂ (Expr.BranchForm (Expr.ReadFrom u)) branches ds := by
  simp only [Expr.branchesToDatums_eq_ok]
  refine exists_forall₂_both fun b member => ?_
  obtain ⟨⟨c, first, condition⟩, r, second, result⟩ := each b member
  exact ⟨_, ⟨c, r, rfl, first, second⟩, c, r, rfl, condition, result⟩

theorem columns {columns : List (String × Expr)} (each : ∀ c ∈ columns, c.2.ReadBack u) :
    ∃ ds, Query.columnsToDatums columns = .ok ds ∧
      List.Forall₂ (Query.ColumnForm (Expr.ReadFrom u)) columns ds := by
  simp only [Query.columnsToDatums_eq_ok]
  refine exists_forall₂_both fun c member => ?_
  obtain ⟨d, written, read⟩ := each c member
  exact ⟨_, ⟨d, rfl, written⟩, d, rfl, read⟩

theorem keys {keys : List (Expr × Direction)} (each : ∀ k ∈ keys, k.1.ReadBack u) :
    ∃ ds, Query.keysToDatums keys = .ok ds ∧
      List.Forall₂ (Query.KeyForm (Expr.ReadFrom u)) keys ds := by
  simp only [Query.keysToDatums_eq_ok]
  refine exists_forall₂_both fun k member => ?_
  obtain ⟨d, written, read⟩ := each k member
  exact ⟨_, ⟨d, rfl, written⟩, d, rfl, read⟩

/-! ### Nodes -/

attribute [local simp] Expr.toDatum Query.toDatum

/-- A finite member is written by its type, and both are read back. -/
theorem const {type : Ty} {value : Value} (writes : type.EveryBase BaseTy.Writes)
    (resolved : type.Resolved u.type?) (member : type.isMember value = true)
    (finite : value.isFinite = true) :
    (Expr.const type value).ReadBack u := by
  obtain ⟨d, written, back, _⟩ := Ty.datumToConst_constToDatum type writes member finite
  refine ⟨.tagged "const" [type.toDatum, d], ?_, ?_⟩
  · simp only [Expr.toDatum, bind_eq_ok, pure_eq_ok, liftM_eq_ok]
    exact ⟨d, written, rfl⟩
  · exact Expr.Form.ofDatum (.const (Ty.ofDatum_toDatum resolved) back member)

/-- An application is read back by the name of its operator, under which the universe holds it. -/
theorem apply {op : Operator} {args : List Expr} (known : u.operators.find? op.name = some op)
    (each : ∀ e ∈ args, e.ReadBack u) : (Expr.apply op args).ReadBack u := by
  obtain ⟨ds, written, read⟩ := items each
  refine ⟨.tagged "application" [.string op.name, .array ds], ?_,
    (Expr.Form.apply known read).ofDatum⟩
  simp only [Expr.toDatum, bind_eq_ok, pure_eq_ok]
  exact ⟨ds, written, rfl⟩

theorem tuple {es : List Expr} (each : ∀ e ∈ es, e.ReadBack u) : (Expr.tuple es).ReadBack u := by
  obtain ⟨ds, written, read⟩ := items each
  refine ⟨.tagged "tuple" [.array ds], ?_, (Expr.Form.tuple read).ofDatum⟩
  simp only [Expr.toDatum, bind_eq_ok, pure_eq_ok]
  exact ⟨ds, written, rfl⟩

theorem aggregate (fn : Aggregate) {arg : Expr} (own : arg.ReadBack u) :
    (Expr.aggregate fn arg).ReadBack u := by
  obtain ⟨d, written, read⟩ := own
  refine ⟨.tagged "aggregation" [.string fn.name, d], ?_, (Expr.Form.aggregate fn read).ofDatum⟩
  simp only [Expr.toDatum, bind_eq_ok, pure_eq_ok]
  exact ⟨d, written, rfl⟩

theorem multiAggregate (fn : MultiAggregate) {args : List Expr} (each : ∀ e ∈ args, e.ReadBack u) :
    (Expr.multiAggregate fn args).ReadBack u := by
  obtain ⟨ds, written, read⟩ := items each
  refine ⟨.tagged "multi-aggregation" [.string fn.name, .array ds], ?_,
    (Expr.Form.multiAggregate fn read).ofDatum⟩
  simp only [Expr.toDatum, bind_eq_ok, pure_eq_ok]
  exact ⟨ds, written, rfl⟩

/-- A choice is read back from its branches and its default. -/
theorem case {bs : List (Expr × Expr)} {default : Expr}
    (each : ∀ b ∈ bs, b.1.ReadBack u ∧ b.2.ReadBack u) (otherwise : default.ReadBack u) :
    (Expr.case bs default).ReadBack u := by
  obtain ⟨ds, written, read⟩ := branches each
  obtain ⟨d, last, readLast⟩ := otherwise
  refine ⟨.tagged "case-expr" [.array ds, d], ?_, (Expr.Form.case read readLast).ofDatum⟩
  simp only [Expr.toDatum, bind_eq_ok, pure_eq_ok]
  exact ⟨ds, written, d, last, rfl⟩

theorem scalarSubquery {query : Query} (own : query.ReadBack u) :
    (Expr.scalarSubquery query).ReadBack u := by
  obtain ⟨d, written, read⟩ := own
  refine ⟨.tagged "scalar-subquery" [d], ?_, (Expr.Form.scalarSubquery read).ofDatum⟩
  simp only [Expr.toDatum, bind_eq_ok, pure_eq_ok]
  exact ⟨d, written, rfl⟩

theorem setSubquery {query : Query} (own : query.ReadBack u) :
    (Expr.setSubquery query).ReadBack u := by
  obtain ⟨d, written, read⟩ := own
  refine ⟨.tagged "set-subquery" [d], ?_, (Expr.Form.setSubquery read).ofDatum⟩
  simp only [Expr.toDatum, bind_eq_ok, pure_eq_ok]
  exact ⟨d, written, rfl⟩

/-- A projection is read back, since it passes the checks of its constructor. -/
theorem project {cs : List (String × Expr)} {input : Query} (distinct : (cs.map Prod.fst).Nodup)
    (bare : cs = [] → ∀ inner source, input ≠ .project inner source)
    (each : ∀ c ∈ cs, c.2.ReadBack u)
    (below : input.ReadBack u) : (Query.project cs input).ReadBack u := by
  obtain ⟨ds, written, read⟩ := columns each
  obtain ⟨d, last, readBelow⟩ := below
  have kept : (if cs.isEmpty then input.skipProjections else input) = input := by
    split
    case isTrue empty => exact Query.skipProjections_of_ne_project (bare (List.isEmpty_iff.1 empty))
    case isFalse => rfl
  refine ⟨.tagged "project" [.array ds, d], ?_, ?_⟩
  · simp only [Query.toDatum, bind_eq_ok, pure_eq_ok]
    exact ⟨ds, written, d, last, rfl⟩
  · have form := Query.Form.project distinct read readBelow
    rw [kept] at form
    exact form.ofDatum

theorem grouping {cs : List (String × Expr)} {input : Query} (distinct : (cs.map Prod.fst).Nodup)
    (each : ∀ c ∈ cs, c.2.ReadBack u) (below : input.ReadBack u) :
    (Query.grouping cs input).ReadBack u := by
  obtain ⟨ds, written, read⟩ := columns each
  obtain ⟨d, last, readBelow⟩ := below
  refine ⟨.tagged "grouping-project" [.array ds, d], ?_,
    (Query.Form.grouping distinct read readBelow).ofDatum⟩
  simp only [Query.toDatum, bind_eq_ok, pure_eq_ok]
  exact ⟨ds, written, d, last, rfl⟩

theorem restrict {predicate : Expr} {input : Query} (own : predicate.ReadBack u)
    (below : input.ReadBack u) :
    (Query.restrict predicate input).ReadBack u := by
  obtain ⟨p, written, read⟩ := own
  obtain ⟨d, last, readBelow⟩ := below
  refine ⟨.tagged "restrict" [p, d], ?_, (Query.Form.restrict read readBelow).ofDatum⟩
  simp only [Query.toDatum, bind_eq_ok, pure_eq_ok]
  exact ⟨p, written, d, last, rfl⟩

/-- A combination is read back, since its constructor leaves no factor out. -/
theorem combine {op : CombineOp} {left right : Query}
    (factors : op = .product → left ≠ .empty ∧ right ≠ .empty) (first : left.ReadBack u)
    (second : right.ReadBack u) : (Query.combine op left right).ReadBack u := by
  obtain ⟨l, written, readLeft⟩ := first
  obtain ⟨r, last, readRight⟩ := second
  refine ⟨.tagged op.name [l, r], ?_, ?_⟩
  · simp only [Query.toDatum, bind_eq_ok, pure_eq_ok]
    exact ⟨l, written, r, last, rfl⟩
  · have form := Query.Form.combine op readLeft readRight
    rw [Query.combination_of_ne_empty factors] at form
    exact form.ofDatum

theorem order {ks : List (Expr × Direction)} {input : Query} (each : ∀ k ∈ ks, k.1.ReadBack u)
    (below : input.ReadBack u) : (Query.order ks input).ReadBack u := by
  obtain ⟨ds, written, read⟩ := keys each
  obtain ⟨d, last, readBelow⟩ := below
  refine ⟨.tagged "order" [.array ds, d], ?_, (Query.Form.order read readBelow).ofDatum⟩
  simp only [Query.toDatum, bind_eq_ok, pure_eq_ok]
  exact ⟨ds, written, d, last, rfl⟩

theorem top (offset count : UInt64) {input : Query} (below : input.ReadBack u) :
    (Query.top offset count input).ReadBack u := by
  obtain ⟨d, last, readBelow⟩ := below
  refine ⟨.tagged "top" [.integer offset, .integer count, d], ?_,
    (Query.Form.top offset count readBelow).ofDatum⟩
  simp only [Query.toDatum, bind_eq_ok, pure_eq_ok]
  exact ⟨d, last, rfl⟩

/-- The induction over plans. Nothing is asked of the query behind a galaxy or a lookup, which is
not written. -/
theorem cases (coherent : u.Coherent BaseTy.Faithful) :
    Plan.Cases (fun e => e.WellFormed u → e.ReadBack u)
      (fun q => q.WellFormed u → q.ReadBack u) where
  attr name _ := ⟨.tagged "attribute-ref" [.string name], by
    simp only [Expr.toDatum], (Expr.Form.attr name).ofDatum⟩
  const type value h := by
    cases h with
    | const resolved member finite =>
      have writes :=
        Ty.EveryBase.imp (fun _ => BaseTy.Faithful.writes) _ (coherent.faithful resolved)
      exact const writes resolved member finite
  null type h := by
    cases h with
    | null resolved =>
      exact ⟨.tagged "null-const" [type.toDatum], by simp only [Expr.toDatum],
        (Expr.Form.null (Ty.ofDatum_toDatum resolved)).ofDatum⟩
  apply op args _ ih h := by
    cases h with
    | apply known each => exact apply known fun e member => ih e member (each e member)
  tuple es ih h := by
    cases h with
    | tuple each => exact tuple fun e member => ih e member (each e member)
  aggregate fn arg ih h := by
    cases h with
    | aggregate _ own => exact aggregate fn (ih own)
  multiAggregate fn args ih h := by
    cases h with
    | multiAggregate _ each => exact multiAggregate fn fun e member => ih e member (each e member)
  case bs default ih last h := by
    cases h with
    | case conditions results otherwise =>
      refine case (fun b member => ⟨?_, ?_⟩) (last otherwise)
      · exact (ih b member).1 (conditions b member)
      · exact (ih b member).2 (results b member)
  scalarSubquery query ih h := by
    cases h with
    | scalarSubquery own => exact scalarSubquery (ih own)
  setSubquery query ih h := by
    cases h with
    | setSubquery own => exact setSubquery (ih own)
  empty _ := ⟨.tagged "empty" [], by simp only [Query.toDatum], Query.Form.empty.ofDatum⟩
  table name schema h := by
    cases h with
    | table known =>
      exact ⟨.tagged "base-relation" [.string name], by
        simp only [Query.toDatum], (Query.Form.relation known).ofDatum⟩
  galaxy g _ h := by
    cases h with
    | galaxy known =>
      exact ⟨.tagged "base-relation" [.string g.name], by simp only [Query.toDatum],
        (Query.Form.relation known).ofDatum⟩
  project cs input ih below h := by
    cases h with
    | project distinct bare each own =>
      exact project distinct bare (fun c member => ih c member (each c member)) (below own)
  restrict predicate input ih below h := by
    cases h with
    | restrict own ownBelow => exact restrict (ih own) (below ownBelow)
  combine op left right first second h := by
    cases h with
    | combine factors ownLeft ownRight => exact combine factors (first ownLeft) (second ownRight)
  grouping cs input ih below h := by
    cases h with
    | grouping distinct each own =>
      exact grouping distinct (fun c member => ih c member (each c member)) (below own)
  order ks input ih below h := by
    cases h with
    | order each own => exact order (fun k member => ih k member (each k member)) (below own)
  top offset count input below h := by
    cases h with
    | top _ _ own => exact top offset count (below own)

end LosslessPlans

/-! ## Universes built by registrations -/

/-- Datums lose nothing. Over a universe that registrations of faithful types, of relations and of
operators have built, only well-formed plans are read from datums, and each well-formed plan has a
datum from which it is read back. -/
theorem Universe.plans_lossless (built : u.Built BaseTy.Faithful) :
    (∀ d : Datum,
      (∀ e, Expr.ofDatum u d = .ok e → e.WellFormed u) ∧
      (∀ q, Query.ofDatum u d = .ok q → q.WellFormed u)) ∧
    (∀ e : Expr, e.WellFormed u → ∃ d, e.toDatum = .ok d ∧ Expr.ofDatum u d = .ok e) ∧
    (∀ q : Query, q.WellFormed u → ∃ d, q.toDatum = .ok d ∧ Query.ofDatum u d = .ok q) := by
  have coherent := built.coherent Ty.faithful_of_builtin
  refine ⟨fun d => ?_, (LosslessPlans.cases coherent).expr, (LosslessPlans.cases coherent).query⟩
  have sound := Datum.sound coherent d
  exact ⟨sound.expr, sound.query⟩

namespace Sample

/-- The strings of one character. -/
def initial : BaseTy where
  name := "initial"
  contains
    | .string s => s.length == 1
    | _ => false
  toDatum
    | .string s => .ok (.string s)
    | v => .error (Ty.invalidValue "initial" v)
  ofDatum d := do return .string (← d.expectString "initial")
  numeric := false
  ordered := some true
  layout := none

/-- Initials are written as strings, and a string of another length is no member. -/
theorem initial_faithful : initial.Faithful := by
  constructor
  · intro d v h
    obtain ⟨s, _, equal⟩ := bind_eq_ok.1 h
    cases equal
    rfl
  · intro v member _
    cases v with
    | string s => exact ⟨.string s, rfl, rfl, rfl⟩
    | _ => cases member

/-- The built-in universe with initials, a table and an operator. -/
def registry : Universe :=
  ({ Universe.builtins with
    types := Universe.builtins.types.insert "initial" (.base initial)
    relations := Universe.builtins.relations.insert "T" tableT } :
      Universe).registerOperator nickname

theorem registry_built : registry.Built BaseTy.Faithful := by
  have own : (Ty.base initial).EveryBase BaseTy.Faithful := initial_faithful
  exact .registerOperator (.registerRelation (q := tableT) (.registerType .builtins own rfl) rfl)

/-- A constant initial and the nicknames of two copies of the table. -/
def initials : Query :=
  .project [("i", .const (.nullable (.base initial)) (.string "J")),
    ("n", .apply nickname [.attr "b"])] (.combine .product tableT (.top 2 3 (.project [] tableT)))

theorem initials_wellFormed : initials.WellFormed registry := by
  have known : registry.operators.find? nickname.name = some nickname :=
    NameMap.find?_insert_self ..
  have resolved : (Ty.nullable (.base initial)).Resolved registry.type? :=
    ⟨NameMap.find?_insert_self .., rfl⟩
  have table : tableT.WellFormed registry := .table (NameMap.find?_insert_self ..)
  refine .project (by decide) (by
    simp) ?_ (.combine ?_ table (.top 2 3 (.project .nil ?_ ?_ table)))
  · simp only [List.forall_mem_cons]
    exact ⟨.const resolved rfl rfl, .apply known (by simpa using .attr "b"), by simp⟩
  · exact fun _ => ⟨Query.noConfusion, Query.noConfusion⟩
  · exact fun _ _ _ => Query.noConfusion
  · simp

/-- A constant is read from its datum, and the plan of initials is read back from the datum that it
has. -/
theorem registry_lossless :
    registry.Built BaseTy.Faithful ∧
    (Expr.ofDatum registry (.tagged "const" [.string "initial", .string "J"]) =
      .ok (.const (.base initial) (.string "J"))) ∧
    (Expr.const (.base initial) (.string "J")).WellFormed registry ∧
    initials.WellFormed registry ∧
    ∃ d, initials.toDatum = .ok d ∧ Query.ofDatum registry d = .ok initials := by
  have lossless := Universe.plans_lossless registry_built
  have read : Expr.ofDatum registry (.tagged "const" [.string "initial", .string "J"]) =
      .ok (.const (.base initial) (.string "J")) :=
    Expr.Form.ofDatum (.const (Ty.ofDatum_eq_ok.2 (.base (NameMap.find?_insert_self ..))) rfl rfl)
  exact ⟨registry_built, read, (lossless.1 _).1 _ read, initials_wellFormed,
    lossless.2.2 initials initials_wellFormed⟩

end Sample

end FlatPlan
