import FlatPlan.Proofs.ConstantForms
import FlatPlan.Proofs.Steps
import FlatPlan.Reify

/-!
# Values rebuilt from their columns

A value is stored as one or more columns: `Ty.split` says which, and flattening a literal of the
value gives the same ones (`Ty.exists_flatten_literal`). Main statement: reification rebuilds the
values from their columns, if these tell them apart (`Schema.reifyRow_splitAll`). Columns that are
all null stand for an absent value, so a present one with such columns is not rebuilt, and neither
is an absent product (`Sample.blank_columns`).
-/

namespace FlatPlan

open Pass

/-! ## Columns of values -/

/-- The value that a stored column holds. -/
def Expr.storedValue? : Expr → Option Value
  | .const _ value => some value
  | .null _ => some .null
  | _ => none

/-- The columns of a value of a base type, with null or without it. -/
def BaseTy.split (rules : Rules) (b : BaseTy) (v : Value) : List Value :=
  match b.layout with
  | some layout =>
    if v.isNull then List.replicate layout.columns.length .null
    else match layout.stored rules v with
      | .ok e => e.leaves.filterMap Expr.storedValue?
      | .error _ => [v]
  | none => [v]

/-- Whether the columns of a value of a base type tell it from the others: those of a present value
that could be absent are not all null. -/
def BaseTy.isLegible (rules : Rules) (b : BaseTy) (orNull : Bool) (v : Value) : Bool :=
  match b.layout with
  | some _ => if v.isNull then orNull else !(orNull && (b.split rules v).all Value.isNull)
  | none => true

/-- Whether the values of a structured type are rebuilt from the constants they are stored as, which
are as many as the layout has columns. -/
def BaseTy.Rebuilds (rules : Rules) (b : BaseTy) : Prop :=
  ∀ l, b.layout = some l → ∀ v, b.contains v = true → ∃ e values, l.stored rules v = .ok e ∧
    e.leaves.map Expr.storedValue? = values.map some ∧ values.length = l.columns.length ∧
    l.reify values = .ok v

namespace Ty

mutual

/-- The columns of a value: a product is its components side by side, and an absent value is as many
nulls as a present one has columns. -/
def split (rules : Rules) : Ty → Value → List Value
  | .base b, v => b.split rules v
  | .nullable (.base b), v => b.split rules v
  | .nullable (.product ts), v =>
    match v with
    | .tuple vs => splitAll rules ts vs
    | _ => List.replicate (flatWidths ts) .null
  | .product ts, v =>
    match v with
    | .tuple vs => splitAll rules ts vs
    | v => [v]
  | _, v => [v]

/-- The columns of values side by side. -/
def splitAll (rules : Rules) : List Ty → List Value → List Value
  | t :: ts, v :: vs => t.split rules v ++ splitAll rules ts vs
  | _, _ => []

end

mutual

/-- Whether the columns of a value tell it from the others. -/
def isLegible (rules : Rules) : Ty → Value → Bool
  | .base b, v => b.isLegible rules false v
  | .nullable (.base b), v => b.isLegible rules true v
  | .nullable (.product ts), v | .product ts, v =>
    match v with
    | .tuple vs => areLegible rules ts vs
    | _ => false
  | _, _ => true

/-- Whether the columns of each value tell it from the others. -/
def areLegible (rules : Rules) : List Ty → List Value → Bool
  | t :: ts, v :: vs => t.isLegible rules v && areLegible rules ts vs
  | _, _ => true

end

mutual

/-- The expression that writes a value: a product is the tuple of its components. -/
def literal : Ty → Value → Expr
  | .nullable (.product ts), v =>
    match v with
    | .tuple vs => .tuple (literals ts vs)
    | v => .const (.nullable (.product ts)) v
  | .product ts, v =>
    match v with
    | .tuple vs => .tuple (literals ts vs)
    | v => .const (.product ts) v
  | t, v => .const t v

/-- The expression that writes each value. -/
def literals : List Ty → List Value → List Expr
  | t :: ts, v :: vs => t.literal v :: literals ts vs
  | _, _ => []

end

end Ty

/-! ## Rebuilding -/

/-- The values of columns that all hold one. -/
theorem filterMap_eq_of_map {α β : Type} {f : α → Option β} {as : List α} {bs : List β}
    (h : as.map f = bs.map some) : as.filterMap f = bs :=
  calc as.filterMap f = (as.map f).filterMap id := by rw [List.filterMap_map]; rfl
    _ = (bs.map some).filterMap id := by rw [h]
    _ = bs := by rw [List.filterMap_map]; exact List.filterMap_some

namespace BaseTy

variable {rules : Rules} {b : BaseTy} {v : Value} {orNull : Bool}

/-- A value has as many columns as its base type says. -/
theorem length_split (rebuilds : b.Rebuilds rules)
    (member : v.isNull = false → b.contains v = true) :
    (b.split rules v).length = b.flatWidth := by
  unfold split flatWidth
  cases layout : b.layout with
  | none => rfl
  | some l =>
    dsimp only
    cases null : v.isNull with
    | true => simp
    | false =>
      obtain ⟨e, values, stored, columns, length, _⟩ := rebuilds l layout v (member null)
      simp [stored, filterMap_eq_of_map columns, length]

/-- A legible value of a base type is rebuilt from its columns. -/
theorem reify_split (rebuilds : b.Rebuilds rules) (member : v.isNull = false → b.contains v = true)
    (legible : b.isLegible rules orNull v = true) : b.reify orNull (b.split rules v) = .ok v := by
  unfold isLegible at legible
  unfold reify
  cases layout : b.layout with
  | none => simp [split, layout, Value.only]
  | some l =>
    rw [layout] at legible
    dsimp only at legible ⊢
    cases null : v.isNull with
    | true =>
      have absent : v = .null := by
        cases v with
        | null => rfl
        | _ => cases null
      have own : orNull = true := by simpa [null] using legible
      rw [own, absent]
      simp [split, layout, Value.isNull]
    | false =>
      obtain ⟨e, values, stored, own, _, rebuilt⟩ := rebuilds l layout v (member null)
      have columns : b.split rules v = values := by
        simp [split, layout, null, stored, filterMap_eq_of_map own]
      have present : (orNull && (b.split rules v).all Value.isNull) = false := by
        simpa only [null, Bool.false_eq_true, if_false, Bool.not_eq_true'] using legible
      rw [present, columns]
      exact rebuilt

end BaseTy

namespace Ty

variable {rules : Rules}

theorem contains_of_isMember_nullable {b : BaseTy} {v : Value}
    (member : (nullable (.base b)).isMember v = true) :
    v.isNull = false → b.contains v = true := by
  intro present
  have notNull : v ≠ .null := by
    rintro rfl
    cases present
  rwa [isMember_nullable _ notNull] at member

/-- A member of a product with null is null or a tuple of members. -/
theorem cases_of_isMember_nullable_product {ts : List Ty} {v : Value}
    (member : (nullable (.product ts)).isMember v = true) :
    v = .null ∨ ∃ vs, v = .tuple vs ∧ areMembers ts vs = true := by
  by_cases null : v = .null
  · exact .inl null
  · rw [isMember_nullable _ null] at member
    cases v with
    | tuple vs => exact .inr ⟨vs, rfl, member⟩
    | _ => cases member

mutual

/-- A member has as many columns as its type says. -/
theorem length_split : ∀ {t : Ty} {v : Value}, t.EveryBase (BaseTy.Rebuilds rules) →
    t.isMember v = true → (t.split rules v).length = t.flatWidth
  | .base b, v, rebuilds, member => by
    rw [split, flatWidth]
    exact BaseTy.length_split rebuilds fun _ => member
  | .nullable (.base b), v, rebuilds, member => by
    rw [split, flatWidth]
    exact BaseTy.length_split rebuilds (contains_of_isMember_nullable member)
  | .nullable (.product ts), v, rebuilds, member => by
    rw [flatWidth]
    rcases cases_of_isMember_nullable_product member with rfl | ⟨vs, rfl, members⟩
    · simp [split]
    · simp only [split]
      exact length_splitAll rebuilds members
  | .product ts, v, rebuilds, member => by
    cases v with
    | tuple vs =>
      simp only [split, flatWidth]
      exact length_splitAll rebuilds member
    | _ => cases member
  | .nullable (.nullable _), _, _, _ | .nullable (.set _), _, _,
      _ | .nullable (.boundedString _), _, _, _
  | .set _, _, _, _ | .boundedString _, _, _, _ => rfl

theorem length_splitAll :
    ∀ {ts : List Ty} {vs : List Value}, EveryBaseOf (BaseTy.Rebuilds rules) ts →
    areMembers ts vs = true → (splitAll rules ts vs).length = flatWidths ts
  | [], [], _, _ => rfl
  | t :: ts, v :: vs, rebuilds, members => by
    rw [areMembers, Bool.and_eq_true] at members
    rw [splitAll, flatWidths, List.length_append, length_split rebuilds.1 members.1,
      length_splitAll rebuilds.2 members.2]

end

mutual

/-- A legible member is rebuilt from its columns. -/
theorem reify_split : ∀ {t : Ty} {v : Value}, t.EveryBase (BaseTy.Rebuilds rules) →
    t.isMember v = true → t.isLegible rules v = true → t.reify (t.split rules v) = .ok v
  | .base b, v, rebuilds, member, legible => by
    rw [split, reify]
    exact BaseTy.reify_split rebuilds (fun _ => member) legible
  | .nullable (.base b), v, rebuilds, member, legible => by
    rw [split, reify]
    exact BaseTy.reify_split rebuilds (contains_of_isMember_nullable member) legible
  | .nullable (.product ts), v, rebuilds, member, legible => by
    rcases cases_of_isMember_nullable_product member with rfl | ⟨vs, rfl, members⟩
    · cases legible
    · simp only [split, reify, reifyAll_splitAll rebuilds members legible]
      rfl
  | .product ts, v, rebuilds, member, legible => by
    cases v with
    | tuple vs =>
      simp only [split, reify, reifyAll_splitAll rebuilds member legible]
      rfl
    | _ => cases member
  | .nullable (.nullable _), _, _, _, _ | .nullable (.set _), _, _, _, _
  | .nullable (.boundedString _), _, _, _, _ | .set _, _, _, _, _ | .boundedString _, _, _, _, _ =>
    rfl

theorem reifyAll_splitAll :
    ∀ {ts : List Ty} {vs : List Value}, EveryBaseOf (BaseTy.Rebuilds rules) ts →
    areMembers ts vs = true → areLegible rules ts vs = true →
    reifyAll ts (splitAll rules ts vs) = .ok vs
  | [], [], _, _, _ => rfl
  | t :: ts, v :: vs, rebuilds, members, legible => by
    rw [areMembers, Bool.and_eq_true] at members
    rw [areLegible, Bool.and_eq_true] at legible
    -- the columns of the first value are as many as the cursor moves over
    have width := length_split rebuilds.1 members.1
    rw [splitAll, reifyAll, ← width, List.take_left, List.drop_left,
      reify_split rebuilds.1 members.1 legible.1, reifyAll_splitAll rebuilds.2 members.2 legible.2]
    rfl

end

end Ty

/-! ## Literals -/

theorem Layout.stored_nulls (l : Layout) :
    l.nulls.leaves.map Expr.storedValue? =
      (List.replicate l.columns.length Value.null).map some := by
  rw [nulls, Expr.leaves]
  induction l.columns with
  | nil => rfl
  | cons c columns ih =>
    rw [List.map_cons, Expr.itemLeaves, List.map_append, ih, List.length_cons, List.replicate_succ,
      List.map_cons]
    rfl

/-- A structured constant is stored as the columns of its value. -/
theorem Expr.exists_flattenConst {rules : Rules} {type : Ty} {b : BaseTy} {v : Value}
    (base : type.nonNull = .base b) (rebuilds : b.Rebuilds rules)
    (member : v.isNull = false → b.contains v = true) :
    ∃ e, flattenConst rules type v = .ok e ∧
      e.leaves.map storedValue? = (b.split rules v).map some := by
  have layout? : type.layout? = b.layout := by
    rw [Ty.layout?, base]
    rfl
  unfold flattenConst BaseTy.split
  rw [layout?]
  cases layout : b.layout with
  | none => exact ⟨_, rfl, rfl⟩
  | some l =>
    dsimp only
    cases null : v.isNull with
    | true => exact ⟨l.nulls, rfl, l.stored_nulls⟩
    | false =>
      obtain ⟨e, values, stored, columns, _⟩ := rebuilds l layout v (member null)
      rw [stored]
      refine ⟨e, rfl, ?_⟩
      simp only [Bool.false_eq_true, if_false]
      rw [columns, filterMap_eq_of_map columns]

namespace Ty

variable {rules : Rules} {check : TypeCheck} {env : Environment} {schema : Schema} {s : PassState}

/-- A flat expression whose leaves are the columns. -/
def StoredAs (columns : List Value) (e : Expr) : Prop :=
  e.leaves.map Expr.storedValue? = columns.map some

theorem exists_flatten_const {t : Ty} {v : Value} {columns : List Value}
    (h : ∃ e, Expr.flattenConst rules t v = .ok e ∧ StoredAs columns e) :
    ∃ part, ((Expr.const t v).flatten ⟨check, rules⟩ env schema).Yields s part s ∧
      StoredAs columns part.expr := by
  obtain ⟨e, flat, stored⟩ := h
  exact ⟨.plain e, Expr.yields_flatten_const.2 ⟨e, flat, rfl, rfl⟩, stored⟩

mutual

/-- Flattening the literal of a legible member gives its columns, and draws no name. -/
theorem exists_flatten_literal : ∀ {t : Ty} {v : Value}, t.EveryBase (BaseTy.Rebuilds rules) →
    t.isMember v = true →
    t.isLegible rules v = true →
    ∃ part, ((t.literal v).flatten ⟨check, rules⟩ env schema).Yields s part s ∧
      StoredAs (t.split rules v) part.expr
  | .base b, v, rebuilds, member, _ => by
    rw [split]
    exact exists_flatten_const (Expr.exists_flattenConst rfl rebuilds fun _ => member)
  | .nullable (.base b), v, rebuilds, member, _ => by
    rw [split]
    exact exists_flatten_const
      (Expr.exists_flattenConst rfl rebuilds (contains_of_isMember_nullable member))
  | .nullable (.product ts), v, rebuilds, member, legible => by
    rcases cases_of_isMember_nullable_product member with rfl | ⟨vs, rfl, members⟩
    · cases legible
    · simp only [literal, split]
      exact exists_flatten_literals rebuilds members legible
  | .product ts, v, rebuilds, member, legible => by
    cases v with
    | tuple vs =>
      simp only [literal, split]
      exact exists_flatten_literals rebuilds member legible
    | _ => cases member
  | .nullable (.nullable _), _, _, _, _ | .nullable (.set _), _, _, _, _
  | .nullable (.boundedString _), _, _, _, _ | .set _, _, _, _, _ | .boundedString _, _, _, _, _ =>
    exists_flatten_const ⟨_, rfl, rfl⟩

theorem exists_flatten_literals :
    ∀ {ts : List Ty} {vs : List Value}, EveryBaseOf (BaseTy.Rebuilds rules) ts →
    areMembers ts vs = true → areLegible rules ts vs = true →
      ∃ part, ((Expr.tuple (literals ts vs)).flatten ⟨check, rules⟩ env schema).Yields s part s ∧
        StoredAs (splitAll rules ts vs) part.expr
  | [], [], _, _, _ => by
    refine ⟨_, Expr.yields_flatten_tuple.2 ⟨[], Expr.yields_flattenItems_nil.2 ⟨rfl, rfl⟩, rfl⟩, ?_⟩
    rfl
  | t :: ts, v :: vs, rebuilds, members, legible => by
    rw [areMembers, Bool.and_eq_true] at members
    rw [areLegible, Bool.and_eq_true] at legible
    obtain ⟨first, run, stored⟩ := exists_flatten_literal rebuilds.1 members.1 legible.1
    obtain ⟨rest, runRest, storedRest⟩ := exists_flatten_literals rebuilds.2 members.2 legible.2
    obtain ⟨parts, runItems, rfl⟩ := Expr.yields_flatten_tuple.1 runRest
    refine ⟨_, Expr.yields_flatten_tuple.2
      ⟨first :: parts, Expr.yields_flattenItems_cons.2 ⟨first, s, run, parts, runItems, rfl⟩, rfl⟩,
      ?_⟩
    unfold StoredAs at stored storedRest ⊢
    simp only [Flattened.gather, List.map_cons, Expr.leaves, Expr.itemLeaves, splitAll,
      List.map_append] at *
    rw [stored, storedRest]

end

end Ty

/-! ## Rows -/

/-- Legible members, one for each column of a schema, are rebuilt from the row of their columns.
This is the row that flattening makes of their literals. -/
theorem Schema.reifyRow_splitAll (rules : Rules) (schema : Schema) (vs : List Value)
    (rebuilds : Ty.EveryBaseOf (BaseTy.Rebuilds rules) schema.types)
    (members : Ty.areMembers schema.types vs = true)
    (legible : Ty.areLegible rules schema.types vs = true) :
    (∀ (check : TypeCheck) (env : Environment) (outer : Schema) (s : PassState), ∃ part,
      ((Expr.tuple (Ty.literals schema.types vs)).flatten ⟨check, rules⟩ env outer).runFrom s =
        (.ok part, s) ∧
        part.expr.leaves.map Expr.storedValue? = (Ty.splitAll rules schema.types vs).map some) ∧
    schema.reifyRow (Ty.splitAll rules schema.types vs) = .ok vs := by
  refine ⟨fun check env outer s => Ty.exists_flatten_literals rebuilds members legible, ?_⟩
  rw [reifyRow, flatWidth, if_pos (Ty.length_splitAll rebuilds members)]
  exact Ty.reifyAll_splitAll rebuilds members legible

namespace Sample

/-- A base type of the given values, stored in the given layout. -/
def stored (name : String) (contains : Value → Bool) (layout : Layout) : BaseTy where
  name := name
  contains := contains
  toDatum v := .error (Ty.invalidValue name v)
  ofDatum d := .error (d.malformed name)
  numeric := false
  ordered := none
  layout := some layout

/-- An entry in a guest book: a name, where there is one. -/
def entry : BaseTy :=
  stored "entry"
    (fun
      | .tuple [v] => (Ty.nullable .string).isMember v
      | _ => false)
    { columns := [("name", .nullable .string)]
      encode := fun
        | .tuple [v] => .ok (.const (.nullable .string) v)
        | v => .error (.data (Ty.invalidValue "entry" v))
      reify := fun
        | [v] => .ok (.tuple [v])
        | columns =>
          .error (.invalidArgument (.cannotBuild "an entry"
            (Text.dumpList (Value.dumpItems columns)))) }

/-- A mark that is always missing. -/
def missing : BaseTy :=
  stored "missing" Value.isNull
    { columns := [("mark", .string)]
      encode := fun _ => .ok (.const .string (.string "-"))
      reify := fun
        | [.string _] => .ok .null
        | columns =>
          .error (.invalidArgument (.cannotBuild "a mark"
            (Text.dumpList (Value.dumpItems columns)))) }

theorem entry_rebuilds : entry.Rebuilds rules := by
  rintro l ⟨⟩ v member
  cases v with
  | tuple items =>
    match items, member with
    | [v], _ => exact ⟨_, [_], rfl, rfl, rfl, rfl⟩
  | _ => cases member

theorem missing_rebuilds : missing.Rebuilds rules := by
  rintro l ⟨⟩ v member
  cases v with
  | null => exact ⟨_, [_], rfl, rfl, rfl, rfl⟩
  | _ => cases member

/-- A guest's number, the entries of the guest and of a companion, and remarks. -/
def guests : Schema :=
  ⟨[("id", .integer), ("entries",
    .nullable (.product [.base entry, .nullable (.base entry), .nullable .integer])),
      ("last", .nullable (.base entry)), ("remarks", .set .string)]⟩

/-- A guest who signed, with a companion who did not, and no last entry. -/
def guest : List Value :=
  [.integer 7, .tuple [.tuple [.null], .tuple [.string "Ada"], .null], .null, .set [.string "late"]]

/-- A row of six columns, three of them null. -/
theorem guest_rebuilt : Ty.areMembers guests.types guest = true ∧
    Ty.splitAll .none guests.types guest =
      [.integer 7, .null, .string "Ada", .null, .null, .set [.string "late"]] ∧
    guests.reifyRow (Ty.splitAll .none guests.types guest) = .ok guest := by
  have scalar : ∀ {b : BaseTy}, b.layout = none → b.Rebuilds .none := by
    intro b absent l layout
    cases absent.symm.trans layout
  have rebuilds : Ty.EveryBaseOf (BaseTy.Rebuilds .none) guests.types :=
    ⟨scalar rfl, ⟨entry_rebuilds, entry_rebuilds, scalar rfl, trivial⟩, entry_rebuilds,
      scalar rfl, trivial⟩
  exact ⟨rfl, rfl, (guests.reifyRow_splitAll .none guest rebuilds rfl rfl).2⟩

/-- Three values whose columns are all null: an entry without a name where there could be none, an
absent pair of numbers, and a mark that is missing. The first is taken for an absent entry, the
second for a pair of nulls, and the third is refused. -/
theorem blank_columns :
    (entry.Rebuilds .none ∧ (Ty.nullable (.base entry)).isMember (.tuple [.null]) = true ∧
      (Ty.nullable (.base entry)).split .none (.tuple [.null]) = [.null] ∧
      (Schema.single "x" (.nullable (.base entry))).reifyRow [.null] = .ok [.null]) ∧
    ((Ty.nullable (.product [.integer, .integer])).isMember .null = true ∧
      (Ty.nullable (.product [.integer, .integer])).split .none .null = [.null, .null] ∧
      (Schema.single "x" (.nullable (.product [.integer, .integer]))).reifyRow [.null, .null] =
        .ok [.tuple [.null, .null]]) ∧
    (missing.Rebuilds .none ∧ (Ty.base missing).isMember .null = true ∧
      (Ty.base missing).split .none .null = [.null] ∧
      ∃ e, (Schema.single "x" (.base missing)).reifyRow [.null] = .error e) :=
  ⟨⟨entry_rebuilds, rfl, rfl, rfl⟩, ⟨rfl, rfl, rfl⟩, missing_rebuilds, rfl, rfl, _, rfl⟩

end Sample

end FlatPlan
