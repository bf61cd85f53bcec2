import FlatPlan.Plan.Form
import FlatPlan.Proofs.Steps
import FlatPlan.Proofs.TypeForms

/-!
# Plans and their datums

`Expr.Form` and `Query.Form` list the datums that stand for expressions and for queries, one form
for each tag, and `Expr.ofDatum_eq_ok` and `Query.ofDatum_eq_ok` say that these are the ones that
are read. The lists inside a plan are read and written item by item.
-/

namespace FlatPlan

variable {u : Universe}

/-- An error of a datum becomes an error of a plan, and an answer stays one. -/
theorem liftM_eq_ok {α : Type} {x : Except DataError α} {a : α} :
    (liftM x : Except Error α) = .ok a ↔ x = .ok a := by
  cases x with
  | error e => simp [liftM, monadLift, MonadLift.monadLift, liftData]
  | ok b => simp [liftM, monadLift, MonadLift.monadLift, liftData]

/-! ## Names -/

/-- A datum is read as a word exactly if it is the word's name. -/
theorem Keyword.ofDatum_eq_ok {α : Type} {words : List α} {name : α → String} {what : String}
    {unknown : String → Misuse} {d : Datum} {word : α}
    (back : named? words name (name word) = some word) :
    ofDatum (named? words name) what unknown d = .ok word ↔ d = .string (name word) := by
  simp only [ofDatum, bind_eq_ok, liftM_eq_ok, Datum.expectString_eq_ok]
  constructor
  · rintro ⟨text, rfl, h⟩
    split at h
    case h_1 found =>
      cases h
      rw [name_of_named? found]
    case h_2 => cases h
  · rintro rfl
    exact ⟨_, rfl, by rw [back]; rfl⟩

theorem Direction.ofDatum_eq_ok {d : Datum} {direction : Direction} :
    ofDatum d = .ok direction ↔ d = .string direction.name :=
  Keyword.ofDatum_eq_ok (ofName?_name direction)

theorem Aggregate.ofDatum_eq_ok {d : Datum} {fn : Aggregate} :
    ofDatum d = .ok fn ↔ d = .string fn.name :=
  Keyword.ofDatum_eq_ok (ofName?_name fn)

theorem MultiAggregate.ofDatum_eq_ok {d : Datum} {fn : MultiAggregate} :
    ofDatum d = .ok fn ↔ d = .string fn.name :=
  Keyword.ofDatum_eq_ok (ofName?_name fn)

namespace Universe

/-- Only registered operators are found. -/
theorem requireOperator_eq_ok {name : String} {op : Operator} :
    u.requireOperator name = .ok op ↔ u.operators.find? name = some op := by
  unfold requireOperator
  cases u.operators.find? name <;> simp

theorem requireRelation_eq_ok {name : String} {q : Query} :
    u.requireRelation name = .ok q ↔ u.relations.find? name = some q := by
  unfold requireRelation
  cases u.relations.find? name <;> simp

/-- A constant is read from a type and a value only if the value is a member of the type. -/
theorem constOfDatums_eq_ok {type value : Datum} {e : Expr} :
    u.constOfDatums type value = .ok e ↔ ∃ t v, Ty.ofDatum u.type? type = .ok t ∧
      t.datumToConst value = .ok v ∧ t.isMember v = true ∧ e = .const t v := by
  simp only [constOfDatums, Expr.constant, Ty.ensureMember, bind_eq_ok, liftM_eq_ok, pure_eq_ok]
  constructor
  · rintro ⟨t, read, v, found, _, member, rfl⟩
    split at member
    · exact ⟨t, v, read, found, ‹_›, rfl⟩
    · cases member
  · rintro ⟨t, v, read, found, member, rfl⟩
    exact ⟨t, read, v, found, (), if_pos member, rfl⟩

end Universe

/-! ## Lists -/

-- The equations of these functions are needed all over, and take long to make.
attribute [local simp] Expr.toDatum Query.toDatum Expr.ofDatum Query.ofDatum

/-- The datum of a branch: its condition and its result, each with a datum that belongs to it. -/
def Expr.BranchForm (own : Expr → Datum → Prop) (branch : Expr × Expr) (item : Datum) : Prop :=
  ∃ c r, item = .array [c, r] ∧ own branch.1 c ∧ own branch.2 r

/-- The datum of a column: its name and its expression. -/
def Query.ColumnForm (own : Expr → Datum → Prop) (column : String × Expr) (item : Datum) : Prop :=
  ∃ d, item = .array [.string column.1, d] ∧ own column.2 d

/-- The datum of an ordering key: its expression and its direction. -/
def Query.KeyForm (own : Expr → Datum → Prop) (key : Expr × Direction) (item : Datum) : Prop :=
  ∃ d, item = .array [d, .string key.2.name] ∧ own key.1 d

/-- The datum is the one of the expression. -/
def Expr.WrittenAs (e : Expr) (d : Datum) : Prop := e.toDatum = .ok d

/-- The datum stands for the expression. -/
def Expr.ReadFrom (u : Universe) (e : Expr) (d : Datum) : Prop := Expr.ofDatum u d = .ok e

namespace Expr

/-- Expressions are written one after the other. -/
theorem toDatums_eq_ok {es : List Expr} {ds : List Datum} : toDatums es = .ok ds ↔
    List.Forall₂ WrittenAs es ds := by
  induction es generalizing ds with
  | nil => rw [toDatums, List.forall₂_nil_left_iff, Except.ok.injEq, eq_comm]
  | cons e es ih =>
    simp only [toDatums, bind_eq_ok, pure_eq_ok, ih, List.forall₂_cons_left_iff, WrittenAs]
    grind

theorem branchesToDatums_eq_ok {branches : List (Expr × Expr)} {ds : List Datum} :
    branchesToDatums branches = .ok ds ↔ List.Forall₂ (BranchForm WrittenAs) branches ds := by
  induction branches generalizing ds with
  | nil => rw [branchesToDatums, List.forall₂_nil_left_iff, Except.ok.injEq, eq_comm]
  | cons branch branches ih =>
    simp only [branchesToDatums, bind_eq_ok, pure_eq_ok, ih, List.forall₂_cons_left_iff,
      BranchForm, WrittenAs]
    grind

/-- Expressions are read from an array, one from each item. -/
theorem listOfDatum_eq_ok {d : Datum} {es : List Expr} :
    listOfDatum u d = .ok es ↔ ∃ ds, d = .array ds ∧ List.Forall₂ (ReadFrom u) es ds := by
  have items : ∀ {ds es}, ofDatums u ds = .ok es ↔ List.Forall₂ (ReadFrom u) es ds := by
    intro ds
    induction ds with
    | nil => intro es; rw [ofDatums, List.forall₂_nil_right_iff, Except.ok.injEq, eq_comm]
    | cons d ds ih =>
      intro es
      simp only [ofDatums, bind_eq_ok, pure_eq_ok, ih, List.forall₂_cons_right_iff, ReadFrom]
      grind
  cases d <;> simp [listOfDatum, malformedForm, items]

/-- Branches are read from pairs, one from each item. -/
theorem branchesOfDatums_eq_ok {ds : List Datum} {branches : List (Expr × Expr)} :
    branchesOfDatums u ds = .ok branches ↔ List.Forall₂ (BranchForm (ReadFrom u)) branches ds := by
  induction ds generalizing branches with
  | nil => rw [branchesOfDatums, List.forall₂_nil_right_iff, Except.ok.injEq, eq_comm]
  | cons item ds ih =>
    rw [List.forall₂_cons_right_iff]
    constructor
    · intro h
      unfold branchesOfDatums at h
      split at h
      case h_1 equal => cases equal
      case h_2 c r _ equal =>
        cases equal
        simp only [bind_eq_ok, pure_eq_ok, ih] at h
        obtain ⟨condition, first, result, second, others, read, rfl⟩ := h
        exact ⟨(condition, result), others, ⟨c, r, rfl, first, second⟩, read, rfl⟩
      case h_3 => cases h
      case h_4 => cases h
    · rintro ⟨branch, others, ⟨c, r, rfl, first, second⟩, read, rfl⟩
      simp only [branchesOfDatums, bind_eq_ok, pure_eq_ok, ih]
      exact ⟨branch.1, first, branch.2, second, others, read, rfl⟩

end Expr

namespace Query

theorem columnsToDatums_eq_ok {columns : List (String × Expr)} {ds : List Datum} :
    columnsToDatums columns = .ok ds ↔ List.Forall₂ (ColumnForm Expr.WrittenAs) columns ds := by
  induction columns generalizing ds with
  | nil => rw [columnsToDatums, List.forall₂_nil_left_iff, Except.ok.injEq, eq_comm]
  | cons column columns ih =>
    simp only [columnsToDatums, bind_eq_ok, pure_eq_ok, ih, List.forall₂_cons_left_iff, ColumnForm,
      Expr.WrittenAs]
    grind

theorem keysToDatums_eq_ok {keys : List (Expr × Direction)} {ds : List Datum} :
    keysToDatums keys = .ok ds ↔ List.Forall₂ (KeyForm Expr.WrittenAs) keys ds := by
  induction keys generalizing ds with
  | nil => rw [keysToDatums, List.forall₂_nil_left_iff, Except.ok.injEq, eq_comm]
  | cons key keys ih =>
    simp only [keysToDatums, bind_eq_ok, pure_eq_ok, ih, List.forall₂_cons_left_iff, KeyForm,
      Expr.WrittenAs]
    grind

/-- Columns are read from pairs of a name and an expression, one from each item. -/
theorem columnsOfDatums_eq_ok {ds : List Datum} {columns : List (String × Expr)} :
    columnsOfDatums u ds = .ok columns ↔
      List.Forall₂ (ColumnForm (Expr.ReadFrom u)) columns ds := by
  induction ds generalizing columns with
  | nil => rw [columnsOfDatums, List.forall₂_nil_right_iff, Except.ok.injEq, eq_comm]
  | cons item ds ih =>
    rw [List.forall₂_cons_right_iff]
    constructor
    · intro h
      unfold columnsOfDatums at h
      split at h
      case h_1 equal => cases equal
      case h_2 n d _ equal =>
        cases equal
        simp only [bind_eq_ok, pure_eq_ok, liftM_eq_ok, Datum.expectString_eq_ok, ih] at h
        obtain ⟨name, rfl, e, own, others, read, rfl⟩ := h
        exact ⟨(name, e), others, ⟨d, rfl, own⟩, read, rfl⟩
      case h_3 => cases h
      case h_4 => cases h
    · rintro ⟨column, others, ⟨d, rfl, own⟩, read, rfl⟩
      simp only [columnsOfDatums, bind_eq_ok, pure_eq_ok, liftM_eq_ok, Datum.expectString_eq_ok, ih]
      exact ⟨column.1, rfl, column.2, own, others, read, rfl⟩

theorem columnsOfDatum_eq_ok {d : Datum} {columns : List (String × Expr)} :
    columnsOfDatum u d = .ok columns ↔
      ∃ ds, d = .array ds ∧ List.Forall₂ (ColumnForm (Expr.ReadFrom u)) columns ds := by
  cases d <;> simp [columnsOfDatum, malformedForm, columnsOfDatums_eq_ok]

/-- Ordering keys are read from pairs of an expression and a direction, one from each item. -/
theorem keysOfDatums_eq_ok {ds : List Datum} {keys : List (Expr × Direction)} :
    keysOfDatums u ds = .ok keys ↔ List.Forall₂ (KeyForm (Expr.ReadFrom u)) keys ds := by
  induction ds generalizing keys with
  | nil => rw [keysOfDatums, List.forall₂_nil_right_iff, Except.ok.injEq, eq_comm]
  | cons item ds ih =>
    rw [List.forall₂_cons_right_iff]
    constructor
    · intro h
      unfold keysOfDatums at h
      split at h
      case h_1 equal => cases equal
      case h_2 d _ _ equal =>
        cases equal
        simp only [bind_eq_ok, pure_eq_ok, Direction.ofDatum_eq_ok, ih] at h
        obtain ⟨e, own, direction, rfl, others, read, rfl⟩ := h
        exact ⟨(e, direction), others, ⟨d, rfl, own⟩, read, rfl⟩
      case h_3 => cases h
      case h_4 => cases h
    · rintro ⟨key, others, ⟨d, rfl, own⟩, read, rfl⟩
      simp only [keysOfDatums, bind_eq_ok, pure_eq_ok, Direction.ofDatum_eq_ok, ih]
      exact ⟨key.1, own, key.2, rfl, others, read, rfl⟩

end Query

/-! ## Forms -/

/-- The datums of expressions; parts are read by `Expr.ofDatum` and `Query.ofDatum`. -/
inductive Expr.Form (u : Universe) : Datum → Expr → Prop
  | attr (name : String) : Form u (.tagged "attribute-ref" [.string name]) (.attr name)
  | const {t v : Datum} {type : Ty} {value : Value} (resolved : Ty.ofDatum u.type? t = .ok type)
    (read : type.datumToConst v = .ok value) (member : type.isMember value = true) :
    Form u (.tagged "const" [t, v]) (.const type value)
  | null {t : Datum} {type : Ty} (resolved : Ty.ofDatum u.type? t = .ok type) :
    Form u (.tagged "null-const" [t]) (.null type)
  | apply {name : String} {ds : List Datum} {op : Operator} {args : List Expr}
    (found : u.operators.find? name = some op) (read : List.Forall₂ (ReadFrom u) args ds) :
    Form u (.tagged "application" [.string name, .array ds]) (.apply op args)
  | tuple {ds : List Datum} {items : List Expr} (read : List.Forall₂ (ReadFrom u) items ds) :
    Form u (.tagged "tuple" [.array ds]) (.tuple items)
  | aggregate (fn : Aggregate) {d : Datum} {arg : Expr} (read : arg.ReadFrom u d) :
    Form u (.tagged "aggregation" [.string fn.name, d]) (.aggregate fn arg)
  | multiAggregate (fn : MultiAggregate) {ds : List Datum} {args : List Expr}
    (read : List.Forall₂ (ReadFrom u) args ds) :
    Form u (.tagged "multi-aggregation" [.string fn.name, .array ds]) (.multiAggregate fn args)
  | case {ds : List Datum} {d : Datum} {branches : List (Expr × Expr)} {default : Expr}
    (read : List.Forall₂ (BranchForm (ReadFrom u)) branches ds) (otherwise : default.ReadFrom u d) :
    Form u (.tagged "case-expr" [.array ds, d]) (.case branches default)
  | scalarSubquery {d : Datum} {query : Query} (read : Query.ofDatum u d = .ok query) :
    Form u (.tagged "scalar-subquery" [d]) (.scalarSubquery query)
  | setSubquery {d : Datum} {query : Query} (read : Query.ofDatum u d = .ok query) :
    Form u (.tagged "set-subquery" [d]) (.setSubquery query)

/-- The datums of queries. A projection to no columns is put on what its input projects, and the
empty relation is left out of a product. -/
inductive Query.Form (u : Universe) : Datum → Query → Prop
  | empty : Form u (.tagged "empty" []) .empty
  | relation {name : String} {q : Query} (found : u.relations.find? name = some q) :
    Form u (.tagged "base-relation" [.string name]) q
  | project {ds : List Datum} {d : Datum} {columns : List (String × Expr)} {input : Query}
    (distinct : (columns.map Prod.fst).Nodup)
    (read : List.Forall₂ (ColumnForm (Expr.ReadFrom u)) columns ds)
    (below : Query.ofDatum u d = .ok input) :
    Form u (.tagged "project" [.array ds, d])
      (.project columns (if columns.isEmpty then input.skipProjections else input))
  | grouping {ds : List Datum} {d : Datum} {columns : List (String × Expr)} {input : Query}
    (distinct : (columns.map Prod.fst).Nodup)
    (read : List.Forall₂ (ColumnForm (Expr.ReadFrom u)) columns ds)
    (below : Query.ofDatum u d = .ok input) :
    Form u (.tagged "grouping-project" [.array ds, d]) (.grouping columns input)
  | restrict {p d : Datum} {predicate : Expr} {input : Query} (read : predicate.ReadFrom u p)
    (below : Query.ofDatum u d = .ok input) :
      Form u (.tagged "restrict" [p, d]) (.restrict predicate input)
  | combine (op : CombineOp) {l r : Datum} {left right : Query}
    (first : Query.ofDatum u l = .ok left) (second : Query.ofDatum u r = .ok right) :
      Form u (.tagged op.name [l, r]) (combination op left right)
  | order {ds : List Datum} {d : Datum} {keys : List (Expr × Direction)} {input : Query}
    (read : List.Forall₂ (KeyForm (Expr.ReadFrom u)) keys ds)
    (below : Query.ofDatum u d = .ok input) :
    Form u (.tagged "order" [.array ds, d]) (.order keys input)
  | top (offset count : UInt64) {d : Datum} {input : Query}
    (below : Query.ofDatum u d = .ok input) :
    Form u (.tagged "top" [.integer offset, .integer count, d]) (.top offset count input)

/-- A datum that is read as an expression has one of the forms. -/
theorem Expr.form_of_ofDatum {d : Datum} {e : Expr} (h : ofDatum u d = .ok e) : Form u d e := by
  unfold ofDatum at h
  split at h
  case h_1 tag parts =>
    split at h
    · subst tag
      split at h
      · simp only [bind_eq_ok, pure_eq_ok, liftM_eq_ok, Datum.expectString_eq_ok] at h
        obtain ⟨name, rfl, rfl⟩ := h
        exact .attr name
      · cases h
    split at h
    · subst tag
      split at h
      · obtain ⟨type, value, resolved, read, member, rfl⟩ := Universe.constOfDatums_eq_ok.1 h
        exact .const resolved read member
      · cases h
    split at h
    · subst tag
      split at h
      · simp only [bind_eq_ok, pure_eq_ok, liftM_eq_ok] at h
        obtain ⟨type, resolved, rfl⟩ := h
        exact .null resolved
      · cases h
    split at h
    · subst tag
      split at h
      · simp only [bind_eq_ok, pure_eq_ok, liftM_eq_ok, Datum.expectString_eq_ok,
          Universe.requireOperator_eq_ok, listOfDatum_eq_ok] at h
        obtain ⟨name, rfl, op, found, args, ⟨ds, rfl, read⟩, rfl⟩ := h
        exact .apply found read
      · cases h
    split at h
    · subst tag
      split at h
      · simp only [bind_eq_ok, pure_eq_ok, listOfDatum_eq_ok] at h
        obtain ⟨items, ⟨ds, rfl, read⟩, rfl⟩ := h
        exact .tuple read
      · cases h
    split at h
    · subst tag
      split at h
      · simp only [bind_eq_ok, pure_eq_ok, Aggregate.ofDatum_eq_ok] at h
        obtain ⟨fn, rfl, arg, read, rfl⟩ := h
        exact .aggregate fn read
      · cases h
    split at h
    · subst tag
      split at h
      · simp only [bind_eq_ok, pure_eq_ok, MultiAggregate.ofDatum_eq_ok, listOfDatum_eq_ok] at h
        obtain ⟨fn, rfl, args, ⟨ds, rfl, read⟩, rfl⟩ := h
        exact .multiAggregate fn read
      · cases h
    split at h
    · subst tag
      split at h
      · simp only [bind_eq_ok, pure_eq_ok, branchesOfDatums_eq_ok] at h
        obtain ⟨branches, read, default, otherwise, rfl⟩ := h
        exact .case read otherwise
      · cases h
      · cases h
    split at h
    · subst tag
      split at h
      · simp only [bind_eq_ok, pure_eq_ok] at h
        obtain ⟨query, read, rfl⟩ := h
        exact .scalarSubquery read
      · cases h
    split at h
    · subst tag
      split at h
      · simp only [bind_eq_ok, pure_eq_ok] at h
        obtain ⟨query, read, rfl⟩ := h
        exact .setSubquery read
      · cases h
    · cases h
  case h_2 => cases h

/-- A datum of one of the forms is read as the expression that the form says. -/
theorem Expr.Form.ofDatum {d : Datum} {e : Expr} (h : Form u d e) : Expr.ofDatum u d = .ok e := by
  cases h with
  | attr name =>
    simp only [Datum.tagged, Expr.ofDatum, ↓reduceIte, bind_eq_ok, pure_eq_ok, liftM_eq_ok,
      Datum.expectString_eq_ok]
    exact ⟨name, rfl, rfl⟩
  | const resolved read member =>
    simp only [Datum.tagged, Expr.ofDatum, ↓reduceIte, String.reduceEq]
    exact Universe.constOfDatums_eq_ok.2 ⟨_, _, resolved, read, member, rfl⟩
  | null resolved =>
    simp only [Datum.tagged, Expr.ofDatum, ↓reduceIte, String.reduceEq, bind_eq_ok,
      pure_eq_ok, liftM_eq_ok]
    exact ⟨_, resolved, rfl⟩
  | apply found read =>
    simp only [Datum.tagged, Expr.ofDatum, ↓reduceIte, String.reduceEq, bind_eq_ok, pure_eq_ok,
      liftM_eq_ok, Datum.expectString_eq_ok, Universe.requireOperator_eq_ok, listOfDatum_eq_ok]
    exact ⟨_, rfl, _, found, _, ⟨_, rfl, read⟩, rfl⟩
  | tuple read =>
    simp only [Datum.tagged, Expr.ofDatum, ↓reduceIte, String.reduceEq, bind_eq_ok, pure_eq_ok,
      listOfDatum_eq_ok]
    exact ⟨_, ⟨_, rfl, read⟩, rfl⟩
  | aggregate fn read =>
    simp only [Datum.tagged, Expr.ofDatum, ↓reduceIte, String.reduceEq, bind_eq_ok, pure_eq_ok,
      Aggregate.ofDatum_eq_ok]
    exact ⟨fn, rfl, _, read, rfl⟩
  | multiAggregate fn read =>
    simp only [Datum.tagged, Expr.ofDatum, ↓reduceIte, String.reduceEq, bind_eq_ok, pure_eq_ok,
      MultiAggregate.ofDatum_eq_ok, listOfDatum_eq_ok]
    exact ⟨fn, rfl, _, ⟨_, rfl, read⟩, rfl⟩
  | case read otherwise =>
    simp only [Datum.tagged, Expr.ofDatum, ↓reduceIte, String.reduceEq, bind_eq_ok, pure_eq_ok,
      branchesOfDatums_eq_ok]
    exact ⟨_, read, _, otherwise, rfl⟩
  | scalarSubquery read =>
    simp only [Datum.tagged, Expr.ofDatum, ↓reduceIte, String.reduceEq, bind_eq_ok, pure_eq_ok]
    exact ⟨_, read, rfl⟩
  | setSubquery read =>
    simp only [Datum.tagged, Expr.ofDatum, ↓reduceIte, String.reduceEq, bind_eq_ok, pure_eq_ok]
    exact ⟨_, read, rfl⟩

/-- The forms are the datums that are read as expressions. -/
theorem Expr.ofDatum_eq_ok {d : Datum} {e : Expr} : ofDatum u d = .ok e ↔ Form u d e :=
  ⟨form_of_ofDatum, Form.ofDatum⟩

/-- A grouping is built only if its columns have different names. -/
theorem Query.groupingProjection_eq_ok {columns : List (String × Expr)} {input q : Query} :
    groupingProjection columns input = .ok q ↔ (columns.map Prod.fst).Nodup ∧
      q = .grouping columns input := by
  simp only [groupingProjection, bind_eq_ok, pure_eq_ok, Unique.exists_iff, PUnit.default_eq_unit,
    checkUnique_eq_ok]

/-- A datum that is read as a query has one of the forms. -/
theorem Query.form_of_ofDatum {d : Datum} {q : Query} (h : ofDatum u d = .ok q) : Form u d q := by
  unfold ofDatum at h
  split at h
  case h_1 tag parts =>
    split at h
    · subst tag
      split at h
      · cases h
        exact .empty
      · cases h
    split at h
    · subst tag
      split at h
      · simp only [bind_eq_ok, liftM_eq_ok, Datum.expectString_eq_ok,
          Universe.requireRelation_eq_ok] at h
        obtain ⟨name, rfl, found⟩ := h
        exact .relation found
      · cases h
    split at h
    · subst tag
      split at h
      · simp only [bind_eq_ok, columnsOfDatum_eq_ok, projection_eq_ok] at h
        obtain ⟨columns, ⟨ds, rfl, read⟩, input, below, distinct, rfl⟩ := h
        exact .project distinct read below
      · cases h
    split at h
    · subst tag
      split at h
      · simp only [bind_eq_ok, columnsOfDatum_eq_ok, groupingProjection_eq_ok] at h
        obtain ⟨columns, ⟨ds, rfl, read⟩, input, below, distinct, rfl⟩ := h
        exact .grouping distinct read below
      · cases h
    split at h
    · subst tag
      split at h
      · simp only [bind_eq_ok, pure_eq_ok] at h
        obtain ⟨predicate, read, input, below, rfl⟩ := h
        exact .restrict read below
      · cases h
    split at h
    · subst tag
      split at h
      · simp only [bind_eq_ok, pure_eq_ok, keysOfDatums_eq_ok] at h
        obtain ⟨keys, read, input, below, rfl⟩ := h
        exact .order read below
      · cases h
      · cases h
    split at h
    · subst tag
      split at h
      · simp only [bind_eq_ok, pure_eq_ok, liftM_eq_ok, Datum.expectUInt64_eq_ok] at h
        obtain ⟨offset, rfl, count, rfl, input, below, rfl⟩ := h
        exact .top offset count below
      · cases h
    split at h
    case h_1 => cases h
    case h_2 op found =>
      cases Keyword.name_of_named? found
      split at h
      · simp only [bind_eq_ok, pure_eq_ok] at h
        obtain ⟨left, first, right, second, rfl⟩ := h
        exact .combine op first second
      · cases h
  case h_2 => cases h

/-- A datum of one of the forms is read as the query that the form says. -/
theorem Query.Form.ofDatum {d : Datum} {q : Query} (h : Form u d q) :
    Query.ofDatum u d = .ok q := by
  cases h with
  | empty => simp only [Datum.tagged, Query.ofDatum, ↓reduceIte]
  | relation found =>
    simp only [Datum.tagged, Query.ofDatum, ↓reduceIte, String.reduceEq, bind_eq_ok, liftM_eq_ok,
      Datum.expectString_eq_ok, Universe.requireRelation_eq_ok]
    exact ⟨_, rfl, found⟩
  | project distinct read below =>
    simp only [Datum.tagged, Query.ofDatum, ↓reduceIte, String.reduceEq, bind_eq_ok,
      columnsOfDatum_eq_ok, projection_eq_ok]
    exact ⟨_, ⟨_, rfl, read⟩, _, below, distinct, rfl⟩
  | grouping distinct read below =>
    simp only [Datum.tagged, Query.ofDatum, ↓reduceIte, String.reduceEq, bind_eq_ok,
      columnsOfDatum_eq_ok, groupingProjection_eq_ok]
    exact ⟨_, ⟨_, rfl, read⟩, _, below, distinct, rfl⟩
  | restrict read below =>
    simp only [Datum.tagged, Query.ofDatum, ↓reduceIte, String.reduceEq, bind_eq_ok, pure_eq_ok]
    exact ⟨_, read, _, below, rfl⟩
  | combine op first second =>
    -- The tag of each combination is compared with those of the other forms.
    have back := CombineOp.ofName?_name op
    cases op <;>
      simp only [CombineOp.name] at back <;>
      simp only [Datum.tagged, CombineOp.name, Query.ofDatum, ↓reduceIte, String.reduceEq, back,
        bind_eq_ok, pure_eq_ok] <;>
      exact ⟨_, first, _, second, rfl⟩
  | order read below =>
    simp only [Datum.tagged, Query.ofDatum, ↓reduceIte, String.reduceEq, bind_eq_ok, pure_eq_ok,
      keysOfDatums_eq_ok]
    exact ⟨_, read, _, below, rfl⟩
  | top offset count below =>
    simp only [Datum.tagged, Query.ofDatum, ↓reduceIte, String.reduceEq, bind_eq_ok, pure_eq_ok,
      liftM_eq_ok, Datum.expectUInt64_eq_ok]
    exact ⟨offset, rfl, count, rfl, _, below, rfl⟩

/-- The forms are the datums that are read as queries. -/
theorem Query.ofDatum_eq_ok {d : Datum} {q : Query} : ofDatum u d = .ok q ↔ Form u d q :=
  ⟨form_of_ofDatum, Form.ofDatum⟩

end FlatPlan
