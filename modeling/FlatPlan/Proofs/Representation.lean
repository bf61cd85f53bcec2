import FlatPlan.Proofs.Steps
import FlatPlan.Proofs.Typing

/-!
# Flat values of a type

What a flat expression looks like for a value of a given type, over rows of flat columns. A `Leaf`
is a scalar expression of that type in which nothing structured is left; `Represents` says that an
expression is a leaf, or a tuple of one item for each component of the type. The operations that
flattening applies to such values give such values again: comparison part by part
(`Represents.compare`), choice (`Represents.distribute`), and counting (`Represents.firstLeaf?`).
-/

namespace FlatPlan

attribute [local simp] Expr.shape Expr.aggregateCount

/-- Nodes that are left in a flat plan: no tuples, no galaxies, no structured constants. -/
def NodeProperty.flat : NodeProperty where
  expr
    | .tuple _ => False
    | .const type _ => type.isStructured = false
    | .null type => type.isStructured = false
    | _ => True
  query
    | .galaxy _ => False
    | _ => True

/-- The nodes of a flat plan over a vocabulary. -/
def Vocabulary.flatPlan (v : Vocabulary) : NodeProperty := v.wording.and .flat

/-- A flat scalar of a type over rows of flat columns, without aggregations where it has to be
`free`. -/
structure Leaf (v : Vocabulary) (rows : Schema) (free : Prop) (e : Expr) (type : Ty) : Prop where
  noTuple : e.isTuple = false
  unstructured : type.isStructured = false
  named : v.Names type
  typed : e.typeOf v.checked rows = .ok type
  nodes : e.Everywhere v.flatPlan
  count : free → e.aggregateCount = 0

mutual

/-- A flat value of a type: a leaf, or a tuple of the components. -/
inductive Represents (v : Vocabulary) (rows : Schema) (free : Prop) : Expr → Ty → Prop
  | leaf {e : Expr} {type : Ty} : Leaf v rows free e type → Represents v rows free e type
  | tuple {items : List Expr} {type : Ty} {types : List Ty} : type.components? = some types →
      RepresentAll v rows free items types → Represents v rows free (.tuple items) type

/-- Flat values of the types, in order. -/
inductive RepresentAll (v : Vocabulary) (rows : Schema) (free : Prop) : List Expr → List Ty → Prop
  | nil : RepresentAll v rows free [] []
  | cons {e : Expr} {type : Ty} {es : List Expr} {types : List Ty} : Represents v rows free e type →
      RepresentAll v rows free es types → RepresentAll v rows free (e :: es) (type :: types)

end

variable {v : Vocabulary} {rows : Schema} {free : Prop}

theorem representAll_iff {es : List Expr} {types : List Ty} :
    RepresentAll v rows free es types ↔ List.Forall₂ (Represents v rows free) es types := by
  constructor
  · intro h
    induction es generalizing types with
    | nil =>
      cases h
      exact .nil
    | cons e es ih =>
      cases h with
      | cons first rest => exact .cons first (ih rest)
  · intro h
    induction h with
    | nil => exact .nil
    | cons first _ ih => exact .cons first ih

/-- A flat value is a leaf unless its type has components. -/
theorem Represents.leaf_of_components? {e : Expr} {type : Ty} (h : Represents v rows free e type)
    (none : type.components? = none) : Leaf v rows free e type := by
  cases h with
  | leaf leaf => exact leaf
  | tuple components _ => cases none.symm.trans components

/-- A value of a scalar type is represented by one expression. -/
theorem Represents.leaf_of_isScalar {e : Expr} {type : Ty} (h : Represents v rows free e type)
    (scalar : type.isScalar = true) : Leaf v rows free e type :=
  h.leaf_of_components? (Ty.components?_of_isScalar scalar)

/-- What is no tuple represents its value by itself. -/
theorem Represents.leaf_of_noTuple {e : Expr} {type : Ty} (h : Represents v rows free e type)
    (noTuple : e.isTuple = false) : Leaf v rows free e type := by
  cases h with
  | leaf leaf => exact leaf
  | tuple _ _ => cases noTuple

/-- Values of unstructured types that are no products are leaves. -/
theorem RepresentAll.leaves {es : List Expr} {types : List Ty}
    (h : RepresentAll v rows free es types) (plain : ∀ type ∈ types, type.components? = none) :
    List.Forall₂ (Leaf v rows free) es types := by
  rw [representAll_iff] at h
  induction h with
  | nil => exact .nil
  | cons first _ ih =>
    rw [List.forall_mem_cons] at plain
    exact .cons (first.leaf_of_components? plain.1) (ih plain.2)

/-- A flat value of a type that is no product is a leaf or a tuple of leaves, one for each column of
the layout. -/
theorem Represents.leaf_or_leaves {e : Expr} {type : Ty} (h : Represents v rows free e type)
    (named : v.Names type) (noProduct : type.isProduct = false) :
    (type.layout? = none ∧ Leaf v rows free e type) ∨
      ∃ items l, e = .tuple items ∧ type.layout? = some l ∧
        List.Forall₂ (Leaf v rows free) items (l.columns.map Prod.snd) := by
  cases h with
  | leaf leaf => exact .inl ⟨Ty.isStructured_eq_false.1 leaf.unstructured, leaf⟩
  | @tuple items _ types components all =>
    rcases Ty.components?_cases components with ⟨l, layout, rfl⟩ | rfl
    · refine .inr ⟨items, l, rfl, layout, all.leaves fun t member => ?_⟩
      obtain ⟨c, among, rfl⟩ := List.mem_map.1 member
      obtain ⟨_, unstructured, noProduct⟩ := v.layout_columns named layout c among
      exact Ty.components?_of_not_product (Ty.isStructured_eq_false.1 unstructured) noProduct
    · cases noProduct

theorem Leaf.noTuples {es : List Expr} {types : List Ty}
    (h : List.Forall₂ (Leaf v rows free) es types) :
    ∀ e ∈ es, e.isTuple = false := by
  intro e member
  obtain ⟨_, _, leaf⟩ := exists_of_mem_right h.flip member
  exact leaf.noTuple

/-! ## Constants -/

namespace Leaf

/-- A reference to a column of the flat rows is a leaf. -/
theorem attr {name : String} {type : Ty} (unstructured : type.isStructured = false)
    (named : v.Names type) (found : rows.get? name = some type) :
    Leaf v rows free (.attr name) type where
  noTuple := rfl
  unstructured := unstructured
  named := named
  typed := Expr.typeOf_attr.2 found
  nodes := by
    rw [Expr.everywhere_attr]
    exact ⟨trivial, trivial⟩
  count _ := by rw [Expr.aggregateCount]

/-- A constant of an unstructured type is a leaf. -/
theorem const {type : Ty} {value : Value} (unstructured : type.isStructured = false)
    (named : v.Names type) : Leaf v rows free (.const type value) type where
  noTuple := rfl
  unstructured := unstructured
  named := named
  typed := Expr.typeOf_const.2 rfl
  nodes := by
    rw [Expr.everywhere_const]
    exact ⟨named, unstructured⟩
  count _ := by rw [Expr.aggregateCount]

/-- A null of an unstructured type is a leaf. -/
theorem null {type : Ty} (unstructured : type.isStructured = false) (named : v.Names type) :
    Leaf v rows free (.null type) type where
  noTuple := rfl
  unstructured := unstructured
  named := named
  typed := Expr.typeOf_null.2 rfl
  nodes := by
    rw [Expr.everywhere_null]
    exact ⟨named, unstructured⟩
  count _ := by rw [Expr.aggregateCount]

end Leaf

/-- A null for each column of its layout represents the null of a structured type. -/
theorem Represents.nulls {type : Ty} {l : Layout} (named : v.Names type)
    (layout : type.layout? = some l) :
    Represents v rows free l.nulls type := by
  refine .tuple (Ty.components?_of_layout? layout) (representAll_iff.2 ?_)
  rw [List.forall₂_map_left_iff, List.forall₂_map_right_iff, List.forall₂_same]
  intro c member
  obtain ⟨namedColumn, unstructured, _⟩ := v.layout_columns named layout c member
  exact .leaf (.null unstructured namedColumn)

/-- One constant for each column of the layout is a value of the type. -/
theorem Represents.constants {type : Ty} {l : Layout} {values : List Value} (named : v.Names type)
    (layout : type.layout? = some l) (length : values.length = l.columns.length) :
    Represents v rows free (.tuple (l.constants values)) type := by
  unfold Layout.constants
  refine .tuple (Ty.components?_of_layout? layout) (representAll_iff.2 ?_)
  have columns := v.layout_columns named layout
  generalize l.columns = outputs at columns length
  induction outputs generalizing values with
  | nil => exact .nil
  | cons c outputs ih =>
    rw [List.forall_mem_cons] at columns
    obtain ⟨⟨namedColumn, unstructured, _⟩, rest⟩ := columns
    cases values with
    | nil => cases length
    | cons value values =>
      rw [List.zipWith_cons_cons, List.map_cons]
      exact .cons (.leaf (.const unstructured namedColumn)) (ih rest (Nat.succ.inj length))

/-- A member of a structured type other than null belongs to the base type that carries the layout.
-/
theorem Ty.contains_of_isMember {type : Ty} {l : Layout} {value : Value}
    (layout : type.layout? = some l) (notNull : value.isNull = false)
    (member : type.isMember value = true) :
    ∃ b, type.nonNull = .base b ∧ b.layout = some l ∧ b.contains value = true := by
  obtain ⟨b, base, own⟩ := Ty.layout?_eq_some.1 layout
  refine ⟨b, base, own, ?_⟩
  cases type with
  | base b' =>
    cases base
    exact member
  | nullable inner =>
    cases base
    cases value with
    | null => cases notNull
    | _ => exact member
  | _ => cases base

/-- A structured member is stored as one constant a column. -/
theorem Vocabulary.stored_of_isMember {type : Ty} {l : Layout} {value : Value}
    (named : v.Names type) (layout : type.layout? = some l) (notNull : value.isNull = false)
    (member : type.isMember value = true) :
    ∃ values, values.length = l.columns.length ∧
      l.stored v.rules value = .ok (.tuple (l.constants values)) := by
  obtain ⟨b, base, own, contains⟩ := Ty.contains_of_isMember layout notNull member
  have known := Ty.namedIn_nonNull named
  rw [base] at known
  exact v.encode known own contains

/-- A structured constant is stored as a tuple of constants, any other stays. -/
theorem Represents.flattenConst {type : Ty} {value : Value} {e : Expr} (named : v.Names type)
    (stores : type.Stores v.rules value) (h : Expr.flattenConst v.rules type value = .ok e) :
    Represents v rows free e type := by
  rcases Expr.flattenConst_eq_ok.1 h with ⟨layout, rfl⟩ | ⟨l, layout, ⟨_, rfl⟩ | ⟨notNull, stored⟩⟩
  · exact .leaf (.const (Ty.isStructured_eq_false.2 layout) named)
  · exact .nulls named layout
  · obtain ⟨values, length, encoded⟩ :=
      v.stored_of_isMember named layout notNull (stores l e layout notNull stored)
    cases stored.symm.trans encoded
    exact .constants named layout length

/-- What a null is stored as represents it. -/
theorem Represents.flattenNull {type : Ty} (named : v.Names type) :
    Represents v rows free (Expr.flattenNull type) type := by
  unfold Expr.flattenNull
  cases layout : type.layout? with
  | none => exact .leaf (.null (Ty.isStructured_eq_false.2 layout) named)
  | some l => exact .nulls named layout

/-! ## Applications -/

theorem Expr.itemAggregateCount_eq_zero {es : List Expr} :
    Expr.itemAggregateCount es = 0 ↔ ∀ e ∈ es, e.aggregateCount = 0 := by
  induction es with
  | nil => simp [Expr.itemAggregateCount]
  | cons e es ih => rw [Expr.itemAggregateCount, Nat.add_eq_zero_iff, ih, List.forall_mem_cons]

theorem Leaf.typesOf {es : List Expr} {types : List Ty}
    (h : List.Forall₂ (Leaf v rows free) es types) :
    Expr.typesOf v.checked rows es = .ok types :=
  Expr.typesOf_eq_ok.2 (h.imp fun _ _ leaf => leaf.typed)

/-- An operator of leaves is a leaf, if it answers an unstructured type. -/
theorem Leaf.apply {op : Operator} {args : List Expr} {types : List Ty} {type : Ty}
    (regular : op.Regular v) (leaves : List.Forall₂ (Leaf v rows free) args types)
    (range : op.range v.checked types = .ok type) (unstructured : type.isStructured = false)
    (named : v.Names type) : Leaf v rows free (.apply op args) type where
  noTuple := rfl
  unstructured := unstructured
  named := named
  typed := Expr.typeOf_apply.2 ⟨types, Leaf.typesOf leaves, range⟩
  nodes := by
    rw [Expr.everywhere_apply]
    refine ⟨⟨regular, trivial⟩, fun e member => ?_⟩
    obtain ⟨type, _, leaf⟩ := exists_of_mem_right leaves.flip member
    exact leaf.nodes
  count isFree := by
    rw [Expr.aggregateCount, Expr.itemAggregateCount_eq_zero]
    intro e member
    obtain ⟨type, _, leaf⟩ := exists_of_mem_right leaves.flip member
    exact leaf.count isFree

/-- A connective of flat truth values. -/
theorem Leaf.logical (name : String) {left right : Expr} (hl : Leaf v rows free left .boolean)
    (hr : Leaf v rows free right .boolean) :
    Leaf v rows free (.apply (.logical name) [left, right]) .boolean := by
  have boolean : v.checked.expect .boolean .boolean = .ok () :=
    (Vocabulary.expect_checked Vocabulary.names_boolean Vocabulary.names_boolean).2 rfl
  have range : (Operator.logical name).range v.checked [.boolean, .boolean] = .ok .boolean := by
    simp only [Operator.logical, Operator.onTwo, bind_eq_ok, pure_eq_ok]
    exact ⟨(), boolean, (), boolean, trivial⟩
  exact .apply (.inl (Operator.logical_onScalars name)) (.cons hl (.cons hr .nil)) range rfl
    Vocabulary.names_boolean

/-- Parts of boolean type are joined to an expression of boolean type. -/
theorem Leaf.joinAll {op : Operator} {name : String} {parts : List Expr} {e : Expr}
    (leaves : ∀ part ∈ parts, Leaf v rows free part .boolean)
    (h : op.joinAll (.logical name) parts = .ok e) : Leaf v rows free e .boolean := by
  cases parts with
  | nil => cases h
  | cons first rest =>
    rw [List.forall_mem_cons] at leaves
    obtain ⟨leaf, others⟩ := leaves
    cases h
    induction rest generalizing first with
    | nil => exact leaf
    | cons part rest ih =>
      rw [List.forall_mem_cons] at others
      exact ih _ (.logical name leaf others.1) others.2

section Compare

variable {name joiner : String}

theorem Operator.compare_of_noTuple {op joiner : Operator} {left right : Expr}
    (hl : left.isTuple = false) (hr : right.isTuple = false) :
    op.compare joiner left right = .ok (.apply op [left, right]) := by
  unfold Operator.compare
  split
  · cases hl
  · split
    · cases hr
    · rfl

/-- A tuple is compared with tuples only. -/
theorem Operator.isTuple_of_compare {op joiner : Operator} {left right e : Expr}
    (h : op.compare joiner left right = .ok e) : left.isTuple = right.isTuple := by
  unfold Operator.compare at h
  split at h
  · split at h
    · rfl
    · cases h
  case h_2 noTuple =>
    split at h
    · cases h
    case h_2 noTuple' =>
      have hl : left.isTuple = false := by
        cases left with
        | tuple items => exact absurd rfl (noTuple items)
        | _ => rfl
      have hr : right.isTuple = false := by
        cases right with
        | tuple items => exact absurd rfl (noTuple' items)
        | _ => rfl
      rw [hl, hr]

mutual

/-- Values of types that differ in null only are compared leaf by leaf. -/
theorem Represents.compare (equality : Operator.isEquality name = true) :
    ∀ {left right e : Expr} {leftType rightType : Ty}, Represents v rows free left leftType →
      Represents v rows free right rightType → leftType.nonNull = rightType.nonNull →
      (Operator.comparison name).compare (.logical joiner) left right = .ok e →
      Leaf v rows free e .boolean
  | _, _, _, _, _, .leaf hl, .leaf hr, agree, h => by
    rw [Operator.compare_of_noTuple hl.noTuple hr.noTuple, Except.ok.injEq] at h
    rw [← h]
    have named : ∀ type ∈ [_, _], v.Names type :=
      List.forall_mem_cons.2 ⟨hl.named, by simpa using hr.named⟩
    have range := (Operator.range_equality equality named).2 ⟨_, _, rfl, agree, rfl⟩
    exact .apply (Operator.regular_equality equality) (.cons hl (.cons hr .nil)) range rfl
      Vocabulary.names_boolean
  | _, _, _, _, _, .leaf hl, .tuple _ _, _, h => by
    cases hl.noTuple.symm.trans (Operator.isTuple_of_compare h)
  | _, _, _, _, _, .tuple _ _, .leaf hr, _, h => by
    cases (Operator.isTuple_of_compare h).trans hr.noTuple
  | _, _, _, _, _, .tuple componentsLeft left, .tuple componentsRight right, agree, h => by
    rw [Operator.compare] at h
    split at h
    case isFalse => cases h
    simp only [bind_eq_ok] at h
    obtain ⟨parts, compared, joined⟩ := h
    cases Ty.components?_unique agree componentsLeft componentsRight
    exact Leaf.joinAll (RepresentAll.compareItems equality left right compared) joined

/-- Tuples of equal types compare item by item, each time with a boolean answer. -/
theorem RepresentAll.compareItems (equality : Operator.isEquality name = true) :
    ∀ {left right parts : List Expr} {types : List Ty}, RepresentAll v rows free left types →
      RepresentAll v rows free right types →
      (Operator.comparison name).compareItems (.logical joiner) left right = .ok parts →
      ∀ part ∈ parts, Leaf v rows free part .boolean
  | _, _, _, _, .nil, .nil, h => by
    cases h
    exact fun _ member => nomatch member
  | _, _, _, _, .cons l ls, .cons r rs, h => by
    simp only [Operator.compareItems, bind_eq_ok, pure_eq_ok] at h
    obtain ⟨part, first, parts, rest, rfl⟩ := h
    exact List.forall_mem_cons.2
      ⟨Represents.compare equality l r rfl first, RepresentAll.compareItems equality ls rs rest⟩

end

end Compare

/-! ## Choices -/

theorem Expr.branchAggregateCount_eq_zero {bs : List (Expr × Expr)} :
    Expr.branchAggregateCount bs = 0 ↔ ∀ b ∈ bs, b.1.aggregateCount = 0 ∧
      b.2.aggregateCount = 0 := by
  induction bs with
  | nil => simp [Expr.branchAggregateCount]
  | cons b bs ih =>
    obtain ⟨condition, result⟩ := b
    rw [Expr.branchAggregateCount, Nat.add_eq_zero_iff, Nat.add_eq_zero_iff, ih,
      List.forall_mem_cons]

/-- A choice between leaves is a leaf. -/
theorem Leaf.case {branches : List (Expr × Expr)} {default : Expr} {types : List (Ty × Ty)}
    {defaultType type : Ty}
    (hb : List.Forall₂ (fun b types => Leaf v rows free b.1 types.1 ∧ Leaf v rows free b.2 types.2)
      branches types)
    (hd : Leaf v rows free default defaultType)
    (chosen : v.checked.caseType types defaultType = .ok type)
    (unstructured : type.isStructured = false) (named : v.Names type) :
    Leaf v rows free (.case branches default) type where
  noTuple := rfl
  unstructured := unstructured
  named := named
  typed := Expr.typeOf_case.2 ⟨types,
    Expr.branchTypesOf_eq_ok.2 (hb.imp fun _ _ leaves => ⟨leaves.1.typed, leaves.2.typed⟩),
    defaultType, hd.typed, chosen⟩
  nodes := by
    rw [Expr.everywhere_case]
    refine ⟨⟨trivial, trivial⟩, fun b member => ?_, hd.nodes⟩
    obtain ⟨_, _, condition, result⟩ := exists_of_mem_right hb.flip member
    exact ⟨condition.nodes, result.nodes⟩
  count isFree := by
    rw [Expr.aggregateCount, Nat.add_eq_zero_iff, Expr.branchAggregateCount_eq_zero]
    refine ⟨fun b member => ?_, hd.count isFree⟩
    obtain ⟨_, _, condition, result⟩ := exists_of_mem_right hb.flip member
    exact ⟨condition.count isFree, result.count isFree⟩

/-- A choice between leaves of one type is a leaf of that type. -/
theorem Leaf.choice {conditions results : List Expr} {default : Expr} {type : Ty}
    (hc : ∀ c ∈ conditions, Leaf v rows free c .boolean)
    (hr : ∀ r ∈ results, Leaf v rows free r type)
    (hd : Leaf v rows free default type) :
    Leaf v rows free (.case (conditions.zip results) default) type := by
  have branches : ∀ b ∈ conditions.zip results,
      Leaf v rows free b.1 .boolean ∧ Leaf v rows free b.2 type := fun b member =>
    ⟨hc b.1 (List.of_mem_zip member).1, hr b.2 (List.of_mem_zip member).2⟩
  have typed : List.Forall₂ (fun b (types : Ty × Ty) =>
      Leaf v rows free b.1 types.1 ∧ Leaf v rows free b.2 types.2)
      (conditions.zip results) ((conditions.zip results).map fun _ => (.boolean, type)) := by
    rw [List.forall₂_map_right_iff, List.forall₂_same]
    exact branches
  refine .case typed hd (Vocabulary.caseType_constant fun b member => ?_) hd.unstructured hd.named
  obtain ⟨_, _, equal⟩ := List.mem_map.1 member
  exact equal.symm

namespace Expr

theorem distribute_of_noTuple {conditions results : List Expr} {default : Expr}
    (h : default.isTuple = false) :
    distribute conditions default results = .case (conditions.zip results) default := by
  cases default with
  | tuple items => cases h
  | _ => simp only [distribute]

/-- A choice is made between values of the shape of the default. -/
theorem flattenCase_eq_ok {conditions results : List Expr} {whole default e : Expr} :
    flattenCase whole conditions results default = .ok e ↔
      (∀ r ∈ results, r.shape = default.shape) ∧ e = distribute conditions default results := by
  have test : (results.all fun r => r.shape == default.shape) = true ↔
      ∀ r ∈ results, r.shape = default.shape := by
    simp only [List.all_eq_true, beq_iff_eq]
  unfold flattenCase
  split
  case isTrue same =>
    rw [Except.ok.injEq, eq_comm]
    exact (and_iff_right (test.1 same)).symm
  case isFalse mixed => exact iff_of_false (fun h => nomatch h) fun h => mixed (test.2 h.1)

/-- What has the shape of a scalar is no tuple. -/
theorem isTuple_eq_false_of_shape {e d : Expr} (same : e.shape = d.shape) (h : d.isTuple = false) :
    e.isTuple = false := by
  have leaf : d.shape = .leaf := by
    cases d with
    | tuple items => cases h
    | _ => simp only [shape]
  cases e with
  | tuple items =>
    rw [leaf, shape] at same
    cases same
  | _ => rfl

/-- What has the shape of a tuple is a tuple of items of the same shapes. -/
theorem exists_items_of_shape {e : Expr} {items : List Expr}
    (same : e.shape = (Expr.tuple items).shape) :
    ∃ row, e = .tuple row ∧ shapes row = shapes items := by
  rw [shape.eq_1] at same
  cases e with
  | tuple row =>
    rw [shape] at same
    exact ⟨row, rfl, Shape.tuple.inj same⟩
  | _ =>
    simp only [shape] at same
    cases same

end Expr

section Distribute

variable {conditions : List Expr}

mutual

/-- A choice between values of one type and one shape is a value of that type. -/
theorem Represents.distribute (hc : ∀ c ∈ conditions, Leaf v rows free c .boolean) :
    ∀ {default : Expr} {type : Ty} {results : List Expr}, Represents v rows free default type →
      (∀ r ∈ results, Represents v rows free r type ∧ r.shape = default.shape) →
      Represents v rows free (Expr.distribute conditions default results) type
  | _, _, _, .leaf hd, hr => by
    rw [Expr.distribute_of_noTuple hd.noTuple]
    refine .leaf (.choice hc (fun r member => ?_) hd)
    obtain ⟨represents, same⟩ := hr r member
    exact represents.leaf_of_noTuple (Expr.isTuple_eq_false_of_shape same hd.noTuple)
  | _, _, results, .tuple components items, hr => by
    rw [Expr.distribute]
    refine .tuple components (RepresentAll.distributeItems hc items fun row member => ?_)
    obtain ⟨r, among, isRow⟩ := List.mem_filterMap.1 member
    obtain ⟨represents, same⟩ := hr r among
    obtain ⟨row', rfl, shapes⟩ := Expr.exists_items_of_shape same
    cases isRow
    cases represents with
    | leaf leaf => cases leaf.noTuple
    | tuple components' items' =>
      cases components.symm.trans components'
      exact ⟨items', shapes⟩

/-- Distributing a choice over tuples represents each of their items. -/
theorem RepresentAll.distributeItems (hc : ∀ c ∈ conditions, Leaf v rows free c .boolean) :
    ∀ {defaults : List Expr} {types : List Ty} {table : List (List Expr)},
      RepresentAll v rows free defaults types →
      (∀ row ∈ table, RepresentAll v rows free row types ∧ Expr.shapes row = Expr.shapes defaults) →
      RepresentAll v rows free (Expr.distributeItems conditions defaults table) types
  | _, _, _, .nil, _ => by
    rw [Expr.distributeItems]
    exact .nil
  | _, _, table, .cons first rest, hr => by
    rw [Expr.distributeItems]
    refine .cons (Represents.distribute hc first fun r member => ?_)
      (RepresentAll.distributeItems hc rest fun row member => ?_)
    · obtain ⟨row, among, isHead⟩ := List.mem_filterMap.1 member
      obtain ⟨represents, same⟩ := hr row among
      cases represents with
      | cons head tail =>
        cases isHead
        simp only [Expr.shapes, List.cons.injEq] at same
        exact ⟨head, same.1⟩
    · obtain ⟨whole, among, isTail⟩ := List.mem_map.1 member
      obtain ⟨represents, same⟩ := hr whole among
      cases represents with
      | cons head tail =>
        cases isTail
        simp only [Expr.shapes, List.cons.injEq] at same
        exact ⟨tail, same.2⟩

end

end Distribute

/-- A tuple is a value of every type that has the components. -/
theorem Represents.of_components? {items : List Expr} {type other : Ty} {types : List Ty}
    (h : Represents v rows free (.tuple items) type) (own : type.components? = some types)
    (components : other.components? = some types) :
    Represents v rows free (.tuple items) other := by
  cases h with
  | leaf leaf => cases leaf.noTuple
  | tuple components' represents =>
    cases own.symm.trans components'
    exact .tuple components represents

/-- A tuple has the components of any type that differs from its own in null only. -/
theorem Represents.components?_of_tuple {items : List Expr} {type other : Ty} {types : List Ty}
    (h : Represents v rows free (.tuple items) type) (agree : type.nonNull = other.nonNull)
    (components : other.components? = some types) : type.components? = some types := by
  cases h with
  | leaf leaf => cases leaf.noTuple
  | tuple own _ => rw [own, Ty.components?_unique agree own components]

section Choice

variable {branches : List (Expr × Expr)} {types : List (Ty × Ty)} {defaultType type : Ty}
  (hb : List.Forall₂ (fun b types => Leaf v rows free b.1 types.1 ∧
    Represents v rows free b.2 types.2) branches types)
  (namedTypes : ∀ t ∈ types, v.Names t.1 ∧ v.Names t.2) (namedDefault : v.Names defaultType)
  (chosen : v.checked.caseType types defaultType = .ok type)

include hb namedTypes namedDefault chosen

/-- If the default is a leaf, the results are leaves too, and the choice is typed as before. -/
theorem Represents.choice_of_leaf {default : Expr} (leaf : Leaf v rows free default defaultType)
    (same : ∀ b ∈ branches, b.2.shape = default.shape) :
    Represents v rows free (.case branches default) type := by
  obtain ⟨named, agree, _⟩ := Vocabulary.nonNull_caseType namedTypes namedDefault chosen
  have leaves : List.Forall₂ (fun b (types : Ty × Ty) =>
      Leaf v rows free b.1 types.1 ∧ Leaf v rows free b.2 types.2) branches types := by
    refine forall₂_imp_of_mem hb fun b among _ _ h => ?_
    have noTuple := Expr.isTuple_eq_false_of_shape (same b among) leaf.noTuple
    exact ⟨h.1, h.2.leaf_of_noTuple noTuple⟩
  have unstructured : type.isStructured = false := by
    rw [Ty.isStructured_eq_false, ← Ty.layout?_eq_of_nonNull_eq agree, ← Ty.isStructured_eq_false]
    exact leaf.unstructured
  exact .leaf (.case leaves leaf chosen unstructured named)

/-- If the default is a tuple, all results are tuples of its components, and so is the choice. -/
theorem Represents.choice_of_tuple {items : List Expr} {itemTypes : List Ty}
    (components : defaultType.components? = some itemTypes)
    (represents : RepresentAll v rows free items itemTypes)
    (same : ∀ b ∈ branches, b.2.shape = (Expr.tuple items).shape) :
    Represents v rows free
      (Expr.distribute (branches.map Prod.fst) (.tuple items) (branches.map Prod.snd)) type := by
  obtain ⟨_, agree, all⟩ := Vocabulary.nonNull_caseType namedTypes namedDefault chosen
  have results : List.Forall₂ (fun b (types : Ty × Ty) => types.2.components? = some itemTypes ∧
      ∃ row, b.2 = .tuple row ∧ Represents v rows free (.tuple row) types.2) branches types := by
    refine forall₂_imp_of_mem hb fun b among t typed h => ?_
    obtain ⟨row, isTuple, _⟩ := Expr.exists_items_of_shape (same b among)
    have result := h.2
    rw [isTuple] at result
    exact ⟨result.components?_of_tuple ((all t typed).2.trans agree.symm) components, row,
      isTuple, result⟩
  have common : type.components? = some itemTypes := by
    refine Vocabulary.components?_caseType namedTypes namedDefault chosen components
      fun t typed => ?_
    obtain ⟨_, _, own, _⟩ := exists_of_mem_right results typed
    exact own
  refine Represents.distribute (fun c member => ?_) (.tuple common represents) fun r member => ?_
  · obtain ⟨b, among, rfl⟩ := List.mem_map.1 member
    obtain ⟨t, typed, leaf, _⟩ := exists_of_mem_right hb.flip among
    exact (all t typed).1 ▸ leaf
  · obtain ⟨b, among, rfl⟩ := List.mem_map.1 member
    obtain ⟨t, _, own, row, isTuple, result⟩ := exists_of_mem_right results.flip among
    refine ⟨?_, same b among⟩
    rw [isTuple]
    exact result.of_components? own common

/-- A choice between flat values is a flat value of the common type. -/
theorem Represents.flattenCase {whole default e : Expr}
    (hd : Represents v rows free default defaultType)
    (h : Expr.flattenCase whole (branches.map Prod.fst) (branches.map Prod.snd) default = .ok e) :
    Represents v rows free e type := by
  obtain ⟨shapes, rfl⟩ := Expr.flattenCase_eq_ok.1 h
  have same : ∀ b ∈ branches, b.2.shape = default.shape := List.forall_mem_map.1 shapes
  cases hd with
  | leaf leaf =>
    have pairs : (branches.map Prod.fst).zip (branches.map Prod.snd) = branches :=
      (List.zip_of_prod rfl rfl).symm
    rw [Expr.distribute_of_noTuple leaf.noTuple, pairs]
    exact choice_of_leaf hb namedTypes namedDefault chosen leaf same
  | tuple components items =>
    exact choice_of_tuple hb namedTypes namedDefault chosen components items same

end Choice

/-! ## Aggregations and subqueries -/

/-- The first leaf of a representation is a leaf of its own type. -/
theorem Represents.firstLeaf? : ∀ {e leaf : Expr} {type : Ty}, Represents v rows free e type →
    e.firstLeaf? = some leaf → ∃ leafType, Leaf v rows free leaf leafType
  | e, _, type, .leaf hl, h => by
    have itself : e.firstLeaf? = some e := by
      cases e with
      | tuple items => cases hl.noTuple
      | _ => simp only [Expr.firstLeaf?]
    cases itself.symm.trans h
    exact ⟨type, hl⟩
  | _, _, _, .tuple components (.cons first rest), h => by
    rw [Expr.firstLeaf?] at h
    exact Represents.firstLeaf? first h

/-- An aggregation of a leaf is a leaf, where aggregations may stand. -/
theorem Leaf.aggregate {fn : Aggregate} {arg : Expr} {argType type : Ty} (notFree : ¬free)
    (leaf : Leaf v rows free arg argType) (range : fn.range v.checked argType = .ok type) :
    Leaf v rows free (.aggregate fn arg) type := by
  have result := (Aggregate.range_eq_ok.1 range).2.2
  refine ⟨rfl, ?_, ?_, Expr.typeOf_aggregate.2 ⟨argType, leaf.typed, range⟩, ?_,
    fun isFree => absurd isFree notFree⟩
  · rw [result]
    cases fn <;> first | exact leaf.unstructured | rfl
  · rw [result]
    cases fn <;>
      first | exact leaf.named | exact Vocabulary.names_integer | exact Vocabulary.names_float
  · rw [Expr.everywhere_aggregate]
    exact ⟨⟨trivial, trivial⟩, leaf.nodes⟩

/-- A count counts the first leaf, and any other aggregation takes a leaf. -/
theorem Represents.flattenAggregate {whole arg e : Expr} {fn : Aggregate} {argType type : Ty}
    (notFree : ¬free) (h : Represents v rows free arg argType)
    (range : fn.range v.checked argType = .ok type)
    (flat : Expr.flattenAggregate whole fn arg = .ok e) : Leaf v rows free e type := by
  unfold Expr.flattenAggregate at flat
  split at flat
  case isTrue count =>
    subst count
    cases first : arg.firstLeaf? with
    | none =>
      rw [first] at flat
      cases flat
    | some leaf =>
      rw [first] at flat
      cases flat
      obtain ⟨leafType, leaf⟩ := h.firstLeaf? first
      obtain ⟨_, _, rfl⟩ := Aggregate.range_eq_ok.1 range
      refine .aggregate notFree leaf (Aggregate.range_eq_ok.2 ⟨?_, ?_, rfl⟩)
      · exact fun needed => nomatch needed
      · exact fun needed => nomatch needed
  case isFalse =>
    split at flat
    case isTrue => cases flat
    case isFalse noTuple =>
      cases flat
      exact .aggregate notFree (h.leaf_of_noTuple (by simpa using noTuple)) range

/-- A flat scalar subquery is a leaf, if its only column is. -/
theorem Leaf.scalarSubquery {query : Query} {inner : Schema} {type : Ty}
    (infer : query.schemaOf v.checked = .ok inner) (only : inner.onlyType = .ok type)
    (nodes : query.Everywhere v.flatPlan) (unstructured : type.isStructured = false)
    (named : v.Names type) : Leaf v rows free (.scalarSubquery query) type where
  noTuple := rfl
  unstructured := unstructured
  named := named
  typed := Expr.typeOf_scalarSubquery.2 ⟨inner, infer, only⟩
  nodes := by
    rw [Expr.everywhere_scalarSubquery]
    exact ⟨⟨trivial, trivial⟩, nodes⟩
  count _ := by rw [Expr.aggregateCount]

/-- A flat set subquery is a leaf. -/
theorem Leaf.setSubquery {query : Query} {inner : Schema} {type : Ty}
    (infer : query.schemaOf v.checked = .ok inner) (only : inner.onlyType = .ok type)
    (nodes : query.Everywhere v.flatPlan) (named : v.Names type) :
    Leaf v rows free (.setSubquery query) (.set type) where
  noTuple := rfl
  unstructured := rfl
  named := named
  typed := Expr.typeOf_setSubquery.2 ⟨inner, infer, type, only, rfl⟩
  nodes := by
    rw [Expr.everywhere_setSubquery]
    exact ⟨⟨trivial, trivial⟩, nodes⟩
  count _ := by rw [Expr.aggregateCount]

end FlatPlan
