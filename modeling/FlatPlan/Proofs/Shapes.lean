import FlatPlan.Proofs.Representation

/-!
# Shapes of types

The shape of a flat value follows from its type: a product is a tuple of its items, a structured
type a tuple of as many leaves as its layout has columns, and anything else a leaf. Where no product
is nullable and no tuple is empty (`Ty.Settled`), types that differ in null only have one shape, so
all that flattening asks of shapes is met: comparison (`Operator.compare_of_shape`), choice
(`Expr.shape_distribute`) and counting (`Expr.firstLeaf?_of_full`).
-/

namespace FlatPlan

namespace Shape

mutual

/-- Whether no tuple of a shape is empty. -/
def Full : Shape → Prop
  | .leaf => True
  | .tuple items => items ≠ [] ∧ AllFull items

/-- Whether no tuple of the shapes is empty. -/
def AllFull : List Shape → Prop
  | [] => True
  | s :: ss => s.Full ∧ AllFull ss

end

theorem allFull_replicate_leaf (n : Nat) : AllFull (List.replicate n .leaf) := by
  induction n with
  | zero => trivial
  | succ n ih => exact ⟨trivial, ih⟩

end Shape

namespace Ty

mutual

/-- The nesting of tuples in the flat values of a type. -/
def shape : Ty → Shape
  | .product items => .tuple (shapes items)
  | t =>
    match t.layout? with
    | some l => .tuple (List.replicate l.columns.length .leaf)
    | none => .leaf

/-- The shape of each type. -/
def shapes : List Ty → List Shape
  | [] => []
  | t :: ts => t.shape :: shapes ts

end

/-- A type in which no product is nullable, and whose flat values have no empty tuples. -/
structure Settled (t : Ty) : Prop where
  noNullProduct : t.nonNull.isProduct = t.isProduct
  full : t.shape.Full

variable {t : Ty}

theorem shape_of_layout? {l : Layout} (layout : t.layout? = some l) :
    t.shape = .tuple (List.replicate l.columns.length .leaf) := by
  obtain ⟨b, base, _⟩ := layout?_eq_some.1 layout
  cases t with
  | product items => cases base
  | _ => simp only [shape, layout]

theorem shape_of_components?_eq_none (none : t.components? = none) : t.shape = .leaf := by
  cases t with
  | product items => cases none
  | _ =>
    simp only [components?, Option.map_eq_none_iff] at none
    simp only [shape, none]

/-- Settled types that differ in null only have one shape. -/
theorem shape_congr {a b : Ty} (settledA : a.nonNull.isProduct = a.isProduct)
    (settledB : b.nonNull.isProduct = b.isProduct) (same : a.nonNull = b.nonNull) :
    a.shape = b.shape := by
  cases product : a.isProduct with
  | true =>
    -- neither is nullable, so they are the same product
    have productB : b.isProduct = true := by rw [← settledB, ← same, settledA, product]
    cases a with
    | product items =>
      cases b with
      | product items' => rw [show Ty.product items = .product items' from same]
      | _ => cases productB
    | _ => cases product
  | false =>
    have productB : b.isProduct = false := by rw [← settledB, ← same, settledA, product]
    cases layout : a.layout? with
    | some l =>
      rw [shape_of_layout? layout, shape_of_layout? (layout?_eq_of_nonNull_eq same ▸ layout)]
    | none =>
      have layoutB : b.layout? = none := layout?_eq_of_nonNull_eq same ▸ layout
      rw [shape_of_components?_eq_none (components?_of_not_product layout product),
        shape_of_components?_eq_none (components?_of_not_product layoutB productB)]

end Ty

variable {v : Vocabulary} {rows : Schema} {free : Prop}

/-- Every layout has a column. -/
def Vocabulary.HasColumns (v : Vocabulary) : Prop :=
  ∀ {b : BaseTy} {l : Layout}, v.base? b.name = some b → b.layout = some l → l.columns ≠ []

/-- A type that is no product, with or without null, is settled. -/
theorem Ty.settled_of_noProduct {t : Ty} (columns : v.HasColumns) (named : v.Names t)
    (noProduct : t.nonNull.isProduct = false) : t.Settled where
  noNullProduct := noProduct.trans (isProduct_of_nonNull noProduct).symm
  full := by
    cases layout : t.layout? with
    | none =>
      rw [shape_of_components?_eq_none
        (components?_of_not_product layout (isProduct_of_nonNull noProduct))]
      trivial
    | some l =>
      obtain ⟨b, base, own⟩ := layout?_eq_some.1 layout
      have known := namedIn_nonNull named
      rw [base] at known
      rw [shape_of_layout? layout]
      refine ⟨fun empty => columns known own ?_, Shape.allFull_replicate_leaf _⟩
      exact List.length_eq_zero_iff.1 (List.replicate_eq_nil_iff _ |>.1 empty)

namespace Expr

theorem shape_of_noTuple {e : Expr} (noTuple : e.isTuple = false) : e.shape = .leaf := by
  cases e with
  | tuple items => cases noTuple
  | _ => simp only [shape]

theorem shapes_of_noTuples {es : List Expr} (noTuples : ∀ e ∈ es, e.isTuple = false) :
    shapes es = List.replicate es.length .leaf := by
  induction es with
  | nil => rfl
  | cons e es ih =>
    rw [List.forall_mem_cons] at noTuples
    rw [shapes, shape_of_noTuple noTuples.1, ih noTuples.2, List.length_cons, List.replicate_succ]

end Expr

/-- A flat value of a type that is no product has the shape of the type. -/
theorem Represents.shape_of_noProduct {e : Expr} {type : Ty} (h : Represents v rows free e type)
    (named : v.Names type) (noProduct : type.isProduct = false) : e.shape = type.shape := by
  rcases h.leaf_or_leaves named noProduct with
    ⟨unstructured, leaf⟩ | ⟨items, l, rfl, layout, leaves⟩
  · have none := Ty.components?_of_not_product unstructured noProduct
    rw [Expr.shape_of_noTuple leaf.noTuple, Ty.shape_of_components?_eq_none none]
  · have length : items.length = l.columns.length := by rw [leaves.length_eq, List.length_map]
    rw [Expr.shape, Expr.shapes_of_noTuples (Leaf.noTuples leaves), length,
      Ty.shape_of_layout? layout]

/-! ## Induction on shapes -/

namespace Expr

mutual

/-- What holds of scalars, and of a tuple if it does of its items, holds of all values. -/
@[elab_as_elim]
theorem tuple_induction {motive : Expr → Prop} (scalar : ∀ e, e.isTuple = false → motive e)
    (tuple : ∀ items, (∀ e ∈ items, motive e) → motive (.tuple items)) : ∀ e : Expr, motive e
  | .tuple items => tuple items (tuple_induction_items scalar tuple items)
  | .attr _ | .const _ _ | .null _ | .apply _ _ | .aggregate _ _ | .multiAggregate _ _ | .case _ _
  | .scalarSubquery _ | .setSubquery _ => scalar _ rfl

theorem tuple_induction_items {motive : Expr → Prop} (scalar : ∀ e, e.isTuple = false → motive e)
    (tuple : ∀ items, (∀ e ∈ items, motive e) → motive (.tuple items)) :
    ∀ es : List Expr, ∀ e ∈ es, motive e
  | [] => fun _ member => absurd member List.not_mem_nil
  | e :: es => List.forall_mem_cons.2
    ⟨tuple_induction scalar tuple e, tuple_induction_items scalar tuple es⟩

end

theorem shapes_eq_map (es : List Expr) : shapes es = es.map shape := by
  induction es with
  | nil => rfl
  | cons e es ih => rw [shapes, ih, List.map_cons]

/-- What holds of any two scalars, and of two tuples if it does of their items place by place, holds
of any two values of one shape. -/
theorem shape_induction {motive : Expr → Expr → Prop}
    (scalar : ∀ l r, l.isTuple = false → r.isTuple = false → motive l r)
    (tuple : ∀ ls rs, List.Forall₂ motive ls rs → motive (.tuple ls) (.tuple rs))
    {left right : Expr}
    (same : left.shape = right.shape) : motive left right := by
  induction left using tuple_induction generalizing right with
  | scalar left noTuple =>
    exact scalar left right noTuple (isTuple_eq_false_of_shape same.symm noTuple)
  | tuple ls ih =>
    obtain ⟨rs, rfl, sameItems⟩ := exists_items_of_shape same.symm
    have places : List.Forall₂ (fun l r => shape l = shape r) ls rs := by
      rw [← List.forall₂_map_right_iff, ← List.forall₂_map_left_iff, List.forall₂_eq_eq_eq,
        ← shapes_eq_map, ← shapes_eq_map]
      exact sameItems.symm
    exact tuple ls rs (forall₂_imp_of_mem places fun l member r _ sameItem => ih l member sameItem)

end Expr

/-! ## Operations on values of one shape -/

namespace Operator

variable (op joiner : Operator)

theorem joinAll_of_ne_nil {parts : List Expr} (h : parts ≠ []) :
    ∃ e, op.joinAll joiner parts = .ok e := by
  cases parts with
  | nil => exact absurd rfl h
  | cons first rest => exact ⟨_, rfl⟩

theorem compareItems_of_places {ls rs : List Expr}
    (places : List.Forall₂ (fun l r => l.shape.Full → ∃ e, op.compare joiner l r = .ok e) ls rs)
    (full : Shape.AllFull (Expr.shapes ls)) :
    ∃ parts, op.compareItems joiner ls rs = .ok parts ∧ parts.length = ls.length := by
  induction places with
  | nil => exact ⟨[], rfl, rfl⟩
  | cons first _ ih =>
    rw [Expr.shapes] at full
    obtain ⟨e, compared⟩ := first full.1
    obtain ⟨es, others, length⟩ := ih full.2
    refine ⟨e :: es, ?_, by simp [length]⟩
    rw [compareItems, compared, others]
    rfl

/-- Values of one shape without empty tuples can be compared. -/
theorem compare_of_shape {left right : Expr} (same : left.shape = right.shape)
    (full : left.shape.Full) :
    ∃ e, op.compare joiner left right = .ok e := by
  refine Expr.shape_induction
    (motive := fun l r => l.shape.Full → ∃ e, op.compare joiner l r = .ok e) ?_ ?_ same full
  · intro l r noTupleLeft noTupleRight _
    exact ⟨_, compare_of_noTuple noTupleLeft noTupleRight⟩
  · intro ls rs places full
    rw [Expr.shape] at full
    obtain ⟨parts, compared, length⟩ := compareItems_of_places op joiner places full.2
    have nonempty : parts ≠ [] := by
      rintro rfl
      cases ls with
      | nil => exact full.1 rfl
      | cons l ls => cases length
    obtain ⟨e, joined⟩ := joinAll_of_ne_nil op joiner nonempty
    refine ⟨e, ?_⟩
    rw [compare, if_pos places.length_eq, compared]
    exact joined

end Operator

namespace Expr

/-- Values of the shape of a tuple are tuples. -/
theorem exists_tuples_of_shape {results items : List Expr}
    (same : ∀ r ∈ results, r.shape = (Expr.tuple items).shape) :
    ∃ table : List (List Expr), results = table.map .tuple ∧
      ∀ row ∈ table, shapes row = shapes items := by
  induction results with
  | nil => exact ⟨[], rfl, fun _ member => absurd member List.not_mem_nil⟩
  | cons r results ih =>
    rw [List.forall_mem_cons] at same
    obtain ⟨row, rfl, shape⟩ := exists_items_of_shape same.1
    obtain ⟨table, rfl, shapes⟩ := ih same.2
    exact ⟨row :: table, rfl, List.forall_mem_cons.2 ⟨shape, shapes⟩⟩

/-- Rows of the shapes of a list that is not empty have a first value each. -/
theorem exists_heads_of_shapes {table : List (List Expr)} {e : Expr} {es : List Expr}
    (same : ∀ row ∈ table, shapes row = shapes (e :: es)) :
    ∃ pairs : List (Expr × List Expr), table = pairs.map (fun p => p.1 :: p.2) ∧
      ∀ p ∈ pairs, p.1.shape = e.shape ∧ shapes p.2 = shapes es := by
  induction table with
  | nil => exact ⟨[], rfl, fun _ member => absurd member List.not_mem_nil⟩
  | cons row table ih =>
    rw [List.forall_mem_cons] at same
    obtain ⟨pairs, rfl, heads⟩ := ih same.2
    cases row with
    | nil => cases same.1
    | cons head tail =>
      have shape := List.cons.inj same.1
      exact ⟨(head, tail) :: pairs, rfl, List.forall_mem_cons.2 ⟨shape, heads⟩⟩

theorem heads_of_pairs (pairs : List (Expr × List Expr)) :
    (pairs.map fun p => p.1 :: p.2).filterMap List.head? = pairs.map Prod.fst := by
  rw [List.filterMap_map]
  exact congrFun List.filterMap_eq_map pairs

theorem tails_of_pairs (pairs : List (Expr × List Expr)) :
    (pairs.map fun p => p.1 :: p.2).map List.tail = pairs.map Prod.snd := by simp

/-- The items of the results of the shape of a tuple, one row for each. -/
theorem filterMap_components? (table : List (List Expr)) :
    (table.map tuple).filterMap components? = table := by
  rw [List.filterMap_map]
  exact List.filterMap_some

theorem shapes_distributeItems {conditions defaults : List Expr}
    (ih : ∀ default ∈ defaults, ∀ {results : List Expr}, (∀ r ∈ results, r.shape = default.shape) →
      (distribute conditions default results).shape = default.shape)
    {table : List (List Expr)} (same : ∀ row ∈ table, shapes row = shapes defaults) :
    shapes (distributeItems conditions defaults table) = shapes defaults := by
  induction defaults generalizing table with
  | nil => rfl
  | cons default defaults ih' =>
    rw [List.forall_mem_cons] at ih
    obtain ⟨pairs, rfl, shape⟩ := exists_heads_of_shapes same
    rw [distributeItems, heads_of_pairs, tails_of_pairs, shapes, shapes,
      ih.1 (List.forall_mem_map.2 fun p member => (shape p member).1),
      ih' ih.2 (List.forall_mem_map.2 fun p member => (shape p member).2)]

/-- A choice between values of one shape has that shape. -/
theorem shape_distribute {conditions : List Expr} {default : Expr} {results : List Expr}
    (same : ∀ r ∈ results, r.shape = default.shape) :
    (distribute conditions default results).shape = default.shape := by
  induction default using tuple_induction generalizing results with
  | scalar default noTuple =>
    rw [distribute_of_noTuple noTuple, shape_of_noTuple noTuple]
    rfl
  | tuple defaults ih =>
    obtain ⟨table, rfl, rows⟩ := exists_tuples_of_shape same
    rw [distribute, filterMap_components?, shape, shape, shapes_distributeItems ih rows]

theorem firstLeaf?_of_full : ∀ {e : Expr}, e.shape.Full → ∃ leaf, e.firstLeaf? = some leaf
  | .tuple [], full => by
    rw [shape] at full
    exact absurd rfl full.1
  | .tuple (e :: es), full => by
    rw [shape, shapes] at full
    rw [firstLeaf?]
    exact firstLeaf?_of_full full.2.1
  | .attr _, _ | .const _ _, _ | .null _, _ | .apply _ _, _ | .aggregate _ _, _
  | .multiAggregate _ _, _ | .case _ _, _ | .scalarSubquery _, _ | .setSubquery _, _ =>
    ⟨_, by simp only [firstLeaf?]; rfl⟩

end Expr

end FlatPlan
