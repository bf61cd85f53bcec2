import FlatPlan.Proofs.Bindings

/-!
# Leaves of flat values

What the operations on flat values make of their leaves: a comparison of tuples joins comparisons of
leaves (`Operator.of_compare`), a choice between tuples is a tuple of choices between leaves
(`Expr.leaves_distribute`, `Expr.of_distribute`), and a count counts a leaf
(`Expr.mem_leaves_of_firstLeaf?`). What holds of the leaves of the operands carries over from there,
whatever it is. A structured constant becomes what its encoder answers, about which nothing is known
but what is asked of it (`Rules.StoredAs`).
-/

namespace FlatPlan

namespace Expr

theorem mem_itemLeaves {items : List Expr} {leaf : Expr} :
    leaf ∈ itemLeaves items ↔ ∃ e ∈ items, leaf ∈ e.leaves := by
  induction items with
  | nil => simp [itemLeaves]
  | cons e items ih => simp [itemLeaves, ih]

theorem mem_leaves_tuple {items : List Expr} {leaf : Expr} :
    leaf ∈ (Expr.tuple items).leaves ↔ ∃ e ∈ items, leaf ∈ e.leaves := by
  rw [leaves, mem_itemLeaves]

/-- A leaf is no tuple. -/
theorem isTuple_of_mem_leaves {e leaf : Expr} (member : leaf ∈ e.leaves) :
    leaf.isTuple = false := by
  induction e using tuple_induction with
  | scalar e noTuple =>
    rw [leaves_of_noTuple noTuple, List.mem_singleton] at member
    exact member ▸ noTuple
  | tuple items ih =>
    obtain ⟨e, among, member⟩ := mem_leaves_tuple.1 member
    exact ih e among member

/-- Values of one shape have equally many leaves. -/
theorem length_leaves_congr {left right : Expr} (same : left.shape = right.shape) :
    left.leaves.length = right.leaves.length := by
  refine shape_induction (motive := fun l r => l.leaves.length = r.leaves.length) ?_ ?_ same
  · intro l r noTupleLeft noTupleRight
    rw [leaves_of_noTuple noTupleLeft, leaves_of_noTuple noTupleRight]
    rfl
  · intro ls rs places
    induction places with
    | nil => rfl
    | cons first _ ih => simp_all [leaves, itemLeaves]

theorem mem_leaves_of_firstLeaf? : ∀ {e leaf : Expr}, e.firstLeaf? = some leaf → leaf ∈ e.leaves
  | .tuple [], _, h => by cases h
  | .tuple (e :: items), _, h => by
    rw [firstLeaf?] at h
    exact mem_leaves_tuple.2 ⟨e, List.mem_cons_self, mem_leaves_of_firstLeaf? h⟩
  | .attr _, _, h | .const _ _, _, h | .null _, _, h | .apply _ _, _, h | .aggregate _ _, _, h
  | .multiAggregate _ _, _, h | .case _ _, _, h | .scalarSubquery _, _, h
  | .setSubquery _, _, h => by
    cases h
    exact List.mem_singleton.2 rfl

variable {p : NodeProperty}

theorem everywhere_leaves {e leaf : Expr} (h : e.Everywhere p) (member : leaf ∈ e.leaves) :
    leaf.Everywhere p := by
  induction e using tuple_induction with
  | scalar e noTuple =>
    rw [leaves_of_noTuple noTuple, List.mem_singleton] at member
    exact member ▸ h
  | tuple items ih =>
    obtain ⟨e, among, member⟩ := mem_leaves_tuple.1 member
    exact ih e among (((everywhere_tuple items).1 h).2 e among) member

/-- What tuples have anyway holds everywhere in a value if it does in its leaves. -/
theorem everywhere_of_leaves (tuples : ∀ items, p.expr (.tuple items)) {e : Expr}
    (h : ∀ leaf ∈ e.leaves, leaf.Everywhere p) : e.Everywhere p := by
  induction e using tuple_induction with
  | scalar e noTuple =>
    rw [leaves_of_noTuple noTuple] at h
    exact h e (List.mem_singleton.2 rfl)
  | tuple items ih =>
    refine (everywhere_tuple items).2 ⟨tuples items, fun e among => ih e among
      fun leaf member => ?_⟩
    exact h leaf (mem_leaves_tuple.2 ⟨e, among, member⟩)

end Expr

/-! ## Constants -/

section Constants

variable {rules : Rules} {property : Expr → Prop} {own : Ty} {value : Value}

theorem Layout.of_nulls (null : ∀ type, property (.null type)) (l : Layout) :
    ∀ leaf ∈ l.nulls.leaves, property leaf := by
  intro leaf member
  rw [nulls, Expr.mem_leaves_tuple] at member
  obtain ⟨e, among, member⟩ := member
  obtain ⟨c, _, rfl⟩ := List.mem_map.1 among
  cases List.mem_singleton.1 member
  exact null c.2

/-- Whether what a constant becomes has a property. -/
def Rules.StoredAs (rules : Rules) (property : Expr → Prop) (type : Ty) (value : Value) : Prop :=
  ∀ e, Expr.flattenConst rules type value = .ok e → property e

/-- A constant of a scalar type is stored as it is. -/
theorem Rules.storedAs_of_scalar (scalar : own.layout? = .none)
    (const : property (.const own value)) :
    rules.StoredAs property own value := by
  intro e flat
  rcases Expr.flattenConst_eq_ok.1 flat with ⟨_, rfl⟩ | ⟨l, layout, _⟩
  · exact const
  · rw [scalar] at layout
    cases layout

theorem Expr.of_flattenNull (null : ∀ type, property (.null type)) :
    ∀ leaf ∈ (flattenNull own).leaves, property leaf := by
  unfold flattenNull
  split
  case h_1 l _ => exact l.of_nulls null
  case h_2 => exact List.forall_mem_singleton.2 (null own)

end Constants

/-! ## Comparisons -/

namespace Operator

variable {op joiner : Operator} {property : Expr → Prop}

theorem of_joinAll (join : ∀ a b, property a → property b → property (.apply joiner [a, b]))
    {parts : List Expr} {e : Expr} (all : ∀ part ∈ parts, property part)
    (h : op.joinAll joiner parts = .ok e) : property e := by
  cases parts with
  | nil => cases h
  | cons first rest =>
    rw [List.forall_mem_cons] at all
    cases h
    exact List.foldlRecOn rest _ all.1 fun joined known part member =>
      join joined part known (all.2 part member)

/-- Scalars are compared by the operator itself, tuples of one length item by item. -/
theorem compare_cases {left right e : Expr} (h : op.compare joiner left right = .ok e) :
    (left.isTuple = false ∧ right.isTuple = false ∧ e = .apply op [left, right]) ∨
      ∃ ls rs parts, left = .tuple ls ∧ right = .tuple rs ∧ ls.length = rs.length ∧
        op.compareItems joiner ls rs = .ok parts ∧ op.joinAll joiner parts = .ok e := by
  have both := isTuple_of_compare h
  cases left with
  | tuple ls =>
    cases right with
    | tuple rs =>
      simp only [compare] at h
      split at h
      case isTrue length =>
        obtain ⟨parts, compared, joined⟩ := bind_eq_ok.1 h
        exact .inr ⟨ls, rs, parts, rfl, rfl, length, compared, joined⟩
      case isFalse => cases h
    | _ => cases both
  | _ =>
    rw [compare_of_noTuple rfl both.symm] at h
    exact .inl ⟨rfl, both.symm, (Except.ok.inj h).symm⟩

theorem of_compareItems {ls rs parts : List Expr}
    (ih : ∀ l ∈ ls, ∀ {r e : Expr}, (∀ a ∈ l.leaves, ∀ b ∈ r.leaves, property (.apply op [a, b])) →
      op.compare joiner l r = .ok e → property e)
    (leaf : ∀ a ∈ Expr.itemLeaves ls, ∀ b ∈ Expr.itemLeaves rs, property (.apply op [a, b]))
    (h : op.compareItems joiner ls rs = .ok parts) : ∀ part ∈ parts, property part := by
  induction ls generalizing rs parts with
  | nil =>
    cases h
    intro part member
    cases member
  | cons l ls ih' =>
    cases rs with
    | nil =>
      cases h
      intro part member
      cases member
    | cons r rs =>
      rw [List.forall_mem_cons] at ih
      simp only [compareItems, bind_eq_ok, pure_eq_ok] at h
      obtain ⟨first, compared, rest, others, rfl⟩ := h
      rw [List.forall_mem_cons]
      constructor
      · refine ih.1 (fun a onLeft b onRight => ?_) compared
        exact leaf a (List.mem_append_left _ onLeft) b (List.mem_append_left _ onRight)
      · refine ih' ih.2 (fun a onLeft b onRight => ?_) others
        exact leaf a (List.mem_append_right _ onLeft) b (List.mem_append_right _ onRight)

/-- What holds of the comparisons of leaves and is kept by the joiner holds of a comparison. -/
theorem of_compare (join : ∀ a b, property a → property b → property (.apply joiner [a, b]))
    {left right e : Expr}
    (leaf : ∀ l ∈ left.leaves, ∀ r ∈ right.leaves, property (.apply op [l, r]))
    (h : op.compare joiner left right = .ok e) : property e := by
  induction left using Expr.tuple_induction generalizing right e with
  | scalar left noTuple =>
    have noTupleRight : right.isTuple = false := (isTuple_of_compare h).symm.trans noTuple
    rw [compare_of_noTuple noTuple noTupleRight] at h
    cases h
    rw [Expr.leaves_of_noTuple noTuple, Expr.leaves_of_noTuple noTupleRight] at leaf
    exact leaf left (List.mem_singleton.2 rfl) right (List.mem_singleton.2 rfl)
  | tuple ls ih =>
    rcases compare_cases h with ⟨isTuple, _⟩ | ⟨_, rs, parts, equal, rfl, _, compared, joined⟩
    · cases isTuple
    · cases equal
      exact of_joinAll join (of_compareItems ih leaf compared) joined

/-- A comparison is no tuple. -/
theorem isTuple_compare {left right e : Expr} (h : op.compare joiner left right = .ok e) :
    e.isTuple = false :=
  @of_compare op joiner (·.isTuple = false) (fun _ _ _ _ => rfl) left right e (fun _ _ _ _ => rfl) h

end Operator

/-! ## Choices -/

namespace Expr

variable {conditions : List Expr} {part whole : Expr → Prop}

/-- The choices at the leaves of a tuple, if the choices at its items are distributed. -/
theorem itemLeaves_distributeItems {defaults : List Expr}
    (ih : ∀ default ∈ defaults, ∀ {results : List Expr}, (∀ r ∈ results, r.shape = default.shape) →
      (distribute conditions default results).leaves =
        default.leaves.mapIdx fun i leaf =>
          .case (conditions.zip (results.filterMap (·.leaves[i]?))) leaf)
    {table : List (List Expr)} (same : ∀ row ∈ table, shapes row = shapes defaults) :
    itemLeaves (distributeItems conditions defaults table) =
      (itemLeaves defaults).mapIdx fun i leaf =>
        .case (conditions.zip (table.filterMap fun row => (itemLeaves row)[i]?)) leaf := by
  induction defaults generalizing table with
  | nil => rfl
  | cons default defaults ih' =>
    rw [List.forall_mem_cons] at ih
    obtain ⟨pairs, rfl, shape⟩ := exists_heads_of_shapes same
    have length : ∀ p ∈ pairs, p.1.leaves.length = default.leaves.length := fun p member =>
      length_leaves_congr (shape p member).1
    rw [distributeItems, heads_of_pairs, tails_of_pairs, itemLeaves, itemLeaves, List.mapIdx_append]
    congr 1
    · rw [ih.1 (List.forall_mem_map.2 fun p member => (shape p member).1),
        List.mapIdx_eq_mapIdx_iff]
      intro i inside
      congr 2
      rw [List.filterMap_map, List.filterMap_map]
      refine List.filterMap_congr fun p member => ?_
      exact (List.getElem?_append_left (length p member ▸ inside)).symm
    · rw [ih' ih.2 (List.forall_mem_map.2 fun p member => (shape p member).2),
        List.mapIdx_eq_mapIdx_iff]
      intro i inside
      congr 2
      rw [List.filterMap_map, List.filterMap_map]
      refine List.filterMap_congr fun p member => ?_
      simp only [Function.comp_apply, itemLeaves]
      rw [← length p member, List.getElem?_append_right (Nat.le_add_left _ _), Nat.add_sub_cancel]

/-- Each leaf of a choice between values of one shape is the choice between their leaves at its
place. -/
theorem leaves_distribute {default : Expr} {results : List Expr}
    (same : ∀ r ∈ results, r.shape = default.shape) :
    (distribute conditions default results).leaves =
      default.leaves.mapIdx fun i leaf =>
        .case (conditions.zip (results.filterMap (·.leaves[i]?))) leaf := by
  induction default using tuple_induction generalizing results with
  | scalar default noTuple =>
    have whole : results.filterMap (·.leaves[0]?) = results := by
      have first : ∀ r ∈ results, r.leaves[0]? = some r := by
        intro r member
        rw [leaves_of_noTuple (isTuple_eq_false_of_shape (same r member) noTuple)]
        rfl
      rw [List.filterMap_congr first, List.filterMap_some]
    rw [distribute_of_noTuple noTuple, leaves_of_noTuple noTuple, List.mapIdx_cons,
      List.mapIdx_nil, whole]
    rfl
  | tuple defaults ih =>
    obtain ⟨table, rfl, shapes⟩ := exists_tuples_of_shape same
    rw [distribute, filterMap_components?, leaves, itemLeaves_distributeItems ih shapes]
    simp only [List.filterMap_map]
    rfl

/-- What holds of the choices between leaves holds of the leaves of a choice. -/
theorem of_distribute (choose : ∀ chosen default, (∀ r ∈ chosen, part r) → part default →
      whole (.case (conditions.zip chosen) default)) {default : Expr} {results : List Expr}
    (same : ∀ r ∈ results, r.shape = default.shape)
    (onResults : ∀ r ∈ results, ∀ leaf ∈ r.leaves, part leaf)
    (onDefault : ∀ leaf ∈ default.leaves, part leaf) :
    ∀ leaf ∈ (distribute conditions default results).leaves, whole leaf := by
  rw [leaves_distribute same]
  intro leaf member
  obtain ⟨i, inside, rfl⟩ := List.mem_mapIdx.1 member
  refine choose _ _ (fun r among => ?_) (onDefault _ (List.getElem_mem inside))
  obtain ⟨result, own, place⟩ := List.mem_filterMap.1 among
  exact onResults result own r (List.mem_of_getElem? place)

end Expr

/-! ## Aggregations and choices -/

namespace Expr

variable {p : NodeProperty} {whole e : Expr}

/-- An aggregation takes its argument or a leaf of it. -/
theorem flattenAggregate_cases {fn : Aggregate} {arg : Expr}
    (flat : flattenAggregate whole fn arg = .ok e) :
    ∃ own, e = .aggregate fn own ∧ (own = arg ∨ own ∈ arg.leaves) := by
  unfold flattenAggregate at flat
  split at flat
  · split at flat
    case h_1 leaf first =>
      cases flat
      exact ⟨leaf, rfl, .inr (mem_leaves_of_firstLeaf? first)⟩
    case h_2 => cases flat
  · split at flat
    · cases flat
    · cases flat
      exact ⟨arg, rfl, .inl rfl⟩

theorem everywhere_flattenAggregate {fn : Aggregate} {arg : Expr}
    (node : ∀ arg, p.expr (.aggregate fn arg)) (h : arg.Everywhere p)
    (flat : flattenAggregate whole fn arg = .ok e) : e.Everywhere p := by
  obtain ⟨own, rfl, origin⟩ := flattenAggregate_cases flat
  rw [everywhere_aggregate]
  refine ⟨node own, ?_⟩
  rcases origin with rfl | leaf
  · exact h
  · exact everywhere_leaves h leaf

/-- A choice between tuples is made of choices between leaves. -/
theorem everywhere_flattenCase {conditions results : List Expr} {default : Expr}
    (tuples : ∀ items, p.expr (.tuple items))
    (node : ∀ branches default, p.expr (.case branches default))
    (onConditions : ∀ c ∈ conditions, c.Everywhere p) (onResults : ∀ r ∈ results, r.Everywhere p)
    (onDefault : default.Everywhere p)
    (flat : flattenCase whole conditions results default = .ok e) :
    e.Everywhere p := by
  obtain ⟨same, rfl⟩ := flattenCase_eq_ok.1 flat
  have choose : ∀ chosen default, (∀ r ∈ chosen, r.Everywhere p) → default.Everywhere p →
      (Expr.case (conditions.zip chosen) default).Everywhere p := by
    intro chosen default among own
    rw [everywhere_case]
    refine ⟨node _ _, fun b member => ?_, own⟩
    exact ⟨onConditions _ (List.of_mem_zip member).1, among _ (List.of_mem_zip member).2⟩
  exact everywhere_of_leaves tuples (of_distribute choose same
    (fun r member leaf => everywhere_leaves (onResults r member))
      (fun leaf => everywhere_leaves onDefault))

end Expr

/-! ## References -/

namespace Query

/-- Renamed columns are references. -/
theorem everywhere_renamings {p : NodeProperty} (attr : ∀ name, p.expr (.attr name))
    {names : List String} {columns : List Column} :
    ∀ c ∈ renamings names columns, c.2.Everywhere p := by
  intro c member
  obtain ⟨d, _, equal⟩ := exists_of_mem_renamings member
  rw [equal, Expr.everywhere_attr]
  exact attr d.1

/-- What a run binds attributes to holds references only. -/
theorem everywhere_resolve {p : NodeProperty} (attr : ∀ name, p.expr (.attr name))
    (tuples : ∀ items, p.expr (.tuple items)) {s t : PassState} {env : Environment} {check : Regime}
    {q flat : Query}
    (run : (q.flatten check).Yields s (flat, env) t) (name : String) :
    (env.resolve name).Everywhere p := by
  unfold Environment.resolve
  cases found : env.find? name with
  | none =>
    rw [Option.getD_none, Expr.everywhere_attr]
    exact attr name
  | some rep =>
    rw [Option.getD_some]
    refine Expr.everywhere_of_leaves tuples ?_
    rw [(Query.bindings_drawn run name rep found).leaves]
    exact everywhere_attrs attr

end Query

end FlatPlan
