import FlatPlan.Proofs.Session

/-!
# Vocabularies

A plan is flattened over a fixed stock of base types, where a name means one base type. A
`Vocabulary` is a session with this stock and with what flattening relies on: the columns of a
layout are neither structured nor products, an encoder stores a member as one constant a column, of
the column's type, and no structured type is numeric or ordered. Over a vocabulary, types that
compare as the same are equal (`Ty.eq_of_same`).
-/

namespace FlatPlan

namespace Ty

mutual

/-- Whether every base type in a type is the one that `base?` has under its name. -/
def NamedIn (base? : String → Option BaseTy) : Ty → Prop
  | .base b => base? b.name = some b
  | .nullable inner => inner.NamedIn base?
  | .product items => AllNamedIn base? items
  | .set member => member.NamedIn base?
  | .boundedString _ => True

/-- Whether every base type in the types is the one that `base?` has under its name. -/
def AllNamedIn (base? : String → Option BaseTy) : List Ty → Prop
  | [] => True
  | t :: ts => t.NamedIn base? ∧ AllNamedIn base? ts

end

/-- Whether a type is neither structured nor a product, with or without null. -/
def isScalar (t : Ty) : Bool := !t.isStructured && !t.nonNull.isProduct

/-- The types of the parts of a value that is not a scalar. -/
def components? : Ty → Option (List Ty)
  | .product items => some items
  | t => t.layout?.map fun l => l.columns.map Prod.snd

section Same

variable {base? : String → Option BaseTy}

/-- Types are made of known base types exactly if each of them is. -/
theorem allNamedIn_iff : ∀ ts : List Ty, AllNamedIn base? ts ↔ ∀ t ∈ ts, t.NamedIn base?
  | [] => by simp [AllNamedIn]
  | t :: ts => by simp [AllNamedIn, allNamedIn_iff ts]

mutual

/-- Types that are made of known base types are equal if they compare as the same, since base types
of one name are one type. -/
theorem eq_of_same : ∀ {a b : Ty}, a.NamedIn base? → b.NamedIn base? → a.same b = true → a = b
  | .base a, .base b, ha, hb, h => by
    have names : a.name = b.name := by simpa [same] using h
    simp only [NamedIn] at ha hb
    rw [names, hb] at ha
    exact congrArg Ty.base (Option.some.inj ha).symm
  | .nullable a, .nullable b, ha, hb, h => by
    rw [eq_of_same (a := a) (b := b) ha hb h]
  | .product as, .product bs, ha, hb, h => by
    rw [@eq_of_sameItems as bs ha hb h]
  | .set a, .set b, ha, hb, h => by
    rw [eq_of_same (a := a) (b := b) ha hb h]
  | .boundedString m, .boundedString n, _, _, h => by
    rw [show m = n by simpa [same] using h]

theorem eq_of_sameItems : ∀ {as bs : List Ty}, AllNamedIn base? as → AllNamedIn base? bs →
    sameItems as bs = true → as = bs
  | [], [], _, _, _ => rfl
  | a :: as, b :: bs, ha, hb, h => by
    rw [sameItems, Bool.and_eq_true] at h
    rw [eq_of_same ha.1 hb.1 h.1, eq_of_sameItems ha.2 hb.2 h.2]

end

end Same

mutual

/-- A type compares as the same as itself. -/
theorem same_self : ∀ t : Ty, t.same t = true
  | .base b => by simp [same]
  | .nullable inner => by rw [same, same_self inner]
  | .product items => by rw [same, sameItems_self items]
  | .set member => by rw [same, same_self member]
  | .boundedString limit => by simp [same]

theorem sameItems_self : ∀ ts : List Ty, sameItems ts ts = true
  | [] => rfl
  | t :: ts => by rw [sameItems, same_self t, sameItems_self ts]; rfl

end

/-- Over a stock of base types, one a name, the comparison of types decides their equality. -/
theorem beq_iff_eq {base? : String → Option BaseTy} {a b : Ty} (ha : a.NamedIn base?)
    (hb : b.NamedIn base?) : (a == b) = true ↔ a = b :=
  ⟨eq_of_same ha hb, fun equal => equal ▸ same_self a⟩

/-! ## Structured types and products -/

theorem namedIn_nonNull {base? : String → Option BaseTy} {t : Ty} (h : t.NamedIn base?) :
    t.nonNull.NamedIn base? := by
  cases t <;> exact h

theorem namedIn_orNull {base? : String → Option BaseTy} {t : Ty} (h : t.NamedIn base?) :
    t.orNull.NamedIn base? := by
  cases t <;> exact h

/-- The layout of a type is that of its base type, with or without null. -/
theorem layout?_eq_some {t : Ty} {l : Layout} :
    t.layout? = some l ↔ ∃ b, t.nonNull = .base b ∧ b.layout = some l := by
  unfold layout?
  cases t.nonNull <;> simp [ownLayout?, base?]

/-- Null makes no difference to the layout. -/
theorem layout?_eq_of_nonNull_eq {a b : Ty} (h : a.nonNull = b.nonNull) :
    a.layout? = b.layout? := by
  unfold layout?
  rw [h]

theorem isStructured_eq_false {t : Ty} : t.isStructured = false ↔ t.layout? = none := by
  unfold isStructured
  exact Option.isSome_eq_false_iff.trans Option.isNone_iff_eq_none

/-- A scalar type is neither structured nor a product, with or without null. -/
theorem isScalar_iff {t : Ty} : t.isScalar = true ↔ t.layout? = none ∧
    t.nonNull.isProduct = false := by
  simp [isScalar, isStructured_eq_false]

/-- The components of a structured type are the columns of its layout. -/
theorem components?_of_layout? {t : Ty} {l : Layout} (h : t.layout? = some l) :
    t.components? = some (l.columns.map Prod.snd) := by
  obtain ⟨b, base, _⟩ := layout?_eq_some.1 h
  cases t with
  | product items => cases base
  | _ => simp only [components?, h, Option.map_some]

/-- Other types than structured ones and products have no components. -/
theorem components?_of_not_product {t : Ty} (unstructured : t.layout? = none)
    (noProduct : t.isProduct = false) : t.components? = none := by
  cases t with
  | product items => cases noProduct
  | _ => simp only [components?, unstructured, Option.map_none]

theorem isProduct_of_nonNull {t : Ty} (h : t.nonNull.isProduct = false) : t.isProduct = false := by
  cases t <;> first | rfl | exact h

theorem components?_of_isScalar {t : Ty} (h : t.isScalar = true) : t.components? = none := by
  obtain ⟨unstructured, noProduct⟩ := isScalar_iff.1 h
  exact components?_of_not_product unstructured (isProduct_of_nonNull noProduct)

/-- A type with components is structured or itself a product. -/
theorem components?_cases {t : Ty} {types : List Ty} (h : t.components? = some types) :
    (∃ l, t.layout? = some l ∧ types = l.columns.map Prod.snd) ∨ t = .product types := by
  cases t with
  | product items => exact .inr (congrArg _ (Option.some.inj h))
  | _ =>
    simp only [components?, Option.map_eq_some_iff] at h
    obtain ⟨l, layout, equal⟩ := h
    exact .inl ⟨l, layout, equal.symm⟩

/-- Types that differ only in null have the same components, if both have components. -/
theorem components?_unique {a b : Ty} {as bs : List Ty} (h : a.nonNull = b.nonNull)
    (ha : a.components? = some as) (hb : b.components? = some bs) : as = bs := by
  have layouts := layout?_eq_of_nonNull_eq h
  rcases components?_cases ha with ⟨l, layout, rfl⟩ | rfl
  · rw [components?_of_layout? (layouts ▸ layout)] at hb
    exact Option.some.inj hb
  · rcases components?_cases hb with ⟨l, layout, rfl⟩ | rfl
    · rw [layout] at layouts
      cases layouts
    · cases h
      rfl

end Ty

/-- The constants of a layout's columns with the given values. -/
def Layout.constants (l : Layout) (values : List Value) : List Expr :=
  List.zipWith (fun column value => .const column.2 value) l.columns values

/-- A structured constant that its encoder takes is a member of its type. -/
def Ty.Stores (rules : Rules) (type : Ty) (value : Value) : Prop :=
  ∀ l e, type.layout? = some l → value.isNull = false → l.stored rules value = .ok e →
    type.isMember value = true

/-- A session over a stock of base types, one a name, with what flattening relies on. -/
structure Vocabulary extends Session where
  /-- The base type of a name. -/
  base? : String → Option BaseTy
  builtin : ∀ t ∈ Ty.builtins, t.2.NamedIn base?
  /-- The columns of a layout are neither structured nor products. -/
  columns : ∀ {b : BaseTy} {l : Layout}, base? b.name = some b → b.layout = some l →
    ∀ c ∈ l.columns, c.2.NamedIn base? ∧ c.2.isStructured = false ∧ c.2.isProduct = false
  /-- A member is stored as one constant a column, and the constant has the type of the column. -/
  encode : ∀ {b : BaseTy} {l : Layout} {value : Value}, base? b.name = some b → b.layout = some l →
    b.contains value = true →
    ∃ values, values.length = l.columns.length ∧
      l.stored rules value = .ok (.tuple (l.constants values))
  /-- No structured type is numeric. -/
  not_numeric : ∀ {b : BaseTy}, base? b.name = some b → b.layout.isSome →
    capabilities.isNumeric (.base b) = false
  /-- No structured type is ordered. -/
  not_ordered : ∀ {b : BaseTy}, base? b.name = some b → b.layout.isSome →
    capabilities.isOrdered (.base b) = false

namespace Vocabulary

/-- Whether a type is made of base types of the vocabulary. -/
def Names (v : Vocabulary) (t : Ty) : Prop := t.NamedIn v.base?

variable {v : Vocabulary}

theorem names_boolean : v.Names .boolean := v.builtin ("boolean", .boolean) (by simp [Ty.builtins])

theorem names_integer : v.Names .integer := v.builtin ("integer", .integer) (by simp [Ty.builtins])

theorem names_float : v.Names .float := v.builtin ("float", .float) (by simp [Ty.builtins])

/-- The columns of a layout are made of known base types, and neither structured nor products. -/
theorem layout_columns {t : Ty} {l : Layout} (named : v.Names t) (layout : t.layout? = some l) :
    ∀ c ∈ l.columns, v.Names c.2 ∧ c.2.isStructured = false ∧ c.2.isProduct = false := by
  obtain ⟨b, base, own⟩ := Ty.layout?_eq_some.1 layout
  have known := Ty.namedIn_nonNull named
  rw [base] at known
  exact v.columns known own

/-- A capability that no product and no structured base type has belongs to scalars only. -/
private theorem isScalar_of_capability {has : Ty → Bool} {t : Ty} (named : v.Names t)
    (h : has t = true) (nullable : ∀ inner, has (.nullable inner) = has inner)
    (product : ∀ items, has (.product items) = false)
    (base : ∀ b : BaseTy, v.base? b.name = some b → b.layout.isSome → has (.base b) = false) :
    t.isScalar = true := by
  have inner : has t.nonNull = true := by
    cases t with
    | nullable inner => exact (nullable inner).symm.trans h
    | _ => exact h
  have known := Ty.namedIn_nonNull named
  rw [Ty.isScalar_iff]
  constructor
  · cases layout : t.layout? with
    | none => rfl
    | some l =>
      obtain ⟨b, isBase, own⟩ := Ty.layout?_eq_some.1 layout
      rw [isBase] at inner known
      rw [base b known (by rw [own]; rfl)] at inner
      cases inner
  · cases isProduct : t.nonNull with
    | product items =>
      rw [isProduct, product] at inner
      cases inner
    | _ => rfl

/-- Only scalar types are numeric. -/
theorem isScalar_of_isNumeric {t : Ty} (named : v.Names t) (h : v.capabilities.isNumeric t = true) :
    t.isScalar = true :=
  isScalar_of_capability named h (fun _ => by rw [Capabilities.isNumeric])
    (fun _ => by rw [Capabilities.isNumeric]) fun _ known structured =>
      v.not_numeric known structured

/-- Only scalar types are ordered. -/
theorem isScalar_of_isOrdered {t : Ty} (named : v.Names t) (h : v.capabilities.isOrdered t = true) :
    t.isScalar = true :=
  isScalar_of_capability named h (fun _ => by rw [Capabilities.isOrdered])
    (fun _ => by rw [Capabilities.isOrdered]) fun _ known structured =>
      v.not_ordered known structured

/-! ## Checks -/

/-- Checked mode accepts a type in place of another only if they are equal. -/
theorem expect_checked {expected actual : Ty} (he : v.Names expected) (ha : v.Names actual) :
    v.checked.expect expected actual = .ok () ↔ actual = expected := by
  unfold TypeCheck.expect
  rw [Session.require_checked, Ty.beq_iff_eq he ha, eq_comm]

theorem expectNumeric_checked {t : Ty} :
    v.checked.expectNumeric t = .ok () ↔ v.capabilities.isNumeric t = true := by
  unfold TypeCheck.expectNumeric
  exact Session.require_checked

theorem expectOrdered_checked {t : Ty} :
    v.checked.expectOrdered t = .ok () ↔ v.capabilities.isOrdered t = true := by
  unfold TypeCheck.expectOrdered
  exact Session.require_checked

/-- Types have a common type if they are equal or differ in null only. -/
theorem unify_checked {left right type : Ty} (hl : v.Names left) (hr : v.Names right)
    (h : v.checked.unify left right = .ok type) :
    (left = right ∧ type = left) ∨
      (left ≠ right ∧ left.nonNull = right.nonNull ∧ type = left.nonNull.orNull) := by
  rcases (TypeCheck.unify_of_checked rfl).1 h with ⟨same, rfl⟩ | ⟨different, same, rfl⟩
  · exact .inl ⟨Ty.eq_of_same hl hr same, rfl⟩
  · have ne : left ≠ right := fun equal => different ((Ty.beq_iff_eq hl hr).2 equal)
    exact .inr ⟨ne, Ty.eq_of_same (Ty.namedIn_nonNull hl) (Ty.namedIn_nonNull hr) same, rfl⟩

private theorem eq_nullable_of_nonNull {t inner : Ty} (h : t.nonNull = .nullable inner) :
    t = .nullable (.nullable inner) := by
  cases t <;> cases h
  rfl

/-- Unifying two types gives one that differs from both in null at most. -/
theorem nonNull_unify {left right type : Ty} (hl : v.Names left) (hr : v.Names right)
    (h : v.checked.unify left right = .ok type) :
    v.Names type ∧ left.nonNull = type.nonNull ∧ right.nonNull = type.nonNull := by
  rcases unify_checked hl hr h with ⟨rfl, rfl⟩ | ⟨ne, agree, rfl⟩
  · exact ⟨hl, rfl, rfl⟩
  · have same : left.nonNull.orNull.nonNull = left.nonNull := by
      cases inner : left.nonNull with
      | nullable t =>
        exact absurd ((eq_nullable_of_nonNull inner).trans
          (eq_nullable_of_nonNull (agree ▸ inner)).symm) ne
      | _ => rfl
    exact ⟨Ty.namedIn_orNull (Ty.namedIn_nonNull hl), same.symm, by rw [same, agree]⟩

/-- The common type of types with the same components has these components. -/
theorem components?_unify {left right type : Ty} {types : List Ty} (hl : v.Names left)
    (hr : v.Names right) (h : v.checked.unify left right = .ok type)
    (cl : left.components? = some types)
    (cr : right.components? = some types) : type.components? = some types := by
  rcases unify_checked hl hr h with ⟨rfl, rfl⟩ | ⟨ne, agree, _⟩
  · exact cl
  · obtain ⟨_, same, _⟩ := nonNull_unify hl hr h
    rcases Ty.components?_cases cl with ⟨l, layout, rfl⟩ | rfl
    · exact Ty.components?_of_layout? (Ty.layout?_eq_of_nonNull_eq same ▸ layout)
    · rcases Ty.components?_cases cr with ⟨l, layout, _⟩ | rfl
      · rw [← Ty.layout?_eq_of_nonNull_eq agree] at layout
        cases layout
      · exact absurd rfl ne

/-- The type of a choice is found from the last branch to the first. -/
theorem caseType_cons (check : TypeCheck) (branch : Ty × Ty) (branches : List (Ty × Ty))
    (default : Ty) :
    check.caseType (branch :: branches) default =
      (check.caseType branches default >>= fun type =>
        check.expect .boolean branch.1 >>= fun _ => check.unify branch.2 type) := by
  unfold TypeCheck.caseType
  rw [List.reverse_cons, List.foldlM_append]
  simp only [List.foldlM_cons, List.foldlM_nil, bind_pure]

/-- Checked mode takes a branch to a choice if its condition is a boolean and its result unifies
with what comes after it. -/
theorem caseType_checked {branch : Ty × Ty} {branches : List (Ty × Ty)} {default type : Ty} :
    v.checked.caseType (branch :: branches) default = .ok type ↔
      ∃ rest, v.checked.caseType branches default = .ok rest ∧
        v.checked.expect .boolean branch.1 = .ok () ∧ v.checked.unify branch.2 rest = .ok type := by
  rw [caseType_cons]
  simp only [bind_eq_ok]
  constructor
  · rintro ⟨rest, h, _, expected, unified⟩
    exact ⟨rest, h, expected, unified⟩
  · rintro ⟨rest, h, expected, unified⟩
    exact ⟨rest, h, (), expected, unified⟩

/-- The conditions of a choice are booleans, and its parts differ from its type in null only. -/
theorem nonNull_caseType {branches : List (Ty × Ty)} {default type : Ty}
    (hb : ∀ b ∈ branches, v.Names b.1 ∧ v.Names b.2) (hd : v.Names default)
    (h : v.checked.caseType branches default = .ok type) :
    v.Names type ∧ default.nonNull = type.nonNull ∧
      ∀ b ∈ branches, b.1 = .boolean ∧ b.2.nonNull = type.nonNull := by
  induction branches generalizing type with
  | nil =>
    cases h
    exact ⟨hd, rfl, fun _ member => nomatch member⟩
  | cons branch branches ih =>
    obtain ⟨rest, before, expected, unified⟩ := caseType_checked.1 h
    rw [List.forall_mem_cons] at hb
    obtain ⟨named, defaults, all⟩ := ih hb.2 before
    obtain ⟨namedType, first, others⟩ := nonNull_unify hb.1.2 named unified
    refine ⟨namedType, defaults.trans others, List.forall_mem_cons.2 ⟨⟨?_, first⟩, ?_⟩⟩
    · exact (expect_checked names_boolean hb.1.1).1 expected
    · intro b member
      exact ⟨(all b member).1, (all b member).2.trans others⟩

/-- The components of a choice between tuples are those of its default. -/
theorem components?_caseType {branches : List (Ty × Ty)} {default type : Ty} {types : List Ty}
    (hb : ∀ b ∈ branches, v.Names b.1 ∧ v.Names b.2) (hd : v.Names default)
    (h : v.checked.caseType branches default = .ok type) (cd : default.components? = some types)
    (cb : ∀ b ∈ branches, b.2.components? = some types) : type.components? = some types := by
  induction branches generalizing type with
  | nil =>
    cases h
    exact cd
  | cons branch branches ih =>
    obtain ⟨rest, before, _, unified⟩ := caseType_checked.1 h
    rw [List.forall_mem_cons] at hb cb
    have named := (nonNull_caseType hb.2 hd before).1
    exact components?_unify hb.1.2 named unified cb.1 (ih hb.2 before cb.2)

/-- A choice between values of one type has this type. -/
theorem caseType_constant {branches : List (Ty × Ty)} {type : Ty}
    (h : ∀ b ∈ branches, b = (.boolean, type)) : v.checked.caseType branches type = .ok type := by
  induction branches with
  | nil => rfl
  | cons branch branches ih =>
    rw [List.forall_mem_cons] at h
    refine caseType_checked.2 ⟨type, ih h.2, ?_, ?_⟩
    · rw [h.1]
      exact (expect_checked names_boolean names_boolean).2 rfl
    · rw [h.1]
      unfold TypeCheck.unify
      rw [if_pos (show (type == type) = true from Ty.same_self type)]

end Vocabulary

end FlatPlan
