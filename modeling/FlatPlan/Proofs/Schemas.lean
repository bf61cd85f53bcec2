import FlatPlan.Proofs.Vocabulary

/-!
# Schemas of combinations

What the schema of a product, a quotient or a set operation is, in both modes, and how a column is
found by its name. In checked mode a product is the concatenation of two schemas without common
names, and the operands of a set operation have equal schemas.
-/

namespace FlatPlan.Schema

/-! ## Looking up columns -/

theorem get?_eq_none {s : Schema} {name : String} : s.get? name = none ↔ name ∉ s.names := by
  unfold get? names
  rw [List.lookup_eq_none_iff]
  simp only [List.mem_map, not_exists, not_and, bne_iff_ne, ne_eq]
  exact ⟨fun h c member equal => h c member equal.symm,
    fun h c member equal => h c member equal.symm⟩

theorem contains_iff {s : Schema} {name : String} : s.contains name = true ↔ name ∈ s.names := by
  unfold contains
  rw [Option.isSome_iff_ne_none, Ne, get?_eq_none, Decidable.not_not]

theorem contains_eq_false {s : Schema} {name : String} : s.contains name = false ↔
    name ∉ s.names := by
  rw [← contains_iff, Bool.not_eq_true]

theorem mem_of_get? {s : Schema} {name : String} {type : Ty} (h : s.get? name = some type) :
    (name, type) ∈ s.columns := by
  obtain ⟨before, after, equal, _⟩ := List.lookup_eq_some_iff.1 h
  rw [equal]
  simp

theorem mem_names_of_mem {s : Schema} {c : Column} (h : c ∈ s.columns) : c.1 ∈ s.names :=
  List.mem_map.2 ⟨c, h, rfl⟩

/-- A column is found by its name where names are distinct. -/
theorem get?_of_mem {s : Schema} (distinct : s.names.Nodup) {c : Column} (member : c ∈ s.columns) :
    s.get? c.1 = some c.2 :=
  NameMap.lookup_of_mem distinct member

/-! ## Products -/

variable {v : Vocabulary}

private def productStep (check : TypeCheck) (left right schema : Schema) (column : Column) :
    Except Error Schema :=
  if schema.contains column.1 then
    if check.checked then .error (.schemaMismatch .product left.text right.text) else .ok schema
  else .ok (schema.push column.1 column.2)

private theorem foldlM_productStep {check : TypeCheck} (left right : Schema) {columns : List Column}
    {schema : Schema} (apart : ∀ c ∈ columns, c.1 ∉ schema.names)
    (distinct : (columns.map Prod.fst).Nodup) :
    columns.foldlM (productStep check left right) schema = .ok ⟨schema.columns ++ columns⟩ := by
  induction columns generalizing schema with
  | nil => simp [pure, Except.pure]
  | cons c columns ih =>
    rw [List.map_cons, List.nodup_cons] at distinct
    rw [List.forall_mem_cons] at apart
    have new : productStep check left right schema c = .ok (schema.push c.1 c.2) := by
      unfold productStep
      rw [contains_eq_false.2 apart.1]
      rfl
    have next : ∀ d ∈ columns, d.1 ∉ (schema.push c.1 c.2).names := by
      intro d member
      simp only [names, push, List.map_append, List.map_cons, List.map_nil, List.mem_append,
        List.mem_singleton, not_or]
      refine ⟨apart.2 d member, fun equal => distinct.1 ?_⟩
      exact equal ▸ List.mem_map.2 ⟨d, member, rfl⟩
    rw [List.foldlM_cons, new]
    have rest := ih next distinct.2
    simpa [bind, Except.bind, push] using rest

private theorem apart_of_foldlM_productStep {capabilities : Capabilities} (left right : Schema)
    {columns : List Column} {schema result : Schema}
    (h : columns.foldlM (productStep ⟨true, capabilities⟩ left right) schema = .ok result) :
    (∀ c ∈ columns, c.1 ∉ schema.names) ∧ (columns.map Prod.fst).Nodup := by
  induction columns generalizing schema with
  | nil => simp
  | cons c columns ih =>
    rw [List.foldlM_cons, bind_eq_ok] at h
    obtain ⟨next, step, rest⟩ := h
    unfold productStep at step
    split at step
    · cases step
    case isFalse absent =>
      cases step
      rw [Bool.not_eq_true, contains_eq_false] at absent
      obtain ⟨apart, distinct⟩ := ih rest
      simp only [names, push, List.map_append, List.map_cons, List.map_nil, List.mem_append,
        List.mem_singleton, not_or] at apart
      refine ⟨List.forall_mem_cons.2 ⟨absent, fun d member => (apart d member).1⟩, ?_⟩
      rw [List.map_cons, List.nodup_cons]
      refine ⟨fun member => ?_, distinct⟩
      obtain ⟨d, member, equal⟩ := List.mem_map.1 member
      exact (apart d member).2 equal

/-- Whether two schemas can stand side by side: they have no name in common, and none on the right
stands twice. -/
structure Apart (left right : Schema) : Prop where
  disjoint : ∀ c ∈ right.columns, c.1 ∉ left.names
  distinct : right.names.Nodup

/-- Schemas without a common name multiply to their columns, side by side. -/
theorem product_of_apart {check : TypeCheck} {left right : Schema} (apart : left.Apart right) :
    product check left right = .ok ⟨left.columns ++ right.columns⟩ :=
  foldlM_productStep left right apart.disjoint apart.distinct

/-- In checked mode a product has all columns of both operands. -/
theorem product_strict {capabilities : Capabilities} {left right schema : Schema} :
    product ⟨true, capabilities⟩ left right = .ok schema ↔
      left.Apart right ∧ schema = ⟨left.columns ++ right.columns⟩ := by
  constructor
  · intro h
    obtain ⟨disjoint, distinct⟩ := apart_of_foldlM_productStep left right h
    have apart : left.Apart right := ⟨disjoint, distinct⟩
    rw [product_of_apart apart] at h
    exact ⟨apart, (Except.ok.inj h).symm⟩
  · rintro ⟨apart, rfl⟩
    exact product_of_apart apart

/-- In checked mode only schemas without a common name multiply. -/
theorem product_checked {left right schema : Schema} :
    product v.checked left right = .ok schema ↔
      left.Apart right ∧ schema = ⟨left.columns ++ right.columns⟩ :=
  product_strict

/-! ## Quotients -/

/-- A fold that checks the columns of the right and collects the others. -/
theorem foldlM_quotientStep {check : TypeCheck} {right schema : Schema}
    {step : Schema → Column → Except Error Schema}
    (shared : ∀ acc c type, right.get? c.1 = some type →
      step acc c = (check.expect c.2 type >>= fun _ => pure acc))
    (own : ∀ acc c, right.get? c.1 = none → step acc c = .ok (acc.push c.1 c.2))
    (columns : List Column)
    (acc : Schema) :
    columns.foldlM step acc = .ok schema ↔
      (∀ c ∈ columns, ∀ type, right.get? c.1 = some type → check.expect c.2 type = .ok ()) ∧
        schema = ⟨acc.columns ++ columns.filter fun c => !right.contains c.1⟩ := by
  induction columns generalizing acc with
  | nil => simp [pure, Except.pure, eq_comm]
  | cons c columns ih =>
    rw [List.foldlM_cons, bind_eq_ok, List.forall_mem_cons]
    cases found : right.get? c.1 with
    | some type =>
      have contained : right.contains c.1 = true := by simp [contains, found]
      simp only [shared acc c type found, bind_eq_ok, pure_eq_ok, contained, Bool.not_true,
        List.filter_cons, Bool.false_eq_true, if_false, Option.some.injEq, forall_eq', ih]
      constructor
      · rintro ⟨_, ⟨_, expected, rfl⟩, rest, equal⟩
        exact ⟨⟨expected, rest⟩, equal⟩
      · rintro ⟨⟨expected, rest⟩, equal⟩
        exact ⟨acc, ⟨(), expected, rfl⟩, rest, equal⟩
    | none =>
      have absent : right.contains c.1 = false := by simp [contains, found]
      simp only [own acc c found, Except.ok.injEq, absent, Bool.not_false, List.filter_cons,
        if_true, reduceCtorEq, false_implies, implies_true, true_and, exists_eq_left', ih]
      simp only [push, List.append_assoc, List.singleton_append]

/-- A quotient keeps the columns of the left that the right does not have. -/
theorem quotient_eq_ok {check : TypeCheck} {left right schema : Schema} :
    quotient check left right = .ok schema ↔
      (∀ c ∈ left.columns, ∀ type, right.get? c.1 = some type → check.expect c.2 type = .ok ()) ∧
        schema = ⟨left.columns.filter fun c => !right.contains c.1⟩ :=
  foldlM_quotientStep (fun _ _ _ found => by rw [found]) (fun _ _ found => by
    rw [found]) left.columns .empty

/-! ## Set operations -/

/-- Schemas that are made of known base types are equal if they compare as the same. -/
theorem eq_of_same {left right : Schema} (hl : ∀ c ∈ left.columns, v.Names c.2)
    (hr : ∀ c ∈ right.columns, v.Names c.2) (h : (left == right) = true) : left = right := by
  suffices general : ∀ as bs : List Column, (∀ c ∈ as, v.Names c.2) → (∀ c ∈ bs, v.Names c.2) →
      same.sameColumns as bs = true → as = bs from
    congrArg Schema.mk (general left.columns right.columns hl hr h)
  intro as
  induction as with
  | nil =>
    intro bs _ _ h
    cases bs with
    | nil => rfl
    | cons b bs => cases h
  | cons a as ih =>
    intro bs ha hb h
    cases bs with
    | nil => cases h
    | cons b bs =>
      rw [List.forall_mem_cons] at ha hb
      simp only [same.sameColumns, Bool.and_eq_true, beq_iff_eq] at h
      obtain ⟨⟨names, types⟩, rest⟩ := h
      rw [ih bs ha.2 hb.2 rest, Prod.ext names (Ty.eq_of_same ha.1 hb.1 types)]

theorem same_self (s : Schema) : (s == s) = true := by
  suffices general : ∀ columns : List Column, same.sameColumns columns columns = true from
    general s.columns
  intro columns
  induction columns with
  | nil => rfl
  | cons c columns ih =>
    simp only [same.sameColumns, Bool.and_eq_true, beq_self_eq_true, ih, and_true, true_and]
    exact Ty.same_self c.2

/-- In checked mode the operands of a set operation have equal schemas. -/
theorem matching_checked {op : CombineOp} {left right schema : Schema}
    (hl : ∀ c ∈ left.columns, v.Names c.2) (hr : ∀ c ∈ right.columns, v.Names c.2) :
    matching v.checked op left right = .ok schema ↔ left = right ∧ schema = left := by
  unfold matching
  constructor
  · intro h
    split at h
    · cases h
    case isFalse fits =>
      cases same : left == right with
      | false => exact absurd (by simp [Session.checked, same]) fits
      | true => exact ⟨eq_of_same hl hr same, (Except.ok.inj h).symm⟩
  · rintro ⟨rfl, rfl⟩
    rw [same_self]
    rfl

end FlatPlan.Schema
