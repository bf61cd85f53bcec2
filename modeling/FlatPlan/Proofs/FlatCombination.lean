import FlatPlan.Proofs.FlatProjection

/-!
# Combinations of flat queries

A product puts the flat columns of its operands side by side. The other operations project the right
operand so that each of its columns has the flat names of its counterpart on the left (`align`); a
quotient then drops these columns, and a set operation finds the same columns on both sides. Main
statement: the flat form of a combination has the expanded schema (`FlatCombination.combine`).
-/

namespace FlatPlan

open Pass

variable {v : Vocabulary} {s t u : PassState} {schema : Schema} {env : Environment}

namespace Environment

/-- The flat columns that carry a column are those it expands to. -/
theorem Carries.flatColumns {c : Column} (h : env.Carries c) :
    env.flatColumns c.1 = .ok ((env.expandColumn c).map Prod.fst) := by
  cases layout : c.2.layout? with
  | none =>
    rw [carries_unstructured layout] at h
    rw [Environment.flatColumns, h, expandColumn_unstructured layout]
    rfl
  | some l =>
    obtain ⟨names, bound, length⟩ := (carries_structured layout).1 h
    rw [Environment.flatColumns, bound, expandColumn_structured layout bound,
      List.map_fst_zip (Nat.le_of_eq (by rw [List.length_map, length]))]
    simp only [Expr.leaves_tuple_attrs]
    clear bound length
    induction names with
    | nil => rfl
    | cons name names ih => rw [List.map_cons, List.mapM_cons, ih]; rfl

theorem Carries.flatTypes {c : Column} (h : env.Carries c) :
    (env.expandColumn c).map Prod.snd = c.2.flatTypes := by
  cases layout : c.2.layout? with
  | none => rw [expandColumn_unstructured layout, Ty.flatTypes, layout]; rfl
  | some l =>
    obtain ⟨names, bound, length⟩ := (carries_structured layout).1 h
    rw [expandColumn_structured layout bound, Ty.flatTypes, layout]
    exact List.map_snd_zip (Nat.le_of_eq (by rw [List.length_map, length]))

end Environment

theorem exists_between {α β γ : Type} {first : α → γ → Prop} {second : β → γ → Prop} {as : List α}
    {bs : List β} (h : List.Forall₂ (fun a b => ∃ c, first a c ∧ second b c) as bs) :
    ∃ cs, List.Forall₂ first as cs ∧ List.Forall₂ second bs cs := by
  induction h with
  | nil => exact ⟨[], .nil, .nil⟩
  | cons head _ ih =>
    obtain ⟨c, onLeft, onRight⟩ := head
    obtain ⟨cs, lefts, rights⟩ := ih
    exact ⟨c :: cs, .cons onLeft lefts, .cons onRight rights⟩

namespace Query

/-! ## Alignment -/

theorem alignColumns_eq_ok {leftEnv rightEnv : Environment} {left right : String}
    {columns : List (String × Expr)} :
    alignColumns leftEnv rightEnv left right = .ok columns ↔
      ∃ targets sources, leftEnv.flatColumns left = .ok targets ∧
        rightEnv.flatColumns right = .ok sources ∧
        targets.length = sources.length ∧ columns = targets.zip (sources.map .attr) := by
  simp only [alignColumns, bind_eq_ok]
  refine exists_congr fun targets => ?_
  constructor
  · rintro ⟨flatLeft, sources, flatRight, paired⟩
    split at paired
    case isTrue length => exact ⟨sources, flatLeft, flatRight, length, pure_eq_ok.1 paired⟩
    case isFalse => cases paired
  · rintro ⟨sources, flatLeft, flatRight, length, rfl⟩
    exact ⟨flatLeft, sources, flatRight, by rw [if_pos length]; rfl⟩

/-- What alignment makes of a column of the right operand: its flat columns under the names of the
left operand. -/
def Aligned (leftEnv rightEnv : Environment) (c : Column) (out : List Column) : Prop :=
  ∃ targets, leftEnv.flatColumns c.1 = .ok targets ∧
    targets.length = (rightEnv.expandColumn c).length ∧
    out = targets.zip ((rightEnv.expandColumn c).map Prod.snd)

theorem refersTo_aligned {rows : Schema} {targets : List String} {columns : List Column}
    (length : targets.length = columns.length)
    (found : ∀ c ∈ columns, rows.get? c.1 = some c.2 ∧ c.2.isProduct = false) :
    List.Forall₂ (RefersTo rows) (targets.zip ((columns.map Prod.fst).map .attr))
      (targets.zip (columns.map Prod.snd)) := by
  induction columns generalizing targets with
  | nil =>
    rw [List.length_eq_zero_iff.1 length]
    exact .nil
  | cons c columns ih =>
    rw [List.forall_mem_cons] at found
    cases targets with
    | nil => cases length
    | cons target targets =>
      exact .cons ⟨rfl, ⟨c.1, rfl, found.1.1⟩, found.1.2⟩ (ih (Nat.succ.inj length) found.2)

/-- The aligned right operand has the flat columns of the right under the names of the left. -/
theorem align_flatForm {leftEnv rightEnv : Environment} {right aligned : Query}
    (form : FlatForm v schema s right rightEnv t) (regular : schema.Regular v)
    (h : align (schema.names.map fun name => (name, name)) leftEnv rightEnv right = .ok aligned) :
    ∃ outs, List.Forall₂ (Aligned leftEnv rightEnv) schema.columns outs ∧
      aligned.schemaOf v.checked = .ok ⟨outs.flatten⟩ ∧ aligned.Everywhere v.flatPlan := by
  simp only [align, bind_eq_ok, mapM_eq_ok, Schema.names, List.forall₂_map_left_iff] at h
  obtain ⟨columns, paired, project⟩ := h
  have outs : ∃ outs, List.Forall₂ (Aligned leftEnv rightEnv) schema.columns outs ∧
      List.Forall₂ (List.Forall₂ (RefersTo (rightEnv.expand schema))) columns outs := by
    refine exists_between (forall₂_imp_of_mem paired fun c member cols _ pair => ?_)
    have carries := form.carries c member
    obtain ⟨targets, sources, flatLeft, flatRight, length, rfl⟩ := alignColumns_eq_ok.1 pair
    cases carries.flatColumns.symm.trans flatRight
    rw [List.length_map] at length
    refine ⟨_, ⟨targets, flatLeft, length, rfl⟩, refersTo_aligned length fun d part => ⟨?_, ?_⟩⟩
    · exact Schema.get?_of_mem form.distinct (Environment.mem_expand.2 ⟨c, member, part⟩)
    · have among : d.2 ∈ c.2.flatTypes := carries.flatTypes ▸ List.mem_map_of_mem part
      exact Ty.flatTypes_noProduct (regular.named c member) (regular.noProduct c member) _ among
  obtain ⟨outs, alignedOuts, refs⟩ := outs
  have refers : List.Forall₂ (RefersTo (rightEnv.expand schema)) columns.flatten outs.flatten :=
    List.rel_flatten refs
  exact ⟨outs, alignedOuts, schemaOf_projection project form.typed (columnsOf_refs refers),
    everywhere_projection (p := v.flatPlan) (fun _ _ => ⟨trivial, trivial⟩) project form.nodes
      (everywhere_refs refers)⟩

end Query

namespace FlatCombination

variable {left right flatLeft flatRight : Query} {leftEnv rightEnv : Environment}
  {leftSchema rightSchema : Schema}

/-! ## Set operations -/

/-- Between columns of one type, alignment gives the flat columns of the left. -/
theorem eq_of_aligned {c : Column} {out : List Column} (carriesLeft : leftEnv.Carries c)
    (carriesRight : rightEnv.Carries c) (h : Query.Aligned leftEnv rightEnv c out) :
    out = leftEnv.expandColumn c := by
  obtain ⟨targets, flatLeft, _, rfl⟩ := h
  cases carriesLeft.flatColumns.symm.trans flatLeft
  rw [carriesRight.flatTypes, ← carriesLeft.flatTypes, List.zip_map', List.map_id'']
  exact fun _ => rfl

theorem zip_diagonal (names : List String) : names.zip names = names.map fun name =>
    (name, name) := by
  induction names with
  | nil => rfl
  | cons name names ih => rw [List.zip_cons_cons, ih, List.map_cons]

theorem setOperation {op : CombineOp} {aligned : Query}
    (isSet : ∀ l r, Schema.combine v.checked op l r = Schema.matching v.checked op l r)
    (formLeft : Query.FlatForm v schema s flatLeft leftEnv u)
    (formRight : Query.FlatForm v schema u flatRight rightEnv t) (leads : u.Leads t)
    (regular : schema.Regular v)
    (h : Query.align (schema.names.map fun name => (name, name)) leftEnv rightEnv flatRight =
      .ok aligned) :
    Query.FlatForm v schema s (.combine op flatLeft aligned) leftEnv t := by
  obtain ⟨outs, alignedOuts, typed, nodes⟩ := Query.align_flatForm formRight regular h
  have same : outs.flatten = (leftEnv.expand schema).columns := by
    have each : List.Forall₂ Eq (schema.columns.map leftEnv.expandColumn) outs := by
      rw [List.forall₂_map_left_iff]
      refine forall₂_imp_of_mem alignedOuts fun c member out _ aligned => ?_
      exact (eq_of_aligned (formLeft.carries c member) (formRight.carries c member) aligned).symm
    rw [List.forall₂_eq_eq_eq] at each
    rw [← each]
    rfl
  rw [same] at typed
  refine ⟨?_, ?_, formLeft.carries, ?_, formLeft.distinct⟩
  · refine Query.schemaOf_combine.2 ⟨_, formLeft.typed, _, typed, ?_⟩
    rw [isSet]
    exact (Schema.matching_checked formLeft.named formLeft.named).2 ⟨rfl, rfl⟩
  · rw [Query.everywhere_combine]
    exact ⟨⟨trivial, trivial⟩, formLeft.nodes, nodes⟩
  · intro c member d part
    exact (formLeft.drawn c member d part).imp_right fun drawn => drawn.mono (.refl s) leads

/-! ## Products -/

/-- The environment of a product binds the columns of the left as the left does, and those of the
right as the right does. -/
theorem find?_product (apart : leftSchema.Apart rightSchema)
    (noCapture : ∀ name ∈ rightSchema.names, name ∉ leftSchema.names → leftEnv.find? name = none)
    (env : Environment)
    (equal : env = leftEnv.insertAll
      (rightEnv.filterNames fun name => !leftSchema.contains name).entries) :
    (∀ c ∈ leftSchema.columns, leftEnv.find? c.1 = env.find? c.1) ∧
      ∀ c ∈ rightSchema.columns, rightEnv.find? c.1 = env.find? c.1 := by
  subst equal
  constructor
  · intro c member
    have contained := Schema.contains_iff.2 (Schema.mem_names_of_mem member)
    rw [NameMap.find?_insertAll_entries, NameMap.find?_filterNames, contained]
    rfl
  · intro c member
    have absent := apart.disjoint c member
    have free := noCapture c.1 (Schema.mem_names_of_mem member) absent
    rw [NameMap.find?_insertAll_entries, NameMap.find?_filterNames,
      Schema.contains_eq_false.2 absent, free]
    simp

theorem product (formLeft : Query.FlatForm v leftSchema s flatLeft leftEnv u)
    (formRight : Query.FlatForm v rightSchema u flatRight rightEnv t) (stem : s.names.stem = v.stem)
    (before : s.Leads u) (behind : u.Leads t) (regularLeft : leftSchema.Regular v)
    (regularRight : rightSchema.Regular v) (apart : leftSchema.Apart rightSchema)
    (onLeft : ∀ c ∈ leftSchema.columns, leftEnv.find? c.1 = env.find? c.1)
    (onRight : ∀ c ∈ rightSchema.columns, rightEnv.find? c.1 = env.find? c.1) :
    Query.FlatForm v ⟨leftSchema.columns ++ rightSchema.columns⟩ s
      (.combine .product flatLeft flatRight) env t := by
  have expanded : env.expand ⟨leftSchema.columns ++ rightSchema.columns⟩ =
      ⟨(leftEnv.expand leftSchema).columns ++ (rightEnv.expand rightSchema).columns⟩ := by
    unfold Environment.expand
    rw [List.flatMap_append]
    congr 2
    · exact List.flatMap_congr fun c member =>
        (Environment.expandColumn_congr (onLeft c member)).symm
    · exact List.flatMap_congr fun c member =>
        (Environment.expandColumn_congr (onRight c member)).symm
  have flatApart : (leftEnv.expand leftSchema).Apart (rightEnv.expand rightSchema) := by
    refine ⟨fun d onRight onLeft => ?_, formRight.distinct⟩
    obtain ⟨d', onLeft, same⟩ := List.mem_map.1 onLeft
    rcases formLeft.mem_or_drawn onLeft with plainLeft | drawnLeft
    · rcases formRight.mem_or_drawn onRight with plainRight | drawnRight
      · exact apart.disjoint d plainRight (same ▸ Schema.mem_names_of_mem plainLeft)
      · exact (regularLeft.declared d' plainLeft).not_drawn (before.stem.trans stem)
          (same ▸ drawnRight)
    · rcases formRight.mem_or_drawn onRight with plainRight | drawnRight
      · exact (regularRight.declared d plainRight).not_drawn stem (same ▸ drawnLeft)
      · exact drawnLeft.not_again before (same ▸ drawnRight)
  refine ⟨?_, ?_, ?_, ?_, ?_⟩
  · rw [expanded]
    exact Query.schemaOf_combine.2 ⟨_, formLeft.typed, _, formRight.typed,
      Schema.product_of_apart flatApart⟩
  · rw [Query.everywhere_combine]
    exact ⟨⟨trivial, trivial⟩, formLeft.nodes, formRight.nodes⟩
  · intro c member
    rcases List.mem_append.1 member with member | member
    · exact (formLeft.carries c member).congr (onLeft c member)
    · exact (formRight.carries c member).congr (onRight c member)
  · intro c member d part
    rcases List.mem_append.1 member with member | member
    · rw [← Environment.expandColumn_congr (onLeft c member)] at part
      exact (formLeft.drawn c member d part).imp_right fun drawn => drawn.mono (.refl s) behind
    · rw [← Environment.expandColumn_congr (onRight c member)] at part
      exact (formRight.drawn c member d part).imp_right fun drawn => drawn.mono before (.refl t)
  · rw [expanded, Schema.names, List.map_append, List.nodup_append]
    refine ⟨formLeft.distinct, formRight.distinct, ?_⟩
    rintro name onLeft _ onRight rfl
    obtain ⟨d, member, rfl⟩ := List.mem_map.1 onRight
    exact flatApart.disjoint d member onLeft

/-! ## Quotients -/

/-- Flat columns of different names belong to different columns. -/
theorem eq_of_nodup_flatMap {f : Column → List Column} {columns : List Column}
    (distinct : ((columns.flatMap f).map Prod.fst).Nodup) {c c' d d' : Column} (hc : c ∈ columns)
    (hc' : c' ∈ columns) (hd : d ∈ f c) (hd' : d' ∈ f c') (same : d.1 = d'.1) :
    c = c' ∧ d = d' := by
  have equal : d = d' := List.inj_on_of_nodup_map distinct (List.mem_flatMap.2 ⟨c, hc, hd⟩)
    (List.mem_flatMap.2 ⟨c', hc', hd'⟩) same
  subst equal
  refine ⟨?_, rfl⟩
  have nodup := List.Nodup.of_map _ distinct
  clear distinct
  induction columns with
  | nil => cases hc
  | cons first rest ih =>
    rw [List.flatMap_cons, List.nodup_append] at nodup
    obtain ⟨_, nodupRest, apart⟩ := nodup
    rcases List.mem_cons.1 hc with isFirst | later
    · rcases List.mem_cons.1 hc' with isFirst' | later'
      · exact isFirst.trans isFirst'.symm
      · exact absurd rfl (apart d (isFirst ▸ hd) d (List.mem_flatMap.2 ⟨c', later', hd'⟩))
    · rcases List.mem_cons.1 hc' with isFirst' | later'
      · exact absurd rfl (apart d (isFirst' ▸ hd') d (List.mem_flatMap.2 ⟨c, later, hd⟩))
      · exact ih later later' nodupRest

theorem filter_flatMap_eq {f : Column → List Column} {p q : Column → Bool} {columns : List Column}
    (h : ∀ c ∈ columns, (f c).filter p = if q c then f c else []) :
    (columns.flatMap f).filter p = (columns.filter q).flatMap f := by
  induction columns with
  | nil => rfl
  | cons c columns ih =>
    rw [List.forall_mem_cons] at h
    rw [List.flatMap_cons, List.filter_append, h.1, ih h.2, List.filter_cons]
    by_cases keep : q c = true
    · rw [if_pos keep, if_pos keep, List.flatMap_cons]
    · rw [if_neg keep, if_neg keep, List.nil_append]

/-- What a quotient asks for: a column that both operands have is the same on both sides. -/
theorem mem_right_of_contains (regularLeft : leftSchema.Regular v)
    (regularRight : rightSchema.Regular v)
    (agree : ∀ c ∈ leftSchema.columns, ∀ type, rightSchema.get? c.1 = some type →
      v.checked.expect c.2 type = .ok ())
    {c : Column} (member : c ∈ leftSchema.columns) (contained : rightSchema.contains c.1 = true) :
    c ∈ rightSchema.columns := by
  obtain ⟨type, found⟩ := Option.isSome_iff_exists.1 contained
  have onRight := Schema.mem_of_get? found
  have same : type = c.2 := (Vocabulary.expect_checked (regularLeft.named c member)
    (regularRight.named _ onRight)).1 (agree c member type found)
  rw [same] at onRight
  exact onRight

section Quotient

variable (formLeft : Query.FlatForm v leftSchema s flatLeft leftEnv u)
  (formRight : Query.FlatForm v rightSchema u flatRight rightEnv t)
  (regularRight : rightSchema.Regular v)
  (shared : ∀ c ∈ leftSchema.columns, rightSchema.contains c.1 = true → c ∈ rightSchema.columns)
  (noCapture : ∀ name ∈ rightSchema.names, name ∉ leftSchema.names → leftEnv.find? name = none)

include formLeft formRight regularRight shared noCapture

/-- An aligned column has the flat columns of the left, or is one that the left does not have. -/
theorem aligned_cases {c : Column} {out : List Column} (member : c ∈ rightSchema.columns)
    (h : Query.Aligned leftEnv rightEnv c out) :
    (c ∈ leftSchema.columns ∧ out = leftEnv.expandColumn c) ∨
      (c.1 ∉ leftSchema.names ∧ ∀ d ∈ out, d.1 = c.1) := by
  have onRight := Schema.mem_names_of_mem member
  by_cases onLeft : c.1 ∈ leftSchema.names
  · obtain ⟨c', among, same⟩ := List.mem_map.1 onLeft
    have also := shared c' among (Schema.contains_iff.2 (same ▸ onRight))
    have equal : c' = c := List.inj_on_of_nodup_map regularRight.distinct also member same
    subst equal
    exact .inl ⟨among, eq_of_aligned (formLeft.carries c' among) (formRight.carries c' member) h⟩
  · obtain ⟨targets, flatLeft, _, rfl⟩ := h
    rw [Environment.flatColumns, noCapture c.1 onRight onLeft, Except.ok.injEq] at flatLeft
    subst flatLeft
    refine .inr ⟨onLeft, fun d part => ?_⟩
    exact List.mem_singleton.1 (List.of_mem_zip part).1

variable (stem : s.names.stem = v.stem) {outs : List (List Column)}
  (alignedOuts : List.Forall₂ (Query.Aligned leftEnv rightEnv) rightSchema.columns outs)

include stem alignedOuts

/-- A flat column of the left that is also on the right belongs to a column of both. -/
theorem eq_of_mem_aligned {c d d' : Column} (member : c ∈ leftSchema.columns)
    (part : d ∈ leftEnv.expandColumn c) (onRight : d' ∈ outs.flatten) (same : d'.1 = d.1) :
    c ∈ rightSchema.columns ∧ d' = d := by
  obtain ⟨out, among, part'⟩ := List.mem_flatten.1 onRight
  obtain ⟨c', member', aligned⟩ := exists_of_mem_right alignedOuts among
  rcases aligned_cases formLeft formRight regularRight shared noCapture member' aligned with
    ⟨alsoLeft, rfl⟩ | ⟨absent, names⟩
  · obtain ⟨rfl, rfl⟩ := eq_of_nodup_flatMap formLeft.distinct alsoLeft member part' part same
    exact ⟨member', rfl⟩
  · have plain : d.1 = c'.1 := same.symm.trans (names d' part')
    rcases formLeft.drawn c member d part with rfl | drawn
    · exact absurd (plain ▸ Schema.mem_names_of_mem member) absent
    · exact absurd (plain ▸ drawn) ((regularRight.declared c' member').not_drawn stem)

/-- Of the flat columns of a column all are on the right or none is. -/
theorem filter_aligned {c : Column} (member : c ∈ leftSchema.columns) :
    (leftEnv.expandColumn c).filter (fun d => !(Schema.mk outs.flatten).contains d.1) =
      if !rightSchema.contains c.1 then leftEnv.expandColumn c else [] := by
  cases contained : rightSchema.contains c.1 with
  | true =>
    have onRight := shared c member contained
    obtain ⟨out, among, aligned⟩ := exists_of_mem_right alignedOuts.flip onRight
    rw [eq_of_aligned (formLeft.carries c member) (formRight.carries c onRight) aligned] at among
    refine List.filter_eq_nil_iff.2 fun d part => ?_
    have present : (Schema.mk outs.flatten).contains d.1 = true :=
      Schema.contains_iff.2 (List.mem_map_of_mem (List.mem_flatten.2 ⟨_, among, part⟩))
    rw [present]
    exact Bool.false_ne_true
  | false =>
    refine List.filter_eq_self.2 fun d part => ?_
    have absent : (Schema.mk outs.flatten).contains d.1 = false := by
      rw [Schema.contains_eq_false]
      intro present
      obtain ⟨d', onRight, same⟩ := List.mem_map.1 present
      have both :=
        eq_of_mem_aligned formLeft formRight regularRight shared noCapture stem alignedOuts member
          part onRight same
      exact Schema.contains_eq_false.1 contained (Schema.mem_names_of_mem both.1)
    rw [absent]
    rfl

omit alignedOuts

theorem quotient {aligned : Query} (behind : u.Leads t)
    (kept : ∀ c ∈ leftSchema.columns, rightSchema.contains c.1 = false →
      leftEnv.find? c.1 = env.find? c.1)
    (h : Query.align (rightSchema.names.map fun name => (name, name)) leftEnv rightEnv flatRight =
      .ok aligned) :
    Query.FlatForm v ⟨leftSchema.columns.filter fun c => !rightSchema.contains c.1⟩ s
      (.combine .quotient flatLeft aligned) env t := by
  obtain ⟨outs, alignedOuts, typed, nodes⟩ := Query.align_flatForm formRight regularRight h
  have same : ∀ c ∈ leftSchema.columns.filter (fun c => !rightSchema.contains c.1),
      c ∈ leftSchema.columns ∧ leftEnv.find? c.1 = env.find? c.1 := by
    intro c member
    obtain ⟨onLeft, keep⟩ := List.mem_filter.1 member
    exact ⟨onLeft, kept c onLeft (by simpa using keep)⟩
  have expanded : env.expand ⟨leftSchema.columns.filter fun c => !rightSchema.contains c.1⟩ =
      ⟨(leftEnv.expand leftSchema).columns.filter
        fun d => !(Schema.mk outs.flatten).contains d.1⟩ := by
    unfold Environment.expand
    rw [filter_flatMap_eq fun c => filter_aligned formLeft formRight regularRight shared noCapture
      stem alignedOuts]
    congr 1
    exact List.flatMap_congr fun c member => (Environment.expandColumn_congr (same c member).2).symm
  refine ⟨?_, ?_, ?_, ?_, ?_⟩
  · refine Query.schemaOf_combine.2 ⟨_, formLeft.typed, _, typed,
      Schema.quotient_eq_ok.2 ⟨?_, expanded⟩⟩
    intro d onLeft type found
    obtain ⟨c, member, part⟩ := Environment.mem_expand.1 onLeft
    have equal :=
      (eq_of_mem_aligned formLeft formRight regularRight shared noCapture stem alignedOuts member
        part (Schema.mem_of_get? found) rfl).2
    have sameType : type = d.2 := congrArg Prod.snd equal
    have named := formLeft.named d onLeft
    rw [sameType, Vocabulary.expect_checked named named]
  · rw [Query.everywhere_combine]
    exact ⟨⟨trivial, trivial⟩, formLeft.nodes, nodes⟩
  · intro c member
    exact (formLeft.carries c (same c member).1).congr (same c member).2
  · intro c member d part
    rw [← Environment.expandColumn_congr (same c member).2] at part
    exact (formLeft.drawn c (same c member).1 d part).imp_right fun drawn =>
      drawn.mono (.refl s) behind
  · rw [expanded]
    exact (List.filter_sublist.map Prod.fst).nodup formLeft.distinct

end Quotient

/-! ## All combinations -/

theorem unstructured_of_isEmpty (form : Query.FlatForm v schema s flatLeft env t)
    (empty : env.isEmpty = true) : ∀ c ∈ schema.columns, c.2.layout? = none := by
  intro c member
  cases layout : c.2.layout? with
  | none => rfl
  | some l =>
    obtain ⟨names, bound, _⟩ := (Environment.carries_structured layout).1 (form.carries c member)
    cases (NameMap.find?_of_isEmpty empty c.1).symm.trans bound

/-- Operands without structured attributes are combined as they are. -/
theorem plain {op : CombineOp} (formLeft : Query.FlatForm v leftSchema s flatLeft leftEnv u)
    (formRight : Query.FlatForm v rightSchema u flatRight rightEnv t) (regular : schema.Regular v)
    (regularLeft : leftSchema.Regular v) (regularRight : rightSchema.Regular v)
    (combined : Schema.combine v.checked op leftSchema rightSchema = .ok schema)
    (emptyLeft : leftEnv.isEmpty = true) (emptyRight : rightEnv.isEmpty = true) :
    Query.FlatForm v schema s (.combine op flatLeft flatRight) .empty t := by
  have unstructuredLeft := unstructured_of_isEmpty formLeft emptyLeft
  have unstructuredRight := unstructured_of_isEmpty formRight emptyRight
  have typedLeft := formLeft.typed
  have typedRight := formRight.typed
  rw [Environment.expand_of_unstructured unstructuredLeft] at typedLeft
  rw [Environment.expand_of_unstructured unstructuredRight] at typedRight
  refine .unchanged (Query.schemaOf_combine.2 ⟨_, typedLeft, _, typedRight, combined⟩) ?_ ?_
    regular.distinct
  · rw [Query.everywhere_combine]
    exact ⟨⟨trivial, trivial⟩, formLeft.nodes, formRight.nodes⟩
  · intro c member
    rcases Schema.mem_of_combine regularLeft.named regularRight.named combined member with
      onLeft | onRight
    · exact unstructuredLeft c onLeft
    · exact unstructuredRight c onRight

theorem combine {op : CombineOp} (ihl : left.FlattensWell v) (ihr : right.FlattensWell v) :
    (Query.combine op left right).FlattensWell v := by
  intro schema env s t flat plan infer flattens
  have regular := Query.schema_regular _ plan infer
  obtain ⟨leftSchema, inferLeft, rightSchema, inferRight, combined⟩ :=
    Query.schemaOf_combine.1 infer
  rw [Query.everywhere_combine] at plan
  obtain ⟨⟨admissible, _⟩, planLeft, planRight⟩ := plan
  have regularLeft := Query.schema_regular _ planLeft inferLeft
  have regularRight := Query.schema_regular _ planRight inferRight
  obtain ⟨flatLeft, leftEnv, u, flatRight, rightEnv, flattensLeft, flattensRight, before,
    behind, rest⟩ :=
    flattens.combine planLeft planRight inferLeft inferRight
  have formLeft := ihl planLeft inferLeft flattensLeft
  have formRight := ihr planRight inferRight flattensRight
  rcases rest with ⟨⟨emptyLeft, emptyRight⟩, rfl, rfl⟩ | combination
  · exact plain formLeft formRight regular regularLeft regularRight combined emptyLeft emptyRight
  · cases op with
    | product =>
      have noCapture := Session.NoCapture.unbound admissible flattensLeft inferLeft inferRight
      obtain ⟨apart, rfl⟩ := Schema.product_checked.1 combined
      cases combination
      obtain ⟨onLeft, onRight⟩ := find?_product apart noCapture _ rfl
      exact product formLeft formRight flattens.stem before behind regularLeft regularRight apart
        onLeft onRight
    | quotient =>
      have noCapture := Session.NoCapture.unbound admissible flattensLeft inferLeft inferRight
      obtain ⟨agree, rfl⟩ := Schema.quotient_eq_ok.1 combined
      simp only [Query.flattenCombination, bind_eq_ok, pure_eq_ok, Prod.mk.injEq] at combination
      obtain ⟨aligned, alignment, rfl, rfl⟩ := combination
      have shared :=
        fun c member => mem_right_of_contains regularLeft regularRight agree (c := c) member
      refine quotient formLeft formRight regularRight shared noCapture flattens.stem
        behind ?_ alignment
      intro c _ absent
      rw [NameMap.find?_filterNames, absent]
      rfl
    | union | intersection | difference =>
      obtain ⟨same, rfl⟩ :=
        (Schema.matching_checked regularLeft.named regularRight.named).1 combined
      subst same
      simp only [Query.flattenCombination, if_true, bind_eq_ok, pure_eq_ok, Prod.mk.injEq,
        zip_diagonal] at combination
      obtain ⟨aligned, alignment, rfl, rfl⟩ := combination
      exact setOperation (fun _ _ => rfl) formLeft formRight behind regularLeft alignment

end FlatCombination

end FlatPlan
