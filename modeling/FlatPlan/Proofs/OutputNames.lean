import FlatPlan.Proofs.Typing

/-!
# Names of the columns of a query

The names of the columns of a query can be read off its form, without types: a projection has the
names that it declares, a product keeps the first column of each name, and a quotient drops the
names of the right operand. Main statement: whenever a query has a schema, in either mode, these are
the names of its columns (`Query.names_of_schemaOf`). A column is declared by a node of the query
(`Query.declared_outputNames`).
-/

namespace FlatPlan

/-! ## Side by side -/

/-- Two lists of names side by side; of a name that stands in both the first one stays. -/
def mergeNames (left right : List String) : List String :=
  right.foldl (fun names name => if name ∈ names then names else names ++ [name]) left

theorem mergeNames_cons (left : List String) (name : String) (right : List String) :
    mergeNames left (name :: right) =
      mergeNames (if name ∈ left then left else left ++ [name]) right := rfl

theorem mem_mergeNames {left right : List String} {name : String} :
    name ∈ mergeNames left right ↔ name ∈ left ∨ name ∈ right := by
  induction right generalizing left with
  | nil => simp [mergeNames]
  | cons first right ih =>
    rw [mergeNames_cons, ih]
    by_cases known : first ∈ left
    · rw [if_pos known, List.mem_cons]
      constructor
      · rintro (onLeft | onRight)
        · exact .inl onLeft
        · exact .inr (.inr onRight)
      · rintro (onLeft | rfl | onRight)
        · exact .inl onLeft
        · exact .inl known
        · exact .inr onRight
    · rw [if_neg known]
      simp [or_assoc]

/-- A name of the left stands as often as there, and any other of the right once. -/
theorem count_mergeNames (left right : List String) (name : String) :
    (mergeNames left right).count name =
      if name ∈ left then left.count name else if name ∈ right then 1 else 0 := by
  induction right generalizing left with
  | nil =>
    by_cases member : name ∈ left
    · simp [mergeNames, member]
    · simp [mergeNames, member, List.count_eq_zero.2 member]
  | cons first right ih =>
    rw [mergeNames_cons, ih]
    by_cases known : first ∈ left
    · rw [if_pos known]
      by_cases same : name = first
      · simp [same, known]
      · simp [same]
    · rw [if_neg known]
      by_cases same : name = first
      · simp [same, known, List.count_append, List.count_eq_zero.2 known]
      · simp [same, List.count_append, Ne.symm same]

/-- Of two lists side by side no name stands twice if none does in the first one. -/
theorem nodup_mergeNames {left : List String} (distinct : left.Nodup) (right : List String) :
    (mergeNames left right).Nodup := by
  rw [List.nodup_iff_count]
  intro name
  rw [count_mergeNames]
  split
  · exact List.nodup_iff_count.1 distinct name
  · split
    · exact Nat.le_refl 1
    · exact Nat.zero_le 1

/-- Lists of different names, without a common one, are put one after the other. -/
theorem mergeNames_of_disjoint {left right : List String} (distinct : right.Nodup)
    (apart : ∀ name ∈ right, name ∉ left) : mergeNames left right = left ++ right := by
  induction right generalizing left with
  | nil => simp [mergeNames]
  | cons first right ih =>
    rw [List.nodup_cons] at distinct
    rw [List.forall_mem_cons] at apart
    rw [mergeNames_cons, if_neg apart.1, ih distinct.2, List.append_assoc, List.singleton_append]
    intro name member
    rw [List.mem_append, List.mem_singleton, not_or]
    refine ⟨apart.2 name member, ?_⟩
    rintro rfl
    exact distinct.1 member

namespace Schema

variable {check : TypeCheck} {left right schema : Schema}

/-- The names of a fold that pushes the columns whose names are new. -/
private theorem names_foldlM_push {refuse : Schema → Except Error Schema} {columns : List Column}
    {acc : Schema} (keep : ∀ before after, refuse before = .ok after → after = before)
    (h : columns.foldlM (fun before c => if before.contains c.1 then refuse before
      else .ok (before.push c.1 c.2)) acc = .ok schema) :
    schema.names = mergeNames acc.names (columns.map Prod.fst) := by
  induction columns generalizing acc with
  | nil =>
    rw [List.foldlM_nil, pure_eq_ok] at h
    rw [h]
    rfl
  | cons c columns ih =>
    rw [List.foldlM_cons, bind_eq_ok] at h
    obtain ⟨next, step, rest⟩ := h
    rw [List.map_cons, mergeNames_cons, ih rest]
    split at step
    case isTrue known =>
      rw [keep _ _ step, if_pos (contains_iff.1 known)]
    case isFalse absent =>
      rw [Bool.not_eq_true, contains_eq_false] at absent
      rw [if_neg absent, ← Except.ok.inj step]
      simp [names, push]

/-- A product has the names of both operands side by side, in both modes. -/
theorem names_product (h : product check left right = .ok schema) :
    schema.names = mergeNames left.names right.names := by
  refine names_foldlM_push (fun before after refused => ?_) h
  split at refused
  · cases refused
  · exact (Except.ok.inj refused).symm

/-- A fold succeeds if every step does. -/
theorem exists_foldlM {α β : Type} {step : β → α → Except Error β}
    (each : ∀ b a, ∃ next, step b a = .ok next) (as : List α) (b : β) :
    ∃ result, as.foldlM step b = .ok result := by
  induction as generalizing b with
  | nil => exact ⟨b, rfl⟩
  | cons a as ih =>
    obtain ⟨next, first⟩ := each b a
    obtain ⟨result, rest⟩ := ih next
    exact ⟨result, by rw [List.foldlM_cons, bind_eq_ok]; exact ⟨next, first, rest⟩⟩

/-- In permissive mode every product has a schema. -/
theorem exists_product_permissive {x : Session} (left right : Schema) :
    ∃ schema, product x.permissive left right = .ok schema := by
  refine exists_foldlM (fun acc c => ?_) right.columns left
  by_cases known : acc.contains c.1 = true
  · exact ⟨acc, by rw [if_pos known]; rfl⟩
  · exact ⟨_, by rw [if_neg known]⟩

theorem names_quotient (h : quotient check left right = .ok schema) :
    schema.names = left.names.filter (· ∉ right.names) := by
  obtain ⟨_, rfl⟩ := quotient_eq_ok.1 h
  unfold names
  rw [List.filter_map]
  congr 1
  refine List.filter_congr fun c _ => ?_
  simp only [Function.comp_apply]
  by_cases member : c.1 ∈ right.columns.map Prod.fst
  · rw [contains_iff.2 member]
    simp [member]
  · rw [contains_eq_false.2 member]
    simp [member]

/-- A set operation has the columns of the left operand. -/
theorem eq_of_matching {op : CombineOp} (h : matching check op left right = .ok schema) :
    schema = left := by
  unfold matching at h
  split at h
  · cases h
  · exact (Except.ok.inj h).symm

end Schema

namespace Query

/-- The names of the columns of a query. -/
def outputNames : Query → List String
  | .empty => []
  | .table _ schema => schema.names
  | .galaxy g => [g.name]
  | .project columns _ => columns.map Prod.fst
  | .restrict _ input => input.outputNames
  | .combine op left right =>
    match op with
    | .product => mergeNames left.outputNames right.outputNames
    | .quotient => left.outputNames.filter (· ∉ right.outputNames)
    | .union | .intersection | .difference => left.outputNames
  | .grouping columns _ => columns.map Prod.fst
  | .order _ input => input.outputNames
  | .top _ _ input => input.outputNames

theorem names_of_columnsOf {check : TypeCheck} {inner schema : Schema} {grouping : Bool}
    {columns : List (String × Expr)}
    (h : columnsOf check inner grouping columns = .ok schema.columns) :
    schema.names = columns.map Prod.fst := by
  rw [columnsOf_eq_ok] at h
  unfold Schema.names
  generalize schema.columns = outputs at h
  induction h with
  | nil => rfl
  | cons first _ ih => rw [List.map_cons, List.map_cons, first.name, ih]

/-- A combination has no columns but those of its operands. -/
theorem mem_of_mem_combine {op : CombineOp} {left right : Query} {name : String}
    (h : name ∈ (combine op left right).outputNames) : name ∈ left.outputNames ∨
    name ∈ right.outputNames := by
  cases op with
  | product => exact mem_mergeNames.1 h
  | quotient => exact .inl (List.mem_filter.1 h).1
  | union | intersection | difference => exact .inl h

/-- A combination repeats no name that its left operand does not repeat. -/
theorem nodup_combine {left right : Query} (first : left.outputNames.Nodup) (op : CombineOp) :
    (combine op left right).outputNames.Nodup := by
  cases op with
  | product => exact nodup_mergeNames first _
  | quotient => exact first.filter _
  | union | intersection | difference => exact first

/-- The names of a schema are those that the form of the query gives, in both modes. -/
theorem names_of_schemaOf {check : TypeCheck} : ∀ {q : Query} {schema : Schema},
    q.schemaOf check = .ok schema → schema.names = q.outputNames
  | .empty, _, h => by
    rw [schemaOf_empty.1 h]
    rfl
  | .table _ _, _, h => by
    rw [schemaOf_table.1 h]
    rfl
  | .galaxy _, _, h => by
    rw [schemaOf_galaxy.1 h]
    rfl
  | .project _ _, _, h => by
    obtain ⟨_, _, typed⟩ := schemaOf_project.1 h
    exact names_of_columnsOf typed
  | .restrict _ input, _, h => names_of_schemaOf (q := input) (schemaOf_restrict.1 h).1
  | .combine op _ _, _, h => by
    obtain ⟨leftSchema, inferLeft, rightSchema, inferRight, combined⟩ := schemaOf_combine.1 h
    have left := names_of_schemaOf inferLeft
    have right := names_of_schemaOf inferRight
    cases op with
    | product => rw [Schema.names_product combined, left, right, outputNames]
    | quotient => rw [Schema.names_quotient combined, left, right, outputNames]
    | union | intersection | difference => rw [Schema.eq_of_matching combined, left, outputNames]
  | .grouping _ _, _, h => by
    obtain ⟨_, _, typed⟩ := schemaOf_grouping.1 h
    exact names_of_columnsOf typed
  | .order _ input, _, h => names_of_schemaOf (q := input) (schemaOf_order.1 h).1
  | .top _ _ input, _, h => names_of_schemaOf (q := input) (schemaOf_top.1 h)

end Query

/-! ## Declared names -/

/-- Whether the names that a node gives to columns satisfy a condition. -/
def NodeProperty.declaring (known : String → Prop) : NodeProperty where
  expr _ := True
  query
    | .table _ schema => ∀ name ∈ schema.names, known name
    | .galaxy g => known g.name
    | .project columns _ | .grouping columns _ => ∀ c ∈ columns, known c.1
    | _ => True

/-- What holds of the names that the nodes of a query declare holds of the names of its columns. -/
theorem Query.declared_outputNames {known : String → Prop} :
    ∀ {q : Query}, q.Everywhere (.declaring known) → ∀ name ∈ q.outputNames, known name
  | .empty, _, name, member => by cases member
  | .table _ _, plan, name, member => by
    rw [everywhere_table] at plan
    exact plan name member
  | .galaxy g, plan, name, member => by
    rw [everywhere_galaxy] at plan
    exact List.mem_singleton.1 member ▸ plan.1
  | .project columns input, plan, name, member => by
    rw [everywhere_project] at plan
    obtain ⟨c, among, rfl⟩ := List.mem_map.1 member
    exact plan.1 c among
  | .restrict _ input, plan, name, member => by
    rw [everywhere_restrict] at plan
    exact declared_outputNames (q := input) plan.2.2 name member
  | .combine op left right, plan, name, member => by
    rw [everywhere_combine] at plan
    rcases mem_of_mem_combine member with onLeft | onRight
    · exact declared_outputNames plan.2.1 name onLeft
    · exact declared_outputNames plan.2.2 name onRight
  | .grouping columns input, plan, name, member => by
    rw [everywhere_grouping] at plan
    obtain ⟨c, among, rfl⟩ := List.mem_map.1 member
    exact plan.1 c among
  | .order _ input, plan, name, member => by
    rw [everywhere_order] at plan
    exact declared_outputNames (q := input) plan.2.2 name member
  | .top _ _ input, plan, name, member => by
    rw [everywhere_top] at plan
    exact declared_outputNames (q := input) plan.2 name member

end FlatPlan
