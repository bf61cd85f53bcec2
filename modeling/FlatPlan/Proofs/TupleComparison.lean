import FlatPlan.Proofs.Leaves
import FlatPlan.Proofs.Meaning

/-!
# Comparisons of tuples

Two flat values can be compared for equality exactly if they have one shape without empty tuples
(`Operator.exists_compare_iff`). Whatever the truth of the comparisons of scalars, tuples are then
equal if all their leaves are, place by place, and different if some are (`Equality.holds_compare`).
So the two comparisons negate each other if they do on scalars (`Equality.flatten_tuples`).
-/

namespace FlatPlan

/-! ## When values can be compared -/

namespace Operator

variable {op joiner : Operator}

theorem shapes_of_compareItems {ls rs parts : List Expr}
    (ih : ∀ l ∈ ls, ∀ {r e : Expr}, op.compare joiner l r = .ok e → l.shape = r.shape ∧
      l.shape.Full)
    (length : ls.length = rs.length) (h : op.compareItems joiner ls rs = .ok parts) :
    Expr.shapes ls = Expr.shapes rs ∧ Shape.AllFull (Expr.shapes ls) ∧
      parts.length = ls.length := by
  induction ls generalizing rs parts with
  | nil =>
    cases rs with
    | nil =>
      cases h
      exact ⟨rfl, trivial, rfl⟩
    | cons r rs => cases length
  | cons l ls ih' =>
    cases rs with
    | nil => cases length
    | cons r rs =>
      rw [List.forall_mem_cons] at ih
      simp only [compareItems, bind_eq_ok, pure_eq_ok] at h
      obtain ⟨part, compared, rest, others, rfl⟩ := h
      obtain ⟨same, full⟩ := ih.1 compared
      obtain ⟨sameRest, fullRest, lengthRest⟩ := ih' ih.2 (Nat.succ.inj length) others
      refine ⟨?_, ?_, congrArg (· + 1) lengthRest⟩
      · rw [Expr.shapes, Expr.shapes, same, sameRest]
      · exact ⟨full, fullRest⟩

/-- Only values of one shape without empty tuples are compared. -/
theorem shape_of_compare {left right e : Expr} (h : op.compare joiner left right = .ok e) :
    left.shape = right.shape ∧ left.shape.Full := by
  induction left using Expr.tuple_induction generalizing right e with
  | scalar left noTuple =>
    have noTupleRight : right.isTuple = false := (isTuple_of_compare h).symm.trans noTuple
    rw [Expr.shape_of_noTuple noTuple, Expr.shape_of_noTuple noTupleRight]
    exact ⟨rfl, trivial⟩
  | tuple ls ih =>
    rcases compare_cases h with ⟨isTuple, _⟩ | ⟨_, rs, parts, equal, rfl, length, compared, joined⟩
    · cases isTuple
    · cases equal
      obtain ⟨same, full, lengthParts⟩ := shapes_of_compareItems ih length compared
      rw [Expr.shape, Expr.shape, same]
      refine ⟨rfl, fun empty => ?_, same ▸ full⟩
      -- without items there is nothing to join
      have none : parts = [] := by
        rw [Expr.shapes_eq_map, List.map_eq_nil_iff] at empty
        rw [← List.length_eq_zero_iff, lengthParts, length, empty, List.length_nil]
      rw [none] at joined
      cases joined

/-- Two values are compared exactly if they have one shape without empty tuples. -/
theorem exists_compare_iff {left right : Expr} :
    (∃ e, op.compare joiner left right = .ok e) ↔ left.shape = right.shape ∧ left.shape.Full := by
  constructor
  · rintro ⟨e, h⟩
    exact shape_of_compare h
  · rintro ⟨same, full⟩
    exact compare_of_shape op joiner same full

end Operator

/-! ## What a comparison says -/

/-- The truth of expressions, under which the two connectives are the boolean ones. -/
structure Valuation where
  holds : Expr → Bool
  and : ∀ a b, holds (.apply (.logical "and") [a, b]) = (holds a && holds b)
  or : ∀ a b, holds (.apply (.logical "or") [a, b]) = (holds a || holds b)

namespace Valuation

/-- The truth of an expression, given that of the comparisons of scalars. -/
def truth (scalar : Equality → Expr → Expr → Bool) : Expr → Bool
  | .apply op [a, b] =>
    if op.name = "and" then truth scalar a && truth scalar b
    else if op.name = "or" then truth scalar a || truth scalar b
    else if op.name = "=" then scalar .equal a b
    else scalar .differ a b
  | _ => false

/-- The comparisons of scalars can be given any truth. -/
def extending (scalar : Equality → Expr → Expr → Bool) : Valuation where
  holds := truth scalar
  and a b := by simp [truth, Operator.logical]
  or a b := by simp [truth, Operator.logical]

end Valuation

namespace Equality

variable (k : Equality)

/-- The comparison of two scalars. -/
def scalar (a b : Expr) : Expr := .apply (.comparison k.name) [a, b]

/-- Whether all of several comparisons hold, or some of them. -/
def overall : Equality → List Bool → Bool
  | .equal, truths => truths.all id
  | .differ, truths => truths.any id

theorem holds_extending (scalar : Equality → Expr → Expr → Bool) (a b : Expr) :
    (Valuation.extending scalar).holds (k.scalar a b) = scalar k a b := by
  cases k <;> simp [Valuation.extending, Valuation.truth, Equality.scalar,
    Operator.comparison, name]

theorem overall_cons (truth : Bool) (truths : List Bool) :
    k.overall (truth :: truths) = k.overall [truth, k.overall truths] := by
  cases k <;> simp [overall]

theorem overall_append (truths truths' : List Bool) :
    k.overall (truths ++ truths') = k.overall [k.overall truths, k.overall truths'] := by
  cases k <;> simp [overall]

variable {k} (v : Valuation)

/-- The truth of the comparisons of scalars, place by place. -/
def places (k : Equality) (v : Valuation) (ls rs : List Expr) : List Bool :=
  (ls.zip rs).map fun pair => v.holds (k.scalar pair.1 pair.2)

theorem holds_joiner (a b : Expr) :
    v.holds (.apply (.logical k.joiner) [a, b]) = k.overall [v.holds a, v.holds b] := by
  cases k
  · rw [joiner, v.and, overall, List.all_cons, List.all_cons, List.all_nil, Bool.and_true]
    rfl
  · rw [joiner, v.or, overall, List.any_cons, List.any_cons, List.any_nil, Bool.or_false]
    rfl

theorem holds_joinAll {op : Operator} {parts : List Expr} {e : Expr}
    (h : op.joinAll (.logical k.joiner) parts = .ok e) :
    v.holds e = k.overall (parts.map v.holds) := by
  cases parts with
  | nil => cases h
  | cons first rest =>
    cases h
    induction rest generalizing first with
    | nil => cases k <;> simp [overall]
    | cons part rest ih =>
      rw [List.foldl_cons, ih, List.map_cons, holds_joiner]
      cases k <;> simp [overall, Bool.and_assoc, Bool.or_assoc]

theorem holds_compareItems {ls rs parts : List Expr}
    (ih : ∀ l ∈ ls, ∀ {r e : Expr}, (Operator.comparison k.name).compare (.logical k.joiner) l r =
      .ok e → v.holds e = k.overall (k.places v l.leaves r.leaves))
    (h : (Operator.comparison k.name).compareItems (.logical k.joiner) ls rs = .ok parts) :
    k.overall (parts.map v.holds) =
      k.overall (k.places v (Expr.itemLeaves ls) (Expr.itemLeaves rs)) := by
  induction ls generalizing rs parts with
  | nil =>
    cases h
    rfl
  | cons l ls ih' =>
    rw [List.forall_mem_cons] at ih
    cases rs with
    | nil =>
      cases h
      rw [Expr.itemLeaves, Expr.itemLeaves, places, List.zip_nil_right]
      rfl
    | cons r rs =>
      simp only [Operator.compareItems, bind_eq_ok, pure_eq_ok] at h
      obtain ⟨part, compared, rest, others, rfl⟩ := h
      have length := Expr.length_leaves_congr (Operator.shape_of_compare compared).1
      calc k.overall ((part :: rest).map v.holds)
        _ = k.overall [v.holds part, k.overall (rest.map v.holds)] := k.overall_cons _ _
        _ = k.overall [k.overall (k.places v l.leaves r.leaves),
              k.overall (k.places v (Expr.itemLeaves ls) (Expr.itemLeaves rs))] := by
          rw [ih.1 compared, ih' ih.2 others]
        _ = k.overall (k.places v (Expr.itemLeaves (l :: ls)) (Expr.itemLeaves (r :: rs))) := by
          rw [← k.overall_append, places, places, ← List.map_append, ← List.zip_append length]
          rfl

/-- A comparison of values holds if all comparisons of their leaves do, or some, place by place. -/
theorem holds_compare {left right e : Expr}
    (h : (Operator.comparison k.name).compare (.logical k.joiner) left right = .ok e) :
    v.holds e = k.overall (k.places v left.leaves right.leaves) := by
  induction left using Expr.tuple_induction generalizing right e with
  | scalar left noTuple =>
    have noTupleRight : right.isTuple = false := (Operator.isTuple_of_compare h).symm.trans noTuple
    rw [Operator.compare_of_noTuple noTuple noTupleRight] at h
    cases h
    rw [Expr.leaves_of_noTuple noTuple, Expr.leaves_of_noTuple noTupleRight]
    cases k <;> simp [overall, places, Equality.scalar]
  | tuple ls ih =>
    rcases Operator.compare_cases h with
      ⟨isTuple, _⟩ | ⟨_, rs, parts, equal, rfl, _, compared, joined⟩
    · cases isTuple
    · cases equal
      rw [holds_joinAll v joined, holds_compareItems v ih compared]
      rfl

/-- The comparisons for difference negate those for equality, if they do on scalars. -/
theorem overall_differ {left right : Expr}
    (negates : ∀ a b : Expr, a.isTuple = false → b.isTuple = false →
      v.holds (differ.scalar a b) = !v.holds (equal.scalar a b)) :
    differ.overall (differ.places v left.leaves right.leaves) =
      !equal.overall (equal.places v left.leaves right.leaves) := by
  have scalars : ∀ pair ∈ left.leaves.zip right.leaves,
      v.holds (differ.scalar pair.1 pair.2) = !v.holds (equal.scalar pair.1 pair.2) := by
    intro pair member
    obtain ⟨onLeft, onRight⟩ := List.of_mem_zip member
    exact negates _ _ (Expr.isTuple_of_mem_leaves onLeft) (Expr.isTuple_of_mem_leaves onRight)
  rw [places, places, List.map_congr_left scalars]
  simp [overall, List.not_all_eq_any_not, List.any_map, List.all_map]

/-! ## The flat form of a comparison -/

/-- The comparison of two flat values. -/
def application (k : Equality) (left right : Expr) (types : List Ty) (columns : List Expr) :
    Application :=
  ⟨.comparison k.name, [left, right], types, columns⟩

variable {rules : Rules} {left right : Expr} {types : List Ty} {columns : List Expr}
  {source : Option Query} {parts : List Flattened}

theorem flatten_application {part : Flattened} :
    (k.application left right types columns).flatten rules source parts = .ok part ↔
      ∃ e, (Operator.comparison k.name).compare (.logical k.joiner) left right = .ok e ∧
        part = .gather parts e := by
  have rule : (Operator.comparison k.name).flattening = .componentwise (.logical k.joiner) := by
    cases k <;> rfl
  simp only [Application.flatten, application, rule, bind_eq_ok, pure_eq_ok]

theorem exists_flatten_application :
    (∃ part, (k.application left right types columns).flatten rules source parts = .ok part) ↔
      left.shape = right.shape ∧ left.shape.Full := by
  rw [← Operator.exists_compare_iff]
  constructor
  · rintro ⟨part, flat⟩
    obtain ⟨e, compared, _⟩ := flatten_application.1 flat
    exact ⟨e, compared⟩
  · rintro ⟨e, compared⟩
    exact ⟨.gather parts e, flatten_application.2 ⟨e, compared, rfl⟩⟩

theorem holds_flatten_application {part : Flattened}
    (h : (k.application left right types columns).flatten rules source parts = .ok part) :
    v.holds part.expr = k.overall (k.places v left.leaves right.leaves) := by
  obtain ⟨e, compared, rfl⟩ := flatten_application.1 h
  exact holds_compare v compared

/-- Flat values are compared for equality exactly if they have one shape without empty tuples. They
are then equal if all their leaves are, place by place, and different if some are, so the two
comparisons negate each other if they do on scalars. -/
theorem flatten_tuples (rules : Rules) (left right : Expr) (types : List Ty) (columns : List Expr)
    (source : Option Query) (parts : List Flattened) :
    (∀ k : Equality,
      (∃ part, (k.application left right types columns).flatten rules source parts = .ok part) ↔
      left.shape = right.shape ∧ left.shape.Full) ∧
    (left.shape = right.shape → left.leaves.length = right.leaves.length) ∧
    ∀ v : Valuation,
      (∀ same, (equal.application left right types columns).flatten rules source parts = .ok same →
        (v.holds same.expr = true ↔
          ∀ pair ∈ left.leaves.zip right.leaves, v.holds (equal.scalar pair.1 pair.2) = true)) ∧
      (∀ different, (differ.application left right types columns).flatten rules source parts =
        .ok different → (v.holds different.expr = true ↔
          ∃ pair ∈ left.leaves.zip right.leaves, v.holds (differ.scalar pair.1 pair.2) = true)) ∧
      ((∀ a b : Expr, a.isTuple = false → b.isTuple = false →
          v.holds (differ.scalar a b) = !v.holds (equal.scalar a b)) →
        ∀ same different, (equal.application left right types columns).flatten rules source parts =
          .ok same →
          (differ.application left right types columns).flatten rules source parts = .ok different →
          v.holds different.expr = !v.holds same.expr) := by
  refine ⟨fun k => exists_flatten_application, Expr.length_leaves_congr, fun v => ⟨?_, ?_, ?_⟩⟩
  · intro same flat
    rw [holds_flatten_application v flat, overall, places, List.all_map, List.all_eq_true]
    rfl
  · intro different flat
    rw [holds_flatten_application v flat, overall, places, List.any_map, List.any_eq_true]
    rfl
  · intro negates same different flatSame flatDifferent
    rw [holds_flatten_application v flatSame, holds_flatten_application v flatDifferent,
      overall_differ v negates]

end Equality

namespace Sample

/-- A value with a nested part. -/
def nestedPair (last : String) : Expr := .tuple [.attr "a", .tuple [.attr "b", .attr last]]

/-- Scalars are equal if their texts are. -/
def sameText : Equality → Expr → Expr → Bool
  | .equal, a, b => a.text == b.text
  | .differ, a, b => !(a.text == b.text)

/-- Values that differ at the last place of the nested part, and one that cannot be compared with
them. -/
theorem nestedPair_compared : ∃ same different,
    (Equality.equal.application (nestedPair "c") (nestedPair "d") [] []).flatten rules none
      [] = .ok same ∧
    (Equality.differ.application (nestedPair "c") (nestedPair "d") [] []).flatten rules none [] =
      .ok different ∧
    (Valuation.extending sameText).holds same.expr = false ∧
    (Valuation.extending sameText).holds different.expr = true ∧
    ¬∃ part,
      (Equality.equal.application (nestedPair "c") (.tuple [.attr "a", .attr "b"]) [] []).flatten
        rules none [] = .ok part := by
  have compared := Equality.flatten_tuples rules (nestedPair "c") (nestedPair "d") [] [] none []
  have full : (nestedPair "c").shape.Full := by
    simp [nestedPair, Expr.shape, Expr.shapes, Shape.Full, Shape.AllFull]
  obtain ⟨same, flatSame⟩ := (compared.1 .equal).2 ⟨rfl, full⟩
  obtain ⟨different, flatDifferent⟩ := (compared.1 .differ).2 ⟨rfl, full⟩
  obtain ⟨_, someDiffer, negation⟩ := compared.2.2 (.extending sameText)
  have differs : (Valuation.extending sameText).holds different.expr = true := by
    refine (someDiffer different flatDifferent).2 ⟨(.attr "c", .attr "d"), ?_, ?_⟩
    · simp [nestedPair, Expr.leaves, Expr.itemLeaves]
    · rw [Equality.holds_extending]
      decide
  have negated :=
    negation (fun a b _ _ => by rw [Equality.holds_extending, Equality.holds_extending]; rfl) same
      different flatSame flatDifferent
  refine ⟨same, different, flatSame, flatDifferent, ?_, differs, fun compared' => ?_⟩
  · rw [differs] at negated
    simpa using negated
  · have refused :=
      Equality.flatten_tuples rules (nestedPair "c") (.tuple [.attr "a", .attr "b"]) [] [] none []
    cases ((refused.1 .equal).1 compared').1

end Sample

end FlatPlan
