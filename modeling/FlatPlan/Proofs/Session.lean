import FlatPlan.Proofs.Run

/-!
# Sessions

A `Session` fixes what runs of the pass have in common: the capabilities of types, what named rules
and encoders answer, and the stem of fresh names. Queries are checked in checked mode and flattened
in permissive mode.
-/

namespace FlatPlan

/-! ## Checked mode -/

namespace TypeCheck

variable {check : TypeCheck}

theorem require_of_checked (checked : check.checked = true) {ok : Bool} {expected actual : String} :
    check.require ok expected actual = .ok () ↔ ok = true := by
  cases ok <;> simp [require, checked]

/-- Checked mode accepts a type in place of another exactly if they compare as the same. -/
theorem expect_of_checked (checked : check.checked = true) {expected actual : Ty} :
    check.expect expected actual = .ok () ↔ expected == actual :=
  require_of_checked checked

/-- In checked mode types have a common type if they are the same, or are so without null. -/
theorem unify_of_checked (checked : check.checked = true) {left right type : Ty} :
    check.unify left right = .ok type ↔
      (left == right ∧ type = left) ∨
        (¬left == right ∧ left.nonNull == right.nonNull ∧ type = left.nonNull.orNull) := by
  unfold unify
  by_cases same : left == right
  · rw [if_pos same, Except.ok.injEq]
    exact ⟨fun equal => .inl ⟨same, equal.symm⟩, fun h => h.elim (fun h => h.2.symm)
      fun h => absurd same h.1⟩
  · rw [if_neg same]
    by_cases agree : left.nonNull == right.nonNull
    · rw [if_pos agree, Except.ok.injEq]
      exact ⟨fun equal => .inr ⟨same, agree, equal.symm⟩,
        fun h => h.elim (fun h => absurd h.1 same) fun h => h.2.2.symm⟩
    · simp [same, agree, require, checked, bind, Except.bind]

end TypeCheck

/-- What runs of the pass have in common. -/
structure Session where
  capabilities : Capabilities
  /-- What named rules and encoders answer. -/
  rules : Rules
  /-- The stem of fresh names. -/
  stem : String

namespace Session

/-- The checks of checked mode. -/
def checked (x : Session) : TypeCheck := ⟨true, x.capabilities⟩

/-- What a pass goes by: the checks of permissive mode, and the rules. -/
def permissive (x : Session) : Regime := ⟨⟨false, x.capabilities⟩, x.rules⟩

/-- Whether a name differs from all fresh names. -/
def Declares (x : Session) (name : String) : Prop := ∀ n, name ≠ FreshNames.numbered x.stem n

/-- A run of the pass on a query that draws names of the session's stem. -/
structure Flattens (x : Session) (q : Query) (s : PassState) (flat : Query) (env : Environment)
    (t : PassState) : Prop where
  stem : s.names.stem = x.stem
  run : (q.flatten x.permissive).Yields s (flat, env) t

variable {x : Session}

/-- Fresh names have an underscore. -/
theorem declares_of_noUnderscore {name : String} (plain : '_' ∉ name.toList) : x.Declares name :=
  FreshNames.ne_numbered plain x.stem

/-- Names without an underscore are declared. -/
theorem declares_all {α : Type} {columns : List (String × α)}
    (plain : ∀ c ∈ columns, '_' ∉ c.1.toList) :
    ∀ c ∈ columns, x.Declares c.1 :=
  fun c member => declares_of_noUnderscore (plain c member)

theorem declares_names {schema : Schema} (plain : ∀ c ∈ schema.columns, '_' ∉ c.1.toList) :
    ∀ name ∈ schema.names, x.Declares name :=
  List.forall_mem_map.2 (declares_all plain)

/-- A declared name is never drawn in a run with the stem of the session. -/
theorem Declares.not_drawn {name : String} {s t : PassState} (declares : x.Declares name)
    (stem : s.names.stem = x.stem) : ¬s.Draws t name := by
  rintro ⟨n, _, _, equal⟩
  rw [stem] at equal
  exact declares n equal

theorem require_checked {ok : Bool} {expected actual : String} :
    x.checked.require ok expected actual = .ok () ↔ ok = true :=
  TypeCheck.require_of_checked rfl

theorem require_permissive {ok : Bool} {expected actual : String} :
    x.permissive.require ok expected actual = .ok () :=
  TypeCheck.require_permissive x.capabilities ok expected actual

end Session

end FlatPlan
