import FlatPlan.Flatten

/-!
# Runs of passes

A run of a pass either fails or yields a value and a state. A run that yields decomposes into the
runs of its steps, so every proof about flattening starts from the equivalences here. The last
section follows the name generator: no pass changes its stem or takes a number back.
-/

namespace FlatPlan

/-! ## Results -/

/-- Two steps answer exactly if the first answers and the second does on its answer. -/
theorem bind_eq_ok {ε α β : Type} {x : Except ε α} {f : α → Except ε β} {b : β} :
    x >>= f = .ok b ↔ ∃ a, x = .ok a ∧ f a = .ok b := by
  cases x with
  | error e => simp [bind, Except.bind]
  | ok a => simp [bind, Except.bind]

/-- Two steps fail exactly if one of them does. -/
theorem bind_eq_error {ε α β : Type} {x : Except ε α} {f : α → Except ε β} {e : ε} :
    x >>= f = .error e ↔ x = .error e ∨ ∃ a, x = .ok a ∧ f a = .error e := by
  cases x <;> simp [bind, Except.bind]

theorem pure_eq_ok {ε α : Type} {a b : α} : (pure a : Except ε α) = .ok b ↔ b = a := by
  rw [show (pure a : Except ε α) = .ok a from rfl, Except.ok.injEq, eq_comm]

theorem throw_ne_ok {ε α : Type} {e : ε} {b : α} : (throw e : Except ε α) = .ok b ↔ False := by
  simp [throw, throwThe, MonadExceptOf.throw]

/-- What holds at the start of a fold and is kept by every step holds of the result. -/
theorem foldlM_invariant {ε α β : Type} {step : β → α → Except ε β} {motive : β → Prop}
    {as : List α} {b result : β} (start : motive b)
    (kept : ∀ b a next, motive b → step b a = .ok next → motive next)
    (h : as.foldlM step b = .ok result) : motive result := by
  induction as generalizing b with
  | nil =>
    rw [List.foldlM_nil, pure_eq_ok] at h
    exact h ▸ start
  | cons a as ih =>
    rw [List.foldlM_cons, bind_eq_ok] at h
    obtain ⟨next, first, rest⟩ := h
    exact ih (kept b a next start first) rest

/-- A fold fails as one of its steps does. -/
theorem foldlM_error {ε α β : Type} {step : β → α → Except ε β} {motive : ε → Prop} {as : List α}
    {b : β} {e : ε} (each : ∀ b a e, step b a = .error e → motive e)
    (h : as.foldlM step b = .error e) : motive e := by
  induction as generalizing b with
  | nil => cases h
  | cons a as ih =>
    rw [List.foldlM_cons, bind_eq_error] at h
    rcases h with first | ⟨next, _, rest⟩
    · exact each b a e first
    · exact ih rest

namespace Pass

variable {α β : Type}

/-! ## Runs that yield -/

/-- The run of `p` from `s` yields `a` and ends in `t`. -/
def Yields (p : Pass α) (s : PassState) (a : α) (t : PassState) : Prop :=
  p.runFrom s = (.ok a, t)

/-- A run of two passes is a run of the first and, if that ends well, of the second from the state
that the first leaves. -/
theorem runFrom_bind (p : Pass α) (f : α → Pass β) (s : PassState) :
    (p >>= f).runFrom s =
      match p.runFrom s with
      | (.ok a, t) => (f a).runFrom t
      | (.error e, t) => (.error e, t) := by
  cases run : p.runFrom s with
  | mk result t =>
    change (ExceptT.bindCont f (p.runFrom s).1 : StateM PassState _) (p.runFrom s).2 = _
    rw [run]
    cases result with
    | ok a => rfl
    | error e => rfl

/-- Two passes yield exactly if the first yields and the second does from there. -/
theorem yields_bind {p : Pass α} {f : α → Pass β} {s t : PassState} {b : β} :
    (p >>= f).Yields s b t ↔ ∃ a u, p.Yields s a u ∧ (f a).Yields u b t := by
  unfold Yields
  rw [runFrom_bind]
  cases run : p.runFrom s with
  | mk result u =>
    cases result with
    | ok a =>
      constructor
      · intro rest
        exact ⟨a, u, rfl, rest⟩
      · rintro ⟨_, _, equal, rest⟩
        cases equal
        exact rest
    | error e => simp

theorem yields_pure {a b : α} {s t : PassState} : (pure a : Pass α).Yields s b t ↔
    b = a ∧ t = s := by
  change ((Except.ok a, s) : Except Error α × PassState) = (.ok b, t) ↔ _
  simp only [Prod.mk.injEq, Except.ok.injEq]
  exact ⟨fun h => ⟨h.1.symm, h.2.symm⟩, fun h => ⟨h.1.symm, h.2.symm⟩⟩

theorem yields_throw {e : Error} {s t : PassState} {a : α} :
    (throw e : Pass α).Yields s a t ↔ False := by
  change ((Except.error e, s) : Except Error α × PassState) = (.ok a, t) ↔ _
  simp

/-- A step outside the state keeps the state. -/
theorem yields_ofExcept {r : Except Error α} {s t : PassState} {a : α} :
    (ofExcept r).Yields s a t ↔ r = .ok a ∧ t = s := by
  change ((r, s) : Except Error α × PassState) = (.ok a, t) ↔ _
  simp only [Prod.mk.injEq]
  exact ⟨fun h => ⟨h.1, h.2.symm⟩, fun h => ⟨h.1, h.2.symm⟩⟩

/-- A decision yields what its case yields. -/
theorem yields_ite {c : Prop} [Decidable c] {p q : Pass α} {s t : PassState} {a : α} :
    (if c then p else q).Yields s a t ↔ (c ∧ p.Yields s a t) ∨ (¬c ∧ q.Yields s a t) := by
  by_cases h : c <;> simp [h]

/-! ## Runs that fail -/

/-- The run of `p` from `s` fails with `e` and ends in `t`. -/
def Fails (p : Pass α) (s : PassState) (e : Error) (t : PassState) : Prop :=
  p.runFrom s = (.error e, t)

/-- Two passes fail exactly if the first fails, or yields and the second fails from there. -/
theorem fails_bind {p : Pass α} {f : α → Pass β} {s t : PassState} {e : Error} :
    (p >>= f).Fails s e t ↔ p.Fails s e t ∨ ∃ a u, p.Yields s a u ∧ (f a).Fails u e t := by
  unfold Fails Yields
  rw [runFrom_bind]
  cases run : p.runFrom s with
  | mk result u =>
    cases result with
    | ok a =>
      constructor
      · intro rest
        exact .inr ⟨a, u, rfl, rest⟩
      · rintro (first | ⟨_, _, equal, rest⟩)
        · cases first
        · cases equal
          exact rest
    | error e => simp

theorem fails_pure {a : α} {s t : PassState} {e : Error} :
    (pure a : Pass α).Fails s e t ↔ False := by
  change ((Except.ok a, s) : Except Error α × PassState) = (.error e, t) ↔ _
  simp

theorem fails_throw {e e' : Error} {s t : PassState} : (throw e : Pass α).Fails s e' t ↔
    e' = e ∧ t = s := by
  change ((Except.error e, s) : Except Error α × PassState) = (.error e', t) ↔ _
  simp only [Prod.mk.injEq, Except.error.injEq]
  exact ⟨fun h => ⟨h.1.symm, h.2.symm⟩, fun h => ⟨h.1.symm, h.2.symm⟩⟩

/-- A step outside the state keeps the state where it fails. -/
theorem fails_ofExcept {r : Except Error α} {s t : PassState} {e : Error} :
    (ofExcept r).Fails s e t ↔ r = .error e ∧ t = s := by
  change ((r, s) : Except Error α × PassState) = (.error e, t) ↔ _
  simp only [Prod.mk.injEq]
  exact ⟨fun h => ⟨h.1, h.2.symm⟩, fun h => ⟨h.1, h.2.symm⟩⟩

theorem fails_ite {c : Prop} [Decidable c] {p q : Pass α} {s t : PassState} {e : Error} :
    (if c then p else q).Fails s e t ↔ (c ∧ p.Fails s e t) ∨ (¬c ∧ q.Fails s e t) := by
  by_cases h : c <;> simp [h]

end Pass

/-! ## The name generator along a run -/

/-- Names of one stem with different numbers differ. -/
theorem FreshNames.numbered_injective {stem : String} {m n : Nat}
    (h : FreshNames.numbered stem m = FreshNames.numbered stem n) : m = n := by
  have digits : Nat.toDigits 10 m = Nat.toDigits 10 n :=
    String.ofList_injective ((String.append_right_inj _).1 h)
  have values := congrArg (Nat.ofDigitChars 10 · 0) digits
  simpa only [Nat.ofDigitChars_ten_toDigits] using values

/-- A name without an underscore is never drawn. -/
theorem FreshNames.ne_numbered {name : String} (plain : '_' ∉ name.toList) (stem : String)
    (n : Nat) :
    name ≠ numbered stem n := by
  rintro rfl
  exact plain (by simp [numbered])

namespace PassState

/-- The state in which `n` more names have been drawn. -/
def after (s : PassState) (n : Nat) : PassState :=
  { s with names := { s.names with issued := s.names.issued + n } }

/-- The next `n` names. -/
def block (s : PassState) (n : Nat) : List String :=
  (List.range' (s.names.issued + 1) n).map (FreshNames.numbered s.names.stem)

/-- A later state of the same generator. -/
structure Leads (s t : PassState) : Prop where
  stem : t.names.stem = s.names.stem
  issued : s.names.issued ≤ t.names.issued

/-- Names are drawn in one go or in two. -/
@[simp] theorem after_after (s : PassState) (m n : Nat) :
    (s.after m).after n = s.after (m + n) := by
  simp [after, Nat.add_assoc]

@[simp] theorem issued_after (s : PassState) (n : Nat) :
    (s.after n).names.issued = s.names.issued + n := rfl

@[simp] theorem length_block (s : PassState) (n : Nat) : (s.block n).length = n := by
  simp [block]

/-- The first of the next names, and those after it. -/
theorem block_succ (s : PassState) (n : Nat) :
    s.block (n + 1) = FreshNames.numbered s.names.stem (s.names.issued + 1) ::
      (s.after 1).block n := by
  simp [block, after, List.range'_succ]

theorem Leads.refl (s : PassState) : s.Leads s := ⟨rfl, Nat.le_refl _⟩

/-- A state leads to where a state leads that it leads to. -/
theorem Leads.trans {s t u : PassState} (first : s.Leads t) (second : t.Leads u) : s.Leads u :=
  ⟨second.stem.trans first.stem, Nat.le_trans first.issued second.issued⟩

theorem leads_after (s : PassState) (n : Nat) : s.Leads (s.after n) := ⟨rfl, Nat.le_add_right _ _⟩

/-- Whether a name is drawn between two states. -/
def Draws (s t : PassState) (name : String) : Prop :=
  ∃ n, s.names.issued < n ∧ n ≤ t.names.issued ∧ name = FreshNames.numbered s.names.stem n

/-- The next names are drawn on the way to the state after them. -/
theorem draws_of_mem_block {s : PassState} {n : Nat} {name : String} (h : name ∈ s.block n) :
    s.Draws (s.after n) name := by
  obtain ⟨k, range, rfl⟩ := List.mem_map.1 h
  rw [List.mem_range'_1] at range
  refine ⟨k, by omega, ?_, rfl⟩
  rw [issued_after]
  omega

/-- The next names differ. -/
theorem nodup_block (s : PassState) (n : Nat) : (s.block n).Nodup := by
  unfold block
  rw [List.nodup_iff_pairwise_ne, List.pairwise_map]
  refine List.Pairwise.imp ?_ List.nodup_range'
  intro a b different same
  exact different (FreshNames.numbered_injective same)

/-- A name drawn in between is drawn in the whole. -/
theorem Draws.mono {s t u w : PassState} {name : String} (h : t.Draws u name) (before : s.Leads t)
    (behind : u.Leads w) : s.Draws w name := by
  obtain ⟨n, above, below, equal⟩ := h
  have first := before.issued
  have last := behind.issued
  exact ⟨n, by omega, by omega, by rw [equal, before.stem]⟩

/-- No name is drawn twice. -/
theorem Draws.not_again {s t u : PassState} {name : String} (h : s.Draws t name) (leads : s.Leads t)
    (again : t.Draws u name) : False := by
  obtain ⟨n, _, below, equal⟩ := h
  obtain ⟨m, above, _, other⟩ := again
  rw [equal, leads.stem] at other
  have same := FreshNames.numbered_injective other
  omega

end PassState

namespace Pass

variable {α β : Type}

theorem runFrom_fresh (s : PassState) :
    fresh.runFrom s = (.ok (FreshNames.numbered s.names.stem (s.names.issued + 1)), s.after 1) :=
  rfl

/-- A fresh name is the next one. -/
theorem yields_fresh {s t : PassState} {name : String} :
    fresh.Yields s name t ↔
      name = FreshNames.numbered s.names.stem (s.names.issued + 1) ∧ t = s.after 1 := by
  unfold Yields
  rw [runFrom_fresh]
  simp only [Prod.mk.injEq, Except.ok.injEq]
  exact ⟨fun h => ⟨h.1.symm, h.2.symm⟩, fun h => ⟨h.1.symm, h.2.symm⟩⟩

/-- Reporting an event draws no name. -/
theorem yields_report {e : Event} {s t : PassState} {u : Unit} :
    (report e).Yields s u t ↔ t = { s with events := s.events ++ [e] } := by
  change ((Except.ok (), { s with events := s.events ++ [e] }) : Except Error Unit × PassState) =
    (.ok u, t) ↔ _
  simp [eq_comm]

/-- Whatever a pass does, it keeps the stem and takes no number back. -/
def Advances (p : Pass α) : Prop := ∀ s : PassState, s.Leads (p.runFrom s).2

theorem advances_ofExcept (r : Except Error α) : (ofExcept r).Advances := fun s => .refl s

theorem advances_fresh : fresh.Advances := fun s => s.leads_after 1

theorem advances_report (e : Event) : (report e).Advances := fun _ => ⟨rfl, Nat.le_refl _⟩

/-- Two passes that take no number back, one after the other. -/
theorem advances_bind {p : Pass α} {f : α → Pass β} (first : p.Advances)
    (rest : ∀ a, (f a).Advances) :
    (p >>= f).Advances := by
  intro s
  have step := first s
  rw [runFrom_bind]
  cases run : p.runFrom s with
  | mk result t =>
    rw [run] at step
    cases result with
    | ok a => exact step.trans (rest a t)
    | error e => exact step

/-- A pass that takes no number back leads to the state in which it ends. -/
theorem Advances.leads {p : Pass α} (advances : p.Advances) {s t : PassState} {a : α}
    (run : p.Yields s a t) : s.Leads t := by
  have step := advances s
  rwa [run] at step

end Pass

end FlatPlan
