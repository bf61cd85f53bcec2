import FlatPlan.Proofs.FiniteValues
import FlatPlan.Proofs.TypeForms
import FlatPlan.Ty.Constant

/-!
# Constants and their datums

What is asked of the datums of a base type (`BaseTy.Reads`, `BaseTy.Writes`), which the built-in
types meet. Every type made of such base types has it too: a finite member is written as a datum
from which it is read back (`Ty.datumToConst_constToDatum`), and what is read from a datum is finite
(`Ty.isFinite_of_datumToConst`).
-/

namespace FlatPlan

/-- What is read as a value of the base type is finite. -/
def BaseTy.Reads (b : BaseTy) : Prop :=
  ∀ d v, b.ofDatum d = .ok v → v.isFinite = true

/-- A finite member of the base type is written as a datum, which is not null and is read back as
the member. -/
def BaseTy.Writes (b : BaseTy) : Prop :=
  ∀ v, b.contains v = true → v.isFinite = true →
    ∃ d, b.toDatum v = .ok d ∧ d.isNull = false ∧ b.ofDatum d = .ok v

/-- A base type whose datums are those of its finite members. -/
structure BaseTy.Faithful (b : BaseTy) : Prop where
  reads : b.Reads
  writes : b.Writes

namespace Ty

/-! ## Built-in types -/

/-- A scalar type is faithful if its values are read back from what they are written as. -/
theorem faithful_scalar {name : String} {numeric : Bool} {ordered : Option Bool}
    {contains : Value → Bool} {write : Value → Option Datum}
    {read : Datum → Option Value} {b : BaseTy}
    (scalar : scalar name numeric ordered contains write read = .base b)
    (finite : ∀ d v, read d = some v → v.isFinite = true)
    (inverse : ∀ v, contains v = true → v.isFinite = true →
      ∃ d, write v = some d ∧ d.isNull = false ∧ read d = some v) : b.Faithful := by
  cases scalar
  constructor
  · intro d v h
    dsimp only at h
    cases found : read d with
    | none => rw [found] at h; cases h
    | some w =>
      rw [found] at h
      cases h
      exact finite d _ found
  · intro v member own
    obtain ⟨d, written, notNull, back⟩ := inverse v member own
    exact ⟨d, by dsimp only; rw [written], notNull, by dsimp only; rw [back]⟩

/-- The built-in types are faithful. -/
theorem faithful_of_builtin :
    ∀ entry ∈ builtins, ∃ b, entry.2 = .base b ∧ b.name = entry.1 ∧ b.Faithful := by
  simp only [builtins, List.forall_mem_cons]
  refine ⟨?_, ?_, ?_, ?_, by simp⟩
  · refine ⟨_, rfl, rfl, faithful_scalar rfl (fun d v h => ?_) fun v member _ => ?_⟩
    · obtain ⟨n, _, rfl⟩ := Option.map_eq_some_iff.1 h
      rfl
    · cases v with
      | integer n => exact ⟨_, rfl, rfl, by rw [Datum.asInt64?_integer]; rfl⟩
      | _ => cases member
  · refine ⟨_, rfl, rfl, faithful_scalar rfl (fun d v h => ?_) fun v member finite => ?_⟩
    · obtain ⟨x, read, rfl⟩ := Option.map_eq_some_iff.1 h
      exact Datum.isFinite_of_asDouble? read
    · cases v with
      | float x => exact ⟨.real ⟨x, finite⟩, dif_pos finite, rfl, rfl⟩
      | _ => cases member
  · refine ⟨_, rfl, rfl, faithful_scalar rfl (fun d v h => ?_) fun v member _ => ?_⟩
    · obtain ⟨s, _, rfl⟩ := Option.map_eq_some_iff.1 h
      rfl
    · cases v with
      | string s => exact ⟨.string s, rfl, rfl, rfl⟩
      | _ => cases member
  · refine ⟨_, rfl, rfl, faithful_scalar rfl (fun d v h => ?_) fun v member _ => ?_⟩
    · obtain ⟨b, _, rfl⟩ := Option.map_eq_some_iff.1 h
      rfl
    · cases v with
      | boolean b => exact ⟨.boolean b, rfl, rfl, rfl⟩
      | _ => cases member

/-! ## All types -/

theorem isMember_nullable (inner : Ty) {v : Value} (h : v ≠ .null) :
    (nullable inner).isMember v = inner.isMember v := by
  cases v with
  | null => exact absurd rfl h
  | _ => rw [isMember]; simp

theorem constToDatum_nullable (inner : Ty) {v : Value} (h : v ≠ .null) :
    (nullable inner).constToDatum v = inner.constToDatum v := by
  cases v with
  | null => exact absurd rfl h
  | _ => rw [constToDatum]; simp

theorem areMembers_iff {ts : List Ty} {vs : List Value} :
    areMembers ts vs = true ↔ List.Forall₂ (fun t v => t.isMember v = true) ts vs := by
  induction ts generalizing vs with
  | nil => cases vs <;> simp [areMembers]
  | cons t ts ih => cases vs <;> simp [areMembers, ih]

mutual

/-- A finite member is written as a datum from which it is read back, and which is null for null
only. -/
theorem datumToConst_constToDatum : ∀ (t : Ty) {v : Value}, t.EveryBase BaseTy.Writes →
    t.isMember v = true → v.isFinite = true →
      ∃ d, t.constToDatum v = .ok d ∧ t.datumToConst d = .ok v ∧ (d.isNull = true → v = .null)
  | .base b, v, writes, member, finite => by
    obtain ⟨d, written, notNull, back⟩ := writes v member finite
    have contained : b.contains v = true := member
    refine ⟨d, ?_, back, fun null => ?_⟩
    · rw [constToDatum, if_pos contained, written]
    · rw [notNull] at null
      cases null
  | .nullable inner, v, writes, member, finite => by
    by_cases null : v = .null
    · subst v
      exact ⟨.null, by rw [constToDatum], by simp [datumToConst, Datum.isNull], fun _ => rfl⟩
    · rw [isMember_nullable inner null] at member
      obtain ⟨d, written, back, nullOnly⟩ := datumToConst_constToDatum inner writes member finite
      refine ⟨d, ?_, ?_, nullOnly⟩
      · rw [constToDatum_nullable inner null, written]
      · rw [datumToConst, if_neg (mt nullOnly null), back]
  | .product ts, v, writes, member, finite => by
    cases v with
    | tuple vs =>
      obtain ⟨ds, written, back, length⟩ := datumsToConsts_constsToDatums ts writes member finite
      have count : ts.length = vs.length := (areMembers_iff.1 member).length_eq
      refine ⟨.array ds, ?_, ?_, fun null => by cases null⟩
      · simp only [constToDatum, if_pos count, bind_eq_ok, pure_eq_ok]
        exact ⟨ds, written, rfl⟩
      · simp only [datumToConst, bind_eq_ok, Datum.items_eq_ok]
        refine ⟨ds, rfl, ?_⟩
        rw [if_pos length]
        simp only [bind_eq_ok, pure_eq_ok]
        exact ⟨vs, back, rfl⟩
    | _ => cases member
  | .set t, v, writes, member, finite => by
    cases v with
    | set vs =>
      rw [isMember, List.all_eq_true] at member
      rw [Value.isFinite, Value.areFinite_iff] at finite
      obtain ⟨ds, each⟩ := exists_forall₂_of_mem fun v among =>
        datumToConst_constToDatum t writes (member v among) (finite v among)
      refine ⟨.array ds, ?_, ?_, fun null => by cases null⟩
      · simp only [constToDatum, bind_eq_ok, pure_eq_ok, mapM_eq_ok]
        exact ⟨ds, each.imp fun _ _ own => own.1, rfl⟩
      · simp only [datumToConst, bind_eq_ok, Datum.items_eq_ok, pure_eq_ok, mapM_eq_ok]
        exact ⟨ds, rfl, vs, List.Forall₂.flip (each.imp fun _ _ own => own.2.1), rfl⟩
    | _ => cases member
  | .boundedString limit, v, _, member, _ => by
    cases v with
    | string s =>
      have short : s.length ≤ limit.toNat := by simpa [isMember] using member
      refine ⟨.string s, ?_, ?_, fun null => by cases null⟩
      · simp only [constToDatum, if_pos short]
      · simp only [datumToConst, bind_eq_ok, Datum.expectString_eq_ok, pure_eq_ok]
        exact ⟨s, rfl, (), if_pos member, rfl⟩
    | _ => cases member

/-- Finite members that are written are read back. -/
theorem datumsToConsts_constsToDatums :
    ∀ (ts : List Ty) {vs : List Value}, EveryBaseOf BaseTy.Writes ts →
    areMembers ts vs = true → Value.areFinite vs = true →
      ∃ ds, constsToDatums ts vs = .ok ds ∧ datumsToConsts ts ds = .ok vs ∧ ds.length = ts.length
  | [], [], _, _, _ => ⟨[], rfl, rfl, rfl⟩
  | t :: ts, v :: vs, writes, members, finite => by
    rw [areMembers, Bool.and_eq_true] at members
    rw [Value.areFinite, Bool.and_eq_true] at finite
    obtain ⟨d, written, back, _⟩ := datumToConst_constToDatum t writes.1 members.1 finite.1
    obtain ⟨ds, rest, backRest, length⟩ :=
      datumsToConsts_constsToDatums ts writes.2 members.2 finite.2
    refine ⟨d :: ds, ?_, ?_, congrArg (· + 1) length⟩
    · simp only [constsToDatums, bind_eq_ok, pure_eq_ok]
      exact ⟨d, written, ds, rest, rfl⟩
    · simp only [datumsToConsts, bind_eq_ok, pure_eq_ok]
      exact ⟨v, back, vs, backRest, rfl⟩

end

mutual

/-- What is read as a value of a type is finite. -/
theorem isFinite_of_datumToConst : ∀ (t : Ty) {d : Datum} {v : Value}, t.EveryBase BaseTy.Reads →
    t.datumToConst d = .ok v → v.isFinite = true
  | .base b, d, v, reads, h => reads d v h
  | .nullable inner, d, v, reads, h => by
    rw [datumToConst] at h
    split at h
    · cases h
      rfl
    · exact isFinite_of_datumToConst inner reads h
  | .product ts, d, v, reads, h => by
    simp only [datumToConst, bind_eq_ok, Datum.items_eq_ok] at h
    obtain ⟨ds, rfl, h⟩ := h
    split at h
    · simp only [bind_eq_ok, pure_eq_ok] at h
      obtain ⟨vs, read, rfl⟩ := h
      rw [Value.isFinite]
      exact areFinite_of_datumsToConsts ts reads read
    · cases h
  | .set t, d, v, reads, h => by
    simp only [datumToConst, bind_eq_ok, Datum.items_eq_ok, pure_eq_ok, mapM_eq_ok] at h
    obtain ⟨ds, rfl, vs, read, rfl⟩ := h
    rw [Value.isFinite, Value.areFinite_iff]
    intro v member
    obtain ⟨d, _, own⟩ := exists_of_mem_right read member
    exact isFinite_of_datumToConst t reads own
  | .boundedString limit, d, v, _, h => by
    simp only [datumToConst, bind_eq_ok, pure_eq_ok] at h
    obtain ⟨s, _, _, _, rfl⟩ := h
    rfl

/-- What is read is finite. -/
theorem areFinite_of_datumsToConsts : ∀ (ts : List Ty) {ds : List Datum} {vs : List Value},
    EveryBaseOf BaseTy.Reads ts → datumsToConsts ts ds = .ok vs → Value.areFinite vs = true
  | t :: ts, d :: ds, vs, reads, h => by
    simp only [datumsToConsts, bind_eq_ok, pure_eq_ok] at h
    obtain ⟨v, first, rest, others, rfl⟩ := h
    rw [Value.areFinite, isFinite_of_datumToConst t reads.1 first,
      areFinite_of_datumsToConsts ts reads.2 others]
    rfl
  | [], _, vs, _, h => by
    cases h
    rfl
  | _ :: _, [], vs, _, h => by
    cases h
    rfl

end

end Ty

end FlatPlan
