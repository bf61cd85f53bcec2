import FlatPlan.Proofs.ConstantForms
import FlatPlan.Ty.Record

/-!
# Constants that can be written

Membership, writing and reading of constants are three recursions over a type. Main statement: they
agree, so that a finite value is written as a datum exactly if it is a member of the type, and is
then read back (`Ty.written_iff_isMember`). What is written is a member whatever the base types do
(`Ty.isMember_of_constToDatum`).
-/

namespace FlatPlan

/-- Whether the base type is one of the four that are always there. -/
def BaseTy.IsBuiltin (b : BaseTy) : Prop := ∃ name, (name, Ty.base b) ∈ Ty.builtins

theorem BaseTy.IsBuiltin.writes {b : BaseTy} (h : b.IsBuiltin) : b.Writes := by
  obtain ⟨name, member⟩ := h
  obtain ⟨own, equal, _, faithful⟩ := Ty.faithful_of_builtin _ member
  cases equal
  exact faithful.writes

namespace Ty

mutual

/-- Only members are written. -/
theorem isMember_of_constToDatum : ∀ (t : Ty) {v : Value} {d : Datum}, t.constToDatum v = .ok d →
    t.isMember v = true
  | .base b, v, d, h => by
    rw [constToDatum] at h
    split at h
    case isTrue contained => exact contained
    case isFalse => cases h
  | .nullable inner, v, d, h => by
    by_cases null : v = .null
    · rw [null, isMember]
    · rw [constToDatum_nullable inner null] at h
      rw [isMember_nullable inner null]
      exact isMember_of_constToDatum inner h
  | .product ts, v, d, h => by
    cases v with
    | tuple vs =>
      simp only [constToDatum] at h
      split at h
      case isTrue length =>
        rw [bind_eq_ok] at h
        obtain ⟨ds, written, _⟩ := h
        exact areMembers_of_constsToDatums ts length written
      case isFalse => cases h
    | _ => cases h
  | .set member, v, d, h => by
    cases v with
    | set vs =>
      simp only [constToDatum, bind_eq_ok, mapM_eq_ok] at h
      obtain ⟨ds, written, _⟩ := h
      rw [isMember, List.all_eq_true]
      intro v among
      obtain ⟨d, _, own⟩ := exists_of_mem_right (List.Forall₂.flip written) among
      exact isMember_of_constToDatum member own
    | _ => cases h
  | .boundedString limit, v, d, h => by
    cases v with
    | string s =>
      simp only [constToDatum] at h
      split at h
      case isTrue short => simpa [isMember] using short
      case isFalse => cases h
    | _ => cases h

theorem areMembers_of_constsToDatums : ∀ (ts : List Ty) {vs : List Value} {ds : List Datum},
    ts.length = vs.length → constsToDatums ts vs = .ok ds → areMembers ts vs = true
  | [], [], _, _, _ => rfl
  | t :: ts, v :: vs, _, length, h => by
    simp only [constsToDatums, bind_eq_ok] at h
    obtain ⟨d, first, ds, rest, _⟩ := h
    rw [areMembers, isMember_of_constToDatum t first,
      areMembers_of_constsToDatums ts (Nat.succ.inj length) rest]
    rfl

end

/-- The built-in types write their finite members. A finite value of a type, whose other base types
do so too, is written exactly if it is a member, and then read back from its datum. -/
theorem written_iff_isMember :
    (∀ b : BaseTy, b.IsBuiltin → b.Writes) ∧
    ∀ (t : Ty) (v : Value), t.EveryBase (fun b => ¬b.IsBuiltin → b.Writes) → v.isFinite = true →
      ((∃ d, t.constToDatum v = .ok d) ↔ t.isMember v = true) ∧
      ∀ d, t.constToDatum v = .ok d → t.datumToConst d = .ok v := by
  refine ⟨fun b builtin => builtin.writes, fun t v others finite => ?_⟩
  have writes : t.EveryBase BaseTy.Writes := by
    refine EveryBase.imp (fun b own => ?_) t others
    by_cases builtin : b.IsBuiltin
    · exact builtin.writes
    · exact own builtin
  refine ⟨⟨?_, fun member => ?_⟩, fun d written => ?_⟩
  · rintro ⟨d, written⟩
    exact isMember_of_constToDatum t written
  · obtain ⟨d, written, _⟩ := datumToConst_constToDatum t writes member finite
    exact ⟨d, written⟩
  · obtain ⟨d', written', back, _⟩ :=
      datumToConst_constToDatum t writes (isMember_of_constToDatum t written) finite
    cases written.symm.trans written'
    exact back

end Ty

namespace Sample

/-- Visits to a place: how often, and the initials of the guest where they are known. -/
def visitsType : Ty :=
  .set (.nullable (.product [.counter "visits" true none, .nullable (.boundedString 2)]))

/-- An unknown visit, the visits of a guest without initials, and those of one with two. -/
def visits : Value :=
  .set [.null, .tuple [.integer 0, .null], .tuple [.integer 9223372036854775807, .string "Äö"]]

theorem visits_written : visits.isFinite = true ∧ visitsType.isMember visits = true ∧
    ∃ d, visitsType.constToDatum visits = .ok d ∧ visitsType.datumToConst d = .ok visits := by
  have others : visitsType.EveryBase fun b => ¬b.IsBuiltin → b.Writes := by
    refine ⟨fun _ => ?_, trivial, trivial⟩
    refine (Ty.faithful_scalar rfl (fun d v h => ?_) fun v member _ => ?_).writes
    · obtain ⟨n, _, rfl⟩ := Option.map_eq_some_iff.1 h
      rfl
    · cases v with
      | integer n => exact ⟨_, rfl, rfl, by rw [Datum.asInt64?_integer]; rfl⟩
      | _ => cases member
  have member : visitsType.isMember visits = true := by decide
  obtain ⟨iff, back⟩ := Ty.written_iff_isMember.2 visitsType visits others rfl
  obtain ⟨d, written⟩ := iff.2 member
  exact ⟨rfl, member, d, written, back d written⟩

end Sample

end FlatPlan
