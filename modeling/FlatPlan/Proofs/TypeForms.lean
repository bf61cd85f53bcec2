import FlatPlan.Proofs.Typing
import FlatPlan.Ty.Form

/-!
# Types and their datums

`Ty.Form` lists the datums that stand for types, form by form, and `Ty.ofDatum_eq_ok` says that
these are the ones that are read. A type is read back from its datum if its base types have their
names and null is not added twice (`Ty.ofDatum_toDatum`), and every type that is read is of that
kind (`Ty.resolved_of_ofDatum`).
-/

namespace FlatPlan

/-! ## Parts of datums -/

namespace Datum

theorem sizeOf_lt_array {d : Datum} {items : List Datum} (h : d ∈ items) :
    sizeOf d < sizeOf (array items) := by
  have smaller := List.sizeOf_lt_of_mem h
  simp only [array.sizeOf_spec]
  omega

theorem sizeOf_lt_tagged {d : Datum} {tag : String} {parts : List Datum} (h : d ∈ parts) :
    sizeOf d < sizeOf (tagged tag parts) :=
  sizeOf_lt_array (List.mem_cons_of_mem _ h)

/-- What holds of a datum if it holds of all smaller ones holds of every datum. -/
theorem smallerInduction {P : Datum → Prop}
    (step : ∀ d, (∀ part, sizeOf part < sizeOf d → P part) → P d) (d : Datum) : P d :=
  (measure (sizeOf : Datum → Nat)).wf.induction d step

theorem expectString_eq_ok {what s : String} {d : Datum} : d.expectString what = .ok s ↔
    d = .string s := by
  cases d <;> simp [expectString, asString?]

theorem items_eq_ok {what : String} {d : Datum} {ds : List Datum} : d.items what = .ok ds ↔
    d = .array ds := by
  cases d <;> simp [items, asArray?]

theorem expectUInt64_eq_ok {what : String} {d : Datum} {n : UInt64} :
    d.expectUInt64 what = .ok n ↔ d = .integer n := by
  constructor
  · intro h
    cases d with
    | integer m =>
      simp only [expectUInt64, asUInt64?] at h
      by_cases positive : 0 ≤ m.toInt
      · have upper := m.upper
        rw [if_pos positive] at h
        cases h
        rw [integer.injEq, WideInt.ext_iff, WideInt.toInt_ofUInt64, UInt64.toNat_ofNat',
          Nat.mod_eq_of_lt (by omega), Int.toNat_of_nonneg positive]
      · rw [if_neg positive] at h
        cases h
    | _ => cases h
  · rintro rfl
    rw [expectUInt64, asUInt64?_integer]

end Datum

/-! ## Types -/

namespace Ty

mutual

/-- Whether every base type in a type has a property. -/
def EveryBase (p : BaseTy → Prop) : Ty → Prop
  | .base b => p b
  | .nullable inner => inner.EveryBase p
  | .product items => EveryBaseOf p items
  | .set member => member.EveryBase p
  | .boundedString _ => True

/-- Whether every base type in the types has a property. -/
def EveryBaseOf (p : BaseTy → Prop) : List Ty → Prop
  | [] => True
  | t :: ts => t.EveryBase p ∧ EveryBaseOf p ts

end

def isNullable : Ty → Bool
  | .nullable _ => true
  | _ => false

mutual

/-- Whether null is nowhere added to a type that has null already. -/
def singleNull : Ty → Bool
  | .nullable inner => !inner.isNullable && inner.singleNull
  | .product items => singleNulls items
  | .set member => member.singleNull
  | .base _ | .boundedString _ => true

/-- Whether null is added twice in none of the types. -/
def singleNulls : List Ty → Bool
  | [] => true
  | t :: ts => t.singleNull && singleNulls ts

end

variable {p r : BaseTy → Prop} {resolve : String → Option Ty}

theorem everyBaseOf_iff {ts : List Ty} : EveryBaseOf p ts ↔ ∀ t ∈ ts, t.EveryBase p := by
  induction ts with
  | nil => simp [EveryBaseOf]
  | cons t ts ih => simp [EveryBaseOf, ih]

theorem singleNulls_iff {ts : List Ty} : singleNulls ts = true ↔ ∀ t ∈ ts, t.singleNull = true := by
  induction ts with
  | nil => simp [singleNulls]
  | cons t ts ih => simp [singleNulls, ih]

mutual

/-- What holds of every base type of a type may be weakened. -/
theorem EveryBase.imp (h : ∀ b, p b → r b) : ∀ t : Ty, t.EveryBase p → t.EveryBase r
  | .base b, own => h b own
  | .nullable inner, own => EveryBase.imp h inner own
  | .product items, own => EveryBaseOf.imp h items own
  | .set member, own => EveryBase.imp h member own
  | .boundedString _, _ => trivial

theorem EveryBaseOf.imp (h : ∀ b, p b → r b) : ∀ ts : List Ty, EveryBaseOf p ts → EveryBaseOf r ts
  | [], _ => trivial
  | t :: ts, own => ⟨EveryBase.imp h t own.1, EveryBaseOf.imp h ts own.2⟩

end

theorem orNull_of_not_nullable {t : Ty} (h : t.isNullable = false) : t.orNull = .nullable t := by
  cases t with
  | nullable inner => cases h
  | _ => rfl

theorem isNullable_orNull (t : Ty) : t.orNull.isNullable = true := by
  cases t <;> rfl

/-- Adding null to a type keeps it free of null in null. -/
theorem singleNull_orNull {t : Ty} (h : t.singleNull = true) : t.orNull.singleNull = true := by
  cases t with
  | nullable inner => exact h
  | _ => simp_all [orNull, singleNull, isNullable]

theorem everyBase_orNull {t : Ty} (h : t.EveryBase p) : t.orNull.EveryBase p := by
  cases t <;> exact h

/-- A type whose base types are the ones of their names, and in which null is not added twice. -/
structure Resolved (resolve : String → Option Ty) (t : Ty) : Prop where
  bases : t.EveryBase fun b => resolve b.name = some (.base b)
  nulls : t.singleNull = true

/-! ## Forms -/

/-- The datums of types; parts are read by `Ty.ofDatum`. -/
inductive Form (resolve : String → Option Ty) : Datum → Ty → Prop
  | base {name : String} {t : Ty} (found : resolve name = some t) : Form resolve (.string name) t
  | nullable {d : Datum} {t : Ty} (inner : ofDatum resolve d = .ok t) :
    Form resolve (.tagged "nullable" [d]) t.orNull
  | product {ds : List Datum} {ts : List Ty}
    (items : List.Forall₂ (fun d t => ofDatum resolve d = .ok t) ds ts) :
    Form resolve (.tagged "product" [.array ds]) (.product ts)
  | set {d : Datum} {t : Ty} (member : ofDatum resolve d = .ok t) :
      Form resolve (.tagged "set" [d]) (.set t)
  | boundedString (limit : UInt32) :
    Form resolve (.tagged "bounded-string" [.integer limit.toUInt64]) (.boundedString limit)

/-- Types are read together exactly if they are read one by one. -/
theorem ofDatums_eq_ok {ds : List Datum} {ts : List Ty} :
    ofDatums resolve ds = .ok ts ↔ List.Forall₂ (fun d t => ofDatum resolve d = .ok t) ds ts := by
  induction ds generalizing ts with
  | nil => rw [ofDatums, List.forall₂_nil_left_iff, Except.ok.injEq, eq_comm]
  | cons d ds ih =>
    simp only [ofDatums, bind_eq_ok, pure_eq_ok, ih, List.forall₂_cons_left_iff]
    constructor
    · rintro ⟨t, first, ts, rest, rfl⟩
      exact ⟨t, ts, first, rest, rfl⟩
    · rintro ⟨t, ts, first, rest, rfl⟩
      exact ⟨t, first, ts, rest, rfl⟩

/-- A bounded string is read from its limit, which fits in 32 bits. -/
theorem boundedOfDatum_eq_ok {d : Datum} {t : Ty} :
    boundedOfDatum d = .ok t ↔ ∃ limit : UInt32, d = .integer limit.toUInt64 ∧
      t = .boundedString limit := by
  simp only [boundedOfDatum, bind_eq_ok, Datum.expectUInt64_eq_ok]
  constructor
  · rintro ⟨n, rfl, h⟩
    split at h
    case isTrue small =>
      have same : n.toUInt32.toUInt64 = n := by
        rw [← UInt64.toNat_inj, UInt32.toNat_toUInt64, UInt64.toNat_toUInt32,
          Nat.mod_eq_of_lt small]
      exact ⟨n.toUInt32, by rw [same], pure_eq_ok.1 h⟩
    case isFalse => cases h
  · rintro ⟨limit, rfl, rfl⟩
    refine ⟨limit.toUInt64, rfl, ?_⟩
    rw [if_pos (by simpa using limit.toNat_lt), UInt32.toUInt32_toUInt64]
    rfl

/-- Types are read exactly from the forms that there are. -/
theorem ofDatum_eq_ok {d : Datum} {t : Ty} : ofDatum resolve d = .ok t ↔ Form resolve d t := by
  constructor
  · intro h
    unfold ofDatum at h
    split at h
    case h_1 name =>
      split at h
      · cases h
        exact .base ‹_›
      · cases h
    case h_2 tag parts =>
      split at h
      · subst tag
        split at h
        · simp only [bind_eq_ok, pure_eq_ok] at h
          obtain ⟨inner, read, rfl⟩ := h
          exact .nullable read
        · cases h
      split at h
      · subst tag
        split at h
        · simp only [bind_eq_ok, pure_eq_ok, ofDatums_eq_ok] at h
          obtain ⟨items, read, rfl⟩ := h
          exact .product read
        · cases h
        · cases h
      split at h
      · subst tag
        split at h
        · simp only [bind_eq_ok, pure_eq_ok] at h
          obtain ⟨member, read, rfl⟩ := h
          exact .set read
        · cases h
      split at h
      · subst tag
        split at h
        · obtain ⟨limit, rfl, rfl⟩ := boundedOfDatum_eq_ok.1 h
          exact .boundedString limit
        · cases h
      · cases h
    case h_3 => cases h
  · intro h
    cases h with
    | base found => rw [ofDatum, found]
    | nullable inner => simp [ofDatum, Datum.tagged, inner]
    | product items => simp [ofDatum, Datum.tagged, ofDatums_eq_ok.2 items]
    | set member => simp [ofDatum, Datum.tagged, member]
    | boundedString limit => simp [ofDatum, Datum.tagged, boundedOfDatum_eq_ok]

mutual

/-- A type is read back from its datum. -/
theorem ofDatum_toDatum : ∀ {t : Ty}, t.Resolved resolve → ofDatum resolve t.toDatum = .ok t
  | .base b, h => ofDatum_eq_ok.2 (.base h.bases)
  | .nullable inner, h => by
    have nulls := h.nulls
    simp only [singleNull, Bool.and_eq_true, Bool.not_eq_true'] at nulls
    rw [toDatum, ← orNull_of_not_nullable nulls.1]
    exact ofDatum_eq_ok.2 (.nullable (ofDatum_toDatum ⟨h.bases, nulls.2⟩))
  | .product items, h => by
    rw [toDatum]
    have bases : EveryBaseOf (fun b => resolve b.name = some (.base b)) items := h.bases
    exact ofDatum_eq_ok.2 (.product (ofDatums_toDatums bases h.nulls))
  | .set member, h => by
    rw [toDatum]
    exact ofDatum_eq_ok.2 (.set (ofDatum_toDatum ⟨h.bases, h.nulls⟩))
  | .boundedString limit, _ => ofDatum_eq_ok.2 (.boundedString limit)

/-- Types that are written are read back. -/
theorem ofDatums_toDatums :
    ∀ {ts : List Ty}, EveryBaseOf (fun b => resolve b.name = some (.base b)) ts →
    singleNulls ts = true → List.Forall₂ (fun d t => ofDatum resolve d = .ok t) (toDatums ts) ts
  | [], _, _ => .nil
  | t :: ts, bases, nulls => by
    rw [singleNulls, Bool.and_eq_true] at nulls
    exact .cons (ofDatum_toDatum ⟨bases.1, nulls.1⟩) (ofDatums_toDatums bases.2 nulls.2)

end

/-- What is read is a type whose base types are those that the names stand for. -/
theorem resolved_of_ofDatum
    (named : ∀ name t, resolve name = some t → ∃ b, t = .base b ∧ b.name = name) {d : Datum}
    {t : Ty} (h : ofDatum resolve d = .ok t) : t.Resolved resolve := by
  induction d using Datum.smallerInduction generalizing t with
  | step d ih =>
    cases ofDatum_eq_ok.1 h with
    | base found =>
      obtain ⟨b, rfl, rfl⟩ := named _ _ found
      exact ⟨found, rfl⟩
    | nullable read =>
      have own := ih _ (Datum.sizeOf_lt_tagged List.mem_cons_self) read
      exact ⟨everyBase_orNull own.bases, singleNull_orNull own.nulls⟩
    | @product ds ts items =>
      have each : ∀ t ∈ ts, t.Resolved resolve := by
        intro t member
        obtain ⟨part, among, read⟩ := exists_of_mem_right items member
        have smaller := Datum.sizeOf_lt_array among
        exact ih part (Nat.lt_trans smaller (Datum.sizeOf_lt_tagged List.mem_cons_self)) read
      exact ⟨everyBaseOf_iff.2 fun t member => (each t member).bases,
        singleNulls_iff.2 fun t member => (each t member).nulls⟩
    | set read =>
      have own := ih _ (Datum.sizeOf_lt_tagged List.mem_cons_self) read
      exact ⟨own.bases, own.nulls⟩
    | boundedString limit => exact ⟨trivial, rfl⟩

end Ty

end FlatPlan
