import FlatPlan.Proofs.Registration
import FlatPlan.Sample

/-!
# Canonical datums of types

A type in which null is nowhere added twice is read back from its datum. The other way round,
reading only forgets that null was asked for twice: a datum that is read as a type is the datum of
that type exactly if in it no nullable form stands directly inside another (`Ty.datums_canonical`).
-/

namespace FlatPlan

/-! ## Nullable forms -/

namespace Datum

/-- Whether a datum has the form of a nullable type. -/
def isNullableForm : Datum → Bool
  | .array (.string tag :: _) => tag == "nullable"
  | _ => false

mutual

/-- Whether in the datum of a type no nullable form stands directly inside another. Only the places
where a type can stand count: the list of a product's items is no form, whatever its first item
is. -/
def singleNull : Datum → Bool
  | .array [.string tag, part] =>
    if tag = "nullable" then !part.isNullableForm && part.singleNull
    else if tag = "set" then part.singleNull
    else if tag = "product" then
      match part with
      | .array items => singleNulls items
      | _ => true
    else true
  | _ => true

/-- Whether in none of the datums a nullable form stands directly inside another. -/
def singleNulls : List Datum → Bool
  | [] => true
  | d :: ds => d.singleNull && singleNulls ds

end

theorem singleNull_nullable (d : Datum) :
    (tagged "nullable" [d]).singleNull = (!d.isNullableForm && d.singleNull) := by
  simp [tagged, singleNull]

theorem singleNull_set (d : Datum) : (tagged "set" [d]).singleNull = d.singleNull := by
  simp [tagged, singleNull]

theorem singleNull_product (ds : List Datum) :
    (tagged "product" [.array ds]).singleNull = singleNulls ds := by
  simp [tagged, singleNull]

end Datum

/-! ## Reading and writing -/

namespace Ty

variable {resolve : String → Option Ty} {d : Datum} {t : Ty}

theorem isNullableForm_toDatum (t : Ty) : t.toDatum.isNullableForm = t.isNullable := by
  cases t <;> simp [toDatum, Datum.tagged, Datum.isNullableForm, isNullable]

/-- A nullable form is read as a nullable type, and no other form is. -/
theorem isNullableForm_of_ofDatum
    (named : ∀ name t, resolve name = some t → ∃ b, t = .base b ∧ b.name = name)
    (h : ofDatum resolve d = .ok t) : d.isNullableForm = t.isNullable := by
  cases ofDatum_eq_ok.1 h with
  | base found =>
    obtain ⟨b, rfl, _⟩ := named _ _ found
    rfl
  | nullable => simp [Datum.tagged, Datum.isNullableForm, isNullable_orNull]
  | product | set | boundedString => simp [Datum.tagged, Datum.isNullableForm, isNullable]

theorem toDatums_eq_iff {ds : List Datum} {ts : List Ty}
    (each : List.Forall₂ (fun d t => t.toDatum = d ↔ d.singleNull = true) ds ts) :
    toDatums ts = ds ↔ Datum.singleNulls ds = true := by
  induction each with
  | nil => simp [toDatums, Datum.singleNulls]
  | cons first _ ih =>
    rw [toDatums, Datum.singleNulls, List.cons.injEq, Bool.and_eq_true, first, ih]

/-- What is read as a type is the datum of that type exactly if null is not asked for twice in
it. -/
theorem toDatum_eq_iff (named : ∀ name t, resolve name = some t → ∃ b, t = .base b ∧ b.name = name)
    (h : ofDatum resolve d = .ok t) : t.toDatum = d ↔ d.singleNull = true := by
  induction d using Datum.smallerInduction generalizing t with
  | step d ih =>
    cases ofDatum_eq_ok.1 h with
    | base found =>
      obtain ⟨b, rfl, rfl⟩ := named _ _ found
      exact ⟨fun _ => rfl, fun _ => rfl⟩
    | @nullable part t read =>
      have inner : t.toDatum = part ↔ part.singleNull = true :=
        ih part (Datum.sizeOf_lt_tagged List.mem_cons_self) read
      rw [Datum.singleNull_nullable, isNullableForm_of_ofDatum named read]
      cases twice : t.isNullable with
      | false => simp [orNull_of_not_nullable twice, toDatum, Datum.tagged, inner]
      | true =>
        -- The type has null once, so no nullable form stands under the one that is written for it.
        refine iff_of_false (fun equal => ?_) (by simp)
        cases t with
        | nullable once =>
          have same : once.toDatum = part := by simpa [orNull, toDatum, Datum.tagged] using equal
          have nulls := (resolved_of_ofDatum named read).nulls
          have again := isNullableForm_of_ofDatum named read
          rw [← same, isNullableForm_toDatum] at again
          rw [singleNull, again] at nulls
          cases nulls
        | _ => cases twice
    | @product ds ts items =>
      have each : List.Forall₂ (fun d t => t.toDatum = d ↔ d.singleNull = true) ds ts := by
        refine forall₂_imp_of_mem items fun part among t _ read => ih part ?_ read
        exact Nat.lt_trans (Datum.sizeOf_lt_array among) (Datum.sizeOf_lt_tagged List.mem_cons_self)
      rw [Datum.singleNull_product, ← toDatums_eq_iff each]
      simp [toDatum, Datum.tagged]
    | @set part t read =>
      rw [Datum.singleNull_set, ← ih part (Datum.sizeOf_lt_tagged List.mem_cons_self) read]
      simp [toDatum, Datum.tagged]
    | boundedString limit => simp [toDatum, Datum.tagged, Datum.singleNull]

/-- Types are read back from their datums, and datums that name null once at a time are written back
from their types, whatever has been registered. -/
theorem datums_canonical :
    (∀ (resolve : String → Option Ty) (t : Ty), t.singleNull = true →
      t.EveryBase (fun b => resolve b.name = some (.base b)) → ofDatum resolve t.toDatum = .ok t) ∧
    ∀ (u : Universe), u.Built (fun _ => True) → ∀ (d : Datum) (t : Ty), ofDatum u.type? d = .ok t →
      t.singleNull = true ∧ (t.toDatum = d ↔ d.singleNull = true) := by
  refine ⟨fun resolve t nulls bases => ofDatum_toDatum ⟨bases, nulls⟩, fun u built d t read => ?_⟩
  have coherent : u.Coherent (fun _ => True) := by
    refine built.coherent ?_
    simp only [builtins, List.forall_mem_cons]
    exact ⟨⟨_, rfl, rfl, trivial⟩, ⟨_, rfl, rfl, trivial⟩, ⟨_, rfl, rfl, trivial⟩,
      ⟨_, rfl, rfl, trivial⟩, by simp⟩
  have named : ∀ name t, u.type? name = some t → ∃ b, t = .base b ∧ b.name = name := by
    intro name t found
    obtain ⟨b, base, own, _⟩ := coherent.types found
    exact ⟨b, base, own⟩
  exact ⟨(resolved_of_ofDatum named read).nulls, toDatum_eq_iff named read⟩

end Ty

namespace Sample

theorem people_built : people.Built fun _ => True := by
  have types : Universe.Built (fun _ => True) _ :=
    .registerType (t := personType) .builtins trivial rfl
  have tables := types.registerRelation (q := tableT) rfl
  exact (tables.registerRelation (q := tableU) rfl).registerRelation (q := tableN) rfl

/-- Sets of people, each with an initial or not. -/
def initialed : Ty := .set (.product [.nullable personType, .nullable (.boundedString 1)])

theorem initialed_canonical :
    initialed.singleNull = true ∧ people.Built (fun _ => True) ∧
    Ty.ofDatum people.type? initialed.toDatum = .ok initialed ∧
    Ty.ofDatum people.type? (.tagged "nullable" [.tagged "nullable" [.string "person"]]) =
      .ok (.nullable personType) ∧
    initialed.toDatum.singleNull = true ∧
    (Ty.nullable personType).toDatum ≠
      .tagged "nullable" [.tagged "nullable" [.string "person"]] := by
  have canonical := Ty.datums_canonical
  have bases : initialed.EveryBase fun b => people.type? b.name = some (.base b) := by
    exact ⟨NameMap.find?_insert_self .., trivial, trivial⟩
  have read : Ty.ofDatum people.type? initialed.toDatum = .ok initialed :=
    canonical.1 people.type? initialed rfl bases
  have twice : Ty.ofDatum people.type?
      (.tagged "nullable" [.tagged "nullable" [.string "person"]]) =
        .ok (.nullable personType) := by
    have person : Ty.ofDatum people.type? (.string "person") = .ok personType :=
      Ty.ofDatum_eq_ok.2 (.base (NameMap.find?_insert_self ..))
    have once : Ty.ofDatum people.type? (.tagged "nullable" [.string "person"]) =
        .ok (.nullable personType) :=
      Ty.ofDatum_eq_ok.2 (.nullable person)
    exact Ty.ofDatum_eq_ok.2 (.nullable once)
  refine ⟨rfl, people_built, read, twice, ?_, ?_⟩
  · exact ((canonical.2 people people_built _ _ read).2).1 rfl
  · intro equal
    have single := ((canonical.2 people people_built _ _ twice).2).1 equal
    simp [Datum.tagged, Datum.singleNull, Datum.isNullableForm] at single

end Sample

end FlatPlan
