import FlatPlan.Proofs.RebuiltValues

/-!
# Cutting rows

Reification cuts a row by widths that it computes from the types, once for the whole schema and
again at the components of each product. `Ty.reifyAll?` is the same walk with a cursor that refuses
to go past the end of a row or of a slice. Main statement: on a row of the right length it refuses
nothing and rebuilds the same values, a row is rebuilt from any two parts that it is cut into
between columns, and a row of any other length is an error (`Schema.reifyRow_cuts`).
-/

namespace FlatPlan

/-! ## Cuts within bounds -/

/-- An answer with its errors, or none if a cut went past the end of a row. -/
abbrev Bounded (α : Type) := ExceptT Error Option α

namespace Bounded

/-- A cut past the end of a row. -/
def outOfBounds {α : Type} : Bounded α := .mk none

/-- An answer that needs no cut. -/
def ofExcept {α : Type} (r : Except Error α) : Bounded α := .mk (some r)

/-- The first columns of a row and the others. -/
def cut (width : Nat) (row : List Value) : Bounded (List Value × List Value) :=
  if width ≤ row.length then return (row.take width, row.drop width) else outOfBounds

/-- The column at the front of a slice. -/
def front : List Value → Bounded Value
  | v :: _ => return v
  | [] => outOfBounds

variable {α β : Type}

theorem ofExcept_bind (r : Except Error α) (f : α → Except Error β) :
    (ofExcept r >>= fun a => ofExcept (f a)) = ofExcept (r >>= f) := by
  cases r <;> rfl

theorem cut_of_le {width : Nat} {row : List Value} (enough : width ≤ row.length) :
    cut width row = ofExcept (.ok (row.take width, row.drop width)) :=
  if_pos enough

theorem front_eq_only {slice : List Value} (one : slice.length = 1) :
    front slice = ofExcept (Value.only slice) := by
  obtain ⟨v, rfl⟩ := List.length_eq_one_iff.1 one
  rfl

end Bounded

/-- The value of a base type that a slice stands for, which is not empty unless a layout reads
it. -/
def BaseTy.reify? (b : BaseTy) (orNull : Bool) (slice : List Value) : Bounded Value :=
  match b.layout with
  | some layout =>
    .ofExcept (if orNull && slice.all Value.isNull then .ok .null else layout.reify slice)
  | none => .front slice

namespace Ty

mutual

/-- The value that a slice stands for, where no component may be cut past the end of the slice. -/
def reify? : Ty → List Value → Bounded Value
  | .base b, slice => b.reify? false slice
  | .nullable (.base b), slice => b.reify? true slice
  | .nullable (.product ts), slice => do return .tuple (← reifyAll? ts slice)
  | .product ts, slice => do return .tuple (← reifyAll? ts slice)
  | _, slice => .front slice

/-- The values that the slices in front of a cursor stand for, which moves on by the width of each
type. -/
def reifyAll? : List Ty → List Value → Bounded (List Value)
  | [], _ => return []
  | t :: ts, row => do
    let (slice, rest) ← Bounded.cut t.flatWidth row
    let v ← t.reify? slice
    let vs ← reifyAll? ts rest
    return v :: vs

end

end Ty

theorem BaseTy.reify?_eq {b : BaseTy} {orNull : Bool} {slice : List Value}
    (fits : slice.length = b.flatWidth) :
    b.reify? orNull slice = .ofExcept (b.reify orNull slice) := by
  unfold reify? reify
  unfold flatWidth at fits
  cases layout : b.layout with
  | some l => rfl
  | none =>
    rw [layout] at fits
    exact Bounded.front_eq_only fits

namespace Ty

mutual

/-- A slice of the width of a type is cut within its bounds at every depth. -/
theorem reify?_eq : ∀ {t : Ty} {slice : List Value}, slice.length = t.flatWidth →
    t.reify? slice = .ofExcept (t.reify slice)
  | .base b, slice, fits => by
    rw [reify?, reify]
    exact BaseTy.reify?_eq fits
  | .nullable (.base b), slice, fits => by
    rw [reify?, reify]
    exact BaseTy.reify?_eq fits
  | .nullable (.product ts), slice, fits => by
    rw [reify?, reify, reifyAll?_eq fits]
    exact Bounded.ofExcept_bind _ _
  | .product ts, slice, fits => by
    rw [reify?, reify, reifyAll?_eq fits]
    exact Bounded.ofExcept_bind _ _
  | .nullable (.nullable _), slice, fits | .nullable (.set _), slice, fits
      | .nullable (.boundedString _), slice, fits
  | .set _, slice, fits | .boundedString _, slice, fits => Bounded.front_eq_only fits

theorem reifyAll?_eq : ∀ {ts : List Ty} {row : List Value}, row.length = flatWidths ts →
    reifyAll? ts row = .ofExcept (reifyAll ts row)
  | [], _, _ => rfl
  | t :: ts, row, fits => by
    rw [flatWidths] at fits
    have slice : (row.take t.flatWidth).length = t.flatWidth := by simp; omega
    have rest : (row.drop t.flatWidth).length = flatWidths ts := by simp; omega
    rw [reifyAll?, reifyAll, Bounded.cut_of_le (by omega)]
    -- The cursor stands behind the first slice now.
    change (t.reify? (row.take t.flatWidth) >>= fun v =>
      reifyAll? ts (row.drop t.flatWidth) >>= fun vs => Bounded.ofExcept (.ok (v :: vs))) = _
    simp only [reify?_eq slice, reifyAll?_eq rest, Bounded.ofExcept_bind]
    rfl

end

/-! ## Columns side by side -/

theorem flatWidths_append (ts us : List Ty) :
    flatWidths (ts ++ us) = flatWidths ts + flatWidths us := by
  induction ts with
  | nil => rw [List.nil_append, flatWidths, Nat.zero_add]
  | cons t ts ih => rw [List.cons_append, flatWidths, flatWidths, ih, Nat.add_assoc]

/-- Types side by side are rebuilt from the parts of a row that is cut between them, those in front
first. -/
theorem reifyAll_append {ts us : List Ty} {front back : List Value}
    (fits : front.length = flatWidths ts) :
    reifyAll (ts ++ us) (front ++ back) =
      (do return (← reifyAll ts front) ++ (← reifyAll us back)) := by
  induction ts generalizing front with
  | nil =>
    cases List.eq_nil_of_length_eq_zero (fits.trans flatWidths.eq_1)
    cases behind : reifyAll us back <;> simp [reifyAll, behind, bind, Except.bind,
      pure, Except.pure]
  | cons t ts ih =>
    rw [flatWidths] at fits
    have enough : t.flatWidth ≤ front.length := by omega
    have rest : (front.drop t.flatWidth).length = flatWidths ts := by simp; omega
    rw [List.cons_append, reifyAll, reifyAll, List.take_append_of_le_length enough,
      List.drop_append_of_le_length enough, ih rest]
    simp only [bind_assoc, pure_bind, List.cons_append]

/-! ## Single columns -/

variable {t : Ty}

/-- A product takes the columns of its components, with null or without it, and is the tuple of what
they rebuild. -/
theorem reify_of_product {ts : List Ty} (product : t.nonNull = .product ts) (slice : List Value) :
    t.flatWidth = flatWidths ts ∧ t.reify slice = (do return .tuple (← reifyAll ts slice)) := by
  cases t with
  | nullable inner =>
    cases product
    exact ⟨by rw [flatWidth], by rw [reify]⟩
  | product items =>
    cases product
    exact ⟨by rw [flatWidth], by rw [reify]⟩
  | _ => cases product

/-- A structured type takes the columns of its layout, which rebuilds the value from them unless
they stand for an absent one. -/
theorem reify_of_layout {l : Layout} (layout : t.layout? = some l) (slice : List Value) :
    t.flatWidth = l.columns.length ∧
      t.reify slice =
        if t.isNullable && slice.all Value.isNull then .ok .null else l.reify slice := by
  obtain ⟨b, base, own⟩ := layout?_eq_some.1 layout
  cases t with
  | base b' =>
    cases base
    exact ⟨by rw [flatWidth, BaseTy.flatWidth, own], by rw [reify, BaseTy.reify, own]; rfl⟩
  | nullable inner =>
    cases base
    exact ⟨by rw [flatWidth, BaseTy.flatWidth, own], by rw [reify, BaseTy.reify, own]; rfl⟩
  | _ => cases base

/-- Any other type takes one column as it is. -/
theorem reify_of_scalar (scalar : t.isScalar = true) (slice : List Value) :
    t.flatWidth = 1 ∧ t.reify slice = Value.only slice := by
  obtain ⟨unstructured, noProduct⟩ := isScalar_iff.1 scalar
  have plain : ∀ b : BaseTy, b.layout = none → b.flatWidth = 1 ∧
      ∀ orNull, b.reify orNull slice = Value.only slice := by
    intro b none
    exact ⟨by rw [BaseTy.flatWidth, none], fun _ => by rw [BaseTy.reify, none]⟩
  cases t with
  | base b =>
    obtain ⟨width, rebuilt⟩ := plain b unstructured
    exact ⟨by rw [flatWidth, width], by rw [reify, rebuilt]⟩
  | nullable inner =>
    cases inner with
    | base b =>
      obtain ⟨width, rebuilt⟩ := plain b unstructured
      exact ⟨by rw [flatWidth, width], by rw [reify, rebuilt]⟩
    | product items => cases noProduct
    | nullable _ | set _ | boundedString _ => exact ⟨rfl, rfl⟩
  | product items => cases noProduct
  | set _ | boundedString _ => exact ⟨rfl, rfl⟩

end Ty

/-! ## Rows -/

namespace Schema

theorem reifyRow_of_length {s : Schema} {row : List Value} (fits : row.length = s.flatWidth) :
    s.reifyRow row = Ty.reifyAll s.types row :=
  if_pos fits

theorem flatWidth_single (name : String) (type : Ty) :
    (single name type).flatWidth = type.flatWidth := by
  rw [flatWidth, types, single, List.map_singleton, Ty.flatWidths, Ty.flatWidths, Nat.add_zero]

/-- A schema of one column rebuilds one value from the whole row. -/
theorem reifyRow_single {name : String} {type : Ty} {row : List Value}
    (fits : row.length = type.flatWidth) :
    (single name type).reifyRow row = (do return [← type.reify row]) := by
  rw [reifyRow_of_length (fits.trans (flatWidth_single name type).symm), types, single,
    List.map_singleton, Ty.reifyAll, List.take_of_length_le (Nat.le_of_eq fits)]
  simp only [Ty.reifyAll]
  rfl

/-- Reification cuts a row exactly. A row of another length than the schema asks for is an error
with both lengths. All cuts of a row of this length are within bounds, at every depth; the row is
rebuilt from the parts of any cut between two columns, the first error in column order being the
answer; and a single column is the tuple of its components if it is a product, what the layout makes
of its slice if it is structured, and the only value of its slice otherwise. -/
theorem reifyRow_cuts (s : Schema) (row : List Value) :
    (row.length ≠ s.flatWidth → s.reifyRow row = .error (.rowShape s.flatWidth row.length)) ∧
    (row.length = s.flatWidth →
      Ty.reifyAll? s.types row = .ofExcept (s.reifyRow row) ∧
      (∀ (left right : Schema) (front back : List Value), s.columns = left.columns ++
        right.columns → row = front ++ back → front.length = left.flatWidth →
          s.reifyRow row = (do return (← left.reifyRow front) ++ (← right.reifyRow back))) ∧
      (∀ name type, s = single name type →
        (∀ components : Schema, type.nonNull = .product components.types →
          s.reifyRow row = (do return [.tuple (← components.reifyRow row)])) ∧
        (∀ layout, type.layout? = some layout → row.length = layout.columns.length ∧
          s.reifyRow row =
            if type.isNullable && row.all Value.isNull then .ok [.null]
            else (do return [← layout.reify row])) ∧
        (type.isScalar = true → ∃ v, row = [v] ∧ s.reifyRow row = .ok [v]))) := by
  refine ⟨fun other => if_neg other, fun fits => ⟨?_, ?_, ?_⟩⟩
  · rw [reifyRow_of_length fits]
    exact Ty.reifyAll?_eq fits
  · intro left right front back columns cut fitsFront
    have types : s.types = left.types ++ right.types := by
      rw [Schema.types, columns, List.map_append]
      rfl
    have fitsBack : back.length = right.flatWidth := by
      have total := fits
      rw [cut, List.length_append, flatWidth, types, Ty.flatWidths_append, fitsFront] at total
      exact Nat.add_left_cancel total
    rw [reifyRow_of_length fits, reifyRow_of_length fitsFront,
      reifyRow_of_length fitsBack, types, cut]
    exact Ty.reifyAll_append fitsFront
  · rintro name type rfl
    rw [flatWidth_single] at fits
    rw [reifyRow_single fits]
    refine ⟨fun components product => ?_, fun layout structured => ?_, fun scalar => ?_⟩
    · obtain ⟨width, rebuilt⟩ := Ty.reify_of_product product row
      rw [rebuilt, reifyRow_of_length (fits.trans width)]
      simp only [bind_assoc, pure_bind]
    · obtain ⟨width, rebuilt⟩ := Ty.reify_of_layout structured row
      refine ⟨fits.trans width, ?_⟩
      rw [rebuilt]
      split <;> rfl
    · obtain ⟨width, rebuilt⟩ := Ty.reify_of_scalar scalar row
      obtain ⟨v, rfl⟩ := List.length_eq_one_iff.1 (fits.trans width)
      exact ⟨v, rfl, by rw [rebuilt]; rfl⟩

end Schema

namespace Sample

/-- The columns of the guest. -/
def guestRow : List Value := [.integer 7, .null, .string "Ada", .null, .null, .set [.string "late"]]

/-- The row of the guest is cut behind the number and the entries. One column less is an error, and
the entries are the tuple of an entry without a name, an entry and no number. -/
theorem guestRow_cut :
    guests.reifyRow (guestRow.drop 1) = .error (.rowShape 6 5) ∧
    Ty.reifyAll? guests.types guestRow = .ofExcept (.ok guest) ∧
    guests.reifyRow guestRow =
      (do return (← Schema.reifyRow ⟨guests.columns.take 2⟩ (guestRow.take 4)) ++
        (← Schema.reifyRow ⟨guests.columns.drop 2⟩ (guestRow.drop 4))) ∧
    (Schema.single "pair" (.nullable (.product [.base entry, .nullable (.base entry)]))).reifyRow
        [.null, .null] =
      (do
        let row ←
          Schema.reifyRow ⟨[("one", .base entry), ("two", .nullable (.base entry))]⟩ [.null, .null]
        return [.tuple row]) :=
  ⟨(guests.reifyRow_cuts (guestRow.drop 1)).1 (by decide),
    ((guests.reifyRow_cuts guestRow).2 rfl).1,
    ((guests.reifyRow_cuts guestRow).2 rfl).2.1 ⟨guests.columns.take 2⟩ ⟨guests.columns.drop 2⟩
      (guestRow.take 4) (guestRow.drop 4) rfl rfl rfl,
    (((Schema.single "pair"
        (.nullable (.product [.base entry, .nullable (.base entry)]))).reifyRow_cuts
      [.null, .null]).2 rfl).2.2 "pair" _ rfl |>.1
        ⟨[("one", .base entry), ("two", .nullable (.base entry))]⟩ rfl⟩

end Sample

end FlatPlan
