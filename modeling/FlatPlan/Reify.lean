import FlatPlan.Schema

/-!
# Reification

A flat row holds the columns of structured values side by side. Reification cuts it into one slice
for each logical column and rebuilds the values: a structured value by its layout, a product from
its components. A structured value that may be null is null if all its columns are.
-/

namespace FlatPlan

/-- The number of columns of a base type. -/
def BaseTy.flatWidth (b : BaseTy) : Nat :=
  match b.layout with
  | some layout => layout.columns.length
  | none => 1

/-- The only value of a slice. -/
def Value.only : List Value → Except Error Value
  | v :: _ => .ok v
  | [] => .error (.rowShape 1 0)

/-- The value of a base type, with null or without it, that a slice stands for. -/
def BaseTy.reify (b : BaseTy) (orNull : Bool) (slice : List Value) : Except Error Value :=
  match b.layout with
  | some layout => if orNull && slice.all Value.isNull then .ok .null else layout.reify slice
  | none => Value.only slice

namespace Ty

mutual

/-- The number of columns of a type. -/
def flatWidth : Ty → Nat
  | .base b => b.flatWidth
  | .nullable (.base b) => b.flatWidth
  | .nullable (.product ts) => flatWidths ts
  | .product ts => flatWidths ts
  | _ => 1

/-- The number of columns of types side by side. -/
def flatWidths : List Ty → Nat
  | [] => 0
  | t :: ts => t.flatWidth + flatWidths ts

end

mutual

/-- The value that a slice of the type's width stands for. -/
def reify : Ty → List Value → Except Error Value
  | .base b, slice => b.reify false slice
  | .nullable (.base b), slice => b.reify true slice
  | .nullable (.product ts), slice => do return .tuple (← reifyAll ts slice)
  | .product ts, slice => do return .tuple (← reifyAll ts slice)
  | _, slice => Value.only slice

/-- The values that consecutive slices stand for. -/
def reifyAll : List Ty → List Value → Except Error (List Value)
  | [], _ => .ok []
  | t :: ts, row => do
    let v ← t.reify (row.take t.flatWidth)
    let vs ← reifyAll ts (row.drop t.flatWidth)
    return v :: vs

end

end Ty

namespace Schema

def types (s : Schema) : List Ty := s.columns.map Prod.snd

/-- The number of flat columns. -/
def flatWidth (s : Schema) : Nat := Ty.flatWidths s.types

/-- The values of the columns that a flat row stands for. -/
def reifyRow (s : Schema) (row : List Value) : Except Error (List Value) :=
  if row.length = s.flatWidth then Ty.reifyAll s.types row
  else .error (.rowShape s.flatWidth row.length)

/-- The values of the columns with their names. -/
def reifyRecord (s : Schema) (row : List Value) : Except Error (List (String × Value)) := do
  return s.names.zip (← s.reifyRow row)

end Schema

end FlatPlan
