import FlatPlan.Ty

/-!
# Schemas

The columns of a relation, by name and type, in order. A name that occurs twice means its first
column.
-/

namespace FlatPlan

/-- A column with its name and type. -/
abbrev Column := String × Ty

/-- The columns of a relation in order. -/
structure Schema where
  columns : List Column
  deriving Inhabited

namespace Schema

def empty : Schema := ⟨[]⟩

/-- The schema of one column. -/
def single (name : String) (type : Ty) : Schema := ⟨[(name, type)]⟩

/-- The type of the first column of that name. -/
def get? (s : Schema) (name : String) : Option Ty := s.columns.lookup name

def contains (s : Schema) (name : String) : Bool := (s.get? name).isSome

/-- Add a column at the end. -/
def push (s : Schema) (name : String) (type : Ty) : Schema := ⟨s.columns ++ [(name, type)]⟩

def width (s : Schema) : Nat := s.columns.length

def isEmpty (s : Schema) : Bool := s.columns.isEmpty

def names (s : Schema) : List String := s.columns.map Prod.fst

/-- Whether two schemas have the same names and types in the same order. -/
def same (s t : Schema) : Bool := sameColumns s.columns t.columns
where
  sameColumns : List Column → List Column → Bool
    | [], [] => true
    | (m, a) :: as, (n, b) :: bs => m == n && a == b && sameColumns as bs
    | _, _ => false

instance : BEq Schema := ⟨same⟩

/-- The text of a schema. -/
def text (s : Schema) : String :=
  "\x7b" ++ ", ".intercalate (s.columns.map fun c => c.1 ++ ": " ++ c.2.text) ++ "\x7d"

/-- The structural text of a schema. -/
def dump (s : Schema) : String :=
  Text.dumpFields "Schema" [("columns", Text.dumpList (s.columns.map fun c =>
    Text.dumpFields "Column" [("name", Text.dumpString c.1), ("ty", c.2.dump)]))]

end Schema

namespace Layout

/-- The columns of a layout as a schema. -/
def schema (l : Layout) : Schema := ⟨l.columns⟩

/-- The structural text of a layout. -/
def dump (l : Layout) : String := Text.dumpSomeFields "DbTypeData" [("schema", l.schema.dump)]

end Layout

end FlatPlan
