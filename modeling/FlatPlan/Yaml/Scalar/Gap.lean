import FlatPlan.Yaml.Cursor

/-!
# Space inside scalars

Between two words of a plain or a quoted scalar stand blanks and line breaks. Blanks alone are kept.
With a break among them, blanks are dropped and breaks are folded: a line feed is a space, or
nothing where further breaks follow, which are kept; a separator is kept itself.
-/

namespace FlatPlan.Yaml

/-- The space between two words of a scalar. -/
structure Gap where
  /-- The blanks, as long as there is no break. -/
  blanks : List Char
  /-- Whether there is a break. -/
  broken : Bool
  /-- The first break, where it counts. -/
  first : List Char
  /-- The further breaks. -/
  further : List Char

namespace Gap

def empty : Gap := ⟨[], false, [], []⟩

/-- The gap after a break that is escaped and stands for nothing. -/
def escaped : Gap := ⟨[], true, [], []⟩

/-- What a gap stands for. -/
def text (g : Gap) : List Char :=
  if !g.broken then g.blanks
  else if g.first = ['\n'] then (if g.further.isEmpty then [' '] else g.further)
  else g.first ++ g.further

/-- A gap with one more blank. -/
def addBlank (g : Gap) (c : Char) : Gap :=
  if g.broken then g else { g with blanks := g.blanks ++ [c] }

/-- A gap with one more break. -/
def addBreak (g : Gap) (c : Char) : Gap :=
  if g.broken then { g with further := g.further ++ [c] } else ⟨[], true, [c], []⟩

/-- Read on through blanks and breaks. A tab in the indentation, which is the first `indent` columns
of a line that a break began, is an error. -/
def read? (indent : Nat) : Nat → Gap → Cursor → Option (Gap × Cursor)
  | 0, _, _ => none
  | fuel + 1, g, c =>
    match c.rest with
    | [] => some (g, c)
    | ch :: _ =>
      if isBlank ch then
        if g.broken && ch = '\t' && c.column < indent then none
        else read? indent fuel (g.addBlank ch) c.next
      else if isBreak ch then read? indent fuel (g.addBreak ch) c.next
      else some (g, c)

end Gap

end FlatPlan.Yaml
