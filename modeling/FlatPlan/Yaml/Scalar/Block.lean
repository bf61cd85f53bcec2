import FlatPlan.Yaml.Cursor
import FlatPlan.Yaml.Scalar

/-!
# Block scalars

A block scalar is written on lines of its own, all indented by the same number of columns. A literal
one keeps its breaks. In a folded one a break between two lines that do not begin with a blank is a
space, or nothing where empty lines follow.
-/

namespace FlatPlan.Yaml

/-- How the end of a block is cut. -/
inductive Chomp where
  /-- No break is kept. -/
  | strip
  /-- The break of the last line is kept. -/
  | clip
  /-- The empty lines at the end are kept too. -/
  | keep
  deriving DecidableEq

/-- How the end of a block is cut, and by how much it is said to be indented. -/
structure BlockHeader where
  chomp : Chomp
  indent : Option Nat

def chomp? (c : Char) : Option Chomp :=
  if c = '+' then some .keep else if c = '-' then some .strip else none

/-- The mark for how the end is cut, if it stands here. -/
def chompMark (c : Cursor) : Option Chomp × Cursor :=
  match c.rest.head?.bind chomp? with
  | some chomp => (some chomp, c.next)
  | none => (none, c)

/-- The digit for the indentation, if it stands here; it may not be zero. -/
def indentMark? (c : Cursor) : Option (Option Nat × Cursor) :=
  match c.rest with
  | ch :: _ =>
    if ch = '0' then none
    else if ch.isDigit then some (some (ch.toNat - '0'.toNat), c.next)
    else some (none, c)
  | [] => some (none, c)

/-- The marks behind the sign of a block, of either kind one at most, and the end of their line. -/
def blockHeader? (c : Cursor) : Option (BlockHeader × Cursor) := do
  let (before, c) := chompMark c
  let (indent, c) ← indentMark? c
  let (after, c) := if before.isNone && indent.isSome then chompMark c else (none, c)
  return (⟨(before.or after).getD .clip, indent⟩, ← c.lineEnd?)

/-- Skip spaces, up to the column `indent` if it is known. -/
def skipIndent (indent : Option Nat) (c : Cursor) : Cursor :=
  let spaces := (c.rest.takeWhile (· = ' ')).length
  match indent with
  | some n => c.skip (min spaces (n - c.column))
  | none => c.skip spaces

/-- The breaks of empty lines, from the start of a line: the widest indentation seen, the breaks,
and the place where the indentation of a line with content ends. A tab in the indentation is an
error. -/
def blockBreaks? (indent : Option Nat) :
    Nat → Nat → List Char → Cursor → Option (Nat × List Char × Cursor)
  | 0, _, _, _ => none
  | fuel + 1, widest, breaks, c =>
    let c := skipIndent indent c
    let widest := max widest c.column
    match c.rest with
    | [] => some (widest, breaks, c)
    | ch :: _ =>
      if ch = '\t' && indent.all (c.column < ·) then none
      else if isBreak ch then blockBreaks? indent fuel widest (breaks ++ [ch]) c.next
      else some (widest, breaks, c)

/-- The text of a block so far. -/
structure BlockText where
  /-- What has been read of it. -/
  done : List Char
  /-- The break of its last line. -/
  first : List Char
  /-- The breaks of the empty lines after that. -/
  further : List Char
  /-- Whether its last line begins with a blank. -/
  loose : Bool

namespace BlockText

/-- What the breaks between the last line and the next one stand for. -/
def between (t : BlockText) (literal loose : Bool) : List Char :=
  if !literal && t.first = ['\n'] && !t.loose && !loose then
    if t.further.isEmpty then [' '] else t.further
  else t.first ++ t.further

/-- The text with its end cut. -/
def cut (t : BlockText) : Chomp → List Char
  | .strip => t.done
  | .clip => t.done ++ t.first
  | .keep => t.done ++ t.first ++ t.further

/-- Read on through the lines of a block with content in column `indent`. -/
def read? (literal : Bool) (indent : Nat) : Nat → BlockText → Cursor → Option (BlockText × Cursor)
  | 0, _, _ => none
  | fuel + 1, t, c =>
    if c.rest.isEmpty || c.column ≠ indent then some (t, c)
    else do
      let loose := c.rest.head?.any isBlank
      let (line, c) := c.takeWhile (!isBreak ·)
      let (_, further, below) ← blockBreaks? (some indent) (c.rest.length + 1) 0 [] c.next
      read? literal indent fuel
        ⟨t.done ++ t.between literal loose ++ line, c.rest.take 1, further, loose⟩ below

end BlockText

/-- A block scalar, given what follows its sign, and the place behind it. Its lines are indented
more than `parent`, the column of the mapping around it; without a mark, by as much as the widest of
the empty lines before the first line with content and that line itself. -/
def block? (literal : Bool) (parent : Option Nat) (c : Cursor) : Option (String × Cursor) := do
  let (header, c) ← blockHeader? c
  let given := header.indent.map (parent.getD 0 + ·)
  let (widest, breaks, c) ← blockBreaks? given (c.rest.length + 1) 0 [] c
  let indent := given.getD (max widest (max (parent.elim 0 (· + 1)) 1))
  let (t, c) ← BlockText.read? literal indent (c.rest.length + 1) ⟨[], [], breaks, false⟩ c
  return (String.ofList (t.cut header.chomp), c)

end FlatPlan.Yaml
