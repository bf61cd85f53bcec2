import FlatPlan.Text.Hex
import FlatPlan.Yaml.Scalar.Gap

/-!
# Scalars in quotes

In single quotes a quote is written twice. In double quotes a backslash begins an escape, and one at
the end of a line joins the line with the next.
-/

namespace FlatPlan.Yaml

/-- The code points of the escapes of one character. -/
def escapes : List (Char × Nat) := [
  ('0', 0), ('a', 7), ('b', 8), ('t', 9), ('\t', 9), ('n', 10), ('v', 11), ('f', 12), ('r', 13),
  ('e', 27), (' ', 32), ('"', 34), ('/', 47), ('\\', 92), ('N', 0x85), ('_', 0xA0), ('L', 0x2028),
  ('P', 0x2029)]

/-- The number of digits after the letter of an escape that gives a code point. -/
def escapeDigits (c : Char) : Option Nat :=
  if c = 'x' then some 2 else if c = 'u' then some 4 else if c = 'U' then some 8 else none

/-- The character that an escape stands for, and its length, given what follows the backslash. -/
def escape? : List Char → Option (Char × Nat)
  | [] => none
  | c :: cs =>
    match escapeDigits c with
    | none => (escapes.lookup c).map fun n => (Char.ofNat n, 1)
    | some digits => do
      let (n, _) ← Text.hexNumber? 0 digits cs
      if n < 0xD800 ∨ (0xE000 ≤ n ∧ n < 0x110000) then return (Char.ofNat n, digits + 1) else none

/-- The text of a gap in quotes, and the place behind it; a marker of a document is an error. -/
def quotedGap? (start : Gap) (c : Cursor) : Option (List Char × Cursor) := do
  let (g, c) ← Gap.read? 0 (c.rest.length + 1) start c
  if c.atDocument then none else return (g.text, c)

/-- The rest of a scalar in quotes, given what has been read, last first, and the place behind
it. -/
def quoted? (quote : Char) : Nat → List Char → Cursor → Option (String × Cursor)
  | 0, _, _ => none
  | fuel + 1, done, c =>
    match c.rest with
    | [] => none
    | ch :: cs =>
      if ch = quote then
        if quote = apostrophe && cs.head? = some apostrophe then
          quoted? quote fuel (apostrophe :: done) (c.skip 2)
        else some (String.ofList done.reverse, c.next)
      else if ch = '\\' && quote = '"' then
        if cs.head?.any isBreak then do
          let (space, c) ← quotedGap? .escaped (c.skip 2)
          quoted? quote fuel (space.reverse ++ done) c
        else do
          let (e, length) ← escape? cs
          quoted? quote fuel (e :: done) (c.skip (length + 1))
      else if isBlank ch || isBreak ch then do
        let (space, c) ← quotedGap? .empty c
        quoted? quote fuel (space.reverse ++ done) c
      else quoted? quote fuel (ch :: done) c.next

end FlatPlan.Yaml
