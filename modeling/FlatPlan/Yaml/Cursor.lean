/-!
# Places in a YAML text

A cursor is a place in a text: what is left of it, and the line and column that the place is in. A
line ends in a line feed or in one of the two separators; the other breaks are line feeds once
`normalizeBreaks` has been applied.
-/

namespace FlatPlan.Yaml

/-- Whether a character may stand in a text. -/
def isAllowed (c : Char) : Bool :=
  let n := c.toNat
  n = 9 || n = 10 || n = 13 || (32 ≤ n && n ≤ 126) || n = 0x85 || (0xA0 ≤ n && n ≤ 0xFFFD) ||
    0x10000 ≤ n

/-- Write a carriage return, with or without a line feed, and a next-line character as a line
feed. -/
def normalizeBreaks : List Char → List Char
  | [] => []
  | '\r' :: '\n' :: cs => '\n' :: normalizeBreaks cs
  | c :: cs => (if c = '\r' ∨ c.toNat = 0x85 then '\n' else c) :: normalizeBreaks cs

def isBlank (c : Char) : Bool := c = ' ' || c = '\t'

/-- Whether a character ends a line: a line feed, a line separator or a paragraph separator. -/
def isBreak (c : Char) : Bool := c = '\n' || c.toNat = 0x2028 || c.toNat = 0x2029

/-- The characters of names. -/
def isWord (c : Char) : Bool := c.isAlphanum || c = '_' || c = '-'

/-- The byte order mark. -/
def isOrderMark (c : Char) : Bool := c.toNat = 0xFEFF

def apostrophe : Char := Char.ofNat 39

/-- Whether a line ends before the rest. -/
def endsLine : List Char → Bool
  | [] => true
  | c :: _ => isBreak c

/-- Whether a word ends before the rest. -/
def endsWord : List Char → Bool
  | [] => true
  | c :: _ => isBlank c || isBreak c

/-- A place in a text: the rest of the text, and how many characters, lines and columns precede
it. -/
structure Cursor where
  rest : List Char
  index : Nat
  line : Nat
  column : Nat

namespace Cursor

/-- The start of a text. -/
def start (cs : List Char) : Cursor := ⟨cs, 0, 0, 0⟩

/-- The place behind the next character. -/
def next : Cursor → Cursor
  | ⟨[], index, line, column⟩ => ⟨[], index, line, column⟩
  | ⟨c :: cs, index, line, column⟩ =>
    if isBreak c then ⟨cs, index + 1, line + 1, 0⟩ else ⟨cs, index + 1, line, column + 1⟩

/-- The place so many characters on. -/
def skip : Nat → Cursor → Cursor
  | 0, c => c
  | n + 1, c => skip n c.next

/-- Skip the characters that satisfy a condition. -/
def skipWhile (p : Char → Bool) (c : Cursor) : Cursor := c.skip (c.rest.takeWhile p).length

/-- The characters that satisfy a condition, and the place behind them. -/
def takeWhile (p : Char → Bool) (c : Cursor) : List Char × Cursor :=
  (c.rest.takeWhile p, c.skipWhile p)

/-- Whether the next character is the given one. -/
def isAt (c : Cursor) (ch : Char) : Bool := c.rest.head? = some ch

/-- Skip the end of a line, which may hold a comment, and its break. -/
def lineEnd? (c : Cursor) : Option Cursor :=
  let c := c.skipWhile isBlank
  let c := if c.isAt '#' then c.skipWhile (!isBreak ·) else c
  if endsLine c.rest then some c.next else none

/-- Whether a marker that begins or ends a document stands here. -/
def atMarker (c : Cursor) (mark : Char) : Bool :=
  c.column = 0 && c.rest.take 3 = [mark, mark, mark] && endsWord (c.rest.drop 3)

/-- Whether a document begins or ends here. -/
def atDocument (c : Cursor) : Bool := c.atMarker '-' || c.atMarker '.'

end Cursor

end FlatPlan.Yaml
