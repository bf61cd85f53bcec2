import FlatPlan.Yaml.Scalar.Block
import FlatPlan.Yaml.Scalar.Plain
import FlatPlan.Yaml.Scalar.Quoted
import FlatPlan.Yaml.Token

/-!
# Cutting a text into tokens

Only the colon behind it shows that a scalar is a key. So the lexer remembers the place of a scalar
that can be one, and puts the tokens that announce a key, and perhaps a mapping, in front of it when
the colon comes. Such a key ends on the line it begins on, within 1024 characters. In a block
mapping whatever stands in the column of the keys has to be a key.
-/

namespace FlatPlan.Yaml

/-- A node that turns out to be a key if a colon follows. -/
structure KeyCandidate where
  /-- The number of tokens in front of it. -/
  position : Nat
  index : Nat
  line : Nat
  column : Nat
  /-- Whether a colon has to follow. -/
  required : Bool

/-- What has been cut off a text, and what is known at the place where the rest begins. -/
structure Lexer where
  cursor : Cursor
  /-- The tokens so far, last first. -/
  tokens : List Token
  /-- The column of the block mapping that is open. -/
  block : Option Nat
  /-- Whether a flow mapping is open. -/
  flow : Bool
  /-- Whether a key may begin here. -/
  keyAllowed : Bool
  candidate : Option KeyCandidate

namespace Lexer

def start (cs : List Char) : Lexer := ⟨.start cs, [], none, false, true, none⟩

def push (s : Lexer) (t : Token) : Lexer := { s with tokens := t :: s.tokens }

/-- Take one token of so many characters. -/
def take (s : Lexer) (t : Token) (length : Nat) : Lexer :=
  { s with cursor := s.cursor.skip length, tokens := t :: s.tokens }

def allowKey (s : Lexer) (allowed : Bool) : Lexer := { s with keyAllowed := allowed }

/-- Skip space and comments. A byte order mark at the start of a line is skipped. A tab is no space
in block context where a key may begin. A new line in block context may begin with a key. -/
def skipSpace? : Nat → Lexer → Option Lexer
  | 0, _ => none
  | fuel + 1, s =>
    let c := s.cursor
    let c := if c.column = 0 && c.rest.head?.any isOrderMark then c.next else c
    let c := c.skipWhile fun ch => ch = ' ' || ((s.flow || !s.keyAllowed) && ch = '\t')
    let c := if c.isAt '#' then c.skipWhile (!isBreak ·) else c
    if c.rest.head?.any isBreak then
      skipSpace? fuel { s with cursor := c.next, keyAllowed := s.keyAllowed || !s.flow }
    else some { s with cursor := c }

/-- Forget the candidate for a key; one that has to be a key is an error. -/
def dropCandidate? (s : Lexer) : Option Lexer :=
  if s.candidate.any (·.required) then none else some { s with candidate := none }

/-- Whether the place is beyond the reach of a candidate for a key. -/
def isBeyond (c : Cursor) (k : KeyCandidate) : Bool := k.line < c.line || k.index + 1024 < c.index

/-- Forget a candidate that is out of reach. -/
def dropBeyond? (s : Lexer) : Option Lexer :=
  if s.candidate.any (isBeyond s.cursor) then s.dropCandidate? else some s

/-- Remember this place as that of a candidate for a key, if a key may begin here. -/
def saveCandidate? (s : Lexer) : Option Lexer :=
  if s.keyAllowed then do
    let s ← s.dropCandidate?
    let c := s.cursor
    let required := !s.flow && s.block = some c.column
    return { s with candidate := some ⟨s.tokens.length, c.index, c.line, c.column, required⟩ }
  else some s

/-- Close the block mapping. -/
def closeBlock (s : Lexer) : Lexer :=
  if s.block.isSome then { s.push .blockEnd with block := none } else s

/-- Close the block mapping if the place is to the left of its column. -/
def closeLeft (s : Lexer) : Lexer :=
  if s.block.any (s.cursor.column < ·) then s.closeBlock else s

/-- Put tokens behind the first `position` ones. -/
def insert (s : Lexer) (position : Nat) (ts : List Token) : Lexer :=
  let count := s.tokens.length - position
  { s with tokens := s.tokens.take count ++ ts.reverse ++ s.tokens.drop count }

/-- Open a block mapping with a key or a value in the given column, behind the first `position`
tokens, if none is open. One inside another is an error. -/
def openBlock? (s : Lexer) (position column : Nat) : Option Lexer :=
  if s.flow then some s
  else
    match s.block with
    | none => some { s.insert position [.blockStart] with block := some column }
    | some outer => if outer < column then none else some s

/-- End whatever is open in front of a directive or a marker, or at the end of the text. -/
def endDocument? (s : Lexer) : Option Lexer := do
  let s ← s.closeBlock.dropCandidate?
  return s.allowKey false

/-- Open a block mapping at a sign that may only stand where a key may begin. -/
def openAtSign? (s : Lexer) : Option Lexer :=
  if s.flow then some s
  else if s.keyAllowed then s.openBlock? s.tokens.length s.cursor.column
  else none

/-- The question mark in front of a key. -/
def keySign? (s : Lexer) : Option Lexer := do
  let s ← s.openAtSign?
  let s ← s.dropCandidate?
  return (s.take .key 1).allowKey !s.flow

/-- The colon in front of a value. -/
def valueSign? (s : Lexer) : Option Lexer :=
  match s.candidate with
  | some k => do
    let s ← (s.insert k.position [.key]).openBlock? k.position k.column
    return { s.take .value 1 with candidate := none, keyAllowed := false }
  | none => do
    let s ← s.openAtSign?
    return (s.take .value 1).allowKey !s.flow

/-- The name of an anchor, given what follows its sign. -/
def anchorName? (c : Cursor) : Option (String × Cursor) :=
  let (name, c) := c.takeWhile isWord
  let ended := endsWord c.rest || c.rest.head?.any "?:,]\x7d%@\x60".toList.contains
  if name.isEmpty || !ended then none else some (String.ofList name, c)

/-- A token that can begin a key. -/
def node? (s : Lexer) (read : Cursor → Option (Token × Cursor)) : Option Lexer := do
  let s ← s.saveCandidate?
  let (token, c) ← read s.cursor
  return { s.push token with cursor := c, keyAllowed := false }

/-- A scalar without quotes. -/
def plainNode? (s : Lexer) : Option Lexer := do
  let s ← s.saveCandidate?
  let c := s.cursor
  let p ← plain? s.flow (s.block.elim 0 (· + 1)) (c.rest.length + 1) [] .empty c
  return { s.push (.scalar p.text .plain) with cursor := p.cursor, keyAllowed := p.broken }

/-- A block scalar, which cannot be a key. -/
def blockNode? (s : Lexer) (literal : Bool) : Option Lexer := do
  let s ← s.dropCandidate?
  let (text, c) ← block? literal s.block s.cursor.next
  let style := if literal then Style.literal else .folded
  return { s.push (.scalar text style) with cursor := c, keyAllowed := true }

/-- A marker of a document. -/
def marker? (s : Lexer) (t : Token) : Option Lexer := do
  let s ← s.endDocument?
  return s.take t 3

def directiveLine? (s : Lexer) : Option Lexer := do
  let s ← s.endDocument?
  let (d, c) ← directive? s.cursor.next
  return { s.push (.directive d) with cursor := c }

/-- The start of a flow mapping, which may not stand inside another mapping. -/
def openFlow? (s : Lexer) : Option Lexer :=
  if s.flow || s.block.isSome then none
  else some { s.take .flowStart 1 with flow := true, keyAllowed := true, candidate := none }

/-- The end of a flow mapping. -/
def closeFlow? (s : Lexer) : Option Lexer :=
  if s.flow then
    some { s.take .flowEnd 1 with flow := false, keyAllowed := false, candidate := none }
  else none

/-- The comma behind an entry of a flow mapping. -/
def comma? (s : Lexer) : Option Lexer :=
  if s.flow then some { s.take .comma 1 with keyAllowed := true, candidate := none } else none

/-- The token that begins with the given character, which is the next one, before the given rest. -/
def token? (s : Lexer) (ch : Char) (cs : List Char) : Option Lexer :=
  let c := s.cursor
  if c.column = 0 && ch = '%' then s.directiveLine?
  else if c.atMarker '-' then s.marker? .documentStart
  else if c.atMarker '.' then s.marker? .documentEnd
  else if ch = '\x7b' then s.openFlow?
  else if ch = '\x7d' then s.closeFlow?
  else if ch = ',' then s.comma?
  else if ch = '?' && (s.flow || endsWord cs) then s.keySign?
  else if ch = ':' && (s.flow || endsWord cs) then s.valueSign?
  else if ch = '*' then
    s.node? fun c => (anchorName? c.next).map fun (name, c) => (.reference name, c)
  else if ch = '&' then s.node? fun c => (anchorName? c.next).map fun (name, c) => (.anchor name, c)
  else if ch = '!' then s.node? fun c => (tag? s.flow c).map fun (tag, c) => (.tag tag, c)
  else if ch = '|' && !s.flow then s.blockNode? true
  else if ch = '>' && !s.flow then s.blockNode? false
  else if ch = apostrophe || ch = '"' then
    s.node? fun c => (quoted? ch (cs.length + 1) [] c.next).map fun (text, c) =>
      (.scalar text .quoted, c)
  else if startsPlain s.flow (ch :: cs) then s.plainNode?
  else none

/-- Cut off all tokens of the rest, and answer all tokens in order. -/
def run? : Nat → Lexer → Option (List Token)
  | 0, _ => none
  | fuel + 1, s => do
    let s ← s.skipSpace? (s.cursor.rest.length + 1)
    let s ← s.dropBeyond?
    let s := s.closeLeft
    match s.cursor.rest with
    | [] => return (← s.endDocument?).tokens.reverse
    | ch :: cs => run? fuel (← s.token? ch cs)

end Lexer

/-- The tokens of a text. -/
def tokens? (text : String) : Option (List Token) :=
  let cs := text.toList
  if cs.all isAllowed then
    let cs := normalizeBreaks cs
    Lexer.run? (cs.length + 1) (.start cs)
  else none

end FlatPlan.Yaml
