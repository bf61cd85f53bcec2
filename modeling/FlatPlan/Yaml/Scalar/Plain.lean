import FlatPlan.Yaml.Scalar.Gap

/-!
# Scalars without quotes

A plain scalar goes on until a colon that ends a word, a comment, a line that is not indented enough
or, in flow context, a mark of the flow mapping.
-/

namespace FlatPlan.Yaml

/-- The brackets and the comma that structure a flow mapping. -/
def isFlowMark (c : Char) : Bool :=
  c = ',' || c = '[' || c = ']' || c = '\x7b' || c = '\x7d'

/-- The other characters that a plain scalar cannot begin with. -/
def isSign (c : Char) : Bool :=
  ['-', '?', ':', '#', '&', '*', '!', '|', '>', apostrophe, '"', '%', '@', '\x60'].contains c

/-- Whether a plain scalar can begin here. -/
def startsPlain (flow : Bool) : List Char → Bool
  | [] => false
  | c :: cs =>
    if c = '-' then !endsWord cs
    else if c = '?' || c = ':' then !flow && !endsWord cs
    else !(isBlank c || isBreak c || isFlowMark c || isSign c)

/-- The characters of a plain scalar up to the next space or its end. In flow context a colon right
before a mark is an error. -/
def plainWord? (flow : Bool) : List Char → Option (List Char)
  | [] => some []
  | c :: cs =>
    if isBlank c || isBreak c then some []
    else if flow && c = ':' && cs.head?.any (fun d => isFlowMark d || d = '?') then none
    else if (c = ':' && endsWord cs) || (flow && isFlowMark c) then some []
    else (plainWord? flow cs).map (c :: ·)

/-- A plain scalar that has been read. -/
structure PlainText where
  text : String
  /-- Whether a line break follows it. -/
  broken : Bool
  /-- The place behind it and the space after it. -/
  cursor : Cursor

/--
The rest of a plain scalar, given what has been read, last first, and the gap behind that. In block
context its lines are indented by `indent` at least. -/
def plain? (flow : Bool) (indent : Nat) : Nat → List Char → Gap → Cursor → Option PlainText
  | 0, _, _, _ => none
  | fuel + 1, done, gap, c =>
    if c.atDocument || c.isAt '#' then some ⟨String.ofList done.reverse, gap.broken, c⟩
    else do
      let word ← plainWord? flow c.rest
      if word.isEmpty then return ⟨String.ofList done.reverse, gap.broken, c⟩
      else
        let done := word.reverse ++ gap.text.reverse ++ done
        let (gap, c) ← Gap.read? indent (c.rest.length + 1) .empty (c.skip word.length)
        if !flow && c.column < indent then return ⟨String.ofList done.reverse, gap.broken, c⟩
        else plain? flow indent fuel done gap c

end FlatPlan.Yaml
