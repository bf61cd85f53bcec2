import FlatPlan.NameMap
import FlatPlan.Yaml.Tag

/-!
# Directives

A directive stands on a line in front of a document. It gives the version of the format, or says
what a handle in tags stands for.
-/

namespace FlatPlan.Yaml

inductive Directive where
  | version (major minor : Nat)
  | handle (name stem : String)

/-- The number in a version, of at most nine digits. -/
def versionNumber? (c : Cursor) : Option (Nat × Cursor) :=
  let (digits, c) := c.takeWhile Char.isDigit
  if digits.isEmpty || 9 < digits.length then none
  else some (digits.foldl (fun n d => n * 10 + (d.toNat - '0'.toNat)) 0, c)

def versionDirective? (c : Cursor) : Option (Directive × Cursor) := do
  let (major, c) ← versionNumber? c
  if c.isAt '.' then
    let (minor, c) ← versionNumber? c.next
    return (.version major minor, c)
  else none

def handleDirective? (c : Cursor) : Option (Directive × Cursor) := do
  let (handle, c) ← tagHandle? c
  if (handle = ['!'] || isClosedHandle handle) && c.rest.head?.any isBlank then
    let (stem, c) ← tagText? true (c.skipWhile isBlank)
    if endsWord c.rest then return (.handle (String.ofList handle) stem, c) else none
  else none

/-- A directive, given what follows its percent sign, and the end of its line. -/
def directive? (c : Cursor) : Option (Directive × Cursor) := do
  let (name, c) := c.takeWhile isWord
  let values := c.skipWhile isBlank
  if !endsWord c.rest then none
  else
    let (directive, c) ←
      if name = "YAML".toList then versionDirective? values
      else if name = "TAG".toList then handleDirective? values
      else none
    return (directive, ← c.lineEnd?)

/-- What the directives of a document say. -/
structure Preamble where
  /-- Whether a version is given. -/
  versioned : Bool
  /-- What handles stand for. -/
  handles : NameMap String

namespace Preamble

def empty : Preamble := ⟨false, .empty⟩

/-- Take in a directive. A version other than 1.1 and 1.2 is refused, and so is to say a thing
twice. -/
def add? (p : Preamble) : Directive → Option Preamble
  | .version major minor =>
    if p.versioned || major ≠ 1 || (minor ≠ 1 && minor ≠ 2) then none
    else some { p with versioned := true }
  | .handle name stem =>
    if (p.handles.find? name).isSome then none
    else some { p with handles := p.handles.insert name stem }

/-- What a handle stands for; two of them need not be declared. -/
def stem? (p : Preamble) (handle : String) : Option String :=
  (p.handles.find? handle).or
    (if handle = "!" then some "!"
    else if handle = "!!" then some "tag:yaml.org,2002:"
    else none)

/-- The text of a tag. -/
def tagText? (p : Preamble) : Tag → Option String
  | .full text => some text
  | .short handle suffix => (p.stem? handle).map (· ++ suffix)

end Preamble

end FlatPlan.Yaml
