import FlatPlan.Text.Hex
import FlatPlan.Yaml.Cursor

/-!
# Tags

A tag names the type of a node. It is written in full in angle brackets, or as a handle, which
stands for the beginning of the tag, and a suffix. The text of a tag is a sequence of octets, each
held in a character.
-/

namespace FlatPlan.Yaml

inductive Tag where
  | full (text : String)
  | short (handle suffix : String)

/-- The characters of a tag; a tag in angle brackets may also hold a comma and square brackets. -/
def isTagChar (full : Bool) (c : Char) : Bool :=
  isWord c || c = apostrophe || ";/?:@&=+$.%!~*()".toList.contains c ||
    (full && (c = ',' || c = '[' || c = ']'))

/-- An octet written as a percent sign and two digits. -/
def tagOctet? : List Char → Option Nat
  | '%' :: cs => (Text.hexNumber? 0 2 cs).map Prod.fst
  | _ => none

/-- The number of octets that continue a character after its first octet. -/
def continuations? (octet : Nat) : Option Nat :=
  if octet < 0x80 then some 0
  else if octet < 0xC0 then none
  else if octet < 0xE0 then some 1
  else if octet < 0xF0 then some 2
  else if octet < 0xF8 then some 3
  else none

/-- So many octets that continue a character. -/
def continued? : Nat → Cursor → Option (List Char × Cursor)
  | 0, c => some ([], c)
  | n + 1, c => do
    let octet ← tagOctet? c.rest
    if 0x80 ≤ octet ∧ octet < 0xC0 then
      let (cs, c) ← continued? n (c.skip 3)
      return (Char.ofNat octet :: cs, c)
    else none

/-- The octets of one escaped character. -/
def tagEscape? (c : Cursor) : Option (List Char × Cursor) := do
  let octet ← tagOctet? c.rest
  let (cs, c) ← continued? (← continuations? octet) (c.skip 3)
  return (Char.ofNat octet :: cs, c)

/-- The octets of a tag, and the place behind them. -/
def tagOctets? (full : Bool) : Nat → Cursor → Option (List Char × Cursor)
  | 0, _ => none
  | fuel + 1, c =>
    match c.rest with
    | [] => some ([], c)
    | ch :: _ =>
      if ch = '%' then do
        let (octets, c) ← tagEscape? c
        let (more, c) ← tagOctets? full fuel c
        return (octets ++ more, c)
      else if isTagChar full ch then do
        let (more, c) ← tagOctets? full fuel c.next
        return (ch :: more, c)
      else some ([], c)

/-- The text of octets, which an octet of zero ends. -/
def tagText (octets : List Char) : String := String.ofList (octets.takeWhile (·.toNat ≠ 0))

/-- The text of a tag or of the beginning of one, which may not be empty. -/
def tagText? (full : Bool) (c : Cursor) : Option (String × Cursor) := do
  let (octets, c) ← tagOctets? full (c.rest.length + 1) c
  if octets.isEmpty then none else return (tagText octets, c)

/-- The characters that can be a handle, with the exclamation marks around them, and the place
behind. -/
def tagHandle? (c : Cursor) : Option (List Char × Cursor) :=
  if c.isAt '!' then
    let (name, c) := c.next.takeWhile isWord
    if c.isAt '!' then some ('!' :: name ++ ['!'], c.next) else some ('!' :: name, c)
  else none

/-- Whether a handle is closed by a second exclamation mark. -/
def isClosedHandle (handle : List Char) : Bool :=
  handle.length ≠ 1 && handle.getLast? = some '!'

/-- A tag in angle brackets, given what follows them. -/
def fullTag? (c : Cursor) : Option (Tag × Cursor) := do
  let (text, c) ← tagText? true c
  if c.isAt '>' then return (.full text, c.next) else none

/-- A tag without angle brackets; an exclamation mark alone is a tag too. -/
def shortTag? (c : Cursor) : Option (Tag × Cursor) := do
  let (handle, c) ← tagHandle? c
  if isClosedHandle handle then
    let (suffix, c) ← tagText? false c
    return (.short (String.ofList handle) suffix, c)
  else
    let (octets, c) ← tagOctets? false (c.rest.length + 1) c
    let suffix := tagText (handle.drop 1 ++ octets)
    return (if suffix.isEmpty then .full "!" else .short "!" suffix, c)

/-- A tag, which ends with a word or, in flow context, before a comma. -/
def tag? (flow : Bool) (c : Cursor) : Option (Tag × Cursor) := do
  let (tag, c) ← if c.next.isAt '<' then fullTag? (c.skip 2) else shortTag? c
  if endsWord c.rest || (flow && c.isAt ',') then return (tag, c) else none

end FlatPlan.Yaml
