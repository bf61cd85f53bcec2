import FlatPlan.Text.Visible

/-!
# Structural text

The pieces of the text that shows a value with its constructors: quoted strings, lists in brackets,
constructors with positional or named fields.
-/

namespace FlatPlan.Text

/-- The characters that stand for one character inside quotes. -/
def dumpChar (c : Char) : List Char :=
  if c.toNat = 0 then ['\\', '0']
  else if c = '\t' then ['\\', 't']
  else if c = '\r' then ['\\', 'r']
  else if c = '\n' then ['\\', 'n']
  else if c = '\\' then ['\\', '\\']
  else if c = '"' then ['\\', '"']
  else if isVisible c then [c]
  else ['\\', 'u', '\x7b'] ++ Nat.toDigits 16 c.toNat ++ ['\x7d']

/-- A string in quotes; what is not visible is written by its code point. -/
def dumpString (s : String) : String :=
  "\"" ++ String.ofList (s.toList.flatMap dumpChar) ++ "\""

def dumpBool (b : Bool) : String := if b then "true" else "false"

def dumpList (items : List String) : String := "[" ++ ", ".intercalate items ++ "]"

def dumpPair (first second : String) : String := "(" ++ first ++ ", " ++ second ++ ")"

/-- A constructor with positional fields. -/
def dumpCall (name : String) (args : List String) : String :=
  name ++ "(" ++ ", ".intercalate args ++ ")"

/-- A constructor with named fields. -/
def dumpFields (name : String) (fields : List (String × String)) : String :=
  name ++ " \x7b " ++ ", ".intercalate (fields.map fun f => f.1 ++ ": " ++ f.2) ++ " \x7d"

/-- A constructor with named fields of which some are not shown. -/
def dumpSomeFields (name : String) (fields : List (String × String)) : String :=
  name ++ " \x7b " ++ ", ".intercalate (fields.map fun f => f.1 ++ ": " ++ f.2) ++ ", .. \x7d"

end FlatPlan.Text
