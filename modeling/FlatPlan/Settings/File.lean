import FlatPlan.Settings
import FlatPlan.Yaml.Mapping

/-!
# Settings in a file

Settings are written as a mapping with the optional fields `fresh_prefix`, a text, and
`check_types`, a truth value.
-/

namespace FlatPlan.Settings

/-- The tag of truth values. -/
def truthTag : String := "tag:yaml.org,2002:bool"

/-- Whether a scalar may be a truth value: a plain word, or a literal block with the tag of truth
values. -/
def mayBeTruth (s : Yaml.Scalar) : Bool :=
  s.style = .plain || (s.style = .literal && s.tag = some truthTag)

/-- The truth value of a scalar. -/
def truth? (s : Yaml.Scalar) : Option Bool :=
  if !mayBeTruth s then none
  else if s.text = "true" || s.text = "True" || s.text = "TRUE" then some true
  else if s.text = "false" || s.text = "False" || s.text = "FALSE" then some false
  else none

/-- The fields read so far. -/
structure Fields where
  freshStem : Option String
  checkTypes : Option Bool

/-- Take in a field; an unknown or a second one is refused. -/
def Fields.add? (f : Fields) (name : String) (value : Yaml.Scalar) : Option Fields :=
  if name = "fresh_prefix" then
    if f.freshStem.isSome then none else some { f with freshStem := some value.text }
  else if name = "check_types" then
    if f.checkTypes.isSome then none
    else (truth? value).map fun b => { f with checkTypes := some b }
  else none

/-- The settings of fields, the standard ones where a field is missing. -/
def Fields.settings (f : Fields) : Settings :=
  ⟨f.freshStem.getD standard.freshStem, f.checkTypes.getD standard.checkTypes⟩

/-- The fields of the entries of a mapping. -/
def Fields.ofEntries? (entries : List (String × Yaml.Scalar)) : Option Fields :=
  entries.foldlM (fun (f : Fields) entry => f.add? entry.1 entry.2) ⟨none, none⟩

/-- Read settings. -/
def parse (text : String) : Except Fault Settings :=
  match (Yaml.mapping? text).bind Fields.ofEntries? with
  | some fields => fields.settings.validate
  | none => .error .malformed

/-- What is found at a path. -/
inductive FileContent where
  | missing
  /-- Something that cannot be read as a file. -/
  | unreadable
  | bytes (bs : ByteArray)

/-- Read the settings in a file. -/
def load (path : String) : FileContent → Except Fault Settings
  | .missing => .error (.notFound path)
  | .unreadable => .error (.unreadable path)
  | .bytes bs =>
    match String.fromUTF8? bs with
    | some text => parse text
    | none => .error (.unreadable path)

end FlatPlan.Settings
