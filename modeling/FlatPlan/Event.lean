/-!
# Events

What the library reports while it works: each event has a level and a text.
-/

namespace FlatPlan

inductive Event where
  | numericChanged (type : String) (before after : Bool)
  | orderedChanged (type : String) (before after : Bool)
  | typeReplaced (name : String)
  | relationReplaced (name : String)
  | galaxyInstalled (name type : String)
  | galaxyReplaced (name : String)
  | galaxyProvisioned (name : String)
  | galaxyExpanded (name : String) (columns : Nat)
  | lookupJoined (operator : String) (columns : Nat)
  | queryFlattened (names : Nat)
  deriving DecidableEq, Repr

namespace Event

/-- Whether the event deserves a warning. -/
def isWarning : Event → Bool
  | .numericChanged .. | .orderedChanged .. | .galaxyReplaced _ => true
  | _ => false

def message : Event → String
  | .numericChanged type before after =>
    "Numeric capability of '" ++ type ++ "' changed from " ++ toString before ++ " to " ++
      toString after
  | .orderedChanged type before after =>
    "Ordered capability of '" ++ type ++ "' changed from " ++ toString before ++ " to " ++
      toString after
  | .typeReplaced name => "Replaced registered type '" ++ name ++ "'"
  | .relationReplaced name => "Replaced registered relation '" ++ name ++ "'"
  | .galaxyInstalled name type => "Installing galaxy '" ++ name ++ "' of type " ++ type
  | .galaxyReplaced name => "Galaxy '" ++ name ++ "' re-registered; previous definition replaced"
  | .galaxyProvisioned name => "Provisioning galaxy '" ++ name ++ "'"
  | .galaxyExpanded name columns =>
    "Expanded galaxy '" ++ name ++ "' into " ++ toString columns ++ " column(s)"
  | .lookupJoined operator columns =>
    "Operator '" ++ operator ++ "' joins a lookup over " ++ toString columns ++ " column(s)"
  | .queryFlattened names => "Flattened query using " ++ toString names ++ " fresh name(s)"

/-- The line that reports an event. -/
def line (e : Event) : String :=
  (if e.isWarning then "WARN " else "DEBUG ") ++ e.message

end Event

end FlatPlan
