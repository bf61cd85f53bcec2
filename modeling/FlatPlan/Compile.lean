import FlatPlan.Flatten
import FlatPlan.Settings

/-!
# Compilation

The whole way of a query: check it if the settings say so, then flatten it under fresh names. Where
no rules are given, no rule has a name.
-/

namespace FlatPlan

instance : CoeTail TypeCheck Regime := ⟨fun check => ⟨check, .none⟩⟩

/-- Flatten a query from a new name generator, after checking it if the settings say so. -/
def Query.compile (capabilities : Capabilities) (settings : Settings) (q : Query)
    (rules : Rules := .none) : Except Error (Query × Environment) × List Event :=
  let checked :=
    if settings.checkTypes then (q.checkSchema capabilities).map (fun _ => ()) else .ok ()
  match checked with
  | .error e => (.error e, [])
  | .ok () =>
    match (q.flatten ⟨⟨false, capabilities⟩, rules⟩).runFrom ⟨.start settings.freshStem, []⟩ with
    | (.ok result, s) => (.ok result, s.events ++ [.queryFlattened s.names.issued])
    | (.error e, s) => (.error e, s.events)

end FlatPlan
