import FlatPlan.Error
import FlatPlan.Event
import FlatPlan.Flatten.Names

/-!
# The state of a flattening

Flattening draws fresh names and reports events. What it has drawn and reported stays so if it
fails.
-/

namespace FlatPlan

/-- The name generator, and the events reported so far. -/
structure PassState where
  names : FreshNames
  events : List Event

/-- A computation that draws names, reports events, and may fail. -/
abbrev Pass := ExceptT Error (StateM PassState)

namespace Pass

variable {α : Type}

/-- A result that needs no state. -/
def ofExcept (r : Except Error α) : Pass α := ExceptT.mk (pure r)

/-- Draw a name. -/
def fresh : Pass String := ExceptT.mk fun s =>
  let (name, names) := s.names.fresh
  (.ok name, { s with names })

/-- Report an event. -/
def report (e : Event) : Pass Unit := ExceptT.mk fun s =>
  (.ok (), { s with events := s.events ++ [e] })

/-- Run from a state; the state after it comes back in any case. -/
def runFrom (p : Pass α) (s : PassState) : Except Error α × PassState := p.run.run s

end Pass

end FlatPlan
