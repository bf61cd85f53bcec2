/-!
# Setup procedures

A setup procedure prepares a database for a galaxy: it executes statements one after another, and it
may go on in different ways as they succeed or fail.
-/

namespace FlatPlan

/-- A procedure that executes statements on a database. -/
inductive Setup where
  /-- Nothing is left to execute. -/
  | done
  /-- The procedure gives up for that reason. -/
  | fail (reason : String)
  /-- Execute a statement and go on as its outcome says. -/
  | execute (statement : String) (next : Except String Unit → Setup)

namespace Setup

/-- Execute statements in order, up to the first failure. -/
def ofStatements : List String → Setup
  | [] => .done
  | statement :: statements => .execute statement fun outcome =>
    match outcome with
    | .ok () => ofStatements statements
    | .error reason => .fail reason

instance : Coe (List String) Setup := ⟨ofStatements⟩

end Setup

end FlatPlan
