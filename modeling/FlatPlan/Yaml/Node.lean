import FlatPlan.NameMap
import FlatPlan.Yaml.Scalar

/-!
# Nodes and anchors

A node is a scalar or a reference to the node that an anchor names. An anchor is given a number when
it is read: how many names are known by then. A name that is read again so gets a number that the
next anchor gets as well. A reference stands for the last node with the number that its name has
where the reference is read, be that node in front of it or behind it.
-/

namespace FlatPlan.Yaml

/-- A key or a value. -/
inductive Node where
  | scalar (s : Scalar)
  /-- The node with that number. -/
  | reference (number : Nat)

/-- The node where nothing is written. -/
def Node.missing : Node := .scalar (.missing none)

/-- The anchors of a document. -/
structure Anchors where
  /-- The numbers of the names. -/
  numbers : NameMap Nat
  /-- The nodes with a number, last first; those that are no scalar have no content here. -/
  nodes : List (Nat × Option Scalar)

namespace Anchors

def empty : Anchors := ⟨.empty, []⟩

/-- Put an anchor, if there is one, on a node. -/
def add (a : Anchors) (name : Option String) (node : Option Scalar) : Anchors :=
  match name with
  | none => a
  | some name =>
    let number := a.numbers.size
    ⟨a.numbers.insert name number, (number, node) :: a.nodes⟩

/-- A reference to the node that a name stands for. -/
def reference? (a : Anchors) (name : String) : Option Node :=
  (a.numbers.find? name).map .reference

/-- The scalar that a node is or refers to. -/
def scalar? (a : Anchors) : Node → Option Scalar
  | .scalar s => some s
  | .reference number => (a.nodes.lookup number).join

end Anchors

end FlatPlan.Yaml
