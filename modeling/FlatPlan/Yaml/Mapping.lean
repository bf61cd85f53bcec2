import FlatPlan.Yaml.Node
import FlatPlan.Yaml.Token.Lexer

/-!
# Mappings of scalars in YAML

`Yaml.mapping?` reads a text that holds one mapping from names to scalars, in block form or in flow
form, or nothing at all. A text that holds anything else is refused.
-/

namespace FlatPlan.Yaml

/-- The anchor and the tag in front of a node. -/
structure Properties where
  anchor : Option String
  tag : Option Tag

/-- Whether there is an anchor or a tag. -/
def Properties.any (p : Properties) : Bool := p.anchor.isSome || p.tag.isSome

/-- The properties at the head of the tokens, and the rest. -/
def properties : List Token → Properties × List Token
  | .anchor name :: .tag t :: ts => (⟨some name, some t⟩, ts)
  | .anchor name :: ts => (⟨some name, none⟩, ts)
  | .tag t :: .anchor name :: ts => (⟨some name, some t⟩, ts)
  | .tag t :: ts => (⟨none, some t⟩, ts)
  | ts => (⟨none, none⟩, ts)

/-- The text of the tag, if there is one. -/
def Properties.tagText? (p : Properties) (preamble : Preamble) : Option (Option String) :=
  match p.tag with
  | none => some none
  | some t => (preamble.tagText? t).map some

/-- A node read off the tokens, the anchors known behind it, and the rest. -/
structure NodeRead where
  node : Node
  anchors : Anchors
  rest : List Token

/-- The node at the head of the tokens. Properties alone stand for a missing scalar. -/
def node? (preamble : Preamble) (anchors : Anchors) (ts : List Token) : Option NodeRead :=
  match ts with
  | .reference name :: rest => (anchors.reference? name).map fun node => ⟨node, anchors, rest⟩
  | ts => do
    let (p, rest) := properties ts
    let tag ← p.tagText? preamble
    match rest with
    | .scalar text style :: rest =>
      let s : Scalar := ⟨text, style, tag⟩
      return ⟨.scalar s, anchors.add p.anchor s, rest⟩
    | .blockStart :: _ => none
    | .flowStart :: _ => none
    | rest =>
      let s := Scalar.missing tag
      if p.any then return ⟨.scalar s, anchors.add p.anchor s, rest⟩ else none

/-- The node at the head of the tokens, or a missing one before a token at which none can stand. -/
def optionalNode? (stops : Token → Bool) (preamble : Preamble) (anchors : Anchors)
    (ts : List Token) : Option NodeRead :=
  if ts.head?.any stops then some ⟨.missing, anchors, ts⟩ else node? preamble anchors ts

/-- The value at the head of the tokens, if its sign is there. -/
def valueNode? (stops : Token → Bool) (preamble : Preamble) (anchors : Anchors)
    (ts : List Token) : Option NodeRead :=
  match ts with
  | .value :: ts => optionalNode? stops preamble anchors ts
  | ts => some ⟨.missing, anchors, ts⟩

/-- The tokens that end a node in a block mapping. -/
def endsBlockNode : Token → Bool
  | .key => true
  | .value => true
  | .blockEnd => true
  | _ => false

/-- The tokens that end a value in a flow mapping. -/
def endsFlowValue : Token → Bool
  | .comma => true
  | .flowEnd => true
  | _ => false

/-- The tokens that end a key in a flow mapping. -/
def endsFlowKey : Token → Bool
  | .value => true
  | t => endsFlowValue t

/-- Entries read off the tokens in order, the anchors known behind them, and the rest. -/
structure EntriesRead where
  entries : List (Node × Node)
  anchors : Anchors
  rest : List Token

/-- The same with an entry in front. -/
def EntriesRead.cons (key value : Node) (r : EntriesRead) : EntriesRead :=
  { r with entries := (key, value) :: r.entries }

/-- The entries of a block mapping up to its end. -/
def blockEntries? (preamble : Preamble) : Nat → Anchors → List Token → Option EntriesRead
  | 0, _, _ => none
  | fuel + 1, anchors, ts =>
    match ts with
    | .blockEnd :: rest => some ⟨[], anchors, rest⟩
    | .key :: ts => do
      let key ← optionalNode? endsBlockNode preamble anchors ts
      let value ← valueNode? endsBlockNode preamble key.anchors key.rest
      let more ← blockEntries? preamble fuel value.anchors value.rest
      return more.cons key.node value.node
    | _ => none

/-- The key of an entry of a flow mapping, and its value. Without the sign of a key it is a key
alone. -/
def flowEntry? (preamble : Preamble) (anchors : Anchors) (ts : List Token) :
    Option (Node × NodeRead) :=
  match ts with
  | .key :: ts => do
    let key ← optionalNode? endsFlowKey preamble anchors ts
    return (key.node, ← valueNode? endsFlowValue preamble key.anchors key.rest)
  | ts => do
    let key ← node? preamble anchors ts
    return (key.node, { key with node := .missing })

/-- The entries of a flow mapping up to its end. A comma may follow the last one. -/
def flowEntries? (preamble : Preamble) : Nat → Anchors → List Token → Option EntriesRead
  | 0, _, _ => none
  | fuel + 1, anchors, ts =>
    match ts with
    | .flowEnd :: rest => some ⟨[], anchors, rest⟩
    | ts => do
      let (key, value) ← flowEntry? preamble anchors ts
      match value.rest with
      | .flowEnd :: rest => return ⟨[(key, value.node)], value.anchors, rest⟩
      | .comma :: ts => return (← flowEntries? preamble fuel value.anchors ts).cons key value.node
      | _ => none

/-- The entries of the node of a document. Properties alone stand for no entries. -/
def root? (preamble : Preamble) (ts : List Token) : Option EntriesRead := do
  let (p, rest) := properties ts
  let _ ← p.tagText? preamble
  let anchors := Anchors.empty.add p.anchor none
  match rest with
  | .blockStart :: ts => blockEntries? preamble (ts.length + 1) anchors ts
  | .flowStart :: ts => flowEntries? preamble (ts.length + 1) anchors ts
  | .reference _ :: _ => none
  | .scalar _ _ :: _ => none
  | rest => if p.any then return ⟨[], anchors, rest⟩ else none

/-- Take in the directives at the head of the tokens. -/
def preamble? : Preamble → List Token → Option (Preamble × List Token)
  | p, .directive d :: ts => do preamble? (← p.add? d) ts
  | p, ts => some (p, ts)

/-- Whether a document without a node ends before the rest. -/
def endsDocument : List Token → Bool
  | [] => true
  | .directive _ :: _ => true
  | .documentStart :: _ => true
  | .documentEnd :: _ => true
  | _ => false

/-- The entries of a document that begins with directives or a marker. -/
def markedDocument? (ts : List Token) : Option EntriesRead := do
  let (preamble, ts) ← preamble? .empty ts
  match ts with
  | .documentStart :: ts => if endsDocument ts then return ⟨[], .empty, ts⟩ else root? preamble ts
  | _ => none

/-- The entries of the first document. -/
def document? (ts : List Token) : Option EntriesRead :=
  match ts with
  | [] => some ⟨[], .empty, []⟩
  | .directive _ :: _ => markedDocument? ts
  | .documentStart :: _ => markedDocument? ts
  | ts => root? .empty ts

/-- Whether nothing but markers of its end follow a document. -/
def onlyEnds : List Token → Bool
  | [] => true
  | .documentEnd :: ts => onlyEnds ts
  | _ => false

/-- The names and the scalars of entries, once all anchors are known. -/
def EntriesRead.scalars? (r : EntriesRead) : Option (List (String × Scalar)) :=
  r.entries.mapM fun (key, value) => do
    return ((← r.anchors.scalar? key).text, ← r.anchors.scalar? value)

/-- The entries of the mapping that a text holds, in order. -/
def mapping? (text : String) : Option (List (String × Scalar)) := do
  let document ← document? (← tokens? text)
  if onlyEnds document.rest then document.scalars? else none

end FlatPlan.Yaml
