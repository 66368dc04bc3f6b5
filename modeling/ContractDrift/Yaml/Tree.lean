import ContractDrift.Yaml.Node

/-!
# YAML documents with their repetitions followed

What a document says, without anchors and aliases. Collections are nested at most 128 deep, and
aliases are followed at most 100 times for each event of the document; what lies beyond these limits
is there but cannot be read. So a document that contains itself is a finite tree, and only a reader
that goes down without end finds that something is missing.

* `Tree` — a document.
* `Tree.ofNode` — the tree of a node.
* `Document.read?` — the document of a text.
-/

namespace ContractDrift.Yaml

/-- What a document says. -/
inductive Tree where
  | scalar (tag : Option String) (style : Style) (text : String)
  | sequence (tag : Option String) (items : List Tree)
  | mapping (tag : Option String) (entries : List (Tree × Tree))
  /-- What lies beyond the limits. -/
  | beyond
  deriving Repr, Inhabited

namespace Tree

/-- The greatest number of collections inside of each other. -/
def greatestDepth : Nat := 128

/-- How many times aliases are followed for each event. -/
def followsPerEvent : Nat := 100

/-- The last node with an anchor. -/
def anchored? (i : Nat) (anchors : List (Nat × Node)) : Option Node := anchors.reverse.lookup i

mutual

/-- The tree of a node that is no alias. Collections may be `depth` deep, and `follows` more aliases
may be followed; the number that is left comes with the tree. -/
def ofContent (anchors : List (Nat × Node)) (depth follows : Nat) (n : Node) : Tree × Nat :=
  match n, depth with
  | .scalar p style text, _ => (.scalar p.tag style text, follows)
  | .sequence p items, depth + 1 =>
    let (items, follows) := ofItems anchors depth follows items
    (.sequence p.tag items, follows)
  | .mapping p entries, depth + 1 =>
    let (entries, follows) := ofEntries anchors depth follows entries
    (.mapping p.tag entries, follows)
  | _, _ => (.beyond, follows)
termination_by (depth, 0, 0)

/-- The tree of a node, which may be an alias. -/
def ofAny (anchors : List (Nat × Node)) (depth follows : Nat) (n : Node) : Tree × Nat :=
  match n with
  | .alias i =>
    match follows, anchored? i anchors with
    | follows + 1, some target => ofContent anchors depth follows target
    | _, _ => (.beyond, follows)
  | n => ofContent anchors depth follows n
termination_by (depth, 1, 0)

/-- The trees of several nodes. -/
def ofItems (anchors : List (Nat × Node)) (depth follows : Nat) (items : List Node) :
    List Tree × Nat :=
  match items with
  | [] => ([], follows)
  | n :: rest =>
    let (t, follows) := ofAny anchors depth follows n
    let (ts, follows) := ofItems anchors depth follows rest
    (t :: ts, follows)
termination_by (depth, 2, items.length)

/-- The trees of several entries. -/
def ofEntries (anchors : List (Nat × Node)) (depth follows : Nat) (entries : List (Node × Node)) :
    List (Tree × Tree) × Nat :=
  match entries with
  | [] => ([], follows)
  | (k, v) :: rest =>
    let (k, follows) := ofAny anchors depth follows k
    let (v, follows) := ofAny anchors depth follows v
    let (es, follows) := ofEntries anchors depth follows rest
    ((k, v) :: es, follows)
termination_by (depth, 2, entries.length)

end

/-- The tree of the root of a document. -/
def ofNode (n : Node) : Tree :=
  (ofAny n.anchors greatestDepth (followsPerEvent * n.eventCount) n).1

end Tree

/-- The document of a text, if it has one. -/
inductive Document where
  /-- A text without any document. -/
  | empty
  | root (tree : Tree)
  deriving Repr, Inhabited

/-- The document of a text; nothing if the text is malformed. -/
def Document.read? (text : String) : Option Document := do
  match ← Node.ofTokens? (← Token.listOf? text) with
  | .nothing => some .empty
  | .root n => some (.root (.ofNode n))

end ContractDrift.Yaml
