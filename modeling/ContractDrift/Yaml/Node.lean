import ContractDrift.Yaml.Token

/-!
# Nodes of a YAML document

A document as a tree of nodes, just as it is written: tags are resolved through their handles, but
aliases still stand in place of what they repeat.

An anchor gets as its number how many different names had one before. A name that is used again
keeps its old place in that count, so a later anchor may get the number of an earlier one; an alias
means the last node that carries the number of its name.

* `Node` — a node with its anchor and tag.
* `Node.ofTokens?` — the node of a list of tokens.
* `Node.eventCount` — the size by which repetition is limited.
-/

namespace ContractDrift.Yaml

/-- What may stand in front of the content of a node. -/
structure Properties where
  anchor : Option Nat := none
  tag : Option String := none
  deriving DecidableEq, Repr, Inhabited

/-- A node as it is written. -/
inductive Node where
  | scalar (properties : Properties) (style : Style) (text : String)
  | sequence (properties : Properties) (items : List Node)
  | mapping (properties : Properties) (entries : List (Node × Node))
  /-- A repetition of the node with an anchor. -/
  | alias (anchor : Nat)
  deriving Repr, Inhabited

namespace Node

/-! ## Size -/

mutual

/-- The number of scalars, aliases, beginnings and ends of collections. -/
def eventCount : Node → Nat
  | .scalar .. => 1
  | .alias _ => 1
  | .sequence _ items => eventCountItems items + 2
  | .mapping _ entries => eventCountEntries entries + 2

/-- The size of several nodes. -/
def eventCountItems : List Node → Nat
  | [] => 0
  | n :: rest => eventCount n + eventCountItems rest

/-- The size of several entries. -/
def eventCountEntries : List (Node × Node) → Nat
  | [] => 0
  | (k, v) :: rest => eventCount k + eventCount v + eventCountEntries rest

end

/-! ## Anchors -/

/-- The node under its anchor, if it has one. -/
def anchored (p : Properties) (n : Node) : List (Nat × Node) :=
  match p.anchor with
  | some i => [(i, n)]
  | none => []

mutual

/-- The nodes with anchors, in the order in which they begin. -/
def anchors : Node → List (Nat × Node)
  | .scalar p style text => anchored p (.scalar p style text)
  | .sequence p items => anchored p (.sequence p items) ++ anchorsOfItems items
  | .mapping p entries => anchored p (.mapping p entries) ++ anchorsOfEntries entries
  | .alias _ => []

/-- The nodes with anchors among several nodes. -/
def anchorsOfItems : List Node → List (Nat × Node)
  | [] => []
  | n :: rest => anchors n ++ anchorsOfItems rest

/-- The nodes with anchors among several entries. -/
def anchorsOfEntries : List (Node × Node) → List (Nat × Node)
  | [] => []
  | (k, v) :: rest => anchors k ++ anchors v ++ anchorsOfEntries rest

end

end Node

/-! ## Reading -/

/-- What is left of the tokens, and what is known of the names so far. -/
structure NodeReader where
  tokens : List Token
  /-- The expansions of tag handles. -/
  handles : List (String × String) := []
  /-- The numbers of anchors by name. -/
  anchors : List (String × Nat) := []

namespace NodeReader

/-- The next token. -/
def peek? (r : NodeReader) : Option Token := r.tokens.head?

/-- Whether the next token is one of several; the end of the tokens is none of them. -/
def isAt (r : NodeReader) (ts : List Token) : Bool := r.peek?.any ts.contains

/-- The reader after one token. -/
def next (r : NodeReader) : NodeReader := { r with tokens := r.tokens.drop 1 }

/-- A node without anything written for it. -/
def emptyNode : Node := .scalar {} .plain ""

/-- Give the next number to an anchor. -/
def withAnchor (name : String) (r : NodeReader) : Nat × NodeReader :=
  let number := r.anchors.length
  (number, { r with anchors := (name, number) :: r.anchors.filter fun e => e.1 ≠ name })

/-- The text of a tag; a handle has to be known. -/
def resolveTag? (handle suffix : String) (r : NodeReader) : Option String :=
  if handle = "" then some suffix else (r.handles.lookup handle).map (· ++ suffix)

/-- Anchor and tag in either order. -/
def properties? (r : NodeReader) : Option (Properties × NodeReader) :=
  match r.tokens with
  | .anchor name :: .tag handle suffix :: _ => do
    let tag ← r.resolveTag? handle suffix
    let (i, r) := r.next.next.withAnchor name
    some ({ anchor := some i, tag := some tag }, r)
  | .tag handle suffix :: .anchor name :: _ => do
    let tag ← r.resolveTag? handle suffix
    let (i, r) := r.next.next.withAnchor name
    some ({ anchor := some i, tag := some tag }, r)
  | .anchor name :: _ =>
    let (i, r) := r.next.withAnchor name
    some ({ anchor := some i }, r)
  | .tag handle suffix :: _ => do
    let tag ← r.resolveTag? handle suffix
    some ({ tag := some tag }, r.next)
  | _ => some ({}, r)

/-- The properties of a scalar: the tag that only says that there is none is left out. -/
def scalarProperties (p : Properties) : Properties :=
  if p.tag = some "!" then { p with tag := none } else p

/-- A node of which nothing but the properties is written. It keeps its tag, whatever it is. -/
def emptyOf? (p : Properties) (r : NodeReader) : Option (Node × NodeReader) :=
  if p.anchor.isSome || p.tag.isSome then some (.scalar p .plain "", r) else none

mutual

/-- A node. `block` says whether it may be a block, `indentless` whether it may be a sequence whose
dashes stand in the column of the key in front of it. -/
def node? (block indentless : Bool) : Nat → NodeReader → Option (Node × NodeReader)
  | 0, _ => none
  | fuel + 1, r =>
    match r.peek? with
    | some (.alias name) => do
      let i ← r.anchors.lookup name
      some (.alias i, r.next)
    | _ => do
      let (p, r) ← r.properties?
      match r.peek? with
      | some (.scalar style text) => some (.scalar (scalarProperties p) style text, r.next)
      | some .flowSequence => do
        let (items, r) ← flowItems? true fuel r.next
        some (.sequence p items, r)
      | some .flowMapping => do
        let (entries, r) ← flowEntries? true fuel r.next
        some (.mapping p entries, r)
      | some .blockEntry =>
        if indentless then do
          let (items, r) ← indentlessItems? fuel r
          some (.sequence p items, r)
        else emptyOf? p r
      | some .blockSequence =>
        if block then do
          let (items, r) ← blockItems? fuel r.next
          some (.sequence p items, r)
        else emptyOf? p r
      | some .blockMapping =>
        if block then do
          let (entries, r) ← blockEntries? fuel r.next
          some (.mapping p entries, r)
        else emptyOf? p r
      | _ => emptyOf? p r

/-- The items of a block sequence. -/
def blockItems? : Nat → NodeReader → Option (List Node × NodeReader)
  | 0, _ => none
  | fuel + 1, r =>
    match r.peek? with
    | some .blockEntry => do
      let r := r.next
      let (item, r) ←
        if r.isAt [.blockEntry, .blockEnd] then some (emptyNode, r) else node? true false fuel r
      let (items, r) ← blockItems? fuel r
      some (item :: items, r)
    | some .blockEnd => some ([], r.next)
    | _ => none

/-- The items of a sequence without a block of its own. -/
def indentlessItems? : Nat → NodeReader → Option (List Node × NodeReader)
  | 0, _ => none
  | fuel + 1, r =>
    match r.peek? with
    | some .blockEntry => do
      let r := r.next
      let (item, r) ←
        if r.isAt [.blockEntry, .key, .value, .blockEnd] then some (emptyNode, r)
        else node? true false fuel r
      let (items, r) ← indentlessItems? fuel r
      some (item :: items, r)
    | _ => some ([], r)

/-- The entries of a block mapping. -/
def blockEntries? : Nat → NodeReader → Option (List (Node × Node) × NodeReader)
  | 0, _ => none
  | fuel + 1, r =>
    match r.peek? with
    | some .key => do
      let r := r.next
      let (k, r) ←
        if r.isAt [.key, .value, .blockEnd] then some (emptyNode, r) else node? true true fuel r
      let (v, r) ←
        if r.isAt [.value] then
          let r := r.next
          if r.isAt [.key, .value, .blockEnd] then some (emptyNode, r) else node? true true fuel r
        else some (emptyNode, r)
      let (entries, r) ← blockEntries? fuel r
      some ((k, v) :: entries, r)
    | some .blockEnd => some ([], r.next)
    | _ => none

/-- The items of a flow sequence. An item with a question mark or a colon is a mapping of one
entry. -/
def flowItems? (first : Bool) : Nat → NodeReader → Option (List Node × NodeReader)
  | 0, _ => none
  | fuel + 1, r =>
    if r.isAt [.flowSequenceEnd] then some ([], r.next)
    else do
      let r ← if first then some r else if r.isAt [.flowEntry] then some r.next else none
      if r.isAt [.flowSequenceEnd] then some ([], r.next)
      else
        let (item, r) ←
          if r.isAt [.key] then
            let r := r.next
            let (k, r) ←
              -- an item without a key loses the token after its mark
              if r.isAt [.value, .flowEntry, .flowSequenceEnd] then some (emptyNode, r.next)
              else node? false false fuel r
            let (v, r) ←
              if r.isAt [.value] then
                let r := r.next
                if r.isAt [.flowEntry, .flowSequenceEnd] then some (emptyNode, r)
                else node? false false fuel r
              else some (emptyNode, r)
            some (.mapping {} [(k, v)], r)
          else node? false false fuel r
        let (items, r) ← flowItems? false fuel r
        some (item :: items, r)

/-- The entries of a flow mapping. -/
def flowEntries? (first : Bool) : Nat → NodeReader → Option (List (Node × Node) × NodeReader)
  | 0, _ => none
  | fuel + 1, r =>
    if r.isAt [.flowMappingEnd] then some ([], r.next)
    else do
      let r ← if first then some r else if r.isAt [.flowEntry] then some r.next else none
      if r.isAt [.flowMappingEnd] then some ([], r.next)
      else
        let (entry, r) ←
          if r.isAt [.key] then
            let r := r.next
            let (k, r) ←
              if r.isAt [.value, .flowEntry, .flowMappingEnd] then some (emptyNode, r)
              else node? false false fuel r
            let (v, r) ←
              if r.isAt [.value] then
                let r := r.next
                if r.isAt [.flowEntry, .flowMappingEnd] then some (emptyNode, r)
                else node? false false fuel r
              else some (emptyNode, r)
            some ((k, v), r)
          else
            (node? false false fuel r).map fun (k, r) => ((k, emptyNode), r)
        let (entries, r) ← flowEntries? false fuel r
        some (entry :: entries, r)

end

/-! ## Documents -/

/-- The handles that are known in every document. -/
def knownHandles : List (String × String) := [("!", "!"), ("!!", "tag:yaml.org,2002:")]

/-- The directives before a document: at most one version, 1.1 or 1.2, and no handle twice. -/
def directives? (hasVersion : Bool) :
    List (String × String) → List Token → Option (List (String × String) × List Token)
  | handles, .version major minor :: rest =>
    if hasVersion || major ≠ 1 || !(minor = 1 || minor = 2) then none
    else directives? true handles rest
  | handles, .tagHandle handle expansion :: rest =>
    if (handles.lookup handle).isSome then none
    else directives? hasVersion ((handle, expansion) :: handles) rest
  | handles, ts => some (handles, ts)

/-- Whether nothing but marks of the document's end is left. -/
def isOver (ts : List Token) : Bool := ts.all (· == .documentEnd)

/-- The root of a document whose directives have been read. -/
def root? (explicit : Bool) (r : NodeReader) : Option Node :=
  if explicit && (r.tokens.isEmpty || r.isAt [.documentStart, .documentEnd]) then
    if isOver r.tokens then some emptyNode else none
  else do
    let (n, r) ← node? true false (4 * r.tokens.length + 4) r
    if isOver r.tokens then some n else none

end NodeReader

/-- A text holds at most one document. -/
inductive Node.Found where
  /-- No document at all, as in a text of comments. -/
  | nothing
  | root (node : Node)
  deriving Repr, Inhabited

/-- The document that a list of tokens makes up. -/
def Node.ofTokens? (ts : List Token) : Option Node.Found :=
  match ts with
  | [] => some .nothing
  | ts => do
    let (handles, rest) ← NodeReader.directives? false [] ts
    let handles := handles ++ NodeReader.knownHandles
    let explicit := rest.length < ts.length || rest.head? = some .documentStart
    if explicit then
      if rest.head? = some .documentStart then
        (NodeReader.root? true { tokens := rest.drop 1, handles }).map .root
      else none
    else (NodeReader.root? false { tokens := rest, handles }).map .root

end ContractDrift.Yaml
