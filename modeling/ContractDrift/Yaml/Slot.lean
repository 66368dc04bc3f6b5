import ContractDrift.Yaml.Core

/-!
# Slots of a YAML document

How the values of a document are taken out of its tree. There are two readings. As *written*, a slot
for a text takes any scalar just as it stands, so a version `1.10` keeps its zero. As *typed*, each
scalar first becomes an atom, and a slot for a text takes texts only.

* `Reading` — the two readings.
* `Tree.text?`, `Tree.truth?`, `Tree.count?`, `Tree.real?`, `Tree.list?`, `Tree.json?` — values.
* `Tree.record?`, `Tree.named?` — the entries of a mapping, and `slot?` — one of them.
* `Tree.isData` — whether a whole document becomes plain values.
-/

namespace ContractDrift.Yaml

/-- How the scalars of a document are taken. -/
inductive Reading where
  /-- As they stand. -/
  | written
  /-- As atoms. -/
  | typed
  deriving DecidableEq, Repr, Inhabited

namespace Tree

/-- The tag of a tree. -/
def tag? : Tree → Option String
  | .scalar tag _ _ => tag
  | .sequence tag _ => tag
  | .mapping tag _ => tag
  | .beyond => none

/-- Whether the tag is one of the document's own. -/
def isLocal (t : Tree) : Bool := isLocalTag t.tag?

/-- What a scalar means. -/
def atom? : Tree → Option Atom
  | .scalar tag style s => Atom.ofScalar? tag style s
  | _ => none

/-! ## Scalars -/

/-- Whether a number or truth value may stand in a scalar that is read as written: it is plain, or a
literal block with the tag of the type. -/
def isBare (type : String) (tag : Option String) (style : Style) : Bool :=
  style = .plain || (style = .literal && tag = some (coreTag type))

/-- A text. -/
def text? (reading : Reading) (t : Tree) : Option String :=
  match reading, t with
  | .written, .scalar _ _ s => some s
  | .written, _ => none
  | .typed, t =>
    match t.atom? with
    | some (.text s) => some s
    | _ => none

/-- A truth value. -/
def truth? (reading : Reading) (t : Tree) : Option Bool :=
  match reading, t with
  | .written, .scalar tag style s => if isBare "bool" tag style then Yaml.truth? s else none
  | .written, _ => none
  | .typed, t =>
    match t.atom? with
    | some (.bool b) => some b
    | _ => none

/-- A count up to a limit. -/
def count? (reading : Reading) (limit : Nat) (t : Tree) : Option Nat :=
  match reading, t with
  | .written, .scalar tag style s =>
    if isBare "int" tag style then (natural? s.toList).filter (· ≤ limit) else none
  | .written, _ => none
  | .typed, t =>
    match t.atom? with
    | some (.int n) => if 0 ≤ n ∧ n.toNat ≤ limit then some n.toNat else none
    | _ => none

/-- A number as a binary64 value. -/
def real? (reading : Reading) (t : Tree) : Option Binary64 :=
  match reading, t with
  | .written, .scalar tag style s => if isBare "float" tag style then Yaml.real? s.toList else none
  | .written, _ => none
  | .typed, t =>
    match t.atom? with
    | some (.int n) => some (.ofInt n)
    | some (.real x) => some x
    | _ => none

/-- Whether a slot that may be empty holds null; nothing if the scalar is not what its tag says. -/
def isNull? (reading : Reading) (t : Tree) : Option Bool :=
  match reading, t with
  | .written, .scalar none style s => some (style = .plain && (s = "" || isNullWord s))
  | .written, .scalar (some tag) style s =>
    if style = .plain ∧ tag = coreTag "null" then
      if isNullWord s then some true else none
    else some false
  | .typed, .scalar tag style s => (Atom.ofScalar? tag style s).map (· == .null)
  | _, .beyond => none
  | _, _ => some false

/-- Whether a scalar may stand for a collection without members: as written it has no text at all, as
typed it is null. -/
def isNothing (reading : Reading) (t : Tree) : Bool :=
  match reading, t with
  | .written, .scalar _ style s => style = .plain && s = ""
  | .typed, t => t.atom? = some .null
  | _, _ => false

/-- The value in a slot that may be empty. -/
def optional? {α : Type} (reading : Reading) (read : Tree → Option α) (t : Tree) :
    Option (Option α) :=
  match t.isNull? reading with
  | none => none
  | some true => some none
  | some false => (read t).map some

/-! ## Collections -/

/-- The items of a sequence. -/
def items? (reading : Reading) (t : Tree) : Option (List Tree) :=
  match t with
  | .sequence _ items => some items
  | t => if t.isNothing reading then some [] else none

/-- A list, each item read by `read`. -/
def list? {α : Type} (reading : Reading) (read : Tree → Option α) (t : Tree) : Option (List α) :=
  (t.items? reading).bind fun items => items.mapM read

/-- A list of texts. -/
def texts? (reading : Reading) (t : Tree) : Option (List String) := t.list? reading (text? reading)

/-- The entries of a mapping by the texts of their keys. -/
def keyed? (reading : Reading) : List (Tree × Tree) → Option (List (String × Tree))
  | [] => some []
  | (k, v) :: rest => do
    let key ← k.text? reading
    let later ← keyed? reading rest
    some ((key, v) :: later)

/-- The entries of a mapping that is read as a record. -/
def record? (reading : Reading) (t : Tree) : Option (List (String × Tree)) :=
  match t with
  | .mapping _ entries => keyed? reading entries
  | t => if t.isNothing reading then some [] else none

/-- The entries of a mapping from names; null is one without entries, and a tag of the document's
own makes it unreadable. -/
def named? (reading : Reading) (t : Tree) : Option (List (String × Tree)) :=
  if t.isLocal then none
  else
    match t with
    | .mapping _ entries => keyed? reading entries
    | t => if t.atom? = some .null then some [] else none

end Tree

/-- The value under one of several keys that mean the same; nothing if there are two. -/
def slot? (keys : List String) (entries : List (String × Tree)) : Option (Option Tree) :=
  match entries.filter fun e => keys.contains e.1 with
  | [] => some none
  | [e] => some (some e.2)
  | _ => none

/-- The value in a slot that may be missing or empty. -/
def optionalSlot? {α : Type} (reading : Reading) (keys : List String) (read : Tree → Option α)
    (entries : List (String × Tree)) : Option (Option α) :=
  match slot? keys entries with
  | none => none
  | some none => some none
  | some (some t) => t.optional? reading read

/-- The list in a slot; a missing one has no items. -/
def listSlot? {α : Type} (reading : Reading) (keys : List String) (read : Tree → Option α)
    (entries : List (String × Tree)) : Option (List α) :=
  match slot? keys entries with
  | none => none
  | some none => some []
  | some (some t) => t.list? reading read

/-! ## Free values -/

/-- An atom as a free value. -/
def Atom.toJson : Atom → Json
  | .null => .null
  | .bool b => .bool b
  | .int n => .int n
  | .real x => .ofReal x
  | .text s => .text s

namespace Tree

mutual

/-- A tree as a free value; of a key that repeats, the last value stays. -/
def json? (reading : Reading) : Tree → Option Json
  | .scalar tag style s =>
    if isLocalTag tag then none else (Atom.ofScalar? tag style s).map Atom.toJson
  | .sequence tag items =>
    if isLocalTag tag then none else (jsonItems? reading items).map .list
  | .mapping tag entries =>
    if isLocalTag tag then none
    else (jsonEntries? reading entries).map fun es => .object (Entries.ofList es).toList
  | .beyond => none

/-- Several trees as free values. -/
def jsonItems? (reading : Reading) : List Tree → Option (List Json)
  | [] => some []
  | t :: rest => do
    let v ← json? reading t
    let vs ← jsonItems? reading rest
    some (v :: vs)

/-- The entries of a mapping as free values by name. -/
def jsonEntries? (reading : Reading) : List (Tree × Tree) → Option (List (String × Json))
  | [] => some []
  | (k, t) :: rest => do
    let key ← k.text? reading
    let v ← json? reading t
    let vs ← jsonEntries? reading rest
    some ((key, v) :: vs)

end

/-! ## Plain data -/

mutual

/-- Whether a tag of the document's own is anywhere in a tree. -/
def hasLocal : Tree → Bool
  | .scalar tag _ _ => isLocalTag tag
  | .sequence tag items => isLocalTag tag || hasLocalItems items
  | .mapping tag entries => isLocalTag tag || hasLocalEntries entries
  | .beyond => false

/-- The same for several trees. -/
def hasLocalItems : List Tree → Bool
  | [] => false
  | t :: rest => hasLocal t || hasLocalItems rest

/-- The same for several entries. -/
def hasLocalEntries : List (Tree × Tree) → Bool
  | [] => false
  | (k, v) :: rest => hasLocal k || hasLocal v || hasLocalEntries rest

end

/-- Whether two tags make no difference: only the document's own ones are part of a value. -/
def sameTag (a b : Option String) : Bool := a == b || !(isLocalTag a || isLocalTag b)

/-- Whether two atoms are the same key: numbers of one kind by value, all NaNs as one. -/
def sameAtom : Atom → Atom → Bool
  | .real .nan, .real .nan => true
  | .real x, .real y => x.same y
  | a, b => a == b

mutual

/-- Whether two trees are the same value. -/
def same : Tree → Tree → Bool
  | .scalar tag style s, .scalar tag' style' s' =>
    sameTag tag tag' &&
      match Atom.ofScalar? tag style s, Atom.ofScalar? tag' style' s' with
      | some a, some b => sameAtom a b
      | _, _ => false
  | .sequence tag items, .sequence tag' items' => sameTag tag tag' && sameItems items items'
  | .mapping tag entries, .mapping tag' entries' =>
    sameTag tag tag' && sameEntries entries entries'
  | _, _ => false

/-- Whether two lists of trees are the same. -/
def sameItems : List Tree → List Tree → Bool
  | [], [] => true
  | t :: ts, u :: us => same t u && sameItems ts us
  | _, _ => false

/-- Whether two lists of entries are the same. -/
def sameEntries : List (Tree × Tree) → List (Tree × Tree) → Bool
  | [], [] => true
  | (k, v) :: ts, (l, w) :: us => same k l && same v w && sameEntries ts us
  | _, _ => false

end

/-- Whether no key of a mapping repeats. -/
def hasDistinctKeys : List (Tree × Tree) → Bool
  | [] => true
  | (k, _) :: rest => !(rest.any fun e => same k e.1) && hasDistinctKeys rest

mutual

/-- Whether a document becomes plain values: each scalar means something and no key repeats. -/
def isData : Tree → Bool
  | .scalar tag style s => (Atom.ofScalar? tag style s).isSome
  | .sequence _ items => isDataItems items
  | .mapping _ entries => hasDistinctKeys entries && isDataEntries entries
  | .beyond => false

/-- The same for several trees. -/
def isDataItems : List Tree → Bool
  | [] => true
  | t :: rest => isData t && isDataItems rest

/-- The same for several entries. -/
def isDataEntries : List (Tree × Tree) → Bool
  | [] => true
  | (k, v) :: rest => isData k && isData v && isDataEntries rest

end

/-- The value under a key of a mapping whose keys are texts. -/
def get? (key : String) : Tree → Option Tree
  | .mapping _ entries =>
    (entries.find? fun e => !e.1.isLocal && e.1.atom? == some (.text key)).map Prod.snd
  | _ => none

end Tree

/-! ## Sizes -/

theorem Tree.sizeOf_lt_of_keyed? {reading : Reading} {e : String × Tree} :
    ∀ {entries : List (Tree × Tree)} {l : List (String × Tree)},
      keyed? reading entries = some l → e ∈ l → sizeOf e.2 < sizeOf entries
  | [], l, h, he => by
    simp only [keyed?, Option.some.injEq] at h
    subst h
    simp at he
  | (k, v) :: rest, l, h, he => by
    simp only [keyed?, Option.bind_eq_bind, Option.bind_eq_some_iff, Option.some.injEq] at h
    obtain ⟨key, _, later, hl, rfl⟩ := h
    rcases List.mem_cons.1 he with rfl | he
    · simp
      omega
    · have := sizeOf_lt_of_keyed? hl he
      simp
      omega

theorem Tree.sizeOf_lt_of_record? {reading : Reading} {t : Tree} {e : String × Tree}
    {l : List (String × Tree)} (h : t.record? reading = some l) (he : e ∈ l) :
    sizeOf e.2 < sizeOf t := by
  unfold record? at h
  split at h
  · have := sizeOf_lt_of_keyed? h he
    simp
    omega
  · split at h
    · cases h
      simp at he
    · cases h

theorem Tree.sizeOf_lt_of_named? {reading : Reading} {t : Tree} {e : String × Tree}
    {l : List (String × Tree)} (h : t.named? reading = some l) (he : e ∈ l) :
    sizeOf e.2 < sizeOf t := by
  unfold named? at h
  split at h
  · cases h
  · split at h
    · have := sizeOf_lt_of_keyed? h he
      simp
      omega
    · split at h
      · cases h
        simp at he
      · cases h

theorem mem_of_slot? {keys : List String} {entries : List (String × Tree)} {t : Tree}
    (h : slot? keys entries = some (some t)) : ∃ key, (key, t) ∈ entries := by
  unfold slot? at h
  split at h
  · cases h
  · rename_i e he
    cases h
    have : e ∈ entries.filter fun e => keys.contains e.1 := by rw [he]; simp
    exact ⟨e.1, (List.mem_filter.1 this).1⟩
  · cases h

end ContractDrift.Yaml
