/-!
# Paths

Every part of a contract that can be added, removed or changed on its own has a path: the list of
the names that lead to it. Paths are ordered segment by segment, so a name with a point in it does
not come between the parts of another name.

* `Path.text` — the segments joined by points.
* `Path.ancestors` — the proper ancestors, nearest first.
* `Path.isAbove` — whether a path is a proper ancestor of another one.
-/

namespace ContractDrift

/-- The names that lead to a part of a contract. -/
abbrev Path := List String

namespace Path

/-- Paths are ordered segment by segment. -/
instance : LE Path := List.instLE

instance : Std.IsLinearOrder Path := List.instIsLinearOrder

instance : Std.LawfulOrderLT Path := List.instLawfulOrderLTOfAsymmLt

/-- The segments joined by points. -/
def text (p : Path) : String := String.intercalate "." p

/-- The paths of all proper beginnings of at least one segment, nearest first. -/
def ancestors (p : Path) : List Path :=
  (((List.range p.length).drop 1).map fun n => p.take n).reverse

/-- Whether `p` is a proper ancestor of `q`. -/
def isAbove (p q : Path) : Bool := p.length < q.length && p.isPrefixOf q

/-- How two paths are ordered. -/
def compare (p q : Path) : Ordering := if p < q then .lt else if q < p then .gt else .eq

end Path

end ContractDrift
