import ContractDrift.Proofs.GroupOrder
import ContractDrift.Report.Text
import Mathlib.Data.List.Sort

/-!
# The layout of a report

A report opens a heading where the severity of the groups changes, and writes the number of all
groups of this severity into it.  The two belong together because the groups come with descending
severities: what stands up to the next heading are then all groups of the severity, and no heading
comes a second time.

* `ReportPiece.heading?`, `part?`, `record?` — what a piece says; **`ReportPiece.Writes`** — and the
  line that says it, of which there is one for each piece (`ReportPiece.writes_iff`).
* `ChangeGroup.headedPieces_cons_of_eq`, `headedPieces_cons_of_ne` — one group more, with or without
  a heading.
* `ChangeGroup.parts_takeWhile_headedPieces` — what stands up to the next heading;
  `ChangeGroup.eq_of_heading_suffix` — what stands under a heading.
* `ChangeGroup.heading_mem_or_eq` — no group goes without a heading;
  `ChangeGroup.eq_of_part_suffix` — what stands under a path.
* **`Contract.changelog_presented`** — the report of a changelog, and of what is left of it from a
  severity on.
-/

namespace ContractDrift

open ChangeGroup (headedPieces)

/-! ## Pieces -/

namespace ReportPiece

/-- The severity and the number of a heading. -/
def heading? : ReportPiece → Option (Severity × ℕ)
  | .heading severity paths => some (severity, paths)
  | _ => none

/-- The path and the sort of part of a path line. -/
def part? : ReportPiece → Option (Path × EntityKind)
  | .part path entity => some (path, entity)
  | _ => none

/-- The entry of a record. -/
def record? : ReportPiece → Option GradedChange
  | .record change => some change
  | _ => none

lemma heading?_eq_some_iff {piece : ReportPiece} {s : Severity} {n : ℕ} :
    piece.heading? = some (s, n) ↔ piece = .heading s n := by
  cases piece <;> simp [heading?]

/-! ### Lines -/

/-- The titles of headings. -/
def titles : List (Severity × String) :=
  [(.breaking, "Breaking changes"), (.warning, "Warnings"), (.info, "Informational changes")]

/-- The marks of records. -/
def marks : List (ChangeKind × String) := [(.added, "+"), (.removed, "-"), (.modified, "~")]

/-- The line of a piece: a title and a number in brackets; two blanks, a path and in brackets the
sort of part; four blanks, a mark, a sentence and in square brackets the rule; or the four
counts. -/
inductive Writes : ReportPiece → String → Prop
  | heading {s : Severity} {title : String} {n : ℕ} (htitle : (s, title) ∈ titles) :
      Writes (.heading s n) ("\n" ++ title ++ " (" ++ toString n ++ "):\n")
  | part {p : Path} {e : EntityKind} :
      Writes (.part p e) ("  " ++ p.text ++ " (" ++ e.name ++ ")\n")
  | record {g : GradedChange} {mark : String} (hmark : (g.change.kind, mark) ∈ marks) :
      Writes (.record g) ("    " ++ mark ++ " " ++ g.description ++ " [" ++ g.rule.id ++ "]\n")
  | summary {t : Summary} :
      Writes (.summary t) ("\nSummary: " ++ toString t.breaking ++ " breaking, " ++
        toString t.warning ++ " warning, " ++ toString t.info ++ " info (" ++ toString t.total ++
        " total)\n")

lemma mem_titles_iff {s : Severity} {title : String} :
    (s, title) ∈ titles ↔ title = s.heading := by
  cases s <;> simp [titles, Severity.heading]

lemma mem_marks_iff {kind : ChangeKind} {mark : String} :
    (kind, mark) ∈ marks ↔ mark = kind.mark := by
  cases kind <;> simp [marks, ChangeKind.mark]

/-- **Each piece writes its line** and no other. -/
theorem writes_iff {piece : ReportPiece} {line : String} :
    piece.Writes line ↔ piece.text = line := by
  constructor
  · rintro (htitle | _ | hmark | _)
    · rw [mem_titles_iff.1 htitle]
      rfl
    · rfl
    · rw [mem_marks_iff.1 hmark]
      rfl
    · rfl
  · rintro rfl
    cases piece with
    | heading s n => exact .heading (mem_titles_iff.2 rfl)
    | part p e => exact .part
    | record g => exact .record (mem_marks_iff.2 rfl)
    | summary t => exact .summary

/-- The lines of pieces are their texts, one for each. -/
lemma forall₂_writes_iff {pieces : List ReportPiece} {lines : List String} :
    List.Forall₂ Writes pieces lines ↔ pieces.map text = lines := by
  have hwrites : Writes = fun piece line => piece.text = line :=
    funext₂ fun _ _ => propext writes_iff
  rw [← List.forall₂_eq_eq_eq, List.forall₂_map_left_iff, hwrites]

end ReportPiece

/-- What begins with an element that a block does not have begins behind the block. -/
lemma suffix_of_suffix_append {α : Type} {x : α} {after block rest : List α} (hx : x ∉ block)
    (h : x :: after <:+ block ++ rest) : x :: after <:+ rest := by
  induction block with
  | nil => exact h
  | cons b block ih =>
      rw [List.mem_cons, not_or] at hx
      rcases List.suffix_cons_iff.1 h with heq | h
      · exact absurd (List.cons.inj heq).1 hx.1
      · exact ih hx.2 h

/-! ## One group after another -/

namespace ChangeGroup

variable {paths : Severity → ℕ} {current : Option Severity} {k : ChangeGroup}
  {groups : List ChangeGroup} {s : Severity} {n : ℕ} {p : Path} {e : EntityKind}
  {after : List ReportPiece} {total : Summary}

lemma headedPieces_cons_of_eq (h : current = some k.severity) :
    headedPieces paths current (k :: groups) =
      k.pieces ++ headedPieces paths (some k.severity) groups := by
  rw [headedPieces, if_pos h, List.nil_append]

lemma headedPieces_cons_of_ne (h : current ≠ some k.severity) :
    headedPieces paths current (k :: groups) = .heading k.severity (paths k.severity) ::
      (k.pieces ++ headedPieces paths (some k.severity) groups) := by
  rw [headedPieces, if_neg h]
  rfl

/-! ### All pieces of a sort -/

@[simp] lemma filterMap_heading?_pieces (k : ChangeGroup) :
    k.pieces.filterMap ReportPiece.heading? = [] := by
  simp [pieces, ReportPiece.heading?]

@[simp] lemma filterMap_part?_pieces (k : ChangeGroup) :
    k.pieces.filterMap ReportPiece.part? = [(k.path, k.entity)] := by
  simp [pieces, ReportPiece.part?]

@[simp] lemma filterMap_record?_pieces (k : ChangeGroup) :
    k.pieces.filterMap ReportPiece.record? = k.changes := by
  rw [pieces, List.filterMap_cons_none rfl, List.filterMap_map]
  exact List.filterMap_some

/-- Headings apart, the layout is that of the groups, one after another. -/
lemma filterMap_headedPieces {α : Type} {read : ReportPiece → Option α}
    (hread : ∀ s n, read (.heading s n) = none) (current : Option Severity)
    (groups : List ChangeGroup) : (headedPieces paths current groups).filterMap read =
      groups.flatMap fun k => k.pieces.filterMap read := by
  induction groups generalizing current with
  | nil => rfl
  | cons k groups ih =>
      rw [List.flatMap_cons, ← ih (some k.severity), ← List.filterMap_append]
      by_cases h : current = some k.severity
      · rw [headedPieces_cons_of_eq h]
      · rw [headedPieces_cons_of_ne h, List.filterMap_cons_none (hread _ _)]

/-! ### Headings -/

/-- A group has a heading, unless it stands under the one before. -/
lemma heading_mem_or_eq (hk : k ∈ groups) : current = some k.severity ∨
    ∃ n, .heading k.severity n ∈ headedPieces paths current groups := by
  induction groups generalizing current with
  | nil => cases hk
  | cons j groups ih =>
      by_cases hj : current = some j.severity
      · rw [headedPieces_cons_of_eq hj, hj]
        rcases List.mem_cons.1 hk with rfl | hk
        · exact .inl rfl
        · exact (ih hk).imp_right fun ⟨n, hn⟩ => ⟨n, List.mem_append_right _ hn⟩
      · rw [headedPieces_cons_of_ne hj]
        right
        rcases List.mem_cons.1 hk with rfl | hk
        · exact ⟨_, List.mem_cons_self⟩
        · rcases ih hk with heq | ⟨n, hn⟩
          · have hsame : j.severity = k.severity := Option.some.inj heq
            rw [hsame]
            exact ⟨_, List.mem_cons_self⟩
          · exact ⟨n, List.mem_cons_of_mem _ (List.mem_append_right _ hn)⟩

/-- A group writes no heading. -/
lemma heading?_isNone_of_mem_pieces {piece : ReportPiece} (h : piece ∈ k.pieces) :
    piece.heading?.isNone = true := by
  rcases List.mem_cons.1 h with rfl | h
  · rfl
  · obtain ⟨g, _, rfl⟩ := List.mem_map.1 h
    rfl

lemma heading_not_mem_pieces : ReportPiece.heading s n ∉ k.pieces := fun h =>
  absurd (heading?_isNone_of_mem_pieces h) Bool.false_ne_true

/-- A heading is that of a group. -/
lemma exists_severity_eq_of_heading_mem (h : .heading s n ∈ headedPieces paths current groups) :
    ∃ k ∈ groups, k.severity = s := by
  induction groups generalizing current with
  | nil => cases h
  | cons k groups ih =>
      rw [headedPieces, List.append_assoc, List.mem_append, List.mem_append,
        or_iff_right heading_not_mem_pieces] at h
      rcases h with h | h
      · split at h
        · cases h
        · obtain ⟨rfl, _⟩ := ReportPiece.heading.inj (List.mem_singleton.1 h)
          exact ⟨k, List.mem_cons_self, rfl⟩
      · obtain ⟨j, hj, rfl⟩ := ih h
        exact ⟨j, List.mem_cons_of_mem _ hj, rfl⟩

/-! ### Under a heading -/

/-- The groups come with descending severities, none above the severity of the last heading. -/
structure Follow (current : Option Severity) (groups : List ChangeGroup) : Prop where
  below : ∀ s ∈ current, ∀ k ∈ groups, k.severity ≤ s
  descending : groups.Pairwise fun k j => j.severity ≤ k.severity

/-- A group may follow a heading of its own severity. -/
lemma Follow.self (h : Follow current (k :: groups)) : Follow (some k.severity) (k :: groups) := by
  refine ⟨fun s hs => ?_, h.descending⟩
  obtain rfl := Option.some.inj hs
  exact List.forall_mem_cons.2 ⟨Nat.le_refl _, (List.pairwise_cons.1 h.descending).1⟩

lemma Follow.tail (h : Follow current (k :: groups)) : Follow (some k.severity) groups :=
  ⟨fun s hs j hj => h.self.below s hs j (List.mem_cons_of_mem _ hj), h.descending.tail⟩

/-- A new heading is for a lesser severity. -/
lemma Follow.lt_of_ne (h : Follow current (k :: groups)) (hne : current ≠ some k.severity) :
    ∀ t ∈ current, k.severity.rank < t.rank := by
  intro t ht
  refine Nat.lt_of_le_of_ne (h.below t ht k List.mem_cons_self) fun heq => hne ?_
  rw [Option.mem_def.1 ht, Severity.rank_injective heq]

/-- **Up to the next heading stand the groups of the severity.** -/
theorem parts_takeWhile_headedPieces (h : Follow (some s) groups) :
    ((headedPieces paths (some s) groups ++ [ReportPiece.summary total]).takeWhile
        fun piece => piece.heading?.isNone).filterMap ReportPiece.part? =
      (groups.filter (·.severity = s)).map fun k => (k.path, k.entity) := by
  induction groups with
  | nil => rfl
  | cons k groups ih =>
      by_cases hk : some s = some k.severity
      · obtain rfl := Option.some.inj hk
        rw [headedPieces_cons_of_eq rfl, List.append_assoc,
          List.takeWhile_append_of_pos fun _ => heading?_isNone_of_mem_pieces,
          List.filterMap_append, ih h.tail, filterMap_part?_pieces,
          List.filter_cons, if_pos (decide_eq_true rfl)]
        rfl
      · -- the next heading is there at once, and nothing behind it has the severity
        have none : (k :: groups).filter (·.severity = s) = [] := by
          refine List.filter_eq_nil_iff.2 fun j hj heq => ?_
          have hle : j.severity ≤ k.severity := h.self.below _ rfl j hj
          rw [of_decide_eq_true heq, Severity.le_iff_rank_le] at hle
          exact absurd (h.lt_of_ne hk s rfl) (Nat.not_lt.2 hle)
        rw [headedPieces_cons_of_ne hk, none]
        rfl

/-- A heading is the one of the first group, or it stands behind this group. -/
lemma heading_suffix_cons (hafter : .heading s n :: after <:+
      headedPieces paths current (k :: groups) ++ [.summary total]) :
    (current ≠ some k.severity ∧ s = k.severity ∧ n = paths k.severity ∧
      after = k.pieces ++ (headedPieces paths (some k.severity) groups ++ [.summary total])) ∨
    .heading s n :: after <:+ headedPieces paths (some k.severity) groups ++ [.summary total] := by
  by_cases hk : current = some k.severity
  · rw [headedPieces_cons_of_eq hk, List.append_assoc] at hafter
    exact .inr (suffix_of_suffix_append heading_not_mem_pieces hafter)
  · rw [headedPieces_cons_of_ne hk, List.cons_append, List.append_assoc] at hafter
    rcases List.suffix_cons_iff.1 hafter with heq | hafter
    · obtain ⟨hpiece, rfl⟩ := List.cons.inj heq
      obtain ⟨rfl, rfl⟩ := ReportPiece.heading.inj hpiece
      exact .inl ⟨hk, rfl, rfl, rfl⟩
    · exact .inr (suffix_of_suffix_append heading_not_mem_pieces hafter)

/-- **Under a heading stand all groups of its severity**, and their number is in the heading.  The
severity is below that of the heading before. -/
theorem eq_of_heading_suffix (h : Follow current groups) (hafter : .heading s n :: after <:+
      headedPieces paths current groups ++ [.summary total]) :
    (∀ t ∈ current, s.rank < t.rank) ∧ n = paths s ∧
      (after.takeWhile fun piece => piece.heading?.isNone).filterMap ReportPiece.part? =
        (groups.filter (·.severity = s)).map fun k => (k.path, k.entity) := by
  induction groups generalizing current with
  | nil =>
      rcases List.suffix_cons_iff.1 hafter with heq | hafter
      · cases heq
      · cases List.suffix_nil.1 hafter
  | cons k groups ih =>
      rcases heading_suffix_cons hafter with ⟨hne, rfl, rfl, rfl⟩ | hafter
      · refine ⟨h.lt_of_ne hne, rfl, ?_⟩
        rw [← List.append_assoc, ← headedPieces_cons_of_eq rfl]
        exact parts_takeWhile_headedPieces h.self
      · -- further behind the severities are lesser, so that the first group is not of this one
        obtain ⟨hlt, hn, hparts⟩ := ih h.tail hafter
        have hlt := hlt k.severity rfl
        refine ⟨fun t ht => Nat.lt_of_lt_of_le hlt (h.below t ht k List.mem_cons_self), hn, ?_⟩
        rw [List.filter_cons, if_neg fun heq =>
          hlt.ne' (congrArg Severity.rank (of_decide_eq_true heq))]
        exact hparts

/-- Headings come with descending severities. -/
lemma pairwise_headings (h : Follow current groups) (total : Summary) :
    ((headedPieces paths current groups ++ [ReportPiece.summary total]).filterMap
      ReportPiece.heading?).Pairwise fun a b => b.1.rank < a.1.rank := by
  induction groups generalizing current with
  | nil => exact .nil
  | cons k groups ih =>
      have hrest := ih h.tail
      by_cases hk : current = some k.severity
      · rwa [headedPieces_cons_of_eq hk, List.append_assoc, List.filterMap_append,
          filterMap_heading?_pieces, List.nil_append]
      · rw [headedPieces_cons_of_ne hk, List.cons_append, List.append_assoc,
          List.filterMap_cons_some (ReportPiece.heading?_eq_some_iff.2 rfl),
          List.filterMap_append, filterMap_heading?_pieces, List.nil_append]
        refine List.pairwise_cons.2 ⟨fun a ha => ?_, hrest⟩
        obtain ⟨piece, hpiece, ha⟩ := List.mem_filterMap.1 ha
        obtain ⟨s, n⟩ := a
        obtain rfl := ReportPiece.heading?_eq_some_iff.1 ha
        obtain ⟨before, after, heq⟩ := List.append_of_mem hpiece
        exact (eq_of_heading_suffix h.tail ⟨before, heq.symm⟩).1 k.severity rfl

lemma summary_not_mem_headedPieces : .summary total ∉ headedPieces paths current groups := by
  induction groups generalizing current with
  | nil => exact List.not_mem_nil
  | cons k groups ih =>
      by_cases hk : current = some k.severity
      · simp [headedPieces_cons_of_eq hk, pieces, ih]
      · simp [headedPieces_cons_of_ne hk, pieces, ih]

/-! ### Under a path -/

/-- Behind the records of a group no record follows at once. -/
lemma takeWhile_record?_headedPieces (current : Option Severity) (groups : List ChangeGroup) :
    (headedPieces paths current groups ++ [ReportPiece.summary total]).takeWhile
      (fun piece => piece.record?.isSome) = [] := by
  cases groups with
  | nil => rfl
  | cons k groups =>
      by_cases hk : current = some k.severity
      · rw [headedPieces_cons_of_eq hk]
        rfl
      · rw [headedPieces_cons_of_ne hk]
        rfl

/-- **Under a path stand the records of a group.** -/
theorem eq_of_part_suffix (hafter : .part p e :: after <:+
      headedPieces paths current groups ++ [.summary total]) :
    ∃ k ∈ groups, k.path = p ∧ k.entity = e ∧
      after.takeWhile (fun piece => piece.record?.isSome) = k.changes.map .record := by
  induction groups generalizing current with
  | nil =>
      rcases List.suffix_cons_iff.1 hafter with heq | hafter
      · cases heq
      · cases List.suffix_nil.1 hafter
  | cons k groups ih =>
      have hafter : .part p e :: after <:+ k.pieces ++
          (headedPieces paths (some k.severity) groups ++ [.summary total]) := by
        by_cases hk : current = some k.severity
        · rwa [headedPieces_cons_of_eq hk, List.append_assoc] at hafter
        · rw [headedPieces_cons_of_ne hk, List.cons_append, List.append_assoc] at hafter
          have hpart : ReportPiece.part p e ∉ [.heading k.severity (paths k.severity)] := by simp
          exact suffix_of_suffix_append hpart hafter
      rw [pieces, List.cons_append] at hafter
      rcases List.suffix_cons_iff.1 hafter with heq | hafter
      · obtain ⟨hpiece, rfl⟩ := List.cons.inj heq
        obtain ⟨rfl, rfl⟩ := ReportPiece.part.inj hpiece
        refine ⟨k, List.mem_cons_self, rfl, rfl, ?_⟩
        rw [List.takeWhile_append_of_pos (by simp [ReportPiece.record?]),
          takeWhile_record?_headedPieces, List.append_nil]
      · obtain ⟨j, hj, hshown⟩ := ih (suffix_of_suffix_append (by simp) hafter)
        exact ⟨j, List.mem_cons_of_mem _ hj, hshown⟩

end ChangeGroup

/-! ## Reports of changelogs -/

namespace Changelog

variable {c : Changelog}

/-- What the report of a changelog shows.  It says that there is nothing to show, or it has the
lines of its pieces, one after another: at most one heading for each severity, the most severe
first, and one for each severity that a group has; in a heading the number of path lines up to the
next one, which are the groups of the severity; one path line for each path that an entry is about;
under it the entries of the path; and behind all of them the counts. -/
structure IsPresented (c : Changelog) : Prop where
  empty : c.changes = [] → c.report = "No changes\n"
  written : c.changes ≠ [] →
    ∃ lines, List.Forall₂ ReportPiece.Writes c.pieces lines ∧ c.report = String.join lines
  headings : ((c.pieces.filterMap ReportPiece.heading?).map Prod.fst).Sublist
    [.breaking, .warning, .info]
  headed : ∀ s, (∃ n, .heading s n ∈ c.pieces) ↔ ∃ k ∈ c.groups, k.severity = s
  counted : ∀ {s n after}, .heading s n :: after <:+ c.pieces →
    n = ((after.takeWhile fun piece => piece.heading?.isNone).filterMap ReportPiece.part?).length
  collected : ∀ {s n after}, .heading s n :: after <:+ c.pieces →
    ((after.takeWhile fun piece => piece.heading?.isNone).filterMap ReportPiece.part?).map Prod.fst
      = (c.groups.filter (·.severity = s)).map ChangeGroup.path
  once : ((c.pieces.filterMap ReportPiece.part?).map Prod.fst).Nodup
  complete : ∀ p, p ∈ (c.pieces.filterMap ReportPiece.part?).map Prod.fst ↔
    ∃ g ∈ c.changes, g.change.path = p
  followed : ∀ {p e after}, .part p e :: after <:+ c.pieces →
    after.takeWhile (fun piece => piece.record?.isSome) =
        (c.changes.filter (·.change.path = p)).map .record ∧
      ∀ g ∈ c.changes, g.change.path = p → g.change.entity = e
  records : c.pieces.filterMap ReportPiece.record? = c.changes
  closed : ∃ body, c.pieces = body ++ [.summary c.summary] ∧ ∀ total, .summary total ∉ body

lemma report_eq (c : Changelog) : c.report =
    if c.changes = [] then "No changes\n" else String.join (c.pieces.map ReportPiece.text) := by
  rw [report, isEmpty]
  simp only [List.isEmpty_iff]

lemma report_of_ne_nil (h : c.changes ≠ []) : ∃ lines,
    List.Forall₂ ReportPiece.Writes c.pieces lines ∧ c.report = String.join lines :=
  ⟨_, ReportPiece.forall₂_writes_iff.2 rfl, c.report_eq.trans (if_neg h)⟩

lemma exists_heading_mem_iff (s : Severity) :
    (∃ n, .heading s n ∈ c.pieces) ↔ ∃ k ∈ c.groups, k.severity = s := by
  simp only [pieces, List.mem_append, List.mem_singleton, reduceCtorEq, or_false]
  constructor
  · rintro ⟨n, hn⟩
    exact ChangeGroup.exists_severity_eq_of_heading_mem hn
  · rintro ⟨k, hk, rfl⟩
    exact (ChangeGroup.heading_mem_or_eq hk).resolve_left nofun

/-- Headings and the summary apart, a report is that of the groups. -/
lemma filterMap_pieces {α : Type} {read : ReportPiece → Option α}
    (hheading : ∀ s n, read (.heading s n) = none) (hsummary : ∀ t, read (.summary t) = none)
    (c : Changelog) :
    c.pieces.filterMap read = c.groups.flatMap fun k => k.pieces.filterMap read := by
  rw [pieces, List.filterMap_append, ChangeGroup.filterMap_headedPieces hheading,
    List.filterMap_cons_none (hsummary _), List.filterMap_nil, List.append_nil]

lemma parts_pieces (c : Changelog) :
    (c.pieces.filterMap ReportPiece.part?).map Prod.fst = c.groups.map ChangeGroup.path := by
  rw [filterMap_pieces (fun _ _ => rfl) fun _ => rfl, List.map_flatMap, List.map_eq_flatMap]
  simp

lemma records_pieces (c : Changelog) : c.pieces.filterMap ReportPiece.record? = c.changes := by
  rw [filterMap_pieces (fun _ _ => rfl) fun _ => rfl, ← c.isGrouping_groups.changes]
  simp

lemma pathCount_eq_length (c : Changelog) (s : Severity) :
    c.pathCount s = (c.groups.filter (·.severity = s)).length := by
  rw [pathCount, List.countP_eq_length_filter]
  rfl

lemma IsGathered.follow (h : c.IsGathered) : ChangeGroup.Follow none c.groups :=
  ⟨by simp, h.descending⟩

/-- Descending severities are among all of them. -/
lemma sublist_of_pairwise_rank {l : List Severity} (h : l.Pairwise fun a b => b.rank < a.rank) :
    l.Sublist [.breaking, .warning, .info] := by
  have nodup : l.Nodup := h.imp fun {a b} hlt heq => absurd (congrArg Severity.rank heq) hlt.ne'
  have subset : l ⊆ [.breaking, .warning, .info] := fun s _ => by cases s <;> decide
  have : Std.Antisymm fun a b : Severity => b.rank < a.rank :=
    ⟨fun _ _ hab hba => absurd hab (Nat.lt_asymm hba)⟩
  exact List.sublist_of_subperm_of_pairwise (List.subperm_of_subset nodup subset) h (by decide)

/-- **A gathered changelog is presented by its report.** -/
theorem IsGathered.isPresented (h : c.IsGathered) (hone : HasOneEntity c.changes) :
    c.IsPresented where
  empty h := c.report_eq.trans (if_pos h)
  written := report_of_ne_nil
  headings := sublist_of_pairwise_rank
    (List.pairwise_map.2 (ChangeGroup.pairwise_headings h.follow c.summary))
  headed := exists_heading_mem_iff
  counted hafter := by
    obtain ⟨_, rfl, hparts⟩ := ChangeGroup.eq_of_heading_suffix h.follow hafter
    rw [hparts, List.length_map, pathCount_eq_length]
  collected hafter := by
    obtain ⟨_, _, hparts⟩ := ChangeGroup.eq_of_heading_suffix h.follow hafter
    rw [hparts, List.map_map]
    rfl
  once := by
    rw [parts_pieces]
    exact h.distinct
  complete p := by
    rw [parts_pieces]
    exact mem_paths_groups_iff
  followed hafter := by
    obtain ⟨k, hk, rfl, rfl, hrecords⟩ := ChangeGroup.eq_of_part_suffix hafter
    refine ⟨hrecords.trans (congrArg _ (h.changes_eq hk)), fun g hg hpath => ?_⟩
    exact hone g hg k.first (c.isGrouping_groups.mem_iff.2 ⟨k, hk, ChangeGroup.first_mem_changes k⟩)
      hpath
  records := c.records_pieces
  closed := ⟨_, rfl, fun _ => ChangeGroup.summary_not_mem_headedPieces⟩

end Changelog

/-- **The report of a changelog is complete and its headings count right**, and so is the report of
what is left from a severity on. -/
theorem Contract.changelog_presented (old new : Contract) (settings : ChangelogSettings) :
    (old.changelog new settings).IsPresented ∧
      ∀ s, ((old.changelog new settings).filter s).IsPresented := by
  have gathered := isGathered_changelog old new settings
  have hone : Changelog.HasOneEntity (old.changelog new settings).changes := fun g hg h hh =>
    (hasOneEntity_grade old new settings).uncovered g ((Changelog.sorted_perm _).mem_iff.1 hg) h
      ((Changelog.sorted_perm _).mem_iff.1 hh)
  exact ⟨gathered.isPresented hone, fun s => (gathered.filter s).isPresented fun g hg h hh =>
    hone g (List.mem_filter.1 hg).1 h (List.mem_filter.1 hh).1⟩

/-- One column goes, one gets another type and has to have a value, and one comes. -/
theorem Contract.changelog_presented_of_columns :
    let old := single [.plain "gone" .string, .plain "id" .string]
    let new := single [.scalar { name := "id", required := true } .int {}, .plain "note" .string]
    (old.changelog new {}).report = String.join [
        "\nBreaking changes (2):\n",
        "  models.orders.fields.gone (field)\n",
        "    - Field removed [field-removed]\n",
        "  models.orders.fields.id (field)\n",
        "    ~ Field type changed from string to int [field-type-changed]\n",
        "    ~ Field became required [field-required-added]\n",
        "\nWarnings (1):\n",
        "  models.orders.fields.note (field)\n",
        "    + Optional field added [field-added-optional]\n",
        "\nSummary: 3 breaking, 1 warning, 0 info (4 total)\n"] ∧
      ((old.changelog new {}).filter .breaking).report = String.join [
        "\nBreaking changes (2):\n",
        "  models.orders.fields.gone (field)\n",
        "    - Field removed [field-removed]\n",
        "  models.orders.fields.id (field)\n",
        "    ~ Field type changed from string to int [field-type-changed]\n",
        "    ~ Field became required [field-required-added]\n",
        "\nSummary: 3 breaking, 0 warning, 0 info (3 total)\n"] := by
  intro old new
  have columns : (old.compare new).changes = [
      .removed ["models", "orders", "fields", "gone"] (.field (.plain "gone" .string)),
      .modified ["models", "orders", "fields", "id"] .type (.field (.plain "id" .string))
        (.field (.scalar { name := "id", required := true } .int {})),
      .modified ["models", "orders", "fields", "id"] .nullability (.field (.plain "id" .string))
        (.field (.scalar { name := "id", required := true } .int {})),
      .added ["models", "orders", "fields", "note"] (.field (.plain "note" .string))] := rfl
  have distinguished : Changelog.Distinguished
      ((old.compare new).changes.map (Change.grade {})) := distinguished_grade {}
  rw [columns] at distinguished
  have grades : old.changelog new {} = ⟨(old.compare new).changes.map (Change.grade {})⟩ := by
    -- nothing is covered, and the comparison has the order of reports
    rw [changelog, columns]
    exact congrArg Changelog.mk (Changelog.eq_sorted distinguished (.refl _) (by decide)).symm
  rw [columns] at grades
  obtain ⟨presented, left⟩ := changelog_presented old new {}
  rw [grades] at presented left ⊢
  constructor
  · obtain ⟨lines, hlines, hreport⟩ := presented.written (List.cons_ne_nil _ _)
    rw [hreport, ← ReportPiece.forall₂_writes_iff.1 hlines]
    rfl
  · obtain ⟨lines, hlines, hreport⟩ := (left .breaking).written (List.cons_ne_nil _ _)
    rw [hreport, ← ReportPiece.forall₂_writes_iff.1 hlines]
    rfl

end ContractDrift
