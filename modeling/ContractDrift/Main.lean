import ContractDrift.CommandLine.Run

/-!
# The program

Reads what a run needs, and writes its outcome. Which files are needed turns out only while they are
read, so a run that finds nothing somewhere is begun anew if there is something after all.
-/

open ContractDrift

/-- What is on the disk under names from the root; what cannot be read counts as absent. -/
def nodeOnDisk? (names : List String) : IO (Option FileNode) := do
  let path := FileTree.absolute names
  try
    let bytes ← IO.FS.readBinFile path
    match String.fromUTF8? bytes with
    | some content => return some (.text content)
    | none => return some .bytes
  catch
    | .inappropriateType .. => return some .directory
    | _ => return none

/-- The outcome of a run, with the files that it asks for. -/
partial def settle (s : Surroundings) (words : List String) : IO Outcome := do
  let outcome := s.run words
  match outcome.error.bind CommandError.missing? with
  | none => return outcome
  | some names =>
    match ← nodeOnDisk? names with
    | none => return outcome
    | some node => settle { s with files := s.files.withNode names node } words

def main (words : List String) : IO UInt32 := do
  let here ← IO.currentDir
  let working := (FileTree.steps here.toString).filter (· ≠ "")
  let input ←
    if words.contains inputLocation then
      pure (String.fromUTF8? (← (← IO.getStdin).readBinToEnd))
    else pure (some "")
  let outcome ← settle { files := { working }, input } words
  IO.print outcome.output
  match outcome.error with
  | some e => IO.eprintln ("Error: " ++ e.message)
  | none => if outcome.exitCode = 2 then IO.eprint usage
  return outcome.exitCode.toUInt32
