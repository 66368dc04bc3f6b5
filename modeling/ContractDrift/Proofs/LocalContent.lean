import ContractDrift.Proofs.Lockstep
import ContractDrift.Proofs.SelfComparison

/-!
# Local content stays unseen

A document that is loaded from a text has no location, and what it refers to comes from the network
or is refused before anything is fetched.  So what is found at other locations can not be told from
the result: two fetchers that give the same for each location of the network make the same of every
text, be it a contract or an error.

* `Fetcher.fetchReference_byLocation` — what is fetched for a document without a location.
* **`Contract.ofText_byLocation_congr`** — the result depends on the network only.
-/

namespace ContractDrift

open Yaml (Tree Document Token)

/-- Two ways to get documents that agree on the network. -/
def Fetcher.SameNetwork (fetch fetch' : String → Except LoadError String) : Prop :=
  ∀ location, isRemote location → fetch location = fetch' location

/-- A document without a location refers to the network, or to nothing that is looked at. -/
lemma Fetcher.fetchReference_byLocation (fetch : String → Except LoadError String) (r : String) :
    (byLocation fetch).fetchReference r none =
      if isRemote r then fetch r else .error (.unanchoredReference r) := by
  simp [byLocation]

lemma Fetcher.SameNetwork.fetchReference_congr {fetch fetch' : String → Except LoadError String}
    (h : SameNetwork fetch fetch') (r : String) :
    (byLocation fetch).fetchReference r none = (byLocation fetch').fetchReference r none := by
  rw [fetchReference_byLocation, fetchReference_byLocation]
  split
  · exact h r ‹_›
  · rfl

namespace Contract

variable {settings : LoaderSettings} {fetcher fetcher' : Fetcher} {base : Option String}

/-- The result is the same if the same is fetched for each reference. -/
lemma ofDeclaration_fetcher_congr
    (h : ∀ r, fetcher.fetchReference r base = fetcher'.fetchReference r base)
    (c : ContractDeclaration) :
    ofDeclaration settings fetcher base c = ofDeclaration settings fetcher' base c := by
  have hspecification (r : String) : (c.loadContext settings fetcher base).specification r =
      (c.loadContext settings fetcher' base).specification r :=
    LoadContext.specification_congr h
  have hdefinition (path r : String) : (c.loadContext settings fetcher base).definition path r =
      (c.loadContext settings fetcher' base).definition path r :=
    LoadContext.definition_congr (by rfl) h
  exact ofDeclaration_definition_congr (fun _ r _ _ path => by rw [hdefinition]) hspecification

/-- **A document that is loaded from a text does not see local content.**  For each text and all
settings the result is the same with two fetchers that give the same for the locations of the
network, whatever they give for others. -/
theorem ofText_byLocation_congr (settings : LoaderSettings) (text : String)
    {fetch fetch' : String → Except LoadError String} (h : Fetcher.SameNetwork fetch fetch') :
    ofText settings (.byLocation fetch) text = ofText settings (.byLocation fetch') text := by
  rw [ofText, ofText]
  split
  · rfl
  · cases ContractDeclaration.read? text with
    | none => rfl
    | some c => exact ofDeclaration_fetcher_congr h.fetchReference_congr c

end Contract

/-! ### A file that is there or not -/

namespace LocalReference

open FieldDocument (block contract modelsTokens tree)
open NanMinimum (treeUnder)

/-- A document with a field by a definition in a file. -/
def text : String := "models:\n  m:\n    fields:\n      f:\n        $ref: sku.yaml\n"

/-- The field as a tree. -/
def fieldTree : Tree := .mapping none [treeUnder "$ref" (.scalar none .plain "sku.yaml")]

/-- The field as a declaration. -/
def field : FieldDeclaration where
  keywords := { reference := some "sku.yaml" }

/-- No document is found. -/
def nowhere (location : String) : Except LoadError String := .error (.fetch location "not found")

/-- The file is found, and nothing else. -/
def onDisk (location : String) : Except LoadError String :=
  if location = "sku.yaml" then .ok "type: varchar" else nowhere location

lemma sameNetwork_onDisk : Fetcher.SameNetwork nowhere onDisk := by
  intro location h
  rw [onDisk, if_neg]
  rintro rfl
  exact absurd h (by decide)

set_option maxRecDepth 10000 in
lemma listOf?_text : Token.listOf? text = some (block [("models",
    modelsTokens (block [("$ref", [.scalar .plain "sku.yaml"])]))]) := by
  rfl

lemma read?_text : Document.read? text = some (.root (tree fieldTree)) := by
  simp only [Document.read?, listOf?_text, Option.bind_eq_bind, Option.bind_some]
  cbv

lemma read?_fieldTree : FieldDeclaration.read? .written fieldTree = some field := by
  unfold FieldDeclaration.read?
  rfl

/-- The reference is refused where no document is found. -/
lemma ofText_nowhere : Contract.ofText {} (.byLocation nowhere) text =
    .error (.unanchoredReference "sku.yaml") := by
  have blank : (Text.trim text).isEmpty = false := by rfl
  have external : Reference.ofText "sku.yaml" = .external "sku.yaml" [] := by rfl
  have notRemote : isRemote "sku.yaml" = false := by rfl
  have refused (path : String) : LoadContext.definition ⟨{}, .byLocation nowhere, none, []⟩ path
      "sku.yaml" = .error (.unanchoredReference "sku.yaml") := by
    rw [LoadContext.definition, external]
    refine bind_eq_error ?_
    rw [Fetcher.fetchReference_byLocation, notRemote]
    rfl
  rw [Contract.ofText, blank, FieldDocument.read?_tree read?_text read?_fieldTree]
  change Contract.ofDeclaration {} (.byLocation nowhere) none _ = _
  rw [FieldDocument.ofDeclaration_eq, LoadContext.field_eq]
  change Except.map contract ((LoadContext.definition _ _ "sku.yaml" >>= _) >>= _) = _
  rw [refused]
  rfl

end LocalReference

namespace Contract

open LocalReference in
/-- A file can not be told from no file: the reference to it is refused either way. -/
theorem ofText_byLocation_congr_of_file :
    Fetcher.SameNetwork nowhere onDisk ∧ nowhere "sku.yaml" ≠ onDisk "sku.yaml" ∧
    ofText {} (.byLocation nowhere) text = .error (.unanchoredReference "sku.yaml") ∧
    ofText {} (.byLocation onDisk) text = .error (.unanchoredReference "sku.yaml") := by
  refine ⟨sameNetwork_onDisk, nofun, ofText_nowhere, ?_⟩
  rw [← ofText_byLocation_congr {} text sameNetwork_onDisk]
  exact ofText_nowhere

end Contract

end ContractDrift
