import ContractDrift.Changelog.Basic
import ContractDrift.Changelog.Rule
import ContractDrift.Changelog.Settings
import ContractDrift.Changelog.Severity
import ContractDrift.CommandLine.Arguments
import ContractDrift.CommandLine.Run
import ContractDrift.Comparison.Change
import ContractDrift.Comparison.Index
import ContractDrift.Comparison.Value
import ContractDrift.Configuration.Basic
import ContractDrift.Configuration.File
import ContractDrift.Contract.Basic
import ContractDrift.Contract.Constraints
import ContractDrift.Contract.DataType
import ContractDrift.Contract.Decode
import ContractDrift.Contract.Encode
import ContractDrift.Contract.Field
import ContractDrift.Contract.Path
import ContractDrift.Contract.Quality
import ContractDrift.Contract.Relation
import ContractDrift.Contract.Server
import ContractDrift.Contract.Threshold
import ContractDrift.Decimal.Binary64
import ContractDrift.Decimal.Layout
import ContractDrift.Decimal.Shortest
import ContractDrift.Declaration.Basic
import ContractDrift.Declaration.Reader
import ContractDrift.Files.Fetcher
import ContractDrift.Files.Tree
import ContractDrift.Json.Basic
import ContractDrift.Json.Printer
import ContractDrift.Json.Reader
import ContractDrift.Json.Record
import ContractDrift.Lint.Check
import ContractDrift.Lint.Finding
import ContractDrift.Loading.Contract
import ContractDrift.Loading.Error
import ContractDrift.Loading.Fetcher
import ContractDrift.Loading.Field
import ContractDrift.Loading.Quality
import ContractDrift.Loading.Reference
import ContractDrift.Loading.Settings
import ContractDrift.Main
import ContractDrift.Ordered.Entries
import ContractDrift.Ordered.Members
import ContractDrift.Pattern.Basic
import ContractDrift.Pattern.CharacterSet
import ContractDrift.Pattern.Escape
import ContractDrift.Pattern.Property
import ContractDrift.Pattern.Reader
import ContractDrift.Proofs.AcceptedValues
import ContractDrift.Proofs.Accounting
import ContractDrift.Proofs.Agreement
import ContractDrift.Proofs.Bare
import ContractDrift.Proofs.BetweenVersions
import ContractDrift.Proofs.Changes
import ContractDrift.Proofs.Classification
import ContractDrift.Proofs.Covering
import ContractDrift.Proofs.DeclarationOrder
import ContractDrift.Proofs.DeclaredFields
import ContractDrift.Proofs.DistinctNames
import ContractDrift.Proofs.EmptyRanges
import ContractDrift.Proofs.EnumMembers
import ContractDrift.Proofs.ExactValues
import ContractDrift.Proofs.Findings
import ContractDrift.Proofs.Frame
import ContractDrift.Proofs.FreeValues
import ContractDrift.Proofs.Gate
import ContractDrift.Proofs.GroupOrder
import ContractDrift.Proofs.Grouping
import ContractDrift.Proofs.Inclusion
import ContractDrift.Proofs.Inlining
import ContractDrift.Proofs.Insertion
import ContractDrift.Proofs.JsonText
import ContractDrift.Proofs.KeptKeywords
import ContractDrift.Proofs.KeyChanges
import ContractDrift.Proofs.Loaded
import ContractDrift.Proofs.LoadedNames
import ContractDrift.Proofs.LoadedValues
import ContractDrift.Proofs.LocalContent
import ContractDrift.Proofs.Lockstep
import ContractDrift.Proofs.Lookup
import ContractDrift.Proofs.Merging
import ContractDrift.Proofs.NameResolution
import ContractDrift.Proofs.Nearest
import ContractDrift.Proofs.Number
import ContractDrift.Proofs.Numerals
import ContractDrift.Proofs.PathVerdicts
import ContractDrift.Proofs.Places
import ContractDrift.Proofs.RecordSlots
import ContractDrift.Proofs.ReferenceChains
import ContractDrift.Proofs.ReferencedSpecifications
import ContractDrift.Proofs.Regrading
import ContractDrift.Proofs.Reordering
import ContractDrift.Proofs.ReportLayout
import ContractDrift.Proofs.Rounding
import ContractDrift.Proofs.RuleThreshold
import ContractDrift.Proofs.SameValue
import ContractDrift.Proofs.Scoping
import ContractDrift.Proofs.SelfComparison
import ContractDrift.Proofs.ShortestDecimal
import ContractDrift.Proofs.StandardJson
import ContractDrift.Proofs.Subtrees
import ContractDrift.Proofs.Symmetry
import ContractDrift.Proofs.Termination
import ContractDrift.Proofs.Tightening
import ContractDrift.Proofs.TypeSpelling
import ContractDrift.Proofs.TypeText
import ContractDrift.Proofs.TypeValues
import ContractDrift.Proofs.Visibility
import ContractDrift.Proofs.Widening
import ContractDrift.Proofs.WrittenForm
import ContractDrift.Report.Text
import ContractDrift.Text.Blank
import ContractDrift.Text.Count
import ContractDrift.Text.Letter
import ContractDrift.Toml.Document
import ContractDrift.Toml.Quoted
import ContractDrift.Toml.Value
import ContractDrift.Yaml.Core
import ContractDrift.Yaml.Cursor
import ContractDrift.Yaml.Node
import ContractDrift.Yaml.Scalar
import ContractDrift.Yaml.Slot
import ContractDrift.Yaml.Token
import ContractDrift.Yaml.Tree
