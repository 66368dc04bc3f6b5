/-!
# Why a contract cannot be loaded

Every way in which loading fails, and the message about it.
-/

namespace ContractDrift

/-- Why a file cannot be read. -/
inductive ReadFailure where
  /-- Nothing is there, at the place that names lead to from the root. -/
  | missing (names : List String)
  /-- A part of the path is a file. -/
  | notDirectory
  | isDirectory
  /-- The bytes of the file are no text. -/
  | notText
  /-- The file is not in the directory of the document that refers to it. -/
  | outside (directory : String)
  deriving DecidableEq, Repr, Inhabited

namespace ReadFailure

/-- The reason shown. -/
def message : ReadFailure → String
  | .missing _ => "No such file or directory (os error 2)"
  | .notDirectory => "Not a directory (os error 20)"
  | .isDirectory => "Is a directory (os error 21)"
  | .notText => "stream did not contain valid UTF-8"
  | .outside directory => "resolves outside " ++ directory

end ReadFailure

/-- Why two parts of a field's declaration do not go together. -/
inductive ShapeConflict where
  /-- A scalar type beside fields. -/
  | fieldsOfScalar (type : String)
  /-- Keywords of scalar fields on a field with fields. -/
  | keywordsOfNested
  /-- Fields beside the items of an array. -/
  | fieldsBesideItems
  /-- Items that are arrays of objects themselves. -/
  | nestedItems
  deriving DecidableEq, Repr, Inhabited

namespace ShapeConflict

/-- The reason shown. -/
def message : ShapeConflict → String
  | .fieldsOfScalar type => "scalar type '" ++ type ++ "' cannot have nested fields"
  | .keywordsOfNested => "nested field cannot carry scalar constraints"
  | .fieldsBesideItems => "array fields declare children under items"
  | .nestedItems => "nested arrays of objects are not supported"

end ShapeConflict

/-- Why the keywords of a rule make up no threshold. -/
inductive ThresholdProblem where
  /-- A range of so many values instead of two. -/
  | range (count : Nat)
  | timeUnit (unit : String)
  deriving DecidableEq, Repr, Inhabited

namespace ThresholdProblem

/-- The reason shown. -/
def message : ThresholdProblem → String
  | .range count =>
    "mustBeBetween needs two values, got " ++ String.ofList (Nat.toDigits 10 count)
  | .timeUnit unit => "unknown time unit '" ++ unit ++ "'"

end ThresholdProblem

/-- Why a contract cannot be loaded. -/
inductive LoadError where
  | read (location : String) (failure : ReadFailure)
  | fetch (location reason : String)
  /-- A location on the network. -/
  | remoteUnsupported (location : String)
  /-- A text that is no contract document. -/
  | malformed
  | emptyDocument
  | duplicateName (scope kind name : String)
  | unknownType (path type : String)
  | missingType (path : String)
  | conflictingShape (path : String) (conflict : ShapeConflict)
  | unresolvedReference (path reference : String)
  /-- A reference to a local file in a document that has no place. -/
  | unanchoredReference (reference : String)
  | unknownMetric (path metric : String)
  | invalidThreshold (path : String) (problem : ThresholdProblem)
  deriving DecidableEq, Repr, Inhabited

namespace LoadError

/-- The message shown. -/
def message : LoadError → String
  | .read location failure => "Failed to read " ++ location ++ ": " ++ failure.message
  | .fetch location reason => "Failed to fetch " ++ location ++ ": " ++ reason
  | .remoteUnsupported location =>
    "Loading remote location " ++ location ++ " requires the 'http' feature"
  | .malformed => "Invalid contract document"
  | .emptyDocument => "Invalid contract document: document is empty"
  | .duplicateName scope kind name => scope ++ ": duplicate " ++ kind ++ " name '" ++ name ++ "'"
  | .unknownType path type => path ++ ": unknown type '" ++ type ++ "'"
  | .missingType path => path ++ ": missing type"
  | .conflictingShape path conflict => path ++ ": " ++ conflict.message
  | .unresolvedReference path reference =>
    path ++ ": cannot resolve reference '" ++ reference ++ "'"
  | .unanchoredReference reference =>
    "Cannot resolve local reference '" ++ reference ++ "' without a document location"
  | .unknownMetric path metric => path ++ ": unknown quality metric '" ++ metric ++ "'"
  | .invalidThreshold path problem => path ++ ": invalid threshold: " ++ problem.message

end LoadError

end ContractDrift
