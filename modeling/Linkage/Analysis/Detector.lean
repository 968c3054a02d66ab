import Linkage.Analysis.Problem
import Linkage.Resolution
/-
Detectors: what they keep of the references that they are given, and what they
report.  A detector reports the first reference of every key, in the order of the
keys.
-/

namespace Linkage

/-- Kinds worth checking.  An override of a method that no super type has is an
ordinary new method, and a type name found in a string is a guess. -/
def checkedKinds : KindSet :=
  (KindSet.all.without .override).without .constantPoolUse

/-- Reports about a type are one for each name. -/
def ownerKey (reference : Reference) : List String := [reference.typeName]

/-- Reports about a member are one for each target text and source. -/
def siteKey (reference : Reference) : List String :=
  reference.targetText :: reference.source.orderKey

/-- The references to report of those that were kept, the latest of which stands first:
the first of every key, in the order of the keys. -/
def firstOfEachKey (key : Reference → List String) (kept : List Reference) :
    List Reference :=
  sortByNames key (distinctBy key kept.reverse)

/-- Finds references that the known types cannot satisfy. -/
structure MissingReferences where
  known : Universe
  /-- References whose owner is unknown, the latest first. -/
  types : List Reference := []
  /-- References to members that the known owner lacks, the latest first. -/
  members : List Reference := []

namespace MissingReferences

def rule : Rule where
  id := "MISSING_REFERENCE"
  name := "Missing reference"
  description := "References to types or members absent from the analyzed classpath"

/-- Only references whose resolution was attempted and failed are kept. -/
def receive (detector : MissingReferences) (reference : Reference) :
    MissingReferences :=
  if !reference.attempted || reference.isResolved then detector
  else
    match detector.known.lookup reference.typeName with
    | none => { detector with types := reference :: detector.types }
    | some _ => { detector with members := reference :: detector.members }

/-- The word that messages use for what a reference points at. -/
def targetWord : TargetSort → String
  | .type => "Type"
  | .field => "Field"
  | .method => "Method"

def typeProblem (reference : Reference) : Problem :=
  .ofReference rule ("Type not found: " ++ reference.typeName) reference

def memberProblem (reference : Reference) : Problem :=
  .ofReference rule
    (targetWord reference.target ++ " not found: " ++ reference.targetText) reference

/-- Missing types come first, then missing members. -/
def problems (detector : MissingReferences) : List Problem :=
  (firstOfEachKey ownerKey detector.types).map typeProblem
    ++ (firstOfEachKey siteKey detector.members).map memberProblem

end MissingReferences

/-- Finds uses of members that the stubs of an execution environment lack. -/
structure UnavailableMembers where
  stubs : Universe
  /-- References to what the stubs lack, the latest first. -/
  uses : List Reference := []

namespace UnavailableMembers

def rule : Rule where
  id := "SYSTEM_API"
  name := "Unavailable system API"
  description := "Members used from system types that the minimum execution environment does not provide"

/-- Only references that the environment does not satisfy are kept. -/
def receive (detector : UnavailableMembers) (reference : Reference) :
    UnavailableMembers :=
  if Resolution.availableIn (some detector.stubs) reference then detector
  else { detector with uses := reference :: detector.uses }

def problem (reference : Reference) : Problem :=
  .ofReference rule
    ("Not available in the execution environment: " ++ reference.targetText) reference

def problems (detector : UnavailableMembers) : List Problem :=
  (firstOfEachKey siteKey detector.uses).map problem

end UnavailableMembers

/-- Counts the references that it is given, and may ask for the analysis to stop
after a number of them. -/
structure Recorder where
  id : String
  kinds : KindSet
  /-- The count at which to stop; zero is never reached. -/
  stopAfter : Nat
  received : Nat := 0
  deriving DecidableEq, Repr

namespace Recorder

def rule (recorder : Recorder) : Rule where
  id := recorder.id
  name := "Recorder"
  description := "Records references"

def receive (recorder : Recorder) : Recorder :=
  { recorder with received := recorder.received + 1 }

/-- Whether the next reference is the one to stop after. -/
def stopsNext (recorder : Recorder) : Bool :=
  recorder.stopAfter = recorder.received + 1

end Recorder

/-- A consumer of resolved references. -/
inductive Detector where
  | missing (detector : MissingReferences)
  | unavailable (detector : UnavailableMembers)
  | recorder (detector : Recorder)

namespace Detector

/-- Finds what the known types cannot satisfy; nothing found yet. -/
def missingFrom (known : Universe) : Detector := .missing { known := known }

/-- Finds what an environment does not provide; nothing found yet. -/
def unavailableIn (stubs : Universe) : Detector := .unavailable { stubs := stubs }

def rule : Detector → Rule
  | missing _ => MissingReferences.rule
  | unavailable _ => UnavailableMembers.rule
  | recorder detector => detector.rule

def kinds : Detector → KindSet
  | missing _ => checkedKinds
  | unavailable _ => checkedKinds
  | recorder detector => detector.kinds

/-- The detector after it was given a reference. -/
def receive (detector : Detector) (reference : Reference) : Detector :=
  match detector with
  | missing detector => missing (detector.receive reference)
  | unavailable detector => unavailable (detector.receive reference)
  | recorder detector => recorder detector.receive

/-- Whether the detector, given one more reference, asks for the analysis to stop. -/
def stopsNext : Detector → Bool
  | missing _ => false
  | unavailable _ => false
  | recorder detector => detector.stopsNext

def problems : Detector → List Problem
  | missing detector => detector.problems
  | unavailable detector => detector.problems
  | recorder _ => []

end Detector

end Linkage
