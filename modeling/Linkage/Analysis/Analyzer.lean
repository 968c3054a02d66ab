import Linkage.Analysis.Detector
/-
Analyzers: references are resolved and delivered, in order, to the detectors
registered for their kind.  The routes of an analyzer list, for every kind, the
positions of its detectors, so a delivery is one look-up however many detectors
there are.
-/

namespace Linkage

/-- What an analyzer needs of the detectors that it gives references to. -/
class Receiver (δ : Type) where
  /-- The detector after it was given a reference. -/
  receive : δ → Reference → δ
  /-- Whether a detector that is given a reference asks for the analysis to stop. -/
  stopsAt : δ → Reference → Bool

instance : Receiver Detector where
  receive := Detector.receive
  stopsAt detector _ := detector.stopsNext

/-- Detectors with the routes to them. -/
structure Analyzer (δ : Type) where
  detectors : List δ := []
  /-- For the bit of every kind, the positions of the detectors registered for it. -/
  routes : Vector (List Nat) ReferenceKind.count := Vector.replicate _ []
  /-- Every kind that some detector is registered for. -/
  kinds : KindSet := .none

structure Delivery where
  position : Nat
  reference : Reference
  deriving DecidableEq, Repr

/-- Detectors after a round of deliveries. -/
structure Round (δ : Type) where
  detectors : List δ
  /-- Whether a detector has asked for the analysis to stop. -/
  stopped : Bool

namespace Analyzer

variable {δ : Type}

/-- Adds a detector for a set of kinds. -/
def register (analyzer : Analyzer δ) (detector : δ) (kinds : KindSet) :
    Analyzer δ where
  detectors := analyzer.detectors ++ [detector]
  routes := Vector.ofFn (fun bit =>
    if kinds.bits.getLsb bit then
      analyzer.routes[bit] ++ [analyzer.detectors.length]
    else analyzer.routes[bit])
  kinds := analyzer.kinds.union kinds

/-- Adds detectors in order, each for the kinds that it wants. -/
def ofDetectors (detectors : List Detector) : Analyzer Detector :=
  detectors.foldl (fun analyzer detector => analyzer.register detector detector.kinds) {}

/-- The positions of the detectors registered for a kind. -/
def route (analyzer : Analyzer δ) (kind : ReferenceKind) : List Nat :=
  analyzer.routes[kind.bitIndex]

/-- Gives a reference to the detector at one position. -/
def deliverOne [Receiver δ] (reference : Reference) (round : Round δ) (position : Nat) :
    Round δ :=
  match round.detectors[position]? with
  | none => round
  | some detector =>
      { detectors := round.detectors.set position (Receiver.receive detector reference)
        stopped := round.stopped || Receiver.stopsAt detector reference }

/-- Gives a reference to every detector registered for its kind, in the order of
registration; a request to stop does not cut the round short. -/
def dispatch [Receiver δ] (analyzer : Analyzer δ) (stopped : Bool)
    (reference : Reference) : Analyzer δ × Bool :=
  let round := (analyzer.route reference.kind).foldl (deliverOne reference)
    ⟨analyzer.detectors, stopped⟩
  ({ analyzer with detectors := round.detectors }, round.stopped)

/-- The deliveries that a reference causes. -/
def deliveries (analyzer : Analyzer δ) (reference : Reference) : List Delivery :=
  (analyzer.route reference.kind).map (⟨·, reference⟩)

/-- Resolves a reference unless that was attempted before. -/
def resolveOnce (known : Universe) (reference : Reference) : Reference :=
  if reference.attempted then reference else Resolution.apply known reference

/-- What an analysis leaves behind. -/
structure Run (δ : Type) where
  analyzer : Analyzer δ
  /-- All references, the processed ones resolved. -/
  references : Array Reference := #[]
  outcome : BatchOutcome := ⟨0, false⟩
  deliveries : Array Delivery := #[]
  /-- Whether the analysis has been told to stop, in time or not. -/
  stopped : Bool

/-- The run after one more reference.  Once it is told to stop, references stay as they
are. -/
def Run.advance [Receiver δ] (known : Universe) (run : Run δ) (reference : Reference) :
    Run δ :=
  if run.stopped then
    { run with
      references := run.references.push reference
      outcome := { run.outcome with cancelled := true } }
  else
    let resolved := resolveOnce known reference
    let (next, stopped) := run.analyzer.dispatch false resolved
    { analyzer := next
      references := run.references.push resolved
      outcome := { run.outcome with processed := run.outcome.processed + 1 }
      deliveries := run.deliveries ++ run.analyzer.deliveries resolved
      stopped }

/-- Resolves and dispatches references in order, and stops between two of them
once it is told to. -/
def analyze [Receiver δ] (known : Universe) (analyzer : Analyzer δ) (stopped : Bool)
    (references : List Reference) : Run δ :=
  references.foldl (Run.advance known) { analyzer, stopped }

def problems (analyzer : Analyzer Detector) : List Problem :=
  analyzer.detectors.flatMap Detector.problems

def rules (analyzer : Analyzer Detector) : List Rule :=
  analyzer.detectors.map Detector.rule

end Analyzer

end Linkage
