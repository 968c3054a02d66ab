import Linkage.Extraction.Declared
import Linkage.Extraction.Lines
import Linkage.Extraction.Timeline
/-
Local variables.  A reference store may introduce the variable whose range starts
at the next label; the store leaves a marker there, with its slot and line.  A
variable declares its type only if such a marker waits at its start.
-/

namespace Linkage

/-- The slot and line of a reference store. -/
structure LocalMarker where
  slot : Nat
  line : Nat
  deriving DecidableEq, Repr

/-- The markers at the labels that follow their stores. -/
abbrev PlacedMarkers := Std.TreeMap Nat LocalMarker

/-- A walk through a body that places markers. -/
structure MarkerWalk where
  lastLine : Option Nat := none
  /-- The marker of the latest store since the last label. -/
  pending : Option LocalMarker := none
  placed : PlacedMarkers := ∅

/-- Goes on to the next moment of a body.  Stores before the first line leave no marker,
and of several stores between two labels the last counts. -/
def MarkerWalk.meet (table : LineTable) (walk : MarkerWalk) : Moment → MarkerWalk
  | .label pc =>
      { lastLine := (table.lineAt pc).or walk.lastLine
        pending := none
        placed := match walk.pending with
          | some marker => walk.placed.insert pc marker
          | none => walk.placed }
  | .run instruction =>
      match instruction.operation, walk.lastLine with
      | .store slot, some line => { walk with pending := some ⟨slot, line⟩ }
      | _, _ => walk

/-- The markers of a body. -/
def placeMarkers (table : LineTable) (timeline : Array Moment) : PlacedMarkers :=
  (timeline.foldl (MarkerWalk.meet table) {}).placed

/-- References to the type of a local variable. -/
def variableReferences (glossary : Glossary) (source : MemberHandle)
    (entry : LocalVariable) : Except TextError (List Reference) :=
  match entry.signature with
  | some signature => do
      let types ← glossary.variableSignatures.get signature
      return signatureReferences source signature types
  | none => do
      let type ← glossary.fieldTypes.get entry.descriptor
      return type.toList.map
        (fun name => Reference.ofType source name .localVariableDeclaration)

/-- Whether a variable may declare a type: primitives and arguments do not. -/
def mayDeclareType (firstLocal : Nat) (entry : LocalVariable) : Bool :=
  entry.descriptor.utf8ByteSize ≠ 1 && firstLocal ≤ entry.index

/-- The references of local variables, and the markers that they have not used up. -/
structure DeclaredLocals where
  markers : PlacedMarkers
  references : Array Reference := #[]

/-- Goes on to the next local variable, which uses up the marker of its slot at its
start. -/
def DeclaredLocals.declare (glossary : Glossary) (source : MemberHandle)
    (firstLocal : Nat) (state : DeclaredLocals) (entry : LocalVariable) :
    Except TextError DeclaredLocals :=
  if mayDeclareType firstLocal entry then
    match state.markers[entry.startPc]? with
    | none => .ok state
    | some marker =>
        if marker.slot = entry.index then do
          let named ← variableReferences glossary source entry
          return {
            markers := state.markers.erase entry.startPc
            references := state.references
              ++ named.map (fun reference => reference.atLine (lineNumber marker.line)) }
        else .ok state
  else .ok state

/-- References to the types of declared local variables, with their lines. -/
def localReferences (glossary : Glossary) (source : MemberHandle) (firstLocal : Nat)
    (entries : List LocalVariable) (markers : PlacedMarkers) :
    Except TextError (Array Reference) := do
  let declared ← entries.foldlM (DeclaredLocals.declare glossary source firstLocal)
    { markers := markers }
  return declared.references

end Linkage
