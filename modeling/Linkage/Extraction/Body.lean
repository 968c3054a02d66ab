import Linkage.Extraction.Calls
import Linkage.Extraction.Markers
/-
Entries of a method body.  Caught types come first, then the references of the
instructions, then the types of local variables.  At a creation of a local or
anonymous type the entries of that type are met again, so that those without a
line of their own get the line of the creation.
-/

namespace Linkage

/-- Entries of local and anonymous types that have no line yet, by type name. -/
abbrev LocalTypes := Std.TreeMap String (List Nat)

/-- The entries to be met again at an instruction. -/
def replayed (site : BodySite) (localTypes : LocalTypes) (instruction : Instruction) :
    List Nat :=
  match instruction.operation with
  | .onType operand =>
      if instruction.opcode = Opcode.new then localTypes.getD (site.qualified operand) []
      else []
  | _ => []

/-- A walk through a body: the entries of the type so far, and where the body has met
them. -/
structure BodyWalk where
  entries : Array Entry
  positions : Array Position := #[]
  catches : Array CatchPlace := #[]
  state : CallState := {}

namespace BodyWalk

/-- Records a draft where the body stands. -/
def record (options : ExtractOptions) (site : BodySite) (walk : BodyWalk)
    (draft : Draft) : BodyWalk :=
  let entries := walk.entries.push (options.record site.type.scope draft)
  { walk with
    entries := entries
    positions := walk.positions.push (.entry (entries.size - 1)) }

/-- Records the type that a handler catches. -/
def recordCatch (options : ExtractOptions) (site : BodySite) (walk : BodyWalk)
    (handler : ExceptionHandler) : BodyWalk :=
  match handler.catchType with
  | none => walk
  | some name =>
      let next := walk.record options site
        (.ofReference (Reference.ofType site.source (site.qualified name) .catchException))
      { next with
        catches := next.catches.push ⟨next.entries.size - 1, handler.handlerPc⟩ }

/-- Goes on to the next moment of a body. -/
def meet (options : ExtractOptions) (site : BodySite) (localTypes : LocalTypes)
    (walk : BodyWalk) : Moment → BodyWalk
  | .label pc => { walk with positions := walk.positions.push (.label pc) }
  | .run instruction =>
      let state := walk.state
      let met := { walk with
        positions := walk.positions ++ (replayed site localTypes instruction).map Position.entry
        state := site.after state instruction }
      (site.drafts state instruction).foldl (record options site) met

/-- The walk through a whole body. -/
def through (options : ExtractOptions) (site : BodySite) (localTypes : LocalTypes)
    (code : Code) (timeline : Array Moment) (entries : Array Entry) : BodyWalk :=
  timeline.foldl (meet options site localTypes)
    (code.handlers.foldl (recordCatch options site) { entries := entries })

end BodyWalk

/-- The first local slot after the arguments. -/
def firstLocalSlot (method : MethodDecl) (types : MethodTypes) : Nat :=
  types.argumentSlots + (if method.access.isStatic then 0 else 1)

/-- The entries of a type after those of a body are added. -/
def addBody (options : ExtractOptions) (site : BodySite) (localTypes : LocalTypes)
    (firstLocal : Nat) (code : Code) (entries : Array Entry) :
    Except TextError (Array Entry) := do
  let timeline := code.timeline
  let declared ← localReferences site.type.glossary site.source firstLocal code.locals
    (placeMarkers (.ofEntries code.lines) timeline)
  let walk := BodyWalk.through options site localTypes code timeline entries
  return assignLines code.lines walk.catches walk.positions
    (walk.entries ++ declared.map
      (fun reference => options.record site.type.scope (.ofReference reference)))

/-- The entries of a type after those of a method are added. -/
def addMethod (options : ExtractOptions) (type : TypeSite) (localTypes : LocalTypes)
    (entries : Array Entry) (method : MethodDecl) : Except TextError (Array Entry) := do
  let types ← type.glossary.methodTypes.get method.descriptor
  let declared ← type.methodReferences method types
  let all := entries ++ declared.map
    (fun reference => options.record type.scope (.ofReference reference))
  if method.access.isNative || method.access.isAbstract then return all
  else
    match method.code with
    | none => return all
    | some code =>
        addBody options (.of type method) localTypes (firstLocalSlot method types) code all

end Linkage
