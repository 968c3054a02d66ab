import Linkage.Extraction.Declared
/-
References that instructions make.
-/

namespace Linkage

/-- The method whose body is read, and where. -/
structure BodySite where
  type : TypeSite
  method : MethodDecl
  /-- The source of the references of the body. -/
  source : MemberHandle

def BodySite.of (type : TypeSite) (method : MethodDecl) : BodySite where
  type := type
  method := method
  source := type.methodHandle method

/-- What earlier instructions of a body leave behind: the latest string constant,
and whether the call of the super constructor has been seen. -/
structure CallState where
  literal : Option String := none
  superCallSeen : Bool := false
  deriving DecidableEq, Repr

namespace BodySite

/-- The qualified form of a name. -/
def qualified (site : BodySite) (name : String) : String :=
  site.type.glossary.names.get name

/-- The flag of a virtual call whose target is a default method. -/
def virtualFlags (site : BodySite) (call : CallSite) : UInt32 :=
  if site.type.decl.supportsDefaultMethods && site.type.defaultCalls.get call then
    defaultMethodFlag
  else 0

/-- The reference of a call to its method. -/
def callReference (site : BodySite) (owner : String) (call : CallSite)
    (kind : ReferenceKind) (flags : UInt32) : Reference :=
  Reference.ofMethod site.source owner call.name call.descriptor kind flags

/-- Whether a constructor call is the first one on the super type in a constructor,
which is taken to be the call of the super constructor. -/
def isSuperCall (site : BodySite) (state : CallState) (owner : String) : Bool :=
  !state.superCallSeen && site.method.isConstructor && site.type.superType = some owner

/-- The class named by the constant that precedes a lookup of a class by name. -/
def forNameReferences (site : BodySite) (state : CallState) (owner : String)
    (call : CallSite) : List Reference :=
  match state.literal with
  | some literal =>
      if owner = "java.lang.Class" ∧ call.name = "forName" then
        [Reference.ofType site.source (site.qualified literal) .constantPoolUse]
      else []
  | none => []

/-- The references of a call on an owner. -/
def callDrafts (site : BodySite) (state : CallState) (owner : String) (call : CallSite) :
    List Draft :=
  match call.kind with
  | .dynamic => []
  | .virtual =>
      [{ reference := site.callReference owner call .virtualCall
          (site.virtualFlags call) }]
  | .interface => [{ reference := site.callReference owner call .interfaceCall 0 }]
  | .static =>
      (site.forNameReferences state owner call).map Draft.ofReference
        ++ [{ reference := site.callReference owner call .staticCall 0
              trail := .staticCall }]
  | .special =>
      if call.name = constructorName then
        if site.isSuperCall state owner then
          [{ reference := site.callReference owner call .superConstructorCall 0 }]
        else
          [{ reference := Reference.ofType site.source owner .instantiate },
            { reference := site.callReference owner call .constructorCall 0 }]
      else [{ reference := site.callReference owner call .specialCall 0 }]

/-- What a call leaves behind. -/
def afterCall (site : BodySite) (state : CallState) (call : CallSite) : CallState where
  literal := none
  superCallSeen :=
    state.superCallSeen
      || (call.kind = .special && call.name = constructorName
        && site.isSuperCall state (site.qualified call.owner))

/-- The kind of reference that a use of a field makes. -/
def fieldKind : FieldUse → ReferenceKind
  | .get => .getField
  | .put => .putField
  | .getStatic => .getStaticField
  | .putStatic => .putStaticField

/-- The reference of a use of a field. -/
def fieldDraft (site : BodySite) (use : FieldSite) : Draft where
  reference :=
    Reference.ofField site.source (site.qualified use.owner) use.name (fieldKind use.use)
  trail := if site.method.access.isSynthetic then .syntheticAccess else .plain

/-- The kind of reference that an instruction makes to its class operand; creation
itself is recorded at the constructor call. -/
def operandKind? (opcode : UInt8) : Option ReferenceKind :=
  if opcode = Opcode.arrayOfType then some .arrayAllocation
  else if opcode = Opcode.checkcast then some .checkcast
  else if opcode = Opcode.instanceOf then some .instanceOf
  else none

/-- The reference to the class that an operand names, if it names one. -/
def operandDrafts (site : BodySite) (operand : String) (kind : ReferenceKind) :
    List Draft :=
  (site.type.glossary.operands.get operand).toList.map
    (fun name => { reference := Reference.ofType site.source name kind })

/-- The references of an instruction. -/
def drafts (site : BodySite) (state : CallState) (instruction : Instruction) :
    List Draft :=
  match instruction.operation with
  | .invoke call => site.callDrafts state (site.qualified call.owner) call
  | .access use => [site.fieldDraft use]
  | .onType operand =>
      match operandKind? instruction.opcode with
      | some kind => site.operandDrafts operand kind
      | none => []
  | .multiArray operand => site.operandDrafts operand .arrayAllocation
  | .loadClass operand => site.operandDrafts operand .constantPoolUse
  | .loadString _ => []
  | .store _ => []
  | .other => []

/-- What an instruction leaves behind. -/
def after (site : BodySite) (state : CallState) (instruction : Instruction) : CallState :=
  match instruction.operation with
  | .invoke call => site.afterCall state call
  | .loadString value =>
      { state with literal := if value.isEmpty then none else some value }
  | _ => state

end BodySite

end Linkage
