import Linkage.ClassFile.Bytecode
import Linkage.ClassFile.Layout
import Linkage.Declaration
import Std.Data.HashMap
/-
Loading of a class: its layout is read and the constants it names are looked up.
-/

namespace Linkage.ClassFile

def hasBit (flags bit : Nat) : Bool := flags.testBit bit

def classAccess (flags : Nat) : ClassAccess where
  isPublic := hasBit flags 0
  isInterface := hasBit flags 9
  isAbstract := hasBit flags 10
  isSynthetic := hasBit flags 12
  isAnnotationType := hasBit flags 13
  isEnum := hasBit flags 14

def fieldAccess (flags : Nat) : FieldAccess where
  isPrivate := hasBit flags 1
  isStatic := hasBit flags 3
  isSynthetic := hasBit flags 12

def methodAccess (flags : Nat) : MethodAccess where
  isPublic := hasBit flags 0
  isPrivate := hasBit flags 1
  isProtected := hasBit flags 2
  isStatic := hasBit flags 3
  isBridge := hasBit flags 6
  isVarargs := hasBit flags 7
  isNative := hasBit flags 8
  isAbstract := hasBit flags 10
  isSynthetic := hasBit flags 12

/-- The class at an index, where zero stands for none. -/
def optionalClass (pool : Pool) (stage : LoadStage) (index : Nat) :
    Loaded (Option String) :=
  if index = 0 then .ok none
  else do return some (← within stage (pool.classAt index))

/-- The first generic signature among attributes. -/
def loadSignature (pool : Pool) (attributes : List Attribute) :
    Loaded (Option String) :=
  match attributes.findSome? (fun
      | .signature index => some index
      | _ => none) with
  | none => .ok none
  | some index => do return some (← pool.textAt index)

/-- The internal name in the descriptor of a class. -/
def describedClass? (descriptor : String) : Option String := do
  let name ← descriptor.dropPrefix? 'L'
  let inner ← name.dropSuffix? ';'
  return inner.copy

/-- The internal name of an annotation type. -/
def loadAnnotationType (pool : Pool) (index : Nat) : Loaded String := do
  let descriptor ← within .annotationType (pool.textAt index)
  match describedClass? descriptor with
  | some name => return name
  | none => fault .annotationDescriptor

/-- The annotation types among attributes, in order. -/
def loadAnnotations (pool : Pool) (attributes : List Attribute) :
    Loaded (List String) :=
  (attributes.flatMap (fun
    | .annotations types => types
    | _ => [])).mapM (loadAnnotationType pool)

def loadExceptions (pool : Pool) (attributes : List Attribute) :
    Loaded (List String) :=
  (attributes.flatMap (fun
    | .exceptions types => types
    | _ => [])).mapM pool.classAt

def loadNested (pool : Pool) (entry : NestedRecord) : Loaded NestedType := do
  let name ← within .innerName (pool.classAt entry.inner)
  let outerName ← optionalClass pool .outerName entry.outer
  let kind := if entry.name = 0 then .anonymous
    else if outerName.isNone then .localType
    else .member
  return { name, outerName, kind }

def loadNestedTypes (pool : Pool) (attributes : List Attribute) :
    Loaded (List NestedType) :=
  (attributes.flatMap (fun
    | .innerClasses entries => entries
    | _ => [])).mapM (loadNested pool)

def loadField (pool : Pool) (entry : MemberRecord) : Loaded FieldDecl := do
  let name ← within .fieldName (pool.textAt entry.name)
  let descriptor ← within .fieldDescriptor (pool.textAt entry.descriptor)
  let signature ← within (.fieldSignature name) (loadSignature pool entry.attributes)
  let annotations ←
    within (.fieldAnnotations name) (loadAnnotations pool entry.attributes)
  return { name, descriptor, signature, access := fieldAccess entry.access, annotations }

def loadHandler (pool : Pool) (entry : HandlerRecord) : Loaded ExceptionHandler := do
  let catchType ← optionalClass pool .catchType entry.catchType
  return { startPc := entry.startPc, endPc := entry.endPc,
           handlerPc := entry.handlerPc, catchType }

/-- The line entries among attributes, ordered by offset. -/
def loadLines (attributes : List Attribute) : List LineEntry :=
  let entries := attributes.flatMap (fun
    | .lineNumbers entries => entries.map (fun entry => ⟨entry.1, entry.2⟩)
    | _ => [])
  entries.mergeSort (fun left right => left.startPc ≤ right.startPc)

/-- What the attributes of a body say about local variables: declarations, and
signatures that belong to a declaration with the same start and slot. -/
inductive VariableNote where
  | declares (entry : LocalVariable)
  | signs (startPc index : Nat) (signature : String)
  deriving DecidableEq, Repr

def loadVariable (pool : Pool) (entry : VariableRecord) : Loaded VariableNote := do
  let name ← within .localName (pool.textAt entry.name)
  let descriptor ← within .localDescriptor (pool.textAt entry.type)
  return .declares { startPc := entry.startPc, length := entry.length,
                     index := entry.index, name, descriptor, signature := none }

/-- The signature of a local variable. -/
def loadVariableType (pool : Pool) (entry : VariableRecord) : Loaded VariableNote := do
  let signature ← within .localSignature (pool.textAt entry.type)
  return .signs entry.startPc entry.index signature

/-- Everything that attributes say about local variables, in order. -/
def loadVariableNotes (pool : Pool) (attributes : List Attribute) :
    Loaded (List VariableNote) := do
  let notes ← attributes.mapM (fun
    | .localVariables entries => entries.mapM (loadVariable pool)
    | .localVariableTypes entries => entries.mapM (loadVariableType pool)
    | _ => .ok [])
  return notes.flatten

/-- The last signature for every start and slot. -/
def lastSignatures (notes : List VariableNote) : Std.HashMap (Nat × Nat) String :=
  notes.foldl (fun signatures note =>
    match note with
    | .declares _ => signatures
    | .signs startPc index signature => signatures.insert (startPc, index) signature) ∅

/-- Variables that have taken their signatures, and the signatures that are left. -/
structure Signing where
  signatures : Std.HashMap (Nat × Nat) String
  signed : Array LocalVariable := #[]

/-- The next variable takes the signature for its start and slot, if it is left. -/
def Signing.sign (state : Signing) (entry : LocalVariable) : Signing :=
  match state.signatures[(entry.startPc, entry.index)]? with
  | some signature =>
      { signatures := state.signatures.erase (entry.startPc, entry.index)
        signed := state.signed.push { entry with signature := some signature } }
  | none => { state with signed := state.signed.push entry }

/-- Whether a variable comes no later than another, by start and slot. -/
def variableNotAfter (left right : LocalVariable) : Bool :=
  left.startPc < right.startPc
    || (left.startPc = right.startPc && left.index ≤ right.index)

/-- The local variables with their signatures, ordered by start and slot.  A signature
goes to the first variable with its start and slot. -/
def loadVariables (pool : Pool) (attributes : List Attribute) :
    Loaded (List LocalVariable) := do
  let notes ← loadVariableNotes pool attributes
  let declared := notes.filterMap (fun
    | .declares entry => some entry
    | .signs _ _ _ => none)
  let signing : Signing := { signatures := lastSignatures notes }
  return (declared.foldl Signing.sign signing).signed.toList.mergeSort variableNotAfter

def loadCode (pool : Pool) (bytes : List UInt8) (handlers : List HandlerRecord)
    (attributes : List Attribute) : Loaded Code := do
  let instructions ← within .bytecode (Bytecode.decode pool bytes)
  let handlers ← within .handlers (handlers.mapM (loadHandler pool))
  let locals ← within .localVariables (loadVariables pool attributes)
  return { length := bytes.length, instructions, handlers,
           lines := loadLines attributes, locals }

/-- The first body among attributes. -/
def loadBody (pool : Pool) (attributes : List Attribute) : Loaded (Option Code) :=
  match attributes.findSome? (fun
      | .code bytes handlers inner => some (bytes, handlers, inner)
      | _ => none) with
  | none => .ok none
  | some (bytes, handlers, inner) => do
      return some (← loadCode pool bytes handlers inner)

def loadMethod (pool : Pool) (entry : MemberRecord) : Loaded MethodDecl := do
  let name ← within .methodName (pool.textAt entry.name)
  let descriptor ← within .methodDescriptor (pool.textAt entry.descriptor)
  let code ← within (.code name descriptor) (loadBody pool entry.attributes)
  let signature ← within (.methodSignature name) (loadSignature pool entry.attributes)
  let exceptions ← within (.exceptions name) (loadExceptions pool entry.attributes)
  let annotations ←
    within (.methodAnnotations name) (loadAnnotations pool entry.attributes)
  return { name, descriptor, signature, access := methodAccess entry.access, exceptions,
           annotations, code }

/-- The declaration that a layout describes. -/
def Layout.load (layout : Layout) (artifact : Int) : Loaded ClassDecl := do
  let pool := layout.pool
  let name ← within .className (pool.classAt layout.thisClass)
  let superName ← optionalClass pool .superName layout.superClass
  let interfaces ← layout.interfaces.mapM
    (fun index => within .interfaceName (pool.classAt index))
  let nested ← within .innerClasses (loadNestedTypes pool layout.attributes)
  let signature ← within .classSignature (loadSignature pool layout.attributes)
  let annotations ← within .classAnnotations (loadAnnotations pool layout.attributes)
  let fields ← within .fields (layout.fields.mapM (loadField pool))
  let methods ← within (.methods name) (layout.methods.mapM (loadMethod pool))
  return { name, access := classAccess layout.access,
           majorVersion := layout.majorVersion, superName, interfaces, signature,
           annotations, fields, methods,
           nestedTypes := nested.filter (fun entry => entry.name ≠ name),
           nesting := nested.reverse.find? (fun entry => entry.name = name),
           artifact }

/-- The declaration that the bytes of a class file describe. -/
def load (bytes : List UInt8) (artifact : Int) : Loaded ClassDecl := do
  let layout ← within .bytes
    (match Layout.ofBytes bytes with
      | .ok layout => .ok layout
      | .error error => fault (.format error))
  layout.load artifact

example : describedClass? "La/B;" = some "a/B" ∧ describedClass? "L" = none := by
  decide +kernel

end Linkage.ClassFile
