import Linkage.Declaration
import Linkage.Descriptor
import Linkage.Signature
import Linkage.Table
/-
Glossaries: what the names, descriptors and signatures of a class say, each text
read once however often the class repeats it.
-/

namespace Linkage

/-- A descriptor or signature that cannot be read. -/
inductive TextError where
  | fieldDescriptor (text : String) (cause : DescriptorError)
  | methodDescriptor (text : String) (cause : DescriptorError)
  | signature (text : String) (cause : SignatureError)
  deriving DecidableEq, Repr

def TextError.message : TextError → String
  | .fieldDescriptor text cause =>
      "parse field descriptor " ++ text ++ ": " ++ cause.message
  | .methodDescriptor text cause =>
      "parse method descriptor " ++ text ++ ": " ++ cause.message
  | .signature text cause =>
      "malformed signature " ++ text ++ ": " ++ cause.message text.toList

/-- The class of a field descriptor. -/
def readFieldType (descriptor : String) : Except TextError (Option String) :=
  (fieldTypeClass descriptor).mapError (TextError.fieldDescriptor descriptor)

/-- What a method descriptor says about parameters and result. -/
structure MethodTypes where
  parameterClasses : List String
  resultClass : Option String
  argumentSlots : Nat
  deriving DecidableEq, Repr

/-- What a descriptor says. -/
def MethodTypes.of (descriptor : MethodDescriptor) : MethodTypes where
  parameterClasses := descriptor.parameterClasses
  resultClass := descriptor.resultClass?
  argumentSlots := descriptor.argumentSlots

/-- The types of a method descriptor. -/
def readMethodTypes (descriptor : String) : Except TextError MethodTypes :=
  ((MethodDescriptor.parse descriptor).map MethodTypes.of).mapError
    (TextError.methodDescriptor descriptor)

theorem readMethodTypes_noArguments : readMethodTypes "()V" = .ok ⟨[], none, 0⟩ := by
  have hparse : MethodDescriptor.parse "()V" = .ok ⟨[], .primitive 'V'⟩ := by cbv
  rw [readMethodTypes, hparse]
  rfl

/-- The classes that a generic signature names. -/
def readSignature (owner : SignatureOwner) (signature : String) :
    Except TextError (List SignatureType) :=
  (Signature.destructure owner signature).mapError (TextError.signature signature)

/-- Whether the generic signature of a method states its exceptions. -/
def statesExceptions (signature : String) : Bool :=
  '^' ∈ signature.toList

/-- The name that an instruction writes and references qualify. -/
def Instruction.name? (instruction : Instruction) : Option String :=
  match instruction.operation with
  | .invoke call => some call.owner
  | .access use => some use.owner
  | .onType operand => some operand
  | .loadString value => some value
  | _ => none

/-- The class operand of an instruction. -/
def Instruction.operand? (instruction : Instruction) : Option String :=
  match instruction.operation with
  | .onType operand => some operand
  | .multiArray operand => some operand
  | .loadClass operand => some operand
  | _ => none

/-- The names that a body writes. -/
def Code.names (code : Code) : List String :=
  code.handlers.filterMap ExceptionHandler.catchType
    ++ code.instructions.filterMap Instruction.name?

/-- The names that a method writes. -/
def MethodDecl.names (method : MethodDecl) : List String :=
  method.exceptions ++ method.annotations ++ (method.code.map Code.names).getD []

namespace ClassDecl

def bodies (decl : ClassDecl) : List Code :=
  decl.methods.filterMap MethodDecl.code

def locals (decl : ClassDecl) : List LocalVariable :=
  decl.bodies.flatMap Code.locals

/-- The names that a class writes. -/
def names (decl : ClassDecl) : List String :=
  decl.superName.toList ++ decl.interfaces ++ decl.annotations
    ++ decl.fields.flatMap FieldDecl.annotations ++ decl.methods.flatMap MethodDecl.names

/-- The class operands of a class. -/
def operands (decl : ClassDecl) : List String :=
  decl.bodies.flatMap (fun code => code.instructions.filterMap Instruction.operand?)

/-- The descriptors of the fields and local variables of a class. -/
def fieldDescriptors (decl : ClassDecl) : List String :=
  decl.fields.map FieldDecl.descriptor ++ decl.locals.map LocalVariable.descriptor

/-- The generic signatures of the methods of a class. -/
def methodSignatures (decl : ClassDecl) : List String :=
  decl.methods.filterMap MethodDecl.signature

end ClassDecl

/-- What the texts of a class say. -/
structure Glossary where
  /-- Qualified names, by internal name. -/
  names : Table qualifiedName
  operands : Table classOperand?
  fieldTypes : Table readFieldType
  methodTypes : Table readMethodTypes
  fieldSignatures : Table (readSignature .field)
  methodSignatures : Table (readSignature .method)
  variableSignatures : Table (readSignature .localVariable)
  /-- Whether the signature of a method states its exceptions. -/
  exceptionClauses : Table statesExceptions

def Glossary.of (decl : ClassDecl) : Glossary where
  names := .ofKeys _ decl.names
  operands := .ofKeys _ decl.operands
  fieldTypes := .ofKeys _ decl.fieldDescriptors
  methodTypes := .ofKeys _ (decl.methods.map MethodDecl.descriptor)
  fieldSignatures := .ofKeys _ (decl.fields.filterMap FieldDecl.signature)
  methodSignatures := .ofKeys _ decl.methodSignatures
  variableSignatures := .ofKeys _ (decl.locals.filterMap LocalVariable.signature)
  exceptionClauses := .ofKeys _ decl.methodSignatures

end Linkage
