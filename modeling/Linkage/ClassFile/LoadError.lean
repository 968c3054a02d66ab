import Linkage.ClassFile.Reader
/-
Errors of loading a class: the cause, and the trail of what was being read when
it arose, outermost first.
-/

namespace Linkage.ClassFile

/-- The sorts of constant that a lookup may want. -/
inductive ConstantSort where
  | text
  | classRef
  | member
  | nameAndType
  | dynamicCall
  deriving DecidableEq, Repr

/-- The sort as messages write it. -/
def ConstantSort.label : ConstantSort → String
  | .text => "utf8"
  | .classRef => "class"
  | .member => "member ref"
  | .nameAndType => "name and type"
  | .dynamicCall => "invokedynamic"

/-- Why a class cannot be loaded. -/
inductive LoadFault where
  | format (error : FormatError)
  | missing (sort : ConstantSort)
  | unexpected (sort : ConstantSort)
  | missingConstant
  | annotationDescriptor
  | unsupportedOpcode (opcode : UInt8)
  | instructionLength (offset : Nat)
  | tableRange
  | lookupPairs
  | shortOperand
  | shortSwitch
  | missingWideOpcode
  deriving DecidableEq, Repr

/-- What was being read. -/
inductive LoadStage where
  | bytes
  | className
  | superName
  | interfaceName
  | innerClasses
  | innerName
  | outerName
  | classSignature
  | classAnnotations
  | fields
  | fieldName
  | fieldDescriptor
  | fieldSignature (field : String)
  | fieldAnnotations (field : String)
  | methods (owner : String)
  | methodName
  | methodDescriptor
  | code (method descriptor : String)
  | bytecode
  | handlers
  | catchType
  | localVariables
  | localName
  | localDescriptor
  | localSignature
  | methodSignature (method : String)
  | exceptions (method : String)
  | methodAnnotations (method : String)
  | annotationType
  | instruction (opcode : UInt8) (offset : Nat)
  | methodRef
  | fieldRef
  | dynamicCall
  | memberOwner
  | memberName
  | memberDescriptor
  deriving DecidableEq, Repr

def opcodeText (opcode : UInt8) : String :=
  let digit := fun (value : Nat) => "0123456789abcdef".toList.getD value '0'
  "0x" ++ String.ofList [digit (opcode.toNat / 16), digit (opcode.toNat % 16)]

def LoadFault.message : LoadFault → String
  | .format error => error.message
  | .missing sort => "missing " ++ sort.label ++ " entry"
  | .unexpected sort => "unexpected " ++ sort.label ++ " entry"
  | .missingConstant => "missing constant pool entry"
  | .annotationDescriptor => "invalid annotation descriptor"
  | .unsupportedOpcode opcode => "unsupported opcode " ++ opcodeText opcode
  | .instructionLength offset =>
      "invalid bytecode length at offset " ++ toString offset
  | .tableRange => "invalid tableswitch range"
  | .lookupPairs => "invalid lookupswitch pairs"
  | .shortOperand => "bytecode u16 out of bounds"
  | .shortSwitch => "bytecode i32 out of bounds"
  | .missingWideOpcode => "missing wide opcode"

def LoadStage.text : LoadStage → String
  | .bytes => "failed to parse class file bytes"
  | .className => "resolve class name"
  | .superName => "resolve super class name"
  | .interfaceName => "resolve interface name"
  | .innerClasses => "parse inner classes"
  | .innerName => "resolve inner class name"
  | .outerName => "resolve outer class name"
  | .classSignature => "parse class signature"
  | .classAnnotations => "parse class annotations"
  | .fields => "parse fields"
  | .fieldName => "resolve field name"
  | .fieldDescriptor => "resolve field descriptor"
  | .fieldSignature field => "parse signature of field " ++ field
  | .fieldAnnotations field => "parse annotations of field " ++ field
  | .methods owner => "parse methods of " ++ owner
  | .methodName => "resolve method name"
  | .methodDescriptor => "resolve method descriptor"
  | .code method descriptor => "parse code of " ++ method ++ descriptor
  | .bytecode => "parse bytecode"
  | .handlers => "parse exception handlers"
  | .catchType => "resolve catch type"
  | .localVariables => "parse local variables"
  | .localName => "resolve local variable name"
  | .localDescriptor => "resolve local variable descriptor"
  | .localSignature => "resolve local variable signature"
  | .methodSignature method => "parse signature of " ++ method
  | .exceptions method => "parse exceptions of " ++ method
  | .methodAnnotations method => "parse annotations of " ++ method
  | .annotationType => "resolve annotation type"
  | .instruction opcode offset =>
      "decode opcode " ++ opcodeText opcode ++ " at offset " ++ toString offset
  | .methodRef => "resolve method ref"
  | .fieldRef => "resolve field ref"
  | .dynamicCall => "resolve invokedynamic"
  | .memberOwner => "resolve owner"
  | .memberName => "resolve member name"
  | .memberDescriptor => "resolve member descriptor"

/-- A cause with the trail that led to it. -/
structure LoadError where
  trail : List LoadStage := []
  cause : LoadFault
  deriving DecidableEq, Repr

/-- The trail and the cause, outermost first. -/
def LoadError.message (error : LoadError) : String :=
  String.intercalate ": " (error.trail.map LoadStage.text ++ [error.cause.message])

/-- The result of loading part of a class. -/
abbrev Loaded (α : Type) := Except LoadError α

/-- Fails for a cause. -/
def fault {α : Type} (cause : LoadFault) : Loaded α := .error { cause := cause }

/-- Notes the stage at which an error arises. -/
@[inline] def within {α : Type} (stage : LoadStage) (loaded : Loaded α) : Loaded α :=
  match loaded with
  | .ok value => .ok value
  | .error error => .error { error with trail := stage :: error.trail }

end Linkage.ClassFile
