import Linkage.ClassFile.Pool
/-
Attributes of classes, fields, methods and bodies.  Every known attribute is
read by its structure and may stand anywhere; those that name no type or member
are read and dropped.
-/

namespace Linkage.ClassFile

open Reader

/-- A protected range as a class file writes it. -/
structure HandlerRecord where
  startPc : Nat
  endPc : Nat
  handlerPc : Nat
  catchType : Nat
  deriving DecidableEq, Repr

/-- A local variable as a class file writes it; `type` is the index of its
descriptor or of its signature. -/
structure VariableRecord where
  startPc : Nat
  length : Nat
  name : Nat
  type : Nat
  index : Nat
  deriving DecidableEq, Repr

/-- A nested type as a class file writes it. -/
structure NestedRecord where
  inner : Nat
  outer : Nat
  name : Nat
  deriving DecidableEq, Repr

/-- An attribute, as far as it names types or members or locates code. -/
inductive Attribute where
  | code (bytes : List UInt8) (handlers : List HandlerRecord)
      (attributes : List Attribute)
  | exceptions (types : List Nat)
  | lineNumbers (entries : List (Nat × Nat))
  | localVariables (entries : List VariableRecord)
  | localVariableTypes (entries : List VariableRecord)
  | innerClasses (entries : List NestedRecord)
  | signature (index : Nat)
  | annotations (types : List Nat)
  | other
  deriving Repr

def readHandler : Reader HandlerRecord :=
  return { startPc := ← u2, endPc := ← u2, handlerPc := ← u2, catchType := ← u2 }

def readVariable : Reader VariableRecord :=
  return { startPc := ← u2, length := ← u2, name := ← u2, type := ← u2, index := ← u2 }

def readNested : Reader NestedRecord := do
  let inner ← u2
  let outer ← u2
  let name ← u2
  let _ ← u2
  return { inner, outer, name }

/-- Reads an element value of an annotation; `depth` bounds its nesting. -/
def skipElement : (depth : Nat) → Reader Unit
  | 0 => throw .tooDeep
  | depth + 1 => do
      let tag ← u1
      if tag ∈ "BCDFIJSZs".toList.map Char.toNat then skip u2
      else if tag = 'e'.toNat then do skip u2; skip u2
      else if tag = 'c'.toNat then skip u2
      else if tag = '@'.toNat then do
        skip u2
        skip (list (do skip u2; skipElement depth))
      else if tag = '['.toNat then skip (list (skipElement depth))
      else throw (.unknownElement tag)

/-- Reads an annotation and gives the index of its type. -/
def readAnnotationType (depth : Nat) : Reader Nat := do
  let type ← u2
  skip (list (do skip u2; skipElement depth))
  return type

def skipTarget : Reader Unit := do
  let tag ← u1
  if tag ∈ [0x00, 0x01, 0x16] then skip u1
  else if tag ∈ [0x10, 0x17, 0x42, 0x43, 0x44, 0x45, 0x46] then skip u2
  else if tag ∈ [0x11, 0x12] then do skip u1; skip u1
  else if tag ∈ [0x13, 0x14, 0x15] then return ()
  else if tag ∈ [0x40, 0x41] then skip (list (do skip u2; skip u2; skip u2))
  else if tag ∈ [0x47, 0x48, 0x49, 0x4a, 0x4b] then do skip u2; skip u1
  else throw (.unknownTarget tag)

/-- Reads a type annotation. -/
def skipAnnotatedType (depth : Nat) : Reader Unit := do
  skipTarget
  skip (shortList (do skip u1; skip u1))
  skip (readAnnotationType depth)

/-- Reads the type of a slot in a stack frame. -/
def skipVerification : Reader Unit := do
  let tag ← u1
  if tag ≤ 6 then return ()
  else if tag ≤ 8 then skip u2
  else throw (.unknownVerification tag)

def skipFrame : Reader Unit := do
  let tag ← u1
  if tag ≤ 63 then return ()
  else if tag ≤ 127 then skipVerification
  else if tag < 247 then throw (.unknownFrame tag)
  else if tag = 247 then do skip u2; skipVerification
  else if tag ≤ 251 then skip u2
  else if tag ≤ 254 then do skip u2; skip (times skipVerification (tag - 251))
  else do
    skip u2
    skip (list skipVerification)
    skip (list skipVerification)

def attributeName (pool : Pool) (index : Nat) : Reader String :=
  match pool[index]? with
  | none => throw (.missingName index)
  | some (.text name) => return name
  | some constant => throw (.nameNotText constant)

/-- Reads an attribute; `depth` bounds its nesting. -/
def readAttribute (pool : Pool) : (depth : Nat) → Reader Attribute
  | 0 => throw .tooDeep
  | depth + 1 => do
      let index ← u2
      let name ← attributeName pool index
      let length ← u4
      match name with
      | "ConstantValue" | "SourceFile" | "NestHost" => do skip u2; return .other
      | "Code" => do
          skip u2
          skip u2
          let bytes ← block (← u4)
          let handlers ← list readHandler
          let attributes ← list (readAttribute pool depth)
          return .code bytes handlers attributes
      | "Exceptions" => return .exceptions (← list u2)
      | "LineNumberTable" =>
          return .lineNumbers (← list (do return (← u2, ← u2)))
      | "LocalVariableTable" => return .localVariables (← list readVariable)
      | "LocalVariableTypeTable" => return .localVariableTypes (← list readVariable)
      | "InnerClasses" => return .innerClasses (← list readNested)
      | "EnclosingMethod" => do skip u2; skip u2; return .other
      | "Signature" => return .signature (← u2)
      | "RuntimeVisibleAnnotations" => do
          requireBlock length
          return .annotations (← list (readAnnotationType depth))
      | "RuntimeInvisibleAnnotations" =>
          return .annotations (← list (readAnnotationType depth))
      | "RuntimeVisibleParameterAnnotations" => do
          skip (shortList (list (readAnnotationType depth)))
          return .other
      | "RuntimeVisibleTypeAnnotations" => do
          skip (list (skipAnnotatedType depth))
          return .other
      | "AnnotationDefault" => do
          requireBlock length
          skipElement depth
          return .other
      | "StackMapTable" => do skip (list skipFrame); return .other
      | "BootstrapMethods" => do
          skip (list (do skip u2; skip (list u2)))
          return .other
      | "MethodParameters" => do
          skip (shortList (do skip u2; skip u2))
          return .other
      | "NestMembers" | "PermittedSubclasses" => do skip (list u2); return .other
      | "Record" => do
          skip (list (do skip u2; skip u2; skip (list (readAttribute pool depth))))
          return .other
      | "Synthetic" | "Deprecated" => return .other
      | _ => throw (.unknownAttribute name)

end Linkage.ClassFile
