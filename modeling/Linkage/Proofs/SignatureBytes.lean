import Linkage.Archive.EntryName
import Linkage.Signature
/-
Signatures as bytes.  A signature is read byte by byte, from a position that only steps
forward: routines peek at the next byte, call one another and themselves, and repeat until a
byte comes that a malformed text need not have.  Nothing here says that reading ends.  The calls
are unrolled: a routine that is called more deeply than they are returns nothing, and reading
ends in a result if from some depth on every unrolling has this result.
-/

namespace Linkage

namespace Signature

/-- Why bytes are no signature, with the position of the fault. -/
inductive ByteFault where
  | trailing (position : Nat)
  | unexpected (found : UInt8) (position : Nat)
  | unexpectedEnd
  | unterminatedClass
  | emptyClassName (position : Nat)
  | emptyIdentifier (position : Nat)
  | expected (wanted found : UInt8) (position : Nat)
  | expectedAtEnd (wanted : UInt8)
  /-- A step or a slice beyond the end of the input. -/
  | outOfRange
  deriving DecidableEq, Repr

namespace ByteFault

/-- A byte between quotes, as the character of its number. -/
def quote (byte : UInt8) : String := "'" ++ String.ofList [Char.ofNat byte.toNat] ++ "'"

/-- The fault as messages write it. -/
def message : ByteFault → String
  | trailing position => "trailing characters at " ++ toString position
  | unexpected found position => "unexpected " ++ quote found ++ " at " ++ toString position
  | unexpectedEnd => "unexpected end"
  | unterminatedClass => "unterminated class type"
  | emptyClassName position => "empty class name at " ++ toString position
  | emptyIdentifier position => "empty identifier at " ++ toString position
  | expected wanted found position =>
      "expected " ++ quote wanted ++ " but found " ++ quote found ++ " at " ++ toString position
  | expectedAtEnd wanted => "expected " ++ quote wanted ++ " at end"
  | outOfRange => "out of range"

end ByteFault

/-- How far the bytes are read, and the classes found so far, the latest first. -/
structure ByteState where
  position : Nat := 0
  types : List SignatureType := []
  deriving DecidableEq, Repr

/-- A routine.  It may return nothing; if it fails the state is kept. -/
abbrev ByteReader (α : Type) := ExceptT ByteFault (StateT ByteState Option) α

/-- The byte of an ASCII character. -/
def byteOf (c : Char) : UInt8 := UInt8.ofNat c.toNat

/-- Whether a byte ends the name of a class. -/
def endsClassNameByte (byte : UInt8) : Bool := byte ∈ ['<', ';', '.'].map byteOf

/-- Characters that end the look-ahead for the name of a type parameter. -/
def lookAheadMarks : List Char := [':', ';', '<', '/', '>']

/-- Whether a byte ends the look-ahead for the name of a type parameter. -/
def endsLookAhead (byte : UInt8) : Bool := byte ∈ lookAheadMarks.map byteOf

/-- Routines that are called again: loops, and readers of types that contain types. -/
structure Routines where
  skipTo : (UInt8 → Bool) → ByteReader Unit
  referenceType : ReferenceKind → ByteReader Unit
  javaType : ReferenceKind → ByteReader Unit
  classType : ReferenceKind → ByteReader Unit
  classRest : ReferenceKind → String → ByteReader Unit
  classEnd : ReferenceKind → String → ByteReader Unit
  typeArguments : ByteReader Unit
  typeArgumentList : ByteReader Unit
  typeParameterList : ByteReader Unit
  interfaceBounds : ByteReader Unit
  superInterfaces : ReferenceKind → ByteReader Unit
  parameterTypes : ByteReader Unit
  thrownTypes : ByteReader Unit

/-- Routines none of which returns. -/
def Routines.stuck : Routines where
  skipTo _ := fun _ => none
  referenceType _ := fun _ => none
  javaType _ := fun _ => none
  classType _ := fun _ => none
  classRest _ _ := fun _ => none
  classEnd _ _ := fun _ => none
  typeArguments := fun _ => none
  typeArgumentList := fun _ => none
  typeParameterList := fun _ => none
  interfaceBounds := fun _ => none
  superInterfaces _ := fun _ => none
  parameterTypes := fun _ => none
  thrownTypes := fun _ => none

namespace ByteReader

variable (input : List UInt8)

/-! Steps. -/

/-- The position that is read next. -/
def position : ByteReader Nat := do return (← get).position

/-- The next byte, if there is one. -/
def peek : ByteReader (Option UInt8) := do return input[(← get).position]?

/-- Steps over a byte. -/
def advance : ByteReader Unit := do
  let state ← get
  if state.position < input.length then set { state with position := state.position + 1 }
  else throw .outOfRange

/-- The bytes from one position to another. -/
def slice (first last : Nat) : ByteReader (List UInt8) :=
  if first ≤ last ∧ last ≤ input.length then pure ((input.drop first).take (last - first))
  else throw .outOfRange

/-- Adds a class to those found. -/
def found (type : SignatureType) : ByteReader Unit :=
  modify (fun state => { state with types := type :: state.types })

/-- Steps over one given byte. -/
def expect (wanted : Char) : ByteReader Unit := do
  match ← peek input with
  | some byte =>
      if byte = byteOf wanted then advance input
      else throw (.expected (byteOf wanted) byte (← position))
  | none => throw (.expectedAtEnd (byteOf wanted))

/-- Runs a routine if a given byte is next. -/
def ifNext (mark : Char) (routine : ByteReader Unit) : ByteReader Unit := do
  if (← peek input) = some (byteOf mark) then routine else pure ()

/-- Whether the name of a type parameter is next, and not a bound: its colon comes before any
byte that ends the name in a bound. -/
def atTypeParameter : ByteReader Bool := do
  let ahead ← slice input (← position) input.length
  return ahead.find? endsLookAhead = some (byteOf ':')

/-! Routines, by the routines that they call. -/

section Bodies
variable (declaration : ReferenceKind) (calls : Routines)

/-- Steps over bytes as far as the first that passes a test. -/
def skipTo (ends : UInt8 → Bool) : ByteReader Unit := do
  match ← peek input with
  | some byte =>
      if ends byte then pure ()
      else
        advance input
        calls.skipTo ends
  | none => pure ()

/-- Steps over a name, as far as its terminator. -/
def identifier (terminator : Char) : ByteReader Unit := do
  let start ← position
  calls.skipTo (· ∈ [terminator].map byteOf)
  let last ← position
  if start = last then throw (.emptyIdentifier start) else pure ()

/-- Reads the name of a class. -/
def className : ByteReader String := do
  let start ← position
  calls.skipTo endsClassNameByte
  let last ← position
  if start = last then throw (.emptyClassName start)
  else return String.ofList (Archive.lossyChars (← slice input start last))

/-- Reads a class type, a type variable or an array type. -/
def referenceType (role : ReferenceKind) : ByteReader Unit := do
  match ← peek input with
  | some byte =>
      if byte = byteOf 'L' then calls.classType role
      else if byte = byteOf 'T' then
        advance input
        identifier calls ';'
        expect input ';'
      else if byte = byteOf '[' then
        advance input
        calls.javaType role
      else throw (.unexpected byte (← position))
  | none => throw .unexpectedEnd

/-- Reads a primitive type or a reference type. -/
def javaType (role : ReferenceKind) : ByteReader Unit := do
  match ← peek input with
  | some byte =>
      if byte ∈ primitiveLetters.map byteOf then advance input else calls.referenceType role
  | none => calls.referenceType role

/-- Reads a class type. -/
def classType (role : ReferenceKind) : ByteReader Unit := do
  expect input 'L'
  let name ← className input calls
  calls.classRest role name

/-- Reads the type arguments of a class, if it has any, and what follows them. -/
def classRest (role : ReferenceKind) (name : String) : ByteReader Unit := do
  ifNext input '<' calls.typeArguments
  calls.classEnd role name

/-- Reads the end of a class type, or an inner class. -/
def classEnd (role : ReferenceKind) (name : String) : ByteReader Unit := do
  match ← peek input with
  | some byte =>
      if byte = byteOf '.' then
        advance input
        let inner ← className input calls
        calls.classRest role (name ++ "$" ++ inner)
      else if byte = byteOf ';' then
        advance input
        found ⟨qualifiedName name, role⟩
      else throw (.unexpected byte (← position))
  | none => throw .unterminatedClass

/-- Reads type arguments between their brackets. -/
def typeArguments : ByteReader Unit := do
  expect input '<'
  calls.typeArgumentList
  expect input '>'

/-- Reads a type argument, with the mark of a bounded wildcard. -/
def typeArgument : ByteReader Unit := do
  match ← peek input with
  | some byte =>
      if byte = byteOf '*' then advance input
      else if byte = byteOf '+' ∨ byte = byteOf '-' then
        advance input
        calls.referenceType declaration
      else calls.referenceType declaration
  | none => calls.referenceType declaration

/-- Reads type arguments as far as the closing bracket. -/
def typeArgumentList : ByteReader Unit := do
  if (← peek input) = some (byteOf '>') then pure ()
  else
    typeArgument input declaration calls
    calls.typeArgumentList

/-- Reads interface bounds, each after a colon. -/
def interfaceBounds : ByteReader Unit := do
  if (← peek input) = some (byteOf ':') then
    advance input
    calls.referenceType declaration
    calls.interfaceBounds
  else pure ()

/-- Reads the class bound of a type parameter, unless it is left out. -/
def classBound : ByteReader Unit := do
  match ← peek input with
  | some byte =>
      if byte = byteOf ':' ∨ byte = byteOf '>' then pure ()
      else
        if ← atTypeParameter input then pure () else calls.referenceType declaration
  | none =>
      if ← atTypeParameter input then pure () else calls.referenceType declaration

/-- Reads a type parameter: its name and its bounds. -/
def typeParameter : ByteReader Unit := do
  identifier calls ':'
  expect input ':'
  classBound input declaration calls
  calls.interfaceBounds

/-- Reads type parameters as far as the closing bracket. -/
def typeParameterList : ByteReader Unit := do
  if (← peek input) = some (byteOf '>') then pure ()
  else
    typeParameter input declaration calls
    calls.typeParameterList

/-- Reads class types to the end of the input. -/
def superInterfaces (role : ReferenceKind) : ByteReader Unit := do
  match ← peek input with
  | some _ =>
      calls.classType role
      calls.superInterfaces role
  | none => pure ()

/-- Reads parameter types as far as the closing parenthesis. -/
def parameterTypes : ByteReader Unit := do
  if (← peek input) = some (byteOf ')') then pure ()
  else
    calls.javaType .parameter
    calls.parameterTypes

/-- Reads the types of the throws clause, each after a caret. -/
def thrownTypes : ByteReader Unit := do
  if (← peek input) = some (byteOf '^') then
    advance input
    calls.referenceType .throws
    calls.thrownTypes
  else pure ()

/-- The routines, by the routines that they call. -/
def routines : Routines where
  skipTo := skipTo input calls
  referenceType := referenceType input calls
  javaType := javaType input calls
  classType := classType input calls
  classRest := classRest input calls
  classEnd := classEnd input calls
  typeArguments := typeArguments input calls
  typeArgumentList := typeArgumentList input declaration calls
  typeParameterList := typeParameterList input declaration calls
  interfaceBounds := interfaceBounds input declaration calls
  superInterfaces := superInterfaces input calls
  parameterTypes := parameterTypes input calls
  thrownTypes := thrownTypes input calls

end Bodies

/-- The routines, with their calls unrolled to a depth. -/
def unrolled (declaration : ReferenceKind) : (depth : Nat) → Routines
  | 0 => .stuck
  | depth + 1 => routines input declaration (unrolled declaration depth)

/-! Declarations. -/

section Declarations
variable (calls : Routines)

/-- Reads the type parameters of a declaration, if it has any. -/
def typeParameters : ByteReader Unit :=
  ifNext input '<' (do
    advance input
    calls.typeParameterList
    expect input '>')

/-- Reads a routine and drops the classes that it finds. -/
def dropping (routine : ByteReader Unit) : ByteReader Unit := do
  let before ← get
  set { before with types := [] }
  routine
  modify (fun state => { state with types := before.types })

/-- Reads a class signature.  The super class of an interface contributes nothing. -/
def classSignature (isInterface : Bool) : ByteReader Unit := do
  typeParameters input calls
  if isInterface then
    dropping (calls.classType .extendsType)
    calls.superInterfaces .extendsType
  else
    calls.classType .extendsType
    calls.superInterfaces .implementsType

/-- Reads the result type. -/
def resultType : ByteReader Unit := do
  if (← peek input) = some (byteOf 'V') then advance input else calls.javaType .returnType

/-- Reads a method signature. -/
def methodSignature : ByteReader Unit := do
  typeParameters input calls
  expect input '('
  calls.parameterTypes
  expect input ')'
  resultType input calls
  calls.thrownTypes

/-- Reads the signature of a declaration. -/
def declared (owner : SignatureOwner) : ByteReader Unit :=
  match owner with
  | .type isInterface => classSignature input calls isInterface
  | .method => methodSignature input calls
  | .field => calls.referenceType owner.declarationKind
  | .localVariable => calls.referenceType owner.declarationKind

/-- Fails unless the whole input has been read. -/
def atEnd : ByteReader Unit := do
  let last ← position
  if last ≠ input.length then throw (.trailing last) else pure ()

/-- Reads the signature of a declaration, which takes the whole input. -/
def parse (owner : SignatureOwner) : ByteReader Unit := do
  declared input calls owner
  atEnd input

end Declarations

/-- Reading a signature, with calls unrolled to a depth. -/
def parsed (owner : SignatureOwner) (depth : Nat) : ByteReader Unit :=
  parse input (unrolled input owner.declarationKind depth) owner

end ByteReader

end Signature

end Linkage
