/-
Instructions of method bodies, as far as they name types, members or constants
or store into a local slot, and the tables that accompany a body.
-/

namespace Linkage

/-- How a call selects its method. -/
inductive CallKind where
  | virtual
  | interface
  | special
  | static
  | dynamic
  deriving DecidableEq, Hashable, Repr

/-- A call; a dynamic call has an empty owner. -/
structure CallSite where
  owner : String
  name : String
  descriptor : String
  kind : CallKind
  deriving DecidableEq, Hashable, Repr

/-- How a field is used. -/
inductive FieldUse where
  | get
  | put
  | getStatic
  | putStatic
  deriving DecidableEq, Repr

/-- A use of a field. -/
structure FieldSite where
  owner : String
  name : String
  descriptor : String
  use : FieldUse
  deriving DecidableEq, Repr

/-- What an instruction does, as far as dependencies are concerned. -/
inductive Operation where
  | invoke (call : CallSite)
  | access (site : FieldSite)
  /-- Creation, array creation, cast or instance test with its class operand. -/
  | onType (operand : String)
  | multiArray (operand : String)
  | loadString (value : String)
  | loadClass (operand : String)
  /-- A reference store into a local slot. -/
  | store (slot : Nat)
  | other
  deriving DecidableEq, Repr

/-- An instruction at its offset in the body. -/
structure Instruction where
  offset : Nat
  opcode : UInt8
  operation : Operation
  deriving DecidableEq, Repr

namespace Opcode

def ldc : UInt8 := 0x12
def ldcWide : UInt8 := 0x13
def astore : UInt8 := 0x3a
def astore0 : UInt8 := 0x4b
def astore3 : UInt8 := 0x4e
def iinc : UInt8 := 0x84
def tableSwitch : UInt8 := 0xaa
def lookupSwitch : UInt8 := 0xab
def getStatic : UInt8 := 0xb2
def putStatic : UInt8 := 0xb3
def getField : UInt8 := 0xb4
def putField : UInt8 := 0xb5
def invokeVirtual : UInt8 := 0xb6
def invokeSpecial : UInt8 := 0xb7
def invokeStatic : UInt8 := 0xb8
def invokeInterface : UInt8 := 0xb9
def invokeDynamic : UInt8 := 0xba
def new : UInt8 := 0xbb
def arrayOfType : UInt8 := 0xbd
def checkcast : UInt8 := 0xc0
def instanceOf : UInt8 := 0xc1
def wide : UInt8 := 0xc4
def multiArray : UInt8 := 0xc5

end Opcode

/-- A protected range, its handler and the type it catches; no type catches all. -/
structure ExceptionHandler where
  startPc : Nat
  endPc : Nat
  handlerPc : Nat
  catchType : Option String
  deriving DecidableEq, Repr

/-- An entry of the line table: the line that starts at an offset. -/
structure LineEntry where
  startPc : Nat
  line : Nat
  deriving DecidableEq, Repr

/-- The range of a local variable, with its generic signature if it has one. -/
structure LocalVariable where
  startPc : Nat
  length : Nat
  index : Nat
  name : String
  descriptor : String
  signature : Option String
  deriving DecidableEq, Repr

/-- The body of a method. -/
structure Code where
  length : Nat := 0
  instructions : List Instruction := []
  handlers : List ExceptionHandler := []
  lines : List LineEntry := []
  locals : List LocalVariable := []
  deriving DecidableEq, Repr

end Linkage
