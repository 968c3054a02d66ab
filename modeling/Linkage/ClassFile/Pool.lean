import Linkage.ClassFile.ModifiedText
import Linkage.ClassFile.Reader
/-
Reading of the constant pool.
-/

namespace Linkage.ClassFile

open Reader

/-- Reads a text constant after its length. -/
def readText : Reader Constant := do
  let length ← u2
  let bytes ← block length
  match decodeText bytes with
  | some text => return .text text
  | none => throw .badText

def readConstant : Reader Constant := do
  let tag ← u1
  match tag with
  | 1 => readText
  | 3 => return .integer (signed 32 (← u4))
  | 4 => return .float (bigEndian (← block 4))
  | 5 => return .long (signed 64 (← integer 8))
  | 6 => return .double (bigEndian (← block 8))
  | 7 => return .classRef (← u2)
  | 8 => return .stringRef (← u2)
  | 9 => return .fieldRef (← u2) (← u2)
  | 10 => return .methodRef (← u2) (← u2)
  | 11 => return .interfaceMethodRef (← u2) (← u2)
  | 12 => return .nameAndType (← u2) (← u2)
  | 15 => return .methodHandle (← u1) (← u2)
  | 16 => return .methodType (← u2)
  | 17 => return .dynamic (← u2) (← u2)
  | 18 => return .invokeDynamic (← u2) (← u2)
  | 19 => return .moduleRef (← u2)
  | 20 => return .packageRef (← u2)
  | _ => throw (.unknownConstant tag)

/-- Reads constants for a number of further slots; a wide constant takes two, the
second of which may lie beyond the pool. -/
def readSlots : (slots : Nat) → Pool → Reader Pool
  | 0, pool => return pool
  | 1, pool => return pool.push (← readConstant)
  | slots + 2, pool => do
      let constant ← readConstant
      if constant.isWide then readSlots slots ((pool.push constant).push .empty)
      else readSlots (slots + 1) (pool.push constant)

/-- Reads the pool.  The first slot is unused. -/
def readPool : Reader Pool := do
  match ← u2 with
  | 0 => return #[]
  | slots + 1 => readSlots slots #[.empty]

end Linkage.ClassFile
