import Linkage.ClassFile.Attribute
/-
The layout of a whole class file.
-/

namespace Linkage.ClassFile

open Reader

/-- A field or method as a class file writes it. -/
structure MemberRecord where
  access : Nat
  name : Nat
  descriptor : Nat
  attributes : List Attribute
  deriving Repr

/-- A class file with its constants not yet looked up. -/
structure Layout where
  majorVersion : Nat
  pool : Pool
  access : Nat
  thisClass : Nat
  superClass : Nat
  interfaces : List Nat
  fields : List MemberRecord
  methods : List MemberRecord
  attributes : List Attribute
  deriving Repr

/-- The number that starts every class file. -/
def magic : Nat := 0xcafebabe

def readMember (pool : Pool) (depth : Nat) : Reader MemberRecord :=
  return { access := ← u2, name := ← u2, descriptor := ← u2,
           attributes := ← list (readAttribute pool depth) }

/-- Reads a class file; `depth` bounds the nesting of its attributes. -/
def readLayout (depth : Nat) : Reader Layout := do
  if (← u4) ≠ magic then throw .notClassFile
  let _ ← u2
  let majorVersion ← u2
  let pool ← readPool
  let access ← u2
  let thisClass ← u2
  let superClass ← u2
  let interfaces ← list u2
  let fields ← list (readMember pool depth)
  let methods ← list (readMember pool depth)
  let attributes ← list (readAttribute pool depth)
  return { majorVersion, pool, access, thisClass, superClass, interfaces, fields,
           methods, attributes }

/-- The layout of the bytes, all of which have to be used.  Each level of nesting
takes at least one byte, so that the size of the file bounds the depth. -/
def Layout.ofBytes (bytes : List UInt8) : Except FormatError Layout := do
  let (layout, cursor) ← (readLayout (bytes.length + 1)).run (Cursor.start bytes)
  if cursor.offset = cursor.size then return layout
  else throw (.leftOver cursor.size cursor.offset)

end Linkage.ClassFile
