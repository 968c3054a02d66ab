/-
Blocks of a file.  Integers are little-endian, and a block is found by the four
bytes that mark it.
-/

namespace Linkage.Archive

/-- The number that bytes write, least significant byte first. -/
def littleEndian (bytes : List UInt8) : Nat :=
  bytes.foldr (fun byte high => byte.toNat + 256 * high) 0

/-- A block of a file; a block beyond the end is cut short. -/
def blockAt (file : Array UInt8) (offset size : Nat) : List UInt8 :=
  (file.extract offset (offset + size)).toList

def numberAt (file : Array UInt8) (offset width : Nat) : Nat :=
  littleEndian (blockAt file offset width)

/-- The bytes that tell blocks apart. -/
abbrev Mark := List UInt8

def endMark : Mark := [0x50, 0x4b, 5, 6]

def largeEndMark : Mark := [0x50, 0x4b, 6, 6]

/-- The mark of the locator, which leads to the large end record. -/
def locatorMark : Mark := [0x50, 0x4b, 6, 7]

def directoryMark : Mark := [0x50, 0x4b, 1, 2]

/-- The mark in front of an entry's content. -/
def entryMark : Mark := [0x50, 0x4b, 3, 4]

def hasMark (file : Array UInt8) (mark : Mark) (offset : Nat) : Bool :=
  blockAt file offset mark.length = mark

/-- The offsets from `start` on where a mark stands that ends before `limit`. -/
def marksBetween (file : Array UInt8) (mark : Mark) (start limit : Nat) : List Nat :=
  (List.range' start (limit + 1 - (start + mark.length))).filter (hasMark file mark)

example : littleEndian [0x34, 0x12] = 0x1234 := by decide
example : marksBetween #[5, 1, 2, 1, 2] [1, 2] 0 5 = [1, 3] := by decide
example : marksBetween #[5, 1, 2, 1, 2] [1, 2] 2 4 = [] := by decide

end Linkage.Archive
