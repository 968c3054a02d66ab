/-
The CRC-32 checksum that archives keep of every entry.
-/

namespace Linkage.Archive

/-- The reversed generator polynomial. -/
def generator : UInt32 := 0xedb88320

/-- Divides one bit out of the remainder. -/
def checksumBit (remainder : UInt32) : UInt32 :=
  if remainder &&& 1 = 1 then (remainder >>> 1) ^^^ generator else remainder >>> 1

/-- Takes one byte into the remainder. -/
def checksumByte (remainder : UInt32) (byte : UInt8) : UInt32 :=
  Nat.repeat checksumBit 8 (remainder ^^^ byte.toUInt32)

def checksum (content : List UInt8) : UInt32 :=
  content.foldl checksumByte 0xffffffff ^^^ 0xffffffff

example : checksum [] = 0 := by decide
example : checksum [0x61] = 0xe8b7be43 := by decide

end Linkage.Archive
