import Linkage.ClassFile.Constant
/-
Reading of class file bytes, strictly in order and with big-endian integers.
-/

namespace Linkage.ClassFile

/-- Why bytes are no class file. -/
inductive FormatError where
  /-- An integer at an offset does not fit into the bytes. -/
  | shortInteger (offset size : Nat)
  /-- A block ends beyond the bytes. -/
  | shortBlock (stop size : Nat)
  | notClassFile
  | leftOver (size position : Nat)
  | unknownConstant (tag : Nat)
  | badText
  | missingName (index : Nat)
  | nameNotText (constant : Constant)
  | unknownAttribute (name : String)
  | unknownElement (tag : Nat)
  | unknownTarget (tag : Nat)
  | unknownFrame (tag : Nat)
  | unknownVerification (tag : Nat)
  /-- Structures are nested more deeply than there are bytes. -/
  | tooDeep
  deriving DecidableEq, Repr

namespace FormatError

def message : FormatError → String
  | shortInteger offset size =>
      "I/O Error: overflow : attempt to read from " ++ toString offset
        ++ " whereas len is " ++ toString size
  | shortBlock stop size =>
      "I/O Error: Index out of bounds: " ++ toString stop ++ " of " ++ toString size
  | notClassFile => "InvalidInput Error: Not a valid class-file"
  | leftOver size position =>
      "I/O Error: Not all was read : data.len() is " ++ toString size
        ++ ", start_from is " ++ toString position
  | unknownConstant tag => "I/O Error: unmatched tag: " ++ toString tag
  | badText => "I/O Error: could not convert CESU-8 data to UTF-8"
  | missingName index => "I/O Error: element not found at index " ++ toString index
  | nameNotText constant =>
      "I/O Error: element type is not Uint8 but " ++ constant.describe
  | unknownAttribute name => "I/O Error: unmatched attribute: " ++ name
  | unknownElement tag => "I/O Error: Unsupported element tag: " ++ toString tag
  | unknownTarget tag => "I/O Error: Invalid target_type: " ++ toString tag
  | unknownFrame tag => "I/O Error: Unsupported frame_type: " ++ toString tag
  | unknownVerification tag => "I/O Error: tag " ++ toString tag ++ " is not valid"
  | tooDeep => "I/O Error: structures are nested too deeply"

end FormatError

/-- The unread bytes, and where in the file they start. -/
structure Cursor where
  rest : List UInt8
  offset : Nat
  size : Nat
  deriving DecidableEq, Repr

def Cursor.start (bytes : List UInt8) : Cursor := ⟨bytes, 0, bytes.length⟩

/-- A reader of part of a file. -/
abbrev Reader := StateT Cursor (Except FormatError)

/-- The integer that bytes write, most significant byte first. -/
def bigEndian (bytes : List UInt8) : Nat :=
  bytes.foldl (fun value byte => value * 256 + byte.toNat) 0

/-- A number of the given width as a signed one. -/
def signed (width value : Nat) : Int :=
  Int.bmod (Int.ofNat value) (1 <<< width)

namespace Reader

/-- Takes a number of bytes that are known to be there. -/
def take (count : Nat) : Reader (List UInt8) := fun cursor =>
  .ok (cursor.rest.take count,
    { cursor with rest := cursor.rest.drop count, offset := cursor.offset + count })

/-- Reads an unsigned integer of a number of bytes. -/
def integer (width : Nat) : Reader Nat := do
  let cursor ← get
  if cursor.offset + width ≤ cursor.size then
    return bigEndian (← take width)
  else throw (.shortInteger cursor.offset cursor.size)

def u1 : Reader Nat := integer 1

def u2 : Reader Nat := integer 2

def u4 : Reader Nat := integer 4

/-- Succeeds if a block of bytes follows, without reading it. -/
def requireBlock (count : Nat) : Reader Unit := do
  let cursor ← get
  if cursor.offset + count ≤ cursor.size then return ()
  else throw (.shortBlock (cursor.offset + count) cursor.size)

def block (count : Nat) : Reader (List UInt8) := do
  requireBlock count
  take count

/-- Reads a number of items after some that have been read, the latest of which stands
first. -/
def timesAfter {α : Type} (item : Reader α) : (count : Nat) → List α → Reader (List α)
  | 0, items => return items.reverse
  | count + 1, items => do
      let next ← item
      timesAfter item count (next :: items)

def times {α : Type} (item : Reader α) (count : Nat) : Reader (List α) :=
  timesAfter item count []

/-- Reads items after their count of two bytes. -/
def list {α : Type} (item : Reader α) : Reader (List α) := do
  times item (← u2)

/-- Reads items after their count of one byte. -/
def shortList {α : Type} (item : Reader α) : Reader (List α) := do
  times item (← u1)

/-- Reads and drops a value. -/
def skip {α : Type} (item : Reader α) : Reader Unit := do
  let _ ← item
  return ()

end Reader

end Linkage.ClassFile
