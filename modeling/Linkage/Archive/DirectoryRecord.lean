import Linkage.Archive.Block
import Linkage.Archive.Checksum
import Linkage.Archive.EntryName
import Linkage.Archive.Error
/-
Records of the directory: what an archive knows of an entry.  Extra fields widen,
replace or add to what the record says.
-/

namespace Linkage.Archive

/-- How the content of an entry is kept. -/
inductive Method where
  | stored
  | deflated
  /-- Compressed in another way that is known. -/
  | foreign
  /-- Encrypted; an extra field tells how the content is kept beneath. -/
  | sealed
  | unknown
  deriving DecidableEq, Repr

def Method.ofNumber (number : Nat) : Method :=
  if number = 0 then .stored
  else if number = 8 then .deflated
  else if number = 99 then .sealed
  else if [9, 12, 14, 93, 95, 98].contains number then .foreign
  else .unknown

structure DirectoryRecord where
  name : String
  /-- The bytes that the name is read from. -/
  rawName : List UInt8
  comment : String
  method : Method
  isEncrypted : Bool
  /-- Whether an extra field describes the encryption. -/
  isSealed : Bool := false
  checksum : UInt32
  storedSize : Nat
  size : Nat
  headerOffset : Nat
  deriving DecidableEq, Repr

/-- What an extra field is about. -/
inductive ExtraKind where
  | largeSizes
  | fileTimes
  | encryption
  | unixTimes
  | unicodeComment
  | unicodeName
  | other
  deriving DecidableEq, Repr

def ExtraKind.ofNumber (number : Nat) : ExtraKind :=
  if number = 0x0001 then .largeSizes
  else if number = 0x000a then .fileTimes
  else if number = 0x9901 then .encryption
  else if number = 0x5455 then .unixTimes
  else if number = 0x6375 then .unicodeComment
  else if number = 0x7075 then .unicodeName
  else .other

def requireBytes (bytes : List UInt8) (count : Nat) : Except ArchiveError Unit :=
  if bytes.length < count then .error (.unreadable .cut) else .ok ()

def numberIn (bytes : List UInt8) (offset width : Nat) : Nat :=
  littleEndian ((bytes.drop offset).take width)

/-- The value that shows that a field is too narrow. -/
def narrowLimit : Nat := 0xffffffff

/-- The size from which on a field holds both sizes and the offset. -/
def fullFieldSize : Nat := 24

/-- A value that is read from a wide field, if the field holds all of them or the
narrow value shows its limit.  The second number counts the bytes that have been
read. -/
def widen (fieldSize : Nat) (bytes : List UInt8) (value position : Nat) :
    Except ArchiveError (Nat × Nat) :=
  if fieldSize < fullFieldSize ∧ value ≠ narrowLimit then .ok (value, position)
  else if bytes.length < position + 8 then .error (.invalid .cutLargeField)
  else .ok (numberIn bytes position 8, position + 8)

/-- The content of a Unicode field, whose checksum has to fit the text that it
replaces. -/
def unicodeContent (size : Nat) (bytes replaced : List UInt8) :
    Except ArchiveError (List UInt8 × String) := do
  requireBytes bytes 5
  if size < 5 then throw (.invalid .smallUnicodeField)
  requireBytes bytes size
  let content := (bytes.take size).drop 5
  if (checksum replaced).toNat ≠ numberIn bytes 1 4 then
    throw (.invalid .unicodeChecksum)
  match String.fromUTF8? ⟨content.toArray⟩ with
  | some text => return (content, text)
  | none => throw (.invalid .badUnicode)

namespace DirectoryRecord

/-- Takes the sizes and the offset that the record has no room for. -/
def applyLargeSizes (record : DirectoryRecord) (fieldSize : Nat) (bytes : List UInt8) :
    Except ArchiveError (DirectoryRecord × Nat) := do
  let (size, position) ← widen fieldSize bytes record.size 0
  let (storedSize, position) ← widen fieldSize bytes record.storedSize position
  let (headerOffset, position) ← widen fieldSize bytes record.headerOffset position
  if fieldSize < position then throw (.invalid .largeFieldSize)
  if bytes.length < fieldSize then throw (.invalid .cutLargeField)
  return ({ record with size, storedSize, headerOffset }, fieldSize)

/-- Checks times of a file, which have one form only. -/
def applyFileTimes (record : DirectoryRecord) (fieldSize : Nat) (bytes : List UInt8) :
    Except ArchiveError (DirectoryRecord × Nat) := do
  if fieldSize ≠ 32 then throw (.unsupported .fileTimesSize)
  requireBytes bytes 6
  if numberIn bytes 4 2 ≠ 1 then throw (.unsupported .fileTimesTag)
  requireBytes bytes 8
  if numberIn bytes 6 2 ≠ 24 then throw (.unsupported .fileTimesAttributeSize)
  requireBytes bytes 32
  return (record, 32)

def applyEncryption (record : DirectoryRecord) (fieldSize : Nat) (bytes : List UInt8) :
    Except ArchiveError (DirectoryRecord × Nat) := do
  if fieldSize ≠ 7 then throw (.unsupported .sealFieldSize)
  requireBytes bytes 4
  if bytes.length < 5 then throw (.invalid .cutSealField)
  requireBytes bytes 7
  if numberIn bytes 2 2 ≠ 0x4541 then throw (.invalid .sealVendor)
  if ¬ [1, 2].contains (numberIn bytes 0 2) then throw (.invalid .sealVersion)
  if ¬ [1, 2, 3].contains (numberIn bytes 4 1) then throw (.invalid .sealStrength)
  return ({ record with method := .ofNumber (numberIn bytes 5 2), isSealed := true }, 7)

/-- Checks times of which flags say which are there; a field of five bytes has one of
them whatever the flags say. -/
def applyUnixTimes (record : DirectoryRecord) (fieldSize : Nat) (bytes : List UInt8) :
    Except ArchiveError (DirectoryRecord × Nat) := do
  if fieldSize = 0 then throw (.invalid .emptyTimes)
  requireBytes bytes 1
  let flags := numberIn bytes 0 1
  let present := ((List.range 8).filter flags.testBit).length
  if fieldSize ≠ 5 ∧ fieldSize ≠ 1 + 4 * present then
    throw (.unreadable (.timesMismatch fieldSize flags))
  requireBytes bytes fieldSize
  return (record, fieldSize)

/-- Takes an extra field into a record; the number counts the bytes that it takes. -/
def applyField (record : DirectoryRecord) (kind : ExtraKind) (fieldSize : Nat)
    (bytes : List UInt8) : Except ArchiveError (DirectoryRecord × Nat) :=
  match kind with
  | .largeSizes => record.applyLargeSizes fieldSize bytes
  | .fileTimes => record.applyFileTimes fieldSize bytes
  | .encryption => record.applyEncryption fieldSize bytes
  | .unixTimes => record.applyUnixTimes fieldSize bytes
  | .unicodeComment => do
      let (_, comment) ← unicodeContent fieldSize bytes record.comment.toUTF8.toList
      return ({ record with comment := comment }, fieldSize)
  | .unicodeName => do
      let (rawName, name) ← unicodeContent fieldSize bytes record.rawName
      return ({ record with rawName, name }, fieldSize)
  | .other =>
      if bytes.length < fieldSize then .error (.invalid .cutExtraField)
      else .ok (record, fieldSize)

/-- Takes all extra fields into a record, one after the other.  A single byte at the
end is no field. -/
def applyExtra (record : DirectoryRecord) :
    List UInt8 → Except ArchiveError DirectoryRecord
  | kindLow :: kindHigh :: sizeLow :: sizeHigh :: rest => do
      let (next, taken) ← record.applyField
        (.ofNumber (littleEndian [kindLow, kindHigh])) (littleEndian [sizeLow, sizeHigh])
        rest
      next.applyExtra (rest.drop taken)
  | [] | [_] => .ok record
  | _ => .error (.invalid .cutExtraHeader)
termination_by bytes => bytes.length
decreasing_by simp only [List.length_cons, List.length_drop]; omega

/-- Shifts where the entry starts, and fails if an offset of 64 bits cannot tell it. -/
def shift (record : DirectoryRecord) (distance : Nat) :
    Except ArchiveError DirectoryRecord :=
  if record.headerOffset + distance < 1 <<< 64 then
    .ok { record with headerOffset := record.headerOffset + distance }
  else .error (.invalid .headerTooFar)

/-- Fails if the record is encrypted in a way that nothing describes. -/
def requireSeal (record : DirectoryRecord) : Except ArchiveError Unit :=
  if record.method = .sealed ∧ ¬ record.isSealed then .error (.invalid .noSealField)
  else .ok ()

end DirectoryRecord

end Linkage.Archive
