import Linkage.Archive.Block
import Linkage.Archive.Error
/-
The end of an archive.  The end record leads to the directory.  Where its fields
are too narrow, a locator in front of it leads to a large end record.  Something
may have been put in front of the archive: then all offsets are shifted.
-/

namespace Linkage.Archive

structure EndRecord where
  position : Nat
  disk : Nat
  directoryDisk : Nat
  /-- The number of directory records on this disk. -/
  count : Nat
  /-- The number of directory records on all disks. -/
  total : Nat
  /-- The offset of the directory. -/
  start : Nat
  deriving DecidableEq, Repr

/-- The size of the end record without its comment. -/
def endRecordSize : Nat := 22

/-- Reads the end record at a position; its comment has to fit. -/
def endRecordAt (file : Array UInt8) (position : Nat) : Except ArchiveError EndRecord :=
  if file.size < position + endRecordSize then .error (.invalid (.cutBlock .endRecord))
  else if file.size < position + endRecordSize + numberAt file (position + 20) 2 then
    .error (.invalid .longComment)
  else
    .ok { position
          disk := numberAt file (position + 4) 2
          directoryDisk := numberAt file (position + 6) 2
          count := numberAt file (position + 8) 2
          total := numberAt file (position + 10) 2
          start := numberAt file (position + 16) 4 }

/-- Whether fields of the end record may be too narrow. -/
def EndRecord.mayBeNarrow (record : EndRecord) : Bool :=
  record.total = 0xffff || record.start = 0xffffffff

/-- What leads to a large end record. -/
structure Locator where
  position : Nat
  directoryDisk : Nat
  /-- The offset of the large end record. -/
  target : Nat
  disks : Nat
  deriving DecidableEq, Repr

def locatorSize : Nat := 20

def locatorBefore (file : Array UInt8) (record : EndRecord) : Option Locator :=
  let position := record.position - locatorSize
  if locatorSize ≤ record.position ∧ hasMark file locatorMark position then
    some { position
           directoryDisk := numberAt file (position + 4) 4
           target := numberAt file (position + 8) 8
           disks := numberAt file (position + 16) 4 }
  else none

/-- An end record with wide fields. -/
structure LargeEndRecord where
  position : Nat
  disk : Nat
  directoryDisk : Nat
  count : Nat
  total : Nat
  start : Nat
  deriving DecidableEq, Repr

/-- The size of a large end record without what may extend it. -/
def largeEndRecordSize : Nat := 56

/-- The size of a directory record without its name and other fields. -/
def directoryRecordSize : Nat := 46

/-- Reads a large end record, which has to reach up to the locator and to agree
with it. -/
def largeEndRecordAt (file : Array UInt8) (locator : Locator) (position : Nat) :
    Except FormatFault LargeEndRecord := do
  if file.size < position + largeEndRecordSize then throw (.cutBlock .largeEndRecord)
  let room := locator.position - position
  let size := numberAt file (position + 4) 8 + 12
  let record : LargeEndRecord :=
    { position
      disk := numberAt file (position + 16) 4
      directoryDisk := numberAt file (position + 20) 4
      count := numberAt file (position + 24) 8
      total := numberAt file (position + 32) 8
      start := numberAt file (position + 48) 8 }
  if size < largeEndRecordSize then throw .smallLargeEndRecord
  if room < size then throw .largeEndRecordTooLong
  if record.directoryDisk ≠ locator.directoryDisk then throw .otherDirectoryDisk
  if size ≠ room then throw .largeEndRecordSize
  if position < record.total * directoryRecordSize + record.start then
    throw .tooManyRecords
  return record

/-- The first good large end record among some positions, or what is wrong with
the last of them. -/
def firstLargeEndRecord (file : Array UInt8) (locator : Locator) :
    List Nat → FormatFault → Except ArchiveError LargeEndRecord
  | [], fault => .error (.invalid fault)
  | position :: rest, _ =>
      match largeEndRecordAt file locator position with
      | .ok record => .ok record
      | .error fault => firstLargeEndRecord file locator rest fault

structure Ending where
  record : EndRecord
  large : Option LargeEndRecord := none
  /-- By how much the archive is shifted. -/
  shift : Nat
  deriving DecidableEq, Repr

/-- An ending with a large end record, to which the locator leads. -/
def largeEnding (file : Array UInt8) (record : EndRecord) (locator : Locator) :
    Except ArchiveError Ending := do
  if locator.position ≤ locator.target then throw (.invalid .locatorAfterTarget)
  if 1 < locator.disks then throw (.invalid .severalDisks)
  let large ← firstLargeEndRecord file locator
    (marksBetween file largeEndMark locator.target locator.position) .noLargeEndRecord
  return { record, large := some large, shift := large.position - locator.target }

/-- An ending without a large end record.  The first directory record tells the
shift; without any records the directory ends at the end record. -/
def smallEnding (file : Array UInt8) (record : EndRecord) : Except ArchiveError Ending :=
  if record.total = 0 then .ok { record, shift := record.position - record.start }
  else if record.position ≤ record.start then .error (.invalid .directoryAfterEnd)
  else
    match marksBetween file directoryMark record.start record.position with
    | [] => .error (.invalid .noDirectoryRecord)
    | first :: _ => .ok { record, shift := first - record.start }

def endingOf (file : Array UInt8) (record : EndRecord) : Except ArchiveError Ending :=
  match record.mayBeNarrow, locatorBefore file record with
  | true, some locator => largeEnding file record locator
  | _, _ => smallEnding file record

/-- Where the directory starts, how many records it has, and by how much the
archive is shifted. -/
structure DirectoryPlace where
  start : Nat
  count : Nat
  shift : Nat
  deriving DecidableEq, Repr

/-- The place of the directory, which has to be on the disk that the archive ends on. -/
def Ending.place (ending : Ending) : Except ArchiveError DirectoryPlace :=
  match ending.large with
  | some large =>
      if large.total < large.count then .error (.invalid .moreRecordsThanTotal)
      else if large.disk ≠ large.directoryDisk then .error (.unsupported .severalDisks)
      else .ok { start := large.start + ending.shift, count := large.total,
                 shift := ending.shift }
  | none =>
      if ending.record.disk ≠ ending.record.directoryDisk then
        .error (.unsupported .severalDisks)
      else .ok { start := ending.record.start + ending.shift,
                 count := ending.record.count, shift := ending.shift }

end Linkage.Archive
