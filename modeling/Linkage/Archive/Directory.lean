import Linkage.Archive.DirectoryRecord
import Linkage.Archive.EndRecord
import Linkage.Name
/-
The directory of an archive.  Every end record is tried, from the last to the
first, until one leads to a directory that can be read.
-/

namespace Linkage.Archive

/-- Reads the directory record at an offset, and the offset after it. -/
def directoryRecordAt (file : Array UInt8) (shift offset : Nat) :
    Except ArchiveError (DirectoryRecord × Nat) := do
  if file.size < offset + directoryRecordSize then
    throw (.invalid (.cutBlock .directoryRecord))
  if ¬ hasMark file directoryMark offset then throw (.invalid .badDirectoryMark)
  let flags := numberAt file (offset + 8) 2
  let nameSize := numberAt file (offset + 28) 2
  let extraSize := numberAt file (offset + 30) 2
  let commentSize := numberAt file (offset + 32) 2
  let nameStart := offset + directoryRecordSize
  let extraStart := nameStart + nameSize
  let commentStart := extraStart + extraSize
  if file.size < commentStart + commentSize then throw (.invalid .cutField)
  let rawName := blockAt file nameStart nameSize
  let isUnicode := flags.testBit 11
  let plain : DirectoryRecord :=
    { name := entryText isUnicode rawName
      rawName
      comment := entryText isUnicode (blockAt file commentStart commentSize)
      method := .ofNumber (numberAt file (offset + 10) 2)
      isEncrypted := flags.testBit 0
      checksum := UInt32.ofNat (numberAt file (offset + 16) 4)
      storedSize := numberAt file (offset + 20) 4
      size := numberAt file (offset + 24) 4
      headerOffset := numberAt file (offset + 42) 4 }
  let record ← plain.applyExtra (blockAt file extraStart extraSize)
  record.requireSeal
  return (← record.shift shift, commentStart + commentSize)

def directoryRecords (file : Array UInt8) (shift : Nat) :
    (count offset : Nat) → Except ArchiveError (List DirectoryRecord)
  | 0, _ => .ok []
  | count + 1, offset => do
      let (record, next) ← directoryRecordAt file shift offset
      return record :: (← directoryRecords file shift count next)

def Ending.records (file : Array UInt8) (ending : Ending) :
    Except ArchiveError (List DirectoryRecord) := do
  let place ← ending.place
  directoryRecords file place.shift place.count place.start

/-- Why no end record is good: what is wrong with the last directory that was tried
or, if there was none since, with the end records. -/
structure EndFaults where
  directory : Option ArchiveError := none
  record : Option ArchiveError := none

def EndFaults.error (faults : EndFaults) : ArchiveError :=
  faults.directory.getD (faults.record.getD (.invalid .noEndRecord))

/-- The records of the first good directory, where end records may stand at some
positions. -/
def firstDirectory (file : Array UInt8) :
    List Nat → EndFaults → Except ArchiveError (List DirectoryRecord)
  | [], faults => .error faults.error
  | position :: rest, faults =>
      match endRecordAt file position with
      | .error error =>
          firstDirectory file rest { faults with record := some (faults.record.getD error) }
      | .ok record =>
          match endingOf file record with
          | .error error => firstDirectory file rest { faults with record := some error }
          | .ok ending =>
              match ending.records file with
              | .ok records => .ok records
              | .error error => firstDirectory file rest { directory := some error }

def readDirectory (file : Array UInt8) : Except ArchiveError (List DirectoryRecord) :=
  firstDirectory file (marksBetween file endMark 0 file.size).reverse {}

/-- For every name the last record that has it, in the order of the names' first
records. -/
def lastOfEachName (records : List DirectoryRecord) : List DirectoryRecord :=
  (distinctBy DirectoryRecord.name records).map (fun first =>
    (records.reverse.find? (fun record => record.name = first.name)).getD first)

end Linkage.Archive
