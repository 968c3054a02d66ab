import Linkage.Archive.Directory
import Linkage.Archive.Inflate
/-
Archives in the zip format.  Each record of the directory leads to the content of
an entry, which is stored as it is or deflated.
-/

namespace Linkage.Archive

structure ArchiveEntry where
  name : String
  /-- The size of the content as the directory gives it. -/
  size : Nat
  content : Except ArchiveError (List UInt8)

/-- The size of what stands in front of an entry's content, without the name and
the extra fields. -/
def entryHeaderSize : Nat := 30

/-- The first offset that no file has. -/
def positionLimit : Nat := 1 <<< 63

def contentStart (file : Array UInt8) (offset : Nat) : Except ArchiveError Nat :=
  if positionLimit ≤ offset then .error (.unreadable .badPosition)
  else if file.size < offset + entryHeaderSize then
    .error (.invalid (.cutBlock .entryHeader))
  else if hasMark file entryMark offset then
    .ok (offset + entryHeaderSize + numberAt file (offset + 26) 2
      + numberAt file (offset + 28) 2)
  else .error (.invalid .badEntryMark)

/-- The bytes that an entry's content is made of. -/
def storedContent (file : Array UInt8) (record : DirectoryRecord) :
    Except ArchiveError (List UInt8) := do
  if record.isEncrypted then throw (.unsupported .password)
  let start ← contentStart file record.headerOffset
  if record.method = .unknown then throw (.unsupported .method)
  if record.isSealed then throw .wrongPassword
  return blockAt file start record.storedSize

/-- What makes bits unreadable makes the content damaged. -/
def ContentFault.ofBitError : BitError → ContentFault
  | .incomplete => .incomplete
  | .corrupt => .corrupt

/-- The content that stored bytes stand for. -/
def expand (method : Method) (bytes : List UInt8) : Except ArchiveError (List UInt8) :=
  match method with
  | .stored => .ok bytes
  | .deflated => (inflate bytes).mapError (fun error => .damaged (.ofBitError error))
  | _ => .error (.unsupported .method)

/-- The content of an entry, which has to fit its checksum. -/
def checkedContent (record : DirectoryRecord) (bytes : List UInt8) :
    Except ArchiveError (List UInt8) := do
  let content ← expand record.method bytes
  if checksum content = record.checksum then return content
  else throw (.damaged .checksum)

def readEntry (file : Array UInt8) (record : DirectoryRecord) :
    Except ArchiveError ArchiveEntry := do
  let bytes ← storedContent file record
  return { name := record.name, size := record.size, content := checkedContent record bytes }

/-- Reads the entries of an archive.  Every entry has to be in place, and then the
wanted ones are expanded. -/
def readArchive (wanted : String → Bool) (bytes : List UInt8) :
    Except ArchiveError (List ArchiveEntry) := do
  let file := bytes.toArray
  let records := lastOfEachName (← readDirectory file)
  let _ ← records.mapM (storedContent file)
  (records.filter (fun record => wanted record.name)).mapM (readEntry file)

end Linkage.Archive
