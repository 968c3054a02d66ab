/-
What can be wrong with an archive.  A fault is a breach of the format, a feature
that is not supported, a read that fails, or damage to the content of an entry.
-/

namespace Linkage.Archive

/-- The blocks of fixed size that an archive is made of. -/
inductive BlockKind where
  | endRecord
  | largeEndRecord
  | directoryRecord
  | entryHeader
  deriving DecidableEq, Repr

def BlockKind.text : BlockKind → String
  | endRecord => "zip::spec::Zip32CDEBlock"
  | largeEndRecord => "zip::spec::Zip64CDEBlock"
  | directoryRecord => "zip::types::ZipCentralEntryBlock"
  | entryHeader => "zip::types::ZipLocalEntryBlock"

inductive FormatFault where
  | cutBlock (kind : BlockKind)
  | cutField
  | noEndRecord
  | longComment
  | directoryAfterEnd
  | noDirectoryRecord
  | locatorAfterTarget
  | severalDisks
  | noLargeEndRecord
  | smallLargeEndRecord
  | largeEndRecordTooLong
  | otherDirectoryDisk
  | largeEndRecordSize
  | tooManyRecords
  | moreRecordsThanTotal
  | badDirectoryMark
  | badEntryMark
  | headerTooFar
  | cutExtraHeader
  | cutExtraField
  | cutLargeField
  | largeFieldSize
  | cutSealField
  | sealVendor
  | sealVersion
  | sealStrength
  | noSealField
  | emptyTimes
  | smallUnicodeField
  | unicodeChecksum
  | badUnicode
  deriving DecidableEq, Repr

def FormatFault.text : FormatFault → String
  | cutBlock kind => "Unexpected end of " ++ kind.text
  | cutField => "Variable-length field extends beyond file boundary"
  | noEndRecord => "Could not find EOCD"
  | longComment => "EOCD comment exceeds file boundary"
  | directoryAfterEnd => "Invalid CDFH offset in EOCD"
  | noDirectoryRecord => "No CDFH found"
  | locatorAfterTarget => "Invalid EOCD64 Locator CD offset"
  | severalDisks => "Multi-disk ZIP files are not supported"
  | noLargeEndRecord => "Could not find EOCD64"
  | smallLargeEndRecord => "Low EOCD64 record size"
  | largeEndRecordTooLong => "EOCD64 extends beyond EOCD64 locator"
  | otherDirectoryDisk => "Invalid EOCD64: inconsistency with Locator data"
  | largeEndRecordSize => "Invalid EOCD64: inconsistent length"
  | tooManyRecords => "Invalid EOCD64: inconsistent number of files"
  | moreRecordsThanTotal =>
      "ZIP64 footer indicates more files on this disk than in the whole archive"
  | badDirectoryMark => "Invalid Central Directory header"
  | badEntryMark => "Invalid local file header"
  | headerTooFar => "Archive header is too large"
  | cutExtraHeader => "Extra field header truncated"
  | cutExtraField => "Extra field content truncated"
  | cutLargeField => "ZIP64 extra field truncated"
  | largeFieldSize => "ZIP64 extra-data field is the wrong length"
  | cutSealField => "AES extra field truncated"
  | sealVendor => "Invalid AES vendor"
  | sealVersion => "Invalid AES vendor version"
  | sealStrength => "Invalid AES encryption strength"
  | noSealField => "AES encryption without AES extra data field"
  | emptyTimes => "Extended timestamp field is empty"
  | smallUnicodeField => "Unicode extra field is too small"
  | unicodeChecksum => "CRC32 checksum failed on Unicode extra field"
  | badUnicode => "Invalid UTF-8"

inductive MissingFeature where
  | severalDisks
  | password
  | method
  | sealFieldSize
  | fileTimesSize
  | fileTimesTag
  | fileTimesAttributeSize
  deriving DecidableEq, Repr

def MissingFeature.text : MissingFeature → String
  | severalDisks => "Support for multi-disk files is not implemented"
  | password => "Password required to decrypt file"
  | method => "Compression method not supported"
  | sealFieldSize => "AES extra data field has an unsupported length"
  | fileTimesSize => "NTFS extra field has an unsupported length"
  | fileTimesTag => "NTFS extra field has an unsupported attribute tag"
  | fileTimesAttributeSize => "NTFS extra field has an unsupported attribute size"

/-- Eight binary digits. -/
def binaryText (number : Nat) : String :=
  String.ofList ((List.range 8).reverse.map (fun bit =>
    if number.testBit bit then '1' else '0'))

inductive ReadFault where
  | cut
  | badPosition
  | timesMismatch (size flags : Nat)
  deriving DecidableEq, Repr

def ReadFault.text : ReadFault → String
  | cut => "failed to fill whole buffer"
  | badPosition => "Invalid argument (os error 22)"
  | timesMismatch size flags =>
      "flags and len don't match in extended timestamp field len=" ++ toString size
        ++ " flags=" ++ binaryText flags

/-- Damage to the content of an entry. -/
inductive ContentFault where
  | corrupt
  | incomplete
  | checksum
  deriving DecidableEq, Repr

def ContentFault.text : ContentFault → String
  | corrupt => "corrupt deflate stream"
  | incomplete => "incomplete deflate stream"
  | checksum => "Invalid checksum"

/-- Why bytes, or one entry of them, cannot be read as an archive. -/
inductive ArchiveError where
  | invalid (fault : FormatFault)
  | unsupported (feature : MissingFeature)
  | unreadable (fault : ReadFault)
  | wrongPassword
  | damaged (fault : ContentFault)
  deriving DecidableEq, Repr

/-- The error as messages write it: what went wrong, and then what caused that. -/
def ArchiveError.causes : ArchiveError → List String
  | invalid fault => ["invalid Zip archive: " ++ fault.text]
  | unsupported feature => ["unsupported Zip archive: " ++ feature.text]
  | unreadable fault => ["i/o error: " ++ fault.text, fault.text]
  | wrongPassword => ["provided password is incorrect"]
  | damaged fault => [fault.text]

example : binaryText 1 = "00000001" ∧ binaryText 0xa5 = "10100101" := by decide

end Linkage.Archive
