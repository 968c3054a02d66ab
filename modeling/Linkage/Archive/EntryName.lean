/-
Names of archive entries.  An entry says whether its texts are UTF-8; otherwise
the bytes are characters of code page 437.
-/

namespace Linkage.Archive

/-- The upper half of code page 437. -/
def upperPage : List Char :=
  "ÇüéâäàåçêëèïîìÄÅÉæÆôöòûùÿÖÜ¢£¥₧ƒáíóúñÑªº¿⌐¬½¼¡«»░▒▓│┤╡╢╖╕╣║╗╝╜╛┐└┴┬├─┼╞╟╚╔╩╦╠═╬╧╨╤╥╙╘╒╓╫╪┘┌█▄▌▐▀αßΓπΣσµτΦΘΩδ∞φε∩≡±≥≤⌠⌡÷≈°∙·√ⁿ²■\u00a0".toList

def pageChar (byte : UInt8) : Char :=
  if byte.toNat < 128 then Char.ofNat byte.toNat
  else upperPage.getD (byte.toNat - 128) '\ufffd'

def pageText (bytes : List UInt8) : String :=
  String.ofList (bytes.map pageChar)

/-- What the first byte of a UTF-8 sequence says: how many bytes follow, which part
of the character it holds, and between which bounds the second byte lies. -/
structure LeadByte where
  follow : Nat
  value : Nat
  least : Nat := 0x80
  greatest : Nat := 0xbf
  deriving DecidableEq, Repr

def LeadByte.ofByte? (byte : Nat) : Option LeadByte :=
  if byte < 0x80 then some { follow := 0, value := byte }
  else if byte < 0xc2 then none
  else if byte < 0xe0 then some { follow := 1, value := byte - 0xc0 }
  else if byte = 0xe0 then some { follow := 2, value := 0, least := 0xa0 }
  else if byte = 0xed then some { follow := 2, value := 13, greatest := 0x9f }
  else if byte < 0xf0 then some { follow := 2, value := byte - 0xe0 }
  else if byte = 0xf0 then some { follow := 3, value := 0, least := 0x90 }
  else if byte < 0xf4 then some { follow := 3, value := byte - 0xf0 }
  else if byte = 0xf4 then some { follow := 3, value := 4, greatest := 0x8f }
  else none

/-- The bytes after the first that continue a UTF-8 sequence. -/
def LeadByte.continuation (lead : LeadByte) (rest : List UInt8) : List UInt8 :=
  match rest.take lead.follow with
  | [] => []
  | second :: more =>
      if lead.least ≤ second.toNat ∧ second.toNat ≤ lead.greatest then
        second :: more.takeWhile (fun byte => 0x80 ≤ byte.toNat && byte.toNat ≤ 0xbf)
      else []

/-- Reads one character, and the number of bytes that it takes after the first.  A
sequence that breaks off becomes a replacement character. -/
def lossyChar (byte : UInt8) (rest : List UInt8) : Char × Nat :=
  match LeadByte.ofByte? byte.toNat with
  | none => ('\ufffd', 0)
  | some lead =>
      let continuation := lead.continuation rest
      if continuation.length = lead.follow then
        (Char.ofNat (continuation.foldl (fun value byte => 64 * value + byte.toNat % 64)
          lead.value), lead.follow)
      else ('\ufffd', continuation.length)

/-- The characters of UTF-8 that may be broken. -/
def lossyChars : List UInt8 → List Char
  | [] => []
  | byte :: rest =>
      let (char, size) := lossyChar byte rest
      char :: lossyChars (rest.drop size)
termination_by bytes => bytes.length
decreasing_by simp only [List.length_cons, List.length_drop]; omega

def entryText (isUnicode : Bool) (bytes : List UInt8) : String :=
  if isUnicode then String.ofList (lossyChars bytes) else pageText bytes

end Linkage.Archive
