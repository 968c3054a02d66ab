import Linkage.Proofs.SignatureBytes
import Mathlib.Data.List.TakeWhile
/-
Texts as UTF-8.  The first byte of a character tells an ASCII character from every other one,
and no later byte is one.  Reading the bytes of a text as characters gives the text back.
-/

namespace Linkage

namespace Signature

/-- The bytes of a text. -/
def textBytes (text : List Char) : List UInt8 := text.flatMap String.utf8EncodeChar

/-- The first byte of a character. -/
def firstByte (c : Char) : UInt8 := byteOf (SignatureError.leadByte c)

/-- A later byte, which holds six bits of a code. -/
def laterByte (code : Nat) : UInt8 := UInt8.ofNat (0x80 + code % 0x40)

@[simp] theorem toNat_laterByte (code : Nat) : (laterByte code).toNat = 0x80 + code % 0x40 :=
  UInt8.toNat_ofNat_of_lt' (show _ < 0x100 by omega)

theorem laterByte_eq (code : Nat) : UInt8.ofNat (code % 0x40 + 0x80) = laterByte code := by
  rw [laterByte, Nat.add_comm]

theorem toNat_char_ofNat {code : Nat} (h : code < 0xd800) : (Char.ofNat code).toNat = code := by
  rw [Char.ofNat, dif_pos (Or.inl h)]
  rfl

theorem byteOf_ofNat {code : Nat} (h : code < 0x100) :
    byteOf (Char.ofNat code) = UInt8.ofNat code := by
  rw [byteOf, toNat_char_ofNat (by omega)]

/-- The bytes of a character, by how many there are. -/
inductive Encoded (c : Char) : List UInt8 → Prop where
  | one (least : c.toNat < 0x80) (first : (firstByte c).toNat = c.toNat) :
      Encoded c [firstByte c]
  | two (least : 0x80 ≤ c.toNat) (code : c.toNat < 0x800)
      (first : (firstByte c).toNat = 0xc0 + c.toNat / 0x40) :
      Encoded c [firstByte c, laterByte c.toNat]
  | three (least : 0x800 ≤ c.toNat) (code : c.toNat < 0x10000)
      (first : (firstByte c).toNat = 0xe0 + c.toNat / 0x1000) :
      Encoded c [firstByte c, laterByte (c.toNat / 0x40), laterByte c.toNat]
  | four (least : 0x10000 ≤ c.toNat) (first : (firstByte c).toNat = 0xf0 + c.toNat / 0x40000) :
      Encoded c [firstByte c, laterByte (c.toNat / 0x1000), laterByte (c.toNat / 0x40),
        laterByte c.toNat]

theorem toNat_lt_or (c : Char) :
    c.toNat < 0xd800 ∨ 0xdfff < c.toNat ∧ c.toNat < 0x110000 := c.valid

theorem firstByte_of_lt {c : Char} (h : c.toNat < 0x80) : firstByte c = byteOf c := by
  rw [firstByte, SignatureError.leadByte, if_pos h]

theorem encoded_utf8EncodeChar (c : Char) : Encoded c (String.utf8EncodeChar c) := by
  have hvalid := toNat_lt_or c
  have hcode : c.val.toNat = c.toNat := rfl
  simp only [String.utf8EncodeChar, hcode]
  split
  next h =>
    have hfirst : firstByte c = UInt8.ofNat c.toNat := firstByte_of_lt (by omega)
    rw [← hfirst]
    refine .one (by omega) ?_
    rw [hfirst]
    exact UInt8.toNat_ofNat_of_lt' (show _ < 0x100 by omega)
  split
  next h =>
    have hfirst : firstByte c = UInt8.ofNat (c.toNat / 64 % 32 + 192) := by
      rw [firstByte, SignatureError.leadByte, if_neg (by omega), if_pos (by omega),
        byteOf_ofNat (by omega), Nat.mod_eq_of_lt (by omega), Nat.add_comm]
    rw [← hfirst, laterByte_eq]
    refine .two (by omega) (by omega) ?_
    rw [hfirst, UInt8.toNat_ofNat_of_lt' (show _ < 0x100 by omega)]
    omega
  split
  next h =>
    have hfirst : firstByte c = UInt8.ofNat (c.toNat / 4096 % 16 + 224) := by
      rw [firstByte, SignatureError.leadByte, if_neg (by omega), if_neg (by omega),
        if_pos (by omega), byteOf_ofNat (by omega), Nat.mod_eq_of_lt (by omega), Nat.add_comm]
    rw [← hfirst, laterByte_eq, laterByte_eq]
    refine .three (by omega) (by omega) ?_
    rw [hfirst, UInt8.toNat_ofNat_of_lt' (show _ < 0x100 by omega)]
    omega
  next h =>
    have hfirst : firstByte c = UInt8.ofNat (c.toNat / 262144 % 8 + 240) := by
      rw [firstByte, SignatureError.leadByte, if_neg (by omega), if_neg (by omega),
        if_neg (by omega), byteOf_ofNat (by omega), Nat.mod_eq_of_lt (by omega), Nat.add_comm]
    rw [← hfirst, laterByte_eq, laterByte_eq, laterByte_eq]
    refine .four (by omega) ?_
    rw [hfirst, UInt8.toNat_ofNat_of_lt' (show _ < 0x100 by omega)]
    omega

/-- Reading a first byte that is followed by all the bytes that it asks for. -/
theorem lossyChar_of_lead {byte second : UInt8} {more rest : List UInt8} {c : Char}
    {lead : Archive.LeadByte} (hlead : Archive.LeadByte.ofByte? byte.toNat = some lead)
    (hfollow : lead.follow = more.length + 1)
    (hsecond : lead.least ≤ second.toNat ∧ second.toNat ≤ lead.greatest)
    (hmore : ∀ later ∈ more, 0x80 ≤ later.toNat ∧ later.toNat ≤ 0xbf)
    (hcode : (second :: more).foldl (fun value byte => 64 * value + byte.toNat % 64) lead.value =
      c.toNat) :
    Archive.lossyChar byte (second :: more ++ rest) = (c, (second :: more).length) := by
  have hall : more.takeWhile (fun byte => 0x80 ≤ byte.toNat && byte.toNat ≤ 0xbf) = more :=
    List.takeWhile_eq_self_iff.mpr fun later hlater => by simp [hmore later hlater]
  have hcontinuation : lead.continuation (second :: more ++ rest) = second :: more := by
    rw [Archive.LeadByte.continuation, hfollow, ← List.length_cons, List.take_left]
    simp only [if_pos hsecond, hall]
  rw [Archive.lossyChar, hlead]
  simp only [hcontinuation, List.length_cons, hcode, Char.ofNat_toNat, hfollow, if_true]

namespace Encoded

variable {c : Char} {bytes : List UInt8}

/-- No byte after the first is ASCII. -/
theorem exists_cons (h : Encoded c bytes) :
    ∃ more, bytes = firstByte c :: more ∧ ∀ byte ∈ more, 0x80 ≤ byte.toNat := by
  cases h <;> exact ⟨_, rfl, by simp⟩

/-- The first byte is ASCII only if the character is. -/
theorem le_firstByte (h : Encoded c bytes) (hcode : 0x80 ≤ c.toNat) :
    0x80 ≤ (firstByte c).toNat := by
  cases h <;> omega

/-- Messages write a first byte as a character. -/
theorem ofNat_firstByte (h : Encoded c bytes) :
    Char.ofNat (firstByte c).toNat = SignatureError.leadByte c := by
  cases h with
  | one least first => rw [first, SignatureError.leadByte, if_pos least, Char.ofNat_toNat]
  | two least code first => rw [first, SignatureError.leadByte, if_neg (by omega), if_pos code]
  | three least code first =>
      rw [first, SignatureError.leadByte, if_neg (by omega), if_neg (by omega), if_pos code]
  | four least first =>
      rw [first, SignatureError.leadByte, if_neg (by omega), if_neg (by omega), if_neg (by omega)]

/-- A first byte that is not ASCII tells how many bytes follow, the first bits of the code and
the bounds of the second byte. -/
theorem ofByte?_eq (h : Encoded c bytes) (hcode : 0x80 ≤ c.toNat) :
    ∃ lead, Archive.LeadByte.ofByte? (firstByte c).toNat = some lead ∧
      lead.follow + 1 = bytes.length ∧
      bytes.tail.foldl (fun value byte => 64 * value + byte.toNat % 64) lead.value = c.toNat ∧
      ∀ second ∈ bytes[1]?, lead.least ≤ second.toNat ∧ second.toNat ≤ lead.greatest := by
  have hvalid := toNat_lt_or c
  cases h with
  | one least first => omega
  | two least code first =>
      rw [first, Archive.LeadByte.ofByte?, if_neg (by omega), if_neg (by omega),
        if_pos (by omega), Nat.add_sub_cancel_left]
      exact ⟨_, rfl, rfl, by simp; omega, by simp; omega⟩
  | three least code first =>
      rw [first, Archive.LeadByte.ofByte?, if_neg (by omega), if_neg (by omega), if_neg (by omega)]
      split
      next hlead => exact ⟨_, rfl, rfl, by simp; omega, by simp; omega⟩
      split
      next hlead => exact ⟨_, rfl, rfl, by simp; omega, by simp; omega⟩
      next hlead =>
        rw [if_pos (by omega), Nat.add_sub_cancel_left]
        exact ⟨_, rfl, rfl, by simp; omega, by simp; omega⟩
  | four least first =>
      rw [first, Archive.LeadByte.ofByte?, if_neg (by omega), if_neg (by omega), if_neg (by omega),
        if_neg (by omega), if_neg (by omega), if_neg (by omega)]
      split
      next hlead => exact ⟨_, rfl, rfl, by simp; omega, by simp; omega⟩
      split
      next hlead => exact ⟨_, rfl, rfl, by simp; omega, by simp; omega⟩
      next hlead =>
        rw [if_pos (by omega)]
        exact ⟨_, rfl, rfl, by simp; omega, by simp; omega⟩

/-- Reading the bytes gives the character. -/
theorem lossyChar_eq (h : Encoded c bytes) (rest : List UInt8) :
    Archive.lossyChar (firstByte c) (bytes.tail ++ rest) = (c, bytes.tail.length) := by
  have hlead := h.ofByte?_eq
  cases h with
  | one least first =>
      rw [Archive.lossyChar, first, Archive.LeadByte.ofByte?, if_pos least]
      simp [Archive.LeadByte.continuation]
  | two least code first =>
      obtain ⟨lead, hlead, hfollow, hcode, hsecond⟩ := hlead least
      exact lossyChar_of_lead hlead (Nat.succ.inj hfollow) (hsecond _ rfl) (by simp) hcode
  | three least code first =>
      obtain ⟨lead, hlead, hfollow, hcode, hsecond⟩ := hlead (by omega)
      exact lossyChar_of_lead hlead (Nat.succ.inj hfollow) (hsecond _ rfl) (by simp; omega) hcode
  | four least first =>
      obtain ⟨lead, hlead, hfollow, hcode, hsecond⟩ := hlead (by omega)
      exact lossyChar_of_lead hlead (Nat.succ.inj hfollow) (hsecond _ rfl) (by simp; omega) hcode

end Encoded

/-! Texts. -/

@[simp] theorem textBytes_nil : textBytes [] = [] := rfl

theorem textBytes_append (front back : List Char) :
    textBytes (front ++ back) = textBytes front ++ textBytes back := List.flatMap_append

theorem textBytes_cons (c : Char) (text : List Char) :
    textBytes (c :: text) = String.utf8EncodeChar c ++ textBytes text := rfl

/-- The bytes of a text start with the first byte of its first character. -/
theorem exists_textBytes_cons (c : Char) (text : List Char) :
    ∃ more, textBytes (c :: text) = firstByte c :: more := by
  obtain ⟨more, hmore, _⟩ := (encoded_utf8EncodeChar c).exists_cons
  exact ⟨more ++ textBytes text, by rw [textBytes_cons, hmore, List.cons_append]⟩

theorem length_textBytes (text : List Char) :
    (textBytes text).length = SignatureError.byteLength text := by
  induction text with
  | nil => rfl
  | cons c text ih =>
      rw [textBytes_cons, List.length_append, String.length_utf8EncodeChar]
      exact congrArg (c.utf8Size + ·) ih

theorem lossyChars_cons (byte : UInt8) (rest : List UInt8) :
    Archive.lossyChars (byte :: rest) = (Archive.lossyChar byte rest).1 ::
      Archive.lossyChars (rest.drop (Archive.lossyChar byte rest).2) := by
  rw [Archive.lossyChars]

/-- The bytes of a text are read as the text. -/
theorem lossyChars_textBytes (text : List Char) : Archive.lossyChars (textBytes text) = text := by
  induction text with
  | nil => rw [textBytes_nil, Archive.lossyChars]
  | cons c text ih =>
      have henc := encoded_utf8EncodeChar c
      obtain ⟨more, hmore, _⟩ := henc.exists_cons
      have hread := henc.lossyChar_eq (textBytes text)
      rw [hmore, List.tail_cons] at hread
      rw [textBytes_cons, hmore, List.cons_append, lossyChars_cons, hread, List.drop_left, ih]

/-! Marks. -/

/-- A byte is the first of a character exactly if it is the byte of an ASCII character, for one. -/
theorem firstByte_eq_iff {c mark : Char} (hmark : mark.toNat < 0x80) :
    firstByte c = byteOf mark ↔ c = mark := by
  refine ⟨fun h => ?_, fun h => by rw [h, firstByte_of_lt hmark]⟩
  have htoNat := congrArg UInt8.toNat h
  rw [byteOf, UInt8.toNat_ofNat_of_lt' (show _ < 0x100 by omega)] at htoNat
  have henc := encoded_utf8EncodeChar c
  have hcode := henc.le_firstByte
  have hsame : c.toNat < 0x80 → (firstByte c).toNat = c.toNat := fun hlt => by
    rw [firstByte_of_lt hlt, byteOf, UInt8.toNat_ofNat_of_lt' (show _ < 0x100 by omega)]
  exact Char.toNat_inj.mp (by omega)

theorem firstByte_mem_iff {marks : List Char} (hmarks : ∀ mark ∈ marks, mark.toNat < 0x80)
    (c : Char) : firstByte c ∈ marks.map byteOf ↔ c ∈ marks := by
  rw [List.mem_map]
  constructor
  · rintro ⟨mark, hmark, h⟩
    rwa [(firstByte_eq_iff (hmarks mark hmark)).mp h.symm]
  · exact fun h => ⟨c, h, (firstByte_of_lt (hmarks c h)).symm⟩

theorem not_mem_of_le {marks : List Char} (hmarks : ∀ mark ∈ marks, mark.toNat < 0x80)
    {byte : UInt8} (hbyte : 0x80 ≤ byte.toNat) : byte ∉ marks.map byteOf := by
  rw [List.mem_map]
  rintro ⟨mark, hmark, rfl⟩
  have hlt := hmarks mark hmark
  rw [byteOf, UInt8.toNat_ofNat_of_lt' (show _ < 0x100 by omega)] at hbyte
  omega

/-- Whether a character is none of some marks. -/
def plain (marks : List Char) (c : Char) : Bool := !decide (c ∈ marks)

section Marks
variable {marks : List Char}

theorem not_mem_of_mem_utf8EncodeChar (hmarks : ∀ mark ∈ marks, mark.toNat < 0x80) {c : Char}
    (hc : c ∉ marks) {byte : UInt8} (hbyte : byte ∈ String.utf8EncodeChar c) :
    byte ∉ marks.map byteOf := by
  obtain ⟨more, hmore, hascii⟩ := (encoded_utf8EncodeChar c).exists_cons
  rw [hmore, List.mem_cons] at hbyte
  rcases hbyte with rfl | hbyte
  · rwa [firstByte_mem_iff hmarks c]
  · exact not_mem_of_le hmarks (hascii byte hbyte)

/-- The bytes before the first mark are those of the text before it. -/
theorem takeWhile_textBytes (hmarks : ∀ mark ∈ marks, mark.toNat < 0x80) (text : List Char) :
    (textBytes text).takeWhile (fun byte => !decide (byte ∈ marks.map byteOf)) =
      textBytes (text.takeWhile (plain marks)) := by
  induction text with
  | nil => rfl
  | cons c text ih =>
      by_cases hc : c ∈ marks
      · obtain ⟨more, hmore⟩ := exists_textBytes_cons c text
        rw [List.takeWhile_cons_of_neg (by simpa [plain] using hc), hmore,
          List.takeWhile_cons_of_neg (by simpa using (firstByte_mem_iff hmarks c).mpr hc),
          textBytes_nil]
      · have hplain : ∀ byte ∈ String.utf8EncodeChar c,
            (!decide (byte ∈ marks.map byteOf)) = true := fun byte hbyte => by
          simpa using not_mem_of_mem_utf8EncodeChar hmarks hc hbyte
        rw [List.takeWhile_cons_of_pos (by simpa [plain] using hc), textBytes_cons, textBytes_cons,
          List.takeWhile_append_of_pos hplain, ih]

/-- The first mark among the bytes is the first in the text. -/
theorem find?_textBytes (hmarks : ∀ mark ∈ marks, mark.toNat < 0x80) (text : List Char) :
    (textBytes text).find? (· ∈ marks.map byteOf) = (text.find? (· ∈ marks)).map byteOf := by
  induction text with
  | nil => rfl
  | cons c text ih =>
      by_cases hc : c ∈ marks
      · obtain ⟨more, hmore⟩ := exists_textBytes_cons c text
        rw [List.find?_cons_of_pos (by simpa using hc), hmore,
          List.find?_cons_of_pos (by simpa using (firstByte_mem_iff hmarks c).mpr hc),
          firstByte_of_lt (hmarks c hc), Option.map_some]
      · have hnone : (String.utf8EncodeChar c).find? (· ∈ marks.map byteOf) = none :=
          List.find?_eq_none.mpr fun byte hbyte => by
            simpa using not_mem_of_mem_utf8EncodeChar hmarks hc hbyte
        rw [List.find?_cons_of_neg (by simpa using hc), textBytes_cons, List.find?_append, hnone,
          Option.none_or, ih]

end Marks

end Signature

end Linkage
