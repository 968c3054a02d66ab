/-
Texts of a class file.  A text is standard UTF-8 if it is valid as such, and
otherwise the modified form: a zero takes two bytes, and a character beyond the
basic plane is written as two surrogates of three bytes each.
-/

namespace Linkage.ClassFile

/-- The value of a continuation byte. -/
def continuation? (byte : UInt8) : Option Nat :=
  if 0x80 ≤ byte.toNat ∧ byte.toNat < 0xc0 then some (byte.toNat - 0x80) else none

/-- The code unit of a three-byte form; overlong forms have none. -/
def threeByteUnit? (first second third : UInt8) : Option Nat := do
  let high ← continuation? second
  let low ← continuation? third
  let unit := (first.toNat - 0xe0) * 0x1000 + high * 0x40 + low
  if 0x800 ≤ unit then some unit else none

/-- Reads text in the modified form. -/
def decodeModified : List UInt8 → Option (List Char)
  | [] => some []
  | first :: rest =>
      if first.toNat = 0 then none
      else if first.toNat < 0x80 then
        (decodeModified rest).map (Char.ofNat first.toNat :: ·)
      else if first.toNat = 0xc0 then
        match rest with
        | second :: rest =>
            if second.toNat = 0x80 then (decodeModified rest).map (Char.ofNat 0 :: ·)
            else none
        | [] => none
      else if 0xc2 ≤ first.toNat ∧ first.toNat < 0xe0 then
        match rest with
        | second :: rest =>
            match continuation? second with
            | some low =>
                (decodeModified rest).map
                  (Char.ofNat ((first.toNat - 0xc0) * 0x40 + low) :: ·)
            | none => none
        | [] => none
      else if 0xe0 ≤ first.toNat ∧ first.toNat < 0xf0 then
        match rest with
        | second :: third :: rest =>
            match threeByteUnit? first second third with
            | none => none
            | some unit =>
                if unit < 0xd800 ∨ 0xe000 ≤ unit then
                  (decodeModified rest).map (Char.ofNat unit :: ·)
                else if 0xdc00 ≤ unit then none
                else
                  match rest with
                  | fourth :: fifth :: sixth :: rest =>
                      if fourth.toNat = 0xed then
                        match threeByteUnit? fourth fifth sixth with
                        | none => none
                        | some low =>
                            if 0xdc00 ≤ low ∧ low < 0xe000 then
                              (decodeModified rest).map (Char.ofNat
                                (0x10000 + (unit - 0xd800) * 0x400 + (low - 0xdc00)) :: ·)
                            else none
                      else none
                  | _ => none
        | _ => none
      else none

/-- The text of a constant, if the bytes are one. -/
def decodeText (bytes : List UInt8) : Option String :=
  match String.fromUTF8? ⟨bytes.toArray⟩ with
  | some text => some text
  | none => (decodeModified bytes).map String.ofList

end Linkage.ClassFile
