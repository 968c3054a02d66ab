/-
Decimal text of binary numbers: the fewest digits that read back as the number,
and of those the nearest to it.  Small and large numbers have an exponent.
-/

namespace Linkage.Decimal

/-- The widths of the parts of a binary number. -/
structure Layout where
  exponentWidth : Nat
  fractionWidth : Nat
  deriving DecidableEq, Repr

/-- Numbers of single precision. -/
def Layout.single : Layout := ⟨8, 23⟩

/-- Numbers of double precision. -/
def Layout.double : Layout := ⟨11, 52⟩

/-- The positive number `mantissa * 2 ^ exponent`.  The gap to the number below
is half as wide as the gap above where a power of two is crossed. -/
structure Binary where
  mantissa : Nat
  exponent : Int
  narrowBelow : Bool
  deriving DecidableEq, Repr

/-- What bits stand for, apart from the sign. -/
inductive Magnitude where
  | zero
  | finite (value : Binary)
  | infinite
  | notNumber
  deriving DecidableEq, Repr

def isNegative (layout : Layout) (bits : Nat) : Bool :=
  bits.testBit (layout.exponentWidth + layout.fractionWidth)

def magnitude (layout : Layout) (bits : Nat) : Magnitude :=
  let fraction := bits % (1 <<< layout.fractionWidth)
  let stored := (bits >>> layout.fractionWidth) % (1 <<< layout.exponentWidth)
  let least : Int :=
    2 - Int.ofNat (1 <<< (layout.exponentWidth - 1)) - Int.ofNat layout.fractionWidth
  if stored + 1 = 1 <<< layout.exponentWidth then
    if fraction = 0 then .infinite else .notNumber
  else if stored = 0 then
    if fraction = 0 then .zero else .finite ⟨fraction, least, false⟩
  else
    .finite ⟨(1 <<< layout.fractionWidth) + fraction, least + (Int.ofNat stored - 1),
      fraction = 0 ∧ 1 < stored⟩

/-- The digits of a number and the power of ten that they are multiplied by. -/
structure Digits where
  value : Nat
  power : Int
  deriving DecidableEq, Repr

/-- The ratio of a number, or of its bounds, to a power of ten, as a numerator in
quarters of the last place and a common denominator. -/
def ratio (quarters : Nat) (exponent power : Int) : Nat × Nat :=
  let binary := exponent - 2
  ((quarters * Nat.pow 10 (-power).toNat) <<< binary.toNat,
    Nat.pow 10 power.toNat <<< (-binary).toNat)

/-- Whether a multiple of a power of ten reads back as the number.  The bounds
themselves do so if the mantissa is even. -/
def readsBack (number : Binary) (power : Int) (multiple : Nat) : Bool :=
  let below := 4 * number.mantissa - (if number.narrowBelow then 1 else 2)
  let (low, unit) := ratio below number.exponent power
  let (high, _) := ratio (4 * number.mantissa + 2) number.exponent power
  if number.mantissa % 2 = 0 then low ≤ multiple * unit && multiple * unit ≤ high
  else low < multiple * unit && multiple * unit < high

/-- The nearest multiple of a power of ten that reads back; of two at the same
distance the greater. -/
def onGrid (number : Binary) (power : Int) : Option Nat :=
  let (value, unit) := ratio (4 * number.mantissa) number.exponent power
  let lower := value / unit
  let lowerFits := 0 < lower && readsBack number power lower
  let upperFits := readsBack number power (lower + 1)
  if lowerFits && (!upperFits || 2 * (value % unit) < unit) then some lower
  else if upperFits then some (lower + 1)
  else none

/-- The first power of ten, going down from a start, with a multiple that reads
back. -/
def searchDown (number : Binary) : (steps : Nat) → (power : Int) → Option Digits
  | 0, _ => none
  | steps + 1, power =>
      match onGrid number power with
      | some value => some ⟨value, power⟩
      | none => searchDown number steps (power - 1)

/-- The powers of ten between the greatest and the least number of any layout. -/
def searchStart : Int := 310

def searchSteps : Nat := 650

/-- The fewest digits that read back. -/
def shortest (number : Binary) : Digits :=
  (searchDown number searchSteps searchStart).getD ⟨0, 0⟩

def zeros (count : Nat) : List Char := List.replicate count '0'

/-- Digits with a point, and with at least one digit after it. -/
def positional (digits : List Char) (power : Int) : List Char :=
  if 0 ≤ power then digits ++ zeros power.toNat ++ ['.', '0']
  else
    let places := (-power).toNat
    let padded := zeros (places + 1 - digits.length) ++ digits
    padded.take (padded.length - places) ++ '.' :: padded.drop (padded.length - places)

/-- Digits with a point after the first and an exponent. -/
def scientific (digits : List Char) (exponent : Int) : List Char :=
  let fraction := match digits.drop 1 with
    | [] => []
    | more => '.' :: more
  digits.take 1 ++ fraction ++ 'e' :: (toString exponent).toList

/-- The text of digits: positional from one ten-thousandth up to ten to the
sixteenth, and with an exponent beyond. -/
def Digits.text (number : Digits) : List Char :=
  let digits := (toString number.value).toList
  let exponent := number.power + digits.length - 1
  if -4 ≤ exponent ∧ exponent < 16 then positional digits number.power
  else scientific digits exponent

/-- The text of the number that bits stand for. -/
def text (layout : Layout) (bits : Nat) : String :=
  let sign := if isNegative layout bits then "-" else ""
  match magnitude layout bits with
  | .zero => sign ++ "0.0"
  | .finite number => sign ++ String.ofList (shortest number).text
  | .infinite => sign ++ "inf"
  | .notNumber => "NaN"

end Linkage.Decimal
