import Linkage.Archive.CodeTree
/-
Decompression of deflated contents.  The bits of a content are read least
significant first, block by block; a block holds bytes as they are or symbols
of a prefix code, which stand for bytes and for copies of earlier output.
-/

namespace Linkage.Archive

/-- The bits of bytes, least significant first. -/
def bitsOf (bytes : List UInt8) : List Bool :=
  bytes.flatMap (fun byte => (List.range 8).map byte.toNat.testBit)

/-- Reads a number of a width, least significant bit first. -/
def takeNumber : (width : Nat) → (bits : List Bool) → Except BitError (Nat × Rest bits)
  | 0, bits => .ok (0, ⟨bits, Nat.le_refl _⟩)
  | _ + 1, [] => .error .incomplete
  | width + 1, bit :: bits =>
      (takeNumber width bits).map (fun (high, rest) =>
        (bit.toNat + 2 * high, ⟨rest.val, Nat.le_succ_of_le rest.property⟩))

def takeBytes : (count : Nat) → (bits : List Bool) →
    Except BitError (List UInt8 × Rest bits)
  | 0, bits => .ok ([], ⟨bits, Nat.le_refl _⟩)
  | count + 1, bits => do
      let (byte, ⟨rest, hrest⟩) ← takeNumber 8 bits
      let (more, ⟨last, hlast⟩) ← takeBytes count rest
      return (UInt8.ofNat byte :: more, ⟨last, Nat.le_trans hlast hrest⟩)

/-- The least length and the number of extra bits of each copy symbol. -/
def lengthCodes : List (Nat × Nat) :=
  [(3, 0), (4, 0), (5, 0), (6, 0), (7, 0), (8, 0), (9, 0), (10, 0), (11, 1), (13, 1),
    (15, 1), (17, 1), (19, 2), (23, 2), (27, 2), (31, 2), (35, 3), (43, 3), (51, 3),
    (59, 3), (67, 4), (83, 4), (99, 4), (115, 4), (131, 5), (163, 5), (195, 5),
    (227, 5), (258, 0)]

/-- The least distance and the number of extra bits of each distance symbol. -/
def distanceCodes : List (Nat × Nat) :=
  [(1, 0), (2, 0), (3, 0), (4, 0), (5, 1), (7, 1), (9, 2), (13, 2), (17, 3), (25, 3),
    (33, 4), (49, 4), (65, 5), (97, 5), (129, 6), (193, 6), (257, 7), (385, 7),
    (513, 8), (769, 8), (1025, 9), (1537, 9), (2049, 10), (3073, 10), (4097, 11),
    (6145, 11), (8193, 12), (12289, 12), (16385, 13), (24577, 13)]

/-- The codes of a block: bytes and copy lengths, and copy distances. -/
structure BlockCodes where
  literals : CodeTree
  distances : CodeTree

/-- The codes that need not be written down. -/
def fixedCodes : BlockCodes where
  literals := .ofLengths
    (List.replicate 144 8 ++ List.replicate 112 9 ++ List.replicate 24 7
      ++ List.replicate 8 8)
  distances := .ofLengths (List.replicate 32 5)

/-- Repeats earlier output, byte by byte, so that a copy may reach into itself. -/
def copyBack (distance : Nat) :
    (length : Nat) → Array UInt8 → Except BitError (Array UInt8)
  | 0, output => .ok output
  | length + 1, output =>
      if 0 < distance ∧ distance ≤ output.size then
        copyBack distance length (output.push (output.getD (output.size - distance) 0))
      else .error .corrupt

/-- Reads a number that a table splits into a base and extra bits. -/
def takeExtended (table : List (Nat × Nat)) (symbol : Nat) (bits : List Bool) :
    Except BitError (Nat × Rest bits) :=
  match table[symbol]? with
  | none => .error .corrupt
  | some (base, width) => do
      let (extra, rest) ← takeNumber width bits
      return (base + extra, rest)

/-- Reads the symbols of a block up to its end. -/
def inflateSymbols {start : List Bool} (codes : BlockCodes) (bits : List Bool)
    (hbits : bits.length ≤ start.length) (output : Array UInt8) :
    Except BitError (Array UInt8 × Rest start) := do
  let (symbol, ⟨rest, hrest⟩) ← codes.literals.read bits
  if symbol < 256 then
    inflateSymbols codes rest (by omega) (output.push (UInt8.ofNat symbol))
  else if symbol = 256 then
    return (output, ⟨rest, by omega⟩)
  else
    let (length, ⟨afterLength, hlength⟩) ← takeExtended lengthCodes (symbol - 257) rest
    let (slot, ⟨afterSlot, hslot⟩) ← codes.distances.read afterLength
    let (distance, ⟨afterCopy, hcopy⟩) ← takeExtended distanceCodes slot afterSlot
    let copied ← copyBack distance length output
    inflateSymbols codes afterCopy (by omega) copied
termination_by bits.length
decreasing_by all_goals omega

/-- The order in which the lengths of the length code are written. -/
def lengthOrder : List Nat :=
  [16, 17, 18, 0, 8, 7, 9, 6, 10, 5, 11, 4, 12, 3, 13, 2, 14, 1, 15]

/-- Reads numbers of three bits. -/
def takeShortNumbers : (count : Nat) → (bits : List Bool) →
    Except BitError (List Nat × Rest bits)
  | 0, bits => .ok ([], ⟨bits, Nat.le_refl _⟩)
  | count + 1, bits => do
      let (number, ⟨rest, hrest⟩) ← takeNumber 3 bits
      let (more, ⟨last, hlast⟩) ← takeShortNumbers count rest
      return (number :: more, ⟨last, Nat.le_trans hlast hrest⟩)

/-- The length that a symbol repeats: the last one, or zero. -/
def repeatedLength (lengths : Array Nat) (symbol : Nat) : Except BitError Nat :=
  if symbol = 16 then
    match lengths.back? with
    | some length => .ok length
    | none => .error .corrupt
  else .ok 0

/-- The least number of times that a symbol repeats a length, and the number of bits
that add to it. -/
def repeatCount (symbol : Nat) : Nat × Nat :=
  if symbol = 16 then (3, 2) else if symbol = 17 then (3, 3) else (11, 7)

/-- Reads lengths of words until there are enough; symbols from 16 on repeat the
last length or a zero. -/
def takeLengths (tree : CodeTree) (count : Nat) (bits : List Bool)
    (lengths : Array Nat) : Except BitError (Array Nat × Rest bits) := do
  if count ≤ lengths.size then
    return (lengths, ⟨bits, Nat.le_refl _⟩)
  else
    let (symbol, ⟨rest, hrest⟩) ← tree.read bits
    if symbol < 16 then
      let (final, ⟨last, hlast⟩) ← takeLengths tree count rest (lengths.push symbol)
      return (final, ⟨last, by omega⟩)
    else
      let shape := repeatCount symbol
      let (extra, ⟨afterExtra, hextra⟩) ← takeNumber shape.2 rest
      let repeated ← repeatedLength lengths symbol
      let (final, ⟨last, hlast⟩) ← takeLengths tree count afterExtra
        (lengths ++ Array.replicate (shape.1 + extra) repeated)
      return (final, ⟨last, by omega⟩)
termination_by bits.length
decreasing_by all_goals omega

def endOfBlock : Nat := 256

/-- The codes with the given lengths of words; the end of the block needs a word. -/
def BlockCodes.ofLengths (literals distances : List Nat) : Except BitError BlockCodes := do
  if literals.getD endOfBlock 0 = 0 then throw .corrupt
  return { literals := ← CodeTree.ofWritten literals
           distances := ← CodeTree.ofWritten distances }

/-- Reads the codes of a block that writes them down. -/
def takeCodes (bits : List Bool) : Except BitError (BlockCodes × Rest bits) := do
  let (literals, ⟨afterLiterals, hliterals⟩) ← takeNumber 5 bits
  let (distances, ⟨afterDistances, hdistances⟩) ← takeNumber 5 afterLiterals
  let (short, ⟨afterShort, hshort⟩) ← takeNumber 4 afterDistances
  if 286 < literals + 257 ∨ 30 < distances + 1 then throw .corrupt
  let (numbers, ⟨afterNumbers, hnumbers⟩) ← takeShortNumbers (short + 4) afterShort
  let ordered := lengthOrder.zip numbers
  let tree ← CodeTree.ofWrittenLengths
    ((List.range 19).map (fun symbol => (ordered.lookup symbol).getD 0))
  let count := literals + 257 + (distances + 1)
  let (lengths, ⟨last, hlast⟩) ← takeLengths tree count afterNumbers #[]
  if lengths.size ≠ count then throw .corrupt
  let codes ← BlockCodes.ofLengths (lengths.toList.take (literals + 257))
    (lengths.toList.drop (literals + 257))
  return (codes, ⟨last, by omega⟩)

/-- Reads a block of bytes, which starts at a byte boundary with its size and the
complement of its size. -/
def takeStored (bits : List Bool) : Except BitError (List UInt8 × Rest bits) := do
  let aligned := bits.drop (bits.length % 8)
  have haligned : aligned.length ≤ bits.length := by simp [aligned]
  let (size, ⟨afterSize, hsize⟩) ← takeNumber 16 aligned
  let (complement, ⟨afterComplement, hcomplement⟩) ← takeNumber 16 afterSize
  if size + complement = 0xffff then
    let (bytes, ⟨last, hlast⟩) ← takeBytes size afterComplement
    return (bytes, ⟨last, by omega⟩)
  else throw .corrupt

def inflateBlock (form : Nat) (bits : List Bool) (output : Array UInt8) :
    Except BitError (Array UInt8 × Rest bits) := do
  if form = 0 then
    let (bytes, rest) ← takeStored bits
    return (output ++ bytes, rest)
  else if form = 1 then
    inflateSymbols fixedCodes bits (Nat.le_refl _) output
  else if form = 2 then
    let (codes, ⟨rest, hrest⟩) ← takeCodes bits
    inflateSymbols codes rest hrest output
  else throw .corrupt

/-- Reads blocks up to the one that is marked as the last. -/
def inflateBlocks : (bits : List Bool) → Array UInt8 → Except BitError (Array UInt8)
  | [], _ => .error .incomplete
  | isLast :: bits, output => do
      let (form, ⟨afterForm, _hform⟩) ← takeNumber 2 bits
      let (output, ⟨rest, _hrest⟩) ← inflateBlock form afterForm output
      if isLast then return output else inflateBlocks rest output
termination_by bits => bits.length
decreasing_by simp only [List.length_cons]; omega

/-- The content that compressed bytes stand for. -/
def inflate (bytes : List UInt8) : Except BitError (List UInt8) :=
  (inflateBlocks (bitsOf bytes) #[]).map Array.toList

end Linkage.Archive
