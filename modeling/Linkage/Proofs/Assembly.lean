import Linkage.ClassFile.Bytecode
import Mathlib.Algebra.Group.Nat.Defs
/-
Assembly of method bodies as the class file format lays them out: an opcode and its
operands, most significant byte first, where the operands of a switch start at a
multiple of four.  Statements are the instructions by the layout of their operands,
and a statement means an operation if its operands name it in the constant pool.
-/

namespace Linkage.ClassFile.Bytecode

/-- The bytes of a number, most significant byte first. -/
def bytesOf : (count value : Nat) → List UInt8
  | 0, _ => []
  | count + 1, value => .ofNat (value / 256 ^ count) :: bytesOf count value

/-- The bytes of a signed word of 32 bits. -/
def signedBytes (value : Int) : List UInt8 :=
  bytesOf 4 (value % 0x100000000).toNat

/-- The number of bytes between a switch opcode and the next multiple of four. -/
def padding (offset : Nat) : Nat := 3 - offset % 4

/-! Opcodes by the layout of their operands, in ranges. -/

/-- Whether an opcode lies in one of some ranges. -/
def inRanges (ranges : List (Nat × Nat)) (opcode : UInt8) : Bool :=
  ranges.any (fun range => range.1 ≤ opcode.toNat && opcode.toNat ≤ range.2)

/-- Opcodes without operands, other than stores of references. -/
def bareOpcodes : List (Nat × Nat) :=
  [(0x00, 0x0f), -- no operation, constants
    (0x1a, 0x35), -- loads from the first slots and from arrays
    (0x3b, 0x4a), -- stores of numbers into the first slots
    (0x4f, 0x83), -- stores into arrays, stack, arithmetic
    (0x85, 0x98), -- conversions, comparisons
    (0xac, 0xb1), -- returns
    (0xbe, 0xbf), -- array length, throw
    (0xc2, 0xc3), -- monitors
    (0xca, 0xca), (0xfe, 0xff)] -- reserved

/-- Loads and stores of a slot, other than stores of references, and returns to a slot. -/
def slotOpcodes : List (Nat × Nat) := [(0x15, 0x19), (0x36, 0x39), (0xa9, 0xa9)]

/-- Opcodes with an operand of one byte that names no constant. -/
def byteOpcodes : List (Nat × Nat) := slotOpcodes ++ [(0x10, 0x10), (0xbc, 0xbc)]

/-- Opcodes with an operand of two bytes: numbers, branches, and loads of wide constants. -/
def wordOpcodes : List (Nat × Nat) :=
  [(0x11, 0x11), (0x14, 0x14), (0x99, 0xa8), (0xc6, 0xc7)]

/-- Wide branches, with an operand of four bytes. -/
def longOpcodes : List (Nat × Nat) := [(0xc8, 0xc9)]

/-- Creation of objects and arrays, casts and instance tests. -/
def typeOpcodes : List (Nat × Nat) := [(0xbb, 0xbb), (0xbd, 0xbd), (0xc0, 0xc1)]

/-- A jump for every number from `low` to `high`. -/
structure JumpTable where
  low : Int
  high : Int
  targets : List UInt32
  low_fits : -0x80000000 ≤ low
  low_le_high : low ≤ high
  high_fits : high < 0x80000000
  length_eq : (targets.length : Int) = high - low + 1
  length_fits : targets.length < 0x80000000

/-- Jumps by listed numbers. -/
structure JumpPairs where
  pairs : List (UInt32 × UInt32)
  length_fits : pairs.length < 0x80000000

/-- An instruction with its operands.  Words that name constants are indices of the pool; the
bytes that fill the gap before the operands of a switch may be any. -/
inductive Statement where
  | bare (opcode : UInt8) (hopcode : inRanges bareOpcodes opcode = true)
  | onByte (opcode : UInt8) (hopcode : inRanges byteOpcodes opcode = true) (operand : UInt8)
  | onWord (opcode : UInt8) (hopcode : inRanges wordOpcodes opcode = true) (operand : UInt16)
  | onLong (opcode : UInt8) (hopcode : inRanges longOpcodes opcode = true) (operand : UInt32)
  | increment (slot amount : UInt8)
  | load (index : UInt8)
  | loadWide (index : UInt16)
  | store (slot : UInt8)
  | storeFirst (slot : Fin 4)
  | field (use : FieldUse) (index : UInt16)
  | invokeVirtual (index : UInt16)
  | invokeSpecial (index : UInt16)
  | invokeStatic (index : UInt16)
  | invokeInterface (index : UInt16) (arguments : UInt8)
  | invokeDynamic (index : UInt16)
  | onType (opcode : UInt8) (hopcode : inRanges typeOpcodes opcode = true) (index : UInt16)
  | multiArray (index : UInt16) (dimensions : UInt8)
  | tableSwitch (filler : Fin 3 → UInt8) (otherwise : UInt32) (table : JumpTable)
  | lookupSwitch (filler : Fin 3 → UInt8) (otherwise : UInt32) (table : JumpPairs)
  | wide (opcode : UInt8) (hopcode : inRanges slotOpcodes opcode = true) (slot : UInt16)
  | wideStore (slot : UInt16)
  | wideIncrement (slot amount : UInt16)

namespace Statement

/-- The opcode of a use of a field. -/
def fieldOpcode : FieldUse → UInt8
  | .getStatic => 0xb2
  | .putStatic => 0xb3
  | .get => 0xb4
  | .put => 0xb5

/-- The opcode that a statement starts with. -/
def opcode : Statement → UInt8
  | bare opcode _ => opcode
  | onByte opcode _ _ => opcode
  | onWord opcode _ _ => opcode
  | onLong opcode _ _ => opcode
  | increment _ _ => 0x84
  | load _ => 0x12
  | loadWide _ => 0x13
  | store _ => 0x3a
  | storeFirst slot => 0x4b + .ofNat slot
  | field use _ => fieldOpcode use
  | invokeVirtual _ => 0xb6
  | invokeSpecial _ => 0xb7
  | invokeStatic _ => 0xb8
  | invokeInterface _ _ => 0xb9
  | invokeDynamic _ => 0xba
  | onType opcode _ _ => opcode
  | multiArray _ _ => 0xc5
  | tableSwitch _ _ _ => 0xaa
  | lookupSwitch _ _ _ => 0xab
  | wide _ _ _ => 0xc4
  | wideStore _ => 0xc4
  | wideIncrement _ _ => 0xc4

/-- The bytes after the opcode of a statement that stands at an offset. -/
def operands (offset : Nat) : Statement → List UInt8
  | bare _ _ => []
  | onByte _ _ operand => [operand]
  | onWord _ _ operand => bytesOf 2 operand.toNat
  | onLong _ _ operand => bytesOf 4 operand.toNat
  | increment slot amount => [slot, amount]
  | load index => [index]
  | loadWide index => bytesOf 2 index.toNat
  | store slot => [slot]
  | storeFirst _ => []
  | field _ index => bytesOf 2 index.toNat
  | invokeVirtual index => bytesOf 2 index.toNat
  | invokeSpecial index => bytesOf 2 index.toNat
  | invokeStatic index => bytesOf 2 index.toNat
  | invokeInterface index arguments => bytesOf 2 index.toNat ++ [arguments, 0]
  | invokeDynamic index => bytesOf 2 index.toNat ++ [0, 0]
  | onType _ _ index => bytesOf 2 index.toNat
  | multiArray index dimensions => bytesOf 2 index.toNat ++ [dimensions]
  | tableSwitch filler otherwise table =>
      (List.ofFn filler).take (padding offset) ++ bytesOf 4 otherwise.toNat
        ++ signedBytes table.low ++ signedBytes table.high
        ++ table.targets.flatMap (fun target => bytesOf 4 target.toNat)
  | lookupSwitch filler otherwise table =>
      (List.ofFn filler).take (padding offset) ++ bytesOf 4 otherwise.toNat
        ++ bytesOf 4 table.pairs.length
        ++ table.pairs.flatMap (fun pair => bytesOf 4 pair.1.toNat ++ bytesOf 4 pair.2.toNat)
  | wide opcode _ slot => opcode :: bytesOf 2 slot.toNat
  | wideStore slot => 0x3a :: bytesOf 2 slot.toNat
  | wideIncrement slot amount => 0x84 :: bytesOf 2 slot.toNat ++ bytesOf 2 amount.toNat

/-- The bytes of a statement that stands at an offset. -/
def encode (offset : Nat) (statement : Statement) : List UInt8 :=
  statement.opcode :: statement.operands offset

end Statement

/-- The bytes of statements that follow each other from an offset on. -/
def assemble : (offset : Nat) → List Statement → List UInt8
  | _, [] => []
  | offset, statement :: rest =>
      statement.encode offset ++ assemble (offset + (statement.encode offset).length) rest

/-! What the constant pool holds at an index. -/

/-- A text stands at an index. -/
def IsText (pool : Pool) (index : Nat) (value : String) : Prop :=
  pool[index]? = some (.text value)

/-- A class of some name stands at an index. -/
def IsClass (pool : Pool) (index : Nat) (name : String) : Prop :=
  ∃ text, pool[index]? = some (.classRef text) ∧ IsText pool text name

/-- A string stands at an index. -/
def IsString (pool : Pool) (index : Nat) (value : String) : Prop :=
  ∃ text, pool[index]? = some (.stringRef text) ∧ IsText pool text value

/-- A name and a descriptor stand at an index. -/
def IsNameAndType (pool : Pool) (index : Nat) (name descriptor : String) : Prop :=
  ∃ nameText descriptorText, pool[index]? = some (.nameAndType nameText descriptorText) ∧
    IsText pool nameText name ∧ IsText pool descriptorText descriptor

/-- A field or method stands at an index. -/
def IsMember (pool : Pool) (index : Nat) (member : MemberRef) : Prop :=
  ∃ owner pair constant, pool[index]? = some constant ∧
    constant ∈ [.fieldRef owner pair, .methodRef owner pair, .interfaceMethodRef owner pair] ∧
    IsClass pool owner member.owner ∧ IsNameAndType pool pair member.name member.descriptor

/-- A dynamic call stands at an index. -/
def IsDynamicCall (pool : Pool) (index : Nat) (name descriptor : String) : Prop :=
  ∃ bootstrap pair, pool[index]? = some (.invokeDynamic bootstrap pair) ∧
    IsNameAndType pool pair name descriptor

/-- Loading the constant at an index is an operation: strings and classes are told apart from
all other constants. -/
inductive Loads (pool : Pool) (index : Nat) : Operation → Prop where
  | string {value : String} (h : IsString pool index value) : Loads pool index (.loadString value)
  | type {name : String} (h : IsClass pool index name) : Loads pool index (.loadClass name)
  | other {constant : Constant} (h : pool[index]? = some constant)
      (hstring : ∀ text, constant ≠ .stringRef text)
      (htype : ∀ text, constant ≠ .classRef text) : Loads pool index .other

/-- The call of a member in some way. -/
def Calls (pool : Pool) (index : Nat) (kind : CallKind) (operation : Operation) : Prop :=
  ∃ member, IsMember pool index member ∧
    operation = .invoke ⟨member.owner, member.name, member.descriptor, kind⟩

/-- What a statement does, if its operands name constants of the right kinds. -/
def Statement.Means (pool : Pool) : Statement → Operation → Prop
  | load index, operation => Loads pool index.toNat operation
  | loadWide index, operation => Loads pool index.toNat operation
  | store slot, operation => operation = .store slot.toNat
  | storeFirst slot, operation => operation = .store slot
  | wideStore slot, operation => operation = .store slot.toNat
  | field use index, operation => ∃ member, IsMember pool index.toNat member ∧
      operation = .access ⟨member.owner, member.name, member.descriptor, use⟩
  | invokeVirtual index, operation => Calls pool index.toNat .virtual operation
  | invokeSpecial index, operation => Calls pool index.toNat .special operation
  | invokeStatic index, operation => Calls pool index.toNat .static operation
  | invokeInterface index _, operation => Calls pool index.toNat .interface operation
  | invokeDynamic index, operation => ∃ name descriptor,
      IsDynamicCall pool index.toNat name descriptor ∧
        operation = .invoke ⟨"", name, descriptor, .dynamic⟩
  | onType _ _ index, operation => ∃ name, IsClass pool index.toNat name ∧
      operation = .onType name
  | multiArray index _, operation => ∃ name, IsClass pool index.toNat name ∧
      operation = .multiArray name
  | _, operation => operation = .other

/-- The instructions of statements that follow each other from an offset on, one for each. -/
inductive Lists (pool : Pool) : Nat → List Statement → List Instruction → Prop where
  | nil (offset : Nat) : Lists pool offset [] []
  | cons {offset : Nat} {statement : Statement} {rest : List Statement} {operation : Operation}
      {instructions : List Instruction} (hmeans : statement.Means pool operation)
      (hrest : Lists pool (offset + (statement.encode offset).length) rest instructions) :
      Lists pool offset (statement :: rest)
        (⟨offset, statement.opcode, operation⟩ :: instructions)

/-! The bytes that an instruction takes up, whatever its operands name. -/

/-- The numbers of operand bytes, by ranges of opcodes. -/
def layouts : List (List (Nat × Nat) × Nat) :=
  [(bareOpcodes, 0), (byteOpcodes, 1), (wordOpcodes, 2), (typeOpcodes, 2), (longOpcodes, 4),
    ([(0x4b, 0x4e)], 0), -- stores of references into the first slots
    ([(0x12, 0x12), (0x3a, 0x3a)], 1), -- loads of constants, stores of references
    ([(0x13, 0x13), (0x84, 0x84), (0xb2, 0xb8)], 2), -- the same widely, increments, members
    ([(0xc5, 0xc5)], 3), -- arrays of several dimensions
    ([(0xb9, 0xba)], 4)] -- interface and dynamic calls

/-- The number of operand bytes of an opcode that always has as many. -/
def operandCount? (opcode : UInt8) : Option Nat :=
  (layouts.find? (fun layout => inRanges layout.1 opcode)).map Prod.snd

/-- A signed word of 32 bits. -/
def IsWord (bytes : List UInt8) (value : Int) : Prop :=
  bytes.length = 4 ∧ signed 32 (bigEndian bytes) = value

/-- Bytes are those of one instruction at an offset. -/
inductive Extent (offset : Nat) : List UInt8 → Prop where
  | fixed {opcode : UInt8} {operands : List UInt8}
      (hcount : operandCount? opcode = some operands.length) : Extent offset (opcode :: operands)
  | tableSwitch {filler otherwise low high targets : List UInt8} {first last : Int} {count : Nat}
      (hfiller : filler.length = padding offset) (hotherwise : otherwise.length = 4)
      (hlow : IsWord low first) (hhigh : IsWord high last) (hcount : last - first + 1 = count)
      (hfits : count < 0x80000000) (htargets : targets.length = 4 * count) :
      Extent offset (0xaa :: (filler ++ otherwise ++ low ++ high ++ targets))
  | lookupSwitch {filler otherwise size pairs : List UInt8} {count : Nat}
      (hfiller : filler.length = padding offset) (hotherwise : otherwise.length = 4)
      (hsize : IsWord size count) (hpairs : pairs.length = 8 * count) :
      Extent offset (0xab :: (filler ++ otherwise ++ size ++ pairs))
  | wide {opcode : UInt8} {operands : List UInt8} (hopcode : opcode ≠ 0x84)
      (hcount : operands.length = 2) : Extent offset (0xc4 :: opcode :: operands)
  | wideIncrement {operands : List UInt8} (hcount : operands.length = 4) :
      Extent offset (0xc4 :: 0x84 :: operands)

/-- Instructions tile bytes from an offset on: each stands where the one before it ends, and the
last ends with the bytes. -/
inductive Tiles : Nat → List UInt8 → List Instruction → Prop where
  | nil (offset : Nat) : Tiles offset [] []
  | cons {offset : Nat} {opcode : UInt8} {operands rest : List UInt8} {operation : Operation}
      {instructions : List Instruction} (hextent : Extent offset (opcode :: operands))
      (hrest : Tiles (offset + (opcode :: operands).length) rest instructions) :
      Tiles offset (opcode :: operands ++ rest) (⟨offset, opcode, operation⟩ :: instructions)

@[simp] theorem length_bytesOf (count value : Nat) : (bytesOf count value).length = count := by
  induction count with
  | zero => rfl
  | succ count ih => rw [bytesOf, List.length_cons, ih]

theorem foldl_bytesOf (count value start : Nat) :
    (bytesOf count value).foldl (fun value byte => value * 256 + byte.toNat) start =
      start * 256 ^ count + value % 256 ^ count := by
  induction count generalizing start with
  | zero => simp [bytesOf, Nat.mod_one]
  | succ count ih =>
      have hbyte : (UInt8.ofNat (value / 256 ^ count)).toNat = value / 256 ^ count % 256 := by
        simp
      rw [bytesOf, List.foldl_cons, ih, hbyte, Nat.pow_succ, Nat.mod_mul, Nat.add_mul,
        Nat.mul_assoc, Nat.mul_comm 256, Nat.mul_comm (value / 256 ^ count % 256)]
      omega

/-- Reading the bytes of a number gives the number back. -/
theorem bigEndian_bytesOf (count value : Nat) :
    bigEndian (bytesOf count value) = value % 256 ^ count := by
  rw [bigEndian, foldl_bytesOf]
  simp

theorem bigEndian_bytesOf_of_lt {count value : Nat} (h : value < 256 ^ count) :
    bigEndian (bytesOf count value) = value := by
  rw [bigEndian_bytesOf, Nat.mod_eq_of_lt h]

@[simp] theorem length_signedBytes (value : Int) : (signedBytes value).length = 4 :=
  length_bytesOf 4 _

/-- A word of 32 bits is the number of its range that agrees with its bytes modulo the range. -/
theorem signed_eq_of_mod {bits : Nat} {value : Int} (hlow : -0x80000000 ≤ value)
    (hhigh : value < 0x80000000) (hbits : (bits : Int) % 0x100000000 = value % 0x100000000) :
    signed 32 bits = value := by
  have hrange : (1 <<< 32 : Nat) = 0x100000000 := rfl
  rw [signed, hrange, Int.bmod_def]
  simp only [Int.ofNat_eq_natCast, Int.cast_ofNat_Int]
  split <;> omega

theorem isWord_signedBytes {value : Int} (hlow : -0x80000000 ≤ value) (hhigh : value < 0x80000000) :
    IsWord (signedBytes value) value := by
  refine ⟨length_signedBytes value, signed_eq_of_mod hlow hhigh ?_⟩
  rw [signedBytes, bigEndian_bytesOf]
  omega

theorem isWord_bytesOf {value : Nat} (h : value < 0x80000000) :
    IsWord (bytesOf 4 value) value := by
  refine ⟨length_bytesOf 4 value, signed_eq_of_mod (by omega) (by omega) ?_⟩
  rw [bigEndian_bytesOf]
  omega

theorem forall_opcode {P : UInt8 → Prop} (h : ∀ code : Fin 256, P (.ofNat code))
    (opcode : UInt8) : P opcode := by
  have hopcode := h ⟨opcode.toNat, opcode.toNat_lt⟩
  simpa using hopcode

/-- No opcode has two layouts. -/
theorem operandCount?_of_mem_layouts {opcode : UInt8} {layout : List (Nat × Nat) × Nat}
    (hlayout : layout ∈ layouts) (hopcode : inRanges layout.1 opcode = true) :
    operandCount? opcode = some layout.2 := by
  have hdisjoint : ∀ opcode : UInt8, ∀ layout ∈ layouts, inRanges layout.1 opcode = true →
      operandCount? opcode = some layout.2 := forall_opcode (by decide +kernel)
  exact hdisjoint opcode layout hlayout hopcode

theorem Extent.of_layout {offset : Nat} {opcode : UInt8} {operands : List UInt8}
    {ranges : List (Nat × Nat)} {count : Nat} (hlayout : (ranges, count) ∈ layouts)
    (hopcode : inRanges ranges opcode = true) (hlength : operands.length = count) :
    Extent offset (opcode :: operands) := by
  refine .fixed ?_
  rw [hlength]
  exact operandCount?_of_mem_layouts hlayout hopcode

theorem length_take_filler (filler : Fin 3 → UInt8) (offset : Nat) :
    ((List.ofFn filler).take (padding offset)).length = padding offset := by
  rw [List.length_take, List.length_ofFn, padding]
  omega

theorem length_flatMap_of_const {α : Type} {f : α → List UInt8} {count : Nat}
    (h : ∀ item, (f item).length = count) (items : List α) :
    (items.flatMap f).length = count * items.length := by
  induction items with
  | nil => rfl
  | cons item rest ih =>
      rw [List.flatMap_cons, List.length_append, h, ih, List.length_cons, Nat.mul_add, Nat.mul_one,
        Nat.add_comm]

/-- The bytes of a statement are those of one instruction. -/
theorem Statement.extent_encode (offset : Nat) (statement : Statement) :
    Extent offset (statement.encode offset) := by
  have hbare : (bareOpcodes, 0) ∈ layouts := by decide +kernel
  have hbyte : (byteOpcodes, 1) ∈ layouts := by decide +kernel
  have hword : (wordOpcodes, 2) ∈ layouts := by decide +kernel
  have htype : (typeOpcodes, 2) ∈ layouts := by decide +kernel
  have hlong : (longOpcodes, 4) ∈ layouts := by decide +kernel
  cases statement with
  | bare opcode hopcode => exact .of_layout hbare hopcode rfl
  | onByte opcode hopcode operand => exact .of_layout hbyte hopcode rfl
  | onWord opcode hopcode operand => exact .of_layout hword hopcode rfl
  | onLong opcode hopcode operand => exact .of_layout hlong hopcode rfl
  | onType opcode hopcode index => exact .of_layout htype hopcode rfl
  | increment slot amount => exact .fixed rfl
  | load index => exact .fixed rfl
  | loadWide index => exact .fixed rfl
  | store slot => exact .fixed rfl
  | storeFirst slot =>
      have hfirst : ∀ slot : Fin 4, operandCount? (0x4b + .ofNat slot) = some 0 := by
        decide +kernel
      exact .fixed (hfirst slot)
  | field use index => cases use <;> exact .fixed rfl
  | invokeVirtual index => exact .fixed rfl
  | invokeSpecial index => exact .fixed rfl
  | invokeStatic index => exact .fixed rfl
  | invokeInterface index arguments => exact .fixed rfl
  | invokeDynamic index => exact .fixed rfl
  | multiArray index dimensions => exact .fixed rfl
  | tableSwitch filler otherwise table =>
      have hlow := table.low_fits
      have horder := table.low_le_high
      have hhigh := table.high_fits
      exact .tableSwitch (length_take_filler filler offset) (length_bytesOf 4 _)
        (isWord_signedBytes hlow (by omega)) (isWord_signedBytes (by omega) hhigh)
        table.length_eq.symm table.length_fits
        (length_flatMap_of_const (fun _ => length_bytesOf 4 _) _)
  | lookupSwitch filler otherwise table =>
      have hpair : ∀ pair : UInt32 × UInt32,
          (bytesOf 4 pair.1.toNat ++ bytesOf 4 pair.2.toNat).length = 8 := fun _ => rfl
      exact .lookupSwitch (length_take_filler filler offset) (length_bytesOf 4 _)
        (isWord_bytesOf table.length_fits) (length_flatMap_of_const hpair _)
  | wide opcode hopcode slot =>
      have hslot : ∀ opcode : UInt8, inRanges slotOpcodes opcode = true → opcode ≠ 0x84 :=
        forall_opcode (by decide +kernel)
      exact .wide (hslot opcode hopcode) (length_bytesOf 2 _)
  | wideStore slot => exact .wide (by decide) (length_bytesOf 2 _)
  | wideIncrement slot amount => exact .wideIncrement rfl

/-- Whether the format has an instruction of some opcode. -/
def isOpcode (opcode : UInt8) : Bool := opcode.toNat ≤ 0xca || 0xfe ≤ opcode.toNat

/-- A statement of every opcode that no range lists. -/
def Statement.others : List Statement :=
  [.increment 0 0, .load 0, .loadWide 0, .store 0, .storeFirst 0, .storeFirst 1, .storeFirst 2,
    .storeFirst 3, .field .getStatic 0, .field .putStatic 0, .field .get 0, .field .put 0,
    .invokeVirtual 0, .invokeSpecial 0, .invokeStatic 0, .invokeInterface 0 0, .invokeDynamic 0,
    .multiArray 0 0, .tableSwitch (fun _ => 0) 0 ⟨0, 0, [0], by omega, by omega, by omega, rfl,
      by decide⟩, .lookupSwitch (fun _ => 0) 0 ⟨[], by decide⟩, .wideStore 0]

/-- Every instruction of the format is a statement, and no other. -/
theorem Statement.exists_opcode_iff (opcode : UInt8) :
    (∃ statement : Statement, statement.opcode = opcode) ↔ isOpcode opcode = true := by
  have hranges : ∀ opcode : UInt8, ∀ ranges ∈ [bareOpcodes, byteOpcodes, wordOpcodes, typeOpcodes,
      longOpcodes], inRanges ranges opcode = true → isOpcode opcode = true :=
    forall_opcode (by decide +kernel)
  constructor
  · rintro ⟨statement, rfl⟩
    cases statement with
    | bare opcode hopcode => exact hranges opcode _ (by simp) hopcode
    | onByte opcode hopcode operand => exact hranges opcode _ (by simp) hopcode
    | onWord opcode hopcode operand => exact hranges opcode _ (by simp) hopcode
    | onLong opcode hopcode operand => exact hranges opcode _ (by simp) hopcode
    | onType opcode hopcode index => exact hranges opcode _ (by simp) hopcode
    | storeFirst slot =>
        have hfirst : ∀ slot : Fin 4, isOpcode (0x4b + .ofNat slot) = true := by decide +kernel
        exact hfirst slot
    | field use index => cases use <;> rfl
    | _ => rfl
  · intro hopcode
    have hcovered : ∀ opcode : UInt8, isOpcode opcode = true →
        inRanges bareOpcodes opcode = true ∨ inRanges byteOpcodes opcode = true ∨
          inRanges wordOpcodes opcode = true ∨ inRanges typeOpcodes opcode = true ∨
          inRanges longOpcodes opcode = true ∨ opcode ∈ others.map Statement.opcode :=
      forall_opcode (by decide +kernel)
    rcases hcovered opcode hopcode with h | h | h | h | h | h
    · exact ⟨.bare opcode h, rfl⟩
    · exact ⟨.onByte opcode h 0, rfl⟩
    · exact ⟨.onWord opcode h 0, rfl⟩
    · exact ⟨.onType opcode h 0, rfl⟩
    · exact ⟨.onLong opcode h 0, rfl⟩
    · obtain ⟨statement, -, hsame⟩ := List.mem_map.mp h
      exact ⟨statement, hsame⟩

end Linkage.ClassFile.Bytecode
