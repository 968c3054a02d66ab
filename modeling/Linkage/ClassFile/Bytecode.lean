import Linkage.ClassFile.Lookup
import Linkage.Instruction
/-
Decoding of method bodies.  Instructions follow each other without gaps; the
length of an instruction depends on its opcode and, for switches, on the offset
at which it stands.
-/

namespace Linkage.ClassFile.Bytecode

/-- The bytes between a switch opcode and its operands, which start at a multiple
of four. -/
def switchPadding (offset : Nat) : Nat := (4 - (offset + 1) % 4) % 4

/-- Two bytes at a distance from the start of an instruction. -/
def word (code : List UInt8) (distance : Nat) : Loaded Nat :=
  match code.drop distance with
  | high :: low :: _ => .ok (bigEndian [high, low])
  | _ => fault .shortOperand

/-- Four bytes at a distance from the start of an instruction, signed. -/
def switchWord (code : List UInt8) (distance : Nat) : Loaded Int :=
  match code.drop distance with
  | a :: b :: c :: d :: _ => .ok (signed 32 (bigEndian [a, b, c, d]))
  | _ => fault .shortSwitch

/-- Whether a number fits into a signed word of 32 bits. -/
def fitsWord (value : Int) : Bool := -0x80000000 ≤ value && value < 0x80000000

def tableSwitchLength (offset : Nat) (code : List UInt8) : Loaded Nat := do
  let start := 1 + switchPadding offset
  let low ← switchWord code (start + 4)
  let high ← switchWord code (start + 8)
  if fitsWord (high - low) && fitsWord (high - low + 1) && 0 ≤ high - low + 1 then
    return start + 12 + (high - low + 1).toNat * 4
  else fault .tableRange

def lookupSwitchLength (offset : Nat) (code : List UInt8) : Loaded Nat := do
  let start := 1 + switchPadding offset
  let pairs ← switchWord code (start + 4)
  if pairs < 0 then fault .lookupPairs
  else return start + 8 + pairs.toNat * 8

def wideLength : List UInt8 → Loaded Nat
  | _ :: widened :: _ => .ok (if widened = Opcode.iinc then 6 else 4)
  | _ => fault .missingWideOpcode

/-- The length of an instruction whose length its opcode alone decides. -/
def fixedLength? (opcode : UInt8) : Option Nat :=
  let code := opcode.toNat
  if code ≤ 0x0f then some 1
  else if code = 0x10 then some 2
  else if code = 0x11 then some 3
  else if code = 0x12 then some 2
  else if code ≤ 0x14 then some 3
  else if code ≤ 0x19 then some 2
  else if code ≤ 0x35 then some 1
  else if code ≤ 0x3a then some 2
  else if code ≤ 0x83 then some 1
  else if code = 0x84 then some 3
  else if code ≤ 0x98 then some 1
  else if code ≤ 0xa8 then some 3
  else if code = 0xa9 then some 2
  else if code ≤ 0xab then none
  else if code ≤ 0xb1 then some 1
  else if code ≤ 0xb8 then some 3
  else if code ≤ 0xba then some 5
  else if code = 0xbb then some 3
  else if code = 0xbc then some 2
  else if code = 0xbd then some 3
  else if code ≤ 0xbf then some 1
  else if code ≤ 0xc1 then some 3
  else if code ≤ 0xc3 then some 1
  else if code = 0xc4 then none
  else if code = 0xc5 then some 4
  else if code ≤ 0xc7 then some 3
  else if code ≤ 0xc9 then some 5
  else if code = 0xca then some 1
  else if code < 0xfe then none
  else some 1

def instructionLength (offset : Nat) (opcode : UInt8) (code : List UInt8) : Loaded Nat :=
  match fixedLength? opcode with
  | some length => .ok length
  | none =>
      if opcode = Opcode.tableSwitch then tableSwitchLength offset code
      else if opcode = Opcode.lookupSwitch then lookupSwitchLength offset code
      else if opcode = Opcode.wide then wideLength code
      else fault (.unsupportedOpcode opcode)

/-- The kind of an instruction that calls a method through the pool. -/
def callKind? (opcode : UInt8) : Option CallKind :=
  if opcode = Opcode.invokeVirtual then some .virtual
  else if opcode = Opcode.invokeSpecial then some .special
  else if opcode = Opcode.invokeStatic then some .static
  else if opcode = Opcode.invokeInterface then some .interface
  else none

/-- The use that an instruction makes of a field. -/
def fieldUse? (opcode : UInt8) : Option FieldUse :=
  if opcode = Opcode.getField then some .get
  else if opcode = Opcode.putField then some .put
  else if opcode = Opcode.getStatic then some .getStatic
  else if opcode = Opcode.putStatic then some .putStatic
  else none

/-- The constant that an instruction loads; numbers are of no interest. -/
def loadConstant (pool : Pool) (index : Nat) : Loaded Operation :=
  match pool[index]? with
  | none => fault .missingConstant
  | some (.stringRef value) => (pool.textAt value).map .loadString
  | some (.classRef name) => (pool.textAt name).map .loadClass
  | some _ => .ok .other

def secondByte (code : List UInt8) : Nat :=
  ((code.drop 1).headD 0).toNat

/-- What the instruction at the start of the code does. -/
def operation (pool : Pool) (opcode : UInt8) (code : List UInt8) : Loaded Operation :=
  match callKind? opcode, fieldUse? opcode with
  | some kind, _ => do
      let index ← word code 1
      let member ← within .methodRef (pool.memberAt index)
      return .invoke ⟨member.owner, member.name, member.descriptor, kind⟩
  | none, some use => do
      let index ← word code 1
      let member ← within .fieldRef (pool.memberAt index)
      return .access ⟨member.owner, member.name, member.descriptor, use⟩
  | none, none =>
      if opcode = Opcode.invokeDynamic then do
        let index ← word code 1
        let (name, descriptor) ← within .dynamicCall (pool.dynamicAt index)
        return .invoke ⟨"", name, descriptor, .dynamic⟩
      else if opcode ∈ [Opcode.new, Opcode.arrayOfType, Opcode.checkcast,
          Opcode.instanceOf] then do
        let index ← word code 1
        return .onType (← pool.classAt index)
      else if opcode = Opcode.multiArray then do
        let index ← word code 1
        return .multiArray (← pool.classAt index)
      else if opcode = Opcode.ldc then loadConstant pool (secondByte code)
      else if opcode = Opcode.ldcWide then do
        let index ← word code 1
        loadConstant pool index
      else if opcode = Opcode.astore then .ok (.store (secondByte code))
      else if Opcode.astore0 ≤ opcode ∧ opcode ≤ Opcode.astore3 then
        .ok (.store (opcode - Opcode.astore0).toNat)
      else if opcode = Opcode.wide ∧ secondByte code = Opcode.astore.toNat then do
        let slot ← word code 2
        return .store slot
      else .ok .other

/-- Whether there are enough bytes, of which no more are looked at than are needed. -/
def hasBytes : (count : Nat) → List UInt8 → Bool
  | 0, _ => true
  | _ + 1, [] => false
  | count + 1, _ :: rest => hasBytes count rest

theorem hasBytes_iff {count : Nat} {bytes : List UInt8} :
    hasBytes count bytes = true ↔ count ≤ bytes.length := by
  fun_induction hasBytes count bytes with
  | case1 => simp
  | case2 => simp
  | case3 count _ rest ih => simp [ih]

/-- The instructions of a body, where some have been decoded, the latest of which stands
first, and the code at an offset is left. -/
def decodeFrom (pool : Pool) (decoded : List Instruction) (offset : Nat)
    (code : List UInt8) : Loaded (List Instruction) :=
  match code with
  | [] => .ok decoded.reverse
  | opcode :: rest => do
      let length ← instructionLength offset opcode (opcode :: rest)
      if _hlength : 0 < length ∧ hasBytes length (opcode :: rest) then
        let operation ← within (.instruction opcode offset)
          (operation pool opcode (opcode :: rest))
        decodeFrom pool ({ offset, opcode, operation } :: decoded) (offset + length)
          ((opcode :: rest).drop length)
      else fault (.instructionLength offset)
termination_by code.length
decreasing_by
  have hle := hasBytes_iff.mp _hlength.2
  simp only [List.length_drop]
  omega

/-- The instructions of a method body. -/
def decode (pool : Pool) (code : List UInt8) : Loaded (List Instruction) :=
  decodeFrom pool [] 0 code

end Linkage.ClassFile.Bytecode
