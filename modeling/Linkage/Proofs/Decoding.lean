import Linkage.Proofs.Assembly
import Linkage.Proofs.Outcome
/-
Decoding of method bodies.  The length of an instruction is the number of bytes that
it takes up, so that decoding reads back, one by one, the statements that are
assembled; and the instructions that it finds in any bytes that it accepts tile the
bytes.
-/

namespace Linkage.ClassFile.Bytecode

/-! Words at a distance. -/

theorem word_eq {code rest : List UInt8} {distance : Nat} {value : UInt16}
    (h : code.drop distance = bytesOf 2 value.toNat ++ rest) :
    word code distance = .ok value.toNat := by
  have hvalue : bigEndian (bytesOf 2 value.toNat) = value.toNat :=
    bigEndian_bytesOf_of_lt value.toNat_lt
  rw [word, h]
  exact congrArg Except.ok hvalue

theorem exists_of_length_four {bytes : List UInt8} (h : bytes.length = 4) :
    ∃ a b c d, bytes = [a, b, c, d] := by
  match bytes, h with
  | [a, b, c, d], _ => exact ⟨a, b, c, d, rfl⟩

theorem switchWord_eq {code bytes rest : List UInt8} {distance : Nat} {value : Int}
    (h : code.drop distance = bytes ++ rest) (hword : IsWord bytes value) :
    switchWord code distance = .ok value := by
  obtain ⟨hlength, hvalue⟩ := hword
  obtain ⟨a, b, c, d, rfl⟩ := exists_of_length_four hlength
  rw [switchWord, h]
  exact congrArg Except.ok hvalue

/-- A word that is read stands there. -/
theorem isWord_of_switchWord {code : List UInt8} {distance : Nat} {value : Int}
    (h : switchWord code distance = .ok value) : IsWord ((code.drop distance).take 4) value := by
  rw [switchWord] at h
  split at h
  · rename_i a b c d rest hdrop
    rw [hdrop]
    exact ⟨rfl, Except.ok.inj h⟩
  · cases h

/-! Lengths of instructions. -/

theorem switchPadding_eq (offset : Nat) : switchPadding offset = padding offset := by
  rw [switchPadding, padding]
  omega

/-- The length of an instruction with a fixed layout is one more than its operands have. -/
theorem fixedLength?_eq (opcode : UInt8) :
    fixedLength? opcode = (operandCount? opcode).map (· + 1) := by
  have hlengths : ∀ opcode : UInt8, fixedLength? opcode = (operandCount? opcode).map (· + 1) :=
    forall_opcode (by decide +kernel)
  exact hlengths opcode

theorem tableSwitchLength_eq {offset : Nat} {filler otherwise low high targets : List UInt8}
    {first last : Int} {count : Nat} (hfiller : filler.length = padding offset)
    (hotherwise : otherwise.length = 4) (hlow : IsWord low first) (hhigh : IsWord high last)
    (hcount : last - first + 1 = count) (hfits : count < 0x80000000) (rest : List UInt8) :
    tableSwitchLength offset
        (0xaa :: (filler ++ otherwise ++ low ++ high ++ targets) ++ rest) =
      .ok (1 + padding offset + 12 + count * 4) := by
  have hlowAt : (0xaa :: (filler ++ otherwise ++ low ++ high ++ targets) ++ rest).drop
      (1 + padding offset + 4) = low ++ (high ++ targets ++ rest) := by
    have hsplit : (0xaa : UInt8) :: (filler ++ otherwise ++ low ++ high ++ targets) ++ rest =
        (0xaa :: filler ++ otherwise) ++ (low ++ (high ++ targets ++ rest)) := by simp
    rw [hsplit]
    exact List.drop_left' (by simp; omega)
  have hhighAt : (0xaa :: (filler ++ otherwise ++ low ++ high ++ targets) ++ rest).drop
      (1 + padding offset + 8) = high ++ (targets ++ rest) := by
    have hsplit : (0xaa : UInt8) :: (filler ++ otherwise ++ low ++ high ++ targets) ++ rest =
        (0xaa :: filler ++ otherwise ++ low) ++ (high ++ (targets ++ rest)) := by simp
    have hlength := hlow.1
    rw [hsplit]
    exact List.drop_left' (by simp; omega)
  have hrange : (fitsWord (last - first) && fitsWord (last - first + 1) &&
      decide (0 ≤ last - first + 1)) = true := by
    simp only [fitsWord, Bool.and_eq_true, decide_eq_true_eq]
    omega
  have htotal : (last - first + 1).toNat = count := by omega
  rw [tableSwitchLength, switchPadding_eq, switchWord_eq hlowAt hlow, switchWord_eq hhighAt hhigh]
  simp only [bind, Except.bind, hrange, if_true, htotal]
  rfl

theorem lookupSwitchLength_eq {offset : Nat} {filler otherwise size pairs : List UInt8}
    {count : Nat} (hfiller : filler.length = padding offset) (hotherwise : otherwise.length = 4)
    (hsize : IsWord size count) (rest : List UInt8) :
    lookupSwitchLength offset (0xab :: (filler ++ otherwise ++ size ++ pairs) ++ rest) =
      .ok (1 + padding offset + 8 + count * 8) := by
  have hsizeAt : (0xab :: (filler ++ otherwise ++ size ++ pairs) ++ rest).drop
      (1 + padding offset + 4) = size ++ (pairs ++ rest) := by
    have hsplit : (0xab : UInt8) :: (filler ++ otherwise ++ size ++ pairs) ++ rest =
        (0xab :: filler ++ otherwise) ++ (size ++ (pairs ++ rest)) := by simp
    rw [hsplit]
    exact List.drop_left' (by simp; omega)
  have hcount : ¬ (count : Int) < 0 := by omega
  rw [lookupSwitchLength, switchPadding_eq, switchWord_eq hsizeAt hsize]
  simp only [bind, Except.bind, hcount, if_false, Int.toNat_natCast]
  rfl

/-- The length of an instruction is the number of the bytes that it takes up. -/
theorem instructionLength_of_extent {offset : Nat} {opcode : UInt8} {operands : List UInt8}
    (h : Extent offset (opcode :: operands)) (rest : List UInt8) :
    instructionLength offset opcode (opcode :: operands ++ rest) =
      .ok (opcode :: operands).length := by
  cases h with
  | fixed hcount =>
      rw [instructionLength, fixedLength?_eq, hcount]
      rfl
  | @tableSwitch filler otherwise low high targets first last count hfiller hotherwise hlow hhigh
      hcount hfits htargets =>
      have hread : instructionLength offset 0xaa
          (0xaa :: (filler ++ otherwise ++ low ++ high ++ targets) ++ rest) =
            tableSwitchLength offset
              (0xaa :: (filler ++ otherwise ++ low ++ high ++ targets) ++ rest) := rfl
      have hlowLength := hlow.1
      have hhighLength := hhigh.1
      rw [hread, tableSwitchLength_eq hfiller hotherwise hlow hhigh hcount hfits]
      simp only [List.length_cons, List.length_append, hfiller, hotherwise, hlowLength,
        hhighLength, htargets]
      congr 1
      omega
  | @lookupSwitch filler otherwise size pairs count hfiller hotherwise hsize hpairs =>
      have hread : instructionLength offset 0xab
          (0xab :: (filler ++ otherwise ++ size ++ pairs) ++ rest) =
            lookupSwitchLength offset
              (0xab :: (filler ++ otherwise ++ size ++ pairs) ++ rest) := rfl
      have hsizeLength := hsize.1
      rw [hread, lookupSwitchLength_eq hfiller hotherwise hsize]
      simp only [List.length_cons, List.length_append, hfiller, hotherwise, hsizeLength, hpairs]
      congr 1
      omega
  | @wide opcode operands hopcode hcount =>
      have hread : instructionLength offset 0xc4 (0xc4 :: (opcode :: operands) ++ rest) =
          .ok (if opcode = Opcode.iinc then 6 else 4) := rfl
      have hother : opcode ≠ Opcode.iinc := hopcode
      rw [hread, if_neg hother, List.length_cons, List.length_cons, hcount]
  | @wideIncrement operands hcount =>
      have hread : instructionLength offset 0xc4 (0xc4 :: (0x84 :: operands) ++ rest) = .ok 6 :=
        rfl
      rw [hread, List.length_cons, List.length_cons, hcount]

theorem extent_of_tableSwitchLength {offset length : Nat} {rest : List UInt8}
    (h : tableSwitchLength offset (0xaa :: rest) = .ok length) (hbytes : length ≤ rest.length + 1) :
    ∃ count, length = count + 1 ∧ Extent offset (0xaa :: rest.take count) := by
  rw [tableSwitchLength, switchPadding_eq] at h
  obtain ⟨first, hfirst, h⟩ := bind_eq_ok h
  obtain ⟨last, hlast, h⟩ := bind_eq_ok h
  split at h
  · rename_i hrange
    simp only [fitsWord, Bool.and_eq_true, decide_eq_true_eq] at hrange
    simp only [pure, Except.pure, Except.ok.injEq] at h
    obtain ⟨count, hcount⟩ : ∃ count : Nat, last - first + 1 = count :=
      ⟨(last - first + 1).toNat, by omega⟩
    have hlow := isWord_of_switchWord hfirst
    have hhigh := isWord_of_switchWord hlast
    have hat : ∀ distance, (0xaa :: rest).drop (1 + padding offset + distance) =
        rest.drop (padding offset + distance) := by
      intro distance
      rw [Nat.add_assoc, Nat.add_comm 1, List.drop_succ_cons]
    rw [hat] at hlow hhigh
    refine ⟨padding offset + 4 + 4 + 4 + 4 * count, by omega, ?_⟩
    rw [List.take_add, List.take_add, List.take_add, List.take_add]
    refine .tableSwitch ?_ ?_ hlow hhigh hcount (by omega) ?_
    · rw [List.length_take]
      omega
    · rw [List.length_take, List.length_drop]
      omega
    · rw [List.length_take, List.length_drop]
      omega
  · cases h

theorem extent_of_lookupSwitchLength {offset length : Nat} {rest : List UInt8}
    (h : lookupSwitchLength offset (0xab :: rest) = .ok length)
    (hbytes : length ≤ rest.length + 1) :
    ∃ count, length = count + 1 ∧ Extent offset (0xab :: rest.take count) := by
  rw [lookupSwitchLength, switchPadding_eq] at h
  obtain ⟨pairs, hpairs, h⟩ := bind_eq_ok h
  split at h
  · cases h
  · rename_i hnonneg
    simp only [pure, Except.pure, Except.ok.injEq] at h
    obtain ⟨count, hcount⟩ : ∃ count : Nat, pairs = count := ⟨pairs.toNat, by omega⟩
    have hsize := isWord_of_switchWord hpairs
    rw [hcount, Nat.add_assoc, Nat.add_comm 1, List.drop_succ_cons] at hsize
    refine ⟨padding offset + 4 + 4 + 8 * count, by omega, ?_⟩
    rw [List.take_add, List.take_add, List.take_add]
    refine .lookupSwitch ?_ ?_ hsize ?_
    · rw [List.length_take]
      omega
    · rw [List.length_take, List.length_drop]
      omega
    · rw [List.length_take, List.length_drop]
      omega

theorem extent_of_wideLength {offset length : Nat} {rest : List UInt8}
    (h : wideLength (0xc4 :: rest) = .ok length) (hbytes : length ≤ rest.length + 1) :
    ∃ count, length = count + 1 ∧ Extent offset (0xc4 :: rest.take count) := by
  cases rest with
  | nil => cases h
  | cons widened operands =>
      rw [List.length_cons] at hbytes
      by_cases hincrement : widened = 0x84
      · subst hincrement
        have hlength : 6 = length := Except.ok.inj h
        have htaken : (operands.take 4).length = 4 := by
          rw [List.length_take]
          omega
        exact ⟨5, by omega, .wideIncrement htaken⟩
      · have hother : widened ≠ Opcode.iinc := hincrement
        rw [wideLength, if_neg hother, Except.ok.injEq] at h
        have htaken : (operands.take 2).length = 2 := by
          rw [List.length_take]
          omega
        exact ⟨3, by omega, .wide hincrement htaken⟩

/-- An instruction whose length is known takes up as many bytes, if there are as many. -/
theorem extent_of_instructionLength {offset length : Nat} {opcode : UInt8} {rest : List UInt8}
    (h : instructionLength offset opcode (opcode :: rest) = .ok length)
    (hbytes : length ≤ rest.length + 1) :
    ∃ count, length = count + 1 ∧ Extent offset (opcode :: rest.take count) := by
  rw [instructionLength, fixedLength?_eq] at h
  cases hcount : operandCount? opcode with
  | some count =>
      rw [hcount] at h
      have hlength : count + 1 = length := Except.ok.inj h
      refine ⟨count, hlength.symm, .fixed ?_⟩
      rw [hcount, List.length_take]
      congr 1
      omega
  | none =>
      rw [hcount] at h
      simp only [Option.map_none] at h
      split at h
      · rename_i htable
        subst htable
        exact extent_of_tableSwitchLength h hbytes
      · split at h
        · rename_i hlookup
          subst hlookup
          exact extent_of_lookupSwitchLength h hbytes
        · split at h
          · rename_i hwide
            subst hwide
            exact extent_of_wideLength h hbytes
          · cases h

/-! What instructions do. -/

theorem within_ok {α : Type} (stage : LoadStage) (value : α) :
    within stage (.ok value) = .ok value := rfl

theorem textAt_eq {pool : Pool} {index : Nat} {value : String} (h : IsText pool index value) :
    pool.textAt index = .ok value := by
  rw [Pool.textAt, h]

theorem classAt_eq {pool : Pool} {index : Nat} {name : String} (h : IsClass pool index name) :
    pool.classAt index = .ok name := by
  obtain ⟨text, hconstant, htext⟩ := h
  rw [Pool.classAt, hconstant]
  exact textAt_eq htext

theorem nameAndTypeAt_eq {pool : Pool} {index : Nat} {name descriptor : String}
    (h : IsNameAndType pool index name descriptor) :
    pool.nameAndTypeAt index = .ok (name, descriptor) := by
  obtain ⟨nameText, descriptorText, hconstant, hname, hdescriptor⟩ := h
  rw [Pool.nameAndTypeAt, hconstant]
  simp only [textAt_eq hname, textAt_eq hdescriptor]
  rfl

theorem memberAt_eq {pool : Pool} {index : Nat} {member : MemberRef}
    (h : IsMember pool index member) : pool.memberAt index = .ok member := by
  obtain ⟨owner, pair, constant, hconstant, hkind, howner, hpair⟩ := h
  have hmember : pool.memberOf owner pair = .ok member := by
    rw [Pool.memberOf, classAt_eq howner, nameAndTypeAt_eq hpair]
    rfl
  rw [Pool.memberAt, hconstant]
  simp only [List.mem_cons, List.not_mem_nil, or_false] at hkind
  rcases hkind with rfl | rfl | rfl
  · exact hmember
  · exact hmember
  · exact hmember

theorem dynamicAt_eq {pool : Pool} {index : Nat} {name descriptor : String}
    (h : IsDynamicCall pool index name descriptor) :
    pool.dynamicAt index = .ok (name, descriptor) := by
  obtain ⟨bootstrap, pair, hconstant, hpair⟩ := h
  rw [Pool.dynamicAt, hconstant]
  exact nameAndTypeAt_eq hpair

theorem loadConstant_eq {pool : Pool} {index : Nat} {operation : Operation}
    (h : Loads pool index operation) : loadConstant pool index = .ok operation := by
  cases h with
  | string h =>
      obtain ⟨text, hconstant, htext⟩ := h
      rw [loadConstant, hconstant]
      simp only [textAt_eq htext]
      rfl
  | type h =>
      obtain ⟨text, hconstant, htext⟩ := h
      rw [loadConstant, hconstant]
      simp only [textAt_eq htext]
      rfl
  | @other constant h hstring htype =>
      rw [loadConstant, h]
      cases constant with
      | stringRef text => exact absurd rfl (hstring text)
      | classRef text => exact absurd rfl (htype text)
      | _ => rfl

/-- The opcodes of instructions that are told apart by what they do. -/
def tellingOpcodes : List (Nat × Nat) :=
  [(0x12, 0x13), (0x3a, 0x3a), (0x4b, 0x4e), (0xb2, 0xbb), (0xbd, 0xbd), (0xc0, 0xc1),
    (0xc4, 0xc5)]

theorem operation_other {opcode : UInt8} (h : inRanges tellingOpcodes opcode = false)
    (pool : Pool) (code : List UInt8) : operation pool opcode code = .ok .other := by
  have htells : ∀ opcode : UInt8, inRanges tellingOpcodes opcode = false →
      callKind? opcode = none ∧ fieldUse? opcode = none ∧ opcode ≠ Opcode.invokeDynamic ∧
        opcode ∉ [Opcode.new, Opcode.arrayOfType, Opcode.checkcast, Opcode.instanceOf] ∧
        opcode ≠ Opcode.multiArray ∧ opcode ≠ Opcode.ldc ∧ opcode ≠ Opcode.ldcWide ∧
        opcode ≠ Opcode.astore ∧ ¬ (Opcode.astore0 ≤ opcode ∧ opcode ≤ Opcode.astore3) ∧
        opcode ≠ Opcode.wide :=
    forall_opcode (by decide +kernel)
  obtain ⟨hcall, hfield, hdynamic, htype, harray, hload, hwideLoad, hstore, hfirst, hwide⟩ :=
    htells opcode h
  have hnotWide : ¬ (opcode = Opcode.wide ∧ secondByte code = Opcode.astore.toNat) :=
    fun hboth => hwide hboth.1
  rw [operation, hcall, hfield]
  simp only
  rw [if_neg hdynamic, if_neg htype, if_neg harray, if_neg hload, if_neg hwideLoad,
    if_neg hstore, if_neg hfirst, if_neg hnotWide]

section

variable {pool : Pool} {opcode : UInt8} {index : UInt16} {result : Operation}

theorem word_operand (opcode : UInt8) (index : UInt16) (rest : List UInt8) :
    word (opcode :: (bytesOf 2 index.toNat ++ rest)) 1 = .ok index.toNat :=
  word_eq rfl

theorem operation_call {kind : CallKind} (hkind : callKind? opcode = some kind)
    (h : Calls pool index.toNat kind result) (rest : List UInt8) :
    operation pool opcode (opcode :: (bytesOf 2 index.toNat ++ rest)) = .ok result := by
  obtain ⟨member, hmember, rfl⟩ := h
  simp only [operation, hkind, word_operand, bind, Except.bind, memberAt_eq hmember, within_ok,
    pure, Except.pure]

theorem operation_field {use : FieldUse} {member : MemberRef} (hcall : callKind? opcode = none)
    (huse : fieldUse? opcode = some use) (hmember : IsMember pool index.toNat member)
    (rest : List UInt8) :
    operation pool opcode (opcode :: (bytesOf 2 index.toNat ++ rest)) =
      .ok (.access ⟨member.owner, member.name, member.descriptor, use⟩) := by
  simp only [operation, hcall, huse, word_operand, bind, Except.bind, memberAt_eq hmember,
    within_ok, pure, Except.pure]

theorem operation_dynamic {name descriptor : String}
    (h : IsDynamicCall pool index.toNat name descriptor) (rest : List UInt8) :
    operation pool 0xba (0xba :: (bytesOf 2 index.toNat ++ rest)) =
      .ok (.invoke ⟨"", name, descriptor, .dynamic⟩) := by
  have hread : operation pool 0xba (0xba :: (bytesOf 2 index.toNat ++ rest)) = do
      let index ← word (0xba :: (bytesOf 2 index.toNat ++ rest)) 1
      let call ← within .dynamicCall (pool.dynamicAt index)
      return .invoke ⟨"", call.1, call.2, .dynamic⟩ := rfl
  rw [hread, word_operand]
  simp only [bind, Except.bind, dynamicAt_eq h, within_ok, pure, Except.pure]

theorem operation_multiArray {name : String} (hname : IsClass pool index.toNat name)
    (rest : List UInt8) :
    operation pool 0xc5 (0xc5 :: (bytesOf 2 index.toNat ++ rest)) = .ok (.multiArray name) := by
  have hread : operation pool 0xc5 (0xc5 :: (bytesOf 2 index.toNat ++ rest)) = do
      let index ← word (0xc5 :: (bytesOf 2 index.toNat ++ rest)) 1
      return .multiArray (← pool.classAt index) := rfl
  rw [hread, word_operand]
  simp only [bind, Except.bind, classAt_eq hname, pure, Except.pure]

theorem operation_onType {name : String} (hopcode : inRanges typeOpcodes opcode = true)
    (hname : IsClass pool index.toNat name) (rest : List UInt8) :
    operation pool opcode (opcode :: (bytesOf 2 index.toNat ++ rest)) = .ok (.onType name) := by
  have htype : ∀ opcode : UInt8, inRanges typeOpcodes opcode = true →
      callKind? opcode = none ∧ fieldUse? opcode = none ∧ opcode ≠ Opcode.invokeDynamic ∧
        opcode ∈ [Opcode.new, Opcode.arrayOfType, Opcode.checkcast, Opcode.instanceOf] :=
    forall_opcode (by decide +kernel)
  obtain ⟨hcall, hfield, hdynamic, hmem⟩ := htype opcode hopcode
  simp only [operation, hcall, hfield, hdynamic, hmem, if_false, if_true, word_operand, bind,
    Except.bind, classAt_eq hname, pure, Except.pure]

theorem operation_silent {ranges : List (Nat × Nat)}
    (hranges : ranges ∈ [bareOpcodes, byteOpcodes, wordOpcodes, longOpcodes])
    (hopcode : inRanges ranges opcode = true) (code : List UInt8) :
    operation pool opcode code = .ok .other := by
  have hsilent : ∀ opcode : UInt8,
      ∀ ranges ∈ [bareOpcodes, byteOpcodes, wordOpcodes, longOpcodes],
        inRanges ranges opcode = true → inRanges tellingOpcodes opcode = false :=
    forall_opcode (by decide +kernel)
  exact operation_other (hsilent opcode ranges hranges hopcode) pool code

/-- Of the widened instructions only stores of references are told apart. -/
theorem operation_wide (pool : Pool) (widened : UInt8) (operands : List UInt8) :
    operation pool 0xc4 (0xc4 :: widened :: operands) =
      if widened.toNat = 0x3a then (word (0xc4 :: widened :: operands) 2).map .store
      else .ok .other := by
  have hread : operation pool 0xc4 (0xc4 :: widened :: operands) =
      if Opcode.wide = Opcode.wide ∧ widened.toNat = 0x3a then do
        let slot ← word (0xc4 :: widened :: operands) 2
        return .store slot
      else .ok .other := rfl
  rw [hread]
  simp only [true_and]
  rfl

/-- The bytes of a statement that names the right constants do what the statement means. -/
theorem operation_of_means {statement : Statement} (h : statement.Means pool result)
    (offset : Nat) (rest : List UInt8) :
    operation pool statement.opcode (statement.encode offset ++ rest) = .ok result := by
  cases statement with
  | bare opcode hopcode =>
      rw [h]
      exact operation_silent (by simp) hopcode _
  | onByte opcode hopcode operand =>
      rw [h]
      exact operation_silent (by simp) hopcode _
  | onWord opcode hopcode operand =>
      rw [h]
      exact operation_silent (by simp) hopcode _
  | onLong opcode hopcode operand =>
      rw [h]
      exact operation_silent (by simp) hopcode _
  | increment slot amount =>
      rw [h]
      rfl
  | load index => exact loadConstant_eq h
  | loadWide index =>
      have hread : operation pool 0x13 (0x13 :: (bytesOf 2 index.toNat ++ rest)) =
          word (0x13 :: (bytesOf 2 index.toNat ++ rest)) 1 >>= loadConstant pool := rfl
      exact (hread.trans (congrArg (· >>= loadConstant pool) (word_operand _ _ _))).trans
        (loadConstant_eq h)
  | store slot =>
      rw [h]
      rfl
  | storeFirst slot =>
      rw [h]
      match slot with
      | 0 => rfl
      | 1 => rfl
      | 2 => rfl
      | 3 => rfl
  | field use index =>
      obtain ⟨member, hmember, rfl⟩ := h
      cases use with
      | get => exact operation_field rfl rfl hmember rest
      | put => exact operation_field rfl rfl hmember rest
      | getStatic => exact operation_field rfl rfl hmember rest
      | putStatic => exact operation_field rfl rfl hmember rest
  | invokeVirtual index => exact operation_call rfl h rest
  | invokeSpecial index => exact operation_call rfl h rest
  | invokeStatic index => exact operation_call rfl h rest
  | invokeInterface index arguments => exact operation_call rfl h ([arguments, 0] ++ rest)
  | invokeDynamic index =>
      obtain ⟨name, descriptor, hcall, rfl⟩ := h
      exact operation_dynamic hcall ([0, 0] ++ rest)
  | onType opcode hopcode index =>
      obtain ⟨name, hname, rfl⟩ := h
      exact operation_onType hopcode hname rest
  | multiArray index dimensions =>
      obtain ⟨name, hname, rfl⟩ := h
      exact operation_multiArray hname ([dimensions] ++ rest)
  | tableSwitch filler otherwise table =>
      rw [h]
      rfl
  | lookupSwitch filler otherwise table =>
      rw [h]
      rfl
  | wide opcode hopcode slot =>
      have hother : ∀ opcode : UInt8, inRanges slotOpcodes opcode = true → opcode.toNat ≠ 0x3a :=
        forall_opcode (by decide +kernel)
      rw [h]
      exact (operation_wide pool opcode _).trans (if_neg (hother opcode hopcode))
  | wideStore slot =>
      have hslot : word (0xc4 :: 0x3a :: (bytesOf 2 slot.toNat ++ rest)) 2 = .ok slot.toNat :=
        word_eq rfl
      rw [h]
      exact ((operation_wide pool 0x3a _).trans (if_pos rfl)).trans
        (congrArg (Except.map Operation.store) hslot)
  | wideIncrement slot amount =>
      rw [h]
      exact operation_wide pool 0x84 _

end

/-! Whole bodies. -/

/-- One step of decoding, over the bytes that the next instruction takes up. -/
theorem decodeFrom_cons {pool : Pool} {offset : Nat} {opcode : UInt8} {operands : List UInt8}
    {result : Operation} {rest : List UInt8} (hextent : Extent offset (opcode :: operands))
    (hoperation : operation pool opcode (opcode :: operands ++ rest) = .ok result)
    (decoded : List Instruction) :
    decodeFrom pool decoded offset (opcode :: operands ++ rest) =
      decodeFrom pool (⟨offset, opcode, result⟩ :: decoded)
        (offset + (opcode :: operands).length) rest := by
  have hlength := instructionLength_of_extent hextent rest
  have hbytes : 0 < (opcode :: operands).length ∧
      hasBytes (opcode :: operands).length (opcode :: operands ++ rest) = true := by
    rw [hasBytes_iff, List.length_append]
    simp
  have hrest : (opcode :: operands ++ rest).drop (opcode :: operands).length = rest :=
    List.drop_left
  rw [List.cons_append] at hlength hoperation hbytes hrest ⊢
  rw [decodeFrom, hlength]
  simp only [bind, Except.bind]
  rw [dif_pos hbytes, hoperation, within_ok, hrest]

/-- Decoding assembled statements lists them, after what has been decoded. -/
theorem decodeFrom_assemble {pool : Pool} {offset : Nat} {program : List Statement}
    {instructions : List Instruction} (h : Lists pool offset program instructions)
    (decoded : List Instruction) :
    decodeFrom pool decoded offset (assemble offset program) =
      .ok (decoded.reverse ++ instructions) := by
  induction h generalizing decoded with
  | nil offset => rw [assemble, decodeFrom, List.append_nil]
  | @cons offset statement rest result instructions hmeans hrest ih =>
      have hstep := decodeFrom_cons (statement.extent_encode offset)
        (operation_of_means hmeans offset
          (assemble (offset + (statement.encode offset).length) rest)) decoded
      rw [assemble]
      exact hstep.trans ((ih _).trans (by simp))

/-- What decoding finds in bytes that it accepts tiles the bytes. -/
theorem tiles_of_decodeFrom {pool : Pool} {decoded : List Instruction} {offset : Nat}
    {code : List UInt8} {instructions : List Instruction}
    (h : decodeFrom pool decoded offset code = .ok instructions) :
    ∃ found, instructions = decoded.reverse ++ found ∧ Tiles offset code found := by
  induction hsize : code.length using Nat.strongRecOn
    generalizing decoded offset code with
  | _ size ih =>
      cases code with
      | nil =>
          rw [decodeFrom, Except.ok.injEq] at h
          exact ⟨[], by rw [← h, List.append_nil], .nil offset⟩
      | cons opcode rest =>
          rw [decodeFrom] at h
          obtain ⟨length, hlength, h⟩ := bind_eq_ok h
          split at h
          · rename_i hbytes
            obtain ⟨result, -, h⟩ := bind_eq_ok h
            have henough := hasBytes_iff.mp hbytes.2
            rw [List.length_cons] at henough hsize
            obtain ⟨count, rfl, hextent⟩ := extent_of_instructionLength hlength henough
            rw [List.drop_succ_cons] at h
            have hless : (rest.drop count).length < size := by
              rw [List.length_drop]
              omega
            obtain ⟨found, hfound, htiles⟩ := ih _ hless h rfl
            refine ⟨⟨offset, opcode, result⟩ :: found, ?_, ?_⟩
            · rw [hfound, List.reverse_cons, List.append_assoc]
              rfl
            · have hcount : count + 1 = (opcode :: rest.take count).length := by
                rw [List.length_cons, List.length_take]
                omega
              have hcode : opcode :: rest = opcode :: rest.take count ++ rest.drop count := by
                rw [List.cons_append, List.take_append_drop]
              rw [hcount] at htiles
              rw [hcode]
              exact .cons hextent htiles
          · cases h

theorem Lists.means {pool : Pool} {offset : Nat} {program : List Statement}
    {instructions : List Instruction} (h : Lists pool offset program instructions) :
    ∀ statement ∈ program, ∃ result, statement.Means pool result := by
  induction h with
  | nil offset => simp
  | cons hmeans hrest ih => exact List.forall_mem_cons.mpr ⟨⟨_, hmeans⟩, ih⟩

theorem exists_lists {pool : Pool} {program : List Statement}
    (h : ∀ statement ∈ program, ∃ result, statement.Means pool result) (offset : Nat) :
    ∃ instructions, Lists pool offset program instructions := by
  induction program generalizing offset with
  | nil => exact ⟨[], .nil offset⟩
  | cons statement rest ih =>
      rw [List.forall_mem_cons] at h
      obtain ⟨result, hmeans⟩ := h.1
      obtain ⟨instructions, hrest⟩ := ih h.2 (offset + (statement.encode offset).length)
      exact ⟨_, .cons hmeans hrest⟩

/-- Decoding inverts assembly.  There are statements of every opcode; from the bytes of
statements that name constants of the right kinds decoding gives exactly their instructions, one
for each; and the instructions that it gives for any bytes that it accepts tile the bytes. -/
theorem decode_inverts_assembly (pool : Pool) :
    (∀ opcode, isOpcode opcode = true → ∃ statement : Statement, statement.opcode = opcode) ∧
      (∀ program : List Statement,
        (∀ statement ∈ program, ∃ result, statement.Means pool result) →
        (∃ instructions, Lists pool 0 program instructions) ∧
          ∀ instructions, Lists pool 0 program instructions ↔
            decode pool (assemble 0 program) = .ok instructions) ∧
      ∀ code instructions, decode pool code = .ok instructions → Tiles 0 code instructions := by
  refine ⟨fun opcode => (Statement.exists_opcode_iff opcode).mpr, ?_, ?_⟩
  · intro program hmeans
    obtain ⟨listed, hlisted⟩ := exists_lists hmeans 0
    refine ⟨⟨listed, hlisted⟩, fun instructions => ⟨fun h => decodeFrom_assemble h [], ?_⟩⟩
    intro hdecode
    have hsame : Except.ok listed = Except.ok instructions :=
      (decodeFrom_assemble hlisted []).symm.trans hdecode
    rw [← Except.ok.inj hsame]
    exact hlisted
  · intro code instructions h
    obtain ⟨found, rfl, htiles⟩ := tiles_of_decodeFrom h
    exact htiles

/-! A body with a switch, stores, a constant and a call. -/

def samplePool : Pool :=
  #[.empty, .text "a/A", .classRef 1, .text "m", .text "()V", .nameAndType 3 4, .methodRef 2 5,
    .stringRef 1]

def sampleProgram : List Statement :=
  [.tableSwitch (fun _ => 0) 8 ⟨1, 2, [8, 8], by omega, by omega, by omega, rfl, by decide⟩,
    .storeFirst (.last 3), .wideStore 300, .store 5, .load 7, .invokeStatic 6]

def sampleInstructions : List Instruction :=
  [⟨0, 0xaa, .other⟩, ⟨24, 0x4e, .store 3⟩, ⟨25, 0xc4, .store 300⟩, ⟨29, 0x3a, .store 5⟩,
    ⟨31, 0x12, .loadString "a/A"⟩, ⟨33, 0xb8, .invoke ⟨"a/A", "m", "()V", .static⟩⟩]

theorem lists_sampleProgram : Lists samplePool 0 sampleProgram sampleInstructions := by
  have hstring : Loads samplePool 7 (.loadString "a/A") := .string ⟨1, rfl, rfl⟩
  have hcall : Calls samplePool 6 .static (.invoke ⟨"a/A", "m", "()V", .static⟩) :=
    ⟨⟨"a/A", "m", "()V"⟩,
      ⟨2, 5, .methodRef 2 5, rfl, by simp, ⟨1, rfl, rfl⟩, ⟨3, 4, rfl, rfl, rfl⟩⟩, rfl⟩
  exact .cons rfl (.cons rfl (.cons rfl (.cons rfl (.cons hstring (.cons hcall (.nil _))))))

theorem decode_sampleProgram :
    (∀ statement ∈ sampleProgram, ∃ result, statement.Means samplePool result) ∧
      decode samplePool (assemble 0 sampleProgram) = .ok sampleInstructions ∧
      Tiles 0 (assemble 0 sampleProgram) sampleInstructions := by
  have hmeans := lists_sampleProgram.means
  have hdecode := (((decode_inverts_assembly samplePool).2.1 sampleProgram hmeans).2
    sampleInstructions).mp lists_sampleProgram
  exact ⟨hmeans, hdecode, (decode_inverts_assembly samplePool).2.2 _ _ hdecode⟩

end Linkage.ClassFile.Bytecode
