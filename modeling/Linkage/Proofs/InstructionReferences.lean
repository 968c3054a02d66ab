import Linkage.Proofs.DescriptorGrammar
import Linkage.Proofs.Records
/-
What instructions ask for.  An instruction of a body prescribes at most one
dependency; the prescription speaks of the class, the method and the earlier
instructions only.  The drafts of a body are the prescribed dependencies and
otherwise only creations and classes looked up by name.
-/

namespace Linkage

namespace Reference.Identity

/-- A dependency on a type. -/
def ofType (source : MemberHandle) (kind : ReferenceKind) (typeName : String) : Identity where
  kind := kind
  source := source
  typeName := typeName
  memberName := none
  signature := none

/-- A dependency on a field. -/
def ofField (source : MemberHandle) (kind : ReferenceKind) (use : FieldSite) : Identity where
  kind := kind
  source := source
  typeName := qualifiedName use.owner
  memberName := some use.name
  signature := none

/-- A dependency on a method. -/
def ofCall (source : MemberHandle) (kind : ReferenceKind) (call : CallSite) : Identity where
  kind := kind
  source := source
  typeName := qualifiedName call.owner
  memberName := some call.name
  signature := some call.descriptor

end Reference.Identity

/-- The calls whose form alone decides the kind of their reference. -/
def plainCallKinds : List (CallKind × ReferenceKind) :=
  [(.virtual, .virtualCall), (.interface, .interfaceCall), (.static, .staticCall)]

/-- The kinds of the uses of fields. -/
def fieldUseKinds : List (FieldUse × ReferenceKind) :=
  [(.get, .getField), (.put, .putField), (.getStatic, .getStaticField),
    (.putStatic, .putStaticField)]

/-- The kinds of the instructions with a class operand, creation apart. -/
def classOperandKinds : List (UInt8 × ReferenceKind) :=
  [(Opcode.arrayOfType, .arrayAllocation), (Opcode.checkcast, .checkcast),
    (Opcode.instanceOf, .instanceOf)]

/-- The kinds that only instructions make: calls, uses of fields, casts, instance tests
and allocations of arrays. -/
def instructionKinds : List ReferenceKind :=
  [.virtualCall, .interfaceCall, .staticCall, .specialCall, .constructorCall,
    .superConstructorCall, .getField, .putField, .getStaticField, .putStaticField,
    .checkcast, .instanceOf, .arrayAllocation]

/-- Whether a call runs a constructor of a type. -/
def CallSite.Constructs (call : CallSite) (owner : String) : Prop :=
  call.kind = .special ∧ call.name = constructorName ∧ qualifiedName call.owner = owner

/-- Whether instructions of a constructor have called a constructor of the super type. -/
def SuperConstructed (decl : ClassDecl) (method : MethodDecl) (earlier : List Instruction) :
    Prop :=
  method.isConstructor = true ∧ ∃ owner, decl.superType? = some owner ∧
    ∃ instruction ∈ earlier, ∃ call, instruction.operation = .invoke call ∧
      call.Constructs owner

/-- The first constructor call on the super type in a constructor. -/
def IsSuperConstructorCall (decl : ClassDecl) (method : MethodDecl)
    (earlier : List Instruction) (call : CallSite) : Prop :=
  method.isConstructor = true ∧ decl.superType? = some (qualifiedName call.owner) ∧
    ¬ SuperConstructed decl method earlier

/-- The handle of a method of a class. -/
def ClassDecl.methodHandle (decl : ClassDecl) (method : MethodDecl) : MemberHandle :=
  .method decl.qualifiedName method.name method.descriptor

/-- The dependency that an instruction of a body prescribes. -/
inductive Prescribes (decl : ClassDecl) (method : MethodDecl) (earlier : List Instruction) :
    Instruction → Reference.Identity → Prop where
  | plainCall {offset : Nat} {opcode : UInt8} {call : CallSite} {kind : ReferenceKind}
      (hkind : (call.kind, kind) ∈ plainCallKinds) :
      Prescribes decl method earlier ⟨offset, opcode, .invoke call⟩
        (.ofCall (decl.methodHandle method) kind call)
  | specialCall {offset : Nat} {opcode : UInt8} {call : CallSite}
      (hkind : call.kind = .special) (hname : call.name ≠ constructorName) :
      Prescribes decl method earlier ⟨offset, opcode, .invoke call⟩
        (.ofCall (decl.methodHandle method) .specialCall call)
  | superConstructorCall {offset : Nat} {opcode : UInt8} {call : CallSite}
      (hkind : call.kind = .special) (hname : call.name = constructorName)
      (hsuper : IsSuperConstructorCall decl method earlier call) :
      Prescribes decl method earlier ⟨offset, opcode, .invoke call⟩
        (.ofCall (decl.methodHandle method) .superConstructorCall call)
  | constructorCall {offset : Nat} {opcode : UInt8} {call : CallSite}
      (hkind : call.kind = .special) (hname : call.name = constructorName)
      (hother : ¬ IsSuperConstructorCall decl method earlier call) :
      Prescribes decl method earlier ⟨offset, opcode, .invoke call⟩
        (.ofCall (decl.methodHandle method) .constructorCall call)
  | fieldUse {offset : Nat} {opcode : UInt8} {use : FieldSite} {kind : ReferenceKind}
      (hkind : (use.use, kind) ∈ fieldUseKinds) :
      Prescribes decl method earlier ⟨offset, opcode, .access use⟩
        (.ofField (decl.methodHandle method) kind use)
  | classOperand {offset : Nat} {opcode : UInt8} {operand name : String}
      {kind : ReferenceKind} (hkind : (opcode, kind) ∈ classOperandKinds)
      (hname : OperandNames operand name) :
      Prescribes decl method earlier ⟨offset, opcode, .onType operand⟩
        (.ofType (decl.methodHandle method) kind name)
  | multiArray {offset : Nat} {opcode : UInt8} {operand name : String}
      (hname : OperandNames operand name) :
      Prescribes decl method earlier ⟨offset, opcode, .multiArray operand⟩
        (.ofType (decl.methodHandle method) .arrayAllocation name)
  | classConstant {offset : Nat} {opcode : UInt8} {operand name : String}
      (hname : OperandNames operand name) :
      Prescribes decl method earlier ⟨offset, opcode, .loadClass operand⟩
        (.ofType (decl.methodHandle method) .constantPoolUse name)

theorem Prescribes.of_target_field {decl : ClassDecl} {method : MethodDecl}
    {earlier : List Instruction} {instruction : Instruction} {identity : Reference.Identity}
    (h : Prescribes decl method earlier instruction identity)
    (htarget : identity.kind.target = .field) :
    ∃ name, identity.memberName = some name ∧ identity.signature = none := by
  cases h with
  | fieldUse _ => exact ⟨_, rfl, rfl⟩
  | plainCall hkind =>
      simp only [plainCallKinds, List.mem_cons, Prod.mk.injEq, List.not_mem_nil,
        or_false] at hkind
      rcases hkind with ⟨-, rfl⟩ | ⟨-, rfl⟩ | ⟨-, rfl⟩ <;> cases htarget
  | classOperand hkind _ =>
      simp only [classOperandKinds, List.mem_cons, Prod.mk.injEq, List.not_mem_nil,
        or_false] at hkind
      rcases hkind with ⟨-, rfl⟩ | ⟨-, rfl⟩ | ⟨-, rfl⟩ <;> cases htarget
  | _ => cases htarget

theorem Prescribes.of_superConstructorCall {decl : ClassDecl} {method : MethodDecl}
    {earlier : List Instruction} {instruction : Instruction} {identity : Reference.Identity}
    (h : Prescribes decl method earlier instruction identity)
    (hkind : identity.kind = .superConstructorCall) :
    ∃ call, instruction.operation = .invoke call ∧ call.kind = .special ∧
      call.name = constructorName ∧ IsSuperConstructorCall decl method earlier call ∧
        identity = .ofCall (decl.methodHandle method) .superConstructorCall call := by
  cases h with
  | superConstructorCall hspecial hname hsuper => exact ⟨_, rfl, hspecial, hname, hsuper, rfl⟩
  | plainCall hplain =>
      have hapart : ∀ item ∈ plainCallKinds, item.2 ≠ .superConstructorCall := by decide
      exact absurd hkind (hapart _ hplain)
  | fieldUse huse =>
      have hapart : ∀ item ∈ fieldUseKinds, item.2 ≠ .superConstructorCall := by decide
      exact absurd hkind (hapart _ huse)
  | classOperand hoperand _ =>
      have hapart : ∀ item ∈ classOperandKinds, item.2 ≠ .superConstructorCall := by decide
      exact absurd hkind (hapart _ hoperand)
  | _ => cases hkind

/-- Why folding is interested in a reference of a body. -/
def bodyTrail (method : MethodDecl) (kind : ReferenceKind) : Trail :=
  if kind = .staticCall then .staticCall
  else if method.access.isSynthetic ∧ kind.target = .field then .syntheticAccess
  else .plain

theorem bodyTrail_plain {method : MethodDecl} {kind : ReferenceKind}
    (hcall : kind ≠ .staticCall) (htarget : kind.target ≠ .field) :
    bodyTrail method kind = .plain := by
  simp [bodyTrail, hcall, htarget]

theorem bodyTrail_eq_staticCall_iff {method : MethodDecl} {kind : ReferenceKind} :
    bodyTrail method kind = .staticCall ↔ kind = .staticCall := by
  rw [bodyTrail]
  split
  · simp_all
  · split <;> simp_all

theorem bodyTrail_eq_syntheticAccess_iff {method : MethodDecl} {kind : ReferenceKind} :
    bodyTrail method kind = .syntheticAccess ↔
      method.access.isSynthetic = true ∧ kind.target = .field := by
  rw [bodyTrail]
  split
  · rename_i hkind
    simp [hkind, ReferenceKind.target]
  · split <;> simp_all

namespace BodySite

theorem mem_instructionDrafts {site : BodySite} {state : CallState}
    {instructions : List Instruction} {draft : Draft} :
    draft ∈ site.instructionDrafts state instructions ↔
      ∃ earlier instruction later, instructions = earlier ++ instruction :: later ∧
        draft ∈ site.drafts (earlier.foldl site.after state) instruction := by
  induction instructions generalizing state with
  | nil => simp [instructionDrafts]
  | cons head rest ih =>
      rw [instructionDrafts, List.mem_append, ih]
      constructor
      · rintro (hhead | ⟨earlier, instruction, later, hrest, hdraft⟩)
        · exact ⟨[], head, rest, rfl, hhead⟩
        · exact ⟨head :: earlier, instruction, later, by rw [hrest, List.cons_append], hdraft⟩
      · rintro ⟨earlier, instruction, later, hsplit, hdraft⟩
        cases earlier with
        | nil =>
            simp only [List.nil_append, List.cons.injEq] at hsplit
            rw [← hsplit.1] at hdraft
            exact .inl hdraft
        | cons first earlier =>
            simp only [List.cons_append, List.cons.injEq] at hsplit
            rw [← hsplit.1] at hdraft
            exact .inr ⟨earlier, instruction, later, hsplit.2, hdraft⟩

variable {known : Universe} {decl : ClassDecl} {method : MethodDecl}

@[simp] theorem qualified_eq (site : BodySite) (name : String) :
    site.qualified name = qualifiedName name := by
  simp [qualified]

@[simp] theorem source_of :
    (BodySite.of (TypeSite.of known decl) method).source = decl.methodHandle method := rfl

theorem isSuperCall_iff {state : CallState} {owner : String} :
    (BodySite.of (TypeSite.of known decl) method).isSuperCall state owner = true ↔
      state.superCallSeen = false ∧ method.isConstructor = true ∧
        decl.superType? = some owner := by
  simp only [isSuperCall, Bool.and_eq_true, Bool.not_eq_true', decide_eq_true_eq, and_assoc]
  rfl

/-- One instruction marks the super constructor as called exactly if it calls it. -/
theorem superCallSeen_after {state : CallState} {instruction : Instruction} :
    ((BodySite.of (TypeSite.of known decl) method).after state instruction).superCallSeen = true ↔
      state.superCallSeen = true ∨ SuperConstructed decl method [instruction] := by
  have hsingle : SuperConstructed decl method [instruction] ↔
      method.isConstructor = true ∧ ∃ owner, decl.superType? = some owner ∧
        ∃ call, instruction.operation = .invoke call ∧ call.Constructs owner := by
    simp [SuperConstructed]
  rw [hsingle]
  cases hoperation : instruction.operation with
  | invoke call =>
      simp only [after, hoperation, afterCall, Bool.or_eq_true, Bool.and_eq_true,
        decide_eq_true_eq, isSuperCall_iff, qualified_eq, CallSite.Constructs]
      cases state.superCallSeen with
      | true => simp
      | false =>
          constructor
          · rintro (h | ⟨⟨hkind, hname⟩, -, hconstructor, howner⟩)
            · exact .inl h
            · exact .inr ⟨hconstructor, _, howner, call, rfl, hkind, hname, rfl⟩
          · rintro (h | ⟨hconstructor, owner, howner, other, heq, hkind, hname, hother⟩)
            · exact .inl h
            · cases heq
              rw [← hother] at howner
              exact .inr ⟨⟨hkind, hname⟩, rfl, hconstructor, howner⟩
  | _ => simp [after, hoperation]

theorem superCallSeen_foldl_after {state : CallState} {earlier : List Instruction} :
    (earlier.foldl (BodySite.of (TypeSite.of known decl) method).after state).superCallSeen
        = true ↔
      state.superCallSeen = true ∨ SuperConstructed decl method earlier := by
  induction earlier generalizing state with
  | nil => simp [SuperConstructed]
  | cons instruction rest ih =>
      rw [List.foldl_cons, ih, superCallSeen_after, or_assoc]
      simp only [SuperConstructed, List.mem_cons, List.not_mem_nil, or_false]
      grind

/-- In a body, a constructor call is taken for the super constructor call exactly if it is
the first one on the super type. -/
theorem isSuperCall_foldl_after {earlier : List Instruction} {call : CallSite} :
    (BodySite.of (TypeSite.of known decl) method).isSuperCall
        (earlier.foldl (BodySite.of (TypeSite.of known decl) method).after {})
        (qualifiedName call.owner) = true ↔
      IsSuperConstructorCall decl method earlier call := by
  have hseen := @superCallSeen_foldl_after known decl method {} earlier
  simp only [Bool.false_eq_true, false_or] at hseen
  rw [isSuperCall_iff, ← Bool.not_eq_true, hseen, IsSuperConstructorCall]
  constructor
  · rintro ⟨hfirst, hconstructor, howner⟩
    exact ⟨hconstructor, howner, hfirst⟩
  · rintro ⟨hconstructor, howner, hfirst⟩
    exact ⟨hfirst, hconstructor, howner⟩

@[simp] theorem kind_callReference (site : BodySite) (owner : String) (call : CallSite)
    (kind : ReferenceKind) (flags : UInt32) :
    (site.callReference owner call kind flags).kind = kind := rfl

@[simp] theorem identity_callReference (site : BodySite) (call : CallSite)
    (kind : ReferenceKind) (flags : UInt32) :
    (site.callReference (qualifiedName call.owner) call kind flags).identity =
      .ofCall site.source kind call := rfl

@[simp] theorem identity_fieldDraft (site : BodySite) (use : FieldSite) :
    (site.fieldDraft use).reference.identity =
      .ofField site.source (fieldKind use.use) use := by
  simp [fieldDraft, Reference.ofField, Reference.identity, Reference.Identity.ofField]

theorem fieldKind_eq {use : FieldUse} {kind : ReferenceKind}
    (h : (use, kind) ∈ fieldUseKinds) : fieldKind use = kind := by
  simp only [fieldUseKinds, List.mem_cons, Prod.mk.injEq, List.not_mem_nil, or_false] at h
  rcases h with ⟨rfl, rfl⟩ | ⟨rfl, rfl⟩ | ⟨rfl, rfl⟩ | ⟨rfl, rfl⟩ <;> rfl

theorem operandKind?_eq_some_iff {opcode : UInt8} {kind : ReferenceKind} :
    operandKind? opcode = some kind ↔ (opcode, kind) ∈ classOperandKinds := by
  rw [operandKind?, classOperandKinds]
  simp only [List.mem_cons, Prod.mk.injEq, List.not_mem_nil, or_false]
  constructor
  · intro h
    split at h
    · exact .inl ⟨‹_›, (Option.some.inj h).symm⟩
    · split at h
      · exact .inr (.inl ⟨‹_›, (Option.some.inj h).symm⟩)
      · split at h
        · exact .inr (.inr ⟨‹_›, (Option.some.inj h).symm⟩)
        · cases h
  · rintro (⟨rfl, rfl⟩ | ⟨rfl, rfl⟩ | ⟨rfl, rfl⟩) <;> rfl

theorem mem_operandDrafts {site : BodySite} {operand : String} {kind : ReferenceKind}
    {draft : Draft} :
    draft ∈ site.operandDrafts operand kind ↔
      ∃ name, OperandNames operand name ∧
        draft = .ofReference (Reference.ofType site.source name kind) := by
  simp only [← classOperand?_eq_some_iff, operandDrafts, Table.get_eq, List.mem_map,
    Option.mem_toList, eq_comm]
  rfl

/-- A body has a draft for every dependency that one of its instructions prescribes. -/
theorem exists_draft_of_prescribes (known : Universe) {earlier : List Instruction}
    {instruction : Instruction} {identity : Reference.Identity}
    (h : Prescribes decl method earlier instruction identity) :
    ∃ draft ∈ (BodySite.of (TypeSite.of known decl) method).drafts
        (earlier.foldl (BodySite.of (TypeSite.of known decl) method).after {}) instruction,
      draft.reference.identity = identity := by
  cases h with
  | plainCall hkind =>
      simp only [plainCallKinds, List.mem_cons, Prod.mk.injEq, List.not_mem_nil,
        or_false] at hkind
      simp only [drafts, callDrafts, qualified_eq]
      rcases hkind with ⟨hcall, rfl⟩ | ⟨hcall, rfl⟩ | ⟨hcall, rfl⟩
      · rw [hcall]
        exact ⟨_, List.mem_singleton.mpr rfl, rfl⟩
      · rw [hcall]
        exact ⟨_, List.mem_singleton.mpr rfl, rfl⟩
      · rw [hcall]
        exact ⟨_, List.mem_append_right _ (List.mem_singleton.mpr rfl), rfl⟩
  | specialCall hkind hname =>
      simp only [drafts, callDrafts, hkind, qualified_eq, if_neg hname]
      exact ⟨_, List.mem_singleton.mpr rfl, rfl⟩
  | superConstructorCall hkind hname hsuper =>
      simp only [drafts, callDrafts, hkind, qualified_eq, if_pos hname,
        if_pos (isSuperCall_foldl_after.mpr hsuper)]
      exact ⟨_, List.mem_singleton.mpr rfl, rfl⟩
  | constructorCall hkind hname hother =>
      simp only [drafts, callDrafts, hkind, qualified_eq, if_pos hname,
        if_neg (fun h => hother (isSuperCall_foldl_after.mp h))]
      exact ⟨_, List.mem_cons_of_mem _ (List.mem_singleton.mpr rfl), rfl⟩
  | fieldUse hkind =>
      refine ⟨_, List.mem_singleton.mpr rfl, ?_⟩
      rw [identity_fieldDraft, fieldKind_eq hkind, source_of]
  | classOperand hkind hname =>
      simp only [drafts, operandKind?_eq_some_iff.mpr hkind]
      exact ⟨_, mem_operandDrafts.mpr ⟨_, hname, rfl⟩, rfl⟩
  | multiArray hname => exact ⟨_, mem_operandDrafts.mpr ⟨_, hname, rfl⟩, rfl⟩
  | classConstant hname => exact ⟨_, mem_operandDrafts.mpr ⟨_, hname, rfl⟩, rfl⟩

/-- How a call makes a draft. -/
inductive CallMakes (site : BodySite) (state : CallState) (owner : String) (call : CallSite) :
    Draft → Prop where
  | virtual (hkind : call.kind = .virtual) :
      CallMakes site state owner call
        (.ofReference (site.callReference owner call .virtualCall (site.virtualFlags call)))
  | interface (hkind : call.kind = .interface) :
      CallMakes site state owner call
        (.ofReference (site.callReference owner call .interfaceCall 0))
  | static (hkind : call.kind = .static) :
      CallMakes site state owner call
        { reference := site.callReference owner call .staticCall 0, trail := .staticCall }
  | literal {literal : String} (hkind : call.kind = .static)
      (hliteral : state.literal = some literal) (howner : owner = "java.lang.Class")
      (hname : call.name = "forName") :
      CallMakes site state owner call
        (.ofReference (Reference.ofType site.source (qualifiedName literal) .constantPoolUse))
  | superConstructor (hkind : call.kind = .special) (hname : call.name = constructorName)
      (hsuper : site.isSuperCall state owner = true) :
      CallMakes site state owner call
        (.ofReference (site.callReference owner call .superConstructorCall 0))
  | instantiate (hkind : call.kind = .special) (hname : call.name = constructorName)
      (hother : ¬ site.isSuperCall state owner = true) :
      CallMakes site state owner call
        (.ofReference (Reference.ofType site.source owner .instantiate))
  | constructor (hkind : call.kind = .special) (hname : call.name = constructorName)
      (hother : ¬ site.isSuperCall state owner = true) :
      CallMakes site state owner call
        (.ofReference (site.callReference owner call .constructorCall 0))
  | special (hkind : call.kind = .special) (hname : call.name ≠ constructorName) :
      CallMakes site state owner call
        (.ofReference (site.callReference owner call .specialCall 0))

/-- The operand of an instruction whose class is referred to, with the kind of the
reference. -/
inductive UsesOperand (instruction : Instruction) : String → ReferenceKind → Prop where
  | onType {operand : String} {kind : ReferenceKind}
      (hoperation : instruction.operation = .onType operand)
      (hkind : (instruction.opcode, kind) ∈ classOperandKinds) :
      UsesOperand instruction operand kind
  | multiArray {operand : String} (hoperation : instruction.operation = .multiArray operand) :
      UsesOperand instruction operand .arrayAllocation
  | loadClass {operand : String} (hoperation : instruction.operation = .loadClass operand) :
      UsesOperand instruction operand .constantPoolUse

theorem UsesOperand.operand?_eq {instruction : Instruction} {operand : String}
    {kind : ReferenceKind} (h : UsesOperand instruction operand kind) :
    instruction.operand? = some operand := by
  cases h with
  | onType hoperation => rw [Instruction.operand?, hoperation]
  | multiArray hoperation => rw [Instruction.operand?, hoperation]
  | loadClass hoperation => rw [Instruction.operand?, hoperation]

theorem UsesOperand.target_eq {instruction : Instruction} {operand : String}
    {kind : ReferenceKind} (h : UsesOperand instruction operand kind) : kind.target = .type := by
  cases h with
  | onType _ hkind =>
      simp only [classOperandKinds, List.mem_cons, Prod.mk.injEq, List.not_mem_nil,
        or_false] at hkind
      rcases hkind with ⟨-, rfl⟩ | ⟨-, rfl⟩ | ⟨-, rfl⟩ <;> rfl
  | multiArray _ => rfl
  | loadClass _ => rfl

/-- How an instruction makes a draft. -/
inductive InstructionMakes (site : BodySite) (state : CallState) (instruction : Instruction) :
    Draft → Prop where
  | call {call : CallSite} {draft : Draft} (hcall : instruction.operation = .invoke call)
      (hmakes : CallMakes site state (qualifiedName call.owner) call draft) :
      InstructionMakes site state instruction draft
  | access {use : FieldSite} (haccess : instruction.operation = .access use) :
      InstructionMakes site state instruction (site.fieldDraft use)
  | operand {operand name : String} {kind : ReferenceKind}
      (huses : UsesOperand instruction operand kind) (hname : OperandNames operand name) :
      InstructionMakes site state instruction
        (.ofReference (Reference.ofType site.source name kind))

/-- The kinds of the references that uses of fields and class operands make. -/
def useKinds : List ReferenceKind :=
  [.getField, .putField, .getStaticField, .putStaticField, .arrayAllocation, .checkcast,
    .instanceOf, .constantPoolUse]

theorem UsesOperand.kind_mem {instruction : Instruction} {operand : String} {kind : ReferenceKind}
    (h : UsesOperand instruction operand kind) : kind ∈ useKinds := by
  cases h with
  | onType _ hkind =>
      simp only [classOperandKinds, List.mem_cons, Prod.mk.injEq, List.not_mem_nil,
        or_false] at hkind
      rcases hkind with ⟨-, rfl⟩ | ⟨-, rfl⟩ | ⟨-, rfl⟩ <;> decide
  | multiArray _ => decide
  | loadClass _ => decide

/-- References of other kinds are made by calls. -/
theorem InstructionMakes.exists_call {site : BodySite} {state : CallState}
    {instruction : Instruction} {draft : Draft}
    (h : InstructionMakes site state instruction draft)
    (hkind : draft.reference.kind ∉ useKinds) :
    ∃ call, instruction.operation = .invoke call ∧
      CallMakes site state (qualifiedName call.owner) call draft := by
  cases h with
  | call hcall hmakes => exact ⟨_, hcall, hmakes⟩
  | @access use _ =>
      have huse : ∀ use, fieldKind use ∈ useKinds := by
        intro use
        cases use <;> decide
      exact absurd (huse use.use) hkind
  | operand huses _ => exact absurd huses.kind_mem hkind

theorem callMakes_of_mem {site : BodySite} {state : CallState} {owner : String}
    {call : CallSite} {draft : Draft} (h : draft ∈ site.callDrafts state owner call) :
    CallMakes site state owner call draft := by
  rw [callDrafts] at h
  cases hkind : call.kind with
  | dynamic => simp [hkind] at h
  | virtual =>
      simp only [hkind, List.mem_singleton] at h
      exact h ▸ .virtual hkind
  | interface =>
      simp only [hkind, List.mem_singleton] at h
      exact h ▸ .interface hkind
  | static =>
      simp only [hkind, List.mem_append, List.mem_map, List.mem_singleton] at h
      rcases h with ⟨reference, hreference, rfl⟩ | rfl
      · rw [forNameReferences] at hreference
        split at hreference
        · rename_i literal hliteral
          split at hreference
          · rename_i hforName
            rw [List.mem_singleton, qualified_eq] at hreference
            exact hreference ▸ .literal hkind hliteral hforName.1 hforName.2
          · simp at hreference
        · simp at hreference
      · exact .static hkind
  | special =>
      simp only [hkind] at h
      split at h
      · rename_i hname
        split at h
        · rename_i hsuper
          rw [List.mem_singleton] at h
          exact h ▸ .superConstructor hkind hname hsuper
        · rename_i hother
          simp only [List.mem_cons, List.not_mem_nil, or_false] at h
          rcases h with rfl | rfl
          · exact .instantiate hkind hname hother
          · exact .constructor hkind hname hother
      · rename_i hname
        rw [List.mem_singleton] at h
        exact h ▸ .special hkind hname

theorem instructionMakes_of_mem {site : BodySite} {state : CallState}
    {instruction : Instruction} {draft : Draft} (h : draft ∈ site.drafts state instruction) :
    InstructionMakes site state instruction draft := by
  have hoperand : ∀ {operand kind}, UsesOperand instruction operand kind →
      draft ∈ site.operandDrafts operand kind →
        InstructionMakes site state instruction draft := by
    intro operand kind huses hmem
    obtain ⟨name, hname, rfl⟩ := mem_operandDrafts.mp hmem
    exact .operand huses hname
  cases hoperation : instruction.operation with
  | invoke call =>
      simp only [drafts, hoperation, qualified_eq] at h
      exact .call hoperation (callMakes_of_mem h)
  | access use =>
      simp only [drafts, hoperation, List.mem_singleton] at h
      exact h ▸ .access hoperation
  | onType operand =>
      simp only [drafts, hoperation] at h
      split at h
      · rename_i kind hkind
        exact hoperand (.onType hoperation (operandKind?_eq_some_iff.mp hkind)) h
      · simp at h
  | multiArray operand =>
      simp only [drafts, hoperation] at h
      exact hoperand (.multiArray hoperation) h
  | loadClass operand =>
      simp only [drafts, hoperation] at h
      exact hoperand (.loadClass hoperation) h
  | _ => simp [drafts, hoperation] at h

theorem CallMakes.source_eq {site : BodySite} {state : CallState} {owner : String}
    {call : CallSite} {draft : Draft} (h : CallMakes site state owner call draft) :
    draft.reference.source = site.source := by
  cases h <;> rfl

/-- What an instruction refers to is referred to by its method. -/
theorem InstructionMakes.source_eq {site : BodySite} {state : CallState}
    {instruction : Instruction} {draft : Draft}
    (h : InstructionMakes site state instruction draft) :
    draft.reference.source = site.source := by
  cases h with
  | call _ hmakes => exact hmakes.source_eq
  | access _ => rfl
  | operand _ _ => rfl

/-- A call makes what it prescribes and otherwise only references of kinds that do not
belong to instructions. -/
theorem CallMakes.prescribes {earlier : List Instruction} {offset : Nat} {opcode : UInt8}
    {call : CallSite} {draft : Draft}
    (h : CallMakes (BodySite.of (TypeSite.of known decl) method)
      (earlier.foldl (BodySite.of (TypeSite.of known decl) method).after {})
      (qualifiedName call.owner) call draft) :
    Prescribes decl method earlier ⟨offset, opcode, .invoke call⟩ draft.reference.identity ∨
      draft.reference.kind ∉ instructionKinds := by
  cases h with
  | virtual hkind => exact .inl (.plainCall (by simp [plainCallKinds, hkind]))
  | interface hkind => exact .inl (.plainCall (by simp [plainCallKinds, hkind]))
  | static hkind => exact .inl (.plainCall (by simp [plainCallKinds, hkind]))
  | literal _ _ _ _ => exact .inr (by decide : ReferenceKind.constantPoolUse ∉ instructionKinds)
  | superConstructor hkind hname hsuper =>
      exact .inl (.superConstructorCall hkind hname (isSuperCall_foldl_after.mp hsuper))
  | instantiate _ _ _ => exact .inr (by decide : ReferenceKind.instantiate ∉ instructionKinds)
  | constructor hkind hname hother =>
      exact .inl (.constructorCall hkind hname
        (fun hsuper => hother (isSuperCall_foldl_after.mpr hsuper)))
  | special hkind hname => exact .inl (.specialCall hkind hname)

/-- An instruction makes what it prescribes and otherwise only references of kinds that do
not belong to instructions. -/
theorem InstructionMakes.prescribes {earlier : List Instruction} {instruction : Instruction}
    {draft : Draft}
    (h : InstructionMakes (BodySite.of (TypeSite.of known decl) method)
      (earlier.foldl (BodySite.of (TypeSite.of known decl) method).after {}) instruction draft) :
    Prescribes decl method earlier instruction draft.reference.identity ∨
      draft.reference.kind ∉ instructionKinds := by
  obtain ⟨offset, opcode, operation⟩ := instruction
  cases h with
  | call hcall hmakes =>
      cases hcall
      exact hmakes.prescribes
  | @access use haccess =>
      cases haccess
      rw [identity_fieldDraft, source_of]
      left
      apply Prescribes.fieldUse
      cases use.use <;> decide
  | operand huses hname =>
      left
      cases huses with
      | onType hoperation hkind =>
          cases hoperation
          exact .classOperand hkind hname
      | multiArray hoperation =>
          cases hoperation
          exact .multiArray hname
      | loadClass hoperation =>
          cases hoperation
          exact .classConstant hname

theorem CallMakes.trail_eq {type : TypeSite} {state : CallState} {owner : String}
    {call : CallSite} {draft : Draft}
    (h : CallMakes (BodySite.of type method) state owner call draft) :
    draft.trail = bodyTrail method draft.reference.kind := by
  cases h with
  | static _ => rfl
  | _ => exact (bodyTrail_plain ReferenceKind.noConfusion TargetSort.noConfusion).symm

/-- The kind of a reference of a body tells whether folding is interested in it. -/
theorem InstructionMakes.trail_eq {type : TypeSite} {state : CallState}
    {instruction : Instruction} {draft : Draft}
    (h : InstructionMakes (BodySite.of type method) state instruction draft) :
    draft.trail = bodyTrail method draft.reference.kind := by
  cases h with
  | call _ hmakes => exact hmakes.trail_eq
  | @access use _ =>
      cases hsynthetic : method.access.isSynthetic <;> cases huse : use.use <;>
        simp [fieldDraft, Reference.ofField, fieldKind, huse, hsynthetic, bodyTrail,
          ReferenceKind.target, BodySite.of]
  | @operand _ _ kind huses _ =>
      have htarget := huses.target_eq
      have hcall : kind ≠ .staticCall := by
        rintro rfl
        cases htarget
      exact (bodyTrail_plain hcall (by rw [htarget]; decide)).symm

end BodySite

end Linkage
