import Linkage.Proofs.InstructionCoverage
import Linkage.Proofs.Visits
import Mathlib.Data.List.Nodup
/-
Calls of accessors.  An accessor is a synthetic method of a visited type that uses
a field.  Extraction that asks for everything delivers no call of an accessor; for
every such call and every use of a field by the accessor it delivers one use of the
field by the caller, on the line of the call.  Nesting may be cyclic here.
-/

namespace Linkage

namespace Instruction

/-- The static call that an instruction makes. -/
def staticCall? (instruction : Instruction) : Option CallSite :=
  match instruction.operation with
  | .invoke call => if call.kind = .static then some call else none
  | _ => none

/-- The use of a field that an instruction makes. -/
def fieldUse? (instruction : Instruction) : Option FieldSite :=
  match instruction.operation with
  | .access use => some use
  | _ => none

end Instruction

namespace MethodDecl

/-- The instructions of a method, none if it has no body. -/
def instructions (method : MethodDecl) : List Instruction :=
  (method.body?.map Code.instructions).getD []

/-- The static calls of a method, in order. -/
def staticCalls (method : MethodDecl) : List CallSite :=
  method.instructions.filterMap Instruction.staticCall?

/-- The uses of fields by a method, in order. -/
def fieldUses (method : MethodDecl) : List FieldSite :=
  method.instructions.filterMap Instruction.fieldUse?

end MethodDecl

namespace ClassDecl

/-- The dependencies of the static calls of a method. -/
def callsBy (decl : ClassDecl) (method : MethodDecl) : List Reference.Identity :=
  method.staticCalls.map (.ofCall (decl.methodHandle method) .staticCall)

/-- The dependencies of the static calls of a class, in order. -/
def staticCallsMade (decl : ClassDecl) : List Reference.Identity :=
  decl.methods.flatMap decl.callsBy

end ClassDecl

/-- A synthetic method of a visited type that uses a field. -/
structure IsAccessor (types : List ClassDecl) (decl : ClassDecl) (method : MethodDecl) :
    Prop where
  visited : decl ∈ types
  method_mem : method ∈ decl.methods
  synthetic : method.access.isSynthetic = true
  uses_field : method.fieldUses ≠ []

/-- No synthetic method of a visited type calls an accessor. -/
def NoAccessorChains (types : List ClassDecl) : Prop :=
  ∀ caller ∈ types, ∀ method ∈ caller.methods, method.access.isSynthetic = true →
    ∀ decl accessor, IsAccessor types decl accessor →
      ∀ call ∈ caller.callsBy method, ¬ call.PointsAt (decl.methodHandle accessor)

/-- A method of a visited type that is not synthetic has a given handle. -/
def HasPlainMethod (types : List ClassDecl) (handle : MemberHandle) : Prop :=
  ∃ decl ∈ types, ∃ method ∈ decl.methods, method.access.isSynthetic = false ∧
    decl.methodHandle method = handle

/-- A use of a field by a source on a line. -/
def IsFieldUse (use : FieldSite) (source : MemberHandle) (line : Int) (reference : Reference) :
    Prop :=
  reference.kind = BodySite.fieldKind use.use ∧ reference.typeName = qualifiedName use.owner ∧
    reference.memberName = some use.name ∧ reference.source = source ∧ reference.line = line

instance (use : FieldSite) (source : MemberHandle) (line : Int) (reference : Reference) :
    Decidable (IsFieldUse use source line reference) :=
  inferInstanceAs (Decidable (_ ∧ _ ∧ _ ∧ _ ∧ _))

/-- What becomes of the calls of accessors: the visited types, the final entries and the
delivered references. -/
structure AccessorCallsReplaced (types : List ClassDecl) (entries : List Entry)
    (references : List Reference) : Prop where
  /-- The static calls among the entries are those of the visited code, in order. -/
  calls_eq : (staticCalls entries).map (fun call => call.reference.identity) =
    types.flatMap ClassDecl.staticCallsMade
  /-- No call of an accessor is delivered. -/
  no_calls : ∀ decl accessor, IsAccessor types decl accessor →
    ∀ reference ∈ references, reference.kind = .staticCall →
      ¬ reference.identity.PointsAt (decl.methodHandle accessor)
  /-- Every use of a field by the accessor is delivered once, as one by the caller on the
  line of the call. -/
  direct_uses : ∀ decl accessor, IsAccessor types decl accessor →
    ∀ use ∈ accessor.fieldUses, ∀ call ∈ staticCalls entries,
      call.reference.identity.PointsAt (decl.methodHandle accessor) →
        references.countP (IsFieldUse use call.reference.source call.line) = 1
  /-- No use of a field by an accessor that is called is delivered, unless a method that is
  not synthetic has the same handle. -/
  no_uses : NoAccessorChains types → ∀ decl accessor, IsAccessor types decl accessor →
    (∃ call ∈ types.flatMap ClassDecl.staticCallsMade,
      call.PointsAt (decl.methodHandle accessor)) →
    ∀ reference ∈ references, reference.target = .field →
      reference.source = decl.methodHandle accessor →
        HasPlainMethod types (decl.methodHandle accessor)

/-- The dependency and line of the reference decide whether it is the use of a field. -/
theorem isFieldUse_iff {use : FieldSite} {source : MemberHandle} {line : Int}
    {reference : Reference} (hplain : reference.target = .field → reference.signature = none) :
    IsFieldUse use source line reference ↔
      reference.repeatKey = (.ofField source (BodySite.fieldKind use.use) use, line) := by
  constructor
  · rintro ⟨hkind, htype, hname, hsource, hline⟩
    have htarget : reference.target = .field := by
      rw [Reference.target, hkind]
      cases use.use <;> rfl
    simp only [Reference.repeatKey, Reference.identity, Reference.Identity.ofField, hkind, htype,
      hname, hsource, hline, hplain htarget]
  · intro hkey
    simp only [Reference.repeatKey, Reference.identity, Reference.Identity.ofField,
      Prod.mk.injEq, Reference.Identity.mk.injEq] at hkey
    obtain ⟨⟨hkind, hsource, htype, hname, -⟩, hline⟩ := hkey
    exact ⟨hkind, htype, hname, hsource, hline⟩

theorem countP_repeatKey {references : List Reference}
    (hnodup : (references.map Reference.repeatKey).Nodup) {reference : Reference}
    (hmem : reference ∈ references) {key : Reference.Identity × Int}
    (hkey : reference.repeatKey = key) :
    references.countP (fun other => decide (other.repeatKey = key)) = 1 := by
  have hlisted : key ∈ references.map Reference.repeatKey := List.mem_map.mpr ⟨_, hmem, hkey⟩
  have hcount := List.count_eq_one_of_mem hnodup hlisted
  rw [List.count, List.countP_map] at hcount
  rw [← hcount]
  exact List.countP_congr (fun other _ => by simp)

/-! The static calls of the visited code. -/

/-- The dependencies of the static calls among drafts, in order. -/
def draftCalls (drafts : List Draft) : List Reference.Identity :=
  (drafts.filter (fun draft => draft.trail = .staticCall)).map
    (fun draft => draft.reference.identity)

@[simp] theorem draftCalls_append (left right : List Draft) :
    draftCalls (left ++ right) = draftCalls left ++ draftCalls right := by
  simp [draftCalls]

theorem draftCalls_flatten (parts : List (List Draft)) :
    draftCalls parts.flatten = parts.flatMap draftCalls := by
  induction parts with
  | nil => rfl
  | cons part rest ih => rw [List.flatten_cons, draftCalls_append, ih, List.flatMap_cons]

theorem draftCalls_eq_nil {drafts : List Draft}
    (h : ∀ draft ∈ drafts, draft.trail ≠ .staticCall) : draftCalls drafts = [] := by
  rw [draftCalls, List.filter_eq_nil_iff.mpr (by simpa using h)]
  rfl

theorem draftCalls_ofReferences (references : List Reference) :
    draftCalls (references.map Draft.ofReference) = [] := by
  apply draftCalls_eq_nil
  intro draft hmem
  obtain ⟨reference, -, rfl⟩ := List.mem_map.mp hmem
  exact Trail.noConfusion

namespace BodySite

/-- Of the drafts of an instruction, its static call is the only one. -/
theorem draftCalls_drafts (site : BodySite) (state : CallState) (instruction : Instruction) :
    draftCalls (site.drafts state instruction) =
      instruction.staticCall?.toList.map (.ofCall site.source .staticCall) := by
  have hoperand : ∀ operand kind, draftCalls (site.operandDrafts operand kind) = [] := by
    intro operand kind
    apply draftCalls_eq_nil
    intro draft hmem
    obtain ⟨name, -, rfl⟩ := List.mem_map.mp hmem
    exact Trail.noConfusion
  obtain ⟨offset, opcode, operation⟩ := instruction
  cases operation with
  | invoke call =>
      cases hkind : call.kind with
      | static =>
          simp only [drafts, callDrafts, hkind, draftCalls_append, draftCalls_ofReferences]
          simp [draftCalls, Instruction.staticCall?, hkind]
      | special =>
          simp only [drafts, callDrafts, hkind, Instruction.staticCall?]
          split
          · split <;> rfl
          · rfl
      | _ => simp [drafts, callDrafts, hkind, draftCalls, Instruction.staticCall?]
  | access use =>
      simp only [drafts, fieldDraft]
      split <;> rfl
  | onType operand =>
      simp only [drafts]
      split
      · exact hoperand operand _
      · rfl
  | multiArray operand => exact hoperand operand _
  | loadClass operand => exact hoperand operand _
  | _ => rfl

theorem draftCalls_instructionDrafts (site : BodySite) (state : CallState)
    (instructions : List Instruction) :
    draftCalls (site.instructionDrafts state instructions) =
      (instructions.filterMap Instruction.staticCall?).map (.ofCall site.source .staticCall) := by
  induction instructions generalizing state with
  | nil => rfl
  | cons instruction rest ih =>
      rw [instructionDrafts, draftCalls_append, draftCalls_drafts, ih, List.filterMap_cons]
      cases instruction.staticCall? <;> rfl

end BodySite

variable {known : Universe} {decl : ClassDecl} {method : MethodDecl}

theorem DraftOrigin.kind_of_staticCall {draft : Draft} (h : DraftOrigin decl draft)
    (htrail : draft.trail = .staticCall) : draft.reference.kind = .staticCall := by
  cases h with
  | instruction _ _ hbody =>
      rw [hbody] at htrail
      exact bodyTrail_eq_staticCall_iff.mp htrail
  | syntheticField _ hdraft => simp [hdraft, syntheticFieldDraft] at htrail
  | other hplain _ => simp [hplain] at htrail

theorem draftCalls_methodDrafts {drafts : List Draft}
    (h : (TypeSite.of known decl).methodDrafts method = .ok drafts) :
    draftCalls drafts = decl.callsBy method := by
  obtain ⟨types, declared, body, -, -, ⟨hnone, rfl⟩ | ⟨code, hcode, hbody⟩, rfl⟩ :=
    methodDrafts_eq_ok h
  · rw [List.append_nil, draftCalls_ofReferences, ClassDecl.callsBy, MethodDecl.staticCalls,
      MethodDecl.instructions, hnone]
    rfl
  · obtain ⟨locals, -, rfl⟩ := bind_pure_eq_ok hbody
    have hcatch : draftCalls ((BodySite.of (TypeSite.of known decl) method).catchDrafts
        code.handlers) = [] := by
      apply draftCalls_eq_nil
      intro draft hmem
      obtain ⟨name, -, rfl⟩ := List.mem_map.mp hmem
      exact Trail.noConfusion
    rw [draftCalls_append, draftCalls_append, draftCalls_append,
      draftCalls_ofReferences, draftCalls_ofReferences, hcatch,
      BodySite.draftCalls_instructionDrafts, ClassDecl.callsBy, MethodDecl.staticCalls,
      MethodDecl.instructions, hcode]
    simp

/-- The static calls that a type records are those of its methods. -/
theorem OwnDrafts.draftCalls_members (own : OwnDrafts known decl) :
    draftCalls own.members = decl.staticCallsMade := by
  have hfields : draftCalls own.fields.flatten = [] := by
    apply draftCalls_eq_nil
    intro draft hmem htrail
    obtain ⟨drafts, hdrafts, hmem⟩ := List.mem_flatten.mp hmem
    obtain ⟨field, -, hdrafts⟩ := (mem_of_mapM_eq_ok own.fields_eq).mp hdrafts
    cases fieldMakes_of_mem (mapError_eq_ok hdrafts) hmem <;> cases htrail
  have hmethods := flatMap_of_mapM_eq_ok own.methods_eq
    (fun method _ drafts hdrafts => draftCalls_methodDrafts (mapError_eq_ok hdrafts))
  rw [OwnDrafts.members, draftCalls_append, hfields, draftCalls_flatten, hmethods]
  rfl

/-- The static calls that a visit records are those of the types that it leaves, in
order. -/
theorem draftCalls_steps (steps : List (VisitStep known)) :
    draftCalls ((steps.flatMap VisitStep.records).map Record.draft) =
      (leftTypes steps).flatMap ClassDecl.staticCallsMade := by
  have hrecorded : ∀ (type : TypeSite) (drafts : List Draft),
      (type.recorded drafts).map Record.draft = drafts := by
    intro type drafts
    simp [TypeSite.recorded, Function.comp_def]
  induction steps with
  | nil => rfl
  | cons step rest ih =>
      rw [List.flatMap_cons, List.map_append, draftCalls_append, ih]
      cases step with
      | enter decl own =>
          have hheader : draftCalls own.header = [] := by
            apply draftCalls_eq_nil
            intro draft hmem htrail
            obtain ⟨reference, -, rfl⟩ := mem_headerDrafts own.header_eq hmem
            cases htrail
          rw [VisitStep.records, hrecorded, hheader]
          rfl
      | leave decl own =>
          rw [VisitStep.records, hrecorded, own.draftCalls_members]
          rfl

theorem staticCalls_of_unlined {options : ExtractOptions} {entries : Array Entry}
    {found : List Record} (h : unlinedAll entries = found.map (Record.unlined options)) :
    (staticCalls entries.toList).map (fun call => call.reference.identity) =
      draftCalls (found.map Record.draft) := by
  have hunlined : (staticCalls (unlinedAll entries)).map (fun call => call.reference.identity) =
      (staticCalls entries.toList).map (fun call => call.reference.identity) := by
    rw [unlinedAll, staticCalls, List.filter_map, List.map_map]
    rfl
  rw [← hunlined, h, staticCalls, List.filter_map, List.map_map, draftCalls, List.filter_map,
    List.map_map]
  rfl

/-! What instructions prescribe. -/

theorem InstructionOf.mem_instructions {earlier : List Instruction} {instruction : Instruction}
    (h : InstructionOf decl method earlier instruction) :
    instruction ∈ method.instructions := by
  obtain ⟨code, later, hbody, hsplit⟩ := h.body
  simp [MethodDecl.instructions, hbody, hsplit]

theorem exists_instructionOf_of_mem (hmethod : method ∈ decl.methods)
    {instruction : Instruction} (hmem : instruction ∈ method.instructions) :
    ∃ earlier, InstructionOf decl method earlier instruction := by
  rw [MethodDecl.instructions] at hmem
  cases hbody : method.body? with
  | none => simp [hbody] at hmem
  | some code =>
      rw [hbody, Option.map_some, Option.getD_some] at hmem
      obtain ⟨earlier, later, hsplit⟩ := List.append_of_mem hmem
      exact ⟨earlier, hmethod, code, later, hbody, hsplit⟩

/-- Only uses of fields prescribe dependencies on fields. -/
theorem InstructionOf.fieldUse {earlier : List Instruction} {instruction : Instruction}
    {identity : Reference.Identity} (h : InstructionOf decl method earlier instruction)
    (hprescribes : Prescribes decl method earlier instruction identity)
    (htarget : identity.kind.target = .field) :
    ∃ use ∈ method.fieldUses,
      identity = .ofField (decl.methodHandle method) (BodySite.fieldKind use.use) use := by
  cases hprescribes with
  | @fieldUse _ _ use _ hkind =>
      refine ⟨use, List.mem_filterMap.mpr ⟨_, h.mem_instructions, rfl⟩, ?_⟩
      rw [BodySite.fieldKind_eq hkind]
  | plainCall hkind =>
      simp only [plainCallKinds, List.mem_cons, Prod.mk.injEq, List.not_mem_nil,
        or_false] at hkind
      rcases hkind with ⟨-, rfl⟩ | ⟨-, rfl⟩ | ⟨-, rfl⟩ <;> cases htarget
  | classOperand hkind _ =>
      simp only [classOperandKinds, List.mem_cons, Prod.mk.injEq, List.not_mem_nil,
        or_false] at hkind
      rcases hkind with ⟨-, rfl⟩ | ⟨-, rfl⟩ | ⟨-, rfl⟩ <;> cases htarget
  | _ => cases htarget

/-- Only static calls prescribe static calls. -/
theorem InstructionOf.staticCall {earlier : List Instruction} {instruction : Instruction}
    {identity : Reference.Identity} (h : InstructionOf decl method earlier instruction)
    (hprescribes : Prescribes decl method earlier instruction identity)
    (hkind : identity.kind = .staticCall) : identity ∈ decl.callsBy method := by
  cases hprescribes with
  | @plainCall _ _ call kind hcall =>
      cases (hkind : kind = .staticCall)
      have hstatic : call.kind = .static := by
        simpa [plainCallKinds] using hcall
      refine List.mem_map_of_mem (List.mem_filterMap.mpr ⟨_, h.mem_instructions, ?_⟩)
      simp [Instruction.staticCall?, hstatic]
  | @fieldUse _ _ _ kind huse =>
      cases (hkind : kind = .staticCall)
      simp [fieldUseKinds] at huse
  | @classOperand _ _ _ _ kind hoperand _ =>
      cases (hkind : kind = .staticCall)
      simp [classOperandKinds] at hoperand
  | _ => cases hkind

/-- Every use of a field is an instruction that prescribes it. -/
theorem exists_instructionOf_fieldUse (hmethod : method ∈ decl.methods) {use : FieldSite}
    (huse : use ∈ method.fieldUses) :
    ∃ earlier instruction, InstructionOf decl method earlier instruction ∧
      Prescribes decl method earlier instruction
        (.ofField (decl.methodHandle method) (BodySite.fieldKind use.use) use) := by
  obtain ⟨⟨offset, opcode, operation⟩, hmem, hoperation⟩ := List.mem_filterMap.mp huse
  obtain ⟨earlier, hinstruction⟩ := exists_instructionOf_of_mem hmethod hmem
  refine ⟨earlier, _, hinstruction, ?_⟩
  cases operation with
  | access other =>
      cases hoperation
      apply Prescribes.fieldUse
      cases use.use <;> decide
  | _ => cases hoperation

theorem exists_instructionOf_staticCall (hmethod : method ∈ decl.methods) {call : CallSite}
    (hcall : call ∈ method.staticCalls) :
    ∃ earlier instruction, InstructionOf decl method earlier instruction ∧
      Prescribes decl method earlier instruction
        (.ofCall (decl.methodHandle method) .staticCall call) := by
  obtain ⟨⟨offset, opcode, operation⟩, hmem, hoperation⟩ := List.mem_filterMap.mp hcall
  obtain ⟨earlier, hinstruction⟩ := exists_instructionOf_of_mem hmethod hmem
  refine ⟨earlier, _, hinstruction, ?_⟩
  cases operation with
  | invoke other =>
      simp only [Instruction.staticCall?, Option.ite_none_right_eq_some,
        Option.some.injEq] at hoperation
      obtain ⟨hstatic, rfl⟩ := hoperation
      exact .plainCall (by simp [plainCallKinds, hstatic])
  | _ => cases hoperation

/-! Where the entries of an extraction come from. -/

section Entries

variable {steps : List (VisitStep known)} {entries : Array Entry}
  (hunlined : unlinedAll entries =
    (steps.flatMap VisitStep.records).map (Record.unlined .full))

include hunlined

/-- Every entry for a field is a use of the field by a method of a visited type, and folding
follows it exactly if the method is synthetic. -/
theorem exists_user {entry : Entry} (hmem : entry ∈ entries.toList)
    (htarget : entry.reference.target = .field) :
    ∃ decl ∈ leftTypes steps, ∃ method ∈ decl.methods, ∃ use ∈ method.fieldUses,
      entry.reference.identity =
        .ofField (decl.methodHandle method) (BodySite.fieldKind use.use) use ∧
      (entry.trail = .syntheticAccess ↔ method.access.isSynthetic = true) := by
  have hkind : entry.reference.kind ∈ instructionKinds := by
    revert htarget
    rw [Reference.target]
    cases entry.reference.kind <;> simp [ReferenceKind.target, instructionKinds]
  obtain ⟨decl, hleft, draft, horigin, hfootprint⟩ := exists_draftOrigin hunlined hmem (.inl hkind)
  have hidentity : draft.reference.identity = entry.reference.identity :=
    congrArg Footprint.identity hfootprint
  have htrail : draft.trail = entry.trail := congrArg Footprint.trail hfootprint
  have hkindEq : draft.reference.kind = entry.reference.kind :=
    congrArg Reference.Identity.kind hidentity
  cases horigin with
  | @instruction method _ _ hinstruction hprescribes hbody =>
      have hdraft : draft.reference.identity.kind.target = .field := by
        rw [hidentity]
        exact htarget
      obtain ⟨use, huse, heq⟩ := hinstruction.fieldUse hprescribes hdraft
      refine ⟨decl, hleft, method, hinstruction.method_mem, use, huse, ?_, ?_⟩
      · rw [← hidentity, heq]
      · rw [← htrail, hbody, bodyTrail_eq_syntheticAccess_iff]
        exact and_iff_left hdraft
  | syntheticField _ hdraft =>
      rw [hdraft] at hkindEq
      rw [← hkindEq] at hkind
      exact absurd hkind (by decide : ReferenceKind.fieldDeclaration ∉ instructionKinds)
  | other _ hother =>
      rw [hkindEq] at hother
      exact absurd hkind hother

/-- Every entry for a static call is a call by a method of a visited type. -/
theorem exists_caller {entry : Entry} (hmem : entry ∈ entries.toList)
    (hkind : entry.reference.kind = .staticCall ∨ entry.trail = .staticCall) :
    entry.trail = .staticCall ∧ ∃ decl ∈ leftTypes steps, ∃ method ∈ decl.methods,
      entry.reference.identity ∈ decl.callsBy method ∧
        entry.reference.source = decl.methodHandle method := by
  have hcause : entry.reference.kind ∈ instructionKinds ∨ entry.trail ≠ .plain := by
    rcases hkind with hkind | htrail
    · rw [hkind]
      exact .inl (by decide)
    · rw [htrail]
      exact .inr Trail.noConfusion
  obtain ⟨decl, hleft, draft, horigin, hfootprint⟩ := exists_draftOrigin hunlined hmem hcause
  have hidentity : draft.reference.identity = entry.reference.identity :=
    congrArg Footprint.identity hfootprint
  have htrail : draft.trail = entry.trail := congrArg Footprint.trail hfootprint
  have hkindEq : draft.reference.kind = entry.reference.kind :=
    congrArg Reference.Identity.kind hidentity
  have hstatic : draft.reference.kind = .staticCall := by
    rcases hkind with hkind | hkind
    · rw [hkindEq, hkind]
    · exact horigin.kind_of_staticCall (htrail.trans hkind)
  cases horigin with
  | @instruction method _ _ hinstruction hprescribes hbody =>
      have hcalls := hinstruction.staticCall hprescribes hstatic
      rw [hidentity] at hcalls
      refine ⟨?_, decl, hleft, method, hinstruction.method_mem, hcalls, ?_⟩
      · rw [← htrail, hbody]
        exact bodyTrail_eq_staticCall_iff.mpr hstatic
      · obtain ⟨call, -, heq⟩ := List.mem_map.mp hcalls
        exact (congrArg Reference.Identity.source heq).symm
  | syntheticField _ hdraft =>
      rw [hdraft] at hstatic
      cases hstatic
  | other _ hother =>
      rw [hstatic] at hother
      exact absurd (by decide) hother

/-- Every use of a field by an accessor is an entry that folding follows. -/
theorem IsAccessor.exists_access {decl : ClassDecl} {accessor : MethodDecl}
    (h : IsAccessor (leftTypes steps) decl accessor) {use : FieldSite}
    (huse : use ∈ accessor.fieldUses) :
    ∃ access ∈ entries.toList, access.trail = .syntheticAccess ∧
      access.reference.identity =
        .ofField (decl.methodHandle accessor) (BodySite.fieldKind use.use) use := by
  obtain ⟨step, hstep, hleft⟩ := List.mem_filterMap.mp h.visited
  cases step with
  | enter _ _ => cases hleft
  | leave _ own =>
      cases hleft
      obtain ⟨earlier, instruction, hinstruction, hprescribes⟩ :=
        exists_instructionOf_fieldUse h.method_mem huse
      obtain ⟨draft, hdraft, hidentity, htrail⟩ :=
        own.exists_of_prescribes hinstruction hprescribes
      have hrecord : Record.mk (TypeSite.of known decl).scope draft ∈
          steps.flatMap VisitStep.records :=
        List.mem_flatMap.mpr ⟨_, hstep,
          List.mem_map_of_mem (List.mem_append_right _ hdraft)⟩
      have hentry := List.mem_map_of_mem (f := Record.unlined .full) hrecord
      rw [← hunlined] at hentry
      obtain ⟨access, haccess, hsame⟩ := List.mem_map.mp hentry
      have hfootprint : access.footprint = draft.footprint := congrArg Entry.footprint hsame
      refine ⟨access, haccess, ?_, ?_⟩
      · have htarget : (BodySite.fieldKind use.use).target = .field := by
          cases use.use <;> rfl
        rw [show access.trail = draft.trail from congrArg Footprint.trail hfootprint, htrail]
        exact bodyTrail_eq_syntheticAccess_iff.mpr ⟨h.synthetic, htarget⟩
      · rw [← hidentity]
        exact congrArg Footprint.identity hfootprint

/-- A delivered reference to a field carries no signature. -/
theorem signature_of_delivered {reference : Reference}
    (hmem : reference ∈ delivered (foldAccessors .full entries.toList))
    (htarget : reference.target = .field) : reference.signature = none := by
  obtain ⟨kept, hkept, hretained, rfl⟩ := exists_of_mem_delivered hmem
  rcases mem_foldAccessors hkept hretained with ⟨hentry, -⟩ | ⟨_, -, _, -, -, rfl⟩
  · obtain ⟨_, -, _, -, use, -, hidentity, -⟩ := exists_user hunlined hentry htarget
    exact congrArg Reference.Identity.signature hidentity
  · rfl

theorem no_accessorCall {decl : ClassDecl} {accessor : MethodDecl}
    (haccessor : IsAccessor (leftTypes steps) decl accessor) {reference : Reference}
    (hmem : reference ∈ delivered (foldAccessors .full entries.toList))
    (hkind : reference.kind = .staticCall) :
    ¬ reference.identity.PointsAt (decl.methodHandle accessor) := by
  intro hpoints
  obtain ⟨kept, hkept, hretained, rfl⟩ := exists_of_mem_delivered hmem
  rcases mem_foldAccessors hkept hretained with
    ⟨hentry, hunfolded⟩ | ⟨access, haccess, _, -, hreaches, rfl⟩
  · obtain ⟨use, huse⟩ := List.exists_mem_of_ne_nil _ haccessor.uses_field
    obtain ⟨access, haccess, htrail, hidentity⟩ := haccessor.exists_access hunlined huse
    refine hunfolded ⟨access.footprint, List.mem_map_of_mem haccess, .inl ⟨?_, htrail, ?_⟩⟩
    · exact (exists_caller hunlined hentry (.inl hkind)).1
    · rw [show access.footprint.identity = _ from hidentity]
      exact hpoints
  · have hcall := (exists_caller hunlined haccess (.inl hkind)).1
    rw [show access.trail = .syntheticAccess from hreaches.access_trail] at hcall
    cases hcall

theorem directUse_delivered_once {decl : ClassDecl} {accessor : MethodDecl}
    (haccessor : IsAccessor (leftTypes steps) decl accessor) {use : FieldSite}
    (huse : use ∈ accessor.fieldUses) {call : Entry} (hcall : call ∈ staticCalls entries.toList)
    (hpoints : call.reference.identity.PointsAt (decl.methodHandle accessor)) :
    (delivered (foldAccessors .full entries.toList)).countP
      (IsFieldUse use call.reference.source call.line) = 1 := by
  obtain ⟨hcallMem, hcallTrail⟩ := mem_staticCalls.mp hcall
  obtain ⟨access, haccess, htrail, hidentity⟩ := haccessor.exists_access hunlined huse
  have hreaches : call.footprint.Reaches access.footprint := by
    refine ⟨hcallTrail, htrail, ?_⟩
    rw [show access.footprint.identity = _ from hidentity]
    exact hpoints
  let direct := ExtractOptions.full.record call.scope { reference := directUse access call }
  have hmem : direct ∈ foldAccessors .full entries.toList := by
    rw [foldAccessors_eq]
    exact List.mem_append_right _
      (mem_directUses.mpr ⟨access, haccess, call, hcallMem, hreaches, rfl⟩)
  have hdirect : direct.repeatKey =
      (.ofField call.reference.source (BodySite.fieldKind use.use) use, call.line) := by
    have hkind := congrArg Reference.Identity.kind hidentity
    have htype := congrArg Reference.Identity.typeName hidentity
    have hname := congrArg Reference.Identity.memberName hidentity
    simp only [Reference.identity, Reference.Identity.ofField] at hkind htype hname
    simp only [Entry.repeatKey, direct, ExtractOptions.record, directUse, hkind, htype, hname]
    rfl
  obtain ⟨reference, hreference, hkey⟩ :=
    exists_delivered_of_mem hmem (considers_full call.scope _)
  rw [hdirect] at hkey
  rw [← countP_repeatKey (nodup_delivered _) hreference hkey]
  apply List.countP_congr
  intro other hother
  rw [decide_eq_true_iff, decide_eq_true_iff]
  exact isFieldUse_iff (signature_of_delivered hunlined hother)

theorem plainMethod_of_delivered (hchains : NoAccessorChains (leftTypes steps))
    {decl : ClassDecl} {accessor : MethodDecl}
    (hcalled : ∃ call ∈ staticCalls entries.toList,
      call.reference.identity.PointsAt (decl.methodHandle accessor))
    {reference : Reference} (hmem : reference ∈ delivered (foldAccessors .full entries.toList))
    (htarget : reference.target = .field)
    (hsource : reference.source = decl.methodHandle accessor) :
    HasPlainMethod (leftTypes steps) (decl.methodHandle accessor) := by
  obtain ⟨kept, hkept, hretained, rfl⟩ := exists_of_mem_delivered hmem
  rcases mem_foldAccessors hkept hretained with
    ⟨hentry, hunfolded⟩ | ⟨access, haccess, call, hcall, hreaches, rfl⟩
  · -- A synthetic method that is called has its uses folded away.
    obtain ⟨user, huser, method, hmethod, use, -, hidentity, htrail⟩ :=
      exists_user hunlined hentry htarget
    have hhandle : user.methodHandle method = decl.methodHandle accessor := by
      rw [← hsource]
      exact (congrArg Reference.Identity.source hidentity).symm
    refine ⟨user, huser, method, hmethod, ?_, hhandle⟩
    rw [← Bool.not_eq_true, ← htrail]
    intro hsynthetic
    obtain ⟨call, hcall, hpoints⟩ := hcalled
    obtain ⟨hcallMem, hcallTrail⟩ := mem_staticCalls.mp hcall
    refine hunfolded ⟨call.footprint, List.mem_map_of_mem hcallMem,
      .inr ⟨hcallTrail, hsynthetic, ?_⟩⟩
    rw [show kept.footprint.identity.source = _ from hsource]
    exact hpoints
  · -- The source of a direct use is a caller of an accessor.
    obtain ⟨-, caller, hcaller, method, hmethod, hcalls, hhandle⟩ :=
      exists_caller hunlined hcall (.inr hreaches.call_trail)
    obtain ⟨user, huser, other, hother, use, huse, hidentity, htrail⟩ :=
      exists_user hunlined haccess htarget
    have haccessor : IsAccessor (leftTypes steps) user other :=
      ⟨huser, hother, htrail.mp hreaches.access_trail, List.ne_nil_of_mem huse⟩
    have hpoints := hreaches.points_at
    rw [show access.footprint.identity = _ from hidentity] at hpoints
    refine ⟨caller, hcaller, method, hmethod, ?_, hhandle.symm.trans hsource⟩
    rw [← Bool.not_eq_true]
    intro hsynthetic
    exact hchains caller hcaller method hmethod hsynthetic user other haccessor _ hcalls hpoints

end Entries

/-- Extraction that asks for everything replaces the calls of accessors by uses of their
fields. -/
theorem extract_replaces_accessorCalls (known : Universe) (root : ClassDecl)
    (references : List Reference) (hextract : extract .full known root = .ok references) :
    ∃ entries steps, (TypeTree.of known root).entries .full known = .ok entries ∧
      (TypeTree.of known root).steps known = .ok steps ∧
      AccessorCallsReplaced (leftTypes steps) entries.toList references := by
  obtain ⟨entries, steps, hentries, hsteps, hunlined, rfl⟩ := exists_steps_of_extract hextract
  have hcalls : (staticCalls entries.toList).map (fun call => call.reference.identity) =
      (leftTypes steps).flatMap ClassDecl.staticCallsMade := by
    rw [staticCalls_of_unlined hunlined, draftCalls_steps]
  refine ⟨entries, steps, hentries, hsteps, hcalls, ?_, ?_, ?_⟩
  · intro decl accessor haccessor reference hmem hkind
    exact no_accessorCall hunlined haccessor hmem hkind
  · intro decl accessor haccessor use huse call hcall hpoints
    exact directUse_delivered_once hunlined haccessor huse hcall hpoints
  · rintro hchains decl accessor haccessor ⟨identity, hmade, hpoints⟩ reference hmem htarget hsource
    rw [← hcalls] at hmade
    obtain ⟨call, hcall, rfl⟩ := List.mem_map.mp hmade
    exact plainMethod_of_delivered hunlined hchains ⟨call, hcall, hpoints⟩ hmem htarget hsource

/-! A class with an accessor and another method of the same name and descriptor. -/

def xUse : FieldSite := ⟨"a/A", "x", "I", .get⟩

def yUse : FieldSite := ⟨"a/A", "y", "I", .get⟩

def xCaller : PlainMethod where
  name := "m"
  instructions := [⟨0, Opcode.invokeStatic, .invoke ⟨"a/A", "access$0", "()V", .static⟩⟩]

def xAccessor : PlainMethod where
  name := "access$0"
  isSynthetic := true
  instructions := [⟨0, Opcode.getField, .access xUse⟩]

def yReader : PlainMethod where
  name := "access$0"
  instructions := [⟨0, Opcode.getField, .access yUse⟩]

def clashingClass : ClassDecl := plainClass "a/A" [xCaller, xAccessor, yReader]

def clashingUniverse : Universe := .ofList [clashingClass]

def clashingEntries : List Entry :=
  ([xCaller, xAccessor, yReader].flatMap (fun method =>
    method.drafts (TypeSite.of clashingUniverse clashingClass))).map
      (ExtractOptions.full.record (TypeSite.of clashingUniverse clashingClass).scope)

theorem entries_clashingClass :
    (TypeTree.of clashingUniverse clashingClass).entries .full clashingUniverse =
      .ok clashingEntries.toArray :=
  entries_plainClass .full clashingUniverse "a/A" [xCaller, xAccessor, yReader]

theorem extract_clashingClass : extract .full clashingUniverse clashingClass =
    .ok (delivered (foldAccessors .full clashingEntries)) := by
  rw [extract, entries_clashingClass]
  rfl

theorem steps_clashingClass {steps : List (VisitStep clashingUniverse)}
    (h : (TypeTree.of clashingUniverse clashingClass).steps clashingUniverse = .ok steps) :
    leftTypes steps = [clashingClass] :=
  leftTypes_of_childless (ClassDecl.children_eq_nil _ rfl) h

theorem isAccessor_xAccessor : IsAccessor [clashingClass] clashingClass xAccessor.decl :=
  ⟨List.mem_singleton_self _, by simp [clashingClass, plainClass], rfl, List.cons_ne_nil _ _⟩

theorem noAccessorChains_clashingClass : NoAccessorChains [clashingClass] := by
  intro caller hcaller method hmethod hsynthetic decl accessor _ call hcall
  rw [List.mem_singleton] at hcaller
  subst hcaller
  simp only [clashingClass, plainClass, List.map_cons, List.map_nil, List.mem_cons,
    List.not_mem_nil, or_false] at hmethod
  rcases hmethod with rfl | rfl | rfl
  · cases hsynthetic
  · cases hcall
  · cases hsynthetic

theorem record_mem_clashingEntries {method : PlainMethod} {draft : Draft}
    (hmethod : method ∈ [xCaller, xAccessor, yReader])
    (hdraft : draft ∈ method.drafts (TypeSite.of clashingUniverse clashingClass)) :
    ExtractOptions.full.record (TypeSite.of clashingUniverse clashingClass).scope draft ∈
      clashingEntries :=
  List.mem_map_of_mem (List.mem_flatMap.mpr ⟨method, hmethod, hdraft⟩)

/-- The call of the accessor, as the caller records it. -/
theorem exists_call_clashingClass : ∃ call ∈ staticCalls clashingEntries,
    call.reference.identity = .ofCall (clashingClass.methodHandle xCaller.decl) .staticCall
      ⟨"a/A", "access$0", "()V", .static⟩ ∧ call.line = -1 := by
  let site := BodySite.of (TypeSite.of clashingUniverse clashingClass) xCaller.decl
  let draft : Draft :=
    { reference := site.callReference (site.qualified "a/A") ⟨"a/A", "access$0", "()V", .static⟩
        .staticCall 0
      trail := .staticCall }
  have hdraft : draft ∈ xCaller.drafts (TypeSite.of clashingUniverse clashingClass) := by
    simp [PlainMethod.drafts, xCaller, BodySite.instructionDrafts, BodySite.drafts,
      BodySite.callDrafts, draft, site]
  refine ⟨_, mem_staticCalls.mpr ⟨record_mem_clashingEntries (by simp) hdraft, rfl⟩, ?_, rfl⟩
  simp only [ExtractOptions.record, draft, BodySite.qualified_eq]
  rfl

theorem pointsAt_xAccessor :
    (Reference.Identity.ofCall (clashingClass.methodHandle xCaller.decl) .staticCall
      ⟨"a/A", "access$0", "()V", .static⟩).PointsAt
        (clashingClass.methodHandle xAccessor.decl) :=
  ⟨rfl, rfl, rfl⟩

/-- The call of the accessor is replaced by one use of its field. -/
theorem extract_clashingClass_replaces_call :
    ∃ references, extract .full clashingUniverse clashingClass = .ok references ∧
      references.countP (IsFieldUse xUse (clashingClass.methodHandle xCaller.decl) (-1)) = 1 := by
  refine ⟨_, extract_clashingClass, ?_⟩
  obtain ⟨entries, steps, hentries, hsteps, hreplaced⟩ :=
    extract_replaces_accessorCalls _ _ _ extract_clashingClass
  rw [entries_clashingClass, Except.ok.injEq] at hentries
  subst hentries
  rw [steps_clashingClass hsteps] at hreplaced
  obtain ⟨call, hcall, hidentity, hline⟩ := exists_call_clashingClass
  have hsource : call.reference.source = clashingClass.methodHandle xCaller.decl :=
    congrArg Reference.Identity.source hidentity
  rw [← hsource, ← hline]
  apply hreplaced.direct_uses clashingClass xAccessor.decl isAccessor_xAccessor xUse
    List.mem_cons_self call hcall
  rw [hidentity]
  exact pointsAt_xAccessor

/-- A method that is not synthetic and shares the handle of a called accessor keeps its own
uses of fields. -/
theorem extract_clashingClass_keeps_use :
    ∃ references steps, extract .full clashingUniverse clashingClass = .ok references ∧
      (TypeTree.of clashingUniverse clashingClass).steps clashingUniverse = .ok steps ∧
      NoAccessorChains (leftTypes steps) ∧
      ∃ decl accessor, IsAccessor (leftTypes steps) decl accessor ∧
        (∃ call ∈ (leftTypes steps).flatMap ClassDecl.staticCallsMade,
          call.PointsAt (decl.methodHandle accessor)) ∧
        ∃ reference ∈ references, reference.target = .field ∧
          reference.source = decl.methodHandle accessor := by
  obtain ⟨_, steps, -, hsteps, -⟩ := exists_steps_of_extract extract_clashingClass
  let site := BodySite.of (TypeSite.of clashingUniverse clashingClass) yReader.decl
  let use := ExtractOptions.full.record (TypeSite.of clashingUniverse clashingClass).scope
    (site.fieldDraft yUse)
  have hdraft : site.fieldDraft yUse ∈
      yReader.drafts (TypeSite.of clashingUniverse clashingClass) := by
    simp [PlainMethod.drafts, yReader, BodySite.instructionDrafts, BodySite.drafts, site]
  have huse : use ∈ clashingEntries := record_mem_clashingEntries (by simp) hdraft
  have hunfolded : ¬ use.footprint.FoldedAmong (clashingEntries.map Entry.footprint) := by
    rintro ⟨other, -, hreaches | hreaches⟩
    · cases hreaches.call_trail
    · cases hreaches.access_trail
  obtain ⟨reference, hmem, hidentity⟩ := exists_mem_delivered_iff.mpr
    (.inl ⟨use, huse, considers_full _ _, BodySite.identity_fieldDraft site yUse, hunfolded⟩)
  refine ⟨_, steps, extract_clashingClass, hsteps, ?_⟩
  rw [steps_clashingClass hsteps]
  refine ⟨noAccessorChains_clashingClass, clashingClass, xAccessor.decl, isAccessor_xAccessor,
    ⟨_, List.mem_cons_self, pointsAt_xAccessor⟩, reference, hmem, ?_, ?_⟩
  · exact congrArg (fun identity => identity.kind.target) hidentity
  · exact congrArg Reference.Identity.source hidentity

end Linkage
