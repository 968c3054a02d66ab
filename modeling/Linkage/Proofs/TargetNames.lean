import Linkage.Proofs.Pruning
import Linkage.Proofs.WellNamed
/-
Names of targets.  The references of a class whose texts are well formed name classes
and not arrays, and those to the operands of instructions name the class of the
elements.  What is left are the names that are taken as they stand: those that strings
give to look-ups by name, the receivers of calls, and the names of known interfaces.
-/

namespace Linkage

/-- The kinds of the references to the class operands of instructions. -/
def operandKinds : List ReferenceKind :=
  [.arrayAllocation, .checkcast, .instanceOf, .constantPoolUse]

/-- The kinds of the references that a call on an array may make. -/
def receiverKinds : List ReferenceKind :=
  [.virtualCall, .interfaceCall, .staticCall, .specialCall, .constructorCall, .instantiate]

/-- A dependency on the class that the operand of an instruction stands for. -/
inductive FromOperand (decl : ClassDecl) : Reference.Identity → Prop where
  | intro {method : MethodDecl} {earlier : List Instruction} {instruction : Instruction}
      {operand : ClassOperand} {kind : ReferenceKind} {name : String}
      (hinstruction : InstructionOf decl method earlier instruction)
      (huses : BodySite.UsesOperand instruction operand.text kind)
      (hclass : operand.class? = some name) :
      FromOperand decl (.ofType (decl.methodHandle method) kind name)

/-- A dependency on what a string names, which a look-up of a class by name follows. -/
inductive FromLiteral (decl : ClassDecl) : Reference.Identity → Prop where
  | intro {method : MethodDecl} {earlier : List Instruction} {instruction load : Instruction}
      {call : CallSite} {literal : String}
      (hinstruction : InstructionOf decl method earlier instruction)
      (hcall : instruction.operation = .invoke call) (hstatic : call.kind = .static)
      (howner : qualifiedName call.owner = "java.lang.Class") (hname : call.name = "forName")
      (hload : load ∈ earlier) (hliteral : load.operation = .loadString literal) :
      FromLiteral decl (.ofType (decl.methodHandle method) .constantPoolUse
        (qualifiedName literal))

theorem FromLiteral.kind_eq {decl : ClassDecl} {identity : Reference.Identity}
    (h : FromLiteral decl identity) : identity.kind = .constantPoolUse := by
  cases h
  rfl

/-- How a dependency of a well-named class comes to name an array. -/
inductive NamesArray (known : Universe) (decl : ClassDecl) (identity : Reference.Identity) :
    Prop where
  | literal (h : FromLiteral decl identity)
  | receiver {method : MethodDecl} {earlier : List Instruction} {instruction : Instruction}
      {call : CallSite} (hinstruction : InstructionOf decl method earlier instruction)
      (hcall : instruction.operation = .invoke call) (hkind : identity.kind ∈ receiverKinds)
      (hsource : identity.source = decl.methodHandle method)
      (htype : identity.typeName = qualifiedName call.owner)
  | provider {method : MethodDecl} {provider : ClassDecl} (hmethod : method ∈ decl.methods)
      (hprovider : known.defaultProvider (.of decl) method.name method.descriptor =
        some provider)
      (hkind : identity.kind = .override) (hsource : identity.source = decl.methodHandle method)
      (htype : identity.typeName = provider.qualifiedName)

/-- A footprint that names an array only in one of these ways, and the class of an operand or
string if it is of an operand's kind; folding follows neither. -/
structure Footprint.SoundTarget (known : Universe) (decl : ClassDecl) (footprint : Footprint) :
    Prop where
  array : IsArrayName footprint.identity.typeName →
    footprint.trail ≠ .syntheticAccess ∧ NamesArray known decl footprint.identity
  operand : footprint.identity.kind ∈ operandKinds → footprint.trail ≠ .syntheticAccess ∧
    (FromOperand decl footprint.identity ∨ FromLiteral decl footprint.identity)

theorem not_mem_operandKinds {kind : ReferenceKind} (h : kind ∈ declaredKinds ++ receiverKinds) :
    kind ∉ operandKinds := by
  revert h
  cases kind <;> decide

variable {known : Universe} {decl : ClassDecl}

/-- A dependency of a declaration, which names no array. -/
theorem Footprint.SoundTarget.of_declared {draft : Draft}
    (hkind : draft.reference.kind ∈ declaredKinds)
    (hname : ¬ IsArrayName draft.reference.typeName) : draft.footprint.SoundTarget known decl where
  array := fun harray => absurd harray hname
  operand := fun hoperand =>
    absurd hoperand (not_mem_operandKinds (List.mem_append_left _ hkind))

theorem not_isArrayName_superType (hnamed : decl.WellNamed) {superType : String}
    (h : decl.superType? = some superType) : ¬ IsArrayName superType := by
  rw [ClassDecl.superType?] at h
  obtain ⟨name, hname, rfl⟩ := Option.map_eq_some_iff.mp h
  rw [isArrayName_qualifiedName]
  split at hname
  · exact hnamed.interfaces name (List.mem_of_mem_head? hname)
  · exact hnamed.superName name (Option.mem_toList.mpr hname)

/-- The override of a method names an array only if a known interface has such a name. -/
theorem soundTarget_override (hnamed : decl.WellNamed) {method : MethodDecl}
    (hmethod : method ∈ decl.methods) {reference : Reference}
    (hmem : reference ∈ (TypeSite.of known decl).overrideReferences method) :
    (Draft.ofReference reference).footprint.SoundTarget known decl := by
  obtain ⟨target, flags, rfl, ⟨-, hsuper⟩ | ⟨provider, hprovider, rfl⟩⟩ :=
    mem_overrideReferences hmem
  · refine ⟨fun harray => absurd harray (not_isArrayName_superType hnamed hsuper), ?_⟩
    intro hoperand
    exact absurd hoperand (by decide : ReferenceKind.override ∉ operandKinds)
  · refine ⟨fun _ => ⟨Trail.noConfusion, .provider hmethod hprovider rfl rfl rfl⟩, ?_⟩
    intro hoperand
    exact absurd hoperand (by decide : ReferenceKind.override ∉ operandKinds)

/-- The string that a body remembers is one that it has loaded. -/
theorem BodySite.exists_load_of_literal (site : BodySite) {state : CallState}
    {earlier : List Instruction} {literal : String}
    (h : (earlier.foldl site.after state).literal = some literal) :
    state.literal = some literal ∨
      ∃ load ∈ earlier, load.operation = .loadString literal := by
  induction earlier generalizing state with
  | nil => exact .inl h
  | cons instruction rest ih =>
      rw [List.foldl_cons] at h
      rcases ih h with hstep | ⟨load, hload, hliteral⟩
      · rw [BodySite.after] at hstep
        split at hstep
        · cases hstep
        · rename_i value hvalue
          simp only at hstep
          split at hstep
          · cases hstep
          · rw [Option.some.injEq] at hstep
            exact .inr ⟨instruction, List.mem_cons_self, hstep ▸ hvalue⟩
        · exact .inl hstep
      · exact .inr ⟨load, List.mem_cons_of_mem _ hload, hliteral⟩

section Bodies

variable {method : MethodDecl} {earlier : List Instruction} {instruction : Instruction}

/-- A reference to the receiver of a call names an array if the receiver is one. -/
theorem soundTarget_receiver (hinstruction : InstructionOf decl method earlier instruction)
    {call : CallSite} (hcall : instruction.operation = .invoke call) {draft : Draft}
    (hkind : draft.reference.kind ∈ receiverKinds) (htrail : draft.trail ≠ .syntheticAccess)
    (hsource : draft.reference.source = decl.methodHandle method)
    (htype : draft.reference.typeName = qualifiedName call.owner) :
    draft.footprint.SoundTarget known decl where
  array := fun _ => ⟨htrail, .receiver hinstruction hcall hkind hsource htype⟩
  operand := fun hoperand =>
    absurd hoperand (not_mem_operandKinds (List.mem_append_right _ hkind))

/-- A call names the string of a look-up by name, or its receiver; the receiver of the call of
a super constructor is no array. -/
theorem soundTarget_call (hnamed : decl.WellNamed)
    (hinstruction : InstructionOf decl method earlier instruction) {call : CallSite}
    (hcall : instruction.operation = .invoke call) {draft : Draft}
    (hmakes : BodySite.CallMakes (BodySite.of (TypeSite.of known decl) method)
      (earlier.foldl (BodySite.of (TypeSite.of known decl) method).after {})
      (qualifiedName call.owner) call draft) : draft.footprint.SoundTarget known decl := by
  have hreceiver : draft.reference.kind ∈ receiverKinds → draft.trail ≠ .syntheticAccess →
      draft.reference.source = decl.methodHandle method →
      draft.reference.typeName = qualifiedName call.owner →
        draft.footprint.SoundTarget known decl :=
    soundTarget_receiver hinstruction hcall
  cases hmakes with
  | literal hstatic hliteral howner hname =>
      rcases BodySite.exists_load_of_literal _ hliteral with hnone | ⟨load, hload, hvalue⟩
      · cases hnone
      · have hfrom := FromLiteral.intro hinstruction hcall hstatic howner hname hload hvalue
        exact ⟨fun _ => ⟨Trail.noConfusion, .literal hfrom⟩,
          fun _ => ⟨Trail.noConfusion, .inr hfrom⟩⟩
  | superConstructor _ _ hsuper =>
      have howner := (BodySite.isSuperCall_iff.mp hsuper).2.2
      refine ⟨fun harray => absurd harray (not_isArrayName_superType hnamed howner), ?_⟩
      intro hoperand
      exact absurd hoperand (by decide : ReferenceKind.superConstructorCall ∉ operandKinds)
  | _ =>
      exact hreceiver (by simp [receiverKinds, Reference.ofType]) Trail.noConfusion rfl rfl

/-- What an instruction of a well-named class refers to. -/
theorem soundTarget_instruction (hnamed : decl.WellNamed)
    (hinstruction : InstructionOf decl method earlier instruction) {draft : Draft}
    (hmakes : BodySite.InstructionMakes (BodySite.of (TypeSite.of known decl) method)
      (earlier.foldl (BodySite.of (TypeSite.of known decl) method).after {}) instruction draft) :
    draft.footprint.SoundTarget known decl := by
  have hinstructionNamed := hnamed.instruction hinstruction
  cases hmakes with
  | call hcall hmakes => exact soundTarget_call hnamed hinstruction hcall hmakes
  | @access use haccess =>
      have howner := hinstructionNamed.fieldOwner use haccess
      have hkind : BodySite.fieldKind use.use ∉ operandKinds := by
        cases use.use <;> decide
      refine ⟨fun harray => ?_, fun hoperand => absurd hoperand hkind⟩
      rw [Draft.footprint, BodySite.identity_fieldDraft] at harray
      exact absurd (isArrayName_qualifiedName.mp harray) howner
  | @operand text _ _ huses hclass =>
      obtain ⟨operand, rfl⟩ := hinstructionNamed.operand text huses.operand?_eq
      have hname := operandNames_text_iff.mp hclass
      exact ⟨fun harray => absurd harray (ClassOperand.not_isArrayName hname),
        fun _ => ⟨Trail.noConfusion, .inl (.intro hinstruction huses hname)⟩⟩

end Bodies

/-- Everything that a well-named class records itself has a sound target. -/
theorem Provenance.soundTarget (hnamed : decl.WellNamed) {draft : Draft}
    (h : Provenance known decl draft) : draft.footprint.SoundTarget known decl := by
  cases h with
  | mention hdeclares hmention =>
      exact .of_declared hmention.kind_mem (hmention.not_isArrayName (hnamed.declares hdeclares))
  | syntheticField hfield =>
      exact .of_declared (by decide : ReferenceKind.fieldDeclaration ∈ declaredKinds)
        (not_isArrayName_of_readFieldType (hnamed.fields _ hfield.field_mem).descriptor
          hfield.type_eq)
  | override hmethod hoverride => exact soundTarget_override hnamed hmethod hoverride
  | instruction hinstruction hmakes => exact soundTarget_instruction hnamed hinstruction hmakes

/-- Where all visited classes are well named, a delivered reference names an array only if
it names the string of a look-up by name, the receiver of a call or the known interface of a
default method; and a reference to the operand of an instruction names the class of the
elements of the operand. -/
theorem extract_targets_classes (options : ExtractOptions) (known : Universe) (root : ClassDecl)
    (references : List Reference)
    (hnamed : ∀ decl, Visited options known root decl → decl.WellNamed)
    (hextract : extract options known root = .ok references) :
    ∀ reference ∈ references, ∃ decl, Visited options known root decl ∧
      (IsArrayName reference.typeName → NamesArray known decl reference.identity) ∧
      (reference.kind ∈ operandKinds →
        FromOperand decl reference.identity ∨ FromLiteral decl reference.identity) := by
  intro reference hmem
  obtain ⟨entries, steps, -, hsteps, hunlined, rfl⟩ := exists_steps_of_extract hextract
  -- Every entry is recorded in a step, and its target is sound for the class of the step.
  have hsound : ∀ entry ∈ entries.toList, ∃ decl, Visited options known root decl ∧
      entry.footprint.SoundTarget known decl := by
    intro entry hentry
    obtain ⟨record, hrecord, hsame⟩ := exists_record_of_mem hunlined hentry
    obtain ⟨step, hstep, hrecord⟩ := List.mem_flatMap.mp hrecord
    have hvisited : Visited options known root step.decl :=
      Visited.of_mem_steps ∅ .root hsteps hstep
    have hfootprint : record.draft.footprint = entry.footprint := congrArg Entry.footprint hsame
    exact ⟨step.decl, hvisited,
      hfootprint ▸ (VisitStep.provenance hrecord).soundTarget (hnamed step.decl hvisited)⟩
  obtain ⟨kept, hkept, hretained, rfl⟩ := exists_of_mem_delivered hmem
  rcases mem_foldAccessors hkept hretained with
    ⟨hentry, -⟩ | ⟨access, haccess, call, -, hreaches, rfl⟩
  · obtain ⟨decl, hvisited, htarget⟩ := hsound kept hentry
    exact ⟨decl, hvisited, fun harray => (htarget.array harray).2,
      fun hoperand => (htarget.operand hoperand).2⟩
  · -- The use that an accessor call stands for has the target and the kind of the use by the
    -- accessor.
    obtain ⟨decl, hvisited, htarget⟩ := hsound access haccess
    exact ⟨decl, hvisited,
      fun harray => absurd hreaches.access_trail (htarget.array harray).1,
      fun hoperand => absurd hreaches.access_trail (htarget.operand hoperand).1⟩

/-! A class that casts to an array and calls a method of another. -/

theorem Universe.callsDefault_unknown {known : Universe} {call : CallSite}
    (h : known.lookup (qualifiedName call.owner) = none) : known.callsDefault call = false := by
  have hfind : known.find? (qualifiedName call.owner) = none := by
    simpa [Universe.lookup] using h
  simp [Universe.callsDefault, Universe.findMethod, hfind]

/-- The operand of the cast, an array of arrays of a class. -/
def castOperand : ClassOperand :=
  .array ⟨2, .object ⟨['b', '/', 'B'], by decide, by simp⟩, by decide⟩ (by decide)

def cloneSite : CallSite := ⟨"[I", "clone", "()Ljava/lang/Object;", .virtual⟩

def cloner : PlainMethod where
  name := "m"
  instructions :=
    [⟨0, Opcode.checkcast, .onType "[[Lb/B;"⟩, ⟨4, Opcode.invokeVirtual, .invoke cloneSite⟩]

def cloningClass : ClassDecl := plainClass "a/A" [cloner]

/-- The reference to the class of the elements. -/
def castUse : Reference :=
  Reference.ofType (cloningClass.methodHandle cloner.decl) "b.B" .checkcast

/-- The reference to the receiver. -/
def cloneCall : Reference :=
  Reference.ofMethod (cloningClass.methodHandle cloner.decl) "[I" "clone"
    "()Ljava/lang/Object;" .virtualCall 0

theorem extract_cloningClass :
    extract {} (.ofList []) cloningClass = .ok [castUse, cloneCall] := by
  let type := TypeSite.of (.ofList []) cloningClass
  let body := BodySite.of type cloner.decl
  have hoperand : classOperand? "[[Lb/B;" = some "b.B" := by decide +kernel
  have howner : qualifiedName "[I" = "[I" := by decide +kernel
  have hunknown : (Universe.ofList []).callsDefault cloneSite = false :=
    Universe.callsDefault_unknown (by rw [Universe.lookup_ofList]; rfl)
  have hflags : body.virtualFlags cloneSite = 0 := by
    have hknown : body.type.known.callsDefault cloneSite = false := hunknown
    simp [BodySite.virtualFlags, hknown]
  have hcast : body.operandDrafts "[[Lb/B;" .checkcast = [.ofReference castUse] := by
    rw [BodySite.operandDrafts, Table.get_eq, hoperand]
    rfl
  have hcall : body.callDrafts {} (qualifiedName "[I") cloneSite = [.ofReference cloneCall] := by
    rw [howner]
    change [Draft.ofReference (body.callReference "[I" cloneSite .virtualCall
      (body.virtualFlags cloneSite))] = _
    rw [hflags]
    rfl
  have hdrafts : cloner.drafts type = [.ofReference castUse, .ofReference cloneCall] := by
    change body.operandDrafts "[[Lb/B;" .checkcast ++
      (body.callDrafts {} (body.qualified "[I") cloneSite ++ []) = _
    rw [BodySite.qualified_eq, hcast, hcall]
    rfl
  have hreferences : [cloner].flatMap (fun method => method.drafts type) =
      [castUse, cloneCall].map Draft.ofReference := by
    rw [List.flatMap_singleton, hdrafts]
    rfl
  rw [cloningClass, extract_plainClass {} _ "a/A" hreferences, distinctBy_eq_distinctAfter]
  decide +kernel

/-- A class of instructions only is well named if its instructions are. -/
theorem plainClass_wellNamed {name : String} {methods : List PlainMethod}
    (h : ∀ method ∈ methods, ∀ instruction ∈ method.instructions, instruction.WellNamed) :
    (plainClass name methods).WellNamed where
  superName := by simp [PlainNames, plainClass]
  interfaces := by simp [PlainNames, plainClass]
  signature := by simp [plainClass]
  annotations := by simp [PlainNames, plainClass]
  fields := by simp [plainClass]
  methods := by
    intro decl hdecl
    obtain ⟨method, hmethod, rfl⟩ := List.mem_map.mp hdecl
    have hcode : method.code.WellNamed := by
      refine ⟨?_, h method hmethod, ?_⟩
      · simp [PlainNames, PlainMethod.code]
      · simp [PlainMethod.code]
    refine ⟨⟨⟨[], none⟩, (by decide : MethodType.text ⟨[], none⟩ = "()V")⟩, ?_, ?_, ?_, ?_⟩
    · simp [PlainMethod.decl]
    · simp [PlainNames, PlainMethod.decl]
    · simp [PlainNames, PlainMethod.decl]
    · simpa [PlainMethod.decl] using hcode

theorem cloningClass_wellNamed : cloningClass.WellNamed := by
  apply plainClass_wellNamed
  intro method hmethod instruction hmem
  rw [List.mem_singleton.mp hmethod] at hmem
  simp only [cloner, List.mem_cons, List.not_mem_nil, or_false] at hmem
  rcases hmem with rfl | rfl
  · constructor
    · intro use huse
      cases huse
    · intro text htext
      cases htext
      exact ⟨castOperand, by decide⟩
  · constructor
    · intro use huse
      cases huse
    · intro text htext
      cases htext

/-- The cast names the class of the elements. -/
theorem extract_cloningClass_targets :
    ∃ references, extract {} (.ofList []) cloningClass = .ok references ∧
      castUse ∈ references ∧ FromOperand cloningClass castUse.identity ∧
      cloneCall ∈ references ∧ NamesArray (.ofList []) cloningClass cloneCall.identity := by
  have hvisited : ∀ decl, Visited {} (.ofList []) cloningClass decl → decl = cloningClass :=
    fun decl => Visited.eq_root (ClassDecl.children_eq_nil _ rfl)
  have htargets := extract_targets_classes {} (.ofList []) cloningClass _
    (fun decl h => hvisited decl h ▸ cloningClass_wellNamed) extract_cloningClass
  obtain ⟨decl, hdecl, -, hcast⟩ := htargets castUse (by simp)
  obtain ⟨other, hother, hcall, -⟩ := htargets cloneCall (by simp)
  rw [hvisited decl hdecl] at hcast
  rw [hvisited other hother] at hcall
  refine ⟨_, extract_cloningClass, by simp, ?_, by simp, hcall (by decide)⟩
  rcases hcast (by decide) with hoperand | hliteral
  · exact hoperand
  · -- A cast is not the use of a constant.
    exact absurd hliteral.kind_eq (by decide)

/-- The class is well named, but the reference to the receiver names an array. -/
theorem extract_cloningClass_names_array :
    (∀ decl, Visited {} (.ofList []) cloningClass decl → decl.WellNamed) ∧
      ∃ references, extract {} (.ofList []) cloningClass = .ok references ∧
        ∃ reference ∈ references, reference.kind = .virtualCall ∧
          IsArrayName reference.typeName := by
  refine ⟨?_, _, extract_cloningClass, cloneCall, by simp, rfl, by decide⟩
  intro decl h
  rw [Visited.eq_root (ClassDecl.children_eq_nil _ rfl) h]
  exact cloningClass_wellNamed

end Linkage
