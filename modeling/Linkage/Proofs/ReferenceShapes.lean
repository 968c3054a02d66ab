import Linkage.Proofs.AccessorCalls
import Linkage.Proofs.Pruning
/-
Shapes of references.  A dependency on a type has no member, one on a field has the name
of the field and no signature, and one on a method has a name and a descriptor.  All
drafts have the shape of their kind.  Folding keeps the shape of the uses of fields by
methods; where it folds the declaration of a synthetic field, the dependency of the
caller is one on a type, but has an empty member name.
-/

namespace Linkage

/-- A dependency has the members that its kind asks for. -/
structure Reference.Identity.HasShape (identity : Reference.Identity) : Prop where
  type : identity.kind.target = .type → identity.memberName = none
  field : identity.kind.target = .field →
    (∃ name, name ≠ "" ∧ identity.memberName = some name) ∧ identity.signature = none
  method : identity.kind.target = .method →
    ∃ name descriptor, identity.memberName = some name ∧ identity.signature = some descriptor

namespace Reference.Identity.HasShape

theorem of_type {identity : Reference.Identity} (hkind : identity.kind.target = .type)
    (hname : identity.memberName = none) : identity.HasShape where
  type := fun _ => hname
  field := fun hfield => by cases hkind.symm.trans hfield
  method := fun hmethod => by cases hkind.symm.trans hmethod

theorem of_field {identity : Reference.Identity} {name : String}
    (hkind : identity.kind.target = .field) (hname : identity.memberName = some name)
    (hnonempty : name ≠ "") (hsignature : identity.signature = none) : identity.HasShape where
  type := fun htype => by cases hkind.symm.trans htype
  field := fun _ => ⟨⟨name, hnonempty, hname⟩, hsignature⟩
  method := fun hmethod => by cases hkind.symm.trans hmethod

theorem of_method {identity : Reference.Identity} {name descriptor : String}
    (hkind : identity.kind.target = .method) (hname : identity.memberName = some name)
    (hsignature : identity.signature = some descriptor) : identity.HasShape where
  type := fun htype => by cases hkind.symm.trans htype
  field := fun hfield => by cases hkind.symm.trans hfield
  method := fun _ => ⟨name, descriptor, hname, hsignature⟩

end Reference.Identity.HasShape

/-- Every use of a field in the bodies of a class names the field. -/
def ClassDecl.NamesFields (decl : ClassDecl) : Prop :=
  ∀ method ∈ decl.methods, ∀ use ∈ method.fieldUses, use.name ≠ ""

/-- The declaration of a synthetic field, made by a method that calls a static method with
the class and the name of the field. -/
inductive DeclaredByCall (options : ExtractOptions) (known : Universe) (root : ClassDecl) :
    Reference.Identity → Prop where
  | intro {decl caller : ClassDecl} {field : FieldDecl} {typeName : String}
      {call : Reference.Identity} (hdecl : Visited options known root decl)
      (hfield : SyntheticFieldOf decl field typeName)
      (hcaller : Visited options known root caller) (hcall : call ∈ caller.staticCallsMade)
      (hpoints : call.PointsAt (.field decl.qualifiedName field.name)) :
      DeclaredByCall options known root
        { kind := .fieldDeclaration, source := call.source, typeName := typeName,
          memberName := some "", signature := none }

theorem DeclaredByCall.kind_eq {options : ExtractOptions} {known : Universe} {root : ClassDecl}
    {identity : Reference.Identity} (h : DeclaredByCall options known root identity) :
    identity.kind = .fieldDeclaration := by
  cases h
  rfl

/-- What is declared by a call points at a type, but has a member name. -/
theorem DeclaredByCall.not_hasShape {options : ExtractOptions} {known : Universe}
    {root : ClassDecl} {identity : Reference.Identity}
    (h : DeclaredByCall options known root identity) : ¬ identity.HasShape := by
  intro hshape
  cases h with
  | intro => cases hshape.type rfl

variable {known : Universe} {decl : ClassDecl} {method : MethodDecl}

/-! Shapes of drafts. -/

theorem hasShape_callReference (site : BodySite) (owner : String) (call : CallSite)
    {kind : ReferenceKind} (flags : UInt32) (hkind : kind.target = .method) :
    (site.callReference owner call kind flags).identity.HasShape :=
  .of_method hkind rfl rfl

theorem BodySite.CallMakes.hasShape {site : BodySite} {state : CallState} {owner : String}
    {call : CallSite} {draft : Draft} (h : CallMakes site state owner call draft) :
    draft.reference.identity.HasShape := by
  cases h with
  | literal _ _ _ _ => exact .of_type rfl rfl
  | instantiate _ _ _ => exact .of_type rfl rfl
  | _ => exact hasShape_callReference _ _ _ _ rfl

theorem hasShape_ofField {source : MemberHandle} {use : FieldSite} (hname : use.name ≠ "") :
    (Reference.Identity.ofField source (BodySite.fieldKind use.use) use).HasShape :=
  .of_field (by cases use.use <;> rfl) rfl hname rfl

/-- What an instruction refers to has the shape of its kind, if uses of fields name them. -/
theorem BodySite.InstructionMakes.hasShape {site : BodySite} {state : CallState}
    {instruction : Instruction} {draft : Draft}
    (hnamed : ∀ use ∈ instruction.fieldUse?, use.name ≠ "")
    (h : InstructionMakes site state instruction draft) :
    draft.reference.identity.HasShape := by
  cases h with
  | call _ hmakes => exact hmakes.hasShape
  | @access use haccess =>
      have huse : use ∈ instruction.fieldUse? := by simp [Instruction.fieldUse?, haccess]
      rw [BodySite.identity_fieldDraft]
      exact hasShape_ofField (hnamed use huse)
  | operand huses _ => exact .of_type huses.target_eq rfl

/-- Everything that a class records itself has the shape of its kind. -/
theorem Provenance.hasShape (hnamed : decl.NamesFields) {draft : Draft}
    (h : Provenance known decl draft) : draft.reference.identity.HasShape := by
  cases h with
  | mention _ hmention =>
      exact .of_type (target_of_mem_declaredKinds hmention.kind_mem) hmention.memberName_eq
  | syntheticField _ => exact .of_type rfl rfl
  | override _ hoverride =>
      obtain ⟨target, flags, rfl, -⟩ := mem_overrideReferences hoverride
      exact .of_method rfl rfl rfl
  | instruction hinstruction hmakes =>
      apply hmakes.hasShape
      intro use huse
      exact hnamed _ hinstruction.method_mem use
        (List.mem_filterMap.mpr ⟨_, hinstruction.mem_instructions, huse⟩)

/-! Shapes of direct uses. -/

/-- A static call that a class records is made by one of its methods. -/
theorem DraftOrigin.mem_staticCallsMade {draft : Draft} (h : DraftOrigin decl draft)
    (htrail : draft.trail = .staticCall) :
    draft.reference.identity ∈ decl.staticCallsMade := by
  cases h with
  | instruction hinstruction hprescribes hbody =>
      rw [hbody] at htrail
      have hcall := hinstruction.staticCall hprescribes (bodyTrail_eq_staticCall_iff.mp htrail)
      exact List.mem_flatMap.mpr ⟨_, hinstruction.method_mem, hcall⟩
  | syntheticField _ hdraft => simp [hdraft, syntheticFieldDraft] at htrail
  | other hplain _ => simp [hplain] at htrail

/-- What the caller of a synthetic member uses directly has the shape of its kind, unless the
member is a field. -/
theorem hasShape_directIdentity {options : ExtractOptions} {root caller : ClassDecl}
    {access call : Draft} (hnamed : decl.NamesFields)
    (hdecl : Visited options known root decl) (haccess : DraftOrigin decl access)
    (hcaller : Visited options known root caller) (hcall : DraftOrigin caller call)
    (hreaches : call.footprint.Reaches access.footprint) :
    (access.footprint.directIdentity call.footprint).HasShape ∨
      DeclaredByCall options known root (access.footprint.directIdentity call.footprint) := by
  have htrail : access.trail = .syntheticAccess := hreaches.access_trail
  cases haccess with
  | @instruction method _ _ hinstruction hprescribes hbody =>
      left
      rw [hbody] at htrail
      obtain ⟨-, htarget⟩ := bodyTrail_eq_syntheticAccess_iff.mp htrail
      obtain ⟨use, huse, hidentity⟩ := hinstruction.fieldUse hprescribes htarget
      refine .of_field htarget ?_ (hnamed method hinstruction.method_mem use huse) rfl
      rw [Draft.footprint, hidentity]
      rfl
  | syntheticField hfield hdraft =>
      right
      subst hdraft
      exact .intro hdecl hfield hcaller (hcall.mem_staticCallsMade hreaches.call_trail)
        hreaches.points_at
  | other hplain _ => simp [hplain] at htrail

/-- Where the bodies of all visited classes name the fields that they use, the delivered
references have the shape of their kind, except for those that declare a synthetic field by
calling a static method of the same class and name. -/
theorem extract_shapes (options : ExtractOptions) (known : Universe) (root : ClassDecl)
    (references : List Reference)
    (hnamed : ∀ decl, Visited options known root decl → decl.NamesFields)
    (hextract : extract options known root = .ok references) :
    ∀ reference ∈ references, reference.identity.HasShape ↔
      ¬ DeclaredByCall options known root reference.identity := by
  intro reference hmem
  refine ⟨fun hshape hdeclared => hdeclared.not_hasShape hshape, fun hother => ?_⟩
  obtain ⟨entries, steps, -, hsteps, hunlined, rfl⟩ := exists_steps_of_extract hextract
  obtain ⟨kept, hkept, hretained, rfl⟩ := exists_of_mem_delivered hmem
  rcases mem_foldAccessors hkept hretained with
    ⟨hentry, -⟩ | ⟨access, haccess, call, hcall, hreaches, rfl⟩
  · obtain ⟨decl, draft, hvisited, hmade, hfootprint⟩ :=
      exists_provenance_of_mem hsteps hunlined hentry
    have hidentity : draft.reference.identity = kept.reference.identity :=
      congrArg Footprint.identity hfootprint
    exact hidentity ▸ hmade.hasShape (hnamed decl hvisited)
  · obtain ⟨decl, accessDraft, hdecl, hmade, hfootprint⟩ :=
      exists_provenance_of_mem hsteps hunlined haccess
    obtain ⟨caller, callDraft, hcaller, hcallMade, hcallFootprint⟩ :=
      exists_provenance_of_mem hsteps hunlined hcall
    rw [← hfootprint, ← hcallFootprint] at hreaches
    have hdirect := hasShape_directIdentity (hnamed decl hdecl) hdecl hmade.origin hcaller
      hcallMade.origin hreaches
    rw [hfootprint, hcallFootprint] at hdirect
    exact hdirect.resolve_right hother

/-! A class with a synthetic field and a static call of the same name. -/

/-- Extraction that asks for everything delivers what is declared by a call. -/
theorem exists_reference_of_declaredByCall {root : ClassDecl} {references : List Reference}
    (hacyclic : AcyclicNesting known) (hextract : extract .full known root = .ok references)
    {identity : Reference.Identity} (h : DeclaredByCall .full known root identity) :
    ∃ reference ∈ references, reference.identity = identity := by
  obtain ⟨found, hfound, hiff⟩ := exists_extracted_iff hextract
  rw [hiff]
  right
  cases h with
  | intro hdecl hfield hcaller hcall hpoints =>
      obtain ⟨method, hmethod, hcall⟩ := List.mem_flatMap.mp hcall
      obtain ⟨site, hsite, rfl⟩ := List.mem_map.mp hcall
      obtain ⟨earlier, instruction, hinstruction, hprescribes⟩ :=
        exists_instructionOf_staticCall hmethod hsite
      have hprescribed : Prescribed known root method _ :=
        ⟨_, earlier, instruction, hcaller, hinstruction, hprescribes⟩
      exact ⟨_, hfield.footprint_mem hacyclic hfound hdecl, _,
        hprescribed.footprint_mem hacyclic hfound, ⟨rfl, rfl, hpoints⟩, rfl⟩

def declaringField : FieldDecl where
  name := "f"
  descriptor := "Lb/B;"
  access := { isSynthetic := true }

def declaringCaller : PlainMethod where
  name := "m"
  instructions :=
    [⟨0, Opcode.getField, .access ⟨"a/A", "x", "I", .get⟩⟩,
      ⟨4, Opcode.invokeStatic, .invoke ⟨"a/A", "f", "()V", .static⟩⟩]

def declaringClass : ClassDecl :=
  { plainClass "a/A" [declaringCaller] with fields := [declaringField] }

/-- The declaration of the field by the method. -/
def declaringUse : Reference.Identity where
  kind := .fieldDeclaration
  source := declaringClass.methodHandle declaringCaller.decl
  typeName := "b.B"
  memberName := some ""
  signature := none

theorem exists_extract_declaringClass :
    ∃ references, extract .full (.ofList []) declaringClass = .ok references := by
  have htype : readFieldType "Lb/B;" = .ok (some "b.B") := by cbv
  rw [extract_eq_ok_iff]
  cases h : (TypeTree.of (.ofList []) declaringClass).records (.ofList []) with
  | ok found => exact ⟨found, rfl⟩
  | error error =>
      exfalso
      simp [TypeTree.of, TypeTree.records, TypeSite.headerDrafts, TypeSite.headerReferences,
        TypeSite.fieldsDrafts, TypeSite.fieldDrafts, TypeSite.fieldTypeDrafts,
        TypeSite.methodsDrafts, TypeSite.methodDrafts, TypeSite.methodReferences,
        TypeSite.methodHeaderReferences, TypeSite.methodTypeReferences, BodySite.bodyDrafts,
        localReferences, MethodDecl.body?, declaringClass, declaringField, plainClass,
        PlainMethod.decl, PlainMethod.code, declaringCaller, htype, readMethodTypes_noArguments,
        bind, Except.bind, pure, Except.pure] at h

theorem visited_declaringClass {decl : ClassDecl}
    (h : Visited .full (.ofList []) declaringClass decl) : decl = declaringClass :=
  Visited.eq_root (declaringClass.children_eq_nil rfl) h

theorem namesFields_declaringClass : declaringClass.NamesFields := by
  unfold ClassDecl.NamesFields
  decide

theorem declaredByCall_declaringUse :
    DeclaredByCall .full (.ofList []) declaringClass declaringUse := by
  have hfield : SyntheticFieldOf declaringClass declaringField "b.B" :=
    ⟨List.mem_singleton_self _, rfl, by cbv⟩
  have hcall : Reference.Identity.ofCall declaringUse.source .staticCall
      ⟨"a/A", "f", "()V", .static⟩ ∈ declaringClass.staticCallsMade := List.mem_singleton_self _
  exact .intro .root hfield .root hcall ⟨rfl, rfl⟩

/-- All references but the declaration of the field by the method have their shape. -/
theorem extract_shapes_declaringClass :
    ∃ references, extract .full (.ofList []) declaringClass = .ok references ∧
      (∀ decl, Visited .full (.ofList []) declaringClass decl → decl.NamesFields) ∧
      ∀ reference ∈ references, reference.kind ≠ .fieldDeclaration →
        reference.identity.HasShape := by
  obtain ⟨references, hextract⟩ := exists_extract_declaringClass
  have hnamed : ∀ decl, Visited .full (.ofList []) declaringClass decl → decl.NamesFields :=
    fun decl h => visited_declaringClass h ▸ namesFields_declaringClass
  refine ⟨references, hextract, hnamed, ?_⟩
  intro reference hmem hkind
  rw [extract_shapes .full _ declaringClass references hnamed hextract reference hmem]
  exact fun hdeclared => hkind hdeclared.kind_eq

/-- The declaration of the field by the method points at a type, but has a member name. -/
theorem extract_declaringClass_misshapes :
    (∀ decl, Visited .full (.ofList []) declaringClass decl → decl.NamesFields) ∧
      ∃ references, extract .full (.ofList []) declaringClass = .ok references ∧
        ∃ reference ∈ references, reference.target = .type ∧ reference.memberName = some "" := by
  obtain ⟨references, hextract⟩ := exists_extract_declaringClass
  obtain ⟨reference, hmem, hidentity⟩ := exists_reference_of_declaredByCall acyclicNesting_empty
    hextract declaredByCall_declaringUse
  refine ⟨fun decl h => visited_declaringClass h ▸ namesFields_declaringClass, references,
    hextract, reference, hmem, ?_, ?_⟩
  · exact congrArg (fun identity => identity.kind.target) hidentity
  · exact congrArg Reference.Identity.memberName hidentity

end Linkage
