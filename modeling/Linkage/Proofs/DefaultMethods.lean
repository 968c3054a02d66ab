import Linkage.Proofs.Folding
import Linkage.Proofs.MethodDispatch
import Linkage.Proofs.Origins
import Linkage.Proofs.Visits
import Linkage.Resolution
/-
Default methods.  Extraction flags overrides and virtual calls that reach a default
method; resolution looks for the method again, with a gate of its own: only an
abstract owner, or an interface, falls back on interfaces.  A flagged reference is
resolved to the default method, except that a virtual call on any other owner that
merely inherits the method is not.
-/

namespace Linkage

/-- A virtual call whose method takes the descriptor of the call. -/
def PolymorphicCall (known : Universe) (owner name : String) : Prop :=
  owner ∈ Resolution.polymorphicOwners ∧ ∃ decl, known.lookup owner = some decl ∧
    ∃ method ∈ decl.methods, method.name = name ∧ method.isSignaturePolymorphic = true

/-- Why a reference is flagged as one to a default method, and what resolution makes of
it. -/
inductive FlaggedOutcome (known : Universe) (reference : Reference)
    (name descriptor : String) : Prop where
  /-- An override names the interface that provides the default method. -/
  | override (provider : ClassDecl) (method : MethodDecl)
      (hkind : reference.kind = .override)
      (hprovider : reference.typeName = provider.qualifiedName)
      (hinterface : ∃ sub, DeclaresInterface known sub provider)
      (hmethod : provider.findMethod name descriptor = some method)
      (hdefault : method.isDefault = true)
      (houtcome : method.access.isSynthetic = false →
        Resolution.outcome known reference =
          .found (.method provider.qualifiedName name descriptor))
  /-- A virtual call denotes a default method of an interface. -/
  | call (hit : FoundMethod)
      (hkind : reference.kind = .virtualCall)
      (hhit : known.findMethod .virtualCall reference.typeName name descriptor = some hit)
      (hinterface : hit.owner.access.isInterface = true)
      (hdefault : hit.method.isDefault = true)
      (hplain : ¬ PolymorphicCall known reference.typeName name)
      (houtcome : hit.method.access.isSynthetic = false →
        Resolution.outcome known reference =
          .found (.method hit.owner.qualifiedName name descriptor))
  /-- The owner of a virtual call inherits a default method but is not an open type, and no
  class of its path declares the method. -/
  | closedOwner (hit : FoundMethod) (path : List ClassDecl)
      (hkind : reference.kind = .virtualCall)
      (hclosed : ¬ IsOpenType known reference.typeName)
      (hpath : IsClassPath known reference.typeName path)
      (hlacks : ∀ type ∈ path, ¬ type.Declares name descriptor)
      (hinherited : InterfaceDeclaration known path name descriptor hit)
      (hdefault : hit.method.isDefault = true)
      (hplain : ¬ PolymorphicCall known reference.typeName name)
      (houtcome : Resolution.outcome known reference = .notFound)
  /-- A call that takes any descriptor is resolved to its owner. -/
  | polymorphic
      (hkind : reference.kind = .virtualCall)
      (hcall : PolymorphicCall known reference.typeName name)
      (houtcome : Resolution.outcome known reference =
        .found (.method reference.typeName name descriptor))

/-! Providers of default methods. -/

theorem DeclaresInterface.lookup_eq {known : Universe} {sub super : ClassDecl}
    (h : DeclaresInterface known sub super) : known.lookup super.qualifiedName = some super := by
  obtain ⟨name, -, hname⟩ := h
  rw [Universe.lookup_name hname]
  exact hname

theorem SuperInterface.exists_declares {known : Universe} {sub super : ClassDecl}
    (h : SuperInterface known sub super) : ∃ other, DeclaresInterface known other super := by
  cases h with
  | single hdeclares => exact ⟨_, hdeclares⟩
  | tail _ hdeclares => exact ⟨_, hdeclares⟩

namespace Universe

variable {known : Universe} {name descriptor : String}

/-- The provider declares the default method as an interface of the classes from the type
upwards, and no proper super class declares it. -/
theorem defaultProvider_eq_some {type : IndexedClass} {provider : ClassDecl}
    (h : known.defaultProvider type name descriptor = some provider) :
    declaredIn (known.properSuperClasses type) name descriptor = none ∧
      ∃ method, known.searchInterfaces name descriptor ∅
          ((known.superClassPath type).flatMap IndexedClass.interfaces) =
            some ⟨provider, method⟩ ∧ method.isDefault = true := by
  rw [defaultProvider] at h
  split at h
  · cases h
  · rename_i hsupers
    split at h
    · rename_i found hfound
      split at h
      · rename_i hdefault
        rw [Option.some.injEq] at h
        subst h
        exact ⟨hsupers, found.method, hfound, hdefault⟩
      · cases h
    · cases h

theorem callsDefault_eq_true {call : CallSite} (h : known.callsDefault call = true) :
    (∃ hit, known.findMethod .virtualCall (qualifiedName call.owner) call.name
        call.descriptor = some hit ∧
      hit.owner.access.isInterface = true ∧ hit.method.isDefault = true) ∨
    (known.findMethod .virtualCall (qualifiedName call.owner) call.name call.descriptor =
        none ∧
      ∃ type provider, known.find? (qualifiedName call.owner) = some type ∧
        known.defaultProvider type call.name call.descriptor = some provider) := by
  rw [callsDefault] at h
  split at h
  · rename_i hit hhit
    exact .inl ⟨hit, hhit, Bool.and_eq_true_iff.mp h⟩
  · rename_i hnone
    split at h
    · cases h
    · rename_i type htype
      obtain ⟨provider, hprovider⟩ := Option.isSome_iff_exists.mp h
      exact .inr ⟨hnone, type, provider, htype, hprovider⟩

end Universe

/-! Resolution of method references. -/

namespace Resolution

variable {known : Universe} {owner name descriptor : String}

theorem polymorphicTarget_eq_some (h : PolymorphicCall known owner name) (descriptor : String) :
    polymorphicTarget known .virtualCall owner name descriptor =
      some (.method owner name descriptor) := by
  obtain ⟨howner, decl, hdecl, method, hmethod, hname, hpolymorphic⟩ := h
  have hany : decl.methods.any
      (fun method => method.name = name && method.isSignaturePolymorphic) = true :=
    List.any_eq_true.mpr ⟨method, hmethod, by simp [hname, hpolymorphic]⟩
  simp only [polymorphicTarget, howner, hdecl, hany, and_self, if_true]

theorem polymorphicTarget_eq_none {kind : ReferenceKind}
    (h : kind ≠ .virtualCall ∨ ¬ PolymorphicCall known owner name) (descriptor : String) :
    polymorphicTarget known kind owner name descriptor = none := by
  rw [polymorphicTarget]
  split
  · rename_i hcall
    split
    · rfl
    · rename_i decl hdecl
      split
      · rename_i hany
        obtain ⟨method, hmethod, hfits⟩ := List.any_eq_true.mp hany
        simp only [Bool.and_eq_true, decide_eq_true_eq] at hfits
        rcases h with hkind | hplain
        · exact absurd hcall.1 hkind
        · exact absurd ⟨hcall.2, decl, hdecl, method, hmethod, hfits.1, hfits.2⟩ hplain
      · rfl
  · rfl

/-- A resolvable reference to a method. -/
structure OfMethod (reference : Reference) (name descriptor : String) : Prop where
  resolvable : reference.resolvable = true
  target_eq : reference.target = .method
  memberName_eq : reference.memberName = some name
  signature_eq : reference.signature = some descriptor

namespace OfMethod

variable {reference : Reference} (h : OfMethod reference name descriptor)

include h

theorem outcome_polymorphic (hkind : reference.kind = .virtualCall)
    (hcall : PolymorphicCall known reference.typeName name) :
    outcome known reference = .found (.method reference.typeName name descriptor) := by
  simp only [outcome, h.resolvable, if_true, target, h.target_eq, h.memberName_eq,
    h.signature_eq, methodTarget, hkind, polymorphicTarget_eq_some hcall descriptor]

theorem outcome_notFound
    (hplain : reference.kind ≠ .virtualCall ∨ ¬ PolymorphicCall known reference.typeName name)
    (hnone : known.findMethod reference.kind reference.typeName name descriptor = none) :
    outcome known reference = .notFound := by
  simp only [outcome, h.resolvable, if_true, target, h.target_eq, h.memberName_eq,
    h.signature_eq, methodTarget, polymorphicTarget_eq_none hplain descriptor, hnone]

theorem outcome_found
    (hplain : reference.kind ≠ .virtualCall ∨ ¬ PolymorphicCall known reference.typeName name)
    {hit : FoundMethod}
    (hhit : known.findMethod reference.kind reference.typeName name descriptor = some hit)
    (hmethod : hit.owner.findMethod name descriptor = some hit.method)
    (hsynthetic : hit.method.access.isSynthetic = false) :
    outcome known reference = .found (.method hit.owner.qualifiedName name descriptor) := by
  obtain ⟨hname, hdescriptor⟩ := ClassDecl.findMethod_name hmethod
  simp only [outcome, h.resolvable, if_true, target, h.target_eq, h.memberName_eq,
    h.signature_eq, methodTarget, polymorphicTarget_eq_none hplain descriptor, hhit, hsynthetic,
    Bool.false_eq_true, if_false, hname, hdescriptor]

end OfMethod

theorem ofMethod_atLine (source : MemberHandle) (owner name descriptor : String)
    {kind : ReferenceKind} (hkind : kind.target = .method) (flags : UInt32) (line : Int) :
    OfMethod ((Reference.ofMethod source owner name descriptor kind flags).atLine line)
      name descriptor :=
  ⟨rfl, hkind, rfl, rfl⟩

end Resolution

/-! What becomes of flagged references. -/

variable {known : Universe} {name descriptor : String}

theorem Universe.declaredIn_declares {classes : List IndexedClass} {hit : FoundMethod}
    (h : declaredIn classes name descriptor = some hit) :
    hit.owner.findMethod name descriptor = some hit.method := by
  obtain ⟨_, _, -, -, hmethod⟩ := declaredIn_eq_some_iff.mp h
  exact hmethod

/-- What a call other than an interface call denotes is a declaration of its method. -/
theorem Universe.findClassMethod_declares {start : IndexedClass} {hit : FoundMethod}
    (h : known.findClassMethod start name descriptor = some hit) :
    hit.owner.findMethod name descriptor = some hit.method := by
  rw [findClassMethod] at h
  split at h
  · rename_i found hfound
    rw [← Option.some.inj h]
    exact declaredIn_declares hfound
  · split at h
    · exact (searchInterfaces_sound h).2
    · cases h

/-- The override of an inherited default method is resolved to the provider. -/
theorem flaggedOutcome_override {type provider : ClassDecl}
    (hprovider : known.defaultProvider (.of type) name descriptor = some provider)
    (source : MemberHandle) (flags : UInt32) (line : Int) :
    FlaggedOutcome known
      ((Reference.ofMethod source provider.qualifiedName name descriptor .override flags).atLine
        line) name descriptor := by
  obtain ⟨-, method, hsearch, hdefault⟩ := Universe.defaultProvider_eq_some hprovider
  obtain ⟨⟨sub, -, hsuper⟩, hmethod⟩ :=
    Universe.searchInterfaces_interfaceDeclaration hsearch
  obtain ⟨other, hdeclares⟩ := hsuper.exists_declares
  obtain ⟨start, hstart, hdecl⟩ := Universe.lookup_eq_some_iff.mp hdeclares.lookup_eq
  have hnearest : NearestDeclaration ((known.superClassPath start).map IndexedClass.decl)
      name descriptor ⟨provider, method⟩ :=
    ⟨[], _, by rw [Universe.superClassPath, List.map_cons, hdecl]; rfl, by simp, hmethod⟩
  have hfound : known.findMethod .override provider.qualifiedName name descriptor =
      some ⟨provider, method⟩ := by
    have hlaw := Universe.findClassMethod_law name descriptor hstart
    simpa [Universe.findMethod, hstart] using hlaw.nearest _ hnearest
  refine .override provider method rfl rfl ⟨other, hdeclares⟩ hmethod hdefault ?_
  exact (Resolution.ofMethod_atLine source provider.qualifiedName name descriptor rfl flags
    line).outcome_found (.inl ReferenceKind.noConfusion) hfound hmethod

/-- A virtual call that reaches a default method is resolved to it, unless its owner is not
an open type and only inherits the method. -/
theorem flaggedOutcome_call {call : CallSite} (hcalls : known.callsDefault call = true)
    (source : MemberHandle) (flags : UInt32) (line : Int) :
    FlaggedOutcome known
      ((Reference.ofMethod source (qualifiedName call.owner) call.name call.descriptor
        .virtualCall flags).atLine line) call.name call.descriptor := by
  have hmethod := Resolution.ofMethod_atLine source (qualifiedName call.owner) call.name
    call.descriptor (rfl : ReferenceKind.virtualCall.target = .method) flags line
  by_cases hpolymorphic : PolymorphicCall known (qualifiedName call.owner) call.name
  · exact .polymorphic rfl hpolymorphic (hmethod.outcome_polymorphic rfl hpolymorphic)
  · rcases Universe.callsDefault_eq_true hcalls with
      ⟨hit, hhit, hinterface, hdefault⟩ | ⟨hnone, type, provider, htype, hprovider⟩
    · refine .call hit rfl hhit hinterface hdefault hpolymorphic ?_
      have hclass : known.findMethod .virtualCall (qualifiedName call.owner) call.name
          call.descriptor = some hit := hhit
      rw [Universe.findMethod] at hclass
      split at hclass
      · cases hclass
      · exact hmethod.outcome_found (.inr hpolymorphic) hhit
          (Universe.findClassMethod_declares hclass)
    · obtain ⟨-, method, hsearch, hdefault⟩ := Universe.defaultProvider_eq_some hprovider
      have hinherited := Universe.searchInterfaces_interfaceDeclaration hsearch
      have hlaw := Universe.findClassMethod_law call.name call.descriptor htype
      have hclass : known.findClassMethod type call.name call.descriptor = none := by
        simpa [Universe.findMethod, htype] using hnone
      have hlacks : ∀ other ∈ (known.superClassPath type).map IndexedClass.decl,
          ¬ other.Declares call.name call.descriptor := by
        rw [← Universe.declaredIn_eq_none_iff]
        cases hdeclared : Universe.declaredIn (known.superClassPath type) call.name
            call.descriptor with
        | none => rfl
        | some found => simp [Universe.findClassMethod_eq htype, hdeclared] at hclass
      -- An open owner would have fallen back on the provider.
      have hclosed : ¬ IsOpenType known (qualifiedName call.owner) := by
        intro hopen
        have hsome := (hlaw.inherited_iff hlacks hopen).mpr ⟨_, hinherited⟩
        simp [hclass] at hsome
      exact .closedOwner ⟨provider, method⟩ _ rfl hclosed
        (Universe.superClassPath_isClassPath htype) hlacks hinherited hdefault hpolymorphic
        (hmethod.outcome_notFound (.inr hpolymorphic) hnone)

/-! Where flags come from. -/

/-- Why a reference of a type is flagged. -/
inductive FlagCause (known : Universe) (decl : ClassDecl) (reference : Reference) : Prop where
  | override {method : MethodDecl} {provider : ClassDecl} {flags : UInt32}
      (hprovider : known.defaultProvider (.of decl) method.name method.descriptor = some provider)
      (hreference : reference = Reference.ofMethod (decl.methodHandle method)
        provider.qualifiedName method.name method.descriptor .override flags)
  | call {method : MethodDecl} {call : CallSite} {flags : UInt32}
      (hcalls : known.callsDefault call = true)
      (hreference : reference = Reference.ofMethod (decl.methodHandle method)
        (qualifiedName call.owner) call.name call.descriptor .virtualCall flags)

variable {decl : ClassDecl}

/-- Of the instructions, only virtual calls of default methods make flagged references. -/
theorem flagCause_instruction {method : MethodDecl} {state : CallState}
    {instruction : Instruction} {draft : Draft}
    (h : BodySite.InstructionMakes (BodySite.of (TypeSite.of known decl) method) state instruction
      draft) (hflags : draft.reference.flags ≠ 0) : FlagCause known decl draft.reference := by
  cases h with
  | access _ => exact absurd rfl hflags
  | operand _ _ => exact absurd rfl hflags
  | @call call _ _ hmakes =>
      cases hmakes with
      | virtual _ =>
          have hvirtual :
              (BodySite.of (TypeSite.of known decl) method).virtualFlags call ≠ 0 := hflags
          rw [BodySite.virtualFlags] at hvirtual
          split at hvirtual
          · rename_i hcalls
            rw [Bool.and_eq_true, Table.get_eq] at hcalls
            exact .call hcalls.2 rfl
          · exact absurd rfl hvirtual
      | _ => exact absurd rfl hflags

/-- Every flagged reference that a type records is an override or a virtual call that
reaches a default method. -/
theorem Provenance.flagCause {draft : Draft} (h : Provenance known decl draft)
    (hflags : draft.reference.flags ≠ 0) : FlagCause known decl draft.reference := by
  cases h with
  | mention _ hmention => exact absurd hmention.flags_eq hflags
  | syntheticField _ => exact absurd rfl hflags
  | override _ hoverride =>
      obtain ⟨target, flags, rfl, ⟨hzero, -⟩ | ⟨provider, hprovider, rfl⟩⟩ :=
        mem_overrideReferences hoverride
      · exact absurd hzero hflags
      · exact .override hprovider rfl
  | instruction _ hmakes => exact flagCause_instruction hmakes hflags

/-- Every flagged reference of an extraction has a cause in a visited type. -/
theorem exists_flagCause {options : ExtractOptions} {root : ClassDecl}
    {references : List Reference} (hextract : extract options known root = .ok references)
    {reference : Reference} (hmem : reference ∈ references) (hflags : reference.flags ≠ 0) :
    ∃ decl unplaced, FlagCause known decl unplaced ∧
      reference = unplaced.atLine reference.line := by
  obtain ⟨entries, steps, -, -, hunlined, rfl⟩ := exists_steps_of_extract hextract
  obtain ⟨kept, hkept, hretained, rfl⟩ := exists_of_mem_delivered hmem
  rcases mem_foldAccessors hkept hretained with
    ⟨hentry, -⟩ | ⟨access, -, call, -, -, rfl⟩
  · obtain ⟨record, hrecord, hsame⟩ := exists_record_of_mem hunlined hentry
    have hreference := congrArg Entry.reference hsame
    have hdraft : record.draft.reference.flags ≠ 0 := by
      have hflagsEq := congrArg Reference.flags hreference
      rw [show record.draft.reference.flags = kept.reference.flags from hflagsEq]
      exact hflags
    obtain ⟨step, -, hstep⟩ := List.mem_flatMap.mp hrecord
    refine ⟨step.decl, record.draft.reference,
      (VisitStep.provenance hstep).flagCause hdraft, ?_⟩
    have hplaced := congrArg (fun unplaced => Reference.atLine unplaced kept.reference.line)
      hreference
    exact hplaced.symm
  · exact absurd rfl hflags

/-- Every flagged reference of an extraction is an override or a virtual call that reaches a
default method, and resolution against the same universe finds the default method, unless a
virtual call is polymorphic or its owner is no open type and only inherits the method. -/
theorem extract_flagged_outcome (options : ExtractOptions) (known : Universe) (root : ClassDecl)
    (references : List Reference) (hextract : extract options known root = .ok references)
    (reference : Reference) (hmem : reference ∈ references)
    (hflag : reference.hasFlag defaultMethodFlag = true) :
    ∃ name descriptor, reference.memberName = some name ∧
      reference.signature = some descriptor ∧
      FlaggedOutcome known reference name descriptor := by
  have hflags : reference.flags ≠ 0 := by
    intro hzero
    simp [Reference.hasFlag, hzero] at hflag
  obtain ⟨decl, unplaced, hcause, hplaced⟩ := exists_flagCause hextract hmem hflags
  rw [hplaced]
  cases hcause with
  | override hprovider hreference =>
      rw [hreference]
      exact ⟨_, _, rfl, rfl, flaggedOutcome_override hprovider _ _ _⟩
  | call hcalls hreference =>
      rw [hreference]
      exact ⟨_, _, rfl, rfl, flaggedOutcome_call hcalls _ _ _⟩

/-! A call on a class that inherits a default method. -/

def describe : MethodDecl where
  name := "describe"
  descriptor := "()V"
  access := { isPublic := true }

def describedApi : ClassDecl where
  name := "lib/Api"
  access := { isPublic := true, isInterface := true, isAbstract := true }
  superName := some "java/lang/Object"
  methods := [describe]

/-- The class that inherits the default method, abstract or not. -/
def describedImpl (isAbstract : Bool) : ClassDecl where
  name := "lib/Impl"
  access := { isPublic := true, isAbstract }
  superName := some "java/lang/Object"
  interfaces := ["lib/Api"]

def describedUniverse (isAbstract : Bool) : Universe :=
  .ofList [describedApi, describedImpl isAbstract]

def describeSite : CallSite := ⟨"lib/Impl", "describe", "()V", .virtual⟩

def describer : PlainMethod where
  name := "run"
  instructions := [⟨0, Opcode.invokeVirtual, .invoke describeSite⟩]

def describingClass : ClassDecl := plainClass "app/Client" [describer]

theorem lookup_describedImpl (isAbstract : Bool) :
    (describedUniverse isAbstract).lookup "lib.Impl" = some (describedImpl isAbstract) := by
  rw [describedUniverse, Universe.lookup_ofList]
  cases isAbstract <;> decide +kernel

theorem lookup_describedApi (isAbstract : Bool) :
    (describedUniverse isAbstract).lookup "lib.Api" = some describedApi := by
  rw [describedUniverse, Universe.lookup_ofList]
  cases isAbstract <;> decide +kernel

theorem lookup_rootType (isAbstract : Bool) :
    (describedUniverse isAbstract).lookup "java.lang.Object" = none := by
  rw [describedUniverse, Universe.lookup_ofList]
  cases isAbstract <;> decide +kernel

theorem superClassPath_describedImpl {isAbstract : Bool} {type : IndexedClass}
    (hdecl : type.decl = describedImpl isAbstract) :
    (describedUniverse isAbstract).superClassPath type = [type] := by
  have hsuper : type.superName = some "java.lang.Object" := by
    rw [type.superName_eq, hdecl]
    exact (by decide +kernel :
      (some "java/lang/Object").map qualifiedName = some "java.lang.Object")
  have hroot := Universe.lookup_eq_none_iff.mp (lookup_rootType isAbstract)
  rw [Universe.superClassPath, Universe.properSuperClasses, hsuper,
    Universe.superClasses_unknown hroot]

theorem searchInterfaces_describedImpl {isAbstract : Bool} {type : IndexedClass}
    (hdecl : type.decl = describedImpl isAbstract) :
    (describedUniverse isAbstract).searchInterfaces "describe" "()V" ∅
      ([type].flatMap IndexedClass.interfaces) = some ⟨describedApi, describe⟩ := by
  obtain ⟨api, hapi, hdeclApi⟩ := Universe.lookup_eq_some_iff.mp (lookup_describedApi isAbstract)
  have hinterfaces : [type].flatMap IndexedClass.interfaces = ["lib.Api"] := by
    rw [List.flatMap_singleton, type.interfaces_eq, hdecl]
    exact (by decide +kernel : ["lib/Api"].map qualifiedName = ["lib.Api"])
  rw [hinterfaces, Universe.searchInterfaces_known (by simp) hapi, IndexedClass.findMethod_eq,
    hdeclApi]
  rfl

theorem findMethod_describedImpl (isAbstract : Bool) :
    (describedUniverse isAbstract).findMethod .virtualCall "lib.Impl" "describe" "()V" =
      if isAbstract then some ⟨describedApi, describe⟩ else none := by
  obtain ⟨type, htype, hdecl⟩ := Universe.lookup_eq_some_iff.mp (lookup_describedImpl isAbstract)
  have hlacks : Universe.declaredIn [type] "describe" "()V" = none := by
    rw [Universe.declaredIn_eq_none_iff, List.map_singleton, hdecl]
    simp [ClassDecl.Declares, describedImpl]
  have hopen : (type.decl.access.isAbstract || type.decl.access.isInterface) = isAbstract := by
    rw [hdecl]
    exact Bool.or_false isAbstract
  simp only [Universe.findMethod, htype, Universe.findClassMethod_eq htype,
    superClassPath_describedImpl hdecl, hlacks, hopen, searchInterfaces_describedImpl hdecl]
  simp

theorem callsDefault_describeSite (isAbstract : Bool) :
    (describedUniverse isAbstract).callsDefault describeSite = true := by
  obtain ⟨type, htype, hdecl⟩ := Universe.lookup_eq_some_iff.mp (lookup_describedImpl isAbstract)
  have howner : qualifiedName "lib/Impl" = "lib.Impl" := by decide +kernel
  have hpath := superClassPath_describedImpl hdecl
  simp only [Universe.superClassPath, List.cons.injEq, true_and] at hpath
  have hprovider : (describedUniverse isAbstract).defaultProvider type "describe" "()V" =
      some describedApi := by
    simp only [Universe.defaultProvider, hpath]
    rw [searchInterfaces_describedImpl hdecl]
    rfl
  simp only [Universe.callsDefault, describeSite, howner, findMethod_describedImpl, htype,
    hprovider]
  cases isAbstract <;> rfl

/-- The flagged reference of the call. -/
def describeCall : Reference :=
  Reference.ofMethod (describingClass.methodHandle describer.decl) "lib.Impl" "describe" "()V"
    .virtualCall defaultMethodFlag

theorem extract_describingClass (isAbstract : Bool) :
    extract {} (describedUniverse isAbstract) describingClass = .ok [describeCall] := by
  let type := TypeSite.of (describedUniverse isAbstract) describingClass
  have howner : qualifiedName "lib/Impl" = "lib.Impl" := by decide +kernel
  have hflags : (BodySite.of type describer.decl).virtualFlags describeSite =
      defaultMethodFlag := by
    simp only [BodySite.virtualFlags, Table.get_eq]
    exact if_pos (callsDefault_describeSite isAbstract)
  have hdrafts : describer.drafts type = [.ofReference describeCall] := by
    change [Draft.ofReference ((BodySite.of type describer.decl).callReference
      ((BodySite.of type describer.decl).qualified "lib/Impl") describeSite .virtualCall _)] = _
    rw [BodySite.qualified_eq, howner, hflags]
    rfl
  have hreferences : [describer].flatMap (fun method => method.drafts type) =
      [describeCall].map Draft.ofReference := by
    rw [List.flatMap_singleton, hdrafts]
    rfl
  have hdelivered : distinctAfter Reference.repeatKey [] ([describeCall].filter
      (ExtractOptions.considers {} { name := describingClass.qualifiedName })) =
        [describeCall] := by
    decide +kernel
  rw [describingClass, extract_plainClass {} _ "app/Client" hreferences,
    distinctBy_eq_distinctAfter]
  exact congrArg Except.ok hdelivered

/-- A call on an abstract class that inherits the default method is resolved to it. -/
theorem extract_flagged_describingClass :
    extract {} (describedUniverse true) describingClass = .ok [describeCall] ∧
      describeCall.hasFlag defaultMethodFlag = true ∧
      Resolution.outcome (describedUniverse true) describeCall =
        .found (.method describedApi.qualifiedName "describe" "()V") := by
  have hextract := extract_describingClass true
  obtain ⟨name, descriptor, hname, hdescriptor, houtcome⟩ :=
    extract_flagged_outcome {} (describedUniverse true) describingClass _ hextract describeCall
      List.mem_cons_self (by decide)
  cases hname
  cases hdescriptor
  refine ⟨hextract, by decide, ?_⟩
  have hhit := findMethod_describedImpl true
  cases houtcome with
  | override _ _ hkind => cases hkind
  | call hit _ hfound _ _ _ houtcome =>
      rw [show describeCall.typeName = "lib.Impl" from rfl, hhit] at hfound
      cases hfound
      exact houtcome rfl
  | closedOwner hit path _ hclosed =>
      exact absurd ⟨_, lookup_describedImpl true, .inl rfl⟩ hclosed
  | polymorphic _ hcall =>
      exact absurd hcall.1 (by decide)

/-- A call on a class that is not abstract and inherits the default method is flagged, but
resolution does not find the method. -/
theorem outcome_describeCall_notFound :
    extract {} (describedUniverse false) describingClass = .ok [describeCall] ∧
      describeCall.hasFlag defaultMethodFlag = true ∧
      (describedUniverse false).callsDefault describeSite = true ∧
      describe.access.isSynthetic = false ∧
      Resolution.outcome (describedUniverse false) describeCall = .notFound := by
  refine ⟨extract_describingClass false, by decide, callsDefault_describeSite false, rfl, ?_⟩
  have hplain : ¬ PolymorphicCall (describedUniverse false) describeCall.typeName "describe" :=
    fun hcall => absurd hcall.1 (by decide)
  have hmethod : Resolution.OfMethod describeCall "describe" "()V" := ⟨rfl, rfl, rfl, rfl⟩
  exact hmethod.outcome_notFound (.inr hplain) (findMethod_describedImpl false)

end Linkage
