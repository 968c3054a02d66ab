import Linkage.Proofs.InstructionReferences
import Linkage.Proofs.SignatureKinds
import Linkage.Proofs.Visits
/-
How a class comes to record a draft.  A declaration names a class in one of its texts, a
synthetic field has the type of a class, a method overrides another, or an instruction
refers to something.  Nothing else is recorded, so that a property of drafts is shown
case by case.
-/

namespace Linkage

/-- A method of a class has an instruction in its body, after earlier ones. -/
structure InstructionOf (decl : ClassDecl) (method : MethodDecl) (earlier : List Instruction)
    (instruction : Instruction) : Prop where
  method_mem : method ∈ decl.methods
  body : ∃ code later, method.body? = some code ∧
    code.instructions = earlier ++ instruction :: later

/-- A synthetic field of a class has the type of a class. -/
structure SyntheticFieldOf (decl : ClassDecl) (field : FieldDecl) (typeName : String) :
    Prop where
  field_mem : field ∈ decl.fields
  synthetic : field.access.isSynthetic = true
  type_eq : readFieldType field.descriptor = .ok (some typeName)

/-- The draft of the type of a synthetic field. -/
def syntheticFieldDraft (decl : ClassDecl) (field : FieldDecl) (typeName : String) :
    Draft where
  reference := Reference.ofType (.field decl.qualifiedName field.name) typeName
    .fieldDeclaration
  trail := .syntheticAccess

/-- The kinds of the references to the classes that declarations and handlers name. -/
def declaredKinds : List ReferenceKind :=
  signatureKinds ++ [.annotationUse, .fieldDeclaration, .catchException, .localVariableDeclaration]

theorem not_mem_instructionKinds {kind : ReferenceKind} (h : kind ∈ declaredKinds) :
    kind ∉ instructionKinds := by
  revert h
  cases kind <;> decide

theorem target_of_mem_declaredKinds {kind : ReferenceKind} (h : kind ∈ declaredKinds) :
    kind.target = .type := by
  revert h
  cases kind <;> decide

/-! Texts of declarations. -/

/-- The texts in which a declaration names classes. -/
structure DeclaredTexts where
  names : List String := []
  /-- Descriptors of fields and variables. -/
  fieldTypes : List String := []
  /-- Descriptors of methods. -/
  methodTypes : List String := []
  signatures : List (SignatureOwner × String) := []

/-- The texts of the header of a class. -/
def ClassDecl.texts (decl : ClassDecl) : DeclaredTexts where
  names := decl.superName.toList ++ decl.interfaces ++ decl.annotations
  signatures := decl.signature.toList.map (Prod.mk (.type decl.access.isInterface))

/-- The texts of the declaration of a field. -/
def FieldDecl.texts (field : FieldDecl) : DeclaredTexts where
  names := field.annotations
  fieldTypes := [field.descriptor]
  signatures := field.signature.toList.map (Prod.mk .field)

/-- The texts of the declaration of a method. -/
def MethodDecl.texts (method : MethodDecl) : DeclaredTexts where
  names := method.exceptions ++ method.annotations
  methodTypes := [method.descriptor]
  signatures := method.signature.toList.map (Prod.mk .method)

/-- The texts of the handlers of a body. -/
def Code.handlerTexts (code : Code) : DeclaredTexts where
  names := code.handlers.filterMap ExceptionHandler.catchType

/-- The texts of the declaration of a local variable. -/
def LocalVariable.texts (entry : LocalVariable) : DeclaredTexts where
  fieldTypes := [entry.descriptor]
  signatures := entry.signature.toList.map (Prod.mk .localVariable)

/-- The declarations of a class: the member that each belongs to, and its texts. -/
inductive DeclaresIn (decl : ClassDecl) : MemberHandle → DeclaredTexts → Prop where
  | header : DeclaresIn decl (.type decl.qualifiedName) decl.texts
  | field {field : FieldDecl} (hfield : field ∈ decl.fields) :
      DeclaresIn decl (.field decl.qualifiedName field.name) field.texts
  | method {method : MethodDecl} (hmethod : method ∈ decl.methods) :
      DeclaresIn decl (decl.methodHandle method) method.texts
  | handlers {method : MethodDecl} {code : Code} (hmethod : method ∈ decl.methods)
      (hbody : method.body? = some code) :
      DeclaresIn decl (decl.methodHandle method) code.handlerTexts
  | localVariable {method : MethodDecl} {code : Code} {entry : LocalVariable}
      (hmethod : method ∈ decl.methods) (hbody : method.body? = some code)
      (hentry : entry ∈ code.locals) : DeclaresIn decl (decl.methodHandle method) entry.texts

theorem DeclaresIn.source_typeName {decl : ClassDecl} {source : MemberHandle}
    {texts : DeclaredTexts} (h : DeclaresIn decl source texts) :
    source.typeName = decl.qualifiedName := by
  cases h <;> rfl

/-- A member refers to a class that one of its texts names. -/
inductive Mention (texts : DeclaredTexts) (source : MemberHandle) : Reference → Prop where
  | name {name : String} {kind : ReferenceKind} (hname : name ∈ texts.names)
      (hkind : kind ∈ declaredKinds) :
      Mention texts source (.ofType source (qualifiedName name) kind)
  | fieldType {descriptor name : String} {kind : ReferenceKind}
      (hdescriptor : descriptor ∈ texts.fieldTypes)
      (hread : readFieldType descriptor = .ok (some name)) (hkind : kind ∈ declaredKinds) :
      Mention texts source (.ofType source name kind)
  | methodType {descriptor name : String} {types : MethodTypes} {kind : ReferenceKind}
      (hdescriptor : descriptor ∈ texts.methodTypes)
      (hread : readMethodTypes descriptor = .ok types)
      (hname : name ∈ types.parameterClasses ++ types.resultClass.toList)
      (hkind : kind ∈ declaredKinds) : Mention texts source (.ofType source name kind)
  | signature {owner : SignatureOwner} {signature : String} {types : List SignatureType}
      {type : SignatureType} (hsignature : (owner, signature) ∈ texts.signatures)
      (hread : readSignature owner signature = .ok types) (htype : type ∈ types) :
      Mention texts source (.ofSignature source type.typeName signature type.kind)
  | placed {reference : Reference} {line : Int} (h : Mention texts source reference) :
      Mention texts source (reference.atLine line)

namespace Mention

variable {texts : DeclaredTexts} {source : MemberHandle} {reference : Reference}

theorem kind_mem (h : Mention texts source reference) : reference.kind ∈ declaredKinds := by
  induction h with
  | name _ hkind => exact hkind
  | fieldType _ _ hkind => exact hkind
  | methodType _ _ _ hkind => exact hkind
  | signature _ hread htype =>
      exact List.mem_append_left _ (SignatureOwner.kinds_subset _
        (Signature.destructure_tagged (mapError_eq_ok hread) _ htype))
  | placed _ ih => exact ih

theorem flags_eq (h : Mention texts source reference) : reference.flags = 0 := by
  induction h with
  | placed _ ih => exact ih
  | _ => rfl

theorem memberName_eq (h : Mention texts source reference) : reference.memberName = none := by
  induction h with
  | placed _ ih => exact ih
  | _ => rfl

theorem source_eq (h : Mention texts source reference) : reference.source = source := by
  induction h with
  | placed _ ih => exact ih
  | _ => rfl

end Mention

/-- References all of which a member makes to classes that its texts name. -/
def Mentions (texts : DeclaredTexts) (source : MemberHandle) (references : List Reference) :
    Prop :=
  ∀ reference ∈ references, Mention texts source reference

namespace Mentions

variable {texts : DeclaredTexts} {source : MemberHandle} {kind : ReferenceKind}

theorem nil : Mentions texts source [] := by
  simp [Mentions]

theorem append {left right : List Reference} (hleft : Mentions texts source left)
    (hright : Mentions texts source right) : Mentions texts source (left ++ right) := by
  intro reference hmem
  exact (List.mem_append.mp hmem).elim (hleft reference) (hright reference)

theorem ofNames (glossary : Glossary) {names : List String} (hkind : kind ∈ declaredKinds)
    (hnames : ∀ name ∈ names, name ∈ texts.names) :
    Mentions texts source (glossary.typeReferences source kind names) := by
  intro reference hmem
  obtain ⟨name, hname, rfl⟩ := List.mem_map.mp hmem
  rw [Table.get_eq]
  exact .name (hnames name hname) hkind

theorem ofFieldType {descriptor : String} {type : Option String}
    (hdescriptor : descriptor ∈ texts.fieldTypes) (hread : readFieldType descriptor = .ok type)
    (hkind : kind ∈ declaredKinds) :
    Mentions texts source (type.toList.map (fun name => Reference.ofType source name kind)) := by
  intro reference hmem
  obtain ⟨name, hname, rfl⟩ := List.mem_map.mp hmem
  rw [Option.mem_toList.mp hname] at hread
  exact .fieldType hdescriptor hread hkind

theorem ofMethodType {descriptor : String} {types : MethodTypes} {names : List String}
    (hdescriptor : descriptor ∈ texts.methodTypes)
    (hread : readMethodTypes descriptor = .ok types)
    (hnames : ∀ name ∈ names, name ∈ types.parameterClasses ++ types.resultClass.toList)
    (hkind : kind ∈ declaredKinds) :
    Mentions texts source (names.map (fun name => Reference.ofType source name kind)) := by
  intro reference hmem
  obtain ⟨name, hname, rfl⟩ := List.mem_map.mp hmem
  exact .methodType hdescriptor hread (hnames name hname) hkind

theorem ofSignature {owner : SignatureOwner} {signature : String} {types : List SignatureType}
    (hsignature : (owner, signature) ∈ texts.signatures)
    (hread : readSignature owner signature = .ok types) :
    Mentions texts source (signatureReferences source signature types) := by
  intro reference hmem
  obtain ⟨type, htype, rfl⟩ := List.mem_map.mp hmem
  exact .signature hsignature hread htype

end Mentions

variable {known : Universe} {decl : ClassDecl}

/-! Headers and fields. -/

theorem mentions_headerReferences {references : List Reference}
    (h : (TypeSite.of known decl).headerReferences = .ok references) :
    Mentions decl.texts (.type decl.qualifiedName) references := by
  rw [TypeSite.headerReferences] at h
  split at h
  · rename_i signature hsignature
    rw [TypeSite.decl_of] at hsignature
    obtain ⟨types, htypes, rfl⟩ := bind_pure_eq_ok h
    exact .ofSignature (by simp [ClassDecl.texts, hsignature]) htypes
  · simp only at h
    split at h
    · rw [← Except.ok.inj h]
      exact .ofNames _ (by decide) (by simp +contextual [ClassDecl.texts])
    · rw [← Except.ok.inj h]
      exact (Mentions.ofNames _ (by decide) (by simp +contextual [ClassDecl.texts])).append
        (.ofNames _ (by decide) (by simp +contextual [ClassDecl.texts]))

/-- The header of a class makes references to the classes that it names only, and folding
passes over them. -/
theorem mem_headerDrafts {drafts : List Draft}
    (h : (TypeSite.of known decl).headerDrafts = .ok drafts) {draft : Draft}
    (hmem : draft ∈ drafts) :
    ∃ reference, Mention decl.texts (.type decl.qualifiedName) reference ∧
      draft = .ofReference reference := by
  obtain ⟨header, hheader, rfl⟩ := bind_pure_eq_ok h
  obtain ⟨reference, hreference, rfl⟩ := List.mem_map.mp hmem
  have hannotations : Mentions decl.texts (.type decl.qualifiedName)
      (TypeSite.of known decl).annotationReferences :=
    .ofNames _ (by decide) (by simp +contextual [ClassDecl.texts])
  exact ⟨reference, (mentions_headerReferences (mapError_eq_ok hheader)).append hannotations
    reference hreference, rfl⟩

/-- How the declaration of a field makes a draft. -/
inductive FieldMakes (decl : ClassDecl) (field : FieldDecl) : Draft → Prop where
  | mention {reference : Reference}
      (hmention : Mention field.texts (.field decl.qualifiedName field.name) reference) :
      FieldMakes decl field (.ofReference reference)
  | synthetic {typeName : String} (hsynthetic : field.access.isSynthetic = true)
      (htype : readFieldType field.descriptor = .ok (some typeName)) :
      FieldMakes decl field (syntheticFieldDraft decl field typeName)

theorem FieldMakes.source_eq {field : FieldDecl} {draft : Draft} (h : FieldMakes decl field draft) :
    draft.reference.source = .field decl.qualifiedName field.name := by
  cases h with
  | mention hmention => exact hmention.source_eq
  | synthetic _ _ => rfl

theorem FieldMakes.of_mentions {field : FieldDecl} {references : List Reference}
    (h : Mentions field.texts (.field decl.qualifiedName field.name) references) {draft : Draft}
    (hmem : draft ∈ references.map Draft.ofReference) : FieldMakes decl field draft := by
  obtain ⟨reference, hreference, rfl⟩ := List.mem_map.mp hmem
  exact .mention (h reference hreference)

theorem fieldMakes_of_mem_fieldTypeDrafts {field : FieldDecl} {drafts : List Draft}
    (h : (TypeSite.of known decl).fieldTypeDrafts field = .ok drafts) {draft : Draft}
    (hmem : draft ∈ drafts) : FieldMakes decl field draft := by
  rw [TypeSite.fieldTypeDrafts] at h
  simp only [Table.get_eq] at h
  split at h
  · rename_i hsynthetic
    obtain ⟨type, htype, rfl⟩ := bind_pure_eq_ok h
    obtain ⟨name, hname, rfl⟩ := List.mem_map.mp hmem
    rw [Option.mem_toList.mp hname] at htype
    exact .synthetic hsynthetic htype
  · split at h
    · rename_i signature hsignature
      obtain ⟨types, htypes, rfl⟩ := bind_pure_eq_ok h
      exact .of_mentions (.ofSignature (by simp [FieldDecl.texts, hsignature]) htypes) hmem
    · obtain ⟨type, htype, rfl⟩ := bind_pure_eq_ok h
      obtain ⟨name, hname, rfl⟩ := List.mem_map.mp hmem
      rw [Option.mem_toList.mp hname] at htype
      exact .mention (.fieldType (List.mem_singleton_self _) htype (by decide))

theorem fieldMakes_of_mem {field : FieldDecl} {drafts : List Draft}
    (h : (TypeSite.of known decl).fieldDrafts field = .ok drafts) {draft : Draft}
    (hmem : draft ∈ drafts) : FieldMakes decl field draft := by
  obtain ⟨types, htypes, rfl⟩ := bind_pure_eq_ok h
  rcases List.mem_append.mp hmem with hmem | hmem
  · exact fieldMakes_of_mem_fieldTypeDrafts htypes hmem
  · exact .of_mentions (.ofNames _ (by decide) (fun name hname => hname)) hmem

/-! Methods. -/

/-- The override of a method of the super type, or of an inherited default method, which is
flagged. -/
theorem mem_overrideReferences {method : MethodDecl} {reference : Reference}
    (h : reference ∈ (TypeSite.of known decl).overrideReferences method) :
    ∃ target flags, reference = Reference.ofMethod (decl.methodHandle method) target method.name
        method.descriptor .override flags ∧
      ((flags = 0 ∧ decl.superType? = some target) ∨
        ∃ provider, known.defaultProvider (.of decl) method.name method.descriptor =
          some provider ∧ target = provider.qualifiedName) := by
  rw [TypeSite.overrideReferences] at h
  split at h
  · simp at h
  · split at h
    · simp at h
    · rename_i superType hsuper
      rw [List.mem_singleton] at h
      simp only [Table.get_eq] at h
      split at h
      · rename_i provider hprovider
        exact ⟨_, _, h, .inr ⟨provider, hprovider, rfl⟩⟩
      · exact ⟨_, _, h, .inl ⟨rfl, hsuper⟩⟩

theorem mentions_methodTypeReferences {method : MethodDecl} {types : MethodTypes}
    (htypes : readMethodTypes method.descriptor = .ok types) {references : List Reference}
    (h : (TypeSite.of known decl).methodTypeReferences method types = .ok references) :
    Mentions method.texts (decl.methodHandle method) references := by
  rw [TypeSite.methodTypeReferences] at h
  simp only [Table.get_eq] at h
  split at h
  · rename_i signature hsignature
    obtain ⟨named, hnamed, rfl⟩ := bind_pure_eq_ok h
    exact .ofSignature (by simp [MethodDecl.texts, hsignature]) hnamed
  · rw [← Except.ok.inj h]
    exact (Mentions.ofMethodType (List.mem_singleton_self _) htypes
        (fun name hname => List.mem_append_left _ hname) (by decide)).append
      (.ofMethodType (List.mem_singleton_self _) htypes
        (fun name hname => List.mem_append_right _ hname) (by decide))

theorem mentions_methodHeaderReferences {method : MethodDecl} {types : MethodTypes}
    (htypes : readMethodTypes method.descriptor = .ok types) {references : List Reference}
    (h : (TypeSite.of known decl).methodHeaderReferences method types = .ok references) :
    Mentions method.texts (decl.methodHandle method) references := by
  have hexceptions : Mentions method.texts (decl.methodHandle method)
      ((TypeSite.of known decl).exceptionReferences method) := by
    rw [TypeSite.exceptionReferences]
    split
    · exact .nil
    · exact .ofNames _ (by decide) (fun name hname => List.mem_append_left _ hname)
  rw [TypeSite.methodHeaderReferences] at h
  split at h
  · rw [← Except.ok.inj h]
    exact .nil
  · obtain ⟨typed, htyped, rfl⟩ := bind_pure_eq_ok h
    exact (mentions_methodTypeReferences htypes htyped).append hexceptions

/-- The declaration of a method makes its override and references to the classes that it
names. -/
theorem mem_methodReferences {method : MethodDecl} {types : MethodTypes}
    (htypes : readMethodTypes method.descriptor = .ok types) {references : List Reference}
    (h : (TypeSite.of known decl).methodReferences method types = .ok references)
    {reference : Reference} (hmem : reference ∈ references) :
    reference ∈ (TypeSite.of known decl).overrideReferences method ∨
      Mention method.texts (decl.methodHandle method) reference := by
  obtain ⟨header, hheader, rfl⟩ := bind_pure_eq_ok h
  have hannotations : Mentions method.texts (decl.methodHandle method)
      ((TypeSite.of known decl).glossary.typeReferences ((TypeSite.of known decl).methodHandle
        method) .annotationUse method.annotations) :=
    .ofNames _ (by decide) (fun name hname => List.mem_append_right _ hname)
  rw [List.append_assoc, List.mem_append] at hmem
  exact hmem.imp id
    ((mentions_methodHeaderReferences htypes hheader).append hannotations reference)

/-- A method records what its declaration makes, then what its body makes if it has one. -/
theorem methodDrafts_eq_ok {method : MethodDecl} {drafts : List Draft}
    (h : (TypeSite.of known decl).methodDrafts method = .ok drafts) :
    ∃ types declared body, readMethodTypes method.descriptor = .ok types ∧
      (TypeSite.of known decl).methodReferences method types = .ok declared ∧
      ((method.body? = none ∧ body = []) ∨ ∃ code, method.body? = some code ∧
        (BodySite.of (TypeSite.of known decl) method).bodyDrafts (firstLocalSlot method types)
          code = .ok body) ∧
      drafts = declared.map Draft.ofReference ++ body := by
  obtain ⟨types, htypes, h⟩ := bind_eq_ok h
  obtain ⟨declared, hdeclared, h⟩ := bind_eq_ok h
  rw [Table.get_eq] at htypes
  split at h
  · rename_i hnone
    exact ⟨types, declared, [], htypes, hdeclared, .inl ⟨hnone, rfl⟩, (Except.ok.inj h).symm⟩
  · rename_i code hcode
    obtain ⟨body, hbody, rfl⟩ := bind_pure_eq_ok h
    exact ⟨types, declared, body, htypes, hdeclared, .inr ⟨code, hcode, hbody⟩, rfl⟩

/-! Local variables. -/

theorem mentions_variableReferences {glossary : Glossary} {source : MemberHandle}
    {entry : LocalVariable} {references : List Reference}
    (h : variableReferences glossary source entry = .ok references) :
    Mentions entry.texts source references := by
  rw [variableReferences] at h
  simp only [Table.get_eq] at h
  split at h
  · rename_i signature hsignature
    obtain ⟨types, htypes, rfl⟩ := bind_pure_eq_ok h
    exact .ofSignature (by simp [LocalVariable.texts, hsignature]) htypes
  · obtain ⟨type, htype, rfl⟩ := bind_pure_eq_ok h
    exact .ofFieldType (List.mem_singleton_self _) htype (by decide)

/-- References each of which one of some local variables makes. -/
def VariableMentions (entries : List LocalVariable) (source : MemberHandle)
    (references : List Reference) : Prop :=
  ∀ reference ∈ references, ∃ entry ∈ entries, Mention entry.texts source reference

/-- Declaring a local variable adds only references that the variable makes. -/
theorem variableMentions_declare {glossary : Glossary} {source : MemberHandle}
    {firstLocal : Nat} {entries : List LocalVariable} {state next : DeclaredLocals}
    {entry : LocalVariable} (hentry : entry ∈ entries)
    (h : state.declare glossary source firstLocal entry = .ok next)
    (hstate : VariableMentions entries source state.references.toList) :
    VariableMentions entries source next.references.toList := by
  rw [DeclaredLocals.declare] at h
  split at h
  · split at h
    · rw [← Except.ok.inj h]
      exact hstate
    · split at h
      · obtain ⟨named, hnamed, rfl⟩ := bind_pure_eq_ok h
        rw [VariableMentions, Array.toList_appendList]
        intro reference hmem
        rcases List.mem_append.mp hmem with hmem | hmem
        · exact hstate reference hmem
        · obtain ⟨unplaced, hunplaced, rfl⟩ := List.mem_map.mp hmem
          exact ⟨entry, hentry, .placed (mentions_variableReferences hnamed unplaced hunplaced)⟩
      · rw [← Except.ok.inj h]
        exact hstate
  · rw [← Except.ok.inj h]
    exact hstate

theorem variableMentions_foldlM_declare {glossary : Glossary} {source : MemberHandle}
    {firstLocal : Nat} {entries rest : List LocalVariable}
    (hrest : ∀ entry ∈ rest, entry ∈ entries)
    {state declared : DeclaredLocals}
    (h : rest.foldlM (DeclaredLocals.declare glossary source firstLocal) state = .ok declared)
    (hstate : VariableMentions entries source state.references.toList) :
    VariableMentions entries source declared.references.toList := by
  induction rest generalizing state with
  | nil =>
      rw [← Except.ok.inj h]
      exact hstate
  | cons entry rest ih =>
      rw [List.forall_mem_cons] at hrest
      rw [List.foldlM_cons] at h
      obtain ⟨next, hnext, h⟩ := bind_eq_ok h
      exact ih hrest.2 h (variableMentions_declare hrest.1 hnext hstate)

theorem variableMentions_localReferences {glossary : Glossary} {source : MemberHandle}
    {firstLocal : Nat} {entries : List LocalVariable} {markers : PlacedMarkers}
    {references : Array Reference}
    (h : localReferences glossary source firstLocal entries markers = .ok references) :
    VariableMentions entries source references.toList := by
  obtain ⟨declared, hdeclared, rfl⟩ := bind_pure_eq_ok h
  exact variableMentions_foldlM_declare (fun _ hentry => hentry) hdeclared
    (by simp [VariableMentions])

/-- Every draft of a method is a reference that the method makes. -/
theorem source_of_mem_methodDrafts {method : MethodDecl} {drafts : List Draft}
    (h : (TypeSite.of known decl).methodDrafts method = .ok drafts) {draft : Draft}
    (hmem : draft ∈ drafts) : draft.reference.source = decl.methodHandle method := by
  obtain ⟨types, declared, body, htypes, hdeclared, hbody, rfl⟩ := methodDrafts_eq_ok h
  rcases List.mem_append.mp hmem with hmem | hmem
  · obtain ⟨reference, hreference, rfl⟩ := List.mem_map.mp hmem
    rcases mem_methodReferences htypes hdeclared hreference with hoverride | hmention
    · obtain ⟨target, flags, rfl, -⟩ := mem_overrideReferences hoverride
      rfl
    · exact hmention.source_eq
  · rcases hbody with ⟨-, rfl⟩ | ⟨code, -, hbody⟩
    · cases hmem
    · obtain ⟨locals, hlocals, rfl⟩ := bind_pure_eq_ok hbody
      rw [List.mem_append, List.mem_append] at hmem
      rcases hmem with (hcatch | hinstruction) | hlocal
      · obtain ⟨name, -, rfl⟩ := List.mem_map.mp hcatch
        rfl
      · obtain ⟨earlier, instruction, later, -, hdraft⟩ :=
          BodySite.mem_instructionDrafts.mp hinstruction
        exact (BodySite.instructionMakes_of_mem hdraft).source_eq
      · obtain ⟨reference, hreference, rfl⟩ := List.mem_map.mp hlocal
        obtain ⟨entry, -, hmention⟩ := variableMentions_localReferences hlocals reference hreference
        exact hmention.source_eq

/-! Classes. -/

/-- How a class comes to record a draft. -/
inductive Provenance (known : Universe) (decl : ClassDecl) : Draft → Prop where
  | mention {source : MemberHandle} {texts : DeclaredTexts} {reference : Reference}
      (hdeclares : DeclaresIn decl source texts) (hmention : Mention texts source reference) :
      Provenance known decl (.ofReference reference)
  | syntheticField {field : FieldDecl} {typeName : String}
      (hfield : SyntheticFieldOf decl field typeName) :
      Provenance known decl (syntheticFieldDraft decl field typeName)
  | override {method : MethodDecl} {reference : Reference} (hmethod : method ∈ decl.methods)
      (hoverride : reference ∈ (TypeSite.of known decl).overrideReferences method) :
      Provenance known decl (.ofReference reference)
  | instruction {method : MethodDecl} {earlier : List Instruction} {instruction : Instruction}
      {draft : Draft} (hinstruction : InstructionOf decl method earlier instruction)
      (hmakes : BodySite.InstructionMakes (BodySite.of (TypeSite.of known decl) method)
        (earlier.foldl (BodySite.of (TypeSite.of known decl) method).after {}) instruction
        draft) : Provenance known decl draft

theorem provenance_of_mem_bodyDrafts {method : MethodDecl} (hmethod : method ∈ decl.methods)
    {code : Code} (hbody : method.body? = some code) {firstLocal : Nat} {drafts : List Draft}
    (h : (BodySite.of (TypeSite.of known decl) method).bodyDrafts firstLocal code = .ok drafts)
    {draft : Draft} (hmem : draft ∈ drafts) : Provenance known decl draft := by
  obtain ⟨declared, hdeclared, rfl⟩ := bind_pure_eq_ok h
  rw [List.mem_append, List.mem_append] at hmem
  rcases hmem with (hcatch | hinstruction) | hlocal
  · obtain ⟨name, hname, rfl⟩ := List.mem_map.mp hcatch
    rw [BodySite.qualified_eq]
    exact .mention (.handlers hmethod hbody) (.name hname (by decide))
  · obtain ⟨earlier, instruction, later, hsplit, hdraft⟩ :=
      BodySite.mem_instructionDrafts.mp hinstruction
    exact .instruction ⟨hmethod, code, later, hbody, hsplit⟩
      (BodySite.instructionMakes_of_mem hdraft)
  · obtain ⟨reference, hreference, rfl⟩ := List.mem_map.mp hlocal
    obtain ⟨entry, hentry, hmention⟩ :=
      variableMentions_localReferences hdeclared reference hreference
    exact .mention (.localVariable hmethod hbody hentry) hmention

theorem provenance_of_mem_methodDrafts {method : MethodDecl} (hmethod : method ∈ decl.methods)
    {drafts : List Draft} (h : (TypeSite.of known decl).methodDrafts method = .ok drafts)
    {draft : Draft} (hmem : draft ∈ drafts) : Provenance known decl draft := by
  obtain ⟨types, declared, body, htypes, hdeclared, hbody, rfl⟩ := methodDrafts_eq_ok h
  rcases List.mem_append.mp hmem with hmem | hmem
  · obtain ⟨reference, hreference, rfl⟩ := List.mem_map.mp hmem
    rcases mem_methodReferences htypes hdeclared hreference with hoverride | hmention
    · exact .override hmethod hoverride
    · exact .mention (.method hmethod) hmention
  · rcases hbody with ⟨-, rfl⟩ | ⟨code, hcode, hbody⟩
    · cases hmem
    · exact provenance_of_mem_bodyDrafts hmethod hcode hbody hmem

theorem FieldMakes.provenance {field : FieldDecl} (hfield : field ∈ decl.fields) {draft : Draft}
    (h : FieldMakes decl field draft) : Provenance known decl draft := by
  cases h with
  | mention hmention => exact .mention (.field hfield) hmention
  | synthetic hsynthetic htype => exact .syntheticField ⟨hfield, hsynthetic, htype⟩

/-- Everything that a class records itself comes about in one of these ways. -/
theorem OwnDrafts.provenance (own : OwnDrafts known decl) {draft : Draft}
    (hmem : draft ∈ own.header ∨ draft ∈ own.members) : Provenance known decl draft := by
  rcases hmem with hmem | hmem
  · obtain ⟨reference, hmention, rfl⟩ := mem_headerDrafts own.header_eq hmem
    exact .mention .header hmention
  · simp only [OwnDrafts.members, List.mem_append, List.mem_flatten] at hmem
    rcases hmem with ⟨drafts, hdrafts, hmem⟩ | ⟨drafts, hdrafts, hmem⟩
    · obtain ⟨field, hfield, hdrafts⟩ := (mem_of_mapM_eq_ok own.fields_eq).mp hdrafts
      exact (fieldMakes_of_mem (mapError_eq_ok hdrafts) hmem).provenance hfield
    · obtain ⟨method, hmethod, hdrafts⟩ := (mem_of_mapM_eq_ok own.methods_eq).mp hdrafts
      exact provenance_of_mem_methodDrafts hmethod (mapError_eq_ok hdrafts) hmem

theorem VisitStep.provenance {step : VisitStep known} {record : Record}
    (h : record ∈ step.records) : Provenance known step.decl record.draft := by
  cases step with
  | enter decl own =>
      obtain ⟨draft, hdraft, rfl⟩ := List.mem_map.mp h
      exact own.provenance (.inl hdraft)
  | leave decl own =>
      obtain ⟨draft, hdraft, rfl⟩ := List.mem_map.mp h
      exact own.provenance (.inr hdraft)

/-- What a class records is referred to by the class or a member of it. -/
theorem Provenance.source_typeName {draft : Draft} (h : Provenance known decl draft) :
    draft.reference.source.typeName = decl.qualifiedName := by
  cases h with
  | mention hdeclares hmention =>
      rw [Draft.reference_ofReference, hmention.source_eq]
      exact hdeclares.source_typeName
  | syntheticField _ => rfl
  | override _ hoverride =>
      obtain ⟨target, flags, rfl, -⟩ := mem_overrideReferences hoverride
      rfl
  | instruction _ hmakes =>
      rw [hmakes.source_eq]
      rfl

end Linkage
