import Linkage.Proofs.DescriptorGrammar
import Linkage.Proofs.Destructuring
import Linkage.Proofs.Provenance
/-
Classes whose texts are well formed: where they should name a class they do not name an
array, and their descriptors and signatures are those of the grammars.  What is read
from such texts are names of classes.
-/

namespace Linkage

/-- A name that starts with a bracket, as the descriptor of an array does. -/
def IsArrayName (name : String) : Prop :=
  name.toList.head? = some '['

instance : DecidablePred IsArrayName :=
  fun name => inferInstanceAs (Decidable (name.toList.head? = some '['))

theorem isArrayName_qualifiedName {name : String} :
    IsArrayName (qualifiedName name) ↔ IsArrayName name := by
  have hchar : ∀ c, qualifiedChar c = '[' ↔ c = '[' := by
    intro c
    rw [qualifiedChar]
    split
    · rename_i hslash
      simp [hslash]
    · rfl
  rw [IsArrayName, IsArrayName, qualifiedName, String.toList_map, List.head?_map,
    Option.map_eq_some_iff]
  simp [hchar]

theorem Word.not_isArrayName {avoided : List Char} (word : Word avoided)
    (hbracket : '[' ∈ avoided) : ¬ IsArrayName (String.ofList word.text) := by
  intro h
  rw [IsArrayName, String.toList_ofList] at h
  exact word.ne_of_mem hbracket (List.mem_of_mem_head? h) rfl

theorem ElementType.not_isArrayName {type : ElementType} {name : String}
    (h : type.class? = some name) : ¬ IsArrayName name := by
  cases type with
  | primitive type => cases h
  | object word =>
      rw [← Option.some.inj h, isArrayName_qualifiedName]
      exact word.not_isArrayName (by decide)

theorem ClassOperand.not_isArrayName {operand : ClassOperand} {name : String}
    (h : operand.class? = some name) : ¬ IsArrayName name := by
  cases operand with
  | plain word =>
      rw [← Option.some.inj h, isArrayName_qualifiedName]
      exact word.not_isArrayName (by decide)
  | array type _ => exact ElementType.not_isArrayName h

/-! Names in signatures. -/

namespace Signature

/-- Classes none of which is an array. -/
def NoArrays (types : List SignatureType) : Prop :=
  ∀ type ∈ types, ¬ IsArrayName type.typeName

theorem noArrays_nil : NoArrays [] := by
  simp [NoArrays]

theorem NoArrays.append {left right : List SignatureType} (hleft : NoArrays left)
    (hright : NoArrays right) : NoArrays (left ++ right) := by
  intro type hmem
  exact (List.mem_append.mp hmem).elim (hleft type) (hright type)

theorem NoArrays.flatMap {α : Type} {named : α → List SignatureType}
    (h : ∀ item, NoArrays (named item)) (items : List α) : NoArrays (items.flatMap named) := by
  intro type hmem
  obtain ⟨item, -, hmem⟩ := List.mem_flatMap.mp hmem
  exact h item type hmem

theorem ClassType.bracket_not_mem_name (type : ClassType) : '[' ∉ type.name := by
  have hbracket : ∀ word : Identifier, '[' ∉ word.text :=
    fun word hmem => word.avoids _ hmem (by decide)
  cases type with
  | outer packages name _ => simp [ClassType.name, hbracket]
  | inner enclosing name _ =>
      simp [ClassType.name, hbracket, enclosing.bracket_not_mem_name]

theorem ClassType.not_isArrayName (type : ClassType) :
    ¬ IsArrayName (String.ofList type.name) := by
  intro h
  rw [IsArrayName, String.toList_ofList] at h
  exact type.bracket_not_mem_name (List.mem_of_mem_head? h)

mutual

theorem ClassType.inArguments_noArrays (declaration : ReferenceKind) :
    (type : ClassType) → NoArrays (type.inArguments declaration)
  | .outer _ _ arguments => arguments.named_noArrays declaration
  | .inner enclosing _ arguments =>
      (enclosing.inArguments_noArrays declaration).append (arguments.named_noArrays declaration)

theorem TypeArguments.named_noArrays (declaration : ReferenceKind) :
    (arguments : TypeArguments) → NoArrays (arguments.named declaration)
  | .none => noArrays_nil
  | .cons first others =>
      (first.named_noArrays declaration).append (others.named_noArrays declaration)

theorem TypeArgument.named_noArrays (declaration : ReferenceKind) :
    (argument : TypeArgument) → NoArrays (argument.named declaration)
  | .any => noArrays_nil
  | .bounded _ bound => bound.named_noArrays declaration declaration
  | .exact type => type.named_noArrays declaration declaration

theorem ReferenceType.named_noArrays (declaration role : ReferenceKind) :
    (type : ReferenceType) → NoArrays (type.named declaration role)
  | .classType type => by
      have hclass : NoArrays [⟨String.ofList type.name, role⟩] := by
        intro named hmem
        rw [List.mem_singleton.mp hmem]
        exact type.not_isArrayName
      exact (type.inArguments_noArrays declaration).append hclass
  | .typeVariable _ => noArrays_nil
  | .array element => element.named_noArrays declaration role

theorem JavaType.named_noArrays (declaration role : ReferenceKind) :
    (type : JavaType) → NoArrays (type.named declaration role)
  | .primitive _ => noArrays_nil
  | .reference type => type.named_noArrays declaration role

end

theorem ClassType.named_noArrays (declaration role : ReferenceKind) (type : ClassType) :
    NoArrays (type.named declaration role) :=
  (ReferenceType.classType type).named_noArrays declaration role

theorem NamedType.named_noArrays (declaration role : ReferenceKind) (type : NamedType) :
    NoArrays (type.named declaration role) :=
  type.type.named_noArrays declaration role

theorem TypeParameter.named_noArrays (declaration : ReferenceKind) (parameter : TypeParameter) :
    NoArrays (parameter.named declaration) :=
  .flatMap (NamedType.named_noArrays declaration declaration) _

theorem ClassSignature.named_noArrays (isInterface : Bool) (signature : ClassSignature) :
    NoArrays (signature.named isInterface) := by
  have hbounds := NoArrays.flatMap (TypeParameter.named_noArrays .parameterizedType)
    signature.parameters
  have hinterfaces := fun role => NoArrays.flatMap
    (ClassType.named_noArrays .parameterizedType role) signature.interfaces
  cases isInterface with
  | true => exact hbounds.append (hinterfaces _)
  | false =>
      exact (hbounds.append (signature.superClass.named_noArrays _ _)).append (hinterfaces _)

theorem MethodSignature.named_noArrays (signature : MethodSignature) :
    NoArrays signature.named :=
  (((NoArrays.flatMap (TypeParameter.named_noArrays _) _).append
    (.flatMap (JavaType.named_noArrays _ _) _)).append
    (.flatMap (JavaType.named_noArrays _ _) _)).append
    (.flatMap (NamedType.named_noArrays _ _) _)

/-- The classes that a signature of the grammar names are no arrays. -/
theorem Declared.named_noArrays (signature : Declared) : NoArrays signature.named := by
  cases signature with
  | ofType isInterface signature => exact signature.named_noArrays isInterface
  | ofMethod signature => exact signature.named_noArrays
  | ofField type => exact type.named_noArrays _ _
  | ofLocalVariable type => exact type.named_noArrays _ _

end Signature

/-! Classes whose texts are well formed. -/

/-- Names none of which is that of an array. -/
def PlainNames (names : List String) : Prop :=
  ∀ name ∈ names, ¬ IsArrayName name

/-- A signature of the grammar, for some sort of declaration. -/
def IsSignature (owner : SignatureOwner) (text : String) : Prop :=
  ∃ signature : Signature.Declared, signature.owner = owner ∧ signature.text = text

/-- A field whose descriptor and signature are well formed. -/
structure FieldDecl.WellNamed (field : FieldDecl) : Prop where
  descriptor : ∃ type : FieldType, type.text = field.descriptor
  signature : ∀ text ∈ field.signature, IsSignature .field text
  annotations : PlainNames field.annotations

/-- A local variable whose descriptor and signature are well formed. -/
structure LocalVariable.WellNamed (entry : LocalVariable) : Prop where
  descriptor : ∃ type : FieldType, type.text = entry.descriptor
  signature : ∀ text ∈ entry.signature, IsSignature .localVariable text

/-- An instruction that uses a field of a class, or whose class operand is well formed. -/
structure Instruction.WellNamed (instruction : Instruction) : Prop where
  fieldOwner : ∀ use, instruction.operation = .access use → ¬ IsArrayName use.owner
  operand : ∀ text ∈ instruction.operand?, ∃ operand : ClassOperand, operand.text = text

/-- A body whose handlers, instructions and variables are well formed. -/
structure Code.WellNamed (code : Code) : Prop where
  handlers : PlainNames (code.handlers.filterMap ExceptionHandler.catchType)
  instructions : ∀ instruction ∈ code.instructions, instruction.WellNamed
  locals : ∀ entry ∈ code.locals, entry.WellNamed

/-- A method whose descriptor, signature and body are well formed. -/
structure MethodDecl.WellNamed (method : MethodDecl) : Prop where
  descriptor : ∃ type : MethodType, type.text = method.descriptor
  signature : ∀ text ∈ method.signature, IsSignature .method text
  exceptions : PlainNames method.exceptions
  annotations : PlainNames method.annotations
  code : ∀ code ∈ method.code, code.WellNamed

/-- A class that names classes where it should, and whose descriptors and signatures are
well formed.  The receivers of calls and the strings are left open. -/
structure ClassDecl.WellNamed (decl : ClassDecl) : Prop where
  superName : PlainNames decl.superName.toList
  interfaces : PlainNames decl.interfaces
  signature : ∀ text ∈ decl.signature, IsSignature (.type decl.access.isInterface) text
  annotations : PlainNames decl.annotations
  fields : ∀ field ∈ decl.fields, field.WellNamed
  methods : ∀ method ∈ decl.methods, method.WellNamed

/-! What well-formed texts name. -/

/-- A well-formed signature names no array. -/
theorem IsSignature.noArrays {owner : SignatureOwner} {text : String}
    (h : IsSignature owner text) {types : List SignatureType}
    (hread : readSignature owner text = .ok types) : Signature.NoArrays types := by
  obtain ⟨signature, rfl, rfl⟩ := h
  rw [readSignature, Signature.destructure_eq_map_reverse] at hread
  simp only [Functor.map, Except.map, List.reverse_reverse, mapError_ok, Except.ok.injEq]
    at hread
  rw [← hread]
  exact signature.named_noArrays

/-- A well-formed field descriptor names no array. -/
theorem not_isArrayName_of_readFieldType {descriptor name : String}
    (h : ∃ type : FieldType, type.text = descriptor)
    (hread : readFieldType descriptor = .ok (some name)) : ¬ IsArrayName name := by
  obtain ⟨type, rfl⟩ := h
  rw [readFieldType_text, Except.ok.injEq] at hread
  exact ElementType.not_isArrayName hread

/-- A well-formed method descriptor names no array. -/
theorem plainNames_of_readMethodTypes {descriptor : String} {types : MethodTypes}
    (h : ∃ type : MethodType, type.text = descriptor)
    (hread : readMethodTypes descriptor = .ok types) :
    PlainNames (types.parameterClasses ++ types.resultClass.toList) := by
  obtain ⟨type, rfl⟩ := h
  obtain ⟨slots, hslots⟩ := readMethodTypes_text type
  rw [hslots, Except.ok.injEq] at hread
  rw [← hread]
  intro name hmem
  rcases List.mem_append.mp hmem with hparameter | hresult
  · obtain ⟨parameter, -, hclass⟩ := List.mem_filterMap.mp hparameter
    exact ElementType.not_isArrayName hclass
  · obtain ⟨result, -, hclass⟩ := Option.bind_eq_some_iff.mp (Option.mem_toList.mp hresult)
    exact ElementType.not_isArrayName hclass

/-- Texts that name classes where they should and are well formed otherwise. -/
structure DeclaredTexts.WellNamed (texts : DeclaredTexts) : Prop where
  names : PlainNames texts.names
  fieldTypes : ∀ text ∈ texts.fieldTypes, ∃ type : FieldType, type.text = text
  methodTypes : ∀ text ∈ texts.methodTypes, ∃ type : MethodType, type.text = text
  signatures : ∀ entry ∈ texts.signatures, IsSignature entry.1 entry.2

theorem PlainNames.append {left right : List String} (hleft : PlainNames left)
    (hright : PlainNames right) : PlainNames (left ++ right) := by
  intro name hmem
  exact (List.mem_append.mp hmem).elim (hleft name) (hright name)

theorem isSignature_of_mem {owner : SignatureOwner} {signature : Option String}
    (h : ∀ text ∈ signature, IsSignature owner text) :
    ∀ entry ∈ signature.toList.map (Prod.mk owner), IsSignature entry.1 entry.2 := by
  intro entry hmem
  obtain ⟨text, htext, rfl⟩ := List.mem_map.mp hmem
  exact h text (Option.mem_toList.mp htext)

theorem FieldDecl.WellNamed.texts {field : FieldDecl} (h : field.WellNamed) :
    field.texts.WellNamed where
  names := h.annotations
  fieldTypes := by simpa [FieldDecl.texts] using h.descriptor
  methodTypes := by simp [FieldDecl.texts]
  signatures := isSignature_of_mem h.signature

theorem LocalVariable.WellNamed.texts {entry : LocalVariable} (h : entry.WellNamed) :
    entry.texts.WellNamed where
  names := by simp [PlainNames, LocalVariable.texts]
  fieldTypes := by simpa [LocalVariable.texts] using h.descriptor
  methodTypes := by simp [LocalVariable.texts]
  signatures := isSignature_of_mem h.signature

theorem MethodDecl.WellNamed.texts {method : MethodDecl} (h : method.WellNamed) :
    method.texts.WellNamed where
  names := h.exceptions.append h.annotations
  fieldTypes := by simp [MethodDecl.texts]
  methodTypes := by simpa [MethodDecl.texts] using h.descriptor
  signatures := isSignature_of_mem h.signature

theorem Code.WellNamed.handlerTexts {code : Code} (h : code.WellNamed) :
    code.handlerTexts.WellNamed where
  names := h.handlers
  fieldTypes := by simp [Code.handlerTexts]
  methodTypes := by simp [Code.handlerTexts]
  signatures := by simp [Code.handlerTexts]

namespace ClassDecl.WellNamed

variable {decl : ClassDecl}

theorem texts (h : decl.WellNamed) : decl.texts.WellNamed where
  names := (h.superName.append h.interfaces).append h.annotations
  fieldTypes := by simp [ClassDecl.texts]
  methodTypes := by simp [ClassDecl.texts]
  signatures := isSignature_of_mem h.signature

theorem body (h : decl.WellNamed) {method : MethodDecl} (hmethod : method ∈ decl.methods)
    {code : Code} (hbody : method.body? = some code) : code.WellNamed := by
  rw [MethodDecl.body?] at hbody
  split at hbody
  · cases hbody
  · exact (h.methods method hmethod).code code hbody

theorem instruction (h : decl.WellNamed) {method : MethodDecl} {earlier : List Instruction}
    {instruction : Instruction} (hinstruction : InstructionOf decl method earlier instruction) :
    instruction.WellNamed := by
  obtain ⟨hmethod, code, later, hbody, hsplit⟩ := hinstruction
  exact (h.body hmethod hbody).instructions instruction (by simp [hsplit])

/-- All declarations of a well-named class have well-formed texts. -/
theorem declares (h : decl.WellNamed) {source : MemberHandle} {texts : DeclaredTexts}
    (hdeclares : DeclaresIn decl source texts) : texts.WellNamed := by
  cases hdeclares with
  | header => exact h.texts
  | field hfield => exact (h.fields _ hfield).texts
  | method hmethod => exact (h.methods _ hmethod).texts
  | handlers hmethod hbody => exact (h.body hmethod hbody).handlerTexts
  | localVariable hmethod hbody hentry => exact ((h.body hmethod hbody).locals _ hentry).texts

end ClassDecl.WellNamed

/-- What a well-formed text names is no array. -/
theorem Mention.not_isArrayName {texts : DeclaredTexts} {source : MemberHandle}
    {reference : Reference} (hnamed : texts.WellNamed) (h : Mention texts source reference) :
    ¬ IsArrayName reference.typeName := by
  induction h with
  | name hname _ => exact mt isArrayName_qualifiedName.mp (hnamed.names _ hname)
  | fieldType hdescriptor hread _ =>
      exact not_isArrayName_of_readFieldType (hnamed.fieldTypes _ hdescriptor) hread
  | methodType hdescriptor hread hname _ =>
      exact plainNames_of_readMethodTypes (hnamed.methodTypes _ hdescriptor) hread _ hname
  | signature hsignature hread htype =>
      exact (hnamed.signatures _ hsignature).noArrays hread _ htype
  | placed _ ih => exact ih

end Linkage
