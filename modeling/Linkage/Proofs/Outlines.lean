import Linkage.Proofs.Records
import Linkage.Proofs.SuperChains
/-
Outlines.  The outline of a class is the class without its list of nested types.
What a type itself records depends on the outlines of the known classes only: two
universes with the same outlines give the same entries to a type, line by line.
-/

namespace Linkage

/-- The class without its list of nested types. -/
def ClassDecl.outline (decl : ClassDecl) : ClassDecl := { decl with nestedTypes := [] }

/-- The found method with the outline of its owner. -/
def FoundMethod.outline (found : FoundMethod) : FoundMethod :=
  { found with owner := found.owner.outline }

/-- Two universes know the same classes, which may list different nested types. -/
def Universe.SameOutlines (known other : Universe) : Prop :=
  ∀ name, (known.lookup name).map ClassDecl.outline = (other.lookup name).map ClassDecl.outline

/-- Optional values with one image are both missing or both there. -/
theorem none_or_some_of_map_eq {α β : Type} {view : α → β} {left right : Option α}
    (h : left.map view = right.map view) :
    (left = none ∧ right = none) ∨
      ∃ a b, left = some a ∧ right = some b ∧ view a = view b := by
  cases left with
  | none => exact .inl ⟨rfl, Option.map_eq_none_iff.mp h.symm⟩
  | some a =>
      obtain ⟨b, hright, hsame⟩ := Option.map_eq_some_iff.mp h.symm
      exact .inr ⟨a, b, rfl, hright, hsame.symm⟩

/-- The outline of an indexed class. -/
def IndexedClass.outline (type : IndexedClass) : ClassDecl := type.decl.outline

namespace IndexedClass

variable {type other : IndexedClass}

theorem name_eq_of_outline (h : type.outline = other.outline) : type.name = other.name := by
  rw [type.name_eq, other.name_eq]
  exact congrArg (fun decl => decl.qualifiedName) h

theorem superName_eq_of_outline (h : type.outline = other.outline) :
    type.superName = other.superName := by
  rw [type.superName_eq, other.superName_eq]
  exact congrArg (fun decl => decl.superName.map qualifiedName) h

theorem interfaces_eq_of_outline (h : type.outline = other.outline) :
    type.interfaces = other.interfaces := by
  rw [type.interfaces_eq, other.interfaces_eq]
  exact congrArg (fun decl => decl.interfaces.map qualifiedName) h

theorem findMethod_eq_of_outline (h : type.outline = other.outline) (name descriptor : String) :
    type.findMethod name descriptor = other.findMethod name descriptor := by
  rw [findMethod_eq, findMethod_eq]
  exact congrArg (fun decl => decl.findMethod name descriptor) h

end IndexedClass

namespace Universe

variable {known other : Universe}

theorem SameOutlines.find? (h : known.SameOutlines other) (name : String) :
    (known.find? name).map IndexedClass.outline = (other.find? name).map IndexedClass.outline := by
  have hlookup := h name
  rw [lookup, lookup, Option.map_map, Option.map_map] at hlookup
  exact hlookup

theorem SameOutlines.find?_cases (h : known.SameOutlines other) (name : String) :
    (known.find? name = none ∧ other.find? name = none) ∨
      ∃ type twin, known.find? name = some type ∧ other.find? name = some twin ∧
        type.outline = twin.outline :=
  none_or_some_of_map_eq (h.find? name)

theorem SameOutlines.find?_none (h : known.SameOutlines other) {name : String}
    (hname : known.find? name = none) : other.find? name = none := by
  have hsame := h.find? name
  rw [hname] at hsame
  exact Option.map_eq_none_iff.mp hsame.symm

theorem SameOutlines.find?_some (h : known.SameOutlines other) {name : String}
    {type : IndexedClass} (hname : known.find? name = some type) :
    ∃ twin, other.find? name = some twin ∧ type.outline = twin.outline := by
  have hsame := h.find? name
  rw [hname] at hsame
  obtain ⟨twin, htwin, heq⟩ := Option.map_eq_some_iff.mp hsame.symm
  exact ⟨twin, htwin, heq.symm⟩

namespace SameOutlines

variable (h : known.SameOutlines other)

include h

theorem superClasses_outline (seen : Std.HashSet String) (next : Option String) :
    (known.superClasses seen next).map IndexedClass.outline =
      (other.superClasses seen next).map IndexedClass.outline := by
  fun_induction Universe.superClasses known seen next with
  | case1 seen => simp [Universe.superClasses]
  | case2 seen name hseen => simp [Universe.superClasses, hseen]
  | case3 seen name hseen hfound => rw [superClasses_unknown (h.find?_none hfound)]
  | case4 seen name hseen type hfound ih =>
      obtain ⟨twin, htwin, hsame⟩ := h.find?_some hfound
      rw [superClasses_known hseen htwin, List.map_cons, List.map_cons, ih, hsame,
        IndexedClass.superName_eq_of_outline hsame]

theorem searchInterfaces_outline (name descriptor : String) (seen : Std.HashSet String)
    (pending : List String) :
    (known.searchInterfaces name descriptor seen pending).map FoundMethod.outline =
      (other.searchInterfaces name descriptor seen pending).map FoundMethod.outline := by
  fun_induction Universe.searchInterfaces known name descriptor seen pending with
  | case1 => simp [Universe.searchInterfaces]
  | case2 seen head rest hseen ih =>
      rw [ih, Universe.searchInterfaces.eq_def other name descriptor seen (head :: rest)]
      simp [hseen]
  | case3 seen head rest hseen hfound ih =>
      rw [ih, searchInterfaces_unknown (h.find?_none hfound)]
  | case4 seen head rest hseen type hfound method hmethod =>
      obtain ⟨twin, htwin, hsame⟩ := h.find?_some hfound
      rw [IndexedClass.findMethod_eq_of_outline hsame] at hmethod
      rw [searchInterfaces_known hseen htwin, hmethod]
      simp only [Option.map_some, FoundMethod.outline]
      exact congrArg (fun owner => some (FoundMethod.mk owner method)) hsame
  | case5 seen head rest hseen type hfound hmethod ih =>
      obtain ⟨twin, htwin, hsame⟩ := h.find?_some hfound
      rw [IndexedClass.findMethod_eq_of_outline hsame] at hmethod
      rw [searchInterfaces_known hseen htwin, hmethod, ih,
        IndexedClass.interfaces_eq_of_outline hsame]

omit h in
theorem declaredIn_outline {classes others : List IndexedClass}
    (hsame : classes.map IndexedClass.outline = others.map IndexedClass.outline)
    (name descriptor : String) :
    (declaredIn classes name descriptor).map FoundMethod.outline =
      (declaredIn others name descriptor).map FoundMethod.outline := by
  have hread : ∀ types : List IndexedClass,
      (declaredIn types name descriptor).map FoundMethod.outline =
        (types.map IndexedClass.outline).findSome? (fun decl =>
          (decl.findMethod name descriptor).map (FoundMethod.mk decl)) := by
    intro types
    rw [declaredIn, List.map_findSome?, List.findSome?_map]
    congr 1
    funext type
    simp only [IndexedClass.findMethod_eq, Function.comp_apply, Option.map_map]
    rfl
  rw [hread, hread, hsame]

omit h in
theorem interfaces_outline {classes others : List IndexedClass}
    (hsame : classes.map IndexedClass.outline = others.map IndexedClass.outline) :
    classes.flatMap IndexedClass.interfaces = others.flatMap IndexedClass.interfaces := by
  have hread : ∀ types : List IndexedClass, types.flatMap IndexedClass.interfaces =
      (types.map IndexedClass.outline).flatMap (fun decl =>
        decl.interfaces.map qualifiedName) := by
    intro types
    rw [List.flatMap_map]
    congr 1
    funext type
    exact type.interfaces_eq
  rw [hread, hread, hsame]

theorem properSuperClasses_outline {type twin : IndexedClass}
    (hsame : type.outline = twin.outline) :
    (known.properSuperClasses type).map IndexedClass.outline =
      (other.properSuperClasses twin).map IndexedClass.outline := by
  rw [properSuperClasses, properSuperClasses, IndexedClass.name_eq_of_outline hsame,
    IndexedClass.superName_eq_of_outline hsame]
  exact h.superClasses_outline _ _

theorem findClassMethod_outline {owner : String} {type twin : IndexedClass}
    (htype : known.find? owner = some type) (htwin : other.find? owner = some twin)
    (hsame : type.outline = twin.outline)
    (name descriptor : String) :
    (known.findClassMethod type name descriptor).map FoundMethod.outline =
      (other.findClassMethod twin name descriptor).map FoundMethod.outline := by
  have hpath : (known.superClassPath type).map IndexedClass.outline =
      (other.superClassPath twin).map IndexedClass.outline := by
    rw [superClassPath, superClassPath, List.map_cons, List.map_cons, hsame,
      h.properSuperClasses_outline hsame]
  have haccess : type.decl.access = twin.decl.access := congrArg (fun decl => decl.access) hsame
  rw [findClassMethod_eq htype, findClassMethod_eq htwin]
  rcases none_or_some_of_map_eq (declaredIn_outline hpath name descriptor) with
    ⟨hnone, htwin⟩ | ⟨found, foundTwin, hfound, htwin, heq⟩
  · simp only [hnone, htwin, haccess, interfaces_outline hpath]
    split
    · exact h.searchInterfaces_outline _ _ _ _
    · rfl
  · simp only [hfound, htwin, Option.map_some, heq]

/-- Default methods are inherited from the same interfaces. -/
theorem defaultProvider_outline {type twin : IndexedClass} (hsame : type.outline = twin.outline)
    (name descriptor : String) :
    (known.defaultProvider type name descriptor).map ClassDecl.outline =
      (other.defaultProvider twin name descriptor).map ClassDecl.outline := by
  have hsupers := h.properSuperClasses_outline hsame
  have hall : (type :: known.properSuperClasses type).map IndexedClass.outline =
      (twin :: other.properSuperClasses twin).map IndexedClass.outline := by
    rw [List.map_cons, List.map_cons, hsame, hsupers]
  rw [defaultProvider, defaultProvider]
  rcases none_or_some_of_map_eq (declaredIn_outline hsupers name descriptor) with
    ⟨hnone, htwin⟩ | ⟨found, foundTwin, hfound, htwin, -⟩
  · simp only [hnone, htwin, interfaces_outline hall]
    rcases none_or_some_of_map_eq (h.searchInterfaces_outline name descriptor ∅
        ((twin :: other.properSuperClasses twin).flatMap IndexedClass.interfaces)) with
      ⟨hnone, htwin⟩ | ⟨found, foundTwin, hfound, htwin, heq⟩
    · simp only [hnone, htwin]
    · have hmethod : found.method = foundTwin.method := congrArg (fun found => found.method) heq
      have howner : found.owner.outline = foundTwin.owner.outline :=
        congrArg (fun found => found.owner) heq
      simp only [hfound, htwin, hmethod]
      split
      · exact congrArg some howner
      · rfl
  · simp only [hfound, htwin]

/-- The same calls reach default methods. -/
theorem callsDefault_eq (call : CallSite) : known.callsDefault call = other.callsDefault call := by
  have hfound : (known.findMethod .virtualCall (qualifiedName call.owner) call.name
        call.descriptor).map FoundMethod.outline =
      (other.findMethod .virtualCall (qualifiedName call.owner) call.name
        call.descriptor).map FoundMethod.outline := by
    rw [findMethod, findMethod]
    rcases h.find?_cases (qualifiedName call.owner) with
      ⟨hnone, htwin⟩ | ⟨type, twin, htype, htwin, hsame⟩
    · simp only [hnone, htwin]
    · simp only [htype, htwin]
      exact h.findClassMethod_outline htype htwin hsame _ _
  rw [callsDefault, callsDefault]
  rcases none_or_some_of_map_eq hfound with
    ⟨hnone, htwin⟩ | ⟨found, foundTwin, hfound, htwin, heq⟩
  · simp only [hnone, htwin]
    rcases h.find?_cases (qualifiedName call.owner) with
      ⟨hunknown, htwin⟩ | ⟨type, twin, htype, htwin, hsame⟩
    · simp only [hunknown, htwin]
    · have hprovider := h.defaultProvider_outline hsame call.name call.descriptor
      simp only [htype, htwin]
      rw [← Option.isSome_map, hprovider, Option.isSome_map]
  · have hmethod : found.method = foundTwin.method := congrArg (fun found => found.method) heq
    have haccess : found.owner.access = foundTwin.owner.access :=
      congrArg (fun found => found.owner.access) heq
    simp only [hfound, htwin, hmethod, haccess]

end SameOutlines

end Universe

/-- Local variables declare the same types whatever a glossary has worked out. -/
theorem localReferences_glossary (glossary other : Glossary) :
    localReferences glossary = localReferences other := by
  have hvariable : variableReferences glossary = variableReferences other := by
    funext source entry
    simp only [variableReferences, Table.get_eq]
  have hdeclare : DeclaredLocals.declare glossary = DeclaredLocals.declare other := by
    funext source firstLocal state entry
    simp only [DeclaredLocals.declare, hvariable]
  funext source firstLocal entries markers
  rw [localReferences, localReferences, hdeclare]

/-- Two sites whose members record the same: they declare the same members under one name, and
resolve their calls and their inherited default methods alike. -/
structure TypeSite.MembersAlike (site twin : TypeSite) : Prop where
  scope_eq : site.scope = twin.scope
  superType_eq : site.superType = twin.superType
  fields_eq : site.decl.fields = twin.decl.fields
  methods_eq : site.decl.methods = twin.decl.methods
  supportsDefaultMethods_eq :
    site.decl.supportsDefaultMethods = twin.decl.supportsDefaultMethods
  calls_eq : ∀ call, site.known.callsDefault call = twin.known.callsDefault call
  providers_eq : ∀ key, (site.known.providerOf site.type key).map ClassDecl.outline =
    (twin.known.providerOf twin.type key).map ClassDecl.outline

/-- Two sites between which a type cannot tell: they show it one outline as well. -/
structure TypeSite.Alike (site twin : TypeSite) : Prop extends site.MembersAlike twin where
  outline_eq : site.decl.outline = twin.decl.outline

/-- Universes with the same outlines give alike sites to classes with the same outline. -/
theorem Universe.SameOutlines.alike {known other : Universe} (h : known.SameOutlines other)
    {decl twin : ClassDecl} (hsame : decl.outline = twin.outline) :
    (TypeSite.of known decl).Alike (TypeSite.of other twin) where
  outline_eq := hsame
  scope_eq := congrArg (fun decl => (⟨decl.qualifiedName, decl.qualifiedName ++ "$", rfl⟩ : Scope))
    hsame
  superType_eq := congrArg (fun decl => decl.superType?) hsame
  fields_eq := congrArg (fun decl => decl.fields) hsame
  methods_eq := congrArg (fun decl => decl.methods) hsame
  supportsDefaultMethods_eq := congrArg (fun decl => decl.supportsDefaultMethods) hsame
  calls_eq := h.callsDefault_eq
  providers_eq key := by
    have htypes : (IndexedClass.of decl).outline = (IndexedClass.of twin).outline := hsame
    exact h.defaultProvider_outline htypes key.1 key.2

namespace TypeSite.MembersAlike

variable {site twin : TypeSite} (h : site.MembersAlike twin)

include h

theorem name_eq : site.name = twin.name := congrArg Scope.name h.scope_eq

theorem fieldDrafts_eq (field : FieldDecl) : site.fieldDrafts field = twin.fieldDrafts field := by
  simp only [fieldDrafts, fieldTypeDrafts, Glossary.typeReferences, Table.get_eq, fieldHandle,
    h.name_eq]

theorem addField_eq (options : ExtractOptions) : addField options site = addField options twin := by
  funext entries field
  simp only [addField, h.fieldDrafts_eq, h.scope_eq]

theorem overrideReferences_eq (method : MethodDecl) :
    site.overrideReferences method = twin.overrideReferences method := by
  rcases none_or_some_of_map_eq (h.providers_eq method.key) with
    ⟨hnone, htwin⟩ | ⟨provider, providerTwin, hprovider, htwin, heq⟩
  · simp only [overrideReferences, h.superType_eq, methodHandle, h.name_eq, Table.get_eq, hnone,
      htwin]
  · have hname : provider.qualifiedName = providerTwin.qualifiedName :=
      congrArg (fun decl => decl.qualifiedName) heq
    simp only [overrideReferences, h.superType_eq, methodHandle, h.name_eq, Table.get_eq,
      hprovider, htwin, hname]

theorem methodReferences_eq (method : MethodDecl) (types : MethodTypes) :
    site.methodReferences method types = twin.methodReferences method types := by
  simp only [methodReferences, methodHeaderReferences, methodTypeReferences,
    exceptionReferences, throwsInSignature, Glossary.typeReferences, Table.get_eq, methodHandle,
    h.name_eq, h.overrideReferences_eq]

theorem virtualFlags_eq (method : MethodDecl) (call : CallSite) :
    (BodySite.of site method).virtualFlags call = (BodySite.of twin method).virtualFlags call := by
  simp only [BodySite.virtualFlags, BodySite.of, Table.get_eq, h.calls_eq,
    h.supportsDefaultMethods_eq]

theorem isSuperCall_eq (method : MethodDecl) (state : CallState) (owner : String) :
    (BodySite.of site method).isSuperCall state owner =
      (BodySite.of twin method).isSuperCall state owner := by
  have hsuper :
      (BodySite.of site method).type.superType = (BodySite.of twin method).type.superType :=
    h.superType_eq
  rw [BodySite.isSuperCall, BodySite.isSuperCall, hsuper]
  rfl

theorem source_eq (method : MethodDecl) :
    (BodySite.of site method).source = (BodySite.of twin method).source := by
  simp only [BodySite.of, methodHandle, h.name_eq]

theorem callDrafts_eq (method : MethodDecl) (state : CallState) (owner : String)
    (call : CallSite) :
    (BodySite.of site method).callDrafts state owner call =
      (BodySite.of twin method).callDrafts state owner call := by
  simp only [BodySite.callDrafts, BodySite.forNameReferences, BodySite.callReference,
    h.virtualFlags_eq, h.isSuperCall_eq, h.source_eq, BodySite.qualified, Table.get_eq]

theorem drafts_eq (method : MethodDecl) (state : CallState) (instruction : Instruction) :
    (BodySite.of site method).drafts state instruction =
      (BodySite.of twin method).drafts state instruction := by
  simp only [BodySite.drafts, BodySite.fieldDraft, BodySite.operandDrafts, h.callDrafts_eq,
    h.source_eq, BodySite.qualified, Table.get_eq]
  rfl

theorem after_eq (method : MethodDecl) (state : CallState) (instruction : Instruction) :
    (BodySite.of site method).after state instruction =
      (BodySite.of twin method).after state instruction := by
  simp only [BodySite.after, BodySite.afterCall, h.isSuperCall_eq, BodySite.qualified,
    Table.get_eq]

theorem through_eq (options : ExtractOptions) (method : MethodDecl) (localTypes : LocalTypes)
    (code : Code) (timeline : Array Moment) (entries : Array Entry) :
    BodyWalk.through options (.of site method) localTypes code timeline entries =
      BodyWalk.through options (.of twin method) localTypes code timeline entries := by
  have hscope : (BodySite.of site method).type.scope = (BodySite.of twin method).type.scope :=
    h.scope_eq
  have hrecord : BodyWalk.record options (.of site method) =
      BodyWalk.record options (.of twin method) := by
    funext walk draft
    simp only [BodyWalk.record, hscope]
  have hcatch : BodyWalk.recordCatch options (.of site method) =
      BodyWalk.recordCatch options (.of twin method) := by
    funext walk handler
    simp only [BodyWalk.recordCatch, hrecord, h.source_eq, BodySite.qualified, Table.get_eq]
  have hmeet : BodyWalk.meet options (.of site method) localTypes =
      BodyWalk.meet options (.of twin method) localTypes := by
    funext walk moment
    cases moment with
    | label pc => rfl
    | run instruction =>
        simp only [BodyWalk.meet, hrecord, h.drafts_eq, h.after_eq, replayed,
          BodySite.qualified, Table.get_eq]
  rw [BodyWalk.through, BodyWalk.through, hcatch, hmeet]

theorem addBody_eq (options : ExtractOptions) (method : MethodDecl) (localTypes : LocalTypes)
    (firstLocal : Nat) (code : Code) (entries : Array Entry) :
    addBody options (.of site method) localTypes firstLocal code entries =
      addBody options (.of twin method) localTypes firstLocal code entries := by
  have hscope : (BodySite.of site method).type.scope = (BodySite.of twin method).type.scope :=
    h.scope_eq
  rw [addBody, addBody, localReferences_glossary _ (BodySite.of twin method).type.glossary,
    h.source_eq, h.through_eq, hscope]

theorem addMethod_eq (options : ExtractOptions) (localTypes : LocalTypes) :
    addMethod options site localTypes = addMethod options twin localTypes := by
  funext entries method
  simp only [addMethod, Table.get_eq, h.methodReferences_eq, h.scope_eq, h.addBody_eq]

theorem addMethods_eq (options : ExtractOptions) (localTypes : LocalTypes) :
    addMethods options site localTypes = addMethods options twin localTypes := by
  funext methods entries
  simp only [addMethods, h.addMethod_eq]

/-! Drafts of members. -/

theorem instructionDrafts_eq (method : MethodDecl) (instructions : List Instruction)
    (state : CallState) : (BodySite.of site method).instructionDrafts state instructions =
      (BodySite.of twin method).instructionDrafts state instructions := by
  induction instructions generalizing state with
  | nil => rfl
  | cons instruction rest ih =>
      rw [BodySite.instructionDrafts, BodySite.instructionDrafts, h.drafts_eq, h.after_eq, ih]

theorem bodyDrafts_eq (method : MethodDecl) (firstLocal : Nat) (code : Code) :
    (BodySite.of site method).bodyDrafts firstLocal code =
      (BodySite.of twin method).bodyDrafts firstLocal code := by
  simp only [BodySite.bodyDrafts, BodySite.catchDrafts, BodySite.qualified, Table.get_eq,
    h.source_eq, h.instructionDrafts_eq,
    localReferences_glossary _ (BodySite.of twin method).type.glossary]

theorem fieldsDrafts_eq : site.fieldsDrafts = twin.fieldsDrafts := by
  simp only [fieldsDrafts, h.fields_eq, h.fieldDrafts_eq]

theorem methodsDrafts_eq : site.methodsDrafts = twin.methodsDrafts := by
  simp only [methodsDrafts, methodDrafts, h.methods_eq, Table.get_eq, h.methodReferences_eq,
    h.bodyDrafts_eq]

end TypeSite.MembersAlike

namespace TypeSite.Alike

variable {site twin : TypeSite} (h : site.Alike twin)

include h

theorem access_eq : site.decl.access = twin.decl.access :=
  congrArg (fun decl => decl.access) h.outline_eq

theorem headerReferences_eq : site.headerReferences = twin.headerReferences := by
  have hsignature : site.decl.signature = twin.decl.signature :=
    congrArg (fun decl => decl.signature) h.outline_eq
  have hinterfaces : site.decl.interfaces = twin.decl.interfaces :=
    congrArg (fun decl => decl.interfaces) h.outline_eq
  have hsuper : site.decl.superName = twin.decl.superName :=
    congrArg (fun decl => decl.superName) h.outline_eq
  simp only [headerReferences, Glossary.typeReferences, Table.get_eq, handle, h.name_eq,
    h.access_eq, hsignature, hinterfaces, hsuper]

theorem annotationReferences_eq : site.annotationReferences = twin.annotationReferences := by
  have hannotations : site.decl.annotations = twin.decl.annotations :=
    congrArg (fun decl => decl.annotations) h.outline_eq
  simp only [annotationReferences, Glossary.typeReferences, Table.get_eq, handle, h.name_eq,
    hannotations]

theorem headerEntries_eq (options : ExtractOptions) :
    headerEntries options site = headerEntries options twin := by
  simp only [headerEntries, h.headerReferences_eq, h.annotationReferences_eq, h.scope_eq]

end TypeSite.Alike

end Linkage
