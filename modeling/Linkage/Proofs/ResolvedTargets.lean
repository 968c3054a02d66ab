import Linkage.Proofs.DefaultMethods
/-
Resolved targets.  The member that resolution finds is declared by a known type, which
its handle names: a class on the path of the owner or, for methods, an interface of
such a class or the root type.  Hierarchies may be incomplete or cyclic.
-/

namespace Linkage

/-- Whether a class declares a field with a name. -/
def ClassDecl.DeclaresField (decl : ClassDecl) (name : String) : Prop :=
  ∃ field ∈ decl.fields, field.name = name

theorem ClassDecl.findField_eq_none_iff {decl : ClassDecl} {name : String} :
    decl.findField name = none ↔ ¬ decl.DeclaresField name := by
  simp [ClassDecl.findField, ClassDecl.DeclaresField]

/-- A field of the first class of a path that declares one of the name. -/
def NearestField (path : List ClassDecl) (name : String) (found : FoundField) : Prop :=
  NearestOn path (fun type => type.DeclaresField name) (fun type => type.findField name)
    found.owner found.field

/-- The types that may declare the method of a call: the classes of a path, their super
interfaces and, for an interface call, the root type. -/
inductive MayHold (known : Universe) (kind : ReferenceKind) (path : List ClassDecl) :
    ClassDecl → Prop where
  | onPath {type : ClassDecl} (hmem : type ∈ path) : MayHold known kind path type
  | interface {type super : ClassDecl} (hmem : type ∈ path)
      (hsuper : SuperInterface known type super) : MayHold known kind path super
  | root {type : ClassDecl} (hkind : kind = .interfaceCall)
      (hroot : known.lookup "java.lang.Object" = some type) : MayHold known kind path type

/-- A handle names a field that its owner has or inherits, and that is not synthetic. -/
structure IsFieldTarget (known : Universe) (owner name : String) (handle : MemberHandle)
    (path : List ClassDecl) (found : FoundField) : Prop where
  isClassPath : IsClassPath known owner path
  nearest : NearestField path name found
  plain : found.field.access.isSynthetic = false
  handle_eq : handle = .field handle.typeName name
  lookup_eq : known.lookup handle.typeName = some found.owner

/-- A handle names a method that a call may find from its owner, and that is not synthetic. -/
structure IsMethodTarget (known : Universe) (kind : ReferenceKind)
    (owner name descriptor : String) (handle : MemberHandle) (path : List ClassDecl)
    (holder : ClassDecl) : Prop where
  isClassPath : IsClassPath known owner path
  mayHold : MayHold known kind path holder
  declares : ∃ method ∈ holder.methods, method.name = name ∧
    method.descriptor = descriptor ∧ method.access.isSynthetic = false
  handle_eq : handle = .method handle.typeName name descriptor
  lookup_eq : known.lookup handle.typeName = some holder

/-- A handle is what a reference denotes in a universe, by what the reference points at. -/
structure Denotes (known : Universe) (reference : Reference) (handle : MemberHandle) :
    Prop where
  type : reference.kind.target = .type →
    handle = .type reference.typeName ∧ ∃ decl, known.lookup reference.typeName = some decl
  field : reference.kind.target = .field →
    ∃ name path found, reference.memberName = some name ∧
      IsFieldTarget known reference.typeName name handle path found
  /-- A call that takes any descriptor keeps its own; any other finds a declaration. -/
  method : reference.kind.target = .method →
    ∃ name descriptor, reference.memberName = some name ∧
      reference.signature = some descriptor ∧
      ((reference.kind = .virtualCall ∧ PolymorphicCall known reference.typeName name ∧
          handle = .method reference.typeName name descriptor) ∨
        ∃ path holder, IsMethodTarget known reference.kind reference.typeName name descriptor
          handle path holder)

/-! Where the walks find members. -/

/-- The classes that a walk upwards meets are known under their names. -/
theorem ClassesFrom.lookup_of_mem {known : Universe} {met : List String} {next : Option String}
    {path : List ClassDecl} (h : ClassesFrom known met next path) {type : ClassDecl}
    (hmem : type ∈ path) : known.lookup type.qualifiedName = some type := by
  induction h with
  | top => simp at hmem
  | unknown _ => simp at hmem
  | repeated _ => simp at hmem
  | step _ hname _ ih =>
      rcases List.mem_cons.mp hmem with rfl | hrest
      · rw [Universe.lookup_name hname]
        exact hname
      · exact ih hrest

theorem MayHold.lookup_eq {known : Universe} {kind : ReferenceKind} {owner : String}
    {path : List ClassDecl} (hpath : IsClassPath known owner path) {holder : ClassDecl}
    (h : MayHold known kind path holder) :
    known.lookup holder.qualifiedName = some holder := by
  cases h with
  | onPath hmem => exact hpath.lookup_of_mem hmem
  | interface _ hsuper =>
      obtain ⟨_, hdeclares⟩ := hsuper.exists_declares
      exact hdeclares.lookup_eq
  | root _ hroot =>
      rw [Universe.lookup_name hroot]
      exact hroot

namespace Universe

variable {known : Universe} {owner name descriptor : String}

/-- The search along listed classes finds the field of the first that declares one. -/
theorem findSome?_findField_eq_some_iff {classes : List IndexedClass} {found : FoundField} :
    classes.findSome? (fun type =>
        (type.findField name).map (fun field => (⟨type.decl, field⟩ : FoundField))) = some found ↔
      NearestField (classes.map IndexedClass.decl) name found := by
  have hnone : ∀ type : ClassDecl, type.findField name = none ↔ ¬ type.DeclaresField name :=
    fun _ => ClassDecl.findField_eq_none_iff
  simp only [IndexedClass.findField_eq]
  exact findSome?_eq_some_iff_nearestOn hnone fun _ _ _ _ => FoundField.mk.inj

/-- A field is found exactly where the nearest class on the path declares it. -/
theorem findField_eq_some_iff {found : FoundField} :
    known.findField owner name = some found ↔
      ∃ path, IsClassPath known owner path ∧ NearestField path name found := by
  cases hstart : known.find? owner with
  | none =>
      simp only [findField, hstart, reduceCtorEq, false_iff]
      rintro ⟨path, hpath, hnearest⟩
      rw [hpath.unique (.unknown (lookup_eq_none_iff.mpr hstart))] at hnearest
      exact NearestOn.not_nil hnearest
  | some start =>
      rw [findField_eq hstart, findSome?_findField_eq_some_iff]
      have hwalk := superClassPath_isClassPath hstart
      constructor
      · intro hnearest
        exact ⟨_, hwalk, hnearest⟩
      · rintro ⟨path, hpath, hnearest⟩
        rwa [hpath.unique hwalk] at hnearest

/-- The search along listed classes finds a method in one of them. -/
theorem declaredIn_mem {classes : List IndexedClass} {hit : FoundMethod}
    (h : declaredIn classes name descriptor = some hit) :
    hit.owner ∈ classes.map IndexedClass.decl := by
  obtain ⟨nearer, farther, hsplit, -⟩ := declaredIn_eq_some_iff.mp h
  rw [hsplit]
  exact List.mem_append_right nearer List.mem_cons_self

theorem findClassMethod_mayHold {start : IndexedClass} {hit : FoundMethod}
    (hstart : known.find? owner = some start) (kind : ReferenceKind)
    (h : known.findClassMethod start name descriptor = some hit) :
    MayHold known kind ((known.superClassPath start).map IndexedClass.decl) hit.owner ∧
      hit.owner.findMethod name descriptor = some hit.method := by
  refine ⟨?_, findClassMethod_declares h⟩
  rw [findClassMethod_eq hstart] at h
  split at h
  · rename_i found hfound
    rw [← Option.some.inj h]
    exact .onPath (declaredIn_mem hfound)
  · split at h
    · obtain ⟨⟨type, htype, hsuper⟩, -⟩ := searchInterfaces_interfaceDeclaration h
      exact .interface htype hsuper
    · cases h

theorem findInterfaceMethod_mayHold {start : IndexedClass} {hit : FoundMethod}
    (h : known.findInterfaceMethod start name descriptor = some hit) :
    MayHold known .interfaceCall ((known.superClassPath start).map IndexedClass.decl)
        hit.owner ∧
      hit.owner.findMethod name descriptor = some hit.method := by
  have hstart : start.decl ∈ (known.superClassPath start).map IndexedClass.decl :=
    List.mem_map_of_mem List.mem_cons_self
  rw [findInterfaceMethod] at h
  split at h
  · rename_i method hmethod
    rw [← Option.some.inj h]
    rw [IndexedClass.findMethod_eq] at hmethod
    exact ⟨.onPath hstart, hmethod⟩
  · split at h
    · rename_i found hfound
      rw [← Option.some.inj h]
      have hinterfaces : start.interfaces = [start].flatMap IndexedClass.interfaces := by simp
      rw [hinterfaces] at hfound
      obtain ⟨⟨type, htype, hsuper⟩, hmethod⟩ := searchInterfaces_interfaceDeclaration hfound
      rw [List.map_singleton, List.mem_singleton] at htype
      subst htype
      exact ⟨.interface hstart hsuper, hmethod⟩
    · split at h
      · cases h
      · rename_i root hroot
        have howner : hit.owner = root.decl := by simpa using declaredIn_mem h
        refine ⟨.root rfl ?_, declaredIn_declares h⟩
        rw [howner]
        exact lookup_of_find? hroot

/-- A method is found where its owner may have it from. -/
theorem findMethod_mayHold {kind : ReferenceKind} {hit : FoundMethod}
    (h : known.findMethod kind owner name descriptor = some hit) :
    ∃ path, IsClassPath known owner path ∧ MayHold known kind path hit.owner ∧
      hit.owner.findMethod name descriptor = some hit.method := by
  rw [findMethod] at h
  split at h
  · cases h
  · rename_i start hstart
    refine ⟨_, superClassPath_isClassPath hstart, ?_⟩
    split at h
    · rename_i hkind
      rw [hkind]
      exact findInterfaceMethod_mayHold h
    · exact findClassMethod_mayHold hstart kind h

end Universe

/-! What resolution makes of them. -/

namespace Resolution

variable {known : Universe} {owner name descriptor : String} {handle : MemberHandle}

theorem isFieldTarget_of_fieldTarget (h : fieldTarget known owner name = some handle) :
    ∃ path found, IsFieldTarget known owner name handle path found := by
  rw [fieldTarget] at h
  split at h
  · cases h
  · rename_i found hfound
    split at h
    · cases h
    · rename_i hplain
      rw [Option.some.injEq] at h
      subst h
      obtain ⟨path, hpath, hnearest⟩ := Universe.findField_eq_some_iff.mp hfound
      have hlookup : known.lookup found.owner.qualifiedName = some found.owner := by
        obtain ⟨nearer, farther, hsplit, -⟩ := hnearest
        exact hpath.lookup_of_mem (by simp [hsplit])
      have hname : found.field.name = name := by
        obtain ⟨-, -, -, -, hfield⟩ := hnearest
        exact ClassDecl.findField_name hfield
      exact ⟨path, found, hpath, hnearest, Bool.not_eq_true _ ▸ hplain,
        by rw [hname]; rfl, hlookup⟩

theorem polymorphicTarget_eq_some_iff {kind : ReferenceKind} :
    polymorphicTarget known kind owner name descriptor = some handle ↔
      kind = .virtualCall ∧ PolymorphicCall known owner name ∧
        handle = .method owner name descriptor := by
  by_cases h : kind = .virtualCall ∧ PolymorphicCall known owner name
  · obtain ⟨rfl, hcall⟩ := h
    rw [polymorphicTarget_eq_some hcall, Option.some.injEq, eq_comm]
    simp [hcall]
  · rw [polymorphicTarget_eq_none (Classical.not_and_iff_not_or_not.mp h)]
    simp only [reduceCtorEq, false_iff]
    exact fun ⟨hkind, hcall, _⟩ => h ⟨hkind, hcall⟩

theorem isMethodTarget_of_methodTarget {kind : ReferenceKind}
    (h : methodTarget known kind owner name descriptor = some handle) :
    (kind = .virtualCall ∧ PolymorphicCall known owner name ∧
        handle = .method owner name descriptor) ∨
      ∃ path holder, IsMethodTarget known kind owner name descriptor handle path holder := by
  rw [methodTarget] at h
  split at h
  · rename_i found hfound
    rw [← Option.some.inj h]
    exact .inl (polymorphicTarget_eq_some_iff.mp hfound)
  · split at h
    · cases h
    · rename_i hit hhit
      split at h
      · cases h
      · rename_i hplain
        rw [Option.some.injEq] at h
        subst h
        obtain ⟨path, hpath, hholds, hmethod⟩ := Universe.findMethod_mayHold hhit
        obtain ⟨hname, hdescriptor⟩ := ClassDecl.findMethod_name hmethod
        exact .inr ⟨path, hit.owner, hpath, hholds,
          ⟨hit.method, ClassDecl.findMethod_mem hmethod, hname, hdescriptor,
            Bool.not_eq_true _ ▸ hplain⟩,
          by rw [hname, hdescriptor]; rfl, hholds.lookup_eq hpath⟩

/-- What resolution finds is what the reference denotes, in every universe. -/
theorem target_denotes (known : Universe) (reference : Reference) (handle : MemberHandle)
    (h : target known reference = some handle) : Denotes known reference handle := by
  rw [target, Reference.target] at h
  cases hsort : reference.kind.target with
  | type =>
      simp only [hsort] at h
      obtain ⟨decl, hdecl, rfl⟩ := Option.map_eq_some_iff.mp h
      exact ⟨fun _ => ⟨rfl, decl, hdecl⟩, by simp [hsort], by simp [hsort]⟩
  | field =>
      simp only [hsort] at h
      split at h
      · cases h
      · rename_i name hname
        obtain ⟨path, found, hfield⟩ := isFieldTarget_of_fieldTarget h
        exact ⟨by simp [hsort], fun _ => ⟨name, path, found, hname, hfield⟩, by simp [hsort]⟩
  | method =>
      simp only [hsort] at h
      split at h
      · rename_i name descriptor hname hdescriptor
        exact ⟨by simp [hsort], by simp [hsort], fun _ =>
          ⟨name, descriptor, hname, hdescriptor, isMethodTarget_of_methodTarget h⟩⟩
      · cases h

end Resolution

/-! A class that inherits a field from a class that was added before it. -/

def sizedClass : ClassDecl where
  name := "a/Sized"
  fields := [{ name := "size", descriptor := "I" }]

def namedClass : ClassDecl where
  name := "a/Named"
  superName := some "a/Sized"
  fields := [{ name := "name", descriptor := "I" }]

/-- The universe after both classes have been added. -/
def namedUniverse : Universe := (Universe.ofList [sizedClass]).extend [namedClass]

def sizeUse : Reference :=
  Reference.ofField (.type "b.B") "a.Named" "size" .getField

theorem lookup_namedUniverse :
    namedUniverse.lookup "a.Named" = some namedClass ∧
      namedUniverse.lookup "a.Sized" = some sizedClass := by
  constructor
  · rw [namedUniverse, Universe.lookup_extend, Universe.lookup_ofList]
    decide +kernel
  · rw [namedUniverse, Universe.lookup_extend, Universe.lookup_ofList]
    decide +kernel

theorem isClassPath_namedClass :
    IsClassPath namedUniverse "a.Named" [namedClass, sizedClass] := by
  have hsuper : namedClass.superName.map qualifiedName = some "a.Sized" := by decide +kernel
  refine .step (by simp) lookup_namedUniverse.1 ?_
  rw [hsuper]
  exact .step (by simp) lookup_namedUniverse.2 (.top _)

/-- The use of the inherited field denotes the field of the super class. -/
theorem target_sizeUse_denotes :
    Resolution.target namedUniverse sizeUse = some (.field "a.Sized" "size") ∧
      Denotes namedUniverse sizeUse (.field "a.Sized" "size") := by
  have hnearest : NearestField [namedClass, sizedClass] "size"
      ⟨sizedClass, { name := "size", descriptor := "I" }⟩ :=
    ⟨[namedClass], [], rfl, by simp [ClassDecl.DeclaresField, namedClass], rfl⟩
  have hfound := Universe.findField_eq_some_iff.mpr ⟨_, isClassPath_namedClass, hnearest⟩
  have htarget : Resolution.target namedUniverse sizeUse = some (.field "a.Sized" "size") := by
    change Resolution.fieldTarget namedUniverse "a.Named" "size" = _
    rw [Resolution.fieldTarget, hfound]
    decide +kernel
  exact ⟨htarget, Resolution.target_denotes _ _ _ htarget⟩

end Linkage
