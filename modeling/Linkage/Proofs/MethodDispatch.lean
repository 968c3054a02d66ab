import Linkage.Proofs.SuperChains
/-
The law of method dispatch.  A call other than an interface call denotes the
declaration nearest to its owner on the class path; only an abstract owner, or an
interface, falls back on the interfaces of that path.  An interface call denotes
the owner's own declaration, one of a super interface, or one of the root type.
-/

namespace Linkage

/-- A member of the first class of a path that declares what is looked for. -/
def NearestOn {α : Type} (path : List ClassDecl) (declares : ClassDecl → Prop)
    (member? : ClassDecl → Option α) (owner : ClassDecl) (member : α) : Prop :=
  ∃ nearer farther, path = nearer ++ owner :: farther ∧
    (∀ type ∈ nearer, ¬ declares type) ∧ member? owner = some member

/-- A declaration by the first class of a path that declares the method. -/
def NearestDeclaration (path : List ClassDecl) (name descriptor : String)
    (found : FoundMethod) : Prop :=
  NearestOn path (fun type => type.Declares name descriptor)
    (fun type => type.findMethod name descriptor) found.owner found.method

/-- A declaration by an interface that some class of a path has. -/
def InterfaceDeclaration (known : Universe) (path : List ClassDecl)
    (name descriptor : String) (found : FoundMethod) : Prop :=
  (∃ type ∈ path, SuperInterface known type found.owner) ∧
    found.owner.findMethod name descriptor = some found.method

/-- The declaration of a method by the type at the root of every hierarchy. -/
def RootDeclaration (known : Universe) (name descriptor : String) (found : FoundMethod) :
    Prop :=
  known.lookup Universe.rootType = some found.owner ∧
    found.owner.findMethod name descriptor = some found.method

/-- Whether a type is known and may lack implementations of its methods. -/
def IsOpenType (known : Universe) (owner : String) : Prop :=
  ∃ start, known.lookup owner = some start ∧
    (start.access.isAbstract = true ∨ start.access.isInterface = true)

/-- The law of calls other than interface calls, on the class path of the owner. -/
structure ClassCallLaw (known : Universe) (owner name descriptor : String)
    (path : List ClassDecl) (result : Option FoundMethod) : Prop where
  /-- The nearest declaration on the path wins, whatever interfaces declare. -/
  nearest : ∀ found, NearestDeclaration path name descriptor found → result = some found
  /-- Without one, an open owner has a method exactly if an interface declares it. -/
  inherited_iff : (∀ type ∈ path, ¬ type.Declares name descriptor) →
    IsOpenType known owner →
      (result.isSome ↔ ∃ found, InterfaceDeclaration known path name descriptor found)
  /-- What an open owner falls back on is a declaration of an interface. -/
  inherited : (∀ type ∈ path, ¬ type.Declares name descriptor) →
    IsOpenType known owner →
      ∀ found, result = some found → InterfaceDeclaration known path name descriptor found
  /-- Any other owner does not fall back on interfaces. -/
  closed : (∀ type ∈ path, ¬ type.Declares name descriptor) →
    ¬ IsOpenType known owner → result = none

/-- The law of interface calls. -/
structure InterfaceCallLaw (known : Universe) (owner name descriptor : String)
    (result : Option FoundMethod) : Prop where
  /-- The owner's own declaration wins. -/
  own : ∀ start method, known.lookup owner = some start →
    start.findMethod name descriptor = some method → result = some ⟨start, method⟩
  /-- Without one, a declaration of a super interface is found if there is any. -/
  inherited : ∀ start, known.lookup owner = some start →
    ¬ start.Declares name descriptor →
    (∃ found, InterfaceDeclaration known [start] name descriptor found) →
      ∃ found, result = some found ∧ InterfaceDeclaration known [start] name descriptor found
  /-- Without any of these, the declaration of the root type is the only one left. -/
  root : ∀ start, known.lookup owner = some start →
    ¬ start.Declares name descriptor →
    (¬ ∃ found, InterfaceDeclaration known [start] name descriptor found) →
      ∀ found, result = some found ↔ RootDeclaration known name descriptor found
  /-- Calls on an unknown owner denote nothing. -/
  unknown : known.lookup owner = none → result = none

/-! Members along a path. -/

section Nearest

variable {α : Type} {declares : ClassDecl → Prop} {member? : ClassDecl → Option α}
  {path : List ClassDecl} {owner : ClassDecl} {member : α}

namespace NearestOn

theorem not_nil : ¬ NearestOn [] declares member? owner member := by
  rintro ⟨nearer, farther, hsplit, -⟩
  simp at hsplit

theorem cons {type : ClassDecl} (hlacks : ¬ declares type)
    (h : NearestOn path declares member? owner member) :
    NearestOn (type :: path) declares member? owner member := by
  obtain ⟨nearer, farther, rfl, hnearer, hmember⟩ := h
  exact ⟨type :: nearer, farther, rfl, List.forall_mem_cons.mpr ⟨hlacks, hnearer⟩, hmember⟩

theorem append (h : NearestOn path declares member? owner member) (more : List ClassDecl) :
    NearestOn (path ++ more) declares member? owner member := by
  obtain ⟨nearer, farther, rfl, hnearer, hmember⟩ := h
  exact ⟨nearer, farther ++ more, by simp, hnearer, hmember⟩

end NearestOn

variable (hnone : ∀ type, member? type = none ↔ ¬ declares type)

include hnone

/-- Some class of a path is the nearest to declare what is looked for, unless none does. -/
theorem nearestOn_or (path : List ClassDecl) :
    (∃ owner member, NearestOn path declares member? owner member) ∨
      ∀ type ∈ path, ¬ declares type := by
  induction path with
  | nil => exact .inr (by simp)
  | cons type rest ih =>
      cases hmember : member? type with
      | some member => exact .inl ⟨type, member, [], rest, rfl, by simp, hmember⟩
      | none =>
          rw [hnone] at hmember
          rcases ih with ⟨owner, member, hnearest⟩ | hlacks
          · exact .inl ⟨owner, member, hnearest.cons hmember⟩
          · exact .inr (List.forall_mem_cons.mpr ⟨hmember, hlacks⟩)

/-- A search along listed classes finds the member of the nearest. -/
theorem findSome?_eq_some_iff_nearestOn {β : Type} {hold : ClassDecl → α → β}
    (hinj : ∀ left right first second, hold left first = hold right second →
      left = right ∧ first = second) {classes : List IndexedClass} :
    classes.findSome? (fun type => (member? type.decl).map (hold type.decl)) =
        some (hold owner member) ↔
      NearestOn (classes.map IndexedClass.decl) declares member? owner member := by
  rw [List.findSome?_eq_some_iff]
  constructor
  · rintro ⟨nearer, type, farther, rfl, hfound, hnearer⟩
    obtain ⟨other, hmember, hsame⟩ := Option.map_eq_some_iff.mp hfound
    obtain ⟨rfl, rfl⟩ := hinj _ _ _ _ hsame
    refine ⟨nearer.map IndexedClass.decl, farther.map IndexedClass.decl, by simp, ?_, hmember⟩
    intro decl hdecl
    obtain ⟨passed, hpassed, rfl⟩ := List.mem_map.mp hdecl
    exact (hnone _).mp (Option.map_eq_none_iff.mp (hnearer passed hpassed))
  · rintro ⟨nearer, farther, hsplit, hnearer, hmember⟩
    obtain ⟨before, after, rfl, rfl, hafter⟩ := List.map_eq_append_iff.mp hsplit
    obtain ⟨type, rest, rfl, rfl, rfl⟩ := List.map_eq_cons_iff.mp hafter
    refine ⟨before, type, rest, rfl, by rw [hmember, Option.map_some], ?_⟩
    intro passed hpassed
    have hlacks := hnearer passed.decl (List.mem_map_of_mem hpassed)
    rw [(hnone _).mpr hlacks, Option.map_none]

end Nearest

namespace Universe

variable {known : Universe} {name descriptor : String}

/-- The search along listed classes finds the first that declares the method. -/
theorem declaredIn_eq_some_iff {classes : List IndexedClass} {found : FoundMethod} :
    declaredIn classes name descriptor = some found ↔
      NearestDeclaration (classes.map IndexedClass.decl) name descriptor found := by
  have hnone : ∀ type : ClassDecl, type.findMethod name descriptor = none ↔
    ¬ type.Declares name descriptor := fun _ => ClassDecl.findMethod_eq_none_iff
  simp only [declaredIn, IndexedClass.findMethod_eq]
  exact findSome?_eq_some_iff_nearestOn hnone fun _ _ _ _ => FoundMethod.mk.inj

theorem declaredIn_eq_none_iff {classes : List IndexedClass} :
    declaredIn classes name descriptor = none ↔
      ∀ type ∈ classes.map IndexedClass.decl, ¬ type.Declares name descriptor := by
  simp [declaredIn, ClassDecl.findMethod_eq_none_iff]

/-- A search from the interfaces of some classes finds a declaration of one of their
super interfaces. -/
theorem searchInterfaces_interfaceDeclaration {classes : List IndexedClass}
    {found : FoundMethod}
    (h : known.searchInterfaces name descriptor ∅
      (classes.flatMap IndexedClass.interfaces) = some found) :
    InterfaceDeclaration known (classes.map IndexedClass.decl) name descriptor found := by
  obtain ⟨hreached, hmethod⟩ := searchInterfaces_sound h
  obtain ⟨type, htype, hsuper⟩ := Reached.flatMap_interfaces_iff.mp hreached
  exact ⟨⟨type.decl, List.mem_map_of_mem htype, hsuper⟩, hmethod⟩

/-- Such a search finds something if a super interface declares the method. -/
theorem searchInterfaces_isSome_iff {classes : List IndexedClass} :
    (known.searchInterfaces name descriptor ∅
        (classes.flatMap IndexedClass.interfaces)).isSome ↔
      ∃ found, InterfaceDeclaration known (classes.map IndexedClass.decl) name descriptor
        found := by
  constructor
  · intro h
    obtain ⟨found, hfound⟩ := Option.isSome_iff_exists.mp h
    exact ⟨found, searchInterfaces_interfaceDeclaration hfound⟩
  · rintro ⟨found, ⟨decl, hdecl, hsuper⟩, hmethod⟩
    obtain ⟨type, htype, rfl⟩ := List.mem_map.mp hdecl
    rw [Option.isSome_iff_ne_none]
    intro hnone
    have hreached := Reached.flatMap_interfaces_iff.mpr ⟨type, htype, hsuper⟩
    exact searchInterfaces_eq_none_iff.mp hnone _ hreached
      (ClassDecl.declares_of_findMethod hmethod)

theorem findClassMethod_law (name descriptor : String) {owner : String}
    {start : IndexedClass} (hstart : known.find? owner = some start) :
    ClassCallLaw known owner name descriptor
      ((known.superClassPath start).map IndexedClass.decl)
      (known.findClassMethod start name descriptor) := by
  have hopen : IsOpenType known owner ↔
      (start.decl.access.isAbstract || start.decl.access.isInterface) = true := by
    simp [IsOpenType, lookup_of_find? hstart]
  have hfallback (hlacks : ∀ type ∈ (known.superClassPath start).map IndexedClass.decl,
      ¬ type.Declares name descriptor) (h : IsOpenType known owner) :
      known.findClassMethod start name descriptor =
        known.searchInterfaces name descriptor ∅
          ((known.superClassPath start).flatMap IndexedClass.interfaces) := by
    simp only [findClassMethod_eq hstart, declaredIn_eq_none_iff.mpr hlacks, hopen.mp h,
      ↓reduceIte]
  refine ⟨?_, ?_, ?_, ?_⟩
  · intro found hnearest
    simp only [findClassMethod_eq hstart, declaredIn_eq_some_iff.mpr hnearest]
  · intro hlacks h
    rw [hfallback hlacks h]
    exact searchInterfaces_isSome_iff
  · intro hlacks h found hfound
    rw [hfallback hlacks h] at hfound
    exact searchInterfaces_interfaceDeclaration hfound
  · intro hlacks h
    rw [hopen, Bool.not_eq_true] at h
    simp [findClassMethod_eq hstart, declaredIn_eq_none_iff.mpr hlacks, h]

theorem findInterfaceMethod_law (name descriptor : String) {owner : String}
    {start : IndexedClass} (hstart : known.find? owner = some start) :
    InterfaceCallLaw known owner name descriptor
      (known.findInterfaceMethod start name descriptor) := by
  have hlookup := lookup_of_find? hstart
  have hinterfaces : start.interfaces = [start].flatMap IndexedClass.interfaces := by simp
  refine ⟨?_, ?_, ?_, ?_⟩
  · intro decl method hdecl hmethod
    rw [hlookup, Option.some.injEq] at hdecl
    subst hdecl
    simp [findInterfaceMethod, hmethod]
  · intro decl hdecl hlacks hinherited
    rw [hlookup, Option.some.injEq] at hdecl
    subst hdecl
    have hown := ClassDecl.findMethod_eq_none_iff.mpr hlacks
    have hsome : (known.searchInterfaces name descriptor ∅
        ([start].flatMap IndexedClass.interfaces)).isSome :=
      searchInterfaces_isSome_iff.mpr hinherited
    obtain ⟨found, hfound⟩ := Option.isSome_iff_exists.mp hsome
    refine ⟨found, ?_, searchInterfaces_interfaceDeclaration hfound⟩
    rw [← hinterfaces] at hfound
    simp [findInterfaceMethod, hown, hfound]
  · intro decl hdecl hlacks hinherited found
    rw [hlookup, Option.some.injEq] at hdecl
    subst hdecl
    have hown := ClassDecl.findMethod_eq_none_iff.mpr hlacks
    have hnone : known.searchInterfaces name descriptor ∅ start.interfaces = none := by
      rw [hinterfaces, ← Option.not_isSome_iff_eq_none, searchInterfaces_isSome_iff]
      exact hinherited
    simp only [findInterfaceMethod, IndexedClass.findMethod_eq, hown, hnone]
    cases hroot : known.find? rootType with
    | none => simp [RootDeclaration, lookup_eq_none_iff.mpr hroot]
    | some root =>
        simp only [RootDeclaration, lookup_of_find? hroot, Option.some.injEq]
        constructor
        · intro hfound
          obtain ⟨method, hmethod, rfl⟩ : ∃ method,
              root.decl.findMethod name descriptor = some method ∧ ⟨root.decl, method⟩ = found := by
            simpa [declaredIn] using hfound
          exact ⟨rfl, hmethod⟩
        · rintro ⟨hdecl, hmethod⟩
          exact declaredIn_eq_some_iff.mpr ⟨[], [], by simp [hdecl], by simp, hmethod⟩
  · intro hunknown
    simp [hlookup] at hunknown

end Universe

/-- Method dispatch over every universe, incomplete and cyclic hierarchies included:
the owner has one class path, and calls obey the law of their kind on it. -/
theorem findMethod_dispatch (known : Universe) (owner name descriptor : String) :
    ∃ path, IsClassPath known owner path ∧
      (∀ other, IsClassPath known owner other → other = path) ∧
      (∀ kind, kind ≠ ReferenceKind.interfaceCall →
        ClassCallLaw known owner name descriptor path
          (known.findMethod kind owner name descriptor)) ∧
      InterfaceCallLaw known owner name descriptor
        (known.findMethod .interfaceCall owner name descriptor) := by
  cases hstart : known.find? owner with
  | none =>
      have hunknown := Universe.lookup_eq_none_iff.mpr hstart
      have hpath : IsClassPath known owner [] := .unknown hunknown
      refine ⟨[], hpath, fun _ hother => hother.unique hpath, ?_, ?_⟩
      · intro kind _
        refine ⟨?_, ?_, ?_, ?_⟩
        · exact fun _ hnearest => absurd hnearest NearestOn.not_nil
        · rintro _ ⟨start, hfound, _⟩
          simp [hunknown] at hfound
        · rintro _ ⟨start, hfound, _⟩
          simp [hunknown] at hfound
        · intro _ _
          simp [Universe.findMethod, hstart]
      · refine ⟨?_, ?_, ?_, ?_⟩ <;> simp [hunknown, Universe.findMethod, hstart]
  | some start =>
      have hpath := Universe.superClassPath_isClassPath hstart
      refine ⟨_, hpath, fun _ hother => hother.unique hpath, ?_, ?_⟩
      · intro kind hkind
        have hlaw := Universe.findClassMethod_law name descriptor hstart
        simpa [Universe.findMethod, hstart, hkind] using hlaw
      · have hlaw := Universe.findInterfaceMethod_law name descriptor hstart
        simpa [Universe.findMethod, hstart] using hlaw

end Linkage
