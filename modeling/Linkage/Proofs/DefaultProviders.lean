import Linkage.Proofs.DefaultMethods
import Linkage.Proofs.InterfaceSearch
/-
Providers of default methods.  The provider is found by a walk of its own, along
qualified names; on an open class that lacks the method it is what a virtual call on
the class denotes.  The search takes the first declaration in depth-first order: a
most specific default method is the provider exactly if no interface above it is met
first.
-/

namespace Linkage

variable {known : Universe} {name descriptor : String}

/-- The qualified names of the interfaces that some classes declare. -/
def interfaceNames (classes : List ClassDecl) : List String :=
  classes.flatMap (fun decl => decl.interfaces.map qualifiedName)

theorem flatMap_interfaces_eq (classes : List IndexedClass) :
    classes.flatMap IndexedClass.interfaces = interfaceNames (classes.map IndexedClass.decl) := by
  rw [interfaceNames, List.flatMap_map]
  congr 1
  funext type
  exact type.interfaces_eq

/-- A default method that the interfaces of some classes declare, where every other of
these interfaces that declares the method is above its own. -/
structure MostSpecificDefault (known : Universe) (classes : List ClassDecl)
    (name descriptor : String) (best : FoundMethod) : Prop where
  declared : InterfaceDeclaration known classes name descriptor best
  isDefault : best.method.isDefault = true
  above : ∀ other, InterfaceDeclaration known classes name descriptor other →
    other.owner ≠ best.owner → SuperInterface known best.owner other.owner

/-- A type that is reached from listed ones without passing through a given one. -/
inductive ReachedAvoiding (known : Universe) (avoided : ClassDecl) (names : List String) :
    ClassDecl → Prop where
  | listed {name : String} {decl : ClassDecl} (hmem : name ∈ names)
      (hname : known.lookup name = some decl) : ReachedAvoiding known avoided names decl
  | inherited {sub super : ClassDecl} (hsub : ReachedAvoiding known avoided names sub)
      (hother : sub ≠ avoided) (hsuper : DeclaresInterface known sub super) :
      ReachedAvoiding known avoided names super

namespace ReachedAvoiding

variable {avoided : ClassDecl}

theorem cons {head : String} {rest : List String} {decl : ClassDecl}
    (h : ReachedAvoiding known avoided rest decl) :
    ReachedAvoiding known avoided (head :: rest) decl := by
  induction h with
  | listed hmem hname => exact .listed (List.mem_cons_of_mem _ hmem) hname
  | inherited _ hother hsuper ih => exact .inherited ih hother hsuper

/-- What the interfaces of a listed type reach is reached through this type. -/
theorem of_interfaces {head : String} {rest : List String} {type : IndexedClass}
    {decl : ClassDecl} (hfound : known.find? head = some type) (hother : type.decl ≠ avoided)
    (h : ReachedAvoiding known avoided type.interfaces decl) :
    ReachedAvoiding known avoided (head :: rest) decl := by
  induction h with
  | listed hmem hname =>
      obtain ⟨super, hsuper, rfl⟩ := Universe.lookup_eq_some_iff.mp hname
      exact .inherited (.listed List.mem_cons_self (Universe.lookup_of_find? hfound)) hother
        (declaresInterface_of_mem hmem hsuper)
  | inherited _ hsub hsuper ih => exact .inherited ih hsub hsuper

end ReachedAvoiding

/-- The first declaration is reached without passing through another one. -/
theorem FirstDeclared.reachedAvoiding {avoided : ClassDecl}
    (hdeclares : avoided.Declares name descriptor) {names : List String} {found : FoundMethod}
    (h : FirstDeclared known name descriptor names (some found)) :
    ReachedAvoiding known avoided names found.owner := by
  generalize hfound : some found = result at h
  induction h with
  | nil => cases hfound
  | unknown _ _ ih => exact (ih hfound).cons
  | declares hhead _ =>
      cases hfound
      exact .listed List.mem_cons_self (Universe.lookup_of_find? hhead)
  | inherited hhead hlacks _ ih =>
      exact (ih hfound).of_interfaces hhead (fun heq => hlacks (heq ▸ hdeclares))
  | later _ _ _ _ _ ih => exact (ih hfound).cons

namespace Universe

/-- Without a declaration by a super class, the search decides on the provider. -/
theorem defaultProvider_eq {type : IndexedClass}
    (hsupers : declaredIn (known.properSuperClasses type) name descriptor = none) :
    known.defaultProvider type name descriptor =
      (known.searchInterfaces name descriptor ∅
        ((known.superClassPath type).flatMap IndexedClass.interfaces)).bind (fun found =>
          if found.method.isDefault then some found.owner else none) := by
  simp only [defaultProvider, hsupers]
  rw [superClassPath]
  split <;> simp_all

/-- On an open class that does not declare a method, the provider of a default method is
what a virtual call denotes if no class of the path declares the method: both walks along
super classes lead to the same interfaces. -/
theorem defaultProvider_eq_some_iff_virtualCall {owner : String} {decl : ClassDecl}
    (hdecl : known.lookup owner = some decl)
    (hopen : decl.access.isAbstract = true ∨ decl.access.isInterface = true)
    (hlacks : ¬ decl.Declares name descriptor) (provider : ClassDecl) :
    known.defaultProvider (.of decl) name descriptor = some provider ↔
      (∃ path, IsClassPath known owner path ∧
        ∀ other ∈ path, ¬ other.Declares name descriptor) ∧
      ∃ method, known.findMethod .virtualCall owner name descriptor =
        some ⟨provider, method⟩ ∧ method.isDefault = true := by
  obtain ⟨type, htype, rfl⟩ := lookup_eq_some_iff.mp hdecl
  rw [type.of_decl]
  have hfallback : (type.decl.access.isAbstract || type.decl.access.isInterface) = true := by
    simpa using hopen
  have hcall : known.findMethod .virtualCall owner name descriptor =
      known.findClassMethod type name descriptor := by
    simp [findMethod, htype]
  rw [hcall, findClassMethod_eq htype]
  cases hpath : declaredIn (known.superClassPath type) name descriptor with
  | none =>
      have hall := declaredIn_eq_none_iff.mp hpath
      have hsupers : declaredIn (known.properSuperClasses type) name descriptor = none := by
        rw [declaredIn_eq_none_iff]
        exact fun other hother => hall other (List.mem_cons_of_mem _ hother)
      rw [defaultProvider_eq hsupers]
      simp only [hfallback, ↓reduceIte, Option.bind_eq_some_iff, Option.ite_none_right_eq_some,
        Option.some.injEq]
      constructor
      · rintro ⟨found, hfound, hdefault, rfl⟩
        exact ⟨⟨_, superClassPath_isClassPath htype, hall⟩, found.method, hfound, hdefault⟩
      · rintro ⟨-, method, hfound, hdefault⟩
        exact ⟨_, hfound, hdefault, rfl⟩
  | some found =>
      -- A class of the path declares the method, and it is not the class itself.
      have hnone : known.defaultProvider type name descriptor = none := by
        have hfirst : type.findMethod name descriptor = none := by
          rw [IndexedClass.findMethod_eq]
          exact ClassDecl.findMethod_eq_none_iff.mpr hlacks
        rw [superClassPath, declaredIn, List.findSome?_cons, hfirst] at hpath
        have hsupers : declaredIn (known.properSuperClasses type) name descriptor =
            some found := hpath
        simp only [defaultProvider, hsupers]
      rw [hnone]
      simp only [reduceCtorEq, false_iff, not_and]
      rintro ⟨path, hisPath, hall⟩
      rw [hisPath.unique (superClassPath_isClassPath htype), ← declaredIn_eq_none_iff] at hall
      rw [hpath] at hall
      cases hall

end Universe

/-! An abstract class whose super class has the interface of the default method. -/

def describedBase : ClassDecl where
  name := "lib/Base"
  access := { isPublic := true, isAbstract := true }
  superName := some "java/lang/Object"
  interfaces := ["lib/Api"]

def describedHeir : ClassDecl where
  name := "lib/Heir"
  access := { isPublic := true, isAbstract := true }
  superName := some "lib/Base"

def heirUniverse : Universe := .ofList [describedApi, describedBase, describedHeir]

theorem lookup_describedHeir : heirUniverse.lookup "lib.Heir" = some describedHeir := by
  rw [heirUniverse, Universe.lookup_ofList]
  decide +kernel

theorem isClassPath_describedHeir :
    IsClassPath heirUniverse "lib.Heir" [describedHeir, describedBase] := by
  have hbase : heirUniverse.lookup "lib.Base" = some describedBase := by
    rw [heirUniverse, Universe.lookup_ofList]
    decide +kernel
  have hroot : heirUniverse.lookup "java.lang.Object" = none := by
    rw [heirUniverse, Universe.lookup_ofList]
    decide +kernel
  have hnames : describedHeir.superName.map qualifiedName = some "lib.Base" ∧
      describedBase.superName.map qualifiedName = some "java.lang.Object" := by decide +kernel
  refine .step (by simp) lookup_describedHeir ?_
  rw [hnames.1]
  refine .step (by decide) hbase ?_
  rw [hnames.2]
  exact .unknown hroot

theorem findMethod_describedHeir :
    heirUniverse.findMethod .virtualCall "lib.Heir" "describe" "()V" =
      some ⟨describedApi, describe⟩ := by
  obtain ⟨type, htype, hdecl⟩ := Universe.lookup_eq_some_iff.mp lookup_describedHeir
  have hpath := (Universe.superClassPath_isClassPath htype).unique isClassPath_describedHeir
  have hlacks : Universe.declaredIn (heirUniverse.superClassPath type) "describe" "()V" = none := by
    rw [Universe.declaredIn_eq_none_iff, hpath]
    simp [ClassDecl.Declares, describedHeir, describedBase]
  have hapi : heirUniverse.lookup "lib.Api" = some describedApi := by
    rw [heirUniverse, Universe.lookup_ofList]
    decide +kernel
  have hnames : interfaceNames [describedHeir, describedBase] = ["lib.Api"] := by decide +kernel
  have hsearch : heirUniverse.searchInterfaces "describe" "()V" ∅
      ((heirUniverse.superClassPath type).flatMap IndexedClass.interfaces) =
        some ⟨describedApi, describe⟩ := by
    obtain ⟨api, hfound, hdeclApi⟩ := Universe.lookup_eq_some_iff.mp hapi
    rw [flatMap_interfaces_eq, hpath, hnames, Universe.searchInterfaces_known (by simp) hfound,
      IndexedClass.findMethod_eq, hdeclApi]
    rfl
  simp only [Universe.findMethod, htype, Universe.findClassMethod_eq htype, hlacks, hsearch, hdecl]
  rfl

/-- The class inherits the default method, which a virtual call on it denotes. -/
theorem defaultProvider_describedHeir :
    heirUniverse.lookup "lib.Heir" = some describedHeir ∧
      describedHeir.access.isAbstract = true ∧
      ¬ describedHeir.Declares "describe" "()V" ∧
      heirUniverse.defaultProvider (.of describedHeir) "describe" "()V" = some describedApi := by
  have hlacks : ∀ other ∈ [describedHeir, describedBase], ¬ other.Declares "describe" "()V" := by
    simp [ClassDecl.Declares, describedHeir, describedBase]
  have hown := hlacks describedHeir List.mem_cons_self
  refine ⟨lookup_describedHeir, rfl, hown, ?_⟩
  apply (Universe.defaultProvider_eq_some_iff_virtualCall lookup_describedHeir (.inl rfl) hown
    _).mpr
  exact ⟨⟨_, isClassPath_describedHeir, hlacks⟩, describe, findMethod_describedHeir, rfl⟩

namespace Universe

theorem superClassPath_map_decl {decl : ClassDecl} {supers : List ClassDecl}
    (hsupers : ClassesFrom known [decl.qualifiedName] (decl.superName.map qualifiedName) supers) :
    (known.superClassPath (.of decl)).map IndexedClass.decl = decl :: supers := by
  have hmet : ∀ name, name ∈ Std.HashSet.ofList [decl.qualifiedName] ↔
      name ∈ [decl.qualifiedName] := by
    intro name
    rw [Std.HashSet.mem_ofList, List.contains_iff_mem]
  have hwalk := superClasses_classesFrom known (.ofList [decl.qualifiedName])
    (decl.superName.map qualifiedName) [decl.qualifiedName] hmet
  rw [superClassPath, List.map_cons, hsupers.unique hwalk]
  rfl

/-- On an acyclic hierarchy where no super class declares a method, the first declaration
in depth-first order decides on the provider. -/
theorem defaultProvider_of_firstDeclared {decl : ClassDecl} {supers : List ClassDecl}
    (hacyclic : AcyclicHierarchy known)
    (hsupers : ClassesFrom known [decl.qualifiedName] (decl.superName.map qualifiedName) supers)
    (hlacks : ∀ super ∈ supers, ¬ super.Declares name descriptor) :
    ∃ result, FirstDeclared known name descriptor (interfaceNames (decl :: supers)) result ∧
      (∀ first, result = some first →
        InterfaceDeclaration known (decl :: supers) name descriptor first) ∧
      (result = none → ¬ ∃ first,
        InterfaceDeclaration known (decl :: supers) name descriptor first) ∧
      known.defaultProvider (.of decl) name descriptor =
        result.bind (fun first => if first.method.isDefault then some first.owner else none) := by
  have hpath := superClassPath_map_decl hsupers
  have hnames : (known.superClassPath (.of decl)).flatMap IndexedClass.interfaces =
      interfaceNames (decl :: supers) := by
    rw [flatMap_interfaces_eq, hpath]
  have hnone : declaredIn (known.properSuperClasses (.of decl)) name descriptor = none := by
    rw [superClassPath, List.map_cons, List.cons.injEq] at hpath
    rw [declaredIn_eq_none_iff, hpath.2]
    exact hlacks
  refine ⟨_, searchInterfaces_firstDeclared hacyclic.acyclicInterfaces name descriptor _, ?_, ?_,
    ?_⟩
  · intro first hfirst
    rw [← hnames] at hfirst
    exact hpath ▸ searchInterfaces_interfaceDeclaration hfirst
  · intro hmissing hinherited
    rw [← hpath] at hinherited
    have hsome := searchInterfaces_isSome_iff.mpr hinherited
    rw [hnames, hmissing] at hsome
    cases hsome
  · rw [defaultProvider_eq hnone, hnames]

/-- On an acyclic hierarchy where no super class declares a method, a most specific
default method is the provider exactly if it is the first declaration in depth-first
order; otherwise an interface above it comes first and decides.  It is the first if no
declaration is reached without passing through it. -/
theorem defaultProvider_of_mostSpecific {decl : ClassDecl} {supers : List ClassDecl}
    {best : FoundMethod} (hacyclic : AcyclicHierarchy known)
    (hsupers : ClassesFrom known [decl.qualifiedName] (decl.superName.map qualifiedName) supers)
    (hlacks : ∀ super ∈ supers, ¬ super.Declares name descriptor)
    (hbest : MostSpecificDefault known (decl :: supers) name descriptor best) :
    ∃ first, FirstDeclared known name descriptor (interfaceNames (decl :: supers))
        (some first) ∧
      (first = best ∨ SuperInterface known best.owner first.owner) ∧
      known.defaultProvider (.of decl) name descriptor =
        (if first.method.isDefault then some first.owner else none) ∧
      (known.defaultProvider (.of decl) name descriptor = some best.owner ↔ first = best) ∧
      ((∀ other, InterfaceDeclaration known (decl :: supers) name descriptor other →
          ReachedAvoiding known best.owner (interfaceNames (decl :: supers)) other.owner →
          other = best) → first = best) := by
  obtain ⟨result, hfirst, hsound, hmissing, hprovider⟩ :=
    defaultProvider_of_firstDeclared hacyclic hsupers hlacks
  cases result with
  | none => exact absurd ⟨best, hbest.declared⟩ (hmissing rfl)
  | some first =>
  have hdeclared := hsound first rfl
  have hsame : first.owner = best.owner → first = best := by
    intro howner
    have hmethod := hdeclared.2
    rw [howner, hbest.declared.2, Option.some.injEq] at hmethod
    exact (FoundMethod.mk.injEq ..).mpr ⟨howner, hmethod.symm⟩
  rw [Option.bind_some] at hprovider
  refine ⟨first, hfirst, ?_, hprovider, ?_, ?_⟩
  · by_cases howner : first.owner = best.owner
    · exact .inl (hsame howner)
    · exact .inr (hbest.above first hdeclared howner)
  · rw [hprovider]
    constructor
    · intro h
      rw [Option.ite_none_right_eq_some, Option.some.injEq] at h
      exact hsame h.2
    · intro heq
      rw [heq, if_pos hbest.isDefault]
  · intro honly
    exact honly first hdeclared
      (hfirst.reachedAvoiding (ClassDecl.declares_of_findMethod hbest.declared.2))

end Universe

/-! An interface that leaves a method open, and one below it with a default for it. -/

def readMethod (isAbstract : Bool) : MethodDecl where
  name := "read"
  descriptor := "()V"
  access := { isPublic := true, isAbstract }

def sourceApi : ClassDecl where
  name := "lib/Source"
  access := { isPublic := true, isInterface := true, isAbstract := true }
  superName := some "java/lang/Object"
  methods := [readMethod true]

def bufferedApi : ClassDecl where
  name := "lib/Buffered"
  access := { isPublic := true, isInterface := true, isAbstract := true }
  superName := some "java/lang/Object"
  interfaces := ["lib/Source"]
  methods := [readMethod false]

/-- A class with some interfaces. -/
def readerClass (interfaces : List String) : ClassDecl where
  name := "app/Reader"
  access := { isPublic := true }
  superName := some "java/lang/Object"
  interfaces

def readerUniverse : Universe := .ofList [sourceApi, bufferedApi]

theorem lookup_readerUniverse (name : String) :
    readerUniverse.lookup name =
      if "lib.Source" = name then some sourceApi
      else if "lib.Buffered" = name then some bufferedApi else none := by
  have hsource : sourceApi.qualifiedName = "lib.Source" := by decide +kernel
  have hbuffered : bufferedApi.qualifiedName = "lib.Buffered" := by decide +kernel
  rw [readerUniverse, Universe.lookup_ofList, List.find?_cons, List.find?_cons, hsource,
    hbuffered, List.find?_nil]
  split <;> split <;> simp_all

theorem lookup_sourceApi : readerUniverse.lookup "lib.Source" = some sourceApi := by
  simp [lookup_readerUniverse]

theorem lookup_bufferedApi : readerUniverse.lookup "lib.Buffered" = some bufferedApi := by
  simp [lookup_readerUniverse]

theorem cases_of_lookup_readerUniverse {name : String} {decl : ClassDecl}
    (h : readerUniverse.lookup name = some decl) :
    name = "lib.Source" ∧ decl = sourceApi ∨ name = "lib.Buffered" ∧ decl = bufferedApi := by
  rw [lookup_readerUniverse] at h
  grind

theorem acyclic_readerUniverse : AcyclicHierarchy readerUniverse := by
  have hobject : qualifiedName "java/lang/Object" = "java.lang.Object" := by decide +kernel
  apply AcyclicHierarchy.of_rank (fun decl => decl.interfaces.length)
  intro sub super hsub hsuper
  rcases cases_of_lookup_readerUniverse hsub with ⟨-, rfl⟩ | ⟨-, rfl⟩
  · rcases hsuper with ⟨name, hname, hlookup⟩ | ⟨name, hname, -⟩
    · cases hname
      simp [hobject, lookup_readerUniverse] at hlookup
    · cases hname
  · rcases hsuper with ⟨name, hname, hlookup⟩ | ⟨name, hname, hlookup⟩
    · cases hname
      simp [hobject, lookup_readerUniverse] at hlookup
    · have hsource : qualifiedName "lib/Source" = "lib.Source" := by decide +kernel
      rw [List.mem_singleton.mp hname, hsource, lookup_sourceApi, Option.some.injEq] at hlookup
      rw [← hlookup]
      exact Nat.one_pos

theorem classesFrom_readerClass (interfaces : List String) :
    ClassesFrom readerUniverse [(readerClass interfaces).qualifiedName]
      ((readerClass interfaces).superName.map qualifiedName) [] := by
  have hobject : qualifiedName "java/lang/Object" = "java.lang.Object" := by decide +kernel
  rw [readerClass, Option.map_some, hobject]
  exact .unknown (by simp [lookup_readerUniverse])

/-- The default below is the most specific one of every class that declares its interface. -/
theorem mostSpecificDefault_readerClass {interfaces : List String}
    (h : "lib/Buffered" ∈ interfaces) :
    MostSpecificDefault readerUniverse [readerClass interfaces] "read" "()V"
      ⟨bufferedApi, readMethod false⟩ := by
  have hbuffered : qualifiedName "lib/Buffered" = "lib.Buffered" := by decide +kernel
  have hsource : qualifiedName "lib/Source" = "lib.Source" := by decide +kernel
  refine ⟨⟨⟨_, List.mem_singleton_self _, .single ⟨_, h, ?_⟩⟩, rfl⟩, rfl, ?_⟩
  · rw [hbuffered, lookup_bufferedApi]
  · rintro ⟨owner, method⟩ ⟨⟨type, -, hsuper⟩, -⟩ hother
    obtain ⟨sub, hdeclares⟩ := hsuper.exists_declares
    rcases cases_of_lookup_readerUniverse hdeclares.lookup_eq with ⟨-, rfl⟩ | ⟨-, rfl⟩
    · exact .single ⟨"lib/Source", List.mem_singleton_self _, by rw [hsource, lookup_sourceApi]⟩
    · exact absurd rfl hother

/-- A class that lists the lower interface first inherits its default method. -/
theorem defaultProvider_bufferedFirst :
    AcyclicHierarchy readerUniverse ∧
      MostSpecificDefault readerUniverse [readerClass ["lib/Buffered", "lib/Source"]] "read"
        "()V" ⟨bufferedApi, readMethod false⟩ ∧
      readerUniverse.defaultProvider (.of (readerClass ["lib/Buffered", "lib/Source"])) "read"
        "()V" = some bufferedApi := by
  have hbest := mostSpecificDefault_readerClass
    (by simp : "lib/Buffered" ∈ ["lib/Buffered", "lib/Source"])
  obtain ⟨first, hfirst, -, -, hprovider, -⟩ :=
    Universe.defaultProvider_of_mostSpecific acyclic_readerUniverse (classesFrom_readerClass _)
      (by simp) hbest
  have hnames : interfaceNames [readerClass ["lib/Buffered", "lib/Source"]] =
      ["lib.Buffered", "lib.Source"] := by decide +kernel
  rw [hnames] at hfirst
  have heq := hfirst.eq_head lookup_bufferedApi (rfl : _ = some (readMethod false))
  exact ⟨acyclic_readerUniverse, hbest, hprovider.mpr (Option.some.inj heq)⟩

/-- A class that lists the upper interface first has no provider, although the default
method below overrides the open one. -/
theorem defaultProvider_sourceFirst :
    AcyclicHierarchy readerUniverse ∧
      ClassesFrom readerUniverse
        [(readerClass ["lib/Source", "lib/Buffered"]).qualifiedName]
        ((readerClass ["lib/Source", "lib/Buffered"]).superName.map qualifiedName) [] ∧
      MostSpecificDefault readerUniverse [readerClass ["lib/Source", "lib/Buffered"]] "read"
        "()V" ⟨bufferedApi, readMethod false⟩ ∧
      readerUniverse.defaultProvider (.of (readerClass ["lib/Source", "lib/Buffered"])) "read"
        "()V" = none := by
  refine ⟨acyclic_readerUniverse, classesFrom_readerClass _,
    mostSpecificDefault_readerClass (by simp), ?_⟩
  obtain ⟨result, hfirst, -, -, hprovider⟩ :=
    Universe.defaultProvider_of_firstDeclared acyclic_readerUniverse (classesFrom_readerClass _)
      (by simp : ∀ super ∈ ([] : List ClassDecl), ¬ super.Declares "read" "()V")
  have hnames : interfaceNames [readerClass ["lib/Source", "lib/Buffered"]] =
      ["lib.Source", "lib.Buffered"] := by decide +kernel
  rw [hnames] at hfirst
  rw [hprovider, hfirst.eq_head lookup_sourceApi (rfl : _ = some (readMethod true))]
  rfl

end Linkage
