import Linkage.Proofs.ResolvedTargets
import Mathlib.Logic.Relation
/-
Growing universes.  A universe that is extended keeps its definitions, so that class
paths only get longer at their far end and interfaces only reach further.  What a
look-up finds along a path it finds again; what it finds in an interface may be found
elsewhere, but something is found.
-/

namespace Linkage

/-- One universe defines everything that another defines, and defines it alike. -/
def Universe.GrowsTo (known grown : Universe) : Prop :=
  ∀ name decl, known.lookup name = some decl → grown.lookup name = some decl

theorem Universe.growsTo_extend (known : Universe) (decls : List ClassDecl) :
    known.GrowsTo (known.extend decls) := by
  intro name decl hname
  rw [lookup_extend, hname, Option.some_or]

/-- The class path of an owner holds the class that declares a method. -/
def OnClassPath (known : Universe) (owner : String) (found : FoundMethod) : Prop :=
  ∃ path, IsClassPath known owner path ∧ found.owner ∈ path

/-- What look-ups found in one universe they find in another. -/
structure KeepsLookups (known grown : Universe) : Prop where
  types : known.GrowsTo grown
  fields : ∀ owner name found, known.findField owner name = some found →
    grown.findField owner name = some found
  methods : ∀ kind owner name descriptor found,
    known.findMethod kind owner name descriptor = some found →
      ∃ other, grown.findMethod kind owner name descriptor = some other
  /-- A declaration on the path of a call other than an interface call stays the target. -/
  path_methods : ∀ kind owner name descriptor found, kind ≠ .interfaceCall →
    known.findMethod kind owner name descriptor = some found →
      OnClassPath known owner found →
        grown.findMethod kind owner name descriptor = some found
  /-- The owner's own declaration stays the target of every call. -/
  own_methods : ∀ kind owner name descriptor found,
    known.findMethod kind owner name descriptor = some found →
      known.lookup owner = some found.owner →
        grown.findMethod kind owner name descriptor = some found

/-! Paths and interfaces in a universe that has grown. -/

theorem ClassesFrom.exists_path (known : Universe) (met : List String) (next : Option String) :
    ∃ path, ClassesFrom known met next path := by
  refine ⟨_, Universe.superClasses_classesFrom known (.ofList met) next met ?_⟩
  intro name
  rw [Std.HashSet.mem_ofList, List.contains_iff_mem]

section Growth

variable {known grown : Universe} (hgrows : known.GrowsTo grown)

include hgrows

/-- A path goes on, if at all, only behind its last class. -/
theorem ClassesFrom.grow {met : List String} {next : Option String} {path : List ClassDecl}
    (h : ClassesFrom known met next path) :
    ∃ more, ClassesFrom grown met next (path ++ more) := by
  induction h with
  | top met => exact ⟨[], .top met⟩
  | unknown _ => exact ClassesFrom.exists_path grown _ _
  | repeated hname => exact ⟨[], .repeated hname⟩
  | step hfresh hname _ ih =>
      obtain ⟨more, hmore⟩ := ih
      exact ⟨more, .step hfresh (hgrows _ _ hname) hmore⟩

theorem SuperInterface.grow {sub super : ClassDecl} (h : SuperInterface known sub super) :
    SuperInterface grown sub super := by
  have hdeclares : DeclaresInterface known ≤ DeclaresInterface grown := by
    rintro sub super ⟨name, hname, hlookup⟩
    exact ⟨name, hname, hgrows _ _ hlookup⟩
  exact Relation.TransGen.mono hdeclares _ _ h

theorem InterfaceDeclaration.grow {path : List ClassDecl} {name descriptor : String}
    {found : FoundMethod} (h : InterfaceDeclaration known path name descriptor found)
    (more : List ClassDecl) :
    InterfaceDeclaration grown (path ++ more) name descriptor found := by
  obtain ⟨⟨type, htype, hsuper⟩, hmethod⟩ := h
  exact ⟨⟨type, List.mem_append_left more htype, hsuper.grow hgrows⟩, hmethod⟩

theorem IsOpenType.grow {owner : String} (h : IsOpenType known owner) :
    IsOpenType grown owner := by
  obtain ⟨start, hstart, hopen⟩ := h
  exact ⟨start, hgrows _ _ hstart, hopen⟩

end Growth

/-- Some class of a path is the nearest to declare a method, unless none declares it. -/
theorem nearestDeclaration_or {name descriptor : String} (path : List ClassDecl) :
    (∃ found, NearestDeclaration path name descriptor found) ∨
      ∀ type ∈ path, ¬ type.Declares name descriptor :=
  (nearestOn_or (fun _ => ClassDecl.findMethod_eq_none_iff) path).imp_left
    fun ⟨owner, method, hnearest⟩ => ⟨⟨owner, method⟩, hnearest⟩

/-! Calls in a universe that has grown. -/

/-- The law of calls other than interface calls holds on the class path of the owner. -/
theorem exists_classCallLaw (known : Universe) {kind : ReferenceKind} {owner : String}
    (name descriptor : String) (hkind : kind ≠ .interfaceCall) {start : ClassDecl}
    (hstart : known.lookup owner = some start) :
    ∃ path, IsClassPath known owner path ∧ ClassCallLaw known owner name descriptor path
      (known.findMethod kind owner name descriptor) := by
  obtain ⟨type, htype, -⟩ := Universe.lookup_eq_some_iff.mp hstart
  refine ⟨_, Universe.superClassPath_isClassPath htype, ?_⟩
  have hlaw := Universe.findClassMethod_law name descriptor htype
  simpa [Universe.findMethod, htype, hkind] using hlaw

theorem interfaceCallLaw (known : Universe) {owner : String} (name descriptor : String)
    {start : ClassDecl} (hstart : known.lookup owner = some start) :
    InterfaceCallLaw known owner name descriptor
      (known.findMethod .interfaceCall owner name descriptor) := by
  obtain ⟨type, htype, -⟩ := Universe.lookup_eq_some_iff.mp hstart
  have hlaw := Universe.findInterfaceMethod_law name descriptor htype
  simpa [Universe.findMethod, htype] using hlaw

theorem exists_lookup_of_findMethod {known : Universe} {kind : ReferenceKind}
    {owner name descriptor : String} {found : FoundMethod}
    (h : known.findMethod kind owner name descriptor = some found) :
    ∃ start, known.lookup owner = some start := by
  rw [Universe.findMethod] at h
  split at h
  · cases h
  · rename_i type htype
    exact ⟨_, Universe.lookup_of_find? htype⟩

section Growth

variable {known grown : Universe} (hgrows : known.GrowsTo grown)
  {owner name descriptor : String} {found : FoundMethod}

include hgrows

/-- A call other than an interface call finds the same declaration on its path, or else one
that an interface had before. -/
theorem findMethod_grow {kind : ReferenceKind} (hkind : kind ≠ .interfaceCall)
    (h : known.findMethod kind owner name descriptor = some found) :
    grown.findMethod kind owner name descriptor = some found ∨
      (¬ OnClassPath known owner found ∧
        ∃ other, grown.findMethod kind owner name descriptor = some other) := by
  obtain ⟨start, hstart⟩ := exists_lookup_of_findMethod h
  obtain ⟨path, hpath, hlaw⟩ := exists_classCallLaw known name descriptor hkind hstart
  obtain ⟨longer, hlonger, hgrown⟩ :=
    exists_classCallLaw grown name descriptor hkind (hgrows _ _ hstart)
  obtain ⟨more, hmore⟩ := hpath.grow hgrows
  have hsplit : longer = path ++ more := hlonger.unique hmore
  subst hsplit
  rcases nearestDeclaration_or path with ⟨nearest, hnearest⟩ | hlacks
  · left
    rw [hgrown.nearest nearest (hnearest.append more), ← hlaw.nearest nearest hnearest, h]
  · right
    -- Nothing on the path declares the method, so that an interface of an open owner does.
    have hopen : IsOpenType known owner := by
      apply Classical.byContradiction
      intro hclosed
      rw [hlaw.closed hlacks hclosed] at h
      cases h
    have hinherited := hlaw.inherited hlacks hopen found h
    constructor
    · rintro ⟨other, hother, hmem⟩
      rw [hother.unique hpath] at hmem
      exact hlacks _ hmem (ClassDecl.declares_of_findMethod hinherited.2)
    · rcases nearestDeclaration_or (path ++ more) with ⟨nearest, hnearest⟩ | hnone
      · exact ⟨nearest, hgrown.nearest nearest hnearest⟩
      · rw [← Option.isSome_iff_exists]
        exact (hgrown.inherited_iff hnone (hopen.grow hgrows)).mpr
          ⟨found, hinherited.grow hgrows more⟩

/-- An interface call finds the owner's own declaration again, or else some declaration. -/
theorem findMethod_interfaceCall_grow
    (h : known.findMethod .interfaceCall owner name descriptor = some found) :
    grown.findMethod .interfaceCall owner name descriptor = some found ∨
      (known.lookup owner ≠ some found.owner ∧
        ∃ other, grown.findMethod .interfaceCall owner name descriptor = some other) := by
  obtain ⟨start, hstart⟩ := exists_lookup_of_findMethod h
  have hlaw := interfaceCallLaw known name descriptor hstart
  have hgrown := interfaceCallLaw grown name descriptor (hgrows _ _ hstart)
  cases hown : start.findMethod name descriptor with
  | some method =>
      left
      rw [hgrown.own start method (hgrows _ _ hstart) hown, ← hlaw.own start method hstart hown, h]
  | none =>
      right
      rw [ClassDecl.findMethod_eq_none_iff] at hown
      have hinherits {other : FoundMethod}
          (hother : InterfaceDeclaration grown [start] name descriptor other) :
          ∃ other, grown.findMethod .interfaceCall owner name descriptor = some other := by
        obtain ⟨hit, hhit, -⟩ :=
          hgrown.inherited start (hgrows _ _ hstart) hown ⟨other, hother⟩
        exact ⟨hit, hhit⟩
      have hdeclared : found.owner.Declares name descriptor ∧
          ∃ other, grown.findMethod .interfaceCall owner name descriptor = some other := by
        by_cases hinherited : ∃ other, InterfaceDeclaration known [start] name descriptor other
        · obtain ⟨hit, hhit, hdeclaration⟩ := hlaw.inherited start hstart hown hinherited
          rw [h, Option.some.injEq] at hhit
          subst hhit
          exact ⟨ClassDecl.declares_of_findMethod hdeclaration.2,
            hinherits (hdeclaration.grow hgrows [])⟩
        · have hroot := (hlaw.root start hstart hown hinherited found).mp h
          refine ⟨ClassDecl.declares_of_findMethod hroot.2, ?_⟩
          by_cases hlater : ∃ other, InterfaceDeclaration grown [start] name descriptor other
          · obtain ⟨other, hother⟩ := hlater
            exact hinherits hother
          · exact ⟨found, (hgrown.root start (hgrows _ _ hstart) hown hlater found).mpr
              ⟨hgrows _ _ hroot.1, hroot.2⟩⟩
      refine ⟨?_, hdeclared.2⟩
      rw [hstart, ne_eq, Option.some.injEq]
      rintro rfl
      exact hown hdeclared.1

theorem findField_grow {fieldName : String} {field : FoundField}
    (h : known.findField owner fieldName = some field) :
    grown.findField owner fieldName = some field := by
  obtain ⟨path, hpath, hnearest⟩ := Universe.findField_eq_some_iff.mp h
  obtain ⟨more, hmore⟩ := hpath.grow hgrows
  exact Universe.findField_eq_some_iff.mpr ⟨_, hmore, hnearest.append more⟩

end Growth

/-- Look-ups survive the growth of a universe. -/
theorem extend_keepsLookups (known : Universe) (decls : List ClassDecl) :
    KeepsLookups known (known.extend decls) := by
  have hgrows := known.growsTo_extend decls
  refine ⟨hgrows, fun _ _ _ => findField_grow hgrows, ?_, ?_, ?_⟩
  · intro kind owner name descriptor found h
    by_cases hkind : kind = .interfaceCall
    · subst hkind
      exact (findMethod_interfaceCall_grow hgrows h).elim (fun hsame => ⟨found, hsame⟩) And.right
    · exact (findMethod_grow hgrows hkind h).elim (fun hsame => ⟨found, hsame⟩) And.right
  · intro kind owner name descriptor found hkind h hpath
    exact (findMethod_grow hgrows hkind h).resolve_right (fun hother => hother.1 hpath)
  · intro kind owner name descriptor found h hown
    by_cases hkind : kind = .interfaceCall
    · subst hkind
      exact (findMethod_interfaceCall_grow hgrows h).resolve_right (fun hother => hother.1 hown)
    · obtain ⟨type, htype, hdecl⟩ := Universe.lookup_eq_some_iff.mp hown
      have hpath : OnClassPath known owner found :=
        ⟨_, Universe.superClassPath_isClassPath htype, by simp [Universe.superClassPath, hdecl]⟩
      exact (findMethod_grow hgrows hkind h).resolve_right (fun hother => hother.1 hpath)

end Linkage
