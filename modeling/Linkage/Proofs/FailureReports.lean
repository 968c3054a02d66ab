import Linkage.Proofs.RootVisits
/-
Reports of failures.  Whether the visit of a type fails depends on the texts of the
type itself: a nested type that fails is left out, and the visit around it goes on.
So extraction of a list reports the roots that fail themselves, each with its own
error, and no other type: one that fails below a root is accounted for only if its
root fails as well.
-/

namespace Linkage

/-- Extraction of a type fails exactly if its own texts cannot be read. -/
theorem extract_eq_error_iff (options : ExtractOptions) (known : Universe) (decl : ClassDecl)
    (error : ExtractError) :
    extract options known decl = .error error ↔ OwnDrafts.read known decl = .error error := by
  rw [← TypeTree.entries_error_iff options known decl, extract, TypeTree.of]
  cases (TypeTree.node decl (.ofNames known ∅ decl.childNames)).entries options known with
  | error cause => simp [bind, Except.bind]
  | ok entries => simp [bind, Except.bind, pure, Except.pure]

theorem exists_extract_of_read (options : ExtractOptions) {known : Universe} {decl : ClassDecl}
    {own : OwnDrafts known decl} (h : OwnDrafts.read known decl = .ok own) :
    ∃ references, extract options known decl = .ok references := by
  cases hextract : extract options known decl with
  | ok references => exact ⟨references, rfl⟩
  | error error =>
      rw [(extract_eq_error_iff options known decl error).mp hextract] at h
      cases h

/-- The failure that the own texts of a type cause. -/
def ownFailure? (known : Universe) (decl : ClassDecl) : Option TypeFailure :=
  match OwnDrafts.read known decl with
  | .ok _ => none
  | .error error =>
      some { typeName := decl.qualifiedName, message := extractMessage decl error }

theorem ownFailure?_eq_some_iff {known : Universe} {decl : ClassDecl} {failure : TypeFailure} :
    ownFailure? known decl = some failure ↔
      ∃ error, OwnDrafts.read known decl = .error error ∧
        failure = ⟨decl.qualifiedName, extractMessage decl error⟩ := by
  rw [ownFailure?]
  cases OwnDrafts.read known decl with
  | error error => simp [eq_comm]
  | ok own => simp

/-- The types whose visit begins when a root is extracted: the root, and the known types
nested directly in a type that is entered, for which its header must be readable. -/
inductive VisitBegun (known : Universe) (root : ClassDecl) : ClassDecl → Prop where
  | root : VisitBegun known root root
  | nested {outer inner : ClassDecl} (houter : VisitBegun known root outer)
      (hheader : ∃ header, (TypeSite.of known outer).headerReferences = .ok header)
      (hnested : NestsDirectly known outer inner) : VisitBegun known root inner

/-- The output has a failure that names a type or the root that it is reached from. -/
def ExtractionOutput.AccountsFor (output : ExtractionOutput) (root decl : ClassDecl) : Prop :=
  ∃ failure ∈ output.failures,
    failure.typeName = decl.qualifiedName ∨ failure.typeName = root.qualifiedName

/-- The reported failures are those of the roots' own texts. -/
theorem failures_extractAll (options : ExtractOptions) (known : Universe)
    (classes : List ClassDecl) :
    (extractAll options known classes).failures =
      (rootTypes classes).filterMap (ownFailure? known) := by
  simp only [extractAll, List.filterMap_map]
  apply List.filterMap_congr
  intro root _
  rw [Function.comp_apply, ownFailure?]
  cases hread : OwnDrafts.read known root with
  | error error =>
      rw [(extract_eq_error_iff options known root error).mpr hread]
  | ok own =>
      obtain ⟨references, hreferences⟩ := exists_extract_of_read options hread
      rw [hreferences]

theorem accountsFor_iff {options : ExtractOptions} {known : Universe} {classes : List ClassDecl}
    {root decl : ClassDecl} :
    (extractAll options known classes).AccountsFor root decl ↔
      ∃ other ∈ rootTypes classes, (∃ error, OwnDrafts.read known other = .error error) ∧
        (other.qualifiedName = decl.qualifiedName ∨
          other.qualifiedName = root.qualifiedName) := by
  rw [ExtractionOutput.AccountsFor, failures_extractAll]
  constructor
  · rintro ⟨failure, hmem, hname⟩
    obtain ⟨other, hother, hown⟩ := List.mem_filterMap.mp hmem
    obtain ⟨error, herror, rfl⟩ := ownFailure?_eq_some_iff.mp hown
    exact ⟨other, hother, ⟨error, herror⟩, hname⟩
  · rintro ⟨other, hother, ⟨error, herror⟩, hname⟩
    have hown := ownFailure?_eq_some_iff.mpr ⟨error, herror, rfl⟩
    exact ⟨_, List.mem_filterMap.mpr ⟨other, hother, hown⟩, hname⟩

/-- What a visit from a class of a list begins to visit is in the list. -/
theorem VisitBegun.mem {classes : List ClassDecl} {root decl : ClassDecl} (hroot : root ∈ classes)
    (h : VisitBegun (.ofList classes) root decl) : decl ∈ classes := by
  cases h with
  | root => exact hroot
  | nested _ _ hnested =>
      obtain ⟨child, -, hlookup⟩ := hnested
      rw [Universe.lookup_ofList] at hlookup
      exact List.mem_of_find?_eq_some hlookup

/-- Extraction of a list reports exactly the roots that fail themselves.  Where names are
distinct, a type that fails is accounted for if it is a root or its root fails, and otherwise
not. -/
theorem extractAll_reports_roots (options : ExtractOptions) (classes : List ClassDecl) :
    (extractAll options (.ofList classes) classes).failures =
        (rootTypes classes).filterMap (ownFailure? (.ofList classes)) ∧
      ((classes.map ClassDecl.qualifiedName).Nodup →
        ∀ root ∈ rootTypes classes, ∀ decl, VisitBegun (.ofList classes) root decl →
          (∃ error, extract options (.ofList classes) decl = .error error) →
          ((extractAll options (.ofList classes) classes).AccountsFor root decl ↔
            decl ∈ rootTypes classes ∨
              ∃ error, extract options (.ofList classes) root = .error error)) := by
  refine ⟨failures_extractAll options _ classes, ?_⟩
  intro hnodup root hroot decl hbegun hfails
  have hmem := hbegun.mem (mem_rootTypes.mp hroot).1
  simp only [extract_eq_error_iff] at hfails ⊢
  rw [accountsFor_iff]
  constructor
  · rintro ⟨other, hother, herror, hname | hname⟩
    · have hsame := List.inj_on_of_nodup_map hnodup (mem_rootTypes.mp hother).1 hmem hname
      exact .inl (hsame ▸ hother)
    · have hsame := List.inj_on_of_nodup_map hnodup (mem_rootTypes.mp hother).1
        (mem_rootTypes.mp hroot).1 hname
      exact .inr (hsame ▸ herror)
  · rintro (hdecl | herror)
    · exact ⟨decl, hdecl, hfails, .inl rfl⟩
    · exact ⟨root, hroot, herror, .inr rfl⟩

/-! A class with a nested type whose signature breaks off. -/

def brokenMember : ClassDecl where
  name := "a/A$B"
  signature := some "Ljava/util/List<"
  nesting := some ⟨"a/A$B", some "a/A", .member⟩

/-- The class around it, with some fields. -/
def memberHolder (fields : List FieldDecl) : ClassDecl where
  name := "a/A"
  nestedTypes := [⟨"a/A$B", some "a/A", .member⟩]
  fields := fields

def brokenClasses (fields : List FieldDecl) : List ClassDecl :=
  [memberHolder fields, brokenMember]

/-- A field whose descriptor names no type. -/
def brokenField : FieldDecl where
  name := "f"
  descriptor := "Q"

/-- A class with the broken signature fails, whatever else it declares. -/
theorem read_brokenSignature (known : Universe) {decl : ClassDecl}
    (hsignature : decl.signature = some "Ljava/util/List<")
    (hclass : decl.access.isInterface = false) :
    ∃ error, OwnDrafts.read known decl = .error error := by
  obtain ⟨cause, hcause⟩ :
      ∃ cause, readSignature (.type false) "Ljava/util/List<" = .error cause := ⟨_, by cbv⟩
  cases hread : OwnDrafts.read known decl with
  | error error => exact ⟨error, rfl⟩
  | ok own =>
      have hheader := own.header_eq
      rw [TypeSite.headerDrafts, TypeSite.headerReferences, TypeSite.decl_of] at hheader
      simp [hsignature, hclass, hcause, bind, Except.bind] at hheader

theorem read_brokenMember (known : Universe) :
    ∃ error, OwnDrafts.read known brokenMember = .error error :=
  read_brokenSignature known rfl rfl

theorem read_brokenField (known : Universe) :
    ∃ error, OwnDrafts.read known (memberHolder [brokenField]) = .error error := by
  obtain ⟨cause, hcause⟩ : ∃ cause, readFieldType "Q" = .error cause := ⟨_, by cbv⟩
  cases hread : OwnDrafts.read known (memberHolder [brokenField]) with
  | error error => exact ⟨error, rfl⟩
  | ok own =>
      have hfields := own.fields_eq
      rw [TypeSite.fieldsDrafts, TypeSite.decl_of] at hfields
      simp [memberHolder, brokenField, TypeSite.fieldDrafts, TypeSite.fieldTypeDrafts, hcause,
        bind, Except.bind] at hfields

theorem visitBegun_brokenMember (fields : List FieldDecl) :
    VisitBegun (.ofList (brokenClasses fields)) (memberHolder fields) brokenMember := by
  have hname : qualifiedName "a/A$B" = "a.A$B" := by decide +kernel
  have hholder : qualifiedName "a/A" ≠ "a.A$B" := by decide +kernel
  have hchild : (⟨"a.A$B", .member⟩ : ChildType) ∈ (memberHolder fields).children := by
    simp [ClassDecl.children_eq, ClassDecl.child?, isDirectChild, memberHolder, hname]
  refine .nested .root (exists_headerReferences _ rfl) ⟨_, hchild, ?_⟩
  simp [Universe.lookup_ofList, brokenClasses, memberHolder, brokenMember,
    ClassDecl.qualifiedName, hname, hholder]

theorem mem_rootTypes_memberHolder (fields : List FieldDecl) (decl : ClassDecl) :
    decl ∈ rootTypes (brokenClasses fields) ↔ decl = memberHolder fields := by
  have houter : enclosingName? brokenMember = some (memberHolder fields).name := rfl
  have hroot : enclosingName? (memberHolder fields) = none := rfl
  rw [mem_rootTypes]
  constructor
  · rintro ⟨hmem, houtermost⟩
    simp only [brokenClasses, List.mem_cons, List.not_mem_nil, or_false] at hmem
    refine hmem.resolve_right ?_
    rintro rfl
    exact houtermost _ List.mem_cons_self houter
  · rintro rfl
    simp [brokenClasses, hroot]

theorem extract_fails_of_read (options : ExtractOptions) {known : Universe} {decl : ClassDecl}
    (h : ∃ error, OwnDrafts.read known decl = .error error) :
    ∃ error, extract options known decl = .error error :=
  h.imp (fun error => (extract_eq_error_iff options known decl error).mpr)

/-- Where the class around it fails as well, the nested type is accounted for. -/
theorem extractAll_reports_brokenField :
    VisitBegun (.ofList (brokenClasses [brokenField])) (memberHolder [brokenField])
        brokenMember ∧
      (∃ error, extract {} (.ofList (brokenClasses [brokenField])) brokenMember =
        .error error) ∧
      (extractAll {} (.ofList (brokenClasses [brokenField]))
        (brokenClasses [brokenField])).AccountsFor (memberHolder [brokenField]) brokenMember := by
  have hmember := extract_fails_of_read {}
    (read_brokenMember (.ofList (brokenClasses [brokenField])))
  have hholder := extract_fails_of_read {}
    (read_brokenField (.ofList (brokenClasses [brokenField])))
  have hroot := (mem_rootTypes_memberHolder [brokenField] _).mpr rfl
  have haccounted := (extractAll_reports_roots {} (brokenClasses [brokenField])).2
    (by decide +kernel) _ hroot _ (visitBegun_brokenMember _) hmember
  exact ⟨visitBegun_brokenMember _, hmember, haccounted.mpr (.inr hholder)⟩

theorem acyclicNesting_brokenClasses : AcyclicNesting (.ofList (brokenClasses [])) := by
  have hconsistent : ConsistentNesting (brokenClasses []) :=
    { names_nodup := by decide +kernel
      listed_once := by decide +kernel
      nesting_eq := by decide +kernel
      acyclic := acyclic_of_rank (fun decl => decl.name.length) (by decide +kernel) }
  refine hconsistent.acyclicNesting ?_
  unfold NestingNamed
  decide +kernel

/-- A nested type can fail without a failure that names it or its root. -/
theorem extractAll_silent_below_root :
    ¬ ∀ (options : ExtractOptions) (classes : List ClassDecl),
      AcyclicNesting (.ofList classes) →
      ∀ root ∈ rootTypes classes, ∀ decl, VisitBegun (.ofList classes) root decl →
        (∃ error, extract options (.ofList classes) decl = .error error) →
        (extractAll options (.ofList classes) classes).AccountsFor root decl := by
  intro h
  have haccounted := h {} (brokenClasses []) acyclicNesting_brokenClasses (memberHolder [])
    ((mem_rootTypes_memberHolder [] _).mpr rfl) brokenMember (visitBegun_brokenMember [])
    (extract_fails_of_read {} (read_brokenMember _))
  -- The only root has nothing that cannot be read.
  obtain ⟨other, hother, ⟨error, herror⟩, -⟩ := accountsFor_iff.mp haccounted
  rw [mem_rootTypes_memberHolder] at hother
  subst hother
  have hsignature : (memberHolder []).signature = none := rfl
  obtain ⟨references, hreferences⟩ :=
    exists_extract_of_bare {} (.ofList (brokenClasses [])) hsignature rfl rfl
  rw [(extract_eq_error_iff {} _ _ error).mpr herror] at hreferences
  cases hreferences

end Linkage
