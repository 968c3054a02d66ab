import Linkage.Proofs.FailureReports
import Mathlib.Data.List.Sort
/-
Extraction of a list and the order of the list.  Whether a class is a root depends on
which classes the list has, and sorting by distinct names leaves no choice.  So what is
delivered is a function of the set of classes: each root once, in one of two ascending
lists, with what extraction of that class alone gives.
-/

namespace Linkage

/-- A class of a list that none of the list is around. -/
def Outermost (classes : List ClassDecl) (decl : ClassDecl) : Prop :=
  decl ∈ classes ∧ ∀ outer ∈ classes, enclosingName? decl ≠ some outer.name

theorem Outermost.congr {classes other : List ClassDecl}
    (h : ∀ decl, decl ∈ other ↔ decl ∈ classes) (decl : ClassDecl) :
    Outermost other decl ↔ Outermost classes decl := by
  simp only [Outermost, h]

theorem mem_rootTypes_iff_outermost {classes : List ClassDecl} {decl : ClassDecl} :
    decl ∈ rootTypes classes ↔ Outermost classes decl :=
  mem_rootTypes

theorem rootTypes_ascending {classes : List ClassDecl}
    (hnames : (classes.map ClassDecl.qualifiedName).Nodup) :
    (rootTypes classes).Pairwise
      (fun left right => left.qualifiedName < right.qualifiedName) := by
  have hkeys : ((classes.filter (isRoot (classes.map ClassDecl.name))).map
      (fun decl => [decl.qualifiedName])).Nodup := by
    have hdistinct := (List.pairwise_map.mp hnames).filter (isRoot (classes.map ClassDecl.name))
    exact List.pairwise_map.mpr
      (hdistinct.imp (fun hne heq => hne (List.singleton_inj.mp heq)))
  refine (sortByNames_ascending hkeys).imp ?_
  intro left right hlt
  rcases compare_names_cons.mp hlt with hlt | ⟨-, hnil⟩
  · exact hlt
  · cases hnil

/-- What a class alone contributes to the types delivered. -/
def ownReferences? (options : ExtractOptions) (known : Universe) (decl : ClassDecl) :
    Option TypeReferences :=
  (extract options known decl).toOption.map
    (fun references => { typeName := decl.qualifiedName, references })

theorem ownReferences?_eq_some_iff {options : ExtractOptions} {known : Universe}
    {decl : ClassDecl} {entry : TypeReferences} :
    ownReferences? options known decl = some entry ↔
      extract options known decl = .ok entry.references ∧
        entry.typeName = decl.qualifiedName := by
  obtain ⟨typeName, references⟩ := entry
  rw [ownReferences?]
  cases extract options known decl with
  | error error => simp [Except.toOption]
  | ok found => simp [Except.toOption, and_comm, eq_comm]

theorem types_extractAll (options : ExtractOptions) (known : Universe)
    (classes : List ClassDecl) :
    (extractAll options known classes).types =
      (rootTypes classes).filterMap (ownReferences? options known) := by
  simp only [extractAll, List.filterMap_map]
  apply List.filterMap_congr
  intro root _
  rw [Function.comp_apply, ownReferences?]
  cases extract options known root <;> rfl

/-- The names that an output has entries for. -/
def ExtractionOutput.typeNames (output : ExtractionOutput) : List String :=
  output.types.map TypeReferences.typeName ++ output.failures.map TypeFailure.typeName

/-- The output accounts for the outermost classes of a list, each by its own extraction. -/
structure BatchReport (options : ExtractOptions) (known : Universe) (classes : List ClassDecl)
    (output : ExtractionOutput) : Prop where
  types_ascending : output.types.Pairwise (fun left right => left.typeName < right.typeName)
  failures_ascending :
    output.failures.Pairwise (fun left right => left.typeName < right.typeName)
  mem_types : ∀ entry, entry ∈ output.types ↔
    ∃ root, Outermost classes root ∧ extract options known root = .ok entry.references ∧
      entry.typeName = root.qualifiedName
  mem_failures : ∀ failure, failure ∈ output.failures ↔
    ∃ root, Outermost classes root ∧ ∃ error, extract options known root = .error error ∧
      failure = ⟨root.qualifiedName, extractMessage root error⟩
  /-- No root is left out, and none has two entries. -/
  named_once : ∀ root, Outermost classes root →
    output.typeNames.count root.qualifiedName = 1

/-- Two lists that ascend by the same key are equal if they have the same members. -/
theorem eq_of_ascending_of_mem_iff {α : Type} {key : α → String} {items other : List α}
    (hitems : items.Pairwise (fun left right => key left < key right))
    (hother : other.Pairwise (fun left right => key left < key right))
    (h : ∀ item, item ∈ items ↔ item ∈ other) : items = other := by
  have hirrefl : Std.Irrefl (fun left right : α => key left < key right) :=
    ⟨fun item => String.lt_irrefl (key item)⟩
  have hantisymm : Std.Antisymm (fun left right : α => key left < key right) :=
    ⟨fun _ _ hlt hgt => absurd hgt (String.lt_asymm hlt)⟩
  exact hitems.eq_of_mem_iff hother h

namespace BatchReport

variable {options : ExtractOptions} {known : Universe} {classes other : List ClassDecl}
  {output : ExtractionOutput}

/-- The classes of a list and their own extractions leave one output. -/
theorem unique {output' : ExtractionOutput} (h : BatchReport options known classes output)
    (h' : BatchReport options known classes output') : output = output' := by
  have htypes : output.types = output'.types :=
    eq_of_ascending_of_mem_iff h.types_ascending h'.types_ascending
      (fun entry => (h.mem_types entry).trans (h'.mem_types entry).symm)
  have hfailures : output.failures = output'.failures :=
    eq_of_ascending_of_mem_iff h.failures_ascending h'.failures_ascending
      (fun failure => (h.mem_failures failure).trans (h'.mem_failures failure).symm)
  cases output
  cases output'
  simp_all only

/-- Another list with the same members is reported in the same way. -/
theorem congr (h : BatchReport options known other output)
    (hmem : ∀ decl, decl ∈ other ↔ decl ∈ classes) :
    BatchReport options known classes output where
  types_ascending := h.types_ascending
  failures_ascending := h.failures_ascending
  mem_types := by simpa only [Outermost.congr hmem] using h.mem_types
  mem_failures := by simpa only [Outermost.congr hmem] using h.mem_failures
  named_once := by simpa only [Outermost.congr hmem] using h.named_once

end BatchReport

section

variable (options : ExtractOptions) (known : Universe) {classes : List ClassDecl}
  (hnames : (classes.map ClassDecl.qualifiedName).Nodup)

theorem mem_types_extractAll (entry : TypeReferences) :
    entry ∈ (extractAll options known classes).types ↔
      ∃ root, Outermost classes root ∧ extract options known root = .ok entry.references ∧
        entry.typeName = root.qualifiedName := by
  simp only [types_extractAll, List.mem_filterMap, mem_rootTypes_iff_outermost,
    ownReferences?_eq_some_iff]

theorem mem_failures_extractAll (failure : TypeFailure) :
    failure ∈ (extractAll options known classes).failures ↔
      ∃ root, Outermost classes root ∧ ∃ error, extract options known root = .error error ∧
        failure = ⟨root.qualifiedName, extractMessage root error⟩ := by
  simp only [failures_extractAll, List.mem_filterMap, mem_rootTypes_iff_outermost,
    ownFailure?_eq_some_iff, extract_eq_error_iff]

include hnames

/-- What the roots contribute stays in their order where it carries their names. -/
theorem filterMap_rootTypes_ascending {β : Type} {view : ClassDecl → Option β} {key : β → String}
    (hkey : ∀ decl entry, view decl = some entry → key entry = decl.qualifiedName) :
    ((rootTypes classes).filterMap view).Pairwise (fun left right => key left < key right) := by
  rw [List.pairwise_filterMap]
  refine (rootTypes_ascending hnames).imp ?_
  intro left right hlt entry hentry entry' hentry'
  rw [hkey left entry hentry, hkey right entry' hentry']
  exact hlt

theorem types_extractAll_ascending : (extractAll options known classes).types.Pairwise
    (fun left right => left.typeName < right.typeName) := by
  rw [types_extractAll]
  exact filterMap_rootTypes_ascending hnames
    (fun _ _ hentry => (ownReferences?_eq_some_iff.mp hentry).2)

theorem failures_extractAll_ascending : (extractAll options known classes).failures.Pairwise
    (fun left right => left.typeName < right.typeName) := by
  rw [failures_extractAll]
  refine filterMap_rootTypes_ascending hnames ?_
  intro decl failure hfailure
  obtain ⟨_, -, rfl⟩ := ownFailure?_eq_some_iff.mp hfailure
  rfl

/-- A class is delivered or fails, and no other class of the list has its name. -/
theorem typeNames_extractAll_nodup : (extractAll options known classes).typeNames.Nodup := by
  refine List.Nodup.append ?_ ?_ ?_
  · exact List.pairwise_map.mpr
      ((types_extractAll_ascending options known hnames).imp String.ne_of_lt)
  · exact List.pairwise_map.mpr
      ((failures_extractAll_ascending options known hnames).imp String.ne_of_lt)
  · intro name htype hfailure
    obtain ⟨entry, hentry, rfl⟩ := List.mem_map.mp htype
    obtain ⟨failure, hfailure, hname⟩ := List.mem_map.mp hfailure
    obtain ⟨root, hroot, hok, hentryName⟩ := (mem_types_extractAll options known entry).mp hentry
    obtain ⟨root', hroot', error, herror, rfl⟩ :=
      (mem_failures_extractAll options known failure).mp hfailure
    have hsame := List.inj_on_of_nodup_map hnames hroot'.1 hroot.1 (hname.trans hentryName)
    rw [hsame, hok] at herror
    cases herror

theorem extractAll_batchReport :
    BatchReport options known classes (extractAll options known classes) where
  types_ascending := types_extractAll_ascending options known hnames
  failures_ascending := failures_extractAll_ascending options known hnames
  mem_types := mem_types_extractAll options known
  mem_failures := mem_failures_extractAll options known
  named_once := by
    intro root hroot
    refine List.count_eq_one_of_mem (typeNames_extractAll_nodup options known hnames) ?_
    rw [ExtractionOutput.typeNames, List.mem_append, List.mem_map, List.mem_map]
    cases hextract : extract options known root with
    | ok references =>
        exact .inl ⟨⟨root.qualifiedName, references⟩,
          (mem_types_extractAll options known _).mpr ⟨root, hroot, hextract, rfl⟩, rfl⟩
    | error error =>
        exact .inr ⟨⟨root.qualifiedName, extractMessage root error⟩,
          (mem_failures_extractAll options known _).mpr ⟨root, hroot, error, hextract, rfl⟩, rfl⟩

end

/-- Where names are distinct, what is delivered does not depend on the order of the list.
The output names every outermost class once and in ascending order, each with what
extraction of that class alone gives. -/
theorem extractAll_perm (options : ExtractOptions) (known : Universe)
    {classes other : List ClassDecl} (hnames : (classes.map ClassDecl.qualifiedName).Nodup)
    (hperm : other.Perm classes) :
    extractAll options known other = extractAll options known classes ∧
      BatchReport options known classes (extractAll options known classes) := by
  have hreport := extractAll_batchReport options known hnames
  have hother := extractAll_batchReport options known
    ((hperm.map ClassDecl.qualifiedName).nodup_iff.mpr hnames)
  exact ⟨(hother.congr (fun _ => hperm.mem_iff)).unique hreport, hreport⟩

/-- Two roots with a nested type between them, one of which fails. -/
theorem extractAll_perm_brokenClasses :
    let classes := brokenClasses [brokenField] ++ [{ name := "a/0" }]
    (classes.map ClassDecl.qualifiedName).Nodup ∧ classes.reverse.Perm classes ∧
      extractAll {} (.ofList classes) classes.reverse =
        extractAll {} (.ofList classes) classes ∧
      BatchReport {} (.ofList classes) classes (extractAll {} (.ofList classes) classes) := by
  intro classes
  have hnames : (classes.map ClassDecl.qualifiedName).Nodup := by decide +kernel
  exact ⟨hnames, classes.reverse_perm, extractAll_perm {} _ hnames classes.reverse_perm⟩

end Linkage
