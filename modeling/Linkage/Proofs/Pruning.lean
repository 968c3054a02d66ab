import Linkage.Proofs.FailureReports
import Linkage.Proofs.Outlines
import Linkage.Proofs.Provenance
/-
Nested types that fail.  The visit of a nested type that fails leaves nothing
behind: a class records what it would record if it did not list the type at all.
Listing fewer types in the classes of a universe does not matter either, as long as
the types left out fail, however deep below a root the classes lie and however the
nesting loops.
-/

namespace Linkage

/-- The tree of a type under the types of a path. -/
def TypeTree.under (known : Universe) (path : Std.HashSet String) (decl : ClassDecl) : TypeTree :=
  .node decl (NestedTrees.ofNames known path decl.childNames)

namespace NestedTrees

variable {known : Universe}

/-- The entries by name are those of the last tree of that name that has any. -/
theorem getElem?_addEntries (options : ExtractOptions) (nested : NestedTrees)
    (before : NestedEntries) (name : String) :
    (nested.addEntries options known before)[name]? =
      (nested.lastOf (fun tree => (tree.entries options known).toOption) name).or
        before[name]? := by
  cases nested with
  | nil => simp [addEntries, lastOf]
  | cons other tree rest =>
      rw [addEntries, lastOf]
      cases tree.entries options known with
      | error error =>
          simp only
          rw [getElem?_addEntries options rest before name]
          simp [Except.toOption]
      | ok block =>
          simp only
          rw [getElem?_addEntries options rest _ name, Std.HashMap.getElem?_insert]
          by_cases hname : other = name <;> simp [hname, Except.toOption]

theorem ofNames_cons_met {path : Std.HashSet String} {name : String} {rest : List String}
    (hpath : name ∈ path) : ofNames known path (name :: rest) = ofNames known path rest := by
  rw [ofNames, dif_pos hpath]

/-- The last value for a name is that of the known type of that name under the path. -/
theorem lastOf_ofNames_under {β : Type} (value : TypeTree → Option β) (path : Std.HashSet String)
    (names : List String) (name : String) :
    (ofNames known path names).lastOf value name =
      if name ∈ names ∧ name ∉ path then
        (known.lookup name).bind (fun inner =>
          value (TypeTree.under known (path.insert name) inner))
      else none := by
  have hlookup : known.lookup name = (known.find? name).map IndexedClass.decl := rfl
  rw [hlookup, Option.bind_map]
  induction names with
  | nil => simp [ofNames, lastOf]
  | cons head rest ih =>
      by_cases hpath : head ∈ path
      · rw [ofNames_cons_met hpath, ih]
        by_cases heq : name = head
        · simp [heq, hpath]
        · simp [heq]
      · cases hhead : known.find? head with
        | none =>
            rw [ofNames_cons_unknown hhead, ih]
            by_cases heq : name = head
            · simp [heq, hhead]
            · simp [heq]
        | some type =>
            rw [ofNames_cons_known hhead hpath, lastOf, ih]
            by_cases heq : head = name
            · subst heq
              by_cases hmem : head ∈ rest <;> simp [hhead, hmem, hpath, TypeTree.under]
            · have hne : name ≠ head := fun h => heq h.symm
              simp [heq, hne]

end NestedTrees

/-- The entries of the known type of a name under a path; none if it fails or is on the path. -/
def entriesUnder (options : ExtractOptions) (known : Universe) (path : Std.HashSet String)
    (name : String) : Option (Array Entry) :=
  if name ∈ path then none
  else
    (known.lookup name).bind (fun inner =>
      ((TypeTree.under known (path.insert name) inner).entries options known).toOption)

/-- The entries that a class finds for the types that it nests. -/
theorem getElem?_blocks (options : ExtractOptions) (known : Universe) (path : Std.HashSet String)
    {decl : ClassDecl} {child : ChildType} (hchild : child ∈ decl.children) :
    ((NestedTrees.ofNames known path decl.childNames).addEntries options known ∅)[child.name]? =
      entriesUnder options known path child.name := by
  have hmem : child.name ∈ decl.childNames := mem_childNames.mpr ⟨child, hchild, rfl⟩
  rw [NestedTrees.getElem?_addEntries, NestedTrees.lastOf_ofNames_under, entriesUnder]
  by_cases hpath : child.name ∈ path <;> simp [hmem, hpath]

/-- Whether a nested type does not fail, as far as it is known. -/
def isReadable (known : Universe) (child : ChildType) : Bool :=
  (known.lookup child.name).all (fun inner => (OwnDrafts.read known inner).isOk)

/-- A nested type that fails has no entries anywhere. -/
theorem entriesUnder_eq_none (options : ExtractOptions) {known : Universe}
    (path : Std.HashSet String) {child : ChildType} (h : isReadable known child = false) :
    entriesUnder options known path child.name = none := by
  cases hinner : known.lookup child.name with
  | none => simp [isReadable, hinner] at h
  | some inner =>
      cases hread : OwnDrafts.read known inner with
      | ok own => simp [isReadable, hinner, hread, Except.isOk, Except.toBool] at h
      | error error =>
          have hentries := (TypeTree.entries_error_iff options known inner
            (.ofNames known (path.insert child.name) inner.childNames) error).mpr hread
          simp [entriesUnder, hinner, TypeTree.under, hentries, Except.toOption]

/-- Adds the entries that a nested type has. -/
def TypeEntries.addFound (found : String → Option (Array Entry)) (before : TypeEntries)
    (child : ChildType) : TypeEntries :=
  match found child.name with
  | none => before
  | some block =>
      { entries := before.entries ++ block
        localTypes :=
          if child.kind = .member then before.localTypes
          else before.localTypes.insert child.name
            (unplaced ((before.entries ++ block).size - block.size) block) }

/-- Nested types that fail may be passed over. -/
theorem foldl_addChild_filter {blocks : NestedEntries} {found : String → Option (Array Entry)}
    {keep : ChildType → Bool} {children : List ChildType}
    (hblocks : ∀ child ∈ children, blocks[child.name]? = found child.name)
    (hnone : ∀ child, keep child = false → found child.name = none) (before : TypeEntries) :
    children.foldl (TypeEntries.addChild blocks) before =
      (children.filter keep).foldl (TypeEntries.addFound found) before := by
  induction children generalizing before with
  | nil => rfl
  | cons child rest ih =>
      rw [List.forall_mem_cons] at hblocks
      have hstep : TypeEntries.addChild blocks before child =
          TypeEntries.addFound found before child := by
        cases hfound : found child.name with
        | none => simp only [TypeEntries.addChild, TypeEntries.addFound, hblocks.1, hfound]
        | some block => simp only [TypeEntries.addChild, TypeEntries.addFound, hblocks.1, hfound]
      rw [List.foldl_cons, ih hblocks.2, hstep, List.filter_cons]
      cases hkeep : keep child with
      | true => rfl
      | false =>
          have hsame : TypeEntries.addFound found before child = before := by
            rw [TypeEntries.addFound, hnone child hkeep]
          rw [hsame]
          rfl

/-- A class and the same class with some nested types left out, all of which fail. -/
structure ClassDecl.ThinnedTo (known : Universe) (decl thin : ClassDecl) : Prop where
  outline_eq : decl.outline = thin.outline
  children_eq : decl.children.filter (isReadable known) = thin.children.filter (isReadable known)

/-- A universe and one that knows the same classes, each with such types left out. -/
def Universe.ThinnedTo (known thin : Universe) : Prop :=
  ∀ name, (known.lookup name = none ∧ thin.lookup name = none) ∨
    ∃ decl twin, known.lookup name = some decl ∧ thin.lookup name = some twin ∧
      decl.ThinnedTo known twin

theorem Universe.ThinnedTo.sameOutlines {known thin : Universe} (h : known.ThinnedTo thin) :
    known.SameOutlines thin := by
  intro name
  rcases h name with ⟨hnone, hthin⟩ | ⟨decl, twin, hdecl, htwin, hthinned⟩
  · rw [hnone, hthin]
  · rw [hdecl, htwin]
    exact congrArg some hthinned.outline_eq

/-- Classes that find the same entries for the types that they nest have the same entries. -/
theorem ClassDecl.ThinnedTo.entries_under {options : ExtractOptions} {known thin : Universe}
    (h : known.SameOutlines thin) {path : Std.HashSet String} {decl twin : ClassDecl}
    (hdecl : decl.ThinnedTo known twin)
    (hfound : entriesUnder options thin path = entriesUnder options known path) :
    (TypeTree.under known path decl).entries options known =
      (TypeTree.under thin path twin).entries options thin := by
  have halike := h.alike hdecl.outline_eq
  have hfields : decl.fields = twin.fields :=
    congrArg (fun decl => decl.fields) hdecl.outline_eq
  have hmethods : decl.methods = twin.methods :=
    congrArg (fun decl => decl.methods) hdecl.outline_eq
  have hfails : ∀ child, isReadable known child = false →
      entriesUnder options known path child.name = none :=
    fun _ => entriesUnder_eq_none options path
  have hchildren : ∀ before, decl.children.foldl (TypeEntries.addChild
        ((NestedTrees.ofNames known path decl.childNames).addEntries options known ∅)) before =
      twin.children.foldl (TypeEntries.addChild
        ((NestedTrees.ofNames thin path twin.childNames).addEntries options thin ∅)) before := by
    intro before
    rw [foldl_addChild_filter (fun _ => getElem?_blocks options known path) hfails,
      foldl_addChild_filter (fun child hchild => (getElem?_blocks options thin path hchild).trans
        (congrFun hfound child.name)) hfails, hdecl.children_eq]
  rw [TypeTree.under, TypeTree.under, TypeTree.entries, TypeTree.entries]
  simp only [halike.headerEntries_eq, hchildren, halike.addField_eq, halike.addMethods_eq, hfields,
    hmethods]

/-- Leaving out nested types that fail changes nothing that is recorded, wherever in a tree
they are left out. -/
theorem Universe.ThinnedTo.entries_under (options : ExtractOptions) {known thin : Universe}
    (h : known.ThinnedTo thin) (path : Std.HashSet String) {decl twin : ClassDecl}
    (hdecl : decl.ThinnedTo known twin) :
    (TypeTree.under known path decl).entries options known =
      (TypeTree.under thin path twin).entries options thin := by
  -- By induction on the known names that the path leaves.
  induction hsize : (known.unseen path).length using Nat.strong_induction_on
    generalizing path decl twin with
  | _ size ih =>
      refine hdecl.entries_under h.sameOutlines ?_
      funext name
      rw [entriesUnder, entriesUnder]
      by_cases hpath : name ∈ path
      · rw [if_pos hpath, if_pos hpath]
      · rw [if_neg hpath, if_neg hpath]
        rcases h name with ⟨hnone, hthin⟩ | ⟨inner, innerTwin, hinner, htwin, hthinned⟩
        · rw [hnone, hthin, Option.bind_none, Option.bind_none]
        · obtain ⟨type, htype, -⟩ := Universe.lookup_eq_some_iff.mp hinner
          have hless := Universe.unseen_length_lt htype hpath
          rw [hinner, htwin, Option.bind_some, Option.bind_some,
            ih _ (hsize ▸ hless) (path.insert name) hthinned rfl]

theorem ClassDecl.ThinnedTo.refl (known : Universe) (decl : ClassDecl) :
    decl.ThinnedTo known decl :=
  ⟨rfl, rfl⟩

theorem Universe.ThinnedTo.refl (known : Universe) : known.ThinnedTo known := by
  intro name
  cases known.lookup name with
  | none => exact .inl ⟨rfl, rfl⟩
  | some decl => exact .inr ⟨decl, decl, rfl, rfl, .refl known decl⟩

theorem Universe.ThinnedTo.extract_eq (options : ExtractOptions) {known thin : Universe}
    (h : known.ThinnedTo thin) {decl twin : ClassDecl} (hdecl : decl.ThinnedTo known twin) :
    extract options thin twin = extract options known decl := by
  have hentries : (TypeTree.of known decl).entries options known =
      (TypeTree.of thin twin).entries options thin := h.entries_under options ∅ hdecl
  rw [extract, extract, hentries]

/-- The class without one of the types that it lists. -/
def ClassDecl.withoutNested (decl : ClassDecl) (index : Nat) : ClassDecl :=
  { decl with nestedTypes := decl.nestedTypes.eraseIdx index }

/-- An item that has no image may be erased. -/
theorem filterMap_eraseIdx {α β : Type} {f : α → Option β} {items : List α} {index : Nat} {item : α}
    (hitem : items[index]? = some item) (hnone : f item = none) :
    (items.eraseIdx index).filterMap f = items.filterMap f := by
  obtain ⟨hindex, rfl⟩ := List.getElem?_eq_some_iff.mp hitem
  have hsplit : items = items.take index ++ items[index] :: items.drop (index + 1) := by
    rw [List.getElem_cons_drop, List.take_append_drop]
  rw [List.eraseIdx_eq_take_drop_succ, List.filterMap_append]
  conv_rhs => rw [hsplit]
  rw [List.filterMap_append, List.filterMap_cons_none hnone]

/-- A listed type that fails may be left out of the list. -/
theorem ClassDecl.thinnedTo_withoutNested {known : Universe} {decl inner : ClassDecl} {index : Nat}
    {nested : NestedType} (hentry : decl.nestedTypes[index]? = some nested)
    (hinner : known.lookup (Linkage.qualifiedName nested.name) = some inner)
    (hfails : ∃ error, OwnDrafts.read known inner = .error error) :
    decl.ThinnedTo known (decl.withoutNested index) := by
  refine ⟨rfl, ?_⟩
  obtain ⟨error, herror⟩ := hfails
  have hunreadable : (decl.child? nested).filter (isReadable known) = none := by
    rw [child?]
    split
    · simp [isReadable, hinner, herror, Except.isOk, Except.toBool]
    · rfl
  have hchild : (decl.withoutNested index).child? = decl.child? := rfl
  rw [children_eq, children_eq, hchild, List.filter_filterMap, List.filter_filterMap]
  exact (filterMap_eraseIdx hentry hunreadable).symm

/-- A universe in which one class lists a type less that fails. -/
theorem Universe.thinnedTo_of_lookup {known thin : Universe} {decl twin : ClassDecl}
    (hdecl : known.lookup decl.qualifiedName = some decl)
    (hlookup : ∀ name, thin.lookup name =
      if name = decl.qualifiedName then some twin else known.lookup name)
    (hthinned : decl.ThinnedTo known twin) : known.ThinnedTo thin := by
  intro name
  rw [hlookup]
  by_cases hname : name = decl.qualifiedName
  · rw [if_pos hname, hname]
    exact .inr ⟨decl, twin, hdecl, rfl, hthinned⟩
  · rw [if_neg hname]
    exact ThinnedTo.refl known name

/-! Where the delivered references come from. -/

/-- The steps of a visit are those of types that are visited without error. -/
theorem Visited.of_mem_steps {options : ExtractOptions} {known : Universe} {root decl : ClassDecl}
    (path : Std.HashSet String) {steps : List (VisitStep known)} {step : VisitStep known}
    (hvisited : Visited options known root decl)
    (hsteps : (TypeTree.under known path decl).steps known = .ok steps) (hmem : step ∈ steps) :
    Visited options known root step.decl := by
  induction hsize : (known.unseen path).length using Nat.strong_induction_on
    generalizing path decl steps with
  | _ size ih =>
      rw [TypeTree.under, TypeTree.steps] at hsteps
      obtain ⟨own, hown, rfl⟩ := map_eq_ok hsteps
      simp only [List.cons_append, List.mem_cons, List.mem_append, List.mem_flatMap,
        List.not_mem_nil, or_false] at hmem
      rcases hmem with rfl | ⟨child, hchild, hstep⟩ | rfl
      · exact hvisited
      · rw [NestedTrees.stepsOf_eq_lastOf, NestedTrees.lastOf_ofNames_under] at hstep
        by_cases hpath : child.name ∈ decl.childNames ∧ child.name ∉ path
        · rw [if_pos hpath] at hstep
          cases hinner : known.lookup child.name with
          | none => simp [hinner] at hstep
          | some inner =>
              rw [hinner, Option.bind_some] at hstep
              cases hvisit : (TypeTree.under known (path.insert child.name) inner).steps known with
              | error error => simp [hvisit, Except.toOption] at hstep
              | ok below =>
                  rw [hvisit] at hstep
                  obtain ⟨type, htype, -⟩ := Universe.lookup_eq_some_iff.mp hinner
                  have hless := Universe.unseen_length_lt htype hpath.2
                  obtain ⟨innerOwn, hread, -⟩ := map_eq_ok hvisit
                  exact ih _ (hsize ▸ hless) _ (.nested hvisited ⟨child, hchild, hinner⟩
                    (exists_extract_of_read options hread)) hvisit hstep rfl
        · simp [if_neg hpath] at hstep
      · exact hvisited

/-- Every entry has the footprint of a draft that a type visited without error records. -/
theorem exists_provenance_of_mem {options : ExtractOptions} {known : Universe}
    {root : ClassDecl} {entries : Array Entry} {steps : List (VisitStep known)}
    (hsteps : (TypeTree.of known root).steps known = .ok steps)
    (hunlined : unlinedAll entries =
      (steps.flatMap VisitStep.records).map (Record.unlined options))
    {entry : Entry} (hmem : entry ∈ entries.toList) :
    ∃ decl draft, Visited options known root decl ∧ Provenance known decl draft ∧
      draft.footprint = entry.footprint := by
  obtain ⟨record, hrecord, hsame⟩ := exists_record_of_mem hunlined hmem
  obtain ⟨step, hstep, hrecord⟩ := List.mem_flatMap.mp hrecord
  exact ⟨step.decl, record.draft, Visited.of_mem_steps ∅ .root hsteps hstep,
    VisitStep.provenance hrecord, congrArg Entry.footprint hsame⟩

/-- Folding gives no reference a source that no entry has. -/
theorem exists_source_of_mem_foldAccessors {options : ExtractOptions} {entries : List Entry}
    {kept : Entry} (hmem : kept ∈ foldAccessors options entries)
    (hretained : kept.retained = true) :
    ∃ entry ∈ entries, kept.reference.source = entry.reference.source := by
  rcases mem_foldAccessors hmem hretained with
    ⟨hentry, -⟩ | ⟨access, -, call, hcall, -, rfl⟩
  · exact ⟨kept, hentry, rfl⟩
  · exact ⟨call, hcall, rfl⟩

/-- Every delivered reference comes from a type that is visited without error. -/
theorem exists_visited_source {options : ExtractOptions} {known : Universe} {root : ClassDecl}
    {references : List Reference} (h : extract options known root = .ok references)
    {reference : Reference} (hmem : reference ∈ references) :
    ∃ decl, Visited options known root decl ∧
      reference.source.typeName = decl.qualifiedName := by
  obtain ⟨entries, steps, -, hsteps, hunlined, rfl⟩ := exists_steps_of_extract h
  obtain ⟨kept, hkept, hretained, rfl⟩ := exists_of_mem_delivered hmem
  obtain ⟨entry, hentry, hsource⟩ := exists_source_of_mem_foldAccessors hkept hretained
  obtain ⟨decl, draft, hvisited, hmade, hfootprint⟩ :=
    exists_provenance_of_mem hsteps hunlined hentry
  have hsources : draft.reference.source = entry.reference.source :=
    congrArg (fun footprint => footprint.identity.source) hfootprint
  refine ⟨decl, hvisited, ?_⟩
  rw [hsource, ← hsources, hmade.source_typeName]

/-- A nested type that fails leaves no trace: extraction gives what it gives with the type left
out of the list, whether the class that lists it is extracted itself or found in the universe
below a root; and what is delivered comes from the types that are reached without it. -/
theorem extract_without_failing (options : ExtractOptions) (known : Universe)
    (outer inner : ClassDecl) (index : Nat) (nested : NestedType) (error : ExtractError)
    (hentry : outer.nestedTypes[index]? = some nested)
    (hinner : known.lookup (qualifiedName nested.name) = some inner)
    (hfails : extract options known inner = .error error) :
    extract options known (outer.withoutNested index) = extract options known outer ∧
      (∀ thin : Universe, known.lookup outer.qualifiedName = some outer →
        (∀ name, thin.lookup name =
          if name = outer.qualifiedName then some (outer.withoutNested index)
          else known.lookup name) →
        extract options thin (outer.withoutNested index) = extract options known outer ∧
          ∀ root, extract options thin root = extract options known root) ∧
      (∀ root references, extract options known root = .ok references →
        ¬ Visited options known root inner ∧
          ∀ reference ∈ references, ∃ decl, Visited options known root decl ∧
            reference.source.typeName = decl.qualifiedName) := by
  have hread : ∃ error, OwnDrafts.read known inner = .error error :=
    ⟨error, (extract_eq_error_iff options known inner error).mp hfails⟩
  have hthinned := ClassDecl.thinnedTo_withoutNested hentry hinner hread
  refine ⟨(Universe.ThinnedTo.refl known).extract_eq options hthinned, ?_, ?_⟩
  · intro thin houter hlookup
    have hthin := Universe.thinnedTo_of_lookup houter hlookup hthinned
    exact ⟨hthin.extract_eq options hthinned,
      fun root => hthin.extract_eq options (.refl known root)⟩
  · intro root references hroot
    constructor
    · intro hvisited
      cases hvisited with
      | root =>
          rw [hfails] at hroot
          cases hroot
      | nested _ _ hextract =>
          obtain ⟨found, hfound⟩ := hextract
          rw [hfails] at hfound
          cases hfound
    · intro reference hmem
      exact exists_visited_source hroot hmem

/-! A class two levels below the root that lists a type that fails. -/

def brokenInnermost : ClassDecl :=
  { innermostClass with signature := some "Ljava/util/List<" }

theorem lookup_withoutBroken (name : String) :
    (Universe.ofList [outermostClass, memberClass.withoutNested 0, brokenInnermost]).lookup name =
      if name = memberClass.qualifiedName then some (memberClass.withoutNested 0)
      else (Universe.ofList [outermostClass, memberClass, brokenInnermost]).lookup name := by
  have hthin : (memberClass.withoutNested 0).qualifiedName = memberClass.qualifiedName := rfl
  have hother : outermostClass.qualifiedName ≠ memberClass.qualifiedName := by decide +kernel
  rw [Universe.lookup_ofList, Universe.lookup_ofList]
  by_cases hname : name = memberClass.qualifiedName
  · simp [hname, hthin, hother]
  · have hne : memberClass.qualifiedName ≠ name := fun h => hname h.symm
    simp [List.find?_cons, hname, hthin, hne]

/-- The root gives the same references whether or not the failing type is listed below it. -/
theorem extract_outermost_without_broken :
    isDirectChild memberClass ⟨"a/A$B$1", none, .anonymous⟩ = true ∧
      (∃ error, extract {} (.ofList [outermostClass, memberClass, brokenInnermost])
        brokenInnermost = .error error) ∧
      extract {} (.ofList [outermostClass, memberClass.withoutNested 0, brokenInnermost])
          outermostClass =
        extract {} (.ofList [outermostClass, memberClass, brokenInnermost]) outermostClass := by
  obtain ⟨error, hfails⟩ := extract_fails_of_read {}
    (read_brokenSignature (.ofList [outermostClass, memberClass, brokenInnermost])
      (rfl : brokenInnermost.signature = some "Ljava/util/List<") rfl)
  have hinner : (Universe.ofList [outermostClass, memberClass, brokenInnermost]).lookup
      (qualifiedName "a/A$B$1") = some brokenInnermost := by
    rw [Universe.lookup_ofList]
    decide +kernel
  have houter : (Universe.ofList [outermostClass, memberClass, brokenInnermost]).lookup
      memberClass.qualifiedName = some memberClass := by
    rw [Universe.lookup_ofList]
    decide +kernel
  have hsame := (extract_without_failing {} _ memberClass brokenInnermost 0 _ error rfl hinner
    hfails).2.1 _ houter lookup_withoutBroken
  exact ⟨by decide +kernel, ⟨error, hfails⟩, hsame.2 outermostClass⟩

end Linkage
