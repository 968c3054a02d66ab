import Linkage.Proofs.FailureReports
import Linkage.Proofs.LinedTrees
import Linkage.Proofs.PlainDeliveries
/-
Super types.  Extraction delivers the super types of a class as references that the class
itself makes.  They come from the header of the class, and from the headers of types below it
that have its name; members make none, and folding passes over them.  A header is left
without lines, so that it delivers each super type once.
-/

namespace Linkage

/-- The kinds of the references to super types. -/
def superKinds : List ReferenceKind := [.extendsType, .implementsType]

/-- Whether the type of a name refers to one of its super types. -/
def Reference.namesSuper (typeName : String) (reference : Reference) : Bool :=
  reference.source = .type typeName && reference.kind ∈ superKinds

/-- The kind and the target of a reference to a super type. -/
def Reference.superEdge (reference : Reference) : ReferenceKind × String :=
  (reference.kind, reference.typeName)

/-- The super types that references give to the type of a name, in order. -/
def superEdges (typeName : String) (references : List Reference) :
    List (ReferenceKind × String) :=
  (references.filter (Reference.namesSuper typeName)).map Reference.superEdge

theorem superEdges_append (typeName : String) (left right : List Reference) :
    superEdges typeName (left ++ right) =
      superEdges typeName left ++ superEdges typeName right := by
  rw [superEdges, List.filter_append, List.map_append]
  rfl

theorem Reference.namesSuper_eq_true_iff {typeName : String} {reference : Reference} :
    reference.namesSuper typeName = true ↔
      reference.source = .type typeName ∧ reference.kind ∈ superKinds := by
  simp [namesSuper]

/-! Delivered super types. -/

/-- Folding passes over every entry of a kind of super types. -/
def SupersPlain (entries : List Entry) : Prop :=
  ∀ entry ∈ entries, entry.reference.kind ∈ superKinds → entry.trail = .plain

theorem SupersPlain.of_steps {options : ExtractOptions} {known : Universe}
    {steps : List (VisitStep known)} {entries : Array Entry} (hunlined : unlinedAll entries =
      (steps.flatMap VisitStep.records).map (Record.unlined options)) :
    SupersPlain entries.toList :=
  PlainAmong.of_steps (by decide) hunlined

/-- The references of the type of a name to its super types. -/
def supersOf (typeName : String) : Choice superKinds where
  chosen identity := identity.source = .type typeName && identity.kind ∈ superKinds
  kind_mem _ h := of_decide_eq_true (Bool.and_eq_true_iff.mp h).2

/-- The delivered entries for the super types of the type of a name. -/
def supersAmong (typeName : String) (entries : List Entry) : List Entry :=
  entries.filter (fun entry => entry.reference.namesSuper typeName && entry.retained)

theorem kind_of_mem_supersAmong {typeName : String} {entries : List Entry} {entry : Entry}
    (h : entry ∈ supersAmong typeName entries) :
    entry ∈ entries ∧ entry.reference.kind ∈ superKinds :=
  (supersOf typeName).mem_among h

theorem supersAmong_foldAccessors (options : ExtractOptions) (typeName : String)
    {entries : List Entry} (hplain : SupersPlain entries) :
    supersAmong typeName (foldAccessors options entries) = supersAmong typeName entries :=
  (supersOf typeName).among_foldAccessors options hplain

/-- Extraction delivers the super types of a type as its entries have them, without repeats. -/
theorem superEdges_delivered (options : ExtractOptions) (typeName : String)
    {entries : List Entry} (hplain : SupersPlain entries) :
    superEdges typeName (delivered (foldAccessors options entries)) =
      (distinctBy Entry.repeatKey (supersAmong typeName entries)).map
        (fun entry => entry.reference.superEdge) := by
  have hdelivered := (supersOf typeName).of_delivered options hplain
  exact (congrArg (List.map Reference.superEdge) hdelivered).trans List.map_map

theorem distinct_superEdges_delivered (options : ExtractOptions) (typeName : String)
    {entries : List Entry} (hplain : SupersPlain entries) :
    distinctBy id (superEdges typeName (delivered (foldAccessors options entries))) =
      distinctBy id ((supersAmong typeName entries).map (fun entry => entry.reference.superEdge)) :=
  (supersOf typeName).distinct_of_delivered (fun identity => (identity.kind, identity.typeName))
    options hplain

/-! The super types of a visit. -/

section Steps
variable {options : ExtractOptions} {known : Universe} {decl : ClassDecl}

/-- Members make references of their own, and none of the type. -/
theorem OwnDrafts.source_ne_type (own : OwnDrafts known decl) {draft : Draft}
    (hmem : draft ∈ own.members) (typeName : String) : draft.reference.source ≠ .type typeName := by
  simp only [OwnDrafts.members, List.mem_append, List.mem_flatten] at hmem
  rcases hmem with ⟨drafts, hdrafts, hmem⟩ | ⟨drafts, hdrafts, hmem⟩
  · obtain ⟨field, -, hdrafts⟩ := (mem_of_mapM_eq_ok own.fields_eq).mp hdrafts
    rw [(fieldMakes_of_mem (mapError_eq_ok hdrafts) hmem).source_eq]
    exact MemberHandle.noConfusion
  · obtain ⟨method, -, hdrafts⟩ := (mem_of_mapM_eq_ok own.methods_eq).mp hdrafts
    rw [source_of_mem_methodDrafts (mapError_eq_ok hdrafts) hmem]
    exact MemberHandle.noConfusion

/-- The super types of the type of a name that a step records for delivery. -/
def VisitStep.superEdges (options : ExtractOptions) (typeName : String) (step : VisitStep known) :
    List (ReferenceKind × String) :=
  (step.records.filter (fun record => record.draft.reference.namesSuper typeName &&
    options.considers record.scope record.draft.reference)).map
      (fun record => record.draft.reference.superEdge)

theorem VisitStep.superEdges_leave (options : ExtractOptions) (typeName : String)
    (own : OwnDrafts known decl) :
    (VisitStep.leave decl own).superEdges options typeName = [] := by
  rw [superEdges, List.map_eq_nil_iff, List.filter_eq_nil_iff]
  intro record hrecord hkept
  obtain ⟨draft, hdraft, rfl⟩ := List.mem_map.mp hrecord
  exact own.source_ne_type hdraft typeName
    (Reference.namesSuper_eq_true_iff.mp (Bool.and_eq_true_iff.mp hkept).1).1

theorem supersAmong_superEdge (typeName : String) {steps : List (VisitStep known)}
    {entries : Array Entry} (hunlined : unlinedAll entries =
      (steps.flatMap VisitStep.records).map (Record.unlined options)) :
    (supersAmong typeName entries.toList).map (fun entry => entry.reference.superEdge) =
      steps.flatMap (VisitStep.superEdges options typeName) := by
  have hrecords := (supersOf typeName).map_among
    (fun identity => (identity.kind, identity.typeName)) hunlined
  rw [List.filter_flatMap, List.map_flatMap] at hrecords
  exact hrecords

/-- The steps of the visit of a class between entering and leaving it. -/
def nestedSteps (known : Universe) (decl : ClassDecl) : List (VisitStep known) :=
  decl.children.flatMap (fun child =>
    ((NestedTrees.ofNames known ∅ decl.childNames).stepsOf known child.name).getD [])

theorem TypeTree.steps_of (known : Universe) (decl : ClassDecl) :
    (TypeTree.of known decl).steps known = (OwnDrafts.read known decl).map (fun own =>
      .enter decl own :: nestedSteps known decl ++ [.leave decl own]) := by
  rw [TypeTree.of, TypeTree.steps]
  rfl

/-- The types that a visit enters below the class are those of its nested steps. -/
theorem enteredTypes_of_read {own : OwnDrafts known decl}
    (hread : OwnDrafts.read known decl = .ok own) :
    enteredTypes known decl = decl :: (nestedSteps known decl).filterMap VisitStep.entered? := by
  rw [enteredTypes, TypeTree.steps_of, hread]
  simp [Except.map, Except.toOption, VisitStep.entered?]

theorem distinct_superEdges_extract {references : List Reference}
    (h : extract options known decl = .ok references) (typeName : String) :
    ∃ own, OwnDrafts.read known decl = .ok own ∧
      distinctBy id (superEdges typeName references) =
        distinctBy id ((VisitStep.enter decl own).superEdges options typeName ++
          (nestedSteps known decl).flatMap (VisitStep.superEdges options typeName)) := by
  obtain ⟨entries, steps, -, hsteps, hunlined, rfl⟩ := exists_steps_of_extract h
  rw [TypeTree.steps_of] at hsteps
  obtain ⟨own, hread, rfl⟩ := map_eq_ok hsteps
  refine ⟨own, hread, ?_⟩
  rw [distinct_superEdges_delivered options typeName (.of_steps hunlined),
    supersAmong_superEdge typeName hunlined, List.cons_append, List.flatMap_cons,
    List.flatMap_append, List.flatMap_singleton, VisitStep.superEdges_leave, List.append_nil]

/-- Whether extraction delivers a super type of a type. -/
def ExtractOptions.considersSuper (options : ExtractOptions) (scope : Scope)
    (edge : ReferenceKind × String) : Bool :=
  options.considers scope (Reference.ofType (.type scope.name) edge.2 edge.1)

theorem considers_eq_considersSuper (options : ExtractOptions) (scope : Scope)
    {reference : Reference} (h : reference.memberName = none) :
    options.considers scope reference = options.considersSuper scope reference.superEdge := by
  rw [ExtractOptions.considersSuper, ExtractOptions.considers, ExtractOptions.considers,
    leavesScope, leavesScope, h]
  rfl

/-- The header of a type makes references to super types, then to annotations. -/
theorem OwnDrafts.exists_headerReferences (own : OwnDrafts known decl) :
    ∃ references, (TypeSite.of known decl).headerReferences = .ok references ∧ own.header =
      (references ++ (TypeSite.of known decl).annotationReferences).map Draft.ofReference := by
  obtain ⟨references, hreferences, hheader⟩ := bind_pure_eq_ok own.header_eq
  exact ⟨references, mapError_eq_ok hreferences, hheader.symm⟩

theorem kind_of_mem_annotationReferences {reference : Reference}
    (h : reference ∈ (TypeSite.of known decl).annotationReferences) :
    reference.kind = .annotationUse := by
  obtain ⟨name, -, rfl⟩ := List.mem_map.mp h
  rfl

/-- Entering a type records the super types that its header refers to. -/
theorem VisitStep.superEdges_enter (options : ExtractOptions) (own : OwnDrafts known decl)
    {references : List Reference}
    (h : (TypeSite.of known decl).headerReferences = .ok references) :
    (VisitStep.enter decl own).superEdges options decl.qualifiedName =
      (Linkage.superEdges decl.qualifiedName references).filter
        (options.considersSuper (TypeSite.of known decl).scope) := by
  obtain ⟨others, hothers, hheader⟩ := own.exists_headerReferences
  rw [h] at hothers
  obtain rfl := Except.ok.inj hothers
  let taken := fun reference : Reference => reference.namesSuper decl.qualifiedName &&
    options.considers (TypeSite.of known decl).scope reference
  have hrecorded : (VisitStep.enter decl own).superEdges options decl.qualifiedName =
      ((references ++ (TypeSite.of known decl).annotationReferences).filter taken).map
        Reference.superEdge := by
    rw [superEdges, records, hheader, TypeSite.recorded, List.map_map, List.filter_map,
      List.map_map]
    rfl
  have hannotations : (TypeSite.of known decl).annotationReferences.filter taken = [] := by
    rw [List.filter_eq_nil_iff]
    intro reference hreference htaken
    have hkind := (Reference.namesSuper_eq_true_iff.mp (Bool.and_eq_true_iff.mp htaken).1).2
    rw [kind_of_mem_annotationReferences hreference] at hkind
    exact absurd hkind (by decide)
  have htaken : references.filter taken = (references.filter (Reference.namesSuper
      decl.qualifiedName)).filter (fun reference =>
        options.considersSuper (TypeSite.of known decl).scope reference.superEdge) := by
    rw [List.filter_filter]
    refine List.filter_congr fun reference hreference => ?_
    rw [Bool.and_comm, ← considers_eq_considersSuper _ _
      (mentions_headerReferences h reference hreference).memberName_eq]
  rw [hrecorded, List.filter_append, hannotations, List.append_nil, htaken, Linkage.superEdges,
    List.filter_map]
  rfl

/-! Headers keep no line, so that super types are not repeated. -/

/-- The entries of the header of a type come first, and extraction leaves them without a line. -/
theorem TypeTree.lineAt?_header {nested : NestedTrees} {header : List Draft}
    {entries : Array Entry} (hheader : (TypeSite.of known decl).headerDrafts = .ok header)
    (hentries : (TypeTree.node decl nested).entries options known = .ok entries) {index : Nat}
    (hindex : index < header.length) : lineAt? entries index = some (-1) := by
  rw [entries_node] at hentries
  obtain ⟨state, hstate, hmethods⟩ := bind_eq_ok hentries
  obtain ⟨first, fields, hfirst, -, rfl⟩ := exists_of_beforeMethods hstate
  obtain ⟨drafts, hdrafts, rfl⟩ := exists_headerEntries hfirst
  rw [hheader] at hdrafts
  obtain rfl := Except.ok.inj hdrafts
  have hunplaced := Unplaced.headerDrafts hheader _ (List.mem_map_of_mem (List.getElem_mem hindex))
  obtain ⟨more, hmore⟩ := foldl_addChild_entries (nested.addEntries options known ∅) decl.children
    { entries := (header.map (options.record (TypeSite.of known decl).scope)).toArray }
  have hnone : TypeEntries.LocalsFrom header.length
      { entries := (header.map (options.record (TypeSite.of known decl).scope)).toArray } := by
    intro name index hmem
    simp at hmem
  have hfrom := hnone.foldl_addChild (by simp) (nested.addEntries options known ∅) decl.children
  refine addMethods_frame hmethods ?_ (fun name hmem => ?_)
  · simp only [hmore, Array.append_assoc]
    rw [lineAt?_append, if_pos (by simpa using hindex)]
    simp [lineAt?, hindex, Entry.line, ExtractOptions.record, hunplaced]
  · exact absurd (hfrom name index hmem) (Nat.not_le_of_lt hindex)

/-- The references of a header to super types have the signature of the class, if it has one. -/
theorem signature_of_mem_headerReferences {references : List Reference}
    (h : (TypeSite.of known decl).headerReferences = .ok references) {reference : Reference}
    (hmem : reference ∈ references) : reference.signature = decl.signature := by
  rw [TypeSite.headerReferences, TypeSite.decl_of] at h
  cases hsignature : decl.signature with
  | some signature =>
      simp only [hsignature] at h
      obtain ⟨types, -, rfl⟩ := bind_pure_eq_ok h
      obtain ⟨type, -, rfl⟩ := List.mem_map.mp hmem
      rfl
  | none =>
      have hplain : ∀ (kind : ReferenceKind) (names : List String), reference ∈
          (TypeSite.of known decl).glossary.typeReferences (TypeSite.of known decl).handle kind
            names → reference.signature = none := by
        intro kind names hmem
        obtain ⟨name, -, rfl⟩ := List.mem_map.mp hmem
        rfl
      simp only [hsignature] at h
      split at h
      · rw [← Except.ok.inj h] at hmem
        exact hplain _ _ hmem
      · rw [← Except.ok.inj h] at hmem
        exact (List.mem_append.mp hmem).elim (hplain _ _) (hplain _ _)

/-- What repeats of a super type in the header of a class share. -/
def ClassDecl.headerKey (decl : ClassDecl) (edge : ReferenceKind × String) :
    Reference.Identity × Int :=
  (⟨edge.1, .type decl.qualifiedName, edge.2, none, decl.signature⟩, -1)

theorem OwnDrafts.identity_of_super (own : OwnDrafts known decl) {draft : Draft}
    (hmem : draft ∈ own.header) (hkind : draft.reference.kind ∈ superKinds) :
    draft.reference.identity = (decl.headerKey draft.reference.superEdge).1 := by
  obtain ⟨references, hreferences, hheader⟩ := own.exists_headerReferences
  rw [hheader] at hmem
  obtain ⟨reference, hreference, rfl⟩ := List.mem_map.mp hmem
  rw [Draft.reference_ofReference] at hkind ⊢
  rcases List.mem_append.mp hreference with hsuper | hannotation
  · have hmention := mentions_headerReferences hreferences reference hsuper
    rw [Reference.identity, hmention.source_eq, hmention.memberName_eq,
      signature_of_mem_headerReferences hreferences hsuper]
    rfl
  · rw [kind_of_mem_annotationReferences hannotation] at hkind
    exact absurd hkind (by decide)

/-- A nested step that records a super type of the type of a name enters a type of this name. -/
theorem VisitStep.entered_of_super {step : VisitStep known} {record : Record}
    (hrecord : record ∈ step.records) {typeName : String}
    (hsource : record.draft.reference.source = .type typeName) :
    ∃ inner, step.entered? = some inner ∧ inner.qualifiedName = typeName := by
  have hname := (VisitStep.provenance hrecord).source_typeName
  rw [hsource] at hname
  cases step with
  | enter inner own => exact ⟨inner, rfl, hname.symm⟩
  | leave inner own =>
      obtain ⟨draft, hdraft, rfl⟩ := List.mem_map.mp hrecord
      exact absurd hsource (own.source_ne_type hdraft typeName)

/-- An entry of an extraction is from the header of the class, and then without a line, or from a
later step of the visit. -/
theorem header_or_later_of_mem {own : OwnDrafts known decl} {entries : Array Entry}
    (hentries : (TypeTree.of known decl).entries options known = .ok entries)
    {later : List (VisitStep known)}
    (hunlined : unlinedAll entries =
      ((.enter decl own :: later).flatMap VisitStep.records).map (Record.unlined options))
    {entry : Entry} (hmem : entry ∈ entries.toList) :
    (entry.line = -1 ∧ ∃ draft ∈ own.header,
        draft.reference.identity = entry.reference.identity) ∨
      ∃ step ∈ later, ∃ record ∈ step.records,
        record.draft.reference.identity = entry.reference.identity := by
  obtain ⟨index, hindex, hget⟩ := List.getElem_of_mem hmem
  have hview : (unlinedAll entries)[index]? = some entry.unlined := by
    rw [unlinedAll, List.getElem?_map, List.getElem?_eq_getElem hindex, hget]
    rfl
  have hrecords : (VisitStep.enter decl own).records.length = own.header.length :=
    List.length_map _
  rw [hunlined, List.flatMap_cons, List.map_append] at hview
  by_cases hheader : index < own.header.length
  · have hline := TypeTree.lineAt?_header own.header_eq hentries hheader
    rw [lineAt?, ← Array.getElem?_toList, List.getElem?_eq_getElem hindex, hget] at hline
    rw [List.getElem?_append_left (by simpa [hrecords] using hheader)] at hview
    obtain ⟨record, hrecord, hsame⟩ := List.mem_map.mp (List.mem_of_getElem? hview)
    obtain ⟨draft, hdraft, rfl⟩ := List.mem_map.mp hrecord
    exact .inl ⟨Option.some.inj hline, draft, hdraft,
      congrArg (fun entry => entry.reference.identity) hsame⟩
  · rw [List.getElem?_append_right (by simpa [hrecords] using hheader)] at hview
    obtain ⟨record, hrecord, hsame⟩ := List.mem_map.mp (List.mem_of_getElem? hview)
    obtain ⟨step, hstep, hrecord⟩ := List.mem_flatMap.mp hrecord
    exact .inr ⟨step, hstep, record, hrecord,
      congrArg (fun entry => entry.reference.identity) hsame⟩

/-- If no type below a class has its name, what is delivered for one super type has one key. -/
theorem repeatKey_of_super {references : List Reference}
    (h : extract options known decl = .ok references)
    (hapart : ∀ inner ∈ (enteredTypes known decl).tail, inner.qualifiedName ≠ decl.qualifiedName)
    {reference : Reference} (hmem : reference ∈ references)
    (hsuper : reference.namesSuper decl.qualifiedName = true) :
    reference.repeatKey = decl.headerKey reference.superEdge := by
  obtain ⟨entries, steps, hentries, hsteps, hunlined, rfl⟩ := exists_steps_of_extract h
  obtain ⟨entry, hkept, hretained, rfl⟩ := exists_of_mem_delivered hmem
  have hentry : entry ∈ supersAmong decl.qualifiedName (foldAccessors options entries.toList) :=
    List.mem_filter.mpr ⟨hkept, Bool.and_eq_true_iff.mpr ⟨hsuper, hretained⟩⟩
  rw [supersAmong_foldAccessors options _ (.of_steps hunlined)] at hentry
  obtain ⟨hentry, hkind⟩ := kind_of_mem_supersAmong hentry
  rw [TypeTree.steps_of] at hsteps
  obtain ⟨own, hread, rfl⟩ := map_eq_ok hsteps
  rw [enteredTypes_of_read hread, List.tail_cons] at hapart
  rcases header_or_later_of_mem hentries hunlined hentry with
    ⟨hline, draft, hdraft, hidentity⟩ | ⟨step, hstep, record, hrecord, hidentity⟩
  · have hdraftKind : draft.reference.kind = entry.reference.kind :=
      congrArg Reference.Identity.kind hidentity
    have hedge : draft.reference.superEdge = entry.reference.superEdge :=
      congrArg (fun identity => (identity.kind, identity.typeName)) hidentity
    have hkey := own.identity_of_super hdraft (hdraftKind ▸ hkind)
    rw [hidentity, hedge] at hkey
    exact Prod.ext hkey hline
  · have hsource : record.draft.reference.source = .type decl.qualifiedName :=
      (congrArg Reference.Identity.source hidentity).trans
        (Reference.namesSuper_eq_true_iff.mp hsuper).1
    obtain ⟨inner, hinner, hname⟩ := VisitStep.entered_of_super hrecord hsource
    rcases List.mem_append.mp hstep with hnested | hleave
    · exact absurd hname (hapart inner (List.mem_filterMap.mpr ⟨step, hnested, hinner⟩))
    · rw [List.mem_singleton.mp hleave] at hinner
      cases hinner

/-- If no type below a class has its name, no super type of it is delivered twice. -/
theorem nodup_superEdges {references : List Reference}
    (h : extract options known decl = .ok references)
    (hapart : ∀ inner ∈ (enteredTypes known decl).tail,
      inner.qualifiedName ≠ decl.qualifiedName) :
    (superEdges decl.qualifiedName references).Nodup := by
  have hkeys : (references.filter (Reference.namesSuper decl.qualifiedName)).map
      Reference.repeatKey = (superEdges decl.qualifiedName references).map decl.headerKey := by
    rw [superEdges, List.map_map]
    refine List.map_congr_left fun reference hreference => ?_
    obtain ⟨hmem, hsuper⟩ := List.mem_filter.mp hreference
    exact repeatKey_of_super h hapart hmem hsuper
  obtain ⟨entries, -, -, -, -, rfl⟩ := exists_steps_of_extract h
  have hnodup := nodup_delivered (foldAccessors options entries.toList)
  have hkept := hnodup.sublist (List.Sublist.map Reference.repeatKey
    (@List.filter_sublist _ (Reference.namesSuper decl.qualifiedName) _))
  rw [hkeys] at hkept
  exact hkept.of_map _

end Steps

end Linkage
