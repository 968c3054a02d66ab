import Linkage.Proofs.LinedBodies
import Linkage.Proofs.LocalVariables
import Linkage.Proofs.MaskedTrees
import Linkage.Proofs.Pruning
/-
Lines that stay.  Declarations and instructions make references without a line, and the
walk that assigns lines leaves an entry with a line alone.  So in a tree of types whose
tables have small lines every entry is on a line number or on `-1`, and what a visited type
has placed stays there when the types around it add their own.
-/

namespace Linkage

/-! What the declaration of a method makes. -/

namespace TypeSite

variable {type : TypeSite} {method : MethodDecl} {types : MethodTypes}
  {references : List Reference} {holds : Reference → Prop}

theorem forall_overrideReferences
    (h : ∀ target flags, holds (.ofMethod (type.methodHandle method) target method.name
      method.descriptor .override flags)) :
    ∀ reference ∈ type.overrideReferences method, holds reference := by
  rw [overrideReferences]
  split
  · exact List.forall_mem_nil _
  · split
    · exact List.forall_mem_nil _
    · intro reference hmem
      rw [List.mem_singleton.mp hmem]
      exact h _ _

theorem forall_methodTypeReferences
    (hsignature : ∀ signature named, readSignature .method signature = .ok named →
      ∀ item ∈ named,
        holds (.ofSignature (type.methodHandle method) item.typeName signature item.kind))
    (hparameter : ∀ name, holds (.ofType (type.methodHandle method) name .parameter))
    (hresult : ∀ name, holds (.ofType (type.methodHandle method) name .returnType))
    (h : type.methodTypeReferences method types = .ok references) :
    ∀ reference ∈ references, holds reference := by
  rw [methodTypeReferences] at h
  split at h
  · rename_i signature _
    obtain ⟨named, hnamed, rfl⟩ := bind_pure_eq_ok h
    rw [Table.get_eq] at hnamed
    exact List.forall_mem_map.mpr (hsignature signature named hnamed)
  · rw [← Except.ok.inj h]
    exact List.forall_mem_append.mpr ⟨List.forall_mem_map.mpr fun name _ => hparameter name,
      List.forall_mem_map.mpr fun name _ => hresult name⟩

/-- The declaration of a method makes an override, references to the classes of its signature
or descriptor, and references to exceptions and annotations. -/
theorem forall_methodReferences
    (hoverride : ∀ target flags, holds (.ofMethod (type.methodHandle method) target method.name
      method.descriptor .override flags))
    (hsignature : ∀ signature named, readSignature .method signature = .ok named →
      ∀ item ∈ named,
        holds (.ofSignature (type.methodHandle method) item.typeName signature item.kind))
    (hnamed : ∀ name, ∀ kind ∈ [ReferenceKind.parameter, .returnType, .throws, .annotationUse],
      holds (.ofType (type.methodHandle method) name kind))
    (h : type.methodReferences method types = .ok references) :
    ∀ reference ∈ references, holds reference := by
  obtain ⟨declared, hdeclared, rfl⟩ := bind_pure_eq_ok h
  have htyped : ∀ kind ∈ [ReferenceKind.parameter, .returnType, .throws, .annotationUse],
      ∀ names, ∀ reference ∈ type.glossary.typeReferences (type.methodHandle method) kind names,
        holds reference :=
    fun kind hkind names => List.forall_mem_map.mpr fun name _ => hnamed _ kind hkind
  refine List.forall_mem_append.mpr ⟨List.forall_mem_append.mpr
    ⟨forall_overrideReferences hoverride, ?_⟩, htyped _ (by decide) _⟩
  rw [methodHeaderReferences] at hdeclared
  split at hdeclared
  · rw [← Except.ok.inj hdeclared]
    exact List.forall_mem_nil _
  · obtain ⟨named, hsigned, rfl⟩ := bind_pure_eq_ok hdeclared
    refine List.forall_mem_append.mpr ⟨forall_methodTypeReferences hsignature
      (fun name => hnamed name _ (by decide)) (fun name => hnamed name _ (by decide)) hsigned, ?_⟩
    rw [exceptionReferences]
    split
    · exact List.forall_mem_nil _
    · exact htyped _ (by decide) _

end TypeSite

/-! Declarations make references without a line. -/

/-- References that no line has been given to. -/
def Unplaced (references : List Reference) : Prop :=
  ∀ reference ∈ references, reference.line = -1

namespace Unplaced

theorem append {left right : List Reference} (hleft : Unplaced left) (hright : Unplaced right) :
    Unplaced (left ++ right) := fun reference hmem =>
  (List.mem_append.mp hmem).elim (hleft reference) (hright reference)

theorem map {α : Type} {items : List α} {build : α → Reference}
    (h : ∀ item, (build item).line = -1) : Unplaced (items.map build) := by
  intro reference hmem
  obtain ⟨item, -, rfl⟩ := List.mem_map.mp hmem
  exact h item

theorem signatureReferences (source : MemberHandle) (signature : String)
    (types : List SignatureType) : Unplaced (Linkage.signatureReferences source signature types) :=
  .map (fun _ => rfl)

theorem typeReferences (glossary : Glossary) (source : MemberHandle) (kind : ReferenceKind)
    (names : List String) : Unplaced (glossary.typeReferences source kind names) :=
  .map (fun _ => rfl)

variable {type : TypeSite} {references : List Reference}

theorem headerReferences (h : type.headerReferences = .ok references) : Unplaced references := by
  rw [TypeSite.headerReferences] at h
  split at h
  · obtain ⟨types, -, rfl⟩ := bind_pure_eq_ok h
    exact .signatureReferences _ _ _
  · simp only at h
    split at h
    · rw [← Except.ok.inj h]
      exact .typeReferences _ _ _ _
    · rw [← Except.ok.inj h]
      exact (Unplaced.typeReferences _ _ _ _).append (.typeReferences _ _ _ _)

theorem methodReferences {method : MethodDecl} {types : MethodTypes}
    (h : type.methodReferences method types = .ok references) : Unplaced references :=
  TypeSite.forall_methodReferences (fun _ _ => rfl) (fun _ _ _ _ _ => rfl) (fun _ _ _ => rfl) h

theorem map_ofReference (references : List Reference) :
    (references.map Draft.ofReference).map Draft.reference = references := by
  rw [List.map_map]
  exact List.map_id references

theorem fieldDrafts {field : FieldDecl} {drafts : List Draft}
    (h : type.fieldDrafts field = .ok drafts) : Unplaced (drafts.map Draft.reference) := by
  obtain ⟨types, htypes, rfl⟩ := bind_pure_eq_ok h
  have hannotations := Unplaced.typeReferences type.glossary (type.fieldHandle field)
    .annotationUse field.annotations
  rw [List.map_append, map_ofReference]
  refine append ?_ hannotations
  rw [TypeSite.fieldTypeDrafts] at htypes
  simp only at htypes
  split at htypes
  · obtain ⟨name, -, rfl⟩ := bind_pure_eq_ok htypes
    rw [List.map_map]
    exact .map (fun _ => rfl)
  · split at htypes
    · obtain ⟨named, -, rfl⟩ := bind_pure_eq_ok htypes
      rw [map_ofReference]
      exact .signatureReferences _ _ _
    · obtain ⟨name, -, rfl⟩ := bind_pure_eq_ok htypes
      rw [List.map_map]
      exact .map (fun _ => rfl)

theorem headerDrafts {drafts : List Draft} (h : type.headerDrafts = .ok drafts) :
    Unplaced (drafts.map Draft.reference) := by
  obtain ⟨header, hheader, rfl⟩ := bind_pure_eq_ok h
  rw [map_ofReference]
  exact (headerReferences (mapError_eq_ok hheader)).append (.typeReferences _ _ _ _)

theorem fieldsDrafts {fields : List (List Draft)} (h : type.fieldsDrafts = .ok fields) :
    Unplaced (fields.flatten.map Draft.reference) := by
  intro reference hmem
  obtain ⟨draft, hdraft, rfl⟩ := List.mem_map.mp hmem
  obtain ⟨drafts, hdrafts, hmem⟩ := List.mem_flatten.mp hdraft
  obtain ⟨field, -, hfield⟩ := (mem_of_mapM_eq_ok h).mp hdrafts
  exact fieldDrafts (mapError_eq_ok hfield) _ (List.mem_map_of_mem hmem)

end Unplaced

/-! Lines are line numbers, or `-1`. -/

/-- Tables whose lines are small enough for line numbers. -/
def SmallLines (lines : List LineEntry) : Prop := ∀ entry ∈ lines, entry.line < 2 ^ 31

/-- The classes whose tables have small lines. -/
def ClassDecl.SmallLines (decl : ClassDecl) : Prop :=
  ∀ method ∈ decl.methods, ∀ code, method.body? = some code → Linkage.SmallLines code.lines

theorem SmallLines.lineNumber_nonneg {lines : List LineEntry} (h : SmallLines lines) {pc line : Nat}
    (hline : (LineTable.ofEntries lines).lineAt pc = some line) : 0 ≤ lineNumber line := by
  rw [LineTable.lineAt_ofEntries, Option.map_eq_some_iff] at hline
  obtain ⟨entry, hentry, rfl⟩ := hline
  have hmem := (List.mem_filter.mp (List.mem_of_getLast? hentry)).1
  rw [lineNumber_of_lt (h entry hmem)]
  exact Int.natCast_nonneg _

theorem SmallLines.first_nonneg {lines : List LineEntry} (h : SmallLines lines) {first : Nat}
    (hfirst : firstLine lines = some first) : 0 ≤ lineNumber first := by
  have hmem := @exists_of_foldl LineEntry (Option Nat) _ (fun line => line = some first)
    (fun entry => entry.line = first) ?_ lines none hfirst
  · rcases hmem with ⟨entry, hentry, rfl⟩ | hnone
    · rw [lineNumber_of_lt (h entry hentry)]
      exact Int.natCast_nonneg _
    · cases hnone
  · intro line entry hstep
    cases line with
    | none => exact .inl (Option.some.inj hstep)
    | some line =>
        have hmin := Option.some.inj hstep
        rcases Nat.le_total line entry.line with hle | hle
        · exact .inr (by rw [← hmin, Nat.min_eq_left hle])
        · exact .inl (by rw [← hmin, Nat.min_eq_right hle])

/-- Entries on lines that are line numbers, or `-1`. -/
def LinesKnown (entries : Array Entry) : Prop :=
  ∀ index line, lineAt? entries index = some line → -1 ≤ line

namespace LinesKnown

variable {entries : Array Entry}

theorem append (h : LinesKnown entries) {rest : Array Entry} (hrest : LinesKnown rest) :
    LinesKnown (entries ++ rest) := by
  intro index line hline
  rw [lineAt?_append] at hline
  split at hline
  · exact h index line hline
  · exact hrest _ line hline

theorem of_forall {entries : List Entry} (h : ∀ entry ∈ entries, -1 ≤ entry.line) :
    LinesKnown entries.toArray := by
  intro index line hline
  rw [lineAt?, Option.map_eq_some_iff] at hline
  obtain ⟨entry, hentry, rfl⟩ := hline
  rw [List.getElem?_toArray] at hentry
  exact h entry (List.mem_of_getElem? hentry)

theorem records (options : ExtractOptions) (scope : Scope) {drafts : List Draft}
    (h : Unplaced (drafts.map Draft.reference)) :
    LinesKnown (drafts.map (options.record scope)).toArray := by
  refine of_forall fun entry hentry => ?_
  obtain ⟨draft, hdraft, rfl⟩ := List.mem_map.mp hentry
  exact Int.le_of_eq (h _ (List.mem_map_of_mem hdraft)).symm

theorem setLine (h : LinesKnown entries) (index : Nat) {line : Int} (hline : -1 ≤ line) :
    LinesKnown (setLine entries index line) := by
  intro other found hfound
  rw [lineAt?_setLine] at hfound
  split at hfound
  · obtain ⟨_, -, rfl⟩ := Option.map_eq_some_iff.mp hfound
    exact hline
  · exact h other found hfound

theorem foldl_setLine (h : LinesKnown entries) (indices : List Nat) {line : Int}
    (hline : -1 ≤ line) :
    LinesKnown
      (indices.foldl (fun entries index => Linkage.setLine entries index line) entries) := by
  induction indices generalizing entries with
  | nil => exact h
  | cons index rest ih => exact ih (h.setLine index hline)

theorem placeCatches (h : LinesKnown entries) {lines : List LineEntry} (hlines : SmallLines lines)
    (catches : Array CatchPlace) :
    LinesKnown (placeCatches (.ofEntries lines) catches entries) := by
  rw [Linkage.placeCatches, ← Array.foldl_toList]
  induction catches.toList generalizing entries with
  | nil => exact h
  | cons place rest ih =>
      rw [List.foldl_cons]
      refine ih ?_
      split
      · rename_i line hline
        have hnonneg := hlines.lineNumber_nonneg hline
        exact h.setLine _ (by omega)
      · exact h

/-- The walk that assigns the lines of a body keeps to line numbers. -/
theorem foldl_meet {lines : List LineEntry} (hlines : SmallLines lines) (waiting : WaitingCatches)
    {positions : List Position} {walk : LineWalk} (hcurrent : 0 ≤ walk.current)
    (h : LinesKnown walk.entries) :
    LinesKnown (positions.foldl (LineWalk.meet (.ofEntries lines) waiting) walk).entries := by
  induction positions generalizing walk with
  | nil => exact h
  | cons position rest ih =>
      rw [List.foldl_cons]
      cases position with
      | label pc =>
          cases hline : (LineTable.ofEntries lines).lineAt pc with
          | some line =>
              have hnonneg := hlines.lineNumber_nonneg hline
              rw [LineWalk.meet_label_of_line hline]
              generalize lineNumber line = number at hnonneg ⊢
              exact ih hnonneg h
          | none =>
              unfold LineWalk.meet
              simp only [hline]
              exact ih hcurrent (h.foldl_setLine _ (by omega))
      | entry index =>
          rw [LineWalk.meet_entry]
          split
          · rename_i line hline
            split
            · exact ih hcurrent (h.setLine index (by omega))
            · rename_i hplaced
              have hknown := h index line hline
              have hnonneg : 0 ≤ line := by omega
              exact ih hnonneg h
          · exact ih hcurrent h

theorem assignLines (h : LinesKnown entries) {lines : List LineEntry} (hlines : SmallLines lines)
    (catches : Array CatchPlace) (positions : Array Position) :
    LinesKnown (assignLines lines catches positions entries) := by
  cases hfirst : firstLine lines with
  | none => simpa only [Linkage.assignLines, hfirst] using h
  | some first =>
      have hnonneg := hlines.first_nonneg hfirst
      rw [assignLines_of_firstLine hfirst]
      generalize lineNumber first = number at hnonneg ⊢
      exact foldl_meet hlines _ hnonneg (h.placeCatches hlines catches)

end LinesKnown

/-- A walk that places markers has a line: it is the latest, or that of a marker. -/
def MarkerWalk.HasLine (walk : MarkerWalk) (line : Nat) : Prop :=
  walk.lastLine = some line ∨
    (∃ pending, walk.pending = some pending ∧ pending.line = line) ∨
      ∃ (pc : Nat) (placed : LocalMarker), walk.placed[pc]? = some placed ∧ placed.line = line

/-- A line that a step brings is one of the table. -/
theorem MarkerWalk.hasLine_of_meet {table : LineTable} {walk : MarkerWalk} {moment : Moment}
    {line : Nat} (h : (walk.meet table moment).HasLine line) :
    (∃ label, table.lineAt label = some line) ∨ walk.HasLine line := by
  cases moment with
  | label label =>
      rcases h with hline | ⟨pending, hnone, -⟩ | ⟨pc, placed, hplaced, hline⟩
      · rcases Option.or_eq_some_iff.mp hline with hline | ⟨-, hline⟩
        · exact .inl ⟨label, hline⟩
        · exact .inr (.inl hline)
      · cases hnone
      · simp only [meet] at hplaced
        split at hplaced
        · rename_i pending hpending
          rw [Std.TreeMap.getElem?_insert] at hplaced
          split at hplaced
          · rw [Option.some.inj hplaced] at hpending
            exact .inr (.inr (.inl ⟨placed, hpending, hline⟩))
          · exact .inr (.inr (.inr ⟨pc, placed, hplaced, hline⟩))
        · exact .inr (.inr (.inr ⟨pc, placed, hplaced, hline⟩))
  | run instruction =>
      rw [meet_run] at h
      rcases h with hline | ⟨pending, hpending, hline⟩ | hplaced
      · exact .inr (.inl hline)
      · rcases Option.or_eq_some_iff.mp hpending with hnew | ⟨-, hkept⟩
        · obtain ⟨last, hlast, hslot⟩ := Option.bind_eq_some_iff.mp hnew
          obtain ⟨slot, -, rfl⟩ := Option.map_eq_some_iff.mp hslot
          exact .inr (.inl (hlast.trans (congrArg some hline)))
        · exact .inr (.inr (.inl ⟨pending, hkept, hline⟩))
      · exact .inr (.inr (.inr hplaced))

/-- The line of a marker is one of the table. -/
theorem exists_lineAt_of_marker {table : LineTable} {timeline : Array Moment} {pc : Nat}
    {marker : LocalMarker} (h : (placeMarkers table timeline)[pc]? = some marker) :
    ∃ label, table.lineAt label = some marker.line := by
  rw [placeMarkers, ← Array.foldl_toList] at h
  have hend : (timeline.toList.foldl (MarkerWalk.meet table) {}).HasLine marker.line :=
    .inr (.inr ⟨pc, marker, h, rfl⟩)
  rcases @exists_of_foldl Moment MarkerWalk (MarkerWalk.meet table) (·.HasLine marker.line)
    (fun _ => ∃ label, table.lineAt label = some marker.line)
    (fun _ _ => MarkerWalk.hasLine_of_meet) timeline.toList {} hend with
    ⟨-, -, hline⟩ | hnone | ⟨pending, hnone, -⟩ | ⟨other, placed, hnone, -⟩
  · exact hline
  · cases hnone
  · cases hnone
  · simp at hnone

theorem line_of_mem_localReferences {glossary : Glossary} {source : MemberHandle}
    {firstLocal : Nat} {entries : List LocalVariable} {lines : List LineEntry}
    (hlines : SmallLines lines) {timeline : Array Moment} {references : Array Reference}
    (h : localReferences glossary source firstLocal entries
      (placeMarkers (.ofEntries lines) timeline) = .ok references) :
    ∀ reference ∈ references.toList, 0 ≤ reference.line := by
  intro reference hmem
  have heq := localReferences_eq glossary source firstLocal entries
    (placeMarkers (.ofEntries lines) timeline)
  rw [h] at heq
  obtain ⟨named, hnamed, hflatten⟩ := map_eq_ok heq.symm
  rw [← hflatten] at hmem
  obtain ⟨part, hpart, hreference⟩ := List.mem_flatten.mp hmem
  obtain ⟨⟨entry, line⟩, hdeclared, hdeclares⟩ := (mem_of_mapM_eq_ok hnamed).mp hpart
  obtain ⟨found, -, rfl⟩ := map_eq_ok hdeclares
  obtain ⟨other, -, rfl⟩ := List.mem_map.mp hreference
  obtain ⟨marker, hmarker, rfl⟩ := Option.map_eq_some_iff.mp
    (mem_declaringVariables.mp hdeclared).2
  obtain ⟨label, hlabel⟩ := exists_lineAt_of_marker (Option.filter_eq_some_iff.mp hmarker).1
  have hat : ∀ number : Int, 0 ≤ number → 0 ≤ (other.atLine number).line := fun _ h => h
  exact hat _ (hlines.lineNumber_nonneg hlabel)

namespace LinesKnown

variable {options : ExtractOptions} {entries next : Array Entry}

theorem addBody (h : LinesKnown entries) {site : BodySite} {localTypes : LocalTypes}
    {firstLocal : Nat} {code : Code} (hlines : SmallLines code.lines)
    (hnext : addBody options site localTypes firstLocal code entries = .ok next) :
    LinesKnown next := by
  rw [Linkage.addBody] at hnext
  obtain ⟨named, hnamed, rfl⟩ := bind_pure_eq_ok hnext
  rw [BodyWalk.through_entries]
  refine ((h.append ?_).append ?_).assignLines hlines _ _
  · refine records options site.type.scope fun reference hmem => ?_
    obtain ⟨draft, hdraft, rfl⟩ := List.mem_map.mp hmem
    exact (List.mem_append.mp hdraft).elim site.line_of_mem_catchDrafts
      site.line_of_mem_instructionDrafts
  · have hplaced := line_of_mem_localReferences hlines hnamed
    rw [← (named.map _).toArray_toList, Array.toList_map]
    refine of_forall fun entry hentry => ?_
    obtain ⟨reference, hreference, rfl⟩ := List.mem_map.mp hentry
    have hline := hplaced reference hreference
    simp only [Entry.line, ExtractOptions.record, Draft.reference_ofReference]
    omega

theorem addMethod (h : LinesKnown entries) {type : TypeSite} {localTypes : LocalTypes}
    {method : MethodDecl} (hlines : ∀ code, method.body? = some code → SmallLines code.lines)
    (hnext : addMethod options type localTypes entries method = .ok next) :
    LinesKnown next := by
  have hmethod := hnext
  rw [Linkage.addMethod] at hmethod
  obtain ⟨types, htypes, hmethod⟩ := bind_eq_ok hmethod
  obtain ⟨declared, hdeclared, -⟩ := bind_eq_ok hmethod
  rw [addMethod_eq options localTypes entries htypes hdeclared] at hnext
  have hall : LinesKnown (entries ++ declared.map
      (fun reference => options.record type.scope (.ofReference reference))) := by
    rw [append_records]
    refine h.append (records options type.scope ?_)
    rw [Unplaced.map_ofReference]
    exact .methodReferences hdeclared
  cases hcode : method.body? with
  | none =>
      simp only [hcode] at hnext
      rw [← Except.ok.inj hnext]
      exact hall
  | some code =>
      simp only [hcode] at hnext
      exact hall.addBody (hlines code hcode) hnext

theorem addMethods (h : LinesKnown entries) {type : TypeSite} {localTypes : LocalTypes}
    {methods : List MethodDecl}
    (hlines : ∀ method ∈ methods, ∀ code, method.body? = some code → SmallLines code.lines)
    (hnext : addMethods options type localTypes methods entries = .ok next) :
    LinesKnown next :=
  foldlM_preserves (fun _ method hmethod hstate _ hstep =>
    hstate.addMethod (hlines method hmethod) (mapError_eq_ok hstep)) hnext h

end LinesKnown

/-! Types before their methods. -/

namespace TypeTree

variable (options : ExtractOptions) (known : Universe) (decl : ClassDecl) (nested : NestedTrees)

/-- The entries of a type and of those nested in it, before the methods of the type. -/
def beforeMethods : Except ExtractError TypeEntries := do
  let header ← headerEntries options (TypeSite.of known decl)
  let inner := decl.children.foldl (TypeEntries.addChild (nested.addEntries options known ∅))
    { entries := header.toArray }
  let declared ← decl.fields.foldlM (addField options (TypeSite.of known decl)) inner.entries
  return { inner with entries := declared }

theorem entries_node : (node decl nested).entries options known =
    beforeMethods options known decl nested >>= fun before =>
      addMethods options (TypeSite.of known decl) before.localTypes decl.methods
        before.entries := by
  rw [entries, beforeMethods]
  cases headerEntries options (TypeSite.of known decl) with
  | error error => rfl
  | ok header =>
      simp only [bind, Except.bind]
      cases decl.fields.foldlM (addField options (TypeSite.of known decl))
        (decl.children.foldl (TypeEntries.addChild (nested.addEntries options known ∅))
          { entries := header.toArray }).entries <;> rfl

variable {options known decl nested}

/-- Before its methods a type has entries for its header, its nested types and its fields. -/
theorem exists_of_beforeMethods {before : TypeEntries}
    (h : beforeMethods options known decl nested = .ok before) :
    ∃ header fields, headerEntries options (TypeSite.of known decl) = .ok header ∧
      (TypeSite.of known decl).fieldsDrafts = .ok fields ∧
      let inner := decl.children.foldl (TypeEntries.addChild (nested.addEntries options known ∅))
        { entries := header.toArray }
      before = { inner with
        entries := inner.entries ++
          (fields.flatten.map (options.record (TypeSite.of known decl).scope)).toArray } := by
  obtain ⟨header, hheader, h⟩ := bind_eq_ok h
  obtain ⟨declared, hdeclared, rfl⟩ := bind_pure_eq_ok h
  obtain ⟨fields, hfields, rfl⟩ := @exists_addFields options (TypeSite.of known decl) _ _ hdeclared
  exact ⟨header, fields, hheader, hfields, rfl⟩

end TypeTree

theorem addChild_entries (blocks : NestedEntries) (before : TypeEntries) (child : ChildType) :
    (before.addChild blocks child).entries = before.entries ++ blocks[child.name]?.getD #[] := by
  rw [TypeEntries.addChild]
  cases blocks[child.name]? with
  | none => simp
  | some block => rfl

theorem foldl_addChild_entries (blocks : NestedEntries) (children : List ChildType)
    (before : TypeEntries) :
    ∃ more, (children.foldl (TypeEntries.addChild blocks) before).entries =
      before.entries ++ more := by
  induction children generalizing before with
  | nil => exact ⟨#[], by simp⟩
  | cons child rest ih =>
      obtain ⟨more, hmore⟩ := ih (before.addChild blocks child)
      rw [addChild_entries, Array.append_assoc] at hmore
      exact ⟨_, hmore⟩

/-! Nested types have line numbers, or `-1`. -/

theorem LinesKnown.foldl_addChild {blocks : NestedEntries} {children : List ChildType}
    (hblocks : ∀ child ∈ children, ∀ block, blocks[child.name]? = some block → LinesKnown block)
    {before : TypeEntries} (h : LinesKnown before.entries) :
    LinesKnown (children.foldl (TypeEntries.addChild blocks) before).entries := by
  induction children generalizing before with
  | nil => exact h
  | cons child rest ih =>
      rw [List.forall_mem_cons] at hblocks
      refine ih hblocks.2 ?_
      rw [addChild_entries]
      refine h.append ?_
      cases hblock : blocks[child.name]? with
      | none => exact @of_forall [] (by simp)
      | some block => exact hblocks.1 block hblock

theorem LinesKnown.beforeMethods {options : ExtractOptions} {known : Universe} {decl : ClassDecl}
    {nested : NestedTrees} {before : TypeEntries}
    (h : TypeTree.beforeMethods options known decl nested = .ok before)
    (hblocks : ∀ (name : String) (block : Array Entry),
      (nested.addEntries options known ∅)[name]? = some block → LinesKnown block) :
    LinesKnown before.entries := by
  obtain ⟨header, fields, hheader, hfields, rfl⟩ := TypeTree.exists_of_beforeMethods h
  obtain ⟨drafts, hdrafts, rfl⟩ := exists_headerEntries hheader
  exact (foldl_addChild (fun child _ => hblocks child.name)
    (records options _ (.headerDrafts hdrafts))).append (records options _ (.fieldsDrafts hfields))

/-! What holds of the entries of every type. -/

section Trees
variable (options : ExtractOptions) (known : Universe) (fits : ClassDecl → Prop)
  (holds : Array Entry → Prop)

/-- The entries of a type have a property, if those of the types nested in it have it. -/
def HoldsAtNodes : Prop :=
  ∀ decl nested, fits decl → (∀ (name : String) (block : Array Entry),
    (nested.addEntries options known ∅)[name]? = some block → holds block) →
      ∀ entries, (TypeTree.node decl nested).entries options known = .ok entries → holds entries

variable {options known fits holds}

mutual

/-- What holds at every node holds of every tree. -/
theorem TypeTree.forall_entries (hnode : HoldsAtNodes options known fits holds) :
    (tree : TypeTree) → (∀ decl ∈ tree.classes, fits decl) → (entries : Array Entry) →
    tree.entries options known = .ok entries → holds entries
  | .node decl nested => by
    intro hfits entries hentries
    rw [TypeTree.classes, List.forall_mem_cons] at hfits
    exact hnode decl nested hfits.1
      (NestedTrees.forall_blocks hnode nested hfits.2 ∅ (by simp)) entries hentries

theorem NestedTrees.forall_blocks (hnode : HoldsAtNodes options known fits holds) :
    (nested : NestedTrees) → (∀ decl ∈ nested.classes, fits decl) → (before : NestedEntries) →
    (∀ (name : String) (block : Array Entry), before[name]? = some block → holds block) →
    (name : String) → (block : Array Entry) →
    (nested.addEntries options known before)[name]? = some block → holds block
  | .nil => fun _ _ hbefore name block hblock => hbefore name block hblock
  | .cons other tree rest => by
    intro hfits before hbefore name block hblock
    rw [NestedTrees.classes] at hfits
    have htree : ∀ decl ∈ tree.classes, fits decl :=
      fun decl hdecl => hfits decl (List.mem_append_left _ hdecl)
    have hrest : ∀ decl ∈ rest.classes, fits decl :=
      fun decl hdecl => hfits decl (List.mem_append_right _ hdecl)
    rw [NestedTrees.addEntries] at hblock
    cases hentries : tree.entries options known with
    | error error =>
        rw [hentries] at hblock
        exact NestedTrees.forall_blocks hnode rest hrest before hbefore name block hblock
    | ok entries =>
        rw [hentries] at hblock
        refine NestedTrees.forall_blocks hnode rest hrest _ (fun name block hblock => ?_) name
          block hblock
        rw [Std.HashMap.getElem?_insert] at hblock
        split at hblock
        · rw [← Option.some.inj hblock]
          exact TypeTree.forall_entries hnode tree htree entries hentries
        · exact hbefore name block hblock

end

end Trees

/-- In a tree whose tables have small lines, entries are on line numbers or on `-1`. -/
theorem LinesKnown.holdsAtNodes (options : ExtractOptions) (known : Universe) :
    HoldsAtNodes options known ClassDecl.SmallLines LinesKnown := by
  intro decl nested hdecl hblocks entries hentries
  rw [TypeTree.entries_node] at hentries
  obtain ⟨before, hbefore, hmethods⟩ := bind_eq_ok hentries
  exact (LinesKnown.beforeMethods hbefore hblocks).addMethods hdecl hmethods

/-! What has a line stays. -/

/-- A body leaves the entries before it that have a line. -/
theorem addBody_keeps {options : ExtractOptions} {site : BodySite} {localTypes : LocalTypes}
    {firstLocal : Nat} {code : Code} {entries next : Array Entry}
    (h : addBody options site localTypes firstLocal code entries = .ok next) {index : Nat}
    {line : Int} (hline : lineAt? entries index = some line) (hplaced : line ≠ -1) :
    lineAt? next index = some line := by
  rw [addBody] at h
  obtain ⟨named, -, rfl⟩ := bind_pure_eq_ok h
  have hindex := lt_size_of_lineAt? hline
  have hcatches := (BodyWalk.through_positions options site localTypes code entries).2
  have hall := (bodyEntries_through options site localTypes code entries
    (named.map (fun reference => options.record site.type.scope (.ofReference reference)))).before
      index hindex
  rw [hline] at hall
  cases hfirst : firstLine code.lines with
  | none => simpa only [assignLines, hfirst] using hall
  | some first =>
      have hcaught := ne_catch_of_range hcatches index (.inl hindex)
      rw [assignLines_of_firstLine hfirst]
      generalize lineNumber first = current
      exact lineAt?_foldl_meet_of_lined
        (fun pc hmem => hcaught _ (mem_waitingCatches.mp hmem).2 rfl) hplaced
        ((lineAt?_placeCatches hcaught).trans hall)

/-- A body leaves the entries before it that local types do not hold. -/
theorem addBody_frame {options : ExtractOptions} {site : BodySite} {localTypes : LocalTypes}
    {firstLocal : Nat} {code : Code} {entries next : Array Entry}
    (h : addBody options site localTypes firstLocal code entries = .ok next) {index : Nat}
    {line : Int} (hline : lineAt? entries index = some line)
    (hfree : ∀ name, index ∉ localTypes.getD name []) : lineAt? next index = some line := by
  rw [addBody] at h
  obtain ⟨named, -, rfl⟩ := bind_pure_eq_ok h
  have hindex := lt_size_of_lineAt? hline
  have hcatches := (BodyWalk.through_positions options site localTypes code entries).2
  have hall := (bodyEntries_through options site localTypes code entries
    (named.map (fun reference => options.record site.type.scope (.ofReference reference)))).before
      index hindex
  rw [hline] at hall
  cases hfirst : firstLine code.lines with
  | none => simpa only [assignLines, hfirst] using hall
  | some first =>
      have hcreated := not_mem_createdEntries_iff.mpr
        (fun creation (_ : creation ∈ code.creationLines) => hfree creation.1)
      rw [assignLines_through options site localTypes hfirst,
        lineAt?_bodyLines_other hcatches hcreated (.inl hindex), hall]

section Methods
variable {options : ExtractOptions} {type : TypeSite} {localTypes : LocalTypes}
  {entries next : Array Entry} {index : Nat} {line : Int}

/-- A method leaves the line of an entry, if its body does. -/
theorem addMethod_lineAt? {method : MethodDecl}
    (hbody : ∀ {firstLocal code entries next},
      addBody options (.of type method) localTypes firstLocal code entries = .ok next →
      lineAt? entries index = some line → lineAt? next index = some line)
    (h : addMethod options type localTypes entries method = .ok next)
    (hline : lineAt? entries index = some line) : lineAt? next index = some line := by
  have hmethod := h
  rw [addMethod] at hmethod
  obtain ⟨types, htypes, hmethod⟩ := bind_eq_ok hmethod
  obtain ⟨declared, hdeclared, -⟩ := bind_eq_ok hmethod
  rw [addMethod_eq options localTypes entries htypes hdeclared, append_records] at h
  have hall : lineAt? (entries ++ ((declared.map Draft.ofReference).map
      (options.record type.scope)).toArray) index = some line := by
    rw [lineAt?_append, if_pos (lt_size_of_lineAt? hline), hline]
  cases hcode : method.body? with
  | none =>
      simp only [hcode] at h
      rw [← Except.ok.inj h]
      exact hall
  | some code =>
      simp only [hcode] at h
      exact hbody h hall

theorem addMethods_lineAt? {methods : List MethodDecl}
    (hbody : ∀ {method firstLocal code entries next},
      addBody options (.of type method) localTypes firstLocal code entries = .ok next →
      lineAt? entries index = some line → lineAt? next index = some line)
    (h : addMethods options type localTypes methods entries = .ok next)
    (hline : lineAt? entries index = some line) : lineAt? next index = some line :=
  foldlM_preserves
    (fun _ _ _ hstate _ hstep => addMethod_lineAt? hbody (mapError_eq_ok hstep) hstate) h hline

theorem addMethods_keeps {methods : List MethodDecl}
    (h : addMethods options type localTypes methods entries = .ok next)
    (hline : lineAt? entries index = some line) (hplaced : line ≠ -1) :
    lineAt? next index = some line :=
  addMethods_lineAt? (fun hbody hstate => addBody_keeps hbody hstate hplaced) h hline

theorem addMethods_frame {methods : List MethodDecl}
    (h : addMethods options type localTypes methods entries = .ok next)
    (hline : lineAt? entries index = some line) (hfree : ∀ name, index ∉ localTypes.getD name []) :
    lineAt? next index = some line :=
  addMethods_lineAt? (fun hbody hstate => addBody_frame hbody hstate hfree) h hline

end Methods

/-! Visited types. -/

theorem NestedTrees.lastOf_map {β γ : Type} (view : β → γ) (value : TypeTree → Option β)
    (nested : NestedTrees) (name : String) :
    nested.lastOf (fun tree => (value tree).map view) name =
      (nested.lastOf value name).map view := by
  cases nested with
  | nil => rfl
  | cons other tree rest =>
      rw [lastOf, lastOf, lastOf_map view value rest name]
      cases rest.lastOf value name with
      | some found => rfl
      | none =>
          rw [Option.map_none, Option.none_or, Option.none_or]
          split <;> rfl

theorem NestedTrees.exists_of_lastOf {β : Type} {value : TypeTree → Option β}
    {nested : NestedTrees} {name : String} {found : β} (h : nested.lastOf value name = some found) :
    ∃ tree, value tree = some found := by
  cases nested with
  | nil => cases h
  | cons other tree rest =>
      rw [lastOf] at h
      rcases Option.or_eq_some_iff.mp h with hrest | ⟨-, hfirst⟩
      · exact exists_of_lastOf hrest
      · split at hfirst
        · exact ⟨tree, hfirst⟩
        · cases hfirst

/-- The tree of a name that is entered, with its entries: of those that do not fail the last. -/
def NestedTrees.entered? (options : ExtractOptions) (known : Universe) (nested : NestedTrees)
    (name : String) : Option (TypeTree × Array Entry) :=
  nested.lastOf (fun tree => (tree.entries options known).toOption.map (Prod.mk tree)) name

namespace NestedTrees

variable {options : ExtractOptions} {known : Universe} {nested : NestedTrees} {name : String}
  {tree : TypeTree} {block : Array Entry}

theorem entries_of_entered (h : nested.entered? options known name = some (tree, block)) :
    tree.entries options known = .ok block := by
  obtain ⟨other, hother⟩ := exists_of_lastOf h
  obtain ⟨entries, hentries, heq⟩ := Option.map_eq_some_iff.mp hother
  rw [Prod.mk.injEq] at heq
  obtain ⟨rfl, rfl⟩ := heq
  cases houtcome : other.entries options known with
  | error error =>
      rw [houtcome] at hentries
      cases hentries
  | ok found =>
      rw [houtcome] at hentries
      exact congrArg Except.ok (Option.some.inj hentries)

theorem addEntries_of_entered (h : nested.entered? options known name = some (tree, block)) :
    (nested.addEntries options known ∅)[name]? = some block := by
  have hsnd : nested.lastOf (fun tree => (tree.entries options known).toOption) name =
      (nested.entered? options known name).map Prod.snd := by
    rw [entered?, ← lastOf_map]
    refine congrArg (fun value => nested.lastOf value name) (funext fun tree => ?_)
    rw [Option.map_map]
    exact (congrFun Option.map_id _).symm
  rw [getElem?_addEntries, hsnd, h]
  rfl

end NestedTrees

/-- The entries of a type and those of the types nested in it, up to a child. -/
def TypeTree.beforeChild (options : ExtractOptions) (known : Universe) (nested : NestedTrees)
    (header : List Entry) (children : List ChildType) : Array Entry :=
  (children.foldl (TypeEntries.addChild (nested.addEntries options known ∅))
    { entries := header.toArray }).entries

/-- A tree is visited inside another; its entries start at a number. -/
inductive TypeTree.VisitsAt (options : ExtractOptions) (known : Universe) :
    TypeTree → Nat → TypeTree → Prop where
  | self (tree : TypeTree) : VisitsAt options known tree 0 tree
  | nested {decl : ClassDecl} {nested : NestedTrees} {header : List Entry}
      {before after : List ChildType} {child : ChildType} {inner found : TypeTree}
      {block : Array Entry} {start : Nat}
      (hheader : headerEntries options (TypeSite.of known decl) = .ok header)
      (hchildren : decl.children = before ++ child :: after)
      (hentered : nested.entered? options known child.name = some (inner, block))
      (hvisits : VisitsAt options known inner start found) :
      VisitsAt options known (.node decl nested)
        ((beforeChild options known nested header before).size + start) found

/-- Entries are settled among others that start at a number: what has a line is there as it is, and
the rest but for its line. -/
def SettledAt (block : Array Entry) (start : Nat) (entries : Array Entry) : Prop :=
  ∀ index entry, block[index]? = some entry → ∃ final, entries[start + index]? = some final ∧
    final.unlined = entry.unlined ∧ (entry.line ≠ -1 → final = entry)

theorem SettledAt.refl (block : Array Entry) : SettledAt block 0 block := by
  intro index entry hentry
  exact ⟨entry, by rwa [Nat.zero_add], rfl, fun _ => rfl⟩

theorem SettledAt.trans {inner middle outer : Array Entry} {start offset : Nat}
    (hinner : SettledAt inner start middle) (houter : SettledAt middle offset outer) :
    SettledAt inner (offset + start) outer := by
  intro index entry hentry
  obtain ⟨met, hmet, hunlined, hkept⟩ := hinner index entry hentry
  obtain ⟨final, hfinal, hsame, hstays⟩ := houter (start + index) met hmet
  refine ⟨final, by rwa [Nat.add_assoc], hsame.trans hunlined, fun hline => ?_⟩
  have hentries := hkept hline
  rw [← hentries]
  exact hstays (hentries ▸ hline)

theorem SettledAt.of_append {front block entries : Array Entry} (back : Array Entry)
    (h : SettledAt (front ++ block ++ back) 0 entries) : SettledAt block front.size entries := by
  intro index entry hentry
  have hindex := (Array.getElem?_eq_some_iff.mp hentry).1
  have hmet : (front ++ block ++ back)[front.size + index]? = some entry := by
    rw [Array.getElem?_append_left (by rw [Array.size_append]; omega),
      Array.getElem?_append_right (by omega), Nat.add_sub_cancel_left, hentry]
  obtain ⟨final, hfinal, hsame, hstays⟩ := h _ entry hmet
  exact ⟨final, by rwa [Nat.zero_add] at hfinal, hsame, hstays⟩

/-- A method keeps the entries that there are, but for their lines. -/
theorem addMethod_extends {options : ExtractOptions} {type : TypeSite} {localTypes : LocalTypes}
    {method : MethodDecl} {entries next : Array Entry}
    (h : addMethod options type localTypes entries method = .ok next) :
    unlinedAll entries <+: unlinedAll next := by
  have hview := addMethod_unlined options type localTypes entries method
  rw [h] at hview
  obtain ⟨drafts, -, hunlined⟩ := map_eq_ok hview.symm
  rw [← hunlined]
  exact List.prefix_append _ _

/-- Methods keep the entries that there are, but for their lines. -/
theorem addMethods_extends {options : ExtractOptions} {type : TypeSite} {localTypes : LocalTypes}
    {methods : List MethodDecl} {entries next : Array Entry}
    (h : addMethods options type localTypes methods entries = .ok next) :
    unlinedAll entries <+: unlinedAll next :=
  foldlM_preserves (fun _ _ _ hstate _ hstep =>
    List.IsPrefix.trans hstate (addMethod_extends (mapError_eq_ok hstep))) h List.prefix_rfl

/-- What there is before methods is settled in what there is after them. -/
theorem settledAt_addMethods {options : ExtractOptions} {type : TypeSite} {localTypes : LocalTypes}
    {methods : List MethodDecl} {entries next : Array Entry}
    (h : addMethods options type localTypes methods entries = .ok next) :
    SettledAt entries 0 next := by
  intro index entry hentry
  obtain ⟨rest, hunlined⟩ := addMethods_extends h
  have hindex := (Array.getElem?_eq_some_iff.mp hentry).1
  have hmapped : next[index]?.map Entry.unlined = some entry.unlined := by
    have hlist := congrArg (fun entries => entries[index]?) hunlined
    simp only [unlinedAll, List.getElem?_map, Array.getElem?_toList] at hlist
    rw [← hlist, List.getElem?_append_left (by simpa using hindex), List.getElem?_map,
      Array.getElem?_toList, hentry]
    rfl
  obtain ⟨final, hfinal, hsame⟩ := Option.map_eq_some_iff.mp hmapped
  refine ⟨final, by rwa [Nat.zero_add], hsame, fun hline => ?_⟩
  have hbefore : lineAt? entries index = some entry.line := by
    rw [lineAt?, hentry]
    rfl
  have hkept := addMethods_keeps h hbefore hline
  rw [lineAt?, hfinal, Option.map_some, Option.some.injEq] at hkept
  have hentries : final.unlined.atLine final.line = entry.unlined.atLine entry.line := by
    rw [hsame, hkept]
  exact hentries

/-- What a visited type has placed is there at the end. -/
theorem TypeTree.VisitsAt.settledAt {options : ExtractOptions} {known : Universe}
    {tree found : TypeTree} {start : Nat} (h : tree.VisitsAt options known start found)
    {entries : Array Entry} (hentries : tree.entries options known = .ok entries) :
    ∃ block, found.entries options known = .ok block ∧ SettledAt block start entries := by
  -- By induction along the visits: a type puts the entries of a nested one between its own.
  induction h generalizing entries with
  | self tree => exact ⟨entries, hentries, .refl entries⟩
  | @nested decl nested header before after child inner found block start hheader hchildren
      hentered hvisits ih =>
      obtain ⟨own, hown, hsettled⟩ := ih (NestedTrees.entries_of_entered hentered)
      rw [entries_node] at hentries
      obtain ⟨state, hstate, hmethods⟩ := bind_eq_ok hentries
      obtain ⟨other, fields, hother, -, rfl⟩ := exists_of_beforeMethods hstate
      rw [hheader] at hother
      obtain rfl := Except.ok.inj hother
      obtain ⟨more, hmore⟩ := foldl_addChild_entries (nested.addEntries options known ∅) after
        ((before.foldl (TypeEntries.addChild (nested.addEntries options known ∅))
          { entries := header.toArray }).addChild (nested.addEntries options known ∅) child)
      rw [addChild_entries, NestedTrees.addEntries_of_entered hentered, Option.getD_some,
        ← List.foldl_cons, ← List.foldl_append, ← hchildren] at hmore
      have hall := settledAt_addMethods hmethods
      simp only [hmore, Array.append_assoc] at hall
      refine ⟨own, hown, hsettled.trans (.of_append (more ++
        (fields.flatten.map (options.record (TypeSite.of known decl).scope)).toArray) ?_)⟩
      rw [Array.append_assoc]
      exact hall

end Linkage
