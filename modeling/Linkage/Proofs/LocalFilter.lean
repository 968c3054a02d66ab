import Linkage.Proofs.AccessorCalls
/-
The local filter.  A draft is delivered or hidden when it is recorded, by its kind
and by the type it is recorded for; a use that replaces an accessor call goes
through the filter again, for the type of the call.  Both are the type of the
source, so that without local references every delivered reference leaves the
type that makes it.
-/

namespace Linkage

/-- A reference of a kind that is asked for, which leaves the type of its source. -/
structure LeavesType (kinds : KindSet) (reference : Reference) : Prop where
  kind_mem : kinds.contains reference.kind = true
  typeName_ne : reference.typeName ≠ reference.source.typeName
  memberName_ne : reference.memberName ≠ some "<clinit>"
  /-- Only some kinds of references to member types leave the type. -/
  memberType_kind : ∀ rest, reference.typeName = reference.source.typeName ++ "$" ++ rest →
    reference.kind ∈ [.virtualCall, .override, .getField, .putField]

/-- An entry whose source belongs to the type it is recorded for, and which is delivered only
if the filter lets it pass. -/
structure Entry.Filtered (options : ExtractOptions) (entry : Entry) : Prop where
  source_eq : entry.reference.source.typeName = entry.scope.name
  considered : entry.retained = true →
    options.considers entry.scope entry.reference = true

theorem filtered_record (options : ExtractOptions) {scope : Scope} {draft : Draft}
    (h : draft.reference.source.typeName = scope.name) :
    (options.record scope draft).Filtered options :=
  ⟨h, id⟩

/-- The line of an entry does not matter to the filter. -/
theorem Entry.Filtered.of_unlined {options : ExtractOptions} {entry : Entry}
    (h : entry.unlined.Filtered options) : entry.Filtered options :=
  ⟨h.source_eq, h.considered⟩

/-- Everything that a visit records has gone through the filter. -/
theorem filtered_of_unlined {options : ExtractOptions} {known : Universe}
    {entries : Array Entry} {steps : List (VisitStep known)}
    (h : unlinedAll entries = (steps.flatMap VisitStep.records).map (Record.unlined options))
    {entry : Entry} (hmem : entry ∈ entries.toList) : entry.Filtered options := by
  obtain ⟨record, hrecord, hsame⟩ := exists_record_of_mem h hmem
  obtain ⟨step, -, hstep⟩ := List.mem_flatMap.mp hrecord
  have hrecorded := filtered_record options
    ((VisitStep.provenance hstep).source_typeName.trans (VisitStep.scope_name hstep).symm)
  apply Entry.Filtered.of_unlined
  rw [← hsame]
  exact ⟨hrecorded.source_eq, hrecorded.considered⟩

/-- What folding leaves has gone through the filter: a direct use is recorded for the type of
the call that it replaces. -/
theorem filtered_foldAccessors {options : ExtractOptions} {entries : List Entry}
    (h : ∀ entry ∈ entries, entry.Filtered options) {kept : Entry}
    (hmem : kept ∈ foldAccessors options entries) (hretained : kept.retained = true) :
    kept.Filtered options := by
  rcases mem_foldAccessors hmem hretained with
    ⟨hentry, -⟩ | ⟨access, -, call, hcall, -, rfl⟩
  · exact h kept hentry
  · exact filtered_record options (h call hcall).source_eq

theorem leavesType_of_considers {options : ExtractOptions} (hlocal : options.includeLocal = false)
    {scope : Scope} {reference : Reference} (hsource : reference.source.typeName = scope.name)
    (h : options.considers scope reference = true) : LeavesType options.kinds reference := by
  rw [ExtractOptions.considers, hlocal, Bool.false_or, Bool.and_eq_true] at h
  obtain ⟨hkind, hleaves⟩ := h
  rw [leavesScope] at hleaves
  split at hleaves
  · cases hleaves
  · rename_i hother
    rw [not_or] at hother
    refine ⟨hkind, ?_, hother.2, ?_⟩
    · rw [hsource]
      exact hother.1
    · intro rest hrest
      have hmember : reference.typeName.startsWith scope.memberStart = true := by
        rw [hrest, hsource, scope.memberStart_eq]
        simp
      rw [if_pos hmember] at hleaves
      simpa [memberTypeKinds] using hleaves

/-- Without local references, every delivered reference is of a kind that is asked for and
leaves the type that makes it, and none is delivered twice. -/
theorem extract_leaves_types (options : ExtractOptions) (known : Universe) (root : ClassDecl)
    (references : List Reference) (hlocal : options.includeLocal = false)
    (hextract : extract options known root = .ok references) :
    (∀ reference ∈ references, LeavesType options.kinds reference) ∧
      references.Pairwise (fun left right => ¬ (left.kind = right.kind ∧
        left.source = right.source ∧ left.typeName = right.typeName ∧
        left.memberName = right.memberName ∧ left.signature = right.signature ∧
        left.line = right.line)) := by
  obtain ⟨entries, steps, -, -, hunlined, rfl⟩ := exists_steps_of_extract hextract
  constructor
  · intro reference hmem
    obtain ⟨kept, hkept, hretained, rfl⟩ := exists_of_mem_delivered hmem
    have hfiltered := filtered_foldAccessors (fun _ => filtered_of_unlined hunlined) hkept hretained
    exact leavesType_of_considers hlocal hfiltered.source_eq (hfiltered.considered hretained)
  · have hdistinct := List.pairwise_map.mp (nodup_delivered (foldAccessors options entries.toList))
    refine hdistinct.imp ?_
    rintro left right hkey ⟨hkind, hsource, htype, hmember, hsignature, hline⟩
    apply hkey
    rw [Reference.repeatKey, Reference.repeatKey, Reference.identity, Reference.identity, hkind,
      hsource, htype, hmember, hsignature, hline]

/-! A class that reads a field of another type through an accessor. -/

def foreignUse : FieldSite := ⟨"b/B", "x", "I", .get⟩

def foreignAccessor : PlainMethod where
  name := "access$0"
  isSynthetic := true
  instructions := [⟨0, Opcode.getField, .access foreignUse⟩]

def relayingClass : ClassDecl := plainClass "a/A" [xCaller, foreignAccessor]

def relayingEntries : List Entry :=
  ([xCaller, foreignAccessor].flatMap (fun method =>
    method.drafts (TypeSite.of (.ofList []) relayingClass))).map
      (({} : ExtractOptions).record (TypeSite.of (.ofList []) relayingClass).scope)

theorem extract_relayingClass : extract {} (.ofList []) relayingClass =
    .ok (delivered (foldAccessors {} relayingEntries)) := by
  have hentries := entries_plainClass {} (.ofList []) "a/A" [xCaller, foreignAccessor]
  rw [extract, relayingClass, hentries]
  rfl

/-- The caller of the accessor uses the field, and only that leaves the class. -/
theorem extract_relayingClass_leaves :
    ∃ references, extract {} (.ofList []) relayingClass = .ok references ∧
      (∀ reference ∈ references, LeavesType .all reference) ∧
      ∃ reference ∈ references, reference.identity =
        .ofField (relayingClass.methodHandle xCaller.decl) .getField foreignUse := by
  refine ⟨_, extract_relayingClass,
    (extract_leaves_types {} (.ofList []) relayingClass _ rfl extract_relayingClass).1, ?_⟩
  let type := TypeSite.of (.ofList []) relayingClass
  let call : Entry := ({} : ExtractOptions).record type.scope
    { reference := Reference.ofMethod (relayingClass.methodHandle xCaller.decl)
        (qualifiedName "a/A") "access$0" "()V" .staticCall 0
      trail := .staticCall }
  let access : Entry := ({} : ExtractOptions).record type.scope
    { reference := Reference.ofField (relayingClass.methodHandle foreignAccessor.decl)
        (qualifiedName "b/B") "x" .getField
      trail := .syntheticAccess }
  have hentries : relayingEntries = [call, access] := by
    simp [relayingEntries, PlainMethod.drafts, xCaller, foreignAccessor, foreignUse,
      BodySite.instructionDrafts, BodySite.drafts, BodySite.callDrafts,
      BodySite.forNameReferences, BodySite.callReference, BodySite.fieldDraft, BodySite.fieldKind,
      call, access, type]
    rfl
  have hreaches : call.footprint.Reaches access.footprint := ⟨rfl, rfl, rfl, rfl, rfl⟩
  have hconsidered :
      ({} : ExtractOptions).considers call.scope (directUse access call) = true := by
    have htarget : (directUse access call).typeName ≠ call.scope.name := by decide +kernel
    have hmember : (directUse access call).memberName ≠ some classInitializerName := by
      decide +kernel
    have hkind : (directUse access call).kind = .getField := rfl
    simp [ExtractOptions.considers, leavesScope, memberTypeKinds, htarget, hmember, hkind]
  rw [hentries]
  exact exists_mem_delivered_iff.mpr (.inr ⟨access, by simp, call, by simp, hreaches,
    hconsidered, rfl⟩)

end Linkage
