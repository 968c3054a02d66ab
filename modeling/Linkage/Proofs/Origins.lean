import Linkage.Proofs.Provenance
/-
Where the drafts of a type come from.  A draft is what an instruction of the type
prescribes, the type of a synthetic field, or a reference that folding passes
over and whose kind does not belong to instructions.
-/

namespace Linkage

/-- Where a draft of a class comes from. -/
inductive DraftOrigin (decl : ClassDecl) (draft : Draft) : Prop where
  | instruction {method : MethodDecl} {earlier : List Instruction} {instruction : Instruction}
      (hinstruction : InstructionOf decl method earlier instruction)
      (hprescribes : Prescribes decl method earlier instruction draft.reference.identity)
      (htrail : draft.trail = bodyTrail method draft.reference.kind)
  | syntheticField {field : FieldDecl} {typeName : String}
      (hfield : SyntheticFieldOf decl field typeName)
      (hdraft : draft = syntheticFieldDraft decl field typeName)
  | other (htrail : draft.trail = .plain) (hkind : draft.reference.kind ∉ instructionKinds)

variable {known : Universe} {decl : ClassDecl}

theorem Provenance.origin {draft : Draft} (h : Provenance known decl draft) :
    DraftOrigin decl draft := by
  cases h with
  | mention _ hmention => exact .other rfl (not_mem_instructionKinds hmention.kind_mem)
  | syntheticField hfield => exact .syntheticField hfield rfl
  | override _ hoverride =>
      obtain ⟨target, flags, rfl, -⟩ := mem_overrideReferences hoverride
      exact .other rfl (by decide : ReferenceKind.override ∉ instructionKinds)
  | instruction hinstruction hmakes =>
      rcases hmakes.prescribes with hprescribes | hkind
      · exact .instruction hinstruction hprescribes hmakes.trail_eq
      · refine .other ?_ hkind
        rw [hmakes.trail_eq]
        apply bodyTrail_plain
        · intro heq
          simp [heq, instructionKinds] at hkind
        · intro heq
          revert hkind heq
          cases draft.reference.kind <;> simp [instructionKinds, ReferenceKind.target]

namespace OwnDrafts

/-- A type records every dependency that one of its instructions prescribes. -/
theorem exists_of_prescribes (own : OwnDrafts known decl) {method : MethodDecl}
    {earlier : List Instruction} {instruction : Instruction} {identity : Reference.Identity}
    (hinstruction : InstructionOf decl method earlier instruction)
    (hprescribes : Prescribes decl method earlier instruction identity) :
    ∃ draft ∈ own.methods.flatten, draft.reference.identity = identity ∧
      draft.trail = bodyTrail method identity.kind := by
  obtain ⟨hmethod, code, later, hbody, hsplit⟩ := hinstruction
  obtain ⟨drafts, hdrafts⟩ := exists_of_mapM_eq_ok own.methods_eq hmethod
  have hlisted := (mem_of_mapM_eq_ok own.methods_eq).mpr ⟨method, hmethod, hdrafts⟩
  obtain ⟨draft, hdraft, hidentity⟩ := BodySite.exists_draft_of_prescribes known hprescribes
  obtain ⟨types, declared, body, -, -, hparts, rfl⟩ := methodDrafts_eq_ok (mapError_eq_ok hdrafts)
  rw [hbody] at hparts
  obtain ⟨hnone, -⟩ | ⟨other, hother, hinner⟩ := hparts
  · cases hnone
  · rw [← Option.some.inj hother] at hinner
    obtain ⟨locals, -, rfl⟩ := bind_pure_eq_ok hinner
    refine ⟨draft, List.mem_flatten.mpr ⟨_, hlisted, ?_⟩, hidentity, ?_⟩
    · have hmem :=
        BodySite.mem_instructionDrafts.mpr ⟨earlier, instruction, later, hsplit, hdraft⟩
      simp only [List.mem_append]
      exact .inr (.inl (.inr hmem))
    · rw [(BodySite.instructionMakes_of_mem hdraft).trail_eq, ← hidentity]
      rfl

/-- A type records the types of its synthetic fields. -/
theorem mem_of_syntheticField (own : OwnDrafts known decl) {field : FieldDecl}
    {typeName : String} (h : SyntheticFieldOf decl field typeName) :
    syntheticFieldDraft decl field typeName ∈ own.fields.flatten := by
  obtain ⟨drafts, hdrafts⟩ := exists_of_mapM_eq_ok own.fields_eq h.field_mem
  have hlisted := (mem_of_mapM_eq_ok own.fields_eq).mpr ⟨field, h.field_mem, hdrafts⟩
  refine List.mem_flatten.mpr ⟨drafts, hlisted, ?_⟩
  obtain ⟨types, htypes, rfl⟩ := bind_pure_eq_ok (mapError_eq_ok hdrafts)
  simp only [TypeSite.fieldTypeDrafts, Table.get_eq, h.synthetic, h.type_eq, if_true] at htypes
  rw [← Except.ok.inj htypes]
  exact List.mem_append_left _ (List.mem_singleton_self _)

end OwnDrafts

/-- Every record of a tree has an origin in one of its classes. -/
theorem TypeTree.records_origin (known : Universe) (tree : TypeTree) (found : List Record)
    (h : tree.records known = .ok found) :
    ∀ record ∈ found, ∃ decl, DraftOrigin decl record.draft := by
  intro record hmem
  rw [TypeTree.records_eq_steps] at h
  obtain ⟨steps, -, rfl⟩ := map_eq_ok h
  obtain ⟨step, -, hstep⟩ := List.mem_flatMap.mp hmem
  exact ⟨step.decl, (VisitStep.provenance hstep).origin⟩

/-- Every entry of an instruction kind, or that folding is interested in, comes from a member of a
visited type. -/
theorem exists_draftOrigin {options : ExtractOptions} {steps : List (VisitStep known)}
    {entries : Array Entry} (hunlined : unlinedAll entries =
      (steps.flatMap VisitStep.records).map (Record.unlined options))
    {entry : Entry} (hmem : entry ∈ entries.toList)
    (hkind : entry.reference.kind ∈ instructionKinds ∨ entry.trail ≠ .plain) :
    ∃ decl ∈ leftTypes steps, ∃ draft, DraftOrigin decl draft ∧
      draft.footprint = entry.footprint := by
  obtain ⟨record, hrecord, hsame⟩ := exists_record_of_mem hunlined hmem
  have hfootprint : record.draft.footprint = entry.footprint := congrArg Entry.footprint hsame
  obtain ⟨decl, own, hheader | ⟨hleft, hmember⟩⟩ := exists_own_of_mem_records hrecord
  · obtain ⟨reference, hmention, hdraft⟩ := mem_headerDrafts own.header_eq hheader
    rw [hdraft] at hfootprint
    have hkindEq : reference.kind = entry.reference.kind :=
      congrArg (fun footprint => footprint.identity.kind) hfootprint
    have htrailEq : Trail.plain = entry.trail := congrArg Footprint.trail hfootprint
    rcases hkind with hkind | htrail
    · rw [← hkindEq] at hkind
      exact absurd hkind (not_mem_instructionKinds hmention.kind_mem)
    · exact absurd htrailEq.symm htrail
  · exact ⟨decl, hleft, record.draft, (own.provenance (.inr hmember)).origin, hfootprint⟩

end Linkage
