import Linkage.Proofs.Folding
import Linkage.Proofs.Origins
/-
Extraction covers the instructions of the visited types.  With everything asked
for, the references whose kinds belong to instructions are those that the visited
instructions prescribe, less the two ends of accessor calls, and the direct uses
that stand for these.
-/

namespace Linkage

/-- Everything is asked for: all kinds, and references that stay in their type too. -/
def ExtractOptions.full : ExtractOptions where
  includeLocal := true
  kinds := .all

variable {known : Universe} {root : ClassDecl}

/-- An instruction in a method of a visited type prescribes the dependency. -/
def Prescribed (known : Universe) (root : ClassDecl) (method : MethodDecl)
    (identity : Reference.Identity) : Prop :=
  ∃ decl earlier instruction, Visited .full known root decl ∧
    InstructionOf decl method earlier instruction ∧
    Prescribes decl method earlier instruction identity

/-- A use of a field by a synthetic method of a visited type. -/
structure SyntheticUse (known : Universe) (root : ClassDecl) (method : MethodDecl)
    (identity : Reference.Identity) : Prop where
  prescribed : Prescribed known root method identity
  synthetic : method.access.isSynthetic = true
  target_eq : identity.kind.target = .field

/-- A static call by a method of a visited type. -/
structure StaticCallMade (known : Universe) (root : ClassDecl) (identity : Reference.Identity) :
    Prop where
  prescribed : ∃ method, Prescribed known root method identity
  kind_eq : identity.kind = .staticCall

/-- The synthetic members whose calls are folded: those that use a field, and fields whose
type is a class. -/
inductive Accessor (known : Universe) (root : ClassDecl) : MemberHandle → Prop where
  | method {method : MethodDecl} {identity : Reference.Identity}
      (h : SyntheticUse known root method identity) : Accessor known root identity.source
  | field {decl : ClassDecl} {field : FieldDecl} {typeName : String}
      (hvisited : Visited .full known root decl)
      (hfield : SyntheticFieldOf decl field typeName) :
      Accessor known root (.field decl.qualifiedName field.name)

/-- Folding takes a prescribed dependency away: a static call of an accessor, or a use of a
field by a synthetic method that is called. -/
def FoldedAway (known : Universe) (root : ClassDecl) (method : MethodDecl)
    (identity : Reference.Identity) : Prop :=
  (StaticCallMade known root identity ∧
    ∃ member, Accessor known root member ∧ identity.PointsAt member) ∨
  (SyntheticUse known root method identity ∧
    ∃ call, StaticCallMade known root call ∧ call.PointsAt identity.source)

/-- A use of a field that stands for an accessor call: the caller takes the place of the
accessor. -/
def DirectUse (known : Universe) (root : ClassDecl) (identity : Reference.Identity) : Prop :=
  ∃ method access call, SyntheticUse known root method access ∧
    StaticCallMade known root call ∧ call.PointsAt access.source ∧
    identity = { access with source := call.source }

/-- References that cover exactly the instructions of the visited types. -/
structure InstructionsCovered (known : Universe) (root : ClassDecl)
    (references : List Reference) : Prop where
  complete : ∀ method identity, Prescribed known root method identity →
    ¬ FoldedAway known root method identity →
      ∃ reference ∈ references, reference.identity = identity
  direct : ∀ identity, DirectUse known root identity →
    ∃ reference ∈ references, reference.identity = identity
  sound : ∀ reference ∈ references, reference.kind ∈ instructionKinds →
    (∃ method, Prescribed known root method reference.identity ∧
      ¬ FoldedAway known root method reference.identity) ∨
    DirectUse known root reference.identity

/-- The footprints of the records of a root. -/
def footprints (found : List Record) : List Footprint :=
  found.map (fun record => record.draft.footprint)

theorem footprints_of_unlined {options : ExtractOptions} {entries : Array Entry}
    {found : List Record} (h : unlinedAll entries = found.map (Record.unlined options)) :
    entries.toList.map Entry.footprint = footprints found := by
  rw [footprints_unlined, h, footprints, List.map_map]
  rfl

/-- The footprint of a dependency that an instruction of a method prescribes. -/
def bodyFootprint (method : MethodDecl) (identity : Reference.Identity) : Footprint :=
  ⟨identity, bodyTrail method identity.kind⟩

section Records

variable (hacyclic : AcyclicNesting known) {found : List Record}
  (hfound : (TypeTree.of known root).records known = .ok found)

include hacyclic hfound

theorem Visited.footprint_mem {decl : ClassDecl} (hvisited : Visited .full known root decl) :
    ∃ own : OwnDrafts known decl,
      ∀ draft ∈ own.fields.flatten ++ own.methods.flatten, draft.footprint ∈ footprints found := by
  obtain ⟨part, hpart, hsubset⟩ := hvisited.records hacyclic hfound
  obtain ⟨own, hown⟩ := records_of_eq_ok hacyclic hpart
  refine ⟨own, fun draft hdraft => ?_⟩
  have hmem : Record.mk (TypeSite.of known decl).scope draft ∈ part := by
    rw [hown]
    exact List.mem_append_right _ (List.mem_map_of_mem hdraft)
  exact List.mem_map.mpr ⟨_, hsubset _ hmem, rfl⟩

theorem Prescribed.footprint_mem {method : MethodDecl} {identity : Reference.Identity}
    (h : Prescribed known root method identity) :
    bodyFootprint method identity ∈ footprints found := by
  obtain ⟨decl, earlier, instruction, hvisited, hinstruction, hprescribes⟩ := h
  obtain ⟨own, hown⟩ := hvisited.footprint_mem hacyclic hfound
  obtain ⟨draft, hdraft, hidentity, htrail⟩ := own.exists_of_prescribes hinstruction hprescribes
  have hmem := hown draft (List.mem_append_right _ hdraft)
  rwa [Draft.footprint, hidentity, htrail] at hmem

theorem SyntheticFieldOf.footprint_mem {decl : ClassDecl}
    (hvisited : Visited .full known root decl) {field : FieldDecl} {typeName : String}
    (h : SyntheticFieldOf decl field typeName) :
    (syntheticFieldDraft decl field typeName).footprint ∈ footprints found := by
  obtain ⟨own, hown⟩ := hvisited.footprint_mem hacyclic hfound
  exact hown _ (List.mem_append_left _ (own.mem_of_syntheticField h))

/-- Every footprint of a root comes from a visited type. -/
theorem exists_origin {footprint : Footprint} (h : footprint ∈ footprints found) :
    ∃ decl draft, Visited .full known root decl ∧ DraftOrigin decl draft ∧
      draft.footprint = footprint := by
  obtain ⟨record, hrecord, rfl⟩ := List.mem_map.mp h
  obtain ⟨decl, own, hvisited, hmem⟩ :=
    exists_visited_of_mem_records hacyclic (.root) hfound hrecord
  obtain ⟨draft, hdraft, rfl⟩ := List.mem_map.mp hmem
  rw [List.append_assoc, List.mem_append] at hdraft
  exact ⟨decl, draft, hvisited, (own.provenance hdraft).origin, rfl⟩

theorem staticCallMade_of_trail {footprint : Footprint} (h : footprint ∈ footprints found)
    (htrail : footprint.trail = .staticCall) : StaticCallMade known root footprint.identity := by
  obtain ⟨decl, draft, hvisited, horigin, rfl⟩ := exists_origin hacyclic hfound h
  change draft.trail = .staticCall at htrail
  cases horigin with
  | instruction hinstruction hprescribes hbody =>
      rw [hbody] at htrail
      exact ⟨⟨_, decl, _, _, hvisited, hinstruction, hprescribes⟩,
        bodyTrail_eq_staticCall_iff.mp htrail⟩
  | syntheticField _ hdraft => simp [hdraft, syntheticFieldDraft] at htrail
  | other hplain _ => simp [hplain] at htrail

theorem syntheticUse_of_trail {footprint : Footprint} (h : footprint ∈ footprints found)
    (htrail : footprint.trail = .syntheticAccess) :
    (∃ method, SyntheticUse known root method footprint.identity) ∨
      ∃ decl field typeName, Visited .full known root decl ∧
        SyntheticFieldOf decl field typeName ∧
        footprint = (syntheticFieldDraft decl field typeName).footprint := by
  obtain ⟨decl, draft, hvisited, horigin, rfl⟩ := exists_origin hacyclic hfound h
  change draft.trail = .syntheticAccess at htrail
  cases horigin with
  | instruction hinstruction hprescribes hbody =>
      rw [hbody] at htrail
      obtain ⟨hsynthetic, htarget⟩ := bodyTrail_eq_syntheticAccess_iff.mp htrail
      exact .inl ⟨_, ⟨decl, _, _, hvisited, hinstruction, hprescribes⟩, hsynthetic, htarget⟩
  | syntheticField hfield hdraft =>
      exact .inr ⟨decl, _, _, hvisited, hfield, by rw [hdraft]⟩
  | other hplain _ => simp [hplain] at htrail

/-- The members that folding knows as accessors. -/
theorem accessor_iff {member : MemberHandle} :
    Accessor known root member ↔ ∃ access ∈ footprints found,
      access.trail = .syntheticAccess ∧ access.identity.source = member := by
  constructor
  · intro h
    cases h with
    | method huse =>
        have htrail := bodyTrail_eq_syntheticAccess_iff.mpr ⟨huse.synthetic, huse.target_eq⟩
        exact ⟨_, huse.prescribed.footprint_mem hacyclic hfound, htrail, rfl⟩
    | field hvisited hfield =>
        exact ⟨_, hfield.footprint_mem hacyclic hfound hvisited, rfl, rfl⟩
  · rintro ⟨access, hmem, htrail, rfl⟩
    rcases syntheticUse_of_trail hacyclic hfound hmem htrail with
      ⟨method, huse⟩ | ⟨decl, field, typeName, hvisited, hfield, rfl⟩
    · exact .method huse
    · exact .field hvisited hfield

/-- What is folded away are the prescribed dependencies at the ends of accessor calls. -/
theorem foldedAway_iff {method : MethodDecl} {identity : Reference.Identity}
    (h : Prescribed known root method identity) :
    FoldedAway known root method identity ↔
      (bodyFootprint method identity).FoldedAmong (footprints found) := by
  constructor
  · rintro (⟨hcall, member, haccessor, hpoints⟩ | ⟨huse, call, ⟨⟨caller, hcall⟩, hkind⟩, hpoints⟩)
    · obtain ⟨access, hmem, htrail, rfl⟩ := (accessor_iff hacyclic hfound).mp haccessor
      exact ⟨access, hmem, .inl ⟨bodyTrail_eq_staticCall_iff.mpr hcall.kind_eq, htrail, hpoints⟩⟩
    · have htrail := bodyTrail_eq_syntheticAccess_iff.mpr ⟨huse.synthetic, huse.target_eq⟩
      exact ⟨_, hcall.footprint_mem hacyclic hfound,
        .inr ⟨bodyTrail_eq_staticCall_iff.mpr hkind, htrail, hpoints⟩⟩
  · rintro ⟨other, hmem, ⟨hcall, haccess, hpoints⟩ | ⟨hcall, haccess, hpoints⟩⟩
    · have hkind := bodyTrail_eq_staticCall_iff.mp hcall
      have haccessor := (accessor_iff hacyclic hfound).mpr ⟨other, hmem, haccess, rfl⟩
      exact .inl ⟨⟨⟨method, h⟩, hkind⟩, _, haccessor, hpoints⟩
    · obtain ⟨hsynthetic, htarget⟩ := bodyTrail_eq_syntheticAccess_iff.mp haccess
      have hmade := staticCallMade_of_trail hacyclic hfound hmem hcall
      exact .inr ⟨⟨h, hsynthetic, htarget⟩, _, hmade, hpoints⟩

end Records

theorem considers_full (scope : Scope) (reference : Reference) :
    ExtractOptions.full.considers scope reference = true := by
  simp [ExtractOptions.considers, ExtractOptions.full]

/-- The delivered dependencies of a root in terms of the footprints of its records. -/
theorem exists_extracted_iff {references : List Reference}
    (h : extract .full known root = .ok references) :
    ∃ found, (TypeTree.of known root).records known = .ok found ∧
      ∀ identity, (∃ reference ∈ references, reference.identity = identity) ↔
        (∃ footprint ∈ footprints found, footprint.identity = identity ∧
          ¬ footprint.FoldedAmong (footprints found)) ∨
        (∃ access ∈ footprints found, ∃ call ∈ footprints found, call.Reaches access ∧
          access.directIdentity call = identity) := by
  have hview := TypeTree.entries_unlined .full known (TypeTree.of known root)
  obtain ⟨entries, hentries, h⟩ := bind_pure_eq_ok h
  rw [hentries] at hview
  obtain ⟨found, hfound, hunlined⟩ := map_eq_ok hview.symm
  have hprints := footprints_of_unlined hunlined.symm
  have hretained : ∀ entry ∈ entries.toList, entry.retained = true := by
    intro entry hentry
    have hmem : entry.unlined ∈ unlinedAll entries := List.mem_map_of_mem hentry
    rw [← hunlined] at hmem
    obtain ⟨record, -, heq⟩ := List.mem_map.mp hmem
    have hflag : entry.retained = (record.unlined .full).retained := by
      rw [heq]
      rfl
    rw [hflag]
    exact considers_full record.scope record.draft.reference
  refine ⟨found, hfound, fun identity => ?_⟩
  rw [← h, exists_mem_delivered_iff, ← hprints]
  simp only [considers_full, true_and, List.mem_map]
  constructor
  · rintro (⟨entry, hentry, -, hidentity, hkept⟩ | ⟨access, haccess, call, hcall, hdirect⟩)
    · exact .inl ⟨_, ⟨entry, hentry, rfl⟩, hidentity, hkept⟩
    · exact .inr ⟨_, ⟨access, haccess, rfl⟩, _, ⟨call, hcall, rfl⟩, hdirect⟩
  · rintro (⟨_, ⟨entry, hentry, rfl⟩, hidentity, hkept⟩ |
      ⟨_, ⟨access, haccess, rfl⟩, _, ⟨call, hcall, rfl⟩, hdirect⟩)
    · exact .inl ⟨entry, hentry, hretained entry hentry, hidentity, hkept⟩
    · exact .inr ⟨access, haccess, call, hcall, hdirect⟩

theorem SyntheticUse.directIdentity_eq {method : MethodDecl} {access : Reference.Identity}
    (h : SyntheticUse known root method access) (call : Footprint) (trail : Trail) :
    Footprint.directIdentity ⟨access, trail⟩ call =
      { access with source := call.identity.source } := by
  obtain ⟨decl, earlier, instruction, -, -, hprescribes⟩ := h.prescribed
  obtain ⟨name, hname, hsignature⟩ := hprescribes.of_target_field h.target_eq
  simp [Footprint.directIdentity, hname, hsignature]

/-- Extraction that asks for everything covers the instructions of the visited types. -/
theorem extract_covers_instructions (known : Universe) (root : ClassDecl)
    (references : List Reference) (hacyclic : AcyclicNesting known)
    (hextract : extract .full known root = .ok references) :
    InstructionsCovered known root references := by
  obtain ⟨found, hfound, hiff⟩ := exists_extracted_iff hextract
  refine ⟨?_, ?_, ?_⟩
  · intro method identity hprescribed hkept
    refine (hiff identity).mpr (.inl ⟨_, hprescribed.footprint_mem hacyclic hfound, rfl, ?_⟩)
    exact fun hfolded => hkept ((foldedAway_iff hacyclic hfound hprescribed).mpr hfolded)
  · rintro identity ⟨method, access, call, huse, ⟨⟨caller, hcall⟩, hkind⟩, hpoints, rfl⟩
    have htrail := bodyTrail_eq_syntheticAccess_iff.mpr ⟨huse.synthetic, huse.target_eq⟩
    refine (hiff _).mpr (.inr ⟨_, huse.prescribed.footprint_mem hacyclic hfound, _,
      hcall.footprint_mem hacyclic hfound, ?_, huse.directIdentity_eq _ _⟩)
    exact ⟨bodyTrail_eq_staticCall_iff.mpr hkind, htrail, hpoints⟩
  · intro reference hreference hkind
    change reference.identity.kind ∈ instructionKinds at hkind
    rcases (hiff reference.identity).mp ⟨reference, hreference, rfl⟩ with
      ⟨footprint, hmem, hidentity, hkept⟩ | ⟨access, haccess, call, hcall, hreaches, hdirect⟩
    · left
      obtain ⟨decl, draft, hvisited, horigin, rfl⟩ := exists_origin hacyclic hfound hmem
      rw [← hidentity] at hkind ⊢
      cases horigin with
      | @instruction method _ _ hinstruction hprescribes htrail =>
          have hprescribed : Prescribed known root method draft.footprint.identity :=
            ⟨decl, _, _, hvisited, hinstruction, hprescribes⟩
          refine ⟨method, hprescribed, fun hfolded => hkept ?_⟩
          have hsame : draft.footprint = bodyFootprint method draft.footprint.identity := by
            rw [Draft.footprint, htrail]
            rfl
          rw [hsame]
          exact (foldedAway_iff hacyclic hfound hprescribed).mp hfolded
      | syntheticField _ hdraft =>
          rw [hdraft] at hkind
          exact absurd hkind (by decide : ReferenceKind.fieldDeclaration ∉ instructionKinds)
      | other _ hother => exact absurd hkind hother
    · right
      have hmade := staticCallMade_of_trail hacyclic hfound hcall hreaches.call_trail
      rcases syntheticUse_of_trail hacyclic hfound haccess hreaches.access_trail with
        ⟨method, huse⟩ | ⟨decl, field, typeName, -, -, rfl⟩
      · refine ⟨method, access.identity, call.identity, huse, hmade, hreaches.points_at, ?_⟩
        rw [← hdirect]
        exact huse.directIdentity_eq call access.trail
      · rw [← hdirect] at hkind
        exact absurd hkind (by decide : ReferenceKind.fieldDeclaration ∉ instructionKinds)

/-- A method that reads a field through an accessor. -/
def accessorCaller : MethodDecl where
  name := "m"
  descriptor := "()V"
  code := some {
    instructions := [⟨0, Opcode.invokeStatic, .invoke ⟨"a/A", "access$0", "()V", .static⟩⟩] }

def fieldAccessor : MethodDecl where
  name := "access$0"
  descriptor := "()V"
  access := { isStatic := true, isSynthetic := true }
  code := some {
    instructions := [⟨0, Opcode.getField, .access ⟨"a/A", "x", "I", .get⟩⟩] }

def accessorClass : ClassDecl where
  name := "a/A"
  methods := [accessorCaller, fieldAccessor]

theorem exists_extract_accessorClass :
    ∃ references, extract .full (.ofList []) accessorClass = .ok references := by
  rw [extract_eq_ok_iff]
  cases h : (TypeTree.of (.ofList []) accessorClass).records (.ofList []) with
  | ok found => exact ⟨found, rfl⟩
  | error error =>
      exfalso
      simp only [TypeTree.of, TypeTree.records, TypeSite.headerDrafts,
        TypeSite.headerReferences, TypeSite.fieldsDrafts, TypeSite.methodsDrafts,
        TypeSite.methodDrafts, TypeSite.methodReferences, TypeSite.methodHeaderReferences,
        TypeSite.methodTypeReferences, BodySite.bodyDrafts, localReferences,
        MethodDecl.body?, TypeSite.decl_of, accessorClass, accessorCaller, fieldAccessor,
        Table.get_eq, readMethodTypes_noArguments, List.mapM_cons, List.mapM_nil,
        List.foldlM_nil, bind, Except.bind, pure, Except.pure, mapError_ok,
        Bool.or_false, Bool.false_eq_true, if_false, if_true] at h
      cases h

/-- The caller of an accessor uses the field itself. -/
theorem extract_covers_accessorClass : AcyclicNesting (.ofList []) ∧
    ∃ references, extract .full (.ofList []) accessorClass = .ok references ∧
      InstructionsCovered (.ofList []) accessorClass references ∧
      ∃ reference ∈ references, reference.identity =
        { kind := .getField, source := accessorClass.methodHandle accessorCaller,
          typeName := accessorClass.qualifiedName, memberName := some "x",
          signature := none } := by
  obtain ⟨references, hextract⟩ := exists_extract_accessorClass
  have hcovered :=
    extract_covers_instructions (.ofList []) accessorClass references acyclicNesting_empty hextract
  have haccess : Prescribes accessorClass fieldAccessor []
      ⟨0, Opcode.getField, .access ⟨"a/A", "x", "I", .get⟩⟩
      (.ofField (accessorClass.methodHandle fieldAccessor) .getField ⟨"a/A", "x", "I", .get⟩) :=
    .fieldUse (by decide)
  have hcall : Prescribes accessorClass accessorCaller []
      ⟨0, Opcode.invokeStatic, .invoke ⟨"a/A", "access$0", "()V", .static⟩⟩
      (.ofCall (accessorClass.methodHandle accessorCaller) .staticCall
        ⟨"a/A", "access$0", "()V", .static⟩) :=
    .plainCall (by decide)
  refine ⟨acyclicNesting_empty, references, hextract, hcovered, hcovered.direct _ ?_⟩
  refine ⟨fieldAccessor, _, _,
    ⟨⟨accessorClass, [], _, .root, ⟨by simp [accessorClass], _, [], rfl, rfl⟩, haccess⟩,
      rfl, rfl⟩,
    ⟨⟨accessorCaller, accessorClass, [], _, .root,
      ⟨by simp [accessorClass], _, [], rfl, rfl⟩, hcall⟩, rfl⟩, ⟨rfl, rfl, rfl⟩, rfl⟩

end Linkage
