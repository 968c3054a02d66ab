import Linkage.Proofs.Distinct
import Linkage.Proofs.Records
/-
What folding does to the entries of a root.  Folding looks at the dependency and
the trail of an entry only, its footprint: it takes the footprints that an
accessor call replaces away and adds the direct uses of the callers.
-/

namespace Linkage

/-- What folding looks at in an entry. -/
structure Footprint where
  identity : Reference.Identity
  trail : Trail

def Draft.footprint (draft : Draft) : Footprint := ⟨draft.reference.identity, draft.trail⟩

def Entry.footprint (entry : Entry) : Footprint := ⟨entry.reference.identity, entry.trail⟩

/-- A dependency points at a member; a field is met by its name alone. -/
def Reference.Identity.PointsAt (identity : Reference.Identity) : MemberHandle → Prop
  | .method typeName name descriptor =>
      identity.typeName = typeName ∧ identity.memberName = some name ∧
        identity.signature = some descriptor
  | .field typeName name => identity.typeName = typeName ∧ identity.memberName = some name
  | .type _ => False

/-- A static call reaches the synthetic member that makes a use of a field. -/
structure Footprint.Reaches (call access : Footprint) : Prop where
  call_trail : call.trail = .staticCall
  access_trail : access.trail = .syntheticAccess
  points_at : call.identity.PointsAt access.identity.source

/-- A footprint that stands at either end of an accessor call among others. -/
def Footprint.FoldedAmong (footprints : List Footprint) (footprint : Footprint) : Prop :=
  ∃ other ∈ footprints, footprint.Reaches other ∨ other.Reaches footprint

/-- The use of a field by the caller of an accessor. -/
def Footprint.directIdentity (access call : Footprint) : Reference.Identity where
  kind := access.identity.kind
  source := call.identity.source
  typeName := access.identity.typeName
  memberName := some (access.identity.memberName.getD "")
  signature := none

theorem footprints_unlined (entries : Array Entry) :
    entries.toList.map Entry.footprint = (unlinedAll entries).map Entry.footprint := by
  rw [unlinedAll, List.map_map]
  rfl

theorem callsMember_eq_true_iff {call : Reference} {member : MemberHandle} :
    callsMember call member = true ↔ call.identity.PointsAt member := by
  cases member <;>
    simp [callsMember, Reference.Identity.PointsAt, Reference.identity, and_assoc]

theorem mem_syntheticAccesses {entries : List Entry} {entry : Entry} :
    entry ∈ syntheticAccesses entries ↔ entry ∈ entries ∧ entry.trail = .syntheticAccess := by
  simp [syntheticAccesses]

theorem mem_staticCalls {entries : List Entry} {entry : Entry} :
    entry ∈ staticCalls entries ↔ entry ∈ entries ∧ entry.trail = .staticCall := by
  simp [staticCalls]

theorem mem_callsReaching {entries : List Entry} {access call : Entry}
    (haccess : access.trail = .syntheticAccess) :
    call ∈ (AccessorTable.ofEntries entries).callsReaching access ↔
      call ∈ entries ∧ call.footprint.Reaches access.footprint := by
  rw [AccessorTable.callsReaching_ofEntries, List.mem_filter, mem_staticCalls,
    callsMember_eq_true_iff]
  constructor
  · rintro ⟨⟨hmem, htrail⟩, hpoints⟩
    exact ⟨hmem, htrail, haccess, hpoints⟩
  · rintro ⟨hmem, htrail, -, hpoints⟩
    exact ⟨⟨hmem, htrail⟩, hpoints⟩

/-- The table folds exactly the two ends of accessor calls. -/
theorem folds_ofEntries_iff (entries : List Entry) (entry : Entry) :
    (AccessorTable.ofEntries entries).folds entry = true ↔
      entry.footprint.FoldedAmong (entries.map Entry.footprint) := by
  rw [AccessorTable.folds]
  cases htrail : entry.trail with
  | plain =>
      simp only [Bool.false_eq_true, false_iff]
      rintro ⟨other, -, ⟨hcall, -, -⟩ | ⟨-, haccess, -⟩⟩
      · simp [Entry.footprint, htrail] at hcall
      · simp [Entry.footprint, htrail] at haccess
  | syntheticAccess =>
      simp only [Bool.not_eq_true', List.isEmpty_eq_false_iff_exists_mem]
      constructor
      · rintro ⟨call, hcall⟩
        obtain ⟨hmem, hreaches⟩ := (mem_callsReaching htrail).mp hcall
        exact ⟨_, List.mem_map_of_mem hmem, .inr hreaches⟩
      · rintro ⟨other, hother, ⟨hcall, -, -⟩ | hreaches⟩
        · simp [Entry.footprint, htrail] at hcall
        · obtain ⟨call, hmem, rfl⟩ := List.mem_map.mp hother
          exact ⟨call, (mem_callsReaching htrail).mpr ⟨hmem, hreaches⟩⟩
  | staticCall =>
      simp only [List.any_eq_true, Std.HashSet.contains_iff_mem,
        AccessorTable.mem_accessors_ofEntries, mem_calledMembers, callsMember_eq_true_iff,
        mem_syntheticAccesses]
      constructor
      · rintro ⟨member, hpoints, access, ⟨hmem, haccess⟩, rfl⟩
        exact ⟨_, List.mem_map_of_mem hmem, .inl ⟨htrail, haccess, hpoints⟩⟩
      · rintro ⟨other, hother, ⟨-, haccess, hpoints⟩ | ⟨-, haccess, -⟩⟩
        · obtain ⟨access, hmem, rfl⟩ := List.mem_map.mp hother
          exact ⟨_, hpoints, access, ⟨hmem, haccess⟩, rfl⟩
        · simp [Entry.footprint, htrail] at haccess

theorem mem_directUses {options : ExtractOptions} {entries : List Entry} {use : Entry} :
    use ∈ directUses options (.ofEntries entries) entries ↔
      ∃ access ∈ entries, ∃ call ∈ entries, call.footprint.Reaches access.footprint ∧
        use = options.record call.scope { reference := directUse access call } := by
  simp only [directUses, List.mem_flatMap, List.mem_map, mem_syntheticAccesses]
  constructor
  · rintro ⟨access, ⟨hmem, haccess⟩, call, hcall, rfl⟩
    obtain ⟨hcallMem, hreaches⟩ := (mem_callsReaching haccess).mp hcall
    exact ⟨access, hmem, call, hcallMem, hreaches, rfl⟩
  · rintro ⟨access, hmem, call, hcallMem, hreaches, rfl⟩
    have haccess : access.trail = .syntheticAccess := hreaches.access_trail
    exact ⟨access, ⟨hmem, haccess⟩, call,
      (mem_callsReaching haccess).mpr ⟨hcallMem, hreaches⟩, rfl⟩

/-- Without uses of fields by synthetic members there is nothing to fold. -/
theorem not_folds_of_isEmpty {entries : List Entry}
    (h : (syntheticAccesses entries).isEmpty = true) (entry : Entry) (hentry : entry ∈ entries) :
    (AccessorTable.ofEntries entries).folds entry = false := by
  rw [List.isEmpty_iff] at h
  have hnone : ∀ access ∈ entries, access.trail ≠ .syntheticAccess := by
    intro access hmem haccess
    have hlisted := mem_syntheticAccesses.mpr ⟨hmem, haccess⟩
    simp [h] at hlisted
  rw [← Bool.not_eq_true, folds_ofEntries_iff]
  rintro ⟨_, hother, hends⟩
  obtain ⟨other, hmem, rfl⟩ := List.mem_map.mp hother
  rcases hends with hreaches | hreaches
  · exact hnone other hmem hreaches.access_trail
  · exact hnone entry hentry hreaches.access_trail

theorem foldAccessors_of_no_accesses (options : ExtractOptions) {entries : List Entry}
    (h : ∀ entry ∈ entries, entry.trail ≠ .syntheticAccess) :
    foldAccessors options entries = entries := by
  have hnone : syntheticAccesses entries = [] := by
    rw [List.eq_nil_iff_forall_not_mem]
    intro access haccess
    obtain ⟨hmem, htrail⟩ := mem_syntheticAccesses.mp haccess
    exact h access hmem htrail
  rw [foldAccessors, hnone]
  rfl

theorem foldAccessors_eq (options : ExtractOptions) (entries : List Entry) :
    foldAccessors options entries =
      entries.map (fun entry =>
          if (AccessorTable.ofEntries entries).folds entry then entry.hidden else entry)
        ++ directUses options (.ofEntries entries) entries := by
  rw [foldAccessors]
  split
  · rename_i hempty
    have hsame : entries.map (fun entry =>
        if (AccessorTable.ofEntries entries).folds entry then entry.hidden else entry) =
        entries.map id := by
      apply List.map_congr_left
      intro entry hentry
      rw [not_folds_of_isEmpty hempty entry hentry]
      rfl
    rw [hsame, directUses, List.isEmpty_iff.mp hempty]
    simp
  · rfl

/-- What folding leaves to deliver: entries that it does not replace, and direct uses. -/
theorem mem_foldAccessors {options : ExtractOptions} {entries : List Entry} {kept : Entry}
    (hmem : kept ∈ foldAccessors options entries) (hretained : kept.retained = true) :
    (kept ∈ entries ∧ ¬ kept.footprint.FoldedAmong (entries.map Entry.footprint)) ∨
      ∃ access ∈ entries, ∃ call ∈ entries, call.footprint.Reaches access.footprint ∧
        kept = options.record call.scope { reference := directUse access call } := by
  rw [foldAccessors_eq, List.mem_append, List.mem_map, mem_directUses] at hmem
  refine hmem.imp ?_ id
  rintro ⟨entry, hentry, rfl⟩
  cases hfolds : (AccessorTable.ofEntries entries).folds entry with
  | true => simp [hfolds, Entry.hidden] at hretained
  | false =>
      rw [if_neg Bool.false_ne_true]
      refine ⟨hentry, ?_⟩
      rw [← folds_ofEntries_iff, hfolds]
      exact Bool.false_ne_true

/-! Delivered references. -/

/-- What repeated references share: the dependency and its line. -/
def Reference.repeatKey (reference : Reference) : Reference.Identity × Int :=
  (reference.identity, reference.line)

/-- References without a trail are delivered once for each line, unless the options leave
them out. -/
theorem delivered_ofReferences (options : ExtractOptions) (scope : Scope)
    (references : List Reference) :
    delivered (foldAccessors options
        ((references.map Draft.ofReference).map (options.record scope))) =
      distinctBy Reference.repeatKey (references.filter (options.considers scope)) := by
  rw [List.map_map, foldAccessors_of_no_accesses, delivered, List.filter_map, distinctBy_map,
    List.map_map]
  · exact List.map_id _
  · intro entry hentry
    obtain ⟨reference, -, rfl⟩ := List.mem_map.mp hentry
    exact Trail.noConfusion

theorem exists_of_mem_delivered {entries : List Entry} {reference : Reference}
    (h : reference ∈ delivered entries) :
    ∃ entry ∈ entries, entry.retained = true ∧ entry.reference = reference := by
  obtain ⟨entry, hentry, rfl⟩ := List.mem_map.mp h
  obtain ⟨hmem, hretained⟩ := List.mem_filter.mp (mem_distinctBy_imp_mem hentry)
  exact ⟨entry, hmem, hretained, rfl⟩

theorem exists_delivered_of_mem {entries : List Entry} {entry : Entry} (hmem : entry ∈ entries)
    (hretained : entry.retained = true) :
    ∃ reference ∈ delivered entries, reference.repeatKey = entry.repeatKey := by
  obtain ⟨kept, hkept, hkey⟩ :=
    distinctBy_covers Entry.repeatKey (List.mem_filter.mpr ⟨hmem, hretained⟩)
  exact ⟨kept.reference, List.mem_map_of_mem hkept, hkey⟩

/-- No dependency is delivered twice on one line. -/
theorem nodup_delivered (entries : List Entry) :
    ((delivered entries).map Reference.repeatKey).Nodup := by
  rw [delivered, List.map_map]
  exact nodup_distinctBy Entry.repeatKey _

/-- The dependencies that are delivered: those of the retained entries that are not folded
away, and the retained direct uses. -/
theorem exists_mem_delivered_iff {options : ExtractOptions} {entries : List Entry}
    {identity : Reference.Identity} :
    (∃ reference ∈ delivered (foldAccessors options entries), reference.identity = identity) ↔
      (∃ entry ∈ entries, entry.retained = true ∧ entry.reference.identity = identity ∧
        ¬ entry.footprint.FoldedAmong (entries.map Entry.footprint)) ∨
      (∃ access ∈ entries, ∃ call ∈ entries, call.footprint.Reaches access.footprint ∧
        options.considers call.scope (directUse access call) = true ∧
        access.footprint.directIdentity call.footprint = identity) := by
  constructor
  · rintro ⟨reference, hreference, hidentity⟩
    obtain ⟨kept, hmem, hretained, rfl⟩ := exists_of_mem_delivered hreference
    rcases mem_foldAccessors hmem hretained with
      ⟨hentry, hkept⟩ | ⟨access, haccess, call, hcall, hreaches, rfl⟩
    · exact .inl ⟨kept, hentry, hretained, hidentity, hkept⟩
    · exact .inr ⟨access, haccess, call, hcall, hreaches, hretained, hidentity⟩
  · have hdelivered : ∀ entry : Entry, entry ∈ foldAccessors options entries →
        entry.retained = true → entry.reference.identity = identity →
        ∃ reference ∈ delivered (foldAccessors options entries),
          reference.identity = identity := by
      intro entry hmem hretained hidentity
      obtain ⟨reference, hreference, hkey⟩ := exists_delivered_of_mem hmem hretained
      exact ⟨reference, hreference, by rw [← hidentity]; exact congrArg Prod.fst hkey⟩
    rintro (⟨entry, hentry, hretained, hidentity, hkept⟩ |
      ⟨access, haccess, call, hcall, hreaches, hretained, hidentity⟩)
    · have hfolds : (AccessorTable.ofEntries entries).folds entry ≠ true :=
        fun h => hkept ((folds_ofEntries_iff entries entry).mp h)
      refine hdelivered entry ?_ hretained hidentity
      rw [foldAccessors_eq]
      exact List.mem_append_left _ (List.mem_map.mpr ⟨entry, hentry, if_neg hfolds⟩)
    · refine hdelivered (options.record call.scope { reference := directUse access call }) ?_
        hretained hidentity
      rw [foldAccessors_eq]
      exact List.mem_append_right _
        (mem_directUses.mpr ⟨access, haccess, call, hcall, hreaches, rfl⟩)

end Linkage
