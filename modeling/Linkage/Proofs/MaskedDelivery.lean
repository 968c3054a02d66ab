import Linkage.Proofs.Distinct
import Linkage.Proofs.Folding
import Linkage.Proofs.MaskedTrees
/-
What a mask of kinds delivers of the entries of a root.  Folding and leaving repeats
out commute with the mask: lines apart always, and with lines where the entries of
the asked kinds are on the lines of full extraction.
-/

namespace Linkage

variable {kinds : KindSet}

/-- The references of some kinds. -/
def ofKinds (kinds : KindSet) (references : List Reference) : List Reference :=
  references.filter (fun reference => kinds.contains reference.kind)

/-- The dependencies that references record, each once and without a line. -/
def withoutLines (references : List Reference) : List Reference :=
  (distinctBy Reference.identity references).map (fun reference => reference.atLine (-1))

def Entry.asked (kinds : KindSet) (entry : Entry) : Bool :=
  kinds.contains entry.reference.kind

/-- Where one list is, place by place, the image of another, so is a part of it. -/
theorem filter_eq_map_filter {α β : Type} {image : β → α} {keep : α → Bool} {keep' : β → Bool}
    {left : List α} {right : List β} (hlength : left.length = right.length)
    (hpoint : ∀ (index : Nat) a b, left[index]? = some a → right[index]? = some b →
      keep a = keep' b ∧ (keep a = true → a = image b)) :
    left.filter keep = (right.filter keep').map image := by
  induction left generalizing right with
  | nil =>
      rw [List.length_nil, eq_comm, List.length_eq_zero_iff] at hlength
      rw [hlength]
      rfl
  | cons a rest ih =>
      cases right with
      | nil => simp at hlength
      | cons b others =>
          obtain ⟨hkeep, himage⟩ := hpoint 0 a b rfl rfl
          have hrest := ih (by simpa using hlength)
            (fun index c d hc hd => hpoint (index + 1) c d hc hd)
          rw [List.filter_cons, List.filter_cons, hkeep, hrest]
          cases hb : keep' b with
          | false => rfl
          | true =>
              rw [hb] at hkeep
              simp [himage hkeep]

theorem map_eq_map_of_point {α β γ : Type} {first : α → γ} {second : β → γ} {left : List α}
    {right : List β} (hlength : left.length = right.length)
    (hpoint : ∀ (index : Nat) a b, left[index]? = some a → right[index]? = some b →
      first a = second b) :
    left.map first = right.map second := by
  induction left generalizing right with
  | nil =>
      rw [List.length_nil, eq_comm, List.length_eq_zero_iff] at hlength
      rw [hlength]
      rfl
  | cons a rest ih =>
      cases right with
      | nil => simp at hlength
      | cons b others =>
          rw [List.map_cons, List.map_cons, hpoint 0 a b rfl rfl,
            ih (by simpa using hlength) (fun index c d hc hd => hpoint (index + 1) c d hc hd)]

/-! Delivery. -/

/-- What is delivered of retained entries. -/
def deliveredOf (retained : List Entry) : List Reference :=
  (distinctBy Entry.repeatKey retained).map Entry.reference

theorem ofKinds_deliveredOf (retained : List Entry) :
    ofKinds kinds (deliveredOf retained) = deliveredOf (retained.filter (Entry.asked kinds)) := by
  have hkey : ∀ a b : Entry, a.repeatKey = b.repeatKey → a.asked kinds = b.asked kinds := by
    intro a b heq
    have hkind : a.reference.kind = b.reference.kind :=
      congrArg (fun key : Reference.Identity × Int => key.1.kind) heq
    rw [Entry.asked, Entry.asked, hkind]
  rw [ofKinds, deliveredOf, deliveredOf, ← distinctBy_filter Entry.repeatKey _ hkey,
    List.filter_map]
  rfl

theorem withoutLines_deliveredOf (retained : List Entry) :
    withoutLines (deliveredOf retained) =
      (distinctBy (fun entry => entry.reference.identity) (retained.map Entry.unlined)).map
        Entry.reference := by
  have hfine : ∀ a b : Entry, a.repeatKey = b.repeatKey →
      a.reference.identity = b.reference.identity :=
    fun a b heq => congrArg Prod.fst heq
  rw [withoutLines, deliveredOf, distinctBy_map, distinctBy_map,
    distinctBy_distinctBy _ _ hfine, List.map_map, List.map_map]
  rfl

theorem filter_retained_masked (entries : List Entry) :
    (entries.map (Entry.masked kinds)).filter Entry.retained =
      (entries.filter Entry.retained).filter (Entry.asked kinds) := by
  induction entries with
  | nil => rfl
  | cons entry rest ih =>
      rw [List.map_cons, List.filter_cons, List.filter_cons, ih]
      obtain ⟨reference, scope, retained, trail⟩ := entry
      cases retained with
      | false => simp [Entry.masked]
      | true =>
          cases hasked : kinds.contains reference.kind <;>
            simp [Entry.masked, Entry.asked, hasked]

/-- What extraction retains is of a kind that it was asked for. -/
theorem ExtractOptions.asked_of_retained {options : ExtractOptions} {scope : Scope}
    {draft : Draft} (h : (options.record scope draft).retained = true) :
    (options.record scope draft).asked options.kinds = true := by
  simp only [ExtractOptions.record, ExtractOptions.considers, Bool.and_eq_true] at h
  exact h.1

/-! Folding. -/

theorem directUses_eq (options : ExtractOptions) (entries : List Entry) :
    directUses options (.ofEntries entries) entries =
      ((syntheticAccesses entries).map Entry.unlined).flatMap (fun access =>
        ((staticCalls entries).filter
          (fun call => callsMember call.reference access.reference.source)).map
          (fun call => options.record call.scope { reference := directUse access call })) := by
  rw [directUses, List.flatMap_map]
  simp only [AccessorTable.callsReaching_ofEntries]
  rfl

theorem directUses_unlined (options : ExtractOptions) (entries : List Entry) :
    (directUses options (.ofEntries entries) entries).map Entry.unlined =
      (syntheticAccesses (entries.map Entry.unlined)).flatMap (fun access =>
        ((staticCalls (entries.map Entry.unlined)).filter
          (fun call => callsMember call.reference access.reference.source)).map
          (fun call =>
            (options.record call.scope { reference := directUse access call }).unlined)) := by
  have haccesses : syntheticAccesses (entries.map Entry.unlined) =
      (syntheticAccesses entries).map Entry.unlined := by
    rw [syntheticAccesses, List.filter_map]
    rfl
  have hcalls : staticCalls (entries.map Entry.unlined) =
      (staticCalls entries).map Entry.unlined := by
    rw [staticCalls, List.filter_map]
    rfl
  rw [directUses_eq, List.map_flatMap, haccesses, hcalls]
  simp only [List.filter_map, List.map_map]
  rfl

section Fold

variable (includeLocal : Bool) {full part : Array Entry}

theorem footprints_masked (h : unlinedAll part = (unlinedAll full).map (Entry.masked kinds)) :
    part.toList.map Entry.footprint = full.toList.map Entry.footprint := by
  rw [footprints_unlined part, h, footprints_unlined full, List.map_map]
  rfl

/-- A mask does not decide which entries are folded. -/
theorem folds_masked (h : unlinedAll part = (unlinedAll full).map (Entry.masked kinds))
    {entry masked : Entry} (hentry : masked.unlined = (entry.masked kinds).unlined) :
    (AccessorTable.ofEntries part.toList).folds masked =
      (AccessorTable.ofEntries full.toList).folds entry := by
  have hfootprint := congrArg Entry.footprint hentry
  change masked.footprint = entry.footprint at hfootprint
  rw [Bool.eq_iff_iff, folds_ofEntries_iff, folds_ofEntries_iff, footprints_masked h,
    hfootprint]

theorem unlined_getElem? (h : unlinedAll part = (unlinedAll full).map (Entry.masked kinds))
    {index : Nat} {entry masked : Entry} (hentry : full.toList[index]? = some entry)
    (hmasked : part.toList[index]? = some masked) :
    masked.unlined = (entry.masked kinds).unlined := by
  have hview := congrArg (fun entries => entries[index]?) h
  simp only [unlinedAll, List.getElem?_map, hentry, hmasked, Option.map_some,
    Option.some.injEq] at hview
  rw [hview]
  rfl

theorem length_masked (h : unlinedAll part = (unlinedAll full).map (Entry.masked kinds)) :
    part.toList.length = full.toList.length := by
  have hlength := congrArg List.length h
  simpa [unlinedAll] using hlength

/-- Whatever the mask, folding leaves the entries of full extraction, lines apart. -/
theorem foldAccessors_unlined (h : unlinedAll part = (unlinedAll full).map (Entry.masked kinds)) :
    (foldAccessors ⟨includeLocal, kinds⟩ part.toList).map Entry.unlined =
      ((foldAccessors ⟨includeLocal, .all⟩ full.toList).map (Entry.masked kinds)).map
        Entry.unlined := by
  rw [foldAccessors_eq, foldAccessors_eq, List.map_append, List.map_append, List.map_append]
  congr 1
  · rw [List.map_map, List.map_map, List.map_map]
    apply map_eq_map_of_point (length_masked h)
    intro index masked entry hmasked hentry
    have hunlined := unlined_getElem? h hentry hmasked
    simp only [Function.comp, folds_masked h hunlined]
    split
    · exact congrArg Entry.hidden hunlined
    · exact hunlined
  · have hswap : ∀ entries : List Entry, (entries.map (Entry.masked kinds)).map Entry.unlined =
        (entries.map Entry.unlined).map (Entry.masked kinds) := by
      intro entries
      rw [List.map_map, List.map_map]
      rfl
    have haccesses : ∀ entries : List Entry,
        syntheticAccesses (entries.map (Entry.masked kinds)) =
          (syntheticAccesses entries).map (Entry.masked kinds) := by
      intro entries
      rw [syntheticAccesses, List.filter_map]
      rfl
    have hcalls : ∀ entries : List Entry, staticCalls (entries.map (Entry.masked kinds)) =
        (staticCalls entries).map (Entry.masked kinds) := by
      intro entries
      rw [staticCalls, List.filter_map]
      rfl
    change part.toList.map Entry.unlined = (full.toList.map Entry.unlined).map _ at h
    rw [hswap, directUses_unlined, directUses_unlined, h, haccesses, hcalls, List.map_flatMap,
      List.flatMap_map]
    simp only [List.filter_map, List.map_map, record_masked includeLocal kinds]
    rfl

/-- If the static calls are on the same lines, the direct uses are. -/
theorem directUses_masked (h : unlinedAll part = (unlinedAll full).map (Entry.masked kinds))
    (hcalls : staticCalls part.toList = (staticCalls full.toList).map (Entry.masked kinds)) :
    directUses ⟨includeLocal, kinds⟩ (.ofEntries part.toList) part.toList =
      (directUses ⟨includeLocal, .all⟩ (.ofEntries full.toList) full.toList).map
        (Entry.masked kinds) := by
  have haccesses : (syntheticAccesses part.toList).map Entry.unlined =
      ((syntheticAccesses full.toList).map Entry.unlined).map (Entry.masked kinds) := by
    have hview := congrArg syntheticAccesses h
    simp only [syntheticAccesses, unlinedAll, List.filter_map] at hview ⊢
    exact hview
  rw [directUses_eq, directUses_eq, haccesses, hcalls, List.map_flatMap, List.flatMap_map]
  simp only [List.filter_map, List.map_map, record_masked includeLocal kinds]
  rfl

/-- An entry under a quiet mask is the masked entry of full extraction, its line apart if
the mask hides it. -/
theorem EntriesAgree.getElem?_toList (h : EntriesAgree kinds full part) {index : Nat}
    {masked entry : Entry} (hmasked : part.toList[index]? = some masked)
    (hentry : full.toList[index]? = some entry) :
    masked.unlined = (entry.masked kinds).unlined ∧
      (kinds.hides entry = false → masked = entry.masked kinds) := by
  rw [Array.getElem?_toList] at hmasked hentry
  obtain ⟨hunlined, hline⟩ := h.getElem? hentry hmasked
  refine ⟨hunlined, fun hshown => ?_⟩
  have hatLine := congrArg (fun other => other.atLine masked.line) hunlined
  change masked = (entry.masked kinds).atLine masked.line at hatLine
  rw [hline hshown] at hatLine
  exact hatLine

/-- The entry as folding leaves it. -/
def AccessorTable.left (table : AccessorTable) (entry : Entry) : Entry :=
  if table.folds entry then entry.hidden else entry

theorem left_retained (h : EntriesAgree kinds full part) :
    (part.toList.map (AccessorTable.ofEntries part.toList).left).filter Entry.retained =
      ((full.toList.map (AccessorTable.ofEntries full.toList).left).filter
        Entry.retained).filter (Entry.asked kinds) := by
  rw [← filter_retained_masked, List.map_map]
  refine (filter_eq_map_filter ?_ ?_).trans (List.map_id _)
  · simp [h.size_eq]
  · intro index left right hleft hright
    rw [List.getElem?_map] at hleft hright
    obtain ⟨masked, hmasked, rfl⟩ := Option.map_eq_some_iff.mp hleft
    obtain ⟨entry, hentry, rfl⟩ := Option.map_eq_some_iff.mp hright
    obtain ⟨hunlined, hsame⟩ := h.getElem?_toList hmasked hentry
    have hretained := congrArg Entry.retained hunlined
    change masked.retained = (entry.masked kinds).retained at hretained
    simp only [Function.comp, AccessorTable.left, folds_masked h.masked hunlined]
    split
    · simp [Entry.hidden, Entry.masked]
    · refine ⟨hretained, fun hkept => hsame ?_⟩
      rw [hretained] at hkept
      simp only [Entry.masked, Bool.and_eq_true] at hkept
      simp [KindSet.hides, hkept.2]

/-- A mask that asks for direct uses leaves the static calls on their lines. -/
theorem staticCalls_masked (h : EntriesAgree kinds full part) (hasks : kinds.asksFolded = true) :
    staticCalls part.toList = (staticCalls full.toList).map (Entry.masked kinds) := by
  apply filter_eq_map_filter
  · rw [Array.length_toList, Array.length_toList, h.size_eq]
  · intro index masked entry hmasked hentry
    obtain ⟨hunlined, hsame⟩ := h.getElem?_toList hmasked hentry
    have htrail := congrArg Entry.trail hunlined
    change masked.trail = entry.trail at htrail
    refine ⟨by rw [htrail], fun hcall => hsame ?_⟩
    rw [htrail, decide_eq_true_eq] at hcall
    simp [KindSet.hides, hcall, hasks]

/-- The kinds of synthetic accesses are those of fields. -/
def AccessesFolded (entries : List Entry) : Prop :=
  ∀ entry ∈ entries, entry.trail = .syntheticAccess → entry.reference.kind ∈ foldedKinds

theorem AccessesFolded.masked (h : EntriesAgree kinds full part)
    (hfolded : AccessesFolded full.toList) : AccessesFolded part.toList := by
  intro entry hentry htrail
  have hmem : entry.footprint ∈ full.toList.map Entry.footprint := by
    rw [← footprints_masked h.masked]
    exact List.mem_map_of_mem hentry
  obtain ⟨other, hother, heq⟩ := List.mem_map.mp hmem
  have hkind : other.reference.kind = entry.reference.kind :=
    congrArg (fun footprint => footprint.identity.kind) heq
  rw [← hkind]
  exact hfolded other hother ((congrArg Footprint.trail heq).trans htrail)

/-- A mask that asks for no direct uses asks for none of those that folding adds. -/
theorem not_asked_of_mem_directUses (hasks : kinds.asksFolded = false)
    {options : ExtractOptions} {entries : List Entry} (hfolded : AccessesFolded entries)
    {use : Entry} (huse : use ∈ directUses options (.ofEntries entries) entries) :
    use.asked kinds = false := by
  obtain ⟨access, haccess, call, -, hreaches, rfl⟩ := mem_directUses.mp huse
  have hkind := hfolded access haccess hreaches.access_trail
  rw [KindSet.asksFolded, List.any_eq_false] at hasks
  simpa [Entry.asked, ExtractOptions.record, directUse, Reference.ofField] using hasks _ hkind

theorem directUses_retained (h : EntriesAgree kinds full part)
    (hfolded : AccessesFolded full.toList) :
    (directUses ⟨includeLocal, kinds⟩ (.ofEntries part.toList) part.toList).filter
        Entry.retained =
      ((directUses ⟨includeLocal, .all⟩ (.ofEntries full.toList) full.toList).filter
        Entry.retained).filter (Entry.asked kinds) := by
  cases hasks : kinds.asksFolded with
  | true =>
      rw [← filter_retained_masked,
        directUses_masked includeLocal h.masked (staticCalls_masked h hasks)]
  | false =>
      have hpart : (directUses ⟨includeLocal, kinds⟩ (.ofEntries part.toList)
          part.toList).filter Entry.retained = [] := by
        rw [List.filter_eq_nil_iff]
        intro use huse hretained
        have hkind := not_asked_of_mem_directUses hasks (hfolded.masked h) huse
        obtain ⟨access, -, call, -, -, rfl⟩ := mem_directUses.mp huse
        rw [ExtractOptions.asked_of_retained hretained] at hkind
        cases hkind
      rw [hpart, eq_comm, List.filter_eq_nil_iff]
      intro use huse
      simp [not_asked_of_mem_directUses hasks hfolded (List.mem_filter.mp huse).1]

/-- Under a quiet mask, folding leaves the delivered entries of full extraction that the
mask asks for. -/
theorem foldAccessors_retained (h : EntriesAgree kinds full part)
    (hfolded : AccessesFolded full.toList) :
    (foldAccessors ⟨includeLocal, kinds⟩ part.toList).filter Entry.retained =
      ((foldAccessors ⟨includeLocal, .all⟩ full.toList).filter Entry.retained).filter
        (Entry.asked kinds) := by
  rw [foldAccessors_eq, foldAccessors_eq, List.filter_append, List.filter_append,
    List.filter_append]
  congr 1
  · exact left_retained h
  · exact directUses_retained includeLocal h hfolded

end Fold

end Linkage
