import Linkage.Proofs.MaskedBodies
/-
Extraction of a type tree under a mask of kinds.  A mask keeps the lines of what it
delivers if it is quiet on the tree: an entry of a local or anonymous type that has
no line of its own and that the mask hides is met at one creation at most, and no
direct use takes its line from there.
-/

namespace Linkage

/-- The kinds of the direct uses that accessor calls stand for. -/
def foldedKinds : List ReferenceKind :=
  [.fieldDeclaration, .getField, .putField, .getStaticField, .putStaticField]

/-- Whether a mask asks for direct uses. -/
def KindSet.asksFolded (kinds : KindSet) : Bool := foldedKinds.any kinds.contains

/-- Whether the line of an entry does not matter under a mask: its kind is not asked for,
and no direct use takes over its line. -/
def KindSet.hides (kinds : KindSet) (entry : Entry) : Bool :=
  !kinds.contains entry.reference.kind && !(entry.trail = .staticCall && kinds.asksFolded)

/-- The entries of a local type that a mask leaves without a line where full extraction
gives them one. -/
def Entry.LeftUnplaced (kinds : KindSet) (entry : Entry) : Prop :=
  entry.retained = true ∧ entry.line < 0 ∧ kinds.contains entry.reference.kind = false

/-- Leaving out the hidden entries of a local type, which is created some times, does not
show. -/
def QuietBlock (kinds : KindSet) (creations : Nat) (block : Array Entry) : Prop :=
  ∀ entry ∈ block.toList, entry.LeftUnplaced kinds →
    entry.line = -1 ∧ creations ≤ 1 ∧ (entry.trail = .staticCall → kinds.asksFolded = false)

mutual

/-- A mask is quiet on the local and anonymous types of a tree. -/
def TypeTree.Quiet (includeLocal : Bool) (kinds : KindSet) (known : Universe) :
    TypeTree → Prop
  | .node decl nested => nested.Quiet includeLocal kinds known ∧
      ∀ child ∈ decl.children, child.kind ≠ .member →
        ∀ block, (nested.addEntries ⟨includeLocal, .all⟩ known ∅)[child.name]? = some block →
          QuietBlock kinds (decl.creations.count child.name) block

def NestedTrees.Quiet (includeLocal : Bool) (kinds : KindSet) (known : Universe) :
    NestedTrees → Prop
  | .nil => True
  | .cons _ tree rest =>
      tree.Quiet includeLocal kinds known ∧ rest.Quiet includeLocal kinds known

end

/-- The numbers of the hidden entries. -/
def hiddenIn (kinds : KindSet) (entries : Array Entry) (index : Nat) : Bool :=
  (entries[index]?.map kinds.hides).getD false

/-- The entry as a mask delivers it. -/
def Entry.masked (kinds : KindSet) (entry : Entry) : Entry :=
  { entry with retained := entry.retained && kinds.contains entry.reference.kind }

/-- Entries with and without a mask: they differ in what is delivered and in the lines of
hidden entries. -/
structure EntriesAgree (kinds : KindSet) (full part : Array Entry) : Prop where
  masked : unlinedAll part = (unlinedAll full).map (Entry.masked kinds)
  lines : AgreeOff (hiddenIn kinds full) full part

variable {kinds : KindSet}

theorem hiddenIn_lt {entries : Array Entry} {index : Nat}
    (h : hiddenIn kinds entries index = true) : index < entries.size := by
  rw [hiddenIn] at h
  cases hentry : entries[index]? with
  | none => simp [hentry] at h
  | some entry =>
      obtain ⟨hlt, -⟩ := Array.getElem?_eq_some_iff.mp hentry
      exact hlt

theorem hiddenIn_append (left right : Array Entry) (index : Nat) :
    hiddenIn kinds (left ++ right) index =
      if index < left.size then hiddenIn kinds left index
      else hiddenIn kinds right (index - left.size) := by
  simp only [hiddenIn, Array.getElem?_append]
  split <;> rfl

/-- Lines do not matter for what a mask hides. -/
theorem hiddenIn_eq_unlined (entries : Array Entry) (index : Nat) :
    hiddenIn kinds entries index = ((unlinedAll entries)[index]?.map kinds.hides).getD false := by
  simp only [hiddenIn, unlinedAll, List.getElem?_map, Array.getElem?_toList, Option.map_map]
  rfl

namespace EntriesAgree

variable {full part : Array Entry}

theorem size_eq (h : EntriesAgree kinds full part) : part.size = full.size := by
  have hlength := congrArg List.length h.masked
  simpa [unlinedAll] using hlength

theorem append (h : EntriesAgree kinds full part) {fullNew partNew : Array Entry}
    (hnew : EntriesAgree kinds fullNew partNew) :
    EntriesAgree kinds (full ++ fullNew) (part ++ partNew) := by
  refine ⟨by simp [h.masked, hnew.masked], ?_⟩
  intro index hindex
  rw [hiddenIn_append] at hindex
  rw [lineAt?_append, lineAt?_append, h.size_eq]
  split at hindex
  · rename_i hlt
    rw [if_pos hlt, if_pos hlt]
    exact h.lines index hindex
  · rename_i hlt
    rw [if_neg hlt, if_neg hlt]
    exact hnew.lines _ hindex

/-- What one entry under a mask has of the full one. -/
theorem getElem? (h : EntriesAgree kinds full part) {index : Nat} {entry masked : Entry}
    (hentry : full[index]? = some entry) (hmasked : part[index]? = some masked) :
    masked.unlined = (entry.masked kinds).unlined ∧
      (kinds.hides entry = false → masked.line = entry.line) := by
  constructor
  · have hview := congrArg (fun entries => entries[index]?) h.masked
    simp only [unlinedAll, List.getElem?_map, Array.getElem?_toList, hentry, hmasked,
      Option.map_some, Option.some.injEq] at hview
    rw [hview]
    rfl
  · intro hshown
    have hline := h.lines index (by simp [hiddenIn, hentry, hshown])
    simpa [lineAt?, hentry, hmasked] using hline.symm

end EntriesAgree

/-! Entries to be met again. -/

theorem mem_unplaced {start index : Nat} {block : Array Entry} :
    index ∈ unplaced start block ↔ ∃ entry, start ≤ index ∧
      block[index - start]? = some entry ∧ entry.retained = true ∧ entry.line < 0 := by
  simp only [unplaced, List.mem_map, List.mem_filter, Bool.and_eq_true, decide_eq_true_eq]
  constructor
  · rintro ⟨⟨entry, other⟩, ⟨hmem, hretained, hline⟩, rfl⟩
    obtain ⟨hle, hentry⟩ := List.mk_mem_zipIdx_iff_le_and_getElem?_sub.mp hmem
    rw [Array.getElem?_toList] at hentry
    exact ⟨entry, hle, hentry, hretained, hline⟩
  · rintro ⟨entry, hle, hentry, hretained, hline⟩
    rw [← Array.getElem?_toList] at hentry
    exact ⟨(entry, index), ⟨List.mk_mem_zipIdx_iff_le_and_getElem?_sub.mpr ⟨hle, hentry⟩,
      hretained, hline⟩, rfl⟩

theorem unplaced_nodup (start : Nat) (block : Array Entry) : (unplaced start block).Nodup := by
  have hsublist : (unplaced start block).Sublist
      ((block.toList.zipIdx start).map Prod.snd) := by
    exact List.filter_sublist.map Prod.snd
  rw [List.zipIdx_map_snd] at hsublist
  exact hsublist.nodup List.nodup_range'

theorem zipIdx_unplaced_filter (shown : Nat → Bool) (full part : List Entry) (start : Nat)
    (hlength : part.length = full.length)
    (hpoint : ∀ index entry masked, full[index]? = some entry → part[index]? = some masked →
      (masked.retained && decide (masked.line < 0)) =
        ((entry.retained && decide (entry.line < 0)) && shown (start + index))) :
    ((part.zipIdx start).filter (fun item => item.1.retained && item.1.line < 0)).map Prod.snd =
      (((full.zipIdx start).filter (fun item => item.1.retained && item.1.line < 0)).map
        Prod.snd).filter shown := by
  induction full generalizing part start with
  | nil =>
      rw [List.length_nil, List.length_eq_zero_iff] at hlength
      rw [hlength]
      rfl
  | cons entry rest ih =>
      cases part with
      | nil => simp at hlength
      | cons masked others =>
          have hhead := hpoint 0 entry masked rfl rfl
          have hrest := ih others (start + 1) (by simpa using hlength)
            (fun index first second hfirst hsecond => by
              have hnext := hpoint (index + 1) first second hfirst hsecond
              rwa [Nat.add_comm index 1, ← Nat.add_assoc] at hnext)
          rw [List.zipIdx_cons, List.zipIdx_cons, List.filter_cons, List.filter_cons]
          simp only [hhead, Nat.add_zero]
          cases hentry : (entry.retained && decide (entry.line < 0)) with
          | false => simpa using hrest
          | true => cases hshown : shown start <;> simp [hshown, hrest]

/-- Under a quiet mask, what a local type leaves without a line is what it leaves in full
extraction, less the hidden entries. -/
theorem EntriesAgree.unplaced_eq {full part : Array Entry} (h : EntriesAgree kinds full part)
    {creations : Nat} (hquiet : QuietBlock kinds creations full) (start : Nat) :
    unplaced start part =
      (unplaced start full).filter (fun index => !hiddenIn kinds full (index - start)) := by
  rw [unplaced]
  apply zipIdx_unplaced_filter
  · rw [Array.length_toList, Array.length_toList, h.size_eq]
  · intro index entry masked hentry hmasked
    rw [Array.getElem?_toList] at hentry hmasked
    obtain ⟨hunlined, hline⟩ := h.getElem? hentry hmasked
    have hretained : masked.retained =
        (entry.retained && kinds.contains entry.reference.kind) :=
      congrArg Entry.retained hunlined
    have hindex : hiddenIn kinds full (start + index - start) = kinds.hides entry := by
      simp [hiddenIn, hentry]
    rw [hretained, hindex]
    cases hkind : kinds.contains entry.reference.kind with
    | true =>
        have hshown : kinds.hides entry = false := by simp [KindSet.hides, hkind]
        simp [hshown, hline hshown]
    | false =>
        -- A static call whose line a direct use takes over is not left without a line.
        simp only [Bool.and_false, Bool.false_and]
        cases hleft : (entry.retained && decide (entry.line < 0)) with
        | false => rfl
        | true =>
            simp only [Bool.and_eq_true, decide_eq_true_eq] at hleft
            have hmem : entry ∈ full.toList :=
              List.mem_of_getElem? (by rw [Array.getElem?_toList]; exact hentry)
            obtain ⟨-, -, hcall⟩ := hquiet entry hmem ⟨hleft.1, hleft.2, hkind⟩
            have hhides : kinds.hides entry = true := by
              by_cases htrail : entry.trail = .staticCall
              · simp [KindSet.hides, hkind, htrail, hcall htrail]
              · simp [KindSet.hides, hkind, htrail]
            simp [hhides]

/-! Nested types. -/

/-- What the entries to be met again in a type have in common; hidden ones have no line yet
and are met at one creation at most. -/
structure LocalsQuiet (kinds : KindSet) (creations : List String) (entries : Array Entry)
    (localTypes : LocalTypes) : Prop where
  below : ∀ name, ∀ index ∈ localTypes.getD name [], index < entries.size
  once : ∀ name, (localTypes.getD name []).Nodup
  apart : ∀ name other index, index ∈ localTypes.getD name [] →
    index ∈ localTypes.getD other [] → name = other
  quiet : ∀ name, ∀ index ∈ localTypes.getD name [], hiddenIn kinds entries index = true →
    lineAt? entries index = some (-1) ∧ creations.count name ≤ 1

theorem getD_insert_localTypes (localTypes : LocalTypes) (name other : String)
    (indices : List Nat) :
    (localTypes.insert name indices).getD other [] =
      if name = other then indices else localTypes.getD other [] := by
  rw [Std.TreeMap.getD_insert]
  simp only [Std.LawfulEqCmp.compare_eq_iff_eq]

namespace LocalsQuiet

variable {creations : List String} {entries : Array Entry} {localTypes : LocalTypes}

theorem append (h : LocalsQuiet kinds creations entries localTypes) (block : Array Entry) :
    LocalsQuiet kinds creations (entries ++ block) localTypes := by
  refine ⟨?_, h.once, h.apart, ?_⟩
  · intro name index hindex
    have hlt := h.below name index hindex
    rw [Array.size_append]
    omega
  · intro name index hindex hhidden
    have hlt := h.below name index hindex
    rw [hiddenIn_append, if_pos hlt] at hhidden
    rw [lineAt?_append, if_pos hlt]
    exact h.quiet name index hindex hhidden

theorem insert (h : LocalsQuiet kinds creations entries localTypes) {name : String}
    {block : Array Entry} (hquiet : QuietBlock kinds (creations.count name) block) :
    LocalsQuiet kinds creations (entries ++ block)
      (localTypes.insert name (unplaced entries.size block)) := by
  have hbefore := h.append block
  -- New numbers lie above the old ones, so that no entry is left by two types.
  have hnew : ∀ index ∈ unplaced entries.size block, entries.size ≤ index := by
    intro index hindex
    obtain ⟨entry, hle, -⟩ := mem_unplaced.mp hindex
    exact hle
  refine ⟨?_, ?_, ?_, ?_⟩
  · intro other index hindex
    rw [getD_insert_localTypes] at hindex
    split at hindex
    · obtain ⟨entry, hle, hentry, -⟩ := mem_unplaced.mp hindex
      obtain ⟨hlt, -⟩ := Array.getElem?_eq_some_iff.mp hentry
      rw [Array.size_append]
      omega
    · exact hbefore.below other index hindex
  · intro other
    rw [getD_insert_localTypes]
    split
    · exact unplaced_nodup entries.size block
    · exact h.once other
  · intro first second index hfirst hsecond
    rw [getD_insert_localTypes] at hfirst hsecond
    split at hfirst
    · rename_i hname
      split at hsecond
      · rename_i hother
        exact hname.symm.trans hother
      · have hle := hnew index hfirst
        have hlt := h.below second index hsecond
        omega
    · split at hsecond
      · have hle := hnew index hsecond
        have hlt := h.below first index hfirst
        omega
      · exact h.apart first second index hfirst hsecond
  · intro other index hindex hhidden
    rw [getD_insert_localTypes] at hindex
    split at hindex
    · rename_i hname
      obtain ⟨entry, hle, hentry, hretained, hline⟩ := mem_unplaced.mp hindex
      have hlt : ¬ index < entries.size := by omega
      rw [hiddenIn_append, if_neg hlt] at hhidden
      have hhides : kinds.hides entry = true := by simpa [hiddenIn, hentry] using hhidden
      simp only [KindSet.hides, Bool.and_eq_true, Bool.not_eq_true'] at hhides
      have hmem : entry ∈ block.toList :=
        List.mem_of_getElem? (by rw [Array.getElem?_toList]; exact hentry)
      obtain ⟨hfresh, hcount, -⟩ := hquiet entry hmem ⟨hretained, hline, hhides.1⟩
      rw [lineAt?_append, if_neg hlt, ← hname]
      exact ⟨by simp [lineAt?, hentry, hfresh], hcount⟩
    · exact hbefore.quiet other index hindex hhidden

/-- The hidden entries that creations meet are met once. -/
theorem nodup_hiddenCreated (h : LocalsQuiet kinds creations entries localTypes)
    {names : List String} (hcount : ∀ name, names.count name ≤ creations.count name) :
    (hiddenCreated (hiddenIn kinds entries) localTypes names).Nodup := by
  -- An entry met at the first name and again later would belong to a type created twice.
  induction names with
  | nil => simp [hiddenCreated]
  | cons name rest ih =>
      have hrest := ih (fun other =>
        Nat.le_trans (List.count_le_count_cons) (hcount other))
      have hcons : hiddenCreated (hiddenIn kinds entries) localTypes (name :: rest) =
          (localTypes.getD name []).filter (hiddenIn kinds entries) ++
            hiddenCreated (hiddenIn kinds entries) localTypes rest := by
        simp [hiddenCreated]
      rw [hcons, List.nodup_append]
      refine ⟨(h.once name).filter _, hrest, ?_⟩
      rintro index hfirst other hsecond rfl
      obtain ⟨hindex, hhidden⟩ := List.mem_filter.mp hfirst
      obtain ⟨second, hmem, hsecond⟩ := List.mem_flatMap.mp hsecond
      have hsame := h.apart name second index hindex (List.mem_filter.mp hsecond).1
      rw [← hsame] at hmem
      have hpositive := List.count_pos_iff.mpr hmem
      have htotal := hcount name
      rw [List.count_cons_self] at htotal
      have honce := (h.quiet name index hindex hhidden).2
      omega

end LocalsQuiet

/-- Where the entries of nested types stand with and without a mask. -/
structure ChildrenAgree (kinds : KindSet) (creations : List String) (full part : TypeEntries) :
    Prop where
  entries : EntriesAgree kinds full.entries part.entries
  hides : full.localTypes.Hides (hiddenIn kinds full.entries) part.localTypes
  quiet : LocalsQuiet kinds creations full.entries full.localTypes

namespace ChildrenAgree

variable {creations : List String} {full part : TypeEntries}

theorem hides_append (h : ChildrenAgree kinds creations full part) (block : Array Entry) :
    full.localTypes.Hides (hiddenIn kinds (full.entries ++ block)) part.localTypes := by
  intro name
  rw [h.hides name]
  apply List.filter_congr
  intro index hindex
  rw [hiddenIn_append, if_pos (h.quiet.below name index hindex)]

/-- One more nested type keeps the agreement. -/
theorem addChild (h : ChildrenAgree kinds creations full part)
    {fullBlocks partBlocks : NestedEntries} {child : ChildType}
    (hblocks : Option.Rel (EntriesAgree kinds) fullBlocks[child.name]? partBlocks[child.name]?)
    (hquiet : child.kind ≠ .member → ∀ block, fullBlocks[child.name]? = some block →
      QuietBlock kinds (creations.count child.name) block) :
    ChildrenAgree kinds creations (full.addChild fullBlocks child)
      (part.addChild partBlocks child) := by
  unfold TypeEntries.addChild
  cases hfull : fullBlocks[child.name]? with
  | none =>
      rw [hfull] at hblocks
      cases hpart : partBlocks[child.name]? with
      | none => exact h
      | some block =>
          rw [hpart] at hblocks
          cases hblocks
  | some fullBlock =>
      rw [hfull] at hblocks
      cases hpart : partBlocks[child.name]? with
      | none =>
          rw [hpart] at hblocks
          cases hblocks
      | some partBlock =>
          rw [hpart] at hblocks
          cases hblocks with
          | some hblock =>
              have hentries := h.entries.append hblock
              by_cases hmember : child.kind = .member
              · simp only [hmember, if_true]
                exact ⟨hentries, h.hides_append fullBlock, h.quiet.append fullBlock⟩
              · have hblockQuiet := hquiet hmember fullBlock hfull
                have hstart : ∀ (entries block : Array Entry),
                    (entries ++ block).size - block.size = entries.size := by
                  intro entries block
                  rw [Array.size_append]
                  omega
                simp only [hmember, if_false, hstart, h.entries.size_eq]
                refine ⟨hentries, ?_, h.quiet.insert hblockQuiet⟩
                intro name
                rw [getD_insert_localTypes, getD_insert_localTypes]
                split
                · rw [hblock.unplaced_eq hblockQuiet]
                  apply List.filter_congr
                  intro index hindex
                  obtain ⟨entry, hle, -⟩ := mem_unplaced.mp hindex
                  rw [hiddenIn_append, if_neg (by omega)]
                · exact h.hides_append fullBlock name

theorem foldl_addChild (h : ChildrenAgree kinds creations full part)
    {fullBlocks partBlocks : NestedEntries}
    (hblocks : ∀ name : String,
      Option.Rel (EntriesAgree kinds) fullBlocks[name]? partBlocks[name]?)
    {children : List ChildType}
    (hquiet : ∀ child ∈ children, child.kind ≠ .member →
      ∀ block, fullBlocks[child.name]? = some block →
        QuietBlock kinds (creations.count child.name) block) :
    ChildrenAgree kinds creations (children.foldl (TypeEntries.addChild fullBlocks) full)
      (children.foldl (TypeEntries.addChild partBlocks) part) := by
  induction children generalizing full part with
  | nil => exact h
  | cons child rest ih =>
      refine ih (h.addChild (hblocks child.name) (hquiet child List.mem_cons_self)) ?_
      exact fun other hother => hquiet other (List.mem_cons_of_mem child hother)

end ChildrenAgree

theorem record_masked (includeLocal : Bool) (kinds : KindSet) (scope : Scope) (draft : Draft) :
    ExtractOptions.record ⟨includeLocal, kinds⟩ scope draft =
      (ExtractOptions.record ⟨includeLocal, .all⟩ scope draft).masked kinds := by
  have hretained : ExtractOptions.considers ⟨includeLocal, kinds⟩ scope draft.reference =
      (ExtractOptions.considers ⟨includeLocal, .all⟩ scope draft.reference
        && kinds.contains draft.reference.kind) := by
    simp only [ExtractOptions.considers, KindSet.contains_all, Bool.true_and]
    exact Bool.and_comm _ _
  unfold ExtractOptions.record Entry.masked
  rw [hretained]

theorem Record.unlined_masked (includeLocal : Bool) (kinds : KindSet) (record : Record) :
    record.unlined ⟨includeLocal, kinds⟩ =
      (record.unlined ⟨includeLocal, .all⟩).masked kinds := by
  rw [Record.unlined, ExtractOptions.unlined]
  rw [record_masked]
  rfl

theorem EntriesAgree.records (includeLocal : Bool) (scope : Scope) (drafts : List Draft) :
    EntriesAgree kinds (drafts.map (ExtractOptions.record ⟨includeLocal, .all⟩ scope)).toArray
      (drafts.map (ExtractOptions.record ⟨includeLocal, kinds⟩ scope)).toArray := by
  constructor
  · simp only [unlinedAll, List.map_map]
    apply List.map_congr_left
    intro draft _
    exact Record.unlined_masked includeLocal kinds ⟨scope, draft⟩
  · exact fun index _ => lineAt?_records _ _ scope drafts index

theorem exists_headerEntries {options : ExtractOptions} {type : TypeSite} {entries : List Entry}
    (h : headerEntries options type = .ok entries) :
    ∃ drafts, type.headerDrafts = .ok drafts ∧
      entries = drafts.map (options.record type.scope) := by
  obtain ⟨header, hheader, h⟩ := bind_pure_eq_ok h
  refine ⟨_, by rw [TypeSite.headerDrafts, hheader]; rfl, ?_⟩
  rw [← h, List.map_map]
  rfl

theorem exists_addFields {options : ExtractOptions} {type : TypeSite}
    {entries next : Array Entry}
    (h : type.decl.fields.foldlM (addField options type) entries = .ok next) :
    ∃ fields, type.fieldsDrafts = .ok fields ∧
      next = entries ++ (fields.flatten.map (options.record type.scope)).toArray := by
  have hview := foldlM_view Array.toList (options.record type.scope) (addField options type)
    (fun field => (type.fieldDrafts field).mapError (.field field.name))
    (fun state field => by
      rw [addField]
      cases type.fieldDrafts field with
      | error error => rfl
      | ok drafts => simp [bind, Except.bind, pure, Except.pure, Except.map])
    type.decl.fields entries
  rw [h] at hview
  obtain ⟨fields, hfields, hnext⟩ := map_eq_ok hview.symm
  refine ⟨fields, hfields, ?_⟩
  apply Array.ext'
  simp [← hnext]

theorem hiddenIn_of_unlined_append {before after : Array Entry} {rest : List Entry}
    (h : unlinedAll after = unlinedAll before ++ rest) {index : Nat}
    (hindex : hiddenIn kinds before index = true) : hiddenIn kinds after index = true := by
  have hlt : index < (unlinedAll before).length := by
    simpa [unlinedAll] using hiddenIn_lt hindex
  rw [hiddenIn_eq_unlined] at hindex ⊢
  rw [h, List.getElem?_append_left hlt, hindex]

/-- Fields and methods keep the agreement of header and nested types. -/
theorem ChildrenAgree.members (includeLocal : Bool) {type : TypeSite} {full part : TypeEntries}
    (h : ChildrenAgree kinds type.decl.creations full part)
    {fullFields partFields fullNext partNext : Array Entry}
    (hfullFields : type.decl.fields.foldlM (addField ⟨includeLocal, .all⟩ type) full.entries =
      .ok fullFields)
    (hpartFields : type.decl.fields.foldlM (addField ⟨includeLocal, kinds⟩ type) part.entries =
      .ok partFields)
    (hfull : addMethods ⟨includeLocal, .all⟩ type full.localTypes type.decl.methods fullFields =
      .ok fullNext)
    (hpart : addMethods ⟨includeLocal, kinds⟩ type part.localTypes type.decl.methods partFields =
      .ok partNext) :
    AgreeOff (hiddenIn kinds fullNext) fullNext partNext := by
  obtain ⟨fields, hfields, rfl⟩ := exists_addFields hfullFields
  obtain ⟨same, hsame, rfl⟩ := exists_addFields hpartFields
  rw [hfields, Except.ok.injEq] at hsame
  subst hsame
  have hdeclared := h.entries.append (.records includeLocal type.scope fields.flatten)
  have hquiet := h.quiet.append
    (fields.flatten.map (ExtractOptions.record ⟨includeLocal, .all⟩ type.scope)).toArray
  have hrun := addMethods_agree (fun index => hiddenIn_lt) ⟨includeLocal, .all⟩
    ⟨includeLocal, kinds⟩ (h.hides_append _) ⟨Nat.le_refl _, hdeclared.size_eq, hdeclared.lines⟩
    (hquiet.nodup_hiddenCreated (fun name => Nat.le_refl _))
    (fun index hindex => by
      obtain ⟨name, -, hmem⟩ := List.mem_flatMap.mp hindex
      obtain ⟨hlisted, hhidden⟩ := List.mem_filter.mp hmem
      exact (hquiet.quiet name index hlisted hhidden).1) hfull hpart
  have hview := addMethods_unlined ⟨includeLocal, .all⟩ type full.localTypes
    (full.entries ++
      (fields.flatten.map (ExtractOptions.record ⟨includeLocal, .all⟩ type.scope)).toArray)
  rw [hfull] at hview
  obtain ⟨methods, -, hnext⟩ := map_eq_ok hview.symm
  intro index hindex
  apply hrun.lines
  rw [← Bool.not_eq_true] at hindex ⊢
  exact fun hhidden => hindex (hiddenIn_of_unlined_append hnext.symm hhidden)

variable (includeLocal : Bool) (known : Universe)

theorem TypeTree.entries_masked {tree : TypeTree} {full part : Array Entry}
    (hfull : tree.entries ⟨includeLocal, .all⟩ known = .ok full)
    (hpart : tree.entries ⟨includeLocal, kinds⟩ known = .ok part) :
    unlinedAll part = (unlinedAll full).map (Entry.masked kinds) := by
  have hfullView := TypeTree.entries_unlined ⟨includeLocal, .all⟩ known tree
  have hpartView := TypeTree.entries_unlined ⟨includeLocal, kinds⟩ known tree
  rw [hfull] at hfullView
  rw [hpart] at hpartView
  obtain ⟨found, hfound, hfullFound⟩ := map_eq_ok hfullView.symm
  rw [hfound] at hpartView
  simp only [Except.map, Except.ok.injEq] at hpartView
  rw [hpartView, ← hfullFound, List.map_map]
  apply List.map_congr_left
  intro record _
  exact Record.unlined_masked includeLocal kinds record

/-- A mask does not decide whether a tree can be read. -/
theorem TypeTree.entries_outcome (kinds : KindSet) (tree : TypeTree) :
    (tree.entries ⟨includeLocal, kinds⟩ known).map (fun _ => ()) =
      (tree.entries ⟨includeLocal, .all⟩ known).map (fun _ => ()) := by
  have hoptions : ∀ options : ExtractOptions,
      (tree.entries options known).map (fun _ => ()) =
        (tree.records known).map (fun _ => ()) := by
    intro options
    have hview := congrArg (Except.map (fun _ => ())) (TypeTree.entries_unlined options known tree)
    cases hentries : tree.entries options known <;> cases hfound : tree.records known <;>
      simp_all [Except.map]
  rw [hoptions, hoptions]

mutual

/-- Under a quiet mask a tree has the entries of full extraction, hidden ones apart on the
same lines. -/
theorem TypeTree.entries_agree (kinds : KindSet) : (tree : TypeTree) →
    tree.Quiet includeLocal kinds known → (full part : Array Entry) →
    tree.entries ⟨includeLocal, .all⟩ known = .ok full →
    tree.entries ⟨includeLocal, kinds⟩ known = .ok part → EntriesAgree kinds full part
  | .node decl nested => by
      intro hquiet full part hfull hpart
      refine ⟨TypeTree.entries_masked includeLocal known hfull hpart, ?_⟩
      rw [TypeTree.Quiet] at hquiet
      obtain ⟨hnested, hchildren⟩ := hquiet
      rw [TypeTree.entries] at hfull hpart
      obtain ⟨fullHeader, hfullHeader, hfull⟩ := bind_eq_ok hfull
      obtain ⟨partHeader, hpartHeader, hpart⟩ := bind_eq_ok hpart
      obtain ⟨header, hheader, rfl⟩ := exists_headerEntries hfullHeader
      obtain ⟨same, hsame, rfl⟩ := exists_headerEntries hpartHeader
      rw [hheader, Except.ok.injEq] at hsame
      subst hsame
      obtain ⟨fullFields, hfullFields, hfull⟩ := bind_eq_ok hfull
      obtain ⟨partFields, hpartFields, hpart⟩ := bind_eq_ok hpart
      have hstart : ChildrenAgree kinds decl.creations
          { entries := (header.map (ExtractOptions.record ⟨includeLocal, .all⟩
              (TypeSite.of known decl).scope)).toArray }
          { entries := (header.map (ExtractOptions.record ⟨includeLocal, kinds⟩
              (TypeSite.of known decl).scope)).toArray } :=
        ⟨.records includeLocal _ header, fun name => by simp,
          ⟨by simp, by simp, by simp, by simp⟩⟩
      have hinner := hstart.foldl_addChild
        (NestedTrees.addEntries_agree kinds nested hnested ∅ ∅ (fun name => by simp)) hchildren
      exact hinner.members includeLocal hfullFields hpartFields hfull hpart

theorem NestedTrees.addEntries_agree (kinds : KindSet) : (nested : NestedTrees) →
    nested.Quiet includeLocal kinds known → (fullBefore partBefore : NestedEntries) →
    (∀ name : String, Option.Rel (EntriesAgree kinds) fullBefore[name]? partBefore[name]?) →
    ∀ name : String, Option.Rel (EntriesAgree kinds)
      (nested.addEntries ⟨includeLocal, .all⟩ known fullBefore)[name]?
      (nested.addEntries ⟨includeLocal, kinds⟩ known partBefore)[name]?
  | .nil => by
      intro _ fullBefore partBefore hbefore
      simpa [NestedTrees.addEntries] using hbefore
  | .cons other tree rest => by
      intro hquiet fullBefore partBefore hbefore
      rw [NestedTrees.Quiet] at hquiet
      have houtcome := TypeTree.entries_outcome includeLocal known kinds tree
      rw [NestedTrees.addEntries, NestedTrees.addEntries]
      cases hfull : tree.entries ⟨includeLocal, .all⟩ known with
      | error error =>
          rw [hfull] at houtcome
          rw [map_eq_error houtcome]
          exact NestedTrees.addEntries_agree kinds rest hquiet.2 _ _ hbefore
      | ok full =>
          rw [hfull] at houtcome
          obtain ⟨part, hpart, -⟩ := map_eq_ok houtcome
          rw [hpart]
          refine NestedTrees.addEntries_agree kinds rest hquiet.2 _ _ fun name => ?_
          rw [Std.HashMap.getElem?_insert, Std.HashMap.getElem?_insert]
          split
          · exact .some (TypeTree.entries_agree kinds tree hquiet.1 full part hfull hpart)
          · exact hbefore name

end

end Linkage
