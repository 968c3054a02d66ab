import Linkage.Proofs.Records
import Mathlib.Data.List.Basic
import Mathlib.Data.List.TakeWhile
/-
Timelines of method bodies.  Labels and instructions are met in the order of their
offsets, a label before the instruction at its own.  So the labels that a walk has met at
an instruction are those up to its offset, and the line of the last of them that has one is
the line that the line table gives to the instruction.
-/

namespace Linkage

/-! The order of a timeline. -/

/-- What a timeline ascends by: even for labels and odd for instructions, so that a label
comes before the instruction at its offset. -/
def Moment.rank : Moment → Nat
  | .label pc => 2 * pc
  | .run instruction => 2 * instruction.offset + 1

@[simp] theorem Moment.rank_label (pc : Nat) : (Moment.label pc).rank = 2 * pc := rfl

@[simp] theorem Moment.rank_run (instruction : Instruction) :
    (Moment.run instruction).rank = 2 * instruction.offset + 1 := rfl

/-- The offset of a label. -/
def Moment.label? : Moment → Option Nat
  | .label pc => some pc
  | .run _ => none

/-- The offsets of instructions ascend. -/
def Code.OffsetsAscend (code : Code) : Prop :=
  code.instructions.Pairwise (fun left right => left.offset < right.offset)

theorem Code.labels_ascending (code : Code) : code.labels.Pairwise (· < ·) := by
  have hordered := Std.TreeSet.ordered_toList (t := Std.TreeSet.ofList code.labelOffsets)
  exact hordered.imp (fun h => Nat.compare_eq_lt.mp h)

theorem mergeLabels_labels (merged : Array Moment) (labels : List Nat)
    (instructions : List Instruction) :
    (mergeLabels merged labels instructions).toList.filterMap Moment.label? =
      merged.toList.filterMap Moment.label? ++ labels := by
  induction instructions generalizing merged labels with
  | nil => simp [mergeLabels, Moment.label?, Function.comp_def]
  | cons instruction rest ih =>
      rw [mergeLabels, ih]
      simp [Moment.label?, Function.comp_def, List.filterMap_cons]

/-- A timeline has the labels of its body in order. -/
theorem Code.timeline_labels (code : Code) :
    code.timeline.toList.filterMap Moment.label? = code.labels := by
  simp [Code.timeline, mergeLabels_labels]

theorem lt_of_mem_dropWhile {labels : List Nat} (hlabels : labels.Pairwise (· < ·))
    {offset label : Nat} (h : label ∈ labels.dropWhile (· ≤ offset)) : offset < label := by
  induction labels with
  | nil => simp at h
  | cons first rest ih =>
      rw [List.pairwise_cons] at hlabels
      rw [List.dropWhile_cons] at h
      split at h
      · exact ih hlabels.2 h
      · rename_i hfirst
        have hlater : first ≤ label := by
          rcases List.mem_cons.mp h with rfl | hmem
          · exact Nat.le_refl _
          · exact Nat.le_of_lt (hlabels.1 label hmem)
        simp only [decide_eq_true_eq, Nat.not_le] at hfirst
        omega

/-- The moments after one more instruction: those before, the labels up to it, and itself. -/
def mergeRun (merged : Array Moment) (labels : List Nat) (instruction : Instruction) :
    Array Moment :=
  (merged ++ (labels.takeWhile (· ≤ instruction.offset)).map Moment.label).push
    (.run instruction)

section MergeRun
variable {merged : Array Moment} {labels : List Nat} {instruction : Instruction}

theorem toList_mergeRun : (mergeRun merged labels instruction).toList =
    merged.toList ++ (labels.takeWhile (· ≤ instruction.offset)).map Moment.label ++
      [.run instruction] := by
  simp [mergeRun]

theorem le_of_mem_takeWhile {label : Nat}
    (h : label ∈ labels.takeWhile (· ≤ instruction.offset)) : label ≤ instruction.offset := by
  simpa using List.mem_takeWhile_imp h

theorem rank_of_mem_mergeRun (labels : List Nat)
    (h : ∀ moment ∈ merged.toList, moment.rank < 2 * instruction.offset + 1) :
    ∀ moment ∈ (mergeRun merged labels instruction).toList,
      moment.rank < 2 * instruction.offset + 2 := by
  intro moment hmoment
  rw [toList_mergeRun, List.mem_append, List.mem_append, List.mem_singleton] at hmoment
  rcases hmoment with (hmem | hlabel) | rfl
  · have hrank := h moment hmem
    omega
  · obtain ⟨label, htaken, rfl⟩ := List.mem_map.mp hlabel
    have hle := le_of_mem_takeWhile htaken
    simp only [Moment.rank]
    omega
  · simp [Moment.rank]

theorem mergeRun_ascends (hlabels : labels.Pairwise (· < ·))
    (hmerged : merged.toList.Pairwise (fun left right => left.rank < right.rank))
    (hbefore : ∀ moment ∈ merged.toList, ∀ label ∈ labels, moment.rank < 2 * label)
    (h : ∀ moment ∈ merged.toList, moment.rank < 2 * instruction.offset + 1) :
    (mergeRun merged labels instruction).toList.Pairwise
      (fun left right => left.rank < right.rank) := by
  rw [toList_mergeRun, List.pairwise_append, List.pairwise_append, List.pairwise_map]
  refine ⟨⟨hmerged, ?_, ?_⟩, List.pairwise_singleton _ _, ?_⟩
  · refine (hlabels.sublist (List.takeWhile_sublist _)).imp (fun hlt => ?_)
    simp only [Moment.rank]
    omega
  · rintro moment hmoment next hnext
    obtain ⟨label, hlabel, rfl⟩ := List.mem_map.mp hnext
    exact hbefore moment hmoment label ((List.takeWhile_sublist _).subset hlabel)
  · rintro moment hmoment next hnext
    rw [List.mem_singleton] at hnext
    subst hnext
    rcases List.mem_append.mp hmoment with hmem | hmem
    · exact h moment hmem
    · obtain ⟨label, hlabel, rfl⟩ := List.mem_map.mp hmem
      have hle := le_of_mem_takeWhile hlabel
      simp only [Moment.rank]
      omega

end MergeRun

theorem mergeLabels_ascends {merged : Array Moment} {labels : List Nat}
    {instructions : List Instruction} (hlabels : labels.Pairwise (· < ·))
    (hinstructions : instructions.Pairwise (fun left right => left.offset < right.offset))
    (hmerged : merged.toList.Pairwise (fun left right => left.rank < right.rank))
    (hbefore : ∀ moment ∈ merged.toList, ∀ label ∈ labels, moment.rank < 2 * label)
    (hearlier : ∀ moment ∈ merged.toList, ∀ instruction ∈ instructions,
      moment.rank < 2 * instruction.offset + 1) :
    (mergeLabels merged labels instructions).toList.Pairwise
      (fun left right => left.rank < right.rank) := by
  induction instructions generalizing merged labels with
  | nil =>
      rw [mergeLabels, Array.toList_appendList, List.pairwise_append]
      refine ⟨hmerged, ?_, ?_⟩
      · rw [List.pairwise_map]
        exact hlabels.imp (fun h => by simp only [Moment.rank]; omega)
      · rintro moment hmoment next hnext
        obtain ⟨label, hlabel, rfl⟩ := List.mem_map.mp hnext
        exact hbefore moment hmoment label hlabel
  | cons instruction rest ih =>
      rw [List.pairwise_cons] at hinstructions
      have hnext : ∀ moment ∈ merged.toList, moment.rank < 2 * instruction.offset + 1 :=
        fun moment hmem => hearlier moment hmem instruction List.mem_cons_self
      have hmet := rank_of_mem_mergeRun labels hnext
      rw [mergeLabels]
      -- What is left starts after the instruction: the labels dropped and the later offsets.
      refine ih (hlabels.sublist (List.dropWhile_sublist _)) hinstructions.2
        (mergeRun_ascends hlabels hmerged hbefore hnext) ?_ ?_
      · intro moment hmoment label hlabel
        have hrank := hmet moment hmoment
        have hlater := lt_of_mem_dropWhile hlabels hlabel
        omega
      · intro moment hmoment later hlater
        have hrank := hmet moment hmoment
        have hoffset := hinstructions.1 later hlater
        omega

/-- The timeline of a body ascends. -/
theorem Code.timeline_ascends {code : Code} (h : code.OffsetsAscend) :
    code.timeline.toList.Pairwise (fun left right => left.rank < right.rank) :=
  mergeLabels_ascends code.labels_ascending h (by simp) (by simp) (by simp)

section Split
variable {code : Code} (h : code.OffsetsAscend) {before after : List Moment} {moment : Moment}
include h

/-- What a walk has met before a moment are the moments of a lower rank. -/
theorem Code.filter_rank_eq (hsplit : code.timeline.toList = before ++ moment :: after) :
    code.timeline.toList.filter (fun other => other.rank < moment.rank) = before := by
  have hordered := code.timeline_ascends h
  rw [hsplit, List.pairwise_append, List.pairwise_cons] at hordered
  obtain ⟨-, ⟨hafter, -⟩, hbefore⟩ := hordered
  have hkept : before.filter (fun other => other.rank < moment.rank) = before :=
    List.filter_eq_self.mpr fun other hother => by
      simpa using hbefore other hother moment List.mem_cons_self
  have hnone : (moment :: after).filter (fun other => other.rank < moment.rank) = [] := by
    refine List.filter_eq_nil_iff.mpr fun other hother => ?_
    rcases List.mem_cons.mp hother with rfl | hmem
    · simp
    · have := hafter other hmem
      simp only [decide_eq_true_eq]
      omega
  rw [hsplit, List.filter_append, hkept, hnone, List.append_nil]

theorem Code.labels_before (hsplit : code.timeline.toList = before ++ moment :: after) :
    before.filterMap Moment.label? = code.labels.filter (fun label => 2 * label < moment.rank) := by
  rw [← code.filter_rank_eq h hsplit, ← code.timeline_labels, List.filterMap_filter,
    List.filter_filterMap]
  refine List.filterMap_congr fun other _ => ?_
  cases other with
  | label pc =>
      by_cases hrank : 2 * pc < moment.rank <;> simp [Moment.label?, Option.filter_some, hrank]
  | run instruction => split <;> rfl

theorem Code.instructions_before (hsplit : code.timeline.toList = before ++ moment :: after) :
    before.filterMap Moment.instruction? =
      code.instructions.filter (fun other => 2 * other.offset + 1 < moment.rank) := by
  rw [← code.filter_rank_eq h hsplit, ← code.timeline_instructions, List.filterMap_filter,
    List.filter_filterMap]
  refine List.filterMap_congr fun other _ => ?_
  cases other with
  | label pc => split <;> rfl
  | run instruction =>
      by_cases hrank : 2 * instruction.offset + 1 < moment.rank <;>
        simp [Moment.instruction?, Option.filter_some, hrank]

theorem Code.labels_before_label {pc : Nat}
    (hsplit : code.timeline.toList = before ++ .label pc :: after) :
    before.filterMap Moment.label? = code.labels.filter (· < pc) := by
  rw [code.labels_before h hsplit]
  refine List.filter_congr fun label _ => ?_
  rw [decide_eq_decide, Moment.rank_label]
  omega

theorem Code.labels_before_run {instruction : Instruction}
    (hsplit : code.timeline.toList = before ++ .run instruction :: after) :
    before.filterMap Moment.label? = code.labels.filter (· ≤ instruction.offset) := by
  rw [code.labels_before h hsplit]
  refine List.filter_congr fun label _ => ?_
  rw [decide_eq_decide, Moment.rank_run]
  omega

theorem Code.instructions_before_label {pc : Nat}
    (hsplit : code.timeline.toList = before ++ .label pc :: after) :
    before.filterMap Moment.instruction? =
      code.instructions.filter (fun other => other.offset < pc) := by
  rw [code.instructions_before h hsplit]
  refine List.filter_congr fun other _ => ?_
  rw [decide_eq_decide, Moment.rank_label]
  omega

end Split

/-! The line that holds at an offset. -/

/-- The line entry that holds at an offset: of those that start no later the one that starts
last, and of several that start there the last. -/
def entryHolding? (pc : Nat) : List LineEntry → Option LineEntry
  | [] => none
  | entry :: rest =>
      match entryHolding? pc rest with
      | some later =>
          if entry.startPc ≤ pc ∧ later.startPc < entry.startPc then some entry else some later
      | none => if entry.startPc ≤ pc then some entry else none

/-- The line that holds at an offset. -/
def lineHolding? (lines : List LineEntry) (pc : Nat) : Option Nat :=
  (entryHolding? pc lines).map LineEntry.line

/-- What it is for an entry to hold at an offset. -/
structure HoldsAt (lines : List LineEntry) (pc : Nat) (entry : LineEntry) : Prop where
  starts : entry.startPc ≤ pc
  latest : ∀ other ∈ lines, other.startPc ≤ pc → other.startPc ≤ entry.startPc
  last : ∃ before after, lines = before ++ entry :: after ∧
    ∀ other ∈ after, other.startPc ≠ entry.startPc

theorem HoldsAt.mem {lines : List LineEntry} {pc : Nat} {entry : LineEntry}
    (h : HoldsAt lines pc entry) : entry ∈ lines := by
  obtain ⟨before, after, rfl, -⟩ := h.last
  simp

theorem entryHolding?_eq_none {lines : List LineEntry} {pc : Nat}
    (h : entryHolding? pc lines = none) : ∀ entry ∈ lines, pc < entry.startPc := by
  induction lines with
  | nil => simp
  | cons entry rest ih =>
      rw [entryHolding?] at h
      cases hrest : entryHolding? pc rest with
      | some later =>
          rw [hrest] at h
          simp only at h
          split at h <;> cases h
      | none =>
          simp only [hrest] at h
          split at h
          · cases h
          · rename_i hentry
            exact List.forall_mem_cons.mpr ⟨by omega, ih hrest⟩

theorem holdsAt_of_entryHolding? {lines : List LineEntry} {pc : Nat} {entry : LineEntry}
    (h : entryHolding? pc lines = some entry) : HoldsAt lines pc entry := by
  induction lines generalizing entry with
  | nil => cases h
  | cons first rest ih =>
      rw [entryHolding?] at h
      cases hrest : entryHolding? pc rest with
      | none =>
          simp only [hrest] at h
          split at h
          · rename_i hfirst
            cases h
            have hlater := entryHolding?_eq_none hrest
            refine ⟨hfirst, List.forall_mem_cons.mpr ⟨fun _ => Nat.le_refl _, fun other hother _ =>
              ?_⟩, [], rest, rfl, fun other hother => ?_⟩
            · have := hlater other hother
              omega
            · have := hlater other hother
              omega
          · cases h
      | some later =>
          have hlater := ih hrest
          simp only [hrest] at h
          split at h
          · rename_i hfirst
            cases h
            have hbelow : ∀ other ∈ rest, other.startPc ≤ pc → other.startPc < first.startPc :=
              fun other hother hpc => Nat.lt_of_le_of_lt (hlater.latest other hother hpc) hfirst.2
            refine ⟨hfirst.1, List.forall_mem_cons.mpr ⟨fun _ => Nat.le_refl _,
              fun other hother hpc => Nat.le_of_lt (hbelow other hother hpc)⟩, [], rest, rfl,
              fun other hother heq => ?_⟩
            have := hbelow other hother (heq ▸ hfirst.1)
            omega
          · rename_i hfirst
            cases h
            obtain ⟨before, after, hsplit, hafter⟩ := hlater.last
            refine ⟨hlater.starts, List.forall_mem_cons.mpr ⟨fun hpc => ?_, hlater.latest⟩,
              first :: before, after, by rw [hsplit, List.cons_append], hafter⟩
            omega

namespace LineTable

theorem lineAt_foldl (entries : List LineEntry) (table : LineTable) (pc : Nat) :
    (entries.foldl (fun table entry => table.insert entry.startPc entry.line) table).lineAt pc =
      ((entries.filter (fun entry => entry.startPc = pc)).getLast?.map LineEntry.line).or
        (table.lineAt pc) := by
  induction entries generalizing table with
  | nil => rfl
  | cons entry rest ih =>
      rw [List.foldl_cons, ih]
      by_cases hentry : entry.startPc = pc
      · have hinsert : lineAt (table.insert entry.startPc entry.line) pc = some entry.line := by
          rw [lineAt, hentry, Std.TreeMap.getElem?_insert_self]
        rw [hinsert, List.filter_cons_of_pos (by simpa using hentry)]
        cases hlast : (rest.filter (fun entry => entry.startPc = pc)).getLast? with
        | none => simp [List.getLast?_eq_none_iff.mp hlast]
        | some last => simp [List.getLast?_cons, hlast]
      · have hinsert : lineAt (table.insert entry.startPc entry.line) pc = table.lineAt pc := by
          rw [lineAt, lineAt, Std.TreeMap.getElem?_insert]
          simp [hentry]
        rw [hinsert, List.filter_cons_of_neg (by simpa using hentry)]

/-- The line table has at an offset the line of the last entry that starts there. -/
theorem lineAt_ofEntries (entries : List LineEntry) (pc : Nat) :
    (ofEntries entries).lineAt pc =
      (entries.filter (fun entry => entry.startPc = pc)).getLast?.map LineEntry.line := by
  rw [ofEntries, lineAt_foldl]
  simp [lineAt]

theorem lineAt_eq_none_iff {entries : List LineEntry} {pc : Nat} :
    (ofEntries entries).lineAt pc = none ↔ ∀ entry ∈ entries, entry.startPc ≠ pc := by
  rw [lineAt_ofEntries]
  simp

theorem lineAt_of_holdsAt {entries : List LineEntry} {pc : Nat} {entry : LineEntry}
    (h : HoldsAt entries pc entry) :
    (ofEntries entries).lineAt entry.startPc = some entry.line := by
  obtain ⟨before, after, rfl, hafter⟩ := h.last
  have hnone : after.filter (fun other => other.startPc = entry.startPc) = [] :=
    List.filter_eq_nil_iff.mpr fun other hother => by simpa using hafter other hother
  rw [lineAt_ofEntries, List.filter_append, List.filter_cons_of_pos (by simp), hnone]
  simp

/-- Entries that hold at one offset have one line. -/
theorem line_eq_of_holdsAt {entries : List LineEntry} {pc : Nat} {entry other : LineEntry}
    (hentry : HoldsAt entries pc entry) (hother : HoldsAt entries pc other) :
    entry.line = other.line := by
  have hstart : entry.startPc = other.startPc := Nat.le_antisymm
    (hother.latest entry hentry.mem hentry.starts) (hentry.latest other hother.mem hother.starts)
  have hline := lineAt_of_holdsAt hother
  rw [← hstart, lineAt_of_holdsAt hentry] at hline
  exact Option.some.inj hline

/-- The line after some labels: that of the last label that has one. -/
def lineAfter (table : LineTable) (start : Option Nat) (labels : List Nat) : Option Nat :=
  labels.foldl (fun last pc => (table.lineAt pc).or last) start

theorem lineAfter_append (table : LineTable) (start : Option Nat) (front back : List Nat) :
    table.lineAfter start (front ++ back) = table.lineAfter (table.lineAfter start front) back :=
  List.foldl_append

theorem lineAfter_of_none {table : LineTable} {labels : List Nat}
    (h : ∀ pc ∈ labels, table.lineAt pc = none) (start : Option Nat) :
    table.lineAfter start labels = start := by
  induction labels with
  | nil => rfl
  | cons pc rest ih =>
      rw [List.forall_mem_cons] at h
      rw [lineAfter, List.foldl_cons, h.1, Option.none_or]
      exact ih h.2

/-- Where the labels include the starts of all entries, the line after those up to an offset
is the one that holds there. -/
theorem lineAfter_eq {entries : List LineEntry} {labels : List Nat}
    (hlabels : labels.Pairwise (· < ·)) (hstarts : ∀ entry ∈ entries, entry.startPc ∈ labels)
    (pc : Nat) {start : Option Nat} (hstart : lineHolding? entries pc = none → start = none) :
    (ofEntries entries).lineAfter start (labels.filter (· ≤ pc)) = lineHolding? entries pc := by
  cases hholding : entryHolding? pc entries with
  | none =>
      have hline : lineHolding? entries pc = none := by rw [lineHolding?, hholding]; rfl
      have hlater := entryHolding?_eq_none hholding
      rw [hline, hstart hline]
      refine lineAfter_of_none (fun label hlabel => lineAt_eq_none_iff.mpr fun entry hentry => ?_) _
      have hpc := (List.mem_filter.mp hlabel).2
      have := hlater entry hentry
      simp only [decide_eq_true_eq] at hpc
      omega
  | some entry =>
      have hholds := holdsAt_of_entryHolding? hholding
      obtain ⟨before, after, hentries, -⟩ := hholds.last
      have hmem : entry ∈ entries := by rw [hentries]; simp
      have hlabel : entry.startPc ∈ labels.filter (· ≤ pc) :=
        List.mem_filter.mpr ⟨hstarts entry hmem, by simpa using hholds.starts⟩
      obtain ⟨front, back, hsplit⟩ := List.append_of_mem hlabel
      have hordered := hlabels.filter (· ≤ pc)
      rw [hsplit, List.pairwise_append, List.pairwise_cons] at hordered
      have hback : ∀ label ∈ back, (ofEntries entries).lineAt label = none := by
        refine fun label hlabel => lineAt_eq_none_iff.mpr fun other hother heq => ?_
        have hkept : label ∈ labels.filter (· ≤ pc) := by
          rw [hsplit]
          exact List.mem_append_right _ (List.mem_cons_of_mem _ hlabel)
        have hpc : label ≤ pc := by simpa using (List.mem_filter.mp hkept).2
        have hlatest := hholds.latest other hother (heq ▸ hpc)
        have hlater := hordered.2.1.1 label hlabel
        omega
      rw [hsplit, lineAfter_append, lineAfter, List.foldl_cons, lineAt_of_holdsAt hholds,
        Option.some_or]
      rw [lineHolding?, hholding, Option.map_some]
      exact lineAfter_of_none hback _

end LineTable

theorem lineHolding?_eq_some_iff {lines : List LineEntry} {pc line : Nat} :
    lineHolding? lines pc = some line ↔ ∃ entry, HoldsAt lines pc entry ∧ entry.line = line := by
  rw [lineHolding?, Option.map_eq_some_iff]
  constructor
  · rintro ⟨entry, hentry, hline⟩
    exact ⟨entry, holdsAt_of_entryHolding? hentry, hline⟩
  · rintro ⟨entry, hholds, rfl⟩
    cases hholding : entryHolding? pc lines with
    | none =>
        have hlater := entryHolding?_eq_none hholding entry hholds.mem
        exact absurd hholds.starts (by omega)
    | some other =>
        exact ⟨other, rfl, LineTable.line_eq_of_holdsAt (holdsAt_of_entryHolding? hholding) hholds⟩

theorem Code.startPc_mem_labels {code : Code} {entry : LineEntry} (h : entry ∈ code.lines) :
    entry.startPc ∈ code.labels := by
  rw [mem_labels, labelOffsets, List.append_assoc, List.mem_append]
  exact .inl (List.mem_map_of_mem h)

end Linkage
