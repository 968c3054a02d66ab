import Linkage.Proofs.SourceLines
import Mathlib.Algebra.Group.Nat.Defs
import Mathlib.Data.List.Nodup
/-
Line tables and caught types.  In a body whose line table covers it some line holds at every
offset, and the labels up to an offset lead the walk that assigns lines to just that line.  A
caught type is placed before the walk if its handler starts a line, and else it waits for the
label of the handler.
-/

namespace Linkage

/-! What a line table says. -/

/-- The line that holds at an offset of a body; `-1` if none does. -/
def Code.sourceLine (code : Code) (pc : Nat) : Int :=
  ((lineHolding? code.lines pc).map Int.ofNat).getD (-1)

/-- A body whose line table covers it: a line starts with the body, and lines are small
enough for line numbers. -/
structure Code.WellLined (code : Code) : Prop where
  ascends : code.OffsetsAscend
  starts : ∃ entry ∈ code.lines, entry.startPc = 0
  small : ∀ entry ∈ code.lines, entry.line < 2 ^ 31

theorem lineNumber_of_lt {line : Nat} (h : line < 2 ^ 31) : lineNumber line = line := by
  have hnumber : Int.bmod (line : Int) 0x100000000 = line := by
    apply Int.bmod_eq_of_le <;> omega
  unfold lineNumber
  rw [Int.ofNat_eq_natCast, hnumber]

theorem isSome_foldl {α β : Type} {step : Option β → α → Option β}
    (hstep : ∀ found item, (step found item).isSome = true) {items : List α} {start : Option β}
    (h : start.isSome = true ∨ items ≠ []) : (items.foldl step start).isSome = true := by
  induction items generalizing start with
  | nil => simpa using h
  | cons item rest ih => exact ih (.inl (hstep start item))

theorem exists_firstLine {lines : List LineEntry} (h : lines ≠ []) :
    ∃ first, firstLine lines = some first := by
  rw [← Option.isSome_iff_exists, firstLine]
  exact isSome_foldl (fun first _ => by cases first <;> rfl) (.inr h)

theorem LineTable.currentAfter_filter (table : LineTable) (start : Int) (labels : List Nat) :
    table.currentAfter start (labels.filter (fun pc => (table.lineAt pc).isSome)) =
      table.currentAfter start labels := by
  induction labels generalizing start with
  | nil => rfl
  | cons pc rest ih =>
      cases hline : table.lineAt pc with
      | none =>
          rw [List.filter_cons_of_neg (by simp [hline]), ih, currentAfter, currentAfter,
            List.foldl_cons, hline]
          rfl
      | some line =>
          rw [List.filter_cons_of_pos (by simp [hline]), currentAfter, currentAfter,
            List.foldl_cons, List.foldl_cons]
          exact ih _

namespace Code.WellLined

variable {code : Code} (h : code.WellLined)
include h

/-- Some line of the table holds at every offset. -/
theorem exists_holdsAt (pc : Nat) : ∃ entry, HoldsAt code.lines pc entry ∧
    lineHolding? code.lines pc = some entry.line ∧ code.sourceLine pc = entry.line := by
  cases hholding : entryHolding? pc code.lines with
  | none =>
      obtain ⟨first, hfirst, hzero⟩ := h.starts
      have hlater := entryHolding?_eq_none hholding first hfirst
      omega
  | some entry =>
      have hline : lineHolding? code.lines pc = some entry.line := by
        rw [lineHolding?, hholding, Option.map_some]
      exact ⟨entry, holdsAt_of_entryHolding? hholding, hline, by rw [sourceLine, hline]; rfl⟩

theorem sourceLine_nonneg (pc : Nat) : 0 ≤ code.sourceLine pc := by
  obtain ⟨entry, -, -, hline⟩ := h.exists_holdsAt pc
  rw [hline]
  exact Int.natCast_nonneg _

/-- After the labels up to an offset the current line is the one that holds there. -/
theorem currentAfter_eq (start : Int) (pc : Nat) :
    (LineTable.ofEntries code.lines).currentAfter start (code.labels.filter (· ≤ pc)) =
      code.sourceLine pc := by
  obtain ⟨entry, hholds, hline, hsource⟩ := h.exists_holdsAt pc
  rw [LineTable.currentAfter_eq, LineTable.lineAfter_eq code.labels_ascending
    (fun entry => Code.startPc_mem_labels) pc (fun _ => rfl), hline, hsource, Option.map_some,
    Option.getD_some, lineNumber_of_lt (h.small entry hholds.mem)]

theorem currentAfter_eq_of_none (start : Int) {pc : Nat}
    (hline : (LineTable.ofEntries code.lines).lineAt pc = none) :
    (LineTable.ofEntries code.lines).currentAfter start (code.labels.filter (· < pc)) =
      code.sourceLine pc := by
  rw [← h.currentAfter_eq start pc, ← LineTable.currentAfter_filter,
    ← LineTable.currentAfter_filter _ _ (code.labels.filter (· ≤ pc)), List.filter_filter,
    List.filter_filter]
  congr 1
  refine List.filter_congr fun label _ => ?_
  by_cases heq : label = pc
  · simp [heq, hline]
  · have hiff : label < pc ↔ label ≤ pc := by omega
    simp [hiff]

theorem sourceLine_of_lineAt {pc line : Nat}
    (hline : (LineTable.ofEntries code.lines).lineAt pc = some line) :
    code.sourceLine pc = lineNumber line := by
  obtain ⟨entry, hholds, -, hsource⟩ := h.exists_holdsAt pc
  have hstarts : entry.startPc = pc := by
    by_contra hne
    have hnone : ∀ other ∈ code.lines, other.startPc ≠ pc := by
      intro other hother heq
      have hlatest := hholds.latest other hother (Nat.le_of_eq heq)
      have hstart := hholds.starts
      omega
    rw [LineTable.lineAt_eq_none_iff.mpr hnone] at hline
    cases hline
  have hat := LineTable.lineAt_of_holdsAt hholds
  rw [hstarts, hline, Option.some.injEq] at hat
  rw [hsource, hat, lineNumber_of_lt (h.small entry hholds.mem)]

end Code.WellLined

/-! Caught types. -/

theorem mem_catchPlaces {start : Nat} {caught : List (String × Nat)} {place : CatchPlace} :
    place ∈ catchPlaces start caught ↔ ∃ position name, place.index = start + position ∧
      caught[position]? = some (name, place.handlerPc) := by
  rw [catchPlaces, List.mem_map]
  constructor
  · rintro ⟨⟨⟨name, pc⟩, index⟩, hmem, rfl⟩
    obtain ⟨hle, hget⟩ := List.mem_zipIdx_iff_le_and_getElem?_sub.mp hmem
    exact ⟨index - start, name, (Nat.add_sub_cancel' hle).symm, hget⟩
  · rintro ⟨position, name, hindex, hget⟩
    refine ⟨((name, place.handlerPc), start + position), ?_, by rw [← hindex]⟩
    exact List.mem_zipIdx_iff_le_and_getElem?_sub.mpr
      ⟨Nat.le_add_right _ _, by rw [Nat.add_sub_cancel_left]; exact hget⟩

theorem catchPlaces_index (start : Nat) (caught : List (String × Nat)) :
    (catchPlaces start caught).map CatchPlace.index = List.range' start caught.length := by
  rw [catchPlaces, List.map_map]
  exact List.zipIdx_map_snd start caught

theorem catchPlaces_nodup (start : Nat) (caught : List (String × Nat)) :
    ((catchPlaces start caught).map CatchPlace.index).Nodup := by
  rw [catchPlaces_index]
  exact List.nodup_range'

/-- One more caught type waits for its line, unless its handler has one of its own. -/
def addWaiting (table : LineTable) (waiting : WaitingCatches) (place : CatchPlace) :
    WaitingCatches :=
  match table.lineAt place.handlerPc with
  | some _ => waiting
  | none => waiting.insert place.handlerPc (place.index :: waiting.getD place.handlerPc [])

theorem waitingCatches_eq (table : LineTable) (catches : Array CatchPlace) :
    waitingCatches table catches = catches.toList.foldl (addWaiting table) ∅ := by
  rw [waitingCatches, ← Array.foldl_toList]
  rfl

theorem mem_addWaiting {table : LineTable} {waiting : WaitingCatches} {place : CatchPlace}
    {pc index : Nat} : index ∈ (addWaiting table waiting place).getD pc [] ↔
      (table.lineAt pc = none ∧ ⟨index, pc⟩ = place) ∨ index ∈ waiting.getD pc [] := by
  obtain ⟨other, handlerPc⟩ := place
  rw [addWaiting, CatchPlace.mk.injEq]
  by_cases hpc : pc = handlerPc
  · subst hpc
    cases hline : table.lineAt pc with
    | some line => simp
    | none => simp [Std.TreeMap.getD_insert_self]
  · have hne : handlerPc ≠ pc := fun heq => hpc heq.symm
    cases table.lineAt handlerPc with
    | some line => simp [hpc]
    | none => simp [Std.TreeMap.getD_insert, hpc, hne]

/-- A caught type waits at its handler if that has no line. -/
theorem mem_waitingCatches {table : LineTable} {catches : Array CatchPlace} {pc index : Nat} :
    index ∈ (waitingCatches table catches).getD pc [] ↔
      table.lineAt pc = none ∧ ⟨index, pc⟩ ∈ catches.toList := by
  rw [waitingCatches_eq]
  suffices h : ∀ waiting : WaitingCatches,
      index ∈ (catches.toList.foldl (addWaiting table) waiting).getD pc [] ↔
        (table.lineAt pc = none ∧ ⟨index, pc⟩ ∈ catches.toList) ∨ index ∈ waiting.getD pc [] from
    (h ∅).trans (by simp)
  induction catches.toList with
  | nil => simp
  | cons place rest ih =>
      intro waiting
      rw [List.foldl_cons, ih, mem_addWaiting, List.mem_cons]
      tauto

/-- A caught type whose handler has a line of its own is placed there. -/
theorem lineAt?_placeCatches_of_mem {table : LineTable} {catches : Array CatchPlace}
    (honce : (catches.toList.map CatchPlace.index).Nodup) {place : CatchPlace}
    (hplace : place ∈ catches.toList) {line : Nat}
    (hline : table.lineAt place.handlerPc = some line) {entries : Array Entry}
    (hindex : place.index < entries.size) :
    lineAt? (placeCatches table catches entries) place.index = some (lineNumber line) := by
  obtain ⟨front, back, hsplit⟩ := List.append_of_mem hplace
  rw [hsplit, List.map_append, List.map_cons, List.nodup_append, List.nodup_cons] at honce
  have hback : ∀ other ∈ back.toArray.toList, other.index ≠ place.index :=
    fun other hother heq => honce.2.1.1 (heq ▸ List.mem_map_of_mem hother)
  have hsize := size_eq_of_unlinedAll (unlinedAll_placeCatches table front.toArray entries)
  have hentry : (placeCatches table front.toArray entries)[place.index]? =
      some (placeCatches table front.toArray entries)[place.index] :=
    Array.getElem?_eq_getElem (hsize ▸ hindex)
  have hsteps : placeCatches table catches entries = placeCatches table back.toArray
      (setLine (placeCatches table front.toArray entries) place.index (lineNumber line)) := by
    simp only [placeCatches, ← Array.foldl_toList, hsplit, List.foldl_append, List.foldl_cons,
      hline]
  rw [hsteps, lineAt?_placeCatches hback, lineAt?_setLine, if_pos rfl, lineAt?, hentry]
  rfl

theorem BodySite.length_catchDrafts (site : BodySite) (handlers : List ExceptionHandler) :
    (site.catchDrafts handlers).length = (caughtTypes handlers).length := by
  rw [← site.placedCatches_drafts, placedCatches, List.length_map, List.length_map]

/-! The walk that assigns the lines of a body. -/

theorem BodyWalk.through_positions (options : ExtractOptions) (site : BodySite)
    (localTypes : LocalTypes) (code : Code) (entries : Array Entry) :
    (through options site localTypes code code.timeline entries).positions.toList =
        (List.range' entries.size (caughtTypes code.handlers).length).map Position.entry ++
          site.positions localTypes {} (entries.size + (caughtTypes code.handlers).length)
            code.timeline.toList ∧
      (through options site localTypes code code.timeline entries).catches.toList =
        catchPlaces entries.size (caughtTypes code.handlers) := by
  have hcatches := positions_foldl_recordCatch options site { entries := entries } code.handlers
  have hentries := foldl_recordCatch options site { entries := entries } code.handlers
  rw [through, ← Array.foldl_toList]
  rw [(positions_foldl_meet options site localTypes _ _).1,
    (positions_foldl_meet options site localTypes _ _).2, hcatches.1, hcatches.2, hentries.1,
    hentries.2]
  simp [draftEntries, site.length_catchDrafts]

section CaughtTypes
variable (table : LineTable) (catches : Array CatchPlace)

/-- The walk that assigns the lines of a body, when it has come to the caught types. -/
def caughtWalk (current : Int) (entries : Array Entry) : LineWalk :=
  (catches.toList.map (fun place => Position.entry place.index)).foldl
    (LineWalk.meet table (waitingCatches table catches))
    { current := current, entries := placeCatches table catches entries }

variable {table catches} {current : Int} {entries : Array Entry}

theorem size_caughtWalk :
    (caughtWalk table catches current entries).entries.size = entries.size := by
  have hmet := size_eq_of_unlinedAll (unlinedAll_foldl_meet table (waitingCatches table catches)
    (catches.toList.map (fun place => Position.entry place.index))
    { current := current, entries := placeCatches table catches entries })
  exact hmet.trans (size_eq_of_unlinedAll (unlinedAll_placeCatches table catches entries))

/-- Entries that are not of caught types are as before. -/
theorem lineAt?_caughtWalk {index : Nat} (h : ∀ place ∈ catches.toList, place.index ≠ index) :
    lineAt? (caughtWalk table catches current entries).entries index = lineAt? entries index := by
  have hwaiting : ∀ pc, index ∉ (waitingCatches table catches).getD pc [] :=
    fun pc hmem => h _ (mem_waitingCatches.mp hmem).2 rfl
  have hpositions : .entry index ∉
      catches.toList.map (fun place => Position.entry place.index) := by
    intro hmem
    obtain ⟨place, hplace, heq⟩ := List.mem_map.mp hmem
    exact h place hplace (Position.entry.inj heq)
  rw [caughtWalk, lineAt?_foldl_meet hwaiting hpositions, lineAt?_placeCatches h]

/-- Caught types wait at their own handler. -/
theorem eq_of_mem_waitingCatches (honce : (catches.toList.map CatchPlace.index).Nodup)
    {place : CatchPlace} (hplace : place ∈ catches.toList) {pc : Nat}
    (h : place.index ∈ (waitingCatches table catches).getD pc []) :
    pc = place.handlerPc ∧ table.lineAt pc = none := by
  obtain ⟨hline, hother⟩ := mem_waitingCatches.mp h
  have heq := List.inj_on_of_nodup_map honce hother hplace rfl
  exact ⟨congrArg CatchPlace.handlerPc heq, hline⟩

/-- A caught type whose handler has a line is there for good. -/
theorem lineAt?_of_handler_line (honce : (catches.toList.map CatchPlace.index).Nodup)
    {place : CatchPlace} (hplace : place ∈ catches.toList) {line : Nat}
    (hline : table.lineAt place.handlerPc = some line) (hsmall : lineNumber line ≠ -1)
    (hindex : place.index < entries.size) (positions : List Position) :
    lineAt? (positions.foldl (LineWalk.meet table (waitingCatches table catches))
      (caughtWalk table catches current entries)).entries place.index =
        some (lineNumber line) := by
  have hwaiting : ∀ pc, place.index ∉ (waitingCatches table catches).getD pc [] := by
    intro pc hmem
    obtain ⟨rfl, hnone⟩ := eq_of_mem_waitingCatches honce hplace hmem
    rw [hline] at hnone
    cases hnone
  rw [caughtWalk, ← List.foldl_append]
  exact lineAt?_foldl_meet_of_lined hwaiting hsmall
    (lineAt?_placeCatches_of_mem honce hplace hline hindex)

end CaughtTypes

end Linkage
