import Linkage.Proofs.BodyWalks
import Linkage.Proofs.Timelines
/-
Source lines of the entries of a body.  Every reference that a body records gets the line
that its line table gives to its instruction, or to its handler if it is to a caught type;
and so do the entries of a local type at the creation of the type.  The walk that assigns
lines keeps a current one, and this is so because the entries that it comes to are without a
line and are met once.
-/

namespace Linkage

/-! A walk over entries that are met once. -/

/-- The offset of a label among positions. -/
def Position.label? : Position → Option Nat
  | .label pc => some pc
  | .entry _ => none

/-- The entry that a position leads to. -/
def Position.entry? : Position → Option Nat
  | .label _ => none
  | .entry index => some index

/-- The labels among positions. -/
def labelsMet (positions : List Position) : List Nat := positions.filterMap Position.label?

/-- The entries that positions lead to. -/
def entriesMet (positions : List Position) : List Nat := positions.filterMap Position.entry?

theorem mem_entriesMet {positions : List Position} {index : Nat} :
    index ∈ entriesMet positions ↔ .entry index ∈ positions := by
  rw [entriesMet, List.mem_filterMap]
  refine ⟨?_, fun h => ⟨_, h, rfl⟩⟩
  rintro ⟨position, hmem, hentry⟩
  cases position with
  | label pc => cases hentry
  | entry other => cases hentry; exact hmem

theorem mem_labelsMet {positions : List Position} {pc : Nat} :
    pc ∈ labelsMet positions ↔ .label pc ∈ positions := by
  rw [labelsMet, List.mem_filterMap]
  refine ⟨?_, fun h => ⟨_, h, rfl⟩⟩
  rintro ⟨position, hmem, hlabel⟩
  cases position with
  | label other => cases hlabel; exact hmem
  | entry index => cases hlabel

/-- The current line after some labels. -/
def LineTable.currentAfter (table : LineTable) (start : Int) (labels : List Nat) : Int :=
  labels.foldl (fun current pc => ((table.lineAt pc).map lineNumber).getD current) start

theorem LineTable.currentAfter_eq (table : LineTable) (start : Int) (labels : List Nat) :
    table.currentAfter start labels =
      ((table.lineAfter none labels).map lineNumber).getD start := by
  suffices h : ∀ last : Option Nat,
      table.currentAfter ((last.map lineNumber).getD start) labels =
        ((table.lineAfter last labels).map lineNumber).getD start from h none
  induction labels with
  | nil => exact fun last => rfl
  | cons pc rest ih =>
      intro last
      rw [currentAfter, lineAfter, List.foldl_cons, List.foldl_cons]
      refine .trans ?_ (ih ((table.lineAt pc).or last))
      cases table.lineAt pc <;> rfl

section Walk
variable {table : LineTable} {waiting : WaitingCatches}

/-- Positions lead to entries that have no line, once to each, and none of them waits. -/
structure MeetsFresh (waiting : WaitingCatches) (entries : Array Entry)
    (positions : List Position) : Prop where
  once : (entriesMet positions).Nodup
  unlined : ∀ index ∈ entriesMet positions, lineAt? entries index = some (-1)
  apart : ∀ index ∈ entriesMet positions, ∀ pc, index ∉ waiting.getD pc []

theorem MeetsFresh.step {walk : LineWalk} {position : Position} {rest : List Position}
    (h : MeetsFresh waiting walk.entries (position :: rest)) :
    MeetsFresh waiting (walk.meet table waiting position).entries rest := by
  have hsub : ∀ index ∈ entriesMet rest, index ∈ entriesMet (position :: rest) :=
    fun index hindex => mem_entriesMet.mpr (List.mem_cons_of_mem _ (mem_entriesMet.mp hindex))
  refine ⟨?_, fun index hindex => ?_, fun index hindex => h.apart index (hsub index hindex)⟩
  · exact h.once.sublist ((List.sublist_cons_self position rest).filterMap Position.entry?)
  · have hposition : position ≠ .entry index := by
      rintro rfl
      exact (List.nodup_cons.mp h.once).1 hindex
    rw [lineAt?_meet (h.apart index (hsub index hindex)) hposition]
    exact h.unlined index (hsub index hindex)

/-- Over fresh entries the current line follows the labels alone. -/
theorem MeetsFresh.current_foldl {walk : LineWalk} {positions : List Position}
    (h : MeetsFresh waiting walk.entries positions) :
    (positions.foldl (LineWalk.meet table waiting) walk).current =
      table.currentAfter walk.current (labelsMet positions) := by
  induction positions generalizing walk with
  | nil => rfl
  | cons position rest ih =>
      rw [List.foldl_cons, ih h.step]
      cases position with
      | entry index =>
          have hline := h.unlined index (mem_entriesMet.mpr List.mem_cons_self)
          rw [LineWalk.meet_entry, hline]
          rfl
      | label pc =>
          have hcurrent : (walk.meet table waiting (.label pc)).current =
              ((table.lineAt pc).map lineNumber).getD walk.current := by
            cases hline : table.lineAt pc with
            | some line =>
                rw [LineWalk.meet_label_of_line hline, Option.map_some, Option.getD_some]
            | none => unfold LineWalk.meet; simp only [hline]; rfl
          rw [hcurrent]
          rfl

theorem MeetsFresh.front {entries : Array Entry} {front back : List Position}
    (h : MeetsFresh waiting entries (front ++ back)) : MeetsFresh waiting entries front := by
  have hsub : (entriesMet front).Sublist (entriesMet (front ++ back)) :=
    (List.sublist_append_left front back).filterMap Position.entry?
  exact ⟨h.once.sublist hsub, fun index hindex => h.unlined index (hsub.subset hindex),
    fun index hindex => h.apart index (hsub.subset hindex)⟩

/-- A fresh entry gets the line that the labels before it give. -/
theorem MeetsFresh.lineAt?_met {walk : LineWalk} {front back : List Position} {index : Nat}
    (h : MeetsFresh waiting walk.entries (front ++ .entry index :: back)) :
    lineAt? ((front ++ .entry index :: back).foldl (LineWalk.meet table waiting) walk).entries
      index = some (table.currentAfter walk.current (labelsMet front)) := by
  have hmem : index ∈ entriesMet (front ++ .entry index :: back) :=
    mem_entriesMet.mpr (by simp)
  have hapart := h.apart index hmem
  have honce := h.once
  rw [entriesMet, List.filterMap_append, List.filterMap_cons] at honce
  obtain ⟨-, hback, hdisjoint⟩ := List.nodup_append.mp honce
  have hfront : .entry index ∉ front := fun hin =>
    hdisjoint index (mem_entriesMet.mpr hin) index List.mem_cons_self rfl
  have hlater : .entry index ∉ back := fun hin =>
    (List.nodup_cons.mp hback).1 (mem_entriesMet.mpr hin)
  have hline : lineAt? (front.foldl (LineWalk.meet table waiting) walk).entries index =
      some (-1) := by
    rw [lineAt?_foldl_meet hapart hfront]
    exact h.unlined index hmem
  rw [List.foldl_append, List.foldl_cons, lineAt?_foldl_meet hapart hlater,
    LineWalk.meet_entry, hline]
  simp only [if_true]
  rw [lineAt?_setLine, if_pos rfl, hline, h.front.current_foldl]
  rfl

theorem lineAt?_foldl_setLine_of_mem {index : Nat} {indices : List Nat} (h : index ∈ indices)
    (line : Int) {entries : Array Entry} (hindex : index < entries.size) :
    lineAt? (indices.foldl (fun entries index => setLine entries index line) entries) index =
      some line := by
  induction indices generalizing entries with
  | nil => cases h
  | cons head rest ih =>
      rw [List.foldl_cons]
      by_cases hrest : index ∈ rest
      · exact ih hrest (by simpa [setLine] using hindex)
      · have hhead : head = index := ((List.mem_cons.mp h).resolve_right hrest).symm
        rw [lineAt?_foldl_setLine hrest, lineAt?_setLine, if_pos hhead, lineAt?,
          Array.getElem?_eq_getElem hindex]
        rfl

/-- An entry that waits at no label from some position on, and is not met, keeps its line. -/
theorem lineAt?_foldl_meet_of_labels {index : Nat} {positions : List Position}
    (hwaiting : ∀ pc ∈ labelsMet positions, index ∉ waiting.getD pc [])
    (hpositions : .entry index ∉ positions) (walk : LineWalk) :
    lineAt? (positions.foldl (LineWalk.meet table waiting) walk).entries index =
      lineAt? walk.entries index := by
  induction positions generalizing walk with
  | nil => rfl
  | cons position rest ih =>
      rw [List.mem_cons, not_or] at hpositions
      have hrest : ∀ pc ∈ labelsMet rest, index ∉ waiting.getD pc [] := fun pc hpc =>
        hwaiting pc (mem_labelsMet.mpr (List.mem_cons_of_mem _ (mem_labelsMet.mp hpc)))
      rw [List.foldl_cons, ih hrest hpositions.2]
      cases position with
      | label pc =>
          unfold LineWalk.meet
          simp only
          split
          · rfl
          · exact lineAt?_foldl_setLine
              (hwaiting pc (mem_labelsMet.mpr List.mem_cons_self)) _ _
      | entry other =>
          have hother : other ≠ index := fun heq => hpositions.1 (heq ▸ rfl)
          rw [LineWalk.meet_entry]
          split
          · split
            · rw [lineAt?_setLine, if_neg hother]
            · rfl
          · rfl

/-- An entry that waits gets its line at its label, where that has none of its own. -/
theorem MeetsFresh.lineAt?_waiting {walk : LineWalk} {front back : List Position}
    {index pc : Nat} (h : MeetsFresh waiting walk.entries (front ++ .label pc :: back))
    (hline : table.lineAt pc = none) (hwaits : index ∈ waiting.getD pc [])
    (honly : ∀ other, other ≠ pc → index ∉ waiting.getD other [])
    (hback : pc ∉ labelsMet back) (hindex : index < walk.entries.size) :
    lineAt? ((front ++ .label pc :: back).foldl (LineWalk.meet table waiting) walk).entries
      index = some (table.currentAfter walk.current (labelsMet front)) := by
  -- What waits at a label is not met as an entry, before the label or after it.
  have hnot : .entry index ∉ front ++ .label pc :: back := fun hin =>
    h.apart index (mem_entriesMet.mpr hin) pc hwaits
  have hlater : .entry index ∉ back := fun hin => hnot (by simp [hin])
  have hsize := size_eq_of_unlinedAll (unlinedAll_foldl_meet table waiting front walk)
  rw [List.foldl_append, List.foldl_cons, lineAt?_foldl_meet_of_labels (fun other hother => ?_)
    hlater]
  · unfold LineWalk.meet
    simp only [hline]
    rw [lineAt?_foldl_setLine_of_mem hwaits _ (hsize ▸ hindex)]
    exact congrArg some h.front.current_foldl
  · exact honly other (fun heq => hback (heq ▸ hother))

/-- An entry that has a line already keeps it, met or not. -/
theorem lineAt?_foldl_meet_of_lined {index : Nat} (hwaiting : ∀ pc, index ∉ waiting.getD pc [])
    {line : Int} (hline : line ≠ -1) {positions : List Position} {walk : LineWalk}
    (h : lineAt? walk.entries index = some line) :
    lineAt? (positions.foldl (LineWalk.meet table waiting) walk).entries index = some line := by
  induction positions generalizing walk with
  | nil => exact h
  | cons position rest ih =>
      rw [List.foldl_cons]
      refine ih ?_
      by_cases hposition : position = .entry index
      · subst hposition
        rw [LineWalk.meet_entry, h]
        simp only [hline, if_false]
        exact h
      · rw [lineAt?_meet hwaiting hposition, h]

end Walk

/-! Where a body meets its entries. -/

/-- The entries of local types that are met again at the creations among instructions. -/
def createdEntries (localTypes : LocalTypes) (instructions : List Instruction) : List Nat :=
  (instructions.filterMap Instruction.created?).flatMap (fun name => localTypes.getD name [])

theorem createdEntries_append (localTypes : LocalTypes) (left right : List Instruction) :
    createdEntries localTypes (left ++ right) =
      createdEntries localTypes left ++ createdEntries localTypes right := by
  simp [createdEntries]

theorem createdEntries_singleton (site : BodySite) (localTypes : LocalTypes)
    (instruction : Instruction) :
    createdEntries localTypes [instruction] = replayed site localTypes instruction := by
  rw [replayed_eq, createdEntries]
  cases hcreated : instruction.created? <;> simp [hcreated]

/-- The caught types of handlers, with the offsets of the handlers. -/
def caughtTypes (handlers : List ExceptionHandler) : List (String × Nat) :=
  handlers.filterMap (fun handler =>
    handler.catchType.map (fun name => (name, handler.handlerPc)))

/-- The places of caught types, where the first entry has a number. -/
def catchPlaces (start : Nat) (caught : List (String × Nat)) : List CatchPlace :=
  (caught.zipIdx start).map (fun item => ⟨item.2, item.1.2⟩)

namespace BodySite

/-- The drafts of caught types, each with the offset that its line belongs to. -/
def placedCatches (site : BodySite) (handlers : List ExceptionHandler) : List (Draft × Nat) :=
  (caughtTypes handlers).map (fun caught =>
    (.ofReference (Reference.ofType site.source (site.qualified caught.1) .catchException),
      caught.2))

/-- The drafts of instructions, each with the offset that its line belongs to. -/
def placedInstructions (site : BodySite) : CallState → List Instruction → List (Draft × Nat)
  | _, [] => []
  | state, instruction :: rest =>
      (site.drafts state instruction).map (fun draft => (draft, instruction.offset)) ++
        site.placedInstructions (site.after state instruction) rest

/-- What a body records, but for the types of local variables, each with the offset that its
line belongs to: the handler of a caught type, and else the instruction. -/
def placedDrafts (site : BodySite) (code : Code) : List (Draft × Nat) :=
  site.placedCatches code.handlers ++ site.placedInstructions {} code.instructions

theorem placedCatches_drafts (site : BodySite) (handlers : List ExceptionHandler) :
    (site.placedCatches handlers).map Prod.fst = site.catchDrafts handlers := by
  rw [placedCatches, catchDrafts, caughtTypes]
  induction handlers with
  | nil => rfl
  | cons handler rest ih => cases htype : handler.catchType <;> simpa [htype] using ih

theorem placedInstructions_drafts (site : BodySite) (state : CallState)
    (instructions : List Instruction) :
    (site.placedInstructions state instructions).map Prod.fst =
      site.instructionDrafts state instructions := by
  induction instructions generalizing state with
  | nil => rfl
  | cons instruction rest ih =>
      rw [placedInstructions, instructionDrafts, List.map_append, ih, List.map_map]
      simp [Function.comp_def]

/-- The positions of moments, where the first new entry has a number. -/
def positions (site : BodySite) (localTypes : LocalTypes) :
    CallState → Nat → List Moment → List Position
  | _, _, [] => []
  | state, count, .label pc :: rest => .label pc :: site.positions localTypes state count rest
  | state, count, .run instruction :: rest =>
      (replayed site localTypes instruction).map Position.entry ++
        ((List.range' count (site.drafts state instruction).length).map Position.entry ++
          site.positions localTypes (site.after state instruction)
            (count + (site.drafts state instruction).length) rest)

theorem instructionDrafts_append (site : BodySite) (state : CallState)
    (left right : List Instruction) :
    site.instructionDrafts state (left ++ right) =
      site.instructionDrafts state left ++
        site.instructionDrafts (left.foldl site.after state) right := by
  induction left generalizing state with
  | nil => rfl
  | cons instruction rest ih =>
      rw [List.cons_append, instructionDrafts, ih, instructionDrafts, List.append_assoc,
        List.foldl_cons]

theorem positions_append (site : BodySite) (localTypes : LocalTypes) (state : CallState)
    (count : Nat) (left right : List Moment) :
    site.positions localTypes state count (left ++ right) =
      site.positions localTypes state count left ++
        site.positions localTypes
          ((left.filterMap Moment.instruction?).foldl site.after state)
          (count + (site.instructionDrafts state
            (left.filterMap Moment.instruction?)).length) right := by
  induction left generalizing state count with
  | nil => rfl
  | cons moment rest ih =>
      cases moment with
      | label pc =>
          rw [List.cons_append, positions, ih, positions]
          rfl
      | run instruction =>
          rw [List.cons_append, positions, ih, positions]
          simp [Moment.instruction?, instructionDrafts, Nat.add_assoc]

theorem labelsMet_positions (site : BodySite) (localTypes : LocalTypes) (state : CallState)
    (count : Nat) (moments : List Moment) :
    labelsMet (site.positions localTypes state count moments) =
      moments.filterMap Moment.label? := by
  have hentries : ∀ indices : List Nat, labelsMet (indices.map Position.entry) = [] := by
    intro indices
    simp [labelsMet, Position.label?, Function.comp_def]
  induction moments generalizing state count with
  | nil => rfl
  | cons moment rest ih =>
      cases moment with
      | label pc =>
          rw [positions, labelsMet, List.filterMap_cons, List.filterMap_cons]
          exact congrArg (List.cons pc) (ih state count)
      | run instruction =>
          have hsplit : ∀ left right : List Position,
              labelsMet (left ++ right) = labelsMet left ++ labelsMet right :=
            fun left right => List.filterMap_append
          rw [positions, hsplit, hsplit, hentries, hentries, List.nil_append, List.nil_append, ih]
          rfl

/-- The positions of moments lead to the entries of the types created and to the new entries. -/
theorem entriesMet_positions (site : BodySite) (localTypes : LocalTypes) (state : CallState)
    (count : Nat) (moments : List Moment) :
    (entriesMet (site.positions localTypes state count moments)).Perm
      (createdEntries localTypes (moments.filterMap Moment.instruction?) ++
        List.range' count (site.instructionDrafts state
          (moments.filterMap Moment.instruction?)).length) := by
  have hentries : ∀ indices : List Nat, entriesMet (indices.map Position.entry) = indices := by
    intro indices
    simp [entriesMet, Position.entry?, Function.comp_def]
  have hsplit : ∀ left right : List Position,
      entriesMet (left ++ right) = entriesMet left ++ entriesMet right :=
    fun left right => List.filterMap_append
  induction moments generalizing state count with
  | nil => exact .refl _
  | cons moment rest ih =>
      cases moment with
      | label pc => exact ih state count
      | run instruction =>
          have hcons : (Moment.run instruction :: rest).filterMap Moment.instruction? =
              [instruction] ++ rest.filterMap Moment.instruction? := rfl
          rw [positions, hsplit, hsplit, hentries, hentries, hcons, createdEntries_append,
            createdEntries_singleton site, instructionDrafts_append, List.length_append,
            ← List.range'_append_1, List.append_assoc]
          have hdrafts : site.instructionDrafts state [instruction] =
              site.drafts state instruction := by
            simp [instructionDrafts]
          rw [hdrafts]
          refine .append_left _ ?_
          refine ((ih (site.after state instruction) _).append_left _).trans ?_
          rw [← List.append_assoc, ← List.append_assoc]
          exact List.perm_append_comm.append_right _

end BodySite

namespace BodyWalk

variable (options : ExtractOptions) (site : BodySite)

theorem positions_foldl_record (walk : BodyWalk) (drafts : List Draft) :
    (drafts.foldl (record options site) walk).positions.toList =
        walk.positions.toList ++
          (List.range' walk.entries.size drafts.length).map Position.entry ∧
      (drafts.foldl (record options site) walk).catches = walk.catches := by
  induction drafts generalizing walk with
  | nil => simp
  | cons draft rest ih =>
      obtain ⟨hpositions, hcatches⟩ := ih (walk.record options site draft)
      rw [List.foldl_cons, hpositions, hcatches]
      simp [record, List.range'_succ]

theorem positions_foldl_recordCatch (walk : BodyWalk) (handlers : List ExceptionHandler) :
    (handlers.foldl (recordCatch options site) walk).positions.toList =
        walk.positions.toList ++
          (List.range' walk.entries.size (caughtTypes handlers).length).map Position.entry ∧
      (handlers.foldl (recordCatch options site) walk).catches.toList =
        walk.catches.toList ++ catchPlaces walk.entries.size (caughtTypes handlers) := by
  induction handlers generalizing walk with
  | nil => simp [caughtTypes, catchPlaces]
  | cons handler rest ih =>
      rw [List.foldl_cons, recordCatch]
      cases htype : handler.catchType with
      | none =>
          simp only
          rw [(ih walk).1, (ih walk).2]
          simp [caughtTypes, htype]
      | some name =>
          simp only
          obtain ⟨hpositions, hcatches⟩ := ih _
          rw [hpositions, hcatches]
          simp [caughtTypes, htype, record, catchPlaces, List.range'_succ]

theorem positions_foldl_meet (localTypes : LocalTypes) (walk : BodyWalk)
    (moments : List Moment) :
    (moments.foldl (meet options site localTypes) walk).positions.toList =
        walk.positions.toList ++
          site.positions localTypes walk.state walk.entries.size moments ∧
      (moments.foldl (meet options site localTypes) walk).catches = walk.catches := by
  induction moments generalizing walk with
  | nil => simp [BodySite.positions]
  | cons moment rest ih =>
      obtain ⟨hpositions, hcatches⟩ := ih (walk.meet options site localTypes moment)
      rw [List.foldl_cons, hpositions, hcatches]
      cases moment with
      | label pc => simp [meet, BodySite.positions]
      | run instruction =>
          rw [meet]
          obtain ⟨hentries, hstate⟩ := foldl_record options site
            { walk with
              positions := walk.positions ++
                (replayed site localTypes instruction).map Position.entry
              state := site.after walk.state instruction } (site.drafts walk.state instruction)
          obtain ⟨hrecorded, hkept⟩ := positions_foldl_record options site
            { walk with
              positions := walk.positions ++
                (replayed site localTypes instruction).map Position.entry
              state := site.after walk.state instruction } (site.drafts walk.state instruction)
          rw [hrecorded, hkept, hentries, hstate]
          simp [BodySite.positions, draftEntries]

end BodyWalk

end Linkage
