import Linkage.Extraction.Lines
/-
Leaving entries out of a line walk.  An entry that has no line when a body meets it
takes the current line and changes nothing else.  So two walks give all other
entries the same lines if one of them meets, in addition, entries without a line,
each of them once.
-/

namespace Linkage

def lineAt? (entries : Array Entry) (index : Nat) : Option Int :=
  entries[index]?.map Entry.line

theorem lineAt?_setLine (entries : Array Entry) (index other : Nat) (line : Int) :
    lineAt? (setLine entries index line) other =
      if index = other then (lineAt? entries other).map (fun _ => line)
      else lineAt? entries other := by
  simp only [lineAt?, setLine, Array.getElem?_modify]
  split
  · cases entries[other]? <;> rfl
  · rfl

/-- The entry that a position meets, if it is a hidden one. -/
def Position.hidden? (hidden : Nat → Bool) : Position → Option Nat
  | .label _ => none
  | .entry index => if hidden index then some index else none

@[simp] theorem Position.hidden?_label (hidden : Nat → Bool) (pc : Nat) :
    (Position.label pc).hidden? hidden = none := rfl

@[simp] theorem Position.hidden?_entry (hidden : Nat → Bool) (index : Nat) :
    (Position.entry index).hidden? hidden = if hidden index then some index else none := rfl

theorem Position.hidden?_eq_some_iff {hidden : Nat → Bool} {position : Position} {index : Nat} :
    position.hidden? hidden = some index ↔
      position = .entry index ∧ hidden index = true := by
  cases position with
  | label pc => simp
  | entry other =>
      rw [Position.hidden?_entry, Option.ite_none_right_eq_some, Option.some.injEq,
        Position.entry.injEq]
      constructor
      · rintro ⟨hother, rfl⟩
        exact ⟨rfl, hother⟩
      · rintro ⟨rfl, hother⟩
        exact ⟨hother, rfl⟩

/-- The hidden entries that positions meet, in order. -/
def metHidden (hidden : Nat → Bool) (positions : List Position) : List Nat :=
  positions.filterMap (Position.hidden? hidden)

/-- The positions without those of hidden entries. -/
def withoutHidden (hidden : Nat → Bool) (positions : List Position) : List Position :=
  positions.filter (fun position => (position.hidden? hidden).isNone)

/-- Hidden entries apart, the lines are the same. -/
def AgreeOff (hidden : Nat → Bool) (full part : Array Entry) : Prop :=
  ∀ index, hidden index = false → lineAt? full index = lineAt? part index

/-- Hidden entries apart, two walks have come to the same. -/
structure WalksAgree (hidden : Nat → Bool) (full part : LineWalk) : Prop where
  current_eq : full.current = part.current
  entries : AgreeOff hidden full.entries part.entries

variable {hidden : Nat → Bool}

namespace AgreeOff

variable {full part : Array Entry}

theorem setLine_both (h : AgreeOff hidden full part) (index : Nat) (line : Int) :
    AgreeOff hidden (setLine full index line) (setLine part index line) := by
  intro other hother
  rw [lineAt?_setLine, lineAt?_setLine, h other hother]

theorem setLine_hidden (h : AgreeOff hidden full part) {index : Nat}
    (hindex : hidden index = true) (line : Int) :
    AgreeOff hidden (setLine full index line) part := by
  intro other hother
  have hne : index ≠ other := by
    intro heq
    rw [heq, hother] at hindex
    cases hindex
  rw [lineAt?_setLine, if_neg hne, h other hother]

theorem foldl_setLine (h : AgreeOff hidden full part) (indices : List Nat) (line : Int) :
    AgreeOff hidden
      (indices.foldl (fun entries index => setLine entries index line) full)
      (indices.foldl (fun entries index => setLine entries index line) part) := by
  induction indices generalizing full part with
  | nil => exact h
  | cons index rest ih => exact ih (h.setLine_both index line)

theorem placeCatches_both (h : AgreeOff hidden full part) (table : LineTable)
    (catches : Array CatchPlace) :
    AgreeOff hidden (placeCatches table catches full)
      (placeCatches table catches part) := by
  unfold placeCatches
  rw [← Array.foldl_toList, ← Array.foldl_toList]
  induction catches.toList generalizing full part with
  | nil => exact h
  | cons place rest ih =>
      apply ih
      dsimp only
      split
      · exact h.setLine_both place.index _
      · exact h

end AgreeOff

section Walk

variable {table : LineTable} {waiting : WaitingCatches}

theorem LineWalk.meet_entry (walk : LineWalk) (index : Nat) :
    walk.meet table waiting (.entry index) =
      match lineAt? walk.entries index with
      | some line =>
          if line = -1 then
            { walk with entries := setLine walk.entries index walk.current }
          else { walk with current := line }
      | none => walk := by
  simp only [LineWalk.meet, lineAt?]
  cases walk.entries[index]? <;> rfl

/-- A position that is no hidden entry does the same to both walks. -/
theorem WalksAgree.meet {full part : LineWalk} (h : WalksAgree hidden full part)
    {position : Position} (hshown : position.hidden? hidden = none) :
    WalksAgree hidden (full.meet table waiting position) (part.meet table waiting position) := by
  cases position with
  | label pc =>
      unfold LineWalk.meet
      simp only
      split
      · exact ⟨rfl, h.entries⟩
      · refine ⟨h.current_eq, ?_⟩
        rw [← h.current_eq]
        exact h.entries.foldl_setLine _ _
  | entry index =>
      have hindex : hidden index = false := by
        cases hcase : hidden index with
        | false => rfl
        | true => simp [hcase] at hshown
      rw [LineWalk.meet_entry, LineWalk.meet_entry, h.entries index hindex]
      split
      · split
        · refine ⟨h.current_eq, ?_⟩
          rw [← h.current_eq]
          exact h.entries.setLine_both index _
        · exact ⟨rfl, h.entries⟩
      · exact h

/-- A hidden entry without a line may be met by one walk only. -/
theorem WalksAgree.meet_hidden {full part : LineWalk} (h : WalksAgree hidden full part)
    {index : Nat} (hindex : hidden index = true)
    (hfresh : lineAt? full.entries index = some (-1)) :
    WalksAgree hidden (full.meet table waiting (.entry index)) part := by
  rw [LineWalk.meet_entry, hfresh]
  exact ⟨h.current_eq, h.entries.setLine_hidden hindex _⟩

theorem lineAt?_foldl_setLine {index : Nat} {indices : List Nat} (h : index ∉ indices)
    (line : Int) (entries : Array Entry) :
    lineAt? (indices.foldl (fun entries index => setLine entries index line) entries) index =
      lineAt? entries index := by
  induction indices generalizing entries with
  | nil => rfl
  | cons head rest ih =>
      rw [List.mem_cons, not_or] at h
      rw [List.foldl_cons, ih h.2, lineAt?_setLine, if_neg (fun heq => h.1 heq.symm)]

/-- A position leaves the line of every entry that it does not meet. -/
theorem lineAt?_meet {index : Nat} (hwaiting : ∀ pc, index ∉ waiting.getD pc [])
    {position : Position} (hposition : position ≠ .entry index) (walk : LineWalk) :
    lineAt? (walk.meet table waiting position).entries index = lineAt? walk.entries index := by
  cases position with
  | label pc =>
      unfold LineWalk.meet
      simp only
      split
      · rfl
      · exact lineAt?_foldl_setLine (hwaiting pc) _ _
  | entry other =>
      have hne : other ≠ index := fun heq => hposition (by rw [heq])
      rw [LineWalk.meet_entry]
      split
      · split
        · rw [lineAt?_setLine, if_neg hne]
        · rfl
      · rfl

theorem lineAt?_foldl_meet {index : Nat} (hwaiting : ∀ pc, index ∉ waiting.getD pc [])
    {positions : List Position} (hpositions : .entry index ∉ positions) (walk : LineWalk) :
    lineAt? (positions.foldl (LineWalk.meet table waiting) walk).entries index =
      lineAt? walk.entries index := by
  induction positions generalizing walk with
  | nil => rfl
  | cons position rest ih =>
      rw [List.mem_cons, not_or] at hpositions
      rw [List.foldl_cons, ih hpositions.2,
        lineAt?_meet hwaiting (fun heq => hpositions.1 heq.symm)]

theorem mem_metHidden {positions : List Position} {index : Nat} :
    index ∈ metHidden hidden positions ↔ .entry index ∈ positions ∧ hidden index = true := by
  rw [metHidden, List.mem_filterMap]
  constructor
  · rintro ⟨position, hmem, hposition⟩
    obtain ⟨rfl, hindex⟩ := Position.hidden?_eq_some_iff.mp hposition
    exact ⟨hmem, hindex⟩
  · rintro ⟨hmem, hindex⟩
    exact ⟨_, hmem, Position.hidden?_eq_some_iff.mpr ⟨rfl, hindex⟩⟩

/-- No label gives a line to a hidden entry, so only its own position does. -/
theorem lineAt?_meet_of_hidden (hwaiting : ∀ pc, ∀ index ∈ waiting.getD pc [], hidden index = false)
    {index : Nat} (hindex : hidden index = true) {position : Position}
    (hposition : position ≠ .entry index) (walk : LineWalk) :
    lineAt? (walk.meet table waiting position).entries index = lineAt? walk.entries index := by
  refine lineAt?_meet (fun pc hmem => ?_) hposition walk
  rw [hwaiting pc index hmem] at hindex
  cases hindex

/-- Two walks agree if one of them meets hidden entries in addition, each once and without
a line. -/
theorem WalksAgree.foldl_meet {positions : List Position} {full part : LineWalk}
    (h : WalksAgree hidden full part)
    (hwaiting : ∀ pc, ∀ index ∈ waiting.getD pc [], hidden index = false)
    (honce : (metHidden hidden positions).Nodup)
    (hfresh : ∀ index ∈ metHidden hidden positions, lineAt? full.entries index = some (-1)) :
    WalksAgree hidden (positions.foldl (LineWalk.meet table waiting) full)
      ((withoutHidden hidden positions).foldl (LineWalk.meet table waiting) part) := by
  -- The hidden entries still to be met have no line before each step; a step at a hidden
  -- entry keeps that for the others because it does not come again.
  induction positions generalizing full part with
  | nil => exact h
  | cons position rest ih =>
      cases hposition : position.hidden? hidden with
      | none =>
          have hmet : metHidden hidden (position :: rest) = metHidden hidden rest := by
            simp [metHidden, hposition]
          have hleft : withoutHidden hidden (position :: rest) =
              position :: withoutHidden hidden rest := by
            simp [withoutHidden, hposition]
          rw [hmet] at honce hfresh
          rw [hleft, List.foldl_cons, List.foldl_cons]
          refine ih (h.meet hposition) honce fun index hindex => ?_
          rw [← hfresh index hindex]
          have hhidden := (mem_metHidden.mp hindex).2
          apply lineAt?_meet_of_hidden hwaiting hhidden
          intro heq
          rw [Position.hidden?_eq_some_iff.mpr ⟨heq, hhidden⟩] at hposition
          cases hposition
      | some index =>
          have hmet : metHidden hidden (position :: rest) = index :: metHidden hidden rest := by
            simp [metHidden, hposition]
          have hleft : withoutHidden hidden (position :: rest) = withoutHidden hidden rest := by
            simp [withoutHidden, hposition]
          obtain ⟨rfl, hindex⟩ := Position.hidden?_eq_some_iff.mp hposition
          rw [hmet] at honce hfresh
          rw [List.nodup_cons] at honce
          rw [hleft, List.foldl_cons]
          refine ih (h.meet_hidden hindex (hfresh index List.mem_cons_self)) honce.2
            fun other hother => ?_
          rw [← hfresh other (List.mem_cons_of_mem index hother)]
          apply lineAt?_meet_of_hidden hwaiting (mem_metHidden.mp hother).2
          intro heq
          rw [Position.entry.injEq] at heq
          rw [heq] at honce
          exact honce.1 hother

end Walk

theorem lineAt?_placeCatches {table : LineTable} {catches : Array CatchPlace} {index : Nat}
    (h : ∀ place ∈ catches.toList, place.index ≠ index) {entries : Array Entry} :
    lineAt? (placeCatches table catches entries) index = lineAt? entries index := by
  rw [placeCatches, ← Array.foldl_toList]
  generalize catches.toList = places at h
  induction places generalizing entries with
  | nil => rfl
  | cons place rest ih =>
      rw [List.foldl_cons, ih (fun other hother => h other (List.mem_cons_of_mem place hother))]
      split
      · rw [lineAt?_setLine, if_neg (h place List.mem_cons_self)]
      · rfl

/-- What holds at the end of a fold held before it or came with an item. -/
theorem exists_of_foldl {α β : Type} {step : β → α → β} {holds : β → Prop} {brings : α → Prop}
    (hstep : ∀ state item, holds (step state item) → brings item ∨ holds state)
    (items : List α) (state : β) (h : holds (items.foldl step state)) :
    (∃ item ∈ items, brings item) ∨ holds state := by
  induction items generalizing state with
  | nil => exact .inr h
  | cons item rest ih =>
      rw [List.foldl_cons] at h
      rcases ih _ h with ⟨other, hother, hbrings⟩ | hmid
      · exact .inl ⟨other, List.mem_cons_of_mem item hother, hbrings⟩
      · rcases hstep state item hmid with hbrings | hbefore
        · exact .inl ⟨item, List.mem_cons_self, hbrings⟩
        · exact .inr hbefore

theorem exists_place_of_mem_waitingCatches {table : LineTable} {catches : Array CatchPlace}
    {pc index : Nat} (h : index ∈ (waitingCatches table catches).getD pc []) :
    ∃ place ∈ catches.toList, place.index = index := by
  rw [waitingCatches, ← Array.foldl_toList] at h
  have horigin := @exists_of_foldl CatchPlace WaitingCatches _
    (fun waiting => index ∈ waiting.getD pc []) (fun place => place.index = index) ?_
    catches.toList ∅ h
  · rcases horigin with hplace | hempty
    · exact hplace
    · simp at hempty
  · intro waiting place hmem
    split at hmem
    · exact .inr hmem
    · rw [Std.TreeMap.getD_insert] at hmem
      split at hmem
      · rename_i heq
        rw [Std.LawfulEqCmp.compare_eq_iff_eq] at heq
        rcases List.mem_cons.mp hmem with rfl | hbefore
        · exact .inl rfl
        · rw [heq] at hbefore
          exact .inr hbefore
      · exact .inr hmem

/-- A body leaves the lines of the entries that it neither meets nor catches. -/
theorem lineAt?_assignLines {lines : List LineEntry} {catches : Array CatchPlace}
    {positions : Array Position} {index : Nat}
    (hcatches : ∀ place ∈ catches.toList, place.index ≠ index)
    (hpositions : .entry index ∉ positions.toList) {entries : Array Entry} :
    lineAt? (assignLines lines catches positions entries) index = lineAt? entries index := by
  rw [assignLines]
  split
  · rfl
  · simp only [← Array.foldl_toList]
    have hwaiting : ∀ pc, index ∉
        (waitingCatches (LineTable.ofEntries lines) catches).getD pc [] := by
      intro pc hmem
      obtain ⟨place, hplace, heq⟩ := exists_place_of_mem_waitingCatches hmem
      exact hcatches place hplace heq
    rw [lineAt?_foldl_meet hwaiting hpositions, lineAt?_placeCatches hcatches]

/-- Hidden entries apart, a body gives entries the same lines if it leaves out hidden
entries that are met once and without a line. -/
theorem AgreeOff.assignLines {full part : Array Entry} (h : AgreeOff hidden full part)
    (lines : List LineEntry) {catches : Array CatchPlace} {positions shown : Array Position}
    (hshown : shown.toList = withoutHidden hidden positions.toList)
    (hcatches : ∀ place ∈ catches.toList, hidden place.index = false)
    (honce : (metHidden hidden positions.toList).Nodup)
    (hfresh : ∀ index ∈ metHidden hidden positions.toList, lineAt? full index = some (-1)) :
    AgreeOff hidden (Linkage.assignLines lines catches positions full)
      (Linkage.assignLines lines catches shown part) := by
  unfold Linkage.assignLines
  split
  · exact h
  · rename_i first _
    simp only [← Array.foldl_toList]
    rw [hshown]
    have hwaiting : ∀ pc, ∀ index ∈
        (waitingCatches (LineTable.ofEntries lines) catches).getD pc [],
        hidden index = false := by
      intro pc index hmem
      obtain ⟨place, hplace, rfl⟩ := exists_place_of_mem_waitingCatches hmem
      exact hcatches place hplace
    have hstart : WalksAgree hidden
        ⟨lineNumber first, placeCatches (.ofEntries lines) catches full⟩
        ⟨lineNumber first, placeCatches (.ofEntries lines) catches part⟩ :=
      ⟨rfl, h.placeCatches_both _ catches⟩
    refine (hstart.foldl_meet hwaiting honce ?_).entries
    intro index hindex
    rw [← hfresh index hindex]
    exact lineAt?_placeCatches (fun place hplace heq => by
      have hfalse := hcatches place hplace
      rw [heq, (mem_metHidden.mp hindex).2] at hfalse
      cases hfalse)

end Linkage
