import Linkage.Proofs.Distinct
import Linkage.Proofs.LineWalks
import Linkage.Proofs.Timelines
/-
Declarations of local variables.  A variable declares its type where the last reference
store between the label before its start and the start itself goes to its slot.  Which
variables do, and on which lines, is read off the body's tables: the walk that places
markers and uses them up finds exactly these.
-/

namespace Linkage

/-! Which variables declare their types. -/

/-- The slot that an instruction stores a reference into. -/
def Instruction.storeSlot? (instruction : Instruction) : Option Nat :=
  match instruction.operation with
  | .store slot => some slot
  | _ => none

/-- The slot of the last reference store among instructions. -/
def lastStore? (instructions : List Instruction) : Option Nat :=
  (instructions.filterMap Instruction.storeSlot?).getLast?

theorem lastStore?_cons (instruction : Instruction) (rest : List Instruction) :
    lastStore? (instruction :: rest) = (lastStore? rest).or instruction.storeSlot? := by
  rw [lastStore?, lastStore?, List.filterMap_cons]
  cases instruction.storeSlot? with
  | none => simp
  | some slot =>
      rw [List.getLast?_cons]
      cases (rest.filterMap Instruction.storeSlot?).getLast? <;> rfl

/-- The greatest label below an offset. -/
structure Code.LabelBefore (code : Code) (pc previous : Nat) : Prop where
  label_mem : previous ∈ code.labels
  below : previous < pc
  greatest : ∀ label ∈ code.labels, label < pc → label ≤ previous

theorem Code.LabelBefore.unique {code : Code} {pc previous other : Nat}
    (h : code.LabelBefore pc previous) (hother : code.LabelBefore pc other) : previous = other :=
  Nat.le_antisymm (hother.greatest previous h.label_mem h.below)
    (h.greatest other hother.label_mem hother.below)

/-- The instructions from an offset on and before another. -/
def Code.instructionsBetween (code : Code) (first limit : Nat) : List Instruction :=
  code.instructions.filter (fun instruction =>
    first ≤ instruction.offset ∧ instruction.offset < limit)

/-- A store introduces a slot at an offset: it is the last reference store from the label
before the offset on, and the line holds at that label. -/
def Code.Introduces (code : Code) (pc slot line : Nat) : Prop :=
  ∃ previous, code.LabelBefore pc previous ∧
    (∃ entry, HoldsAt code.lines previous entry ∧ entry.line = line) ∧
    lastStore? (code.instructionsBetween previous pc) = some slot

/-- Where a variable starts and its slot. -/
def LocalVariable.key (entry : LocalVariable) : Nat × Nat := (entry.startPc, entry.index)

theorem LocalVariable.key_fst (entry : LocalVariable) : entry.key.1 = entry.startPc := rfl

/-- The variable is the first of those with its start and slot that may declare a type. -/
def IsFirstEligible (firstLocal : Nat) (entries : List LocalVariable) (entry : LocalVariable) :
    Prop :=
  (entries.filter (mayDeclareType firstLocal)).find? (fun other => other.key = entry.key) =
    some entry

/-- The variables of a body that declare their types, in order and with their lines. -/
structure Code.Declares (code : Code) (firstLocal : Nat)
    (declaring : List (LocalVariable × Nat)) : Prop where
  mem_iff : ∀ entry line, (entry, line) ∈ declaring ↔
    IsFirstEligible firstLocal code.locals entry ∧
      code.Introduces entry.startPc entry.index line
  sublist : (declaring.map Prod.fst).Sublist code.locals
  keys_nodup : (declaring.map (fun declared => declared.1.key)).Nodup

/-! What the walk through a body places. -/

/-- A list of moments ends in instructions after its last label, if it has one. -/
theorem exists_last_label (moments : List Moment) :
    (∃ runs : List Instruction, moments = runs.map Moment.run) ∨
      ∃ front pc, ∃ runs : List Instruction,
        moments = front ++ .label pc :: runs.map Moment.run := by
  induction moments with
  | nil => exact .inl ⟨[], rfl⟩
  | cons moment rest ih =>
      rcases ih with ⟨runs, rfl⟩ | ⟨front, pc, runs, rfl⟩
      · cases moment with
        | label pc => exact .inr ⟨[], pc, runs, rfl⟩
        | run instruction => exact .inl ⟨instruction :: runs, rfl⟩
      · exact .inr ⟨moment :: front, pc, runs, rfl⟩

namespace MarkerWalk

variable {table : LineTable}

theorem lastLine_foldl (table : LineTable) (walk : MarkerWalk) (moments : List Moment) :
    (moments.foldl (meet table) walk).lastLine =
      table.lineAfter walk.lastLine (moments.filterMap Moment.label?) := by
  induction moments generalizing walk with
  | nil => rfl
  | cons moment rest ih =>
      rw [List.foldl_cons, ih]
      cases moment with
      | label pc => rfl
      | run instruction =>
          have hline : (walk.meet table (.run instruction)).lastLine = walk.lastLine := by
            simp only [meet]
            split <;> rfl
          rw [hline]
          rfl

theorem meet_run (walk : MarkerWalk) (instruction : Instruction) :
    walk.meet table (.run instruction) =
      { walk with
        pending := (walk.lastLine.bind (fun line =>
          instruction.storeSlot?.map (fun slot => ⟨slot, line⟩))).or walk.pending } := by
  rcases walk with ⟨lastLine, pending, placed⟩
  cases hoperation : instruction.operation <;> cases lastLine <;>
    simp [meet, Instruction.storeSlot?, hoperation]

/-- Between labels the last store leaves its marker, once there is a line. -/
theorem pending_foldl_run (walk : MarkerWalk) (runs : List Instruction) :
    ((runs.map Moment.run).foldl (meet table) walk).pending =
      (walk.lastLine.bind (fun line =>
        (lastStore? runs).map (fun slot => ⟨slot, line⟩))).or walk.pending := by
  induction runs generalizing walk with
  | nil => cases walk.lastLine <;> rfl
  | cons instruction rest ih =>
      rw [List.map_cons, List.foldl_cons, ih, meet_run, lastStore?_cons]
      cases walk.lastLine <;> cases lastStore? rest <;> cases instruction.storeSlot? <;> rfl

/-- What is placed at an offset is placed by its label. -/
theorem placed_foldl_of_not_mem {pc : Nat} {moments : List Moment}
    (h : .label pc ∉ moments) (walk : MarkerWalk) :
    (moments.foldl (meet table) walk).placed[pc]? = walk.placed[pc]? := by
  induction moments generalizing walk with
  | nil => rfl
  | cons moment rest ih =>
      rw [List.mem_cons, not_or] at h
      rw [List.foldl_cons, ih h.2]
      cases moment with
      | run instruction => rw [meet_run]
      | label other =>
          have hother : other ≠ pc := fun heq => h.1 (heq ▸ rfl)
          simp only [meet]
          cases walk.pending with
          | none => rfl
          | some marker => simp [Std.TreeMap.getElem?_insert, hother]

theorem placed_meet_label (walk : MarkerWalk) (pc : Nat) :
    (walk.meet table (.label pc)).placed[pc]? = walk.pending.or walk.placed[pc]? := by
  simp only [meet]
  cases walk.pending with
  | none => rfl
  | some marker => simp

end MarkerWalk

theorem Code.label_mem_timeline {code : Code} {pc : Nat} :
    .label pc ∈ code.timeline.toList ↔ pc ∈ code.labels := by
  rw [← code.timeline_labels, List.mem_filterMap]
  refine ⟨fun h => ⟨_, h, rfl⟩, ?_⟩
  rintro ⟨moment, hmem, hlabel⟩
  cases moment with
  | label other => cases hlabel; exact hmem
  | run instruction => cases hlabel

section Timeline
variable {code : Code} (h : code.OffsetsAscend)
include h

/-- The instructions between two labels are those whose offsets are. -/
theorem Code.runs_between {previous pc : Nat} {front after : List Moment}
    {runs : List Instruction}
    (hsplit : code.timeline.toList =
      front ++ .label previous :: (runs.map Moment.run ++ .label pc :: after)) :
    runs = code.instructionsBetween previous pc := by
  have hbefore : code.timeline.toList =
      (front ++ .label previous :: runs.map Moment.run) ++ .label pc :: after := by
    rw [hsplit, List.append_assoc, List.cons_append]
  have hfront := code.instructions_before_label h hsplit
  have hall := code.instructions_before_label h hbefore
  have hruns : (front ++ .label previous :: runs.map Moment.run).filterMap Moment.instruction? =
      front.filterMap Moment.instruction? ++ runs := by
    simp [List.filterMap_append, List.filterMap_cons, Function.comp_def, Moment.instruction?]
  have hordered := code.timeline_ascends h
  rw [hsplit, List.pairwise_append, List.pairwise_cons] at hordered
  have hlate : ∀ instruction ∈ runs, previous ≤ instruction.offset := by
    intro instruction hmem
    have hrank := hordered.2.1.1 (.run instruction)
      (List.mem_append_left _ (List.mem_map_of_mem hmem))
    simp only [Moment.rank_label, Moment.rank_run] at hrank
    omega
  have hearly : (front.filterMap Moment.instruction?).filter
      (fun instruction => previous ≤ instruction.offset) = [] := by
    rw [hfront]
    refine List.filter_eq_nil_iff.mpr fun instruction hmem => ?_
    have hoffset := (List.mem_filter.mp hmem).2
    simp only [decide_eq_true_eq] at hoffset ⊢
    omega
  have hkept : runs.filter (fun instruction => previous ≤ instruction.offset) = runs :=
    List.filter_eq_self.mpr fun instruction hmem => by simpa using hlate instruction hmem
  calc runs = (front.filterMap Moment.instruction? ++ runs).filter
        (fun instruction => previous ≤ instruction.offset) := by
        rw [List.filter_append, hearly, hkept, List.nil_append]
    _ = code.instructionsBetween previous pc := by
        rw [← hruns, hall, List.filter_filter, instructionsBetween]
        refine List.filter_congr fun instruction _ => ?_
        rw [Bool.decide_and]

omit h in
/-- The last of the labels below an offset is the label before it. -/
theorem Code.labelBefore_of_labels {front : List Nat} {previous pc : Nat}
    (hlabels : front ++ [previous] = code.labels.filter (· < pc)) :
    code.LabelBefore pc previous := by
  have hmem : ∀ label, label ∈ front ++ [previous] ↔ label ∈ code.labels ∧ label < pc := by
    intro label
    rw [hlabels, List.mem_filter]
    simp
  have hordered : (front ++ [previous]).Pairwise (· < ·) := by
    rw [hlabels]
    exact code.labels_ascending.filter _
  obtain ⟨hprevious, hbelow⟩ :=
    (hmem previous).mp (List.mem_append_right _ (List.mem_singleton_self _))
  refine ⟨hprevious, hbelow, fun label hlabel hpc => ?_⟩
  rcases List.mem_append.mp ((hmem label).mpr ⟨hlabel, hpc⟩) with hfront | hlast
  · exact Nat.le_of_lt ((List.pairwise_append.mp hordered).2.2 label hfront previous
      (List.mem_singleton_self _))
  · exact Nat.le_of_eq (List.mem_singleton.mp hlast)

/-- Before a label the timeline has the label before it, and then the instructions between
the two; or it has no label at all. -/
theorem Code.timeline_before {pc : Nat} {before after : List Moment}
    (hsplit : code.timeline.toList = before ++ .label pc :: after) :
    ((∃ runs : List Instruction, before = runs.map Moment.run) ∧
        ∀ label ∈ code.labels, pc ≤ label) ∨
      ∃ front previous, code.LabelBefore pc previous ∧
        front.filterMap Moment.label? ++ [previous] =
          code.labels.filter (· ≤ previous) ∧
        before = front ++ .label previous ::
          (code.instructionsBetween previous pc).map Moment.run := by
  have hlabels := code.labels_before_label h hsplit
  -- The labels before are all that are below: none, or the last is the greatest.
  rcases exists_last_label before with ⟨runs, rfl⟩ | ⟨front, previous, runs, rfl⟩
  · left
    have hnone : (runs.map Moment.run).filterMap Moment.label? = [] := by
      simp [Function.comp_def, Moment.label?]
    refine ⟨⟨runs, rfl⟩, fun label hlabel => ?_⟩
    have hkept := List.filter_eq_nil_iff.mp (hlabels.symm.trans hnone) label hlabel
    simpa using hkept
  · right
    have hinner : code.timeline.toList =
        front ++ .label previous :: (runs.map Moment.run ++ .label pc :: after) := by
      rw [hsplit, List.append_assoc, List.cons_append]
    have hfront : (front ++ .label previous :: runs.map Moment.run).filterMap Moment.label? =
        front.filterMap Moment.label? ++ [previous] := by
      simp [List.filterMap_append, Function.comp_def, Moment.label?]
    rw [hfront] at hlabels
    have hprevious := Code.labelBefore_of_labels hlabels
    refine ⟨front, previous, hprevious, ?_, ?_⟩
    · rw [hlabels]
      refine List.filter_congr fun label hlabel => ?_
      have hbelow := hprevious.below
      have hup := hprevious.greatest label hlabel
      rw [decide_eq_decide]
      omega
    · rw [code.runs_between h hinner]

/-- What waits at a label after the moments before it is what a store has introduced. -/
theorem Code.pending_before {pc : Nat} {before after : List Moment}
    (hsplit : code.timeline.toList = before ++ .label pc :: after) (marker : LocalMarker) :
    (before.foldl (MarkerWalk.meet (.ofEntries code.lines)) {}).pending = some marker ↔
      code.Introduces pc marker.slot marker.line := by
  rcases code.timeline_before h hsplit with
    ⟨⟨runs, rfl⟩, hfirst⟩ | ⟨front, previous, hprevious, hlabels, rfl⟩
  · rw [MarkerWalk.pending_foldl_run]
    refine ⟨fun hpending => (by cases hpending), fun ⟨previous, hprevious, _⟩ => ?_⟩
    have hpc := hfirst previous hprevious.label_mem
    exact absurd hprevious.below (by omega)
  · have hline : ((front.foldl (MarkerWalk.meet (.ofEntries code.lines)) {}).meet
        (.ofEntries code.lines) (.label previous)).lastLine = lineHolding? code.lines previous := by
      have hfoldl := MarkerWalk.lastLine_foldl (.ofEntries code.lines) {}
        (front ++ [.label previous])
      rw [List.foldl_append, List.filterMap_append] at hfoldl
      refine hfoldl.trans ?_
      change LineTable.lineAfter _ none (front.filterMap Moment.label? ++ [previous]) = _
      rw [hlabels]
      exact LineTable.lineAfter_eq code.labels_ascending (fun entry => code.startPc_mem_labels)
        previous (fun _ => rfl)
    rw [List.foldl_append, List.foldl_cons, MarkerWalk.pending_foldl_run, hline]
    have hnone : ((front.foldl (MarkerWalk.meet (.ofEntries code.lines)) {}).meet
        (.ofEntries code.lines) (.label previous)).pending = none := rfl
    rw [hnone, Option.or_none]
    constructor
    · intro hpending
      obtain ⟨line, hholding, hpending⟩ := Option.bind_eq_some_iff.mp hpending
      obtain ⟨slot, hstore, rfl⟩ := Option.map_eq_some_iff.mp hpending
      exact ⟨previous, hprevious, lineHolding?_eq_some_iff.mp hholding, hstore⟩
    · rintro ⟨other, hother, hholding, hstore⟩
      cases hother.unique hprevious
      rw [lineHolding?_eq_some_iff.mpr hholding, hstore]
      rfl

/-- The markers of a body are what its stores introduce. -/
theorem Code.placeMarkers_eq_some_iff {pc : Nat} (hpc : pc ∈ code.labels) (marker : LocalMarker) :
    (placeMarkers (.ofEntries code.lines) code.timeline)[pc]? = some marker ↔
      code.Introduces pc marker.slot marker.line := by
  obtain ⟨before, after, hsplit⟩ := List.append_of_mem (code.label_mem_timeline.mpr hpc)
  have hordered := code.timeline_ascends h
  rw [hsplit, List.pairwise_append, List.pairwise_cons] at hordered
  have hbefore : .label pc ∉ before := fun hmem =>
    Nat.lt_irrefl _ (hordered.2.2 _ hmem _ List.mem_cons_self)
  have hafter : .label pc ∉ after := fun hmem => Nat.lt_irrefl _ (hordered.2.1.1 _ hmem)
  rw [placeMarkers, ← Array.foldl_toList, hsplit, List.foldl_append, List.foldl_cons,
    MarkerWalk.placed_foldl_of_not_mem hafter, MarkerWalk.placed_meet_label,
    MarkerWalk.placed_foldl_of_not_mem hbefore]
  have hempty : (({} : MarkerWalk).placed)[pc]? = none := Std.TreeMap.getElem?_emptyc
  rw [hempty, Option.or_none]
  exact code.pending_before h hsplit marker

end Timeline

/-! Which variables use up a marker. -/

/-- The line of the marker that waits for a variable. -/
def PlacedMarkers.lineFor? (markers : PlacedMarkers) (key : Nat × Nat) : Option Nat :=
  (markers[key.1]?.filter (fun marker => marker.slot = key.2)).map LocalMarker.line

/-- The variables that find a marker, with its line. -/
def declaringVariables (firstLocal : Nat) (entries : List LocalVariable)
    (markers : PlacedMarkers) : List (LocalVariable × Nat) :=
  (distinctAfter LocalVariable.key [] (entries.filter (mayDeclareType firstLocal))).filterMap
    (fun entry => (markers.lineFor? entry.key).map (Prod.mk entry))

/-- The references of a variable that declares its type, with their line. -/
def declaredReferences (glossary : Glossary) (source : MemberHandle)
    (declared : LocalVariable × Nat) : Except TextError (List Reference) :=
  (variableReferences glossary source declared.1).map
    (List.map (fun reference => reference.atLine (lineNumber declared.2)))

theorem PlacedMarkers.lineFor?_erase {markers : PlacedMarkers} {key : Nat × Nat} {line : Nat}
    (h : markers.lineFor? key = some line) (other : Nat × Nat) :
    lineFor? (markers.erase key.1) other =
      if other = key then none else markers.lineFor? other := by
  obtain ⟨marker, hfound, -⟩ := Option.map_eq_some_iff.mp h
  obtain ⟨hmarker, hslot⟩ := Option.filter_eq_some_iff.mp hfound
  by_cases hstart : other.1 = key.1
  · have herased : lineFor? (markers.erase key.1) other = none := by
      simp [lineFor?, hstart]
    rw [herased]
    split
    · rfl
    · rename_i hother
      have hslots : ¬ marker.slot = other.2 := fun heq => by
        simp only [decide_eq_true_eq] at hslot
        exact hother (Prod.ext hstart (heq.symm.trans hslot))
      simp [lineFor?, hstart, hmarker, Option.filter_some, hslots]
  · have hother : other ≠ key := fun heq => hstart (heq ▸ rfl)
    rw [if_neg hother]
    simp [lineFor?, Std.TreeMap.getElem?_erase, Ne.symm hstart]

theorem DeclaredLocals.declare_eq (glossary : Glossary) (source : MemberHandle)
    (firstLocal : Nat) (state : DeclaredLocals) (entry : LocalVariable) :
    state.declare glossary source firstLocal entry =
      if mayDeclareType firstLocal entry then
        match state.markers.lineFor? entry.key with
        | none => .ok state
        | some line =>
            (declaredReferences glossary source (entry, line)).map (fun named : List Reference =>
              { markers := state.markers.erase entry.startPc
                references := state.references ++ named })
      else .ok state := by
  rw [declare, PlacedMarkers.lineFor?, LocalVariable.key]
  split
  · cases hmarker : state.markers[entry.startPc]? with
    | none => rfl
    | some marker =>
        by_cases hslot : marker.slot = entry.index
        · simp only [hslot, Option.filter_some, decide_true, if_true, Option.map_some]
          rw [declaredReferences]
          cases variableReferences glossary source entry <;> rfl
        · simp [hslot, Option.filter_some]
  · rfl

/-- Markers are those that some keys leave: what was placed for these has been used up. -/
def PlacedMarkers.LeftBy (markers : PlacedMarkers) (seen : List (Nat × Nat))
    (left : PlacedMarkers) : Prop :=
  ∀ key, left.lineFor? key = if key ∈ seen then none else markers.lineFor? key

namespace PlacedMarkers

variable {markers left : PlacedMarkers} {seen : List (Nat × Nat)} {key : Nat × Nat}

theorem LeftBy.passOver (h : markers.LeftBy seen left) (hnone : markers.lineFor? key = none) :
    markers.LeftBy (key :: seen) left := by
  intro other
  rw [h other]
  by_cases hkey : other = key
  · simp [hkey, hnone]
  · simp [hkey]

theorem LeftBy.use (h : markers.LeftBy seen left) (hnew : key ∉ seen) {line : Nat}
    (hline : markers.lineFor? key = some line) :
    markers.LeftBy (key :: seen) (left.erase key.1) := by
  intro other
  have hfound : left.lineFor? key = some line := by
    rw [h key, if_neg hnew, hline]
  rw [lineFor?_erase hfound, h other]
  by_cases hkey : other = key <;> simp [hkey]

end PlacedMarkers

/-- The walk over the variables uses up markers as the first of each key find them. -/
theorem foldlM_declare (glossary : Glossary) (source : MemberHandle) (firstLocal : Nat)
    (markers : PlacedMarkers) (entries : List LocalVariable) (seen : List (Nat × Nat))
    (state : DeclaredLocals) (hstate : markers.LeftBy seen state.markers) :
    (entries.foldlM (DeclaredLocals.declare glossary source firstLocal) state).map
        (fun declared => declared.references.toList) =
      (((distinctAfter LocalVariable.key seen
          (entries.filter (mayDeclareType firstLocal))).filterMap
        (fun entry => (markers.lineFor? entry.key).map (Prod.mk entry))).mapM
          (declaredReferences glossary source)).map
        (fun named => state.references.toList ++ named.flatten) := by
  -- The keys met so far say which markers are left; a key met again finds none.
  induction entries generalizing seen state with
  | nil => simp [distinctAfter, pure, Except.pure, Except.map]
  | cons entry rest ih =>
      rw [List.foldlM_cons, DeclaredLocals.declare_eq]
      by_cases hmay : mayDeclareType firstLocal entry
      · rw [if_pos hmay, List.filter_cons_of_pos hmay, hstate entry.key, distinctAfter]
        by_cases hseen : entry.key ∈ seen
        · rw [if_pos hseen, if_pos hseen]
          exact ih seen state hstate
        · rw [if_neg hseen, if_neg hseen, List.filterMap_cons]
          cases hline : markers.lineFor? entry.key with
          | none => exact ih (entry.key :: seen) state (hstate.passOver hline)
          | some line =>
              have hused := hstate.use hseen hline
              simp only [Option.map_some, List.mapM_cons]
              cases declaredReferences glossary source (entry, line) with
              | error error => rfl
              | ok named =>
                  refine (ih (entry.key :: seen) _ hused).trans ?_
                  cases (((distinctAfter LocalVariable.key (entry.key :: seen)
                      (rest.filter (mayDeclareType firstLocal))).filterMap
                    (fun entry => (markers.lineFor? entry.key).map (Prod.mk entry))).mapM
                      (declaredReferences glossary source)) with
                  | error error => rfl
                  | ok others => simp [Except.map, bind, Except.bind, pure, Except.pure]
      · rw [if_neg hmay, List.filter_cons_of_neg hmay]
        exact ih seen state hstate

/-- The references of local variables are those of the variables that find a marker. -/
theorem localReferences_eq (glossary : Glossary) (source : MemberHandle) (firstLocal : Nat)
    (entries : List LocalVariable) (markers : PlacedMarkers) :
    (localReferences glossary source firstLocal entries markers).map Array.toList =
      ((declaringVariables firstLocal entries markers).mapM
        (declaredReferences glossary source)).map List.flatten := by
  have hfold := foldlM_declare glossary source firstLocal markers entries [] { markers := markers }
    (fun key => by simp)
  rw [localReferences, declaringVariables]
  simp only [List.nil_append] at hfold
  rw [← hfold]
  cases entries.foldlM (DeclaredLocals.declare glossary source firstLocal)
    { markers := markers } <;> rfl

theorem IsFirstEligible.mem {firstLocal : Nat} {entries : List LocalVariable}
    {entry : LocalVariable} (h : IsFirstEligible firstLocal entries entry) : entry ∈ entries :=
  (List.mem_filter.mp (List.mem_of_find?_eq_some h)).1

theorem map_fst_declaringVariables (firstLocal : Nat) (entries : List LocalVariable)
    (markers : PlacedMarkers) :
    (declaringVariables firstLocal entries markers).map Prod.fst =
      (distinctAfter LocalVariable.key [] (entries.filter (mayDeclareType firstLocal))).filter
        (fun entry => (markers.lineFor? entry.key).isSome) := by
  rw [declaringVariables]
  induction distinctAfter LocalVariable.key [] (entries.filter (mayDeclareType firstLocal)) with
  | nil => rfl
  | cons entry rest ih =>
      cases hline : markers.lineFor? entry.key with
      | none => simpa [hline] using ih
      | some line => simpa [hline] using ih

theorem mem_declaringVariables {firstLocal : Nat} {entries : List LocalVariable}
    {markers : PlacedMarkers} {entry : LocalVariable} {line : Nat} :
    (entry, line) ∈ declaringVariables firstLocal entries markers ↔
      IsFirstEligible firstLocal entries entry ∧ markers.lineFor? entry.key = some line := by
  rw [declaringVariables, List.mem_filterMap, IsFirstEligible, ← mem_distinctAfter_nil_iff]
  constructor
  · rintro ⟨found, hfound, hline⟩
    obtain ⟨other, hother, heq⟩ := Option.map_eq_some_iff.mp hline
    cases heq
    exact ⟨hfound, hother⟩
  · rintro ⟨hfound, hline⟩
    exact ⟨entry, hfound, by rw [hline]; rfl⟩

/-- The variables that find a marker of their body are those that its tables say declare. -/
theorem Code.declares_declaringVariables {code : Code} (h : code.OffsetsAscend)
    (firstLocal : Nat) :
    code.Declares firstLocal (declaringVariables firstLocal code.locals
      (placeMarkers (.ofEntries code.lines) code.timeline)) where
  mem_iff entry line := by
    rw [mem_declaringVariables]
    refine and_congr_right fun hfirst => ?_
    have hlabel : entry.startPc ∈ code.labels := by
      rw [mem_labels, labelOffsets, List.mem_append]
      exact .inr (List.mem_flatMap.mpr ⟨entry, hfirst.mem, List.mem_cons_self⟩)
    rw [PlacedMarkers.lineFor?, entry.key_fst, Option.map_eq_some_iff]
    constructor
    · rintro ⟨marker, hmarker, rfl⟩
      obtain ⟨hfound, hslot⟩ := Option.filter_eq_some_iff.mp hmarker
      simp only [decide_eq_true_eq] at hslot
      have hintroduces := (code.placeMarkers_eq_some_iff h hlabel marker).mp hfound
      rwa [hslot] at hintroduces
    · intro hintroduces
      have hfound :=
        (code.placeMarkers_eq_some_iff h hlabel ⟨entry.index, line⟩).mpr hintroduces
      exact ⟨⟨entry.index, line⟩, Option.filter_eq_some_iff.mpr ⟨hfound, by
        simp [LocalVariable.key]⟩, rfl⟩
  sublist := by
    rw [map_fst_declaringVariables]
    exact List.filter_sublist.trans
      ((distinctAfter_sublist LocalVariable.key [] _).trans List.filter_sublist)
  keys_nodup := by
    have hnodup := nodup_distinctAfter LocalVariable.key []
      (code.locals.filter (mayDeclareType firstLocal))
    have hmap : ∀ declaring : List (LocalVariable × Nat),
        declaring.map (fun declared => declared.1.key) =
          (declaring.map Prod.fst).map LocalVariable.key := by simp
    rw [hmap, map_fst_declaringVariables]
    exact (List.filter_sublist.map LocalVariable.key).nodup hnodup

end Linkage
