import Linkage.Proofs.MaskedBodies
/-
What the walk through a body comes to.  Positions and caught types lead to entries that
there are when the body ends, so the lines that a body assigns leave alone whatever follows
these entries.
-/

namespace Linkage

/-! Entries that follow those of a walk. -/

theorem setLine_append {front : Array Entry} {index : Nat} (h : index < front.size)
    (back : Array Entry) (line : Int) :
    setLine (front ++ back) index line = setLine front index line ++ back := by
  refine Array.ext_getElem? fun other => ?_
  simp only [setLine, Array.getElem?_modify, Array.getElem?_append, Array.size_modify]
  by_cases hother : other < front.size
  · simp [hother]
  · have hne : index ≠ other := by omega
    simp [hother, hne]

theorem foldl_setLine_append {indices : List Nat} {front : Array Entry}
    (h : ∀ index ∈ indices, index < front.size) (back : Array Entry) (line : Int) :
    indices.foldl (fun entries index => setLine entries index line) (front ++ back) =
      indices.foldl (fun entries index => setLine entries index line) front ++ back := by
  induction indices generalizing front with
  | nil => rfl
  | cons index rest ih =>
      rw [List.forall_mem_cons] at h
      rw [List.foldl_cons, setLine_append h.1, List.foldl_cons]
      exact ih (by simpa [setLine] using h.2)

theorem size_eq_of_unlinedAll {left right : Array Entry} (h : unlinedAll left = unlinedAll right) :
    left.size = right.size := by
  simpa [unlinedAll] using congrArg List.length h

/-- The walk with further entries, which it does not come to. -/
def LineWalk.extended (walk : LineWalk) (back : Array Entry) : LineWalk :=
  { walk with entries := walk.entries ++ back }

/-- A position leads to no entry from a limit on. -/
def Position.Below (limit : Nat) : Position → Prop
  | .label _ => True
  | .entry index => index < limit

theorem Position.Below.mono {limit more : Nat} {position : Position} (h : position.Below limit)
    (hle : limit ≤ more) : position.Below more := by
  cases position with
  | label pc => trivial
  | entry index => exact Nat.lt_of_lt_of_le h hle

section
variable {table : LineTable} {waiting : WaitingCatches}

theorem LineWalk.meet_label_of_line {pc line : Nat} (hline : table.lineAt pc = some line)
    (walk : LineWalk) :
    walk.meet table waiting (.label pc) = { walk with current := lineNumber line } := by
  unfold meet
  simp only [hline]

theorem LineWalk.meet_extended {walk : LineWalk} {position : Position}
    (hposition : position.Below walk.entries.size)
    (hwaiting : ∀ pc, ∀ index ∈ waiting.getD pc [], index < walk.entries.size)
    (back : Array Entry) :
    (walk.extended back).meet table waiting position =
      (walk.meet table waiting position).extended back := by
  cases position with
  | label pc =>
      have hfold := foldl_setLine_append (hwaiting pc) back walk.current
      cases hline : table.lineAt pc with
      | some line =>
          rw [meet_label_of_line hline, meet_label_of_line hline]
          generalize lineNumber line = number
          rfl
      | none =>
          unfold meet extended
          simp only [hline, hfold]
  | entry index =>
      have hfound : (walk.entries ++ back)[index]? = walk.entries[index]? :=
        Array.getElem?_append_left hposition
      simp only [meet, extended, hfound]
      cases walk.entries[index]? with
      | none => rfl
      | some entry =>
          by_cases hline : entry.line = -1
          · simp [hline, setLine_append hposition]
          · simp [hline]

theorem LineWalk.foldl_meet_extended {positions : List Position} {walk : LineWalk}
    (hpositions : ∀ position ∈ positions, position.Below walk.entries.size)
    (hwaiting : ∀ pc, ∀ index ∈ waiting.getD pc [], index < walk.entries.size)
    (back : Array Entry) :
    positions.foldl (LineWalk.meet table waiting) (walk.extended back) =
      (positions.foldl (LineWalk.meet table waiting) walk).extended back := by
  induction positions generalizing walk with
  | nil => rfl
  | cons position rest ih =>
      rw [List.forall_mem_cons] at hpositions
      have hsize := size_eq_of_unlinedAll (unlinedAll_meet table waiting walk position)
      rw [List.foldl_cons, meet_extended hpositions.1 hwaiting, List.foldl_cons]
      exact ih (by rw [hsize]; exact hpositions.2) (by rw [hsize]; exact hwaiting)

end

theorem placeCatches_append {table : LineTable} {catches : Array CatchPlace}
    {front : Array Entry} (h : ∀ place ∈ catches.toList, place.index < front.size)
    (back : Array Entry) :
    placeCatches table catches (front ++ back) = placeCatches table catches front ++ back := by
  simp only [placeCatches, ← Array.foldl_toList]
  generalize catches.toList = places at h
  induction places generalizing front with
  | nil => rfl
  | cons place rest ih =>
      rw [List.forall_mem_cons] at h
      rw [List.foldl_cons, List.foldl_cons]
      cases table.lineAt place.handlerPc with
      | none => exact ih h.2
      | some line =>
          simp only [setLine_append h.1]
          exact ih (by simpa [setLine] using h.2)

/-- Entries that a body does not come to keep their lines. -/
theorem assignLines_append {lines : List LineEntry} {catches : Array CatchPlace}
    {positions : Array Position} {front : Array Entry}
    (hcatches : ∀ place ∈ catches.toList, place.index < front.size)
    (hpositions : ∀ position ∈ positions.toList, position.Below front.size)
    (back : Array Entry) :
    assignLines lines catches positions (front ++ back) =
      assignLines lines catches positions front ++ back := by
  rw [assignLines, assignLines]
  cases firstLine lines with
  | none => rfl
  | some first =>
      have hsize := size_eq_of_unlinedAll
        (unlinedAll_placeCatches (.ofEntries lines) catches front)
      have hwaiting : ∀ pc, ∀ index ∈
          (waitingCatches (.ofEntries lines) catches).getD pc [], index < front.size := by
        intro pc index hmem
        obtain ⟨place, hplace, rfl⟩ := exists_place_of_mem_waitingCatches hmem
        exact hcatches place hplace
      simp only [← Array.foldl_toList]
      let start : LineWalk :=
        { current := lineNumber first, entries := placeCatches (.ofEntries lines) catches front }
      have hwalk := @LineWalk.foldl_meet_extended (.ofEntries lines) _ _ start
        (by simpa only [start, hsize] using hpositions)
        (by simpa only [start, hsize] using hwaiting)
        back
      rw [placeCatches_append hcatches]
      simp only [start] at hwalk
      -- A number stands in the way of comparing the two walks: it is left open.
      generalize lineNumber first = number at hwalk ⊢
      exact congrArg LineWalk.entries hwalk

/-! Entries that a body comes to. -/

namespace BodyWalk

/-- What a body has come to are entries that there are. -/
structure Within (walk : BodyWalk) : Prop where
  positions : ∀ position ∈ walk.positions.toList, position.Below walk.entries.size
  catches : ∀ place ∈ walk.catches.toList, place.index < walk.entries.size

variable {options : ExtractOptions} {site : BodySite} {walk : BodyWalk}

theorem Within.record (h : walk.Within) (draft : Draft) :
    (walk.record options site draft).Within := by
  have hsize : (walk.record options site draft).entries.size = walk.entries.size + 1 := by
    simp [BodyWalk.record]
  constructor
  · intro position hmem
    rw [hsize]
    simp only [BodyWalk.record, Array.toList_push, List.mem_append, List.mem_singleton,
      Array.size_push] at hmem
    rcases hmem with hmem | rfl
    · exact Position.Below.mono (h.positions position hmem) (Nat.le_succ _)
    · simp [Position.Below]
  · intro place hmem
    rw [hsize]
    exact Nat.lt_succ_of_lt (h.catches place hmem)

theorem Within.foldl_record (h : walk.Within) (drafts : List Draft) :
    (drafts.foldl (BodyWalk.record options site) walk).Within := by
  induction drafts generalizing walk with
  | nil => exact h
  | cons draft rest ih => exact ih (h.record draft)

theorem Within.recordCatch (h : walk.Within) (handler : ExceptionHandler) :
    (walk.recordCatch options site handler).Within := by
  rw [BodyWalk.recordCatch]
  split
  · exact h
  · rename_i name _
    have hnext : (walk.record options site (.ofReference
        (Reference.ofType site.source (site.qualified name) .catchException))).Within := h.record _
    refine ⟨hnext.positions, fun place hmem => ?_⟩
    simp only [Array.toList_push, List.mem_append, List.mem_singleton] at hmem
    rcases hmem with hmem | rfl
    · exact hnext.catches place hmem
    · simp [BodyWalk.record]

theorem Within.meet {localTypes : LocalTypes} (h : walk.Within)
    (hlocal : ∀ name, ∀ index ∈ localTypes.getD name [], index < walk.entries.size)
    (moment : Moment) : (walk.meet options site localTypes moment).Within := by
  cases moment with
  | label pc =>
      refine ⟨fun position hmem => ?_, h.catches⟩
      simp only [BodyWalk.meet, Array.toList_push, List.mem_append, List.mem_singleton] at hmem
      rcases hmem with hmem | rfl
      · exact h.positions position hmem
      · trivial
  | run instruction =>
      let met : BodyWalk :=
        { walk with
          positions := walk.positions ++ (replayed site localTypes instruction).map Position.entry
          state := site.after walk.state instruction }
      have hmet : met.Within := by
        refine ⟨fun position hmem => ?_, h.catches⟩
        simp only [met, Array.toList_appendList, List.mem_append, List.mem_map] at hmem
        rcases hmem with hmem | ⟨index, hindex, rfl⟩
        · exact h.positions position hmem
        · rw [replayed_eq] at hindex
          obtain ⟨name, -, hindex⟩ := List.mem_flatMap.mp hindex
          exact hlocal name index hindex
      exact hmet.foldl_record _

theorem size_meet_le (options : ExtractOptions) (site : BodySite) (walk : BodyWalk)
    (localTypes : LocalTypes) (moment : Moment) :
    walk.entries.size ≤ (walk.meet options site localTypes moment).entries.size := by
  have hentries := foldl_meet options site localTypes walk [moment]
  rw [List.foldl_cons, List.foldl_nil] at hentries
  rw [hentries, Array.size_append]
  exact Nat.le_add_right _ _

theorem Within.foldl_meet {localTypes : LocalTypes} (h : walk.Within)
    (hlocal : ∀ name, ∀ index ∈ localTypes.getD name [], index < walk.entries.size)
    (moments : List Moment) :
    (moments.foldl (BodyWalk.meet options site localTypes) walk).Within := by
  induction moments generalizing walk with
  | nil => exact h
  | cons moment rest ih =>
      have hsize := size_meet_le options site walk localTypes moment
      exact ih (h.meet hlocal moment)
        (fun name index hindex => Nat.lt_of_lt_of_le (hlocal name index hindex) hsize)

theorem Within.foldl_recordCatch (h : walk.Within) (handlers : List ExceptionHandler) :
    (handlers.foldl (BodyWalk.recordCatch options site) walk).Within := by
  induction handlers generalizing walk with
  | nil => exact h
  | cons handler rest ih => exact ih (h.recordCatch handler)

/-- A body whose local types are entries that there are comes to such entries only. -/
theorem through_within {localTypes : LocalTypes} {entries : Array Entry}
    (hlocal : ∀ name, ∀ index ∈ localTypes.getD name [], index < entries.size) (code : Code) :
    (through options site localTypes code code.timeline entries).Within := by
  have hstart : BodyWalk.Within { entries := entries } := ⟨by simp, by simp⟩
  have hcatches := foldl_recordCatch options site { entries := entries } code.handlers
  rw [through, ← Array.foldl_toList]
  refine (hstart.foldl_recordCatch code.handlers).foldl_meet (fun name index hindex => ?_) _
  rw [hcatches.1, Array.size_append]
  exact Nat.lt_add_right _ (hlocal name index hindex)

end BodyWalk

end Linkage
