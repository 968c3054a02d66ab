import Linkage.Proofs.InstructionReferences
import Linkage.Proofs.LineTables
/-
Bodies with lines.  In a body whose line table covers it, every reference that an
instruction records is on the line that the table gives to the instruction, every caught
type on the line of its handler, and every entry of a local type that has no line yet on the
line of the creation of the type.  So the lines of a body are those of a plain reading of
the table, and so are the lines of the methods of a type, if they create each of its local
types once.
-/

namespace Linkage

/-! What a body records is without a line at first. -/

namespace BodySite

variable (site : BodySite)

theorem line_of_mem_drafts {state : CallState} {instruction : Instruction} {draft : Draft}
    (h : draft ∈ site.drafts state instruction) : draft.reference.line = -1 := by
  cases instructionMakes_of_mem h with
  | call _ hmakes => cases hmakes <;> rfl
  | access _ => rfl
  | operand _ _ => rfl

theorem line_of_mem_catchDrafts {handlers : List ExceptionHandler} {draft : Draft}
    (h : draft ∈ site.catchDrafts handlers) : draft.reference.line = -1 := by
  obtain ⟨name, -, rfl⟩ := List.mem_map.mp h
  rfl

theorem line_of_mem_instructionDrafts {state : CallState} {instructions : List Instruction}
    {draft : Draft} (h : draft ∈ site.instructionDrafts state instructions) :
    draft.reference.line = -1 := by
  obtain ⟨_, _, _, -, hmem⟩ := mem_instructionDrafts.mp h
  exact site.line_of_mem_drafts hmem

/-- The drafts of a body, but for the types of local variables. -/
theorem placedDrafts_drafts (code : Code) :
    (site.placedDrafts code).map Prod.fst =
      site.catchDrafts code.handlers ++ site.instructionDrafts {} code.instructions := by
  rw [placedDrafts, List.map_append, placedCatches_drafts, placedInstructions_drafts]

end BodySite

theorem lineAt?_draftEntries (options : ExtractOptions) (site : BodySite) {drafts : List Draft}
    (h : ∀ draft ∈ drafts, draft.reference.line = -1) {position : Nat}
    (hposition : position < drafts.length) :
    lineAt? (BodyWalk.draftEntries options site drafts) position = some (-1) := by
  have hline := h drafts[position] (List.getElem_mem hposition)
  simp [lineAt?, BodyWalk.draftEntries, hposition, Entry.line, ExtractOptions.record, hline]

/-! The lines of a body. -/

/-- The entries of local types that some creations lead to are without a line, and are
created once. -/
structure FreshCreations (localTypes : LocalTypes) (names : List String)
    (entries : Array Entry) : Prop where
  once : (names.flatMap (fun name => localTypes.getD name [])).Nodup
  unlined : ∀ index ∈ names.flatMap (fun name => localTypes.getD name []),
    lineAt? entries index = some (-1)

theorem lt_size_of_lineAt? {entries : Array Entry} {index : Nat} {line : Int}
    (h : lineAt? entries index = some line) : index < entries.size := by
  rw [lineAt?, Option.map_eq_some_iff] at h
  obtain ⟨entry, hentry, -⟩ := h
  exact (Array.getElem?_eq_some_iff.mp hentry).1

/-- The entries of a type when a body has been recorded and its lines are not yet assigned:
those before the body, and new ones without a line. -/
structure BodyEntries (entries : Array Entry) (count : Nat) (all : Array Entry) : Prop where
  before : ∀ index < entries.size, lineAt? all index = lineAt? entries index
  recorded : ∀ position < count, lineAt? all (entries.size + position) = some (-1)

theorem BodySite.length_placedDrafts (site : BodySite) (code : Code) :
    (site.placedDrafts code).length = (caughtTypes code.handlers).length +
      (site.instructionDrafts {} code.instructions).length := by
  rw [placedDrafts, List.length_append, placedCatches, List.length_map,
    ← site.placedInstructions_drafts, List.length_map]

section Body
variable {site : BodySite} {localTypes : LocalTypes} {code : Code} {entries all : Array Entry}
  {catches : Array CatchPlace} {current : Int}
  (hcatches : catches.toList = catchPlaces entries.size (caughtTypes code.handlers))
  (hall : BodyEntries entries (site.placedDrafts code).length all)
  (hfresh : FreshCreations localTypes (code.instructions.filterMap Instruction.created?) entries)

include hcatches in
theorem ne_catch_of_range (index : Nat) (h : index < entries.size ∨
    entries.size + (caughtTypes code.handlers).length ≤ index) :
    ∀ place ∈ catches.toList, place.index ≠ index := by
  intro place hplace heq
  rw [hcatches, mem_catchPlaces] at hplace
  obtain ⟨position, name, hindex, hget⟩ := hplace
  have hposition := (List.getElem?_eq_some_iff.mp hget).1
  omega

include hcatches hall hfresh in
/-- The walk over the moments of a body meets entries without a line, each of them once. -/
theorem meetsFresh_body (current : Int) : MeetsFresh
    (waitingCatches (.ofEntries code.lines) catches)
    (caughtWalk (.ofEntries code.lines) catches current all).entries
    (site.positions localTypes {} (entries.size + (caughtTypes code.handlers).length)
      code.timeline.toList) := by
  have hmet := site.entriesMet_positions localTypes {}
    (entries.size + (caughtTypes code.handlers).length) code.timeline.toList
  rw [code.timeline_instructions] at hmet
  have hlength := site.length_placedDrafts code
  have hcreated : ∀ index ∈ createdEntries localTypes code.instructions,
      index < entries.size ∧ lineAt? entries index = some (-1) :=
    fun index hindex => ⟨lt_size_of_lineAt? (hfresh.unlined index hindex),
      hfresh.unlined index hindex⟩
  have hrange : ∀ index ∈ entriesMet (site.positions localTypes {}
      (entries.size + (caughtTypes code.handlers).length) code.timeline.toList),
      index < entries.size ∨ entries.size + (caughtTypes code.handlers).length ≤ index := by
    intro index hindex
    rcases List.mem_append.mp (hmet.mem_iff.mp hindex) with hmem | hmem
    · exact .inl (hcreated index hmem).1
    · exact .inr (List.mem_range'_1.mp hmem).1
  -- Local types leave entries from before the body; its own come after them and the caught.
  refine ⟨hmet.nodup_iff.mpr ?_, fun index hindex => ?_, fun index hindex pc hmem => ?_⟩
  · refine List.nodup_append.mpr ⟨hfresh.once, List.nodup_range', ?_⟩
    intro index hindex other hother heq
    have hbefore := (hcreated index hindex).1
    have hnew := (List.mem_range'_1.mp hother).1
    omega
  · rw [lineAt?_caughtWalk (ne_catch_of_range hcatches index (hrange index hindex))]
    rcases List.mem_append.mp (hmet.mem_iff.mp hindex) with hmem | hmem
    · obtain ⟨hbefore, hline⟩ := hcreated index hmem
      rw [hall.before index hbefore, hline]
    · obtain ⟨hlow, hhigh⟩ := List.mem_range'_1.mp hmem
      have hline := hall.recorded (index - entries.size) (by omega)
      rwa [Nat.add_sub_cancel' (by omega)] at hline
  · have hwaiting := (mem_waitingCatches.mp hmem).2
    exact ne_catch_of_range hcatches index (hrange index hindex) _ hwaiting rfl

/-- The lines that a body gives to its entries. -/
def bodyLines (site : BodySite) (localTypes : LocalTypes) (code : Code) (start : Nat)
    (catches : Array CatchPlace) (current : Int) (all : Array Entry) : Array Entry :=
  ((site.positions localTypes {} (start + (caughtTypes code.handlers).length)
      code.timeline.toList).foldl
    (LineWalk.meet (.ofEntries code.lines) (waitingCatches (.ofEntries code.lines) catches))
    (caughtWalk (.ofEntries code.lines) catches current all)).entries

theorem Code.exists_timeline_split {before after : List Instruction} {instruction : Instruction}
    (hsplit : code.instructions = before ++ instruction :: after) :
    ∃ front back, code.timeline.toList = front ++ .run instruction :: back ∧
      front.filterMap Moment.instruction? = before := by
  have htimeline := code.timeline_instructions
  rw [hsplit, List.filterMap_eq_append_iff] at htimeline
  obtain ⟨front, tail, hfront, hbefore, htail⟩ := htimeline
  obtain ⟨labels, moment, back, rfl, hlabels, hmoment, -⟩ := List.filterMap_eq_cons_iff.mp htail
  have hrun : moment = .run instruction := by
    cases moment with
    | label pc => cases hmoment
    | run other => rw [← Option.some.inj hmoment]
  refine ⟨front ++ labels, back, by rw [hfront, hrun, List.append_assoc], ?_⟩
  rw [List.filterMap_append, hbefore, List.filterMap_eq_nil_iff.mpr hlabels, List.append_nil]

include hcatches hall hfresh in
/-- What an instruction records, and what it creates, is on the line of its offset. -/
theorem lineAt?_bodyLines_run (hcode : code.WellLined) {before after : List Instruction}
    {instruction : Instruction} (hsplit : code.instructions = before ++ instruction :: after)
    {index : Nat} (hindex : index ∈ replayed site localTypes instruction ++
      List.range' (entries.size + (caughtTypes code.handlers).length +
        (site.instructionDrafts {} before).length)
        (site.drafts (before.foldl site.after {}) instruction).length) :
    lineAt? (bodyLines site localTypes code entries.size catches current all) index =
      some (code.sourceLine instruction.offset) := by
  obtain ⟨front, back, htimeline, hbefore⟩ := Code.exists_timeline_split hsplit
  obtain ⟨met, unmet, hmet⟩ := List.append_of_mem hindex
  have hpositions := site.positions_append localTypes {}
    (entries.size + (caughtTypes code.handlers).length) front (.run instruction :: back)
  rw [hbefore, BodySite.positions, ← List.append_assoc (List.map _ _), ← List.map_append, hmet,
    List.map_append, List.map_cons] at hpositions
  simp only [List.append_assoc, List.cons_append] at hpositions
  rw [← List.append_assoc] at hpositions
  have hfreshly := meetsFresh_body hcatches hall hfresh current
  rw [htimeline, hpositions] at hfreshly
  have hlabels : labelsMet (site.positions localTypes {}
      (entries.size + (caughtTypes code.handlers).length) front ++ met.map Position.entry) =
        code.labels.filter (· ≤ instruction.offset) := by
    rw [labelsMet, List.filterMap_append, ← labelsMet, site.labelsMet_positions,
      code.labels_before_run hcode.ascends htimeline]
    simp [Position.label?, Function.comp_def]
  rw [bodyLines, htimeline, hpositions, hfreshly.lineAt?_met, hlabels, hcode.currentAfter_eq]

theorem handlerPc_mem_labels {name : String} {pc : Nat}
    (h : (name, pc) ∈ caughtTypes code.handlers) : pc ∈ code.labels := by
  obtain ⟨handler, hhandler, hcaught⟩ := List.mem_filterMap.mp h
  obtain ⟨other, -, heq⟩ := Option.map_eq_some_iff.mp hcaught
  rw [Prod.mk.injEq] at heq
  rw [Code.mem_labels, Code.labelOffsets, List.append_assoc, List.mem_append, List.mem_append]
  refine .inr (.inl (List.mem_flatMap.mpr ⟨handler, hhandler, ?_⟩))
  simp [heq.2]

theorem Code.exists_timeline_split_label {pc : Nat} (h : pc ∈ code.labels) :
    ∃ front back, code.timeline.toList = front ++ .label pc :: back ∧
      pc ∉ back.filterMap Moment.label? := by
  have htimeline := code.timeline_labels
  obtain ⟨before, after, hlabels⟩ := List.append_of_mem h
  have honce := code.labels_ascending.imp (fun hlt => Nat.ne_of_lt hlt)
  rw [hlabels] at htimeline honce
  obtain ⟨front, tail, hfront, -, htail⟩ := List.filterMap_eq_append_iff.mp htimeline
  obtain ⟨runs, moment, back, rfl, -, hmoment, hback⟩ := List.filterMap_eq_cons_iff.mp htail
  have hlabel : moment = .label pc := by
    cases moment with
    | label other => rw [← Option.some.inj hmoment]
    | run instruction => cases hmoment
  refine ⟨front ++ runs, back, by rw [hfront, hlabel, List.append_assoc], ?_⟩
  rw [hback]
  intro hmem
  exact (List.pairwise_cons.mp (List.pairwise_append.mp honce).2.1).1 pc hmem rfl

include hcatches hall hfresh in
/-- A caught type is on the line of its handler. -/
theorem lineAt?_bodyLines_catch (hcode : code.WellLined) {place : CatchPlace}
    (hplace : place ∈ catches.toList) :
    lineAt? (bodyLines site localTypes code entries.size catches current all) place.index =
      some (code.sourceLine place.handlerPc) := by
  have honce : (catches.toList.map CatchPlace.index).Nodup := by
    rw [hcatches]
    exact catchPlaces_nodup _ _
  obtain ⟨position, name, hindex, hget⟩ := mem_catchPlaces.mp (hcatches ▸ hplace)
  have hposition := (List.getElem?_eq_some_iff.mp hget).1
  have hlength := site.length_placedDrafts code
  have hsize : place.index < all.size :=
    hindex ▸ lt_size_of_lineAt? (hall.recorded position (by omega))
  cases hline : (LineTable.ofEntries code.lines).lineAt place.handlerPc with
  | some line =>
      have hnonneg := hcode.sourceLine_nonneg place.handlerPc
      rw [hcode.sourceLine_of_lineAt hline] at hnonneg ⊢
      exact lineAt?_of_handler_line honce hplace hline (by omega) hsize _
  | none =>
      have hlabel := handlerPc_mem_labels (List.mem_of_getElem? hget)
      obtain ⟨front, back, htimeline, hback⟩ := Code.exists_timeline_split_label hlabel
      have hpositions := site.positions_append localTypes {}
        (entries.size + (caughtTypes code.handlers).length) front (.label place.handlerPc :: back)
      rw [BodySite.positions] at hpositions
      have hfreshly := meetsFresh_body hcatches hall hfresh current
      rw [htimeline, hpositions] at hfreshly
      rw [bodyLines, htimeline, hpositions, hfreshly.lineAt?_waiting hline
        (mem_waitingCatches.mpr ⟨hline, hplace⟩)
        (fun other hother hmem => hother (eq_of_mem_waitingCatches honce hplace hmem).1)
        (by rwa [site.labelsMet_positions]) (by rwa [size_caughtWalk]), site.labelsMet_positions,
        code.labels_before_label hcode.ascends htimeline, hcode.currentAfter_eq_of_none _ hline]

include hcatches in
/-- A body leaves the lines of all other entries. -/
theorem lineAt?_bodyLines_other {index : Nat}
    (hcreated : index ∉ createdEntries localTypes code.instructions)
    (hother : index < entries.size ∨ entries.size + (site.placedDrafts code).length ≤ index) :
    lineAt? (bodyLines site localTypes code entries.size catches current all) index =
      lineAt? all index := by
  have hlength := site.length_placedDrafts code
  have hcaught := ne_catch_of_range hcatches index (by omega)
  have hmet : .entry index ∉ site.positions localTypes {}
      (entries.size + (caughtTypes code.handlers).length) code.timeline.toList := by
    intro hmem
    have hperm := site.entriesMet_positions localTypes {}
      (entries.size + (caughtTypes code.handlers).length) code.timeline.toList
    rw [code.timeline_instructions] at hperm
    rcases List.mem_append.mp (hperm.mem_iff.mp (mem_entriesMet.mpr hmem)) with hmem | hmem
    · exact hcreated hmem
    · obtain ⟨hlow, hhigh⟩ := List.mem_range'_1.mp hmem
      omega
  rw [bodyLines, lineAt?_foldl_meet
    (fun pc hmem => hcaught _ (mem_waitingCatches.mp hmem).2 rfl) hmet,
    lineAt?_caughtWalk hcaught]

end Body

/-- The draft of an instruction is among those that come after the drafts before it. -/
theorem BodySite.exists_of_placedInstructions {site : BodySite} {state : CallState}
    {instructions : List Instruction} {position offset : Nat} {draft : Draft}
    (h : (site.placedInstructions state instructions)[position]? = some (draft, offset)) :
    ∃ before instruction after, instructions = before ++ instruction :: after ∧
      instruction.offset = offset ∧
      (site.instructionDrafts state before).length ≤ position ∧
      position < (site.instructionDrafts state before).length +
        (site.drafts (before.foldl site.after state) instruction).length := by
  induction instructions generalizing state position with
  | nil => simp [placedInstructions] at h
  | cons instruction rest ih =>
      rw [placedInstructions, List.getElem?_append, List.length_map] at h
      split at h
      · rename_i hposition
        refine ⟨[], instruction, rest, rfl, ?_, Nat.zero_le _, by simpa [instructionDrafts]⟩
        rw [List.getElem?_map, Option.map_eq_some_iff] at h
        obtain ⟨other, -, heq⟩ := h
        exact congrArg Prod.snd heq
      · rename_i hposition
        obtain ⟨before, other, after, rfl, hoffset, hlow, hhigh⟩ := ih h
        refine ⟨instruction :: before, other, after, rfl, hoffset, ?_, ?_⟩
        · rw [instructionDrafts, List.length_append]
          omega
        · rw [instructionDrafts, List.length_append, List.foldl_cons]
          omega

/-! What the lines of a body come to. -/

theorem entries_ext {left right : Array Entry} (hunlined : unlinedAll left = unlinedAll right)
    (hlines : ∀ index, lineAt? left index = lineAt? right index) : left = right := by
  refine Array.ext_getElem? fun index => ?_
  have hentry : left[index]?.map Entry.unlined = right[index]?.map Entry.unlined := by
    have hindexed := congrArg (fun entries => entries[index]?) hunlined
    simpa [unlinedAll] using hindexed
  have hline := hlines index
  rw [lineAt?, lineAt?] at hline
  cases hleft : left[index]? with
  | none =>
      rw [hleft] at hentry
      exact (Option.map_eq_none_iff.mp hentry.symm).symm
  | some entry =>
      cases hright : right[index]? with
      | none =>
          rw [hleft, hright] at hentry
          cases hentry
      | some other =>
          rw [hleft, hright, Option.map_some, Option.map_some, Option.some.injEq] at hentry hline
          have hentries : entry.unlined.atLine entry.line = other.unlined.atLine other.line := by
            rw [hentry, hline]
          exact congrArg some hentries

/-- What a body records, but for the types of local variables, on the lines of its table. -/
def linedDrafts (options : ExtractOptions) (site : BodySite) (code : Code) : List Entry :=
  (site.placedDrafts code).map (fun placed =>
    (options.record site.type.scope placed.1).atLine (code.sourceLine placed.2))

/-- The types that a body creates, each with the line of the creation. -/
def Code.creationLines (code : Code) : List (String × Int) :=
  code.instructions.filterMap (fun instruction =>
    instruction.created?.map (fun name => (name, code.sourceLine instruction.offset)))

/-- The entries, with those of created local types on the lines of the creations. -/
def placeCreated (localTypes : LocalTypes) (creations : List (String × Int))
    (entries : Array Entry) : Array Entry :=
  creations.foldl (fun entries creation =>
    (localTypes.getD creation.1 []).foldl
      (fun entries index => setLine entries index creation.2) entries) entries

section PlaceCreated
variable {localTypes : LocalTypes}

theorem placeCreated_cons (creation : String × Int) (creations : List (String × Int))
    (entries : Array Entry) :
    placeCreated localTypes (creation :: creations) entries =
      placeCreated localTypes creations ((localTypes.getD creation.1 []).foldl
        (fun entries index => setLine entries index creation.2) entries) := rfl

theorem placeCreated_append (left right : List (String × Int)) (entries : Array Entry) :
    placeCreated localTypes (left ++ right) entries =
      placeCreated localTypes right (placeCreated localTypes left entries) := by
  rw [placeCreated, List.foldl_append, ← placeCreated, ← placeCreated]

@[simp] theorem unlinedAll_placeCreated (localTypes : LocalTypes)
    (creations : List (String × Int)) (entries : Array Entry) :
    unlinedAll (placeCreated localTypes creations entries) = unlinedAll entries := by
  induction creations generalizing entries with
  | nil => rfl
  | cons creation rest ih => rw [placeCreated_cons, ih, unlinedAll_foldl_setLine]

theorem lineAt?_placeCreated_other {creations : List (String × Int)} {index : Nat}
    (h : ∀ creation ∈ creations, index ∉ localTypes.getD creation.1 []) (entries : Array Entry) :
    lineAt? (placeCreated localTypes creations entries) index = lineAt? entries index := by
  induction creations generalizing entries with
  | nil => rfl
  | cons creation rest ih =>
      rw [List.forall_mem_cons] at h
      rw [placeCreated_cons, ih h.2, lineAt?_foldl_setLine h.1]

/-- An entry that one creation leads to is on the line of the creation. -/
theorem lineAt?_placeCreated_of_mem {creations : List (String × Int)}
    (honce : (creations.flatMap (fun creation => localTypes.getD creation.1 [])).Nodup)
    {name : String} {line : Int} (hcreation : (name, line) ∈ creations) {index : Nat}
    (hindex : index ∈ localTypes.getD name []) {entries : Array Entry}
    (hsize : index < entries.size) :
    lineAt? (placeCreated localTypes creations entries) index = some line := by
  obtain ⟨front, back, rfl⟩ := List.append_of_mem hcreation
  rw [List.flatMap_append, List.flatMap_cons, List.nodup_append, List.nodup_append] at honce
  have hback : ∀ creation ∈ back, index ∉ localTypes.getD creation.1 [] :=
    fun creation hmem hother => honce.2.1.2.2 index hindex index
      (List.mem_flatMap.mpr ⟨creation, hmem, hother⟩) rfl
  have hfront := size_eq_of_unlinedAll
    (unlinedAll_placeCreated localTypes front entries)
  rw [placeCreated_append, placeCreated_cons, lineAt?_placeCreated_other hback,
    lineAt?_foldl_setLine_of_mem hindex _ (hfront ▸ hsize)]

end PlaceCreated

theorem unlinedAll_linedDrafts (options : ExtractOptions) (site : BodySite) (code : Code) :
    unlinedAll (linedDrafts options site code).toArray =
      (site.catchDrafts code.handlers ++ site.instructionDrafts {} code.instructions).map
        (options.unlined site.type.scope) := by
  rw [← site.placedDrafts_drafts, unlinedAll, linedDrafts, List.map_map, List.map_map]
  rfl

theorem lineAt?_linedDrafts (options : ExtractOptions) (site : BodySite) (code : Code)
    (position : Nat) :
    lineAt? (linedDrafts options site code).toArray position =
      (site.placedDrafts code)[position]?.map (fun placed => code.sourceLine placed.2) := by
  rw [lineAt?, linedDrafts, List.getElem?_toArray, List.getElem?_map, Option.map_map]
  rfl

section Body
variable {site : BodySite} {localTypes : LocalTypes} {code : Code} {entries all : Array Entry}
  {catches : Array CatchPlace} {current : Int}
  (hcatches : catches.toList = catchPlaces entries.size (caughtTypes code.handlers))
  (hall : BodyEntries entries (site.placedDrafts code).length all)
  (hfresh : FreshCreations localTypes (code.instructions.filterMap Instruction.created?) entries)
include hcatches hall hfresh

/-- What a body records is on the line of its instruction or handler. -/
theorem lineAt?_bodyLines_placed (hcode : code.WellLined) {position offset : Nat} {draft : Draft}
    (hplaced : (site.placedDrafts code)[position]? = some (draft, offset)) :
    lineAt? (bodyLines site localTypes code entries.size catches current all)
      (entries.size + position) = some (code.sourceLine offset) := by
  rw [BodySite.placedDrafts, List.getElem?_append] at hplaced
  have hlength : (site.placedCatches code.handlers).length =
      (caughtTypes code.handlers).length := by
    rw [BodySite.placedCatches, List.length_map]
  rw [hlength] at hplaced
  split at hplaced
  · rw [BodySite.placedCatches, List.getElem?_map, Option.map_eq_some_iff] at hplaced
    obtain ⟨⟨name, pc⟩, hget, heq⟩ := hplaced
    obtain rfl : pc = offset := congrArg Prod.snd heq
    have hplace : ⟨entries.size + position, pc⟩ ∈ catches.toList := by
      rw [hcatches]
      exact mem_catchPlaces.mpr ⟨position, name, rfl, hget⟩
    exact lineAt?_bodyLines_catch hcatches hall hfresh hcode hplace
  · obtain ⟨before, instruction, after, hsplit, rfl, hlow, hhigh⟩ :=
      BodySite.exists_of_placedInstructions hplaced
    refine lineAt?_bodyLines_run hcatches hall hfresh hcode hsplit ?_
    exact List.mem_append_right _ (List.mem_range'_1.mpr (by omega))

/-- What a body creates is on the line of the creation. -/
theorem lineAt?_bodyLines_created (hcode : code.WellLined) {name : String} {line : Int}
    (hcreation : (name, line) ∈ code.creationLines) {index : Nat}
    (hindex : index ∈ localTypes.getD name []) :
    lineAt? (bodyLines site localTypes code entries.size catches current all) index =
      some line := by
  obtain ⟨instruction, hinstruction, hcreated⟩ := List.mem_filterMap.mp hcreation
  obtain ⟨other, hother, heq⟩ := Option.map_eq_some_iff.mp hcreated
  rw [Prod.mk.injEq] at heq
  obtain ⟨rfl, rfl⟩ := heq
  obtain ⟨before, after, hsplit⟩ := List.append_of_mem hinstruction
  refine lineAt?_bodyLines_run hcatches hall hfresh hcode hsplit (List.mem_append_left _ ?_)
  rw [replayed_eq, hother]
  simpa using hindex

end Body

theorem creationLines_names (code : Code) : code.creationLines.map Prod.fst =
    code.instructions.filterMap Instruction.created? := by
  rw [Code.creationLines, List.map_filterMap]
  refine List.filterMap_congr fun instruction _ => ?_
  cases instruction.created? <;> rfl

theorem assignLines_of_firstLine {lines : List LineEntry} {first : Nat}
    (hfirst : firstLine lines = some first) (catches : Array CatchPlace)
    (positions : Array Position) (entries : Array Entry) :
    assignLines lines catches positions entries =
      (positions.toList.foldl
        (LineWalk.meet (.ofEntries lines) (waitingCatches (.ofEntries lines) catches))
        { current := lineNumber first
          entries := placeCatches (.ofEntries lines) catches entries }).entries := by
  rw [assignLines, hfirst]
  simp only [← Array.foldl_toList]

theorem assignLines_through (options : ExtractOptions) (site : BodySite)
    (localTypes : LocalTypes) {code : Code} {first : Nat}
    (hfirst : firstLine code.lines = some first)
    (entries all : Array Entry) :
    let walk := BodyWalk.through options site localTypes code code.timeline entries
    assignLines code.lines walk.catches walk.positions all =
      bodyLines site localTypes code entries.size walk.catches (lineNumber first) all := by
  intro walk
  obtain ⟨hpositions, hcatches⟩ := BodyWalk.through_positions options site localTypes code entries
  have hindices : (List.range' entries.size (caughtTypes code.handlers).length).map Position.entry =
      walk.catches.toList.map (fun place => Position.entry place.index) := by
    rw [hcatches, ← catchPlaces_index, List.map_map]
    rfl
  rw [assignLines_of_firstLine hfirst, hpositions, List.foldl_append, hindices]
  rfl

theorem unlinedAll_bodyLines (site : BodySite) (localTypes : LocalTypes) (code : Code)
    (start : Nat) (catches : Array CatchPlace) (current : Int) (all : Array Entry) :
    unlinedAll (bodyLines site localTypes code start catches current all) = unlinedAll all := by
  rw [bodyLines, unlinedAll_foldl_meet, caughtWalk, unlinedAll_foldl_meet, unlinedAll_placeCatches]

theorem bodyEntries_through (options : ExtractOptions) (site : BodySite) (localTypes : LocalTypes)
    (code : Code) (entries rest : Array Entry) :
    BodyEntries entries (site.placedDrafts code).length
      ((BodyWalk.through options site localTypes code code.timeline entries).entries ++ rest) := by
  have hlength : (site.catchDrafts code.handlers ++
      site.instructionDrafts {} code.instructions).length = (site.placedDrafts code).length := by
    rw [← site.placedDrafts_drafts, List.length_map]
  rw [BodyWalk.through_entries, Array.append_assoc]
  refine ⟨fun index hindex => ?_, fun position hposition => ?_⟩
  · rw [lineAt?_append, if_pos hindex]
  · rw [lineAt?_append, if_neg (by omega), Nat.add_sub_cancel_left, lineAt?_append,
      if_pos (by simpa [BodyWalk.draftEntries, ← hlength] using hposition)]
    refine lineAt?_draftEntries options site (fun draft hdraft => ?_) (hlength ▸ hposition)
    exact (List.mem_append.mp hdraft).elim site.line_of_mem_catchDrafts
      site.line_of_mem_instructionDrafts

theorem not_mem_createdEntries_iff {localTypes : LocalTypes} {code : Code} {index : Nat} :
    index ∉ createdEntries localTypes code.instructions ↔
      ∀ creation ∈ code.creationLines, index ∉ localTypes.getD creation.1 [] := by
  rw [createdEntries, ← creationLines_names, List.flatMap_map]
  simp

theorem nodup_creationLines {localTypes : LocalTypes} {code : Code} {entries : Array Entry}
    (h : FreshCreations localTypes (code.instructions.filterMap Instruction.created?) entries) :
    (code.creationLines.flatMap (fun creation => localTypes.getD creation.1 [])).Nodup := by
  have honce := h.once
  rwa [← creationLines_names, List.flatMap_map] at honce

/-- The lines of a body whose table covers it are those of a plain reading of the table. -/
theorem bodyLines_eq (options : ExtractOptions) {site : BodySite} {localTypes : LocalTypes}
    {code : Code} {entries : Array Entry} (hcode : code.WellLined)
    (hfresh : FreshCreations localTypes (code.instructions.filterMap Instruction.created?) entries)
    (rest : Array Entry) (current : Int) :
    let walk := BodyWalk.through options site localTypes code code.timeline entries
    bodyLines site localTypes code entries.size walk.catches current (walk.entries ++ rest) =
      placeCreated localTypes code.creationLines entries ++
        (linedDrafts options site code).toArray ++ rest := by
  intro walk
  have hcatches := (BodyWalk.through_positions options site localTypes code entries).2
  have hall := bodyEntries_through options site localTypes code entries rest
  have hplaced : (placeCreated localTypes code.creationLines entries).size = entries.size :=
    size_eq_of_unlinedAll (unlinedAll_placeCreated _ _ _)
  have hlined : (linedDrafts options site code).toArray.size = (site.placedDrafts code).length := by
    rw [List.size_toArray, linedDrafts, List.length_map]
  have hwalk : walk.entries.size = entries.size + (site.placedDrafts code).length := by
    rw [show walk.entries = _ from BodyWalk.through_entries options site localTypes code entries,
      ← site.placedDrafts_drafts]
    simp [BodyWalk.draftEntries]
  refine entries_ext ?_ fun index => ?_
  · rw [unlinedAll_bodyLines, unlinedAll_append, unlinedAll_append, unlinedAll_append,
      unlinedAll_placeCreated, unlinedAll_linedDrafts, BodyWalk.through_entries,
      unlinedAll_append, unlinedAll_draftEntries]
  · rw [lineAt?_append, lineAt?_append, Array.size_append, hplaced, hlined]
    -- An entry of a local type, one from before, one of the body, or one after it.
    by_cases hcreated : index ∈ createdEntries localTypes code.instructions
    · have hindex := lt_size_of_lineAt? (hfresh.unlined index hcreated)
      obtain ⟨creation, hcreation, hmem⟩ : ∃ creation ∈ code.creationLines,
          index ∈ localTypes.getD creation.1 [] := by
        by_contra hnone
        exact not_mem_createdEntries_iff.mpr (fun creation hcreation hmem =>
          hnone ⟨creation, hcreation, hmem⟩) hcreated
      rw [lineAt?_bodyLines_created hcatches hall hfresh hcode hcreation hmem,
        if_pos (by omega), if_pos hindex,
        lineAt?_placeCreated_of_mem (nodup_creationLines hfresh) hcreation hmem hindex]
    · by_cases hbefore : index < entries.size
      · rw [lineAt?_bodyLines_other hcatches hcreated (.inl hbefore),
          hall.before index hbefore, if_pos (by omega), if_pos hbefore,
          lineAt?_placeCreated_other (not_mem_createdEntries_iff.mp hcreated)]
      · by_cases hposition : index < entries.size + (site.placedDrafts code).length
        · obtain ⟨position, rfl⟩ : ∃ position, index = entries.size + position :=
            ⟨index - entries.size, by omega⟩
          have hget := List.getElem?_eq_getElem (l := site.placedDrafts code) (i := position)
            (by omega)
          rw [if_pos hposition, if_neg hbefore, Nat.add_sub_cancel_left, lineAt?_linedDrafts,
            hget, Option.map_some]
          exact lineAt?_bodyLines_placed hcatches hall hfresh hcode hget
        · rw [lineAt?_bodyLines_other hcatches hcreated (.inr (by omega)), lineAt?_append,
            if_neg (by omega), if_neg hposition, hwalk]

/-- A body whose table covers it records its entries on the lines of the table, and places
what it creates there. -/
theorem addBody_lined (options : ExtractOptions) (site : BodySite) {localTypes : LocalTypes}
    {code : Code} {entries : Array Entry} (hcode : code.WellLined)
    (hfresh : FreshCreations localTypes (code.instructions.filterMap Instruction.created?) entries)
    (firstLocal : Nat) :
    addBody options site localTypes firstLocal code entries =
      (localReferences site.type.glossary site.source firstLocal code.locals
        (placeMarkers (.ofEntries code.lines) code.timeline)).map (fun named =>
          placeCreated localTypes code.creationLines entries ++
            (linedDrafts options site code).toArray ++
            named.map (fun reference =>
              options.record site.type.scope (.ofReference reference))) := by
  rw [addBody]
  cases localReferences site.type.glossary site.source firstLocal code.locals
    (placeMarkers (.ofEntries code.lines) code.timeline) with
  | error error => rfl
  | ok named =>
      refine congrArg Except.ok ?_
      obtain ⟨entry, hentry, -⟩ := hcode.starts
      obtain ⟨first, hfirst⟩ := exists_firstLine (List.ne_nil_of_mem hentry)
      rw [assignLines_through options site localTypes hfirst entries]
      generalize lineNumber first = current
      exact bodyLines_eq options hcode hfresh _ current

/-! The lines of the methods of a type. -/

/-- The types that a method creates, each with the line of the creation. -/
def MethodDecl.creationLines (method : MethodDecl) : List (String × Int) :=
  (method.body?.map Code.creationLines).getD []

/-- What a body records, on the lines of its table. -/
def linedBody (options : ExtractOptions) (site : BodySite) (firstLocal : Nat) (code : Code) :
    Except TextError (List Entry) := do
  let named ← localReferences site.type.glossary site.source firstLocal code.locals
    (placeMarkers (.ofEntries code.lines) code.timeline)
  return linedDrafts options site code ++ named.toList.map
    (fun reference => options.record site.type.scope (.ofReference reference))

/-- What a method records, on the lines of its table. -/
def linedMethod (options : ExtractOptions) (type : TypeSite) (method : MethodDecl) :
    Except TextError (List Entry) := do
  let types ← type.glossary.methodTypes.get method.descriptor
  let declared ← type.methodReferences method types
  let body ← match method.body? with
    | none => .ok []
    | some code => linedBody options (.of type method) (firstLocalSlot method types) code
  return declared.map (fun reference => options.record type.scope (.ofReference reference))
    ++ body

/-- What the methods of a type record, on the lines of their tables. -/
def linedMethods (options : ExtractOptions) (type : TypeSite) (methods : List MethodDecl) :
    Except ExtractError (List (List Entry)) :=
  methods.mapM (fun method => (linedMethod options type method).mapError
    (.method method.name method.descriptor))

theorem MethodDecl.creationLines_names (method : MethodDecl) :
    method.creationLines.map Prod.fst = method.creations := by
  rw [creationLines, creations]
  cases method.body? with
  | none => rfl
  | some code => exact Linkage.creationLines_names code

/-- Entries to which no creation leads stay behind the others. -/
theorem placeCreated_extend {localTypes : LocalTypes} {creations : List (String × Int)}
    {entries : Array Entry}
    (h : ∀ creation ∈ creations, ∀ index ∈ localTypes.getD creation.1 [], index < entries.size)
    (rest : Array Entry) :
    placeCreated localTypes creations (entries ++ rest) =
      placeCreated localTypes creations entries ++ rest := by
  induction creations generalizing entries with
  | nil => rfl
  | cons creation more ih =>
      rw [List.forall_mem_cons] at h
      have hsize := size_eq_of_unlinedAll
        (unlinedAll_foldl_setLine creation.2 (localTypes.getD creation.1 []) entries)
      rw [placeCreated_cons, foldl_setLine_append h.1, placeCreated_cons]
      exact ih (fun other hother index hindex => hsize ▸ h.2 other hother index hindex)

namespace FreshCreations

variable {localTypes : LocalTypes} {names : List String} {entries : Array Entry}

theorem lt_size (h : FreshCreations localTypes names entries) {creations : List (String × Int)}
    (hnames : creations.map Prod.fst = names) :
    ∀ creation ∈ creations, ∀ index ∈ localTypes.getD creation.1 [], index < entries.size := by
  intro creation hcreation index hindex
  exact lt_size_of_lineAt? (h.unlined index (List.mem_flatMap.mpr
    ⟨creation.1, hnames ▸ List.mem_map_of_mem hcreation, hindex⟩))

theorem extend (h : FreshCreations localTypes names entries) (rest : Array Entry) :
    FreshCreations localTypes names (entries ++ rest) := by
  refine ⟨h.once, fun index hindex => ?_⟩
  rw [lineAt?_append, if_pos (lt_size_of_lineAt? (h.unlined index hindex)),
    h.unlined index hindex]

theorem left {more : List String} (h : FreshCreations localTypes (names ++ more) entries) :
    FreshCreations localTypes names entries := by
  have honce := h.once
  rw [List.flatMap_append] at honce
  refine ⟨(List.nodup_append.mp honce).1, fun index hindex => h.unlined index ?_⟩
  rw [List.flatMap_append]
  exact List.mem_append_left _ hindex

/-- What later methods create is still fresh when earlier ones have placed what they create. -/
theorem right {more : List String} (h : FreshCreations localTypes (names ++ more) entries)
    {creations : List (String × Int)} (hnames : creations.map Prod.fst = names) :
    FreshCreations localTypes more (placeCreated localTypes creations entries) := by
  have honce := h.once
  rw [List.flatMap_append] at honce
  obtain ⟨-, hmore, hdisjoint⟩ := List.nodup_append.mp honce
  refine ⟨hmore, fun index hindex => ?_⟩
  rw [lineAt?_placeCreated_other fun creation hcreation hmem => ?_]
  · refine h.unlined index ?_
    rw [List.flatMap_append]
    exact List.mem_append_right _ hindex
  · exact hdisjoint index (List.mem_flatMap.mpr
      ⟨creation.1, hnames ▸ List.mem_map_of_mem hcreation, hmem⟩) index hindex rfl

end FreshCreations

theorem append_toArray (entries : Array Entry) (rest : List Entry) :
    entries ++ rest = entries ++ rest.toArray :=
  Array.ext' (by simp)

theorem addMethod_lined (options : ExtractOptions) (type : TypeSite) {localTypes : LocalTypes}
    {entries : Array Entry} {method : MethodDecl}
    (hbody : ∀ code, method.body? = some code → code.WellLined)
    (hfresh : FreshCreations localTypes method.creations entries) :
    addMethod options type localTypes entries method =
      (linedMethod options type method).map (fun own =>
        placeCreated localTypes method.creationLines entries ++ own.toArray) := by
  cases htypes : type.glossary.methodTypes.get method.descriptor with
  | error error => simp only [addMethod, linedMethod, htypes, bind, Except.bind, Except.map]
  | ok types =>
      cases hdeclared : type.methodReferences method types with
      | error error =>
          simp only [addMethod, linedMethod, htypes, hdeclared, bind, Except.bind, Except.map]
      | ok declared =>
          rw [addMethod_eq options localTypes entries htypes hdeclared, linedMethod, htypes]
          simp only [bind, Except.bind, hdeclared]
          rw [MethodDecl.creationLines]
          rw [MethodDecl.creations] at hfresh
          cases hcode : method.body? with
          | none => simp [Except.map, placeCreated, pure, Except.pure, append_toArray]
          | some code =>
              rw [hcode, Option.map_some, Option.getD_some] at hfresh
              simp only [Option.map_some, Option.getD_some, append_toArray]
              rw [addBody_lined options (.of type method) (hbody code hcode) (hfresh.extend _),
                linedBody, placeCreated_extend (hfresh.lt_size (creationLines_names code))]
              cases localReferences (BodySite.of type method).type.glossary
                (BodySite.of type method).source (firstLocalSlot method types) code.locals
                (placeMarkers (.ofEntries code.lines) code.timeline) with
              | error error => rfl
              | ok named =>
                  refine congrArg Except.ok (Array.ext' ?_)
                  simp [BodySite.of]

/-- The methods of a type whose tables cover their bodies record their entries on the lines
of the tables, and place there what they create. -/
theorem addMethods_lined (options : ExtractOptions) (type : TypeSite) {localTypes : LocalTypes}
    {entries : Array Entry} {methods : List MethodDecl}
    (hbodies : ∀ method ∈ methods, ∀ code, method.body? = some code → code.WellLined)
    (hfresh : FreshCreations localTypes (methods.flatMap MethodDecl.creations) entries) :
    addMethods options type localTypes methods entries =
      (linedMethods options type methods).map (fun found =>
        placeCreated localTypes (methods.flatMap MethodDecl.creationLines) entries ++
          found.flatten.toArray) := by
  induction methods generalizing entries with
  | nil => simp [addMethods, linedMethods, pure, Except.pure, Except.map, placeCreated]
  | cons method rest ih =>
      rw [List.forall_mem_cons] at hbodies
      rw [List.flatMap_cons] at hfresh
      have hnames := method.creationLines_names
      rw [addMethods, List.foldlM_cons, addMethod_lined options type hbodies.1 hfresh.left,
        linedMethods, List.mapM_cons, ← linedMethods]
      cases linedMethod options type method with
      | error error => rfl
      | ok own =>
          -- What the rest creates is untouched by this method, which creates none of it.
          have hrest := ih hbodies.2 ((hfresh.right hnames).extend own.toArray)
          rw [addMethods] at hrest
          simp only [Except.map, mapError_ok, bind, Except.bind]
          rw [hrest]
          cases linedMethods options type rest with
          | error error => rfl
          | ok found =>
              refine congrArg Except.ok ?_
              have hlater : ∀ creation ∈ rest.flatMap MethodDecl.creationLines,
                  ∀ index ∈ localTypes.getD creation.1 [],
                    index < (placeCreated localTypes method.creationLines entries).size := by
                refine (hfresh.right hnames).lt_size ?_
                rw [List.map_flatMap]
                exact List.flatMap_congr fun other _ => other.creationLines_names
              rw [placeCreated_extend hlater, List.flatMap_cons, placeCreated_append]
              simp

end Linkage
