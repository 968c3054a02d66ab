import Linkage.Proofs.InstructionReferences
import Linkage.Proofs.LineWalks
/-
Bodies under a mask of kinds.  A mask hides entries of local and anonymous types,
so that a body does not meet them again where the type is created.  Hidden entries
apart, the methods of a type leave the same lines with and without the mask, if
every hidden entry that they meet has no line before and is met once.
-/

namespace Linkage

/-- The type that an instruction creates. -/
def Instruction.created? (instruction : Instruction) : Option String :=
  match instruction.operation with
  | .onType operand =>
      if instruction.opcode = Opcode.new then some (qualifiedName operand) else none
  | _ => none

/-- The types that a method creates, as often as it does. -/
def MethodDecl.creations (method : MethodDecl) : List String :=
  (method.body?.map (fun code => code.instructions.filterMap Instruction.created?)).getD []

/-- The types that the methods of a class create, as often as they do. -/
def ClassDecl.creations (decl : ClassDecl) : List String :=
  decl.methods.flatMap MethodDecl.creations

/-- The hidden entries that are met where types are created, in order. -/
def hiddenCreated (hidden : Nat → Bool) (localTypes : LocalTypes) (names : List String) :
    List Nat :=
  names.flatMap (fun name => (localTypes.getD name []).filter hidden)

/-- The entries to be met again under a mask are those that it does not hide. -/
def LocalTypes.Hides (hidden : Nat → Bool) (full part : LocalTypes) : Prop :=
  ∀ name, part.getD name [] = (full.getD name []).filter (fun index => !hidden index)

theorem replayed_eq (site : BodySite) (localTypes : LocalTypes) (instruction : Instruction) :
    replayed site localTypes instruction =
      instruction.created?.toList.flatMap (fun name => localTypes.getD name []) := by
  rw [replayed, Instruction.created?]
  cases instruction.operation with
  | onType operand =>
      by_cases hnew : instruction.opcode = Opcode.new
      · simp [hnew]
      · simp [hnew]
  | _ => simp

variable {hidden : Nat → Bool}

theorem lineAt?_append (left right : Array Entry) (index : Nat) :
    lineAt? (left ++ right) index =
      if index < left.size then lineAt? left index else lineAt? right (index - left.size) := by
  simp only [lineAt?, Array.getElem?_append]
  split <;> rfl

theorem AgreeOff.append {full part : Array Entry} (h : AgreeOff hidden full part)
    (hsize : part.size = full.size) {fullNew partNew : Array Entry}
    (hnew : ∀ index, lineAt? fullNew index = lineAt? partNew index) :
    AgreeOff hidden (full ++ fullNew) (part ++ partNew) := by
  intro index hindex
  rw [lineAt?_append, lineAt?_append, hsize]
  split
  · exact h index hindex
  · exact hnew _

theorem lineAt?_records (first second : ExtractOptions) (scope : Scope) (drafts : List Draft)
    (index : Nat) :
    lineAt? (drafts.map (first.record scope)).toArray index =
      lineAt? (drafts.map (second.record scope)).toArray index := by
  simp only [lineAt?, List.getElem?_toArray, List.getElem?_map, Option.map_map]
  rfl

theorem append_records (options : ExtractOptions) (scope : Scope) (entries : Array Entry)
    (references : List Reference) :
    entries ++ references.map (fun reference =>
        options.record scope (.ofReference reference)) =
      entries ++ ((references.map Draft.ofReference).map (options.record scope)).toArray := by
  apply Array.ext'
  simp

theorem metHidden_append (left right : List Position) :
    metHidden hidden (left ++ right) = metHidden hidden left ++ metHidden hidden right := by
  simp [metHidden]

theorem withoutHidden_append (left right : List Position) :
    withoutHidden hidden (left ++ right) =
      withoutHidden hidden left ++ withoutHidden hidden right := by
  simp [withoutHidden]

theorem metHidden_entries (indices : List Nat) :
    metHidden hidden (indices.map Position.entry) = indices.filter hidden := by
  induction indices with
  | nil => rfl
  | cons index rest ih =>
      rw [metHidden] at ih ⊢
      cases hindex : hidden index <;> simp [hindex, ih]

theorem withoutHidden_entries (indices : List Nat) :
    withoutHidden hidden (indices.map Position.entry) =
      (indices.filter (fun index => !hidden index)).map Position.entry := by
  induction indices with
  | nil => rfl
  | cons index rest ih =>
      rw [withoutHidden] at ih ⊢
      cases hindex : hidden index <;> simp [hindex, ih]

/-- Where two walks through one body stand, of which the second leaves hidden entries out:
everything from `start` on is the body's own and not hidden. -/
structure BodiesAgree (hidden : Nat → Bool) (start : Nat) (full part : BodyWalk) : Prop where
  start_le : start ≤ full.entries.size
  size_eq : part.entries.size = full.entries.size
  lines : AgreeOff hidden full.entries part.entries
  positions : part.positions.toList = withoutHidden hidden full.positions.toList
  catches_eq : part.catches = full.catches
  state_eq : part.state = full.state
  catches_shown : ∀ place ∈ full.catches.toList, hidden place.index = false

namespace BodiesAgree

variable {start : Nat} (hbelow : ∀ index, hidden index = true → index < start)
  (first second : ExtractOptions) (site : BodySite) {full part : BodyWalk}

include hbelow

theorem hidden_of_le {index : Nat} (h : start ≤ index) : hidden index = false := by
  cases hindex : hidden index with
  | false => rfl
  | true =>
      have hlt := hbelow index hindex
      omega

theorem record (h : BodiesAgree hidden start full part) (draft : Draft) :
    BodiesAgree hidden start (full.record first site draft)
        (part.record second site draft) ∧
      metHidden hidden (full.record first site draft).positions.toList =
        metHidden hidden full.positions.toList := by
  have hown : hidden full.entries.size = false := hidden_of_le hbelow h.start_le
  have hpush : ∀ (options : ExtractOptions) (entries : Array Entry),
      entries.push (options.record site.type.scope draft) =
        entries ++ ([draft].map (options.record site.type.scope)).toArray := by
    intro options entries
    simp
  refine ⟨⟨?_, ?_, ?_, ?_, h.catches_eq, h.state_eq, h.catches_shown⟩, ?_⟩
  · have hle := h.start_le
    simp only [BodyWalk.record, Array.size_push]
    omega
  · simp [BodyWalk.record, h.size_eq]
  · simp only [BodyWalk.record]
    rw [hpush, hpush]
    exact h.lines.append h.size_eq (lineAt?_records first second site.type.scope [draft])
  · simp only [BodyWalk.record, Array.toList_push, Array.size_push, Nat.add_sub_cancel]
    rw [withoutHidden_append, ← h.positions, h.size_eq]
    simp [withoutHidden, hown]
  · simp only [BodyWalk.record, Array.toList_push, Array.size_push, Nat.add_sub_cancel]
    rw [metHidden_append]
    simp [metHidden, hown]

theorem foldl_record (h : BodiesAgree hidden start full part) (drafts : List Draft) :
    BodiesAgree hidden start (drafts.foldl (BodyWalk.record first site) full)
        (drafts.foldl (BodyWalk.record second site) part) ∧
      metHidden hidden (drafts.foldl (BodyWalk.record first site) full).positions.toList =
        metHidden hidden full.positions.toList := by
  induction drafts generalizing full part with
  | nil => exact ⟨h, rfl⟩
  | cons draft rest ih =>
      obtain ⟨hstep, hmet⟩ := h.record hbelow first second site draft
      obtain ⟨hrest, hmetRest⟩ := ih hstep
      exact ⟨hrest, hmetRest.trans hmet⟩

theorem recordCatch (h : BodiesAgree hidden start full part) (handler : ExceptionHandler) :
    BodiesAgree hidden start (full.recordCatch first site handler)
        (part.recordCatch second site handler) ∧
      metHidden hidden (full.recordCatch first site handler).positions.toList =
        metHidden hidden full.positions.toList := by
  unfold BodyWalk.recordCatch
  cases handler.catchType with
  | none => exact ⟨h, rfl⟩
  | some name =>
      obtain ⟨hstep, hmet⟩ := h.record hbelow first second site
        (.ofReference (Reference.ofType site.source (site.qualified name) .catchException))
      refine ⟨⟨hstep.start_le, hstep.size_eq, hstep.lines, hstep.positions, ?_, hstep.state_eq,
        ?_⟩, hmet⟩
      · simp only [hstep.catches_eq, hstep.size_eq]
      · intro place hplace
        rw [Array.toList_push, List.mem_append, List.mem_singleton] at hplace
        rcases hplace with hplace | rfl
        · exact hstep.catches_shown place hplace
        · apply hidden_of_le hbelow
          have hle := h.start_le
          simp only [BodyWalk.record, Array.size_push]
          omega

theorem foldl_recordCatch (h : BodiesAgree hidden start full part)
    (handlers : List ExceptionHandler) :
    BodiesAgree hidden start (handlers.foldl (BodyWalk.recordCatch first site) full)
        (handlers.foldl (BodyWalk.recordCatch second site) part) ∧
      metHidden hidden (handlers.foldl (BodyWalk.recordCatch first site) full).positions.toList =
        metHidden hidden full.positions.toList := by
  induction handlers generalizing full part with
  | nil => exact ⟨h, rfl⟩
  | cons handler rest ih =>
      obtain ⟨hstep, hmet⟩ := h.recordCatch hbelow first second site handler
      obtain ⟨hrest, hmetRest⟩ := ih hstep
      exact ⟨hrest, hmetRest.trans hmet⟩

variable {fullTypes partTypes : LocalTypes} (hlocal : fullTypes.Hides hidden partTypes)

include hlocal

theorem meet (h : BodiesAgree hidden start full part) (moment : Moment) :
    BodiesAgree hidden start (full.meet first site fullTypes moment)
        (part.meet second site partTypes moment) ∧
      metHidden hidden (full.meet first site fullTypes moment).positions.toList =
        metHidden hidden full.positions.toList ++ hiddenCreated hidden fullTypes
          (moment.instruction?.toList.filterMap Instruction.created?) := by
  cases moment with
  | label pc =>
      refine ⟨⟨h.start_le, h.size_eq, h.lines, ?_, h.catches_eq, h.state_eq, h.catches_shown⟩, ?_⟩
      · simp only [BodyWalk.meet, Array.toList_push, withoutHidden_append, h.positions]
        rfl
      · simp [BodyWalk.meet, metHidden, Moment.instruction?, hiddenCreated]
  | run instruction =>
      have hreplayed : replayed site partTypes instruction =
          (replayed site fullTypes instruction).filter (fun index => !hidden index) := by
        rw [replayed_eq, replayed_eq]
        cases instruction.created? with
        | none => rfl
        | some name => simp [hlocal name]
      have hmet : BodiesAgree hidden start
          { full with
            positions := full.positions
              ++ (replayed site fullTypes instruction).map Position.entry
            state := site.after full.state instruction }
          { part with
            positions := part.positions
              ++ (replayed site partTypes instruction).map Position.entry
            state := site.after part.state instruction } := by
        refine ⟨h.start_le, h.size_eq, h.lines, ?_, h.catches_eq, ?_, h.catches_shown⟩
        · simp only [Array.toList_appendList, withoutHidden_append, h.positions, hreplayed,
            withoutHidden_entries]
        · rw [h.state_eq]
      obtain ⟨hstep, hsame⟩ := hmet.foldl_record hbelow first second site
        (site.drafts full.state instruction)
      simp only [BodyWalk.meet, h.state_eq]
      rw [h.state_eq] at hstep
      refine ⟨hstep, hsame.trans ?_⟩
      simp only [Array.toList_appendList, metHidden_append, metHidden_entries]
      congr 1
      rw [replayed_eq, Moment.instruction?]
      cases hcreated : instruction.created? <;> simp [hiddenCreated, hcreated]

theorem foldl_meet (h : BodiesAgree hidden start full part) (moments : List Moment) :
    BodiesAgree hidden start (moments.foldl (BodyWalk.meet first site fullTypes) full)
        (moments.foldl (BodyWalk.meet second site partTypes) part) ∧
      metHidden hidden (moments.foldl (BodyWalk.meet first site fullTypes) full).positions.toList =
        metHidden hidden full.positions.toList ++ hiddenCreated hidden fullTypes
          ((moments.filterMap Moment.instruction?).filterMap Instruction.created?) := by
  induction moments generalizing full part with
  | nil => exact ⟨h, by simp [hiddenCreated]⟩
  | cons moment rest ih =>
      obtain ⟨hstep, hmet⟩ := h.meet hbelow first second site hlocal moment
      obtain ⟨hrest, hmetRest⟩ := ih hstep
      refine ⟨hrest, hmetRest.trans ?_⟩
      rw [hmet, List.append_assoc]
      cases hinstruction : moment.instruction? with
      | none => simp [hinstruction, hiddenCreated]
      | some instruction =>
          cases hcreated : instruction.created? <;>
            simp [hinstruction, hiddenCreated, hcreated]

/-- Two walks through a whole body agree, and the full one meets the hidden entries of the
types that the body creates. -/
theorem through {fullEntries partEntries : Array Entry}
    (hsize : partEntries.size = fullEntries.size) (hstart : start ≤ fullEntries.size)
    (hlines : AgreeOff hidden fullEntries partEntries)
    (code : Code) :
    BodiesAgree hidden start
        (BodyWalk.through first site fullTypes code code.timeline fullEntries)
        (BodyWalk.through second site partTypes code code.timeline partEntries) ∧
      metHidden hidden
          (BodyWalk.through first site fullTypes code code.timeline fullEntries).positions.toList =
        hiddenCreated hidden fullTypes (code.instructions.filterMap Instruction.created?) := by
  have hempty : BodiesAgree hidden start { entries := fullEntries } { entries := partEntries } :=
    ⟨hstart, hsize, hlines, by simp [withoutHidden], rfl, rfl, by simp⟩
  obtain ⟨hcatches, hmet⟩ :=
    hempty.foldl_recordCatch hbelow first second site code.handlers
  obtain ⟨hrun, hmetRun⟩ :=
    hcatches.foldl_meet hbelow first second site hlocal code.timeline.toList
  simp only [BodyWalk.through, ← Array.foldl_toList]
  refine ⟨hrun, hmetRun.trans ?_⟩
  rw [hmet, Code.timeline_instructions]
  simp [metHidden]

end BodiesAgree

/-- Where two extractions of one type stand, of which the second leaves hidden entries
out. -/
structure RunsAgree (hidden : Nat → Bool) (start : Nat) (full part : Array Entry) : Prop where
  start_le : start ≤ full.size
  size_eq : part.size = full.size
  lines : AgreeOff hidden full part

/-- Drafts recorded in both keep the agreement. -/
theorem RunsAgree.append_both {start : Nat} {full part : Array Entry}
    (h : RunsAgree hidden start full part) (first second : ExtractOptions) (scope : Scope)
    (drafts : List Draft) :
    RunsAgree hidden start (full ++ (drafts.map (first.record scope)).toArray)
      (part ++ (drafts.map (second.record scope)).toArray) := by
  refine ⟨?_, ?_, h.lines.append h.size_eq (lineAt?_records first second scope drafts)⟩
  · rw [Array.size_append]
    exact Nat.le_trans h.start_le (Nat.le_add_right _ _)
  · simp [h.size_eq]

theorem size_of_addMethod {options : ExtractOptions} {type : TypeSite}
    {localTypes : LocalTypes} {entries next : Array Entry} {method : MethodDecl}
    (h : addMethod options type localTypes entries method = .ok next) :
    ∃ drafts, type.methodDrafts method = .ok drafts ∧
      next.size = entries.size + drafts.length := by
  have hview := addMethod_unlined options type localTypes entries method
  rw [h] at hview
  obtain ⟨drafts, hdrafts, hnext⟩ := map_eq_ok hview.symm
  have hlength := congrArg List.length hnext
  simp only [unlinedAll, List.length_append, List.length_map, Array.length_toList] at hlength
  exact ⟨drafts, hdrafts, hlength.symm⟩

theorem hidden_of_mem_hiddenCreated {localTypes : LocalTypes} {names : List String}
    {index : Nat} (h : index ∈ hiddenCreated hidden localTypes names) : hidden index = true := by
  obtain ⟨name, -, hmem⟩ := List.mem_flatMap.mp h
  exact (List.mem_filter.mp hmem).2

section Methods

variable {start : Nat} (hbelow : ∀ index, hidden index = true → index < start)
  (first second : ExtractOptions) {fullTypes partTypes : LocalTypes}
  (hlocal : fullTypes.Hides hidden partTypes) {full part : Array Entry}

include hbelow hlocal

theorem addBody_agree (h : RunsAgree hidden start full part) {site : BodySite}
    {firstLocal : Nat} {code : Code}
    (honce : (hiddenCreated hidden fullTypes
      (code.instructions.filterMap Instruction.created?)).Nodup)
    (hfresh : ∀ index ∈ hiddenCreated hidden fullTypes
      (code.instructions.filterMap Instruction.created?), lineAt? full index = some (-1))
    {fullNext partNext : Array Entry}
    (hfull : addBody first site fullTypes firstLocal code full = .ok fullNext)
    (hpart : addBody second site partTypes firstLocal code part = .ok partNext) :
    AgreeOff hidden fullNext partNext ∧
      ∀ index, hidden index = true → index ∉ hiddenCreated hidden fullTypes
        (code.instructions.filterMap Instruction.created?) →
        lineAt? fullNext index = lineAt? full index := by
  obtain ⟨declared, hdeclared, hfull⟩ := bind_eq_ok hfull
  obtain ⟨same, hsame, hpart⟩ := bind_eq_ok hpart
  rw [hdeclared, Except.ok.injEq] at hsame
  subst hsame
  simp only [pure, Except.pure, Except.ok.injEq] at hfull hpart
  obtain ⟨hwalk, hmet⟩ := BodiesAgree.through hbelow first second site hlocal h.size_eq
    h.start_le h.lines code
  -- Hidden entries lie below the body, so that their lines are those from before.
  have hbefore : ∀ index, hidden index = true →
      lineAt? ((BodyWalk.through first site fullTypes code code.timeline full).entries
        ++ declared.map (fun reference =>
          first.record site.type.scope (.ofReference reference))) index =
        lineAt? full index := by
    intro index hindex
    have hlt : index < full.size := Nat.lt_of_lt_of_le (hbelow index hindex) h.start_le
    have hlt' : index <
        (BodyWalk.through first site fullTypes code code.timeline full).entries.size := by
      rw [BodyWalk.through_entries, Array.size_append]
      omega
    rw [lineAt?_append, if_pos hlt', BodyWalk.through_entries, lineAt?_append, if_pos hlt]
  rw [← hmet] at honce hfresh
  constructor
  · rw [← hfull, ← hpart, hwalk.catches_eq]
    refine AgreeOff.assignLines (hwalk.lines.append hwalk.size_eq ?_) code.lines
      hwalk.positions hwalk.catches_shown honce ?_
    · intro index
      simp only [lineAt?, Array.getElem?_map, Option.map_map]
      rfl
    · intro index hindex
      rw [hbefore index (mem_metHidden.mp hindex).2]
      exact hfresh index hindex
  · intro index hindex hcreated
    rw [← hmet] at hcreated
    rw [← hfull, ← hbefore index hindex]
    apply lineAt?_assignLines
    · intro place hplace heq
      have hshown := hwalk.catches_shown place hplace
      rw [heq, hindex] at hshown
      cases hshown
    · exact fun hmem => hcreated (mem_metHidden.mpr ⟨hmem, hindex⟩)

theorem addMethod_agree (h : RunsAgree hidden start full part) {type : TypeSite}
    {method : MethodDecl}
    (honce : (hiddenCreated hidden fullTypes method.creations).Nodup)
    (hfresh : ∀ index ∈ hiddenCreated hidden fullTypes method.creations,
      lineAt? full index = some (-1))
    {fullNext partNext : Array Entry}
    (hfull : addMethod first type fullTypes full method = .ok fullNext)
    (hpart : addMethod second type partTypes part method = .ok partNext) :
    RunsAgree hidden start fullNext partNext ∧
      ∀ index, hidden index = true → index ∉ hiddenCreated hidden fullTypes method.creations →
        lineAt? fullNext index = lineAt? full index := by
  obtain ⟨drafts, hdrafts, hfullSize⟩ := size_of_addMethod hfull
  obtain ⟨same, hsame, hpartSize⟩ := size_of_addMethod hpart
  rw [hdrafts, Except.ok.injEq] at hsame
  subst hsame
  have hstart := h.start_le
  have hsize := h.size_eq
  have hlines : AgreeOff hidden fullNext partNext ∧
      ∀ index, hidden index = true → index ∉ hiddenCreated hidden fullTypes method.creations →
        lineAt? fullNext index = lineAt? full index := by
    obtain ⟨types, htypes, hdrafts⟩ := bind_eq_ok hdrafts
    obtain ⟨declared, hdeclared, -⟩ := bind_eq_ok hdrafts
    rw [addMethod_eq first fullTypes full htypes hdeclared] at hfull
    rw [addMethod_eq second partTypes part htypes hdeclared] at hpart
    simp only [append_records] at hfull hpart
    have hall := h.append_both first second type.scope (declared.map Draft.ofReference)
    have hkept : ∀ index, hidden index = true →
        lineAt? (full ++ ((declared.map Draft.ofReference).map (first.record type.scope)).toArray)
          index = lineAt? full index := by
      intro index hindex
      have hlt := hbelow index hindex
      rw [lineAt?_append, if_pos (by omega)]
    cases hbody : method.body? with
    | none =>
        simp only [hbody] at hfull hpart
        rw [← Except.ok.inj hfull, ← Except.ok.inj hpart]
        exact ⟨hall.lines, fun index hindex _ => hkept index hindex⟩
    | some code =>
        simp only [hbody] at hfull hpart
        simp only [MethodDecl.creations, hbody, Option.map_some, Option.getD_some]
          at honce hfresh ⊢
        obtain ⟨hagree, hframe⟩ := addBody_agree hbelow first second hlocal hall honce
          (fun index hindex => by
            rw [hkept index (hidden_of_mem_hiddenCreated hindex)]
            exact hfresh index hindex) hfull hpart
        exact ⟨hagree, fun index hindex hcreated =>
          (hframe index hindex hcreated).trans (hkept index hindex)⟩
  exact ⟨⟨by omega, by omega, hlines.1⟩, hlines.2⟩

/-- Hidden entries apart, the methods of a type leave the same lines, if every hidden entry
that they meet has no line before and is met once. -/
theorem addMethods_agree (h : RunsAgree hidden start full part) {type : TypeSite}
    {methods : List MethodDecl}
    (honce : (hiddenCreated hidden fullTypes (methods.flatMap MethodDecl.creations)).Nodup)
    (hfresh : ∀ index ∈ hiddenCreated hidden fullTypes (methods.flatMap MethodDecl.creations),
      lineAt? full index = some (-1))
    {fullNext partNext : Array Entry}
    (hfull : addMethods first type fullTypes methods full = .ok fullNext)
    (hpart : addMethods second type partTypes methods part = .ok partNext) :
    RunsAgree hidden start fullNext partNext := by
  rw [addMethods] at hfull hpart
  -- What one method meets keeps its line in the others: no hidden entry is met twice.
  induction methods generalizing full part with
  | nil =>
      simp only [List.foldlM_nil, pure, Except.pure, Except.ok.injEq] at hfull hpart
      rw [← hfull, ← hpart]
      exact h
  | cons method rest ih =>
      rw [List.foldlM_cons] at hfull hpart
      obtain ⟨fullMid, hfullMid, hfull⟩ := bind_eq_ok hfull
      obtain ⟨partMid, hpartMid, hpart⟩ := bind_eq_ok hpart
      have hsplit : hiddenCreated hidden fullTypes
            ((method :: rest).flatMap MethodDecl.creations) =
          hiddenCreated hidden fullTypes method.creations ++
            hiddenCreated hidden fullTypes (rest.flatMap MethodDecl.creations) := by
        simp [hiddenCreated]
      rw [hsplit] at honce hfresh
      rw [List.nodup_append] at honce
      obtain ⟨honceMethod, honceRest, hapart⟩ := honce
      obtain ⟨hmid, hframe⟩ := addMethod_agree hbelow first second hlocal h honceMethod
        (fun index hindex => hfresh index (List.mem_append_left _ hindex))
        (mapError_eq_ok hfullMid) (mapError_eq_ok hpartMid)
      refine ih hmid honceRest (fun index hindex => ?_) hfull hpart
      rw [hframe index (hidden_of_mem_hiddenCreated hindex)
        (fun hmem => hapart index hmem index hindex rfl)]
      exact hfresh index (List.mem_append_right _ hindex)

end Methods

end Linkage
