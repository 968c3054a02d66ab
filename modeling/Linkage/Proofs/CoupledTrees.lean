import Linkage.Proofs.ConstructorPairs
import Linkage.Proofs.LocalDeclarations
/-
Constructor calls in extraction.  An instruction that calls a constructor records the creation
and the call one behind the other; filters keep both or neither, and what a local type leaves
for its creation are whole pairs again.  So every tree of types has its entries in pairs, and
of a pair both references are delivered on the line that they share, or neither is.
-/

namespace Linkage

/-- Options that ask for creations and for constructor calls. -/
def ExtractOptions.AsksConstruction (options : ExtractOptions) : Prop :=
  ∀ kind ∈ constructionKinds, options.kinds.contains kind = true

variable {options : ExtractOptions}

/-! Instructions. -/

/-- The creation and the constructor call of one call are both delivered or neither is. -/
theorem ExtractOptions.AsksConstruction.considers_eq (hasks : options.AsksConstruction)
    (scope : Scope) (source : MemberHandle) (owner descriptor : String) :
    options.considers scope (.ofType source owner .instantiate) =
      options.considers scope
        (.ofMethod source owner constructorName descriptor .constructorCall 0) := by
  have hcreation := hasks .instantiate (by decide)
  have hcall := hasks .constructorCall (by decide)
  have hname : constructorName ≠ classInitializerName := by decide
  simp [considers, leavesScope, Reference.ofType, Reference.ofMethod, hcreation, hcall, hname,
    memberTypeKinds]

theorem ExtractOptions.AsksConstruction.mates (hasks : options.AsksConstruction) (scope : Scope)
    (source : MemberHandle) (owner descriptor : String) :
    (options.record scope (.ofReference (.ofType source owner .instantiate))).Mates
      (options.record scope (.ofReference
        (.ofMethod source owner constructorName descriptor .constructorCall 0))) :=
  ⟨rfl, rfl, rfl, rfl, rfl, hasks.considers_eq scope source owner descriptor, rfl, rfl⟩

namespace BodySite

/-- An instruction calls a constructor that is not the super constructor. -/
def Constructs (site : BodySite) (state : CallState) (instruction : Instruction) : Prop :=
  ∃ call, instruction.operation = .invoke call ∧ call.kind = .special ∧
    call.name = constructorName ∧ ¬ site.isSuperCall state (qualifiedName call.owner) = true

/-- Other instructions make neither creations nor constructor calls. -/
theorem InstructionMakes.kind_not_construction {site : BodySite} {state : CallState}
    {instruction : Instruction} {draft : Draft}
    (h : InstructionMakes site state instruction draft)
    (hother : ¬ site.Constructs state instruction) :
    draft.reference.kind ∉ constructionKinds := by
  by_cases huse : draft.reference.kind ∈ useKinds
  · have hapart : ∀ kind ∈ useKinds, kind ∉ constructionKinds := by decide
    exact hapart _ huse
  · obtain ⟨call, hcall, hmakes⟩ := h.exists_call huse
    cases hmakes with
    | instantiate hkind hname hsuper => exact absurd ⟨call, hcall, hkind, hname, hsuper⟩ hother
    | constructor hkind hname hsuper => exact absurd ⟨call, hcall, hkind, hname, hsuper⟩ hother
    | _ => exact of_decide_eq_true rfl

/-- What an instruction records stands in pairs. -/
theorem coupled_drafts (hasks : options.AsksConstruction) (site : BodySite) (state : CallState)
    (instruction : Instruction) :
    Coupled ((site.drafts state instruction).map (options.record site.type.scope)) := by
  by_cases hconstructs : site.Constructs state instruction
  · obtain ⟨call, hcall, hkind, hname, hsuper⟩ := hconstructs
    have hdrafts : site.drafts state instruction =
        [.ofReference (.ofType site.source (qualifiedName call.owner) .instantiate),
          .ofReference (.ofMethod site.source (qualifiedName call.owner) constructorName
            call.descriptor .constructorCall 0)] := by
      simp only [drafts, hcall, callDrafts, hkind, qualified_eq, if_pos hname, if_neg hsuper]
      rw [callReference, hname]
      rfl
    rw [hdrafts]
    exact .pair (hasks.mates _ _ _ _) .nil
  · refine .of_alone (List.forall_mem_map.mpr fun draft hdraft => ?_)
    exact (instructionMakes_of_mem hdraft).kind_not_construction hconstructs

theorem coupled_instructionDrafts (hasks : options.AsksConstruction) (site : BodySite)
    (state : CallState) (instructions : List Instruction) :
    Coupled ((site.instructionDrafts state instructions).map
      (options.record site.type.scope)) := by
  induction instructions generalizing state with
  | nil => exact .nil
  | cons instruction rest ih =>
      rw [instructionDrafts, List.map_append]
      exact (site.coupled_drafts hasks state instruction).append (ih _)

end BodySite

/-! Positions. -/

theorem entryKinds_append (left right : Array Entry) :
    entryKinds (left ++ right) = entryKinds left ++ entryKinds right := by
  simp [entryKinds]

theorem length_entryKinds (entries : Array Entry) : (entryKinds entries).length = entries.size := by
  simp [entryKinds]

namespace CoupledPositions

/-- The positions of a block of entries that stand in pairs. -/
theorem of_block {block : List Entry} (h : Coupled block) (front back : List ReferenceKind) :
    CoupledPositions (front ++ block.map (fun entry => entry.reference.kind) ++ back)
      ((List.range' front.length block.length).map .entry) := by
  have hall := @of_coupled block h (fun _ => true) (fun _ _ _ => rfl) front back
  rw [← List.zipIdx_map_snd front.length block, List.map_map]
  rwa [List.filter_true] at hall

/-- The positions of drafts that stand in pairs. -/
theorem of_drafts {scope : Scope} {drafts : List Draft}
    (h : Coupled (drafts.map (options.record scope))) (front back : List ReferenceKind) :
    CoupledPositions (front ++ drafts.map (fun draft => draft.reference.kind) ++ back)
      ((List.range' front.length drafts.length).map .entry) := by
  have hblock := of_block h front back
  rwa [List.map_map, List.length_map] at hblock

/-- What a block leaves without a line stands in pairs. -/
theorem of_unplaced {block : Array Entry} (h : Coupled block.toList)
    (front back : List ReferenceKind) :
    CoupledPositions (front ++ entryKinds block ++ back)
      ((unplaced front.length block).map .entry) := by
  rw [unplaced, List.map_map]
  have hkeep : ∀ creation call : Entry, creation.Mates call →
      (creation.retained && decide (creation.line < 0)) =
        (call.retained && decide (call.line < 0)) := by
    intro creation call hmates
    rw [hmates.retained_eq, hmates.line_eq]
  exact @of_coupled block.toList h (fun entry => entry.retained && entry.line < 0) hkeep front back

/-- The moments of a body meet constructor calls in pairs, whether at the instructions or at
the creations of local types. -/
theorem positions (hasks : options.AsksConstruction) (site : BodySite) {localTypes : LocalTypes}
    {front : List ReferenceKind} (hlocal : ∀ name,
      CoupledPositions front ((localTypes.getD name []).map .entry))
    (back : List ReferenceKind) (state : CallState) (moments : List Moment) :
    CoupledPositions (front ++ (site.instructionDrafts state
        (moments.filterMap Moment.instruction?)).map (fun draft => draft.reference.kind) ++ back)
      (site.positions localTypes state front.length moments) := by
  induction moments generalizing front state with
  | nil => exact .nil
  | cons moment rest ih =>
      cases moment with
      | label pc => exact .label pc (ih hlocal state)
      | run instruction =>
          have hcons : (Moment.run instruction :: rest).filterMap Moment.instruction? =
              instruction :: rest.filterMap Moment.instruction? := rfl
          have hagain : CoupledPositions front
              ((replayed site localTypes instruction).map .entry) := by
            rw [replayed_eq]
            cases instruction.created? with
            | none => exact .nil
            | some name => simpa using hlocal name
          have hnew := of_drafts (site.coupled_drafts hasks state instruction) front
            ((site.instructionDrafts (site.after state instruction)
              (rest.filterMap Moment.instruction?)).map (fun draft => draft.reference.kind) ++ back)
          have hlater := @ih (front ++
              (site.drafts state instruction).map (fun draft => draft.reference.kind))
            (fun name => (hlocal name).mono (List.prefix_append _ _))
            (site.after state instruction)
          rw [List.length_append, List.length_map] at hlater
          rw [BodySite.positions, hcons, BodySite.instructionDrafts, List.map_append]
          simp only [List.append_assoc] at hlater hnew ⊢
          exact (hagain.mono (List.prefix_append _ _)).append (hnew.append hlater)

end CoupledPositions

/-! Bodies. -/

theorem not_construction_of_declared {kind : ReferenceKind} (h : kind ∈ declaredKinds) :
    kind ∉ constructionKinds := by
  revert h
  cases kind <;> decide

/-- Drafts of other kinds stand alone. -/
theorem Coupled.records_alone (scope : Scope) {drafts : List Draft}
    (h : ∀ draft ∈ drafts, draft.reference.kind ∉ constructionKinds) :
    Coupled (drafts.map (options.record scope)) :=
  .of_alone (List.forall_mem_map.mpr h)

theorem BodySite.kind_of_mem_catchDrafts {site : BodySite} {handlers : List ExceptionHandler}
    {draft : Draft} (h : draft ∈ site.catchDrafts handlers) :
    draft.reference.kind ∉ constructionKinds := by
  obtain ⟨name, -, rfl⟩ := List.mem_map.mp h
  exact (by decide : ReferenceKind.catchException ∉ constructionKinds)

theorem BodySite.coupled_catchDrafts (options : ExtractOptions) (site : BodySite)
    (handlers : List ExceptionHandler) :
    Coupled ((site.catchDrafts handlers).map (options.record site.type.scope)) :=
  .records_alone _ fun _ => kind_of_mem_catchDrafts

namespace BodyWalk

variable (options) (site : BodySite) (localTypes : LocalTypes) (code : Code)
  (entries : Array Entry)

theorem entryKinds_through :
    entryKinds (through options site localTypes code code.timeline entries).entries =
      entryKinds entries ++ (site.catchDrafts code.handlers).map
        (fun draft => draft.reference.kind) ++ (site.instructionDrafts {} code.instructions).map
          (fun draft => draft.reference.kind) := by
  rw [through_entries, entryKinds_append, List.append_assoc, ← List.map_append]
  simp [entryKinds, draftEntries, Function.comp_def, ExtractOptions.record]

/-- The places of caught types lead to entries that stand alone. -/
theorem kind_of_mem_catches {place : CatchPlace}
    (h : place ∈ (through options site localTypes code code.timeline entries).catches.toList) :
    ∃ kind, (entryKinds (through options site localTypes code code.timeline
      entries).entries)[place.index]? = some kind ∧ kind ∉ constructionKinds := by
  rw [(through_positions options site localTypes code entries).2, mem_catchPlaces] at h
  obtain ⟨position, name, hindex, hcaught⟩ := h
  have hposition : position < (site.catchDrafts code.handlers).length := by
    rw [site.length_catchDrafts]
    exact (List.getElem?_eq_some_iff.mp hcaught).1
  refine ⟨_, ?_, BodySite.kind_of_mem_catchDrafts (List.getElem_mem hposition)⟩
  rw [entryKinds_through, hindex, List.append_assoc, ← length_entryKinds,
    List.getElem?_append_right (Nat.le_add_right _ _), Nat.add_sub_cancel_left,
    List.getElem?_append_left (by simpa using hposition), List.getElem?_map,
    List.getElem?_eq_getElem hposition]
  rfl

variable {options} {entries}

theorem coupled_through (hasks : options.AsksConstruction) (h : Coupled entries.toList) :
    Coupled (through options site localTypes code code.timeline entries).entries.toList := by
  rw [through_entries, Array.toList_append, draftEntries, List.toList_toArray, List.map_append]
  exact h.append ((site.coupled_catchDrafts options code.handlers).append
    (site.coupled_instructionDrafts hasks {} code.instructions))

variable {localTypes}

/-- A walk through a body meets constructor calls in pairs. -/
theorem coupledPositions_through (hasks : options.AsksConstruction)
    (hlocal : ∀ name, CoupledPositions (entryKinds entries)
      ((localTypes.getD name []).map .entry)) (back : List ReferenceKind) :
    CoupledPositions
      (entryKinds (through options site localTypes code code.timeline entries).entries ++ back)
      (through options site localTypes code code.timeline entries).positions.toList := by
  let catchKinds := (site.catchDrafts code.handlers).map (fun draft => draft.reference.kind)
  let ownKinds := (site.instructionDrafts {} code.instructions).map
    (fun draft => draft.reference.kind)
  have hcaught := CoupledPositions.of_drafts (site.coupled_catchDrafts options code.handlers)
    (entryKinds entries) (ownKinds ++ back)
  have hmet := @CoupledPositions.positions options hasks site localTypes
    (entryKinds entries ++ catchKinds) (fun name => (hlocal name).mono (List.prefix_append _ _))
    back {} code.timeline.toList
  rw [Code.timeline_instructions, List.length_append, length_entryKinds, List.length_map,
    site.length_catchDrafts] at hmet
  rw [length_entryKinds, site.length_catchDrafts, ← List.append_assoc] at hcaught
  rw [(through_positions options site localTypes code entries).1, entryKinds_through]
  exact hcaught.append hmet

end BodyWalk

namespace Coupled

/-- A body adds whole pairs and keeps those that there are. -/
theorem addBody (hasks : options.AsksConstruction) {site : BodySite} {localTypes : LocalTypes}
    {firstLocal : Nat} {code : Code} {entries next : Array Entry} (h : Coupled entries.toList)
    (hlocal : ∀ name, CoupledPositions (entryKinds entries)
      ((localTypes.getD name []).map .entry))
    (hnext : addBody options site localTypes firstLocal code entries = .ok next) :
    Coupled next.toList := by
  rw [Linkage.addBody] at hnext
  obtain ⟨named, hnamed, rfl⟩ := bind_pure_eq_ok hnext
  have hdeclared : ∀ reference ∈ named.toList, reference.kind ∉ constructionKinds := by
    intro reference hmem
    obtain ⟨_, _, hmention⟩ := variableMentions_localReferences hnamed reference hmem
    exact not_construction_of_declared hmention.kind_mem
  refine assignLines ?_ ?_ fun place hplace => ?_
  · rw [Array.toList_append, Array.toList_map]
    exact (BodyWalk.coupled_through site localTypes code hasks h).append
      (of_alone (List.forall_mem_map.mpr hdeclared))
  · rw [entryKinds_append]
    exact BodyWalk.coupledPositions_through site code hasks hlocal _
  · obtain ⟨kind, hindex, hkind⟩ :=
      BodyWalk.kind_of_mem_catches options site localTypes code entries hplace
    refine ⟨kind, ?_, hkind⟩
    rw [entryKinds_append, List.getElem?_append_left (List.getElem?_eq_some_iff.mp hindex).1,
      hindex]

end Coupled

/-! Types. -/

/-- Entries stand in pairs, and so do those that local types have left without a line. -/
structure TypeEntries.InPairs (state : TypeEntries) : Prop where
  entries : Coupled state.entries.toList
  locals : ∀ name, CoupledPositions (entryKinds state.entries)
    ((state.localTypes.getD name []).map .entry)

theorem entryKinds_extend {entries next : Array Entry}
    (h : unlinedAll entries <+: unlinedAll next) : entryKinds entries <+: entryKinds next := by
  rw [entryKinds_unlinedAll, entryKinds_unlinedAll]
  exact h.map _

variable {known : Universe} {decl : ClassDecl}

/-- The declaration of a method makes neither creations nor constructor calls. -/
theorem not_construction_of_mem_methodReferences {method : MethodDecl} {types : MethodTypes}
    (htypes : readMethodTypes method.descriptor = .ok types) {references : List Reference}
    (h : (TypeSite.of known decl).methodReferences method types = .ok references) :
    ∀ draft ∈ references.map Draft.ofReference, draft.reference.kind ∉ constructionKinds := by
  refine List.forall_mem_map.mpr fun reference hmem => ?_
  rcases mem_methodReferences htypes h hmem with hoverride | hmention
  · obtain ⟨target, flags, rfl, -⟩ := mem_overrideReferences hoverride
    exact (by decide : ReferenceKind.override ∉ constructionKinds)
  · exact not_construction_of_declared hmention.kind_mem

namespace TypeEntries.InPairs

variable {state : TypeEntries}

/-- Further entries in pairs change nothing. -/
theorem append (h : state.InPairs) {block : Array Entry} (hblock : Coupled block.toList) :
    InPairs { state with entries := state.entries ++ block } := by
  refine ⟨?_, fun name => ?_⟩
  · rw [Array.toList_append]
    exact h.entries.append hblock
  · rw [entryKinds_append]
    exact (h.locals name).mono (List.prefix_append _ _)

theorem addMethod (hasks : options.AsksConstruction) (h : state.InPairs) {method : MethodDecl}
    {next : Array Entry} (hnext : addMethod options (TypeSite.of known decl) state.localTypes
      state.entries method = .ok next) : InPairs { state with entries := next } := by
  refine ⟨?_, fun name => (h.locals name).mono (entryKinds_extend (addMethod_extends hnext))⟩
  have hmethod := hnext
  rw [Linkage.addMethod] at hmethod
  obtain ⟨types, htypes, hmethod⟩ := bind_eq_ok hmethod
  obtain ⟨declared, hdeclared, -⟩ := bind_eq_ok hmethod
  rw [addMethod_eq options state.localTypes state.entries htypes hdeclared] at hnext
  rw [Table.get_eq] at htypes
  have hall := @append state h ((declared.map Draft.ofReference).map
    (options.record (TypeSite.of known decl).scope)).toArray
    (Coupled.records_alone _ (not_construction_of_mem_methodReferences htypes hdeclared))
  simp only [append_records] at hnext
  cases hcode : method.body? with
  | none =>
      simp only [hcode] at hnext
      rw [← Except.ok.inj hnext]
      exact hall.entries
  | some code =>
      simp only [hcode] at hnext
      exact hall.entries.addBody hasks hall.locals hnext

theorem addMethods (hasks : options.AsksConstruction) (h : state.InPairs)
    {methods : List MethodDecl} {next : Array Entry}
    (hnext : addMethods options (TypeSite.of known decl) state.localTypes methods state.entries =
      .ok next) : InPairs { state with entries := next } := by
  have hstep : ∀ entries, ∀ method ∈ methods, InPairs { state with entries := entries } →
      ∀ after, (Linkage.addMethod options (TypeSite.of known decl) state.localTypes entries
        method).mapError (ExtractError.method method.name method.descriptor) = .ok after →
          InPairs { state with entries := after } :=
    fun _ _ _ hstate _ hafter => addMethod hasks hstate (mapError_eq_ok hafter)
  exact foldlM_preserves hstep hnext h

theorem addChild {blocks : NestedEntries} (hblocks : ∀ (name : String) (block : Array Entry),
    blocks[name]? = some block → Coupled block.toList) (h : state.InPairs) (child : ChildType) :
    (state.addChild blocks child).InPairs := by
  rw [TypeEntries.addChild]
  cases hblock : blocks[child.name]? with
  | none => exact h
  | some block =>
      have hall := h.append (hblocks child.name block hblock)
      refine ⟨hall.entries, fun name => ?_⟩
      simp only
      split
      · exact hall.locals name
      · rw [getD_insert_localTypes]
        split
        · -- What the block leaves without a line are whole pairs of it.
          have hleft := CoupledPositions.of_unplaced (hblocks child.name block hblock)
            (entryKinds state.entries) []
          rw [List.append_nil, ← entryKinds_append, length_entryKinds] at hleft
          rwa [Array.size_append, Nat.add_sub_cancel]
        · exact hall.locals name

theorem foldl_addChild {blocks : NestedEntries}
    (hblocks : ∀ (name : String) (block : Array Entry),
      blocks[name]? = some block → Coupled block.toList)
    (h : state.InPairs) (children : List ChildType) :
    (children.foldl (TypeEntries.addChild blocks) state).InPairs := by
  induction children generalizing state with
  | nil => exact h
  | cons child rest ih => exact ih (h.addChild hblocks child)

/-- Headers and fields make neither creations nor constructor calls. -/
theorem beforeMethods {nested : NestedTrees} {before : TypeEntries}
    (h : TypeTree.beforeMethods options known decl nested = .ok before)
    (hblocks : ∀ (name : String) (block : Array Entry),
      (nested.addEntries options known ∅)[name]? = some block → Coupled block.toList) :
    before.InPairs := by
  obtain ⟨header, fields, hheader, hfields, rfl⟩ := TypeTree.exists_of_beforeMethods h
  obtain ⟨drafts, hdrafts, rfl⟩ := exists_headerEntries hheader
  have hdeclared : ∀ draft ∈ drafts, draft.reference.kind ∉ constructionKinds := by
    intro draft hmem
    obtain ⟨reference, hmention, rfl⟩ := mem_headerDrafts hdrafts hmem
    exact not_construction_of_declared hmention.kind_mem
  have hfield : ∀ draft ∈ fields.flatten, draft.reference.kind ∉ constructionKinds := by
    intro draft hmem
    obtain ⟨parts, hparts, hmem⟩ := List.mem_flatten.mp hmem
    obtain ⟨field, -, hmakes⟩ := (mem_of_mapM_eq_ok hfields).mp hparts
    cases fieldMakes_of_mem (mapError_eq_ok hmakes) hmem with
    | mention hmention => exact not_construction_of_declared hmention.kind_mem
    | synthetic _ _ => exact (by decide : ReferenceKind.fieldDeclaration ∉ constructionKinds)
  have hstart : InPairs
      { entries := (drafts.map (options.record (TypeSite.of known decl).scope)).toArray } :=
    ⟨Coupled.records_alone _ hdeclared, fun name => by simpa using CoupledPositions.nil⟩
  exact (hstart.foldl_addChild hblocks decl.children).append (Coupled.records_alone _ hfield)

end TypeEntries.InPairs

/-- Every tree has its entries in pairs, if the options ask for both of a pair. -/
theorem Coupled.holdsAtNodes (known : Universe) (hasks : options.AsksConstruction) :
    HoldsAtNodes options known (fun _ => True) (fun entries => Coupled entries.toList) := by
  intro decl nested _ hblocks entries hentries
  rw [TypeTree.entries_node] at hentries
  obtain ⟨before, hbefore, hmethods⟩ := bind_eq_ok hentries
  exact ((TypeEntries.InPairs.beforeMethods hbefore hblocks).addMethods hasks hmethods).entries

/-! Deliveries. -/

/-- A member refers to a type on a line, by a reference of a kind. -/
def RefersAt (references : List Reference) (kind : ReferenceKind) (source : MemberHandle)
    (typeName : String) (line : Int) : Prop :=
  ∃ reference ∈ references, reference.kind = kind ∧ reference.source = source ∧
    reference.typeName = typeName ∧ reference.line = line

namespace Coupled

variable {entries : List Entry} {source : MemberHandle} {typeName : String} {line : Int}

/-- Creations and constructor calls are not folded away. -/
theorem trail_eq (h : Coupled entries) {entry : Entry} (hmem : entry ∈ entries)
    (hkind : entry.reference.kind ∈ constructionKinds) : entry.trail = .plain := by
  simp only [constructionKinds, List.mem_cons, List.not_mem_nil, or_false] at hkind
  rcases hkind with hkind | hkind
  · obtain ⟨_, -, hmates⟩ := h.exists_call hmem hkind
    exact hmates.creation_trail
  · obtain ⟨_, -, hmates⟩ := h.exists_creation hmem hkind
    exact hmates.call_trail

/-- A creation or a constructor call is delivered exactly if a retained entry makes it. -/
theorem refersAt_delivered_iff (h : Coupled entries) {kind : ReferenceKind}
    (hkind : kind ∈ constructionKinds) :
    RefersAt (delivered (foldAccessors options entries)) kind source typeName line ↔
      ∃ entry ∈ entries, entry.retained = true ∧ entry.reference.kind = kind ∧
        entry.reference.source = source ∧ entry.reference.typeName = typeName ∧
          entry.line = line := by
  constructor
  · rintro ⟨_, hdelivered, rfl, rfl, rfl, rfl⟩
    obtain ⟨kept, hmem, hretained, rfl⟩ := exists_of_mem_delivered hdelivered
    rcases mem_foldAccessors hmem hretained with
      ⟨hentry, -⟩ | ⟨access, haccess, call, -, hreaches, rfl⟩
    · exact ⟨kept, hentry, hretained, rfl, rfl, rfl, rfl⟩
    · -- A direct use is of the kind of the use, which folding is interested in.
      have htrail : access.trail = .syntheticAccess := hreaches.access_trail
      rw [h.trail_eq haccess hkind] at htrail
      cases htrail
  · rintro ⟨entry, hmem, hretained, rfl, rfl, rfl, rfl⟩
    obtain ⟨reference, hreference, hkey⟩ := exists_delivered_of_mem
      (@mem_foldAccessors_of_plain options _ _ hmem (h.trail_eq hmem hkind)) hretained
    obtain ⟨hidentity, hline⟩ := Prod.mk.inj hkey
    exact ⟨reference, hreference, congrArg Reference.Identity.kind hidentity,
      congrArg Reference.Identity.source hidentity,
      congrArg Reference.Identity.typeName hidentity, hline⟩

/-- A creation is delivered exactly if its constructor call is. -/
theorem refersAt_creation_iff_call (h : Coupled entries) :
    RefersAt (delivered (foldAccessors options entries)) .instantiate source typeName line ↔
      RefersAt (delivered (foldAccessors options entries)) .constructorCall source typeName
        line := by
  rw [h.refersAt_delivered_iff (by decide), h.refersAt_delivered_iff (by decide)]
  constructor
  · rintro ⟨creation, hmem, hretained, hkind, rfl, rfl, rfl⟩
    obtain ⟨call, hcall, hmates⟩ := h.exists_call hmem hkind
    exact ⟨call, hcall, hmates.retained_eq ▸ hretained, hmates.call_kind, hmates.source_eq.symm,
      hmates.typeName_eq.symm, hmates.line_eq.symm⟩
  · rintro ⟨call, hmem, hretained, hkind, rfl, rfl, rfl⟩
    obtain ⟨creation, hcreation, hmates⟩ := h.exists_creation hmem hkind
    exact ⟨creation, hcreation, hmates.retained_eq.symm ▸ hretained, hmates.creation_kind,
      hmates.source_eq, hmates.typeName_eq, hmates.line_eq⟩

end Coupled

end Linkage
