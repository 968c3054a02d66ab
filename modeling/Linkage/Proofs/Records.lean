import Linkage.Extraction.Extract
import Linkage.Proofs.Outcome
/-
Records: what extraction keeps of a type when source lines are left apart.  The
records of a type are a plain list in the order of its declarations and
instructions; they do not depend on what extraction is asked to deliver.  The
entries of extraction are these records, each on some line.
-/

namespace Linkage

/-- A draft with the type that it is recorded for. -/
structure Record where
  scope : Scope
  draft : Draft

/-- The entry without its line. -/
def Entry.unlined (entry : Entry) : Entry := entry.atLine (-1)

/-- Entries without their lines. -/
def unlinedAll (entries : Array Entry) : List Entry := entries.toList.map Entry.unlined

/-- The entry that a draft makes, without its line. -/
def ExtractOptions.unlined (options : ExtractOptions) (scope : Scope) (draft : Draft) :
    Entry :=
  (options.record scope draft).unlined

/-- The entry that a record makes, without its line. -/
def Record.unlined (options : ExtractOptions) (record : Record) : Entry :=
  options.unlined record.scope record.draft

namespace BodySite

/-- The drafts of the caught types of a body. -/
def catchDrafts (site : BodySite) (handlers : List ExceptionHandler) : List Draft :=
  (handlers.filterMap ExceptionHandler.catchType).map (fun name =>
    .ofReference (Reference.ofType site.source (site.qualified name) .catchException))

/-- The drafts of instructions in order. -/
def instructionDrafts (site : BodySite) : CallState → List Instruction → List Draft
  | _, [] => []
  | state, instruction :: rest =>
      site.drafts state instruction
        ++ site.instructionDrafts (site.after state instruction) rest

/-- The drafts of a body: caught types, instructions, local variables. -/
def bodyDrafts (site : BodySite) (firstLocal : Nat) (code : Code) :
    Except TextError (List Draft) := do
  let declared ← localReferences site.type.glossary site.source firstLocal code.locals
    (placeMarkers (.ofEntries code.lines) code.timeline)
  return site.catchDrafts code.handlers ++ site.instructionDrafts {} code.instructions
    ++ declared.toList.map Draft.ofReference

end BodySite

/-- The body of a method that has one. -/
def MethodDecl.body? (method : MethodDecl) : Option Code :=
  if method.access.isNative || method.access.isAbstract then none else method.code

namespace TypeSite

/-- The drafts of a method: its declaration, then its body. -/
def methodDrafts (type : TypeSite) (method : MethodDecl) : Except TextError (List Draft) := do
  let types ← type.glossary.methodTypes.get method.descriptor
  let declared ← type.methodReferences method types
  let body ← match method.body? with
    | none => .ok []
    | some code => (BodySite.of type method).bodyDrafts (firstLocalSlot method types) code
  return declared.map Draft.ofReference ++ body

/-- The drafts of the header and the annotations of a type. -/
def headerDrafts (type : TypeSite) : Except ExtractError (List Draft) := do
  let header ← type.headerReferences.mapError .header
  return (header ++ type.annotationReferences).map Draft.ofReference

/-- The drafts of the fields of a type, one list for each. -/
def fieldsDrafts (type : TypeSite) : Except ExtractError (List (List Draft)) :=
  type.decl.fields.mapM (fun field => (type.fieldDrafts field).mapError (.field field.name))

/-- The drafts of the methods of a type, one list for each. -/
def methodsDrafts (type : TypeSite) : Except ExtractError (List (List Draft)) :=
  type.decl.methods.mapM (fun method =>
    (type.methodDrafts method).mapError (.method method.name method.descriptor))

/-- Drafts as records of the type. -/
def recorded (type : TypeSite) (drafts : List Draft) : List Record :=
  drafts.map (Record.mk type.scope)

end TypeSite

mutual

/-- The records of a type: header, nested types, fields, methods. -/
def TypeTree.records (known : Universe) : TypeTree → Except ExtractError (List Record)
  | .node decl nested => do
      let type := TypeSite.of known decl
      let header ← type.headerDrafts
      let inner := decl.children.flatMap (fun child =>
        (nested.recordsOf known child.name).getD [])
      let fields ← type.fieldsDrafts
      let methods ← type.methodsDrafts
      return type.recorded header ++ inner ++ type.recorded (fields.flatten ++ methods.flatten)

/-- The records of a nested type; none if it is unknown or fails. -/
def NestedTrees.recordsOf (known : Universe) : NestedTrees → String → Option (List Record)
  | .nil, _ => none
  | .cons other tree rest, name =>
      (rest.recordsOf known name).or
        (if other = name then (tree.records known).toOption else none)

end

/-! Lines do not matter for records. -/

@[simp] theorem Entry.unlined_atLine (entry : Entry) (line : Int) :
    (entry.atLine line).unlined = entry.unlined := rfl

@[simp] theorem unlinedAll_append (left right : Array Entry) :
    unlinedAll (left ++ right) = unlinedAll left ++ unlinedAll right := by
  simp [unlinedAll]

@[simp] theorem unlinedAll_setLine (entries : Array Entry) (index : Nat) (line : Int) :
    unlinedAll (setLine entries index line) = unlinedAll entries := by
  apply List.ext_getElem?
  intro position
  simp only [unlinedAll, setLine, List.getElem?_map, Array.getElem?_toList,
    Array.getElem?_modify]
  split
  · cases entries[position]? <;> rfl
  · rfl

theorem unlinedAll_placeCatches (table : LineTable) (catches : Array CatchPlace)
    (entries : Array Entry) :
    unlinedAll (placeCatches table catches entries) = unlinedAll entries := by
  rw [placeCatches, ← Array.foldl_toList]
  induction catches.toList generalizing entries with
  | nil => rfl
  | cons place rest ih =>
      rw [List.foldl_cons, ih]
      split
      · exact unlinedAll_setLine entries place.index _
      · rfl

theorem unlinedAll_foldl_setLine (line : Int) (indices : List Nat) (entries : Array Entry) :
    unlinedAll (indices.foldl (fun entries index => setLine entries index line) entries)
      = unlinedAll entries := by
  induction indices generalizing entries with
  | nil => rfl
  | cons index rest ih => rw [List.foldl_cons, ih, unlinedAll_setLine]

theorem unlinedAll_meet (table : LineTable) (waiting : WaitingCatches) (walk : LineWalk)
    (position : Position) :
    unlinedAll (walk.meet table waiting position).entries = unlinedAll walk.entries := by
  cases position with
  | label pc =>
      unfold LineWalk.meet
      simp only
      split
      · rfl
      · exact unlinedAll_foldl_setLine walk.current _ walk.entries
  | entry index =>
      unfold LineWalk.meet
      simp only
      split
      · split
        · exact unlinedAll_setLine walk.entries index walk.current
        · rfl
      · rfl

theorem unlinedAll_foldl_meet (table : LineTable) (waiting : WaitingCatches)
    (positions : List Position) (walk : LineWalk) :
    unlinedAll (positions.foldl (LineWalk.meet table waiting) walk).entries
      = unlinedAll walk.entries := by
  induction positions generalizing walk with
  | nil => rfl
  | cons position rest ih => rw [List.foldl_cons, ih, unlinedAll_meet]

@[simp] theorem unlinedAll_assignLines (lines : List LineEntry) (catches : Array CatchPlace)
    (positions : Array Position) (entries : Array Entry) :
    unlinedAll (assignLines lines catches positions entries) = unlinedAll entries := by
  rw [assignLines]
  split
  · rfl
  · simp only [← Array.foldl_toList]
    rw [unlinedAll_foldl_meet, unlinedAll_placeCatches]

/-! A walk through a body records its drafts. -/

/-- The instruction of a moment. -/
def Moment.instruction? : Moment → Option Instruction
  | .label _ => none
  | .run instruction => some instruction

theorem mergeLabels_instructions (merged : Array Moment) (labels : List Nat)
    (instructions : List Instruction) :
    (mergeLabels merged labels instructions).toList.filterMap Moment.instruction? =
      merged.toList.filterMap Moment.instruction? ++ instructions := by
  induction instructions generalizing merged labels with
  | nil => simp [mergeLabels, Moment.instruction?]
  | cons instruction rest ih =>
      rw [mergeLabels, ih]
      simp [Moment.instruction?]

/-- A timeline runs the instructions of its body in order. -/
theorem Code.timeline_instructions (code : Code) :
    code.timeline.toList.filterMap Moment.instruction? = code.instructions := by
  simp [Code.timeline, mergeLabels_instructions]

namespace BodyWalk

variable (options : ExtractOptions) (site : BodySite)

/-- The entries that drafts make in a body. -/
def draftEntries (drafts : List Draft) : Array Entry :=
  (drafts.map (options.record site.type.scope)).toArray

theorem foldl_record (walk : BodyWalk) (drafts : List Draft) :
    (drafts.foldl (record options site) walk).entries =
        walk.entries ++ draftEntries options site drafts ∧
      (drafts.foldl (record options site) walk).state = walk.state := by
  induction drafts generalizing walk with
  | nil => simp [draftEntries]
  | cons draft rest ih =>
      obtain ⟨hentries, hstate⟩ := ih (record options site walk draft)
      rw [List.foldl_cons]
      refine ⟨?_, hstate⟩
      rw [hentries]
      simp [record, draftEntries]

theorem foldl_recordCatch (walk : BodyWalk) (handlers : List ExceptionHandler) :
    (handlers.foldl (recordCatch options site) walk).entries =
        walk.entries ++ draftEntries options site (site.catchDrafts handlers) ∧
      (handlers.foldl (recordCatch options site) walk).state = walk.state := by
  induction handlers generalizing walk with
  | nil => simp [draftEntries, BodySite.catchDrafts]
  | cons handler rest ih =>
      obtain ⟨hentries, hstate⟩ := ih (recordCatch options site walk handler)
      rw [List.foldl_cons, hentries, hstate]
      cases hcatch : handler.catchType with
      | none => simp [recordCatch, BodySite.catchDrafts, hcatch]
      | some name =>
          simp [recordCatch, record, BodySite.catchDrafts, draftEntries, hcatch]

theorem foldl_meet (localTypes : LocalTypes) (walk : BodyWalk) (moments : List Moment) :
    (moments.foldl (meet options site localTypes) walk).entries =
      walk.entries ++ draftEntries options site
        (site.instructionDrafts walk.state (moments.filterMap Moment.instruction?)) := by
  induction moments generalizing walk with
  | nil => simp [draftEntries, BodySite.instructionDrafts]
  | cons moment rest ih =>
      rw [List.foldl_cons, ih]
      cases moment with
      | label pc => rfl
      | run instruction =>
          obtain ⟨hentries, hstate⟩ := foldl_record options site
            { walk with
              positions := walk.positions
                ++ (replayed site localTypes instruction).map Position.entry
              state := site.after walk.state instruction }
            (site.drafts walk.state instruction)
          simp only [meet, hentries, hstate]
          simp [draftEntries, BodySite.instructionDrafts, Moment.instruction?]

/-- A body adds its caught types and the drafts of its instructions. -/
theorem through_entries (localTypes : LocalTypes) (code : Code) (entries : Array Entry) :
    (through options site localTypes code code.timeline entries).entries =
      entries ++ draftEntries options site
        (site.catchDrafts code.handlers ++ site.instructionDrafts {} code.instructions) := by
  obtain ⟨hentries, hstate⟩ :=
    foldl_recordCatch options site { entries := entries } code.handlers
  rw [through, ← Array.foldl_toList, foldl_meet, hentries, hstate,
    Code.timeline_instructions]
  simp [draftEntries]

end BodyWalk

theorem unlinedAll_draftEntries (options : ExtractOptions) (site : BodySite)
    (drafts : List Draft) :
    unlinedAll (BodyWalk.draftEntries options site drafts) =
      drafts.map (options.unlined site.type.scope) := by
  simp [unlinedAll, BodyWalk.draftEntries, ExtractOptions.unlined]

/-! Extraction of a type records its drafts. -/

theorem addBody_unlined (options : ExtractOptions) (site : BodySite)
    (localTypes : LocalTypes) (firstLocal : Nat) (code : Code) (entries : Array Entry) :
    (addBody options site localTypes firstLocal code entries).map unlinedAll =
      (site.bodyDrafts firstLocal code).map (fun drafts =>
        unlinedAll entries ++ drafts.map (options.unlined site.type.scope)) := by
  cases hlocals : localReferences site.type.glossary site.source firstLocal code.locals
      (placeMarkers (.ofEntries code.lines) code.timeline) with
  | error error =>
      simp only [addBody, BodySite.bodyDrafts, hlocals]
      rfl
  | ok declared =>
      simp only [addBody, BodySite.bodyDrafts, hlocals, bind, Except.bind, pure,
        Except.pure, Except.map]
      rw [unlinedAll_assignLines, BodyWalk.through_entries, unlinedAll_append,
        unlinedAll_append, unlinedAll_draftEntries]
      simp [unlinedAll, ExtractOptions.unlined]

/-- A method whose texts can be read adds its declared references, then its body. -/
theorem addMethod_eq (options : ExtractOptions) {type : TypeSite} (localTypes : LocalTypes)
    (entries : Array Entry) {method : MethodDecl} {types : MethodTypes}
    {declared : List Reference}
    (htypes : type.glossary.methodTypes.get method.descriptor = .ok types)
    (hdeclared : type.methodReferences method types = .ok declared) :
    addMethod options type localTypes entries method =
      let all := entries ++ declared.map
        (fun reference => options.record type.scope (.ofReference reference))
      match method.body? with
      | none => .ok all
      | some code =>
          addBody options (.of type method) localTypes (firstLocalSlot method types) code
            all := by
  simp only [addMethod, htypes, hdeclared, bind, Except.bind, MethodDecl.body?]
  split
  · rfl
  · cases method.code <;> rfl

theorem addMethod_unlined (options : ExtractOptions) (type : TypeSite)
    (localTypes : LocalTypes) (entries : Array Entry) (method : MethodDecl) :
    (addMethod options type localTypes entries method).map unlinedAll =
      (type.methodDrafts method).map (fun drafts =>
        unlinedAll entries ++ drafts.map (options.unlined type.scope)) := by
  cases htypes : type.glossary.methodTypes.get method.descriptor with
  | error error =>
      simp only [addMethod, TypeSite.methodDrafts, htypes]
      rfl
  | ok types =>
      cases hdeclared : type.methodReferences method types with
      | error error =>
          simp only [addMethod, TypeSite.methodDrafts, htypes, hdeclared, bind, Except.bind]
          rfl
      | ok declared =>
          have hall : unlinedAll (entries ++ declared.map (fun reference =>
                options.record type.scope (.ofReference reference))) =
              unlinedAll entries ++
                (declared.map Draft.ofReference).map (options.unlined type.scope) := by
            simp [unlinedAll, ExtractOptions.unlined]
          rw [addMethod_eq options localTypes entries htypes hdeclared]
          simp only [TypeSite.methodDrafts, htypes, hdeclared, bind, Except.bind]
          cases method.body? with
          | none => simp [Except.map, pure, Except.pure, hall]
          | some code =>
              simp only
              rw [addBody_unlined, hall]
              cases (BodySite.of type method).bodyDrafts (firstLocalSlot method types) code with
              | error error => rfl
              | ok drafts =>
                  simp only [Except.map, pure, Except.pure, List.map_append,
                    List.append_assoc]
                  rfl

theorem addField_unlined (options : ExtractOptions) (type : TypeSite)
    (entries : Array Entry) (field : FieldDecl) :
    (addField options type entries field).map unlinedAll =
      ((type.fieldDrafts field).mapError (.field field.name)).map (fun drafts =>
        unlinedAll entries ++ drafts.map (options.unlined type.scope)) := by
  rw [addField]
  cases type.fieldDrafts field with
  | error error => rfl
  | ok drafts =>
      simp [bind, Except.bind, pure, Except.pure, Except.map, unlinedAll,
        ExtractOptions.unlined]

theorem addMethods_unlined (options : ExtractOptions) (type : TypeSite)
    (localTypes : LocalTypes) (entries : Array Entry) :
    (addMethods options type localTypes type.decl.methods entries).map unlinedAll =
      type.methodsDrafts.map (fun found =>
        unlinedAll entries ++ found.flatten.map (options.unlined type.scope)) := by
  apply foldlM_view
  intro state method
  have hmethod := addMethod_unlined options type localTypes state method
  cases hadd : addMethod options type localTypes state method <;>
    cases hdrafts : type.methodDrafts method <;>
    simp_all [Except.map]

theorem addFields_unlined (options : ExtractOptions) (type : TypeSite)
    (entries : Array Entry) :
    (type.decl.fields.foldlM (addField options type) entries).map unlinedAll =
      type.fieldsDrafts.map (fun found =>
        unlinedAll entries ++ found.flatten.map (options.unlined type.scope)) := by
  apply foldlM_view
  intro state field
  exact addField_unlined options type state field

theorem headerEntries_unlined (options : ExtractOptions) (type : TypeSite) :
    (headerEntries options type).map (fun entries => unlinedAll entries.toArray) =
      type.headerDrafts.map (fun drafts => drafts.map (options.unlined type.scope)) := by
  rw [headerEntries, TypeSite.headerDrafts]
  cases type.headerReferences with
  | error error => rfl
  | ok header =>
      simp [bind, Except.bind, pure, Except.pure, Except.map, unlinedAll,
        ExtractOptions.unlined, Function.comp_def]

theorem foldl_addChild_unlined (options : ExtractOptions) (blocks : NestedEntries)
    (records : String → Option (List Record))
    (hblocks : ∀ name, blocks[name]?.map unlinedAll =
      (records name).map (fun found => found.map (Record.unlined options)))
    (children : List ChildType) (before : TypeEntries) :
    unlinedAll (children.foldl (TypeEntries.addChild blocks) before).entries =
      unlinedAll before.entries ++
        (children.flatMap (fun child => (records child.name).getD [])).map
          (Record.unlined options) := by
  induction children generalizing before with
  | nil => simp
  | cons child rest ih =>
      rw [List.foldl_cons, ih, List.flatMap_cons, List.map_append, ← List.append_assoc]
      congr 1
      have hchild := hblocks child.name
      rw [TypeEntries.addChild]
      cases hblock : blocks[child.name]? with
      | none =>
          rw [hblock] at hchild
          cases hrecords : records child.name <;> simp_all
      | some block =>
          rw [hblock] at hchild
          cases hrecords : records child.name <;> simp_all

@[simp] theorem TypeSite.decl_of (known : Universe) (decl : ClassDecl) :
    (TypeSite.of known decl).decl = decl := rfl

theorem unlined_recorded (options : ExtractOptions) (type : TypeSite) (drafts : List Draft) :
    (type.recorded drafts).map (Record.unlined options) =
      drafts.map (options.unlined type.scope) := by
  simp [TypeSite.recorded, Record.unlined, Function.comp_def]

mutual

/-- The entries of a type are its records, each on some line. -/
theorem TypeTree.entries_unlined (options : ExtractOptions) (known : Universe) :
    (tree : TypeTree) → (tree.entries options known).map unlinedAll =
      (tree.records known).map (fun found => found.map (Record.unlined options))
  | .node decl nested => by
      have hheader := headerEntries_unlined options (TypeSite.of known decl)
      simp only [TypeTree.entries, TypeTree.records]
      cases hheaderDrafts : (TypeSite.of known decl).headerDrafts with
      | error error =>
          rw [hheaderDrafts] at hheader
          rw [map_eq_error hheader]
          rfl
      | ok header =>
          rw [hheaderDrafts] at hheader
          obtain ⟨entries, hentries, hheader⟩ := map_eq_ok hheader
          have hinner := foldl_addChild_unlined options
            (nested.addEntries options known ∅) (nested.recordsOf known)
            (fun name => by
              have h := NestedTrees.addEntries_unlined options known nested ∅ name
              simpa using h)
            decl.children { entries := entries.toArray }
          have hfields := addFields_unlined options (TypeSite.of known decl)
            (decl.children.foldl (TypeEntries.addChild (nested.addEntries options known ∅))
              { entries := entries.toArray }).entries
          simp only [hentries, bind, Except.bind]
          cases hfieldsDrafts : (TypeSite.of known decl).fieldsDrafts with
          | error error =>
              rw [hfieldsDrafts] at hfields
              have herror := map_eq_error hfields
              rw [TypeSite.decl_of] at herror
              simp only [herror]
              rfl
          | ok fields =>
              rw [hfieldsDrafts] at hfields
              obtain ⟨declared, hdeclared, hview⟩ := map_eq_ok hfields
              have hmethods := addMethods_unlined options (TypeSite.of known decl)
                (decl.children.foldl
                  (TypeEntries.addChild (nested.addEntries options known ∅))
                  { entries := entries.toArray }).localTypes declared
              rw [TypeSite.decl_of] at hdeclared hmethods
              simp only [hdeclared, hmethods]
              cases (TypeSite.of known decl).methodsDrafts with
              | error error => rfl
              | ok methods =>
                  simp only [Except.map, pure, Except.pure, Except.ok.injEq]
                  rw [hview, hinner, hheader]
                  simp [unlined_recorded]

theorem NestedTrees.addEntries_unlined (options : ExtractOptions) (known : Universe) :
    (nested : NestedTrees) → (before : NestedEntries) → (name : String) →
      (nested.addEntries options known before)[name]?.map unlinedAll =
        ((nested.recordsOf known name).map (fun found =>
          found.map (Record.unlined options))).or (before[name]?.map unlinedAll)
  | .nil, before, name => by simp [NestedTrees.addEntries, NestedTrees.recordsOf]
  | .cons other tree rest, before, name => by
      have htree := TypeTree.entries_unlined options known tree
      cases hrecords : tree.records known with
      | error error =>
          rw [hrecords] at htree
          have hentries := map_eq_error htree
          simp only [NestedTrees.addEntries, NestedTrees.recordsOf, hentries, hrecords]
          rw [NestedTrees.addEntries_unlined options known rest before name]
          simp [Except.toOption]
      | ok found =>
          rw [hrecords] at htree
          obtain ⟨block, hentries, hblock⟩ := map_eq_ok htree
          simp only [NestedTrees.addEntries, NestedTrees.recordsOf, hentries, hrecords]
          rw [NestedTrees.addEntries_unlined options known rest _ name,
            Std.HashMap.getElem?_insert]
          by_cases hname : other = name
          · simp [hname, Except.toOption, hblock]
          · simp [hname]

end

end Linkage
