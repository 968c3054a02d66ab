import Linkage.Proofs.LinedTrees
import Linkage.Proofs.SignatureKinds
/-
Declarations of local variables in extraction.  When extraction comes to a method, whatever
local types have left are entries that there are already; so the walk that assigns the lines
of the body does not come to the references of its local variables.  A method therefore
records just what its declaring variables name, on the lines of the stores, and there it
stays.  Nothing else that a method records has the kind of a declared variable.
-/

namespace Linkage

/-! Kinds. -/

/-- The kinds of the references that local variables declare. -/
def variableKinds : List ReferenceKind := [.localVariableDeclaration, .parameterizedVariable]

/-- The kinds of the references that the handlers and instructions of a body make. -/
def bodyKinds : List ReferenceKind :=
  BodySite.useKinds ++ [.virtualCall, .interfaceCall, .staticCall, .specialCall, .constructorCall,
    .superConstructorCall, .instantiate, .catchException]

theorem kind_of_mem_variableReferences {glossary : Glossary} {source : MemberHandle}
    {entry : LocalVariable} {references : List Reference}
    (h : variableReferences glossary source entry = .ok references) {reference : Reference}
    (hmem : reference ∈ references) : reference.kind ∈ variableKinds := by
  rw [variableReferences] at h
  simp only [Table.get_eq] at h
  split at h
  · obtain ⟨types, htypes, rfl⟩ := bind_pure_eq_ok h
    obtain ⟨type, htype, rfl⟩ := List.mem_map.mp hmem
    exact List.mem_cons_of_mem _ (Signature.destructure_tagged (mapError_eq_ok htypes) type htype)
  · obtain ⟨type, -, rfl⟩ := bind_pure_eq_ok h
    obtain ⟨name, -, rfl⟩ := List.mem_map.mp hmem
    exact List.mem_cons_self

theorem kind_of_mem_declaredReferences {glossary : Glossary} {source : MemberHandle}
    {declaring : List (LocalVariable × Nat)} {named : List (List Reference)}
    (h : declaring.mapM (declaredReferences glossary source) = .ok named) :
    ∀ reference ∈ named.flatten, reference.kind ∈ variableKinds := by
  intro reference hmem
  obtain ⟨references, hreferences, hmem⟩ := List.mem_flatten.mp hmem
  obtain ⟨declared, -, hdeclared⟩ := (mem_of_mapM_eq_ok h).mp hreferences
  obtain ⟨unlined, hunlined, rfl⟩ := map_eq_ok hdeclared
  obtain ⟨other, hother, rfl⟩ := List.mem_map.mp hmem
  rw [Reference.kind_atLine]
  exact kind_of_mem_variableReferences hunlined hother

theorem kind_of_mem_localReferences {glossary : Glossary} {source : MemberHandle}
    {firstLocal : Nat} {entries : List LocalVariable} {markers : PlacedMarkers}
    {references : Array Reference}
    (h : localReferences glossary source firstLocal entries markers = .ok references) :
    ∀ reference ∈ references.toList, reference.kind ∈ variableKinds := by
  have heq := localReferences_eq glossary source firstLocal entries markers
  rw [h] at heq
  obtain ⟨named, hnamed, hflatten⟩ := map_eq_ok heq.symm
  rw [← hflatten]
  exact kind_of_mem_declaredReferences hnamed

/-- The declaration of a method makes no reference of the kind of a declared variable. -/
theorem kind_of_mem_methodReferences {type : TypeSite} {method : MethodDecl} {types : MethodTypes}
    {references : List Reference} (h : type.methodReferences method types = .ok references) :
    ∀ reference ∈ references, reference.kind ∉ variableKinds := by
  have hnamed : ∀ kind ∈ [ReferenceKind.parameter, .returnType, .throws, .annotationUse],
      kind ∉ variableKinds := by decide
  have hsigned : ∀ kind ∈ SignatureOwner.method.kinds, kind ∉ variableKinds := by decide
  exact TypeSite.forall_methodReferences
    (fun _ _ => (by decide : ReferenceKind.override ∉ variableKinds))
    (fun _ _ hread item hitem =>
      hsigned item.kind (Signature.destructure_tagged (mapError_eq_ok hread) item hitem))
    (fun _ kind hkind => hnamed kind hkind) h

namespace BodySite

theorem InstructionMakes.kind_mem {site : BodySite} {state : CallState}
    {instruction : Instruction} {draft : Draft}
    (h : InstructionMakes site state instruction draft) : draft.reference.kind ∈ bodyKinds := by
  by_cases hkind : draft.reference.kind ∈ useKinds
  · exact List.mem_append_left _ hkind
  · obtain ⟨call, -, hmakes⟩ := h.exists_call hkind
    cases hmakes <;> exact of_decide_eq_true rfl

/-- The kinds of what the handlers and instructions of a body refer to. -/
theorem kind_of_mem_placedDrafts {site : BodySite} {code : Code} {draft : Draft}
    (h : draft ∈ (site.placedDrafts code).map Prod.fst) : draft.reference.kind ∈ bodyKinds := by
  rw [placedDrafts_drafts, List.mem_append] at h
  rcases h with hcatch | hinstruction
  · obtain ⟨name, -, rfl⟩ := List.mem_map.mp hcatch
    exact (by decide : ReferenceKind.catchException ∈ bodyKinds)
  · obtain ⟨_, _, _, -, hdraft⟩ := mem_instructionDrafts.mp hinstruction
    exact (instructionMakes_of_mem hdraft).kind_mem

end BodySite

/-! The methods that extraction comes to. -/

variable {options : ExtractOptions} {known : Universe}

/-- Extraction of a type comes to a method, after those before it. -/
structure TypeTree.ComesTo (options : ExtractOptions) (known : Universe) (decl : ClassDecl)
    (nested : NestedTrees) (earlier : List MethodDecl) (method : MethodDecl)
    (before : TypeEntries) : Prop where
  exists_start : ∃ start, beforeMethods options known decl nested = .ok start ∧
    before.localTypes = start.localTypes ∧
    addMethods options (TypeSite.of known decl) start.localTypes earlier start.entries =
      .ok before.entries
  exists_later : ∃ later, decl.methods = earlier ++ method :: later

section ComesTo
variable {decl : ClassDecl} {nested : NestedTrees} {earlier : List MethodDecl}
  {method : MethodDecl} {before : TypeEntries}

/-- What local types leave are entries that there are when extraction comes to a method. -/
theorem TypeTree.ComesTo.localsBelow
    (h : ComesTo options known decl nested earlier method before) : before.LocalsBelow := by
  obtain ⟨start, hstart, hlocal, hearlier⟩ := h.exists_start
  obtain ⟨header, fields, -, -, rfl⟩ := exists_of_beforeMethods hstart
  have hinner : (TypeEntries.mk header.toArray ∅).LocalsBelow := by
    intro name index hindex
    simp at hindex
  intro name index hindex
  rw [hlocal] at hindex
  have hbelow := hinner.foldl_addChild (nested.addEntries options known ∅) decl.children name
    index hindex
  have hsize := (addMethods_extends hearlier).length_le
  simp only [unlinedAll, List.length_map, Array.length_toList, Array.size_append] at hsize
  omega

/-- Where extraction of a type does not fail it comes to every method, and does not fail there. -/
theorem TypeTree.exists_comesTo {later : List MethodDecl}
    (hmethods : decl.methods = earlier ++ method :: later) {entries : Array Entry}
    (h : (TypeTree.node decl nested).entries options known = .ok entries) :
    ∃ before after, ComesTo options known decl nested earlier method before ∧
      addMethod options (TypeSite.of known decl) before.localTypes before.entries method =
        .ok after ∧
      addMethods options (TypeSite.of known decl) before.localTypes later after = .ok entries := by
  rw [entries_node] at h
  obtain ⟨start, hstart, h⟩ := bind_eq_ok h
  rw [hmethods, addMethods, List.foldlM_append] at h
  obtain ⟨before, hearlier, h⟩ := bind_eq_ok h
  rw [List.foldlM_cons] at h
  obtain ⟨after, hmethod, hlater⟩ := bind_eq_ok h
  exact ⟨⟨before, start.localTypes⟩, after, ⟨⟨start, hstart, rfl, hearlier⟩, ⟨later, hmethods⟩⟩,
    mapError_eq_ok hmethod, hlater⟩

end ComesTo

/-! A pass over a method. -/

/-- What a pass over a method records, in a type with some entries before it: what its
declaration names, what its handlers and instructions use, and last what its declaring
variables name, on the lines of the stores. -/
structure MethodPass (options : ExtractOptions) (type : TypeSite) (method : MethodDecl)
    (code : Code) (before : Array Entry) where
  types : MethodTypes
  types_eq : readMethodTypes method.descriptor = .ok types
  declared : List Reference
  declared_eq : type.methodReferences method types = .ok declared
  declaring : List (LocalVariable × Nat)
  declares : code.Declares (firstLocalSlot method types) declaring
  named : List (List Reference)
  named_eq : declaring.mapM (declaredReferences type.glossary (type.methodHandle method)) =
    .ok named
  named_kinds : ∀ reference ∈ named.flatten, reference.kind ∈ variableKinds
  others : List Draft
  others_eq : others = declared.map Draft.ofReference ++
    ((BodySite.of type method).placedDrafts code).map Prod.fst
  others_kinds : ∀ draft ∈ others, draft.reference.kind ∉ variableKinds
  front : Array Entry
  front_eq : unlinedAll front = unlinedAll before ++ others.map (options.unlined type.scope)

/-- The entries of declared variables. -/
def MethodPass.variableEntries {type : TypeSite} {method : MethodDecl} {code : Code}
    {before : Array Entry} (pass : MethodPass options type method code before) : Array Entry :=
  (pass.named.flatten.map (fun reference =>
    options.record type.scope (.ofReference reference))).toArray

/-- The entries after a pass. -/
def MethodPass.after {type : TypeSite} {method : MethodDecl} {code : Code}
    {before : Array Entry} (pass : MethodPass options type method code before) : Array Entry :=
  pass.front ++ pass.variableEntries

/-- The lines of the references of local variables are not assigned by the walk through the
body. -/
theorem addBody_eq_append (options : ExtractOptions) (site : BodySite) {localTypes : LocalTypes}
    {entries : Array Entry}
    (hlocal : ∀ name, ∀ index ∈ localTypes.getD name [], index < entries.size) (code : Code)
    (firstLocal : Nat) :
    ∃ front, unlinedAll front = unlinedAll entries ++
        ((site.placedDrafts code).map Prod.fst).map (options.unlined site.type.scope) ∧
      addBody options site localTypes firstLocal code entries =
        (localReferences site.type.glossary site.source firstLocal code.locals
          (placeMarkers (.ofEntries code.lines) code.timeline)).map (fun found =>
            front ++ found.map (fun reference =>
              options.record site.type.scope (.ofReference reference))) := by
  -- The walk comes to entries from before the body and to its own drafts only.
  have hwithin := @BodyWalk.through_within options site _ _ hlocal code
  let walk := BodyWalk.through options site localTypes code code.timeline entries
  refine ⟨assignLines code.lines walk.catches walk.positions walk.entries, ?_, ?_⟩
  · rw [unlinedAll_assignLines, BodyWalk.through_entries, unlinedAll_append,
      unlinedAll_draftEntries, site.placedDrafts_drafts]
  · rw [addBody]
    cases localReferences site.type.glossary site.source firstLocal code.locals
        (placeMarkers (.ofEntries code.lines) code.timeline) with
    | error error => rfl
    | ok found =>
        exact congrArg Except.ok (assignLines_append hwithin.catches hwithin.positions _)

/-- A body records what its declaring variables name after everything else. -/
theorem addBody_declares {site : BodySite} {localTypes : LocalTypes} {entries next : Array Entry}
    (hlocal : ∀ name, ∀ index ∈ localTypes.getD name [], index < entries.size) {code : Code}
    (hascends : code.OffsetsAscend) {firstLocal : Nat}
    (h : addBody options site localTypes firstLocal code entries = .ok next) :
    ∃ declaring named front, code.Declares firstLocal declaring ∧
      declaring.mapM (declaredReferences site.type.glossary site.source) = .ok named ∧
      unlinedAll front = unlinedAll entries ++
        ((site.placedDrafts code).map Prod.fst).map (options.unlined site.type.scope) ∧
      next = front ++ (named.flatten.map (fun reference =>
        options.record site.type.scope (.ofReference reference))).toArray := by
  obtain ⟨front, hfront, heq⟩ := addBody_eq_append options site hlocal code firstLocal
  rw [h] at heq
  obtain ⟨found, hfound, rfl⟩ := map_eq_ok heq.symm
  have hreferences := localReferences_eq site.type.glossary site.source firstLocal code.locals
    (placeMarkers (.ofEntries code.lines) code.timeline)
  rw [hfound] at hreferences
  obtain ⟨named, hnamed, hflatten⟩ := map_eq_ok hreferences.symm
  refine ⟨_, named, front, Code.declares_declaringVariables hascends firstLocal, hnamed, hfront, ?_⟩
  rw [hflatten]
  exact congrArg (front ++ ·) (Array.ext' (by simp))

theorem addMethod_declares {type : TypeSite} {before : TypeEntries} (hbelow : before.LocalsBelow)
    {method : MethodDecl} {code : Code} (hbody : method.body? = some code)
    (hascends : code.OffsetsAscend) {after : Array Entry}
    (h : addMethod options type before.localTypes before.entries method = .ok after) :
    ∃ pass : MethodPass options type method code before.entries, pass.after = after := by
  obtain ⟨types, htypes, hrest⟩ := bind_eq_ok h
  obtain ⟨declared, hdeclared, -⟩ := bind_eq_ok hrest
  rw [addMethod_eq options _ _ htypes hdeclared] at h
  simp only [hbody] at h
  obtain ⟨declaring, named, front, hdeclares, hnamed, hfront, rfl⟩ :=
    addBody_declares (fun name index hindex => by
      have hlt := hbelow name index hindex
      rw [append_toArray, Array.size_append]
      omega) hascends h
  rw [Table.get_eq] at htypes
  refine ⟨{ types, types_eq := htypes
            declared, declared_eq := hdeclared
            declaring, declares := hdeclares
            named, named_eq := hnamed
            named_kinds := kind_of_mem_declaredReferences hnamed
            others := _, others_eq := rfl
            others_kinds := fun draft hmem => ?_
            front, front_eq := ?_ }, rfl⟩
  · rcases List.mem_append.mp hmem with hmem | hmem
    · obtain ⟨reference, hreference, rfl⟩ := List.mem_map.mp hmem
      exact kind_of_mem_methodReferences hdeclared reference hreference
    · have hapart : ∀ kind ∈ bodyKinds, kind ∉ variableKinds := by decide
      exact hapart _ (BodySite.kind_of_mem_placedDrafts hmem)
  · rw [hfront]
    simp [unlinedAll, ExtractOptions.unlined, BodySite.of]

/-- The references of declared variables are delivered, once for each line, unless the options
leave them out. -/
def MethodPass.DeliveredIn {type : TypeSite} {method : MethodDecl} {code : Code}
    {before : Array Entry} (pass : MethodPass options type method code before)
    (references : List Reference) : Prop :=
  ∀ reference ∈ pass.named.flatten, options.considers type.scope reference = true →
    reference.line ≠ -1 → ∃ other ∈ references, other.repeatKey = reference.repeatKey

theorem mem_foldAccessors_of_plain {entries : List Entry} {entry : Entry} (hmem : entry ∈ entries)
    (hplain : entry.trail = .plain) : entry ∈ foldAccessors options entries := by
  rw [foldAccessors_eq, List.mem_append, List.mem_map]
  refine .inl ⟨entry, hmem, ?_⟩
  simp [AccessorTable.folds, hplain]

theorem MethodPass.deliveredIn {type : TypeSite} {method : MethodDecl} {code : Code}
    {before : Array Entry} (pass : MethodPass options type method code before) {start : Nat}
    {entries : Array Entry} (h : SettledAt pass.after start entries) :
    pass.DeliveredIn (delivered (foldAccessors options entries.toList)) := by
  intro reference hmem hconsiders hline
  have hafter : options.record type.scope (.ofReference reference) ∈ pass.after := by
    rw [after, Array.mem_append, variableEntries]
    exact .inr (List.mem_toArray.mpr (List.mem_map_of_mem hmem))
  obtain ⟨index, hindex⟩ := Array.mem_iff_getElem?.mp hafter
  obtain ⟨final, hfinal, -, hkept⟩ := h index _ hindex
  rw [hkept hline] at hfinal
  exact exists_delivered_of_mem
    (mem_foldAccessors_of_plain (Array.mem_toList_iff.mpr (Array.mem_of_getElem? hfinal)) rfl)
    hconsiders

/-! A class with one variable, which a store introduces. -/

def storedVariable (descriptor : String) (signature : Option String) : LocalVariable :=
  ⟨1, 1, 0, "x", descriptor, signature⟩

def storingCode (descriptor : String) (signature : Option String) : Code where
  length := 2
  instructions := [⟨0, Opcode.astore0, .store 0⟩, ⟨1, 0xb1, .other⟩]
  lines := [⟨0, 10⟩]
  locals := [storedVariable descriptor signature]

def storingMethod (descriptor : String) (signature : Option String) : MethodDecl where
  name := "m"
  descriptor := "()V"
  access := { isStatic := true }
  code := some (storingCode descriptor signature)

def storingClass (descriptor : String) (signature : Option String) : ClassDecl where
  name := "a/A"
  methods := [storingMethod descriptor signature]

section Storing
variable (descriptor : String) (signature : Option String)

theorem labels_storingCode : (storingCode descriptor signature).labels = [0, 1, 2] := rfl

theorem offsetsAscend_storingCode : (storingCode descriptor signature).OffsetsAscend := by
  simp [Code.OffsetsAscend, storingCode]

theorem introduces_storingCode : (storingCode descriptor signature).Introduces 1 0 10 := by
  refine ⟨0, ⟨?_, Nat.zero_lt_one, fun label _ hlabel => by omega⟩,
    lineHolding?_eq_some_iff.mp rfl, rfl⟩
  rw [labels_storingCode]
  exact List.mem_cons_self

theorem localReferences_storingCode (glossary : Glossary) (source : MemberHandle)
    (hdescriptor : descriptor.utf8ByteSize ≠ 1) {named : List Reference}
    (hnamed : variableReferences glossary source (storedVariable descriptor signature) =
      .ok named) :
    localReferences glossary source 0 [storedVariable descriptor signature]
        (placeMarkers (.ofEntries (storingCode descriptor signature).lines)
          (storingCode descriptor signature).timeline) =
      .ok (named.map (fun reference => reference.atLine 10)).toArray := by
  have hmarker := (Code.placeMarkers_eq_some_iff (offsetsAscend_storingCode descriptor signature)
    (by rw [labels_storingCode]; simp) ⟨0, 10⟩).mpr (introduces_storingCode descriptor signature)
  have hmay : mayDeclareType 0 (storedVariable descriptor signature) = true := by
    simp [mayDeclareType, storedVariable, hdescriptor]
  have hstart : (storedVariable descriptor signature).startPc = 1 := rfl
  have hindex : (storedVariable descriptor signature).index = 0 := rfl
  have hline : lineNumber 10 = 10 := by decide
  generalize placeMarkers _ _ = markers at hmarker ⊢
  rw [localReferences, List.foldlM_cons, DeclaredLocals.declare, if_pos hmay]
  simp only [hstart, hmarker, hindex, if_true, hnamed, hline, bind, Except.bind, pure,
    Except.pure, List.foldlM_nil]
  exact congrArg Except.ok (Array.ext' (by simp))

/-- The method records the references of its variable. -/
theorem addMethod_storingMethod (options : ExtractOptions) (type : TypeSite)
    (hdescriptor : descriptor.utf8ByteSize ≠ 1) {named : List Reference}
    (hnamed : variableReferences type.glossary
      (type.methodHandle (storingMethod descriptor signature))
      (storedVariable descriptor signature) = .ok named) :
    addMethod options type ∅ #[] (storingMethod descriptor signature) =
      .ok (named.map (fun reference =>
        options.record type.scope (.ofReference (reference.atLine 10)))).toArray := by
  have hdeclared : type.methodReferences (storingMethod descriptor signature) ⟨[], none, 0⟩ =
      .ok [] := by
    simp [TypeSite.methodReferences, TypeSite.methodHeaderReferences,
      TypeSite.overrideReferences, TypeSite.methodTypeReferences, TypeSite.exceptionReferences,
      Glossary.typeReferences, storingMethod, bind, Except.bind, pure, Except.pure]
  have htypes : type.glossary.methodTypes.get (storingMethod descriptor signature).descriptor =
      .ok ⟨[], none, 0⟩ := by
    rw [Table.get_eq]
    exact readMethodTypes_noArguments
  have hnone : ∀ name, ∀ index ∈ (∅ : LocalTypes).getD name [],
      index < (#[] : Array Entry).size := by simp
  obtain ⟨front, hfront, heq⟩ := addBody_eq_append options
    (.of type (storingMethod descriptor signature)) hnone (storingCode descriptor signature) 0
  have hdrafts : (BodySite.of type (storingMethod descriptor signature)).placedDrafts
    (storingCode descriptor signature) = [] := rfl
  obtain rfl : front = #[] := by
    rw [hdrafts] at hfront
    simpa [unlinedAll] using hfront
  have hbody : (storingMethod descriptor signature).body? =
    some (storingCode descriptor signature) := rfl
  have hslot : firstLocalSlot (storingMethod descriptor signature) ⟨[], none, 0⟩ = 0 := rfl
  rw [addMethod_eq options ∅ #[] htypes hdeclared]
  simp only [hbody, hslot, List.map_nil, Array.appendList_nil]
  refine (heq.trans (congrArg (Except.map _) (localReferences_storingCode descriptor signature
    type.glossary _ hdescriptor hnamed))).trans ?_
  exact congrArg Except.ok (Array.ext' (by simp [BodySite.of]))

/-- The class delivers the references of its variable, on the line of the store. -/
theorem extract_storingClass (options : ExtractOptions) (known : Universe)
    (hdescriptor : descriptor.utf8ByteSize ≠ 1) (named : List Reference)
    (hnamed : ∀ glossary, variableReferences glossary (.method (qualifiedName "a/A") "m" "()V")
      (storedVariable descriptor signature) = .ok named) :
    extract options known (storingClass descriptor signature) =
      .ok ((distinctBy Reference.repeatKey ((named.map (fun reference =>
        reference.atLine 10)).filter (options.considers { name := qualifiedName "a/A" })))) := by
  have hmethod := addMethod_storingMethod descriptor signature options
    (TypeSite.of known (storingClass descriptor signature)) hdescriptor (hnamed _)
  have hheader : headerEntries options (TypeSite.of known (storingClass descriptor signature)) =
      .ok [] := by
    simp [headerEntries, TypeSite.headerReferences, TypeSite.annotationReferences,
      TypeSite.decl_of, storingClass, Glossary.typeReferences, bind, Except.bind, pure, Except.pure]
  have hchildren := (storingClass descriptor signature).children_eq_nil rfl
  have hmethods : (storingClass descriptor signature).methods =
    [storingMethod descriptor signature] := rfl
  have hfields : (storingClass descriptor signature).fields = [] := rfl
  rw [extract, TypeTree.of_childless known hchildren]
  simp only [TypeTree.entries, hheader, hchildren, hfields, hmethods, addMethods, List.foldl_nil,
    List.foldlM_cons, List.foldlM_nil, hmethod, bind, Except.bind, pure, Except.pure, mapError_ok]
  rw [← delivered_ofReferences, List.map_map, List.map_map]
  rfl

end Storing

/-! Extraction. -/

theorem extract_declares_locals (options : ExtractOptions) (known : Universe) (root : ClassDecl)
    (references : List Reference) (h : extract options known root = .ok references) :
    ∃ entries, (TypeTree.of known root).entries options known = .ok entries ∧
      references = delivered (foldAccessors options entries.toList) ∧
      ∀ start decl nested,
        (TypeTree.of known root).VisitsAt options known start (.node decl nested) →
          ∀ earlier method later, decl.methods = earlier ++ method :: later →
            ∀ code, method.body? = some code → code.OffsetsAscend →
              ∃ before, TypeTree.ComesTo options known decl nested earlier method before ∧
                ∃ pass : MethodPass options (TypeSite.of known decl) method code before.entries,
                  SettledAt pass.after start entries ∧ pass.DeliveredIn references := by
  obtain ⟨entries, hentries, rfl⟩ := bind_pure_eq_ok h
  refine ⟨entries, hentries, rfl, fun start decl nested hvisits earlier method later hmethods code
    hbody hascends => ?_⟩
  obtain ⟨block, hblock, hsettled⟩ := hvisits.settledAt hentries
  obtain ⟨before, after, hcomes, hmethod, hlater⟩ := TypeTree.exists_comesTo hmethods hblock
  obtain ⟨pass, rfl⟩ := addMethod_declares hcomes.localsBelow hbody hascends hmethod
  -- Neither later methods nor the types around this one move what is settled.
  have hpass : SettledAt pass.after start entries := (settledAt_addMethods hlater).trans hsettled
  exact ⟨before, hcomes, pass, hpass, pass.deliveredIn hpass⟩

theorem extract_declares_locals_storingClass :
    ∃ references entries,
      extract ⟨true, .all⟩ (.ofList []) (storingClass "Lb/B;" none) = .ok references ∧
      references = delivered (foldAccessors ⟨true, .all⟩ entries.toList) ∧
      ∃ before, TypeTree.ComesTo ⟨true, .all⟩ (.ofList []) (storingClass "Lb/B;" none) .nil []
          (storingMethod "Lb/B;" none) before ∧
        ∃ pass : MethodPass ⟨true, .all⟩ (TypeSite.of (.ofList []) (storingClass "Lb/B;" none))
            (storingMethod "Lb/B;" none) (storingCode "Lb/B;" none) before.entries,
          (storedVariable "Lb/B;" none, 10) ∈ pass.declaring ∧
            SettledAt pass.after 0 entries ∧ pass.DeliveredIn references := by
  have hreferences := extract_storingClass "Lb/B;" none ⟨true, .all⟩ (.ofList []) (by decide)
    [Reference.ofType (.method (qualifiedName "a/A") "m" "()V") "b.B"
      .localVariableDeclaration] (fun glossary => by
        have htype : readFieldType "Lb/B;" = .ok (some "b.B") := by cbv
        simp [variableReferences, storedVariable, Table.get_eq, htype, bind, Except.bind, pure,
          Except.pure])
  obtain ⟨entries, -, hdelivered, hpasses⟩ := extract_declares_locals _ _ _ _ hreferences
  rw [TypeTree.of_childless _ (ClassDecl.children_eq_nil _ rfl)] at hpasses
  obtain ⟨before, hcomes, pass, hsettled, hin⟩ := hpasses 0 _ _ (.self _) [] _ [] rfl _ rfl
    (offsetsAscend_storingCode _ _)
  refine ⟨_, entries, hreferences, hdelivered, before, hcomes, pass, ?_, hsettled, hin⟩
  have htypes : MethodTypes.mk [] none 0 = pass.types :=
    Except.ok.inj (readMethodTypes_noArguments.symm.trans pass.types_eq)
  refine (pass.declares.mem_iff _ _).mpr ⟨?_, introduces_storingCode _ _⟩
  rw [← htypes]
  rfl

/-- The descriptor of the variable is not longer than one character; but its signature is
recorded. -/
theorem extract_storingClass_shortDescriptor :
    ¬ 1 < (storedVariable "" (some "Lb/B;")).descriptor.length ∧
      (storingCode "" (some "Lb/B;")).OffsetsAscend ∧
      extract ⟨true, .all⟩ (.ofList []) (storingClass "" (some "Lb/B;")) =
        .ok [(Reference.ofSignature (.method (qualifiedName "a/A") "m" "()V") "b.B" "Lb/B;"
          .parameterizedVariable).atLine 10] := by
  refine ⟨by decide, offsetsAscend_storingCode _ _, ?_⟩
  rw [extract_storingClass "" (some "Lb/B;") ⟨true, .all⟩ (.ofList []) (by decide)
    [Reference.ofSignature (.method (qualifiedName "a/A") "m" "()V") "b.B" "Lb/B;"
      .parameterizedVariable] (fun glossary => by
        have hsignature : readSignature .localVariable "Lb/B;" =
          .ok [⟨"b.B", .parameterizedVariable⟩] := by cbv
        simp [variableReferences, storedVariable, Table.get_eq, hsignature, signatureReferences,
          bind, Except.bind, pure, Except.pure])]
  rw [distinctBy_eq_distinctAfter]
  rfl

end Linkage
