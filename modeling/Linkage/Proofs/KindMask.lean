import Linkage.Proofs.MaskedDelivery
import Linkage.Proofs.Origins
/-
A mask of kinds and full extraction.  Whatever the mask, it delivers the
dependencies of full extraction that it asks for, in their order; lines may differ.
Under a quiet mask the lines are the same too, so that the mask only filters.
-/

namespace Linkage

theorem DraftOrigin.kind_of_syntheticAccess {decl : ClassDecl} {draft : Draft}
    (h : DraftOrigin decl draft) (htrail : draft.trail = .syntheticAccess) :
    draft.reference.kind ∈ foldedKinds := by
  cases h with
  | instruction _ _ hbody =>
      rw [hbody] at htrail
      have htarget := (bodyTrail_eq_syntheticAccess_iff.mp htrail).2
      revert htarget
      cases draft.reference.kind <;> simp [ReferenceKind.target, foldedKinds]
  | syntheticField _ hdraft =>
      rw [hdraft]
      exact (by decide : ReferenceKind.fieldDeclaration ∈ foldedKinds)
  | other hplain _ => simp [hplain] at htrail

theorem TypeTree.accessesFolded {options : ExtractOptions} {known : Universe}
    {tree : TypeTree} {entries : Array Entry} (h : tree.entries options known = .ok entries) :
    AccessesFolded entries.toList := by
  intro entry hentry htrail
  have hview := TypeTree.entries_unlined options known tree
  rw [h] at hview
  obtain ⟨found, hfound, hunlined⟩ := map_eq_ok hview.symm
  have hmem : entry.unlined ∈ unlinedAll entries := List.mem_map_of_mem hentry
  rw [← hunlined] at hmem
  obtain ⟨record, hrecord, heq⟩ := List.mem_map.mp hmem
  obtain ⟨decl, horigin⟩ := TypeTree.records_origin known tree found hfound record hrecord
  have hdraftTrail := congrArg Entry.trail heq
  have hkind := congrArg (fun other => other.reference.kind) heq
  change record.draft.trail = entry.trail at hdraftTrail
  change record.draft.reference.kind = entry.reference.kind at hkind
  rw [← hkind]
  exact horigin.kind_of_syntheticAccess (hdraftTrail.trans htrail)

/-! A class that creates an anonymous one and then calls a method. -/

def anonymousClass : ClassDecl where
  name := "a/A$1"
  superName := some "java/lang/Object"

/-- The creating method; the creations are at the offsets before the call. -/
def creator (offsets : List Nat) : MethodDecl where
  name := "m"
  descriptor := "()V"
  access := { isStatic := true }
  code := some {
    length := 20
    instructions := offsets.map (fun offset => ⟨offset, Opcode.new, .onType "a/A$1"⟩)
      ++ [⟨13, Opcode.invokeStatic, .invoke ⟨"b/B", "m", "()V", .static⟩⟩]
    lines := [⟨0, 10⟩, ⟨10, 20⟩] }

def creatorClass (offsets : List Nat) : ClassDecl where
  name := "a/A"
  methods := [creator offsets]
  nestedTypes := [⟨"a/A$1", none, .anonymous⟩]

def anonymousUniverse : Universe := .ofList [anonymousClass]

/-- A class that lists one anonymous class. -/
theorem children_of_anonymous {decl : ClassDecl} (hname : decl.name = "a/A")
    (hnested : decl.nestedTypes = [⟨"a/A$1", none, .anonymous⟩]) :
    decl.children = [⟨qualifiedName "a/A$1", .anonymous⟩] := by
  have hdirect : isDirectChild decl ⟨"a/A$1", none, .anonymous⟩ = true := by
    rw [isDirectChild, hname]
    exact (by decide : isDirectChild { name := "a/A" } ⟨"a/A$1", none, .anonymous⟩ = true)
  exact decl.children_eq_singleton hnested hdirect

/-- Its tree, where the anonymous class is all that is known. -/
theorem typeTree_of_anonymous {decl inner : ClassDecl} (hname : decl.name = "a/A")
    (hnested : decl.nestedTypes = [⟨"a/A$1", none, .anonymous⟩]) (hinner : inner.name = "a/A$1")
    (hnone : inner.nestedTypes = []) :
    TypeTree.of (.ofList [inner]) decl =
      .node decl (.cons (qualifiedName "a/A$1") (.node inner .nil) .nil) := by
  have hfound : (Universe.ofList [inner]).find? (qualifiedName "a/A$1") = some (.of inner) := by
    simp [Universe.ofList, Universe.extend, Universe.insert, Universe.find?,
      ClassDecl.qualifiedName, hinner]
  exact TypeTree.of_onlyChild (children_of_anonymous hname hnested) hfound
    (inner.children_eq_nil hnone)

def anonymousTrees : NestedTrees :=
  .cons (qualifiedName "a/A$1") (.node anonymousClass .nil) .nil

theorem children_creatorClass (offsets : List Nat) :
    (creatorClass offsets).children = [⟨qualifiedName "a/A$1", .anonymous⟩] :=
  children_of_anonymous rfl rfl

theorem typeTree_creatorClass (offsets : List Nat) :
    TypeTree.of anonymousUniverse (creatorClass offsets) =
      .node (creatorClass offsets) anonymousTrees :=
  typeTree_of_anonymous rfl rfl rfl rfl

/-- The one draft of the anonymous class. -/
def anonymousDraft : Draft :=
  .ofReference (Reference.ofType (.type anonymousClass.qualifiedName)
    (qualifiedName "java/lang/Object") .extendsType)

def anonymousEntry (options : ExtractOptions) : Entry :=
  options.record { name := anonymousClass.qualifiedName } anonymousDraft

theorem entries_anonymousClass (options : ExtractOptions) (known : Universe) :
    (TypeTree.node anonymousClass .nil).entries options known =
      .ok #[anonymousEntry options] := by
  simp only [TypeTree.entries, anonymousClass.children_eq_nil rfl]
  simp only [headerEntries, TypeSite.headerReferences, TypeSite.annotationReferences,
    TypeSite.decl_of, anonymousClass]
  simp [Glossary.typeReferences, bind, Except.bind, pure, Except.pure, addMethods]
  rfl

theorem blocks_anonymousTrees (options : ExtractOptions) (known : Universe) :
    (anonymousTrees.addEntries options known ∅)[qualifiedName "a/A$1"]? =
      some #[anonymousEntry options] := by
  simp only [anonymousTrees, NestedTrees.addEntries, entries_anonymousClass]
  simp

/-- A mask for static calls is quiet if the anonymous class is created once. -/
theorem quiet_creatorClass (includeLocal : Bool) (offset : Nat) :
    (TypeTree.of anonymousUniverse (creatorClass [offset])).Quiet includeLocal
      (.single .staticCall) anonymousUniverse := by
  rw [typeTree_creatorClass, TypeTree.Quiet]
  constructor
  · simp only [anonymousTrees, NestedTrees.Quiet, TypeTree.Quiet,
      anonymousClass.children_eq_nil rfl]
    simp
  · intro child hchild _ block hblock
    rw [children_creatorClass, List.mem_singleton] at hchild
    rw [hchild, blocks_anonymousTrees, Option.some.injEq] at hblock
    intro entry hentry _
    rw [← hblock, List.mem_singleton] at hentry
    rw [hentry, hchild]
    refine ⟨rfl, ?_, fun hcall => by cases hcall⟩
    have hlength : (creatorClass [offset]).creations.length = 1 := rfl
    rw [← hlength]
    exact List.count_le_length

/-! The class that creates twice, on two lines. -/

def callDraft : Draft where
  reference := Reference.ofMethod ((creatorClass [0, 10]).methodHandle (creator [0, 10]))
    (qualifiedName "b/B") "m" "()V" .staticCall 0
  trail := .staticCall

def callEntry (options : ExtractOptions) (known : Universe) : Entry :=
  options.record (TypeSite.of known (creatorClass [0, 10])).scope callDraft

/-- The positions of the creating method; the entries to be met again are at each creation. -/
def creatorPositions (indices : List Nat) (call : Nat) : List Position :=
  .label 0 :: indices.map .entry ++ .label 10 :: indices.map .entry ++ [.entry call]

theorem addMethod_creator (options : ExtractOptions) (known : Universe)
    (localTypes : LocalTypes) (entries : Array Entry) {indices : List Nat}
    (hindices : localTypes.getD (qualifiedName "a/A$1") [] = indices) :
    addMethod options (.of known (creatorClass [0, 10])) localTypes entries (creator [0, 10]) =
      .ok (assignLines [⟨0, 10⟩, ⟨10, 20⟩] #[] (creatorPositions indices entries.size).toArray
        (entries.push (callEntry options known))) := by
  let type := TypeSite.of known (creatorClass [0, 10])
  let site := BodySite.of type (creator [0, 10])
  let create : Nat → Instruction := fun offset => ⟨offset, Opcode.new, .onType "a/A$1"⟩
  let call : Instruction := ⟨13, Opcode.invokeStatic, .invoke ⟨"b/B", "m", "()V", .static⟩⟩
  let code : Code := {
    length := 20
    instructions := [create 0, create 10, call]
    lines := [⟨0, 10⟩, ⟨10, 20⟩] }
  have hbody : (creator [0, 10]).body? = some code := rfl
  have hlabels : code.labels = [0, 10] := rfl
  have htimeline : code.timeline =
      #[.label 0, .run (create 0), .label 10, .run (create 10), .run call] := by
    rw [Code.timeline, hlabels]
    simp [mergeLabels, code, create, call]
  have hdeclared : type.methodReferences (creator [0, 10]) ⟨[], none, 0⟩ = .ok [] := by
    simp [TypeSite.methodReferences, TypeSite.methodHeaderReferences,
      TypeSite.overrideReferences, TypeSite.methodTypeReferences, TypeSite.exceptionReferences,
      Glossary.typeReferences, creator, bind, Except.bind, pure, Except.pure]
  have hcreate : ∀ (state : CallState) (offset : Nat), site.drafts state (create offset) = [] :=
    fun _ _ => rfl
  have hafter : ∀ (state : CallState) (offset : Nat), site.after state (create offset) = state :=
    fun _ _ => rfl
  have hcall : site.drafts {} call = [callDraft] := by
    simp [BodySite.drafts, BodySite.callDrafts, BodySite.forNameReferences,
      BodySite.callReference, callDraft, call, site, type]
  have hmet : ∀ offset : Nat, replayed site localTypes (create offset) = indices := by
    intro offset
    simp [replayed_eq, Instruction.created?, hindices, create]
  have hother : replayed site localTypes call = [] := rfl
  have hwalk : BodyWalk.through options site localTypes code code.timeline entries =
      { entries := entries.push (callEntry options known)
        positions := (creatorPositions indices entries.size).toArray
        state := site.after {} call } := by
    have hstart : code.handlers.foldl (BodyWalk.recordCatch options site)
        { entries := entries } = { entries := entries } := rfl
    rw [BodyWalk.through, htimeline, hstart, List.foldl_toArray]
    simp only [List.foldl_cons, List.foldl_nil, BodyWalk.meet, hcreate, hafter, hcall, hmet,
      hother, BodyWalk.record, creatorPositions]
    simp
    rfl
  rw [addMethod_eq options localTypes entries
    (by rw [Table.get_eq]; exact readMethodTypes_noArguments) hdeclared]
  have hlocals : ∀ markers, localReferences site.type.glossary site.source
      (firstLocalSlot (creator [0, 10]) ⟨[], none, 0⟩) code.locals markers = .ok #[] :=
    fun _ => rfl
  simp only [hbody, List.map_nil, Array.appendList_nil]
  rw [addBody, hlocals]
  simp only [bind, Except.bind, pure, Except.pure]
  rw [hwalk]
  simp [code]

theorem entries_creatorClass (options : ExtractOptions) (known : Universe) :
    (TypeTree.node (creatorClass [0, 10]) anonymousTrees).entries options known =
      .ok (assignLines [⟨0, 10⟩, ⟨10, 20⟩] #[]
        (creatorPositions (unplaced 0 #[anonymousEntry options]) 1).toArray
        #[anonymousEntry options, callEntry options known]) := by
  let left := unplaced 0 #[anonymousEntry options]
  have hheader : headerEntries options (TypeSite.of known (creatorClass [0, 10])) = .ok [] := by
    simp [headerEntries, TypeSite.headerReferences, TypeSite.annotationReferences,
      TypeSite.decl_of, creatorClass, Glossary.typeReferences, bind, Except.bind, pure,
      Except.pure]
  have hchild : TypeEntries.addChild (anonymousTrees.addEntries options known ∅)
      { entries := #[] } ⟨qualifiedName "a/A$1", .anonymous⟩ =
      { entries := #[anonymousEntry options]
        localTypes := (∅ : LocalTypes).insert (qualifiedName "a/A$1") left } := by
    simp [TypeEntries.addChild, blocks_anonymousTrees, left]
  have hmethod := addMethod_creator options known
    ((∅ : LocalTypes).insert (qualifiedName "a/A$1") left) #[anonymousEntry options]
    (by rw [getD_insert_localTypes, if_pos rfl])
  have hfields : (creatorClass [0, 10]).fields = [] := rfl
  have hmethods : (creatorClass [0, 10]).methods = [creator [0, 10]] := rfl
  simp only [TypeTree.entries, hheader, children_creatorClass, List.foldl_cons, List.foldl_nil,
    hchild, bind, Except.bind]
  simp only [hfields, hmethods, addMethods, List.foldlM_cons, List.foldlM_nil, hmethod, bind,
    Except.bind, pure, Except.pure, mapError_ok]
  rfl

/-- The entries of the class that creates twice, on some lines. -/
def creatorEntries (kinds : KindSet) (nested call : Int) : List Entry :=
  [(anonymousEntry ⟨true, kinds⟩).atLine nested,
    (callEntry ⟨true, kinds⟩ anonymousUniverse).atLine call]

theorem foldAccessors_creatorEntries (kinds : KindSet) (nested call : Int) :
    foldAccessors ⟨true, kinds⟩ (creatorEntries kinds nested call) =
      creatorEntries kinds nested call :=
  if_pos rfl

/-- Under a mask for static calls the second creation does not move the line back. -/
theorem extract_staticCalls_creatorClass :
    extract ⟨true, .single .staticCall⟩ anonymousUniverse (creatorClass [0, 10]) =
      .ok [callDraft.reference.atLine 20] := by
  rw [extract, typeTree_creatorClass, entries_creatorClass]
  change Except.ok (delivered (foldAccessors _ (creatorEntries (.single .staticCall) (-1) 20))) = _
  rw [foldAccessors_creatorEntries]
  change Except.ok (deliveredOf [_]) = _
  rw [deliveredOf, distinctBy_eq_distinctAfter]
  rfl

theorem extract_all_creatorClass :
    (extract ⟨true, .all⟩ anonymousUniverse (creatorClass [0, 10])).map
        (ofKinds (.single .staticCall)) =
      .ok [callDraft.reference.atLine 10] := by
  rw [extract, typeTree_creatorClass, entries_creatorClass]
  change Except.ok (ofKinds _ (delivered (foldAccessors _ (creatorEntries .all 10 10)))) = _
  rw [foldAccessors_creatorEntries]
  change Except.ok (ofKinds _ (deliveredOf _)) = _
  rw [ofKinds_deliveredOf]
  change Except.ok (deliveredOf [_]) = _
  rw [deliveredOf, distinctBy_eq_distinctAfter]
  rfl

/-- A mask delivers the dependencies of full extraction that it asks for, in their order,
and fails where full extraction fails.  A quiet mask delivers the very references. -/
theorem extract_masked (includeLocal : Bool) (kinds : KindSet) (known : Universe)
    (root : ClassDecl) :
    (extract ⟨includeLocal, kinds⟩ known root).map withoutLines =
        (extract ⟨includeLocal, .all⟩ known root).map
          (fun references => withoutLines (ofKinds kinds references)) ∧
      ((TypeTree.of known root).Quiet includeLocal kinds known →
        extract ⟨includeLocal, kinds⟩ known root =
          (extract ⟨includeLocal, .all⟩ known root).map (ofKinds kinds)) := by
  have houtcome := TypeTree.entries_outcome includeLocal known kinds (TypeTree.of known root)
  unfold extract
  cases hfull : (TypeTree.of known root).entries ⟨includeLocal, .all⟩ known with
  | error error =>
      rw [hfull] at houtcome
      rw [map_eq_error houtcome]
      exact ⟨rfl, fun _ => rfl⟩
  | ok full =>
      rw [hfull] at houtcome
      obtain ⟨part, hpart, -⟩ := map_eq_ok houtcome
      rw [hpart]
      simp only [bind, Except.bind, pure, Except.pure, Except.map, Except.ok.injEq]
      constructor
      · have hmasked := TypeTree.entries_masked includeLocal known hfull hpart
        have hfolded := foldAccessors_unlined includeLocal hmasked
        change withoutLines (deliveredOf _) = withoutLines (ofKinds kinds (deliveredOf _))
        rw [ofKinds_deliveredOf, withoutLines_deliveredOf, withoutLines_deliveredOf,
          ← filter_retained_masked]
        have hfilter : ∀ entries : List Entry, (entries.filter Entry.retained).map Entry.unlined =
            (entries.map Entry.unlined).filter Entry.retained := by
          intro entries
          rw [List.filter_map]
          rfl
        rw [hfilter, hfilter, hfolded]
      · intro hquiet
        have hagree := TypeTree.entries_agree includeLocal known kinds _ hquiet full part hfull
          hpart
        change deliveredOf _ = ofKinds kinds (deliveredOf _)
        rw [ofKinds_deliveredOf,
          foldAccessors_retained includeLocal hagree (TypeTree.accessesFolded hfull)]

theorem extract_masked_created_once :
    (TypeTree.of anonymousUniverse (creatorClass [0])).Quiet true (.single .staticCall)
        anonymousUniverse ∧
      extract ⟨true, .single .staticCall⟩ anonymousUniverse (creatorClass [0]) =
        (extract ⟨true, .all⟩ anonymousUniverse (creatorClass [0])).map
          (ofKinds (.single .staticCall)) := by
  have hquiet := quiet_creatorClass true 0
  exact ⟨hquiet, (extract_masked true (.single .staticCall) anonymousUniverse _).2 hquiet⟩

/-- Where the anonymous class is created twice, the mask moves the call to another line. -/
theorem extract_masked_moves_line :
    extract ⟨true, .single .staticCall⟩ anonymousUniverse (creatorClass [0, 10]) ≠
      (extract ⟨true, .all⟩ anonymousUniverse (creatorClass [0, 10])).map
        (ofKinds (.single .staticCall)) := by
  rw [extract_staticCalls_creatorClass, extract_all_creatorClass]
  intro h
  have hlines := congrArg (Except.map (List.map Reference.line)) h
  change Except.ok [(20 : Int)] = Except.ok [(10 : Int)] at hlines
  simp at hlines

end Linkage
