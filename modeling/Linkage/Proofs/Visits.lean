import Linkage.Proofs.Folding
import Linkage.Proofs.Nesting
/-
Visits of types.  Extraction enters a type, visits the types nested in it and
leaves it; a nested type that fails leaves no step behind.  What extraction
records are the headers of the types that it enters and the members of those
that it leaves, step by step.  Nesting may be cyclic here.
-/

namespace Linkage

namespace OwnDrafts

variable {known : Universe} {decl : ClassDecl}

/-- What the fields and methods of a type record. -/
def members (own : OwnDrafts known decl) : List Draft :=
  own.fields.flatten ++ own.methods.flatten

/-- What a type records itself, if all its texts can be read. -/
def read (known : Universe) (decl : ClassDecl) : Except ExtractError (OwnDrafts known decl) :=
  match hheader : (TypeSite.of known decl).headerDrafts with
  | .error error => .error error
  | .ok header =>
      match hfields : (TypeSite.of known decl).fieldsDrafts with
      | .error error => .error error
      | .ok fields =>
          match hmethods : (TypeSite.of known decl).methodsDrafts with
          | .error error => .error error
          | .ok methods => .ok ⟨header, fields, methods, hheader, hfields, hmethods⟩

/-- Reading header, fields and methods one after the other is reading what the type
records. -/
theorem read_map {β : Type} (known : Universe) (decl : ClassDecl)
    (build : List Draft → List Draft → β) :
    (do
      let header ← (TypeSite.of known decl).headerDrafts
      let fields ← (TypeSite.of known decl).fieldsDrafts
      let methods ← (TypeSite.of known decl).methodsDrafts
      return build header (fields.flatten ++ methods.flatten)) =
        (read known decl).map (fun own => build own.header own.members) := by
  rw [read]
  split
  · rename_i error herror
    simp [herror, bind, Except.bind, Except.map]
  · rename_i header hheader
    split
    · rename_i error herror
      simp [hheader, herror, bind, Except.bind, Except.map]
    · rename_i fields hfields
      split
      · rename_i error herror
        simp [hheader, hfields, herror, bind, Except.bind, Except.map]
      · rename_i methods hmethods
        simp [hheader, hfields, hmethods, bind, Except.bind, Except.map, pure, Except.pure,
          members]

end OwnDrafts

/-- The visit of a type begins or ends. -/
inductive VisitStep (known : Universe) where
  | enter (decl : ClassDecl) (own : OwnDrafts known decl)
  | leave (decl : ClassDecl) (own : OwnDrafts known decl)

namespace VisitStep

variable {known : Universe}

/-- The type that a step enters or leaves. -/
def decl : VisitStep known → ClassDecl
  | enter decl _ => decl
  | leave decl _ => decl

/-- The type that is entered. -/
def entered? : VisitStep known → Option ClassDecl
  | enter decl _ => some decl
  | leave _ _ => none

/-- The type that is left. -/
def left? : VisitStep known → Option ClassDecl
  | enter _ _ => none
  | leave decl _ => some decl

/-- What is recorded: the header of a type when it is entered, its members when it is
left. -/
def records : VisitStep known → List Record
  | enter decl own => (TypeSite.of known decl).recorded own.header
  | leave decl own => (TypeSite.of known decl).recorded own.members

theorem scope_name {step : VisitStep known} {record : Record} (h : record ∈ step.records) :
    record.scope.name = step.decl.qualifiedName := by
  cases step with
  | enter decl own =>
      obtain ⟨draft, -, rfl⟩ := List.mem_map.mp h
      rfl
  | leave decl own =>
      obtain ⟨draft, -, rfl⟩ := List.mem_map.mp h
      rfl

end VisitStep

mutual

/-- The steps of a visit. -/
def TypeTree.steps (known : Universe) :
    TypeTree → Except ExtractError (List (VisitStep known))
  | .node decl nested =>
      (OwnDrafts.read known decl).map (fun own =>
        .enter decl own :: decl.children.flatMap (fun child =>
          (nested.stepsOf known child.name).getD []) ++ [.leave decl own])

/-- The steps of the visit of a nested type; none if it is unknown or fails. -/
def NestedTrees.stepsOf (known : Universe) :
    NestedTrees → String → Option (List (VisitStep known))
  | .nil, _ => none
  | .cons other tree rest, name =>
      (rest.stepsOf known name).or
        (if other = name then (tree.steps known).toOption else none)

end

mutual

/-- The records of a type are those of the steps of its visit. -/
theorem TypeTree.records_eq_steps (known : Universe) : (tree : TypeTree) →
    tree.records known =
      (tree.steps known).map (fun steps => steps.flatMap VisitStep.records)
  | .node decl nested => by
      have hinner : decl.children.flatMap (fun child =>
            (nested.recordsOf known child.name).getD []) =
          (decl.children.flatMap (fun child =>
            (nested.stepsOf known child.name).getD [])).flatMap VisitStep.records := by
        rw [List.flatMap_assoc]
        congr 1
        funext child
        rw [NestedTrees.recordsOf_eq_stepsOf known nested child.name]
        cases nested.stepsOf known child.name <;> rfl
      rw [TypeTree.records, hinner]
      rw [OwnDrafts.read_map known decl (fun header members =>
        (TypeSite.of known decl).recorded header ++ _ ++ (TypeSite.of known decl).recorded members),
        TypeTree.steps]
      cases OwnDrafts.read known decl with
      | error error => rfl
      | ok own => simp [Except.map, VisitStep.records]

theorem NestedTrees.recordsOf_eq_stepsOf (known : Universe) : (nested : NestedTrees) →
    (name : String) → nested.recordsOf known name =
      (nested.stepsOf known name).map (fun steps => steps.flatMap VisitStep.records)
  | .nil, name => rfl
  | .cons other tree rest, name => by
      have htree : (tree.records known).toOption =
          (tree.steps known).toOption.map (fun steps => steps.flatMap VisitStep.records) := by
        rw [TypeTree.records_eq_steps known tree]
        cases tree.steps known <;> rfl
      rw [NestedTrees.recordsOf, NestedTrees.stepsOf,
        NestedTrees.recordsOf_eq_stepsOf known rest name, htree]
      cases rest.stepsOf known name with
      | some steps => rfl
      | none =>
          by_cases hname : other = name
          · simp [hname]
          · simp [hname]

end

/-- A type and the types nested in it have no entries exactly if the own texts of the type cannot
be read; what is nested does not matter. -/
theorem TypeTree.entries_error_iff (options : ExtractOptions) (known : Universe)
    (decl : ClassDecl) (nested : NestedTrees) (error : ExtractError) :
    (TypeTree.node decl nested).entries options known = .error error ↔
      OwnDrafts.read known decl = .error error := by
  have hview := TypeTree.entries_unlined options known (.node decl nested)
  rw [TypeTree.records_eq_steps, TypeTree.steps] at hview
  cases hread : OwnDrafts.read known decl with
  | error cause =>
      rw [hread] at hview
      rw [map_eq_error hview]
      simp
  | ok own =>
      rw [hread] at hview
      obtain ⟨entries, hentries, -⟩ := map_eq_ok hview
      rw [hentries]
      simp

/-- The types that are left, and so visited without error, in order. -/
def leftTypes {known : Universe} (steps : List (VisitStep known)) : List ClassDecl :=
  steps.filterMap VisitStep.left?

/-- Nothing but the type itself is visited where nothing is nested in it. -/
theorem leftTypes_of_childless {known : Universe} {decl : ClassDecl} (h : decl.children = [])
    {steps : List (VisitStep known)} (hsteps : (TypeTree.of known decl).steps known = .ok steps) :
    leftTypes steps = [decl] := by
  rw [TypeTree.of, TypeTree.steps, h] at hsteps
  obtain ⟨own, -, rfl⟩ := map_eq_ok hsteps
  rfl

/-- Every record is a draft of the header of a type, or of a member of a type that is
left. -/
theorem exists_own_of_mem_records {known : Universe} {steps : List (VisitStep known)}
    {record : Record} (h : record ∈ steps.flatMap VisitStep.records) :
    ∃ decl, ∃ own : OwnDrafts known decl, record.draft ∈ own.header ∨
      (decl ∈ leftTypes steps ∧ record.draft ∈ own.members) := by
  obtain ⟨step, hstep, hrecord⟩ := List.mem_flatMap.mp h
  cases step with
  | enter decl own =>
      obtain ⟨draft, hdraft, rfl⟩ := List.mem_map.mp hrecord
      exact ⟨decl, own, .inl hdraft⟩
  | leave decl own =>
      obtain ⟨draft, hdraft, rfl⟩ := List.mem_map.mp hrecord
      exact ⟨decl, own, .inr ⟨List.mem_filterMap.mpr ⟨_, hstep, rfl⟩, hdraft⟩⟩

/-- The entries of an extraction are the records of its visit, each on some line. -/
theorem exists_steps_of_extract {options : ExtractOptions} {known : Universe}
    {root : ClassDecl} {references : List Reference}
    (h : extract options known root = .ok references) :
    ∃ entries steps, (TypeTree.of known root).entries options known = .ok entries ∧
      (TypeTree.of known root).steps known = .ok steps ∧
      unlinedAll entries = (steps.flatMap VisitStep.records).map (Record.unlined options) ∧
      references = delivered (foldAccessors options entries.toList) := by
  have hview := TypeTree.entries_unlined options known (TypeTree.of known root)
  obtain ⟨entries, hentries, h⟩ := bind_pure_eq_ok h
  rw [hentries] at hview
  obtain ⟨found, hfound, hunlined⟩ := map_eq_ok hview.symm
  rw [TypeTree.records_eq_steps] at hfound
  obtain ⟨steps, hsteps, rfl⟩ := map_eq_ok hfound
  exact ⟨entries, steps, hentries, hsteps, hunlined.symm, h.symm⟩

/-- Every entry of an extraction is a record of its visit. -/
theorem exists_record_of_mem {options : ExtractOptions} {entries : Array Entry}
    {found : List Record} (h : unlinedAll entries = found.map (Record.unlined options))
    {entry : Entry} (hmem : entry ∈ entries.toList) :
    ∃ record ∈ found, record.unlined options = entry.unlined := by
  have hunlined : entry.unlined ∈ unlinedAll entries := List.mem_map_of_mem hmem
  rw [h] at hunlined
  exact List.mem_map.mp hunlined

/-! Classes of instructions only. -/

/-- A static method without arguments, whose body has instructions and no tables. -/
structure PlainMethod where
  name : String
  isSynthetic : Bool := false
  instructions : List Instruction

namespace PlainMethod

/-- The body of the method. -/
def code (method : PlainMethod) : Code where
  length := 4 * method.instructions.length
  instructions := method.instructions

/-- The declaration of the method. -/
def decl (method : PlainMethod) : MethodDecl where
  name := method.name
  descriptor := "()V"
  access := { isStatic := true, isSynthetic := method.isSynthetic }
  code := some method.code

/-- What the body of the method records in a type. -/
def drafts (method : PlainMethod) (type : TypeSite) : List Draft :=
  (BodySite.of type method.decl).instructionDrafts {} method.instructions

end PlainMethod

/-- A class that has such methods and nothing else. -/
def plainClass (name : String) (methods : List PlainMethod) : ClassDecl where
  name := name
  methods := methods.map PlainMethod.decl

theorem addMethod_plain (options : ExtractOptions) (type : TypeSite) (localTypes : LocalTypes)
    (entries : Array Entry) (method : PlainMethod) :
    addMethod options type localTypes entries method.decl =
      .ok (entries ++ ((method.drafts type).map (options.record type.scope)).toArray) := by
  have htypes : type.glossary.methodTypes.get method.decl.descriptor = .ok ⟨[], none, 0⟩ := by
    rw [Table.get_eq]
    exact readMethodTypes_noArguments
  have hdeclared : type.methodReferences method.decl ⟨[], none, 0⟩ = .ok [] := by
    cases hsynthetic : method.isSynthetic <;>
      simp [TypeSite.methodReferences, TypeSite.methodHeaderReferences,
        TypeSite.overrideReferences, TypeSite.methodTypeReferences,
        TypeSite.exceptionReferences, Glossary.typeReferences, PlainMethod.decl, hsynthetic,
        bind, Except.bind, pure, Except.pure]
  have hlocals : ∀ markers, localReferences (BodySite.of type method.decl).type.glossary
      (BodySite.of type method.decl).source (firstLocalSlot method.decl ⟨[], none, 0⟩)
      method.code.locals markers = .ok #[] :=
    fun _ => rfl
  have hbody : method.decl.body? = some method.code := rfl
  have hentries := BodyWalk.through_entries options (BodySite.of type method.decl) localTypes
    method.code entries
  rw [addMethod_eq options localTypes entries htypes hdeclared]
  simp only [hbody, List.map_nil, Array.appendList_nil]
  rw [addBody, hlocals]
  simp only [bind, Except.bind, pure, Except.pure, hentries]
  -- Without a line table no line is assigned.
  change Except.ok (_ ++ (_ : Array Entry) ++ _) = _
  simp [BodyWalk.draftEntries, BodySite.catchDrafts, PlainMethod.drafts, PlainMethod.code]
  rfl

theorem addMethods_plain (options : ExtractOptions) (type : TypeSite) (localTypes : LocalTypes)
    (methods : List PlainMethod) (entries : Array Entry) :
    addMethods options type localTypes (methods.map PlainMethod.decl) entries =
      .ok (entries ++ ((methods.flatMap (fun method => method.drafts type)).map
        (options.record type.scope)).toArray) := by
  induction methods generalizing entries with
  | nil => simp [addMethods, pure, Except.pure]
  | cons method rest ih =>
      rw [List.map_cons, addMethods, List.foldlM_cons, addMethod_plain]
      simp only [mapError_ok, bind, Except.bind]
      rw [← addMethods, ih]
      simp

/-- The entries of a class of instructions only are those of its bodies, without lines. -/
theorem entries_plainClass (options : ExtractOptions) (known : Universe) (name : String)
    (methods : List PlainMethod) :
    (TypeTree.of known (plainClass name methods)).entries options known =
      .ok ((methods.flatMap (fun method =>
          method.drafts (TypeSite.of known (plainClass name methods)))).map
        (options.record (TypeSite.of known (plainClass name methods)).scope)).toArray := by
  have hheader : headerEntries options (TypeSite.of known (plainClass name methods)) =
      .ok [] := by
    simp [headerEntries, TypeSite.headerReferences, TypeSite.annotationReferences,
      TypeSite.decl_of, plainClass, Glossary.typeReferences, bind, Except.bind, pure,
      Except.pure]
  rw [TypeTree.of, TypeTree.entries, hheader, (plainClass name methods).children_eq_nil rfl]
  change addMethods _ _ _ (methods.map PlainMethod.decl) _ = _
  rw [addMethods_plain]
  simp

/-- A class whose bodies make references without a trail delivers those that the options ask
for. -/
theorem extract_plainClass (options : ExtractOptions) (known : Universe) (name : String)
    {methods : List PlainMethod} {references : List Reference}
    (hdrafts : methods.flatMap (fun method =>
        method.drafts (TypeSite.of known (plainClass name methods))) =
      references.map Draft.ofReference) :
    extract options known (plainClass name methods) =
      .ok (distinctBy Reference.repeatKey (references.filter
        (options.considers (TypeSite.of known (plainClass name methods)).scope))) := by
  rw [extract, entries_plainClass, hdrafts]
  change Except.ok (delivered (foldAccessors options _)) = _
  rw [delivered_ofReferences]

end Linkage
