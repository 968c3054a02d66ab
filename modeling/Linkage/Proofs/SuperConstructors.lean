import Linkage.Proofs.AccessorCalls
import Linkage.Proofs.CoupledTrees
import Linkage.Proofs.PlainDeliveries
/-
Calls of super constructors.  In a body only the first constructor call on the super type is
taken for the call of the super constructor, so that a body records at most one.  A class that
is visited once, and tells its methods apart, delivers at most one for each of its
constructors, and what is delivered comes from that call.
-/

namespace Linkage

/-! Counting. -/

/-- Where chosen items yield at most one of what is counted, and the others none, no more is
found than items are chosen. -/
theorem countP_flatMap_le {α β : Type} {p : β → Bool} {q : α → Bool} {f : α → List β}
    {items : List α} (h : ∀ item ∈ items, (f item).countP p ≤ if q item then 1 else 0) :
    (items.flatMap f).countP p ≤ items.countP q := by
  induction items with
  | nil => exact Nat.zero_le _
  | cons item rest ih =>
      rw [List.forall_mem_cons] at h
      have hrest := ih h.2
      rw [List.flatMap_cons, List.countP_append, List.countP_cons]
      have hfirst := h.1
      omega

/-! Bodies. -/

/-- Whether a draft is the call of a super constructor. -/
def Draft.callsSuper (draft : Draft) : Bool := draft.reference.kind = .superConstructorCall

theorem countP_callsSuper_eq_zero {drafts : List Draft}
    (h : ∀ draft ∈ drafts, draft.reference.kind ≠ .superConstructorCall) :
    drafts.countP Draft.callsSuper = 0 := by
  rw [List.countP_eq_zero]
  exact fun draft hdraft => by simpa [Draft.callsSuper] using h draft hdraft

variable {known : Universe} {decl : ClassDecl} {method : MethodDecl}

namespace BodySite

/-- An instruction that makes a call of the super constructor makes nothing else, and is the
first to do so. -/
theorem drafts_of_superCall {state : CallState} {instruction : Instruction} {draft : Draft}
    (hdraft : draft ∈ (BodySite.of (TypeSite.of known decl) method).drafts state instruction)
    (hkind : draft.reference.kind = .superConstructorCall) :
    (BodySite.of (TypeSite.of known decl) method).drafts state instruction = [draft] ∧
      state.superCallSeen = false ∧ SuperConstructed decl method [instruction] := by
  have huse : draft.reference.kind ∉ useKinds := by
    rw [hkind]
    decide
  obtain ⟨call, hcall, hmakes⟩ := (instructionMakes_of_mem hdraft).exists_call huse
  cases hmakes with
  | superConstructor hspecial hname hsuper =>
      obtain ⟨hseen, hconstructor, howner⟩ := isSuperCall_iff.mp hsuper
      refine ⟨?_, hseen, hconstructor, _, howner, instruction, List.mem_singleton_self _, call,
        hcall, hspecial, hname, rfl⟩
      simp only [drafts, hcall, callDrafts, hspecial, qualified_eq, if_pos hname, if_pos hsuper]
      rfl
  | _ => cases hkind

/-- A body calls the super constructor once at most. -/
theorem countP_instructionDrafts (state : CallState) (instructions : List Instruction) :
    ((BodySite.of (TypeSite.of known decl) method).instructionDrafts state instructions).countP
      Draft.callsSuper ≤ if state.superCallSeen then 0 else 1 := by
  induction instructions generalizing state with
  | nil => exact Nat.zero_le _
  | cons instruction rest ih =>
      have hrest := ih ((BodySite.of (TypeSite.of known decl) method).after state instruction)
      rw [instructionDrafts, List.countP_append]
      by_cases hcalls : ∃ draft ∈
          (BodySite.of (TypeSite.of known decl) method).drafts state instruction,
            draft.reference.kind = .superConstructorCall
      · -- From this instruction on the call has been seen.
        obtain ⟨draft, hdraft, hkind⟩ := hcalls
        obtain ⟨hdrafts, hseen, hconstructed⟩ := drafts_of_superCall hdraft hkind
        rw [if_pos (superCallSeen_after.mpr (.inr hconstructed))] at hrest
        rw [hdrafts, hseen]
        have hone := @List.countP_le_length _ Draft.callsSuper [draft]
        simp only [List.length_singleton] at hone
        simp only [Bool.false_eq_true, if_false]
        omega
      · rw [countP_callsSuper_eq_zero fun draft hdraft hkind => hcalls ⟨draft, hdraft, hkind⟩,
          Nat.zero_add]
        refine hrest.trans ?_
        cases hseen : state.superCallSeen with
        | true => rw [if_pos (superCallSeen_after.mpr (.inl hseen))]; exact Nat.zero_le _
        | false => split <;> simp

end BodySite

/-! Classes. -/

/-- The calls of super constructors among drafts. -/
def superCalls (drafts : List Draft) : List Draft := drafts.filter Draft.callsSuper

theorem superCalls_append (left right : List Draft) :
    superCalls (left ++ right) = superCalls left ++ superCalls right := by
  simp [superCalls]

theorem superCalls_eq_nil {drafts : List Draft}
    (h : ∀ draft ∈ drafts, draft.reference.kind ∉ instructionKinds) : superCalls drafts = [] := by
  rw [superCalls, List.filter_eq_nil_iff]
  intro draft hdraft hcalls
  rw [Draft.callsSuper, decide_eq_true_iff] at hcalls
  exact h draft hdraft (hcalls ▸ (by decide))

/-- The calls of super constructors that a method makes. -/
def superCallsBy (known : Universe) (decl : ClassDecl) (method : MethodDecl) : List Draft :=
  superCalls ((BodySite.of (TypeSite.of known decl) method).instructionDrafts {}
    method.instructions)

theorem superCalls_methodDrafts {drafts : List Draft}
    (h : (TypeSite.of known decl).methodDrafts method = .ok drafts) :
    superCalls drafts = superCallsBy known decl method := by
  obtain ⟨types, declared, body, htypes, hdeclared, hbody, rfl⟩ := methodDrafts_eq_ok h
  have hnames : superCalls (declared.map Draft.ofReference) = [] := by
    refine superCalls_eq_nil (List.forall_mem_map.mpr fun reference hmem => ?_)
    rcases mem_methodReferences htypes hdeclared hmem with hoverride | hmention
    · obtain ⟨target, flags, rfl, -⟩ := mem_overrideReferences hoverride
      exact (by decide : ReferenceKind.override ∉ instructionKinds)
    · exact not_mem_instructionKinds hmention.kind_mem
  rw [superCalls_append, hnames, List.nil_append, superCallsBy, MethodDecl.instructions]
  rcases hbody with ⟨hnone, rfl⟩ | ⟨code, hcode, hbody⟩
  · rw [hnone]
    rfl
  · obtain ⟨locals, hlocals, rfl⟩ := bind_pure_eq_ok hbody
    have hcatch : superCalls ((BodySite.of (TypeSite.of known decl) method).catchDrafts
        code.handlers) = [] := by
      refine superCalls_eq_nil fun draft hmem => ?_
      obtain ⟨name, -, rfl⟩ := List.mem_map.mp hmem
      exact (by decide : ReferenceKind.catchException ∉ instructionKinds)
    have hvariables : superCalls (locals.toList.map Draft.ofReference) = [] := by
      refine superCalls_eq_nil (List.forall_mem_map.mpr fun reference hmem => ?_)
      obtain ⟨_, _, hmention⟩ := variableMentions_localReferences hlocals reference hmem
      exact not_mem_instructionKinds hmention.kind_mem
    rw [superCalls_append, superCalls_append, hcatch, hvariables, hcode]
    simp

/-- The calls of super constructors that a visit records are those of the types that it leaves,
in order. -/
theorem superCalls_steps (steps : List (VisitStep known)) :
    superCalls ((steps.flatMap VisitStep.records).map Record.draft) =
      (leftTypes steps).flatMap (fun decl => decl.methods.flatMap (superCallsBy known decl)) := by
  have hothers : ∀ (decl : ClassDecl) (own : OwnDrafts known decl),
      ∀ draft ∈ own.header ++ own.fields.flatten, draft.callsSuper = false := by
    refine fun decl own draft hmem => decide_eq_false fun hkind => ?_
    refine absurd (by decide : ReferenceKind.superConstructorCall ∈ instructionKinds) (hkind ▸ ?_)
    rcases List.mem_append.mp hmem with hheader | hfield
    · obtain ⟨reference, hmention, rfl⟩ := mem_headerDrafts own.header_eq hheader
      exact not_mem_instructionKinds hmention.kind_mem
    · obtain ⟨drafts, hdrafts, hdraft⟩ := List.mem_flatten.mp hfield
      obtain ⟨field, -, hdrafts⟩ := (mem_of_mapM_eq_ok own.fields_eq).mp hdrafts
      cases fieldMakes_of_mem (mapError_eq_ok hdrafts) hdraft with
      | mention hmention => exact not_mem_instructionKinds hmention.kind_mem
      | synthetic _ _ => exact (by decide : ReferenceKind.fieldDeclaration ∉ instructionKinds)
  have hmethods : ∀ (decl : ClassDecl) (method : MethodDecl) (drafts : List Draft),
      (TypeSite.of known decl).methodDrafts method = .ok drafts →
        (superCalls drafts).map id = superCallsBy known decl method := by
    intro decl method drafts hdrafts
    rw [List.map_id, superCalls_methodDrafts hdrafts]
  have hsteps := map_filter_drafts_steps hothers hmethods steps
  rwa [List.map_id] at hsteps

theorem length_superCallsBy (known : Universe) (decl : ClassDecl) (method : MethodDecl) :
    (superCallsBy known decl method).length ≤ 1 := by
  rw [superCallsBy, superCalls, ← List.countP_eq_length_filter]
  exact BodySite.countP_instructionDrafts {} method.instructions

theorem source_of_mem_superCallsBy {draft : Draft} (h : draft ∈ superCallsBy known decl method) :
    draft.reference.source = decl.methodHandle method := by
  obtain ⟨_, _, _, -, hdraft⟩ := BodySite.mem_instructionDrafts.mp (List.mem_filter.mp h).1
  exact (BodySite.instructionMakes_of_mem hdraft).source_eq

/-- A class is the only one of its name among types, and there once. -/
def ClassDecl.OnceAmong (decl : ClassDecl) (types : List ClassDecl) : Prop :=
  types.filter (fun other => other.qualifiedName = decl.qualifiedName) = [decl]

/-- A class tells its methods apart by names and descriptors. -/
def ClassDecl.KeysDistinct (decl : ClassDecl) : Prop := (decl.methods.map MethodDecl.key).Nodup

theorem ClassDecl.methodHandle_inj {decl other : ClassDecl} {method another : MethodDecl} :
    decl.methodHandle method = other.methodHandle another ↔
      decl.qualifiedName = other.qualifiedName ∧ method.key = another.key := by
  simp [methodHandle, MethodDecl.key]

/-- Whether a reference is a call of the super constructor by a member. -/
def Reference.isSuperCallBy (source : MemberHandle) (reference : Reference) : Bool :=
  reference.kind = .superConstructorCall && reference.source = source

theorem countP_superCallsBy (known : Universe) (decl : ClassDecl) (method : MethodDecl)
    (source : MemberHandle) :
    (superCallsBy known decl method).countP (fun draft => draft.reference.source = source) ≤
      if decl.methodHandle method = source then 1 else 0 := by
  split
  · exact List.countP_le_length.trans (length_superCallsBy known decl method)
  · rename_i hsource
    refine Nat.le_of_eq (List.countP_eq_zero.mpr fun draft hdraft heq => hsource ?_)
    rw [← source_of_mem_superCallsBy hdraft]
    exact of_decide_eq_true heq

theorem ClassDecl.KeysDistinct.countP_le (h : decl.KeysDistinct) (method : MethodDecl) :
    decl.methods.countP (fun other => decl.methodHandle other = decl.methodHandle method) ≤ 1 := by
  have hcount := List.nodup_iff_count_le_one.mp h method.key
  rw [List.count, List.countP_map] at hcount
  refine Nat.le_trans (Nat.le_of_eq (List.countP_congr fun other _ => ?_)) hcount
  simp [ClassDecl.methodHandle_inj]

/-- Among types in which a class is once, the calls of super constructors by one of its methods are
at most one. -/
theorem ClassDecl.OnceAmong.countP_superCalls {types : List ClassDecl}
    (honce : decl.OnceAmong types) (hkeys : decl.KeysDistinct) (known : Universe)
    (method : MethodDecl) :
    (types.flatMap (fun other => other.methods.flatMap (superCallsBy known other))).countP
      (fun draft => draft.reference.source = decl.methodHandle method) ≤ 1 := by
  have hclass : ∀ other ∈ types, (other.methods.flatMap (superCallsBy known other)).countP
      (fun draft => draft.reference.source = decl.methodHandle method) ≤
        if decide (other.qualifiedName = decl.qualifiedName) then 1 else 0 := by
    intro other hother
    refine Nat.le_trans (@countP_flatMap_le _ _ _
      (fun another => other.methodHandle another = decl.methodHandle method) _ other.methods
      fun another _ => ?_) ?_
    · simpa using countP_superCallsBy known other another (decl.methodHandle method)
    by_cases hname : other.qualifiedName = decl.qualifiedName
    · have hsame : other ∈ types.filter
          (fun other => other.qualifiedName = decl.qualifiedName) :=
        List.mem_filter.mpr ⟨hother, decide_eq_true hname⟩
      rw [honce, List.mem_singleton] at hsame
      rw [hsame]
      simpa using hkeys.countP_le method
    · refine Nat.le_trans (Nat.le_of_eq (List.countP_eq_zero.mpr fun another _ heq => ?_))
        (Nat.zero_le _)
      exact hname (ClassDecl.methodHandle_inj.mp (of_decide_eq_true heq)).1
  refine Nat.le_trans (countP_flatMap_le hclass) ?_
  rw [List.countP_eq_length_filter, honce]
  exact Nat.le_refl 1

/-- A class that is visited once records at most one call of the super constructor for each of
its methods. -/
theorem countP_records_le {steps : List (VisitStep known)}
    (honce : decl.OnceAmong (leftTypes steps)) (hkeys : decl.KeysDistinct)
    (method : MethodDecl) :
    (steps.flatMap VisitStep.records).countP
      (fun record => record.draft.reference.isSuperCallBy (decl.methodHandle method)) ≤ 1 := by
  have hcount := honce.countP_superCalls hkeys known method
  rw [← superCalls_steps, superCalls, List.countP_filter, List.countP_map] at hcount
  refine Nat.le_trans (Nat.le_of_eq (List.countP_congr fun record _ => ?_)) hcount
  simp [Reference.isSuperCallBy, Draft.callsSuper, and_comm]

/-! Deliveries. -/

theorem countP_delivered_le (p : Reference → Bool) (entries : List Entry) :
    (delivered entries).countP p ≤ entries.countP (fun entry => p entry.reference) := by
  rw [delivered, List.countP_map, distinctBy_eq_distinctAfter]
  exact ((distinctAfter_sublist _ _ _).trans List.filter_sublist).countP_le

section Entries
variable {options : ExtractOptions} {steps : List (VisitStep known)} {entries : Array Entry}
  (hunlined : unlinedAll entries =
    (steps.flatMap VisitStep.records).map (Record.unlined options))
include hunlined

/-- Every entry for a call of a super constructor is of the first constructor call on the super
type of a visited class, in a constructor of it. -/
theorem exists_superConstructorCall {entry : Entry} (hmem : entry ∈ entries.toList)
    (hkind : entry.reference.kind = .superConstructorCall) :
    entry.trail = .plain ∧ ∃ decl ∈ leftTypes steps, ∃ method earlier instruction call,
      InstructionOf decl method earlier instruction ∧ instruction.operation = .invoke call ∧
        call.kind = .special ∧ call.name = constructorName ∧
          IsSuperConstructorCall decl method earlier call ∧ entry.reference.identity =
            .ofCall (decl.methodHandle method) .superConstructorCall call := by
  obtain ⟨decl, hleft, draft, horigin, hfootprint⟩ :=
    exists_draftOrigin hunlined hmem (.inl (hkind ▸ (by decide)))
  have hidentity : draft.reference.identity = entry.reference.identity :=
    congrArg Footprint.identity hfootprint
  have htrail : draft.trail = entry.trail := congrArg Footprint.trail hfootprint
  have hsuper : draft.reference.kind = .superConstructorCall :=
    (congrArg Reference.Identity.kind hidentity).trans hkind
  cases horigin with
  | @instruction method earlier instruction hinstruction hprescribes hbody =>
      refine ⟨?_, decl, hleft, method, earlier, instruction, ?_⟩
      · rw [← htrail, hbody, hsuper]
        exact bodyTrail_plain (by decide) (by decide)
      · obtain ⟨call, hcall, hspecial, hname, hfirst, heq⟩ :=
          hprescribes.of_superConstructorCall hsuper
        exact ⟨call, hinstruction, hcall, hspecial, hname, hfirst, hidentity ▸ heq⟩
  | syntheticField _ hdraft =>
      rw [hdraft] at hsuper
      cases hsuper
  | other _ hother =>
      rw [hsuper] at hother
      exact absurd (by decide) hother

/-- Folding does not follow calls of super constructors. -/
theorem kind_ne_of_reaches {access call : Entry} (haccess : access ∈ entries.toList)
    (hreaches : call.footprint.Reaches access.footprint) :
    access.reference.kind ≠ .superConstructorCall := by
  intro hkind
  have htrail : access.trail = .syntheticAccess := hreaches.access_trail
  rw [(exists_superConstructorCall hunlined haccess hkind).1] at htrail
  cases htrail

/-- A visit delivers at most one call of the super constructor for each method of a class that
is visited once. -/
theorem countP_isSuperCallBy_le (honce : decl.OnceAmong (leftTypes steps))
    (hkeys : decl.KeysDistinct) (method : MethodDecl) :
    (delivered (foldAccessors options entries.toList)).countP
      (Reference.isSuperCallBy (decl.methodHandle method)) ≤ 1 := by
  have hentries : entries.toList.countP
      (fun entry => entry.reference.isSuperCallBy (decl.methodHandle method)) ≤ 1 := by
    have hcount := congrArg (List.countP
      (fun entry => entry.reference.isSuperCallBy (decl.methodHandle method))) hunlined
    rw [unlinedAll, List.countP_map, List.countP_map] at hcount
    exact Nat.le_trans (Nat.le_of_eq hcount) (countP_records_le honce hkeys method)
  -- A direct use is of the kind of the use that it replaces.
  have hdirect : (directUses options (.ofEntries entries.toList) entries.toList).countP
      (fun entry => entry.reference.isSuperCallBy (decl.methodHandle method)) = 0 := by
    rw [List.countP_eq_zero]
    intro use huse hcalls
    obtain ⟨access, haccess, call, -, hreaches, rfl⟩ := mem_directUses.mp huse
    rw [Reference.isSuperCallBy, Bool.and_eq_true, decide_eq_true_iff] at hcalls
    exact kind_ne_of_reaches hunlined haccess hreaches hcalls.1
  refine Nat.le_trans (countP_delivered_le _ _) ?_
  rw [foldAccessors_eq, List.countP_append, hdirect, List.countP_map]
  refine Nat.le_trans (Nat.le_of_eq (List.countP_congr fun entry _ => ?_)) hentries
  simp only [Function.comp_apply]
  split <;> rfl

end Entries

/-- A reference is of the first constructor call on the super type in a constructor of a class. -/
structure SuperCallOf (decl : ClassDecl) (method : MethodDecl) (reference : Reference) : Prop where
  isConstructor : method.isConstructor = true
  target : decl.superType? = some reference.typeName
  stems : ∃ earlier instruction call, InstructionOf decl method earlier instruction ∧
    instruction.operation = .invoke call ∧ call.Constructs reference.typeName ∧
      reference.identity = .ofCall (decl.methodHandle method) .superConstructorCall call ∧
        ∀ other ∈ earlier, ∀ previous, other.operation = .invoke previous →
          ¬ previous.Constructs reference.typeName

/-- What a class that is visited once delivers as call of the super constructor by a method is the
first constructor call on the super type in that method. -/
theorem superCallOf_of_mem {options : ExtractOptions} {steps : List (VisitStep known)}
    {entries : Array Entry} (hunlined : unlinedAll entries =
      (steps.flatMap VisitStep.records).map (Record.unlined options))
    (honce : decl.OnceAmong (leftTypes steps)) (hkeys : decl.KeysDistinct)
    (hmethod : method ∈ decl.methods) {reference : Reference}
    (hmem : reference ∈ delivered (foldAccessors options entries.toList))
    (hcalls : reference.isSuperCallBy (decl.methodHandle method) = true) :
    SuperCallOf decl method reference := by
  rw [Reference.isSuperCallBy, Bool.and_eq_true, decide_eq_true_iff, decide_eq_true_iff] at hcalls
  obtain ⟨hkind, hsource⟩ := hcalls
  obtain ⟨kept, hkept, hretained, rfl⟩ := exists_of_mem_delivered hmem
  rcases mem_foldAccessors hkept hretained with
    ⟨hentry, -⟩ | ⟨access, haccess, call, -, hreaches, rfl⟩
  · obtain ⟨-, other, hother, another, earlier, instruction, call, hinstruction, hcall, hspecial,
      hname, ⟨hconstructor, howner, hfirst⟩, hidentity⟩ :=
        exists_superConstructorCall hunlined hentry hkind
    have htype : kept.reference.typeName = qualifiedName call.owner :=
      congrArg Reference.Identity.typeName hidentity
    have hhandle : other.methodHandle another = decl.methodHandle method :=
      (congrArg Reference.Identity.source hidentity).symm.trans hsource
    obtain ⟨hnames, hsame⟩ := ClassDecl.methodHandle_inj.mp hhandle
    have hdecl : other ∈ (leftTypes steps).filter
        (fun other => other.qualifiedName = decl.qualifiedName) :=
      List.mem_filter.mpr ⟨hother, decide_eq_true hnames⟩
    rw [honce, List.mem_singleton] at hdecl
    subst hdecl
    obtain rfl := List.inj_on_of_nodup_map hkeys hinstruction.method_mem hmethod hsame
    refine ⟨hconstructor, htype ▸ howner, earlier, instruction, call, hinstruction, hcall,
      ⟨hspecial, hname, htype.symm⟩, hidentity, fun before hbefore previous hprevious hruns => ?_⟩
    exact hfirst ⟨hconstructor, _, howner, before, hbefore, previous, hprevious, htype ▸ hruns⟩
  · exact (kind_ne_of_reaches hunlined haccess hreaches hkind).elim

/-! Extraction. -/

/-- Creations and constructor calls are delivered together, on the same lines; and a class that is
visited once delivers at most one call of the super constructor for each of its methods, which is
the first constructor call on the super type in a constructor. -/
theorem extract_constructions (options : ExtractOptions) (known : Universe) (root : ClassDecl)
    (references : List Reference) (h : extract options known root = .ok references) :
    (options.AsksConstruction → ∀ source typeName line,
      RefersAt references .instantiate source typeName line ↔
        RefersAt references .constructorCall source typeName line) ∧
    ∃ steps, (TypeTree.of known root).steps known = .ok steps ∧
      ∀ decl, decl.OnceAmong (leftTypes steps) → decl.KeysDistinct → ∀ method ∈ decl.methods,
        references.countP (Reference.isSuperCallBy (decl.methodHandle method)) ≤ 1 ∧
          ∀ reference ∈ references,
            reference.isSuperCallBy (decl.methodHandle method) = true →
              SuperCallOf decl method reference := by
  obtain ⟨entries, steps, hentries, hsteps, hunlined, rfl⟩ := exists_steps_of_extract h
  refine ⟨fun hasks source typeName line => ?_, steps, hsteps,
    fun decl honce hkeys method hmethod => ?_⟩
  · have hpairs := TypeTree.forall_entries (Coupled.holdsAtNodes known hasks) _
      (fun _ _ => trivial) entries hentries
    exact hpairs.refersAt_creation_iff_call
  · exact ⟨countP_isSuperCallBy_le hunlined honce hkeys method,
      fun reference hmem hcalls => superCallOf_of_mem hunlined honce hkeys hmethod hmem hcalls⟩

/-! A class whose constructor calls that of the super class and creates another object. -/

def constructorOf (owner : String) : CallSite := ⟨owner, "<init>", "()V", .special⟩

/-- A body that calls the constructors of three types, of which two are the super class. -/
def builderCode : Code where
  length := 12
  instructions := ["b/B", "c/C", "b/B"].zipIdx.map (fun item =>
    ⟨4 * item.2, 0xb7, .invoke (constructorOf item.1)⟩)

def builderMethod : MethodDecl where
  name := "<init>"
  descriptor := "()V"
  code := some builderCode

def builderClass : ClassDecl where
  name := "a/A"
  superName := some "b/B"
  methods := [builderMethod]

def builderSite : BodySite := .of (TypeSite.of (.ofList []) builderClass) builderMethod

/-- A reference of the constructor to another. -/
def builderCall (owner : String) (kind : ReferenceKind) : Reference :=
  builderSite.callReference (qualifiedName owner) (constructorOf owner) kind 0

def builderCreation (owner : String) : Reference :=
  Reference.ofType builderSite.source (qualifiedName owner) .instantiate

theorem isSuperCall_builderSite : builderSite.isSuperCall {} (qualifiedName "b/B") = true := by
  decide +kernel

theorem isSuperCall_builderSite_seen (owner : String) :
    builderSite.isSuperCall { superCallSeen := true } owner = false := rfl

theorem drafts_builderCode : builderSite.instructionDrafts {} builderCode.instructions =
    [builderCall "b/B" .superConstructorCall, builderCreation "c/C",
      builderCall "c/C" .constructorCall, builderCreation "b/B",
      builderCall "b/B" .constructorCall].map Draft.ofReference := by
  have hname : "<init>" = constructorName := rfl
  simp [builderCode, constructorOf, BodySite.instructionDrafts, BodySite.drafts, BodySite.after,
    BodySite.callDrafts, BodySite.afterCall, isSuperCall_builderSite,
    isSuperCall_builderSite_seen, ← hname]
  exact ⟨rfl, rfl, rfl, rfl, rfl⟩

/-- What the class delivers: its super class, and what its constructor calls. -/
def builderReferences : List Reference :=
  [Reference.ofType (.type (qualifiedName "a/A")) (qualifiedName "b/B") .extendsType,
    builderCall "b/B" .superConstructorCall, builderCreation "c/C",
    builderCall "c/C" .constructorCall, builderCreation "b/B", builderCall "b/B" .constructorCall]

theorem entries_builderClass (options : ExtractOptions) :
    (TypeTree.of (.ofList []) builderClass).entries options (.ofList []) =
      .ok ((builderReferences.map Draft.ofReference).map
        (options.record { name := qualifiedName "a/A" })).toArray := by
  have hheader : headerEntries options (TypeSite.of (.ofList []) builderClass) =
      .ok (superEntries options "a/A" (some "b/B")) := by
    simp [headerEntries, TypeSite.headerReferences, TypeSite.annotationReferences,
      TypeSite.decl_of, builderClass, Glossary.typeReferences, superEntries, Table.get_eq, bind,
      Except.bind, pure, Except.pure]
    rfl
  have hdeclared : (TypeSite.of (.ofList []) builderClass).methodReferences builderMethod
      ⟨[], none, 0⟩ = .ok [] := by
    simp [TypeSite.methodReferences, TypeSite.methodHeaderReferences,
      TypeSite.overrideReferences, TypeSite.methodTypeReferences, TypeSite.exceptionReferences,
      Glossary.typeReferences, builderMethod, MethodDecl.isConstructor, constructorName, bind,
      Except.bind, pure, Except.pure]
  have hmethod := addMethod_static options (TypeSite.of (.ofList []) builderClass) ∅
    (superEntries options "a/A" (some "b/B")).toArray builderMethod rfl rfl hdeclared rfl rfl
  have hchildren := builderClass.children_eq_nil rfl
  rw [TypeTree.of_childless _ hchildren, TypeTree.entries, hheader, hchildren]
  have hfields : builderClass.fields = [] := rfl
  have hmethods : builderClass.methods = [builderMethod] := rfl
  simp only [hfields, hmethods, addMethods, List.foldl_nil, List.foldlM_cons, List.foldlM_nil,
    bind, Except.bind, pure, Except.pure]
  have hdrafts := drafts_builderCode
  rw [builderSite] at hdrafts
  rw [hmethod, mapError_ok, hdrafts]
  -- Without a line table no line is assigned.
  exact congrArg Except.ok (Array.ext' (by simp [builderReferences]; rfl))

theorem extract_builderClass :
    extract ⟨true, .all⟩ (.ofList []) builderClass = .ok builderReferences := by
  have hconsiders : builderReferences.filter
      (ExtractOptions.considers ⟨true, .all⟩ { name := qualifiedName "a/A" }) =
        builderReferences := by
    refine List.filter_eq_self.mpr fun reference _ => ?_
    simp [ExtractOptions.considers]
  have hnames : qualifiedName "b/B" ≠ qualifiedName "c/C" := by decide +kernel
  rw [extract, entries_builderClass]
  change Except.ok (delivered (foldAccessors _ _)) = _
  rw [delivered_ofReferences, hconsiders, distinctBy_eq_distinctAfter]
  simp [distinctAfter, builderReferences, builderCall, builderCreation, Reference.repeatKey,
    Reference.identity, Reference.ofType, BodySite.callReference, Reference.ofMethod, hnames]

/-- The class delivers one call of the super constructor, and the later one on the super class as
a constructor call with its creation. -/
theorem extract_builderClass_constructions :
    extract ⟨true, .all⟩ (.ofList []) builderClass = .ok builderReferences ∧
      RefersAt builderReferences .constructorCall builderSite.source (qualifiedName "b/B") (-1) ∧
      RefersAt builderReferences .instantiate builderSite.source (qualifiedName "b/B") (-1) ∧
      builderReferences.countP (Reference.isSuperCallBy (builderClass.methodHandle builderMethod)) =
        1 ∧
      SuperCallOf builderClass builderMethod (builderCall "b/B" .superConstructorCall) := by
  obtain ⟨hpairs, steps, hsteps, hsupers⟩ :=
    extract_constructions _ _ _ _ extract_builderClass
  have honce : builderClass.OnceAmong (leftTypes steps) := by
    rw [leftTypes_of_childless (builderClass.children_eq_nil rfl) hsteps, ClassDecl.OnceAmong]
    simp
  have hkeys : builderClass.KeysDistinct := List.nodup_singleton _
  have hasks : ExtractOptions.AsksConstruction ⟨true, .all⟩ := fun kind _ =>
    KindSet.contains_all kind
  obtain ⟨hcount, hcalls⟩ := hsupers builderClass honce hkeys builderMethod
    (List.mem_singleton_self _)
  have hmem : builderCall "b/B" .superConstructorCall ∈ builderReferences := by
    simp [builderReferences]
  have hcall : RefersAt builderReferences .constructorCall builderSite.source
      (qualifiedName "b/B") (-1) :=
    ⟨builderCall "b/B" .constructorCall, by simp [builderReferences], rfl, rfl, rfl, rfl⟩
  have hsuper : (builderCall "b/B" .superConstructorCall).isSuperCallBy
      (builderClass.methodHandle builderMethod) = true := by
    rw [Reference.isSuperCallBy, Bool.and_eq_true, decide_eq_true_iff, decide_eq_true_iff]
    exact ⟨rfl, rfl⟩
  refine ⟨extract_builderClass, hcall, (hpairs hasks _ _ _).mpr hcall, ?_,
    hcalls _ hmem hsuper⟩
  exact Nat.le_antisymm hcount (List.countP_pos_iff.mpr ⟨_, hmem, hsuper⟩)

end Linkage
