import Linkage.Proofs.Delivery
import Linkage.Proofs.Distinct
import Linkage.Proofs.Hierarchy
/-
Reports of an analysis with the two checking detectors.  What they report are
exactly the unsatisfied references: owners that are unknown, members that a known
owner lacks, and members that the stubs of an environment lack.  Each is reported
once for its key, by the first reference with it and in the order of the keys.
-/

namespace Linkage

/-- References of these kinds are checked. -/
def IsChecked (reference : Reference) : Prop :=
  reference.kind ≠ .override ∧ reference.kind ≠ .constantPoolUse

/-- A checked reference whose owner is unknown. -/
structure OwnerMissing (known : Universe) (reference : Reference) : Prop where
  checked : IsChecked reference
  owner : known.lookup reference.typeName = none

/-- A checked reference to what a known owner lacks. -/
structure MemberMissing (known : Universe) (reference : Reference) : Prop where
  checked : IsChecked reference
  owner : ∃ owner, known.lookup reference.typeName = some owner
  target : Resolution.target known reference = none

/-- A checked reference to a field or method that an owner among the stubs lacks. -/
structure MemberUnavailable (stubs : Universe) (reference : Reference) : Prop where
  checked : IsChecked reference
  sort : reference.target = .field ∨ reference.target = .method
  owner : ∃ owner, stubs.lookup reference.typeName = some owner
  target : Resolution.target stubs reference = none

/-- Where reports about members belong: the target text and the source. -/
def site (reference : Reference) : String × MemberHandle :=
  (reference.targetText, reference.source)

/-- The order of reports about types. -/
def OwnerBefore (left right : Reference) : Prop := left.typeName < right.typeName

/-- The order of reports about members: by target text, then by source. -/
def SiteBefore (left right : Reference) : Prop :=
  left.targetText < right.targetText ∨
    left.targetText = right.targetText ∧ left.source.before right.source = true

/-- References reported for those of a list that something concerns: the first of each
key, in strictly ascending order. -/
structure ReportsFirst {κ : Type} (key : Reference → κ)
    (before : Reference → Reference → Prop) (concerns : Reference → Prop)
    (references reported : List Reference) : Prop where
  ascending : reported.Pairwise before
  distinct : (reported.map key).Nodup
  covers : ∀ reference ∈ references, concerns reference →
    ∃ first ∈ reported, key first = key reference
  first : ∀ reference ∈ reported, concerns reference ∧
    ∃ earlier later, references = earlier ++ reference :: later ∧
      ∀ other ∈ earlier, concerns other → key other ≠ key reference

theorem ReportsFirst.eq_nil_iff {κ : Type} {key : Reference → κ}
    {before : Reference → Reference → Prop} {concerns : Reference → Prop}
    {references reported : List Reference}
    (h : ReportsFirst key before concerns references reported) :
    reported = [] ↔ ∀ reference ∈ references, ¬ concerns reference := by
  constructor
  · rintro rfl reference hmem hconcerns
    obtain ⟨first, hfirst, -⟩ := h.covers reference hmem hconcerns
    simp at hfirst
  · intro hnone
    apply List.eq_nil_iff_forall_not_mem.mpr
    intro reference hmem
    obtain ⟨hconcerns, earlier, later, hsplit, -⟩ := h.first reference hmem
    exact hnone reference (by simp [hsplit]) hconcerns

/-! The first of each key. -/

/-- The references to report of those that pass a test. -/
def firstPassing (names : Reference → List String) (test : Reference → Bool)
    (references : List Reference) : List Reference :=
  sortByNames names (distinctBy names (references.filter test))

theorem mem_of_mem_firstPassing {names : Reference → List String} {test : Reference → Bool}
    {references : List Reference} {reference : Reference}
    (h : reference ∈ firstPassing names test references) : reference ∈ references := by
  have hkept := (sortByNames_perm names _).mem_iff.mp h
  exact (List.mem_filter.mp (mem_distinctBy_imp_mem hkept)).1

theorem reportsFirst_firstPassing {κ : Type} {key : Reference → κ}
    {names : Reference → List String} {before : Reference → Reference → Prop}
    {concerns : Reference → Prop} {test : Reference → Bool}
    (hkey : ∀ left right, names left = names right ↔ key left = key right)
    (hbefore : ∀ left right, compare (names left) (names right) = .lt → before left right)
    {references : List Reference}
    (htest : ∀ reference ∈ references, test reference = true ↔ concerns reference) :
    ReportsFirst key before concerns references (firstPassing names test references) := by
  have hperm := sortByNames_perm names (distinctBy names (references.filter test))
  have hnodup := nodup_distinctBy names (references.filter test)
  refine ⟨?_, ?_, ?_, ?_⟩
  · exact (sortByNames_ascending hnodup).imp (fun h => hbefore _ _ h)
  · refine List.pairwise_map.mpr ?_
    have hnames := (hperm.map names).nodup_iff.mpr hnodup
    exact (List.pairwise_map.mp hnames).imp (fun hne heq => hne ((hkey _ _).mpr heq))
  · intro reference hmem hconcerns
    have hpasses := List.mem_filter.mpr ⟨hmem, (htest reference hmem).mpr hconcerns⟩
    obtain ⟨first, hfirst, heq⟩ := distinctBy_covers names hpasses
    exact ⟨first, hperm.mem_iff.mpr hfirst, (hkey _ _).mp heq⟩
  · intro reference hmem
    have hkept := hperm.mem_iff.mp hmem
    obtain ⟨hlisted, hpasses⟩ := List.mem_filter.mp (mem_distinctBy_imp_mem hkept)
    refine ⟨(htest reference hlisted).mp hpasses, ?_⟩
    obtain ⟨passed, others, hsplit, hpassed⟩ := first_of_mem_distinctBy hkept
    obtain ⟨earlier, rest, rfl, rfl, hrest⟩ := List.filter_eq_append_iff.mp hsplit
    obtain ⟨skipped, later, rfl, hskipped, -, -⟩ := List.filter_eq_cons_iff.mp hrest
    refine ⟨earlier ++ skipped, later, by simp, fun other hother hconcerns heq => ?_⟩
    have hlistedOther : other ∈ earlier ++ (skipped ++ reference :: later) := by
      rw [← List.append_assoc]
      exact List.mem_append_left _ hother
    have hpassesOther := (htest other hlistedOther).mpr hconcerns
    rcases List.mem_append.mp hother with hother | hother
    · exact hpassed other (List.mem_filter.mpr ⟨hother, hpassesOther⟩) ((hkey _ _).mpr heq)
    · exact hskipped other hother hpassesOther

theorem ownerKey_eq_iff (left right : Reference) :
    ownerKey left = ownerKey right ↔ left.typeName = right.typeName := by
  simp [ownerKey]

theorem ownerBefore_of_compare (left right : Reference)
    (h : compare (ownerKey left) (ownerKey right) = .lt) : OwnerBefore left right := by
  rw [ownerKey, ownerKey, compare_names_cons] at h
  rcases h with h | ⟨-, h⟩
  · exact h
  · cases h

theorem siteKey_eq_iff (left right : Reference) :
    siteKey left = siteKey right ↔ site left = site right := by
  simp only [siteKey, site, List.cons.injEq, Prod.mk.injEq]
  exact and_congr_right (fun _ => ⟨MemberHandle.orderKey_injective, congrArg _⟩)

theorem siteBefore_of_compare (left right : Reference)
    (h : compare (siteKey left) (siteKey right) = .lt) : SiteBefore left right := by
  rw [siteKey, siteKey, compare_names_cons] at h
  refine h.imp id (And.imp id fun h => ?_)
  rw [MemberHandle.before, h]
  rfl

theorem firstPassing_map {names : Reference → List String} (test : Reference → Bool)
    {image : Reference → Reference}
    (himage : ∀ reference, names (image reference) = names reference)
    (references : List Reference) :
    firstPassing names test (references.map image) =
      (firstPassing names (fun reference => test (image reference)) references).map image := by
  have hnames : (fun reference => names (image reference)) = names := funext himage
  rw [firstPassing, List.filter_map, distinctBy_map, sortByNames_map, hnames]
  rfl

/-! What the detectors keep. -/

theorem contains_checkedKinds {kind : ReferenceKind} :
    checkedKinds.contains kind = true ↔ kind ≠ .override ∧ kind ≠ .constantPoolUse := by
  cases kind <;> decide

theorem reverse_filter_cons (test : Reference → Bool) (head : Reference)
    (rest : List Reference) :
    ((head :: rest).filter test).reverse = (rest.filter test).reverse ++ [head].filter test := by
  cases hhead : test head <;> simp [hhead]

namespace MissingReferences

/-- Whether a reference is kept as one to a missing type. -/
def keepsType (known : Universe) (reference : Reference) : Bool :=
  reference.attempted && !reference.isResolved && (known.lookup reference.typeName).isNone

/-- Whether a reference is kept as one to a missing member. -/
def keepsMember (known : Universe) (reference : Reference) : Bool :=
  reference.attempted && !reference.isResolved && (known.lookup reference.typeName).isSome

theorem receive_eq (detector : MissingReferences) (reference : Reference) :
    detector.receive reference =
      { known := detector.known
        types := ([reference].filter (keepsType detector.known)) ++ detector.types
        members := ([reference].filter (keepsMember detector.known)) ++ detector.members } := by
  cases hattempted : reference.attempted <;> cases hresolved : reference.isResolved <;>
    cases howner : detector.known.lookup reference.typeName <;>
    simp [receive, keepsType, keepsMember, hattempted, hresolved, howner]

theorem foldl_receive (references : List Reference) (detector : MissingReferences) :
    references.foldl receive detector =
      { known := detector.known
        types := (references.filter (keepsType detector.known)).reverse ++ detector.types
        members :=
          (references.filter (keepsMember detector.known)).reverse ++ detector.members } := by
  induction references generalizing detector with
  | nil => rfl
  | cons head rest ih =>
      rw [List.foldl_cons, ih, receive_eq, reverse_filter_cons, reverse_filter_cons,
        List.append_assoc, List.append_assoc]

theorem problems_foldl_receive (known : Universe) (references : List Reference) :
    (references.foldl receive { known := known }).problems =
      (firstPassing ownerKey (keepsType known) references).map typeProblem ++
        (firstPassing siteKey (keepsMember known) references).map memberProblem := by
  rw [foldl_receive]
  simp [problems, firstOfEachKey, firstPassing]

end MissingReferences

namespace UnavailableMembers

/-- Whether a reference is kept. -/
def keeps (stubs : Universe) (reference : Reference) : Bool :=
  !Resolution.availableIn (some stubs) reference

theorem foldl_receive (references : List Reference) (detector : UnavailableMembers) :
    references.foldl receive detector =
      { stubs := detector.stubs
        uses := (references.filter (keeps detector.stubs)).reverse ++ detector.uses } := by
  induction references generalizing detector with
  | nil => rfl
  | cons head rest ih =>
      rw [List.foldl_cons, ih, receive]
      cases havailable : Resolution.availableIn (some detector.stubs) head <;>
        simp [keeps, havailable]

theorem problems_foldl_receive (stubs : Universe) (references : List Reference) :
    (references.foldl receive { stubs := stubs }).problems =
      (firstPassing siteKey (keeps stubs) references).map problem := by
  rw [foldl_receive]
  simp [problems, firstOfEachKey, firstPassing]

end UnavailableMembers

/-! Uncancelled analyses with both detectors. -/

namespace Analyzer

/-- The analyzer that looks for what known types and an environment do not provide. -/
def checking (known stubs : Universe) : Analyzer Detector :=
  ofDetectors [.missingFrom known, .unavailableIn stubs]

/-- The checked references of a list, settled. -/
def checked (known : Universe) (references : List Reference) : List Reference :=
  (references.map (settled known)).filter
    (fun reference => checkedKinds.contains reference.kind)

theorem foldl_receive_missing (references : List Reference) (detector : MissingReferences) :
    references.foldl Receiver.receive (Detector.missing detector) =
      .missing (references.foldl MissingReferences.receive detector) := by
  induction references generalizing detector with
  | nil => rfl
  | cons head rest ih => exact ih (detector.receive head)

theorem foldl_receive_unavailable (references : List Reference)
    (detector : UnavailableMembers) :
    references.foldl Receiver.receive (Detector.unavailable detector) =
      .unavailable (references.foldl UnavailableMembers.receive detector) := by
  induction references generalizing detector with
  | nil => rfl
  | cons head rest ih => exact ih (detector.receive head)

/-- The registrations of the two detectors. -/
def checkingRegistrations (known stubs : Universe) : List (Detector × KindSet) :=
  [(.missingFrom known, checkedKinds), (.unavailableIn stubs, checkedKinds)]

theorem given_checking (known stubs : Universe) (processed : List Reference) :
    (checkingRegistrations known stubs).map (given known processed) =
      [.missing ((checked known processed).foldl MissingReferences.receive { known := known }),
        .unavailable
          ((checked known processed).foldl UnavailableMembers.receive { stubs := stubs })] := by
  rw [← foldl_receive_missing, ← foldl_receive_unavailable]
  rfl

theorem not_asksToStop_checking (known stubs : Universe) (earlier : List Reference)
    (reference : Reference) :
    asksToStop known (checkingRegistrations known stubs) earlier reference = false := by
  have hgiven := given_checking known stubs earlier
  simp only [checkingRegistrations, List.map_cons, List.map_nil, List.cons.injEq] at hgiven
  simp only [asksToStop, checkingRegistrations, List.any_cons, List.any_nil, hgiven.1,
    hgiven.2.1]
  simp [Receiver.stopsAt, Detector.stopsNext]

/-- No reference is left out, and both detectors are given the checked ones. -/
theorem analyze_checking (known stubs : Universe) (references : List Reference) :
    let run := analyze known (checking known stubs) false references
    run.outcome = ⟨references.length, false⟩ ∧
      run.analyzer.problems =
        ((checked known references).foldl MissingReferences.receive { known := known }).problems ++
        ((checked known references).foldl UnavailableMembers.receive
          { stubs := stubs }).problems := by
  obtain ⟨processed, rest, hsplit, hrun⟩ :=
    exists_analyzed known (checkingRegistrations known stubs) false references
  have hnotTold : ¬ ToldToStop known (checkingRegistrations known stubs) false processed := by
    rintro (hstopped | ⟨earlier, reference, later, -, hasks⟩)
    · cases hstopped
    · rw [not_asksToStop_checking] at hasks
      cases hasks
  have hrest : rest = [] := Decidable.not_not.mp (fun hne => hnotTold (hrun.told hne))
  subst hrest
  rw [List.append_nil] at hsplit
  subst hsplit
  have hdetectors := hrun.detectors
  rw [given_checking] at hdetectors
  refine ⟨hrun.outcome, ?_⟩
  change (analyze known (ofRegistrations (checkingRegistrations known stubs)) false
    references).analyzer.detectors.flatMap Detector.problems = _
  rw [hdetectors]
  simp [Detector.problems]

/-! Settled references. -/

/-- A settled reference differs at most in what resolution has left. -/
theorem settled_eq_or (known : Universe) (reference : Reference) :
    settled known reference = reference ∨
      settled known reference = reference.resolvedTo (Resolution.target known reference) := by
  rw [settled, Resolution.apply]
  split
  · split
    · exact .inr rfl
    · exact .inl rfl
  · exact .inl rfl

/-- What does not read the outcome of resolution is the same for the settled reference. -/
theorem settled_congr {β : Type} (view : Reference → β)
    (hview : ∀ reference handle, view (reference.resolvedTo handle) = view reference)
    (known : Universe) (reference : Reference) :
    view (settled known reference) = view reference := by
  obtain heq | heq := settled_eq_or known reference
  · rw [heq]
  · rw [heq, hview]

/-- The references reported of those that pass a test once they are settled. -/
def reported (known : Universe) (names : Reference → List String) (test : Reference → Bool)
    (references : List Reference) : List Reference :=
  firstPassing names (fun reference =>
    test (settled known reference) && checkedKinds.contains reference.kind) references

theorem firstPassing_checked {names : Reference → List String} (test : Reference → Bool)
    (hnames : ∀ reference handle, names (reference.resolvedTo handle) = names reference)
    (known : Universe) (references : List Reference) :
    firstPassing names test (checked known references) =
      (reported known names test references).map (settled known) := by
  have hpassing : firstPassing names test (checked known references) =
      firstPassing names (fun reference => test reference && checkedKinds.contains reference.kind)
        (references.map (settled known)) := by
    rw [firstPassing, checked, List.filter_filter, firstPassing]
  rw [hpassing, firstPassing_map _ (settled_congr names hnames known), reported]
  simp only [settled_kind]

/-- The problems are those of the reported references, settled or not. -/
theorem problems_checking (known stubs : Universe) (references : List Reference) :
    (analyze known (checking known stubs) false references).analyzer.problems =
      (reported known ownerKey (MissingReferences.keepsType known) references).map
          MissingReferences.typeProblem ++
        (reported known siteKey (MissingReferences.keepsMember known) references).map
          MissingReferences.memberProblem ++
        (reported known siteKey (UnavailableMembers.keeps stubs) references).map
          UnavailableMembers.problem := by
  have hproblem : ∀ problem : Reference → Problem,
      (∀ reference handle, problem (reference.resolvedTo handle) = problem reference) →
      ∀ kept : List Reference, (kept.map (settled known)).map problem = kept.map problem := by
    intro problem hview kept
    rw [List.map_map]
    exact List.map_congr_left (fun reference _ => settled_congr problem hview known reference)
  rw [(analyze_checking known stubs references).2, MissingReferences.problems_foldl_receive,
    UnavailableMembers.problems_foldl_receive, firstPassing_checked _ (fun _ _ => rfl),
    firstPassing_checked _ (fun _ _ => rfl), firstPassing_checked _ (fun _ _ => rfl),
    hproblem _ (fun _ _ => rfl), hproblem _ (fun _ _ => rfl), hproblem _ (fun _ _ => rfl)]

end Analyzer

open Analyzer

/-- A reference that resolution may be attempted for and has not been. -/
structure IsFresh (reference : Reference) : Prop where
  resolvable : reference.resolvable = true
  unattempted : reference.attempted = false

theorem IsFresh.settled_eq {reference : Reference} (h : IsFresh reference) (known : Universe) :
    settled known reference = reference.resolvedTo (Resolution.target known reference) := by
  simp [settled, Resolution.apply, h.resolvable, h.unattempted]

/-- Nothing of an unknown owner is found. -/
theorem Resolution.target_eq_none {known : Universe} {reference : Reference}
    (h : known.lookup reference.typeName = none) : target known reference = none := by
  have hfind := Universe.lookup_eq_none_iff.mp h
  rw [target]
  split
  · rw [h]
    rfl
  · split
    · rfl
    · rw [fieldTarget, Universe.findField, hfind]
  · split
    · have hpolymorphic : ∀ kind name descriptor,
          polymorphicTarget known kind reference.typeName name descriptor = none := by
        intro kind name descriptor
        rw [polymorphicTarget, h]
        split <;> rfl
      rw [methodTarget, hpolymorphic, Universe.findMethod, hfind]
    · rfl

theorem ownerMissing_iff (known : Universe) {reference : Reference} (h : IsFresh reference) :
    (MissingReferences.keepsType known (settled known reference) &&
        checkedKinds.contains reference.kind) = true ↔ OwnerMissing known reference := by
  rw [h.settled_eq, Bool.and_eq_true, contains_checkedKinds]
  constructor
  · rintro ⟨hkept, hchecked⟩
    have howner := (Bool.and_eq_true_iff.mp hkept).2
    exact ⟨hchecked, Option.isNone_iff_eq_none.mp howner⟩
  · rintro ⟨hchecked, howner⟩
    refine ⟨?_, hchecked⟩
    simp [MissingReferences.keepsType, Reference.resolvedTo, Reference.isResolved, howner,
      Resolution.target_eq_none howner]

theorem memberMissing_iff (known : Universe) {reference : Reference} (h : IsFresh reference) :
    (MissingReferences.keepsMember known (settled known reference) &&
        checkedKinds.contains reference.kind) = true ↔ MemberMissing known reference := by
  have hkept : MissingReferences.keepsMember known (settled known reference) = true ↔
      (∃ owner, known.lookup reference.typeName = some owner) ∧
        Resolution.target known reference = none := by
    rw [h.settled_eq, and_comm, ← Option.isSome_iff_exists]
    simp [MissingReferences.keepsMember, Reference.resolvedTo, Reference.isResolved]
  rw [Bool.and_eq_true, contains_checkedKinds, hkept]
  constructor
  · rintro ⟨⟨howner, htarget⟩, hchecked⟩
    exact ⟨hchecked, howner, htarget⟩
  · rintro ⟨hchecked, howner, htarget⟩
    exact ⟨⟨howner, htarget⟩, hchecked⟩

theorem not_availableIn_iff {stubs : Universe} {reference : Reference} :
    Resolution.availableIn (some stubs) reference = false ↔
      (reference.target = .field ∨ reference.target = .method) ∧
        (∃ owner, stubs.lookup reference.typeName = some owner) ∧
          Resolution.target stubs reference = none := by
  cases howner : stubs.lookup reference.typeName <;> cases hsort : reference.target <;>
    simp [Resolution.availableIn, howner, hsort]

theorem memberUnavailable_iff (known stubs : Universe) (reference : Reference) :
    (UnavailableMembers.keeps stubs (settled known reference) &&
        checkedKinds.contains reference.kind) = true ↔ MemberUnavailable stubs reference := by
  have havailable := settled_congr (Resolution.availableIn (some stubs)) (fun _ _ => rfl)
    known reference
  rw [UnavailableMembers.keeps, havailable, Bool.and_eq_true, contains_checkedKinds,
    Bool.not_eq_true', not_availableIn_iff]
  constructor
  · rintro ⟨⟨hsort, howner, htarget⟩, hchecked⟩
    exact ⟨hchecked, hsort, howner, htarget⟩
  · rintro ⟨hchecked, hsort, howner, htarget⟩
    exact ⟨⟨hsort, howner, htarget⟩, hchecked⟩

/-- The problems of an uncancelled analysis of fresh references are those of the
unsatisfied references: unknown owners, then members that known owners lack, then members
that the stubs lack. -/
theorem problems_of_unsatisfied (known stubs : Universe) (references : List Reference)
    (hfresh : ∀ reference ∈ references, IsFresh reference) :
    let run := analyze known (checking known stubs) false references
    run.outcome = ⟨references.length, false⟩ ∧
      (∃ types members uses,
        run.analyzer.problems = types.map MissingReferences.typeProblem ++
          members.map MissingReferences.memberProblem ++ uses.map UnavailableMembers.problem ∧
        ReportsFirst Reference.typeName OwnerBefore (OwnerMissing known) references types ∧
        ReportsFirst site SiteBefore (MemberMissing known) references members ∧
        ReportsFirst site SiteBefore (MemberUnavailable stubs) references uses) ∧
      (run.analyzer.problems = [] ↔ ∀ reference ∈ references,
        ¬ OwnerMissing known reference ∧ ¬ MemberMissing known reference ∧
          ¬ MemberUnavailable stubs reference) := by
  intro run
  have htypes : ReportsFirst Reference.typeName OwnerBefore (OwnerMissing known) references
      (reported known ownerKey (MissingReferences.keepsType known) references) :=
    reportsFirst_firstPassing ownerKey_eq_iff ownerBefore_of_compare
      (fun reference hmem => ownerMissing_iff known (hfresh reference hmem))
  have hmembers : ReportsFirst site SiteBefore (MemberMissing known) references
      (reported known siteKey (MissingReferences.keepsMember known) references) :=
    reportsFirst_firstPassing siteKey_eq_iff siteBefore_of_compare
      (fun reference hmem => memberMissing_iff known (hfresh reference hmem))
  have huses : ReportsFirst site SiteBefore (MemberUnavailable stubs) references
      (reported known siteKey (UnavailableMembers.keeps stubs) references) :=
    reportsFirst_firstPassing siteKey_eq_iff siteBefore_of_compare
      (fun reference _ => memberUnavailable_iff known stubs reference)
  have hproblems := problems_checking known stubs references
  refine ⟨(analyze_checking known stubs references).1,
    ⟨_, _, _, hproblems, htypes, hmembers, huses⟩, ?_⟩
  rw [show run.analyzer.problems = _ from hproblems]
  simp only [List.append_eq_nil_iff, List.map_eq_nil_iff, htypes.eq_nil_iff,
    hmembers.eq_nil_iff, huses.eq_nil_iff]
  constructor
  · rintro ⟨⟨howners, hmembers⟩, huses⟩ reference hmem
    exact ⟨howners reference hmem, hmembers reference hmem, huses reference hmem⟩
  · intro hnone
    exact ⟨⟨fun reference hmem => (hnone reference hmem).1,
      fun reference hmem => (hnone reference hmem).2.1⟩,
      fun reference hmem => (hnone reference hmem).2.2⟩

/-- What a result tells of the reference that it is about: the member that the reference is in,
and the line where that is known. -/
structure Problem.TellsOf (problem : Problem) (reference : Reference) : Prop where
  location : problem.location = Location.ofMember reference.source
  line : ∃ message, problem.message = messageAtLine message reference.line

theorem Problem.tellsOf_ofReference (rule : Rule) (message : String) (reference : Reference) :
    (Problem.ofReference rule message reference).TellsOf reference :=
  ⟨rfl, message, rfl⟩

/-- The three results that a reference may have tell of it. -/
theorem tellsOf_results (reference : Reference) :
    (MissingReferences.typeProblem reference).TellsOf reference ∧
      (MissingReferences.memberProblem reference).TellsOf reference ∧
      (UnavailableMembers.problem reference).TellsOf reference :=
  ⟨Problem.tellsOf_ofReference _ _ _, Problem.tellsOf_ofReference _ _ _,
    Problem.tellsOf_ofReference _ _ _⟩

/-- Every result of an analysis tells of one of the references. -/
theorem exists_tellsOf_of_mem_problems (known stubs : Universe) (references : List Reference) :
    ∀ problem ∈ (analyze known (checking known stubs) false references).analyzer.problems,
      ∃ reference ∈ references, problem.TellsOf reference := by
  intro problem hproblem
  rw [problems_checking] at hproblem
  rcases List.mem_append.mp hproblem with hmissing | huse
  · rcases List.mem_append.mp hmissing with htype | hmember
    · obtain ⟨reference, hmem, rfl⟩ := List.mem_map.mp htype
      exact ⟨reference, mem_of_mem_firstPassing hmem, (tellsOf_results reference).1⟩
    · obtain ⟨reference, hmem, rfl⟩ := List.mem_map.mp hmember
      exact ⟨reference, mem_of_mem_firstPassing hmem, (tellsOf_results reference).2.1⟩
  · obtain ⟨reference, hmem, rfl⟩ := List.mem_map.mp huse
    exact ⟨reference, mem_of_mem_firstPassing hmem, (tellsOf_results reference).2.2⟩

/-! References that are not satisfied, each for another reason. -/

/-- A class without super types, with some fields. -/
def lonelyClass (name : String) (fields : List FieldDecl) : ClassDecl where
  name := name
  fields := fields

/-- A class without super types has no other fields than its own. -/
theorem Resolution.fieldTarget_lonelyClass {known : Universe} {owner name : String}
    (h : known.lookup owner = some (lonelyClass name [])) (field : String) :
    fieldTarget known owner field = none := by
  obtain ⟨type, htype, hdecl⟩ := Universe.lookup_eq_some_iff.mp h
  have hnone : known.findField owner field = none := by
    simp [Universe.findField, htype, Universe.superClassChain, Universe.superChain, hdecl,
      lonelyClass, ClassDecl.findField]
  rw [fieldTarget, hnone]

/-- Two calls of a type that nothing knows, on different lines, and an override in it; then two
reads of a field that its class lacks, and one of a field that the stubs of its class lack. -/
def strayReferences : List Reference :=
  [{ kind := .override, source := .method "a.A" "run" "()V", typeName := "gone.Base",
     memberName := some "run", signature := some "()V", line := 3 },
   { kind := .staticCall, source := .method "a.A" "run" "()V", typeName := "gone.Tool",
     memberName := some "go", signature := some "()V", line := 7 },
   { kind := .staticCall, source := .method "a.A" "stop" "()V", typeName := "gone.Tool",
     memberName := some "end", signature := some "()V", line := 5 },
   { kind := .getField, source := .method "a.A" "run" "()V", typeName := "lib.Tool",
     memberName := some "mode", line := 9 },
   { kind := .getField, source := .method "a.A" "run" "()V", typeName := "lib.Tool",
     memberName := some "mode", line := 8 },
   { kind := .getField, source := .method "a.A" "stop" "()V", typeName := "sys.Text",
     memberName := some "size", line := 6 }]

/-- The known types, of which one has the field that the stubs below lack. -/
def strayKnown : Universe :=
  .ofList [lonelyClass "lib/Tool" [], lonelyClass "sys/Text" [{ name := "size", descriptor := "I" }]]

def strayStubs : Universe := .ofList [lonelyClass "sys/Text" []]

/-- The call is reported as one of an unknown owner, the read in the class as one of a missing
field, and the read of the stubs' field as one that they lack. -/
theorem strayReferences_reported : (∀ reference ∈ strayReferences, IsFresh reference) ∧
    ∃ types members uses : List Reference,
      (analyze strayKnown (checking strayKnown strayStubs) false
          strayReferences).analyzer.problems =
        types.map MissingReferences.typeProblem ++ members.map MissingReferences.memberProblem ++
          uses.map UnavailableMembers.problem ∧
      (∃ first ∈ types, first.typeName = "gone.Tool") ∧
      (∃ first ∈ members, first.targetText = "lib.Tool#mode") ∧
      ∃ first ∈ uses, first.targetText = "sys.Text#size" := by
  have hfresh : ∀ reference ∈ strayReferences, IsFresh reference := by
    intro reference hmem
    simp only [strayReferences, List.mem_cons, List.not_mem_nil, or_false] at hmem
    obtain rfl | rfl | rfl | rfl | rfl | rfl := hmem <;> exact ⟨rfl, rfl⟩
  have hgone : strayKnown.lookup "gone.Tool" = none := by
    rw [strayKnown, Universe.lookup_ofList]
    decide +kernel
  have htool : strayKnown.lookup "lib.Tool" = some (lonelyClass "lib/Tool" []) := by
    rw [strayKnown, Universe.lookup_ofList]
    decide +kernel
  have htext : strayStubs.lookup "sys.Text" = some (lonelyClass "sys/Text" []) := by
    rw [strayStubs, Universe.lookup_ofList]
    decide +kernel
  obtain ⟨-, ⟨types, members, uses, hproblems, htypes, hmembers, huses⟩, -⟩ :=
    problems_of_unsatisfied strayKnown strayStubs strayReferences hfresh
  have hcall : strayReferences[1] ∈ strayReferences := List.getElem_mem _
  have hread : strayReferences[3] ∈ strayReferences := List.getElem_mem _
  have huse : strayReferences[5] ∈ strayReferences := List.getElem_mem _
  refine ⟨hfresh, types, members, uses, hproblems, ?_, ?_, ?_⟩
  · exact htypes.covers _ hcall ⟨⟨by decide, by decide⟩, hgone⟩
  · obtain ⟨first, hfirst, hsite⟩ := hmembers.covers _ hread
      ⟨⟨by decide, by decide⟩, ⟨_, htool⟩, Resolution.fieldTarget_lonelyClass htool "mode"⟩
    exact ⟨first, hfirst, congrArg Prod.fst hsite⟩
  · obtain ⟨first, hfirst, hsite⟩ := huses.covers _ huse
      ⟨⟨by decide, by decide⟩, .inl rfl, ⟨_, htext⟩,
        Resolution.fieldTarget_lonelyClass htext "size"⟩
    exact ⟨first, hfirst, congrArg Prod.fst hsite⟩

example : (analyze (.ofList []) (checking (.ofList []) (.ofList [])) false
      (strayReferences.take 3)).analyzer.problems =
    [⟨"MISSING_REFERENCE", "Type not found: gone.Tool (line 7)",
      ⟨"a.A.run()V", "function"⟩⟩] := by
  cbv

end Linkage
