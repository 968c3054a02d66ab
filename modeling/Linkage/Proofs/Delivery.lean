import Linkage.Analysis.Analyzer
/-
Deliveries of an analysis.  An analyzer is built by registrations, each of a
detector for a set of kinds; the analysis goes through a list of references and
may be told to stop, beforehand or by any detector.  The references that it
processes are a prefix of the list: every detector is given those of its kinds,
in order, and no reference is left out before the analysis is told to stop.
-/

namespace Linkage

namespace Analyzer

variable {δ : Type}

/-- The analyzer after registrations in order. -/
def ofRegistrations (registrations : List (δ × KindSet)) : Analyzer δ :=
  registrations.foldl
    (fun analyzer registration => analyzer.register registration.1 registration.2) {}

/-- The positions of the registrations for a kind, in order. -/
def positionsFor (registrations : List (δ × KindSet)) (kind : ReferenceKind) : List Nat :=
  (registrations.zipIdx.filter (fun item => item.1.2.contains kind)).map Prod.snd

/-- A processed reference: resolved if it can be and that was not attempted before,
otherwise as it was. -/
def settled (known : Universe) (reference : Reference) : Reference :=
  if reference.resolvable && !reference.attempted then Resolution.apply known reference
  else reference

/-- A registered detector after it was given the processed references of its kinds. -/
def given [Receiver δ] (known : Universe) (processed : List Reference)
    (registration : δ × KindSet) : δ :=
  ((processed.map (settled known)).filter
    (fun reference => registration.2.contains reference.kind)).foldl
      Receiver.receive registration.1

/-- Whether a detector asks to stop when it is given a reference after others. -/
def asksToStop [Receiver δ] (known : Universe) (registrations : List (δ × KindSet))
    (earlier : List Reference) (reference : Reference) : Bool :=
  registrations.any (fun registration =>
    registration.2.contains reference.kind
      && Receiver.stopsAt (given known earlier registration) (settled known reference))

/-- An analysis is told to stop beforehand or at one of the processed references. -/
def ToldToStop [Receiver δ] (known : Universe) (registrations : List (δ × KindSet))
    (stopped : Bool) (processed : List Reference) : Prop :=
  stopped = true ∨ ∃ earlier reference later, processed = earlier ++ reference :: later ∧
    asksToStop known registrations earlier reference = true

/-- What an analysis leaves behind that has processed some references and left out the
rest. -/
structure Analyzed [Receiver δ] (known : Universe) (registrations : List (δ × KindSet))
    (stopped : Bool) (processed rest : List Reference) (run : Run δ) : Prop where
  /-- No reference is processed once the analysis is told to stop. -/
  inTime : ∀ before after, processed = before ++ after → after ≠ [] →
    ¬ ToldToStop known registrations stopped before
  /-- No reference is left out unless the analysis is told to stop. -/
  told : rest ≠ [] → ToldToStop known registrations stopped processed
  stopped_iff : run.stopped = true ↔ ToldToStop known registrations stopped processed
  outcome : run.outcome = ⟨processed.length, !rest.isEmpty⟩
  references : run.references.toList = processed.map (settled known) ++ rest
  /-- Every reference goes to the detectors of its kind, in the order of registration. -/
  deliveries : run.deliveries.toList = processed.flatMap (fun reference =>
    (positionsFor registrations reference.kind).map (⟨·, settled known reference⟩))
  detectors : run.analyzer.detectors = registrations.map (given known processed)
  routes : ∀ kind, run.analyzer.route kind = positionsFor registrations kind

/-! Registration. -/

theorem route_register (analyzer : Analyzer δ) (detector : δ) (kinds : KindSet)
    (kind : ReferenceKind) :
    (analyzer.register detector kinds).route kind =
      if kinds.contains kind then analyzer.route kind ++ [analyzer.detectors.length]
      else analyzer.route kind := by
  simp [route, register, KindSet.contains, BitVec.getLsbD_eq_getElem]

theorem positionsFor_append (registrations : List (δ × KindSet))
    (registration : δ × KindSet) (kind : ReferenceKind) :
    positionsFor (registrations ++ [registration]) kind =
      if registration.2.contains kind then
        positionsFor registrations kind ++ [registrations.length]
      else positionsFor registrations kind := by
  rw [positionsFor, List.zipIdx_append, List.filter_append, List.map_append]
  by_cases hkind : registration.2.contains kind <;> simp [positionsFor, hkind]

/-- An analyzer whose detectors and routes are those of some registrations. -/
def Registered (analyzer : Analyzer δ) (registrations : List (δ × KindSet)) : Prop :=
  analyzer.detectors = registrations.map Prod.fst ∧
    ∀ kind, analyzer.route kind = positionsFor registrations kind

theorem Registered.register {analyzer : Analyzer δ} {registrations : List (δ × KindSet)}
    (h : analyzer.Registered registrations) (registration : δ × KindSet) :
    (analyzer.register registration.1 registration.2).Registered
      (registrations ++ [registration]) := by
  obtain ⟨hdetectors, hroutes⟩ := h
  refine ⟨?_, fun kind => ?_⟩
  · change analyzer.detectors ++ [registration.1] = _
    rw [hdetectors, List.map_append]
    rfl
  · have hlength : analyzer.detectors.length = registrations.length := by
      rw [hdetectors, List.length_map]
    rw [route_register, positionsFor_append, hroutes kind, hlength]

theorem Registered.foldl_register {analyzer : Analyzer δ}
    {registrations : List (δ × KindSet)} (h : analyzer.Registered registrations)
    (others : List (δ × KindSet)) :
    (others.foldl (fun analyzer registration =>
        analyzer.register registration.1 registration.2) analyzer).Registered
      (registrations ++ others) := by
  induction others generalizing analyzer registrations with
  | nil => simpa using h
  | cons registration rest ih =>
      have hstep := ih (h.register registration)
      rwa [List.append_assoc, List.singleton_append] at hstep

theorem registered_ofRegistrations (registrations : List (δ × KindSet)) :
    (ofRegistrations registrations).Registered registrations := by
  have hempty : ({} : Analyzer δ).Registered [] :=
    ⟨rfl, fun kind => by simp [route, positionsFor]⟩
  exact hempty.foldl_register registrations

/-! One reference. -/

@[simp] theorem settled_kind (known : Universe) (reference : Reference) :
    (settled known reference).kind = reference.kind := by
  rw [settled, Resolution.apply]
  split <;> (try split) <;> rfl

theorem resolveOnce_eq_settled (known : Universe) (reference : Reference) :
    resolveOnce known reference = settled known reference := by
  cases hresolvable : reference.resolvable <;> cases hattempted : reference.attempted <;>
    simp [resolveOnce, settled, Resolution.apply, hresolvable, hattempted]

/-- Settling a reference twice changes nothing more. -/
theorem settled_settled (known : Universe) (reference : Reference) :
    settled known (settled known reference) = settled known reference := by
  cases hresolvable : reference.resolvable <;> cases hattempted : reference.attempted <;>
    simp [settled, Resolution.apply, Reference.resolvedTo, hresolvable, hattempted]

variable [Receiver δ]

/-- A round of deliveries reaches the wanting detectors and no other, whether or not one
of them asks to stop. -/
theorem foldl_deliverOne {ρ : Type} (reference : Reference) (state : ρ → δ)
    (wants : ρ → Bool) (pending : List ρ) (before : List δ) (stopped : Bool) :
    (((pending.zipIdx before.length).filter (fun item => wants item.1)).map
        Prod.snd).foldl (deliverOne reference) ⟨before ++ pending.map state, stopped⟩ =
      ⟨before ++ pending.map (fun item =>
          if wants item then Receiver.receive (state item) reference else state item),
        stopped || pending.any (fun item =>
          wants item && Receiver.stopsAt (state item) reference)⟩ := by
  induction pending generalizing before stopped with
  | nil => simp
  | cons item rest ih =>
      by_cases hwants : wants item = true
      · have hstep : deliverOne reference ⟨before ++ state item :: rest.map state, stopped⟩
            before.length =
              ⟨(before ++ [Receiver.receive (state item) reference]) ++ rest.map state,
                stopped || Receiver.stopsAt (state item) reference⟩ := by
          simp [deliverOne]
        have hrest := ih (before ++ [Receiver.receive (state item) reference])
          (stopped || Receiver.stopsAt (state item) reference)
        rw [List.length_append, List.length_singleton] at hrest
        rw [List.zipIdx_cons, List.filter_cons_of_pos (by simpa using hwants)]
        simp only [List.map_cons, List.foldl_cons, hstep, hrest]
        simp [hwants, Bool.or_assoc]
      · have hrest := ih (before ++ [state item]) stopped
        rw [List.length_append, List.length_singleton] at hrest
        rw [List.zipIdx_cons, List.filter_cons_of_neg (by simpa using hwants)]
        simpa [hwants] using hrest

theorem given_append (known : Universe) (processed : List Reference)
    (reference : Reference) (registration : δ × KindSet) :
    given known (processed ++ [reference]) registration =
      if registration.2.contains reference.kind then
        Receiver.receive (given known processed registration) (settled known reference)
      else given known processed registration := by
  by_cases hkind : registration.2.contains reference.kind <;>
    simp [given, List.filter_append, hkind]

/-- One dispatch gives a reference to the detectors registered for its kind. -/
theorem dispatch_given {known : Universe} {registrations : List (δ × KindSet)}
    {processed : List Reference} {analyzer : Analyzer δ} (reference : Reference)
    (hdetectors : analyzer.detectors = registrations.map (given known processed))
    (hroutes : ∀ kind, analyzer.route kind = positionsFor registrations kind) :
    analyzer.dispatch false (settled known reference) =
      ({ analyzer with
          detectors := registrations.map (given known (processed ++ [reference])) },
        asksToStop known registrations processed reference) := by
  have hround := foldl_deliverOne (settled known reference) (given known processed)
    (fun registration => registration.2.contains reference.kind) registrations [] false
  simp only [List.length_nil, List.nil_append, Bool.false_or] at hround
  have hgiven : registrations.map (given known (processed ++ [reference])) =
      registrations.map (fun registration =>
        if registration.2.contains reference.kind then
          Receiver.receive (given known processed registration) (settled known reference)
        else given known processed registration) :=
    List.map_congr_left (fun registration _ =>
      given_append known processed reference registration)
  rw [dispatch, hroutes, hdetectors, settled_kind, positionsFor, hround, hgiven]
  rfl

theorem toldToStop_append {known : Universe} {registrations : List (δ × KindSet)}
    {stopped : Bool} {processed : List Reference} {reference : Reference} :
    ToldToStop known registrations stopped (processed ++ [reference]) ↔
      ToldToStop known registrations stopped processed ∨
        asksToStop known registrations processed reference = true := by
  constructor
  · rintro (hstopped | ⟨earlier, other, later, hsplit, hasks⟩)
    · exact .inl (.inl hstopped)
    · rcases List.eq_nil_or_concat later with rfl | ⟨later, last, rfl⟩
      · obtain ⟨rfl, heq⟩ := List.append_inj' hsplit rfl
        rw [List.singleton_inj] at heq
        subst heq
        exact .inr hasks
      · rw [List.concat_eq_append, ← List.cons_append, ← List.append_assoc] at hsplit
        obtain ⟨rfl, _⟩ := List.append_inj' hsplit rfl
        exact .inl (.inr ⟨earlier, other, later, rfl, hasks⟩)
  · rintro ((hstopped | ⟨earlier, other, later, rfl, hasks⟩) | hasks)
    · exact .inl hstopped
    · exact .inr ⟨earlier, other, later ++ [reference], by simp, hasks⟩
    · exact .inr ⟨processed, reference, [], rfl, hasks⟩

/-! Whole runs. -/

/-- A run that was not told to stop has left nothing out. -/
theorem Analyzed.rest_eq_nil {known : Universe} {registrations : List (δ × KindSet)}
    {stopped : Bool} {processed rest : List Reference} {run : Run δ}
    (h : Analyzed known registrations stopped processed rest run)
    (hstopped : run.stopped = false) : rest = [] := by
  by_cases hrest : rest = []
  · exact hrest
  · have htold := h.stopped_iff.mpr (h.told hrest)
    rw [hstopped] at htold
    exact absurd htold (by simp)

/-- Once a run is told to stop, the next reference is left out. -/
theorem Analyzed.leaveOut {known : Universe} {registrations : List (δ × KindSet)}
    {stopped : Bool} {processed rest : List Reference} {run : Run δ}
    (h : Analyzed known registrations stopped processed rest run)
    (hstopped : run.stopped = true) (reference : Reference) :
    Analyzed known registrations stopped processed (rest ++ [reference])
      (run.advance known reference) := by
  have hstep : run.advance known reference =
      { run with
        references := run.references.push reference
        outcome := { run.outcome with cancelled := true } } := by
    simp [Run.advance, hstopped]
  rw [hstep]
  refine ⟨h.inTime, fun _ => h.stopped_iff.mp hstopped, h.stopped_iff, ?_, ?_,
    h.deliveries, h.detectors, h.routes⟩
  · simp [h.outcome]
  · simp [h.references]

/-- Until a run is told to stop, the next reference is processed. -/
theorem Analyzed.process {known : Universe} {registrations : List (δ × KindSet)}
    {stopped : Bool} {processed : List Reference} {run : Run δ}
    (h : Analyzed known registrations stopped processed [] run)
    (hstopped : run.stopped = false) (reference : Reference) :
    Analyzed known registrations stopped (processed ++ [reference]) []
      (run.advance known reference) := by
  have hdispatch := dispatch_given reference h.detectors h.routes
  have hnotTold : ¬ ToldToStop known registrations stopped processed := by
    rw [← h.stopped_iff, hstopped]
    simp
  have hstep : run.advance known reference =
      { analyzer := { run.analyzer with
          detectors := registrations.map (given known (processed ++ [reference])) }
        references := run.references.push (settled known reference)
        outcome := { run.outcome with processed := run.outcome.processed + 1 }
        deliveries := run.deliveries ++ run.analyzer.deliveries (settled known reference)
        stopped := asksToStop known registrations processed reference } := by
    simp only [Run.advance, hstopped, resolveOnce_eq_settled, hdispatch]
    rfl
  rw [hstep]
  refine ⟨?_, by simp, ?_, ?_, ?_, ?_, rfl, h.routes⟩
  · intro before after hsplit hafter
    rcases List.eq_nil_or_concat after with rfl | ⟨after, last, rfl⟩
    · exact absurd rfl hafter
    · rw [List.concat_eq_append, ← List.append_assoc] at hsplit
      obtain ⟨rfl, _⟩ := List.append_inj' hsplit rfl
      intro htold
      by_cases hempty : after = []
      · subst hempty
        rw [List.append_nil] at hnotTold
        exact hnotTold htold
      · exact h.inTime before after rfl hempty htold
  · rw [toldToStop_append]
    simp [hnotTold]
  · simp [h.outcome]
  · simp [h.references]
  · simp [h.deliveries, Analyzer.deliveries, h.routes]

theorem Analyzed.foldl_advance {known : Universe} {registrations : List (δ × KindSet)}
    {stopped : Bool} {processed rest : List Reference} {run : Run δ}
    (h : Analyzed known registrations stopped processed rest run)
    (references : List Reference) :
    ∃ processed' rest', processed ++ rest ++ references = processed' ++ rest' ∧
      Analyzed known registrations stopped processed' rest'
        (references.foldl (Run.advance known) run) := by
  induction references generalizing processed rest run with
  | nil => exact ⟨processed, rest, by simp, h⟩
  | cons reference references ih =>
      cases hstopped : run.stopped with
      | true =>
          obtain ⟨processed', rest', hsplit, hrun⟩ := ih (h.leaveOut hstopped reference)
          exact ⟨processed', rest', by simpa using hsplit, hrun⟩
      | false =>
          have hrest := h.rest_eq_nil hstopped
          subst hrest
          obtain ⟨processed', rest', hsplit, hrun⟩ := ih (h.process hstopped reference)
          exact ⟨processed', rest', by simpa using hsplit, hrun⟩

/-- An analysis has processed a prefix of its references. -/
theorem exists_analyzed (known : Universe) (registrations : List (δ × KindSet))
    (stopped : Bool) (references : List Reference) :
    ∃ processed rest, references = processed ++ rest ∧
      Analyzed known registrations stopped processed rest
        (analyze known (ofRegistrations registrations) stopped references) := by
  obtain ⟨hdetectors, hroutes⟩ := registered_ofRegistrations registrations
  have hstart : Analyzed known registrations stopped [] []
      { analyzer := ofRegistrations registrations, stopped } := by
    refine ⟨?_, by simp, ?_, rfl, rfl, rfl, ?_, hroutes⟩
    · intro before after hsplit hafter
      exact absurd (List.append_eq_nil_iff.mp hsplit.symm).2 hafter
    · simp [ToldToStop]
    · rw [hdetectors]
      exact List.map_congr_left (fun registration _ => rfl)
  exact hstart.foldl_advance references

/-! Analyses of any analyzer, run to the end. -/

theorem foldl_advance_cancelled (known : Universe) (references : List Reference)
    {run : Run δ} (h : run.outcome.cancelled = true) :
    (references.foldl (Run.advance known) run).outcome.cancelled = true := by
  induction references generalizing run with
  | nil => exact h
  | cons reference rest ih =>
      apply ih
      rw [Run.advance]
      split
      · rfl
      · exact h

theorem foldl_advance_references (known : Universe) (references : List Reference)
    {run : Run δ}
    (h : (references.foldl (Run.advance known) run).outcome.cancelled = false) :
    (references.foldl (Run.advance known) run).references.toList =
      run.references.toList ++ references.map (settled known) := by
  induction references generalizing run with
  | nil => simp
  | cons reference rest ih =>
      rw [List.foldl_cons] at h ⊢
      rw [ih h]
      cases hstopped : run.stopped with
      | true =>
          have hcut : (run.advance known reference).outcome.cancelled = true := by
            simp [Run.advance, hstopped]
          rw [foldl_advance_cancelled known rest hcut] at h
          exact absurd h (by simp)
      | false => simp [Run.advance, hstopped, resolveOnce_eq_settled]

/-- An analysis that is not cut short settles every reference. -/
theorem analyze_references {known : Universe} {analyzer : Analyzer δ} {stopped : Bool}
    {references : List Reference}
    (h : (analyze known analyzer stopped references).outcome.cancelled = false) :
    (analyze known analyzer stopped references).references.toList =
      references.map (settled known) := by
  simpa [analyze] using foldl_advance_references known references h

/-- Every sequence of registrations, every list of references and every moment at which
the analysis is told to stop: a prefix of the list is processed and delivered, the rest is
left as it was, and a further analysis that is not cut short leaves the references as
one such analysis of the original list does. -/
theorem analyze_prefix_delivered (known : Universe) (registrations : List (δ × KindSet))
    (stopped : Bool) (references : List Reference) :
    ∃ processed rest, references = processed ++ rest ∧
      Analyzed known registrations stopped processed rest
        (analyze known (ofRegistrations registrations) stopped references) ∧
      ∀ later once : Analyzer δ,
        let left := (analyze known (ofRegistrations registrations) stopped references).references
        (analyze known later false left.toList).outcome.cancelled = false →
        (analyze known once false references).outcome.cancelled = false →
        (analyze known later false left.toList).references =
          (analyze known once false references).references := by
  obtain ⟨processed, rest, hsplit, hrun⟩ :=
    exists_analyzed known registrations stopped references
  refine ⟨processed, rest, hsplit, hrun, ?_⟩
  intro later once left hlater honce
  have htwice : left.toList.map (settled known) = references.map (settled known) := by
    rw [hrun.references, hsplit]
    simp [settled_settled]
  apply Array.toList_inj.mp
  rw [analyze_references hlater, analyze_references honce, htwice]

end Analyzer

end Linkage
