import Linkage.Resolution
import Mathlib.Data.List.Induction
/-
Resolution of a list of references in parallel.  Every reference has a worker, which
reads the cancellation flag once and, if it is not set, resolves its reference and then
increments the counter.  The workers take their steps in any order, and the flag may be
set at any moment.  Whatever the schedule, a reference is untouched or as its own
resolution leaves it, and the counter tells on how many of them resolution ran.
-/

namespace Linkage

/-- How far the worker of a reference has got. -/
inductive WorkerStage where
  | waiting
  /-- The flag was set when the worker read it. -/
  | passedOver
  | admitted
  | resolved
  | counted
  deriving DecidableEq, Repr

namespace WorkerStage

/-- Whether resolution ran on the reference. -/
def ran : WorkerStage → Bool
  | .waiting | .passedOver | .admitted => false
  | .resolved | .counted => true

/-- Whether the worker has no step left. -/
def finished : WorkerStage → Bool
  | .waiting | .admitted | .resolved => false
  | .passedOver | .counted => true

/-- How many steps the worker has left at most. -/
def remaining : WorkerStage → Nat
  | .waiting => 3
  | .admitted => 2
  | .resolved => 1
  | .passedOver | .counted => 0

end WorkerStage

/-- A reference with the stage of its worker. -/
structure PassWorker where
  reference : Reference
  stage : WorkerStage := .waiting
  deriving DecidableEq, Repr

/-- What happens during a pass: the flag is set, or the worker at an index takes a step. -/
inductive PassEvent where
  | cancel
  | read (index : Nat)
  | resolve (index : Nat)
  | count (index : Nat)
  deriving DecidableEq, Repr

/-- A pass in progress. -/
structure ParallelPass where
  workers : List PassWorker
  processed : Nat := 0
  cancelled : Bool
  deriving DecidableEq, Repr

namespace ParallelPass

/-- The pass before any worker has started. -/
def start (references : List Reference) (cancelled : Bool) : ParallelPass where
  workers := references.map ({ reference := · })
  cancelled := cancelled

/-- Takes the worker at an index on from a stage. -/
def advance (pass : ParallelPass) (index : Nat) (stage : WorkerStage)
    (next : Reference → PassWorker) : Option ParallelPass :=
  match pass.workers[index]? with
  | none => none
  | some worker =>
      if worker.stage = stage then
        some { pass with workers := pass.workers.set index (next worker.reference) }
      else none

/-- One event of a pass, where it can happen. -/
def step (known : Universe) (pass : ParallelPass) : PassEvent → Option ParallelPass
  | .cancel => some { pass with cancelled := true }
  | .read index =>
      pass.advance index .waiting
        (fun reference => ⟨reference, if pass.cancelled then .passedOver else .admitted⟩)
  | .resolve index =>
      pass.advance index .admitted
        (fun reference => ⟨Resolution.apply known reference, .resolved⟩)
  | .count index =>
      (pass.advance index .resolved (fun reference => ⟨reference, .counted⟩)).map
        (fun after => { after with processed := after.processed + 1 })

/-- The pass after the events of a schedule. -/
def run (known : Universe) (pass : ParallelPass) (schedule : List PassEvent) :
    Option ParallelPass :=
  schedule.foldlM (step known) pass

/-- All workers have finished. -/
def Finished (pass : ParallelPass) : Prop :=
  ∀ worker ∈ pass.workers, worker.stage.finished = true

def references (pass : ParallelPass) : List Reference :=
  pass.workers.map PassWorker.reference

def outcome (pass : ParallelPass) : BatchOutcome :=
  ⟨pass.processed, pass.cancelled⟩

/-- What a finished pass leaves behind. -/
structure Report (known : Universe) (references : List Reference) (cancelled : Bool)
    (schedule : List PassEvent) (final : ParallelPass) : Prop where
  runs_once : ∀ index, schedule.count (.resolve index) ≤ 1
  /-- A reference is as its own resolution leaves it, or untouched. -/
  references_eq : final.references = references.zipIdx.map (fun item =>
    if .resolve item.2 ∈ schedule then Resolution.apply known item.1 else item.1)
  processed_eq : final.outcome.processed =
    references.zipIdx.countP (fun item => .resolve item.2 ∈ schedule)
  cancelled_iff : final.outcome.cancelled = true ↔ cancelled = true ∨ .cancel ∈ schedule
  of_cancelled_before : cancelled = true →
    final.outcome.processed = 0 ∧ final.references = references
  of_not_cancelled : final.outcome.cancelled = false →
    final.outcome.processed = references.length ∧
      final.references = references.map (Resolution.apply known) ∧
      ∀ reference ∈ final.references, reference.resolvable = true → reference.attempted = true

end ParallelPass

theorem Resolution.attempted_apply (known : Universe) (reference : Reference)
    (h : (Resolution.apply known reference).resolvable = true) :
    (Resolution.apply known reference).attempted = true := by
  rw [Resolution.apply] at h ⊢
  split
  · rfl
  · simp_all

/-! What an event can do. -/

namespace ParallelPass

theorem advance_eq_some_iff {pass after : ParallelPass} {index : Nat} {stage : WorkerStage}
    {next : Reference → PassWorker} :
    pass.advance index stage next = some after ↔
      ∃ reference, pass.workers[index]? = some ⟨reference, stage⟩ ∧
        after = { pass with workers := pass.workers.set index (next reference) } := by
  rw [advance]
  cases hworker : pass.workers[index]? with
  | none => simp
  | some worker =>
      obtain ⟨reference, found⟩ := worker
      by_cases hstage : found = stage
      · simp [hstage, eq_comm]
      · simp [hstage]

theorem step_cases {known : Universe} {before after : ParallelPass} {event : PassEvent}
    (h : before.step known event = some after) :
    event = .cancel ∧ after = { before with cancelled := true } ∨
    (∃ index reference, event = .read index ∧
      before.workers[index]? = some ⟨reference, .waiting⟩ ∧
      after = { before with
        workers := before.workers.set index
          ⟨reference, if before.cancelled then .passedOver else .admitted⟩ }) ∨
    (∃ index reference, event = .resolve index ∧
      before.workers[index]? = some ⟨reference, .admitted⟩ ∧
      after = { before with
        workers := before.workers.set index
          ⟨Resolution.apply known reference, .resolved⟩ }) ∨
    (∃ index reference, event = .count index ∧
      before.workers[index]? = some ⟨reference, .resolved⟩ ∧
      after = { before with
        workers := before.workers.set index ⟨reference, .counted⟩
        processed := before.processed + 1 }) := by
  cases event with
  | cancel => exact .inl ⟨rfl, (Option.some.inj h).symm⟩
  | read index =>
      rw [step] at h
      obtain ⟨reference, hworker, rfl⟩ := advance_eq_some_iff.mp h
      exact .inr (.inl ⟨index, reference, rfl, hworker, rfl⟩)
  | resolve index =>
      rw [step] at h
      obtain ⟨reference, hworker, rfl⟩ := advance_eq_some_iff.mp h
      exact .inr (.inr (.inl ⟨index, reference, rfl, hworker, rfl⟩))
  | count index =>
      obtain ⟨counted, hadvance, rfl⟩ := Option.map_eq_some_iff.mp h
      obtain ⟨reference, hworker, rfl⟩ := advance_eq_some_iff.mp hadvance
      exact .inr (.inr (.inr ⟨index, reference, rfl, hworker, rfl⟩))

end ParallelPass

/-! What the events so far have done to one worker. -/

/-- What the worker found the flag to be. -/
def WorkerStage.found? : WorkerStage → Option Bool
  | .waiting => none
  | .passedOver => some true
  | .admitted | .resolved | .counted => some false

/-- A worker has done to its reference what its stage says.  It may have found the flag set
only if it is set now, and not set only if it was not set at the start. -/
structure PassWorker.Follows (known : Universe) (setBefore setNow : Bool) (runs : Nat)
    (reference : Reference) (worker : PassWorker) : Prop where
  reference_eq : worker.reference =
    if worker.stage.ran then Resolution.apply known reference else reference
  runs_eq : runs = worker.stage.ran.toNat
  foundSet : worker.stage.found? = some true → setNow = true
  foundUnset : worker.stage.found? = some false → setBefore = false

namespace PassWorker.Follows

variable {known : Universe} {setBefore setNow : Bool} {runs : Nat}
  {original reference : Reference} {worker : PassWorker}

theorem mem_schedule_iff {schedule : List PassEvent} {index : Nat}
    (h : worker.Follows known setBefore setNow (schedule.count (.resolve index)) reference) :
    .resolve index ∈ schedule ↔ worker.stage.ran = true := by
  rw [← List.count_pos_iff, h.runs_eq]
  cases worker.stage.ran <;> simp

/-- No worker resolves after the flag is set. -/
theorem ran_of_setBefore (h : worker.Follows known true setNow runs reference) :
    worker.stage.ran = false := by
  have hunset := h.foundUnset
  cases hstage : worker.stage <;> simp_all [WorkerStage.found?, WorkerStage.ran]

/-- No worker passes over its reference before the flag is set. -/
theorem ran_of_unset (h : worker.Follows known setBefore false runs reference)
    (hfinished : worker.stage.finished = true) : worker.stage.ran = true := by
  have hset := h.foundSet
  cases hstage : worker.stage <;>
    simp_all [WorkerStage.found?, WorkerStage.ran, WorkerStage.finished]

theorem waiting (known : Universe) (setBefore setNow : Bool) (reference : Reference) :
    PassWorker.Follows known setBefore setNow 0 reference ⟨reference, .waiting⟩ where
  reference_eq := rfl
  runs_eq := rfl
  foundSet := fun h => by cases h
  foundUnset := fun h => by cases h

/-- The flag is only ever set. -/
theorem cancel (h : worker.Follows known setBefore setNow runs reference) :
    worker.Follows known setBefore true runs reference :=
  { h with foundSet := fun _ => rfl }

theorem read (h : PassWorker.Follows known setBefore setNow runs original ⟨reference, .waiting⟩)
    (hbefore : setBefore = true → setNow = true) :
    PassWorker.Follows known setBefore setNow runs original
      ⟨reference, if setNow then .passedOver else .admitted⟩ where
  reference_eq := by cases setNow <;> exact h.reference_eq
  runs_eq := by cases setNow <;> exact h.runs_eq
  foundSet := by cases setNow <;> simp [WorkerStage.found?]
  foundUnset := by
    cases setNow with
    | true => simp [WorkerStage.found?]
    | false => exact fun _ => Bool.eq_false_iff.mpr (fun hset => by cases hbefore hset)

theorem resolve
    (h : PassWorker.Follows known setBefore setNow runs original ⟨reference, .admitted⟩) :
    PassWorker.Follows known setBefore setNow (runs + 1) original
      ⟨Resolution.apply known reference, .resolved⟩ where
  reference_eq := congrArg (Resolution.apply known) h.reference_eq
  runs_eq := congrArg (· + 1) h.runs_eq
  foundSet := fun hset => by cases hset
  foundUnset := h.foundUnset

theorem count
    (h : PassWorker.Follows known setBefore setNow runs original ⟨reference, .resolved⟩) :
    PassWorker.Follows known setBefore setNow runs original ⟨reference, .counted⟩ where
  reference_eq := h.reference_eq
  runs_eq := h.runs_eq
  foundSet := fun hset => by cases hset
  foundUnset := h.foundUnset

end PassWorker.Follows

/-! What the events so far have done to the pass. -/

namespace ParallelPass

/-- A pass after some events: every worker has followed its reference, and the counter
tells how many of them have finished with it. -/
structure Reached (known : Universe) (references : List Reference) (cancelled : Bool)
    (schedule : List PassEvent) (pass : ParallelPass) : Prop where
  cancelled_iff : pass.cancelled = true ↔ cancelled = true ∨ .cancel ∈ schedule
  length_eq : pass.workers.length = references.length
  follows : ∀ index reference (worker : PassWorker), references[index]? = some reference →
    pass.workers[index]? = some worker →
    worker.Follows known cancelled pass.cancelled (schedule.count (.resolve index)) reference
  outside : ∀ index, references.length ≤ index → .resolve index ∉ schedule
  processed_eq : pass.processed = pass.workers.countP (fun worker => worker.stage = .counted)

theorem reached_start (known : Universe) (references : List Reference) (cancelled : Bool) :
    Reached known references cancelled [] (start references cancelled) where
  cancelled_iff := by simp [start]
  length_eq := List.length_map _
  follows := by
    intro index reference worker hreference hworker
    rw [start, List.getElem?_map, hreference] at hworker
    cases hworker
    exact .waiting known cancelled cancelled reference
  outside := fun _ _ => List.not_mem_nil
  processed_eq := by
    refine (List.countP_eq_zero.mpr ?_).symm
    intro worker hworker
    obtain ⟨reference, -, rfl⟩ := List.mem_map.mp hworker
    simp

namespace Reached

variable {known : Universe} {references : List Reference} {cancelled : Bool}
  {schedule : List PassEvent} {before after : ParallelPass}

theorem cancel (h : Reached known references cancelled schedule before) :
    Reached known references cancelled (schedule ++ [.cancel])
      { before with cancelled := true } where
  cancelled_iff := by simp
  length_eq := h.length_eq
  follows := by
    intro index reference worker hreference hworker
    rw [List.count_append]
    exact (h.follows index reference worker hreference hworker).cancel
  outside := by simpa using h.outside
  processed_eq := h.processed_eq

/-- An event of the worker at an index concerns no other worker. -/
theorem setWorker (h : Reached known references cancelled schedule before) {index : Nat}
    {event : PassEvent} {worker next : PassWorker} {processed : Nat}
    (hworker : before.workers[index]? = some worker) (huncounted : worker.stage ≠ .counted)
    (hcancel : event ≠ .cancel) (hothers : ∀ other, event = .resolve other → other = index)
    (hnext : ∀ reference,
      worker.Follows known cancelled before.cancelled (schedule.count (.resolve index))
        reference →
      next.Follows known cancelled before.cancelled
        ((schedule ++ [event]).count (.resolve index)) reference)
    (hprocessed : processed = before.processed + if next.stage = .counted then 1 else 0) :
    Reached known references cancelled (schedule ++ [event])
      { before with workers := before.workers.set index next, processed := processed } := by
  obtain ⟨hindex, hget⟩ := List.getElem?_eq_some_iff.mp hworker
  refine ⟨?_, ?_, ?_, ?_, ?_⟩
  · simpa [hcancel.symm] using h.cancelled_iff
  · rw [List.length_set]
    exact h.length_eq
  · intro other reference found hreference hfound
    by_cases hother : other = index
    · subst hother
      rw [List.getElem?_set_self hindex] at hfound
      cases hfound
      exact hnext reference (h.follows other reference worker hreference hworker)
    · rw [List.getElem?_set_ne (Ne.symm hother)] at hfound
      have hevent : .resolve other ∉ [event] :=
        fun hmem => hother (hothers other (List.mem_singleton.mp hmem).symm)
      rw [List.count_append, List.count_eq_zero_of_not_mem hevent, Nat.add_zero]
      exact h.follows other reference found hreference hfound
  · intro other hlength hmem
    rcases List.mem_append.mp hmem with hmem | hmem
    · exact h.outside other hlength hmem
    · have hsame := hothers other (List.mem_singleton.mp hmem).symm
      have hbound := h.length_eq
      omega
  · rw [List.countP_set hindex, hget, hprocessed, h.processed_eq]
    simp [huncounted]

/-- What one event preserves. -/
theorem step (h : Reached known references cancelled schedule before) {event : PassEvent}
    (hstep : before.step known event = some after) :
    Reached known references cancelled (schedule ++ [event]) after := by
  obtain ⟨rfl, rfl⟩ | ⟨index, reference, rfl, hworker, rfl⟩ |
    ⟨index, reference, rfl, hworker, rfl⟩ | ⟨index, reference, rfl, hworker, rfl⟩ :=
    step_cases hstep
  · exact h.cancel
  · refine h.setWorker hworker (by simp) (by simp) (by simp) ?_ ?_
    · intro original hfollows
      rw [List.count_append]
      exact hfollows.read (fun hset => h.cancelled_iff.mpr (.inl hset))
    · split <;> simp
  · refine h.setWorker hworker (by simp) (by simp) (by simp) ?_ (by simp)
    intro original hfollows
    rw [List.count_append, List.count_singleton_self]
    exact hfollows.resolve
  · refine h.setWorker hworker (by simp) (by simp) (by simp) ?_ (by simp)
    intro original hfollows
    rw [List.count_append]
    exact hfollows.count

end Reached

theorem run_append_singleton (known : Universe) (pass : ParallelPass)
    (earlier : List PassEvent) (event : PassEvent) :
    pass.run known (earlier ++ [event]) =
      (pass.run known earlier).bind (fun before => before.step known event) := by
  simp [run, Option.bind_eq_bind]

/-- What a whole run preserves. -/
theorem reached_run {known : Universe} {references : List Reference} {cancelled : Bool}
    {schedule : List PassEvent} {final : ParallelPass}
    (hrun : (start references cancelled).run known schedule = some final) :
    Reached known references cancelled schedule final := by
  induction schedule using List.reverseRecOn generalizing final with
  | nil =>
      cases hrun
      exact reached_start known references cancelled
  | append_singleton earlier event ih =>
      rw [run_append_singleton] at hrun
      obtain ⟨before, hbefore, hstep⟩ := Option.bind_eq_some_iff.mp hrun
      exact (ih hbefore).step hstep

/-! What the workers of a finished pass leave behind. -/

namespace Reached

variable {known : Universe} {references : List Reference} {cancelled : Bool}
  {schedule : List PassEvent} {pass : ParallelPass}

theorem exists_worker (h : Reached known references cancelled schedule pass)
    {item : Reference × Nat} (hitem : item ∈ references.zipIdx) :
    ∃ worker ∈ pass.workers,
      worker.Follows known cancelled pass.cancelled (schedule.count (.resolve item.2)) item.1 := by
  obtain ⟨reference, index⟩ := item
  have hreference := List.mem_zipIdx_iff_getElem?.mp hitem
  have hindex : index < pass.workers.length := by
    rw [h.length_eq]
    exact (List.getElem?_eq_some_iff.mp hreference).1
  exact ⟨pass.workers[index], List.getElem_mem hindex,
    h.follows index reference _ hreference (List.getElem?_eq_getElem hindex)⟩

theorem runs_once (h : Reached known references cancelled schedule pass) (index : Nat) :
    schedule.count (.resolve index) ≤ 1 := by
  by_cases hindex : index < references.length
  · have hitem : (references[index], index) ∈ references.zipIdx :=
      List.mem_zipIdx_iff_getElem?.mpr (List.getElem?_eq_getElem hindex)
    obtain ⟨worker, -, hfollows⟩ := h.exists_worker hitem
    rw [hfollows.runs_eq]
    exact Bool.toNat_le _
  · rw [List.count_eq_zero_of_not_mem (h.outside index (Nat.le_of_not_lt hindex))]
    exact Nat.zero_le 1

/-- A view of the workers is read off the references and the schedule. -/
theorem map_workers (h : Reached known references cancelled schedule pass) {β : Type}
    {view : PassWorker → β} {image : Reference × Nat → β}
    (hview : ∀ reference index, ∀ worker ∈ pass.workers,
      worker.Follows known cancelled pass.cancelled (schedule.count (.resolve index)) reference →
      view worker = image (reference, index)) :
    pass.workers.map view = references.zipIdx.map image := by
  apply List.ext_getElem
  · rw [List.length_map, List.length_map, List.length_zipIdx, h.length_eq]
  · intro index hworker hreference
    rw [List.length_map] at hworker
    rw [List.length_map, List.length_zipIdx] at hreference
    rw [List.getElem_map, List.getElem_map, List.getElem_zipIdx, Nat.zero_add]
    exact hview _ index _ (List.getElem_mem hworker) (h.follows index _ _
      (List.getElem?_eq_getElem hreference) (List.getElem?_eq_getElem hworker))

theorem references_eq (h : Reached known references cancelled schedule pass) :
    pass.references = references.zipIdx.map (fun item =>
      if .resolve item.2 ∈ schedule then Resolution.apply known item.1 else item.1) := by
  refine h.map_workers ?_
  intro reference index worker _ hfollows
  rw [hfollows.reference_eq]
  simp only [hfollows.mem_schedule_iff]

/-- Once a pass has finished, what was resolved has been counted. -/
theorem processed_eq_of_finished (h : Reached known references cancelled schedule pass)
    (hfinished : pass.Finished) :
    pass.processed = references.zipIdx.countP (fun item => .resolve item.2 ∈ schedule) := by
  have hcounted : ∀ worker ∈ pass.workers,
      worker.stage.ran = decide (worker.stage = .counted) := by
    intro worker hworker
    have hstage := hfinished worker hworker
    cases hcase : worker.stage <;> simp_all [WorkerStage.finished, WorkerStage.ran]
  have hran : pass.workers.map (fun worker => decide (worker.stage = .counted)) =
      references.zipIdx.map (fun item => decide (.resolve item.2 ∈ schedule)) := by
    refine h.map_workers ?_
    intro reference index worker hworker hfollows
    simp only [← hcounted worker hworker, hfollows.mem_schedule_iff, Bool.decide_eq_true]
  have hcount := congrArg (List.countP id) hran
  rw [List.countP_map, List.countP_map] at hcount
  exact h.processed_eq.trans hcount

theorem report (h : Reached known references cancelled schedule pass)
    (hfinished : pass.Finished) : Report known references cancelled schedule pass where
  runs_once := h.runs_once
  references_eq := h.references_eq
  processed_eq := h.processed_eq_of_finished hfinished
  cancelled_iff := h.cancelled_iff
  of_cancelled_before := by
    rintro rfl
    have hnone : ∀ item ∈ references.zipIdx, .resolve item.2 ∉ schedule := by
      intro item hitem
      obtain ⟨worker, -, hfollows⟩ := h.exists_worker hitem
      rw [hfollows.mem_schedule_iff, hfollows.ran_of_setBefore]
      exact Bool.false_ne_true
    constructor
    · refine (h.processed_eq_of_finished hfinished).trans (List.countP_eq_zero.mpr ?_)
      simpa using hnone
    · rw [h.references_eq, List.map_congr_left (fun item hitem => if_neg (hnone item hitem))]
      exact List.zipIdx_map_fst 0 references
  of_not_cancelled := by
    intro hunset
    have hall : ∀ item ∈ references.zipIdx, .resolve item.2 ∈ schedule := by
      intro item hitem
      obtain ⟨worker, hworker, hfollows⟩ := h.exists_worker hitem
      rw [show pass.cancelled = false from hunset] at hfollows
      rw [hfollows.mem_schedule_iff, hfollows.ran_of_unset (hfinished worker hworker)]
    have hreferences : pass.references = references.map (Resolution.apply known) := by
      rw [h.references_eq, List.map_congr_left (fun item hitem => if_pos (hall item hitem)),
        ← Function.comp_def, ← List.map_map, List.zipIdx_map_fst]
    refine ⟨?_, hreferences, ?_⟩
    · rw [← List.length_zipIdx]
      refine (h.processed_eq_of_finished hfinished).trans (List.countP_eq_length.mpr ?_)
      simpa using hall
    · intro reference hmem
      rw [hreferences] at hmem
      obtain ⟨original, -, rfl⟩ := List.mem_map.mp hmem
      exact Resolution.attempted_apply known original

end Reached

/-! Passes that nobody cancels while they run. -/

/-- Without a cancellation during the pass, every schedule leaves what going through the
list in order leaves. -/
theorem applyAll_eq_of_run {known : Universe} {references : List Reference} {cancelled : Bool}
    {schedule : List PassEvent} {final : ParallelPass}
    (hrun : (start references cancelled).run known schedule = some final)
    (hfinished : final.Finished) (hcancel : .cancel ∉ schedule) :
    (final.references, final.outcome) = Resolution.applyAll known cancelled references := by
  have hreport := (reached_run hrun).report hfinished
  have hflag : final.cancelled = cancelled := by
    rw [Bool.eq_iff_iff]
    simpa [hcancel, outcome] using hreport.cancelled_iff
  cases cancelled with
  | true =>
      obtain ⟨hprocessed, hreferences⟩ := hreport.of_cancelled_before rfl
      rw [hreferences, outcome, hflag, show final.processed = 0 from hprocessed]
      rfl
  | false =>
      obtain ⟨hprocessed, hreferences, -⟩ := hreport.of_not_cancelled hflag
      rw [hreferences, outcome, hflag, show final.processed = references.length from hprocessed]
      rfl

/-- How many steps workers have left at most. -/
def stepsLeft : List PassWorker → Nat
  | [] => 0
  | worker :: rest => worker.stage.remaining + stepsLeft rest

theorem stepsLeft_append (left right : List PassWorker) :
    stepsLeft (left ++ right) = stepsLeft left + stepsLeft right := by
  induction left with
  | nil => simp [stepsLeft]
  | cons worker rest ih =>
      rw [List.cons_append, stepsLeft, stepsLeft, ih, Nat.add_assoc]

theorem advance_append {pass : ParallelPass} {left right : List PassWorker}
    {worker : PassWorker} (hworkers : pass.workers = left ++ worker :: right)
    (next : Reference → PassWorker) :
    pass.advance left.length worker.stage next =
      some { pass with workers := left ++ next worker.reference :: right } := by
  simp [advance, hworkers]

/-- A worker that has not finished can take a step. -/
theorem exists_step_of_unfinished (known : Universe) {pass : ParallelPass}
    (h : ¬ pass.Finished) :
    ∃ event after, event ≠ .cancel ∧ pass.step known event = some after ∧
      stepsLeft after.workers < stepsLeft pass.workers := by
  obtain ⟨worker, hworker, hunfinished⟩ :
      ∃ worker ∈ pass.workers, worker.stage.finished = false := by
    simpa [Finished] using h
  obtain ⟨left, right, hworkers⟩ := List.append_of_mem hworker
  have hadvance := advance_append hworkers
  rw [hworkers, stepsLeft_append]
  cases hstage : worker.stage with
  | waiting =>
      rw [hstage] at hadvance
      have hstep : pass.step known (.read left.length) = some _ := hadvance
        (fun reference => ⟨reference, if pass.cancelled then .passedOver else .admitted⟩)
      refine ⟨.read left.length, _, by simp, hstep, ?_⟩
      rw [stepsLeft_append]
      cases pass.cancelled <;> simp [stepsLeft, hstage, WorkerStage.remaining]
  | admitted =>
      rw [hstage] at hadvance
      have hstep : pass.step known (.resolve left.length) = some _ := hadvance
        (fun reference => ⟨Resolution.apply known reference, .resolved⟩)
      refine ⟨.resolve left.length, _, by simp, hstep, ?_⟩
      rw [stepsLeft_append]
      simp [stepsLeft, hstage, WorkerStage.remaining]
  | resolved =>
      rw [hstage] at hadvance
      have hstep : pass.step known (.count left.length) = some _ := congrArg (Option.map _)
        (hadvance (fun reference => ⟨reference, .counted⟩))
      refine ⟨.count left.length, _, by simp, hstep, ?_⟩
      rw [stepsLeft_append]
      simp [stepsLeft, hstage, WorkerStage.remaining]
  | passedOver => simp [hstage, WorkerStage.finished] at hunfinished
  | counted => simp [hstage, WorkerStage.finished] at hunfinished

/-- However far a pass has got, its workers can finish. -/
theorem exists_finished_run (known : Universe) (pass : ParallelPass) :
    ∃ schedule final, .cancel ∉ schedule ∧ pass.run known schedule = some final ∧
      final.Finished := by
  -- By induction on the number of steps that the workers have left.
  induction hcount : stepsLeft pass.workers using Nat.strongRecOn generalizing pass with
  | ind count ih =>
      by_cases hfinished : pass.Finished
      · exact ⟨[], pass, List.not_mem_nil, rfl, hfinished⟩
      · obtain ⟨event, after, hevent, hstep, hless⟩ := exists_step_of_unfinished known hfinished
        obtain ⟨schedule, final, hcancel, hrun, hfinal⟩ := ih _ (hcount ▸ hless) after rfl
        refine ⟨event :: schedule, final, by simp [hevent.symm, hcancel], ?_, hfinal⟩
        rw [run, List.foldlM_cons, hstep]
        exact hrun

/-- Whatever the schedule of a pass, each reference is as its own resolution leaves it or
untouched.  The counter tells on how many of them resolution ran: on none if the flag was
set at the start, on all if it is not set at the end. -/
theorem run_report (known : Universe) (references : List Reference) (cancelled : Bool)
    (schedule : List PassEvent) (final : ParallelPass)
    (hrun : (start references cancelled).run known schedule = some final)
    (hfinished : final.Finished) : Report known references cancelled schedule final :=
  (reached_run hrun).report hfinished

/-- Of two references the second is being resolved when the flag is set, and the worker of
the first finds it set. -/
theorem run_report_cancelledBetween :
    let known := Universe.ofList [{ name := "a/A" }]
    let first := Reference.ofType (.type "b.B") "a.A" .extendsType
    let second := Reference.ofType (.type "b.B") "a.C" .extendsType
    let schedule : List PassEvent := [.read 1, .cancel, .read 0, .resolve 1, .count 1]
    let final : ParallelPass :=
      { workers := [⟨first, .passedOver⟩, ⟨Resolution.apply known second, .counted⟩]
        processed := 1
        cancelled := true }
    (start [first, second] false).run known schedule = some final ∧ final.Finished ∧
      Report known [first, second] false schedule final := by
  intro known first second schedule final
  have hrun : (start [first, second] false).run known schedule = some final := rfl
  have hfinished : final.Finished := by simp [Finished, final, WorkerStage.finished]
  exact ⟨hrun, hfinished, run_report known [first, second] false schedule final hrun hfinished⟩

end ParallelPass

end Linkage
