import Mathlib.Data.List.DropRight
import Mathlib.Data.List.Infix
import Rehost.Queue

/-!
# Batches

A queue and a listing on which instructions are scheduled, the queue is cleared, and the queue is emitted into the
listing, in any order. The queue holds what was scheduled since it was last cleared or emitted (`pending`), so each time
it is emitted one batch goes into the listing (`batches`), up to the first instruction of the batch that cannot be
selected (`selectable`). The listing is made of these batches and nothing else (`run_eq`).
-/

namespace Rehost.Queue

open Guest (Instruction)
open Host (Instr Listing)

/-! ### Steps -/

/-- What can be done with a queue and a listing. -/
inductive Step where
  | schedule (i : Instruction)
  | clear
  | emit
  deriving DecidableEq, Repr

/-- The instruction that a step schedules; the other steps leave the queue empty. -/
def Step.scheduled? : Step → Option Instruction
  | schedule i => some i
  | clear | emit => none

/-- Queue and listing after a step, and its result. -/
def serve (state : Queue × Listing) : Step → (Queue × Listing) × Except Error Unit
  | .schedule i => ((state.1.schedule i, state.2), .ok ())
  | .clear => ((state.1.clear, state.2), .ok ())
  | .emit =>
    let (queue, listing, result) := state.1.emit state.2
    ((queue, listing), result)

/-- Queue and listing after steps, and their results. -/
def run (state : Queue × Listing) : List Step → (Queue × Listing) × List (Except Error Unit)
  | [] => (state, [])
  | step :: rest =>
    let (state, result) := serve state step
    let (state, results) := run state rest
    (state, result :: results)

theorem run_append (state : Queue × Listing) (one two : List Step) :
    run state (one ++ two) = ((run (run state one).1 two).1, (run state one).2 ++ (run (run state one).1 two).2) := by
  induction one generalizing state with
  | nil => rfl
  | cons step rest later => simp only [List.cons_append, run, later]

theorem run_singleton (state : Queue × Listing) (step : Step) :
    run state [step] = ((serve state step).1, [(serve state step).2]) :=
  rfl

theorem length_run (state : Queue × Listing) (steps : List Step) : (run state steps).2.length = steps.length := by
  induction steps generalizing state with
  | nil => rfl
  | cons step rest later => simp only [run, List.length_cons, later]

/-! ### Batches -/

/-- The instructions scheduled since the last step that was not for scheduling. -/
def pending (steps : List Step) : List Instruction :=
  (steps.rtakeWhile fun step => step.scheduled?.isSome).filterMap Step.scheduled?

/-- For each step that emits, in order, the instructions that were pending when it was taken. -/
def batches (steps : List Step) : List (List Instruction) :=
  steps.inits.filterMap fun upto => if upto.getLast? = some .emit then some (pending upto.dropLast) else none

/-- What the instructions before the first that cannot be selected become. -/
def selectable (batch : List Instruction) : List Instr :=
  ((batch.map fun i => (select i).toOption).takeWhile Option.isSome).filterMap id

theorem pending_schedule (steps : List Step) (i : Instruction) :
    pending (steps ++ [.schedule i]) = pending steps ++ [i] := by
  simp [pending, Step.scheduled?]

theorem pending_of_unscheduled {step : Step} (unscheduled : step.scheduled? = none) (steps : List Step) :
    pending (steps ++ [step]) = [] := by
  simp [pending, unscheduled]

theorem batches_concat (steps : List Step) (step : Step) :
    batches (steps ++ [step]) = batches steps ++ if step = .emit then [pending steps] else [] := by
  have split : (steps ++ [step]).inits = steps.inits ++ [steps ++ [step]] := by simp [List.inits_append]
  simp only [batches, split, List.filterMap_append, List.append_cancel_left_eq]
  by_cases emits : step = .emit <;> simp [emits]

/-! ### Emitting -/

theorem selectAll_fst (batch : List Instruction) : (selectAll batch).1 = selectable batch := by
  induction batch with
  | nil => rfl
  | cons i rest later =>
    cases selected : select i with
    | error error => simp [selectAll, selectable, selected, Except.toOption]
    | ok j =>
      simp only [selectAll, selected, later]
      simp [selectable, selected, Except.toOption]

theorem selectAll_ok_iff {batch : List Instruction} :
    (selectAll batch).2 = .ok () ↔ ∀ i ∈ batch, ∃ j, select i = .ok j := by
  induction batch with
  | nil => simp [selectAll]
  | cons i rest later =>
    cases selected : select i with
    | error error => simp [selectAll, selected]
    | ok j => simp [selectAll, selected, later]

/-- Emitting ends at the first instruction that cannot be selected. -/
theorem selectAll_error_iff {batch : List Instruction} {error : Error} :
    (selectAll batch).2 = .error error ↔
      ∃ earlier i later, batch = earlier ++ i :: later ∧ (∀ k ∈ earlier, ∃ j, select k = .ok j) ∧
        select i = .error error := by
  constructor
  · intro failed
    induction batch with
    | nil => cases failed
    | cons i rest ih =>
      cases selected : select i with
      | error cause =>
        simp only [selectAll, selected] at failed
        cases failed
        exact ⟨[], i, rest, rfl, by simp, selected⟩
      | ok j =>
        simp only [selectAll, selected] at failed
        obtain ⟨earlier, k, later, rfl, passed, refused⟩ := ih failed
        refine ⟨i :: earlier, k, later, rfl, ?_, refused⟩
        intro k member
        obtain rfl | member := List.mem_cons.mp member
        · exact ⟨j, selected⟩
        · exact passed k member
  · rintro ⟨earlier, i, later, rfl, passed, refused⟩
    induction earlier with
    | nil => simp [selectAll, refused]
    | cons k earlier ih =>
      obtain ⟨j, selected⟩ := passed k (List.mem_cons_self ..)
      simp only [List.cons_append, selectAll, selected]
      exact ih fun k member => passed k (List.mem_cons_of_mem _ member)

/-! ### Runs -/

/-- The queue after steps holds what is pending, and the listing has all batches. -/
theorem run_eq (listing : Listing) (steps : List Step) :
    (run ({}, listing) steps).1 =
      (⟨pending steps⟩, listing.append (((batches steps).flatMap selectable).map .instr)) := by
  induction steps using List.reverseRecOn with
  | nil => simp [run, pending, batches, Listing.append]
  | append_singleton steps step earlier =>
    rw [run_append, earlier, run_singleton, batches_concat]
    cases step with
    | schedule i => simp [serve, schedule, pending_schedule]
    | clear =>
      have empty : pending (steps ++ [.clear]) = [] := pending_of_unscheduled rfl steps
      simp [serve, clear, empty]
    | emit =>
      have empty : pending (steps ++ [.emit]) = [] := pending_of_unscheduled rfl steps
      simp [serve, emit, empty, selectAll_fst, Listing.append]

/-- The result of a step depends on what is pending. -/
theorem result_emit (listing : Listing) (before after : List Step) :
    (run ({}, listing) (before ++ .emit :: after)).2[before.length]? = some (selectAll (pending before)).2 := by
  rw [run_append, run_eq, List.getElem?_append_right (by rw [length_run]), length_run]
  simp [run, serve, emit]

theorem queue_of_unscheduled {step : Step} (unscheduled : step.scheduled? = none) (listing : Listing)
    (before : List Step) : (run ({}, listing) (before ++ [step])).1.1 = {} := by
  rw [run_eq, pending_of_unscheduled unscheduled]

/-- Whatever steps are taken, nothing is lost, repeated or reordered. The listing has, for each step that emits in their
order, the instructions selected for what was scheduled since the queue was last cleared or emitted, up to the first
that cannot be selected; that one's error is the result of the step, which succeeds if there is none. Whenever the queue
was cleared or emitted, with or without success, it is empty, and later steps do what they would do with a new one. -/
theorem emits_in_batches (listing : Listing) (steps : List Step) :
    (run ({}, listing) steps).1.2 = listing.append (((batches steps).flatMap selectable).map .instr) ∧
    (run ({}, listing) steps).1.2.instrs = listing.instrs ++ (batches steps).flatMap selectable ∧
    (∀ before after, steps = before ++ .emit :: after →
      ∃ result, (run ({}, listing) steps).2[before.length]? = some result ∧
        (result = .ok () ↔ ∀ i ∈ pending before, ∃ j, select i = .ok j) ∧
        ∀ error, result = .error error ↔
          ∃ earlier i later, pending before = earlier ++ i :: later ∧ (∀ k ∈ earlier, ∃ j, select k = .ok j) ∧
            select i = .error error) ∧
    ∀ before step after, steps = before ++ step :: after → step = .clear ∨ step = .emit →
      (run ({}, listing) (before ++ [step])).1.1 = {} ∧
      (run ({}, listing) steps).1 = (run ({}, (run ({}, listing) (before ++ [step])).1.2) after).1 := by
  have listed := congrArg Prod.snd (run_eq listing steps)
  refine ⟨listed, ?_, ?_, ?_⟩
  · rw [listed]
    simp [Listing.instrs, Listing.append, Host.Node.instr?, Function.comp_def]
  · rintro before after rfl
    exact ⟨_, result_emit listing before after, selectAll_ok_iff, fun error => selectAll_error_iff⟩
  · rintro before step after rfl other
    have unscheduled : step.scheduled? = none := by
      obtain rfl | rfl := other <;> rfl
    have empty := queue_of_unscheduled unscheduled listing before
    have state : (run ({}, listing) (before ++ [step])).1 = ({}, (run ({}, listing) (before ++ [step])).1.2) :=
      Prod.ext empty rfl
    refine ⟨empty, ?_⟩
    rw [List.append_cons, run_append, ← state]

end Rehost.Queue
