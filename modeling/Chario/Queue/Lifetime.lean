import Mathlib.Data.List.Basic
import Chario.Library.Transition
import Chario.Queue.WaitProtocol
import Chario.Queue.WakeUps

namespace Chario.Queue

open Chario.Library

namespace WaitSystem

/-! The on-stack `cmdinfo`, the pinned pages and the PRP list are gone once the
task is past its wait.  Nothing may use them from then on. -/

/-- The handler is inside `chario_completion` for this request. -/
def UsesCmdinfo : HandlerPc → Prop
  | .decrement _ | .test | .wake => True
  | _ => False

structure Outlived (nblocks : Nat) (s : WaitSystem) : Prop where
  atDevice : s.pc.AfterWait → s.atDevice = []
  completed : s.pc.AfterWait → s.AllCompleted nblocks
  cmdinfo : s.pc.AfterWait → ¬ UsesCmdinfo s.handler

/-- Runs in which the two racing steps do not happen: nobody else wakes the
task out of its wait, and the task does not look at a negative counter while
the handler that made it negative is still to test it or to wake the task. -/
def Undisturbed (s : WaitSystem) : WaitLabel → Prop
  | .foreignWake => s.task = .running
  | .check => s.remaining < 0 → ¬ s.handler.Signalling
  | _ => True

instance : (handler : HandlerPc) → Decidable handler.Signalling
  | .test | .wake => .isTrue trivial
  | .out | .loop | .decrement _ => .isFalse id

instance (s : WaitSystem) : (label : WaitLabel) →
    Decidable (Undisturbed s label)
  | .foreignWake => inferInstanceAs (Decidable (s.task = .running))
  | .check =>
      inferInstanceAs (Decidable (s.remaining < 0 → ¬ s.handler.Signalling))
  | .take | .register | .submit | .schedule | .reset | .cleanup | .post _
  | .repost _ | .enterCq | .consume | .exitCq | .decrement | .test | .wake =>
      .isTrue trivial

structure Settling (qDepth nblocks : Nat) (s : WaitSystem) : Prop where
  core : Core qDepth nblocks s
  sleeping : s.pc = .asleep → s.task = .uninterruptible
  passing : s.pc = .schedule → s.task = .running →
    s.remaining < 0 ∧ ¬ s.handler.Signalling
  after : s.pc.AfterWait → s.remaining < 0 ∧ ¬ s.handler.Signalling

namespace Settling

variable {qDepth nblocks : Nat} {s t : WaitSystem}

theorem start {queue : NvmeQueue} (ioQueue : queue.qid ≠ 0)
    (fresh : queue.nextCharioTag = 0) :
    Settling queue.qDepth nblocks (WaitSystem.start queue nblocks) where
  core := Core.start ioQueue fresh
  sleeping := by simp [WaitSystem.start]
  passing := by simp [WaitSystem.start]
  after := by simp [WaitSystem.start, SubmitterPc.AfterWait]

theorem of_before (core : Core qDepth nblocks t) (before : t.pc.BeforeWait) :
    Settling qDepth nblocks t where
  core := core
  sleeping := by
    intro asleep
    simp [asleep, SubmitterPc.BeforeWait] at before
  passing := by
    intro position
    simp [position, SubmitterPc.BeforeWait] at before
  after isAfter := absurd isAfter before.not_afterWait

theorem of_frame (settling : Settling qDepth nblocks s)
    (core : Core qDepth nblocks t) (pc : t.pc = s.pc) (task : t.task = s.task)
    (kept : s.remaining < 0 ∧ ¬ s.handler.Signalling →
      t.remaining < 0 ∧ ¬ t.handler.Signalling) :
    Settling qDepth nblocks t where
  core := core
  sleeping := by
    rw [pc, task]
    exact settling.sleeping
  passing := by
    rw [pc, task]
    exact fun position runs => kept (settling.passing position runs)
  after := by
    rw [pc]
    exact fun isAfter => kept (settling.after isAfter)

theorem check (settling : Settling qDepth nblocks s)
    (allowed : Undisturbed s .check) (taken : s.check = some t) :
    Settling qDepth nblocks t := by
  have core := settling.core.check taken
  obtain ⟨position, rfl⟩ := check_eq_some taken
  refine ⟨core, by simp, ?_, by simp [SubmitterPc.AfterWait]⟩
  intro _ runs
  by_cases positive : 0 ≤ s.remaining
  · simp [positive] at runs
  · have negative : s.remaining < 0 := by omega
    exact ⟨negative, allowed negative⟩

theorem schedule (settling : Settling qDepth nblocks s)
    (taken : s.schedule = some t) : Settling qDepth nblocks t := by
  have core := settling.core.schedule taken
  obtain ⟨position, rfl⟩ := schedule_eq_some taken
  cases state : s.task with
  | running =>
      have passed := settling.passing position state
      rw [state] at core
      exact ⟨core, by simp, by simp, fun _ => passed⟩
  | uninterruptible =>
      rw [state] at core
      exact ⟨core, fun _ => rfl, by simp, by simp [SubmitterPc.AfterWait]⟩

theorem reset (settling : Settling qDepth nblocks s)
    (taken : s.reset = some t) : Settling qDepth nblocks t := by
  have core := settling.core.reset taken
  obtain ⟨position, rfl⟩ := reset_eq_some taken
  have passed := settling.after (by simp [position, SubmitterPc.AfterWait])
  exact ⟨core, by simp, by simp, fun _ => passed⟩

theorem cleanup (settling : Settling qDepth nblocks s)
    (taken : s.cleanup = some t) : Settling qDepth nblocks t := by
  have core := settling.core.cleanup taken
  obtain ⟨position, rfl⟩ := cleanup_eq_some taken
  have passed := settling.after (by simp [position, SubmitterPc.AfterWait])
  exact ⟨core, by simp, by simp, fun _ => passed⟩

theorem consume (settling : Settling qDepth nblocks s)
    (bounded : nblocks ≤ 1023) (taken : s.consume = some t) :
    Settling qDepth nblocks t := by
  have core := settling.core.consume bounded taken
  obtain ⟨tag, rest, looping, waiting, posted, ways⟩ :=
    settling.core.consume_cases bounded taken
  rcases ways with ⟨_, _, rfl⟩ | ⟨_, _, rfl⟩ | ⟨_, _, rfl⟩ | ⟨_, _, rfl⟩
  · exact settling.of_frame core rfl rfl id
  · exact settling.of_frame core rfl rfl id
  · exact settling.of_frame core rfl rfl
      (fun kept => ⟨kept.1, by simp [HandlerPc.Signalling]⟩)
  · exact settling.of_frame core rfl rfl id

theorem decrement (settling : Settling qDepth nblocks s)
    (taken : s.decrement = some t) : Settling qDepth nblocks t := by
  have core := settling.core.decrement taken
  obtain ⟨tag, deciding, rfl⟩ := decrement_eq_some taken
  have positive := Signals.remaining_of_deciding settling.core deciding
  exact settling.of_frame core rfl rfl
    (fun kept => absurd kept.1 (by omega))

theorem test (settling : Settling qDepth nblocks s) (taken : s.test = some t) :
    Settling qDepth nblocks t := by
  have core := settling.core.test taken
  obtain ⟨testing, rfl⟩ := test_eq_some taken
  exact settling.of_frame core rfl rfl
    (fun kept => absurd (by rw [testing]; trivial) kept.2)

theorem wake (settling : Settling qDepth nblocks s) (taken : s.wake = some t) :
    Settling qDepth nblocks t := by
  have core := settling.core.wake taken
  obtain ⟨waking, rfl⟩ := wake_eq_some taken
  have negative := settling.core.waking waking
  have passed : s.remaining < 0 ∧ ¬ HandlerPc.Signalling .loop :=
    ⟨negative, by simp [HandlerPc.Signalling]⟩
  refine ⟨core, ?_, fun _ _ => passed, fun _ => passed⟩
  intro asleep
  simp only [wakeUp] at asleep
  split at asleep
  · cases asleep
  · contradiction

theorem foreignWake (settling : Settling qDepth nblocks s)
    (runs : s.task = .running) : Settling qDepth nblocks s.wakeUp := by
  have awake : s.pc ≠ .asleep := by
    intro asleep
    have := settling.sleeping asleep
    simp [runs] at this
  exact settling.of_frame settling.core.wakeUp (by simp [wakeUp, awake])
    (by simp [wakeUp, runs]) id

theorem step (settling : Settling qDepth nblocks s) (bounded : nblocks ≤ 1023)
    {label : WaitLabel} (allowed : Undisturbed s label)
    (taken : s.step label = some t) : Settling qDepth nblocks t := by
  have core := settling.core.step bounded taken
  cases label with
  | take =>
      apply of_before core
      obtain ⟨-, rfl⟩ := take_eq_some taken
      trivial
  | register =>
      apply of_before core
      obtain ⟨tag, -, rfl⟩ := register_eq_some taken
      trivial
  | submit =>
      apply of_before core
      obtain ⟨tag, -, -, rfl⟩ := submit_eq_some taken
      simp only
      split <;> trivial
  | check => exact settling.check allowed taken
  | schedule => exact settling.schedule taken
  | reset => exact settling.reset taken
  | cleanup => exact settling.cleanup taken
  | post tag =>
      obtain ⟨-, rfl⟩ := post_eq_some taken
      exact settling.of_frame core rfl rfl id
  | repost tag =>
      obtain ⟨-, rfl⟩ := repost_eq_some taken
      exact settling.of_frame core rfl rfl id
  | enterCq =>
      obtain ⟨-, rfl⟩ := enterCq_eq_some taken
      exact settling.of_frame core rfl rfl
        (fun kept => ⟨kept.1, by simp [HandlerPc.Signalling]⟩)
  | consume => exact settling.consume bounded taken
  | exitCq =>
      obtain ⟨-, -, rfl⟩ := exitCq_eq_some taken
      exact settling.of_frame core rfl rfl
        (fun kept => ⟨kept.1, by simp [HandlerPc.Signalling]⟩)
  | decrement => exact settling.decrement taken
  | test => exact settling.test taken
  | wake => exact settling.wake taken
  | foreignWake =>
      cases taken
      exact settling.foreignWake allowed

theorem outlived (settling : Settling qDepth nblocks s) :
    Outlived nblocks s where
  atDevice isAfter :=
    settling.core.atDevice_of_length
      (settling.core.completed_of_negative (settling.after isAfter).1).1
  completed isAfter :=
    Signals.allCompleted_of_negative settling.core (settling.after isAfter).1
  cmdinfo := by
    intro isAfter
    obtain ⟨negative, quiet⟩ := settling.after isAfter
    cases position : s.handler with
    | out => simp [UsesCmdinfo]
    | loop => simp [UsesCmdinfo]
    | decrement tag =>
        have := Signals.remaining_of_deciding settling.core position
        omega
    | test => simp [position, HandlerPc.Signalling] at quiet
    | wake => simp [position, HandlerPc.Signalling] at quiet

end Settling

/-- In an undisturbed run the request outlives everything done to it. -/
theorem cmdinfo_outlives_undisturbed_run {queue : NvmeQueue} {nblocks : Nat}
    (ioQueue : queue.qid ≠ 0) (fresh : queue.nextCharioTag = 0)
    (bounded : nblocks ≤ 1023) {s : WaitSystem}
    (reach : Reach WaitSystem.step Undisturbed
      (WaitSystem.start queue nblocks) s) : Outlived nblocks s := by
  have settling : Settling queue.qDepth nblocks s :=
    reach.invariant (Settling.start ioQueue fresh)
      (fun settling allowed taken => settling.step bounded allowed taken)
  exact settling.outlived

def sleptRun : List WaitLabel :=
  issueLabels ++ issueLabels ++
    [.check, .schedule, .post 1, .enterCq, .consume, .decrement, .test,
      .post 0, .consume, .decrement, .test, .wake, .reset, .cleanup]

theorem cmdinfo_outlives_slept_run :
    ∃ s, Reach WaitSystem.step Undisturbed
        (WaitSystem.start (NvmeQueue.alloc 1 1024) 40) s ∧
      s.pc = .returned ∧ Outlived 40 s := by
  obtain ⟨s, ran⟩ : ∃ s, runGuarded WaitSystem.step Undisturbed
      (WaitSystem.start (NvmeQueue.alloc 1 1024) 40) sleptRun = some s :=
    Option.isSome_iff_exists.mp (by decide)
  have returned : (runGuarded WaitSystem.step Undisturbed
      (WaitSystem.start (NvmeQueue.alloc 1 1024) 40) sleptRun).map (·.pc) =
      some .returned := by decide
  rw [ran] at returned
  have reach := Reach.of_runGuarded ran
  exact ⟨s, reach, by simpa using returned,
    cmdinfo_outlives_undisturbed_run (by decide) rfl (by decide) reach⟩

/-- The task looks at the counter between the handler's decrement and its test,
does not sleep, and returns. -/
def raceRun : List WaitLabel :=
  issueLabels ++
    [.post 0, .enterCq, .consume, .decrement, .check, .schedule, .reset,
      .cleanup]

def strayRun : List WaitLabel :=
  issueLabels ++ [.check, .schedule, .foreignWake, .reset, .cleanup]

theorem returned_request_still_in_use :
    (∃ s, Reach WaitSystem.step anyStep
        (WaitSystem.start (NvmeQueue.alloc 1 1024) 0) s ∧
      s.pc = .returned ∧ s.handler = .test) ∧
    ∃ s, Reach WaitSystem.step anyStep
        (WaitSystem.start (NvmeQueue.alloc 1 1024) 0) s ∧
      s.pc = .returned ∧ s.atDevice = [0] := by
  constructor
  · obtain ⟨s, ran⟩ : ∃ s, runSteps WaitSystem.step
        (WaitSystem.start (NvmeQueue.alloc 1 1024) 0) raceRun = some s :=
      Option.isSome_iff_exists.mp rfl
    have facts : (runSteps WaitSystem.step
        (WaitSystem.start (NvmeQueue.alloc 1 1024) 0) raceRun).map
          (fun s => (s.pc, s.handler)) = some (.returned, .test) := rfl
    rw [ran] at facts
    simp only [Option.map_some, Option.some.injEq, Prod.mk.injEq] at facts
    exact ⟨s, .of_runSteps ran, facts⟩
  · obtain ⟨s, ran⟩ : ∃ s, runSteps WaitSystem.step
        (WaitSystem.start (NvmeQueue.alloc 1 1024) 0) strayRun = some s :=
      Option.isSome_iff_exists.mp rfl
    have facts : (runSteps WaitSystem.step
        (WaitSystem.start (NvmeQueue.alloc 1 1024) 0) strayRun).map
          (fun s => (s.pc, s.atDevice)) = some (.returned, [0]) := rfl
    rw [ran] at facts
    simp only [Option.map_some, Option.some.injEq, Prod.mk.injEq] at facts
    exact ⟨s, .of_runSteps ran, facts⟩

end WaitSystem

end Chario.Queue
