import Mathlib.Data.List.Basic
import Mathlib.Data.List.Perm.Subperm
import Mathlib.Tactic.Ring
import Chario.Library.Transition
import Chario.Queue.WaitProtocol

namespace Chario.Queue

open Chario.Library

namespace SubmitterPc

def BeforeWait : SubmitterPc → Prop
  | .take | .register _ | .submit _ | .check => True
  | _ => False

def AfterWait : SubmitterPc → Prop
  | .left | .cleanup | .returned => True
  | _ => False

theorem BeforeWait.not_afterWait {pc : SubmitterPc} (isBefore : pc.BeforeWait) :
    ¬ pc.AfterWait := by
  cases pc <;> simp_all [BeforeWait, AfterWait]

end SubmitterPc

namespace HandlerPc

/-- A `chario_completion` is past its decrement and has still to test the
counter or to wake the task. -/
def Signalling : HandlerPc → Prop
  | .test | .wake => True
  | _ => False

end HandlerPc

namespace WaitSystem

/-- Runs in which only the handler of this request wakes the task. -/
def NoForeign (_ : WaitSystem) (label : WaitLabel) : Prop :=
  label ≠ .foreignWake

instance (s : WaitSystem) (label : WaitLabel) :
    Decidable (NoForeign s label) :=
  inferInstanceAs (Decidable (label ≠ .foreignWake))

structure Signals (qDepth nblocks : Nat) (s : WaitSystem) : Prop where
  core : Core qDepth nblocks s
  before : s.pc.BeforeWait → s.task = .running
  quiet : 0 ≤ s.remaining → s.wakes = []
  signalling : s.handler.Signalling → s.wakes = []
  counted : s.wakes = [] ∨ s.wakes = [subCommands nblocks]
  passing : s.pc = .schedule → s.task = .running → s.remaining < 0
  sleeping : s.pc = .asleep → s.task = .uninterruptible
  pending : s.task = .uninterruptible →
    0 ≤ s.remaining ∨ s.handler.Signalling
  after : s.pc.AfterWait → s.remaining < 0

namespace Signals

variable {qDepth nblocks : Nat} {s t : WaitSystem}

theorem start {queue : NvmeQueue} (ioQueue : queue.qid ≠ 0)
    (fresh : queue.nextCharioTag = 0) :
    Signals queue.qDepth nblocks (WaitSystem.start queue nblocks) where
  core := Core.start ioQueue fresh
  before _ := rfl
  quiet _ := rfl
  signalling _ := rfl
  counted := .inl rfl
  passing := by simp [WaitSystem.start]
  sleeping := by simp [WaitSystem.start]
  pending := by simp [WaitSystem.start]
  after := by simp [WaitSystem.start, SubmitterPc.AfterWait]

theorem of_move (signals : Signals qDepth nblocks s)
    (core : Core qDepth nblocks t) (task : t.task = s.task)
    (remaining : t.remaining = s.remaining) (handler : t.handler = s.handler)
    (wakes : t.wakes = s.wakes)
    (side : s.pc.BeforeWait ∧ t.pc.BeforeWait ∨
      s.pc.AfterWait ∧ t.pc.AfterWait) : Signals qDepth nblocks t where
  core := core
  before := by
    intro isBefore
    rcases side with ⟨wasBefore, -⟩ | ⟨-, isAfter⟩
    · rw [task]
      exact signals.before wasBefore
    · exact absurd isAfter isBefore.not_afterWait
  quiet := by simpa only [remaining, wakes] using signals.quiet
  signalling := by simpa only [handler, wakes] using signals.signalling
  counted := by simpa only [wakes] using signals.counted
  passing := by
    intro position
    simp [position, SubmitterPc.BeforeWait, SubmitterPc.AfterWait] at side
  sleeping := by
    intro asleep
    simp [asleep, SubmitterPc.BeforeWait, SubmitterPc.AfterWait] at side
  pending := by simpa only [task, remaining, handler] using signals.pending
  after := by
    intro isAfter
    rcases side with ⟨-, isBefore⟩ | ⟨wasAfter, -⟩
    · exact absurd isAfter isBefore.not_afterWait
    · rw [remaining]
      exact signals.after wasAfter

theorem of_frame (signals : Signals qDepth nblocks s)
    (core : Core qDepth nblocks t) (pc : t.pc = s.pc) (task : t.task = s.task)
    (remaining : t.remaining = s.remaining) (wakes : t.wakes = s.wakes)
    (handler : t.handler.Signalling ↔ s.handler.Signalling) :
    Signals qDepth nblocks t where
  core := core
  before := by simpa only [pc, task] using signals.before
  quiet := by simpa only [remaining, wakes] using signals.quiet
  signalling := by simpa only [handler, wakes] using signals.signalling
  counted := by simpa only [wakes] using signals.counted
  passing := by simpa only [pc, task, remaining] using signals.passing
  sleeping := by simpa only [pc, task] using signals.sleeping
  pending := by simpa only [task, remaining, handler] using signals.pending
  after := by simpa only [pc, remaining] using signals.after

theorem take (signals : Signals qDepth nblocks s) (taken : s.take = some t) :
    Signals qDepth nblocks t := by
  have core := signals.core.take taken
  obtain ⟨position, rfl⟩ := take_eq_some taken
  apply signals.of_move core rfl rfl rfl rfl
  exact .inl ⟨by rw [position]; trivial, trivial⟩

theorem register (signals : Signals qDepth nblocks s)
    (taken : s.register = some t) : Signals qDepth nblocks t := by
  have core := signals.core.register taken
  obtain ⟨tag, position, rfl⟩ := register_eq_some taken
  apply signals.of_move core rfl rfl rfl rfl
  exact .inl ⟨by rw [position]; trivial, trivial⟩

theorem submit (signals : Signals qDepth nblocks s)
    (taken : s.submit = some t) : Signals qDepth nblocks t := by
  have core := signals.core.submit taken
  obtain ⟨tag, position, idle, rfl⟩ := submit_eq_some taken
  apply signals.of_move core rfl rfl rfl rfl
  refine .inl ⟨by rw [position]; trivial, ?_⟩
  simp only
  split <;> trivial

theorem check (signals : Signals qDepth nblocks s) (taken : s.check = some t) :
    Signals qDepth nblocks t := by
  have core := signals.core.check taken
  obtain ⟨position, rfl⟩ := check_eq_some taken
  have runs := signals.before (by simp [position, SubmitterPc.BeforeWait])
  refine { signals with
    core := core
    before := by simp [SubmitterPc.BeforeWait]
    passing := ?_
    sleeping := by simp
    pending := ?_
    after := by simp [SubmitterPc.AfterWait] }
  · intro _ still
    by_cases positive : 0 ≤ s.remaining
    · simp [positive] at still
    · simpa using positive
  · intro waits
    by_cases positive : 0 ≤ s.remaining
    · exact .inl positive
    · simp [positive, runs] at waits

theorem schedule (signals : Signals qDepth nblocks s)
    (taken : s.schedule = some t) : Signals qDepth nblocks t := by
  have core := signals.core.schedule taken
  obtain ⟨position, rfl⟩ := schedule_eq_some taken
  cases state : s.task with
  | running =>
      have negative := signals.passing position state
      rw [state] at core
      exact { signals with
        core := core
        before := by simp [SubmitterPc.BeforeWait]
        passing := by simp
        sleeping := by simp
        pending := by simp
        after := fun _ => negative }
  | uninterruptible =>
      have pending := signals.pending state
      rw [state] at core
      exact { signals with
        core := core
        before := by simp [SubmitterPc.BeforeWait]
        passing := by simp
        sleeping := fun _ => rfl
        pending := fun _ => pending
        after := by simp [SubmitterPc.AfterWait] }

theorem reset (signals : Signals qDepth nblocks s) (taken : s.reset = some t) :
    Signals qDepth nblocks t := by
  have core := signals.core.reset taken
  obtain ⟨position, rfl⟩ := reset_eq_some taken
  apply signals.of_move core rfl rfl rfl rfl
  exact .inr ⟨by rw [position]; trivial, trivial⟩

theorem cleanup (signals : Signals qDepth nblocks s)
    (taken : s.cleanup = some t) : Signals qDepth nblocks t := by
  have core := signals.core.cleanup taken
  obtain ⟨position, rfl⟩ := cleanup_eq_some taken
  apply signals.of_move core rfl rfl rfl rfl
  exact .inr ⟨by rw [position]; trivial, trivial⟩

theorem post (signals : Signals qDepth nblocks s) {tag : Nat}
    (taken : s.post tag = some t) : Signals qDepth nblocks t := by
  have core := signals.core.post taken
  obtain ⟨-, rfl⟩ := post_eq_some taken
  exact signals.of_frame core rfl rfl rfl rfl Iff.rfl

theorem repost (signals : Signals qDepth nblocks s) {tag : Nat}
    (taken : s.repost tag = some t) : Signals qDepth nblocks t := by
  have core := signals.core.repost taken
  obtain ⟨-, rfl⟩ := repost_eq_some taken
  exact signals.of_frame core rfl rfl rfl rfl Iff.rfl

theorem enterCq (signals : Signals qDepth nblocks s)
    (taken : s.enterCq = some t) : Signals qDepth nblocks t := by
  have core := signals.core.enterCq taken
  obtain ⟨idle, rfl⟩ := enterCq_eq_some taken
  apply signals.of_frame core rfl rfl rfl rfl
  simp [idle, HandlerPc.Signalling]

theorem exitCq (signals : Signals qDepth nblocks s)
    (taken : s.exitCq = some t) : Signals qDepth nblocks t := by
  have core := signals.core.exitCq taken
  obtain ⟨looping, -, rfl⟩ := exitCq_eq_some taken
  apply signals.of_frame core rfl rfl rfl rfl
  simp [looping, HandlerPc.Signalling]

theorem consume (signals : Signals qDepth nblocks s)
    (bounded : nblocks ≤ 1023) (taken : s.consume = some t) :
    Signals qDepth nblocks t := by
  have core := signals.core.consume bounded taken
  obtain ⟨tag, rest, looping, waiting, posted, ways⟩ :=
    signals.core.consume_cases bounded taken
  rcases ways with ⟨_, _, rfl⟩ | ⟨_, _, rfl⟩ | ⟨_, _, rfl⟩ | ⟨_, _, rfl⟩
  · exact signals.of_frame core rfl rfl rfl rfl Iff.rfl
  · exact signals.of_frame core rfl rfl rfl rfl Iff.rfl
  · apply signals.of_frame core rfl rfl rfl rfl
    simp [looping, HandlerPc.Signalling]
  · exact signals.of_frame core rfl rfl rfl rfl Iff.rfl

theorem remaining_of_deciding (core : Core qDepth nblocks s) {tag : Nat}
    (deciding : s.handler = .decrement tag) : 0 ≤ s.remaining := by
  by_contra negative
  have all := core.completed_of_negative (by omega)
  obtain ⟨posted, open', -⟩ := core.deciding tag deciding
  have isIssued := core.posted_lt posted
  exact open' (core.mem_completed_of_length all.1 (by omega))

theorem decrement (signals : Signals qDepth nblocks s)
    (taken : s.decrement = some t) : Signals qDepth nblocks t := by
  have core := signals.core.decrement taken
  obtain ⟨tag, deciding, rfl⟩ := decrement_eq_some taken
  have none := signals.quiet (remaining_of_deciding signals.core deciding)
  exact { signals with
    core := core
    quiet := fun _ => none
    signalling := fun _ => none
    passing := by
      intro position runs
      have := signals.passing position runs
      unfold reqMaxBlocks
      simp only
      omega
    pending := fun _ => .inr trivial
    after := by
      intro isAfter
      have := signals.after isAfter
      unfold reqMaxBlocks
      simp only
      omega }

theorem test (signals : Signals qDepth nblocks s) (taken : s.test = some t) :
    Signals qDepth nblocks t := by
  have core := signals.core.test taken
  obtain ⟨testing, rfl⟩ := test_eq_some taken
  have none := signals.signalling (by simp [testing, HandlerPc.Signalling])
  refine { signals with
    core := core
    signalling := fun _ => none
    pending := ?_ }
  intro _
  by_cases negative : s.remaining < 0
  · exact .inr (by simp [negative, HandlerPc.Signalling])
  · exact .inl (by simpa using negative)

theorem wake (signals : Signals qDepth nblocks s) (taken : s.wake = some t) :
    Signals qDepth nblocks t := by
  have core := signals.core.wake taken
  obtain ⟨waking, rfl⟩ := wake_eq_some taken
  have negative := signals.core.waking waking
  have none := signals.signalling (by simp [waking, HandlerPc.Signalling])
  have all := (signals.core.completed_of_negative negative).1
  exact {
    core := core
    before := fun _ => rfl
    quiet := fun positive => absurd positive (by simpa [wakeUp] using negative)
    signalling := by simp [HandlerPc.Signalling]
    counted := .inr (by simp [none, all])
    passing := fun _ _ => negative
    sleeping := by
      intro asleep
      simp only [wakeUp] at asleep
      split at asleep
      · cases asleep
      · contradiction
    pending := by simp [wakeUp]
    after := fun _ => negative }

theorem step (signals : Signals qDepth nblocks s) (bounded : nblocks ≤ 1023)
    {label : WaitLabel} (allowed : NoForeign s label)
    (taken : s.step label = some t) : Signals qDepth nblocks t := by
  cases label with
  | take => exact signals.take taken
  | register => exact signals.register taken
  | submit => exact signals.submit taken
  | check => exact signals.check taken
  | schedule => exact signals.schedule taken
  | reset => exact signals.reset taken
  | cleanup => exact signals.cleanup taken
  | post tag => exact signals.post taken
  | repost tag => exact signals.repost taken
  | enterCq => exact signals.enterCq taken
  | consume => exact signals.consume bounded taken
  | exitCq => exact signals.exitCq taken
  | decrement => exact signals.decrement taken
  | test => exact signals.test taken
  | wake => exact signals.wake taken
  | foreignWake => exact absurd rfl allowed

end Signals

/-! What the protocol promises for a request of `nblocks + 1` blocks. -/

def AllCompleted (nblocks : Nat) (s : WaitSystem) : Prop :=
  ∀ tag < subCommands nblocks, tag ∈ s.completed

structure Correct (nblocks : Nat) (s : WaitSystem) : Prop where
  tags : s.issued = List.range s.issued.length
  tags_le : s.issued.length ≤ subCommands nblocks
  tags_fit : subCommands nblocks ≤ charioCmdCount
  all_issued : s.pc = .schedule ∨ s.pc = .asleep ∨ s.pc.AfterWait →
    s.issued.length = subCommands nblocks
  counter : s.remaining < 0 ↔ s.AllCompleted nblocks
  wakes : s.wakes = [] ∨ s.wakes = [subCommands nblocks]
  not_early : s.pc.AfterWait → s.atDevice = [] ∧ s.AllCompleted nblocks
  not_lost : s.task = .uninterruptible → s.AllCompleted nblocks →
    s.handler.Signalling
  asleep : s.pc = .asleep → s.task = .uninterruptible
  released : s.pc = .cleanup ∨ s.pc = .returned → s.queue.nextCharioTag = 0

namespace Signals

variable {qDepth nblocks : Nat} {s t : WaitSystem}

theorem remaining_of_allCompleted (core : Core qDepth nblocks s)
    (covered : subCommands nblocks ≤ qDepth)
    (all : s.AllCompleted nblocks) : s.remaining < 0 := by
  have subset : List.range (subCommands nblocks) ⊆
      s.completed.filter (· < qDepth) := by
    intro tag member
    have below := List.mem_range.mp member
    exact List.mem_filter.mpr ⟨all tag below, by simpa using by omega⟩
  have count := (List.subperm_of_subset List.nodup_range subset).length_le
  rw [List.length_range] at count
  rw [core.remaining]
  unfold subCommands reqMaxBlocks at *
  omega

theorem remaining_of_depth_lt (core : Core qDepth nblocks s)
    (short : qDepth < subCommands nblocks) : 0 ≤ s.remaining := by
  have subset : s.completed.filter (· < qDepth) ⊆ List.range qDepth := by
    intro tag member
    simpa using (List.mem_filter.mp member).2
  have nodup := core.completed_nodup.filter (fun tag => decide (tag < qDepth))
  have count := (List.subperm_of_subset nodup subset).length_le
  rw [List.length_range] at count
  rw [core.remaining]
  unfold subCommands reqMaxBlocks at *
  omega

theorem allCompleted_of_negative (core : Core qDepth nblocks s)
    (negative : s.remaining < 0) : s.AllCompleted nblocks :=
  fun _ below =>
    core.mem_completed_of_length (core.completed_of_negative negative).1 below

theorem correct (signals : Signals qDepth nblocks s)
    (covered : subCommands nblocks ≤ qDepth) (bounded : nblocks ≤ 1023) :
    Correct nblocks s where
  tags := signals.core.issued
  tags_le := signals.core.issued_length_le
  tags_fit := by
    unfold subCommands reqMaxBlocks charioCmdCount
    omega
  all_issued := by
    have facts := signals.core.facts
    unfold PcFacts at facts
    cases position : s.pc <;>
      simp_all [SubmitterPc.AfterWait]
  counter :=
    ⟨allCompleted_of_negative signals.core,
      remaining_of_allCompleted signals.core covered⟩
  wakes := signals.counted
  not_early := by
    intro isAfter
    have negative := signals.after isAfter
    have all := (signals.core.completed_of_negative negative).1
    exact ⟨signals.core.atDevice_of_length all,
      allCompleted_of_negative signals.core negative⟩
  not_lost := by
    intro waits all
    have negative := remaining_of_allCompleted signals.core covered all
    exact (signals.pending waits).resolve_left (by omega)
  asleep := signals.sleeping
  released := by
    have facts := signals.core.facts
    unfold PcFacts at facts
    rintro (position | position) <;> rw [position] at facts <;>
      exact facts.2

end Signals

/-! The request can always go on: some step other than a foreign wake-up lowers
the work left, until the task has returned or sleeps with nothing in flight. -/

def submitterSteps : SubmitterPc → Nat
  | .take => 8
  | .register _ => 7
  | .submit _ => 6
  | .check => 5
  | .schedule => 4
  | .asleep => 3
  | .left => 2
  | .cleanup => 1
  | .returned => 0

def handlerSteps (cq : List Nat) : HandlerPc → Nat
  | .decrement _ => 4
  | .test => 3
  | .wake => 2
  | .loop => 1
  | .out => if cq = [] then 0 else 5

def workLeft (nblocks : Nat) (s : WaitSystem) : Nat :=
  100 * (subCommands nblocks - s.issued.length) + 20 * s.atDevice.length +
    10 * s.cq.length + handlerSteps s.cq s.handler + submitterSteps s.pc

def Settled (s : WaitSystem) : Prop :=
  s.pc = .returned ∨
    (s.pc = .asleep ∧ s.atDevice = [] ∧ s.cq = [] ∧ s.handler = .out)

def CanAdvance (nblocks : Nat) (s : WaitSystem) : Prop :=
  ∃ label t, NoForeign s label ∧ s.step label = some t ∧
    workLeft nblocks t < workLeft nblocks s

theorem CanAdvance.intro {nblocks : Nat} {s : WaitSystem} (label : WaitLabel)
    (own : NoForeign s label)
    (lower : ∃ t, s.step label = some t ∧
      workLeft nblocks t < workLeft nblocks s) : CanAdvance nblocks s :=
  ⟨label, lower.choose, own, lower.choose_spec⟩

namespace Core

variable {qDepth nblocks : Nat} {s : WaitSystem}

theorem advance_handler (core : Core qDepth nblocks s)
    (bounded : nblocks ≤ 1023) (busy : s.handler ≠ .out) :
    CanAdvance nblocks s := by
  cases position : s.handler with
  | out => exact absurd position busy
  | decrement tag =>
      refine .intro .decrement (by simp [NoForeign]) ?_
      simp only [WaitSystem.step, WaitSystem.decrement, position,
        Option.some.injEq, exists_eq_left']
      simp [workLeft, position, handlerSteps]
  | test =>
      refine .intro .test (by simp [NoForeign]) ?_
      simp only [WaitSystem.step, WaitSystem.test, position,
        Option.some.injEq, exists_eq_left']
      by_cases negative : s.remaining < 0 <;>
        simp [workLeft, position, handlerSteps, negative]
  | wake =>
      refine .intro .wake (by simp [NoForeign]) ?_
      simp only [WaitSystem.step, WaitSystem.wake, position,
        Option.some.injEq, exists_eq_left']
      by_cases sleeps : s.pc = .asleep <;>
        simp [workLeft, position, handlerSteps, submitterSteps,
          WaitSystem.wakeUp, sleeps]
  | loop =>
      cases waiting : s.cq with
      | nil =>
          refine .intro .exitCq (by simp [NoForeign]) ?_
          simp only [WaitSystem.step, WaitSystem.exitCq, position, waiting,
            Option.some.injEq, exists_eq_left']
          simp [workLeft, position, handlerSteps, waiting]
      | cons tag rest =>
          obtain ⟨t, taken⟩ : ∃ t, s.consume = some t := by
            simp [WaitSystem.consume, position, waiting]
          refine ⟨.consume, t, by simp [NoForeign], taken, ?_⟩
          obtain ⟨tag', rest', -, same, -, ways⟩ :=
            core.consume_cases bounded taken
          rcases ways with ⟨_, _, rfl⟩ | ⟨_, _, rfl⟩ | ⟨_, _, rfl⟩ | ⟨_, _, rfl⟩
          all_goals
            simp only [workLeft, position, handlerSteps, same,
              List.length_cons]
            omega

theorem advance_queue (_ : Core qDepth nblocks s) (idle : s.handler = .out)
    (waiting : s.cq ≠ []) : CanAdvance nblocks s := by
  refine .intro .enterCq (by simp [NoForeign]) ?_
  simp only [WaitSystem.step, WaitSystem.enterCq, idle, Option.some.injEq,
    exists_eq_left']
  simp [workLeft, idle, handlerSteps, waiting]

theorem advance_device (_ : Core qDepth nblocks s) (idle : s.handler = .out)
    (empty : s.cq = []) (held : s.atDevice ≠ []) : CanAdvance nblocks s := by
  obtain ⟨tag, member⟩ := List.exists_mem_of_ne_nil _ held
  refine .intro (.post tag) (by simp [NoForeign]) ?_
  simp only [WaitSystem.step, WaitSystem.post, if_pos member,
    Option.some.injEq, exists_eq_left']
  have shorter := List.length_erase_of_mem member
  have positive := List.length_pos_of_mem member
  simp only [workLeft, idle, empty, handlerSteps, List.nil_append,
    List.length_nil, List.cons_ne_nil, List.length_singleton, if_true,
    if_false]
  omega

theorem advance_submitter (core : Core qDepth nblocks s)
    (idle : s.handler = .out) (awake : s.pc ≠ .asleep)
    (running : s.pc ≠ .returned) : CanAdvance nblocks s := by
  have facts := core.facts
  unfold PcFacts at facts
  cases position : s.pc with
  | take =>
      refine .intro .take (by simp [NoForeign]) ?_
      simp only [WaitSystem.step, WaitSystem.take, position,
        Option.some.injEq, exists_eq_left']
      simp [workLeft, position, submitterSteps]
  | register tag =>
      refine .intro .register (by simp [NoForeign]) ?_
      simp only [WaitSystem.step, WaitSystem.register, position,
        Option.some.injEq, exists_eq_left']
      simp [workLeft, position, submitterSteps]
  | submit tag =>
      simp only [position] at facts
      have notAll : s.issued.length < subCommands nblocks := by
        unfold subCommands reqMaxBlocks at *
        omega
      refine .intro .submit (by simp [NoForeign]) ?_
      simp only [WaitSystem.step, WaitSystem.submit, position, idle,
        Option.some.injEq,
        exists_eq_left']
      have turn : submitterSteps
          (if reqMaxBlocks ≤ s.blocksLeft then .take else .check) ≤ 8 := by
        split <;> simp [submitterSteps]
      simp only [workLeft, idle, List.length_append, List.length_singleton]
      omega
  | check =>
      refine .intro .check (by simp [NoForeign]) ?_
      simp only [WaitSystem.step, WaitSystem.check, position,
        Option.some.injEq, exists_eq_left']
      simp [workLeft, position, submitterSteps]
  | schedule =>
      refine .intro .schedule (by simp [NoForeign]) ?_
      simp only [WaitSystem.step, WaitSystem.schedule, position,
        Option.some.injEq, exists_eq_left']
      by_cases runs : s.task = .running <;>
        simp [workLeft, position, submitterSteps, runs]
  | asleep => exact absurd position awake
  | left =>
      refine .intro .reset (by simp [NoForeign]) ?_
      simp only [WaitSystem.step, WaitSystem.reset, position,
        Option.some.injEq, exists_eq_left']
      simp [workLeft, position, submitterSteps]
  | cleanup =>
      refine .intro .cleanup (by simp [NoForeign]) ?_
      simp only [WaitSystem.step, WaitSystem.cleanup, position,
        Option.some.injEq, exists_eq_left']
      simp [workLeft, position, submitterSteps]
  | returned => exact absurd position running

theorem advance (core : Core qDepth nblocks s) (bounded : nblocks ≤ 1023)
    (unsettled : ¬ s.Settled) : CanAdvance nblocks s := by
  by_cases idle : s.handler = .out
  · by_cases empty : s.cq = []
    · by_cases held : s.atDevice = []
      · refine core.advance_submitter idle ?_ ?_
        · exact fun asleep => unsettled (.inr ⟨asleep, held, empty, idle⟩)
        · exact fun returned => unsettled (.inl returned)
      · exact core.advance_device idle empty held
    · exact core.advance_queue idle empty
  · exact core.advance_handler bounded idle

theorem allCompleted_of_settled (core : Core qDepth nblocks s)
    (asleep : s.pc = .asleep) (atDevice : s.atDevice = [])
    (empty : s.cq = []) (idle : s.handler = .out) :
    s.AllCompleted nblocks := by
  have facts := core.facts
  simp only [PcFacts, asleep] at facts
  intro tag below
  rw [← facts.1] at below
  have posted : tag ∈ s.posted := by
    rcases (core.submitted tag).mpr below with held | posted
    · simp [atDevice] at held
    · exact posted
  rcases core.pending tag posted with done | deciding | waiting
  · exact done
  · simp [idle] at deciding
  · simp [empty] at waiting

end Core

theorem Signals.exists_returned {qDepth nblocks : Nat} {s : WaitSystem}
    (signals : Signals qDepth nblocks s)
    (covered : subCommands nblocks ≤ qDepth) (bounded : nblocks ≤ 1023) :
    ∃ t, Reach WaitSystem.step NoForeign s t ∧ t.pc = .returned := by
  have settles : ∃ t, Reach WaitSystem.step NoForeign s t ∧
      t.Settled ∧ Signals qDepth nblocks t := by
    refine exists_reach_of_measure (workLeft nblocks) ?_ ?_ signals
    · intro current following label signals allowed taken
      exact signals.step bounded allowed taken
    · intro current signals unsettled
      exact signals.core.advance bounded
        (fun settled => unsettled ⟨settled, signals⟩)
  obtain ⟨t, reach, settled, last⟩ := settles
  refine ⟨t, reach, ?_⟩
  rcases settled with returned | ⟨asleep, atDevice, empty, idle⟩
  · exact returned
  · have all := last.core.allCompleted_of_settled asleep atDevice empty idle
    have correct := last.correct covered bounded
    have signalling := correct.not_lost (correct.asleep asleep) all
    simp [idle, HandlerPc.Signalling] at signalling

section Results

variable (queue : NvmeQueue) (nblocks : Nat)

/-- Every state of every run is `Correct`, and the request can still finish. -/
def Sound : Prop :=
  ∀ s, Reach WaitSystem.step NoForeign (WaitSystem.start queue nblocks) s →
    Correct nblocks s ∧
      ∃ t, Reach WaitSystem.step NoForeign s t ∧ t.pc = .returned

/-- `nvme_finish_cmd` drops a completion whose tag is not below `q_depth`, so
the protocol is sound exactly for requests with at most `q_depth`
sub-commands. -/
theorem chario_wait_sound_iff (ioQueue : queue.qid ≠ 0)
    (fresh : queue.nextCharioTag = 0) (bounded : nblocks ≤ 1023) :
    Sound queue nblocks ↔ subCommands nblocks ≤ queue.qDepth := by
  have signals : ∀ {s}, Reach WaitSystem.step NoForeign
      (WaitSystem.start queue nblocks) s →
      Signals queue.qDepth nblocks s :=
    Reach.invariant (Signals.start ioQueue fresh)
      (fun signals allowed taken => signals.step bounded allowed taken)
  constructor
  · intro sound
    by_contra short
    obtain ⟨t, reach, returned⟩ := (sound _ .start).2
    have last := signals reach
    have negative := last.after (by simp [returned, SubmitterPc.AfterWait])
    have positive := Signals.remaining_of_depth_lt last.core (by omega)
    omega
  · intro covered s reach
    exact ⟨(signals reach).correct covered bounded,
      (signals reach).exists_returned covered bounded⟩

end Results

theorem chario_wait_sound_largest :
    Sound (NvmeQueue.alloc 1 1024) 1023 :=
  (chario_wait_sound_iff (NvmeQueue.alloc 1 1024) 1023 (by decide) rfl
    (by decide)).mpr (by decide)

def issueLabels : List WaitLabel := [.take, .register, .submit]

/-- Three sub-commands on a ring of two entries: the completion of tag 2 is
dropped, and the task sleeps on with nothing in flight. -/
def droppedRun : List WaitLabel :=
  issueLabels ++ issueLabels ++ issueLabels ++
    [.check, .schedule, .post 0, .post 1, .post 2, .enterCq,
      .consume, .decrement, .test, .consume, .decrement, .test,
      .consume, .exitCq]

theorem three_sub_commands_stall_two_slots :
    ∃ s, Reach WaitSystem.step NoForeign
        (WaitSystem.start (NvmeQueue.alloc 1 2) 64) s ∧
      s.completed = [0, 1, 2] ∧ s.remaining = 0 ∧ s.pc = .asleep ∧
      s.atDevice = [] ∧ s.cq = [] ∧ s.handler = .out ∧ ¬ Correct 64 s := by
  obtain ⟨s, ran⟩ : ∃ s, runGuarded WaitSystem.step NoForeign
      (WaitSystem.start (NvmeQueue.alloc 1 2) 64) droppedRun = some s :=
    Option.isSome_iff_exists.mp rfl
  have facts : (runGuarded WaitSystem.step NoForeign
      (WaitSystem.start (NvmeQueue.alloc 1 2) 64) droppedRun).map
        (fun s => (s.completed, s.remaining, s.pc, s.atDevice, s.cq,
          s.handler)) =
      some ([0, 1, 2], 0, .asleep, [], [], .out) := rfl
  rw [ran] at facts
  simp only [Option.map_some, Option.some.injEq, Prod.mk.injEq] at facts
  obtain ⟨completed, remaining, asleep, atDevice, empty, idle⟩ := facts
  refine ⟨s, .of_runGuarded ran, completed, remaining, asleep, atDevice, empty,
    idle, ?_⟩
  intro correct
  have all : s.AllCompleted 64 := by
    unfold AllCompleted
    rw [completed]
    decide
  have negative := correct.counter.mpr all
  omega

end WaitSystem

end Chario.Queue
