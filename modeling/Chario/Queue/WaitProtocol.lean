import Mathlib.Data.List.Basic
import Mathlib.Data.List.Nodup
import Mathlib.Data.List.Range
import Mathlib.Data.List.Perm.Subperm
import Mathlib.Tactic.Ring
import Chario.Library.Transition
import Chario.Queue.Command
import Chario.Queue.SubmissionRing

namespace Chario.Queue

open Chario.Library

/-! One request of `nvme_submit_io_chario` or `nvme_submit_io_chario_phys`: the
submitting task, the controller, and the completion handler that runs inside
`nvme_process_cq` with `q_lock` held.  The two submitters issue, wait and clean
up in the same way. -/

/-- Where the submitting task is.  `left` is the point just after `schedule()`,
`cleanup` the unmapping and freeing after the tag reset. -/
inductive SubmitterPc
  | take
  | register (tag : Nat)
  | submit (tag : Nat)
  | check
  | schedule
  | asleep
  | left
  | cleanup
  | returned
deriving DecidableEq, Repr

/-- Where the handler is.  `loop` is inside `nvme_process_cq` between entries;
the other three are the steps of `chario_completion`. -/
inductive HandlerPc
  | out
  | loop
  | decrement (tag : Nat)
  | test
  | wake
deriving DecidableEq, Repr

inductive TaskState
  | running
  | uninterruptible
deriving DecidableEq, Repr

/-- `remaining` is `cmdinfo.remaining` and `blocksLeft` is `remaining_blocks`.
`cq` holds the posted entries not yet consumed; `posted`, `issued`, `completed`
and `wakes` record the run. -/
structure WaitSystem where
  queue : NvmeQueue
  nblocks : Nat
  blocksLeft : Nat
  pc : SubmitterPc
  task : TaskState
  remaining : Int
  handler : HandlerPc
  atDevice : List Nat
  cq : List Nat
  posted : List Nat
  issued : List Nat
  completed : List Nat
  wakes : List Nat

inductive WaitLabel
  | take
  | register
  | submit
  | check
  | schedule
  | reset
  | cleanup
  | post (tag : Nat)
  | repost (tag : Nat)
  | enterCq
  | consume
  | exitCq
  | decrement
  | test
  | wake
  | foreignWake
deriving DecidableEq, Repr

def cmdinfoOwner : Nat := 0

namespace WaitSystem

def start (queue : NvmeQueue) (nblocks : Nat) : WaitSystem where
  queue := queue
  nblocks := nblocks
  blocksLeft := nblocks
  pc := .take
  task := .running
  remaining := nblocks
  handler := .out
  atDevice := []
  cq := []
  posted := []
  issued := []
  completed := []
  wakes := []

def subCommands (nblocks : Nat) : Nat := nblocks / reqMaxBlocks + 1

/-! Steps of the submitter. -/

def take (s : WaitSystem) : Option WaitSystem :=
  match s.pc with
  | .take =>
      some { s with
        queue := s.queue.takeTag
        pc := .register s.queue.nextCharioTag }
  | _ => none

def register (s : WaitSystem) : Option WaitSystem :=
  match s.pc with
  | .register tag =>
      some { s with
        queue := s.queue.setChario tag (.chario cmdinfoOwner)
        pc := .submit tag }
  | _ => none

/-- `nvme_submit_cmd_chario` takes `q_lock`, so no handler is running.  The
controller sees every command that is submitted: it is assumed that the commands
do not fill the ring, which would look empty then. -/
def submit (s : WaitSystem) : Option WaitSystem :=
  match s.pc, s.handler with
  | .submit tag, .out =>
      some { s with
        issued := s.issued ++ [tag]
        atDevice := s.atDevice ++ [tag]
        blocksLeft :=
          if reqMaxBlocks ≤ s.blocksLeft then s.blocksLeft - reqMaxBlocks
          else s.blocksLeft
        pc := if reqMaxBlocks ≤ s.blocksLeft then .take else .check }
  | _, _ => none

def check (s : WaitSystem) : Option WaitSystem :=
  match s.pc with
  | .check =>
      some { s with
        task := if 0 ≤ s.remaining then .uninterruptible else s.task
        pc := .schedule }
  | _ => none

def schedule (s : WaitSystem) : Option WaitSystem :=
  match s.pc with
  | .schedule =>
      some { s with
        pc := if s.task = .running then .left else .asleep }
  | _ => none

def reset (s : WaitSystem) : Option WaitSystem :=
  match s.pc with
  | .left => some { s with queue := s.queue.resetTag, pc := .cleanup }
  | _ => none

def cleanup (s : WaitSystem) : Option WaitSystem :=
  match s.pc with
  | .cleanup => some { s with pc := .returned }
  | _ => none

/-! Steps of the controller: a first completion of a command it holds, or a
duplicate of one already posted in this request. -/

def post (s : WaitSystem) (tag : Nat) : Option WaitSystem :=
  if tag ∈ s.atDevice then
    some { s with
      atDevice := s.atDevice.erase tag
      cq := s.cq ++ [tag]
      posted := s.posted ++ [tag] }
  else none

def repost (s : WaitSystem) (tag : Nat) : Option WaitSystem :=
  if tag ∈ s.posted then some { s with cq := s.cq ++ [tag] } else none

/-! Steps of the handler. -/

def enterCq (s : WaitSystem) : Option WaitSystem :=
  match s.handler with
  | .out => some { s with handler := .loop }
  | _ => none

/-- One turn of `nvme_process_cq`.  A completion that is not dispatched to
`chario_completion` is over with this step. -/
def consume (s : WaitSystem) : Option WaitSystem :=
  match s.handler, s.cq with
  | .loop, tag :: rest =>
      let found := s.queue.nvmeFinishCmd tag
      some { s with
        queue := found.2
        cq := rest
        handler := if found.1.1 = .chario then .decrement tag else .loop
        completed :=
          if found.1.1 = .chario ∨ tag ∈ s.completed then s.completed
          else s.completed ++ [tag] }
  | _, _ => none

def exitCq (s : WaitSystem) : Option WaitSystem :=
  match s.handler, s.cq with
  | .loop, [] => some { s with handler := .out }
  | _, _ => none

/-- `cmdinfo->remaining -= REQ_MAX_BLOCKS` under `cmdinfo->lock`. -/
def decrement (s : WaitSystem) : Option WaitSystem :=
  match s.handler with
  | .decrement tag =>
      some { s with
        remaining := s.remaining - reqMaxBlocks
        completed := s.completed ++ [tag]
        handler := .test }
  | _ => none

def test (s : WaitSystem) : Option WaitSystem :=
  match s.handler with
  | .test =>
      some { s with handler := if s.remaining < 0 then .wake else .loop }
  | _ => none

def wakeUp (s : WaitSystem) : WaitSystem :=
  { s with
    task := .running
    pc := if s.pc = .asleep then .left else s.pc }

def wake (s : WaitSystem) : Option WaitSystem :=
  match s.handler with
  | .wake =>
      some { s.wakeUp with
        handler := .loop
        wakes := s.wakes ++ [s.completed.length] }
  | _ => none

def step (s : WaitSystem) : WaitLabel → Option WaitSystem
  | .take => s.take
  | .register => s.register
  | .submit => s.submit
  | .check => s.check
  | .schedule => s.schedule
  | .reset => s.reset
  | .cleanup => s.cleanup
  | .post tag => s.post tag
  | .repost tag => s.repost tag
  | .enterCq => s.enterCq
  | .consume => s.consume
  | .exitCq => s.exitCq
  | .decrement => s.decrement
  | .test => s.test
  | .wake => s.wake
  | .foreignWake => some s.wakeUp

/-! What a step that is taken does, with the guard that it passed.  The
invariants below use these and do not open the steps again. -/

section Taken

variable {s t : WaitSystem}

theorem take_eq_some (taken : s.take = some t) :
    s.pc = .take ∧
      t = { s with
        queue := s.queue.takeTag
        pc := .register s.queue.nextCharioTag } := by
  unfold take at taken
  split at taken
  next position => exact ⟨position, (Option.some.inj taken).symm⟩
  next => cases taken

theorem register_eq_some (taken : s.register = some t) :
    ∃ tag, s.pc = .register tag ∧
      t = { s with
        queue := s.queue.setChario tag (.chario cmdinfoOwner)
        pc := .submit tag } := by
  unfold register at taken
  split at taken
  next tag position => exact ⟨tag, position, (Option.some.inj taken).symm⟩
  next => cases taken

theorem submit_eq_some (taken : s.submit = some t) :
    ∃ tag, s.pc = .submit tag ∧ s.handler = .out ∧
      t = { s with
        issued := s.issued ++ [tag]
        atDevice := s.atDevice ++ [tag]
        blocksLeft :=
          if reqMaxBlocks ≤ s.blocksLeft then s.blocksLeft - reqMaxBlocks
          else s.blocksLeft
        pc := if reqMaxBlocks ≤ s.blocksLeft then .take else .check } := by
  unfold submit at taken
  split at taken
  next tag position idle =>
      exact ⟨tag, position, idle, (Option.some.inj taken).symm⟩
  next => cases taken

theorem check_eq_some (taken : s.check = some t) :
    s.pc = .check ∧
      t = { s with
        task := if 0 ≤ s.remaining then .uninterruptible else s.task
        pc := .schedule } := by
  unfold check at taken
  split at taken
  next position => exact ⟨position, (Option.some.inj taken).symm⟩
  next => cases taken

theorem schedule_eq_some (taken : s.schedule = some t) :
    s.pc = .schedule ∧
      t = { s with
        pc := if s.task = .running then .left else .asleep } := by
  unfold schedule at taken
  split at taken
  next position => exact ⟨position, (Option.some.inj taken).symm⟩
  next => cases taken

theorem reset_eq_some (taken : s.reset = some t) :
    s.pc = .left ∧
      t = { s with queue := s.queue.resetTag, pc := .cleanup } := by
  unfold reset at taken
  split at taken
  next position => exact ⟨position, (Option.some.inj taken).symm⟩
  next => cases taken

theorem cleanup_eq_some (taken : s.cleanup = some t) :
    s.pc = .cleanup ∧
      t = { s with pc := .returned } := by
  unfold cleanup at taken
  split at taken
  next position => exact ⟨position, (Option.some.inj taken).symm⟩
  next => cases taken

theorem post_eq_some {tag : Nat} (taken : s.post tag = some t) :
    tag ∈ s.atDevice ∧
      t = { s with
        atDevice := s.atDevice.erase tag
        cq := s.cq ++ [tag]
        posted := s.posted ++ [tag] } := by
  unfold post at taken
  split at taken
  next held => exact ⟨held, (Option.some.inj taken).symm⟩
  next => cases taken

theorem repost_eq_some {tag : Nat} (taken : s.repost tag = some t) :
    tag ∈ s.posted ∧ t = { s with cq := s.cq ++ [tag] } := by
  unfold repost at taken
  split at taken
  next posted => exact ⟨posted, (Option.some.inj taken).symm⟩
  next => cases taken

theorem enterCq_eq_some (taken : s.enterCq = some t) :
    s.handler = .out ∧
      t = { s with handler := .loop } := by
  unfold enterCq at taken
  split at taken
  next idle => exact ⟨idle, (Option.some.inj taken).symm⟩
  next => cases taken

theorem exitCq_eq_some (taken : s.exitCq = some t) :
    s.handler = .loop ∧ s.cq = [] ∧
      t = { s with handler := .out } := by
  unfold exitCq at taken
  split at taken
  next looping empty => exact ⟨looping, empty, (Option.some.inj taken).symm⟩
  next => cases taken

theorem decrement_eq_some (taken : s.decrement = some t) :
    ∃ tag, s.handler = .decrement tag ∧
      t = { s with
        remaining := s.remaining - reqMaxBlocks
        completed := s.completed ++ [tag]
        handler := .test } := by
  unfold decrement at taken
  split at taken
  next tag deciding => exact ⟨tag, deciding, (Option.some.inj taken).symm⟩
  next => cases taken

theorem test_eq_some (taken : s.test = some t) :
    s.handler = .test ∧
      t = { s with
        handler := if s.remaining < 0 then .wake else .loop } := by
  unfold test at taken
  split at taken
  next testing => exact ⟨testing, (Option.some.inj taken).symm⟩
  next => cases taken

theorem wake_eq_some (taken : s.wake = some t) :
    s.handler = .wake ∧
      t = { s.wakeUp with
        handler := .loop
        wakes := s.wakes ++ [s.completed.length] } := by
  unfold wake at taken
  split at taken
  next waking => exact ⟨waking, (Option.some.inj taken).symm⟩
  next => cases taken

end Taken

def PcFacts (nblocks : Nat) (s : WaitSystem) : Prop :=
  match s.pc with
  | .take =>
      nblocks = s.blocksLeft + reqMaxBlocks * s.issued.length ∧
        s.queue.nextCharioTag = s.issued.length
  | .register tag =>
      nblocks = s.blocksLeft + reqMaxBlocks * s.issued.length ∧
        s.queue.nextCharioTag = s.issued.length + 1 ∧ tag = s.issued.length
  | .submit tag =>
      nblocks = s.blocksLeft + reqMaxBlocks * s.issued.length ∧
        s.queue.nextCharioTag = s.issued.length + 1 ∧
        tag = s.issued.length ∧
        s.queue.charioCmds tag = .chario cmdinfoOwner
  | .check | .schedule | .asleep | .left =>
      s.issued.length = subCommands nblocks ∧
        s.queue.nextCharioTag = s.issued.length
  | .cleanup | .returned =>
      s.issued.length = subCommands nblocks ∧ s.queue.nextCharioTag = 0

structure Core (qDepth nblocks : Nat) (s : WaitSystem) : Prop where
  depth : s.queue.qDepth = qDepth
  ioQueue : s.queue.qid ≠ 0
  issued : s.issued = List.range s.issued.length
  facts : s.PcFacts nblocks
  submitted : ∀ tag,
    (tag ∈ s.atDevice ∨ tag ∈ s.posted) ↔ tag < s.issued.length
  apart : ∀ tag ∈ s.atDevice, tag ∉ s.posted
  atDevice_nodup : s.atDevice.Nodup
  cq_posted : ∀ tag ∈ s.cq, tag ∈ s.posted
  completed_posted : ∀ tag ∈ s.completed, tag ∈ s.posted
  completed_nodup : s.completed.Nodup
  pending : ∀ tag ∈ s.posted,
    tag ∈ s.completed ∨ s.handler = .decrement tag ∨ tag ∈ s.cq
  deciding : ∀ tag, s.handler = .decrement tag →
    tag ∈ s.posted ∧ tag ∉ s.completed ∧ tag < qDepth
  slot_live : ∀ tag, tag < s.issued.length → tag ∉ s.completed →
    s.handler ≠ .decrement tag →
      s.queue.charioCmds tag = .chario cmdinfoOwner
  slot_done : ∀ tag, tag < qDepth →
    (tag ∈ s.completed ∨ s.handler = .decrement tag) →
      (s.queue.charioCmds tag).fn = .special
  remaining : s.remaining =
    nblocks - reqMaxBlocks * (s.completed.filter (· < qDepth)).length
  waking : s.handler = .wake → s.remaining < 0

namespace Core

variable {qDepth nblocks : Nat} {s t : WaitSystem}

theorem start {queue : NvmeQueue} (ioQueue : queue.qid ≠ 0)
    (fresh : queue.nextCharioTag = 0) :
    Core queue.qDepth nblocks (WaitSystem.start queue nblocks) where
  depth := rfl
  ioQueue := ioQueue
  issued := rfl
  facts := ⟨by simp [WaitSystem.start], fresh⟩
  submitted := by simp [WaitSystem.start]
  apart := by simp [WaitSystem.start]
  atDevice_nodup := List.nodup_nil
  cq_posted := by simp [WaitSystem.start]
  completed_posted := by simp [WaitSystem.start]
  completed_nodup := List.nodup_nil
  pending := by simp [WaitSystem.start]
  deciding := by simp [WaitSystem.start]
  slot_live := by simp [WaitSystem.start]
  slot_done := by simp [WaitSystem.start]
  remaining := by simp [WaitSystem.start]
  waking := by simp [WaitSystem.start]

theorem issued_length_le (core : Core qDepth nblocks s) :
    s.issued.length ≤ subCommands nblocks := by
  have facts := core.facts
  unfold PcFacts at facts
  unfold subCommands reqMaxBlocks
  unfold reqMaxBlocks at facts
  cases position :
      s.pc <;> simp only [position, subCommands, reqMaxBlocks] at facts <;>
    omega

theorem posted_lt (core : Core qDepth nblocks s) {tag : Nat}
    (posted : tag ∈ s.posted) : tag < s.issued.length :=
  (core.submitted tag).mp (.inr posted)

theorem completed_lt (core : Core qDepth nblocks s) {tag : Nat}
    (completed : tag ∈ s.completed) : tag < s.issued.length :=
  core.posted_lt (core.completed_posted tag completed)

theorem completed_subset (core : Core qDepth nblocks s) :
    s.completed ⊆ List.range s.issued.length := by
  intro tag completed
  exact List.mem_range.mpr (core.completed_lt completed)

theorem completed_length_le (core : Core qDepth nblocks s) :
    s.completed.length ≤ s.issued.length := by
  have := (List.subperm_of_subset core.completed_nodup
      core.completed_subset).length_le
  simpa using this

theorem completed_of_negative (core : Core qDepth nblocks s)
    (negative : s.remaining < 0) :
    s.completed.length = subCommands nblocks ∧
      s.issued.length = subCommands nblocks := by
  have filtered :
      (s.completed.filter (· < qDepth)).length ≤ s.completed.length :=
    List.length_filter_le _ _
  have completedLe := core.completed_length_le
  have issuedLe := core.issued_length_le
  have count := core.remaining
  unfold subCommands reqMaxBlocks at *
  omega

theorem mem_completed_of_length (core : Core qDepth nblocks s)
    (all : s.completed.length = subCommands nblocks) {tag : Nat}
    (isIssued : tag < subCommands nblocks) : tag ∈ s.completed := by
  have issuedLe := core.issued_length_le
  have completedLe := core.completed_length_le
  have subperm :=
    List.subperm_of_subset core.completed_nodup core.completed_subset
  have perm := subperm.perm_of_length_le (by simp; omega)
  exact perm.mem_iff.mpr (List.mem_range.mpr (by omega))

theorem atDevice_of_length (core : Core qDepth nblocks s)
    (all : s.completed.length = subCommands nblocks) : s.atDevice = [] := by
  rw [List.eq_nil_iff_forall_not_mem]
  intro tag held
  have isIssued := (core.submitted tag).mp (.inl held)
  have issuedLe := core.issued_length_le
  exact core.apart tag held (core.completed_posted tag
    (core.mem_completed_of_length all (by omega)))

theorem tag_lt_charioCmdCount (core : Core qDepth nblocks s)
    (bounded : nblocks ≤ 1023) {tag : Nat} (isIssued : tag < s.issued.length) :
    tag < charioCmdCount := by
  have := core.issued_length_le
  unfold subCommands reqMaxBlocks at this
  unfold charioCmdCount
  omega

theorem take (core : Core qDepth nblocks s) (taken : s.take = some t) :
    Core qDepth nblocks t := by
  have facts := core.facts
  obtain ⟨position, rfl⟩ := take_eq_some taken
  simp only [PcFacts, position] at facts
  exact { core with
    facts := ⟨facts.1, by simp [NvmeQueue.takeTag, facts.2], facts.2⟩ }

theorem register (core : Core qDepth nblocks s)
    (taken : s.register = some t) : Core qDepth nblocks t := by
  have facts := core.facts
  obtain ⟨tag, position, rfl⟩ := register_eq_some taken
  simp only [PcFacts, position] at facts
  obtain ⟨blocks, next, isNext⟩ := facts
  -- the slot written is above every tag issued so far
  have other : ∀ old, old < s.issued.length → old ≠ tag := by
    intro old isIssued
    omega
  exact { core with
    facts := ⟨blocks, next, isNext, Function.update_self ..⟩
    slot_live := by
      intro old isIssued open' busy
      have same := core.slot_live old isIssued open' busy
      simpa [NvmeQueue.setChario,
        Function.update_of_ne (other old isIssued)] using same
    slot_done := by
      intro old inRing finished
      have isIssued : old < s.issued.length := by
        rcases finished with completed | deciding
        · exact core.completed_lt completed
        · exact core.posted_lt (core.deciding old deciding).1
      have same := core.slot_done old inRing finished
      simpa [NvmeQueue.setChario,
        Function.update_of_ne (other old isIssued)] using same }

theorem submit (core : Core qDepth nblocks s) (taken : s.submit = some t) :
    Core qDepth nblocks t := by
  have facts := core.facts
  obtain ⟨tag, position, idle, rfl⟩ := submit_eq_some taken
  simp only [PcFacts, position] at facts
  obtain ⟨blocks, next, isNext, slot⟩ := facts
  subst isNext
  have issuedSucc : s.issued ++ [s.issued.length] =
      List.range (s.issued.length + 1) := by
    rw [List.range_succ, ← core.issued]
  refine { core with
    issued := by simpa using issuedSucc
    facts := ?_
    submitted := ?_
    apart := ?_
    atDevice_nodup := ?_
    slot_live := ?_ }
  · by_cases more : reqMaxBlocks ≤ s.blocksLeft
    · simp only [PcFacts, if_pos more, List.length_append,
        List.length_singleton]
      refine ⟨?_, next⟩
      unfold reqMaxBlocks at *
      omega
    · simp only [PcFacts, if_neg more, List.length_append,
        List.length_singleton]
      refine ⟨?_, next⟩
      unfold subCommands
      unfold reqMaxBlocks at *
      omega
  · intro tag
    have old := core.submitted tag
    simp only [List.mem_append, List.mem_singleton, List.length_append,
      List.length_singleton]
    constructor
    · rintro ((held | isNew) | posted)
      · have := old.mp (.inl held)
        omega
      · omega
      · have := old.mp (.inr posted)
        omega
    · intro below
      by_cases isNew : tag = s.issued.length
      · exact .inl (.inr isNew)
      · rcases old.mpr (by omega) with held | posted
        · exact .inl (.inl held)
        · exact .inr posted
  · intro tag member posted
    rcases List.mem_append.mp member with held | isNew
    · exact core.apart tag held posted
    · have := core.posted_lt posted
      rw [List.mem_singleton.mp isNew] at this
      omega
  · rw [List.nodup_append]
    refine ⟨core.atDevice_nodup, List.nodup_singleton _, ?_⟩
    intro held member new isNew same
    have := (core.submitted held).mp (.inl member)
    rw [same, List.mem_singleton.mp isNew] at this
    omega
  · intro tag below open' busy
    simp only [List.length_append, List.length_singleton] at below
    by_cases isNew : tag = s.issued.length
    · rw [isNew]
      exact slot
    · exact core.slot_live tag (by omega) open' busy

theorem check (core : Core qDepth nblocks s) (taken : s.check = some t) :
    Core qDepth nblocks t := by
  have facts := core.facts
  obtain ⟨position, rfl⟩ := check_eq_some taken
  simp only [PcFacts, position] at facts
  exact { core with facts := facts }

theorem schedule (core : Core qDepth nblocks s)
    (taken : s.schedule = some t) : Core qDepth nblocks t := by
  have facts := core.facts
  obtain ⟨position, rfl⟩ := schedule_eq_some taken
  simp only [PcFacts, position] at facts
  refine { core with facts := ?_ }
  by_cases runs : s.task = .running
  · simpa only [PcFacts, if_pos runs] using facts
  · simpa only [PcFacts, if_neg runs] using facts

theorem reset (core : Core qDepth nblocks s) (taken : s.reset = some t) :
    Core qDepth nblocks t := by
  have facts := core.facts
  obtain ⟨position, rfl⟩ := reset_eq_some taken
  simp only [PcFacts, position] at facts
  exact { core with facts := ⟨facts.1, rfl⟩ }

theorem cleanup (core : Core qDepth nblocks s)
    (taken : s.cleanup = some t) : Core qDepth nblocks t := by
  have facts := core.facts
  obtain ⟨position, rfl⟩ := cleanup_eq_some taken
  simp only [PcFacts, position] at facts
  exact { core with facts := facts }

theorem post (core : Core qDepth nblocks s) {tag : Nat}
    (taken : s.post tag = some t) : Core qDepth nblocks t := by
  obtain ⟨held, rfl⟩ := post_eq_some taken
  refine { core with
    submitted := ?_
    apart := ?_
    atDevice_nodup := core.atDevice_nodup.erase tag
    cq_posted := ?_
    completed_posted := ?_
    pending := ?_
    deciding := ?_ }
  · intro other
    rw [← core.submitted other, core.atDevice_nodup.mem_erase_iff]
    simp only [List.mem_append, List.mem_singleton]
    constructor
    · rintro (⟨_, still⟩ | posted | rfl)
      · exact .inl still
      · exact .inr posted
      · exact .inl held
    · rintro (still | posted)
      · by_cases same : other = tag
        · exact .inr (.inr same)
        · exact .inl ⟨same, still⟩
      · exact .inr (.inl posted)
  · intro other still posted
    rw [core.atDevice_nodup.mem_erase_iff] at still
    rcases List.mem_append.mp posted with old | new
    · exact core.apart other still.2 old
    · exact still.1 (List.mem_singleton.mp new)
  · intro other waiting
    rcases List.mem_append.mp waiting with old | new
    · exact List.mem_append_left _ (core.cq_posted other old)
    · exact List.mem_append_right _ new
  · intro other completed
    exact List.mem_append_left _ (core.completed_posted other completed)
  · intro other posted
    rcases List.mem_append.mp posted with old | new
    · rcases core.pending other old with completed | deciding | waiting
      · exact .inl completed
      · exact .inr (.inl deciding)
      · exact .inr (.inr (List.mem_append_left _ waiting))
    · exact .inr (.inr (List.mem_append_right _ new))
  · intro other deciding
    obtain ⟨posted, open', inRing⟩ := core.deciding other deciding
    exact ⟨List.mem_append_left _ posted, open', inRing⟩

theorem repost (core : Core qDepth nblocks s) {tag : Nat}
    (taken : s.repost tag = some t) : Core qDepth nblocks t := by
  obtain ⟨posted, rfl⟩ := repost_eq_some taken
  exact { core with
    cq_posted := by
      intro other waiting
      rcases List.mem_append.mp waiting with old | new
      · exact core.cq_posted other old
      · rw [List.mem_singleton.mp new]
        exact posted
    pending := by
      intro other isPosted
      rcases core.pending other isPosted with done | deciding | waiting
      · exact .inl done
      · exact .inr (.inl deciding)
      · exact .inr (.inr (List.mem_append_left _ waiting)) }

theorem enterCq (core : Core qDepth nblocks s)
    (taken : s.enterCq = some t) : Core qDepth nblocks t := by
  obtain ⟨idle, rfl⟩ := enterCq_eq_some taken
  exact { core with
    pending := by simpa [idle] using core.pending
    deciding := by simp
    slot_live := by simpa [idle] using core.slot_live
    slot_done := by simpa [idle] using core.slot_done
    waking := by simp }

theorem exitCq (core : Core qDepth nblocks s) (taken : s.exitCq = some t) :
    Core qDepth nblocks t := by
  obtain ⟨looping, empty, rfl⟩ := exitCq_eq_some taken
  exact { core with
    pending := by simpa [looping] using core.pending
    deciding := by simp
    slot_live := by simpa [looping] using core.slot_live
    slot_done := by simpa [looping] using core.slot_done
    waking := by simp }

theorem consume_cases (core : Core qDepth nblocks s) (bounded : nblocks ≤ 1023)
    (taken : s.consume = some t) :
    ∃ tag rest, s.handler = .loop ∧ s.cq = tag :: rest ∧ tag ∈ s.posted ∧
      ((qDepth ≤ tag ∧ tag ∉ s.completed ∧
          t = { s with cq := rest, completed := s.completed ++ [tag] }) ∨
        (qDepth ≤ tag ∧ tag ∈ s.completed ∧ t = { s with cq := rest }) ∨
        (tag < qDepth ∧ tag ∉ s.completed ∧
          t = { s with
            queue := s.queue.setChario tag (s.queue.charioCmds tag).finish
            cq := rest
            handler := .decrement tag }) ∨
        (tag < qDepth ∧ tag ∈ s.completed ∧
          t = { s with
            queue := s.queue.setChario tag (s.queue.charioCmds tag).finish
            cq := rest })) := by
  unfold WaitSystem.consume at taken
  split at taken
  next tag rest looping waiting =>
      cases taken
      have posted : tag ∈ s.posted := core.cq_posted tag (by simp [waiting])
      refine ⟨tag, rest, looping, waiting, posted, ?_⟩
      have isIssued := core.posted_lt posted
      have low := core.tag_lt_charioCmdCount bounded isIssued
      by_cases inRing : tag < qDepth
      · have found := NvmeQueue.nvmeFinishCmd_chario core.ioQueue
          (show tag < s.queue.qDepth by rw [core.depth]; exact inRing) low
        by_cases completed : tag ∈ s.completed
        · have isSpecial := core.slot_done tag inRing (.inl completed)
          refine .inr (.inr (.inr ⟨inRing, completed, ?_⟩))
          simp [found, isSpecial, completed, looping]
        · have isLive :=
            core.slot_live tag isIssued completed (by simp [looping])
          refine .inr (.inr (.inl ⟨inRing, completed, ?_⟩))
          simp [found, isLive]
      · have found := NvmeQueue.nvmeFinishCmd_of_depth_le
          (show s.queue.qDepth ≤ tag by rw [core.depth]; omega)
        by_cases completed : tag ∈ s.completed
        · refine .inr (.inl ⟨by omega, completed, ?_⟩)
          simp [found, completed, looping]
        · refine .inl ⟨by omega, completed, ?_⟩
          simp [found, completed, looping]
  next => cases taken

theorem charioCmds_setChario_of_ne {queue : NvmeQueue} {tag other : Nat}
    (differs : other ≠ tag) (cmd : CmdInfo) :
    (queue.setChario tag cmd).charioCmds other = queue.charioCmds other :=
  Function.update_of_ne differs ..

theorem charioCmds_setChario_self {queue : NvmeQueue} (tag : Nat)
    (cmd : CmdInfo) : (queue.setChario tag cmd).charioCmds tag = cmd :=
  Function.update_self ..

theorem pcFacts_setChario {tag : Nat} {cmd : CmdInfo}
    (facts : s.PcFacts nblocks) (isIssued : tag < s.issued.length) :
    PcFacts nblocks { s with queue := s.queue.setChario tag cmd } := by
  unfold PcFacts at *
  cases position : s.pc with
  | submit next =>
      simp only [position] at facts
      obtain ⟨blocks, count, isNext, slot⟩ := facts
      refine ⟨blocks, count, isNext, ?_⟩
      rw [charioCmds_setChario_of_ne (by omega)]
      exact slot
  | _ => simpa only [position, NvmeQueue.setChario] using facts

section Consume

variable {tag : Nat} {rest : List Nat}

theorem posted_of_head (core : Core qDepth nblocks s)
    (waiting : s.cq = tag :: rest) : tag ∈ s.posted :=
  core.cq_posted tag (by simp [waiting])

theorem posted_of_rest (core : Core qDepth nblocks s)
    (waiting : s.cq = tag :: rest) : ∀ other ∈ rest, other ∈ s.posted :=
  fun other member => core.cq_posted other (by simp [waiting, member])

theorem pending_of_loop (core : Core qDepth nblocks s)
    (looping : s.handler = .loop) (waiting : s.cq = tag :: rest) :
    ∀ other ∈ s.posted,
      other ∈ s.completed ∨ other = tag ∨ other ∈ rest := by
  intro other isPosted
  rcases core.pending other isPosted with done | deciding | inCq
  · exact .inl done
  · simp [looping] at deciding
  · rw [waiting] at inCq
    exact .inr (List.mem_cons.mp inCq)

theorem consume_beyond (core : Core qDepth nblocks s)
    (looping : s.handler = .loop) (waiting : s.cq = tag :: rest)
    (beyond : qDepth ≤ tag) (open' : tag ∉ s.completed) :
    Core qDepth nblocks
      { s with cq := rest, completed := s.completed ++ [tag] } := by
  refine { core with
    cq_posted := core.posted_of_rest waiting
    completed_posted := ?_
    completed_nodup := ?_
    pending := ?_
    deciding := by simp [looping]
    slot_live := ?_
    slot_done := ?_
    remaining := ?_ }
  · intro other member
    rcases List.mem_append.mp member with old | new
    · exact core.completed_posted other old
    · rw [List.mem_singleton.mp new]
      exact core.posted_of_head waiting
  · rw [← List.concat_eq_append]
    exact core.completed_nodup.concat open'
  · intro other isPosted
    rcases core.pending_of_loop looping waiting other isPosted with
      old | rfl | inRest
    · exact .inl (List.mem_append_left _ old)
    · exact .inl (List.mem_append_right _ (List.mem_singleton_self _))
    · exact .inr (.inr inRest)
  · intro other below notDone busy
    exact core.slot_live other below
      (fun old => notDone (List.mem_append_left _ old)) busy
  · intro other inRing finished
    apply core.slot_done other inRing
    rcases finished with member | deciding
    · rcases List.mem_append.mp member with old | new
      · exact .inl old
      · rw [List.mem_singleton.mp new] at inRing
        omega
    · exact .inr deciding
  · rw [core.remaining, List.filter_append]
    simp [show ¬ tag < qDepth by omega]

theorem consume_stale (core : Core qDepth nblocks s)
    (looping : s.handler = .loop) (waiting : s.cq = tag :: rest)
    (done : tag ∈ s.completed) :
    Core qDepth nblocks { s with cq := rest } := by
  refine { core with
    cq_posted := core.posted_of_rest waiting
    pending := ?_ }
  intro other isPosted
  rcases core.pending_of_loop looping waiting other isPosted with
    old | rfl | inRest
  · exact .inl old
  · exact .inl done
  · exact .inr (.inr inRest)

/-- The entry is dispatched to `chario_completion`. -/
theorem consume_live (core : Core qDepth nblocks s)
    (looping : s.handler = .loop) (waiting : s.cq = tag :: rest)
    (inRing : tag < qDepth) (open' : tag ∉ s.completed) :
    Core qDepth nblocks
      { s with
        queue := s.queue.setChario tag (s.queue.charioCmds tag).finish
        cq := rest
        handler := .decrement tag } := by
  have posted := core.posted_of_head waiting
  refine { core with
    facts := pcFacts_setChario core.facts (core.posted_lt posted)
    cq_posted := core.posted_of_rest waiting
    pending := ?_
    deciding := ?_
    slot_live := ?_
    slot_done := ?_
    waking := by simp }
  · intro other isPosted
    rcases core.pending_of_loop looping waiting other isPosted with
      old | rfl | inRest
    · exact .inl old
    · exact .inr (.inl rfl)
    · exact .inr (.inr inRest)
  · intro other deciding
    cases deciding
    exact ⟨posted, open', inRing⟩
  · intro other below notDone busy
    have differs : other ≠ tag := fun same => busy (by rw [same])
    rw [charioCmds_setChario_of_ne differs]
    exact core.slot_live other below notDone (by simp [looping])
  · intro other otherInRing finished
    by_cases same : other = tag
    · rw [same, charioCmds_setChario_self]
      rfl
    · rw [charioCmds_setChario_of_ne same]
      apply core.slot_done other otherInRing
      rcases finished with old | deciding
      · exact .inl old
      · cases deciding
        exact absurd rfl same

theorem consume_special (core : Core qDepth nblocks s)
    (looping : s.handler = .loop) (waiting : s.cq = tag :: rest)
    (done : tag ∈ s.completed) :
    Core qDepth nblocks
      { s with
        queue := s.queue.setChario tag (s.queue.charioCmds tag).finish
        cq := rest } := by
  have posted := core.posted_of_head waiting
  refine { core.consume_stale looping waiting done with
    facts := pcFacts_setChario core.facts (core.posted_lt posted)
    slot_live := ?_
    slot_done := ?_ }
  · intro other below notDone busy
    have differs : other ≠ tag := fun same => notDone (same ▸ done)
    rw [charioCmds_setChario_of_ne differs]
    exact core.slot_live other below notDone busy
  · intro other otherInRing finished
    by_cases same : other = tag
    · rw [same, charioCmds_setChario_self]
      rfl
    · rw [charioCmds_setChario_of_ne same]
      exact core.slot_done other otherInRing finished

end Consume

theorem consume (core : Core qDepth nblocks s) (bounded : nblocks ≤ 1023)
    (taken : s.consume = some t) : Core qDepth nblocks t := by
  obtain ⟨tag, rest, looping, waiting, -, ways⟩ :=
    core.consume_cases bounded taken
  rcases ways with ⟨beyond, open', rfl⟩ | ⟨beyond, done, rfl⟩ |
    ⟨inRing, open', rfl⟩ | ⟨inRing, done, rfl⟩
  · exact core.consume_beyond looping waiting beyond open'
  · exact core.consume_stale looping waiting done
  · exact core.consume_live looping waiting inRing open'
  · exact core.consume_special looping waiting done

theorem decrement (core : Core qDepth nblocks s)
    (taken : s.decrement = some t) : Core qDepth nblocks t := by
  obtain ⟨tag, deciding, rfl⟩ := decrement_eq_some taken
  obtain ⟨posted, open', inRing⟩ := core.deciding tag deciding
  refine { core with
    completed_posted := ?_
    completed_nodup := ?_
    pending := ?_
    deciding := by simp
    slot_live := ?_
    slot_done := ?_
    remaining := ?_
    waking := by simp }
  · intro other member
    rcases List.mem_append.mp member with old | new
    · exact core.completed_posted other old
    · rw [List.mem_singleton.mp new]
      exact posted
  · rw [List.nodup_append]
    refine ⟨core.completed_nodup, List.nodup_singleton _, ?_⟩
    intro old member new isNew same
    rw [List.mem_singleton.mp isNew] at same
    exact open' (same ▸ member)
  · intro other isPosted
    rcases core.pending other isPosted with old | isDeciding | inCq
    · exact .inl (List.mem_append_left _ old)
    · rw [deciding] at isDeciding
      cases isDeciding
      exact .inl (List.mem_append_right _ (List.mem_singleton_self _))
    · exact .inr (.inr inCq)
  · intro other below notDone _
    refine core.slot_live other below
      (fun old => notDone (List.mem_append_left _ old)) ?_
    rw [deciding]
    intro same
    cases same
    exact notDone (List.mem_append_right _ (List.mem_singleton_self _))
  · intro other otherInRing finished
    apply core.slot_done other otherInRing
    rcases finished with member | isTest
    · rcases List.mem_append.mp member with old | new
      · exact .inl old
      · rw [List.mem_singleton.mp new]
        exact .inr deciding
    · cases isTest
  · rw [core.remaining, List.filter_append]
    simp only [inRing, decide_true, List.filter_cons_of_pos,
      List.filter_nil, List.length_append, List.length_singleton]
    push_cast
    ring

theorem test (core : Core qDepth nblocks s) (taken : s.test = some t) :
    Core qDepth nblocks t := by
  obtain ⟨testing, rfl⟩ := test_eq_some taken
  have other : ∀ tag, (if s.remaining < 0 then HandlerPc.wake
      else HandlerPc.loop) ≠ .decrement tag := by
    intro tag
    split <;> simp
  exact { core with
    pending := by
      intro tag posted
      rcases core.pending tag posted with done | deciding | inCq
      · exact .inl done
      · simp [testing] at deciding
      · exact .inr (.inr inCq)
    deciding := fun tag deciding => absurd deciding (other tag)
    slot_live := fun tag below notDone _ =>
      core.slot_live tag below notDone (by simp [testing])
    slot_done := by
      intro tag inRing finished
      rcases finished with done | deciding
      · exact core.slot_done tag inRing (.inl done)
      · exact absurd deciding (other tag)
    waking := by
      intro isWake
      by_contra positive
      simp only [if_neg positive] at isWake
      cases isWake }

theorem wakeUp (core : Core qDepth nblocks s) :
    Core qDepth nblocks s.wakeUp := by
  have facts := core.facts
  refine { core with facts := ?_ }
  unfold PcFacts at *
  cases position : s.pc <;>
    simpa [WaitSystem.wakeUp, position] using facts

theorem wake (core : Core qDepth nblocks s) (taken : s.wake = some t) :
    Core qDepth nblocks t := by
  obtain ⟨waking, rfl⟩ := wake_eq_some taken
  have woken := core.wakeUp
  exact { woken with
    pending := by
      intro tag posted
      rcases core.pending tag posted with done | deciding | inCq
      · exact .inl done
      · simp [waking] at deciding
      · exact .inr (.inr inCq)
    deciding := by simp
    slot_live := fun tag below notDone _ =>
      core.slot_live tag below notDone (by simp [waking])
    slot_done := by
      intro tag inRing finished
      rcases finished with done | deciding
      · exact core.slot_done tag inRing (.inl done)
      · cases deciding
    waking := by simp }

theorem step (core : Core qDepth nblocks s) (bounded : nblocks ≤ 1023)
    {label : WaitLabel} (taken : s.step label = some t) :
    Core qDepth nblocks t := by
  cases label with
  | take => exact core.take taken
  | register => exact core.register taken
  | submit => exact core.submit taken
  | check => exact core.check taken
  | schedule => exact core.schedule taken
  | reset => exact core.reset taken
  | cleanup => exact core.cleanup taken
  | post tag => exact core.post taken
  | repost tag => exact core.repost taken
  | enterCq => exact core.enterCq taken
  | consume => exact core.consume bounded taken
  | exitCq => exact core.exitCq taken
  | decrement => exact core.decrement taken
  | test => exact core.test taken
  | wake => exact core.wake taken
  | foreignWake =>
      cases taken
      exact core.wakeUp

end Core

end WaitSystem

end Chario.Queue
