import Chario.Driver.Start
import Chario.Queue.CompletionQueue
import Chario.Queue.Shutdown

namespace Chario.Driver

/-! A queue is modelled with its vector and the slots that exist, with the
commands that are in flight, and with its completion ring.  The functions that
several of these models have do the same to what the models share. -/

/-- What `Queue.DevQueue` says of a queue holds of its slots and its vector. -/
structure Agrees (nvmeq : DevQueue) (q : Queue.DevQueue) : Prop where
  qid : q.queue.qid = nvmeq.qid
  depth : q.queue.qDepth = nvmeq.qDepth
  suspended : q.suspended = true ↔ nvmeq.cqVector = -1
  slots : ∀ tag cmd, nvmeq.charioCmds tag = some cmd →
    q.queue.charioCmds tag = cmd.info

namespace DevQueue

/-- `nvme_finish_cmd` for one entry after the other. -/
def finishAll (nvmeq : DevQueue) (tags : List Nat) : DevQueue :=
  tags.foldl (fun nvmeq tag => (nvmeq.nvmeFinishCmd tag).2) nvmeq

def suspend (nvmeq : DevQueue) : DevQueue := { nvmeq with cqVector := -1 }

theorem cqVector_nvmeFinishCmd (nvmeq : DevQueue) (tag : Nat) :
    (nvmeq.nvmeFinishCmd tag).2.cqVector = nvmeq.cqVector := by
  unfold nvmeFinishCmd
  split
  next => rfl
  next => rfl

theorem cqVector_finishAll (nvmeq : DevQueue) (tags : List Nat) :
    (nvmeq.finishAll tags).cqVector = nvmeq.cqVector := by
  induction tags generalizing nvmeq with
  | nil => rfl
  | cons tag rest induction =>
      exact (induction _).trans (nvmeq.cqVector_nvmeFinishCmd tag)

end DevQueue

namespace Agrees

variable {nvmeq : DevQueue} {q r : Queue.DevQueue}

theorem congr (agrees : Agrees nvmeq q) (qid : r.queue.qid = q.queue.qid)
    (depth : r.queue.qDepth = q.queue.qDepth)
    (suspended : r.suspended = q.suspended)
    (slots : r.queue.charioCmds = q.queue.charioCmds) : Agrees nvmeq r where
  qid := qid.trans agrees.qid
  depth := depth.trans agrees.depth
  suspended := by
    rw [suspended]
    exact agrees.suspended
  slots := by
    rw [slots]
    exact agrees.slots

/-- Both dispatchers go through a slot of `chario_cmds` for the same entries. -/
theorem slotOf_iff (agrees : Agrees nvmeq q) (tag : Nat) :
    q.slotOf tag = some (.chario tag) ↔
      (nvmeq.nvmeFinishCmd tag).1 = some (nvmeq.useOf tag) := by
  unfold Queue.DevQueue.slotOf DevQueue.nvmeFinishCmd
  rw [agrees.qid, agrees.depth]
  by_cases beyond : nvmeq.qDepth ≤ tag
  · simp [beyond]
  · by_cases request : nvmeq.qid = 0 ∨ 31 < tag
    · simp [beyond, request]
    · simp [beyond, request]

theorem nvmeFinishCmd (agrees : Agrees nvmeq q) (tag : Nat) :
    Agrees (nvmeq.nvmeFinishCmd tag).2 (q.processEntry tag) := by
  have info : ∀ other, (q.processEntry tag).queue.charioCmds other =
      if q.slotOf tag = some (.chario other) then
        (q.queue.charioCmds other).finish
      else q.queue.charioCmds other :=
    fun other => Queue.DevQueue.info_processEntry q tag (.chario other)
  have same := Queue.DevQueue.processEntry_same q tag
  refine ⟨?_, ?_, ?_, ?_⟩
  · rw [same.qid, agrees.qid]
    unfold DevQueue.nvmeFinishCmd
    split
    next => rfl
    next => rfl
  · rw [same.depth, agrees.depth]
    unfold DevQueue.nvmeFinishCmd
    split
    next => rfl
    next => rfl
  · rw [nvmeq.cqVector_nvmeFinishCmd]
    exact agrees.suspended
  · intro other cmd isSlot
    rw [info]
    unfold DevQueue.nvmeFinishCmd at isSlot
    unfold Queue.DevQueue.slotOf
    rw [agrees.qid, agrees.depth]
    split at isSlot
    next outside =>
      have unhit : ∀ found, found = (if nvmeq.qDepth ≤ tag then none
          else if nvmeq.qid = 0 ∨ 31 < tag then some (Queue.Slot.rq tag)
          else some (.chario tag)) → found ≠ some (.chario other) := by
        rintro found rfl
        by_cases beyond : nvmeq.qDepth ≤ tag
        · simp [beyond]
        · simp [beyond, outside.resolve_left beyond]
      rw [if_neg (unhit _ rfl)]
      exact agrees.slots other cmd isSlot
    next inside =>
      rw [not_or] at inside
      rw [if_neg inside.1, if_neg inside.2]
      by_cases hit : other = tag
      · subst hit
        rw [DevQueue.setInfo_self] at isSlot
        obtain ⟨old, isOld, rfl⟩ := Option.map_eq_some_iff.mp isSlot
        rw [if_pos rfl, agrees.slots other old isOld]
      · rw [DevQueue.setInfo_of_ne _ hit] at isSlot
        rw [if_neg (by simpa using Ne.symm hit)]
        exact agrees.slots other cmd isSlot

theorem finishAll (agrees : Agrees nvmeq q) (tags : List Nat) :
    Agrees (nvmeq.finishAll tags)
      (tags.foldl Queue.DevQueue.processEntry q) := by
  induction tags generalizing nvmeq q with
  | nil => exact agrees
  | cons tag rest induction => exact induction (agrees.nvmeFinishCmd tag)

theorem suspend (agrees : Agrees nvmeq q) :
    Agrees nvmeq.suspend q.nvmeSuspendQueue :=
  ⟨agrees.qid, agrees.depth, iff_of_true rfl rfl, agrees.slots⟩

theorem clear (agrees : Agrees nvmeq q) : Agrees nvmeq q.nvmeClearQueue := by
  have cancels : ∀ (requests : List Queue.BusyRequest) {r : Queue.DevQueue},
      Agrees nvmeq r →
        Agrees nvmeq (requests.foldl Queue.DevQueue.nvmeCancelQueueIos r) := by
    intro requests
    induction requests with
    | nil => exact fun agrees => agrees
    | cons request rest induction =>
        intro r agrees
        apply induction
        unfold Queue.DevQueue.nvmeCancelQueueIos
        split
        next => exact agrees
        next =>
          split
          next => exact agrees
          next => exact agrees.congr rfl rfl rfl rfl
  exact cancels q.busy agrees

theorem nvmeInitQueue (agrees : Agrees nvmeq q) {vector : Int}
    (isVector : vector ≠ -1) :
    Agrees { nvmeq with cqVector := vector } q.nvmeInitQueue where
  qid := agrees.qid
  depth := agrees.depth
  suspended := iff_of_false Bool.false_ne_true isVector
  slots := agrees.slots

end Agrees

def Stopped (nvmeq : DevQueue) (q : Queue.DevQueue) : Prop :=
  ∃ tags, Agrees (nvmeq.suspend.finishAll tags) q

namespace Stopped

variable {nvmeq : DevQueue} {q : Queue.DevQueue}

theorem suspended (stopped : Stopped nvmeq q) : q.suspended = true := by
  obtain ⟨tags, agrees⟩ := stopped
  exact agrees.suspended.mpr (nvmeq.suspend.cqVector_finishAll tags)

theorem clear (stopped : Stopped nvmeq q) : Stopped nvmeq q.nvmeClearQueue := by
  obtain ⟨tags, agrees⟩ := stopped
  exact ⟨tags, agrees.clear⟩

theorem disable_again (stopped : Stopped nvmeq q) :
    Stopped nvmeq q.nvmeDisableQueue := by
  have isSuspended := stopped.suspended
  unfold Queue.DevQueue.nvmeDisableQueue
  rwa [if_pos isSuspended]

end Stopped

namespace Agrees

variable {nvmeq : DevQueue} {q : Queue.DevQueue}

theorem stopped (agrees : Agrees nvmeq q) : Stopped nvmeq q.nvmeSuspendQueue :=
  ⟨[], agrees.suspend⟩

theorem nvmeDisableQueue (agrees : Agrees nvmeq q) :
    Stopped nvmeq q.nvmeDisableQueue := by
  unfold Queue.DevQueue.nvmeDisableQueue
  split
  next already =>
    have same : nvmeq.suspend = nvmeq := by
      unfold DevQueue.suspend
      rw [← agrees.suspended.mp already]
    refine ⟨[], ?_⟩
    change Agrees nvmeq.suspend q
    rwa [same]
  next =>
    have started : Agrees nvmeq.suspend { q.nvmeSuspendQueue with cq := [] } :=
      agrees.suspend.congr rfl rfl rfl rfl
    exact ⟨q.cq, started.finishAll q.cq⟩

theorem nvmeDevShutdown (agrees : Agrees nvmeq q) (env : Queue.ShutdownEnv) :
    Stopped nvmeq (q.nvmeDevShutdown env) := by
  unfold Queue.DevQueue.nvmeDevShutdown
  apply Stopped.clear
  split
  next => exact agrees.stopped
  next =>
    unfold Queue.DevQueue.nvmeDisableIoQueues
    by_cases admin : q.queue.qid = 0
    · rw [if_neg (not_not.mpr admin), if_pos admin]
      split
      next => exact agrees.clear.nvmeDisableQueue.disable_again
      next => exact agrees.nvmeDisableQueue
    · rw [if_pos admin, if_neg admin]
      split
      next => exact agrees.stopped
      next => exact agrees.nvmeDisableQueue

end Agrees

namespace QueueDev

variable {dev : QueueDev} {qid : Nat} {nvmeq : DevQueue}

theorem queues_nvmeSuspendQueue (found : dev.queues qid = some nvmeq)
    (other : Nat) :
    (dev.nvmeSuspendQueue other).queues qid =
      some (if other = qid then nvmeq.suspend else nvmeq) := by
  unfold nvmeSuspendQueue
  by_cases same : other = qid
  · subst same
    rw [found, if_pos rfl]
    dsimp only
    split
    next already =>
      rw [found]
      unfold DevQueue.suspend
      rw [← already]
    next => exact Function.update_self ..
  · rw [if_neg same]
    cases dev.queues other with
    | none => exact found
    | some suspended =>
        dsimp only
        split
        next => exact found
        next => exact (Function.update_of_ne (Ne.symm same) ..).trans found

theorem queues_suspendDown {places : Nat}
    (found : dev.queues qid = some nvmeq) :
    (suspendDown places dev).queues qid =
      some (if qid < places then nvmeq.suspend else nvmeq) := by
  induction places generalizing dev nvmeq with
  | zero => exact found
  | succ last induction =>
      unfold suspendDown
      rw [induction (queues_nvmeSuspendQueue found last)]
      by_cases same : last = qid
      · subst same
        simp
      · rw [if_neg same]
        have below : qid < last ↔ qid < last + 1 := by omega
        rw [if_congr below rfl rfl]

/-- After the shutdown both models have the queue suspended, and differ at most
in the entries that the shutdown still finished. -/
theorem nvmeDevShutdown_agrees (found : dev.queues qid = some nvmeq)
    (within : qid < dev.queueCount) {q : Queue.DevQueue}
    (agrees : Agrees nvmeq q)
    (env : Queue.ShutdownEnv) :
    ∃ after tags, dev.nvmeDevShutdown.queues qid = some after ∧
      Agrees (after.finishAll tags) (q.nvmeDevShutdown env) := by
  obtain ⟨tags, stopped⟩ := agrees.nvmeDevShutdown env
  refine ⟨nvmeq.suspend, tags, ?_, stopped⟩
  unfold nvmeDevShutdown
  rw [queues_suspendDown found, if_pos within]

end QueueDev

/-- The ring of a queue that is initialised shows no entry, which is what the
empty `cq` of `Queue.DevQueue.nvmeInitQueue` says. -/
theorem nvmeInitQueue_shows_none (ring : Queue.CqRing) {slot : Nat}
    (inRing : slot < ring.qDepth) :
    ((Queue.nvmeInitQueue ring).cqes slot).phase ≠
      (Queue.nvmeInitQueue ring).cqPhase := by
  unfold Queue.nvmeInitQueue
  dsimp only
  rw [if_pos inRing, Queue.NvmeCompletion.phase_zero]
  decide

end Chario.Driver
