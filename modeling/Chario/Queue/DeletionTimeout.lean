import Mathlib.Data.List.Basic
import Mathlib.Data.List.Nodup
import Mathlib.Data.List.Perm.Basic
import Mathlib.Data.List.Perm.Subperm
import Mathlib.Logic.Function.Basic
import Chario.Library.Transition
import Chario.Queue.Deletion
import Chario.Queue.DeletionLedger
import Chario.Queue.DeletionOrder

namespace Chario.Queue

open Chario.Library

/-! `nvme_wait_dq` after a timeout.  The admin queue is cleared once, before the
worker is flushed: a deletion command that the worker sends after that is never
completed. -/

def DelQueue.sends (queue : DelQueue) : Bool :=
  queue.work = .delQueueStart ∨ queue.work = .delSqWorkHandler ∧
    queue.status = 0

def WorkerPc.Sending (qid : Nat) : WorkerPc → Prop
  | .started current _ | .marked current _ => current = qid
  | _ => False

def DelTask.BeforeFlush : DelTask → Prop
  | .flushing | .disableQueue | .stopWorker | .returned => False
  | _ => True

namespace DelqSystem

def workerUnsent (s : DelqSystem) : List Nat :=
  match s.worker with
  | .entered qid _ => if (s.queues qid).sends then [qid] else []
  | .alloc qid _ => [qid]
  | _ => []

def unsent (s : DelqSystem) : List Nat :=
  s.workerUnsent ++
    (workQids s.workList).filter (fun qid => (s.queues qid).sends)

structure Submitting (s : DelqSystem) : Prop where
  answered : ∀ request ∈ s.requests, request.posted ≠ none → request.sent = true
  sending : ∀ qid, s.worker.Sending qid → ∀ request ∈ s.requests,
    request.qid = qid → request.sent = false
  known : ∀ qid, s.worker.Sending qid → qid ∈ s.posted
  cancelled : ∀ qid, s.worker.Sending qid → qid ∈ workQids s.workList →
    (s.queues qid).status ≠ 0
  unflushed : s.task.BeforeFlush → .flush ∉ s.workList ∧ s.flushed = false
  disabled : s.task = .clearQueue → s.enabled = false

theorem cancelStatus_ne_zero (dying : Bool) :
    (cancelStatus dying : Int) ≠ 0 := by
  cases dying <;> decide

namespace Submitting

variable {queueCount : Nat} {initial : Nat → DelQueue} {s t : DelqSystem}

theorem start (queueCount : Nat) (queues : Nat → DelQueue) :
    Submitting (DelqSystem.start queueCount queues) where
  answered request member := by cases member
  sending qid sends := by cases sends
  known qid sends := by cases sends
  cancelled qid sends := by cases sends
  unflushed _ := ⟨List.not_mem_nil, rfl⟩
  disabled position := by cases position

theorem of_task (submitting : Submitting s) (requests : t.requests = s.requests)
    (queues : t.queues = s.queues) (workList : t.workList = s.workList)
    (worker : t.worker = s.worker) (flushed : t.flushed = s.flushed)
    (posted : t.posted = s.posted)
    (before : t.task.BeforeFlush → s.task.BeforeFlush)
    (disabled : t.task = .clearQueue → t.enabled = false) : Submitting t where
  answered := by simpa only [requests] using submitting.answered
  sending := by simpa only [requests, worker] using submitting.sending
  known := by simpa only [worker, posted] using submitting.known
  cancelled := by
    simpa only [workList, queues, worker] using submitting.cancelled
  unflushed isBefore := by
    rw [workList, flushed]
    exact submitting.unflushed (before isBefore)
  disabled := disabled

theorem of_worker (submitting : Submitting s)
    (requests : t.requests = s.requests)
    (items : t.workList ⊆ s.workList) (task : t.task = s.task)
    (flushed : t.flushed = s.flushed) (enabled : t.enabled = s.enabled)
    (sendsNot : ∀ qid, ¬ t.worker.Sending qid) :
    Submitting t where
  answered := by simpa only [requests] using submitting.answered
  sending qid sends := absurd sends (sendsNot qid)
  known qid sends := absurd sends (sendsNot qid)
  cancelled qid sends := absurd sends (sendsNot qid)
  unflushed isBefore := by
    rw [task] at isBefore
    obtain ⟨unflushed, notFlushed⟩ := submitting.unflushed isBefore
    exact ⟨fun member => unflushed (items member), flushed.trans notFlushed⟩
  disabled := by simpa only [task, enabled] using submitting.disabled

theorem asyncCompletion (submitting : Submitting s)
    (ledger : Ledger queueCount initial s) {request : DelRequest} {status : Int}
    (member : request ∈ s.requests)
    (failed : s.worker.Sending request.qid → status ≠ 0) :
    Submitting (s.asyncCompletion request status) := by
  rw [asyncCompletion_of_not_mem (ledger.not_queued member)]
  constructor
  case answered =>
    intro other isOther
    exact submitting.answered other (List.mem_of_mem_erase isOther)
  case sending =>
    intro qid sends other isOther
    exact submitting.sending qid sends other (List.mem_of_mem_erase isOther)
  case known => exact submitting.known
  case cancelled =>
    intro qid sends isQueued
    by_cases same : qid = request.qid
    · subst same
      simpa [setStatus, setQueue] using failed sends
    · simp only [workQids_append, workQids_queue, workQids_nil, List.mem_append,
        List.mem_singleton, same, or_false] at isQueued
      simpa [setStatus, setQueue, same] using
        submitting.cancelled qid sends isQueued
  case unflushed =>
    intro isBefore
    obtain ⟨unflushed, notFlushed⟩ := submitting.unflushed isBefore
    refine ⟨?_, notFlushed⟩
    simp [unflushed]
  case disabled => exact submitting.disabled

theorem foldl_asyncCompletion (submitting : Submitting s)
    (ledger : Ledger queueCount initial s) {order : List DelRequest}
    (all : order.Perm s.requests) (dying : Bool) :
    Submitting (order.foldl (fun cleared request =>
      cleared.asyncCompletion request (cancelStatus dying)) s) := by
  induction order generalizing s with
  | nil => exact submitting
  | cons request rest induction =>
      have member : request ∈ s.requests := all.mem_iff.mp List.mem_cons_self
      apply induction (submitting.asyncCompletion ledger member
        (fun _ => cancelStatus_ne_zero dying)) (ledger.asyncCompletion member)
      exact (List.cons_perm_iff_perm_erase.mp all).2

theorem postQueue (submitting : Submitting s)
    (ledger : Ledger queueCount initial s)
    {below : Nat} (position : s.task = .posting (below + 1)) :
    Submitting
      { (s.setQueue (below + 1)
          { s.queues (below + 1) with suspended := true, work := .delQueueStart
            }).queueKthreadWork (.queue (below + 1)) with
        task := .posting below
        refcount := s.refcount + 1
        posted := s.posted ++ [below + 1] } := by
  have absent := ledger.not_posted position
  have unqueued : WorkItem.queue (below + 1) ∉ (s.setQueue (below + 1)
      { s.queues (below + 1) with suspended := true, work := .delQueueStart
        }).workList := fun queued =>
    ledger.not_held absent (List.mem_append_right _ (mem_workQids.mpr queued))
  rw [queueKthreadWork_of_not_mem unqueued]
  refine { submitting with
    known := ?_
    cancelled := ?_
    unflushed := ?_
    disabled := fun isClear => by cases isClear }
  · intro qid sends
    exact List.mem_append_left _ (submitting.known qid sends)
  · intro qid sends isQueued
    have other : qid ≠ below + 1 := by
      rintro rfl
      exact absent (submitting.known _ sends)
    simp only [setQueue, workQids_append, workQids_queue, workQids_nil,
      List.mem_append, List.mem_singleton, other, or_false] at isQueued
    simpa [setQueue, other] using submitting.cancelled qid sends isQueued
  · intro _
    obtain ⟨unflushed, notFlushed⟩ :=
      submitting.unflushed (by rw [position]; trivial)
    refine ⟨?_, notFlushed⟩
    simp [setQueue, unflushed]

theorem allocRequest (submitting : Submitting s)
    (ledger : Ledger queueCount initial s)
    {qid : Nat} {opcode : DelOpcode} (position : s.worker = .alloc qid opcode) :
    Submitting
      { s with
        worker := .started qid opcode
        requests := s.requests ++ [⟨qid, opcode, false, none⟩] } := by
  have held : qid ∈ s.holders := by simp [holders, position, WorkerPc.holds]
  have once := ledger.holders_nodup
  simp only [holders, position, WorkerPc.holds, List.cons_append,
    List.nil_append,
    List.nodup_cons, List.mem_append, not_or] at once
  obtain ⟨⟨notRequested, notQueued⟩, _⟩ := once
  refine { submitting with
    answered := ?_, sending := ?_, known := ?_, cancelled := ?_ }
  · intro request member isPosted
    cases List.mem_append.mp member with
    | inl earlier => exact submitting.answered request earlier isPosted
    | inr isNew =>
        cases List.mem_singleton.mp isNew
        exact absurd rfl isPosted
  · intro current sends request member same
    cases List.mem_append.mp member with
    | inl earlier =>
        cases sends
        exact absurd (same ▸ List.mem_map_of_mem earlier) notRequested
    | inr isNew =>
        cases List.mem_singleton.mp isNew
        rfl
  · intro current sends
    cases sends
    exact ledger.shared.mem_iff.mp (List.mem_append_left _ held)
  · intro current sends isQueued
    cases sends
    exact absurd isQueued notQueued

theorem markStatus (submitting : Submitting s) {qid : Nat} {opcode : DelOpcode}
    (position : s.worker = .started qid opcode) :
    Submitting
      { s.setStatus qid (-eintr) with worker := .marked qid opcode } := by
  have sends : s.worker.Sending qid := by
    rw [position]
    rfl
  refine { submitting with sending := ?_, known := ?_, cancelled := ?_ }
  · intro current isCurrent
    cases isCurrent
    exact submitting.sending qid sends
  · intro current isCurrent
    cases isCurrent
    exact submitting.known qid sends
  · intro current isCurrent _
    cases isCurrent
    simp [setStatus, setQueue, eintr]

theorem submitCmd (submitting : Submitting s) {qid : Nat} {opcode : DelOpcode} :
    Submitting
      { s with
        worker := .idle
        requests := s.requests.map (send qid)
        log := s.log ++ [.sent opcode qid] } where
  answered := by
    intro request member
    obtain ⟨original, isOriginal, rfl⟩ := List.mem_map.mp member
    have found := submitting.answered original isOriginal
    unfold send
    split
    · exact fun _ => rfl
    · exact found
  sending current sends := by cases sends
  known current sends := by cases sends
  cancelled current sends := by cases sends
  unflushed := submitting.unflushed
  disabled := submitting.disabled

theorem post (submitting : Submitting s) {qid : Nat} {status : Int} :
    Submitting { s with requests := s.requests.map (complete qid status) } := by
  refine { submitting with answered := ?_, sending := ?_ }
  · intro request member
    obtain ⟨original, isOriginal, rfl⟩ := List.mem_map.mp member
    have found := submitting.answered original isOriginal
    unfold complete
    split
    next completes => exact fun _ => completes.2.1
    next => exact found
  · intro current sends request member
    obtain ⟨original, isOriginal, rfl⟩ := List.mem_map.mp member
    have found := submitting.sending current sends original isOriginal
    unfold complete
    split
    · exact found
    · exact found

theorem step (submitting : Submitting s) (ledger : Ledger queueCount initial s)
    {label : DelqLabel} (taken : Taken s label t) : Submitting t := by
  cases taken with
  | allPosted position | skip position isSuspended | setWaiter position
  | checkSleep position under | wake position | timeout position =>
      refine submitting.of_task rfl rfl rfl rfl rfl rfl ?_
        (fun isClear => by cases isClear)
      rw [position]
      exact id
  | disableCtrl position =>
      refine submitting.of_task rfl rfl rfl rfl rfl rfl ?_ (fun _ => rfl)
      rw [position]
      exact id
  | checkZero position zero | flushed position done | disableQueue position
  | join position gone =>
      exact submitting.of_task rfl rfl rfl rfl rfl rfl
        (fun isBefore => by cases isBefore) (fun isClear => by cases isClear)
  | postQueue position online => exact submitting.postQueue ledger position
  | @clearQueue order dying position all =>
      have cleared := submitting.foldl_asyncCompletion ledger all dying
      refine cleared.of_task rfl rfl rfl rfl rfl rfl ?_
        (fun isClear => by cases isClear)
      rw [foldl_asyncCompletion_task, position]
      exact id
  | flushWorker position =>
      obtain ⟨unflushed, _⟩ := submitting.unflushed (by rw [position]; trivial)
      rw [queueKthreadWork_of_not_mem unflushed]
      refine { submitting with
        cancelled := ?_
        unflushed := fun isBefore => by cases isBefore
        disabled := fun isClear => by cases isClear }
      simpa using submitting.cancelled
  | dequeueQueue position head =>
      refine submitting.of_worker rfl ?_ rfl rfl rfl
        (fun _ sends => by cases sends)
      rw [head]
      exact List.subset_cons_self _ _
  | dequeueFlush position head =>
      refine { submitting with cancelled := ?_, unflushed := ?_ }
      · simpa [head] using submitting.cancelled
      · intro isBefore
        have unflushed := (submitting.unflushed isBefore).1
        rw [head] at unflushed
        exact absurd List.mem_cons_self unflushed
  | runStart position | runSqDeleted position deleted
  | runSqFailed position failed
  | runCq position | allocFailed position | atomicDec position
  | wakeOther position | exit position stops =>
      exact submitting.of_worker rfl (List.Subset.refl _) rfl rfl rfl
        (fun _ sends => by cases sends)
  | wakeAsleep position asleep =>
      have woken := submitting.of_worker
        (t := { s with worker := .idle }) rfl (List.Subset.refl _) rfl rfl rfl
        (fun _ sends => by cases sends)
      refine woken.of_task rfl rfl rfl rfl rfl rfl ?_
        (fun isClear => by cases isClear)
      rw [asleep]
      exact id
  | allocRequest position => exact submitting.allocRequest ledger position
  | markStatus position => exact submitting.markStatus position
  | submitCmd position => exact submitting.submitCmd
  | post enabled => exact submitting.post
  | @interrupt request status member entry =>
      apply submitting.asyncCompletion ledger member
      intro sends
      have sent := submitting.answered request member (by simp [entry])
      rw [submitting.sending request.qid sends request member rfl] at sent
      cases sent

end Submitting

def Flushing (s : DelqSystem) : Prop :=
  s.task = .flushing ∧ s.flushed = false ∧
    ∃ earlier, s.workList = earlier ++ [.flush] ∧ .flush ∉ earlier

/-- The work that was on the list when the worker was asked is done, and nothing
has been added to it. -/
def Flushed (s : DelqSystem) : Prop :=
  ¬ s.task.BeforeFlush ∧ s.workList = []

/-- After `nvme_clear_queue`.  `base` are the queues that were still to send a
command then, `failed` those for which there was no request; `all` says that
requests are always given. -/
structure Cleared (all : Bool) (base : List Nat) (s : DelqSystem) : Prop where
  disabled : s.enabled = false
  unanswered : ∀ request ∈ s.requests, request.posted = none
  kept : ∃ failed, (s.requests.map (·.qid) ++ s.unsent ++ failed).Perm base ∧
    (all = true → failed = [])
  position : s.task = .flushWorker ∨ s.Flushing ∨ s.Flushed

theorem asyncCompletion_requests (s : DelqSystem) (request : DelRequest)
    (status : Int) :
    (s.asyncCompletion request status).requests = s.requests.erase request := by
  unfold asyncCompletion queueKthreadWork
  split <;> rfl

theorem asyncCompletion_enabled (s : DelqSystem) (request : DelRequest)
    (status : Int) :
    (s.asyncCompletion request status).enabled = s.enabled := by
  unfold asyncCompletion queueKthreadWork
  split <;> rfl

theorem foldl_asyncCompletion_requests {s : DelqSystem}
    {order : List DelRequest}
    (all : order.Perm s.requests) (status : Int) :
    (order.foldl (fun cleared request =>
      cleared.asyncCompletion request status) s).requests = [] := by
  induction order generalizing s with
  | nil => exact List.nil_perm.mp all
  | cons request rest induction =>
      apply induction
      rw [asyncCompletion_requests]
      exact (List.cons_perm_iff_perm_erase.mp all).2

theorem foldl_asyncCompletion_enabled {s : DelqSystem} (order : List DelRequest)
    (status : Int) :
    (order.foldl (fun cleared request =>
      cleared.asyncCompletion request status) s).enabled = s.enabled := by
  induction order generalizing s with
  | nil => rfl
  | cons request rest induction =>
      exact induction.trans (asyncCompletion_enabled s request status)

namespace Cleared

variable {queueCount : Nat} {initial : Nat → DelQueue} {all : Bool}
variable {base : List Nat} {s t : DelqSystem}

theorem clearQueue (submitting : Submitting s) {order : List DelRequest}
    {dying : Bool}
    (taken : s.step (.clearQueue order dying) = some t) :
    Cleared all t.unsent t := by
  cases taken_of_step taken with
  | clearQueue position perm =>
      have none := foldl_asyncCompletion_requests perm (cancelStatus dying)
      constructor
      case disabled =>
        exact (foldl_asyncCompletion_enabled order _).trans
          (submitting.disabled position)
      case unanswered =>
        intro request member
        rw [show DelqSystem.requests _ = [] from none] at member
        cases member
      case kept =>
        refine ⟨[], ?_, fun _ => rfl⟩
        rw [show DelqSystem.requests _ = [] from none]
        simp
      case position => exact .inl rfl

theorem of_frame (cleared : Cleared all base s)
    (enabled : t.enabled = s.enabled)
    (requests : t.requests = s.requests) (unsent : t.unsent.Perm s.unsent)
    (position : t.task = .flushWorker ∨ t.Flushing ∨ t.Flushed) :
    Cleared all base t where
  disabled := enabled.trans cleared.disabled
  unanswered := by simpa only [requests] using cleared.unanswered
  kept := by
    obtain ⟨failed, perm, none⟩ := cleared.kept
    refine ⟨failed, ?_, none⟩
    rw [requests]
    exact ((unsent.append_left _).append_right _).trans perm
  position := position

theorem position_of_eq (cleared : Cleared all base s) (task : t.task = s.task)
    (workList : t.workList = s.workList) (flushed : t.flushed = s.flushed) :
    t.task = .flushWorker ∨ t.Flushing ∨ t.Flushed := by
  simpa only [Flushing, Flushed, task, workList, flushed] using cleared.position

theorem not_before (cleared : Cleared all base s)
    (other : s.task ≠ .flushWorker) :
    ¬ s.task.BeforeFlush := by
  rcases cleared.position with isFlush | ⟨isFlushing, _⟩ | ⟨notBefore, _⟩
  · exact absurd isFlush other
  · rw [isFlushing]
    exact id
  · exact notBefore

theorem of_worker (cleared : Cleared all base s) {worker : WorkerPc}
    (same : workerUnsent { s with worker := worker } = s.workerUnsent) :
    Cleared all base { s with worker := worker } := by
  refine cleared.of_frame rfl rfl ?_ (cleared.position_of_eq rfl rfl rfl)
  unfold unsent
  rw [same]

theorem dequeueQueue (cleared : Cleared all base s) {qid : Nat}
    {rest : List WorkItem}
    (isIdle : s.worker = .idle) (head : s.workList = .queue qid :: rest) :
    Cleared all base
      { s with
        worker := .entered qid (s.queues qid).work, workList := rest } := by
  refine cleared.of_frame rfl rfl ?_ ?_
  · simp only [unsent, workerUnsent, isIdle, head, workQids_queue,
      List.filter_cons,
      List.nil_append]
    split
    · exact .refl _
    · exact .refl _
  · rcases cleared.position
        with isFlush | ⟨isFlushing, notFlushed, earlier, items, fresh⟩ |
      ⟨_, empty⟩
    · exact .inl isFlush
    · refine .inr (.inl ⟨isFlushing, notFlushed, ?_⟩)
      rw [head] at items
      cases earlier with
      | nil => cases items
      | cons first others =>
          cases items
          exact ⟨others, rfl, fun member =>
            fresh (List.mem_cons_of_mem _ member)⟩
    · rw [head] at empty
      cases empty

theorem dequeueFlush (cleared : Cleared all base s) (submitting : Submitting s)
    {rest : List WorkItem} (isIdle : s.worker = .idle)
    (head : s.workList = .flush :: rest) :
    Cleared all base { s with flushed := true, workList := rest } := by
  refine cleared.of_frame rfl rfl ?_ ?_
  · simp [unsent, workerUnsent, isIdle, head]
  · rcases cleared.position
        with isFlush | ⟨isFlushing, _, earlier, items, fresh⟩ |
      ⟨_, empty⟩
    · have unflushed := (submitting.unflushed (by rw [isFlush]; trivial)).1
      rw [head] at unflushed
      exact absurd List.mem_cons_self unflushed
    · rw [head] at items
      cases earlier with
      | nil =>
          cases items
          exact .inr (.inr ⟨by simp [isFlushing, DelTask.BeforeFlush], rfl⟩)
      | cons first others =>
          cases items
          exact absurd List.mem_cons_self fresh
    · rw [head] at empty
      cases empty

theorem initWork (cleared : Cleared all base s)
    (ledger : Ledger queueCount initial s)
    {qid : Nat} {work : DelWork} (isEntered : s.worker = .entered qid work)
    (sends : (s.queues qid).sends = true) (opcode : DelOpcode)
    (next : DelWork) :
    Cleared all base
      { s.initWork qid next with worker := .alloc qid opcode } := by
  refine cleared.of_frame rfl rfl ?_ (cleared.position_of_eq rfl rfl rfl)
  have once := ledger.holders_nodup
  simp only [holders, isEntered, WorkerPc.holds, List.cons_append,
    List.nil_append,
    List.nodup_cons, List.mem_append, not_or] at once
  have same : (workQids s.workList).filter
      (fun other => ((s.initWork qid next).queues other).sends) =
        (workQids s.workList).filter (fun other => (s.queues other).sends) := by
    apply List.filter_congr
    intro other isQueued
    have differs : other ≠ qid := by
      rintro rfl
      exact once.1.2 isQueued
    simp [DelqSystem.initWork, setQueue, differs]
  simp only [unsent, workerUnsent, isEntered, sends, if_true]
  exact List.Perm.append_left [qid] (List.Perm.of_eq same)

theorem allocRequest (cleared : Cleared all base s) {qid : Nat}
    {opcode : DelOpcode}
    (isAlloc : s.worker = .alloc qid opcode) :
    Cleared all base
      { s with
        worker := .started qid opcode
        requests := s.requests ++ [⟨qid, opcode, false, none⟩] } where
  disabled := cleared.disabled
  unanswered := by
    intro request member
    cases List.mem_append.mp member with
    | inl earlier => exact cleared.unanswered request earlier
    | inr isNew =>
        cases List.mem_singleton.mp isNew
        rfl
  kept := by
    obtain ⟨failed, perm, none⟩ := cleared.kept
    refine ⟨failed, ?_, none⟩
    simp only [unsent, workerUnsent, isAlloc, List.map_append, List.map_cons,
      List.map_nil, List.append_assoc, List.nil_append, List.cons_append]
        at perm ⊢
    exact perm
  position := cleared.position_of_eq rfl rfl rfl

theorem allocFailed (cleared : Cleared all base s)
    (tolerated : all = false) {qid : Nat}
    {opcode : DelOpcode} (isAlloc : s.worker = .alloc qid opcode) :
    Cleared all base { s with worker := .putDq qid } where
  disabled := cleared.disabled
  unanswered := cleared.unanswered
  kept := by
    obtain ⟨failed, perm, _⟩ := cleared.kept
    refine ⟨qid :: failed, ?_, fun isAll => ?_⟩
    · simp only [unsent, workerUnsent, isAlloc, List.append_assoc,
        List.nil_append,
        List.cons_append] at perm ⊢
      refine List.Perm.trans ?_ perm
      apply List.Perm.append_left
      exact List.perm_middle
    · rw [tolerated] at isAll
      cases isAll
  position := cleared.position_of_eq rfl rfl rfl

theorem markStatus (cleared : Cleared all base s) (submitting : Submitting s)
    {qid : Nat} {opcode : DelOpcode}
    (isStarted : s.worker = .started qid opcode) :
    Cleared all base
      { s.setStatus qid (-eintr) with worker := .marked qid opcode } := by
  refine cleared.of_frame rfl rfl ?_ (cleared.position_of_eq rfl rfl rfl)
  simp only [unsent, workerUnsent, isStarted, List.nil_append]
  apply List.Perm.of_eq
  apply List.filter_congr
  intro other isQueued
  by_cases same : other = qid
  · -- The request was cancelled under the worker: no command comes after it.
    subst same
    have failed : (s.queues other).status ≠ 0 :=
      submitting.cancelled other (by rw [isStarted]; rfl) isQueued
    simp [DelQueue.sends, setStatus, setQueue, eintr, failed]
  · simp [setStatus, setQueue, same]

theorem submitCmd (cleared : Cleared all base s) {qid : Nat}
    {opcode : DelOpcode}
    (isMarked : s.worker = .marked qid opcode) :
    Cleared all base
      { s with
        worker := .idle
        requests := s.requests.map (send qid)
        log := s.log ++ [.sent opcode qid] } where
  disabled := cleared.disabled
  unanswered := by
    intro request member
    obtain ⟨original, isOriginal, rfl⟩ := List.mem_map.mp member
    have found := cleared.unanswered original isOriginal
    unfold send
    split
    · exact found
    · exact found
  kept := by
    obtain ⟨failed, perm, none⟩ := cleared.kept
    refine ⟨failed, ?_, none⟩
    simp only [map_send_qid]
    simp only [unsent, workerUnsent, isMarked] at perm ⊢
    exact perm
  position := cleared.position_of_eq rfl rfl rfl

theorem step (cleared : Cleared all base s)
    (ledger : Ledger queueCount initial s)
    (ordered : Ordered s) (submitting : Submitting s) {label : DelqLabel}
    (allowed : all = true → label ≠ .allocRequest false)
    (taken : Taken s label t) :
    Cleared all base t := by
  cases taken with
  | allPosted position | skip position isSuspended | postQueue position online
  | setWaiter position | checkZero position zero | checkSleep position under
  | wake position | timeout position | disableCtrl position
  | clearQueue position perm =>
      have before := cleared.not_before (by simp [position])
      rw [position] at before
      exact absurd trivial before
  | flushWorker position =>
      obtain ⟨unflushed, notFlushed⟩ :=
        submitting.unflushed (by rw [position]; trivial)
      rw [queueKthreadWork_of_not_mem unflushed]
      refine cleared.of_frame rfl rfl ?_
        (.inr (.inl ⟨rfl, notFlushed, s.workList, rfl, unflushed⟩))
      simp [unsent, workerUnsent]
  | flushed position done =>
      refine cleared.of_frame rfl rfl (.refl _) (.inr (.inr ⟨id, ?_⟩))
      rcases cleared.position with isFlush | ⟨_, notFlushed, _⟩ | ⟨_, empty⟩
      · rw [position] at isFlush
        cases isFlush
      · rw [done] at notFlushed
        cases notFlushed
      · exact empty
  | disableQueue position | join position gone =>
      refine cleared.of_frame rfl rfl (.refl _) (.inr (.inr ⟨id, ?_⟩))
      rcases cleared.position with isFlush | ⟨isFlushing, _⟩ | ⟨_, empty⟩
      · rw [position] at isFlush
        cases isFlush
      · rw [position] at isFlushing
        cases isFlushing
      · exact empty
  | dequeueQueue position head => exact cleared.dequeueQueue position head
  | dequeueFlush position head =>
      exact cleared.dequeueFlush submitting position head
  | @runStart qid position =>
      obtain ⟨isWork, _⟩ := ordered.entered qid _ position
      exact cleared.initWork ledger position
        (by simp [DelQueue.sends, ← isWork]) _ _
  | @runSqDeleted qid position deleted =>
      obtain ⟨isWork, _⟩ := ordered.entered qid _ position
      exact cleared.initWork ledger position
        (by simp [DelQueue.sends, ← isWork, deleted]) _ _
  | @runSqFailed qid position failed =>
      obtain ⟨isWork, _⟩ := ordered.entered qid _ position
      apply cleared.of_worker
      simp [workerUnsent, position, DelQueue.sends, ← isWork, failed]
  | @runCq qid position =>
      obtain ⟨isWork, _⟩ := ordered.entered qid _ position
      apply cleared.of_worker
      simp [workerUnsent, position, DelQueue.sends, ← isWork]
  | allocRequest position => exact cleared.allocRequest position
  | allocFailed position =>
      apply cleared.allocFailed _ position
      cases all with
      | true => exact absurd rfl (allowed rfl)
      | false => rfl
  | markStatus position => exact cleared.markStatus submitting position
  | submitCmd position => exact cleared.submitCmd position
  | atomicDec position =>
      refine cleared.of_frame rfl rfl ?_ (cleared.position_of_eq rfl rfl rfl)
      simp [unsent, workerUnsent, position]
  | wakeAsleep position asleep =>
      have before := cleared.not_before (by simp [asleep])
      rw [asleep] at before
      exact absurd trivial before
  | wakeOther position | exit position stops =>
      apply cleared.of_worker
      simp [workerUnsent, position]
  | post enabled =>
      rw [cleared.disabled] at enabled
      cases enabled
  | interrupt member entry =>
      rw [cleared.unanswered _ member] at entry
      cases entry

end Cleared

section Runs

variable {queueCount : Nat} {queues : Nat → DelQueue} {s t u : DelqSystem}
variable {order : List DelRequest} {dying : Bool}

/-- Runs in which `blk_mq_alloc_request` does not fail. -/
def AllocatesAll (_ : DelqSystem) (label : DelqLabel) : Prop :=
  label ≠ .allocRequest false

instance (s : DelqSystem) (label : DelqLabel) :
    Decidable (AllocatesAll s label) :=
  inferInstanceAs (Decidable (label ≠ .allocRequest false))

theorem submitting_of_reach
    (reach : Reach step anyStep (start queueCount queues) s) :
    Submitting s := by
  have both : Ledger queueCount queues s ∧ Submitting s := by
    apply Reach.invariant
      ⟨Ledger.start queueCount queues, Submitting.start queueCount queues⟩ _
        reach
    rintro current following label ⟨ledger, submitting⟩ _ taken
    have isTaken := taken_of_step taken
    exact ⟨ledger.step isTaken, submitting.step ledger isTaken⟩
  exact both.2

theorem cleared_of_reach {guard : DelqSystem → DelqLabel → Prop} {all : Bool}
    (allowed : ∀ state label, guard state label →
      all = true → label ≠ .allocRequest false)
    (reach : Reach step anyStep (start queueCount queues) s)
    (clears : s.step (.clearQueue order dying) = some t)
    (later : Reach step guard t u) :
    Ledger queueCount queues u ∧ Cleared all t.unsent u := by
  have isTaken := taken_of_step clears
  have ledger := ledger_of_reach reach
  have ordered := ordered_of_reach reach
  have submitting := submitting_of_reach reach
  have whole : Ledger queueCount queues u ∧ Ordered u ∧ Submitting u ∧
      Cleared all t.unsent u := by
    apply Reach.invariant ⟨ledger.step isTaken, ordered.step ledger isTaken,
      submitting.step ledger isTaken, Cleared.clearQueue submitting clears⟩ _
        later
    rintro current following label ⟨ledger, ordered, submitting, cleared⟩
        isAllowed taken
    have isTaken := taken_of_step taken
    exact ⟨ledger.step isTaken, ordered.step ledger isTaken,
      submitting.step ledger isTaken, cleared.step ledger ordered submitting
        (allowed current label isAllowed) isTaken⟩
  exact ⟨whole.1, whole.2.2.2⟩

theorem Cleared.holders_eq {all : Bool} {base : List Nat}
    (cleared : Cleared all base u) (ledger : Ledger queueCount queues u)
    (isReturned : u.task = .returned) :
    u.holders = u.requests.map (·.qid) ∧ u.unsent = [] := by
  have gone := ledger.joined isReturned
  have empty : u.workList = [] := by
    rcases cleared.position with isFlush | ⟨isFlushing, _⟩ | ⟨_, empty⟩
    · rw [isReturned] at isFlush
      cases isFlush
    · rw [isReturned] at isFlushing
      cases isFlushing
    · exact empty
  constructor
  · simp [holders, gone, empty, WorkerPc.holds]
  · simp [unsent, workerUnsent, gone, empty]

def killedEarly : List DelqLabel :=
  [.postNext, .postNext, .setWaiter, .check, .timeout, .disableCtrl]

def afterClear : List DelqLabel :=
  [.dequeue, .flushWorker, .runWork, .allocRequest true,
    .markStatus, .submitCmd,
    .dequeue, .flushed, .disableQueue, .exit, .join]

end Runs

end DelqSystem

end Chario.Queue
