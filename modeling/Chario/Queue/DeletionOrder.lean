import Mathlib.Data.List.Basic
import Mathlib.Data.List.Nodup
import Mathlib.Data.List.Perm.Basic
import Mathlib.Logic.Function.Basic
import Chario.Library.Transition
import Chario.Queue.Deletion
import Chario.Queue.DeletionLedger

namespace Chario.Queue

open Chario.Library

/-! The completion queue of an I/O queue is deleted after its submission queue
only. -/

inductive DelEvent.Needs : DelEvent → DelEvent → Prop
  | deleteCq (qid : Nat) :
      DelEvent.Needs (.sent .deleteCq qid) (.completed .deleteSq qid 0)

theorem DelOpcode.eq_deleteSq {opcode : DelOpcode}
    (isHandler : opcode.handler = .delSqWorkHandler) : opcode = .deleteSq := by
  cases opcode with
  | deleteSq => rfl
  | deleteCq => cases isHandler

/-- The worker is in `nvme_delete_cq` for this queue. -/
def WorkerPc.DeletesCq (qid : Nat) : WorkerPc → Prop
  | .alloc current opcode | .started current opcode | .marked current opcode =>
      current = qid ∧ opcode = .deleteCq
  | _ => False

namespace DelqSystem

/-- When the handler of the submission queue is to find a zero status, the
submission queue is gone. -/
def SqDeleted (s : DelqSystem) (qid : Nat) : Prop :=
  (s.queues qid).work = .delSqWorkHandler → (s.queues qid).status = 0 →
    .completed .deleteSq qid 0 ∈ s.log

structure Ordered (s : DelqSystem) : Prop where
  requested : ∀ request ∈ s.requests,
    (s.queues request.qid).work = request.opcode.handler
  allocating : ∀ qid opcode, s.worker = .alloc qid opcode →
    (s.queues qid).work = opcode.handler
  entered : ∀ qid work, s.worker = .entered qid work →
    work = (s.queues qid).work ∧ s.SqDeleted qid
  queued : ∀ qid ∈ workQids s.workList, s.SqDeleted qid
  deleting : ∀ qid, s.worker.DeletesCq qid → .completed .deleteSq qid 0 ∈ s.log
  inOrder : InOrder DelEvent.Needs s.log

namespace Ordered

variable {queueCount : Nat} {initial : Nat → DelQueue} {s t : DelqSystem}

theorem start (queueCount : Nat) (queues : Nat → DelQueue) :
    Ordered (DelqSystem.start queueCount queues) where
  requested request member := by cases member
  allocating qid opcode position := by cases position
  entered qid work position := by cases position
  queued qid member := by cases member
  deleting qid deletes := by cases deletes
  inOrder := InOrder.nil

theorem of_frame (ordered : Ordered s) (requests : t.requests = s.requests)
    (queues : t.queues = s.queues) (workList : t.workList = s.workList)
    (log : t.log = s.log)
    (allocating : ∀ qid opcode, t.worker = .alloc qid opcode →
      (s.queues qid).work = opcode.handler)
    (entered : ∀ qid work, t.worker = .entered qid work →
      work = (s.queues qid).work ∧ s.SqDeleted qid)
    (deleting : ∀ qid, t.worker.DeletesCq qid →
      .completed .deleteSq qid 0 ∈ s.log) : Ordered t where
  requested := by simpa only [requests, queues] using ordered.requested
  allocating := by simpa only [queues] using allocating
  entered := by simpa only [SqDeleted, queues, log] using entered
  queued := by
    simpa only [SqDeleted, workList, queues, log] using ordered.queued
  deleting := by simpa only [log] using deleting
  inOrder := by simpa only [log] using ordered.inOrder

theorem of_task (ordered : Ordered s) (requests : t.requests = s.requests)
    (queues : t.queues = s.queues) (workList : t.workList = s.workList)
    (log : t.log = s.log) (worker : t.worker = s.worker) : Ordered t := by
  apply ordered.of_frame requests queues workList log
  · simpa only [worker] using ordered.allocating
  · simpa only [worker] using ordered.entered
  · simpa only [worker] using ordered.deleting

theorem of_worker (ordered : Ordered s) {worker : WorkerPc}
    (notAlloc : ∀ qid opcode, worker ≠ .alloc qid opcode)
    (notEntered : ∀ qid work, worker ≠ .entered qid work)
    (sendsNot : ∀ qid, ¬ worker.DeletesCq qid) :
    Ordered { s with worker := worker } :=
  ordered.of_frame rfl rfl rfl rfl
    (fun qid opcode position => absurd position (notAlloc qid opcode))
    (fun qid work position => absurd position (notEntered qid work))
    (fun qid deletes => absurd deletes (sendsNot qid))

theorem asyncCompletion (ordered : Ordered s)
    (ledger : Ledger queueCount initial s)
    {request : DelRequest} {status : Int} (member : request ∈ s.requests) :
    Ordered (s.asyncCompletion request status) := by
  have inRequests : request.qid ∈ s.requests.map (·.qid) :=
    List.mem_map_of_mem member
  have unqueued := ledger.not_queued member
  have unheld : request.qid ∉ s.worker.holds := by
    intro held
    exact List.disjoint_of_nodup_append
      (List.nodup_append.mp ledger.holders_nodup).1 held inRequests
  rw [asyncCompletion_of_not_mem unqueued]
  -- The status of the other queues and their part of the log are kept.
  have kept : ∀ qid, qid ≠ request.qid → s.SqDeleted qid →
      SqDeleted { s.setStatus request.qid status with
        workList := s.workList ++ [.queue request.qid]
        requests := s.requests.erase request
        log :=
          s.log ++ [.completed request.opcode request.qid status] } qid := by
    intro qid other deleted isWork isZero
    simp only [setStatus, setQueue, Function.update_of_ne other]
      at isWork isZero
    exact List.mem_append_left _ (deleted isWork isZero)
  have sameWork : ∀ qid,
      ((s.setStatus request.qid status).queues qid).work =
      (s.queues qid).work := by
    intro qid
    by_cases same : qid = request.qid
    · subst same
      simp [setStatus, setQueue]
    · simp [setStatus, setQueue, same]
  constructor
  case requested =>
    intro other isOther
    exact (sameWork other.qid).trans
      (ordered.requested other (List.mem_of_mem_erase isOther))
  case allocating =>
    intro qid opcode position
    exact (sameWork qid).trans (ordered.allocating qid opcode position)
  case entered =>
    intro qid work position
    change s.worker = .entered qid work at position
    obtain ⟨isWork, deleted⟩ := ordered.entered qid work position
    refine ⟨isWork.trans (sameWork qid).symm, kept qid ?_ deleted⟩
    rintro rfl
    simp [position, WorkerPc.holds] at unheld
  case queued =>
    intro qid isQueued
    simp only [workQids_append, workQids_queue, workQids_nil, List.mem_append,
      List.mem_singleton] at isQueued
    cases isQueued with
    | inl earlier =>
        apply kept qid _ (ordered.queued qid earlier)
        rintro rfl
        exact unqueued (mem_workQids.mp earlier)
    | inr isNew =>
        subst isNew
        intro isWork isZero
        have opcode := ordered.requested request member
        rw [← sameWork request.qid, isWork] at opcode
        simp only [setStatus, setQueue, Function.update_self] at isZero
        rw [DelOpcode.eq_deleteSq opcode.symm, isZero]
        exact List.mem_append_right _ List.mem_cons_self
  case deleting =>
    intro qid deletes
    exact List.mem_append_left _ (ordered.deleting qid deletes)
  case inOrder =>
    apply ordered.inOrder.snoc
    intro cause needs
    cases needs

theorem foldl_asyncCompletion (ordered : Ordered s)
    (ledger : Ledger queueCount initial s)
    {order : List DelRequest} (all : order.Perm s.requests) (status : Int) :
    Ordered (order.foldl (fun cleared request =>
      cleared.asyncCompletion request status) s) := by
  induction order generalizing s with
  | nil => exact ordered
  | cons request rest induction =>
      have member : request ∈ s.requests := all.mem_iff.mp List.mem_cons_self
      apply induction (ordered.asyncCompletion ledger member)
        (ledger.asyncCompletion member)
      exact (List.cons_perm_iff_perm_erase.mp all).2

theorem postQueue (ordered : Ordered s) (ledger : Ledger queueCount initial s)
    {below : Nat}
    (position : s.task = .posting (below + 1)) :
    Ordered
      { (s.setQueue (below + 1)
          { s.queues (below + 1) with suspended := true, work := .delQueueStart
            }).queueKthreadWork (.queue (below + 1)) with
        task := .posting below
        refcount := s.refcount + 1
        posted := s.posted ++ [below + 1] } := by
  have unheld := ledger.not_held (ledger.not_posted position)
  simp only [holders, List.mem_append, not_or] at unheld
  obtain ⟨⟨notWorker, notRequested⟩, notQueued⟩ := unheld
  have unqueued : WorkItem.queue (below + 1) ∉ (s.setQueue (below + 1)
      { s.queues (below + 1) with suspended := true, work := .delQueueStart
        }).workList := fun queued => notQueued (mem_workQids.mpr queued)
  rw [queueKthreadWork_of_not_mem unqueued]
  have kept : ∀ qid, qid ≠ below + 1 → Function.update s.queues (below + 1)
      { s.queues (below + 1) with
        suspended := true, work := .delQueueStart } qid =
        s.queues qid := fun qid other => Function.update_of_ne other _ _
  constructor
  case requested =>
    intro request member
    have other : request.qid ≠ below + 1 := by
      intro same
      exact notRequested (same ▸ List.mem_map_of_mem member)
    simp only [setQueue, kept _ other]
    exact ordered.requested request member
  case allocating =>
    intro qid opcode isAlloc
    change s.worker = .alloc qid opcode at isAlloc
    have other : qid ≠ below + 1 := by
      rintro rfl
      simp [isAlloc, WorkerPc.holds] at notWorker
    simp only [setQueue, kept _ other]
    exact ordered.allocating qid opcode isAlloc
  case entered =>
    intro qid work isEntered
    change s.worker = .entered qid work at isEntered
    have other : qid ≠ below + 1 := by
      rintro rfl
      simp [isEntered, WorkerPc.holds] at notWorker
    simp only [SqDeleted, setQueue, kept _ other]
    exact ordered.entered qid work isEntered
  case queued =>
    intro qid isQueued
    simp only [workQids_append, workQids_queue, workQids_nil, List.mem_append,
      List.mem_singleton] at isQueued
    cases isQueued with
    | inl earlier =>
        have other : qid ≠ below + 1 := by
          rintro rfl
          exact notQueued earlier
        simp only [SqDeleted, setQueue, kept _ other]
        exact ordered.queued qid earlier
    | inr isNew =>
        subst isNew
        intro isWork
        simp [setQueue] at isWork
  case deleting => exact ordered.deleting
  case inOrder => exact ordered.inOrder

/-- A handler goes on to `adapter_async_del_queue`. -/
theorem initWork (ordered : Ordered s)
    (ledger : Ledger queueCount initial s) {qid : Nat}
    {work : DelWork} (position : s.worker = .entered qid work)
    (opcode : DelOpcode)
    (deleted : opcode = .deleteCq → .completed .deleteSq qid 0 ∈ s.log) :
    Ordered
      { s.initWork qid opcode.handler with worker := .alloc qid opcode } := by
  have once := ledger.holders_nodup
  simp only [holders, position, WorkerPc.holds, List.nil_append,
    List.cons_append, List.nodup_cons, List.mem_append, not_or] at once
  obtain ⟨⟨notRequested, notQueued⟩, _⟩ := once
  have kept : ∀ other, other ≠ qid →
      (s.initWork qid opcode.handler).queues other =
      s.queues other := fun other differs => Function.update_of_ne differs _ _
  constructor
  case requested =>
    intro request member
    have other : request.qid ≠ qid := by
      intro same
      exact notRequested (same ▸ List.mem_map_of_mem member)
    simp only [kept _ other]
    exact ordered.requested request member
  case allocating =>
    intro current operation isAlloc
    cases isAlloc
    simp [DelqSystem.initWork, setQueue]
  case entered =>
    intro current operation isEntered
    cases isEntered
  case queued =>
    intro other isQueued
    have differs : other ≠ qid := by
      rintro rfl
      exact notQueued isQueued
    simp only [SqDeleted, kept _ differs]
    exact ordered.queued other isQueued
  case deleting =>
    intro current deletes
    obtain ⟨rfl, isCq⟩ := deletes
    exact deleted isCq
  case inOrder => exact ordered.inOrder

theorem markStatus (ordered : Ordered s) {qid : Nat} {opcode : DelOpcode}
    (position : s.worker = .started qid opcode) :
    Ordered { s.setStatus qid (-eintr) with worker := .marked qid opcode } := by
  have sameWork : ∀ other,
      ((s.setStatus qid (-eintr)).queues other).work =
      (s.queues other).work := by
    intro other
    by_cases same : other = qid
    · subst same
      simp [setStatus, setQueue]
    · simp [setStatus, setQueue, same]
  constructor
  case requested =>
    intro request member
    exact (sameWork request.qid).trans (ordered.requested request member)
  case allocating =>
    intro current operation isAlloc
    cases isAlloc
  case entered =>
    intro current operation isEntered
    cases isEntered
  case queued =>
    intro other isQueued isWork isZero
    by_cases same : other = qid
    · -- A request cancelled under the worker: its status is an error anyway.
      subst same
      simp [setStatus, setQueue, eintr] at isZero
    · simp only [setStatus, setQueue, Function.update_of_ne same]
        at isWork isZero
      exact ordered.queued other isQueued isWork isZero
  case deleting =>
    intro current deletes
    apply ordered.deleting
    rw [position]
    exact deletes
  case inOrder => exact ordered.inOrder

theorem submitCmd (ordered : Ordered s) {qid : Nat} {opcode : DelOpcode}
    (position : s.worker = .marked qid opcode) :
    Ordered
      { s with
        worker := .idle
        requests := s.requests.map (send qid)
        log := s.log ++ [.sent opcode qid] } where
  requested := by
    intro request member
    obtain ⟨original, isOriginal, rfl⟩ := List.mem_map.mp member
    have found := ordered.requested original isOriginal
    unfold send
    split
    · exact found
    · exact found
  allocating current operation isAlloc := by cases isAlloc
  entered current work isEntered := by cases isEntered
  queued other isQueued isWork isZero :=
    List.mem_append_left _ (ordered.queued other isQueued isWork isZero)
  deleting current deletes := by cases deletes
  inOrder := by
    apply ordered.inOrder.snoc
    intro cause needs
    cases needs
    apply ordered.deleting
    rw [position]
    exact ⟨rfl, rfl⟩

theorem step (ordered : Ordered s) (ledger : Ledger queueCount initial s)
    {label : DelqLabel}
    (taken : Taken s label t) : Ordered t := by
  cases taken with
  | allPosted position | skip position isSuspended | setWaiter position
  | checkZero position zero | checkSleep position under | wake position
  | timeout position | disableCtrl position | flushed position done
  | disableQueue position | join position gone =>
      exact ordered.of_task rfl rfl rfl rfl rfl
  | postQueue position online => exact ordered.postQueue ledger position
  | @clearQueue order dying position all =>
      have cleared :=
        ordered.foldl_asyncCompletion ledger all (cancelStatus dying)
      exact cleared.of_task rfl rfl rfl rfl rfl
  | flushWorker position =>
      by_cases queued : WorkItem.flush ∈ s.workList
      · rw [queueKthreadWork_of_mem queued]
        exact ordered.of_task rfl rfl rfl rfl rfl
      · rw [queueKthreadWork_of_not_mem queued]
        refine { ordered with queued := ?_ }
        simpa [SqDeleted] using ordered.queued
  | @dequeueQueue qid rest position head =>
      refine { ordered with
        allocating := fun _ _ isAlloc => by cases isAlloc
        entered := ?_
        queued := ?_
        deleting := fun _ deletes => by cases deletes }
      · intro current work isEntered
        cases isEntered
        refine ⟨rfl, ordered.queued qid ?_⟩
        simp [head]
      · intro other isQueued
        apply ordered.queued other
        rw [head]
        exact List.mem_cons_of_mem _ isQueued
  | dequeueFlush position head =>
      refine { ordered with queued := ?_ }
      intro other isQueued
      apply ordered.queued other
      rw [head]
      exact isQueued
  | runStart position =>
      exact ordered.initWork ledger position .deleteSq
        (fun isCq => by cases isCq)
  | @runSqDeleted qid position deleted =>
      obtain ⟨isWork, sqDeleted⟩ := ordered.entered qid _ position
      exact ordered.initWork ledger position .deleteCq
        (fun _ => sqDeleted isWork.symm deleted)
  | runSqFailed position failed | runCq position | allocFailed position
  | wakeOther position | exit position stops =>
      exact ordered.of_worker (by simp) (by simp) (by simp [WorkerPc.DeletesCq])
  | wakeAsleep position asleep =>
      exact (ordered.of_worker (by simp) (by simp)
        (by simp [WorkerPc.DeletesCq])).of_task rfl rfl rfl rfl rfl
  | atomicDec position =>
      exact (ordered.of_worker (by simp) (by simp)
        (by simp [WorkerPc.DeletesCq])).of_task rfl rfl rfl rfl rfl
  | @allocRequest qid opcode position =>
      refine { ordered with
        requested := ?_
        allocating := fun _ _ isAlloc => by cases isAlloc
        entered := fun _ _ isEntered => by cases isEntered
        deleting := ?_ }
      · intro request member
        cases List.mem_append.mp member with
        | inl earlier => exact ordered.requested request earlier
        | inr isNew =>
            cases List.mem_singleton.mp isNew
            exact ordered.allocating qid opcode position
      · intro current deletes
        apply ordered.deleting
        rw [position]
        exact deletes
  | markStatus position => exact ordered.markStatus position
  | submitCmd position => exact ordered.submitCmd position
  | post enabled =>
      refine { ordered with requested := ?_ }
      intro request member
      obtain ⟨original, isOriginal, rfl⟩ := List.mem_map.mp member
      have found := ordered.requested original isOriginal
      unfold complete
      split
      · exact found
      · exact found
  | interrupt member entry => exact ordered.asyncCompletion ledger member

end Ordered

section Runs

variable {queueCount : Nat} {queues : Nat → DelQueue} {s : DelqSystem}

theorem ledger_of_reach
    (reach : Reach step anyStep (start queueCount queues) s) :
    Ledger queueCount queues s := by
  apply Reach.invariant (Ledger.start queueCount queues) _ reach
  intro current following label ledger _ taken
  exact ledger.step (taken_of_step taken)

theorem ordered_of_reach
    (reach : Reach step anyStep (start queueCount queues) s) : Ordered s := by
  have both : Ledger queueCount queues s ∧ Ordered s := by
    apply Reach.invariant
      ⟨Ledger.start queueCount queues, Ordered.start queueCount queues⟩ _ reach
    rintro current following label ⟨ledger, ordered⟩ _ taken
    have isTaken := taken_of_step taken
    exact ⟨ledger.step isTaken, ordered.step ledger isTaken⟩
  exact both.2

structure Deleted (queueCount : Nat) (queues : Nat → DelQueue)
    (s : DelqSystem) :
    Prop where
  gone : s.worker = .exited
  suspended : ∀ qid, 0 < qid → qid < queueCount →
  (s.queues qid).suspended = true
  posted : ∀ qid, qid ∈ s.posted ↔
    0 < qid ∧ qid < queueCount ∧ (queues qid).suspended = false
  inTime : s.timedOut = false → s.refcount = 0 ∧ s.requests = [] ∧
    workQids s.workList = [] ∧ s.ended.Perm s.posted

theorem Ledger.deleted (ledger : Ledger queueCount queues s)
    (isReturned : s.task = .returned) : Deleted queueCount queues s where
  gone := ledger.joined isReturned
  suspended := by
    intro qid positive bound
    apply ledger.covered qid positive bound
    rw [isReturned]
    trivial
  posted := by
    intro qid
    rw [ledger.chosen qid, isReturned]
    simp only [DelTask.Passed, true_and]
  inTime := by
    intro inTime
    have none : s.holders = [] :=
      ledger.quiet (by rw [isReturned]; trivial) inTime
    have counted := ledger.counted
    have shared := ledger.shared
    rw [none] at counted shared
    simp only [holders, List.append_eq_nil_iff, List.map_eq_nil_iff] at none
    exact ⟨counted, none.1.2, none.2, shared⟩

/-- In every interleaving of the task, its worker, the controller and the
interrupts, the count is the number of queues whose deletion is under way, each
of them in one place; a completion queue is only deleted after its submission
queue; and when the function is left in time, every I/O queue that was online
has been put once and nothing refers to the context any more. -/
theorem disableIoQueues_references
    (reach : Reach step anyStep (start queueCount queues) s) :
    s.refcount = s.holders.length ∧ (s.holders ++ s.ended).Perm s.posted ∧
      s.posted.Nodup ∧ InOrder DelEvent.Needs s.log ∧
      (s.task = .returned → Deleted queueCount queues s) := by
  have ledger := ledger_of_reach reach
  exact ⟨ledger.counted, ledger.shared, ledger.once,
    (ordered_of_reach reach).inOrder, ledger.deleted⟩

def deleteOne : List DelqLabel :=
  [.postNext, .postNext, .dequeue, .runWork, .allocRequest true, .postNext,
    .markStatus, .submitCmd, .setWaiter, .check, .post 1 0,
    .interrupt ⟨1, .deleteSq, true, some 0⟩ 0, .dequeue, .runWork,
    .allocRequest true, .markStatus, .submitCmd, .post 1 0,
    .interrupt ⟨1, .deleteCq, true, some 0⟩ 0, .dequeue, .runWork, .atomicDec,
    .wakeWaiter, .check, .exit, .join]

def deleteOneQueues (qid : Nat) : DelQueue :=
  ⟨qid == 2, .delCqWorkHandler, 0⟩

theorem disableIoQueues_references_deleteOne :
    ∃ s, runSteps step (start 3 deleteOneQueues) deleteOne = some s ∧
      s.task = .returned ∧ s.timedOut = false ∧ s.posted = [1] ∧
      Deleted 3 deleteOneQueues s := by
  have ends : (runSteps step (start 3 deleteOneQueues) deleteOne).map
      (fun s => (s.task, s.timedOut, s.posted)) =
        some (.returned, false, [1]) := by
    decide
  obtain ⟨s, ran, facts⟩ := Option.map_eq_some_iff.mp ends
  simp only [Prod.mk.injEq] at facts
  obtain ⟨isReturned, inTime, posted⟩ := facts
  refine ⟨s, ran, isReturned, inTime, posted, ?_⟩
  exact (disableIoQueues_references (Reach.of_runSteps ran)).2.2.2.2 isReturned

end Runs

end DelqSystem

end Chario.Queue
