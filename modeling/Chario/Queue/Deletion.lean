import Mathlib.Data.List.Basic
import Mathlib.Data.List.Nodup
import Mathlib.Data.List.Perm.Basic
import Mathlib.Logic.Function.Basic
import Chario.Constants
import Chario.Library.Transition

namespace Chario.Queue

open Chario.Library

/-! `nvme_disable_io_queues` with its worker: the task that shuts the controller
down, the `kthread_worker` on its stack, the controller, and the interrupts that
complete the deletion commands. -/

inductive DelWork
  | delQueueStart
  | delSqWorkHandler
  | delCqWorkHandler
deriving DecidableEq, Repr

inductive DelOpcode
  | deleteSq
  | deleteCq
deriving DecidableEq, Repr

def DelOpcode.handler : DelOpcode → DelWork
  | .deleteSq => .delSqWorkHandler
  | .deleteCq => .delCqWorkHandler

/-- An I/O queue: `suspended` is `cq_vector == -1`, the rest is its
`cmdinfo`. -/
structure DelQueue where
  suspended : Bool
  work : DelWork
  status : Int
deriving DecidableEq, Repr

/-- A started request of the admin queue whose context is the `cmdinfo` of
`qid`.  `sent` once the command is in the submission queue; `posted` is the
status of its entry in the completion queue. -/
structure DelRequest where
  qid : Nat
  opcode : DelOpcode
  sent : Bool
  posted : Option Int
deriving DecidableEq, Repr

inductive WorkItem
  | queue (qid : Nat)
  | flush
deriving DecidableEq, Repr

def WorkItem.qid? : WorkItem → Option Nat
  | .queue qid => some qid
  | .flush => none

/-- Where the worker is.  `alloc` is inside `blk_mq_alloc_request`, `started`
after `nvme_set_info`, `marked` after `cmdinfo->status = -EINTR`, and `dropped`
between the two statements of `nvme_put_dq`. -/
inductive WorkerPc
  | idle
  | entered (qid : Nat) (work : DelWork)
  | alloc (qid : Nat) (opcode : DelOpcode)
  | started (qid : Nat) (opcode : DelOpcode)
  | marked (qid : Nat) (opcode : DelOpcode)
  | putDq (qid : Nat)
  | dropped
  | exited
deriving DecidableEq, Repr

/-- Where the task is: the loop of `nvme_disable_io_queues`, `nvme_wait_dq` with
its way out after a timeout, and `kthread_stop`. -/
inductive DelTask
  | posting (next : Nat)
  | setWaiter
  | check
  | asleep
  | disableCtrl
  | clearQueue
  | flushWorker
  | flushing
  | disableQueue
  | stopWorker
  | returned
deriving DecidableEq, Repr

inductive DelEvent
  | sent (opcode : DelOpcode) (qid : Nat)
  | completed (opcode : DelOpcode) (qid : Nat) (status : Int)
deriving DecidableEq, Repr

/-- `refcount` and `waiter` are those of the `nvme_delq_ctx`, `enabled` is
`CC.EN`.  `posted` and `ended` hold the queues for which `nvme_get_dq` and
`nvme_put_dq` were called, `log` what happened to the deletion commands. -/
structure DelqSystem where
  task : DelTask
  timedOut : Bool
  refcount : Int
  waiter : Bool
  worker : WorkerPc
  workList : List WorkItem
  flushed : Bool
  enabled : Bool
  queues : Nat → DelQueue
  requests : List DelRequest
  posted : List Nat
  ended : List Nat
  log : List DelEvent

inductive DelqLabel
  | postNext
  | setWaiter
  | check
  | wake
  | timeout
  | disableCtrl
  | clearQueue (order : List DelRequest) (dying : Bool)
  | flushWorker
  | flushed
  | disableQueue
  | join
  | dequeue
  | runWork
  | allocRequest (ok : Bool)
  | markStatus
  | submitCmd
  | atomicDec
  | wakeWaiter
  | exit
  | post (qid : Nat) (status : Int)
  | interrupt (request : DelRequest) (status : Int)
deriving DecidableEq, Repr

namespace DelqSystem

/-- `kthread_run` has started the worker and the context is set up. -/
def start (queueCount : Nat) (queues : Nat → DelQueue) : DelqSystem where
  task := .posting (queueCount - 1)
  timedOut := false
  refcount := 0
  waiter := false
  worker := .idle
  workList := []
  flushed := false
  enabled := true
  queues := queues
  requests := []
  posted := []
  ended := []
  log := []

def queueKthreadWork (s : DelqSystem) (item : WorkItem) : DelqSystem :=
  if item ∈ s.workList then s else { s with workList := s.workList ++ [item] }

def setQueue (s : DelqSystem) (qid : Nat) (queue : DelQueue) : DelqSystem :=
  { s with queues := Function.update s.queues qid queue }

def initWork (s : DelqSystem) (qid : Nat) (work : DelWork) : DelqSystem :=
  s.setQueue qid { s.queues qid with work := work }

def setStatus (s : DelqSystem) (qid : Nat) (status : Int) : DelqSystem :=
  s.setQueue qid { s.queues qid with status := status }

/-! Steps of the task. -/

def postNext (s : DelqSystem) : Option DelqSystem :=
  match s.task with
  | .posting 0 => some { s with task := .setWaiter }
  | .posting (below + 1) =>
      let qid := below + 1
      if (s.queues qid).suspended then some { s with task := .posting below }
      else
        some { (s.setQueue qid
            { s.queues qid with suspended := true, work := .delQueueStart
              }).queueKthreadWork (.queue qid) with
          task := .posting below
          refcount := s.refcount + 1
          posted := s.posted ++ [qid] }
  | _ => none

def setWaiter (s : DelqSystem) : Option DelqSystem :=
  if s.task = .setWaiter then some { s with task := .check, waiter := true }
  else none

def check (s : DelqSystem) : Option DelqSystem :=
  if s.task = .check then
    some { s with task := if s.refcount = 0 then .stopWorker else .asleep }
  else none

/-- `schedule_timeout` returns with time left and no fatal signal. -/
def wake (s : DelqSystem) : Option DelqSystem :=
  if s.task = .asleep then some { s with task := .check } else none

/-- `schedule_timeout` returns zero, or a fatal signal is pending. -/
def timeout (s : DelqSystem) : Option DelqSystem :=
  if s.task = .asleep then
    some { s with task := .disableCtrl, timedOut := true }
  else none

def disableCtrl (s : DelqSystem) : Option DelqSystem :=
  if s.task = .disableCtrl then
    some { s with task := .clearQueue, enabled := false }
  else none

/-- `async_completion`, for a completion entry or for a cancelled request.  It
returns before the worker takes up the item that it queues, so that
`cmdinfo->req`, which it frees after that, is still the request that was
completed. -/
def asyncCompletion (s : DelqSystem) (request : DelRequest) (status : Int) :
    DelqSystem :=
  { (s.setStatus request.qid status).queueKthreadWork (.queue request.qid) with
    requests := s.requests.erase request
    log := s.log ++ [.completed request.opcode request.qid status] }

/-- `nvme_clear_queue` of the admin queue, which goes through its started
requests by tag: in any order of ours. -/
def clearQueue (s : DelqSystem) (order : List DelRequest) (dying : Bool) :
    Option DelqSystem :=
  if s.task = .clearQueue ∧ order.Perm s.requests then
    some { order.foldl (fun cleared request =>
        cleared.asyncCompletion request (cancelStatus dying)) s with
      task := .flushWorker }
  else none

def flushWorker (s : DelqSystem) : Option DelqSystem :=
  if s.task = .flushWorker then
    some { s.queueKthreadWork .flush with task := .flushing }
  else none

def flushDone (s : DelqSystem) : Option DelqSystem :=
  if s.task = .flushing ∧ s.flushed then some { s with task := .disableQueue }
  else none

/-- `nvme_disable_queue` of the admin queue is over when its completion queue
holds no more entries. -/
def disableQueue (s : DelqSystem) : Option DelqSystem :=
  if s.task = .disableQueue ∧ s.requests.all (·.posted.isNone) then
    some { s with task := .stopWorker }
  else none

/-- `kthread_stop` returns when the worker has left. -/
def join (s : DelqSystem) : Option DelqSystem :=
  if s.task = .stopWorker ∧ s.worker = .exited then
    some { s with task := .returned }
  else none

/-! Steps of the worker. -/

def dequeue (s : DelqSystem) : Option DelqSystem :=
  match s.worker, s.workList with
  | .idle, .queue qid :: rest =>
      some { s with
        worker := .entered qid (s.queues qid).work
        workList := rest }
  | .idle, .flush :: rest => some { s with flushed := true, workList := rest }
  | _, _ => none

/-- The handlers up to their call of `blk_mq_alloc_request` or of
`nvme_del_queue_end`. -/
def runWork (s : DelqSystem) : Option DelqSystem :=
  match s.worker with
  | .entered qid .delQueueStart =>
      some { s.initWork qid .delSqWorkHandler with
        worker := .alloc qid .deleteSq }
  | .entered qid .delSqWorkHandler =>
      if (s.queues qid).status = 0 then
        some { s.initWork qid .delCqWorkHandler with
          worker := .alloc qid .deleteCq }
      else some { s with worker := .putDq qid }
  | .entered qid .delCqWorkHandler => some { s with worker := .putDq qid }
  | _ => none

/-- With an error the deletion of the queue is over; otherwise `nvme_set_info`
has started the request. -/
def allocRequest (s : DelqSystem) (ok : Bool) : Option DelqSystem :=
  match s.worker with
  | .alloc qid opcode =>
      if ok then
        some { s with
          worker := .started qid opcode
          requests := s.requests ++ [⟨qid, opcode, false, none⟩] }
      else some { s with worker := .putDq qid }
  | _ => none

def markStatus (s : DelqSystem) : Option DelqSystem :=
  match s.worker with
  | .started qid opcode =>
      some { s.setStatus qid (-eintr) with worker := .marked qid opcode }
  | _ => none

def send (qid : Nat) (request : DelRequest) : DelRequest :=
  if request.qid = qid then { request with sent := true } else request

/-- `nvme_submit_cmd`, which does not fail.  The request may have been cancelled
by now; its command is sent all the same. -/
def submitCmd (s : DelqSystem) : Option DelqSystem :=
  match s.worker with
  | .marked qid opcode =>
      some { s with
        worker := .idle
        requests := s.requests.map (send qid)
        log := s.log ++ [.sent opcode qid] }
  | _ => none

def atomicDec (s : DelqSystem) : Option DelqSystem :=
  match s.worker with
  | .putDq qid =>
      some { s with
        worker := .dropped
        refcount := s.refcount - 1
        ended := s.ended ++ [qid] }
  | _ => none

def wakeWaiter (s : DelqSystem) : Option DelqSystem :=
  if s.worker = .dropped then
    some { s with
      worker := .idle
      task := if s.waiter ∧ s.task = .asleep then .check else s.task }
  else none

/-- `kthread_should_stop` is seen between two work items. -/
def exit (s : DelqSystem) : Option DelqSystem :=
  if s.worker = .idle ∧ s.task = .stopWorker then
    some { s with worker := .exited }
  else none

/-! Steps of the controller and of the interrupt handler. -/

def complete (qid : Nat) (status : Int) (request : DelRequest) : DelRequest :=
  if request.qid = qid ∧ request.sent ∧ request.posted = none then
    { request with posted := some status }
  else request

def post (s : DelqSystem) (qid : Nat) (status : Int) : Option DelqSystem :=
  if s.enabled then
    some { s with requests := s.requests.map (complete qid status) }
  else none

def interrupt (s : DelqSystem) (request : DelRequest) (status : Int) :
    Option DelqSystem :=
  if request ∈ s.requests ∧ request.posted = some status then
    some (s.asyncCompletion request status)
  else none

def step (s : DelqSystem) : DelqLabel → Option DelqSystem
  | .postNext => s.postNext
  | .setWaiter => s.setWaiter
  | .check => s.check
  | .wake => s.wake
  | .timeout => s.timeout
  | .disableCtrl => s.disableCtrl
  | .clearQueue order dying => s.clearQueue order dying
  | .flushWorker => s.flushWorker
  | .flushed => s.flushDone
  | .disableQueue => s.disableQueue
  | .join => s.join
  | .dequeue => s.dequeue
  | .runWork => s.runWork
  | .allocRequest ok => s.allocRequest ok
  | .markStatus => s.markStatus
  | .submitCmd => s.submitCmd
  | .atomicDec => s.atomicDec
  | .wakeWaiter => s.wakeWaiter
  | .exit => s.exit
  | .post qid status => s.post qid status
  | .interrupt request status => s.interrupt request status

inductive Taken (s : DelqSystem) : DelqLabel → DelqSystem → Prop
  | allPosted (position : s.task = .posting 0) :
      Taken s .postNext { s with task := .setWaiter }
  | skip {below : Nat} (position : s.task = .posting (below + 1))
      (isSuspended : (s.queues (below + 1)).suspended = true) :
      Taken s .postNext { s with task := .posting below }
  | postQueue {below : Nat} (position : s.task = .posting (below + 1))
      (online : (s.queues (below + 1)).suspended = false) :
      Taken s .postNext
        { (s.setQueue (below + 1)
            { s.queues (below + 1) with
              suspended := true, work := .delQueueStart
              }).queueKthreadWork (.queue (below + 1)) with
          task := .posting below
          refcount := s.refcount + 1
          posted := s.posted ++ [below + 1] }
  | setWaiter (position : s.task = .setWaiter) :
      Taken s .setWaiter { s with task := .check, waiter := true }
  | checkZero (position : s.task = .check) (zero : s.refcount = 0) :
      Taken s .check { s with task := .stopWorker }
  | checkSleep (position : s.task = .check) (under : s.refcount ≠ 0) :
      Taken s .check { s with task := .asleep }
  | wake (position : s.task = .asleep) : Taken s .wake { s with task := .check }
  | timeout (position : s.task = .asleep) :
      Taken s .timeout { s with task := .disableCtrl, timedOut := true }
  | disableCtrl (position : s.task = .disableCtrl) :
      Taken s .disableCtrl { s with task := .clearQueue, enabled := false }
  | clearQueue {order : List DelRequest} {dying : Bool}
      (position : s.task = .clearQueue) (all : order.Perm s.requests) :
      Taken s (.clearQueue order dying)
        { order.foldl (fun cleared request =>
            cleared.asyncCompletion request (cancelStatus dying)) s with
          task := .flushWorker }
  | flushWorker (position : s.task = .flushWorker) :
      Taken s .flushWorker { s.queueKthreadWork .flush with task := .flushing }
  | flushed (position : s.task = .flushing) (done : s.flushed = true) :
      Taken s .flushed { s with task := .disableQueue }
  | disableQueue (position : s.task = .disableQueue) :
      Taken s .disableQueue { s with task := .stopWorker }
  | join (position : s.task = .stopWorker) (gone : s.worker = .exited) :
      Taken s .join { s with task := .returned }
  | dequeueQueue {qid : Nat} {rest : List WorkItem}
      (position : s.worker = .idle)
      (head : s.workList = .queue qid :: rest) :
      Taken s .dequeue
        { s with worker := .entered qid (s.queues qid).work, workList := rest }
  | dequeueFlush {rest : List WorkItem} (position : s.worker = .idle)
      (head : s.workList = .flush :: rest) :
      Taken s .dequeue { s with flushed := true, workList := rest }
  | runStart {qid : Nat} (position : s.worker = .entered qid .delQueueStart) :
      Taken s .runWork
        { s.initWork qid .delSqWorkHandler with worker := .alloc qid .deleteSq }
  | runSqDeleted {qid : Nat}
      (position : s.worker = .entered qid .delSqWorkHandler)
      (deleted : (s.queues qid).status = 0) :
      Taken s .runWork
        { s.initWork qid .delCqWorkHandler with worker := .alloc qid .deleteCq }
  | runSqFailed {qid : Nat}
      (position : s.worker = .entered qid .delSqWorkHandler)
      (failed : (s.queues qid).status ≠ 0) :
      Taken s .runWork { s with worker := .putDq qid }
  | runCq {qid : Nat} (position : s.worker = .entered qid .delCqWorkHandler) :
      Taken s .runWork { s with worker := .putDq qid }
  | allocRequest {qid : Nat} {opcode : DelOpcode}
      (position : s.worker = .alloc qid opcode) :
      Taken s (.allocRequest true)
        { s with
          worker := .started qid opcode
          requests := s.requests ++ [⟨qid, opcode, false, none⟩] }
  | allocFailed {qid : Nat} {opcode : DelOpcode}
      (position : s.worker = .alloc qid opcode) :
      Taken s (.allocRequest false) { s with worker := .putDq qid }
  | markStatus {qid : Nat} {opcode : DelOpcode}
      (position : s.worker = .started qid opcode) :
      Taken s .markStatus
        { s.setStatus qid (-eintr) with worker := .marked qid opcode }
  | submitCmd {qid : Nat} {opcode : DelOpcode}
      (position : s.worker = .marked qid opcode) :
      Taken s .submitCmd
        { s with
          worker := .idle
          requests := s.requests.map (send qid)
          log := s.log ++ [.sent opcode qid] }
  | atomicDec {qid : Nat} (position : s.worker = .putDq qid) :
      Taken s .atomicDec
        { s with
          worker := .dropped
          refcount := s.refcount - 1
          ended := s.ended ++ [qid] }
  | wakeAsleep (position : s.worker = .dropped) (asleep : s.task = .asleep) :
      Taken s .wakeWaiter { s with worker := .idle, task := .check }
  | wakeOther (position : s.worker = .dropped) :
      Taken s .wakeWaiter { s with worker := .idle }
  | exit (position : s.worker = .idle) (stops : s.task = .stopWorker) :
      Taken s .exit { s with worker := .exited }
  | post {qid : Nat} {status : Int} (enabled : s.enabled = true) :
      Taken s (.post qid status)
        { s with requests := s.requests.map (complete qid status) }
  | interrupt {request : DelRequest} {status : Int}
      (member : request ∈ s.requests)
      (entry : request.posted = some status) :
      Taken s (.interrupt request status) (s.asyncCompletion request status)

theorem taken_of_step {s t : DelqSystem} {label : DelqLabel}
    (steps : s.step label = some t) : Taken s label t := by
  cases label
  all_goals simp only [step, setWaiter, check, wake, timeout, disableCtrl,
    clearQueue, flushWorker, flushDone, disableQueue, join, wakeWaiter, exit,
    post, interrupt, Option.ite_none_right_eq_some, Option.some.injEq] at steps
  case postNext =>
    unfold postNext at steps
    split at steps
    next position =>
        cases steps
        exact .allPosted position
    next below position =>
        dsimp only at steps
        split at steps
        next isSuspended =>
            cases steps
            exact .skip position isSuspended
        next online =>
            cases steps
            exact .postQueue position (Bool.eq_false_iff.mpr online)
    next => cases steps
  case setWaiter =>
    obtain ⟨position, rfl⟩ := steps
    exact .setWaiter position
  case check =>
    obtain ⟨position, rfl⟩ := steps
    by_cases zero : s.refcount = 0
    · rw [if_pos zero]
      exact .checkZero position zero
    · rw [if_neg zero]
      exact .checkSleep position zero
  case wake =>
    obtain ⟨position, rfl⟩ := steps
    exact .wake position
  case timeout =>
    obtain ⟨position, rfl⟩ := steps
    exact .timeout position
  case disableCtrl =>
    obtain ⟨position, rfl⟩ := steps
    exact .disableCtrl position
  case clearQueue order dying =>
    obtain ⟨⟨position, all⟩, rfl⟩ := steps
    exact .clearQueue position all
  case flushWorker =>
    obtain ⟨position, rfl⟩ := steps
    exact .flushWorker position
  case flushed =>
    obtain ⟨⟨position, done⟩, rfl⟩ := steps
    exact .flushed position done
  case disableQueue =>
    obtain ⟨⟨position, _⟩, rfl⟩ := steps
    exact .disableQueue position
  case join =>
    obtain ⟨⟨position, gone⟩, rfl⟩ := steps
    exact .join position gone
  case dequeue =>
    unfold dequeue at steps
    split at steps
    next qid rest position head =>
        cases steps
        exact .dequeueQueue position head
    next rest position head =>
        cases steps
        exact .dequeueFlush position head
    next => cases steps
  case runWork =>
    unfold runWork at steps
    split at steps
    next qid position =>
        cases steps
        exact .runStart position
    next qid position =>
        split at steps
        next deleted =>
            cases steps
            exact .runSqDeleted position deleted
        next failed =>
            cases steps
            exact .runSqFailed position failed
    next qid position =>
        cases steps
        exact .runCq position
    next => cases steps
  case allocRequest ok =>
    unfold allocRequest at steps
    split at steps
    next qid opcode position =>
        cases ok with
        | true =>
            cases steps
            exact .allocRequest position
        | false =>
            cases steps
            exact .allocFailed position
    next => cases steps
  case markStatus =>
    unfold markStatus at steps
    split at steps
    next qid opcode position =>
        cases steps
        exact .markStatus position
    next => cases steps
  case submitCmd =>
    unfold submitCmd at steps
    split at steps
    next qid opcode position =>
        cases steps
        exact .submitCmd position
    next => cases steps
  case atomicDec =>
    unfold atomicDec at steps
    split at steps
    next qid position =>
        cases steps
        exact .atomicDec position
    next => cases steps
  case wakeWaiter =>
    obtain ⟨position, rfl⟩ := steps
    by_cases asleep : s.waiter ∧ s.task = .asleep
    · rw [if_pos asleep]
      exact .wakeAsleep position asleep.2
    · rw [if_neg asleep]
      exact .wakeOther position
  case exit =>
    obtain ⟨⟨position, stops⟩, rfl⟩ := steps
    exact .exit position stops
  case post qid status =>
    obtain ⟨enabled, rfl⟩ := steps
    exact .post enabled
  case interrupt request status =>
    obtain ⟨⟨member, entry⟩, rfl⟩ := steps
    exact .interrupt member entry

end DelqSystem

end Chario.Queue
