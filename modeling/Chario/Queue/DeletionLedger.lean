import Mathlib.Data.List.Basic
import Mathlib.Data.List.Nodup
import Mathlib.Data.List.Perm.Basic
import Mathlib.Data.List.Perm.Subperm
import Chario.Queue.Deletion

namespace Chario.Queue

open Chario.Library

/-! Who holds the references that `nvme_get_dq` took, and in which order the
deletion commands of a queue are sent. -/

def workQids (items : List WorkItem) : List Nat :=
  items.filterMap WorkItem.qid?

@[simp] theorem workQids_nil : workQids [] = [] := rfl

@[simp] theorem workQids_append (items more : List WorkItem) :
    workQids (items ++ more) = workQids items ++ workQids more :=
  List.filterMap_append

@[simp] theorem workQids_queue (qid : Nat) (items : List WorkItem) :
    workQids (.queue qid :: items) = qid :: workQids items := rfl

@[simp] theorem workQids_flush (items : List WorkItem) :
    workQids (.flush :: items) = workQids items := rfl

theorem mem_workQids {qid : Nat} {items : List WorkItem} :
    qid ∈ workQids items ↔ .queue qid ∈ items := by
  constructor
  · intro member
    obtain ⟨item, isItem, found⟩ := List.mem_filterMap.mp member
    cases item with
    | queue other =>
        cases found
        exact isItem
    | flush => cases found
  · intro member
    exact List.mem_filterMap.mpr ⟨_, member, rfl⟩

/-- The queue whose reference the worker itself is to pass on or to drop.  After
`nvme_set_info` it belongs to the request. -/
def WorkerPc.holds : WorkerPc → List Nat
  | .entered qid _ | .alloc qid _ | .putDq qid => [qid]
  | .idle | .started _ _ | .marked _ _ | .dropped | .exited => []

def DelTask.Passed (qid : Nat) : DelTask → Prop
  | .posting next => next < qid
  | _ => True

def DelTask.Stopping : DelTask → Prop
  | .stopWorker | .returned => True
  | _ => False

def DelTask.Late : DelTask → Prop
  | .disableCtrl | .clearQueue | .flushWorker | .flushing | .disableQueue =>
      True
  | _ => False

/-- After the loop over the queues and before `kthread_stop`. -/
def DelTask.Between : DelTask → Prop
  | .setWaiter | .check | .asleep => True
  | task => task.Late

theorem DelTask.Between.passed {task : DelTask} (between : task.Between)
    (qid : Nat) :
    task.Passed qid := by
  cases task <;> simp_all [DelTask.Between, DelTask.Late, DelTask.Passed]

theorem DelTask.Between.not_stopping {task : DelTask} (between : task.Between) :
    ¬ task.Stopping := by
  cases task <;> simp_all [DelTask.Between, DelTask.Late, DelTask.Stopping]

namespace DelqSystem

/-- Every queue whose deletion is under way, once for each place it is in. -/
def holders (s : DelqSystem) : List Nat :=
  s.worker.holds ++ s.requests.map (·.qid) ++ workQids s.workList

section Effects

variable {s : DelqSystem}

@[simp] theorem queueKthreadWork_of_mem {item : WorkItem}
    (member : item ∈ s.workList) :
    s.queueKthreadWork item = s := by
  simp [queueKthreadWork, member]

theorem queueKthreadWork_of_not_mem {item : WorkItem}
    (fresh : item ∉ s.workList) :
    s.queueKthreadWork item = { s with workList := s.workList ++ [item] } := by
  simp [queueKthreadWork, fresh]

theorem asyncCompletion_of_not_mem {request : DelRequest} {status : Int}
    (fresh : .queue request.qid ∉ s.workList) :
    s.asyncCompletion request status =
      { s.setStatus request.qid status with
        workList := s.workList ++ [.queue request.qid]
        requests := s.requests.erase request
        log := s.log ++ [.completed request.opcode request.qid status] } := by
  have absent : WorkItem.queue request.qid ∉
      (s.setStatus request.qid status).workList := fresh
  rw [asyncCompletion, queueKthreadWork_of_not_mem absent]
  rfl

theorem suspended_setStatus (qid other : Nat) (status : Int) :
    ((s.setStatus qid status).queues other).suspended =
    (s.queues other).suspended := by
  unfold setStatus setQueue
  by_cases same : other = qid
  · subst same
    simp
  · simp [same]

theorem suspended_initWork (qid other : Nat) (work : DelWork) :
    ((s.initWork qid work).queues other).suspended =
    (s.queues other).suspended := by
  unfold initWork setQueue
  by_cases same : other = qid
  · subst same
    simp
  · simp [same]

theorem map_send_qid (qid : Nat) (requests : List DelRequest) :
    (requests.map (send qid)).map (·.qid) = requests.map (·.qid) := by
  rw [List.map_map]
  apply List.map_congr_left
  intro request _
  simp only [Function.comp_apply, send]
  split <;> rfl

theorem map_complete_qid (qid : Nat) (status : Int)
    (requests : List DelRequest) :
    (requests.map (complete qid status)).map (·.qid) =
      requests.map (·.qid) := by
  rw [List.map_map]
  apply List.map_congr_left
  intro request _
  simp only [Function.comp_apply, complete]
  split <;> rfl

theorem asyncCompletion_task (request : DelRequest) (status : Int) :
    (s.asyncCompletion request status).task = s.task := by
  unfold asyncCompletion queueKthreadWork
  split <;> rfl

theorem foldl_asyncCompletion_task (order : List DelRequest) (status : Int) :
    (order.foldl (fun cleared request =>
      cleared.asyncCompletion request status) s).task = s.task := by
  induction order generalizing s with
  | nil => rfl
  | cons request rest induction =>
      exact induction.trans (asyncCompletion_task request status)

/-- The reference of a request goes to the work item that its completion
queues. -/
theorem holders_asyncCompletion {request : DelRequest} {status : Int}
    (member : request ∈ s.requests) (once : s.holders.Nodup) :
    (s.asyncCompletion request status).holders.Perm s.holders := by
  have inRequests : request.qid ∈ s.worker.holds ++ s.requests.map (·.qid) :=
    List.mem_append_right _ (List.mem_map_of_mem member)
  have fresh : .queue request.qid ∉ s.workList := by
    intro queued
    exact List.disjoint_of_nodup_append once inRequests
      (mem_workQids.mpr queued)
  have taken : (s.requests.map (·.qid)).Perm
      (request.qid :: (s.requests.erase request).map (·.qid)) :=
    (List.perm_cons_erase member).map (·.qid)
  rw [asyncCompletion_of_not_mem fresh]
  simp only [holders, setStatus, setQueue, workQids_append, workQids_queue,
    workQids_nil, List.append_assoc]
  apply List.Perm.append_left
  rw [← List.append_assoc]
  exact (List.perm_append_singleton _ _).trans (taken.symm.append_right _)

end Effects

/-- The count, and that each deletion under way is held in one place only.
`initial` are the queues before the call. -/
structure Ledger (queueCount : Nat) (initial : Nat → DelQueue)
    (s : DelqSystem) :
    Prop where
  counted : s.refcount = s.holders.length
  shared : (s.holders ++ s.ended).Perm s.posted
  once : s.posted.Nodup
  ahead : ∀ next, s.task = .posting next →
    next ≤ queueCount - 1 ∧ ∀ qid ∈ s.posted, next < qid
  covered : ∀ qid, 0 < qid → qid < queueCount → s.task.Passed qid →
    (s.queues qid).suspended = true
  chosen : ∀ qid, qid ∈ s.posted ↔ 0 < qid ∧ qid < queueCount ∧
    s.task.Passed qid ∧ (initial qid).suspended = false
  untouched : ∀ qid, ¬ s.task.Passed qid →
    (s.queues qid).suspended = (initial qid).suspended
  late : s.task.Late → s.timedOut = true
  quiet : s.task.Stopping → s.timedOut = false → s.holders = []
  exited : s.worker = .exited → s.task.Stopping
  joined : s.task = .returned → s.worker = .exited

namespace Ledger

variable {queueCount : Nat} {initial : Nat → DelQueue} {s t : DelqSystem}

theorem holders_nodup (ledger : Ledger queueCount initial s) :
    s.holders.Nodup :=
  (List.nodup_append.mp (ledger.shared.nodup_iff.mpr ledger.once)).1

theorem start (queueCount : Nat) (queues : Nat → DelQueue) :
    Ledger queueCount queues (DelqSystem.start queueCount queues) where
  counted := rfl
  shared := .refl _
  once := List.nodup_nil
  ahead := by
    intro next position
    cases position
    exact ⟨Nat.le_refl _, List.forall_mem_nil _⟩
  covered := by
    intro qid _ bound passed
    simp only [DelqSystem.start, DelTask.Passed] at passed
    omega
  chosen := by
    intro qid
    simp only [DelqSystem.start, DelTask.Passed, List.not_mem_nil, false_iff]
    omega
  untouched _ _ := rfl
  late := by simp [DelqSystem.start, DelTask.Late]
  quiet := by simp [DelqSystem.start, DelTask.Stopping]
  exited := by simp [DelqSystem.start]
  joined := by simp [DelqSystem.start]

/-- A step that only moves references from one holder to another. -/
theorem of_moved (ledger : Ledger queueCount initial s)
    (holders : t.holders.Perm s.holders) (refcount : t.refcount = s.refcount)
    (posted : t.posted = s.posted) (ended : t.ended = s.ended)
    (suspended : ∀ qid, (t.queues qid).suspended = (s.queues qid).suspended)
    (task : t.task = s.task) (timedOut : t.timedOut = s.timedOut)
    (exited : t.worker = .exited ↔ s.worker = .exited) :
    Ledger queueCount initial t where
  counted := by rw [refcount, ledger.counted, holders.length_eq]
  shared := by
    rw [ended, posted]
    exact (holders.append_right _).trans ledger.shared
  once := by
    rw [posted]
    exact ledger.once
  ahead := by simpa only [task, posted] using ledger.ahead
  covered := by simpa only [task, suspended] using ledger.covered
  chosen := by simpa only [task, posted] using ledger.chosen
  untouched := by simpa only [task, suspended] using ledger.untouched
  late := by simpa only [task, timedOut] using ledger.late
  quiet := by
    intro stops inTime
    rw [task] at stops
    rw [timedOut] at inTime
    have none := ledger.quiet stops inTime
    rw [none] at holders
    exact List.perm_nil.mp holders
  exited := by simpa only [task, exited] using ledger.exited
  joined := by simpa only [task, exited] using ledger.joined

/-- A step that leaves the task between its loop and `kthread_stop`. -/
theorem of_between (ledger : Ledger queueCount initial s)
    (before : s.task.Between) (after : t.task.Between)
    (holders : t.holders.Perm s.holders) (refcount : t.refcount = s.refcount)
    (posted : t.posted = s.posted) (ended : t.ended = s.ended)
    (suspended : ∀ qid, (t.queues qid).suspended = (s.queues qid).suspended)
    (late : t.task.Late → t.timedOut = true)
    (worker : t.worker = .exited → s.worker = .exited) :
    Ledger queueCount initial t where
  counted := by rw [refcount, ledger.counted, holders.length_eq]
  shared := by
    rw [ended, posted]
    exact (holders.append_right _).trans ledger.shared
  once := by
    rw [posted]
    exact ledger.once
  ahead next position := by
    rw [position] at after
    cases after
  covered := by
    intro qid positive bound _
    rw [suspended]
    exact ledger.covered qid positive bound (before.passed qid)
  chosen := by
    intro qid
    rw [posted, ledger.chosen qid]
    simp [before.passed qid, after.passed qid]
  untouched qid unpassed := absurd (after.passed qid) unpassed
  late := late
  quiet stops := absurd stops after.not_stopping
  exited gone := absurd (ledger.exited (worker gone)) before.not_stopping
  joined position := by
    rw [position] at after
    cases after

/-- The task reaches `kthread_stop`. -/
theorem of_stopping (ledger : Ledger queueCount initial s)
    (before : ∀ qid, s.task.Passed qid)
    (none : s.timedOut = false → s.holders = []) :
    Ledger queueCount initial { s with task := .stopWorker } where
  counted := ledger.counted
  shared := ledger.shared
  once := ledger.once
  ahead next position := by cases position
  covered := by
    intro qid positive bound _
    exact ledger.covered qid positive bound (before qid)
  chosen := by
    intro qid
    change qid ∈ s.posted ↔ _
    rw [ledger.chosen qid]
    constructor
    · rintro ⟨positive, bound, _, online⟩
      exact ⟨positive, bound, trivial, online⟩
    · rintro ⟨positive, bound, _, online⟩
      exact ⟨positive, bound, before qid, online⟩
  untouched qid unpassed := absurd trivial unpassed
  late isLate := by cases isLate
  quiet _ inTime := none inTime
  exited _ := trivial
  joined position := by cases position

theorem not_posted (ledger : Ledger queueCount initial s) {below : Nat}
    (position : s.task = .posting (below + 1)) : below + 1 ∉ s.posted := by
  intro member
  exact absurd ((ledger.ahead _ position).2 _ member) (Nat.lt_irrefl _)

theorem not_held (ledger : Ledger queueCount initial s) {qid : Nat}
    (absent : qid ∉ s.posted) : qid ∉ s.holders := by
  intro held
  exact absent (ledger.shared.mem_iff.mp (List.mem_append_left _ held))

theorem postQueue (ledger : Ledger queueCount initial s) {below : Nat}
    (position : s.task = .posting (below + 1))
    (online : (s.queues (below + 1)).suspended = false) :
    Ledger queueCount initial
      { (s.setQueue (below + 1)
          { s.queues (below + 1) with suspended := true, work := .delQueueStart
            }).queueKthreadWork (.queue (below + 1)) with
        task := .posting below
        refcount := s.refcount + 1
        posted := s.posted ++ [below + 1] } := by
  have absent := ledger.not_posted position
  have fresh : .queue (below + 1) ∉ s.workList := by
    intro queued
    exact ledger.not_held absent
      (List.mem_append_right _ (mem_workQids.mpr queued))
  have unqueued : WorkItem.queue (below + 1) ∉ (s.setQueue (below + 1)
      { s.queues (below + 1) with suspended := true, work := .delQueueStart
        }).workList := fresh
  rw [queueKthreadWork_of_not_mem unqueued]
  have added : (s.worker.holds ++ s.requests.map (·.qid) ++
      workQids (s.workList ++ [.queue (below + 1)])).Perm
        ((below + 1) :: s.holders) := by
    rw [workQids_append, ← List.append_assoc]
    exact List.perm_append_singleton _ _
  constructor
  case counted =>
    change s.refcount + 1 = _
    rw [ledger.counted]
    exact_mod_cast (added.length_eq.trans List.length_cons).symm
  case shared =>
    refine (added.append_right _).trans ?_
    exact (ledger.shared.cons _).trans (List.perm_append_singleton _ _).symm
  case once =>
    exact List.nodup_append'.mpr ⟨ledger.once, List.nodup_singleton _,
      List.disjoint_singleton.mpr absent⟩
  case ahead =>
    intro next isNext
    cases isNext
    obtain ⟨within, above⟩ := ledger.ahead _ position
    refine ⟨by omega, ?_⟩
    intro qid member
    cases List.mem_append.mp member with
    | inl earlier => exact Nat.lt_of_succ_lt (above qid earlier)
    | inr added => simp_all
  case covered =>
    intro qid positive bound passed
    change below < qid at passed
    simp only [setQueue]
    by_cases same : qid = below + 1
    · subst same
      simp
    · rw [Function.update_of_ne same]
      apply ledger.covered qid positive bound
      rw [position]
      change below + 1 < qid
      omega
  case chosen =>
    intro qid
    have within := (ledger.ahead _ position).1
    have isOnline : (initial (below + 1)).suspended = false := by
      rw [← ledger.untouched (below + 1) (by simp [position, DelTask.Passed])]
      exact online
    change qid ∈ s.posted ++ [below + 1] ↔ 0 < qid ∧ qid < queueCount ∧
        below < qid ∧ _
    rw [List.mem_append, List.mem_singleton, ledger.chosen qid, position]
    simp only [DelTask.Passed]
    constructor
    · rintro (⟨positive, bound, passed, chosen⟩ | rfl)
      · exact ⟨positive, bound, by omega, chosen⟩
      · exact ⟨by omega, by omega, by omega, isOnline⟩
    · rintro ⟨positive, bound, passed, chosen⟩
      by_cases same : qid = below + 1
      · exact .inr same
      · exact .inl ⟨positive, bound, by omega, chosen⟩
  case untouched =>
    intro qid unpassed
    change ¬ below < qid at unpassed
    have other : qid ≠ below + 1 := by omega
    simp only [setQueue, Function.update_of_ne other]
    apply ledger.untouched
    rw [position]
    simp only [DelTask.Passed]
    omega
  case late =>
    intro isLate
    cases isLate
  case quiet =>
    intro stops
    cases stops
  case exited =>
    intro gone
    have stops := ledger.exited gone
    rw [position] at stops
    cases stops
  case joined =>
    intro isReturned
    cases isReturned

theorem atomicDec (ledger : Ledger queueCount initial s) {qid : Nat}
    (position : s.worker = .putDq qid) :
    Ledger queueCount initial
      { s with
        worker := .dropped
        refcount := s.refcount - 1
        ended := s.ended ++ [qid] } := by
  have held :
      s.holders = qid :: (s.requests.map (·.qid) ++ workQids s.workList) := by
    simp [holders, position, WorkerPc.holds]
  constructor
  case counted =>
    change s.refcount - 1 = _
    rw [ledger.counted, held]
    simp [holders, WorkerPc.holds]
  case shared =>
    have shared := ledger.shared
    rw [held] at shared
    refine List.Perm.trans ?_ shared
    change (s.requests.map (·.qid) ++ workQids s.workList ++
      (s.ended ++ [qid])).Perm _
    rw [← List.append_assoc]
    exact List.perm_append_singleton _ _
  case once => exact ledger.once
  case ahead => exact ledger.ahead
  case covered => exact ledger.covered
  case chosen => exact ledger.chosen
  case untouched => exact ledger.untouched
  case late => exact ledger.late
  case quiet =>
    intro stops inTime
    have none := ledger.quiet stops inTime
    rw [held] at none
    cases none
  case exited =>
    intro gone
    cases gone
  case joined =>
    intro isReturned
    have gone := ledger.joined isReturned
    rw [position] at gone
    cases gone

theorem not_queued (ledger : Ledger queueCount initial s) {request : DelRequest}
    (member : request ∈ s.requests) : .queue request.qid ∉ s.workList := by
  intro queued
  exact List.disjoint_of_nodup_append ledger.holders_nodup
    (List.mem_append_right _ (List.mem_map_of_mem member))
    (mem_workQids.mpr queued)

theorem asyncCompletion (ledger : Ledger queueCount initial s)
    {request : DelRequest}
    {status : Int} (member : request ∈ s.requests) :
    Ledger queueCount initial (s.asyncCompletion request status) := by
  have moved :=
    @holders_asyncCompletion s request status member ledger.holders_nodup
  rw [asyncCompletion_of_not_mem (ledger.not_queued member)] at moved ⊢
  exact ledger.of_moved moved rfl rfl rfl
    (fun qid => suspended_setStatus request.qid qid status) rfl rfl Iff.rfl

theorem foldl_asyncCompletion (ledger : Ledger queueCount initial s)
    {order : List DelRequest} (all : order.Perm s.requests) (status : Int) :
    Ledger queueCount initial (order.foldl (fun cleared request =>
      cleared.asyncCompletion request status) s) := by
  induction order generalizing s with
  | nil => exact ledger
  | cons request rest induction =>
      have member : request ∈ s.requests := all.mem_iff.mp List.mem_cons_self
      apply induction (ledger.asyncCompletion member)
      exact (List.cons_perm_iff_perm_erase.mp all).2

theorem not_exited (ledger : Ledger queueCount initial s) {next : Nat}
    (position : s.task = .posting next) : s.worker ≠ .exited := by
  intro gone
  have stops := ledger.exited gone
  rw [position] at stops
  cases stops

theorem allPosted (ledger : Ledger queueCount initial s)
    (position : s.task = .posting 0) :
    Ledger queueCount initial { s with task := .setWaiter } := by
  refine { ledger with
    ahead := fun _ isNext => by cases isNext
    covered := ?_
    chosen := ?_
    untouched := fun _ unpassed => absurd trivial unpassed
    late := fun isLate => by cases isLate
    quiet := fun stops => by cases stops
    exited := fun gone => absurd gone (ledger.not_exited position)
    joined := fun isReturned => by cases isReturned }
  · intro qid positive bound _
    apply ledger.covered qid positive bound
    rw [position]
    exact positive
  · intro qid
    change qid ∈ s.posted ↔ _
    rw [ledger.chosen qid, position]
    simp only [DelTask.Passed]
    tauto

theorem skip (ledger : Ledger queueCount initial s) {below : Nat}
    (position : s.task = .posting (below + 1))
    (isSuspended : (s.queues (below + 1)).suspended = true) :
    Ledger queueCount initial { s with task := .posting below } := by
  refine { ledger with
    ahead := ?_
    covered := ?_
    chosen := ?_
    untouched := ?_
    late := fun isLate => by cases isLate
    quiet := fun stops => by cases stops
    exited := fun gone => absurd gone (ledger.not_exited position)
    joined := fun isReturned => by cases isReturned }
  · intro next isNext
    cases isNext
    obtain ⟨within, above⟩ := ledger.ahead _ position
    exact ⟨by omega, fun qid member => Nat.lt_of_succ_lt (above qid member)⟩
  · intro qid positive bound passed
    change below < qid at passed
    by_cases same : qid = below + 1
    · rw [same]
      exact isSuspended
    · apply ledger.covered qid positive bound
      rw [position]
      change below + 1 < qid
      omega
  · intro qid
    have wasSuspended : (initial (below + 1)).suspended = true := by
      rw [← ledger.untouched (below + 1) (by simp [position, DelTask.Passed])]
      exact isSuspended
    change qid ∈ s.posted ↔ 0 < qid ∧ qid < queueCount ∧ below < qid ∧ _
    rw [ledger.chosen qid, position]
    simp only [DelTask.Passed]
    constructor
    · rintro ⟨positive, bound, passed, online⟩
      exact ⟨positive, bound, by omega, online⟩
    · rintro ⟨positive, bound, passed, online⟩
      refine ⟨positive, bound, ?_, online⟩
      by_contra unpassed
      obtain rfl : qid = below + 1 := by omega
      rw [wasSuspended] at online
      cases online
  · intro qid unpassed
    change ¬ below < qid at unpassed
    apply ledger.untouched
    rw [position]
    simp only [DelTask.Passed]
    omega

theorem clearQueue (ledger : Ledger queueCount initial s)
    {order : List DelRequest}
    (position : s.task = .clearQueue) (all : order.Perm s.requests)
    (dying : Bool) :
    Ledger queueCount initial
      { order.foldl (fun cleared request =>
          cleared.asyncCompletion request (cancelStatus dying)) s with
        task := .flushWorker } := by
  have cleared := ledger.foldl_asyncCompletion all (cancelStatus dying)
  refine cleared.of_between ?_ trivial (.refl _) rfl rfl rfl (fun _ => rfl)
    (fun _ => cleared.late ?_) id
  all_goals
    rw [foldl_asyncCompletion_task, position]
    trivial

theorem flushWorker (ledger : Ledger queueCount initial s)
    (position : s.task = .flushWorker) :
    Ledger queueCount initial
      { s.queueKthreadWork .flush with task := .flushing } := by
  have timedOut := ledger.late (by rw [position]; trivial)
  have between : s.task.Between := by
    rw [position]
    trivial
  by_cases queued : WorkItem.flush ∈ s.workList
  · rw [queueKthreadWork_of_mem queued]
    exact ledger.of_between between trivial (.refl _) rfl rfl rfl (fun _ => rfl)
      (fun _ => timedOut) id
  · rw [queueKthreadWork_of_not_mem queued]
    refine ledger.of_between between trivial ?_ rfl rfl rfl (fun _ => rfl)
      (fun _ => timedOut) id
    simp [holders]

theorem join (ledger : Ledger queueCount initial s)
    (position : s.task = .stopWorker)
    (gone : s.worker = .exited) :
    Ledger queueCount initial { s with task := .returned } := by
  refine { ledger with
    ahead := fun _ isNext => by cases isNext
    covered := ?_
    chosen := ?_
    untouched := fun _ unpassed => absurd trivial unpassed
    late := fun isLate => by cases isLate
    quiet := fun _ inTime => ledger.quiet (by rw [position]; trivial) inTime
    exited := fun _ => trivial
    joined := fun _ => gone }
  · intro qid positive bound _
    apply ledger.covered qid positive bound
    rw [position]
    trivial
  · intro qid
    change qid ∈ s.posted ↔ _
    rw [ledger.chosen qid, position]
    exact Iff.rfl

theorem exit (ledger : Ledger queueCount initial s)
    (position : s.worker = .idle)
    (stops : s.task = .stopWorker) :
    Ledger queueCount initial { s with worker := .exited } := by
  have same : holders { s with worker := .exited } = s.holders := by
    simp [holders, position, WorkerPc.holds]
  refine { ledger with
    counted := by rw [same]; exact ledger.counted
    shared := by rw [same]; exact ledger.shared
    quiet := by rw [same]; exact ledger.quiet
    exited := fun _ => by simp [stops, DelTask.Stopping]
    joined := fun _ => rfl }

theorem step (ledger : Ledger queueCount initial s) {label : DelqLabel}
    (taken : Taken s label t) : Ledger queueCount initial t := by
  cases taken with
  | allPosted position => exact ledger.allPosted position
  | skip position isSuspended => exact ledger.skip position isSuspended
  | postQueue position online => exact ledger.postQueue position online
  | setWaiter position | checkSleep position under | wake position =>
      refine ledger.of_between ?_ trivial (.refl _) rfl rfl rfl (fun _ => rfl)
        (fun isLate => by cases isLate) id
      rw [position]
      trivial
  | checkZero position zero =>
      apply ledger.of_stopping
      · simp [position, DelTask.Passed]
      · intro _
        have counted := ledger.counted
        rw [zero] at counted
        exact List.eq_nil_of_length_eq_zero (by exact_mod_cast counted.symm)
  | timeout position =>
      refine ledger.of_between ?_ trivial (.refl _) rfl rfl rfl (fun _ => rfl)
        (fun _ => rfl) id
      rw [position]
      trivial
  | disableCtrl position | flushed position done =>
      have timedOut := ledger.late (by rw [position]; trivial)
      refine ledger.of_between ?_ trivial (.refl _) rfl rfl rfl (fun _ => rfl)
        (fun _ => timedOut) id
      rw [position]
      trivial
  | clearQueue position all => exact ledger.clearQueue position all _
  | flushWorker position => exact ledger.flushWorker position
  | disableQueue position =>
      have timedOut := ledger.late (by rw [position]; trivial)
      apply ledger.of_stopping
      · simp [position, DelTask.Passed]
      · intro inTime
        rw [timedOut] at inTime
        cases inTime
  | join position gone => exact ledger.join position gone
  | dequeueQueue position head =>
      refine ledger.of_moved ?_ rfl rfl rfl (fun _ => rfl) rfl rfl ?_
      · simp only [holders, position, head, WorkerPc.holds, workQids_queue,
          List.nil_append, List.singleton_append]
        exact List.perm_middle.symm
      · simp [position]
  | dequeueFlush position head =>
      refine ledger.of_moved ?_ rfl rfl rfl (fun _ => rfl) rfl rfl Iff.rfl
      simp [holders, head]
  | @runStart qid position | @runSqDeleted qid position deleted =>
      refine ledger.of_moved ?_ rfl rfl rfl
        (fun other => suspended_initWork qid other _) rfl rfl ?_
      · simp [holders, position, WorkerPc.holds, initWork, setQueue]
      · simp [position]
  | runSqFailed position failed | runCq position | allocFailed position =>
      refine ledger.of_moved ?_ rfl rfl rfl (fun _ => rfl) rfl rfl ?_
      · simp [holders, position, WorkerPc.holds]
      · simp [position]
  | allocRequest position =>
      refine ledger.of_moved ?_ rfl rfl rfl (fun _ => rfl) rfl rfl ?_
      · simp only [holders, position, WorkerPc.holds, List.map_append,
          List.map_cons,
          List.map_nil, List.nil_append, List.singleton_append]
        exact (List.perm_append_singleton _ _).append_right _
      · simp [position]
  | @markStatus qid opcode position =>
      refine ledger.of_moved ?_ rfl rfl rfl
        (fun other => suspended_setStatus qid other _) rfl rfl ?_
      · simp [holders, position, WorkerPc.holds, setStatus, setQueue]
      · simp [position]
  | submitCmd position =>
      refine ledger.of_moved ?_ rfl rfl rfl (fun _ => rfl) rfl rfl ?_
      · simp only [holders, position, WorkerPc.holds, map_send_qid]
        exact .refl _
      · simp [position]
  | atomicDec position => exact ledger.atomicDec position
  | wakeAsleep position asleep =>
      refine ledger.of_between ?_ trivial ?_ rfl rfl rfl (fun _ => rfl)
        (fun isLate => by cases isLate) ?_
      · rw [asleep]
        trivial
      · simp [holders, position, WorkerPc.holds]
      · simp
  | wakeOther position =>
      refine ledger.of_moved ?_ rfl rfl rfl (fun _ => rfl) rfl rfl ?_
      · simp [holders, position, WorkerPc.holds]
      · simp [position]
  | exit position stops => exact ledger.exit position stops
  | post enabled =>
      refine ledger.of_moved ?_ rfl rfl rfl (fun _ => rfl) rfl rfl Iff.rfl
      simp only [holders, map_complete_qid]
      exact .refl _
  | interrupt member entry => exact ledger.asyncCompletion member

end Ledger

end DelqSystem

end Chario.Queue
