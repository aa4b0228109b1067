import Mathlib.Data.Finset.Card
import Mathlib.Data.Finset.Range
import Mathlib.Data.List.Basic
import Mathlib.Data.List.Count
import Mathlib.Data.Nat.Bitwise
import Mathlib.Logic.Function.Basic
import Chario.Queue.Command

namespace Chario.Queue

/-! `nvme_dev_shutdown` and the re-initialisation after it: which completion
functions are called for the commands that were in flight. -/

inductive Slot
  | chario (tag : Nat)
  | rq (tag : Nat)
deriving DecidableEq, Repr

/-- A completion function called with its context.  `slot` is `none` for an id
outside the ring. -/
structure Call where
  slot : Option Slot
  fn : CompletionFn
  ctx : CmdCtx
deriving DecidableEq, Repr

def Call.isFor (slot : Slot) (cmd : CmdInfo) (call : Call) : Bool :=
  call.slot = some slot ∧ call.fn = cmd.fn ∧ call.ctx = cmd.ctx

structure BusyRequest where
  tag : Nat
  started : Bool
deriving DecidableEq, Repr

/-- A queue of the device.  `suspended` is `cq_vector == -1`, `cq` holds the ids
of the entries posted and not yet consumed, and `calls` records the run.  The
`submitters` are the tasks inside a chario request, each with the `remaining` of
its `cmdinfo`. -/
structure DevQueue where
  queue : NvmeQueue
  suspended : Bool
  cq : List Nat
  busy : List BusyRequest
  submitters : List Nat
  remaining : Nat → Int
  calls : List Call

/-- What the shutdown meets: the value read from `csts` (all ones without a
BAR), whether `kthread_run` succeeds, whether the wait for the queue deletions
times out, and which submitters run between their wake-up and the end of the
re-initialisation. -/
structure ShutdownEnv where
  csts : Nat
  worker : Bool
  timedOut : Bool
  ran : Nat → Bool

def nvmeCstsRdy : Nat := 1

def nvmeCstsCfs : Nat := 2

namespace ShutdownEnv

def failed (env : ShutdownEnv) : Bool :=
  env.csts &&& nvmeCstsCfs ≠ 0 ∨ env.csts &&& nvmeCstsRdy = 0

end ShutdownEnv

namespace DevQueue

def slotOf (q : DevQueue) (tag : Nat) : Option Slot :=
  if q.queue.qDepth ≤ tag then none
  else if q.queue.qid = 0 ∨ 31 < tag then some (.rq tag)
  else some (.chario tag)

def info (q : DevQueue) : Slot → CmdInfo
  | .chario tag => q.queue.charioCmds tag
  | .rq tag => q.queue.rqCmds tag

/-- The completion functions after which the request is no longer busy and
started: it is completed, requeued or freed. -/
def releases : CompletionFn → Bool
  | .req | .async | .abort => true
  | _ => false

/-- A completion function is called: `chario_completion` takes a sub-command off
the `remaining` of its submitter. -/
def complete (q : DevQueue) (call : Call) : DevQueue :=
  { q with
    remaining :=
      match call.fn, call.ctx with
      | .chario, .ptr owner =>
          Function.update q.remaining owner (q.remaining owner - reqMaxBlocks)
      | _, _ => q.remaining
    calls := q.calls ++ [call] }

def processEntry (q : DevQueue) (tag : Nat) : DevQueue :=
  let found := q.queue.nvmeFinishCmd tag
  let marked : DevQueue :=
    { q with
      queue := found.2
      busy :=
        if q.slotOf tag = some (.rq tag) ∧ releases found.1.1 then
          q.busy.filter (·.tag ≠ tag)
        else q.busy }
  marked.complete ⟨q.slotOf tag, found.1.1, found.1.2⟩

def nvmeProcessCq (q : DevQueue) : DevQueue :=
  q.cq.foldl processEntry { q with cq := [] }

def cancelled (cmd : CmdInfo) : CmdInfo :=
  { cmd with fn := .special, ctx := .cancelled }

def nvmeCancelQueueIos (q : DevQueue) (request : BusyRequest) : DevQueue :=
  if ¬ request.started then q
  else if (q.queue.rqCmds request.tag).ctx = .cancelled then q
  else
    let marked : DevQueue :=
      { q with
        queue := q.queue.setRq request.tag
          (cancelled (q.queue.rqCmds request.tag)) }
    marked.complete ⟨some (.rq request.tag), (q.queue.rqCmds request.tag).fn,
      (q.queue.rqCmds request.tag).ctx⟩

def nvmeClearQueue (q : DevQueue) : DevQueue :=
  q.busy.foldl nvmeCancelQueueIos q

def nvmeSuspendQueue (q : DevQueue) : DevQueue :=
  { q with suspended := true }

def nvmeDisableQueue (q : DevQueue) : DevQueue :=
  if q.suspended then q else q.nvmeSuspendQueue.nvmeProcessCq

/-- What `nvme_disable_io_queues` does to a queue.  With the worker running the
I/O queues are suspended and deleted but their completion queues are not read
again; when the deletions time out the admin queue is cleared and disabled. -/
def nvmeDisableIoQueues (env : ShutdownEnv) (q : DevQueue) : DevQueue :=
  if q.queue.qid ≠ 0 then
    if env.worker then q.nvmeSuspendQueue else q.nvmeDisableQueue
  else if env.worker ∧ env.timedOut then q.nvmeClearQueue.nvmeDisableQueue
  else q

def nvmeDevShutdown (env : ShutdownEnv) (q : DevQueue) : DevQueue :=
  let stopped :=
    if env.failed then q.nvmeSuspendQueue
    else
      let deleted := nvmeDisableIoQueues env q
      if q.queue.qid = 0 then deleted.nvmeDisableQueue else deleted
  stopped.nvmeClearQueue

/-- `nvme_init_queue`: the completion queue is zeroed and the interrupt vector
is back.  The tag counter and the slots are left alone. -/
def nvmeInitQueue (q : DevQueue) : DevQueue :=
  { q with cq := [], suspended := false }

/-- What the submitters do that have been woken and run: behind `schedule()`
each sets the tag counter back. -/
def resume (env : ShutdownEnv) (q : DevQueue) : DevQueue :=
  if ∃ owner ∈ q.submitters, q.remaining owner < 0 ∧ env.ran owner then
    { q with queue := q.queue.resetTag }
  else q

def restart (env : ShutdownEnv) (q : DevQueue) : DevQueue :=
  ((q.nvmeDevShutdown env).resume env).nvmeInitQueue

/-- The sub-commands of a request that are registered and not completed. -/
def inFlight (q : DevQueue) (owner : Nat) : Nat :=
  ((Finset.range charioCmdCount).filter (fun tag =>
    (q.queue.charioCmds tag).fn = .chario ∧
      (q.queue.charioCmds tag).ctx = .ptr owner)).card

/-- The completions in flight are all that the request still lacks: its
submitter has issued the last command and waits. -/
def Issued (q : DevQueue) (owner : Nat) : Prop :=
  q.remaining owner < reqMaxBlocks * q.inFlight owner

def Live (cmd : CmdInfo) : Prop :=
  cmd.fn ≠ .null ∧ cmd.fn ≠ .special ∧ cmd.ctx ≠ .cancelled

def ownCalls (q : DevQueue) (slot : Slot) (cmd : CmdInfo) : Nat :=
  q.calls.countP (Call.isFor slot cmd)

/-- The slots of a queue: `chario_cmds` exists on I/O queues only. -/
def HasSlot (q : DevQueue) : Slot → Prop
  | .chario tag => q.queue.qid ≠ 0 ∧ tag < charioCmdCount
  | .rq _ => True

/-- Before the shutdown: nothing has been called, chario requests are on queue
1, a chario slot is registered, completed or untouched, and a started request
has been given its completion function, which is not `chario_completion`, by
`nvme_set_info`. -/
structure Registered (q : DevQueue) : Prop where
  calls : q.calls = []
  submitters : q.queue.qid ≠ 1 → q.submitters = []
  rq : ∀ tag, (q.queue.rqCmds tag).fn ≠ .chario
  chario : ∀ tag, (q.queue.charioCmds tag).fn = .chario ∨
    ((q.queue.charioCmds tag).fn = .null ∨
        (q.queue.charioCmds tag).fn = .special) ∧
      ∀ owner, (q.queue.charioCmds tag).ctx ≠ .ptr owner
  chario_ctx : ∀ tag, (q.queue.charioCmds tag).fn = .chario →
    (q.queue.charioCmds tag).ctx ≠ .cancelled
  started : ∀ request ∈ q.busy, request.started →
    (q.queue.rqCmds request.tag).fn ≠ .null

def Polled (env : ShutdownEnv) (q : DevQueue) : Prop :=
  env.failed = false ∧ q.suspended = false ∧
    (q.queue.qid = 0 ∨ env.worker = false)

def Dispatched (env : ShutdownEnv) (q : DevQueue) (slot : Slot) : Prop :=
  Polled env q ∧ ∃ tag ∈ q.cq, q.slotOf tag = some slot

def Started (q : DevQueue) (tag : Nat) : Prop :=
  ⟨tag, true⟩ ∈ q.busy

/-- No command of the queue is orphaned by the shutdown, no submitter is left
waiting, and the restarted queue keeps nothing of earlier chario requests. -/
structure NoOrphan (env : ShutdownEnv) (q : DevQueue) : Prop where
  once : ∀ slot, q.HasSlot slot → Live (q.info slot) →
    (q.nvmeDevShutdown env).ownCalls slot (q.info slot) = 1
  returns : ∀ call ∈ (q.nvmeDevShutdown env).calls, call.fn ≠ .null
  woken : q.queue.qid ≠ 0 → ∀ owner ∈ q.submitters, q.Issued owner →
    (q.nvmeDevShutdown env).remaining owner < 0
  counter : q.queue.qid ≠ 0 → (q.restart env).queue.nextCharioTag = 0
  slots : q.queue.qid ≠ 0 → ∀ tag < charioCmdCount, ∀ owner,
    ((q.restart env).queue.charioCmds tag).ctx ≠ .ptr owner

/-- Chario commands in flight have their entries posted where the shutdown reads
them, and leave the tag counter at 0 or to a submitter that runs; the other
commands in flight are those of busy requests, or posted too. -/
structure Drained (env : ShutdownEnv) (q : DevQueue) : Prop where
  counter : q.queue.qid ≠ 0 → q.queue.nextCharioTag = 0 ∨
    ∃ owner ∈ q.submitters, q.Issued owner ∧ env.ran owner
  chario : q.queue.qid ≠ 0 → ∀ tag < charioCmdCount,
    (q.queue.charioCmds tag).fn = .chario → Dispatched env q (.chario tag)
  rq : ∀ tag, Live (q.queue.rqCmds tag) →
    q.Started tag ∨ Dispatched env q (.rq tag)
  filled : Polled env q → ∀ tag ∈ q.cq, ∀ slot, q.slotOf tag = some slot →
    (q.info slot).fn ≠ .null

@[simp] theorem complete_queue (q : DevQueue) (call : Call) :
    (q.complete call).queue = q.queue := rfl

@[simp] theorem complete_calls (q : DevQueue) (call : Call) :
    (q.complete call).calls = q.calls ++ [call] := rfl

theorem complete_remaining (q : DevQueue) (call : Call) (owner : Nat) :
    (q.complete call).remaining owner = q.remaining owner -
      if call.fn = .chario ∧ call.ctx = .ptr owner then (reqMaxBlocks : Int)
      else 0 := by
  obtain ⟨slot, fn, ctx⟩ := call
  cases fn with
  | chario =>
      cases ctx with
      | ptr other =>
          by_cases same : other = owner
          · simp [complete, same]
          · simp [complete, same, Function.update_of_ne (Ne.symm same)]
      | _ => simp [complete]
  | _ => simp [complete]

/-! What one entry and one cancellation do to a slot. -/

variable {q : DevQueue} {slot : Slot} {cmd : CmdInfo} {tag : Nat}

def setInfo (q : DevQueue) (cmd : CmdInfo) : Slot → NvmeQueue
  | .chario tag => q.queue.setChario tag cmd
  | .rq tag => q.queue.setRq tag cmd

theorem nvmeFinishCmd_eq (q : DevQueue) (tag : Nat) :
    q.queue.nvmeFinishCmd tag =
      match q.slotOf tag with
      | none => ((.special, .invalid), q.queue)
      | some slot =>
          (((q.info slot).fn, (q.info slot).ctx),
            q.setInfo (q.info slot).finish slot) := by
  unfold NvmeQueue.nvmeFinishCmd slotOf
  split
  next => rfl
  next =>
      split
      next => rfl
      next => rfl

structure SameQueue (q r : DevQueue) : Prop where
  qid : r.queue.qid = q.queue.qid
  depth : r.queue.qDepth = q.queue.qDepth
  counter : r.queue.nextCharioTag = q.queue.nextCharioTag

theorem SameQueue.trans {p q r : DevQueue} (first : SameQueue p q)
    (second : SameQueue q r) : SameQueue p r :=
  ⟨second.qid.trans first.qid, second.depth.trans first.depth,
    second.counter.trans first.counter⟩

theorem SameQueue.slotOf {r : DevQueue} (same : SameQueue q r) (tag : Nat) :
    r.slotOf tag = q.slotOf tag := by
  unfold DevQueue.slotOf
  rw [same.qid, same.depth]

theorem processEntry_same (q : DevQueue) (tag : Nat) :
    SameQueue q (q.processEntry tag) := by
  unfold processEntry
  rw [nvmeFinishCmd_eq]
  cases q.slotOf tag with
  | none => exact ⟨rfl, rfl, rfl⟩
  | some slot => cases slot <;> exact ⟨rfl, rfl, rfl⟩

theorem info_setInfo (q : DevQueue) (cmd : CmdInfo) (written slot : Slot) :
    info { q with queue := q.setInfo cmd written } slot =
      if written = slot then cmd else q.info slot := by
  cases written with
  | chario tag =>
      cases slot with
      | chario other =>
          by_cases same : other = tag
          · simp [info, setInfo, NvmeQueue.setChario, same]
          · simp [info, setInfo, NvmeQueue.setChario, Ne.symm same,
              Function.update_of_ne same]
      | rq other => simp [info, setInfo, NvmeQueue.setChario]
  | rq tag =>
      cases slot with
      | chario other => simp [info, setInfo, NvmeQueue.setRq]
      | rq other =>
          by_cases same : other = tag
          · simp [info, setInfo, NvmeQueue.setRq, same]
          · simp [info, setInfo, NvmeQueue.setRq, Ne.symm same,
              Function.update_of_ne same]

theorem info_processEntry (q : DevQueue) (tag : Nat) (slot : Slot) :
    (q.processEntry tag).info slot =
      if q.slotOf tag = some slot then (q.info slot).finish
      else q.info slot := by
  have written : (q.processEntry tag).info slot =
      info { q with queue := (q.queue.nvmeFinishCmd tag).2 } slot := by
    cases slot <;> rfl
  rw [written, nvmeFinishCmd_eq]
  cases found : q.slotOf tag with
  | none => simp
  | some hit =>
      rw [info_setInfo]
      by_cases same : hit = slot
      · simp [same]
      · simp [same]

structure Pending (q : DevQueue) (slot : Slot) (cmd : CmdInfo) : Prop where
  info : q.info slot = cmd
  none : q.ownCalls slot cmd = 0

structure Done (q : DevQueue) (slot : Slot) (cmd : CmdInfo) : Prop where
  special : (q.info slot).fn = .special
  ctx : ∀ owner, (q.info slot).ctx ≠ .ptr owner
  one : q.ownCalls slot cmd = 1

structure Calls (hit : Slot) (q r : DevQueue) : Prop where
  special : (r.info hit).fn = .special
  ctx : ∀ owner, (r.info hit).ctx ≠ .ptr owner
  others : ∀ slot, slot ≠ hit → r.info slot = q.info slot
  logged : r.calls =
    q.calls ++ [⟨some hit, (q.info hit).fn, (q.info hit).ctx⟩]
  counted : ∀ owner, r.remaining owner = q.remaining owner -
    if (q.info hit).fn = .chario ∧ (q.info hit).ctx = .ptr owner then
      (reqMaxBlocks : Int) else 0

structure Skips (q r : DevQueue) : Prop where
  info : ∀ slot, r.info slot = q.info slot
  logged : r.calls = q.calls ∨ r.calls = q.calls ++ [⟨none, .special, .invalid⟩]
  remaining : r.remaining = q.remaining

theorem ownCalls_append {r : DevQueue} {call : Call}
    (calls : r.calls = q.calls ++ [call]) (slot : Slot) (cmd : CmdInfo) :
    r.ownCalls slot cmd =
      q.ownCalls slot cmd + if call.isFor slot cmd then 1 else 0 := by
  rw [ownCalls, calls, List.countP_append, List.countP_singleton, ownCalls]

theorem Skips.ownCalls {r : DevQueue} (skips : Skips q r) (slot : Slot)
    (cmd : CmdInfo) : r.ownCalls slot cmd = q.ownCalls slot cmd := by
  rcases skips.logged with same | logged
  · rw [DevQueue.ownCalls, same, DevQueue.ownCalls]
  · rw [ownCalls_append logged]
    simp [Call.isFor]

theorem Pending.skips {r : DevQueue} (pending : Pending q slot cmd)
    (skips : Skips q r) : Pending r slot cmd :=
  ⟨(skips.info slot).trans pending.info,
    (skips.ownCalls slot cmd).trans pending.none⟩

theorem Pending.calls_hit {r : DevQueue} (pending : Pending q slot cmd)
    (calls : Calls slot q r) : Done r slot cmd := by
  refine ⟨calls.special, calls.ctx, ?_⟩
  rw [ownCalls_append calls.logged, pending.none, pending.info]
  simp [Call.isFor]

theorem Pending.calls_miss {r : DevQueue} {hit : Slot}
    (pending : Pending q slot cmd) (calls : Calls hit q r)
    (miss : slot ≠ hit) : Pending r slot cmd := by
  refine ⟨(calls.others slot miss).trans pending.info, ?_⟩
  rw [ownCalls_append calls.logged, pending.none]
  simp [Call.isFor, miss.symm]

theorem Done.skips {r : DevQueue} (done : Done q slot cmd)
    (skips : Skips q r) : Done r slot cmd where
  special := by
    rw [skips.info]
    exact done.special
  ctx := by
    rw [skips.info]
    exact done.ctx
  one := (skips.ownCalls slot cmd).trans done.one

theorem Done.calls {r : DevQueue} {hit : Slot} (done : Done q slot cmd)
    (live : Live cmd) (calls : Calls hit q r) : Done r slot cmd := by
  by_cases same : slot = hit
  · subst same
    refine ⟨calls.special, calls.ctx, ?_⟩
    rw [ownCalls_append calls.logged, done.one, done.special]
    simp [Call.isFor, live.2.1.symm]
  · refine ⟨?_, ?_, ?_⟩
    · rw [calls.others slot same]
      exact done.special
    · rw [calls.others slot same]
      exact done.ctx
    · rw [ownCalls_append calls.logged, done.one]
      simp [Call.isFor, Ne.symm same]

theorem processEntry_calls {hit : Slot} (found : q.slotOf tag = some hit) :
    Calls hit q (q.processEntry tag) where
  special := by rw [info_processEntry, if_pos found, CmdInfo.finish_fn]
  ctx := by simp [info_processEntry, found]
  others := by
    intro slot differs
    rw [info_processEntry, found, if_neg (by simpa using differs.symm)]
  logged := by simp only [processEntry, nvmeFinishCmd_eq, found, complete_calls]
  counted := by
    intro owner
    simp only [processEntry, nvmeFinishCmd_eq, found, complete_remaining]

theorem processEntry_skips (found : q.slotOf tag = none) :
    Skips q (q.processEntry tag) where
  info := by simp [info_processEntry, found]
  logged := .inr (by
    simp only [processEntry, nvmeFinishCmd_eq, found, complete_calls])
  remaining := by simp only [processEntry, nvmeFinishCmd_eq, found, complete]

theorem Pending.processEntry_miss (pending : Pending q slot cmd)
    (miss : q.slotOf tag ≠ some slot) :
    Pending (q.processEntry tag) slot cmd := by
  cases found : q.slotOf tag with
  | none => exact pending.skips (processEntry_skips found)
  | some hit =>
      apply pending.calls_miss (processEntry_calls found)
      rintro rfl
      exact miss found

theorem Done.processEntry (done : Done q slot cmd) (live : Live cmd)
    (tag : Nat) : Done (q.processEntry tag) slot cmd := by
  cases found : q.slotOf tag with
  | none => exact done.skips (processEntry_skips found)
  | some hit => exact done.calls live (processEntry_calls found)

theorem nvmeCancelQueueIos_cases (q : DevQueue) (request : BusyRequest) :
    ((request.started = false ∨
        (q.info (.rq request.tag)).ctx = .cancelled) ∧
      q.nvmeCancelQueueIos request = q) ∨
    (request.started = true ∧
      Calls (.rq request.tag) q (q.nvmeCancelQueueIos request)) := by
  unfold nvmeCancelQueueIos
  by_cases starts : request.started = true
  · by_cases skip : (q.queue.rqCmds request.tag).ctx = .cancelled
    · exact .inl ⟨.inr skip, by simp [skip]⟩
    · refine .inr ⟨starts, ?_⟩
      simp only [starts, not_true_eq_false, if_false, if_neg skip]
      refine ⟨?_, ?_, ?_, rfl, fun owner => complete_remaining _ _ owner⟩
      · simp [info, NvmeQueue.setRq, cancelled]
      · simp [info, NvmeQueue.setRq, cancelled]
      · intro slot differs
        cases slot with
        | chario tag => rfl
        | rq tag =>
            have other : tag ≠ request.tag := by
              rintro rfl
              exact differs rfl
            exact Function.update_of_ne other ..
  · exact .inl ⟨.inl (by simpa using starts), by simp [starts]⟩

theorem Pending.cancel_hit (pending : Pending q (.rq tag) cmd)
    (live : Live cmd) :
    Done (q.nvmeCancelQueueIos ⟨tag, true⟩) (.rq tag) cmd := by
  rcases nvmeCancelQueueIos_cases q ⟨tag, true⟩ with
    ⟨passed, -⟩ | ⟨-, calls⟩
  · rw [pending.info] at passed
    exact absurd (passed.resolve_left (by simp)) live.2.2
  · exact pending.calls_hit calls

theorem Pending.cancel_miss (pending : Pending q slot cmd)
    {request : BusyRequest}
    (miss : request.started = true → slot ≠ .rq request.tag) :
    Pending (q.nvmeCancelQueueIos request) slot cmd := by
  rcases nvmeCancelQueueIos_cases q request with ⟨-, same⟩ | ⟨starts, calls⟩
  · rw [same]
    exact pending
  · exact pending.calls_miss calls (miss starts)

theorem Done.cancel (done : Done q slot cmd) (live : Live cmd)
    (request : BusyRequest) :
    Done (q.nvmeCancelQueueIos request) slot cmd := by
  rcases nvmeCancelQueueIos_cases q request with ⟨-, same⟩ | ⟨-, calls⟩
  · rw [same]
    exact done
  · exact done.calls live calls

/-! The same over a whole completion queue and over all busy requests. -/

theorem Done.processEntries (done : Done q slot cmd) (live : Live cmd)
    (entries : List Nat) :
    Done (entries.foldl DevQueue.processEntry q) slot cmd := by
  induction entries generalizing q with
  | nil => exact done
  | cons tag rest induction => exact induction (done.processEntry live tag)

theorem Pending.processEntries_hit (pending : Pending q slot cmd)
    (live : Live cmd) {entries : List Nat}
    (hit : ∃ tag ∈ entries, q.slotOf tag = some slot) :
    Done (entries.foldl DevQueue.processEntry q) slot cmd := by
  induction entries generalizing q with
  | nil => simp at hit
  | cons tag rest induction =>
      by_cases first : q.slotOf tag = some slot
      · exact (pending.calls_hit (processEntry_calls first)).processEntries
          live rest
      · obtain ⟨later, member, found⟩ := hit
        rcases List.mem_cons.mp member with rfl | inRest
        · exact absurd found first
        · refine induction (pending.processEntry_miss first)
            ⟨later, inRest, ?_⟩
          rw [(processEntry_same q tag).slotOf]
          exact found

theorem Pending.processEntries_miss (pending : Pending q slot cmd)
    {entries : List Nat} (miss : ∀ tag ∈ entries, q.slotOf tag ≠ some slot) :
    Pending (entries.foldl DevQueue.processEntry q) slot cmd := by
  induction entries generalizing q with
  | nil => exact pending
  | cons tag rest induction =>
      apply induction (pending.processEntry_miss (miss tag (by simp)))
      intro later inRest
      rw [(processEntry_same q tag).slotOf]
      exact miss later (by simp [inRest])

theorem Done.cancels (done : Done q slot cmd) (live : Live cmd)
    (requests : List BusyRequest) :
    Done (requests.foldl nvmeCancelQueueIos q) slot cmd := by
  induction requests generalizing q with
  | nil => exact done
  | cons request rest induction => exact induction (done.cancel live request)

theorem Pending.cancels_hit (pending : Pending q (.rq tag) cmd)
    (live : Live cmd) {requests : List BusyRequest}
    (member : ⟨tag, true⟩ ∈ requests) :
    Done (requests.foldl nvmeCancelQueueIos q) (.rq tag) cmd := by
  induction requests generalizing q with
  | nil => simp at member
  | cons request rest induction =>
      by_cases first : request = ⟨tag, true⟩
      · rw [List.foldl_cons, first]
        exact (pending.cancel_hit live).cancels live rest
      · refine induction (pending.cancel_miss ?_)
          ((List.mem_cons.mp member).resolve_left (Ne.symm first))
        rintro starts same
        cases same
        exact first (by rw [← starts])

theorem Pending.cancels_miss (pending : Pending q slot cmd)
    {requests : List BusyRequest}
    (miss : ∀ tag, ⟨tag, true⟩ ∈ requests → slot ≠ .rq tag) :
    Pending (requests.foldl nvmeCancelQueueIos q) slot cmd := by
  induction requests generalizing q with
  | nil => exact pending
  | cons request rest induction =>
      refine induction (pending.cancel_miss ?_) ?_
      · intro starts
        apply miss request.tag
        rw [← starts]
        exact List.mem_cons_self
      · intro tag inRest
        exact miss tag (List.mem_cons_of_mem _ inRest)

/-! What no step undoes. -/

structure Later (q r : DevQueue) : Prop where
  same : SameQueue q r
  suspended : r.suspended = q.suspended
  logged : ∀ call ∈ q.calls, call ∈ r.calls
  busy : ∀ request ∈ r.busy, request ∈ q.busy
  filled : ∀ slot, (q.info slot).fn ≠ .null → (r.info slot).fn ≠ .null
  freed : ∀ slot, (∀ owner, (q.info slot).ctx ≠ .ptr owner) →
    ∀ owner, (r.info slot).ctx ≠ .ptr owner

namespace Later

theorem refl (q : DevQueue) : Later q q :=
  ⟨⟨rfl, rfl, rfl⟩, rfl, fun _ => id, fun _ => id, fun _ => id, fun _ => id⟩

theorem trans {p q r : DevQueue} (first : Later p q) (second : Later q r) :
    Later p r where
  same := first.same.trans second.same
  suspended := second.suspended.trans first.suspended
  logged := fun call member => second.logged call (first.logged call member)
  busy := fun request member => first.busy request (second.busy request member)
  filled := fun slot filled => second.filled slot (first.filled slot filled)
  freed := fun slot freed => second.freed slot (first.freed slot freed)

end Later

theorem Calls.filled {r : DevQueue} {hit : Slot} (calls : Calls hit q r)
    (filled : (q.info slot).fn ≠ .null) : (r.info slot).fn ≠ .null := by
  by_cases same : slot = hit
  · rw [same, calls.special]
    simp
  · rw [calls.others slot same]
    exact filled

theorem Calls.freed {r : DevQueue} {hit : Slot} (calls : Calls hit q r)
    (freed : ∀ owner, (q.info slot).ctx ≠ .ptr owner) :
    ∀ owner, (r.info slot).ctx ≠ .ptr owner := by
  by_cases same : slot = hit
  · rw [same]
    exact calls.ctx
  · rw [calls.others slot same]
    exact freed

theorem processEntry_later (q : DevQueue) (tag : Nat) :
    Later q (q.processEntry tag) where
  same := processEntry_same q tag
  suspended := rfl
  logged := fun call member => List.mem_append_left _ member
  busy := by
    intro request member
    simp only [processEntry] at member
    split at member
    next => exact List.mem_of_mem_filter member
    next => exact member
  filled := by
    intro slot filled
    cases found : q.slotOf tag with
    | none =>
        rw [(processEntry_skips found).info]
        exact filled
    | some hit => exact (processEntry_calls found).filled filled
  freed := by
    intro slot freed
    cases found : q.slotOf tag with
    | none =>
        rw [(processEntry_skips found).info]
        exact freed
    | some hit => exact (processEntry_calls found).freed freed

theorem nvmeCancelQueueIos_frame (q : DevQueue) (request : BusyRequest) :
    SameQueue q (q.nvmeCancelQueueIos request) ∧
      (q.nvmeCancelQueueIos request).suspended = q.suspended ∧
      (q.nvmeCancelQueueIos request).busy = q.busy ∧
      (q.nvmeCancelQueueIos request).cq = q.cq := by
  unfold nvmeCancelQueueIos
  split
  next => exact ⟨⟨rfl, rfl, rfl⟩, rfl, rfl, rfl⟩
  next => split <;> exact ⟨⟨rfl, rfl, rfl⟩, rfl, rfl, rfl⟩

theorem nvmeCancelQueueIos_later (q : DevQueue) (request : BusyRequest) :
    Later q (q.nvmeCancelQueueIos request) := by
  obtain ⟨same, suspended, busy, -⟩ := nvmeCancelQueueIos_frame q request
  refine ⟨same, suspended, ?_, by rw [busy]; exact fun _ => id, ?_, ?_⟩
  · intro call member
    rcases nvmeCancelQueueIos_cases q request with ⟨-, same⟩ | ⟨-, calls⟩
    · rwa [same]
    · rw [calls.logged]
      exact List.mem_append_left _ member
  · intro slot filled
    rcases nvmeCancelQueueIos_cases q request with ⟨-, same⟩ | ⟨-, calls⟩
    · rwa [same]
    · exact calls.filled filled
  · intro slot freed
    rcases nvmeCancelQueueIos_cases q request with ⟨-, same⟩ | ⟨-, calls⟩
    · rwa [same]
    · exact calls.freed freed

theorem processEntries_later (q : DevQueue) (entries : List Nat) :
    Later q (entries.foldl processEntry q) := by
  induction entries generalizing q with
  | nil => exact .refl q
  | cons tag rest induction =>
      exact (processEntry_later q tag).trans (induction _)

theorem cancels_later (q : DevQueue) (requests : List BusyRequest) :
    Later q (requests.foldl nvmeCancelQueueIos q) := by
  induction requests generalizing q with
  | nil => exact .refl q
  | cons request rest induction =>
      exact (nvmeCancelQueueIos_later q request).trans (induction _)

theorem nvmeClearQueue_frame (q : DevQueue) :
    q.nvmeClearQueue.busy = q.busy ∧ q.nvmeClearQueue.cq = q.cq := by
  have frame : ∀ (requests : List BusyRequest) (r : DevQueue),
      (requests.foldl nvmeCancelQueueIos r).busy = r.busy ∧
        (requests.foldl nvmeCancelQueueIos r).cq = r.cq := by
    intro requests
    induction requests with
    | nil => exact fun r => ⟨rfl, rfl⟩
    | cons request rest induction =>
        intro r
        obtain ⟨-, -, busy, cq⟩ := nvmeCancelQueueIos_frame r request
        have later := induction (r.nvmeCancelQueueIos request)
        exact ⟨later.1.trans busy, later.2.trans cq⟩
  exact frame q.busy q

theorem started_processEntries {entries : List Nat}
    (miss : ∀ other ∈ entries, q.slotOf other ≠ some (.rq tag))
    (starts : q.Started tag) :
    (entries.foldl processEntry q).Started tag := by
  induction entries generalizing q with
  | nil => exact starts
  | cons other rest induction =>
      refine induction ?_ ?_
      · intro later inRest
        rw [(processEntry_same q other).slotOf]
        exact miss later (List.mem_cons_of_mem _ inRest)
      · unfold Started processEntry
        simp only
        split
        next released =>
            refine List.mem_filter.mpr ⟨starts, ?_⟩
            have differs : tag ≠ other := by
              rintro rfl
              exact miss tag List.mem_cons_self released.1
            simpa using differs
        next => exact starts

/-! The two things a shutdown does to a queue: read its completion queue once
more, and cancel its busy requests. -/

def poll (q : DevQueue) : DevQueue := q.nvmeSuspendQueue.nvmeProcessCq

def polling (q : DevQueue) : DevQueue := { q.nvmeSuspendQueue with cq := [] }

theorem Pending.of_eq {r : DevQueue} (pending : Pending q slot cmd)
    (queue : r.queue = q.queue) (calls : r.calls = q.calls) :
    Pending r slot cmd := by
  obtain ⟨info, none⟩ := pending
  refine ⟨?_, ?_⟩
  · cases slot <;> simpa only [DevQueue.info, queue] using info
  · simpa only [ownCalls, calls] using none

theorem Done.of_eq {r : DevQueue} (done : Done q slot cmd)
    (queue : r.queue = q.queue) (calls : r.calls = q.calls) :
    Done r slot cmd := by
  obtain ⟨special, ctx, one⟩ := done
  refine ⟨?_, ?_, ?_⟩
  · cases slot <;> simpa only [DevQueue.info, queue] using special
  · cases slot <;> simpa only [DevQueue.info, queue] using ctx
  · simpa only [ownCalls, calls] using one

theorem Pending.poll_hit (pending : Pending q slot cmd) (live : Live cmd)
    (hit : ∃ tag ∈ q.cq, q.slotOf tag = some slot) : Done q.poll slot cmd := by
  have before : Pending q.polling slot cmd := pending.of_eq rfl rfl
  exact before.processEntries_hit live hit

theorem Pending.poll_miss (pending : Pending q slot cmd)
    (miss : ∀ tag ∈ q.cq, q.slotOf tag ≠ some slot) :
    Pending q.poll slot cmd := by
  have before : Pending q.polling slot cmd := pending.of_eq rfl rfl
  exact before.processEntries_miss miss

theorem Done.poll (done : Done q slot cmd) (live : Live cmd) :
    Done q.poll slot cmd := by
  have before : Done q.polling slot cmd := done.of_eq rfl rfl
  exact before.processEntries live q.cq

theorem started_poll (miss : ∀ other ∈ q.cq, q.slotOf other ≠ some (.rq tag))
    (starts : q.Started tag) : q.poll.Started tag :=
  started_processEntries miss starts

theorem Pending.clear_hit (pending : Pending q (.rq tag) cmd) (live : Live cmd)
    (starts : q.Started tag) : Done q.nvmeClearQueue (.rq tag) cmd :=
  pending.cancels_hit live starts

theorem Pending.clear_miss (pending : Pending q slot cmd)
    (miss : ∀ tag, q.Started tag → slot ≠ .rq tag) :
    Pending q.nvmeClearQueue slot cmd :=
  pending.cancels_miss miss

theorem Done.clear (done : Done q slot cmd) (live : Live cmd) :
    Done q.nvmeClearQueue slot cmd :=
  done.cancels live _

theorem poll_suspended (q : DevQueue) : q.poll.suspended = true :=
  (processEntries_later q.polling q.cq).suspended

theorem poll_same (q : DevQueue) : SameQueue q q.poll := by
  have later := processEntries_later q.polling q.cq
  exact ⟨later.same.qid, later.same.depth, later.same.counter⟩

theorem clear_same (q : DevQueue) : SameQueue q q.nvmeClearQueue :=
  (cancels_later q q.busy).same

theorem nvmeDevShutdown_cases (env : ShutdownEnv) (q : DevQueue) :
    (¬ Polled env q ∧
      (q.nvmeDevShutdown env = q.nvmeClearQueue ∨
        q.nvmeDevShutdown env = q.nvmeSuspendQueue.nvmeClearQueue ∨
        q.nvmeDevShutdown env = q.nvmeClearQueue.nvmeClearQueue)) ∨
    (Polled env q ∧
      (q.nvmeDevShutdown env = q.poll.nvmeClearQueue ∨
        q.nvmeDevShutdown env = q.nvmeClearQueue.poll.nvmeClearQueue)) := by
  have kept := (cancels_later q q.busy).suspended
  cases failed : env.failed with
  | true =>
      exact .inl ⟨by simp [Polled, failed],
        .inr (.inl (by simp [nvmeDevShutdown, failed]))⟩
  | false =>
      by_cases admin : q.queue.qid = 0
      · by_cases late : env.worker = true ∧ env.timedOut = true
        · cases suspended : q.suspended with
          | true =>
              refine .inl ⟨by simp [Polled, suspended], .inr (.inr ?_)⟩
              rw [suspended] at kept
              have cleared : q.nvmeClearQueue.suspended = true := kept
              simp [nvmeDevShutdown, failed, nvmeDisableIoQueues, admin, late,
                nvmeDisableQueue, cleared]
          | false =>
              refine .inr ⟨⟨failed, suspended, .inl admin⟩, .inr ?_⟩
              rw [suspended] at kept
              have cleared : q.nvmeClearQueue.suspended = false := kept
              have polled := poll_suspended q.nvmeClearQueue
              unfold poll at polled
              simp [nvmeDevShutdown, failed, nvmeDisableIoQueues, admin, late,
                nvmeDisableQueue, cleared, polled, poll]
        · cases suspended : q.suspended with
          | true =>
              refine .inl ⟨by simp [Polled, suspended], .inl ?_⟩
              simp [nvmeDevShutdown, failed, nvmeDisableIoQueues, admin, late,
                nvmeDisableQueue, suspended]
          | false =>
              refine .inr ⟨⟨failed, suspended, .inl admin⟩, .inl ?_⟩
              simp [nvmeDevShutdown, failed, nvmeDisableIoQueues, admin, late,
                nvmeDisableQueue, suspended, poll]
      · cases worker : env.worker with
        | true =>
            refine .inl ⟨by simp [Polled, admin, worker], .inr (.inl ?_)⟩
            simp [nvmeDevShutdown, failed, nvmeDisableIoQueues, admin, worker]
        | false =>
            cases suspended : q.suspended with
            | true =>
                refine .inl ⟨by simp [Polled, suspended], .inl ?_⟩
                simp [nvmeDevShutdown, failed, nvmeDisableIoQueues, admin,
                  worker, nvmeDisableQueue, suspended]
            | false =>
                refine .inr ⟨⟨failed, suspended, .inr worker⟩, .inl ?_⟩
                simp [nvmeDevShutdown, failed, nvmeDisableIoQueues, admin,
                  worker, nvmeDisableQueue, suspended, poll]

section Outcome

variable {env : ShutdownEnv}

theorem Pending.shutdown_done (pending : Pending q slot cmd) (live : Live cmd)
    (reached : (∃ tag, slot = .rq tag ∧ q.Started tag) ∨
      Dispatched env q slot) : Done (q.nvmeDevShutdown env) slot cmd := by
  rcases nvmeDevShutdown_cases env q with ⟨unpolled, shape⟩ | ⟨-, shape⟩
  · obtain ⟨tag, rfl, starts⟩ :=
      reached.resolve_right (fun dispatched => unpolled dispatched.1)
    rcases shape with same | same | same <;> rw [same]
    · exact pending.clear_hit live starts
    · have before : Pending q.nvmeSuspendQueue (.rq tag) cmd :=
        pending.of_eq rfl rfl
      exact before.clear_hit live starts
    · exact (pending.clear_hit live starts).clear live
  · by_cases hit : ∃ tag ∈ q.cq, q.slotOf tag = some slot
    · rcases shape with same | same <;> rw [same]
      · exact (pending.poll_hit live hit).clear live
      · by_cases starts : ∃ tag, slot = .rq tag ∧ q.Started tag
        · obtain ⟨tag, rfl, starts⟩ := starts
          exact ((pending.clear_hit live starts).poll live).clear live
        · have still := pending.clear_miss
            (fun tag busy same => starts ⟨tag, same, busy⟩)
          refine (still.poll_hit live ?_).clear live
          obtain ⟨tag, member, found⟩ := hit
          refine ⟨tag, ?_, ?_⟩
          · rw [(nvmeClearQueue_frame q).2]
            exact member
          · rw [(clear_same q).slotOf]
            exact found
    · obtain ⟨tag, rfl, starts⟩ :=
        reached.resolve_right (fun dispatched => hit dispatched.2)
      have miss : ∀ other ∈ q.cq, q.slotOf other ≠ some (.rq tag) :=
        fun other member found => hit ⟨other, member, found⟩
      rcases shape with same | same <;> rw [same]
      · exact (pending.poll_miss miss).clear_hit live (started_poll miss starts)
      · exact ((pending.clear_hit live starts).poll live).clear live

theorem Pending.shutdown_pending (pending : Pending q slot cmd)
    (idle : ∀ tag, q.Started tag → slot ≠ .rq tag)
    (unseen : ¬ Dispatched env q slot) :
    Pending (q.nvmeDevShutdown env) slot cmd := by
  have clearIdle : ∀ {r : DevQueue}, (∀ request ∈ r.busy, request ∈ q.busy) →
      ∀ tag, r.Started tag → slot ≠ .rq tag :=
    fun fewer tag starts => idle tag (fewer _ starts)
  have cleared := pending.clear_miss idle
  have clearedBusy := (nvmeClearQueue_frame q).1
  rcases nvmeDevShutdown_cases env q with ⟨-, shape⟩ | ⟨polled, shape⟩
  · rcases shape with same | same | same <;> rw [same]
    · exact cleared
    · have before : Pending q.nvmeSuspendQueue slot cmd :=
        pending.of_eq rfl rfl
      exact before.clear_miss idle
    · exact cleared.clear_miss (clearIdle (by rw [clearedBusy]; simp))
  · have miss : ∀ tag ∈ q.cq, q.slotOf tag ≠ some slot :=
      fun tag member found => unseen ⟨polled, tag, member, found⟩
    rcases shape with same | same <;> rw [same]
    · refine (pending.poll_miss miss).clear_miss (clearIdle ?_)
      exact (processEntries_later q.polling q.cq).busy
    · have polledOnce := cleared.poll_miss (by
        rw [(nvmeClearQueue_frame q).2]
        intro tag member
        rw [(clear_same q).slotOf]
        exact miss tag member)
      refine polledOnce.clear_miss (clearIdle ?_)
      intro request member
      have := (processEntries_later q.nvmeClearQueue.polling
        q.nvmeClearQueue.cq).busy request member
      rwa [← clearedBusy]

end Outcome

/-! The commands in flight and what their submitters still wait for go down
together. -/

/-- What a submitter lacks beyond its commands in flight, with no
`chario_completion` among the requests of blk-mq. -/
structure Balanced (owner : Nat) (lacks : Int) (q : DevQueue) : Prop where
  rq : ∀ tag, (q.queue.rqCmds tag).fn ≠ .chario
  lacks : q.remaining owner = lacks + reqMaxBlocks * q.inFlight owner

theorem inFlight_of_eq {r : DevQueue} {owner : Nat}
    (same : ∀ tag < charioCmdCount,
      r.info (.chario tag) = q.info (.chario tag)) :
    r.inFlight owner = q.inFlight owner := by
  unfold inFlight
  congr 1
  apply Finset.filter_congr
  intro tag member
  have here : r.queue.charioCmds tag = q.queue.charioCmds tag :=
    same tag (Finset.mem_range.mp member)
  rw [here]

theorem inFlight_hit {r : DevQueue} {owner : Nat}
    (calls : Calls (.chario tag) q r)
    (below : tag < charioCmdCount)
    (isChario : (q.queue.charioCmds tag).fn = .chario)
    (isOwner : (q.queue.charioCmds tag).ctx = .ptr owner) :
    r.inFlight owner + 1 = q.inFlight owner := by
  have erased : (Finset.range charioCmdCount).filter (fun other =>
      (r.queue.charioCmds other).fn = .chario ∧
        (r.queue.charioCmds other).ctx = .ptr owner) =
      ((Finset.range charioCmdCount).filter (fun other =>
        (q.queue.charioCmds other).fn = .chario ∧
          (q.queue.charioCmds other).ctx = .ptr owner)).erase tag := by
    ext other
    by_cases same : other = tag
    · subst same
      have special : (r.queue.charioCmds other).fn = .special := calls.special
      simp [special]
    · have kept : r.queue.charioCmds other = q.queue.charioCmds other :=
        calls.others (.chario other) (by simpa using same)
      simp [kept, same]
  unfold inFlight
  rw [erased]
  exact Finset.card_erase_add_one (Finset.mem_filter.mpr
    ⟨Finset.mem_range.mpr below, isChario, isOwner⟩)

theorem inFlight_miss {r : DevQueue} {owner : Nat} {hit : Slot}
    (calls : Calls hit q r)
    (miss : (q.info hit).fn ≠ .chario ∨ (q.info hit).ctx ≠ .ptr owner ∨
      ∃ tag, hit = .rq tag) : r.inFlight owner = q.inFlight owner := by
  unfold inFlight
  congr 1
  apply Finset.filter_congr
  intro tag _
  by_cases same : Slot.chario tag = hit
  · have special : (r.queue.charioCmds tag).fn = .special := by
      have special := calls.special
      rwa [← same] at special
    subst same
    have other : ¬ ((q.queue.charioCmds tag).fn = .chario ∧
        (q.queue.charioCmds tag).ctx = .ptr owner) := by
      rintro ⟨isChario, isOwner⟩
      rcases miss with fn | ctx | ⟨_, isRq⟩
      · exact fn isChario
      · exact ctx isOwner
      · cases isRq
    simp [special, other]
  · have kept : r.queue.charioCmds tag = q.queue.charioCmds tag :=
      calls.others (.chario tag) same
    rw [kept]

theorem slotOf_chario {other : Nat}
    (found : q.slotOf tag = some (.chario other)) :
    other < charioCmdCount := by
  unfold slotOf at found
  split at found
  next => cases found
  split at found
  next => cases found
  next low =>
      cases found
      unfold charioCmdCount
      omega

/-- A call of a slot takes a sub-command from both sides of the balance, or from
none. -/
theorem Calls.balance {r : DevQueue} {hit : Slot} {owner : Nat}
    (calls : Calls hit q r)
    (below : ∀ tag, hit = .chario tag → tag < charioCmdCount)
    (plain : ∀ tag, (q.queue.rqCmds tag).fn ≠ .chario) :
    r.remaining owner - reqMaxBlocks * r.inFlight owner =
      q.remaining owner - reqMaxBlocks * q.inFlight owner := by
  rw [calls.counted]
  by_cases own : (q.info hit).fn = .chario ∧ (q.info hit).ctx = .ptr owner
  · rw [if_pos own]
    cases hit with
    | chario tag =>
        have one := inFlight_hit calls (below tag rfl) own.1 own.2
        rw [← one]
        push_cast
        unfold reqMaxBlocks
        omega
    | rq tag => exact absurd own.1 (plain tag)
  · rw [if_neg own, inFlight_miss calls, Int.sub_zero]
    by_cases isChario : (q.info hit).fn = .chario
    · exact .inr (.inl fun isOwner => own ⟨isChario, isOwner⟩)
    · exact .inl isChario

theorem Balanced.calls {r : DevQueue} {hit : Slot} {owner : Nat} {lacks : Int}
    (balanced : Balanced owner lacks q) (calls : Calls hit q r)
    (below : ∀ tag, hit = .chario tag → tag < charioCmdCount) :
    Balanced owner lacks r where
  rq := by
    intro tag
    by_cases same : Slot.rq tag = hit
    · have special := calls.special
      rw [← same] at special
      change (r.queue.rqCmds tag).fn = .special at special
      rw [special]
      simp
    · have kept : r.queue.rqCmds tag = q.queue.rqCmds tag :=
        calls.others (.rq tag) same
      rw [kept]
      exact balanced.rq tag
  lacks := by
    have same := @Calls.balance _ _ _ owner calls below balanced.rq
    have before := balanced.lacks
    omega

theorem Balanced.processEntry {owner : Nat} {lacks : Int}
    (balanced : Balanced owner lacks q) (tag : Nat) :
    Balanced owner lacks (q.processEntry tag) := by
  cases found : q.slotOf tag with
  | none =>
      have skips := processEntry_skips found
      refine ⟨?_, ?_⟩
      · intro other
        have kept : (q.processEntry tag).queue.rqCmds other =
            q.queue.rqCmds other := skips.info (.rq other)
        rw [kept]
        exact balanced.rq other
      · rw [inFlight_of_eq (fun other _ => skips.info (.chario other)),
          skips.remaining]
        exact balanced.lacks
  | some hit =>
      refine balanced.calls (processEntry_calls found) ?_
      rintro other rfl
      exact slotOf_chario found

theorem Balanced.cancel {owner : Nat} {lacks : Int}
    (balanced : Balanced owner lacks q) (request : BusyRequest) :
    Balanced owner lacks (q.nvmeCancelQueueIos request) := by
  rcases nvmeCancelQueueIos_cases q request with ⟨-, same⟩ | ⟨starts, calls⟩
  · rw [same]
    exact balanced
  · exact balanced.calls calls (fun tag isRq => nomatch isRq)

theorem Balanced.processEntries {owner : Nat} {lacks : Int}
    (balanced : Balanced owner lacks q) (entries : List Nat) :
    Balanced owner lacks (entries.foldl DevQueue.processEntry q) := by
  induction entries generalizing q with
  | nil => exact balanced
  | cons tag rest induction => exact induction (balanced.processEntry tag)

theorem Balanced.cancels {owner : Nat} {lacks : Int}
    (balanced : Balanced owner lacks q) (requests : List BusyRequest) :
    Balanced owner lacks (requests.foldl nvmeCancelQueueIos q) := by
  induction requests generalizing q with
  | nil => exact balanced
  | cons request rest induction => exact induction (balanced.cancel request)

theorem processEntries_submitters (q : DevQueue) (entries : List Nat) :
    (entries.foldl processEntry q).submitters = q.submitters := by
  induction entries generalizing q with
  | nil => rfl
  | cons tag rest induction => exact induction _

theorem nvmeCancelQueueIos_submitters (q : DevQueue) (request : BusyRequest) :
    (q.nvmeCancelQueueIos request).submitters = q.submitters := by
  unfold nvmeCancelQueueIos
  split
  next => rfl
  split <;> rfl

theorem cancels_submitters (q : DevQueue) (requests : List BusyRequest) :
    (requests.foldl nvmeCancelQueueIos q).submitters = q.submitters := by
  induction requests generalizing q with
  | nil => rfl
  | cons request rest induction =>
      exact (induction _).trans (nvmeCancelQueueIos_submitters q request)

/-! No empty slot is called. -/

def NoNull (q : DevQueue) : Prop := ∀ call ∈ q.calls, call.fn ≠ .null

theorem NoNull.calls {r : DevQueue} {hit : Slot} (clean : NoNull q)
    (calls : Calls hit q r) (filled : (q.info hit).fn ≠ .null) : NoNull r := by
  intro call member
  rw [calls.logged] at member
  rcases List.mem_append.mp member with old | new
  · exact clean call old
  · rw [List.mem_singleton.mp new]
    exact filled

theorem NoNull.processEntries (clean : NoNull q) {entries : List Nat}
    (filled : ∀ tag ∈ entries, ∀ slot, q.slotOf tag = some slot →
      (q.info slot).fn ≠ .null) :
    NoNull (entries.foldl processEntry q) := by
  induction entries generalizing q with
  | nil => exact clean
  | cons tag rest induction =>
      refine induction ?_ ?_
      · cases found : q.slotOf tag with
        | none =>
            intro call member
            rcases (processEntry_skips found).logged with same | logged
            · rw [same] at member
              exact clean call member
            · rw [logged] at member
              rcases List.mem_append.mp member with old | new
              · exact clean call old
              · rw [List.mem_singleton.mp new]
                simp
        | some hit =>
            exact clean.calls (processEntry_calls found)
              (filled tag List.mem_cons_self hit found)
      · intro later inRest slot found
        rw [(processEntry_same q tag).slotOf] at found
        exact (processEntry_later q tag).filled slot
          (filled later (List.mem_cons_of_mem _ inRest) slot found)

theorem NoNull.cancels (clean : NoNull q) {requests : List BusyRequest}
    (filled : ∀ request ∈ requests, request.started →
      (q.info (.rq request.tag)).fn ≠ .null) :
    NoNull (requests.foldl nvmeCancelQueueIos q) := by
  induction requests generalizing q with
  | nil => exact clean
  | cons request rest induction =>
      refine induction ?_ ?_
      · rcases nvmeCancelQueueIos_cases q request with
          ⟨-, same⟩ | ⟨starts, calls⟩
        · rwa [same]
        · exact clean.calls calls (filled request List.mem_cons_self starts)
      · intro later inRest starts
        exact (nvmeCancelQueueIos_later q request).filled _
          (filled later (List.mem_cons_of_mem _ inRest) starts)

theorem exists_null_processEntries {entries : List Nat}
    (empty : (q.info slot).fn = .null)
    (hit : ∃ tag ∈ entries, q.slotOf tag = some slot) :
    ∃ call ∈ (entries.foldl processEntry q).calls, call.fn = .null := by
  induction entries generalizing q with
  | nil => simp at hit
  | cons tag rest induction =>
      by_cases first : q.slotOf tag = some slot
      · refine ⟨⟨some slot, (q.info slot).fn, (q.info slot).ctx⟩, ?_, empty⟩
        apply (processEntries_later _ rest).logged _
        rw [(processEntry_calls first).logged]
        simp
      · obtain ⟨later, member, found⟩ := hit
        rcases List.mem_cons.mp member with rfl | inRest
        · exact absurd found first
        · refine induction ?_ ⟨later, inRest, ?_⟩
          · rw [info_processEntry, if_neg first]
            exact empty
          · rw [(processEntry_same q tag).slotOf]
            exact found

section Main

variable {env : ShutdownEnv}

theorem shutdown_keeps (kept : DevQueue → Prop) (before : kept q)
    (suspend : ∀ r, kept r → kept r.nvmeSuspendQueue)
    (poll : Polled env q → ∀ r, kept r → kept r.poll)
    (clear : ∀ r, kept r → kept r.nvmeClearQueue) :
    kept (q.nvmeDevShutdown env) := by
  rcases nvmeDevShutdown_cases env q with ⟨-, shape⟩ | ⟨polled, shape⟩
  · rcases shape with same | same | same <;> rw [same]
    · exact clear _ before
    · exact clear _ (suspend _ before)
    · exact clear _ (clear _ before)
  · rcases shape with same | same <;> rw [same]
    · exact clear _ (poll polled _ before)
    · exact clear _ (poll polled _ (clear _ before))

theorem shutdown_same (env : ShutdownEnv) (q : DevQueue) :
    SameQueue q (q.nvmeDevShutdown env) :=
  shutdown_keeps (SameQueue q) ⟨rfl, rfl, rfl⟩
    (fun _ same => same.trans ⟨rfl, rfl, rfl⟩)
    (fun _ r same => same.trans (poll_same r))
    (fun r same => same.trans (clear_same r))

theorem shutdown_freed
    (freed : ∀ owner, (q.info slot).ctx ≠ .ptr owner) :
    ∀ owner, ((q.nvmeDevShutdown env).info slot).ctx ≠ .ptr owner := by
  refine shutdown_keeps (fun r => ∀ owner, (r.info slot).ctx ≠ .ptr owner)
    freed ?_ ?_ ?_
  · intro r freed
    cases slot <;> exact freed
  · intro _ r freed
    apply (processEntries_later r.polling r.cq).freed slot
    cases slot <;> exact freed
  · intro r freed
    exact (cancels_later r r.busy).freed slot freed

theorem shutdown_submitters (env : ShutdownEnv) (q : DevQueue) :
    (q.nvmeDevShutdown env).submitters = q.submitters :=
  shutdown_keeps (fun r => r.submitters = q.submitters) rfl
    (fun _ same => same)
    (fun _ r same => (processEntries_submitters r.polling r.cq).trans same)
    (fun r same => (cancels_submitters r r.busy).trans same)

/-- Every submitter lacks after the shutdown what it lacked before. -/
theorem Registered.balanced (registered : Registered q) (env : ShutdownEnv)
    (owner : Nat) :
    (q.nvmeDevShutdown env).remaining owner =
      q.remaining owner - reqMaxBlocks * q.inFlight owner +
        reqMaxBlocks * (q.nvmeDevShutdown env).inFlight owner := by
  have before : Balanced owner
      (q.remaining owner - reqMaxBlocks * q.inFlight owner) q :=
    ⟨registered.rq, by omega⟩
  refine (shutdown_keeps (Balanced owner _) before ?_ ?_ ?_).lacks
  · exact fun r balanced => ⟨balanced.rq, balanced.lacks⟩
  · intro _ r balanced
    have polling : Balanced owner _ r.polling := ⟨balanced.rq, balanced.lacks⟩
    exact polling.processEntries r.cq
  · exact fun r balanced => balanced.cancels r.busy

/-- A submitter that has been woken had all its commands issued. -/
theorem Registered.issued (registered : Registered q) {owner : Nat}
    (woken : (q.nvmeDevShutdown env).remaining owner < 0) : q.Issued owner := by
  rw [registered.balanced env owner] at woken
  have left :
      0 ≤ (reqMaxBlocks : Int) * (q.nvmeDevShutdown env).inFlight owner :=
    Int.mul_nonneg (Int.natCast_nonneg _) (Int.natCast_nonneg _)
  unfold Issued
  omega

/-- Where no slot refers to a submitter any more, it has been woken if all its
commands had been issued. -/
theorem Registered.woken (registered : Registered q) {owner : Nat}
    (freed : ∀ tag < charioCmdCount,
      ((q.nvmeDevShutdown env).queue.charioCmds tag).ctx ≠ .ptr owner)
    (issued : q.Issued owner) :
    (q.nvmeDevShutdown env).remaining owner < 0 := by
  have none : (q.nvmeDevShutdown env).inFlight owner = 0 := by
    unfold inFlight
    rw [Finset.card_eq_zero, Finset.filter_eq_empty_iff]
    intro tag member own
    exact freed tag (Finset.mem_range.mp member) own.2
  rw [registered.balanced env owner, none]
  unfold Issued at issued
  omega

theorem restart_charioCmds (env : ShutdownEnv) (q : DevQueue) :
    (q.restart env).queue.charioCmds =
      (q.nvmeDevShutdown env).queue.charioCmds := by
  unfold restart resume nvmeInitQueue
  split <;> rfl

/-- The tag counter of the restarted queue is the old one, unless a woken
submitter has run. -/
theorem restart_counter_iff (env : ShutdownEnv) (q : DevQueue) :
    (q.restart env).queue.nextCharioTag = 0 ↔
      q.queue.nextCharioTag = 0 ∨ ∃ owner ∈ q.submitters,
        (q.nvmeDevShutdown env).remaining owner < 0 ∧ env.ran owner := by
  have kept := (shutdown_same env q).counter
  have submitters := shutdown_submitters env q
  unfold restart resume nvmeInitQueue
  split
  next ran =>
      rw [submitters] at ran
      exact ⟨fun _ => .inr ran, fun _ => rfl⟩
  next idle =>
      rw [submitters] at idle
      simp only [kept, idle, or_false]

theorem Registered.pending (registered : Registered q) (slot : Slot) :
    Pending q slot (q.info slot) :=
  ⟨rfl, by simp [ownCalls, registered.calls]⟩

theorem Registered.idle (registered : Registered q)
    (empty : (q.info slot).fn = .null) :
    ∀ tag, q.Started tag → slot ≠ .rq tag := by
  rintro tag starts rfl
  exact registered.started ⟨tag, true⟩ starts rfl empty

structure Clean (polled : Prop) (q : DevQueue) : Prop where
  noNull : NoNull q
  busy : ∀ request ∈ q.busy, request.started →
    (q.info (.rq request.tag)).fn ≠ .null
  entries : polled → ∀ tag ∈ q.cq, ∀ slot, q.slotOf tag = some slot →
    (q.info slot).fn ≠ .null

theorem Clean.poll {polled : Prop} (clean : Clean polled q)
    (isPolled : polled) : Clean polled q.poll := by
  have later := processEntries_later q.polling q.cq
  have before : NoNull q.polling := clean.noNull
  refine ⟨?_, ?_, ?_⟩
  · apply before.processEntries
    intro tag member slot found
    have filled := clean.entries isPolled tag member slot found
    cases slot <;> exact filled
  · intro request member starts
    exact later.filled _ (clean.busy request (later.busy request member) starts)
  · intro _ tag member
    have empty : q.poll.cq = [] := by
      have frame : ∀ (entries : List Nat) (r : DevQueue),
          (entries.foldl processEntry r).cq = r.cq := by
        intro entries
        induction entries with
        | nil => exact fun _ => rfl
        | cons tag rest induction =>
            exact fun r => induction (r.processEntry tag)
      exact frame q.cq q.polling
    simp [empty] at member

theorem Clean.clear {polled : Prop} (clean : Clean polled q) :
    Clean polled q.nvmeClearQueue := by
  have later := cancels_later q q.busy
  refine ⟨clean.noNull.cancels clean.busy, ?_, ?_⟩
  · intro request member starts
    exact later.filled _ (clean.busy request (later.busy request member) starts)
  · intro isPolled tag member slot found
    rw [(nvmeClearQueue_frame q).2] at member
    rw [(clear_same q).slotOf] at found
    exact later.filled slot (clean.entries isPolled tag member slot found)

theorem Drained.returns (drained : Drained env q)
    (registered : Registered q) : NoNull (q.nvmeDevShutdown env) := by
  have before : Clean (Polled env q) q :=
    ⟨by simp [NoNull, registered.calls], registered.started, drained.filled⟩
  refine (shutdown_keeps (Clean (Polled env q)) before ?_ ?_ ?_).noNull
  · intro r clean
    refine ⟨clean.noNull, clean.busy, ?_⟩
    intro isPolled tag member slot found
    have filled := clean.entries isPolled tag member slot found
    cases slot <;> exact filled
  · exact fun isPolled r clean => clean.poll isPolled
  · exact fun r clean => clean.clear

theorem Registered.exists_null (registered : Registered q)
    (polled : Polled env q) (empty : (q.info slot).fn = .null)
    (member : tag ∈ q.cq) (found : q.slotOf tag = some slot) :
    ∃ call ∈ (q.nvmeDevShutdown env).calls, call.fn = .null := by
  rcases nvmeDevShutdown_cases env q with ⟨unpolled, -⟩ | ⟨-, shape⟩
  · exact absurd polled unpolled
  · rcases shape with same | same <;> rw [same]
    · have start : (q.polling.info slot).fn = .null := by
        cases slot <;> exact empty
      obtain ⟨call, logged, isNull⟩ :=
        exists_null_processEntries start ⟨tag, member, found⟩
      exact ⟨call, (cancels_later q.poll q.poll.busy).logged call logged,
        isNull⟩
    · have cleared := (registered.pending slot).clear_miss
        (registered.idle empty)
      have start : (q.nvmeClearQueue.polling.info slot).fn = .null := by
        have same := cleared.info
        rw [← same] at empty
        cases slot <;> exact empty
      have hit : ∃ tag ∈ q.nvmeClearQueue.cq,
          q.nvmeClearQueue.polling.slotOf tag = some slot := by
        refine ⟨tag, ?_, ?_⟩
        · rw [(nvmeClearQueue_frame q).2]
          exact member
        · exact ((clear_same q).slotOf tag).trans found
      obtain ⟨call, logged, isNull⟩ := exists_null_processEntries start hit
      exact ⟨call, (cancels_later q.nvmeClearQueue.poll
        q.nvmeClearQueue.poll.busy).logged call logged, isNull⟩

theorem Drained.freed (drained : Drained env q) (registered : Registered q)
    (ioQueue : q.queue.qid ≠ 0) (tag : Nat) (below : tag < charioCmdCount) :
    ∀ owner, ((q.nvmeDevShutdown env).queue.charioCmds tag).ctx ≠
      .ptr owner := by
  rcases registered.chario tag with isChario | ⟨-, freed⟩
  · have live : Live (q.info (.chario tag)) := by
      refine ⟨?_, ?_, registered.chario_ctx tag isChario⟩ <;>
        simp [info, isChario]
    exact ((registered.pending (.chario tag)).shutdown_done live
      (.inr (drained.chario ioQueue tag below isChario))).ctx
  · have before : ∀ owner, (q.info (.chario tag)).ctx ≠ .ptr owner := freed
    exact shutdown_freed before

theorem Drained.noOrphan (drained : Drained env q)
    (registered : Registered q) : NoOrphan env q where
  once := by
    intro slot has live
    have pending := registered.pending slot
    cases slot with
    | chario tag =>
        have isChario := (registered.chario tag).resolve_right
          (fun other => other.1.elim live.1 live.2.1)
        exact (pending.shutdown_done live
          (.inr (drained.chario has.1 tag has.2 isChario))).one
    | rq tag =>
        refine (pending.shutdown_done live ?_).one
        rcases drained.rq tag live with starts | dispatched
        · exact .inl ⟨tag, rfl, starts⟩
        · exact .inr dispatched
  returns := drained.returns registered
  woken := by
    intro ioQueue owner _ issued
    exact registered.woken
      (fun tag below => drained.freed registered ioQueue tag below owner) issued
  counter := by
    intro ioQueue
    rw [restart_counter_iff]
    rcases drained.counter ioQueue with zero | ⟨owner, member, issued, ran⟩
    · exact .inl zero
    · exact .inr ⟨owner, member, registered.woken
        (fun tag below => drained.freed registered ioQueue tag below owner)
        issued, ran⟩
  slots := by
    intro ioQueue tag below
    rw [restart_charioCmds]
    exact drained.freed registered ioQueue tag below

theorem NoOrphan.drained (noOrphan : NoOrphan env q)
    (registered : Registered q) : Drained env q where
  counter := by
    intro ioQueue
    rcases (restart_counter_iff env q).mp (noOrphan.counter ioQueue) with
      zero | ⟨owner, member, woken, ran⟩
    · exact .inl zero
    · exact .inr ⟨owner, member, registered.issued woken, ran⟩
  chario := by
    intro ioQueue tag below isChario
    by_contra unseen
    have live : Live (q.info (.chario tag)) := by
      refine ⟨?_, ?_, registered.chario_ctx tag isChario⟩ <;>
        simp [info, isChario]
    have still := (registered.pending (.chario tag)).shutdown_pending
      (fun _ _ => by simp) unseen
    have once := noOrphan.once (.chario tag) ⟨ioQueue, below⟩ live
    rw [still.none] at once
    cases once
  rq := by
    intro tag live
    by_contra unreached
    have still := (registered.pending (.rq tag)).shutdown_pending
      (by
        rintro other starts same
        cases same
        exact unreached (.inl starts))
      (fun dispatched => unreached (.inr dispatched))
    have once := noOrphan.once (.rq tag) trivial live
    rw [still.none] at once
    cases once
  filled := by
    intro polled tag member slot found empty
    obtain ⟨call, logged, isNull⟩ :=
      registered.exists_null polled empty member found
    exact noOrphan.returns call logged isNull

end Main

/-- The shutdown orphans nothing exactly when every queue was drained. -/
theorem nvmeDevShutdown_no_orphan_iff (env : ShutdownEnv)
    (queues : List DevQueue) (registered : ∀ q ∈ queues, Registered q) :
    (∀ q ∈ queues, NoOrphan env q) ↔ ∀ q ∈ queues, Drained env q := by
  constructor
  · intro noOrphan q member
    exact (noOrphan q member).drained (registered q member)
  · intro drained q member
    exact (drained q member).noOrphan (registered q member)

def readyEnv : ShutdownEnv := ⟨nvmeCstsRdy, true, false, fun _ => true⟩

def polledEnv : ShutdownEnv := { readyEnv with worker := false }

def idleQueue (qid : Nat) : DevQueue :=
  ⟨.alloc qid 1024, false, [], [], [], fun _ => 0, []⟩

def syncQueue : DevQueue :=
  { idleQueue 1 with
    queue := (NvmeQueue.alloc 1 1024).setRq 40 (.set (.ptr 7) .sync)
    busy := [⟨40, true⟩] }

def charioQueue : DevQueue :=
  { idleQueue 1 with
    queue := (NvmeQueue.alloc 1 1024).takeTag.setChario 0 (.chario 5)
    submitters := [5] }

def postedQueue : DevQueue := { charioQueue with cq := [0] }

theorem charioQueue_info (tag : Nat) :
    charioQueue.queue.charioCmds tag =
      if tag = 0 then .chario 5 else .zeroed := by
  by_cases first : tag = 0
  · simp [charioQueue, NvmeQueue.setChario, first]
  · simp [charioQueue, NvmeQueue.setChario, NvmeQueue.takeTag, NvmeQueue.alloc,
      first]

theorem charioQueue_registered : Registered charioQueue where
  calls := rfl
  submitters := fun other => absurd rfl other
  rq := fun _ => by
    simp [charioQueue, NvmeQueue.setChario, NvmeQueue.takeTag, NvmeQueue.alloc,
      CmdInfo.zeroed]
  chario := by
    intro tag
    rw [charioQueue_info]
    by_cases first : tag = 0
    · exact .inl (by simp [first, CmdInfo.chario])
    · exact .inr (by simp [first, CmdInfo.zeroed])
  chario_ctx := by
    intro tag isChario
    rw [charioQueue_info] at isChario ⊢
    by_cases first : tag = 0
    · simp [first, CmdInfo.chario]
    · simp [first, CmdInfo.zeroed] at isChario
  started := fun _ member => absurd member List.not_mem_nil

theorem postedQueue_registered : Registered postedQueue :=
  { charioQueue_registered with }

theorem idleQueue_drained : Drained readyEnv (idleQueue 0) := by
  refine ⟨?_, ?_, ?_, ?_⟩
  · simp [idleQueue, NvmeQueue.alloc]
  · simp [idleQueue, NvmeQueue.alloc]
  · simp [Live, idleQueue, NvmeQueue.alloc, CmdInfo.zeroed]
  · simp [idleQueue]

theorem syncQueue_drained : Drained readyEnv syncQueue := by
  refine ⟨?_, ?_, ?_, ?_⟩
  · simp [syncQueue, NvmeQueue.alloc, NvmeQueue.setRq]
  · simp [syncQueue, NvmeQueue.alloc, NvmeQueue.setRq, CmdInfo.zeroed]
  · intro tag live
    by_cases same : tag = 40
    · exact .inl (by simp [Started, syncQueue, same])
    · simp [Live, syncQueue, NvmeQueue.alloc, NvmeQueue.setRq,
        Function.update_of_ne same, CmdInfo.zeroed] at live
  · simp [syncQueue, idleQueue]

theorem postedQueue_polled : Polled polledEnv postedQueue :=
  ⟨rfl, rfl, .inr rfl⟩

theorem postedQueue_issued : postedQueue.Issued 5 := by
  have inFlight : postedQueue.inFlight 5 = 1 := by decide
  unfold Issued
  rw [inFlight]
  decide

theorem postedQueue_drained : Drained polledEnv postedQueue where
  counter :=
    fun _ => .inr ⟨5, List.mem_singleton_self 5, postedQueue_issued, rfl⟩
  chario := by
    intro _ tag _ isChario
    have info : postedQueue.queue.charioCmds tag =
        if tag = 0 then .chario 5 else .zeroed := charioQueue_info tag
    by_cases first : tag = 0
    · subst first
      exact ⟨postedQueue_polled, 0, List.mem_singleton_self 0, rfl⟩
    · rw [info] at isChario
      simp [first, CmdInfo.zeroed] at isChario
  rq := by
    intro tag live
    simp [Live, postedQueue, charioQueue, NvmeQueue.setChario,
      NvmeQueue.takeTag,
      NvmeQueue.alloc, CmdInfo.zeroed] at live
  filled := by
    intro _ tag member slot found
    obtain rfl := List.mem_singleton.mp member
    cases found
    decide

theorem nvmeDevShutdown_sync_queue :
    (NoOrphan readyEnv (idleQueue 0) ∧ NoOrphan readyEnv syncQueue) ∧
      NoOrphan polledEnv postedQueue := by
  have registered : ∀ q ∈ [idleQueue 0, syncQueue], Registered q := by
    simp only [List.mem_cons, List.not_mem_nil, or_false, forall_eq_or_imp,
      forall_eq]
    refine ⟨⟨rfl, ?_, ?_, ?_, ?_, ?_⟩, ⟨rfl, ?_, ?_, ?_, ?_, ?_⟩⟩ <;>
      simp [idleQueue, syncQueue, NvmeQueue.alloc, NvmeQueue.setRq,
        CmdInfo.zeroed, CmdInfo.set]
    intro tag
    by_cases same : tag = 40
    · simp [same]
    · simp [Function.update_of_ne same]
  have drained : ∀ q ∈ [idleQueue 0, syncQueue], Drained readyEnv q := by
    simp only [List.mem_cons, List.not_mem_nil, or_false, forall_eq_or_imp,
      forall_eq]
    exact ⟨idleQueue_drained, syncQueue_drained⟩
  have clean :=
    (nvmeDevShutdown_no_orphan_iff readyEnv _ registered).mpr drained
  have posted := (nvmeDevShutdown_no_orphan_iff polledEnv [postedQueue]
    (List.forall_mem_singleton.mpr postedQueue_registered)).mpr
    (List.forall_mem_singleton.mpr postedQueue_drained)
  exact ⟨⟨clean _ List.mem_cons_self, clean _ (.tail _ List.mem_cons_self)⟩,
    posted _ (List.mem_singleton_self _)⟩

theorem chario_command_orphaned :
    (charioQueue.nvmeDevShutdown readyEnv).ownCalls (.chario 0) (.chario 5) =
        0 ∧
      charioQueue.Issued 5 ∧
      (charioQueue.nvmeDevShutdown readyEnv).remaining 5 = 0 ∧
      (charioQueue.restart readyEnv).queue.nextCharioTag = 1 ∧
      ((charioQueue.restart readyEnv).queue.charioCmds 0).ctx = .ptr 5 ∧
      Registered charioQueue ∧ ¬ NoOrphan readyEnv charioQueue := by
  have counter : (charioQueue.restart readyEnv).queue.nextCharioTag = 1 := by
    decide
  refine ⟨rfl, postedQueue_issued, rfl, counter, ?_, charioQueue_registered, ?_⟩
  · rw [restart_charioCmds]
    rfl
  · intro noOrphan
    have reset := noOrphan.counter (by decide)
    rw [counter] at reset
    cases reset

end DevQueue

end Chario.Queue
