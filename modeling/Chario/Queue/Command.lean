import Mathlib.Logic.Function.Basic

namespace Chario

def reqMaxBlocks : Nat := 32

end Chario

namespace Chario.Queue

/-! Command slots of a queue and the dispatcher that looks a completion up. -/

/-- The completion functions the driver installs.  A slot fresh from `kzalloc`
holds `null`. -/
inductive CompletionFn
  | null
  | special
  | sync
  | req
  | async
  | asyncReq
  | abort
  | chario
deriving DecidableEq, Repr

/-- `void *ctx`: one of the `CMD_CTX_*` values or a pointer to its owner. -/
inductive CmdCtx
  | null
  | cancelled
  | completed
  | invalid
  | ptr (owner : Nat)
deriving DecidableEq, Repr

structure CmdInfo where
  fn : CompletionFn
  ctx : CmdCtx
  aborted : Nat
deriving DecidableEq, Repr

namespace CmdInfo

def zeroed : CmdInfo := ⟨.null, .null, 0⟩

def finish (cmd : CmdInfo) : CmdInfo :=
  { cmd with fn := .special, ctx := .completed }

def chario (owner : Nat) : CmdInfo := ⟨.chario, .ptr owner, 0⟩

def set (ctx : CmdCtx) (handler : CompletionFn) : CmdInfo := ⟨handler, ctx, 0⟩

@[simp] theorem finish_fn (cmd : CmdInfo) : cmd.finish.fn = .special := rfl

@[simp] theorem finish_ctx (cmd : CmdInfo) : cmd.finish.ctx = .completed := rfl

@[simp] theorem chario_fn (owner : Nat) : (chario owner).fn = .chario := rfl

@[simp] theorem chario_ctx (owner : Nat) : (chario owner).ctx = .ptr owner :=
  rfl

end CmdInfo

/-- The dispatch side of `struct nvme_queue`.  `rqCmds` is the payload of the
blk-mq request with a given tag (`get_cmd_from_tag`). -/
structure NvmeQueue where
  qid : Nat
  qDepth : Nat
  charioCmds : Nat → CmdInfo
  rqCmds : Nat → CmdInfo
  nextCharioTag : Nat

def charioCmdCount : Nat := 32

namespace NvmeQueue

def alloc (qid qDepth : Nat) : NvmeQueue where
  qid := qid
  qDepth := qDepth
  charioCmds _ := .zeroed
  rqCmds _ := .zeroed
  nextCharioTag := 0

/-- `nvme_finish_cmd`: what to call and with which context, and the queue with
the slot marked. -/
def nvmeFinishCmd (queue : NvmeQueue) (tag : Nat) :
    (CompletionFn × CmdCtx) × NvmeQueue :=
  if queue.qDepth ≤ tag then ((.special, .invalid), queue)
  else if queue.qid = 0 ∨ 31 < tag then
    let cmd := queue.rqCmds tag
    ((cmd.fn, cmd.ctx),
      { queue with rqCmds := Function.update queue.rqCmds tag cmd.finish })
  else
    let cmd := queue.charioCmds tag
    ((cmd.fn, cmd.ctx),
      { queue with
        charioCmds := Function.update queue.charioCmds tag cmd.finish })

def takeTag (queue : NvmeQueue) : NvmeQueue :=
  { queue with nextCharioTag := queue.nextCharioTag + 1 }

def setChario (queue : NvmeQueue) (tag : Nat) (cmd : CmdInfo) : NvmeQueue :=
  { queue with charioCmds := Function.update queue.charioCmds tag cmd }

def setRq (queue : NvmeQueue) (tag : Nat) (cmd : CmdInfo) : NvmeQueue :=
  { queue with rqCmds := Function.update queue.rqCmds tag cmd }

def resetTag (queue : NvmeQueue) : NvmeQueue :=
  { queue with nextCharioTag := 0 }

theorem nvmeFinishCmd_of_depth_le {queue : NvmeQueue} {tag : Nat}
    (beyond : queue.qDepth ≤ tag) :
    queue.nvmeFinishCmd tag = ((.special, .invalid), queue) :=
  if_pos beyond

theorem nvmeFinishCmd_chario {queue : NvmeQueue} {tag : Nat}
    (ioQueue : queue.qid ≠ 0) (inRing : tag < queue.qDepth)
    (low : tag < charioCmdCount) :
    queue.nvmeFinishCmd tag =
      (((queue.charioCmds tag).fn, (queue.charioCmds tag).ctx),
        queue.setChario tag (queue.charioCmds tag).finish) := by
  unfold charioCmdCount at low
  rw [nvmeFinishCmd, if_neg (by omega), if_neg (by omega)]
  rfl

theorem nvmeFinishCmd_rq {queue : NvmeQueue} {tag : Nat}
    (inRing : tag < queue.qDepth) (high : charioCmdCount ≤ tag) :
    queue.nvmeFinishCmd tag =
      (((queue.rqCmds tag).fn, (queue.rqCmds tag).ctx),
        queue.setRq tag (queue.rqCmds tag).finish) := by
  unfold charioCmdCount at high
  rw [nvmeFinishCmd, if_neg (by omega), if_pos (by omega)]
  rfl

end NvmeQueue

end Chario.Queue
