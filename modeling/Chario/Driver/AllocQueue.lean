import Mathlib.Data.List.Range
import Mathlib.Data.List.TakeWhile
import Mathlib.Logic.Function.Basic
import Chario.Library.Custody
import Chario.Nvme.Machine
import Chario.Queue.Command

namespace Chario.Driver

open Chario.Library
open Chario.Nvme.Machine (wrapping nvmeNpages)
open Chario.Queue (CmdInfo charioCmdCount)

/-! The queues of a controller: their memory, the slots of the character device
in them, and the division that sizes the slots. -/

/-- `sizeof` of the structures that a command's payload is made of. -/
structure Layout where
  cmdInfo : Nat
  iod : Nat
  pointer : Nat
  scatterlist : Nat
deriving DecidableEq, Repr

def nvmeIntPages : Nat := 2

def nvmeCmdSize (layout : Layout) (pageSize : Nat) : Nat :=
  let npages := nvmeNpages wrapping pageSize
    (wrapping.unsigned (nvmeIntPages * pageSize))
  (layout.cmdInfo + layout.iod + layout.pointer * npages.toNat +
    layout.scatterlist * nvmeIntPages) % 2 ^ 32

/-- An entry of `chario_cmds` that is not NULL: the bytes that were asked for
and what they hold. -/
structure CharioCmd where
  size : Nat
  info : CmdInfo
deriving DecidableEq, Repr

structure DevQueue where
  qid : Nat
  qDepth : Nat
  cqVector : Int
  charioCmds : Nat → Option CharioCmd
  nextCharioTag : Nat

/-- Every slot that `nvme_submit_chario_cmd` may take is there. -/
def DevQueue.Whole (nvmeq : DevQueue) : Prop :=
  ∀ tag < charioCmdCount, (nvmeq.charioCmds tag).isSome

inductive NpagesCaller
  | allocQueue (qid : Nat)
  | allocAdminTags
  | devAdd
  | allocIod
deriving DecidableEq, Repr

structure Evaluation where
  caller : NpagesCaller
  pageSize : Nat
deriving DecidableEq, Repr

structure SlotUse where
  qid : Nat
  tag : Nat
  present : Bool
deriving DecidableEq, Repr

/-- The call of `nvme_dev_start` that is next, or none while no start is under
way. -/
inductive StartStage
  | rest
  | configureAdminQueue
  | thread
  | allocAdminTags
  | setupIoQueues
  | removed
deriving DecidableEq, Repr

/-- What the start of a controller reads and writes of `struct nvme_dev`.
`programmed` is the page shift last written to the controller's configuration,
and `adminQ` is false while `admin_q` is NULL.  `evaluations` and `uses` record
the run. -/
structure QueueDev where
  stage : StartStage
  pageSize : Nat
  programmed : Option Nat
  qDepth : Nat
  dbStride : Nat
  maxQid : Nat
  queueCount : Nat
  onlineQueues : Nat
  queues : Nat → Option DevQueue
  adminQ : Bool
  namespaces : List Nat
  evaluations : List Evaluation
  uses : List SlotUse

namespace QueueDev

/-- What `kzalloc_node` returns. -/
def zeroed : QueueDev where
  stage := .rest
  pageSize := 0
  programmed := none
  qDepth := 0
  dbStride := 0
  maxQid := 0
  queueCount := 0
  onlineQueues := 0
  queues _ := none
  adminQ := false
  namespaces := []
  evaluations := []
  uses := []

def callNpages (dev : QueueDev) (caller : NpagesCaller) : QueueDev :=
  { dev with evaluations := dev.evaluations ++ [⟨caller, dev.pageSize⟩] }

def setQueue (dev : QueueDev) (qid : Nat) (nvmeq : Option DevQueue) :
    QueueDev :=
  { dev with queues := Function.update dev.queues qid nvmeq }

end QueueDev

/-! ## Allocation -/

inductive QueueBlock
  | nvmeq
  | cqes
  | sqCmds
  | charioCmd (tag : Nat)
deriving DecidableEq, Repr

structure AllocOutcomes where
  nvmeq : Bool
  cqes : Bool
  sqCmds : Bool
  charioCmd : Nat → Bool

namespace AllocOutcomes

def granted : AllocOutcomes where
  nvmeq := true
  cqes := true
  sqCmds := true
  charioCmd _ := true

/-- The loop over `chario_cmds` ends at the first refusal. -/
def charioTags (outcomes : AllocOutcomes) : List Nat :=
  (List.range charioCmdCount).takeWhile outcomes.charioCmd

def slotTags (outcomes : AllocOutcomes) (qid : Nat) : List Nat :=
  if 0 < qid then outcomes.charioTags else []

def Rings (outcomes : AllocOutcomes) : Prop :=
  outcomes.nvmeq ∧ outcomes.cqes ∧ outcomes.sqCmds

/-- A slot is refused after the queue has been published. -/
def Torn (outcomes : AllocOutcomes) : Prop :=
  outcomes.Rings ∧ ∃ tag < charioCmdCount, outcomes.charioCmd tag = false

instance (outcomes : AllocOutcomes) : Decidable outcomes.Rings :=
  inferInstanceAs (Decidable (_ ∧ _))

instance (outcomes : AllocOutcomes) : Decidable outcomes.Torn :=
  inferInstanceAs (Decidable (_ ∧ _))

end AllocOutcomes

structure Allocation where
  nvmeq : Option DevQueue
  dev : QueueDev
  log : List (Custody QueueBlock)

def publishedQueue (qid depth cmdSize : Nat) (tags : List Nat) : DevQueue where
  qid := qid % 2 ^ 16
  qDepth := depth % 2 ^ 16
  cqVector := 0
  charioCmds tag := if tag ∈ tags then some ⟨cmdSize, .zeroed⟩ else none
  nextCharioTag := 0

def nvmeAllocQueue (layout : Layout) (dev : QueueDev) (qid depth : Nat)
    (outcomes : AllocOutcomes) : Allocation :=
  let cmdSize := nvmeCmdSize layout dev.pageSize
  let dev := dev.callNpages (.allocQueue qid)
  if outcomes.nvmeq = false then ⟨none, dev, []⟩
  else if outcomes.cqes = false then
    ⟨none, dev, acquires [.nvmeq] ++ releases [.nvmeq]⟩
  else if outcomes.sqCmds = false then
    ⟨none, dev, acquires [.nvmeq, .cqes] ++ releases [.cqes, .nvmeq]⟩
  else
    let tags := outcomes.slotTags qid
    let nvmeq := publishedQueue qid depth cmdSize tags
    ⟨some nvmeq,
      { dev with
        queueCount := dev.queueCount + 1
        queues := Function.update dev.queues qid (some nvmeq) },
      acquires ([.nvmeq, .cqes, .sqCmds] ++ tags.map .charioCmd)⟩

/-- `kfree` does nothing with the slots that are NULL. -/
def DevQueue.heldTags (nvmeq : DevQueue) : List Nat :=
  (List.range charioCmdCount).filter
    (fun tag => (nvmeq.charioCmds tag).isSome)

def nvmeFreeQueue (nvmeq : DevQueue) : List (Custody QueueBlock) :=
  releases ([.cqes, .sqCmds] ++
    (if 0 < nvmeq.qid then nvmeq.heldTags.map .charioCmd else []) ++ [.nvmeq])

namespace AllocOutcomes

variable {outcomes : AllocOutcomes}

theorem charioTags_nodup : outcomes.charioTags.Nodup :=
  (List.takeWhile_sublist _).nodup List.nodup_range

theorem mem_charioTags {tag : Nat} (taken : tag ∈ outcomes.charioTags) :
    tag < charioCmdCount ∧ outcomes.charioCmd tag = true :=
  ⟨List.mem_range.mp ((List.takeWhile_sublist _).subset taken),
    List.mem_takeWhile_imp taken⟩

theorem charioTags_eq
    (all : ∀ tag < charioCmdCount, outcomes.charioCmd tag = true) :
    outcomes.charioTags = List.range charioCmdCount := by
  apply List.takeWhile_eq_self_iff.mpr
  intro tag inRange
  exact all tag (List.mem_range.mp inRange)

theorem slotTags_nodup {qid : Nat} : (outcomes.slotTags qid).Nodup := by
  unfold slotTags
  split
  next => exact charioTags_nodup
  next => exact List.nodup_nil

theorem lt_of_mem_slotTags {qid tag : Nat}
    (taken : tag ∈ outcomes.slotTags qid) :
    tag < charioCmdCount := by
  unfold slotTags at taken
  split at taken
  next => exact (mem_charioTags taken).1
  next => cases taken

theorem not_torn_iff (rings : outcomes.Rings) :
    ¬ outcomes.Torn ↔
    ∀ tag < charioCmdCount, outcomes.charioCmd tag = true := by
  constructor
  · intro notTorn tag below
    cases taken : outcomes.charioCmd tag with
    | true => rfl
    | false => exact absurd ⟨rings, tag, below, taken⟩ notTorn
  · rintro all ⟨_, tag, below, refused⟩
    rw [all tag below] at refused
    cases refused

end AllocOutcomes

section Allocation

variable {layout : Layout} {dev : QueueDev} {qid depth : Nat}
variable {outcomes : AllocOutcomes}

@[simp] theorem publishedQueue_qid (cmdSize : Nat) (tags : List Nat) :
    (publishedQueue qid depth cmdSize tags).qid = qid % 2 ^ 16 := rfl

theorem publishedQueue_charioCmds (cmdSize : Nat) (tags : List Nat)
    (tag : Nat) :
    (publishedQueue qid depth cmdSize tags).charioCmds tag =
      if tag ∈ tags then some ⟨cmdSize, .zeroed⟩ else none := rfl

theorem publishedQueue_slot {cmdSize : Nat} {tags : List Nat} {tag : Nat} :
    ((publishedQueue qid depth cmdSize tags).charioCmds tag).isSome ↔
      tag ∈ tags := by
  rw [publishedQueue_charioCmds]
  by_cases taken : tag ∈ tags
  · simp [taken]
  · simp [taken]

theorem publishedQueue_heldTags {cmdSize : Nat} :
    (publishedQueue qid depth cmdSize (outcomes.slotTags qid)).heldTags.Perm
      (outcomes.slotTags qid) := by
  apply (List.perm_ext_iff_of_nodup (List.nodup_range.filter _)
    AllocOutcomes.slotTags_nodup).mpr
  intro tag
  rw [List.mem_filter, publishedQueue_slot, and_iff_right_iff_imp]
  intro taken
  exact List.mem_range.mpr (AllocOutcomes.lt_of_mem_slotTags taken)

theorem nvmeAllocQueue_refused (layout : Layout) (dev : QueueDev)
    (qid depth : Nat) (refused : ¬ outcomes.Rings) :
    (nvmeAllocQueue layout dev qid depth outcomes).nvmeq = none ∧
      (nvmeAllocQueue layout dev qid depth outcomes).dev =
        dev.callNpages (.allocQueue qid) ∧
      Neutral (nvmeAllocQueue layout dev qid depth outcomes).log := by
  unfold nvmeAllocQueue
  split
  next => exact ⟨rfl, rfl, fun _ => .inl rfl⟩
  next nvmeq =>
    split
    next => exact ⟨rfl, rfl, neutral_of_perm (by decide) (List.Perm.refl _)⟩
    next cqes =>
      split
      next => exact ⟨rfl, rfl, neutral_of_perm (by decide) (by decide)⟩
      next sqCmds =>
        exact absurd ⟨eq_true_of_ne_false nvmeq, eq_true_of_ne_false cqes,
          eq_true_of_ne_false sqCmds⟩ refused

theorem nvmeAllocQueue_published (rings : outcomes.Rings) :
    nvmeAllocQueue layout dev qid depth outcomes =
      let nvmeq := publishedQueue qid depth (nvmeCmdSize layout dev.pageSize)
        (outcomes.slotTags qid)
      ⟨some nvmeq,
        { dev.callNpages (.allocQueue qid) with
          queueCount := dev.queueCount + 1
          queues := Function.update dev.queues qid (some nvmeq) },
        acquires ([.nvmeq, .cqes, .sqCmds] ++
          (outcomes.slotTags qid).map .charioCmd)⟩ := by
  obtain ⟨nvmeq, cqes, sqCmds⟩ := rings
  unfold nvmeAllocQueue
  rw [if_neg (by simp [nvmeq]), if_neg (by simp [cqes]),
    if_neg (by simp [sqCmds])]
  rfl

/-- The queue and the log of an allocation, against the device before it:
nothing is changed and everything is given back, or the queue is registered with
all its slots. -/
def Allocation.AllOrNothing (allocation : Allocation) (before : QueueDev)
    (qid : Nat) : Prop :=
  (allocation.nvmeq = none ∧
    allocation.dev.queueCount = before.queueCount ∧
    allocation.dev.queues = before.queues ∧ Neutral allocation.log) ∨
  ∃ nvmeq, allocation.nvmeq = some nvmeq ∧
    allocation.dev.queues qid = some nvmeq ∧ nvmeq.Whole

theorem publishedQueue_whole_iff (positive : 0 < qid) (rings : outcomes.Rings)
    {cmdSize : Nat} :
    (publishedQueue qid depth cmdSize (outcomes.slotTags qid)).Whole ↔
      ¬ outcomes.Torn := by
  rw [AllocOutcomes.not_torn_iff rings, AllocOutcomes.slotTags, if_pos positive]
  constructor
  · intro whole tag below
    exact (AllocOutcomes.mem_charioTags
      (publishedQueue_slot.mp (whole tag below))).2
  · intro all tag below
    rw [AllocOutcomes.charioTags_eq all]
    exact publishedQueue_slot.mpr (List.mem_range.mpr below)

theorem nvmeAllocQueue_allOrNothing_iff (positive : 0 < qid) :
    (nvmeAllocQueue layout dev qid depth outcomes).AllOrNothing dev qid ↔
      ¬ outcomes.Torn := by
  by_cases rings : outcomes.Rings
  · rw [nvmeAllocQueue_published rings,
      ← publishedQueue_whole_iff positive rings]
    constructor
    · rintro (⟨isNone, _⟩ | ⟨nvmeq, isSome, _, whole⟩)
      · cases isNone
      · cases isSome
        exact whole
    · intro whole
      exact .inr ⟨_, rfl, Function.update_self .., whole⟩
  · obtain ⟨isNone, sameDev, neutral⟩ :=
      nvmeAllocQueue_refused layout dev qid depth rings
    constructor
    · intro _ torn
      exact rings torn.1
    · intro _
      refine .inl ⟨isNone, ?_, ?_, neutral⟩
      · rw [sameDev]
        rfl
      · rw [sameDev]
        rfl

/-- `nvme_free_queue` gives back what the allocation of the queue took, whether
or not all the slots are there. -/
theorem nvmeFreeQueue_neutral (small : qid < 2 ^ 16) {nvmeq : DevQueue}
    (published : (nvmeAllocQueue layout dev qid depth outcomes).nvmeq =
      some nvmeq) :
    Neutral ((nvmeAllocQueue layout dev qid depth outcomes).log ++
      nvmeFreeQueue nvmeq) := by
  by_cases rings : outcomes.Rings
  · rw [nvmeAllocQueue_published rings] at published ⊢
    cases published
    apply neutral_of_perm
    · refine List.nodup_append'.mpr ⟨by decide, ?_, ?_⟩
      · exact AllocOutcomes.slotTags_nodup.map
          (fun _ _ => QueueBlock.charioCmd.inj)
      · intro block isFixed isSlot
        obtain ⟨tag, _, rfl⟩ := List.mem_map.mp isSlot
        simp at isFixed
    · rw [publishedQueue_qid, Nat.mod_eq_of_lt small]
      have slots : (if 0 < qid then
          (publishedQueue qid depth (nvmeCmdSize layout dev.pageSize)
            (outcomes.slotTags qid)).heldTags.map QueueBlock.charioCmd
          else []).Perm ((outcomes.slotTags qid).map .charioCmd) := by
        split
        next => exact publishedQueue_heldTags.map _
        next admin =>
          rw [AllocOutcomes.slotTags, if_neg admin]
          exact List.Perm.refl _
      refine (List.perm_append_comm).trans ?_
      exact (slots.append_left [.cqes, .sqCmds]).cons QueueBlock.nvmeq
  · rw [(nvmeAllocQueue_refused layout dev qid depth rings).1] at published
    cases published

end Allocation

/-! ## Slots

A slot that is NULL is still gone through; the record says so. -/

namespace DevQueue

def setInfo (nvmeq : DevQueue) (tag : Nat) (change : CmdInfo → CmdInfo) :
    DevQueue :=
  { nvmeq with
    charioCmds := Function.update nvmeq.charioCmds tag
      ((nvmeq.charioCmds tag).map
        (fun cmd => { cmd with info := change cmd.info })) }

theorem setInfo_self (nvmeq : DevQueue) (tag : Nat)
    (change : CmdInfo → CmdInfo) :
    (nvmeq.setInfo tag change).charioCmds tag =
      (nvmeq.charioCmds tag).map
        (fun cmd => { cmd with info := change cmd.info }) :=
  Function.update_self ..

theorem setInfo_of_ne (nvmeq : DevQueue) {tag other : Nat}
    (different : other ≠ tag) (change : CmdInfo → CmdInfo) :
    (nvmeq.setInfo tag change).charioCmds other = nvmeq.charioCmds other :=
  Function.update_of_ne different ..

def useOf (nvmeq : DevQueue) (tag : Nat) : SlotUse :=
  ⟨nvmeq.qid, tag, (nvmeq.charioCmds tag).isSome⟩

def nvmeSubmitCharioCmd (nvmeq : DevQueue) (owner : Nat) :
    SlotUse × DevQueue :=
  let tag := nvmeq.nextCharioTag
  (nvmeq.useOf tag,
    { nvmeq.setInfo tag (fun _ => .chario owner) with
      nextCharioTag := tag + 1 })

/-- `nvme_finish_cmd`: the request of the tag set, or the tag beyond the ring,
goes through no slot. -/
def nvmeFinishCmd (nvmeq : DevQueue) (tag : Nat) :
    Option SlotUse × DevQueue :=
  if nvmeq.qDepth ≤ tag ∨ nvmeq.qid = 0 ∨ 31 < tag then (none, nvmeq)
  else (some (nvmeq.useOf tag), nvmeq.setInfo tag CmdInfo.finish)

structure SameSlots (before after : DevQueue) : Prop where
  qid : after.qid = before.qid
  sizes : ∀ tag, (after.charioCmds tag).map CharioCmd.size =
    (before.charioCmds tag).map CharioCmd.size

namespace SameSlots

variable {before after : DevQueue}

theorem isSome (same : before.SameSlots after) (tag : Nat) :
    (after.charioCmds tag).isSome = (before.charioCmds tag).isSome := by
  have sizes := congrArg Option.isSome (same.sizes tag)
  rwa [Option.isSome_map, Option.isSome_map] at sizes

theorem whole (same : before.SameSlots after) (isWhole : before.Whole) :
    after.Whole := by
  intro tag below
  rw [same.isSome tag]
  exact isWhole tag below

theorem setInfo (nvmeq : DevQueue) (tag : Nat) (change : CmdInfo → CmdInfo) :
    nvmeq.SameSlots (nvmeq.setInfo tag change) where
  qid := rfl
  sizes other := by
    by_cases isTag : other = tag
    · subst isTag
      rw [setInfo_self, Option.map_map]
      rfl
    · rw [setInfo_of_ne nvmeq isTag]

theorem nvmeSubmitCharioCmd (nvmeq : DevQueue) (owner : Nat) :
    nvmeq.SameSlots (nvmeq.nvmeSubmitCharioCmd owner).2 where
  qid := rfl
  sizes := (setInfo nvmeq nvmeq.nextCharioTag (fun _ => .chario owner)).sizes

theorem nvmeFinishCmd (nvmeq : DevQueue) (tag : Nat) :
    nvmeq.SameSlots (nvmeq.nvmeFinishCmd tag).2 := by
  unfold DevQueue.nvmeFinishCmd
  split
  next => exact ⟨rfl, fun _ => rfl⟩
  next => exact setInfo ..

end SameSlots

structure Dispatches (nvmeq : DevQueue) (queue : Chario.Queue.NvmeQueue) :
    Prop where
  qid : nvmeq.qid = queue.qid
  qDepth : nvmeq.qDepth = queue.qDepth
  nextCharioTag : nvmeq.nextCharioTag = queue.nextCharioTag
  slots : ∀ tag < charioCmdCount,
    (nvmeq.charioCmds tag).map CharioCmd.info = some (queue.charioCmds tag)

namespace Dispatches

variable {nvmeq : DevQueue} {queue : Chario.Queue.NvmeQueue}

theorem alloc {qid depth cmdSize : Nat} {tags : List Nat} (small : qid < 2 ^ 16)
    (shallow : depth < 2 ^ 16)
    (whole : (publishedQueue qid depth cmdSize tags).Whole) :
    (publishedQueue qid depth cmdSize tags).Dispatches (.alloc qid depth) where
  qid := Nat.mod_eq_of_lt small
  qDepth := Nat.mod_eq_of_lt shallow
  nextCharioTag := rfl
  slots tag below := by
    rw [publishedQueue_charioCmds,
      if_pos (publishedQueue_slot.mp (whole tag below))]
    rfl

/-- The dispatcher starts on the queue that `nvme_alloc_queue` returns when no
slot is refused. -/
theorem nvmeAllocQueue {layout : Layout} {dev : QueueDev} {qid depth : Nat}
    {outcomes : AllocOutcomes} (positive : 0 < qid) (small : qid < 2 ^ 16)
    (shallow : depth < 2 ^ 16) (notTorn : ¬ outcomes.Torn)
    (published : (nvmeAllocQueue layout dev qid depth outcomes).nvmeq =
      some nvmeq) : nvmeq.Dispatches (.alloc qid depth) := by
  by_cases rings : outcomes.Rings
  · rw [nvmeAllocQueue_published rings] at published
    cases published
    exact alloc small shallow
      ((publishedQueue_whole_iff positive rings).mpr notTorn)
  · rw [(nvmeAllocQueue_refused layout dev qid depth rings).1] at published
    cases published

theorem setInfo (dispatches : nvmeq.Dispatches queue) {tag : Nat}
    (below : tag < charioCmdCount) (change : CmdInfo → CmdInfo) :
    (nvmeq.setInfo tag change).Dispatches
      (queue.setChario tag (change (queue.charioCmds tag))) where
  qid := dispatches.qid
  qDepth := dispatches.qDepth
  nextCharioTag := dispatches.nextCharioTag
  slots other otherBelow := by
    change _ = some (Function.update queue.charioCmds tag _ other)
    by_cases isTag : other = tag
    · subst isTag
      obtain ⟨cmd, found, sameInfo⟩ :=
        Option.map_eq_some_iff.mp (dispatches.slots other below)
      rw [setInfo_self, Function.update_self, found, ← sameInfo]
      rfl
    · rw [setInfo_of_ne nvmeq isTag, Function.update_of_ne isTag]
      exact dispatches.slots other otherBelow

/-- The two halves of `nvme_submit_chario_cmd` on the dispatcher's queue. -/
theorem nvmeSubmitCharioCmd (dispatches : nvmeq.Dispatches queue) (owner : Nat)
    (below : queue.nextCharioTag < charioCmdCount) :
    (nvmeq.nvmeSubmitCharioCmd owner).2.Dispatches
      (queue.takeTag.setChario queue.nextCharioTag (.chario owner)) := by
  have set := dispatches.setInfo below (fun _ => .chario owner)
  unfold DevQueue.nvmeSubmitCharioCmd
  rw [dispatches.nextCharioTag]
  exact ⟨set.qid, set.qDepth, rfl, set.slots⟩

theorem nvmeFinishCmd (dispatches : nvmeq.Dispatches queue) (tag : Nat) :
    (nvmeq.nvmeFinishCmd tag).2.Dispatches (queue.nvmeFinishCmd tag).2 := by
  unfold DevQueue.nvmeFinishCmd
  rw [dispatches.qDepth, dispatches.qid]
  split
  next noSlot =>
    have same : (queue.nvmeFinishCmd tag).2.charioCmds = queue.charioCmds ∧
        (queue.nvmeFinishCmd tag).2.qid = queue.qid ∧
        (queue.nvmeFinishCmd tag).2.qDepth = queue.qDepth ∧
        (queue.nvmeFinishCmd tag).2.nextCharioTag = queue.nextCharioTag := by
      unfold Chario.Queue.NvmeQueue.nvmeFinishCmd
      split
      next => exact ⟨rfl, rfl, rfl, rfl⟩
      next inRing =>
        rw [if_pos (noSlot.resolve_left inRing)]
        exact ⟨rfl, rfl, rfl, rfl⟩
    refine ⟨?_, ?_, ?_, ?_⟩
    · rw [same.2.1, dispatches.qid]
    · rw [same.2.2.1, dispatches.qDepth]
    · rw [same.2.2.2, dispatches.nextCharioTag]
    · rw [same.1]
      exact dispatches.slots
  next slot =>
    have inRing : ¬ queue.qDepth ≤ tag := fun beyond => slot (.inl beyond)
    have ioQueue : queue.qid ≠ 0 := fun admin => slot (.inr (.inl admin))
    have low : ¬ 31 < tag := fun high => slot (.inr (.inr high))
    have below : tag < charioCmdCount := by
      unfold charioCmdCount
      omega
    rw [Chario.Queue.NvmeQueue.nvmeFinishCmd_chario ioQueue
      (Nat.lt_of_not_le inRing) below]
    exact dispatches.setInfo below CmdInfo.finish

end Dispatches

end DevQueue

end Chario.Driver
