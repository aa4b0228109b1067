import Chario.Constants
import Chario.Library.Transition
import Chario.Driver.AllocQueue

namespace Chario.Driver

open Chario.Library

/-! `nvme_dev_start` and what comes before and after it, call by call, with the
requests that run beside it. -/

def pageShift : Nat := 12

def nvmeAqDepth : Nat := 256

/-! The fields of the CAP register. -/

def capMqes (cap : Nat) : Nat := cap % 2 ^ 16

def capStride (cap : Nat) : Nat := cap / 2 ^ 32 % 16

def capMpsmin (cap : Nat) : Nat := cap / 2 ^ 48 % 16

def capMpsmax (cap : Nat) : Nat := cap / 2 ^ 52 % 16

structure CreateOutcomes where
  allocCq : Int
  allocSq : Int
  requestIrq : Int
deriving DecidableEq, Repr

structure AdminOutcomes where
  cap : Nat
  disableCtrl : Int
  alloc : AllocOutcomes
  enableCtrl : Int
  requestIrq : Int

structure TagOutcomes where
  allocTagSet : Int
  initQueue : Bool
  getQueue : Bool
deriving DecidableEq, Repr

/-- The results that `nvme_setup_io_queues` sees.  `ioremap` is asked by size
and the two calls for vectors by the most they may give. -/
structure IoOutcomes where
  possibleCpus : Nat
  setQueueCount : Int
  ioremap : Nat → Bool
  enableMsix : Nat → Int
  enableMsi : Nat → Int
  requestIrq : Int
  alloc : Nat → AllocOutcomes
  create : Nat → CreateOutcomes

structure AddOutcomes where
  allocMem : Bool
  identify : Int
  allocTagSet : Int
  nn : Nat
  allocNs : Nat → Bool

namespace QueueDev

/-- The loop of `nvme_free_queues`, counting down. -/
def freeDown (lowest : Nat) : Nat → QueueDev → QueueDev
  | 0, dev => dev
  | i + 1, dev =>
      if lowest ≤ i then
        freeDown lowest i
          ({ dev with queueCount := dev.queueCount - 1 }.setQueue i none)
      else dev

def nvmeFreeQueues (dev : QueueDev) (lowest : Nat) : QueueDev :=
  freeDown lowest dev.queueCount dev

/-- `online_queues` is unsigned. -/
def nvmeSuspendQueue (dev : QueueDev) (qid : Nat) : QueueDev :=
  match dev.queues qid with
  | none => dev
  | some nvmeq =>
      if nvmeq.cqVector = -1 then dev
      else
        { dev with
          onlineQueues :=
            (dev.onlineQueues + 2 ^ 32 - 1) % 2 ^ 32 }.setQueue qid
          (some { nvmeq with cqVector := -1 })

def nvmeDisableQueue (dev : QueueDev) (qid : Nat) : QueueDev :=
  dev.nvmeSuspendQueue qid

def nvmeInitQueue (dev : QueueDev) : QueueDev :=
  { dev with onlineQueues := (dev.onlineQueues + 1) % 2 ^ 32 }

def setVector (dev : QueueDev) (qid : Nat) (vector : Int) : QueueDev :=
  dev.setQueue qid
    ((dev.queues qid).map (fun nvmeq => { nvmeq with cqVector := vector }))

def nvmeCreateQueue (dev : QueueDev) (qid : Nat) (outcomes : CreateOutcomes) :
    Int × QueueDev :=
  let dev := dev.setVector qid (qid - 1)
  if outcomes.allocCq < 0 then (outcomes.allocCq, dev)
  else if outcomes.allocSq < 0 then (outcomes.allocSq, dev)
  else if outcomes.requestIrq < 0 then (outcomes.requestIrq, dev)
  else (outcomes.requestIrq, dev.nvmeInitQueue)

/-- The first loop of `nvme_create_io_queues`. -/
def allocIoQueues (layout : Layout) (outcomes : Nat → AllocOutcomes) :
    Nat → Nat → QueueDev → QueueDev
  | 0, _, dev => dev
  | left + 1, i, dev =>
      let allocation := nvmeAllocQueue layout dev i dev.qDepth (outcomes i)
      match allocation.nvmeq with
      | none => allocation.dev
      | some _ => allocIoQueues layout outcomes left (i + 1) allocation.dev

def createQueues (outcomes : Nat → CreateOutcomes) :
    Nat → Nat → QueueDev → QueueDev
  | 0, _, dev => dev
  | left + 1, i, dev =>
      let created := dev.nvmeCreateQueue i (outcomes i)
      if created.1 ≠ 0 then created.2
      else createQueues outcomes left (i + 1) created.2

def nvmeCreateIoQueues (layout : Layout) (dev : QueueDev)
    (alloc : Nat → AllocOutcomes) (create : Nat → CreateOutcomes) : QueueDev :=
  let dev := allocIoQueues layout alloc (dev.maxQid + 1 - dev.queueCount)
    dev.queueCount dev
  createQueues create (dev.queueCount - dev.onlineQueues) dev.onlineQueues dev

def nvmeDevMap (dev : QueueDev) (cap : Nat) : QueueDev :=
  { dev with
    qDepth := min (capMqes cap + 1) nvmeQDepth
    dbStride := 2 ^ capStride cap }

def program (dev : QueueDev) (shift : Nat) : QueueDev :=
  { dev with pageSize := 2 ^ shift, programmed := some shift }

/-- `nvme_configure_admin_queue` once it has an admin queue. -/
def enableAdminQueue (dev : QueueDev) (shift : Nat) (env : AdminOutcomes) :
    Int × QueueDev :=
  let dev := dev.program shift
  if env.enableCtrl ≠ 0 then (env.enableCtrl, dev.nvmeFreeQueues 0)
  else
    let dev := dev.setVector 0 0
    if env.requestIrq ≠ 0 then (env.requestIrq, dev.nvmeFreeQueues 0)
    else (0, dev)

def nvmeConfigureAdminQueue (layout : Layout) (dev : QueueDev)
    (env : AdminOutcomes) : Int × QueueDev :=
  let devPageMin := capMpsmin env.cap + 12
  let devPageMax := capMpsmax env.cap + 12
  if pageShift < devPageMin then (-enodev, dev)
  else
    let shift := if devPageMax < pageShift then devPageMax else pageShift
    if env.disableCtrl < 0 then (env.disableCtrl, dev)
    else
      match dev.queues 0 with
      | some _ => dev.enableAdminQueue shift env
      | none =>
          let allocation := nvmeAllocQueue layout dev 0 nvmeAqDepth env.alloc
          match allocation.nvmeq with
          | none => (-enomem, allocation.dev)
          | some _ => allocation.dev.enableAdminQueue shift env

/-- `nvme_alloc_admin_tags`.  A failure of `blk_mq_init_queue` leaves an error
pointer in `admin_q`. -/
def nvmeAllocAdminTags (dev : QueueDev) (env : TagOutcomes) : Int × QueueDev :=
  if dev.adminQ then (0, dev)
  else
    let dev := dev.callNpages .allocAdminTags
    if env.allocTagSet ≠ 0 then (-enomem, dev)
    else if env.initQueue = false then (-enomem, { dev with adminQ := true })
    else if env.getQueue = false then (-enodev, { dev with adminQ := true })
    else (0, { dev with adminQ := true })

def dbBarSize (dbStride nrIoQueues : Nat) : Nat :=
  4096 + (nrIoQueues + 1) * 8 * dbStride

/-- The loop that maps the doorbells, for ever fewer queues. -/
def remapBar (ioremap : Nat → Bool) (dbStride : Nat) : Nat → Option Nat
  | 0 => none
  | nrIoQueues + 1 =>
      if ioremap (dbBarSize dbStride (nrIoQueues + 1)) then
        some (nrIoQueues + 1)
      else remapBar ioremap dbStride nrIoQueues

/-- `nvme_setup_io_queues` up to the number of vectors, or what it returns
before. -/
def ioVectors (dev : QueueDev) (env : IoOutcomes) : Except Int Nat :=
  if env.setQueueCount ≤ 0 then .error env.setQueueCount
  else
    let asked := min env.possibleCpus env.setQueueCount.toNat
    let mapped :=
      if 8192 < dbBarSize dev.dbStride asked then
        remapBar env.ioremap dev.dbStride asked
      else some asked
    match mapped with
    | none => .error (-enomem)
    | some nrIoQueues =>
        .ok (if env.enableMsix nrIoQueues < 0 then
          if env.enableMsi (min nrIoQueues 32) < 0 then 1
          else (env.enableMsi (min nrIoQueues 32)).toNat
        else (env.enableMsix nrIoQueues).toNat)

def nvmeSetupIoQueues (layout : Layout) (dev : QueueDev) (env : IoOutcomes) :
    Int × QueueDev :=
  match dev.ioVectors env with
  | .error result => (result, dev)
  | .ok vecs =>
      let dev := { dev with maxQid := vecs }
      if env.requestIrq ≠ 0 then (env.requestIrq, dev.nvmeFreeQueues 1)
      else
        (0, nvmeCreateIoQueues layout (dev.nvmeFreeQueues (vecs + 1)) env.alloc
          env.create)

def nvmeDevAdd (dev : QueueDev) (env : AddOutcomes) : QueueDev :=
  if env.allocMem = false then dev
  else if env.identify ≠ 0 then dev
  else
    let dev := dev.callNpages .devAdd
    if env.allocTagSet ≠ 0 then dev
    else
      { dev with
        namespaces := dev.namespaces ++
          ((List.range env.nn).map (· + 1)).filter env.allocNs }

def suspendDown : Nat → QueueDev → QueueDev
  | 0, dev => dev
  | i + 1, dev => suspendDown i (dev.nvmeSuspendQueue i)

def nvmeDevShutdown (dev : QueueDev) : QueueDev :=
  suspendDown dev.queueCount dev

end QueueDev

/-- The calls that make up a start, and what runs before, after and beside it.
A start that fails has given the controller up: a reset or a resume begins with
the next `devMap`. -/
inductive StartLabel
  | devMap (result : Int) (cap : Nat)
  | configureAdminQueue (env : AdminOutcomes)
  | thread (result : Int)
  | allocAdminTags (env : TagOutcomes)
  | setupIoQueues (env : IoOutcomes)
  | devAdd (env : AddOutcomes)
  | shutdown
  | removeDisks
  | remove
  /-- `__nvme_alloc_iod` or `__nvme_alloc_phys_iod`, for a request on a
  namespace or for an ioctl on the device that `nvme_dev_open` has let in. -/
  | allocIod
  | submit (owner : Nat)
  /-- The end of a submission. -/
  | resetTag
  | finish (qid tag : Nat)

namespace QueueDev

def callResult (dev : QueueDev) (next : StartStage) (result : Int) : QueueDev :=
  if result = 0 then { dev with stage := next }
  else { dev.nvmeDisableQueue 0 with stage := .rest }

/-- The calls of `nvme_dev_start`, in their order. -/
def startStep (layout : Layout) (s : QueueDev) : StartLabel → Option QueueDev
  | .devMap result cap =>
      if s.stage = .rest then
        some (if result ≠ 0 then s
          else { s.nvmeDevMap cap with stage := .configureAdminQueue })
      else none
  | .configureAdminQueue env =>
      if s.stage = .configureAdminQueue then
        let configured := nvmeConfigureAdminQueue layout s env
        some { configured.2 with
          stage := if configured.1 = 0 then .thread else .rest }
      else none
  | .thread result =>
      if s.stage = .thread then
        some (if result ≠ 0 then { s.nvmeDisableQueue 0 with stage := .rest }
          else { s.nvmeInitQueue with stage := .allocAdminTags })
      else none
  | .allocAdminTags env =>
      if s.stage = .allocAdminTags then
        let tags := s.nvmeAllocAdminTags env
        some (tags.2.callResult .setupIoQueues tags.1)
      else none
  | .setupIoQueues env =>
      if s.stage = .setupIoQueues then
        let setup := nvmeSetupIoQueues layout s env
        some (setup.2.callResult .rest setup.1)
      else none
  | _ => none

/-- What a request does while `dev->queues[1]` is NULL: nothing tests the
pointer, and no slot is there. -/
def throughNull (dev : QueueDev) : QueueDev :=
  { dev with uses := dev.uses ++ [⟨1, 0, false⟩] }

def requestStep (s : QueueDev) : StartLabel → Option QueueDev
  | .allocIod =>
      if s.adminQ ∨ s.namespaces ≠ [] then some (s.callNpages .allocIod)
      else none
  | .submit owner =>
      match s.queues 1 with
      | none => some s.throughNull
      | some nvmeq =>
          let submitted := nvmeq.nvmeSubmitCharioCmd owner
          some { s.setQueue 1 (some submitted.2) with
            uses := s.uses ++ [submitted.1] }
  | .resetTag =>
      match s.queues 1 with
      | none => some s.throughNull
      | some nvmeq =>
          some (s.setQueue 1 (some { nvmeq with nextCharioTag := 0 }))
  | .finish qid tag =>
      (s.queues qid).map (fun nvmeq =>
        let finished := nvmeq.nvmeFinishCmd tag
        { s.setQueue qid (some finished.2) with
          uses := s.uses ++ finished.1.toList })
  | _ => none

def step (layout : Layout) (s : QueueDev) (label : StartLabel) :
    Option QueueDev :=
  match label with
  | .devAdd env =>
      if s.stage = .rest ∧ 1 < s.onlineQueues then some (s.nvmeDevAdd env)
      else none
  | .shutdown => if s.stage = .removed then none else some s.nvmeDevShutdown
  | .removeDisks =>
      if s.stage = .rest then some (s.nvmeFreeQueues 1) else none
  | .remove =>
      -- the work items of probe and reset are flushed first
      if s.stage = .rest then
        some { s.nvmeDevShutdown.nvmeFreeQueues 0 with stage := .removed }
      else none
  | .allocIod | .submit _ | .resetTag | .finish _ _ => s.requestStep label
  | _ => s.startStep layout label

def startWhole (alloc : AllocOutcomes) : List StartLabel :=
  [.devMap 0 255, .configureAdminQueue ⟨255, 0, .granted, 0, 0⟩, .thread 0,
    .allocAdminTags ⟨0, true, true⟩,
    .setupIoQueues
      { possibleCpus := 1
        setQueueCount := 1
        ioremap := fun _ => true
        enableMsix := fun _ => 1
        enableMsi := fun _ => 1
        requestIrq := 0
        alloc := fun _ => alloc
        create := fun _ => ⟨0, 0, 0⟩ }]

def layout32 : Layout := ⟨16, 48, 4, 20⟩

/-- What a step that is taken does, with the guard that it passed. -/
inductive Taken (layout : Layout) (s : QueueDev) :
    StartLabel → QueueDev → Prop
  | unmapped (result : Int) (cap : Nat) (stage : s.stage = .rest) :
      Taken layout s (.devMap result cap) s
  | mapped (result : Int) (cap : Nat) (stage : s.stage = .rest) :
      Taken layout s (.devMap result cap)
        { s.nvmeDevMap cap with stage := .configureAdminQueue }
  | configureAdminQueue (env : AdminOutcomes)
      (stage : s.stage = .configureAdminQueue) :
      Taken layout s (.configureAdminQueue env)
        { (nvmeConfigureAdminQueue layout s env).2 with
          stage := if (nvmeConfigureAdminQueue layout s env).1 = 0 then .thread
            else .rest }
  | threadFailed (result : Int) (stage : s.stage = .thread) :
      Taken layout s (.thread result)
        { s.nvmeDisableQueue 0 with stage := .rest }
  | thread (result : Int) (stage : s.stage = .thread) :
      Taken layout s (.thread result)
        { s.nvmeInitQueue with stage := .allocAdminTags }
  | allocAdminTags (env : TagOutcomes) (stage : s.stage = .allocAdminTags) :
      Taken layout s (.allocAdminTags env)
        ((s.nvmeAllocAdminTags env).2.callResult .setupIoQueues
          (s.nvmeAllocAdminTags env).1)
  | setupIoQueues (env : IoOutcomes) (stage : s.stage = .setupIoQueues) :
      Taken layout s (.setupIoQueues env)
        ((nvmeSetupIoQueues layout s env).2.callResult .rest
          (nvmeSetupIoQueues layout s env).1)
  | devAdd (env : AddOutcomes) (stage : s.stage = .rest)
      (online : 1 < s.onlineQueues) :
      Taken layout s (.devAdd env) (s.nvmeDevAdd env)
  | shutdown : Taken layout s .shutdown s.nvmeDevShutdown
  | removeDisks (stage : s.stage = .rest) :
      Taken layout s .removeDisks (s.nvmeFreeQueues 1)
  | remove (stage : s.stage = .rest) :
      Taken layout s .remove
        { s.nvmeDevShutdown.nvmeFreeQueues 0 with stage := .removed }
  | allocIod (served : s.adminQ ∨ s.namespaces ≠ []) :
      Taken layout s .allocIod (s.callNpages .allocIod)
  | submit (owner : Nat) {nvmeq : DevQueue} (found : s.queues 1 = some nvmeq) :
      Taken layout s (.submit owner)
        { s.setQueue 1 (some (nvmeq.nvmeSubmitCharioCmd owner).2) with
          uses := s.uses ++ [(nvmeq.nvmeSubmitCharioCmd owner).1] }
  | submitNull (owner : Nat) (absent : s.queues 1 = none) :
      Taken layout s (.submit owner) s.throughNull
  | resetTag {nvmeq : DevQueue} (found : s.queues 1 = some nvmeq) :
      Taken layout s .resetTag
        (s.setQueue 1 (some { nvmeq with nextCharioTag := 0 }))
  | resetTagNull (absent : s.queues 1 = none) :
      Taken layout s .resetTag s.throughNull
  | finish (qid tag : Nat) {nvmeq : DevQueue}
      (found : s.queues qid = some nvmeq) :
      Taken layout s (.finish qid tag)
        { s.setQueue qid (some (nvmeq.nvmeFinishCmd tag).2) with
          uses := s.uses ++ (nvmeq.nvmeFinishCmd tag).1.toList }

theorem Taken.of_step {layout : Layout} {s t : QueueDev} {label : StartLabel}
    (steps : s.step layout label = some t) : Taken layout s label t := by
  cases label
  all_goals simp only [step, startStep, requestStep,
    Option.ite_none_right_eq_some, Option.ite_none_left_eq_some,
    Option.map_eq_some_iff, Option.some.injEq] at steps
  case devMap result cap =>
    obtain ⟨stage, rfl⟩ := steps
    split
    next => exact .unmapped result cap stage
    next => exact .mapped result cap stage
  case configureAdminQueue env =>
    obtain ⟨stage, rfl⟩ := steps
    exact .configureAdminQueue env stage
  case thread result =>
    obtain ⟨stage, rfl⟩ := steps
    split
    next => exact .threadFailed result stage
    next => exact .thread result stage
  case allocAdminTags env =>
    obtain ⟨stage, rfl⟩ := steps
    exact .allocAdminTags env stage
  case setupIoQueues env =>
    obtain ⟨stage, rfl⟩ := steps
    exact .setupIoQueues env stage
  case devAdd env =>
    obtain ⟨⟨stage, online⟩, rfl⟩ := steps
    exact .devAdd env stage online
  case shutdown =>
    obtain ⟨_, rfl⟩ := steps
    exact .shutdown
  case removeDisks =>
    obtain ⟨stage, rfl⟩ := steps
    exact .removeDisks stage
  case remove =>
    obtain ⟨stage, rfl⟩ := steps
    exact .remove stage
  case allocIod =>
    obtain ⟨served, rfl⟩ := steps
    exact .allocIod served
  case submit owner =>
    cases found : s.queues 1 with
    | none =>
        rw [found] at steps
        cases steps
        exact .submitNull owner found
    | some nvmeq =>
        rw [found] at steps
        cases steps
        exact .submit owner found
  case resetTag =>
    cases found : s.queues 1 with
    | none =>
        rw [found] at steps
        cases steps
        exact .resetTagNull found
    | some nvmeq =>
        rw [found] at steps
        cases steps
        exact .resetTag found
  case finish qid tag =>
    obtain ⟨nvmeq, found, rfl⟩ := steps
    exact .finish qid tag found

end QueueDev

/-- The start gets as far as the admin queue: the host's page is large enough
for the controller and the controller can be disabled. -/
def AdminOutcomes.ReachesQueue (env : AdminOutcomes) : Prop :=
  capMpsmin env.cap = 0 ∧ 0 ≤ env.disableCtrl

instance (env : AdminOutcomes) : Decidable env.ReachesQueue :=
  inferInstanceAs (Decidable (_ ∧ _))

namespace QueueDev

/-- The page size is the host's whenever the admin queue is reached, because no
controller has a largest page below it. -/
theorem nvmeConfigureAdminQueue_cases (layout : Layout) (dev : QueueDev)
    (env : AdminOutcomes) :
    (¬ env.ReachesQueue ∧ (nvmeConfigureAdminQueue layout dev env).1 ≠ 0 ∧
      (nvmeConfigureAdminQueue layout dev env).2 = dev) ∨
    (env.ReachesQueue ∧ dev.queues 0 = none ∧ ¬ env.alloc.Rings ∧
      nvmeConfigureAdminQueue layout dev env =
        (-enomem, dev.callNpages (.allocQueue 0))) ∨
    (env.ReachesQueue ∧ ∃ base : QueueDev,
      (base = dev ∧ (dev.queues 0).isSome ∨
        dev.queues 0 = none ∧ env.alloc.Rings ∧
        base = (nvmeAllocQueue layout dev 0 nvmeAqDepth env.alloc).dev) ∧
      nvmeConfigureAdminQueue layout dev env =
        base.enableAdminQueue pageShift env) := by
  unfold nvmeConfigureAdminQueue AdminOutcomes.ReachesQueue
  have noWorkAround : ¬ capMpsmax env.cap + 12 < pageShift := by
    unfold pageShift
    omega
  dsimp only
  rw [if_neg noWorkAround]
  split
  next large =>
    refine .inl ⟨?_, show -enodev ≠ 0 by decide, rfl⟩
    rintro ⟨small, _⟩
    rw [small] at large
    exact absurd large (by decide)
  next small =>
    have fits : capMpsmin env.cap = 0 := by
      unfold pageShift at small
      omega
    split
    next failed => exact .inl ⟨fun reaches => by omega, by omega, rfl⟩
    next disabled =>
      have reaches : capMpsmin env.cap = 0 ∧ 0 ≤ env.disableCtrl :=
        ⟨fits, Int.not_lt.mp disabled⟩
      split
      next nvmeq found =>
        exact .inr (.inr ⟨reaches, dev, .inl ⟨rfl, by rw [found]; rfl⟩, rfl⟩)
      next absent =>
        by_cases rings : env.alloc.Rings
        · refine .inr (.inr ⟨reaches, _, .inr ⟨absent, rings, rfl⟩, ?_⟩)
          rw [nvmeAllocQueue_published rings]
        · obtain ⟨isNone, sameDev, _⟩ :=
            nvmeAllocQueue_refused layout dev 0 nvmeAqDepth rings
          refine .inr (.inl ⟨reaches, absent, rings, ?_⟩)
          rw [isNone, sameDev]

end QueueDev

end Chario.Driver
