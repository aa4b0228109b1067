import Chario.Driver.Start

namespace Chario.Driver

open Chario.Library

/-! What the calls of a start leave alone: the loops over the queues change
queues and counters and nothing else. -/

namespace QueueDev

structure QueuesOnly (before after : QueueDev) : Prop where
  pageSize : after.pageSize = before.pageSize
  programmed : after.programmed = before.programmed
  uses : after.uses = before.uses
  evaluations :
    GrowsBy (fun evaluation => evaluation.pageSize = before.pageSize)
    before.evaluations after.evaluations

namespace QueuesOnly

variable {first second third : QueueDev}

theorem of_same (pageSize : second.pageSize = first.pageSize)
    (programmed : second.programmed = first.programmed)
    (uses : second.uses = first.uses)
    (evaluations : second.evaluations = first.evaluations) :
    QueuesOnly first second where
  pageSize := pageSize
  programmed := programmed
  uses := uses
  evaluations := by
    rw [evaluations]
    exact .refl _

theorem refl (dev : QueueDev) : QueuesOnly dev dev :=
  of_same rfl rfl rfl rfl

theorem trans (earlier : QueuesOnly first second)
    (later : QueuesOnly second third) : QueuesOnly first third where
  pageSize := later.pageSize.trans earlier.pageSize
  programmed := later.programmed.trans earlier.programmed
  uses := later.uses.trans earlier.uses
  evaluations := by
    refine earlier.evaluations.trans (later.evaluations.mono ?_)
    intro evaluation atLater
    exact atLater.trans earlier.pageSize

theorem counters (dev : QueueDev) (queueCount onlineQueues : Nat) :
    QueuesOnly dev
      { dev with queueCount := queueCount, onlineQueues := onlineQueues } :=
  of_same rfl rfl rfl rfl

theorem setQueue (dev : QueueDev) (qid : Nat) (nvmeq : Option DevQueue) :
    QueuesOnly dev (dev.setQueue qid nvmeq) :=
  of_same rfl rfl rfl rfl

theorem callNpages (dev : QueueDev) (caller : NpagesCaller) :
    QueuesOnly dev (dev.callNpages caller) where
  pageSize := rfl
  programmed := rfl
  uses := rfl
  evaluations := .snoc _ rfl

theorem freeDown (lowest : Nat) (count : Nat) (dev : QueueDev) :
    QueuesOnly dev (freeDown lowest count dev) := by
  induction count generalizing dev with
  | zero => exact refl dev
  | succ i induction =>
      unfold QueueDev.freeDown
      split
      next =>
        have counted := counters dev (dev.queueCount - 1) dev.onlineQueues
        exact (counted.trans (setQueue _ i none)).trans (induction _)
      next => exact refl dev

theorem nvmeFreeQueues (dev : QueueDev) (lowest : Nat) :
    QueuesOnly dev (dev.nvmeFreeQueues lowest) :=
  freeDown lowest dev.queueCount dev

theorem nvmeSuspendQueue (dev : QueueDev) (qid : Nat) :
    QueuesOnly dev (dev.nvmeSuspendQueue qid) := by
  unfold QueueDev.nvmeSuspendQueue
  split
  next => exact refl dev
  next =>
    split
    next => exact refl dev
    next => exact (counters dev dev.queueCount _).trans (setQueue ..)

theorem nvmeDevShutdown (dev : QueueDev) :
    QueuesOnly dev dev.nvmeDevShutdown := by
  unfold QueueDev.nvmeDevShutdown
  generalize dev.queueCount = count
  induction count generalizing dev with
  | zero => exact refl dev
  | succ i induction => exact (nvmeSuspendQueue dev i).trans (induction _)

theorem nvmeCreateQueue (dev : QueueDev) (qid : Nat)
    (outcomes : CreateOutcomes) :
    QueuesOnly dev (dev.nvmeCreateQueue qid outcomes).2 := by
  unfold QueueDev.nvmeCreateQueue
  have vector := setQueue dev qid ((dev.queues qid).map
    (fun nvmeq => { nvmeq with cqVector := qid - 1 }))
  split
  next => exact vector
  next =>
    split
    next => exact vector
    next =>
      split
      next => exact vector
      next => exact vector.trans (of_same rfl rfl rfl rfl)

theorem createQueues (outcomes : Nat → CreateOutcomes) (left i : Nat)
    (dev : QueueDev) : QueuesOnly dev (createQueues outcomes left i dev) := by
  induction left generalizing i dev with
  | zero => exact refl dev
  | succ left induction =>
      have created := nvmeCreateQueue dev i (outcomes i)
      unfold QueueDev.createQueues
      dsimp only
      split
      next => exact created
      next => exact created.trans (induction _ _)

theorem nvmeAllocQueue (layout : Layout) (dev : QueueDev) (qid depth : Nat)
    (outcomes : AllocOutcomes) :
    QueuesOnly dev (nvmeAllocQueue layout dev qid depth outcomes).dev := by
  have called := callNpages dev (.allocQueue qid)
  by_cases rings : outcomes.Rings
  · rw [nvmeAllocQueue_published rings]
    exact called.trans (of_same rfl rfl rfl rfl)
  · rw [(nvmeAllocQueue_refused layout dev qid depth rings).2.1]
    exact called

theorem allocIoQueues (layout : Layout) (outcomes : Nat → AllocOutcomes)
    (left i : Nat) (dev : QueueDev) :
    QueuesOnly dev (allocIoQueues layout outcomes left i dev) := by
  induction left generalizing i dev with
  | zero => exact refl dev
  | succ left induction =>
      have allocated := nvmeAllocQueue layout dev i dev.qDepth (outcomes i)
      unfold QueueDev.allocIoQueues
      dsimp only
      split
      next => exact allocated
      next => exact allocated.trans (induction _ _)

theorem nvmeSetupIoQueues (layout : Layout) (dev : QueueDev)
    (env : IoOutcomes) :
    QueuesOnly dev (nvmeSetupIoQueues layout dev env).2 := by
  unfold QueueDev.nvmeSetupIoQueues
  split
  next => exact refl dev
  next vecs _ =>
    have renumbered : QueuesOnly dev { dev with maxQid := vecs } :=
      of_same rfl rfl rfl rfl
    split
    next => exact renumbered.trans (nvmeFreeQueues _ 1)
    next =>
      exact ((renumbered.trans (nvmeFreeQueues _ _)).trans
        (allocIoQueues ..)).trans (createQueues ..)

end QueuesOnly

def EachQueue (property : Nat → DevQueue → Prop) (dev : QueueDev) : Prop :=
  ∀ qid nvmeq, dev.queues qid = some nvmeq → property qid nvmeq

def OfSlots (property : Nat → DevQueue → Prop) : Prop :=
  ∀ qid before after, DevQueue.SameSlots before after →
    property qid before → property qid after

section EachQueue

variable {property : Nat → DevQueue → Prop} {dev : QueueDev}

theorem EachQueue.of_queues (each : EachQueue property dev) {other : QueueDev}
    (same : other.queues = dev.queues) : EachQueue property other := by
  intro qid nvmeq found
  rw [same] at found
  exact each qid nvmeq found

theorem setQueue_self (qid : Nat) (nvmeq : Option DevQueue) :
    (dev.setQueue qid nvmeq).queues qid = nvmeq :=
  Function.update_self ..

theorem setQueue_of_ne {qid other : Nat} (different : other ≠ qid)
    (nvmeq : Option DevQueue) :
    (dev.setQueue qid nvmeq).queues other = dev.queues other :=
  Function.update_of_ne different ..

theorem EachQueue.setQueue (each : EachQueue property dev) {qid : Nat}
    {nvmeq : Option DevQueue}
    (holds : ∀ changed, nvmeq = some changed → property qid changed) :
    EachQueue property (dev.setQueue qid nvmeq) := by
  intro other found isFound
  by_cases isQid : other = qid
  · subst isQid
    rw [setQueue_self] at isFound
    exact holds found isFound
  · rw [setQueue_of_ne isQid] at isFound
    exact each other found isFound

theorem EachQueue.nvmeFreeQueues (each : EachQueue property dev)
    (lowest : Nat) : EachQueue property (dev.nvmeFreeQueues lowest) := by
  unfold QueueDev.nvmeFreeQueues
  generalize dev.queueCount = count
  induction count generalizing dev with
  | zero => exact each
  | succ i induction =>
      unfold freeDown
      split
      next =>
        have counted : EachQueue property
            { dev with queueCount := dev.queueCount - 1 } := each.of_queues rfl
        exact induction (counted.setQueue (fun _ isNone => nomatch isNone))
      next => exact each

theorem queueCount_freeDown (dev : QueueDev) (lowest count : Nat) :
    (freeDown lowest count dev).queueCount =
      dev.queueCount - (count - lowest) := by
  induction count generalizing dev with
  | zero => exact (congrArg (dev.queueCount - ·) (Nat.zero_sub lowest)).symm
  | succ i induction =>
      unfold freeDown
      split
      next freed =>
        rw [induction]
        change dev.queueCount - 1 - (i - lowest) = _
        omega
      next kept =>
        have none : i + 1 - lowest = 0 := by omega
        rw [none, Nat.sub_zero]

theorem maxQid_nvmeFreeQueues (lowest : Nat) :
    (dev.nvmeFreeQueues lowest).maxQid = dev.maxQid := by
  unfold QueueDev.nvmeFreeQueues
  generalize dev.queueCount = count
  induction count generalizing dev with
  | zero => rfl
  | succ i induction =>
      unfold freeDown
      split
      next => exact induction
      next => rfl

theorem queueCount_nvmeFreeQueues (lowest : Nat) :
    (dev.nvmeFreeQueues lowest).queueCount = min dev.queueCount lowest := by
  have counted := queueCount_freeDown dev lowest dev.queueCount
  unfold QueueDev.nvmeFreeQueues
  omega

theorem EachQueue.nvmeAllocQueue (each : EachQueue property dev)
    {layout : Layout} {qid depth : Nat} {outcomes : AllocOutcomes}
    (published : outcomes.Rings → property qid (publishedQueue qid depth
      (nvmeCmdSize layout dev.pageSize) (outcomes.slotTags qid))) :
    EachQueue property (nvmeAllocQueue layout dev qid depth outcomes).dev := by
  by_cases rings : outcomes.Rings
  · rw [nvmeAllocQueue_published rings]
    have counted : EachQueue property
        { dev.callNpages (.allocQueue qid) with
          queueCount := dev.queueCount + 1 } := each.of_queues rfl
    apply counted.setQueue
    intro changed isChanged
    cases isChanged
    exact published rings
  · rw [(nvmeAllocQueue_refused layout dev qid depth rings).2.1]
    exact each.of_queues rfl

/-- Queues registered by the loop of `nvme_create_io_queues`: it goes on while
the rings are granted. -/
theorem EachQueue.allocIoQueues (each : EachQueue property dev)
    {layout : Layout} {outcomes : Nat → AllocOutcomes} {left i : Nat}
    (published : ∀ qid depth, i ≤ qid → qid < i + left →
      (∀ earlier, i ≤ earlier → earlier < qid → (outcomes earlier).Rings) →
      (outcomes qid).Rings →
      property qid (publishedQueue qid depth (nvmeCmdSize layout dev.pageSize)
        ((outcomes qid).slotTags qid))) :
    EachQueue property (allocIoQueues layout outcomes left i dev) := by
  induction left generalizing i dev with
  | zero => exact each
  | succ left induction =>
      have allocated : EachQueue property
          (Driver.nvmeAllocQueue layout dev i dev.qDepth (outcomes i)).dev :=
        each.nvmeAllocQueue
          (published i dev.qDepth (Nat.le_refl i) (by omega) (by omega))
      unfold QueueDev.allocIoQueues
      by_cases rings : (outcomes i).Rings
      · rw [nvmeAllocQueue_published rings] at allocated ⊢
        refine induction allocated ?_
        intro qid depth above below earlierRings ownRings
        refine published qid depth (by omega) (by omega) ?_ ownRings
        intro earlier atLeast before
        by_cases isFirst : earlier = i
        · exact isFirst ▸ rings
        · exact earlierRings earlier (by omega) before
      · dsimp only
        rw [(nvmeAllocQueue_refused layout dev i dev.qDepth rings).1]
        exact allocated

theorem EachQueue.nvmeDevAdd (each : EachQueue property dev)
    (env : AddOutcomes) : EachQueue property (dev.nvmeDevAdd env) := by
  unfold QueueDev.nvmeDevAdd
  repeat' split
  all_goals exact each.of_queues rfl

section Stable

variable (stable : OfSlots property)

include stable

theorem EachQueue.setVector (each : EachQueue property dev) (qid : Nat)
    (vector : Int) : EachQueue property (dev.setVector qid vector) := by
  apply each.setQueue
  intro changed isChanged
  obtain ⟨nvmeq, found, rfl⟩ := Option.map_eq_some_iff.mp isChanged
  exact stable qid nvmeq _ ⟨rfl, fun _ => rfl⟩ (each qid nvmeq found)

theorem EachQueue.nvmeSuspendQueue (each : EachQueue property dev)
    (qid : Nat) : EachQueue property (dev.nvmeSuspendQueue qid) := by
  unfold QueueDev.nvmeSuspendQueue
  split
  next => exact each
  next nvmeq found =>
    split
    next => exact each
    next =>
      refine (each.of_queues ?_).setQueue ?_
      · rfl
      · intro changed isChanged
        cases isChanged
        exact stable qid nvmeq _ ⟨rfl, fun _ => rfl⟩ (each qid nvmeq found)

theorem EachQueue.nvmeDevShutdown (each : EachQueue property dev) :
    EachQueue property dev.nvmeDevShutdown := by
  unfold QueueDev.nvmeDevShutdown
  generalize dev.queueCount = count
  induction count generalizing dev with
  | zero => exact each
  | succ i induction => exact induction (each.nvmeSuspendQueue stable i)

theorem EachQueue.nvmeCreateQueue (each : EachQueue property dev) (qid : Nat)
    (outcomes : CreateOutcomes) :
    EachQueue property (dev.nvmeCreateQueue qid outcomes).2 := by
  have vector := each.setVector stable qid (qid - 1)
  unfold QueueDev.nvmeCreateQueue
  split
  next => exact vector
  next =>
    split
    next => exact vector
    next =>
      split
      next => exact vector
      next => exact vector

theorem EachQueue.createQueues (each : EachQueue property dev)
    (outcomes : Nat → CreateOutcomes) (left i : Nat) :
    EachQueue property (createQueues outcomes left i dev) := by
  induction left generalizing i dev with
  | zero => exact each
  | succ left induction =>
      have created := each.nvmeCreateQueue stable i (outcomes i)
      unfold QueueDev.createQueues
      dsimp only
      split
      next => exact created
      next => exact induction created (i + 1)

/-- The queues of `nvme_setup_io_queues`: the new ones have the numbers from
`queue_count` to the number of vectors. -/
theorem EachQueue.nvmeSetupIoQueues (each : EachQueue property dev)
    {layout : Layout} {env : IoOutcomes}
    (published : ∀ vecs, dev.ioVectors env = .ok vecs → env.requestIrq = 0 →
      ∀ qid depth, dev.queueCount ≤ qid → qid ≤ vecs →
      (∀ earlier, dev.queueCount ≤ earlier → earlier < qid →
        (env.alloc earlier).Rings) →
      (env.alloc qid).Rings →
      property qid (publishedQueue qid depth (nvmeCmdSize layout dev.pageSize)
        ((env.alloc qid).slotTags qid))) :
    EachQueue property (nvmeSetupIoQueues layout dev env).2 := by
  unfold QueueDev.nvmeSetupIoQueues
  split
  next => exact each
  next vecs isVecs =>
    have renumbered : EachQueue property { dev with maxQid := vecs } :=
      each.of_queues rfl
    generalize isDev : { dev with maxQid := vecs } = numbered at renumbered ⊢
    dsimp only
    split
    next => exact renumbered.nvmeFreeQueues 1
    next irq =>
      have freed := renumbered.nvmeFreeQueues (vecs + 1)
      refine EachQueue.createQueues stable (freed.allocIoQueues ?_) _ _ _
      rw [queueCount_nvmeFreeQueues, maxQid_nvmeFreeQueues,
        (QueuesOnly.nvmeFreeQueues numbered (vecs + 1)).pageSize, ← isDev]
      intro qid depth above below earlierRings
      -- when there are queues to free none is allocated
      have few : dev.queueCount ≤ vecs + 1 := by
        dsimp only at above below
        omega
      rw [Nat.min_eq_left few] at above below earlierRings
      refine published vecs isVecs (not_not.mp irq) qid depth above ?_
        earlierRings
      dsimp only at above below
      omega

theorem EachQueue.nvmeConfigureAdminQueue (each : EachQueue property dev)
    {layout : Layout} {env : AdminOutcomes}
    (published : property 0 (publishedQueue 0 nvmeAqDepth
      (nvmeCmdSize layout dev.pageSize) [])) :
    EachQueue property (nvmeConfigureAdminQueue layout dev env).2 := by
  obtain ⟨_, _, same⟩ | ⟨_, _, _, same⟩ | ⟨_, base, isBase, same⟩ :=
    nvmeConfigureAdminQueue_cases layout dev env
  · rw [same]
    exact each
  · rw [same]
    exact each.of_queues rfl
  · rw [same]
    have eachBase : EachQueue property base := by
      obtain ⟨rfl, _⟩ | ⟨_, _, rfl⟩ := isBase
      · exact each
      · exact each.nvmeAllocQueue (fun _ => published)
    have programmed : EachQueue property (base.program pageShift) :=
      eachBase.of_queues rfl
    unfold enableAdminQueue
    split
    next => exact programmed.nvmeFreeQueues 0
    next =>
      have vector := programmed.setVector stable 0 0
      dsimp only
      split
      next => exact vector.nvmeFreeQueues 0
      next => exact vector

theorem EachQueue.callResult (each : EachQueue property dev)
    (next : StartStage) (result : Int) :
    EachQueue property (dev.callResult next result) := by
  unfold QueueDev.callResult
  split
  next => exact each.of_queues rfl
  next => exact (each.nvmeSuspendQueue stable 0).of_queues rfl

theorem EachQueue.request (each : EachQueue property dev) {qid : Nat}
    {nvmeq changed : DevQueue} (found : dev.queues qid = some nvmeq)
    (same : nvmeq.SameSlots changed) :
    EachQueue property (dev.setQueue qid (some changed)) := by
  apply each.setQueue
  intro other isOther
  cases isOther
  exact stable qid nvmeq changed same (each qid nvmeq found)

/-- A property of the queues over a step: what is to be shown is that the queues
which the step registers have it. -/
theorem EachQueue.step {s t : QueueDev} (each : EachQueue property s)
    {layout : Layout} {label : StartLabel}
    (steps : s.step layout label = some t)
    (admin : ∀ env, label = .configureAdminQueue env →
      property 0 (publishedQueue 0 nvmeAqDepth
        (nvmeCmdSize layout s.pageSize) []))
    (io : ∀ env, label = .setupIoQueues env → s.stage = .setupIoQueues →
      ∀ vecs, s.ioVectors env = .ok vecs → env.requestIrq = 0 →
      ∀ qid depth, s.queueCount ≤ qid → qid ≤ vecs →
      (∀ earlier, s.queueCount ≤ earlier → earlier < qid →
        (env.alloc earlier).Rings) →
      (env.alloc qid).Rings →
      property qid (publishedQueue qid depth (nvmeCmdSize layout s.pageSize)
        ((env.alloc qid).slotTags qid))) :
    EachQueue property t := by
  cases Taken.of_step steps with
  | unmapped => exact each
  | mapped => exact each.of_queues rfl
  | configureAdminQueue env =>
      exact (each.nvmeConfigureAdminQueue stable (admin env rfl)).of_queues rfl
  | threadFailed => exact (each.nvmeSuspendQueue stable 0).of_queues rfl
  | thread => exact each.of_queues rfl
  | allocAdminTags env =>
      refine EachQueue.callResult stable ?_ _ _
      unfold nvmeAllocAdminTags
      repeat' split
      all_goals exact each.of_queues rfl
  | setupIoQueues env atStage =>
      exact (each.nvmeSetupIoQueues stable (io env rfl atStage)).callResult
        stable _ _
  | devAdd env => exact each.nvmeDevAdd env
  | shutdown => exact each.nvmeDevShutdown stable
  | removeDisks => exact each.nvmeFreeQueues 1
  | remove =>
      exact ((each.nvmeDevShutdown stable).nvmeFreeQueues 0).of_queues rfl
  | allocIod => exact each.of_queues rfl
  | @submit owner nvmeq found =>
      exact (each.request stable found
        (.nvmeSubmitCharioCmd nvmeq owner)).of_queues rfl
  | submitNull => exact each.of_queues rfl
  | resetTag found => exact each.request stable found ⟨rfl, fun _ => rfl⟩
  | resetTagNull => exact each.of_queues rfl
  | @finish qid tag nvmeq found =>
      exact (each.request stable found (.nvmeFinishCmd nvmeq tag)).of_queues rfl

end Stable

end EachQueue

theorem QueuesOnly.enableAdminQueue (base : QueueDev) (shift : Nat)
    (env : AdminOutcomes) :
    QueuesOnly (base.program shift) (base.enableAdminQueue shift env).2 := by
  unfold QueueDev.enableAdminQueue
  dsimp only
  split
  next => exact nvmeFreeQueues _ 0
  next =>
    have vector : QueuesOnly (base.program shift)
        ((base.program shift).setVector 0 0) := setQueue ..
    split
    next => exact vector.trans (nvmeFreeQueues _ 0)
    next => exact vector

theorem uses_nvmeConfigureAdminQueue (layout : Layout) (dev : QueueDev)
    (env : AdminOutcomes) :
    (nvmeConfigureAdminQueue layout dev env).2.uses = dev.uses := by
  obtain ⟨_, _, same⟩ | ⟨_, _, _, same⟩ | ⟨_, base, isBase, same⟩ :=
    nvmeConfigureAdminQueue_cases layout dev env
  · rw [same]
  · rw [same]
    rfl
  · rw [same, (QueuesOnly.enableAdminQueue base pageShift env).uses]
    change base.uses = dev.uses
    obtain ⟨rfl, _⟩ | ⟨_, _, rfl⟩ := isBase
    · rfl
    · exact (QueuesOnly.nvmeAllocQueue ..).uses

theorem QueuesOnly.callResult {before after : QueueDev}
    (only : QueuesOnly before after) (next : StartStage) (result : Int) :
    QueuesOnly before (after.callResult next result) := by
  unfold QueueDev.callResult
  split
  next => exact only.trans (of_same rfl rfl rfl rfl)
  next =>
    exact (only.trans (nvmeSuspendQueue after 0)).trans
      (of_same rfl rfl rfl rfl)

theorem QueuesOnly.nvmeAllocAdminTags (dev : QueueDev) (env : TagOutcomes) :
    QueuesOnly dev (dev.nvmeAllocAdminTags env).2 := by
  have called := callNpages dev .allocAdminTags
  unfold QueueDev.nvmeAllocAdminTags
  split
  next => exact refl dev
  next =>
    dsimp only
    repeat' split
    · exact called
    all_goals exact called.trans (of_same rfl rfl rfl rfl)

theorem QueuesOnly.nvmeDevAdd (dev : QueueDev) (env : AddOutcomes) :
    QueuesOnly dev (dev.nvmeDevAdd env) := by
  have called := callNpages dev .devAdd
  unfold QueueDev.nvmeDevAdd
  dsimp only
  repeat' split
  · exact refl dev
  · exact refl dev
  · exact called
  · exact called.trans (of_same rfl rfl rfl rfl)

/-- A step configures the admin queue, or is a request on one queue, which it
goes through by its slots, or finds no queue for its request, or keeps page
sizes and uses. -/
theorem Taken.cases {s t : QueueDev} {layout : Layout} {label : StartLabel}
    (taken : Taken layout s label t) :
    (∃ env, label = .configureAdminQueue env ∧
      t = { (nvmeConfigureAdminQueue layout s env).2 with
        stage := if (nvmeConfigureAdminQueue layout s env).1 = 0 then .thread
          else .rest }) ∨
    (∃ qid nvmeq changed, ∃ uses : List SlotUse,
      s.queues qid = some nvmeq ∧
      (∀ use ∈ uses, (qid ≠ 0 ∨ nvmeq.qid ≠ 0) ∧
        use = nvmeq.useOf use.tag) ∧
      t = { s.setQueue qid changed with uses := s.uses ++ uses }) ∨
    (s.queues 1 = none ∧
      ((∃ owner, label = .submit owner) ∨ label = .resetTag) ∧
      t = s.throughNull) ∨
    QueuesOnly s t := by
  cases taken with
  | unmapped => exact .inr (.inr (.inr (.refl s)))
  | mapped => exact .inr (.inr (.inr (.of_same rfl rfl rfl rfl)))
  | configureAdminQueue env => exact .inl ⟨env, rfl, rfl⟩
  | threadFailed =>
      exact .inr (.inr (.inr ((QueuesOnly.nvmeSuspendQueue s 0).trans
        (.of_same rfl rfl rfl rfl))))
  | thread => exact .inr (.inr (.inr (.of_same rfl rfl rfl rfl)))
  | allocAdminTags env =>
      exact .inr
        (.inr (.inr ((QueuesOnly.nvmeAllocAdminTags s env).callResult _ _)))
  | setupIoQueues env =>
      exact .inr (.inr (.inr
        ((QueuesOnly.nvmeSetupIoQueues layout s env).callResult _ _)))
  | devAdd env => exact .inr (.inr (.inr (.nvmeDevAdd s env)))
  | shutdown => exact .inr (.inr (.inr (.nvmeDevShutdown s)))
  | removeDisks => exact .inr (.inr (.inr (.nvmeFreeQueues s 1)))
  | remove =>
      exact .inr (.inr (.inr (((QueuesOnly.nvmeDevShutdown s).trans
        (.nvmeFreeQueues _ 0)).trans (.of_same rfl rfl rfl rfl))))
  | allocIod => exact .inr (.inr (.inr (.callNpages s .allocIod)))
  | @submit owner nvmeq found =>
      refine .inr (.inl ⟨1, nvmeq, _, _, found, ?_, rfl⟩)
      intro use member
      rw [List.mem_singleton.mp member]
      exact ⟨.inl Nat.one_ne_zero, rfl⟩
  | submitNull owner absent =>
      exact .inr (.inr (.inl ⟨absent, .inl ⟨owner, rfl⟩, rfl⟩))
  | resetTag =>
      exact .inr (.inr (.inr (.setQueue s 1 _)))
  | resetTagNull absent => exact .inr (.inr (.inl ⟨absent, .inr rfl, rfl⟩))
  | @finish qid tag nvmeq found =>
      refine .inr (.inl ⟨qid, nvmeq, _, _, found, ?_, rfl⟩)
      intro use member
      unfold DevQueue.nvmeFinishCmd at member
      split at member
      next => cases member
      next slot =>
        rw [List.mem_singleton.mp member]
        exact ⟨.inr (fun admin => slot (.inr (.inl admin))), rfl⟩

end QueueDev

end Chario.Driver
