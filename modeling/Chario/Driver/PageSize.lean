import Chario.Driver.StartFrames

namespace Chario.Driver

open Chario.Library

/-! `page_size` and the divisions by it, from the zeroed device on. -/

def StartLabel.ReachesQueue : StartLabel → Prop
  | .configureAdminQueue env => env.ReachesQueue
  | _ => False

namespace QueueDev

/-- Every slot has the size that a command needs with the controller's page
size. -/
def SlotsSized (layout : Layout) (s : QueueDev) : Prop :=
  EachQueue (fun _ nvmeq => ∀ tag cmd, nvmeq.charioCmds tag = some cmd →
    ∃ shift, s.programmed = some shift ∧
      cmd.size = nvmeCmdSize layout (2 ^ shift)) s

structure PageSizeSound (layout : Layout) (s : QueueDev) : Prop where
  divides : ∀ evaluation ∈ s.evaluations, evaluation.pageSize ≠ 0
  sized : s.SlotsSized layout

structure Fresh (s : QueueDev) : Prop where
  stage : s.stage = .rest ∨ s.stage = .configureAdminQueue ∨ s.stage = .removed
  pageSize : s.pageSize = 0
  queueCount : s.queueCount = 0
  onlineQueues : s.onlineQueues = 0
  queues : ∀ qid, s.queues qid = none
  adminQ : s.adminQ = false
  namespaces : s.namespaces = []

structure Programmed (s : QueueDev) : Prop where
  pageSize : s.pageSize = 2 ^ pageShift
  programmed : s.programmed = some pageShift

def SizedQueue (layout : Layout) (_ : Nat) (nvmeq : DevQueue) : Prop :=
  ∀ tag cmd, nvmeq.charioCmds tag = some cmd →
    cmd.size = nvmeCmdSize layout (2 ^ pageShift)

theorem sizedQueue_ofSlots (layout : Layout) : OfSlots (SizedQueue layout) := by
  intro qid before after same sized tag cmd found
  have sizes := same.sizes tag
  rw [found, Option.map_some] at sizes
  obtain ⟨earlier, wasThere, sameSize⟩ := Option.map_eq_some_iff.mp sizes.symm
  rw [← sameSize]
  exact sized tag earlier wasThere

variable {layout : Layout} {s t : QueueDev} {label : StartLabel}

theorem Fresh.zeroed : Fresh zeroed :=
  ⟨.inl rfl, rfl, rfl, rfl, fun _ => rfl, rfl, rfl⟩

theorem Programmed.of_queuesOnly (programmed : s.Programmed)
    (only : QueuesOnly s t) : t.Programmed :=
  ⟨only.pageSize.trans programmed.pageSize,
    only.programmed.trans programmed.programmed⟩

def DividesOn (s t : QueueDev) : Prop :=
  GrowsBy (fun evaluation => evaluation.pageSize ≠ 0) s.evaluations
    t.evaluations

theorem Programmed.dividesOn (programmed : s.Programmed)
    (only : QueuesOnly s t) : DividesOn s t := by
  refine only.evaluations.mono ?_
  intro evaluation isSize
  rw [isSize, programmed.pageSize]
  decide

theorem enableAdminQueue_programmed (base : QueueDev) (env : AdminOutcomes) :
    (base.enableAdminQueue pageShift env).2.Programmed ∧
      DividesOn base (base.enableAdminQueue pageShift env).2 := by
  have programmed : (base.program pageShift).Programmed := ⟨rfl, rfl⟩
  have only := QueuesOnly.enableAdminQueue base pageShift env
  exact ⟨programmed.of_queuesOnly only, programmed.dividesOn only⟩

theorem Programmed.configure (programmed : s.Programmed) (layout : Layout)
    (env : AdminOutcomes) :
    (nvmeConfigureAdminQueue layout s env).2.Programmed ∧
      DividesOn s (nvmeConfigureAdminQueue layout s env).2 := by
  obtain ⟨_, _, same⟩ | ⟨_, _, _, same⟩ | ⟨_, base, isBase, same⟩ :=
    nvmeConfigureAdminQueue_cases layout s env
  · rw [same]
    exact ⟨programmed, programmed.dividesOn (.refl s)⟩
  · rw [same]
    have only := QueuesOnly.callNpages s (.allocQueue 0)
    exact ⟨programmed.of_queuesOnly only, programmed.dividesOn only⟩
  · rw [same]
    obtain ⟨isProgrammed, divides⟩ := enableAdminQueue_programmed base env
    refine ⟨isProgrammed, ?_⟩
    obtain ⟨rfl, _⟩ | ⟨_, _, rfl⟩ := isBase
    · exact divides
    · exact GrowsBy.trans (programmed.dividesOn (.nvmeAllocQueue ..)) divides

theorem Programmed.step (programmed : s.Programmed)
    (steps : s.step layout label = some t) : t.Programmed ∧ DividesOn s t := by
  obtain ⟨env, _, rfl⟩ | ⟨qid, nvmeq, changed, uses, _, _, rfl⟩ |
      ⟨_, _, rfl⟩ | only := (Taken.of_step steps).cases
  · obtain ⟨isProgrammed, divides⟩ := programmed.configure layout env
    exact ⟨⟨isProgrammed.pageSize, isProgrammed.programmed⟩, divides⟩
  · exact ⟨⟨programmed.pageSize, programmed.programmed⟩, .refl _⟩
  · exact ⟨⟨programmed.pageSize, programmed.programmed⟩, .refl _⟩
  · exact ⟨programmed.of_queuesOnly only, programmed.dividesOn only⟩

theorem Fresh.nvmeDevShutdown_eq (fresh : s.Fresh) : s.nvmeDevShutdown = s := by
  unfold nvmeDevShutdown
  rw [fresh.queueCount]
  rfl

theorem Fresh.nvmeFreeQueues_eq (fresh : s.Fresh) (lowest : Nat) :
    s.nvmeFreeQueues lowest = s := by
  unfold nvmeFreeQueues
  rw [fresh.queueCount]
  rfl

theorem Fresh.callNpages (fresh : s.Fresh) (caller : NpagesCaller) :
    (s.callNpages caller).Fresh :=
  ⟨fresh.stage, fresh.pageSize, fresh.queueCount, fresh.onlineQueues,
    fresh.queues, fresh.adminQ, fresh.namespaces⟩

theorem Fresh.throughNull (fresh : s.Fresh) : s.throughNull.Fresh :=
  ⟨fresh.stage, fresh.pageSize, fresh.queueCount, fresh.onlineQueues,
    fresh.queues, fresh.adminQ, fresh.namespaces⟩

theorem Fresh.setStage (fresh : s.Fresh) {stage : StartStage}
    (early : stage = .rest ∨ stage = .configureAdminQueue ∨ stage = .removed) :
    ({ s with stage := stage } : QueueDev).Fresh :=
  ⟨early, fresh.pageSize, fresh.queueCount, fresh.onlineQueues, fresh.queues,
    fresh.adminQ, fresh.namespaces⟩

/-- The configuration of a fresh device: as soon as it reaches the admin queue
it divides by zero, and with the queue granted the page size is set after
that. -/
theorem Fresh.configure (fresh : s.Fresh) (layout : Layout)
    (env : AdminOutcomes) :
    (¬ env.ReachesQueue ∧ (nvmeConfigureAdminQueue layout s env).1 ≠ 0 ∧
      (nvmeConfigureAdminQueue layout s env).2 = s) ∨
    (env.ReachesQueue ∧
      DividesOn (s.callNpages (.allocQueue 0))
        (nvmeConfigureAdminQueue layout s env).2 ∧
      ((nvmeConfigureAdminQueue layout s env).1 ≠ 0 ∧
          (nvmeConfigureAdminQueue layout s env).2.Fresh ∨
        (nvmeConfigureAdminQueue layout s env).2.Programmed)) := by
  obtain unreached | ⟨reaches, _, _, same⟩ | ⟨reaches, base, isBase, same⟩ :=
    nvmeConfigureAdminQueue_cases layout s env
  · exact .inl unreached
  · right
    rw [same]
    refine ⟨reaches, .refl _, .inl ⟨?_, fresh.callNpages _⟩⟩
    change -enomem ≠ 0
    decide
  · right
    rw [same]
    obtain ⟨programmed, divides⟩ := enableAdminQueue_programmed base env
    refine ⟨reaches, ?_, .inr programmed⟩
    obtain ⟨_, present⟩ | ⟨_, rings, rfl⟩ := isBase
    · rw [fresh.queues 0] at present
      cases present
    · rw [nvmeAllocQueue_published rings] at divides ⊢
      exact divides

/-- A step from a fresh device that does not reach the admin queue divides
nothing. -/
theorem Fresh.step (fresh : s.Fresh) (steps : s.step layout label = some t) :
    (¬ label.ReachesQueue ∧ t.Fresh ∧ t.evaluations = s.evaluations) ∨
    (label.ReachesQueue ∧ DividesOn (s.callNpages (.allocQueue 0)) t ∧
      (t.Fresh ∨ t.Programmed)) := by
  have notStarted : ∀ {stage : StartStage}, s.stage = stage →
      stage = .rest ∨ stage = .configureAdminQueue ∨ stage = .removed := by
    intro stage isStage
    rw [← isStage]
    exact fresh.stage
  cases Taken.of_step steps with
  | unmapped => exact .inl ⟨id, fresh, rfl⟩
  | mapped =>
      exact .inl ⟨id, ⟨.inr (.inl rfl), fresh.pageSize, fresh.queueCount,
        fresh.onlineQueues, fresh.queues, fresh.adminQ, fresh.namespaces⟩, rfl⟩
  | configureAdminQueue env =>
      obtain ⟨unreached, failed, same⟩ | ⟨reaches, divides, after⟩ :=
        fresh.configure layout env
      · rw [if_neg failed, same]
        exact .inl ⟨unreached, fresh.setStage (.inl rfl), rfl⟩
      · refine .inr ⟨reaches, divides, ?_⟩
        obtain ⟨failed, isFresh⟩ | programmed := after
        · rw [if_neg failed]
          exact .inl (isFresh.setStage (.inl rfl))
        · exact .inr ⟨programmed.pageSize, programmed.programmed⟩
  | threadFailed _ stage => exact absurd (notStarted stage) (by decide)
  | thread _ stage => exact absurd (notStarted stage) (by decide)
  | allocAdminTags _ stage => exact absurd (notStarted stage) (by decide)
  | setupIoQueues _ stage => exact absurd (notStarted stage) (by decide)
  | devAdd _ _ online =>
      rw [fresh.onlineQueues] at online
      exact absurd online (by decide)
  | shutdown =>
      rw [fresh.nvmeDevShutdown_eq]
      exact .inl ⟨id, fresh, rfl⟩
  | removeDisks =>
      rw [fresh.nvmeFreeQueues_eq]
      exact .inl ⟨id, fresh, rfl⟩
  | remove =>
      rw [fresh.nvmeDevShutdown_eq, fresh.nvmeFreeQueues_eq]
      exact .inl ⟨id, fresh.setStage (.inr (.inr rfl)), rfl⟩
  | allocIod served =>
      obtain admin | listed := served
      · rw [fresh.adminQ] at admin
        cases admin
      · exact absurd fresh.namespaces listed
  | submit _ found =>
      rw [fresh.queues] at found
      cases found
  | submitNull => exact .inl ⟨id, fresh.throughNull, rfl⟩
  | resetTag found =>
      rw [fresh.queues] at found
      cases found
  | resetTagNull => exact .inl ⟨id, fresh.throughNull, rfl⟩
  | finish _ _ found =>
      rw [fresh.queues] at found
      cases found

structure PageInv (layout : Layout) (s : QueueDev) : Prop where
  queues : EachQueue (SizedQueue layout) s
  pages : s.Fresh ∨ s.Programmed
  zeros : ∀ evaluation ∈ s.evaluations, evaluation.pageSize = 0 →
    evaluation.caller = .allocQueue 0

namespace PageInv

theorem zeroed : PageInv layout zeroed where
  queues _ _ found := nomatch found
  pages := .inl Fresh.zeroed
  zeros _ member := nomatch member

theorem slotsSized (inv : PageInv layout s) : s.SlotsSized layout := by
  intro qid nvmeq found tag cmd isCmd
  obtain fresh | programmed := inv.pages
  · rw [fresh.queues qid] at found
    cases found
  · exact ⟨pageShift, programmed.programmed,
      inv.queues qid nvmeq found tag cmd isCmd⟩

theorem queues_step (inv : PageInv layout s)
    (steps : s.step layout label = some t) :
    EachQueue (SizedQueue layout) t := by
  refine inv.queues.step (sizedQueue_ofSlots layout) steps ?_ ?_
  · intro _ _ tag cmd isCmd
    rw [publishedQueue_charioCmds, if_neg List.not_mem_nil] at isCmd
    cases isCmd
  · intro env _ stage _ _ _ qid depth _ _ _ _ tag cmd isCmd
    obtain fresh | programmed := inv.pages
    · have early := fresh.stage
      rw [stage] at early
      exact absurd early (by decide)
    · rw [publishedQueue_charioCmds] at isCmd
      split at isCmd
      next =>
        cases isCmd
        rw [programmed.pageSize]
      next => cases isCmd

theorem dividesOn_zeros {base : QueueDev} (divides : DividesOn base t)
    (zeros : ∀ evaluation ∈ base.evaluations, evaluation.pageSize = 0 →
      evaluation.caller = .allocQueue 0) :
    ∀ evaluation ∈ t.evaluations, evaluation.pageSize = 0 →
      evaluation.caller = .allocQueue 0 := by
  refine GrowsBy.forall_mem divides zeros ?_
  intro evaluation nonzero isZero
  exact absurd isZero nonzero

theorem step (inv : PageInv layout s) (steps : s.step layout label = some t) :
    PageInv layout t := by
  have queues := inv.queues_step steps
  obtain fresh | programmed := inv.pages
  · obtain ⟨_, isFresh, same⟩ | ⟨_, divides, pages⟩ := fresh.step steps
    · refine ⟨queues, .inl isFresh, ?_⟩
      rw [same]
      exact inv.zeros
    · refine ⟨queues, pages, dividesOn_zeros divides ?_⟩
      intro evaluation member isZero
      cases List.mem_append.mp member with
      | inl earlier => exact inv.zeros evaluation earlier isZero
      | inr new => rw [List.mem_singleton.mp new]
  · obtain ⟨isProgrammed, divides⟩ := programmed.step steps
    exact ⟨queues, .inr isProgrammed, dividesOn_zeros divides inv.zeros⟩

theorem mem_run (inv : PageInv layout s) {labels : List StartLabel}
    (ran : runSteps (QueueDev.step layout) s labels = some t)
    {evaluation : Evaluation} (member : evaluation ∈ s.evaluations) :
    evaluation ∈ t.evaluations := by
  induction labels generalizing s with
  | nil =>
      cases ran
      exact member
  | cons label rest induction =>
      obtain ⟨following, steps, ran⟩ := runSteps_cons_eq_some ran
      refine induction (inv.step steps) ran ?_
      obtain fresh | programmed := inv.pages
      · obtain ⟨_, _, same⟩ | ⟨_, divides, _⟩ := fresh.step steps
        · rw [same]
          exact member
        · exact GrowsBy.mem divides (List.mem_append_left _ member)
      · exact GrowsBy.mem (programmed.step steps).2 member

end PageInv

/-- A run from a fresh device divides by zero as soon as it reaches the admin
queue, and divides nothing before that. -/
theorem Fresh.run (fresh : s.Fresh) (inv : PageInv layout s)
    {labels : List StartLabel}
    (ran : runSteps (QueueDev.step layout) s labels = some t) :
    ((∀ label ∈ labels, ¬ label.ReachesQueue) ∧
      t.evaluations = s.evaluations) ∨
    ((∃ label ∈ labels, label.ReachesQueue) ∧
      ∃ evaluation ∈ t.evaluations, evaluation.pageSize = 0) := by
  induction labels generalizing s with
  | nil =>
      cases ran
      exact .inl ⟨List.forall_mem_nil _, rfl⟩
  | cons label rest induction =>
      obtain ⟨following, steps, ran⟩ := runSteps_cons_eq_some ran
      have next := inv.step steps
      obtain ⟨unreached, isFresh, same⟩ | ⟨reaches, divides, _⟩ :=
        fresh.step steps
      · obtain ⟨none, unchanged⟩ | ⟨⟨later, member, reaches⟩, zero⟩ :=
          induction isFresh next ran
        · exact .inl ⟨List.forall_mem_cons.mpr ⟨unreached, none⟩,
            unchanged.trans same⟩
        · exact .inr ⟨⟨later, List.mem_cons_of_mem label member, reaches⟩, zero⟩
      · refine .inr ⟨⟨label, List.mem_cons_self, reaches⟩,
          ⟨.allocQueue 0, s.pageSize⟩, ?_, fresh.pageSize⟩
        apply next.mem_run ran
        exact GrowsBy.mem divides
          (List.mem_append_right _ (List.mem_singleton_self _))

/-- The divisions of a run are all by a page size exactly when no start of it
reaches the admin queue: the first one that does allocates that queue before the
page size is set.  No other caller divides by zero, and the slots have the size
that belongs to the page size in the controller. -/
theorem npages_nonzero_iff_admin_queue_unreached {labels : List StartLabel}
    (ran : runSteps (QueueDev.step layout) zeroed labels = some s) :
    (s.PageSizeSound layout ↔ ∀ label ∈ labels, ¬ label.ReachesQueue) ∧
      s.SlotsSized layout ∧
      ∀ evaluation ∈ s.evaluations, evaluation.pageSize = 0 →
        evaluation.caller = .allocQueue 0 := by
  have inv : PageInv layout s := by
    refine (Reach.of_runSteps ran).invariant PageInv.zeroed ?_
    intro current following label inv _ steps
    exact inv.step steps
  refine ⟨?_, inv.slotsSized, inv.zeros⟩
  obtain ⟨unreached, same⟩ | ⟨⟨label, member, reaches⟩, evaluation,
    inLog, zero⟩ :=
    Fresh.zeroed.run PageInv.zeroed ran
  · refine iff_of_true ⟨?_, inv.slotsSized⟩ unreached
    rw [same]
    exact List.forall_mem_nil _
  · refine iff_of_false ?_ ?_
    · intro sound
      exact sound.divides evaluation inLog zero
    · intro unreached
      exact unreached label member reaches

/-- A controller whose smallest page is 8 KiB, then one that cannot be
disabled. -/
def failedStarts : List StartLabel :=
  [.devMap 0 (2 ^ 48), .configureAdminQueue ⟨2 ^ 48, 0, .granted, 0, 0⟩,
    .shutdown, .devMap 0 255,
    .configureAdminQueue ⟨255, -enodev, .granted, 0, 0⟩, .shutdown]

def afterRun (labels : List StartLabel) : QueueDev :=
  (runSteps (QueueDev.step layout32) zeroed labels).getD zeroed

theorem npages_nonzero_failed_starts :
    (afterRun failedStarts).PageSizeSound layout32 ∧
      (afterRun (startWhole .granted)).evaluations =
        [⟨.allocQueue 0, 0⟩, ⟨.allocAdminTags, 4096⟩, ⟨.allocQueue 1, 4096⟩] ∧
      (afterRun (startWhole .granted)).SlotsSized layout32 := by
  have failed : runSteps (QueueDev.step layout32) zeroed failedStarts =
      some (afterRun failedStarts) := rfl
  have started : runSteps (QueueDev.step layout32) zeroed
      (startWhole .granted) = some (afterRun (startWhole .granted)) := rfl
  refine ⟨?_, by decide, ?_⟩
  · apply (npages_nonzero_iff_admin_queue_unreached failed).1.mpr
    intro label member
    cases label with
    | configureAdminQueue env =>
        simp only [failedStarts, List.mem_cons, List.not_mem_nil, or_false,
          reduceCtorEq, false_or, StartLabel.configureAdminQueue.injEq]
          at member
        change ¬ env.ReachesQueue
        obtain rfl | rfl := member
        · decide
        · decide
    | _ => exact id
  · exact (npages_nonzero_iff_admin_queue_unreached started).2.1

/-- The first start of a device divides by zero. -/
theorem npages_zero_at_first_start :
    ¬ ∀ labels s, runSteps (QueueDev.step layout32) zeroed labels = some s →
      s.PageSizeSound layout32 := by
  intro sound
  have started : runSteps (QueueDev.step layout32) zeroed
      (startWhole .granted) = some (afterRun (startWhole .granted)) := rfl
  have divided : ⟨.allocQueue 0, 0⟩ ∈
      (afterRun (startWhole .granted)).evaluations := by decide
  exact (sound _ _ started).divides _ divided rfl

end QueueDev

end Chario.Driver
