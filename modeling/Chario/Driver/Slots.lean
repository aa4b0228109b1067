import Chario.Driver.StartFrames

namespace Chario.Driver

open Chario.Library
open Chario.Queue (charioCmdCount)

/-! The slots that requests go through, over whole runs. -/

def StartLabel.isRequest : StartLabel → Bool
  | .submit _ | .resetTag | .finish _ _ => true
  | _ => false

namespace QueueDev

def Usable (qid : Nat) (nvmeq : DevQueue) : Prop :=
  qid = 0 ∧ nvmeq.qid = 0 ∨ nvmeq.Whole

theorem usable_ofSlots : OfSlots Usable := by
  intro qid before after same usable
  cases usable with
  | inl admin => exact .inl ⟨admin.1, same.qid.trans admin.2⟩
  | inr whole => exact .inr (same.whole whole)

/-- No slot is refused to an I/O queue that the step allocates, and a request
finds the queue of the character device.  The loop of `nvme_create_io_queues`
comes to a queue when the rings of the earlier ones were granted. -/
def Untorn (s : QueueDev) : StartLabel → Prop
  | .setupIoQueues env =>
      ∀ vecs, s.ioVectors env = .ok vecs → env.requestIrq = 0 →
      ∀ qid, s.queueCount ≤ qid → qid ≤ vecs →
      (∀ earlier, s.queueCount ≤ earlier → earlier < qid →
        (env.alloc earlier).Rings) →
      ¬ (env.alloc qid).Torn
  | .submit _ | .resetTag => s.queues 1 ≠ none
  | _ => True

structure SlotsPresent (s : QueueDev) : Prop where
  queues : EachQueue Usable s
  uses : ∀ use ∈ s.uses, use.tag < charioCmdCount → use.present = true

theorem SlotsPresent.zeroed : SlotsPresent zeroed where
  queues _ _ found := nomatch found
  uses _ member := nomatch member

theorem Usable.queues_step {s t : QueueDev} (each : EachQueue Usable s)
    {layout : Layout} {label : StartLabel} (untorn : s.Untorn label)
    (steps : s.step layout label = some t) : EachQueue Usable t := by
  refine each.step usable_ofSlots steps ?_ ?_
  · intro _ _
    exact .inl ⟨rfl, rfl⟩
  · rintro env rfl _ vecs isVecs irq qid depth above below earlierRings rings
    cases qid with
    | zero => exact .inl ⟨rfl, rfl⟩
    | succ previous =>
        have notTorn := untorn vecs isVecs irq (previous + 1) above below
          earlierRings
        exact .inr
          ((publishedQueue_whole_iff (Nat.succ_pos previous) rings).mpr notTorn)

theorem SlotsPresent.step {s t : QueueDev} (present : s.SlotsPresent)
    {layout : Layout} {label : StartLabel} (untorn : s.Untorn label)
    (steps : s.step layout label = some t) : t.SlotsPresent := by
  refine ⟨Usable.queues_step present.queues untorn steps, ?_⟩
  obtain ⟨env, _, rfl⟩ | ⟨qid, nvmeq, changed, uses, found, through, rfl⟩ |
      ⟨absent, request, _⟩ | only := (Taken.of_step steps).cases
  · rw [uses_nvmeConfigureAdminQueue]
    exact present.uses
  · intro use member below
    cases List.mem_append.mp member with
    | inl earlier => exact present.uses use earlier below
    | inr new =>
        obtain ⟨isIo, isUse⟩ := through use new
        have whole : nvmeq.Whole := by
          refine (present.queues qid nvmeq found).resolve_left ?_
          rintro ⟨zero, admin⟩
          exact isIo.elim (absurd zero) (absurd admin)
        rw [isUse]
        exact whole use.tag below
  · obtain ⟨owner, rfl⟩ | rfl := request
    · exact absurd absent untorn
    · exact absurd absent untorn
  · rw [only.uses]
    exact present.uses

/-- `nvme_alloc_queue` does all or nothing unless it refuses a slot after the
rings are granted.  In a run without such a refusal, and without a request that
finds no queue, no request goes through a slot that is missing. -/
theorem alloc_queue_whole_unless_torn (layout : Layout) :
    (∀ (dev : QueueDev) (qid depth : Nat) (outcomes : AllocOutcomes), 0 < qid →
      ((nvmeAllocQueue layout dev qid depth outcomes).AllOrNothing dev qid ↔
        ¬ outcomes.Torn)) ∧
    ∀ s, Reach (step layout) Untorn zeroed s →
      ∀ use ∈ s.uses, use.tag < charioCmdCount → use.present = true := by
  refine ⟨?_, ?_⟩
  · intro dev qid depth outcomes positive
    exact nvmeAllocQueue_allOrNothing_iff positive
  · intro s reach
    have present : s.SlotsPresent := by
      refine reach.invariant SlotsPresent.zeroed ?_
      intro current following label present untorn steps
      exact present.step untorn steps
    exact present.uses

def sixSubmissions : List StartLabel :=
  List.replicate 6 (.submit 0) ++ [.finish 1 5, .resetTag]

def served (s : QueueDev) (label : StartLabel) : Prop :=
  s.queues 1 ≠ none ∧ label.isRequest

theorem served_untorn (s : QueueDev) (label : StartLabel)
    (isServed : s.served label) : s.Untorn label := by
  cases label with
  | submit _ => exact isServed.1
  | resetTag => exact isServed.1
  | setupIoQueues _ => exact absurd isServed.2 Bool.false_ne_true
  | _ => trivial

instance (s : QueueDev) (label : StartLabel) : Decidable (s.served label) :=
  inferInstanceAs (Decidable (_ ∧ _))

def started (alloc : AllocOutcomes) : QueueDev :=
  (runSteps (step layout32) zeroed (startWhole alloc)).getD zeroed

def afterSubmissions (alloc : AllocOutcomes) : QueueDev :=
  (runSteps (step layout32) zeroed (startWhole alloc ++ sixSubmissions)).getD
    zeroed

theorem alloc_queue_whole_six_submissions :
    (nvmeAllocQueue layout32 zeroed 1 256 .granted).AllOrNothing zeroed 1 ∧
      (afterSubmissions .granted).uses.length = 7 ∧
      ∀ use ∈ (afterSubmissions .granted).uses, use.tag < charioCmdCount →
        use.present = true := by
  have notTorn : ¬ AllocOutcomes.granted.Torn := by
    rintro ⟨_, _, _, refused⟩
    cases refused
  have began : Reach (step layout32) Untorn zeroed (started .granted) := by
    refine Reach.of_allowed ?_ (show runSteps (step layout32) zeroed
      (startWhole .granted) = some (started .granted) by rfl)
    intro label member state
    cases label with
    | setupIoQueues env =>
        simp [startWhole] at member
        intro _ _ _ _ _ _ _
        rw [member]
        exact notTorn
    | submit _ => simp [startWhole] at member
    | resetTag => simp [startWhole] at member
    | _ => trivial
  have submitted : Reach (step layout32) Untorn (started .granted)
      (afterSubmissions .granted) :=
    (Reach.of_runGuarded (show runGuarded (step layout32) served
      (started .granted) sixSubmissions = some (afterSubmissions .granted) by
        rfl)).mono served_untorn
  refine ⟨?_, by rfl, ?_⟩
  · exact ((alloc_queue_whole_unless_torn layout32).1 zeroed 1 256 .granted
      Nat.one_pos).mpr notTorn
  · exact (alloc_queue_whole_unless_torn layout32).2 _ (began.trans submitted)

def sixthRefused : AllocOutcomes :=
  { AllocOutcomes.granted with charioCmd := fun tag => tag ≠ 5 }

/-- The sixth slot is refused.  The queue is registered all the same, and the
sixth sub-command goes through the slot. -/
theorem alloc_queue_torn_slot_used :
    ¬ (nvmeAllocQueue layout32 zeroed 1 256 sixthRefused).AllOrNothing
        zeroed 1 ∧
      ¬ ∀ s, Reach (step layout32) anyStep zeroed s →
        ∀ use ∈ s.uses, use.tag < charioCmdCount → use.present = true := by
  refine ⟨?_, ?_⟩
  · rw [nvmeAllocQueue_allOrNothing_iff Nat.one_pos]
    exact not_not.mpr (by decide)
  · intro present
    have ran : runSteps (step layout32) zeroed
        (startWhole sixthRefused ++ sixSubmissions) =
          some (afterSubmissions sixthRefused) := rfl
    have used : ⟨1, 5, false⟩ ∈ (afterSubmissions sixthRefused).uses := by
      decide
    have isPresent := present _ (Reach.of_runSteps ran) _ used (by decide)
    cases isPresent

end QueueDev

end Chario.Driver
