import Chario.Driver.StartFrames

namespace Chario.Driver

open Chario.Library

/-! `online_queues` beside the queues that hold an interrupt vector, over
starts, resets and removals. -/

/-- No call of `nvme_create_queue` sees an error. -/
def CreateOutcomes.Succeeds (outcomes : CreateOutcomes) : Prop :=
  0 ≤ outcomes.allocCq ∧ 0 ≤ outcomes.allocSq ∧ 0 ≤ outcomes.requestIrq

instance (outcomes : CreateOutcomes) : Decidable outcomes.Succeeds :=
  inferInstanceAs (Decidable (_ ∧ _))

/-- What the calls out of `nvme_setup_io_queues` promise: a queue count made of
two fields of 16 bits, no more vectors than were asked for, and an interrupt
that is requested or not. -/
structure IoOutcomes.Promised (env : IoOutcomes) : Prop where
  setQueueCount : env.setQueueCount ≤ 2 ^ 16
  enableMsix : ∀ most, env.enableMsix most ≤ most
  enableMsi : ∀ most, env.enableMsi most ≤ most
  requestIrq : ∀ qid, (env.create qid).requestIrq ≤ 0

def StartLabel.Promised : StartLabel → Prop
  | .setupIoQueues env => env.Promised
  | _ => True

namespace QueueDev

/-- `nvme_suspend_queue` takes the queue for one that is online. -/
def Registered (s : QueueDev) (qid : Nat) : Prop :=
  ∃ nvmeq, s.queues qid = some nvmeq ∧ nvmeq.cqVector ≠ -1

/-- Every queue that `nvme_create_io_queues` comes to is created.  It allocates
from `count` on and up to the first queue that is refused. -/
def Creates (count most : Nat) (alloc : Nat → AllocOutcomes)
    (create : Nat → CreateOutcomes) : Prop :=
  ∀ qid, 0 < qid → qid ≤ most →
    (∀ earlier, count ≤ earlier → earlier ≤ qid → (alloc earlier).Rings) →
    (create qid).Succeeds

/-- Whether `online_queues` stays right over a step.  A start begins on queues
that are suspended, its thread runs and its queues are created; a shutdown is
not amid a start; the disks are removed when no I/O queue is online. -/
def Orderly (s : QueueDev) : StartLabel → Prop
  | .devMap result _ => result = 0 → s.onlineQueues = 0
  | .thread result => result = 0
  | .setupIoQueues env =>
      ∀ vecs, s.ioVectors env = .ok vecs → env.requestIrq = 0 →
        Creates s.queueCount vecs env.alloc env.create
  | .shutdown => s.stage = .rest ∨ s.stage = .configureAdminQueue
  | .removeDisks => s.onlineQueues < 2
  | _ => True

def StageOnline (s : QueueDev) : Prop :=
  match s.stage with
  | .configureAdminQueue | .thread => s.onlineQueues = 0
  | .allocAdminTags | .setupIoQueues => s.onlineQueues = 1
  | .rest | .removed => True

/-- The array of queues has no gaps, and the queues with a vector are the first
`online_queues` of it.  Between `nvme_configure_admin_queue` and
`nvme_init_queue` the admin queue has its vector and is not counted yet. -/
structure Accounted (s : QueueDev) : Prop where
  present : ∀ qid, (s.queues qid).isSome ↔ qid < s.queueCount
  registered : ∀ qid, s.Registered qid ↔
    if s.stage = .thread then qid = 0 else qid < s.onlineQueues
  stage : s.StageOnline
  bounded : s.queueCount ≤ 2 ^ 16 + 1

/-! ## What the calls do to the counts -/

structure Census (s : QueueDev) (count online : Nat) (vector : Nat → Prop) :
    Prop where
  queueCount : s.queueCount = count
  onlineQueues : s.onlineQueues = online
  present : ∀ qid, (s.queues qid).isSome ↔ qid < count
  registered : ∀ qid, s.Registered qid ↔ vector qid

theorem creates_min {count most : Nat} {alloc : Nat → AllocOutcomes}
    {create : Nat → CreateOutcomes} :
    Creates (min count (most + 1)) most alloc create ↔
    Creates count most alloc create := by
  unfold Creates
  refine forall_congr'
    (fun qid => forall_congr' (fun _ => forall_congr' (fun upTo => ?_)))
  have same : ∀ earlier, earlier ≤ qid → (min count (most + 1) ≤ earlier ↔
      count ≤ earlier) := by omega
  grind

namespace Census

variable {s t : QueueDev} {count online : Nat} {vector other : Nat → Prop}

theorem congr (census : Census s count online vector)
    (same : ∀ qid, vector qid ↔ other qid) : Census s count online other where
  queueCount := census.queueCount
  onlineQueues := census.onlineQueues
  present := census.present
  registered qid := (census.registered qid).trans (same qid)

theorem of_same (census : Census s count online vector)
    (queues : t.queues = s.queues) (queueCount : t.queueCount = s.queueCount)
    (onlineQueues : t.onlineQueues = s.onlineQueues) :
    Census t count online vector where
  queueCount := queueCount.trans census.queueCount
  onlineQueues := onlineQueues.trans census.onlineQueues
  present qid := by
    rw [queues]
    exact census.present qid
  registered qid := by
    unfold Registered
    rw [queues]
    exact census.registered qid

theorem recount (census : Census s count online vector) (changed : Nat) :
    Census { s with onlineQueues := changed } count changed vector where
  queueCount := census.queueCount
  onlineQueues := rfl
  present := census.present
  registered := census.registered

theorem lt_count (census : Census s count online vector) {qid : Nat}
    (has : vector qid) : qid < count := by
  obtain ⟨nvmeq, found, _⟩ := (census.registered qid).mpr has
  refine (census.present qid).mp ?_
  rw [found]
  rfl

theorem setQueue (census : Census s count online vector) {qid : Nat}
    (below : qid < count) (nvmeq : DevQueue) :
    Census (s.setQueue qid (some nvmeq)) count online
      (fun place =>
        if place = qid then nvmeq.cqVector ≠ -1 else vector place) where
  queueCount := census.queueCount
  onlineQueues := census.onlineQueues
  present place := by
    by_cases isQid : place = qid
    · subst isQid
      rw [setQueue_self]
      exact iff_of_true rfl below
    · rw [setQueue_of_ne isQid]
      exact census.present place
  registered place := by
    unfold Registered
    by_cases isQid : place = qid
    · subst isQid
      rw [setQueue_self, if_pos rfl]
      refine ⟨?_, fun has => ⟨nvmeq, rfl, has⟩⟩
      rintro ⟨found, isFound, has⟩
      cases isFound
      exact has
    · rw [setQueue_of_ne isQid, if_neg isQid]
      exact census.registered place

theorem request (census : Census s count online vector) {qid : Nat}
    {nvmeq changed : DevQueue} (found : s.queues qid = some nvmeq)
    (same : changed.cqVector = nvmeq.cqVector) :
    Census (s.setQueue qid (some changed)) count online vector := by
  have below : qid < count := by
    refine (census.present qid).mp ?_
    rw [found]
    rfl
  refine (census.setQueue below changed).congr ?_
  intro place
  split
  next isQid =>
    subst isQid
    rw [same, ← census.registered place]
    refine ⟨fun has => ⟨nvmeq, found, has⟩, ?_⟩
    rintro ⟨other, isOther, has⟩
    rw [found] at isOther
    cases isOther
    exact has
  next => exact Iff.rfl

theorem setVector (census : Census s count online vector) {qid : Nat}
    (below : qid < count) (value : Int) :
    Census (s.setVector qid value) count online
      (fun place => if place = qid then value ≠ -1 else vector place) := by
  obtain ⟨nvmeq, found⟩ := Option.isSome_iff_exists.mp
    ((census.present qid).mpr below)
  unfold QueueDev.setVector
  rw [found]
  exact census.setQueue below _

theorem suspend (census : Census s count online vector) {qid : Nat}
    (has : vector qid) :
    Census (s.nvmeSuspendQueue qid) count ((online + 2 ^ 32 - 1) % 2 ^ 32)
      (fun place => vector place ∧ place ≠ qid) := by
  obtain ⟨nvmeq, found, isVector⟩ := (census.registered qid).mpr has
  have below := census.lt_count has
  unfold nvmeSuspendQueue
  rw [found]
  dsimp only
  rw [if_neg isVector, census.onlineQueues]
  refine ((census.recount _).setQueue below _).congr ?_
  intro place
  split
  next isQid => simp [isQid]
  next isOther => simp [isOther]

theorem suspend_idle (census : Census s count online vector) {qid : Nat}
    (idle : ¬ vector qid) : s.nvmeSuspendQueue qid = s := by
  unfold nvmeSuspendQueue
  split
  next => rfl
  next nvmeq found =>
    rw [if_pos]
    by_contra isVector
    exact idle ((census.registered qid).mp ⟨nvmeq, found, isVector⟩)

/-! ## The loops -/

theorem freeDown (census : Census s count online vector) (lowest : Nat) :
    Census (QueueDev.freeDown lowest count s) (min count lowest) online
      (fun place => vector place ∧ place < lowest) := by
  induction count generalizing s vector with
  | zero =>
      rw [Nat.zero_min]
      refine census.congr ?_
      intro place
      refine ⟨fun has => ?_, And.left⟩
      exact absurd (census.lt_count has) (Nat.not_lt_zero place)
  | succ last induction =>
      unfold QueueDev.freeDown
      split
      next freed =>
        have without : Census
            ({ s with queueCount := s.queueCount - 1 }.setQueue last none) last
            online (fun place => vector place ∧ place < last) := by
          refine ⟨?_, census.onlineQueues, ?_, ?_⟩
          · change s.queueCount - 1 = last
            rw [census.queueCount, Nat.add_sub_cancel]
          · intro place
            by_cases isLast : place = last
            · subst isLast
              rw [setQueue_self]
              simp
            · rw [setQueue_of_ne isLast]
              exact (census.present place).trans (by omega)
          · intro place
            unfold Registered
            by_cases isLast : place = last
            · subst isLast
              rw [setQueue_self]
              simp
            · rw [setQueue_of_ne isLast]
              refine (census.registered place).trans
                ⟨fun has => ⟨has, ?_⟩, And.left⟩
              have below := census.lt_count has
              omega
        have rest := induction without
        rw [Nat.min_eq_right freed] at rest
        rw [Nat.min_eq_right (Nat.le_succ_of_le freed)]
        refine rest.congr ?_
        intro place
        constructor
        · rintro ⟨⟨has, _⟩, kept⟩
          exact ⟨has, kept⟩
        · rintro ⟨has, kept⟩
          exact ⟨⟨has, by omega⟩, kept⟩
      next kept =>
        rw [Nat.min_eq_left (by omega)]
        refine census.congr ?_
        intro place
        refine ⟨fun has => ⟨has, ?_⟩, And.left⟩
        have below := census.lt_count has
        omega

theorem nvmeFreeQueues (census : Census s count online vector) (lowest : Nat) :
    Census (s.nvmeFreeQueues lowest) (min count lowest) online
      (fun place => vector place ∧ place < lowest) := by
  unfold QueueDev.nvmeFreeQueues
  rw [census.queueCount]
  exact census.freeDown lowest

/-- A new queue has vector 0 from `kzalloc_node`. -/
theorem nvmeAllocQueue (census : Census s count online vector) (layout : Layout)
    (depth : Nat) {outcomes : AllocOutcomes} (rings : outcomes.Rings) :
    Census (nvmeAllocQueue layout s count depth outcomes).dev (count + 1) online
      (fun place => vector place ∨ place = count) := by
  rw [nvmeAllocQueue_published rings]
  refine ⟨congrArg (· + 1) census.queueCount, census.onlineQueues, ?_, ?_⟩
  · intro place
    by_cases isNew : place = count
    · subst isNew
      simp
    · dsimp only
      rw [Function.update_of_ne isNew]
      exact (census.present place).trans (by omega)
  · intro place
    unfold Registered
    by_cases isNew : place = count
    · subst isNew
      simp [publishedQueue]
    · dsimp only
      rw [Function.update_of_ne isNew]
      exact (census.registered place).trans (by simp [isNew])

theorem allocIoQueues (census : Census s count online vector) (layout : Layout)
    (outcomes : Nat → AllocOutcomes) (left : Nat) :
    ∃ grown,
      Census (QueueDev.allocIoQueues layout outcomes left count s) grown online
        (fun place => vector place ∨ count ≤ place ∧ place < grown) ∧
      ∀ place, place < grown ↔ place < count ∨ place < count + left ∧
        ∀ earlier, count ≤ earlier → earlier ≤ place →
        (outcomes earlier).Rings := by
  induction left generalizing s count vector with
  | zero =>
      refine ⟨count, census.congr (fun place => ?_), fun place => ?_⟩
      · simp only [iff_self_or]
        omega
      · exact ⟨.inl, fun reached => reached.elim id And.left⟩
  | succ left induction =>
      unfold QueueDev.allocIoQueues
      by_cases rings : (outcomes count).Rings
      · have allocated := census.nvmeAllocQueue layout s.qDepth rings
        rw [nvmeAllocQueue_published rings] at allocated ⊢
        obtain ⟨grown, after, reaches⟩ := induction allocated
        refine ⟨grown, after.congr (fun place => ?_), fun place => ?_⟩
        · have atLeast := reaches count
          constructor
          · rintro ((has | isNew) | ⟨above, below⟩)
            · exact .inl has
            · exact .inr ⟨isNew.ge, isNew ▸ atLeast.mpr (.inl (by omega))⟩
            · exact .inr ⟨by omega, below⟩
          · rintro (has | ⟨above, below⟩)
            · exact .inl (.inl has)
            · by_cases isNew : place = count
              · exact .inl (.inr isNew)
              · exact .inr ⟨by omega, below⟩
        · rw [reaches place]
          constructor
          · rintro (below | ⟨below, granted⟩)
            · by_cases isNew : place = count
              · refine .inr ⟨by omega, fun earlier above upTo => ?_⟩
                rw [show earlier = count by omega]
                exact rings
              · exact .inl (by omega)
            · refine .inr ⟨by omega, fun earlier above upTo => ?_⟩
              by_cases isNew : earlier = count
              · rw [isNew]
                exact rings
              · exact granted earlier (by omega) upTo
          · rintro (below | ⟨below, granted⟩)
            · exact .inl (by omega)
            · by_cases isNew : place = count
              · exact .inl (by omega)
              · exact .inr ⟨by omega, fun earlier above upTo =>
                  granted earlier (by omega) upTo⟩
      · obtain ⟨isNone, sameDev, _⟩ :=
          nvmeAllocQueue_refused layout s count s.qDepth rings
        dsimp only
        rw [isNone, sameDev]
        have same :
            Census (s.callNpages (.allocQueue count)) count online vector :=
          census.of_same rfl rfl rfl
        refine ⟨count, same.congr (fun place => ?_), fun place => ?_⟩
        · simp only [iff_self_or]
          omega
        · simp only [iff_self_or]
          rintro ⟨_, granted⟩
          by_contra above
          exact rings
            (granted count (Nat.le_refl count) (Nat.le_of_not_lt above))

theorem nvmeCreateQueue (census : Census s count online vector) {qid : Nat}
    (positive : 0 < qid) (below : qid < count) (small : online + 1 < 2 ^ 32)
    {outcomes : CreateOutcomes} (succeeds : outcomes.Succeeds) :
    Census (s.nvmeCreateQueue qid outcomes).2 count (online + 1)
      (fun place => vector place ∨ place = qid) ∧
    (s.nvmeCreateQueue qid outcomes).1 = outcomes.requestIrq := by
  obtain ⟨allocCq, allocSq, requestIrq⟩ := succeeds
  unfold QueueDev.nvmeCreateQueue
  rw [if_neg (by omega), if_neg (by omega), if_neg (by omega)]
  refine ⟨?_, rfl⟩
  have vectored := census.setVector below (qid - 1)
  unfold nvmeInitQueue
  rw [vectored.onlineQueues, Nat.mod_eq_of_lt small]
  refine (vectored.recount (online + 1)).congr ?_
  intro place
  split
  next isQid =>
    refine iff_of_true ?_ (.inr isQid)
    omega
  next isOther => simp [isOther]

/-- A queue whose creation fails keeps the vector and is not counted. -/
theorem nvmeCreateQueue_failed
    (census : Census s count online vector) {qid : Nat}
    (positive : 0 < qid) (below : qid < count) {outcomes : CreateOutcomes}
    (fails : ¬ outcomes.Succeeds) :
    (s.nvmeCreateQueue qid outcomes).1 ≠ 0 ∧
      (s.nvmeCreateQueue qid outcomes).2.onlineQueues = online ∧
      (s.nvmeCreateQueue qid outcomes).2.Registered qid := by
  have vectored := census.setVector below (qid - 1)
  have registered : (s.setVector qid (qid - 1)).Registered qid := by
    refine (vectored.registered qid).mpr ?_
    rw [if_pos rfl]
    omega
  unfold CreateOutcomes.Succeeds at fails
  unfold QueueDev.nvmeCreateQueue
  dsimp only
  split
  next => exact ⟨by omega, vectored.onlineQueues, registered⟩
  next =>
    split
    next => exact ⟨by omega, vectored.onlineQueues, registered⟩
    next =>
      rw [if_pos (by omega)]
      exact ⟨by omega, vectored.onlineQueues, registered⟩

section CreateQueues

variable {outcomes : Nat → CreateOutcomes}

theorem createQueues {left : Nat} (census : Census s count online vector)
    (counted : ∀ place, place < online → vector place) (positive : 0 < online)
    (ends : online + left = count) (small : count < 2 ^ 32)
    (promised : ∀ qid, (outcomes qid).requestIrq ≤ 0)
    (succeed : ∀ qid, online ≤ qid → qid < count → (outcomes qid).Succeeds) :
    Census (QueueDev.createQueues outcomes left online s) count count
      (· < count) := by
  induction left generalizing s online vector with
  | zero =>
      obtain rfl : online = count := ends
      exact census.congr (fun place => ⟨census.lt_count, counted place⟩)
  | succ left induction =>
      have here := succeed online (Nat.le_refl online) (by omega)
      obtain ⟨created, result⟩ :=
        census.nvmeCreateQueue positive (by omega) (by omega) here
      have isZero : (outcomes online).requestIrq = 0 :=
        Int.le_antisymm (promised online) here.2.2
      unfold QueueDev.createQueues
      dsimp only
      rw [result, isZero, if_neg (by decide)]
      refine induction created ?_ (Nat.succ_pos online) (by omega) ?_
      · intro place below
        by_cases isNew : place = online
        · exact .inr isNew
        · exact .inl (counted place (by omega))
      · intro qid above below
        exact succeed qid (by omega) below

theorem createQueues_failed {left qid : Nat}
    (census : Census s count online vector)
    (positive : 0 < online) (ends : online + left = count)
    (small : count < 2 ^ 32)
    (promised : ∀ qid, (outcomes qid).requestIrq ≤ 0)
    (above : online ≤ qid) (below : qid < count)
    (fails : ¬ (outcomes qid).Succeeds) :
    ∃ last, (QueueDev.createQueues outcomes left online s).onlineQueues = last ∧
      (QueueDev.createQueues outcomes left online s).Registered last := by
  induction left generalizing s online vector with
  | zero => omega
  | succ left induction =>
      unfold QueueDev.createQueues
      dsimp only
      by_cases here : (outcomes online).Succeeds
      · obtain ⟨created, result⟩ :=
          census.nvmeCreateQueue positive (by omega) (by omega) here
        have isZero : (outcomes online).requestIrq = 0 :=
          Int.le_antisymm (promised online) here.2.2
        have isOther : online ≠ qid := fun isQid => fails (isQid ▸ here)
        rw [result, isZero, if_neg (by decide)]
        exact induction created (Nat.succ_pos online) (by omega) (by omega)
      · obtain ⟨result, uncounted, registered⟩ :=
          census.nvmeCreateQueue_failed positive (by omega) here
        rw [if_pos result]
        exact ⟨online, uncounted, registered⟩

/-- `nvme_create_io_queues` when every queue is created that it comes to. -/
theorem nvmeCreateIoQueues (census : Census s count 1 (· < 1))
    (positive : 0 < count)
    {most : Nat} (isMost : s.maxQid = most) (fits : count ≤ most + 1)
    (small : most + 1 < 2 ^ 32) (layout : Layout)
    {alloc : Nat → AllocOutcomes}
    (promised : ∀ qid, (outcomes qid).requestIrq ≤ 0)
    (creates : Creates count most alloc outcomes) :
    ∃ grown, grown ≤ most + 1 ∧
      Census (QueueDev.nvmeCreateIoQueues layout s alloc outcomes) grown grown
        (· < grown) := by
  obtain ⟨grown, allocated, reaches⟩ :=
    census.allocIoQueues layout alloc (most + 1 - count)
  have within : ∀ place, place < grown → place ≤ most := by
    intro place below
    obtain inside | ⟨inside, _⟩ := (reaches place).mp below
    all_goals omega
  have first : 0 < grown := (reaches 0).mpr (.inl positive)
  have last := within (grown - 1) (by omega)
  refine ⟨grown, by omega, ?_⟩
  unfold QueueDev.nvmeCreateIoQueues
  dsimp only
  rw [census.queueCount, isMost, allocated.queueCount, allocated.onlineQueues]
  refine allocated.createQueues (fun _ => .inl) Nat.zero_lt_one
    (by omega) (by omega)
    promised ?_
  intro qid above below
  refine creates qid above (within qid below) ?_
  intro earlier atLeast upTo
  obtain inside | ⟨_, granted⟩ := (reaches qid).mp below
  · omega
  · exact granted earlier atLeast upTo

theorem nvmeCreateIoQueues_failed (census : Census s count 1 (· < 1))
    {most : Nat} (isMost : s.maxQid = most) (fits : count ≤ most + 1)
    (small : most + 1 < 2 ^ 32) (layout : Layout) {alloc : Nat → AllocOutcomes}
    (promised : ∀ qid, (outcomes qid).requestIrq ≤ 0)
    (fails : ¬ Creates count most alloc outcomes) :
    ∃ last,
      (QueueDev.nvmeCreateIoQueues layout s alloc outcomes).onlineQueues =
        last ∧
      (QueueDev.nvmeCreateIoQueues layout s alloc outcomes).Registered
        last := by
  obtain ⟨grown, allocated, reaches⟩ :=
    census.allocIoQueues layout alloc (most + 1 - count)
  unfold Creates at fails
  push Not at fails
  obtain ⟨qid, above, upTo, granted, fails⟩ := fails
  have below : qid < grown := by
    refine (reaches qid).mpr ?_
    by_cases inside : qid < count
    · exact .inl inside
    · exact .inr ⟨by omega, granted⟩
  have fitting : grown ≤ most + 1 := by
    by_contra beyond
    obtain inside | ⟨inside, _⟩ := (reaches (most + 1)).mp (by omega)
    all_goals omega
  unfold QueueDev.nvmeCreateIoQueues
  dsimp only
  rw [census.queueCount, isMost, allocated.queueCount, allocated.onlineQueues]
  exact allocated.createQueues_failed Nat.zero_lt_one (by omega)
    (by omega) promised above
    below fails

end CreateQueues

theorem enableAdminQueue (census : Census s count 0 vector)
    (positive : 0 < count)
    (only : ∀ place, vector place → place = 0) (shift : Nat)
    (env : AdminOutcomes) :
    ((s.enableAdminQueue shift env).1 ≠ 0 ∧
      Census (s.enableAdminQueue shift env).2 0 0 (· < 0)) ∨
    ((s.enableAdminQueue shift env).1 = 0 ∧
      Census (s.enableAdminQueue shift env).2 count 0 (· = 0)) := by
  have programmed : Census (s.program shift) count 0 vector :=
    census.of_same rfl rfl rfl
  have freed : ∀ {dev : QueueDev} {vector : Nat → Prop},
      Census dev count 0 vector →
      Census (dev.nvmeFreeQueues 0) 0 0 (· < 0) := by
    intro dev vector census
    have freed := census.nvmeFreeQueues 0
    rw [Nat.min_zero] at freed
    refine freed.congr (fun place => ?_)
    exact and_iff_right_of_imp
      (fun below => absurd below (Nat.not_lt_zero place))
  unfold QueueDev.enableAdminQueue
  dsimp only
  split
  next failed => exact .inl ⟨failed, freed programmed⟩
  next =>
    have vectored :
        Census ((s.program shift).setVector 0 0) count 0 (· = 0) := by
      refine (programmed.setVector positive 0).congr ?_
      intro place
      split
      next isAdmin => exact iff_of_true (by decide) isAdmin
      next isOther =>
          exact iff_of_false (fun has => isOther (only place has)) isOther
    split
    next failed => exact .inl ⟨failed, freed vectored⟩
    next => exact .inr ⟨rfl, vectored⟩

theorem suspendDown_idle (census : Census s count online vector)
    {first places : Nat}
    (idle : ∀ place, first ≤ place → ¬ vector place) (covers : first ≤ places) :
    QueueDev.suspendDown places s = QueueDev.suspendDown first s := by
  induction places, covers using Nat.le_induction with
  | base => rfl
  | succ last above induction =>
      rw [← induction]
      exact congrArg (QueueDev.suspendDown last)
        (census.suspend_idle (idle last above))

theorem suspendDown (census : Census s count online (· < online))
    (small : online ≤ 2 ^ 32) :
    Census (QueueDev.suspendDown online s) count 0 (fun _ => False) := by
  induction online generalizing s with
  | zero =>
      exact census.congr (fun place => iff_of_false (Nat.not_lt_zero place) id)
  | succ last induction =>
      have suspended := census.suspend (Nat.lt_succ_self last)
      have less : (last + 1 + 2 ^ 32 - 1) % 2 ^ 32 = last := by omega
      rw [less] at suspended
      refine induction (suspended.congr (fun place => ?_)) (by omega)
      omega

theorem nvmeDevShutdown (census : Census s count online (· < online))
    (small : online ≤ 2 ^ 32) :
    Census s.nvmeDevShutdown count 0 (fun _ => False) := by
  have covers : online ≤ count := by
    by_contra above
    exact Nat.lt_irrefl count (census.lt_count (Nat.lt_of_not_le above))
  unfold QueueDev.nvmeDevShutdown
  rw [census.queueCount,
    census.suspendDown_idle (fun _ => Nat.not_lt.mpr) covers]
  exact census.suspendDown small

/-- The admin queue that has its vector and is not counted is taken away all the
same. -/
theorem suspend_uncounted (census : Census s count 0 (· = 0)) :
    (s.nvmeSuspendQueue 0).onlineQueues = 2 ^ 32 - 1 := by
  rw [(census.suspend rfl).onlineQueues]
  omega

theorem nvmeDevShutdown_uncounted (census : Census s count 0 (· = 0)) :
    s.nvmeDevShutdown.onlineQueues = 2 ^ 32 - 1 := by
  have positive : 0 < count := census.lt_count rfl
  unfold QueueDev.nvmeDevShutdown
  rw [census.queueCount,
    census.suspendDown_idle (fun _ => Nat.ne_of_gt) positive]
  exact census.suspend_uncounted

end Census

/-! ## Steps -/

theorem stage_setQueue (s : QueueDev) (qid : Nat) (nvmeq : Option DevQueue) :
    (s.setQueue qid nvmeq).stage = s.stage :=
  rfl

theorem stage_recount (s : QueueDev) (online : Nat) :
    ({ s with onlineQueues := online } : QueueDev).stage = s.stage :=
  rfl

theorem stage_nvmeSuspendQueue (s : QueueDev) (qid : Nat) :
    (s.nvmeSuspendQueue qid).stage = s.stage := by
  unfold nvmeSuspendQueue
  split
  next => rfl
  next =>
    split
    next => rfl
    next => exact (stage_setQueue _ _ _).trans (stage_recount _ _)

theorem stage_nvmeDevShutdown (s : QueueDev) :
    s.nvmeDevShutdown.stage = s.stage := by
  unfold nvmeDevShutdown
  generalize s.queueCount = places
  induction places generalizing s with
  | zero => rfl
  | succ last induction =>
      exact (induction _).trans (stage_nvmeSuspendQueue s last)

theorem stage_nvmeFreeQueues (s : QueueDev) (lowest : Nat) :
    (s.nvmeFreeQueues lowest).stage = s.stage := by
  unfold nvmeFreeQueues
  generalize s.queueCount = places
  induction places generalizing s with
  | zero => rfl
  | succ last induction =>
      unfold freeDown
      split
      next => exact induction _
      next => rfl

namespace Accounted

variable {s t : QueueDev} {count online : Nat}

theorem census (accounted : s.Accounted) :
    Census s s.queueCount s.onlineQueues
      (fun qid =>
        if s.stage = .thread then qid = 0 else qid < s.onlineQueues) :=
  ⟨rfl, rfl, accounted.present, accounted.registered⟩

theorem counted (accounted : s.Accounted) (stage : s.stage ≠ .thread) :
    Census s s.queueCount s.onlineQueues (· < s.onlineQueues) := by
  have census := accounted.census
  simp only [stage, if_false] at census
  exact census

theorem uncounted (accounted : s.Accounted) (stage : s.stage = .thread) :
    Census s s.queueCount 0 (· = 0) := by
  have census := accounted.census
  have none := accounted.stage
  unfold StageOnline at none
  rw [stage] at none
  simp only [stage, if_true, none] at census
  exact census

theorem of_census (census : Census s count online (· < online))
    (stage : s.stage ≠ .thread) (atStage : s.StageOnline)
    (bounded : count ≤ 2 ^ 16 + 1) : s.Accounted where
  present qid := by
    rw [census.queueCount]
    exact census.present qid
  registered qid := by
    rw [if_neg stage, census.onlineQueues]
    exact census.registered qid
  stage := atStage
  bounded := census.queueCount.trans_le bounded

theorem online_le (accounted : s.Accounted) (stage : s.stage ≠ .thread) :
    s.onlineQueues ≤ s.queueCount := by
  by_contra above
  exact Nat.lt_irrefl _
    ((accounted.counted stage).lt_count (Nat.lt_of_not_le above))

theorem restage (census : Census s count online (· < online))
    (bounded : count ≤ 2 ^ 16 + 1) : Accounted { s with stage := .rest } :=
  of_census (census.of_same rfl rfl rfl) nofun trivial bounded

theorem devMap_iff (accounted : s.Accounted) (stage : s.stage = .rest)
    (result : Int) (cap : Nat) :
    (if result ≠ 0 then s
      else { s.nvmeDevMap cap with stage := .configureAdminQueue }).Accounted ↔
      (result = 0 → s.onlineQueues = 0) := by
  by_cases mapped : result = 0
  · rw [if_neg (not_not.mpr mapped)]
    refine ⟨fun after _ => after.stage, fun none => ?_⟩
    have census := accounted.counted (by rw [stage]; nofun)
    have after : Census { s.nvmeDevMap cap with stage := .configureAdminQueue }
        s.queueCount s.onlineQueues (· < s.onlineQueues) :=
      census.of_same rfl rfl rfl
    exact of_census after nofun (none mapped) accounted.bounded
  · rw [if_pos mapped]
    exact iff_of_true accounted (absurd · mapped)

theorem thread_iff (accounted : s.Accounted) (stage : s.stage = .thread)
    (result : Int) :
    (if result ≠ 0 then { s.nvmeDisableQueue 0 with stage := .rest }
      else { s.nvmeInitQueue with stage := .allocAdminTags }).Accounted ↔
      result = 0 := by
  have census := accounted.uncounted stage
  by_cases started : result = 0
  · rw [if_neg (not_not.mpr started)]
    refine iff_of_true ?_ started
    have online : (s.onlineQueues + 1) % 2 ^ 32 = 1 := by
      rw [census.onlineQueues]
      omega
    have after : Census { s.nvmeInitQueue with stage := .allocAdminTags }
        s.queueCount 1 (· < 1) := by
      refine ⟨rfl, online, census.present, fun qid => ?_⟩
      exact (census.registered qid).trans Nat.lt_one_iff.symm
    exact of_census after nofun online accounted.bounded
  · rw [if_pos started]
    refine iff_of_false ?_ started
    intro after
    -- the counter has wrapped around, so that all 2 ^ 32 - 1 queues are online
    have wrapped := census.suspend_uncounted
    have covers : (s.nvmeDisableQueue 0).onlineQueues ≤
        (s.nvmeDisableQueue 0).queueCount :=
      after.online_le nofun
    have bounded : (s.nvmeDisableQueue 0).queueCount ≤ 2 ^ 16 + 1 :=
      after.bounded
    unfold nvmeDisableQueue at covers bounded
    omega

theorem shutdown_iff (accounted : s.Accounted) (stage : s.stage ≠ .removed) :
    s.nvmeDevShutdown.Accounted ↔
      (s.stage = .rest ∨ s.stage = .configureAdminQueue) := by
  have same := stage_nvmeDevShutdown s
  by_cases isThread : s.stage = .thread
  · refine iff_of_false (fun after => ?_) (by simp [isThread])
    have wrapped := (accounted.uncounted isThread).nvmeDevShutdown_uncounted
    have none := after.stage
    unfold StageOnline at none
    rw [same, isThread] at none
    omega
  · have covers := accounted.online_le isThread
    have bounded := accounted.bounded
    have census : Census s.nvmeDevShutdown s.queueCount 0 (· < 0) :=
      ((accounted.counted isThread).nvmeDevShutdown (by omega)).congr (by simp)
    have atStage : s.nvmeDevShutdown.StageOnline ↔
        (s.stage = .rest ∨ s.stage = .configureAdminQueue) := by
      unfold StageOnline
      rw [same, census.onlineQueues]
      cases isStage : s.stage
      all_goals simp_all
    rw [← atStage]
    refine ⟨Accounted.stage, fun online => ?_⟩
    exact of_census census (same ▸ isThread) online accounted.bounded

theorem removeDisks_iff (accounted : s.Accounted) (stage : s.stage = .rest) :
    (s.nvmeFreeQueues 1).Accounted ↔ s.onlineQueues < 2 := by
  have isRest : (s.nvmeFreeQueues 1).stage = .rest :=
    (stage_nvmeFreeQueues s 1).trans stage
  have notThread : (s.nvmeFreeQueues 1).stage ≠ .thread := by
    rw [isRest]
    nofun
  have census := (accounted.counted (by rw [stage]; nofun)).nvmeFreeQueues 1
  constructor
  · intro after
    have covers := after.online_le notThread
    rw [census.onlineQueues, census.queueCount] at covers
    omega
  · intro few
    refine of_census (census.congr (fun place => ?_)) notThread ?_ ?_
    · omega
    · unfold StageOnline
      rw [isRest]
      trivial
    · have bounded := accounted.bounded
      omega

theorem of_frame (accounted : s.Accounted)
    (census : Census t s.queueCount s.onlineQueues
      (fun qid => if s.stage = .thread then qid = 0 else qid < s.onlineQueues))
    (stage : t.stage = s.stage) : t.Accounted where
  present qid := by
    rw [census.queueCount]
    exact census.present qid
  registered qid := by
    rw [stage, census.onlineQueues]
    exact census.registered qid
  stage := by
    have atStage := accounted.stage
    unfold StageOnline at atStage ⊢
    rw [stage, census.onlineQueues]
    exact atStage
  bounded := census.queueCount.trans_le accounted.bounded

theorem callResult_failed (census : Census s count 1 (· < 1))
    (bounded : count ≤ 2 ^ 16 + 1) (following : StartStage) {result : Int}
    (failed : result ≠ 0) : (s.callResult following result).Accounted := by
  have suspended := census.suspend Nat.zero_lt_one
  have less : (1 + 2 ^ 32 - 1) % 2 ^ 32 = 0 := by omega
  rw [less] at suspended
  unfold callResult nvmeDisableQueue
  rw [if_neg failed]
  refine restage (suspended.congr (fun place => ?_)) bounded
  omega

/-- Once the admin queue is counted it is the only one, up to the set-up of the
I/O queues. -/
theorem adminOnline (accounted : s.Accounted)
    (stage : s.stage = .allocAdminTags ∨ s.stage = .setupIoQueues) :
    Census s s.queueCount 1 (· < 1) := by
  have notThread : s.stage ≠ .thread := by
    intro isThread
    rw [isThread] at stage
    exact stage.elim nofun nofun
  have one : s.onlineQueues = 1 := by
    have atStage := accounted.stage
    unfold StageOnline at atStage
    obtain stage | stage := stage
    · rw [stage] at atStage
      exact atStage
    · rw [stage] at atStage
      exact atStage
  have census := accounted.counted notThread
  rw [one] at census
  exact census

theorem allocAdminTags (accounted : s.Accounted)
    (stage : s.stage = .allocAdminTags)
    (env : TagOutcomes) :
    ((s.nvmeAllocAdminTags env).2.callResult .setupIoQueues
      (s.nvmeAllocAdminTags env).1).Accounted := by
  have census := accounted.adminOnline (.inl stage)
  have tagged : Census (s.nvmeAllocAdminTags env).2 s.queueCount 1 (· < 1) := by
    unfold nvmeAllocAdminTags
    dsimp only
    repeat' split
    all_goals exact census.of_same rfl rfl rfl
  by_cases failed : (s.nvmeAllocAdminTags env).1 = 0
  · unfold callResult
    rw [if_pos failed]
    have after :
        Census { (s.nvmeAllocAdminTags env).2 with stage := .setupIoQueues }
        s.queueCount 1 (· < 1) := tagged.of_same rfl rfl rfl
    exact of_census after nofun after.onlineQueues accounted.bounded
  · exact callResult_failed tagged accounted.bounded _ failed

theorem remapBar_le {ioremap : Nat → Bool} {dbStride asked mapped : Nat}
    (isMapped : remapBar ioremap dbStride asked = some mapped) :
    mapped ≤ asked := by
  induction asked with
  | zero => cases isMapped
  | succ fewer induction =>
      unfold remapBar at isMapped
      split at isMapped
      next =>
        cases isMapped
        exact Nat.le_refl _
      next => exact (induction isMapped).trans (Nat.le_succ fewer)

theorem ioVectors_le {env : IoOutcomes} (promised : env.Promised) {vecs : Nat}
    (isVecs : s.ioVectors env = .ok vecs) : vecs ≤ 2 ^ 16 := by
  unfold ioVectors at isVecs
  split at isVecs
  next => cases isVecs
  next =>
    dsimp only at isVecs
    split at isVecs
    next => cases isVecs
    next nrIoQueues mapped =>
      have asked : min env.possibleCpus env.setQueueCount.toNat ≤ 2 ^ 16 := by
        have most := promised.setQueueCount
        omega
      have few : nrIoQueues ≤ 2 ^ 16 := by
        split at mapped
        next => exact (remapBar_le mapped).trans asked
        next =>
          cases mapped
          exact asked
      have msix := promised.enableMsix nrIoQueues
      have msi := promised.enableMsi (min nrIoQueues 32)
      cases isVecs
      split
      next =>
        split
        next => omega
        next => omega
      next => omega

theorem of_uncounted (census : Census s count 0 (· = 0))
    (bounded : count ≤ 2 ^ 16 + 1) : Accounted { s with stage := .thread } where
  present qid := by
    change (s.queues qid).isSome ↔ qid < s.queueCount
    rw [census.queueCount]
    exact census.present qid
  registered qid := by
    rw [if_pos rfl]
    exact census.registered qid
  stage := census.onlineQueues
  bounded := census.queueCount.trans_le bounded

/-- `nvme_configure_admin_queue` allocates the admin queue at the first place,
and leaves it with its vector or frees every queue. -/
theorem configureAdminQueue (accounted : s.Accounted)
    (stage : s.stage = .configureAdminQueue) (layout : Layout)
    (env : AdminOutcomes) :
    Accounted { (nvmeConfigureAdminQueue layout s env).2 with
      stage := if (nvmeConfigureAdminQueue layout s env).1 = 0 then .thread
        else .rest } := by
  have none : s.onlineQueues = 0 := by
    have atStage := accounted.stage
    unfold StageOnline at atStage
    rw [stage] at atStage
    exact atStage
  have census := accounted.counted (by rw [stage]; nofun)
  rw [none] at census
  obtain ⟨_, failed, same⟩ | ⟨_, _, _, same⟩ | ⟨_, base, isBase, same⟩ :=
    nvmeConfigureAdminQueue_cases layout s env
  · rw [if_neg failed, same]
    exact restage census accounted.bounded
  · rw [same, if_neg (show -enomem ≠ 0 by decide)]
    have called :
        Census (s.callNpages (.allocQueue 0)) s.queueCount 0 (· < 0) :=
      census.of_same rfl rfl rfl
    exact restage called accounted.bounded
  · obtain ⟨count, vector, positive, bounded, only, based⟩ :
        ∃ count, ∃ vector : Nat → Prop, 0 < count ∧ count ≤ 2 ^ 16 + 1 ∧
          (∀ place, vector place → place = 0) ∧ Census base count 0 vector := by
      obtain ⟨isSame, found⟩ | ⟨absent, rings, isNew⟩ := isBase
      · rw [isSame]
        refine ⟨s.queueCount, (· < 0), (census.present 0).mp found,
          accounted.bounded,
          ?_, census⟩
        exact fun place below => absurd below (Nat.not_lt_zero place)
      · have empty : s.queueCount = 0 := by
          by_contra some
          have found := (census.present 0).mpr (Nat.pos_of_ne_zero some)
          rw [absent] at found
          cases found
        rw [empty] at census
        rw [isNew]
        refine ⟨1, _, Nat.zero_lt_one, by omega, ?_,
          census.nvmeAllocQueue layout nvmeAqDepth rings⟩
        rintro place (below | isAdmin)
        · exact absurd below (Nat.not_lt_zero place)
        · exact isAdmin
    obtain ⟨failed, freed⟩ | ⟨enabled, vectored⟩ :=
      based.enableAdminQueue positive only pageShift env
    · rw [same, if_neg failed]
      exact restage freed (Nat.zero_le _)
    · rw [same, if_pos enabled]
      exact of_uncounted vectored bounded

theorem devAdd (accounted : s.Accounted) (env : AddOutcomes) :
    (s.nvmeDevAdd env).Accounted := by
  unfold nvmeDevAdd
  dsimp only
  repeat' split
  all_goals exact accounted.of_frame (accounted.census.of_same rfl rfl rfl) rfl

theorem remove (accounted : s.Accounted) (stage : s.stage = .rest) :
    Accounted
      { s.nvmeDevShutdown.nvmeFreeQueues 0 with stage := .removed } := by
  have notThread : s.stage ≠ .thread := by
    rw [stage]
    nofun
  have bounded := accounted.bounded
  have covers := accounted.online_le notThread
  have freed :=
    ((accounted.counted notThread).nvmeDevShutdown (by omega)).nvmeFreeQueues 0
  have after :
      Census { s.nvmeDevShutdown.nvmeFreeQueues 0 with stage := .removed }
      (min s.queueCount 0) 0 (· < 0) :=
    (freed.congr (by simp)).of_same rfl rfl rfl
  exact of_census after nofun trivial (by omega)

theorem createIoQueues_iff (census : Census s count 1 (· < 1))
    (positive : 0 < count)
    {most : Nat} (isMost : s.maxQid = most) (fits : count ≤ most + 1)
    (few : most ≤ 2 ^ 16) (layout : Layout) {alloc : Nat → AllocOutcomes}
    {create : Nat → CreateOutcomes}
    (promised : ∀ qid, (create qid).requestIrq ≤ 0) :
    Accounted { nvmeCreateIoQueues layout s alloc create with stage := .rest } ↔
      Creates count most alloc create := by
  constructor
  · intro after
    by_contra fails
    obtain ⟨last, online, registered⟩ :=
      census.nvmeCreateIoQueues_failed isMost fits
      (by omega) layout promised fails
    have below := (after.registered last).mp registered
    rw [if_neg nofun] at below
    exact Nat.lt_irrefl last (online ▸ below)
  · intro creates
    obtain ⟨grown, within, after⟩ :=
      census.nvmeCreateIoQueues positive isMost fits
      (by omega) layout promised creates
    exact restage after (by omega)

theorem setupIoQueues_iff (accounted : s.Accounted)
    (stage : s.stage = .setupIoQueues)
    (layout : Layout) {env : IoOutcomes} (promised : env.Promised) :
    ((nvmeSetupIoQueues layout s env).2.callResult .rest
      (nvmeSetupIoQueues layout s env).1).Accounted ↔
      s.Orderly (.setupIoQueues env) := by
  have census := accounted.adminOnline (.inr stage)
  have positive := census.lt_count Nat.zero_lt_one
  unfold nvmeSetupIoQueues Orderly
  cases isVecs : s.ioVectors env with
  | error result =>
      refine iff_of_true ?_ (fun _ isOk => nomatch isVecs.symm.trans isOk)
      dsimp only
      by_cases isZero : result = 0
      · unfold callResult
        rw [if_pos isZero]
        exact restage census accounted.bounded
      · exact callResult_failed census accounted.bounded _ isZero
  | ok vecs =>
      have few := ioVectors_le promised isVecs
      have renumbered :
          Census { s with maxQid := vecs } s.queueCount 1 (· < 1) :=
        census.of_same rfl rfl rfl
      dsimp only
      split
      next failed =>
        refine iff_of_true ?_ (fun _ _ isZero => absurd isZero failed)
        refine callResult_failed
          ((renumbered.nvmeFreeQueues 1).congr ?_) ?_ _ failed
        · exact fun place => and_self_iff
        · omega
      next granted =>
        have kept := (renumbered.nvmeFreeQueues (vecs + 1)).congr
          (fun place => show place < 1 ∧ place < vecs + 1 ↔ place < 1 by omega)
        have isMax : (QueueDev.nvmeFreeQueues { s with maxQid := vecs }
            (vecs + 1)).maxQid = vecs := maxQid_nvmeFreeQueues _
        unfold callResult
        rw [if_pos rfl]
        rw [createIoQueues_iff kept (by omega) isMax (by omega) few layout
          promised.requestIrq, creates_min]
        constructor
        · intro creates most isMost _
          cases isVecs.symm.trans isMost
          exact creates
        · intro orderly
          exact orderly vecs isVecs (not_not.mp granted)

/-- What a step leaves of the account is decided by the state and the label. -/
theorem step_iff (accounted : s.Accounted) {layout : Layout}
    {label : StartLabel}
    (promised : label.Promised) (steps : s.step layout label = some t) :
    t.Accounted ↔ s.Orderly label := by
  cases label with
  | devMap result cap =>
      simp only [step, startStep, Option.ite_none_right_eq_some,
        Option.some.injEq] at steps
      obtain ⟨stage, rfl⟩ := steps
      exact accounted.devMap_iff stage result cap
  | thread result =>
      simp only [step, startStep, Option.ite_none_right_eq_some,
        Option.some.injEq] at steps
      obtain ⟨stage, rfl⟩ := steps
      exact accounted.thread_iff stage result
  | shutdown =>
      simp only [step, Option.ite_none_left_eq_some, Option.some.injEq] at steps
      obtain ⟨stage, rfl⟩ := steps
      exact accounted.shutdown_iff stage
  | setupIoQueues env =>
      cases Taken.of_step steps with
      | setupIoQueues _ stage =>
          exact accounted.setupIoQueues_iff stage layout promised
  | removeDisks =>
      cases Taken.of_step steps with
      | removeDisks stage => exact accounted.removeDisks_iff stage
  | configureAdminQueue env =>
      refine iff_of_true ?_ trivial
      cases Taken.of_step steps with
      | configureAdminQueue _ stage =>
          exact accounted.configureAdminQueue stage layout env
  | allocAdminTags env =>
      refine iff_of_true ?_ trivial
      cases Taken.of_step steps with
      | allocAdminTags _ stage => exact accounted.allocAdminTags stage env
  | devAdd env =>
      refine iff_of_true ?_ trivial
      cases Taken.of_step steps with
      | devAdd => exact accounted.devAdd env
  | remove =>
      refine iff_of_true ?_ trivial
      cases Taken.of_step steps with
      | remove stage => exact accounted.remove stage
  | allocIod =>
      refine iff_of_true ?_ trivial
      cases Taken.of_step steps with
      | allocIod =>
          exact accounted.of_frame (accounted.census.of_same rfl rfl rfl) rfl
  | submit owner =>
      refine iff_of_true ?_ trivial
      cases Taken.of_step steps with
      | @submit _ nvmeq found =>
          have same : (nvmeq.nvmeSubmitCharioCmd owner).2.cqVector =
              nvmeq.cqVector := rfl
          exact accounted.of_frame
            ((accounted.census.request found same).of_same rfl rfl rfl) rfl
      | submitNull =>
          exact accounted.of_frame (accounted.census.of_same rfl rfl rfl) rfl
  | resetTag =>
      refine iff_of_true ?_ trivial
      cases Taken.of_step steps with
      | resetTag found =>
          exact accounted.of_frame (accounted.census.request found rfl) rfl
      | resetTagNull =>
          exact accounted.of_frame (accounted.census.of_same rfl rfl rfl) rfl
  | finish qid tag =>
      refine iff_of_true ?_ trivial
      cases Taken.of_step steps with
      | @finish _ _ nvmeq found =>
          have same : (nvmeq.nvmeFinishCmd tag).2.cqVector =
              nvmeq.cqVector := by
            unfold DevQueue.nvmeFinishCmd
            split <;> rfl
          exact accounted.of_frame
            ((accounted.census.request found same).of_same rfl rfl rfl) rfl

theorem zeroed : Accounted zeroed where
  present qid := by simp [QueueDev.zeroed]
  registered qid := by simp [Registered, QueueDev.zeroed]
  stage := trivial
  bounded := Nat.zero_le _

end Accounted

/-! ## Runs -/

/-- The steps whose calls out keep their promises and that are orderly. -/
def orderlyStep (s : QueueDev) (label : StartLabel) : Prop :=
  label.Promised ∧ s.Orderly label

def oneQueue (create : CreateOutcomes) : IoOutcomes where
  possibleCpus := 1
  setQueueCount := 1
  ioremap _ := true
  enableMsix most := most
  enableMsi most := most
  requestIrq := 0
  alloc _ := .granted
  create _ := create

def adminStart : List StartLabel :=
  [.devMap 0 255, .configureAdminQueue ⟨255, 0, .granted, 0, 0⟩, .thread 0,
    .allocAdminTags ⟨0, true, true⟩]

theorem oneQueue_promised {create : CreateOutcomes}
    (irq : create.requestIrq ≤ 0) :
    (oneQueue create).Promised where
  setQueueCount := show (1 : Int) ≤ 2 ^ 16 by omega
  enableMsix most := Int.le_refl most
  enableMsi most := Int.le_refl most
  requestIrq _ := irq

theorem oneQueue_orderly (s : QueueDev) :
    s.orderlyStep (.setupIoQueues (oneQueue ⟨0, 0, 0⟩)) := by
  refine ⟨oneQueue_promised (Int.le_refl 0), ?_⟩
  intro _ _ _ _ _ _ _
  exact ⟨Int.le_refl 0, Int.le_refl 0, Int.le_refl 0⟩

theorem adminStart_orderly {layout : Layout} {s t : QueueDev}
    (idle : s.onlineQueues = 0)
    (ran : runSteps (step layout) s adminStart = some t) :
    Reach (step layout) orderlyStep s t := by
  obtain ⟨following, taken, ran⟩ := runSteps_cons_eq_some ran
  have orderly : s.orderlyStep (.devMap 0 255) := ⟨trivial, fun _ => idle⟩
  refine Reach.trans (.next .start orderly taken) ?_
  refine Reach.of_allowed ?_ ran
  intro label member state
  simp only [List.mem_cons, List.not_mem_nil, or_false] at member
  obtain rfl | rfl | rfl := member
  · exact ⟨trivial, trivial⟩
  · exact ⟨trivial, rfl⟩
  · exact ⟨trivial, trivial⟩

def afterSteps (s : QueueDev) (labels : List StartLabel) : QueueDev :=
  (runSteps (step layout32) s labels).getD s

def adminStarted : QueueDev := afterSteps zeroed adminStart

def oneStarted : QueueDev :=
  afterSteps adminStarted [.setupIoQueues (oneQueue ⟨0, 0, 0⟩)]

def oneRefused : QueueDev :=
  afterSteps adminStarted [.setupIoQueues (oneQueue ⟨-4, 0, 0⟩)]

def oneReset : QueueDev := afterSteps oneStarted.nvmeDevShutdown adminStart

end QueueDev

end Chario.Driver
