import Mathlib.Data.List.Infix
import Chario.Nvme.PrpBounds

namespace Chario.Nvme.Machine

open Chario.Library

/-! The whole PRP builders: where they store, and when no value wraps. -/

section Lists

variable {v : Vars}

/-- The pool and the first `npages` of the lists for `v.length` bytes. -/
theorem choosePool_eq (a : Arithmetic) (isCount :
      a.int (a.divRoundUp (a.unsigned v.length) pageBytes) =
        (v.length + pageBytes - 1) / pageBytes) :
    choosePool a pageBytes v =
      if (v.length + pageBytes - 1) / pageBytes ≤ 256 / 8 then
        { v.record (.value ((v.length + pageBytes - 1) / pageBytes)) with
          pool := .small }.setNpages 0
      else
        { v.record (.value ((v.length + pageBytes - 1) / pageBytes)) with
          pool := .page }.setNpages 1 := by
  rw [choosePool, isCount]

theorem choosePool_wrapping (positive : 0 < v.length)
    (short : v.length ≤ intMax) :
    choosePool wrapping pageBytes v = choosePool unbounded pageBytes v := by
  have isCount : wrapping.int (wrapping.divRoundUp
      (wrapping.unsigned v.length) pageBytes) =
      (v.length + pageBytes - 1) / pageBytes := by
    unfold intMax at short
    rw [wrapping_unsigned (by omega) (by omega),
      wrapping_divRoundUp (by omega) (by decide)
        (by unfold pageBytes; omega)]
    refine wrapping_int ?_ ?_
    all_goals
      unfold pageBytes
      omega
  rw [choosePool_eq wrapping isCount, choosePool_eq unbounded rfl]

structure Chosen (v w : Vars) : Prop where
  length : w.length = v.length
  dmaLen : w.dmaLen = v.dmaLen
  dmaAddr : w.dmaAddr = v.dmaAddr
  sg : w.sg = v.sg
  block : w.block = v.block
  memory : w.memory = v.memory
  pool : (w.pool = .small ∧ w.npages = 0 ∧ v.length ≤ 32 * pageBytes) ∨
    (w.pool = .page ∧ w.npages = 1 ∧ 32 * (pageBytes : Int) < v.length)
  log : ∃ values : List Int, w.log = v.log ++ values.map Event.value

theorem choosePool_chosen : Chosen v (choosePool unbounded pageBytes v) := by
  rw [choosePool_eq unbounded rfl]
  by_cases few : (v.length + pageBytes - 1) / pageBytes ≤ 256 / 8
  · rw [if_pos few]
    refine ⟨rfl, rfl, rfl, rfl, rfl, rfl, .inl ⟨rfl, rfl, ?_⟩,
      ⟨[(v.length + pageBytes - 1) / pageBytes, 0], ?_⟩⟩
    · unfold pageBytes at *
      omega
    · change v.log ++ [_] ++ [_] = _
      rw [List.append_assoc]
      rfl
  · rw [if_neg few]
    refine ⟨rfl, rfl, rfl, rfl, rfl, rfl, .inr ⟨rfl, rfl, ?_⟩,
      ⟨[(v.length + pageBytes - 1) / pageBytes, 1], ?_⟩⟩
    · unfold pageBytes at *
      omega
    · change v.log ++ [_] ++ [_] = _
      rw [List.append_assoc]
      rfl

structure Ready (slots : Int) (v : Vars) : Prop where
  positive : 0 < v.length
  short : v.length ≤ intMax
  dmaLen : -(pageBytes : Int) ≤ v.dmaLen ∧ v.dmaLen ≤ intMax
  segments : ∀ segment ∈ v.sg, segment.address < 2 ^ 32 ∧ segment.len ≤ intMax
  block : v.block = 0
  within : ∀ event ∈ v.log, event.Within slots

theorem within_values {slots : Int} {log : List Event} {values : List Int}
    (within : ∀ event ∈ log, event.Within slots) :
    ∀ event ∈ log ++ values.map Event.value, event.Within slots := by
  intro event member
  cases List.mem_append.mp member with
  | inl before => exact within event before
  | inr isValue =>
      obtain ⟨value, _, rfl⟩ := List.mem_map.mp isValue
      trivial

theorem Ready.loopInv {slots : Int} (ready : Ready slots v)
    (enough : Enough v.length slots) (dma : Int) {restart : Option Int}
    (dmaAddr : 0 ≤ restart.getD v.dmaAddr ∧
      restart.getD v.dmaAddr + v.length ≤ 2 ^ 33) :
    LoopInv v.length slots
      ((choosePool unbounded pageBytes v).beginLists dma restart) := by
  have chosen := @choosePool_chosen v
  obtain ⟨values, isLog⟩ := chosen.log
  have earlier : ∀ event ∈ (choosePool unbounded pageBytes v).log,
      event.Within slots := by
    rw [isLog]
    exact within_values ready.within
  generalize choosePool unbounded pageBytes v = w at *
  have fields : (w.beginLists dma restart).length = v.length ∧
      (w.beginLists dma restart).block = 0 ∧
      (w.beginLists dma restart).i = 0 ∧
      (w.beginLists dma restart).pool = w.pool ∧
      (w.beginLists dma restart).npages = w.npages ∧
      (w.beginLists dma restart).dmaLen = v.dmaLen ∧
      (w.beginLists dma restart).dmaAddr = restart.getD v.dmaAddr ∧
      (w.beginLists dma restart).sg = v.sg ∧
      ∃ noted : List Int, (w.beginLists dma restart).log =
        w.log ++ [.pointer 0] ++ noted.map Event.value := by
    have isBlock := chosen.block.trans ready.block
    cases restart with
    | none =>
        refine ⟨chosen.length, isBlock, rfl, rfl, rfl, chosen.dmaLen,
          chosen.dmaAddr, chosen.sg, [dma, 0], ?_⟩
        change w.log ++ [_] ++ [_] ++ [_] = _
        simp only [List.append_assoc]
        rfl
    | some address =>
        refine ⟨chosen.length, isBlock, rfl, rfl, rfl, chosen.dmaLen, rfl,
          chosen.sg, [dma, address, 0], ?_⟩
        change w.log ++ [_] ++ [_] ++ [_] ++ [_] = _
        simp only [List.append_assoc]
        rfl
  obtain ⟨isLength, isBlock, isI, isPool, isPages, isLen, isAddr, isSg, noted,
    isLogged⟩ := fields
  refine ⟨?_, ?_, ?_, ?_, ?_, ready.short, ?_, ?_, ?_, ?_⟩
  · rw [isLength]
    exact ready.positive
  · rw [isLength, isBlock, isI]
    simp
  · rw [isI]
    decide
  · rw [isPages, isPool, isBlock]
    obtain ⟨small, pages, _⟩ | ⟨page, pages, _⟩ := chosen.pool
    · rw [small, pages]
    · rw [page, pages]
      rfl
  · rw [isPool, isBlock]
    obtain ⟨_, _, few⟩ | ⟨page, _, _⟩ := chosen.pool
    · exact fun _ => ⟨rfl, few⟩
    · rw [page]
      intro isSmall
      cases isSmall
  · rw [isLen]
    exact ready.dmaLen
  · rw [isAddr, isLength]
    exact dmaAddr
  · rw [isSg]
    exact ready.segments
  · rw [isLogged]
    refine within_values ?_
    intro event member
    cases List.mem_append.mp member with
    | inl before => exact earlier event before
    | inr pointer =>
        rw [List.mem_singleton.mp pointer]
        exact ⟨Int.le_refl _, enough.first⟩

theorem Ready.buildLists {slots totalLen page : Int} {pools : PrpPools}
    {restart : Option Int} {wrapped plain : Vars → Option Vars}
    (ready : Ready slots v) (enough : Enough v.length slots)
    (refills : Refills wrapped plain) (total : v.length ≤ totalLen)
    (accepted : totalLen ≤ intMax - pageBytes)
    (dmaAddr : 0 ≤ restart.getD v.dmaAddr ∧
      restart.getD v.dmaAddr + v.length ≤ 2 ^ 33) :
    Machine.buildLists wrapping pageBytes pools wrapped totalLen
      page restart v =
        Machine.buildLists unbounded pageBytes pools plain totalLen page restart
          v ∧
      ∀ event ∈ (Machine.buildLists unbounded pageBytes pools plain totalLen
          page restart v).2.log, event.Within slots := by
  have positive := ready.positive
  have short := ready.short
  have isLength : wrapping.unsigned v.length = v.length :=
    wrapping_unsigned (by omega) (by unfold intMax at short; omega)
  have noted : ∀ values : List Int, ∀ event ∈ v.log ++ values.map Event.value,
      event.Within slots := fun values => within_values ready.within
  rw [Machine.buildLists, Machine.buildLists, isLength,
    choosePool_wrapping positive short]
  by_cases onePage : v.length ≤ pageBytes
  · rw [if_pos onePage, if_pos (show unbounded.unsigned v.length ≤ _ from
      onePage)]
    exact ⟨rfl, noted [page]⟩
  · rw [if_neg onePage, if_neg (show ¬ unbounded.unsigned v.length ≤ _ from
      onePage)]
    have chosen := @choosePool_chosen v
    have inv := fun dma => ready.loopInv enough dma dmaAddr
    obtain ⟨values, isLog⟩ := chosen.log
    generalize choosePool unbounded pageBytes v = w at *
    simp only
    cases w.pool.alloc pools 0 with
    | none =>
        have isValue : withoutList wrapping pageBytes totalLen w =
            withoutList unbounded pageBytes totalLen w := by
          unfold withoutList
          rw [chosen.length]
          unfold intMax pageBytes at *
          rw [@wrapping_int (totalLen - v.length) (by omega) (by omega),
            @wrapping_unsigned (totalLen - v.length) (by omega) (by omega),
            wrapping_unsigned (by omega) (by omega),
            wrapping_int (by omega) (by omega)]
          rfl
        simp only [isValue]
        refine ⟨trivial, ?_⟩
        change ∀ event ∈ w.log ++ [_] ++ [_], _
        rw [isLog, List.append_assoc, List.append_assoc]
        intro event member
        exact noted (values ++ [page, -1]) event (by
          rw [List.map_append]
          exact member)
    | some dma =>
        simp only
        refine LoopInv.loop enough refills total ?_ totalLen.toNat (inv dma)
        unfold intMax pageBytes at *
        omega

end Lists

section Setup

variable {length : Nat}

theorem nvmeNpages_wrapping (accepted : length ≤ intMax - pageBytes) :
    nvmeNpages wrapping pageBytes length =
        nvmeNpages unbounded pageBytes length ∧
      nvmeNpages unbounded pageBytes length =
        (Nvme.nvmeNpages pageBytes length : Nat) := by
  have exactly : nvmeNpages unbounded pageBytes length =
      (8 * (((length : Int) + pageBytes + pageBytes - 1) / pageBytes) +
        (pageBytes - 8) - 1) / (pageBytes - 8) := rfl
  rw [exactly]
  unfold intMax at accepted
  constructor
  · simp only [nvmeNpages]
    unfold pageBytes at *
    have isCount : wrapping.divRoundUp
        (wrapping.unsigned (length + (4096 : Nat))) (4096 : Nat) =
        ((length : Int) + (4096 : Nat) + (4096 : Nat) - 1) / (4096 : Nat) := by
      rw [wrapping_unsigned (by omega) (by omega),
        wrapping_divRoundUp (by omega) (by omega) (by omega)]
    rw [isCount, wrapping_unsigned (by omega) (by omega),
      wrapping_divRoundUp (by omega) (by omega) (by omega)]
    exact wrapping_int (by omega) (by omega)
  · unfold Nvme.nvmeNpages pageBytes
    omega

/-- The estimate counts 511 entries a list and a page more than the length
needs, so that it covers every list that can be opened. -/
theorem enough_nvmeNpages {whole : Int} (part : whole ≤ length) :
    Enough whole (Nvme.nvmeNpages pageBytes length : Nat) := by
  refine ⟨?_, ?_⟩
  · unfold Nvme.nvmeNpages pageBytes
    omega
  · intro block more
    unfold Nvme.nvmeNpages
    unfold pageBytes at *
    omega

structure HeadExact (a : Arithmetic) (address dmaLen length head : Int) :
    Prop where
  u64 : a.u64 address = address
  isHead : headOf a pageBytes address = head
  isLength : a.sub length head = length - head
  isLen : a.sub dmaLen head = dmaLen - head
  next : a.u64 (address + head) = address + head

theorem headExact_unbounded (address dmaLen length : Int) :
    HeadExact unbounded address dmaLen length
      (pageBytes - address % pageBytes) :=
  ⟨rfl, rfl, rfl, rfl, rfl⟩

theorem headExact_wrapping {address dmaLen length : Int}
    (notNegative : 0 ≤ address) (inSpace : address < 2 ^ 32)
    (some : 0 ≤ dmaLen) (fits : dmaLen ≤ intMax) (positive : 0 ≤ length)
    (accepted : length ≤ intMax) :
    HeadExact wrapping address dmaLen length
      (pageBytes - address % pageBytes) := by
  have below :=
    Int.emod_lt_of_pos address (show (0 : Int) < pageBytes by decide)
  have above := Int.emod_nonneg address (show (pageBytes : Int) ≠ 0 by decide)
  unfold intMax at *
  refine ⟨wrapping_u64 notNegative (by omega), ?_, ?_, ?_, ?_⟩
  · unfold headOf
    unfold pageBytes at *
    rw [wrapping_int (by omega) (by omega),
      wrapping_unsigned (by omega) (by omega)]
  · refine wrapping_sub ?_ ?_
    all_goals
      unfold pageBytes at *
      omega
  · refine wrapping_sub ?_ ?_
    all_goals
      unfold pageBytes at *
      omega
  · refine wrapping_u64 ?_ ?_
    all_goals
      unfold pageBytes at *
      omega

def headTaken (v : Vars) (head : Int) : Vars :=
  (v.setLength (v.length - head)).setDmaLen (v.dmaLen - head)

theorem nvmeSetupPrps_cons {a : Arithmetic} {first : Segment}
    {rest : List Segment} {head : Int} (pools : PrpPools)
    (isLen : a.int first.len = first.len)
    (exactly : HeadExact a first.address first.len length head) :
    nvmeSetupPrps a pageBytes pools (first :: rest) length =
      if (length : Int) - head ≤ 0 then
        (.returned length, (Vars.start rest length first.len
          first.address).setLength (length - head))
      else
        match if (first.len : Int) - head ≠ 0 then
            some ((headTaken (.start rest length first.len first.address)
              head).setDmaAddr (first.address + head))
          else nextSegment a
            (headTaken (.start rest length first.len first.address) head) with
        | none => (.pastEnd,
            headTaken (.start rest length first.len first.address) head)
        | some v => buildLists a pageBytes pools (nextSegment a) length
            (a.dmaAddr v.dmaAddr) none v := by
  have isHead := exactly.isHead
  have isLength := exactly.isLength
  have isLeft := exactly.isLen
  have isNext := exactly.next
  by_cases ends : (length : Int) - head ≤ 0
  · simp only [nvmeSetupPrps, isLen, exactly.u64, Vars.start, Vars.setLength,
      Vars.record, isHead, isLength, if_pos ends]
  · by_cases left : (first.len : Int) - head ≠ 0
    · simp only [nvmeSetupPrps, isLen, exactly.u64, Vars.start, Vars.setLength,
        Vars.setDmaLen, Vars.setDmaAddr, Vars.record, headTaken,
        isHead, isLength,
        isLeft, isNext, if_neg ends, if_pos left]
    · cases next : nextSegment a
          (headTaken (.start rest length first.len first.address) head) with
      | none =>
          simp only [Vars.start, Vars.setLength, Vars.setDmaLen, Vars.record,
            headTaken] at next
          simp only [nvmeSetupPrps, isLen, exactly.u64, Vars.start,
            Vars.setLength, Vars.setDmaLen, Vars.record, headTaken, isHead,
            isLength, isLeft, if_neg ends, if_neg left, next]
      | some v =>
          simp only [Vars.start, Vars.setLength, Vars.setDmaLen, Vars.record,
            headTaken] at next
          simp only [nvmeSetupPrps, isLen, exactly.u64, Vars.start,
            Vars.setLength, Vars.setDmaLen, Vars.record, isHead, isLength,
            isLeft, if_neg ends, if_neg left, next]

theorem nvmeSetupPhysPrps_eq {a : Arithmetic} {address : Nat} {head : Int}
    (pools : PrpPools) (exactly : HeadExact a address length length head) :
    nvmeSetupPhysPrps a pageBytes pools length address =
      if (length : Int) - head ≤ 0 then
        (.returned length, { Vars.start [] length length address with
          prp1 := some address }.setLength (length - head))
      else
        buildLists a pageBytes pools (refillPage a pageBytes) length
          (a.dmaAddr (address + pageBytes))
          (some (a.dmaAddr (address + pageBytes)))
          (if (length : Int) - head ≠ 0 then
            (headTaken { Vars.start [] length length address with
              prp1 := some (address : Int) } head).setDmaAddr (address + head)
          else headTaken { Vars.start [] length length address with
            prp1 := some (address : Int) } head) := by
  have isHead := exactly.isHead
  have isLength := exactly.isLength
  have isNext := exactly.next
  simp only [nvmeSetupPhysPrps, exactly.u64, Vars.start, Vars.setLength,
    Vars.setDmaLen, Vars.setDmaAddr, Vars.record, headTaken, isHead, isLength,
    isNext]

theorem headTaken_ready {slots : Int} {v : Vars} {head : Int}
    (some : 0 < v.length - head) (short : v.length - head ≤ intMax)
    (low : -(pageBytes : Int) ≤ v.dmaLen - head)
    (high : v.dmaLen - head ≤ intMax)
    (segments : ∀ segment ∈ v.sg,
      segment.address < 2 ^ 32 ∧ segment.len ≤ intMax)
    (block : v.block = 0) (log : v.log = []) :
    Ready slots (headTaken v head) where
  positive := some
  short := short
  dmaLen := ⟨low, high⟩
  segments := segments
  block := block
  within := by
    change ∀ event ∈ v.log ++ [_] ++ [_], _
    rw [log]
    exact @within_values slots [] [v.length - head, v.dmaLen - head]
      fun event member => nomatch member

theorem Ready.setDmaAddr {slots : Int} {v : Vars} (ready : Ready slots v)
    (address : Int) : Ready slots (v.setDmaAddr address) :=
  ⟨ready.positive, ready.short, ready.dmaLen, ready.segments, ready.block,
    @within_values slots v.log [address] ready.within⟩

theorem Ready.nextSegment {slots : Int} {v w : Vars} (ready : Ready slots v)
    (next : Machine.nextSegment unbounded v = some w)
    (inSpace : 0 ≤ v.dmaAddr ∧ v.dmaAddr + v.length ≤ 2 ^ 33) :
    Ready slots w ∧ w.length = v.length ∧
      0 ≤ w.dmaAddr ∧ w.dmaAddr + w.length ≤ 2 ^ 33 := by
  have resumed := refills_nextSegment.resumes ready.segments inSpace ready.short
    next
  obtain ⟨values, isLog⟩ := resumed.log
  refine ⟨⟨?_, ?_, ?_, resumed.segments, ?_, ?_⟩, resumed.length,
    resumed.dmaAddr⟩
  · rw [resumed.length]
    exact ready.positive
  · rw [resumed.length]
    exact ready.short
  · have low := resumed.dmaLen.1
    exact ⟨by unfold pageBytes; omega, resumed.dmaLen.2⟩
  · rw [resumed.block]
    exact ready.block
  · rw [isLog]
    exact within_values ready.within

theorem buildLists_outcome (a : Arithmetic) (pools : PrpPools)
    (refill : Vars → Option Vars) (totalLen page other : Int)
    (restart : Option Int)
    (v : Vars) :
    (buildLists a pageBytes pools refill totalLen page restart v).1 =
      (buildLists a pageBytes pools refill totalLen other restart v).1 := by
  unfold buildLists
  split
  next => rfl
  next =>
    dsimp only
    cases (choosePool a pageBytes v).pool.alloc pools 0 with
    | none => rfl
    | some dma => rfl

structure SetupWithin (slots : Int) (run exactly : Outcome × Vars) : Prop where
  outcome : run.1 = exactly.1
  within : ∀ event ∈ run.2.log, event.Within slots

theorem Ready.setupWithin {slots totalLen : Int} (pools : PrpPools) {v : Vars}
    (ready : Ready slots v) (enough : Enough v.length slots)
    (total : v.length ≤ totalLen) (accepted : totalLen ≤ intMax - pageBytes)
    (dmaAddr : 0 ≤ v.dmaAddr ∧ v.dmaAddr + v.length ≤ 2 ^ 33) :
    SetupWithin slots
        (Machine.buildLists wrapping pageBytes pools
          (Machine.nextSegment wrapping) totalLen
          (wrapping.dmaAddr v.dmaAddr) none v)
        (Machine.buildLists unbounded pageBytes pools
          (Machine.nextSegment unbounded) totalLen
          (unbounded.dmaAddr v.dmaAddr) none v) ∧
      (v.dmaAddr < 2 ^ 32 →
        Machine.buildLists wrapping pageBytes pools
          (Machine.nextSegment wrapping) totalLen
            (wrapping.dmaAddr v.dmaAddr) none v =
          Machine.buildLists unbounded pageBytes pools
            (Machine.nextSegment unbounded) totalLen
            (unbounded.dmaAddr v.dmaAddr) none v) := by
  obtain ⟨same, within⟩ := @Ready.buildLists v slots totalLen
    (wrapping.dmaAddr v.dmaAddr) pools none _ _ ready enough
      refills_nextSegment total
    accepted dmaAddr
  rw [same]
  refine ⟨⟨buildLists_outcome unbounded pools _ totalLen _ _ none v, within⟩,
    ?_⟩
  intro inSpace
  rw [show wrapping.dmaAddr v.dmaAddr = v.dmaAddr from
    Int.emod_eq_of_lt dmaAddr.1 inSpace]
  rfl

theorem nextSegment_inSpace {v w : Vars}
    (segments : ∀ segment ∈ v.sg, segment.address < 2 ^ 32 ∧
      segment.len ≤ intMax)
    (next : nextSegment unbounded v = some w) : w.dmaAddr < 2 ^ 32 := by
  unfold nextSegment at next
  cases table : v.sg with
  | nil =>
      rw [table] at next
      cases next
  | cons segment rest =>
      rw [table] at next segments
      cases next
      change (segment.address : Int) < 2 ^ 32
      exact_mod_cast (segments segment List.mem_cons_self).1

/-- On the machine the builder stores inside its allocations and ends as it does
without bounds; it does the same where the second page has a 32-bit address. -/
theorem nvmeSetupPrps_within (pools : PrpPools) {first : Segment}
    {rest : List Segment}
    (accepted : length ≤ intMax - pageBytes)
    (segments : ∀ segment ∈ first :: rest,
      segment.address < 2 ^ 32 ∧ segment.len ≤ intMax) :
    SetupWithin (Nvme.nvmeNpages pageBytes length : Nat)
        (nvmeSetupPrps wrapping pageBytes pools (first :: rest) length)
        (nvmeSetupPrps unbounded pageBytes pools (first :: rest) length) ∧
      ((first.head < (length : Int) → (first.len : Int) ≠ first.head →
          (first.address : Int) + first.head < 2 ^ 32) →
        nvmeSetupPrps wrapping pageBytes pools (first :: rest) length =
          nvmeSetupPrps unbounded pageBytes pools (first :: rest) length) := by
  obtain ⟨low, fits⟩ := segments first List.mem_cons_self
  have later : ∀ segment ∈ rest,
      segment.address < 2 ^ 32 ∧ segment.len ≤ intMax :=
    fun segment member => segments segment (List.mem_cons_of_mem _ member)
  have small : (length : Int) ≤ intMax - pageBytes := by
    unfold intMax pageBytes at *
    omega
  have isLen : wrapping.int first.len = first.len :=
    wrapping_int (by omega) (by unfold intMax at fits; omega)
  have exactly := @headExact_wrapping first.address first.len length
    (by omega) (by omega) (by omega) (by omega) (by omega)
    (by unfold intMax pageBytes at *; omega)
  have below : (first.address : Int) % pageBytes < pageBytes :=
    Int.emod_lt_of_pos _ (by decide)
  have above : 0 ≤ (first.address : Int) % pageBytes :=
    Int.emod_nonneg _ (by decide)
  rw [nvmeSetupPrps_cons pools isLen exactly,
    nvmeSetupPrps_cons pools rfl (headExact_unbounded _ _ _)]
  have sameHead :
      (first.head : Int) = pageBytes - first.address % pageBytes := by
    unfold Segment.head
    omega
  rw [sameHead]
  generalize isHead : (pageBytes : Int) - first.address % pageBytes = head
  by_cases ends : (length : Int) - head ≤ 0
  · rw [if_pos ends, if_pos ends]
    have noted := @within_values (Nvme.nvmeNpages pageBytes length : Nat) []
      [(length : Int) - head] fun event member => nomatch member
    exact ⟨⟨rfl, noted⟩, fun _ => rfl⟩
  · rw [if_neg ends, if_neg ends]
    have ready : Ready (Nvme.nvmeNpages pageBytes length : Nat) (headTaken
        (.start rest length first.len first.address) head) := by
      refine headTaken_ready ?_ ?_ ?_ ?_ later rfl rfl
      · exact Int.not_le.mp ends
      · change (length : Int) - head ≤ intMax
        unfold intMax pageBytes at *
        omega
      · change -(pageBytes : Int) ≤ first.len - head
        omega
      · change (first.len : Int) - head ≤ intMax
        omega
    have enough : Enough ((length : Int) - head)
        (Nvme.nvmeNpages pageBytes length : Nat) :=
      enough_nvmeNpages (by omega)
    have inSpace : 0 ≤ (first.address : Int) ∧
        (first.address : Int) + (length - head) ≤ 2 ^ 33 := by
      unfold intMax pageBytes at *
      omega
    have total : (length : Int) - head ≤ length := by omega
    have behind := @within_values (Nvme.nvmeNpages pageBytes length : Nat) []
      [(length : Int) - head, first.len - head]
      fun event member => nomatch member
    by_cases left : (first.len : Int) - head ≠ 0
    · rw [if_pos left, if_pos left]
      obtain ⟨kept, exact⟩ :=
        (ready.setDmaAddr (first.address + head)).setupWithin
        pools enough total small (by
          change 0 ≤ (first.address : Int) + head ∧
            (first.address : Int) + head + (length - head) ≤ 2 ^ 33
          unfold intMax pageBytes at *
          omega)
      refine ⟨kept, fun fitting => exact ?_⟩
      change (first.address : Int) + head < 2 ^ 32
      exact fitting (by omega) (by omega)
    · rw [if_neg left, if_neg left, refills_nextSegment.same later]
      cases next : nextSegment unbounded (headTaken
          (.start rest length first.len first.address) head) with
      | none => exact ⟨⟨rfl, behind⟩, fun _ => rfl⟩
      | some w =>
          obtain ⟨readyNext, sameLength, spaced⟩ :=
            ready.nextSegment next inSpace
          have isLength : w.length = length - head := sameLength
          rw [← isLength] at enough total
          obtain ⟨kept, exact⟩ := readyNext.setupWithin pools enough total small
            spaced
          exact ⟨kept, fun _ => exact (nextSegment_inSpace later next)⟩

end Setup

/-! The log only grows, so that a value that has wrapped stays visible. -/

section Log

variable {alloc : Nat → Option Nat} {v w : Vars}

theorem Stored.log (stored : Stored alloc v w) : v.log <+: w.log := by
  cases stored with
  | here room =>
      simp only [Vars.setI, Vars.store, Vars.record, List.append_assoc]
      exact List.prefix_append _ _
  | fresh full granted =>
      simp only [Vars.setI, Vars.store, Vars.setNpages, Vars.point, Vars.record,
        List.append_assoc]
      exact List.prefix_append _ _

theorem advance_log (v : Vars) :
    v.log <+: (advance unbounded pageBytes v).log := by
  simp only [advance, Vars.setDmaLen, Vars.setDmaAddr, Vars.setLength,
    Vars.record, List.append_assoc]
  exact List.prefix_append _ _

theorem prpLoop_log {refill : Vars → Option Vars}
    (grows : ∀ {v w : Vars}, refill v = some w → v.log <+: w.log)
    (totalLen : Int) (fuel : Nat) (v : Vars) :
    v.log <+:
      (prpLoop unbounded pageBytes alloc refill totalLen fuel v).2.log := by
  induction fuel generalizing v with
  | zero => exact List.prefix_refl _
  | succ fuel induction =>
      rw [prpLoop]
      obtain ⟨_, _, refused⟩ | ⟨w, isStored, stored⟩ :=
        storeEntry_unbounded alloc v
      · rw [refused]
      · rw [isStored]
        have moved := stored.log.trans (advance_log w)
        simp only
        generalize advance unbounded pageBytes w = x at moved
        by_cases ends : x.length ≤ 0
        · rw [if_pos ends]
          exact moved
        · rw [if_neg ends]
          by_cases left : 0 < x.dmaLen
          · rw [if_pos left]
            exact moved.trans (induction x)
          · rw [if_neg left]
            by_cases beyond : x.dmaLen < 0
            · rw [if_pos beyond]
              exact moved
            · rw [if_neg beyond]
              cases next : refill x with
              | none => exact moved
              | some u => exact moved.trans ((grows next).trans (induction u))

theorem buildLists_page {refill : Vars → Option Vars}
    (grows : ∀ {v w : Vars}, refill v = some w → v.log <+: w.log)
    {pools : PrpPools} {totalLen page other : Int}
    (same :
      buildLists unbounded pageBytes pools refill totalLen page (some page)
        v =
      buildLists unbounded pageBytes pools refill totalLen other (some other)
        v) : page = other := by
  rw [buildLists, buildLists] at same
  by_cases onePage : unbounded.unsigned v.length ≤ pageBytes
  · rw [if_pos onePage, if_pos onePage] at same
    exact Option.some.inj (congrArg (fun run => run.2.second) same)
  · rw [if_neg onePage, if_neg onePage] at same
    generalize choosePool unbounded pageBytes v = w at same
    simp only at same
    cases isFirst : w.pool.alloc pools 0 with
    | none =>
        rw [isFirst] at same
        exact Option.some.inj (congrArg (fun run => run.2.second) same)
    | some dma =>
        rw [isFirst] at same
        simp only at same
        have here := @prpLoop_log (w.pool.alloc pools) refill grows totalLen
          totalLen.toNat (w.beginLists dma (some page))
        have there := @prpLoop_log (w.pool.alloc pools) refill grows totalLen
          totalLen.toNat (w.beginLists dma (some other))
        rw [same] at here
        have logs : (w.beginLists dma (some page)).log =
            (w.beginLists dma (some other)).log :=
          (List.prefix_of_prefix_length_le here there (Nat.le_of_eq
            (by simp [Vars.beginLists, Vars.setI, Vars.setDmaAddr,
              Vars.setSecond, Vars.point, Vars.record]))).eq_of_length
            (by simp [Vars.beginLists, Vars.setI, Vars.setDmaAddr,
              Vars.setSecond, Vars.point, Vars.record])
        simpa [Vars.beginLists, Vars.setI, Vars.setDmaAddr, Vars.setSecond,
          Vars.point, Vars.record] using logs

end Log

section Phys

variable {length address : Nat}

theorem refillPage_log {v w : Vars}
    (next : refillPage unbounded pageBytes v = some w) : v.log <+: w.log := by
  cases next
  exact List.prefix_append _ _

def physHead (length address head : Nat) : Vars :=
  (headTaken { Vars.start [] length length address with
    prp1 := some (address : Int) } head).setDmaAddr (address + head)

section Lists

variable {head : Nat} (accepted : length ≤ intMax - pageBytes)
variable (under : head ≤ pageBytes) (more : head < length)

include accepted under more

theorem physHead_ready :
    Ready (Nvme.nvmeNpages pageBytes length : Nat)
      (physHead length address head) := by
  unfold physHead
  refine (headTaken_ready ?_ ?_ ?_ ?_ ?_ rfl rfl).setDmaAddr _
  · change 0 < (length : Int) - head
    omega
  · change (length : Int) - head ≤ intMax
    unfold intMax pageBytes at *
    omega
  · change -(pageBytes : Int) ≤ length - head
    omega
  · change (length : Int) - head ≤ intMax
    unfold intMax pageBytes at *
    omega
  · intro segment member
    cases member

/-- From whichever 32-bit address its lists begin, the physical builder builds
them alike on the machine and stores inside its allocations. -/
theorem physLists_within (pools : PrpPools) {page : Int} (low : 0 ≤ page)
    (high : page < 2 ^ 32) :
    buildLists wrapping pageBytes pools (refillPage wrapping pageBytes) length
        page (some page) (physHead length address head) =
      buildLists unbounded pageBytes pools (refillPage unbounded pageBytes)
        length page (some page) (physHead length address head) ∧
    ∀ event ∈ (buildLists unbounded pageBytes pools
        (refillPage unbounded pageBytes) length page (some page)
        (physHead length address head)).2.log,
      event.Within (Nvme.nvmeNpages pageBytes length : Nat) := by
  have isLength : (physHead length address head).length = length - head := rfl
  refine (physHead_ready accepted under more).buildLists ?_ refills_refillPage
    ?_ ?_ ?_
  · rw [isLength]
    exact enough_nvmeNpages (by omega)
  · rw [isLength]
    omega
  · unfold intMax pageBytes at *
    omega
  · change 0 ≤ page ∧ page + ((length : Int) - head) ≤ 2 ^ 33
    unfold intMax pageBytes at *
    omega

end Lists

section Whole

variable (accepted : length ≤ intMax - pageBytes) (inSpace : address < 2 ^ 32)

include accepted inSpace

theorem nvmeSetupPhysPrps_cases (pools : PrpPools) {a : Arithmetic}
    (isEither : a = wrapping ∨ a = unbounded) :
    nvmeSetupPhysPrps a pageBytes pools length address =
      if length ≤ pageBytes - address % pageBytes then
        (.returned length, { Vars.start [] length length address with
          prp1 := some (address : Int) }.setLength
            (length - (pageBytes - address % pageBytes : Nat)))
      else
        buildLists a pageBytes pools (refillPage a pageBytes) length
          (a.dmaAddr (address + pageBytes))
          (some (a.dmaAddr (address + pageBytes)))
          (physHead length address (pageBytes - address % pageBytes)) := by
  have exactly : HeadExact a address length length
      (pageBytes - address % pageBytes : Nat) := by
    rw [← head_cast]
    cases isEither with
    | inl isWrapping =>
        rw [isWrapping]
        refine headExact_wrapping ?_ ?_ ?_ ?_ ?_ ?_
        all_goals
          unfold intMax pageBytes at *
          omega
    | inr isUnbounded =>
        rw [isUnbounded]
        exact headExact_unbounded _ _ _
  rw [nvmeSetupPhysPrps_eq pools exactly]
  by_cases ends : length ≤ pageBytes - address % pageBytes
  · rw [if_pos (by omega), if_pos ends]
  · rw [if_neg (by omega), if_neg ends, if_pos (by omega), physHead]

/-- The physical builder stores inside its allocations, and no value wraps
exactly when the transfer ends in its first page or the page behind has a 32-bit
address. -/
theorem nvmeSetupPhysPrps_within (pools : PrpPools) :
    (∀ event ∈ (nvmeSetupPhysPrps wrapping pageBytes pools length
        address).2.log,
      event.Within (Nvme.nvmeNpages pageBytes length : Nat)) ∧
    (nvmeSetupPhysPrps wrapping pageBytes pools length address =
        nvmeSetupPhysPrps unbounded pageBytes pools length address ↔
      length ≤ pageBytes - address % pageBytes ∨
        address + pageBytes < 2 ^ 32) := by
  rw [nvmeSetupPhysPrps_cases accepted inSpace pools (.inl rfl),
    nvmeSetupPhysPrps_cases accepted inSpace pools (.inr rfl)]
  by_cases ends : length ≤ pageBytes - address % pageBytes
  · rw [if_pos ends, if_pos ends]
    refine ⟨@within_values _ [] [_] (fun event member => nomatch member), ?_⟩
    exact ⟨fun _ => .inl ends, fun _ => rfl⟩
  · rw [if_neg ends, if_neg ends]
    have page : 0 ≤ wrapping.dmaAddr (address + pageBytes) ∧
        wrapping.dmaAddr (address + pageBytes) < 2 ^ 32 :=
      ⟨Int.emod_nonneg _ (by decide), Int.emod_lt_of_pos _ (by decide)⟩
    obtain ⟨same, within⟩ := @physLists_within length address _ accepted
      (Nat.sub_le pageBytes (address % pageBytes)) (Nat.not_le.mp ends) pools
      _ page.1 page.2
    rw [same]
    refine ⟨within, ?_⟩
    have wraps : wrapping.dmaAddr (address + pageBytes) =
        unbounded.dmaAddr (address + pageBytes) ↔
          address + pageBytes < 2 ^ 32 := by
      change ((address : Int) + pageBytes) % 2 ^ 32 = address + pageBytes ↔ _
      unfold pageBytes
      omega
    constructor
    · intro runs
      exact .inr (wraps.mp (buildLists_page refillPage_log runs))
    · rintro (short | fits)
      · exact absurd short ends
      · rw [wraps.mpr fits]

end Whole

end Phys

end Chario.Nvme.Machine
