import Chario.Nvme.Machine

namespace Chario.Nvme.Machine

open Chario.Library

/-! The loop of the PRP builders: its stores stay inside their allocations, and
no value wraps. -/

section Wrapping

variable {value amount divisor : Int}

theorem wrapping_int (low : -2 ^ 31 ≤ value) (high : value < 2 ^ 31) :
    wrapping.int value = value := by
  change (value + 2 ^ 31) % 2 ^ 32 - 2 ^ 31 = value
  omega

theorem wrapping_unsigned (notNegative : 0 ≤ value) (high : value < 2 ^ 32) :
    wrapping.unsigned value = value :=
  Int.emod_eq_of_lt notNegative high

theorem wrapping_u64 (notNegative : 0 ≤ value) (high : value < 2 ^ 64) :
    wrapping.u64 value = value :=
  Int.emod_eq_of_lt notNegative high

/-- A difference that an `int` can hold is right, although its `unsigned` form
may have gone below zero. -/
theorem wrapping_sub (low : -2 ^ 31 ≤ value - amount)
    (high : value - amount < 2 ^ 31) :
    wrapping.sub value amount = value - amount := by
  change ((value % 2 ^ 32 - amount) % 2 ^ 32 + 2 ^ 31) % 2 ^ 32 - 2 ^ 31 =
    value - amount
  omega

theorem wrapping_divRoundUp (notNegative : 0 ≤ value) (positive : 0 < divisor)
    (high : value + divisor < 2 ^ 32) :
    wrapping.divRoundUp value divisor = (value + divisor - 1) / divisor := by
  rw [Arithmetic.divRoundUp, wrapping_unsigned (by omega) high,
    wrapping_unsigned (by omega) (by omega)]

end Wrapping

/-- An event inside the allocations: pointers below the number of slots, entries
in the blocks of their pool. -/
def Event.Within (slots : Int) : Event → Prop
  | .pointer index => 0 ≤ index ∧ index < slots
  | .entry .small _ index _ => 0 ≤ index ∧ index < 256 / 8
  | .entry .page _ index _ => 0 ≤ index ∧ index < pageBytes / 8
  | .value _ => True

structure Enough (whole slots : Int) : Prop where
  first : 0 < slots
  chained : ∀ block : Nat,
    (pageBytes : Int) * (511 * block + 512) < whole → (block : Int) + 1 < slots

/-- What holds whenever the loop begins a turn.  `whole` are the bytes behind
the first page. -/
structure LoopInv (whole slots : Int) (v : Vars) : Prop where
  positive : 0 < v.length
  taken : (pageBytes : Int) * (511 * v.block + v.i) + v.length = whole
  index : 0 ≤ v.i ∧ v.i ≤ 512
  pages : v.npages = match v.pool with
    | .small => 0
    | .page => (v.block : Int) + 1
  small : v.pool = .small → v.block = 0 ∧ whole ≤ 32 * pageBytes
  fits : whole ≤ intMax
  dmaLen : -(pageBytes : Int) ≤ v.dmaLen ∧ v.dmaLen ≤ intMax
  dmaAddr : 0 ≤ v.dmaAddr ∧ v.dmaAddr + v.length ≤ 2 ^ 33
  segments : ∀ segment ∈ v.sg, segment.address < 2 ^ 32 ∧ segment.len ≤ intMax
  within : ∀ event ∈ v.log, event.Within slots

inductive Stored (alloc : Nat → Option Nat) (v : Vars) : Vars → Prop
  | here (room : v.i ≠ 512) :
      Stored alloc v
        ((v.store v.block v.i (some v.dmaAddr)).setI (v.i + 1))
  | fresh {dma : Nat} (full : v.i = 512)
      (granted : alloc (v.block + 1) = some dma) :
      Stored alloc v
        (((({ (((v.point v.npages).setNpages (v.npages + 1)).store (v.block + 1) 0
            (v.memory v.block (v.i - 1))).store v.block (v.i - 1) (some dma) with
            block := v.block + 1 }.setI 1).store (v.block + 1) 1
              (some v.dmaAddr)).setI 2))

theorem storeEntry_unbounded (alloc : Nat → Option Nat) (v : Vars) :
    (v.i = 512 ∧ alloc (v.block + 1) = none ∧
      storeEntry unbounded pageBytes alloc v = none) ∨
    ∃ w, storeEntry unbounded pageBytes alloc v = some w ∧
    Stored alloc v w := by
  have perList : (pageBytes : Int) / 8 = 512 := rfl
  by_cases full : v.i = 512
  · cases next : alloc (v.block + 1) with
    | none =>
        refine .inl ⟨full, rfl, ?_⟩
        rw [storeEntry, perList, if_pos full, chain, next]
    | some dma =>
        refine .inr ⟨_, ?_, .fresh full next⟩
        rw [storeEntry, perList, if_pos full, chain, next]
        rfl
  · refine .inr ⟨_, ?_, .here full⟩
    rw [storeEntry, perList, if_neg full]
    rfl

structure Kept (v w : Vars) : Prop where
  length : w.length = v.length
  dmaLen : w.dmaLen = v.dmaLen
  dmaAddr : w.dmaAddr = v.dmaAddr
  sg : w.sg = v.sg
  pool : w.pool = v.pool

theorem Stored.kept {alloc : Nat → Option Nat} {v w : Vars}
    (stored : Stored alloc v w) : Kept v w := by
  cases stored with
  | here room => exact ⟨rfl, rfl, rfl, rfl, rfl⟩
  | fresh full granted =>
      refine ⟨?_, ?_, ?_, ?_, ?_⟩
      all_goals simp only [Vars.setI, Vars.store, Vars.setNpages, Vars.point,
        Vars.record]

structure Advanced (v x : Vars) : Prop where
  length : x.length = v.length - pageBytes
  dmaAddr : x.dmaAddr = v.dmaAddr + pageBytes
  dmaLen : x.dmaLen = v.dmaLen - pageBytes
  sg : x.sg = v.sg

theorem Kept.advanced {v w : Vars} (kept : Kept v w) :
    Advanced v (advance unbounded pageBytes w) where
  length := by
    rw [← kept.length]
    rfl
  dmaAddr := by
    rw [← kept.dmaAddr]
    rfl
  dmaLen := by
    rw [← kept.dmaLen]
    rfl
  sg := kept.sg

namespace LoopInv

variable {whole slots : Int} {v w : Vars} {alloc : Nat → Option Nat}

/-- Few lists are opened, as each takes 511 pages. -/
theorem pages_bounded (inv : LoopInv whole slots v) :
    0 ≤ v.npages ∧ v.npages < 2 ^ 20 := by
  have positive := inv.positive
  have taken := inv.taken
  have index := inv.index
  have fits := inv.fits
  have pages := inv.pages
  unfold intMax at fits
  unfold pageBytes at taken
  cases isPool : v.pool with
  | small =>
      rw [isPool] at pages
      simp only at pages
      omega
  | page =>
      rw [isPool] at pages
      simp only at pages
      omega

theorem storeEntry_wrapping (inv : LoopInv whole slots v) :
    storeEntry wrapping pageBytes alloc v =
      storeEntry unbounded pageBytes alloc v := by
  have perList : (pageBytes : Int) / 8 = 512 := rfl
  have pages := inv.pages_bounded
  have index := inv.index
  have counts : wrapping.int (v.npages + 1) = v.npages + 1 :=
    wrapping_int (by omega) (by omega)
  have steps : wrapping.int (v.i + 1) = v.i + 1 :=
    wrapping_int (by omega) (by omega)
  rw [storeEntry, storeEntry, perList]
  by_cases full : v.i = 512
  · rw [if_pos full, if_pos full, chain, chain, counts]
    cases alloc (v.block + 1) with
    | none => rfl
    | some dma => rfl
  · rw [if_neg full, if_neg full]
    simp only [steps]
    rfl

theorem advance_wrapping (inv : LoopInv whole slots v) (kept : Kept v w) :
    advance wrapping pageBytes w = advance unbounded pageBytes w := by
  have positive := inv.positive
  have taken := inv.taken
  have index := inv.index
  have fits := inv.fits
  have dmaLen := inv.dmaLen
  have dmaAddr := inv.dmaAddr
  have isLen : wrapping.sub w.dmaLen pageBytes = w.dmaLen - pageBytes := by
    refine wrapping_sub ?_ ?_
    all_goals
      rw [kept.dmaLen]
      unfold intMax pageBytes at *
      omega
  have isLength : wrapping.sub w.length pageBytes = w.length - pageBytes := by
    refine wrapping_sub ?_ ?_
    all_goals
      rw [kept.length]
      unfold intMax pageBytes at *
      omega
  have isAddr : wrapping.u64 (w.dmaAddr + pageBytes) =
      w.dmaAddr + pageBytes := by
    refine wrapping_u64 ?_ ?_
    all_goals
      rw [kept.dmaAddr]
      unfold pageBytes
      omega
  simp only [advance, Vars.setDmaLen, Vars.setDmaAddr, Vars.setLength,
    Vars.record, isLen, isAddr, isLength]
  rfl

theorem page_of_full (inv : LoopInv whole slots v) (full : v.i = 512) :
    v.pool = .page := by
  cases isPool : v.pool with
  | page => rfl
  | small =>
      obtain ⟨first, few⟩ := inv.small isPool
      have taken := inv.taken
      have positive := inv.positive
      rw [full, first] at taken
      unfold pageBytes at *
      omega

theorem entry_within (inv : LoopInv whole slots v) (room : v.i ≠ 512)
    (value : Option Int) :
    (Event.entry v.pool v.block v.i value).Within slots := by
  have index := inv.index
  have positive := inv.positive
  cases isPool : v.pool with
  | page =>
      refine ⟨index.1, ?_⟩
      change v.i < 512
      omega
  | small =>
      obtain ⟨first, few⟩ := inv.small isPool
      have taken := inv.taken
      refine ⟨index.1, ?_⟩
      change v.i < 32
      rw [first] at taken
      unfold pageBytes at *
      omega

theorem pointer_within (inv : LoopInv whole slots v)
    (enough : Enough whole slots)
    (full : v.i = 512) : (Event.pointer v.npages).Within slots := by
  have pages := inv.pages
  have taken := inv.taken
  have positive := inv.positive
  rw [inv.page_of_full full] at pages
  simp only at pages
  have more := enough.chained v.block (by rw [full] at taken; omega)
  exact ⟨by omega, by omega⟩

theorem stored_within (inv : LoopInv whole slots v)
    (enough : Enough whole slots)
    (stored : Stored alloc v w) : ∀ event ∈ w.log, event.Within slots := by
  cases stored with
  | here room =>
      intro event member
      simp only [Vars.setI, Vars.store, Vars.record, List.mem_append,
        List.mem_singleton] at member
      obtain (before | rfl) | rfl := member
      · exact inv.within event before
      · exact inv.entry_within room _
      · trivial
  | fresh full granted =>
      have isPage := inv.page_of_full full
      intro event member
      simp only [Vars.setI, Vars.store, Vars.setNpages, Vars.point, Vars.record,
        List.mem_append, List.mem_singleton, isPage] at member
      obtain (((((((before | rfl) | rfl) | rfl) | rfl) | rfl) | rfl) | rfl) :=
        member
      · exact inv.within event before
      · exact inv.pointer_within enough full
      · trivial
      · exact ⟨Int.le_refl _, by decide⟩
      · rw [full]
        exact ⟨by decide, by decide⟩
      · trivial
      · exact ⟨by decide, by decide⟩
      · trivial

theorem advance_within (inv : LoopInv whole slots v)
    (enough : Enough whole slots) (stored : Stored alloc v w) :
    ∀ event ∈ (advance unbounded pageBytes w).log, event.Within slots := by
  intro event member
  simp only [advance, Vars.setDmaLen, Vars.setDmaAddr, Vars.setLength,
    Vars.record, List.mem_append, List.mem_singleton] at member
  obtain ((before | rfl) | rfl) | rfl := member
  · exact inv.stored_within enough stored event before
  all_goals trivial

end LoopInv

structure Resumed (v w : Vars) : Prop where
  length : w.length = v.length
  i : w.i = v.i
  npages : w.npages = v.npages
  pool : w.pool = v.pool
  block : w.block = v.block
  dmaLen : 0 ≤ w.dmaLen ∧ w.dmaLen ≤ intMax
  dmaAddr : 0 ≤ w.dmaAddr ∧ w.dmaAddr + w.length ≤ 2 ^ 33
  segments : ∀ segment ∈ w.sg, segment.address < 2 ^ 32 ∧ segment.len ≤ intMax
  log : ∃ values : List Int, w.log = v.log ++ values.map Event.value

/-- A turn keeps the invariant. -/
theorem LoopInv.turn {whole slots : Int} {v w u : Vars}
    {alloc : Nat → Option Nat} (inv : LoopInv whole slots v)
    (enough : Enough whole slots) (stored : Stored alloc v w)
    (goesOn : 0 < (advance unbounded pageBytes w).length)
    (resumed : Resumed (advance unbounded pageBytes w) u) :
    LoopInv whole slots u := by
  have index := inv.index
  have taken := inv.taken
  have pages := inv.pages
  have within : ∀ event ∈ u.log, event.Within slots := by
    obtain ⟨values, isLog⟩ := resumed.log
    intro event member
    rw [isLog] at member
    cases List.mem_append.mp member with
    | inl before => exact inv.advance_within enough stored event before
    | inr new =>
        obtain ⟨value, _, rfl⟩ := List.mem_map.mp new
        trivial
  have samePool : u.pool = v.pool := resumed.pool.trans stored.kept.pool
  have sameLength : u.length = v.length - pageBytes :=
    resumed.length.trans stored.kept.advanced.length
  have low : -(pageBytes : Int) ≤ u.dmaLen := by
    have notNegative := resumed.dmaLen.1
    unfold pageBytes
    omega
  cases stored with
  | here room =>
      have sameI : u.i = v.i + 1 := resumed.i
      have sameBlock : u.block = v.block := resumed.block
      have samePages : u.npages = v.npages := resumed.npages
      refine ⟨?_, ?_, ?_, ?_, ?_, inv.fits, ⟨low, resumed.dmaLen.2⟩,
        resumed.dmaAddr, resumed.segments, within⟩
      · rw [resumed.length]
        exact goesOn
      · rw [sameI, sameBlock, sameLength]
        unfold pageBytes at *
        omega
      · omega
      · rw [samePages, pages, samePool, sameBlock]
      · rw [samePool, sameBlock]
        exact inv.small
  | fresh full granted =>
      have isPage := inv.page_of_full full
      have sameI : u.i = 2 := resumed.i
      have sameBlock : u.block = v.block + 1 := resumed.block
      have samePages : u.npages = v.npages + 1 := resumed.npages
      rw [isPage] at pages samePool
      refine ⟨?_, ?_, ?_, ?_, ?_, inv.fits, ⟨low, resumed.dmaLen.2⟩,
        resumed.dmaAddr, resumed.segments, within⟩
      · rw [resumed.length]
        exact goesOn
      · rw [sameI, sameBlock, sameLength]
        rw [full] at taken
        push_cast
        unfold pageBytes at *
        omega
      · omega
      · rw [samePages, pages, samePool, sameBlock]
        push_cast
        rfl
      · rw [samePool]
        intro isSmall
        cases isSmall

structure Refills (wrapped plain : Vars → Option Vars) : Prop where
  same : ∀ {v : Vars},
    (∀ segment ∈ v.sg, segment.address < 2 ^ 32 ∧ segment.len ≤ intMax) →
    wrapped v = plain v
  resumes : ∀ {v w : Vars},
    (∀ segment ∈ v.sg, segment.address < 2 ^ 32 ∧ segment.len ≤ intMax) →
    0 ≤ v.dmaAddr ∧ v.dmaAddr + v.length ≤ 2 ^ 33 →
    v.length ≤ intMax → plain v = some w → Resumed v w

theorem refills_nextSegment :
    Refills (nextSegment wrapping) (nextSegment unbounded) where
  same := by
    intro v segments
    cases isSg : v.sg with
    | nil => simp only [nextSegment, isSg]
    | cons segment rest =>
        obtain ⟨low, short⟩ := segments segment (by rw [isSg]; exact
          List.mem_cons_self)
        have isAddr : wrapping.u64 segment.address = segment.address :=
          wrapping_u64 (Int.natCast_nonneg _) (by omega)
        have isLen : wrapping.int segment.len = segment.len :=
          wrapping_int (by omega) (by unfold intMax at short; omega)
        simp only [nextSegment, isSg, isAddr, isLen]
        rfl
  resumes := by
    intro v w segments _ short next
    cases isSg : v.sg with
    | nil =>
        rw [nextSegment, isSg] at next
        cases next
    | cons segment rest =>
        rw [nextSegment, isSg] at next
        cases next
        rw [isSg] at segments
        obtain ⟨low, fits⟩ := segments segment List.mem_cons_self
        refine ⟨rfl, rfl, rfl, rfl, rfl, ⟨Int.natCast_nonneg _, ?_⟩,
          ⟨Int.natCast_nonneg _, ?_⟩, ?_,
          ⟨[segment.address, segment.len], ?_⟩⟩
        · exact Int.ofNat_le.mpr fits
        · change (segment.address : Int) + v.length ≤ _
          unfold intMax at short
          omega
        · intro later member
          exact segments later (List.mem_cons_of_mem _ member)
        · change v.log ++ [_] ++ [_] = _
          rw [List.append_assoc]
          rfl

theorem refills_refillPage :
    Refills (refillPage wrapping pageBytes)
      (refillPage unbounded pageBytes) where
  same _ := rfl
  resumes := by
    intro v w segments inSpace _ next
    cases next
    have whole : (0 : Int) ≤ pageBytes ∧ (pageBytes : Int) ≤ intMax := by decide
    exact ⟨rfl, rfl, rfl, rfl, rfl, whole, inSpace, segments,
      ⟨[pageBytes], rfl⟩⟩

/-- The loop computes on the machine what it computes without bounds, and stores
inside its allocations. -/
theorem LoopInv.loop {whole slots totalLen : Int} {alloc : Nat → Option Nat}
    {wrapped plain : Vars → Option Vars} (enough : Enough whole slots)
    (refills : Refills wrapped plain) (total : whole ≤ totalLen)
    (accepted : totalLen ≤ intMax) (fuel : Nat) {v : Vars}
    (inv : LoopInv whole slots v) :
    prpLoop wrapping pageBytes alloc wrapped totalLen fuel v =
        prpLoop unbounded pageBytes alloc plain totalLen fuel v ∧
      ∀ event ∈ (prpLoop unbounded pageBytes alloc plain totalLen fuel v).2.log,
        event.Within slots := by
  induction fuel generalizing v with
  | zero => exact ⟨rfl, inv.within⟩
  | succ fuel induction =>
      have positive := inv.positive
      have index := inv.index
      have fewer : v.length ≤ whole := by
        have taken := inv.taken
        unfold pageBytes at taken
        omega
      obtain ⟨full, none, refused⟩ | ⟨w, isStored, stored⟩ :=
        storeEntry_unbounded alloc v
      · have isValue : wrapping.int (totalLen - v.length) =
            unbounded.int (totalLen - v.length) :=
          wrapping_int (by unfold intMax at accepted; omega)
            (by unfold intMax at accepted; omega)
        rw [prpLoop, prpLoop, inv.storeEntry_wrapping, refused]
        simp only [isValue]
        exact ⟨trivial, inv.within⟩
      · have moves := inv.advance_wrapping stored.kept
        have advanced := stored.kept.advanced
        have behind := inv.advance_within enough stored
        have segments : ∀ segment ∈ (advance unbounded pageBytes w).sg,
            segment.address < 2 ^ 32 ∧ segment.len ≤ intMax := by
          rw [advanced.sg]
          exact inv.segments
        have dmaAddr := inv.dmaAddr
        have dmaLen := inv.dmaLen
        have inSpace : 0 ≤ (advance unbounded pageBytes w).dmaAddr ∧
            (advance unbounded pageBytes w).dmaAddr +
              (advance unbounded pageBytes w).length ≤ 2 ^ 33 := by
          rw [advanced.dmaAddr, advanced.length]
          omega
        rw [prpLoop, prpLoop, inv.storeEntry_wrapping, isStored]
        simp only [moves]
        by_cases ends : (advance unbounded pageBytes w).length ≤ 0
        · simp only [if_pos ends]
          exact ⟨trivial, behind⟩
        · simp only [if_neg ends]
          have goesOn := Int.not_le.mp ends
          by_cases left : 0 < (advance unbounded pageBytes w).dmaLen
          · simp only [if_pos left]
            exact induction (inv.turn enough stored goesOn
              ⟨rfl, rfl, rfl, rfl, rfl,
                ⟨Int.le_of_lt left, by rw [advanced.dmaLen]; omega⟩,
                inSpace, segments,
                ⟨[], (List.append_nil _).symm⟩⟩)
          · simp only [if_neg left]
            by_cases beyond : (advance unbounded pageBytes w).dmaLen < 0
            · simp only [if_pos beyond]
              exact ⟨trivial, behind⟩
            · simp only [if_neg beyond, refills.same segments]
              cases next : plain (advance unbounded pageBytes w) with
              | none => exact ⟨rfl, behind⟩
              | some u =>
                  have short : (advance unbounded pageBytes w).length ≤
                      intMax := by
                    rw [advanced.length]
                    omega
                  exact induction (inv.turn enough stored goesOn
                    (refills.resumes segments inSpace short next))

end Chario.Nvme.Machine
