import Chario.Nvme.Mapping

namespace Chario.Nvme

open Chario.Library

/-! `nvme_setup_phys_prps` against `nvme_setup_prps` on a scatterlist of one
entry, with a `dma_addr_t` of 32 bits. -/

/-- The same return value, `npages`, pointers and lists.  The second pointer
counts when the transfer leaves its first page. -/
def BuildersAgree (pools : PrpPools) (address length : Nat) : Prop :=
  ∃ ret iod phys,
    nvmeSetupPrps pageBytes pools [⟨address, length⟩] length =
      some (ret, iod) ∧
    nvmeSetupPhysPrps pageBytes pools length address = some (ret, phys) ∧
    phys.npages = iod.npages ∧
    phys.prp1 = iod.sg.head?.map Segment.address ∧
    phys.lists = iod.lists ∧
    (pageBytes - address % pageBytes < length →
      phys.prp2.map (· % 2 ^ 32) = iod.firstDma.map (· % 2 ^ 32))

/-- As long as the segment is as long as the transfer, the loop ends before it
comes to the end of the segment. -/
theorem prpLoop_refill {alloc : Nat → Option Nat}
    (refill other : PrpLoop → Option PrpLoop) (totalLen : Int) (fuel : Nat) :
    ∀ {s : PrpLoop}, s.dmaLen = s.length →
      prpLoop pageBytes alloc refill totalLen fuel s =
        prpLoop pageBytes alloc other totalLen fuel s := by
  induction fuel with
  | zero =>
      intro s same
      rfl
  | succ fuel induction =>
      intro s same
      rw [prpLoop, prpLoop]
      split
      next => rfl
      next lists stored =>
          have left : (s.stored pageBytes lists).dmaLen =
              (s.stored pageBytes lists).length := by
            simp only [PrpLoop.stored, same]
          by_cases ends : (s.stored pageBytes lists).length ≤ 0
          · simp only [if_pos ends]
          · simp only [if_neg ends, if_pos (left ▸ not_le.mp ends)]
            exact induction left

theorem prpLoop_start (pools : PrpPools) (refill : PrpLoop → Option PrpLoop)
    (totalLen : Int) (start : Nat) {length : Int} (long : pageBytes < length)
    {dma : Nat}
    (isFirst : (prpPool pools (nprps pageBytes length)).1 0 = some dma) :
    ∃ ret after,
      prpLoop pageBytes (prpPool pools (nprps pageBytes length)).1 refill
          totalLen (nprps pageBytes length)
          ⟨[⟨dma, []⟩], (prpPool pools (nprps pageBytes length)).2, start,
            length, length, []⟩ = some (ret, after) ∧
      after.lists.head?.bind (·.entries.head?) = some start := by
  have run := @pageRun_contiguous start _ length
    (by unfold pageBytes at long; omega) rfl 0
  rw [Nat.zero_mul, Nat.add_zero] at run
  have count := run.length_eq
  have many : 2 ≤ nprps pageBytes length := by
    unfold nprps pageBytes at *
    omega
  obtain ⟨ret, after, ran, ended⟩ :=
    @prpLoop_prpEnd pools ⟨[], -1, start, length, length, []⟩ _ refill totalLen
      run long (.inr rfl) dma isFirst
  refine ⟨ret, after, ran, ?_⟩
  have entry := ended.head_entry (by rw [count]; exact many)
    (by rw [count, isFirst]; simp)
  rw [entry, List.head?_map, List.head?_range', if_neg (by omega)]
  simp

section Cases

variable {pools : PrpPools} {address length : Nat}

/-- The first bytes of the page after the first, in the two builders. -/
def sgSecond (address : Nat) : Nat :=
  address + (pageBytes - address % pageBytes)

def physSecond (address : Nat) : Nat := (address + pageBytes) % 2 ^ 32

theorem buildersAgree_inside
    (inside : length ≤ pageBytes - address % pageBytes) :
    BuildersAgree pools address length := by
  have ends : (length : Int) - (pageBytes - address % pageBytes : Nat) ≤ 0 := by
    omega
  refine ⟨length, ⟨[⟨address, length⟩], -1, [], none⟩,
    ⟨-1, [], some address, none⟩, ?_, ?_, rfl, rfl, rfl, fun _ => rfl⟩
  · simp only [nvmeSetupPrps, head_cast, if_pos ends]
  · simp only [nvmeSetupPhysPrps, head_cast, if_pos ends]

variable (more : pageBytes - address % pageBytes < length)

include more

theorem buildersAgree_page
    (noList : length ≤ pageBytes - address % pageBytes + pageBytes ∨
      (prpPool pools (nprps pageBytes (length -
        (pageBytes - address % pageBytes : Nat) : Int))).1 0 = none) :
    BuildersAgree pools address length ↔
      sgSecond address % 2 ^ 32 = physSecond address := by
  have goesOn :
      ¬ (length : Int) - (pageBytes - address % pageBytes : Nat) ≤ 0 := by
    omega
  have stays :
      (length : Int) - (pageBytes - address % pageBytes : Nat) ≠ 0 := by
    omega
  have results : ∃ ret,
      nvmeSetupPrps pageBytes pools [⟨address, length⟩] length =
        some (ret, ⟨[⟨address, length⟩], -1, [], some (sgSecond address)⟩) ∧
      nvmeSetupPhysPrps pageBytes pools length address =
        some (ret, ⟨-1, [], some address, some (physSecond address)⟩) := by
    by_cases short : (length : Int) - (pageBytes - address % pageBytes : Nat) ≤
        pageBytes
    · refine ⟨length, ?_, ?_⟩
      · simp only [nvmeSetupPrps, head_cast, if_neg goesOn, if_pos stays,
          if_pos short]
        rfl
      · simp only [nvmeSetupPhysPrps, head_cast, if_neg goesOn, if_pos short]
        rfl
    · have none := noList.resolve_left (by omega)
      refine ⟨length - (length - (pageBytes - address % pageBytes : Nat)) +
        pageBytes, ?_, ?_⟩
      · simp only [nvmeSetupPrps, head_cast, if_neg goesOn, if_pos stays,
          if_neg short, none]
        rfl
      · simp only [nvmeSetupPhysPrps, head_cast, if_neg goesOn, if_neg short,
          none]
        rfl
  obtain ⟨ret, built, physBuilt⟩ := results
  have wrapped : physSecond address % 2 ^ 32 = physSecond address :=
    Nat.mod_mod _ _
  constructor
  · rintro ⟨_, iod, phys, ran, physRan, -, -, -, pointer⟩
    cases built.symm.trans ran
    cases physBuilt.symm.trans physRan
    have same := Option.some.inj (pointer more)
    rw [← wrapped]
    exact same.symm
  · intro same
    refine ⟨ret, _, _, built, physBuilt, rfl, rfl, rfl, fun _ => ?_⟩
    simp only [Option.map_some, wrapped, same]

theorem buildersAgree_list
    (long : pageBytes - address % pageBytes + pageBytes < length) {dma : Nat}
    (granted : (prpPool pools (nprps pageBytes (length -
      (pageBytes - address % pageBytes : Nat) : Int))).1 0 = some dma) :
    BuildersAgree pools address length ↔
      sgSecond address = physSecond address := by
  have goesOn :
      ¬ (length : Int) - (pageBytes - address % pageBytes : Nat) ≤ 0 := by
    omega
  have stays :
      (length : Int) - (pageBytes - address % pageBytes : Nat) ≠ 0 := by
    omega
  have lists : ¬ (length : Int) - (pageBytes - address % pageBytes : Nat) ≤
      pageBytes := by
    omega
  obtain ⟨ret, after, ran, entry⟩ := prpLoop_start pools nextSegment length
    (sgSecond address) (not_le.mp lists) granted
  obtain ⟨physRet, physAfter, physRan, physEntry⟩ := prpLoop_start pools
    (refillPage pageBytes) length (physSecond address) (not_le.mp lists) granted
  have built : nvmeSetupPrps pageBytes pools [⟨address, length⟩] length =
      some (ret,
        ⟨[⟨address, length⟩], after.npages, after.lists, some dma⟩) := by
    rw [sgSecond] at ran
    simp only [nvmeSetupPrps, head_cast, if_neg goesOn, if_pos stays,
      if_neg lists, granted, ran]
  have physBuilt : nvmeSetupPhysPrps pageBytes pools length address =
      some (physRet, ⟨physAfter.npages, physAfter.lists, some address,
        some dma⟩) := by
    rw [physSecond] at physRan
    simp only [nvmeSetupPhysPrps, head_cast, if_neg goesOn, if_neg lists,
      granted, physRan]
  constructor
  · rintro ⟨_, iod, phys, isBuilt, isPhys, -, -, same, -⟩
    cases built.symm.trans isBuilt
    cases physBuilt.symm.trans isPhys
    simp only at same
    rw [same, entry] at physEntry
    exact Option.some.inj physEntry
  · intro same
    rw [← same, prpLoop_refill (refillPage pageBytes) nextSegment length _ rfl,
      ran] at physRan
    cases physRan
    exact ⟨ret, _, _, built, physBuilt, rfl, rfl, rfl, fun _ => rfl⟩

end Cases

theorem second_mod_iff (address : Nat) :
    sgSecond address % 2 ^ 32 = physSecond address ↔
      address % pageBytes = 0 := by
  unfold sgSecond physSecond pageBytes
  omega

theorem second_eq_iff {address : Nat} (inSpace : address < 2 ^ 32) :
    sgSecond address = physSecond address ↔
      address % pageBytes = 0 ∧ address + pageBytes < 2 ^ 32 := by
  unfold sgSecond physSecond pageBytes
  omega

/-- The physical builder agrees with the other exactly when the transfer ends in
its first page, or starts at a page and does not list pages past the end of the
32-bit addresses. -/
theorem phys_builder_agrees_iff (pools : PrpPools) {address : Nat}
    (inSpace : address < 2 ^ 32) (length : Nat) :
    BuildersAgree pools address length ↔
      length ≤ pageBytes - address % pageBytes ∨
      (address % pageBytes = 0 ∧
        (address + pageBytes < 2 ^ 32 ∨ length ≤ 2 * pageBytes ∨
          (prpPool pools (nprps pageBytes (length - pageBytes : Int))).1 0 =
            none)) := by
  by_cases inside : length ≤ pageBytes - address % pageBytes
  · simp only [buildersAgree_inside inside, inside, true_or]
  have below := Nat.mod_lt address (show 0 < pageBytes by decide)
  have more : pageBytes - address % pageBytes < length := by omega
  by_cases noList : length ≤ pageBytes - address % pageBytes + pageBytes ∨
      (prpPool pools (nprps pageBytes (length -
        (pageBytes - address % pageBytes : Nat) : Int))).1 0 = none
  · rw [buildersAgree_page more noList, second_mod_iff, or_iff_right inside]
    refine ⟨fun aligned => ⟨aligned, .inr ?_⟩, And.left⟩
    rw [aligned, Nat.sub_zero] at noList
    exact noList.imp (by omega) id
  · obtain ⟨long, isSome⟩ := not_or.mp noList
    obtain ⟨dma, granted⟩ := Option.ne_none_iff_exists'.mp isSome
    rw [buildersAgree_list more (by omega) granted, second_eq_iff inSpace,
      or_iff_right inside]
    refine and_congr_right (fun aligned => ⟨.inl, ?_⟩)
    rw [aligned, Nat.sub_zero] at noList
    rintro (fits | short | none)
    · exact fits
    · exact absurd (.inl (by omega)) noList
    · exact absurd (.inr none) noList

theorem phys_builder_agrees_whole :
    BuildersAgree Kernel.plain.pools 8192 4194304 ↔
      4194304 ≤ pageBytes - 8192 % pageBytes ∨
      (8192 % pageBytes = 0 ∧
        (8192 + pageBytes < 2 ^ 32 ∨ 4194304 ≤ 2 * pageBytes ∨
          (prpPool Kernel.plain.pools
            (nprps pageBytes ((4194304 : Nat) - pageBytes : Int))).1 0 =
            none)) :=
  phys_builder_agrees_iff Kernel.plain.pools (by decide) 4194304

/-- A page from offset 512 on: the physical PRP2 is 4608 and not 4096. -/
theorem phys_builder_disagrees_512 :
    ¬ BuildersAgree Kernel.plain.pools 512 4096 := by
  rw [buildersAgree_page (by decide) (.inl (by decide)), second_mod_iff]
  decide

end Chario.Nvme
