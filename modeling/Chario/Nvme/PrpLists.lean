import Chario.Nvme.Prps

namespace Chario.Nvme

open Chario.Library

/-! How the two set-up functions end, whichever list blocks the pools grant. -/

section Allocated

variable {alloc : Nat → Option Nat} {lists : List PrpBlock}

theorem Allocated.granted (allocated : Allocated alloc lists) {turn : Nat}
    (below : turn < lists.length) : alloc turn ≠ none := by
  have here := congrArg (·[turn]?) allocated
  simp only [List.getElem?_map, List.getElem?_range below, Option.map_some,
    List.getElem?_eq_getElem below, Option.some.injEq] at here
  simp [← here]

variable {pool : DmaPool pageBytes}

theorem Allocated.nodup (allocated : Allocated pool.alloc lists) :
    (lists.map PrpBlock.dma).Nodup := by
  have somes : ((lists.map PrpBlock.dma).map some).Nodup := by
    rw [List.map_map, allocated]
    refine List.Nodup.map_on ?_ List.nodup_range
    intro turn member other member' same
    have inLists : pool.alloc turn ∈ lists.map (some ∘ PrpBlock.dma) := by
      rw [allocated]
      exact List.mem_map_of_mem member
    obtain ⟨block, -, isBlock⟩ := List.mem_map.mp inLists
    exact pool.fresh isBlock.symm (same ▸ isBlock.symm)
  exact somes.of_map

theorem Allocated.aligned (allocated : Allocated pool.alloc lists) :
    ∀ block ∈ lists, block.dma % pageBytes = 0 := by
  intro block member
  have listed : some block.dma ∈ (List.range lists.length).map pool.alloc := by
    rw [← allocated]
    exact List.mem_map_of_mem member
  obtain ⟨turn, -, isAlloc⟩ := List.mem_map.mp listed
  exact pool.aligned isAlloc

end Allocated

/-- The result of a set-up for the pages after the first: the return value, the
second pointer, `npages` and the list blocks. -/
inductive PrpEnd (pools : PrpPools) (pages : List Nat) (totalLen : Int) :
    Int → Option Nat → Int → List PrpBlock → Prop
  | built {prp2 : Option Nat} {npages : Int} {lists : List PrpBlock}
      (listed : Listed pages prp2 npages lists)
      (allocated : Allocated (prpPool pools pages.length).1 lists) :
      PrpEnd pools pages totalLen totalLen prp2 npages lists
  | refused {ret : Int} {prp2 : Option Nat} (short : ret ≠ totalLen)
      (many : 2 ≤ pages.length)
      (none : (prpPool pools pages.length).1 0 = none) :
      PrpEnd pools pages totalLen ret prp2 (-1) []
  | stopped {ret : Int} {dma : Nat} {front : List Nat} {lists : List PrpBlock}
      (short : ret ≠ totalLen) (many : 256 / 8 < pages.length)
      (part : front <+: pages) (packed : Packed front lists)
      (first : lists.head?.map PrpBlock.dma = some dma)
      (full : blockFull perPage lists = true)
      (allocated : Allocated pools.page.alloc lists)
      (fewer : lists.length < listBlocks pages.length)
      (none : pools.page.alloc lists.length = none) :
      PrpEnd pools pages totalLen ret (some dma) lists.length lists

/-- The pools grant every list block that so many entries need. -/
def PrpPools.Enough (pools : PrpPools) (count : Nat) : Prop :=
  2 ≤ count → ∀ turn < listBlocks count, (prpPool pools count).1 turn ≠ none

theorem PrpPools.Granted.enough {pools : PrpPools} (granted : pools.Granted)
    (count : Nat) : pools.Enough count := by
  intro _ turn _
  unfold prpPool
  split
  next =>
      obtain ⟨dma, isSome⟩ := granted.small turn
      simp [isSome]
  next =>
      obtain ⟨dma, isSome⟩ := granted.page turn
      simp [isSome]

theorem PrpEnd.ret_eq_iff {pools : PrpPools} {pages : List Nat}
    {totalLen ret npages : Int} {prp2 : Option Nat} {lists : List PrpBlock}
    (ended : PrpEnd pools pages totalLen ret prp2 npages lists) :
    ret = totalLen ↔ pools.Enough pages.length := by
  cases ended with
  | built listed allocated =>
      refine ⟨fun _ many turn below => allocated.granted ?_, fun _ => rfl⟩
      cases listed with
      | none => cases many
      | one => simp at many
      | small two fits aligned =>
          unfold listBlocks perPage pageBytes at below
          simp only [List.length_singleton]
          omega
      | paged _ packed _ _ _ => rwa [packed.length_eq]
  | refused short many none =>
      refine ⟨fun same => absurd same short, fun enough => ?_⟩
      exact absurd none (enough many 0 (Nat.succ_pos _))
  | stopped short many part packed first full allocated fewer none =>
      refine ⟨fun same => absurd same short, fun enough => ?_⟩
      have granted := enough (by omega) _ fewer
      rw [prpPool, if_neg (by omega)] at granted
      exact absurd none granted

theorem PrpEnd.listed {pools : PrpPools} {pages : List Nat}
    {totalLen ret npages : Int} {prp2 : Option Nat} {lists : List PrpBlock}
    (ended : PrpEnd pools pages totalLen ret prp2 npages lists)
    (enough : pools.Enough pages.length) :
    ret = totalLen ∧ Listed pages prp2 npages lists := by
  have same := ended.ret_eq_iff.mpr enough
  cases ended with
  | built listed _ => exact ⟨rfl, listed⟩
  | refused short _ _ => exact absurd same short
  | stopped short _ _ _ _ _ _ _ _ => exact absurd same short

theorem Packed.head_entry {pages : List Nat} {lists : List PrpBlock}
    (packed : Packed pages lists) :
    lists.head?.bind (·.entries.head?) = pages.head? := by
  cases packed with
  | single _ => rfl
  | @chained dma front later block blocks full _ _ =>
      cases front with
      | nil => simp [perPage, pageBytes] at full
      | cons _ _ => rfl

theorem PrpEnd.head_entry {pools : PrpPools} {pages : List Nat}
    {totalLen ret npages : Int} {prp2 : Option Nat} {lists : List PrpBlock}
    (ended : PrpEnd pools pages totalLen ret prp2 npages lists)
    (many : 2 ≤ pages.length)
    (granted : (prpPool pools pages.length).1 0 ≠ none) :
    lists.head?.bind (·.entries.head?) = pages.head? := by
  cases ended with
  | built listed _ =>
      cases listed with
      | none => cases many
      | one => simp at many
      | small _ _ _ => rfl
      | paged _ packed _ _ _ => exact packed.head_entry
  | refused _ _ none => exact absurd none granted
  | @stopped _ _ front _ _ _ part packed _ full _ _ _ =>
      have size := packed.length_of_full full
      rw [packed.head_entry]
      cases front with
      | nil =>
          simp only [List.length_nil] at size
          omega
      | cons page front =>
          obtain ⟨later, rfl⟩ := part
          rfl

section Ended

variable {pools : PrpPools} {before after : PrpLoop} {pages : List Nat}
variable {totalLen ret : Int} {dma : Nat}
variable (isFirst : (prpPool pools pages.length).1 0 = some dma)
variable (single : before.lists = [⟨dma, []⟩])
variable (npages : before.npages = (prpPool pools pages.length).2)
variable (ended :
    LoopEnd (prpPool pools pages.length).1 totalLen [] pages before
  after ret)

include isFirst single npages ended

theorem LoopEnd.prpEnd_small (two : 2 ≤ pages.length)
    (few : pages.length ≤ 256 / 8) :
    PrpEnd pools pages totalLen ret (some dma) after.npages after.lists := by
  have pool : prpPool pools pages.length = (pools.small.alloc, 0) := if_pos few
  cases ended with
  | all written =>
      obtain ⟨first, isSingle⟩ := written.packed.single_of_length (by
        unfold perPage pageBytes
        simp only [List.nil_append]
        omega)
      have isDma := written.first
      have isPages := written.npages
      have held := written.allocated
      rw [isSingle, single] at isDma isPages
      rw [isSingle] at held ⊢
      rw [npages, pool] at isPages
      rw [pool] at isFirst
      simp only [List.head?_cons, Option.map_some, Option.some.injEq] at isDma
      simp only [List.length_singleton] at isPages
      rw [isDma] at held ⊢
      rw [show after.npages = 0 by omega]
      exact .built (.small two few (pools.small.aligned isFirst)) held
  | stopped _ _ less written full _ =>
      have size := written.packed.length_of_full full
      have some : 0 < after.lists.length := by
        rw [written.packed.length_eq]
        exact Nat.succ_pos _
      rw [List.nil_append] at size
      unfold perPage pageBytes at size
      omega

omit isFirst in
/-- The loop with blocks of the page pool writes lists up to the first block
that it does not get. -/
theorem LoopEnd.prpEnd_paged (many : 256 / 8 < pages.length) :
    PrpEnd pools pages totalLen ret (some dma) after.npages after.lists := by
  have pool : prpPool pools pages.length = (pools.page.alloc, 1) :=
    if_neg (by omega)
  have isCount : ∀ {stored : List Nat},
      Written (prpPool pools pages.length).1 stored before after →
      after.npages = after.lists.length := by
    intro stored written
    have isPages := written.npages
    rw [npages, single, pool] at isPages
    simp only [List.length_singleton] at isPages
    omega
  have isDma : ∀ {stored : List Nat},
      Written (prpPool pools pages.length).1 stored before after →
      after.lists.head?.map PrpBlock.dma = some dma := by
    intro stored written
    rw [written.first, single]
    rfl
  cases ended with
  | all written =>
      rw [isCount written]
      have held := written.allocated
      rw [pool] at held
      exact .built (.paged (by omega) written.packed (isDma written) held.nodup
        held.aligned) (by rw [pool]; exact held)
  | stopped short part less written full refused =>
      rw [isCount written]
      have held := written.allocated
      have first := isDma written
      rw [pool] at held refused
      refine .stopped short (by omega) part written.packed first full held ?_
        refused
      have size := written.packed.length_of_full full
      rw [List.nil_append] at size
      unfold listBlocks
      unfold perPage pageBytes at *
      omega

end Ended

theorem prpLoop_prpEnd {pools : PrpPools} {s : PrpLoop} {pages : List Nat}
    {refill : PrpLoop → Option PrpLoop} {totalLen : Int}
    (run : PageRun s.dmaAddr s.dmaLen s.sg s.length pages)
    (long : pageBytes < s.length) (refills : refill = nextSegment ∨ s.sg = [])
    {dma : Nat}
    (isFirst : (prpPool pools (nprps pageBytes s.length)).1 0 = some dma) :
    ∃ ret after,
      prpLoop pageBytes (prpPool pools (nprps pageBytes s.length)).1 refill
          totalLen (nprps pageBytes s.length)
          { s with
            lists := [⟨dma, []⟩]
            npages := (prpPool pools (nprps pageBytes s.length)).2 } =
        some (ret, after) ∧
      PrpEnd pools pages totalLen ret (some dma) after.npages after.lists := by
  have count := run.length_eq
  have two : 2 ≤ pages.length := by
    rw [count]
    unfold nprps pageBytes at *
    omega
  rw [← count] at isFirst ⊢
  have before : Packed [] [(⟨dma, []⟩ : PrpBlock)] := .single (Nat.zero_le _)
  have allocated : Allocated (prpPool pools pages.length).1
      [(⟨dma, []⟩ : PrpBlock)] := by
    simp [Allocated, isFirst]
  obtain ⟨ret, after, ran, ended⟩ :=
    @prpLoop_ends (prpPool pools pages.length).1 refill totalLen _ _ _ _ _ run
      { s with
        lists := [⟨dma, []⟩]
        npages := (prpPool pools pages.length).2 } [] rfl rfl rfl rfl refills
      before allocated
  refine ⟨ret, after, ran, ?_⟩
  by_cases few : pages.length ≤ 256 / 8
  · exact ended.prpEnd_small isFirst rfl rfl two few
  · exact ended.prpEnd_paged rfl rfl (by omega)

def Segment.head (first : Segment) : Nat :=
  pageBytes - first.address % pageBytes

/-- Past the first page of a transfer of `totalLen` bytes from the segment
`first` on, the rest lies in the given pages. -/
inductive AfterFirst (first : Segment) (totalLen : Int) :
    List Segment → List Nat → Prop
  | inside {rest : List Segment} (ends : totalLen ≤ first.head) :
      AfterFirst first totalLen rest []
  | same {rest : List Segment} {pages : List Nat}
      (more : first.head < totalLen) (left : first.head < first.len)
      (run : PageRun (first.address + first.head) (first.len - first.head) rest
        (totalLen - first.head) pages) : AfterFirst first totalLen rest pages
  | next {segment : Segment} {rest : List Segment} {pages : List Nat}
      (more : first.head < totalLen) (spent : first.len = first.head)
      (run : PageRun segment.address segment.len rest (totalLen - first.head)
        pages) : AfterFirst first totalLen (segment :: rest) pages

theorem AfterFirst.length_eq {first : Segment} {totalLen : Int}
    {rest : List Segment} {pages : List Nat}
    (after : AfterFirst first totalLen rest pages) :
    pages.length = nprps pageBytes (totalLen - first.head) := by
  cases after with
  | inside ends =>
      unfold nprps pageBytes
      simp only [List.length_nil]
      omega
  | same _ _ run => exact run.length_eq
  | next _ _ run => exact run.length_eq

theorem nvmeSetupPrps_ends (pools : PrpPools) {first : Segment}
    {rest : List Segment} {totalLen : Int} {pages : List Nat}
    (after : AfterFirst first totalLen rest pages) :
    ∃ ret npages lists prp2,
      nvmeSetupPrps pageBytes pools (first :: rest) totalLen =
        some (ret, ⟨first :: rest, npages, lists, prp2⟩) ∧
      PrpEnd pools pages totalLen ret prp2 npages lists := by
  have below := Nat.mod_lt first.address (show 0 < pageBytes by decide)
  have isHead : (pageBytes : Int) - first.address % pageBytes = first.head := by
    unfold Segment.head pageBytes at *
    omega
  have isHead' : pageBytes - first.address % pageBytes = first.head := rfl
  -- the loop variables once the first page is behind
  have moves : first.head < totalLen → ∃ s : PrpLoop,
      (if (first.len : Int) - first.head ≠ 0 then
        some (⟨[], -1, first.address + first.head, first.len - first.head,
          totalLen - first.head, rest⟩ : PrpLoop)
        else nextSegment ⟨[], -1, first.address + first.head,
          first.len - first.head, totalLen - first.head, rest⟩) = some s ∧
      s.length = totalLen - first.head ∧
      PageRun s.dmaAddr s.dmaLen s.sg s.length pages := by
    intro long
    cases after with
    | inside ends => omega
    | same _ left run => exact ⟨_, if_pos (by omega), rfl, run⟩
    | next _ spent run => exact ⟨_, by rw [if_neg (by omega)]; rfl, rfl, run⟩
  by_cases long : first.head < totalLen
  · obtain ⟨s, moved, isLength, later⟩ := moves long
    have goesOn : ¬ totalLen - (first.head : Int) ≤ 0 := by omega
    by_cases short : totalLen - (first.head : Int) ≤ pageBytes
    · refine ⟨totalLen, -1, [], some s.dmaAddr, ?_, ?_⟩
      · simp only [nvmeSetupPrps, isHead, isHead', if_neg goesOn, moved,
          if_pos short]
      · rw [later.eq_singleton (by omega)]
        exact .built .one rfl
    · have many : 2 ≤ pages.length := by
        rw [later.length_eq, isLength]
        unfold nprps pageBytes at *
        omega
      cases isFirst : (prpPool pools (nprps pageBytes
          (totalLen - first.head))).1 0 with
      | none =>
          refine ⟨totalLen - (totalLen - first.head) + pageBytes, -1, [],
            some s.dmaAddr, ?_, ?_⟩
          · simp only [nvmeSetupPrps, isHead, isHead', if_neg goesOn, moved,
              if_neg short, isFirst]
          · refine .refused (by omega) many ?_
            rw [later.length_eq, isLength]
            exact isFirst
      | some dma =>
          rw [← isLength] at isFirst
          obtain ⟨ret, last, ran, ended⟩ :=
            @prpLoop_prpEnd pools s pages nextSegment totalLen later (by omega)
              (.inl rfl) dma isFirst
          refine ⟨ret, last.npages, last.lists, some dma, ?_, ended⟩
          rw [isLength] at isFirst
          simp only [isLength] at ran
          simp only [nvmeSetupPrps, isHead, isHead', if_neg goesOn, moved,
            if_neg short, isFirst, isLength, ran]
  · have ends : totalLen - (first.head : Int) ≤ 0 := by omega
    refine ⟨totalLen, -1, [], none, ?_, ?_⟩
    · simp only [nvmeSetupPrps, isHead, if_pos ends]
    · cases after with
      | inside _ => exact .built .none rfl
      | same more _ _ => omega
      | next more _ _ => omega

/-- The pages of a physical transfer as the driver lists them: the second one is
computed in 32 bits, the later ones are counted on from it. -/
def physFrame (address : Nat) : Nat → Nat
  | 0 => address
  | page + 1 => (address + pageBytes) % 2 ^ 32 + page * pageBytes

theorem physFrame_one (address : Nat) :
    physFrame address 1 = (address + pageBytes) % 2 ^ 32 := by
  rw [physFrame, Nat.zero_mul, Nat.add_zero]

theorem physFrame_of_le {address count : Nat}
    (inSpace : count = 0 ∨ address + pageBytes < 2 ^ 32) :
    ∀ page ≤ count, physFrame address page = address + page * pageBytes := by
  intro page inside
  cases page with
  | zero => rw [physFrame, Nat.zero_mul, Nat.add_zero]
  | succ page =>
      rw [physFrame, Nat.mod_eq_of_lt (inSpace.resolve_left (by omega)),
        Nat.succ_mul]
      omega

theorem physFrame_range' (address count : Nat) :
    (List.range' 1 count).map (physFrame address) =
      (List.range' 0 count).map
        (fun page => (address + pageBytes) % 2 ^ 32 + page * pageBytes) := by
  have shifted := List.map_add_range' (a := 1) 0 count 1
  rw [Nat.add_zero] at shifted
  rw [← shifted, List.map_map]
  apply List.map_congr_left
  intro page _
  rw [Function.comp_apply, Nat.add_comm]
  rfl

theorem pageRun_contiguous {address count : Nat} {length : Int}
    (some : 0 < length) (pages : nprps pageBytes length = count) (start : Nat) :
    PageRun (address + start * pageBytes) length [] length
      ((List.range' start count).map
        (fun page => address + page * pageBytes)) := by
  induction count generalizing length start with
  | zero =>
      unfold nprps pageBytes at pages
      omega
  | succ count induction =>
      by_cases long : pageBytes < length
      · rw [List.range'_succ, List.map_cons]
        refine .same long long ?_
        have next : address + start * pageBytes + pageBytes =
            address + (start + 1) * pageBytes := by
          rw [Nat.succ_mul, Nat.add_assoc]
        rw [next]
        exact induction (by omega) (by unfold nprps pageBytes at *; omega)
          (start + 1)
      · have one : count = 0 := by
          unfold nprps pageBytes at *
          omega
        rw [one]
        exact .last some (by omega)

theorem head_cast (address : Nat) :
    (pageBytes : Int) - address % pageBytes =
      (pageBytes - address % pageBytes : Nat) := by
  have below := Nat.mod_lt address (show 0 < pageBytes by decide)
  unfold pageBytes at *
  omega

theorem nvmeSetupPhysPrps_ends (pools : PrpPools) (address : Nat)
    (totalLen : Int) :
    ∃ ret npages lists prp2,
      nvmeSetupPhysPrps pageBytes pools totalLen address =
        some (ret, ⟨npages, lists, some address, prp2⟩) ∧
      PrpEnd pools ((List.range' 1 (nprps pageBytes
        (totalLen - (pageBytes - address % pageBytes : Nat)))).map
          (physFrame address)) totalLen ret prp2 npages lists := by
  have isHead := head_cast address
  generalize pageBytes - address % pageBytes = head at isHead
  by_cases long : head < totalLen
  · have goesOn : ¬ totalLen - (head : Int) ≤ 0 := by omega
    have run := @pageRun_contiguous ((address + pageBytes) % 2 ^ 32) _
      (totalLen - head) (by omega) rfl 0
    rw [Nat.zero_mul, Nat.add_zero, ← physFrame_range'] at run
    have count := run.length_eq
    by_cases short : totalLen - (head : Int) ≤ pageBytes
    · refine ⟨totalLen, -1, [], some ((address + pageBytes) % 2 ^ 32), ?_, ?_⟩
      · simp only [nvmeSetupPhysPrps, isHead, if_neg goesOn, if_pos short]
      · rw [run.eq_singleton short]
        exact .built .one rfl
    · cases isFirst :
          (prpPool pools (nprps pageBytes (totalLen - head))).1 0 with
      | none =>
          refine ⟨totalLen - (totalLen - head) + pageBytes, -1, [],
            some ((address + pageBytes) % 2 ^ 32), ?_, ?_⟩
          · simp only [nvmeSetupPhysPrps, isHead, if_neg goesOn, if_neg short,
              isFirst]
          · refine .refused (by omega) ?_ (by rw [count, isFirst])
            rw [count]
            unfold nprps pageBytes at *
            omega
      | some dma =>
          obtain ⟨ret, last, ran, ended⟩ :=
            @prpLoop_prpEnd pools
              ⟨[], -1, (address + pageBytes) % 2 ^ 32, totalLen - head,
                totalLen - head, []⟩
              _ (refillPage pageBytes) totalLen run (by simp only; omega)
              (.inr rfl) dma isFirst
          refine ⟨ret, last.npages, last.lists, some dma, ?_, ended⟩
          simp only at ran
          simp only [nvmeSetupPhysPrps, isHead, if_neg goesOn, if_neg short,
            isFirst, ran]
  · have ends : totalLen - (head : Int) ≤ 0 := by omega
    have none : nprps pageBytes (totalLen - head) = 0 := by
      unfold nprps pageBytes
      omega
    refine ⟨totalLen, -1, [], Option.none, ?_, ?_⟩
    · simp only [nvmeSetupPhysPrps, isHead, if_pos ends]
    · rw [none]
      exact .built .none rfl

end Chario.Nvme
