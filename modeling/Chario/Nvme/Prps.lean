import Mathlib.Data.List.Basic
import Mathlib.Data.List.Nodup
import Mathlib.Data.List.Range
import Chario.Library.Prp

namespace Chario.Nvme

open Chario.Library

/-! `nvme_setup_prps` and `nvme_setup_phys_prps`: the PRP lists of a
transfer. -/

/-- A `dma_pool` whose blocks are as large as they are aligned.  `alloc turn` is
the address of the block that the allocation with this number returns. -/
structure DmaPool (size : Nat) where
  alloc : Nat → Option Nat
  aligned : ∀ {turn dma : Nat}, alloc turn = some dma → dma % size = 0
  fresh : ∀ {turn other dma : Nat}, alloc turn = some dma →
    alloc other = some dma → turn = other

structure PrpPools where
  small : DmaPool 256
  page : DmaPool pageBytes

/-- A mapped scatterlist entry: `sg_dma_address` and `sg_dma_len`. -/
structure Segment where
  address : Nat
  len : Nat
deriving DecidableEq, Repr

/-- A block of PRP entries.  Entries past the written ones are indeterminate. -/
structure PrpBlock where
  dma : Nat
  entries : List Nat
deriving DecidableEq, Repr

/-- The fields of `struct nvme_iod` that the PRP code uses.  `firstDma` is
indeterminate until it is set. -/
structure NvmeIod where
  sg : List Segment
  npages : Int
  lists : List PrpBlock
  firstDma : Option Nat
deriving DecidableEq, Repr

structure NvmePhysIod where
  npages : Int
  lists : List PrpBlock
  prp1 : Option Nat
  prp2 : Option Nat
deriving DecidableEq, Repr

/-- Store an entry at the end of the current list block.  A full block gives up
its last entry to a fresh one and points to it. -/
def storePrp (perBlock : Nat) (fresh : Option Nat) (entry : Nat) :
    List PrpBlock → Option (List PrpBlock)
  | [] => none
  | [current] =>
      if current.entries.length = perBlock then
        match fresh, current.entries.getLast? with
        | some dma, some moved =>
            some [⟨current.dma, current.entries.dropLast ++ [dma]⟩,
              ⟨dma, [moved, entry]⟩]
        | _, _ => none
      else some [⟨current.dma, current.entries ++ [entry]⟩]
  | block :: rest => (storePrp perBlock fresh entry rest).map (block :: ·)

structure PrpLoop where
  lists : List PrpBlock
  npages : Int
  dmaAddr : Nat
  dmaLen : Int
  length : Int
  sg : List Segment

def blockFull (perBlock : Nat) (lists : List PrpBlock) : Bool :=
  (lists.getLast?.map (·.entries.length)) = some perBlock

def PrpLoop.stored (pageSize : Nat) (s : PrpLoop) (lists : List PrpBlock) :
    PrpLoop :=
  { s with
    lists := lists
    npages :=
      if blockFull (pageSize / 8) s.lists then s.npages + 1 else s.npages
    dmaAddr := s.dmaAddr + pageSize
    dmaLen := s.dmaLen - pageSize
    length := s.length - pageSize }

/-- The loop.  It returns `total_len - length` when a list page cannot be
allocated, and `none` where the kernel stops: at `BUG_ON` or past the end of the
scatterlist.  `refill` is what the loop does at the end of a segment. -/
def prpLoop (pageSize : Nat) (alloc : Nat → Option Nat)
    (refill : PrpLoop → Option PrpLoop) (totalLen : Int) :
    Nat → PrpLoop → Option (Int × PrpLoop)
  | 0, _ => none
  | fuel + 1, s =>
      match storePrp (pageSize / 8) (alloc s.lists.length)
          s.dmaAddr s.lists with
      | none => some (totalLen - s.length, s)
      | some lists =>
          let s := s.stored pageSize lists
          if s.length ≤ 0 then some (totalLen, s)
          else if 0 < s.dmaLen then
            prpLoop pageSize alloc refill totalLen fuel s
          else if s.dmaLen < 0 then none
          else
            match refill s with
            | none => none
            | some s => prpLoop pageSize alloc refill totalLen fuel s

def nextSegment (s : PrpLoop) : Option PrpLoop :=
  match s.sg with
  | [] => none
  | segment :: rest =>
      some { s with
        dmaAddr := segment.address
        dmaLen := segment.len
        sg := rest }

def nprps (pageSize : Nat) (length : Int) : Nat :=
  (length.toNat + pageSize - 1) / pageSize

def prpPool (pools : PrpPools) (count : Nat) : (Nat → Option Nat) × Int :=
  if count ≤ 256 / 8 then (pools.small.alloc, 0) else (pools.page.alloc, 1)

def nvmeSetupPrps (pageSize : Nat) (pools : PrpPools) (sg : List Segment)
    (totalLen : Int) : Option (Int × NvmeIod) :=
  match sg with
  | [] => none
  | first :: rest =>
      let iod : NvmeIod := ⟨sg, -1, [], none⟩
      let head : Int := pageSize - first.address % pageSize
      let length := totalLen - head
      if length ≤ 0 then some (totalLen, iod)
      else
        let moved : PrpLoop :=
          ⟨[], -1, first.address + (pageSize - first.address % pageSize),
            first.len - head, length, rest⟩
        match if moved.dmaLen ≠ 0 then some moved else nextSegment moved with
        | none => none
        | some s =>
            if length ≤ pageSize then
              some (totalLen, { iod with firstDma := some s.dmaAddr })
            else
              let (alloc, npages) := prpPool pools (nprps pageSize length)
              match alloc 0 with
              | none =>
                  some (totalLen - length + pageSize,
                    { iod with firstDma := some s.dmaAddr })
              | some dma =>
                  match prpLoop pageSize alloc nextSegment totalLen
                      (nprps pageSize length)
                      { s with lists := [⟨dma, []⟩], npages := npages } with
                  | none => none
                  | some (ret, s) =>
                      some (ret, ⟨sg, s.npages, s.lists, some dma⟩)

def refillPage (pageSize : Nat) (s : PrpLoop) : Option PrpLoop :=
  some { s with dmaLen := pageSize }

/-- `nvme_setup_phys_prps`.  The list starts at `address + page_size` whatever
the offset of `address` in its page.  That sum is a `dma_addr_t` of 32 bits; the
entries after it are counted on in 64 bits. -/
def nvmeSetupPhysPrps (pageSize : Nat) (pools : PrpPools) (totalLen : Int)
    (address : Nat) : Option (Int × NvmePhysIod) :=
  let iod : NvmePhysIod := ⟨-1, [], some address, none⟩
  let head : Int := pageSize - address % pageSize
  let length := totalLen - head
  if length ≤ 0 then some (totalLen, iod)
  else if length ≤ pageSize then
    some (totalLen, { iod with prp2 := some ((address + pageSize) % 2 ^ 32) })
  else
    let (alloc, npages) := prpPool pools (nprps pageSize length)
    match alloc 0 with
    | none =>
        some (totalLen - length + pageSize,
          { iod with prp2 := some ((address + pageSize) % 2 ^ 32) })
    | some dma =>
        match prpLoop pageSize alloc (refillPage pageSize) totalLen
            (nprps pageSize length)
            ⟨[⟨dma, []⟩], npages, (address + pageSize) % 2 ^ 32, length, length,
              []⟩ with
        | none => none
        | some (ret, s) =>
            some (ret, ⟨s.npages, s.lists, some address, some dma⟩)

/-! What the loop writes. -/

def perPage : Nat := pageBytes / 8

inductive Packed : List Nat → List PrpBlock → Prop
  | single {dma : Nat} {pages : List Nat} (fits : pages.length ≤ perPage) :
      Packed pages [⟨dma, pages⟩]
  | chained {dma : Nat} {pages later : List Nat} {block : PrpBlock}
      {blocks : List PrpBlock} (full : pages.length + 1 = perPage)
      (more : 2 ≤ later.length) (tail : Packed later (block :: blocks)) :
      Packed (pages ++ later)
        (⟨dma, pages ++ [block.dma]⟩ :: block :: blocks)

def Allocated (alloc : Nat → Option Nat) (lists : List PrpBlock) : Prop :=
  lists.map (some ∘ PrpBlock.dma) = (List.range lists.length).map alloc

theorem storePrp_packed {pages : List Nat} {lists : List PrpBlock}
    (packed : Packed pages lists) {fresh : Option Nat} (entry : Nat)
    (room : blockFull perPage lists = true → fresh ≠ none) :
    ∃ stored, storePrp perPage fresh entry lists = some stored ∧
      Packed (pages ++ [entry]) stored ∧
      stored.head?.map PrpBlock.dma = lists.head?.map PrpBlock.dma ∧
      stored.map PrpBlock.dma = lists.map PrpBlock.dma ++
        (if blockFull perPage lists then fresh.toList else []) := by
  induction packed with
  | @single first pages fits =>
      by_cases full : pages.length = perPage
      · have nonempty : pages ≠ [] := by
          rintro rfl
          simp [perPage, pageBytes] at full
        have moved := List.getLast?_eq_getLast_of_ne_nil nonempty
        obtain ⟨dma, rfl⟩ := Option.ne_none_iff_exists'.mp
          (room (by simp [blockFull, full]))
        refine ⟨[⟨first, pages.dropLast ++ [dma]⟩,
          ⟨dma, [pages.getLast nonempty, entry]⟩], ?_, ?_, rfl, ?_⟩
        · simp only [storePrp, if_pos full, moved]
        · have split : pages ++ [entry] =
              pages.dropLast ++ [pages.getLast nonempty, entry] := by
            calc
              pages ++ [entry] = pages.dropLast ++
                  [pages.getLast nonempty] ++ [entry] := by
                rw [List.dropLast_append_getLast nonempty]
              _ = pages.dropLast ++ [pages.getLast nonempty, entry] := by
                rw [List.append_assoc]
                rfl
          rw [split]
          refine .chained ?_ (by simp) (.single (by simp [perPage, pageBytes]))
          rw [List.length_dropLast, full]
          rfl
        · simp [blockFull, full]
      · refine ⟨[⟨first, pages ++ [entry]⟩], ?_, ?_, rfl, ?_⟩
        · simp only [storePrp, if_neg full]
        · refine .single ?_
          rw [List.length_append, List.length_singleton]
          omega
        · simp [blockFull, full]
  | @chained first pages later block blocks full more tail induction =>
      have same : blockFull perPage
          (⟨first, pages ++ [block.dma]⟩ :: block :: blocks) =
          blockFull perPage (block :: blocks) := by
        simp [blockFull]
      obtain ⟨stored, ran, packed, head, dmas⟩ := induction (by rwa [← same])
      cases stored with
      | nil => simp at head
      | cons next rest =>
          simp only [List.head?_cons, Option.map_some,
            Option.some.injEq] at head
          refine ⟨⟨first, pages ++ [block.dma]⟩ :: next :: rest, ?_,
            ?_, rfl, ?_⟩
          · simp only [storePrp, ran, Option.map_some]
          · rw [List.append_assoc, ← head]
            exact .chained full (by simp; omega) packed
          · rw [same, List.map_cons, dmas]
            rfl

theorem storePrp_refused {pages : List Nat} {lists : List PrpBlock}
    (packed : Packed pages lists) (entry : Nat)
    (full : blockFull perPage lists = true) :
    storePrp perPage none entry lists = none := by
  induction packed with
  | @single first pages fits =>
      have isFull : pages.length = perPage := by simpa [blockFull] using full
      simp only [storePrp, if_pos isFull]
  | @chained first pages later block blocks _ _ _ induction =>
      simp only [storePrp, induction (by simpa [blockFull] using full),
        Option.map_none]

def listBlocks (count : Nat) : Nat := (count - 2) / (perPage - 1) + 1

theorem Packed.length_eq {pages : List Nat} {lists : List PrpBlock}
    (packed : Packed pages lists) :
    lists.length = listBlocks pages.length := by
  induction packed with
  | single fits =>
      unfold listBlocks perPage pageBytes at *
      simp only [List.length_singleton]
      omega
  | chained full more _ induction =>
      rw [List.length_cons, induction, List.length_append]
      unfold listBlocks perPage pageBytes at *
      omega

theorem Packed.length_of_full {pages : List Nat} {lists : List PrpBlock}
    (packed : Packed pages lists) (full : blockFull perPage lists = true) :
    pages.length = (perPage - 1) * lists.length + 1 := by
  induction packed with
  | single fits =>
      have isFull := by simpa [blockFull] using full
      rw [isFull, List.length_singleton]
      rfl
  | chained front more _ induction =>
      have later := induction (by simpa [blockFull] using full)
      simp only [List.length_append, List.length_cons] at later ⊢
      unfold perPage pageBytes at *
      omega

theorem Allocated.append {alloc : Nat → Option Nat} {lists : List PrpBlock}
    (allocated : Allocated alloc lists) {stored : List PrpBlock} {grows : Bool}
    (room : grows = true → alloc lists.length ≠ none)
    (dmas : stored.map PrpBlock.dma = lists.map PrpBlock.dma ++
      (if grows then (alloc lists.length).toList else [])) :
    Allocated alloc stored := by
  have lengths := congrArg List.length dmas
  have somes := congrArg (List.map some) dmas
  unfold Allocated at *
  cases grows with
  | false =>
      simp only [Bool.false_eq_true, if_false, List.append_nil,
        List.length_map] at lengths somes
      rw [lengths, ← allocated]
      simpa [List.map_map] using somes
  | true =>
      obtain ⟨dma, next⟩ := Option.ne_none_iff_exists'.mp (room rfl)
      simp only [if_true, next, Option.toList_some, List.length_append,
        List.length_map, List.length_singleton] at lengths somes
      rw [lengths, List.range_succ, List.map_append, ← allocated]
      simpa [List.map_map, next] using somes

/-- From an address with `dmaLen` bytes left in its segment, and with the
segments after it, `length` bytes lie in the given pages. -/
inductive PageRun : Nat → Int → List Segment → Int → List Nat → Prop
  | last {address : Nat} {dmaLen length : Int} {sg : List Segment}
      (some : 0 < length) (short : length ≤ pageBytes) :
      PageRun address dmaLen sg length [address]
  | same {address : Nat} {dmaLen length : Int} {sg : List Segment}
      {pages : List Nat} (more : pageBytes < length)
      (inside : pageBytes < dmaLen)
      (rest : PageRun (address + pageBytes) (dmaLen - pageBytes) sg
        (length - pageBytes) pages) :
      PageRun address dmaLen sg length (address :: pages)
  | next {address : Nat} {dmaLen length : Int} {segment : Segment}
      {sg : List Segment} {pages : List Nat} (more : pageBytes < length)
      (ends : dmaLen = pageBytes)
      (rest : PageRun segment.address segment.len sg (length - pageBytes)
        pages) :
          PageRun address dmaLen (segment :: sg) length (address :: pages)

namespace PageRun

variable {address : Nat} {dmaLen length : Int} {sg : List Segment}
variable {pages : List Nat}

theorem positive (run : PageRun address dmaLen sg length pages) :
    0 < length := by
  cases run with
  | last some _ => exact some
  | same more _ _ => unfold pageBytes at more; omega
  | next more _ _ => unfold pageBytes at more; omega

theorem head (run : PageRun address dmaLen sg length pages) :
    ∃ rest, pages = address :: rest := by
  cases run with
  | last _ _ => exact ⟨[], rfl⟩
  | same _ _ _ => exact ⟨_, rfl⟩
  | next _ _ _ => exact ⟨_, rfl⟩

theorem eq_singleton (run : PageRun address dmaLen sg length pages)
    (short : length ≤ pageBytes) : pages = [address] := by
  cases run with
  | last _ _ => rfl
  | same more _ _ => omega
  | next more _ _ => omega

theorem length_eq (run : PageRun address dmaLen sg length pages) :
    pages.length = nprps pageBytes length := by
  induction run with
  | last some short =>
      simp only [List.length_singleton]
      unfold nprps pageBytes at *
      omega
  | same more _ rest induction =>
      have positive := rest.positive
      rw [List.length_cons, induction]
      unfold nprps pageBytes at *
      omega
  | next more _ rest induction =>
      have positive := rest.positive
      rw [List.length_cons, induction]
      unfold nprps pageBytes at *
      omega

end PageRun

structure Written (alloc : Nat → Option Nat) (pages : List Nat)
    (before after : PrpLoop) : Prop where
  packed : Packed pages after.lists
  allocated : Allocated alloc after.lists
  first : after.lists.head?.map PrpBlock.dma =
    before.lists.head?.map PrpBlock.dma
  npages : after.npages - after.lists.length =
    before.npages - before.lists.length

theorem Written.trans {alloc : Nat → Option Nat} {pages later : List Nat}
    {before middle after : PrpLoop} (one : Written alloc pages before middle)
    (two : Written alloc later middle after) :
    Written alloc later before after where
  packed := two.packed
  allocated := two.allocated
  first := two.first.trans one.first
  npages := two.npages.trans one.npages

theorem exists_stored {alloc : Nat → Option Nat} {s : PrpLoop}
    {pages : List Nat} (packed : Packed pages s.lists)
    (allocated : Allocated alloc s.lists)
    (room : blockFull perPage s.lists = true → alloc s.lists.length ≠ none) :
    ∃ lists, storePrp (pageBytes / 8) (alloc s.lists.length) s.dmaAddr s.lists =
        some lists ∧
      Written alloc (pages ++ [s.dmaAddr]) s (s.stored pageBytes lists) := by
  obtain ⟨lists, ran, after, head, dmas⟩ :=
    storePrp_packed packed s.dmaAddr room
  have grown := congrArg List.length dmas
  refine ⟨lists, ran, after, allocated.append room dmas, head, ?_⟩
  have size : pageBytes / 8 = perPage := rfl
  simp only [PrpLoop.stored, size]
  cases full : blockFull perPage s.lists with
  | true =>
      obtain ⟨dma, isNext⟩ := Option.ne_none_iff_exists'.mp (room full)
      simp only [full, isNext, Option.toList_some, if_true, List.length_append,
        List.length_map, List.length_singleton] at grown ⊢
      omega
  | false =>
      simp only [full, Bool.false_eq_true, if_false, List.append_nil,
        List.length_map] at grown ⊢
      omega

inductive LoopEnd (alloc : Nat → Option Nat) (totalLen : Int)
    (stored pages : List Nat) (before after : PrpLoop) : Int → Prop
  | all (written : Written alloc (stored ++ pages) before after) :
      LoopEnd alloc totalLen stored pages before after totalLen
  | stopped {ret : Int} {front : List Nat} (short : ret ≠ totalLen)
      (part : front <+: pages) (less : front.length < pages.length)
      (written : Written alloc (stored ++ front) before after)
      (full : blockFull perPage after.lists = true)
      (refused : alloc after.lists.length = none) :
      LoopEnd alloc totalLen stored pages before after ret

/-- A step that stored a page, and the rest of the loop. -/
theorem LoopEnd.cons {alloc : Nat → Option Nat} {totalLen ret : Int}
    {page : Nat} {stored pages : List Nat} {before middle after : PrpLoop}
    (one : Written alloc (stored ++ [page]) before middle)
    (rest : LoopEnd alloc totalLen (stored ++ [page]) pages middle after ret) :
    LoopEnd alloc totalLen stored (page :: pages) before after ret := by
  cases rest with
  | all written =>
      rw [List.append_assoc] at written
      exact .all (one.trans written)
  | stopped short part less written full refused =>
      rw [List.append_assoc] at written
      refine .stopped short ((List.prefix_append_right_inj [page]).mpr part) ?_
        (one.trans written) full refused
      simpa using less

theorem refused_or_room (alloc : Nat → Option Nat) (lists : List PrpBlock) :
    (blockFull perPage lists = true ∧ alloc lists.length = none) ∨
      (blockFull perPage lists = true → alloc lists.length ≠ none) := by
  by_cases full : blockFull perPage lists = true
  · by_cases none : alloc lists.length = none
    · exact .inl ⟨full, none⟩
    · exact .inr (fun _ => none)
  · exact .inr (fun isFull => absurd isFull full)

section Loop

variable {alloc : Nat → Option Nat} {refill : PrpLoop → Option PrpLoop}
variable {totalLen : Int} {s : PrpLoop} {stored pages : List Nat}

theorem prpLoop_refused {page : Nat} (packed : Packed stored s.lists)
    (allocated : Allocated alloc s.lists) (positive : 0 < s.length)
    (full : blockFull perPage s.lists = true)
    (none : alloc s.lists.length = none) :
    ∃ ret after, prpLoop pageBytes alloc refill totalLen (pages.length + 1) s =
        some (ret, after) ∧
      LoopEnd alloc totalLen stored (page :: pages) s after ret := by
  refine ⟨totalLen - s.length, s, ?_, ?_⟩
  · have stops := storePrp_refused packed s.dmaAddr full
    rw [prpLoop, none, show pageBytes / 8 = perPage from rfl, stops]
  · refine .stopped (by omega) List.nil_prefix (by simp)
      ⟨?_, allocated, rfl, rfl⟩ full none
    rwa [List.append_nil]

section Stored

variable {lists : List PrpBlock} {fuel : Nat}
variable (ran : storePrp (pageBytes / 8) (alloc s.lists.length) s.dmaAddr
  s.lists = some lists)

include ran

theorem prpLoop_done (ends : s.length ≤ pageBytes) :
    prpLoop pageBytes alloc refill totalLen (fuel + 1) s =
      some (totalLen, s.stored pageBytes lists) := by
  have finished : (s.stored pageBytes lists).length ≤ 0 := by
    simp only [PrpLoop.stored]
    omega
  simp only [prpLoop, ran, if_pos finished]

variable (more : pageBytes < s.length)

include more

theorem prpLoop_same (left : pageBytes < s.dmaLen) :
    prpLoop pageBytes alloc refill totalLen (fuel + 1) s =
      prpLoop pageBytes alloc refill totalLen fuel
        (s.stored pageBytes lists) := by
  have goesOn : ¬ (s.stored pageBytes lists).length ≤ 0 := by
    simp only [PrpLoop.stored]
    omega
  have stays : 0 < (s.stored pageBytes lists).dmaLen := by
    simp only [PrpLoop.stored]
    omega
  simp only [prpLoop, ran, if_neg goesOn, if_pos stays]

theorem prpLoop_next (spent : s.dmaLen = pageBytes) {segment : Segment}
    {sg : List Segment} (isSg : s.sg = segment :: sg)
    (isNext : refill = nextSegment) :
    prpLoop pageBytes alloc refill totalLen (fuel + 1) s =
      prpLoop pageBytes alloc refill totalLen fuel
        { s.stored pageBytes lists with
          dmaAddr := segment.address
          dmaLen := segment.len
          sg := sg } := by
  have goesOn : ¬ (s.stored pageBytes lists).length ≤ 0 := by
    simp only [PrpLoop.stored]
    omega
  have empty : (s.stored pageBytes lists).dmaLen = 0 := by
    simp only [PrpLoop.stored]
    omega
  have refilled : refill (s.stored pageBytes lists) =
      some { s.stored pageBytes lists with
        dmaAddr := segment.address
        dmaLen := segment.len
        sg := sg } := by
    have same : (s.stored pageBytes lists).sg = segment :: sg := isSg
    rw [isNext, nextSegment, same]
  simp only [prpLoop, ran, if_neg goesOn, empty, lt_irrefl, if_false, refilled]

end Stored

end Loop

theorem prpLoop_ends {alloc : Nat → Option Nat}
    {refill : PrpLoop → Option PrpLoop} {totalLen : Int}
    {address : Nat} {dmaLen length : Int} {sg : List Segment}
    {pages : List Nat} (run : PageRun address dmaLen sg length pages) :
    ∀ {s : PrpLoop} {stored : List Nat}, s.dmaAddr = address →
      s.dmaLen = dmaLen → s.sg = sg → s.length = length →
      (refill = nextSegment ∨ sg = []) → Packed stored s.lists →
      Allocated alloc s.lists →
      ∃ ret after, prpLoop pageBytes alloc refill totalLen pages.length s =
          some (ret, after) ∧
        LoopEnd alloc totalLen stored pages s after ret := by
  induction run with
  | @last address dmaLen length sg some short =>
      rintro s stored rfl rfl rfl rfl - packed allocated
      rcases refused_or_room alloc s.lists with ⟨full, none⟩ | room
      · exact prpLoop_refused packed allocated some full none
      obtain ⟨lists, ran, written⟩ := exists_stored packed allocated room
      exact ⟨_, _, prpLoop_done ran short, .all written⟩
  | @same address dmaLen length sg pages more inside rest induction =>
      rintro s stored rfl rfl rfl rfl refills packed allocated
      rcases refused_or_room alloc s.lists with ⟨full, none⟩ | room
      · exact prpLoop_refused packed allocated
          (by unfold pageBytes at more; omega) full none
      obtain ⟨lists, ran, written⟩ := exists_stored packed allocated room
      obtain ⟨ret, after, later, finished⟩ :=
        @induction (s.stored pageBytes lists) _ rfl rfl rfl rfl refills
          written.packed written.allocated
      refine ⟨ret, after, ?_, .cons written finished⟩
      rw [List.length_cons, prpLoop_same ran more inside]
      exact later
  | @next address dmaLen length segment sg pages more ends rest induction =>
      rintro s stored rfl rfl isSg rfl refills packed allocated
      have isNext : refill = nextSegment := by simpa using refills
      rcases refused_or_room alloc s.lists with ⟨full, none⟩ | room
      · exact prpLoop_refused packed allocated
          (by unfold pageBytes at more; omega) full none
      obtain ⟨lists, ran, written⟩ := exists_stored packed allocated room
      have moved : Written alloc (stored ++ [s.dmaAddr]) s
          { s.stored pageBytes lists with
            dmaAddr := segment.address
            dmaLen := segment.len
            sg := sg } :=
        ⟨written.packed, written.allocated, written.first, written.npages⟩
      obtain ⟨ret, after, later, finished⟩ :=
        @induction { s.stored pageBytes lists with
            dmaAddr := segment.address
            dmaLen := segment.len
            sg := sg } _ rfl rfl rfl rfl (.inl isNext)
          written.packed written.allocated
      refine ⟨ret, after, ?_, .cons moved finished⟩
      rw [List.length_cons, prpLoop_next ran more ends isSg isNext]
      exact later

theorem Packed.single_of_length {pages : List Nat} {lists : List PrpBlock}
    (packed : Packed pages lists) (fits : pages.length ≤ perPage) :
    ∃ dma, lists = [⟨dma, pages⟩] := by
  cases packed with
  | single _ => exact ⟨_, rfl⟩
  | chained full more _ =>
      rw [List.length_append] at fits
      omega

structure PrpPools.Granted (pools : PrpPools) : Prop where
  small : ∀ turn, ∃ dma, pools.small.alloc turn = some dma
  page : ∀ turn, ∃ dma, pools.page.alloc turn = some dma

inductive Listed : List Nat → Option Nat → Int → List PrpBlock → Prop
  | none {prp2 : Option Nat} : Listed [] prp2 (-1) []
  | one {page : Nat} : Listed [page] (some page) (-1) []
  | small {dma : Nat} {pages : List Nat} (two : 2 ≤ pages.length)
      (fits : pages.length ≤ 256 / 8) (aligned : dma % 256 = 0) :
      Listed pages (some dma) 0 [⟨dma, pages⟩]
  | paged {dma : Nat} {pages : List Nat} {lists : List PrpBlock}
      (many : 256 / 8 < pages.length) (packed : Packed pages lists)
      (first : lists.head?.map PrpBlock.dma = some dma)
      (distinct : (lists.map PrpBlock.dma).Nodup)
      (aligned : ∀ block ∈ lists, block.dma % pageBytes = 0) :
      Listed pages (some dma) lists.length lists

end Chario.Nvme
