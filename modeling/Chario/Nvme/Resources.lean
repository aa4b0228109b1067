import Chario.Library.Custody
import Chario.Nvme.Mapping

namespace Chario.Nvme

open Chario.Library

/-! The two submission functions with what they take from the kernel and give
back on every way out. -/

inductive PrpPoolName
  | small
  | page
deriving DecidableEq, Repr

/-- A pinned page is named by its place in `pages`, a list block by its pool,
its place in the list array and the handle that goes with it. -/
inductive Resource
  | pagesArray
  | userPage (index : Nat)
  | iod
  | dmaMapping
  | prpList (pool : PrpPoolName) (index : Nat) (dma : Option Nat)
  | metadata (dma : Nat)
deriving DecidableEq, Repr

def userPages (count : Nat) : List Resource :=
  (List.range count).map .userPage

/-- `nvme_map_user_pages`.  The first pages are pinned when
`get_user_pages_fast` returns less than `count`, and none when it fails. -/
def nvmeMapUserPagesLog (pageSize : Nat) (kernel : Kernel) (addr length : Nat) :
    Except Stop (List Segment) × List (Custody Resource) :=
  if addr % 4 ≠ 0 then (.error (.status (-einval)), [])
  else if length = 0 ∨ intMax - pageBytes < length then
    (.error (.status (-einval)), [])
  else if kernel.kcalloc (userPageCount addr length) = false then
    (.error (.status (-enomem)), [])
  else if kernel.getUserPagesFast addr (userPageCount addr length) <
      userPageCount addr length then
    let count :=
      (kernel.getUserPagesFast addr (userPageCount addr length)).toNat
    (.error (.status (-efault)),
      acquires (.pagesArray :: userPages count) ++
        releases (userPages count ++ [.pagesArray]))
  else
    let pages := userPages (userPageCount addr length)
    if kernel.kmalloc (nvmeNpages pageSize length) = false then
      (.error (.status (-enomem)),
        acquires (.pagesArray :: pages) ++ releases (pages ++ [.pagesArray]))
    else
      match kernel.dmaMapSg (sgTable kernel.frames (userPageCount addr length)
          (addr / pageBytes) (addr % pageBytes) length) with
      | none =>
          (.error (.status (-enomem)),
            acquires (.pagesArray :: (pages ++ [.iod])) ++
              releases (.iod :: (pages ++ [.pagesArray])))
      | some sg =>
          (.ok sg,
            acquires (.pagesArray :: (pages ++ [.iod, .dmaMapping])) ++
              releases [.pagesArray])

def nvmeUnmapUserPages (nents : Nat) : List (Custody Resource) :=
  releases (.dmaMapping :: userPages nents)

def nvmeMapPhysPagesLog (pageSize : Nat) (kernel : Kernel) (addr length : Nat) :
    Except Stop Unit × List (Custody Resource) :=
  if addr % 4 ≠ 0 then (.error (.status (-einval)), [])
  else if length = 0 ∨ intMax - pageBytes < length then
    (.error (.status (-einval)), [])
  else if kernel.kmalloc (nvmeNpages pageSize length) = false then
    (.error (.status (-enomem)), [])
  else (.ok (), acquires [.iod])

def poolName (count : Nat) : PrpPoolName :=
  if count ≤ 256 / 8 then .small else .page

def listBlock (pools : PrpPools) (count turn : Nat) : Resource :=
  .prpList (poolName count) turn ((prpPool pools count).1 turn)

def prpLoopLog (pageSize : Nat) (pools : PrpPools) (count : Nat)
    (refill : PrpLoop → Option PrpLoop) : Nat → PrpLoop → List Resource
  | 0, _ => []
  | fuel + 1, s =>
      match storePrp (pageSize / 8) ((prpPool pools count).1 s.lists.length)
          s.dmaAddr s.lists with
      | none => []
      | some lists =>
          let taken := if blockFull (pageSize / 8) s.lists then
            [listBlock pools count s.lists.length] else []
          let s := s.stored pageSize lists
          if s.length ≤ 0 then taken
          else if 0 < s.dmaLen then
            taken ++ prpLoopLog pageSize pools count refill fuel s
          else if s.dmaLen < 0 then taken
          else
            match refill s with
            | none => taken
            | some s => taken ++ prpLoopLog pageSize pools count refill fuel s

def prpListsLog (pageSize : Nat) (pools : PrpPools)
    (refill : PrpLoop → Option PrpLoop) (s : PrpLoop) : List Resource :=
  if s.length ≤ pageSize then []
  else
    let count := nprps pageSize s.length
    match (prpPool pools count).1 0 with
    | none => []
    | some dma =>
        listBlock pools count 0 :: prpLoopLog pageSize pools count refill count
          { s with lists := [⟨dma, []⟩], npages := (prpPool pools count).2 }

def nvmeSetupPrpsLog (pageSize : Nat) (pools : PrpPools) (sg : List Segment)
    (totalLen : Int) : List Resource :=
  match sg with
  | [] => []
  | first :: rest =>
      let head : Int := pageSize - first.address % pageSize
      let length := totalLen - head
      if length ≤ 0 then []
      else
        let moved : PrpLoop :=
          ⟨[], -1, first.address + (pageSize - first.address % pageSize),
            first.len - head, length, rest⟩
        match if moved.dmaLen ≠ 0 then some moved else nextSegment moved with
        | none => []
        | some s => prpListsLog pageSize pools nextSegment s

def nvmeSetupPhysPrpsLog (pageSize : Nat) (pools : PrpPools) (totalLen : Int)
    (address : Nat) : List Resource :=
  let head : Int := pageSize - address % pageSize
  let length := totalLen - head
  if length ≤ 0 then []
  else prpListsLog pageSize pools (refillPage pageSize)
    ⟨[], -1, (address + pageSize) % 2 ^ 32, length, length, []⟩

/-- The loop of `nvme_free_iod`: the handle of a block comes from the last slot
of the block before it. -/
def freePrpLists (lastPrp : Nat) :
    Nat → Nat → List PrpBlock → Option Nat → List Resource
  | 0, _, _, _ => []
  | count + 1, index, [], prpDma =>
      .prpList .page index prpDma ::
        freePrpLists lastPrp count (index + 1) [] none
  | count + 1, index, block :: blocks, prpDma =>
      .prpList .page index prpDma ::
        freePrpLists lastPrp count (index + 1) blocks (block.entries[lastPrp]?)

def nvmeFreeIod (pageSize : Nat) (prps : PrpSetup) : List (Custody Resource) :=
  releases ((if prps.npages = 0 then [.prpList .small 0 prps.prp2] else []) ++
    freePrpLists (pageSize / 8 - 1) prps.npages.toNat 0 prps.lists prps.prp2 ++
    [.iod])

structure SetupLog where
  result : Except Stop (Int × PrpSetup)
  log : List (Custody Resource)
  unmap : List (Custody Resource)

def setupUserLog (pageSize : Nat) (kernel : Kernel) (addr length : Nat) :
    SetupLog :=
  match nvmeMapUserPagesLog pageSize kernel addr length with
  | (.error stop, log) => ⟨.error stop, log, []⟩
  | (.ok sg, log) =>
      match nvmeSetupPrps pageSize kernel.pools sg length with
      | none => ⟨.error .bug, log, []⟩
      | some (prpLen, iod) =>
          let first := iod.sg.head?.map Segment.address
          let prps : PrpSetup := ⟨first, iod.firstDma, iod.npages, iod.lists⟩
          ⟨.ok (prpLen, prps),
            log ++ acquires (nvmeSetupPrpsLog pageSize kernel.pools sg length),
            nvmeUnmapUserPages (userPageCount addr length) ++
              nvmeFreeIod pageSize prps⟩

def setupPhysLog (pageSize : Nat) (kernel : Kernel) (addr length : Nat) :
    SetupLog :=
  match nvmeMapPhysPagesLog pageSize kernel addr length with
  | (.error stop, log) => ⟨.error stop, log, []⟩
  | (.ok (), log) =>
      match nvmeSetupPhysPrps pageSize kernel.pools length (addr % 2 ^ 32) with
      | none => ⟨.error .bug, log, []⟩
      | some (prpLen, iod) =>
          let prps : PrpSetup := ⟨iod.prp1, iod.prp2, iod.npages, iod.lists⟩
          ⟨.ok (prpLen, prps),
            log ++ acquires (nvmeSetupPhysPrpsLog pageSize kernel.pools length
              (addr % 2 ^ 32)),
            nvmeFreeIod pageSize prps⟩

def submitIoLog (setup : Nat → Nat → SetupLog) (kernel : Kernel) (ns : NvmeNs)
    (io : NvmeUserIo) : Except Stop Issued × List (Custody Resource) :=
  if metaLen ns io ≠ 0 ∧ (io.metadata % 4 ≠ 0 ∨ io.metadata = 0) ∧
      ns.ext = false then (.error (.status (-einval)), [])
  else if io.opcode ≠ .write ∧ io.opcode ≠ .read ∧ io.opcode ≠ .compare then
    (.error (.status (-einval)), [])
  else
    let mapped := setup io.addr (transferLen ns io)
    match mapped.result with
    | .error stop => (.error stop, mapped.log)
    | .ok (prpLen, prps) =>
        if (transferLen ns io : Int) ≠ prpLen then
          (.error (.status (-enomem)), mapped.log ++ mapped.unmap)
        else if metaLen ns io ≠ 0 ∧ ns.ext = false then
          match kernel.dmaAllocCoherent (metaLen ns io) with
          | none => (.error (.status (-enomem)), mapped.log ++ mapped.unmap)
          | some dma =>
              match submitSplit ns io dma prps with
              | (status, s) =>
                  (.ok ⟨status, io.nblocks, s.commands, prps.lists,
                      s.entriesRead⟩,
                    mapped.log ++ acquires [.metadata dma] ++ mapped.unmap ++
                      releases [.metadata dma])
        else
          match submitSplit ns io 0 prps with
          | (status, s) =>
              (.ok ⟨status, io.nblocks, s.commands, prps.lists, s.entriesRead⟩,
                mapped.log ++ mapped.unmap)

def nvmeSubmitIoCharioLog (pageSize : Nat) (kernel : Kernel) (ns : NvmeNs)
    (io : NvmeUserIo) : Except Stop Issued × List (Custody Resource) :=
  submitIoLog (setupUserLog pageSize kernel) kernel ns io

def nvmeSubmitIoCharioPhysLog (pageSize : Nat) (kernel : Kernel) (ns : NvmeNs)
    (io : NvmeUserIo) : Except Stop Issued × List (Custody Resource) :=
  submitIoLog (setupPhysLog pageSize kernel) kernel ns io

/-! The log changes nothing in what the functions do. -/

theorem nvmeMapUserPagesLog_result (pageSize : Nat) (kernel : Kernel)
    (addr length : Nat) :
    (nvmeMapUserPagesLog pageSize kernel addr length).1 =
      nvmeMapUserPages pageSize kernel addr length := by
  unfold nvmeMapUserPagesLog nvmeMapUserPages
  split
  next => rfl
  split
  next => rfl
  split
  next => rfl
  split
  next => rfl
  simp only
  split
  next => rfl
  cases kernel.dmaMapSg (sgTable kernel.frames (userPageCount addr length)
    (addr / pageBytes) (addr % pageBytes) length) <;> rfl

theorem nvmeMapPhysPagesLog_result (pageSize : Nat) (kernel : Kernel)
    (addr length : Nat) :
    (nvmeMapPhysPagesLog pageSize kernel addr length).1 =
      nvmeMapPhysPages pageSize kernel addr length := by
  unfold nvmeMapPhysPagesLog nvmeMapPhysPages
  split
  next => rfl
  split
  next => rfl
  split <;> rfl

theorem setupUserLog_result (pageSize : Nat) (kernel : Kernel)
    (addr length : Nat) :
    (setupUserLog pageSize kernel addr length).result =
      setupUser pageSize kernel addr length := by
  rw [setupUser, ← nvmeMapUserPagesLog_result, setupUserLog]
  rcases nvmeMapUserPagesLog pageSize kernel addr length with ⟨stop | sg, log⟩
  · rfl
  · simp only
    cases nvmeSetupPrps pageSize kernel.pools sg length <;> rfl

theorem setupPhysLog_result (pageSize : Nat) (kernel : Kernel)
    (addr length : Nat) :
    (setupPhysLog pageSize kernel addr length).result =
      setupPhys pageSize kernel addr length := by
  rw [setupPhys, ← nvmeMapPhysPagesLog_result, setupPhysLog]
  rcases nvmeMapPhysPagesLog pageSize kernel addr length with ⟨stop | _, log⟩
  · rfl
  · simp only
    cases nvmeSetupPhysPrps pageSize kernel.pools length (addr % 2 ^ 32) <;> rfl

theorem submitIoLog_result {setup : Nat → Nat → SetupLog}
    {plain : Nat → Nat → Except Stop (Int × PrpSetup)}
    (same : ∀ addr length, (setup addr length).result = plain addr length)
    (kernel : Kernel) (ns : NvmeNs) (io : NvmeUserIo) :
    (submitIoLog setup kernel ns io).1 = submitIo plain kernel ns io := by
  unfold submitIoLog submitIo
  split
  next => rfl
  split
  next => rfl
  simp only [same]
  rcases plain io.addr (transferLen ns io) with stop | ⟨prpLen, prps⟩
  · rfl
  · simp only
    split
    next => rfl
    unfold metaBuffer
    split
    next =>
        cases kernel.dmaAllocCoherent (metaLen ns io) <;> rfl
    next => rfl

theorem nvmeSubmitIoCharioLog_result (pageSize : Nat) (kernel : Kernel)
    (ns : NvmeNs) (io : NvmeUserIo) :
    (nvmeSubmitIoCharioLog pageSize kernel ns io).1 =
      nvmeSubmitIoChario pageSize kernel ns io :=
  submitIoLog_result (setupUserLog_result pageSize kernel) kernel ns io

theorem nvmeSubmitIoCharioPhysLog_result (pageSize : Nat) (kernel : Kernel)
    (ns : NvmeNs) (io : NvmeUserIo) :
    (nvmeSubmitIoCharioPhysLog pageSize kernel ns io).1 =
      nvmeSubmitIoCharioPhys pageSize kernel ns io :=
  submitIoLog_result (setupPhysLog_result pageSize kernel) kernel ns io

/-! The list blocks that are freed are those that were allocated. -/

/-- The blocks of finished lists, in the order of their allocations. -/
def listBlocksOf (pools : PrpPools) (count : Nat) (lists : List PrpBlock) :
    List Resource :=
  (List.range lists.length).map (listBlock pools count)

theorem storePrp_length {perBlock : Nat} {fresh : Option Nat} {entry : Nat}
    {lists stored : List PrpBlock}
    (ran : storePrp perBlock fresh entry lists = some stored) :
    stored.length =
      lists.length + if blockFull perBlock lists then 1 else 0 := by
  induction lists generalizing stored with
  | nil => cases ran
  | cons block rest induction =>
      cases rest with
      | nil =>
          unfold storePrp at ran
          split at ran
          next full =>
              split at ran
              next =>
                  cases ran
                  simp [blockFull, full]
              next => cases ran
          next room =>
              cases ran
              simp [blockFull, room]
      | cons next others =>
          simp only [storePrp] at ran
          obtain ⟨later, isLater, rfl⟩ := Option.map_eq_some_iff.mp ran
          have same : blockFull perBlock (block :: next :: others) =
              blockFull perBlock (next :: others) := by
            simp [blockFull]
          rw [List.length_cons, induction isLater, same, Nat.add_right_comm]
          rfl

theorem prpLoopLog_eq {pageSize count : Nat} {pools : PrpPools}
    {refill : PrpLoop → Option PrpLoop} {totalLen ret : Int}
    (keeps : ∀ {s next : PrpLoop}, refill s = some next → next.lists = s.lists)
    {fuel : Nat} :
    ∀ {s after : PrpLoop},
      prpLoop pageSize (prpPool pools count).1 refill totalLen fuel s =
        some (ret, after) →
      (List.range s.lists.length).map (listBlock pools count) ++
          prpLoopLog pageSize pools count refill fuel s =
        listBlocksOf pools count after.lists := by
  induction fuel with
  | zero =>
      intro s after ran
      cases ran
  | succ fuel induction =>
      intro s after ran
      rw [prpLoop] at ran
      rw [prpLoopLog]
      cases taken :
          storePrp (pageSize / 8) ((prpPool pools count).1 s.lists.length)
          s.dmaAddr s.lists with
      | none =>
          rw [taken] at ran
          cases ran
          exact List.append_nil _
      | some lists =>
          rw [taken] at ran
          have grows :
              (List.range s.lists.length).map (listBlock pools count) ++
              (if blockFull (pageSize / 8) s.lists then
                [listBlock pools count s.lists.length] else []) =
              (List.range lists.length).map (listBlock pools count) := by
            rw [storePrp_length taken]
            split
            next => rw [List.range_succ, List.map_append, List.map_singleton]
            next => rw [List.append_nil, Nat.add_zero]
          dsimp only at ran ⊢
          split at ran
          next ends =>
              cases ran
              rw [if_pos ends, grows]
              rfl
          next goesOn =>
          rw [if_neg goesOn]
          split at ran
          next more =>
              rw [if_pos more, ← List.append_assoc, grows]
              exact induction ran
          next spent =>
          rw [if_neg spent]
          split at ran
          next => cases ran
          next inside =>
          rw [if_neg inside]
          cases refilled : refill (s.stored pageSize lists) with
          | none =>
              rw [refilled] at ran
              cases ran
          | some next =>
              rw [refilled] at ran
              have same : next.lists = lists := keeps refilled
              simp only
              rw [← List.append_assoc, grows, ← same]
              exact induction ran

theorem prpListsLog_short {pageSize : Nat} {pools : PrpPools}
    {refill : PrpLoop → Option PrpLoop} {s : PrpLoop}
    (short : s.length ≤ pageSize) : prpListsLog pageSize pools refill s = [] :=
  if_pos short

theorem prpListsLog_none {pageSize : Nat} {pools : PrpPools}
    {refill : PrpLoop → Option PrpLoop} {s : PrpLoop}
    (none : (prpPool pools (nprps pageSize s.length)).1 0 = none) :
    prpListsLog pageSize pools refill s = [] := by
  rw [prpListsLog]
  split
  next => rfl
  next => simp only [none]

theorem prpListsLog_some {pageSize : Nat} {pools : PrpPools}
    {refill : PrpLoop → Option PrpLoop} {s after : PrpLoop} {dma : Nat}
    {totalLen ret : Int}
    (keeps : ∀ {s next : PrpLoop}, refill s = some next → next.lists = s.lists)
    (long : ¬ s.length ≤ pageSize)
    (first : (prpPool pools (nprps pageSize s.length)).1 0 = some dma)
    (ran : prpLoop pageSize (prpPool pools (nprps pageSize s.length)).1 refill
      totalLen (nprps pageSize s.length)
      { s with
        lists := [⟨dma, []⟩]
        npages := (prpPool pools (nprps pageSize s.length)).2 } =
        some (ret, after)) :
    prpListsLog pageSize pools refill s =
      listBlocksOf pools (nprps pageSize s.length) after.lists := by
  rw [← prpLoopLog_eq keeps ran, prpListsLog, if_neg long]
  simp only [first]
  rfl

theorem nextSegment_lists {s next : PrpLoop}
    (moved : nextSegment s = some next) :
    next.lists = s.lists ∧ next.length = s.length := by
  unfold nextSegment at moved
  split at moved
  next => cases moved
  next =>
      cases moved
      exact ⟨rfl, rfl⟩

/-- `nvme_setup_prps` takes the blocks of the lists that it leaves. -/
theorem nvmeSetupPrpsLog_eq {pageSize : Nat} {pools : PrpPools}
    {first : Segment} {rest : List Segment} {totalLen ret : Int}
    {iod : NvmeIod}
    (ran : nvmeSetupPrps pageSize pools (first :: rest) totalLen =
      some (ret, iod)) :
    nvmeSetupPrpsLog pageSize pools (first :: rest) totalLen =
      listBlocksOf pools (nprps pageSize
        (totalLen - (pageSize - first.address % pageSize))) iod.lists := by
  simp only [nvmeSetupPrps] at ran
  simp only [nvmeSetupPrpsLog]
  split at ran
  next ends =>
      cases ran
      rw [if_pos ends]
      rfl
  next goesOn =>
  rw [if_neg goesOn]
  generalize isMoved : (if (first.len : Int) - (pageSize - first.address %
    pageSize) ≠ 0 then _ else _) = moved at ran
  cases moved with
  | none => cases ran
  | some s =>
  have length :
      s.length = totalLen - (pageSize - first.address % pageSize) := by
    split at isMoved
    next => rw [← Option.some.inj isMoved]
    next => exact (nextSegment_lists isMoved).2
  simp only at ran ⊢
  rw [← length] at ran ⊢
  split at ran
  next short =>
      cases ran
      exact prpListsLog_short short
  next long =>
  cases granted : (prpPool pools (nprps pageSize s.length)).1 0 with
  | none =>
      rw [granted] at ran
      cases ran
      exact prpListsLog_none granted
  | some dma =>
      rw [granted] at ran
      simp only at ran
      split at ran
      next => cases ran
      next loop =>
          cases ran
          exact prpListsLog_some (fun moved => (nextSegment_lists moved).1) long
            granted loop

/-- `nvme_setup_phys_prps` takes the blocks of the lists that it leaves. -/
theorem nvmeSetupPhysPrpsLog_eq {pageSize address : Nat} {pools : PrpPools}
    {totalLen ret : Int} {iod : NvmePhysIod}
    (ran : nvmeSetupPhysPrps pageSize pools totalLen address =
      some (ret, iod)) :
    nvmeSetupPhysPrpsLog pageSize pools totalLen address =
      listBlocksOf pools (nprps pageSize
        (totalLen - (pageSize - address % pageSize))) iod.lists := by
  simp only [nvmeSetupPhysPrps] at ran
  simp only [nvmeSetupPhysPrpsLog]
  split at ran
  next ends =>
      cases ran
      rw [if_pos ends]
      rfl
  next goesOn =>
  rw [if_neg goesOn]
  split at ran
  next short =>
      cases ran
      exact prpListsLog_short short
  next long =>
  split at ran
  next none =>
      cases ran
      exact prpListsLog_none none
  next dma granted =>
      split at ran
      next => cases ran
      next loop =>
          cases ran
          exact prpListsLog_some
            (fun moved => by rw [← Option.some.inj moved]) long granted loop

theorem Packed.freePrpLists_eq {pages : List Nat} {lists : List PrpBlock}
    (packed : Packed pages lists) :
    ∀ (index : Nat), ∀ first ∈ lists.head?,
      freePrpLists (perPage - 1) lists.length index lists (some first.dma) =
        (lists.zipIdx index).map (fun block =>
          .prpList .page block.2 (some block.1.dma)) := by
  induction packed with
  | single _ =>
      intro index first isFirst
      cases isFirst
      rfl
  | @chained dma pages later block blocks full _ _ induction =>
      intro index first isFirst
      cases isFirst
      have slot : (pages ++ [block.dma])[perPage - 1]? = some block.dma := by
        rw [← full, Nat.add_sub_cancel, List.getElem?_concat_length]
      have rest := induction (index + 1) block rfl
      simp only [List.length_cons, freePrpLists, slot, List.zipIdx_cons,
        List.map_cons] at rest ⊢
      rw [rest]

theorem Allocated.resources {alloc : Nat → Option Nat} {lists : List PrpBlock}
    (allocated : Allocated alloc lists) (pool : PrpPoolName) :
    lists.zipIdx.map (fun block =>
        Resource.prpList pool block.2 (some block.1.dma)) =
      (List.range lists.length).map (fun turn =>
        .prpList pool turn (alloc turn)) := by
  apply List.ext_getElem (by simp)
  intro turn below _
  have inLists : turn < lists.length := by simpa using below
  have here := congrArg (·[turn]?) allocated
  simp only [List.getElem?_map, List.getElem?_range inLists, Option.map_some,
    List.getElem?_eq_getElem inLists, Option.some.injEq] at here
  simp [← here]

theorem PrpEnd.freed {pools : PrpPools} {pages : List Nat}
    {totalLen ret npages : Int} {prp1 prp2 : Option Nat}
    {lists : List PrpBlock}
    (ended : PrpEnd pools pages totalLen ret prp2 npages lists) :
    nvmeFreeIod pageBytes ⟨prp1, prp2, npages, lists⟩ =
      releases (listBlocksOf pools pages.length lists ++ [.iod]) := by
  -- blocks of the page pool, linked through their last slots
  have walks : ∀ {front : List Nat} {dma : Nat}, Packed front lists →
      lists.head?.map PrpBlock.dma = some dma → npages = lists.length →
      prp2 = some dma → 256 / 8 < pages.length →
      Allocated (prpPool pools pages.length).1 lists →
      nvmeFreeIod pageBytes ⟨prp1, prp2, npages, lists⟩ =
        releases (listBlocksOf pools pages.length lists ++ [.iod]) := by
    intro front dma packed first isCount isPrp2 many allocated
    obtain ⟨block, isFirst, isDma⟩ := Option.map_eq_some_iff.mp first
    have some : npages ≠ 0 := by
      rw [isCount, packed.length_eq]
      exact Int.natCast_ne_zero.mpr (Nat.succ_ne_zero _)
    have freed := packed.freePrpLists_eq 0 block isFirst
    rw [allocated.resources, isDma, ← isPrp2] at freed
    have isPage : poolName pages.length = .page := if_neg (by omega)
    have blocks : listBlocksOf pools pages.length lists =
        (List.range lists.length).map (fun turn =>
          .prpList .page turn ((prpPool pools pages.length).1 turn)) := by
      rw [← isPage]
      rfl
    rw [nvmeFreeIod, if_neg some, List.nil_append, isCount, Int.toNat_natCast,
      blocks]
    exact congrArg (fun list => releases (list ++ [Resource.iod])) freed
  cases ended with
  | built listed allocated =>
      cases listed with
      | none => rfl
      | one => rfl
      | small _ fits _ =>
          have isAlloc : some _ = (prpPool pools pages.length).1 0 :=
            List.head_eq_of_cons_eq allocated
          have isSmall : poolName pages.length = .small := if_pos fits
          simp [nvmeFreeIod, freePrpLists, listBlocksOf, listBlock, isSmall,
            ← isAlloc]
      | paged many packed first _ _ =>
          exact walks packed first rfl rfl many allocated
  | refused _ _ _ => rfl
  | stopped _ many _ packed first _ allocated _ _ =>
      have pool : (prpPool pools pages.length).1 = pools.page.alloc := by
        rw [prpPool, if_neg (by omega)]
      exact walks packed first rfl rfl many (by rw [pool]; exact allocated)

/-! Every way out gives back what was taken. -/

theorem userPages_nodup (count : Nat) : (userPages count).Nodup :=
  List.nodup_range.map (fun _ _ same => Resource.userPage.inj same)

theorem listBlocksOf_nodup (pools : PrpPools) (count : Nat)
    (lists : List PrpBlock) : (listBlocksOf pools count lists).Nodup :=
  List.nodup_range.map (fun _ _ same => (Resource.prpList.inj same).2.1)

theorem mem_userPages {resource : Resource} {count : Nat} :
    resource ∈ userPages count ↔
      ∃ index, index < count ∧ .userPage index = resource := by
  simp [userPages]

theorem mem_listBlocksOf {resource : Resource} {pools : PrpPools} {count : Nat}
    {lists : List PrpBlock}
    (member : resource ∈ listBlocksOf pools count lists) :
    ∃ pool index dma, resource = .prpList pool index dma := by
  obtain ⟨turn, -, rfl⟩ := List.mem_map.mp member
  exact ⟨_, _, _, rfl⟩

theorem userPages_rounds (count : Nat) :
    Rounds (.pagesArray :: userPages count)
      (userPages count ++ [Resource.pagesArray]) [] [] where
  takenOnce := by
    simp [userPages_nodup, mem_userPages]
  givenOnce := by
    simp [List.nodup_append, userPages_nodup, mem_userPages]
  earlyTaken := by
    intro resource member
    simpa [or_comm] using member
  all := by
    intro resource
    simp [or_comm]

theorem mapFailed_rounds (count : Nat) :
    Rounds (.pagesArray :: (userPages count ++ [.iod]))
      (.iod :: (userPages count ++ [Resource.pagesArray])) [] [] where
  takenOnce := by
    simp [List.nodup_append, userPages_nodup, mem_userPages]
  givenOnce := by
    simp [List.nodup_append, userPages_nodup, mem_userPages]
  earlyTaken := by
    intro resource member
    simp only [List.mem_cons, List.mem_append] at member ⊢
    tauto
  all := by
    intro resource
    simp only [List.append_nil, List.mem_cons, List.mem_append]
    tauto

section Lists

variable {lists : List Resource}
variable (blocks : ∀ resource ∈ lists,
  ∃ pool index dma, resource = .prpList pool index dma)

include blocks

theorem listBlocks_others :
    .pagesArray ∉ lists ∧ .iod ∉ lists ∧ .dmaMapping ∉ lists := by
  refine ⟨?_, ?_, ?_⟩
  all_goals
    intro member
    obtain ⟨pool, index, dma, same⟩ := blocks _ member
    cases same

variable (nodup : lists.Nodup)

include nodup

theorem user_rounds (count : Nat) :
    Rounds (.pagesArray :: (userPages count ++ [.iod, .dmaMapping]))
      [Resource.pagesArray] lists
      (.dmaMapping :: userPages count ++ (lists ++ [.iod])) := by
  obtain ⟨array, iod, mapping⟩ := listBlocks_others blocks
  have apart : (userPages count).Disjoint lists := by
    intro resource isPage member
    obtain ⟨index, -, rfl⟩ := mem_userPages.mp isPage
    obtain ⟨pool, index, dma, same⟩ := blocks _ member
    cases same
  refine ⟨?_, ?_, ?_, ?_⟩
  · rw [List.cons_append, List.append_assoc]
    refine List.nodup_cons.mpr ⟨?_, List.nodup_append'.mpr
      ⟨userPages_nodup count, ?_, ?_⟩⟩
    · simp [mem_userPages, array]
    · simp [nodup, iod, mapping]
    · rw [List.disjoint_append_right]
      exact ⟨by simp [mem_userPages], apart⟩
  · rw [List.singleton_append, List.cons_append]
    refine List.nodup_cons.mpr ⟨?_, List.nodup_cons.mpr ⟨?_,
      List.nodup_append'.mpr ⟨userPages_nodup count, ?_, ?_⟩⟩⟩
    · simp [mem_userPages, array]
    · simp [mem_userPages, mapping]
    · simp [List.nodup_append', nodup, iod]
    · rw [List.disjoint_append_right]
      exact ⟨apart, by simp [mem_userPages]⟩
  · simp
  · intro resource
    simp only [List.mem_cons, List.mem_append, List.not_mem_nil]
    tauto

theorem phys_rounds : Rounds [.iod] [] lists (lists ++ [Resource.iod]) := by
  obtain ⟨-, iod, -⟩ := listBlocks_others blocks
  refine ⟨?_, ?_, List.nil_subset _, ?_⟩
  · simp [nodup, iod]
  · simp [List.nodup_append', nodup, iod]
  · intro resource
    simp only [List.nil_append, List.mem_append]
    tauto

end Lists

structure SetupLog.Settles (setup : SetupLog) : Prop where
  failed : ∀ {stop : Stop}, setup.result = .error stop →
    stop ≠ .bug ∧ Neutral setup.log
  mapped : ∀ {prps : Int × PrpSetup}, setup.result = .ok prps →
    ∃ taken early more late, Rounds taken early more late ∧
      setup.log = acquires taken ++ releases early ++ acquires more ∧
      setup.unmap = releases late ∧
      ∀ dma, .metadata dma ∉ taken ++ more

theorem submitIoLog_neutral {setup : Nat → Nat → SetupLog}
    (settles : ∀ addr length, (setup addr length).Settles) (kernel : Kernel)
    (ns : NvmeNs) (io : NvmeUserIo) :
    (submitIoLog setup kernel ns io).1 ≠ .error .bug ∧
      Neutral (submitIoLog setup kernel ns io).2 := by
  have nothing : Neutral ([] : List (Custody Resource)) := fun _ => .inl rfl
  obtain ⟨failed, mapped⟩ := settles io.addr (transferLen ns io)
  unfold submitIoLog
  split
  next => exact ⟨by simp, nothing⟩
  split
  next => exact ⟨by simp, nothing⟩
  simp only
  rcases isResult : (setup io.addr (transferLen ns io)).result with
    stop | ⟨prpLen, prps⟩
  · obtain ⟨notBug, neutral⟩ := failed isResult
    exact ⟨by simpa using notBug, neutral⟩
  · obtain ⟨taken, early, more, late, rounds, isLog, isUnmap, noMeta⟩ :=
      mapped isResult
    have whole := rounds.neutral
    rw [← isLog, ← isUnmap] at whole
    simp only
    split
    next => exact ⟨by simp, whole⟩
    split
    next =>
        cases kernel.dmaAllocCoherent (metaLen ns io) with
        | none => exact ⟨by simp, whole⟩
        | some dma =>
            refine ⟨by simp, ?_⟩
            have wrapped := (rounds.snoc (noMeta dma)).neutral
            rw [acquires_append, releases_append, ← isUnmap,
              ← List.append_assoc,
              ← List.append_assoc (acquires taken ++ releases early),
              ← isLog] at wrapped
            exact wrapped
    next => exact ⟨by simp, whole⟩

/-- How mapping a user buffer ends: with an error and nothing held, or with the
pages pinned and mapped. -/
theorem nvmeMapUserPagesLog_cases (kernel : Kernel) (addr length : Nat) :
    (∃ value log, nvmeMapUserPagesLog pageBytes kernel addr length =
        (.error (.status value), log) ∧ Neutral log) ∨
    (0 < length ∧ length ≤ intMax - pageBytes ∧ addr % 4 = 0 ∧
      kernel.Maps addr length ∧
      (nvmeMapUserPagesLog pageBytes kernel addr length).2 =
        acquires (.pagesArray :: (userPages (userPageCount addr length) ++
          [.iod, .dmaMapping])) ++ releases [.pagesArray]) := by
  have nothing : Neutral ([] : List (Custody Resource)) := fun _ => .inl rfl
  unfold nvmeMapUserPagesLog
  split
  next => exact .inl ⟨_, _, rfl, nothing⟩
  next word =>
  split
  next => exact .inl ⟨_, _, rfl, nothing⟩
  next fits =>
  split
  next => exact .inl ⟨_, _, rfl, nothing⟩
  next kcalloc =>
  split
  next =>
      refine .inl ⟨_, _, rfl, ?_⟩
      simpa [acquires, releases] using (userPages_rounds _).neutral
  next pins =>
  simp only
  split
  next =>
      refine .inl ⟨_, _, rfl, ?_⟩
      simpa [acquires, releases] using (userPages_rounds _).neutral
  next kmalloc =>
  cases mapped : kernel.dmaMapSg (sgTable kernel.frames
      (userPageCount addr length) (addr / pageBytes) (addr % pageBytes)
      length) with
  | none =>
      refine .inl ⟨_, _, rfl, ?_⟩
      simpa [acquires, releases] using (mapFailed_rounds _).neutral
  | some sg =>
      refine .inr ⟨by omega, by omega, by omega, ⟨?_, ?_, ?_, ?_⟩, rfl⟩
      · exact Bool.eq_true_of_not_eq_false kcalloc
      · exact not_lt.mp pins
      · exact Bool.eq_true_of_not_eq_false kmalloc
      · rw [Kernel.userTable, mapped]
        exact Option.some_ne_none sg

theorem setupUserLog_settles {kernel : Kernel} (sound : kernel.Sound)
    (addr length : Nat) :
    (setupUserLog pageBytes kernel addr length).Settles := by
  rcases nvmeMapUserPagesLog_cases kernel addr length with
    ⟨value, log, ran, neutral⟩ | ⟨positive, bounded, word, maps, isLog⟩
  · rw [setupUserLog, ran]
    refine ⟨?_, ?_⟩
    · rintro stop ⟨⟩
      exact ⟨by simp, neutral⟩
    · rintro prps ⟨⟩
  · obtain ⟨first, rest, mapped, -, after⟩ :=
      nvmeMapUserPages_maps positive bounded sound maps word
    obtain ⟨ret, npages, lists, prp2, ran, ended⟩ :=
      nvmeSetupPrps_ends kernel.pools after
    have isMapped : nvmeMapUserPagesLog pageBytes kernel addr length =
        (.ok (first :: rest), acquires (.pagesArray ::
          (userPages (userPageCount addr length) ++ [.iod, .dmaMapping])) ++
          releases [.pagesArray]) :=
      Prod.ext ((nvmeMapUserPagesLog_result _ _ _ _).trans mapped) isLog
    have freed := @PrpEnd.freed _ _ _ _ _ (some first.address) _ _ ended
    have taken := nvmeSetupPrpsLog_eq ran
    rw [head_cast] at taken
    have count := after.length_eq
    rw [count] at freed
    rw [setupUserLog, isMapped]
    simp only [ran, taken]
    refine ⟨?_, ?_⟩
    · rintro stop ⟨⟩
    · intro prps isOk
      refine ⟨_, _, _, _, user_rounds (fun _ => mem_listBlocksOf)
        (listBlocksOf_nodup kernel.pools _ lists) (userPageCount addr length),
        rfl, ?_, ?_⟩
      · rw [List.head?_cons, Option.map_some, freed, nvmeUnmapUserPages]
        exact (releases_append _ _).symm
      · intro dma member
        simp only [List.mem_append, List.mem_cons, mem_userPages] at member
        simp only [reduceCtorEq, and_false, exists_false, false_or,
          List.not_mem_nil] at member
        obtain ⟨pool, index, handle, same⟩ := mem_listBlocksOf member
        cases same

theorem setupPhysLog_settles (kernel : Kernel) (addr length : Nat) :
    (setupPhysLog pageBytes kernel addr length).Settles := by
  have nothing : Neutral ([] : List (Custody Resource)) := fun _ => .inl rfl
  have refused : ∀ {value : Int},
      nvmeMapPhysPagesLog pageBytes kernel addr length =
        (.error (.status value), []) →
      (setupPhysLog pageBytes kernel addr length).Settles := by
    intro value ran
    rw [setupPhysLog, ran]
    refine ⟨?_, ?_⟩
    · rintro stop ⟨⟩
      exact ⟨by simp, nothing⟩
    · rintro prps ⟨⟩
  by_cases word : addr % 4 ≠ 0
  · exact refused (by rw [nvmeMapPhysPagesLog, if_pos word])
  by_cases fits : length = 0 ∨ intMax - pageBytes < length
  · exact refused (by
      rw [nvmeMapPhysPagesLog, if_neg word, if_pos fits])
  by_cases kmalloc : kernel.kmalloc (nvmeNpages pageBytes length) = false
  · exact refused (by
      rw [nvmeMapPhysPagesLog, if_neg word, if_neg fits, if_pos kmalloc])
  have mapped : nvmeMapPhysPagesLog pageBytes kernel addr length =
      (.ok (), acquires [.iod]) := by
    rw [nvmeMapPhysPagesLog, if_neg word, if_neg fits, if_neg kmalloc]
  obtain ⟨ret, npages, lists, prp2, ran, ended⟩ :=
    nvmeSetupPhysPrps_ends kernel.pools (addr % 2 ^ 32) length
  have freed := @PrpEnd.freed _ _ _ _ _ (some (addr % 2 ^ 32)) _ _ ended
  rw [List.length_map, List.length_range'] at freed
  have taken := nvmeSetupPhysPrpsLog_eq ran
  rw [head_cast] at taken
  rw [setupPhysLog, mapped]
  simp only [ran, taken]
  refine ⟨?_, ?_⟩
  · rintro stop ⟨⟩
  · intro prps isOk
    refine ⟨_, _, _, _, phys_rounds (fun _ => mem_listBlocksOf)
      (listBlocksOf_nodup kernel.pools _ lists), ?_, freed, ?_⟩
    · exact (List.append_nil _).symm ▸ rfl
    · intro dma member
      simp only [List.mem_append, List.mem_singleton, reduceCtorEq,
        false_or] at member
      obtain ⟨pool, index, handle, same⟩ := mem_listBlocksOf member
      cases same

/-- Whatever the kernel services answer, every way out of either function has
given back each resource that it took, once, and nothing else. -/
theorem submit_io_resource_neutral {kernel : Kernel} (sound : kernel.Sound)
    (ns : NvmeNs) (io : NvmeUserIo) :
    ((nvmeSubmitIoCharioLog pageBytes kernel ns io).1 ≠ .error .bug ∧
      Neutral (nvmeSubmitIoCharioLog pageBytes kernel ns io).2) ∧
    ((nvmeSubmitIoCharioPhysLog pageBytes kernel ns io).1 ≠ .error .bug ∧
      Neutral (nvmeSubmitIoCharioPhysLog pageBytes kernel ns io).2) :=
  ⟨submitIoLog_neutral (setupUserLog_settles sound) kernel ns io,
    submitIoLog_neutral (setupPhysLog_settles kernel) kernel ns io⟩

def Kernel.onePage : Kernel :=
  { Kernel.plain with
    pools :=
      { small := Kernel.plain.pools.small
        page :=
          { alloc := fun turn => if turn = 0 then some (2 ^ 31) else none
            aligned := by
              intro turn dma isSome
              split at isSome
              · cases isSome
                decide
              · cases isSome
            fresh := by
              intro turn other dma one two
              split at one
              · split at two
                · omega
                · cases two
              · cases one } } }

theorem Kernel.onePage_sound : Kernel.onePage.Sound where
  aligned := Kernel.plain_granted.sound.aligned
  merges := Kernel.plain_granted.sound.merges

def fourMebibytes : NvmeUserIo where
  opcode := .write
  flags := 0
  control := 0
  nblocks := 1023
  metadata := 0
  addr := 4096
  slba := 0
  dsmgmt := 0
  reftag := 0
  apptag := 0
  appmask := 0

/-- On the way out of 41 blocks the one list block goes back; of 4 MiB too,
where the second one is refused. -/
theorem submit_io_neutral_one_page :
    (nvmeSubmitIoCharioPhysLog pageBytes Kernel.onePage
        (nvmeRevalidateDisk 1 12 0 false)
        { fourMebibytes with nblocks := 40 }).2 =
      acquires [.iod, .prpList .page 0 (some (2 ^ 31))] ++
        releases [.prpList .page 0 (some (2 ^ 31)), .iod] ∧
    ((nvmeSubmitIoCharioLog pageBytes Kernel.onePage
        (nvmeRevalidateDisk 1 12 0 false) fourMebibytes).1 ≠ .error .bug ∧
      Neutral (nvmeSubmitIoCharioLog pageBytes Kernel.onePage
        (nvmeRevalidateDisk 1 12 0 false) fourMebibytes).2) ∧
    ((nvmeSubmitIoCharioPhysLog pageBytes Kernel.onePage
        (nvmeRevalidateDisk 1 12 0 false) fourMebibytes).1 ≠ .error .bug ∧
      Neutral (nvmeSubmitIoCharioPhysLog pageBytes Kernel.onePage
        (nvmeRevalidateDisk 1 12 0 false) fourMebibytes).2) :=
  ⟨by decide +kernel, submit_io_resource_neutral Kernel.onePage_sound
    (nvmeRevalidateDisk 1 12 0 false) fourMebibytes⟩

end Chario.Nvme
