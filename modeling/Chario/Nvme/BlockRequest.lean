import Chario.Nvme.Controller
import Chario.Nvme.Resources
import Chario.Nvme.Scatterlist

namespace Chario.Nvme

open Chario.Library

/-! Requests of the block layer: `nvme_queue_rq` with its three kinds of command
and its ways out, and `req_completion`. -/

structure Request where
  bytes : Nat
  pos : Nat
  write : Bool
  discard : Bool
  flush : Bool
  fua : Bool
  failfastDev : Bool
  rahead : Bool
  integrity : Bool
  noretry : Bool
  nrPhysSegments : Nat
deriving DecidableEq, Repr

inductive ProtectionType
  | none
  | type1
  | type2
  | type3
deriving DecidableEq, Repr

/-- What the calls of one attempt return.  `blkRqMapSg` is the table that
`blk_rq_map_sg` fills, and the two counts are those of the integrity payload. -/
structure RqKernel where
  kmalloc : Bool
  rangeAlloc : Option Nat
  blkRqMapSg : List Segment
  dmaMapSg : List Segment → Option (List Segment)
  pools : PrpPools
  countIntegritySg : Nat
  mapIntegritySg : Nat
  dmaMapMeta : Option Nat

/-- `struct nvme_iod` of a request; `embedded` is bit 0 of `private`. -/
structure RqIod where
  embedded : Bool
  nents : Nat
  prps : PrpSetup
  metaDma : Option Nat
deriving DecidableEq, Repr

structure DsmRange where
  nlb : Nat
  slba : Nat
deriving DecidableEq, Repr

inductive RqCommand
  | rw (command : RwCommand)
  | dsm (nsid : Nat) (prp1 : Option Nat) (range : DsmRange)
  | flush (nsid : Nat)
deriving DecidableEq, Repr

inductive RqFailure
  | busy
  | error
  | bug
deriving DecidableEq, Repr

inductive RqOutcome
  | refused (errors : Int)
  | failed (failure : RqFailure)
  | queued (iod : RqIod) (command : RqCommand)
deriving DecidableEq, Repr

def nvmeBlockNr (ns : NvmeNs) (sector : Nat) : Nat :=
  sector / 2 ^ (ns.lbaShift - 9)

def nvmeRwLr : Nat := 2 ^ 15
def nvmeRwFua : Nat := 2 ^ 14
def nvmeRwPrinfoPract : Nat := 2 ^ 13
def nvmeRwPrinfoPrchkGuard : Nat := 2 ^ 12
def nvmeRwPrinfoPrchkRef : Nat := 2 ^ 10
def nvmeRwDsmFreqPrefetch : Nat := 7

section Commands

variable (ns : NvmeNs) (piType : ProtectionType) (req : Request) (iod : RqIod)

def piControl : Nat :=
  if req.integrity then
    match piType with
    | .type3 => nvmeRwPrinfoPrchkGuard
    | .type1 | .type2 => nvmeRwPrinfoPrchkGuard + nvmeRwPrinfoPrchkRef
    | .none => 0
  else if ns.ms ≠ 0 then nvmeRwPrinfoPract
  else 0

def nvmeSubmitIod : RwCommand where
  opcode := if req.write then .write else .read
  flags := 0
  nsid := ns.nsId
  slba := nvmeBlockNr ns req.pos
  length := (req.bytes / 2 ^ ns.lbaShift + (2 ^ 16 - 1)) % 2 ^ 16
  control := (if req.fua then nvmeRwFua else 0) +
    (if req.failfastDev || req.rahead then nvmeRwLr else 0) + piControl
      ns piType req
  dsmgmt := if req.rahead then nvmeRwDsmFreqPrefetch else 0
  reftag :=
    if req.integrity ∧ (piType = .type1 ∨ piType = .type2) then
      nvmeBlockNr ns req.pos % 2 ^ 32
    else 0
  apptag := 0
  appmask := 0
  prp1 := iod.prps.prp1
  prp2 := iod.prps.prp2
  metadata := if req.integrity then iod.metaDma.getD 0 else 0

def nvmeSubmitDiscard : RqCommand :=
  .dsm ns.nsId iod.prps.prp2
    ⟨req.bytes / 2 ^ ns.lbaShift % 2 ^ 32, nvmeBlockNr ns req.pos⟩

def submitted : RqCommand :=
  if req.discard then nvmeSubmitDiscard ns req iod
  else if req.flush then .flush ns.nsId
  else .rw (nvmeSubmitIod ns piType req iod)

end Commands

/-- The blocks that `nvme_free_iod` gives back to the pools. -/
def freedLists (pageSize : Nat) (prps : PrpSetup) : List Resource :=
  (if prps.npages = 0 then [.prpList .small 0 prps.prp2] else []) ++
    freePrpLists (pageSize / 8 - 1) prps.npages.toNat 0 prps.lists prps.prp2

def iodMemory (embedded : Bool) : List Resource :=
  if embedded then [] else [.iod]

/-- `nvme_free_iod` of a request: an embedded descriptor is not freed. -/
def nvmeFreeRqIod (pageSize : Nat) (iod : RqIod) : List Resource :=
  freedLists pageSize iod.prps ++ iodMemory iod.embedded

section Attempt

variable (pageSize : Nat) (kernel : RqKernel)

def emptyPrps : PrpSetup := ⟨none, none, -1, []⟩

def mapDiscard (embedded : Bool) :
    Except RqFailure RqIod × List (Custody Resource) :=
  match kernel.rangeAlloc with
  | none => (.error .busy, releases (iodMemory embedded))
  | some dma =>
      (.ok ⟨embedded, 0, ⟨none, some dma, 0, [⟨dma, []⟩]⟩, none⟩,
        acquires [.prpList .small 0 (some dma)])

/-- The integrity payload; on its errors the mapping of the data stays. -/
def mapIntegrity (req : Request) (iod : RqIod) :
    Except RqFailure RqIod × List (Custody Resource) :=
  if req.integrity = false then (.ok iod, [])
  else if kernel.countIntegritySg ≠ 1 then
    (.error .error, releases (nvmeFreeRqIod pageSize iod))
  else if kernel.mapIntegritySg ≠ 1 then
    (.error .error, releases (nvmeFreeRqIod pageSize iod))
  else
    match kernel.dmaMapMeta with
    | none => (.error .error, releases (nvmeFreeRqIod pageSize iod))
    | some dma =>
        (.ok { iod with metaDma := some dma }, acquires [.metadata dma])

def mapData (req : Request) (embedded : Bool) :
    Except RqFailure RqIod × List (Custody Resource) :=
  if kernel.blkRqMapSg = [] then (.error .error, releases (iodMemory embedded))
  else
    match kernel.dmaMapSg kernel.blkRqMapSg with
    | none => (.error .busy, releases (iodMemory embedded))
    | some sg =>
        match nvmeSetupPrps pageSize kernel.pools sg req.bytes with
        | none => (.error .bug, acquires [.dmaMapping])
        | some (prpLen, built) =>
            let first := built.sg.head?.map Segment.address
            let iod : RqIod := ⟨embedded, kernel.blkRqMapSg.length,
              ⟨first, built.firstDma, built.npages, built.lists⟩, none⟩
            let taken := acquires (.dmaMapping ::
              nvmeSetupPrpsLog pageSize kernel.pools sg req.bytes)
            if (req.bytes : Int) ≠ prpLen then
              (.error .busy,
                taken ++ releases (.dmaMapping :: nvmeFreeRqIod pageSize iod))
            else
              let (result, log) := mapIntegrity pageSize kernel req iod
              (result, taken ++ log)

/-- `sizeof(struct nvme_dsm_range)`. -/
def dsmRangeBytes : Nat := 16

/-- The choice of `nvme_alloc_iod`. -/
def embeds (req : Request) : Bool :=
  decide (req.nrPhysSegments ≤ 2 ∧
    (if req.discard then dsmRangeBytes else req.bytes) ≤ 2 * pageSize)

def nvmeQueueRq (ns : NvmeNs) (piType : ProtectionType) (req : Request) :
    RqOutcome × List (Custody Resource) :=
  if ns.ms ≠ 0 ∧ req.integrity = false ∧ ¬(piType ≠ .none ∧ ns.ms = 8) then
    (.refused (-efault), [])
  else if embeds pageSize req = false ∧ kernel.kmalloc = false then
    (.failed .busy, [])
  else
    let embedded := embeds pageSize req
    let (result, log) :=
      if req.discard then mapDiscard kernel embedded
      else if req.nrPhysSegments ≠ 0 then mapData pageSize kernel req embedded
      else (.ok ⟨embedded, 0, emptyPrps, none⟩, [])
    (match result with
      | .error failure => .failed failure
      | .ok iod => .queued iod (submitted ns piType req iod),
      acquires (iodMemory embedded) ++ log)

end Attempt

inductive RqEnd
  | requeued
  | completed (errors : Int)
deriving DecidableEq, Repr

def nvmeErrorStatus (status : Nat) : Int :=
  if status % 2 ^ 11 = 0 then 0
  else if status % 2 ^ 11 = 0x81 then -enospc
  else -eio

/-- What `req_completion` gives back. -/
def rqGiven (pageSize : Nat) (req : Request) (iod : RqIod) : List Resource :=
  (if iod.nents ≠ 0 then
    .dmaMapping ::
      (if req.integrity then [Resource.metadata (iod.metaDma.getD 0)] else [])
  else []) ++ nvmeFreeRqIod pageSize iod

/-- `req_completion`; `inTime` says that the request is younger than its
timeout. -/
def reqCompletion (pageSize : Nat) (req : Request) (iod : RqIod) (status : Nat)
    (inTime : Bool) : RqEnd × List (Custody Resource) :=
  (if status = 0 then .completed 0
    else if (status / nvmeScDnr) % 2 = 0 ∧ req.noretry = false ∧ inTime then
      .requeued
    else .completed (nvmeErrorStatus status),
    releases (rqGiven pageSize req iod))

/-- What the block layer promises of the requests it sends: whole blocks, data
for whatever is neither a discard nor a flush, and in a read or write no more
blocks than the command can name.  `blk_rq_bytes` is an `unsigned int`. -/
structure Request.Formed (ns : NvmeNs) (req : Request) : Prop where
  sectors : 9 ≤ ns.lbaShift
  aligned : req.pos % 2 ^ (ns.lbaShift - 9) = 0
  whole : req.bytes % 2 ^ ns.lbaShift = 0
  narrow : req.bytes < 2 ^ 32
  fits : req.discard = false → req.flush = false →
    req.bytes / 2 ^ ns.lbaShift ≤ 2 ^ 16
  data : req.discard = false → req.flush = false →
    0 < req.bytes ∧ req.nrPhysSegments ≠ 0

/-- The mapped table has entries for the bytes of the request, and they meet at
page boundaries. -/
def RqKernel.Maps (kernel : RqKernel) (req : Request) : Prop :=
  ∀ sg, kernel.dmaMapSg kernel.blkRqMapSg = some sg →
    sg ≠ [] ∧ Scatterlist sg ∧ sgLen sg = req.bytes

def sgByte (sg : List Segment) (byte : Nat) : Nat :=
  ((sgBytes sg)[byte]?).getD 0

/-- What the command of a request has to do. -/
def Serves (ns : NvmeNs) (kernel : RqKernel) (req : Request) (iod : RqIod) :
    RqCommand → Prop
  | .rw command =>
      ∃ sg, kernel.dmaMapSg kernel.blkRqMapSg = some sg ∧
        ∀ w, nvmeExecute ns iod.prps.lists command w =
          (0, w.moved (if req.write then .write else .read) (sgByte sg)
            (req.pos * 512) (List.range' 0 req.bytes))
  | .dsm nsid prp1 range =>
      req.discard = true ∧ nsid = ns.nsId ∧ prp1 = kernel.rangeAlloc ∧
        range.slba * 2 ^ ns.lbaShift = req.pos * 512 ∧
        range.nlb * 2 ^ ns.lbaShift = req.bytes
  | .flush nsid => req.flush = true ∧ nsid = ns.nsId

theorem length_sgBytes (sg : List Segment) :
    (sgBytes sg).length = sgLen sg := by
  induction sg with
  | nil => rfl
  | cons segment sg induction =>
      have bytes : sgBytes (segment :: sg) =
          span segment.address segment.len ++ sgBytes sg := rfl
      have total : sgLen (segment :: sg) = segment.len + sgLen sg := rfl
      rw [bytes, total, List.length_append, induction, span, List.length_range']

theorem map_sgByte (sg : List Segment) :
    (List.range' 0 (sgLen sg)).map (sgByte sg) = sgBytes sg := by
  apply List.ext_getElem
  · simp [length_sgBytes]
  · intro byte _ inside
    simp [sgByte, List.getElem?_eq_getElem inside]

section Exact

variable {ns : NvmeNs} {piType : ProtectionType} {req : Request}
    {kernel : RqKernel}

theorem Request.Formed.slba (formed : req.Formed ns) :
    nvmeBlockNr ns req.pos * 2 ^ ns.lbaShift = req.pos * 512 := by
  have shift : 2 ^ ns.lbaShift = 2 ^ (ns.lbaShift - 9) * 512 := by
    rw [show (512 : Nat) = 2 ^ 9 from rfl, ← Nat.pow_add,
      Nat.sub_add_cancel formed.sectors]
  rw [nvmeBlockNr, shift, ← Nat.mul_assoc,
    Nat.div_mul_cancel (Nat.dvd_of_mod_eq_zero formed.aligned)]

theorem Request.Formed.blocks (formed : req.Formed ns) :
    req.bytes / 2 ^ ns.lbaShift * 2 ^ ns.lbaShift = req.bytes :=
  Nat.div_mul_cancel (Nat.dvd_of_mod_eq_zero formed.whole)

theorem AfterFirst.entries {first : Segment} {rest : List Segment} {bytes : Nat}
    {pages : List Nat} (after : AfterFirst first bytes rest pages) :
    pages.length = entryCount first.address bytes := by
  have left : ((bytes : Int) - first.head).toNat =
      bytes - headBytes first.address bytes := by
    unfold headBytes Segment.head
    omega
  rw [after.length_eq, nprps, left]
  rfl

theorem nvmeSetupPrps_names {sg : List Segment} (table : Scatterlist sg)
    {bytes : Nat} (total : sgLen sg = bytes) {pools : PrpPools}
    {built : NvmeIod}
    (ran : nvmeSetupPrps pageBytes pools sg bytes =
      some ((bytes : Int), built)) :
    prpAddresses (prpMemory built.lists) (built.sg.head?.map Segment.address)
      built.firstDma bytes = some (sgBytes sg) := by
  cases sg with
  | nil => cases ran
  | cons first rest =>
      obtain ⟨pages, after, isBytes⟩ := table.afterFirst (le_of_eq total.symm)
      obtain ⟨ret, npages, lists, prp2, isRan, ended⟩ :=
        nvmeSetupPrps_ends pools after
      rw [isRan] at ran
      cases ran
      obtain ⟨-, listed⟩ := ended.listed (ended.ret_eq_iff.mp rfl)
      dsimp only [List.head?_cons, Option.map_some]
      rw [prpAddresses_from after.entries.symm listed.points, isBytes,
        List.take_of_length_le (by rw [length_sgBytes, total])]

theorem mapIntegrity_prps {iod mapped : RqIod}
    (ran : (mapIntegrity pageBytes kernel req iod).1 = .ok mapped) :
    mapped.prps = iod.prps := by
  unfold mapIntegrity at ran
  repeat' split at ran
  all_goals cases ran
  all_goals rfl

theorem mapData_names (maps : kernel.Maps req) {embedded : Bool} {iod : RqIod}
    (ran : (mapData pageBytes kernel req embedded).1 = .ok iod) :
    ∃ sg, kernel.dmaMapSg kernel.blkRqMapSg = some sg ∧ sgLen sg = req.bytes ∧
      prpAddresses (prpMemory iod.prps.lists) iod.prps.prp1
        iod.prps.prp2 req.bytes =
        some (sgBytes sg) := by
  unfold mapData at ran
  split at ran
  next => cases ran
  split at ran
  next => cases ran
  next sg isMapped =>
  split at ran
  next => cases ran
  next prpLen built isBuilt =>
  dsimp only at ran
  split at ran
  next => cases ran
  next whole =>
    obtain ⟨-, table, total⟩ := maps sg isMapped
    rw [← not_not.mp whole] at isBuilt
    have names := nvmeSetupPrps_names table total isBuilt
    have same := mapIntegrity_prps ran
    refine ⟨sg, isMapped, total, ?_⟩
    rw [same]
    exact names

theorem nvmeQueueRq_queued {iod : RqIod} {command : RqCommand}
    (queued : (nvmeQueueRq pageBytes kernel ns piType req).1 =
      .queued iod command) :
    command = submitted ns piType req iod ∧
      (if req.discard then (mapDiscard kernel (embeds pageBytes req)).1 =
        .ok iod
      else req.nrPhysSegments ≠ 0 →
        (mapData pageBytes kernel req (embeds pageBytes req)).1 = .ok iod) := by
  unfold nvmeQueueRq at queued
  split at queued
  next => cases queued
  split at queued
  next => cases queued
  dsimp only at queued
  split at queued
  next => cases queued
  next mapped isMapped =>
    cases queued
    refine ⟨rfl, ?_⟩
    split at isMapped
    next isDiscard =>
      rw [if_pos isDiscard]
      exact isMapped
    next notDiscard =>
      rw [if_neg notDiscard]
      intro segments
      rw [if_pos segments] at isMapped
      exact isMapped

end Exact

def splitWrite : Request where
  bytes := 24576
  pos := 800
  write := true
  discard := false
  flush := false
  fua := true
  failfastDev := false
  rahead := false
  integrity := false
  noretry := false
  nrPhysSegments := 2

def RqKernel.plain (sg : List Segment) : RqKernel where
  kmalloc := true
  rangeAlloc := some (2 ^ 30)
  blkRqMapSg := sg
  dmaMapSg := some
  pools := Kernel.plain.pools
  countIntegritySg := 0
  mapIntegritySg := 0
  dmaMapMeta := none

def splitTable : List Segment := [⟨20992, 3584⟩, ⟨36864, 20992⟩]

end Chario.Nvme
