import Chario.Constants
import Chario.Nvme.PrpMemory
import Chario.Queue.Command

namespace Chario.Nvme

open Chario.Library

/-! `nvme_submit_io_chario` and `nvme_submit_io_chario_phys` up to the wait: the
checks, the mapping, the PRP lists and the commands that are issued. -/

def intMax : Nat := 2 ^ 31 - 1

inductive NvmeOpcode
  | flush
  | write
  | read
  | writeUncor
  | compare
  | writeZeroes
  | dsm
  | resvRegister
  | resvReport
  | resvAcquire
  | resvRelease
deriving DecidableEq, Repr

structure NvmeNs where
  nsId : Nat
  lbaShift : Nat
  ms : Nat
  ext : Bool
deriving DecidableEq, Repr

/-- The format that `nvme_revalidate_disk` installs from the identify data. -/
def nvmeRevalidateDisk (nsId ds ms : Nat) (metaExt : Bool) : NvmeNs where
  nsId := nsId
  lbaShift := if ds = 0 then 9 else ds
  ms := ms
  ext := decide (ms ≠ 0) && metaExt

structure NvmeUserIo where
  opcode : NvmeOpcode
  flags : Nat
  control : Nat
  nblocks : Nat
  metadata : Nat
  addr : Nat
  slba : Nat
  dsmgmt : Nat
  reftag : Nat
  apptag : Nat
  appmask : Nat
deriving DecidableEq, Repr

/-- `struct nvme_rw_command` without the command id.  A pointer is `none` when
it comes from memory that was never written. -/
structure RwCommand where
  opcode : NvmeOpcode
  flags : Nat
  nsid : Nat
  slba : Nat
  length : Nat
  control : Nat
  dsmgmt : Nat
  reftag : Nat
  apptag : Nat
  appmask : Nat
  prp1 : Option Nat
  prp2 : Option Nat
  metadata : Nat
deriving DecidableEq, Repr

/-- Why a request ends before the wait: with a status, or at a `BUG_ON`. -/
inductive Stop
  | status (value : Int)
  | bug
deriving DecidableEq, Repr

/-- The kernel services a request uses.  `frames` is the bus address of the user
page with a virtual page number, a `dma_addr_t` of 32 bits. -/
structure Kernel where
  kcalloc : Nat → Bool
  getUserPagesFast : Nat → Nat → Int
  frames : Nat → Nat
  inSpace : ∀ page, frames page < 2 ^ 32
  kmalloc : Nat → Bool
  dmaMapSg : List Segment → Option (List Segment)
  dmaAllocCoherent : Nat → Option Nat
  pools : PrpPools

/-- The scatterlist of `count` pages from a page and an offset in it on. -/
def sgTable (frames : Nat → Nat) : Nat → Nat → Nat → Nat → List Segment
  | 0, _, _, _ => []
  | count + 1, page, offset, length =>
      ⟨frames page + offset, min length (pageBytes - offset)⟩ ::
        sgTable frames count (page + 1) 0 (length - (pageBytes - offset))

def userPageCount (addr length : Nat) : Nat :=
  (addr % pageBytes + length + pageBytes - 1) / pageBytes

def nvmeNpages (pageSize size : Nat) : Nat :=
  (8 * ((size + pageSize + pageSize - 1) / pageSize) + (pageSize - 8) - 1) /
    (pageSize - 8)

def nvmeMapUserPages (pageSize : Nat) (kernel : Kernel) (addr length : Nat) :
    Except Stop (List Segment) :=
  if addr % 4 ≠ 0 then .error (.status (-einval))
  else if length = 0 ∨ intMax - pageBytes < length then
    .error (.status (-einval))
  else if kernel.kcalloc (userPageCount addr length) = false then
    .error (.status (-enomem))
  else if kernel.getUserPagesFast addr (userPageCount addr length) <
      userPageCount addr length then .error (.status (-efault))
  else if kernel.kmalloc (nvmeNpages pageSize length) = false then
    .error (.status (-enomem))
  else
    match kernel.dmaMapSg (sgTable kernel.frames (userPageCount addr length)
        (addr / pageBytes) (addr % pageBytes) length) with
    | none => .error (.status (-enomem))
    | some sg => .ok sg

def nvmeMapPhysPages (pageSize : Nat) (kernel : Kernel) (addr length : Nat) :
    Except Stop Unit :=
  if addr % 4 ≠ 0 then .error (.status (-einval))
  else if length = 0 ∨ intMax - pageBytes < length then
    .error (.status (-einval))
  else if kernel.kmalloc (nvmeNpages pageSize length) = false then
    .error (.status (-enomem))
  else .ok ()

structure PrpSetup where
  prp1 : Option Nat
  prp2 : Option Nat
  npages : Int
  lists : List PrpBlock
deriving DecidableEq, Repr

/-- Map the user pages and set the lists up; the value is `prp_len`. -/
def setupUser (pageSize : Nat) (kernel : Kernel) (addr length : Nat) :
    Except Stop (Int × PrpSetup) :=
  match nvmeMapUserPages pageSize kernel addr length with
  | .error stop => .error stop
  | .ok sg =>
      match nvmeSetupPrps pageSize kernel.pools sg length with
      | none => .error .bug
      | some (prpLen, iod) =>
          .ok (prpLen, ⟨iod.sg.head?.map Segment.address, iod.firstDma,
            iod.npages, iod.lists⟩)

def setupPhys (pageSize : Nat) (kernel : Kernel) (addr length : Nat) :
    Except Stop (Int × PrpSetup) :=
  match nvmeMapPhysPages pageSize kernel addr length with
  | .error stop => .error stop
  | .ok () =>
      match nvmeSetupPhysPrps pageSize kernel.pools length (addr % 2 ^ 32) with
      | none => .error .bug
      | some (prpLen, iod) =>
          .ok (prpLen, ⟨iod.prp1, iod.prp2, iod.npages, iod.lists⟩)

structure SplitState where
  remainingBlocks : Nat
  currentSlba : Nat
  remainingPages : Int
  pageCount : Nat
  prp1Offset : Int
  prp1 : Option Nat
  prp2 : Option Nat
  commands : List RwCommand
  entriesRead : List (Option Nat)
deriving DecidableEq, Repr

def prpListEntry (lists : List PrpBlock) (page : Nat) (index : Int) :
    Option Nat :=
  if index < 0 then none
  else
    match lists[page]? with
    | none => none
    | some block => block.entries[index.toNat]?

/-- The command for `length + 1` blocks at the current position. -/
def rwCommand (ns : NvmeNs) (io : NvmeUserIo) (metaDma length : Nat)
    (s : SplitState) : RwCommand where
  opcode := io.opcode
  flags := io.flags
  nsid := ns.nsId
  slba := s.currentSlba
  length := length
  control := io.control
  dsmgmt := io.dsmgmt
  reftag := io.reftag
  apptag := io.apptag
  appmask := io.appmask
  prp1 := s.prp1
  prp2 := s.prp2
  metadata := metaDma

/-- `nvme_submit_chario_io_cmd`: the command is queued and the status is 0. -/
def nvmeSubmitCharioIoCmd (s : SplitState) (command : RwCommand) :
    Int × SplitState :=
  (0, { s with commands := s.commands ++ [command] })

/-- The step to the next command.  A page that a list names is cast to the 32
bits of `prp1`; the pool's list blocks are at 32-bit addresses already. -/
def SplitState.advance (lists : List PrpBlock) (s : SplitState) : SplitState :=
  if s.prp1Offset = 479 ∧ 1 < s.remainingPages then
    { s with
      remainingBlocks := s.remainingBlocks - reqMaxBlocks
      currentSlba := (s.currentSlba + reqMaxBlocks) % 2 ^ 64
      prp2 := (prpListEntry lists s.pageCount 511).map (· + 8)
      pageCount := s.pageCount + 1
      prp1Offset := 0
      prp1 := (prpListEntry lists (s.pageCount + 1) 0).map (· % 2 ^ 32)
      remainingPages := s.remainingPages - 1
      entriesRead := s.entriesRead ++ [prpListEntry lists s.pageCount 511,
        prpListEntry lists (s.pageCount + 1) 0] }
  else
    { s with
      remainingBlocks := s.remainingBlocks - reqMaxBlocks
      currentSlba := (s.currentSlba + reqMaxBlocks) % 2 ^ 64
      prp1Offset := s.prp1Offset + reqMaxBlocks
      prp1 := (prpListEntry lists s.pageCount
        (s.prp1Offset + reqMaxBlocks)).map (· % 2 ^ 32)
      prp2 := s.prp2.map (· + reqMaxBlocks * 8)
      entriesRead := s.entriesRead ++
        [prpListEntry lists s.pageCount (s.prp1Offset + reqMaxBlocks)] }

/-- The loop `while (remaining_blocks >= REQ_MAX_BLOCKS)`, with the last status
if a submission fails. -/
def splitLoop (ns : NvmeNs) (io : NvmeUserIo) (metaDma : Nat)
    (lists : List PrpBlock) : Nat → SplitState → Int × SplitState
  | 0, s => (0, s)
  | fuel + 1, s =>
      if reqMaxBlocks ≤ s.remainingBlocks then
        match nvmeSubmitCharioIoCmd s
            (rwCommand ns io metaDma (reqMaxBlocks - 1) s) with
        | (0, s) => splitLoop ns io metaDma lists fuel (s.advance lists)
        | (status, s) => (status, s)
      else (0, s)

/-- The two-block tail of a longer request: PRP2 is a page, cast like the
others, and no list. -/
def SplitState.finalPrp2 (lists : List PrpBlock) (io : NvmeUserIo)
    (s : SplitState) : SplitState :=
  if s.remainingBlocks = 1 ∧ 1 < io.nblocks then
    { s with
      prp2 := (prpListEntry lists s.pageCount (s.prp1Offset + 1)).map
        (· % 2 ^ 32)
      entriesRead := s.entriesRead ++
        [prpListEntry lists s.pageCount (s.prp1Offset + 1)] }
  else s

def SplitState.start (io : NvmeUserIo) (setup : PrpSetup) : SplitState where
  remainingBlocks := io.nblocks
  currentSlba := io.slba
  remainingPages := setup.npages
  pageCount := 0
  prp1Offset := -1
  prp1 := setup.prp1
  prp2 := setup.prp2
  commands := []
  entriesRead := []

def submitSplit (ns : NvmeNs) (io : NvmeUserIo) (metaDma : Nat)
    (setup : PrpSetup) : Int × SplitState :=
  match splitLoop ns io metaDma setup.lists io.nblocks (.start io setup) with
  | (0, s) =>
      nvmeSubmitCharioIoCmd (s.finalPrp2 setup.lists io)
        (rwCommand ns io metaDma s.remainingBlocks
          (s.finalPrp2 setup.lists io))
  | (status, s) => (status, s)

structure Issued where
  status : Int
  nblocks : Nat
  commands : List RwCommand
  lists : List PrpBlock
  entriesRead : List (Option Nat)
deriving DecidableEq, Repr

/-- `length` before the metadata of an extended format is added. -/
def dataLen (ns : NvmeNs) (io : NvmeUserIo) : Nat :=
  (io.nblocks + 1) * 2 ^ ns.lbaShift % 2 ^ 32

def metaLen (ns : NvmeNs) (io : NvmeUserIo) : Nat :=
  (io.nblocks + 1) * ns.ms % 2 ^ 32

def transferLen (ns : NvmeNs) (io : NvmeUserIo) : Nat :=
  if metaLen ns io ≠ 0 ∧ ns.ext then (dataLen ns io + metaLen ns io) % 2 ^ 32
  else dataLen ns io

def metaBuffer (kernel : Kernel) (ns : NvmeNs) (io : NvmeUserIo) :
    Except Stop Nat :=
  if metaLen ns io ≠ 0 ∧ ns.ext = false then
    match kernel.dmaAllocCoherent (metaLen ns io) with
    | none => .error (.status (-enomem))
    | some dma => .ok dma
  else .ok 0

/-- The body that both functions share, around their own mapping. -/
def submitIo (setup : Nat → Nat → Except Stop (Int × PrpSetup))
    (kernel : Kernel) (ns : NvmeNs) (io : NvmeUserIo) : Except Stop Issued :=
  if metaLen ns io ≠ 0 ∧ (io.metadata % 4 ≠ 0 ∨ io.metadata = 0) ∧
      ns.ext = false then .error (.status (-einval))
  else if io.opcode ≠ .write ∧ io.opcode ≠ .read ∧ io.opcode ≠ .compare then
    .error (.status (-einval))
  else
    match setup io.addr (transferLen ns io) with
    | .error stop => .error stop
    | .ok (prpLen, prps) =>
        if (transferLen ns io : Int) ≠ prpLen then .error (.status (-enomem))
        else
          match metaBuffer kernel ns io with
          | .error stop => .error stop
          | .ok metaDma =>
              match submitSplit ns io metaDma prps with
              | (status, s) =>
                  .ok ⟨status, io.nblocks, s.commands, prps.lists,
                    s.entriesRead⟩

def nvmeSubmitIoChario (pageSize : Nat) (kernel : Kernel) (ns : NvmeNs)
    (io : NvmeUserIo) : Except Stop Issued :=
  submitIo (setupUser pageSize kernel) kernel ns io

def nvmeSubmitIoCharioPhys (pageSize : Nat) (kernel : Kernel) (ns : NvmeNs)
    (io : NvmeUserIo) : Except Stop Issued :=
  submitIo (setupPhys pageSize kernel) kernel ns io

end Chario.Nvme
