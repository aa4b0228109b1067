import Chario.Nvme.PhysPrps

namespace Chario.Nvme.Machine

open Chario.Library

/-! The mapping functions and the PRP builders statement by statement, in the
integers of the 32-bit machine and with a record of what they store. -/

structure Arithmetic where
  int : Int → Int
  unsigned : Int → Int
  dmaAddr : Int → Int
  u64 : Int → Int

/-- `int`, `unsigned` and `dma_addr_t` of 32 bits. -/
def wrapping : Arithmetic where
  int value := (value + 2 ^ 31) % 2 ^ 32 - 2 ^ 31
  unsigned value := value % 2 ^ 32
  dmaAddr value := value % 2 ^ 32
  u64 value := value % 2 ^ 64

def unbounded : Arithmetic where
  int value := value
  unsigned value := value
  dmaAddr value := value
  u64 value := value

namespace Arithmetic

variable (a : Arithmetic)

/-- An `int` from which an `unsigned` is taken off: the difference is
`unsigned`. -/
def sub (value amount : Int) : Int :=
  a.int (a.unsigned (a.unsigned value - amount))

/-- `DIV_ROUND_UP` on `unsigned` operands. -/
def divRoundUp (value divisor : Int) : Int :=
  a.unsigned (a.unsigned (value + divisor) - 1) / divisor

end Arithmetic

def nvmeNpages (a : Arithmetic) (pageSize size : Int) : Int :=
  let nprps := a.divRoundUp (a.unsigned (size + pageSize)) pageSize
  a.int (a.divRoundUp (a.unsigned (8 * nprps)) (pageBytes - 8))

inductive Pool where
  | small
  | page
deriving DecidableEq, Repr

def Pool.alloc (pools : PrpPools) : Pool → Nat → Option Nat
  | .small => pools.small.alloc
  | .page => pools.page.alloc

inductive Event where
  | pointer (index : Int)
  | entry (pool : Pool) (block : Nat) (index : Int) (value : Option Int)
  | value (value : Int)
deriving DecidableEq, Repr

/-- The variables of a builder and the fields of the descriptor.  `memory` holds
the entries of the list blocks, numbered by their allocations; `second` is
`first_dma`, or `prp2` of a physical descriptor. -/
structure Vars where
  sg : List Segment
  length : Int
  dmaLen : Int
  dmaAddr : Int
  i : Int
  npages : Int
  pool : Pool
  block : Nat
  memory : Nat → Int → Option Int
  prp1 : Option Int
  second : Option Int
  log : List Event

def put (memory : Nat → Int → Option Int) (block : Nat) (index : Int)
    (value : Option Int) : Nat → Int → Option Int :=
  fun other place =>
    if other = block ∧ place = index then value else memory other place

namespace Vars

variable (v : Vars)

def record (event : Event) : Vars := { v with log := v.log ++ [event] }

def setLength (value : Int) : Vars :=
  { v with length := value }.record (.value value)

def setDmaLen (value : Int) : Vars :=
  { v with dmaLen := value }.record (.value value)

def setDmaAddr (value : Int) : Vars :=
  { v with dmaAddr := value }.record (.value value)

def setI (value : Int) : Vars := { v with i := value }.record (.value value)

def setNpages (value : Int) : Vars :=
  { v with npages := value }.record (.value value)

def setSecond (value : Int) : Vars :=
  { v with second := some value }.record (.value value)

/-- `list[index] = prp_list`, with the list of the last allocation. -/
def point (index : Int) : Vars := v.record (.pointer index)

/-- A store into entry `index` of a list block. -/
def store (block : Nat) (index : Int) (value : Option Int) : Vars :=
  { v with memory := put v.memory block index value }.record
    (.entry v.pool block index value)

end Vars

/-- How a builder ends. -/
inductive Outcome where
  | returned (value : Int)
  | bug
  | pastEnd
  | outOfFuel
deriving DecidableEq, Repr

/-- The branch `i == page_size >> 3`: a fresh list takes over the last entry of
the full one and is linked from there. -/
def chain (a : Arithmetic) (alloc : Nat → Option Nat) (v : Vars) :
    Option Vars :=
  match alloc (v.block + 1) with
  | none => none
  | some dma =>
      let v := (v.point v.npages).setNpages (a.int (v.npages + 1))
      let v := v.store (v.block + 1) 0 (v.memory v.block (v.i - 1))
      let v := v.store v.block (v.i - 1) (some dma)
      some ({ v with block := v.block + 1 }.setI 1)

/-- The entry of the current page, behind a fresh list where the old one is
full. -/
def storeEntry (a : Arithmetic) (pageSize : Int) (alloc : Nat → Option Nat)
    (v : Vars) : Option Vars :=
  match if v.i = pageSize / 8 then chain a alloc v else some v with
  | none => none
  | some v =>
      some ((v.store v.block v.i (some v.dmaAddr)).setI (a.int (v.i + 1)))

def advance (a : Arithmetic) (pageSize : Int) (v : Vars) : Vars :=
  let v := v.setDmaLen (a.sub v.dmaLen pageSize)
  let v := v.setDmaAddr (a.u64 (v.dmaAddr + pageSize))
  v.setLength (a.sub v.length pageSize)

def prpLoop (a : Arithmetic) (pageSize : Int) (alloc : Nat → Option Nat)
    (refill : Vars → Option Vars) (totalLen : Int) :
    Nat → Vars → Outcome × Vars
  | 0, v => (.outOfFuel, v)
  | fuel + 1, v =>
      match storeEntry a pageSize alloc v with
      | none => (.returned (a.int (totalLen - v.length)), v)
      | some v =>
          let v := advance a pageSize v
          if v.length ≤ 0 then (.returned totalLen, v)
          else if 0 < v.dmaLen then
            prpLoop a pageSize alloc refill totalLen fuel v
          else if v.dmaLen < 0 then (.bug, v)
          else
            match refill v with
            | none => (.pastEnd, v)
            | some v => prpLoop a pageSize alloc refill totalLen fuel v

/-- `sg_next`, with the address and the length of the entry. -/
def nextSegment (a : Arithmetic) (v : Vars) : Option Vars :=
  match v.sg with
  | [] => none
  | segment :: rest =>
      some (({ v with sg := rest }.setDmaAddr (a.u64 segment.address)).setDmaLen
        (a.int segment.len))

def refillPage (a : Arithmetic) (pageSize : Int) (v : Vars) : Option Vars :=
  some (v.setDmaLen (a.int pageSize))

def Vars.start (sg : List Segment) (totalLen dmaLen dmaAddr : Int) : Vars where
  sg := sg
  length := totalLen
  dmaLen := dmaLen
  dmaAddr := dmaAddr
  i := 0
  npages := -1
  pool := .small
  block := 0
  memory _ _ := none
  prp1 := none
  second := none
  log := []

/-- `page_size - offset`. -/
def headOf (a : Arithmetic) (pageSize dmaAddr : Int) : Int :=
  a.unsigned (pageSize - a.int (dmaAddr % pageSize))

/-- The pool for the entries of `length` bytes, and the first `npages`. -/
def choosePool (a : Arithmetic) (pageSize : Int) (v : Vars) : Vars :=
  let nprps := a.int (a.divRoundUp (a.unsigned v.length) pageSize)
  let v := v.record (.value nprps)
  if nprps ≤ 256 / 8 then { v with pool := .small }.setNpages 0
  else { v with pool := .page }.setNpages 1

def withoutList (a : Arithmetic) (pageSize totalLen : Int) (v : Vars) : Int :=
  a.int (a.unsigned (a.unsigned (a.int (totalLen - v.length)) + pageSize))

def Vars.beginLists (v : Vars) (dma : Int) (restart : Option Int) : Vars :=
  let v := (v.point 0).setSecond dma
  match restart with
  | none => v.setI 0
  | some address => (v.setDmaAddr address).setI 0

/-- What both builders do behind the first page.  Without a list `page` goes
into the descriptor, and with one `restart` is the address of the first entry,
if it is not `dma_addr`.  The loop takes a page off the length on every turn. -/
def buildLists (a : Arithmetic) (pageSize : Int) (pools : PrpPools)
    (refill : Vars → Option Vars) (totalLen page : Int) (restart : Option Int)
    (v : Vars) : Outcome × Vars :=
  if a.unsigned v.length ≤ pageSize then (.returned totalLen, v.setSecond page)
  else
    let v := choosePool a pageSize v
    match v.pool.alloc pools 0 with
    | none =>
        (.returned (withoutList a pageSize totalLen v),
          (v.setSecond page).setNpages (-1))
    | some dma =>
        prpLoop a pageSize (v.pool.alloc pools) refill totalLen totalLen.toNat
          (v.beginLists dma restart)

/-- `nvme_setup_prps`.  `dma_addr` is a `u64`, and `first_dma` a
`dma_addr_t`. -/
def nvmeSetupPrps (a : Arithmetic) (pageSize : Int) (pools : PrpPools)
    (sg : List Segment) (totalLen : Int) : Outcome × Vars :=
  match sg with
  | [] => (.pastEnd, .start [] totalLen 0 0)
  | first :: rest =>
      let v := Vars.start rest totalLen (a.int first.len) (a.u64 first.address)
      let head := headOf a pageSize v.dmaAddr
      let v := v.setLength (a.sub v.length head)
      if v.length ≤ 0 then (.returned totalLen, v)
      else
        let v := v.setDmaLen (a.sub v.dmaLen head)
        match if v.dmaLen ≠ 0 then
            some (v.setDmaAddr (a.u64 (v.dmaAddr + head)))
          else nextSegment a v with
        | none => (.pastEnd, v)
        | some v =>
            buildLists a pageSize pools (nextSegment a) totalLen
              (a.dmaAddr v.dmaAddr) none v

/-- `nvme_setup_phys_prps`.  `address + page_size` is a sum of `dma_addr_t`. -/
def nvmeSetupPhysPrps (a : Arithmetic) (pageSize : Int) (pools : PrpPools)
    (totalLen address : Int) : Outcome × Vars :=
  let v := { Vars.start [] totalLen totalLen (a.u64 address) with
    prp1 := some address }
  let head := headOf a pageSize v.dmaAddr
  let v := v.setLength (a.sub v.length head)
  if v.length ≤ 0 then (.returned totalLen, v)
  else
    let v := v.setDmaLen (a.sub v.dmaLen head)
    let v := if v.dmaLen ≠ 0 then v.setDmaAddr (a.u64 (v.dmaAddr + head)) else v
    let page := a.dmaAddr (address + pageSize)
    buildLists a pageSize pools (refillPage a pageSize) totalLen
      page (some page)
      v

/-! The scatterlists. -/

structure SgEntry where
  page : Nat
  length : Int
  offset : Int
deriving DecidableEq, Repr

def sgSetPages (a : Arithmetic) : Nat → Nat → Int → Int → List SgEntry
  | 0, _, _, _ => []
  | count + 1, page, offset, length =>
      ⟨page, min length (pageBytes - offset), offset⟩ ::
        sgSetPages a count (page + 1) 0
          (a.unsigned (length - (pageBytes - offset)))

/-- What `dma_map_sg` is to map, where `frames` gives the bus addresses of the
pages. -/
def SgEntry.segment (frames : Nat → Nat) (entry : SgEntry) : Segment where
  address := frames entry.page + entry.offset.toNat
  len := entry.length.toNat

def pinnedPages (a : Arithmetic) (addr length : Nat) : Nat :=
  (a.int (a.divRoundUp (a.unsigned (addr % pageBytes + length))
    pageBytes)).toNat

def nvmeMapUserPages (a : Arithmetic) (kernel : Kernel) (addr length : Nat) :
    Except Stop (List SgEntry × List Segment) :=
  if addr % 4 ≠ 0 then .error (.status (-einval))
  else if length = 0 ∨ intMax - pageBytes < length then
    .error (.status (-einval))
  else if kernel.kcalloc (pinnedPages a addr length) = false then
    .error (.status (-enomem))
  else if kernel.getUserPagesFast addr (pinnedPages a addr length) <
      pinnedPages a addr length then .error (.status (-efault))
  else if kernel.kmalloc (nvmeNpages a pageBytes length).toNat = false then
    .error (.status (-enomem))
  else
    let table := sgSetPages a (pinnedPages a addr length) (addr / pageBytes)
      (addr % pageBytes : Nat) length
    match kernel.dmaMapSg (table.map (SgEntry.segment kernel.frames)) with
    | none => .error (.status (-enomem))
    | some sg => .ok (table, sg)

/-- `nvme_map_kernel_pages`: one entry for the whole buffer.  `virtToBus` gives
the bus addresses of the linear mapping of the kernel. -/
def nvmeMapKernelPages (a : Arithmetic) (kernel : Kernel)
    (virtToBus : Nat → Nat) (addr length : Nat) :
    Except Stop (List Segment) :=
  if addr % 4 ≠ 0 then .error (.status (-einval))
  else if length = 0 ∨ intMax - pageBytes < length then
    .error (.status (-einval))
  else if kernel.kmalloc (nvmeNpages a pageBytes length).toNat = false then
    .error (.status (-enomem))
  else
    match kernel.dmaMapSg [⟨virtToBus addr, length⟩] with
    | none => .error (.status (-enomem))
    | some sg => .ok sg

def nvmeMapPhysPages (a : Arithmetic) (kernel : Kernel) (addr length : Nat) :
    Except Stop Unit :=
  if addr % 4 ≠ 0 then .error (.status (-einval))
  else if length = 0 ∨ intMax - pageBytes < length then
    .error (.status (-einval))
  else if kernel.kmalloc (nvmeNpages a pageBytes length).toNat = false then
    .error (.status (-enomem))
  else .ok ()

end Chario.Nvme.Machine
