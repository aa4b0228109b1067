import Chario.Device.File
import Chario.Nvme.Format

namespace Chario.Device

open Chario.Library
open Chario.Nvme

/-! The chunks that the character device asks for, under any format. -/

def userByte (kernel : Kernel) (addr : Nat) : Nat :=
  bufferAddress kernel.frames addr

/-- The chunk is accepted, and its commands agree with the format. -/
def SplitsRight
    (submit : Nat → Kernel → NvmeNs → NvmeUserIo → Except Stop Issued)
    (kernel : Kernel) (ns : NvmeNs) (addr len : Nat) (offset : Int)
    (command : NvmeOpcode) (buffer : Nat → Nat) : Prop :=
  ∃ issued,
    submit pageBytes kernel ns (charioUio ns addr len offset command) =
      .ok issued ∧
    SplitAgrees ns (charioUio ns addr len offset command) buffer issued

def FormatFits (ns : NvmeNs) (len : Nat) : Prop :=
  (len - 1) / 2 ^ ns.lbaShift ≤ 31 ∨
    (ns.blockBytes = pageBytes ∧ (len - 1) / 2 ^ ns.lbaShift ≤ 1023)

instance (ns : NvmeNs) (len : Nat) : Decidable (FormatFits ns len) :=
  inferInstanceAs (Decidable (_ ∨ _))

/-- The last page whose address the driver puts through a `dma_addr_t`: the
second one of a single command, else the first of the last command or the page
of its two-block tail. -/
def lastNarrowPage (ns : NvmeNs) (len : Nat) : Nat :=
  let nblocks := (len - 1) / 2 ^ ns.lbaShift
  if nblocks ≤ 31 then
    if (nblocks + 1) * ns.blockBytes ≤ pageBytes then 0 else 1
  else if nblocks % 32 = 1 then nblocks
  else nblocks / 32 * 32

/-- The addresses that the driver computes in 32 bits do not wrap. -/
def FitsInSpace (ns : NvmeNs) (addr len : Nat) : Prop :=
  addr + lastNarrowPage ns len * pageBytes < 2 ^ 32

instance (ns : NvmeNs) (addr len : Nat) : Decidable (FitsInSpace ns addr len) :=
  inferInstanceAs (Decidable (_ < _))

def DistinctPages (kernel : Kernel) (ns : NvmeNs) (addr len : Nat) : Prop :=
  ∀ page other,
    page < pageCount (((len - 1) / 2 ^ ns.lbaShift + 1) * ns.blockBytes) →
    other < pageCount (((len - 1) / 2 ^ ns.lbaShift + 1) * ns.blockBytes) →
    kernel.userPage addr page = kernel.userPage addr other → page = other

theorem nvmeRevalidateDisk_accepts (nsId : Nat) {ds ms : Nat} (metaExt : Bool)
    (shift : ds = 0 ∨ 9 ≤ ds ∧ ds ≤ 16) (width : ms < 2 ^ 16)
    (accepted : ms = 0 ∨ metaExt = true) :
    (nvmeRevalidateDisk nsId ds ms metaExt).Accepts := by
  refine ⟨?_, width, ?_⟩
  · simp only [nvmeRevalidateDisk]
    split <;> omega
  · simp only [nvmeRevalidateDisk, Bool.and_eq_true, decide_eq_true_eq]
    constructor
    · intro some
      exact ⟨some, accepted.resolve_left some⟩
    · exact fun both => both.1

theorem bufferAddress_userPage (kernel : Kernel) {addr : Nat}
    (aligned : addr % pageBytes = 0) :
    bufferAddress (kernel.userPage addr) =
      fun byte => userByte kernel (addr + byte) := by
  funext byte
  have page : addr / pageBytes + byte / pageBytes =
      (addr + byte) / pageBytes := by
    unfold pageBytes at *
    omega
  have offset : byte % pageBytes = (addr + byte) % pageBytes := by
    unfold pageBytes at *
    omega
  rw [bufferAddress, Kernel.userPage, userByte, bufferAddress, page, offset]

theorem blocks_lt {ns : NvmeNs} (shift : 9 ≤ ns.lbaShift) {len : Nat}
    (positive : 0 < len) (fits : len ≤ maxBytes) :
    (len - 1) / 2 ^ ns.lbaShift < 2 ^ 13 := by
  have bound : (len - 1) / 2 ^ ns.lbaShift ≤ (len - 1) / 2 ^ 9 :=
    Nat.div_le_div_left (Nat.pow_le_pow_right (by decide) shift) (by decide)
  unfold maxBytes at fits
  omega

theorem charioUio_nblocks {ns : NvmeNs} (shift : 9 ≤ ns.lbaShift)
    {addr len : Nat} (positive : 0 < len) (fits : len ≤ maxBytes)
    (offset : Int) (command : NvmeOpcode) :
    (charioUio ns addr len offset command).nblocks =
      (len - 1) / 2 ^ ns.lbaShift := by
  have before : (len + (2 ^ 32 - 1)) % 2 ^ 32 = len - 1 := by
    unfold maxBytes at fits
    omega
  have small : (len - 1) / 2 ^ ns.lbaShift < 2 ^ 16 :=
    lt_of_lt_of_le (blocks_lt shift positive fits) (by decide)
  rw [charioUio, before, Nat.mod_eq_of_lt small]

section Chunk

variable {ns : NvmeNs} (accepts : ns.Accepts) {addr len : Nat}
variable (positive : 0 < len) (fits : len ≤ maxBytes)

include accepts positive fits

theorem transfer_bounded :
    ((len - 1) / 2 ^ ns.lbaShift + 1) * ns.blockBytes ≤
      intMax - pageBytes := by
  have blocks : (len - 1) / 2 ^ ns.lbaShift + 1 ≤ 2 ^ 13 :=
    blocks_lt accepts.shift.1 positive fits
  have bytes := accepts.blockBytes_bounds.2
  calc
    ((len - 1) / 2 ^ ns.lbaShift + 1) * ns.blockBytes ≤ 2 ^ 13 * 2 ^ 17 :=
      Nat.mul_le_mul blocks (le_of_lt bytes)
    _ ≤ intMax - pageBytes := by decide

section Submitted

variable {offset : Int} {kernel : Kernel} {command : NvmeOpcode}
variable (rw : command = .read ∨ command = .write)

include rw

theorem submitted_of_setUp
    {setup : Nat → Kernel → Nat → Nat → Except Stop (Int × PrpSetup)}
    {frame : Nat → Nat} {result : PrpSetup}
    (ready : SetUp (setup pageBytes kernel) addr
      (((len - 1) / 2 ^ ns.lbaShift + 1) * ns.blockBytes) frame result)
    (buffer : Nat → Nat) :
    SplitsRight (fun pageSize kernel => submitIo (setup pageSize kernel) kernel)
        kernel ns addr len offset command buffer ↔
      SplitAgrees ns (charioUio ns addr len offset command) buffer
        (.ofSplit ns (charioUio ns addr len offset command) result) := by
  have nblocks :=
    @charioUio_nblocks ns accepts.shift.1 addr len positive fits offset
    command
  have bounded := transfer_bounded accepts positive fits
  rw [← nblocks] at ready bounded
  have issues := @submitIo_ok ns accepts (charioUio ns addr len offset command)
    (lt_of_le_of_lt bounded (by decide)) kernel rw _ _ _ ready
  constructor
  · rintro ⟨issued, ran, agrees⟩
    have same := Except.ok.inj (issues.symm.trans ran)
    rwa [← same] at agrees
  · exact fun agrees => ⟨_, issues, agrees⟩

end Submitted

variable {offset : Int} (nonneg : 0 ≤ offset) (inFile : offset < 2 ^ 63)

include nonneg inFile

theorem charioUio_noWrap (command : NvmeOpcode) :
    (charioUio ns addr len offset command).slba +
      (charioUio ns addr len offset command).nblocks < 2 ^ 64 := by
  rw [charioUio_nblocks accepts.shift.1 positive fits]
  have bound : (len - 1) / 2 ^ ns.lbaShift ≤ len - 1 := Nat.div_le_self _ _
  have down : offset / 2 ^ ns.lbaShift ≤ offset :=
    Int.ediv_le_self _ nonneg
  have up : 0 ≤ offset / 2 ^ ns.lbaShift :=
    Int.ediv_nonneg nonneg (Int.le_of_lt (Int.pow_pos (by decide)))
  unfold maxBytes at fits
  simp only [charioUio]
  omega

variable {kernel : Kernel} {command : NvmeOpcode}
variable (rw : command = .read ∨ command = .write)

include rw

variable (granted : kernel.Granted) (aligned : addr % pageBytes = 0)

include granted aligned

theorem userSplit_fits :
    (FormatFits ns len →
      SplitsRight nvmeSubmitIoChario kernel ns addr len offset command
        (fun byte => userByte kernel (addr + byte))) ∧
    (DistinctPages kernel ns addr len →
      SplitsRight nvmeSubmitIoChario kernel ns addr len offset command
        (fun byte => userByte kernel (addr + byte)) → FormatFits ns len) := by
  have blockBytes := accepts.blockBytes_bounds
  have some : 0 < ((len - 1) / 2 ^ ns.lbaShift + 1) * ns.blockBytes :=
    Nat.mul_pos (Nat.succ_pos _) (by omega)
  obtain ⟨prp2, npages, lists, ran, listed⟩ := setupUser_ok some
    (transfer_bounded accepts positive fits) aligned granted
    (pageCount_pred some)
  have ready : SetUp (setupUser pageBytes kernel) addr
      (((len - 1) / 2 ^ ns.lbaShift + 1) * ns.blockBytes) (kernel.userPage addr)
      ⟨Option.some (kernel.userPage addr 0), prp2, npages, lists⟩ :=
    ⟨ran, rfl, listed, fun page => granted.aligned _⟩
  have nblocks :=
    @charioUio_nblocks ns accepts.shift.1 addr len positive fits offset
    command
  have noWrap := @charioUio_noWrap ns accepts addr len positive fits offset
    nonneg inFile command
  have inSpace : ∀ page, kernel.userPage addr page < 2 ^ 32 :=
    fun page => kernel.inSpace _
  have submitted := @submitted_of_setUp ns accepts addr len positive fits offset
    kernel command rw setupUser _ _ ready
  rw [← bufferAddress_userPage kernel aligned]
  refine ⟨?_, ?_⟩
  · intro formatFits
    refine (submitted _).mpr ?_
    rw [FormatFits, ← nblocks] at formatFits
    rw [← nblocks] at ready
    rcases formatFits with short | ⟨paged, few⟩
    · exact splitAgrees_short ready noWrap (by omega) short
    · refine splitAgrees_paged ready noWrap paged few (.of_forall ?_)
      intro address member
      obtain ⟨page, -, rfl⟩ := List.mem_map.mp member
      exact inSpace page
  · intro distinct splits
    have agrees := (submitted _).mp splits
    rw [DistinctPages, ← nblocks] at distinct
    rw [FormatFits, ← nblocks]
    rw [← nblocks] at ready
    exact (splitAgrees_iff ready noWrap accepts inSpace distinct).mp agrees

theorem physSplit_fits :
    SplitsRight nvmeSubmitIoCharioPhys kernel ns addr len offset command
        (fun byte => addr + byte) ↔
      FormatFits ns len ∧ FitsInSpace ns addr len := by
  have blockBytes := accepts.blockBytes_bounds
  have some : 0 < ((len - 1) / 2 ^ ns.lbaShift + 1) * ns.blockBytes :=
    Nat.mul_pos (Nat.succ_pos _) (by omega)
  obtain ⟨prp2, npages, lists, ran, listed⟩ := setupPhys_ok some
    (transfer_bounded accepts positive fits) aligned granted
    (pageCount_pred some)
  have wrapped : ∀ page, physFrame (addr % 2 ^ 32) page % pageBytes = 0 := by
    intro page
    cases page with
    | zero =>
        rw [physFrame]
        unfold pageBytes at *
        omega
    | succ page =>
        rw [physFrame]
        unfold pageBytes at *
        omega
  have ready : SetUp (setupPhys pageBytes kernel) addr
      (((len - 1) / 2 ^ ns.lbaShift + 1) * ns.blockBytes)
      (physFrame (addr % 2 ^ 32))
      ⟨Option.some (addr % 2 ^ 32), prp2, npages, lists⟩ :=
    ⟨ran, rfl, listed, wrapped⟩
  have nblocks :=
    @charioUio_nblocks ns accepts.shift.1 addr len positive fits offset
    command
  have noWrap := @charioUio_noWrap ns accepts addr len positive fits offset
    nonneg inFile command
  have submitted := @submitted_of_setUp ns accepts addr len positive fits offset
    kernel command rw setupPhys _ _ ready (fun byte => addr + byte)
  refine submitted.trans ?_
  rw [FormatFits, FitsInSpace, lastNarrowPage, ← nblocks]
  rw [← nblocks] at ready
  exact physSplit_iff accepts aligned ready noWrap

end Chunk

/-- Under every format that `nvme_revalidate_disk` installs and a request is
accepted with, the split is right for the requests of one command and for those
of up to 1024 blocks of 4096 bytes, and for no others.  On a physical buffer the
addresses that the driver computes must not wrap besides. -/
theorem chario_split_agrees_iff {kernel : Kernel} (granted : kernel.Granted)
    (nsId : Nat) {ds ms : Nat} (metaExt : Bool)
    (shift : ds = 0 ∨ 9 ≤ ds ∧ ds ≤ 16) (width : ms < 2 ^ 16)
    (accepted : ms = 0 ∨ metaExt = true) {addr len : Nat}
    (aligned : addr % pageBytes = 0) (positive : 0 < len)
    (fits : len ≤ maxBytes) {offset : Int} (nonneg : 0 ≤ offset)
    (inFile : offset < 2 ^ 63) {command : NvmeOpcode}
    (rw : command = .read ∨ command = .write) :
    (FormatFits (nvmeRevalidateDisk nsId ds ms metaExt) len →
      SplitsRight nvmeSubmitIoChario kernel
        (nvmeRevalidateDisk nsId ds ms metaExt) addr len offset command
        (fun byte => userByte kernel (addr + byte))) ∧
    (DistinctPages kernel (nvmeRevalidateDisk nsId ds ms metaExt) addr len →
      SplitsRight nvmeSubmitIoChario kernel
        (nvmeRevalidateDisk nsId ds ms metaExt) addr len offset command
        (fun byte => userByte kernel (addr + byte)) →
      FormatFits (nvmeRevalidateDisk nsId ds ms metaExt) len) ∧
    (SplitsRight nvmeSubmitIoCharioPhys kernel
        (nvmeRevalidateDisk nsId ds ms metaExt) addr len offset command
        (fun byte => addr + byte) ↔
      FormatFits (nvmeRevalidateDisk nsId ds ms metaExt) len ∧
        FitsInSpace (nvmeRevalidateDisk nsId ds ms metaExt) addr len) := by
  have accepts := nvmeRevalidateDisk_accepts nsId metaExt shift width accepted
  obtain ⟨enough, needed⟩ :=
    userSplit_fits accepts positive fits nonneg inFile rw
    granted aligned
  exact ⟨enough, needed, physSplit_fits accepts positive fits nonneg inFile rw
    granted aligned⟩

/-- Two pages at the end of the 32-bit addresses: the second would be page 0. -/
example : ¬ FitsInSpace (nvmeRevalidateDisk 1 12 0 false) 0xfffff000 8192 := by
  decide

/-- A request of 4 MiB in blocks of 4096 bytes splits right. -/
theorem chario_split_agrees_4096 :
    SplitsRight nvmeSubmitIoCharioPhys Kernel.plain
      (nvmeRevalidateDisk 1 12 0 false) 0 4194304 0 .write
      (fun byte => 0 + byte) :=
  (chario_split_agrees_iff Kernel.plain_granted 1 false (.inr (by decide))
    (by decide) (.inl rfl) (by decide) (by decide) (by decide) (le_refl 0)
    (by decide) (.inr rfl)).2.2.mpr (by decide)

/-- A request of 33 blocks of 512 bytes does not. -/
theorem blocks_of_512_split_wrong :
    ¬ SplitsRight nvmeSubmitIoChario Kernel.plain
      (nvmeRevalidateDisk 1 9 0 false) 0 16896 0 .write
      (fun byte => userByte Kernel.plain (0 + byte)) := by
  intro splits
  have accepts := nvmeRevalidateDisk_accepts 1 false
    (show 9 = 0 ∨ 9 ≤ 9 ∧ 9 ≤ 16 by decide) (show 0 < 2 ^ 16 by decide)
    (.inl rfl)
  have fits := (userSplit_fits accepts (by decide) (by decide) (le_refl 0)
    (by decide) (.inr rfl) Kernel.plain_granted (by decide)).2 (by
      intro page other inside insideOther same
      have count : pageCount (((16896 - 1) /
          2 ^ (nvmeRevalidateDisk 1 9 0 false).lbaShift + 1) *
          (nvmeRevalidateDisk 1 9 0 false).blockBytes) = 5 := by decide
      rw [count] at inside insideOther
      simp only [Kernel.userPage, Kernel.plain, pageBytes] at same
      omega) splits
  revert fits
  decide

end Chario.Device
