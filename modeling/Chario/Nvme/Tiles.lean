import Chario.Library.Tiling
import Chario.Nvme.Format

namespace Chario.Nvme

open Chario.Library

/-! Requests of 4 KiB blocks on page-aligned buffers: the commands tile the
blocks and the pages. -/

theorem Listed.slots {pages : List Nat} {prp2 : Option Nat} {npages : Int}
    {lists : List PrpBlock} (listed : Listed pages prp2 npages lists) :
    ∀ block ∈ lists, block.entries.length ≤ perPage := by
  cases listed with
  | none => simp
  | one => simp
  | small _ fits _ =>
      intro block member
      rw [List.mem_singleton.mp member]
      exact le_trans fits (by decide)
  | paged _ packed _ _ _ => exact packed.length_blocks

/-- The command with this number takes its window of 32 blocks and moves them
between the medium and the same pages of the buffer. -/
structure Tile (ns : NvmeNs) (io : NvmeUserIo) (frame : Nat → Nat)
    (lists : List PrpBlock) (index : Nat) (command : RwCommand) : Prop where
  few : command.length + 1 ≤ reqMaxBlocks
  length : command.length + 1 =
    windowSize reqMaxBlocks (io.nblocks + 1) index
  slba : command.slba = (io.slba + reqMaxBlocks * index) % 2 ^ 64
  pages : command.transfer ns lists =
    some ((List.range' (reqMaxBlocks * index * pageBytes)
      ((command.length + 1) * pageBytes)).map (bufferAddress frame))

def RwCommand.wideBlocks (command : RwCommand) : List Nat :=
  command.blocks.map (· % 2 ^ 64)

structure Tiles (ns : NvmeNs) (io : NvmeUserIo) (frame : Nat → Nat)
    (issued : Issued) : Prop where
  count : issued.commands.length = io.nblocks / reqMaxBlocks + 1
  tile : ∀ {index : Nat} {command : RwCommand},
    issued.commands[index]? = some command →
      Tile ns io frame issued.lists index command
  blocks : issued.commands.flatMap RwCommand.wideBlocks =
    (List.range' io.slba (io.nblocks + 1)).map (· % 2 ^ 64)
  bytes : issued.commands.flatMap
      (fun command => (command.transfer ns issued.lists).getD []) =
    (List.range' 0 ((io.nblocks + 1) * pageBytes)).map (bufferAddress frame)
  slots : ∀ block ∈ issued.lists, block.entries.length ≤ 512
  written : none ∉ issued.entriesRead

theorem Carries.tile {ns : NvmeNs} {io : NvmeUserIo} {frame : Nat → Nat}
    {lists : List PrpBlock} {round : Nat} {command : RwCommand}
    (carries : Carries (prpMemory lists)
      ((List.range' 0 (io.nblocks + 1)).map frame) io round command)
    (aligned : ∀ page, frame page % pageBytes = 0)
    (paged : ns.blockBytes = pageBytes) :
    Tile ns io frame lists round command := by
  have inside := carries.inside
  have length := carries.length
  refine ⟨?_, ?_, carries.slba, carries.transfer aligned paged⟩
  · unfold reqMaxBlocks
    omega
  · unfold windowSize reqMaxBlocks
    omega

section Windows

variable {ns : NvmeNs} {io : NvmeUserIo} {frame : Nat → Nat} {issued : Issued}
variable (count : issued.commands.length = io.nblocks / reqMaxBlocks + 1)
variable (tile : ∀ {index : Nat} {command : RwCommand},
  issued.commands[index]? = some command →
    Tile ns io frame issued.lists index command)

include count tile

theorem blocks_of_tile :
    issued.commands.flatMap RwCommand.wideBlocks =
      (List.range' io.slba (io.nblocks + 1)).map (· % 2 ^ 64) := by
  apply flatMap_windows reqMaxBlocks
  · rw [count]
    unfold reqMaxBlocks
    omega
  · intro index command found
    have here := tile found
    rw [RwCommand.wideBlocks, RwCommand.blocks, here.slba, here.length]
    -- the wrap of the first block is the wrap of every block
    apply List.ext_getElem (by simp)
    intro position below _
    simp only [List.getElem_map, List.getElem_range']
    omega

theorem bytes_of_tile :
    issued.commands.flatMap
        (fun command => (command.transfer ns issued.lists).getD []) =
      (List.range' 0 ((io.nblocks + 1) * pageBytes)).map
        (bufferAddress frame) := by
  apply flatMap_windows (reqMaxBlocks * pageBytes)
  · rw [count]
    unfold reqMaxBlocks pageBytes
    omega
  · intro index command found
    have here := tile found
    have start : 0 + reqMaxBlocks * pageBytes * index =
        reqMaxBlocks * index * pageBytes := by
      rw [Nat.zero_add, Nat.mul_right_comm]
    have size : windowSize (reqMaxBlocks * pageBytes)
        ((io.nblocks + 1) * pageBytes) index =
        (command.length + 1) * pageBytes := by
      rw [here.length]
      unfold windowSize reqMaxBlocks pageBytes
      omega
    rw [start, size, here.pages]
    rfl

end Windows

theorem tiles_of_listed {ns : NvmeNs} (paged : ns.blockBytes = pageBytes)
    {io : NvmeUserIo} (fits : io.nblocks ≤ 1023) (wide : io.slba < 2 ^ 64)
    {frame : Nat → Nat} (aligned : ∀ page, frame page % pageBytes = 0)
    (inSpace : ∀ page ≤ io.nblocks, frame page < 2 ^ 32)
    {prp2 : Option Nat} {npages : Int} {lists : List PrpBlock}
    (listed : Listed ((List.range' 1 io.nblocks).map frame) prp2 npages lists)
    (metaDma : Nat) :
    Tiles ns io frame ⟨0, io.nblocks,
      (submitSplit ns io metaDma
        ⟨some (frame 0), prp2, npages, lists⟩).2.commands,
      lists,
      (submitSplit ns io metaDma
        ⟨some (frame 0), prp2, npages, lists⟩).2.entriesRead⟩ := by
  have all : frame 0 :: (List.range' 1 io.nblocks).map frame =
      (List.range' 0 (io.nblocks + 1)).map frame := by
    rw [List.range'_succ, List.map_cons]
  have narrow : Narrow (frame 0 :: (List.range' 1 io.nblocks).map frame)
      io.nblocks := by
    refine .of_forall ?_
    rw [all]
    intro address member
    obtain ⟨page, inside, rfl⟩ := List.mem_map.mp member
    rw [List.mem_range'_1] at inside
    exact inSpace page (by omega)
  have carried := @submitSplit_carried ns io metaDma (frame 0) _ _ _ _ listed
    narrow (by simp) fits wide
  rw [all] at carried
  have count := (@submitSplit_length ns io metaDma
    ⟨some (frame 0), prp2, npages, lists⟩).2
  have tile := fun {index : Nat} {command : RwCommand}
    (found : (submitSplit ns io metaDma
      ⟨some (frame 0), prp2, npages, lists⟩).2.commands[index]? =
        some command) =>
    (carried.carries found).tile aligned paged
  exact ⟨count, tile, blocks_of_tile count tile, bytes_of_tile count tile,
    listed.slots, carried.written⟩

/-- What `nvme_submit_io_chario` issues for a user buffer with these lists. -/
def userIssued (kernel : Kernel) (ns : NvmeNs) (io : NvmeUserIo) (metaDma : Nat)
    (prp2 : Option Nat) (npages : Int) (lists : List PrpBlock) : Issued :=
  ⟨0, io.nblocks,
    (submitSplit ns io metaDma ⟨some (kernel.userPage io.addr 0 +
      io.addr % pageBytes), prp2, npages, lists⟩).2.commands, lists,
    (submitSplit ns io metaDma ⟨some (kernel.userPage io.addr 0 +
      io.addr % pageBytes), prp2, npages, lists⟩).2.entriesRead⟩

theorem userIssued_opcode {kernel : Kernel} {ns : NvmeNs} {io : NvmeUserIo}
    (metaDma : Nat) (prp2 : Option Nat) (npages : Int) (lists : List PrpBlock) :
    ∀ command ∈ (userIssued kernel ns io metaDma prp2 npages lists).commands,
      command.opcode = io.opcode :=
  submitSplit_opcode _

section Requests

variable {kernel : Kernel} {ns : NvmeNs} {io : NvmeUserIo}
variable (blocks : ns.lbaShift = 12) (plain : ns.ext = false)

include blocks plain

theorem blockBytes_paged : ns.blockBytes = pageBytes := by
  simp [NvmeNs.blockBytes, blocks, plain, pageBytes]

variable (fits : io.nblocks ≤ 1023)

include fits

theorem transferLen_paged :
    transferLen ns io = (io.nblocks + 1) * pageBytes := by
  rw [transferLen, if_neg (by simp [plain]), dataLen, blocks]
  unfold pageBytes
  omega

variable (admitted : Admitted kernel ns io)

include admitted

theorem exists_userIssued (sound : kernel.Sound)
    (maps : kernel.Maps io.addr ((io.nblocks + 1) * pageBytes))
    (word : io.addr % 4 = 0)
    (enough : kernel.pools.Enough (pageCount ((io.nblocks + 1) * pageBytes -
      headBytes io.addr ((io.nblocks + 1) * pageBytes)))) :
    ∃ prp2 npages lists metaDma,
      nvmeSubmitIoChario pageBytes kernel ns io =
        .ok (userIssued kernel ns io metaDma prp2 npages lists) ∧
      Listed ((List.range' 1 (pageCount ((io.nblocks + 1) * pageBytes -
        headBytes io.addr ((io.nblocks + 1) * pageBytes)))).map
          (kernel.userPage io.addr)) prp2 npages lists := by
  have positive : 0 < (io.nblocks + 1) * pageBytes := by
    unfold pageBytes
    omega
  have bounded : (io.nblocks + 1) * pageBytes ≤ intMax - pageBytes := by
    unfold intMax pageBytes
    omega
  obtain ⟨prp2, npages, lists, ran, listed⟩ :=
    setupUser_listed positive bounded sound maps word enough
  rw [← transferLen_paged blocks plain fits] at ran
  obtain ⟨metaDma, -, issues⟩ := admitted.submitIo_eq ran
  exact ⟨prp2, npages, lists, metaDma, issues, listed⟩

variable (wide : io.slba < 2 ^ 64) (aligned : io.addr % pageBytes = 0)
variable (enough : kernel.pools.Enough io.nblocks)

include wide aligned enough

/-- The buffer is `nblocks + 1` pages, arbitrary ones for a user buffer and
consecutive ones, all with 32-bit addresses, for a physical buffer. -/
theorem page_aligned_split_exact :
    (kernel.Sound → kernel.Maps io.addr ((io.nblocks + 1) * pageBytes) →
      ∃ issued, nvmeSubmitIoChario pageBytes kernel ns io = .ok issued ∧
        Tiles ns io (kernel.userPage io.addr) issued) ∧
    (kernel.kmalloc (nvmeNpages pageBytes ((io.nblocks + 1) * pageBytes)) =
        true → io.addr + io.nblocks * pageBytes < 2 ^ 32 →
      ∃ issued, nvmeSubmitIoCharioPhys pageBytes kernel ns io = .ok issued ∧
        Tiles ns io (fun page => io.addr + page * pageBytes) issued) := by
  have paged := blockBytes_paged blocks plain
  have pages : pageCount ((io.nblocks + 1) * pageBytes) = io.nblocks + 1 := by
    unfold pageCount pageBytes
    omega
  refine ⟨?_, ?_⟩
  · intro sound maps
    have word : io.addr % 4 = 0 := by
      unfold pageBytes at aligned
      omega
    obtain ⟨prp2, npages, lists, metaDma, issues, listed⟩ :=
      exists_userIssued blocks plain fits admitted sound maps word
        (by rw [pageCount_rest aligned pages]; exact enough)
    rw [pageCount_rest aligned pages] at listed
    rw [userIssued, aligned, Nat.add_zero] at issues
    exact ⟨_, issues, tiles_of_listed paged fits wide
      (fun page => sound.aligned _) (fun page _ => kernel.inSpace _) listed
      metaDma⟩
  · intro kmalloc inSpace
    have below : ∀ page ≤ io.nblocks, io.addr + page * pageBytes < 2 ^ 32 := by
      intro page inside
      exact lt_of_le_of_lt
        (Nat.add_le_add_left (Nat.mul_le_mul_right _ inside) _) inSpace
    have starts : ∀ page, (io.addr + page * pageBytes) % pageBytes = 0 := by
      intro page
      rw [Nat.add_mul_mod_self_right]
      exact aligned
    obtain ⟨prp2, npages, lists, ran, listed⟩ := setupPhys_listed
      (by unfold pageBytes; omega) (by unfold intMax pageBytes; omega) aligned
      pages kmalloc enough
    have narrow : io.addr % 2 ^ 32 = io.addr := Nat.mod_eq_of_lt (by omega)
    have listedAs : (List.range' 1 io.nblocks).map (physFrame io.addr) =
        (List.range' 1 io.nblocks).map
          (fun page => io.addr + page * pageBytes) := by
      apply List.map_congr_left
      intro page member
      rw [List.mem_range'_1] at member
      have second : io.nblocks = 0 ∨ io.addr + pageBytes < 2 ^ 32 := by
        unfold pageBytes at *
        omega
      exact physFrame_of_le second page (by omega)
    rw [narrow] at ran listed
    rw [listedAs] at listed
    rw [← transferLen_paged blocks plain fits] at ran
    obtain ⟨metaDma, -, issues⟩ := admitted.submitIo_eq ran
    have tiles := @tiles_of_listed ns paged io fits wide
      (fun page => io.addr + page * pageBytes) starts below _ _ _ listed metaDma
    rw [Nat.zero_mul, Nat.add_zero] at tiles
    exact ⟨_, issues, tiles⟩

end Requests

def wholeRead (addr nblocks : Nat) : NvmeUserIo where
  opcode := .read
  flags := 0
  control := 0
  nblocks := nblocks
  metadata := 0
  addr := addr
  slba := 2 ^ 64 - 100
  dsmgmt := 0
  reftag := 0
  apptag := 0
  appmask := 0

theorem Admitted.plain_wholeRead (addr nblocks : Nat) :
    Admitted Kernel.plain (nvmeRevalidateDisk 1 12 0 false)
      (wholeRead addr nblocks) := by
  refine ⟨.inr (.inl rfl), ?_⟩
  intro some
  exact absurd (by rw [metaLen]; rfl) some

theorem page_aligned_split_exact_whole :
    (∃ issued, nvmeSubmitIoChario pageBytes Kernel.plain
        (nvmeRevalidateDisk 1 12 0 false) (wholeRead 8192 1023) = .ok issued ∧
      Tiles (nvmeRevalidateDisk 1 12 0 false) (wholeRead 8192 1023)
        (Kernel.plain.userPage 8192) issued) ∧
    (∃ issued, nvmeSubmitIoCharioPhys pageBytes Kernel.plain
        (nvmeRevalidateDisk 1 12 0 false) (wholeRead 8192 1023) = .ok issued ∧
      Tiles (nvmeRevalidateDisk 1 12 0 false) (wholeRead 8192 1023)
        (fun page => 8192 + page * pageBytes) issued) := by
  have both := @page_aligned_split_exact Kernel.plain
    (nvmeRevalidateDisk 1 12 0 false) (wholeRead 8192 1023) rfl rfl (by decide)
    (Admitted.plain_wholeRead _ _) (by decide) (by decide)
    (Kernel.plain_granted.pools.enough _)
  exact ⟨both.1 Kernel.plain_granted.sound (Kernel.plain_granted.mapsUser _ _),
    both.2 rfl (by decide)⟩

end Chario.Nvme
