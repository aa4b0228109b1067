import Chario.Nvme.Tiles

namespace Chario.Nvme

open Chario.Library

/-! User buffers at any word address.  The lists describe such a buffer, but the
second command of a request starts at an entry of the list, which is the start
of a page. -/

/-- Every block of the request is moved to or from its own bytes of the buffer,
and no other memory is. -/
structure SplitExact (ns : NvmeNs) (io : NvmeUserIo) (buffer : Nat → Nat)
    (issued : Issued) : Prop where
  blocks : issued.commands.flatMap RwCommand.wideBlocks =
    (List.range' io.slba (io.nblocks + 1)).map (· % 2 ^ 64)
  data : ∀ command ∈ issued.commands, ∃ start,
    start + command.length ≤ io.nblocks ∧
    command.slba = (io.slba + start) % 2 ^ 64 ∧
    command.transfer ns issued.lists =
      some ((List.range' (start * ns.blockBytes)
        ((command.length + 1) * ns.blockBytes)).map buffer)

def Kernel.bufferByte (kernel : Kernel) (addr byte : Nat) : Nat :=
  bufferAddress kernel.frames (addr + byte)

theorem Kernel.bufferByte_zero (kernel : Kernel) (addr : Nat) :
    kernel.bufferByte addr 0 = kernel.userPage addr 0 + addr % pageBytes := rfl

theorem Kernel.bufferByte_aligned (kernel : Kernel) {addr : Nat}
    (aligned : addr % pageBytes = 0) (byte : Nat) :
    bufferAddress (kernel.userPage addr) byte =
      kernel.bufferByte addr byte := by
  have page : addr / pageBytes + byte / pageBytes =
      (addr + byte) / pageBytes := by
    unfold pageBytes at *
    omega
  have offset : byte % pageBytes = (addr + byte) % pageBytes := by
    unfold pageBytes at *
    omega
  rw [bufferAddress, Kernel.userPage, Kernel.bufferByte, bufferAddress, page,
    offset]

theorem Kernel.Sound.bufferByte_mod {kernel : Kernel} (sound : kernel.Sound)
    (addr byte : Nat) :
    kernel.bufferByte addr byte % pageBytes = (addr + byte) % pageBytes := by
  have page := sound.aligned ((addr + byte) / pageBytes)
  have below := Nat.mod_lt (addr + byte) (show 0 < pageBytes by decide)
  rw [Kernel.bufferByte, bufferAddress, Nat.add_mod, page, Nat.zero_add,
    Nat.mod_mod, Nat.mod_eq_of_lt below]

theorem Kernel.Sound.userSpans {kernel : Kernel} (sound : kernel.Sound)
    (addr length : Nat) :
    span (kernel.bufferByte addr 0)
        (headBytes (kernel.bufferByte addr 0) length) ++
      pageSpans
        ((List.range' 1 (pageCount (length - headBytes addr length))).map
        (kernel.userPage addr))
        (length - headBytes (kernel.bufferByte addr 0) length) =
      (List.range' 0 length).map (kernel.bufferByte addr) := by
  have offset := sound.bufferByte_mod addr 0
  rw [Nat.add_zero] at offset
  have head : headBytes (kernel.bufferByte addr 0) length =
      headBytes addr length := by
    rw [headBytes, headBytes, offset]
  have shifted :
      (List.range' 1 (pageCount (length - headBytes addr length))).map
      (kernel.userPage addr) =
      (List.range' (addr / pageBytes + 1)
        (pageCount (length - headBytes addr length))).map kernel.frames := by
    rw [← List.map_add_range', List.map_map]
    rfl
  have bytes : (List.range' 0 length).map (kernel.bufferByte addr) =
      (List.range' addr length).map (bufferAddress kernel.frames) := by
    rw [← Nat.add_zero addr, ← List.map_add_range', List.map_map]
    rfl
  rw [head, shifted, bytes, ← span_pageSpans_frames]
  rfl

theorem Listed.userTransfer {kernel : Kernel} (sound : kernel.Sound)
    {addr length : Nat} {prp2 : Option Nat} {npages : Int}
    {lists : List PrpBlock}
    (listed : Listed
      ((List.range' 1 (pageCount (length - headBytes addr length))).map
        (kernel.userPage addr)) prp2 npages lists) :
    prpAddresses (prpMemory lists)
        (some (kernel.userPage addr 0 + addr % pageBytes)) prp2 length =
      some ((List.range' 0 length).map (kernel.bufferByte addr)) := by
  have offset := sound.bufferByte_mod addr 0
  rw [Nat.add_zero] at offset
  have head : headBytes (kernel.bufferByte addr 0) length =
      headBytes addr length := by
    rw [headBytes, headBytes, offset]
  have decoded := @prpAddresses_from (prpMemory lists)
    (kernel.bufferByte addr 0) length prp2 _ (by
      rw [head]
      simp) listed.points
  rw [← Kernel.bufferByte_zero, decoded, sound.userSpans]

theorem Listed.userPrefix {kernel : Kernel} (sound : kernel.Sound)
    {addr length : Nat} {prp2 : Option Nat} {npages : Int}
    {lists : List PrpBlock}
    (listed : Listed
      ((List.range' 1 (pageCount (length - headBytes addr length))).map
        (kernel.userPage addr)) prp2 npages lists)
    {part : Nat} (shorter : part ≤ length) {addresses : List Nat}
    (decoded : prpAddresses (prpMemory lists)
      (some (kernel.userPage addr 0 + addr % pageBytes)) prp2 part =
        some addresses)
    {index : Nat} (room : index + pageBytes < part) :
    addresses[index]? = some (kernel.bufferByte addr index) := by
  have offset := sound.bufferByte_mod addr 0
  rw [Nat.add_zero] at offset
  have head : headBytes (kernel.bufferByte addr 0) part =
      headBytes addr part := by
    rw [headBytes, headBytes, offset]
  have enough : pageCount (part - headBytes addr part) ≤
      pageCount (length - headBytes addr length) := by
    unfold pageCount headBytes pageBytes
    omega
  have counted : pageCount (part - headBytes addr part) ≤
      ((List.range' 1 (pageCount (length - headBytes addr length))).map
        (kernel.userPage addr)).length := by
    rw [List.length_map, List.length_range']
    exact enough
  have agrees := @prpAddresses_agrees (prpMemory lists)
    (kernel.bufferByte addr 0) part prp2 _ addresses listed.points
    (by rw [head]; exact counted) decoded index room
  have spans := sound.userSpans addr part
  rw [head] at spans agrees
  rw [agrees, pageSpans_take counted, ← List.map_take,
    List.take_range'_of_length_ge enough, spans, List.getElem?_map,
    List.getElem?_range' (by omega)]
  simp

section Request

variable {kernel : Kernel} {ns : NvmeNs} {io : NvmeUserIo} {metaDma : Nat}
variable {prp2 : Option Nat} {npages : Int} {lists : List PrpBlock}
variable (paged : ns.blockBytes = pageBytes) (sound : kernel.Sound)
variable (listed : Listed
  ((List.range' 1 (pageCount ((io.nblocks + 1) * pageBytes -
    headBytes io.addr ((io.nblocks + 1) * pageBytes)))).map
      (kernel.userPage io.addr)) prp2 npages lists)

include paged sound listed

theorem splitExact_short (wide : io.slba < 2 ^ 64) (short : io.nblocks ≤ 31) :
    SplitExact ns io (kernel.bufferByte io.addr)
      (userIssued kernel ns io metaDma prp2 npages lists) := by
  have only := @submitSplit_short ns io metaDma
    (kernel.userPage io.addr 0 + io.addr % pageBytes) prp2 npages lists
    (Nat.lt_succ_of_le short)
  have whole := listed.userTransfer sound
  refine ⟨?_, ?_⟩
  · rw [userIssued, only]
    simp only [List.flatMap_cons, List.flatMap_nil, List.append_nil]
    rfl
  · intro command member
    simp only [userIssued, only, List.mem_singleton] at member
    rw [member]
    refine ⟨0, by simp [rwCommand], (Nat.mod_eq_of_lt wide).symm, ?_⟩
    rw [RwCommand.transfer, paged, Nat.zero_mul]
    exact whole

theorem not_splitExact_long (offset : io.addr % pageBytes ≠ 0)
    (long : 32 ≤ io.nblocks) :
    ¬ SplitExact ns io (kernel.bufferByte io.addr)
      (userIssued kernel ns io metaDma prp2 npages lists) := by
  intro exactly
  obtain ⟨command, member, -, atEntry⟩ := @submitSplit_second ns io metaDma
    ⟨some (kernel.userPage io.addr 0 + io.addr % pageBytes), prp2,
      npages, lists⟩
    long
  obtain ⟨start, -, -, moved⟩ := exactly.data command member
  have size : 0 < (command.length + 1) * ns.blockBytes := by
    rw [paged]
    unfold pageBytes
    omega
  have starts := head_of_prpAddresses size moved
  obtain ⟨count, isCount⟩ := Nat.exists_eq_succ_of_ne_zero (Nat.ne_of_gt size)
  rw [isCount, List.range'_succ, List.map_cons, List.head?_cons,
    atEntry] at starts
  rcases listed.entry_31 with none | here
  · rw [none] at starts
    cases starts
  · -- the entry is the start of a page, the block starts inside one
    rw [here, List.getElem?_map] at starts
    obtain ⟨entry, found, isEntry⟩ := Option.map_eq_some_iff.mp starts.symm
    obtain ⟨page, -, rfl⟩ := Option.map_eq_some_iff.mp found
    have isPage : kernel.userPage io.addr page =
        kernel.bufferByte io.addr (start * ns.blockBytes) := by
      rw [← isEntry]
      exact (Nat.mod_eq_of_lt (kernel.inSpace _)).symm
    have whole := sound.aligned (io.addr / pageBytes + page)
    have inside := sound.bufferByte_mod io.addr (start * ns.blockBytes)
    rw [← isPage, Kernel.userPage, whole, paged, Nat.add_mul_mod_self_right]
      at inside
    exact offset inside.symm

end Request

/-- On blocks of 4096 bytes, a user buffer that is not page-aligned is split
right in the requests of one command and in no others. -/
theorem unaligned_split_exact_iff {kernel : Kernel} (sound : kernel.Sound)
    {ns : NvmeNs} (blocks : ns.lbaShift = 12) (plain : ns.ext = false)
    {io : NvmeUserIo} (fits : io.nblocks ≤ 1023) (wide : io.slba < 2 ^ 64)
    (word : io.addr % 4 = 0) (offset : io.addr % pageBytes ≠ 0)
    (admitted : Admitted kernel ns io)
    (maps : kernel.Maps io.addr ((io.nblocks + 1) * pageBytes))
    (enough : kernel.pools.Enough (io.nblocks + 1)) :
    ∃ issued, nvmeSubmitIoChario pageBytes kernel ns io = .ok issued ∧
      (SplitExact ns io (kernel.bufferByte io.addr) issued ↔
        io.nblocks ≤ 31) := by
  have paged := blockBytes_paged blocks plain
  have below := Nat.mod_lt io.addr (show 0 < pageBytes by decide)
  have pages : pageCount ((io.nblocks + 1) * pageBytes -
      headBytes io.addr ((io.nblocks + 1) * pageBytes)) = io.nblocks + 1 := by
    unfold pageCount headBytes pageBytes at *
    omega
  obtain ⟨prp2, npages, lists, metaDma, issues, listed⟩ :=
    exists_userIssued blocks plain fits admitted sound maps word
      (by rw [pages]; exact enough)
  refine ⟨_, issues, ?_, splitExact_short paged sound listed wide⟩
  intro exactly
  by_contra long
  exact not_splitExact_long paged sound listed offset (by omega) exactly

theorem unaligned_split_exact_32 :
    ∃ issued, nvmeSubmitIoChario pageBytes Kernel.plain
        (nvmeRevalidateDisk 1 12 0 false) (wholeRead 4 31) = .ok issued ∧
      (SplitExact (nvmeRevalidateDisk 1 12 0 false) (wholeRead 4 31)
        (Kernel.plain.bufferByte 4) issued ↔ 31 ≤ 31) :=
  unaligned_split_exact_iff Kernel.plain_granted.sound rfl rfl (by decide)
    (by decide) (by decide) (by decide) (Admitted.plain_wholeRead _ _)
    (Kernel.plain_granted.mapsUser _ _) (Kernel.plain_granted.pools.enough _)

/-- A read of 33 blocks into a buffer that starts 4 bytes into a page. -/
theorem unaligned_split_wrong_33 :
    ∃ issued, nvmeSubmitIoChario pageBytes Kernel.plain
        (nvmeRevalidateDisk 1 12 0 false) (wholeRead 4 32) = .ok issued ∧
      ¬ SplitExact (nvmeRevalidateDisk 1 12 0 false) (wholeRead 4 32)
        (Kernel.plain.bufferByte 4) issued := by
  have sound := Kernel.plain_granted.sound
  obtain ⟨prp2, npages, lists, metaDma, issues, listed⟩ :=
    @exists_userIssued Kernel.plain (nvmeRevalidateDisk 1 12 0 false)
      (wholeRead 4 32) rfl rfl (by decide) (Admitted.plain_wholeRead _ _) sound
      (Kernel.plain_granted.mapsUser _ _) (by decide)
      (Kernel.plain_granted.pools.enough _)
  exact ⟨_, issues, not_splitExact_long (blockBytes_paged rfl rfl) sound listed
    (by decide) (by decide)⟩

end Chario.Nvme
