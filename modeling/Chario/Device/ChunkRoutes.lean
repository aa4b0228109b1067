import Chario.Device.Chunks
import Chario.Device.Moves
import Chario.Device.Status
import Chario.Nvme.Routes

namespace Chario.Device

open Chario.Library
open Chario.Nvme

/-! What a chunk of any position and length does on any buffer, under any
format: the request is refused, or memory and medium are joined along the routes
of its commands. -/

/-- The bytes that the request for a chunk transfers: whole blocks, with their
metadata in an extended format. -/
def chunkBytes (ns : NvmeNs) (len : Nat) : Nat :=
  ((len - 1) / 2 ^ ns.lbaShift + 1) * ns.blockBytes

structure Formatted (ns : NvmeNs) : Prop where
  shift : 9 ≤ ns.lbaShift ∧ ns.lbaShift ≤ 16
  metadata : ns.ms < 2 ^ 16
  extended : ns.ext = true → ns.ms ≠ 0

theorem nvmeRevalidateDisk_formatted (nsId : Nat) {ds ms : Nat}
    (metaExt : Bool) (shift : ds = 0 ∨ 9 ≤ ds ∧ ds ≤ 16)
    (width : ms < 2 ^ 16) :
    Formatted (nvmeRevalidateDisk nsId ds ms metaExt) := by
  refine ⟨?_, width, ?_⟩
  · simp only [nvmeRevalidateDisk]
    split <;> omega
  · simp only [nvmeRevalidateDisk, Bool.and_eq_true, decide_eq_true_eq]
    exact fun both => both.1

structure ChunkServed (kernel : Kernel) (ns : NvmeNs) (addr len : Nat) :
    Prop where
  inline : ns.ms ≠ 0 → ns.ext = true
  maps : kernel.Maps addr (chunkBytes ns len)
  enough : kernel.pools.Enough
    (pageCount (chunkBytes ns len - headBytes addr (chunkBytes ns len)))

structure ChunkRoutes (ns : NvmeNs) (frames : Nat → Nat)
    (addr slba nblocks : Nat) (routes : Nat → Nat → Prop) : Prop where
  block : ∀ {address medium}, routes address medium →
    slba ≤ medium / ns.blockBytes ∧ medium / ns.blockBytes ≤ slba + nblocks
  whole : ∀ {address medium other}, routes address medium →
    other / ns.blockBytes = medium / ns.blockBytes →
    ∃ place, routes place other
  first : ∀ {address index},
    routes address (slba * ns.blockBytes + index) →
    index < (nblocks + 1) * ns.blockBytes →
    nblocks ≤ 31 ∨ index + pageBytes < 32 * ns.blockBytes →
    address = bufferAddress frames (addr + index)
  second : ∀ {address}, 32 ≤ nblocks →
    routes address ((slba + 32) * ns.blockBytes) →
    address = frames (addr / pageBytes + 32) ∧
      32 ≤ pageCount ((nblocks + 1) * ns.blockBytes -
        headBytes addr ((nblocks + 1) * ns.blockBytes))
  single : nblocks ≤ 31 → ∀ {index}, index < (nblocks + 1) * ns.blockBytes →
    routes (bufferAddress frames (addr + index)) (slba * ns.blockBytes + index)
  paged : ns.blockBytes = pageBytes → addr % pageBytes = 0 → nblocks ≤ 1023 →
    ∀ {index}, index < (nblocks + 1) * ns.blockBytes →
    routes (bufferAddress frames (addr + index)) (slba * ns.blockBytes + index)

section Request

variable {kernel : Kernel} {ns : NvmeNs} {addr len pos : Nat}
variable {command : NvmeOpcode} (formatted : Formatted ns)
variable (positive : 0 < len) (fits : len ≤ maxBytes) (word : addr % 4 = 0)
variable (sound : kernel.Sound)

theorem Formatted.accepts {ns : NvmeNs} (formatted : Formatted ns)
    (inline : ns.ms ≠ 0 → ns.ext = true) : ns.Accepts :=
  ⟨formatted.shift, formatted.metadata, inline, formatted.extended⟩

include formatted positive fits

theorem chunkBytes_eq (offset : Int) :
    ((charioUio ns addr len offset command).nblocks + 1) * ns.blockBytes =
      chunkBytes ns len := by
  rw [charioUio_nblocks formatted.shift.1 positive fits, chunkBytes]

theorem chunk_transferLen (inline : ns.ms ≠ 0 → ns.ext = true) (offset : Int) :
    transferLen ns (charioUio ns addr len offset command) =
      chunkBytes ns len := by
  have accepts := formatted.accepts inline
  have bounded := transfer_bounded accepts positive fits
  have total :=
    @chunkBytes_eq ns addr len command formatted positive fits offset
  rw [transferLen_eq accepts (by
    rw [total, chunkBytes]
    exact lt_of_le_of_lt bounded (by decide)), total]

theorem separate_refused (separate : ns.ms ≠ 0 ∧ ns.ext = false)
    (offset : Int) :
    nvmeSubmitIoChario pageBytes kernel ns
      (charioUio ns addr len offset command) = .error (.status (-einval)) := by
  have blocks := blocks_lt formatted.shift.1 positive fits
  have width := formatted.metadata
  have some : metaLen ns (charioUio ns addr len offset command) ≠ 0 := by
    rw [metaLen, charioUio_nblocks formatted.shift.1 positive fits]
    have product : ((len - 1) / 2 ^ ns.lbaShift + 1) * ns.ms <
        2 ^ 13 * 2 ^ 16 :=
      Nat.mul_lt_mul_of_le_of_lt blocks width (by decide)
    rw [Nat.mod_eq_of_lt (lt_of_lt_of_le product (by decide))]
    exact Nat.mul_ne_zero (Nat.succ_ne_zero _) separate.1
  rw [nvmeSubmitIoChario, submitIo, if_pos ⟨some, .inr rfl, separate.2⟩]

include word

theorem unmapped_refused (unmapped : ¬ kernel.Maps addr (chunkBytes ns len))
    (inline : ns.ms ≠ 0 → ns.ext = true) :
    ∃ value < 0, setupUser pageBytes kernel addr (chunkBytes ns len) =
      .error (.status value) := by
  suffices refused : ∃ value < 0,
      nvmeMapUserPages pageBytes kernel addr (chunkBytes ns len) =
        .error (.status value) by
    obtain ⟨value, negative, isError⟩ := refused
    exact ⟨value, negative, by rw [setupUser, isError]⟩
  have bounded := transfer_bounded (formatted.accepts inline) positive fits
  have some : chunkBytes ns len ≠ 0 := by
    have block := (formatted.accepts inline).blockBytes_bounds.1
    exact Nat.mul_ne_zero (Nat.succ_ne_zero _) (by omega)
  rw [← chunkBytes] at bounded
  rw [nvmeMapUserPages, if_neg (not_not.mpr word), if_neg (by omega)]
  split
  next => exact ⟨-enomem, by decide, rfl⟩
  next kcalloc =>
    split
    next => exact ⟨-efault, by decide, rfl⟩
    next pins =>
      split
      next => exact ⟨-enomem, by decide, rfl⟩
      next kmalloc =>
        split
        next => exact ⟨-enomem, by decide, rfl⟩
        next sg isMapped =>
          refine absurd ⟨?_, not_lt.mp pins, ?_, ?_⟩ unmapped
          · simpa using kcalloc
          · simpa using kmalloc
          · rw [Kernel.userTable, isMapped]
            simp

omit positive fits word in
theorem chunk_admitted (inline : ns.ms ≠ 0 → ns.ext = true)
    (rw : command = .read ∨ command = .write) (offset : Int) :
    Admitted kernel ns (charioUio ns addr len offset command) := by
  refine ⟨?_, ?_⟩
  · cases rw with
    | inl isRead => exact .inr (.inl isRead)
    | inr isWrite => exact .inl isWrite
  · intro some separate
    exact absurd ((formatted.accepts inline).metaLen_eq separate _) some

include sound

/-- A chunk that is not served ends with an errno. -/
theorem chunk_refused (rw : command = .read ∨ command = .write)
    (unserved : ¬ ChunkServed kernel ns addr len) (offset : Int) :
    ∃ value < 0, nvmeSubmitIoChario pageBytes kernel ns
      (charioUio ns addr len offset command) = .error (.status value) := by
  by_cases inline : ns.ms ≠ 0 → ns.ext = true
  · have accepts := formatted.accepts inline
    have total := @chunk_transferLen ns addr len command formatted positive fits
      inline offset
    have admitted :=
      @chunk_admitted kernel ns addr len command formatted inline rw
      offset
    by_cases maps : kernel.Maps addr (chunkBytes ns len)
    · have some : 0 < chunkBytes ns len := by
        have block := accepts.blockBytes_bounds.1
        exact Nat.mul_pos (Nat.succ_pos _) (by omega)
      have bounded := transfer_bounded accepts positive fits
      rw [← chunkBytes] at bounded
      obtain ⟨ret, prp2, npages, lists, ran, ended⟩ :=
        setupUser_ends some bounded sound maps word
      have short : ret ≠ chunkBytes ns len := by
        intro whole
        refine unserved ⟨inline, maps, ?_⟩
        have enough := ended.ret_eq_iff.mp whole
        rwa [List.length_map, List.length_range'] at enough
      rw [← total] at ran short
      exact ⟨-enomem, by decide, admitted.submitIo_short ran short.symm⟩
    · obtain ⟨value, negative, unmapped⟩ :=
        unmapped_refused formatted positive fits word maps inline
      rw [← total] at unmapped
      exact ⟨value, negative, admitted.submitIo_error unmapped⟩
  · obtain ⟨some, separate⟩ := Classical.not_imp.mp inline
    refine ⟨-einval, by decide, separate_refused formatted positive fits
      ⟨some, ?_⟩ offset⟩
    exact Bool.eq_false_of_not_eq_true separate

theorem chunk_issued (rw : command = .read ∨ command = .write)
    (served : ChunkServed kernel ns addr len) (offset : Int) :
    ∃ metaDma prp2 npages lists,
      nvmeSubmitIoChario pageBytes kernel ns
          (charioUio ns addr len offset command) =
        .ok (userIssued kernel ns (charioUio ns addr len offset command) metaDma
          prp2 npages lists) ∧
      Listed ((List.range' 1 (pageCount (chunkBytes ns len -
        headBytes addr (chunkBytes ns len)))).map (kernel.userPage addr))
        prp2 npages lists := by
  have accepts := formatted.accepts served.inline
  have some : 0 < chunkBytes ns len := by
    have block := accepts.blockBytes_bounds.1
    exact Nat.mul_pos (Nat.succ_pos _) (by omega)
  have bounded := transfer_bounded accepts positive fits
  rw [← chunkBytes] at bounded
  obtain ⟨prp2, npages, lists, ran, listed⟩ :=
    setupUser_listed some bounded sound served.maps word served.enough
  rw [← @chunk_transferLen ns addr len command formatted positive fits
    served.inline offset] at ran
  obtain ⟨metaDma, -, issues⟩ := (@chunk_admitted kernel ns addr len command
    formatted served.inline rw offset).submitIo_eq ran
  exact ⟨metaDma, prp2, npages, lists, issues, listed⟩

omit word in
theorem chunk_routes (inFile : pos < 2 ^ 63)
    (served : ChunkServed kernel ns addr len) {metaDma : Nat}
    {prp2 : Option Nat} {npages : Int} {lists : List PrpBlock}
    (listed : Listed ((List.range' 1 (pageCount (chunkBytes ns len -
      headBytes addr (chunkBytes ns len)))).map (kernel.userPage addr))
      prp2 npages lists) :
    ChunkRoutes ns kernel.frames addr (pos / 2 ^ ns.lbaShift)
      ((len - 1) / 2 ^ ns.lbaShift)
      ((userIssued kernel ns (charioUio ns addr len pos command) metaDma prp2
        npages lists).Routes ns) := by
  have accepts := formatted.accepts served.inline
  have block : 0 < ns.blockBytes := by
    have bound := accepts.blockBytes_bounds.1
    omega
  have noWrap := @charioUio_noWrap ns accepts addr len positive fits pos
    (Int.natCast_nonneg pos) (by exact_mod_cast inFile) command
  have total := @chunkBytes_eq ns addr len command formatted positive fits pos
  rw [← total] at listed
  rw [← charioUio_slba ns inFile addr len command,
    ← @charioUio_nblocks ns formatted.shift.1 addr len positive fits
      pos command]
  exact ⟨userRoutes_block block noWrap, Issued.Routes.whole block,
    userRoutes_first block noWrap listed sound,
    userRoutes_second block noWrap listed,
    userRoutes_single listed sound, userRoutes_paged noWrap listed sound⟩

end Request

end Chario.Device
