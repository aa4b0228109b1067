import Chario.Device.Chunks

namespace Chario.Device

open Chario.Library
open Chario.Nvme

/-! `submit_phys_io` with its separate reads of the user's `struct
chario_phys_io`. -/

structure PhysIoReads.Typed (reads : PhysIoReads) : Prop where
  length : reads.length < 2 ^ 32
  address : reads.address < 2 ^ 64
  posLength : reads.posLength < 2 ^ 32
  retLength : reads.retLength < 2 ^ 32

theorem submitPhysIo_reads {σ : Type}
    (execute : List PrpBlock → RwCommand → σ → Nat × σ) (pageSize : Nat)
    (ns : NvmeNs) (services : Nat → Service) (io ioAtEnd : CharioPhysIo)
    (command : NvmeOpcode) (fPos : Int) (s : σ) :
    submitPhysIo execute pageSize ns services io ioAtEnd command fPos s =
      submitPhysIoReads (fun chunk address len off =>
        submitPhysChunk execute pageSize ns (services chunk) address len off
          command) ⟨io.length, io.address, ioAtEnd.length, ioAtEnd.length⟩
        fPos s := rfl

theorem submitPhysChunk_requestChunk {σ : Type}
    (execute : List PrpBlock → RwCommand → σ → Nat × σ) (pageSize : Nat)
    (ns : NvmeNs) (services : Nat → Service) (command : NvmeOpcode)
    (chunk address len : Nat) (off : Int) (s : σ) :
    submitPhysChunk execute pageSize ns (services chunk) address len off command
        s =
      requestChunk (fun chunk request =>
        serve execute (services chunk).order (nvmeSubmitIoCharioPhys pageSize
          (services chunk).kernel ns request.uio)) ns command chunk address len
        off s := rfl

def maxErrno : Int := 4095

def ChunkRequest.physBytes (request : ChunkRequest) : List Nat :=
  List.range' request.address request.len

/-- The call returns the number of bytes that its chunks cover from the address
and the position on, without a wrap, and has moved the position by it; or it
returns an error and has not moved it. -/
inductive ReportsExactly (address : Nat) (fPos : Int) :
    FileOutcome (List ChunkRequest) → Prop
  | bytes {out : FileOutcome (List ChunkRequest)} {count : Nat}
      (result : out.result = .ok (count : Int))
      (memory : out.state.flatMap ChunkRequest.physBytes =
        List.range' address count)
      (noWrap : ∀ byte ∈ out.state.flatMap ChunkRequest.physBytes,
        byte < 2 ^ 32)
      (file : out.state.flatMap ChunkRequest.fileBytes =
        (List.range' 0 count).map (fun byte : Nat => fPos + byte))
      (moved : out.fPos = fPos + count) (nonneg : 0 ≤ out.fPos) :
      ReportsExactly address fPos out
  | error {out : FileOutcome (List ChunkRequest)} {value : Int}
      (result : out.result = .ok value) (negative : value < 0)
      (errno : -maxErrno ≤ value) (stays : out.fPos = fPos) :
      ReportsExactly address fPos out

/-- One request length in all three reads, which fits the return type, the bus
addresses and the file positions. -/
def PhysIoReads.Fits (reads : PhysIoReads) (fPos : Int) : Prop :=
  reads.posLength = reads.length ∧ reads.retLength = reads.length ∧
    reads.length < 2 ^ 31 ∧ fPos + reads.length < 2 ^ 63 ∧
    (reads.length = 0 ∨ reads.address + reads.length ≤ 2 ^ 32)

instance (reads : PhysIoReads) (fPos : Int) : Decidable (reads.Fits fPos) :=
  inferInstanceAs (Decidable (_ ∧ _))

/-- A length that reads as 0 for the position and as an error number for the
return value. -/
def PhysIoReads.LooksFailed (reads : PhysIoReads) : Prop :=
  reads.posLength = 0 ∧ 2 ^ 32 - 4095 ≤ reads.retLength

instance (reads : PhysIoReads) : Decidable reads.LooksFailed :=
  inferInstanceAs (Decidable (_ ∧ _))

section Success

variable {ns : NvmeNs} {command : NvmeOpcode} {reads : PhysIoReads} {fPos : Int}

def allChunks (ns : NvmeNs) (command : NvmeOpcode) (reads : PhysIoReads)
    (fPos : Int) : List ChunkRequest :=
  (List.range (chunkCount reads.length)).map
    (chunkAt ns command (reads.address % 2 ^ 32) reads.length fPos)

theorem coveredBytes_all (count : Nat) :
    coveredBytes count (chunkCount count) = count := by
  unfold coveredBytes chunkCount maxBytes
  omega

theorem allChunks_length :
    ((allChunks ns command reads fPos).flatMap ChunkRequest.physBytes).length =
      reads.length := by
  have same : ∀ requests : List ChunkRequest,
      (requests.flatMap ChunkRequest.physBytes).length =
        (requests.flatMap ChunkRequest.bufferBytes).length := by
    intro requests
    simp [List.length_flatMap, ChunkRequest.physBytes, ChunkRequest.bufferBytes]
  rw [same, allChunks, chunkAt_bufferBytes, List.length_map, List.length_range',
    coveredBytes_all]

theorem allChunks_physBytes
    (inSpace : reads.length = 0 ∨ reads.address + reads.length ≤ 2 ^ 32) :
    (allChunks ns command reads fPos).flatMap ChunkRequest.physBytes =
      List.range' reads.address reads.length := by
  have bytes : List.range' reads.address reads.length =
      (List.range' 0 reads.length).map (reads.address + ·) := by
    rw [List.map_add_range', Nat.add_zero]
  rw [bytes]
  apply flatMap_windows maxBytes
  · have enough := @coveredBytes_le ns command (reads.address % 2 ^ 32)
      reads.length fPos (chunkCount reads.length)
    rwa [coveredBytes_all] at enough
  · intro index request found
    obtain ⟨below, rfl⟩ := chunkAt_of_getElem? found
    have inside := inside_of_lt (le_refl _) below
    have address : (reads.address % 2 ^ 32 + maxBytes * index) % 2 ^ 32 =
        reads.address + maxBytes * index := by
      rw [Nat.mod_add_mod]
      exact Nat.mod_eq_of_lt (by omega)
    rw [ChunkRequest.physBytes, List.map_add_range', Nat.zero_add]
    simp only [chunkAt, address]

variable (typed : reads.Typed) (nonneg : 0 ≤ fPos) (inFile : fPos < 2 ^ 63)

include typed nonneg inFile

theorem reportsExactly_success_iff :
    ReportsExactly reads.address fPos
        ⟨⟨allChunks ns command reads fPos, [], .ok (toSsize reads.retLength)⟩,
          toLoff (fPos + (reads.posLength % 2 ^ 32 : Nat))⟩ ↔
      reads.Fits fPos ∨ reads.LooksFailed := by
  obtain ⟨length, address, posLength, retLength⟩ := typed
  constructor
  · intro reports
    cases reports with
    | @bytes count result memory noWrap file moved stays =>
        refine .inl ?_
        simp only [Except.ok.injEq] at result moved stays memory noWrap
        have counted : reads.length = count := by
          rw [← @allChunks_length ns command reads fPos, memory,
            List.length_range']
        have atEnd : reads.retLength = count ∧ reads.retLength < 2 ^ 31 := by
          unfold toSsize at result
          omega
        have forPos : reads.posLength = count ∧ fPos + count < 2 ^ 63 := by
          unfold toLoff at moved stays
          omega
        refine ⟨by omega, by omega, by omega, by omega, ?_⟩
        by_cases none : reads.length = 0
        · exact .inl none
        · refine .inr ?_
          have last := noWrap (reads.address + (count - 1)) (by
            rw [memory, List.mem_range'_1]
            omega)
          omega
    | @error value result negative errno stays =>
        refine .inr ?_
        simp only [Except.ok.injEq] at result stays
        unfold toSsize at result
        unfold toLoff at stays
        unfold maxErrno at errno
        refine ⟨?_, ?_⟩
        · omega
        · omega
  · rintro (⟨samePos, sameRet, signed, inPos, inSpace⟩ | ⟨zero, looks⟩)
    · have memory := @allChunks_physBytes ns command reads fPos inSpace
      have returned : toSsize reads.retLength = reads.length := by
        unfold toSsize
        omega
      have moved : toLoff (fPos + (reads.posLength % 2 ^ 32 : Nat)) =
          fPos + reads.length := by
        unfold toLoff
        omega
      refine .bytes (congrArg _ returned) memory ?_ ?_ moved ?_
      · intro byte member
        rw [memory, List.mem_range'_1] at member
        omega
      · have file := @chunkAt_fileBytes ns command (reads.address % 2 ^ 32)
          reads.length fPos _ (le_refl _) nonneg inPos
        rwa [coveredBytes_all] at file
      · simp only [moved]
        omega
    · refine .error rfl ?_ ?_ ?_
      · unfold toSsize
        omega
      · unfold toSsize maxErrno
        omega
      · unfold toLoff
        simp only [zero]
        omega

end Success

theorem submitPhysIoReads_success {ns : NvmeNs} {command : NvmeOpcode}
    {results : Nat → Int} {reads : PhysIoReads} {fPos : Int}
    (position : toLoff fPos = fPos)
    (zero : ∀ index < chunkCount reads.length, results index = 0) :
    submitPhysIoReads (requestChunk (record results) ns command) reads fPos [] =
      ⟨⟨allChunks ns command reads fPos, [], .ok (toSsize reads.retLength)⟩,
        toLoff (fPos + (reads.posLength % 2 ^ 32 : Nat))⟩ := by
  obtain ⟨issued, value, ended, ran⟩ :=
    @submitPhysIoReads_record ns command results fPos reads position
  have isZero := ended.value_eq_zero_iff.mpr zero
  rw [ran, ended.issued_eq isZero]
  simp only [if_pos isZero]
  rfl

theorem failure_errno {result : Int} (errno : -maxErrno ≤ result) :
    -maxErrno ≤ failure result := by
  unfold failure eio maxErrno at *
  split <;> omega

/-- The physical call reports exactly what it transferred when a chunk fails,
when the length is read the same three times and stays inside every type it goes
through, or when the last two reads happen to look like an error. -/
theorem phys_io_reports_exactly_iff (ns : NvmeNs) (command : NvmeOpcode)
    {results : Nat → Int} (errnos : ∀ index, -maxErrno ≤ results index)
    {reads : PhysIoReads} (typed : reads.Typed) {fPos : Int}
    (nonneg : 0 ≤ fPos) (inFile : fPos < 2 ^ 63) :
    ReportsExactly reads.address fPos
        (submitPhysIoReads (requestChunk (record results) ns command) reads fPos
          []) ↔
      (∃ index, index < chunkCount reads.length ∧ results index ≠ 0) ∨
        reads.Fits fPos ∨ reads.LooksFailed := by
  have position : toLoff fPos = fPos := by
    unfold toLoff
    omega
  by_cases zero : ∀ index < chunkCount reads.length, results index = 0
  · have noFailure :
        ¬ ∃ index, index < chunkCount reads.length ∧ results index ≠ 0 := by
      rintro ⟨index, below, nonzero⟩
      exact nonzero (zero index below)
    rw [submitPhysIoReads_success position zero, or_iff_right noFailure]
    exact reportsExactly_success_iff typed nonneg inFile
  · have someFailure :
        ∃ index, index < chunkCount reads.length ∧ results index ≠ 0 := by
      simpa using zero
    refine ⟨fun _ => .inl someFailure, fun _ => ?_⟩
    obtain ⟨issued, value, ended, ran⟩ :=
      @submitPhysIoReads_record ns command results fPos reads position
    rw [ran]
    cases ended with
    | all isZero => exact absurd isZero zero
    | failed _ _ nonzero =>
        have negative := failure_neg nonzero
        have notZero := Int.ne_of_lt negative
        simp only [if_neg notZero]
        exact .error rfl negative (failure_errno (errnos _)) rfl

/-- Four KiB at the end of the bus addresses and before the end of the file. -/
theorem phys_io_reports_exactly_last_page :
    ReportsExactly 4294963200 9223372036854771711
        (submitPhysIoReads (requestChunk (record (fun _ => 0))
          (nvmeRevalidateDisk 1 12 0 false) .read)
          ⟨4096, 4294963200, 4096, 4096⟩ 9223372036854771711 []) ↔
      (∃ index, index < chunkCount 4096 ∧ (0 : Int) ≠ 0) ∨
        PhysIoReads.Fits ⟨4096, 4294963200, 4096, 4096⟩ 9223372036854771711 ∨
        PhysIoReads.LooksFailed ⟨4096, 4294963200, 4096, 4096⟩ :=
  @phys_io_reports_exactly_iff (nvmeRevalidateDisk 1 12 0 false) .read
    (fun _ => 0) (fun _ => by decide) ⟨4096, 4294963200, 4096, 4096⟩
    ⟨by decide, by decide, by decide, by decide⟩ 9223372036854771711 (by decide)
    (by decide)

/-- User space doubles the length while the chunk is under way: one page is read
and two are reported. -/
theorem phys_io_reports_rewritten_length :
    ¬ ReportsExactly 0 0
      (submitPhysIoReads (requestChunk (record (fun _ => 0))
        (nvmeRevalidateDisk 1 12 0 false) .read)
          ⟨4096, 0, 8192, 8192⟩ 0 []) := by
  rw [submitPhysIoReads_success (by decide) (fun _ _ => rfl),
    @reportsExactly_success_iff _ _ ⟨4096, 0, 8192, 8192⟩ 0
      ⟨by decide, by decide, by decide, by decide⟩ (le_refl 0) (by decide)]
  decide

end Chario.Device
