import Chario.Device.Format
import Chario.Nvme.Controller

namespace Chario.Device

open Chario.Library
open Chario.Nvme

/-! What a call does to memory and medium on a namespace of 4096-byte blocks,
when the kernel grants what it asks for and every command succeeds. -/

theorem awaitCompletions_all {σ : Type}
    (execute : List PrpBlock → RwCommand → σ → Nat × σ) (lists : List PrpBlock)
    (status : Int) (commands : List RwCommand) :
    ∀ (cmdinfo : CharioCmdInfo) (statuses : List Nat) (s : σ),
      0 ≤ cmdinfo.remaining →
      cmdinfo.remaining / reqMaxBlocks + 1 = commands.length →
      (awaitCompletions execute lists status commands cmdinfo
        statuses s).result =
          .ok status ∧
        (awaitCompletions execute lists status commands cmdinfo statuses
            s).state =
          commands.foldl (fun s command => (execute lists command s).2) s := by
  induction commands with
  | nil =>
      intro cmdinfo statuses s waits count
      unfold reqMaxBlocks at count
      simp only [List.length_nil] at count
      omega
  | cons command rest induction =>
      intro cmdinfo statuses s waits count
      rw [awaitCompletions]
      split
      next done =>
          have last : rest = [] := by
            apply List.eq_nil_of_length_eq_zero
            simp only [charioCompletion, List.length_cons] at done count
            unfold reqMaxBlocks at *
            omega
          rw [last]
          exact ⟨rfl, rfl⟩
      next more =>
          rw [List.foldl_cons]
          refine induction _ _ _ ?_ ?_
          · omega
          · simp only [charioCompletion, List.length_cons] at more count ⊢
            unfold reqMaxBlocks at *
            omega

section Chunk

variable {service : Service} {addr len pos : Nat} {command : NvmeOpcode}
variable {ns : NvmeNs} {buffer : Nat → Nat}

structure Served (out : Outcome World) (w : World) : Prop where
  result : out.result = .ok 0
  state : out.state = w

theorem charioUio_slba (ns : NvmeNs) {pos : Nat} (inFile : pos < 2 ^ 63)
    (addr len : Nat) (command : NvmeOpcode) :
    (charioUio ns addr len pos command).slba = pos / 2 ^ ns.lbaShift := by
  have down : pos / 2 ^ ns.lbaShift ≤ pos := Nat.div_le_self _ _
  have quotient : (pos : Int) / 2 ^ ns.lbaShift =
      (pos / 2 ^ ns.lbaShift : Nat) := by
    push_cast
    rfl
  have nonneg := Int.natCast_nonneg (pos / 2 ^ ns.lbaShift)
  simp only [charioUio, quotient]
  omega

theorem serve_all {issued : Issued} {io : NvmeUserIo}
    {setup : Nat → Nat → Except Stop (Int × PrpSetup)} {kernel : Kernel}
    (ran : submitIo setup kernel ns io = .ok issued)
    {order : List RwCommand → List RwCommand}
    (perm : ∀ commands, (order commands).Perm commands) (w : World) :
    Served (serve (nvmeExecute ns) order (.ok issued) w)
      ((order issued.commands).foldl
        (fun w command => (nvmeExecute ns issued.lists command w).2) w) := by
  obtain ⟨status, nblocks, count⟩ := submitIo_issued ran
  have waited := awaitCompletions_all (nvmeExecute ns) issued.lists
    issued.status (order issued.commands) ⟨-eintr, issued.nblocks⟩ [] w
    (Int.natCast_nonneg _) (by
      rw [(perm issued.commands).length_eq, count, nblocks]
      push_cast
      rfl)
  rw [serve, if_pos status]
  refine ⟨?_, waited.2⟩
  rw [waited.1, status]

theorem serve_served {request : Except Stop Issued} {io : NvmeUserIo}
    {setup : Nat → Nat → Except Stop (Int × PrpSetup)} {kernel : Kernel}
    (ran : submitIo setup kernel ns io = request)
    (splits : ∃ issued, request = .ok issued ∧
      SplitAgrees ns io buffer issued)
    (rw : io.opcode = .read ∨ io.opcode = .write)
    (apart : ((List.range' 0 ((io.nblocks + 1) * ns.blockBytes)).map
      buffer).Nodup)
    {order : List RwCommand → List RwCommand}
    (perm : ∀ commands, (order commands).Perm commands) (w : World) :
    Served (serve (nvmeExecute ns) order request w)
      (w.moved io.opcode buffer (io.slba * ns.blockBytes)
        (List.range' 0 ((io.nblocks + 1) * ns.blockBytes))) := by
  obtain ⟨issued, isOk, agrees⟩ := splits
  have served := serve_all (ran.trans isOk) perm w
  rw [agrees.execute_all rw apart (perm issued.commands) w] at served
  rwa [isOk]

structure ChunkFits (addr len pos : Nat) : Prop where
  aligned : addr % pageBytes = 0
  whole : len % pageBytes = 0
  fits : len ≤ maxBytes
  place : pos % pageBytes = 0
  inFile : pos < 2 ^ 63

structure PageBlocks (ns : NvmeNs) : Prop where
  shift : ns.lbaShift = 12
  ms : ns.ms = 0
  ext : ns.ext = false

theorem PageBlocks.accepts {ns : NvmeNs} (paged : PageBlocks ns) :
    ns.Accepts := by
  refine ⟨?_, ?_, ?_⟩
  · rw [paged.shift]
    decide
  · rw [paged.ms]
    decide
  · rw [paged.ms, paged.ext]
    decide

theorem PageBlocks.blockBytes {ns : NvmeNs} (paged : PageBlocks ns) :
    ns.blockBytes = pageBytes := by
  rw [NvmeNs.blockBytes, paged.shift, paged.ext]
  rfl

section Numbers

variable (paged : PageBlocks ns) (chunk : ChunkFits addr len pos)

include paged chunk

theorem ChunkFits.formatFits : FormatFits ns len := by
  have fits := chunk.fits
  rw [FormatFits, paged.shift]
  refine .inr ⟨paged.blockBytes, ?_⟩
  unfold maxBytes at fits
  omega

theorem ChunkFits.inSpace (some : len ≠ 0) (fits : addr + len ≤ 2 ^ 32) :
    FitsInSpace ns addr len := by
  have whole := chunk.whole
  have blocks : ∀ nblocks, lastNarrowPage ns len ≤ nblocks →
      nblocks < len / pageBytes → FitsInSpace ns addr len := by
    intro nblocks last inside
    refine lt_of_lt_of_le (Nat.add_lt_add_left ?_ addr) fits
    calc
      lastNarrowPage ns len * pageBytes ≤ nblocks * pageBytes :=
        Nat.mul_le_mul_right _ last
      _ < len / pageBytes * pageBytes :=
        Nat.mul_lt_mul_of_pos_right inside (by decide)
      _ ≤ len := Nat.div_mul_le_self _ _
  refine blocks ((len - 1) / pageBytes) ?_ ?_
  · have isShift : 2 ^ ns.lbaShift = pageBytes := by
      rw [paged.shift]
      rfl
    rw [lastNarrowPage, isShift, paged.blockBytes]
    generalize (len - 1) / pageBytes = nblocks
    split
    next =>
        split
        next => exact Nat.zero_le _
        next more =>
            by_contra none
            rw [Nat.lt_one_iff.mp (Nat.lt_of_not_le none)] at more
            exact more (le_refl _)
    next => split <;> omega
  · unfold pageBytes at *
    omega

theorem ChunkFits.transferred (some : len ≠ 0) (command : NvmeOpcode) :
    ((charioUio ns addr len pos command).nblocks + 1) * ns.blockBytes =
      len := by
  have whole := chunk.whole
  rw [charioUio_nblocks paged.accepts.shift.1
    (Nat.pos_of_ne_zero some) chunk.fits,
    paged.blockBytes, paged.shift]
  unfold pageBytes at *
  omega

theorem ChunkFits.position (command : NvmeOpcode) :
    (charioUio ns addr len pos command).slba * ns.blockBytes = pos := by
  have place := chunk.place
  rw [charioUio_slba ns chunk.inFile, paged.blockBytes, paged.shift]
  unfold pageBytes at *
  omega

theorem ChunkFits.served
    {setup : Nat → Kernel → Nat → Nat → Except Stop (Int × PrpSetup)}
    (splits : len ≠ 0 → SplitsRight
      (fun pageSize kernel => submitIo (setup pageSize kernel) kernel)
      service.kernel ns addr len pos command buffer)
    (rw : command = .read ∨ command = .write)
    (apart : ((List.range' 0 len).map buffer).Nodup)
    (perm : ∀ commands, (service.order commands).Perm commands) (w : World) :
    Served (submitChunk (nvmeExecute ns)
        (fun pageSize kernel => submitIo (setup pageSize kernel) kernel)
        pageBytes ns service addr len pos command w)
      (w.moved command buffer pos (List.range' 0 len)) := by
  rw [submitChunk]
  split
  next none =>
      rw [none]
      exact ⟨rfl, (World.moved_nil w).symm⟩
  next some =>
      have total := chunk.transferred paged some command
      have served := serve_served rfl (splits some) rw (by rwa [total]) perm w
      rw [total, chunk.position paged command] at served
      exact served

end Numbers

theorem submitUserIo_served (paged : PageBlocks ns)
    (chunk : ChunkFits addr len pos) (granted : service.kernel.Granted)
    (perm : ∀ commands, (service.order commands).Perm commands)
    (rw : command = .read ∨ command = .write)
    (apart : ((List.range' 0 len).map
      (fun byte => userByte service.kernel (addr + byte))).Nodup) (w : World) :
    Served (submitUserIo (nvmeExecute ns) pageBytes ns service addr len pos
        command w)
      (w.moved command (fun byte => userByte service.kernel (addr + byte)) pos
        (List.range' 0 len)) := by
  refine @ChunkFits.served _ _ _ _ _ _ _ paged chunk setupUser ?_
    rw apart perm w
  intro some
  exact (userSplit_fits paged.accepts (Nat.pos_of_ne_zero some) chunk.fits
    (Int.natCast_nonneg pos) (by exact_mod_cast chunk.inFile) rw granted
    chunk.aligned).1 (chunk.formatFits paged)

theorem submitPhysChunk_served (paged : PageBlocks ns)
    (chunk : ChunkFits addr len pos) (granted : service.kernel.Granted)
    (perm : ∀ commands, (service.order commands).Perm commands)
    (rw : command = .read ∨ command = .write) (inSpace : addr + len ≤ 2 ^ 32)
    (w : World) :
    Served (submitPhysChunk (nvmeExecute ns) pageBytes ns service addr len pos
        command w)
      (w.moved command (fun byte => addr + byte) pos (List.range' 0 len)) := by
  have apart : ((List.range' 0 len).map (fun byte => addr + byte)).Nodup :=
    List.Nodup.map (fun _ _ same => Nat.add_left_cancel same) List.nodup_range'
  refine @ChunkFits.served _ _ _ _ _ _ _ paged chunk setupPhys ?_
    rw apart perm w
  intro some
  exact (physSplit_fits paged.accepts (Nat.pos_of_ne_zero some) chunk.fits
    (Int.natCast_nonneg pos) (by exact_mod_cast chunk.inFile) rw granted
    chunk.aligned).mpr
      ⟨chunk.formatFits paged, chunk.inSpace paged some inSpace⟩

end Chunk

section Loop

variable {submit : Nat → Nat → Nat → Int → World → Outcome World}
variable {command : NvmeOpcode} {place : Nat → Nat} {start stop : Nat}

theorem toLoff_eq {pos : Nat} (inFile : pos < 2 ^ 63) : toLoff pos = pos := by
  unfold toLoff
  omega

def ServesChunks (submit : Nat → Nat → Nat → Int → World → Outcome World)
    (command : NvmeOpcode) (place : Nat → Nat) (start stop : Nat) : Prop :=
  ∀ {chunk addr len pos : Nat} (w : World), ChunkFits addr len pos →
    start ≤ addr → addr + len ≤ stop →
    Served (submit chunk addr len pos w)
      (w.moved command (fun byte => place (addr + byte)) pos
        (List.range' 0 len))

theorem Served.ended {out : Outcome World} {w : World} (served : Served out w) :
    Served out.ended w := by
  refine ⟨?_, served.state⟩
  rw [Outcome.ended, served.result]
  rfl

theorem add_maxBytes_aligned {value : Nat} (aligned : value % pageBytes = 0) :
    (value + maxBytes) % pageBytes = 0 := by
  unfold maxBytes pageBytes at *
  omega

theorem sub_maxBytes_aligned {value : Nat} (aligned : value % pageBytes = 0) :
    (value - maxBytes) % pageBytes = 0 := by
  unfold maxBytes pageBytes at *
  omega

theorem chunkLoop_served (serves : ServesChunks submit command place start stop)
    (noWrap : stop ≤ 2 ^ 32) :
    ∀ {fuel chunk remaining addr pos : Nat} (w : World), remaining ≤ fuel →
      addr % pageBytes = 0 → remaining % pageBytes = 0 → pos % pageBytes = 0 →
      pos + remaining < 2 ^ 63 → start ≤ addr → addr + remaining ≤ stop →
      Served (chunkLoop submit fuel chunk remaining addr pos w)
        (w.moved command (fun byte => place (addr + byte)) pos
          (List.range' 0 remaining)) := by
  intro fuel
  induction fuel with
  | zero =>
      intro chunk remaining addr pos w enough aligned whole onPage inFile after
        before
      have none : remaining = 0 := Nat.le_zero.mp enough
      exact (serves w
        ⟨aligned, whole, by rw [none]; exact Nat.zero_le _, onPage,
        by omega⟩ after before).ended
  | succ fuel induction =>
      intro chunk remaining addr pos w enough aligned whole onPage inFile after
        before
      by_cases more : maxBytes < remaining
      · have positive : 0 < maxBytes := by decide
        have page : maxBytes % pageBytes = 0 := by decide
        have fits : ChunkFits addr maxBytes pos :=
          ⟨aligned, page, Nat.le_refl maxBytes, onPage, by omega⟩
        have below : pos + maxBytes < 2 ^ 63 := by omega
        have first := @serves chunk addr maxBytes pos w fits after (by omega)
        have rest := @induction (chunk + 1) (remaining - maxBytes)
          (addr + maxBytes) (pos + maxBytes)
          (submit chunk addr maxBytes pos w).state (by omega)
          (add_maxBytes_aligned aligned) (sub_maxBytes_aligned whole)
          (add_maxBytes_aligned onPage) (by omega) (by omega) (by omega)
        have address : (addr + maxBytes) % 2 ^ 32 = addr + maxBytes :=
          Nat.mod_eq_of_lt (by omega)
        have offset : toLoff ((pos : Int) + maxBytes) =
            (pos + maxBytes : Nat) := by
          rw [← Int.natCast_add]
          exact toLoff_eq below
        have all := @World.moved_range command
          (fun byte => place (addr + byte)) pos maxBytes
          (remaining - maxBytes) w
        rw [Nat.add_sub_cancel' (le_of_lt more)] at all
        simp only [← Nat.add_assoc] at all
        rw [chunkLoop_next more first.result, address, offset]
        refine ⟨rest.result, ?_⟩
        rw [Outcome.after, rest.state, first.state, all]
      · rw [chunkLoop, if_neg more]
        exact (serves w ⟨aligned, whole, Nat.not_lt.mp more, onPage,
          by omega⟩ after before).ended

theorem transfer_served {addr count pos : Nat}
    (serves : ServesChunks submit command place addr (addr + count))
    (noWrap : addr + count ≤ 2 ^ 32) (aligned : addr % pageBytes = 0)
    (whole : count % pageBytes = 0) (small : count < 2 ^ 31)
    (onPage : pos % pageBytes = 0) (inFile : pos + count < 2 ^ 63) (w : World) :
    (transfer submit addr count count pos w).result = .ok (count : Int) ∧
      (transfer submit addr count count pos w).fPos = (pos + count : Nat) ∧
      (transfer submit addr count count pos w).state =
        w.moved command (fun byte => place (addr + byte)) pos
          (List.range' 0 count) := by
  have served := @chunkLoop_served submit command place addr (addr + count)
    serves noWrap count 0 count addr pos w (le_refl count) aligned whole onPage
    inFile (le_refl addr) (le_refl _)
  have word : count % 2 ^ 32 = count := Nat.mod_eq_of_lt (by omega)
  have signed : toSsize count = count := by
    rw [toSsize, word, if_pos small]
  have moved : toLoff ((pos : Int) + (count % 2 ^ 32 : Nat)) =
      (pos + count : Nat) := by
    rw [word, ← Int.natCast_add]
    exact toLoff_eq inFile
  unfold transfer
  rw [served.result]
  simp only [signed, moved]
  exact ⟨trivial, trivial, served.state⟩

end Loop

end Chario.Device
