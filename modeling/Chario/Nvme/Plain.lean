import Chario.Nvme.Controller
import Chario.Nvme.Unaligned

namespace Chario.Nvme

open Chario.Library

/-! `nvme_submit_io`, the path of the driver that `nvme_submit_io_chario` was
made from: one command for the whole request, and a wait for its completion. -/

/-- Whatever executes the commands: the status that the driver waits for and the
world after it. -/
abbrev NvmeController := RwCommand → List PrpBlock → World → Int × World

/-- A controller that has carried a command out when it reports success, and
that reports every failure of its own with a status code. -/
structure Conforming (ns : NvmeNs) (controller : NvmeController) : Prop where
  executes : ∀ command lists w, (controller command lists w).1 = 0 →
    nvmeExecute ns lists command w = (0, (controller command lists w).2)
  reports : ∀ command lists w, 0 < (controller command lists w).1 →
    (controller command lists w).1 % 2 ^ 11 ≠ 0

/-- `io.opcode & 1`. -/
def NvmeOpcode.hostToDevice : NvmeOpcode → Bool
  | .write | .compare | .resvRegister | .resvAcquire | .resvRelease
  | .dsm => true
  | .flush | .read | .writeUncor | .writeZeroes | .resvReport => false

def plainCommand (ns : NvmeNs) (io : NvmeUserIo) (metaDma : Nat)
    (prps : PrpSetup) : RwCommand where
  opcode := io.opcode
  flags := io.flags
  nsid := ns.nsId
  slba := io.slba
  length := io.nblocks
  control := io.control
  dsmgmt := io.dsmgmt
  reftag := io.reftag
  apptag := io.apptag
  appmask := io.appmask
  prp1 := prps.prp1
  prp2 := prps.prp2
  metadata := metaDma

structure MetaCopies where
  fromUser : Bool
  toUser : Bool
deriving DecidableEq, Repr

def separateMeta (ns : NvmeNs) (io : NvmeUserIo) : Bool :=
  decide (metaLen ns io ≠ 0) && !ns.ext

def nvmeSubmitIo (pageSize : Nat) (kernel : Kernel) (copies : MetaCopies)
    (controller : NvmeController) (ns : NvmeNs) (io : NvmeUserIo) (w : World) :
    Except Stop (Int × World) :=
  if metaLen ns io ≠ 0 ∧ (io.metadata % 4 ≠ 0 ∨ io.metadata = 0) ∧
      ns.ext = false then .ok (-einval, w)
  else if io.opcode ≠ .write ∧ io.opcode ≠ .read ∧ io.opcode ≠ .compare then
    .ok (-einval, w)
  else
    match setupUser pageSize kernel io.addr (transferLen ns io) with
    | .error (.status value) => .ok (value, w)
    | .error .bug => .error .bug
    | .ok (prpLen, prps) =>
        if (transferLen ns io : Int) ≠ prpLen then .ok (-enomem, w)
        else
          match metaBuffer kernel ns io with
          | .error (.status value) => .ok (value, w)
          | .error .bug => .error .bug
          | .ok metaDma =>
              if separateMeta ns io ∧ io.opcode.hostToDevice ∧
                  copies.fromUser = false then .ok (-efault, w)
              else
                let done :=
                  controller (plainCommand ns io metaDma prps) prps.lists w
                if separateMeta ns io ∧ done.1 = 0 ∧
                    io.opcode.hostToDevice = false ∧ copies.toUser = false then
                  .ok (-efault, done.2)
                else .ok done

section Mapped

variable {kernel : Kernel} {addr length : Nat} {result : PrpSetup}

theorem nvmeMapUserPages_inv {sg : List Segment}
    (mapped : nvmeMapUserPages pageBytes kernel addr length = .ok sg) :
    addr % 4 = 0 ∧ 0 < length ∧ length ≤ intMax - pageBytes ∧
      kernel.Maps addr length := by
  unfold nvmeMapUserPages at mapped
  split at mapped
  next => cases mapped
  next word =>
  split at mapped
  next => cases mapped
  next fits =>
  split at mapped
  next => cases mapped
  next kcalloc =>
  split at mapped
  next => cases mapped
  next pins =>
  split at mapped
  next => cases mapped
  next kmalloc =>
  split at mapped
  next => cases mapped
  next table isTable =>
    refine ⟨not_not.mp word, by omega, by omega, ?_, by omega, ?_, ?_⟩
    · exact Bool.not_eq_false _ ▸ kcalloc
    · exact Bool.not_eq_false _ ▸ kmalloc
    · rw [Kernel.userTable, isTable]
      simp

theorem setupUser_maps {retcode : Int}
    (ran : setupUser pageBytes kernel addr length = .ok (retcode, result)) :
    addr % 4 = 0 ∧ 0 < length ∧ length ≤ intMax - pageBytes ∧
      kernel.Maps addr length := by
  unfold setupUser at ran
  split at ran
  next => cases ran
  next sg mapped => exact nvmeMapUserPages_inv mapped

/-- Whenever the lists were built for the whole length, they list the pages of
the buffer. -/
theorem setupUser_inv (sound : kernel.Sound)
    (ran : setupUser pageBytes kernel addr length =
      .ok ((length : Int), result)) :
    0 < length ∧
    result.prp1 = some (kernel.userPage addr 0 + addr % pageBytes) ∧
      Listed ((List.range' 1 (pageCount (length - headBytes addr length))).map
        (kernel.userPage addr)) result.prp2 result.npages result.lists := by
  obtain ⟨word, positive, bounded, maps⟩ := setupUser_maps ran
  obtain ⟨ret, prp2, npages, lists, isSetup, ended⟩ :=
    setupUser_ends positive bounded sound maps word
  rw [isSetup] at ran
  cases ran
  refine ⟨positive, rfl, ?_⟩
  cases ended with
  | built listed _ => exact listed
  | refused short _ _ => exact absurd rfl short
  | stopped short _ _ _ _ _ _ _ _ => exact absurd rfl short

theorem setupUser_transfer (sound : kernel.Sound)
    (ran : setupUser pageBytes kernel addr length =
      .ok ((length : Int), result)) :
    prpAddresses (prpMemory result.lists) result.prp1 result.prp2 length =
      some ((List.range' 0 length).map (kernel.bufferByte addr)) := by
  obtain ⟨_, prp1, listed⟩ := setupUser_inv sound ran
  rw [prp1]
  exact listed.userTransfer sound

end Mapped

section Request

variable {kernel : Kernel} {copies : MetaCopies} {controller : NvmeController}
variable {ns : NvmeNs} {io : NvmeUserIo} {w after : World}

theorem transferLen_of_small
    (small : (io.nblocks + 1) * ns.blockBytes < 2 ^ 32) :
    transferLen ns io = (io.nblocks + 1) * ns.blockBytes := by
  have both : (io.nblocks + 1) * ns.blockBytes =
      (io.nblocks + 1) * 2 ^ ns.lbaShift +
        (io.nblocks + 1) * (if ns.ext then ns.ms else 0) := by
    rw [NvmeNs.blockBytes, Nat.mul_add]
  have data : dataLen ns io = (io.nblocks + 1) * 2 ^ ns.lbaShift :=
    Nat.mod_eq_of_lt (by omega)
  unfold transferLen
  cases isExt : ns.ext with
  | false =>
      rw [both, isExt, data]
      simp
  | true =>
      rw [isExt, if_pos rfl] at both
      have metas : metaLen ns io = (io.nblocks + 1) * ns.ms :=
        Nat.mod_eq_of_lt (by omega)
      split
      next => rw [data, metas, ← both, Nat.mod_eq_of_lt small]
      next none =>
          have zero : metaLen ns io = 0 := by
            by_contra some
            exact none ⟨some, rfl⟩
          rw [metas] at zero
          rw [data, both, zero]
          rfl

theorem setupUser_error {addr length : Nat} {value : Int}
    (failed : setupUser pageBytes kernel addr length = .error (.status value)) :
    value < 0 := by
  unfold setupUser at failed
  split at failed
  next stop refused =>
      cases failed
      unfold nvmeMapUserPages at refused
      repeat' split at refused
      all_goals cases refused
      all_goals decide
  next =>
      split at failed <;> cases failed

theorem metaBuffer_error {value : Int}
    (failed : metaBuffer kernel ns io = .error (.status value)) :
    value < 0 := by
  unfold metaBuffer at failed
  repeat' split at failed
  all_goals cases failed
  decide

/-- A request that succeeds was mapped whole and its command was executed. -/
theorem nvmeSubmitIo_inv
    (ran : nvmeSubmitIo pageBytes kernel copies controller ns io w =
      .ok (0, after)) :
    ∃ metaDma prps, setupUser pageBytes kernel io.addr (transferLen ns io) =
        .ok ((transferLen ns io : Int), prps) ∧
      controller (plainCommand ns io metaDma prps) prps.lists w =
        (0, after) := by
  unfold nvmeSubmitIo at ran
  split at ran
  next => cases ran
  split at ran
  next => cases ran
  split at ran
  next value refused =>
      cases ran
      exact absurd (setupUser_error refused) (by decide)
  next => cases ran
  next prpLen prps isSetup =>
  split at ran
  next => cases ran
  next whole =>
  split at ran
  next value refused =>
      cases ran
      exact absurd (metaBuffer_error refused) (by decide)
  next => cases ran
  next metaDma isMeta =>
  split at ran
  next => cases ran
  dsimp only at ran
  split at ran
  next => cases ran
  next =>
    refine ⟨metaDma, prps, ?_, Except.ok.inj ran⟩
    rw [isSetup, ← not_not.mp whole]

/-- Whenever the plain path returns success, the blocks of the request and the
bytes of the user buffer, at whatever word address, are the same. -/
theorem nvmeSubmitIo_moves (sound : kernel.Sound)
    (conforming : Conforming ns controller)
    (rw : io.opcode = .read ∨ io.opcode = .write)
    (small : (io.nblocks + 1) * ns.blockBytes < 2 ^ 32)
    (ran : nvmeSubmitIo pageBytes kernel copies controller ns io w =
      .ok (0, after)) :
    after = w.moved io.opcode (kernel.bufferByte io.addr)
      (io.slba * ns.blockBytes)
      (List.range' 0 ((io.nblocks + 1) * ns.blockBytes)) := by
  obtain ⟨metaDma, prps, isSetup, done⟩ := nvmeSubmitIo_inv ran
  have executed :=
    conforming.executes (plainCommand ns io metaDma prps) prps.lists w
    (by rw [done])
  have addresses := setupUser_transfer sound isSetup
  rw [transferLen_of_small small] at addresses
  have transfer : (plainCommand ns io metaDma prps).transfer ns prps.lists =
      some ((List.range' 0 ((io.nblocks + 1) * ns.blockBytes)).map
        (kernel.bufferByte io.addr)) := addresses
  rw [@nvmeExecute_moved ns (plainCommand ns io metaDma prps) _ _ rw transfer,
    done] at executed
  exact (congrArg Prod.snd executed).symm

theorem setUp_of_setupUser (sound : kernel.Sound) {addr length : Nat}
    (aligned : addr % pageBytes = 0) {prps : PrpSetup}
    (ran : setupUser pageBytes kernel addr length =
      .ok ((length : Int), prps)) :
    SetUp (setupUser pageBytes kernel) addr length
      (kernel.userPage addr) prps := by
  obtain ⟨positive, prp1, listed⟩ := setupUser_inv sound ran
  rw [pageCount_rest aligned (pageCount_pred positive)] at listed
  refine ⟨ran, ?_, listed, fun page => sound.aligned _⟩
  rw [prp1, aligned, Nat.add_zero]

/-- Where the plain path succeeds, the commands of the character device have the
same effect in whatever order the controller executes them. -/
theorem charioSplit_agrees_plain (sound : kernel.Sound)
    (conforming : Conforming ns controller) (accepts : ns.Accepts)
    (rw : io.opcode = .read ∨ io.opcode = .write)
    (small : (io.nblocks + 1) * ns.blockBytes < 2 ^ 32)
    (aligned : io.addr % pageBytes = 0) (noWrap : io.slba + io.nblocks < 2 ^ 64)
    (fits : io.nblocks ≤ 31 ∨ (ns.blockBytes = pageBytes ∧ io.nblocks ≤ 1023))
    (apart : ((List.range' 0 ((io.nblocks + 1) * ns.blockBytes)).map
      (kernel.bufferByte io.addr)).Nodup)
    (ran : nvmeSubmitIo pageBytes kernel copies controller ns io w =
      .ok (0, after)) :
    ∃ issued, nvmeSubmitIoChario pageBytes kernel ns io = .ok issued ∧
      ∀ {ordered : List RwCommand}, ordered.Perm issued.commands →
        ordered.foldl
          (fun w command => (nvmeExecute ns issued.lists command w).2) w =
          after := by
  obtain ⟨_, prps, isSetup, _⟩ := nvmeSubmitIo_inv ran
  have plain := nvmeSubmitIo_moves sound conforming rw small ran
  rw [transferLen_of_small small] at isSetup
  have ready := setUp_of_setupUser sound aligned isSetup
  refine ⟨_, submitIo_ok accepts small rw ready, ?_⟩
  have agrees : SplitAgrees ns io (bufferAddress (kernel.userPage io.addr))
      (.ofSplit ns io prps) := by
    cases fits with
    | inl short =>
        exact splitAgrees_short ready noWrap
          (by have := accepts.blockBytes_bounds; omega)
          short
    | inr paged =>
        refine splitAgrees_paged ready noWrap paged.1 paged.2 (.of_forall ?_)
        intro address member
        obtain ⟨page, -, rfl⟩ := List.mem_map.mp member
        exact kernel.inSpace _
  have same : bufferAddress (kernel.userPage io.addr) =
      kernel.bufferByte io.addr := by
    funext byte
    exact kernel.bufferByte_aligned aligned byte
  rw [same] at agrees
  intro ordered perm
  rw [plain]
  exact agrees.execute_all rw apart perm w

end Request

def promptController (ns : NvmeNs) : NvmeController := fun command lists w =>
  (((nvmeExecute ns lists command w).1 : Nat),
    (nvmeExecute ns lists command w).2)

theorem promptController_conforming (ns : NvmeNs) :
    Conforming ns (promptController ns) where
  executes command lists w succeeded := by
    refine Prod.ext ?_ rfl
    exact Int.ofNat_eq_zero.mp succeeded
  reports command lists w failed := by
    have either : (nvmeExecute ns lists command w).1 = 0 ∨
        (nvmeExecute ns lists command w).1 = invalidField := by
      unfold nvmeExecute
      split <;> simp
    simp only [promptController] at failed ⊢
    cases either with
    | inl none =>
        rw [none] at failed
        exact absurd failed (by decide)
    | inr refused =>
        rw [refused]
        decide

def onesWorld : World := ⟨fun _ => 0, fun _ => 1⟩

theorem ok_of_toOption_map {α β : Type} {outcome : Except Stop α}
    {observe : α → β}
    {seen : β} (succeeds : outcome.toOption.map observe = some seen) :
    ∃ result, outcome = .ok result ∧ observe result = seen := by
  cases outcome with
  | error stop => cases succeeds
  | ok result => exact ⟨result, rfl, Option.some.inj succeeds⟩

theorem charioSplit_agrees_plain_forty :
    ∃ after, nvmeSubmitIo pageBytes Kernel.plain ⟨true, true⟩
        (promptController (nvmeRevalidateDisk 1 12 0 false))
        (nvmeRevalidateDisk 1 12 0 false) (wholeRead 8192 39) onesWorld =
          .ok (0, after) ∧
      ∃ issued, nvmeSubmitIoChario pageBytes Kernel.plain
          (nvmeRevalidateDisk 1 12 0 false) (wholeRead 8192 39) = .ok issued ∧
        ∀ {ordered : List RwCommand}, ordered.Perm issued.commands →
          ordered.foldl (fun w command => (nvmeExecute
            (nvmeRevalidateDisk 1 12 0 false) issued.lists command w).2)
              onesWorld =
              after := by
  have succeeds : (nvmeSubmitIo pageBytes Kernel.plain ⟨true, true⟩
      (promptController (nvmeRevalidateDisk 1 12 0 false))
      (nvmeRevalidateDisk 1 12 0 false) (wholeRead 8192 39)
      onesWorld).toOption.map Prod.fst = some 0 := by
    decide +kernel
  obtain ⟨⟨status, after⟩, ran, isStatus⟩ := ok_of_toOption_map succeeds
  cases isStatus
  refine ⟨after, ran, ?_⟩
  refine charioSplit_agrees_plain Kernel.plain_granted.sound
    (promptController_conforming _) ⟨by decide, by decide, by decide⟩ (.inl rfl)
    (by decide) (by decide) (by decide) (.inr (by decide)) ?_ ran
  refine List.Nodup.map_on ?_ List.nodup_range'
  intro byte inside other insideOther same
  rw [List.mem_range'_1] at inside insideOther
  have few : (wholeRead 8192 39).nblocks + 1 = 40 := rfl
  have blocks : (nvmeRevalidateDisk 1 12 0 false).blockBytes = 4096 := rfl
  rw [few, blocks] at inside insideOther
  simp only [Kernel.bufferByte, bufferAddress, Kernel.plain, wholeRead,
    pageBytes] at same
  omega

end Chario.Nvme
