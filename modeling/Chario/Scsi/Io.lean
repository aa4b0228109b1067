import Chario.Nvme.BlockRequest
import Chario.Nvme.Plain
import Chario.Scsi.Cdb
import Chario.Scsi.Sense

namespace Chario.Scsi

open Chario.Library Chario.Nvme

/-! `nvme_trans_io`: a READ or WRITE as NVMe commands, each sent when the one
before it has completed. -/

structure SgIovec where
  iovBase : Nat
  iovLen : Nat
deriving DecidableEq, Repr

structure SgEnv where
  lengthPass : Nat → Option SgIovec
  ioPass : Nat → Option SgIovec
  writable : Bool
  kernel : Nat → Kernel
  controller : NvmeController

structure IoUnit where
  address : Nat
  len : Nat
  blocks : Nat
deriving DecidableEq, Repr

def nvmeTransIoGetNumCmds (hdr : SgIoHdr) (cdbInfo : NvmeTransIoCdb)
    (maxBlocks : Nat) : Nat :=
  if 0 < hdr.iovecCount then hdr.iovecCount
  else if maxBlocks < cdbInfo.xferLen.toNat then
    (cdbInfo.xferLen.toNat - 1) / maxBlocks + 1
  else 1

def nvmeTransIoGetControl (cdbInfo : NvmeTransIoCdb) : Nat :=
  if cdbInfo.fua ≠ 0 then nvmeRwFua else 0

section Translation

variable (env : SgEnv) (ns : NvmeNs) (hdr : SgIoHdr) (cdbInfo : NvmeTransIoCdb)

def ioUnit (maxBlocks turn nvmeOffset : Nat) : Option IoUnit :=
  if 0 < hdr.iovecCount then
    (env.ioPass turn).map fun sgl =>
      ⟨sgl.iovBase, sgl.iovLen, sgl.iovLen / 2 ^ ns.lbaShift⟩
  else
    let unitNumBlocks :=
      min maxBlocks ((cdbInfo.xferLen.toNat + (2 ^ 64 - nvmeOffset)) % 2 ^ 64)
    some ⟨(hdr.dxferp + 2 ^ ns.lbaShift * nvmeOffset) % 2 ^ 32,
      unitNumBlocks * 2 ^ ns.lbaShift, unitNumBlocks⟩

def ioOpcode (isWrite : Bool) : NvmeOpcode := if isWrite then .write else .read

/-- The length field takes the low 16 bits of the count less one. -/
def ioCommand (isWrite : Bool) (nvmeOffset : Nat) (unit : IoUnit)
    (prps : PrpSetup) :
    RwCommand where
  opcode := ioOpcode isWrite
  flags := 0
  nsid := ns.nsId
  slba := (cdbInfo.lba.toNat + nvmeOffset) % 2 ^ 64
  length := (unit.blocks + (2 ^ 16 - 1)) % 2 ^ 16
  control := nvmeTransIoGetControl cdbInfo
  dsmgmt := 0
  reftag := 0
  apptag := 0
  appmask := 0
  prp1 := prps.prp1
  prp2 := prps.prp2
  metadata := 0

def ioLoop (pageSize maxBlocks : Nat) (isWrite : Bool) :
    Nat → Nat → Nat → World → Except Stop ((Int × SgIoHdr) × World)
  | 0, _, _, w => .ok (nvmeTransStatusCode env.writable hdr 0, w)
  | left + 1, turn, nvmeOffset, w =>
      match ioUnit env ns hdr cdbInfo maxBlocks turn nvmeOffset with
      | none => .ok ((-efault, hdr), w)
      | some unit =>
          match setupUser pageSize (env.kernel turn) unit.address
              (unit.len % 2 ^ 32) with
          | .error (.status value) => .ok ((value, hdr), w)
          | .error .bug => .error .bug
          | .ok (retcode, prps) =>
              if retcode ≠ unit.len then .ok ((-enomem, hdr), w)
              else
                let done := env.controller
                  (ioCommand ns cdbInfo isWrite nvmeOffset unit prps)
                    prps.lists w
                if done.1 ≠ 0 then
                  .ok (nvmeTransStatusCode env.writable hdr done.1, done.2)
                else
                  ioLoop pageSize maxBlocks isWrite left (turn + 1)
                    (nvmeOffset + unit.blocks) done.2

def nvmeTransDoNvmeIo (pageSize maxBlocks : Nat) (isWrite : Bool) (w : World) :
    Except Stop ((Int × SgIoHdr) × World) :=
  ioLoop env ns hdr cdbInfo pageSize maxBlocks isWrite
    (nvmeTransIoGetNumCmds hdr cdbInfo maxBlocks) 0 0 w

def oddVector : Sense := ⟨samStatCheckCondition, illegalRequest, 0x26, 0x00⟩

/-- The first pass over the vectors. -/
def sumIovLen : Nat → Nat → Nat → Except (Int × SgIoHdr) Nat
  | 0, _, sum => .ok sum
  | left + 1, turn, sum =>
      match env.lengthPass turn with
      | none => .error (-efault, hdr)
      | some sgl =>
          if sgl.iovLen % 2 ^ ns.lbaShift ≠ 0 then
            .error (nvmeTransCompletion env.writable hdr oddVector)
          else sumIovLen left (turn + 1) (sum + sgl.iovLen)

def snTiInternalError : Int := 1

def nvmeTransIo (pageSize maxBlocks : Nat) (isWrite : Bool) (cmd : Cdb)
    (w : World) :
    Except Stop ((Int × SgIoHdr) × World) :=
  match nvmeTransIoFields cmd with
  | none => .ok ((snTiInternalError, hdr), w)
  | some cdbInfo =>
      match if 0 < hdr.iovecCount then sumIovLen env ns hdr hdr.iovecCount 0 0
          else .ok hdr.dxferLen with
      | .error done => .ok (done, w)
      | .ok sum =>
          if min hdr.dxferLen sum ≠ (cdbInfo.xferLen <<< ns.lbaShift).toNat then
            .ok ((-einval, hdr), w)
          else if cdbInfo.xferLen = 0 then .ok ((0, hdr), w)
          else nvmeTransDoNvmeIo env ns hdr cdbInfo pageSize maxBlocks isWrite w

def ioUnits (maxBlocks : Nat) : Nat → Nat → Nat → Option (List IoUnit)
  | 0, _, _ => some []
  | left + 1, turn, nvmeOffset =>
      match ioUnit env ns hdr cdbInfo maxBlocks turn nvmeOffset with
      | none => none
      | some unit =>
          (ioUnits maxBlocks left (turn + 1) (nvmeOffset + unit.blocks)).map
            (unit :: ·)

end Translation

def movedUnits (opcode : NvmeOpcode) (frames : Nat → Nat) (ns : NvmeNs) :
    Nat → List IoUnit → World → World
  | _, [], w => w
  | block, unit :: rest, w =>
      movedUnits opcode frames ns (block + unit.blocks) rest
        (w.moved opcode (fun byte => bufferAddress frames (unit.address + byte))
          (block * ns.blockBytes) (List.range' 0 (unit.blocks * ns.blockBytes)))

structure IoUnit.Names (ns : NvmeNs) (block : Nat) (unit : IoUnit) : Prop where
  whole : unit.len = unit.blocks * ns.blockBytes
  narrow : unit.len ≤ 2 ^ 32
  fits : unit.blocks ≤ 2 ^ 16
  noWrap : block + unit.blocks ≤ 2 ^ 64

def AllNamed (ns : NvmeNs) : Nat → List IoUnit → Prop
  | _, [] => True
  | block, unit :: rest =>
      unit.Names ns block ∧ AllNamed ns (block + unit.blocks) rest

/-- The kernel and the controller that a transfer relies on: the user pages stay
where they are from command to command. -/
structure SgEnv.Sound (env : SgEnv) (ns : NvmeNs) (frames : Nat → Nat) :
    Prop where
  kernel : ∀ turn, (env.kernel turn).Sound
  frames : ∀ turn, (env.kernel turn).frames = frames
  controller : Conforming ns env.controller

section Loop

variable {env : SgEnv} {ns : NvmeNs} {hdr hdr' : SgIoHdr}
    {cdbInfo : NvmeTransIoCdb}
variable {frames : Nat → Nat} {maxBlocks : Nat} {isWrite : Bool}

theorem ioOpcode_rw (isWrite : Bool) :
    ioOpcode isWrite = .read ∨ ioOpcode isWrite = .write := by
  cases isWrite
  · exact .inl rfl
  · exact .inr rfl

theorem ioCommand_moves (sound : env.Sound ns frames) {turn nvmeOffset : Nat}
    {unit : IoUnit} (names : unit.Names ns (cdbInfo.lba.toNat + nvmeOffset))
    {prps : PrpSetup}
    (isSetup :
      setupUser pageBytes (env.kernel turn) unit.address (unit.len % 2 ^ 32) =
      .ok ((unit.len : Int), prps)) {w : World}
    (succeeded :
      (env.controller (ioCommand ns cdbInfo isWrite nvmeOffset unit prps)
      prps.lists w).1 = 0) :
    (env.controller (ioCommand ns cdbInfo isWrite nvmeOffset unit prps)
        prps.lists w).2 =
      w.moved (ioOpcode isWrite)
        (fun byte => bufferAddress frames (unit.address + byte))
        ((cdbInfo.lba.toNat + nvmeOffset) * ns.blockBytes)
        (List.range' 0 (unit.blocks * ns.blockBytes)) := by
  obtain ⟨_, positive, _, _⟩ := setupUser_maps isSetup
  obtain ⟨whole, narrow, fits, noWrap⟩ := names
  have low : unit.len % 2 ^ 32 = unit.len := by
    rcases Nat.lt_or_ge unit.len (2 ^ 32) with below | all
    · exact Nat.mod_eq_of_lt below
    · have full : unit.len = 2 ^ 32 := le_antisymm narrow all
      rw [full] at positive
      exact absurd positive (by decide)
  rw [low] at isSetup positive
  have some : 0 < unit.blocks := by
    by_contra none
    rw [whole, Nat.eq_zero_of_not_pos none, Nat.zero_mul] at positive
    exact absurd positive (by decide)
  have length : (unit.blocks + (2 ^ 16 - 1)) % 2 ^ 16 + 1 = unit.blocks := by
    omega
  have slba : (cdbInfo.lba.toNat + nvmeOffset) % 2 ^ 64 =
      cdbInfo.lba.toNat + nvmeOffset := Nat.mod_eq_of_lt (by omega)
  have place : (env.kernel turn).bufferByte unit.address =
      fun byte => bufferAddress frames (unit.address + byte) := by
    funext byte
    rw [Kernel.bufferByte, sound.frames]
  have addresses := setupUser_transfer (sound.kernel turn) isSetup
  have transfer :
      (ioCommand ns cdbInfo isWrite nvmeOffset unit prps).transfer ns
      prps.lists = Option.some ((List.range' 0
        (((ioCommand ns cdbInfo isWrite nvmeOffset unit prps).length + 1) *
          ns.blockBytes)).map
        (fun byte => bufferAddress frames (unit.address + byte))) := by
    rw [RwCommand.transfer]
    simp only [ioCommand, length]
    rw [← whole, addresses, place]
  have executed := sound.controller.executes _ prps.lists w succeeded
  rw [nvmeExecute_moved (ioOpcode_rw isWrite) transfer] at executed
  rw [← congrArg Prod.snd executed]
  simp only [ioCommand, length, slba]

/-- A loop that ends with success has sent a command for every unit. -/
theorem ioLoop_moves (sound : env.Sound ns frames) {left : Nat} :
    ∀ {turn nvmeOffset : Nat} {w after : World},
      ioLoop env ns hdr cdbInfo pageBytes maxBlocks isWrite left turn
        nvmeOffset w =
        .ok ((0, hdr'), after) → hdr'.status = samStatGood →
      ∃ units, ioUnits env ns hdr cdbInfo maxBlocks left turn nvmeOffset =
        some units ∧
        (AllNamed ns (cdbInfo.lba.toNat + nvmeOffset) units →
          after = movedUnits (ioOpcode isWrite) frames ns
            (cdbInfo.lba.toNat + nvmeOffset) units w) := by
  induction left with
  | zero =>
      intro turn nvmeOffset w after ran _
      cases ran
      exact ⟨[], rfl, fun _ => rfl⟩
  | succ left induction =>
      intro turn nvmeOffset w after ran good
      rw [ioLoop] at ran
      split at ran
      next => cases ran
      next unit isUnit =>
      split at ran
      next value refused =>
          cases ran
          exact absurd (setupUser_error refused) (by decide)
      next => cases ran
      next retcode prps isSetup =>
      split at ran
      next => cases ran
      next whole =>
      dsimp only at ran
      split at ran
      next failed =>
          have reported := Prod.ext_iff.mp (Except.ok.inj ran)
          exact absurd good (nvmeTransStatusCode_failure failed
            (sound.controller.reports _ _ _) reported.1)
      next succeeded =>
        rw [not_not.mp whole] at isSetup
        obtain ⟨units, found, moves⟩ := induction ran good
        refine ⟨unit :: units, ?_, ?_⟩
        · simp only [ioUnits, isUnit, found, Option.map_some]
        · intro named
          rw [moves (by rw [← Nat.add_assoc]; exact named.2),
            ioCommand_moves sound named.1 isSetup (not_not.mp succeeded),
            ← Nat.add_assoc]
          rfl

end Loop

section Buffer

variable {env : SgEnv} {ns : NvmeNs} {hdr : SgIoHdr} {cdbInfo : NvmeTransIoCdb}
variable (frames : Nat → Nat) {maxBlocks : Nat}

theorem ioUnit_buffer (noVectors : hdr.iovecCount = 0)
    (turn : Nat) {nvmeOffset : Nat}
    (before : nvmeOffset ≤ cdbInfo.xferLen.toNat) :
    ioUnit env ns hdr cdbInfo maxBlocks turn nvmeOffset =
      some ⟨(hdr.dxferp + 2 ^ ns.lbaShift * nvmeOffset) % 2 ^ 32,
        min maxBlocks (cdbInfo.xferLen.toNat - nvmeOffset) * 2 ^ ns.lbaShift,
        min maxBlocks (cdbInfo.xferLen.toNat - nvmeOffset)⟩ := by
  have narrow := cdbInfo.xferLen.isLt
  have rest : (cdbInfo.xferLen.toNat + (2 ^ 64 - nvmeOffset)) % 2 ^ 64 =
      cdbInfo.xferLen.toNat - nvmeOffset := by omega
  rw [ioUnit, if_neg (by omega), rest]

theorem ioUnits_buffer (noVectors : hdr.iovecCount = 0)
    (plain : ns.blockBytes = 2 ^ ns.lbaShift)
    (inside : hdr.dxferp + cdbInfo.xferLen.toNat * ns.blockBytes ≤ 2 ^ 32)
    (fits : min maxBlocks cdbInfo.xferLen.toNat ≤ 2 ^ 16)
    (noWrap : cdbInfo.lba.toNat + cdbInfo.xferLen.toNat ≤ 2 ^ 64)
    (opcode : NvmeOpcode) {left : Nat} :
    ∀ {turn nvmeOffset : Nat}, nvmeOffset ≤ cdbInfo.xferLen.toNat →
      cdbInfo.xferLen.toNat - nvmeOffset ≤ left * maxBlocks →
      ∃ units, ioUnits env ns hdr cdbInfo maxBlocks left turn nvmeOffset =
        some units ∧
        AllNamed ns (cdbInfo.lba.toNat + nvmeOffset) units ∧
        ∀ w,
          movedUnits opcode frames ns (cdbInfo.lba.toNat + nvmeOffset) units w =
          w.moved opcode
            (fun byte =>
              bufferAddress frames
                (hdr.dxferp + nvmeOffset * ns.blockBytes + byte))
            ((cdbInfo.lba.toNat + nvmeOffset) * ns.blockBytes)
            (List.range' 0
              ((cdbInfo.xferLen.toNat - nvmeOffset) * ns.blockBytes)) := by
  induction left with
  | zero =>
      intro turn nvmeOffset _ covered
      rw [Nat.zero_mul] at covered
      refine ⟨[], rfl, trivial, fun w => ?_⟩
      rw [Nat.le_zero.mp covered, Nat.zero_mul]
      exact (World.moved_nil w).symm
  | succ left induction =>
      intro turn nvmeOffset before covered
      generalize isTotal : cdbInfo.xferLen.toNat = total at *
      obtain ⟨count, isCount⟩ : ∃ count,
          min maxBlocks (total - nvmeOffset) = count :=
        ⟨_, rfl⟩
      have within : count ≤ total - nvmeOffset := by omega
      have enough : total - (nvmeOffset + count) ≤ left * maxBlocks := by
        rw [Nat.succ_mul] at covered
        omega
      obtain ⟨units, found, named, moves⟩ := @induction (turn + 1)
        (nvmeOffset + count) (by omega) enough
      have isUnit := @ioUnit_buffer env ns hdr cdbInfo maxBlocks noVectors turn
        nvmeOffset (by omega)
      rw [isTotal, isCount, ← plain] at isUnit
      have bytes : count * ns.blockBytes ≤ total * ns.blockBytes :=
        Nat.mul_le_mul_right _ (by omega)
      have short : count ≤ 2 ^ 16 := by omega
      have last : cdbInfo.lba.toNat + nvmeOffset + count ≤ 2 ^ 64 := by omega
      have names : IoUnit.Names ns (cdbInfo.lba.toNat + nvmeOffset)
          ⟨(hdr.dxferp + ns.blockBytes * nvmeOffset) % 2 ^ 32,
            count * ns.blockBytes,
            count⟩ :=
        ⟨rfl, bytes.trans (by omega), short, last⟩
      refine ⟨_ :: units, ?_, ⟨names, ?_⟩, ?_⟩
      · simp only [ioUnits, isUnit, found, Option.map_some]
      · rw [Nat.add_assoc]
        exact named
      intro w
      have rest :
          total - nvmeOffset = count + (total - (nvmeOffset + count)) := by
        omega
      have start : count ≠ 0 →
          (hdr.dxferp + ns.blockBytes * nvmeOffset) % 2 ^ 32 =
          hdr.dxferp + nvmeOffset * ns.blockBytes := by
        intro some
        have next : (nvmeOffset + 1) * ns.blockBytes ≤ total * ns.blockBytes :=
          Nat.mul_le_mul_right _ (by omega)
        have positive : 0 < ns.blockBytes := plain ▸ Nat.two_pow_pos _
        rw [Nat.succ_mul] at next
        rw [Nat.mul_comm ns.blockBytes, Nat.mod_eq_of_lt (by omega)]
      have first : w.moved opcode
          (fun byte => bufferAddress frames
            ((hdr.dxferp + ns.blockBytes * nvmeOffset) % 2 ^ 32 + byte))
          ((cdbInfo.lba.toNat + nvmeOffset) * ns.blockBytes)
          (List.range' 0 (count * ns.blockBytes)) =
        w.moved opcode
          (fun byte =>
            bufferAddress frames
              (hdr.dxferp + nvmeOffset * ns.blockBytes + byte))
          ((cdbInfo.lba.toNat + nvmeOffset) * ns.blockBytes)
          (List.range' 0 (count * ns.blockBytes)) := by
        by_cases none : count = 0
        · rw [none, Nat.zero_mul, List.range'_zero, World.moved_nil,
            World.moved_nil]
        · rw [start none]
      rw [movedUnits]
      dsimp only
      rw [first, Nat.add_assoc, moves, rest, Nat.add_mul count,
        World.moved_range,
        ← Nat.add_mul, ← Nat.add_assoc]
      simp only [Nat.add_mul, Nat.add_assoc]

end Buffer

section Request

variable {env : SgEnv} {ns : NvmeNs} {hdr hdr' : SgIoHdr} {frames : Nat → Nat}
variable {maxBlocks : Nat} {request : ReadWrite} {size : CdbSize}
    {w after : World}

theorem sumIovLen_error {left : Nat} :
    ∀ {turn sum : Nat}, sumIovLen env ns hdr left turn sum = .error (0, hdr') →
      hdr'.status ≠ samStatGood := by
  induction left with
  | zero =>
      intro turn sum refused
      cases refused
  | succ left induction =>
      intro turn sum refused
      rw [sumIovLen] at refused
      split at refused
      next => cases refused
      next sgl _ =>
      split at refused
      next =>
          have same : _ = hdr' := congrArg Prod.snd (Except.error.inj refused)
          rw [← same]
          change samStatCheckCondition ≠ samStatGood
          decide
      next => exact induction refused

/-- What a successful call has checked, and the commands it has sent. -/
theorem nvmeTransIo_inv (sound : env.Sound ns frames) (fits : request.Fits size)
    {stack : Cdb}
    (ran : nvmeTransIo env ns hdr pageBytes maxBlocks request.isWrite
      (received (request.encode size) stack) w = .ok ((0, hdr'), after))
    (good : hdr'.status = samStatGood) :
    ∃ cdbInfo sum, Decodes request size cdbInfo ∧
      (if 0 < hdr.iovecCount then sumIovLen env ns hdr hdr.iovecCount 0 0
        else .ok hdr.dxferLen) = .ok sum ∧
      min hdr.dxferLen sum = request.blocks * 2 ^ ns.lbaShift % 2 ^ 32 ∧
      (request.blocks = 0 → after = w) ∧
      (request.blocks ≠ 0 → ∃ units,
        ioUnits env ns hdr cdbInfo maxBlocks
          (nvmeTransIoGetNumCmds hdr cdbInfo maxBlocks) 0 0 = some units ∧
        (AllNamed ns (request.decodedLba size) units →
          after = movedUnits (ioOpcode request.isWrite) frames ns
            (request.decodedLba size) units w)) := by
  obtain ⟨cdbInfo, found, decodes⟩ := nvmeTransIoFields_decodes size fits stack
  unfold nvmeTransIo at ran
  rw [found] at ran
  dsimp only at ran
  split at ran
  next done refused =>
      cases ran
      split at refused
      next => exact absurd good (sumIovLen_error refused)
      next => cases refused
  next sum isSum =>
  split at ran
  next => cases ran
  next agree =>
  have bytes :
      min hdr.dxferLen sum = request.blocks * 2 ^ ns.lbaShift % 2 ^ 32 := by
    rw [not_not.mp agree, BitVec.toNat_shiftLeft, decodes.blocks,
      Nat.shiftLeft_eq]
  have none : cdbInfo.xferLen = 0 ↔ request.blocks = 0 := by
    rw [← decodes.blocks]
    exact ⟨fun zero => by rw [zero]; rfl,
      fun zero => BitVec.eq_of_toNat_eq zero⟩
  refine ⟨cdbInfo, sum, decodes, isSum, bytes, ?_, ?_⟩
  · intro zero
    rw [if_pos (none.mpr zero)] at ran
    cases ran
    rfl
  · intro some
    rw [if_neg (fun zero => some (none.mp zero))] at ran
    have moves := ioLoop_moves sound ran good
    rw [decodes.lba] at moves
    exact moves

theorem nvmeTransIoGetNumCmds_covers {cdbInfo : NvmeTransIoCdb}
    (noVectors : hdr.iovecCount = 0) (some : 0 < maxBlocks) :
    cdbInfo.xferLen.toNat ≤
      nvmeTransIoGetNumCmds hdr cdbInfo maxBlocks * maxBlocks := by
  rw [nvmeTransIoGetNumCmds, if_neg (by omega)]
  split
  next =>
      have below := @Nat.lt_div_mul_add (cdbInfo.xferLen.toNat - 1) _ some
      rw [Nat.succ_mul]
      omega
  next => omega

/-- A READ or WRITE of any format with a single buffer that is reported as good
has moved the blocks of the command and the bytes of the buffer, however many
commands it took. -/
theorem transIo_buffer_exact (sound : env.Sound ns frames)
    (fits : request.Fits size)
    {stack : Cdb} (noVectors : hdr.iovecCount = 0)
    (plain : ns.blockBytes = 2 ^ ns.lbaShift)
    (inside : hdr.dxferp + request.blocks * ns.blockBytes ≤ 2 ^ 32)
    (some : 0 < maxBlocks) (short : min maxBlocks request.blocks ≤ 2 ^ 16)
    (noWrap : request.decodedLba size + request.blocks ≤ 2 ^ 64)
    (ran : nvmeTransIo env ns hdr pageBytes maxBlocks request.isWrite
      (received (request.encode size) stack) w = .ok ((0, hdr'), after))
    (good : hdr'.status = samStatGood) :
    hdr.dxferLen = request.blocks * ns.blockBytes % 2 ^ 32 ∧
      after = w.moved (ioOpcode request.isWrite)
        (fun byte => bufferAddress frames (hdr.dxferp + byte))
        (request.decodedLba size * ns.blockBytes)
        (List.range' 0 (request.blocks * ns.blockBytes)) := by
  obtain ⟨cdbInfo, sum, decodes, isSum, bytes, empty, sent⟩ :=
    nvmeTransIo_inv sound fits ran good
  rw [if_neg (by omega)] at isSum
  cases isSum
  rw [Nat.min_self, ← plain] at bytes
  refine ⟨bytes, ?_⟩
  by_cases none : request.blocks = 0
  · rw [empty none, none, Nat.zero_mul, List.range'_zero, World.moved_nil]
  obtain ⟨units, found, moves⟩ := sent none
  rw [← decodes.blocks] at inside short noWrap
  rw [← decodes.lba] at noWrap moves
  obtain ⟨others, same, named, buffer⟩ :=
    @ioUnits_buffer env ns hdr cdbInfo frames maxBlocks noVectors plain
      inside short
      noWrap (ioOpcode request.isWrite) _ 0 0 (Nat.zero_le _)
      (nvmeTransIoGetNumCmds_covers noVectors some)
  rw [found] at same
  cases same
  simp only [Nat.add_zero, Nat.zero_mul, Nat.sub_zero] at named buffer
  rw [moves named, buffer w, decodes.blocks, decodes.lba]

def calmEnv (ns : NvmeNs) (vectors : List SgIovec) : SgEnv where
  lengthPass turn := vectors[turn]?
  ioPass turn := vectors[turn]?
  writable := true
  kernel _ := Kernel.plain
  controller := promptController ns

theorem calmEnv_sound (ns : NvmeNs) (vectors : List SgIovec) :
    (calmEnv ns vectors).Sound ns Kernel.plain.frames where
  kernel _ := Kernel.plain_granted.sound
  frames _ := rfl
  controller := promptController_conforming ns

def freshHdr (iovecCount dxferLen : Nat) : SgIoHdr where
  iovecCount := iovecCount
  dxferLen := dxferLen
  dxferp := 8192
  mxSbLen := 32
  status := 0
  maskedStatus := 0
  hostStatus := 0
  driverStatus := 0
  sbLenWr := 0
  sense := []

def pagedNs : NvmeNs := nvmeRevalidateDisk 1 12 0 false

def longRead : ReadWrite := ⟨false, 1000, 40, true⟩

theorem transIo_buffer_exact_longRead :
    ∃ hdr' after,
      nvmeTransIo (calmEnv pagedNs []) pagedNs (freshHdr 0 163840) pageBytes
          16 false (received (longRead.encode .ten) fun _ => 0) onesWorld =
        .ok ((0, hdr'), after) ∧ hdr'.status = samStatGood ∧
      after = onesWorld.moved .read
        (fun byte => bufferAddress Kernel.plain.frames (8192 + byte))
        (1000 * 4096) (List.range' 0 163840) := by
  have succeeds :
      (nvmeTransIo (calmEnv pagedNs []) pagedNs (freshHdr 0 163840) pageBytes
      16 false (received (longRead.encode .ten) fun _ => 0)
        onesWorld).toOption.map
        (fun done => (done.1.1, done.1.2.status)) = some (0, samStatGood) := by
    decide +kernel
  obtain ⟨⟨⟨status, hdr'⟩, after⟩, ran, seen⟩ := ok_of_toOption_map succeeds
  obtain ⟨rfl, good⟩ := Prod.ext_iff.mp seen
  have exact := transIo_buffer_exact (calmEnv_sound pagedNs [])
    (show longRead.Fits .ten from ⟨by decide, by decide⟩) rfl
    (by decide) (by decide)
    (by decide) (by decide) (by decide) ran good
  exact ⟨hdr', after, ran, good, exact.2⟩

section Vectors

variable {vectors : List SgIovec}

def vectorUnit (ns : NvmeNs) (sgl : SgIovec) : IoUnit :=
  ⟨sgl.iovBase, sgl.iovLen, sgl.iovLen / 2 ^ ns.lbaShift⟩

theorem sumIovLen_ok {left : Nat}
    (reads : ∀ turn, env.lengthPass turn = vectors[turn]?) :
    ∀ {turn sum total : Nat}, turn + left = vectors.length →
      sumIovLen env ns hdr left turn sum = .ok total →
      total = sum + ((vectors.drop turn).map SgIovec.iovLen).sum ∧
        ∀ sgl ∈ vectors.drop turn, sgl.iovLen % 2 ^ ns.lbaShift = 0 := by
  induction left with
  | zero =>
      intro turn sum total ends ran
      cases ran
      rw [List.drop_of_length_le (by omega)]
      simp
  | succ left induction =>
      intro turn sum total ends ran
      have here : turn < vectors.length := by omega
      rw [sumIovLen, reads turn, List.getElem?_eq_getElem here] at ran
      dsimp only at ran
      split at ran
      next => cases ran
      next whole =>
        obtain ⟨isTotal, wholes⟩ := induction (by omega) ran
        rw [List.drop_eq_getElem_cons here]
        refine ⟨?_, ?_⟩
        · rw [isTotal, List.map_cons, List.sum_cons, Nat.add_assoc]
        · intro sgl member
          cases member with
          | head => exact not_not.mp whole
          | tail _ later => exact wholes sgl later

theorem ioUnits_vectors {cdbInfo : NvmeTransIoCdb} {left : Nat}
    (used : 0 < hdr.iovecCount)
    (reads : ∀ turn, env.ioPass turn = vectors[turn]?) :
    ∀ {turn nvmeOffset : Nat}, turn + left = vectors.length →
      ioUnits env ns hdr cdbInfo maxBlocks left turn nvmeOffset =
        some ((vectors.drop turn).map (vectorUnit ns)) := by
  induction left with
  | zero =>
      intro turn nvmeOffset ends
      rw [List.drop_of_length_le (by omega)]
      rfl
  | succ left induction =>
      intro turn nvmeOffset ends
      have here : turn < vectors.length := by omega
      have isUnit : ioUnit env ns hdr cdbInfo maxBlocks turn nvmeOffset =
          some (vectorUnit ns vectors[turn]) := by
        rw [ioUnit, if_pos used, reads turn, List.getElem?_eq_getElem here]
        rfl
      rw [ioUnits, isUnit]
      dsimp only
      rw [induction (by omega), List.drop_eq_getElem_cons here]
      rfl

def vectorBlocks (ns : NvmeNs) (vectors : List SgIovec) : Nat :=
  (vectors.map (fun sgl => sgl.iovLen / 2 ^ ns.lbaShift)).sum

theorem sum_iovLen
    (wholes : ∀ sgl ∈ vectors, sgl.iovLen % 2 ^ ns.lbaShift = 0) :
    (vectors.map SgIovec.iovLen).sum =
      vectorBlocks ns vectors * 2 ^ ns.lbaShift := by
  induction vectors with
  | nil => simp [vectorBlocks]
  | cons sgl rest induction =>
      have whole := Nat.div_mul_cancel (Nat.dvd_of_mod_eq_zero
        (wholes sgl List.mem_cons_self))
      rw [List.map_cons, List.sum_cons,
        induction (fun other member => wholes other (.tail _ member)),
            vectorBlocks,
        vectorBlocks, List.map_cons, List.sum_cons, Nat.add_mul, whole]

theorem allNamed_vectors (plain : ns.blockBytes = 2 ^ ns.lbaShift)
    (wholes : ∀ sgl ∈ vectors, sgl.iovLen % 2 ^ ns.lbaShift = 0)
    (narrow : ∀ sgl ∈ vectors, sgl.iovLen < 2 ^ 32)
    (fit : ∀ sgl ∈ vectors, sgl.iovLen / 2 ^ ns.lbaShift ≤ 2 ^ 16) :
    ∀ {block : Nat}, block + vectorBlocks ns vectors ≤ 2 ^ 64 →
      AllNamed ns block (vectors.map (vectorUnit ns)) := by
  induction vectors with
  | nil =>
      intro block _
      trivial
  | cons sgl rest induction =>
      intro block noWrap
      have head := List.mem_cons_self (a := sgl) (l := rest)
      rw [vectorBlocks, List.map_cons, List.sum_cons] at noWrap
      refine ⟨⟨?_, le_of_lt (narrow sgl head), fit sgl head, ?_⟩, ?_⟩
      · change sgl.iovLen = sgl.iovLen / 2 ^ ns.lbaShift * ns.blockBytes
        rw [plain,
          Nat.div_mul_cancel (Nat.dvd_of_mod_eq_zero (wholes sgl head))]
      · change block + sgl.iovLen / 2 ^ ns.lbaShift ≤ 2 ^ 64
        omega
      · refine induction (fun other member => wholes other (.tail _ member))
          (fun other member => narrow other (.tail _ member))
          (fun other member => fit other (.tail _ member)) ?_
        change block + sgl.iovLen / 2 ^ ns.lbaShift + vectorBlocks ns rest ≤
            2 ^ 64
        rw [vectorBlocks]
        omega

/-- With vectors, a READ or WRITE that is reported as good has moved all of them
one after the other.  These are the blocks of the command exactly when the
vectors together are not longer than the header says, and more blocks else. -/
theorem transIo_vectors_exact_iff (sound : env.Sound ns frames)
    (fits : request.Fits size) {stack : Cdb}
    (reads : ∀ turn, env.lengthPass turn = vectors[turn]? ∧
      env.ioPass turn = vectors[turn]?)
    (count : hdr.iovecCount = vectors.length) (used : vectors ≠ [])
    (plain : ns.blockBytes = 2 ^ ns.lbaShift)
    (some : 0 < request.blocks)
    (small : request.blocks * ns.blockBytes < 2 ^ 32)
    (narrow : ∀ sgl ∈ vectors, sgl.iovLen < 2 ^ 32)
    (fit : ∀ sgl ∈ vectors, sgl.iovLen / 2 ^ ns.lbaShift ≤ 2 ^ 16)
    (noWrap : request.decodedLba size + vectorBlocks ns vectors ≤ 2 ^ 64)
    (ran : nvmeTransIo env ns hdr pageBytes maxBlocks request.isWrite
      (received (request.encode size) stack) w = .ok ((0, hdr'), after))
    (good : hdr'.status = samStatGood) :
    after = movedUnits (ioOpcode request.isWrite) frames ns
      (request.decodedLba size)
        (vectors.map (vectorUnit ns)) w ∧
      request.blocks ≤ vectorBlocks ns vectors ∧
      (vectorBlocks ns vectors = request.blocks ↔
        (vectors.map SgIovec.iovLen).sum ≤ hdr.dxferLen) := by
  have someVectors : 0 < hdr.iovecCount := by
    rw [count]
    exact List.length_pos_of_ne_nil used
  obtain ⟨cdbInfo, sum, decodes, isSum, bytes, _, sent⟩ :=
    nvmeTransIo_inv sound fits ran good
  rw [if_pos someVectors, count] at isSum
  obtain ⟨isTotal, wholes⟩ := sumIovLen_ok (fun turn => (reads turn).1)
    (Nat.zero_add _) isSum
  rw [List.drop_zero] at wholes
  rw [List.drop_zero, Nat.zero_add, sum_iovLen wholes] at isTotal
  obtain ⟨units, found, moves⟩ := sent (by omega)
  rw [nvmeTransIoGetNumCmds, if_pos someVectors, count,
    ioUnits_vectors someVectors (fun turn => (reads turn).2) (Nat.zero_add _),
    List.drop_zero] at found
  cases found
  rw [isTotal, ← plain, Nat.mod_eq_of_lt small] at bytes
  rw [sum_iovLen wholes, ← plain]
  have positive : 0 < ns.blockBytes := plain ▸ Nat.two_pow_pos _
  refine ⟨moves (allNamed_vectors plain wholes narrow fit noWrap), ?_, ?_, ?_⟩
  · refine Nat.le_of_mul_le_mul_right ?_ positive
    omega
  · intro same
    rw [same] at bytes ⊢
    omega
  · intro within
    refine Nat.eq_of_mul_eq_mul_right positive ?_
    omega

def threeBlocks : List SgIovec := [⟨8192, 8192⟩, ⟨65536, 4096⟩]

/-- A READ of two blocks that moves three. -/
theorem transIo_vectors_exact_iff_threeBlocks :
    ∃ hdr' after,
      nvmeTransIo (calmEnv pagedNs threeBlocks) pagedNs (freshHdr 2 8192)
          pageBytes 16 false
            (received ((ReadWrite.mk false 1000 2 false).encode .ten)
            fun _ => 0) onesWorld =
        .ok ((0, hdr'), after) ∧ hdr'.status = samStatGood ∧
      after = movedUnits .read Kernel.plain.frames pagedNs 1000
        (threeBlocks.map (vectorUnit pagedNs)) onesWorld ∧
      vectorBlocks pagedNs threeBlocks ≠ 2 := by
  have succeeds :
      (nvmeTransIo (calmEnv pagedNs threeBlocks) pagedNs (freshHdr 2 8192)
      pageBytes 16 false
        (received ((ReadWrite.mk false 1000 2 false).encode .ten)
        fun _ => 0) onesWorld).toOption.map
        (fun done => (done.1.1, done.1.2.status)) = some (0, samStatGood) := by
    decide +kernel
  obtain ⟨⟨⟨status, hdr'⟩, after⟩, ran, seen⟩ := ok_of_toOption_map succeeds
  obtain ⟨rfl, good⟩ := Prod.ext_iff.mp seen
  obtain ⟨moved, _, whole⟩ :=
    transIo_vectors_exact_iff (calmEnv_sound pagedNs threeBlocks)
    (show (ReadWrite.mk false 1000 2 false).Fits .ten
      from ⟨by decide, by decide⟩)
    (fun _ => ⟨rfl, rfl⟩) rfl (by decide) (by decide) (by decide) (by decide)
    (by decide) (by decide) (by decide) ran good
  refine ⟨hdr', after, ran, good, moved, ?_⟩
  intro same
  exact absurd (whole.mp same) (by decide)

end Vectors

end Request

end Chario.Scsi
