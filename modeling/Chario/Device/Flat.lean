import Chario.Device.Moves

namespace Chario.Device

open Chario.Library
open Chario.Nvme

/-! The character device against a flat block device. -/

structure FlatDevice where
  position : Nat
  bytes : Nat → UInt8
  memory : Nat → UInt8

namespace FlatDevice

structure Reads (place : Nat → Nat) (len : Nat) (before : FlatDevice)
    (value : Int) (after : FlatDevice) : Prop where
  value : value = len
  position : after.position = before.position + len
  bytes : after.bytes = before.bytes
  filled : ∀ byte < len,
    after.memory (place byte) = before.bytes (before.position + byte)
  kept : ∀ address, (∀ byte < len, place byte ≠ address) →
    after.memory address = before.memory address

structure Writes (place : Nat → Nat) (len : Nat) (before : FlatDevice)
    (value : Int) (after : FlatDevice) : Prop where
  value : value = len
  position : after.position = before.position + len
  memory : after.memory = before.memory
  filled : ∀ byte < len,
    after.bytes (before.position + byte) = before.memory (place byte)
  kept : ∀ address,
    address < before.position ∨ before.position + len ≤ address →
    after.bytes address = before.bytes address

inductive Seeks (off : Int) (before : FlatDevice) :
    Whence → Int → FlatDevice → Prop
  | set {target : Nat} (isTarget : off = target) :
      Seeks off before .seekSet target { before with position := target }
  | cur {target : Nat} (isTarget : before.position + off = target) :
      Seeks off before .seekCur target { before with position := target }
  | setBefore (below : off < 0) : Seeks off before .seekSet (-einval) before
  | curBefore (below : before.position + off < 0) :
      Seeks off before .seekCur (-einval) before
  | pastEnd : Seeks off before .seekEnd (-espipe) before
  | unknown {value : Int} : Seeks off before (.other value) (-einval) before

end FlatDevice

structure Call where
  call : FileCall
  frames : Nat → Nat
  services : Nat → Service

def Call.Flat (call : Call) (before : FlatDevice) (value : Int)
    (after : FlatDevice) : Prop :=
  match call.call with
  | .llseek off whence => before.Seeks off whence value after
  | .read buf count =>
      before.Reads (fun byte => bufferAddress call.frames (buf + byte)) count
        value after
  | .write buf count =>
      before.Writes (fun byte => bufferAddress call.frames (buf + byte)) count
        value after
  | .ioctl .readPhys io _ =>
      before.Reads (io.address + ·) io.length value after
  | .ioctl .writePhys io _ =>
      before.Writes (io.address + ·) io.length value after
  | .ioctl (.other _) _ _ => value = -einval ∧ after = before

inductive FlatRun : FlatDevice → List Call → List Int → FlatDevice → Prop
  | nil {device : FlatDevice} : FlatRun device [] [] device
  | cons {before middle after : FlatDevice} {call : Call} {calls : List Call}
      {value : Int} {values : List Int} (step : call.Flat before value middle)
      (rest : FlatRun middle calls values after) :
      FlatRun before (call :: calls) (value :: values) after

/-- The operations one after another on the character device: the values, the
position and the world at the end. -/
def runCalls (ns : NvmeNs) :
    List Call → Int → World → List (Except Halt Int) × Int × World
  | [], fPos, w => ([], fPos, w)
  | call :: calls, fPos, w =>
      ((call.call.run (nvmeExecute ns) pageBytes ns call.services fPos w).result
        :: (runCalls ns calls
          (call.call.run (nvmeExecute ns) pageBytes ns call.services
            fPos w).fPos
          (call.call.run (nvmeExecute ns) pageBytes ns call.services fPos
            w).state).1,
        (runCalls ns calls
          (call.call.run (nvmeExecute ns) pageBytes ns call.services
            fPos w).fPos
          (call.call.run (nvmeExecute ns) pageBytes ns call.services fPos
            w).state).2)

structure WholePages (addr len pos : Nat) : Prop where
  aligned : addr % pageBytes = 0
  whole : len % pageBytes = 0
  small : len < 2 ^ 31
  inWord : addr < 2 ^ 32
  noWrap : addr + len ≤ 2 ^ 32
  inFile : pos + len < 2 ^ 63

/-- Every chunk is granted what it asks for, and the controller executes all its
commands. -/
structure Call.Provided (call : Call) : Prop where
  granted : ∀ chunk, (call.services chunk).kernel.Granted
  executes : ∀ chunk commands,
    ((call.services chunk).order commands).Perm commands

structure Call.UserPages (call : Call) (addr len : Nat) : Prop where
  frames : ∀ chunk, (call.services chunk).kernel.frames = call.frames
  distinct : ∀ page other, addr / pageBytes ≤ page → addr / pageBytes ≤ other →
    page < (addr + len) / pageBytes → other < (addr + len) / pageBytes →
    call.frames page = call.frames other → page = other

def Call.Proper (call : Call) (pos : Nat) : Prop :=
  match call.call with
  | .llseek off _ =>
      off % pageBytes = 0 ∧ -2 ^ 63 ≤ pos + off ∧ pos + off < 2 ^ 63
  | .read buf count =>
      WholePages buf count pos ∧ call.Provided ∧ call.UserPages buf count
  | .write buf count =>
      WholePages buf count pos ∧ call.Provided ∧ call.UserPages buf count
  | .ioctl _ io ioAtEnd =>
      WholePages io.address io.length pos ∧ call.Provided ∧
        ioAtEnd.length = io.length

def FileCall.nextPosition (call : FileCall) (pos : Nat) : Nat :=
  match call with
  | .llseek off whence => (devLlseek off whence pos).2.toNat
  | .read _ count => pos + count
  | .write _ count => pos + count
  | .ioctl .readPhys io _ => pos + io.length
  | .ioctl .writePhys io _ => pos + io.length
  | .ioctl (.other _) _ _ => pos

def ProperRun : Nat → List Call → Prop
  | _, [] => True
  | pos, call :: calls =>
      call.Proper pos ∧ ProperRun (call.call.nextPosition pos) calls

def World.flat (w : World) (pos : Nat) : FlatDevice :=
  ⟨pos, w.device, w.memory⟩

theorem reads_of_moved {place : Nat → Nat} {len : Nat}
    (apart : ((List.range' 0 len).map place).Nodup) (pos : Nat) (w : World) :
    (World.flat w pos).Reads place len len
      (World.flat (w.moved .read place pos (List.range' 0 len))
        (pos + len)) := by
  refine ⟨rfl, rfl, rfl, ?_, ?_⟩
  · intro byte below
    have member : byte ∈ List.range' 0 len :=
      List.mem_range'_1.mpr ⟨Nat.zero_le _, by omega⟩
    refine copyInto_of_mem ?_ (List.mem_map.mpr ⟨byte, member, rfl⟩) w.memory
    rw [List.map_map]
    exact apart
  · intro address outside
    refine copyInto_of_not_mem ?_ w.memory
    rw [List.map_map]
    intro member
    obtain ⟨byte, inside, same⟩ := List.mem_map.mp member
    have below := (List.mem_range'_1.mp inside).2
    exact outside byte (by omega) same

theorem writes_of_moved (place : Nat → Nat) (len pos : Nat) (w : World) :
    (World.flat w pos).Writes place len len
      (World.flat (w.moved .write place pos (List.range' 0 len))
        (pos + len)) := by
  refine ⟨rfl, rfl, rfl, ?_, ?_⟩
  · intro byte below
    have member : byte ∈ List.range' 0 len :=
      List.mem_range'_1.mpr ⟨Nat.zero_le _, by omega⟩
    refine copyInto_of_mem ?_ (List.mem_map.mpr ⟨byte, member, rfl⟩) w.device
    rw [List.map_map]
    exact List.Nodup.map (fun _ _ same => Nat.add_left_cancel same)
      List.nodup_range'
  · intro address outside
    refine copyInto_of_not_mem ?_ w.device
    rw [List.map_map]
    intro member
    obtain ⟨byte, inside, same⟩ := List.mem_map.mp member
    have below := (List.mem_range'_1.mp inside).2
    have here : pos + byte = address := same
    simp only [World.flat] at outside
    omega

theorem bufferAddress_injective {frames : Nat → Nat} {start stop : Nat}
    (aligned : ∀ page, frames page % pageBytes = 0)
    (distinct : ∀ page other, start / pageBytes ≤ page →
      start / pageBytes ≤ other → page < stop / pageBytes →
      other < stop / pageBytes → frames page = frames other → page = other)
    (whole : stop % pageBytes = 0) {byte other : Nat} (after : start ≤ byte)
    (afterOther : start ≤ other) (before : byte < stop)
    (beforeOther : other < stop)
    (same : bufferAddress frames byte = bufferAddress frames other) :
    byte = other := by
  have page := aligned (byte / pageBytes)
  have otherPage := aligned (other / pageBytes)
  unfold bufferAddress at same
  have frame : frames (byte / pageBytes) = frames (other / pageBytes) := by
    unfold pageBytes at *
    omega
  have samePage := distinct (byte / pageBytes) (other / pageBytes)
    (Nat.div_le_div_right after) (Nat.div_le_div_right afterOther)
    (by unfold pageBytes at *; omega) (by unfold pageBytes at *; omega) frame
  unfold pageBytes at *
  omega

theorem apart_of_injective {place : Nat → Nat} {addr len : Nat}
    (injective : ∀ {byte other : Nat}, addr ≤ byte → addr ≤ other →
      byte < addr + len → other < addr + len → place byte = place other →
      byte = other) :
    ((List.range' 0 len).map (fun byte => place (addr + byte))).Nodup := by
  refine List.Nodup.map_on ?_ List.nodup_range'
  intro byte member other memberOther same
  have below := (List.mem_range'_1.mp member).2
  have belowOther := (List.mem_range'_1.mp memberOther).2
  have sameByte := injective (Nat.le_add_right addr byte)
    (Nat.le_add_right addr other) (by omega) (by omega) same
  omega

section Calls

variable {ns : NvmeNs} {call : Call} {addr len pos : Nat}

theorem Call.UserPages.injective (user : call.UserPages addr len)
    (provided : call.Provided)
    (pages : WholePages addr len pos) {byte other : Nat} (after : addr ≤ byte)
    (afterOther : addr ≤ other) (before : byte < addr + len)
    (beforeOther : other < addr + len)
    (same : bufferAddress call.frames byte = bufferAddress call.frames other) :
    byte = other := by
  have aligned : ∀ page, call.frames page % pageBytes = 0 := by
    rw [← user.frames 0]
    exact (provided.granted 0).aligned
  have whole : (addr + len) % pageBytes = 0 := by
    rw [Nat.add_mod, pages.aligned, pages.whole]
    rfl
  exact bufferAddress_injective aligned user.distinct whole after afterOther
    before beforeOther same

variable (paged : PageBlocks ns) (provided : call.Provided)

include paged provided

theorem servesChunks_user (user : call.UserPages addr len)
    (pages : WholePages addr len pos) {command : NvmeOpcode}
    (rw : command = .read ∨ command = .write) :
    ServesChunks (fun chunk buffer len off => submitUserIo (nvmeExecute ns)
        pageBytes ns (call.services chunk) buffer len off command)
      command (bufferAddress call.frames) addr (addr + len) := by
  intro chunk start count place w fits after before
  have bytes : userByte (call.services chunk).kernel =
      bufferAddress call.frames := by
    funext byte
    rw [userByte, user.frames chunk]
  have served := @submitUserIo_served (call.services chunk) start count place
    command ns paged fits (provided.granted chunk) (provided.executes chunk) rw
    (by
      rw [bytes]
      apply apart_of_injective
      intro byte other one two three four same
      exact user.injective provided pages (by omega) (by omega) (by omega)
        (by omega) same) w
  rw [bytes] at served
  exact served

theorem servesChunks_phys {command : NvmeOpcode}
    (rw : command = .read ∨ command = .write) (start : Nat) {stop : Nat}
    (inSpace : stop ≤ 2 ^ 32) :
    ServesChunks (fun chunk address len off => submitPhysChunk (nvmeExecute ns)
        pageBytes ns (call.services chunk) address len off command)
      command id start stop := by
  intro chunk address count place w fits _ before
  exact submitPhysChunk_served paged fits (provided.granted chunk)
    (provided.executes chunk) rw (le_trans before inSpace) w

end Calls

structure Steps (call : Call) (pos : Nat) (w : World) (out : FileOutcome World)
    (value : Int) (after : FlatDevice) : Prop where
  result : out.result = .ok value
  fPos : out.fPos = after.position
  world : out.state = ⟨after.memory, after.bytes⟩
  flat : call.Flat (World.flat w pos) value after
  position : after.position = call.call.nextPosition pos
  onPage : after.position % pageBytes = 0

theorem devLlseek_steps {call : Call} {off : Int} {whence : Whence}
    (isCall : call.call = .llseek off whence) {pos : Nat}
    (proper : call.Proper pos) (onPage : pos % pageBytes = 0) (w : World) :
    ∃ value after, Steps call pos w
      ⟨⟨w, [], .ok (devLlseek off whence pos).1⟩, (devLlseek off whence pos).2⟩
      value after := by
  have whole : (off % (pageBytes : Int) = 0) ∧ -2 ^ 63 ≤ pos + off ∧
      (pos : Int) + off < 2 ^ 63 := by
    simpa only [Call.Proper, isCall] using proper
  -- a target that is not negative
  have moves : ∀ {target : Nat}, (target : Int) % (pageBytes : Int) = 0 →
      devLlseek off whence pos = ((target : Int), (target : Int)) →
      (World.flat w pos).Seeks off whence target (World.flat w target) →
      ∃ value after, Steps call pos w
        ⟨⟨w, [], .ok (devLlseek off whence pos).1⟩,
          (devLlseek off whence pos).2⟩ value after := by
    intro target aligned sought seeks
    refine ⟨target, World.flat w target, ?_, ?_, rfl, ?_, ?_, ?_⟩
    · rw [sought]
    · rw [sought]
      rfl
    · simp only [Call.Flat, isCall]
      exact seeks
    · simp only [FileCall.nextPosition, isCall, sought]
      rfl
    · exact_mod_cast aligned
  -- an error
  have stays : ∀ {value : Int}, devLlseek off whence pos =
      (value, (pos : Int)) →
      (World.flat w pos).Seeks off whence value (World.flat w pos) →
      ∃ value after, Steps call pos w
        ⟨⟨w, [], .ok (devLlseek off whence pos).1⟩,
          (devLlseek off whence pos).2⟩ value after := by
    intro value sought seeks
    refine ⟨value, World.flat w pos, ?_, ?_, rfl, ?_, ?_, onPage⟩
    · rw [sought]
    · rw [sought]
      rfl
    · simp only [Call.Flat, isCall]
      exact seeks
    · simp only [FileCall.nextPosition, isCall, sought]
      rfl
  cases whence with
  | seekSet =>
      by_cases below : off < 0
      · refine stays ?_ (.setBefore below)
        simp only [devLlseek, if_pos below]
      · obtain ⟨target, isTarget⟩ :=
          Int.eq_ofNat_of_zero_le (Int.not_lt.mp below)
        refine @moves target (by rw [← isTarget]; exact whole.1) ?_
          (.set isTarget)
        rw [isTarget] at below
        simp only [devLlseek, isTarget, if_neg below]
  | seekCur =>
      have inFile : toLoff ((pos : Int) + off) = pos + off := by
        unfold toLoff
        omega
      by_cases below : (pos : Int) + off < 0
      · refine stays ?_ (.curBefore below)
        simp only [devLlseek, inFile, if_pos below]
      · obtain ⟨target, isTarget⟩ :=
          Int.eq_ofNat_of_zero_le (Int.not_lt.mp below)
        refine @moves target ?_ ?_ (.cur isTarget)
        · rw [← isTarget]
          have here : (pos : Int) % (pageBytes : Int) = 0 := by
            exact_mod_cast onPage
          have there := whole.1
          unfold pageBytes at *
          omega
        · rw [isTarget] at below inFile
          simp only [devLlseek, isTarget, inFile, if_neg below]
  | seekEnd => exact stays rfl .pastEnd
  | other value => exact stays rfl .unknown

theorem WholePages.onPage {addr len pos : Nat} (pages : WholePages addr len pos)
    (onPage : pos % pageBytes = 0) : (pos + len) % pageBytes = 0 := by
  rw [Nat.add_mod, onPage, pages.whole]
  rfl

/-- A call of which every chunk moves its bytes is a step of the flat device
that moves them all. -/
theorem transfer_steps
    {submit : Nat → Nat → Nat → Int → World → Outcome World}
    {command : NvmeOpcode} {place : Nat → Nat} {call : Call}
    {addr len pos : Nat} (pages : WholePages addr len pos)
    (onPage : pos % pageBytes = 0)
    (position : call.call.nextPosition pos = pos + len)
    (serves : ServesChunks submit command place addr (addr + len)) {w : World}
    (flat : call.Flat (World.flat w pos) len
      (World.flat (w.moved command (fun byte => place (addr + byte)) pos
        (List.range' 0 len)) (pos + len))) :
    ∃ value after,
      Steps call pos w (transfer submit addr len len pos w) value after := by
  obtain ⟨result, fPos, state⟩ := transfer_served serves pages.noWrap
    pages.aligned pages.whole pages.small onPage pages.inFile w
  exact ⟨len, _, result, fPos, state, flat, position.symm, pages.onPage onPage⟩

theorem Call.steps {ns : NvmeNs} (paged : PageBlocks ns) {call : Call}
    {pos : Nat} (proper : call.Proper pos) (onPage : pos % pageBytes = 0)
    (w : World) :
    ∃ value after, Steps call pos w
      (call.call.run (nvmeExecute ns) pageBytes ns call.services pos w)
      value after := by
  cases isCall : call.call with
  | llseek off whence => exact devLlseek_steps isCall proper onPage w
  | read buf count =>
      simp only [Call.Proper, isCall] at proper
      obtain ⟨pages, provided, user⟩ := proper
      apply transfer_steps pages onPage (by rw [isCall]; rfl)
        (servesChunks_user paged provided user pages (.inl rfl))
      simp only [Call.Flat, isCall]
      exact reads_of_moved (apart_of_injective (user.injective provided pages))
        pos w
  | write buf count =>
      simp only [Call.Proper, isCall] at proper
      obtain ⟨pages, provided, user⟩ := proper
      apply transfer_steps pages onPage (by rw [isCall]; rfl)
        (servesChunks_user paged provided user pages (.inr rfl))
      simp only [Call.Flat, isCall]
      exact writes_of_moved _ count pos w
  | ioctl cmd io ioAtEnd =>
      simp only [Call.Proper, isCall] at proper
      obtain ⟨pages, provided, sameLength⟩ := proper
      have bus : io.address % 2 ^ 32 = io.address :=
        Nat.mod_eq_of_lt pages.inWord
      cases cmd with
      | readPhys =>
          simp only [FileCall.run, devIoctl, submitPhysIo, bus, sameLength]
          apply transfer_steps pages onPage (by rw [isCall]; rfl)
            (servesChunks_phys paged provided (.inl rfl) _ pages.noWrap)
          simp only [Call.Flat, isCall]
          exact reads_of_moved
            (@apart_of_injective id _ _ (fun _ _ _ _ same => same)) pos w
      | writePhys =>
          simp only [FileCall.run, devIoctl, submitPhysIo, bus, sameLength]
          apply transfer_steps pages onPage (by rw [isCall]; rfl)
            (servesChunks_phys paged provided (.inr rfl) _ pages.noWrap)
          simp only [Call.Flat, isCall]
          exact writes_of_moved _ io.length pos w
      | other code =>
          refine ⟨-einval, World.flat w pos, rfl, rfl, rfl, ?_, ?_, onPage⟩
          · simp only [Call.Flat, isCall]
            exact ⟨trivial, trivial⟩
          · rw [isCall]
            rfl

/-- The character device refines the flat block device: every sequence of proper
operations returns what the flat device returns and leaves its position, its
bytes and its memory. -/
theorem chardisk_refines_flat (nsId : Nat) (metaExt : Bool) {calls : List Call}
    {pos : Nat} (onPage : pos % pageBytes = 0) (proper : ProperRun pos calls)
    (w : World) :
    ∃ values after,
      runCalls (nvmeRevalidateDisk nsId 12 0 metaExt) calls pos w =
        (values.map .ok, (after.position : Int),
          ⟨after.memory, after.bytes⟩) ∧
      FlatRun (World.flat w pos) calls values after := by
  have paged : PageBlocks (nvmeRevalidateDisk nsId 12 0 metaExt) :=
    ⟨rfl, rfl, rfl⟩
  induction calls generalizing pos w with
  | nil => exact ⟨[], World.flat w pos, rfl, .nil⟩
  | cons call calls induction =>
      obtain ⟨value, middle, steps⟩ := call.steps paged proper.1 onPage w
      have later := proper.2
      rw [← steps.position] at later
      obtain ⟨values, after, ran, rest⟩ :=
        induction steps.onPage later ⟨middle.memory, middle.bytes⟩
      refine ⟨value :: values, after, ?_, .cons steps.flat rest⟩
      rw [runCalls, steps.fPos, steps.world, ran, steps.result]
      rfl

/-- A call served by the plain kernel, with the commands of each chunk executed
last to first. -/
def Call.plain (call : FileCall) : Call :=
  ⟨call, Kernel.plain.frames, fun _ => ⟨Kernel.plain, List.reverse⟩⟩

theorem Call.plain_provided (call : FileCall) : (Call.plain call).Provided :=
  ⟨fun _ => Kernel.plain_granted, fun _ _ => List.reverse_perm _⟩

theorem Call.plain_userPages (call : FileCall) {addr len : Nat}
    (inSpace : addr + len ≤ 2 ^ 32) : (Call.plain call).UserPages addr len := by
  refine ⟨fun _ => rfl, ?_⟩
  intro page other _ _ _ _ same
  simp only [Call.plain, Kernel.plain, pageBytes] at *
  omega

def writeAndReadBack : List Call :=
  [.plain (.write 16777216 4198400), .plain (.llseek (-4198400) .seekCur),
    .plain (.ioctl .readPhys ⟨33554432, 4198400⟩ ⟨33554432, 4198400⟩)]

theorem writeAndReadBack_proper : ProperRun 8192 writeAndReadBack := by
  have bytes : ∀ addr, addr % pageBytes = 0 → addr < 2 ^ 31 →
      WholePages addr 4198400 8192 := by
    intro addr aligned below
    exact ⟨aligned, by decide, by decide, by omega, by omega, by decide⟩
  refine And.intro ⟨bytes _ (by decide) (by decide), Call.plain_provided _,
    Call.plain_userPages _ (by decide)⟩
      (And.intro ⟨by decide, by decide, by decide⟩
      (And.intro ⟨?_, Call.plain_provided _, rfl⟩ trivial))
  exact bytes _ (by decide) (by decide)

theorem chardisk_refines_flat_writeAndReadBack :
    ∃ values after,
      runCalls (nvmeRevalidateDisk 1 12 0 false) writeAndReadBack (8192 : Nat)
          ⟨fun _ => 1, fun _ => 0⟩ =
        (values.map .ok, (after.position : Int),
          ⟨after.memory, after.bytes⟩) ∧
      FlatRun (World.flat ⟨fun _ => 1, fun _ => 0⟩ 8192) writeAndReadBack values
        after :=
  chardisk_refines_flat 1 false (by decide) writeAndReadBack_proper _

end Chario.Device
