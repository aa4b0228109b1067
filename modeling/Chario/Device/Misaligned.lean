import Chario.Device.ChunkRoutes
import Chario.Device.Flat

namespace Chario.Device

open Chario.Library
open Chario.Nvme

/-! Reads and writes that do not start and end on blocks. -/

section Chunk

variable {service : Service} {ns : NvmeNs} {addr len pos : Nat}
variable {command : NvmeOpcode} (formatted : Formatted ns)
variable (positive : 0 < len) (fits : len ≤ maxBytes) (word : addr % 4 = 0)
variable (sound : service.kernel.Sound)
variable (rw : command = .read ∨ command = .write)

include formatted positive fits word sound rw

/-- A chunk that is refused returns an errno. -/
theorem submitUserIo_refused
    (unserved : ¬ ChunkServed service.kernel ns addr len) (offset : Int) :
    ∃ value < 0, ∀ w, (submitUserIo (nvmeExecute ns) pageBytes ns service addr
      len offset command w).result = .ok value := by
  obtain ⟨value, negative, refused⟩ :=
    chunk_refused formatted positive fits word sound rw unserved offset
  refine ⟨value, negative, ?_⟩
  intro w
  rw [submitUserIo, submitChunk, if_neg (by omega), refused]
  rfl

theorem submitUserIo_routes (inFile : pos < 2 ^ 63)
    (perm : ∀ commands, (service.order commands).Perm commands)
    (served : ChunkServed service.kernel ns addr len) :
    ∃ routes, ChunkRoutes ns service.kernel.frames addr (pos / 2 ^ ns.lbaShift)
        ((len - 1) / 2 ^ ns.lbaShift) routes ∧
      ∀ w, (submitUserIo (nvmeExecute ns) pageBytes ns service addr len pos
          command w).result = .ok 0 ∧
        MovesAlong command routes w
          (submitUserIo (nvmeExecute ns) pageBytes ns service addr len pos
            command w).state := by
  obtain ⟨metaDma, prp2, npages, lists, issues, listed⟩ :=
    chunk_issued formatted positive fits word sound rw served pos
  refine ⟨_, @chunk_routes service.kernel ns addr len pos command formatted
    positive fits sound inFile served metaDma prp2 npages lists listed, ?_⟩
  intro w
  have all := serve_all issues perm w
  rw [submitUserIo, submitChunk, if_neg (by omega), issues]
  refine ⟨all.result, ?_⟩
  rw [all.state]
  have opcodes := @userIssued_opcode service.kernel ns
    (charioUio ns addr len pos command) metaDma prp2 npages lists
  exact Issued.movesAlong rw opcodes (perm _) w

end Chunk

def dataByte (ns : NvmeNs) (pos : Nat) : Nat :=
  pos / 2 ^ ns.lbaShift * ns.blockBytes + pos % 2 ^ ns.lbaShift

structure UserCall where
  buf : Nat
  count : Nat
  pos : Nat
  frames : Nat → Nat
  services : Nat → Service

namespace UserCall

def read (ns : NvmeNs) (call : UserCall) (w : World) : FileOutcome World :=
  devRead (nvmeExecute ns) pageBytes ns call.services call.buf call.count
    call.pos w

def write (ns : NvmeNs) (call : UserCall) (w : World) : FileOutcome World :=
  devWrite (nvmeExecute ns) pageBytes ns call.services call.buf call.count
    call.pos w

def place (call : UserCall) (byte : Nat) : Nat :=
  bufferAddress call.frames (call.buf + byte)

structure Delivered (ns : NvmeNs) (call : UserCall) (before after : World) :
    Prop where
  filled : ∀ byte < call.count,
    after.memory (call.place byte) =
      before.device (dataByte ns (call.pos + byte))
  kept : ∀ address, (∀ byte < call.count, call.place byte ≠ address) →
    after.memory address = before.memory address

structure Stored (ns : NvmeNs) (call : UserCall) (before after : World) :
    Prop where
  filled : ∀ byte < call.count,
    after.device (dataByte ns (call.pos + byte)) =
      before.memory (call.place byte)
  kept : ∀ pos, pos < call.pos ∨ call.pos + call.count ≤ pos →
    after.device (dataByte ns pos) = before.device (dataByte ns pos)

end UserCall

def FileOutcome.Fails {σ : Type} (out : FileOutcome σ) : Prop :=
  ∃ value < 0, out.result = .ok value

namespace UserCall

def ReadHonoured (ns : NvmeNs) (call : UserCall) : Prop :=
  ∀ w, (call.read ns w).Fails ∨ call.Delivered ns w (call.read ns w).state

def WriteHonoured (ns : NvmeNs) (call : UserCall) : Prop :=
  ∀ w, (call.write ns w).Fails ∨ call.Stored ns w (call.write ns w).state

structure Parts (call first second : UserCall) : Prop where
  count : first.count + second.count = call.count
  firstBuf : first.buf = call.buf
  firstPos : first.pos = call.pos
  firstFrames : first.frames = call.frames
  secondBuf : second.buf = call.buf + first.count
  secondPos : second.pos = call.pos + first.count
  secondFrames : second.frames = call.frames

/-- A read returns the data that reads of its parts return, if they all
succeed. -/
def PartsAgree (ns : NvmeNs) (call : UserCall) : Prop :=
  ∀ {first second}, Parts call first second → ∀ w,
    ¬ (call.read ns w).Fails → ¬ (first.read ns w).Fails →
    ¬ (second.read ns (first.read ns w).state).Fails →
    ∀ byte < call.count,
      (call.read ns w).state.memory (call.place byte) =
        (second.read ns (first.read ns w).state).state.memory (call.place byte)

structure Honoured (ns : NvmeNs) (call : UserCall) : Prop where
  read : call.ReadHonoured ns
  write : call.WriteHonoured ns
  parts : call.PartsAgree ns

def addr (call : UserCall) (index : Nat) : Nat := call.buf + maxBytes * index

def len (call : UserCall) (index : Nat) : Nat :=
  windowSize maxBytes call.count index

def Refused (ns : NvmeNs) (call : UserCall) : Prop :=
  ∃ index < chunkCount call.count,
    ¬ ChunkServed (call.services index).kernel ns (call.addr index)
      (call.len index)

/-- A call that the VFS lets through, with a word-aligned buffer, of which
position or length is not a number of blocks. -/
structure Misaligned (ns : NvmeNs) (call : UserCall) : Prop where
  formatted : Formatted ns
  sound : ∀ chunk, (call.services chunk).kernel.Sound
  frames : ∀ chunk, (call.services chunk).kernel.frames = call.frames
  executes : ∀ chunk commands,
    ((call.services chunk).order commands).Perm commands
  word : call.buf % 4 = 0
  some : 0 < call.count
  cut : call.count ≤ maxRwCount
  noWrap : call.buf + call.count ≤ 2 ^ 32
  inFile : call.pos + call.count < 2 ^ 63
  offBlock : call.pos % 2 ^ ns.lbaShift ≠ 0 ∨ call.count % 2 ^ ns.lbaShift ≠ 0

/-- The pages of the buffer, and of as many bytes after it as a block has, are
different pages of memory. -/
def PagesApart (ns : NvmeNs) (call : UserCall) : Prop :=
  ∀ page other, call.buf / pageBytes ≤ page → call.buf / pageBytes ≤ other →
    page ≤ (call.buf + call.count + ns.blockBytes) / pageBytes →
    other ≤ (call.buf + call.count + ns.blockBytes) / pageBytes →
    call.frames page = call.frames other → page = other

end UserCall

section Transfer

variable {σ : Type} {submit : Nat → Nat → Nat → Int → σ → Outcome σ}
variable {address count : Nat} (countAtEnd : Nat) {fPos : Int} {s : σ}

theorem transfer_fails {value : Int} (negative : value < 0)
    (result : (chunkLoop submit count 0 count address fPos s).result =
      .ok value) :
    (transfer submit address count countAtEnd fPos s).Fails := by
  refine ⟨value, negative, ?_⟩
  unfold transfer
  split
  next isZero =>
      cases result.symm.trans isZero
      omega
  next => exact result

theorem transfer_succeeds
    (result : (chunkLoop submit count 0 count address fPos s).result = .ok 0) :
    (transfer submit address count countAtEnd fPos s).result =
        .ok (toSsize countAtEnd) ∧
      (transfer submit address count countAtEnd fPos s).state =
        (chunkLoop submit count 0 count address fPos s).state := by
  unfold transfer
  split
  next => exact ⟨rfl, rfl⟩
  next nonzero => exact absurd result nonzero

end Transfer

namespace UserCall

def submit (ns : NvmeNs) (command : NvmeOpcode) (call : UserCall)
    (chunk buffer len : Nat) (off : Int) (w : World) : Outcome World :=
  submitUserIo (nvmeExecute ns) pageBytes ns (call.services chunk) buffer len
    off command w

def Routed (ns : NvmeNs) (call : UserCall)
    (routes : Nat → Nat → Nat → Prop) : Prop :=
  ∀ index < chunkCount call.count,
    ChunkRoutes ns call.frames (call.addr index)
      ((call.pos + maxBytes * index) / 2 ^ ns.lbaShift)
      ((call.len index - 1) / 2 ^ ns.lbaShift) (routes index)

section Run

variable {ns : NvmeNs} {call : UserCall} (misaligned : call.Misaligned ns)
variable {command : NvmeOpcode}

include misaligned

theorem Misaligned.chunkStep_eq {index : Nat}
    (inside : maxBytes * index < call.count) (w : World) :
    chunkStep (call.submit ns command) call.buf call.count call.pos index w =
      submitUserIo (nvmeExecute ns) pageBytes ns (call.services index)
        (call.addr index) (call.len index) (call.pos + maxBytes * index : Nat)
        command w := by
  have noWrap := misaligned.noWrap
  have inFile := misaligned.inFile
  have pointer : (call.buf + maxBytes * index) % 2 ^ 32 = call.addr index :=
    Nat.mod_eq_of_lt (by omega)
  have offset : toLoff ((call.pos : Int) + maxBytes * index) =
      (call.pos + maxBytes * index : Nat) := by
    rw [← toLoff_eq (show call.pos + maxBytes * index < 2 ^ 63 by omega)]
    push_cast
    rfl
  rw [chunkStep, pointer, offset]
  rfl

theorem Misaligned.addr_word (index : Nat) : call.addr index % 4 = 0 := by
  have word := misaligned.word
  unfold addr maxBytes
  omega

variable (rw : command = .read ∨ command = .write)

include rw

theorem Misaligned.chunk_refused {index : Nat}
    (inside : maxBytes * index < call.count)
    (unserved : ¬ ChunkServed (call.services index).kernel ns (call.addr index)
      (call.len index)) :
    ∃ value < 0, ∀ w, (chunkStep (call.submit ns command) call.buf call.count
      call.pos index w).result = .ok value := by
  obtain ⟨some, fits⟩ := chunkAt_len inside
  obtain ⟨value, negative, refused⟩ := submitUserIo_refused misaligned.formatted
    some fits (misaligned.addr_word index) (misaligned.sound index) rw unserved
    (call.pos + maxBytes * index : Nat)
  refine ⟨value, negative, ?_⟩
  intro w
  rw [misaligned.chunkStep_eq inside]
  exact refused w

theorem Misaligned.chunk_routes {index : Nat}
    (inside : maxBytes * index < call.count)
    (served : ChunkServed (call.services index).kernel ns (call.addr index)
      (call.len index)) :
    ∃ routes, ChunkRoutes ns call.frames (call.addr index)
        ((call.pos + maxBytes * index) / 2 ^ ns.lbaShift)
        ((call.len index - 1) / 2 ^ ns.lbaShift) routes ∧
      ∀ w,
        (chunkStep (call.submit ns command) call.buf call.count call.pos index
          w).result = .ok 0 ∧
        MovesAlong command routes w
          (chunkStep (call.submit ns command) call.buf call.count call.pos index
            w).state := by
  have inFile := misaligned.inFile
  obtain ⟨some, fits⟩ := chunkAt_len inside
  obtain ⟨routes, areRoutes, moves⟩ := submitUserIo_routes misaligned.formatted
    some fits (misaligned.addr_word index) (misaligned.sound index) rw
    (show call.pos + maxBytes * index < 2 ^ 63 by omega)
    (misaligned.executes index) served
  rw [misaligned.frames index] at areRoutes
  refine ⟨routes, areRoutes, ?_⟩
  intro w
  rw [misaligned.chunkStep_eq inside]
  exact moves w

theorem Misaligned.chunk_result (index : Nat) :
    ∃ value : Int, maxBytes * index < call.count →
      (∀ w, (chunkStep (call.submit ns command) call.buf call.count call.pos
        index w).result = .ok value) ∧
      (value = 0 ↔ ChunkServed (call.services index).kernel ns
        (call.addr index) (call.len index)) := by
  by_cases inside : maxBytes * index < call.count
  · by_cases served : ChunkServed (call.services index).kernel ns
      (call.addr index) (call.len index)
    · obtain ⟨_, _, moves⟩ := misaligned.chunk_routes rw inside served
      exact ⟨0, fun _ => ⟨fun w => (moves w).1,
        ⟨fun _ => served, fun _ => rfl⟩⟩⟩
    · obtain ⟨value, negative, refused⟩ :=
        misaligned.chunk_refused rw inside served
      exact ⟨value, fun _ => ⟨refused,
        ⟨fun isZero => by omega, fun isServed => absurd isServed served⟩⟩⟩
  · exact ⟨0, fun within => absurd within inside⟩

theorem Misaligned.ends (w : World) :
    ∃ results issued value,
      (∀ index < chunkCount call.count, results index = 0 ↔
        ChunkServed (call.services index).kernel ns (call.addr index)
          (call.len index)) ∧
      ChunksEnd results (chunkCount call.count) issued value ∧
      (chunkLoop (call.submit ns command) call.count 0 call.count call.buf
        call.pos w).result = .ok value ∧
      (chunkLoop (call.submit ns command) call.count 0 call.count call.buf
        call.pos w).state =
        chunksBefore (call.submit ns command) call.buf call.count
          call.pos issued
          w := by
  have noWrap := misaligned.noWrap
  have some := misaligned.some
  have inFile := misaligned.inFile
  choose results each using fun index =>
    @Misaligned.chunk_result ns call misaligned command rw index
  obtain ⟨issued, value, ended, returned, state⟩ := chunkLoop_ends
    (fun inside => (each _ inside).1) (by omega) (toLoff_eq (by omega)) some w
  refine ⟨results, issued, value, ?_, ended, returned, state⟩
  intro index below
  exact (each index (inside_of_lt (le_refl _) below)).2

/-- A call with a chunk that is refused fails. -/
theorem Misaligned.fails (refused : call.Refused ns) (w : World) :
    (transfer (call.submit ns command) call.buf call.count call.count call.pos
      w).Fails := by
  obtain ⟨results, issued, value, served, ended, returned, _⟩ :=
    misaligned.ends rw w
  obtain ⟨index, below, unserved⟩ := refused
  have nonzero : value ≠ 0 := fun isZero => unserved ((served index below).mp
    (ended.value_eq_zero_iff.mp isZero index below))
  have nonpositive := ended.value_le_zero
  exact transfer_fails call.count (by omega) returned

/-- A call of which all chunks are served does not fail, and moves bytes along
the routes of its chunks. -/
theorem Misaligned.routed (unrefused : ¬ call.Refused ns) :
    ∃ routes, call.Routed ns routes ∧ ∀ w,
      ¬ (transfer (call.submit ns command) call.buf call.count call.count
        call.pos w).Fails ∧
      MovesAlong command
        (fun address medium => ∃ index ∈ List.range (chunkCount call.count),
          routes index address medium) w
        (transfer (call.submit ns command) call.buf call.count call.count
          call.pos w).state := by
  have allServed : ∀ index < chunkCount call.count,
      ChunkServed (call.services index).kernel ns (call.addr index)
        (call.len index) := by
    intro index below
    by_contra unserved
    exact unrefused ⟨index, below, unserved⟩
  choose! routes routed moves using fun (index : Nat)
      (below : index < chunkCount call.count) =>
    @Misaligned.chunk_routes ns call misaligned command rw index
      (inside_of_lt (le_refl _) below) (allServed index below)
  refine ⟨routes, routed, ?_⟩
  intro w
  obtain ⟨results, issued, value, served, ended, returned, state⟩ :=
    misaligned.ends rw w
  have isZero : value = 0 := ended.value_eq_zero_iff.mpr
    (fun index below => (served index below).mpr (allServed index below))
  rw [isZero] at returned
  rw [ended.issued_eq isZero] at state
  have done := transfer_succeeds call.count returned
  refine ⟨?_, ?_⟩
  · rintro ⟨errno, negative, isErrno⟩
    rw [done.1, toSsize_eq misaligned.cut] at isErrno
    cases isErrno
    omega
  · rw [done.2, state]
    apply MovesAlong.foldl
    intro index member w
    exact (moves index (List.mem_range.mp member) w).2

end Run

end UserCall

section Numbers

variable (ns : NvmeNs)

theorem le_blockBytes : 2 ^ ns.lbaShift ≤ ns.blockBytes := by
  rw [NvmeNs.blockBytes]
  exact Nat.le_add_right _ _

theorem dataByte_block (pos : Nat) :
    dataByte ns pos / ns.blockBytes = pos / 2 ^ ns.lbaShift := by
  have size : 0 < 2 ^ ns.lbaShift := Nat.two_pow_pos _
  have block := le_blockBytes ns
  have inside : pos % 2 ^ ns.lbaShift < ns.blockBytes :=
    lt_of_lt_of_le (Nat.mod_lt _ size) block
  rw [dataByte, Nat.mul_comm, Nat.mul_add_div (by omega),
    Nat.div_eq_of_lt inside, Nat.add_zero]

theorem dataByte_sameBlock {pos : Nat}
    (inside : (pos + 1) % 2 ^ ns.lbaShift ≠ 0) :
    dataByte ns (pos + 1) / ns.blockBytes =
      dataByte ns pos / ns.blockBytes := by
  rw [dataByte_block, dataByte_block]
  exact Nat.succ_div_of_not_dvd (fun divides => inside
    (Nat.mod_eq_zero_of_dvd divides))

theorem Formatted.maxBytes_eq {ns : NvmeNs} (formatted : Formatted ns) :
    ∃ blocks, 64 ≤ blocks ∧ maxBytes = 2 ^ ns.lbaShift * blocks := by
  have shift := formatted.shift.2
  refine ⟨2 ^ (22 - ns.lbaShift), ?_, ?_⟩
  · exact Nat.pow_le_pow_right (show 0 < 2 by decide)
      (show 6 ≤ 22 - ns.lbaShift by omega)
  · rw [← Nat.pow_add, Nat.add_sub_cancel' (by omega)]
    rfl

theorem Formatted.sectors {ns : NvmeNs} (formatted : Formatted ns) :
    2 ^ ns.lbaShift = 512 * 2 ^ (ns.lbaShift - 9) := by
  rw [show 512 = 2 ^ 9 from rfl, ← Nat.pow_add,
    Nat.add_sub_cancel' formatted.shift.1]

end Numbers

namespace UserCall

section Routes

variable {ns : NvmeNs} {call : UserCall} {routes : Nat → Nat → Nat → Prop}

def Joins (call : UserCall) (routes : Nat → Nat → Nat → Prop)
    (address medium : Nat) : Prop :=
  ∃ index ∈ List.range (chunkCount call.count), routes index address medium

section Read

variable (honoured : call.ReadHonoured ns)
variable (moves : ∀ w, ¬ (call.read ns w).Fails ∧
  MovesAlong .read (call.Joins routes) w (call.read ns w).state)

include honoured moves

theorem ReadHonoured.delivered (w : World) :
    call.Delivered ns w (call.read ns w).state :=
  (honoured w).resolve_left (moves w).1

theorem ReadHonoured.joins {byte : Nat} (inside : byte < call.count) :
    call.Joins routes (call.place byte) (dataByte ns (call.pos + byte)) :=
  route_of_exact (show (1 : UInt8) ≠ 0 by decide)
    (fun source cells => (moves ⟨cells, source⟩).2.gathers)
    (fun source cells =>
      (honoured.delivered moves ⟨cells, source⟩).filled byte inside)

theorem ReadHonoured.inside {address medium : Nat}
    (joins : call.Joins routes address medium) :
    ∃ byte < call.count, call.place byte = address := by
  by_contra outside
  refine not_route_of_kept (show (1 : UInt8) ≠ 0 by decide)
    (fun source cells => (moves ⟨cells, source⟩).2.gathers) ?_ medium joins
  intro source cells
  apply (honoured.delivered moves ⟨cells, source⟩).kept
  intro byte inside same
  exact outside ⟨byte, inside, same⟩

end Read

section Write

variable (honoured : call.WriteHonoured ns)
variable (moves : ∀ w, ¬ (call.write ns w).Fails ∧
  MovesAlong .write (call.Joins routes) w (call.write ns w).state)

include honoured moves

theorem WriteHonoured.stored (w : World) :
    call.Stored ns w (call.write ns w).state :=
  (honoured w).resolve_left (moves w).1

theorem WriteHonoured.joins {byte : Nat} (inside : byte < call.count) :
    call.Joins routes (call.place byte) (dataByte ns (call.pos + byte)) :=
  @route_of_exact Nat Nat UInt8 (fun medium address =>
    call.Joins routes address medium) 1 0
    (fun source cells => (call.write ns ⟨source, cells⟩).state.device)
    (by decide) (fun source cells => (moves ⟨source, cells⟩).2.gathers) _ _
    (fun source cells =>
      (honoured.stored moves ⟨source, cells⟩).filled byte inside)

theorem WriteHonoured.inside {address pos : Nat}
    (joins : call.Joins routes address (dataByte ns pos)) :
    call.pos ≤ pos ∧ pos < call.pos + call.count := by
  by_contra outside
  refine @not_route_of_kept Nat Nat UInt8 (fun medium address =>
    call.Joins routes address medium) 1 0
    (fun source cells => (call.write ns ⟨source, cells⟩).state.device)
    (by decide) (fun source cells => (moves ⟨source, cells⟩).2.gathers)
    (dataByte ns pos) ?_ address joins
  intro source cells
  exact (honoured.stored moves ⟨source, cells⟩).kept pos (by omega)

end Write

end Routes

section OnBlocks

variable {ns : NvmeNs} {call : UserCall} {routes : Nat → Nat → Nat → Prop}
variable (routed : call.Routed ns routes)

include routed

theorem Joins.whole {address medium other : Nat}
    (joins : call.Joins routes address medium)
    (same : other / ns.blockBytes = medium / ns.blockBytes) :
    ∃ place, call.Joins routes place other := by
  obtain ⟨index, member, route⟩ := joins
  obtain ⟨place, joined⟩ :=
    (routed index (List.mem_range.mp member)).whole route same
  exact ⟨place, index, member, joined⟩

/-- A write that is honoured starts and ends on blocks: with a byte of a block,
the others of the block are written. -/
theorem WriteHonoured.onBlocks (honoured : call.WriteHonoured ns)
    (moves : ∀ w, ¬ (call.write ns w).Fails ∧
      MovesAlong .write (call.Joins routes) w (call.write ns w).state)
    (some : 0 < call.count) :
    call.pos % 2 ^ ns.lbaShift = 0 ∧ call.count % 2 ^ ns.lbaShift = 0 := by
  have starts : call.pos % 2 ^ ns.lbaShift = 0 := by
    by_contra off
    obtain ⟨before, isPos⟩ := Nat.exists_eq_succ_of_ne_zero
      (show call.pos ≠ 0 by
        intro isZero
        rw [isZero] at off
        exact off (Nat.zero_mod _))
    have joins := honoured.joins moves some
    rw [Nat.add_zero, isPos] at joins
    rw [isPos] at off
    obtain ⟨place, joined⟩ :=
      joins.whole routed (dataByte_sameBlock ns off).symm
    have inside := (honoured.inside moves joined).1
    omega
  have ends : (call.pos + call.count) % 2 ^ ns.lbaShift = 0 := by
    by_contra off
    obtain ⟨last, isCount⟩ := Nat.exists_eq_succ_of_ne_zero
      (show call.count ≠ 0 by omega)
    have joins := honoured.joins moves (show last < call.count by omega)
    rw [isCount, Nat.succ_eq_add_one, ← Nat.add_assoc] at off
    obtain ⟨place, joined⟩ := joins.whole routed (dataByte_sameBlock ns off)
    have inside := (honoured.inside moves joined).2
    omega
  refine ⟨starts, ?_⟩
  rwa [Nat.add_mod, starts, Nat.zero_add, Nat.mod_mod] at ends

theorem Routed.zero (some : 0 < call.count) :
    ChunkRoutes ns call.frames call.buf (call.pos / 2 ^ ns.lbaShift)
      ((call.len 0 - 1) / 2 ^ ns.lbaShift) (routes 0) :=
  routed 0 (by
    unfold chunkCount maxBytes
    omega)

theorem Joins.first (formatted : Formatted ns) {address medium : Nat}
    (joins : call.Joins routes address medium)
    (early : medium / ns.blockBytes < call.pos / 2 ^ ns.lbaShift + 64) :
    routes 0 address medium := by
  obtain ⟨index, member, route⟩ := joins
  have block := (routed index (List.mem_range.mp member)).block route
  obtain ⟨blocks, many, isMax⟩ := formatted.maxBytes_eq
  rw [isMax, Nat.mul_assoc, Nat.add_mul_div_left _ _ (Nat.two_pow_pos _)]
    at block
  have isFirst : index = 0 := by
    by_contra later
    have far : 64 * 1 ≤ blocks * index :=
      Nat.mul_le_mul many (Nat.pos_of_ne_zero later)
    omega
  rwa [isFirst] at route

end OnBlocks

theorem place_page (call : UserCall) {pages : Nat} (some : 1 ≤ pages) :
    call.place (pages * pageBytes - call.buf % pageBytes) =
      call.frames (call.buf / pageBytes + pages) := by
  have offset : call.buf + (pages * pageBytes - call.buf % pageBytes) =
      (call.buf / pageBytes + pages) * pageBytes := by
    unfold pageBytes
    omega
  rw [place, offset, bufferAddress, Nat.mul_div_cancel _ (by decide),
    Nat.mul_mod_left, Nat.add_zero]

theorem PagesApart.injective {ns : NvmeNs} {call : UserCall}
    (apart : call.PagesApart ns)
    (aligned : ∀ page, call.frames page % pageBytes = 0) {byte other : Nat}
    (below : byte ≤ call.count + ns.blockBytes)
    (otherBelow : other ≤ call.count + ns.blockBytes)
    (same : call.place byte = call.place other) : byte = other := by
  have last : ((call.buf + call.count + ns.blockBytes) / pageBytes + 1) *
      pageBytes / pageBytes =
      (call.buf + call.count + ns.blockBytes) / pageBytes + 1 :=
    Nat.mul_div_cancel _ (by decide)
  have equal := @bufferAddress_injective call.frames call.buf
    (((call.buf + call.count + ns.blockBytes) / pageBytes + 1) * pageBytes)
    aligned (by
      intro page otherPage after afterOther before beforeOther
      rw [last] at before beforeOther
      exact apart page otherPage after afterOther (by omega) (by omega))
    (Nat.mul_mod_left _ _) (call.buf + byte) (call.buf + other) (by omega)
    (by omega) (by unfold pageBytes; omega) (by unfold pageBytes; omega) same
  omega

section Read

variable {ns : NvmeNs} {call : UserCall} {routes : Nat → Nat → Nat → Prop}
variable (honoured : call.ReadHonoured ns)
variable (moves : ∀ w, ¬ (call.read ns w).Fails ∧
  MovesAlong .read (call.Joins routes) w (call.read ns w).state)
variable (apart : call.PagesApart ns)
variable (aligned : ∀ page, call.frames page % pageBytes = 0)

include honoured moves apart aligned

theorem ReadHonoured.not_after {medium : Nat} :
    ¬ call.Joins routes (call.place call.count) medium := by
  intro joins
  obtain ⟨byte, inside, same⟩ := honoured.inside moves joins
  have equal := apart.injective aligned (by omega) (by omega) same
  omega

variable (routed : call.Routed ns routes) (formatted : Formatted ns)
variable (some : 0 < call.count)

include routed formatted some

theorem ReadHonoured.first {byte index : Nat} (inside : byte < call.count)
    (isIndex : dataByte ns (call.pos + byte) =
      call.pos / 2 ^ ns.lbaShift * ns.blockBytes + index)
    (few : index ≤ ns.blockBytes)
    (transferred : index <
      ((call.len 0 - 1) / 2 ^ ns.lbaShift + 1) * ns.blockBytes) :
    byte = index := by
  have size : 512 ≤ ns.blockBytes :=
    le_trans (Nat.pow_le_pow_right (show 0 < 2 by decide) formatted.shift.1)
      (le_blockBytes ns)
  have joins := honoured.joins moves inside
  rw [isIndex] at joins
  have early : (call.pos / 2 ^ ns.lbaShift * ns.blockBytes + index) /
      ns.blockBytes < call.pos / 2 ^ ns.lbaShift + 64 := by
    rw [Nat.mul_comm, Nat.mul_add_div (by omega), Nat.add_lt_add_iff_left,
      Nat.div_lt_iff_lt_mul (by omega)]
    omega
  have route := joins.first routed formatted early
  have place : call.place byte = call.place index :=
    (routed.zero some).first route transferred (by
      unfold pageBytes
      omega)
  exact apart.injective aligned (by omega) (by omega) place

theorem ReadHonoured.starts : call.pos % 2 ^ ns.lbaShift = 0 := by
  have block := le_blockBytes ns
  have inBlock := Nat.mod_lt call.pos (Nat.two_pow_pos ns.lbaShift)
  have equal :=
    honoured.first moves apart aligned routed formatted some some rfl
    (by omega) (lt_of_lt_of_le (lt_of_lt_of_le inBlock block)
      (Nat.le_mul_of_pos_left _ (Nat.succ_pos _)))
  exact equal.symm

theorem ReadHonoured.plain (more : 1 ≤ (call.len 0 - 1) / 2 ^ ns.lbaShift) :
    2 ^ ns.lbaShift = ns.blockBytes := by
  have starts := honoured.starts moves apart aligned routed formatted some
  have size : 0 < 2 ^ ns.lbaShift := Nat.two_pow_pos _
  have block := le_blockBytes ns
  have inside : 2 ^ ns.lbaShift < call.count := by
    rw [Nat.le_div_iff_mul_le size] at more
    unfold len windowSize at more
    omega
  refine honoured.first moves apart aligned routed formatted some inside ?_
    (le_refl _) ?_
  · rw [dataByte, Nat.add_div_right _ size, Nat.add_mod_right, starts,
      Nat.add_zero, Nat.succ_mul]
  · have twice := Nat.mul_le_mul_right ns.blockBytes
      (Nat.add_le_add_right more 1)
    omega

/-- A call of one command ends on a block: what it transfers beyond the buffer
is read. -/
theorem ReadHonoured.ends_short
    (short : (call.len 0 - 1) / 2 ^ ns.lbaShift ≤ 31) :
    call.count % 2 ^ ns.lbaShift = 0 := by
  have size : 0 < 2 ^ ns.lbaShift := Nat.two_pow_pos _
  have high : 2 ^ ns.lbaShift ≤ 2 ^ 16 :=
    Nat.pow_le_pow_right (by decide) formatted.shift.2
  have only : call.len 0 = call.count := by
    have within := (Nat.div_lt_iff_lt_mul size).mp (Nat.lt_succ_of_le short)
    unfold len windowSize maxBytes at *
    omega
  by_contra off
  obtain ⟨last, isCount⟩ := Nat.exists_eq_succ_of_ne_zero
    (show call.count ≠ 0 by omega)
  have sameBlock : (call.count - 1) / 2 ^ ns.lbaShift =
      call.count / 2 ^ ns.lbaShift := by
    rw [isCount] at off ⊢
    exact (Nat.succ_div_of_not_dvd
      (fun divides => off (Nat.mod_eq_zero_of_dvd divides))).symm
  have overrun : call.count <
      ((call.len 0 - 1) / 2 ^ ns.lbaShift + 1) * ns.blockBytes := by
    rw [only, sameBlock]
    exact lt_of_lt_of_le (Nat.lt_mul_of_div_lt (Nat.lt_succ_self _) size)
      (Nat.mul_le_mul_left _ (le_blockBytes ns))
  have route := (routed.zero some).single short overrun
  exact honoured.not_after moves apart aligned ⟨0, by
    rw [List.mem_range]
    unfold chunkCount maxBytes
    omega, route⟩

/-- A call of more than one command has blocks and a buffer of whole pages: the
second command starts at page 32 of the buffer. -/
theorem ReadHonoured.paged (long : 32 ≤ (call.len 0 - 1) / 2 ^ ns.lbaShift) :
    2 ^ ns.lbaShift = pageBytes ∧ call.buf % pageBytes = 0 := by
  have starts := honoured.starts moves apart aligned routed formatted some
  have plain := honoured.plain moves apart aligned routed formatted some
    (by omega)
  have size : 0 < 2 ^ ns.lbaShift := Nat.two_pow_pos _
  have inChunk := (Nat.le_div_iff_mul_le size).mp long
  have inside : 32 * 2 ^ ns.lbaShift < call.count := by
    unfold len windowSize at inChunk
    omega
  have isMedium : dataByte ns (call.pos + 32 * 2 ^ ns.lbaShift) =
      (call.pos / 2 ^ ns.lbaShift + 32) * ns.blockBytes := by
    rw [dataByte, Nat.add_mul_div_right _ _ size, Nat.add_mul_mod_self_right,
      starts, Nat.add_zero]
  have joins := honoured.joins moves inside
  have block := dataByte_block ns (call.pos + 32 * 2 ^ ns.lbaShift)
  rw [Nat.add_mul_div_right _ _ size] at block
  have route := joins.first routed formatted (by omega)
  rw [isMedium] at route
  obtain ⟨atPage, within⟩ := (routed.zero some).second long route
  have total : ((call.len 0 - 1) / 2 ^ ns.lbaShift + 1) * ns.blockBytes ≤
      call.count + ns.blockBytes := by
    have whole := Nat.div_mul_le_self (call.len 0 - 1) (2 ^ ns.lbaShift)
    rw [← plain, Nat.succ_mul]
    unfold len windowSize at *
    omega
  have equal := apart.injective aligned (by omega) (by
    unfold pageCount headBytes pageBytes at *
    omega) (atPage.trans (call.place_page (show 1 ≤ 32 by decide)).symm)
  have sectors := formatted.sectors
  unfold pageBytes at *
  omega

theorem ReadHonoured.ends_long
    (long : 32 ≤ (call.len 0 - 1) / 2 ^ ns.lbaShift) :
    call.count % 2 ^ ns.lbaShift = 0 := by
  obtain ⟨isPage, onPage⟩ := honoured.paged moves apart aligned routed formatted
    some long
  have plain := honoured.plain moves apart aligned routed formatted some
    (by omega)
  by_contra off
  obtain ⟨index, isLast⟩ : ∃ index, index = chunkCount call.count - 1 :=
    ⟨_, rfl⟩
  have below : index < chunkCount call.count := by
    unfold chunkCount maxBytes at *
    omega
  have last := routed index below
  rw [isPage] at off last
  have stop : call.addr index + call.len index = call.buf + call.count := by
    unfold addr len windowSize chunkCount maxBytes at *
    omega
  have overrun : call.len index <
      ((call.len index - 1) / pageBytes + 1) * ns.blockBytes := by
    rw [← plain, isPage]
    unfold len windowSize chunkCount maxBytes pageBytes at *
    omega
  have route := last.paged (plain.symm.trans isPage) (by
    unfold addr maxBytes pageBytes at *
    omega) (by
    unfold len windowSize maxBytes pageBytes
    omega) overrun
  rw [stop] at route
  exact honoured.not_after moves apart aligned
    ⟨index, List.mem_range.mpr below, route⟩

theorem ReadHonoured.onBlocks :
    call.pos % 2 ^ ns.lbaShift = 0 ∧ call.count % 2 ^ ns.lbaShift = 0 := by
  refine ⟨honoured.starts moves apart aligned routed formatted some, ?_⟩
  by_cases short : (call.len 0 - 1) / 2 ^ ns.lbaShift ≤ 31
  · exact honoured.ends_short moves apart aligned routed formatted some short
  · exact honoured.ends_long moves apart aligned routed formatted
      some (by omega)

end Read

section Honoured

variable {ns : NvmeNs} {call : UserCall} (misaligned : call.Misaligned ns)

include misaligned

theorem Misaligned.not_readHonoured (apart : call.PagesApart ns)
    (unrefused : ¬ call.Refused ns) : ¬ call.ReadHonoured ns := by
  intro honoured
  obtain ⟨routes, routed, moves⟩ := misaligned.routed (.inl rfl) unrefused
  have aligned : ∀ page, call.frames page % pageBytes = 0 := by
    rw [← misaligned.frames 0]
    exact (misaligned.sound 0).aligned
  obtain ⟨starts, ends⟩ := honoured.onBlocks moves apart aligned routed
    misaligned.formatted misaligned.some
  exact misaligned.offBlock.elim (fun off => off starts) (fun off => off ends)

theorem Misaligned.not_writeHonoured (unrefused : ¬ call.Refused ns) :
    ¬ call.WriteHonoured ns := by
  intro honoured
  obtain ⟨routes, routed, moves⟩ := misaligned.routed (.inr rfl) unrefused
  obtain ⟨starts, ends⟩ := honoured.onBlocks routed moves misaligned.some
  exact misaligned.offBlock.elim (fun off => off starts) (fun off => off ends)

theorem Misaligned.read_fails (refused : call.Refused ns) (w : World) :
    (call.read ns w).Fails :=
  misaligned.fails (.inl rfl) refused w

theorem Misaligned.write_fails (refused : call.Refused ns) (w : World) :
    (call.write ns w).Fails :=
  misaligned.fails (.inr rfl) refused w

theorem Misaligned.honoured (refused : call.Refused ns) : call.Honoured ns where
  read w := .inl (misaligned.read_fails refused w)
  write w := .inl (misaligned.write_fails refused w)
  parts _ w succeeds := absurd (misaligned.read_fails refused w) succeeds

end Honoured

/-- A request that does not start and end on blocks is honoured exactly when it
is refused. -/
theorem misaligned_honoured_iff_refused {ns : NvmeNs} {call : UserCall}
    (misaligned : call.Misaligned ns) :
    (call.Honoured ns ↔ call.Refused ns) ∧
      (call.WriteHonoured ns ↔ call.Refused ns) ∧
      (call.PagesApart ns → (call.ReadHonoured ns ↔ call.Refused ns)) := by
  have write : call.WriteHonoured ns → call.Refused ns := by
    intro honoured
    by_contra unrefused
    exact misaligned.not_writeHonoured unrefused honoured
  refine ⟨⟨fun honoured => write honoured.write, misaligned.honoured⟩,
    ⟨write, fun refused => (misaligned.honoured refused).write⟩, ?_⟩
  intro apart
  refine ⟨?_, fun refused => (misaligned.honoured refused).read⟩
  intro honoured
  by_contra unrefused
  exact misaligned.not_readHonoured apart unrefused honoured

def message : UserCall :=
  ⟨65536, 256, 0, Kernel.plain.frames, fun _ => ⟨Kernel.plain, List.reverse⟩⟩

theorem message_misaligned :
    message.Misaligned (nvmeRevalidateDisk 1 12 0 false) where
  formatted :=
    nvmeRevalidateDisk_formatted 1 false (.inr (by decide)) (by decide)
  sound _ := Kernel.plain_granted.sound
  frames _ := rfl
  executes _ _ := List.reverse_perm _
  word := by decide
  some := by decide
  cut := by decide
  noWrap := by decide
  inFile := by decide
  offBlock := .inr (by decide)

theorem message_pagesApart :
    message.PagesApart (nvmeRevalidateDisk 1 12 0 false) := by
  intro page other _ inside _ insideOther same
  have block : (nvmeRevalidateDisk 1 12 0 false).blockBytes = 4096 := rfl
  simp only [block, message, Kernel.plain, pageBytes] at *
  omega

theorem message_unrefused :
    ¬ message.Refused (nvmeRevalidateDisk 1 12 0 false) := by
  rintro ⟨index, _, unserved⟩
  exact unserved
    ⟨fun extra => absurd rfl extra, Kernel.plain_granted.mapsUser _ _,
    Kernel.plain_granted.pools.enough _⟩

theorem misaligned_honoured_iff_refused_message :
    ¬ message.Refused (nvmeRevalidateDisk 1 12 0 false) ∧
      (message.Honoured (nvmeRevalidateDisk 1 12 0 false) ↔
        message.Refused (nvmeRevalidateDisk 1 12 0 false)) ∧
      (message.WriteHonoured (nvmeRevalidateDisk 1 12 0 false) ↔
        message.Refused (nvmeRevalidateDisk 1 12 0 false)) ∧
      (message.ReadHonoured (nvmeRevalidateDisk 1 12 0 false) ↔
        message.Refused (nvmeRevalidateDisk 1 12 0 false)) := by
  obtain ⟨all, write, read⟩ :=
    misaligned_honoured_iff_refused message_misaligned
  exact ⟨message_unrefused, all, write, read message_pagesApart⟩

/-- The read changes memory after the buffer, and the write changes the file
after the message. -/
theorem message_not_honoured :
    ¬ message.ReadHonoured (nvmeRevalidateDisk 1 12 0 false) ∧
      ¬ message.WriteHonoured (nvmeRevalidateDisk 1 12 0 false) :=
  ⟨message_misaligned.not_readHonoured message_pagesApart message_unrefused,
    message_misaligned.not_writeHonoured message_unrefused⟩

end UserCall

end Chario.Device
