import Chario.Libchario.Calls
import Mathlib.Tactic.MkIffOfInductiveProp

namespace Chario.Libchario.Calls

open Chario.Device
open Chario.Library

/-! Whether a load or a flush that returns zero has moved the bytes of its
ranges. -/

structure Placed where
  range : CharioBlocksRange
  position : Nat
  bytes : Nat
deriving DecidableEq, Repr

def sought (reply : Reply) (position : Nat) (offset : Int) : Nat :=
  if reply.seeks ∧ 0 ≤ offset then offset.toNat else position

/-- The transfers of the ranges as the replies let them go, with the position
carried on from one to the next. -/
def placed (build : Build) (buffer : Nat) : Nat → List Answered → List Placed
  | _, [] => []
  | position, (range, reply) :: ranges =>
      let request := range.request build buffer
      let first := sought reply position request.seek
      let bytes := reply.bytes request.length
      ⟨range, first, bytes⟩ ::
        placed build buffer (if reply.fails then first else first + bytes)
          ranges

@[simp] theorem placed_ranges (build : Build) (buffer position : Nat)
    (ranges : List Answered) :
    (placed build buffer position ranges).map Placed.range =
      ranges.map Prod.fst := by
  induction ranges generalizing position with
  | nil => rfl
  | cons range ranges induction =>
      rw [placed, List.map_cons, induction, List.map_cons]

inductive Origin where
  | memory (address : Nat)
  | device (place : Nat)
deriving DecidableEq, Repr

def Origin.value (memory bytes : Nat → UInt8) : Origin → UInt8
  | .memory address => memory address
  | .device place => bytes place

theorem Origin.eq_of_value {origin other : Origin}
    (same : ∀ memory bytes,
      origin.value memory bytes = other.value memory bytes) :
    origin = other := by
  -- a one at the second origin only
  have marked := same
    (fun address => if other = .memory address then 1 else 0)
    (fun place => if other = .device place then 1 else 0)
  by_contra different
  have here : other.value
      (fun address => if other = .memory address then 1 else 0)
      (fun place => if other = .device place then 1 else 0) = 1 := by
    cases other with
    | memory address => exact if_pos rfl
    | device place => exact if_pos rfl
  have there : origin.value
      (fun address => if other = .memory address then 1 else 0)
      (fun place => if other = .device place then 1 else 0) = 0 := by
    cases origin with
    | memory address => exact if_neg (Ne.symm different)
    | device place => exact if_neg (Ne.symm different)
  rw [here, there] at marked
  cases marked

namespace Placed

variable (build : Build) (buffer : Nat) (transfer : Placed)

def loadWindow : Window Origin where
  start := build.address buffer transfer.range
  length := transfer.bytes
  content byte := .device (transfer.position + byte)

def flushWindow : Window Origin where
  start := transfer.position
  length := transfer.bytes
  content byte := .memory (build.address buffer transfer.range + byte)

end Placed

section Runs

variable (build : Build) (buffer : Nat)

def loadOrigin (transfers : List Placed) : Nat → Origin :=
  (transfers.map (Placed.loadWindow build buffer)).foldl Window.fill .memory

def flushOrigin (transfers : List Placed) : Nat → Origin :=
  (transfers.map (Placed.flushWindow build buffer)).foldl Window.fill .device

theorem Reply.lseek_eq (reply : Reply) (device : FlatDevice) (offset : Int) :
    (reply.lseek device offset).2 =
      { device with position := sought reply device.position offset } := by
  unfold Reply.lseek sought FlatDevice.lseek
  by_cases works : reply.seeks ∧ 0 ≤ offset
  · rw [if_pos works, if_pos works, if_neg (Int.not_lt.mpr works.2)]
  · rw [if_neg works, if_neg works]

theorem Reply.settle_eq (reply : Reply) (count : Nat)
    (before after : FlatDevice) :
    (reply.settle count before after).2 = { after with
      position :=
        if reply.fails then before.position else after.position } := by
  unfold Reply.settle
  split <;> rfl

/-- A load fills in the windows of its transfers with the bytes of the device.
The memory named in the origins does not matter: no window takes from it. -/
theorem foldl_loadRange (memory : Nat → UInt8) (ranges : List Answered)
    (progress : Progress) :
    (ranges.foldl (loadRange build buffer) progress).device.bytes =
        progress.device.bytes ∧
      (ranges.foldl (loadRange build buffer) progress).device.memory =
        (((placed build buffer progress.device.position ranges).map
            (Placed.loadWindow build buffer)).map
          (Window.map (Origin.value memory progress.device.bytes))).foldl
          Window.fill progress.device.memory := by
  induction ranges generalizing progress with
  | nil => exact ⟨rfl, rfl⟩
  | cons range ranges induction =>
      have first : (loadRange build buffer progress range).device =
          (range.2.read { progress.device with
              position := sought range.2 progress.device.position
                (range.1.request build buffer).seek }
            (range.1.request build buffer).address
            (range.1.request build buffer).length).2 := by
        rw [← Reply.lseek_eq]
        rfl
      rw [Reply.read, Reply.settle_eq] at first
      obtain ⟨bytes, filled⟩ :=
        induction (loadRange build buffer progress range)
      rw [first] at bytes filled
      exact ⟨bytes, filled⟩

theorem foldl_flushRange (bytes : Nat → UInt8) (ranges : List Answered)
    (progress : Progress) :
    (ranges.foldl (flushRange build buffer) progress).device.memory =
        progress.device.memory ∧
      (ranges.foldl (flushRange build buffer) progress).device.bytes =
        (((placed build buffer progress.device.position ranges).map
            (Placed.flushWindow build buffer)).map
          (Window.map (Origin.value progress.device.memory bytes))).foldl
          Window.fill progress.device.bytes := by
  induction ranges generalizing progress with
  | nil => exact ⟨rfl, rfl⟩
  | cons range ranges induction =>
      have first : (flushRange build buffer progress range).device =
          (range.2.write { progress.device with
              position := sought range.2 progress.device.position
                (range.1.request build buffer).seek }
            (range.1.request build buffer).address
            (range.1.request build buffer).length).2 := by
        rw [← Reply.lseek_eq]
        rfl
      rw [Reply.write, Reply.settle_eq] at first
      obtain ⟨memory, filled⟩ :=
        induction (flushRange build buffer progress range)
      rw [first] at memory filled
      exact ⟨memory, filled⟩

theorem loaded_memory (ranges : List Answered) (progress : Progress)
    (address : Nat) :
    (ranges.foldl (loadRange build buffer) progress).device.memory address =
      (loadOrigin build buffer
        (placed build buffer progress.device.position ranges) address).value
          progress.device.memory progress.device.bytes := by
  rw [(foldl_loadRange build buffer progress.device.memory ranges progress).2]
  exact Window.foldl_fill_map
    (Origin.value progress.device.memory progress.device.bytes) _ .memory _

theorem flushed_bytes (ranges : List Answered) (progress : Progress)
    (place : Nat) :
    (ranges.foldl (flushRange build buffer) progress).device.bytes place =
      (flushOrigin build buffer
        (placed build buffer progress.device.position ranges) place).value
          progress.device.memory progress.device.bytes := by
  rw [(foldl_flushRange build buffer progress.device.bytes ranges progress).2]
  exact Window.foldl_fill_map
    (Origin.value progress.device.memory progress.device.bytes) _ .device _

end Runs

/-! Success as a caller may take it. -/

/-- Byte `byte` of the range belongs at `place` on the device. -/
def IsPlace (range : CharioBlocksRange) (byte place : Nat) : Prop :=
  (place : Int) = charioBlockSize * range.start + byte

theorem IsPlace.unique {range : CharioBlocksRange} {byte place other : Nat}
    (isPlace : IsPlace range byte place) (isOther : IsPlace range byte other) :
    place = other :=
  Int.natCast_inj.mp (isPlace.trans isOther.symm)

def cell (build : Build) (buffer : Nat) (range : CharioBlocksRange)
    (byte : Nat) : Nat :=
  (((build.base buffer : Int) + range.bufferOffset + byte) % 2 ^ 32).toNat

/-- The library before a call, with the given contents of the memory and of the
device. -/
def holding (lib : LibState) (memory bytes : Nat → UInt8) : LibState :=
  { lib with device := ⟨lib.device.position, bytes, memory⟩ }

def Loaded (build : Build) (task : CharioTask) (lib : LibState) : Prop :=
  ∀ range ∈ task.ranges, ∀ byte < range.length, ∃ place,
    IsPlace range byte place ∧
      lib.device.memory (cell build lib.buffer range byte) =
        lib.device.bytes place

@[mk_iff]
structure Flushed (build : Build) (task : CharioTask) (before : Nat → UInt8)
    (lib : LibState) : Prop where
  filled : ∀ range ∈ task.ranges, ∀ byte < range.length, ∃ place,
    IsPlace range byte place ∧
      lib.device.bytes place =
        lib.device.memory (cell build lib.buffer range byte)
  kept : ∀ place,
    (∀ range ∈ task.ranges, ∀ byte < range.length,
      ¬ IsPlace range byte place) →
    lib.device.bytes place = before place

/-- Under these replies a load returns zero only if it happened, whatever the
device and the memory held. -/
def LoadHonest (build : Build) (lib : LibState) (task : CharioTask)
    (replies : Nat → Reply) : Prop :=
  ∀ memory bytes,
    (charioLoadBlocksForTask build (holding lib memory bytes) task
      replies).1 = 0 →
    Loaded build task (charioLoadBlocksForTask build (holding lib memory bytes)
      task replies).2.1

def FlushHonest (build : Build) (lib : LibState) (task : CharioTask)
    (replies : Nat → Reply) : Prop :=
  ∀ memory bytes,
    (charioFlushBlocksForTask build (holding lib memory bytes) task
      replies).1 = 0 →
    Flushed build task bytes (charioFlushBlocksForTask build
      (holding lib memory bytes) task replies).2.1

def transfersOf (build : Build) (lib : LibState) (task : CharioTask)
    (replies : Nat → Reply) : List Placed :=
  placed build lib.buffer lib.device.position (answered task.ranges replies)

def LoadRouted (build : Build) (buffer : Nat) (task : CharioTask)
    (transfers : List Placed) : Prop :=
  ∀ range ∈ task.ranges, ∀ byte < range.length, ∃ place,
    IsPlace range byte place ∧
      loadOrigin build buffer transfers (cell build buffer range byte) =
        .device place

structure FlushRouted (build : Build) (buffer : Nat) (task : CharioTask)
    (transfers : List Placed) : Prop where
  filled : ∀ range ∈ task.ranges, ∀ byte < range.length, ∃ place,
    IsPlace range byte place ∧
      flushOrigin build buffer transfers place =
        .memory (cell build buffer range byte)
  kept : ∀ place,
    (∀ range ∈ task.ranges, ∀ byte < range.length,
      ¬ IsPlace range byte place) →
    flushOrigin build buffer transfers place = .device place

section Honest

variable {build : Build} {lib : LibState} {task : CharioTask}
variable {replies : Nat → Reply}

theorem holding_opened (memory bytes : Nat → UInt8) :
    (holding lib memory bytes).Opened ↔ lib.Opened :=
  ⟨fun opened => ⟨opened.fd, opened.buffer⟩,
    fun opened => ⟨opened.fd, opened.buffer⟩⟩

theorem load_opened (opened : lib.Opened) (memory bytes : Nat → UInt8) :
    (charioLoadBlocksForTask build (holding lib memory bytes) task
        replies).1 = 0 ∧
      (Loaded build task (charioLoadBlocksForTask build
          (holding lib memory bytes) task replies).2.1 ↔
        ∀ range ∈ task.ranges, ∀ byte < range.length, ∃ place,
          IsPlace range byte place ∧
            (loadOrigin build lib.buffer (transfersOf build lib task replies)
              (cell build lib.buffer range byte)).value memory bytes =
                bytes place) := by
  rw [charioLoadBlocksForTask,
    forEachRange_opened ((holding_opened memory bytes).mpr opened)]
  refine ⟨rfl, ?_⟩
  have kept := (foldl_loadRange build lib.buffer memory
    (answered task.ranges replies) ⟨(holding lib memory bytes).device, []⟩).1
  have brought := loaded_memory build lib.buffer
    (answered task.ranges replies) ⟨(holding lib memory bytes).device, []⟩
  unfold Loaded
  simp only [holding] at kept brought ⊢
  simp only [brought, kept]
  rfl

theorem flush_opened (opened : lib.Opened) (memory bytes : Nat → UInt8) :
    (charioFlushBlocksForTask build (holding lib memory bytes) task
        replies).1 = 0 ∧
      (Flushed build task bytes (charioFlushBlocksForTask build
          (holding lib memory bytes) task replies).2.1 ↔
        (∀ range ∈ task.ranges, ∀ byte < range.length, ∃ place,
          IsPlace range byte place ∧
            (flushOrigin build lib.buffer (transfersOf build lib task replies)
              place).value memory bytes =
                memory (cell build lib.buffer range byte)) ∧
        ∀ place,
          (∀ range ∈ task.ranges, ∀ byte < range.length,
            ¬ IsPlace range byte place) →
          (flushOrigin build lib.buffer (transfersOf build lib task replies)
            place).value memory bytes = bytes place) := by
  rw [charioFlushBlocksForTask,
    forEachRange_opened ((holding_opened memory bytes).mpr opened)]
  refine ⟨rfl, ?_⟩
  have kept := (foldl_flushRange build lib.buffer bytes
    (answered task.ranges replies) ⟨(holding lib memory bytes).device, []⟩).1
  have brought := flushed_bytes build lib.buffer
    (answered task.ranges replies) ⟨(holding lib memory bytes).device, []⟩
  rw [flushed_iff]
  simp only [holding] at kept brought ⊢
  simp only [brought, kept]
  rfl

theorem loadHonest_iff_routed :
    LoadHonest build lib task replies ↔
      ¬ lib.Opened ∨
        LoadRouted build lib.buffer task
          (transfersOf build lib task replies) := by
  by_cases opened : lib.Opened
  · constructor
    · intro honest
      refine .inr ?_
      have loaded : ∀ memory bytes, _ := fun memory bytes =>
        (load_opened opened memory bytes).2.mp
          (honest memory bytes (load_opened opened memory bytes).1)
      intro range member byte below
      obtain ⟨place, isPlace, _⟩ :=
        loaded (fun _ => 0) (fun _ => 0) range member byte below
      refine ⟨place, isPlace, Origin.eq_of_value ?_⟩
      intro memory bytes
      obtain ⟨other, isOther, same⟩ :=
        loaded memory bytes range member byte below
      rw [same, isOther.unique isPlace]
      rfl
    · rintro (closed | routed)
      · exact absurd opened closed
      · intro memory bytes _
        refine (load_opened opened memory bytes).2.mpr ?_
        intro range member byte below
        obtain ⟨place, isPlace, origin⟩ := routed range member byte below
        exact ⟨place, isPlace, by rw [origin]; rfl⟩
  · refine ⟨fun _ => .inl opened, fun _ memory bytes success => ?_⟩
    rw [charioLoadBlocksForTask, forEachRange_closed
      (mt (holding_opened memory bytes).mp opened)] at success
    cases success

theorem flushHonest_iff_routed :
    FlushHonest build lib task replies ↔
      ¬ lib.Opened ∨
        FlushRouted build lib.buffer task
          (transfersOf build lib task replies) := by
  by_cases opened : lib.Opened
  · constructor
    · intro honest
      refine .inr ?_
      have flushed : ∀ memory bytes, _ := fun memory bytes =>
        (flush_opened opened memory bytes).2.mp
          (honest memory bytes (flush_opened opened memory bytes).1)
      refine ⟨?_, ?_⟩
      · intro range member byte below
        obtain ⟨place, isPlace, _⟩ :=
          (flushed (fun _ => 0) (fun _ => 0)).1 range member byte below
        refine ⟨place, isPlace, Origin.eq_of_value ?_⟩
        intro memory bytes
        obtain ⟨other, isOther, same⟩ :=
          (flushed memory bytes).1 range member byte below
        rw [← isOther.unique isPlace, same]
        rfl
      · intro place outside
        refine Origin.eq_of_value ?_
        intro memory bytes
        exact (flushed memory bytes).2 place outside
    · rintro (closed | routed)
      · exact absurd opened closed
      · intro memory bytes _
        refine (flush_opened opened memory bytes).2.mpr ⟨?_, ?_⟩
        · intro range member byte below
          obtain ⟨place, isPlace, origin⟩ :=
            routed.filled range member byte below
          exact ⟨place, isPlace, by rw [origin]; rfl⟩
        · intro place outside
          rw [routed.kept place outside]
          rfl
  · refine ⟨fun _ => .inl opened, fun _ memory bytes success => ?_⟩
    rw [charioFlushBlocksForTask, forEachRange_closed
      (mt (holding_opened memory bytes).mp opened)] at success
    cases success

end Honest

/-! Tasks whose ranges lie in the buffer beside each other. -/

/-- The ranges share no byte of the buffer. -/
def AreasApart (range other : CharioBlocksRange) : Prop :=
  ∀ byte < range.length, ∀ there < other.length,
    range.bufferOffset + (byte : Int) ≠ other.bufferOffset + (there : Int)

structure Laid (buffer : Nat) (task : CharioTask) : Prop where
  allocated : Allocated buffer
  inside : ∀ range ∈ task.ranges,
    0 ≤ range.bufferOffset ∧ range.bufferOffset % 8 = 0 ∧
      range.bufferOffset + range.length ≤ ddrSize
  apart : task.ranges.Pairwise AreasApart

def AllMoved (transfers : List Placed) : Prop :=
  ∀ transfer ∈ transfers, 0 < transfer.range.length →
    (transfer.position : Int) = charioBlockSize * transfer.range.start ∧
      transfer.bytes = transfer.range.length

def PlacesApart (task : CharioTask) : Prop :=
  task.ranges.Pairwise fun range other =>
    ∀ byte < range.length, ∀ there < other.length, ∀ place,
      IsPlace range byte place → ¬ IsPlace other there place

structure TransfersFor (task : CharioTask) (transfers : List Placed) :
    Prop where
  ranges : transfers.map Placed.range = task.ranges
  bounded : ∀ transfer ∈ transfers, transfer.bytes ≤ transfer.range.size

theorem placed_bounded (build : Build) (buffer position : Nat)
    (ranges : List Answered) :
    ∀ transfer ∈ placed build buffer position ranges,
      transfer.bytes ≤ transfer.range.size := by
  induction ranges generalizing position with
  | nil =>
      intro transfer member
      cases member
  | cons range ranges induction =>
      intro transfer member
      cases List.mem_cons.mp member with
      | inl same =>
          subst same
          exact Nat.min_le_right _ _
      | inr later => exact induction _ transfer later

theorem transfersOf_for (build : Build) (lib : LibState) (task : CharioTask)
    (replies : Nat → Reply) :
    TransfersFor task (transfersOf build lib task replies) where
  ranges := by
    rw [transfersOf, placed_ranges, answered_ranges]
  bounded := placed_bounded _ _ _ _

namespace Laid

variable {build : Build} {buffer : Nat} {task : CharioTask}
variable {transfers : List Placed}

theorem size_eq (laid : Laid buffer task) {range : CharioBlocksRange}
    (member : range ∈ task.ranges) : range.size = range.length := by
  obtain ⟨notNegative, _, ends⟩ := laid.inside range member
  unfold ddrSize at ends
  rw [CharioBlocksRange.size, Nat.mul_comm]
  refine Nat.mod_eq_of_lt ?_
  change range.length < _
  omega

theorem cell_eq (laid : Laid buffer task) {range : CharioBlocksRange}
    (member : range ∈ task.ranges) {byte : Nat} (below : byte < range.length) :
    cell build buffer range byte = build.address buffer range + byte ∧
      (cell build buffer range byte : Int) =
        build.base buffer + (range.bufferOffset + byte) := by
  obtain ⟨notNegative, onWord, ends⟩ := laid.inside range member
  have room := laid.allocated.room
  obtain ⟨offset, isOffset⟩ := Int.eq_ofNat_of_zero_le notNegative
  have address : build.address buffer range = build.base buffer + offset := by
    have same : range = ⟨range.start, range.count, offset⟩ := by
      rw [← isOffset]
    rw [same]
    exact laid.allocated.address_eq (by omega) (by omega) _ _
  have fits : build.base buffer + ddrSize ≤ 2 ^ 32 := by
    cases build with
    | ordinary => exact room
    | usePhys =>
        change ddrStart + ddrSize ≤ _
        decide
  rw [address, cell, isOffset]
  constructor <;> omega

theorem member_range (isFor : TransfersFor task transfers)
    {transfer : Placed} (member : transfer ∈ transfers) :
    transfer.range ∈ task.ranges := by
  rw [← isFor.ranges]
  exact List.mem_map_of_mem member

theorem bytes_le (laid : Laid buffer task) (isFor : TransfersFor task transfers)
    {transfer : Placed} (member : transfer ∈ transfers) :
    transfer.bytes ≤ transfer.range.length := by
  rw [← laid.size_eq (member_range isFor member)]
  exact isFor.bounded transfer member

theorem same_of_cell (laid : Laid buffer task)
    (isFor : TransfersFor task transfers) {transfer other : Placed}
    (member : transfer ∈ transfers) (memberThere : other ∈ transfers)
    {byte there : Nat} (below : byte < transfer.range.length)
    (belowThere : there < other.range.length)
    (same : cell build buffer transfer.range byte =
      cell build buffer other.range there) :
    transfer = other ∧ byte = there := by
  have here := (@cell_eq build _ _ laid _ (member_range isFor member) _ below).2
  have away := (@cell_eq build _ _ laid _ (member_range isFor memberThere) _
    belowThere).2
  have sameOffset : transfer.range.bufferOffset + (byte : Int) =
      other.range.bufferOffset + there := by
    rw [same] at here
    omega
  have apart := laid.apart
  rw [← isFor.ranges, List.pairwise_map] at apart
  have sameTransfer : transfer = other := by
    have : Std.Symm fun first second : Placed =>
        AreasApart first.range second.range :=
      ⟨fun _ _ areApart byte below there belowThere equal =>
        areApart there belowThere byte below equal.symm⟩
    by_contra different
    exact apart.forall member memberThere different byte below there belowThere
      sameOffset
  refine ⟨sameTransfer, ?_⟩
  subst sameTransfer
  omega

theorem loadOrigin_device (laid : Laid buffer task)
    (isFor : TransfersFor task transfers) {transfer : Placed}
    (member : transfer ∈ transfers) {byte place : Nat}
    (below : byte < transfer.range.length)
    (brought : loadOrigin build buffer transfers
      (cell build buffer transfer.range byte) = .device place) :
    byte < transfer.bytes ∧ place = transfer.position + byte := by
  cases Window.foldl_fill_cases
      (transfers.map (Placed.loadWindow build buffer)) .memory
      (cell build buffer transfer.range byte) with
  | inl kept =>
      rw [loadOrigin, kept] at brought
      cases brought
  | inr filled =>
      obtain ⟨window, isWindow, ⟨above, before⟩, content⟩ := filled
      obtain ⟨other, memberThere, rfl⟩ := List.mem_map.mp isWindow
      obtain ⟨there, isThere⟩ := Nat.exists_eq_add_of_le above
      change _ = build.address buffer other.range + there at isThere
      change _ < build.address buffer other.range + other.bytes at before
      have inBytes : there < other.bytes := by omega
      have inRange :=
        Nat.lt_of_lt_of_le inBytes (laid.bytes_le isFor memberThere)
      have ofOther :=
        (@cell_eq build _ _ laid _ (member_range isFor memberThere) _ inRange).1
      obtain ⟨rfl, rfl⟩ := laid.same_of_cell isFor member memberThere below
        inRange (isThere.trans ofOther.symm)
      refine ⟨inBytes, ?_⟩
      rw [loadOrigin, content, isThere] at brought
      change Origin.device (transfer.position +
        (build.address buffer transfer.range + byte -
          build.address buffer transfer.range)) = _ at brought
      rw [Nat.add_sub_cancel_left] at brought
      exact (Origin.device.inj brought).symm

/-- The byte of the buffer that a flush leaves in a place of the device is
brought by the transfer of its range. -/
theorem flushOrigin_memory (laid : Laid buffer task)
    (isFor : TransfersFor task transfers) {transfer : Placed}
    (member : transfer ∈ transfers) {byte place : Nat}
    (below : byte < transfer.range.length)
    (brought : flushOrigin build buffer transfers place =
      .memory (cell build buffer transfer.range byte)) :
    byte < transfer.bytes ∧ place = transfer.position + byte := by
  cases Window.foldl_fill_cases
      (transfers.map (Placed.flushWindow build buffer)) .device place with
  | inl kept =>
      rw [flushOrigin, kept] at brought
      cases brought
  | inr filled =>
      obtain ⟨window, isWindow, ⟨above, before⟩, content⟩ := filled
      obtain ⟨other, memberThere, rfl⟩ := List.mem_map.mp isWindow
      obtain ⟨there, isThere⟩ := Nat.exists_eq_add_of_le above
      change place = other.position + there at isThere
      change _ < other.position + other.bytes at before
      have inBytes : there < other.bytes := by omega
      have inRange :=
        Nat.lt_of_lt_of_le inBytes (laid.bytes_le isFor memberThere)
      have ofOther :=
        (@cell_eq build _ _ laid _ (member_range isFor memberThere) _ inRange).1
      rw [flushOrigin, content, isThere] at brought
      change Origin.memory (build.address buffer other.range +
        (other.position + there - other.position)) = _ at brought
      rw [Nat.add_sub_cancel_left, ← ofOther] at brought
      obtain ⟨rfl, rfl⟩ := laid.same_of_cell isFor member memberThere below
        inRange (Origin.memory.inj brought).symm
      exact ⟨inBytes, isThere⟩

theorem isPlace_iff {transfer : Placed}
    (atStart : (transfer.position : Int) =
      charioBlockSize * transfer.range.start) {byte place : Nat} :
    IsPlace transfer.range byte place ↔ place = transfer.position + byte := by
  unfold IsPlace
  omega

theorem moved_of_bytes {transfer : Placed}
    (bounded : transfer.bytes ≤ transfer.range.length)
    (notEmpty : 0 < transfer.range.length)
    (each : ∀ byte < transfer.range.length, ∃ place,
      IsPlace transfer.range byte place ∧ byte < transfer.bytes ∧
        place = transfer.position + byte) :
    (transfer.position : Int) = charioBlockSize * transfer.range.start ∧
      transfer.bytes = transfer.range.length := by
  obtain ⟨place, isPlace, _, here⟩ := each 0 notEmpty
  obtain ⟨_, _, last, _⟩ := each (transfer.range.length - 1) (by omega)
  unfold IsPlace at isPlace
  constructor <;> omega

theorem loadWindows_apart (laid : Laid buffer task)
    (isFor : TransfersFor task transfers) :
    (transfers.map (Placed.loadWindow build buffer)).Pairwise
      fun window other =>
        ∀ address, window.Holds address → ¬ other.Holds address := by
  have areas := laid.apart
  rw [← isFor.ranges, List.pairwise_map] at areas
  rw [List.pairwise_map]
  refine areas.imp_of_mem ?_
  intro first second member memberThere areApart address
  rintro ⟨above, before⟩ ⟨aboveThere, beforeThere⟩
  obtain ⟨byte, isByte⟩ := Nat.exists_eq_add_of_le above
  obtain ⟨there, isThere⟩ := Nat.exists_eq_add_of_le aboveThere
  change address = build.address buffer first.range + byte at isByte
  change address = build.address buffer second.range + there at isThere
  change address < build.address buffer first.range + first.bytes at before
  change address < build.address buffer second.range + second.bytes
    at beforeThere
  have short := laid.bytes_le isFor member
  have shortThere := laid.bytes_le isFor memberThere
  have below : byte < first.range.length := by omega
  have belowThere : there < second.range.length := by omega
  have here := @cell_eq build _ _ laid _ (member_range isFor member) _ below
  have away := @cell_eq build _ _ laid _ (member_range isFor memberThere) _
    belowThere
  exact areApart byte below there belowThere (by omega)

theorem loadRouted_iff (laid : Laid buffer task)
    (isFor : TransfersFor task transfers) :
    LoadRouted build buffer task transfers ↔ AllMoved transfers := by
  constructor
  · intro routed transfer member notEmpty
    refine moved_of_bytes (laid.bytes_le isFor member) notEmpty ?_
    intro byte below
    obtain ⟨place, isPlace, brought⟩ :=
      routed transfer.range (member_range isFor member) byte below
    exact ⟨place, isPlace, laid.loadOrigin_device isFor member below brought⟩
  · intro moved range isRange byte below
    rw [← isFor.ranges] at isRange
    obtain ⟨transfer, member, rfl⟩ := List.mem_map.mp isRange
    obtain ⟨atStart, inFull⟩ := moved transfer member (by omega)
    refine ⟨transfer.position + byte, (isPlace_iff atStart).mpr rfl, ?_⟩
    have inWindow : byte < (transfer.loadWindow build buffer).length :=
      Nat.lt_of_lt_of_eq below inFull.symm
    rw [(@cell_eq build _ _ laid _ (member_range isFor member) _ below).1]
    exact Window.foldl_fill_inside (laid.loadWindows_apart isFor)
      (List.mem_map_of_mem member) inWindow .memory

theorem isPlace_of_holds (laid : Laid buffer task)
    (isFor : TransfersFor task transfers) (moved : AllMoved transfers)
    {transfer : Placed} (member : transfer ∈ transfers) {place : Nat}
    (holds : (transfer.flushWindow build buffer).Holds place) :
    ∃ byte < transfer.range.length, IsPlace transfer.range byte place := by
  obtain ⟨above, before⟩ := holds
  change transfer.position ≤ place at above
  change place < transfer.position + transfer.bytes at before
  have short := laid.bytes_le isFor member
  obtain ⟨atStart, _⟩ := moved transfer member (by omega)
  refine ⟨place - transfer.position, by omega, ?_⟩
  rw [isPlace_iff atStart]
  omega

theorem flushWindows_apart (laid : Laid buffer task)
    (isFor : TransfersFor task transfers) (moved : AllMoved transfers)
    (placesApart : PlacesApart task) :
    (transfers.map (Placed.flushWindow build buffer)).Pairwise
      fun window other =>
        ∀ address, window.Holds address → ¬ other.Holds address := by
  rw [PlacesApart, ← isFor.ranges, List.pairwise_map] at placesApart
  rw [List.pairwise_map]
  refine placesApart.imp_of_mem ?_
  intro first second member memberThere areApart place holds holdsThere
  obtain ⟨byte, below, isPlace⟩ :=
    laid.isPlace_of_holds isFor moved member holds
  obtain ⟨there, belowThere, isPlaceThere⟩ :=
    laid.isPlace_of_holds isFor moved memberThere holdsThere
  exact areApart byte below there belowThere place isPlace isPlaceThere

theorem flushRouted_iff (laid : Laid buffer task)
    (isFor : TransfersFor task transfers) :
    FlushRouted build buffer task transfers ↔
      AllMoved transfers ∧ PlacesApart task := by
  constructor
  · intro routed
    have moved : ∀ transfer ∈ transfers, ∀ byte < transfer.range.length,
        ∃ place, IsPlace transfer.range byte place ∧
          byte < transfer.bytes ∧ place = transfer.position + byte := by
      intro transfer member byte below
      obtain ⟨place, isPlace, brought⟩ :=
        routed.filled transfer.range (member_range isFor member) byte below
      exact ⟨place, isPlace,
        laid.flushOrigin_memory isFor member below brought⟩
    refine ⟨?_, ?_⟩
    · intro transfer member notEmpty
      exact moved_of_bytes (laid.bytes_le isFor member) notEmpty
        (moved transfer member)
    · refine laid.apart.imp_of_mem ?_
      intro range other isRange isOther areApart byte below there belowThere
        place isPlace isPlaceThere
      obtain ⟨_, same, brought⟩ := routed.filled range isRange byte below
      obtain ⟨_, sameThere, broughtThere⟩ :=
        routed.filled other isOther there belowThere
      rw [same.unique isPlace] at brought
      rw [sameThere.unique isPlaceThere, brought] at broughtThere
      have sameCell := Origin.memory.inj broughtThere
      have here := (@cell_eq build _ _ laid _ isRange _ below).2
      have away := (@cell_eq build _ _ laid _ isOther _ belowThere).2
      exact areApart byte below there belowThere (by omega)
  · rintro ⟨moved, placesApart⟩
    refine ⟨?_, ?_⟩
    · intro range isRange byte below
      rw [← isFor.ranges] at isRange
      obtain ⟨transfer, member, rfl⟩ := List.mem_map.mp isRange
      obtain ⟨atStart, all⟩ := moved transfer member (by omega)
      refine ⟨transfer.position + byte, (isPlace_iff atStart).mpr rfl, ?_⟩
      have inWindow : byte < (transfer.flushWindow build buffer).length :=
        Nat.lt_of_lt_of_eq below all.symm
      rw [(@cell_eq build _ _ laid _ (member_range isFor member) _ below).1]
      exact Window.foldl_fill_inside
        (laid.flushWindows_apart isFor moved placesApart)
        (List.mem_map_of_mem member) inWindow .device
    · intro place outside
      refine Window.foldl_fill_outside ?_ _
      intro window isWindow holds
      obtain ⟨transfer, member, rfl⟩ := List.mem_map.mp isWindow
      obtain ⟨byte, below, isPlace⟩ :=
        laid.isPlace_of_holds isFor moved member holds
      exact outside transfer.range (member_range isFor member) byte
        below isPlace

end Laid

theorem laid_of_fits {buffer : Nat} (allocated : Allocated buffer)
    {plan : TaskPlan} (total : sumBytes plan.adds ≤ ddrSize) :
    Laid buffer plan.build where
  allocated := allocated
  inside := by
    intro range member
    rw [plan.build_ranges total] at member
    obtain ⟨index, add, found, same⟩ := packed_of_mem member
    have ends := sumBytes_take found
    have onWord := sumBytes_onWord (plan.adds.take index)
    subst same
    change 0 ≤ ((0 + sumBytes (plan.adds.take index) : Nat) : Int) ∧
      ((0 + sumBytes (plan.adds.take index) : Nat) : Int) % 8 = 0 ∧
      ((0 + sumBytes (plan.adds.take index) : Nat) : Int) +
        ((charioBlockSize * add.1 : Nat) : Int) ≤ ddrSize
    omega
  apart := by
    rw [plan.build_ranges total]
    refine (packed_sorted plan.adds 0).imp ?_
    intro range other behind byte below there belowThere
    omega

/-- What a load or a flush reports can be relied on exactly when the library is
closed or the transfers that the replies leave bring every byte to its place.
In a task laid out in the buffer this takes that every range is moved in full at
its own position, and for a flush that the ranges share no byte of the
device. -/
theorem success_honest_iff (build : Build) (lib : LibState) (task : CharioTask)
    (replies : Nat → Reply) :
    (LoadHonest build lib task replies ↔
      ¬ lib.Opened ∨ LoadRouted build lib.buffer task
        (transfersOf build lib task replies)) ∧
    (FlushHonest build lib task replies ↔
      ¬ lib.Opened ∨ FlushRouted build lib.buffer task
        (transfersOf build lib task replies)) ∧
    (Laid lib.buffer task →
      (LoadRouted build lib.buffer task
          (transfersOf build lib task replies) ↔
        AllMoved (transfersOf build lib task replies)) ∧
      (FlushRouted build lib.buffer task
          (transfersOf build lib task replies) ↔
        AllMoved (transfersOf build lib task replies) ∧ PlacesApart task)) := by
  refine ⟨loadHonest_iff_routed, flushHonest_iff_routed, ?_⟩
  intro laid
  have isFor := transfersOf_for build lib task replies
  exact ⟨laid.loadRouted_iff isFor, laid.flushRouted_iff isFor⟩

theorem testPlan_load_honest :
    Laid openedLib.buffer testPlan.build ∧
      LoadHonest .ordinary openedLib testPlan.build fullReply := by
  have laid := laid_of_fits openedLib_allocated
    (show sumBytes testPlan.adds ≤ ddrSize by decide)
  have exactly :=
    success_honest_iff .ordinary openedLib testPlan.build fullReply
  refine ⟨laid, exactly.1.mpr (.inr ((exactly.2.2 laid).1.mpr ?_))⟩
  unfold AllMoved
  decide

/-- The second seek of a flush fails, and its blocks go behind those of the
first range. -/
def missedSeek (range : Nat) : Reply := ⟨range = 0, 2 ^ 32, false⟩

def failedReply (_range : Nat) : Reply := ⟨true, 0, true⟩

theorem failed_calls_report_success :
    (charioLoadBlocksForTask .ordinary openedLib testPlan.build
        failedReply).1 = 0 ∧
      ¬ LoadHonest .ordinary openedLib testPlan.build failedReply ∧
      (charioFlushBlocksForTask .ordinary openedLib testPlan.build
        missedSeek).1 = 0 ∧
      ¬ FlushHonest .ordinary openedLib testPlan.build missedSeek := by
  have laid := laid_of_fits openedLib_allocated
    (show sumBytes testPlan.adds ≤ ddrSize by decide)
  refine ⟨rfl, ?_, rfl, ?_⟩
  · rw [loadHonest_iff_routed, laid.loadRouted_iff (transfersOf_for _ _ _ _)]
    rintro (closed | moved)
    · exact closed openedLib_opened
    · exact absurd (moved ⟨⟨0, 1, 0⟩, 0, 0⟩ (by decide) (by decide)).2
        (by decide)
  · rw [flushHonest_iff_routed, laid.flushRouted_iff (transfersOf_for _ _ _ _)]
    rintro (closed | ⟨moved, _⟩)
    · exact closed openedLib_opened
    · exact absurd (moved ⟨⟨50, 2, 4096⟩, 4096, 8192⟩ (by decide)
        (by decide)).1 (by decide)

end Chario.Libchario.Calls
