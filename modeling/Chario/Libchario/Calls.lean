import Chario.Libchario.Bookkeeping

namespace Chario.Libchario

open Chario.Device
open Chario.Library

/-! The system calls of libchario, in both of its builds, on a device file that
may refuse them or do less than they ask for. -/

/-- With `USE_PHYS` the buffer is a window of physical memory. -/
inductive Build where
  | ordinary
  | usePhys
deriving DecidableEq, Repr

def ddrStart : Nat := 0x20000000

namespace Build

/-- Where the buffer begins in the memory that the transfers address. -/
def base (build : Build) (buffer : Nat) : Nat :=
  match build with
  | .ordinary => buffer
  | .usePhys => ddrStart

/-- `buffer + (range->buffer_offset/8)`, or the address of the `chario_phys_io`:
a 32-bit sum, widened with its sign. -/
def address (build : Build) (buffer : Nat) (range : CharioBlocksRange) : Nat :=
  match build with
  | .ordinary =>
      (((buffer : Int) + 8 * range.bufferOffset.tdiv 8) % 2 ^ 32).toNat
  | .usePhys => (toOff (ddrStart + range.bufferOffset) % 2 ^ 64).toNat

end Build

structure Request where
  seek : Int
  address : Nat
  length : Nat
deriving DecidableEq, Repr

def CharioBlocksRange.request (build : Build) (buffer : Nat)
    (range : CharioBlocksRange) : Request where
  seek := toOff (range.start * charioBlockSize)
  address := build.address buffer range
  length := range.size

structure Reply where
  seeks : Bool
  moved : Nat
  fails : Bool
deriving DecidableEq, Repr

namespace Reply

variable (reply : Reply)

def lseek (device : FlatDevice) (offset : Int) : Int × FlatDevice :=
  if reply.seeks ∧ 0 ≤ offset then (offset, device.lseek offset)
  else (-1, device)

/-- The bytes moved of a transfer of `count`. -/
def bytes (count : Nat) : Nat := min reply.moved count

def settle (count : Nat) (before after : FlatDevice) : Int × FlatDevice :=
  if reply.fails then (-1, { after with position := before.position })
  else (reply.bytes count, after)

/-- `read`, or `CHARIO_IOCTL_READ_PHYS` on physical memory. -/
def read (device : FlatDevice) (address count : Nat) : Int × FlatDevice :=
  reply.settle count device (device.read address (reply.bytes count))

/-- `write`, or `CHARIO_IOCTL_WRITE_PHYS` on physical memory. -/
def write (device : FlatDevice) (address count : Nat) : Int × FlatDevice :=
  reply.settle count device (device.write address (reply.bytes count))

end Reply

namespace Calls

structure Progress where
  device : FlatDevice
  made : List (CharioBlocksRange × Request)

abbrev Answered := CharioBlocksRange × Reply

def answered (ranges : List CharioBlocksRange) (replies : Nat → Reply) :
    List Answered :=
  ranges.zipIdx.map fun numbered => (numbered.1, replies numbered.2)

/-- The calls for one range.  Neither the value of the seek nor the count of the
transfer is looked at. -/
def accessRange
    (transfer : Reply → FlatDevice → Nat → Nat → Int × FlatDevice)
    (build : Build) (buffer : Nat) (progress : Progress)
    (range : Answered) : Progress :=
  let request := range.1.request build buffer
  let sought := (range.2.lseek progress.device request.seek).2
  let count := transfer range.2 sought request.address request.length
  ⟨count.2, progress.made ++ [(range.1, request)]⟩

def loadRange := accessRange Reply.read
def flushRange := accessRange Reply.write

/-- Refused before `chario_init_device`, else zero whatever the calls did. -/
def forEachRange (access : Nat → Progress → Answered → Progress)
    (lib : LibState) (task : CharioTask) (replies : Nat → Reply) :
    Int × LibState × List (CharioBlocksRange × Request) :=
  if lib.fd = -1 ∨ lib.buffer = 0 then (1, lib, [])
  else
    let progress := (answered task.ranges replies).foldl (access lib.buffer)
      ⟨lib.device, []⟩
    (0, { lib with device := progress.device }, progress.made)

def charioLoadBlocksForTask (build : Build) (lib : LibState) (task : CharioTask)
    (replies : Nat → Reply) :
    Int × LibState × List (CharioBlocksRange × Request) :=
  forEachRange (loadRange build) lib task replies

def charioFlushBlocksForTask (build : Build) (lib : LibState)
    (task : CharioTask) (replies : Nat → Reply) :
    Int × LibState × List (CharioBlocksRange × Request) :=
  forEachRange (flushRange build) lib task replies

@[simp] theorem answered_ranges (ranges : List CharioBlocksRange)
    (replies : Nat → Reply) :
    (answered ranges replies).map Prod.fst = ranges := by
  rw [answered, List.map_map]
  exact List.zipIdx_map_fst 0 ranges

theorem forEachRange_opened {lib : LibState} (opened : lib.Opened)
    (access : Nat → Progress → Answered → Progress) (task : CharioTask)
    (replies : Nat → Reply) :
    forEachRange access lib task replies =
      (0, { lib with device := ((answered task.ranges replies).foldl
          (access lib.buffer) ⟨lib.device, []⟩).device },
        ((answered task.ranges replies).foldl
          (access lib.buffer) ⟨lib.device, []⟩).made) := by
  refine if_neg ?_
  rintro (closed | missing)
  · exact opened.fd closed
  · exact opened.buffer missing

theorem forEachRange_closed {lib : LibState} (closed : ¬ lib.Opened)
    (access : Nat → Progress → Answered → Progress) (task : CharioTask)
    (replies : Nat → Reply) :
    forEachRange access lib task replies = (1, lib, []) := by
  refine if_pos ?_
  by_contra both
  rw [not_or] at both
  exact closed ⟨both.1, both.2⟩

/-- The transfers made are those the ranges ask for, whatever becomes of
them. -/
theorem made_foldl
    (transfer : Reply → FlatDevice → Nat → Nat → Int × FlatDevice)
    (build : Build) (buffer : Nat) (ranges : List Answered)
    (progress : Progress) :
    (ranges.foldl (accessRange transfer build buffer) progress).made =
      progress.made ++ (ranges.map Prod.fst).map fun range =>
        (range, range.request build buffer) := by
  induction ranges generalizing progress with
  | nil => exact (List.append_nil _).symm
  | cons range ranges induction =>
      rw [List.foldl_cons, induction, accessRange, List.append_assoc]
      rfl

theorem made_of_opened {lib : LibState} (opened : lib.Opened)
    (transfer : Reply → FlatDevice → Nat → Nat → Int × FlatDevice)
    (build : Build) (task : CharioTask) (replies : Nat → Reply) :
    (forEachRange (accessRange transfer build) lib task replies).2.2 =
      task.ranges.map fun range => (range, range.request build lib.buffer) := by
  rw [forEachRange_opened opened]
  change ((answered task.ranges replies).foldl
    (accessRange transfer build lib.buffer) ⟨lib.device, []⟩).made = _
  rw [made_foldl, answered_ranges, List.nil_append]

/-! On a device file that does all it is asked for, these are the calls of the
library as tasks that take turns use it. -/

structure Full (reply : Reply) : Prop where
  seeks : reply.seeks = true
  moved : 2 ^ 32 ≤ reply.moved
  goesOn : reply.fails = false

section Full

variable {reply : Reply} {range : CharioBlocksRange} {buffer : Nat}

theorem Full.lseek (full : Full reply) (device : FlatDevice) (offset : Int) :
    (reply.lseek device offset).2 = device.lseek offset := by
  unfold Reply.lseek
  split
  next => rfl
  next refused =>
    have below : offset < 0 :=
      Int.not_le.mp fun notBelow => refused ⟨full.seeks, notBelow⟩
    rw [FlatDevice.lseek, if_pos below]

theorem Full.bytes (full : Full reply) (range : CharioBlocksRange) :
    reply.bytes range.size = range.size := by
  have small : range.size < 2 ^ 32 := Nat.mod_lt _ (by decide)
  exact Nat.min_eq_right (Nat.le_of_lt (Nat.lt_of_lt_of_le small full.moved))

theorem Full.settle (full : Full reply) (count : Nat)
    (before after : FlatDevice) :
    (reply.settle count before after).2 = after := by
  rw [Reply.settle, full.goesOn]
  rfl

theorem Full.read (full : Full reply) (device : FlatDevice) (address : Nat) :
    (reply.read device address range.size).2 =
      device.read address range.size := by
  rw [Reply.read, full.settle, full.bytes]

theorem Full.write (full : Full reply) (device : FlatDevice) (address : Nat) :
    (reply.write device address range.size).2 =
      device.write address range.size := by
  rw [Reply.write, full.settle, full.bytes]

theorem address_eq_rangeAddress (inside : 0 ≤ range.bufferOffset)
    (room : buffer + range.bufferOffset < 2 ^ 32) :
    Build.ordinary.address buffer range = rangeAddress buffer range := by
  have floor := @Int.tdiv_eq_ediv_of_nonneg _ 8 inside
  simp only [Build.address, rangeAddress]
  rw [floor]
  omega

theorem foldl_accessRange_full
    {transfer : Reply → FlatDevice → Nat → Nat → Int × FlatDevice}
    {flat : FlatDevice → Nat → Nat → FlatDevice}
    (whole : ∀ {reply : Reply} (range : CharioBlocksRange), Full reply →
      ∀ device address, (transfer reply device address range.size).2 =
        flat device address range.size)
    {ranges : List Answered} (full : ∀ range ∈ ranges, Full range.2)
    (inside : ∀ range ∈ ranges,
      0 ≤ range.1.bufferOffset ∧ buffer + range.1.bufferOffset < 2 ^ 32)
    (progress : Progress) :
    (ranges.foldl (accessRange transfer .ordinary buffer) progress).device =
      (ranges.map Prod.fst).foldl (fun device range =>
        flat (device.lseek (toOff (range.start * charioBlockSize)))
          (rangeAddress buffer range) range.size) progress.device := by
  induction ranges generalizing progress with
  | nil => rfl
  | cons range ranges induction =>
      have isFull := full range List.mem_cons_self
      obtain ⟨notNegative, below⟩ := inside range List.mem_cons_self
      have first : (accessRange transfer .ordinary buffer progress
          range).device =
          flat (progress.device.lseek (toOff (range.1.start * charioBlockSize)))
            (rangeAddress buffer range.1) range.1.size := by
        rw [← address_eq_rangeAddress notNegative below, ← whole range.1 isFull,
          ← isFull.lseek]
        rfl
      rw [List.foldl_cons, List.map_cons, List.foldl_cons, ← first]
      exact induction
        (fun later member => full later (List.mem_cons_of_mem _ member))
        (fun later member => inside later (List.mem_cons_of_mem _ member)) _

end Full

/-- Where every call goes through, load and flush are those of the flat
device. -/
theorem calls_of_full {lib : LibState} {task : CharioTask}
    (inside : ∀ range ∈ task.ranges,
      0 ≤ range.bufferOffset ∧ lib.buffer + range.bufferOffset < 2 ^ 32)
    {replies : Nat → Reply} (full : ∀ index, Full (replies index)) :
    ((charioLoadBlocksForTask .ordinary lib task replies).1,
        (charioLoadBlocksForTask .ordinary lib task replies).2.1) =
      Libchario.charioLoadBlocksForTask lib task ∧
    ((charioFlushBlocksForTask .ordinary lib task replies).1,
        (charioFlushBlocksForTask .ordinary lib task replies).2.1) =
      Libchario.charioFlushBlocksForTask lib task := by
  have isFull : ∀ range ∈ answered task.ranges replies, Full range.2 := by
    intro range member
    obtain ⟨numbered, _, rfl⟩ := List.mem_map.mp member
    exact full numbered.2
  have isInside : ∀ range ∈ answered task.ranges replies,
      0 ≤ range.1.bufferOffset ∧
        lib.buffer + range.1.bufferOffset < 2 ^ 32 := by
    intro range member
    refine inside range.1 ?_
    rw [← answered_ranges task.ranges replies]
    exact List.mem_map_of_mem member
  by_cases opened : lib.Opened
  · have load :=
      foldl_accessRange_full (fun _ full => full.read) isFull isInside
      ⟨lib.device, []⟩
    have flush := foldl_accessRange_full (fun _ full => full.write) isFull
      isInside ⟨lib.device, []⟩
    rw [answered_ranges] at load flush
    rw [charioLoadBlocksForTask, charioFlushBlocksForTask,
      forEachRange_opened opened, forEachRange_opened opened,
      Libchario.charioLoadBlocksForTask, Libchario.charioFlushBlocksForTask,
      Libchario.forEachRange_opened opened,
      Libchario.forEachRange_opened opened]
    simp only [loadRange, flushRange, load, flush]
    exact ⟨rfl, rfl⟩
  · have closed : lib.fd = -1 ∨ lib.buffer = 0 := by
      by_contra both
      rw [not_or] at both
      exact opened ⟨both.1, both.2⟩
    rw [charioLoadBlocksForTask, charioFlushBlocksForTask,
      forEachRange_closed opened, forEachRange_closed opened,
      Libchario.charioLoadBlocksForTask, Libchario.charioFlushBlocksForTask,
      Libchario.forEachRange, Libchario.forEachRange, if_pos closed,
      if_pos closed]
    exact ⟨rfl, rfl⟩

end Calls

/-! Whether the transfers stay in the buffer and hit the blocks they are for. -/

structure Request.Exact (base : Nat) (range : CharioBlocksRange)
    (request : Request) : Prop where
  inside : ∀ byte < request.length,
    base ≤ request.address + byte ∧ request.address + byte < base + ddrSize
  seek : request.seek = charioBlockSize * range.start
  inFile : 0 ≤ request.seek
  length : request.length = charioBlockSize * range.count

/-- What `aligned_alloc` promises of the buffer: whole words, and bytes that all
have an address. -/
structure Allocated (buffer : Nat) : Prop where
  onWord : buffer % 8 = 0
  room : buffer + ddrSize ≤ 2 ^ 32

section Exact

variable {build : Build} {buffer : Nat}

theorem Allocated.address_eq (allocated : Allocated buffer) {offset : Nat}
    (onWord : offset % 8 = 0) (inside : offset < ddrSize) (start : Int)
    (count : Nat) :
    build.address buffer ⟨start, count, offset⟩ =
      build.base buffer + offset := by
  have room := allocated.room
  unfold ddrSize at *
  cases build with
  | ordinary =>
      simp only [Build.address, Build.base]
      rw [Int.tdiv_eq_ediv_of_nonneg (Int.natCast_nonneg _)]
      omega
  | usePhys =>
      simp only [Build.address, Build.base, ddrStart]
      rw [toOff_of_small (by omega) (by omega)]
      omega

theorem Allocated.address_behind (allocated : Allocated buffer) (start : Int)
    (count : Nat) :
    build.address buffer ⟨start, count, ddrSize⟩ < build.base buffer ∨
      build.base buffer + ddrSize ≤
        build.address buffer ⟨start, count, ddrSize⟩ := by
  have room := allocated.room
  unfold ddrSize at *
  cases build with
  | ordinary =>
      simp only [Build.address, Build.base]
      rw [Int.tdiv_eq_ediv_of_nonneg (by decide)]
      omega
  | usePhys =>
      right
      simp only [Build.base]
      exact of_decide_eq_true rfl

theorem seek_exact_iff (start : Int) :
    (toOff (start * charioBlockSize) = charioBlockSize * start ∧
        0 ≤ toOff (start * charioBlockSize)) ↔
      0 ≤ start ∧ start * charioBlockSize < 2 ^ 31 := by
  unfold toOff charioBlockSize
  omega

/-- A range that begins in the buffer, or just behind it, is requested as it
should be exactly when it ends in the buffer too. -/
theorem Allocated.exact_iff (allocated : Allocated buffer) {offset : Nat}
    (onWord : offset % 8 = 0) (begins : offset ≤ ddrSize) (start : Int)
    (count : Nat) :
    ((⟨start, count, offset⟩ : CharioBlocksRange).request build buffer).Exact
        (build.base buffer) ⟨start, count, offset⟩ ↔
      offset + charioBlockSize * count ≤ ddrSize ∧
        0 ≤ start ∧ start * charioBlockSize < 2 ^ 31 := by
  constructor
  · intro hits
    have inFile := (seek_exact_iff start).mp ⟨hits.seek, hits.inFile⟩
    refine ⟨?_, inFile⟩
    have length : (⟨start, count, offset⟩ : CharioBlocksRange).size =
        charioBlockSize * count := hits.length
    by_contra beyond
    have notEmpty : 0 < charioBlockSize * count := by omega
    cases Nat.lt_or_eq_of_le begins with
    | inl before =>
        obtain ⟨_, below⟩ := hits.inside (charioBlockSize * count - 1)
          (by change _ < CharioBlocksRange.size _; omega)
        change build.address buffer _ + _ < _ at below
        rw [allocated.address_eq onWord before] at below
        omega
    | inr same =>
        subst same
        obtain ⟨above, below⟩ := hits.inside 0
          (by change _ < CharioBlocksRange.size _; omega)
        have behind := @Allocated.address_behind build buffer allocated start
          count
        change _ ≤ build.address buffer _ + 0 at above
        change build.address buffer _ + 0 < _ at below
        omega
  · rintro ⟨ends, inFile⟩
    have size : (⟨start, count, offset⟩ : CharioBlocksRange).size =
        charioBlockSize * count := by
      change count * charioBlockSize % 2 ^ 32 = _
      unfold charioBlockSize ddrSize at *
      omega
    obtain ⟨seek, sought⟩ := (seek_exact_iff start).mpr inFile
    refine ⟨?_, seek, sought, size⟩
    intro byte below
    have inRange : byte < charioBlockSize * count := size ▸ below
    change _ ≤ build.address buffer _ + _ ∧ build.address buffer _ + _ < _
    rw [allocated.address_eq onWord (by omega)]
    omega

theorem sumBytes_onWord (adds : List (Nat × Int)) : sumBytes adds % 8 = 0 := by
  unfold sumBytes charioBlockSize
  omega

theorem TaskPlan.Fits.of_exact (allocated : Allocated buffer)
    (storage : CharioTask) (id : Int) {adds : List (Nat × Int)}
    (hits : ∀ range ∈ (TaskPlan.mk storage id adds).build.ranges,
      (range.request build buffer).Exact (build.base buffer) range) :
    (TaskPlan.mk storage id adds).Fits := by
  induction adds using List.reverseRecOn with
  | nil => exact ⟨Nat.zero_le _, fun _ member => nomatch member⟩
  | append_singleton adds add induction =>
      -- the earlier ranges fit, so the last one begins where they end
      rw [build_snoc, charioAddRangeToTask] at hits
      have earlier := induction fun range member =>
        hits range (List.mem_append_left _ member)
      have last := hits _ (List.mem_append_right _ (List.mem_singleton_self _))
      have begins : sumBytes adds ≤ ddrSize := earlier.total
      rw [build_ranges earlier.total,
        nextOffset_packed (Nat.lt_of_le_of_lt begins (by decide)),
        allocated.exact_iff (sumBytes_onWord adds) begins] at last
      refine ⟨?_, ?_⟩
      · change sumBytes (adds ++ [add]) ≤ ddrSize
        rw [sumBytes_snoc]
        exact last.1
      · intro added member
        cases List.mem_append.mp member with
        | inl before => exact earlier.inFile added before
        | inr same =>
            rw [List.mem_singleton.mp same]
            exact last.2

theorem TaskPlan.Fits.exact (allocated : Allocated buffer) {plan : TaskPlan}
    (fits : plan.Fits) {range : CharioBlocksRange}
    (member : range ∈ plan.build.ranges) :
    (range.request build buffer).Exact (build.base buffer) range := by
  rw [plan.build_ranges fits.total] at member
  obtain ⟨index, add, found, same⟩ := packed_of_mem member
  have ends := Nat.le_trans (sumBytes_take found) fits.total
  rw [same, Nat.zero_add,
    allocated.exact_iff (sumBytes_onWord _) (by omega)]
  exact ⟨ends, fits.inFile add (List.mem_of_getElem? found)⟩

end Exact

/-- In both builds the transfers of a task lie in the buffer and hit its blocks
exactly when the task fits the buffer and the byte positions fit `off_t`. -/
theorem transfers_inside_iff (build : Build) (lib : LibState) (plan : TaskPlan)
    (allocated : Allocated lib.buffer) (replies flushed : Nat → Reply) :
    ((∀ made ∈ (Calls.charioLoadBlocksForTask build lib plan.build
          replies).2.2,
        made.2.Exact (build.base lib.buffer) made.1) ∧
      ∀ made ∈ (Calls.charioFlushBlocksForTask build lib plan.build
          flushed).2.2,
        made.2.Exact (build.base lib.buffer) made.1) ↔
      ¬ lib.Opened ∨ plan.Fits := by
  by_cases opened : lib.Opened
  · have load := Calls.made_of_opened opened Reply.read build plan.build replies
    have flush :=
      Calls.made_of_opened opened Reply.write build plan.build flushed
    rw [Calls.charioLoadBlocksForTask, Calls.charioFlushBlocksForTask,
      Calls.loadRange, Calls.flushRange, load, flush]
    constructor
    · rintro ⟨hits, _⟩
      have each : ∀ range ∈ plan.build.ranges,
          (range.request build lib.buffer).Exact (build.base lib.buffer)
            range := by
        intro range member
        exact hits _ (List.mem_map_of_mem member)
      exact .inr (TaskPlan.Fits.of_exact allocated plan.storage plan.id each)
    · rintro (closed | fits)
      · exact absurd opened closed
      · have each : ∀ made ∈ plan.build.ranges.map (fun range =>
            (range, range.request build lib.buffer)),
            made.2.Exact (build.base lib.buffer) made.1 := by
          intro made member
          obtain ⟨range, inTask, rfl⟩ := List.mem_map.mp member
          exact fits.exact allocated inTask
        exact ⟨each, each⟩
  · rw [Calls.charioLoadBlocksForTask, Calls.charioFlushBlocksForTask,
      Calls.forEachRange_closed opened, Calls.forEachRange_closed opened]
    refine ⟨fun _ => .inl opened, fun _ => ⟨?_, ?_⟩⟩
    · intro made member
      cases member
    · intro made member
      cases member

def openedLib : LibState where
  fd := 3
  buffer := 0x40000000
  device := ⟨0, fun _ => 0, fun _ => 0⟩

theorem openedLib_allocated : Allocated openedLib.buffer :=
  ⟨by decide, by decide⟩

theorem openedLib_opened : openedLib.Opened := ⟨by decide, by decide⟩

def fullReply (_range : Nat) : Reply := ⟨true, 2 ^ 32, false⟩

theorem testPlan_transfers_inside :
    (∀ made ∈ (Calls.charioLoadBlocksForTask .usePhys openedLib testPlan.build
          fullReply).2.2,
        made.2.Exact (Build.usePhys.base openedLib.buffer) made.1) ∧
      ∀ made ∈ (Calls.charioFlushBlocksForTask .usePhys openedLib testPlan.build
          fullReply).2.2,
        made.2.Exact (Build.usePhys.base openedLib.buffer) made.1 := by
  refine (transfers_inside_iff .usePhys openedLib testPlan openedLib_allocated
    fullReply fullReply).mpr (.inr ⟨by decide, ?_⟩)
  decide

/-- A task of one block more than the buffer holds, and one of the block whose
first byte `off_t` cannot hold. -/
def largePlan : TaskPlan := ⟨⟨0, [], 0, 0⟩, 1, [(65537, 0)]⟩
def farPlan : TaskPlan := ⟨⟨0, [], 0, 0⟩, 1, [(1, 524288)]⟩

theorem largePlan_transfers_outside :
    openedLib.Opened ∧ Allocated openedLib.buffer ∧
      (∃ made ∈ (Calls.charioLoadBlocksForTask .ordinary openedLib
          largePlan.build fullReply).2.2,
        openedLib.buffer + ddrSize < made.2.address + made.2.length) ∧
      (∃ made ∈ (Calls.charioLoadBlocksForTask .ordinary openedLib
          farPlan.build fullReply).2.2,
        made.2.seek < 0) ∧
      ¬ ∀ made ∈ (Calls.charioLoadBlocksForTask .ordinary openedLib
          largePlan.build fullReply).2.2,
        made.2.Exact (Build.ordinary.base openedLib.buffer) made.1 := by
  refine ⟨openedLib_opened, openedLib_allocated, ?_, ?_, ?_⟩
  · exact ⟨_, List.mem_singleton_self _, by decide⟩
  · exact ⟨_, List.mem_singleton_self _, by decide⟩
  · intro hits
    have last := (hits _ (List.mem_singleton_self _)).inside 268439551
      (by decide)
    exact absurd last.2 (by decide)

end Chario.Libchario
