import Chario.Device.Flat
import Chario.Library.Overlay

namespace Chario.Device.FlatDevice

open Chario.Library

/-! The system calls of a client on the flat device, succeeding in full. -/

/-- `lseek` with `SEEK_SET`. -/
def lseek (device : FlatDevice) (offset : Int) : FlatDevice :=
  if offset < 0 then device else { device with position := offset.toNat }

def read (device : FlatDevice) (addr count : Nat) : FlatDevice where
  position := device.position + count
  bytes := device.bytes
  memory := Window.fill device.memory
    ⟨addr, count, fun byte => device.bytes (device.position + byte)⟩

def write (device : FlatDevice) (addr count : Nat) : FlatDevice where
  position := device.position + count
  bytes := Window.fill device.bytes
    ⟨device.position, count, fun byte => device.memory (addr + byte)⟩
  memory := device.memory

theorem lseek_seeks (device : FlatDevice) (offset : Int) :
    ∃ value, device.Seeks offset .seekSet value (device.lseek offset) := by
  unfold lseek
  split
  next below => exact ⟨_, .setBefore below⟩
  next notBelow =>
    obtain ⟨target, isTarget⟩ :=
      Int.eq_ofNat_of_zero_le (Int.not_lt.mp notBelow)
    subst isTarget
    exact ⟨_, .set rfl⟩

theorem read_reads (device : FlatDevice) (addr count : Nat) :
    device.Reads (addr + ·) count count (device.read addr count) := by
  refine ⟨rfl, rfl, rfl, ?_, ?_⟩
  · intro byte below
    exact Window.fill_inside below _
  · intro address outside
    refine Window.fill_outside ?_ _
    rintro ⟨after, before⟩
    have inWindow : address < addr + count := before
    have atWindow : addr ≤ address := after
    exact outside (address - addr) (by omega) (by omega)

theorem write_writes (device : FlatDevice) (addr count : Nat) :
    device.Writes (addr + ·) count count (device.write addr count) := by
  refine ⟨rfl, rfl, rfl, ?_, ?_⟩
  · intro byte below
    exact Window.fill_inside below _
  · intro address outside
    refine Window.fill_outside ?_ _
    rintro ⟨after, before⟩
    exact outside.elim (fun below => Nat.not_le_of_lt below after)
      (fun above => Nat.not_lt_of_le above before)

end Chario.Device.FlatDevice

namespace Chario.Libchario

open Chario.Device
open Chario.Library

/-! libchario: the block ranges of tasks, brought in turn into one buffer.  A
32-bit machine without `USE_PHYS`. -/

def charioBlockSize : Nat := 4096
def ddrSize : Nat := 0x10000000

/-- A conversion to the 32-bit `off_t`. -/
def toOff (value : Int) : Int := (value + 2 ^ 31) % 2 ^ 32 - 2 ^ 31

structure CharioBlocksRange where
  start : Int
  count : Nat
  bufferOffset : Int
deriving DecidableEq, Repr

def CharioBlocksRange.size (range : CharioBlocksRange) : Nat :=
  range.count * charioBlockSize % 2 ^ 32

structure CharioTask where
  id : Int
  ranges : List CharioBlocksRange
  rangeCount : Nat
  totalSize : Nat
deriving DecidableEq, Repr

def charioInitTask (task : CharioTask) (id : Int) : CharioTask :=
  { task with id := id, ranges := [] }

def nextOffset (ranges : List CharioBlocksRange) : Int :=
  match ranges.getLast? with
  | none => 0
  | some previous => toOff (previous.bufferOffset + previous.size)

def charioAddRangeToTask (task : CharioTask) (count : Nat) (offset : Int) :
    CharioTask :=
  { task with
    ranges := task.ranges ++ [⟨offset, count, nextOffset task.ranges⟩]
    rangeCount := (task.rangeCount + 1) % 2 ^ 32
    totalSize := (task.totalSize + count * charioBlockSize) % 2 ^ 32 }

structure LibState where
  fd : Int
  buffer : Nat
  device : FlatDevice

/-- `buffer + (range->buffer_offset/8)`, on words of eight bytes. -/
def rangeAddress (buffer : Nat) (range : CharioBlocksRange) : Nat :=
  ((buffer : Int) + 8 * range.bufferOffset.tdiv 8).toNat

def bufferForRange (lib : LibState) (range : CharioBlocksRange) : Nat :=
  if lib.buffer = 0 then 0 else rangeAddress lib.buffer range

def loadRange (buffer : Nat) (device : FlatDevice) (range : CharioBlocksRange) :
    FlatDevice :=
  (device.lseek (toOff (range.start * charioBlockSize))).read
    (rangeAddress buffer range) range.size

def flushRange (buffer : Nat) (device : FlatDevice)
    (range : CharioBlocksRange) :
    FlatDevice :=
  (device.lseek (toOff (range.start * charioBlockSize))).write
    (rangeAddress buffer range) range.size

/-- The body that load and flush share: refused before `chario_init_device`,
else every range of the list in order. -/
def forEachRange (access : Nat → FlatDevice → CharioBlocksRange → FlatDevice)
    (lib : LibState) (task : CharioTask) : Int × LibState :=
  if lib.fd = -1 ∨ lib.buffer = 0 then (1, lib)
  else (0, { lib with
    device := task.ranges.foldl (access lib.buffer) lib.device })

def charioLoadBlocksForTask (lib : LibState) (task : CharioTask) :
    Int × LibState :=
  forEachRange loadRange lib task

def charioFlushBlocksForTask (lib : LibState) (task : CharioTask) :
    Int × LibState :=
  forEachRange flushRange lib task

def charioInitDevice (opened : Int) (allocated : Nat) (lib : LibState) :
    Nat × LibState :=
  if opened < 0 then (0, { lib with fd := opened })
  else (allocated, { lib with fd := opened, buffer := allocated })

def charioCloseDevice (lib : LibState) : Int × LibState :=
  (0, { lib with fd := -1, buffer := 0 })

structure LibState.Opened (lib : LibState) : Prop where
  fd : lib.fd ≠ -1
  buffer : lib.buffer ≠ 0

theorem charioInitDevice_opened {opened : Int} {allocated : Nat}
    (isOpen : 0 ≤ opened) (isAllocated : allocated ≠ 0) (lib : LibState) :
    (charioInitDevice opened allocated lib).2.Opened := by
  rw [charioInitDevice, if_neg (Int.not_lt.mpr isOpen)]
  refine ⟨?_, isAllocated⟩
  change opened ≠ -1
  omega

theorem forEachRange_opened {lib : LibState} (opened : lib.Opened)
    (access : Nat → FlatDevice → CharioBlocksRange → FlatDevice)
    (task : CharioTask) :
    forEachRange access lib task = (0, { lib with
      device := task.ranges.foldl (access lib.buffer) lib.device }) := by
  refine if_neg ?_
  rintro (closed | missing)
  · exact opened.fd closed
  · exact opened.buffer missing

/-! Tasks as a client builds them. -/

structure TaskPlan where
  storage : CharioTask
  id : Int
  adds : List (Nat × Int)

def TaskPlan.build (plan : TaskPlan) : CharioTask :=
  plan.adds.foldl (fun task add => charioAddRangeToTask task add.1 add.2)
    (charioInitTask plan.storage plan.id)

def sumBytes (adds : List (Nat × Int)) : Nat :=
  charioBlockSize * (adds.map Prod.fst).sum

/-- The total size fits the buffer, and the byte offsets of the first blocks are
values of `off_t`. -/
structure TaskPlan.Fits (plan : TaskPlan) : Prop where
  total : sumBytes plan.adds ≤ ddrSize
  inFile : ∀ add ∈ plan.adds, 0 ≤ add.2 ∧ add.2 * charioBlockSize < 2 ^ 31

/-- Block `block` lies in the range. -/
def Covers (add : Nat × Int) (block : Int) : Prop :=
  add.2 ≤ block ∧ block < add.2 + add.1

def Apart {ι : Type} (plans : ι → TaskPlan) : Prop :=
  ∀ {task other : ι} {index there : Nat} {add added : Nat × Int} {block : Int},
    (plans task).adds[index]? = some add →
    (plans other).adds[there]? = some added →
    Covers add block → Covers added block → task = other ∧ index = there

def packed : Nat → List (Nat × Int) → List CharioBlocksRange
  | _, [] => []
  | offset, add :: adds =>
      ⟨add.2, add.1, offset⟩ :: packed (offset + charioBlockSize * add.1) adds

@[simp] theorem sumBytes_nil : sumBytes [] = 0 := rfl

@[simp] theorem sumBytes_cons (add : Nat × Int) (adds : List (Nat × Int)) :
    sumBytes (add :: adds) = charioBlockSize * add.1 + sumBytes adds :=
  Nat.mul_add _ _ _

theorem packed_snoc (add : Nat × Int) (adds : List (Nat × Int)) (offset : Nat) :
    packed offset (adds ++ [add]) =
      packed offset adds ++ [⟨add.2, add.1, ↑(offset + sumBytes adds)⟩] := by
  induction adds generalizing offset with
  | nil => rfl
  | cons first adds induction =>
      rw [List.cons_append, packed, induction, packed, List.cons_append,
        sumBytes_cons, Nat.add_assoc]

theorem sumBytes_snoc (add : Nat × Int) (adds : List (Nat × Int)) :
    sumBytes (adds ++ [add]) = sumBytes adds + charioBlockSize * add.1 := by
  simp [sumBytes, Nat.mul_add]

theorem toOff_of_small {value : Int} (notNegative : 0 ≤ value)
    (small : value < 2 ^ 31) : toOff value = value := by
  unfold toOff
  omega

theorem nextOffset_packed {adds : List (Nat × Int)}
    (small : sumBytes adds < 2 ^ 31) :
    nextOffset (packed 0 adds) = sumBytes adds := by
  induction adds using List.reverseRecOn with
  | nil => rfl
  | append_singleton adds add _ =>
      rw [sumBytes_snoc] at small
      have size : add.1 * charioBlockSize % 2 ^ 32 =
          charioBlockSize * add.1 := by
        unfold charioBlockSize at *
        omega
      rw [nextOffset, packed_snoc, List.getLast?_concat, sumBytes_snoc]
      simp only [CharioBlocksRange.size, size, Nat.zero_add]
      rw [toOff_of_small (by omega) (by omega)]
      exact (Int.natCast_add _ _).symm

theorem TaskPlan.build_snoc (storage : CharioTask) (id : Int)
    (adds : List (Nat × Int)) (add : Nat × Int) :
    (TaskPlan.mk storage id (adds ++ [add])).build =
      charioAddRangeToTask (TaskPlan.mk storage id adds).build add.1 add.2 := by
  rw [build, build, List.foldl_append, List.foldl_cons, List.foldl_nil]

/-- Where every range begins at an offset that `off_t` can hold, the ranges of a
task are packed in the buffer in the order in which they were added. -/
theorem TaskPlan.build_ranges_of_prefixes (storage : CharioTask) (id : Int)
    {adds : List (Nat × Int)}
    (small : ∀ index < adds.length, sumBytes (adds.take index) < 2 ^ 31) :
    (TaskPlan.mk storage id adds).build.ranges = packed 0 adds := by
  induction adds using List.reverseRecOn with
  | nil => rfl
  | append_singleton adds add induction =>
      have last : sumBytes adds < 2 ^ 31 := by
        have := small adds.length (by simp)
        rwa [List.take_left] at this
      have earlier : ∀ index < adds.length,
          sumBytes (adds.take index) < 2 ^ 31 := by
        intro index below
        have := small index (by rw [List.length_append]; omega)
        rwa [List.take_append_of_le_length (Nat.le_of_lt below)] at this
      rw [build_snoc, charioAddRangeToTask, induction earlier,
        nextOffset_packed last, packed_snoc, Nat.zero_add]

theorem sumBytes_take_le (adds : List (Nat × Int)) (index : Nat) :
    sumBytes (adds.take index) ≤ sumBytes adds := by
  induction adds generalizing index with
  | nil => rw [List.take_nil]
  | cons add adds induction =>
      cases index with
      | zero => exact Nat.zero_le _
      | succ index =>
          rw [List.take_succ_cons, sumBytes_cons, sumBytes_cons]
          exact Nat.add_le_add_left (induction index) _

theorem TaskPlan.build_ranges {plan : TaskPlan}
    (fits : sumBytes plan.adds ≤ ddrSize) :
    plan.build.ranges = packed 0 plan.adds := by
  refine build_ranges_of_prefixes plan.storage plan.id ?_
  intro index _
  have inside := Nat.le_trans (sumBytes_take_le plan.adds index) fits
  exact Nat.lt_of_le_of_lt inside (by decide)

end Chario.Libchario
