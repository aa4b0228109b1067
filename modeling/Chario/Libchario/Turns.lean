import Chario.Libchario.Tasks

namespace Chario.Libchario

open Chario.Device
open Chario.Library

/-! Tasks that take turns with the buffer. -/

namespace CharioBlocksRange

variable (range : CharioBlocksRange)

def length : Nat := charioBlockSize * range.count

def first : Nat := (range.start * charioBlockSize).toNat

structure Plain : Prop where
  start : 0 ≤ range.start
  inFile : range.start * charioBlockSize < 2 ^ 31
  small : range.length < 2 ^ 32
  offset : 0 ≤ range.bufferOffset
  onWord : range.bufferOffset % 8 = 0

def loadWindow (buffer : Nat) (bytes : Nat → UInt8) : Window UInt8 where
  start := rangeAddress buffer range
  length := range.length
  content byte := bytes (range.first + byte)

def flushWindow (buffer : Nat) (memory : Nat → UInt8) : Window UInt8 where
  start := range.first
  length := range.length
  content byte := memory (rangeAddress buffer range + byte)

variable {range}

theorem Plain.size_eq (plain : range.Plain) : range.size = range.length := by
  have small := plain.small
  unfold size length at *
  rw [Nat.mul_comm]
  exact Nat.mod_eq_of_lt small

theorem Plain.lseek_eq (plain : range.Plain) (device : FlatDevice) :
    device.lseek (toOff (range.start * charioBlockSize)) =
      { device with position := range.first } := by
  have notNegative : 0 ≤ range.start * charioBlockSize :=
    Int.mul_nonneg plain.start (Int.natCast_nonneg _)
  rw [toOff_of_small notNegative plain.inFile, FlatDevice.lseek,
    if_neg (Int.not_lt.mpr notNegative), first]

theorem Plain.rangeAddress_eq (plain : range.Plain) (buffer : Nat) :
    (rangeAddress buffer range : Int) = buffer + range.bufferOffset := by
  have offset := plain.offset
  have onWord := plain.onWord
  unfold rangeAddress
  rw [Int.tdiv_eq_ediv_of_nonneg offset]
  omega

end CharioBlocksRange

theorem foldl_loadRange {ranges : List CharioBlocksRange}
    (plain : ∀ range ∈ ranges, range.Plain) (buffer : Nat)
    (device : FlatDevice) :
    (ranges.foldl (loadRange buffer) device).bytes = device.bytes ∧
      (ranges.foldl (loadRange buffer) device).memory =
        (ranges.map (·.loadWindow buffer device.bytes)).foldl Window.fill
          device.memory := by
  induction ranges generalizing device with
  | nil => exact ⟨rfl, rfl⟩
  | cons range ranges induction =>
      have here := plain range List.mem_cons_self
      have loaded : loadRange buffer device range =
          ({ device with position := range.first } : FlatDevice).read
            (rangeAddress buffer range) range.length := by
        rw [loadRange, here.lseek_eq, here.size_eq]
      rw [List.foldl_cons, loaded]
      exact induction
        (fun later member => plain later (List.mem_cons_of_mem _ member)) _

theorem foldl_flushRange {ranges : List CharioBlocksRange}
    (plain : ∀ range ∈ ranges, range.Plain) (buffer : Nat)
    (device : FlatDevice) :
    (ranges.foldl (flushRange buffer) device).memory = device.memory ∧
      (ranges.foldl (flushRange buffer) device).bytes =
        (ranges.map (·.flushWindow buffer device.memory)).foldl Window.fill
          device.bytes := by
  induction ranges generalizing device with
  | nil => exact ⟨rfl, rfl⟩
  | cons range ranges induction =>
      have here := plain range List.mem_cons_self
      have flushed : flushRange buffer device range =
          ({ device with position := range.first } : FlatDevice).write
            (rangeAddress buffer range) range.length := by
        rw [flushRange, here.lseek_eq, here.size_eq]
      rw [List.foldl_cons, flushed]
      exact induction
        (fun later member => plain later (List.mem_cons_of_mem _ member)) _

/-! The layout of a task. -/

theorem packed_getElem? (adds : List (Nat × Int)) (offset index : Nat) :
    (packed offset adds)[index]? = adds[index]?.map fun add =>
      ⟨add.2, add.1, ↑(offset + sumBytes (adds.take index))⟩ := by
  induction adds generalizing offset index with
  | nil => rfl
  | cons add adds induction =>
      cases index with
      | zero => rfl
      | succ index =>
          rw [packed, List.getElem?_cons_succ, induction,
            List.getElem?_cons_succ, List.take_succ_cons, sumBytes_cons,
            Nat.add_assoc]

theorem packed_of_mem {adds : List (Nat × Int)} {offset : Nat}
    {range : CharioBlocksRange} (member : range ∈ packed offset adds) :
    ∃ (index : Nat) (add : Nat × Int), adds[index]? = some add ∧
      range = ⟨add.2, add.1, ↑(offset + sumBytes (adds.take index))⟩ := by
  obtain ⟨index, found⟩ := List.mem_iff_getElem?.mp member
  rw [packed_getElem?] at found
  obtain ⟨add, isAdd, same⟩ := Option.map_eq_some_iff.mp found
  exact ⟨index, add, isAdd, same.symm⟩

theorem sumBytes_take {adds : List (Nat × Int)} {index : Nat} {add : Nat × Int}
    (found : adds[index]? = some add) :
    sumBytes (adds.take index) + charioBlockSize * add.1 ≤ sumBytes adds := by
  induction adds generalizing index with
  | nil => cases found
  | cons first adds induction =>
      cases index with
      | zero =>
          cases found
          rw [List.take_zero, sumBytes_nil, sumBytes_cons]
          omega
      | succ index =>
          have later := induction found
          rw [List.take_succ_cons, sumBytes_cons, sumBytes_cons]
          omega

theorem exists_range_of_byte {adds : List (Nat × Int)} {offset byte : Nat}
    (below : byte < sumBytes adds) :
    ∃ range ∈ packed offset adds, ∃ inRange < range.length,
      (↑(offset + byte) : Int) = range.bufferOffset + inRange := by
  induction adds generalizing offset byte with
  | nil => cases below
  | cons add adds induction =>
      rw [sumBytes_cons] at below
      by_cases inFirst : byte < charioBlockSize * add.1
      · exact ⟨_, List.mem_cons_self, byte, inFirst, Int.natCast_add _ _⟩
      · obtain ⟨range, member, inRange, inside, place⟩ :=
          @induction (offset + charioBlockSize * add.1)
            (byte - charioBlockSize * add.1) (by omega)
        refine ⟨range, List.mem_cons_of_mem _ member, inRange, inside, ?_⟩
        rw [← place]
        omega

theorem packed_sorted (adds : List (Nat × Int)) (offset : Nat) :
    (packed offset adds).Pairwise fun range later =>
      range.bufferOffset + (range.length : Int) ≤ later.bufferOffset := by
  induction adds generalizing offset with
  | nil => exact .nil
  | cons add adds induction =>
      refine .cons ?_ (induction _)
      intro later member
      obtain ⟨index, added, _, same⟩ := packed_of_mem member
      rw [same]
      change (offset : Int) + ↑(charioBlockSize * add.1) ≤
        ↑(offset + charioBlockSize * add.1 + sumBytes (adds.take index))
      omega

section Plans

variable {ι : Type} {plans : ι → TaskPlan}

theorem TaskPlan.Fits.plain {plan : TaskPlan} (fits : plan.Fits)
    {range : CharioBlocksRange} (member : range ∈ plan.build.ranges) :
    range.Plain := by
  rw [plan.build_ranges fits.total] at member
  obtain ⟨index, add, found, same⟩ := packed_of_mem member
  obtain ⟨start, inFile⟩ := fits.inFile add (List.mem_of_getElem? found)
  have total := fits.total
  have below := sumBytes_take found
  subst same
  refine ⟨start, inFile, ?_, Int.natCast_nonneg _, ?_⟩
  · change charioBlockSize * add.1 < _
    unfold ddrSize at total
    omega
  · change (↑(0 + sumBytes (plan.adds.take index)) : Int) % 8 = 0
    unfold sumBytes charioBlockSize
    omega

theorem TaskPlan.Fits.sorted {plan : TaskPlan} (fits : plan.Fits) :
    plan.build.ranges.Pairwise fun range later =>
      range.bufferOffset + (range.length : Int) ≤ later.bufferOffset := by
  rw [plan.build_ranges fits.total]
  exact packed_sorted plan.adds 0

/-- The block of a byte of a range is one of the blocks the range was added
with. -/
theorem covers_of_byte {range : CharioBlocksRange} (start : 0 ≤ range.start)
    {byte : Nat} (inside : byte < range.length) :
    Covers (range.count, range.start)
      (↑((range.first + byte) / charioBlockSize)) := by
  unfold CharioBlocksRange.length CharioBlocksRange.first Covers
    charioBlockSize at *
  constructor <;> omega

def taskOverlay (fits : ∀ task, (plans task).Fits) (apart : Apart plans) :
    Overlay ι (CharioBlocksRange × Nat) Nat where
  uses task place :=
    place.1 ∈ (plans task).build.ranges ∧ place.2 < place.1.length
  home _ place := place.1.first + place.2
  apart := by
    rintro task other ⟨range, byte⟩ ⟨there, byteThere⟩ ⟨member, inside⟩
      ⟨memberThere, insideThere⟩ same
    have covers := covers_of_byte ((fits task).plain member).start inside
    have coversThere :=
      covers_of_byte ((fits other).plain memberThere).start insideThere
    have sameByte : range.first + byte = there.first + byteThere := same
    rw [(plans task).build_ranges (fits task).total] at member
    rw [(plans other).build_ranges (fits other).total] at memberThere
    obtain ⟨index, add, found, isRange⟩ := packed_of_mem member
    obtain ⟨indexThere, added, foundThere, isThere⟩ := packed_of_mem memberThere
    rw [← sameByte] at coversThere
    subst isRange
    subst isThere
    obtain ⟨sameTask, sameIndex⟩ := apart found foundThere covers coversThere
    subst sameTask
    subst sameIndex
    rw [found] at foundThere
    cases foundThere
    exact ⟨rfl, congrArg _ (Nat.add_left_cancel sameByte)⟩

theorem bufferForRange_eq {lib : LibState} (opened : lib.Opened)
    (range : CharioBlocksRange) :
    bufferForRange lib range = rangeAddress lib.buffer range :=
  if_neg opened.buffer

structure Loads (lib : LibState) (task : CharioTask) (out : Int × LibState) :
    Prop where
  value : out.1 = 0
  fd : out.2.fd = lib.fd
  buffer : out.2.buffer = lib.buffer
  bytes : out.2.device.bytes = lib.device.bytes
  filled : ∀ range ∈ task.ranges, ∀ byte < range.length,
    out.2.device.memory (bufferForRange lib range + byte) =
      lib.device.bytes (range.first + byte)

theorem TaskPlan.Fits.loads {plan : TaskPlan} (fits : plan.Fits)
    {lib : LibState} (opened : lib.Opened) :
    Loads lib plan.build (charioLoadBlocksForTask lib plan.build) := by
  obtain ⟨bytes, memory⟩ := foldl_loadRange
    (fun _ => fits.plain) lib.buffer lib.device
  rw [charioLoadBlocksForTask, forEachRange_opened opened]
  refine ⟨rfl, rfl, rfl, bytes, ?_⟩
  intro range member byte inside
  change (plan.build.ranges.foldl (loadRange lib.buffer) lib.device).memory _ =
      _
  rw [memory, bufferForRange_eq opened]
  refine Window.foldl_fill_inside ?_
    (List.mem_map.mpr ⟨range, member, rfl⟩) inside _
  rw [List.pairwise_map]
  refine fits.sorted.imp_of_mem ?_
  rintro range later member memberLater above address ⟨_, before⟩ ⟨after, _⟩
  have place := (fits.plain member).rangeAddress_eq lib.buffer
  have placeLater := (fits.plain memberLater).rangeAddress_eq lib.buffer
  have below : address < rangeAddress lib.buffer range + range.length := before
  have notBelow : rangeAddress lib.buffer later ≤ address := after
  omega

variable (fits : ∀ task, (plans task).Fits) (apart : Apart plans)

structure Flushed (lib : LibState) (task : ι) (out : Int × LibState) :
    Prop where
  value : out.1 = 0
  fd : out.2.fd = lib.fd
  buffer : out.2.buffer = lib.buffer
  memory : out.2.device.memory = lib.device.memory
  flushes : (taskOverlay fits apart).Flushes task
    (fun place => lib.device.memory (bufferForRange lib place.1 + place.2))
    lib.device.bytes out.2.device.bytes

include fits apart in
theorem flushWindow_apart (task : ι) (buffer : Nat) (memory : Nat → UInt8) :
    ((plans task).build.ranges.map (·.flushWindow buffer memory)).Pairwise
      fun window other =>
        ∀ address, window.Holds address → ¬ other.Holds address := by
  rw [List.pairwise_map]
  refine (fits task).sorted.imp_of_mem ?_
  rintro range later member memberLater above address ⟨after, before⟩
    ⟨afterLater, beforeLater⟩
  have notBelow : range.first ≤ address := after
  have notBelowLater : later.first ≤ address := afterLater
  have inside : address - range.first < range.length :=
    Nat.sub_lt_left_of_lt_add notBelow before
  have insideLater : address - later.first < later.length :=
    Nat.sub_lt_left_of_lt_add notBelowLater beforeLater
  have same := (taskOverlay fits apart).apart
    (⟨member, inside⟩ : (taskOverlay fits apart).uses task (range, _))
    (⟨memberLater, insideLater⟩ : (taskOverlay fits apart).uses task (later, _))
    ((Nat.add_sub_cancel' notBelow).trans
      (Nat.add_sub_cancel' notBelowLater).symm)
  have sameRange : range = later := congrArg Prod.fst same.2
  rw [sameRange] at above inside
  omega

theorem taskFlushed (task : ι) {lib : LibState} (opened : lib.Opened) :
    Flushed fits apart lib task
      (charioFlushBlocksForTask lib (plans task).build) := by
  obtain ⟨memory, bytes⟩ := foldl_flushRange
    (fun _ => (fits task).plain) lib.buffer lib.device
  rw [charioFlushBlocksForTask, forEachRange_opened opened]
  refine ⟨rfl, rfl, rfl, memory, ?_, ?_⟩
  · rintro ⟨range, byte⟩ ⟨member, inside⟩
    change ((plans task).build.ranges.foldl (flushRange lib.buffer)
      lib.device).bytes _ = _
    rw [bytes, bufferForRange_eq opened]
    exact Window.foldl_fill_inside
      (flushWindow_apart fits apart task lib.buffer lib.device.memory)
      (List.mem_map.mpr ⟨range, member, rfl⟩) inside _
  · intro cell outside
    change ((plans task).build.ranges.foldl (flushRange lib.buffer)
      lib.device).bytes _ = _
    rw [bytes]
    apply Window.foldl_fill_outside
    intro window isWindow holds
    obtain ⟨range, member, rfl⟩ := List.mem_map.mp isWindow
    have after : range.first ≤ cell := holds.1
    have before : cell < range.first + range.length := holds.2
    refine outside (range, cell - range.first) ⟨member, ?_⟩ ?_
    · change cell - range.first < range.length
      omega
    · exact Nat.add_sub_cancel' after

end Plans

section Turns

variable {ι : Type}

structure Turn (ι : Type) where
  task : ι
  modify : (Nat → UInt8) → Nat → UInt8

variable (plans : ι → TaskPlan) (turn : Turn ι) (lib : LibState)

def Turn.loaded : LibState :=
  (charioLoadBlocksForTask lib (plans turn.task).build).2

def Turn.modified : LibState :=
  { turn.loaded plans lib with
    device := { (turn.loaded plans lib).device with
      memory := turn.modify (turn.loaded plans lib).device.memory } }

def Turn.flushed : LibState :=
  (charioFlushBlocksForTask (turn.modified plans lib) (plans turn.task).build).2

def runTurns (turns : List (Turn ι)) : LibState :=
  turns.foldl (fun lib turn => turn.flushed plans lib) lib

structure Isolated (earlier : List (Turn ι)) : Prop where
  loads : (charioLoadBlocksForTask (runTurns plans lib earlier)
    (plans turn.task).build).1 = 0
  flushes : (charioFlushBlocksForTask
    (turn.modified plans (runTurns plans lib earlier))
    (plans turn.task).build).1 = 0
  /-- The ranges tile the part of the buffer up to the size of the task. -/
  tiled : ∀ address,
    (lib.buffer ≤ address ∧
      address < lib.buffer + sumBytes (plans turn.task).adds) ↔
    ∃ range ∈ (plans turn.task).build.ranges, ∃ byte < range.length,
      address = bufferForRange lib range + byte
  /-- A task that was not flushed yet gets what the device held. -/
  initial : (∀ past ∈ earlier, past.task ≠ turn.task) →
    ∀ range ∈ (plans turn.task).build.ranges, ∀ byte < range.length,
      (turn.loaded plans (runTurns plans lib earlier)).device.memory
          (bufferForRange lib range + byte) =
        lib.device.bytes (range.first + byte)
  /-- Later on a task gets what the buffer held at its latest flush. -/
  latest : ∀ {before since : List (Turn ι)} {past : Turn ι},
    earlier = before ++ past :: since → past.task = turn.task →
    (∀ other ∈ since, other.task ≠ turn.task) →
    ∀ byte < sumBytes (plans turn.task).adds,
      (turn.loaded plans (runTurns plans lib earlier)).device.memory
          (lib.buffer + byte) =
        (past.modified plans (runTurns plans lib before)).device.memory
          (lib.buffer + byte)
  /-- A load leaves the device alone, and a flush the blocks outside the ranges
  of its task. -/
  frameLoad :
    (turn.loaded plans (runTurns plans lib earlier)).device.bytes =
      (runTurns plans lib earlier).device.bytes
  frameFlush : ∀ address,
    (∀ range ∈ (plans turn.task).build.ranges,
      ¬ Covers (range.count, range.start) (↑(address / charioBlockSize))) →
    (turn.flushed plans (runTurns plans lib earlier)).device.bytes address =
      (turn.modified plans (runTurns plans lib earlier)).device.bytes address

end Turns

section Runs

variable {ι : Type} {plans : ι → TaskPlan} (fits : ∀ task, (plans task).Fits)
variable (apart : Apart plans)

structure Turned (turn : Turn ι) (lib : LibState) : Prop where
  loads : Loads lib (plans turn.task).build
    (charioLoadBlocksForTask lib (plans turn.task).build)
  flushed : Flushed fits apart (turn.modified plans lib) turn.task
    (charioFlushBlocksForTask (turn.modified plans lib)
      (plans turn.task).build)
  opened : (turn.flushed plans lib).Opened
  buffer : (turn.flushed plans lib).buffer = lib.buffer

theorem Turn.turned (turn : Turn ι) {lib : LibState} (opened : lib.Opened) :
    Turned fits apart turn lib := by
  have loads := (fits turn.task).loads opened
  have modified : (turn.modified plans lib).Opened := by
    refine ⟨?_, ?_⟩
    · exact loads.fd.trans_ne opened.fd
    · exact loads.buffer.trans_ne opened.buffer
  have flushed := taskFlushed fits apart turn.task modified
  have buffer : (turn.flushed plans lib).buffer = lib.buffer :=
    flushed.buffer.trans loads.buffer
  refine ⟨loads, flushed, ⟨?_, ?_⟩, buffer⟩
  · exact flushed.fd.trans_ne modified.fd
  · exact buffer.trans_ne opened.buffer

theorem bufferForRange_congr {lib other : LibState}
    (same : lib.buffer = other.buffer) (range : CharioBlocksRange) :
    bufferForRange lib range = bufferForRange other range := by
  simp only [bufferForRange, same]

/-- The flush of a turn stores what the memory holds after the change. -/
theorem Turned.overlay {turn : Turn ι} {lib : LibState}
    (turned : Turned fits apart turn lib) :
    (taskOverlay fits apart).Flushes turn.task
      (fun place => (turn.modified plans lib).device.memory
        (bufferForRange lib place.1 + place.2))
      lib.device.bytes (turn.flushed plans lib).device.bytes := by
  have flushes := turned.flushed.flushes
  have before : (turn.modified plans lib).device.bytes = lib.device.bytes :=
    turned.loads.bytes
  rw [before] at flushes
  have same : (turn.modified plans lib).buffer = lib.buffer :=
    turned.loads.buffer
  simp only [bufferForRange_congr same] at flushes
  exact flushes

theorem runTurns_flushRun (turns : List (Turn ι)) {lib : LibState}
    (opened : lib.Opened) :
    (runTurns plans lib turns).Opened ∧
      (runTurns plans lib turns).buffer = lib.buffer ∧
      ∃ images : List (ι × (CharioBlocksRange × Nat → UInt8)),
        images.map Prod.fst = turns.map Turn.task ∧
        (taskOverlay fits apart).FlushRun lib.device.bytes images
          (runTurns plans lib turns).device.bytes := by
  induction turns using List.reverseRecOn with
  | nil => exact ⟨opened, rfl, [], rfl, .nil⟩
  | append_singleton turns turn induction =>
      obtain ⟨stillOpen, buffer, images, tasks, run⟩ := induction
      have turned := turn.turned fits apart stillOpen
      rw [runTurns, List.foldl_append, List.foldl_cons, List.foldl_nil,
        ← runTurns]
      refine ⟨turned.opened, turned.buffer.trans buffer, _, ?_,
        .snoc run turned.overlay⟩
      rw [List.map_append, List.map_append, tasks]
      rfl

include fits apart in
/-- Turns of other tasks leave the bytes of a task alone. -/
theorem runTurns_kept {turns : List (Turn ι)} {lib : LibState}
    (opened : lib.Opened) {task : ι}
    (absent : ∀ turn ∈ turns, turn.task ≠ task) {range : CharioBlocksRange}
    (member : range ∈ (plans task).build.ranges) {byte : Nat}
    (inside : byte < range.length) :
    (runTurns plans lib turns).device.bytes (range.first + byte) =
      lib.device.bytes (range.first + byte) := by
  obtain ⟨_, _, images, tasks, run⟩ := runTurns_flushRun fits apart turns opened
  have others : ∀ flush ∈ images, flush.1 ≠ task := by
    intro flush flushMember
    have isTask : flush.1 ∈ turns.map Turn.task := by
      rw [← tasks]
      exact List.mem_map_of_mem flushMember
    obtain ⟨turn, turnMember, same⟩ := List.mem_map.mp isTask
    rw [← same]
    exact absent turn turnMember
  exact run.kept others
    (⟨member, inside⟩ : (taskOverlay fits apart).uses task (range, byte))

theorem TaskPlan.Fits.tiled {plan : TaskPlan} (fits : plan.Fits)
    {lib : LibState} (opened : lib.Opened) (address : Nat) :
    (lib.buffer ≤ address ∧ address < lib.buffer + sumBytes plan.adds) ↔
      ∃ range ∈ plan.build.ranges, ∃ byte < range.length,
        address = bufferForRange lib range + byte := by
  constructor
  · rintro ⟨after, before⟩
    obtain ⟨range, member, byte, inside, place⟩ :=
      @exists_range_of_byte plan.adds 0 (address - lib.buffer) (by omega)
    rw [← plan.build_ranges fits.total] at member
    refine ⟨range, member, byte, inside, ?_⟩
    have atRange := (fits.plain member).rangeAddress_eq lib.buffer
    rw [bufferForRange_eq opened]
    omega
  · rintro ⟨range, member, byte, inside, place⟩
    have atRange := (fits.plain member).rangeAddress_eq lib.buffer
    rw [bufferForRange_eq opened] at place
    rw [plan.build_ranges fits.total] at member
    obtain ⟨index, add, found, same⟩ := packed_of_mem member
    have below := sumBytes_take found
    have offset : range.bufferOffset = ↑(sumBytes (plan.adds.take index)) := by
      rw [same, Nat.zero_add]
    have length : range.length = charioBlockSize * add.1 := by
      rw [same]
      rfl
    omega

theorem runTurns_append (plans : ι → TaskPlan) (lib : LibState)
    (before since : List (Turn ι)) (past : Turn ι) :
    runTurns plans lib (before ++ past :: since) =
      runTurns plans
        (past.flushed plans (runTurns plans lib before)) since := by
  rw [runTurns, List.foldl_append, List.foldl_cons]
  rfl

/-- libchario tasks are isolated and lossless. -/
theorem tasks_isolated_and_lossless {ι : Type} {plans : ι → TaskPlan}
    (fits : ∀ task, (plans task).Fits) (apart : Apart plans) {lib : LibState}
    (opened : lib.Opened) (earlier : List (Turn ι)) (turn : Turn ι) :
    Isolated plans turn lib earlier := by
  obtain ⟨stillOpen, buffer, _⟩ := runTurns_flushRun fits apart earlier opened
  have turned := turn.turned fits apart stillOpen
  have tiled := (fits turn.task).tiled opened
  -- what a load finds on the device is what the run left there
  have filled : ∀ range ∈ (plans turn.task).build.ranges,
      ∀ byte < range.length,
      (turn.loaded plans (runTurns plans lib earlier)).device.memory
          (bufferForRange lib range + byte) =
        (runTurns plans lib earlier).device.bytes (range.first + byte) := by
    intro range member byte inside
    rw [← bufferForRange_congr buffer]
    exact turned.loads.filled range member byte inside
  refine ⟨turned.loads.value, turned.flushed.value, tiled, ?_, ?_,
    turned.loads.bytes, ?_⟩
  · intro absent range member byte inside
    rw [filled range member byte inside]
    exact runTurns_kept fits apart opened absent member inside
  · intro before since past split sameTask absent byte below
    obtain ⟨range, member, inRange, inside, place⟩ :=
      (tiled (lib.buffer + byte)).mp
        ⟨Nat.le_add_right _ _, Nat.add_lt_add_left below _⟩
    obtain ⟨wasOpen, bufferBefore, _⟩ :=
      runTurns_flushRun fits apart before opened
    have pastTurned := past.turned fits apart wasOpen
    have used : (taskOverlay fits apart).uses past.task (range, inRange) := by
      rw [sameTask]
      exact ⟨member, inside⟩
    have stored := pastTurned.overlay.stored used
    rw [place, filled range member inRange inside, split, runTurns_append,
      runTurns_kept fits apart pastTurned.opened absent member inside,
      ← bufferForRange_congr bufferBefore]
    exact stored
  · intro address outside
    apply turned.flushed.flushes.kept
    rintro ⟨range, byte⟩ ⟨member, inside⟩ same
    have covers :=
      covers_of_byte ((fits turn.task).plain member).start inside
    have isAddress : range.first + byte = address := same
    rw [isAddress] at covers
    exact outside range member covers

end Runs

def testTasks : Fin 3 → TaskPlan
  | 0 => ⟨⟨0, [], 0, 0⟩, 1, [(1, 0), (2, 50), (32, 100)]⟩
  | 1 => ⟨⟨0, [], 0, 0⟩, 2, [(1, 1), (1000, 100000)]⟩
  | 2 => ⟨⟨0, [], 0, 0⟩, 3, [(2000, 256), (32, 300000)]⟩

theorem testTasks_fits (task : Fin 3) : (testTasks task).Fits := by
  match task with
  | 0 => exact ⟨by decide, by decide⟩
  | 1 => exact ⟨by decide, by decide⟩
  | 2 => exact ⟨by decide, by decide⟩

def testOwner (block : Int) : Fin 3 × Nat :=
  if block < 1 then (0, 0) else if block < 50 then (1, 0)
  else if block < 100 then (0, 1) else if block < 256 then (0, 2)
  else if block < 100000 then (2, 0) else if block < 300000 then (1, 1)
  else (2, 1)

theorem testOwner_eq {task : Fin 3} {index : Nat} {add : Nat × Int}
    {block : Int} (found : (testTasks task).adds[index]? = some add)
    (covers : Covers add block) : testOwner block = (task, index) := by
  have within := covers
  unfold Covers at within
  match task, index with
  | 0, 0 | 0, 1 | 0, 2 | 1, 0 | 1, 1 | 2, 0 | 2, 1 =>
      cases found
      simp only [testOwner]
      grind
  | 0, _ + 3 => cases found
  | 1, _ + 2 => cases found
  | 2, _ + 2 => cases found

theorem testTasks_apart : Apart testTasks := by
  intro task other index there add added block found foundThere covers
    coversThere
  have same := (testOwner_eq found covers).symm.trans
    (testOwner_eq foundThere coversThere)
  exact Prod.mk.inj same

/-- The first task after a turn of each of the three. -/
theorem tasks_isolated_and_lossless_test :
    Isolated testTasks ⟨0, fun memory => memory⟩
      ⟨3, 4096, ⟨0, fun _ => 0, fun _ => 0⟩⟩
      [⟨0, fun memory address => memory address + 1⟩,
        ⟨1, fun memory address => memory address + 2⟩,
        ⟨2, fun memory address => memory address + 3⟩] :=
  tasks_isolated_and_lossless testTasks_fits testTasks_apart
    ⟨by decide, by decide⟩ _ _

end Chario.Libchario
