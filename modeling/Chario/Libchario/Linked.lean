import Chario.Libchario.ListRuns
import Chario.Libchario.Tasks

namespace Chario.Libchario.Linked

open Chario.Library
open Chario.Device

/-! libchario on the memory of its process: tasks and ranges as structures that
are linked by their `list_head`s. -/

structure TaskStruct where
  id : Int
  rangeCount : Nat
  totalSize : Nat
deriving DecidableEq, Repr

/-- `list` is the first member of a range, so that the address of its list head
is that of the range; `ranges` has the other members. -/
structure Heap where
  links : Links Nat
  ranges : Nat → CharioBlocksRange
  tasks : Nat → TaskStruct

/-- `&task->ranges`, behind the `int` of the task. -/
def rangesOf (task : Nat) : Nat := task + 4

def charioInitTask (heap : Heap) (task : Nat) (id : Int) : Heap :=
  { heap with
    tasks := Function.update heap.tasks task { heap.tasks task with id := id }
    links := initListHead heap.links (rangesOf task) }

/-- `chario_add_range_to_task` with what `malloc` returns. -/
def charioAddRangeToTask (heap : Heap) (task count : Nat) (offset : Int)
    (range : Nat) : Heap :=
  let bufferOffset :=
    if listEmpty heap.links (rangesOf task) then 0
    else
      let previous := heap.ranges (heap.links.prev (rangesOf task))
      toOff (previous.bufferOffset + previous.size)
  { links := listAddTail heap.links range (rangesOf task)
    ranges := Function.update heap.ranges range ⟨offset, count, bufferOffset⟩
    tasks := Function.update heap.tasks task
      { heap.tasks task with
        rangeCount := ((heap.tasks task).rangeCount + 1) % 2 ^ 32
        totalSize :=
          ((heap.tasks task).totalSize + count * charioBlockSize) % 2 ^ 32 } }

def forEachRange (access : Nat → FlatDevice → CharioBlocksRange → FlatDevice)
    (turns : Nat) (heap : Heap) (lib : LibState) (task : Nat) :
    Option (Int × LibState) :=
  if lib.fd = -1 ∨ lib.buffer = 0 then some (1, lib)
  else
    (listForEach heap.links.next (rangesOf task)
      (fun device range => access lib.buffer device (heap.ranges range)) turns
      (heap.links.next (rangesOf task)) lib.device).map
        (fun device => (0, { lib with device := device }))

def charioLoadBlocksForTask := forEachRange loadRange

def charioFlushBlocksForTask := forEachRange flushRange

inductive Call
  | initDevice (opened : Int) (allocated : Nat)
  | closeDevice
  | initTask (task : Nat) (id : Int)
  | addRange (task count : Nat) (offset : Int) (range : Nat)
  | load (task : Nat)
  | flush (task : Nat)
deriving DecidableEq, Repr

def Call.run (turns : Nat) (heap : Heap) (lib : LibState) :
    Call → Option (Int × Heap × LibState)
  | .initDevice opened allocated =>
      let opened := charioInitDevice opened allocated lib
      some (opened.1, heap, opened.2)
  | .closeDevice =>
      let closed := charioCloseDevice lib
      some (closed.1, heap, closed.2)
  | .initTask task id => some (0, charioInitTask heap task id, lib)
  | .addRange task count offset range =>
      some (0, charioAddRangeToTask heap task count offset range, lib)
  | .load task =>
      (charioLoadBlocksForTask turns heap lib task).map
        (fun loaded => (loaded.1, heap, loaded.2))
  | .flush task =>
      (charioFlushBlocksForTask turns heap lib task).map
        (fun flushed => (flushed.1, heap, flushed.2))

def runCalls (turns : Nat) : Heap → LibState → List Call →
    Option (List Int × Heap × LibState)
  | heap, lib, [] => some ([], heap, lib)
  | heap, lib, call :: calls =>
      match call.run turns heap lib with
      | none => none
      | some (value, heap, lib) =>
          (runCalls turns heap lib calls).map
            (fun rest => (value :: rest.1, rest.2))

def Call.runTasks (tasks : Nat → CharioTask) (lib : LibState) :
    Call → Int × (Nat → CharioTask) × LibState
  | .initDevice opened allocated =>
      let opened := charioInitDevice opened allocated lib
      (opened.1, tasks, opened.2)
  | .closeDevice =>
      let closed := charioCloseDevice lib
      (closed.1, tasks, closed.2)
  | .initTask task id =>
      (0, Function.update tasks task (Libchario.charioInitTask (tasks task) id),
        lib)
  | .addRange task count offset _ =>
      (0, Function.update tasks task
        (Libchario.charioAddRangeToTask (tasks task) count offset), lib)
  | .load task =>
      let loaded := Libchario.charioLoadBlocksForTask lib (tasks task)
      (loaded.1, tasks, loaded.2)
  | .flush task =>
      let flushed := Libchario.charioFlushBlocksForTask lib (tasks task)
      (flushed.1, tasks, flushed.2)

def runTasks : (Nat → CharioTask) → LibState → List Call →
    List Int × (Nat → CharioTask) × LibState
  | tasks, lib, [] => ([], tasks, lib)
  | tasks, lib, call :: calls =>
      let called := call.runTasks tasks lib
      let rest := runTasks called.2.1 called.2.2 calls
      (called.1 :: rest.1, rest.2)

def structSize : Nat := 20

def Overlaps (one other : Nat) : Prop :=
  one < other + structSize ∧ other < one + structSize

instance (one other : Nat) : Decidable (Overlaps one other) :=
  inferInstanceAs (Decidable (_ ∧ _))

/-- Tasks are initialised before they are used, and no two structures overlap:
not those of the client, nor those that `malloc` returns. -/
def Proper : List Nat → List Nat → List Call → Prop
  | _, _, [] => True
  | begun, ranges, .initDevice _ _ :: calls => Proper begun ranges calls
  | begun, ranges, .closeDevice :: calls => Proper begun ranges calls
  | begun, ranges, .initTask task _ :: calls =>
      ((∀ other ∈ begun, other = task ∨ ¬ Overlaps task other) ∧
        ∀ range ∈ ranges, ¬ Overlaps task range) ∧
        Proper (task :: begun) ranges calls
  | begun, ranges, .addRange task _ _ range :: calls =>
      (task ∈ begun ∧ ∀ other ∈ begun ++ ranges, ¬ Overlaps range other) ∧
        Proper begun (range :: ranges) calls
  | begun, ranges, .load task :: calls => task ∈ begun ∧
      Proper begun ranges calls
  | begun, ranges, .flush task :: calls => task ∈ begun ∧
      Proper begun ranges calls

instance decidableProper : (begun ranges : List Nat) → (calls : List Call) →
    Decidable (Proper begun ranges calls)
  | _, _, [] => isTrue trivial
  | begun, ranges, .initDevice _ _ :: calls =>
      decidableProper begun ranges calls
  | begun, ranges, .closeDevice :: calls => decidableProper begun ranges calls
  | begun, ranges, .initTask task _ :: calls =>
      have := decidableProper (task :: begun) ranges calls
      inferInstanceAs (Decidable (_ ∧ _))
  | begun, ranges, .addRange _ _ _ range :: calls =>
      have := decidableProper begun (range :: ranges) calls
      inferInstanceAs (Decidable (_ ∧ _))
  | begun, ranges, .load _ :: calls =>
      have := decidableProper begun ranges calls
      inferInstanceAs (Decidable (_ ∧ _))
  | begun, ranges, .flush _ :: calls =>
      have := decidableProper begun ranges calls
      inferInstanceAs (Decidable (_ ∧ _))

/-- The memory and the tasks it stands for. -/
structure Holds (begun allocated : List Nat) (heap : Heap)
    (tasks : Nat → CharioTask)
    (lists : Lists) : Prop where
  represents : heap.links.Represents lists
  heads : ∀ head, (lists head).isSome ↔ head ∈ begun.map rangesOf
  entries : ∀ {head entries}, lists head = some entries → entries ⊆ allocated
  ranges : ∀ {task entries}, lists (rangesOf task) = some entries →
    (tasks task).ranges = entries.map heap.ranges
  fields : ∀ task, heap.tasks task =
    ⟨(tasks task).id, (tasks task).rangeCount, (tasks task).totalSize⟩

namespace Holds

variable {begun allocated : List Nat} {heap : Heap} {tasks : Nat → CharioTask}
variable {lists : Lists} {task : Nat}

theorem begin (heap : Heap) :
    Holds [] [] heap (fun task =>
      ⟨(heap.tasks task).id, [], (heap.tasks task).rangeCount,
        (heap.tasks task).totalSize⟩)
      noLists where
  represents := ⟨nofun, nofun⟩
  heads := by simp [noLists]
  entries := nofun
  ranges := nofun
  fields _ := rfl

theorem of_begun (holds : Holds begun allocated heap tasks lists)
    (member : task ∈ begun) :
    ∃ entries, lists (rangesOf task) = some entries :=
  Option.isSome_iff_exists.mp
    ((holds.heads (rangesOf task)).mpr (List.mem_map_of_mem member))

theorem length_le (holds : Holds begun allocated heap tasks lists)
    {entries : List Nat}
    (found : lists (rangesOf task) = some entries) :
    entries.length ≤ allocated.length :=
  (List.subperm_of_subset (holds.represents.cycle found).nodup.of_cons
    (holds.entries found)).length_le

theorem initTask (holds : Holds begun allocated heap tasks lists)
    (apart : ∀ range ∈ allocated, ¬ Overlaps task range) (id : Int) :
    Holds (task :: begun) allocated (charioInitTask heap task id)
      (Function.update tasks task (Libchario.charioInitTask (tasks task) id))
      (Function.update lists (rangesOf task) (some [])) where
  represents := by
    refine initListHead_represents holds.represents ?_
    rintro ⟨head, entries, found, member⟩
    refine apart _ (holds.entries found member) ?_
    simp only [Overlaps, structSize, rangesOf]
    omega
  heads := by
    intro head
    rw [Function.update_apply, List.map_cons, List.mem_cons]
    split
    next isHead => simp [isHead]
    next notHead => simp [notHead, holds.heads head]
  entries := by
    intro head entries found
    rw [Function.update_apply] at found
    split at found
    next =>
        cases found
        exact List.nil_subset _
    next => exact holds.entries found
  ranges := by
    intro other entries found
    rw [Function.update_apply] at found
    split at found
    next same =>
        cases found
        have isTask : other = task := Nat.add_right_cancel same
        rw [isTask, Function.update_self]
        rfl
    next different =>
        have notTask : other ≠ task := fun same => different (by rw [same])
        rw [Function.update_of_ne notTask]
        exact holds.ranges found
  fields := by
    intro other
    simp only [charioInitTask, Function.update_apply]
    split
    next =>
        rw [holds.fields task]
        rfl
    next => exact holds.fields other

theorem bufferOffset_eq (holds : Holds begun allocated heap tasks lists)
    {entries : List Nat}
    (found : lists (rangesOf task) = some entries) :
    (if listEmpty heap.links (rangesOf task) then 0
      else
        let previous := heap.ranges (heap.links.prev (rangesOf task))
        toOff (previous.bufferOffset + previous.size)) =
          nextOffset (tasks task).ranges := by
  have cycle := holds.represents.cycle found
  rw [holds.ranges found, nextOffset, List.getLast?_map]
  split
  next empty =>
      have isNil := (listEmpty_iff cycle).mp empty
      rw [isNil, List.getLast?_nil, Option.map_none]
  next notEmpty =>
      have nonempty : entries ≠ [] :=
        fun isNil => notEmpty ((listEmpty_iff cycle).mpr isNil)
      rw [cycle.last nonempty, Option.map_some]

theorem addRange (holds : Holds begun allocated heap tasks lists)
    (member : task ∈ begun)
    {range : Nat} (apart : ∀ other ∈ begun ++ allocated, ¬ Overlaps range other)
    (count : Nat)
    (offset : Int) :
    ∃ lists, Holds begun (range :: allocated)
      (charioAddRangeToTask heap task count offset range)
      (Function.update tasks task
        (Libchario.charioAddRangeToTask (tasks task) count offset)) lists := by
  obtain ⟨entries, found⟩ := holds.of_begun member
  have notAllocated : range ∉ allocated := by
    intro isAllocated
    refine apart range (List.mem_append_right _ isAllocated) ?_
    simp [Overlaps, structSize]
  have absent : Links.Absent lists range := by
    intro head entries found
    rw [List.mem_cons, not_or]
    refine ⟨?_, fun inList => notAllocated (holds.entries found inList)⟩
    rintro rfl
    obtain ⟨other, isBegun, isRange⟩ := List.mem_map.mp
      ((holds.heads range).mp (by rw [found]; rfl))
    refine apart other (List.mem_append_left _ isBegun) ?_
    simp only [Overlaps, structSize, rangesOf] at isRange ⊢
    omega
  have represents := listAddTail_represents holds.represents absent found
  have offsets := holds.bufferOffset_eq found
  have kept : ∀ {head entries}, lists head = some entries → ∀ value,
      entries.map (Function.update heap.ranges range value) =
        entries.map heap.ranges := by
    intro head entries found value
    refine List.map_congr_left ?_
    intro entry inList
    refine Function.update_of_ne ?_ _ _
    rintro rfl
    exact absent head entries found (List.mem_cons_of_mem _ inList)
  rw [Lists.change, found, Option.map_some] at represents
  refine ⟨_, represents, ?_, ?_, ?_, ?_⟩
  · intro head
    rw [Function.update_apply]
    split
    next isHead =>
        rw [isHead, ← holds.heads, found]
        simp
    next => exact holds.heads head
  · intro head others foundOther
    rw [Function.update_apply] at foundOther
    split at foundOther
    next =>
        cases foundOther
        refine List.append_subset.mpr ⟨?_, ?_⟩
        · exact List.subset_cons_of_subset _ (holds.entries found)
        · simp
    next => exact List.subset_cons_of_subset _ (holds.entries foundOther)
  · intro other others foundOther
    rw [Function.update_apply] at foundOther
    split at foundOther
    next same =>
        cases foundOther
        have isTask : other = task := Nat.add_right_cancel same
        rw [isTask, Function.update_self, List.map_append, List.map_singleton]
        simp only [Libchario.charioAddRangeToTask,
          charioAddRangeToTask, offsets,
          Function.update_self]
        rw [kept found, holds.ranges found]
    next different =>
        have notTask : other ≠ task := fun same => different (by rw [same])
        rw [Function.update_of_ne notTask, holds.ranges foundOther]
        exact (kept foundOther _).symm
  · intro other
    simp only [charioAddRangeToTask, Function.update_apply]
    split
    next =>
        rw [holds.fields task]
        rfl
    next => exact holds.fields other

theorem forEachRange (holds : Holds begun allocated heap tasks lists)
    (member : task ∈ begun)
    (access : Nat → FlatDevice → CharioBlocksRange → FlatDevice)
    (lib : LibState)
    {turns : Nat} (enough : allocated.length < turns) :
    Linked.forEachRange access turns heap lib task =
      some (Libchario.forEachRange access lib (tasks task)) := by
  obtain ⟨entries, found⟩ := holds.of_begun member
  have cycle := holds.represents.cycle found
  have short := Nat.lt_of_le_of_lt (holds.length_le found) enough
  unfold Linked.forEachRange Libchario.forEachRange
  split
  next => rfl
  next =>
      rw [listForEach_forward _ cycle lib.device short, Option.map_some,
        holds.ranges found, List.foldl_map]

end Holds

section Runs

variable {begun allocated : List Nat} {heap : Heap} {tasks : Nat → CharioTask}
variable {lists : Lists}

structure Agree (turns : Nat) (heap : Heap) (tasks : Nat → CharioTask)
    (lib : LibState)
    (calls : List Call) (begun : List Nat) : Prop where
  reached : ∃ values heap' tasks' lib' begun' allocated lists,
    runCalls turns heap lib calls = some (values, heap', lib') ∧
      runTasks tasks lib calls = (values, tasks', lib') ∧
      Holds begun' allocated heap' tasks' lists ∧ begun ⊆ begun' ∧
      ∀ task id, Call.initTask task id ∈ calls → task ∈ begun'

theorem Agree.cons {turns : Nat} {call : Call} {calls : List Call}
    {lib lib' : LibState}
    {value : Int} {heap' : Heap} {tasks' : Nat → CharioTask} {begun' : List Nat}
    (linked : call.run turns heap lib = some (value, heap', lib'))
    (plain : call.runTasks tasks lib = (value, tasks', lib'))
    (more : begun ⊆ begun')
    (begins : ∀ task id, call = .initTask task id → task ∈ begun')
    (agree : Agree turns heap' tasks' lib' calls begun') :
    Agree turns heap tasks lib (call :: calls) begun := by
  obtain ⟨values, heapEnd, tasksEnd, libEnd, begunEnd, allocated, lists, ran,
    ranTasks, holds,
    grows, initialised⟩ := agree.reached
  refine ⟨value :: values, heapEnd, tasksEnd, libEnd, begunEnd, allocated,
    lists, ?_, ?_, holds,
    List.Subset.trans more grows, ?_⟩
  · rw [runCalls, linked]
    simp [ran]
  · rw [runTasks, plain]
    simp [ranTasks]
  · intro task id member
    cases List.mem_cons.mp member with
    | inl isFirst => exact grows (begins task id isFirst.symm)
    | inr isLater => exact initialised task id isLater

theorem Holds.agree {calls : List Call}
    (holds : Holds begun allocated heap tasks lists)
    (proper : Proper begun allocated calls) (lib : LibState) {turns : Nat}
    (enough : allocated.length + calls.length < turns) :
    Agree turns heap tasks lib calls begun := by
  induction calls generalizing begun allocated heap tasks lists lib with
  | nil =>
      exact ⟨[], heap, tasks, lib, begun, allocated, lists, rfl, rfl, holds,
        List.Subset.refl _, nofun⟩
  | cons call calls induction =>
      rw [List.length_cons] at enough
      have fewer : allocated.length + calls.length < turns := by omega
      have roomy : allocated.length < turns := by omega
      cases call with
      | initDevice opened address =>
          exact .cons rfl rfl (List.Subset.refl _) nofun
            (induction holds proper _ fewer)
      | closeDevice =>
          exact .cons rfl rfl (List.Subset.refl _) nofun
            (induction holds proper _ fewer)
      | initTask task id =>
          refine .cons rfl rfl (List.subset_cons_self _ _) ?_
            (induction (holds.initTask proper.1.2 id) proper.2 lib fewer)
          rintro other otherId same
          cases same
          exact List.mem_cons_self
      | addRange task count offset range =>
          obtain ⟨lists, added⟩ :=
            holds.addRange proper.1.1 proper.1.2 count offset
          refine .cons rfl rfl (List.Subset.refl _) nofun
            (induction added proper.2 lib ?_)
          rw [List.length_cons]
          omega
      | load task =>
          have loaded := holds.forEachRange proper.1 loadRange lib roomy
          refine .cons ?_ rfl (List.Subset.refl _) nofun
            (induction holds proper.2 _ fewer)
          rw [Call.run, charioLoadBlocksForTask, loaded]
          rfl
      | flush task =>
          have flushed := holds.forEachRange proper.1 flushRange lib roomy
          refine .cons ?_ rfl (List.Subset.refl _) nofun
            (induction holds proper.2 _ fewer)
          rw [Call.run, charioFlushBlocksForTask, flushed]
          rfl

end Runs

def Heap.unused (heap : Heap) (task : Nat) : CharioTask where
  id := (heap.tasks task).id
  ranges := []
  rangeCount := (heap.tasks task).rangeCount
  totalSize := (heap.tasks task).totalSize

/-- Whatever a client does with any number of tasks, in whatever order: the
library on its linked structures ends every loop, and returns, reads and writes
what it does on tasks that hold their ranges as a sequence.  Each task is in the
end the cycle of the ranges in that sequence. -/
theorem linked_refines_tasks {calls : List Call} (proper : Proper [] [] calls)
    (heap : Heap)
    (lib : LibState) {turns : Nat} (enough : calls.length < turns) :
    ∃ values heap' tasks' lib',
      runCalls turns heap lib calls = some (values, heap', lib') ∧
      runTasks heap.unused lib calls = (values, tasks', lib') ∧
      ∀ task id, Call.initTask task id ∈ calls →
        ∃ pointers, heap'.links.Cycle (rangesOf task) pointers ∧
          heap'.tasks task = ⟨(tasks' task).id, (tasks' task).rangeCount,
            (tasks' task).totalSize⟩ ∧
          (tasks' task).ranges = pointers.map heap'.ranges := by
  have agree := (Holds.begin heap).agree proper lib (by simpa using enough)
  obtain ⟨values, heap', tasks', lib', begun, allocated, lists, ran,
    ranTasks, holds, _,
    initialised⟩ := agree.reached
  refine ⟨values, heap', tasks', lib', ran, ranTasks, ?_⟩
  intro task id member
  obtain ⟨pointers, found⟩ := holds.of_begun (initialised task id member)
  exact ⟨pointers, holds.represents.cycle found, holds.fields task,
    holds.ranges found⟩

/-- Two tasks whose ranges come from `malloc` in turn. -/
def twoTasks : List Call :=
  [.initDevice 3 0x4000, .initTask 100 1, .initTask 200 2,
    .addRange 100 2 5 1000,
    .addRange 200 1 9 1020, .addRange 100 1 7 1040, .load 100, .flush 200,
    .closeDevice]

def blankHeap : Heap where
  links := ⟨id, id⟩
  ranges _ := ⟨0, 0, 0⟩
  tasks _ := ⟨0, 0, 0⟩

def closedLib : LibState where
  fd := -1
  buffer := 0
  device := ⟨0, fun _ => 0, fun _ => 0⟩

theorem linked_refines_tasks_twoTasks :
    ∃ heap' lib', runCalls 10 blankHeap closedLib twoTasks =
        some ([0x4000, 0, 0, 0, 0, 0, 0, 0, 0], heap', lib') ∧
      ∃ pointers, heap'.links.Cycle (rangesOf 100) pointers ∧
        pointers.map heap'.ranges = [⟨5, 2, 0⟩, ⟨7, 1, 8192⟩] := by
  have proper : Proper [] [] twoTasks := by decide
  have returned : (runTasks blankHeap.unused closedLib twoTasks).1 =
      [0x4000, 0, 0, 0, 0, 0, 0, 0, 0] := by decide
  have ranges :
      ((runTasks blankHeap.unused closedLib twoTasks).2.1 100).ranges =
      [⟨5, 2, 0⟩, ⟨7, 1, 8192⟩] := by decide
  have enough : twoTasks.length < 10 := by decide
  obtain ⟨values, heap', tasks', lib', ran, ranTasks, cycles⟩ :=
    linked_refines_tasks proper blankHeap closedLib enough
  rw [ranTasks] at returned ranges
  obtain ⟨pointers, cycle, _, holds⟩ := cycles 100 1 (by decide)
  subst returned
  exact ⟨heap', lib', ran, pointers, cycle, by rw [← holds, ranges]⟩

end Chario.Libchario.Linked
