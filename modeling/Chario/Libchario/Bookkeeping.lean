import Chario.Libchario.Turns

namespace Chario.Libchario

/-! What a task records of its ranges: the list, their number, their total size
and the place of each in the buffer. -/

structure CharioTask.Stored (task : CharioTask) : Prop where
  rangeCount : task.rangeCount < 2 ^ 32
  totalSize : task.totalSize < 2 ^ 32

/-- No sum the task keeps overflows: the number of its ranges, their total size,
and the offset at which each begins. -/
structure NoOverflow (adds : List (Nat × Int)) : Prop where
  number : adds.length < 2 ^ 32
  total : sumBytes adds < 2 ^ 32
  offsets : ∀ index < adds.length, sumBytes (adds.take index) < 2 ^ 31

namespace CharioBlocksRange

/-- The bytes of the buffer that the range takes, in order. -/
def area (range : CharioBlocksRange) : List Int :=
  (List.range range.length).map fun byte : Nat => range.bufferOffset + byte

end CharioBlocksRange

structure CharioTask.Matches (adds : List (Nat × Int)) (task : CharioTask) :
    Prop where
  ranges : task.ranges.map (fun range => (range.count, range.start)) = adds
  rangeCount : task.rangeCount = adds.length
  totalSize : task.totalSize = charioBlockSize * (adds.map Prod.fst).sum
  offsets : task.ranges.map CharioBlocksRange.bufferOffset =
    (List.range adds.length).map fun index =>
      ((charioBlockSize * ((adds.take index).map Prod.fst).sum : Nat) : Int)
  packs : task.ranges.flatMap CharioBlocksRange.area =
    (List.range task.totalSize).map fun byte : Nat => (byte : Int)

section Packed

theorem packed_adds (adds : List (Nat × Int)) (offset : Nat) :
    (packed offset adds).map (fun range => (range.count, range.start)) =
      adds := by
  induction adds generalizing offset with
  | nil => rfl
  | cons add adds induction =>
      rw [packed, List.map_cons, induction]

theorem packed_offsets (adds : List (Nat × Int)) (offset : Nat) :
    (packed offset adds).map CharioBlocksRange.bufferOffset =
      (List.range adds.length).map fun index =>
        ((offset + sumBytes (adds.take index) : Nat) : Int) := by
  refine List.ext_getElem? ?_
  intro index
  rw [List.getElem?_map, packed_getElem?, List.getElem?_map, Option.map_map]
  cases found : adds[index]? with
  | none =>
      have past := List.getElem?_eq_none_iff.mp found
      rw [List.getElem?_eq_none (by rw [List.length_range]; exact past)]
      rfl
  | some add =>
      have inside := (List.getElem?_eq_some_iff.mp found).1
      rw [List.getElem?_range inside]
      rfl

theorem packed_area (adds : List (Nat × Int)) (offset : Nat) :
    (packed offset adds).flatMap CharioBlocksRange.area =
      (List.range (sumBytes adds)).map fun byte =>
        ((offset + byte : Nat) : Int) := by
  induction adds generalizing offset with
  | nil => rfl
  | cons add adds induction =>
      rw [packed, List.flatMap_cons, induction, sumBytes_cons, List.range_add,
        List.map_append, List.map_map]
      refine congrArg₂ _ ?_ ?_
      · refine List.map_congr_left ?_
        intro byte _
        exact (Int.natCast_add _ _).symm
      · refine List.map_congr_left ?_
        intro byte _
        rw [Function.comp_apply, Nat.add_assoc]

end Packed

section Summaries

variable (storage : CharioTask) (id : Int)

theorem TaskPlan.build_rangeCount (stored : storage.Stored)
    (adds : List (Nat × Int)) :
    (TaskPlan.mk storage id adds).build.rangeCount =
      (storage.rangeCount + adds.length) % 2 ^ 32 := by
  induction adds using List.reverseRecOn with
  | nil => exact (Nat.mod_eq_of_lt stored.rangeCount).symm
  | append_singleton adds add induction =>
      rw [build_snoc, charioAddRangeToTask, induction, List.length_append,
        List.length_singleton, Nat.mod_add_mod, Nat.add_assoc]

theorem TaskPlan.build_totalSize (stored : storage.Stored)
    (adds : List (Nat × Int)) :
    (TaskPlan.mk storage id adds).build.totalSize =
      (storage.totalSize + sumBytes adds) % 2 ^ 32 := by
  induction adds using List.reverseRecOn with
  | nil => exact (Nat.mod_eq_of_lt stored.totalSize).symm
  | append_singleton adds add induction =>
      rw [build_snoc, charioAddRangeToTask, induction, sumBytes_snoc,
        Nat.mod_add_mod, Nat.add_assoc, Nat.mul_comm add.1]

end Summaries

/-- The bookkeeping of a task is right exactly when the structure it was built
in held no ranges and no bytes before. -/
theorem bookkeeping_matches_iff (plan : TaskPlan)
    (stored : plan.storage.Stored) (noOverflow : NoOverflow plan.adds) :
    plan.build.Matches plan.adds ↔
      plan.storage.rangeCount = 0 ∧ plan.storage.totalSize = 0 := by
  have ranges : plan.build.ranges = packed 0 plan.adds :=
    TaskPlan.build_ranges_of_prefixes _ _ noOverflow.offsets
  have number : plan.build.rangeCount =
      (plan.storage.rangeCount + plan.adds.length) % 2 ^ 32 :=
    TaskPlan.build_rangeCount _ _ stored _
  have total : plan.build.totalSize =
      (plan.storage.totalSize + sumBytes plan.adds) % 2 ^ 32 :=
    TaskPlan.build_totalSize _ _ stored _
  have lessRanges := stored.rangeCount
  have lessBytes := stored.totalSize
  have fewRanges := noOverflow.number
  have fewBytes := noOverflow.total
  constructor
  · intro isRight
    have sameNumber := isRight.rangeCount
    have sameTotal : plan.build.totalSize = sumBytes plan.adds :=
      isRight.totalSize
    constructor <;> omega
  · rintro ⟨noRanges, noBytes⟩
    rw [noRanges, Nat.zero_add, Nat.mod_eq_of_lt fewRanges] at number
    rw [noBytes, Nat.zero_add, Nat.mod_eq_of_lt fewBytes] at total
    refine ⟨?_, number, total, ?_, ?_⟩
    · rw [ranges, packed_adds]
    · rw [ranges, packed_offsets]
      refine List.map_congr_left ?_
      intro index _
      rw [Nat.zero_add]
      rfl
    · rw [ranges, packed_area, total]
      refine List.map_congr_left ?_
      intro byte _
      rw [Nat.zero_add]

def testPlan : TaskPlan :=
  ⟨⟨0, [], 0, 0⟩, 1, [(1, 0), (2, 50), (32, 100)]⟩

theorem testPlan_matches : testPlan.build.Matches testPlan.adds := by
  refine (bookkeeping_matches_iff testPlan ⟨by decide, by decide⟩
    ⟨by decide, by decide, ?_⟩).mpr ⟨rfl, rfl⟩
  decide

/-- The same structure taken for a second task: the ranges and the bytes of the
first one are still counted. -/
def reusedPlan : TaskPlan := ⟨testPlan.build, 2, [(1, 1), (1000, 100000)]⟩

theorem reusedPlan_mismatch :
    reusedPlan.storage.Stored ∧ NoOverflow reusedPlan.adds ∧
      reusedPlan.build.rangeCount = 5 ∧
      ¬ reusedPlan.build.Matches reusedPlan.adds := by
  refine ⟨⟨by decide, by decide⟩, ⟨by decide, by decide, by decide⟩, rfl, ?_⟩
  intro isRight
  exact absurd isRight.rangeCount (by decide)

end Chario.Libchario
