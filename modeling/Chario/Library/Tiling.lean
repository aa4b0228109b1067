import Mathlib.Data.List.Basic
import Mathlib.Data.List.Range

namespace Chario.Library

/-! A range cut into windows of one width, the last one shorter. -/

def windowSize (width total index : Nat) : Nat :=
  min width (total - width * index)

theorem flatMap_windows {α β : Type} (width : Nat) (unit : Nat → β)
    (piece : α → List β) :
    ∀ {items : List α} {start total : Nat}, total ≤ width * items.length →
      (∀ {index : Nat} {item : α}, items[index]? = some item →
        piece item = (List.range' (start + width * index)
          (windowSize width total index)).map unit) →
      items.flatMap piece = (List.range' start total).map unit := by
  intro items
  induction items with
  | nil =>
      intro start total enough _
      rw [Nat.le_zero.mp enough]
      rfl
  | cons item items induction =>
      intro start total enough pieces
      have first := @pieces 0 item rfl
      rw [Nat.mul_zero, Nat.add_zero, windowSize, Nat.mul_zero,
        Nat.sub_zero] at first
      have later := @induction (start + width) (total - width)
        (by rw [List.length_cons, Nat.mul_succ] at enough; omega) (by
          intro index item found
          have piece := @pieces (index + 1) item found
          have moved : start + width * (index + 1) =
              start + width + width * index := by
            rw [Nat.mul_succ]
            omega
          have left : windowSize width total (index + 1) =
              windowSize width (total - width) index := by
            unfold windowSize
            rw [Nat.mul_succ]
            omega
          rwa [moved, left] at piece)
      rw [List.flatMap_cons, first, later, ← List.map_append]
      congr 1
      by_cases full : width ≤ total
      · rw [Nat.min_eq_left full, List.range'_append_1,
          Nat.add_sub_cancel' full]
      · have short : total - width = 0 := by omega
        rw [Nat.min_eq_right (by omega), short]
        simp

end Chario.Library
