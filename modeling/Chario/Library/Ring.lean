import Mathlib.Data.Nat.ModEq
import Mathlib.Algebra.Order.Ring.Nat
import Mathlib.Tactic.Ring

namespace Chario.Library

/-! Positions in a ring of `depth` slots.  The `count`-th element lives in slot
`count % depth`; `advance` is the wrap-around increment written as a compare. -/

def advance (depth index : Nat) : Nat :=
  if index + 1 = depth then 0 else index + 1

theorem advance_mod {depth : Nat} (positive : 0 < depth) (count : Nat) :
    advance depth (count % depth) = (count + 1) % depth := by
  have bound := Nat.mod_lt count positive
  unfold advance
  rw [Nat.add_mod]
  split
  next wraps =>
      by_cases one : depth = 1
      · subst one
        simp [Nat.mod_one]
      · rw [Nat.mod_eq_of_lt (show 1 < depth by omega), wraps, Nat.mod_self]
  next stays =>
      rw [Nat.mod_eq_of_lt (show 1 < depth by omega),
        Nat.mod_eq_of_lt (show count % depth + 1 < depth by omega)]

theorem mod_inj_of_lt {depth first second : Nat} (ordered : first ≤ second)
    (close : second < first + depth)
    (same : first % depth = second % depth) : first = second := by
  have divides : depth ∣ second - first :=
    (Nat.modEq_iff_dvd' ordered).mp same
  have zero : second - first = 0 :=
    Nat.eq_zero_of_dvd_of_lt divides (by omega)
  omega

/-- The phase bit of the `count`-th element: one on the first lap, inverted on
each later one. -/
def lapPhase (depth count : Nat) : Nat := (count / depth + 1) % 2

theorem lapPhase_lt (depth count : Nat) : lapPhase depth count < 2 :=
  Nat.mod_lt _ (by decide)

theorem lapPhase_zero {depth count : Nat} (first : count < depth) :
    lapPhase depth count = 1 := by
  simp [lapPhase, Nat.div_eq_of_lt first]

theorem lapPhase_add_depth {depth : Nat} (positive : 0 < depth)
    (count : Nat) :
    lapPhase depth (count + depth) = 1 - lapPhase depth count := by
  unfold lapPhase
  rw [Nat.add_div_right _ positive]
  omega

theorem lapPhase_succ {depth : Nat} (positive : 0 < depth) (count : Nat) :
    lapPhase depth (count + 1) =
      if count % depth + 1 = depth then 1 - lapPhase depth count
      else lapPhase depth count := by
  have split := Nat.div_add_mod count depth
  have bound := Nat.mod_lt count positive
  unfold lapPhase
  split
  next wraps =>
      have next : (count + 1) / depth = count / depth + 1 := by
        have : count + 1 = depth * (count / depth + 1) := by
          rw [Nat.mul_add]
          omega
        rw [this, Nat.mul_div_cancel_left _ positive]
      rw [next]
      omega
  next stays =>
      have next : (count + 1) / depth = count / depth := by
        apply Nat.div_eq_of_lt_le
        · rw [Nat.mul_comm]
          omega
        · rw [Nat.mul_comm, Nat.mul_add]
          omega
      rw [next]

end Chario.Library
