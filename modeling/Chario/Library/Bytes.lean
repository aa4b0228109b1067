import Mathlib.Data.List.Basic
import Mathlib.Tactic.Ring

namespace Chario.Library

/-! Numbers as bytes, the most significant first, and records of one width one
after the other. -/

def bigEndian : List UInt8 → Nat
  | [] => 0
  | byte :: rest => byte.toNat * 256 ^ rest.length + bigEndian rest

def toBigEndian : Nat → Nat → List UInt8
  | 0, _ => []
  | width + 1, value =>
      UInt8.ofNat (value / 256 ^ width) :: toBigEndian width value

@[simp] theorem length_toBigEndian (width value : Nat) :
    (toBigEndian width value).length = width := by
  induction width with
  | zero => rfl
  | succ width induction => simp [toBigEndian, induction]

theorem bigEndian_append (bytes more : List UInt8) :
    bigEndian (bytes ++ more) =
      bigEndian bytes * 256 ^ more.length + bigEndian more := by
  induction bytes with
  | nil => simp [bigEndian]
  | cons byte rest induction =>
      rw [List.cons_append, bigEndian, bigEndian, induction, List.length_append,
        Nat.pow_add]
      ring

theorem bigEndian_lt (bytes : List UInt8) :
    bigEndian bytes < 256 ^ bytes.length := by
  induction bytes with
  | nil => decide
  | cons byte rest induction =>
      have below : byte.toNat + 1 ≤ 256 := byte.toNat_lt
      calc bigEndian (byte :: rest)
          < byte.toNat * 256 ^ rest.length + 256 ^ rest.length :=
            Nat.add_lt_add_left induction _
        _ = (byte.toNat + 1) * 256 ^ rest.length := by ring
        _ ≤ 256 * 256 ^ rest.length := Nat.mul_le_mul_right _ below
        _ = 256 ^ (byte :: rest).length := by
            rw [List.length_cons, Nat.pow_succ]
            ring

theorem bigEndian_toBigEndian (width value : Nat) :
    bigEndian (toBigEndian width value) = value % 256 ^ width := by
  induction width with
  | zero => simp [toBigEndian, bigEndian, Nat.mod_one]
  | succ width induction =>
      have top : (UInt8.ofNat (value / 256 ^ width)).toNat =
          value / 256 ^ width % 256 := rfl
      rw [toBigEndian, bigEndian, induction, length_toBigEndian, top,
        Nat.pow_succ,
        Nat.mod_mul]
      ring

theorem bigEndian_toBigEndian_of_lt {width value : Nat}
    (fits : value < 256 ^ width) :
    bigEndian (toBigEndian width value) = value := by
  rw [bigEndian_toBigEndian, Nat.mod_eq_of_lt fits]

section Records

variable {Value : Type} {encode : Value → List UInt8} {width : Nat}

theorem length_records (each : ∀ value, (encode value).length = width)
    (values : List Value) :
    (values.flatMap encode).length = width * values.length := by
  induction values with
  | nil => rfl
  | cons value values induction =>
      rw [List.flatMap_cons, List.length_append, induction, each,
        List.length_cons,
        Nat.mul_succ, Nat.add_comm]

theorem drop_records (each : ∀ value, (encode value).length = width)
    {values : List Value} {i : Nat} (inside : i < values.length)
    (rest : List UInt8) :
    ∃ more, (values.flatMap encode ++ rest).drop (width * i) =
      encode (values.get ⟨i, inside⟩) ++ more := by
  induction values generalizing i with
  | nil => exact absurd inside (Nat.not_lt_zero i)
  | cons value values induction =>
      rw [List.flatMap_cons, List.append_assoc]
      cases i with
      | zero => exact ⟨_, rfl⟩
      | succ i =>
          obtain ⟨more, isMore⟩ := induction (Nat.lt_of_succ_lt_succ inside)
          refine ⟨more, ?_⟩
          have past : width * (i + 1) = (encode value).length + width * i := by
            rw [each, Nat.mul_succ, Nat.add_comm]
          rw [past, ← List.drop_drop, List.drop_left]
          exact isMore

end Records

end Chario.Library
