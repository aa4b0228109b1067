import Mathlib.Data.List.Nodup
import Mathlib.Data.List.Perm.Basic
import Mathlib.Logic.Function.Basic

namespace Chario.Library

/-! Stores into a memory one after another. -/

section

variable {ι α : Type} [DecidableEq ι]

def copyInto (memory : ι → α) (stores : List (ι × α)) : ι → α :=
  stores.foldl (fun memory store => Function.update memory store.1 store.2)
    memory

theorem copyInto_cons (memory : ι → α) (store : ι × α)
    (stores : List (ι × α)) :
    copyInto memory (store :: stores) =
      copyInto (Function.update memory store.1 store.2) stores := rfl

theorem copyInto_append (memory : ι → α) (stores later : List (ι × α)) :
    copyInto memory (stores ++ later) =
      copyInto (copyInto memory stores) later :=
  List.foldl_append

theorem copyInto_of_not_mem {stores : List (ι × α)} {cell : ι}
    (outside : cell ∉ stores.map Prod.fst) (memory : ι → α) :
    copyInto memory stores cell = memory cell := by
  induction stores generalizing memory with
  | nil => rfl
  | cons store stores induction =>
      rw [List.map_cons, List.mem_cons, not_or] at outside
      rw [copyInto_cons, induction outside.2, Function.update_of_ne outside.1]

theorem copyInto_of_mem {stores : List (ι × α)}
    (distinct : (stores.map Prod.fst).Nodup) {store : ι × α}
    (member : store ∈ stores) (memory : ι → α) :
    copyInto memory stores store.1 = store.2 := by
  induction stores generalizing memory with
  | nil => cases member
  | cons first stores induction =>
      rw [List.map_cons, List.nodup_cons] at distinct
      rw [copyInto_cons]
      cases List.mem_cons.mp member with
      | inl same =>
          rw [same, copyInto_of_not_mem distinct.1, Function.update_self]
      | inr later => exact induction distinct.2 later _

theorem map_copyInto_zip {cells : List ι} {contents : List α}
    (distinct : cells.Nodup)
    (length : cells.length = contents.length) (memory : ι → α) :
    cells.map (copyInto memory (cells.zip contents)) = contents := by
  have named : ((cells.zip contents).map Prod.fst).Nodup := by
    rwa [List.map_fst_zip (Nat.le_of_eq length)]
  apply List.ext_getElem
  · rw [List.length_map, length]
  · intro i below inside
    rw [List.length_map] at below
    have member : (cells[i], contents[i]) ∈ cells.zip contents := by
      refine List.mem_iff_getElem.mpr ⟨i, ?_, List.getElem_zip⟩
      rw [List.length_zip]
      omega
    rw [List.getElem_map]
    exact copyInto_of_mem named member memory

theorem copyInto_perm {stores others : List (ι × α)}
    (perm : stores.Perm others) (distinct : (stores.map Prod.fst).Nodup)
    (memory : ι → α) : copyInto memory stores = copyInto memory others := by
  funext cell
  by_cases inside : cell ∈ stores.map Prod.fst
  · obtain ⟨store, member, rfl⟩ := List.mem_map.mp inside
    have otherDistinct := (perm.map Prod.fst).nodup_iff.mp distinct
    rw [copyInto_of_mem distinct member,
      copyInto_of_mem otherDistinct (perm.mem_iff.mp member)]
  · have outside : cell ∉ others.map Prod.fst := by
      rwa [← (perm.map Prod.fst).mem_iff]
    rw [copyInto_of_not_mem inside, copyInto_of_not_mem outside]

end

/-! Stores of whole windows. -/

structure Window (α : Type) where
  start : Nat
  length : Nat
  content : Nat → α

namespace Window

variable {α : Type}

def Holds (window : Window α) (address : Nat) : Prop :=
  window.start ≤ address ∧ address < window.start + window.length

instance (window : Window α) (address : Nat) :
    Decidable (window.Holds address) :=
  inferInstanceAs (Decidable (_ ∧ _))

def fill (memory : Nat → α) (window : Window α) (address : Nat) : α :=
  if window.Holds address then window.content (address - window.start)
  else memory address

theorem fill_inside {window : Window α} {byte : Nat}
    (below : byte < window.length) (memory : Nat → α) :
    fill memory window (window.start + byte) = window.content byte := by
  have holds : window.Holds (window.start + byte) :=
    ⟨Nat.le_add_right _ _, Nat.add_lt_add_left below _⟩
  rw [fill, if_pos holds, Nat.add_sub_cancel_left]

theorem fill_outside {window : Window α} {address : Nat}
    (outside : ¬ window.Holds address) (memory : Nat → α) :
    fill memory window address = memory address :=
  if_neg outside

theorem foldl_fill_outside {windows : List (Window α)} {address : Nat}
    (outside : ∀ window ∈ windows, ¬ window.Holds address)
    (memory : Nat → α) :
    windows.foldl fill memory address = memory address := by
  induction windows generalizing memory with
  | nil => rfl
  | cons window windows induction =>
      rw [List.foldl_cons, induction (fun later member =>
          outside later (List.mem_cons_of_mem _ member)),
        fill_outside (outside window List.mem_cons_self)]

theorem foldl_fill_inside {windows : List (Window α)}
    (apart : windows.Pairwise fun window other =>
      ∀ address, window.Holds address → ¬ other.Holds address)
    {window : Window α} (member : window ∈ windows) {byte : Nat}
    (below : byte < window.length) (memory : Nat → α) :
    windows.foldl fill memory (window.start + byte) = window.content byte := by
  induction windows generalizing memory with
  | nil => cases member
  | cons first windows induction =>
      rw [List.pairwise_cons] at apart
      cases List.mem_cons.mp member with
      | inl same =>
          subst same
          have outside : ∀ other ∈ windows,
              ¬ other.Holds (window.start + byte) := by
            intro other later
            exact apart.1 other later _
              ⟨Nat.le_add_right _ _, Nat.add_lt_add_left below _⟩
          rw [List.foldl_cons, foldl_fill_outside outside, fill_inside below]
      | inr later => exact induction apart.2 later _

theorem foldl_fill_cases (windows : List (Window α)) (memory : Nat → α)
    (address : Nat) :
    windows.foldl fill memory address = memory address ∨
      ∃ window ∈ windows, window.Holds address ∧
        windows.foldl fill memory address =
          window.content (address - window.start) := by
  induction windows generalizing memory with
  | nil => exact .inl rfl
  | cons first windows induction =>
      rw [List.foldl_cons]
      cases induction (fill memory first) with
      | inl kept =>
          by_cases holds : first.Holds address
          · refine .inr ⟨first, List.mem_cons_self, holds, ?_⟩
            rw [kept, fill, if_pos holds]
          · exact .inl (kept.trans (fill_outside holds memory))
      | inr later =>
          obtain ⟨window, member, holds, brought⟩ := later
          exact .inr ⟨window, List.mem_cons_of_mem _ member, holds, brought⟩

def map {β : Type} (translate : α → β) (window : Window α) : Window β :=
  ⟨window.start, window.length, fun byte => translate (window.content byte)⟩

theorem foldl_fill_map {β : Type} (translate : α → β)
    (windows : List (Window α)) (memory : Nat → α) (address : Nat) :
    (windows.map (map translate)).foldl fill
        (fun place => translate (memory place)) address =
      translate (windows.foldl fill memory address) := by
  induction windows generalizing memory with
  | nil => rfl
  | cons first windows induction =>
      have filled : fill (fun place => translate (memory place))
          (map translate first) =
            fun place => translate (fill memory first place) := by
        funext place
        exact (apply_ite translate _ _ _).symm
      rw [List.map_cons, List.foldl_cons, List.foldl_cons, filled, induction]

end Window

end Chario.Library
