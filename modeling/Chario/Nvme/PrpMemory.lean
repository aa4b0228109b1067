import Chario.Nvme.PrpLists

namespace Chario.Nvme

open Chario.Library

/-! The PRP lists as the controller finds them in memory. -/

def PrpBlock.entryAt (block : PrpBlock) (slot : Nat) : Option Nat :=
  if block.dma ≤ slot ∧ (slot - block.dma) % 8 = 0 then
    block.entries[(slot - block.dma) / 8]?
  else none

/-- The list entry at a bus address, `none` where nothing was written. -/
def prpMemory (lists : List PrpBlock) (slot : Nat) : Option Nat :=
  lists.findSome? (fun block => block.entryAt slot)

/-- No block crosses a page boundary, and no two blocks share a page. -/
structure Placed (lists : List PrpBlock) : Prop where
  inPage : ∀ block ∈ lists,
    block.dma % pageBytes + 8 * block.entries.length ≤ pageBytes
  apart : (lists.map (fun block => block.dma / pageBytes)).Nodup

theorem PrpBlock.entryAt_index {block : PrpBlock} (index : Nat) :
    block.entryAt (block.dma + 8 * index) = block.entries[index]? := by
  have quotient : (block.dma + 8 * index - block.dma) / 8 = index := by omega
  rw [PrpBlock.entryAt, if_pos (by omega), quotient]

theorem PrpBlock.page_of_entryAt {block : PrpBlock} {slot entry : Nat}
    (inPage : block.dma % pageBytes + 8 * block.entries.length ≤ pageBytes)
    (found : block.entryAt slot = some entry) :
    slot / pageBytes = block.dma / pageBytes := by
  unfold PrpBlock.entryAt at found
  split at found
  next bounds =>
      have below := (List.getElem?_eq_some_iff.mp found).1
      unfold pageBytes at *
      omega
  next => cases found

theorem prpMemory_index {lists : List PrpBlock} (placed : Placed lists)
    {block : PrpBlock} (member : block ∈ lists) {index entry : Nat}
    (found : block.entries[index]? = some entry) :
    prpMemory lists (block.dma + 8 * index) = some entry := by
  have here : block.entryAt (block.dma + 8 * index) = some entry := by
    rw [PrpBlock.entryAt_index, found]
  induction lists with
  | nil => cases member
  | cons head tail induction =>
      have apart := List.nodup_cons.mp placed.apart
      rw [prpMemory, List.findSome?_cons]
      cases List.mem_cons.mp member with
      | inl same =>
          subst same
          rw [here]
      | inr later =>
          have elsewhere : head.entryAt (block.dma + 8 * index) = none := by
            cases other : head.entryAt (block.dma + 8 * index) with
            | none => rfl
            | some _ =>
                have one := PrpBlock.page_of_entryAt
                  (placed.inPage head List.mem_cons_self) other
                have two := PrpBlock.page_of_entryAt
                  (placed.inPage block member) here
                refine absurd (List.mem_map.mpr ⟨block, later, ?_⟩) apart.1
                rw [← two, one]
          rw [elsewhere]
          exact induction
            ⟨fun block inTail => placed.inPage block (.tail _ inTail), apart.2⟩
            later

section

variable {lists : List PrpBlock} (placed : Placed lists)
variable {block : PrpBlock} (member : block ∈ lists)

include placed member

theorem prpList_block {pages after : List Nat} :
    ∀ {before : List Nat}, block.entries = before ++ (pages ++ after) →
      PrpList (prpMemory lists) (block.dma + 8 * before.length) pages := by
  have inPage := placed.inPage block member
  induction pages with
  | nil => exact fun _ => .nil
  | cons page pages induction =>
      intro before split
      have found : block.entries[before.length]? = some page := by
        simp [split]
      refine .data (prpMemory_index placed member found) ?_ ?_
      · intro last
        have lengths := congrArg List.length split
        simp only [List.length_append, List.length_cons] at lengths
        apply List.eq_nil_of_length_eq_zero
        unfold LastSlot pageBytes at *
        omega
      · have moved := @induction (before ++ [page]) (by simp [split])
        rw [List.length_append, List.length_singleton] at moved
        exact moved

theorem prpList_chain {next : Nat} {later pages : List Nat}
    (full : block.entries.length = perPage) (more : 2 ≤ later.length)
    (first : ¬ LastSlot next) (rest : PrpList (prpMemory lists) next later) :
    ∀ {before : List Nat}, block.entries = before ++ (pages ++ [next]) →
      PrpList (prpMemory lists) (block.dma + 8 * before.length)
        (pages ++ later) := by
  have inPage := placed.inPage block member
  induction pages with
  | nil =>
      intro before split
      have found : block.entries[before.length]? = some next := by
        simp [split]
      have lengths := congrArg List.length split
      simp only [List.length_append, List.length_nil,
        List.length_singleton] at lengths
      have last : LastSlot (block.dma + 8 * before.length) := by
        unfold LastSlot perPage pageBytes at *
        omega
      match later, more, rest with
      | page :: second :: others, _, rest =>
          exact .chain last (by simp) (prpMemory_index placed member found)
            first rest
  | cons page pages induction =>
      intro before split
      have found : block.entries[before.length]? = some page := by
        simp [split]
      refine .data (prpMemory_index placed member found) ?_ ?_
      · intro last
        have lengths := congrArg List.length split
        simp only [List.length_append, List.length_cons] at lengths
        unfold LastSlot perPage pageBytes at *
        omega
      · have moved := @induction (before ++ [page]) (by simp [split])
        rw [List.length_append, List.length_singleton] at moved
        exact moved

end

theorem Packed.length_blocks {pages : List Nat} {lists : List PrpBlock}
    (packed : Packed pages lists) :
    ∀ block ∈ lists, block.entries.length ≤ perPage := by
  induction packed with
  | single fits =>
      intro block member
      rw [List.mem_singleton.mp member]
      exact fits
  | chained full _ _ induction =>
      intro block member
      cases List.mem_cons.mp member with
      | inl same =>
          rw [same, List.length_append, List.length_singleton, full]
      | inr later => exact induction block later

theorem Packed.prpList {pages : List Nat} {blocks : List PrpBlock}
    (packed : Packed pages blocks) {lists : List PrpBlock}
    (placed : Placed lists) :
    (∀ block ∈ blocks, block ∈ lists) → ∀ first ∈ blocks.head?,
      PrpList (prpMemory lists) first.dma pages := by
  induction packed with
  | @single dma pages fits =>
      intro members first isFirst
      cases isFirst
      have listed := @prpList_block lists placed _
        (members _ List.mem_cons_self) pages [] [] (by simp)
      simpa using listed
  | @chained dma pages later block blocks full more tail induction =>
      intro members first isFirst
      cases isFirst
      have rest := induction
        (fun block member => members block (.tail _ member)) block rfl
      have isLater : 2 ≤ block.entries.length := by
        cases tail with
        | single _ => exact more
        | chained fills _ _ =>
            unfold perPage pageBytes at fills
            simp only [List.length_append, List.length_singleton]
            omega
      have inPage := placed.inPage block
        (members block (.tail _ List.mem_cons_self))
      have listed := @prpList_chain lists placed _
        (members _ List.mem_cons_self) block.dma later pages (by simp [full])
        more (by unfold LastSlot pageBytes at *; omega) rest [] rfl
      simpa using listed

namespace Listed

variable {pages : List Nat} {prp2 : Option Nat} {npages : Int}
variable {lists : List PrpBlock}

theorem placed (listed : Listed pages prp2 npages lists) : Placed lists := by
  cases listed with
  | none => exact ⟨by simp, by simp⟩
  | one => exact ⟨by simp, by simp⟩
  | small two fits aligned =>
      refine ⟨?_, by simp⟩
      intro block member
      rw [List.mem_singleton.mp member]
      simp only
      unfold pageBytes
      omega
  | paged many packed first distinct aligned =>
      refine ⟨?_, ?_⟩
      · intro block member
        have count := packed.length_blocks block member
        rw [aligned block member]
        unfold perPage pageBytes at *
        omega
      · have pagesOf : lists.map PrpBlock.dma =
            (lists.map (fun block => block.dma / pageBytes)).map
              (· * pageBytes) := by
          rw [List.map_map]
          apply List.map_congr_left
          intro block member
          have whole := aligned block member
          simp only [Function.comp_apply]
          unfold pageBytes at *
          omega
        rw [pagesOf] at distinct
        exact distinct.of_map

theorem points (listed : Listed pages prp2 npages lists) :
    Points (prpMemory lists) prp2 pages := by
  have placed := listed.placed
  cases listed with
  | none => trivial
  | one => rfl
  | @small dma _ two fits aligned =>
      have whole := (@Packed.single dma pages
        (show pages.length ≤
          perPage by unfold perPage pageBytes; omega)).prpList
        placed (fun _ member => member) _ rfl
      match pages, two, whole with
      | _ :: _ :: _, _, whole => exact ⟨dma, rfl, whole⟩
  | @paged dma _ _ many packed first distinct aligned =>
      obtain ⟨block, isFirst, isDma⟩ := Option.map_eq_some_iff.mp first
      have whole := packed.prpList placed (fun _ member => member) block isFirst
      rw [isDma] at whole
      match pages, many, whole with
      | _ :: _ :: _, _, whole => exact ⟨dma, rfl, whole⟩

end Listed

end Chario.Nvme
