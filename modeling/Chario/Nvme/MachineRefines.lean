import Chario.Nvme.PrpSetup

namespace Chario.Nvme.Machine

open Chario.Library

/-! The builders over the memory of their list blocks refine the builders over
lists of entries. -/

def BlockHolds (block : Int → Option Int) (entries : List Nat) : Prop :=
  ∀ (index : Nat) {entry : Nat}, entries[index]? = some entry →
    block index = some (entry : Int)

/-- The memory holds the entries of the blocks. -/
def Holds (memory : Nat → Int → Option Int) (lists : List PrpBlock) : Prop :=
  ∀ (number : Nat) {block : PrpBlock}, lists[number]? = some block →
    BlockHolds (memory number) block.entries

structure Related (v : Vars) (s : PrpLoop) : Prop where
  dmaAddr : v.dmaAddr = s.dmaAddr
  dmaLen : v.dmaLen = s.dmaLen
  length : v.length = s.length
  sg : v.sg = s.sg
  npages : v.npages = s.npages
  lists : ∃ earlier current, s.lists = earlier ++ [current] ∧
    v.block = earlier.length ∧ v.i = current.entries.length
  holds : Holds v.memory s.lists

theorem storePrp_snoc (perBlock : Nat) (fresh : Option Nat) (entry : Nat)
    (earlier : List PrpBlock) (current : PrpBlock) :
    storePrp perBlock fresh entry (earlier ++ [current]) =
      (storePrp perBlock fresh entry [current]).map (earlier ++ ·) := by
  induction earlier with
  | nil =>
      rw [List.nil_append]
      exact Option.map_id'.symm
  | cons block earlier induction =>
      have unfolded : storePrp perBlock fresh entry
          (block :: (earlier ++ [current])) =
          (storePrp perBlock fresh entry (earlier ++ [current])).map
            (block :: ·) := by
        cases earlier with
        | nil => rfl
        | cons _ _ => rfl
      rw [List.cons_append, unfolded, induction, Option.map_map]
      rfl

theorem blockFull_snoc (perBlock : Nat) (earlier : List PrpBlock)
    (current : PrpBlock) :
    blockFull perBlock (earlier ++ [current]) =
      decide (current.entries.length = perBlock) := by
  simp [blockFull]

section Holds

variable {memory : Nat → Int → Option Int} {lists earlier : List PrpBlock}
variable {current : PrpBlock} {block : Nat} {index : Int} {value : Option Int}

theorem put_same : put memory block index value block index = value :=
  if_pos ⟨rfl, rfl⟩

theorem put_index {place : Int} (away : place ≠ index) (other : Nat) :
    put memory block index value other place = memory other place :=
  if_neg fun both => away both.2

theorem put_block {other : Nat} (away : other ≠ block) :
    put memory block index value other = memory other := by
  funext place
  exact if_neg fun both => away both.1

theorem Holds.put (holds : Holds memory earlier)
    (behind : earlier.length ≤ block) :
    Holds (Machine.put memory block index value) earlier := by
  intro number found isFound
  have before := (List.getElem?_eq_some_iff.mp isFound).1
  rw [put_block (by omega)]
  exact holds number isFound

theorem holds_snoc :
    Holds memory (earlier ++ [current]) ↔
      Holds memory earlier ∧
        BlockHolds (memory earlier.length) current.entries := by
  constructor
  · intro holds
    refine ⟨?_, holds earlier.length List.getElem?_concat_length⟩
    intro number found isFound
    have before := (List.getElem?_eq_some_iff.mp isFound).1
    exact holds number (by rw [List.getElem?_append_left before]; exact isFound)
  · rintro ⟨holds, last⟩ number found isFound
    cases Nat.lt_or_ge number earlier.length with
    | inl before =>
        rw [List.getElem?_append_left before] at isFound
        exact holds number isFound
    | inr behind =>
        rw [List.getElem?_append_right behind] at isFound
        obtain ⟨isLast, rfl⟩ := List.getElem?_eq_some_iff.mp isFound
        rw [List.length_singleton] at isLast
        have same : number = earlier.length := by omega
        subst same
        simpa using last

variable {entries : List Nat} {held : Int → Option Int}

theorem BlockHolds.nil : BlockHolds held [] := by
  intro index entry found
  cases found

theorem BlockHolds.snoc (holds : BlockHolds held entries) {entry : Nat}
    (isNext : held entries.length = some (entry : Int)) :
    BlockHolds held (entries ++ [entry]) := by
  intro index found isFound
  cases Nat.lt_or_ge index entries.length with
  | inl before =>
      rw [List.getElem?_append_left before] at isFound
      exact holds index isFound
  | inr behind =>
      rw [List.getElem?_append_right behind] at isFound
      obtain ⟨isLast, rfl⟩ := List.getElem?_eq_some_iff.mp isFound
      rw [List.length_singleton] at isLast
      have same : index = entries.length := by omega
      subst same
      simpa using isNext

theorem BlockHolds.put {number : Nat}
    (holds : BlockHolds (memory number) entries)
    (behind : (entries.length : Int) ≤ index) :
    BlockHolds (Machine.put memory block index value number) entries := by
  intro place found isFound
  have before := (List.getElem?_eq_some_iff.mp isFound).1
  rw [put_index (by omega)]
  exact holds place isFound

theorem BlockHolds.dropLast (holds : BlockHolds held entries) :
    BlockHolds held entries.dropLast := by
  intro index found isFound
  rw [List.getElem?_dropLast] at isFound
  split at isFound
  · exact holds index isFound
  · cases isFound

end Holds

section Turn

variable {alloc : Nat → Option Nat} {v w : Vars} {s : PrpLoop}

theorem Holds.last_entry {memory : Nat → Int → Option Int}
    {earlier : List PrpBlock} {current : PrpBlock}
    (holds : Holds memory (earlier ++ [current]))
    (full : current.entries.length = perPage) :
    ∃ moved, current.entries.getLast? = some moved ∧
      memory earlier.length ((current.entries.length : Int) - 1) =
        some (moved : Int) := by
  have nonempty : current.entries ≠ [] := by
    intro empty
    rw [empty] at full
    cases full
  have isLast : current.entries[current.entries.length - 1]? =
      some (current.entries.getLast nonempty) := by
    rw [← List.getLast?_eq_getElem?,
      List.getLast?_eq_getLast_of_ne_nil nonempty]
  refine ⟨_, List.getLast?_eq_getLast_of_ne_nil nonempty, ?_⟩
  have held := (holds_snoc.mp holds).2 _ isLast
  have place : ((current.entries.length - 1 : Nat) : Int) =
      (current.entries.length : Int) - 1 := by
    unfold perPage pageBytes at full
    omega
  rwa [place] at held

theorem Holds.store {memory : Nat → Int → Option Int}
    {earlier : List PrpBlock} {current : PrpBlock}
    (holds : Holds memory (earlier ++ [current])) (entry : Nat) :
    Holds (Machine.put memory earlier.length current.entries.length
        (some (entry : Int)))
      (earlier ++ [⟨current.dma, current.entries ++ [entry]⟩]) := by
  obtain ⟨before, last⟩ := holds_snoc.mp holds
  refine holds_snoc.mpr ⟨before.put (Nat.le_refl _), ?_⟩
  exact (last.put (Int.le_refl _)).snoc put_same

theorem Holds.chain {memory : Nat → Int → Option Int}
    {earlier : List PrpBlock} {current : PrpBlock}
    (holds : Holds memory (earlier ++ [current]))
    (full : current.entries.length = perPage) (moved dma entry : Nat) :
    Holds (Machine.put (Machine.put (Machine.put memory (earlier.length + 1) 0
        (some (moved : Int))) earlier.length
          ((current.entries.length : Int) - 1) (some (dma : Int)))
        (earlier.length + 1) 1 (some (entry : Int)))
      (earlier ++ [⟨current.dma, current.entries.dropLast ++ [dma]⟩,
        ⟨dma, [moved, entry]⟩]) := by
  obtain ⟨before, last⟩ := holds_snoc.mp holds
  change Holds _ (earlier ++ ([_] ++ [_]))
  rw [← List.append_assoc]
  refine holds_snoc.mpr ⟨holds_snoc.mpr ⟨?_, ?_⟩, ?_⟩
  · exact ((before.put (Nat.le_succ _)).put (Nat.le_refl _)).put
      (Nat.le_succ _)
  · rw [put_block (Nat.ne_of_lt (Nat.lt_succ_self _))]
    have dropped : ((current.entries.dropLast).length : Int) =
        (current.entries.length : Int) - 1 := by
      rw [List.length_dropLast]
      unfold perPage pageBytes at full
      omega
    refine BlockHolds.snoc ?_ ?_
    · refine BlockHolds.put ?_ (Int.le_of_eq dropped)
      rw [put_block (Nat.ne_of_lt (Nat.lt_succ_self _))]
      exact last.dropLast
    · rw [dropped, put_same]
  · rw [List.length_append, List.length_singleton]
    refine @BlockHolds.snoc [moved] _ ?_ _ put_same
    refine @BlockHolds.snoc [] _ BlockHolds.nil _ ?_
    change Machine.put _ _ _ _ _ (0 : Int) = _
    rw [put_index (by decide), put_block (Nat.succ_ne_self _), put_same]

theorem Related.stored (related : Related v s) (stored : Stored alloc v w) :
    ∃ lists, storePrp (pageBytes / 8) (alloc s.lists.length) s.dmaAddr s.lists =
        some lists ∧
      Related (advance unbounded pageBytes w) (s.stored pageBytes lists) := by
  obtain ⟨earlier, current, isLists, isBlock, isI⟩ := related.lists
  have holds := related.holds
  have size : pageBytes / 8 = perPage := rfl
  have advanced := stored.kept.advanced
  have isAddr : (advance unbounded pageBytes w).dmaAddr =
      (s.dmaAddr + pageBytes : Nat) := by
    rw [advanced.dmaAddr, related.dmaAddr]
    rfl
  have isLen := advanced.dmaLen.trans
    (congrArg (· - (pageBytes : Int)) related.dmaLen)
  have isLength := advanced.length.trans
    (congrArg (· - (pageBytes : Int)) related.length)
  have isSg := advanced.sg.trans related.sg
  rw [isLists] at holds
  cases stored with
  | here room =>
      have notFull : ¬ current.entries.length = perPage := by
        unfold perPage pageBytes
        omega
      refine ⟨earlier ++ [⟨current.dma, current.entries ++ [s.dmaAddr]⟩], ?_,
        isAddr, isLen, isLength, isSg, ?_, ?_, ?_⟩
      · rw [isLists, size, storePrp_snoc]
        simp only [storePrp, if_neg notFull, Option.map_some]
      · change v.npages = _
        simp only [PrpLoop.stored, size, isLists, blockFull_snoc, notFull,
          decide_false, Bool.false_eq_true, if_false]
        exact related.npages
      · refine ⟨earlier, _, rfl, isBlock, ?_⟩
        change v.i + 1 = _
        rw [isI, List.length_append, List.length_singleton]
        rfl
      · change Holds (put v.memory v.block v.i (some v.dmaAddr)) _
        rw [isBlock, isI, related.dmaAddr]
        exact holds.store s.dmaAddr
  | @fresh dma full granted =>
      have isFull : current.entries.length = perPage := by
        unfold perPage pageBytes
        omega
      obtain ⟨moved, isMoved, held⟩ := holds.last_entry isFull
      have isNext : alloc s.lists.length = some dma := by
        rw [isLists, List.length_append, List.length_singleton, ← isBlock]
        exact granted
      refine ⟨earlier ++ [⟨current.dma, current.entries.dropLast ++ [dma]⟩,
          ⟨dma, [moved, s.dmaAddr]⟩], ?_,
        isAddr, isLen, isLength, isSg, ?_, ?_, ?_⟩
      · rw [isNext, isLists, size, storePrp_snoc]
        simp only [storePrp, if_pos isFull, isMoved, Option.map_some]
      · change v.npages + 1 = _
        simp only [PrpLoop.stored, size, isLists, blockFull_snoc, isFull,
          decide_true, if_true]
        rw [related.npages]
      · refine ⟨earlier ++ [⟨current.dma, current.entries.dropLast ++ [dma]⟩],
          ⟨dma, [moved, s.dmaAddr]⟩, ?_, ?_, rfl⟩
        · simp only [PrpLoop.stored, List.append_assoc, List.singleton_append]
        · change v.block + 1 = _
          rw [isBlock, List.length_append, List.length_singleton]
      · change Holds (put (put (put v.memory (v.block + 1) 0
          (v.memory v.block (v.i - 1))) v.block (v.i - 1) (some dma))
          (v.block + 1) 1 (some v.dmaAddr)) _
        rw [isBlock, isI, held, related.dmaAddr]
        exact holds.chain isFull moved dma s.dmaAddr

theorem Related.refused (related : Related v s) (full : v.i = 512)
    (none : alloc (v.block + 1) = none) :
    storePrp (pageBytes / 8) (alloc s.lists.length) s.dmaAddr s.lists =
      Option.none := by
  obtain ⟨earlier, current, isLists, isBlock, isI⟩ := related.lists
  have isFull : current.entries.length = pageBytes / 8 := by
    unfold pageBytes
    omega
  have isNext : alloc s.lists.length = Option.none := by
    rw [isLists, List.length_append, List.length_singleton, ← isBlock]
    exact none
  rw [isNext, isLists, storePrp_snoc]
  simp only [storePrp, if_pos isFull, Option.map_none]

theorem Stored.second (stored : Stored alloc v w) : w.second = v.second := by
  cases stored with
  | here room => rfl
  | fresh full granted =>
      simp only [Vars.setI, Vars.store, Vars.setNpages, Vars.point, Vars.record]

end Turn

def RefillRelated (plain : Vars → Option Vars)
    (refill : PrpLoop → Option PrpLoop) : Prop :=
  ∀ {v : Vars} {s after : PrpLoop}, Related v s → refill s = some after →
    ∃ w, plain v = some w ∧ Related w after ∧ w.second = v.second

theorem refillRelated_nextSegment :
    RefillRelated (nextSegment unbounded) Nvme.nextSegment := by
  intro v s after related next
  cases isSg : s.sg with
  | nil =>
      rw [Nvme.nextSegment, isSg] at next
      cases next
  | cons segment rest =>
      rw [Nvme.nextSegment, isSg] at next
      cases next
      have same : v.sg = segment :: rest := related.sg.trans isSg
      refine ⟨({ v with sg := rest }.setDmaAddr segment.address).setDmaLen
        segment.len, ?_, ?_, rfl⟩
      · rw [nextSegment, same]
        rfl
      · exact ⟨rfl, rfl, related.length, rfl, related.npages, related.lists,
          related.holds⟩

theorem refillRelated_refillPage :
    RefillRelated (refillPage unbounded pageBytes)
      (Nvme.refillPage pageBytes) := by
  intro v s after related next
  cases next
  exact ⟨_, rfl, ⟨related.dmaAddr, rfl, related.length, related.sg,
    related.npages, related.lists, related.holds⟩, rfl⟩

/-- Where the list builder's loop ends, so does the machine's, with the same
value and the same lists. -/
theorem Related.loop {alloc : Nat → Option Nat} {plain : Vars → Option Vars}
    {refill : PrpLoop → Option PrpLoop} (refills : RefillRelated plain refill)
    {totalLen : Int} (extra : Nat) {fuel : Nat} {v : Vars} {s after : PrpLoop}
    {ret : Int} (related : Related v s)
    (ran : Nvme.prpLoop pageBytes alloc refill totalLen fuel s =
      some (ret, after)) :
    ∃ w, prpLoop unbounded pageBytes alloc plain totalLen (fuel + extra) v =
        (.returned ret, w) ∧ Related w after ∧ w.second = v.second := by
  induction fuel generalizing v s with
  | zero => cases ran
  | succ fuel induction =>
      rw [Nat.succ_add, prpLoop]
      rw [Nvme.prpLoop] at ran
      obtain ⟨full, none, refused⟩ | ⟨w, isStored, stored⟩ :=
        storeEntry_unbounded alloc v
      · rw [related.refused full none] at ran
        cases ran
        rw [refused]
        refine ⟨v, ?_, related, rfl⟩
        simp only [related.length]
        rfl
      · obtain ⟨lists, isLists, next⟩ := related.stored stored
        have second : (advance unbounded pageBytes w).second = v.second :=
          stored.second
        rw [isLists] at ran
        rw [isStored]
        simp only at ran ⊢
        generalize s.stored pageBytes lists = t at ran next
        generalize advance unbounded pageBytes w = x at next second
        rw [next.length, next.dmaLen]
        by_cases ends : t.length ≤ 0
        · rw [if_pos ends] at ran ⊢
          cases ran
          exact ⟨x, rfl, next, second⟩
        · rw [if_neg ends] at ran ⊢
          by_cases left : 0 < t.dmaLen
          · rw [if_pos left] at ran ⊢
            obtain ⟨last, isLast, isRelated, same⟩ := induction next ran
            exact ⟨last, isLast, isRelated, same.trans second⟩
          · rw [if_neg left] at ran ⊢
            by_cases beyond : t.dmaLen < 0
            · rw [if_pos beyond] at ran
              cases ran
            · rw [if_neg beyond] at ran ⊢
              cases isNext : refill t with
              | none =>
                  rw [isNext] at ran
                  cases ran
              | some u =>
                  rw [isNext] at ran
                  obtain ⟨y, refilled, resumed, kept⟩ := refills next isNext
                  rw [refilled]
                  obtain ⟨last, isLast, isRelated, same⟩ :=
                    induction resumed ran
                  exact ⟨last, isLast, isRelated,
                    same.trans (kept.trans second)⟩

structure Refines (w : Vars) (npages : Int) (lists : List PrpBlock)
    (second : Option Nat) : Prop where
  npages : w.npages = npages
  holds : Holds w.memory lists
  second : w.second = second.map Int.ofNat

section Begin

variable {v : Vars} {s : PrpLoop}

structure Begun (v : Vars) (s : PrpLoop) : Prop where
  dmaAddr : v.dmaAddr = s.dmaAddr
  dmaLen : v.dmaLen = s.dmaLen
  length : v.length = s.length
  sg : v.sg = s.sg
  block : v.block = 0
  npages : v.npages = -1

theorem choosePool_prpPool (positive : 0 < v.length) (pools : PrpPools) :
    prpPool pools (nprps pageBytes v.length) =
      ((choosePool unbounded pageBytes v).pool.alloc pools,
        (choosePool unbounded pageBytes v).npages) := by
  have count : ((nprps pageBytes v.length : Nat) : Int) ≤ 256 / 8 ↔
      v.length ≤ 32 * pageBytes := by
    unfold nprps pageBytes
    omega
  obtain ⟨isPool, pages, few⟩ | ⟨isPool, pages, many⟩ :=
    (@choosePool_chosen v).pool
  · have small : nprps pageBytes v.length ≤ 256 / 8 :=
      Int.ofNat_le.mp (count.mpr few)
    rw [prpPool, if_pos small, isPool, pages]
    rfl
  · have large : ¬ nprps pageBytes v.length ≤ 256 / 8 := fun small =>
      absurd (count.mp (Int.ofNat_le.mpr small)) (Int.not_le.mpr many)
    rw [prpPool, if_neg large, isPool, pages]
    rfl

theorem holds_nil {memory : Nat → Int → Option Int} : Holds memory [] := by
  intro number block found
  cases found

theorem Begun.onePage (begun : Begun v s) (short : s.length ≤ pageBytes)
    {pools : PrpPools} {plain : Vars → Option Vars} {totalLen : Int}
    {restart : Option Int} (page : Nat) :
    ∃ w, buildLists unbounded pageBytes pools plain totalLen page restart v =
        (.returned totalLen, w) ∧ Refines w (-1) [] (some page) := by
  have fits : unbounded.unsigned v.length ≤ pageBytes := by
    change v.length ≤ _
    rw [begun.length]
    exact short
  refine ⟨v.setSecond page, ?_, begun.npages, holds_nil, rfl⟩
  rw [buildLists, if_pos fits]

theorem Begun.related (begun : Begun v s) {chose : Vars}
    (chosen : Chosen v chose) (dma : Nat) {start : Nat} {restart : Option Int}
    (isStart : restart.getD s.dmaAddr = (start : Int)) :
    Related (chose.beginLists dma restart)
      { s with
        lists := [⟨dma, []⟩]
        npages := chose.npages
        dmaAddr := start } := by
  have isBlock := chosen.block.trans begun.block
  have isLen := chosen.dmaLen.trans begun.dmaLen
  have isLength := chosen.length.trans begun.length
  have isSg := chosen.sg.trans begun.sg
  have empty : Holds chose.memory [⟨dma, []⟩] :=
    (@holds_snoc chose.memory [] ⟨dma, []⟩).mpr ⟨holds_nil, BlockHolds.nil⟩
  cases restart with
  | none =>
      have isAddr : chose.dmaAddr = start :=
        (chosen.dmaAddr.trans begun.dmaAddr).trans isStart
      exact ⟨isAddr, isLen, isLength, isSg, rfl,
        ⟨[], ⟨dma, []⟩, rfl, isBlock, rfl⟩, empty⟩
  | some address =>
      exact ⟨isStart, isLen, isLength, isSg, rfl,
        ⟨[], ⟨dma, []⟩, rfl, isBlock, rfl⟩, empty⟩

variable (begun : Begun v s) (long : pageBytes < s.length) {pools : PrpPools}

include begun long

theorem Begun.noList
    (refused : (prpPool pools (nprps pageBytes s.length)).1 0 = none)
    {plain : Vars → Option Vars} {totalLen : Int} {restart : Option Int}
    (page : Nat) :
    ∃ w, buildLists unbounded pageBytes pools plain totalLen page restart v =
        (.returned (totalLen - s.length + pageBytes), w) ∧
      Refines w (-1) [] (some page) := by
  have more : ¬ unbounded.unsigned v.length ≤ pageBytes := by
    change ¬ v.length ≤ _
    rw [begun.length]
    omega
  have positive : 0 < v.length := by
    rw [begun.length]
    unfold pageBytes at long
    omega
  have isLength := (@choosePool_chosen v).length.trans begun.length
  have isPool := choosePool_prpPool positive pools
  rw [begun.length] at isPool
  rw [isPool] at refused
  simp only at refused
  refine ⟨((choosePool unbounded pageBytes v).setSecond page).setNpages (-1),
    ?_,
    rfl, holds_nil, rfl⟩
  rw [buildLists, if_neg more]
  simp only [refused, withoutList, isLength]
  rfl

theorem Begun.lists {dma : Nat}
    (granted : (prpPool pools (nprps pageBytes s.length)).1 0 = some dma)
    {plain : Vars → Option Vars} {refill : PrpLoop → Option PrpLoop}
    (refills : RefillRelated plain refill) {totalLen ret : Int} {start : Nat}
    {restart : Option Int} (isStart : restart.getD s.dmaAddr = (start : Int))
    (total : s.length ≤ totalLen) {after : PrpLoop}
    (ran : Nvme.prpLoop pageBytes (prpPool pools (nprps pageBytes s.length)).1
      refill totalLen (nprps pageBytes s.length)
      { s with
        lists := [⟨dma, []⟩]
        npages := (prpPool pools (nprps pageBytes s.length)).2
        dmaAddr := start } = some (ret, after)) (page : Int) :
    ∃ w, buildLists unbounded pageBytes pools plain totalLen page restart v =
        (.returned ret, w) ∧
      Refines w after.npages after.lists (some dma) := by
  have more : ¬ unbounded.unsigned v.length ≤ pageBytes := by
    change ¬ v.length ≤ _
    rw [begun.length]
    omega
  have positive : 0 < v.length := by
    rw [begun.length]
    unfold pageBytes at long
    omega
  have chosen := @choosePool_chosen v
  obtain ⟨extra, isFuel⟩ := Nat.exists_eq_add_of_le
    (show nprps pageBytes s.length ≤ totalLen.toNat by
      unfold nprps pageBytes at *
      omega)
  have isPool := choosePool_prpPool positive pools
  rw [begun.length] at isPool
  rw [isPool] at ran granted
  simp only at ran granted
  have related := begun.related chosen dma isStart
  obtain ⟨w, isRun, isRelated, isSecond⟩ := related.loop refills extra ran
  refine ⟨w, ?_, isRelated.npages, isRelated.holds, ?_⟩
  · rw [buildLists, if_neg more]
    simp only [granted]
    rw [isFuel]
    exact isRun
  · rw [isSecond]
    generalize choosePool unbounded pageBytes v = chose
    cases restart with
    | none => rfl
    | some address => rfl

end Begin

section Setup

variable {length : Nat} {pools : PrpPools} {ret : Int}

theorem begun_afterHead {first : Segment} {rest : List Segment} {head : Int}
    {address : Nat} (isNat : (first.address : Int) + head = address)
    {s : PrpLoop}
    (isMoved : (if (first.len : Int) - head ≠ 0 then
        some (⟨[], -1, address, first.len - head, length - head, rest⟩ :
          PrpLoop)
      else Nvme.nextSegment
        ⟨[], -1, address, first.len - head, length - head, rest⟩) = some s) :
    s.length = length - head ∧ ∃ v, Begun v s ∧
      (if (first.len : Int) - head ≠ 0 then
        some ((headTaken (.start rest length first.len first.address)
          head).setDmaAddr (first.address + head))
      else nextSegment unbounded (headTaken
        (.start rest length first.len first.address) head)) = some v := by
  by_cases left : (first.len : Int) - head ≠ 0
  · rw [if_pos left] at isMoved
    cases isMoved
    exact ⟨rfl, _, ⟨isNat, rfl, rfl, rfl, rfl, rfl⟩, if_pos left⟩
  · rw [if_neg left] at isMoved ⊢
    cases rest with
    | nil => cases isMoved
    | cons segment rest =>
        cases isMoved
        exact ⟨rfl, _, ⟨rfl, rfl, rfl, rfl, rfl, rfl⟩, rfl⟩

/-- `nvme_setup_prps` over memory returns what it returns over lists, with the
same lists. -/
theorem nvmeSetupPrps_refines {sg : List Segment} {iod : NvmeIod}
    (ran : Nvme.nvmeSetupPrps pageBytes pools sg length = some (ret, iod)) :
    ∃ w, nvmeSetupPrps unbounded pageBytes pools sg length =
        (.returned ret, w) ∧
      Refines w iod.npages iod.lists iod.firstDma := by
  cases sg with
  | nil => cases ran
  | cons first rest =>
      rw [nvmeSetupPrps_cons pools rfl (headExact_unbounded _ _ _)]
      simp only [Nvme.nvmeSetupPrps] at ran
      have below := Nat.mod_lt first.address (show 0 < pageBytes by decide)
      have isNat : (first.address : Int) +
          (pageBytes - first.address % pageBytes) =
          (first.address + (pageBytes - first.address % pageBytes) : Nat) := by
        rw [head_cast]
        push_cast
        rfl
      generalize isHead : (pageBytes : Int) - first.address % pageBytes = head
        at ran isNat ⊢
      by_cases ends : (length : Int) - head ≤ 0
      · rw [if_pos ends] at ran ⊢
        cases ran
        exact ⟨_, rfl, rfl, holds_nil, rfl⟩
      · rw [if_neg ends] at ran ⊢
        cases isMoved : (if (first.len : Int) - head ≠ 0 then
            some (⟨[], -1, first.address +
              (pageBytes - first.address % pageBytes), first.len - head,
              length - head, rest⟩ : PrpLoop)
          else Nvme.nextSegment ⟨[], -1, first.address +
            (pageBytes - first.address % pageBytes), first.len - head,
            length - head, rest⟩) with
        | none =>
            rw [isMoved] at ran
            cases ran
        | some s =>
            rw [isMoved] at ran
            simp only at ran
            obtain ⟨isLength, v, begun, isNext⟩ := begun_afterHead isNat isMoved
            rw [isNext]
            simp only
            by_cases short : (length : Int) - head ≤ pageBytes
            · rw [if_pos short] at ran
              cases ran
              rw [begun.dmaAddr]
              exact begun.onePage (by rw [isLength]; exact short) s.dmaAddr
            · rw [if_neg short] at ran
              have long : pageBytes < s.length := by
                rw [isLength]
                exact Int.not_le.mp short
              rw [← isLength] at ran
              cases isFirst :
                  (prpPool pools (nprps pageBytes s.length)).1 0 with
              | none =>
                  rw [isFirst] at ran
                  cases ran
                  rw [begun.dmaAddr]
                  exact begun.noList long isFirst s.dmaAddr
              | some dma =>
                  rw [isFirst] at ran
                  simp only at ran
                  cases isLoop : Nvme.prpLoop pageBytes
                      (prpPool pools (nprps pageBytes s.length)).1
                      Nvme.nextSegment length (nprps pageBytes s.length)
                      { s with
                        lists := [⟨dma, []⟩]
                        npages := (prpPool pools
                          (nprps pageBytes s.length)).2 } with
                  | none =>
                      rw [isLoop] at ran
                      cases ran
                  | some ended =>
                      rw [isLoop] at ran
                      cases ran
                      refine begun.lists long isFirst refillRelated_nextSegment
                        rfl ?_ isLoop v.dmaAddr
                      rw [isLength]
                      omega

/-- `nvme_setup_phys_prps` on the machine does what it does over lists, with its
32-bit sum. -/
theorem nvmeSetupPhysPrps_refines (accepted : length ≤ intMax - pageBytes)
    {address : Nat} (inSpace : address < 2 ^ 32) {iod : NvmePhysIod}
    (ran : Nvme.nvmeSetupPhysPrps pageBytes pools length address =
      some (ret, iod)) :
    ∃ w, nvmeSetupPhysPrps wrapping pageBytes pools length address =
        (.returned ret, w) ∧
      Refines w iod.npages iod.lists iod.prp2 := by
  rw [nvmeSetupPhysPrps_cases accepted inSpace pools (.inl rfl)]
  simp only [Nvme.nvmeSetupPhysPrps, head_cast] at ran
  have under : pageBytes - address % pageBytes ≤ pageBytes := Nat.sub_le _ _
  have isPage : wrapping.dmaAddr (address + pageBytes) =
      ((address + pageBytes) % 2 ^ 32 : Nat) := by
    change ((address : Int) + pageBytes) % 2 ^ 32 = _
    push_cast
    rfl
  have below : (address + pageBytes) % 2 ^ 32 < 2 ^ 32 :=
    Nat.mod_lt _ (by decide)
  rw [isPage]
  generalize (address + pageBytes) % 2 ^ 32 = page at ran below
  generalize pageBytes - address % pageBytes = head at ran under
  by_cases ends : length ≤ head
  · rw [if_pos (by omega)] at ran
    rw [if_pos ends]
    cases ran
    exact ⟨_, rfl, rfl, holds_nil, rfl⟩
  · rw [if_neg (by omega)] at ran
    rw [if_neg ends, (@physLists_within length address head accepted under
      (Nat.not_le.mp ends) pools page (by omega) (by omega)).1]
    have begun : Begun (physHead length address head)
        ⟨[], -1, address + head, length - head, length - head, []⟩ :=
      ⟨rfl, rfl, rfl, rfl, rfl, rfl⟩
    by_cases short : (length : Int) - head ≤ pageBytes
    · rw [if_pos short] at ran
      cases ran
      exact begun.onePage short page
    · rw [if_neg short] at ran
      cases isFirst : (prpPool pools (nprps pageBytes
          ((length : Int) - head))).1 0 with
      | none =>
          rw [isFirst] at ran
          cases ran
          exact begun.noList (Int.not_le.mp short) isFirst page
      | some dma =>
          rw [isFirst] at ran
          simp only at ran
          cases isLoop : Nvme.prpLoop pageBytes
              (prpPool pools (nprps pageBytes ((length : Int) - head))).1
              (Nvme.refillPage pageBytes) length
              (nprps pageBytes ((length : Int) - head))
              ⟨[⟨dma, []⟩], (prpPool pools (nprps pageBytes
                ((length : Int) - head))).2, page, length - head,
                length - head, []⟩ with
          | none =>
              rw [isLoop] at ran
              cases ran
          | some ended =>
              rw [isLoop] at ran
              cases ran
              exact begun.lists (Int.not_le.mp short) isFirst
                refillRelated_refillPage rfl
                (show (length : Int) - head ≤ length by omega) isLoop page

end Setup

end Chario.Nvme.Machine
