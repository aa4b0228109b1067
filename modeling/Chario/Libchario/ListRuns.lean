import Chario.Libchario.ListHead

namespace Chario.Libchario

open Chario.Library

/-! The functions of `list.h` refine sequences: each is a few joins of nodes,
and the lists of a memory stay apart. -/

theorem listAddBetween_eq (links : Links Nat) (new prev next : Nat) :
    listAddBetween links new prev next = (links.join new next).join prev new :=
      rfl

theorem listDelBetween_eq (links : Links Nat) (prev next : Nat) :
    listDelBetween links prev next = links.join prev next := rfl

theorem listCutAt_eq (links : Links Nat) (list head entry : Nat) :
    listCutAt links list head entry =
      ((links.join list (links.next head)).join entry list).join head
      (links.next entry) := by
  simp [listCutAt, Links.join]
  rfl

theorem listSpliceBetween_eq (links : Links Nat) (list prev next : Nat) :
    listSpliceBetween links list prev next =
      (links.join prev (links.next list)).join (links.prev list) next := rfl

variable {links : Links Nat} {lists : Lists} {node head : Nat}

theorem Lists.absent_of_hasNot (hasNot : ¬ lists.Has node) :
    Links.Absent (Function.update lists node none) node := by
  intro head entries found
  rw [Function.update_apply] at found
  split at found
  next => cases found
  next different =>
      rw [List.mem_cons, not_or]
      exact ⟨Ne.symm different, fun member =>
        hasNot ⟨head, entries, found, member⟩⟩

theorem Lists.Free.absent (free : lists.Free node) :
    Links.Absent (Function.update lists node none) node :=
  Lists.absent_of_hasNot free.1

theorem Lists.detach_of_found (represents : links.Represents lists)
    {front back : List Nat}
    (found : lists head = some (front ++ node :: back)) :
    lists.detach node = Function.update lists head (some (front ++ back)) := by
  have cycle := represents.cycle found
  have once := cycle.nodup
  funext other
  simp only [Lists.detach, Function.update_apply]
  by_cases isHead : other = head
  · subst isHead
    have notFront : node ∉ front := by grind
    rw [if_neg (by grind), if_pos rfl, found, Option.map_some,
      List.erase_append_right _ notFront,
      List.erase_cons_head]
  · rw [if_neg isHead]
    cases foundOther : lists other with
    | none => simp
    | some others =>
        have apart := represents.apart found foundOther (Ne.symm isHead)
        have outside : node ∉ other :: others := apart (by simp)
        rw [if_neg (by grind), Option.map_some,
          List.erase_of_not_mem (by grind)]

theorem Lists.detach_absent (lists : Lists)
    (represents : links.Represents lists) (node : Nat) :
    Links.Absent (lists.detach node) node := by
  intro head entries found
  simp only [Lists.detach, Function.update_apply] at found
  split at found
  next => cases found
  next different =>
      obtain ⟨before, foundBefore, rfl⟩ := Option.map_eq_some_iff.mp found
      have once := (represents.cycle foundBefore).nodup.of_cons
      rw [List.mem_cons, not_or]
      exact ⟨Ne.symm different, once.not_mem_erase⟩

theorem Lists.detach_of_empty (represents : links.Represents lists)
    (found : lists node = some []) :
    lists.detach node = Function.update lists node none := by
  funext other
  simp only [Lists.detach, Function.update_apply]
  split
  next => rfl
  next different =>
      cases foundOther : lists other with
      | none => rfl
      | some others =>
          have apart := represents.apart found foundOther (Ne.symm different)
          have outside : node ∉ other :: others := apart List.mem_cons_self
          rw [Option.map_some, List.erase_of_not_mem (by grind)]

theorem listDelEntry_represents (represents : links.Represents lists)
    (loose : lists.Loose node) :
    (listDelEntry links node).Represents (lists.detach node) := by
  rw [listDelEntry, listDelBetween_eq]
  cases loose with
  | inl has =>
      obtain ⟨head, entries, found, member⟩ := has
      obtain ⟨front, back, rfl⟩ := List.append_of_mem member
      rw [Lists.detach_of_found represents found]
      exact represents.remove found
  | inr found =>
      have cycle := represents.cycle found
      have isNext : links.next node = node :=
        (Option.some.inj cycle.next_head).symm
      have isPrev : links.prev node = node :=
        (Option.some.inj cycle.prev_head).symm
      rw [Lists.detach_of_empty represents found, isNext, isPrev]
      have emptied : (links.join node node).Represents
          (Function.update lists node (some [])) := by
        refine represents.init ?_
        intro other others foundOther different member
        exact represents.apart found foundOther
          (Ne.symm different) List.mem_cons_self
          (List.mem_cons_of_mem _ member)
      have forgotten := emptied.forget node
      rwa [Function.update_idem] at forgotten

theorem listDel_represents (represents : links.Represents lists)
    (has : lists.Has node) :
    (listDel links node).Represents (lists.detach node) := by
  have removed := listDelEntry_represents represents (.inl has)
  refine removed.frame ?_
  intro other present
  have different : other ≠ node := by
    rintro rfl
    exact present (lists.detach_absent represents other)
  simp [listDel, listDelEntry, different]

theorem initListHead_represents (represents : links.Represents lists)
    (hasNot : ¬ lists.Has node) :
    (initListHead links node).Represents
    (Function.update lists node (some [])) :=
  represents.init
    (fun other others found _ member => hasNot ⟨other, others, found, member⟩)

theorem listAdd_represents {new : Nat} {entries : List Nat}
    (represents : links.Represents lists)
    (absent : Links.Absent lists new) (found : lists head = some entries) :
    (listAdd links new head).Represents (lists.change head (new :: ·)) := by
  have cycle := represents.cycle found
  have split : lists head = some ([] ++ [] ++ entries) := found
  rw [Lists.change, found, listAdd, listAddBetween_eq]
  exact represents.substitute split absent rfl cycle.next_head

theorem listAddTail_represents {new : Nat} {entries : List Nat}
    (represents : links.Represents lists) (absent : Links.Absent lists new)
    (found : lists head = some entries) :
    (listAddTail links new head).Represents
    (lists.change head (· ++ [new])) := by
  have cycle := represents.cycle found
  have split : lists head = some (entries ++ [] ++ []) := by simpa using found
  rw [Lists.change, found, listAddTail, listAddBetween_eq]
  exact represents.substitute split absent cycle.prev_head rfl

/-- The previous entry that `list_replace` reads is the old one unless the list
is empty. -/
theorem listReplace_eq {old new : Nat} (notEmpty : links.next old ≠ old) :
    listReplace links old new =
      (links.join new (links.next old)).join (links.prev old) new := by
  have read : (if old = links.next old then new else links.prev old) =
      links.prev old :=
    if_neg (Ne.symm notEmpty)
  simp only [listReplace, Links.join, Links.next_setNext, Links.prev_setNext,
    Links.prev_setPrev, if_true, read]
  rfl

theorem map_rename {old new : Nat} {nodes : List Nat} (absent : old ∉ nodes) :
    nodes.map (fun node => if node = old then new else node) = nodes := by
  have same : ∀ node ∈ nodes, (if node = old then new else node) = id node := by
    intro node member
    refine if_neg ?_
    rintro rfl
    exact absent member
  rw [List.map_congr_left same, List.map_id]

theorem Lists.Has.not_head (represents : links.Represents lists)
    (has : lists.Has node) :
    lists node = none := by
  obtain ⟨head, entries, found, member⟩ := has
  cases foundNode : lists node with
  | none => rfl
  | some others =>
      exfalso
      by_cases same : node = head
      · subst same
        exact (List.nodup_cons.mp (represents.cycle found).nodup).1 member
      · exact represents.apart foundNode found same List.mem_cons_self
          (List.mem_cons_of_mem _ member)

theorem Lists.rename_of_found {old new : Nat}
    (represents : links.Represents lists)
    (free : lists.Free new) {front back : List Nat}
    (found : lists head = some (front ++ old :: back)) :
    lists.rename old new =
      Function.update (Function.update lists new none) head
        (some (front ++ new :: back)) := by
  have once := (represents.cycle found).nodup
  have notHead : lists old = none :=
    Lists.Has.not_head represents ⟨head, _, found, by simp⟩
  have different : head ≠ new := by
    rintro rfl
    cases free.2 with
    | inl none => simp [none] at found
    | inr empty => simp [empty] at found
  funext other
  simp only [Lists.rename, Function.update_apply]
  by_cases isNew : other = new
  · rw [if_pos isNew, notHead, if_neg (by grind), if_pos isNew]
  · rw [if_neg isNew, if_neg isNew]
    by_cases isHead : other = head
    · subst isHead
      rw [if_neg (by grind), if_pos rfl, found, Option.map_some,
        List.map_append, List.map_cons,
        if_pos rfl, map_rename (by grind), map_rename (by grind)]
    · rw [if_neg isHead]
      split
      next isOld => rw [isOld, notHead]
      next =>
          cases foundOther : lists other with
          | none => rfl
          | some others =>
              have apart := represents.apart found foundOther (Ne.symm isHead)
              have outside : old ∉ other :: others := apart (by simp)
              rw [Option.map_some, map_rename (by grind)]

theorem Lists.rename_of_head {old new : Nat} {entries : List Nat}
    (represents : links.Represents lists) (found : lists old = some entries) :
    lists.rename old new =
      Function.update (Function.update lists old none) new (some entries) := by
  funext other
  simp only [Lists.rename, Function.update_apply]
  split
  next => exact found
  next =>
      split
      next => rfl
      next notOld =>
          cases foundOther : lists other with
          | none => rfl
          | some others =>
              have apart := represents.apart found foundOther (Ne.symm notOld)
              have outside : old ∉ other :: others := apart List.mem_cons_self
              rw [Option.map_some, map_rename (by grind)]

theorem listReplace_of_empty {old new : Nat}
    (represents : links.Represents lists)
    (free : lists.Free new) (different : new ≠ old)
    (found : lists old = some []) :
    (listReplace links old new).Represents
      (Function.update (Function.update lists old none) new (some [])) := by
  have cycle := represents.cycle found
  have isNext : links.next old = old := (Option.some.inj cycle.next_head).symm
  have hasNot : ¬ Lists.Has (Function.update lists old none) new := by
    rintro ⟨head, entries, foundHead, member⟩
    rw [Function.update_apply] at foundHead
    split at foundHead
    next => cases foundHead
    next => exact free.1 ⟨head, entries, foundHead, member⟩
  refine (initListHead_represents (represents.forget old) hasNot).frame ?_
  intro node present
  have notOld : node ≠ old := by
    rintro rfl
    refine present ?_
    intro other others foundOther
    rw [Function.update_apply] at foundOther
    split at foundOther
    next isNew =>
        cases foundOther
        simpa [isNew] using Ne.symm different
    next =>
        rw [Function.update_apply] at foundOther
        split at foundOther
        next => cases foundOther
        next notHead =>
            exact represents.apart found foundOther
              (Ne.symm notHead) List.mem_cons_self
  by_cases isNew : node = new
  · simp [listReplace, initListHead, isNext, isNew]
  · simp [listReplace, initListHead, isNext, notOld, isNew]

theorem listReplace_represents {old new : Nat}
    (represents : links.Represents lists)
    (free : lists.Free new) (different : new ≠ old)
    (known : lists.Has old ∨ (lists old).isSome) :
    (listReplace links old new).Represents (lists.rename old new) := by
  have forgotten := represents.forget new
  cases known with
  | inl has =>
      obtain ⟨head, entries, found, member⟩ := has
      obtain ⟨front, back, rfl⟩ := List.append_of_mem member
      have cycle := represents.cycle found
      have notNew : head ≠ new := by
        rintro rfl
        cases free.2 with
        | inl none => simp [none] at found
        | inr empty => simp [empty] at found
      have notEmpty : links.next old ≠ old := by
        have once := cycle.nodup
        have isNext := List.mem_of_head? cycle.next_node
        grind
      rw [listReplace_eq notEmpty, Lists.rename_of_found represents free found]
      have split : Function.update lists new none head =
          some (front ++ [old] ++ back) := by
        rw [Function.update_of_ne notNew, found]
        simp
      exact forgotten.substitute split free.absent cycle.prev_node
        cycle.next_node
  | inr isHead =>
      obtain ⟨entries, found⟩ := Option.isSome_iff_exists.mp isHead
      have cycle := represents.cycle found
      have foundStill : Function.update lists new none old = some entries := by
        rw [Function.update_of_ne (Ne.symm different), found]
      rw [Lists.rename_of_head represents found]
      by_cases empty : entries = []
      · subst empty
        exact listReplace_of_empty represents free different found
      · have notEmpty : links.next old ≠ old := by
          have once := cycle.nodup
          have isNext := List.mem_of_head? (cycle.first empty)
          grind
        rw [listReplace_eq notEmpty]
        have renamed := forgotten.rename foundStill empty free.absent
        have same : Function.update
            (Function.update (Function.update lists new none) old none)
            new (some entries) =
              Function.update (Function.update lists old none) new
              (some entries) := by
          have swap :=
            @Function.update_comm Nat _ (fun _ => Option (List Nat)) new old
            different none none lists
          rw [swap, Function.update_idem]
        rwa [same] at renamed

theorem listEmpty_iff {entries : List Nat} (cycle : links.Cycle head entries) :
    listEmpty links head = true ↔ entries = [] := by
  rw [listEmpty, decide_eq_true_iff]
  constructor
  · intro isHead
    by_contra nonempty
    have member := List.mem_of_head? (cycle.first nonempty)
    rw [isHead] at member
    exact (List.nodup_cons.mp cycle.nodup).1 member
  · rintro rfl
    exact (Option.some.inj cycle.next_head).symm

theorem listIsSingular_iff {entries : List Nat}
    (cycle : links.Cycle head entries) :
    listIsSingular links head = true ↔ entries.length = 1 := by
  rw [listIsSingular, Bool.and_eq_true, Bool.not_eq_true', decide_eq_true_iff,
    ← Bool.not_eq_true, listEmpty_iff cycle]
  constructor
  · rintro ⟨nonempty, same⟩
    have isFirst := cycle.first nonempty
    have isLast := cycle.last nonempty
    match entries, nonempty with
    | [entry], _ => rfl
    | first :: second :: rest, _ =>
        exfalso
        rw [same] at isFirst
        rw [List.getLast?_cons_cons] at isLast
        have member := List.mem_of_getLast? isLast
        rw [← Option.some.inj isFirst] at member
        exact (List.nodup_cons.mp cycle.nodup.of_cons).1 member
  · intro single
    obtain ⟨entry, rfl⟩ := List.length_eq_one_iff.mp single
    refine ⟨List.cons_ne_nil _ _, ?_⟩
    have isFirst := cycle.first (List.cons_ne_nil _ _)
    have isLast := cycle.last (List.cons_ne_nil _ _)
    exact Option.some.inj (isFirst.symm.trans isLast)

theorem listRotateLeft_represents {entries : List Nat}
    (represents : links.Represents lists)
    (found : lists head = some entries) :
    (listRotateLeft links head).Represents
    (lists.change head (·.rotate 1)) := by
  have cycle := represents.cycle found
  unfold listRotateLeft
  split
  next empty =>
      have isNil := (listEmpty_iff cycle).mp empty
      subst isNil
      rw [Lists.change, found, Option.map_some, List.rotate_nil, ← found,
        Function.update_eq_self]
      exact represents
  next notEmpty =>
      cases entries with
      | nil => exact absurd ((listEmpty_iff cycle).mpr rfl) notEmpty
      | cons first rest =>
          have isFirst : links.next head = first :=
            (Option.some.inj cycle.next_head).symm
          have has : lists.Has first := ⟨head, _, found, List.mem_cons_self⟩
          have split : lists head = some ([] ++ first :: rest) := found
          have detached := Lists.detach_of_found represents split
          have foundRest : lists.detach first head = some rest := by
            rw [detached, Function.update_self, List.nil_append]
          have moved := listAddTail_represents
              (listDelEntry_represents represents (.inl has))
            (lists.detach_absent represents first) foundRest
          have same : (lists.detach first).change head (· ++ [first]) =
              lists.change head (·.rotate 1) := by
            rw [Lists.change, Lists.change, foundRest, found, detached,
              Function.update_idem]
            simp only [Option.map_some, List.rotate_cons_succ, List.rotate_zero]
          rw [isFirst, listMoveTail, ← same]
          exact moved

theorem Lists.cut_of_nonempty {list entry : Nat} {entries : List Nat}
    (found : lists head = some entries) (nonempty : entries ≠ []) :
    lists.cut list head entry =
      Function.update (Function.update lists list
        (some (entries.take (cutCount entries head entry)))) head
        (some (entries.drop (cutCount entries head entry))) := by
  unfold Lists.cut
  rw [found]
  cases entries with
  | nil => exact absurd rfl nonempty
  | cons first rest => rfl

theorem listCutPosition_represents {list entry : Nat} {entries : List Nat}
    (represents : links.Represents lists) (hasNot : ¬ lists.Has list)
    (different : list ≠ head)
    (found : lists head = some entries)
    (known : entry = head ∨ entry ∈ entries) :
    (listCutPosition links list head entry).Represents
    (lists.cut list head entry) := by
  have cycle := represents.cycle found
  unfold listCutPosition
  split
  next empty =>
      have isNil := (listEmpty_iff cycle).mp empty
      subst isNil
      simpa [Lists.cut, found] using represents
  next notEmpty =>
  have nonempty : entries ≠ [] :=
    fun isNil => notEmpty ((listEmpty_iff cycle).mpr isNil)
  rw [Lists.cut_of_nonempty found nonempty]
  split
  next alone =>
      exfalso
      obtain ⟨single, notFirst, notHead⟩ := alone
      obtain ⟨only, rfl⟩ :=
        List.length_eq_one_iff.mp ((listIsSingular_iff cycle).mp single)
      have isFirst := Option.some.inj (cycle.first nonempty)
      have isOnly :=
        List.mem_singleton.mp (known.resolve_left (Ne.symm notHead))
      exact notFirst (isFirst.symm.trans isOnly.symm)
  next =>
  split
  next isHead =>
      subst isHead
      have count : Lists.cutCount entries entry entry = 0 := if_pos rfl
      have same : Function.update (Function.update lists list (some [])) entry
          (some entries) =
          Function.update lists list (some []) := by
        rw [← found,
          ← Function.update_of_ne (Ne.symm different) (some []) lists,
          Function.update_eq_self]
      rw [count, List.take_zero, List.drop_zero, same]
      exact initListHead_represents represents hasNot
  next notHead =>
      obtain ⟨front, back, rfl⟩ :=
        List.append_of_mem (known.resolve_left notHead)
      have once := cycle.nodup
      have count : Lists.cutCount (front ++ entry :: back) head entry =
          (front ++ [entry]).length := by
        rw [Lists.cutCount, if_neg notHead,
          List.idxOf_append_of_notMem (by grind),
          List.idxOf_cons_self]
        simp
      have split : front ++ entry :: back = (front ++ [entry]) ++ back := by
        simp
      have foundStill : Function.update lists list none head =
          some ((front ++ [entry]) ++ back) := by
        rw [Function.update_of_ne (Ne.symm different), found, split]
      have cutting :=
        (represents.forget list).cut foundStill List.getLast?_concat
        (Lists.absent_of_hasNot hasNot) cycle.next_node
      rw [Function.update_idem] at cutting
      rw [count, split, List.take_left, List.drop_left, listCutAt_eq]
      exact cutting

theorem listSpliceBetween_represents {list prev next : Nat}
    {moved front back : List Nat}
    (represents : links.Represents lists) (foundList : lists list = some moved)
    (nonempty : moved ≠ []) (found : lists head = some (front ++ back))
    (different : list ≠ head) (isLast : (head :: front).getLast? = some prev)
    (isFirst : (back ++ [head]).head? = some next) :
    (listSpliceBetween links list prev next).Represents
        (Function.update
          (Function.update lists head (some (front ++ moved ++ back))) list
          none) ∧
      (initListHead (listSpliceBetween links list prev next) list).Represents
        (Function.update
          (Function.update lists head (some (front ++ moved ++ back))) list
          (some [])) := by
  have swap := @Function.update_comm Nat _ (fun _ => Option (List Nat)) list
      head different none
    (some (front ++ moved ++ back)) lists
  have spliced :=
    represents.splice foundList nonempty found different isLast isFirst
  rw [swap, ← listSpliceBetween_eq] at spliced
  refine ⟨spliced, ?_⟩
  have hasNot : ¬ Lists.Has (Function.update (Function.update lists head
      (some (front ++ moved ++ back))) list none) list := by
    rintro ⟨other, others, foundOther, member⟩
    have once := (represents.cycle foundList).nodup
    have apart := represents.apart foundList found different List.mem_cons_self
    rw [Function.update_apply, Function.update_apply] at foundOther
    split at foundOther
    next => cases foundOther
    next notList =>
        split at foundOther
        next =>
            cases foundOther
            grind
        next =>
            exact represents.apart foundList foundOther
              (Ne.symm notList) List.mem_cons_self
              (List.mem_cons_of_mem _ member)
  have emptied := initListHead_represents spliced hasNot
  rwa [Function.update_idem] at emptied

theorem Lists.splice_of_nonempty {list : Nat} {moved : List Nat}
    (foundList : lists list = some moved) (nonempty : moved ≠ []) (head : Nat)
    (left : Option (List Nat)) (put : List Nat → List Nat → List Nat) :
    lists.splice list head left put =
      Function.update (lists.change head (put moved)) list left := by
  unfold Lists.splice
  rw [foundList]
  cases moved with
  | nil => exact absurd rfl nonempty
  | cons first rest => rfl

theorem Lists.splice_of_empty {list : Nat} (foundList : lists list = some [])
    (head : Nat)
    (left : Option (List Nat)) (put : List Nat → List Nat → List Nat) :
    lists.splice list head left put = lists := by
  unfold Lists.splice
  rw [foundList]

section Splice

variable {list : Nat} {moved entries : List Nat}

theorem listSplice_represents (represents : links.Represents lists)
    (foundList : lists list = some moved) (found : lists head = some entries)
    (different : list ≠ head) :
    (listSplice links list head).Represents
    (lists.splice list head none (· ++ ·)) ∧
      (listSpliceInit links list head).Represents
        (lists.splice list head (some []) (· ++ ·)) := by
  have cycle := represents.cycle found
  have isEmpty := listEmpty_iff (represents.cycle foundList)
  by_cases empty : moved = []
  · subst empty
    rw [listSplice, listSpliceInit, if_pos (isEmpty.mpr rfl),
      if_pos (isEmpty.mpr rfl),
      Lists.splice_of_empty foundList, Lists.splice_of_empty foundList]
    exact ⟨represents, represents⟩
  · have notEmpty : ¬ listEmpty links list = true :=
      fun isNil => empty (isEmpty.mp isNil)
    have split : lists head = some ([] ++ entries) := found
    rw [listSplice, listSpliceInit, if_neg notEmpty, if_neg notEmpty,
      Lists.splice_of_nonempty foundList empty,
      Lists.splice_of_nonempty foundList empty,
      Lists.change, found]
    exact listSpliceBetween_represents represents foundList empty split
      different rfl
      cycle.next_head

theorem listSpliceTail_represents (represents : links.Represents lists)
    (foundList : lists list = some moved) (found : lists head = some entries)
    (different : list ≠ head) :
    (listSpliceTail links list head).Represents
        (lists.splice list head none (fun moved entries => entries ++ moved)) ∧
      (listSpliceTailInit links list head).Represents
        (lists.splice list head (some [])
          (fun moved entries => entries ++ moved)) := by
  have cycle := represents.cycle found
  have isEmpty := listEmpty_iff (represents.cycle foundList)
  by_cases empty : moved = []
  · subst empty
    rw [listSpliceTail, listSpliceTailInit, if_pos (isEmpty.mpr rfl),
      if_pos (isEmpty.mpr rfl),
      Lists.splice_of_empty foundList, Lists.splice_of_empty foundList]
    exact ⟨represents, represents⟩
  · have notEmpty : ¬ listEmpty links list = true :=
      fun isNil => empty (isEmpty.mp isNil)
    have split : lists head = some (entries ++ []) := by
      rw [List.append_nil, found]
    rw [listSpliceTail, listSpliceTailInit, if_neg notEmpty, if_neg notEmpty,
      Lists.splice_of_nonempty foundList empty,
      Lists.splice_of_nonempty foundList empty,
      Lists.change, found]
    have spliced :=
      listSpliceBetween_represents represents foundList empty split different
      cycle.prev_head rfl
    rwa [List.append_nil] at spliced

end Splice

theorem Lists.rename_hasNot {old new : Nat}
    (represents : links.Represents lists)
    (different : new ≠ old) : ¬ (lists.rename old new).Has old := by
  rintro ⟨head, entries, found, member⟩
  unfold Lists.rename at found
  split at found
  next => exact (List.nodup_cons.mp (represents.cycle found).nodup).1 member
  next =>
      split at found
      next => cases found
      next =>
          obtain ⟨before, _, rfl⟩ := Option.map_eq_some_iff.mp found
          obtain ⟨node, _, becomes⟩ := List.mem_map.mp member
          split at becomes
          next => exact different becomes
          next notOld => exact notOld becomes

/-- One function of `list.h`, called as its comment asks. -/
theorem ListOp.represents {op : ListOp} (represents : links.Represents lists)
    (allowed : op.Allowed lists) :
    (op.run links).Represents (op.apply lists) := by
  cases op with
  | init list => exact initListHead_represents represents allowed
  | add new head =>
      obtain ⟨free, isHead, different⟩ := allowed
      obtain ⟨entries, found⟩ := Option.isSome_iff_exists.mp isHead
      rw [← Function.update_of_ne (Ne.symm different) none lists] at found
      exact listAdd_represents (represents.forget new) free.absent found
  | addTail new head =>
      obtain ⟨free, isHead, different⟩ := allowed
      obtain ⟨entries, found⟩ := Option.isSome_iff_exists.mp isHead
      rw [← Function.update_of_ne (Ne.symm different) none lists] at found
      exact listAddTail_represents (represents.forget new) free.absent found
  | del entry => exact listDel_represents represents allowed
  | delInit entry =>
      refine initListHead_represents
        (listDelEntry_represents represents allowed) ?_
      rintro ⟨head, entries, found, member⟩
      exact lists.detach_absent represents entry head entries found
        (List.mem_cons_of_mem _ member)
  | replace old new =>
      obtain ⟨free, different, known⟩ := allowed
      exact listReplace_represents represents free different known
  | replaceInit old new =>
      obtain ⟨free, different, known⟩ := allowed
      exact initListHead_represents
        (listReplace_represents represents free different known)
        (Lists.rename_hasNot represents different)
  | move list head =>
      obtain ⟨loose, isHead, different⟩ := allowed
      obtain ⟨entries, found⟩ := Option.isSome_iff_exists.mp isHead
      have foundStill : lists.detach list head = some (entries.erase list) := by
        rw [Lists.detach, Function.update_of_ne (Ne.symm different), found,
          Option.map_some]
      exact listAdd_represents (listDelEntry_represents represents loose)
        (lists.detach_absent represents list) foundStill
  | moveTail list head =>
      obtain ⟨loose, isHead, different⟩ := allowed
      obtain ⟨entries, found⟩ := Option.isSome_iff_exists.mp isHead
      have foundStill : lists.detach list head = some (entries.erase list) := by
        rw [Lists.detach, Function.update_of_ne (Ne.symm different), found,
          Option.map_some]
      exact listAddTail_represents (listDelEntry_represents represents loose)
        (lists.detach_absent represents list) foundStill
  | rotateLeft head =>
      obtain ⟨entries, found⟩ := Option.isSome_iff_exists.mp allowed
      exact listRotateLeft_represents represents found
  | cutPosition list head entry =>
      obtain ⟨hasNot, different, entries, found, known⟩ := allowed
      exact listCutPosition_represents represents hasNot different found known
  | splice list head =>
      obtain ⟨isList, isHead, different⟩ := allowed
      obtain ⟨moved, foundList⟩ := Option.isSome_iff_exists.mp isList
      obtain ⟨entries, found⟩ := Option.isSome_iff_exists.mp isHead
      exact (listSplice_represents represents foundList found different).1
  | spliceTail list head =>
      obtain ⟨isList, isHead, different⟩ := allowed
      obtain ⟨moved, foundList⟩ := Option.isSome_iff_exists.mp isList
      obtain ⟨entries, found⟩ := Option.isSome_iff_exists.mp isHead
      exact (listSpliceTail_represents represents foundList found different).1
  | spliceInit list head =>
      obtain ⟨isList, isHead, different⟩ := allowed
      obtain ⟨moved, foundList⟩ := Option.isSome_iff_exists.mp isList
      obtain ⟨entries, found⟩ := Option.isSome_iff_exists.mp isHead
      exact (listSplice_represents represents foundList found different).2
  | spliceTailInit list head =>
      obtain ⟨isList, isHead, different⟩ := allowed
      obtain ⟨moved, foundList⟩ := Option.isSome_iff_exists.mp isList
      obtain ⟨entries, found⟩ := Option.isSome_iff_exists.mp isHead
      exact (listSpliceTail_represents represents foundList found different).2

/-! ## Loops and questions -/

theorem listForEach_visits {State : Type} (body : State → Nat → State)
    {front back : List Nat}
    (cycle : links.Cycle head (front ++ back)) {pos : Nat}
    (isPos : (back ++ [head]).head? = some pos) (state : State) {turns : Nat}
    (enough : back.length < turns) :
    listForEach links.next head body turns pos state =
      some (back.foldl body state) := by
  induction back generalizing front pos state turns with
  | nil =>
      obtain ⟨left, rfl⟩ := Nat.exists_eq_add_of_lt enough
      rw [listForEach, if_pos (Option.some.inj isPos).symm, List.foldl_nil]
  | cons entry back induction =>
      obtain ⟨left, rfl⟩ := Nat.exists_eq_add_of_lt enough
      have isEntry : entry = pos := Option.some.inj isPos
      have notHead : pos ≠ head := by
        have once := cycle.nodup
        grind
      have rest : links.Cycle head ((front ++ [entry]) ++ back) := by
        simpa using cycle
      rw [listForEach, if_neg notHead, List.foldl_cons, ← isEntry]
      refine induction rest cycle.next_node _ ?_
      simp only [List.length_cons]
      omega

/-- Loops over `list_next_entry` see the entries in their order. -/
theorem listForEach_forward {State : Type} (body : State → Nat → State)
    {entries : List Nat}
    (cycle : links.Cycle head entries) (state : State) {turns : Nat}
    (enough : entries.length < turns) :
    listForEach links.next head body turns (links.next head) state =
      some (entries.foldl body state) := by
  have split : links.Cycle head ([] ++ entries) := cycle
  exact listForEach_visits body split cycle.next_head state enough

/-- Loops over `list_prev_entry` see them backwards. -/
theorem listForEach_backward {State : Type} (body : State → Nat → State)
    {entries : List Nat}
    (cycle : links.Cycle head entries) (state : State) {turns : Nat}
    (enough : entries.length < turns) :
    listForEach links.prev head body turns (links.prev head) state =
      some (entries.reverse.foldl body state) := by
  have turned :
      (Links.mk links.prev links.next).Cycle head entries.reverse := by
    refine ⟨?_, ?_⟩
    · have once := cycle.nodup
      rw [List.nodup_cons] at once ⊢
      rwa [List.mem_reverse, List.nodup_reverse]
    · have chain :=
        List.isChain_reverse.mpr (cycle.chain.imp fun _ _ => And.symm)
      have turnedChain : (head :: (entries.reverse ++ [head])).IsChain
          (fun first second => links.prev first = second ∧
            links.next second = first) := by
        simpa using chain
      exact turnedChain
  refine listForEach_forward body turned state ?_
  rwa [List.length_reverse]

def delEach (state : Links Nat × List Nat) (pos : Nat) : Links Nat × List Nat :=
  (listDel state.1 pos, state.2 ++ [pos])

theorem listForEachSafe_empties {entries : List Nat}
    (represents : links.Represents lists)
    (found : lists head = some entries) (seen : List Nat) {turns : Nat}
    (enough : entries.length < turns) :
    ∃ after, listForEachSafe Prod.fst head delEach turns (links.next head)
        (links.next (links.next head)) (links, seen) =
          some (after, seen ++ entries) ∧
      after.Represents (Function.update lists head (some [])) := by
  induction entries generalizing links lists seen turns with
  | nil =>
      obtain ⟨left, rfl⟩ := Nat.exists_eq_add_of_lt enough
      have isHead := (Option.some.inj (represents.cycle found).next_head).symm
      refine ⟨links, ?_, ?_⟩
      · rw [listForEachSafe, if_pos isHead, List.append_nil]
      · rwa [← found, Function.update_eq_self]
  | cons entry rest induction =>
      obtain ⟨left, rfl⟩ := Nat.exists_eq_add_of_lt enough
      have cycle := represents.cycle found
      have isFirst : links.next head = entry :=
        (Option.some.inj cycle.next_head).symm
      have notHead : entry ≠ head := by
        have once := cycle.nodup
        grind
      have split : lists head = some ([] ++ entry :: rest) := found
      have detached := Lists.detach_of_found represents split
      have removed :=
        listDel_represents represents ⟨head, _, found, List.mem_cons_self⟩
      have foundRest : lists.detach entry head = some rest := by
        rw [detached, Function.update_self, List.nil_append]
      have second : links.next entry = (listDel links entry).next head := by
        have before := Links.Cycle.next_node (represents.cycle split)
        have after := (removed.cycle foundRest).next_head
        exact Option.some.inj (before.symm.trans after)
      have enoughRest : rest.length < rest.length + 1 + left := by omega
      obtain ⟨after, loops, emptied⟩ :=
        induction removed foundRest (seen ++ [entry]) enoughRest
      refine ⟨after, ?_, ?_⟩
      · rw [List.length_cons, listForEachSafe, isFirst, if_neg notHead, second]
        simpa [delEach] using loops
      · rwa [detached, Function.update_idem] at emptied

theorem listIsLast_iff {entries : List Nat} (cycle : links.Cycle head entries)
    {entry : Nat}
    (member : entry ∈ entries) :
    listIsLast links entry head = true ↔ entries.getLast? = some entry := by
  obtain ⟨front, back, rfl⟩ := List.append_of_mem member
  have once := cycle.nodup
  have isNext := cycle.next_node
  rw [listIsLast, decide_eq_true_iff]
  cases back with
  | nil =>
      have isHead := (Option.some.inj isNext).symm
      simp [isHead]
  | cons next back =>
      have isNext : next = links.next entry := Option.some.inj isNext
      have notHead : links.next entry ≠ head := by grind
      have isLater : (front ++ entry :: next :: back).getLast? =
          (next :: back).getLast? := by
        rw [List.getLast?_append_of_ne_nil _ (List.cons_ne_nil _ _),
          List.getLast?_cons_cons]
      rw [isLater]
      constructor
      · exact fun isHead => absurd isHead notHead
      · intro isLast
        have member := List.mem_of_getLast? isLast
        grind

theorem listEmptyCareful_iff {entries : List Nat}
    (cycle : links.Cycle head entries) :
    listEmptyCareful links head = true ↔ entries = [] := by
  rw [listEmptyCareful, decide_eq_true_iff, ← listEmpty_iff cycle, listEmpty,
    decide_eq_true_iff]
  refine and_iff_left_of_imp ?_
  intro isHead
  have empty : entries = [] := (listEmpty_iff cycle).mp (decide_eq_true isHead)
  subst empty
  rw [isHead]
  exact Option.some.inj cycle.prev_head

/-! ## Runs -/

def AllowedRun : Lists → List ListOp → Prop
  | _, [] => True
  | lists, op :: ops => op.Allowed lists ∧ AllowedRun (op.apply lists) ops

def noLists : Lists := fun _ => none

theorem ListOp.run_represents {ops : List ListOp}
    (represents : links.Represents lists)
    (allowed : AllowedRun lists ops) :
    (ops.foldl ListOp.run links).Represents (ops.foldl ListOp.apply lists) := by
  induction ops generalizing links lists with
  | nil => exact represents
  | cons op ops induction =>
      exact induction (ListOp.represents represents allowed.1) allowed.2

/-- Whatever the memory holds, and whatever lists are made, changed, moved, cut
and joined in it by the functions of `list.h`: as long as each is called as its
comment asks, every list stays the sequence that the calls make of it.  The
questions answer for that sequence, the loops see it forwards and backwards, and
the loop that takes every entry off leaves an empty list and the other lists
alone. -/
theorem listOps_represent {ops : List ListOp} (links : Links Nat)
    (allowed : AllowedRun noLists ops) {head : Nat} {entries : List Nat}
    (found : ops.foldl ListOp.apply noLists head = some entries) :
    ((listEmpty (ops.foldl ListOp.run links) head = true ↔ entries = []) ∧
      (listEmptyCareful (ops.foldl ListOp.run links) head = true ↔
        entries = []) ∧
      (listIsSingular (ops.foldl ListOp.run links) head = true ↔
        entries.length = 1) ∧
      ∀ entry ∈ entries,
        (listIsLast (ops.foldl ListOp.run links) entry head = true ↔
        entries.getLast? = some entry)) ∧
    ∀ turns, entries.length < turns →
      listForEach (ops.foldl ListOp.run links).next head
        (fun seen pos => seen ++ [pos])
          turns ((ops.foldl ListOp.run links).next head) [] = some entries ∧
      listForEach (ops.foldl ListOp.run links).prev head
        (fun seen pos => seen ++ [pos])
          turns ((ops.foldl ListOp.run links).prev head) [] =
            some entries.reverse ∧
      ∃ after, listForEachSafe Prod.fst head delEach turns
          ((ops.foldl ListOp.run links).next head)
          ((ops.foldl ListOp.run links).next
            ((ops.foldl ListOp.run links).next head))
          (ops.foldl ListOp.run links, []) = some (after, entries) ∧
        after.Represents
          (Function.update (ops.foldl ListOp.apply noLists) head
            (some [])) := by
  have start : links.Represents noLists := ⟨nofun, nofun⟩
  have represents := ListOp.run_represents start allowed
  have cycle := represents.cycle found
  refine ⟨⟨listEmpty_iff cycle, listEmptyCareful_iff cycle,
    listIsSingular_iff cycle,
    fun entry member => listIsLast_iff cycle member⟩, ?_⟩
  intro turns enough
  have collect : ∀ nodes seen : List Nat,
      nodes.foldl (fun seen pos => seen ++ [pos]) seen = seen ++ nodes := by
    intro nodes
    induction nodes with
    | nil => simp
    | cons node nodes induction => simp [induction]
  refine ⟨?_, ?_, ?_⟩
  · rw [listForEach_forward _ cycle [] enough, collect, List.nil_append]
  · rw [listForEach_backward _ cycle [] enough, collect, List.nil_append]
  · obtain ⟨after, loops, emptied⟩ :=
      listForEachSafe_empties represents found [] enough
    exact ⟨after, by simpa using loops, emptied⟩

def rotateAndCut : List ListOp :=
  [.init 1, .init 2, .addTail 10 1, .addTail 11 1, .add 12 1, .rotateLeft 1,
    .cutPosition 2 1 11]

theorem listOps_represent_rotateAndCut :
    listForEach (rotateAndCut.foldl ListOp.run ⟨id, id⟩).next 2
      (fun seen pos => seen ++ [pos]) 3
      ((rotateAndCut.foldl ListOp.run ⟨id, id⟩).next 2) [] = some [10, 11] := by
  have allowed : AllowedRun noLists rotateAndCut := by
    simp only [rotateAndCut, AllowedRun, ListOp.Allowed, Lists.Free, Lists.Has,
      ListOp.apply, Lists.change, noLists, Function.update_apply]
    refine ⟨?_, ?_, ?_, ?_, ?_, ?_, ?_, trivial⟩
    all_goals simp
    all_goals grind
  have found : rotateAndCut.foldl ListOp.apply noLists 2 = some [10, 11] := by
    decide
  exact ((listOps_represent ⟨id, id⟩ allowed found).2 3 (by decide)).1

end Chario.Libchario
