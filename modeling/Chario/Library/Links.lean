import Mathlib.Data.List.Chain
import Mathlib.Data.List.Infix
import Mathlib.Data.List.Nodup
import Mathlib.Logic.Function.Basic

namespace Chario.Library

/-! Doubly linked cycles through memory.  A list is the cycle of its head and
its entries, and any number of lists may lie in one memory. -/

structure Links (Node : Type) where
  next : Node → Node
  prev : Node → Node

variable {Node : Type}

namespace Links

def Joined (links : Links Node) (first second : Node) : Prop :=
  links.next first = second ∧ links.prev second = first

structure Cycle (links : Links Node) (head : Node) (entries : List Node) :
    Prop where
  nodup : (head :: entries).Nodup
  chain : (head :: (entries ++ [head])).IsChain links.Joined

structure Represents (links : Links Node) (lists : Node → Option (List Node)) :
    Prop where
  cycle : ∀ {head entries}, lists head = some entries → links.Cycle head entries
  apart : ∀ {head other entries others}, lists head = some entries →
    lists other = some others → head ≠ other →
    (head :: entries).Disjoint (other :: others)

def Absent (lists : Node → Option (List Node)) (node : Node) : Prop :=
  ∀ head entries, lists head = some entries → node ∉ head :: entries

variable {links : Links Node} {head : Node} {entries front back : List Node}

theorem not_mem_dropLast {nodes : List Node} {last : Node} (nodup : nodes.Nodup)
    (isLast : nodes.getLast? = some last) : last ∉ nodes.dropLast := by
  obtain ⟨before, rfl⟩ := List.getLast?_eq_some_iff.mp isLast
  rw [List.dropLast_concat]
  exact fun member =>
    (List.disjoint_of_nodup_append nodup) member (List.mem_singleton_self last)

theorem not_mem_tail {nodes : List Node} {first : Node} (nodup : nodes.Nodup)
    (isFirst : nodes.head? = some first) : first ∉ nodes.tail := by
  obtain ⟨after, rfl⟩ := List.head?_eq_some_iff.mp isFirst
  exact (List.nodup_cons.mp nodup).1

theorem cycle_iff {p n : Node} (isLast : (head :: front).getLast? = some p)
    (isFirst : (back ++ [head]).head? = some n) :
    links.Cycle head (front ++ back) ↔
      (head :: (front ++ back)).Nodup ∧ (head :: front).IsChain links.Joined ∧
        (back ++ [head]).IsChain links.Joined ∧ links.Joined p n := by
  have seam : ((head :: front) ++ (back ++ [head])).IsChain links.Joined ↔
      (head :: front).IsChain links.Joined ∧
      (back ++ [head]).IsChain links.Joined ∧
        links.Joined p n := by
    rw [List.isChain_append, isLast, isFirst]
    simp
  have same : head :: (front ++ back ++ [head]) = (head :: front) ++
      (back ++ [head]) := by
    simp
  constructor
  · rintro ⟨nodup, chain⟩
    rw [same] at chain
    exact ⟨nodup, seam.mp chain⟩
  · rintro ⟨nodup, parts⟩
    refine ⟨nodup, ?_⟩
    rw [same]
    exact seam.mpr parts

theorem exists_last (head : Node) (front : List Node) :
    ∃ p, (head :: front).getLast? = some p :=
  ⟨_, List.getLast?_cons⟩

theorem exists_first (back : List Node) (head : Node) :
    ∃ n, (back ++ [head]).head? = some n := by
  cases back with
  | nil => exact ⟨head, rfl⟩
  | cons n back => exact ⟨n, rfl⟩

theorem nodup_parts {moved : List Node}
    (nodup : (head :: (front ++ moved ++ back)).Nodup) :
    ((head :: front).Nodup ∧ moved.Nodup ∧ (back ++ [head]).Nodup) ∧
      (head :: front).Disjoint moved ∧ (back ++ [head]).Disjoint moved ∧
      (head :: front).Disjoint back ∧ front.Disjoint (back ++ [head]) := by
  refine ⟨⟨by grind, by grind, by grind⟩, ?_, ?_, ?_, ?_⟩
  all_goals
    intro node here there
    grind

namespace Cycle

variable {node p n : Node}

theorem parts (cycle : links.Cycle head (front ++ back)) :
    (head :: front).IsChain links.Joined ∧
    (back ++ [head]).IsChain links.Joined := by
  obtain ⟨p, isLast⟩ := exists_last head front
  obtain ⟨n, isFirst⟩ := exists_first back head
  obtain ⟨_, fore, aft, _⟩ := (cycle_iff isLast isFirst).mp cycle
  exact ⟨fore, aft⟩

theorem joined (cycle : links.Cycle head (front ++ back))
    (isLast : (head :: front).getLast? = some p)
    (isFirst : (back ++ [head]).head? = some n) : links.Joined p n :=
  ((cycle_iff isLast isFirst).mp cycle).2.2.2

theorem next_node (cycle : links.Cycle head (front ++ node :: back)) :
    (back ++ [head]).head? = some (links.next node) := by
  obtain ⟨n, isFirst⟩ := exists_first back head
  have split : links.Cycle head ((front ++ [node]) ++ back) := by
    simpa using cycle
  have isLast : (head :: (front ++ [node])).getLast? = some node := by
    rw [← List.cons_append, List.getLast?_concat]
  rw [isFirst, (split.joined isLast isFirst).1]

theorem prev_node (cycle : links.Cycle head (front ++ node :: back)) :
    (head :: front).getLast? = some (links.prev node) := by
  obtain ⟨p, isLast⟩ := exists_last head front
  rw [isLast, (cycle.joined isLast rfl).2]

theorem next_head (cycle : links.Cycle head entries) :
    (entries ++ [head]).head? = some (links.next head) := by
  obtain ⟨n, isFirst⟩ := exists_first entries head
  have split : links.Cycle head ([] ++ entries) := cycle
  have isLast : [head].getLast? = some head := rfl
  rw [isFirst, (split.joined isLast isFirst).1]

theorem prev_head (cycle : links.Cycle head entries) :
    (head :: entries).getLast? = some (links.prev head) := by
  obtain ⟨p, isLast⟩ := exists_last head entries
  have split : links.Cycle head (entries ++ []) := by simpa using cycle
  rw [isLast, (split.joined isLast rfl).2]

theorem body (cycle : links.Cycle head entries) :
    entries.IsChain links.Joined := by
  have split : links.Cycle head ([] ++ entries) := cycle
  exact split.parts.2.left_of_append

theorem first (cycle : links.Cycle head entries) (nonempty : entries ≠ []) :
    entries.head? = some (links.next head) := by
  have isFirst := cycle.next_head
  rwa [List.head?_append_of_ne_nil _ nonempty] at isFirst

theorem last (cycle : links.Cycle head entries) (nonempty : entries ≠ []) :
    entries.getLast? = some (links.prev head) := by
  have isLast := cycle.prev_head
  rwa [List.getLast?_cons_of_ne_nil nonempty] at isLast

theorem next_mem (cycle : links.Cycle head entries)
    (member : node ∈ head :: entries) :
    links.next node ∈ head :: entries := by
  rw [List.mem_cons] at member
  cases member with
  | inl isHead =>
      have found := List.mem_of_head? cycle.next_head
      simpa [isHead, or_comm] using found
  | inr isEntry =>
      obtain ⟨front, back, rfl⟩ := List.append_of_mem isEntry
      have found := List.mem_of_head? cycle.next_node
      grind

theorem prev_mem (cycle : links.Cycle head entries)
    (member : node ∈ head :: entries) :
    links.prev node ∈ head :: entries := by
  rw [List.mem_cons] at member
  cases member with
  | inl isHead =>
      have found := List.mem_of_getLast? cycle.prev_head
      simpa [isHead] using found
  | inr isEntry =>
      obtain ⟨front, back, rfl⟩ := List.append_of_mem isEntry
      have found := List.mem_of_getLast? cycle.prev_node
      grind

end Cycle

theorem Represents.frame {lists : Node → Option (List Node)}
    {after : Links Node}
    (represents : links.Represents lists)
    (same : ∀ node, ¬ Absent lists node →
      after.next node = links.next node ∧ after.prev node = links.prev node) :
    after.Represents lists := by
  refine ⟨?_, represents.apart⟩
  intro head entries found
  have cycle := represents.cycle found
  have present : ∀ node ∈ head :: (entries ++ [head]), ¬ Absent lists node := by
    intro node member absent
    refine absent head entries found ?_
    simpa [or_comm] using member
  refine ⟨cycle.nodup, cycle.chain.imp_of_mem_imp ?_⟩
  intro first second firstMem secondMem joined
  refine ⟨?_, ?_⟩
  · rw [(same first (present first firstMem)).1, joined.1]
  · rw [(same second (present second secondMem)).2, joined.2]

variable [DecidableEq Node]

def setNext (links : Links Node) (node target : Node) : Links Node :=
  { links with next := Function.update links.next node target }

def setPrev (links : Links Node) (node target : Node) : Links Node :=
  { links with prev := Function.update links.prev node target }

def join (links : Links Node) (first second : Node) : Links Node :=
  (links.setNext first second).setPrev second first

variable {first second : Node}

@[simp]
theorem next_setNext (node target other : Node) :
    (links.setNext node target).next other =
      if other = node then target else links.next other :=
  Function.update_apply ..

@[simp]
theorem prev_setPrev (node target other : Node) :
    (links.setPrev node target).prev other =
      if other = node then target else links.prev other :=
  Function.update_apply ..

@[simp]
theorem prev_setNext (node target : Node) :
    (links.setNext node target).prev = links.prev := rfl

@[simp]
theorem next_setPrev (node target : Node) :
    (links.setPrev node target).next = links.next := rfl

theorem joined_join : (links.join first second).Joined first second := by
  simp [Joined, join]

theorem Joined.join {left right : Node} (joined : links.Joined left right)
    (notFirst : left ≠ first) (notSecond : right ≠ second) :
    (links.join first second).Joined left right := by
  simpa [Joined, Links.join, notFirst, notSecond] using joined

/-- A chain ends where the new pair begins, begins where it ends, or does not
meet it. -/
theorem chain_join {nodes : List Node} (chain : nodes.IsChain links.Joined)
    (notFirst : first ∉ nodes.dropLast) (notSecond : second ∉ nodes.tail) :
    nodes.IsChain (links.join first second).Joined := by
  induction chain with
  | nil => exact .nil
  | singleton node => exact .singleton node
  | @cons_cons left right rest joined _ induction =>
      rw [List.dropLast_cons_cons, List.mem_cons, not_or] at notFirst
      rw [List.tail_cons, List.mem_cons, not_or] at notSecond
      exact .cons_cons (joined.join (Ne.symm notFirst.1) (Ne.symm notSecond.1))
        (induction notFirst.2 notSecond.2)

theorem chain_join_of_apart {first second : Node} {nodes : List Node}
    (chain : nodes.IsChain links.Joined) (notFirst : first ∉ nodes)
    (notSecond : second ∉ nodes) :
    nodes.IsChain (links.join first second).Joined :=
  chain_join chain (fun member => notFirst (List.mem_of_mem_dropLast member))
    (fun member => notSecond (List.mem_of_mem_tail member))

/-- A chain is put between two neighbours, or two that have lost what was
between them. -/
theorem cycle_splice {moved : List Node} {p n first last : Node}
    (nodup : (head :: (front ++ moved ++ back)).Nodup)
    (fore : (head :: front).IsChain links.Joined)
    (body : moved.IsChain links.Joined)
    (aft : (back ++ [head]).IsChain links.Joined)
    (isLast : (head :: front).getLast? = some p)
    (isFirst : (back ++ [head]).head? = some n)
    (begins : moved.head? = some first) (ends : moved.getLast? = some last) :
    ((links.join p first).join last n).Cycle head (front ++ moved ++ back) := by
  obtain ⟨⟨foreOnce, bodyOnce, aftOnce⟩, foreBody, aftBody, foreAft,
    frontAft⟩ :=
    nodup_parts nodup
  have pMem : p ∈ head :: front := List.mem_of_getLast? isLast
  have nMem : n ∈ back ++ [head] := List.mem_of_head? isFirst
  have firstMem : first ∈ moved := List.mem_of_head? begins
  have lastMem : last ∈ moved := List.mem_of_getLast? ends
  have pBack : p ∉ (back ++ [head]).dropLast := by
    rw [List.dropLast_concat]
    exact foreAft pMem
  have fore' :
      (head :: front).IsChain ((links.join p first).join last n).Joined := by
    have once := chain_join fore (not_mem_dropLast foreOnce isLast)
      (fun member => foreBody (List.mem_cons_of_mem _ member) firstMem)
    refine chain_join once ?_ (fun member => frontAft member nMem)
    exact fun member => foreBody (List.mem_of_mem_dropLast member) lastMem
  have body' : moved.IsChain ((links.join p first).join last n).Joined := by
    have once := chain_join body
      (fun member => foreBody pMem (List.mem_of_mem_dropLast member))
      (not_mem_tail bodyOnce begins)
    refine chain_join once (not_mem_dropLast bodyOnce ends) ?_
    exact fun member => aftBody nMem (List.mem_of_mem_tail member)
  have aft' :
      (back ++ [head]).IsChain ((links.join p first).join last n).Joined := by
    have once := chain_join aft pBack
      (fun member => aftBody (List.mem_of_mem_tail member) firstMem)
    refine chain_join once ?_ (not_mem_tail aftOnce isFirst)
    exact fun member => aftBody (List.mem_of_mem_dropLast member) lastMem
  have seam : ((links.join p first).join last n).Joined p first := by
    refine joined_join.join ?_ ?_
    · rintro rfl
      exact foreBody pMem lastMem
    · rintro rfl
      exact aftBody nMem firstMem
  have ends' : (head :: (front ++ moved)).getLast? = some last := by
    rw [← List.cons_append, List.getLast?_append, ends, Option.some_or]
  refine (cycle_iff ends' isFirst).mpr ⟨nodup, ?_, aft', joined_join⟩
  rw [← List.cons_append]
  refine fore'.append body' ?_
  simp only [isLast, begins, Option.mem_def, Option.some.injEq]
  rintro _ rfl _ rfl
  exact seam

theorem cycle_close {p n : Node} (nodup : (head :: (front ++ back)).Nodup)
    (fore : (head :: front).IsChain links.Joined)
    (aft : (back ++ [head]).IsChain links.Joined)
    (isLast : (head :: front).getLast? = some p)
    (isFirst : (back ++ [head]).head? = some n) :
    (links.join p n).Cycle head (front ++ back) := by
  have parts : (head :: (front ++ [] ++ back)).Nodup := by simpa using nodup
  obtain ⟨⟨foreOnce, _, aftOnce⟩, _, _, foreAft, frontAft⟩ := nodup_parts parts
  have pMem : p ∈ head :: front := List.mem_of_getLast? isLast
  have nMem : n ∈ back ++ [head] := List.mem_of_head? isFirst
  refine (cycle_iff isLast isFirst).mpr ⟨nodup, ?_, ?_, joined_join⟩
  · exact chain_join fore (not_mem_dropLast foreOnce isLast)
      (fun member => frontAft member nMem)
  · refine chain_join aft ?_ (not_mem_tail aftOnce isFirst)
    rw [List.dropLast_concat]
    exact foreAft pMem

theorem join_comm {left right : Node} {first second : Node}
    (lefts : left ≠ first)
    (rights : right ≠ second) :
    (links.join first second).join left right =
      (links.join left right).join first second := by
  simp only [join, setNext, setPrev]
  rw [Function.update_comm lefts, Function.update_comm rights]

namespace Cycle

variable {node p n : Node}

theorem join_of_apart {first second : Node} (cycle : links.Cycle head entries)
    (notFirst : first ∉ head :: entries)
    (notSecond : second ∉ head :: entries) :
    (links.join first second).Cycle head entries := by
  refine ⟨cycle.nodup, chain_join_of_apart cycle.chain ?_ ?_⟩
  · simpa [or_comm] using notFirst
  · simpa [or_comm] using notSecond

theorem substitute {old : List Node}
    (cycle : links.Cycle head (front ++ old ++ back))
    (fresh : node ∉ head :: (front ++ old ++ back))
    (isLast : (head :: front).getLast? = some p)
    (isFirst : (back ++ [head]).head? = some n) :
    ((links.join node n).join p node).Cycle head (front ++ node :: back) := by
  have nodup : (head :: (front ++ [node] ++ back)).Nodup := by
    have once := cycle.nodup
    grind
  have pMem : p ∈ head :: front := List.mem_of_getLast? isLast
  have nMem : n ∈ back ++ [head] := List.mem_of_head? isFirst
  have fore : (head :: front).IsChain links.Joined := by
    rw [List.append_assoc] at cycle
    exact cycle.parts.1
  rw [join_comm (by grind) (by grind)]
  have spliced :=
    cycle_splice nodup fore (.singleton node) cycle.parts.2 isLast isFirst
    rfl rfl
  simpa using spliced

theorem remove (cycle : links.Cycle head (front ++ node :: back)) :
    (links.join (links.prev node) (links.next node)).Cycle head
    (front ++ back) := by
  have once := cycle.nodup
  exact cycle_close (by grind) cycle.parts.1 cycle.parts.2.tail cycle.prev_node
    cycle.next_node

end Cycle

namespace Represents

variable {lists : Node → Option (List Node)} {list node p n : Node}

theorem forget (represents : links.Represents lists) (node : Node) :
    links.Represents (Function.update lists node none) := by
  refine ⟨?_, ?_⟩
  · intro head entries found
    rw [Function.update_apply] at found
    split at found
    next => cases found
    next => exact represents.cycle found
  · intro head other entries others found foundOther
    rw [Function.update_apply] at found foundOther
    split at found
    next => cases found
    next =>
        split at foundOther
        next => cases foundOther
        next => exact represents.apart found foundOther

theorem put {after : Links Node} (represents : links.Represents lists)
    (cycle : after.Cycle head entries)
    (kept : ∀ other others, lists other = some others → other ≠ head →
      after.Cycle other others ∧ (head :: entries).Disjoint (other :: others)) :
    after.Represents (Function.update lists head (some entries)) := by
  refine ⟨?_, ?_⟩
  · intro other others found
    rw [Function.update_apply] at found
    split at found
    next same =>
        cases found
        exact same ▸ cycle
    next different => exact (kept other others found different).1
  · intro left right ones others found foundOther different
    rw [Function.update_apply] at found foundOther
    split at found
    next same =>
        cases found
        subst same
        rw [if_neg (Ne.symm different)] at foundOther
        exact (kept right others foundOther (Ne.symm different)).2
    next notLeft =>
        split at foundOther
        next same =>
            cases foundOther
            subst same
            exact fun _ here there =>
              (kept left ones found notLeft).2 there here
        next => exact represents.apart found foundOther different

theorem init (represents : links.Represents lists)
    (absent : ∀ other others, lists other = some others → other ≠ list →
      list ∉ others) :
    (links.join list list).Represents
    (Function.update lists list (some [])) := by
  refine represents.put ?_ ?_
  · exact cycle_close (List.nodup_singleton list) (.singleton list)
      (.singleton list) rfl rfl
  · intro other others found different
    have outside : list ∉ other :: others :=
      List.not_mem_cons_of_ne_of_not_mem (Ne.symm different)
        (absent other others found different)
    refine ⟨(represents.cycle found).join_of_apart outside outside, ?_⟩
    exact List.disjoint_cons_left.mpr ⟨outside, List.disjoint_nil_left _⟩

theorem substitute {old : List Node} (represents : links.Represents lists)
    (found : lists head = some (front ++ old ++ back))
    (absent : Absent lists node)
    (isLast : (head :: front).getLast? = some p)
    (isFirst : (back ++ [head]).head? = some n) :
    ((links.join node n).join p node).Represents
      (Function.update lists head (some (front ++ node :: back))) := by
  have fresh := absent head _ found
  refine represents.put
    ((represents.cycle found).substitute fresh isLast isFirst) ?_
  intro other others foundOther different
  have apart := represents.apart found foundOther (Ne.symm different)
  have outside := absent other others foundOther
  have pMem : p ∈ head :: (front ++ old ++ back) := by
    have member := List.mem_of_getLast? isLast
    grind
  have nMem : n ∈ head :: (front ++ old ++ back) := by
    have member := List.mem_of_head? isFirst
    grind
  refine ⟨?_, ?_⟩
  · exact ((represents.cycle foundOther).join_of_apart outside
      (apart nMem)).join_of_apart
      (apart pMem) outside
  · intro each here there
    have elsewhere : each ∉ head :: (front ++ old ++ back) :=
      fun member => apart member there
    grind

theorem remove (represents : links.Represents lists)
    (found : lists head = some (front ++ node :: back)) :
    (links.join (links.prev node) (links.next node)).Represents
      (Function.update lists head (some (front ++ back))) := by
  have cycle := represents.cycle found
  have member : node ∈ head :: (front ++ node :: back) := by simp
  refine represents.put cycle.remove ?_
  intro other others foundOther different
  have apart := represents.apart found foundOther (Ne.symm different)
  refine ⟨(represents.cycle foundOther).join_of_apart
    (apart (cycle.prev_mem member))
    (apart (cycle.next_mem member)), ?_⟩
  intro each here there
  have elsewhere := fun member => apart member there
  grind

theorem splice {moved : List Node} (represents : links.Represents lists)
    (foundList : lists list = some moved) (nonempty : moved ≠ [])
    (found : lists head = some (front ++ back)) (different : list ≠ head)
    (isLast : (head :: front).getLast? = some p)
    (isFirst : (back ++ [head]).head? = some n) :
    ((links.join p (links.next list)).join (links.prev list) n).Represents
      (Function.update (Function.update lists list none) head
        (some (front ++ moved ++ back))) := by
  have cycle := represents.cycle found
  have source := represents.cycle foundList
  have lists_apart := represents.apart foundList found different
  have nodup : (head :: (front ++ moved ++ back)).Nodup := by
    have once := cycle.nodup
    have onceList := source.nodup
    have apart : ∀ each ∈ moved, each ∉ head :: (front ++ back) :=
      fun each member => lists_apart (List.mem_cons_of_mem _ member)
    rw [List.append_assoc,
      List.perm_append_comm_assoc .. |>.cons _ |>.nodup_iff]
    grind
  refine (represents.forget list).put
    (cycle_splice nodup cycle.parts.1 source.body cycle.parts.2 isLast isFirst
      (source.first nonempty) (source.last nonempty)) ?_
  intro other others foundOther notHead
  rw [Function.update_apply] at foundOther
  split at foundOther
  next => cases foundOther
  next notList =>
      have apart := represents.apart found foundOther (Ne.symm notHead)
      have apartList := represents.apart foundList foundOther (Ne.symm notList)
      have pMem : p ∈ head :: (front ++ back) := by
        have member := List.mem_of_getLast? isLast
        grind
      have nMem : n ∈ head :: (front ++ back) := by
        have member := List.mem_of_head? isFirst
        grind
      have listMem : list ∈ list :: moved := List.mem_cons_self
      refine ⟨?_, ?_⟩
      · exact ((represents.cycle foundOther).join_of_apart (apart pMem)
          (apartList (source.next_mem listMem))).join_of_apart
          (apartList (source.prev_mem listMem)) (apart nMem)
      · intro each here there
        have elsewhere : each ∉ head :: (front ++ back) :=
          fun member => apart member there
        have notMoved : each ∉ list :: moved :=
          fun member => apartList member there
        grind

theorem rename (represents : links.Represents lists)
    (found : lists head = some entries)
    (nonempty : entries ≠ []) (absent : Absent lists node) :
    ((links.join node (links.next head)).join (links.prev head) node).Represents
      (Function.update (Function.update lists head none) node
        (some entries)) := by
  have cycle := represents.cycle found
  have nodup : (node :: ([] ++ entries ++ [])).Nodup := by
    have once := cycle.nodup
    have fresh := absent head entries found
    grind
  have renamed :=
    cycle_splice nodup (.singleton node) cycle.body (.singleton node) rfl rfl
    (cycle.first nonempty) (cycle.last nonempty)
  rw [List.nil_append, List.append_nil] at renamed
  refine (represents.forget head).put renamed ?_
  intro other others foundOther notNode
  rw [Function.update_apply] at foundOther
  split at foundOther
  next => cases foundOther
  next notHead =>
      have apart := represents.apart found foundOther (Ne.symm notHead)
      have outside := absent other others foundOther
      have headMem : head ∈ head :: entries := List.mem_cons_self
      refine ⟨?_, ?_⟩
      · exact ((represents.cycle foundOther).join_of_apart outside
          (apart (cycle.next_mem headMem))).join_of_apart
          (apart (cycle.prev_mem headMem))
          outside
      · intro each here there
        have elsewhere : each ∉ head :: entries :=
          fun member => apart member there
        grind

/-- The first entries of a list become a list of their own, and the head is left
with a chain of the others. -/
theorem detach {taken left : List Node} {last : Node}
    (represents : links.Represents lists)
    (found : lists head = some (taken ++ left))
    (ends : taken.getLast? = some last)
    (absent : Absent lists list) :
    ((links.join list (links.next head)).join last list).Represents
        (Function.update (Function.update lists head none) list (some taken)) ∧
      (left ++ [head]).IsChain
        ((links.join list (links.next head)).join last list).Joined := by
  have cycle := represents.cycle found
  have fresh := absent head _ found
  have once := cycle.nodup
  have nonempty : taken ≠ [] := by
    rintro rfl
    cases ends
  have begins : taken.head? = some (links.next head) := by
    have isFirst := cycle.next_head
    rwa [List.append_assoc, List.head?_append_of_ne_nil _ nonempty] at isFirst
  have lastMem := List.mem_of_getLast? ends
  have firstMem := List.mem_of_head? begins
  refine ⟨(represents.forget head).put ?_ ?_, ?_⟩
  · have nodup : (list :: ([] ++ taken ++ [])).Nodup := by grind
    have taking :=
      cycle_splice nodup (.singleton list) cycle.body.left_of_append
      (.singleton list) rfl rfl begins ends
    rwa [List.nil_append, List.append_nil] at taking
  · intro other others foundOther notList
    rw [Function.update_apply] at foundOther
    split at foundOther
    next => cases foundOther
    next notHead =>
        have apart := represents.apart found foundOther (Ne.symm notHead)
        have outside := absent other others foundOther
        have firstApart : links.next head ∉ other :: others := apart (by grind)
        have lastApart : last ∉ other :: others := apart (by grind)
        refine ⟨((represents.cycle foundOther).join_of_apart outside
          firstApart).join_of_apart lastApart outside, ?_⟩
        intro each here there
        have elsewhere : each ∉ head :: (taken ++ left) :=
          fun member => apart member there
        grind
  · refine chain_join_of_apart (chain_join_of_apart cycle.parts.2 ?_ ?_) ?_ ?_
    all_goals grind

theorem cut {taken left : List Node} {last : Node}
    (represents : links.Represents lists)
    (found : lists head = some (taken ++ left))
    (ends : taken.getLast? = some last)
    (absent : Absent lists list) (isFirst : (left ++ [head]).head? = some n) :
    (((links.join list (links.next head)).join last list).join head
      n).Represents
      (Function.update (Function.update lists list (some taken)) head
        (some left)) := by
  obtain ⟨detached, rest⟩ := represents.detach found ends absent
  have once := (represents.cycle found).nodup
  have fresh := absent head _ found
  have different : head ≠ list := by
    rintro rfl
    exact fresh List.mem_cons_self
  have nMem : n ∈ left ++ [head] := List.mem_of_head? isFirst
  have onceLeft : (head :: ([] ++ left)).Nodup := by grind
  have replaced : Function.update (Function.update lists list (some taken)) head
      (some left) =
      Function.update
        (Function.update (Function.update lists head none) list (some taken))
        head (some left) := by
    have swap :=
      @Function.update_comm Node _ (fun _ => Option (List Node)) head list
      different none (some taken) lists
    rw [swap, Function.update_idem]
  rw [replaced]
  refine detached.put
    (cycle_close onceLeft (.singleton head) rest rfl isFirst) ?_
  intro other others foundOther notHead
  have cycle := detached.cycle foundOther
  have outside : ∀ each ∈ head :: left, each ∉ other :: others := by
    rw [Function.update_apply] at foundOther
    split at foundOther
    next isList =>
        cases foundOther
        grind
    next =>
        rw [Function.update_of_ne notHead] at foundOther
        intro each member
        exact represents.apart found foundOther (Ne.symm notHead) (by grind)
  exact ⟨cycle.join_of_apart (outside head (by simp)) (outside n (by grind)),
    outside⟩

end Represents

end Links

end Chario.Library
