import Mathlib.Data.List.Rotate
import Chario.Library.Links

namespace Chario.Libchario

open Chario.Library

/-! `list.h`: lists whose links lie inside the structures they connect.  An
address is that of a `struct list_head`, of a list or of an entry. -/

/-- `LIST_POISON1` and `LIST_POISON2`. -/
def listPoison : Nat := 0

def initListHead (links : Links Nat) (list : Nat) : Links Nat :=
  (links.setNext list list).setPrev list list

/-- `__list_add`. -/
def listAddBetween (links : Links Nat) (new prev next : Nat) : Links Nat :=
  (((links.setPrev next new).setNext new next).setPrev new prev).setNext
    prev new

def listAdd (links : Links Nat) (new head : Nat) : Links Nat :=
  listAddBetween links new head (links.next head)

def listAddTail (links : Links Nat) (new head : Nat) : Links Nat :=
  listAddBetween links new (links.prev head) head

/-- `__list_del`. -/
def listDelBetween (links : Links Nat) (prev next : Nat) : Links Nat :=
  (links.setPrev next prev).setNext prev next

def listDelEntry (links : Links Nat) (entry : Nat) : Links Nat :=
  listDelBetween links (links.prev entry) (links.next entry)

def listDel (links : Links Nat) (entry : Nat) : Links Nat :=
  ((listDelBetween links (links.prev entry) (links.next entry)).setNext entry
    listPoison).setPrev entry listPoison

def listReplace (links : Links Nat) (old new : Nat) : Links Nat :=
  let links := links.setNext new (links.next old)
  let links := links.setPrev (links.next new) new
  -- an empty list has just got `new` as its previous entry
  let links := links.setPrev new (links.prev old)
  links.setNext (links.prev new) new

def listReplaceInit (links : Links Nat) (old new : Nat) : Links Nat :=
  initListHead (listReplace links old new) old

def listDelInit (links : Links Nat) (entry : Nat) : Links Nat :=
  initListHead (listDelEntry links entry) entry

def listMove (links : Links Nat) (list head : Nat) : Links Nat :=
  listAdd (listDelEntry links list) list head

def listMoveTail (links : Links Nat) (list head : Nat) : Links Nat :=
  listAddTail (listDelEntry links list) list head

def listIsLast (links : Links Nat) (list head : Nat) : Bool :=
  links.next list = head

def listEmpty (links : Links Nat) (head : Nat) : Bool :=
  links.next head = head

def listEmptyCareful (links : Links Nat) (head : Nat) : Bool :=
  let next := links.next head
  next = head ∧ next = links.prev head

def listRotateLeft (links : Links Nat) (head : Nat) : Links Nat :=
  if listEmpty links head then links
  else listMoveTail links (links.next head) head

def listIsSingular (links : Links Nat) (head : Nat) : Bool :=
  !listEmpty links head && decide (links.next head = links.prev head)

/-- `__list_cut_position`. -/
def listCutAt (links : Links Nat) (list head entry : Nat) : Links Nat :=
  let newFirst := links.next entry
  let links := links.setNext list (links.next head)
  let links := links.setPrev (links.next list) list
  let links := links.setPrev list entry
  let links := links.setNext entry list
  let links := links.setNext head newFirst
  links.setPrev newFirst head

def listCutPosition (links : Links Nat) (list head entry : Nat) : Links Nat :=
  if listEmpty links head then links
  else if listIsSingular links head ∧ links.next head ≠ entry ∧
      head ≠ entry then
    links
  else if entry = head then initListHead links list
  else listCutAt links list head entry

/-- `__list_splice`. -/
def listSpliceBetween (links : Links Nat) (list prev next : Nat) : Links Nat :=
  let first := links.next list
  let last := links.prev list
  (((links.setPrev first prev).setNext prev first).setNext last next).setPrev
    next last

def listSplice (links : Links Nat) (list head : Nat) : Links Nat :=
  if listEmpty links list then links
  else listSpliceBetween links list head (links.next head)

def listSpliceTail (links : Links Nat) (list head : Nat) : Links Nat :=
  if listEmpty links list then links
  else listSpliceBetween links list (links.prev head) head

def listSpliceInit (links : Links Nat) (list head : Nat) : Links Nat :=
  if listEmpty links list then links
  else initListHead (listSpliceBetween links list head (links.next head)) list

def listSpliceTailInit (links : Links Nat) (list head : Nat) : Links Nat :=
  if listEmpty links list then links
  else initListHead (listSpliceBetween links list (links.prev head) head) list

/-- `list_for_each` and `list_for_each_entry`, from a position, with a bound on
the turns.  The body does not touch the list. -/
def listForEach {State : Type} (follow : Nat → Nat) (head : Nat)
    (body : State → Nat → State) : Nat → Nat → State → Option State
  | 0, _, _ => none
  | turns + 1, pos, state =>
      if pos = head then some state
      else listForEach follow head body turns (follow pos) (body state pos)

/-- `list_for_each_safe` and `list_for_each_entry_safe`: the body may take the
entry off the list. -/
def listForEachSafe {State : Type} (memory : State → Links Nat) (head : Nat)
    (body : State → Nat → State) : Nat → Nat → Nat → State → Option State
  | 0, _, _, _ => none
  | turns + 1, pos, n, state =>
      if pos = head then some state
      else
        let state := body state pos
        listForEachSafe memory head body turns n ((memory state).next n) state

inductive ListOp
  | init (list : Nat)
  | add (new head : Nat)
  | addTail (new head : Nat)
  | del (entry : Nat)
  | delInit (entry : Nat)
  | replace (old new : Nat)
  | replaceInit (old new : Nat)
  | move (list head : Nat)
  | moveTail (list head : Nat)
  | rotateLeft (head : Nat)
  | cutPosition (list head entry : Nat)
  | splice (list head : Nat)
  | spliceTail (list head : Nat)
  | spliceInit (list head : Nat)
  | spliceTailInit (list head : Nat)
deriving DecidableEq, Repr

def ListOp.run (links : Links Nat) : ListOp → Links Nat
  | .init list => initListHead links list
  | .add new head => listAdd links new head
  | .addTail new head => listAddTail links new head
  | .del entry => listDel links entry
  | .delInit entry => listDelInit links entry
  | .replace old new => listReplace links old new
  | .replaceInit old new => listReplaceInit links old new
  | .move list head => listMove links list head
  | .moveTail list head => listMoveTail links list head
  | .rotateLeft head => listRotateLeft links head
  | .cutPosition list head entry => listCutPosition links list head entry
  | .splice list head => listSplice links list head
  | .spliceTail list head => listSpliceTail links list head
  | .spliceInit list head => listSpliceInit links list head
  | .spliceTailInit list head => listSpliceTailInit links list head

/-! ## What the memory stands for -/

abbrev Lists := Nat → Option (List Nat)

namespace Lists

def Has (lists : Lists) (entry : Nat) : Prop :=
  ∃ head entries, lists head = some entries ∧ entry ∈ entries

/-- The address can be linked in: it is nowhere, or it heads an empty list. -/
def Free (lists : Lists) (node : Nat) : Prop :=
  ¬ lists.Has node ∧ (lists node = none ∨ lists node = some [])

/-- The address can be taken out: it is an entry, or it heads an empty list. -/
def Loose (lists : Lists) (node : Nat) : Prop :=
  lists.Has node ∨ lists node = some []

def detach (lists : Lists) (node : Nat) : Lists :=
  Function.update (fun head => (lists head).map (·.erase node)) node none

def rename (lists : Lists) (old new : Nat) : Lists := fun head =>
  if head = new then lists old
  else if head = old then none
  else (lists head).map (List.map fun node => if node = old then new else node)

def change (lists : Lists) (head : Nat) (change : List Nat → List Nat) :
    Lists :=
  Function.update lists head ((lists head).map change)

def cutCount (entries : List Nat) (head entry : Nat) : Nat :=
  if entry = head then 0 else entries.idxOf entry + 1

def cut (lists : Lists) (list head entry : Nat) : Lists :=
  match lists head with
  | none | some [] => lists
  | some entries =>
      Function.update (Function.update lists list
        (some (entries.take (cutCount entries head entry)))) head
        (some (entries.drop (cutCount entries head entry)))

/-- The entries of `list` are put into the list of `head`; what is left at
`list` is given. -/
def splice (lists : Lists) (list head : Nat) (left : Option (List Nat))
    (put : List Nat → List Nat → List Nat) : Lists :=
  match lists list with
  | none | some [] => lists
  | some moved => Function.update (lists.change head (put moved)) list left

end Lists

namespace ListOp

def apply (lists : Lists) : ListOp → Lists
  | .init list => Function.update lists list (some [])
  | .add new head =>
      Lists.change (Function.update lists new none) head (new :: ·)
  | .addTail new head =>
      Lists.change (Function.update lists new none) head (· ++ [new])
  | .del entry => lists.detach entry
  | .delInit entry => Function.update (lists.detach entry) entry (some [])
  | .replace old new => lists.rename old new
  | .replaceInit old new => Function.update (lists.rename old new) old (some [])
  | .move list head => (lists.detach list).change head (list :: ·)
  | .moveTail list head => (lists.detach list).change head (· ++ [list])
  | .rotateLeft head => lists.change head (·.rotate 1)
  | .cutPosition list head entry => lists.cut list head entry
  | .splice list head => lists.splice list head none (· ++ ·)
  | .spliceTail list head =>
      lists.splice list head none (fun moved entries => entries ++ moved)
  | .spliceInit list head => lists.splice list head (some []) (· ++ ·)
  | .spliceTailInit list head =>
      lists.splice list head (some []) (fun moved entries => entries ++ moved)

/-- What the comments of the functions ask of their callers. -/
def Allowed (lists : Lists) : ListOp → Prop
  | .init list => ¬ lists.Has list
  | .add new head | .addTail new head =>
      lists.Free new ∧ (lists head).isSome ∧ new ≠ head
  | .del entry => lists.Has entry
  | .delInit entry => lists.Loose entry
  | .replace old new | .replaceInit old new =>
      lists.Free new ∧ new ≠ old ∧ (lists.Has old ∨ (lists old).isSome)
  | .move list head | .moveTail list head =>
      lists.Loose list ∧ (lists head).isSome ∧ list ≠ head
  | .rotateLeft head => (lists head).isSome
  | .cutPosition list head entry =>
      ¬ lists.Has list ∧ list ≠ head ∧
        ∃ entries, lists head = some entries ∧ (entry = head ∨ entry ∈ entries)
  | .splice list head | .spliceTail list head | .spliceInit list head
  | .spliceTailInit list head =>
      (lists list).isSome ∧ (lists head).isSome ∧ list ≠ head

end ListOp

end Chario.Libchario
