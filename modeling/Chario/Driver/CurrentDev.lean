import Mathlib.Data.List.Basic
import Chario.Library.Transition

namespace Chario.Driver

open Chario.Library

/-! Controllers from probe to removal, and the operations of the character
device on `current_dev`. -/

/-- How far a controller has come: the call of `nvme_probe` that is next, and
after the probe its work item. -/
inductive Stage
  | entry
  | queues
  | setInstance
  | prpPools
  | deviceCreate
  | scheduled
  | adding
  | finished
deriving DecidableEq, Repr

def Stage.probed : Stage → Bool
  | .scheduled | .adding | .finished => true
  | .entry | .queues | .setInstance | .prpPools | .deviceCreate => false

/-- A `struct nvme_dev`.  The list of namespaces is none before its
`INIT_LIST_HEAD`. -/
structure NvmeDev where
  stage : Stage
  namespaces : Option (List Nat)
  kref : Nat
  holders : Nat
  bound : Bool
  removing : Bool
  freed : Bool
deriving DecidableEq, Repr

inductive DevEvent
  /-- The next call of `nvme_probe` that can fail. -/
  | probe (ok : Bool)
  /-- `nvme_async_probe` up to the loop of `nvme_dev_add`, or to its end when a
  step before that loop fails or there is no I/O queue. -/
  | asyncProbe (adds : Bool)
  | allocNs (nsid : Nat) (ok : Bool)
  | asyncEnd
  /-- `nvme_remove` starts, and drops its reference. -/
  | remove
  | removeEnd
  /-- The reference of the thread that removes a dead controller. -/
  | krefGet
  | krefPut
deriving DecidableEq, Repr

namespace NvmeDev

def zeroed : NvmeDev where
  stage := .entry
  namespaces := none
  kref := 0
  holders := 0
  bound := false
  removing := false
  freed := false

def kfree (dev : NvmeDev) : NvmeDev := { dev with freed := true }

def krefDrop (dev : NvmeDev) : NvmeDev :=
  if dev.kref = 1 then
    { dev with kref := 0, namespaces := some [], freed := true }
  else { dev with kref := dev.kref - 1 }

def probeStep (dev : NvmeDev) (ok : Bool) : Option NvmeDev :=
  match dev.stage with
  | .entry =>
      some (if ok then { dev with stage := .queues } else dev.kfree)
  | .queues =>
      some (if ok then
        { dev with stage := .setInstance, namespaces := some [] }
        else dev.kfree)
  | .setInstance =>
      some (if ok then { dev with stage := .prpPools } else dev.kfree)
  | .prpPools =>
      some (if ok then { dev with stage := .deviceCreate, kref := 1 }
        else dev.kfree)
  | .deviceCreate =>
      some (if ok then { dev with stage := .scheduled, bound := true }
        else dev.kfree)
  | .scheduled | .adding | .finished => none

def liveStep (dev : NvmeDev) : DevEvent → Option NvmeDev
  | .probe ok => dev.probeStep ok
  | .asyncProbe adds =>
      if dev.stage = .scheduled then
        some { dev with stage := if adds then .adding else .finished }
      else none
  | .allocNs nsid ok =>
      if dev.stage = .adding then
        some (if ok then
          { dev with namespaces := dev.namespaces.map (· ++ [nsid]) } else dev)
      else none
  | .asyncEnd =>
      if dev.stage = .adding then some { dev with stage := .finished }
      else none
  | .remove =>
      if dev.bound then some { dev with bound := false, removing := true }
      else none
  | .removeEnd =>
      -- flush_work waits for the work item of the probe
      if dev.removing ∧ dev.stage = .finished then
        some ({ dev with removing := false } : NvmeDev).krefDrop
      else none
  | .krefGet =>
      if dev.stage.probed ∧ 0 < dev.kref then
        some { dev with kref := dev.kref + 1, holders := dev.holders + 1 }
      else none
  | .krefPut =>
      if 0 < dev.holders then
        some ({ dev with holders := dev.holders - 1 } : NvmeDev).krefDrop
      else none

def step (dev : NvmeDev) (event : DevEvent) : Option NvmeDev :=
  if dev.freed then none else dev.liveStep event

/-- `list_first_entry` on a list that has one. -/
def firstNs? (dev : NvmeDev) : Option Nat := dev.namespaces.bind List.head?

def Usable (dev : NvmeDev) : Prop :=
  dev.stage.probed ∧ dev.freed = false ∧ dev.firstNs?.isSome

instance (dev : NvmeDev) : Decidable dev.Usable :=
  inferInstanceAs (Decidable (_ ∧ _))

def lastPut (dev : NvmeDev) : DevEvent → Bool
  | .removeEnd | .krefPut => dev.kref = 1
  | _ => false

end NvmeDev

structure Operation where
  left : Nat
deriving DecidableEq, Repr

structure Use where
  operation : Nat
  device : Option NvmeDev
  ns : Option (Nat × Nat)
deriving DecidableEq, Repr

/-- The module.  `probes` is what `kzalloc_node` returned in each call of
`nvme_probe`; a pointer is a number of this list. -/
structure DriverState where
  loaded : Bool
  probes : List (Option NvmeDev)
  currentDev : Option Nat
  operations : List Operation
  uses : List Use
deriving DecidableEq, Repr

inductive DriverLabel
  | load
  /-- `nvme_probe` allocates and sets `current_dev`. -/
  | kzalloc (ok : Bool)
  | device (index : Nat) (event : DevEvent)
  /-- An operation submits its first chunk, with `further` chunks to go. -/
  | first (further : Nat) (result : Int)
  | next (operation : Nat) (result : Int)
deriving DecidableEq, Repr

namespace DriverState

def start : DriverState := ⟨false, [], none, [], []⟩

def device? (s : DriverState) (index : Nat) : Option NvmeDev :=
  s.probes[index]?.join

/-- The first namespace of `current_dev`. -/
def target (s : DriverState) : Option (Nat × Nat) :=
  s.currentDev.bind fun index =>
    (s.device? index).bind fun dev => dev.firstNs?.map (index, ·)

/-- The dereference at the head of `submit_user_io` and `__submit_phys_io`. -/
def use (s : DriverState) (operation : Nat) : Use :=
  ⟨operation, s.currentDev.bind s.device?, s.target⟩

def leftAfter (further : Nat) (result : Int) : Operation :=
  ⟨if result = 0 then further else 0⟩

def step (s : DriverState) : DriverLabel → Option DriverState
  | .load => if s.loaded then none else some { s with loaded := true }
  | .kzalloc ok =>
      if s.loaded then
        some { s with
          probes := s.probes ++ [if ok then some .zeroed else none]
          currentDev := if ok then some s.probes.length else none }
      else none
  | .device index event =>
      (s.device? index).bind fun dev =>
        (dev.step event).map fun dev =>
          { s with probes := s.probes.set index (some dev) }
  | .first further result =>
      if s.loaded then
        some { s with
          operations := s.operations ++ [leftAfter further result]
          uses := s.uses ++ [s.use s.operations.length] }
      else none
  | .next operation result =>
      match s.operations[operation]? with
      | some ⟨further + 1⟩ =>
          some { s with
            operations := s.operations.set operation (leftAfter further result)
            uses := s.uses ++ [s.use operation] }
      | _ => none

/-- Every chunk found a usable device, and the chunks of one operation went to
one namespace. -/
structure Sound (s : DriverState) : Prop where
  usable : ∀ use ∈ s.uses, ∃ dev, use.device = some dev ∧ dev.Usable
  oneNs : ∀ use ∈ s.uses, ∀ other ∈ s.uses,
    use.operation = other.operation → use.ns = other.ns

def Busy (s : DriverState) : Prop :=
  ∃ operation ∈ s.operations, 0 < operation.left

def latest? (s : DriverState) : Option NvmeDev := s.probes.getLast?.join

def Ready (s : DriverState) : Prop := ∃ dev ∈ s.latest?, dev.Usable

/-- Operations start only while the controller of the latest probe is probed,
has a namespace and is not freed; and while an operation has chunks to go, no
probe starts and the last reference of that controller stays. -/
def Undisturbed (s : DriverState) : DriverLabel → Prop
  | .load => True
  | .kzalloc _ => ¬ s.Busy
  | .device index event => s.Busy → index + 1 = s.probes.length →
      ∀ dev ∈ s.latest?, dev.lastPut event = false
  | .first _ _ => s.Ready
  | .next _ _ => True

instance (s : DriverState) : Decidable s.Busy :=
  inferInstanceAs (Decidable (∃ operation ∈ s.operations, 0 < operation.left))

instance (s : DriverState) : Decidable s.Ready :=
  inferInstanceAs (Decidable (∃ dev ∈ s.latest?, dev.Usable))

instance (s : DriverState) : (label : DriverLabel) →
    Decidable (s.Undisturbed label)
  | .load | .next _ _ => .isTrue trivial
  | .kzalloc _ => inferInstanceAs (Decidable (¬ s.Busy))
  | .device index event => inferInstanceAs (Decidable
      (s.Busy → index + 1 = s.probes.length →
        ∀ dev ∈ s.latest?, dev.lastPut event = false))
  | .first _ _ => inferInstanceAs (Decidable s.Ready)

end DriverState

namespace NvmeDev

def Stays (dev following : NvmeDev) : Prop :=
  dev.Usable → following.Usable ∧ following.firstNs? = dev.firstNs?

theorem krefDrop_stays {dev : NvmeDev} (held : dev.kref ≠ 1) :
    dev.Stays dev.krefDrop := by
  intro usable
  rw [krefDrop, if_neg held]
  exact ⟨usable, rfl⟩

theorem firstNs?_append {dev : NvmeDev} (isSome : dev.firstNs?.isSome)
    (nsid : Nat) :
    ({ dev with namespaces := dev.namespaces.map (· ++ [nsid]) } :
      NvmeDev).firstNs? = dev.firstNs? := by
  unfold firstNs? at *
  cases listed : dev.namespaces with
  | none => rfl
  | some namespaces =>
      cases namespaces with
      | nil => simp [listed] at isSome
      | cons first rest => rfl

/-- Only the drop of the last reference takes a usable device away. -/
theorem step_stays {dev following : NvmeDev} {event : DevEvent}
    (steps : dev.step event = some following)
    (held : dev.lastPut event = false) : dev.Stays following := by
  intro usable
  obtain ⟨probed, live, isSome⟩ := usable
  rw [step, live] at steps
  have steps : dev.liveStep event = some following := steps
  cases event with
  | probe ok =>
      cases stage : dev.stage <;>
        simp_all [liveStep, probeStep, Stage.probed]
  | asyncProbe adds =>
      simp only [liveStep, Option.ite_none_right_eq_some,
        Option.some.injEq] at steps
      rw [← steps.2]
      refine ⟨⟨?_, live, isSome⟩, rfl⟩
      cases adds <;> rfl
  | allocNs nsid ok =>
      simp only [liveStep, Option.ite_none_right_eq_some,
        Option.some.injEq] at steps
      rw [← steps.2]
      cases ok with
      | false => exact ⟨⟨probed, live, isSome⟩, rfl⟩
      | true =>
          have kept := firstNs?_append isSome nsid
          refine ⟨⟨probed, live, ?_⟩, kept⟩
          exact kept.symm ▸ isSome
  | asyncEnd =>
      simp only [liveStep, Option.ite_none_right_eq_some,
        Option.some.injEq] at steps
      rw [← steps.2]
      exact ⟨⟨rfl, live, isSome⟩, rfl⟩
  | remove =>
      simp only [liveStep, Option.ite_none_right_eq_some,
        Option.some.injEq] at steps
      rw [← steps.2]
      exact ⟨⟨probed, live, isSome⟩, rfl⟩
  | removeEnd =>
      simp only [liveStep, Option.ite_none_right_eq_some,
        Option.some.injEq] at steps
      rw [← steps.2]
      exact krefDrop_stays (of_decide_eq_false held) ⟨probed, live, isSome⟩
  | krefGet =>
      simp only [liveStep, Option.ite_none_right_eq_some,
        Option.some.injEq] at steps
      rw [← steps.2]
      exact ⟨⟨probed, live, isSome⟩, rfl⟩
  | krefPut =>
      simp only [liveStep, Option.ite_none_right_eq_some,
        Option.some.injEq] at steps
      rw [← steps.2]
      exact krefDrop_stays (of_decide_eq_false held) ⟨probed, live, isSome⟩

theorem step_lastPut {dev following : NvmeDev} {event : DevEvent}
    (steps : dev.step event = some following) (last : dev.lastPut event) :
    following.freed = true := by
  unfold step at steps
  split at steps
  next => cases steps
  next =>
    cases event with
    | removeEnd | krefPut =>
        simp only [liveStep, Option.ite_none_right_eq_some,
          Option.some.injEq] at steps
        rw [← steps.2, krefDrop, if_pos (of_decide_eq_true last)]
    | _ => cases last

end NvmeDev

namespace DriverState

variable {s t : DriverState}

/-- `current_dev` is the device of the latest probe. -/
def Current (s : DriverState) : Prop :=
  s.currentDev = s.latest?.map fun _ => s.probes.length - 1

theorem device?_last (s : DriverState) :
    s.device? (s.probes.length - 1) = s.latest? := by
  rw [device?, latest?, List.getLast?_eq_getElem?]

theorem Current.device (current : s.Current) :
    s.currentDev.bind s.device? = s.latest? := by
  rw [current]
  cases found : s.latest? with
  | none => rfl
  | some dev =>
      rw [Option.map_some, Option.bind_some, device?_last, found]

theorem Current.target_eq (current : s.Current) :
    s.target = s.latest?.bind fun dev =>
      dev.firstNs?.map (s.probes.length - 1, ·) := by
  rw [target, current]
  cases found : s.latest? with
  | none => rfl
  | some dev =>
      rw [Option.map_some, Option.bind_some, device?_last, found]

theorem latest?_append (probes : List (Option NvmeDev))
    (allocated : Option NvmeDev) :
    (probes ++ [allocated]).getLast?.join = allocated := by
  rw [List.getLast?_concat, Option.join_some]

theorem latest?_set {index : Nat} {dev : NvmeDev}
    (found : s.device? index = some dev) (following : NvmeDev) :
    (index + 1 = s.probes.length ∧ s.latest? = some dev ∧
      (s.probes.set index (some following)).getLast?.join = some following) ∨
    (index + 1 ≠ s.probes.length ∧
      (s.probes.set index (some following)).getLast?.join = s.latest?) := by
  have inList : index < s.probes.length := by
    by_contra beyond
    rw [device?, List.getElem?_eq_none (Nat.le_of_not_lt beyond)] at found
    cases found
  have last : (s.probes.set index (some following)).getLast? =
      (s.probes.set index (some following))[s.probes.length - 1]? := by
    rw [List.getLast?_eq_getElem?, List.length_set]
  by_cases isLast : index + 1 = s.probes.length
  · left
    have here : s.probes.length - 1 = index := by omega
    refine ⟨isLast, ?_, ?_⟩
    · rw [← device?_last, here, found]
    · rw [last, here, List.getElem?_set_self inList, Option.join_some]
  · right
    refine ⟨isLast, ?_⟩
    rw [last, List.getElem?_set_ne (by omega), latest?,
      List.getLast?_eq_getElem?]

theorem Current.kzalloc {ok : Bool}
    (steps : s.step (.kzalloc ok) = some t) :
    t.Current ∧ t.latest? = (if ok then some .zeroed else none) := by
  simp only [step, Option.ite_none_right_eq_some, Option.some.injEq] at steps
  rw [← steps.2]
  have latest := latest?_append s.probes (if ok then some .zeroed else none)
  refine ⟨?_, latest⟩
  rw [Current, latest?, latest, List.length_append]
  cases ok <;> rfl

theorem Current.device_set (current : s.Current) {index : Nat} {dev : NvmeDev}
    (found : s.device? index = some dev) (following : NvmeDev) :
    ({ s with probes := s.probes.set index (some following) } :
      DriverState).Current := by
  have before : s.currentDev = _ := current
  rw [Current, latest?, List.length_set]
  obtain ⟨_, wasLatest, isLatest⟩ | ⟨_, sameLatest⟩ :=
    latest?_set found following
  · rw [isLatest]
    rw [wasLatest] at before
    exact before
  · rw [sameLatest]
    exact before

structure Kept (s : DriverState) : Prop where
  current : s.Current
  sound : s.Sound
  counted : ∀ use ∈ s.uses, use.operation < s.operations.length
  running : ∀ {index : Nat} {operation : Operation},
    s.operations[index]? = some operation → 0 < operation.left →
    s.Ready ∧ ∀ use ∈ s.uses, use.operation = index → use.ns = s.target

namespace Kept

theorem start : Kept DriverState.start where
  current := rfl
  sound := ⟨by simp [DriverState.start], by simp [DriverState.start]⟩
  counted := by simp [DriverState.start]
  running := by simp [DriverState.start]

theorem kzalloc (kept : s.Kept) (idle : ¬ s.Busy) {ok : Bool}
    (steps : s.step (.kzalloc ok) = some t) : t.Kept := by
  have current := (Current.kzalloc steps).1
  simp only [step, Option.ite_none_right_eq_some, Option.some.injEq] at steps
  obtain ⟨_, rfl⟩ := steps
  refine ⟨current, ⟨kept.sound.usable, kept.sound.oneNs⟩, kept.counted, ?_⟩
  intro index operation found isLeft
  exact absurd ⟨operation, List.mem_of_getElem? found, isLeft⟩ idle

theorem device (kept : s.Kept) {index : Nat} {event : DevEvent}
    (undisturbed : s.Undisturbed (.device index event))
    (steps : s.step (.device index event) = some t) : t.Kept := by
  simp only [step, Option.bind_eq_some_iff, Option.map_eq_some_iff] at steps
  obtain ⟨dev, found, following, moved, rfl⟩ := steps
  have current := kept.current.device_set found following
  refine ⟨current, ⟨kept.sound.usable, kept.sound.oneNs⟩, kept.counted, ?_⟩
  intro number operation atNumber isLeft
  obtain ⟨⟨was, isWas, usable⟩, sameNs⟩ := kept.running atNumber isLeft
  obtain ⟨isLast, wasLatest, isLatest⟩ | ⟨_, sameLatest⟩ :=
    latest?_set found following
  · have busy : s.Busy := ⟨operation, List.mem_of_getElem? atNumber, isLeft⟩
    have held := undisturbed busy isLast dev wasLatest
    rw [Option.mem_def, wasLatest, Option.some.injEq] at isWas
    subst isWas
    obtain ⟨stillUsable, sameFirst⟩ := NvmeDev.step_stays moved held usable
    refine ⟨⟨following, isLatest, stillUsable⟩, ?_⟩
    intro use member isNumber
    rw [sameNs use member isNumber, kept.current.target_eq, current.target_eq,
      wasLatest]
    simp only [latest?, isLatest, Option.bind_some, List.length_set, sameFirst]
  · refine ⟨⟨was, sameLatest.trans isWas, usable⟩, ?_⟩
    intro use member isNumber
    rw [sameNs use member isNumber, kept.current.target_eq, current.target_eq]
    simp only [latest?, sameLatest, List.length_set]

theorem chunk (kept : s.Kept) (ready : s.Ready) {number : Nat}
    {operations : List Operation}
    (counted : ∀ use ∈ s.uses, use.operation < operations.length)
    (within : number < operations.length)
    (same : ∀ use ∈ s.uses, use.operation = number → use.ns = s.target)
    (others : ∀ {index : Nat} {operation : Operation}, index ≠ number →
      operations[index]? = some operation →
      s.operations[index]? = some operation) :
    ({ s with operations := operations, uses := s.uses ++ [s.use number] } :
      DriverState).Kept := by
  have inUses : ∀ {use : Use}, use ∈ s.uses ++ [s.use number] →
      use ∈ s.uses ∨ use = s.use number := by
    intro use member
    rwa [List.mem_append, List.mem_singleton] at member
  have sameAll : ∀ use ∈ s.uses ++ [s.use number], use.operation = number →
      use.ns = s.target := by
    intro use member isNumber
    cases inUses member with
    | inl earlier => exact same use earlier isNumber
    | inr isUse =>
        rw [isUse]
        rfl
  refine ⟨kept.current, ⟨?_, ?_⟩, ?_, ?_⟩
  · intro use member
    cases inUses member with
    | inl earlier => exact kept.sound.usable use earlier
    | inr isUse =>
        obtain ⟨dev, isLatest, usable⟩ := ready
        refine ⟨dev, ?_, usable⟩
        rw [isUse]
        exact kept.current.device.trans isLatest
  · intro use member other memberOther sameOperation
    by_cases isNumber : use.operation = number
    · rw [sameAll use member isNumber,
        sameAll other memberOther (sameOperation.symm.trans isNumber)]
    · have otherNumber : other.operation ≠ number :=
        fun equal => isNumber (sameOperation.trans equal)
      have notUse : ∀ {use : Use}, use ∈ s.uses ++ [s.use number] →
          use.operation ≠ number → use ∈ s.uses := by
        intro use member different
        exact (inUses member).resolve_right
          (fun isUse => different (congrArg Use.operation isUse))
      exact kept.sound.oneNs use (notUse member isNumber) other
        (notUse memberOther otherNumber) sameOperation
  · intro use member
    cases inUses member with
    | inl earlier => exact counted use earlier
    | inr isUse =>
        rw [isUse]
        exact within
  · intro index operation found isLeft
    by_cases isNumber : index = number
    · subst isNumber
      exact ⟨ready, sameAll⟩
    · refine ⟨ready, ?_⟩
      intro use member isIndex
      cases inUses member with
      | inl earlier =>
          exact (kept.running (others isNumber found) isLeft).2 use
            earlier isIndex
      | inr isUse =>
          rw [isUse] at isIndex
          exact absurd isIndex.symm isNumber

theorem first (kept : s.Kept) (ready : s.Ready) {further : Nat} {result : Int}
    (steps : s.step (.first further result) = some t) : t.Kept := by
  simp only [DriverState.step, Option.ite_none_right_eq_some,
    Option.some.injEq] at steps
  rw [← steps.2]
  apply kept.chunk ready
  · intro use member
    have below := kept.counted use member
    rw [List.length_append]
    exact Nat.lt_add_right _ below
  · rw [List.length_append]
    exact Nat.lt_add_of_pos_right Nat.one_pos
  · intro use member isNew
    exact absurd isNew (Nat.ne_of_lt (kept.counted use member))
  · intro index operation different found
    rw [List.getElem?_append] at found
    split at found
    next => exact found
    next beyond =>
      rw [List.getElem?_singleton] at found
      split at found
      next => omega
      next => cases found

theorem next (kept : s.Kept) {number : Nat} {result : Int}
    (steps : s.step (.next number result) = some t) : t.Kept := by
  simp only [DriverState.step] at steps
  split at steps
  next further found =>
    cases steps
    obtain ⟨ready, same⟩ := kept.running found (Nat.succ_pos further)
    have within : number < s.operations.length :=
      (List.getElem?_eq_some_iff.mp found).1
    apply kept.chunk ready
    · rw [List.length_set]
      exact kept.counted
    · rw [List.length_set]
      exact within
    · exact same
    · intro index operation different atIndex
      rwa [List.getElem?_set_ne (Ne.symm different)] at atIndex
  next => cases steps

theorem step (kept : s.Kept) {label : DriverLabel}
    (undisturbed : s.Undisturbed label) (steps : s.step label = some t) :
    t.Kept := by
  cases label with
  | load =>
      simp only [DriverState.step, Option.ite_none_left_eq_some,
        Option.some.injEq] at steps
      rw [← steps.2]
      exact ⟨kept.current, ⟨kept.sound.usable, kept.sound.oneNs⟩, kept.counted,
        kept.running⟩
  | kzalloc ok => exact kept.kzalloc undisturbed steps
  | device index event => exact kept.device undisturbed steps
  | first further result => exact kept.first undisturbed steps
  | next number result => exact kept.next steps

end Kept

/-! A disturbed step ends in a chunk that finds no usable device. -/

theorem not_sound_of_use {number : Nat} (current : s.Current)
    (notReady : ¬ s.Ready) (used : s.use number ∈ t.uses) : ¬ t.Sound := by
  intro sound
  obtain ⟨dev, isDevice, usable⟩ := sound.usable _ used
  exact notReady ⟨dev, current.device.symm.trans isDevice, usable⟩

theorem exists_not_sound (current : s.Current) (busy : s.Busy)
    (notReady : ¬ s.Ready) :
    ∃ label following, s.step label = some following ∧ ¬ following.Sound := by
  obtain ⟨⟨left⟩, member, isLeft⟩ := busy
  obtain ⟨number, found⟩ := List.mem_iff_getElem?.mp member
  obtain ⟨further, rfl⟩ := Nat.exists_eq_succ_of_ne_zero (Nat.ne_of_gt isLeft)
  have steps : s.step (.next number 0) = some { s with
      operations := s.operations.set number (leftAfter further 0)
      uses := s.uses ++ [s.use number] } := by
    simp only [step, found]
  exact ⟨_, _, steps, not_sound_of_use current notReady
    (List.mem_append_right _ (List.mem_singleton_self _))⟩

theorem Kept.disturbed (kept : s.Kept) {label : DriverLabel}
    (steps : s.step label = some t) (disturbed : ¬ s.Undisturbed label) :
    ¬ t.Sound ∨
      ∃ label following, t.step label = some following ∧ ¬ following.Sound := by
  cases label with
  | load => exact absurd trivial disturbed
  | kzalloc ok =>
      right
      obtain ⟨current, latest⟩ := Current.kzalloc steps
      have busy := not_not.mp disturbed
      simp only [DriverState.step, Option.ite_none_right_eq_some,
        Option.some.injEq] at steps
      refine exists_not_sound current ?_ ?_
      · rw [← steps.2]
        exact busy
      · rintro ⟨dev, isLatest, usable⟩
        rw [Option.mem_def, latest] at isLatest
        cases ok with
        | false => cases isLatest
        | true =>
            cases isLatest
            exact absurd usable (by decide)
  | device index event =>
      right
      have broken : ∃ (_ : s.Busy) (_ : index + 1 = s.probes.length),
          ∃ dev ∈ s.latest?, dev.lastPut event = true := by
        by_contra kept
        apply disturbed
        intro busy isLast dev isLatest
        by_contra last
        exact kept ⟨busy, isLast, dev, isLatest, Bool.not_eq_false _ ▸ last⟩
      obtain ⟨busy, isLast, dev, isLatest, last⟩ := broken
      simp only [DriverState.step, Option.bind_eq_some_iff,
        Option.map_eq_some_iff] at steps
      obtain ⟨was, found, following, moved, rfl⟩ := steps
      refine exists_not_sound (kept.current.device_set found following) busy ?_
      obtain ⟨_, wasLatest, nowLatest⟩ | ⟨notLast, _⟩ :=
        latest?_set found following
      · rw [Option.mem_def, wasLatest, Option.some.injEq] at isLatest
        subst isLatest
        have freed := NvmeDev.step_lastPut moved last
        rintro ⟨dev, isDev, _, live, _⟩
        have same : following = dev := by
          rw [Option.mem_def, latest?, nowLatest] at isDev
          exact Option.some.inj isDev
        rw [← same, freed] at live
        cases live
      · exact absurd isLast notLast
  | first further result =>
      left
      simp only [DriverState.step, Option.ite_none_right_eq_some,
        Option.some.injEq] at steps
      rw [← steps.2]
      exact not_sound_of_use kept.current disturbed
        (List.mem_append_right _ (List.mem_singleton_self _))
  | next number result => exact absurd trivial disturbed

/-- In an undisturbed run every chunk finds a usable device, and the chunks of
one operation go to one namespace.  Any disturbed step breaks this, at once or
with the next chunk of an operation. -/
theorem current_dev_usable_while_undisturbed {s : DriverState}
    (reach : Reach step Undisturbed start s) :
    s.Sound ∧ ∀ {label : DriverLabel} {t : DriverState},
      s.step label = some t → ¬ s.Undisturbed label →
      ¬ t.Sound ∨
        ∃ label following, t.step label = some following ∧
          ¬ following.Sound := by
  have kept : s.Kept := by
    refine reach.invariant Kept.start ?_
    intro current following label kept undisturbed steps
    exact kept.step undisturbed steps
  exact ⟨kept.sound, kept.disturbed⟩

def probeWhole (index : Nat) : List DriverLabel :=
  [.kzalloc true, .device index (.probe true), .device index (.probe true),
    .device index (.probe true), .device index (.probe true),
    .device index (.probe true), .device index (.asyncProbe true),
    .device index (.allocNs 1 true), .device index .asyncEnd]

/-- Two controllers, an operation of two chunks on the second one, then its
removal, a probe that fails and one that succeeds before the next operation. -/
def twoControllers : List DriverLabel :=
  .load :: probeWhole 0 ++ probeWhole 1 ++
    [.first 1 0, .device 0 .remove, .device 0 .removeEnd, .next 0 0,
      .device 1 .remove, .device 1 .removeEnd, .kzalloc true,
      .device 2 (.probe false)] ++ probeWhole 3 ++ [.first 0 0]

def afterTwoControllers : DriverState :=
  (runGuarded step Undisturbed start twoControllers).getD start

theorem current_dev_usable_two_controllers :
    afterTwoControllers.uses.length = 3 ∧ afterTwoControllers.Sound := by
  have ran : runGuarded step Undisturbed start twoControllers =
      some afterTwoControllers := by decide
  exact ⟨by decide,
    (current_dev_usable_while_undisturbed (Reach.of_runGuarded ran)).1⟩

/-- A read after the removal of the only controller. -/
theorem current_dev_used_after_free :
    ¬ ∀ s, Reach step anyStep start s → s.Sound := by
  intro sound
  have ran : runSteps step start (.load :: probeWhole 0 ++
      [.device 0 .remove, .device 0 .removeEnd, .first 0 0]) = some _ := rfl
  obtain ⟨dev, isDevice, usable⟩ :=
    (sound _ (Reach.of_runSteps ran)).usable _ List.mem_cons_self
  cases isDevice
  exact absurd usable (by decide)

end DriverState

end Chario.Driver
