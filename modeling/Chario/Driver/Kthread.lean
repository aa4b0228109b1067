import Mathlib.Data.List.Nodup
import Mathlib.Logic.Function.Basic
import Chario.Library.Transition

namespace Chario.Driver

open Chario.Library

/-! `nvme_thread`, the one thread for all devices, and `dev_list`: the device
that finds the list empty creates the thread, and the one that leaves it empty
stops it. -/

inductive ThreadVar
  | null
  | error
  | running (thread : Nat)
deriving DecidableEq, Repr

def ThreadVar.isErrOrNull : ThreadVar → Bool
  | .null | .error => true
  | .running _ => false

inductive DevPc
  | down
  | creating
  | waiting
  | checking
  | settingUp
  | up
  | failing
  | stopping (thread : Nat)
deriving DecidableEq, Repr

def DevPc.active : DevPc → Bool
  | .down | .stopping _ => false
  | .creating | .waiting | .checking | .settingUp | .up | .failing => true

/-- `live` are the threads that have been created and not been stopped. -/
structure ThreadSystem where
  devList : List Nat
  nvmeThread : ThreadVar
  live : List Nat
  created : Nat
  pc : Nat → DevPc

inductive ThreadLabel
  | enlist (dev : Nat)
  | kthreadRun (dev : Nat) (ok : Bool)
  | woken (dev : Nat)
  | killed (dev : Nat)
  | check (dev : Nat)
  | finish (dev : Nat)
  | abandon (dev : Nat)
  | listRemove (dev : Nat)
  | kthreadStop (dev : Nat)
  | delist (dev : Nat)
deriving DecidableEq, Repr

namespace ThreadSystem

def start : ThreadSystem where
  devList := []
  nvmeThread := .null
  live := []
  created := 0
  pc _ := .down

def goto (s : ThreadSystem) (dev : Nat) (pc : DevPc) : ThreadSystem :=
  { s with pc := Function.update s.pc dev pc }

/-- The part of `nvme_dev_start` under the lock. -/
def enlist (s : ThreadSystem) (dev : Nat) : Option ThreadSystem :=
  if s.pc dev ≠ .down then none
  else if s.devList = [] ∧ s.nvmeThread.isErrOrNull then
    some { s.goto dev .creating with
      devList := [dev]
      nvmeThread := .null }
  else some { s.goto dev .waiting with devList := dev :: s.devList }

def kthreadRun (s : ThreadSystem) (dev : Nat) (ok : Bool) :
    Option ThreadSystem :=
  if s.pc dev ≠ .creating then none
  else if ok then
    some { s.goto dev .checking with
      nvmeThread := .running s.created
      live := s.created :: s.live
      created := s.created + 1 }
  else some { s.goto dev .checking with nvmeThread := .error }

/-- `wait_event_killable` ends because the variable is set. -/
def woken (s : ThreadSystem) (dev : Nat) : Option ThreadSystem :=
  if s.pc dev = .waiting ∧ s.nvmeThread ≠ .null then some (s.goto dev .checking)
  else none

def killed (s : ThreadSystem) (dev : Nat) : Option ThreadSystem :=
  if s.pc dev = .waiting then some (s.goto dev .checking) else none

def check (s : ThreadSystem) (dev : Nat) : Option ThreadSystem :=
  if s.pc dev ≠ .checking then none
  else if s.nvmeThread.isErrOrNull then some (s.goto dev .failing)
  else some (s.goto dev .settingUp)

def finish (s : ThreadSystem) (dev : Nat) : Option ThreadSystem :=
  if s.pc dev = .settingUp then some (s.goto dev .up) else none

/-- The rest of the start fails, at one of its two jumps to `disable`. -/
def abandon (s : ThreadSystem) (dev : Nat) : Option ThreadSystem :=
  if s.pc dev = .settingUp then some (s.goto dev .failing) else none

/-- `nvme_dev_list_remove` up to the call of `kthread_stop`, from a start that
failed or from a shutdown; a device may be shut down more than once, but not
while it is being started. -/
def listRemove (s : ThreadSystem) (dev : Nat) : Option ThreadSystem :=
  if s.pc dev ≠ .failing ∧ s.pc dev ≠ .up ∧ s.pc dev ≠ .down then none
  else
    match s.nvmeThread with
    | .running thread =>
        if s.devList.erase dev = [] then
          some { s.goto dev (.stopping thread) with
            devList := []
            nvmeThread := .null }
        else some { s.goto dev .down with devList := s.devList.erase dev }
    | .null | .error =>
        some { s.goto dev .down with devList := s.devList.erase dev }

def kthreadStop (s : ThreadSystem) (dev : Nat) : Option ThreadSystem :=
  match s.pc dev with
  | .stopping thread =>
      some { s.goto dev .down with live := s.live.erase thread }
  | _ => none

/-- `list_del_init` alone: by the thread for a device in a fatal state, by
`nvme_abort_req`, and at the start of `nvme_remove`. -/
def delist (s : ThreadSystem) (dev : Nat) : ThreadSystem :=
  { s with devList := s.devList.erase dev }

def step (s : ThreadSystem) : ThreadLabel → Option ThreadSystem
  | .enlist dev => s.enlist dev
  | .kthreadRun dev ok => s.kthreadRun dev ok
  | .woken dev => s.woken dev
  | .killed dev => s.killed dev
  | .check dev => s.check dev
  | .finish dev => s.finish dev
  | .abandon dev => s.abandon dev
  | .listRemove dev => s.listRemove dev
  | .kthreadStop dev => s.kthreadStop dev
  | .delist dev => some (s.delist dev)

/-- No device is taken off the list while it creates the thread. -/
def sparesCreator (s : ThreadSystem) (label : ThreadLabel) : Prop :=
  ∀ dev, label = .delist dev → s.pc dev ≠ .creating

section Goto

variable (s : ThreadSystem) (dev : Nat) (pc : DevPc)

@[simp, grind =]
theorem pc_goto (other : Nat) :
    (s.goto dev pc).pc other = if other = dev then pc else s.pc other :=
  Function.update_apply ..

@[simp, grind =]
theorem devList_goto : (s.goto dev pc).devList = s.devList := rfl

@[simp, grind =]
theorem nvmeThread_goto : (s.goto dev pc).nvmeThread = s.nvmeThread := rfl

@[simp, grind =]
theorem live_goto : (s.goto dev pc).live = s.live := rfl

@[simp, grind =]
theorem created_goto : (s.goto dev pc).created = s.created := rfl

end Goto

/-- Every thread is either the one in `nvme_thread` or in the hands of the one
device that is about to stop it; it is there for the devices on the list, and
for no other reason. -/
structure Owned (s : ThreadSystem) : Prop where
  nodup : s.devList.Nodup
  listed : ∀ dev ∈ s.devList, (s.pc dev).active = true
  creator : ∀ dev, s.pc dev = .creating → dev ∈ s.devList ∧ s.nvmeThread = .null
  oneCreator : ∀ dev other, s.pc dev = .creating → s.pc other = .creating →
    dev = other
  live : ∀ thread, thread ∈ s.live ↔
    s.nvmeThread = .running thread ∨ ∃ dev, s.pc dev = .stopping thread
  liveOnce : s.live.Nodup
  fresh : ∀ thread ∈ s.live, thread < s.created
  stopper : ∀ dev thread, s.pc dev = .stopping thread →
    s.nvmeThread ≠ .running thread
  oneStopper : ∀ dev other thread, s.pc dev = .stopping thread →
    s.pc other = .stopping thread → dev = other
  served : ∀ dev ∈ s.devList, s.pc dev = .settingUp ∨ s.pc dev = .up →
    ∃ thread, s.nvmeThread = .running thread
  needed : ∀ thread, s.nvmeThread = .running thread →
    ∃ dev, (s.pc dev).active = true

namespace Owned

theorem start : Owned start where
  nodup := List.nodup_nil
  listed := by simp [ThreadSystem.start]
  creator := by simp [ThreadSystem.start]
  oneCreator := by simp [ThreadSystem.start]
  live := by simp [ThreadSystem.start]
  liveOnce := List.nodup_nil
  fresh := by simp [ThreadSystem.start]
  stopper := by simp [ThreadSystem.start]
  oneStopper := by simp [ThreadSystem.start]
  served := by simp [ThreadSystem.start]
  needed := by simp [ThreadSystem.start]

variable {s : ThreadSystem} {dev : Nat} {pc : DevPc}

theorem not_stopping (active : pc.active = true) (thread : Nat) :
    pc ≠ .stopping thread := by
  rintro rfl
  cases active

theorem stopping_goto {thread : Nat} (before : s.pc dev ≠ .stopping thread)
    (after : pc ≠ .stopping thread) :
    (∃ other, (s.goto dev pc).pc other = .stopping thread) ↔
      ∃ other, s.pc other = .stopping thread := by
  refine exists_congr fun other => ?_
  rw [pc_goto]
  split
  next same =>
      subst same
      exact ⟨fun stops => absurd stops after, fun stops => absurd stops before⟩
  next => rfl

theorem isErrOrNull_eq_false {var : ThreadVar} :
    var.isErrOrNull = false ↔ ∃ thread, var = .running thread := by
  cases var <;> simp [ThreadVar.isErrOrNull]

theorem move (owned : Owned s) (active : (s.pc dev).active = true)
    (still : pc.active = true) (notCreator : pc ≠ .creating)
    (serves : dev ∈ s.devList → pc = .settingUp ∨ pc = .up →
      ∃ thread, s.nvmeThread = .running thread) :
    Owned (s.goto dev pc) := by
  obtain ⟨nodup, listed, creator, oneCreator, live, liveOnce, fresh,
    stopper, oneStopper,
    served, needed⟩ := owned
  have before := not_stopping active
  have after := not_stopping still
  constructor
  case nodup => exact nodup
  case listed => grind
  case creator => grind
  case oneCreator => grind
  case live =>
    intro thread
    rw [stopping_goto (before thread) (after thread)]
    exact live thread
  case liveOnce => exact liveOnce
  case fresh => exact fresh
  case stopper => grind
  case oneStopper => grind
  case served => grind
  case needed => exact fun _ _ => ⟨dev, by grind⟩

theorem enlist {s' : ThreadSystem} (owned : Owned s)
    (taken : s.enlist dev = some s') :
    Owned s' := by
  obtain ⟨nodup, listed, creator, oneCreator, live, liveOnce, fresh,
    stopper, oneStopper,
    served, needed⟩ := owned
  unfold ThreadSystem.enlist at taken
  split at taken
  next => cases taken
  next notDown =>
  have isDown := not_not.mp notDown
  have notListed : dev ∉ s.devList := by
    intro member
    have active := listed dev member
    rw [isDown] at active
    cases active
  have before : ∀ thread, s.pc dev ≠ .stopping thread := by
    rw [isDown]
    simp
  split at taken
  next noThread =>
      obtain ⟨empty, noThread⟩ := noThread
      have notRunning : ∀ thread, s.nvmeThread ≠ .running thread := by
        intro thread isRunning
        rw [isRunning] at noThread
        cases noThread
      cases taken
      constructor
      case nodup => exact List.nodup_singleton dev
      case listed => grind [DevPc.active]
      case creator => grind
      case oneCreator => grind
      case live =>
        intro thread
        have same :=
          @stopping_goto s dev .creating thread (before thread) (by simp)
        rw [show _ ↔ _ from same]
        simp only [reduceCtorEq, false_or]
        rw [live_goto, live thread]
        simp [notRunning]
      case liveOnce => exact liveOnce
      case fresh => exact fresh
      case stopper => simp
      case oneStopper => grind
      case served => grind
      case needed => simp
  next =>
      cases taken
      constructor
      case nodup => exact List.nodup_cons.mpr ⟨notListed, nodup⟩
      case listed => grind [DevPc.active]
      case creator => grind
      case oneCreator => grind
      case live =>
        intro thread
        have same :=
          @stopping_goto s dev .waiting thread (before thread) (by simp)
        rw [show _ ↔ _ from same]
        exact live thread
      case liveOnce => exact liveOnce
      case fresh => exact fresh
      case stopper => grind
      case oneStopper => grind
      case served => grind
      case needed => exact fun _ _ => ⟨dev, by grind [DevPc.active]⟩

theorem kthreadRun {s' : ThreadSystem} {ok : Bool} (owned : Owned s)
    (taken : s.kthreadRun dev ok = some s') : Owned s' := by
  obtain ⟨nodup, listed, creator, oneCreator, live, liveOnce, fresh,
    stopper, oneStopper,
    served, needed⟩ := owned
  unfold ThreadSystem.kthreadRun at taken
  split at taken
  next => cases taken
  next notCreating =>
  have creates := not_not.mp notCreating
  obtain ⟨member, noThread⟩ := creator dev creates
  have before : ∀ thread, s.pc dev ≠ .stopping thread := by
    rw [creates]
    simp
  have unserved : ∀ other ∈ s.devList,
      ¬(s.pc other = .settingUp ∨ s.pc other = .up) := by
    intro other isListed set
    obtain ⟨thread, isRunning⟩ := served other isListed set
    rw [noThread] at isRunning
    cases isRunning
  have stays := fun thread =>
      @stopping_goto s dev .checking thread (before thread) (by simp)
  split at taken
  next =>
      have unused : s.created ∉ s.live :=
        fun old => absurd (fresh _ old) (Nat.lt_irrefl _)
      cases taken
      constructor
      case nodup => exact nodup
      case listed => grind [DevPc.active]
      case creator => grind
      case oneCreator => grind
      case live =>
        intro thread
        rw [show _ ↔ _ from stays thread, List.mem_cons, live thread, noThread]
        simp only [reduceCtorEq, false_or, ThreadVar.running.injEq]
        exact or_congr_left eq_comm
      case liveOnce => exact List.nodup_cons.mpr ⟨unused, liveOnce⟩
      case fresh => grind
      case stopper =>
        intro other thread stops isCreated
        cases isCreated
        have isLive := (live s.created).mpr
          (.inr ((stays s.created).mp ⟨other, stops⟩))
        exact unused isLive
      case oneStopper => grind
      case served => grind
      case needed => exact fun _ _ => ⟨dev, by grind [DevPc.active]⟩
  next =>
      cases taken
      constructor
      case nodup => exact nodup
      case listed => grind [DevPc.active]
      case creator => grind
      case oneCreator => grind
      case live =>
        intro thread
        rw [show _ ↔ _ from stays thread]
        simp only [reduceCtorEq, false_or]
        rw [live_goto, live thread, noThread]
        simp
      case liveOnce => exact liveOnce
      case fresh => exact fresh
      case stopper => simp
      case oneStopper => grind
      case served => grind
      case needed => simp

/-- A device leaves and the thread stays: it was not there, or others are on the
list. -/
theorem leave (owned : Owned s)
    (leaving : s.pc dev = .failing ∨ s.pc dev = .up ∨ s.pc dev = .down)
    (others : ∀ thread, s.nvmeThread = .running thread →
      s.devList.erase dev ≠ []) :
    Owned { s.goto dev .down with devList := s.devList.erase dev } := by
  obtain ⟨nodup, listed, creator, oneCreator, live, liveOnce, fresh,
    stopper, oneStopper,
    served, needed⟩ := owned
  have before : ∀ thread, s.pc dev ≠ .stopping thread := by
    intro thread stops
    rw [stops] at leaving
    simp at leaving
  have member : ∀ other, other ∈ s.devList.erase dev →
      other ≠ dev ∧ other ∈ s.devList :=
    fun other isListed => (List.Nodup.mem_erase_iff nodup).mp isListed
  constructor
  case nodup => exact nodup.erase dev
  case listed => grind
  case creator =>
    intro other creates
    rw [pc_goto] at creates
    split at creates
    next => cases creates
    next apart =>
        obtain ⟨isListed, noThread⟩ := creator other creates
        exact ⟨(List.Nodup.mem_erase_iff nodup).mpr ⟨apart, isListed⟩, noThread⟩
  case oneCreator => grind
  case live =>
    intro thread
    have same := @stopping_goto s dev .down thread (before thread) (by simp)
    rw [show _ ↔ _ from same]
    exact live thread
  case liveOnce => exact liveOnce
  case fresh => exact fresh
  case stopper => grind
  case oneStopper => grind
  case served => grind
  case needed =>
    intro thread isRunning
    obtain ⟨other, isListed⟩ :=
      List.exists_mem_of_ne_nil _ (others thread isRunning)
    obtain ⟨apart, wasListed⟩ := member other isListed
    refine ⟨other, ?_⟩
    rw [pc_goto, if_neg apart]
    exact listed other wasListed

theorem take {thread : Nat} (owned : Owned s)
    (leaving : s.pc dev = .failing ∨ s.pc dev = .up ∨ s.pc dev = .down)
    (isRunning : s.nvmeThread = .running thread) :
    Owned { s.goto dev (.stopping thread) with
      devList := []
      nvmeThread := .null } := by
  obtain ⟨nodup, listed, creator, oneCreator, live, liveOnce, fresh,
    stopper, oneStopper,
    served, needed⟩ := owned
  have notOwned : ∀ other, s.pc other ≠ .stopping thread :=
    fun other stops => stopper other thread stops isRunning
  have noCreator : ∀ other, s.pc other ≠ .creating := by
    intro other creates
    have noThread := (creator other creates).2
    rw [isRunning] at noThread
    cases noThread
  have before : ∀ other, s.pc dev ≠ .stopping other := by
    intro other stops
    rw [stops] at leaving
    simp at leaving
  constructor
  case nodup => exact List.nodup_nil
  case listed => simp
  case creator => grind
  case oneCreator => grind
  case live =>
    intro other
    simp only [reduceCtorEq, false_or]
    rw [live_goto, live other, isRunning]
    by_cases same : thread = other
    · subst same
      simp only [true_or, true_iff]
      exact ⟨dev, by rw [pc_goto, if_pos rfl]⟩
    · rw [show _ ↔ _ from stopping_goto (before other) (by simp [same])]
      simp [same]
  case liveOnce => exact liveOnce
  case fresh => exact fresh
  case stopper => simp
  case oneStopper => grind
  case served => simp
  case needed => simp

theorem listRemove {s' : ThreadSystem} (owned : Owned s)
    (taken : s.listRemove dev = some s') : Owned s' := by
  unfold ThreadSystem.listRemove at taken
  split at taken
  next => cases taken
  next leaves =>
  have leaving : s.pc dev = .failing ∨ s.pc dev = .up ∨ s.pc dev = .down := by
    by_contra none
    simp only [not_or] at none
    exact leaves none
  split at taken
  next thread isRunning =>
      split at taken
      next =>
          cases taken
          exact owned.take leaving isRunning
      next others =>
          cases taken
          exact owned.leave leaving (fun _ _ => others)
  next noThread =>
      cases taken
      exact owned.leave leaving (by simp [noThread])
  next noThread =>
      cases taken
      exact owned.leave leaving (by simp [noThread])

theorem kthreadStop {s' : ThreadSystem} (owned : Owned s)
    (taken : s.kthreadStop dev = some s') : Owned s' := by
  obtain ⟨nodup, listed, creator, oneCreator, live, liveOnce, fresh,
    stopper, oneStopper,
    served, needed⟩ := owned
  unfold ThreadSystem.kthreadStop at taken
  split at taken
  next thread stops =>
      cases taken
      have notListed : ∀ other ∈ s.devList, other ≠ dev := by
        intro other member same
        have active := listed other member
        rw [same, stops] at active
        cases active
      constructor
      case nodup => exact nodup
      case listed => grind
      case creator => grind
      case oneCreator => grind
      case live =>
        intro other
        rw [List.Nodup.mem_erase_iff liveOnce, live other]
        by_cases same : other = thread
        · subst same
          simp only [ne_eq, not_true, false_and, false_iff, not_or]
          refine ⟨stopper dev other stops, ?_⟩
          rintro ⟨holder, holds⟩
          rw [pc_goto] at holds
          split at holds
          next => cases holds
          next apart => exact apart (oneStopper holder dev other holds stops)
        · have notThis : s.pc dev ≠ .stopping other := by
            rw [stops]
            simp [Ne.symm same]
          rw [show _ ↔ _ from stopping_goto notThis (by simp)]
          simp [same]
      case liveOnce => exact liveOnce.erase thread
      case fresh =>
        exact fun other member => fresh other (List.mem_of_mem_erase member)
      case stopper => grind
      case oneStopper => grind
      case served => grind
      case needed =>
        intro other isRunning
        obtain ⟨active, isActive⟩ := needed other isRunning
        refine ⟨active, ?_⟩
        rw [pc_goto, if_neg ?_]
        · exact isActive
        · rintro rfl
          rw [stops] at isActive
          cases isActive
  next => cases taken

theorem delist (owned : Owned s) (spares : s.pc dev ≠ .creating) :
    Owned (s.delist dev) := by
  obtain ⟨nodup, listed, creator, oneCreator, live, liveOnce, fresh,
    stopper, oneStopper,
    served, needed⟩ := owned
  refine ⟨nodup.erase dev, ?_, ?_, oneCreator, live, liveOnce, fresh, stopper,
    oneStopper, ?_, needed⟩
  · exact fun other member => listed other (List.mem_of_mem_erase member)
  · intro other creates
    obtain ⟨member, noThread⟩ := creator other creates
    refine ⟨(List.Nodup.mem_erase_iff nodup).mpr ⟨?_, member⟩, noThread⟩
    rintro rfl
    exact spares creates
  · exact fun other member => served other (List.mem_of_mem_erase member)

theorem step {s' : ThreadSystem} {label : ThreadLabel} (owned : Owned s)
    (spares : s.sparesCreator label) (taken : s.step label = some s') :
    Owned s' := by
  cases label with
  | enlist dev => exact owned.enlist taken
  | kthreadRun dev ok => exact owned.kthreadRun taken
  | woken dev =>
      simp only [ThreadSystem.step, ThreadSystem.woken] at taken
      split at taken
      next waits =>
          cases taken
          exact owned.move (by rw [waits.1]; rfl) rfl (by simp) (by simp)
      next => cases taken
  | killed dev =>
      simp only [ThreadSystem.step, ThreadSystem.killed] at taken
      split at taken
      next waits =>
          cases taken
          exact owned.move (by rw [waits]; rfl) rfl (by simp) (by simp)
      next => cases taken
  | check dev =>
      simp only [ThreadSystem.step, ThreadSystem.check] at taken
      split at taken
      next => cases taken
      next checks =>
      have active : (s.pc dev).active = true := by rw [not_not.mp checks]; rfl
      split at taken
      next =>
          cases taken
          exact owned.move active rfl (by simp) (by simp)
      next isThread =>
          cases taken
          refine owned.move active rfl (by simp) (fun _ _ => ?_)
          exact isErrOrNull_eq_false.mp (Bool.not_eq_true _ ▸ isThread)
  | finish dev =>
      simp only [ThreadSystem.step, ThreadSystem.finish] at taken
      split at taken
      next sets =>
          cases taken
          exact owned.move (by rw [sets]; rfl) rfl (by simp)
            (fun member _ => owned.served dev member (.inl sets))
      next => cases taken
  | abandon dev =>
      simp only [ThreadSystem.step, ThreadSystem.abandon] at taken
      split at taken
      next sets =>
          cases taken
          exact owned.move (by rw [sets]; rfl) rfl (by simp) (by simp)
      next => cases taken
  | listRemove dev => exact owned.listRemove taken
  | kthreadStop dev => exact owned.kthreadStop taken
  | delist dev =>
      cases taken
      exact owned.delist (spares dev rfl)

end Owned

/-- However many devices are started, fail, are shut down or drop off the list,
and in whatever order: a thread that is left alive is the one in `nvme_thread`
or will be stopped by exactly one device, every device that is in use and on the
list has a thread, and when all devices are gone no thread is left, so that the
check of `nvme_exit` does not strike. -/
theorem nvmeThread_owned {s : ThreadSystem}
    (reach : Reach ThreadSystem.step sparesCreator start s) :
    (s.live.Nodup ∧ ∀ thread ∈ s.live,
      (s.nvmeThread = .running thread ∧ ∀ dev, s.pc dev ≠ .stopping thread) ∨
      (s.nvmeThread ≠ .running thread ∧ ∃! dev, s.pc dev = .stopping thread)) ∧
    (∀ dev ∈ s.devList, s.pc dev = .settingUp ∨ s.pc dev = .up →
      ∃ thread ∈ s.live, s.nvmeThread = .running thread) ∧
    ((∀ dev, s.pc dev = .down) → s.live = [] ∧
      s.nvmeThread.isErrOrNull = true) := by
  have owned : Owned s :=
    reach.invariant Owned.start
      (fun owned spares taken => owned.step spares taken)
  refine ⟨⟨owned.liveOnce, ?_⟩, ?_, ?_⟩
  · intro thread isLive
    by_cases isRunning : s.nvmeThread = .running thread
    · exact .inl
        ⟨isRunning, fun dev stops => owned.stopper dev thread stops isRunning⟩
    · obtain ⟨dev, stops⟩ :=
        ((owned.live thread).mp isLive).resolve_left isRunning
      exact .inr ⟨isRunning, dev, stops,
        fun other others => owned.oneStopper other dev thread others stops⟩
  · intro dev member inUse
    obtain ⟨thread, isRunning⟩ := owned.served dev member inUse
    exact ⟨thread, (owned.live thread).mpr (.inl isRunning), isRunning⟩
  · intro allDown
    have noThread : ∀ thread, s.nvmeThread ≠ .running thread := by
      intro thread isRunning
      obtain ⟨dev, active⟩ := owned.needed thread isRunning
      rw [allDown dev] at active
      cases active
    refine ⟨List.eq_nil_iff_forall_not_mem.mpr ?_, ?_⟩
    · intro thread isLive
      cases (owned.live thread).mp isLive with
      | inl isRunning => exact noThread thread isRunning
      | inr stopping =>
          obtain ⟨dev, stops⟩ := stopping
          rw [allDown dev] at stops
          cases stops
    · by_contra running
      obtain ⟨thread, isRunning⟩ :=
        Owned.isErrOrNull_eq_false.mp (Bool.not_eq_true _ ▸ running)
      exact noThread thread isRunning

def twoDevices : List ThreadLabel :=
  [.enlist 0, .enlist 1, .kthreadRun 0 true, .check 0, .woken 1,
    .check 1, .finish 0,
    .finish 1, .listRemove 0]

theorem nvmeThread_owned_twoDevices :
    ∃ s, runSteps ThreadSystem.step start twoDevices = some s ∧
    s.devList = [1] ∧
      ∃ thread ∈ s.live, s.nvmeThread = .running thread := by
  have ends : (runSteps ThreadSystem.step start twoDevices).map
      (fun s => (s.devList, s.pc 1)) = some ([1], .up) := by
    decide
  obtain ⟨s, ran, seen⟩ := Option.map_eq_some_iff.mp ends
  obtain ⟨list, pc⟩ := Prod.ext_iff.mp seen
  have reach : Reach ThreadSystem.step sparesCreator start s := by
    refine Reach.of_allowed ?_ ran
    intro label member state dev isDelist
    subst isDelist
    simp [twoDevices] at member
  refine ⟨s, ran, list, (nvmeThread_owned reach).2.1 1 ?_ (.inr pc)⟩
  rw [show s.devList = [1] from list]
  exact List.mem_singleton_self 1

end ThreadSystem

end Chario.Driver
