import Mathlib.Data.List.Infix
import Mathlib.Logic.Function.Basic
import Chario.Constants
import Chario.Library.Ring
import Chario.Library.Transition
import Chario.Queue.Command

namespace Chario.Queue

open Chario.Library

/-! The submission ring of queue 1, shared by the character-device clients and
the blk-mq path, and a controller that fetches from it at its own pace. -/

/-- `dev->q_depth` as `nvme_dev_map` computes it from `CAP.MQES`. -/
def nvmeDevMapQDepth (mqes : Nat) : Nat := min (mqes + 1) nvmeQDepth

def blkMqMaxDepth : Nat := 10240

def tagsetDepth (qDepth : Nat) : Nat := min qDepth blkMqMaxDepth - 1

inductive SqOrigin
  | chario (client : Nat)
  | blkMq (tag : Nat)
deriving DecidableEq, Repr

structure SqCommand where
  serial : Nat
  origin : SqOrigin
deriving DecidableEq, Repr

/-- `blocksLeft client` is `remaining_blocks` of the request the client is
submitting. -/
structure SqSystem where
  qDepth : Nat
  sqCmds : Nat → Option SqCommand
  sqTail : Nat
  doorbell : Nat
  head : Nat
  blocksLeft : Nat → Option Nat
  outstanding : List SqCommand
  submitted : List SqCommand
  fetched : List (Option SqCommand)

inductive SqLabel
  | request (client nblocks : Nat)
  | charioSubmit (client : Nat)
  | blkSubmit (tag : Nat)
  | fetch
  | complete (serial : Nat)
deriving DecidableEq, Repr

namespace SqSystem

def start (qDepth : Nat) : SqSystem where
  qDepth := qDepth
  sqCmds := fun _ => none
  sqTail := 0
  doorbell := 0
  head := 0
  blocksLeft := fun _ => none
  outstanding := []
  submitted := []
  fetched := []

/-- `__nvme_submit_cmd`: copy into the slot at the tail, advance the tail and
write it to the doorbell. -/
def nvmeSubmitCmd (s : SqSystem) (origin : SqOrigin) : SqSystem :=
  let cmd : SqCommand := ⟨s.submitted.length, origin⟩
  let tail := advance s.qDepth s.sqTail
  { s with
    sqCmds := Function.update s.sqCmds s.sqTail (some cmd)
    sqTail := tail
    doorbell := tail
    outstanding := s.outstanding ++ [cmd]
    submitted := s.submitted ++ [cmd] }

/-- A client enters `nvme_submit_io_chario` once its previous request is
over. -/
def request (s : SqSystem) (client nblocks : Nat) : Option SqSystem :=
  if s.blocksLeft client = none ∧
      (∀ cmd ∈ s.outstanding, cmd.origin ≠ .chario client) ∧
      nblocks < 2 ^ 16 then
    some { s with
      blocksLeft := Function.update s.blocksLeft client (some nblocks) }
  else none

/-- One sub-command; the last one is the one with fewer than `REQ_MAX_BLOCKS`
blocks left. -/
def charioSubmit (s : SqSystem) (client : Nat) : Option SqSystem :=
  match s.blocksLeft client with
  | none => none
  | some left =>
      some { s.nvmeSubmitCmd (.chario client) with
        blocksLeft := Function.update s.blocksLeft client
          (if reqMaxBlocks ≤ left then some (left - reqMaxBlocks) else none) }

def blkSubmit (s : SqSystem) (tag : Nat) : Option SqSystem :=
  if tag < tagsetDepth s.qDepth ∧
      ∀ cmd ∈ s.outstanding, cmd.origin ≠ .blkMq tag then
    some (s.nvmeSubmitCmd (.blkMq tag))
  else none

/-- The controller fetches as long as its head differs from the doorbell. -/
def fetch (s : SqSystem) : Option SqSystem :=
  if s.head = s.doorbell then none
  else some { s with
    head := advance s.qDepth s.head
    fetched := s.fetched ++ [s.sqCmds s.head] }

def complete (s : SqSystem) (serial : Nat) : Option SqSystem :=
  if ∃ cmd ∈ s.outstanding, cmd.serial = serial ∧ some cmd ∈ s.fetched then
    some { s with
      outstanding := s.outstanding.filter fun cmd => cmd.serial != serial }
  else none

def step (s : SqSystem) : SqLabel → Option SqSystem
  | .request client nblocks => s.request client nblocks
  | .charioSubmit client => s.charioSubmit client
  | .blkSubmit tag => s.blkSubmit tag
  | .fetch => s.fetch
  | .complete serial => s.complete serial

/-- Nothing is overrun: at most `qDepth - 1` commands wait, the controller has
fetched a prefix of what was submitted, every waiting command is still in its
slot, and equal head and doorbell mean an empty ring. -/
structure Intact (s : SqSystem) : Prop where
  waiting_le : s.submitted.length ≤ s.fetched.length + (s.qDepth - 1)
  fetched_prefix : s.fetched <+: s.submitted.map some
  in_slot : ∀ serial (submitted : serial < s.submitted.length),
    s.fetched.length ≤ serial →
      s.sqCmds (serial % s.qDepth) = some s.submitted[serial]
  empty_iff : s.head = s.doorbell ↔ s.fetched.length = s.submitted.length

def SqLabel.submits : SqLabel → Bool
  | .charioSubmit _ => true
  | .blkSubmit _ => true
  | _ => false

/-- A command is submitted only while fewer than `qDepth - 1` are
outstanding. -/
def Headroom (s : SqSystem) (label : SqLabel) : Prop :=
  SqLabel.submits label = true → s.outstanding.length < s.qDepth - 1

instance (s : SqSystem) (label : SqLabel) : Decidable (s.Headroom label) :=
  inferInstanceAs (Decidable (_ → _))

structure Invariant (qDepth : Nat) (s : SqSystem) : Prop where
  depth : s.qDepth = qDepth
  tail : s.sqTail = s.submitted.length % qDepth
  doorbell : s.doorbell = s.submitted.length % qDepth
  head : s.head = s.fetched.length % qDepth
  fetched_le : s.fetched.length ≤ s.submitted.length
  waiting_le : s.submitted.length ≤ s.fetched.length + (qDepth - 1)
  fetched : s.fetched = (s.submitted.take s.fetched.length).map some
  in_slot : ∀ serial (submitted : serial < s.submitted.length),
    s.fetched.length ≤ serial →
      s.sqCmds (serial % qDepth) = some s.submitted[serial]
  serials : ∀ serial (submitted : serial < s.submitted.length),
    (s.submitted[serial]).serial = serial
  waiting_outstanding :
    (s.submitted.drop s.fetched.length).Sublist s.outstanding

namespace Invariant

variable {qDepth : Nat} {s t : SqSystem}

theorem start (qDepth : Nat) : Invariant qDepth (SqSystem.start qDepth) where
  depth := rfl
  tail := (Nat.zero_mod _).symm
  doorbell := (Nat.zero_mod _).symm
  head := (Nat.zero_mod _).symm
  fetched_le := Nat.le_refl _
  waiting_le := Nat.zero_le _
  fetched := rfl
  in_slot := fun _ submitted => by simp [SqSystem.start] at submitted
  serials := fun _ submitted => by simp [SqSystem.start] at submitted
  waiting_outstanding := List.Sublist.refl _

theorem empty_iff (inv : Invariant qDepth s) (deep : 2 ≤ qDepth) :
    s.head = s.doorbell ↔ s.fetched.length = s.submitted.length := by
  have waitingLe := inv.waiting_le
  rw [inv.head, inv.doorbell]
  constructor
  · intro same
    exact mod_inj_of_lt inv.fetched_le (by omega) same
  · intro same
    rw [same]

theorem intact (inv : Invariant qDepth s) (deep : 2 ≤ qDepth) : s.Intact where
  waiting_le := by simpa [inv.depth] using inv.waiting_le
  fetched_prefix := by
    rw [inv.fetched]
    exact (List.take_prefix _ _).map some
  in_slot := by simpa [inv.depth] using inv.in_slot
  empty_iff := inv.empty_iff deep

theorem nvmeSubmitCmd (inv : Invariant qDepth s) (deep : 2 ≤ qDepth)
    (room : s.outstanding.length < qDepth - 1) (origin : SqOrigin) :
    Invariant qDepth (s.nvmeSubmitCmd origin) := by
  have positive : 0 < qDepth := by omega
  have fetchedLe := inv.fetched_le
  have waiting : s.submitted.length - s.fetched.length < qDepth - 1 := by
    have := inv.waiting_outstanding.length_le
    rw [List.length_drop] at this
    omega
  refine {
    depth := inv.depth
    tail := ?_
    doorbell := ?_
    head := inv.head
    fetched_le := by simpa [SqSystem.nvmeSubmitCmd] using by omega
    waiting_le := by simpa [SqSystem.nvmeSubmitCmd] using by omega
    fetched := ?_
    in_slot := ?_
    serials := ?_
    waiting_outstanding := ?_ }
  · simp [SqSystem.nvmeSubmitCmd, inv.tail, inv.depth, advance_mod positive]
  · simp [SqSystem.nvmeSubmitCmd, inv.tail, inv.depth, advance_mod positive]
  · simpa [SqSystem.nvmeSubmitCmd, List.take_append_of_le_length fetchedLe]
      using inv.fetched
  · intro serial submitted waits
    simp only [SqSystem.nvmeSubmitCmd, List.length_append,
      List.length_singleton] at submitted waits ⊢
    by_cases last : serial = s.submitted.length
    · subst last
      simp [inv.tail]
    · have earlier : serial < s.submitted.length := by omega
      have elsewhere : serial % qDepth ≠ s.sqTail := by
        rw [inv.tail]
        intro same
        have := mod_inj_of_lt (by omega) (by omega) same
        omega
      simpa [Function.update_of_ne elsewhere,
        List.getElem_append_left earlier] using
          inv.in_slot serial earlier waits
  · intro serial submitted
    simp only [SqSystem.nvmeSubmitCmd, List.length_append,
      List.length_singleton] at submitted ⊢
    by_cases last : serial = s.submitted.length
    · subst last
      simp
    · have earlier : serial < s.submitted.length := by omega
      simpa [List.getElem_append_left earlier] using
        inv.serials serial earlier
  · simp only [SqSystem.nvmeSubmitCmd]
    rw [List.drop_append_of_le_length fetchedLe]
    exact inv.waiting_outstanding.append (List.Sublist.refl _)

theorem fetch (inv : Invariant qDepth s) (deep : 2 ≤ qDepth)
    (taken : s.fetch = some t) : Invariant qDepth t := by
  have positive : 0 < qDepth := by omega
  unfold SqSystem.fetch at taken
  split at taken
  next => cases taken
  next differs =>
      cases taken
      have behind : s.fetched.length < s.submitted.length := by
        have := (inv.empty_iff deep).not.mp differs
        have := inv.fetched_le
        omega
      have waitingLe := inv.waiting_le
      have slot := inv.in_slot s.fetched.length behind (Nat.le_refl _)
      refine { inv with
        head := ?_
        fetched_le := by simpa using by omega
        waiting_le := by simpa using by omega
        fetched := ?_
        in_slot := ?_
        waiting_outstanding := ?_ }
      · simp [inv.head, inv.depth, advance_mod positive]
      · simp only [List.length_append, List.length_singleton]
        rw [← List.take_concat_get' _ _ behind, List.map_append, ← inv.fetched,
          inv.head, slot]
        rfl
      · intro serial submitted waits
        simp only [List.length_append, List.length_singleton] at waits
        exact inv.in_slot serial submitted (by omega)
      · simp only [List.length_append, List.length_singleton]
        refine List.Sublist.trans ?_ inv.waiting_outstanding
        rw [← List.drop_drop]
        exact List.drop_sublist _ _

theorem complete (inv : Invariant qDepth s) {serial : Nat}
    (taken : s.complete serial = some t) : Invariant qDepth t := by
  unfold SqSystem.complete at taken
  split at taken
  next known =>
      cases taken
      obtain ⟨cmd, _, isSerial, wasFetched⟩ := known
      -- a fetched command is not among the waiting ones
      have early : serial < s.fetched.length := by
        rw [inv.fetched] at wasFetched
        simp only [List.mem_map, Option.some.injEq, exists_eq_right]
          at wasFetched
        obtain ⟨index, bound, isCmd⟩ := List.getElem_of_mem wasFetched
        simp only [List.length_take] at bound
        rw [List.getElem_take] at isCmd
        have := inv.serials index (by omega)
        rw [isCmd, isSerial] at this
        omega
      refine { inv with waiting_outstanding := ?_ }
      have kept : (s.submitted.drop s.fetched.length).filter
          (fun cmd => cmd.serial != serial) =
            s.submitted.drop s.fetched.length := by
        rw [List.filter_eq_self]
        intro waiting member
        obtain ⟨index, bound, isWaiting⟩ := List.getElem_of_mem member
        simp only [List.length_drop] at bound
        rw [List.getElem_drop] at isWaiting
        have := inv.serials (s.fetched.length + index) (by omega)
        rw [isWaiting] at this
        simp only [bne_iff_ne, ne_eq]
        omega
      rw [← kept]
      exact inv.waiting_outstanding.filter _
  next => cases taken

theorem step (inv : Invariant qDepth s) (deep : 2 ≤ qDepth) {label : SqLabel}
    (headroom : s.Headroom label) (taken : s.step label = some t) :
    Invariant qDepth t := by
  cases label with
  | request client nblocks =>
      simp only [SqSystem.step, SqSystem.request] at taken
      split at taken <;> cases taken
      exact { inv with }
  | charioSubmit client =>
      have room := headroom rfl
      rw [inv.depth] at room
      simp only [SqSystem.step, SqSystem.charioSubmit] at taken
      split at taken <;> cases taken
      exact { inv.nvmeSubmitCmd deep room (.chario client) with }
  | blkSubmit tag =>
      have room := headroom rfl
      rw [inv.depth] at room
      simp only [SqSystem.step, SqSystem.blkSubmit] at taken
      split at taken <;> cases taken
      exact inv.nvmeSubmitCmd deep room (.blkMq tag)
  | fetch => exact inv.fetch deep taken
  | complete serial => exact inv.complete taken

end Invariant

theorem two_le_nvmeDevMapQDepth {mqes : Nat} (supported : 1 ≤ mqes) :
    2 ≤ nvmeDevMapQDepth mqes := by
  unfold nvmeDevMapQDepth nvmeQDepth
  omega

/-- In every run that keeps headroom for the commands already outstanding the
ring is never overrun. -/
theorem submission_ring_intact {mqes : Nat} (supported : 1 ≤ mqes)
    {s : SqSystem}
    (reach : Reach SqSystem.step Headroom
      (SqSystem.start (nvmeDevMapQDepth mqes)) s) : s.Intact := by
  have deep := two_le_nvmeDevMapQDepth supported
  have inv : Invariant (nvmeDevMapQDepth mqes) s :=
    reach.invariant (Invariant.start _) fun inv headroom taken =>
      inv.step deep headroom taken
  exact inv.intact deep

/-- Two sub-commands of one request and a controller that fetches in between
pass through a ring of two slots. -/
theorem submission_ring_intact_two :
    ∃ s, runGuarded SqSystem.step Headroom
        (SqSystem.start (nvmeDevMapQDepth 1))
        [.request 0 32, .charioSubmit 0, .fetch, .complete 0,
          .charioSubmit 0] = some s ∧ s.Intact := by
  obtain ⟨s, ran⟩ : ∃ s,
      runGuarded SqSystem.step Headroom (SqSystem.start (nvmeDevMapQDepth 1))
        [.request 0 32, .charioSubmit 0, .fetch, .complete 0,
          .charioSubmit 0] = some s :=
    Option.isSome_iff_exists.mp rfl
  exact ⟨s, ran,
    submission_ring_intact (Nat.le_refl 1) (Reach.of_runGuarded ran)⟩

theorem exists_reach_full (qDepth count : Nat)
    (fits : count ≤ tagsetDepth qDepth) :
    ∃ s, Reach SqSystem.step anyStep (SqSystem.start qDepth) s ∧
      s.submitted.length = count ∧ s.fetched = [] ∧ s.qDepth = qDepth ∧
      (∀ cmd ∈ s.outstanding, ∃ tag, tag < count ∧ cmd.origin = .blkMq tag) ∧
      s.blocksLeft = fun _ => none := by
  induction count with
  | zero =>
      exact ⟨_, .start, rfl, rfl, rfl, by simp [SqSystem.start], rfl⟩
  | succ count induction =>
      obtain ⟨s, reach, length, fetched, depth, tags, idle⟩ :=
        induction (by omega)
      have free : count < tagsetDepth s.qDepth ∧
          ∀ cmd ∈ s.outstanding, cmd.origin ≠ .blkMq count := by
        refine ⟨by rw [depth]; omega, ?_⟩
        intro cmd member same
        obtain ⟨tag, below, origin⟩ := tags cmd member
        rw [origin] at same
        cases same
        omega
      refine ⟨s.nvmeSubmitCmd (.blkMq count),
        .next reach trivial (show s.step (.blkSubmit count) = _ from
          if_pos free), ?_, fetched, depth, ?_, idle⟩
      · simp [SqSystem.nvmeSubmitCmd, length]
      · intro cmd member
        rcases List.mem_append.mp member with old | new
        · obtain ⟨tag, below, origin⟩ := tags cmd old
          exact ⟨tag, by omega, origin⟩
        · rw [List.mem_singleton.mp new]
          exact ⟨count, by omega, rfl⟩

theorem exists_overrun {mqes : Nat} (supported : 1 ≤ mqes) :
    ∃ s, Reach SqSystem.step anyStep
        (SqSystem.start (nvmeDevMapQDepth mqes)) s ∧ ¬ s.Intact := by
  have deep := two_le_nvmeDevMapQDepth supported
  have shallow : nvmeDevMapQDepth mqes ≤ nvmeQDepth := Nat.min_le_right _ _
  obtain ⟨s, reach, length, fetched, depth, tags, idle⟩ :=
    exists_reach_full (nvmeDevMapQDepth mqes) _ (Nat.le_refl _)
  let requested : SqSystem :=
    { s with blocksLeft := Function.update s.blocksLeft 0 (some 0) }
  have begun : s.step (.request 0 0) = some requested := by
    refine if_pos ⟨by rw [idle], ?_, by decide⟩
    intro cmd member same
    obtain ⟨tag, _, origin⟩ := tags cmd member
    rw [origin] at same
    cases same
  let overrun : SqSystem :=
    { requested.nvmeSubmitCmd (.chario 0) with
      blocksLeft := Function.update requested.blocksLeft 0 none }
  have submits : requested.step (.charioSubmit 0) = some overrun := by
    simp [SqSystem.step, SqSystem.charioSubmit, requested, overrun,
      reqMaxBlocks]
  refine ⟨overrun, .next (.next reach trivial begun) trivial submits, ?_⟩
  intro intact
  have bound := intact.waiting_le
  simp only [overrun, requested, SqSystem.nvmeSubmitCmd, List.length_append,
    List.length_singleton, length, fetched, List.length_nil, depth] at bound
  unfold tagsetDepth blkMqMaxDepth at bound
  unfold nvmeQDepth at shallow
  omega

/-- A controller with two-entry queues that has not fetched yet loses both
sub-commands of a 33-block request: the tail wraps onto the head. -/
theorem two_sub_commands_overrun_two_slots :
    ∃ s, Reach SqSystem.step anyStep
        (SqSystem.start (nvmeDevMapQDepth 1)) s ∧
      s.submitted.length = 2 ∧ s.fetched = [] ∧ s.head = s.doorbell ∧
      ¬ s.Intact := by
  obtain ⟨s, ran⟩ : ∃ s,
      runSteps SqSystem.step (SqSystem.start (nvmeDevMapQDepth 1))
        [.request 0 32, .charioSubmit 0, .charioSubmit 0] = some s :=
    Option.isSome_iff_exists.mp rfl
  have facts : (runSteps SqSystem.step (SqSystem.start (nvmeDevMapQDepth 1))
      [.request 0 32, .charioSubmit 0, .charioSubmit 0]).map
        (fun s => (s.submitted.length, s.fetched, s.head, s.doorbell)) =
      some (2, [], 0, 0) := rfl
  rw [ran] at facts
  simp only [Option.map_some, Option.some.injEq, Prod.mk.injEq] at facts
  obtain ⟨submitted, fetched, head, doorbell⟩ := facts
  refine ⟨s, Reach.of_runSteps ran, submitted, fetched, by omega, ?_⟩
  intro intact
  have := intact.empty_iff.mp (by omega)
  simp [submitted, fetched] at this

end SqSystem

end Chario.Queue
