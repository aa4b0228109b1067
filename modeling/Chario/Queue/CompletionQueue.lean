import Mathlib.Data.List.TakeDrop
import Mathlib.Logic.Function.Basic
import Chario.Library.Ring
import Chario.Library.Transition

namespace Chario.Queue

open Chario.Library

/-! The completion ring of one queue: the fields `nvme_process_cq` works on, the
controller that posts into the ring, and the calls that interleave with it. -/

structure NvmeCompletion where
  result : Nat
  sqHead : Nat
  sqId : Nat
  commandId : Nat
  status : Nat
deriving DecidableEq, Repr

namespace NvmeCompletion

def zero : NvmeCompletion := ⟨0, 0, 0, 0, 0⟩

def phase (entry : NvmeCompletion) : Nat := entry.status % 2

def withPhase (entry : NvmeCompletion) (bit : Nat) : NvmeCompletion :=
  { entry with status := 2 * (entry.status / 2) + bit }

@[simp] theorem phase_zero : zero.phase = 0 := rfl

theorem phase_withPhase (entry : NvmeCompletion) {bit : Nat}
    (isBit : bit < 2) : (entry.withPhase bit).phase = bit := by
  simp only [phase, withPhase]
  omega

end NvmeCompletion

structure CqRing where
  qDepth : Nat
  cqes : Nat → NvmeCompletion
  cqHead : Nat
  cqPhase : Nat
  sqHead : Nat
  cqeSeen : Nat

/-- The locals of one running `nvme_process_cq`.  `taken` counts the entries
this call has handed to `nvme_finish_cmd`. -/
structure CqCall where
  head : Nat
  phase : Nat
  taken : Nat
deriving DecidableEq, Repr

structure CqReturn where
  value : Nat
  doorbell : Option Nat
  taken : Nat
deriving DecidableEq, Repr

/-- Driver and controller side of the ring.  `stamp` remembers which posting
filled a slot; `posted`, `handed`, `acked` and `stamp` restart with the
queue. -/
structure CqSystem where
  ring : CqRing
  call : Option CqCall
  tail : Nat
  tailPhase : Nat
  posted : List NvmeCompletion
  stamp : Nat → Option Nat
  handed : List (Option Nat × NvmeCompletion)
  acked : Nat
  returns : List CqReturn

inductive CqLabel
  | post (entry : NvmeCompletion)
  | enter
  | turn
  | initQueue
deriving Repr

def nvmeAllocQueue (qDepth : Nat) : CqRing where
  qDepth := qDepth
  cqes := fun _ => .zero
  cqHead := 0
  cqPhase := 1
  sqHead := 0
  cqeSeen := 0

def nvmeInitQueue (ring : CqRing) : CqRing :=
  { ring with
    cqHead := 0
    cqPhase := 1
    cqes := fun slot => if slot < ring.qDepth then .zero else ring.cqes slot }

namespace CqSystem

def start (qDepth : Nat) : CqSystem where
  ring := nvmeAllocQueue qDepth
  call := none
  tail := 0
  tailPhase := 1
  posted := []
  stamp := fun _ => none
  handed := []
  acked := 0
  returns := []

/-- The controller writes one entry at its tail and never runs more than
`qDepth - 1` entries ahead of the last head doorbell. -/
def post (s : CqSystem) (entry : NvmeCompletion) : Option CqSystem :=
  if s.posted.length < s.acked + (s.ring.qDepth - 1) then
    let written := entry.withPhase s.tailPhase
    some { s with
      ring := { s.ring with cqes := Function.update s.ring.cqes s.tail written }
      stamp := Function.update s.stamp s.tail (some s.posted.length)
      posted := s.posted ++ [written]
      tail := advance s.ring.qDepth s.tail
      tailPhase :=
        if s.tail + 1 = s.ring.qDepth then 1 - s.tailPhase else s.tailPhase }
  else none

/-- `head = nvmeq->cq_head; phase = nvmeq->cq_phase`, under `q_lock`. -/
def enter (s : CqSystem) : Option CqSystem :=
  match s.call with
  | some _ => none
  | none =>
      some { s with call := some ⟨s.ring.cqHead, s.ring.cqPhase, 0⟩ }

/-- The end of `nvme_process_cq`: compare with the stored head and phase, and
write the doorbell only when they moved. -/
def leave (s : CqSystem) (call : CqCall) : CqSystem :=
  if call.head = s.ring.cqHead ∧ call.phase = s.ring.cqPhase then
    { s with call := none, returns := s.returns ++ [⟨0, none, call.taken⟩] }
  else
    { s with
      call := none
      acked := s.handed.length
      ring := { s.ring with
        cqHead := call.head
        cqPhase := call.phase
        cqeSeen := 1 }
      returns := s.returns ++ [⟨1, some call.head, call.taken⟩] }

def take (s : CqSystem) (call : CqCall) : CqSystem :=
  let cqe := s.ring.cqes call.head
  let wraps := call.head + 1 = s.ring.qDepth
  { s with
    ring := { s.ring with sqHead := cqe.sqHead }
    handed := s.handed ++ [(s.stamp call.head, cqe)]
    call := some
      { head := advance s.ring.qDepth call.head
        phase := if wraps then 1 - call.phase else call.phase
        taken := call.taken + 1 } }

def turn (s : CqSystem) : Option CqSystem :=
  match s.call with
  | none => none
  | some call =>
      if (s.ring.cqes call.head).phase = call.phase then some (s.take call)
      else some (s.leave call)

/-- Re-initialisation together with a fresh queue on the controller side. -/
def initQueue (s : CqSystem) : Option CqSystem :=
  match s.call with
  | some _ => none
  | none =>
      some { s with
        ring := nvmeInitQueue s.ring
        tail := 0
        tailPhase := 1
        posted := []
        stamp := fun _ => none
        handed := []
        acked := 0 }

def step (s : CqSystem) : CqLabel → Option CqSystem
  | .post entry => s.post entry
  | .enter => s.enter
  | .turn => s.turn
  | .initQueue => s.initQueue

/-- The ring contents against the lap number: the last `qDepth` postings are in
their slots, untouched slots are zero, and heads and tails sit where the number
of entries says. -/
structure Invariant (qDepth : Nat) (s : CqSystem) : Prop where
  depth : s.ring.qDepth = qDepth
  acked_le : s.acked ≤ s.handed.length
  handed_le : s.handed.length ≤ s.posted.length
  posted_le : s.posted.length ≤ s.acked + (qDepth - 1)
  tail : s.tail = s.posted.length % qDepth
  tailPhase : s.tailPhase = lapPhase qDepth s.posted.length
  head : s.ring.cqHead = s.acked % qDepth
  phase : s.ring.cqPhase = lapPhase qDepth s.acked
  idle : s.call = none → s.handed.length = s.acked
  inCall : ∀ call, s.call = some call →
    call.head = s.handed.length % qDepth ∧
      call.phase = lapPhase qDepth s.handed.length ∧
      s.handed.length = s.acked + call.taken
  written : ∀ count (posted : count < s.posted.length),
    s.posted.length ≤ count + qDepth →
      s.ring.cqes (count % qDepth) = s.posted[count] ∧
        s.stamp (count % qDepth) = some count
  untouched : ∀ slot, slot < qDepth → s.posted.length ≤ slot →
    (s.ring.cqes slot).phase = 0
  phases : ∀ count (posted : count < s.posted.length),
    (s.posted[count]).phase = lapPhase qDepth count
  stamps : s.handed.map Prod.fst = (List.range s.handed.length).map some
  entries : s.handed.map Prod.snd = s.posted.take s.handed.length
  returned : ∀ result ∈ s.returns,
    (result.value = 0 ∧ result.doorbell = none ∧ result.taken = 0) ∨
      (result.value = 1 ∧ result.doorbell.isSome ∧ 0 < result.taken)

namespace Invariant

variable {qDepth : Nat} {s t : CqSystem} {call : CqCall}

theorem start (deep : 2 ≤ qDepth) :
    Invariant qDepth (CqSystem.start qDepth) where
  depth := rfl
  acked_le := Nat.le_refl _
  handed_le := Nat.le_refl _
  posted_le := Nat.zero_le _
  tail := (Nat.zero_mod _).symm
  tailPhase := (lapPhase_zero (by simpa [CqSystem.start] using by omega)).symm
  head := (Nat.zero_mod _).symm
  phase := (lapPhase_zero (by simpa [CqSystem.start] using by omega)).symm
  idle := fun _ => rfl
  inCall := fun _ active => by simp [CqSystem.start] at active
  written := fun _ posted => by simp [CqSystem.start] at posted
  untouched := fun _ _ _ => rfl
  phases := fun _ posted => by simp [CqSystem.start] at posted
  stamps := rfl
  entries := rfl
  returned := fun _ member => by simp [CqSystem.start] at member

theorem fresh_iff (deep : 2 ≤ qDepth) (inv : Invariant qDepth s) :
    (s.ring.cqes (s.handed.length % qDepth)).phase =
        lapPhase qDepth s.handed.length ↔
      s.handed.length < s.posted.length := by
  have ackedLe := inv.acked_le
  have handedLe := inv.handed_le
  have postedLe := inv.posted_le
  constructor
  · intro fresh
    by_contra caughtUp
    have level : s.handed.length = s.posted.length := by omega
    rw [level] at fresh
    by_cases firstLap : s.posted.length < qDepth
    · -- nothing was ever written there
      rw [Nat.mod_eq_of_lt firstLap, lapPhase_zero firstLap,
        inv.untouched _ firstLap (Nat.le_refl _)] at fresh
      cases fresh
    · -- the entry a whole lap back has the inverted phase
      obtain ⟨back, lapBack⟩ : ∃ back, s.posted.length = back + qDepth :=
        ⟨s.posted.length - qDepth, by omega⟩
      have old := inv.written back (by omega) (by omega)
      have oldPhase := inv.phases back (by omega)
      have bit := lapPhase_lt qDepth back
      rw [lapBack, Nat.add_mod_right, old.1, oldPhase,
        lapPhase_add_depth (by omega)] at fresh
      omega
  · intro waiting
    have entry := inv.written s.handed.length waiting (by omega)
    rw [entry.1, inv.phases _ waiting]

theorem post (deep : 2 ≤ qDepth) (inv : Invariant qDepth s)
    {entry : NvmeCompletion} (taken : s.post entry = some t) :
    Invariant qDepth t := by
  have positive : 0 < qDepth := by omega
  simp only [CqSystem.post, inv.depth] at taken
  split at taken
  next room =>
      cases taken
      have ackedLe := inv.acked_le
      have handedLe := inv.handed_le
      have bit : s.tailPhase < 2 := by
        rw [inv.tailPhase]
        exact lapPhase_lt _ _
      refine {
        depth := rfl
        acked_le := inv.acked_le
        handed_le := by simpa using by omega
        posted_le := by simpa using by omega
        tail := ?_
        tailPhase := ?_
        head := inv.head
        phase := inv.phase
        idle := inv.idle
        inCall := inv.inCall
        written := ?_
        untouched := ?_
        phases := ?_
        stamps := inv.stamps
        entries := ?_
        returned := inv.returned }
      · rw [inv.tail, advance_mod positive]
        simp
      · simp only [List.length_append, List.length_singleton]
        rw [lapPhase_succ positive, inv.tail, inv.tailPhase]
      · intro count posted recent
        simp only [List.length_append, List.length_singleton] at posted recent
        by_cases last : count = s.posted.length
        · subst last
          simp [inv.tail]
        · have earlier : count < s.posted.length := by omega
          have elsewhere : count % qDepth ≠ s.tail := by
            rw [inv.tail]
            intro same
            have := mod_inj_of_lt (by omega) (by omega) same
            omega
          have kept := inv.written count earlier (by omega)
          simpa [Function.update_of_ne elsewhere,
            List.getElem_append_left earlier] using kept
      · intro slot inRing beyond
        simp only [List.length_append, List.length_singleton] at beyond
        have elsewhere : slot ≠ s.tail := by
          rw [inv.tail, Nat.mod_eq_of_lt (by omega)]
          omega
        simpa [Function.update_of_ne elsewhere] using
          inv.untouched slot inRing (by omega)
      · intro count posted
        simp only [List.length_append, List.length_singleton] at posted
        by_cases last : count = s.posted.length
        · subst last
          simp only [List.getElem_concat_length]
          rw [NvmeCompletion.phase_withPhase _ bit, inv.tailPhase]
        · have earlier : count < s.posted.length := by omega
          simpa [List.getElem_append_left earlier] using
            inv.phases count earlier
      · simpa [List.take_append_of_le_length handedLe] using inv.entries
  next => cases taken

theorem enter (inv : Invariant qDepth s) (taken : s.enter = some t) :
    Invariant qDepth t := by
  unfold CqSystem.enter at taken
  cases active : s.call with
  | some call => simp [active] at taken
  | none =>
      simp only [active, Option.some.injEq] at taken
      subst t
      have level := inv.idle active
      exact { inv with
        idle := fun none => by cases none
        inCall := by
          intro call entered
          cases entered
          exact ⟨by rw [level]; exact inv.head, by rw [level]; exact inv.phase,
            level⟩ }

theorem take (inv : Invariant qDepth s) (deep : 2 ≤ qDepth)
    (active : s.call = some call)
    (fresh : (s.ring.cqes call.head).phase = call.phase) :
    Invariant qDepth (s.take call) := by
  obtain ⟨atHead, atPhase, count⟩ := inv.inCall call active
  have waiting : s.handed.length < s.posted.length := by
    rw [atHead, atPhase] at fresh
    exact (inv.fresh_iff deep).mp fresh
  have ackedLe := inv.acked_le
  have postedLe := inv.posted_le
  have entry := inv.written s.handed.length waiting (by omega)
  refine { inv with
    acked_le := by simpa [CqSystem.take] using by omega
    handed_le := by simpa [CqSystem.take] using by omega
    idle := fun none => by simp [CqSystem.take] at none
    inCall := ?_
    stamps := ?_
    entries := ?_ }
  · intro next isNext
    simp only [CqSystem.take, Option.some.injEq] at isNext
    subst next
    simp only [CqSystem.take, List.length_append, List.length_singleton]
    refine ⟨?_, ?_, by omega⟩
    · rw [atHead, inv.depth, advance_mod (by omega)]
    · rw [lapPhase_succ (by omega), atHead, atPhase, inv.depth]
  · simp only [CqSystem.take, List.map_append, List.map_cons, List.map_nil,
      List.length_append, List.length_singleton, List.range_succ]
    rw [inv.stamps, atHead, entry.2]
  · simp only [CqSystem.take, List.map_append, List.map_cons, List.map_nil,
      List.length_append, List.length_singleton]
    rw [inv.entries, atHead, entry.1]
    exact List.take_concat_get' _ _ waiting

theorem unmoved_iff (inv : Invariant qDepth s) (deep : 2 ≤ qDepth)
    (active : s.call = some call) :
    (call.head = s.ring.cqHead ∧ call.phase = s.ring.cqPhase) ↔
      call.taken = 0 := by
  obtain ⟨atHead, atPhase, count⟩ := inv.inCall call active
  have handedLe := inv.handed_le
  have postedLe := inv.posted_le
  rw [atHead, atPhase, inv.head, inv.phase]
  constructor
  · rintro ⟨sameSlot, _⟩
    have := mod_inj_of_lt inv.acked_le (by omega) sameSlot.symm
    omega
  · intro none
    rw [count, none]
    exact ⟨rfl, rfl⟩

theorem leave (inv : Invariant qDepth s) (deep : 2 ≤ qDepth)
    (active : s.call = some call) : Invariant qDepth (s.leave call) := by
  obtain ⟨atHead, atPhase, count⟩ := inv.inCall call active
  have handedLe := inv.handed_le
  have postedLe := inv.posted_le
  have ackedLe := inv.acked_le
  unfold CqSystem.leave
  split
  next unmoved =>
      have noneTaken := (inv.unmoved_iff deep active).mp unmoved
      exact { inv with
        idle := fun _ => by rw [count, noneTaken, Nat.add_zero]
        inCall := fun _ absent => by cases absent
        returned := by
          intro result member
          rcases List.mem_append.mp member with old | new
          · exact inv.returned result old
          · rw [List.mem_singleton.mp new]
            exact .inl ⟨rfl, rfl, noneTaken⟩ }
  next moved =>
      have someTaken : 0 < call.taken := by
        rw [inv.unmoved_iff deep active] at moved
        omega
      exact { inv with
        acked_le := Nat.le_refl _
        posted_le := by simpa using by omega
        head := atHead
        phase := atPhase
        idle := fun _ => rfl
        inCall := fun _ absent => by cases absent
        returned := by
          intro result member
          rcases List.mem_append.mp member with old | new
          · exact inv.returned result old
          · rw [List.mem_singleton.mp new]
            exact .inr ⟨rfl, rfl, someTaken⟩ }

theorem turn (inv : Invariant qDepth s) (deep : 2 ≤ qDepth)
    (taken : s.turn = some t) : Invariant qDepth t := by
  unfold CqSystem.turn at taken
  cases active : s.call with
  | none => simp [active] at taken
  | some call =>
      simp only [active] at taken
      split at taken
      next fresh =>
          cases taken
          exact inv.take deep active fresh
      next =>
          cases taken
          exact inv.leave deep active

theorem initQueue (inv : Invariant qDepth s) (deep : 2 ≤ qDepth)
    (taken : s.initQueue = some t) : Invariant qDepth t := by
  unfold CqSystem.initQueue at taken
  cases active : s.call with
  | some call => simp [active] at taken
  | none =>
      simp only [active, Option.some.injEq] at taken
      subst t
      have base := Invariant.start deep
      exact { base with
        depth := inv.depth
        idle := fun _ => rfl
        inCall := by simp
        written := by simp
        phases := by simp
        untouched := by
          intro slot inRing _
          simp [nvmeInitQueue, inv.depth, inRing]
        returned := inv.returned }

theorem step (deep : 2 ≤ qDepth) {label : CqLabel} (inv : Invariant qDepth s)
    (taken : s.step label = some t) : Invariant qDepth t := by
  cases label with
  | post entry => exact inv.post deep taken
  | enter => exact inv.enter taken
  | turn => exact inv.turn deep taken
  | initQueue => exact inv.initQueue deep taken

theorem of_reach (deep : 2 ≤ qDepth)
    (reach : Reach CqSystem.step anyStep (CqSystem.start qDepth) s) :
    Invariant qDepth s :=
  reach.invariant (start deep) fun inv _ taken => step deep inv taken

/-- A look at the ring hands over one entry more, or finds that all that is
posted has been handed over and ends the call. -/
theorem look (inv : Invariant qDepth s) (deep : 2 ≤ qDepth)
    (taken : s.turn = some t) :
    (t.call ≠ none ∧ t.handed.length = s.handed.length + 1) ∨
      (t.call = none ∧ t.handed.map Prod.snd = t.posted) := by
  unfold CqSystem.turn at taken
  cases active : s.call with
  | none => simp [active] at taken
  | some call =>
      obtain ⟨atHead, atPhase, _⟩ := inv.inCall call active
      have freshIff := inv.fresh_iff deep
      rw [← atHead, ← atPhase] at freshIff
      simp only [active] at taken
      split at taken
      next =>
          cases taken
          exact .inl ⟨nofun, List.length_append⟩
      next stale =>
          cases taken
          have all : s.handed.map Prod.snd = s.posted := by
            rw [inv.entries]
            apply List.take_of_length_le
            rw [freshIff] at stale
            omega
          right
          unfold CqSystem.leave
          split
          next => exact ⟨rfl, all⟩
          next => exact ⟨rfl, all⟩

theorem taken_lt (inv : Invariant qDepth s) (deep : 2 ≤ qDepth)
    (active : s.call = some call) : call.taken < qDepth := by
  have count := (inv.inCall call active).2.2
  have handedLe := inv.handed_le
  have postedLe := inv.posted_le
  omega

end Invariant

def CqLabel.isTurn : CqLabel → Bool
  | .turn => true
  | _ => false

theorem returns_length_le_step {s t : CqSystem} {label : CqLabel}
    (taken : s.step label = some t) :
    s.returns.length ≤ t.returns.length := by
  cases label with
  | post entry =>
      simp only [step, post] at taken
      split at taken <;> cases taken
      exact Nat.le_refl _
  | enter =>
      simp only [step, enter] at taken
      split at taken <;> cases taken
      exact Nat.le_refl _
  | turn =>
      simp only [step, turn] at taken
      split at taken
      · cases taken
      · split at taken <;> cases taken
        · exact Nat.le_refl _
        · unfold leave
          split <;> simp
  | initQueue =>
      simp only [step, initQueue] at taken
      split at taken <;> cases taken
      exact Nat.le_refl _

theorem returns_length_le_run {s t : CqSystem} {labels : List CqLabel}
    (ran : runSteps step s labels = some t) :
    s.returns.length ≤ t.returns.length := by
  induction labels generalizing s with
  | nil =>
      cases ran
      exact Nat.le_refl _
  | cons label rest induction =>
      simp only [runSteps] at ran
      cases taken : s.step label with
      | none => simp [taken] at ran
      | some following =>
          rw [taken] at ran
          exact Nat.le_trans (returns_length_le_step taken) (induction ran)

theorem returns_within {qDepth : Nat} (deep : 2 ≤ qDepth) {s t : CqSystem}
    {call : CqCall} {labels : List CqLabel} (inv : Invariant qDepth s)
    (active : s.call = some call) (ran : runSteps step s labels = some t)
    (enough : qDepth - call.taken ≤ (labels.filter CqLabel.isTurn).length) :
    s.returns.length < t.returns.length := by
  induction labels generalizing s call with
  | nil =>
      have := inv.taken_lt deep active
      simp at enough
      omega
  | cons label rest induction =>
      simp only [runSteps] at ran
      cases taken : s.step label with
      | none => simp [taken] at ran
      | some following =>
          rw [taken] at ran
          have kept := Invariant.step deep inv taken
          cases label with
          | post entry =>
              have same : following.call = some call ∧
                  following.returns = s.returns := by
                simp only [step, post] at taken
                split at taken <;> cases taken
                exact ⟨active, rfl⟩
              rw [← same.2]
              exact induction kept same.1 ran
                (by simpa [CqLabel.isTurn] using enough)
          | enter => simp [step, enter, active] at taken
          | initQueue => simp [step, initQueue, active] at taken
          | turn =>
              simp only [step, turn, active] at taken
              split at taken <;> cases taken
              · have left : qDepth - (call.taken + 1) ≤
                    (rest.filter CqLabel.isTurn).length := by
                  rw [List.filter_cons_of_pos rfl, List.length_cons] at enough
                  omega
                exact induction kept (s := s.take call) rfl ran left
              · have grew : s.returns.length <
                    (s.leave call).returns.length := by
                  unfold leave
                  split <;> simp
                exact Nat.lt_of_lt_of_le grew (returns_length_le_run ran)

def wrapLabels : List CqLabel :=
  [.post ⟨0, 1, 1, 5, 0⟩, .enter, .turn, .turn,
    .post ⟨0, 2, 1, 6, 0⟩, .enter, .turn, .turn,
    .post ⟨0, 3, 1, 7, 4⟩, .enter, .turn]

end CqSystem

end Chario.Queue
