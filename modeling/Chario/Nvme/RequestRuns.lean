import Mathlib.Data.Multiset.Replicate
import Chario.Library.Transition
import Chario.Nvme.BlockRequest

namespace Chario.Nvme

open Chario.Library

/-! The requests of a queue over whole runs: attempts that fail, completions
that put a request back, cancellations and new requests under old tags. -/

inductive RqPhase
  | waiting
  | inFlight (iod : RqIod)
  | ended (errors : Int)
deriving DecidableEq, Repr

/-- The requests by tag and what has been done for each.  `leaks` counts the
attempts that ended in the step for the integrity payload. -/
structure RqQueue where
  request : Nat → Request
  phase : Nat → RqPhase
  log : List (Nat × Custody Resource)
  leaks : Nat → Nat
  accepted : Nat → Nat
  finished : Nat → Nat

inductive RqLabel
  | start (tag : Nat) (req : Request)
  | queue (tag : Nat) (kernel : RqKernel)
  | complete (tag status : Nat) (inTime : Bool)
  | cancel (tag : Nat) (dying inTime : Bool)

def RqQueue.start (request : Nat → Request) : RqQueue where
  request := request
  phase _ := .ended 0
  log := []
  leaks _ := 0
  accepted _ := 0
  finished _ := 0

def tagged (tag : Nat) (log : List (Custody Resource)) :
    List (Nat × Custody Resource) :=
  log.map (Prod.mk tag)

def tagLog (tag : Nat) (log : List (Nat × Custody Resource)) :
    List (Custody Resource) :=
  log.filterMap fun event => if event.1 = tag then some event.2 else none

/-- The tags from this one on are looked up among the requests when an I/O queue
reports them. -/
def firstBlkTag : Nat := 32

section Steps

variable (pageSize : Nat) (ns : NvmeNs) (piType : ProtectionType)

def RqOutcome.phase : RqOutcome → RqPhase
  | .refused errors => .ended errors
  | .failed .busy | .failed .bug => .waiting
  | .failed .error => .ended (-eio)
  | .queued iod _ => .inFlight iod

/-- The error left the mapping of the data behind. -/
def RqOutcome.leaks (kernel : RqKernel) (outcome : RqOutcome) : Bool :=
  decide (outcome = .failed .error ∧ kernel.blkRqMapSg ≠ [])

def RqQueue.attempt (s : RqQueue) (tag : Nat) (kernel : RqKernel) :
    Option RqQueue :=
  let (outcome, log) := nvmeQueueRq pageSize kernel ns piType (s.request tag)
  if outcome = .failed .bug then none
  else some
    { s with
      phase := Function.update s.phase tag outcome.phase
      log := s.log ++ tagged tag log
      leaks := Function.update s.leaks tag
        (s.leaks tag + (outcome.leaks kernel).toNat)
      accepted := Function.update s.accepted tag
        (s.accepted tag + (match outcome with
          | .queued _ _ => 1
          | _ => 0)) }

def RqEnd.phase : RqEnd → RqPhase
  | .requeued => .waiting
  | .completed errors => .ended errors

/-- The handler of the request, when the request has one; a second completion
finds `special_completion` in its place.  The handler ends before a request that
it puts back is queued again, so that what it releases is still that of this
attempt. -/
def RqQueue.finish (s : RqQueue) (tag status : Nat) (inTime : Bool) : RqQueue :=
  match s.phase tag with
  | .inFlight iod =>
      let (ending, log) :=
        reqCompletion pageSize (s.request tag) iod status inTime
      { s with
        phase := Function.update s.phase tag ending.phase
        log := s.log ++ tagged tag log
        finished := Function.update s.finished tag (s.finished tag + 1) }
  | _ => s

def RqQueue.step (s : RqQueue) : RqLabel → Option RqQueue
  | .start tag req =>
      match s.phase tag with
      | .ended _ =>
          some
            { s with
              request := Function.update s.request tag req
              phase := Function.update s.phase tag .waiting }
      | _ => none
  | .queue tag kernel =>
      if s.phase tag = .waiting then
        s.attempt pageSize ns piType tag kernel
      else none
  | .complete tag status inTime =>
      if tag < firstBlkTag then
        none
      else some (s.finish pageSize tag status inTime)
  | .cancel tag dying inTime =>
      some (s.finish pageSize tag (cancelStatus dying) inTime)

end Steps

def mapsRequests (s : RqQueue) : RqLabel → Prop
  | .queue tag kernel => kernel.Maps (s.request tag)
  | _ => True

def heldBy (pageSize : Nat) (req : Request) : RqPhase → List Resource
  | .inFlight iod => rqGiven pageSize req iod
  | _ => []

section Attempts

variable {kernel : RqKernel} {req : Request}

theorem PrpEnd.freedLists_eq {pools : PrpPools} {pages : List Nat}
    {totalLen ret npages : Int} {prp1 prp2 : Option Nat} {lists : List PrpBlock}
    (ended : PrpEnd pools pages totalLen ret prp2 npages lists) :
    freedLists pageBytes ⟨prp1, prp2, npages, lists⟩ =
      listBlocksOf pools pages.length lists := by
  have freed := @PrpEnd.freed _ _ _ _ _ prp1 _ _ ended
  have same := List.map_injective_iff.mpr
    (fun _ _ => Custody.release.inj) freed
  exact List.append_cancel_right same

inductive MappingEnds (kernel : RqKernel) (req : Request)
    (own : Multiset Resource) :
    Except RqFailure RqIod × List (Custody Resource) → Prop
  | mapped {iod : RqIod} {log : List (Custody Resource)}
      (turns : Exchanges own ↑(rqGiven pageBytes req iod) log) :
      MappingEnds kernel req own (.ok iod, log)
  | busy {log : List (Custody Resource)} (turns : Exchanges own 0 log) :
      MappingEnds kernel req own (.error .busy, log)
  | error {log : List (Custody Resource)}
      (turns : Exchanges own
        (if kernel.blkRqMapSg = [] then 0 else {.dmaMapping}) log) :
      MappingEnds kernel req own (.error .error, log)

theorem mapDiscard_ends (embedded : Bool) :
    MappingEnds kernel req ↑(iodMemory embedded)
      (mapDiscard kernel embedded) := by
  unfold mapDiscard
  split
  next => exact .busy (Exchanges.releaseAll _)
  next dma _ => exact .mapped (Exchanges.acquires _ _)

theorem mapIntegrity_ends {iod : RqIod} (some : kernel.blkRqMapSg ≠ [])
    (count : iod.nents ≠ 0) :
    MappingEnds kernel req (.dmaMapping ::ₘ ↑(nvmeFreeRqIod pageBytes iod))
      (mapIntegrity pageBytes kernel req iod) := by
  have failed : Exchanges (.dmaMapping ::ₘ ↑(nvmeFreeRqIod pageBytes iod))
      (if kernel.blkRqMapSg = [] then 0 else {.dmaMapping})
      (releases (nvmeFreeRqIod pageBytes iod)) := by
    rw [if_neg some, ← Multiset.singleton_add, Multiset.add_comm]
    exact Exchanges.releases _ _
  unfold mapIntegrity
  split
  next none =>
      refine .mapped ?_
      rw [rqGiven, if_pos count, none]
      exact Exchanges.nil _
  next isIntegrity =>
  split
  next => exact .error failed
  split
  next => exact .error failed
  split
  next => exact .error failed
  next dma _ =>
      refine .mapped ?_
      have turns := Exchanges.acquires
        (.dmaMapping ::ₘ ↑(nvmeFreeRqIod pageBytes iod)) [Resource.metadata dma]
      rw [rqGiven, if_pos count, if_pos (Bool.not_eq_false _ ▸ isIntegrity)]
      have same : ((([.dmaMapping, .metadata dma] : List Resource) ++
          nvmeFreeRqIod pageBytes iod : List Resource) : Multiset Resource) =
          ([.metadata dma] : List Resource) +
            (.dmaMapping ::ₘ
              (nvmeFreeRqIod pageBytes iod : Multiset Resource)) := by
        rw [List.cons_append, List.singleton_append, ← Multiset.cons_coe,
          ← Multiset.cons_coe, Multiset.cons_swap, Multiset.coe_singleton,
          Multiset.singleton_add]
      exact same ▸ turns

theorem mapData_ends (maps : kernel.Maps req) (embedded : Bool) :
    MappingEnds kernel req ↑(iodMemory embedded)
      (mapData pageBytes kernel req embedded) := by
  unfold mapData
  split
  next none =>
      refine .error ?_
      rw [if_pos none]
      exact Exchanges.releaseAll _
  next some =>
  split
  next => exact .busy (Exchanges.releaseAll _)
  next sg isMapped =>
  obtain ⟨nonempty, table, total⟩ := maps sg isMapped
  obtain ⟨first, rest, rfl⟩ := List.exists_cons_of_ne_nil nonempty
  obtain ⟨pages, after, -⟩ := table.afterFirst (le_of_eq total.symm)
  obtain ⟨ret, npages, lists, prp2, ran, ended⟩ :=
    nvmeSetupPrps_ends kernel.pools after
  have freed :=
    @PrpEnd.freedLists_eq _ _ _ _ _ (Option.some first.address) _ _ ended
  rw [after.length_eq] at freed
  have blocks := nvmeSetupPrpsLog_eq ran
  rw [head_cast] at blocks
  rw [ran]
  dsimp only [List.head?_cons, Option.map_some]
  rw [blocks]
  -- what the attempt has in hand once the lists are built
  have taken : Exchanges ↑(iodMemory embedded)
      (.dmaMapping ::ₘ
        ↑(nvmeFreeRqIod pageBytes ⟨embedded, kernel.blkRqMapSg.length,
        ⟨Option.some first.address, prp2, npages, lists⟩, none⟩))
      (acquires (.dmaMapping :: listBlocksOf kernel.pools (nprps pageBytes
        ((req.bytes : Int) - (pageBytes - first.address % pageBytes : Nat)))
          lists)) := by
    have turns := Exchanges.acquires (iodMemory embedded : Multiset Resource)
      (.dmaMapping :: listBlocksOf kernel.pools (nprps pageBytes
        ((req.bytes : Int) - (pageBytes - first.address % pageBytes : Nat)))
          lists)
    rw [nvmeFreeRqIod, freed, ← Multiset.coe_add, ← Multiset.cons_add,
      Multiset.cons_coe]
    exact turns
  split
  next =>
      refine .busy (taken.append ?_)
      exact Exchanges.releaseAll (Resource.dmaMapping :: _)
  next =>
    have rest :=
      @mapIntegrity_ends kernel req ⟨embedded, kernel.blkRqMapSg.length,
      ⟨Option.some first.address, prp2, npages, lists⟩, none⟩ some
      (mt List.length_eq_zero_iff.mp some)
    generalize mapIntegrity pageBytes kernel req _ = ending at rest
    cases rest with
    | mapped turns => exact .mapped (taken.append turns)
    | busy turns => exact .busy (taken.append turns)
    | error turns => exact .error (taken.append turns)

def RqOutcome.kept (kernel : RqKernel) (req : Request) (outcome : RqOutcome) :
    Multiset Resource :=
  (heldBy pageBytes req outcome.phase : Multiset Resource) +
    Multiset.replicate (outcome.leaks kernel).toNat .dmaMapping

theorem RqOutcome.kept_refused (errors : Int) :
    (RqOutcome.refused errors).kept kernel req = 0 := by
  simp [RqOutcome.kept, RqOutcome.leaks, RqOutcome.phase, heldBy]

theorem RqOutcome.kept_busy : (RqOutcome.failed .busy).kept kernel req = 0 := by
  simp [RqOutcome.kept, RqOutcome.leaks, RqOutcome.phase, heldBy]

theorem RqOutcome.kept_error : (RqOutcome.failed .error).kept kernel req =
    if kernel.blkRqMapSg = [] then 0 else {.dmaMapping} := by
  by_cases none : kernel.blkRqMapSg = []
  · simp [RqOutcome.kept, RqOutcome.leaks, RqOutcome.phase, heldBy, none]
  · simp [RqOutcome.kept, RqOutcome.leaks, RqOutcome.phase, heldBy, none]

theorem RqOutcome.kept_queued (iod : RqIod) (command : RqCommand) :
    (RqOutcome.queued iod command).kept kernel req =
      ↑(rqGiven pageBytes req iod) := by
  simp [RqOutcome.kept, RqOutcome.leaks, RqOutcome.phase, heldBy]

/-- An attempt keeps what the completion of the request will give back, and else
nothing but the mapping that an error in the integrity step leaves behind. -/
theorem nvmeQueueRq_exchanges (maps : kernel.Maps req) (ns : NvmeNs)
    (piType : ProtectionType) :
    (nvmeQueueRq pageBytes kernel ns piType req).1 ≠ .failed .bug ∧
      Exchanges 0
        ((nvmeQueueRq pageBytes kernel ns piType req).1.kept kernel req)
        (nvmeQueueRq pageBytes kernel ns piType req).2 := by
  have ends : MappingEnds kernel req ↑(iodMemory (embeds pageBytes req))
      (if req.discard then mapDiscard kernel (embeds pageBytes req)
      else if req.nrPhysSegments ≠ 0 then
        mapData pageBytes kernel req (embeds pageBytes req)
      else (.ok ⟨embeds pageBytes req, 0, emptyPrps, none⟩, [])) := by
    split
    next => exact mapDiscard_ends _
    split
    next => exact mapData_ends maps _
    next => exact .mapped (Exchanges.nil _)
  have memory := Exchanges.acquires (0 : Multiset Resource)
    (iodMemory (embeds pageBytes req))
  rw [Multiset.add_zero] at memory
  unfold nvmeQueueRq
  split
  next =>
      rw [RqOutcome.kept_refused]
      exact ⟨by simp, Exchanges.nil 0⟩
  split
  next =>
      rw [RqOutcome.kept_busy]
      exact ⟨by simp, Exchanges.nil 0⟩
  dsimp only
  generalize (if req.discard then mapDiscard kernel (embeds pageBytes req)
    else if req.nrPhysSegments ≠ 0 then
      mapData pageBytes kernel req (embeds pageBytes req)
    else (.ok ⟨embeds pageBytes req, 0, emptyPrps, none⟩, [])) =
      ending at ends ⊢
  cases ends with
  | mapped turns =>
      refine ⟨by simp, ?_⟩
      dsimp only
      rw [RqOutcome.kept_queued]
      exact memory.append turns
  | busy turns =>
      refine ⟨by simp, ?_⟩
      dsimp only
      rw [RqOutcome.kept_busy]
      exact memory.append turns
  | error turns =>
      refine ⟨by simp, ?_⟩
      dsimp only
      rw [RqOutcome.kept_error]
      exact memory.append turns

end Attempts

section Runs

variable {ns : NvmeNs} {piType : ProtectionType} {s s' : RqQueue}

theorem tagLog_append (tag : Nat) (log later : List (Nat × Custody Resource)) :
    tagLog tag (log ++ later) = tagLog tag log ++ tagLog tag later :=
  List.filterMap_append

theorem tagLog_tagged (tag other : Nat) (log : List (Custody Resource)) :
    tagLog tag (tagged other log) = if other = tag then log else [] := by
  unfold tagLog tagged
  rw [List.filterMap_map]
  by_cases same : other = tag
  · simp [same]
  · simp [same]

structure RqLedger (s : RqQueue) (tag : Nat) : Prop where
  held : replay 0 (tagLog tag s.log) =
    some ((heldBy pageBytes (s.request tag) (s.phase tag) : Multiset Resource) +
      Multiset.replicate (s.leaks tag) .dmaMapping)
  once : s.accepted tag = s.finished tag +
    (match s.phase tag with
      | .inFlight _ => 1
      | _ => 0)

theorem RqLedger.frame {tag : Nat} (ledger : RqLedger s tag)
    (log : tagLog tag s'.log = tagLog tag s.log)
    (request : s'.request tag = s.request tag)
    (phase : s'.phase tag = s.phase tag) (leaks : s'.leaks tag = s.leaks tag)
    (accepted : s'.accepted tag = s.accepted tag)
    (finished : s'.finished tag = s.finished tag) : RqLedger s' tag := by
  refine ⟨?_, ?_⟩
  · rw [log, request, phase, leaks]
    exact ledger.held
  · rw [accepted, finished, phase]
    exact ledger.once

theorem tagLog_other {tag other : Nat} (apart : tag ≠ other)
    (log : List (Nat × Custody Resource)) (more : List (Custody Resource)) :
    tagLog other (log ++ tagged tag more) = tagLog other log := by
  rw [tagLog_append, tagLog_tagged, if_neg apart, List.append_nil]

theorem tagLog_own (tag : Nat) (log : List (Nat × Custody Resource))
    (more : List (Custody Resource)) :
    tagLog tag (log ++ tagged tag more) = tagLog tag log ++ more := by
  rw [tagLog_append, tagLog_tagged, if_pos rfl]

theorem ledger_attempt {tag : Nat} {kernel : RqKernel}
    (maps : kernel.Maps (s.request tag)) (waiting : s.phase tag = .waiting)
    (taken : s.attempt pageBytes ns piType tag kernel = some s')
    (ledger : ∀ tag, RqLedger s tag) : ∀ tag, RqLedger s' tag := by
  obtain ⟨notBug, turns⟩ := nvmeQueueRq_exchanges maps ns piType
  unfold RqQueue.attempt at taken
  dsimp only at taken
  rw [if_neg notBug] at taken
  cases taken
  intro other
  by_cases same : tag = other
  · subst same
    obtain ⟨held, once⟩ := ledger tag
    rw [waiting] at held once
    have after := turns (Multiset.replicate (s.leaks tag) .dmaMapping)
    refine ⟨?_, ?_⟩
    · dsimp only
      rw [tagLog_own, replay_append, held, Option.bind_some,
        Function.update_self,
        Function.update_self]
      refine after.trans (congrArg some ?_)
      rw [RqOutcome.kept, Multiset.add_assoc, ← Multiset.replicate_add,
        Nat.add_comm (s.leaks tag)]
    · dsimp only
      rw [Function.update_self, Function.update_self, once]
      generalize (nvmeQueueRq pageBytes kernel ns piType (s.request tag)).1 =
        outcome
      cases outcome with
      | refused errors => rfl
      | failed failure => cases failure <;> rfl
      | queued iod command => rfl
  · refine (ledger other).frame (tagLog_other same _ _) rfl ?_ ?_ ?_ rfl
    all_goals exact Function.update_of_ne (Ne.symm same) _ _

theorem ledger_finish {tag status : Nat} {inTime : Bool}
    (ledger : ∀ tag, RqLedger s tag) :
    ∀ tag', RqLedger (s.finish pageBytes tag status inTime) tag' := by
  intro other
  unfold RqQueue.finish
  split
  next iod flying =>
      have given := Exchanges.releaseAll (rqGiven pageBytes (s.request tag) iod)
        (Multiset.replicate (s.leaks tag) .dmaMapping)
      dsimp only
      generalize (reqCompletion pageBytes (s.request tag) iod status inTime).1 =
        ending
      by_cases same : tag = other
      · subst same
        obtain ⟨held, once⟩ := ledger tag
        rw [flying] at held once
        refine ⟨?_, ?_⟩
        · dsimp only
          rw [tagLog_own, replay_append, held, Option.bind_some,
            Function.update_self]
          refine given.trans (congrArg some ?_)
          cases ending <;> rfl
        · dsimp only
          rw [Function.update_self, Function.update_self, once]
          cases ending <;> rfl
      · refine (ledger other).frame (tagLog_other same _ _) rfl ?_ rfl rfl ?_
        all_goals exact Function.update_of_ne (Ne.symm same) _ _
  next => exact ledger other

theorem ledger_start {tag : Nat} {req : Request}
    (taken : s.step pageBytes ns piType (.start tag req) = some s')
    (ledger : ∀ tag, RqLedger s tag) : ∀ tag, RqLedger s' tag := by
  unfold RqQueue.step at taken
  dsimp only at taken
  split at taken
  next errors isEnded =>
      cases taken
      intro other
      by_cases same : tag = other
      · subst same
        obtain ⟨held, once⟩ := ledger tag
        rw [isEnded] at held once
        refine ⟨?_, ?_⟩
        · dsimp only
          rw [Function.update_self, Function.update_self]
          exact held
        · dsimp only
          rw [Function.update_self]
          exact once
      · refine (ledger other).frame rfl ?_ ?_ rfl rfl rfl
        all_goals exact Function.update_of_ne (Ne.symm same) _ _
  next => cases taken

/-- Over every run of attempts, completions and cancellations, in whatever order
they come, nothing is released twice, each accepted attempt is finished once,
and all that is held is what the requests in flight give back later and the
mappings that errors in the integrity step left behind. -/
theorem requests_settle (request : Nat → Request)
    (reach :
      Reach (RqQueue.step pageBytes ns piType) mapsRequests (.start request) s)
    (tag : Nat) : RqLedger s tag := by
  refine @Reach.invariant _ _ _ _ _
    (fun s => ∀ tag, RqLedger s tag) ?_ ?_ _ reach tag
  · intro tag
    exact ⟨rfl, rfl⟩
  · intro current following label ledger allowed taken
    cases label with
    | start tag req => exact ledger_start taken ledger
    | queue tag kernel =>
        unfold RqQueue.step at taken
        dsimp only at taken
        split at taken
        next waiting => exact ledger_attempt allowed waiting taken ledger
        next => cases taken
    | complete tag status inTime =>
        unfold RqQueue.step at taken
        dsimp only at taken
        split at taken
        next => cases taken
        next =>
            cases taken
            exact ledger_finish ledger
    | cancel tag dying inTime =>
        cases taken
        exact ledger_finish ledger

/-- A write that is cancelled in time, and waits to be sent again. -/
theorem requests_settle_cancelled :
    ∃ s, Reach (RqQueue.step pageBytes (nvmeRevalidateDisk 1 12 0 false) .none)
        mapsRequests (.start fun _ => splitWrite) s ∧
      s.phase 40 = .waiting ∧ s.finished 40 = 1 ∧ RqLedger s 40 := by
  have maps : (RqKernel.plain splitTable).Maps splitWrite := by
    intro sg isMapped
    cases isMapped
    exact ⟨by decide, ⟨by decide, by decide, by decide⟩, by decide⟩
  have started :
      Reach (RqQueue.step pageBytes (nvmeRevalidateDisk 1 12 0 false) .none)
      mapsRequests (.start fun _ => splitWrite) _ :=
    .andThen .start (.start 40 splitWrite) trivial rfl
  have queued := started.andThen (.queue 40 (.plain splitTable)) maps rfl
  have cancelled := queued.andThen (.cancel 40 false true) trivial rfl
  exact ⟨_, cancelled, by decide, by decide, requests_settle _ cancelled 40⟩

end Runs

end Chario.Nvme
