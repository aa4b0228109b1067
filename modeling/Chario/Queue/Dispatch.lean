import Mathlib.Data.List.Basic
import Mathlib.Data.List.Nodup
import Mathlib.Data.List.Perm.Basic
import Mathlib.Data.List.Range
import Chario.Library.Transition
import Chario.Queue.Command
import Chario.Queue.Tags

namespace Chario.Queue

open Chario.Library

def Flight.mark (flight : Flight) (queue : NvmeQueue) : NvmeQueue :=
  if flight.fn = .chario then
    queue.setChario flight.commandId
      (queue.charioCmds flight.commandId).finish
  else
    queue.setRq flight.commandId (queue.rqCmds flight.commandId).finish

namespace TagSystem

structure Distinct (qDepth : Nat) (s : TagSystem) : Prop where
  ioQueue : s.queue.qid ≠ 0
  depth : s.queue.qDepth = qDepth
  account : TagAccount s.clients s.queue.nextCharioTag
    (min charioCmdCount qDepth)
  kinds : ∀ flight ∈ s.inFlight, flight.fn = .chario ∨ flight.fn = .sync
  ids : (s.inFlight.map Flight.commandId).Nodup
  owners : Owners s.clients s.inFlight s.remaining s.nextOwner
  chario : CharioTags s.clients s.inFlight s.queue.charioCmds
    s.queue.nextCharioTag
  blk : BlkTags s.blk s.inFlight s.queue.rqCmds s.synced s.nextOwner qDepth

structure Recorded (s : TagSystem) : Prop where
  handed : ∀ tag ∈ s.handed, tag < charioCmdCount
  delivered : ∀ delivery ∈ s.delivered,
    delivery.fn = delivery.flight.fn ∧ delivery.ctx = delivery.flight.ctx
  serials : (s.delivered.map (·.flight.serial) ++
    s.inFlight.map Flight.serial).Perm (List.range s.nextSerial)

namespace Distinct

variable {qDepth : Nat} {s t : TagSystem} {client tag : Nat}

theorem limit (distinct : Distinct qDepth s) :
    s.queue.nextCharioTag ≤ min charioCmdCount qDepth :=
  distinct.account.next_le distinct.owners.facts

theorem nvmeFinishCmd_inFlight (distinct : Distinct qDepth s)
    {flight : Flight} (member : flight ∈ s.inFlight) :
    s.queue.nvmeFinishCmd flight.commandId =
      ((flight.fn, flight.ctx), flight.mark s.queue) := by
  have depth := distinct.depth
  rcases distinct.kinds flight member with isChario | isSync
  · have below := distinct.chario.flying_lt flight member isChario
    have limit := distinct.limit
    rw [NvmeQueue.nvmeFinishCmd_chario distinct.ioQueue (by omega) (by omega),
      distinct.chario.flying_slot flight member isChario, Flight.mark,
      if_pos isChario, distinct.chario.flying_slot flight member isChario,
      isChario]
  · obtain ⟨owner, -, ctx, high, low, slot, -⟩ :=
      distinct.blk.flying flight member isSync
    rw [NvmeQueue.nvmeFinishCmd_rq (by omega) high, slot, Flight.mark,
      if_neg (by simp [isSync]), slot, isSync, ctx]
    rfl

theorem complete_eq_some (distinct : Distinct qDepth s) {flight : Flight}
    (taken : s.complete flight = some t) :
    flight ∈ s.inFlight ∧
      t = call
        { s with
          queue := flight.mark s.queue
          inFlight := s.inFlight.erase flight
          delivered := s.delivered ++ [⟨flight, flight.fn, flight.ctx⟩] }
        flight.fn flight.ctx := by
  unfold TagSystem.complete at taken
  split at taken
  next member =>
      simp only [distinct.nvmeFinishCmd_inFlight member,
        Option.some.injEq] at taken
      exact ⟨member, taken.symm⟩
  next => cases taken

theorem start : Distinct qDepth (TagSystem.start qDepth) where
  ioQueue := by simp [TagSystem.start, NvmeQueue.alloc]
  depth := rfl
  account := TagAccount.start
  kinds := by simp [TagSystem.start]
  ids := List.nodup_nil
  owners := Owners.start _
  chario := CharioTags.start _
  blk := BlkTags.start _ _

theorem begin (distinct : Distinct qDepth s) {nblocks : Nat}
    (room : s.HasRoom nblocks) (taken : s.begin client nblocks = some t) :
    Distinct qDepth t := by
  obtain ⟨position, rfl⟩ := begin_eq_some taken
  rw [HasRoom, distinct.depth] at room
  exact { distinct with
    account := distinct.account.begin position room
    owners := distinct.owners.begin position nblocks
    chario := distinct.chario.release client rfl
    blk := distinct.blk.refly (Nat.le_succ _) (fun _ member _ => member) }

theorem take (distinct : Distinct qDepth s) (taken : s.take client = some t) :
    Distinct qDepth t := by
  obtain ⟨request, position, rfl⟩ := take_eq_some taken
  have facts := distinct.owners.facts client
  rw [position] at facts
  exact { distinct with
    account := distinct.account.move 1 (by rw [position]; nofun) nofun
      (by rw [position]; rfl) (by rw [position]; rfl)
    owners := distinct.owners.move (by rw [position]; rfl) facts
    chario := distinct.chario.take request }

theorem register (distinct : Distinct qDepth s)
    (taken : s.register client = some t) : Distinct qDepth t := by
  obtain ⟨request, held, position, rfl⟩ := register_eq_some taken
  have facts := distinct.owners.facts client
  rw [position] at facts
  exact { distinct with
    account := distinct.account.move 0 (by rw [position]; nofun) nofun
      (by rw [position]; rfl) (by rw [position]; rfl)
    owners := distinct.owners.move (by rw [position]; rfl) facts
    chario := distinct.chario.register position }

theorem kinds_append (distinct : Distinct qDepth s) {flight : Flight}
    (kind : flight.fn = .chario ∨ flight.fn = .sync) :
    ∀ other ∈ s.inFlight ++ [flight], other.fn = .chario ∨
    other.fn = .sync := by
  intro other member
  rcases List.mem_append.mp member with old | new
  · exact distinct.kinds other old
  · rw [List.mem_singleton.mp new]
    exact kind

theorem ids_append (distinct : Distinct qDepth s) {flight : Flight}
    (isNew : ∀ other ∈ s.inFlight, other.commandId ≠ flight.commandId) :
    ((s.inFlight ++ [flight]).map Flight.commandId).Nodup := by
  rw [List.map_append, List.map_singleton, ← List.concat_eq_append]
  apply List.Nodup.concat _ distinct.ids
  intro member
  obtain ⟨other, inflight, same⟩ := List.mem_map.mp member
  exact isNew other inflight same

theorem mem_of_fn_ne {inFlight : List Flight} {flight other : Flight}
    (member : other ∈ inFlight ++ [flight]) (differs : other.fn ≠ flight.fn) :
    other ∈ inFlight := by
  rcases List.mem_append.mp member with old | new
  · exact old
  · rw [List.mem_singleton.mp new] at differs
    exact absurd rfl differs

theorem submit (distinct : Distinct qDepth s)
    (taken : s.submit client = some t) : Distinct qDepth t := by
  obtain ⟨request, held, position, rfl⟩ := submit_eq_some taken
  have holds : (s.clients client).tag? = some held := by
    rw [position]
    rfl
  have below := distinct.chario.held_lt client held holds
  have limit := distinct.limit
  -- the tag is far below the width of `command_id`
  have whole : held % 2 ^ 16 = held := by
    unfold charioCmdCount at limit
    omega
  rw [whole]
  refine { distinct with
    account := distinct.account.submit position
    kinds := distinct.kinds_append (.inl rfl)
    ids := distinct.ids_append ?_
    owners := distinct.owners.submit position
    chario := distinct.chario.submit position (by split <;> rfl)
    blk := distinct.blk.refly le_rfl ?_ }
  · intro flight inflight
    rcases distinct.kinds flight inflight with isChario | isSync
    · exact distinct.chario.apart client held holds flight inflight isChario
    · obtain ⟨_, _, _, high, _⟩ :=
        distinct.blk.flying flight inflight isSync
      simp only
      omega
  · intro flight member isSync
    exact mem_of_fn_ne member (by simp [isSync])

theorem finish (distinct : Distinct qDepth s) (woken : s.Woken client)
    (quiet : ∀ other, other ≠ client → s.Quiet other)
    (taken : s.finish client = some t) : Distinct qDepth t := by
  obtain ⟨request, position, rfl⟩ := finish_eq_some taken
  have owners := distinct.owners.finish position (woken request position)
  have unheld : ∀ other,
      (Function.update s.clients client .idle other).tag? = none := by
    intro other
    by_cases isClient : other = client
    · rw [isClient, Function.update_self]
      rfl
    · rw [Function.update_of_ne isClient]
      exact (quiet other isClient).1
  have unused : ∀ flight ∈ s.inFlight, flight.fn ≠ .chario := by
    intro flight member isChario
    obtain ⟨other, request', asked, same⟩ :=
      owners.owned flight member isChario
    have isClient : other ≠ client := by
      rintro rfl
      simp [Client.request?] at asked
    rw [Function.update_of_ne isClient] at asked
    have none := (quiet other isClient).2 request' asked
    exact List.countP_eq_zero.mp none flight member
      (by simp [Flight.isFor, isChario, same])
  exact { distinct with
    account := distinct.account.finish (by simp [position])
    owners := owners
    chario := (distinct.chario.release client rfl).reset unheld
      unused }

theorem blkRegister (distinct : Distinct qDepth s)
    (high : charioCmdCount ≤ tag) (taken : s.blkRegister tag = some t) :
    Distinct qDepth t := by
  obtain ⟨isFree, inSet, rfl⟩ := blkRegister_eq_some taken
  rw [distinct.depth] at inSet
  exact { distinct with
    owners := distinct.owners.refly (Nat.le_succ _)
      (fun _ member _ => member) (fun _ => rfl)
    blk := distinct.blk.register isFree inSet high }

theorem blkSubmit (distinct : Distinct qDepth s)
    (taken : s.blkSubmit tag = some t) : Distinct qDepth t := by
  obtain ⟨owner, isRegistered, rfl⟩ := blkSubmit_eq_some taken
  obtain ⟨high, -, -, -⟩ := distinct.blk.registered tag owner isRegistered
  have onlySync : ∀ flight ∈ s.inFlight ++
      [⟨s.nextSerial, tag, .sync, .ptr owner⟩],
      flight.fn = .chario → flight ∈ s.inFlight := by
    intro flight member isChario
    exact mem_of_fn_ne member (by simp [isChario])
  refine { distinct with
    kinds := distinct.kinds_append (.inr rfl)
    ids := distinct.ids_append ?_
    owners := distinct.owners.refly le_rfl onlySync ?_
    chario := distinct.chario.refly onlySync
    blk := distinct.blk.submit isRegistered }
  · intro flight inflight same
    simp only at same
    rcases distinct.kinds flight inflight with isChario | isSync
    · have below := distinct.chario.flying_lt flight inflight isChario
      have limit := distinct.limit
      omega
    · obtain ⟨_, isSubmitted, -⟩ :=
        distinct.blk.flying flight inflight isSync
      rw [same, isRegistered] at isSubmitted
      cases isSubmitted
  · intro other
    rw [owed_append]
    simp [Flight.isFor]

theorem blkFree (distinct : Distinct qDepth s)
    (woken : ∀ owner, s.blk tag = .submitted owner → owner ∈ s.synced)
    (taken : s.blkFree tag = some t) : Distinct qDepth t := by
  obtain ⟨owner, isSubmitted, rfl⟩ := blkFree_eq_some taken
  exact { distinct with
    blk := distinct.blk.free isSubmitted (woken owner isSubmitted) }

theorem complete (distinct : Distinct qDepth s) {flight : Flight}
    (taken : s.complete flight = some t) : Distinct qDepth t := by
  obtain ⟨member, rfl⟩ := distinct.complete_eq_some taken
  have fewerIds : ((s.inFlight.erase flight).map Flight.commandId).Nodup :=
    distinct.ids.sublist ((List.erase_sublist ..).map _)
  have fewerKinds : ∀ other ∈ s.inFlight.erase flight,
      other.fn = .chario ∨ other.fn = .sync := fun other still =>
    distinct.kinds other (List.mem_of_mem_erase still)
  rcases distinct.kinds flight member with isChario | isSync
  · obtain ⟨_, request, -, isPtr⟩ :=
      distinct.owners.owned flight member isChario
    have isFor : flight.isFor request.id := by
      simp [Flight.isFor, isChario, isPtr]
    rw [isChario, isPtr, Flight.mark, if_pos isChario]
    exact { distinct with
      kinds := fewerKinds
      ids := fewerIds
      owners := distinct.owners.complete member isFor
      chario := distinct.chario.complete distinct.ids member isChario _
      blk := distinct.blk.refly le_rfl
        (fun _ still _ => List.mem_of_mem_erase still) }
  · obtain ⟨owner, isSubmitted, isPtr, -⟩ :=
      distinct.blk.flying flight member isSync
    rw [isSync, isPtr, Flight.mark, if_neg (by simp [isSync])]
    have same : ∀ other, owed (s.inFlight.erase flight) other =
        owed s.inFlight other := by
      intro other
      rw [owed_erase member other]
      simp [Flight.isFor, isSync]
    exact { distinct with
      kinds := fewerKinds
      ids := fewerIds
      owners := distinct.owners.refly le_rfl
        (fun _ still _ => List.mem_of_mem_erase still) same
      chario := distinct.chario.refly
        (fun _ still _ => List.mem_of_mem_erase still)
      blk := distinct.blk.complete distinct.ids member isSubmitted _ }

theorem step (distinct : Distinct qDepth s) {label : TagLabel}
    (allowed : Guarded s label) (taken : s.step label = some t) :
    Distinct qDepth t := by
  cases label with
  | begin client nblocks => exact distinct.begin allowed taken
  | take client => exact distinct.take taken
  | register client => exact distinct.register taken
  | submit client => exact distinct.submit taken
  | finish client => exact distinct.finish allowed.1 allowed.2 taken
  | blkRegister tag => exact distinct.blkRegister allowed taken
  | blkSubmit tag => exact distinct.blkSubmit taken
  | blkFree tag => exact distinct.blkFree allowed taken
  | complete flight => exact distinct.complete taken

end Distinct

namespace Recorded

variable {qDepth : Nat} {s t : TagSystem}

theorem start (qDepth : Nat) : Recorded (TagSystem.start qDepth) where
  handed := by simp [TagSystem.start]
  delivered := by simp [TagSystem.start]
  serials := by simp [TagSystem.start]

theorem of_frame (recorded : Recorded s) (handed : t.handed = s.handed)
    (delivered : t.delivered = s.delivered) (inFlight : t.inFlight = s.inFlight)
    (serial : t.nextSerial = s.nextSerial) : Recorded t where
  handed := by
    rw [handed]
    exact recorded.handed
  delivered := by
    rw [delivered]
    exact recorded.delivered
  serials := by
    rw [delivered, inFlight, serial]
    exact recorded.serials

theorem launch (recorded : Recorded s) {flight : Flight}
    (isNext : flight.serial = s.nextSerial) (handed : t.handed = s.handed)
    (delivered : t.delivered = s.delivered)
    (inFlight : t.inFlight = s.inFlight ++ [flight])
    (serial : t.nextSerial = s.nextSerial + 1) : Recorded t where
  handed := by
    rw [handed]
    exact recorded.handed
  delivered := by
    rw [delivered]
    exact recorded.delivered
  serials := by
    rw [delivered, inFlight, serial, List.map_append, List.map_singleton,
      isNext, ← List.append_assoc, List.range_succ]
    exact recorded.serials.append_right _

theorem take (recorded : Recorded s) (distinct : Distinct qDepth s)
    {client : Nat} (taken : s.take client = some t) : Recorded t := by
  obtain ⟨request, position, rfl⟩ := take_eq_some taken
  have room := distinct.account.next_lt distinct.owners.facts position
  refine { recorded with handed := ?_ }
  intro tag member
  rcases List.mem_append.mp member with old | new
  · exact recorded.handed tag old
  · rw [List.mem_singleton.mp new]
    omega

theorem call_frame (s : TagSystem) (fn : CompletionFn) (ctx : CmdCtx) :
    (s.call fn ctx).handed = s.handed ∧
      (s.call fn ctx).delivered = s.delivered ∧
      (s.call fn ctx).inFlight = s.inFlight ∧
      (s.call fn ctx).nextSerial = s.nextSerial := by
  unfold TagSystem.call
  split <;> exact ⟨rfl, rfl, rfl, rfl⟩

theorem complete (recorded : Recorded s) (distinct : Distinct qDepth s)
    {flight : Flight} (taken : s.complete flight = some t) : Recorded t := by
  obtain ⟨member, rfl⟩ := distinct.complete_eq_some taken
  obtain ⟨handed, delivered, inFlight, serial⟩ := call_frame
    { s with
      queue := flight.mark s.queue
      inFlight := s.inFlight.erase flight
      delivered := s.delivered ++ [⟨flight, flight.fn, flight.ctx⟩] }
    flight.fn flight.ctx
  constructor
  · rw [handed]
    exact recorded.handed
  · rw [delivered]
    intro delivery found
    rcases List.mem_append.mp found with old | new
    · exact recorded.delivered delivery old
    · rw [List.mem_singleton.mp new]
      exact ⟨rfl, rfl⟩
  · rw [delivered, inFlight, serial, List.map_append, List.map_singleton,
      List.append_assoc, List.singleton_append, ← List.map_cons]
    have moved := (List.perm_cons_erase member).symm.map Flight.serial
    exact (moved.append_left _).trans recorded.serials

theorem step (recorded : Recorded s) (distinct : Distinct qDepth s)
    {label : TagLabel} (taken : s.step label = some t) : Recorded t := by
  cases label with
  | begin client nblocks =>
      obtain ⟨-, rfl⟩ := begin_eq_some taken
      exact recorded.of_frame rfl rfl rfl rfl
  | take client => exact recorded.take distinct taken
  | register client =>
      obtain ⟨request, held, -, rfl⟩ := register_eq_some taken
      exact recorded.of_frame rfl rfl rfl rfl
  | submit client =>
      obtain ⟨request, held, -, rfl⟩ := submit_eq_some taken
      exact recorded.launch rfl rfl rfl rfl rfl
  | finish client =>
      obtain ⟨request, -, rfl⟩ := finish_eq_some taken
      exact recorded.of_frame rfl rfl rfl rfl
  | blkRegister tag =>
      obtain ⟨-, -, rfl⟩ := blkRegister_eq_some taken
      exact recorded.of_frame rfl rfl rfl rfl
  | blkSubmit tag =>
      obtain ⟨owner, -, rfl⟩ := blkSubmit_eq_some taken
      exact recorded.launch rfl rfl rfl rfl rfl
  | blkFree tag =>
      obtain ⟨owner, -, rfl⟩ := blkFree_eq_some taken
      exact recorded.of_frame rfl rfl rfl rfl
  | complete flight => exact recorded.complete distinct taken

end Recorded

section Results

variable {qDepth : Nat} {s : TagSystem}

theorem distinct_of_reach
    (reach : Reach TagSystem.step Guarded (TagSystem.start qDepth) s) :
    Distinct qDepth s :=
  reach.invariant Distinct.start
    (fun distinct allowed taken => distinct.step allowed taken)

theorem recorded_of_reach
    (reach : Reach TagSystem.step Guarded (TagSystem.start qDepth) s) :
    Recorded s := by
  induction reach with
  | start => exact Recorded.start qDepth
  | next earlier _ taken recorded =>
      exact recorded.step (distinct_of_reach earlier) taken

/-- Tags fit `chario_cmds`, ids in flight differ, and every submission is
delivered to its own context once or is still in flight. -/
theorem chario_tags_unambiguous
    (reach : Reach TagSystem.step Guarded (TagSystem.start qDepth) s) :
    (s.inFlight.map Flight.commandId).Nodup ∧ Recorded s := by
  exact ⟨(distinct_of_reach reach).ids, recorded_of_reach reach⟩

/-- A completion is dispatched to the one submission in flight with its id, and
only that submission's slot is marked. -/
theorem completion_dispatched_to_owner
    (reach : Reach TagSystem.step Guarded (TagSystem.start qDepth) s)
    {flight : Flight} (member : flight ∈ s.inFlight) :
    (∀ other ∈ s.inFlight, other.commandId = flight.commandId →
        other = flight) ∧
      s.queue.nvmeFinishCmd flight.commandId =
        ((flight.fn, flight.ctx), flight.mark s.queue) := by
  have distinct := distinct_of_reach reach
  refine ⟨?_, distinct.nvmeFinishCmd_inFlight member⟩
  intro other inflight same
  exact List.inj_on_of_nodup_map distinct.ids inflight member same

end Results

/-- The steps that a guarded run checks nothing for. -/
def unchecked : TagLabel → Bool
  | .take _ | .register _ | .submit _ | .blkSubmit _ | .complete _ => true
  | _ => false

theorem guarded_of_unchecked {label : TagLabel} (free : unchecked label)
    (s : TagSystem) : Guarded s label := by
  cases label with
  | begin _ _ | finish _ | blkRegister _ | blkFree _ => cases free
  | _ => trivial

def afterLabels (labels : List TagLabel) : TagSystem :=
  (runSteps TagSystem.step (start 1024) labels).getD (start 1024)

theorem reach_of_unchecked {s t : TagSystem} (labels : List TagLabel)
    (free : labels.all unchecked)
    (ran : runSteps TagSystem.step s labels = some t) :
    Reach TagSystem.step Guarded s t := by
  refine Reach.of_allowed ?_ ran
  intro label member state
  exact guarded_of_unchecked (List.all_eq_true.mp free label member) state

/-- Two clients with two and three sub-commands, in turns.  The first ends its
request while the second has one to go on with, and begins another. -/
def twoClients : List TagLabel := [.begin 0 40, .begin 1 70]

def inTurns : List TagLabel :=
  [.take 0, .take 1, .register 1, .submit 1, .register 0, .submit 0,
    .take 0, .register 0, .submit 0,
    .complete ⟨1, 0, .chario, .ptr 0⟩, .complete ⟨0, 1, .chario, .ptr 1⟩,
    .complete ⟨2, 2, .chario, .ptr 0⟩]

def again : List TagLabel :=
  [.take 1, .take 0, .register 0, .register 1, .submit 1, .submit 0]

theorem covers_pair {s : TagSystem}
    (idle : ∀ client, s.clients (client + 2) = .idle) :
    Covers {0, 1} s.clients := by
  intro client busy
  match client with
  | 0 => decide
  | 1 => decide
  | client + 2 => exact absurd (idle client) busy

theorem chario_tags_unambiguous_two_clients :
    ∃ s, Reach TagSystem.step Guarded (TagSystem.start 1024) s ∧
      s.handed = [0, 1, 2, 0, 1] ∧ s.delivered.length = 3 ∧
      s.inFlight = [⟨3, 0, .chario, .ptr 1⟩, ⟨4, 1, .chario, .ptr 2⟩] ∧
      (s.inFlight.map Flight.commandId).Nodup ∧ Recorded s := by
  have began : Reach TagSystem.step Guarded (start 1024)
      (afterLabels twoClients) := by
    refine (Reach.start.andThen (.begin 0 40) ?_ rfl).andThen
      (.begin 1 70) ?_ rfl
    · exact ⟨{0, 1}, covers_pair (fun _ => rfl), by decide⟩
    · exact ⟨{0, 1}, covers_pair (fun _ => rfl), by decide⟩
  have turned : Reach TagSystem.step Guarded (afterLabels twoClients)
      (afterLabels (twoClients ++ inTurns)) :=
    reach_of_unchecked inTurns (by decide) rfl
  have ended :
      Reach TagSystem.step Guarded (afterLabels (twoClients ++ inTurns))
      (afterLabels (twoClients ++ inTurns ++ [.finish 0])) := by
    refine Reach.start.andThen (.finish 0) ⟨?_, ?_⟩ rfl
    · intro request position
      have isWaiting : (afterLabels (twoClients ++ inTurns)).clients 0 =
          .waiting ⟨0, 40, 8, 2⟩ := rfl
      rw [isWaiting] at position
      cases position
      decide
    · intro other differs
      match other with
      | 0 => exact absurd rfl differs
      | 1 =>
          refine ⟨rfl, ?_⟩
          intro request asked
          have isTaking : (afterLabels (twoClients ++ inTurns)).clients 1 =
              .take ⟨1, 70, 38, 1⟩ := rfl
          rw [isTaking] at asked
          cases asked
          decide
      | other + 2 => exact ⟨rfl, nofun⟩
  have restarted : Reach TagSystem.step Guarded
      (afterLabels (twoClients ++ inTurns ++ [.finish 0]))
      (afterLabels (twoClients ++ inTurns ++ [.finish 0, .begin 0 0])) :=
    Reach.start.andThen (.begin 0 0)
      ⟨{0, 1}, covers_pair (fun _ => rfl), by decide⟩ rfl
  have last : Reach TagSystem.step Guarded
      (afterLabels (twoClients ++ inTurns ++ [.finish 0, .begin 0 0]))
      (afterLabels
        (twoClients ++ inTurns ++ [.finish 0, .begin 0 0] ++ again)) :=
    reach_of_unchecked again (by decide) rfl
  have reach := (((began.trans turned).trans ended).trans restarted).trans last
  exact ⟨_, reach, rfl, rfl, rfl, chario_tags_unambiguous reach⟩

/-- Client 0 ends its request and resets the counter while tag 1 of client 1 is
in flight; the next request of client 0 takes tag 1 again. -/
def collidingRun : List TagLabel :=
  [.begin 0 0, .begin 1 40,
    .take 0, .register 0, .submit 0, .take 1, .register 1, .submit 1,
    .complete ⟨0, 0, .chario, .ptr 0⟩, .finish 0,
    .take 1, .register 1, .submit 1,
    .begin 0 0, .take 0, .register 0, .submit 0]

theorem reset_under_a_second_client_collides :
    (∃ s, Reach TagSystem.step anyStep (TagSystem.start 1024) s ∧
      s.inFlight.map Flight.commandId = [1, 0, 1]) ∧
    ∃ s, Reach TagSystem.step anyStep (TagSystem.start 1024) s ∧
      ⟨⟨1, 1, .chario, .ptr 1⟩, .chario, .ptr 2⟩ ∈ s.delivered := by
  constructor
  · obtain ⟨s, ran⟩ : ∃ s, runSteps TagSystem.step (TagSystem.start 1024)
        collidingRun = some s := Option.isSome_iff_exists.mp rfl
    have ids : (runSteps TagSystem.step (TagSystem.start 1024)
        collidingRun).map (fun s => s.inFlight.map Flight.commandId) =
        some [1, 0, 1] := rfl
    rw [ran] at ids
    exact ⟨s, .of_runSteps ran, Option.some.inj ids⟩
  · obtain ⟨s, ran⟩ : ∃ s, runSteps TagSystem.step (TagSystem.start 1024)
        (collidingRun ++ [.complete ⟨1, 1, .chario, .ptr 1⟩]) = some s :=
      Option.isSome_iff_exists.mp rfl
    have delivered : (runSteps TagSystem.step (TagSystem.start 1024)
        (collidingRun ++ [.complete ⟨1, 1, .chario, .ptr 1⟩])).map
          (fun s => s.delivered) =
        some [⟨⟨0, 0, .chario, .ptr 0⟩, .chario, .ptr 0⟩,
          ⟨⟨1, 1, .chario, .ptr 1⟩, .chario, .ptr 2⟩] := rfl
    rw [ran] at delivered
    have logged := Option.some.inj delivered
    simp only at logged
    refine ⟨s, .of_runSteps ran, ?_⟩
    rw [logged]
    simp

/-- A blk-mq command with tag 32 beside a chario command with tag 0. -/
theorem completion_dispatched_beside_blk :
    ∃ s, Reach TagSystem.step Guarded (TagSystem.start 1024) s ∧
      s.queue.nvmeFinishCmd 32 =
        ((.sync, .ptr 1), s.queue.setRq 32 (s.queue.rqCmds 32).finish) ∧
      s.queue.nvmeFinishCmd 0 =
        ((.chario, .ptr 0),
          s.queue.setChario 0 (s.queue.charioCmds 0).finish) := by
  obtain ⟨s, reach, inFlight⟩ : ∃ s,
      Reach TagSystem.step Guarded (TagSystem.start 1024) s ∧
        s.inFlight =
          [⟨0, 0, .chario, .ptr 0⟩, ⟨1, 32, .sync, .ptr 1⟩] := by
    exact ⟨_, (((((Reach.start.andThen
      (.begin 0 0) ⟨{0, 1}, covers_pair (fun _ => rfl), by decide⟩ rfl).andThen
      (.take 0) trivial rfl).andThen
      (.register 0) trivial rfl).andThen
      (.submit 0) trivial rfl).andThen
      (.blkRegister 32) (by unfold Guarded; decide) rfl).andThen
      (.blkSubmit 32) trivial rfl, rfl⟩
  have sync := completion_dispatched_to_owner reach
    (show ⟨1, 32, .sync, .ptr 1⟩ ∈ s.inFlight by simp [inFlight])
  have chario := completion_dispatched_to_owner reach
    (show ⟨0, 0, .chario, .ptr 0⟩ ∈ s.inFlight by simp [inFlight])
  exact ⟨s, reach, sync.2, chario.2⟩

/-- A synchronous blk-mq command with tag 0 on an I/O queue is looked up in
`chario_cmds`. -/
theorem low_blk_tag_misses_its_slot :
    ∃ s, Reach TagSystem.step anyStep (TagSystem.start 1024) s ∧
      s.inFlight = [⟨0, 0, .sync, .ptr 0⟩] ∧
      (s.queue.nvmeFinishCmd 0).1 = (.null, .null) := by
  exact ⟨_, (Reach.start.andThen
    (.blkRegister 0) trivial rfl).andThen
    (.blkSubmit 0) trivial rfl, rfl, rfl⟩

end TagSystem

end Chario.Queue
