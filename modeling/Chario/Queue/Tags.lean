import Mathlib.Data.List.Basic
import Mathlib.Data.List.Nodup
import Mathlib.Data.List.Range
import Mathlib.Data.List.Count
import Mathlib.Algebra.Order.BigOperators.Group.Finset
import Mathlib.Logic.Function.Basic
import Mathlib.Tactic.Ring
import Chario.Library.Transition
import Chario.Queue.Command
import Chario.Queue.SubmissionRing
import Chario.Queue.WaitProtocol

namespace Chario.Queue

open Chario.Library

/-! Any number of chario clients and the synchronous blk-mq path on one I/O
queue.  The clients share `next_chario_tag` and the slots of `chario_cmds`; the
blk-mq path has the tags of its tag set. -/

/-- One call of `nvme_submit_io_chario` or `nvme_submit_io_chario_phys`.  `id`
stands for the address of its `cmdinfo`; `issued` counts the turns of the
submission loop. -/
structure Request where
  id : Nat
  nblocks : Nat
  blocksLeft : Nat
  issued : Nat
deriving DecidableEq, Repr

inductive Client
  | idle
  | take (request : Request)
  | register (request : Request) (tag : Nat)
  | submit (request : Request) (tag : Nat)
  | waiting (request : Request)
deriving DecidableEq, Repr

namespace Client

def request? : Client → Option Request
  | .idle => none
  | .take request | .register request _ | .submit request _
  | .waiting request => some request

def tag? : Client → Option Nat
  | .register _ tag | .submit _ tag => some tag
  | _ => none

def subCommands (client : Client) : Nat :=
  match client.request? with
  | none => 0
  | some request => WaitSystem.subCommands request.nblocks

def taken : Client → Nat
  | .idle => 0
  | .take request | .waiting request => request.issued
  | .register request _ | .submit request _ => request.issued + 1

end Client

def Client.Facts : Client → Prop
  | .idle => True
  | .take request | .register request _ | .submit request _ =>
      request.nblocks = request.blocksLeft + reqMaxBlocks * request.issued
  | .waiting request => request.issued = WaitSystem.subCommands request.nblocks

inductive BlkRequest
  | free
  | registered (owner : Nat)
  | submitted (owner : Nat)
deriving DecidableEq, Repr

def BlkRequest.owner? : BlkRequest → Option Nat
  | .free => none
  | .registered owner | .submitted owner => some owner

/-- A command handed to the controller, with what its submitter registered for
it.  `serial` numbers the submissions of a run. -/
structure Flight where
  serial : Nat
  commandId : Nat
  fn : CompletionFn
  ctx : CmdCtx
deriving DecidableEq, Repr

def Flight.isFor (owner : Nat) (flight : Flight) : Bool :=
  flight.fn = .chario ∧ flight.ctx = .ptr owner

/-- Commands in flight for a `cmdinfo`. -/
def owed (inFlight : List Flight) (owner : Nat) : Nat :=
  inFlight.countP (Flight.isFor owner)

structure Delivery where
  flight : Flight
  fn : CompletionFn
  ctx : CmdCtx
deriving DecidableEq, Repr

/-- `remaining` is the counter of each `cmdinfo`, and `synced` holds the sync
commands whose task has been woken.  `handed` and `delivered` record the run. -/
structure TagSystem where
  queue : NvmeQueue
  clients : Nat → Client
  blk : Nat → BlkRequest
  remaining : Nat → Int
  synced : List Nat
  nextOwner : Nat
  nextSerial : Nat
  inFlight : List Flight
  handed : List Nat
  delivered : List Delivery

inductive TagLabel
  | begin (client nblocks : Nat)
  | take (client : Nat)
  | register (client : Nat)
  | submit (client : Nat)
  | finish (client : Nat)
  | blkRegister (tag : Nat)
  | blkSubmit (tag : Nat)
  | blkFree (tag : Nat)
  | complete (flight : Flight)
deriving DecidableEq, Repr

namespace TagSystem

def start (qDepth : Nat) : TagSystem where
  queue := .alloc 1 qDepth
  clients _ := .idle
  blk _ := .free
  remaining _ := 0
  synced := []
  nextOwner := 0
  nextSerial := 0
  inFlight := []
  handed := []
  delivered := []

/-- A client enters the submission function with a fresh `cmdinfo`. -/
def begin (s : TagSystem) (client nblocks : Nat) : Option TagSystem :=
  match s.clients client with
  | .idle =>
      some { s with
        clients := Function.update s.clients client
          (.take ⟨s.nextOwner, nblocks, nblocks, 0⟩)
        remaining := Function.update s.remaining s.nextOwner nblocks
        nextOwner := s.nextOwner + 1 }
  | _ => none

/-- The read and the increment of the counter count as one step. -/
def take (s : TagSystem) (client : Nat) : Option TagSystem :=
  match s.clients client with
  | .take request =>
      some { s with
        queue := s.queue.takeTag
        clients := Function.update s.clients client
          (.register request s.queue.nextCharioTag)
        handed := s.handed ++ [s.queue.nextCharioTag] }
  | _ => none

def register (s : TagSystem) (client : Nat) : Option TagSystem :=
  match s.clients client with
  | .register request tag =>
      some { s with
        queue := s.queue.setChario tag (.chario request.id)
        clients := Function.update s.clients client (.submit request tag) }
  | _ => none

def turned (request : Request) : Request :=
  { request with
    blocksLeft :=
      if reqMaxBlocks ≤ request.blocksLeft then
        request.blocksLeft - reqMaxBlocks
      else request.blocksLeft
    issued := request.issued + 1 }

def submit (s : TagSystem) (client : Nat) : Option TagSystem :=
  match s.clients client with
  | .submit request tag =>
      some { s with
        inFlight := s.inFlight ++
          [⟨s.nextSerial, tag % 2 ^ 16, .chario, .ptr request.id⟩]
        nextSerial := s.nextSerial + 1
        clients := Function.update s.clients client
          (if reqMaxBlocks ≤ request.blocksLeft then .take (turned request)
            else .waiting (turned request)) }
  | _ => none

/-- The client goes on after `schedule`, whoever woke it: nothing looks at
`remaining` again. -/
def finish (s : TagSystem) (client : Nat) : Option TagSystem :=
  match s.clients client with
  | .waiting _ =>
      some { s with
        queue := s.queue.resetTag
        clients := Function.update s.clients client .idle }
  | _ => none

/-- `nvme_set_info` in `nvme_submit_sync_cmd`.  The tag set has `q_depth - 1`
tags. -/
def blkRegister (s : TagSystem) (tag : Nat) : Option TagSystem :=
  match s.blk tag with
  | .free =>
      if tag < s.queue.qDepth - 1 then
        some { s with
          queue := s.queue.setRq tag (.set (.ptr s.nextOwner) .sync)
          blk := Function.update s.blk tag (.registered s.nextOwner)
          nextOwner := s.nextOwner + 1 }
      else none
  | _ => none

def blkSubmit (s : TagSystem) (tag : Nat) : Option TagSystem :=
  match s.blk tag with
  | .registered owner =>
      some { s with
        inFlight := s.inFlight ++ [⟨s.nextSerial, tag, .sync, .ptr owner⟩]
        nextSerial := s.nextSerial + 1
        blk := Function.update s.blk tag (.submitted owner) }
  | _ => none

/-- The end of a synchronous command, after its `schedule`. -/
def blkFree (s : TagSystem) (tag : Nat) : Option TagSystem :=
  match s.blk tag with
  | .submitted _ => some { s with blk := Function.update s.blk tag .free }
  | _ => none

def call (s : TagSystem) : CompletionFn → CmdCtx → TagSystem
  | .chario, .ptr owner =>
      { s with
        remaining := Function.update s.remaining owner
          (s.remaining owner - reqMaxBlocks) }
  | .sync, .ptr owner => { s with synced := owner :: s.synced }
  | _, _ => s

/-- `nvme_process_cq` takes the entry of a command in flight and calls what
`nvme_finish_cmd` finds. -/
def complete (s : TagSystem) (flight : Flight) : Option TagSystem :=
  if flight ∈ s.inFlight then
    let found := s.queue.nvmeFinishCmd flight.commandId
    some (call { s with
      queue := found.2
      inFlight := s.inFlight.erase flight
      delivered := s.delivered ++ [⟨flight, found.1.1, found.1.2⟩] }
      found.1.1 found.1.2)
  else none

def step (s : TagSystem) : TagLabel → Option TagSystem
  | .begin client nblocks => s.begin client nblocks
  | .take client => s.take client
  | .register client => s.register client
  | .submit client => s.submit client
  | .finish client => s.finish client
  | .blkRegister tag => s.blkRegister tag
  | .blkSubmit tag => s.blkSubmit tag
  | .blkFree tag => s.blkFree tag
  | .complete flight => s.complete flight

/-! What a step that is taken does, with the guard that it passed. -/

section Taken

variable {s t : TagSystem}

theorem begin_eq_some {client nblocks : Nat}
    (taken : s.begin client nblocks = some t) :
    s.clients client = .idle ∧
      t = { s with
        clients := Function.update s.clients client
          (.take ⟨s.nextOwner, nblocks, nblocks, 0⟩)
        remaining := Function.update s.remaining s.nextOwner nblocks
        nextOwner := s.nextOwner + 1 } := by
  unfold begin at taken
  split at taken
  next position => exact ⟨position, (Option.some.inj taken).symm⟩
  next => cases taken

theorem take_eq_some {client : Nat} (taken : s.take client = some t) :
    ∃ request, s.clients client = .take request ∧
      t = { s with
        queue := s.queue.takeTag
        clients := Function.update s.clients client
          (.register request s.queue.nextCharioTag)
        handed := s.handed ++ [s.queue.nextCharioTag] } := by
  unfold take at taken
  split at taken
  next request position =>
      exact ⟨request, position, (Option.some.inj taken).symm⟩
  next => cases taken

theorem register_eq_some {client : Nat} (taken : s.register client = some t) :
    ∃ request tag, s.clients client = .register request tag ∧
      t = { s with
        queue := s.queue.setChario tag (.chario request.id)
        clients :=
          Function.update s.clients client (.submit request tag) } := by
  unfold register at taken
  split at taken
  next request tag position =>
      exact ⟨request, tag, position, (Option.some.inj taken).symm⟩
  next => cases taken

theorem submit_eq_some {client : Nat} (taken : s.submit client = some t) :
    ∃ request tag, s.clients client = .submit request tag ∧
      t = { s with
        inFlight := s.inFlight ++
          [⟨s.nextSerial, tag % 2 ^ 16, .chario, .ptr request.id⟩]
        nextSerial := s.nextSerial + 1
        clients := Function.update s.clients client
          (if reqMaxBlocks ≤ request.blocksLeft then .take (turned request)
            else .waiting (turned request)) } := by
  unfold submit at taken
  split at taken
  next request tag position =>
      exact ⟨request, tag, position, (Option.some.inj taken).symm⟩
  next => cases taken

theorem finish_eq_some {client : Nat} (taken : s.finish client = some t) :
    ∃ request, s.clients client = .waiting request ∧
      t = { s with
        queue := s.queue.resetTag
        clients := Function.update s.clients client .idle } := by
  unfold finish at taken
  split at taken
  next request position =>
      exact ⟨request, position, (Option.some.inj taken).symm⟩
  next => cases taken

theorem blkRegister_eq_some {tag : Nat} (taken : s.blkRegister tag = some t) :
    s.blk tag = .free ∧ tag < s.queue.qDepth - 1 ∧
      t = { s with
        queue := s.queue.setRq tag (.set (.ptr s.nextOwner) .sync)
        blk := Function.update s.blk tag (.registered s.nextOwner)
        nextOwner := s.nextOwner + 1 } := by
  unfold blkRegister at taken
  split at taken
  next isFree =>
      split at taken
      next inSet =>
          exact ⟨isFree, inSet, (Option.some.inj taken).symm⟩
      next => cases taken
  next => cases taken

theorem blkSubmit_eq_some {tag : Nat} (taken : s.blkSubmit tag = some t) :
    ∃ owner, s.blk tag = .registered owner ∧
      t = { s with
        inFlight := s.inFlight ++ [⟨s.nextSerial, tag, .sync, .ptr owner⟩]
        nextSerial := s.nextSerial + 1
        blk := Function.update s.blk tag (.submitted owner) } := by
  unfold blkSubmit at taken
  split at taken
  next owner isRegistered =>
      exact ⟨owner, isRegistered, (Option.some.inj taken).symm⟩
  next => cases taken

theorem blkFree_eq_some {tag : Nat} (taken : s.blkFree tag = some t) :
    ∃ owner, s.blk tag = .submitted owner ∧
      t = { s with blk := Function.update s.blk tag .free } := by
  unfold blkFree at taken
  split at taken
  next owner isSubmitted =>
      exact ⟨owner, isSubmitted, (Option.some.inj taken).symm⟩
  next => cases taken

end Taken

end TagSystem

def Covers (busy : Finset Nat) (clients : Nat → Client) : Prop :=
  ∀ client, clients client ≠ .idle → client ∈ busy

namespace TagSystem

/-- The requests under way and one more have a tag for every sub-command. -/
def HasRoom (s : TagSystem) (nblocks : Nat) : Prop :=
  ∃ busy, Covers busy s.clients ∧
    ∑ client ∈ busy, (s.clients client).subCommands +
      WaitSystem.subCommands nblocks ≤ min charioCmdCount s.queue.qDepth

/-- The last completion of its request is what wakes the client. -/
def Woken (s : TagSystem) (client : Nat) : Prop :=
  ∀ request, s.clients client = .waiting request → s.remaining request.id < 0

/-- The client has taken no tag that is still in use. -/
def Quiet (s : TagSystem) (client : Nat) : Prop :=
  (s.clients client).tag? = none ∧
    ∀ request, (s.clients client).request? = some request →
      owed s.inFlight request.id = 0

/-- Runs in which there is a tag for every sub-command of the requests under
way, a task sleeps until its own last completion, the counter is reset only
while the other clients use no tag, and blk-mq stays off the tags that are
looked up in `chario_cmds`. -/
def Guarded (s : TagSystem) : TagLabel → Prop
  | .begin _ nblocks => s.HasRoom nblocks
  | .finish client =>
      s.Woken client ∧ ∀ other, other ≠ client → s.Quiet other
  | .blkRegister tag => charioCmdCount ≤ tag
  | .blkFree tag => ∀ owner, s.blk tag = .submitted owner → owner ∈ s.synced
  | _ => True

end TagSystem

/-! The invariant, in four parts: whom the commands belong to, how many chario
tags the counter has given out, which of them are in use, and which blk-mq tags
are. -/

theorem owed_append (inFlight : List Flight) (flight : Flight) (owner : Nat) :
    owed (inFlight ++ [flight]) owner =
      owed inFlight owner + if flight.isFor owner then 1 else 0 := by
  rw [owed, List.countP_append, List.countP_singleton, owed]

theorem owed_erase {inFlight : List Flight} {flight : Flight}
    (member : flight ∈ inFlight) (owner : Nat) :
    owed inFlight owner = owed (inFlight.erase flight) owner +
      if flight.isFor owner then 1 else 0 := by
  have perm := (List.perm_cons_erase member).countP_eq (Flight.isFor owner)
  rw [owed, perm, List.countP_cons, owed]

theorem commandId_ne_of_mem_erase {inFlight : List Flight}
    (ids : (inFlight.map Flight.commandId).Nodup) {flight other : Flight}
    (member : flight ∈ inFlight) (still : other ∈ inFlight.erase flight) :
    other.commandId ≠ flight.commandId := by
  intro same
  have isFlight := List.inj_on_of_nodup_map ids (List.mem_of_mem_erase still)
    member same
  rw [isFlight] at still
  exact ids.of_map.not_mem_erase still

structure Owners (clients : Nat → Client) (inFlight : List Flight)
    (remaining : Nat → Int) (nextOwner : Nat) : Prop where
  facts : ∀ client, (clients client).Facts
  owner_lt : ∀ client request, (clients client).request? = some request →
    request.id < nextOwner
  unique : ∀ client other request request',
    (clients client).request? = some request →
    (clients other).request? = some request' →
    request.id = request'.id → client = other
  owned : ∀ flight ∈ inFlight, flight.fn = .chario →
    ∃ client request, (clients client).request? = some request ∧
      flight.ctx = .ptr request.id
  counted : ∀ client request, (clients client).request? = some request →
    owed inFlight request.id ≤ request.issued ∧
      remaining request.id = request.nblocks -
        reqMaxBlocks * (request.issued - owed inFlight request.id : Int)

structure TagAccount (clients : Nat → Client) (nextTag bound : Nat) : Prop where
  counted : ∀ busy, Covers busy clients →
    nextTag ≤ ∑ client ∈ busy, (clients client).taken
  fits : ∃ busy, Covers busy clients ∧
    ∑ client ∈ busy, (clients client).subCommands ≤ bound

structure CharioTags (clients : Nat → Client) (inFlight : List Flight)
    (slots : Nat → CmdInfo) (nextTag : Nat) : Prop where
  held_lt : ∀ client tag, (clients client).tag? = some tag → tag < nextTag
  unique : ∀ client other tag, (clients client).tag? = some tag →
    (clients other).tag? = some tag → client = other
  held_slot : ∀ client request tag, clients client = .submit request tag →
    slots tag = .chario request.id
  flying_lt : ∀ flight ∈ inFlight, flight.fn = .chario →
    flight.commandId < nextTag
  flying_slot : ∀ flight ∈ inFlight, flight.fn = .chario →
    slots flight.commandId = ⟨.chario, flight.ctx, 0⟩
  apart : ∀ client tag, (clients client).tag? = some tag →
    ∀ flight ∈ inFlight, flight.fn = .chario → flight.commandId ≠ tag

structure BlkTags (blk : Nat → BlkRequest) (inFlight : List Flight)
    (slots : Nat → CmdInfo) (synced : List Nat) (nextOwner qDepth : Nat) :
    Prop where
  owner_lt : ∀ tag owner, (blk tag).owner? = some owner → owner < nextOwner
  unique : ∀ tag other owner, (blk tag).owner? = some owner →
    (blk other).owner? = some owner → tag = other
  synced_lt : ∀ owner ∈ synced, owner < nextOwner
  registered : ∀ tag owner, blk tag = .registered owner →
    charioCmdCount ≤ tag ∧ tag < qDepth ∧
      slots tag = .set (.ptr owner) .sync ∧ owner ∉ synced
  flying : ∀ flight ∈ inFlight, flight.fn = .sync →
    ∃ owner, blk flight.commandId = .submitted owner ∧
      flight.ctx = .ptr owner ∧ charioCmdCount ≤ flight.commandId ∧
      flight.commandId < qDepth ∧
      slots flight.commandId = .set (.ptr owner) .sync ∧ owner ∉ synced

namespace Owners

variable {clients : Nat → Client} {inFlight : List Flight}
variable {remaining : Nat → Int} {nextOwner client : Nat}

theorem start (remaining : Nat → Int) :
    Owners (fun _ => .idle) [] remaining 0 where
  facts _ := trivial
  owner_lt := by simp [Client.request?]
  unique := by simp [Client.request?]
  owned := by simp
  counted := by simp [Client.request?]

theorem move (owners : Owners clients inFlight remaining nextOwner)
    {moved : Client} (same : moved.request? = (clients client).request?)
    (facts : moved.Facts) :
    Owners (Function.update clients client moved) inFlight remaining
      nextOwner := by
  have asks : ∀ other, (Function.update clients client moved other).request? =
      (clients other).request? := by
    intro other
    by_cases isClient : other = client
    · rw [isClient, Function.update_self, same]
    · rw [Function.update_of_ne isClient]
  constructor
  · exact (Function.forall_update_iff clients fun _ client => client.Facts).mpr
      ⟨facts, fun other _ => owners.facts other⟩
  · simpa only [asks] using owners.owner_lt
  · simpa only [asks] using owners.unique
  · simpa only [asks] using owners.owned
  · simpa only [asks] using owners.counted

theorem owed_fresh (owners : Owners clients inFlight remaining nextOwner) :
    owed inFlight nextOwner = 0 := by
  rw [owed, List.countP_eq_zero]
  intro flight member isFor
  simp only [Flight.isFor, decide_eq_true_eq] at isFor
  obtain ⟨other, request, asked, same⟩ := owners.owned flight member isFor.1
  have := owners.owner_lt other request asked
  rw [isFor.2, CmdCtx.ptr.injEq] at same
  omega

theorem begin (owners : Owners clients inFlight remaining nextOwner)
    (position : clients client = .idle) (nblocks : Nat) :
    Owners (Function.update clients client
        (.take ⟨nextOwner, nblocks, nblocks, 0⟩)) inFlight
      (Function.update remaining nextOwner nblocks) (nextOwner + 1) := by
  have owner_lt := owners.owner_lt
  have unique := owners.unique
  constructor
  · exact (Function.forall_update_iff clients fun _ client => client.Facts).mpr
      ⟨by simp [Client.Facts], fun other _ => owners.facts other⟩
  · grind [Client.request?, Function.update_apply]
  · grind [Client.request?, Function.update_apply]
  · intro flight member isChario
    obtain ⟨other, request, asked, same⟩ := owners.owned flight member isChario
    have differs : other ≠ client := by
      rintro rfl
      simp [position, Client.request?] at asked
    exact ⟨other, request, by rwa [Function.update_of_ne differs], same⟩
  · intro other request asked
    by_cases isClient : other = client
    · rw [isClient, Function.update_self] at asked
      cases asked
      simp [owners.owed_fresh]
    · rw [Function.update_of_ne isClient] at asked
      have below := owner_lt other request asked
      rw [Function.update_of_ne (by omega)]
      exact owners.counted other request asked

theorem refly (owners : Owners clients inFlight remaining nextOwner)
    {following : List Flight} {nextOwner' : Nat}
    (grows : nextOwner ≤ nextOwner')
    (subset : ∀ flight ∈ following, flight.fn = .chario → flight ∈ inFlight)
    (same : ∀ owner, owed following owner = owed inFlight owner) :
    Owners clients following remaining nextOwner' where
  facts := owners.facts
  owner_lt := by
    intro other request asked
    have := owners.owner_lt other request asked
    omega
  unique := owners.unique
  owned := by
    intro flight member isChario
    exact owners.owned flight (subset flight member isChario) isChario
  counted := by
    intro other request asked
    rw [same]
    exact owners.counted other request asked

theorem turned_facts {request : Request} {tag : Nat}
    (facts : (Client.submit request tag).Facts) :
    (if reqMaxBlocks ≤ request.blocksLeft then
      Client.take (TagSystem.turned request)
      else .waiting (TagSystem.turned request)).Facts := by
  simp only [Client.Facts] at facts
  by_cases more : reqMaxBlocks ≤ request.blocksLeft
  · simp only [if_pos more, Client.Facts, TagSystem.turned]
    unfold reqMaxBlocks at *
    omega
  · simp only [if_neg more, Client.Facts, TagSystem.turned,
      WaitSystem.subCommands]
    unfold reqMaxBlocks at *
    omega

theorem submit (owners : Owners clients inFlight remaining nextOwner)
    {request : Request} {tag serial commandId : Nat}
    (position : clients client = .submit request tag) :
    Owners (Function.update clients client
        (if reqMaxBlocks ≤ request.blocksLeft then
          .take (TagSystem.turned request)
          else .waiting (TagSystem.turned request)))
      (inFlight ++ [⟨serial, commandId, .chario, .ptr request.id⟩]) remaining
      nextOwner := by
  have facts := owners.facts client
  rw [position] at facts
  have asked : (clients client).request? = some request := by
    rw [position]
    rfl
  have asks : (if reqMaxBlocks ≤ request.blocksLeft then
      Client.take (TagSystem.turned request)
      else .waiting (TagSystem.turned request)).request? =
        some (TagSystem.turned request) := by
    split <;> rfl
  have sameId : (TagSystem.turned request).id = request.id := rfl
  have owner_lt := owners.owner_lt
  have unique := owners.unique
  constructor
  · exact (Function.forall_update_iff clients fun _ client => client.Facts).mpr
      ⟨turned_facts facts, fun other _ => owners.facts other⟩
  · grind [Function.update_apply]
  · grind [Function.update_apply]
  · intro flight member isChario
    rcases List.mem_append.mp member with old | new
    · obtain ⟨other, request', asked', same⟩ :=
        owners.owned flight old isChario
      by_cases isClient : other = client
      · rw [isClient, asked] at asked'
        cases asked'
        exact ⟨client, TagSystem.turned request,
          by rw [Function.update_self, asks], same⟩
      · exact ⟨other, request', by rwa [Function.update_of_ne isClient], same⟩
    · rw [List.mem_singleton.mp new]
      exact ⟨client, TagSystem.turned request,
        by rw [Function.update_self, asks], rfl⟩
  · intro other request' asked'
    by_cases isClient : other = client
    · rw [isClient, Function.update_self, asks] at asked'
      cases asked'
      obtain ⟨atMost, count⟩ := owners.counted client request asked
      rw [owed_append, sameId, count]
      simp only [Flight.isFor, and_self, decide_true, if_true,
        TagSystem.turned]
      push_cast
      exact ⟨by omega, by ring⟩
    · rw [Function.update_of_ne isClient] at asked'
      have differs : request.id ≠ request'.id := fun same =>
        isClient (unique other client request' request asked' asked same.symm)
      rw [owed_append]
      simpa [Flight.isFor, differs] using
        owners.counted other request' asked'

theorem complete (owners : Owners clients inFlight remaining nextOwner)
    {flight : Flight} {owner : Nat} (member : flight ∈ inFlight)
    (isFor : flight.isFor owner) :
    Owners clients (inFlight.erase flight)
      (Function.update remaining owner (remaining owner - reqMaxBlocks))
      nextOwner where
  facts := owners.facts
  owner_lt := owners.owner_lt
  unique := owners.unique
  owned := by
    intro other still
    exact owners.owned other (List.mem_of_mem_erase still)
  counted := by
    intro other request asked
    obtain ⟨atMost, count⟩ := owners.counted other request asked
    have erased := owed_erase member request.id
    by_cases same : request.id = owner
    · subst same
      rw [if_pos isFor] at erased
      rw [Function.update_self, count, erased]
      push_cast
      exact ⟨by omega, by ring⟩
    · have notFor : ¬ flight.isFor request.id = true := by
        simp only [Flight.isFor, decide_eq_true_eq] at isFor ⊢
        rintro ⟨-, isRequest⟩
        rw [isFor.2, CmdCtx.ptr.injEq] at isRequest
        exact same isRequest.symm
      rw [if_neg notFor, Nat.add_zero] at erased
      rw [Function.update_of_ne same, ← erased]
      exact ⟨atMost, count⟩

theorem owed_of_negative (owners : Owners clients inFlight remaining nextOwner)
    {request : Request} (position : clients client = .waiting request)
    (negative : remaining request.id < 0) : owed inFlight request.id = 0 := by
  have facts := owners.facts client
  have asked : (clients client).request? = some request := by
    rw [position]
    rfl
  obtain ⟨atMost, count⟩ := owners.counted client request asked
  simp only [position, Client.Facts] at facts
  unfold WaitSystem.subCommands reqMaxBlocks at *
  omega

theorem finish (owners : Owners clients inFlight remaining nextOwner)
    {request : Request} (position : clients client = .waiting request)
    (negative : remaining request.id < 0) :
    Owners (Function.update clients client .idle) inFlight remaining
      nextOwner := by
  have none := owners.owed_of_negative position negative
  have owner_lt := owners.owner_lt
  have unique := owners.unique
  constructor
  · exact (Function.forall_update_iff clients fun _ client => client.Facts).mpr
      ⟨trivial, fun other _ => owners.facts other⟩
  · grind [Client.request?, Function.update_apply]
  · grind [Client.request?, Function.update_apply]
  · intro flight member isChario
    obtain ⟨other, request', asked, same⟩ :=
      owners.owned flight member isChario
    have differs : other ≠ client := by
      rintro rfl
      rw [position] at asked
      cases asked
      exact List.countP_eq_zero.mp none flight member
        (by simp [Flight.isFor, isChario, same])
    exact ⟨other, request', by rwa [Function.update_of_ne differs], same⟩
  · intro other request' asked
    have differs : other ≠ client := by
      rintro rfl
      simp [Client.request?] at asked
    rw [Function.update_of_ne differs] at asked
    exact owners.counted other request' asked

end Owners

theorem Client.Facts.taken_le {client : Client} (facts : client.Facts) :
    client.taken ≤ client.subCommands := by
  cases client with
  | idle => exact Nat.zero_le _
  | take request | register request tag | submit request tag =>
      simp only [Client.Facts] at facts
      simp only [taken, subCommands, request?, WaitSystem.subCommands]
      unfold reqMaxBlocks at *
      omega
  | waiting request => exact le_of_eq facts

namespace TagAccount

variable {clients : Nat → Client} {nextTag bound client : Nat}

theorem start : TagAccount (fun _ => .idle) 0 bound where
  counted _ _ := Nat.zero_le _
  fits := ⟨∅, fun _ busy => absurd rfl busy, Nat.zero_le _⟩

theorem covers_update {busy : Finset Nat} {moved : Client}
    (covers : Covers busy (Function.update clients client moved))
    (isBusy : moved ≠ .idle) : Covers busy clients := by
  intro other otherBusy
  by_cases isClient : other = client
  · exact isClient ▸ covers client (by rwa [Function.update_self])
  · exact covers other (by rwa [Function.update_of_ne isClient])

theorem next_le (account : TagAccount clients nextTag bound)
    (facts : ∀ client, (clients client).Facts) : nextTag ≤ bound := by
  obtain ⟨busy, covers, fits⟩ := account.fits
  calc nextTag ≤ ∑ client ∈ busy, (clients client).taken :=
        account.counted busy covers
    _ ≤ ∑ client ∈ busy, (clients client).subCommands :=
        Finset.sum_le_sum (fun client _ => (facts client).taken_le)
    _ ≤ bound := fits

theorem next_lt (account : TagAccount clients nextTag bound)
    (facts : ∀ client, (clients client).Facts) {request : Request}
    (position : clients client = .take request) : nextTag < bound := by
  obtain ⟨busy, covers, fits⟩ := account.fits
  have isBusy : client ∈ busy := covers client (by rw [position]; nofun)
  have more : (clients client).taken < (clients client).subCommands := by
    have own := facts client
    rw [position] at own ⊢
    simp only [Client.Facts] at own
    simp only [Client.taken, Client.subCommands, Client.request?,
      WaitSystem.subCommands]
    unfold reqMaxBlocks at *
    omega
  calc nextTag ≤ ∑ client ∈ busy, (clients client).taken :=
        account.counted busy covers
    _ < ∑ client ∈ busy, (clients client).subCommands :=
        Finset.sum_lt_sum (fun client _ => (facts client).taken_le)
          ⟨client, isBusy, more⟩
    _ ≤ bound := fits

theorem sum_update (part : Client → Nat) {busy : Finset Nat}
    (isBusy : client ∈ busy) (moved : Client) :
    ∑ other ∈ busy, part (Function.update clients client moved other) =
      part moved + ∑ other ∈ busy.erase client, part (clients other) := by
  rw [← Finset.add_sum_erase busy _ isBusy, Function.update_self]
  congr 1
  apply Finset.sum_congr rfl
  intro other member
  rw [Function.update_of_ne (Finset.ne_of_mem_erase member)]

theorem begin (account : TagAccount clients nextTag bound)
    (position : clients client = .idle) {owner nblocks : Nat}
    (room : ∃ busy, Covers busy clients ∧
      ∑ client ∈ busy, (clients client).subCommands +
        WaitSystem.subCommands nblocks ≤ bound) :
    TagAccount (Function.update clients client
      (.take ⟨owner, nblocks, nblocks, 0⟩)) nextTag bound where
  counted busy covers := by
    have isBusy : client ∈ busy :=
      covers client (by rw [Function.update_self]; nofun)
    have before : Covers busy clients := by
      intro other otherBusy
      by_cases isClient : other = client
      · exact isClient ▸ isBusy
      · exact covers other (by rwa [Function.update_of_ne isClient])
    have counted := account.counted busy before
    rw [← Finset.add_sum_erase busy _ isBusy, position] at counted
    rw [sum_update Client.taken isBusy]
    exact counted
  fits := by
    obtain ⟨busy, covers, enough⟩ := room
    refine ⟨insert client busy, ?_, ?_⟩
    · intro other otherBusy
      by_cases isClient : other = client
      · exact isClient ▸ Finset.mem_insert_self client busy
      · rw [Function.update_of_ne isClient] at otherBusy
        exact Finset.mem_insert_of_mem (covers other otherBusy)
    · rw [sum_update Client.subCommands (Finset.mem_insert_self client busy)]
      have fewer : ∑ other ∈ (insert client busy).erase client,
          (clients other).subCommands ≤
            ∑ other ∈ busy, (clients other).subCommands :=
        Finset.sum_le_sum_of_subset (Finset.erase_insert_subset client busy)
      have own : Client.subCommands (.take ⟨owner, nblocks, nblocks, 0⟩) =
          WaitSystem.subCommands nblocks := rfl
      omega

theorem move (account : TagAccount clients nextTag bound) {moved : Client}
    (more : Nat) (wasBusy : clients client ≠ .idle) (isBusy : moved ≠ .idle)
    (taken : moved.taken = (clients client).taken + more)
    (sameNeed : moved.subCommands = (clients client).subCommands) :
    TagAccount (Function.update clients client moved) (nextTag + more)
      bound where
  counted busy covers := by
    have before := covers_update covers isBusy
    have counted := account.counted busy before
    rw [← Finset.add_sum_erase busy _ (before client wasBusy)] at counted
    rw [sum_update Client.taken (before client wasBusy), taken]
    omega
  fits := by
    obtain ⟨busy, covers, fits⟩ := account.fits
    refine ⟨busy, ?_, ?_⟩
    · intro other otherBusy
      by_cases isClient : other = client
      · exact isClient ▸ covers client wasBusy
      · rw [Function.update_of_ne isClient] at otherBusy
        exact covers other otherBusy
    · rw [sum_update Client.subCommands (covers client wasBusy), sameNeed,
        Finset.add_sum_erase busy (fun other => (clients other).subCommands)
          (covers client wasBusy)]
      exact fits

theorem submit (account : TagAccount clients nextTag bound)
    {request : Request} {tag : Nat}
    (position : clients client = .submit request tag) :
    TagAccount (Function.update clients client
        (if reqMaxBlocks ≤ request.blocksLeft then
          .take (TagSystem.turned request)
          else .waiting (TagSystem.turned request))) nextTag bound := by
  split
  next =>
    exact account.move 0 (by rw [position]; nofun) nofun
      (by rw [position]; rfl) (by rw [position]; rfl)
  next =>
    exact account.move 0 (by rw [position]; nofun) nofun
      (by rw [position]; rfl) (by rw [position]; rfl)

theorem finish (account : TagAccount clients nextTag bound)
    (wasBusy : clients client ≠ .idle) :
    TagAccount (Function.update clients client .idle) 0 bound where
  counted _ _ := Nat.zero_le _
  fits := by
    obtain ⟨busy, covers, fits⟩ := account.fits
    refine ⟨busy, ?_, ?_⟩
    · intro other otherBusy
      have differs : other ≠ client := by
        rintro rfl
        exact otherBusy (Function.update_self ..)
      rw [Function.update_of_ne differs] at otherBusy
      exact covers other otherBusy
    · rw [sum_update Client.subCommands (covers client wasBusy)]
      rw [← Finset.add_sum_erase busy _ (covers client wasBusy)] at fits
      exact le_trans (Nat.add_le_add_right (Nat.zero_le _) _) fits

end TagAccount

namespace CharioTags

variable {clients : Nat → Client} {inFlight : List Flight}
variable {slots : Nat → CmdInfo} {nextTag client : Nat}

theorem start (slots : Nat → CmdInfo) :
    CharioTags (fun _ => .idle) [] slots 0 := by
  constructor <;> simp [Client.tag?]

theorem refly (tags : CharioTags clients inFlight slots nextTag)
    {following : List Flight}
    (subset : ∀ flight ∈ following, flight.fn = .chario → flight ∈ inFlight) :
    CharioTags clients following slots nextTag where
  held_lt := tags.held_lt
  unique := tags.unique
  held_slot := tags.held_slot
  flying_lt := fun flight member isChario =>
    tags.flying_lt flight (subset flight member isChario) isChario
  flying_slot := fun flight member isChario =>
    tags.flying_slot flight (subset flight member isChario) isChario
  apart := fun client tag holds flight member isChario =>
    tags.apart client tag holds flight (subset flight member isChario) isChario

theorem release (tags : CharioTags clients inFlight slots nextTag)
    (client : Nat) {moved : Client} (holdsNone : moved.tag? = none) :
    CharioTags (Function.update clients client moved) inFlight slots
      nextTag := by
  have kept : ∀ other tag, (Function.update clients client moved other).tag? =
      some tag → other ≠ client ∧ (clients other).tag? = some tag := by
    intro other tag holds
    have differs : other ≠ client := by
      rintro rfl
      simp [holdsNone] at holds
    rw [Function.update_of_ne differs] at holds
    exact ⟨differs, holds⟩
  constructor
  · intro other tag holds
    exact tags.held_lt other tag (kept other tag holds).2
  · intro other third tag holds holds'
    exact tags.unique other third tag (kept other tag holds).2
      (kept third tag holds').2
  · intro other request tag submits
    have differs := (kept other tag (by rw [submits]; rfl)).1
    rw [Function.update_of_ne differs] at submits
    exact tags.held_slot other request tag submits
  · exact tags.flying_lt
  · exact tags.flying_slot
  · intro other tag holds
    exact tags.apart other tag (kept other tag holds).2

theorem take (tags : CharioTags clients inFlight slots nextTag)
    (request : Request) :
    CharioTags (Function.update clients client (.register request nextTag))
      inFlight slots (nextTag + 1) := by
  have held_lt := tags.held_lt
  have unique := tags.unique
  have held_slot := tags.held_slot
  have flying_lt := tags.flying_lt
  have apart := tags.apart
  constructor
  · grind [Client.tag?, Function.update_apply]
  · grind [Client.tag?, Function.update_apply]
  · grind [Function.update_apply]
  · intro flight member isChario
    have := flying_lt flight member isChario
    omega
  · exact tags.flying_slot
  · intro other tag holds flight member isChario
    have below := flying_lt flight member isChario
    grind [Client.tag?, Function.update_apply]

theorem register (tags : CharioTags clients inFlight slots nextTag)
    {request : Request} {tag : Nat}
    (position : clients client = .register request tag) :
    CharioTags (Function.update clients client (.submit request tag)) inFlight
      (Function.update slots tag (.chario request.id)) nextTag := by
  have holds : (clients client).tag? = some tag := by
    rw [position]
    rfl
  have same : ∀ other, (Function.update clients client (.submit request tag)
      other).tag? = (clients other).tag? := by
    intro other
    by_cases isClient : other = client
    · rw [isClient, Function.update_self, holds]
      rfl
    · rw [Function.update_of_ne isClient]
  constructor
  · simpa only [same] using tags.held_lt
  · simpa only [same] using tags.unique
  · intro other request' tag' submits
    by_cases isClient : other = client
    · rw [isClient, Function.update_self] at submits
      cases submits
      exact Function.update_self ..
    · rw [Function.update_of_ne isClient] at submits
      have differs : tag' ≠ tag := by
        rintro rfl
        exact isClient (tags.unique other client tag'
          (by rw [submits]; rfl) holds)
      rw [Function.update_of_ne differs]
      exact tags.held_slot other request' tag' submits
  · exact tags.flying_lt
  · intro flight member isChario
    rw [Function.update_of_ne (tags.apart client tag holds flight member
      isChario)]
    exact tags.flying_slot flight member isChario
  · simpa only [same] using tags.apart

theorem submit (tags : CharioTags clients inFlight slots nextTag)
    {request : Request} {tag serial : Nat} {moved : Client}
    (position : clients client = .submit request tag)
    (holdsNone : moved.tag? = none) :
    CharioTags (Function.update clients client moved)
      (inFlight ++ [⟨serial, tag, .chario, .ptr request.id⟩]) slots
      nextTag := by
  have holds : (clients client).tag? = some tag := by
    rw [position]
    rfl
  have released := tags.release client holdsNone
  refine { released with
    flying_lt := ?_
    flying_slot := ?_
    apart := ?_ }
  · intro flight member isChario
    rcases List.mem_append.mp member with old | new
    · exact tags.flying_lt flight old isChario
    · rw [List.mem_singleton.mp new]
      exact tags.held_lt client tag holds
  · intro flight member isChario
    rcases List.mem_append.mp member with old | new
    · exact tags.flying_slot flight old isChario
    · rw [List.mem_singleton.mp new]
      exact tags.held_slot client request tag position
  · intro other tag' holds' flight member isChario
    rcases List.mem_append.mp member with old | new
    · exact released.apart other tag' holds' flight old isChario
    · rw [List.mem_singleton.mp new]
      have differs : other ≠ client := by
        rintro rfl
        simp [holdsNone] at holds'
      rw [Function.update_of_ne differs] at holds'
      rintro rfl
      exact differs (tags.unique other client tag holds' holds)

theorem complete (tags : CharioTags clients inFlight slots nextTag)
    (ids : (inFlight.map Flight.commandId).Nodup) {flight : Flight}
    (member : flight ∈ inFlight) (isChario : flight.fn = .chario)
    (cmd : CmdInfo) :
    CharioTags clients (inFlight.erase flight)
      (Function.update slots flight.commandId cmd) nextTag := by
  have fewer : CharioTags clients (inFlight.erase flight) slots nextTag :=
    tags.refly (fun other still _ => List.mem_of_mem_erase still)
  refine { fewer with held_slot := ?_, flying_slot := ?_ }
  · intro client request tag submits
    have differs := tags.apart client tag (by rw [submits]; rfl) flight member
      isChario
    rw [Function.update_of_ne differs.symm]
    exact tags.held_slot client request tag submits
  · intro other still isChario'
    rw [Function.update_of_ne (commandId_ne_of_mem_erase ids member still)]
    exact tags.flying_slot other (List.mem_of_mem_erase still) isChario'

theorem reset (tags : CharioTags clients inFlight slots nextTag)
    (unheld : ∀ client, (clients client).tag? = none)
    (unused : ∀ flight ∈ inFlight, flight.fn ≠ .chario) :
    CharioTags clients inFlight slots 0 := by
  refine { tags with held_lt := ?_, flying_lt := ?_ }
  · intro client tag holds
    simp [unheld] at holds
  · intro flight member isChario
    exact absurd isChario (unused flight member)

end CharioTags

namespace BlkTags

variable {blk : Nat → BlkRequest} {inFlight : List Flight}
variable {slots : Nat → CmdInfo} {synced : List Nat} {nextOwner qDepth : Nat}

theorem start (slots : Nat → CmdInfo) (qDepth : Nat) :
    BlkTags (fun _ => .free) [] slots [] 0 qDepth := by
  constructor <;> simp [BlkRequest.owner?]

theorem refly (tags : BlkTags blk inFlight slots synced nextOwner qDepth)
    {following : List Flight} {nextOwner' : Nat}
    (grows : nextOwner ≤ nextOwner')
    (subset : ∀ flight ∈ following, flight.fn = .sync → flight ∈ inFlight) :
    BlkTags blk following slots synced nextOwner' qDepth where
  owner_lt := by
    intro tag owner owns
    have := tags.owner_lt tag owner owns
    omega
  unique := tags.unique
  synced_lt := by
    intro owner woken
    have := tags.synced_lt owner woken
    omega
  registered := tags.registered
  flying := fun flight member isSync =>
    tags.flying flight (subset flight member isSync) isSync

theorem register (tags : BlkTags blk inFlight slots synced nextOwner qDepth)
    {tag : Nat} (isFree : blk tag = .free) (inSet : tag < qDepth - 1)
    (high : charioCmdCount ≤ tag) :
    BlkTags (Function.update blk tag (.registered nextOwner)) inFlight
      (Function.update slots tag (.set (.ptr nextOwner) .sync)) synced
      (nextOwner + 1) qDepth := by
  have owner_lt := tags.owner_lt
  have unique := tags.unique
  constructor
  · grind [BlkRequest.owner?, Function.update_apply]
  · grind [BlkRequest.owner?, Function.update_apply]
  · intro owner woken
    have := tags.synced_lt owner woken
    omega
  · intro other owner isRegistered
    by_cases same : other = tag
    · rw [same, Function.update_self] at isRegistered
      cases isRegistered
      rw [same, Function.update_self]
      refine ⟨high, by omega, rfl, ?_⟩
      intro woken
      have := tags.synced_lt nextOwner woken
      omega
    · rw [Function.update_of_ne same] at isRegistered
      rw [Function.update_of_ne same]
      exact tags.registered other owner isRegistered
  · intro flight member isSync
    obtain ⟨owner, isSubmitted, rest⟩ := tags.flying flight member isSync
    have differs : flight.commandId ≠ tag := by
      intro same
      rw [same, isFree] at isSubmitted
      cases isSubmitted
    refine ⟨owner, ?_⟩
    rw [Function.update_of_ne differs, Function.update_of_ne differs]
    exact ⟨isSubmitted, rest⟩

theorem submit (tags : BlkTags blk inFlight slots synced nextOwner qDepth)
    {tag owner serial : Nat} (isRegistered : blk tag = .registered owner) :
    BlkTags (Function.update blk tag (.submitted owner))
      (inFlight ++ [⟨serial, tag, .sync, .ptr owner⟩]) slots synced nextOwner
      qDepth := by
  have same : ∀ other, (Function.update blk tag (.submitted owner)
      other).owner? = (blk other).owner? := by
    intro other
    by_cases isTag : other = tag
    · rw [isTag, Function.update_self, isRegistered]
      rfl
    · rw [Function.update_of_ne isTag]
  constructor
  · simpa only [same] using tags.owner_lt
  · simpa only [same] using tags.unique
  · exact tags.synced_lt
  · intro other owner' isRegistered'
    have differs : other ≠ tag := by
      rintro rfl
      simp at isRegistered'
    rw [Function.update_of_ne differs] at isRegistered'
    exact tags.registered other owner' isRegistered'
  · intro flight member isSync
    rcases List.mem_append.mp member with old | new
    · obtain ⟨owner', isSubmitted, rest⟩ := tags.flying flight old isSync
      have differs : flight.commandId ≠ tag := by
        intro isTag
        rw [isTag, isRegistered] at isSubmitted
        cases isSubmitted
      exact ⟨owner', by rwa [Function.update_of_ne differs], rest⟩
    · rw [List.mem_singleton.mp new]
      obtain ⟨high, low, slot, asleep⟩ := tags.registered tag owner isRegistered
      exact ⟨owner, Function.update_self .., rfl, high, low, slot, asleep⟩

theorem free (tags : BlkTags blk inFlight slots synced nextOwner qDepth)
    {tag owner : Nat} (isSubmitted : blk tag = .submitted owner)
    (woken : owner ∈ synced) :
    BlkTags (Function.update blk tag .free) inFlight slots synced nextOwner
      qDepth := by
  have owner_lt := tags.owner_lt
  have unique := tags.unique
  have registered := tags.registered
  constructor
  · grind [BlkRequest.owner?, Function.update_apply]
  · grind [BlkRequest.owner?, Function.update_apply]
  · exact tags.synced_lt
  · grind [Function.update_apply]
  · intro flight member isSync
    obtain ⟨owner', isSubmitted', ctx, high, low, slot, asleep⟩ :=
      tags.flying flight member isSync
    have differs : flight.commandId ≠ tag := by
      intro isTag
      rw [isTag, isSubmitted] at isSubmitted'
      cases isSubmitted'
      exact asleep woken
    exact ⟨owner', by rwa [Function.update_of_ne differs], ctx, high, low, slot,
      asleep⟩

theorem complete (tags : BlkTags blk inFlight slots synced nextOwner qDepth)
    (ids : (inFlight.map Flight.commandId).Nodup) {flight : Flight}
    {owner : Nat} (member : flight ∈ inFlight)
    (isSubmitted : blk flight.commandId = .submitted owner) (cmd : CmdInfo) :
    BlkTags blk (inFlight.erase flight)
      (Function.update slots flight.commandId cmd) (owner :: synced) nextOwner
      qDepth := by
  have owns : (blk flight.commandId).owner? = some owner := by
    rw [isSubmitted]
    rfl
  constructor
  · exact tags.owner_lt
  · exact tags.unique
  · intro other woken
    rcases List.mem_cons.mp woken with rfl | old
    · exact tags.owner_lt flight.commandId other owns
    · exact tags.synced_lt other old
  · intro tag other isRegistered
    have differs : tag ≠ flight.commandId := by
      rintro rfl
      rw [isSubmitted] at isRegistered
      cases isRegistered
    obtain ⟨high, low, slot, asleep⟩ := tags.registered tag other isRegistered
    rw [Function.update_of_ne differs]
    refine ⟨high, low, slot, ?_⟩
    intro woken
    rcases List.mem_cons.mp woken with rfl | old
    · exact differs (tags.unique tag flight.commandId other
        (by rw [isRegistered]; rfl) owns)
    · exact asleep old
  · intro other still isSync
    have inflight := List.mem_of_mem_erase still
    obtain ⟨owner', isSubmitted', ctx, high, low, slot, asleep⟩ :=
      tags.flying other inflight isSync
    have differs := commandId_ne_of_mem_erase ids member still
    refine ⟨owner', isSubmitted', ctx, high, low, ?_, ?_⟩
    · rw [Function.update_of_ne differs]
      exact slot
    · intro woken
      rcases List.mem_cons.mp woken with rfl | old
      · exact differs (tags.unique other.commandId flight.commandId owner'
          (by rw [isSubmitted']; rfl) owns)
      · exact asleep old

end BlkTags

end Chario.Queue
