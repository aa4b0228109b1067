import Chario.Library.Tiling
import Chario.Device.Format

namespace Chario.Device

open Chario.Library
open Chario.Nvme

/-! The chunks of a call, whatever the requests for them return. -/

structure ChunkRequest where
  address : Nat
  len : Nat
  offset : Int
  uio : NvmeUserIo
deriving DecidableEq, Repr

/-- `submit_user_io` or `__submit_phys_io` over any function for the request. -/
def requestChunk {σ : Type} (request : Nat → ChunkRequest → σ → Outcome σ)
    (ns : NvmeNs) (command : NvmeOpcode) (chunk address len : Nat)
    (offset : Int) (s : σ) : Outcome σ :=
  if len = 0 then ⟨s, [], .ok 0⟩
  else
    request chunk
      ⟨address, len, offset, charioUio ns address len offset command⟩ s

theorem devRead_requestChunk {σ : Type}
    (execute : List PrpBlock → RwCommand → σ → Nat × σ) (pageSize : Nat)
    (ns : NvmeNs) (services : Nat → Service) (buf count : Nat) (fPos : Int)
    (s : σ) :
    devRead execute pageSize ns services buf count fPos s =
      transfer (requestChunk (fun chunk request =>
        serve execute (services chunk).order (nvmeSubmitIoChario pageSize
          (services chunk).kernel ns request.uio)) ns .read)
        buf count count fPos s := rfl

theorem devWrite_requestChunk {σ : Type}
    (execute : List PrpBlock → RwCommand → σ → Nat × σ) (pageSize : Nat)
    (ns : NvmeNs) (services : Nat → Service) (buf count : Nat) (fPos : Int)
    (s : σ) :
    devWrite execute pageSize ns services buf count fPos s =
      transfer (requestChunk (fun chunk request =>
        serve execute (services chunk).order (nvmeSubmitIoChario pageSize
          (services chunk).kernel ns request.uio)) ns .write)
        buf count count fPos s := rfl

/-- What the four reads of `*io` find: `length` and `address` before the chunks,
`length` for the file position and `length` for the return value. -/
structure PhysIoReads where
  length : Nat
  address : Nat
  posLength : Nat
  retLength : Nat
deriving DecidableEq, Repr

/-- `submit_phys_io` over any function for its chunks. -/
def submitPhysIoReads {σ : Type}
    (submit : Nat → Nat → Nat → Int → σ → Outcome σ) (reads : PhysIoReads)
    (fPos : Int) (s : σ) : FileOutcome σ :=
  let out := chunkLoop submit reads.length 0 reads.length
    (reads.address % 2 ^ 32) fPos s
  match out.result with
  | .ok 0 =>
      { out with
        result := .ok (toSsize reads.retLength)
        fPos := toLoff (fPos + (reads.posLength % 2 ^ 32 : Nat)) }
  | _ => { out with fPos := fPos }

def record (results : Nat → Int) (chunk : Nat) (request : ChunkRequest)
    (log : List ChunkRequest) : Outcome (List ChunkRequest) :=
  ⟨log ++ [request], [], .ok (results chunk)⟩

def chunkCount (count : Nat) : Nat := (count + maxBytes - 1) / maxBytes

def chunkAt (ns : NvmeNs) (command : NvmeOpcode) (address count : Nat)
    (fPos : Int) (index : Nat) : ChunkRequest where
  address := (address + maxBytes * index) % 2 ^ 32
  len := windowSize maxBytes count index
  offset := toLoff (fPos + maxBytes * index)
  uio := charioUio ns ((address + maxBytes * index) % 2 ^ 32)
    (windowSize maxBytes count index) (toLoff (fPos + maxBytes * index)) command

/-- How the chunks end: after all of them, or at the first that fails.  The
indices are the requests issued and the value of the loop. -/
inductive ChunksEnd (results : Nat → Int) (total : Nat) : Nat → Int → Prop
  | all (zero : ∀ index < total, results index = 0) :
      ChunksEnd results total total 0
  | failed {last : Nat} (below : last < total)
      (zero : ∀ index < last, results index = 0) (nonzero : results last ≠ 0) :
      ChunksEnd results total (last + 1) (failure (results last))

theorem toLoff_add (offset : Int) (more : Nat) :
    toLoff (toLoff offset + more) = toLoff (offset + more) := by
  unfold toLoff
  omega

theorem failure_neg {result : Int} (nonzero : result ≠ 0) :
    failure result < 0 := by
  unfold failure eio
  split <;> omega

theorem chunkAt_len {count index : Nat} (inside : maxBytes * index < count) :
    1 ≤ windowSize maxBytes count index ∧
      windowSize maxBytes count index ≤ maxBytes := by
  unfold windowSize maxBytes at *
  omega

theorem inside_of_lt {count issued index : Nat}
    (total : issued ≤ chunkCount count) (below : index < issued) :
    maxBytes * index < count := by
  unfold chunkCount maxBytes at *
  omega

theorem ChunksEnd.issued_le {results : Nat → Int} {total issued : Nat}
    {value : Int}
    (ended : ChunksEnd results total issued value) : issued ≤ total := by
  cases ended with
  | all _ => exact le_refl total
  | failed below _ _ => exact below

section Any

variable {σ : Type} {submit : Nat → Nat → Nat → Int → σ → Outcome σ}
variable {results : Nat → Int} {address count : Nat} {fPos : Int}

def chunkStep (submit : Nat → Nat → Nat → Int → σ → Outcome σ)
    (address count : Nat) (fPos : Int) (index : Nat) (s : σ) : Outcome σ :=
  submit index ((address + maxBytes * index) % 2 ^ 32)
    (windowSize maxBytes count index) (toLoff (fPos + maxBytes * index)) s

def chunksBefore (submit : Nat → Nat → Nat → Int → σ → Outcome σ)
    (address count : Nat) (fPos : Int) (index : Nat) (s : σ) : σ :=
  (List.range index).foldl
    (fun s index => (chunkStep submit address count fPos index s).state) s

theorem chunksBefore_succ (index : Nat) (s : σ) :
    chunksBefore submit address count fPos (index + 1) s =
      (chunkStep submit address count fPos index
        (chunksBefore submit address count fPos index s)).state := by
  rw [chunksBefore, List.range_succ, List.foldl_append]
  rfl

section Next

variable {fuel index : Nat} {s : σ}
variable (more : maxBytes < count - maxBytes * index)

include more

theorem chunkStep_full :
    chunkStep submit address count fPos index s =
      submit index ((address + maxBytes * index) % 2 ^ 32) maxBytes
        (toLoff (fPos + maxBytes * index)) s := by
  have full : windowSize maxBytes count index = maxBytes :=
    Nat.min_eq_left (le_of_lt more)
  rw [chunkStep, full]

theorem chunkLoop_at_next
    (zero : (chunkStep submit address count fPos index s).result = .ok 0) :
    chunkLoop submit (fuel + 1) index (count - maxBytes * index)
        ((address + maxBytes * index) % 2 ^ 32)
        (toLoff (fPos + maxBytes * index)) s =
      (chunkLoop submit fuel (index + 1) (count - maxBytes * (index + 1))
        ((address + maxBytes * (index + 1)) % 2 ^ 32)
        (toLoff (fPos + maxBytes * (index + 1 : Nat)))
        (chunkStep submit address count fPos index s).state).after
        (chunkStep submit address count fPos index s).statuses := by
  have left : count - maxBytes * index - maxBytes =
      count - maxBytes * (index + 1) := by
    rw [Nat.mul_succ, Nat.sub_sub]
  have next : ((address + maxBytes * index) % 2 ^ 32 + maxBytes) % 2 ^ 32 =
      (address + maxBytes * (index + 1)) % 2 ^ 32 := by
    rw [Nat.mod_add_mod, Nat.mul_succ, Nat.add_assoc]
  have off : toLoff (toLoff (fPos + maxBytes * index) + maxBytes) =
      toLoff (fPos + maxBytes * (index + 1 : Nat)) := by
    rw [toLoff_add, Int.natCast_succ, Int.mul_add, Int.mul_one, Int.add_assoc]
  rw [chunkStep_full more] at zero ⊢
  rw [chunkLoop_next more zero, left, next, off]

end Next

theorem chunkLoop_at_last {fuel index : Nat} {s : σ}
    (last : maxBytes < count - maxBytes * index →
      (chunkStep submit address count fPos index s).result ≠ .ok 0) :
    chunkLoop submit (fuel + 1) index (count - maxBytes * index)
        ((address + maxBytes * index) % 2 ^ 32)
        (toLoff (fPos + maxBytes * index)) s =
      (chunkStep submit address count fPos index s).ended := by
  by_cases more : maxBytes < count - maxBytes * index
  · have failed := last more
    rw [chunkStep_full more] at failed ⊢
    exact chunkLoop_stops more failed
  · have rest : windowSize maxBytes count index = count - maxBytes * index :=
      Nat.min_eq_right (not_lt.mp more)
    rw [chunkLoop_last more, chunkStep, rest]

theorem chunkLoop_statuses
    (quiet : ∀ chunk address len off s,
      (submit chunk address len off s).statuses = [])
    (fuel chunk remaining address : Nat) (off : Int) (s : σ) :
    (chunkLoop submit fuel chunk remaining address off s).statuses = [] := by
  refine @chunkLoop_keeps σ submit (fun out => out.statuses = []) quiet
    (fun kept => kept) ?_ fuel chunk remaining address off s
  intro first rest none noneLater
  rw [Outcome.after, none, noneLater]
  rfl

variable (each : ∀ {index : Nat}, maxBytes * index < count → ∀ s,
  (chunkStep submit address count fPos index s).result = .ok (results index))

include each

/-- The loop over chunks whose results do not depend on the state, from any
chunk on. -/
theorem chunkLoop_ends_from (s : σ) {fuel : Nat} :
    ∀ {index : Nat}, count - maxBytes * index ≤ fuel →
      maxBytes * index < count → (∀ earlier < index, results earlier = 0) →
      ∃ issued value, ChunksEnd results (chunkCount count) issued value ∧
        (chunkLoop submit fuel index (count - maxBytes * index)
          ((address + maxBytes * index) % 2 ^ 32)
          (toLoff (fPos + maxBytes * index))
          (chunksBefore submit address count fPos index s)).result =
            .ok value ∧
        (chunkLoop submit fuel index (count - maxBytes * index)
          ((address + maxBytes * index) % 2 ^ 32)
          (toLoff (fPos + maxBytes * index))
          (chunksBefore submit address count fPos index s)).state =
            chunksBefore submit address count fPos issued s := by
  induction fuel with
  | zero =>
      intro index enough inside
      omega
  | succ fuel induction =>
      intro index enough inside zero
      have here := each inside (chunksBefore submit address count fPos index s)
      have counted : index < chunkCount count := by
        unfold chunkCount maxBytes at *
        omega
      have upTo : results index = 0 →
          ∀ earlier < index + 1, results earlier = 0 := by
        intro isZero earlier below
        by_cases same : earlier = index
        · rw [same, isZero]
        · exact zero earlier (by omega)
      by_cases goesOn : maxBytes < count - maxBytes * index ∧ results index = 0
      · obtain ⟨more, isZero⟩ := goesOn
        rw [chunkLoop_at_next more (by rw [here, isZero]), ← chunksBefore_succ]
        refine induction ?_ ?_ (upTo isZero)
        all_goals
          unfold maxBytes at *
          omega
      · -- the last chunk, or the first that fails
        rw [chunkLoop_at_last (by
          rw [here]
          intro more isZero
          exact goesOn ⟨more, Except.ok.inj isZero⟩), Outcome.ended, here,
          ← chunksBefore_succ]
        refine ⟨index + 1, failure (results index), ?_, rfl, rfl⟩
        by_cases isZero : results index = 0
        · have total : chunkCount count = index + 1 := by
            have last := fun more => goesOn ⟨more, isZero⟩
            unfold chunkCount maxBytes at *
            omega
          rw [isZero, total]
          exact .all (upTo isZero)
        · exact .failed counted zero isZero

theorem chunkLoop_ends (pointer : address < 2 ^ 32)
    (position : toLoff fPos = fPos) (some : 0 < count) (s : σ) :
    ∃ issued value, ChunksEnd results (chunkCount count) issued value ∧
      (chunkLoop submit count 0 count address fPos s).result = .ok value ∧
      (chunkLoop submit count 0 count address fPos s).state =
        chunksBefore submit address count fPos issued s := by
  have ends := @chunkLoop_ends_from σ submit results address count fPos each s
    count 0 (by omega) (by omega) (by simp)
  simp only [Nat.mul_zero, Nat.sub_zero, Nat.add_zero, Nat.mod_eq_of_lt pointer,
    Int.natCast_zero, Int.mul_zero, Int.add_zero, position] at ends
  exact ends

end Any

section Loop

variable {ns : NvmeNs} {command : NvmeOpcode} {results : Nat → Int}
variable {address count : Nat} {fPos : Int}

theorem requestChunk_record {index : Nat}
    (inside : maxBytes * index < count) :
    requestChunk (record results) ns command index
        ((address + maxBytes * index) % 2 ^ 32)
        (windowSize maxBytes count index) (toLoff (fPos + maxBytes * index))
        ((List.range index).map (chunkAt ns command address count fPos)) =
      ⟨(List.range (index + 1)).map (chunkAt ns command address count fPos), [],
        .ok (results index)⟩ := by
  have some : windowSize maxBytes count index ≠ 0 := by
    unfold windowSize maxBytes at *
    omega
  rw [requestChunk, if_neg some, record, List.range_succ, List.map_append]
  rfl

def loopAt (ns : NvmeNs) (command : NvmeOpcode) (results : Nat → Int)
    (address count : Nat) (fPos : Int) (fuel index : Nat) :
    Outcome (List ChunkRequest) :=
  chunkLoop (requestChunk (record results) ns command) fuel index
    (count - maxBytes * index) ((address + maxBytes * index) % 2 ^ 32)
    (toLoff (fPos + maxBytes * index))
    ((List.range index).map (chunkAt ns command address count fPos))

theorem chunksBefore_record {issued : Nat} (total : issued ≤ chunkCount count) :
    chunksBefore (requestChunk (record results) ns command) address count fPos
        issued [] =
      (List.range issued).map (chunkAt ns command address count fPos) := by
  induction issued with
  | zero => rfl
  | succ issued induction =>
      have inside := inside_of_lt total (Nat.lt_succ_self issued)
      rw [chunksBefore_succ, induction (by omega), chunkStep,
        requestChunk_record inside]

theorem requestChunk_statuses (chunk addr len : Nat) (off : Int)
    (log : List ChunkRequest) :
    (requestChunk (record results) ns command chunk addr len off
      log).statuses = [] := by
  rw [requestChunk]
  split <;> rfl

theorem loopAt_ends {fuel : Nat} :
    ∀ {index : Nat}, count - maxBytes * index ≤ fuel →
      maxBytes * index < count → (∀ earlier < index, results earlier = 0) →
      ∃ issued value, ChunksEnd results (chunkCount count) issued value ∧
        loopAt ns command results address count fPos fuel index =
          ⟨(List.range issued).map (chunkAt ns command address count fPos), [],
            .ok value⟩ := by
  intro index enough inside zero
  have counted : index ≤ chunkCount count := by
    unfold chunkCount maxBytes at *
    omega
  obtain ⟨issued, value, ended, result, state⟩ :=
    @chunkLoop_ends_from _ (requestChunk (record results) ns command) results
      address count fPos (by
        intro chunk within log
        rw [chunkStep, requestChunk, if_neg (by
          have some := chunkAt_len within
          omega), record]) [] fuel index enough inside zero
  rw [chunksBefore_record counted] at result state
  rw [chunksBefore_record ended.issued_le] at state
  exact ⟨issued, value, ended, Outcome.ext state
    (chunkLoop_statuses requestChunk_statuses _ _ _ _ _ _) result⟩

theorem chunkLoop_record (pointer : address < 2 ^ 32)
    (position : toLoff fPos = fPos) :
    ∃ issued value, ChunksEnd results (chunkCount count) issued value ∧
      chunkLoop (requestChunk (record results) ns command) count 0 count address
          fPos [] =
        ⟨(List.range issued).map (chunkAt ns command address count fPos), [],
          .ok value⟩ := by
  have start :
      chunkLoop (requestChunk (record results) ns command) count 0 count
      address fPos [] =
      loopAt ns command results address count fPos count 0 := by
    simp only [loopAt, Nat.mul_zero, Nat.sub_zero, Nat.add_zero,
      Nat.mod_eq_of_lt pointer, Int.natCast_zero, Int.mul_zero, Int.add_zero,
      position, List.range_zero, List.map_nil]
  rw [start]
  cases count with
  | zero => exact ⟨0, 0, .all (by simp [chunkCount, maxBytes]), rfl⟩
  | succ count =>
      exact loopAt_ends (by omega) (by simp) (by simp)

theorem ChunksEnd.value_eq_zero_iff {total issued : Nat} {value : Int}
    (ended : ChunksEnd results total issued value) :
    value = 0 ↔ ∀ index < total, results index = 0 := by
  cases ended with
  | all zero => exact ⟨fun _ => zero, fun _ => rfl⟩
  | failed below zero nonzero =>
      have negative := failure_neg nonzero
      exact ⟨fun isZero => by omega, fun all => absurd (all _ below) nonzero⟩

theorem ChunksEnd.value_le_zero {total issued : Nat} {value : Int}
    (ended : ChunksEnd results total issued value) : value ≤ 0 := by
  cases ended with
  | all _ => exact le_refl 0
  | failed _ _ nonzero => exact le_of_lt (failure_neg nonzero)

theorem ChunksEnd.issued_eq {total issued : Nat} {value : Int}
    (ended : ChunksEnd results total issued value) (isZero : value = 0) :
    issued = total := by
  cases ended with
  | all _ => rfl
  | failed _ _ nonzero =>
      have negative := failure_neg nonzero
      omega

theorem ChunksEnd.earlier_zero {total issued : Nat} {value : Int}
    (ended : ChunksEnd results total issued value) {index : Nat}
    (earlier : index + 1 < issued) : results index = 0 := by
  cases ended with
  | all zero => exact zero index (by omega)
  | failed _ zero _ => exact zero index (by omega)

theorem ChunksEnd.goes_on {total issued : Nat} {value : Int}
    (ended : ChunksEnd results total issued value) :
    issued = total ∨ ∃ last, issued = last + 1 ∧ results last ≠ 0 := by
  cases ended with
  | all _ => exact .inl rfl
  | failed _ _ nonzero => exact .inr ⟨_, rfl, nonzero⟩

theorem submitPhysIoReads_record (reads : PhysIoReads)
    (position : toLoff fPos = fPos) :
    ∃ issued value,
      ChunksEnd results (chunkCount reads.length) issued value ∧
      submitPhysIoReads (requestChunk (record results) ns command) reads fPos
          [] =
        ⟨⟨(List.range issued).map (chunkAt ns command (reads.address % 2 ^ 32)
          reads.length fPos), [],
          .ok (if value = 0 then toSsize reads.retLength else value)⟩,
          if value = 0 then toLoff (fPos + (reads.posLength % 2 ^ 32 : Nat))
          else fPos⟩ := by
  obtain ⟨issued, value, ended, ran⟩ := @chunkLoop_record ns command results
    (reads.address % 2 ^ 32) reads.length fPos
    (Nat.mod_lt _ (by decide)) position
  refine ⟨issued, value, ended, ?_⟩
  by_cases isZero : value = 0
  · subst isZero
    simp only [submitPhysIoReads, ran, if_true]
  · have failed : ∀ {zero : Int},
        Except.ok value = (.ok zero : Except Halt Int) →
        zero ≠ 0 := by
      rintro zero ⟨⟩
      exact isZero
    simp only [submitPhysIoReads, ran, if_neg isZero]
    split
    next isOk => exact absurd rfl (failed isOk)
    next => rfl

theorem transfer_record (pointer : address < 2 ^ 32)
    (position : toLoff fPos = fPos) (countAtEnd : Nat) :
    ∃ issued value, ChunksEnd results (chunkCount count) issued value ∧
      transfer (requestChunk (record results) ns command) address count
          countAtEnd fPos [] =
        ⟨⟨(List.range issued).map (chunkAt ns command address count fPos), [],
          .ok (if value = 0 then toSsize countAtEnd else value)⟩,
          if value = 0 then toLoff (fPos + (countAtEnd % 2 ^ 32 : Nat))
          else fPos⟩ := by
  have called := @submitPhysIoReads_record ns command results fPos
    ⟨count, address, countAtEnd, countAtEnd⟩ position
  simp only [submitPhysIoReads, Nat.mod_eq_of_lt pointer] at called
  exact called

end Loop

def ChunkRequest.fileBytes (request : ChunkRequest) : List Int :=
  (List.range' 0 request.len).map (fun byte : Nat => request.offset + byte)

def ChunkRequest.bufferBytes (request : ChunkRequest) : List Nat :=
  (List.range' 0 request.len).map
    (fun byte => (request.address + byte) % 2 ^ 32)

def coveredBytes (count issued : Nat) : Nat := min count (maxBytes * issued)

theorem windowSize_covered {count issued index : Nat} (below : index < issued) :
    windowSize maxBytes (coveredBytes count issued) index =
      windowSize maxBytes count index := by
  unfold windowSize coveredBytes maxBytes
  omega

/-- The requests of a call and what it returns, for the given chunk results. -/
structure ChunksExact (ns : NvmeNs) (command : NvmeOpcode)
    (results : Nat → Int) (buf count : Nat) (fPos : Int) (issued : Nat)
    (out : FileOutcome (List ChunkRequest)) : Prop where
  requests : out.state.length = issued
  few : issued ≤ chunkCount count
  sizes : ∀ request ∈ out.state, 1 ≤ request.len ∧ request.len ≤ maxBytes
  uios : ∀ request ∈ out.state,
    request.uio =
      charioUio ns request.address request.len request.offset command
  nblocks : ∀ request ∈ out.state, request.uio.nblocks + 1 =
    (request.len + 2 ^ ns.lbaShift - 1) / 2 ^ ns.lbaShift
  file : out.state.flatMap ChunkRequest.fileBytes =
    (List.range' 0 (coveredBytes count issued)).map
    (fun byte : Nat => fPos + byte)
  buffer : out.state.flatMap ChunkRequest.bufferBytes =
    (List.range' 0 (coveredBytes count issued)).map
      (fun byte => (buf + byte) % 2 ^ 32)
  stops : ∀ index, index + 1 < issued → results index = 0
  goesOn : issued = chunkCount count ∨
    ∃ last, issued = last + 1 ∧ results last ≠ 0
  complete : (∀ index < chunkCount count, results index = 0) →
    coveredBytes count issued = count
  success : out.result = .ok count ∧ out.fPos = fPos + count ↔
    ∀ index < chunkCount count, results index = 0
  failure : (∃ index, index < chunkCount count ∧ results index ≠ 0) →
    ∃ value, value < 0 ∧ out.result = .ok value ∧ out.fPos = fPos

section Exact

variable {ns : NvmeNs} {command : NvmeOpcode} {address count : Nat} {fPos : Int}

theorem chunkAt_nblocks (shift : 9 ≤ ns.lbaShift) {index : Nat}
    (inside : maxBytes * index < count) :
    (chunkAt ns command address count fPos index).uio.nblocks + 1 =
      ((chunkAt ns command address count fPos index).len +
        2 ^ ns.lbaShift - 1) /
        2 ^ ns.lbaShift := by
  obtain ⟨some, fits⟩ := @chunkAt_len count index inside
  have size : 0 < 2 ^ ns.lbaShift := Nat.two_pow_pos _
  simp only [chunkAt]
  rw [charioUio_nblocks shift some fits, ← Nat.add_div_right _ size]
  congr 1
  omega

theorem chunkAt_of_getElem? {issued index : Nat} {request : ChunkRequest}
    (found : ((List.range issued).map
      (chunkAt ns command address count fPos))[index]? = some request) :
    index < issued ∧ request = chunkAt ns command address count fPos index := by
  obtain ⟨below, isRequest⟩ := List.getElem?_eq_some_iff.mp found
  rw [List.length_map, List.length_range] at below
  rw [List.getElem_map, List.getElem_range] at isRequest
  exact ⟨below, isRequest.symm⟩

theorem coveredBytes_le (issued : Nat) : coveredBytes count issued ≤
    maxBytes * ((List.range issued).map
      (chunkAt ns command address count fPos)).length := by
  rw [List.length_map, List.length_range]
  exact Nat.min_le_right _ _

theorem chunkAt_fileBytes {issued : Nat} (total : issued ≤ chunkCount count)
    (nonneg : 0 ≤ fPos) (inFile : fPos + count < 2 ^ 63) :
    ((List.range issued).map
      (chunkAt ns command address count fPos)).flatMap ChunkRequest.fileBytes =
      (List.range' 0 (coveredBytes count issued)).map
        (fun byte : Nat => fPos + byte) := by
  apply flatMap_windows maxBytes
  · exact coveredBytes_le issued
  · intro index request found
    obtain ⟨below, rfl⟩ := chunkAt_of_getElem? found
    have inside := inside_of_lt total below
    have offset : toLoff (fPos + maxBytes * index) =
        fPos + maxBytes * index := by
      unfold toLoff
      push_cast at *
      omega
    rw [windowSize_covered below, Nat.zero_add,
      ← Nat.add_zero (maxBytes * index), ← List.map_add_range', List.map_map,
      ChunkRequest.fileBytes]
    simp only [chunkAt, offset]
    apply List.map_congr_left
    intro byte _
    simp only [Function.comp_apply]
    push_cast
    rw [Int.add_assoc]

theorem chunkAt_bufferBytes (issued : Nat) :
    ((List.range issued).map
      (chunkAt ns command address count fPos)).flatMap
        ChunkRequest.bufferBytes =
      (List.range' 0 (coveredBytes count issued)).map
        (fun byte => (address + byte) % 2 ^ 32) := by
  apply flatMap_windows maxBytes
  · exact coveredBytes_le issued
  · intro index request found
    obtain ⟨below, rfl⟩ := chunkAt_of_getElem? found
    rw [windowSize_covered below, Nat.zero_add,
      ← Nat.add_zero (maxBytes * index), ← List.map_add_range', List.map_map,
      ChunkRequest.bufferBytes]
    simp only [chunkAt]
    apply List.map_congr_left
    intro byte _
    simp only [Function.comp_apply]
    rw [Nat.mod_add_mod, Nat.add_assoc]

end Exact

/-- `MAX_RW_COUNT`, to which the VFS cuts every request. -/
def maxRwCount : Nat := 2 ^ 31 - 4096

theorem toSsize_eq {count : Nat} (cut : count ≤ maxRwCount) :
    toSsize count = count := by
  unfold toSsize maxRwCount at *
  omega

/-- `dev_read` and `dev_write` over any results of their requests. -/
theorem dev_chunks_exact {ns : NvmeNs}
    (shift : 9 ≤ ns.lbaShift ∧ ns.lbaShift ≤ 16) (command : NvmeOpcode)
    (results : Nat → Int) {buf count : Nat} (pointer : buf < 2 ^ 32)
    (cut : count ≤ maxRwCount) {fPos : Int} (nonneg : 0 ≤ fPos)
    (inFile : fPos + count < 2 ^ 63) :
    ∃ issued, ChunksExact ns command results buf count fPos issued
      (transfer (requestChunk (record results) ns command) buf count count fPos
        []) := by
  have position : toLoff fPos = fPos := by
    unfold toLoff
    omega
  have moved : toLoff (fPos + (count % 2 ^ 32 : Nat)) = fPos + count := by
    unfold toLoff maxRwCount at *
    omega
  obtain ⟨issued, value, ended, ran⟩ := @transfer_record ns command results buf
    count fPos pointer position count
  have total := ended.issued_le
  have member : ∀ request ∈ (List.range issued).map
      (chunkAt ns command buf count fPos), ∃ index, maxBytes * index < count ∧
        chunkAt ns command buf count fPos index = request := by
    intro request inState
    obtain ⟨index, below, isRequest⟩ := List.mem_map.mp inState
    exact ⟨index, inside_of_lt total (List.mem_range.mp below), isRequest⟩
  rw [ran, moved, toSsize_eq cut]
  refine ⟨issued, ?_, total, ?_, ?_, ?_, chunkAt_fileBytes total nonneg inFile,
    chunkAt_bufferBytes issued, fun index => ended.earlier_zero, ended.goes_on,
    ?_, ?_, ?_⟩
  · simp
  · intro request inState
    obtain ⟨index, inside, rfl⟩ := member request inState
    exact chunkAt_len inside
  · intro request inState
    obtain ⟨index, inside, rfl⟩ := member request inState
    rfl
  · intro request inState
    obtain ⟨index, inside, rfl⟩ := member request inState
    exact chunkAt_nblocks shift.1 inside
  · intro allZero
    rw [ended.issued_eq (ended.value_eq_zero_iff.mpr allZero)]
    unfold coveredBytes chunkCount maxBytes
    omega
  · rw [← ended.value_eq_zero_iff]
    refine ⟨?_, ?_⟩
    · rintro ⟨isCount, -⟩
      by_contra nonzero
      have negative := ended.value_le_zero
      simp only [if_neg nonzero, Except.ok.injEq] at isCount
      omega
    · intro isZero
      simp only [if_pos isZero, and_self]
  · rintro ⟨index, below, nonzero⟩
    have failed : value ≠ 0 :=
      fun isZero => nonzero (ended.value_eq_zero_iff.mp isZero index below)
    have negative := ended.value_le_zero
    refine ⟨value, by omega, ?_, ?_⟩
    · simp only [if_neg failed]
    · simp only [if_neg failed]

/-- A call of 8 MiB and a byte whose second chunk has an NVMe status. -/
theorem dev_chunks_exact_second_fails :
    ∃ issued, ChunksExact (nvmeRevalidateDisk 1 12 0 false) .read
      (fun index => if index = 1 then 5 else 0) 4096 8388609 1000 issued
      (transfer (requestChunk (record (fun index => if index = 1 then 5 else 0))
        (nvmeRevalidateDisk 1 12 0 false) .read) 4096 8388609
          8388609 1000 []) :=
  dev_chunks_exact (by decide) .read (fun index => if index = 1 then 5 else 0)
    (by decide) (by decide) (by decide) (by decide)

end Chario.Device
