import Chario.Device.File
import Chario.Nvme.Mapping

namespace Chario.Device

open Chario.Nvme

/-! What becomes of the completion statuses of a call. -/

def FileCall.count : FileCall → Nat
  | .llseek _ _ => 0
  | .read _ count => count
  | .write _ count => count
  | .ioctl _ io _ => io.length

structure ErrorsReported {σ : Type} (call : FileCall) (fPos : Int)
    (out : FileOutcome σ) : Prop where
  success : out.result = .ok (toSsize call.count) →
    out.fPos = toLoff (fPos + call.count) → ∀ status ∈ out.statuses, status = 0
  failure : ∀ status ∈ out.statuses, status ≠ 0 →
    out.result = .ok (-eio) ∧ out.fPos = fPos

def ChunkValue (value : Int) : Prop :=
  value = 0 ∨ value = -einval ∨ value = -enomem ∨ value = -efault

theorem ChunkValue.ne_eio {value : Int} (chunk : ChunkValue value) :
    value ≠ -eio := by
  rcases chunk with rfl | rfl | rfl | rfl <;> decide

theorem ChunkValue.failure_eq {value : Int} (chunk : ChunkValue value) :
    failure value = value := by
  rcases chunk with rfl | rfl | rfl | rfl <;> rfl

def Refuses {α : Type} (request : Except Stop α) : Prop :=
  ∀ value, request = .error (.status value) → ChunkValue value

theorem refuses_ok {α : Type} (issued : α) : Refuses (.ok issued) := by
  intro value isError
  cases isError

theorem refuses_bug {α : Type} : Refuses (.error .bug : Except Stop α) := by
  intro value isError
  cases isError

theorem refuses_status {α : Type} {value : Int} (chunk : ChunkValue value) :
    Refuses (.error (.status value) : Except Stop α) := by
  intro other isError
  cases isError
  exact chunk

theorem refuses_einval {α : Type} :
    Refuses (.error (.status (-einval)) : Except Stop α) :=
  refuses_status (.inr (.inl rfl))

theorem refuses_enomem {α : Type} :
    Refuses (.error (.status (-enomem)) : Except Stop α) :=
  refuses_status (.inr (.inr (.inl rfl)))

theorem refuses_efault {α : Type} :
    Refuses (.error (.status (-efault)) : Except Stop α) :=
  refuses_status (.inr (.inr (.inr rfl)))

theorem refuses_error {α β : Type} {stop : Stop} {request : Except Stop α}
    (refuses : Refuses request) (isError : request = .error stop) :
    Refuses (.error stop : Except Stop β) := by
  intro value same
  cases same
  exact refuses value isError

section Setup

variable (pageSize : Nat) (kernel : Kernel) (addr length : Nat)

theorem nvmeMapUserPages_refuses :
    Refuses (nvmeMapUserPages pageSize kernel addr length) := by
  unfold nvmeMapUserPages
  split
  · exact refuses_einval
  split
  · exact refuses_einval
  split
  · exact refuses_enomem
  split
  · exact refuses_efault
  split
  · exact refuses_enomem
  split
  · exact refuses_enomem
  · exact refuses_ok _

theorem nvmeMapPhysPages_refuses :
    Refuses (nvmeMapPhysPages pageSize kernel addr length) := by
  unfold nvmeMapPhysPages
  split
  · exact refuses_einval
  split
  · exact refuses_einval
  split
  · exact refuses_enomem
  · exact refuses_ok _

theorem setupUser_refuses :
    Refuses (setupUser pageSize kernel addr length) := by
  unfold setupUser
  split
  next mapped =>
      exact refuses_error (nvmeMapUserPages_refuses pageSize kernel addr length)
        mapped
  next =>
      split
      · exact refuses_bug
      · exact refuses_ok _

theorem setupPhys_refuses :
    Refuses (setupPhys pageSize kernel addr length) := by
  unfold setupPhys
  split
  next mapped =>
      exact refuses_error (nvmeMapPhysPages_refuses pageSize kernel addr length)
        mapped
  next =>
      split
      · exact refuses_bug
      · exact refuses_ok _

end Setup

theorem submitIo_refuses {setup : Nat → Nat → Except Stop (Int × PrpSetup)}
    (refuses : ∀ addr length, Refuses (setup addr length)) (kernel : Kernel)
    (ns : NvmeNs) (io : NvmeUserIo) :
    Refuses (submitIo setup kernel ns io) := by
  unfold submitIo
  split
  · exact refuses_einval
  split
  · exact refuses_einval
  split
  next ready => exact refuses_error (refuses _ _) ready
  next =>
      split
      · exact refuses_enomem
      have buffer : Refuses (metaBuffer kernel ns io) := by
        unfold metaBuffer
        split
        · split
          · exact refuses_enomem
          · exact refuses_ok _
        · exact refuses_ok _
      split
      next mapped => exact refuses_error buffer mapped
      next => exact refuses_ok _

section Calls

variable {σ : Type}
variable {execute : List PrpBlock → RwCommand → σ → Nat × σ}

def Outcome.Blind (out : Outcome σ) : Prop :=
  ∀ value, out.result = .ok value → ChunkValue value

theorem awaitCompletions_blind (lists : List PrpBlock) {status : Int}
    (chunk : ChunkValue status) (commands : List RwCommand) :
    ∀ (cmdinfo : CharioCmdInfo) (statuses : List Nat) (s : σ),
      (awaitCompletions execute lists status commands cmdinfo statuses s).Blind
    := by
  induction commands with
  | nil =>
      intro cmdinfo statuses s value isOk
      cases isOk
  | cons command rest induction =>
      intro cmdinfo statuses s
      rw [awaitCompletions]
      split
      · intro value isOk
        cases isOk
        exact chunk
      · exact induction _ _ _

theorem serve_blind {order : List RwCommand → List RwCommand}
    {setup : Nat → Nat → Except Stop (Int × PrpSetup)}
    (refuses : ∀ addr length, Refuses (setup addr length)) (kernel : Kernel)
    (ns : NvmeNs) (io : NvmeUserIo) (s : σ) :
    (serve execute order (submitIo setup kernel ns io) s).Blind := by
  cases request : submitIo setup kernel ns io with
  | error stop =>
      cases stop with
      | bug =>
          intro value isOk
          cases isOk
      | status value =>
          intro other isOk
          cases isOk
          exact submitIo_refuses refuses kernel ns io value request
  | ok issued =>
      have zero := (submitIo_issued request).1
      rw [serve, if_pos zero]
      exact awaitCompletions_blind _ (.inl zero) _ _ _ _

theorem submitChunk_blind
    {setup : Nat → Kernel → Nat → Nat → Except Stop (Int × PrpSetup)}
    (refuses : ∀ pageSize kernel addr length,
      Refuses (setup pageSize kernel addr length))
    (pageSize : Nat) (ns : NvmeNs) (service : Service) (addr len : Nat)
    (offset : Int) (command : NvmeOpcode) (s : σ) :
    (submitChunk execute
      (fun pageSize kernel => submitIo (setup pageSize kernel) kernel) pageSize
      ns service addr len offset command s).Blind := by
  unfold submitChunk
  split
  · intro value isOk
    cases isOk
    exact .inl rfl
  · exact serve_blind (refuses pageSize service.kernel) _ _ _ _

theorem submitUserIo_blind (pageSize : Nat) (ns : NvmeNs) (service : Service)
    (buffer len : Nat) (offset : Int) (command : NvmeOpcode) (s : σ) :
    (submitUserIo execute pageSize ns service buffer len offset command s).Blind
    :=
  submitChunk_blind setupUser_refuses pageSize ns service buffer len offset
    command s

theorem submitPhysChunk_blind (pageSize : Nat) (ns : NvmeNs)
    (service : Service) (address len : Nat) (offset : Int)
    (command : NvmeOpcode) (s : σ) :
    (submitPhysChunk execute pageSize ns service address len offset command
      s).Blind :=
  submitChunk_blind setupPhys_refuses pageSize ns service address len offset
    command s

theorem Outcome.Blind.ended {out : Outcome σ} (blind : out.Blind) :
    out.ended.Blind := by
  intro value isOk
  cases result : out.result with
  | error halt =>
      rw [Outcome.ended, result] at isOk
      cases isOk
  | ok returned =>
      have chunk := blind returned result
      rw [Outcome.ended, result] at isOk
      cases isOk
      rw [chunk.failure_eq]
      exact chunk

theorem chunkLoop_blind {submit : Nat → Nat → Nat → Int → σ → Outcome σ}
    (blind : ∀ chunk address len off s, (submit chunk address len off s).Blind)
    (fuel chunk remaining address : Nat) (off : Int) (s : σ) :
    (chunkLoop submit fuel chunk remaining address off s).Blind :=
  chunkLoop_keeps blind Outcome.Blind.ended (fun _ rest => rest) fuel chunk
    remaining address off s

theorem transfer_cases {submit : Nat → Nat → Nat → Int → σ → Outcome σ}
    (blind : ∀ chunk address len off s, (submit chunk address len off s).Blind)
    (address count countAtEnd : Nat) (fPos : Int) (s : σ) :
    ((transfer submit address count countAtEnd fPos s).result =
        .ok (toSsize countAtEnd) ∧
      (transfer submit address count countAtEnd fPos s).fPos =
        toLoff (fPos + (countAtEnd % 2 ^ 32 : Nat))) ∨
      (transfer submit address count countAtEnd fPos s).result ≠
        .ok (-eio) := by
  have values := chunkLoop_blind blind count 0 count address fPos s
  unfold transfer
  split
  · exact .inl ⟨rfl, rfl⟩
  · refine .inr ?_
    intro isError
    exact (values (-eio) isError).ne_eio rfl

theorem toLoff_ne_of_toSsize {count : Nat} (isError : toSsize count = -eio)
    (fPos : Int) : toLoff (fPos + (count % 2 ^ 32 : Nat)) ≠ fPos := by
  intro stays
  unfold toSsize eio at isError
  unfold toLoff at stays
  split at isError <;> omega

theorem transfer_hides {submit : Nat → Nat → Nat → Int → σ → Outcome σ}
    (blind : ∀ chunk address len off s, (submit chunk address len off s).Blind)
    (address count countAtEnd : Nat) (fPos : Int) (s : σ) :
    ¬ ((transfer submit address count countAtEnd fPos s).result = .ok (-eio) ∧
      (transfer submit address count countAtEnd fPos s).fPos = fPos) := by
  rintro ⟨isError, stays⟩
  rcases transfer_cases blind address count countAtEnd fPos s with
    ⟨returned, moved⟩ | other
  · rw [returned] at isError
    rw [moved] at stays
    exact toLoff_ne_of_toSsize (Except.ok.inj isError) fPos stays
  · exact other isError

theorem FileCall.run_hides (pageSize : Nat) (ns : NvmeNs)
    (services : Nat → Service) (call : FileCall) (fPos : Int) (s : σ)
    (completed : (call.run execute pageSize ns services fPos s).statuses ≠ []) :
    ¬ ((call.run execute pageSize ns services fPos s).result = .ok (-eio) ∧
      (call.run execute pageSize ns services fPos s).fPos = fPos) := by
  cases call with
  | llseek off whence => exact absurd rfl completed
  | read buf count =>
      exact transfer_hides (fun _ _ _ _ _ => submitUserIo_blind _ _ _ _ _ _ _ _)
        _ _ _ _ _
  | write buf count =>
      exact transfer_hides (fun _ _ _ _ _ => submitUserIo_blind _ _ _ _ _ _ _ _)
        _ _ _ _ _
  | ioctl cmd io ioAtEnd =>
      cases cmd with
      | readPhys =>
          exact transfer_hides
            (fun _ _ _ _ _ => submitPhysChunk_blind _ _ _ _ _ _ _ _) _ _ _ _ _
      | writePhys =>
          exact transfer_hides
            (fun _ _ _ _ _ => submitPhysChunk_blind _ _ _ _ _ _ _ _) _ _ _ _ _
      | other code => exact absurd rfl completed

/-- Device errors are reported exactly when there are none. -/
theorem errorsReported_iff
    (execute : List PrpBlock → RwCommand → σ → Nat × σ) (pageSize : Nat)
    (ns : NvmeNs) (services : Nat → Service) (call : FileCall) (fPos : Int)
    (s : σ) :
    ErrorsReported call fPos (call.run execute pageSize ns services fPos s) ↔
      ∀ status ∈ (call.run execute pageSize ns services fPos s).statuses,
        status = 0 := by
  constructor
  · intro reported status member
    by_contra nonzero
    exact FileCall.run_hides pageSize ns services call fPos s
      (List.ne_nil_of_mem member) (reported.failure status member nonzero)
  · intro clean
    refine ⟨fun _ _ => clean, ?_⟩
    intro status member nonzero
    exact absurd (clean status member) nonzero

end Calls

def writeFault (_lists : List PrpBlock) (_command : RwCommand) (s : Unit) :
    Nat × Unit := (0x280, s)

/-- The write of one block reports 4096 bytes written. -/
theorem write_fault_reported_as_success :
    ¬ ErrorsReported (.write 0 4096) 0
      ((FileCall.write 0 4096).run writeFault 4096 ⟨1, 12, 0, false⟩
        (fun _ => ⟨Kernel.plain, id⟩) 0 ()) := by
  intro reported
  have returned := (reported.failure 0x280 (by decide) (by decide)).2
  revert returned
  decide

end Chario.Device
