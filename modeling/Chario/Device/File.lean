import Chario.Nvme.Submit

namespace Chario.Device

open Chario.Library
open Chario.Nvme

/-! The character device: `submit_user_io`, `__submit_phys_io` and the file
operations over them, for a 32-bit machine with a 64-bit `loff_t`. -/

def maxBytes : Nat := 4194304

def charioUio (ns : NvmeNs) (addr len : Nat) (offset : Int)
    (command : NvmeOpcode) : NvmeUserIo where
  opcode := command
  flags := 0
  control := 0
  nblocks := (len + (2 ^ 32 - 1)) % 2 ^ 32 / 2 ^ ns.lbaShift % 2 ^ 16
  metadata := 0
  addr := addr
  slba := (offset / 2 ^ ns.lbaShift % 2 ^ 64).toNat
  dsmgmt := 0
  reftag := 0
  apptag := 0
  appmask := 0

structure CharioCmdInfo where
  status : Int
  remaining : Int
deriving DecidableEq, Repr

/-- `chario_completion`.  The status of the completion entry is not looked
at. -/
def charioCompletion (cmdinfo : CharioCmdInfo) (_cqeStatus : Nat) :
    CharioCmdInfo :=
  { cmdinfo with remaining := cmdinfo.remaining - reqMaxBlocks }

inductive Halt
  | bug
  | asleep
deriving DecidableEq, Repr

@[ext]
structure Outcome (σ : Type) where
  state : σ
  statuses : List Nat
  result : Except Halt Int

structure Service where
  kernel : Kernel
  order : List RwCommand → List RwCommand

section Calls

variable {σ : Type}
variable (execute : List PrpBlock → RwCommand → σ → Nat × σ)

/-- The wait.  The caller goes on when `remaining` falls below 0. -/
def awaitCompletions (lists : List PrpBlock) (status : Int) :
    List RwCommand → CharioCmdInfo → List Nat → σ → Outcome σ
  | [], _, statuses, s => ⟨s, statuses, .error .asleep⟩
  | command :: rest, cmdinfo, statuses, s =>
      if (charioCompletion cmdinfo (execute lists command s).1).remaining < 0
      then
        ⟨(execute lists command s).2,
          statuses ++ [(execute lists command s).1], .ok status⟩
      else
        awaitCompletions lists status rest
          (charioCompletion cmdinfo (execute lists command s).1)
          (statuses ++ [(execute lists command s).1])
          (execute lists command s).2

def serve (order : List RwCommand → List RwCommand)
    (request : Except Stop Issued) (s : σ) : Outcome σ :=
  match request with
  | .error (.status value) => ⟨s, [], .ok value⟩
  | .error .bug => ⟨s, [], .error .bug⟩
  | .ok issued =>
      if issued.status = 0 then
        awaitCompletions execute issued.lists issued.status
          (order issued.commands) ⟨-eintr, issued.nblocks⟩ [] s
      else ⟨s, [], .ok issued.status⟩

def submitChunk
    (submit : Nat → Kernel → NvmeNs → NvmeUserIo → Except Stop Issued)
    (pageSize : Nat) (ns : NvmeNs) (service : Service) (addr len : Nat)
    (offset : Int) (command : NvmeOpcode) (s : σ) : Outcome σ :=
  if len = 0 then ⟨s, [], .ok 0⟩
  else
    serve execute service.order
      (submit pageSize service.kernel ns (charioUio ns addr len offset command))
      s

def submitUserIo (pageSize : Nat) (ns : NvmeNs) (service : Service)
    (buffer len : Nat) (offset : Int) (command : NvmeOpcode) (s : σ) :
    Outcome σ :=
  submitChunk execute nvmeSubmitIoChario pageSize ns service buffer len offset
    command s

def submitPhysChunk (pageSize : Nat) (ns : NvmeNs) (service : Service)
    (address len : Nat) (offset : Int) (command : NvmeOpcode) (s : σ) :
    Outcome σ :=
  submitChunk execute nvmeSubmitIoCharioPhys pageSize ns service address len
    offset command s

end Calls

section Loop

variable {σ : Type}

/-- The value for a chunk that failed: `-EIO` for a positive result. -/
def failure (result : Int) : Int := if 0 < result then -eio else result

def Outcome.ended (out : Outcome σ) : Outcome σ :=
  { out with result := out.result.map failure }

def Outcome.after (statuses : List Nat) (out : Outcome σ) : Outcome σ :=
  { out with statuses := statuses ++ out.statuses }

def toLoff (value : Int) : Int := (value + 2 ^ 63) % 2 ^ 64 - 2 ^ 63

/-- The loop over the chunks, and the last one.  `submit` gets the number of the
chunk, its address, length and offset. -/
def chunkLoop (submit : Nat → Nat → Nat → Int → σ → Outcome σ) :
    Nat → Nat → Nat → Nat → Int → σ → Outcome σ
  | 0, chunk, remaining, address, off, s =>
      (submit chunk address remaining off s).ended
  | fuel + 1, chunk, remaining, address, off, s =>
      if maxBytes < remaining then
        match (submit chunk address maxBytes off s).result with
        | .ok 0 =>
            (chunkLoop submit fuel (chunk + 1) (remaining - maxBytes)
              ((address + maxBytes) % 2 ^ 32) (toLoff (off + maxBytes))
              (submit chunk address maxBytes off s).state).after
              (submit chunk address maxBytes off s).statuses
        | _ => (submit chunk address maxBytes off s).ended
      else (submit chunk address remaining off s).ended

theorem chunkLoop_next {submit : Nat → Nat → Nat → Int → σ → Outcome σ}
    {fuel chunk remaining addr : Nat} {off : Int} {s : σ}
    (more : maxBytes < remaining)
    (ok : (submit chunk addr maxBytes off s).result = .ok 0) :
    chunkLoop submit (fuel + 1) chunk remaining addr off s =
      (chunkLoop submit fuel (chunk + 1) (remaining - maxBytes)
        ((addr + maxBytes) % 2 ^ 32) (toLoff (off + maxBytes))
        (submit chunk addr maxBytes off s).state).after
        (submit chunk addr maxBytes off s).statuses := by
  rw [chunkLoop, if_pos more, ok]
  rfl

theorem chunkLoop_stops {submit : Nat → Nat → Nat → Int → σ → Outcome σ}
    {fuel chunk remaining addr : Nat} {off : Int} {s : σ}
    (more : maxBytes < remaining)
    (failed : (submit chunk addr maxBytes off s).result ≠ .ok 0) :
    chunkLoop submit (fuel + 1) chunk remaining addr off s =
      (submit chunk addr maxBytes off s).ended := by
  rw [chunkLoop, if_pos more]
  split
  next isZero => exact absurd isZero failed
  next => rfl

theorem chunkLoop_last {submit : Nat → Nat → Nat → Int → σ → Outcome σ}
    {fuel chunk remaining addr : Nat} {off : Int} {s : σ}
    (last : ¬ maxBytes < remaining) :
    chunkLoop submit (fuel + 1) chunk remaining addr off s =
      (submit chunk addr remaining off s).ended := by
  rw [chunkLoop, if_neg last]

theorem chunkLoop_keeps {submit : Nat → Nat → Nat → Int → σ → Outcome σ}
    {Keeps : Outcome σ → Prop}
    (each : ∀ chunk address len off s, Keeps (submit chunk address len off s))
    (ended : ∀ {out}, Keeps out → Keeps out.ended)
    (after : ∀ {first rest : Outcome σ}, Keeps first → Keeps rest →
      Keeps (rest.after first.statuses)) (fuel : Nat) :
    ∀ (chunk remaining address : Nat) (off : Int) (s : σ),
      Keeps (chunkLoop submit fuel chunk remaining address off s) := by
  induction fuel with
  | zero =>
      intro chunk remaining address off s
      exact ended (each chunk address remaining off s)
  | succ fuel induction =>
      intro chunk remaining address off s
      rw [chunkLoop]
      split
      · split
        · exact after (each chunk address maxBytes off s)
            (induction _ _ _ _ _)
        · exact ended (each chunk address maxBytes off s)
      · exact ended (each chunk address remaining off s)

def toSsize (count : Nat) : Int :=
  if count % 2 ^ 32 < 2 ^ 31 then (count % 2 ^ 32 : Nat)
  else (count % 2 ^ 32 : Nat) - 2 ^ 32

structure FileOutcome (σ : Type) extends Outcome σ where
  fPos : Int

/-- All chunks of a call.  A call that succeeds returns `countAtEnd` and moves
the position by it. -/
def transfer (submit : Nat → Nat → Nat → Int → σ → Outcome σ)
    (address count countAtEnd : Nat) (fPos : Int) (s : σ) : FileOutcome σ :=
  match (chunkLoop submit count 0 count address fPos s).result with
  | .ok 0 =>
      { chunkLoop submit count 0 count address fPos s with
        result := .ok (toSsize countAtEnd)
        fPos := toLoff (fPos + (countAtEnd % 2 ^ 32 : Nat)) }
  | _ => { chunkLoop submit count 0 count address fPos s with fPos := fPos }

end Loop

inductive Whence
  | seekSet
  | seekCur
  | seekEnd
  | other (value : Int)
deriving DecidableEq, Repr

structure CharioPhysIo where
  address : Nat
  length : Nat
deriving DecidableEq, Repr

inductive IoctlCmd
  | readPhys
  | writePhys
  | other (code : Nat)
deriving DecidableEq, Repr

section Operations

variable {σ : Type}
variable (execute : List PrpBlock → RwCommand → σ → Nat × σ)
variable (pageSize : Nat) (ns : NvmeNs) (services : Nat → Service)

def devRead (buf count : Nat) (fPos : Int) (s : σ) : FileOutcome σ :=
  transfer (fun chunk buffer len off =>
    submitUserIo execute pageSize ns (services chunk) buffer len off .read)
    buf count count fPos s

def devWrite (buf count : Nat) (fPos : Int) (s : σ) : FileOutcome σ :=
  transfer (fun chunk buffer len off =>
    submitUserIo execute pageSize ns (services chunk) buffer len off .write)
    buf count count fPos s

/-- `submit_phys_io`.  The argument is read once before the chunks and once
after them, as `ioAtEnd`. -/
def submitPhysIo (io ioAtEnd : CharioPhysIo) (command : NvmeOpcode)
    (fPos : Int) (s : σ) : FileOutcome σ :=
  transfer (fun chunk address len off =>
    submitPhysChunk execute pageSize ns (services chunk) address len
      off command)
    (io.address % 2 ^ 32) io.length ioAtEnd.length fPos s

def devLlseek (off : Int) (whence : Whence) (fPos : Int) : Int × Int :=
  match whence with
  | .seekSet => if off < 0 then (-einval, fPos) else (off, off)
  | .seekCur =>
      if toLoff (fPos + off) < 0 then (-einval, fPos)
      else (toLoff (fPos + off), toLoff (fPos + off))
  | .seekEnd => (-espipe, fPos)
  | .other _ => (-einval, fPos)

def devIoctl (cmd : IoctlCmd) (io ioAtEnd : CharioPhysIo) (fPos : Int) (s : σ) :
    FileOutcome σ :=
  match cmd with
  | .readPhys =>
      submitPhysIo execute pageSize ns services io ioAtEnd .read fPos s
  | .writePhys =>
      submitPhysIo execute pageSize ns services io ioAtEnd .write fPos s
  | .other _ => ⟨⟨s, [], .ok (-einval)⟩, fPos⟩

end Operations

inductive FileCall
  | llseek (off : Int) (whence : Whence)
  | read (buf count : Nat)
  | write (buf count : Nat)
  | ioctl (cmd : IoctlCmd) (io ioAtEnd : CharioPhysIo)
deriving DecidableEq, Repr

def FileCall.run {σ : Type}
    (execute : List PrpBlock → RwCommand → σ → Nat × σ) (pageSize : Nat)
    (ns : NvmeNs) (services : Nat → Service) (call : FileCall) (fPos : Int)
    (s : σ) : FileOutcome σ :=
  match call with
  | .llseek off whence =>
      ⟨⟨s, [], .ok (devLlseek off whence fPos).1⟩,
        (devLlseek off whence fPos).2⟩
  | .read buf count => devRead execute pageSize ns services buf count fPos s
  | .write buf count => devWrite execute pageSize ns services buf count fPos s
  | .ioctl cmd io ioAtEnd =>
      devIoctl execute pageSize ns services cmd io ioAtEnd fPos s

end Chario.Device
