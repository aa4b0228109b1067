import Mathlib.Data.List.Basic
import Mathlib.Data.Nat.Bitwise
import Chario.Nvme.Submit

namespace Chario.Scsi

open Chario.Nvme

/-! The status that a translated command leaves in the header of the request. -/

/-- The fields of `struct sg_io_hdr` that the translation of READ and WRITE
uses; `sense` is what was last copied to `sbp`. -/
structure SgIoHdr where
  iovecCount : Nat
  dxferLen : Nat
  dxferp : Nat
  mxSbLen : UInt8
  status : UInt8
  maskedStatus : UInt8
  hostStatus : Nat
  driverStatus : Nat
  sbLenWr : UInt8
  sense : List UInt8
deriving DecidableEq, Repr

structure Sense where
  status : UInt8
  senseKey : UInt8
  asc : UInt8
  ascq : UInt8
deriving DecidableEq, Repr

def samStatGood : UInt8 := 0x00

def samStatCheckCondition : UInt8 := 0x02

def samStatIntermediate : UInt8 := 0x10

def samStatIntermediateConditionMet : UInt8 := 0x14

def samStatCommandTerminated : UInt8 := 0x22

def samStatTaskAborted : UInt8 := 0x40

def scsiStatusIsGood (status : UInt8) : Bool :=
  status &&& 0xfe = samStatGood || status &&& 0xfe = samStatIntermediate ||
    status &&& 0xfe = samStatIntermediateConditionMet ||
    status &&& 0xfe = samStatCommandTerminated

def noSense : UInt8 := 0x00

def notReady : UInt8 := 0x02

def mediumError : UInt8 := 0x03

def hardwareError : UInt8 := 0x04

def illegalRequest : UInt8 := 0x05

def abortedCommand : UInt8 := 0x0b

def miscompare : UInt8 := 0x0e

/-- `NVME_SC_...`, the status codes that have a translation of their own. -/
def statusTable : List (Nat × Sense) :=
  [(0x0, ⟨samStatGood, noSense, 0x00, 0x00⟩),
   -- invalid opcode, invalid field
   (0x1, ⟨samStatCheckCondition, illegalRequest, 0x20, 0x00⟩),
   (0x2, ⟨samStatCheckCondition, illegalRequest, 0x24, 0x00⟩),
   -- data transfer error, power loss, internal error
   (0x4, ⟨samStatCheckCondition, mediumError, 0x00, 0x00⟩),
   (0x5, ⟨samStatTaskAborted, abortedCommand, 0x0B, 0x08⟩),
   (0x6, ⟨samStatCheckCondition, hardwareError, 0x44, 0x00⟩),
   -- aborts: by request, by the end of the queue, of a fused pair
   (0x7, ⟨samStatTaskAborted, abortedCommand, 0x00, 0x00⟩),
   (0x8, ⟨samStatTaskAborted, abortedCommand, 0x00, 0x00⟩),
   (0x9, ⟨samStatTaskAborted, abortedCommand, 0x00, 0x00⟩),
   (0xa, ⟨samStatTaskAborted, abortedCommand, 0x00, 0x00⟩),
   -- invalid namespace, address, capacity, namespace not ready
   (0xb, ⟨samStatCheckCondition, illegalRequest, 0x20, 0x09⟩),
   (0x80, ⟨samStatCheckCondition, illegalRequest, 0x21, 0x00⟩),
   (0x81, ⟨samStatCheckCondition, mediumError, 0x00, 0x00⟩),
   (0x82, ⟨samStatCheckCondition, notReady, 0x04, 0x00⟩),
   -- invalid format, conflicting attributes
   (0x10a, ⟨samStatCheckCondition, illegalRequest, 0x31, 0x01⟩),
   (0x180, ⟨samStatCheckCondition, illegalRequest, 0x24, 0x00⟩),
   -- media errors
   (0x280, ⟨samStatCheckCondition, mediumError, 0x03, 0x00⟩),
   (0x281, ⟨samStatCheckCondition, mediumError, 0x11, 0x00⟩),
   (0x282, ⟨samStatCheckCondition, mediumError, 0x10, 0x01⟩),
   (0x283, ⟨samStatCheckCondition, mediumError, 0x10, 0x02⟩),
   (0x284, ⟨samStatCheckCondition, mediumError, 0x10, 0x03⟩),
   (0x285, ⟨samStatCheckCondition, miscompare, 0x1D, 0x00⟩),
   (0x286, ⟨samStatCheckCondition, illegalRequest, 0x20, 0x09⟩)]

/-- The `default` of the switch. -/
def unspecifiedSense : Sense :=
  ⟨samStatCheckCondition, illegalRequest, 0x00, 0x00⟩

def translatedSense (nvmeSc : Nat) : Sense :=
  (statusTable.lookup (nvmeSc % 2 ^ 11)).getD unspecifiedSense

def descFmtSenseDataSize : Nat := 8

def senseBytes (report : Sense) : List UInt8 :=
  [0x72, report.senseKey, report.asc, report.ascq, 0, 0, 0, 0]

def SgIoHdr.good (hdr : SgIoHdr) : SgIoHdr :=
  { hdr with
    status := samStatGood
    maskedStatus := 0
    hostStatus := 0
    driverStatus := 0
    sbLenWr := 0 }

/-- `writable` says whether the copy to `sbp` succeeds. -/
def nvmeTransCompletion (writable : Bool) (hdr : SgIoHdr) (report : Sense) :
    Int × SgIoHdr :=
  if scsiStatusIsGood report.status then (0, hdr.good)
  else
    let xferLen := min hdr.mxSbLen.toNat descFmtSenseDataSize
    (if writable then 0 else -efault,
      { hdr with
        status := report.status
        maskedStatus := report.status >>> 1
        hostStatus := 0
        driverStatus := 0
        sbLenWr := UInt8.ofNat xferLen
        sense :=
          if writable then (senseBytes report).take xferLen else hdr.sense })

def nvmeTransStatusCode (writable : Bool) (hdr : SgIoHdr) (nvmeSc : Int) :
    Int × SgIoHdr :=
  if nvmeSc < 0 then (nvmeSc, hdr)
  else nvmeTransCompletion writable hdr (translatedSense nvmeSc.toNat)

theorem statusTable_good : ∀ entry ∈ statusTable,
    scsiStatusIsGood entry.2.status = true → entry.1 = 0 := by
  decide

theorem statusTable_reported : ∀ entry ∈ statusTable,
    scsiStatusIsGood entry.2.status = false → entry.2.status ≠ samStatGood := by
  decide

theorem translatedSense_status {nvmeSc : Nat} (failed : nvmeSc % 2 ^ 11 ≠ 0) :
    scsiStatusIsGood (translatedSense nvmeSc).status = false ∧
      (translatedSense nvmeSc).status ≠ samStatGood := by
  unfold translatedSense
  cases found : statusTable.lookup (nvmeSc % 2 ^ 11) with
  | none => decide
  | some report =>
      obtain ⟨_, _, split, _⟩ := List.lookup_eq_some_iff.mp found
      have member : (nvmeSc % 2 ^ 11, report) ∈ statusTable := by
        rw [split]
        simp
      have notGood : scsiStatusIsGood report.status = false := by
        by_contra good
        exact failed (statusTable_good _ member (Bool.not_eq_false _ ▸ good))
      exact ⟨notGood, statusTable_reported _ member notGood⟩

section Codes

variable {writable : Bool} {hdr hdr' : SgIoHdr} {nvmeSc : Int}

/-- No failure of a command is reported as success: either the call fails or the
header tells of it. -/
theorem nvmeTransStatusCode_failure (failed : nvmeSc ≠ 0)
    (reports : 0 < nvmeSc → nvmeSc % 2 ^ 11 ≠ 0)
    (ran : nvmeTransStatusCode writable hdr nvmeSc = (0, hdr')) :
    hdr'.status ≠ samStatGood := by
  unfold nvmeTransStatusCode at ran
  split at ran
  next negative =>
      cases ran
      exact absurd negative (by decide)
  next positive =>
    have code : nvmeSc.toNat % 2 ^ 11 ≠ 0 := by
      have := reports (by omega)
      omega
    obtain ⟨notGood, status⟩ := translatedSense_status code
    unfold nvmeTransCompletion at ran
    rw [if_neg (by rw [notGood]; decide)] at ran
    have same : _ = hdr' := congrArg Prod.snd ran
    rw [← same]
    exact status

end Codes

end Chario.Scsi
