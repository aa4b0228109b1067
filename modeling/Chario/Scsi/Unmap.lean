import Chario.Scsi.Transfer

namespace Chario.Scsi

open Chario.Library Chario.Nvme

/-! UNMAP: a parameter list in the memory of the caller, and the ranges that the
controller is told to deallocate. -/

structure DsmCommand where
  nsid : Nat
  prp1 : Nat
  nr : Nat
  attributes : Nat
  ranges : List DsmRange
deriving DecidableEq, Repr

def nvmeDsmgmtAd : Nat := 4

/-- What a call meets outside the translation.  `stale` is what the memory from
`kmalloc` on holds before anything is copied to it. -/
structure UnmapEnv where
  user : UserSpace
  stale : Nat → UInt8
  kmalloc : Bool
  range : Option Nat
  submit : DsmCommand → Int
  writable : Bool

def parmList (stale : Nat → UInt8) (copied : List UInt8) : Nat → UInt8 :=
  fun i => copied[i]?.getD (stale i)

def bytesAt (memory : Nat → UInt8) (offset width : Nat) : List UInt8 :=
  (List.range' offset width).map memory

/-- `desc[i]`, of 16 bytes, after a header of 8. -/
def unmapRange (plist : Nat → UInt8) (i : Nat) : DsmRange where
  nlb := bigEndian (bytesAt plist (8 + 16 * i + 8) 4)
  slba := bigEndian (bytesAt plist (8 + 16 * i) 8)

def unmapCdbParamListLengthOffset : Nat := 7

def unmapListLen (cmd : Cdb) : Nat :=
  (getU16FromCdb cmd unmapCdbParamListLengthOffset).toNat % 2 ^ 16

def unmapNdesc (plist : Nat → UInt8) : Nat := bigEndian (bytesAt plist 2 2) / 16

def unmapCommand (ns : NvmeNs) (dmaAddr : Nat) (plist : Nat → UInt8) :
    DsmCommand where
  nsid := ns.nsId
  prp1 := dmaAddr
  nr := unmapNdesc plist - 1
  attributes := nvmeDsmgmtAd
  ranges := (List.range (unmapNdesc plist)).map (unmapRange plist)

/-- With the commands that are sent.  When no memory is left for the ranges the
result is still that of the copy. -/
def nvmeTransUnmap (env : UnmapEnv) (ns : NvmeNs) (hdr : SgIoHdr) (cmd : Cdb) :
    (Int × SgIoHdr) × List DsmCommand :=
  if unmapListLen cmd = 0 then ((-einval, hdr), [])
  else if env.kmalloc = false then ((-enomem, hdr), [])
  else
    let copied := nvmeTransCopyFromUser env.user hdr (unmapListLen cmd)
    if copied.1 ≠ 0 then ((copied.1, hdr), [])
    else
      let plist := parmList env.stale copied.2
      if unmapNdesc plist = 0 ∨ 256 < unmapNdesc plist then ((-einval, hdr), [])
      else
        match env.range with
        | none => ((copied.1, hdr), [])
        | some dmaAddr =>
            let c := unmapCommand ns dmaAddr plist
            (nvmeTransStatusCode env.writable hdr (env.submit c), [c])

/-! ## What the standard says of the list -/

def encodeDescriptor (range : DsmRange) : List UInt8 :=
  toBigEndian 8 range.slba ++ toBigEndian 4 range.nlb ++ [0, 0, 0, 0]

/-- The lengths count the bytes after their own field and the bytes of the
descriptors. -/
def encodeUnmap (ranges : List DsmRange) : List UInt8 :=
  toBigEndian 2 (16 * ranges.length + 6) ++
    toBigEndian 2 (16 * ranges.length) ++
    [0, 0, 0, 0] ++ ranges.flatMap encodeDescriptor

def DescriptorFits (range : DsmRange) : Prop :=
  range.slba < 2 ^ 64 ∧ range.nlb < 2 ^ 32

section Lists

variable {stale : Nat → UInt8} {copied rest : List UInt8}
    {ranges : List DsmRange}

theorem bytesAt_inside {offset width : Nat}
    (inside : offset + width ≤ copied.length) :
    bytesAt (parmList stale copied) offset width =
      (copied.drop offset).take width := by
  apply List.ext_getElem
  · simp [bytesAt]
    omega
  · intro i below _
    have within : offset + i < copied.length := by
      simp [bytesAt] at below
      omega
    simp [bytesAt, parmList, within]

theorem parmList_beyond {i : Nat} (beyond : copied.length ≤ i) :
    parmList stale copied i = stale i := by
  unfold parmList
  rw [List.getElem?_eq_none beyond]
  rfl

theorem unmapRange_inside {other : Nat → UInt8} {i : Nat}
    (inside : 8 + 16 * i + 12 ≤ copied.length) :
    unmapRange (parmList stale copied) i =
      unmapRange (parmList other copied) i := by
  unfold unmapRange
  rw [bytesAt_inside (by omega), bytesAt_inside (by omega),
    bytesAt_inside (by omega),
    bytesAt_inside (by omega)]

theorem unmapRange_low (plist : Nat → UInt8) (i : Nat) :
    (unmapRange plist i).nlb % 256 = (plist (8 + 16 * i + 11)).toNat := by
  have split : bytesAt plist (8 + 16 * i + 8) 4 =
      bytesAt plist (8 + 16 * i + 8) 3 ++ [plist (8 + 16 * i + 11)] := rfl
  unfold unmapRange
  dsimp only
  rw [split, bigEndian_append]
  simp [bigEndian]

theorem length_encodeDescriptor (range : DsmRange) :
    (encodeDescriptor range).length = 16 := by
  simp [encodeDescriptor]

theorem length_encodeUnmap :
    (encodeUnmap ranges).length = 8 + 16 * ranges.length := by
  have descriptors := length_records length_encodeDescriptor ranges
  simp [encodeUnmap, descriptors]
  omega

/-- The `i`-th descriptor of a list that was encoded is the `i`-th range. -/
theorem unmapRange_encoded {i : Nat} (inside : i < ranges.length)
    (fits : DescriptorFits (ranges.get ⟨i, inside⟩)) :
    unmapRange (parmList stale (encodeUnmap ranges ++ rest)) i =
      ranges.get ⟨i, inside⟩ := by
  obtain ⟨more, isMore⟩ := drop_records length_encodeDescriptor inside rest
  have dropped : (encodeUnmap ranges ++ rest).drop (8 + 16 * i) =
      encodeDescriptor (ranges.get ⟨i, inside⟩) ++ more := by
    unfold encodeUnmap
    rw [List.append_assoc, ← List.drop_drop, List.drop_left' (by simp), isMore]
  have room : 8 + 16 * i + 12 ≤ (encodeUnmap ranges ++ rest).length := by
    rw [List.length_append, length_encodeUnmap]
    omega
  unfold encodeDescriptor at dropped
  rw [List.append_assoc, List.append_assoc] at dropped
  have slba :
      bytesAt (parmList stale (encodeUnmap ranges ++ rest)) (8 + 16 * i) 8 =
      toBigEndian 8 (ranges.get ⟨i, inside⟩).slba := by
    rw [bytesAt_inside (by omega), dropped,
      List.take_left' (length_toBigEndian ..)]
  have nlb :
      bytesAt (parmList stale (encodeUnmap ranges ++ rest)) (8 + 16 * i + 8) 4 =
      toBigEndian 4 (ranges.get ⟨i, inside⟩).nlb := by
    rw [bytesAt_inside (by omega), ← List.drop_drop, dropped,
      List.drop_left' (length_toBigEndian ..),
      List.take_left' (length_toBigEndian ..)]
  unfold unmapRange
  rw [slba, nlb, bigEndian_toBigEndian_of_lt (fits.1.trans_eq (by norm_num)),
    bigEndian_toBigEndian_of_lt (fits.2.trans_eq (by norm_num))]

theorem unmapNdesc_encoded (few : ranges.length ≤ 256) :
    unmapNdesc (parmList stale (encodeUnmap ranges ++ rest)) =
      ranges.length := by
  have count : bytesAt (parmList stale (encodeUnmap ranges ++ rest)) 2 2 =
      toBigEndian 2 (16 * ranges.length) := by
    rw [bytesAt_inside (by rw [List.length_append, length_encodeUnmap]; omega)]
    unfold encodeUnmap
    rw [List.append_assoc, List.append_assoc, List.append_assoc,
      List.drop_left' (length_toBigEndian ..),
      List.take_left' (length_toBigEndian ..)]
  unfold unmapNdesc
  rw [count, bigEndian_toBigEndian_of_lt (by omega)]
  omega

end Lists

/-! ## UNMAP -/

section Unmap

variable {env : UnmapEnv} {ns : NvmeNs} {hdr : SgIoHdr} {cmd : Cdb}
    {dmaAddr : Nat}

theorem nvmeTransUnmap_copied {copied : List UInt8}
    (listed : unmapListLen cmd ≠ 0)
    (kmalloc : env.kmalloc = true) (granted : env.range = some dmaAddr)
    (isCopied : nvmeTransCopyFromUser env.user hdr (unmapListLen cmd) =
      (0, copied)) :
    nvmeTransUnmap env ns hdr cmd =
      let plist := parmList env.stale copied
      if unmapNdesc plist = 0 ∨ 256 < unmapNdesc plist then ((-einval, hdr), [])
      else
        (nvmeTransStatusCode env.writable hdr
          (env.submit (unmapCommand ns dmaAddr plist)),
          [unmapCommand ns dmaAddr plist]) := by
  unfold nvmeTransUnmap
  rw [if_neg listed, if_neg (by rw [kmalloc]; decide), isCopied, granted]
  rfl

/-- A list as the standard has it, in one buffer or in any vectors: the
controller is told to deallocate exactly its ranges, in one command, and the
caller gets the status of that command. -/
theorem unmap_roundTrip {ranges : List DsmRange} {rest : List UInt8}
    (named : ranges ≠ []) (few : ranges.length ≤ 256)
    (fit : ∀ range ∈ ranges, DescriptorFits range)
    (kmalloc : env.kmalloc = true) (granted : env.range = some dmaAddr)
    (read : (nvmeTransCopyFromUser env.user hdr (unmapListLen cmd)).1 = 0)
    (data : callerBytes env.user hdr (unmapListLen cmd) =
      encodeUnmap ranges ++ rest) :
    nvmeTransUnmap env ns hdr cmd =
      let c : DsmCommand :=
        ⟨ns.nsId, dmaAddr, ranges.length - 1, nvmeDsmgmtAd, ranges⟩
      (nvmeTransStatusCode env.writable hdr (env.submit c), [c]) := by
  have isCopied : nvmeTransCopyFromUser env.user hdr (unmapListLen cmd) =
      (0, encodeUnmap ranges ++ rest) :=
    Prod.ext read ((nvmeTransCopyFromUser_whole read).trans data)
  have listed : unmapListLen cmd ≠ 0 := by
    intro isZero
    have most := length_callerBytes_le env.user hdr (unmapListLen cmd)
    rw [data, isZero, List.length_append, length_encodeUnmap] at most
    omega
  have positive : 0 < ranges.length := List.length_pos_iff.mpr named
  have count : unmapNdesc (parmList env.stale (encodeUnmap ranges ++ rest)) =
      ranges.length := unmapNdesc_encoded few
  have same : (List.range ranges.length).map
      (unmapRange (parmList env.stale (encodeUnmap ranges ++ rest))) =
        ranges := by
    apply List.ext_getElem
    · simp
    · intro i _ inside
      rw [List.getElem_map, List.getElem_range]
      exact unmapRange_encoded inside (fit _ (List.getElem_mem inside))
  rw [nvmeTransUnmap_copied listed kmalloc granted isCopied]
  dsimp only
  unfold unmapCommand
  rw [count, if_neg (by omega), same]

def twoRanges : List DsmRange := [⟨8, 7⟩, ⟨1, 2 ^ 40⟩]

def splitMemory (address : Nat) : UInt8 :=
  if address < 16 then
    [100, 0, 0, 0, 20, 0, 0, 0, 200, 0, 0, 0, 20, 0, 0, 0].getD address 0
  else if address < 200 then (encodeUnmap twoRanges).getD (address - 100) 0
  else (encodeUnmap twoRanges).getD (address - 200 + 20) 0

def splitEnv : UnmapEnv where
  user := ⟨splitMemory, fun _ => true⟩
  stale _ := 0
  kmalloc := true
  range := some 4096
  submit _ := 0
  writable := true

def splitHdr : SgIoHdr := { freshHdr 2 40 with dxferp := 0 }

def unmapCdb (listLen : UInt8) : Cdb := fun i => if i = 8 then listLen else 0

theorem unmap_roundTrip_split :
    nvmeTransUnmap splitEnv pagedNs splitHdr (unmapCdb 40) =
      ((0, splitHdr.good),
        [⟨pagedNs.nsId, 4096, 1, nvmeDsmgmtAd, twoRanges⟩]) := by
  have fit : ∀ range ∈ twoRanges, DescriptorFits range := by
    unfold DescriptorFits
    decide
  have read : (nvmeTransCopyFromUser splitEnv.user splitHdr
      (unmapListLen (unmapCdb 40))).1 = 0 := by
    decide +kernel
  have data : callerBytes splitEnv.user splitHdr (unmapListLen (unmapCdb 40)) =
      encodeUnmap twoRanges ++ [] := by
    decide +kernel
  have granted : splitEnv.range = some 4096 := rfl
  exact unmap_roundTrip (by decide) (by decide) fit rfl granted read data

/-- The ranges are those of the caller whatever the memory held before, exactly
when the descriptors that the header counts lie in the bytes that were copied.
The code does not compare the two lengths. -/
theorem unmap_ranges_copied_iff {copied : List UInt8}
    (listed : unmapListLen cmd ≠ 0)
    (kmalloc : env.kmalloc = true) (granted : env.range = some dmaAddr)
    (isCopied : nvmeTransCopyFromUser env.user hdr (unmapListLen cmd) =
      (0, copied))
    (header : 4 ≤ copied.length) :
    (∀ stale, (nvmeTransUnmap { env with stale := stale } ns hdr cmd).2 =
      (nvmeTransUnmap env ns hdr cmd).2) ↔
      let ndesc := bigEndian ((copied.drop 2).take 2) / 16
      ndesc = 0 ∨ 256 < ndesc ∨ 16 * ndesc + 4 ≤ copied.length := by
  have sent : ∀ stale,
      (nvmeTransUnmap { env with stale := stale } ns hdr cmd).2 =
      if unmapNdesc (parmList stale copied) = 0 ∨
        256 < unmapNdesc (parmList stale copied)
      then [] else [unmapCommand ns dmaAddr (parmList stale copied)] := by
    intro stale
    have ran : nvmeTransUnmap { env with stale := stale } ns hdr cmd = _ :=
      nvmeTransUnmap_copied listed kmalloc granted isCopied
    rw [ran]
    dsimp only
    split <;> rfl
  have own : (nvmeTransUnmap env ns hdr cmd).2 = _ := sent env.stale
  have count : ∀ stale, unmapNdesc (parmList stale copied) =
      bigEndian ((copied.drop 2).take 2) / 16 := by
    intro stale
    unfold unmapNdesc
    rw [bytesAt_inside header]
  dsimp only
  rw [own]
  simp only [sent, count]
  generalize isNdesc : bigEndian ((copied.drop 2).take 2) / 16 =
    ndesc at count ⊢
  by_cases refused : ndesc = 0 ∨ 256 < ndesc
  · simp only [if_pos refused]
    exact iff_of_true (fun _ => trivial) (refused.imp_right .inl)
  · simp only [if_neg refused]
    constructor
    · intro same
      by_contra short
      have equal := (same (fun _ => 0)).trans (same (fun _ => 255)).symm
      have ranges := congrArg DsmCommand.ranges (List.singleton_inj.mp equal)
      unfold unmapCommand at ranges
      rw [count, count] at ranges
      have last :=
        List.map_inj_left.mp ranges (ndesc - 1) (List.mem_range.mpr (by omega))
      have low :
          (unmapRange (parmList (fun _ => 0) copied) (ndesc - 1)).nlb % 256 =
          (unmapRange (parmList (fun _ => 255) copied) (ndesc - 1)).nlb %
            256 := by
        rw [last]
      have beyond : copied.length ≤ 8 + 16 * (ndesc - 1) + 11 := by omega
      rw [unmapRange_low, unmapRange_low, parmList_beyond beyond,
        parmList_beyond beyond]
        at low
      exact absurd low (by decide)
    · intro inside stale
      unfold unmapCommand
      rw [count, count]
      have same : (List.range ndesc).map (unmapRange (parmList stale copied)) =
          (List.range ndesc).map (unmapRange (parmList env.stale copied)) := by
        refine List.map_inj_left.mpr (fun i below => unmapRange_inside ?_)
        have := List.mem_range.mp below
        omega
      rw [same]

/-- A list length that cuts the second descriptor off: the range that is sent
for it is what the memory held. -/
theorem unmap_ranges_copied_cut :
    ¬ ∀ stale, (nvmeTransUnmap { splitEnv with stale := stale } pagedNs splitHdr
        (unmapCdb 24)).2 =
        (nvmeTransUnmap splitEnv pagedNs splitHdr (unmapCdb 24)).2 := by
  have isCopied : nvmeTransCopyFromUser splitEnv.user splitHdr
      (unmapListLen (unmapCdb 24)) =
      (0, (encodeUnmap twoRanges).take 24) := by
    decide +kernel
  rw [unmap_ranges_copied_iff (by decide) rfl rfl isCopied (by decide)]
  decide +kernel

end Unmap

end Chario.Scsi
