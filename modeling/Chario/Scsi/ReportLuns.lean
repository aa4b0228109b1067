import Chario.Scsi.Unmap

namespace Chario.Scsi

open Chario.Library Chario.Nvme

/-! REPORT LUNS: one entry for each namespace of the controller. -/

def writeAt (response : Nat → UInt8) (offset : Nat) (bytes : List UInt8) :
    Nat → UInt8 :=
  fun i =>
    if offset ≤ i ∧ i < offset + bytes.length then bytes.getD (i - offset) 0
    else response i

def lunEntrySize : Nat := 8

def lunDataHeaderSize : Nat := 8

def reportLunsFirstLunOffset : Nat := 8

/-- The loop over the namespaces with so many left.  `lun_id_offset` is a
byte. -/
def lunLoop : Nat → Nat → Nat → (Nat → UInt8) → Nat → UInt8
  | 0, _, _, response => response
  | left + 1, lunId, lunIdOffset, response =>
      lunLoop left (lunId + 1) ((lunIdOffset + lunEntrySize) % 2 ^ 8)
        (writeAt response lunIdOffset (toBigEndian 8 lunId))

/-- The response, from memory that `kzalloc` has cleared, with the length of the
list in front. -/
def lunResponse (nn : Nat) : Nat → UInt8 :=
  writeAt (lunLoop nn 0 reportLunsFirstLunOffset (fun _ => 0)) 0
    (toBigEndian 4 (nn * lunEntrySize % 2 ^ 32))

/-- What a call meets outside the translation: the result of `nvme_identify` and
the number of namespaces, and the memory of the caller. -/
structure LunsEnv where
  dmaAlloc : Bool
  identify : Int
  nn : Nat
  kzalloc : Bool
  user : UserSpace
  writable : Bool

def allLunsReturned : Nat := 2

def invalidCdb : Sense := ⟨samStatCheckCondition, illegalRequest, 0x24, 0x00⟩

def nvmeTransReportLuns (env : LunsEnv) (hdr : SgIoHdr) (cmd : Cdb) :
    (Int × SgIoHdr) × UserSpace :=
  let allocLen := (getU32FromCdb cmd 6).toNat
  -- 0, 1 and 2 are the reports there are
  if allLunsReturned < (getU8FromCdb cmd 2).toNat % 2 ^ 8 then
    (nvmeTransCompletion env.writable hdr invalidCdb, env.user)
  else if env.dmaAlloc = false then ((-enomem, hdr), env.user)
  else
    let answered := nvmeTransStatusCode env.writable hdr env.identify
    if answered.1 ≠ 0 then (answered, env.user)
    else if env.identify ≠ 0 then ((env.identify, answered.2), env.user)
    else
      let respSize :=
        (env.nn * lunEntrySize % 2 ^ 32 + lunDataHeaderSize) % 2 ^ 32
      if allocLen < respSize then
        (nvmeTransCompletion env.writable answered.2 invalidCdb, env.user)
      else if env.kzalloc = false then ((-enomem, answered.2), env.user)
      else
        let copied := nvmeTransCopyToUser env.user answered.2
          (bytesAt (lunResponse env.nn) 0 (min allocLen respSize))
        ((copied.1, answered.2), copied.2)

def encodeLuns (luns : List Nat) : List UInt8 :=
  toBigEndian 4 (luns.length * 8) ++ [0, 0, 0, 0] ++
    luns.flatMap (toBigEndian 8)

theorem writeAt_outside {response : Nat → UInt8} {offset i : Nat}
    {bytes : List UInt8}
    (outside : offset + bytes.length ≤ i) : writeAt response offset bytes i =
      response i := by
  unfold writeAt
  rw [if_neg (by omega)]

theorem lunLoop_beyond {left lunId lunIdOffset i : Nat} {response : Nat → UInt8}
    (aligned : lunIdOffset % 8 = 0) (narrow : lunIdOffset < 256)
    (beyond : 256 ≤ i) :
    lunLoop left lunId lunIdOffset response i = response i := by
  induction left generalizing lunId lunIdOffset response with
  | zero => rfl
  | succ left induction =>
      unfold lunLoop lunEntrySize
      rw [induction (by omega) (by omega)]
      refine writeAt_outside ?_
      rw [length_toBigEndian]
      omega

theorem lunResponse_beyond {nn i : Nat} (beyond : 256 ≤ i) :
    lunResponse nn i = 0 := by
  unfold lunResponse
  rw [writeAt_outside (by rw [length_toBigEndian]; omega),
    lunLoop_beyond (by decide) (by decide) beyond]

theorem bytesAt_add (memory : Nat → UInt8) (offset first rest : Nat) :
    bytesAt memory offset (first + rest) =
      bytesAt memory offset first ++ bytesAt memory (offset + first) rest := by
  unfold bytesAt
  rw [← List.map_append, List.range'_append_1]

theorem bytesAt_congr {memory other : Nat → UInt8} {offset width : Nat}
    (same : ∀ i, offset ≤ i → i < offset + width → memory i = other i) :
    bytesAt memory offset width = bytesAt other offset width := by
  apply List.map_congr_left
  intro i member
  rw [List.mem_range'_1] at member
  exact same i member.1 member.2

theorem bytesAt_writeAt (response : Nat → UInt8) (offset : Nat)
    (bytes : List UInt8) :
    bytesAt (writeAt response offset bytes) offset bytes.length = bytes := by
  unfold bytesAt
  apply List.ext_getElem
  · rw [List.length_map, List.length_range']
  · intro i below inside
    rw [List.getElem_map, List.getElem_range'_1, writeAt, if_pos (by omega),
      Nat.add_sub_cancel_left, List.getD_eq_getElem _ _ inside]

theorem lunLoop_before {left lunId lunIdOffset i : Nat}
    {response : Nat → UInt8} (fits : lunIdOffset + 8 * left ≤ 256)
    (before : i < lunIdOffset) :
    lunLoop left lunId lunIdOffset response i = response i := by
  induction left generalizing lunId lunIdOffset response with
  | zero => rfl
  | succ left induction =>
      have outside : writeAt response lunIdOffset (toBigEndian 8 lunId) i =
          response i := by
        unfold writeAt
        rw [if_neg (by omega)]
      unfold lunLoop lunEntrySize
      cases left with
      | zero => exact outside
      | succ left =>
          -- another entry follows, so that the byte has not wrapped
          rw [Nat.mod_eq_of_lt (by omega), induction (by omega) (by omega)]
          exact outside

/-- As long as the offsets fit the byte, the loop writes the entries one after the
other. -/
theorem lunLoop_entries {left lunId lunIdOffset : Nat} {response : Nat → UInt8}
    (fits : lunIdOffset + 8 * left ≤ 256) :
    bytesAt (lunLoop left lunId lunIdOffset response) lunIdOffset (8 * left) =
      (List.range' lunId left).flatMap (toBigEndian 8) := by
  induction left generalizing lunId lunIdOffset response with
  | zero => rfl
  | succ left induction =>
      have entry : bytesAt (writeAt response lunIdOffset (toBigEndian 8 lunId))
          lunIdOffset 8 = toBigEndian 8 lunId :=
        bytesAt_writeAt response lunIdOffset (toBigEndian 8 lunId)
      rw [show 8 * (left + 1) = 8 + 8 * left by omega, bytesAt_add,
        List.range'_succ, List.flatMap_cons]
      unfold lunLoop lunEntrySize
      cases left with
      | zero => exact congrArg (· ++ []) entry
      | succ left =>
          rw [Nat.mod_eq_of_lt (by omega), induction (by omega)]
          congr 1
          refine Eq.trans (bytesAt_congr ?_) entry
          intro i _ inside
          exact lunLoop_before (by omega) inside

theorem lunResponse_few {nn : Nat} (few : nn ≤ 31) :
    bytesAt (lunResponse nn) 0 (nn * 8 + 8) = encodeLuns (List.range nn) := by
  have header : bytesAt (lunResponse nn) 0 4 = toBigEndian 4 (nn * 8) := by
    have stored := bytesAt_writeAt
      (lunLoop nn 0 reportLunsFirstLunOffset (fun _ => 0)) 0
      (toBigEndian 4 (nn * lunEntrySize % 2 ^ 32))
    rw [length_toBigEndian] at stored
    unfold lunResponse
    rw [stored, lunEntrySize, Nat.mod_eq_of_lt (by omega)]
  have behind : ∀ i, 4 ≤ i → lunResponse nn i =
      lunLoop nn 0 reportLunsFirstLunOffset (fun _ => 0) i := by
    intro i beyond
    exact writeAt_outside (by rw [length_toBigEndian]; omega)
  have reserved : bytesAt (lunResponse nn) 4 4 = [0, 0, 0, 0] := by
    have cleared : bytesAt (lunResponse nn) 4 4 = bytesAt (fun _ => 0) 4 4 := by
      apply bytesAt_congr
      intro i beyond inside
      rw [behind i beyond]
      unfold reportLunsFirstLunOffset
      exact lunLoop_before (by omega) (by omega)
    exact cleared
  have entries : bytesAt (lunResponse nn) 8 (8 * nn) =
      (List.range nn).flatMap (toBigEndian 8) := by
    rw [bytesAt_congr fun i beyond _ => behind i (by omega),
      List.range_eq_range']
    exact lunLoop_entries (by unfold reportLunsFirstLunOffset; omega)
  unfold encodeLuns
  rw [show nn * 8 + 8 = 4 + (4 + 8 * nn) by omega, bytesAt_add, bytesAt_add,
    header, List.length_range, List.append_assoc, ← reserved, ← entries]

theorem lunResponse_many {nn : Nat} (many : 32 ≤ nn) :
    bytesAt (lunResponse nn) 0 (nn * 8 + 8) ≠ encodeLuns (List.range nn) := by
  intro equal
  have inside : 31 < (List.range nn).length := by
    rw [List.length_range]
    omega
  obtain ⟨more, isMore⟩ := drop_records (length_toBigEndian 8) inside []
  rw [List.append_nil] at isMore
  have named : ((encodeLuns (List.range nn)).drop 256).take 8 =
      toBigEndian 8 31 := by
    unfold encodeLuns
    rw [show 256 = 8 + 8 * 31 by rfl, ← List.drop_drop,
      List.drop_left' (by simp), isMore,
      List.take_left' (length_toBigEndian ..), List.get_eq_getElem,
      List.getElem_range]
  have cleared : ((bytesAt (lunResponse nn) 0 (nn * 8 + 8)).drop 256).take 8 =
      List.replicate 8 0 := by
    unfold bytesAt
    rw [← List.map_drop, ← List.map_take, List.eq_replicate_iff]
    constructor
    · simp
      omega
    · intro byte member
      obtain ⟨i, isIn, rfl⟩ := List.mem_map.mp member
      have beyond := List.mem_of_mem_take isIn
      rw [List.drop_range', List.mem_range'_1] at beyond
      exact lunResponse_beyond (by omega)
  rw [equal, named] at cleared
  exact absurd cleared (by decide)

section Report

variable {env : LunsEnv} {hdr hdr' : SgIoHdr} {cmd : Cdb}

theorem nvmeTransReportLuns_copied (small : env.nn * 8 + 8 < 2 ^ 32)
    (ran : (nvmeTransReportLuns env hdr cmd).1 = (0, hdr'))
    (good : hdr'.status = samStatGood) :
    let copied := nvmeTransCopyToUser env.user hdr.good
      (bytesAt (lunResponse env.nn) 0 (env.nn * 8 + 8))
    copied.1 = 0 ∧ (nvmeTransReportLuns env hdr cmd).2 = copied.2 := by
  have size : (env.nn * lunEntrySize % 2 ^ 32 + lunDataHeaderSize) % 2 ^ 32 =
      env.nn * 8 + 8 := by
    unfold lunEntrySize lunDataHeaderSize
    omega
  have refused : ∀ header, nvmeTransCompletion env.writable header invalidCdb ≠
      (0, hdr') := by
    intro header same
    have status : samStatCheckCondition = hdr'.status :=
      congrArg (fun done => done.2.status) same
    rw [← status] at good
    exact absurd good (by decide)
  unfold nvmeTransReportLuns at ran ⊢
  dsimp only at ran ⊢
  rw [size] at ran ⊢
  split at ran
  next => exact absurd ran (refused _)
  next known =>
  rw [if_neg known]
  split at ran
  next => cases ran
  next allocated =>
  rw [if_neg allocated]
  split at ran
  next failed => exact absurd (congrArg Prod.fst ran) failed
  next answered =>
  rw [if_neg answered]
  split at ran
  next failed => exact absurd (congrArg Prod.fst ran) failed
  next identified =>
  rw [if_neg identified]
  split at ran
  next => exact absurd ran (refused _)
  next room =>
  rw [if_neg room]
  split at ran
  next => cases ran
  next cleared =>
    rw [if_neg cleared]
    rw [Nat.min_eq_right (Nat.le_of_not_lt room)] at ran ⊢
    have header : (nvmeTransStatusCode env.writable hdr env.identify).2 =
        hdr.good := by
      rw [not_not.mp identified]
      rfl
    rw [header] at ran ⊢
    exact ⟨congrArg Prod.fst ran, rfl⟩

/-- A caller with room for the list has the list of all namespaces exactly when
there are at most 31: the entry after that begins at offset 256, which does not
fit the byte. -/
theorem reportLuns_exact_iff (small : env.nn * 8 + 8 < 2 ^ 32)
    (receives : Receives env.user hdr (env.nn * 8 + 8))
    (ran : (nvmeTransReportLuns env hdr cmd).1 = (0, hdr'))
    (good : hdr'.status = samStatGood) :
    (callerPlaces env.user hdr (env.nn * 8 + 8)).map
        (nvmeTransReportLuns env hdr cmd).2.bytes =
      encodeLuns (List.range env.nn) ↔ env.nn ≤ 31 := by
  obtain ⟨whole, after⟩ := nvmeTransReportLuns_copied small ran good
  have length : (bytesAt (lunResponse env.nn) 0 (env.nn * 8 + 8)).length =
      env.nn * 8 + 8 := by
    rw [bytesAt, List.length_map, List.length_range']
  have delivered := @nvmeTransCopyToUser_whole env.user hdr.good _
    ⟨length.symm ▸ receives.room, length.symm ▸ receives.once,
      length.symm ▸ receives.apart⟩ whole
  rw [length] at delivered
  rw [after]
  constructor
  · intro exact
    by_contra many
    exact lunResponse_many (by omega) (delivered.symm.trans exact)
  · intro few
    exact delivered.trans (lunResponse_few few)

end Report

def lunsMemory (address : Nat) : UInt8 :=
  [0x00, 0x30, 0, 0, 0, 1, 0, 0, 0x00, 0x10, 0, 0, 8, 0, 0, 0].getD
    (address - 8192) 0

def lunsEnv (nn : Nat) : LunsEnv where
  dmaAlloc := true
  identify := 0
  nn := nn
  kzalloc := true
  user := ⟨lunsMemory, fun _ => true⟩
  writable := true

def lunsCdb : Cdb := fun i => if i = 7 then 1 else 0

/-- One entry more than fits the byte, in two vectors. -/
theorem reportLuns_exact_thirtyTwo :
    (callerPlaces (lunsEnv 31).user (freshHdr 0 65536) 256).map
        (nvmeTransReportLuns (lunsEnv 31) (freshHdr 0 65536) lunsCdb).2.bytes =
      encodeLuns (List.range 31) ∧
    (callerPlaces (lunsEnv 32).user (freshHdr 2 65536) 264).map
        (nvmeTransReportLuns (lunsEnv 32) (freshHdr 2 65536) lunsCdb).2.bytes ≠
      encodeLuns (List.range 32) := by
  have places : callerPlaces (lunsEnv 32).user (freshHdr 2 65536) 264 =
      List.range' 12288 256 ++ List.range' 4096 8 := by decide +kernel
  have once : (List.range' 12288 256 ++ List.range' 4096 8).Nodup := by
    refine List.Nodup.append List.nodup_range' List.nodup_range' ?_
    intro place first second
    rw [List.mem_range'_1] at first second
    omega
  have single : Receives (lunsEnv 31).user (freshHdr 0 65536) 256 :=
    .single _ rfl 256
  have vectors : Receives (lunsEnv 32).user (freshHdr 2 65536) 264 :=
    ⟨by decide +kernel, places ▸ once, by decide +kernel⟩
  have ran : ∀ nn vectors, (nn, vectors) = (31, 0) ∨ (nn, vectors) = (32, 2) →
      (nvmeTransReportLuns (lunsEnv nn) (freshHdr vectors 65536) lunsCdb).1 =
        (0, (freshHdr vectors 65536).good) := by
    rintro nn vectors (same | same) <;> cases same <;> decide +kernel
  exact ⟨(reportLuns_exact_iff (by decide) single (ran 31 0 (.inl rfl)) rfl).mpr
      (by decide),
    (reportLuns_exact_iff (by decide) vectors (ran 32 2 (.inr rfl)) rfl).not.mpr
      (by decide)⟩

end Chario.Scsi
