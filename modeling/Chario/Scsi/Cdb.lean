import Mathlib.Data.List.Basic
import Mathlib.Data.Nat.Bitwise
import Mathlib.Tactic.Ring
import Chario.Library.Bytes

namespace Chario.Scsi

open Chario.Library

/-! The command descriptor blocks of READ and WRITE. -/

abbrev Cdb := Nat → UInt8

section Macros

variable (cdb : Cdb) (index : Nat)

def promoted : BitVec 32 := (cdb index).toBitVec.setWidth 32

/-- The cast `(u64)cdb[index]`. -/
def widened : BitVec 64 := (cdb index).toBitVec.setWidth 64

def getU8FromCdb : BitVec 32 := promoted cdb index <<< 0

def getU16FromCdb : BitVec 32 :=
  promoted cdb index <<< 8 ||| promoted cdb (index + 1) <<< 0

/-- The type of the result is `int`: with the first byte from 0x80 on the value
is negative. -/
def getU32FromCdb : BitVec 32 :=
  promoted cdb index <<< 24 ||| promoted cdb (index + 1) <<< 16 |||
    promoted cdb (index + 2) <<< 8 ||| promoted cdb (index + 3) <<< 0

def getU64FromCdb : BitVec 64 :=
  widened cdb index <<< 56 ||| widened cdb (index + 1) <<< 48 |||
    widened cdb (index + 2) <<< 40 ||| widened cdb (index + 3) <<< 32 |||
    widened cdb (index + 4) <<< 24 ||| widened cdb (index + 5) <<< 16 |||
    widened cdb (index + 6) <<< 8 ||| widened cdb (index + 7) <<< 0

end Macros

structure NvmeTransIoCdb where
  fua : BitVec 8
  protInfo : BitVec 8
  lba : BitVec 64
  xferLen : BitVec 32
deriving DecidableEq, Repr

def ioCdbFuaMask : BitVec 32 := 0x8

def ioCdbWpMask : BitVec 32 := 0xE0

def ioCdbWpShift : Nat := 5

def io6CdbLbaMask : BitVec 32 := 0x001FFFFF

def io6DefaultTxLen : BitVec 32 := 256

def nvmeTransGetIoCdb6 (cmd : Cdb) : NvmeTransIoCdb where
  fua := 0
  protInfo := 0
  lba := (getU32FromCdb cmd 0 &&& io6CdbLbaMask).signExtend 64
  xferLen :=
    if getU8FromCdb cmd 4 = 0 then io6DefaultTxLen else getU8FromCdb cmd 4

/-- The three longer formats, which differ in where and how wide the fields are.
In the mask of the protection bits the shift binds closer than the `&`. -/
def longIoCdb (cmd : Cdb) (lba : BitVec 64) (xferLen : BitVec 32) :
    NvmeTransIoCdb where
  fua := (getU8FromCdb cmd 1 &&& ioCdbFuaMask).setWidth 8
  protInfo := (getU8FromCdb cmd 1 &&& ioCdbWpMask >>> ioCdbWpShift).setWidth 8
  lba := lba
  xferLen := xferLen

def nvmeTransGetIoCdb10 (cmd : Cdb) : NvmeTransIoCdb :=
  longIoCdb cmd ((getU32FromCdb cmd 2).signExtend 64) (getU16FromCdb cmd 7)

def nvmeTransGetIoCdb12 (cmd : Cdb) : NvmeTransIoCdb :=
  longIoCdb cmd ((getU32FromCdb cmd 2).signExtend 64) (getU32FromCdb cmd 6)

def nvmeTransGetIoCdb16 (cmd : Cdb) : NvmeTransIoCdb :=
  longIoCdb cmd (getU64FromCdb cmd 2) (getU32FromCdb cmd 10)

inductive CdbSize
  | six
  | ten
  | twelve
  | sixteen
deriving DecidableEq, Repr

def CdbSize.opcode : CdbSize → Bool → UInt8
  | .six, false => 0x08
  | .six, true => 0x0a
  | .ten, false => 0x28
  | .ten, true => 0x2a
  | .twelve, false => 0xa8
  | .twelve, true => 0xaa
  | .sixteen, false => 0x88
  | .sixteen, true => 0x8a

/-- The fields as `nvme_trans_io` reads them; none for an operation code that it
is not called with. -/
def nvmeTransIoFields (cmd : Cdb) : Option NvmeTransIoCdb :=
  if cmd 0 = 0x0a ∨ cmd 0 = 0x08 then some (nvmeTransGetIoCdb6 cmd)
  else if cmd 0 = 0x2a ∨ cmd 0 = 0x28 then some (nvmeTransGetIoCdb10 cmd)
  else if cmd 0 = 0xaa ∨ cmd 0 = 0xa8 then some (nvmeTransGetIoCdb12 cmd)
  else if cmd 0 = 0x8a ∨ cmd 0 = 0x88 then some (nvmeTransGetIoCdb16 cmd)
  else none

/-! What the block commands standard puts into the blocks. -/

structure ReadWrite where
  isWrite : Bool
  lba : Nat
  blocks : Nat
  fua : Bool
deriving DecidableEq, Repr

/-- The requests that a format has room for. -/
def ReadWrite.Fits (request : ReadWrite) : CdbSize → Prop
  | .six =>
      request.lba < 2 ^ 21 ∧ 0 < request.blocks ∧ request.blocks ≤ 256 ∧
        request.fua = false
  | .ten => request.lba < 2 ^ 32 ∧ request.blocks < 2 ^ 16
  | .twelve => request.lba < 2 ^ 32 ∧ request.blocks < 2 ^ 32
  | .sixteen => request.lba < 2 ^ 64 ∧ request.blocks < 2 ^ 32

def fuaByte (fua : Bool) : UInt8 := if fua then 0x08 else 0

def ReadWrite.encode (request : ReadWrite) (size : CdbSize) : List UInt8 :=
  size.opcode request.isWrite ::
    match size with
    | .six =>
        toBigEndian 3 request.lba ++
          [if request.blocks = 256 then 0 else UInt8.ofNat request.blocks, 0]
    | .ten =>
        fuaByte request.fua :: toBigEndian 4 request.lba ++ [0] ++
          toBigEndian 2 request.blocks ++ [0]
    | .twelve =>
        fuaByte request.fua :: toBigEndian 4 request.lba ++
          toBigEndian 4 request.blocks ++ [0, 0]
    | .sixteen =>
        fuaByte request.fua :: toBigEndian 8 request.lba ++
          toBigEndian 4 request.blocks ++ [0, 0]

/-- The array after the copy from user space: bytes past the length are those
that were on the stack. -/
def received (bytes : List UInt8) (stack : Cdb) : Cdb :=
  fun index => (bytes[index]?).getD (stack index)

section Fields

def shiftedOr (width : Nat) : List UInt8 → BitVec width
  | [] => 0
  | byte :: rest =>
      byte.toBitVec.setWidth width <<<
        (8 * rest.length) ||| shiftedOr width rest

theorem toNat_shiftedOr (width : Nat) {bytes : List UInt8}
    (fits : 8 * bytes.length ≤ width) :
    (shiftedOr width bytes).toNat = bigEndian bytes := by
  induction bytes with
  | nil => simp [shiftedOr, bigEndian]
  | cons byte rest induction =>
      rw [List.length_cons] at fits
      have radix : (256 : Nat) ^ rest.length = 2 ^ (8 * rest.length) := by
        rw [Nat.pow_mul]
      have below : bigEndian rest < 2 ^ (8 * rest.length) := by
        rw [← radix]
        exact bigEndian_lt rest
      have isByte : byte.toNat < 2 ^ 8 := byte.toNat_lt
      have wide : 2 ^ (8 * rest.length + 8) ≤ 2 ^ width :=
        Nat.pow_le_pow_right (by decide) (by omega)
      have byteFits : byte.toNat < 2 ^ width :=
        lt_of_lt_of_le isByte
          ((Nat.pow_le_pow_right (by decide) (by omega)).trans wide)
      have shifted : byte.toNat * 2 ^ (8 * rest.length) < 2 ^ width := by
        refine lt_of_lt_of_le ?_ wide
        rw [Nat.pow_add, Nat.mul_comm]
        exact Nat.mul_lt_mul_of_pos_left isByte (Nat.two_pow_pos _)
      rw [shiftedOr, BitVec.toNat_or, BitVec.toNat_shiftLeft,
        BitVec.toNat_setWidth,
        UInt8.toNat_toBitVec, induction (by omega), Nat.mod_eq_of_lt byteFits,
        Nat.shiftLeft_eq, Nat.mod_eq_of_lt shifted, bigEndian, radix,
        Nat.mul_comm byte.toNat, Nat.two_pow_add_eq_or_of_lt below]

variable (cdb : Cdb) (index : Nat)

theorem toNat_getU8 : (getU8FromCdb cdb index).toNat = (cdb index).toNat := by
  have same : getU8FromCdb cdb index = shiftedOr 32 [cdb index] := by
    simp [getU8FromCdb, promoted, shiftedOr]
  rw [same, toNat_shiftedOr 32 (by simp)]
  simp [bigEndian]

theorem toNat_getU16 : (getU16FromCdb cdb index).toNat =
    bigEndian [cdb index, cdb (index + 1)] := by
  rw [← toNat_shiftedOr 32 (by simp)]
  simp [getU16FromCdb, promoted, shiftedOr]

theorem toNat_getU32 : (getU32FromCdb cdb index).toNat =
    bigEndian
      [cdb index, cdb (index + 1), cdb (index + 2), cdb (index + 3)] := by
  rw [← toNat_shiftedOr 32 (by simp)]
  simp [getU32FromCdb, promoted, shiftedOr, BitVec.or_assoc]

theorem toNat_getU64 : (getU64FromCdb cdb index).toNat =
    bigEndian [cdb index, cdb (index + 1), cdb (index + 2), cdb (index + 3),
      cdb (index + 4), cdb (index + 5), cdb (index + 6), cdb (index + 7)] := by
  rw [← toNat_shiftedOr 64 (by simp)]
  simp [getU64FromCdb, widened, shiftedOr, BitVec.or_assoc]

end Fields

/-- What the conversion of an `int` to `u64` makes of a field of 32 bits. -/
def signExtended (value : Nat) : Nat :=
  if value < 2 ^ 31 then value else value + (2 ^ 64 - 2 ^ 32)

theorem toNat_signExtend (field : BitVec 32) :
    (field.signExtend 64).toNat = signExtended field.toNat := by
  have below := field.isLt
  rw [BitVec.toNat_signExtend, BitVec.toNat_setWidth, BitVec.msb_eq_decide]
  have fits : field.toNat % 2 ^ 64 = field.toNat :=
    Nat.mod_eq_of_lt (lt_trans below (by decide))
  rw [fits]
  unfold signExtended
  by_cases negative : 2 ^ 31 ≤ field.toNat
  · rw [if_pos (by simpa using negative), if_neg (by omega)]
  · rw [if_neg (by simpa using negative), if_pos (by omega)]
    rfl

def ReadWrite.decodedLba (request : ReadWrite) : CdbSize → Nat
  | .six | .sixteen => request.lba
  | .ten | .twelve => signExtended request.lba

structure Decodes (request : ReadWrite) (size : CdbSize)
    (fields : NvmeTransIoCdb) :
    Prop where
  blocks : fields.xferLen.toNat = request.blocks
  lba : fields.lba.toNat = request.decodedLba size
  fua : fields.fua ≠ 0 ↔ request.fua = true

section RoundTrip

variable {request : ReadWrite}

theorem decodes_long {size : CdbSize} (isLong : size ≠ .six) (stack : Cdb)
    {lba : BitVec 64} {xferLen : BitVec 32}
    (blocks : xferLen.toNat = request.blocks)
    (address : lba.toNat = request.decodedLba size) :
    Decodes request size
      (longIoCdb (received (request.encode size) stack) lba xferLen) where
  blocks := blocks
  lba := address
  fua := by
    have byte : received (request.encode size) stack 1 =
        fuaByte request.fua := by
      cases size with
      | six => exact absurd rfl isLong
      | ten => rfl
      | twelve => rfl
      | sixteen => rfl
    simp only [longIoCdb, getU8FromCdb, promoted, byte]
    cases request.fua <;> decide

theorem decodes_six (fits : request.Fits .six) (stack : Cdb) :
    Decodes request .six
      (nvmeTransGetIoCdb6 (received (request.encode .six) stack)) := by
  obtain ⟨low, positive, most, notFua⟩ := fits
  have count : (getU8FromCdb (received (request.encode .six) stack) 4).toNat =
      if request.blocks = 256 then 0 else request.blocks := by
    rw [toNat_getU8]
    change UInt8.toNat (if request.blocks = 256 then 0
      else UInt8.ofNat request.blocks) = _
    split
    · rfl
    next other => exact Nat.mod_eq_of_lt (by omega)
  have address :
      (getU32FromCdb (received (request.encode .six) stack) 0).toNat =
      (CdbSize.six.opcode request.isWrite).toNat * 256 ^ 3 + request.lba := by
    rw [toNat_getU32]
    change bigEndian
        (CdbSize.six.opcode request.isWrite :: toBigEndian 3 request.lba) = _
    rw [bigEndian, length_toBigEndian, bigEndian_toBigEndian_of_lt (by omega)]
  constructor
  case blocks =>
    simp only [nvmeTransGetIoCdb6]
    split
    next zero =>
        rw [zero] at count
        change 256 = request.blocks
        by_contra other
        rw [if_neg (Ne.symm other)] at count
        simp at count
        omega
    next nonzero =>
        rw [count]
        rw [if_neg]
        intro isDefault
        apply nonzero
        apply BitVec.eq_of_toNat_eq
        rw [count, if_pos isDefault]
        rfl
  case lba =>
    have mask : io6CdbLbaMask.toNat = 2 ^ 21 - 1 := by decide
    have masked : (getU32FromCdb (received (request.encode .six) stack) 0 &&&
        io6CdbLbaMask).toNat = request.lba := by
      rw [BitVec.toNat_and, mask, Nat.and_two_pow_sub_one_eq_mod, address]
      omega
    change BitVec.toNat (BitVec.signExtend 64 _) = request.lba
    rw [toNat_signExtend, masked, signExtended, if_pos (by omega)]
  case fua =>
    rw [notFua]
    simp [nvmeTransGetIoCdb6]

theorem nvmeTransIoFields_encode (size : CdbSize) (stack : Cdb) :
    nvmeTransIoFields (received (request.encode size) stack) =
      some (match size with
        | .six => nvmeTransGetIoCdb6 (received (request.encode .six) stack)
        | .ten => nvmeTransGetIoCdb10 (received (request.encode .ten) stack)
        | .twelve =>
            nvmeTransGetIoCdb12 (received (request.encode .twelve) stack)
        | .sixteen => nvmeTransGetIoCdb16
            (received (request.encode .sixteen) stack)) := by
  have opcode : received (request.encode size) stack 0 =
      size.opcode request.isWrite := by
    cases size <;> rfl
  unfold nvmeTransIoFields
  rw [opcode]
  cases size <;> cases request.isWrite <;> rfl

theorem nvmeTransIoFields_decodes (size : CdbSize) (fits : request.Fits size)
    (stack : Cdb) :
    ∃ fields, nvmeTransIoFields (received (request.encode size) stack) =
      some fields ∧
      Decodes request size fields := by
  rw [nvmeTransIoFields_encode]
  refine ⟨_, rfl, ?_⟩
  cases size with
  | six => exact decodes_six fits stack
  | ten =>
      obtain ⟨lba, blocks⟩ := fits
      apply decodes_long (by decide) stack
      · rw [toNat_getU16]
        exact @bigEndian_toBigEndian_of_lt 2 _ blocks
      · rw [toNat_signExtend, toNat_getU32]
        exact congrArg signExtended (@bigEndian_toBigEndian_of_lt 4 _ lba)
  | twelve =>
      obtain ⟨lba, blocks⟩ := fits
      apply decodes_long (by decide) stack
      · rw [toNat_getU32]
        exact @bigEndian_toBigEndian_of_lt 4 _ blocks
      · rw [toNat_signExtend, toNat_getU32]
        exact congrArg signExtended (@bigEndian_toBigEndian_of_lt 4 _ lba)
  | sixteen =>
      obtain ⟨lba, blocks⟩ := fits
      apply decodes_long (by decide) stack
      · rw [toNat_getU32]
        exact @bigEndian_toBigEndian_of_lt 4 _ blocks
      · rw [toNat_getU64]
        exact @bigEndian_toBigEndian_of_lt 8 _ lba

/-- Every READ or WRITE that a block of 6, 10, 12 or 16 bytes has room for is
read with its length and its FUA bit, whatever the bytes after the block are.
Its address is read as it is, but in the formats with 32 bits of it an address
from 2^31 on arrives with the upper half set. -/
theorem transIoFields_roundTrip (size : CdbSize) (fits : request.Fits size)
    (stack : Cdb) :
    ∃ fields, nvmeTransIoFields (received (request.encode size) stack) =
      some fields ∧
      Decodes request size fields ∧
      (fields.lba.toNat = request.lba ↔
        (size = .ten ∨ size = .twelve → request.lba < 2 ^ 31)) := by
  obtain ⟨fields, found, decodes⟩ := nvmeTransIoFields_decodes size fits stack
  refine ⟨fields, found, decodes, ?_⟩
  rw [decodes.lba]
  cases size <;> simp [ReadWrite.decodedLba, signExtended]

def highRead : ReadWrite := ⟨false, 2 ^ 31, 8, false⟩

theorem transIoFields_roundTrip_highRead :
    highRead.Fits .ten ∧
      ∃ fields, nvmeTransIoFields (received (highRead.encode .ten) fun _ => 0) =
          some fields ∧
        fields.xferLen.toNat = 8 ∧ fields.lba.toNat = 0xFFFFFFFF80000000 := by
  have fits : highRead.Fits .ten := ⟨by decide, by decide⟩
  obtain ⟨fields, found, decodes, _⟩ :=
    transIoFields_roundTrip .ten fits (fun _ => 0)
  exact ⟨fits, fields, found, decodes.blocks, decodes.lba⟩

end RoundTrip

end Chario.Scsi
