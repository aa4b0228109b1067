import Chario.Library.Bytes
import Chario.Library.Copy
import Chario.Scsi.Io

namespace Chario.Scsi

open Chario.Library Chario.Nvme

/-! Parameter data between the driver and the process that made the request, in
one buffer or in an array of vectors. -/

structure UserSpace where
  bytes : Nat → UInt8
  mapped : Nat → Bool

def UserSpace.reach (user : UserSpace) (address n : Nat) : List Nat :=
  (List.range' address n).takeWhile user.mapped

/-- `copy_from_user`: how many bytes are not copied, and the bytes that are. -/
def copyFromUser (user : UserSpace) (address n : Nat) : Nat × List UInt8 :=
  let reached := user.reach address n
  (n - reached.length, reached.map user.bytes)

/-- `copy_to_user`: how many bytes are not copied, and the memory after it. -/
def copyToUser (user : UserSpace) (address : Nat) (bytes : List UInt8) :
    Nat × UserSpace :=
  let reached := user.reach address bytes.length
  (bytes.length - reached.length,
    { user with bytes := copyInto user.bytes (reached.zip bytes) })

/-- `sizeof(struct sg_iovec)`: a pointer and a `size_t` of 32 bits each. -/
def sgIovecSize : Nat := 8

/-- The words are stored with their low byte first. -/
def SgIovec.ofBytes (bytes : List UInt8) : SgIovec where
  iovBase := bigEndian (bytes.take 4).reverse
  iovLen := bigEndian ((bytes.drop 4).take 4).reverse

section Copy

variable (user : UserSpace) (hdr : SgIoHdr)

/-- The loop of `nvme_trans_copy_from_user` with so many vectors left, and the
bytes that it puts at `index`.  Each vector is read when its turn comes. -/
def gather : Nat → Nat → Nat → Int × List UInt8
  | 0, _, _ => (0, [])
  | left + 1, i, remaining =>
      let read := copyFromUser user (hdr.dxferp + i * sgIovecSize) sgIovecSize
      if read.1 ≠ 0 then (-efault, [])
      else
        let sgl := SgIovec.ofBytes read.2
        let xferLen := min remaining sgl.iovLen
        let got := copyFromUser user sgl.iovBase xferLen
        if got.1 ≠ 0 then (-efault, got.2)
        else if remaining - xferLen = 0 then (0, got.2)
        else
          let more := gather left (i + 1) (remaining - xferLen)
          (more.1, got.2 ++ more.2)

def nvmeTransCopyFromUser (n : Nat) : Int × List UInt8 :=
  if 0 < hdr.iovecCount then gather user hdr hdr.iovecCount 0 n
  else
    let read := copyFromUser user hdr.dxferp n
    (if read.1 ≠ 0 then -efault else 0, read.2)

/-- The loop of `nvme_trans_copy_to_user` with so many vectors left; `index`
points at the bytes `rest`.  A vector may have been written over when its turn
comes. -/
def scatter : Nat → Nat → List UInt8 → UserSpace → Int × UserSpace
  | 0, _, _, user => (0, user)
  | left + 1, i, rest, user =>
      let read := copyFromUser user (hdr.dxferp + i * sgIovecSize) sgIovecSize
      if read.1 ≠ 0 then (-efault, user)
      else
        let sgl := SgIovec.ofBytes read.2
        let xferLen := min rest.length sgl.iovLen
        let put := copyToUser user sgl.iovBase (rest.take xferLen)
        if put.1 ≠ 0 then (-efault, put.2)
        else if rest.length - xferLen = 0 then (0, put.2)
        else scatter left (i + 1) (rest.drop xferLen) put.2

def nvmeTransCopyToUser (bytes : List UInt8) : Int × UserSpace :=
  if 0 < hdr.iovecCount then scatter hdr hdr.iovecCount 0 bytes user
  else
    let put := copyToUser user hdr.dxferp bytes
    (if put.1 ≠ 0 then -efault else 0, put.2)

def vectorPlaces (i : Nat) : List Nat :=
  List.range' (hdr.dxferp + i * sgIovecSize) sgIovecSize

def vectorSpan (i : Nat) : List Nat :=
  let sgl := SgIovec.ofBytes ((vectorPlaces hdr i).map user.bytes)
  List.range' sgl.iovBase sgl.iovLen

/-- The first `n` addresses that the caller names for data. -/
def callerPlaces (n : Nat) : List Nat :=
  if 0 < hdr.iovecCount then
    ((List.range hdr.iovecCount).flatMap (vectorSpan user hdr)).take n
  else List.range' hdr.dxferp n

/-- The first `n` bytes of the caller's data. -/
def callerBytes (n : Nat) : List UInt8 :=
  (callerPlaces user hdr n).map user.bytes

/-- The caller has room for `n` bytes, at addresses that are all different and
not those of its vectors. -/
structure Receives (n : Nat) : Prop where
  room : (callerPlaces user hdr n).length = n
  once : (callerPlaces user hdr n).Nodup
  apart : ∀ i < hdr.iovecCount, ∀ place ∈ vectorPlaces hdr i,
    place ∉ callerPlaces user hdr n

end Copy

section Copied

variable {user : UserSpace} {hdr : SgIoHdr}

theorem Receives.single (user : UserSpace)
    (buffer : hdr.iovecCount = 0) (n : Nat) :
    Receives user hdr n := by
  have places : callerPlaces user hdr n = List.range' hdr.dxferp n :=
    if_neg (by omega)
  refine ⟨?_, ?_, fun i inside => ?_⟩
  · rw [places, List.length_range']
  · rw [places]
    exact List.nodup_range'
  · rw [buffer] at inside
    exact absurd inside (Nat.not_lt_zero i)

theorem UserSpace.reach_whole {address n : Nat}
    (whole : n - (user.reach address n).length = 0) :
    user.reach address n = List.range' address n := by
  have start : user.reach address n <+: List.range' address n :=
    List.takeWhile_prefix user.mapped
  refine start.eq_of_length ?_
  have most := start.length_le
  rw [List.length_range'] at most ⊢
  omega

theorem copyFromUser_whole {address n : Nat}
    (whole : (copyFromUser user address n).1 = 0) :
    (copyFromUser user address n).2 = (List.range' address n).map user.bytes :=
  congrArg (List.map user.bytes) (UserSpace.reach_whole whole)

theorem copyToUser_whole {address : Nat} {bytes : List UInt8}
    (whole : (copyToUser user address bytes).1 = 0) :
    (copyToUser user address bytes).2 =
      { user with
        bytes := copyInto user.bytes
          ((List.range' address bytes.length).zip bytes) } := by
  have reached : user.reach address bytes.length =
      List.range' address bytes.length :=
    UserSpace.reach_whole whole
  unfold copyToUser
  rw [reached]

theorem vectorSpan_eq (user : UserSpace) (hdr : SgIoHdr) (i : Nat) :
    vectorSpan user hdr i = List.range' (SgIovec.ofBytes ((List.range'
        (hdr.dxferp + i * sgIovecSize) sgIovecSize).map user.bytes)).iovBase
      (SgIovec.ofBytes ((List.range' (hdr.dxferp + i * sgIovecSize)
        sgIovecSize).map user.bytes)).iovLen := rfl

/-- What the loop copies when it succeeds is what the vectors name, one after
the other. -/
theorem gather_whole {left i remaining : Nat}
    (whole : (gather user hdr left i remaining).1 = 0) :
    (gather user hdr left i remaining).2 =
      (((List.range' i left).flatMap (vectorSpan user hdr)).take remaining).map
        user.bytes := by
  induction left generalizing i remaining with
  | zero => simp [gather]
  | succ left induction =>
      unfold gather at whole ⊢
      dsimp only at whole ⊢
      split at whole
      next => exact absurd whole (by decide)
      next read =>
        rw [if_neg read]
        have isVector := copyFromUser_whole (not_not.mp read)
        rw [isVector] at whole ⊢
        rw [List.range'_succ, List.flatMap_cons, vectorSpan_eq user hdr i]
        generalize SgIovec.ofBytes ((List.range' (hdr.dxferp + i * sgIovecSize)
          sgIovecSize).map user.bytes) = sgl at whole ⊢
        split at whole
        next => exact absurd (show -efault = 0 from whole) (by decide)
        next copied =>
          rw [if_neg copied, copyFromUser_whole (not_not.mp copied)]
          split at whole
          next last =>
            have part : min remaining sgl.iovLen = remaining := by omega
            rw [if_pos last, part, List.take_append_of_le_length (by
              rw [List.length_range']
              omega), List.take_range'_of_length_ge (by omega)]
          next more =>
            have part : min remaining sgl.iovLen = sgl.iovLen := by omega
            rw [if_neg more]
            dsimp only at whole ⊢
            rw [induction whole, part, List.take_append, List.length_range',
              List.map_append,
              List.take_range'_of_length_le (by omega)]

/-- What is copied when the call returns 0 is the data of the caller. -/
theorem nvmeTransCopyFromUser_whole {n : Nat}
    (whole : (nvmeTransCopyFromUser user hdr n).1 = 0) :
    (nvmeTransCopyFromUser user hdr n).2 = callerBytes user hdr n := by
  unfold nvmeTransCopyFromUser callerBytes callerPlaces at *
  split at whole
  next vectors =>
    rw [if_pos vectors, if_pos vectors, List.range_eq_range']
    exact gather_whole whole
  next single =>
    rw [if_neg single, if_neg single]
    dsimp only at whole ⊢
    refine copyFromUser_whole ?_
    by_contra short
    rw [if_pos short] at whole
    exact absurd whole (by decide)

theorem length_callerBytes_le (user : UserSpace) (hdr : SgIoHdr) (n : Nat) :
    (callerBytes user hdr n).length ≤ n := by
  unfold callerBytes callerPlaces
  rw [List.length_map]
  split
  next => exact List.length_take_le ..
  next => exact (List.length_range' ..).le

theorem vectorSpan_congr {after : UserSpace} {i : Nat}
    (same : ∀ place ∈ vectorPlaces hdr i,
      after.bytes place = user.bytes place) :
    vectorSpan after hdr i = vectorSpan user hdr i := by
  unfold vectorSpan
  rw [List.map_congr_left same]

/-- What the loop writes when it succeeds lies where the vectors say, as long as
it does not write over the vectors. -/
theorem scatter_whole {left i : Nat} {rest : List UInt8}
    (apart : ∀ later ∈ List.range' i left, ∀ place ∈ vectorPlaces hdr later,
      place ∉
        ((List.range' i left).flatMap (vectorSpan user hdr)).take rest.length)
    (whole : (scatter hdr left i rest user).1 = 0) :
    (scatter hdr left i rest user).2.bytes = copyInto user.bytes
      ((((List.range' i left).flatMap (vectorSpan user hdr)).take
        rest.length).zip
        rest) := by
  induction left generalizing i rest user with
  | zero => simp [scatter, copyInto]
  | succ left induction =>
      unfold scatter at whole ⊢
      dsimp only at whole ⊢
      split at whole
      next => exact absurd (show -efault = 0 from whole) (by decide)
      next read =>
        rw [if_neg read]
        have isVector := copyFromUser_whole (not_not.mp read)
        rw [isVector] at whole ⊢
        rw [List.range'_succ, List.flatMap_cons, vectorSpan_eq user hdr i]
          at apart ⊢
        generalize SgIovec.ofBytes ((List.range' (hdr.dxferp + i * sgIovecSize)
          sgIovecSize).map user.bytes) = sgl at whole apart ⊢
        split at whole
        next => exact absurd (show -efault = 0 from whole) (by decide)
        next copied =>
          rw [if_neg copied]
          rw [copyToUser_whole (not_not.mp copied)] at whole ⊢
          split at whole
          next last =>
            have part : min rest.length sgl.iovLen = rest.length := by omega
            rw [if_pos last, part, List.take_length,
              List.take_append_of_le_length (by
              rw [List.length_range']
              omega), List.take_range'_of_length_ge (by omega)]
          next more =>
            have part : min rest.length sgl.iovLen = sgl.iovLen := by omega
            have size : (rest.take sgl.iovLen).length = sgl.iovLen := by
              rw [List.length_take]
              omega
            rw [part, size] at whole
            rw [if_neg more, part, size]
            rw [List.take_append, List.length_range',
              List.take_range'_of_length_le (by omega)] at apart ⊢
            generalize isStored : ({ user with
              bytes := copyInto user.bytes
                ((List.range' sgl.iovBase sgl.iovLen).zip
                  (rest.take sgl.iovLen)) } :
                UserSpace) = stored at whole ⊢
            have bytes : stored.bytes = copyInto user.bytes
                ((List.range' sgl.iovBase sgl.iovLen).zip
                  (rest.take sgl.iovLen)) := by
              rw [← isStored]
            -- what was stored lies outside the vectors that are left
            have same : ∀ later ∈ List.range' (i + 1) left,
                vectorSpan stored hdr later = vectorSpan user hdr later := by
              intro later inRest
              apply vectorSpan_congr
              intro place isPlace
              rw [bytes]
              refine copyInto_of_not_mem (fun written => ?_) _
              rw [List.map_fst_zip (by rw [List.length_range', size])]
                at written
              exact apart later (List.mem_cons_of_mem _ inRest) place isPlace
                (List.mem_append_left _ written)
            have spans := List.flatMap_congr same
            have rejoin : rest.take sgl.iovLen ++ rest.drop sgl.iovLen = rest :=
              List.take_append_drop _ _
            have stores := @induction stored (i + 1) (rest.drop sgl.iovLen)
            rw [spans, List.length_drop, bytes, ← copyInto_append,
              ← List.zip_append (by
              rw [List.length_range', size]), rejoin] at stores
            refine stores (fun later inRest place isPlace within => ?_) whole
            exact apart later (List.mem_cons_of_mem _ inRest) place isPlace
              (List.mem_append_right _ within)

/-- What is written when the call returns 0 is where the caller has room for
it. -/
theorem nvmeTransCopyToUser_whole {bytes : List UInt8}
    (receives : Receives user hdr bytes.length)
    (whole : (nvmeTransCopyToUser user hdr bytes).1 = 0) :
    (callerPlaces user hdr bytes.length).map
    (nvmeTransCopyToUser user hdr bytes).2.bytes =
      bytes := by
  have stored : (nvmeTransCopyToUser user hdr bytes).2.bytes =
      copyInto user.bytes ((callerPlaces user hdr bytes.length).zip bytes) := by
    have apart := receives.apart
    unfold nvmeTransCopyToUser callerPlaces at *
    split at whole
    next vectors =>
      rw [if_pos vectors] at apart
      rw [if_pos vectors, if_pos vectors]
      rw [List.range_eq_range'] at apart ⊢
      refine scatter_whole (fun i inside => apart i ?_) whole
      rw [List.mem_range'_1] at inside
      omega
    next single =>
      rw [if_neg single, if_neg single]
      dsimp only at whole ⊢
      rw [copyToUser_whole]
      by_contra short
      rw [if_pos short] at whole
      exact absurd whole (by decide)
  rw [stored]
  exact map_copyInto_zip receives.once receives.room user.bytes

end Copied

end Chario.Scsi
