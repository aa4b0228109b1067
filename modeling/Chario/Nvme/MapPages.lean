import Chario.Nvme.MachineRefines

namespace Chario.Nvme.Machine

open Chario.Library

/-! The scatterlists of the mapping functions, and the PRP builders on them. -/

def SgEntry.addresses (entry : SgEntry) : List Nat :=
  (List.range entry.length.toNat).map fun byte =>
    entry.page * pageBytes + entry.offset.toNat + byte

/-- The entries cover the buffer byte by byte, each inside its page. -/
structure Tiles (addr length : Nat) (table : List SgEntry) : Prop where
  bytes : table.flatMap SgEntry.addresses =
    (List.range length).map fun byte => addr + byte
  inPage : ∀ entry ∈ table, 0 < entry.length ∧ 0 ≤ entry.offset ∧
    entry.offset + entry.length ≤ pageBytes

/-- So many pages hold `length` bytes from an offset on. -/
def PageSpan (count offset length : Nat) : Prop :=
  0 < length ∧ offset < pageBytes ∧
    count = (offset + length + pageBytes - 1) / pageBytes

theorem length_sgSetPages (a : Arithmetic) (count page : Nat)
    (offset length : Int) :
    (sgSetPages a count page offset length).length = count := by
  induction count generalizing page offset length with
  | zero => rfl
  | succ count induction =>
      rw [sgSetPages, List.length_cons, induction]

/-- Behind the page of the first entry the rest of the buffer begins, unless the
entry was the last one. -/
theorem PageSpan.next {count offset length : Nat}
    (span : PageSpan (count + 1) offset length) :
    (count = 0 ∧ length ≤ pageBytes - offset) ∨
      (pageBytes - offset < length ∧
        PageSpan count 0 (length - (pageBytes - offset))) := by
  obtain ⟨positive, inPage, isCount⟩ := span
  unfold PageSpan pageBytes at *
  by_cases last : length ≤ 4096 - offset
  · left
    omega
  · right
    omega

/-- The rest of the length, an `unsigned`. -/
theorem unsigned_rest {offset length : Nat} (more : pageBytes - offset < length)
    (inPage : offset < pageBytes) (fits : length < 2 ^ 32) :
    wrapping.unsigned ((length : Int) - (pageBytes - offset)) =
      (length - (pageBytes - offset) : Nat) := by
  rw [wrapping_unsigned (by omega) (by omega)]
  omega

theorem sgSetPages_tiles {count page offset length : Nat}
    (span : PageSpan count offset length) (fits : length < 2 ^ 32) :
    Tiles (page * pageBytes + offset) length
      (sgSetPages wrapping count page offset length) := by
  induction count generalizing page offset length with
  | zero =>
      obtain ⟨positive, inPage, isCount⟩ := span
      unfold pageBytes at *
      omega
  | succ count induction =>
      have positive := span.1
      have inPage := span.2.1
      rw [sgSetPages]
      obtain ⟨last, short⟩ | ⟨more, rest⟩ := span.next
      · have isLength : min (length : Int) (pageBytes - offset) = length := by
          omega
        rw [last, sgSetPages, isLength]
        refine ⟨?_, ?_⟩
        · rw [List.flatMap_cons, List.flatMap_nil, List.append_nil]
          rfl
        · intro entry member
          rw [List.mem_singleton.mp member]
          simp only
          omega
      · have isLength : min (length : Int) (pageBytes - offset) =
            (pageBytes - offset : Nat) := by
          omega
        rw [unsigned_rest more inPage fits, isLength]
        have later : Tiles ((page + 1) * pageBytes + 0)
            (length - (pageBytes - offset))
            (sgSetPages wrapping count (page + 1)
              0 (length - (pageBytes - offset) : Nat)) :=
          induction rest (by omega)
        have behind : (page + 1) * pageBytes + 0 =
            page * pageBytes + offset + (pageBytes - offset) := by
          rw [Nat.succ_mul]
          omega
        refine ⟨?_, ?_⟩
        · have split : length =
              pageBytes - offset + (length - (pageBytes - offset)) := by
            omega
          rw [List.flatMap_cons, later.bytes]
          conv_rhs => rw [split, List.range_add, List.map_append, List.map_map]
          refine congrArg₂ _ rfl ?_
          refine List.map_congr_left ?_
          intro byte _
          rw [Function.comp_apply, ← Nat.add_assoc, ← behind]
        · intro entry member
          cases List.mem_cons.mp member with
          | inl isFirst =>
              rw [isFirst]
              simp only
              omega
          | inr isLater => exact later.inPage entry isLater

/-- With the bus addresses of its pages, the table is the one in which the
length is cut off at zero. -/
theorem sgSetPages_segments
    (frames : Nat → Nat) {count page offset length : Nat}
    (span : PageSpan count offset length) (fits : length < 2 ^ 32) :
    (sgSetPages wrapping count page offset length).map
        (SgEntry.segment frames) =
      sgTable frames count page offset length := by
  induction count generalizing page offset length with
  | zero => rfl
  | succ count induction =>
      have inPage := span.2.1
      rw [sgSetPages, List.map_cons, sgTable]
      refine congrArg₂ _ ?_ ?_
      · simp only [SgEntry.segment, Segment.mk.injEq]
        omega
      · obtain ⟨last, short⟩ | ⟨more, rest⟩ := span.next
        · rw [last]
          rfl
        · rw [unsigned_rest more inPage fits]
          exact induction rest (by omega)

section Accepted

variable {kernel : Kernel} {addr length : Nat}

theorem pageSpan_user (addr : Nat) (positive : 0 < length) :
    PageSpan (userPageCount addr length) (addr % pageBytes) length :=
  ⟨positive, Nat.mod_lt _ (by decide), rfl⟩

theorem pinnedPages_eq (accepted : length ≤ intMax - pageBytes) :
    pinnedPages wrapping addr length = userPageCount addr length := by
  have below : addr % pageBytes < pageBytes := Nat.mod_lt _ (by decide)
  unfold intMax at accepted
  unfold pinnedPages userPageCount
  unfold pageBytes at *
  have isSum : wrapping.unsigned ((addr : Int) % (4096 : Nat) + length) =
      ((addr % 4096 + length : Nat) : Int) := by
    rw [wrapping_unsigned (by omega) (by omega)]
    omega
  have isCount : wrapping.divRoundUp ((addr % 4096 + length : Nat) : Int)
      (4096 : Nat) = ((addr % 4096 + length + 4096 - 1) / 4096 : Nat) := by
    rw [wrapping_divRoundUp (by omega) (by omega) (by omega)]
    omega
  rw [isSum, isCount, wrapping_int (by omega) (by omega)]
  omega

/-- The table of `nvme_map_user_pages`. -/
def userEntries (addr length : Nat) : List SgEntry :=
  sgSetPages wrapping (userPageCount addr length) (addr / pageBytes)
    (addr % pageBytes : Nat) length

theorem userEntries_segments (positive : 0 < length)
    (accepted : length ≤ intMax - pageBytes) :
    (userEntries addr length).map (SgEntry.segment kernel.frames) =
      kernel.userTable addr length :=
  sgSetPages_segments kernel.frames (pageSpan_user addr positive)
    (by unfold intMax at accepted; omega)

theorem userEntries_tiles (positive : 0 < length)
    (accepted : length ≤ intMax - pageBytes) :
    Tiles addr length (userEntries addr length) := by
  have tiles := @sgSetPages_tiles _ (addr / pageBytes) _ _
    (pageSpan_user addr positive) (by unfold intMax at accepted; omega)
  rwa [Nat.div_add_mod'] at tiles

/-- On the machine `nvme_map_user_pages` is the function over lists, with its
table beside the result. -/
theorem nvmeMapUserPages_refines :
    nvmeMapUserPages wrapping kernel addr length =
      (Nvme.nvmeMapUserPages pageBytes kernel addr length).map
        fun sg => (userEntries addr length, sg) := by
  rw [nvmeMapUserPages, Nvme.nvmeMapUserPages]
  by_cases odd : addr % 4 ≠ 0
  · rw [if_pos odd, if_pos odd]
    rfl
  · rw [if_neg odd, if_neg odd]
    by_cases bad : length = 0 ∨ intMax - pageBytes < length
    · rw [if_pos bad, if_pos bad]
      rfl
    · rw [if_neg bad, if_neg bad]
      have positive : 0 < length := by omega
      have accepted : length ≤ intMax - pageBytes := by omega
      have isPages : (nvmeNpages wrapping pageBytes length).toNat =
          Nvme.nvmeNpages pageBytes length := by
        obtain ⟨same, isNat⟩ := nvmeNpages_wrapping accepted
        rw [same, isNat, Int.toNat_natCast]
      rw [pinnedPages_eq accepted, isPages]
      have isTable := @userEntries_segments kernel addr length positive accepted
      rw [userEntries] at isTable
      simp only [isTable, Kernel.userTable]
      split
      · rfl
      · split
        · rfl
        · split
          · rfl
          · cases kernel.dmaMapSg (sgTable kernel.frames
              (userPageCount addr length) (addr / pageBytes) (addr % pageBytes)
              length) with
            | none => rfl
            | some sg => rfl

end Accepted

/-! Bounds on the entries of a mapped list. -/

theorem sgTable_inSpace {frames : Nat → Nat}
    (inSpace : ∀ page, frames page + pageBytes ≤ 2 ^ 32) (count : Nat)
    {page offset length : Nat} (inPage : offset < pageBytes) :
    ∀ segment ∈ sgTable frames count page offset length,
      segment.address < 2 ^ 32 := by
  induction count generalizing page offset length with
  | zero =>
      intro segment member
      cases member
  | succ count induction =>
      intro segment member
      cases List.mem_cons.mp member with
      | inl isFirst =>
          rw [isFirst]
          exact Nat.lt_of_lt_of_le (Nat.add_lt_add_left inPage _)
            (inSpace page)
      | inr isLater => exact induction (by decide) segment isLater

theorem sgTable_end_inSpace {frames : Nat → Nat}
    (inSpace : ∀ page, frames page + pageBytes ≤ 2 ^ 32) (count : Nat)
    {page offset length : Nat} (inPage : offset < pageBytes) :
    ∀ segment ∈ sgTable frames count page offset length,
      segment.address + segment.len ≤ 2 ^ 32 := by
  induction count generalizing page offset length with
  | zero =>
      intro segment member
      cases member
  | succ count induction =>
      intro segment member
      cases List.mem_cons.mp member with
      | inl isFirst =>
          rw [isFirst]
          have within := inSpace page
          simp only
          omega
      | inr isLater => exact induction (by decide) segment isLater

theorem sum_sgTable_le (frames : Nat → Nat) (count page offset length : Nat) :
    ((sgTable frames count page offset length).map Segment.len).sum ≤
      length := by
  induction count generalizing page offset length with
  | zero => exact Nat.zero_le _
  | succ count induction =>
      have later := induction (page + 1) 0 (length - (pageBytes - offset))
      rw [sgTable, List.map_cons, List.sum_cons]
      simp only
      omega

section Returns

variable {pools : PrpPools} {length : Nat}
variable (accepted : length ≤ intMax - pageBytes)

include accepted

/-- A list that the pages of the transfer can be read off is digested: neither a
`BUG_ON` nor the end of the list is reached. -/
theorem nvmeSetupPrps_returns {first : Segment} {rest : List Segment}
    {pages : List Nat} (after : AfterFirst first length rest pages)
    (segments : ∀ segment ∈ first :: rest,
      segment.address < 2 ^ 32 ∧ segment.len ≤ intMax) :
    ∃ value w, nvmeSetupPrps wrapping pageBytes pools (first :: rest) length =
      (.returned value, w) := by
  obtain ⟨ret, npages, lists, prp2, ran, _⟩ := nvmeSetupPrps_ends pools after
  obtain ⟨w, isRun, _⟩ := nvmeSetupPrps_refines ran
  have outcome := (nvmeSetupPrps_within pools accepted segments).1.outcome
  rw [isRun] at outcome
  generalize nvmeSetupPrps wrapping pageBytes pools (first :: rest) length = run
    at outcome ⊢
  obtain ⟨ending, v⟩ := run
  exact ⟨ret, v, congrArg (·, v) outcome⟩

omit accepted in
theorem afterFirst_single (address length : Nat) :
    ∃ pages, AfterFirst ⟨address, length⟩ length [] pages := by
  by_cases inside : length ≤ (⟨address, length⟩ : Segment).head
  · exact ⟨[], .inside (Int.ofNat_le.mpr inside)⟩
  · have more := Nat.not_le.mp inside
    have run := @pageRun_contiguous
      (address + (⟨address, length⟩ : Segment).head) _
      (length - (⟨address, length⟩ : Segment).head) (by omega) rfl 0
    rw [Nat.zero_mul, Nat.add_zero] at run
    exact ⟨_, .same (Int.ofNat_lt.mpr more) more run⟩

theorem nvmeSetupPrps_single_returns {address : Nat}
    (inSpace : address < 2 ^ 32) :
    ∃ value w, nvmeSetupPrps wrapping pageBytes pools [⟨address, length⟩]
      length = (.returned value, w) := by
  obtain ⟨pages, after⟩ := afterFirst_single address length
  refine nvmeSetupPrps_returns accepted after ?_
  intro segment member
  rw [List.mem_singleton.mp member]
  exact ⟨inSpace, by unfold intMax at *; simp only; omega⟩

end Returns

/-- Page frames have page-aligned 32-bit bus addresses. -/
structure Addressed (frames : Nat → Nat) : Prop where
  aligned : ∀ page, frames page % pageBytes = 0
  inSpace : ∀ page, frames page + pageBytes ≤ 2 ^ 32

/-- What a user buffer is mapped to has 32-bit addresses and lengths of
`int`. -/
theorem Addressed.mapped {kernel : Kernel} (addressed : Addressed kernel.frames)
    {addr length : Nat} (accepted : length ≤ intMax - pageBytes)
    {mapped : List Segment}
    (merged : Merged (kernel.userTable addr length) mapped) :
    ∀ segment ∈ mapped, segment.address < 2 ^ 32 ∧ segment.len ≤ intMax := by
  intro segment member
  obtain ⟨⟨other, isOther, same⟩, short⟩ := merged.entry segment member
  refine ⟨?_, ?_⟩
  · rw [← same]
    exact sgTable_inSpace addressed.inSpace _ (Nat.mod_lt _ (by decide)) other
      isOther
  · have whole := sum_sgTable_le kernel.frames (userPageCount addr length)
      (addr / pageBytes) (addr % pageBytes) length
    unfold Kernel.userTable at short
    omega

theorem Addressed.mapped_end {kernel : Kernel}
    (addressed : Addressed kernel.frames)
    {addr length : Nat} {mapped : List Segment}
    (merged : Merged (kernel.userTable addr length) mapped) :
    ∀ segment ∈ mapped, segment.address + segment.len ≤ 2 ^ 32 := by
  intro segment member
  obtain ⟨last, isLast, same⟩ := merged.entry_end segment member
  rw [same]
  exact sgTable_end_inSpace addressed.inSpace _
    (Nat.mod_lt _ (by decide)) last isLast

/-- All pages are pinned, memory is granted, and `dma_map_sg` maps entries one
to one. -/
structure Pinned (kernel : Kernel) (addr length : Nat) : Prop where
  kcalloc : kernel.kcalloc (userPageCount addr length) = true
  pins : kernel.getUserPagesFast addr (userPageCount addr length) =
    (userPageCount addr length : Nat)
  kmalloc : kernel.kmalloc (Nvme.nvmeNpages pageBytes length) = true
  oneToOne : ∀ sg, kernel.dmaMapSg sg = some sg

theorem nvmeMapUserPages_pinned {kernel : Kernel} {addr length : Nat}
    (word : addr % 4 = 0) (positive : 0 < length)
    (accepted : length ≤ intMax - pageBytes)
    (pinned : Pinned kernel addr length) :
    Nvme.nvmeMapUserPages pageBytes kernel addr length =
      .ok (kernel.userTable addr length) := by
  have fits : ¬ (length = 0 ∨ intMax - pageBytes < length) := by omega
  rw [Nvme.nvmeMapUserPages, if_neg (not_not.mpr word), if_neg fits,
    if_neg (by rw [pinned.kcalloc]; decide),
    if_neg (by rw [pinned.pins]; exact lt_irrefl _),
    if_neg (by rw [pinned.kmalloc]; decide), pinned.oneToOne]
  rfl

/-- The scatterlist of a user buffer tiles it page by page, and the PRP builder
digests it, as it digests the single entry of a kernel buffer. -/
theorem mapped_lists_digestible {kernel : Kernel}
    (addressed : Addressed kernel.frames) {addr length : Nat}
    (word : addr % 4 = 0) (positive : 0 < length)
    (accepted : length ≤ intMax - pageBytes)
    (pinned : Pinned kernel addr length)
    {virtToBus : Nat → Nat} (inSpace : virtToBus addr < 2 ^ 32) :
    (∃ table sg, nvmeMapUserPages wrapping kernel addr length =
          .ok (table, sg) ∧
        sg = table.map (SgEntry.segment kernel.frames) ∧
        table.length = (addr % pageBytes + length + pageBytes - 1) / pageBytes ∧
        Tiles addr length table ∧
        ∃ value w, nvmeSetupPrps wrapping pageBytes kernel.pools sg length =
          (.returned value, w)) ∧
      ∃ sg, nvmeMapKernelPages wrapping kernel virtToBus addr length = .ok sg ∧
        sg = [⟨virtToBus addr, length⟩] ∧
        ∃ value w, nvmeSetupPrps wrapping pageBytes kernel.pools sg length =
          (.returned value, w) := by
  refine ⟨⟨userEntries addr length, kernel.userTable addr length, ?_, ?_, ?_,
    userEntries_tiles positive accepted, ?_⟩,
    ⟨[⟨virtToBus addr, length⟩], ?_, rfl,
      nvmeSetupPrps_single_returns accepted inSpace⟩⟩
  · rw [nvmeMapUserPages_refines,
      nvmeMapUserPages_pinned word positive accepted pinned]
    rfl
  · exact (userEntries_segments positive accepted).symm
  · exact length_sgSetPages _ _ _ _ _
  · obtain ⟨first, rest, isTable, _, after⟩ :=
      @afterFirst_sgTable kernel.frames addressed.aligned addr length positive
    have segments := addressed.mapped accepted
      (Merged.refl (kernel.userTable addr length))
    rw [Kernel.userTable, isTable] at segments ⊢
    exact nvmeSetupPrps_returns accepted after segments
  · have fits : ¬ (length = 0 ∨ intMax - pageBytes < length) := by omega
    have isPages : (nvmeNpages wrapping pageBytes length).toNat =
        Nvme.nvmeNpages pageBytes length := by
      obtain ⟨same, isNat⟩ := nvmeNpages_wrapping accepted
      rw [same, isNat, Int.toNat_natCast]
    rw [nvmeMapKernelPages, if_neg (not_not.mpr word), if_neg fits, isPages,
      if_neg (by rw [pinned.kmalloc]; decide), pinned.oneToOne]

theorem addressed_plain : Addressed Kernel.plain.frames where
  aligned page := Nat.mul_mod_left _ _
  inSpace page := by
    change page % 2 ^ 20 * pageBytes + pageBytes ≤ 2 ^ 32
    have below := Nat.mod_lt page (show 0 < 2 ^ 20 by decide)
    unfold pageBytes
    omega

theorem mapped_lists_digestible_odd :
    (∃ table sg, nvmeMapUserPages wrapping Kernel.plain 8708 10000 =
          .ok (table, sg) ∧
        sg = table.map (SgEntry.segment Kernel.plain.frames) ∧
        table.length = (8708 % pageBytes + 10000 + pageBytes - 1) / pageBytes ∧
        Tiles 8708 10000 table ∧
        ∃ value w, nvmeSetupPrps wrapping pageBytes Kernel.plain.pools sg
          (10000 : Nat) = (.returned value, w)) ∧
      ∃ sg, nvmeMapKernelPages wrapping Kernel.plain (· % 2 ^ 31) 8708 10000 =
          .ok sg ∧
        sg = [⟨8708 % 2 ^ 31, 10000⟩] ∧
        ∃ value w, nvmeSetupPrps wrapping pageBytes Kernel.plain.pools sg
          (10000 : Nat) = (.returned value, w) :=
  mapped_lists_digestible addressed_plain (by decide) (by decide)
    (by decide) ⟨rfl, rfl, rfl, fun _ => rfl⟩
    (Nat.lt_trans (Nat.mod_lt _ (by decide)) (by decide))

/-! The bookkeeping of the builders on what the mapping functions accept. -/

/-- The builder returns, stores inside its allocations, and no value wraps:
`exactly` is its run without bounds. -/
structure Bookkeeping (length : Nat) (run exactly : Outcome × Vars) : Prop where
  slots : nvmeNpages wrapping pageBytes length =
    nvmeNpages unbounded pageBytes length
  returns : ∃ value, run.1 = .returned value
  within : ∀ event ∈ run.2.log,
    event.Within (nvmeNpages wrapping pageBytes length)
  noWrap : run = exactly

theorem second_inSpace {first : Segment} {rest : List Segment}
    {pages : List Nat} {length : Nat}
    (after : AfterFirst first length rest pages)
    (inSpace : first.address + first.len ≤ 2 ^ 32)
    (more : first.head < (length : Int))
    (left : (first.len : Int) ≠ first.head) :
    (first.address : Int) + first.head < 2 ^ 32 := by
  cases after with
  | inside ends => omega
  | same _ beyond _ => omega
  | next _ spent _ => omega

theorem within_of_segments {pools : PrpPools} {length : Nat}
    (accepted : length ≤ intMax - pageBytes) {first : Segment}
    {rest : List Segment}
    (segments : ∀ segment ∈ first :: rest,
      segment.address < 2 ^ 32 ∧ segment.len ≤ intMax) :
    ∀ event ∈ (nvmeSetupPrps wrapping pageBytes pools (first :: rest)
        length).2.log,
      event.Within (nvmeNpages wrapping pageBytes length) := by
  obtain ⟨slots, isNat⟩ := nvmeNpages_wrapping accepted
  rw [slots, isNat]
  exact (nvmeSetupPrps_within pools accepted segments).1.within

theorem bookkeeping_of_segments {pools : PrpPools} {length : Nat}
    (accepted : length ≤ intMax - pageBytes) {first : Segment}
    {rest : List Segment} {pages : List Nat}
    (after : AfterFirst first length rest pages)
    (segments : ∀ segment ∈ first :: rest,
      segment.address < 2 ^ 32 ∧ segment.len ≤ intMax)
    (inSpace : first.address + first.len ≤ 2 ^ 32) :
    Bookkeeping length
      (nvmeSetupPrps wrapping pageBytes pools (first :: rest) length)
      (nvmeSetupPrps unbounded pageBytes pools (first :: rest) length) := by
  have exact := (nvmeSetupPrps_within pools accepted segments).2
  have same := exact (second_inSpace after inSpace)
  obtain ⟨value, w, isRun⟩ :=
    @nvmeSetupPrps_returns pools length accepted _ _ _ after segments
  exact ⟨(nvmeNpages_wrapping accepted).1, ⟨value, congrArg Prod.fst isRun⟩,
    within_of_segments accepted segments, same⟩

section Accepted

variable {kernel : Kernel} {addr length : Nat}

/-- What `nvme_map_user_pages` has accepted. -/
theorem nvmeMapUserPages_accepts {sg : List Segment}
    (ran : Nvme.nvmeMapUserPages pageBytes kernel addr length = .ok sg) :
    0 < length ∧ length ≤ intMax - pageBytes ∧
      kernel.dmaMapSg (kernel.userTable addr length) = some sg := by
  rw [Nvme.nvmeMapUserPages] at ran
  split at ran
  · cases ran
  · split at ran
    · cases ran
    · next fits =>
        split at ran
        · cases ran
        · split at ran
          · cases ran
          · split at ran
            · cases ran
            · refine ⟨by omega, by omega, ?_⟩
              change kernel.dmaMapSg (sgTable _ _ _ _ _) = _
              cases isMapped : kernel.dmaMapSg (sgTable kernel.frames
                  (userPageCount addr length) (addr / pageBytes)
                  (addr % pageBytes) length) with
              | none =>
                  rw [isMapped] at ran
                  cases ran
              | some mapped =>
                  rw [isMapped] at ran
                  cases ran
                  rfl

theorem nvmeMapKernelPages_accepts {virtToBus : Nat → Nat} {sg : List Segment}
    (ran : nvmeMapKernelPages wrapping kernel virtToBus addr length = .ok sg) :
    0 < length ∧ length ≤ intMax - pageBytes ∧
      kernel.dmaMapSg [⟨virtToBus addr, length⟩] = some sg := by
  rw [nvmeMapKernelPages] at ran
  split at ran
  · cases ran
  · split at ran
    · cases ran
    · next fits =>
        split at ran
        · cases ran
        · refine ⟨by omega, by omega, ?_⟩
          cases isMapped : kernel.dmaMapSg [⟨virtToBus addr, length⟩] with
          | none =>
              rw [isMapped] at ran
              cases ran
          | some mapped =>
              rw [isMapped] at ran
              cases ran
              rfl

theorem nvmeMapPhysPages_accepts
    (ran : nvmeMapPhysPages wrapping kernel addr length = .ok ()) :
    length ≤ intMax - pageBytes := by
  rw [nvmeMapPhysPages] at ran
  split at ran
  · cases ran
  · split at ran
    · cases ran
    · omega

theorem merged_single {segment : Segment} {mapped : List Segment}
    (merged : Merged [segment] mapped) : mapped = [segment] := by
  cases merged with
  | keep rest =>
      cases rest
      rfl

theorem nvmeSetupPhysPrps_returns (pools : PrpPools) (length address : Nat) :
    ∃ ret iod, Nvme.nvmeSetupPhysPrps pageBytes pools length address =
      some (ret, iod) := by
  simp only [Nvme.nvmeSetupPhysPrps, head_cast]
  generalize pageBytes - address % pageBytes = head
  by_cases ends : (length : Int) - head ≤ 0
  · exact ⟨_, _, by rw [if_pos ends]⟩
  · rw [if_neg ends]
    by_cases short : (length : Int) - head ≤ pageBytes
    · exact ⟨_, _, by rw [if_pos short]⟩
    · rw [if_neg short]
      cases isFirst : (prpPool pools (nprps pageBytes
          ((length : Int) - head))).1 0 with
      | none => exact ⟨_, _, rfl⟩
      | some dma =>
          obtain ⟨ret, after, ran, _⟩ := prpLoop_start pools
            (Nvme.refillPage pageBytes) length ((address + pageBytes) % 2 ^ 32)
            (Int.not_le.mp short) isFirst
          refine ⟨ret, ⟨after.npages, after.lists, some address, some dma⟩, ?_⟩
          simp only [ran]

end Accepted

/-- On every accepted transfer the builders store inside their allocations.  On
scatterlists that lie in the 32-bit bus space, as those of user pages do, no
value wraps; in the physical builder none does exactly when the transfer ends in
its first page or the page behind has a 32-bit address. -/
theorem prp_bookkeeping_within {kernel : Kernel} (sound : kernel.Sound)
    (addressed : Addressed kernel.frames) {virtToBus : Nat → Nat}
    (inSpace : ∀ addr, virtToBus addr < 2 ^ 32) :
    (∀ addr length table sg,
      nvmeMapUserPages wrapping kernel addr length = .ok (table, sg) →
      Bookkeeping length
        (nvmeSetupPrps wrapping pageBytes kernel.pools sg length)
        (nvmeSetupPrps unbounded pageBytes kernel.pools sg length)) ∧
    (∀ addr length sg,
      nvmeMapKernelPages wrapping kernel virtToBus addr length = .ok sg →
      (∀ event ∈ (nvmeSetupPrps wrapping pageBytes kernel.pools sg
          length).2.log,
        event.Within (nvmeNpages wrapping pageBytes length)) ∧
      (virtToBus addr + length ≤ 2 ^ 32 →
        Bookkeeping length
          (nvmeSetupPrps wrapping pageBytes kernel.pools sg length)
          (nvmeSetupPrps unbounded pageBytes kernel.pools sg length))) ∧
    ∀ addr length, addr < 2 ^ 32 →
      nvmeMapPhysPages wrapping kernel addr length = .ok () →
      (∀ event ∈ (nvmeSetupPhysPrps wrapping pageBytes kernel.pools length
          addr).2.log,
        event.Within (nvmeNpages wrapping pageBytes length)) ∧
      (Bookkeeping length
          (nvmeSetupPhysPrps wrapping pageBytes kernel.pools length addr)
          (nvmeSetupPhysPrps unbounded pageBytes kernel.pools length addr) ↔
        length ≤ pageBytes - addr % pageBytes ∨ addr + pageBytes < 2 ^ 32) := by
  refine ⟨?_, ?_, ?_⟩
  · intro addr length table sg ran
    have mapped : Nvme.nvmeMapUserPages pageBytes kernel addr length =
        .ok sg := by
      rw [nvmeMapUserPages_refines] at ran
      cases isMapped : Nvme.nvmeMapUserPages pageBytes kernel addr length with
      | error stop =>
          rw [isMapped] at ran
          cases ran
      | ok other =>
          rw [isMapped] at ran
          cases ran
          rfl
    obtain ⟨positive, accepted, isMapped⟩ := nvmeMapUserPages_accepts mapped
    have merged := sound.merges isMapped
    have segments := addressed.mapped accepted merged
    obtain ⟨first, rest, isTable, _, after⟩ :=
      @afterFirst_sgTable kernel.frames sound.aligned addr length positive
    obtain ⟨other, others, isSg, _, later⟩ := merged.afterFirst isTable after
    subst isSg
    exact bookkeeping_of_segments accepted later segments
      (addressed.mapped_end merged other List.mem_cons_self)
  · intro addr length sg ran
    obtain ⟨positive, accepted, isMapped⟩ := nvmeMapKernelPages_accepts ran
    obtain ⟨pages, after⟩ := afterFirst_single (virtToBus addr) length
    rw [merged_single (sound.merges isMapped)]
    have segments : ∀ segment ∈ [(⟨virtToBus addr, length⟩ : Segment)],
        segment.address < 2 ^ 32 ∧ segment.len ≤ intMax := by
      intro segment member
      rw [List.mem_singleton.mp member]
      exact ⟨inSpace addr, by unfold intMax at *; simp only; omega⟩
    exact ⟨within_of_segments accepted segments,
      bookkeeping_of_segments accepted after segments⟩
  · intro addr length low ran
    have accepted := nvmeMapPhysPages_accepts ran
    obtain ⟨within, noWrap⟩ :=
      nvmeSetupPhysPrps_within accepted low kernel.pools
    obtain ⟨slots, isNat⟩ := nvmeNpages_wrapping accepted
    rw [← isNat, ← slots] at within
    obtain ⟨ret, iod, built⟩ :=
      nvmeSetupPhysPrps_returns kernel.pools length addr
    obtain ⟨w, isRun, _⟩ := nvmeSetupPhysPrps_refines accepted low built
    refine ⟨within, ?_⟩
    rw [← noWrap]
    constructor
    · intro kept
      exact kept.noWrap
    · intro same
      exact ⟨slots, ⟨ret, congrArg Prod.fst isRun⟩, within, same⟩

/-- A physical transfer over three pages in low memory. -/
theorem prp_bookkeeping_low :
    nvmeMapPhysPages wrapping Kernel.plain 8192 10000 = .ok () ∧
      Bookkeeping 10000
        (nvmeSetupPhysPrps wrapping pageBytes Kernel.plain.pools (10000 : Nat)
          (8192 : Nat))
        (nvmeSetupPhysPrps unbounded pageBytes Kernel.plain.pools (10000 : Nat)
          (8192 : Nat)) := by
  obtain ⟨_, _, phys⟩ :=
    @prp_bookkeeping_within Kernel.plain Kernel.plain_granted.sound
    addressed_plain (· % 2 ^ 32) (fun addr => Nat.mod_lt addr (by decide))
  have accepted : nvmeMapPhysPages wrapping Kernel.plain 8192 10000 = .ok () :=
    rfl
  exact ⟨accepted, (phys 8192 10000 (by decide) accepted).2.mpr
    (.inr (by decide))⟩

/-- Two pages from the last one below 4 GiB: the address of the second wraps to
zero. -/
theorem prp_bookkeeping_wraps :
    nvmeMapPhysPages wrapping Kernel.plain 0xfffff000 8192 = .ok () ∧
      wrapping.dmaAddr ((0xfffff000 : Nat) + pageBytes) = 0 ∧
      ¬ Bookkeeping 8192
        (nvmeSetupPhysPrps wrapping pageBytes Kernel.plain.pools (8192 : Nat)
          (0xfffff000 : Nat))
        (nvmeSetupPhysPrps unbounded pageBytes Kernel.plain.pools (8192 : Nat)
          (0xfffff000 : Nat)) := by
  refine ⟨rfl, rfl, ?_⟩
  intro kept
  have fits :=
    (@nvmeSetupPhysPrps_within 8192 0xfffff000 (by decide) (by decide)
    Kernel.plain.pools).2.mp kept.noWrap
  exact absurd fits (by decide)

end Chario.Nvme.Machine
