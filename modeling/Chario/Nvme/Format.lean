import Chario.Nvme.Mapping

namespace Chario.Nvme

open Chario.Library

/-! The commands of a request against the format of the namespace. -/

def NvmeNs.blockBytes (ns : NvmeNs) : Nat :=
  2 ^ ns.lbaShift + if ns.ext then ns.ms else 0

/-- The addresses between which and the medium a command moves its blocks. -/
def RwCommand.transfer (ns : NvmeNs) (lists : List PrpBlock)
    (command : RwCommand) : Option (List Nat) :=
  prpAddresses (prpMemory lists) command.prp1 command.prp2
    ((command.length + 1) * ns.blockBytes)

/-- Block `i` of the request is moved to or from the buffer bytes at
`i * blockBytes`, with at most 32 tags and from written list entries only. -/
structure SplitAgrees (ns : NvmeNs) (io : NvmeUserIo) (buffer : Nat → Nat)
    (issued : Issued) : Prop where
  opcode : ∀ command ∈ issued.commands, command.opcode = io.opcode
  blocks : issued.commands.flatMap RwCommand.blocks =
    List.range' io.slba (io.nblocks + 1)
  data : ∀ command ∈ issued.commands,
    command.transfer ns issued.lists =
      some ((List.range' ((command.slba - io.slba) * ns.blockBytes)
        ((command.length + 1) * ns.blockBytes)).map buffer)
  tags : issued.commands.length ≤ 32
  written : none ∉ issued.entriesRead

structure SetUp (setup : Nat → Nat → Except Stop (Int × PrpSetup))
    (addr length : Nat) (frame : Nat → Nat) (result : PrpSetup) : Prop where
  ran : setup addr length = .ok (length, result)
  prp1 : result.prp1 = some (frame 0)
  listed : Listed ((List.range' 1 (pageCount length - 1)).map frame)
    result.prp2 result.npages result.lists
  aligned : ∀ page, frame page % pageBytes = 0

/-- The formats a request without a metadata buffer is accepted under. -/
structure NvmeNs.Accepts (ns : NvmeNs) : Prop where
  shift : 9 ≤ ns.lbaShift ∧ ns.lbaShift ≤ 16
  metadata : ns.ms < 2 ^ 16
  inline : ns.ms ≠ 0 ↔ ns.ext = true

theorem NvmeNs.Accepts.blockBytes_bounds {ns : NvmeNs} (accepts : ns.Accepts) :
    512 ≤ ns.blockBytes ∧ ns.blockBytes < 2 ^ 17 := by
  have low : 2 ^ 9 ≤ 2 ^ ns.lbaShift :=
    Nat.pow_le_pow_right (by decide) accepts.shift.1
  have high : 2 ^ ns.lbaShift ≤ 2 ^ 16 :=
    Nat.pow_le_pow_right (by decide) accepts.shift.2
  have extra := accepts.metadata
  unfold NvmeNs.blockBytes
  split <;> omega

theorem NvmeNs.Accepts.metaLen_eq {ns : NvmeNs} (accepts : ns.Accepts)
    (separate : ns.ext = false) (io : NvmeUserIo) : metaLen ns io = 0 := by
  have none : ns.ms = 0 := by
    by_contra nonzero
    rw [accepts.inline.mp nonzero] at separate
    cases separate
  rw [metaLen, none]
  rfl

section Submission

variable {ns : NvmeNs} (accepts : ns.Accepts) {io : NvmeUserIo}
variable (small : (io.nblocks + 1) * ns.blockBytes < 2 ^ 32)

include accepts small

theorem transferLen_eq :
    transferLen ns io = (io.nblocks + 1) * ns.blockBytes := by
  have both : (io.nblocks + 1) * ns.blockBytes =
      (io.nblocks + 1) * 2 ^ ns.lbaShift +
        (io.nblocks + 1) * (if ns.ext then ns.ms else 0) := by
    rw [NvmeNs.blockBytes, Nat.mul_add]
  have data : dataLen ns io = (io.nblocks + 1) * 2 ^ ns.lbaShift :=
    Nat.mod_eq_of_lt (by omega)
  cases isExt : ns.ext with
  | false =>
      rw [transferLen, if_neg (by rw [isExt]; simp), data, both, isExt]
      simp
  | true =>
      rw [isExt, if_pos rfl] at both
      have metas : metaLen ns io = (io.nblocks + 1) * ns.ms :=
        Nat.mod_eq_of_lt (by omega)
      have some : metaLen ns io ≠ 0 := by
        rw [metas]
        exact Nat.mul_ne_zero (Nat.succ_ne_zero _) (accepts.inline.mpr isExt)
      rw [transferLen, if_pos ⟨some, isExt⟩, data, metas, both]
      exact Nat.mod_eq_of_lt (by omega)

theorem submitIo_ok {kernel : Kernel}
    (rw : io.opcode = .read ∨ io.opcode = .write)
    {setup : Nat → Nat → Except Stop (Int × PrpSetup)} {frame : Nat → Nat}
    {result : PrpSetup}
    (ready : SetUp setup io.addr ((io.nblocks + 1) * ns.blockBytes) frame
      result) :
    submitIo setup kernel ns io =
      .ok ⟨0, io.nblocks, (submitSplit ns io 0 result).2.commands, result.lists,
        (submitSplit ns io 0 result).2.entriesRead⟩ := by
  have admitted : Admitted kernel ns io := by
    refine ⟨?_, ?_⟩
    · cases rw with
      | inl isRead => exact .inr (.inl isRead)
      | inr isWrite => exact .inl isWrite
    · intro some separate
      exact absurd (accepts.metaLen_eq separate io) some
  have ran := ready.ran
  rw [← transferLen_eq accepts small] at ran
  obtain ⟨metaDma, buffer, issues⟩ := admitted.submitIo_eq ran
  have none : metaBuffer kernel ns io = .ok 0 := by
    apply if_neg
    rintro ⟨some, separate⟩
    exact some (accepts.metaLen_eq separate io)
  rw [none] at buffer
  cases buffer
  exact issues

end Submission

def Issued.ofSplit (ns : NvmeNs) (io : NvmeUserIo) (setup : PrpSetup) :
    Issued :=
  ⟨0, io.nblocks, (submitSplit ns io 0 setup).2.commands, setup.lists,
    (submitSplit ns io 0 setup).2.entriesRead⟩

theorem Listed.entry_31 {pages : List Nat} {prp2 : Option Nat} {npages : Int}
    {lists : List PrpBlock} (listed : Listed pages prp2 npages lists) :
    prpListEntry lists 0 31 = Option.none ∨
      prpListEntry lists 0 31 = pages[31]? := by
  cases listed with
  | none => exact .inl rfl
  | one => exact .inl rfl
  | small _ _ _ => exact .inr rfl
  | paged many packed _ _ _ =>
      refine .inr ?_
      cases packed with
      | single _ => rfl
      | @chained _ front later block blocks full _ _ =>
          have inside : 31 < front.length := by
            unfold perPage pageBytes at full
            omega
          refine (@prpListEntry_nat _ 0 ⟨_, front ++ [block.dma]⟩ rfl 31 31
            rfl).trans ?_
          rw [List.getElem?_append_left inside,
            List.getElem?_append_left inside]

section Agreement

variable {setup : Nat → Nat → Except Stop (Int × PrpSetup)} {addr length : Nat}
variable {frame : Nat → Nat} {result : PrpSetup}

theorem SetUp.result_eq (ready : SetUp setup addr length frame result) :
    result = ⟨some (frame 0), result.prp2, result.npages, result.lists⟩ := by
  rw [← ready.prp1]

theorem SetUp.congr (ready : SetUp setup addr length frame result)
    {other : Nat → Nat}
    (same : ∀ page ≤ pageCount length - 1, frame page = other page)
    (aligned : ∀ page, other page % pageBytes = 0) :
    SetUp setup addr length other result where
  ran := ready.ran
  prp1 := by rw [ready.prp1, same 0 (Nat.zero_le _)]
  listed := by
    have pages : (List.range' 1 (pageCount length - 1)).map frame =
        (List.range' 1 (pageCount length - 1)).map other := by
      apply List.map_congr_left
      intro page member
      rw [List.mem_range'_1] at member
      exact same page (by omega)
    rw [← pages]
    exact ready.listed
  aligned := aligned

theorem frames_drop_take (frame : Nat → Nat) {start count total : Nat}
    (inside : start + count ≤ total) :
    (((List.range' 0 total).map frame).drop start).take count =
      (List.range' start count).map frame := by
  rw [← List.map_drop, List.drop_range', ← List.map_take,
    List.take_range'_of_length_ge (by omega)]
  simp

theorem SetUp.transfer (ready : SetUp setup addr length frame result)
    (positive : 0 < length) :
    prpAddresses (prpMemory result.lists) result.prp1 result.prp2 length =
      some ((List.range' 0 length).map (bufferAddress frame)) := by
  have count := pageCount_pred positive
  have spans := pageSpans_frames frame (@rfl _ (pageCount length)) 0
  rw [Nat.zero_mul] at spans
  rw [ready.prp1, prpAddresses_eq (ready.aligned 0)
    (by rw [List.length_map, List.length_range']; exact count)
    ready.listed.points, ← spans]
  nth_rewrite 2 [count]
  rw [List.range'_succ, List.map_cons]

theorem Carries.transfer {ns : NvmeNs} {io : NvmeUserIo}
    {lists : List PrpBlock} {round : Nat} {command : RwCommand}
    (carries : Carries (prpMemory lists)
      ((List.range' 0 (io.nblocks + 1)).map frame) io round command)
    (aligned : ∀ page, frame page % pageBytes = 0)
    (paged : ns.blockBytes = pageBytes) :
    command.transfer ns lists =
      some ((List.range' (32 * round * pageBytes)
        ((command.length + 1) * pageBytes)).map (bufferAddress frame)) := by
  have inside := carries.inside
  have length := carries.length
  have count : pageCount ((command.length + 1) * pageBytes) =
      command.length + 1 := by
    unfold pageCount pageBytes
    omega
  rw [RwCommand.transfer, paged, carries.prpAddresses (by simp) (by
    intro page member
    obtain ⟨index, -, rfl⟩ := List.mem_map.mp member
    exact aligned index), frames_drop_take frame (by omega),
    pageSpans_frames frame count (32 * round)]

variable {ns : NvmeNs} {io : NvmeUserIo}
variable (ready : SetUp setup addr ((io.nblocks + 1) * ns.blockBytes) frame
  result)
variable (noWrap : io.slba + io.nblocks < 2 ^ 64)

include ready noWrap

theorem splitAgrees_short (positive : 0 < ns.blockBytes)
    (short : io.nblocks ≤ 31) :
    SplitAgrees ns io (bufferAddress frame)
      (.ofSplit ns io result) := by
  have below : io.nblocks < reqMaxBlocks := Nat.lt_succ_of_le short
  have only := @submitSplit_short ns io 0 (frame 0) result.prp2 result.npages
    result.lists below
  rw [← ready.result_eq] at only
  refine ⟨submitSplit_opcode result, submitSplit_blocks result noWrap, ?_, ?_,
    ?_⟩
  · intro command member
    simp only [Issued.ofSplit, only, List.mem_singleton] at member
    rw [member]
    have whole := ready.transfer (Nat.mul_pos (Nat.succ_pos _) positive)
    simpa [RwCommand.transfer, rwCommand, SplitState.start, Issued.ofSplit]
      using whole
  · simp only [Issued.ofSplit, only, List.length_singleton]
    omega
  · simp only [Issued.ofSplit, only, SplitState.start]
    exact List.not_mem_nil

theorem splitAgrees_paged (paged : ns.blockBytes = pageBytes)
    (fits : io.nblocks ≤ 1023)
    (narrow : Narrow ((List.range' 0 (io.nblocks + 1)).map frame) io.nblocks) :
    SplitAgrees ns io (bufferAddress frame)
      (.ofSplit ns io result) := by
  have count : pageCount ((io.nblocks + 1) * ns.blockBytes) - 1 =
      io.nblocks := by
    rw [paged]
    unfold pageCount pageBytes
    omega
  have listed := ready.listed
  rw [count] at listed
  rw [List.range'_succ, List.map_cons] at narrow
  have carried := @submitSplit_carried ns io 0 (frame 0) _ _ _ _ listed narrow
    (by simp) fits (by omega)
  rw [← ready.result_eq, ← List.map_cons (f := frame) (a := 0)] at carried
  refine ⟨submitSplit_opcode result, submitSplit_blocks result noWrap, ?_, ?_,
    carried.written⟩
  · intro command member
    obtain ⟨round, found⟩ := List.mem_iff_getElem?.mp member
    have carries := carried.carries found
    have moved :=
      @Carries.transfer frame ns io _ _ _ carries ready.aligned paged
    have inside := carries.inside
    have offset : command.slba - io.slba = 32 * round := by
      rw [carries.slba, Nat.mod_eq_of_lt (by omega), Nat.add_sub_cancel_left]
    rw [paged, offset]
    exact moved
  · have total := (@submitSplit_length ns io 0 result).2
    simp only [Issued.ofSplit, total]
    unfold reqMaxBlocks
    omega

section Necessary

variable {buffer : Nat → Nat} (positive : 0 < ns.blockBytes)

omit ready noWrap in
include positive in
theorem SplitAgrees.prp1 {issued : Issued}
    (agrees : SplitAgrees ns io buffer issued) {command : RwCommand}
    (member : command ∈ issued.commands) :
    command.prp1 =
      some (buffer ((command.slba - io.slba) * ns.blockBytes)) := by
  have size : 0 < (command.length + 1) * ns.blockBytes :=
    Nat.mul_pos (Nat.succ_pos _) positive
  have starts := head_of_prpAddresses size (agrees.data command member)
  obtain ⟨count, isCount⟩ := Nat.exists_eq_succ_of_ne_zero (Nat.ne_of_gt size)
  rw [isCount, List.range'_succ, List.map_cons, List.head?_cons] at starts
  exact starts.symm

omit ready noWrap in
theorem nblocks_of_splitAgrees
    (agrees : SplitAgrees ns io buffer (.ofSplit ns io result)) :
    io.nblocks ≤ 1023 := by
  have tags := agrees.tags
  have total := (@submitSplit_length ns io 0 result).2
  simp only [Issued.ofSplit, total] at tags
  unfold reqMaxBlocks at tags
  omega

include positive

/-- The second command starts at the page of list entry 31, whatever the size of
a block. -/
theorem entry_of_splitAgrees (long : 32 ≤ io.nblocks)
    (agrees : SplitAgrees ns io buffer (.ofSplit ns io result)) :
    32 < pageCount ((io.nblocks + 1) * ns.blockBytes) ∧
      frame 32 % 2 ^ 32 = buffer (32 * ns.blockBytes) := by
  obtain ⟨command, member, atSlba, atEntry⟩ :=
    @submitSplit_second ns io 0 result long
  have starts := agrees.prp1 positive member
  rw [atSlba, Nat.mod_eq_of_lt (by unfold reqMaxBlocks; omega),
    Nat.add_sub_cancel_left, atEntry] at starts
  obtain ⟨entry, found, isBuffer⟩ := Option.map_eq_some_iff.mp starts
  rcases ready.listed.entry_31 with none | here
  · rw [none] at found
    cases found
  · rw [here, List.getElem?_map] at found
    obtain ⟨page, isPage, rfl⟩ := Option.map_eq_some_iff.mp found
    obtain ⟨below, isIndex⟩ := List.getElem?_eq_some_iff.mp isPage
    rw [List.getElem_range'] at isIndex
    rw [List.length_range'] at below
    have isThirtyTwo : page = 32 := by omega
    rw [isThirtyTwo] at isBuffer
    exact ⟨by omega, isBuffer⟩

end Necessary

section Phys

variable {base : Nat}
variable (starts : result.prp1 = some (base % 2 ^ 32))
variable (agrees : SplitAgrees ns io (fun byte => base + byte)
  (.ofSplit ns io result))

omit ready noWrap in
include starts agrees in
theorem base_of_splitAgrees (positive : 0 < ns.blockBytes) : base < 2 ^ 32 := by
  obtain ⟨command, member, atSlba, -, prp1, -⟩ :=
    @submitSplit_first ns io 0 result
  have first := agrees.prp1 positive member
  rw [atSlba, prp1, starts, Nat.sub_self, Nat.zero_mul] at first
  have same : base % 2 ^ 32 = base := Option.some.inj first
  exact lt_of_eq_of_lt same.symm (Nat.mod_lt _ (by decide))

omit noWrap in
include ready agrees in
theorem second_of_splitAgrees
    (isFrame : frame 1 = (base % 2 ^ 32 + pageBytes) % 2 ^ 32)
    (short : io.nblocks ≤ 31)
    (more : pageBytes < (io.nblocks + 1) * ns.blockBytes) :
    base + pageBytes < 2 ^ 32 := by
  obtain ⟨command, member, atSlba, length, prp1, prp2⟩ :=
    @submitSplit_first ns io 0 result
  have moved := agrees.data command member
  rw [RwCommand.transfer, prp1, prp2, length, Nat.min_eq_right short, atSlba,
    Nat.sub_self, Nat.zero_mul] at moved
  have whole := ready.transfer (lt_of_le_of_lt (Nat.zero_le _) more)
  have same := Option.some.inj (whole.symm.trans moved)
  have here := congrArg (·[pageBytes]?) same
  simp only [List.getElem?_map, List.getElem?_range' more, Option.map_some,
    Option.some.injEq, bufferAddress] at here
  rw [Nat.one_mul, Nat.zero_add, Nat.div_self (by decide), Nat.mod_self,
    isFrame, Nat.add_zero] at here
  rw [← here]
  exact Nat.mod_lt _ (by decide)

omit ready in
include starts agrees noWrap in
theorem last_of_splitAgrees (aligned : base % pageBytes = 0)
    (paged : ns.blockBytes = pageBytes) (long : 32 ≤ io.nblocks) :
    base + io.nblocks / 32 * 32 * pageBytes < 2 ^ 32 ∧
      (io.nblocks % 32 = 1 → base + io.nblocks * pageBytes < 2 ^ 32) := by
  obtain ⟨command, member, atSlba, length, tail⟩ :=
    @submitSplit_last ns io 0 result (by omega)
  have narrow := @submitSplit_narrow ns io 0 result (by
    intro page found
    rw [starts] at found
    cases found
    exact Nat.mod_lt _ (by decide)) command member
  have place : command.slba - io.slba = io.nblocks / 32 * 32 := by
    rw [atSlba, Nat.mod_eq_of_lt (by omega), Nat.add_sub_cancel_left,
      Nat.mul_comm]
  have first := agrees.prp1 (by rw [paged]; decide) member
  rw [place, paged] at first
  refine ⟨narrow _ first, ?_⟩
  intro two
  have moved := agrees.data command member
  rw [RwCommand.transfer, place, length, two, paged, first] at moved
  have inPage : (base + io.nblocks / 32 * 32 * pageBytes) % pageBytes = 0 := by
    rw [Nat.add_mul_mod_self_right, aligned]
  have second := second_of_prpAddresses inPage (by decide) (by decide) moved
  rw [List.getElem?_map, List.getElem?_range' (by decide)] at second
  have last := tail two (by omega) _ second.symm
  have isLast : io.nblocks / 32 * 32 * pageBytes + 1 * pageBytes =
      io.nblocks * pageBytes := by
    rw [← Nat.add_mul]
    congr 1
    omega
  rwa [isLast] at last

end Phys

end Agreement

theorem bufferAddress_contiguous (base : Nat) :
    bufferAddress (fun page => base + page * pageBytes) =
      fun byte => base + byte := by
  funext byte
  rw [bufferAddress]
  unfold pageBytes
  omega

section PhysSplit

variable {setup : Nat → Nat → Except Stop (Int × PrpSetup)} {ns : NvmeNs}
variable {io : NvmeUserIo} {base : Nat} {result : PrpSetup}

/-- The frames of the pages are their addresses as soon as that of a later page
than the first does not wrap. -/
theorem physFrame_plain {total last : Nat} (some : 0 < total)
    (inSpace : base + last * pageBytes < 2 ^ 32)
    (later : pageBytes < total → 0 < last) :
    ∀ page ≤ pageCount total - 1,
      physFrame (base % 2 ^ 32) page = base + page * pageBytes := by
  rw [Nat.mod_eq_of_lt (lt_of_le_of_lt (Nat.le_add_right _ _) inSpace)]
  apply physFrame_of_le
  by_cases one : total ≤ pageBytes
  · left
    unfold pageCount pageBytes at *
    omega
  · right
    refine lt_of_le_of_lt (Nat.add_le_add_left ?_ base) inSpace
    exact Nat.le_mul_of_pos_left _ (later (Nat.lt_of_not_le one))

theorem physSplit_necessary (accepts : ns.Accepts)
    (aligned : base % pageBytes = 0)
    (ready : SetUp setup io.addr ((io.nblocks + 1) * ns.blockBytes)
      (physFrame (base % 2 ^ 32)) result)
    (noWrap : io.slba + io.nblocks < 2 ^ 64)
    (agrees :
      SplitAgrees ns io (fun byte => base + byte) (.ofSplit ns io result)) :
    (io.nblocks ≤ 31 ∨ (ns.blockBytes = pageBytes ∧ io.nblocks ≤ 1023)) ∧
      base + (if io.nblocks ≤ 31 then
          if (io.nblocks + 1) * ns.blockBytes ≤ pageBytes then 0 else 1
        else if io.nblocks % 32 = 1 then io.nblocks
        else io.nblocks / 32 * 32) * pageBytes < 2 ^ 32 := by
  have positive : 0 < ns.blockBytes :=
    lt_of_lt_of_le (by decide) accepts.blockBytes_bounds.1
  have starts : result.prp1 = some (base % 2 ^ 32) := ready.prp1
  have low := base_of_splitAgrees starts agrees positive
  by_cases short : io.nblocks ≤ 31
  · refine ⟨.inl short, ?_⟩
    rw [if_pos short]
    split
    next => rwa [Nat.zero_mul, Nat.add_zero]
    next more =>
        rw [Nat.one_mul]
        exact second_of_splitAgrees ready agrees (physFrame_one _) short
          (Nat.lt_of_not_le more)
  · have long : 32 ≤ io.nblocks := Nat.lt_of_not_le short
    obtain ⟨-, isFrame⟩ :=
      entry_of_splitAgrees ready noWrap positive long agrees
    have paged : ns.blockBytes = pageBytes := by
      have small := accepts.blockBytes_bounds.2
      rw [physFrame, Nat.mod_eq_of_lt low] at isFrame
      clear * - small isFrame low
      unfold pageBytes at *
      omega
    obtain ⟨first, tail⟩ :=
      last_of_splitAgrees noWrap starts agrees aligned paged
      long
    refine ⟨.inr ⟨paged, nblocks_of_splitAgrees agrees⟩, ?_⟩
    rw [if_neg short]
    split
    next two => exact tail two
    next => exact first

theorem physSplit_sufficient (accepts : ns.Accepts)
    (aligned : base % pageBytes = 0)
    (ready : SetUp setup io.addr ((io.nblocks + 1) * ns.blockBytes)
      (physFrame (base % 2 ^ 32)) result)
    (noWrap : io.slba + io.nblocks < 2 ^ 64)
    (formatFits :
      io.nblocks ≤ 31 ∨ (ns.blockBytes = pageBytes ∧ io.nblocks ≤ 1023))
    (inSpace : base + (if io.nblocks ≤ 31 then
          if (io.nblocks + 1) * ns.blockBytes ≤ pageBytes then 0 else 1
        else if io.nblocks % 32 = 1 then io.nblocks
        else io.nblocks / 32 * 32) * pageBytes < 2 ^ 32) :
    SplitAgrees ns io (fun byte => base + byte) (.ofSplit ns io result) := by
  have positive : 0 < ns.blockBytes :=
    lt_of_lt_of_le (by decide) accepts.blockBytes_bounds.1
  have plain := physFrame_plain (Nat.mul_pos (Nat.succ_pos io.nblocks) positive)
    inSpace (by
      intro more
      split
      next =>
          rw [if_neg (Nat.not_le_of_lt more)]
          exact Nat.one_pos
      next short =>
          clear * - short
          split <;> omega)
  have contiguous := ready.congr plain (by
    intro page
    rw [Nat.add_mul_mod_self_right]
    exact aligned)
  rw [← bufferAddress_contiguous base]
  by_cases short : io.nblocks ≤ 31
  · exact splitAgrees_short contiguous noWrap positive short
  · obtain ⟨paged, few⟩ := formatFits.resolve_left short
    rw [if_neg short] at inSpace
    refine splitAgrees_paged contiguous noWrap paged few ⟨?_, ?_⟩
    · -- no command starts behind the page that does not wrap
      intro round page found
      obtain ⟨inside, isPage⟩ := List.getElem?_eq_some_iff.mp found
      rw [List.getElem_map, List.getElem_range'] at isPage
      rw [List.length_map, List.length_range'] at inside
      rw [← isPage]
      refine lt_of_le_of_lt (Nat.add_le_add_left
        (Nat.mul_le_mul_right _ ?_) base) inSpace
      clear * - inside short
      split <;> omega
    · intro page two found
      obtain ⟨inside, isPage⟩ := List.getElem?_eq_some_iff.mp found
      rw [List.getElem_map, List.getElem_range'] at isPage
      rw [if_pos two] at inSpace
      rw [← isPage, Nat.zero_add, Nat.one_mul]
      exact inSpace

/-- A physical request is split right when its format fits and no address that
the driver puts through a `dma_addr_t` wraps, and never otherwise. -/
theorem physSplit_iff (accepts : ns.Accepts) (aligned : base % pageBytes = 0)
    (ready : SetUp setup io.addr ((io.nblocks + 1) * ns.blockBytes)
      (physFrame (base % 2 ^ 32)) result)
    (noWrap : io.slba + io.nblocks < 2 ^ 64) :
    SplitAgrees ns io (fun byte => base + byte) (.ofSplit ns io result) ↔
      (io.nblocks ≤ 31 ∨ (ns.blockBytes = pageBytes ∧ io.nblocks ≤ 1023)) ∧
        base + (if io.nblocks ≤ 31 then
            if (io.nblocks + 1) * ns.blockBytes ≤ pageBytes then 0 else 1
          else if io.nblocks % 32 = 1 then io.nblocks
          else io.nblocks / 32 * 32) * pageBytes < 2 ^ 32 :=
  ⟨physSplit_necessary accepts aligned ready noWrap,
    fun ⟨formatFits, inSpace⟩ =>
    physSplit_sufficient accepts aligned ready noWrap formatFits inSpace⟩

end PhysSplit

section Agreement

variable {setup : Nat → Nat → Except Stop (Int × PrpSetup)} {addr length : Nat}
variable {frame : Nat → Nat} {result : PrpSetup}
variable {ns : NvmeNs} {io : NvmeUserIo}
variable (ready : SetUp setup addr ((io.nblocks + 1) * ns.blockBytes) frame
  result)
variable (noWrap : io.slba + io.nblocks < 2 ^ 64)
variable (accepts : ns.Accepts) (inSpace : ∀ page, frame page < 2 ^ 32)
variable (distinct : ∀ page other,
  page < pageCount ((io.nblocks + 1) * ns.blockBytes) →
  other < pageCount ((io.nblocks + 1) * ns.blockBytes) →
  frame page = frame other → page = other)

include ready noWrap accepts inSpace distinct

theorem blockBytes_of_splitAgrees (long : 32 ≤ io.nblocks)
    (agrees : SplitAgrees ns io (bufferAddress frame)
      (.ofSplit ns io result)) : ns.blockBytes = pageBytes := by
  have bounds := accepts.blockBytes_bounds
  obtain ⟨inside, isFrame⟩ := entry_of_splitAgrees ready noWrap (by omega) long
    agrees
  rw [Nat.mod_eq_of_lt (inSpace 32), bufferAddress] at isFrame
  have whole := ready.aligned 32
  have other := ready.aligned (32 * ns.blockBytes / pageBytes)
  have product : 33 * ns.blockBytes ≤ (io.nblocks + 1) * ns.blockBytes :=
    Nat.mul_le_mul_right _ (by omega)
  have multiple : 32 * ns.blockBytes % pageBytes = 0 := by
    have remainder := Nat.mod_lt (32 * ns.blockBytes)
      (show 0 < pageBytes by decide)
    unfold pageBytes at *
    omega
  rw [multiple, Nat.add_zero] at isFrame
  have same := distinct 32 (32 * ns.blockBytes / pageBytes) inside (by
    unfold pageCount pageBytes at *
    omega) isFrame
  unfold pageBytes at *
  omega

theorem splitAgrees_iff :
    SplitAgrees ns io (bufferAddress frame)
        (.ofSplit ns io result) ↔
      io.nblocks ≤ 31 ∨ (ns.blockBytes = pageBytes ∧ io.nblocks ≤ 1023) := by
  have bounds := accepts.blockBytes_bounds
  constructor
  · intro agrees
    by_cases short : io.nblocks ≤ 31
    · exact .inl short
    · exact .inr
        ⟨blockBytes_of_splitAgrees ready noWrap accepts inSpace distinct
        (by omega) agrees, nblocks_of_splitAgrees agrees⟩
  · rintro (short | ⟨paged, fits⟩)
    · exact splitAgrees_short ready noWrap (by omega) short
    · refine splitAgrees_paged ready noWrap paged fits (.of_forall ?_)
      intro address member
      obtain ⟨page, -, rfl⟩ := List.mem_map.mp member
      exact inSpace page

end Agreement

end Chario.Nvme
