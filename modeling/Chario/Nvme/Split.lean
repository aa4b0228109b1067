import Chario.Nvme.Submit

namespace Chario.Nvme

open Chario.Library

/-! The split loop: what every run of it issues, and where its pointers stand in
the lists of a request of up to 1024 pages. -/

section Loop

variable {ns : NvmeNs} {io : NvmeUserIo} {metaDma : Nat}
variable {lists : List PrpBlock}

def SplitState.step (ns : NvmeNs) (io : NvmeUserIo) (metaDma : Nat)
    (lists : List PrpBlock) (s : SplitState) : SplitState :=
  SplitState.advance lists { s with
    commands := s.commands ++ [rwCommand ns io metaDma (reqMaxBlocks - 1) s] }

theorem splitLoop_succ (fuel : Nat) (s : SplitState) :
    splitLoop ns io metaDma lists (fuel + 1) s =
      if reqMaxBlocks ≤ s.remainingBlocks then
        splitLoop ns io metaDma lists fuel (s.step ns io metaDma lists)
      else (0, s) := rfl

theorem SplitState.advance_remaining (s : SplitState) :
    (s.advance lists).remainingBlocks = s.remainingBlocks - reqMaxBlocks := by
  unfold SplitState.advance
  split <;> rfl

theorem SplitState.advance_slba (s : SplitState) :
    (s.advance lists).currentSlba =
      (s.currentSlba + reqMaxBlocks) % 2 ^ 64 := by
  unfold SplitState.advance
  split <;> rfl

theorem SplitState.advance_commands (s : SplitState) :
    (s.advance lists).commands = s.commands := by
  unfold SplitState.advance
  split <;> rfl

@[simp] theorem SplitState.step_remaining (s : SplitState) :
    (s.step ns io metaDma lists).remainingBlocks =
      s.remainingBlocks - reqMaxBlocks :=
  SplitState.advance_remaining _

@[simp] theorem SplitState.step_slba (s : SplitState) :
    (s.step ns io metaDma lists).currentSlba =
      (s.currentSlba + reqMaxBlocks) % 2 ^ 64 :=
  SplitState.advance_slba _

@[simp] theorem SplitState.step_commands (s : SplitState) :
    (s.step ns io metaDma lists).commands =
      s.commands ++ [rwCommand ns io metaDma (reqMaxBlocks - 1) s] :=
  SplitState.advance_commands _

theorem splitLoop_invariant {Inv : Nat → SplitState → Prop}
    (keeps : ∀ {round : Nat} {s : SplitState}, Inv round s →
      reqMaxBlocks ≤ s.remainingBlocks →
      Inv (round + 1) (s.step ns io metaDma lists)) :
    ∀ {fuel round : Nat} {s : SplitState}, Inv round s →
      s.remainingBlocks ≤ fuel →
      ∃ last, splitLoop ns io metaDma lists fuel s = (0, last) ∧
        Inv (round + s.remainingBlocks / reqMaxBlocks) last ∧
        last.remainingBlocks = s.remainingBlocks % reqMaxBlocks := by
  intro fuel
  induction fuel with
  | zero =>
      intro round s holds enough
      have none : s.remainingBlocks = 0 := Nat.le_zero.mp enough
      refine ⟨s, rfl, ?_, by rw [none]; rfl⟩
      rw [none]
      exact holds
  | succ fuel induction =>
      intro round s holds enough
      rw [splitLoop_succ]
      by_cases more : reqMaxBlocks ≤ s.remainingBlocks
      · obtain ⟨last, ran, kept, left⟩ := induction (keeps holds more) (by
          rw [SplitState.step_remaining]
          unfold reqMaxBlocks at *
          omega)
        rw [SplitState.step_remaining] at kept left
        have rounds : round + 1 + (s.remainingBlocks - reqMaxBlocks) /
            reqMaxBlocks = round + s.remainingBlocks / reqMaxBlocks := by
          unfold reqMaxBlocks at *
          omega
        have rest : (s.remainingBlocks - reqMaxBlocks) % reqMaxBlocks =
            s.remainingBlocks % reqMaxBlocks := by
          unfold reqMaxBlocks at *
          omega
        rw [rounds] at kept
        rw [rest] at left
        exact ⟨last, by rw [if_pos more, ran], kept, left⟩
      · have below : s.remainingBlocks < reqMaxBlocks := by omega
        refine ⟨s, if_neg more, ?_, (Nat.mod_eq_of_lt below).symm⟩
        rw [Nat.div_eq_of_lt below]
        exact holds

theorem submitSplit_of_invariant {setup : PrpSetup}
    {Inv : Nat → SplitState → Prop}
    (starts : Inv 0 (.start io setup))
    (keeps : ∀ {round : Nat} {s : SplitState}, Inv round s →
      reqMaxBlocks ≤ s.remainingBlocks →
      Inv (round + 1) (s.step ns io metaDma setup.lists)) :
    ∃ last, Inv (io.nblocks / reqMaxBlocks) last ∧
      last.remainingBlocks = io.nblocks % reqMaxBlocks ∧
      submitSplit ns io metaDma setup =
        nvmeSubmitCharioIoCmd (last.finalPrp2 setup.lists io)
          (rwCommand ns io metaDma last.remainingBlocks
            (last.finalPrp2 setup.lists io)) := by
  obtain ⟨last, ran, kept, left⟩ :=
    @splitLoop_invariant ns io metaDma setup.lists Inv keeps io.nblocks 0 _
      starts (le_refl io.nblocks)
  refine ⟨last, ?_, left, ?_⟩
  · rw [Nat.zero_add] at kept
    exact kept
  · rw [submitSplit, ran]
    rfl

theorem SplitState.finalPrp2_commands (s : SplitState) :
    (s.finalPrp2 lists io).commands = s.commands := by
  unfold SplitState.finalPrp2
  split <;> rfl

theorem SplitState.finalPrp2_slba (s : SplitState) :
    (s.finalPrp2 lists io).currentSlba = s.currentSlba := by
  unfold SplitState.finalPrp2
  split <;> rfl

theorem SplitState.finalPrp2_prp1 (s : SplitState) :
    (s.finalPrp2 lists io).prp1 = s.prp1 := by
  unfold SplitState.finalPrp2
  split <;> rfl

theorem submitSplit_length (setup : PrpSetup) :
    (submitSplit ns io metaDma setup).1 = 0 ∧
      (submitSplit ns io metaDma setup).2.commands.length =
        io.nblocks / reqMaxBlocks + 1 := by
  obtain ⟨last, counted, -, ran⟩ :=
    @submitSplit_of_invariant ns io metaDma setup
    (fun round s => s.commands.length = round) rfl (by
      intro round s counted _
      rw [SplitState.step_commands, List.length_append, counted]
      rfl)
  rw [ran]
  refine ⟨rfl, ?_⟩
  rw [nvmeSubmitCharioIoCmd, List.length_append, SplitState.finalPrp2_commands,
    counted]
  rfl

theorem submitSplit_opcode (setup : PrpSetup) :
    ∀ command ∈ (submitSplit ns io metaDma setup).2.commands,
      command.opcode = io.opcode := by
  obtain ⟨last, same, -, ran⟩ := @submitSplit_of_invariant ns io metaDma setup
    (fun _ s => ∀ command ∈ s.commands, command.opcode = io.opcode)
    (fun _ member => absurd member List.not_mem_nil) (by
      intro round s same _ command member
      rw [SplitState.step_commands] at member
      cases List.mem_append.mp member with
      | inl earlier => exact same command earlier
      | inr new =>
          rw [List.mem_singleton.mp new]
          rfl)
  rw [ran]
  intro command member
  rw [nvmeSubmitCharioIoCmd, SplitState.finalPrp2_commands] at member
  cases List.mem_append.mp member with
  | inl earlier => exact same command earlier
  | inr new =>
      rw [List.mem_singleton.mp new]
      rfl

def RwCommand.blocks (command : RwCommand) : List Nat :=
  List.range' command.slba (command.length + 1)

theorem submitSplit_blocks (setup : PrpSetup)
    (noWrap : io.slba + io.nblocks < 2 ^ 64) :
    (submitSplit ns io metaDma setup).2.commands.flatMap RwCommand.blocks =
      List.range' io.slba (io.nblocks + 1) := by
  obtain ⟨last, ⟨-, atSlba, covered⟩, left, ran⟩ :=
    @submitSplit_of_invariant ns io metaDma setup
    (fun round s => s.remainingBlocks + reqMaxBlocks * round = io.nblocks ∧
      s.currentSlba = io.slba + reqMaxBlocks * round ∧
      s.commands.flatMap RwCommand.blocks =
        List.range' io.slba (reqMaxBlocks * round)) ⟨rfl, rfl, rfl⟩ (by
      rintro round s ⟨total, atSlba, covered⟩ more
      refine ⟨?_, ?_, ?_⟩
      · rw [SplitState.step_remaining]
        unfold reqMaxBlocks at *
        omega
      · rw [SplitState.step_slba, atSlba]
        unfold reqMaxBlocks at *
        omega
      · rw [SplitState.step_commands, List.flatMap_append, covered]
        simp only [List.flatMap_cons, List.flatMap_nil, List.append_nil,
          RwCommand.blocks, rwCommand, atSlba]
        rw [List.range'_append_1]
        rfl)
  rw [ran, nvmeSubmitCharioIoCmd, List.flatMap_append,
    SplitState.finalPrp2_commands, covered]
  simp only [List.flatMap_cons, List.flatMap_nil, List.append_nil,
    RwCommand.blocks, rwCommand, SplitState.finalPrp2_slba, atSlba, left]
  rw [List.range'_append_1]
  congr 1
  unfold reqMaxBlocks
  omega

theorem submitSplit_first (setup : PrpSetup) :
    ∃ command ∈ (submitSplit ns io metaDma setup).2.commands,
      command.slba = io.slba ∧ command.length = min 31 io.nblocks ∧
      command.prp1 = setup.prp1 ∧ command.prp2 = setup.prp2 := by
  obtain ⟨last, reached, left, ran⟩ := @submitSplit_of_invariant ns io metaDma
    setup (fun round s =>
      (round = 0 ∧ s = .start io setup) ∨
      (1 ≤ round ∧ reqMaxBlocks ≤ io.nblocks ∧
        ∃ command ∈ s.commands, command.slba = io.slba ∧
        command.length = reqMaxBlocks - 1 ∧ command.prp1 = setup.prp1 ∧
        command.prp2 = setup.prp2)) (.inl ⟨rfl, rfl⟩) (by
      rintro round s (⟨rfl, rfl⟩ | ⟨_, long, command, member, facts⟩) more
      · refine .inr ⟨Nat.le_add_left _ _, more, ?_⟩
        refine ⟨rwCommand ns io metaDma (reqMaxBlocks - 1) (.start io setup),
          ?_,
          rfl, rfl, rfl, rfl⟩
        rw [SplitState.step_commands]
        exact List.mem_append_right _ List.mem_cons_self
      · refine .inr ⟨Nat.le_add_left _ _, long, command, ?_, facts⟩
        rw [SplitState.step_commands]
        exact List.mem_append_left _ member)
  rw [ran, nvmeSubmitCharioIoCmd]
  simp only [SplitState.finalPrp2_commands]
  rcases reached
      with ⟨none, isStart⟩ | ⟨_, long, command, member, atSlba, length,
    pointers⟩
  · have few : io.nblocks < reqMaxBlocks := by
      unfold reqMaxBlocks at *
      omega
    have same : last.finalPrp2 setup.lists io = last := by
      rw [isStart]
      apply if_neg
      rintro ⟨one, more⟩
      exact absurd one (Nat.ne_of_gt more)
    refine ⟨_, List.mem_append_right _ List.mem_cons_self, ?_, ?_, ?_, ?_⟩
    · rw [rwCommand, same, isStart]
      rfl
    · rw [rwCommand, left]
      unfold reqMaxBlocks at *
      simp only
      omega
    · rw [rwCommand, same, isStart]
      rfl
    · rw [rwCommand, same, isStart]
      rfl
  · refine ⟨command, List.mem_append_left _ member, atSlba, ?_, pointers⟩
    unfold reqMaxBlocks at *
    omega

/-- No block is in two commands. -/
theorem submitSplit_unique {setup : PrpSetup}
    (noWrap : io.slba + io.nblocks < 2 ^ 64) {command other : RwCommand}
    (member : command ∈ (submitSplit ns io metaDma setup).2.commands)
    (memberOther : other ∈ (submitSplit ns io metaDma setup).2.commands)
    {block : Nat} (inside : block ∈ command.blocks)
    (insideOther : block ∈ other.blocks) : command = other := by
  have distinct : ((submitSplit ns io metaDma setup).2.commands.flatMap
      RwCommand.blocks).Nodup := by
    rw [submitSplit_blocks setup noWrap]
    exact List.nodup_range'
  rw [List.nodup_flatMap] at distinct
  by_contra different
  have symmetric : Std.Symm (Function.onFun List.Disjoint RwCommand.blocks) :=
    ⟨fun _ _ disjoint _ one two => disjoint two one⟩
  exact (distinct.2.forall member memberOther different) inside insideOther

theorem submitSplit_second {setup : PrpSetup}
    (long : reqMaxBlocks ≤ io.nblocks) :
    ∃ command ∈ (submitSplit ns io metaDma setup).2.commands,
      command.slba = (io.slba + reqMaxBlocks) % 2 ^ 64 ∧
      command.prp1 = (prpListEntry setup.lists 0 31).map (· % 2 ^ 32) := by
  obtain ⟨last, reached, -, ran⟩ :=
    @submitSplit_of_invariant ns io metaDma setup
    (fun round s =>
      (round = 0 ∧ s = .start io setup) ∨
      (round = 1 ∧ s.currentSlba = (io.slba + reqMaxBlocks) % 2 ^ 64 ∧
        s.prp1 = (prpListEntry setup.lists 0 31).map (· % 2 ^ 32)) ∨
      ∃ command ∈ s.commands, command.slba = (io.slba + reqMaxBlocks) % 2 ^ 64 ∧
        command.prp1 = (prpListEntry setup.lists 0 31).map (· % 2 ^ 32))
    (.inl ⟨rfl, rfl⟩) (by
      rintro round s (⟨rfl, rfl⟩ | ⟨rfl, atSlba, atEntry⟩ | found) more
      · refine .inr (.inl ⟨rfl, ?_, ?_⟩)
        · rw [SplitState.step_slba]
          rfl
        · rfl
      · refine .inr (.inr ⟨rwCommand ns io metaDma (reqMaxBlocks - 1) s, ?_,
          atSlba, atEntry⟩)
        rw [SplitState.step_commands]
        exact List.mem_append_right _ List.mem_cons_self
      · obtain ⟨command, member, facts⟩ := found
        refine .inr (.inr ⟨command, ?_, facts⟩)
        rw [SplitState.step_commands]
        exact List.mem_append_left _ member)
  have rounds : 1 ≤ io.nblocks / reqMaxBlocks := by
    unfold reqMaxBlocks at *
    omega
  rw [ran, nvmeSubmitCharioIoCmd]
  simp only [SplitState.finalPrp2_commands]
  rcases reached
      with ⟨none, -⟩ | ⟨-, atSlba, atEntry⟩ | ⟨command, member, facts⟩
  · omega
  · refine ⟨_, List.mem_append_right _ List.mem_cons_self, ?_, ?_⟩
    · rw [rwCommand, SplitState.finalPrp2_slba, atSlba]
    · rw [rwCommand, SplitState.finalPrp2_prp1, atEntry]
  · exact ⟨command, List.mem_append_left _ member, facts⟩

theorem submitSplit_narrow {setup : PrpSetup}
    (below : ∀ page, setup.prp1 = some page → page < 2 ^ 32) :
    ∀ command ∈ (submitSplit ns io metaDma setup).2.commands,
      ∀ page, command.prp1 = some page → page < 2 ^ 32 := by
  obtain ⟨last, ⟨here, earlier⟩, -, ran⟩ :=
    @submitSplit_of_invariant ns io metaDma setup
    (fun _ s => (∀ page, s.prp1 = some page → page < 2 ^ 32) ∧
      ∀ command ∈ s.commands, ∀ page, command.prp1 = some page →
        page < 2 ^ 32)
    ⟨below, fun _ member => absurd member List.not_mem_nil⟩ (by
      rintro round s ⟨here, earlier⟩ _
      refine ⟨?_, ?_⟩
      · intro page found
        rw [SplitState.step, SplitState.advance] at found
        split at found <;>
          · obtain ⟨entry, -, rfl⟩ := Option.map_eq_some_iff.mp found
            exact Nat.mod_lt _ (by decide)
      · intro command member
        rw [SplitState.step_commands] at member
        cases List.mem_append.mp member with
        | inl old => exact earlier command old
        | inr new =>
            rw [List.mem_singleton.mp new]
            exact here)
  rw [ran]
  intro command member
  rw [nvmeSubmitCharioIoCmd, SplitState.finalPrp2_commands] at member
  cases List.mem_append.mp member with
  | inl old => exact earlier command old
  | inr new =>
      rw [List.mem_singleton.mp new, rwCommand, SplitState.finalPrp2_prp1]
      exact here

/-- The last command of a request.  Its second pointer is 32 bits wide when it
is the page of a two-block tail. -/
theorem submitSplit_last (setup : PrpSetup) (wide : io.slba < 2 ^ 64) :
    ∃ command ∈ (submitSplit ns io metaDma setup).2.commands,
      command.slba = (io.slba + 32 * (io.nblocks / 32)) % 2 ^ 64 ∧
      command.length = io.nblocks % 32 ∧
      (io.nblocks % 32 = 1 → 1 < io.nblocks →
        ∀ page, command.prp2 = some page → page < 2 ^ 32) := by
  obtain ⟨last, atSlba, left, ran⟩ := @submitSplit_of_invariant ns io metaDma
    setup (fun round s => s.currentSlba = (io.slba + 32 * round) % 2 ^ 64)
    (Nat.mod_eq_of_lt wide).symm (by
      intro round s atSlba _
      rw [SplitState.step_slba, atSlba]
      unfold reqMaxBlocks
      omega)
  refine ⟨rwCommand ns io metaDma last.remainingBlocks
    (last.finalPrp2 setup.lists io), ?_, ?_, left, ?_⟩
  · rw [ran]
    exact List.mem_append_right _ List.mem_cons_self
  · rw [rwCommand, SplitState.finalPrp2_slba, atSlba]
    rfl
  · intro two long page found
    have tail : last.remainingBlocks = 1 ∧ 1 < io.nblocks :=
      ⟨left.trans two, long⟩
    rw [rwCommand, SplitState.finalPrp2, if_pos tail] at found
    obtain ⟨entry, -, rfl⟩ := Option.map_eq_some_iff.mp found
    exact Nat.mod_lt _ (by decide)

theorem submitIo_issued {setup : Nat → Nat → Except Stop (Int × PrpSetup)}
    {kernel : Kernel} {issued : Issued}
    (ran : submitIo setup kernel ns io = .ok issued) :
    issued.status = 0 ∧ issued.nblocks = io.nblocks ∧
      issued.commands.length = io.nblocks / reqMaxBlocks + 1 := by
  unfold submitIo at ran
  split at ran
  next => cases ran
  split at ran
  next => cases ran
  split at ran
  next => cases ran
  next =>
      split at ran
      next => cases ran
      split at ran
      next => cases ran
      next =>
          cases ran
          exact ⟨(submitSplit_length _).1, rfl, (submitSplit_length _).2⟩

end Loop

structure Admitted (kernel : Kernel) (ns : NvmeNs) (io : NvmeUserIo) :
    Prop where
  opcode : io.opcode = .write ∨ io.opcode = .read ∨ io.opcode = .compare
  metadata : metaLen ns io ≠ 0 → ns.ext = false →
    io.metadata % 4 = 0 ∧ io.metadata ≠ 0 ∧
      kernel.dmaAllocCoherent (metaLen ns io) ≠ none

section Admitted

variable {kernel : Kernel} {ns : NvmeNs} {io : NvmeUserIo}
variable (admitted : Admitted kernel ns io)

include admitted

theorem Admitted.placed : ¬ (metaLen ns io ≠ 0 ∧
    (io.metadata % 4 ≠ 0 ∨ io.metadata = 0) ∧ ns.ext = false) := by
  rintro ⟨some, wrong, separate⟩
  obtain ⟨aligned, nonzero, -⟩ := admitted.metadata some separate
  exact wrong.elim (· aligned) nonzero

theorem Admitted.known : ¬ (io.opcode ≠ .write ∧ io.opcode ≠ .read ∧
    io.opcode ≠ .compare) := by
  rintro ⟨notWrite, notRead, notCompare⟩
  rcases admitted.opcode with isOpcode | isOpcode | isOpcode
  · exact notWrite isOpcode
  · exact notRead isOpcode
  · exact notCompare isOpcode

variable {setup : Nat → Nat → Except Stop (Int × PrpSetup)}

theorem Admitted.submitIo_error {stop : Stop}
    (ran : setup io.addr (transferLen ns io) = .error stop) :
    submitIo setup kernel ns io = .error stop := by
  rw [submitIo, if_neg admitted.placed, if_neg admitted.known, ran]

theorem Admitted.submitIo_short {ret : Int} {result : PrpSetup}
    (ran : setup io.addr (transferLen ns io) = .ok (ret, result))
    (short : (transferLen ns io : Int) ≠ ret) :
    submitIo setup kernel ns io = .error (.status (-enomem)) := by
  rw [submitIo, if_neg admitted.placed, if_neg admitted.known, ran]
  exact if_pos short

theorem Admitted.submitIo_eq {result : PrpSetup}
    (ran : setup io.addr (transferLen ns io) =
      .ok (transferLen ns io, result)) :
    ∃ metaDma, metaBuffer kernel ns io = .ok metaDma ∧
      submitIo setup kernel ns io =
        .ok ⟨0, io.nblocks, (submitSplit ns io metaDma result).2.commands,
          result.lists, (submitSplit ns io metaDma result).2.entriesRead⟩ := by
  obtain ⟨metaDma, buffer⟩ : ∃ metaDma, metaBuffer kernel ns io =
      .ok metaDma := by
    unfold metaBuffer
    split
    next needed =>
        obtain ⟨-, -, granted⟩ := admitted.metadata needed.1 needed.2
        obtain ⟨dma, isDma⟩ := Option.ne_none_iff_exists'.mp granted
        exact ⟨dma, by rw [isDma]⟩
    next => exact ⟨0, rfl⟩
  have status := (@submitSplit_length ns io metaDma result).1
  refine ⟨metaDma, buffer, ?_⟩
  rw [submitIo, if_neg admitted.placed, if_neg admitted.known, ran]
  simp only [ne_eq, not_true_eq_false, if_false, buffer]
  rw [← status]

end Admitted

/-! Up to 1024 pages the entries after the first page take one list block, or
two with a chain pointer in slot 511 of the first. -/

inductive Laid (pages : List Nat) : PrpSetup → Prop
  | one {prp1 : Option Nat} {npages : Int} {dma : Nat} (single : npages ≤ 1) :
      Laid pages ⟨prp1, some dma, npages, [⟨dma, pages⟩]⟩
  | two {prp1 : Option Nat} {dma next : Nat} (long : 513 ≤ pages.length) :
      Laid pages ⟨prp1, some dma, 2,
        [⟨dma, pages.take 511 ++ [next]⟩, ⟨next, pages.drop 511⟩]⟩

theorem Packed.two_of_length {pages : List Nat} {lists : List PrpBlock}
    (packed : Packed pages lists) (long : perPage < pages.length)
    (fits : pages.length ≤ 1023) :
    ∃ dma next, lists =
      [⟨dma, pages.take 511 ++ [next]⟩, ⟨next, pages.drop 511⟩] := by
  cases packed with
  | single small => omega
  | @chained dma front later block blocks full more tail =>
      have size : front.length = 511 := by
        unfold perPage pageBytes at full
        omega
      obtain ⟨next, single⟩ := tail.single_of_length (by
        rw [List.length_append] at fits
        unfold perPage pageBytes
        omega)
      cases single
      refine ⟨dma, next, ?_⟩
      rw [List.take_left' size, List.drop_left' size]

theorem Listed.laid {pages : List Nat} {prp1 prp2 : Option Nat} {npages : Int}
    {lists : List PrpBlock} (listed : Listed pages prp2 npages lists)
    (long : 2 ≤ pages.length) (fits : pages.length ≤ 1023) :
    Laid pages ⟨prp1, prp2, npages, lists⟩ := by
  cases listed with
  | none => cases long
  | one => simp at long
  | small _ _ _ => exact .one (by decide)
  | paged many packed first distinct aligned =>
      by_cases single : pages.length ≤ perPage
      · obtain ⟨dma, rfl⟩ := packed.single_of_length single
        cases first
        exact .one (le_refl 1)
      · obtain ⟨dma, next, rfl⟩ := packed.two_of_length (by omega) fits
        cases first
        refine .two ?_
        unfold perPage pageBytes at single
        omega

inductive Place (setup : PrpSetup) : Nat → SplitState → Prop
  | head {round : Nat} {s : SplitState} {block : PrpBlock}
      (found : setup.lists[0]? = some block) (page : s.pageCount = 0)
      (offset : s.prp1Offset = 32 * round - 1)
      (left : s.remainingPages = setup.npages)
      (pointer : s.prp2 = some (block.dma + 8 * (32 * round)))
      (inside : round < 16 ∨ setup.npages ≤ 1) : Place setup round s
  | tail {round : Nat} {s : SplitState} {block : PrpBlock}
      (found : setup.lists[1]? = some block) (page : s.pageCount = 1)
      (offset : s.prp1Offset = 32 * (round - 16 : Nat))
      (left : s.remainingPages = 1)
      (pointer : s.prp2 = some (block.dma + 8 * (32 * (round - 16) + 1)))
      (later : 16 ≤ round) : Place setup round s

structure Window (setup : PrpSetup) (pages : List Nat) (round : Nat)
    (s : SplitState) (block : PrpBlock) (before after : List Nat) : Prop where
  found : setup.lists[s.pageCount]? = some block
  entries : block.entries =
    before ++ ((pages.drop (32 * round)).take 31 ++ after)
  offset : s.prp1Offset + 1 = before.length
  pointer : s.prp2 = some (block.dma + 8 * before.length)

theorem chained_entries (pages : List Nat) (next : Nat) {start : Nat}
    (fits : start + 31 ≤ 511) :
    pages.take 511 ++ [next] =
      pages.take start ++ ((pages.drop start).take 31 ++
        (((pages.take 511).drop start).drop 31 ++ [next])) := by
  have front : (pages.take 511).take start = pages.take start := by
    rw [List.take_take, Nat.min_eq_left (by omega)]
  have part : ((pages.take 511).drop start).take 31 =
      (pages.drop start).take 31 := by
    rw [List.drop_take, List.take_take, Nat.min_eq_left (by omega)]
  calc
    pages.take 511 ++ [next] =
        (pages.take 511).take start ++ (pages.take 511).drop start ++
          [next] := by
      rw [List.take_append_drop]
    _ = (pages.take 511).take start ++
          (((pages.take 511).drop start).take 31 ++
            ((pages.take 511).drop start).drop 31) ++ [next] := by
      rw [List.take_append_drop 31]
    _ = pages.take start ++ ((pages.drop start).take 31 ++
          (((pages.take 511).drop start).drop 31 ++ [next])) := by
      rw [front, part, List.append_assoc, List.append_assoc]

theorem Laid.window {pages : List Nat} {setup : PrpSetup}
    (laid : Laid pages setup) {round : Nat} {s : SplitState}
    (place : Place setup round s) (inside : 32 * round ≤ pages.length) :
    ∃ block before after, Window setup pages round s block before after := by
  cases laid with
  | @one _ _ dma single =>
      cases place with
      | head found page offset left pointer _ =>
          cases found
          refine ⟨⟨dma, pages⟩, pages.take (32 * round),
            (pages.drop (32 * round)).drop 31, ?_, ?_, ?_, ?_⟩
          · rw [page]
            rfl
          · rw [List.take_append_drop, List.take_append_drop]
          · rw [offset, List.length_take_of_le inside]
            omega
          · rw [pointer, List.length_take_of_le inside]
      | tail found _ _ _ _ _ => cases found
  | @two _ dma next long =>
      cases place with
      | head found page offset left pointer early =>
          cases found
          have below : round < 16 := by
            cases early with
            | inl below => exact below
            | inr single => cases single
          refine ⟨⟨dma, pages.take 511 ++ [next]⟩, pages.take (32 * round),
            ((pages.take 511).drop (32 * round)).drop 31 ++ [next],
            ?_, ?_, ?_, ?_⟩
          · rw [page]
            rfl
          · exact chained_entries pages next (by omega)
          · rw [offset, List.length_take_of_le inside]
            omega
          · rw [pointer, List.length_take_of_le inside]
      | tail found page offset left pointer later =>
          cases found
          have here : 511 + (32 * (round - 16) + 1) = 32 * round := by omega
          have size : ((pages.drop 511).take
              (32 * (round - 16) + 1)).length = 32 * (round - 16) + 1 := by
            rw [List.length_take_of_le]
            rw [List.length_drop]
            omega
          refine ⟨⟨next, pages.drop 511⟩,
            (pages.drop 511).take (32 * (round - 16) + 1),
            (pages.drop (32 * round)).drop 31, ?_, ?_, ?_, ?_⟩
          · rw [page]
            rfl
          · have start : (pages.drop 511).drop (32 * (round - 16) + 1) =
                pages.drop (32 * round) := by
              rw [List.drop_drop, here]
            rw [List.take_append_drop, ← start, List.take_append_drop]
          · rw [offset, size]
            omega
          · rw [pointer, size]

theorem prpListEntry_nat {lists : List PrpBlock} {page : Nat}
    {block : PrpBlock} (found : lists[page]? = some block) {index : Int}
    (position : Nat) (isNat : index = position) :
    prpListEntry lists page index = block.entries[position]? := by
  have inside : ¬ index < 0 := by omega
  rw [prpListEntry, if_neg inside, found, isNat]
  rfl

theorem SplitState.advance_same {lists : List PrpBlock} {s : SplitState}
    (stays : ¬ (s.prp1Offset = 479 ∧ 1 < s.remainingPages)) :
    s.advance lists = { s with
      remainingBlocks := s.remainingBlocks - reqMaxBlocks
      currentSlba := (s.currentSlba + reqMaxBlocks) % 2 ^ 64
      prp1Offset := s.prp1Offset + reqMaxBlocks
      prp1 := (prpListEntry lists s.pageCount
        (s.prp1Offset + reqMaxBlocks)).map (· % 2 ^ 32)
      prp2 := s.prp2.map (· + reqMaxBlocks * 8)
      entriesRead := s.entriesRead ++
        [prpListEntry lists s.pageCount (s.prp1Offset + reqMaxBlocks)] } :=
  if_neg stays

theorem SplitState.advance_next {lists : List PrpBlock} {s : SplitState}
    (moves : s.prp1Offset = 479 ∧ 1 < s.remainingPages) :
    s.advance lists = { s with
      remainingBlocks := s.remainingBlocks - reqMaxBlocks
      currentSlba := (s.currentSlba + reqMaxBlocks) % 2 ^ 64
      prp2 := (prpListEntry lists s.pageCount 511).map (· + 8)
      pageCount := s.pageCount + 1
      prp1Offset := 0
      prp1 := (prpListEntry lists (s.pageCount + 1) 0).map (· % 2 ^ 32)
      remainingPages := s.remainingPages - 1
      entriesRead := s.entriesRead ++ [prpListEntry lists s.pageCount 511,
        prpListEntry lists (s.pageCount + 1) 0] } :=
  if_pos moves

structure Moved (setup : PrpSetup) (pages : List Nat) (round : Nat)
    (s after : SplitState) : Prop where
  place : Place setup (round + 1) after
  prp1 : after.prp1 = pages[32 * round + 31]?.map (· % 2 ^ 32)
  written : none ∉ s.entriesRead → none ∉ after.entriesRead

theorem Moved.of_same {setup : PrpSetup} {pages : List Nat} {round : Nat}
    {s : SplitState} {block : PrpBlock} {position : Nat}
    (found : setup.lists[s.pageCount]? = some block)
    (isNat : s.prp1Offset + reqMaxBlocks = position)
    (entry : block.entries[position]? = pages[32 * round + 31]?)
    (more : 32 * round + 32 ≤ pages.length)
    (stays : ¬ (s.prp1Offset = 479 ∧ 1 < s.remainingPages))
    (next : Place setup (round + 1) (s.advance setup.lists)) :
    Moved setup pages round s (s.advance setup.lists) := by
  have reads := (prpListEntry_nat found position isNat).trans entry
  have isSome := List.getElem?_eq_getElem
    (show 32 * round + 31 < pages.length by omega)
  refine ⟨next, ?_, ?_⟩
  · rw [SplitState.advance_same stays]
    simp only [reads]
  · rw [SplitState.advance_same stays]
    intro written
    simp only [reads, isSome]
    simpa using written

/-- Round 15 ends at the chain pointer of the first block and goes on in the
second one. -/
theorem Moved.of_chain {prp1 : Option Nat} {dma next : Nat} {pages : List Nat}
    {s : SplitState} (long : 513 ≤ pages.length) (page : s.pageCount = 0)
    (offset : s.prp1Offset = 479) (left : s.remainingPages = 2) :
    Moved ⟨prp1, some dma, 2,
        [⟨dma, pages.take 511 ++ [next]⟩, ⟨next, pages.drop 511⟩]⟩ pages 15 s
      (s.advance
        [⟨dma, pages.take 511 ++ [next]⟩, ⟨next, pages.drop 511⟩]) := by
  have moves : s.prp1Offset = 479 ∧ 1 < s.remainingPages := by omega
  have chain : prpListEntry
      [⟨dma, pages.take 511 ++ [next]⟩, ⟨next, pages.drop 511⟩]
      s.pageCount 511 = some next := by
    rw [page]
    refine (@prpListEntry_nat _ 0 ⟨dma, pages.take 511 ++ [next]⟩ rfl
      511 511 rfl).trans ?_
    have size : (pages.take 511).length = 511 :=
      List.length_take_of_le (by omega)
    simp [size]
  have first : prpListEntry
      [⟨dma, pages.take 511 ++ [next]⟩, ⟨next, pages.drop 511⟩]
      (s.pageCount + 1) 0 = pages[511]? := by
    rw [page]
    refine (@prpListEntry_nat _ 1 ⟨next, pages.drop 511⟩ rfl 0 0 rfl).trans ?_
    exact List.getElem?_drop
  have isSome := List.getElem?_eq_getElem (show 511 < pages.length by omega)
  rw [SplitState.advance_next moves]
  refine ⟨?_, by simp only [first], ?_⟩
  · refine .tail rfl (by simp only [page]) rfl ?_ ?_ (by decide)
    · simp only [left]
      rfl
    · simp only [chain, Option.map_some]
  · intro written
    simp only [chain, first, isSome]
    simpa using written

theorem Laid.moved {pages : List Nat} {setup : PrpSetup}
    (laid : Laid pages setup) {round : Nat} {s : SplitState}
    (place : Place setup round s) (more : 32 * round + 32 ≤ pages.length) :
    Moved setup pages round s (s.advance setup.lists) := by
  cases laid with
  | @one _ npages dma single =>
      cases place with
      | head found page offset left pointer early =>
          cases found
          simp only at left
          have stays : ¬ (s.prp1Offset = 479 ∧ 1 < s.remainingPages) := by omega
          refine @Moved.of_same _ _ _ _ ⟨dma, pages⟩ (32 * round + 31)
            (by rw [page]; rfl) (by unfold reqMaxBlocks; omega) rfl more
            stays ?_
          rw [SplitState.advance_same stays]
          refine .head rfl page ?_ left ?_ (.inr single)
          · simp only [offset]
            unfold reqMaxBlocks
            omega
          · simp only [pointer, Option.map_some]
            unfold reqMaxBlocks
            exact congrArg some (by omega)
      | tail found _ _ _ _ _ => cases found
  | @two _ dma next long =>
      cases place with
      | head found page offset left pointer early =>
          cases found
          simp only at left
          have below : round < 16 := by
            cases early with
            | inl below => exact below
            | inr single => cases single
          by_cases last : round = 15
          · subst last
            exact Moved.of_chain long page offset left
          · have stays : ¬ (s.prp1Offset = 479 ∧ 1 < s.remainingPages) := by
              omega
            refine @Moved.of_same _ _ _ _ ⟨dma, pages.take 511 ++ [next]⟩
              (32 * round + 31) (by rw [page]; rfl)
              (by unfold reqMaxBlocks; omega) ?_ more stays ?_
            · simp only
              rw [List.getElem?_append_left, List.getElem?_take_of_lt]
              · omega
              · rw [List.length_take]
                omega
            rw [SplitState.advance_same stays]
            refine .head rfl page ?_ left ?_ (.inl (by omega))
            · simp only [offset]
              unfold reqMaxBlocks
              omega
            · simp only [pointer, Option.map_some]
              unfold reqMaxBlocks
              exact congrArg some (by omega)
      | tail found page offset left pointer later =>
          cases found
          have stays : ¬ (s.prp1Offset = 479 ∧ 1 < s.remainingPages) := by omega
          refine @Moved.of_same _ _ _ _ ⟨next, pages.drop 511⟩
            (32 * (round - 16) + 32) (by rw [page]; rfl)
            (by unfold reqMaxBlocks; omega) ?_ more stays ?_
          · simp only
            rw [List.getElem?_drop]
            congr 1
            omega
          rw [SplitState.advance_same stays]
          refine .tail rfl page ?_ left ?_ (by omega)
          · simp only [offset]
            unfold reqMaxBlocks
            omega
          · simp only [pointer, Option.map_some]
            unfold reqMaxBlocks
            exact congrArg some (by omega)

section Window

variable {setup : PrpSetup} {pages : List Nat} {round : Nat} {s : SplitState}
variable {block : PrpBlock} {before after : List Nat}

theorem Window.points (window : Window setup pages round s block before after)
    (placed : Placed setup.lists)
    (many : 2 ≤ ((pages.drop (32 * round)).take 31).length) :
    Points (prpMemory setup.lists) s.prp2
      ((pages.drop (32 * round)).take 31) := by
  have listed := prpList_block placed (List.mem_of_getElem? window.found)
    window.entries
  rw [window.pointer]
  match (pages.drop (32 * round)).take 31, many, listed with
  | _ :: _ :: _, _, listed => exact ⟨_, rfl, listed⟩

theorem Window.single (window : Window setup pages round s block before after)
    {page : Nat} (one : (pages.drop (32 * round)).take 31 = [page]) :
    prpListEntry setup.lists s.pageCount (s.prp1Offset + 1) = some page := by
  rw [prpListEntry_nat window.found before.length window.offset, window.entries,
    one]
  simp

end Window

structure Carries (memory : Nat → Option Nat) (all : List Nat)
    (io : NvmeUserIo) (round : Nat) (command : RwCommand) : Prop where
  inside : 32 * round ≤ io.nblocks
  opcode : command.opcode = io.opcode
  slba : command.slba = (io.slba + 32 * round) % 2 ^ 64
  length : command.length = min 31 (io.nblocks - 32 * round)
  prp1 : command.prp1 = all[32 * round]?
  prp2 : Points memory command.prp2 ((all.drop (32 * round + 1)).take 31)

structure SplitAt (setup : PrpSetup) (all : List Nat) (io : NvmeUserIo)
    (round : Nat) (s : SplitState) : Prop where
  remaining : s.remainingBlocks + 32 * round = io.nblocks
  slba : s.currentSlba = (io.slba + 32 * round) % 2 ^ 64
  prp1 : s.prp1 = all[32 * round]?
  place : Place setup round s
  written : none ∉ s.entriesRead
  count : s.commands.length = round
  carries : ∀ {index : Nat} {command : RwCommand},
    s.commands[index]? = some command →
      Carries (prpMemory setup.lists) all io index command

/-- The pages that the loop casts to a `dma_addr_t`, the first ones of the later
commands and the last one of a two-block tail, fit. -/
structure Narrow (all : List Nat) (nblocks : Nat) : Prop where
  starts : ∀ {round page : Nat}, all[32 * (round + 1)]? = some page →
    page < 2 ^ 32
  tail : ∀ {page : Nat}, nblocks % 32 = 1 → all[nblocks]? = some page →
    page < 2 ^ 32

theorem Narrow.of_forall {all : List Nat} {nblocks : Nat}
    (below : ∀ page ∈ all, page < 2 ^ 32) : Narrow all nblocks :=
  ⟨fun found => below _ (List.mem_of_getElem? found),
    fun _ found => below _ (List.mem_of_getElem? found)⟩

theorem cast_eq_of_narrow {found : Option Nat}
    (below : ∀ page, found = some page → page < 2 ^ 32) :
    found.map (· % 2 ^ 32) = found := by
  cases found with
  | none => rfl
  | some page =>
      rw [Option.map_some, Nat.mod_eq_of_lt (below page rfl)]

section Request

variable {ns : NvmeNs} {io : NvmeUserIo} {metaDma first : Nat}
variable {pages : List Nat}

theorem SplitAt.commands_append {setup : PrpSetup} {all : List Nat}
    {round : Nat} {s : SplitState} (here : SplitAt setup all io round s)
    {command : RwCommand}
    (carries : Carries (prpMemory setup.lists) all io round command)
    {index : Nat} {issued : RwCommand}
    (found : (s.commands ++ [command])[index]? = some issued) :
    Carries (prpMemory setup.lists) all io index issued := by
  by_cases early : index < s.commands.length
  · rw [List.getElem?_append_left early] at found
    exact here.carries found
  · have below := (List.getElem?_eq_some_iff.mp found).1
    rw [List.length_append, List.length_singleton] at below
    have last : index = s.commands.length := by omega
    rw [last, List.getElem?_concat_length] at found
    cases found
    rw [last, here.count]
    exact carries

theorem SplitAt.step {setup : PrpSetup} (laid : Laid pages setup)
    (placed : Placed setup.lists) (narrow : Narrow (first :: pages) io.nblocks)
    (size : pages.length = io.nblocks)
    {round : Nat} {s : SplitState}
    (here : SplitAt setup (first :: pages) io round s)
    (more : reqMaxBlocks ≤ s.remainingBlocks) :
    SplitAt setup (first :: pages) io (round + 1)
      (s.step ns io metaDma setup.lists) := by
  have total := here.remaining
  unfold reqMaxBlocks at more
  obtain ⟨block, before, after, window⟩ := laid.window here.place (by omega)
  have full : ((pages.drop (32 * round)).take 31).length = 31 := by
    rw [List.length_take, List.length_drop]
    omega
  have carries : Carries (prpMemory setup.lists) (first :: pages) io round
      (rwCommand ns io metaDma (reqMaxBlocks - 1) s) := by
    refine ⟨by omega, rfl, here.slba, ?_, here.prp1, ?_⟩
    · simp only [rwCommand]
      unfold reqMaxBlocks
      omega
    · rw [List.drop_succ_cons]
      exact window.points placed (by omega)
  have moved :
      Moved setup pages round s (s.step ns io metaDma setup.lists) := by
    obtain ⟨place, prp1, written⟩ := @Laid.moved pages setup laid round
      { s with
        commands := s.commands ++
          [rwCommand ns io metaDma (reqMaxBlocks - 1) s] }
      (by
        cases here.place with
        | head found page offset left pointer inside =>
            exact .head found page offset left pointer inside
        | tail found page offset left pointer later =>
            exact .tail found page offset left pointer later) (by omega)
    exact ⟨place, prp1, written⟩
  refine ⟨?_, ?_, ?_, moved.place, moved.written here.written, ?_, ?_⟩
  · rw [SplitState.step_remaining]
    unfold reqMaxBlocks
    omega
  · rw [SplitState.step_slba, here.slba]
    unfold reqMaxBlocks
    omega
  · have next : pages[32 * round + 31]? =
        (first :: pages)[32 * (round + 1)]? := rfl
    rw [moved.prp1, next]
    exact cast_eq_of_narrow (fun _ => narrow.starts)
  · rw [SplitState.step_commands, List.length_append, here.count]
    rfl
  · intro index issued found
    rw [SplitState.step_commands] at found
    exact here.commands_append carries found

structure Carried (memory : Nat → Option Nat) (all : List Nat)
    (io : NvmeUserIo) (s : SplitState) : Prop where
  written : none ∉ s.entriesRead
  carries : ∀ {index : Nat} {command : RwCommand},
    s.commands[index]? = some command → Carries memory all io index command

theorem SplitAt.finish {setup : PrpSetup} (laid : Laid pages setup)
    (placed : Placed setup.lists) (narrow : Narrow (first :: pages) io.nblocks)
    (size : pages.length = io.nblocks)
    (long : reqMaxBlocks ≤ io.nblocks) {round : Nat} {s : SplitState}
    (here : SplitAt setup (first :: pages) io round s)
    (few : s.remainingBlocks < reqMaxBlocks) :
    Carried (prpMemory setup.lists) (first :: pages) io
      (nvmeSubmitCharioIoCmd (s.finalPrp2 setup.lists io)
        (rwCommand ns io metaDma s.remainingBlocks
          (s.finalPrp2 setup.lists io))).2 := by
  have total := here.remaining
  unfold reqMaxBlocks at few long
  obtain ⟨block, before, after, window⟩ := laid.window here.place (by omega)
  have rest : ((pages.drop (32 * round)).take 31).length =
      s.remainingBlocks := by
    rw [List.length_take, List.length_drop]
    omega
  have pointer :
      Points (prpMemory setup.lists) (s.finalPrp2 setup.lists io).prp2
      ((pages.drop (32 * round)).take 31) ∧
      none ∉ (s.finalPrp2 setup.lists io).entriesRead := by
    unfold SplitState.finalPrp2
    split
    next short =>
        rw [short.1] at rest
        obtain ⟨page, one⟩ := List.length_eq_one_iff.mp rest
        have last : (first :: pages)[io.nblocks]? = some page := by
          have isLast : io.nblocks = 32 * round + 1 := by omega
          rw [isLast, List.getElem?_cons_succ, ← Nat.add_zero (32 * round),
            ← List.getElem?_drop, ← List.getElem?_take_of_lt (by decide :
              0 < 31), one]
          rfl
        have below := narrow.tail (by omega) last
        simp only [window.single one, one, Option.map_some,
          Nat.mod_eq_of_lt below]
        refine ⟨rfl, ?_⟩
        have written := here.written
        simpa using written
    next notShort =>
        refine ⟨?_, here.written⟩
        by_cases none : s.remainingBlocks = 0
        · rw [none] at rest
          rw [List.eq_nil_of_length_eq_zero rest]
          trivial
        · exact window.points placed (by omega)
  have carries : Carries (prpMemory setup.lists) (first :: pages) io round
      (rwCommand ns io metaDma s.remainingBlocks
        (s.finalPrp2 setup.lists io)) := by
    refine ⟨by omega, rfl, ?_, ?_, ?_, ?_⟩
    · rw [rwCommand, SplitState.finalPrp2_slba, here.slba]
    · simp only [rwCommand]
      omega
    · rw [rwCommand, SplitState.finalPrp2_prp1, here.prp1]
    · rw [List.drop_succ_cons]
      exact pointer.1
  refine ⟨pointer.2, ?_⟩
  intro index issued found
  rw [nvmeSubmitCharioIoCmd, SplitState.finalPrp2_commands] at found
  exact here.commands_append carries found

theorem submitSplit_short {prp2 : Option Nat} {npages : Int}
    {lists : List PrpBlock} (short : io.nblocks < reqMaxBlocks) :
    (submitSplit ns io metaDma ⟨some first, prp2, npages, lists⟩).2 =
      { SplitState.start io ⟨some first, prp2, npages, lists⟩ with
        commands := [rwCommand ns io metaDma io.nblocks
          (.start io ⟨some first, prp2, npages, lists⟩)] } := by
  obtain ⟨last, rfl, -, ran⟩ := @submitSplit_of_invariant ns io metaDma
    ⟨some first, prp2, npages, lists⟩
    (fun _ s => s = .start io ⟨some first, prp2, npages, lists⟩) rfl (by
      rintro round s rfl more
      exact absurd more (Nat.not_le.mpr short))
  have same : (SplitState.start io ⟨some first, prp2, npages, lists⟩).finalPrp2
      lists io = .start io ⟨some first, prp2, npages, lists⟩ := by
    apply if_neg
    rintro ⟨one, more⟩
    exact absurd one (Nat.ne_of_gt more)
  rw [ran, same]
  rfl

theorem submitSplit_carried {prp2 : Option Nat} {npages : Int}
    {lists : List PrpBlock} (listed : Listed pages prp2 npages lists)
    (narrow : Narrow (first :: pages) io.nblocks)
    (size : pages.length = io.nblocks) (fits : io.nblocks ≤ 1023)
    (wide : io.slba < 2 ^ 64) :
    Carried (prpMemory lists) (first :: pages) io
      (submitSplit ns io metaDma ⟨some first, prp2, npages, lists⟩).2 := by
  by_cases long : reqMaxBlocks ≤ io.nblocks
  · have laid : Laid pages ⟨some first, prp2, npages, lists⟩ :=
      listed.laid (by unfold reqMaxBlocks at long; omega) (by omega)
    have starts :
        SplitAt ⟨some first, prp2, npages, lists⟩ (first :: pages) io 0
        (.start io ⟨some first, prp2, npages, lists⟩) := by
      refine ⟨rfl, (Nat.mod_eq_of_lt wide).symm, rfl, ?_, ?_, rfl, ?_⟩
      · cases laid with
        | one single =>
            exact .head rfl rfl rfl rfl rfl (.inr single)
        | two _ => exact .head rfl rfl rfl rfl rfl (.inl (by decide))
      · exact List.not_mem_nil
      · intro index command found
        cases found
    obtain ⟨last, here, left, ran⟩ :=
      @submitSplit_of_invariant ns io metaDma _ _
      starts (fun here more => here.step laid listed.placed narrow size more)
    rw [ran]
    exact here.finish laid listed.placed narrow size long (by
      rw [left]
      exact Nat.mod_lt _ (by decide))
  · have short : io.nblocks < reqMaxBlocks := by omega
    rw [submitSplit_short short]
    refine ⟨List.not_mem_nil, ?_⟩
    intro index command found
    have only : index = 0 := by
      have below := (List.getElem?_eq_some_iff.mp found).1
      simpa using below
    subst only
    cases found
    unfold reqMaxBlocks at short
    refine ⟨Nat.zero_le _, rfl, (Nat.mod_eq_of_lt wide).symm, ?_, rfl, ?_⟩
    · simp only [rwCommand]
      omega
    · rw [List.drop_succ_cons, List.drop_zero,
        List.take_of_length_le (by omega)]
      exact listed.points

end Request

theorem Carries.prpAddresses {memory : Nat → Option Nat} {all : List Nat}
    {io : NvmeUserIo} {round : Nat} {command : RwCommand}
    (carries : Carries memory all io round command)
    (size : all.length = io.nblocks + 1)
    (aligned : ∀ page ∈ all, page % pageBytes = 0) :
    prpAddresses memory command.prp1 command.prp2
        ((command.length + 1) * pageBytes) =
      some (pageSpans ((all.drop (32 * round)).take (command.length + 1))
        ((command.length + 1) * pageBytes)) := by
  have inside := carries.inside
  have below : 32 * round < all.length := by omega
  have head : all[32 * round]? = some all[32 * round] :=
    List.getElem?_eq_getElem below
  have length := carries.length
  have window : (all.drop (32 * round)).take (command.length + 1) =
      all[32 * round] :: (all.drop (32 * round + 1)).take 31 := by
    rw [List.drop_eq_getElem_cons below, List.take_succ_cons]
    congr 1
    have count : (all.drop (32 * round + 1)).length =
        io.nblocks - 32 * round := by
      rw [List.length_drop]
      omega
    by_cases full : command.length = 31
    · rw [full]
    · rw [List.take_of_length_le (by omega), List.take_of_length_le (by omega)]
  have count : pageCount ((command.length + 1) * pageBytes) =
      ((all.drop (32 * round + 1)).take 31).length + 1 := by
    rw [List.length_take, List.length_drop]
    unfold pageCount pageBytes
    omega
  rw [carries.prp1, head, window]
  exact prpAddresses_eq (aligned _ (List.getElem_mem below)) count carries.prp2

end Chario.Nvme
