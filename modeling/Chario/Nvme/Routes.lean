import Chario.Library.Gather
import Chario.Nvme.Controller
import Chario.Nvme.Unaligned

namespace Chario.Nvme

open Chario.Library

/-! Which bytes of memory and medium the commands of a request join, for any
format and any buffer. -/

/-- The command moves the byte of the medium to or from the address. -/
def RwCommand.Routes (ns : NvmeNs) (lists : List PrpBlock) (command : RwCommand)
    (address medium : Nat) : Prop :=
  ∃ addresses index, command.transfer ns lists = some addresses ∧
    addresses[index]? = some address ∧
    medium = command.slba * ns.blockBytes + index

def Issued.Routes (ns : NvmeNs) (issued : Issued) (address medium : Nat) :
    Prop :=
  ∃ command ∈ issued.commands, command.Routes ns issued.lists address medium

section Command

variable {ns : NvmeNs} {lists : List PrpBlock} {command : RwCommand}

theorem RwCommand.transfer_length {addresses : List Nat}
    (decoded : command.transfer ns lists = some addresses) :
    addresses.length = (command.length + 1) * ns.blockBytes :=
  prpAddresses_length decoded

theorem RwCommand.mediumBytes_getElem? {index medium : Nat}
    (inside : index < (command.length + 1) * ns.blockBytes) :
    (command.mediumBytes ns)[index]? = some medium ↔
      medium = command.slba * ns.blockBytes + index := by
  rw [RwCommand.mediumBytes, List.getElem?_range' inside, Nat.one_mul,
    Option.some.injEq, eq_comm]

theorem RwCommand.routes_iff {addresses : List Nat}
    (decoded : command.transfer ns lists = some addresses)
    (address medium : Nat) :
    command.Routes ns lists address medium ↔
      ∃ index : Nat, addresses[index]? = some address ∧
        (command.mediumBytes ns)[index]? = some medium := by
  have length := RwCommand.transfer_length decoded
  constructor
  · rintro ⟨others, index, isOthers, found, isMedium⟩
    cases isOthers.symm.trans decoded
    have inside := (List.getElem?_eq_some_iff.mp found).1
    exact ⟨index, found,
      (RwCommand.mediumBytes_getElem? (by rwa [← length])).mpr isMedium⟩
  · rintro ⟨index, found, isMedium⟩
    have inside := (List.getElem?_eq_some_iff.mp found).1
    exact ⟨addresses, index, decoded, found,
      (RwCommand.mediumBytes_getElem? (by rwa [← length])).mp isMedium⟩

theorem RwCommand.not_routes (undecoded : command.transfer ns lists = none)
    (address medium : Nat) : ¬ command.Routes ns lists address medium := by
  rintro ⟨addresses, index, decoded, _⟩
  rw [undecoded] at decoded
  cases decoded

theorem RwCommand.read_copies (isRead : command.opcode = .read) (w : World) :
    Copies World.device World.memory (command.Routes ns lists) w
      (nvmeExecute ns lists command w).2 := by
  rw [nvmeExecute, isRead]
  cases decoded : command.transfer ns lists with
  | none =>
      refine ⟨rfl, (Gathers.refl _ _).congr ?_⟩
      intro address medium
      exact ⟨False.elim, RwCommand.not_routes decoded address medium⟩
  | some addresses =>
      refine ⟨rfl, ?_⟩
      have copied := Gathers.of_copyInto
        (addresses.zip (command.mediumBytes ns)) w.device w.memory
      rw [← List.zip_map_right] at copied
      refine copied.congr ?_
      intro address medium
      rw [RwCommand.routes_iff decoded address medium, List.mem_iff_getElem?]
      simp only [List.getElem?_zip_eq_some]

theorem RwCommand.write_copies (isWrite : command.opcode = .write) (w : World) :
    Copies World.memory World.device
      (fun medium address => command.Routes ns lists address medium) w
      (nvmeExecute ns lists command w).2 := by
  rw [nvmeExecute, isWrite]
  cases decoded : command.transfer ns lists with
  | none =>
      refine ⟨rfl, (Gathers.refl _ _).congr ?_⟩
      intro medium address
      exact ⟨False.elim, RwCommand.not_routes decoded address medium⟩
  | some addresses =>
      refine ⟨rfl, ?_⟩
      have copied := Gathers.of_copyInto
        ((command.mediumBytes ns).zip addresses) w.memory w.device
      rw [← List.zip_map_right] at copied
      refine copied.congr ?_
      intro medium address
      rw [RwCommand.routes_iff decoded address medium, List.mem_iff_getElem?]
      simp only [List.getElem?_zip_eq_some, and_comm]

end Command

/-- The bytes at the ends of the routes are copied in the direction of the
command. -/
def MovesAlong (command : NvmeOpcode) (routes : Nat → Nat → Prop)
    (before after : World) : Prop :=
  match command with
  | .write =>
      Copies World.memory World.device
        (fun medium address => routes address medium) before after
  | _ => Copies World.device World.memory routes before after

theorem MovesAlong.foldl {Item : Type} {command : NvmeOpcode}
    {step : World → Item → World} {routes : Item → Nat → Nat → Prop}
    {items : List Item}
    (each : ∀ item ∈ items, ∀ w,
      MovesAlong command (routes item) w (step w item)) (w : World) :
    MovesAlong command
      (fun address medium => ∃ item ∈ items, routes item address medium) w
      (items.foldl step w) := by
  cases command with
  | write => exact Copies.foldl each w
  | _ => exact Copies.foldl each w

theorem RwCommand.movesAlong {ns : NvmeNs} {lists : List PrpBlock}
    {command : RwCommand} {opcode : NvmeOpcode}
    (rw : opcode = .read ∨ opcode = .write) (isOpcode : command.opcode = opcode)
    (w : World) :
    MovesAlong opcode (command.Routes ns lists) w
      (nvmeExecute ns lists command w).2 := by
  rcases rw with rfl | rfl
  · exact RwCommand.read_copies isOpcode w
  · exact RwCommand.write_copies isOpcode w

theorem Issued.movesAlong {ns : NvmeNs} {issued : Issued} {opcode : NvmeOpcode}
    (rw : opcode = .read ∨ opcode = .write)
    (opcodes : ∀ command ∈ issued.commands, command.opcode = opcode)
    {commands : List RwCommand} (perm : commands.Perm issued.commands)
    (w : World) :
    MovesAlong opcode (issued.Routes ns) w
      (commands.foldl
        (fun w command => (nvmeExecute ns issued.lists command w).2) w) := by
  have routes : issued.Routes ns = fun address medium =>
      ∃ command ∈ commands, command.Routes ns issued.lists address medium := by
    funext address medium
    simp only [Issued.Routes, perm.mem_iff]
  rw [routes]
  apply MovesAlong.foldl
  intro command member w
  exact RwCommand.movesAlong rw (opcodes command (perm.mem_iff.mp member)) w

section Blocks

variable {ns : NvmeNs} {lists : List PrpBlock} {command : RwCommand}
variable (positive : 0 < ns.blockBytes)

include positive

theorem RwCommand.mem_blocks_iff (medium : Nat) :
    medium / ns.blockBytes ∈ command.blocks ↔
      ∃ index < (command.length + 1) * ns.blockBytes,
        medium = command.slba * ns.blockBytes + index := by
  rw [RwCommand.blocks, List.mem_range'_1, Nat.le_div_iff_mul_le positive,
    Nat.div_lt_iff_lt_mul positive, Nat.add_mul]
  constructor
  · rintro ⟨after, before⟩
    exact ⟨medium - command.slba * ns.blockBytes, by omega, by omega⟩
  · rintro ⟨index, inside, isMedium⟩
    omega

theorem RwCommand.Routes.block {address medium : Nat}
    (routes : command.Routes ns lists address medium) :
    medium / ns.blockBytes ∈ command.blocks := by
  obtain ⟨addresses, index, decoded, found, isMedium⟩ := routes
  have inside := (List.getElem?_eq_some_iff.mp found).1
  rw [RwCommand.transfer_length decoded] at inside
  exact (RwCommand.mem_blocks_iff positive medium).mpr ⟨index, inside, isMedium⟩

theorem RwCommand.Routes.whole {address medium other : Nat}
    (routes : command.Routes ns lists address medium)
    (same : other / ns.blockBytes = medium / ns.blockBytes) :
    ∃ place, command.Routes ns lists place other := by
  have block := routes.block positive
  rw [← same, RwCommand.mem_blocks_iff positive] at block
  obtain ⟨index, inside, isOther⟩ := block
  obtain ⟨addresses, _, decoded, _, _⟩ := routes
  have below : index < addresses.length := by
    rwa [RwCommand.transfer_length decoded]
  exact ⟨addresses[index], addresses, index, decoded,
    List.getElem?_eq_getElem below, isOther⟩

theorem Issued.Routes.whole {issued : Issued} {address medium other : Nat}
    (routes : issued.Routes ns address medium)
    (same : other / ns.blockBytes = medium / ns.blockBytes) :
    ∃ place, issued.Routes ns place other := by
  obtain ⟨command, member, route⟩ := routes
  obtain ⟨place, joined⟩ := route.whole positive same
  exact ⟨place, command, member, joined⟩

end Blocks

section User

variable {kernel : Kernel} {ns : NvmeNs} {io : NvmeUserIo} {metaDma : Nat}
variable {prp2 : Option Nat} {npages : Int} {lists : List PrpBlock}
variable (positive : 0 < ns.blockBytes) (noWrap : io.slba + io.nblocks < 2 ^ 64)

include positive noWrap

theorem userRoutes_block {address medium : Nat}
    (routes : (userIssued kernel ns io metaDma prp2 npages lists).Routes ns
      address medium) :
    io.slba ≤ medium / ns.blockBytes ∧
      medium / ns.blockBytes ≤ io.slba + io.nblocks := by
  obtain ⟨command, member, route⟩ := routes
  have listed : medium / ns.blockBytes ∈
      (userIssued kernel ns io metaDma prp2 npages lists).commands.flatMap
        RwCommand.blocks :=
    List.mem_flatMap.mpr ⟨command, member, route.block positive⟩
  rw [userIssued, submitSplit_blocks _ noWrap, List.mem_range'_1] at listed
  omega

theorem userRoutes_command {address medium : Nat}
    (routes : (userIssued kernel ns io metaDma prp2 npages lists).Routes ns
      address medium) {command : RwCommand}
    (member : command ∈
      (userIssued kernel ns io metaDma prp2 npages lists).commands)
    (block : medium / ns.blockBytes ∈ command.blocks) :
    command.Routes ns lists address medium := by
  obtain ⟨other, memberOther, route⟩ := routes
  have same := submitSplit_unique noWrap member memberOther block
    (route.block positive)
  rw [same]
  exact route

variable (listed : Listed
  ((List.range' 1 (pageCount ((io.nblocks + 1) * ns.blockBytes -
    headBytes io.addr ((io.nblocks + 1) * ns.blockBytes)))).map
      (kernel.userPage io.addr)) prp2 npages lists)

include listed

theorem userRoutes_second {address : Nat} (long : 32 ≤ io.nblocks)
    (routes : (userIssued kernel ns io metaDma prp2 npages lists).Routes ns
      address ((io.slba + 32) * ns.blockBytes)) :
    address = kernel.userPage io.addr 32 ∧
      32 ≤ pageCount ((io.nblocks + 1) * ns.blockBytes -
        headBytes io.addr ((io.nblocks + 1) * ns.blockBytes)) := by
  obtain ⟨command, member, atSlba, atEntry⟩ :=
    @submitSplit_second ns io metaDma ⟨some (kernel.userPage io.addr 0 +
      io.addr % pageBytes), prp2, npages, lists⟩ long
  rw [Nat.mod_eq_of_lt (by unfold reqMaxBlocks; omega)] at atSlba
  have size : 0 < (command.length + 1) * ns.blockBytes :=
    Nat.mul_pos (Nat.succ_pos _) positive
  have block := (@RwCommand.mem_blocks_iff ns command positive
    ((io.slba + 32) * ns.blockBytes)).mpr ⟨0, size, by rw [atSlba]; rfl⟩
  obtain ⟨addresses, index, decoded, found, isMedium⟩ :=
    userRoutes_command positive noWrap routes member block
  have first : index = 0 := by
    rw [atSlba] at isMedium
    exact Nat.add_left_cancel isMedium.symm
  have starts := head_of_prpAddresses size decoded
  rw [first, ← List.head?_eq_getElem?, starts, atEntry] at found
  rcases listed.entry_31 with none | here
  · rw [none] at found
    cases found
  · rw [here, List.getElem?_map] at found
    obtain ⟨entry, isEntry, isAddress⟩ := Option.map_eq_some_iff.mp found
    obtain ⟨page, isPage, rfl⟩ := Option.map_eq_some_iff.mp isEntry
    obtain ⟨below, isIndex⟩ := List.getElem?_eq_some_iff.mp isPage
    rw [List.getElem_range'] at isIndex
    rw [List.length_range'] at below
    have narrow : kernel.userPage io.addr page % 2 ^ 32 =
        kernel.userPage io.addr page := Nat.mod_eq_of_lt (kernel.inSpace _)
    rw [← isAddress, narrow, ← isIndex]
    exact ⟨rfl, below⟩

variable (sound : kernel.Sound)

include sound

/-- The first command starts at the start of the buffer.  Its last page may be a
chain pointer of the list. -/
theorem userRoutes_first {address index : Nat}
    (routes : (userIssued kernel ns io metaDma prp2 npages lists).Routes ns
      address (io.slba * ns.blockBytes + index))
    (inside : index < (io.nblocks + 1) * ns.blockBytes)
    (early : io.nblocks ≤ 31 ∨ index + pageBytes < 32 * ns.blockBytes) :
    address = kernel.bufferByte io.addr index := by
  obtain ⟨command, member, atSlba, length, prp1, pointer⟩ :=
    @submitSplit_first ns io metaDma ⟨some (kernel.userPage io.addr 0 +
      io.addr % pageBytes), prp2, npages, lists⟩
  have within : index < (command.length + 1) * ns.blockBytes := by
    rcases early with short | early
    · rwa [length, Nat.min_eq_right short]
    · by_cases short : io.nblocks ≤ 31
      · rwa [length, Nat.min_eq_right short]
      · rw [length, Nat.min_eq_left (by omega)]
        omega
  have block := (@RwCommand.mem_blocks_iff ns command positive
    (io.slba * ns.blockBytes + index)).mpr ⟨index, within, by rw [atSlba]⟩
  obtain ⟨addresses, other, decoded, found, isOther⟩ :=
    userRoutes_command positive noWrap routes member block
  rw [atSlba, Nat.add_left_cancel_iff] at isOther
  subst isOther
  rw [RwCommand.transfer, prp1, pointer] at decoded
  by_cases short : io.nblocks ≤ 31
  · rw [length, Nat.min_eq_right short, listed.userTransfer sound] at decoded
    cases decoded
    rw [List.getElem?_map, List.getElem?_range' inside] at found
    simpa using found.symm
  · have many : 31 ≤ io.nblocks := by omega
    rw [length, Nat.min_eq_left many] at decoded
    have agrees := listed.userPrefix sound
      (Nat.mul_le_mul_right _ (Nat.succ_le_succ many)) decoded
      (early.resolve_left short)
    exact Option.some.inj (found.symm.trans agrees)

omit positive noWrap in
theorem userRoutes_single (short : io.nblocks ≤ 31) {index : Nat}
    (inside : index < (io.nblocks + 1) * ns.blockBytes) :
    (userIssued kernel ns io metaDma prp2 npages lists).Routes ns
      (kernel.bufferByte io.addr index)
      (io.slba * ns.blockBytes + index) := by
  obtain ⟨command, member, atSlba, length, prp1, pointer⟩ :=
    @submitSplit_first ns io metaDma ⟨some (kernel.userPage io.addr 0 +
      io.addr % pageBytes), prp2, npages, lists⟩
  have decoded : command.transfer ns lists =
      some ((List.range' 0 ((io.nblocks + 1) * ns.blockBytes)).map
        (kernel.bufferByte io.addr)) := by
    rw [RwCommand.transfer, prp1, pointer, length, Nat.min_eq_right short]
    exact listed.userTransfer sound
  refine ⟨command, member, _, index, decoded, ?_, by rw [atSlba]⟩
  rw [List.getElem?_map, List.getElem?_range' inside]
  simp

omit positive in
theorem userRoutes_paged (paged : ns.blockBytes = pageBytes)
    (aligned : io.addr % pageBytes = 0) (fits : io.nblocks ≤ 1023) {index : Nat}
    (inside : index < (io.nblocks + 1) * ns.blockBytes) :
    (userIssued kernel ns io metaDma prp2 npages lists).Routes ns
      (kernel.bufferByte io.addr index)
      (io.slba * ns.blockBytes + index) := by
  have pages : pageCount ((io.nblocks + 1) * pageBytes) = io.nblocks + 1 := by
    unfold pageCount pageBytes
    omega
  rw [paged] at inside listed ⊢
  rw [pageCount_rest aligned pages] at listed
  have tiles : Tiles ns io (kernel.userPage io.addr)
      (userIssued kernel ns io metaDma prp2 npages lists) := by
    rw [userIssued, aligned, Nat.add_zero]
    exact tiles_of_listed paged fits (by omega) (fun page => sound.aligned _)
      (fun page _ => kernel.inSpace _) listed metaDma
  -- the command for the block of this byte
  have below : index / pageBytes / reqMaxBlocks <
      (userIssued kernel ns io metaDma prp2 npages lists).commands.length := by
    refine lt_of_lt_of_eq ?_ tiles.count.symm
    unfold reqMaxBlocks pageBytes at *
    omega
  have found := List.getElem?_eq_getElem below
  have tile := tiles.tile found
  have length := tile.length
  have slba := tile.slba
  rw [Nat.mod_eq_of_lt (by unfold reqMaxBlocks pageBytes at *; omega)] at slba
  refine ⟨_, List.getElem_mem below, _,
    index - reqMaxBlocks * (index / pageBytes / reqMaxBlocks) * pageBytes,
    tile.pages, ?_, ?_⟩
  · rw [List.getElem?_map, List.getElem?_range' (by
      rw [length]
      unfold windowSize reqMaxBlocks pageBytes at *
      omega), Option.map_some, Nat.one_mul, Nat.add_sub_cancel' (by
      unfold reqMaxBlocks pageBytes
      omega), kernel.bufferByte_aligned aligned]
  · rw [slba, paged]
    unfold reqMaxBlocks pageBytes
    omega

end User

end Chario.Nvme
