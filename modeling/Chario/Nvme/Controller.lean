import Chario.Nvme.Format
import Chario.Library.Copy

namespace Chario.Nvme

open Chario.Library

/-! A controller that follows the PRP rules, and what the commands of a chunk do
to memory and medium in whatever order it executes them. -/

structure World where
  memory : Nat → UInt8
  device : Nat → UInt8

def invalidField : Nat := 2

def RwCommand.mediumBytes (ns : NvmeNs) (command : RwCommand) : List Nat :=
  List.range' (command.slba * ns.blockBytes)
    ((command.length + 1) * ns.blockBytes)

def nvmeExecute (ns : NvmeNs) (lists : List PrpBlock) (command : RwCommand)
    (w : World) : Nat × World :=
  match command.transfer ns lists, command.opcode with
  | some addresses, .write =>
      (0, { w with
        device := copyInto w.device
          ((command.mediumBytes ns).zip (addresses.map w.memory)) })
  | some addresses, .read =>
      (0, { w with
        memory := copyInto w.memory
          (addresses.zip ((command.mediumBytes ns).map w.device)) })
  | _, _ => (invalidField, w)

/-- The bytes `offsets` of a buffer at `place` and of the medium at `start`,
moved in the direction of the command. -/
def World.moved (opcode : NvmeOpcode) (place : Nat → Nat) (start : Nat)
    (offsets : List Nat) (w : World) : World :=
  match opcode with
  | .write =>
      { w with
        device := copyInto w.device
          (offsets.map (fun byte => (start + byte, w.memory (place byte)))) }
  | .read =>
      { w with
        memory := copyInto w.memory
          (offsets.map (fun byte => (place byte, w.device (start + byte)))) }
  | _ => w

section Moved

variable {opcode : NvmeOpcode} {place : Nat → Nat} {start : Nat}

theorem World.moved_nil (w : World) : w.moved opcode place start [] = w := by
  cases opcode <;> rfl

theorem World.moved_append (offsets later : List Nat) (w : World) :
    w.moved opcode place start (offsets ++ later) =
      (w.moved opcode place start offsets).moved opcode place start later := by
  cases opcode <;> simp only [World.moved, List.map_append, copyInto_append]

theorem World.moved_shift (distance : Nat) (offsets : List Nat) (w : World) :
    w.moved opcode place start (offsets.map (distance + ·)) =
      w.moved opcode (fun byte => place (distance + byte)) (start + distance)
        offsets := by
  cases opcode <;> simp only [World.moved, List.map_map, Function.comp_def,
    Nat.add_assoc]

theorem World.moved_range (first rest : Nat) (w : World) :
    w.moved opcode place start (List.range' 0 (first + rest)) =
      (w.moved opcode place start (List.range' 0 first)).moved opcode
        (fun byte => place (first + byte)) (start + first)
        (List.range' 0 rest) := by
  have shifted := @World.moved_shift opcode place start first
    (List.range' 0 rest) (w.moved opcode place start (List.range' 0 first))
  have split := @List.range'_append_1 0 first rest
  rw [Nat.zero_add] at split
  rw [← shifted, List.map_add_range', ← World.moved_append, Nat.add_zero, split]

theorem World.moved_perm {offsets others : List Nat}
    (perm : offsets.Perm others) (distinct : offsets.Nodup)
    (apart : (offsets.map place).Nodup) (w : World) :
    w.moved opcode place start offsets = w.moved opcode place start others := by
  cases opcode with
  | write =>
      simp only [World.moved]
      rw [copyInto_perm (perm.map _)]
      rw [List.map_map]
      exact distinct.map (fun _ _ same => Nat.add_left_cancel same)
  | read =>
      simp only [World.moved]
      rw [copyInto_perm (perm.map _)]
      rw [List.map_map]
      exact apart
  | _ => rfl

end Moved

/-- One command over a whole buffer. -/
theorem nvmeExecute_moved {ns : NvmeNs} {command : RwCommand}
    {lists : List PrpBlock} {buffer : Nat → Nat}
    (rw : command.opcode = .read ∨ command.opcode = .write)
    (transfer : command.transfer ns lists =
      some ((List.range' 0 ((command.length + 1) * ns.blockBytes)).map buffer))
    (w : World) :
    nvmeExecute ns lists command w =
      (0, w.moved command.opcode buffer (command.slba * ns.blockBytes)
        (List.range' 0 ((command.length + 1) * ns.blockBytes))) := by
  have medium : command.mediumBytes ns =
      (List.range' 0 ((command.length + 1) * ns.blockBytes)).map
        (command.slba * ns.blockBytes + ·) := by
    rw [List.map_add_range', RwCommand.mediumBytes]
    rfl
  cases rw with
  | inl isRead =>
      rw [nvmeExecute, transfer, isRead]
      simp only [World.moved, medium, List.map_map, List.zip_map',
        Function.comp_def]
  | inr isWrite =>
      rw [nvmeExecute, transfer, isWrite]
      simp only [World.moved, medium, List.map_map, List.zip_map',
        Function.comp_def]

def RwCommand.offsets (ns : NvmeNs) (slba : Nat) (command : RwCommand) :
    List Nat :=
  List.range' ((command.slba - slba) * ns.blockBytes)
    ((command.length + 1) * ns.blockBytes)

theorem flatMap_block_range (size start : Nat) (count : Nat) :
    ∀ first, start ≤ first →
      (List.range' first count).flatMap
          (fun block => List.range' ((block - start) * size) size) =
        List.range' ((first - start) * size) (count * size) := by
  induction count with
  | zero =>
      intro first _
      rw [Nat.zero_mul]
      rfl
  | succ count induction =>
      intro first after
      have next : (first + 1 - start) * size =
          (first - start) * size + size := by
        rw [Nat.sub_add_comm after, Nat.succ_mul]
      rw [List.range'_succ, List.flatMap_cons,
        induction (first + 1) (Nat.le_succ_of_le after), next,
        List.range'_append_1, Nat.succ_mul, Nat.add_comm size]

section Request

variable {ns : NvmeNs} {io : NvmeUserIo} {buffer : Nat → Nat} {issued : Issued}

theorem SplitAgrees.slba_le (agrees : SplitAgrees ns io buffer issued)
    {command : RwCommand} (member : command ∈ issued.commands) :
    io.slba ≤ command.slba := by
  have listed : command.slba ∈
      issued.commands.flatMap RwCommand.blocks := by
    refine List.mem_flatMap.mpr ⟨command, member, ?_⟩
    rw [RwCommand.blocks, List.range'_succ]
    exact List.mem_cons_self
  rw [agrees.blocks] at listed
  exact (List.mem_range'_1.mp listed).1

theorem RwCommand.offsets_eq (ns : NvmeNs) {slba : Nat} {command : RwCommand}
    (after : slba ≤ command.slba) :
    command.offsets ns slba = command.blocks.flatMap
      (fun block => List.range' ((block - slba) * ns.blockBytes)
        ns.blockBytes) := by
  rw [RwCommand.offsets, RwCommand.blocks,
    flatMap_block_range ns.blockBytes slba (command.length + 1) _ after]

theorem SplitAgrees.offsets (agrees : SplitAgrees ns io buffer issued) :
    issued.commands.flatMap (RwCommand.offsets ns io.slba) =
      List.range' 0 ((io.nblocks + 1) * ns.blockBytes) := by
  have each : issued.commands.flatMap (RwCommand.offsets ns io.slba) =
      issued.commands.flatMap (fun command => command.blocks.flatMap
        (fun block => List.range' ((block - io.slba) * ns.blockBytes)
          ns.blockBytes)) := by
    apply List.flatMap_congr
    intro command member
    exact RwCommand.offsets_eq ns (agrees.slba_le member)
  rw [each, ← List.flatMap_assoc, agrees.blocks,
    flatMap_block_range _ _ _ _ (le_refl io.slba), Nat.sub_self, Nat.zero_mul]

theorem SplitAgrees.execute (agrees : SplitAgrees ns io buffer issued)
    (rw : io.opcode = .read ∨ io.opcode = .write) {command : RwCommand}
    (member : command ∈ issued.commands) (w : World) :
    nvmeExecute ns issued.lists command w =
      (0, w.moved io.opcode buffer (io.slba * ns.blockBytes)
        (command.offsets ns io.slba)) := by
  have after := agrees.slba_le member
  have medium : command.mediumBytes ns =
      (command.offsets ns io.slba).map
        (io.slba * ns.blockBytes + ·) := by
    rw [RwCommand.offsets, List.map_add_range', RwCommand.mediumBytes,
      ← Nat.add_mul, Nat.add_sub_cancel' after]
  have data : command.transfer ns issued.lists =
      some ((command.offsets ns io.slba).map buffer) :=
    agrees.data command member
  have opcode := agrees.opcode command member
  cases rw with
  | inl isRead =>
      rw [nvmeExecute, data, opcode, isRead]
      simp only [World.moved, medium, List.map_map, List.zip_map',
        Function.comp_def]
  | inr isWrite =>
      rw [nvmeExecute, data, opcode, isWrite]
      simp only [World.moved, medium, List.map_map, List.zip_map',
        Function.comp_def]

theorem SplitAgrees.foldl_execute (agrees : SplitAgrees ns io buffer issued)
    (rw : io.opcode = .read ∨ io.opcode = .write) {commands : List RwCommand} :
    (∀ command ∈ commands, command ∈ issued.commands) → ∀ w : World,
      commands.foldl
          (fun w command => (nvmeExecute ns issued.lists command w).2) w =
        w.moved io.opcode buffer (io.slba * ns.blockBytes)
          (commands.flatMap (RwCommand.offsets ns io.slba)) := by
  induction commands with
  | nil =>
      intro _ w
      exact (World.moved_nil w).symm
  | cons command rest induction =>
      intro members w
      have first := agrees.execute rw (members command List.mem_cons_self) w
      rw [List.foldl_cons, first,
        induction (fun other member => members other (.tail _ member)),
        List.flatMap_cons, World.moved_append]

theorem SplitAgrees.execute_all (agrees : SplitAgrees ns io buffer issued)
    (rw : io.opcode = .read ∨ io.opcode = .write)
    (apart : ((List.range' 0 ((io.nblocks + 1) * ns.blockBytes)).map
      buffer).Nodup)
    {ordered : List RwCommand} (perm : ordered.Perm issued.commands)
    (w : World) :
    ordered.foldl (fun w command => (nvmeExecute ns issued.lists command w).2)
        w =
      w.moved io.opcode buffer (io.slba * ns.blockBytes)
        (List.range' 0 ((io.nblocks + 1) * ns.blockBytes)) := by
  have moves : (ordered.flatMap (RwCommand.offsets ns io.slba)).Perm
      (List.range' 0 ((io.nblocks + 1) * ns.blockBytes)) := by
    rw [← agrees.offsets]
    exact perm.flatMap_right _
  rw [agrees.foldl_execute rw (fun command member => perm.mem_iff.mp member)]
  refine World.moved_perm moves ?_ ?_ w
  · exact moves.nodup_iff.mpr List.nodup_range'
  · exact (moves.map buffer).nodup_iff.mpr apart

end Request

end Chario.Nvme
