import Mathlib.Logic.Basic

namespace Chario.Library

/-! Owners that take turns with one buffer.  Every place of the buffer has, for
each owner, a home on a store, and a flush of an owner puts an image of the
buffer into the homes of its places. -/

universe u v w x

variable {Owner : Type u} {Place : Type v} {Cell : Type w} {Value : Type x}

structure Overlay (Owner : Type u) (Place : Type v) (Cell : Type w) where
  uses : Owner → Place → Prop
  home : Owner → Place → Cell
  apart : ∀ {owner other place there}, uses owner place → uses other there →
    home owner place = home other there → owner = other ∧ place = there

namespace Overlay

variable {overlay : Overlay Owner Place Cell}

structure Flushes (overlay : Overlay Owner Place Cell) (owner : Owner)
    (image : Place → Value) (before after : Cell → Value) : Prop where
  stored : ∀ {place}, overlay.uses owner place →
    after (overlay.home owner place) = image place
  kept : ∀ {cell}, (∀ place, overlay.uses owner place →
    overlay.home owner place ≠ cell) → after cell = before cell

theorem Flushes.other_kept {owner other : Owner} {image : Place → Value}
    {before after : Cell → Value}
    (flushes : overlay.Flushes owner image before after)
    (different : owner ≠ other) {place : Place}
    (used : overlay.uses other place) :
    after (overlay.home other place) = before (overlay.home other place) := by
  apply flushes.kept
  intro there usedThere same
  exact different (overlay.apart usedThere used same).1

inductive FlushRun (overlay : Overlay Owner Place Cell) :
    (Cell → Value) → List (Owner × (Place → Value)) → (Cell → Value) → Prop
  | nil {store : Cell → Value} : FlushRun overlay store [] store
  | snoc {before middle after : Cell → Value}
      {flushed : List (Owner × (Place → Value))} {owner : Owner}
      {image : Place → Value} (earlier : FlushRun overlay before flushed middle)
      (last : overlay.Flushes owner image middle after) :
      FlushRun overlay before (flushed ++ [(owner, image)]) after

/-- Flushes of the other owners leave the homes of an owner alone. -/
theorem FlushRun.kept {before after : Cell → Value}
    {flushed : List (Owner × (Place → Value))}
    (run : overlay.FlushRun before flushed after) {owner : Owner}
    (absent : ∀ flush ∈ flushed, flush.1 ≠ owner) {place : Place}
    (used : overlay.uses owner place) :
    after (overlay.home owner place) = before (overlay.home owner place) := by
  induction run with
  | nil => rfl
  | snoc _ last induction =>
      have different :=
        absent _ (List.mem_append_right _ (List.mem_singleton_self _))
      rw [last.other_kept different used]
      apply induction
      intro flush member
      exact absent flush (List.mem_append_left _ member)

end Overlay

end Chario.Library
