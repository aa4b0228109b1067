import Chario.Library.Copy

namespace Chario.Library

/-! Copies along routes from a source into cells.  Where several routes end in
one cell, which of them wins is left open. -/

section

variable {Cell Origin Value : Type}

structure Gathers (routes : Cell → Origin → Prop) (source : Origin → Value)
    (before after : Cell → Value) : Prop where
  kept : ∀ {cell}, (∀ origin, ¬ routes cell origin) → after cell = before cell
  moved : ∀ {cell origin}, routes cell origin →
    ∃ other, routes cell other ∧ after cell = source other

namespace Gathers

variable {routes others : Cell → Origin → Prop} {source : Origin → Value}
variable {before middle after : Cell → Value}

theorem congr (gathers : Gathers routes source before after)
    (same : ∀ cell origin, routes cell origin ↔ others cell origin) :
    Gathers others source before after := by
  have equal : routes = others := by
    funext cell origin
    exact propext (same cell origin)
  exact equal ▸ gathers

theorem refl (source : Origin → Value) (cells : Cell → Value) :
    Gathers (fun _ _ => False) source cells cells :=
  ⟨fun _ => rfl, fun route => route.elim⟩

theorem trans (first : Gathers routes source before middle)
    (second : Gathers others source middle after) :
    Gathers (fun cell origin => routes cell origin ∨ others cell origin) source
      before after := by
  refine ⟨?_, ?_⟩
  · intro cell none
    rw [second.kept (fun origin route => none origin (.inr route)),
      first.kept (fun origin route => none origin (.inl route))]
  · intro cell origin route
    by_cases later : ∃ other, others cell other
    · obtain ⟨other, routeLater⟩ := later
      obtain ⟨last, isRoute, holds⟩ := second.moved routeLater
      exact ⟨last, .inr isRoute, holds⟩
    · have onlyFirst : routes cell origin :=
        route.resolve_right (fun isLater => later ⟨origin, isLater⟩)
      obtain ⟨last, isRoute, holds⟩ := first.moved onlyFirst
      refine ⟨last, .inl isRoute, ?_⟩
      rw [second.kept (fun other isLater => later ⟨other, isLater⟩), holds]

theorem of_copyInto [DecidableEq Cell] (pairs : List (Cell × Origin))
    (source : Origin → Value) (cells : Cell → Value) :
    Gathers (fun cell origin => (cell, origin) ∈ pairs) source cells
      (copyInto cells (pairs.map (Prod.map id source))) := by
  induction pairs generalizing cells with
  | nil => exact (refl source cells).congr (by simp)
  | cons pair pairs induction =>
      have first :
          Gathers (fun cell origin => (cell, origin) = pair) source cells
          (Function.update cells pair.1 (source pair.2)) := by
        refine ⟨?_, ?_⟩
        · intro cell none
          refine Function.update_of_ne ?_ _ _
          rintro rfl
          exact none pair.2 rfl
        · rintro cell origin rfl
          exact ⟨origin, rfl, Function.update_self _ _ _⟩
      exact (first.trans (induction _)).congr (by simp)

end Gathers

structure Copies {State : Type} (source : State → Origin → Value)
    (cells : State → Cell → Value) (routes : Cell → Origin → Prop)
    (before after : State) : Prop where
  unchanged : source after = source before
  gathers : Gathers routes (source before) (cells before) (cells after)

theorem Copies.foldl {State Item : Type} {source : State → Origin → Value}
    {cells : State → Cell → Value} {step : State → Item → State}
    {along : Item → Cell → Origin → Prop} {items : List Item}
    (each : ∀ item ∈ items, ∀ s,
      Copies source cells (along item) s (step s item)) (s : State) :
    Copies source cells
      (fun cell origin => ∃ item ∈ items, along item cell origin)
      s (items.foldl step s) := by
  induction items generalizing s with
  | nil => exact ⟨rfl, (Gathers.refl _ _).congr (by simp)⟩
  | cons item items induction =>
      have first := each item List.mem_cons_self s
      have rest := induction
        (fun later member => each later (List.mem_cons_of_mem _ member))
        (step s item)
      have gathered := rest.gathers
      rw [first.unchanged] at gathered
      exact ⟨rest.unchanged.trans first.unchanged,
        (first.gathers.trans gathered).congr (by simp)⟩

section Exact

variable {routes : Cell → Origin → Prop} {one zero : Value}
variable {run : (Origin → Value) → (Cell → Value) → Cell → Value}

/-- A cell that always receives the value of one origin has a route from it. -/
theorem route_of_exact (different : one ≠ zero)
    (gathers : ∀ source cells, Gathers routes source cells (run source cells))
    {cell : Cell} {origin : Origin}
    (right : ∀ source cells, run source cells cell = source origin) :
    routes cell origin := by
  classical
  -- only this origin holds a one
  have result := right (fun other => if other = origin then one else zero)
    (fun _ => zero)
  have copied := gathers (fun other => if other = origin then one else zero)
    (fun _ => zero)
  rw [if_pos rfl] at result
  by_contra missing
  by_cases reached : ∃ other, routes cell other
  · obtain ⟨other, route⟩ := reached
    obtain ⟨last, isRoute, holds⟩ := copied.moved route
    have isOther : last ≠ origin := fun same => missing (same ▸ isRoute)
    rw [result, if_neg isOther] at holds
    exact different holds
  · have unchanged := copied.kept (fun other route => reached ⟨other, route⟩)
    exact different (result.symm.trans unchanged)

/-- A cell that always keeps its value has no route. -/
theorem not_route_of_kept (different : one ≠ zero)
    (gathers : ∀ source cells, Gathers routes source cells (run source cells))
    {cell : Cell} (kept : ∀ source cells, run source cells cell = cells cell)
    (origin : Origin) : ¬ routes cell origin := by
  intro route
  obtain ⟨other, _, holds⟩ :=
    (gathers (fun _ => one) (fun _ => zero)).moved route
  exact different (holds.symm.trans (kept (fun _ => one) (fun _ => zero)))

end Exact

end

end Chario.Library
