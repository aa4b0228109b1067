import Mathlib.Data.List.Basic

namespace Chario.Library

universe u v

variable {State : Type u} {Label : Type v}
variable {step : State → Label → Option State}
variable {guard : State → Label → Prop}

/-! Labelled transition systems given by a partial step function.  A guard
restricts the runs under consideration to those whose every step satisfies
it. -/

/-- States reached from `start` by steps that all satisfy `guard`. -/
inductive Reach (step : State → Label → Option State)
    (guard : State → Label → Prop) (start : State) : State → Prop
  | start : Reach step guard start start
  | next {current following : State} {label : Label}
      (earlier : Reach step guard start current)
      (allowed : guard current label)
      (taken : step current label = some following) :
      Reach step guard start following

def anyStep (_ : State) (_ : Label) : Prop := True

theorem Reach.invariant {start : State} {inv : State → Prop}
    (initial : inv start)
    (preserved : ∀ {current following label}, inv current →
      guard current label → step current label = some following →
      inv following)
    {reached : State} (reach : Reach step guard start reached) :
    inv reached := by
  induction reach with
  | start => exact initial
  | next _ allowed taken induction =>
      exact preserved induction allowed taken

theorem Reach.andThen {start current following : State}
    (earlier : Reach step guard start current) (label : Label)
    (allowed : guard current label)
    (taken : step current label = some following) :
    Reach step guard start following :=
  .next earlier allowed taken

theorem Reach.trans {start middle reached : State}
    (first : Reach step guard start middle)
    (second : Reach step guard middle reached) :
    Reach step guard start reached := by
  induction second with
  | start => exact first
  | next _ allowed taken induction => exact .next induction allowed taken

theorem Reach.mono {weaker : State → Label → Prop} {start reached : State}
    (reach : Reach step guard start reached)
    (implies : ∀ state label, guard state label → weaker state label) :
    Reach step weaker start reached := by
  induction reach with
  | start => exact .start
  | next _ allowed taken induction =>
      exact .next induction (implies _ _ allowed) taken

theorem Reach.unguarded {start reached : State}
    (reach : Reach step guard start reached) :
    Reach step anyStep start reached :=
  reach.mono (fun _ _ _ => trivial)

def runSteps (step : State → Label → Option State) :
    State → List Label → Option State
  | state, [] => some state
  | state, label :: rest =>
      match step state label with
      | none => none
      | some following => runSteps step following rest

theorem runSteps_cons_eq_some {start reached : State} {label : Label}
    {rest : List Label}
    (ran : runSteps step start (label :: rest) = some reached) :
    ∃ following, step start label = some following ∧
      runSteps step following rest = some reached := by
  simp only [runSteps] at ran
  cases taken : step start label with
  | none => simp [taken] at ran
  | some following =>
      rw [taken] at ran
      exact ⟨following, rfl, ran⟩

theorem Reach.of_allowed {start reached : State} {labels : List Label}
    (allowed : ∀ label ∈ labels, ∀ state, guard state label)
    (ran : runSteps step start labels = some reached) :
    Reach step guard start reached := by
  induction labels generalizing start with
  | nil =>
      cases ran
      exact .start
  | cons label rest induction =>
      obtain ⟨following, taken, ran⟩ := runSteps_cons_eq_some ran
      have first : Reach step guard start following :=
        .next .start (allowed label List.mem_cons_self start) taken
      refine first.trans (induction ?_ ran)
      intro later member
      exact allowed later (List.mem_cons_of_mem label member)

theorem Reach.of_runSteps {start reached : State} {labels : List Label}
    (ran : runSteps step start labels = some reached) :
    Reach step anyStep start reached :=
  Reach.of_allowed (fun _ _ _ => trivial) ran

def runGuarded (step : State → Label → Option State)
    (guard : State → Label → Prop)
    [∀ state label, Decidable (guard state label)] :
    State → List Label → Option State
  | state, [] => some state
  | state, label :: rest =>
      if guard state label then
        match step state label with
        | none => none
        | some following => runGuarded step guard following rest
      else none

theorem Reach.of_runGuarded [∀ state label, Decidable (guard state label)]
    {start reached : State} {labels : List Label}
    (ran : runGuarded step guard start labels = some reached) :
    Reach step guard start reached := by
  induction labels generalizing start with
  | nil =>
      cases ran
      exact .start
  | cons label rest induction =>
      simp only [runGuarded] at ran
      split at ran
      next allowed =>
          cases taken : step start label with
          | none => simp [taken] at ran
          | some following =>
              rw [taken] at ran
              exact Reach.trans (.next .start allowed taken) (induction ran)
      next => cases ran

theorem exists_reach_of_measure {inv goal : State → Prop}
    (measure : State → Nat)
    (preserved : ∀ {current following label}, inv current →
      guard current label → step current label = some following →
      inv following)
    (lower : ∀ {current}, inv current → ¬ goal current →
      ∃ label following, guard current label ∧
        step current label = some following ∧
        measure following < measure current)
    {start : State} (initial : inv start) :
    ∃ reached, Reach step guard start reached ∧ goal reached := by
  induction bound : measure start using Nat.strongRecOn
    generalizing start with
  | _ size induction =>
      by_cases done : goal start
      · exact ⟨start, .start, done⟩
      · obtain ⟨label, following, allowed, taken, smaller⟩ :=
          lower initial done
        obtain ⟨reached, reach, atGoal⟩ :=
          induction (measure following) (by omega)
            (preserved initial allowed taken) rfl
        exact ⟨reached, Reach.trans (.next .start allowed taken) reach, atGoal⟩

/-! Records that a run only extends. -/

def GrowsBy {Entry : Type u} (keeps : Entry → Prop)
    (before after : List Entry) : Prop :=
  ∃ added, after = before ++ added ∧ ∀ entry ∈ added, keeps entry

namespace GrowsBy

variable {Entry : Type u} {keeps : Entry → Prop}
variable {first second third : List Entry}

theorem refl (record : List Entry) : GrowsBy keeps record record :=
  ⟨[], (List.append_nil record).symm, List.forall_mem_nil keeps⟩

theorem snoc (record : List Entry) {entry : Entry} (kept : keeps entry) :
    GrowsBy keeps record (record ++ [entry]) :=
  ⟨[entry], rfl, List.forall_mem_singleton.mpr kept⟩

theorem trans (earlier : GrowsBy keeps first second)
    (later : GrowsBy keeps second third) : GrowsBy keeps first third := by
  obtain ⟨early, rfl, earlyKept⟩ := earlier
  obtain ⟨late, rfl, lateKept⟩ := later
  refine ⟨early ++ late, List.append_assoc .., ?_⟩
  intro entry member
  cases List.mem_append.mp member with
  | inl inEarly => exact earlyKept entry inEarly
  | inr inLate => exact lateKept entry inLate

theorem mono {weaker : Entry → Prop} (grows : GrowsBy keeps first second)
    (implies : ∀ entry, keeps entry → weaker entry) :
    GrowsBy weaker first second := by
  obtain ⟨added, isAdded, kept⟩ := grows
  exact ⟨added, isAdded, fun entry member => implies entry (kept entry member)⟩

theorem mem (grows : GrowsBy keeps first second) {entry : Entry}
    (member : entry ∈ first) : entry ∈ second := by
  obtain ⟨added, rfl, _⟩ := grows
  exact List.mem_append_left added member

theorem forall_mem (grows : GrowsBy keeps first second)
    {property : Entry → Prop} (old : ∀ entry ∈ first, property entry)
    (new : ∀ entry, keeps entry → property entry) :
    ∀ entry ∈ second, property entry := by
  obtain ⟨added, rfl, kept⟩ := grows
  intro entry member
  cases List.mem_append.mp member with
  | inl earlier => exact old entry earlier
  | inr later => exact new entry (kept entry later)

end GrowsBy

/-- Every entry comes after the entries that it needs. -/
def InOrder {Entry : Type u} (needs : Entry → Entry → Prop)
    (record : List Entry) : Prop :=
  ∀ before entry after, record = before ++ entry :: after →
    ∀ cause, needs entry cause → cause ∈ before

namespace InOrder

variable {Entry : Type u} {needs : Entry → Entry → Prop} {record : List Entry}

theorem nil : InOrder needs [] := by
  intro before entry after isRecord
  simp at isRecord

theorem snoc (ordered : InOrder needs record) {entry : Entry}
    (met : ∀ cause, needs entry cause → cause ∈ record) :
    InOrder needs (record ++ [entry]) := by
  intro before found after isRecord cause needed
  -- The entry is the new one exactly when nothing follows it.
  rcases List.eq_nil_or_concat after with rfl | ⟨earlier, last, rfl⟩
  · obtain ⟨rfl, isNew⟩ := List.append_inj' isRecord rfl
    cases isNew
    exact met cause needed
  · rw [List.concat_eq_append, ← List.cons_append, ← List.append_assoc]
      at isRecord
    obtain ⟨isOld, _⟩ := List.append_inj' isRecord rfl
    exact ordered before found earlier isOld cause needed

end InOrder

end Chario.Library
