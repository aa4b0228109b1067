import Mathlib.Data.List.Basic
import Mathlib.Data.List.Nodup
import Mathlib.Data.Multiset.AddSub

namespace Chario.Library

/-! Resources that are taken and given back, as a log of what was done to
them. -/

inductive Custody (α : Type)
  | acquire (resource : α)
  | release (resource : α)
deriving DecidableEq, Repr

variable {α : Type}

def Custody.resource : Custody α → α
  | .acquire resource => resource
  | .release resource => resource

def acquires (resources : List α) : List (Custody α) :=
  resources.map .acquire

def releases (resources : List α) : List (Custody α) :=
  resources.map .release

theorem acquires_append (resources more : List α) :
    acquires (resources ++ more) = acquires resources ++ acquires more :=
  List.map_append

theorem releases_append (resources more : List α) :
    releases (resources ++ more) = releases resources ++ releases more :=
  List.map_append

structure Rounds (taken early more late : List α) : Prop where
  takenOnce : (taken ++ more).Nodup
  givenOnce : (early ++ late).Nodup
  earlyTaken : early ⊆ taken
  all : ∀ resource, resource ∈ early ++ late ↔ resource ∈ taken ++ more

theorem Rounds.snoc {taken early more late : List α}
    (rounds : Rounds taken early more late) {last : α}
    (fresh : last ∉ taken ++ more) :
    Rounds taken early (more ++ [last]) (late ++ [last]) where
  takenOnce := by
    rw [← List.append_assoc]
    exact List.nodup_append'.mpr ⟨rounds.takenOnce, List.nodup_singleton last,
      List.disjoint_singleton.mpr fresh⟩
  givenOnce := by
    rw [← List.append_assoc]
    exact List.nodup_append'.mpr ⟨rounds.givenOnce, List.nodup_singleton last,
      List.disjoint_singleton.mpr
        (fun given => fresh ((rounds.all last).mp given))⟩
  earlyTaken := rounds.earlyTaken
  all := by
    intro resource
    rw [← List.append_assoc, ← List.append_assoc,
      @List.mem_append _ _ (early ++ late),
      @List.mem_append _ _ (taken ++ more),
      rounds.all resource]

section History

variable [DecidableEq α]

def history (resource : α) (log : List (Custody α)) : List (Custody α) :=
  log.filter (fun event => event.resource = resource)

/-- Every resource that was acquired was released once, later, and nothing else
was released. -/
def Neutral (log : List (Custody α)) : Prop :=
  ∀ resource, history resource log = [] ∨
    history resource log = [.acquire resource, .release resource]

@[simp] theorem history_append (resource : α) (log later : List (Custody α)) :
    history resource (log ++ later) =
      history resource log ++ history resource later :=
  List.filter_append ..

theorem history_map {kind : α → Custody α}
    (own : ∀ resource, (kind resource).resource = resource) (resource : α)
    {resources : List α} (nodup : resources.Nodup) :
    history resource (resources.map kind) =
      if resource ∈ resources then [kind resource] else [] := by
  induction resources with
  | nil => rfl
  | cons other resources induction =>
      obtain ⟨fresh, nodup⟩ := List.nodup_cons.mp nodup
      have later := induction nodup
      unfold history at later ⊢
      rw [List.map_cons, List.filter_cons, later, own]
      by_cases same : other = resource
      · subst same
        simp [fresh]
      · simp [same, Ne.symm same]

theorem history_acquires (resource : α) {resources : List α}
    (nodup : resources.Nodup) :
    history resource (acquires resources) =
      if resource ∈ resources then [.acquire resource] else [] :=
  history_map (fun _ => rfl) resource nodup

theorem history_releases (resource : α) {resources : List α}
    (nodup : resources.Nodup) :
    history resource (releases resources) =
      if resource ∈ resources then [.release resource] else [] :=
  history_map (fun _ => rfl) resource nodup

theorem Rounds.neutral {taken early more late : List α}
    (rounds : Rounds taken early more late) :
    Neutral (acquires taken ++ releases early ++ acquires more ++
      releases late) := by
  obtain ⟨takenNodup, moreNodup, apart⟩ :=
    List.nodup_append'.mp rounds.takenOnce
  obtain ⟨earlyNodup, lateNodup, others⟩ :=
    List.nodup_append'.mp rounds.givenOnce
  intro resource
  simp only [history_append, history_acquires resource takenNodup,
    history_releases resource earlyNodup, history_acquires resource moreNodup,
    history_releases resource lateNodup]
  have exactly := rounds.all resource
  simp only [List.mem_append] at exactly
  by_cases inTaken : resource ∈ taken
  · have notMore : resource ∉ more := apart inTaken
    by_cases inEarly : resource ∈ early
    · have notLate : resource ∉ late := others inEarly
      simp [inTaken, notMore, inEarly, notLate]
    · have inLate : resource ∈ late :=
        (exactly.mpr (.inl inTaken)).resolve_left inEarly
      simp [inTaken, notMore, inEarly, inLate]
  · have notEarly : resource ∉ early :=
      fun inEarly => inTaken (rounds.earlyTaken inEarly)
    by_cases inMore : resource ∈ more
    · have inLate : resource ∈ late :=
        (exactly.mpr (.inr inMore)).resolve_left notEarly
      simp [inTaken, inMore, notEarly, inLate]
    · have notLate : resource ∉ late := by
        intro inLate
        exact (exactly.mp (.inr inLate)).elim inTaken inMore
      simp [inTaken, inMore, notEarly, notLate]

/-- Everything taken is given back, in some order. -/
theorem neutral_of_perm {taken given : List α} (nodup : taken.Nodup)
    (same : given.Perm taken) : Neutral (acquires taken ++ releases given) := by
  intro resource
  have givenNodup : given.Nodup := same.nodup_iff.mpr nodup
  rw [history_append, history_acquires resource nodup,
    history_releases resource givenNodup]
  by_cases inTaken : resource ∈ taken
  · have inGiven : resource ∈ given := same.mem_iff.mpr inTaken
    simp [inTaken, inGiven]
  · have notGiven : resource ∉ given :=
      fun inGiven => inTaken (same.mem_iff.mp inGiven)
    simp [inTaken, notGiven]

end History

section Replay

variable [DecidableEq α]

/-- What is held after a log, when something was held before it; none when the
log releases what is not held. -/
def replay : Multiset α → List (Custody α) → Option (Multiset α)
  | held, [] => some held
  | held, .acquire resource :: log => replay (resource ::ₘ held) log
  | held, .release resource :: log =>
      if resource ∈ held then replay (held.erase resource) log else none

theorem replay_append (log later : List (Custody α)) :
    ∀ held : Multiset α,
      replay held (log ++ later) = (replay held log).bind (replay · later) := by
  induction log with
  | nil =>
      intro held
      rfl
  | cons event log induction =>
      intro held
      cases event with
      | acquire resource => exact induction _
      | release resource =>
          simp only [List.cons_append, replay]
          split
          next => exact induction _
          next => rfl

theorem replay_acquires (resources : List α) :
    ∀ held : Multiset α, replay held (acquires resources) =
      some (↑resources + held) := by
  induction resources with
  | nil =>
      intro held
      simp [acquires, replay]
  | cons resource resources induction =>
      intro held
      have later := induction (resource ::ₘ held)
      rw [acquires] at later
      rw [acquires, List.map_cons, replay, later, ← Multiset.cons_coe,
        Multiset.cons_add, Multiset.add_cons]

theorem replay_releases (resources : List α) (held : Multiset α) :
    replay ((resources : Multiset α) + held) (releases resources) =
      some held := by
  induction resources with
  | nil => simp [releases, replay]
  | cons resource resources induction =>
      rw [releases] at induction
      rw [releases, List.map_cons, replay, ← Multiset.cons_coe,
        Multiset.cons_add,
        if_pos (Multiset.mem_cons_self _ _),
        Multiset.erase_cons_head, induction]

/-- A log that starts with `own` in hand, among whatever else is held, and ends
with `kept`. -/
def Exchanges (own kept : Multiset α) (log : List (Custody α)) : Prop :=
  ∀ held, replay (own + held) log = some (kept + held)

namespace Exchanges

variable {own kept left : Multiset α} {log later : List (Custody α)}

theorem nil (own : Multiset α) : Exchanges own own [] := fun _ => rfl

theorem append (first : Exchanges own kept log)
    (second : Exchanges kept left later) :
    Exchanges own left (log ++ later) := by
  intro held
  rw [replay_append, first held, Option.bind_some, second held]

theorem acquires (own : Multiset α) (resources : List α) :
    Exchanges own (↑resources + own) (acquires resources) := by
  intro held
  rw [replay_acquires, Multiset.add_assoc]

theorem releases (own : Multiset α) (resources : List α) :
    Exchanges ((resources : Multiset α) + own) own (releases resources) := by
  intro held
  rw [Multiset.add_assoc, replay_releases]

theorem releaseAll (resources : List α) :
    Exchanges (resources : Multiset α) 0 (Library.releases resources) := by
  have all := releases 0 resources
  rw [Multiset.add_zero] at all
  exact all

end Exchanges

end Replay

end Chario.Library
