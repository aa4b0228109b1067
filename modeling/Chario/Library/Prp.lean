import Mathlib.Data.List.Basic
import Mathlib.Data.List.Range
import Mathlib.Data.Nat.ModEq

namespace Chario.Library

/-! Physical region pages.  A controller finds the memory of a transfer from two
pointers and, for more than two pages, from a list of page addresses in memory
whose pages are chained through their last slots. -/

def pageBytes : Nat := 4096

def span (start len : Nat) : List Nat := List.range' start len

/-- The addresses of `rest` bytes in the given pages, each but the last full. -/
def pageSpans : List Nat → Nat → List Nat
  | [], _ => []
  | page :: pages, rest =>
      span page (min pageBytes rest) ++ pageSpans pages (rest - pageBytes)

def LastSlot (slot : Nat) : Prop := slot % pageBytes = pageBytes - 8

instance (slot : Nat) : Decidable (LastSlot slot) :=
  inferInstanceAs (Decidable (slot % pageBytes = pageBytes - 8))

/-- Read the list entries for `rest` bytes.  The last slot of a list page is a
pointer to the next one exactly when more than one page is left. -/
def walkList (entry : Nat → Option Nat) : Nat → Nat → Nat → Option (List Nat)
  | 0, _, _ => none
  | fuel + 1, slot, rest =>
      if rest = 0 then some []
      else if LastSlot slot ∧ pageBytes < rest then
        match entry slot with
        | none => none
        | some next => walkList entry fuel next rest
      else
        match entry slot, walkList entry fuel (slot + 8) (rest - pageBytes) with
        | some page, some addresses =>
            some (span page (min pageBytes rest) ++ addresses)
        | _, _ => none

/-- The addresses of a transfer of `total` bytes.  A pointer that is `none` has
no determined value. -/
def prpAddresses (entry : Nat → Option Nat) (prp1 prp2 : Option Nat)
    (total : Nat) : Option (List Nat) :=
  match prp1 with
  | none => none
  | some first =>
      let head := min total (pageBytes - first % pageBytes)
      let rest := total - head
      if rest = 0 then some (span first head)
      else
        match prp2 with
        | none => none
        | some second =>
            if rest ≤ pageBytes then some (span first head ++ span second rest)
            else (walkList entry (2 * (rest / pageBytes + 1) + 2)
              second rest).map
              (span first head ++ ·)

inductive PrpList (entry : Nat → Option Nat) : Nat → List Nat → Prop
  | nil {slot : Nat} : PrpList entry slot []
  | data {slot page : Nat} {pages : List Nat} (found : entry slot = some page)
      (last : LastSlot slot → pages = [])
      (rest : PrpList entry (slot + 8) pages) :
      PrpList entry slot (page :: pages)
  | chain {slot next page : Nat} {pages : List Nat} (last : LastSlot slot)
      (more : pages ≠ []) (found : entry slot = some next)
      (first : ¬ LastSlot next) (rest : PrpList entry next (page :: pages)) :
      PrpList entry slot (page :: pages)

def pageCount (rest : Nat) : Nat := (rest + pageBytes - 1) / pageBytes

theorem pageCount_zero : pageCount 0 = 0 := rfl

theorem pageCount_eq_zero {rest : Nat} (none : pageCount rest = 0) :
    rest = 0 := by
  unfold pageCount pageBytes at none
  omega

theorem pageCount_pred {length : Nat} (positive : 0 < length) :
    pageCount length = pageCount length - 1 + 1 := by
  unfold pageCount pageBytes
  omega

theorem pageCount_sub {rest count : Nat} (pages : pageCount rest = count + 1) :
    pageCount (rest - pageBytes) = count := by
  unfold pageCount pageBytes at *
  omega

theorem PrpList.walkList_eq {entry : Nat → Option Nat} {slot : Nat}
    {pages : List Nat} (listed : PrpList entry slot pages) :
    ∀ (fuel rest : Nat), pageCount rest = pages.length →
      2 * pages.length + (if LastSlot slot then 1 else 0) < fuel →
      walkList entry fuel slot rest = some (pageSpans pages rest) := by
  induction listed with
  | nil =>
      intro fuel rest count enough
      cases fuel with
      | zero => omega
      | succ fuel =>
          rw [pageCount_eq_zero count]
          rfl
  | @data slot page pages found last _ induction =>
      intro fuel rest count enough
      cases fuel with
      | zero => omega
      | succ fuel =>
          have positive : rest ≠ 0 := by
            rintro rfl
            simp [pageCount_zero] at count
          have direct : ¬ (LastSlot slot ∧ pageBytes < rest) := by
            rintro ⟨isLast, more⟩
            rw [last isLast] at count
            unfold pageCount pageBytes at *
            simp at count
            omega
          have later := induction fuel (rest - pageBytes)
            (pageCount_sub (by simpa using count)) (by
              simp only [List.length_cons] at enough
              split <;> omega)
          simp only [walkList, if_neg positive, if_neg direct, found, later,
            pageSpans]
  | @chain slot next page pages last more found first _ induction =>
      intro fuel rest count enough
      cases fuel with
      | zero => omega
      | succ fuel =>
          have length := List.length_pos_of_ne_nil more
          have beyond : pageBytes < rest := by
            unfold pageCount pageBytes at *
            simp only [List.length_cons] at count
            omega
          have positive : rest ≠ 0 := by omega
          have later := induction fuel rest count (by
            rw [if_neg first]
            rw [if_pos last] at enough
            omega)
          simp only [walkList, if_neg positive, if_pos (And.intro last beyond),
            found, later]

def Points (entry : Nat → Option Nat) (prp2 : Option Nat) :
    List Nat → Prop
  | [] => True
  | [page] => prp2 = some page
  | pages => ∃ slot, prp2 = some slot ∧ PrpList entry slot pages

def headBytes (first total : Nat) : Nat :=
  min total (pageBytes - first % pageBytes)

theorem prpAddresses_from {entry : Nat → Option Nat} {first total : Nat}
    {prp2 : Option Nat} {pages : List Nat}
    (count : pageCount (total - headBytes first total) = pages.length)
    (points : Points entry prp2 pages) :
    prpAddresses entry (some first) prp2 total =
      some (span first (headBytes first total) ++
        pageSpans pages (total - headBytes first total)) := by
  have head : min total (pageBytes - first % pageBytes) =
      headBytes first total := rfl
  simp only [prpAddresses, head]
  generalize total - headBytes first total = rest at count
  match pages, points, count with
  | [], _, count =>
      rw [if_pos (pageCount_eq_zero count)]
      simp [pageSpans]
  | [page], points, count =>
      have one : 0 < rest ∧ rest ≤ pageBytes := by
        unfold pageCount pageBytes at *
        simp only [List.length_singleton] at count
        omega
      rw [if_neg (by omega), points]
      simp only [if_pos one.2, pageSpans, List.append_nil,
        Nat.min_eq_right one.2]
  | page :: next :: pages, ⟨slot, pointer, listed⟩, count =>
      have many : pageBytes < rest := by
        unfold pageCount pageBytes at *
        simp only [List.length_cons] at count
        omega
      have atMost : pageCount rest ≤ rest / pageBytes + 1 := by
        unfold pageCount pageBytes
        omega
      rw [if_neg (by omega), pointer]
      simp only [if_neg (Nat.not_le.mpr many)]
      rw [listed.walkList_eq _ _ count (by split <;> omega)]
      rfl

theorem prpAddresses_eq {entry : Nat → Option Nat} {first total : Nat}
    {prp2 : Option Nat} {pages : List Nat} (aligned : first % pageBytes = 0)
    (count : pageCount total = pages.length + 1)
    (points : Points entry prp2 pages) :
    prpAddresses entry (some first) prp2 total =
      some (pageSpans (first :: pages) total) := by
  have whole : headBytes first total = min pageBytes total := by
    rw [headBytes, aligned, Nat.sub_zero, Nat.min_comm]
  have left : total - min pageBytes total = total - pageBytes := by omega
  have decoded := @prpAddresses_from entry first total prp2 pages (by
    rw [whole, left]
    exact pageCount_sub count) points
  rw [decoded, whole, left]
  rfl

theorem head_of_prpAddresses {entry : Nat → Option Nat}
    {prp1 prp2 : Option Nat} {total : Nat} {addresses : List Nat}
    (positive : 0 < total)
    (decoded : prpAddresses entry prp1 prp2 total = some addresses) :
    addresses.head? = prp1 := by
  unfold prpAddresses at decoded
  split at decoded
  next => cases decoded
  next first =>
      have head : 0 < min total (pageBytes - first % pageBytes) := by
        unfold pageBytes
        omega
      have starts : ∀ tail, (span first (min total
          (pageBytes - first % pageBytes)) ++ tail).head? = some first := by
        intro tail
        obtain ⟨count, size⟩ := Nat.exists_eq_succ_of_ne_zero (by omega :
          min total (pageBytes - first % pageBytes) ≠ 0)
        rw [size, span, List.range'_succ]
        rfl
      simp only at decoded
      split at decoded
      next =>
          cases decoded
          simpa using starts []
      next =>
          split at decoded
          next => cases decoded
          next second =>
              split at decoded
              next =>
                  cases decoded
                  exact starts _
              next =>
                  obtain ⟨tail, -, rfl⟩ := Option.map_eq_some_iff.mp decoded
                  exact starts tail

theorem second_of_prpAddresses {entry : Nat → Option Nat} {first total : Nat}
    {prp2 : Option Nat} {addresses : List Nat}
    (aligned : first % pageBytes = 0) (more : pageBytes < total)
    (two : total ≤ 2 * pageBytes)
    (decoded : prpAddresses entry (some first) prp2 total = some addresses) :
    addresses[pageBytes]? = prp2 := by
  have head : min total (pageBytes - first % pageBytes) = pageBytes := by omega
  have goesOn : ¬ total - pageBytes = 0 := by omega
  have fits : total - pageBytes ≤ pageBytes := by omega
  simp only [prpAddresses, head, if_neg goesOn, if_pos fits] at decoded
  split at decoded
  next => cases decoded
  next second =>
      cases decoded
      have size : (span first pageBytes).length = pageBytes :=
        List.length_range'
      obtain ⟨count, isCount⟩ := Nat.exists_eq_succ_of_ne_zero goesOn
      rw [List.getElem?_append_right (le_of_eq size), size, Nat.sub_self,
        isCount, span, List.range'_succ]
      rfl

theorem pageSpans_zero (pages : List Nat) : pageSpans pages 0 = [] := by
  induction pages with
  | nil => rfl
  | cons page pages induction => rw [pageSpans, Nat.zero_sub, induction]; rfl

theorem pageSpans_take {pages : List Nat} {rest : Nat}
    (enough : pageCount rest ≤ pages.length) :
    pageSpans pages rest = pageSpans (pages.take (pageCount rest)) rest := by
  induction pages generalizing rest with
  | nil => rw [List.take_nil]
  | cons page pages induction =>
      cases count : pageCount rest with
      | zero =>
          rw [pageCount_eq_zero count, pageSpans_zero, pageSpans_zero]
      | succ more =>
          have later := pageCount_sub count
          rw [count, List.length_cons] at enough
          rw [List.take_succ_cons, pageSpans, pageSpans,
            induction (by omega), later]

theorem walkList_length {entry : Nat → Option Nat} {fuel : Nat} :
    ∀ {slot rest : Nat} {addresses : List Nat},
      walkList entry fuel slot rest = some addresses →
      addresses.length = rest := by
  induction fuel with
  | zero =>
      intro slot rest addresses walked
      cases walked
  | succ fuel induction =>
      intro slot rest addresses walked
      rw [walkList] at walked
      split at walked
      next none =>
          cases walked
          exact none.symm
      split at walked
      next =>
          split at walked
          next => cases walked
          next => exact induction walked
      next =>
          split at walked
          next page later _ isLater =>
              cases walked
              rw [List.length_append, induction isLater, span,
                List.length_range']
              omega
          next => cases walked

theorem prpAddresses_length {entry : Nat → Option Nat} {prp1 prp2 : Option Nat}
    {total : Nat} {addresses : List Nat}
    (decoded : prpAddresses entry prp1 prp2 total = some addresses) :
    addresses.length = total := by
  unfold prpAddresses at decoded
  split at decoded
  next => cases decoded
  next first =>
      simp only at decoded
      split at decoded
      next =>
          cases decoded
          rw [span, List.length_range']
          omega
      next =>
          split at decoded
          next => cases decoded
          next second =>
              split at decoded
              next =>
                  cases decoded
                  rw [List.length_append, span, span, List.length_range',
                    List.length_range']
                  omega
              next =>
                  obtain ⟨tail, walked, rfl⟩ :=
                    Option.map_eq_some_iff.mp decoded
                  rw [List.length_append, walkList_length walked, span,
                    List.length_range']
                  omega

/-- A walk that ends before the list does agrees with the list up to its last
page.  There it may take a chain pointer for a page. -/
theorem PrpList.walkList_agrees {entry : Nat → Option Nat} {slot : Nat}
    {pages : List Nat} (listed : PrpList entry slot pages) :
    ∀ {fuel rest : Nat} {addresses : List Nat},
      walkList entry fuel slot rest = some addresses →
      pageCount rest ≤ pages.length →
      ∀ {index : Nat}, index + pageBytes < rest →
        addresses[index]? = (pageSpans pages rest)[index]? := by
  induction listed with
  | nil =>
      intro fuel rest addresses walked enough index inside
      have none := pageCount_eq_zero (Nat.le_zero.mp enough)
      omega
  | @data slot page pages found last _ induction =>
      intro fuel rest addresses walked enough index inside
      cases fuel with
      | zero => cases walked
      | succ fuel =>
          have some : rest ≠ 0 := by omega
          have direct : ¬ (LastSlot slot ∧ pageBytes < rest) := by
            rintro ⟨isLast, more⟩
            rw [last isLast] at enough
            unfold pageCount pageBytes at *
            simp only [List.length_singleton] at enough
            omega
          rw [walkList, if_neg some, if_neg direct, found] at walked
          have full : min pageBytes rest = pageBytes :=
            Nat.min_eq_left (by omega)
          have length : (span page pageBytes).length = pageBytes :=
            List.length_range'
          split at walked
          next other later isPage isLater =>
              cases isPage
              cases walked
              rw [pageSpans, full]
              by_cases here : index < pageBytes
              · rw [List.getElem?_append_left (by rwa [length]),
                  List.getElem?_append_left (by rwa [length])]
              · rw [List.getElem?_append_right (by omega),
                  List.getElem?_append_right (by omega), length]
                apply induction isLater
                · unfold pageCount pageBytes at *
                  simp only [List.length_cons] at enough
                  omega
                · omega
          next => cases walked
  | @chain slot next page pages last more found first _ induction =>
      intro fuel rest addresses walked enough index inside
      cases fuel with
      | zero => cases walked
      | succ fuel =>
          have some : rest ≠ 0 := by omega
          rw [walkList, if_neg some, if_pos ⟨last, by omega⟩, found] at walked
          exact induction walked enough inside

theorem prpAddresses_agrees {entry : Nat → Option Nat} {first total : Nat}
    {prp2 : Option Nat} {pages addresses : List Nat}
    (points : Points entry prp2 pages)
    (enough : pageCount (total - headBytes first total) ≤ pages.length)
    (decoded : prpAddresses entry (some first) prp2 total = some addresses)
    {index : Nat} (inside : index + pageBytes < total) :
    addresses[index]? = (span first (headBytes first total) ++
      pageSpans pages (total - headBytes first total))[index]? := by
  have head : min total (pageBytes - first % pageBytes) =
      headBytes first total := rfl
  have bounded : headBytes first total ≤ total := Nat.min_le_left _ _
  have length : (span first (headBytes first total)).length =
      headBytes first total := List.length_range'
  simp only [prpAddresses, head] at decoded
  by_cases inHead : index < headBytes first total
  · rw [List.getElem?_append_left (by rwa [length])]
    split at decoded
    next =>
        cases decoded
        rfl
    next =>
        split at decoded
        next => cases decoded
        next =>
            split at decoded
            next =>
                cases decoded
                rw [List.getElem?_append_left (by rwa [length])]
            next =>
                obtain ⟨tail, -, rfl⟩ := Option.map_eq_some_iff.mp decoded
                rw [List.getElem?_append_left (by rwa [length])]
  · have many : pageBytes < total - headBytes first total := by omega
    match pages, points, enough with
    | [], _, enough =>
        have none := pageCount_eq_zero (Nat.le_zero.mp enough)
        omega
    | [page], _, enough =>
        unfold pageCount pageBytes at *
        simp only [List.length_singleton] at enough
        omega
    | page :: next :: pages, ⟨slot, pointer, listed⟩, enough =>
        rw [if_neg (by omega), pointer] at decoded
        simp only [if_neg (Nat.not_le.mpr many)] at decoded
        obtain ⟨tail, walked, rfl⟩ := Option.map_eq_some_iff.mp decoded
        rw [List.getElem?_append_right (by omega),
          List.getElem?_append_right (by omega), length]
        exact listed.walkList_agrees walked enough (by omega)

/-! A buffer of whole pages that need not be contiguous. -/

def bufferAddress (frames : Nat → Nat) (offset : Nat) : Nat :=
  frames (offset / pageBytes) + offset % pageBytes

theorem map_bufferAddress_inPage (frames : Nat → Nat) {addr len : Nat}
    (inPage : addr % pageBytes + len ≤ pageBytes) :
    (List.range' addr len).map (bufferAddress frames) =
      span (bufferAddress frames addr) len := by
  apply List.ext_getElem (by simp [span])
  intro index below _
  simp only [List.length_map, List.length_range'] at below
  simp only [span, List.getElem_map, List.getElem_range', bufferAddress]
  unfold pageBytes at *
  have quotient : (addr + 1 * index) / 4096 = addr / 4096 := by omega
  rw [quotient]
  omega

theorem map_bufferAddress_page (frames : Nat → Nat) (start : Nat) {len : Nat}
    (inPage : len ≤ pageBytes) :
    (List.range' (start * pageBytes) len).map (bufferAddress frames) =
      span (frames start) len := by
  rw [map_bufferAddress_inPage frames (by rw [Nat.mul_mod_left]; omega),
    bufferAddress, Nat.mul_div_cancel start (by decide), Nat.mul_mod_left,
    Nat.add_zero]

theorem pageSpans_frames (frames : Nat → Nat) {count rest : Nat}
    (pages : pageCount rest = count) (start : Nat) :
    pageSpans ((List.range' start count).map frames) rest =
      (List.range' (start * pageBytes) rest).map (bufferAddress frames) := by
  induction count generalizing rest start with
  | zero =>
      rw [pageCount_eq_zero pages]
      rfl
  | succ count induction =>
      have later := induction (pageCount_sub pages) (start + 1)
      rw [List.range'_succ, List.map_cons, pageSpans, later]
      by_cases full : pageBytes ≤ rest
      · have bytes : List.range' (start * pageBytes) rest =
            List.range' (start * pageBytes) pageBytes ++
              List.range' ((start + 1) * pageBytes) (rest - pageBytes) := by
          rw [Nat.succ_mul, List.range'_append_1, Nat.add_sub_cancel' full]
        rw [Nat.min_eq_left full, bytes, List.map_append,
          map_bufferAddress_page frames start le_rfl]
      · have short : rest ≤ pageBytes := by omega
        have page := map_bufferAddress_page frames start short
        rw [Nat.min_eq_right short, Nat.sub_eq_zero_of_le short, page]
        simp

theorem span_pageSpans_frames (frames : Nat → Nat) (addr total : Nat) :
    span (bufferAddress frames addr) (headBytes addr total) ++
        pageSpans ((List.range' (addr / pageBytes + 1)
          (pageCount (total - headBytes addr total))).map frames)
          (total - headBytes addr total) =
      (List.range' addr total).map (bufferAddress frames) := by
  have below := Nat.mod_lt addr (show 0 < pageBytes by decide)
  rw [pageSpans_frames frames rfl, ← map_bufferAddress_inPage frames (by
    unfold headBytes
    omega), ← List.map_append]
  congr 1
  by_cases more : headBytes addr total < total
  · have next : (addr / pageBytes + 1) * pageBytes =
        addr + headBytes addr total := by
      have whole := Nat.div_add_mod' addr pageBytes
      unfold headBytes at *
      rw [Nat.succ_mul]
      omega
    rw [next, List.range'_append_1, Nat.add_sub_cancel' (le_of_lt more)]
  · have all : headBytes addr total = total := by
      unfold headBytes at *
      omega
    rw [all, Nat.sub_self]
    simp

end Chario.Library
