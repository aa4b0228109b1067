import Chario.Nvme.Mapping

namespace Chario.Nvme

open Chario.Library

/-! `nvme_setup_prps` on any scatterlist whose entries meet at page boundaries:
its lists decode to the bytes of the scatterlist. -/

/-- A scatterlist as `dma_map_sg` leaves it.  `sg_dma_len` is read into an
`int`. -/
structure Scatterlist (sg : List Segment) : Prop where
  len : ∀ segment ∈ sg, 0 < segment.len ∧ segment.len < 2 ^ 31
  starts : ∀ segment ∈ sg.tail, segment.address % pageBytes = 0
  ends : ∀ segment ∈ sg.dropLast,
    (segment.address + segment.len) % pageBytes = 0

def sgBytes (sg : List Segment) : List Nat :=
  sg.flatMap (fun segment => span segment.address segment.len)

def sgLen (sg : List Segment) : Nat := (sg.map Segment.len).sum

inductive PageEnds : Nat → List Segment → Prop
  | last {dmaLen : Nat} (some : 0 < dmaLen) : PageEnds dmaLen []
  | more {dmaLen : Nat} {segment : Segment} {sg : List Segment}
      (some : 0 < dmaLen) (whole : dmaLen % pageBytes = 0)
      (rest : PageEnds segment.len sg) : PageEnds dmaLen (segment :: sg)

theorem PageEnds.positive {dmaLen : Nat} {sg : List Segment}
    (whole : PageEnds dmaLen sg) : 0 < dmaLen := by
  cases whole with
  | last some => exact some
  | more some _ _ => exact some

theorem Scatterlist.pageEnds {first : Segment} {rest : List Segment}
    (sound : Scatterlist (first :: rest)) :
    ∀ {dmaLen : Nat}, 0 < dmaLen →
      (rest ≠ [] → dmaLen % pageBytes = 0) → PageEnds dmaLen rest := by
  induction rest generalizing first with
  | nil =>
      intro dmaLen some _
      exact .last some
  | cons segment rest induction =>
      intro dmaLen some whole
      have starts := sound.starts segment List.mem_cons_self
      refine .more some (whole (by simp))
        (@induction segment ⟨?_, ?_, ?_⟩ _ ?_ ?_)
      · exact fun other member => sound.len other (.tail _ member)
      · exact fun other member => sound.starts other (.tail _ member)
      · exact fun other member => sound.ends other (by simp [member])
      · exact (sound.len segment (.tail _ List.mem_cons_self)).1
      · intro more
        have ends := sound.ends segment (by
          cases rest with
          | nil => exact absurd rfl more
          | cons _ _ => simp)
        unfold pageBytes at *
        omega

theorem take_span_append {address dmaLen length size : Nat} {tail : List Nat}
    (inside : size ≤ dmaLen) (long : size ≤ length) :
    (span address dmaLen ++ tail).take length =
      span address size ++
        (span (address + size) (dmaLen - size) ++ tail).take
          (length - size) := by
  have split : span address dmaLen = span address size ++
      span (address + size) (dmaLen - size) := by
    rw [span, span, span, List.range'_append_1, Nat.add_sub_cancel' inside]
  rw [split, List.append_assoc, List.take_append, span, List.length_range',
    List.take_of_length_le (by simpa using long)]

theorem take_span_short {address dmaLen length : Nat} {tail : List Nat}
    (short : length ≤ dmaLen) :
    (span address dmaLen ++ tail).take length = span address length := by
  rw [List.take_append_of_le_length (by simpa [span] using short), span, span,
    List.take_range'_of_length_ge short]

theorem PageEnds.pageRun {sg : List Segment} {length : Nat} :
    ∀ {address dmaLen : Nat}, PageEnds dmaLen sg → 0 < length →
      length ≤ dmaLen + sgLen sg →
      ∃ pages, PageRun address dmaLen sg length pages ∧
        pageSpans pages length =
          (span address dmaLen ++ sgBytes sg).take length := by
  -- one page at a time: the induction is on the bytes that are left
  induction length using Nat.strong_induction_on generalizing sg with
  | _ length induction =>
      intro address dmaLen whole some covered
      by_cases short : length ≤ pageBytes
      · refine ⟨[address], .last (by omega) (by exact_mod_cast short), ?_⟩
        have inside : length ≤ dmaLen := by
          cases whole with
          | last _ => simpa [sgLen] using covered
          | more some whole _ =>
              unfold pageBytes at *
              omega
        rw [take_span_short inside, pageSpans, Nat.min_eq_right short,
          pageSpans, List.append_nil]
      have long : pageBytes < length := by omega
      have left : length - pageBytes < length := by
        unfold pageBytes at *
        omega
      by_cases inside : pageBytes < dmaLen
      · obtain ⟨pages, run, spans⟩ := @induction _ left sg (address + pageBytes)
          (dmaLen - pageBytes) (by
            cases whole with
            | last _ => exact .last (by omega)
            | more _ whole rest =>
                exact .more (by omega) (by unfold pageBytes at *; omega) rest)
          (by omega) (by omega)
        refine ⟨address :: pages, .same (by exact_mod_cast long)
          (by exact_mod_cast inside) ?_, ?_⟩
        · rw [Int.ofNat_sub (le_of_lt inside), Int.ofNat_sub (le_of_lt long)]
            at run
          exact run
        · rw [pageSpans, spans, Nat.min_eq_left (le_of_lt long),
            take_span_append (le_of_lt inside) (le_of_lt long)]
      · cases whole with
        | last _ =>
            simp [sgLen] at covered
            omega
        | @more _ segment sg some whole rest =>
            have page : dmaLen = pageBytes := by
              unfold pageBytes at *
              omega
            subst page
            obtain ⟨pages, run, spans⟩ := @induction _ left sg segment.address
              segment.len rest (by omega) (by
                simp only [sgLen, List.map_cons, List.sum_cons] at covered ⊢
                omega)
            refine ⟨address :: pages, .next (by exact_mod_cast long) rfl ?_, ?_⟩
            · rw [Int.ofNat_sub (le_of_lt long)] at run
              exact run
            · rw [pageSpans, spans, Nat.min_eq_left (le_of_lt long),
                take_span_append le_rfl (le_of_lt long), Nat.sub_self]
              rfl

theorem Scatterlist.afterFirst {first : Segment} {rest : List Segment}
    (sound : Scatterlist (first :: rest)) {totalLen : Nat}
    (covered : totalLen ≤ sgLen (first :: rest)) :
    ∃ pages, AfterFirst first totalLen rest pages ∧
      span first.address (headBytes first.address totalLen) ++
          pageSpans pages (totalLen - headBytes first.address totalLen) =
        (sgBytes (first :: rest)).take totalLen := by
  have below := Nat.mod_lt first.address (show 0 < pageBytes by decide)
  have nonempty := (sound.len first List.mem_cons_self).1
  -- an entry that is followed by another ends where a page ends
  have ends : rest ≠ [] → first.head ≤ first.len ∧
      (first.len - first.head) % pageBytes = 0 := by
    intro more
    have ends := sound.ends first (by
      cases rest with
      | nil => exact absurd rfl more
      | cons _ _ => simp)
    unfold Segment.head pageBytes at *
    omega
  have bytes : sgBytes (first :: rest) =
      span first.address first.len ++ sgBytes rest := rfl
  have total : sgLen (first :: rest) = first.len + sgLen rest := rfl
  have isHead : headBytes first.address totalLen = min totalLen first.head :=
    rfl
  rw [bytes, isHead]
  by_cases inside : totalLen ≤ first.head
  · refine ⟨[], .inside (by exact_mod_cast inside), ?_⟩
    have short : totalLen ≤ first.len := by
      cases rest with
      | nil => simpa [sgLen] using covered
      | cons _ _ =>
          have := ends (by simp)
          omega
    rw [Nat.min_eq_left inside, Nat.sub_self, take_span_short short]
    simp [pageSpans]
  have long : first.head < totalLen := by omega
  have reaches : first.head ≤ first.len := by
    cases rest with
    | nil =>
        simp [sgLen] at covered
        omega
    | cons _ _ => exact (ends (by simp)).1
  rw [Nat.min_eq_right (le_of_lt long),
    take_span_append reaches (le_of_lt long)]
  by_cases spent : first.len = first.head
  · cases rest with
    | nil =>
        simp [sgLen] at covered
        omega
    | cons segment rest =>
        have whole := sound.pageEnds (show 0 < pageBytes by decide)
          (fun _ => Nat.mod_self _)
        cases whole with
        | more _ _ whole =>
            obtain ⟨pages, run, spans⟩ := @PageEnds.pageRun rest
              (totalLen - first.head) segment.address _ whole (by omega) (by
                simp only [sgLen, List.map_cons, List.sum_cons] at covered ⊢
                omega)
            rw [Int.ofNat_sub (le_of_lt long)] at run
            refine ⟨pages, .next (by exact_mod_cast long) spent run, ?_⟩
            rw [spans, spent, Nat.sub_self]
            rfl
  · have left : first.head < first.len := by omega
    have whole := sound.pageEnds (show 0 < first.len - first.head by omega)
      (fun more => (ends more).2)
    obtain ⟨pages, run, spans⟩ := @PageEnds.pageRun rest (totalLen - first.head)
      (first.address + first.head) _ whole (by omega) (by omega)
    rw [Int.ofNat_sub (le_of_lt long), Int.ofNat_sub (le_of_lt left)] at run
    exact ⟨pages, .same (by exact_mod_cast long) left run, by rw [spans]⟩

def entryCount (address totalLen : Nat) : Nat :=
  pageCount (totalLen - headBytes address totalLen)

/-- The return value tells whether the pools gave every list block, and with all
of them the pointers and lists decode to the first bytes of the scatterlist. -/
theorem setup_prps_decodes_scatterlist (pools : PrpPools) {first : Segment}
    {rest : List Segment} (sound : Scatterlist (first :: rest))
    {totalLen : Nat} (positive : 0 < totalLen)
    (covered : totalLen ≤ sgLen (first :: rest))
    (bounded : totalLen < 2 ^ 31 - 4096) :
    ∃ ret iod, nvmeSetupPrps pageBytes pools (first :: rest) totalLen =
        some (ret, iod) ∧
      (ret = totalLen ↔ pools.Enough (entryCount first.address totalLen)) ∧
      (pools.Enough (entryCount first.address totalLen) →
        prpAddresses (prpMemory iod.lists) (some first.address)
            iod.firstDma totalLen =
          some ((sgBytes (first :: rest)).take totalLen)) := by
  obtain ⟨pages, after, bytes⟩ := sound.afterFirst covered
  obtain ⟨ret, npages, lists, prp2, ran, ended⟩ :=
    nvmeSetupPrps_ends pools after
  have count : pages.length = entryCount first.address totalLen := by
    have left : ((totalLen : Int) - first.head).toNat =
        totalLen - headBytes first.address totalLen := by
      unfold headBytes Segment.head
      omega
    rw [after.length_eq, nprps, left]
    rfl
  refine ⟨ret, _, ran, ?_, ?_⟩
  · rw [← count]
    exact ended.ret_eq_iff
  · intro enough
    obtain ⟨-, listed⟩ := ended.listed (by rw [count]; exact enough)
    rw [prpAddresses_from count.symm listed.points, bytes]

theorem setup_prps_decodes_two_entries :
    ∃ ret iod, nvmeSetupPrps pageBytes Kernel.plain.pools
        [⟨20580, 3996⟩, ⟨36864, 20480⟩] 20000 = some (ret, iod) ∧
      (ret = 20000 ↔ Kernel.plain.pools.Enough (entryCount 20580 20000)) ∧
      (Kernel.plain.pools.Enough (entryCount 20580 20000) →
        prpAddresses (prpMemory iod.lists) (some 20580) iod.firstDma 20000 =
          some ((sgBytes [⟨20580, 3996⟩, ⟨36864, 20480⟩]).take 20000)) :=
  @setup_prps_decodes_scatterlist Kernel.plain.pools ⟨20580, 3996⟩
    [⟨36864, 20480⟩] ⟨by decide, by decide, by decide⟩ 20000 (by decide)
    (by decide) (by decide)

end Chario.Nvme
