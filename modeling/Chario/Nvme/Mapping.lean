import Chario.Nvme.Split

namespace Chario.Nvme

open Chario.Library

/-! Mapping a buffer when every kernel service succeeds. -/

/-- `dma_map_sg` may join entries that follow each other in memory. -/
inductive Merged : List Segment → List Segment → Prop
  | nil : Merged [] []
  | keep {segment : Segment} {sg mapped : List Segment}
      (rest : Merged sg mapped) : Merged (segment :: sg) (segment :: mapped)
  | join {address len more : Nat} {sg mapped : List Segment}
      (nonempty : 0 < more)
      (rest : Merged (⟨address, len + more⟩ :: sg) mapped) :
      Merged (⟨address, len⟩ :: ⟨address + len, more⟩ :: sg) mapped

theorem Merged.refl (sg : List Segment) : Merged sg sg := by
  induction sg with
  | nil => exact .nil
  | cons segment sg induction => exact .keep induction

theorem Merged.entry_end {sg mapped : List Segment}
    (merged : Merged sg mapped) :
    ∀ segment ∈ mapped, ∃ last ∈ sg,
      segment.address + segment.len = last.address + last.len := by
  induction merged with
  | nil =>
      intro segment member
      cases member
  | @keep first sg mapped rest induction =>
      intro segment member
      cases List.mem_cons.mp member with
      | inl isFirst => exact ⟨first, List.mem_cons_self, by rw [isFirst]⟩
      | inr isLater =>
          obtain ⟨last, isLast, same⟩ := induction segment isLater
          exact ⟨last, List.mem_cons_of_mem _ isLast, same⟩
  | @join address len more sg mapped nonempty rest induction =>
      intro segment member
      obtain ⟨last, isLast, same⟩ := induction segment member
      cases List.mem_cons.mp isLast with
      | inl isJoined =>
          refine ⟨⟨address + len, more⟩,
            List.mem_cons_of_mem _ List.mem_cons_self, ?_⟩
          rw [same, isJoined, Nat.add_assoc]
      | inr isLater =>
          exact ⟨last, List.mem_cons_of_mem _ (List.mem_cons_of_mem _ isLater),
            same⟩

/-- An entry of a merged list begins where one of the entries began, and is not
longer than all of them. -/
theorem Merged.entry {sg mapped : List Segment} (merged : Merged sg mapped) :
    ∀ segment ∈ mapped,
      (∃ other ∈ sg, other.address = segment.address) ∧
        segment.len ≤ (sg.map Segment.len).sum := by
  induction merged with
  | nil =>
      intro segment member
      cases member
  | @keep first sg mapped rest induction =>
      intro segment member
      rw [List.map_cons, List.sum_cons]
      cases List.mem_cons.mp member with
      | inl isFirst =>
          rw [isFirst]
          exact ⟨⟨first, List.mem_cons_self, rfl⟩, Nat.le_add_right _ _⟩
      | inr isLater =>
          obtain ⟨⟨other, isOther, same⟩, short⟩ := induction segment isLater
          exact ⟨⟨other, List.mem_cons_of_mem _ isOther, same⟩,
            Nat.le_trans short (Nat.le_add_left _ _)⟩
  | @join address len more sg mapped nonempty rest induction =>
      intro segment member
      obtain ⟨⟨other, isOther, same⟩, short⟩ := induction segment member
      simp only [List.map_cons, List.sum_cons] at short ⊢
      refine ⟨?_, by omega⟩
      cases List.mem_cons.mp isOther with
      | inl isJoined =>
          refine ⟨⟨address, len⟩, List.mem_cons_self, ?_⟩
          rw [← same, isJoined]
      | inr isLater =>
          exact ⟨other, List.mem_cons_of_mem _ (List.mem_cons_of_mem _ isLater),
            same⟩

structure Kernel.Granted (kernel : Kernel) : Prop where
  kcalloc : ∀ count, kernel.kcalloc count = true
  pins : ∀ addr count, kernel.getUserPagesFast addr count = (count : Nat)
  aligned : ∀ page, kernel.frames page % pageBytes = 0
  kmalloc : ∀ size, kernel.kmalloc size = true
  maps : ∀ sg, ∃ mapped, kernel.dmaMapSg sg = some mapped ∧ Merged sg mapped
  pools : kernel.pools.Granted

/-- A kernel that grants everything, maps user pages to equal bus addresses and
allocates its list blocks upwards. -/
def Kernel.plain : Kernel where
  kcalloc _ := true
  getUserPagesFast _ count := count
  frames page := page % 2 ^ 20 * pageBytes
  inSpace page := by
    unfold pageBytes
    omega
  kmalloc _ := true
  dmaMapSg sg := some sg
  dmaAllocCoherent _ := none
  pools :=
    { small :=
        { alloc := fun turn => some (2 ^ 30 + turn * 256)
          aligned := by
            rintro turn dma ⟨⟩
            omega
          fresh := by
            intro turn other dma one two
            have same := one.trans two.symm
            simp only [Option.some.injEq] at same
            omega }
      page :=
        { alloc := fun turn => some (2 ^ 31 + turn * pageBytes)
          aligned := by
            rintro turn dma ⟨⟩
            unfold pageBytes
            omega
          fresh := by
            intro turn other dma one two
            have same := one.trans two.symm
            simp only [Option.some.injEq] at same
            unfold pageBytes at same
            omega } }

theorem Kernel.plain_granted : Kernel.plain.Granted where
  kcalloc _ := rfl
  pins _ _ := rfl
  aligned page := Nat.mul_mod_left (page % 2 ^ 20) pageBytes
  kmalloc _ := rfl
  maps sg := ⟨sg, rfl, .refl sg⟩
  pools := ⟨fun _ => ⟨_, rfl⟩, fun _ => ⟨_, rfl⟩⟩

theorem PageRun.join {address : Nat} {dmaLen length : Int} {segment : Segment}
    {sg : List Segment} {pages : List Nat}
    (run : PageRun address dmaLen (segment :: sg) length pages)
    (follows : (segment.address : Int) = address + dmaLen)
    (nonempty : 0 < segment.len) :
    PageRun address (dmaLen + segment.len) sg length pages := by
  generalize isAll : segment :: sg = all at run
  induction run with
  | last some short => exact .last some short
  | same more inside rest induction =>
      refine .same more (by omega) ?_
      have later := induction (by push_cast; omega) isAll
      rwa [sub_add_eq_add_sub] at later
  | @next address dmaLen length other rest pages more ends run _ =>
      cases isAll
      refine .same more (by omega) ?_
      have here : address + pageBytes = segment.address := by omega
      rw [here, ends, add_sub_cancel_left]
      exact run

theorem PageRun.tail {address : Nat} {dmaLen length : Int}
    {sg mapped : List Segment} {pages : List Nat}
    (run : PageRun address dmaLen sg length pages)
    (later : ∀ {segment : Segment} {rest : List Segment} {length : Int}
      {pages : List Nat}, sg = segment :: rest →
      PageRun segment.address segment.len rest length pages →
      ∃ first others, mapped = first :: others ∧
        PageRun first.address first.len others length pages) :
    PageRun address dmaLen mapped length pages := by
  induction run with
  | last some short => exact .last some short
  | same more inside rest induction => exact .same more inside (induction later)
  | next more ends rest _ =>
      obtain ⟨first, others, rfl, run⟩ := later rfl rest
      exact .next more ends run

theorem Merged.pageRun {sg mapped : List Segment} (merged : Merged sg mapped) :
    ∀ {segment : Segment} {rest : List Segment} {length : Int}
      {pages : List Nat}, sg = segment :: rest →
      PageRun segment.address segment.len rest length pages →
      ∃ first others, mapped = first :: others ∧
        PageRun first.address first.len others length pages := by
  induction merged with
  | nil =>
      intro segment rest length pages isSg
      cases isSg
  | keep rest induction =>
      intro segment others length pages isSg run
      cases isSg
      exact ⟨_, _, rfl, run.tail induction⟩
  | @join address len more sg mapped nonempty rest induction =>
      intro segment others length pages isSg run
      cases isSg
      apply induction rfl
      have joined := run.join (by push_cast; rfl) nonempty
      push_cast
      exact joined

theorem Merged.afterFirst {sg mapped : List Segment}
    (merged : Merged sg mapped) :
    ∀ {first : Segment} {rest : List Segment} {totalLen : Int}
      {pages : List Nat}, sg = first :: rest →
      AfterFirst first totalLen rest pages →
      ∃ other others, mapped = other :: others ∧
        other.address = first.address ∧
        AfterFirst other totalLen others pages := by
  induction merged with
  | nil =>
      intro first rest totalLen pages isSg
      cases isSg
  | keep merged _ =>
      intro first rest totalLen pages isSg after
      cases isSg
      refine ⟨_, _, rfl, rfl, ?_⟩
      cases after with
      | inside ends => exact .inside ends
      | same more left run => exact .same more left (run.tail merged.pageRun)
      | next more spent run =>
          obtain ⟨segment, others, rfl, later⟩ := merged.pageRun rfl run
          exact .next more spent later
  | @join address len more sg mapped nonempty _ induction =>
      intro first rest totalLen pages isSg after
      cases isSg
      have joined : AfterFirst ⟨address, len + more⟩ totalLen sg pages := by
        -- the head only depends on the address
        have isHead : (⟨address, len + more⟩ : Segment).head =
            (⟨address, len⟩ : Segment).head := rfl
        cases after with
        | inside ends => exact .inside ends
        | same long left run =>
            refine .same long (Nat.lt_add_right more left) ?_
            rw [isHead]
            generalize (⟨address, len⟩ : Segment).head = head at left run
            simp only at left run ⊢
            have whole := run.join (by push_cast; omega) nonempty
            have size :
                (len : Int) - head + more = (len + more : Nat) - head := by
              push_cast
              omega
            rwa [size] at whole
        | next long spent run =>
            refine .same long (by rw [isHead, ← spent]; simp only; omega) ?_
            rw [isHead, ← spent]
            rw [← spent] at run
            have size : ((len + more : Nat) : Int) - len = more := by
              push_cast
              omega
            simp only [size]
            exact run
      obtain ⟨other, others, isMapped, same, later⟩ := induction rfl joined
      exact ⟨other, others, isMapped, same, later⟩

theorem pageRun_sgTable (frames : Nat → Nat) {count length : Nat}
    (pages : pageCount length = count + 1) (page : Nat) :
    PageRun (frames page) (min length pageBytes : Nat)
      (sgTable frames count (page + 1) 0 (length - pageBytes)) length
      ((List.range' page (count + 1)).map frames) := by
  induction count generalizing length page with
  | zero =>
      refine .last ?_ ?_
      all_goals
        unfold pageCount pageBytes at *
        omega
  | succ count induction =>
      have long : pageBytes < length := by
        unfold pageCount pageBytes at *
        omega
      have later := induction (pageCount_sub pages) (page + 1)
      rw [List.range'_succ, List.map_cons, sgTable]
      refine .next (by exact_mod_cast long) (by
        rw [Nat.min_eq_right (le_of_lt long)]) ?_
      rw [← Int.ofNat_sub (le_of_lt long)]
      exact later

def Kernel.userPage (kernel : Kernel) (addr page : Nat) : Nat :=
  kernel.frames (addr / pageBytes + page)

/-- The scatterlist that `nvme_map_user_pages` has mapped. -/
def Kernel.userTable (kernel : Kernel) (addr length : Nat) : List Segment :=
  sgTable kernel.frames (userPageCount addr length) (addr / pageBytes)
    (addr % pageBytes) length

/-- What holds of the services whether they succeed or not. -/
structure Kernel.Sound (kernel : Kernel) : Prop where
  aligned : ∀ page, kernel.frames page % pageBytes = 0
  merges : ∀ {sg mapped}, kernel.dmaMapSg sg = some mapped → Merged sg mapped

structure Kernel.Maps (kernel : Kernel) (addr length : Nat) : Prop where
  kcalloc : kernel.kcalloc (userPageCount addr length) = true
  pins : (userPageCount addr length : Int) ≤
    kernel.getUserPagesFast addr (userPageCount addr length)
  kmalloc : kernel.kmalloc (nvmeNpages pageBytes length) = true
  mapped : kernel.dmaMapSg (kernel.userTable addr length) ≠ none

theorem Kernel.Granted.sound {kernel : Kernel} (granted : kernel.Granted) :
    kernel.Sound where
  aligned := granted.aligned
  merges := by
    intro sg mapped isMapped
    obtain ⟨other, isOther, merged⟩ := granted.maps sg
    rw [isOther] at isMapped
    exact Option.some.inj isMapped ▸ merged

theorem Kernel.Granted.mapsUser {kernel : Kernel} (granted : kernel.Granted)
    (addr length : Nat) : kernel.Maps addr length where
  kcalloc := granted.kcalloc _
  pins := le_of_eq (granted.pins _ _).symm
  kmalloc := granted.kmalloc _
  mapped := by
    obtain ⟨mapped, isMapped, -⟩ := granted.maps (kernel.userTable addr length)
    simp [isMapped]

theorem afterFirst_sgTable {frames : Nat → Nat}
    (aligned : ∀ page, frames page % pageBytes = 0) {addr length : Nat}
    (positive : 0 < length) :
    ∃ first rest, sgTable frames (userPageCount addr length)
        (addr / pageBytes) (addr % pageBytes) length = first :: rest ∧
      first.address = frames (addr / pageBytes) + addr % pageBytes ∧
      AfterFirst first length rest
        ((List.range' (addr / pageBytes + 1)
          (pageCount (length - headBytes addr length))).map frames) := by
  have below := Nat.mod_lt addr (show 0 < pageBytes by decide)
  obtain ⟨count, isCount⟩ := Nat.exists_eq_succ_of_ne_zero
    (show userPageCount addr length ≠ 0 by
      unfold userPageCount pageBytes
      omega)
  refine ⟨⟨frames (addr / pageBytes) + addr % pageBytes,
    min length (pageBytes - addr % pageBytes)⟩, _, by
      rw [isCount]; rfl, rfl, ?_⟩
  have isHead : (⟨frames (addr / pageBytes) + addr % pageBytes,
      min length (pageBytes - addr % pageBytes)⟩ : Segment).head =
      pageBytes - addr % pageBytes := by
    have page := aligned (addr / pageBytes)
    unfold Segment.head pageBytes at *
    simp only
    omega
  by_cases long : pageBytes - addr % pageBytes < length
  · have pages :
        pageCount (length - (pageBytes - addr % pageBytes)) = count := by
      unfold userPageCount at isCount
      unfold pageCount pageBytes at *
      omega
    have full : headBytes addr length = pageBytes - addr % pageBytes :=
      Nat.min_eq_right (le_of_lt long)
    rw [full, pages]
    obtain ⟨later, rfl⟩ := Nat.exists_eq_succ_of_ne_zero
      (show count ≠ 0 by
        unfold pageCount pageBytes at *
        omega)
    have run := pageRun_sgTable frames pages (addr / pageBytes + 1)
    rw [sgTable]
    refine .next (by rw [isHead]; exact_mod_cast long)
      (by rw [isHead]; exact full) ?_
    rw [isHead, ← Int.ofNat_sub (le_of_lt long)]
    simpa using run
  · have short : headBytes addr length = length := by
      rw [headBytes]
      omega
    rw [short, Nat.sub_self, pageCount_zero]
    exact .inside (by rw [isHead]; omega)

theorem pageCount_rest {addr length count : Nat}
    (aligned : addr % pageBytes = 0) (pages : pageCount length = count + 1) :
    pageCount (length - headBytes addr length) = count := by
  have head : headBytes addr length = min length pageBytes := by
    rw [headBytes, aligned, Nat.sub_zero]
  rw [head]
  unfold pageCount pageBytes at *
  omega

section Setup

variable {kernel : Kernel} {addr length : Nat} (positive : 0 < length)
variable (bounded : length ≤ intMax - pageBytes)

include positive bounded

theorem nvmeMapUserPages_maps (sound : kernel.Sound)
    (maps : kernel.Maps addr length) (word : addr % 4 = 0) :
    ∃ first rest, nvmeMapUserPages pageBytes kernel addr length =
        .ok (first :: rest) ∧
      first.address = kernel.userPage addr 0 + addr % pageBytes ∧
      AfterFirst first length rest
        ((List.range' 1 (pageCount (length - headBytes addr length))).map
          (kernel.userPage addr)) := by
  obtain ⟨mapped, isMapped⟩ := Option.ne_none_iff_exists'.mp maps.mapped
  have fits : ¬ (length = 0 ∨ intMax - pageBytes < length) := by omega
  have accepted : nvmeMapUserPages pageBytes kernel addr length =
      .ok mapped := by
    rw [nvmeMapUserPages, if_neg (not_not.mpr word), if_neg fits,
      if_neg (by rw [maps.kcalloc]; decide), if_neg (not_lt.mpr maps.pins),
      if_neg (by rw [maps.kmalloc]; decide)]
    exact (by rw [← Kernel.userTable, isMapped])
  obtain ⟨first, rest, isTable, atFirst, after⟩ :=
    @afterFirst_sgTable kernel.frames sound.aligned addr length positive
  have shifted : (List.range' (addr / pageBytes + 1)
      (pageCount (length - headBytes addr length))).map kernel.frames =
      (List.range' 1 (pageCount (length - headBytes addr length))).map
        (kernel.userPage addr) := by
    rw [← List.map_add_range', List.map_map]
    rfl
  rw [shifted] at after
  obtain ⟨other, others, rfl, atOther, later⟩ :=
    (sound.merges isMapped).afterFirst isTable after
  exact ⟨other, others, accepted, atOther.trans atFirst, later⟩

theorem setupUser_ends (sound : kernel.Sound) (maps : kernel.Maps addr length)
    (word : addr % 4 = 0) :
    ∃ ret prp2 npages lists,
      setupUser pageBytes kernel addr length =
        .ok (ret, ⟨some (kernel.userPage addr 0 + addr % pageBytes), prp2,
          npages, lists⟩) ∧
      PrpEnd kernel.pools
        ((List.range' 1 (pageCount (length - headBytes addr length))).map
          (kernel.userPage addr)) length ret prp2 npages lists := by
  obtain ⟨first, rest, mapped, atFirst, after⟩ :=
    nvmeMapUserPages_maps positive bounded sound maps word
  obtain ⟨ret, npages, lists, prp2, ran, ended⟩ :=
    nvmeSetupPrps_ends kernel.pools after
  refine ⟨ret, prp2, npages, lists, ?_, ended⟩
  rw [setupUser, mapped]
  simp only [ran, atFirst, List.head?_cons, Option.map_some]

theorem setupUser_listed (sound : kernel.Sound) (maps : kernel.Maps addr length)
    (word : addr % 4 = 0)
    (enough : kernel.pools.Enough
      (pageCount (length - headBytes addr length))) :
    ∃ prp2 npages lists,
      setupUser pageBytes kernel addr length =
        .ok (length, ⟨some (kernel.userPage addr 0 + addr % pageBytes), prp2,
          npages, lists⟩) ∧
      Listed
        ((List.range' 1 (pageCount (length - headBytes addr length))).map
          (kernel.userPage addr)) prp2 npages lists := by
  obtain ⟨ret, prp2, npages, lists, ran, ended⟩ :=
    setupUser_ends positive bounded sound maps word
  obtain ⟨rfl, listed⟩ := ended.listed (by simpa using enough)
  exact ⟨prp2, npages, lists, ran, listed⟩

theorem setupPhys_ends (word : addr % 4 = 0)
    (kmalloc : kernel.kmalloc (nvmeNpages pageBytes length) = true) :
    ∃ ret prp2 npages lists,
      setupPhys pageBytes kernel addr length =
        .ok (ret, ⟨some (addr % 2 ^ 32), prp2, npages, lists⟩) ∧
      PrpEnd kernel.pools
        ((List.range' 1 (pageCount (length - headBytes addr length))).map
          (physFrame (addr % 2 ^ 32))) length ret prp2 npages lists := by
  have fits : ¬ (length = 0 ∨ intMax - pageBytes < length) := by omega
  have accepted : nvmeMapPhysPages pageBytes kernel addr length = .ok () := by
    rw [nvmeMapPhysPages, if_neg (not_not.mpr word), if_neg fits,
      if_neg (by rw [kmalloc]; decide)]
  obtain ⟨ret, npages, lists, prp2, ran, ended⟩ :=
    nvmeSetupPhysPrps_ends kernel.pools (addr % 2 ^ 32) length
  -- the truncation to a `dma_addr_t` keeps the offset in the page
  have inPage : addr % 2 ^ 32 % pageBytes = addr % pageBytes :=
    Nat.mod_mod_of_dvd addr (by decide)
  have isCount : nprps pageBytes
      (length - (pageBytes - addr % 2 ^ 32 % pageBytes : Nat) : Int) =
      pageCount (length - headBytes addr length) := by
    rw [inPage]
    have rest : (length - (pageBytes - addr % pageBytes : Nat) : Int).toNat =
        length - headBytes addr length := by
      unfold headBytes
      omega
    rw [nprps, rest]
    rfl
  rw [isCount] at ended
  refine ⟨ret, prp2, npages, lists, ?_, ended⟩
  rw [setupPhys, accepted]
  simp only [ran]

variable (aligned : addr % pageBytes = 0)

include aligned

theorem setupPhys_listed {count : Nat} (pages : pageCount length = count + 1)
    (kmalloc : kernel.kmalloc (nvmeNpages pageBytes length) = true)
    (enough : kernel.pools.Enough count) :
    ∃ prp2 npages lists,
      setupPhys pageBytes kernel addr length =
        .ok (length, ⟨some (addr % 2 ^ 32), prp2, npages, lists⟩) ∧
      Listed ((List.range' 1 count).map (physFrame (addr % 2 ^ 32))) prp2 npages
        lists := by
  have word : addr % 4 = 0 := by
    unfold pageBytes at aligned
    omega
  obtain ⟨ret, prp2, npages, lists, ran, ended⟩ :=
    setupPhys_ends positive bounded word kmalloc
  rw [pageCount_rest aligned pages] at ended
  obtain ⟨rfl, listed⟩ := ended.listed (by simpa using enough)
  exact ⟨prp2, npages, lists, ran, listed⟩

variable (granted : kernel.Granted)

include granted

theorem setupUser_ok {count : Nat} (pages : pageCount length = count + 1) :
    ∃ prp2 npages lists,
      setupUser pageBytes kernel addr length =
        .ok (length, ⟨some (kernel.userPage addr 0), prp2, npages, lists⟩) ∧
      Listed ((List.range' 1 count).map (kernel.userPage addr))
        prp2 npages lists := by
  have set := setupUser_listed positive bounded granted.sound
    (granted.mapsUser addr length) (by unfold pageBytes at aligned; omega)
    (granted.pools.enough _)
  rwa [pageCount_rest aligned pages, aligned, Nat.add_zero] at set

theorem setupPhys_ok {count : Nat} (pages : pageCount length = count + 1) :
    ∃ prp2 npages lists,
      setupPhys pageBytes kernel addr length =
        .ok (length, ⟨some (addr % 2 ^ 32), prp2, npages, lists⟩) ∧
      Listed ((List.range' 1 count).map (physFrame (addr % 2 ^ 32))) prp2 npages
        lists :=
  setupPhys_listed positive bounded aligned pages (granted.kmalloc _)
    (granted.pools.enough _)

end Setup

end Chario.Nvme
