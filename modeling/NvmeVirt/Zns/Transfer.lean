import NvmeVirt.Io.Prps
import NvmeVirt.Library.Bytes

/-!
# The pages of a report

`__prp_transfer_data` copies a report to the pages that the PRPs of its command name. It reads the list
of the pages while it writes the memory of the host. A buffer that is apart from its list gets every
byte at its place, and nothing else is written.
-/

namespace NvmeVirt

open Checked Segments

/-- The host as `kmap_atomic_pfn` shows it, which maps every page frame where it is. -/
def mappedHost (memory : Nat → UInt8) : HostMemory :=
  { pfnValid := fun _ => true, word := fun a => Bytes.readLe memory a 8 }

/-- The loop of `__prp_transfer_data` from the buffer, which has `size` bytes, to the PRPs. Page frames
are not checked: one that is not valid is behind the end of their array. -/
def prpTransferLoop (pfnValid : Nat → Bool) (cmd : NvmeSqe) (buffer : Nat → UInt8) (size : Nat) :
    Nat → PrpCursor → Nat → Nat → (Nat → UInt8) → Except IoFault (Nat → UInt8)
  | 0, _, _, _, _ => .error .endless
  | fuel + 1, cursor, offset, remaining, memory =>
    if remaining = 0 then .ok memory
    else do
      let (paddr, cursor) ← cursor.next (mappedHost memory) cmd remaining
      require (cursor.paddrList.isSome → pfnValid (cmd.prp2 / pageSize) = true) .outOfRange
      require (pfnValid (paddr / pageSize) = true) .outOfRange
      let ioSize := ioSizeAt paddr remaining
      require (offset + ioSize ≤ size) .outOfRange
      prpTransferLoop pfnValid cmd buffer size fuel cursor (offset + ioSize) (remaining - ioSize)
        (copy buffer memory ((List.range ioSize).map fun i => (paddr + i, offset + i)))

/-- `__prp_transfer_data` with `io == 0`. -/
def prpTransferData (pfnValid : Nat → Bool) (cmd : NvmeSqe) (buffer : Nat → UInt8)
    (size length : Nat) (memory : Nat → UInt8) : Except IoFault (Nat → UInt8) :=
  prpTransferLoop pfnValid cmd buffer size (length + 1) .start 0 length memory

/-- The PRPs of a command name a buffer of `length` bytes: it starts at PRP1 and goes on in `pages`,
which PRP2 is, or lists in a page that the list does not leave. -/
structure NvmeSqe.Names (cmd : NvmeSqe) (pfnValid : Nat → Bool) (memory : Nat → UInt8)
    (length : Nat) (pages : List Nat) : Prop where
  prp1 : pfnValid (cmd.prp1 / pageSize) = true
  count : pages.length = (length - (pageSize - cmd.prp1 % pageSize) + (pageSize - 1)) / pageSize
  aligned : ∀ p ∈ pages, p % pageSize = 0 ∧ pfnValid (p / pageSize) = true
  page : ∀ p, pages = [p] → cmd.prp2 = p
  list : 2 ≤ pages.length → pfnValid (cmd.prp2 / pageSize) = true ∧
    cmd.prp2 % pageSize + 8 * pages.length ≤ pageSize ∧
    ∀ j < pages.length, Bytes.readLe memory (cmd.prp2 + 8 * j) 8 = pages.getD j 0
  once : ∀ i < length, ∀ j < length,
    bufferByte cmd.prp1 cmd.prp1 pages i = bufferByte cmd.prp1 cmd.prp1 pages j → i = j
  apart : 2 ≤ pages.length → ∀ i < length, ∀ j < 8 * pages.length,
    bufferByte cmd.prp1 cmd.prp1 pages i ≠ cmd.prp2 + j

variable {pfnValid : Nat → Bool} {cmd : NvmeSqe} {cursor cursor' : PrpCursor} {buffer : Nat → UInt8}
  {memory : Nat → UInt8} {pages : List Nat} {fuel k length list o paddr r size : Nat}

/-! ## Rounds -/

/-- A round. -/
theorem prpTransferLoop_round (hr : r ≠ 0)
    (hnext : cursor.next (mappedHost memory) cmd r = .ok (paddr, cursor'))
    (hlist : cursor'.paddrList.isSome → pfnValid (cmd.prp2 / pageSize) = true)
    (hpage : pfnValid (paddr / pageSize) = true) (hsize : o + ioSizeAt paddr r ≤ size) :
    prpTransferLoop pfnValid cmd buffer size (fuel + 1) cursor o r memory =
      prpTransferLoop pfnValid cmd buffer size fuel cursor' (o + ioSizeAt paddr r)
        (r - ioSizeAt paddr r)
        (copy buffer memory ((List.range (ioSizeAt paddr r)).map fun i => (paddr + i, o + i))) := by
  rw [prpTransferLoop, if_neg hr, hnext, ok_bind]
  dsimp only
  rw [require_pos hlist, ok_bind, require_pos hpage, ok_bind, require_pos hsize, ok_bind]

/-- The copies of all rounds. -/
def pageCopies (o r : Nat) (prps : List Nat) : List (Nat × Nat) :=
  (lay o (segments id r prps)).map Prod.swap

theorem pageCopies_cons (o r paddr : Nat) (prps : List Nat) :
    pageCopies o r (paddr :: prps) =
      ((List.range (ioSizeAt paddr r)).map fun i => (paddr + i, o + i)) ++
        pageCopies (o + ioSizeAt paddr r) (r - ioSizeAt paddr r) prps := by
  rw [pageCopies, segments, lay, List.map_append, List.map_map]
  rfl

/-- Pages that are enough hold all bytes. -/
theorem total_pages (hpages : ∀ p ∈ pages, p % pageSize = 0) (hr : r ≤ pages.length * pageSize) :
    total (segments id r pages) = r := by
  induction pages generalizing r with
  | nil =>
    rw [List.length_nil] at hr
    rw [segments, total_nil]
    omega
  | cons p pages ih =>
    obtain ⟨hmod, hrest⟩ := List.forall_mem_cons.mp hpages
    rw [List.length_cons, Nat.add_one_mul] at hr
    have hcut := ioSizeAt_eq p r
    rw [hmod, Nat.sub_zero] at hcut
    rw [segments, total_cons, ih hrest (by omega)]
    exact Nat.add_sub_cancel' ioSizeAt_le

/-- A copy elsewhere leaves a word alone. -/
theorem readLe_copy {l : List (Nat × Nat)} {a : Nat} (h : ∀ x ∈ l, ∀ i < 8, x.1 ≠ a + i) :
    Bytes.readLe (copy buffer memory l) a 8 = Bytes.readLe memory a 8 := by
  apply Bytes.readLe_congr
  intro i hi
  induction l generalizing memory with
  | nil => rfl
  | cons x l ih =>
    obtain ⟨hx, hrest⟩ := List.forall_mem_cons.mp h
    change copy buffer (Function.update memory x.1 (buffer x.2)) l (a + i) = _
    rw [ih hrest, Function.update_of_ne (hx i hi).symm]

/-- The rounds over a list of pages. -/
theorem prpTransferLoop_list (hoffs : 2 ≤ cursor.prpOffs) (hlist : cursor.paddrList = some list)
    (hk : cursor.prp2Offs = k) (hvalid : pfnValid (cmd.prp2 / pageSize) = true)
    (hpages : ∀ p ∈ pages, p % pageSize = 0 ∧ pfnValid (p / pageSize) = true)
    (hr : r ≤ pages.length * pageSize) (hmany : (pages.length - 1) * pageSize < r ∨ pages = [])
    (hword : ∀ j < pages.length, Bytes.readLe memory (list + 8 * (k + j)) 8 = pages.getD j 0)
    (hapart : ∀ x ∈ pageCopies o r pages, ∀ j < pages.length, ∀ i < 8,
      x.1 ≠ list + 8 * (k + j) + i)
    (hsize : o + r ≤ size) (hfuel : pages.length < fuel) :
    prpTransferLoop pfnValid cmd buffer size fuel cursor o r memory =
      .ok (copy buffer memory (pageCopies o r pages)) := by
  obtain ⟨fuel, rfl⟩ : ∃ f, fuel = f + 1 := ⟨fuel - 1, by omega⟩
  induction pages generalizing cursor fuel k o r memory with
  | nil =>
    rw [List.length_nil, Nat.zero_mul] at hr
    rw [prpTransferLoop, if_pos (by omega)]
    rfl
  | cons p pages ih =>
    have hpos := pageSize_pos
    obtain ⟨⟨hmod, hp⟩, hrest⟩ := List.forall_mem_cons.mp hpages
    rw [List.length_cons] at hr hmany hword hapart hfuel
    rw [Nat.add_one_mul] at hr
    have hmany : pages.length * pageSize < r := by
      rcases hmany with h | h
      · rwa [Nat.add_sub_cancel] at h
      · cases h
    have hfirst : (mappedHost memory).word (list + 8 * k) = p := hword 0 (Nat.succ_pos _)
    have hnext : cursor.next (mappedHost memory) cmd r = .ok (p,
        { prpOffs := cursor.prpOffs + 1, prp2Offs := k + 1, paddrList := some list }) := by
      unfold PrpCursor.next
      dsimp only
      rw [if_neg (by omega), if_neg (by omega)]
      simp only [hlist, PrpCursor.nextEntry, hk, hfirst]
    have hcut := ioSizeAt_eq p r
    rw [hmod, Nat.sub_zero] at hcut
    rw [pageCopies_cons] at hapart ⊢
    have hle := @ioSizeAt_le p r
    rw [prpTransferLoop_round (by omega) hnext (fun _ => hvalid) hp (by omega)]
    rw [copy_append]
    obtain ⟨fuel, rfl⟩ : ∃ f, fuel = f + 1 := ⟨fuel - 1, by omega⟩
    refine ih (Nat.le_succ_of_le hoffs) rfl rfl hrest (by omega) ?_ (fun j hj => ?_)
      (fun x hx j hj i hi => ?_) (by omega) fuel (by omega)
    · cases pages with
      | nil => exact Or.inr rfl
      | cons q pages =>
        left
        rw [List.length_cons, Nat.add_one_mul] at hmany
        rw [List.length_cons, Nat.add_sub_cancel]
        omega
    · have hkj : k + 1 + j = k + (j + 1) := by omega
      rw [readLe_copy, hkj]
      · exact hword (j + 1) (Nat.succ_lt_succ hj)
      · rw [hkj]
        exact fun x hx => hapart x (List.mem_append_left _ hx) (j + 1) (Nat.succ_lt_succ hj)
    · have hkj : k + 1 + j = k + (j + 1) := by omega
      rw [hkj]
      exact hapart x (List.mem_append_right _ hx) (j + 1) (Nat.succ_lt_succ hj) i hi

/-! ## The whole transfer -/

theorem prpListAt_mapped (memory : Nat → UInt8) (paddr : Nat) :
    (mappedHost memory).prpListAt paddr = paddr := Nat.div_add_mod' paddr pageSize

namespace NvmeSqe.Names

/-- What PRP1 leaves is for the pages behind it. -/
theorem rest_le (h : cmd.Names pfnValid memory length pages) :
    length - ioSizeAt cmd.prp1 length ≤ pages.length * pageSize ∧
      ((pages.length - 1) * pageSize < length - ioSizeAt cmd.prp1 length ∨ pages = []) := by
  have hcount := h.count
  rw [ioSizeAt_eq]
  refine ⟨?_, ?_⟩
  · rw [hcount]
    simp only [pageSize]
    omega
  · rcases Nat.eq_zero_or_pos pages.length with hzero | hpos
    · exact Or.inr (List.length_eq_zero_iff.mp hzero)
    · left
      rw [hcount] at hpos ⊢
      simp only [pageSize] at hpos ⊢
      omega

/-- The copies byte by byte. -/
theorem pageCopies_eq (h : cmd.Names pfnValid memory length pages) :
    pageCopies 0 length (cmd.prp1 :: pages) =
      (List.range length).map fun i => (bufferByte cmd.prp1 cmd.prp1 pages i, i) := by
  have hall : total (segments id length (cmd.prp1 :: pages)) = length := by
    rw [segments, total_cons, total_pages (fun p hp => (h.aligned p hp).1) h.rest_le.1]
    exact Nat.add_sub_cancel' ioSizeAt_le
  rw [pageCopies, lay_eq, hall, List.map_map]
  apply List.map_congr_left
  intro i hi
  have hplace : place (segments id length (cmd.prp1 :: pages)) i =
      bufferByte cmd.prp1 (id cmd.prp1) pages i :=
    place_buffer (fun q hq => ⟨(h.aligned q hq).1, rfl⟩) (List.mem_range.mp hi) h.rest_le.1
  rw [Function.comp_apply, Prod.swap_prod_mk, Nat.zero_add, hplace]
  rfl

/-- The rounds behind the first one. -/
theorem prpTransferLoop_rest (h : cmd.Names pfnValid memory length pages) {fuel o r : Nat}
    {memory' : Nat → UInt8} (hr : length - ioSizeAt cmd.prp1 length = r)
    (hword : 2 ≤ pages.length → ∀ j < pages.length,
      Bytes.readLe memory' (cmd.prp2 + 8 * j) 8 = pages.getD j 0)
    (hapart : 2 ≤ pages.length → ∀ x ∈ pageCopies o r pages, ∀ j < 8 * pages.length,
      x.1 ≠ cmd.prp2 + j)
    (hsize : o + r ≤ size) (hfuel : pages.length < fuel) :
    prpTransferLoop pfnValid cmd buffer size fuel ⟨1, 0, none⟩ o r memory' =
      .ok (copy buffer memory' (pageCopies o r pages)) := by
  obtain ⟨hle, hmany⟩ := h.rest_le
  rw [hr] at hle hmany
  have hpos := pageSize_pos
  obtain ⟨fuel, rfl⟩ : ∃ f, fuel = f + 1 := ⟨fuel - 1, by omega⟩
  rcases pages with _ | ⟨p, _ | ⟨q, pages⟩⟩
  · -- PRP1 is all
    rw [List.length_nil, Nat.zero_mul] at hle
    rw [prpTransferLoop, if_pos (by omega)]
    rfl
  · -- PRP2 is a page
    have hp := h.aligned p (List.mem_singleton_self p)
    have hprp2 := h.page p rfl
    rw [List.length_singleton] at hle hmany hfuel
    have hcut : ioSizeAt p r = r := by
      rw [ioSizeAt_eq, hp.1]
      omega
    have hr0 : r ≠ 0 := by
      rcases hmany with h | h
      · omega
      · cases h
    obtain ⟨fuel, rfl⟩ : ∃ f, fuel = f + 1 := ⟨fuel - 1, by omega⟩
    rw [prpTransferLoop_round hr0 (next_page _ cmd (by omega)) (fun h => by cases h)
      (by rw [hprp2]; exact hp.2) (by rw [hprp2, hcut]; exact hsize)]
    rw [hprp2, pageCopies_cons, hcut, Nat.sub_self, prpTransferLoop, if_pos rfl]
    rw [copy_append]
    rfl
  · -- PRP2 is a list
    have htwo : 2 ≤ (p :: q :: pages).length := Nat.le_add_left 2 _
    obtain ⟨hvalid, -, -⟩ := h.list htwo
    obtain ⟨⟨hmod, hp⟩, hrest⟩ := List.forall_mem_cons.mp h.aligned
    have hword := hword htwo
    have hapart := hapart htwo
    rw [List.length_cons] at hle hmany hfuel
    have hmany : (q :: pages).length * pageSize < r := by
      rcases hmany with h | h
      · rwa [Nat.add_sub_cancel] at h
      · cases h
    have hone : 1 * pageSize ≤ (q :: pages).length * pageSize :=
      Nat.mul_le_mul_right _ (Nat.le_add_left 1 _)
    have hcut : ioSizeAt p r = pageSize := by
      rw [ioSizeAt_eq, hmod]
      omega
    have hfirst : (mappedHost memory').word ((mappedHost memory').prpListAt cmd.prp2) = p := by
      rw [prpListAt_mapped]
      exact hword 0 (Nat.succ_pos _)
    have hnext := next_list (mappedHost memory') cmd (r := r) (by omega)
    rw [hfirst, prpListAt_mapped] at hnext
    rw [prpTransferLoop_round (by omega) hnext (fun _ => hvalid) hp (by omega)]
    rw [pageCopies_cons] at hapart ⊢
    rw [copy_append, hcut]
    rw [hcut] at hapart
    rw [Nat.add_one_mul] at hle
    apply prpTransferLoop_list (k := 1) (Nat.le_refl 2) rfl rfl hvalid hrest (by omega)
    · left
      rw [List.length_cons, Nat.add_one_mul] at hmany
      rw [List.length_cons, Nat.add_sub_cancel]
      omega
    · intro j hj
      have hentry : 1 + j = j + 1 := Nat.add_comm 1 j
      rw [readLe_copy, hentry]
      · exact hword (j + 1) (Nat.succ_lt_succ hj)
      · intro x hx i hi
        rw [hentry, Nat.add_assoc]
        rw [List.length_cons] at hapart
        exact hapart x (List.mem_append_left _ hx) _ (by omega)
    · intro x hx j hj i hi
      rw [Nat.add_assoc]
      rw [List.length_cons] at hapart
      exact hapart x (List.mem_append_right _ hx) _ (by omega)
    · omega
    · omega

/-- The transfer puts byte `i` of the buffer where the PRPs have it. -/
theorem prpTransferData_eq (h : cmd.Names pfnValid memory length pages) (hsize : length ≤ size) :
    prpTransferData pfnValid cmd buffer size length memory =
      .ok (copy buffer memory
        ((List.range length).map fun i => (bufferByte cmd.prp1 cmd.prp1 pages i, i))) := by
  rw [← h.pageCopies_eq]
  rcases Nat.eq_zero_or_pos length with rfl | hpos
  · rw [h.pageCopies_eq]
    rfl
  · have hcut := @ioSizeAt_pos cmd.prp1 length hpos
    have hle := @ioSizeAt_le cmd.prp1 length
    have hcount := h.rest_le
    have hsteps : pages.length < length := by
      rw [h.count]
      simp only [pageSize]
      omega
    have hfirst : PrpCursor.start.next (mappedHost memory) cmd length =
        .ok (cmd.prp1, ⟨1, 0, none⟩) := rfl
    rw [prpTransferData, prpTransferLoop_round (by omega) hfirst (fun h => by cases h) h.prp1
      (by omega)]
    have hwhere : ∀ x ∈ pageCopies 0 length (cmd.prp1 :: pages), ∃ i < length,
        x.1 = bufferByte cmd.prp1 cmd.prp1 pages i := by
      intro x hx
      rw [h.pageCopies_eq] at hx
      obtain ⟨i, hi, rfl⟩ := List.mem_map.mp hx
      exact ⟨i, List.mem_range.mp hi, rfl⟩
    rw [pageCopies_cons] at hwhere ⊢
    rw [copy_append]
    apply h.prpTransferLoop_rest rfl
    · intro htwo j hj
      rw [readLe_copy]
      · exact (h.list htwo).2.2 j hj
      · intro x hx i hi
        obtain ⟨b, hb, heq⟩ := hwhere x (List.mem_append_left _ hx)
        rw [heq, Nat.add_assoc]
        exact h.apart htwo b hb _ (by omega)
    · intro htwo x hx j hj
      obtain ⟨b, hb, heq⟩ := hwhere x (List.mem_append_right _ hx)
      rw [heq]
      exact h.apart htwo b hb j hj
    · omega
    · exact hsteps

end NvmeSqe.Names

end NvmeVirt
