import NvmeVirt.Library.Segments
import NvmeVirt.Library.Outcome
import NvmeVirt.Simple.Schedule

/-!
# The pages of a command

`__do_perform_io` and `__do_perform_io_using_dma` take the pages of the host buffer from the PRPs of
the command, one in each round of a loop. Host memory is named by physical addresses; an address
without a `struct page` is mapped by `memremap`, which returns the address of that very byte.
-/

namespace NvmeVirt

open Checked Segments

/-- `PAGE_SIZE`. -/
def pageSize : Nat := 4096

theorem pageSize_pos : 0 < pageSize := by
  simp [pageSize]

theorem mod_pageSize_lt (paddr : Nat) : paddr % pageSize < pageSize := Nat.mod_lt _ pageSize_pos

/-- What a copy does not survive. -/
inductive IoFault
  /-- `paddr_list` is read before it is set. -/
  | nullList
  /-- An index behind the end of an array. -/
  | outOfRange
  /-- A loop that does not end. -/
  | endless
  deriving DecidableEq, Repr

/-- The memory of the host: which page frames are valid, and the 64-bit word at an address. -/
structure HostMemory where
  pfnValid : Nat → Bool
  word : Nat → Nat

namespace HostMemory

/-- What `paddr_list` points to: `kmap_atomic_pfn` returns a `void *`, but what `memremap` returns is
a `u64 *` when the offset is added. -/
def prpListAt (host : HostMemory) (paddr : Nat) : Nat :=
  if host.pfnValid (paddr / pageSize) then paddr / pageSize * pageSize + paddr % pageSize
  else paddr + 8 * (paddr % pageSize)

/-- `vaddr + mem_offs`. -/
def copyAt (host : HostMemory) (paddr : Nat) : Nat :=
  (if host.pfnValid (paddr / pageSize) then paddr / pageSize * pageSize else paddr) +
    paddr % pageSize

end HostMemory

/-- `prp_offs`, `prp2_offs` and `paddr_list`. -/
structure PrpCursor where
  prpOffs : Nat
  prp2Offs : Nat
  paddrList : Option Nat

/-- At the start of a command. -/
def PrpCursor.start : PrpCursor := { prpOffs := 0, prp2Offs := 0, paddrList := none }

/-- The next entry of the list. -/
def PrpCursor.nextEntry (cursor : PrpCursor) (host : HostMemory) (list : Nat) : Nat × PrpCursor :=
  (host.word (list + 8 * cursor.prp2Offs),
    { cursor with paddrList := some list, prp2Offs := cursor.prp2Offs + 1 })

/-- `paddr` of the next round. -/
def PrpCursor.next (cursor : PrpCursor) (host : HostMemory) (cmd : NvmeSqe) (remaining : Nat) :
    Except IoFault (Nat × PrpCursor) :=
  let cursor := { cursor with prpOffs := cursor.prpOffs + 1 }
  if cursor.prpOffs = 1 then .ok (cmd.prp1, cursor)
  else if cursor.prpOffs = 2 then
    if remaining > pageSize then .ok (cursor.nextEntry host (host.prpListAt cmd.prp2))
    else .ok (cmd.prp2, cursor)
  else
    match cursor.paddrList with
    | none => .error .nullList
    | some list => .ok (cursor.nextEntry host list)

/-- `io_size`: what is left, but not beyond the end of the page. -/
def ioSizeAt (paddr remaining : Nat) : Nat :=
  let ioSize := min remaining pageSize
  if paddr % pageSize ≠ 0 ∧ ioSize + paddr % pageSize > pageSize then pageSize - paddr % pageSize
  else ioSize

/-- A copy between the storage and the memory of the host. -/
structure IoCopy where
  toStorage : Bool
  storage : Nat
  host : Nat
  size : Nat
  deriving DecidableEq, Repr

/-- `nvme_cmd_write` and `nvme_cmd_zone_append`. -/
def NvmeSqe.writes (cmd : NvmeSqe) : Bool := cmd.opcode = 0x01 || cmd.opcode = 0x7d

/-- `nvme_cmd_read`. -/
def NvmeSqe.reads (cmd : NvmeSqe) : Bool := cmd.opcode = 0x02

/-- The copy of a round, which the opcode decides on. -/
def NvmeSqe.copies (cmd : NvmeSqe) (storage host size : Nat) : List IoCopy :=
  if cmd.writes then [{ toStorage := true, storage, host, size }]
  else if cmd.reads then [{ toStorage := false, storage, host, size }]
  else []

/-- The loop of `__do_perform_io`. Storage is counted from the start of the namespace. -/
def ioLoop (host : HostMemory) (cmd : NvmeSqe) :
    Nat → PrpCursor → Nat → Nat → Except IoFault (List IoCopy)
  | 0, _, _, _ => .error .endless
  | fuel + 1, cursor, offset, remaining =>
    if remaining = 0 then .ok []
    else do
      let (paddr, cursor) ← cursor.next host cmd remaining
      let ioSize := ioSizeAt paddr remaining
      let copies ← ioLoop host cmd fuel cursor (u64 (offset + ioSize)) (remaining - ioSize)
      return cmd.copies offset (host.copyAt paddr) ioSize ++ copies

/-- `__do_perform_io`. -/
def doPerformIo (host : HostMemory) (cmd : NvmeSqe) : Except IoFault (List IoCopy) :=
  ioLoop host cmd (cmd.ioSize + 1) .start (lbaToByte cmd.slba) cmd.ioSize

/-- The loop of `__do_perform_io_using_dma` over the PRPs. -/
def prpLoop (host : HostMemory) (cmd : NvmeSqe) :
    Nat → PrpCursor → Nat → Except IoFault (List Nat)
  | 0, _, _ => .error .endless
  | fuel + 1, cursor, remaining =>
    if remaining = 0 then .ok []
    else do
      let (paddr, cursor) ← cursor.next host cmd remaining
      let prps ← prpLoop host cmd fuel cursor (remaining - ioSizeAt paddr remaining)
      return paddr :: prps

/-- The PRPs of a command. -/
def fetchPrps (host : HostMemory) (cmd : NvmeSqe) : Except IoFault (List Nat) :=
  prpLoop host cmd (cmd.ioSize + 1) .start cmd.ioSize

/-! ## Copies along the PRPs -/

variable {host : HostMemory} {cmd : NvmeSqe} {cursor : PrpCursor} {prps : List Nat}
  {fuel m n o paddr r : Nat}

theorem ioSizeAt_eq (paddr remaining : Nat) :
    ioSizeAt paddr remaining = min remaining (pageSize - paddr % pageSize) := by
  have hmod := mod_pageSize_lt paddr
  unfold ioSizeAt
  dsimp only
  split <;> omega

theorem ioSizeAt_pos (hr : 0 < r) : 0 < ioSizeAt paddr r := by
  have hmod := mod_pageSize_lt paddr
  rw [ioSizeAt_eq]
  omega

theorem ioSizeAt_le : ioSizeAt paddr r ≤ r := by
  rw [ioSizeAt_eq]
  exact Nat.min_le_left ..

/-- The segments of the buffer, at the addresses that the copies use. -/
def segments (addr : Nat → Nat) : Nat → List Nat → List (Nat × Nat)
  | _, [] => []
  | r, paddr :: prps => (addr paddr, ioSizeAt paddr r) :: segments addr (r - ioSizeAt paddr r) prps

/-- The bytes of a copy: where in the storage, and where in the memory of the host. -/
def IoCopy.bytes (x : IoCopy) : List (Nat × Nat) :=
  (List.range x.size).map fun i => (u64 (x.storage + i), u64 (x.host + i))

/-- Pairs of numbers of 64 bits. -/
def u64Pair (x : Nat × Nat) : Nat × Nat := (u64 x.1, u64 x.2)

theorem u64_u64_add (a b : Nat) : u64 (u64 a + b) = u64 (a + b) := Nat.mod_add_mod ..

/-- The fetched PRPs cover the command. -/
theorem total_segments (addr : Nat → Nat) (h : prpLoop host cmd fuel cursor r = .ok prps) :
    total (segments addr r prps) = r := by
  induction fuel generalizing cursor r prps with
  | zero => cases h
  | succ fuel ih =>
    rw [prpLoop] at h
    by_cases hr : r = 0
    · rw [if_pos hr] at h
      cases h
      exact hr.symm
    · rw [if_neg hr] at h
      obtain ⟨⟨paddr, cursor'⟩, -, h⟩ := bind_eq_ok.mp h
      obtain ⟨rest, hrest, h⟩ := bind_eq_ok.mp h
      cases h
      rw [segments, total_cons, ih hrest]
      exact Nat.add_sub_cancel' ioSizeAt_le

/-- Every round takes at least a byte. -/
theorem length_prps_le (h : prpLoop host cmd fuel cursor r = .ok prps) : prps.length ≤ r := by
  induction fuel generalizing cursor r prps with
  | zero => cases h
  | succ fuel ih =>
    rw [prpLoop] at h
    by_cases hr : r = 0
    · rw [if_pos hr] at h
      cases h
      exact Nat.zero_le _
    · rw [if_neg hr] at h
      obtain ⟨⟨paddr, cursor'⟩, -, h⟩ := bind_eq_ok.mp h
      obtain ⟨rest, hrest, h⟩ := bind_eq_ok.mp h
      cases h
      have hlength := ih hrest
      have hpos : 0 < ioSizeAt paddr r := ioSizeAt_pos (by omega)
      rw [List.length_cons]
      omega

/-- A command that reads or writes. -/
def NvmeSqe.IsRw (cmd : NvmeSqe) : Prop := cmd.writes = true ∨ cmd.reads = true

/-- A copy of a round, for a read or a write. -/
theorem copies_eq (h : cmd.IsRw) (storage host size : Nat) :
    cmd.copies storage host size = [{ toStorage := cmd.writes, storage, host, size }] := by
  unfold NvmeSqe.copies
  by_cases hw : cmd.writes = true
  · rw [if_pos hw, hw]
  · rw [if_neg hw, if_pos (h.resolve_left hw), Bool.eq_false_of_not_eq_true hw]

/-- The copies are laid over the PRPs that the loop fetches. -/
theorem ioLoop_eq (hrw : cmd.IsRw) (h : prpLoop host cmd fuel cursor r = .ok prps) :
    ∃ copies, ioLoop host cmd fuel cursor (u64 o) r = .ok copies ∧
      (∀ x ∈ copies, x.toStorage = cmd.writes) ∧
      copies.flatMap IoCopy.bytes = (lay o (segments host.copyAt r prps)).map u64Pair := by
  induction fuel generalizing cursor r prps o with
  | zero => cases h
  | succ fuel ih =>
    rw [prpLoop] at h
    rw [ioLoop]
    by_cases hr : r = 0
    · rw [if_pos hr] at h ⊢
      cases h
      exact ⟨[], rfl, by simp, rfl⟩
    · rw [if_neg hr] at h ⊢
      obtain ⟨⟨paddr, cursor'⟩, hnext, h⟩ := bind_eq_ok.mp h
      obtain ⟨rest, hrest, h⟩ := bind_eq_ok.mp h
      cases h
      obtain ⟨copies, hrun, hdir, hbytes⟩ := @ih cursor' rest (o + ioSizeAt paddr r) _ hrest
      rw [hnext, ok_bind]
      dsimp only
      rw [u64_u64_add, hrun, ok_bind, copies_eq hrw]
      refine ⟨_, rfl, ?_, ?_⟩
      · intro x hx
        rcases List.mem_cons.mp hx with rfl | hx
        · rfl
        · exact hdir x hx
      · rw [List.singleton_append, List.flatMap_cons, hbytes, segments, lay, List.map_append,
          List.map_map]
        congr 1
        apply List.map_congr_left
        intro i _
        simp only [Function.comp_apply, u64Pair, u64_u64_add]

/-! ## The buffer that the PRPs describe -/

/-- The pages of the buffer behind the first. -/
def NvmeSqe.restPages (cmd : NvmeSqe) : Nat :=
  (cmd.ioSize - (pageSize - cmd.prp1 % pageSize) + (pageSize - 1)) / pageSize

/-- PRP1 is any address; PRP2 is a page, or the address of a list of words. -/
structure NvmeSqe.ValidPrps (cmd : NvmeSqe) : Prop where
  prp1_lt : cmd.prp1 < 2 ^ 64
  prp2_lt : cmd.prp2 < 2 ^ 64
  page : cmd.restPages = 1 → cmd.prp2 % pageSize = 0
  list : 2 ≤ cmd.restPages → cmd.prp2 % 8 = 0

/-- The address of byte `i` of a buffer that starts at `first`, in the page of `prp1`. -/
def bufferByte (prp1 first : Nat) (pages : List Nat) (i : Nat) : Nat :=
  let head := pageSize - prp1 % pageSize
  if i < head then first + i
  else pages.getD ((i - head) / pageSize) 0 + (i - head) % pageSize

/-! ## The pages that are fetched -/

theorem copyAt_of_aligned (host : HostMemory) {paddr : Nat} (h : paddr % pageSize = 0) :
    host.copyAt paddr = paddr := by
  have hdiv := Nat.div_add_mod' paddr pageSize
  unfold HostMemory.copyAt
  split <;> omega

theorem copyAt_eq_iff (host : HostMemory) (paddr : Nat) :
    host.copyAt paddr = paddr ↔
      paddr % pageSize = 0 ∨ host.pfnValid (paddr / pageSize) = true := by
  have hdiv := Nat.div_add_mod' paddr pageSize
  unfold HostMemory.copyAt
  split
  · next hv => simp [hv, hdiv]
  · next hv =>
    simp only [hv, or_false, Bool.false_eq_true]
    omega

/-- A copy starts at its address exactly when no offset is added twice. -/
theorem u64_copyAt_eq_iff (host : HostMemory) (paddr : Nat) :
    u64 (host.copyAt paddr + 0) = u64 (id paddr + 0) ↔
      paddr % pageSize = 0 ∨ host.pfnValid (paddr / pageSize) = true := by
  rw [← copyAt_eq_iff]
  have hmod := mod_pageSize_lt paddr
  have hdiv := Nat.div_add_mod' paddr pageSize
  unfold HostMemory.copyAt
  simp only [u64, id, Nat.add_zero]
  by_cases hv : host.pfnValid (paddr / pageSize) = true
  · rw [if_pos hv]
    omega
  · rw [if_neg hv]
    simp only [pageSize] at *
    omega

/-- Pages that are fetched from a list. -/
theorem prpLoop_list {list k : Nat} (hoffs : 2 ≤ cursor.prpOffs) (hlist : cursor.paddrList = some list)
    (hk : cursor.prp2Offs = k) (hr : r ≤ m * pageSize) (hm : (m - 1) * pageSize < r ∨ m = 0)
    (hword : ∀ j < m, host.word (list + 8 * (k + j)) % pageSize = 0) (hfuel : m < fuel) :
    prpLoop host cmd fuel cursor r =
      .ok ((List.range m).map fun j => host.word (list + 8 * (k + j))) := by
  induction m generalizing cursor fuel k r with
  | zero =>
    obtain ⟨fuel, rfl⟩ : ∃ f, fuel = f + 1 := ⟨fuel - 1, by omega⟩
    rw [prpLoop, if_pos (by omega)]
    rfl
  | succ m ih =>
    obtain ⟨fuel, rfl⟩ : ∃ f, fuel = f + 1 := ⟨fuel - 1, by omega⟩
    simp only [Nat.add_sub_cancel, Nat.add_one_ne_zero, or_false] at hm
    rw [Nat.add_one_mul] at hr
    have hsize := pageSize_pos
    have hfirst := hword 0 (Nat.succ_pos m)
    have hcut : ioSizeAt (host.word (list + 8 * (k + 0))) r = min r pageSize := by
      rw [ioSizeAt_eq, hfirst, Nat.sub_zero]
    have hnext : cursor.next host cmd r = .ok (host.word (list + 8 * (k + 0)),
        { prpOffs := cursor.prpOffs + 1, prp2Offs := k + 1, paddrList := some list }) := by
      unfold PrpCursor.next
      dsimp only
      rw [if_neg (by omega), if_neg (by omega)]
      simp only [hlist, PrpCursor.nextEntry, hk, Nat.add_zero]
    rw [prpLoop, if_neg (by omega), hnext, ok_bind]
    dsimp only
    have hrest := @ih { prpOffs := cursor.prpOffs + 1, prp2Offs := k + 1, paddrList := some list }
      fuel (r - min r pageSize) (k + 1) (by simp only; omega) rfl rfl (by omega) ?_ ?_ (by omega)
    · rw [hcut, hrest, ok_bind, List.range_succ_eq_map, List.map_cons, List.map_map]
      congr 2
      apply List.map_congr_left
      intro j _
      simp only [Function.comp_apply]
      congr 3
      omega
    · cases m with
      | zero => exact Or.inr rfl
      | succ m =>
        left
        rw [Nat.add_sub_cancel]
        rw [Nat.add_one_mul] at hm
        omega
    · intro j hj
      have hnextWord := hword (j + 1) (Nat.succ_lt_succ hj)
      rwa [Nat.add_comm j 1, ← Nat.add_assoc] at hnextWord

/-- The pages that the loop takes from PRP2. -/
def NvmeSqe.fetched (cmd : NvmeSqe) (host : HostMemory) : List Nat :=
  if cmd.restPages ≤ 1 then List.replicate cmd.restPages cmd.prp2
  else (List.range cmd.restPages).map fun j => host.word (host.prpListAt cmd.prp2 + 8 * j)

/-- What PRP1 leaves. -/
theorem restPages_spec (cmd : NvmeSqe) :
    cmd.ioSize - ioSizeAt cmd.prp1 cmd.ioSize ≤ cmd.restPages * pageSize ∧
      ((cmd.restPages - 1) * pageSize < cmd.ioSize - ioSizeAt cmd.prp1 cmd.ioSize ∨
        cmd.restPages = 0) := by
  have hmod := mod_pageSize_lt cmd.prp1
  rw [ioSizeAt_eq, NvmeSqe.restPages]
  simp only [pageSize] at *
  omega

/-- PRP2 as a page. -/
theorem next_page (host : HostMemory) (cmd : NvmeSqe) (h : r ≤ pageSize) :
    PrpCursor.next ⟨1, 0, none⟩ host cmd r = .ok (cmd.prp2, ⟨2, 0, none⟩) := by
  unfold PrpCursor.next
  simp [Nat.not_lt.mpr h]

/-- PRP2 as a list. -/
theorem next_list (host : HostMemory) (cmd : NvmeSqe) (h : pageSize < r) :
    PrpCursor.next ⟨1, 0, none⟩ host cmd r = .ok (host.word (host.prpListAt cmd.prp2),
      ⟨2, 1, some (host.prpListAt cmd.prp2)⟩) := by
  unfold PrpCursor.next
  simp [h, PrpCursor.nextEntry]

/-- The pages behind the first one. -/
theorem prpLoop_rest (hcmd : cmd.ValidPrps) (hword : 2 ≤ cmd.restPages →
      ∀ j < cmd.restPages, host.word (host.prpListAt cmd.prp2 + 8 * j) % pageSize = 0)
    (hr : cmd.ioSize - ioSizeAt cmd.prp1 cmd.ioSize = r) (hfuel : cmd.restPages < fuel) :
    prpLoop host cmd fuel ⟨1, 0, none⟩ r = .ok (cmd.fetched host) := by
  obtain ⟨hupper, hlower⟩ := restPages_spec cmd
  rw [hr] at hupper hlower
  obtain ⟨fuel, rfl⟩ : ∃ f, fuel = f + 1 := ⟨fuel - 1, by omega⟩
  have hpos := pageSize_pos
  unfold NvmeSqe.fetched
  rcases Nat.lt_or_ge cmd.restPages 2 with hfew | hmany
  · rw [if_pos (by omega)]
    rcases Nat.eq_zero_or_pos cmd.restPages with hzero | hpos
    · rw [hzero] at hupper ⊢
      rw [prpLoop, if_pos (by omega)]
      rfl
    · have hpage : cmd.restPages = 1 := by omega
      rw [hpage] at hupper hlower hfuel ⊢
      have hcut : ioSizeAt cmd.prp2 r = r := by
        rw [ioSizeAt_eq, hcmd.page hpage]
        omega
      obtain ⟨fuel, rfl⟩ : ∃ f, fuel = f + 1 := ⟨fuel - 1, by omega⟩
      rw [prpLoop, if_neg (by omega), next_page host cmd (by omega), ok_bind]
      dsimp only
      rw [hcut, Nat.sub_self, prpLoop, if_pos rfl]
      rfl
  · rw [if_neg (by omega)]
    obtain ⟨m, hm⟩ : ∃ m, cmd.restPages = m + 1 := ⟨cmd.restPages - 1, by omega⟩
    have hword := hword hmany
    rw [hm] at hupper hlower hword hfuel ⊢
    rw [Nat.add_sub_cancel] at hlower
    rw [Nat.add_one_mul] at hupper
    have hm1 : 1 * pageSize ≤ m * pageSize := Nat.mul_le_mul_right _ (by omega)
    have hfirst : host.word (host.prpListAt cmd.prp2) % pageSize = 0 := hword 0 (Nat.succ_pos m)
    have hcut : ioSizeAt (host.word (host.prpListAt cmd.prp2)) r = pageSize := by
      rw [ioSizeAt_eq, hfirst]
      omega
    have hrest : prpLoop host cmd fuel ⟨2, 1, some (host.prpListAt cmd.prp2)⟩ (r - pageSize) =
        .ok ((List.range m).map fun j => host.word (host.prpListAt cmd.prp2 + 8 * (1 + j))) := by
      apply prpLoop_list (Nat.le_refl 2) rfl rfl (by omega) _ _ (by omega)
      · rw [Nat.sub_one_mul]
        omega
      · intro j hj
        rw [Nat.add_comm 1 j]
        exact hword (j + 1) (Nat.succ_lt_succ hj)
    rw [prpLoop, if_neg (by omega), next_list host cmd (by omega), ok_bind]
    dsimp only
    rw [hcut, hrest, ok_bind, List.range_succ_eq_map, List.map_cons, List.map_map]
    simp only [Function.comp_def, Nat.add_comm 1, Nat.succ_eq_add_one]
    rfl

theorem fetchPrps_eq (hcmd : cmd.ValidPrps) (hword : 2 ≤ cmd.restPages →
      ∀ j < cmd.restPages, host.word (host.prpListAt cmd.prp2 + 8 * j) % pageSize = 0) :
    fetchPrps host cmd = .ok (cmd.prp1 :: cmd.fetched host) := by
  have hsize := cmd.ioSize_pos
  have hfuel : cmd.restPages < cmd.ioSize := by
    have hunits : 2 ^ 9 ∣ cmd.ioSize := ⟨cmd.length + 1, by
      rw [NvmeSqe.ioSize, Nat.shiftLeft_eq, Nat.mul_comm]
      rfl⟩
    simp only [NvmeSqe.restPages, pageSize]
    omega
  have hfirst : PrpCursor.start.next host cmd cmd.ioSize = .ok (cmd.prp1, ⟨1, 0, none⟩) := rfl
  rw [fetchPrps, prpLoop, if_neg (by omega), hfirst, ok_bind]
  dsimp only
  rw [prpLoop_rest hcmd hword rfl hfuel]
  rfl

/-! ## Where the bytes are -/

/-- Byte `i` of whole pages. -/
theorem place_pages {addr : Nat → Nat} {pages : List Nat} {i : Nat}
    (haddr : ∀ p ∈ pages, p % pageSize = 0 ∧ addr p = p) (hi : i < r)
    (hr : r ≤ pages.length * pageSize) :
    place (segments addr r pages) i = pages.getD (i / pageSize) 0 + i % pageSize := by
  induction pages generalizing r i with
  | nil =>
    rw [List.length_nil] at hr
    omega
  | cons p pages ih =>
    obtain ⟨⟨hmod, hp⟩, hrest⟩ := List.forall_mem_cons.mp haddr
    have hpos := pageSize_pos
    have hcut : ioSizeAt p r = min r pageSize := by
      rw [ioSizeAt_eq, hmod, Nat.sub_zero]
    rw [List.length_cons, Nat.add_one_mul] at hr
    rw [segments, place, hcut, hp]
    split
    · next hlt =>
      have hpage : i < pageSize := by omega
      rw [Nat.div_eq_of_lt hpage, Nat.mod_eq_of_lt hpage]
      rfl
    · next hge =>
      have hmin : min r pageSize = pageSize := by omega
      rw [hmin, ih hrest (by omega) (by omega), ← Nat.mod_eq_sub_mod (by omega),
        Nat.div_eq_sub_div hpos (by omega : pageSize ≤ i), List.getD_cons_succ]

/-- Byte `i` of a buffer that starts within a page. -/
theorem place_buffer {addr : Nat → Nat} {pages : List Nat} {i p : Nat}
    (haddr : ∀ q ∈ pages, q % pageSize = 0 ∧ addr q = q) (hi : i < r)
    (hr : r - ioSizeAt p r ≤ pages.length * pageSize) :
    place (segments addr r (p :: pages)) i = bufferByte p (addr p) pages i := by
  have hcut := ioSizeAt_eq p r
  rw [segments, place, bufferByte]
  by_cases hhead : i < pageSize - p % pageSize
  · rw [if_pos (by omega), if_pos hhead]
  · have hfull : ioSizeAt p r = pageSize - p % pageSize := by omega
    rw [if_neg (by omega), if_neg hhead, hfull]
    exact place_pages haddr (by omega) (hfull ▸ hr)

theorem lbaToByte_eq (lba : Nat) : lbaToByte lba = u64 (lba * lbaSize) := by
  rw [lbaToByte, Nat.shiftLeft_eq]
  rfl

/-- What `__do_perform_io` transfers: along the pages that it fetches, from where it maps PRP1. -/
theorem doPerformIo_bytes (hrw : cmd.IsRw) (hcmd : cmd.ValidPrps) (hword : 2 ≤ cmd.restPages →
      ∀ j < cmd.restPages, host.word (host.prpListAt cmd.prp2 + 8 * j) % pageSize = 0) :
    ∃ copies, doPerformIo host cmd = .ok copies ∧ (∀ x ∈ copies, x.toStorage = cmd.writes) ∧
      copies.flatMap IoCopy.bytes = (List.range cmd.ioSize).map fun i =>
        (u64 (cmd.slba * lbaSize + i),
          u64 (bufferByte cmd.prp1 (host.copyAt cmd.prp1) (cmd.fetched host) i)) := by
  have hfetch := fetchPrps_eq hcmd hword
  obtain ⟨copies, hrun, hdir, hbytes⟩ := @ioLoop_eq host cmd .start _ (cmd.ioSize + 1)
    (cmd.slba * lbaSize) _ hrw hfetch
  refine ⟨copies, by rw [doPerformIo, lbaToByte_eq, hrun], hdir, ?_⟩
  rw [hbytes, lay_eq, total_segments _ hfetch, List.map_map]
  apply List.map_congr_left
  intro i hi
  have hlength : (cmd.fetched host).length = cmd.restPages := by
    unfold NvmeSqe.fetched
    split <;> simp
  have haligned : ∀ q ∈ cmd.fetched host, q % pageSize = 0 ∧ host.copyAt q = q := by
    intro q hq
    have hmod : q % pageSize = 0 := by
      unfold NvmeSqe.fetched at hq
      split at hq
      · obtain ⟨hne, rfl⟩ := List.mem_replicate.mp hq
        exact hcmd.page (by omega)
      · obtain ⟨j, hj, rfl⟩ := List.mem_map.mp hq
        exact hword (by omega) j (List.mem_range.mp hj)
    exact ⟨hmod, copyAt_of_aligned host hmod⟩
  simp only [Function.comp_apply, u64Pair]
  rw [place_buffer haligned (List.mem_range.mp hi)]
  rw [hlength]
  exact (restPages_spec cmd).1

end NvmeVirt
