import NvmeVirt.Io.Prps

/-!
# What the PRPs of a command stand for

PRP1 is an address within a page. PRP2 is the next page, or a list of the pages that follow, whose
last word in a page leads to the next page of the list when more are needed. `__do_perform_io`
follows the list as if it never left its page, and adds an offset twice, or eight times, to what
`memremap` returns.
-/

namespace NvmeVirt

open Checked Segments

variable {host : HostMemory} {cmd : NvmeSqe} {word : Nat → Nat} {a j m n : Nat}

/-! ## Lists -/

/-- The address of the next entry of a list with `n` entries behind it: the last word of a page leads
to the next page of the list when more entries follow. -/
def prpEntry (word : Nat → Nat) (n a : Nat) : Nat :=
  if a % pageSize = pageSize - 8 ∧ 0 < n then word a else a

/-- The `n` pages that the list at `a` names. -/
def prpList (word : Nat → Nat) : Nat → Nat → List Nat
  | 0, _ => []
  | n + 1, a => word (prpEntry word n a) :: prpList word n (prpEntry word n a + 8)

/-- The entries of the list are pages, and so is where it goes on. -/
def ValidList (word : Nat → Nat) : Nat → Nat → Prop
  | 0, _ => True
  | n + 1, a =>
    (prpEntry word n a = a ∨ (word a % pageSize = 0 ∧ word a < 2 ^ 64)) ∧
      word (prpEntry word n a) % pageSize = 0 ∧ word (prpEntry word n a) < 2 ^ 64 ∧
      ValidList word n (prpEntry word n a + 8)

/-- The list, if there is one, is in memory. -/
def NvmeSqe.ValidMemory (cmd : NvmeSqe) (word : Nat → Nat) : Prop :=
  2 ≤ cmd.restPages → ValidList word cmd.restPages cmd.prp2

/-- The pages of the buffer behind the first one. -/
def NvmeSqe.pages (cmd : NvmeSqe) (word : Nat → Nat) : List Nat :=
  if cmd.restPages ≤ 1 then List.replicate cmd.restPages cmd.prp2
  else prpList word cmd.restPages cmd.prp2

/-- Byte `i` of the command is copied to or from byte `i` of the buffer, and nothing else is. -/
structure NvmeSqe.Transfers (cmd : NvmeSqe) (word : Nat → Nat) (copies : List IoCopy) : Prop where
  dir : ∀ x ∈ copies, x.toStorage = cmd.writes
  bytes : ∀ x, x ∈ copies.flatMap IoCopy.bytes ↔
    x ∈ (List.range cmd.ioSize).map fun i =>
      (cmd.slba * lbaSize + i, bufferByte cmd.prp1 cmd.prp1 (cmd.pages word) i)

/-- The words of a list within its page. -/
theorem prpList_eq (ha : a % 8 = 0) (hn : n ≤ (pageSize - a % pageSize) / 8) :
    prpList word n a = (List.range n).map fun j => word (a + 8 * j) := by
  induction n generalizing a with
  | zero => rfl
  | succ n ih =>
    simp only [pageSize] at *
    have hentry : prpEntry word n a = a := by
      unfold prpEntry
      apply if_neg
      simp only [pageSize]
      omega
    rw [prpList, hentry, List.range_succ_eq_map, List.map_cons, List.map_map]
    congr 1
    rcases Nat.eq_zero_or_pos n with rfl | hpos
    · rfl
    · rw [ih (by omega) (by omega)]
      apply List.map_congr_left
      intro j _
      simp only [Function.comp_apply]
      congr 1
      omega

/-- In a valid list within its page every word is a page. -/
theorem ValidList.entry (h : ValidList word n a) (ha : a % 8 = 0)
    (hn : n ≤ (pageSize - a % pageSize) / 8) (hj : j < n) :
    word (a + 8 * j) % pageSize = 0 ∧ word (a + 8 * j) < 2 ^ 64 := by
  induction n generalizing a j with
  | zero => omega
  | succ n ih =>
    simp only [pageSize] at hn
    have hentry : prpEntry word n a = a := by
      unfold prpEntry
      apply if_neg
      simp only [pageSize]
      omega
    obtain ⟨-, hmod, hlt, hrest⟩ := h
    rw [hentry] at hmod hlt hrest
    cases j with
    | zero => exact ⟨hmod, hlt⟩
    | succ j =>
      have hnext := ih hrest (by omega) (by simp only [pageSize]; omega) (Nat.lt_of_succ_lt_succ hj)
      have heq : a + 8 + 8 * j = a + 8 * (j + 1) := by omega
      rwa [heq] at hnext

/-- Where every word is a page, every list is valid. -/
theorem validList_of_pages (h : ∀ a, word a % pageSize = 0 ∧ word a < 2 ^ 64) :
    ValidList word n a := by
  induction n generalizing a with
  | zero => trivial
  | succ n ih => exact ⟨Or.inr (h a), (h _).1, (h _).2, ih⟩

/-- The entry behind the end of the page is the first one of the next page of the list. -/
theorem prpList_getD (ha : a % 8 = 0) (hm : m + 1 < n)
    (hend : (a + 8 * m) % pageSize = pageSize - 8) (hlow : a % pageSize + 8 * m < pageSize) :
    (prpList word n a).getD m 0 = word (word (a + 8 * m)) := by
  induction m generalizing a n with
  | zero =>
    obtain ⟨n, rfl⟩ : ∃ k, n = k + 1 := ⟨n - 1, by omega⟩
    have hentry : prpEntry word n a = word a := if_pos ⟨hend, by omega⟩
    rw [prpList, hentry]
    rfl
  | succ m ih =>
    obtain ⟨n, rfl⟩ : ∃ k, n = k + 1 := ⟨n - 1, by omega⟩
    simp only [pageSize] at *
    have hentry : prpEntry word n a = a := by
      unfold prpEntry
      apply if_neg
      simp only [pageSize]
      omega
    have heq : a + 8 + 8 * m = a + 8 * (m + 1) := by omega
    rw [prpList, hentry, List.getD_cons_succ, ih (by omega) (by omega) (by omega) (by omega), heq]

/-! ## When the right bytes are copied -/

theorem prpListAt_eq_iff (host : HostMemory) (paddr : Nat) :
    host.prpListAt paddr = paddr ↔
      paddr % pageSize = 0 ∨ host.pfnValid (paddr / pageSize) = true := by
  have hdiv := Nat.div_add_mod' paddr pageSize
  unfold HostMemory.prpListAt
  split
  · next hv => simp [hv, hdiv]
  · next hv =>
    simp only [hv, or_false, Bool.false_eq_true]
    omega

/-- Words that are fetched where the list may lie. -/
def Fetchable (host : HostMemory) (cmd : NvmeSqe) : Prop :=
  2 ≤ cmd.restPages →
    ∀ j < cmd.restPages, host.word (host.prpListAt cmd.prp2 + 8 * j) % pageSize = 0

/-- The copies are right when no offset is truncated and each byte is where the buffer has it. -/
theorem transfers_iff (hrw : cmd.IsRw) (hcmd : cmd.ValidPrps) (hfetch : Fetchable host cmd) :
    (∃ copies, doPerformIo host cmd = .ok copies ∧ cmd.Transfers host.word copies) ↔
      cmd.slba * lbaSize + cmd.ioSize ≤ 2 ^ 64 ∧ ∀ i < cmd.ioSize,
        u64 (bufferByte cmd.prp1 (host.copyAt cmd.prp1) (cmd.fetched host) i) =
          bufferByte cmd.prp1 cmd.prp1 (cmd.pages host.word) i := by
  obtain ⟨copies, hrun, hdir, hbytes⟩ := doPerformIo_bytes hrw hcmd hfetch
  have hsize := cmd.ioSize_pos
  have hmap : cmd.slba * lbaSize + cmd.ioSize ≤ 2 ^ 64 →
      copies.flatMap IoCopy.bytes = (List.range cmd.ioSize).map fun i =>
        (cmd.slba * lbaSize + i,
          u64 (bufferByte cmd.prp1 (host.copyAt cmd.prp1) (cmd.fetched host) i)) := by
    intro hwrap
    rw [hbytes]
    apply List.map_congr_left
    intro i hi
    have hlt := List.mem_range.mp hi
    have hfits : u64 (cmd.slba * lbaSize + i) = cmd.slba * lbaSize + i :=
      Nat.mod_eq_of_lt (by omega)
    rw [hfits]
  have hinj : ∀ i < cmd.ioSize, ∀ j < cmd.ioSize,
      cmd.slba * lbaSize + i = cmd.slba * lbaSize + j → i = j := fun _ _ _ _ h =>
    Nat.add_left_cancel h
  constructor
  · rintro ⟨copies', hrun', htrans⟩
    cases hrun.symm.trans hrun'
    -- the last byte shows that no offset is truncated
    have hwrap : cmd.slba * lbaSize + cmd.ioSize ≤ 2 ^ 64 := by
      have hlast := (htrans.bytes (cmd.slba * lbaSize + (cmd.ioSize - 1), _)).mpr
        (List.mem_map.mpr ⟨cmd.ioSize - 1, List.mem_range.mpr (by omega), rfl⟩)
      rw [hbytes] at hlast
      obtain ⟨j, -, heq⟩ := List.mem_map.mp hlast
      have hfst := (Prod.mk.inj heq).1
      have hlt : u64 (cmd.slba * lbaSize + j) < 2 ^ 64 := Nat.mod_lt _ (by simp)
      omega
    have hsame := htrans.bytes
    rw [hmap hwrap] at hsame
    exact ⟨hwrap, (pairs_iff hinj).mp hsame⟩
  · rintro ⟨hwrap, hall⟩
    refine ⟨copies, hrun, hdir, ?_⟩
    rw [hmap hwrap]
    exact (pairs_iff hinj).mpr hall

/-- The first byte of a page behind the first one. -/
theorem bufferByte_page {prp1 first k : Nat} {pages : List Nat} :
    bufferByte prp1 first pages (pageSize - prp1 % pageSize + k * pageSize) = pages.getD k 0 := by
  rw [bufferByte, if_neg (by omega), Nat.add_sub_cancel_left, Nat.mul_div_cancel _ (by decide),
    Nat.mul_mod_left, Nat.add_zero]

/-- Where the copies are right, the pages fetched are those of the buffer. -/
theorem fetched_eq_of_transfers {k : Nat} (hrw : cmd.IsRw) (hcmd : cmd.ValidPrps)
    (hfetch : Fetchable host cmd)
    (htrans : ∃ copies, doPerformIo host cmd = .ok copies ∧ cmd.Transfers host.word copies)
    (hk : k < cmd.restPages) :
    u64 ((cmd.fetched host).getD k 0) = (cmd.pages host.word).getD k 0 := by
  have hall := ((transfers_iff hrw hcmd hfetch).mp htrans).2
  have hspec := restPages_spec cmd
  have hmod := mod_pageSize_lt cmd.prp1
  have hcut := ioSizeAt_eq cmd.prp1 cmd.ioSize
  have hmul : k * pageSize ≤ (cmd.restPages - 1) * pageSize := Nat.mul_le_mul_right _ (by omega)
  have hlt : pageSize - cmd.prp1 % pageSize + k * pageSize < cmd.ioSize := by omega
  have hbyte := hall _ hlt
  rwa [bufferByte_page, bufferByte_page] at hbyte

/-! ## Memories that a wrong list is noticed in -/

/-- The word at `x` names `c₂`, the first word there `c₃`, and every other word `c₁`. -/
def trap (x c₁ c₂ c₃ : Nat) (a : Nat) : Nat := if a = x then c₂ else if a = c₂ then c₃ else c₁

/-- Three pages, the second of which is not one of two given ones. -/
theorem exists_pages (p q : Nat) : ∃ c₁ c₂ c₃ : Nat, c₁ % pageSize = 0 ∧ c₂ % pageSize = 0 ∧
    c₃ % pageSize = 0 ∧ c₁ < 2 ^ 64 ∧ c₂ < 2 ^ 64 ∧ c₃ < 2 ^ 64 ∧ c₂ ≠ p ∧ c₂ ≠ q ∧
    c₁ ≠ c₂ ∧ c₃ ≠ c₁ ∧ c₃ ≠ c₂ := by
  have hfree : ∃ k, k < 3 ∧ k * pageSize ≠ p ∧ k * pageSize ≠ q := by
    simp only [pageSize]
    by_cases h0 : 0 = p ∨ 0 = q
    · by_cases h1 : 4096 = p ∨ 4096 = q
      · exact ⟨2, by omega, by omega, by omega⟩
      · exact ⟨1, by omega, by omega, by omega⟩
    · exact ⟨0, by omega, by omega, by omega⟩
  obtain ⟨k, hk, hp, hq⟩ := hfree
  refine ⟨3 * pageSize, k * pageSize, 4 * pageSize, Nat.mul_mod_left .., Nat.mul_mod_left ..,
    Nat.mul_mod_left .., ?_, ?_, ?_, hp, hq, ?_, ?_, ?_⟩
  all_goals
    simp only [pageSize]
    omega

theorem trap_page {x c₁ c₂ c₃ : Nat} (h₁ : c₁ % pageSize = 0 ∧ c₁ < 2 ^ 64)
    (h₂ : c₂ % pageSize = 0 ∧ c₂ < 2 ^ 64) (h₃ : c₃ % pageSize = 0 ∧ c₃ < 2 ^ 64) (a : Nat) :
    trap x c₁ c₂ c₃ a % pageSize = 0 ∧ trap x c₁ c₂ c₃ a < 2 ^ 64 := by
  unfold trap
  split_ifs
  · exact h₂
  · exact h₃
  · exact h₁

/-- A command whose bytes are copied right from and to every valid memory. -/
def NvmeSqe.Translated (cmd : NvmeSqe) (pfnValid : Nat → Bool) : Prop :=
  ∀ word, cmd.ValidMemory word →
    ∃ copies, doPerformIo ⟨pfnValid, word⟩ cmd = .ok copies ∧ cmd.Transfers word copies

variable {pfnValid : Nat → Bool}

/-- In a memory of pages only, the pages fetched have to be those of the buffer. -/
theorem NvmeSqe.Translated.getD_eq (h : cmd.Translated pfnValid) (hrw : cmd.IsRw)
    (hcmd : cmd.ValidPrps) (hmany : 2 ≤ cmd.restPages)
    (hword : ∀ a, word a % pageSize = 0 ∧ word a < 2 ^ 64) {k : Nat} (hk : k < cmd.restPages) :
    word (HostMemory.prpListAt ⟨pfnValid, word⟩ cmd.prp2 + 8 * k) =
      (prpList word cmd.restPages cmd.prp2).getD k 0 := by
  have heq := fetched_eq_of_transfers hrw hcmd (fun _ _ _ => (hword _).1)
    (h word fun _ => validList_of_pages hword) hk
  have hfetched : (cmd.fetched ⟨pfnValid, word⟩).getD k 0 =
      word (HostMemory.prpListAt ⟨pfnValid, word⟩ cmd.prp2 + 8 * k) := by
    rw [NvmeSqe.fetched, if_neg (by omega)]
    simp [hk]
  have hpages : cmd.pages word = prpList word cmd.restPages cmd.prp2 := if_neg (by omega)
  rw [hfetched, u64, Nat.mod_eq_of_lt (hword _).2] at heq
  rw [heq, ← hpages]

/-- A list is read where it is. -/
theorem NvmeSqe.Translated.list_eq (h : cmd.Translated pfnValid) (hrw : cmd.IsRw)
    (hcmd : cmd.ValidPrps) (hmany : 2 ≤ cmd.restPages) :
    HostMemory.prpListAt ⟨pfnValid, word⟩ cmd.prp2 = cmd.prp2 := by
  obtain ⟨A, hA⟩ : ∃ A, A = HostMemory.prpListAt ⟨pfnValid, word⟩ cmd.prp2 := ⟨_, rfl⟩
  obtain ⟨c₁, c₂, c₃, h₁, h₂, h₃, hc₁, hc₂, hc₃, hx, hq, h12, h31, h32⟩ := exists_pages cmd.prp2 A
  have hpage := @trap_page cmd.prp2 c₁ c₂ c₃ ⟨h₁, hc₁⟩ ⟨h₂, hc₂⟩ ⟨h₃, hc₃⟩
  by_contra hne
  rw [← hA] at hne
  have hhead := @NvmeSqe.Translated.getD_eq _ _ _ h hrw hcmd hmany hpage 0 (by omega)
  have hlist : HostMemory.prpListAt ⟨pfnValid, trap cmd.prp2 c₁ c₂ c₃⟩ cmd.prp2 = A := hA.symm
  have hread : trap cmd.prp2 c₁ c₂ c₃ A = c₁ := by
    rw [trap, if_neg hne, if_neg (Ne.symm hq)]
  have hlink : trap cmd.prp2 c₁ c₂ c₃ cmd.prp2 = c₂ := if_pos rfl
  have hnext : trap cmd.prp2 c₁ c₂ c₃ c₂ = c₃ := by
    rw [trap, if_neg hx, if_pos rfl]
  obtain ⟨n, hn⟩ : ∃ n, cmd.restPages = n + 1 := ⟨cmd.restPages - 1, by omega⟩
  rw [hlist, Nat.mul_zero, Nat.add_zero, hread, hn, prpList, List.getD_cons_zero] at hhead
  unfold prpEntry at hhead
  split at hhead
  · rw [hlink, hnext] at hhead
    exact h31 hhead.symm
  · rw [hlink] at hhead
    exact h12 hhead

/-- A list does not leave its page. -/
theorem NvmeSqe.Translated.restPages_le (h : cmd.Translated pfnValid) (hrw : cmd.IsRw)
    (hcmd : cmd.ValidPrps) (hmany : 2 ≤ cmd.restPages) :
    cmd.restPages ≤ (pageSize - cmd.prp2 % pageSize) / 8 := by
  have haligned := hcmd.list hmany
  by_contra hlong
  obtain ⟨m, hm⟩ : ∃ m, (pageSize - cmd.prp2 % pageSize) / 8 = m + 1 := by
    refine ⟨(pageSize - cmd.prp2 % pageSize) / 8 - 1, ?_⟩
    simp only [pageSize]
    omega
  obtain ⟨x, hx⟩ : ∃ x, x = cmd.prp2 + 8 * m := ⟨_, rfl⟩
  obtain ⟨c₁, c₂, c₃, h₁, h₂, h₃, hc₁, hc₂, hc₃, hne, -, h12, h31, h32⟩ := exists_pages x x
  have hpage := @trap_page x c₁ c₂ c₃ ⟨h₁, hc₁⟩ ⟨h₂, hc₂⟩ ⟨h₃, hc₃⟩
  have hlast := @NvmeSqe.Translated.getD_eq _ _ _ h hrw hcmd hmany hpage m (by omega)
  have hend : (cmd.prp2 + 8 * m) % pageSize = pageSize - 8 := by
    simp only [pageSize] at *
    omega
  have hlow : cmd.prp2 % pageSize + 8 * m < pageSize := by
    simp only [pageSize] at *
    omega
  have hlink : trap x c₁ c₂ c₃ x = c₂ := if_pos rfl
  have hnext : trap x c₁ c₂ c₃ c₂ = c₃ := by
    rw [trap, if_neg hne, if_pos rfl]
  rw [h.list_eq hrw hcmd hmany, prpList_getD haligned (by omega) hend hlow, ← hx, hlink,
    hnext] at hlast
  exact h32 hlast.symm

theorem bufferByte_zero (prp1 first : Nat) (pages : List Nat) :
    bufferByte prp1 first pages 0 = first := by
  have hmod := mod_pageSize_lt prp1
  rw [bufferByte, if_pos (by omega), Nat.add_zero]

/-- The copies of a command that is translated right from a memory of zeros. -/
theorem NvmeSqe.Translated.zeros (h : cmd.Translated pfnValid) (hrw : cmd.IsRw)
    (hcmd : cmd.ValidPrps) : cmd.slba * lbaSize + cmd.ioSize ≤ 2 ^ 64 ∧
      HostMemory.copyAt ⟨pfnValid, fun _ => 0⟩ cmd.prp1 = cmd.prp1 := by
  have hzero : ∀ a : Nat, (fun _ => 0 : Nat → Nat) a % pageSize = 0 ∧
      (fun _ => 0 : Nat → Nat) a < 2 ^ 64 := fun _ => ⟨rfl, by simp⟩
  have hright := h (fun _ => 0) fun _ => validList_of_pages hzero
  obtain ⟨hwrap, hall⟩ :=
    (@transfers_iff ⟨pfnValid, fun _ => 0⟩ _ hrw hcmd fun _ _ _ => rfl).mp hright
  refine ⟨hwrap, ?_⟩
  have hbyte := hall 0 cmd.ioSize_pos
  rw [bufferByte_zero, bufferByte_zero] at hbyte
  have hmod := mod_pageSize_lt cmd.prp1
  have hlt := hcmd.prp1_lt
  have hdiv := Nat.div_add_mod' cmd.prp1 pageSize
  unfold HostMemory.copyAt at hbyte ⊢
  split at hbyte
  · next hv =>
    rw [if_pos hv]
    exact hdiv
  · next hv =>
    rw [if_neg hv]
    simp only [u64, pageSize] at hbyte hmod ⊢
    omega

/-- The buffer is below the end of the address space. -/
theorem bufferByte_lt {prp1 i : Nat} {pages : List Nat} (hprp1 : prp1 < 2 ^ 64)
    (hpages : ∀ p ∈ pages, p % pageSize = 0 ∧ p < 2 ^ 64) :
    bufferByte prp1 prp1 pages i < 2 ^ 64 := by
  rw [bufferByte]
  split
  · next hi =>
    simp only [pageSize] at hi
    omega
  · generalize (i - (pageSize - prp1 % pageSize)) / pageSize = k
    have hmod := mod_pageSize_lt (i - (pageSize - prp1 % pageSize))
    by_cases hk : k < pages.length
    · obtain ⟨haligned, hlt⟩ := hpages pages[k] (List.getElem_mem hk)
      have hget : pages.getD k 0 = pages[k] := by simp [hk]
      rw [hget]
      simp only [pageSize] at *
      omega
    · have hget : pages.getD k 0 = 0 := by simp [Nat.not_lt.mp hk]
      rw [hget]
      simp only [pageSize] at *
      omega

/-- Pages of a list that is read where it is and does not leave its page. -/
theorem fetched_eq_pages (hcmd : cmd.ValidPrps)
    (hlist : 2 ≤ cmd.restPages → host.prpListAt cmd.prp2 = cmd.prp2 ∧
      cmd.restPages ≤ (pageSize - cmd.prp2 % pageSize) / 8) :
    cmd.fetched host = cmd.pages host.word := by
  unfold NvmeSqe.fetched NvmeSqe.pages
  by_cases hfew : cmd.restPages ≤ 1
  · rw [if_pos hfew, if_pos hfew]
  · obtain ⟨hat, hle⟩ := hlist (by omega)
    rw [if_neg hfew, if_neg hfew, hat, prpList_eq (hcmd.list (by omega)) hle]

/-- A read or a write is copied right from and to every valid memory exactly when its offsets are not
truncated, PRP1 is the start of a page or has a valid page frame, and a list has a valid page frame
or is the start of a page, and does not leave its page. -/
theorem prp_translation_iff (hrw : cmd.IsRw) (hcmd : cmd.ValidPrps) (pfnValid : Nat → Bool) :
    cmd.Translated pfnValid ↔ cmd.slba * lbaSize + cmd.ioSize ≤ 2 ^ 64 ∧
      (cmd.prp1 % pageSize = 0 ∨ pfnValid (cmd.prp1 / pageSize) = true) ∧
      (2 ≤ cmd.restPages →
        (cmd.prp2 % pageSize = 0 ∨ pfnValid (cmd.prp2 / pageSize) = true) ∧
        cmd.restPages ≤ (pageSize - cmd.prp2 % pageSize) / 8) := by
  constructor
  · intro h
    obtain ⟨hwrap, hcopy⟩ := h.zeros hrw hcmd
    refine ⟨hwrap, (copyAt_eq_iff _ _).mp hcopy, fun hmany => ⟨?_, h.restPages_le hrw hcmd hmany⟩⟩
    exact (prpListAt_eq_iff ⟨pfnValid, fun _ => 0⟩ _).mp (h.list_eq hrw hcmd hmany)
  · rintro ⟨hwrap, hprp1, hlist⟩ word hmem
    have hat : 2 ≤ cmd.restPages → HostMemory.prpListAt ⟨pfnValid, word⟩ cmd.prp2 = cmd.prp2 :=
      fun hmany => (prpListAt_eq_iff _ _).mpr (hlist hmany).1
    have hentry : 2 ≤ cmd.restPages → ∀ j < cmd.restPages,
        word (cmd.prp2 + 8 * j) % pageSize = 0 ∧ word (cmd.prp2 + 8 * j) < 2 ^ 64 :=
      fun hmany j hj => (hmem hmany).entry (hcmd.list hmany) (hlist hmany).2 hj
    have hfetch : Fetchable ⟨pfnValid, word⟩ cmd := by
      intro hmany j hj
      rw [hat hmany]
      exact (hentry hmany j hj).1
    have hpages : cmd.fetched ⟨pfnValid, word⟩ = cmd.pages word :=
      @fetched_eq_pages ⟨pfnValid, word⟩ _ hcmd fun hmany => ⟨hat hmany, (hlist hmany).2⟩
    have hvalid : ∀ p ∈ cmd.pages word, p % pageSize = 0 ∧ p < 2 ^ 64 := by
      intro p hp
      unfold NvmeSqe.pages at hp
      split at hp
      · obtain ⟨hne, rfl⟩ := List.mem_replicate.mp hp
        exact ⟨hcmd.page (by omega), hcmd.prp2_lt⟩
      · rw [prpList_eq (hcmd.list (by omega)) (hlist (by omega)).2] at hp
        obtain ⟨j, hj, rfl⟩ := List.mem_map.mp hp
        exact hentry (by omega) j (List.mem_range.mp hj)
    apply (@transfers_iff ⟨pfnValid, word⟩ _ hrw hcmd hfetch).mpr
    refine ⟨hwrap, fun i _ => ?_⟩
    rw [(copyAt_eq_iff ⟨pfnValid, word⟩ _).mpr hprp1, hpages]
    exact Nat.mod_eq_of_lt (bufferByte_lt hcmd.prp1_lt hvalid)

/-- A read of `blocks` blocks from the start of the namespace. -/
def readBlocks (prp1 prp2 blocks : Nat) : NvmeSqe where
  opcode := 0x02
  commandId := 0
  nsid := 1
  prp1 := prp1
  prp2 := prp2
  cdw10 := 0
  cdw11 := 0
  cdw12 := blocks - 1

/-- A buffer of three pages and a part of a fourth, listed from the start of a page. -/
theorem prp_translation_listed :
    let cmd := readBlocks 0x1010 0x8000 25
    cmd.Translated (fun _ => true) ↔ cmd.slba * lbaSize + cmd.ioSize ≤ 2 ^ 64 ∧
      (cmd.prp1 % pageSize = 0 ∨ (fun _ => true : Nat → Bool) (cmd.prp1 / pageSize) = true) ∧
      (2 ≤ cmd.restPages →
        (cmd.prp2 % pageSize = 0 ∨ (fun _ => true : Nat → Bool) (cmd.prp2 / pageSize) = true) ∧
        cmd.restPages ≤ (pageSize - cmd.prp2 % pageSize) / 8) :=
  prp_translation_iff (Or.inr (by decide)) ⟨by decide, by decide, by decide, by decide⟩ _

/-- Without valid page frames a buffer that starts at `0x1010` is copied from `0x1020` on, and the
list at `0x2008` is read from `0x2048` on. With valid ones the link at the end of the page of a list,
to its page at `0x3000`, is taken for a page of the buffer. -/
theorem prp_translation_wrong :
    (doPerformIo ⟨fun _ => false, fun _ => 0⟩ (readBlocks 0x1010 0 1) =
        .ok [⟨false, 0, 0x1020, 512⟩] ∧
      ¬ (readBlocks 0x1010 0 1).Translated fun _ => false) ∧
    (doPerformIo ⟨fun _ => false, fun a => 4096 * a⟩ (readBlocks 0x1000 0x2008 24) =
        .ok [⟨false, 0, 0x1000, 4096⟩, ⟨false, 4096, 4096 * 0x2048, 4096⟩,
          ⟨false, 8192, 4096 * 0x2050, 4096⟩] ∧
      ¬ (readBlocks 0x1000 0x2008 24).Translated fun _ => false) ∧
    (doPerformIo ⟨fun _ => true, fun a => if a = 0x2ff8 then 0x3000 else 4096 * a⟩
        (readBlocks 0x1000 0x2ff8 24) =
        .ok [⟨false, 0, 0x1000, 4096⟩, ⟨false, 4096, 0x3000, 4096⟩,
          ⟨false, 8192, 4096 * 0x3000, 4096⟩] ∧
      ¬ (readBlocks 0x1000 0x2ff8 24).Translated fun _ => true) := by
  refine ⟨⟨by decide +kernel, fun h => ?_⟩, ⟨by decide +kernel, fun h => ?_⟩,
    by decide +kernel, fun h => ?_⟩
  · have hcopy := (h.zeros (Or.inr (by decide))
      ⟨by decide, by decide, by decide, by decide⟩).2
    revert hcopy
    decide
  · have hlist := @NvmeSqe.Translated.list_eq _ (fun _ => 0) _ h (Or.inr (by decide))
      ⟨by decide, by decide, by decide, by decide⟩ (by decide)
    revert hlist
    decide
  · have hle := h.restPages_le (Or.inr (by decide)) ⟨by decide, by decide, by decide, by decide⟩
      (by decide)
    revert hle
    decide

end NvmeVirt
