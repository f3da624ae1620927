import NvmeVirt.Conv.Layout
import NvmeVirt.Library.Tally

/-!
# Counters of pages, blocks and lines

The redundant counters of one pool. A block counts its own pages; a line sums its
blocks; what else a line satisfies depends on where it is, which a ghost label says.
For the line being written, the pages of rank below `w` are exactly those that are no
longer free. Each store of the translation layer is shown to keep these facts.
-/

namespace NvmeVirt

open Tally

/-- Where a line is. -/
inductive LineClass
  | free
  | current
  | full
  | victim
  | collecting
  deriving DecidableEq

/-- The status of a page of a block. -/
def NandBlock.statusAt (b : NandBlock) (i : Nat) : PageStatus := (b.pg i).status

/-- The address of the block of line `l` on the die `d.2` of channel `d.1`. -/
def lineAddr (l : Nat) (d : Nat × Nat) : BlkAddr := { blk := l, pl := 0, lun := d.2, ch := d.1 }

theorem lineAddr_inj {l l' : Nat} {d d' : Nat × Nat} :
    lineAddr l d = lineAddr l' d' ↔ l = l' ∧ d = d' := by
  simp [lineAddr, Prod.ext_iff, and_comm]

/-! ## One block -/

/-- A block of `n` pages with exact counters. -/
structure BlockOk (n : Nat) (b : NandBlock) : Prop where
  npgs : b.npgs = n
  nsecs : ∀ i, (b.pg i).nsecs = 8
  vpc : b.vpc = tally n b.statusAt .valid
  ipc : b.ipc = tally n b.statusAt .invalid
  /-- Pages that the page field of an address cannot name are never written. -/
  narrow : ∀ i, 2 ^ pageBits ≤ i → b.statusAt i = .free

namespace NandBlock

theorem statusAt_invalidate (b : NandBlock) (i : Nat) :
    (b.invalidate i).statusAt = Function.update b.statusAt i .invalid := by
  ext j : 1
  by_cases h : j = i
  · subst h
    simp [statusAt, invalidate, setStatus]
  · simp [statusAt, invalidate, setStatus, h]

theorem statusAt_validate (b : NandBlock) (i : Nat) :
    (b.validate i).statusAt = Function.update b.statusAt i .valid := by
  ext j : 1
  by_cases h : j = i
  · subst h
    simp [statusAt, validate, setStatus]
  · simp [statusAt, validate, setStatus, h]

theorem statusAt_free (b : NandBlock) {n i : Nat} (h : i < n) : (b.free n).statusAt i = .free := by
  simp [statusAt, free, h]

theorem nsecs_setStatus (b : NandBlock) (i j : Nat) (st : PageStatus) :
    (b.setStatus i st j).nsecs = (b.pg j).nsecs := by
  by_cases h : j = i
  · subst h
    simp [setStatus]
  · simp [setStatus, h]

end NandBlock

namespace BlockOk

variable {n i : Nat} {b : NandBlock}

/-- The three counts fill the block. -/
theorem sum_eq (h : BlockOk n b) : b.vpc + b.ipc + tally n b.statusAt .free = n := by
  rw [h.vpc, h.ipc]
  exact tally_add_add (by simp) (by simp) (by simp) (by rintro (_ | _ | _) <;> simp) n _

theorem vpc_pos (h : BlockOk n b) (hi : i < n) (hs : b.statusAt i = .valid) : 0 < b.vpc := by
  rw [h.vpc]
  exact tally_pos hi hs

theorem ipc_lt (h : BlockOk n b) (hi : i < n) (hs : b.statusAt i ≠ .invalid) : b.ipc < n := by
  rw [h.ipc]
  exact tally_lt hi hs

theorem vpc_lt (h : BlockOk n b) (hi : i < n) (hs : b.statusAt i ≠ .valid) : b.vpc < n := by
  rw [h.vpc]
  exact tally_lt hi hs

/-- A block without valid or invalid pages is free. -/
theorem status_free (h : BlockOk n b) (hv : b.vpc = 0) (hp : b.ipc = 0) (hi : i < n) :
    b.statusAt i = .free := by
  by_contra hne
  have hsum := h.sum_eq
  have := tally_lt hi hne
  omega

/-- A block whose counts fill it has no free page. -/
theorem status_ne_free (h : BlockOk n b) (hs : b.vpc + b.ipc = n) (hi : i < n) :
    b.statusAt i ≠ .free := by
  intro hf
  have hsum := h.sum_eq
  have := tally_pos hi hf
  omega

/-- `mark_page_invalid` on a block. -/
theorem invalidate (h : BlockOk n b) (hi : i < n) (hs : b.statusAt i = .valid) :
    BlockOk n (b.invalidate i) := by
  have hv := tally_update b.statusAt .invalid .valid hi
  have hp := tally_update b.statusAt .invalid .invalid hi
  have hpos := h.vpc_pos hi hs
  simp only [hs, if_true, reduceCtorEq, if_false] at hv hp
  refine ⟨h.npgs, fun j => (b.nsecs_setStatus i j _).trans (h.nsecs j), ?_, ?_, fun j hj => ?_⟩
  · show b.vpc - 1 = _
    rw [b.statusAt_invalidate, h.vpc]
    omega
  · show b.ipc + 1 = _
    rw [b.statusAt_invalidate, h.ipc]
    omega
  · rw [b.statusAt_invalidate, Function.update_of_ne, h.narrow j hj]
    rintro rfl
    rw [h.narrow j hj] at hs
    cases hs

/-- `mark_page_valid` on a block. -/
theorem validate (h : BlockOk n b) (hi : i < n) (hi' : i < 2 ^ pageBits)
    (hs : b.statusAt i = .free) : BlockOk n (b.validate i) := by
  have hv := tally_update b.statusAt .valid .valid hi
  have hp := tally_update b.statusAt .valid .invalid hi
  simp only [hs, if_true, reduceCtorEq, if_false] at hv hp
  refine ⟨h.npgs, fun j => (b.nsecs_setStatus i j _).trans (h.nsecs j), ?_, ?_, fun j hj => ?_⟩
  · show b.vpc + 1 = _
    rw [b.statusAt_validate, h.vpc]
    omega
  · show b.ipc = _
    rw [b.statusAt_validate, h.ipc]
    omega
  · rw [b.statusAt_validate, Function.update_of_ne (by omega), h.narrow j hj]

/-- `mark_block_free` on a block. -/
theorem free (h : BlockOk n b) : BlockOk n (b.free n) := by
  refine ⟨h.npgs, fun j => ?_, ?_, ?_, fun j hj => ?_⟩
  · by_cases hj : j < n <;> simp [NandBlock.free, hj, h.nsecs]
  · exact (tally_eq_zero fun i hi => by simp [b.statusAt_free hi]).symm
  · exact (tally_eq_zero fun i hi => by simp [b.statusAt_free hi]).symm
  · by_cases hn : j < n
    · exact b.statusAt_free hn
    · have := h.narrow j hj
      simpa [NandBlock.statusAt, NandBlock.free, hn] using this

end BlockOk

/-! ## The lines of a pool -/

/-- The dies of a device: channel and die number. -/
def Geometry.dies (g : Geometry) : Finset (Nat × Nat) := Finset.range g.nchs ×ˢ Finset.range g.luns

theorem Geometry.mem_dies {g : Geometry} {d : Nat × Nat} :
    d ∈ g.dies ↔ d.1 < g.nchs ∧ d.2 < g.luns := by
  simp [Geometry.dies]

theorem Geometry.dies_card_mul (g : Geometry) (m : LineMode) :
    g.dies.card * g.pgsPerBlk m = g.pgsPerLine m := by
  simp only [Geometry.dies, Finset.card_product, Finset.card_range, Geometry.pgsPerLine]
  ring

/-- What the label of a line says about its counters, for lines of `n` pages. -/
def LineFact (n w : Nat) (line : Line) : LineClass → Prop
  | .free => line.vpc = 0 ∧ line.ipc = 0
  | .current => line.vpc + line.ipc = w
  | .full => line.vpc = n ∧ line.ipc = 0
  | .victim => line.vpc + line.ipc = n ∧ 0 < line.ipc
  | .collecting => True

/-- The line `l` of the pool `m` has the blocks `blks` and the label `c`; when it is being
written, `w` of its pages are. -/
structure LineOk (g : Geometry) (m : LineMode) (c : LineClass) (w l : Nat)
    (blks : Nat × Nat → NandBlock) (line : Line) : Prop where
  id : line.id = l
  blocks : ∀ d ∈ g.dies, BlockOk (g.pgsPerBlk m) (blks d)
  vpc : c ≠ .collecting → line.vpc = ∑ d ∈ g.dies, (blks d).vpc
  ipc : c ≠ .collecting → line.ipc = ∑ d ∈ g.dies, (blks d).ipc
  fact : LineFact (g.pgsPerLine m) w line c
  written : c = .current → ∀ d ∈ g.dies, ∀ pg < g.pgsPerBlk m,
    ((blks d).statusAt pg ≠ .free ↔ g.rank m d.1 d.2 pg < w)

namespace LineOk

variable {g : Geometry} {m : LineMode} {c : LineClass} {w w' l : Nat}
  {blks : Nat × Nat → NandBlock} {line line' : Line} {d : Nat × Nat} {pg : Nat}

/-- Only the counters of the line and, while it is being written, `w` matter. -/
theorem congr (h : LineOk g m c w l blks line) (hid : line'.id = line.id)
    (hv : line'.vpc = line.vpc) (hp : line'.ipc = line.ipc) (hw : c = .current → w' = w) :
    LineOk g m c w' l blks line' := by
  refine ⟨hid.trans h.id, h.blocks, fun hc => hv.trans (h.vpc hc), fun hc => hp.trans (h.ipc hc),
    ?_, fun hc => hw hc ▸ h.written hc⟩
  have hf := h.fact
  cases c <;> simp_all [LineFact]

/-- The counts of a line never exceed its pages. -/
theorem sum_le (h : LineOk g m c w l blks line) (hc : c ≠ .collecting) :
    line.vpc + line.ipc ≤ g.pgsPerLine m := by
  rw [h.vpc hc, h.ipc hc, ← Finset.sum_add_distrib, ← g.dies_card_mul m]
  apply sum_le_card_mul
  intro d hd
  have := (h.blocks d hd).sum_eq
  omega

/-- A line whose counts fill it has no free page. -/
theorem status_ne_free (h : LineOk g m c w l blks line) (hc : c ≠ .collecting)
    (hs : line.vpc + line.ipc = g.pgsPerLine m) (hd : d ∈ g.dies) (hpg : pg < g.pgsPerBlk m) :
    (blks d).statusAt pg ≠ .free := by
  rw [h.vpc hc, h.ipc hc, ← Finset.sum_add_distrib, ← g.dies_card_mul m] at hs
  refine (h.blocks d hd).status_ne_free ?_ hpg
  refine eq_of_sum_eq (fun d hd => ?_) hs hd
  have := (h.blocks d hd).sum_eq
  omega

/-- Only a block that the page field can address is ever filled. -/
theorem pgsPerBlk_le (h : LineOk g m c w l blks line) (hc : c ≠ .collecting)
    (hs : line.vpc + line.ipc = g.pgsPerLine m) : g.pgsPerBlk m ≤ 2 ^ pageBits := by
  by_contra hlt
  have hd : (0, 0) ∈ g.dies := g.mem_dies.mpr ⟨g.nchs_pos, g.luns_pos⟩
  exact h.status_ne_free hc hs hd (Nat.lt_of_not_le hlt) ((h.blocks _ hd).narrow _ (Nat.le_refl _))

/-- A free line has only free pages. -/
theorem status_free (h : LineOk g m .free w l blks line) (hd : d ∈ g.dies)
    (hpg : pg < g.pgsPerBlk m) : (blks d).statusAt pg = .free := by
  obtain ⟨hv, hp⟩ := h.fact
  rw [h.vpc (by simp), Finset.sum_eq_zero_iff] at hv
  rw [h.ipc (by simp), Finset.sum_eq_zero_iff] at hp
  exact (h.blocks d hd).status_free (hv d hd) (hp d hd) hpg

/-- A line with a valid page counts it. -/
theorem vpc_pos (h : LineOk g m c w l blks line) (hc : c ≠ .collecting) (hd : d ∈ g.dies)
    (hpg : pg < g.pgsPerBlk m) (hs : (blks d).statusAt pg = .valid) : 0 < line.vpc := by
  rw [h.vpc hc]
  exact ((h.blocks d hd).vpc_pos hpg hs).trans_le
    (Finset.single_le_sum (f := fun d => (blks d).vpc) (fun _ _ => Nat.zero_le _) hd)

/-- Only a full line consists of valid pages, as long as the current line has a free page. -/
theorem vpc_eq_iff (h : LineOk g m c w l blks line) (hc : c ≠ .collecting)
    (hpos : 0 < line.vpc) (hw : c = .current → w < g.pgsPerLine m) :
    line.vpc = g.pgsPerLine m ↔ c = .full := by
  have hf := h.fact
  cases c <;> simp only [LineFact] at hf <;> simp only [reduceCtorEq, iff_false, iff_true]
  · omega
  · have := hw rfl
    omega
  · exact hf.1
  · omega
  · exact absurd rfl hc

/-! ## What the stores do to a line -/

/-- The label of a line after one of its pages became invalid. -/
def invalidClass : LineClass → LineClass
  | .full => .victim
  | c => c

/-- A sum over the dies after a store to one block. -/
theorem sum_store (blks : Nat × Nat → NandBlock) (f : NandBlock → Nat) (b : NandBlock) (hd : d ∈ g.dies) :
    ∑ d' ∈ g.dies, f (Function.update blks d b d') + f (blks d) =
      ∑ d' ∈ g.dies, f (blks d') + f b := by
  have h := sum_change (f := fun d' => f (blks d')) (g := fun d' => f (Function.update blks d b d'))
    hd fun d' _ hne => by rw [Function.update_of_ne hne]
  simpa using h

theorem blocks_store (h : LineOk g m c w l blks line) {b : NandBlock}
    (hb : BlockOk (g.pgsPerBlk m) b) :
    ∀ d' ∈ g.dies, BlockOk (g.pgsPerBlk m) (Function.update blks d b d') := by
  intro d' hd'
  by_cases he : d' = d
  · subst he
    rwa [Function.update_self]
  · rw [Function.update_of_ne he]
    exact h.blocks d' hd'

/-- `mark_page_invalid` on a line. -/
theorem invalidate (h : LineOk g m c w l blks line) (hc : c ≠ .collecting) (hd : d ∈ g.dies)
    (hpg : pg < g.pgsPerBlk m) (hs : (blks d).statusAt pg = .valid) (line' : Line)
    (hid : line'.id = line.id) (hv : line'.vpc = line.vpc - 1) (hp : line'.ipc = line.ipc + 1) :
    LineOk g m (invalidClass c) w l (Function.update blks d ((blks d).invalidate pg)) line' := by
  have hpos := h.vpc_pos hc hd hpg hs
  have hbpos := (h.blocks d hd).vpc_pos hpg hs
  have hsv := sum_store blks NandBlock.vpc ((blks d).invalidate pg) hd
  have hsp := sum_store blks NandBlock.ipc ((blks d).invalidate pg) hd
  have hv' : ((blks d).invalidate pg).vpc = (blks d).vpc - 1 := rfl
  have hp' : ((blks d).invalidate pg).ipc = (blks d).ipc + 1 := rfl
  have hlv := h.vpc hc
  have hlp := h.ipc hc
  refine ⟨hid.trans h.id, h.blocks_store ((h.blocks d hd).invalidate hpg hs), fun _ => by omega,
    fun _ => by omega, ?_, ?_⟩
  · have hf := h.fact
    cases c <;> simp only [LineFact, invalidClass] at hf ⊢ <;> omega
  · intro hcur d' hd' pg' hpg'
    have hc' : c = .current := by
      cases c <;> simp_all [invalidClass]
    rw [← h.written hc' d' hd' pg' hpg']
    by_cases he : d' = d
    · subst he
      rw [Function.update_self, NandBlock.statusAt_invalidate]
      by_cases hp' : pg' = pg
      · subst hp'
        simp [hs]
      · rw [Function.update_of_ne hp']
    · rw [Function.update_of_ne he]

/-- `mark_page_valid` on the next page of the line being written. -/
theorem validate (h : LineOk g m .current w l blks line) (hd : d ∈ g.dies)
    (hpg : pg < g.pgsPerBlk m) (hpg' : pg < 2 ^ pageBits) (hr : g.rank m d.1 d.2 pg = w)
    (line' : Line) (hid : line'.id = line.id)
    (hv : line'.vpc = line.vpc + 1) (hp : line'.ipc = line.ipc) :
    LineOk g m .current (w + 1) l (Function.update blks d ((blks d).validate pg)) line' := by
  have hs : (blks d).statusAt pg = .free := by
    by_contra hne
    have := (h.written rfl d hd pg hpg).mp hne
    omega
  have hsv := sum_store blks NandBlock.vpc ((blks d).validate pg) hd
  have hsp := sum_store blks NandBlock.ipc ((blks d).validate pg) hd
  have hv' : ((blks d).validate pg).vpc = (blks d).vpc + 1 := rfl
  have hp' : ((blks d).validate pg).ipc = (blks d).ipc := rfl
  have hlv := h.vpc (by simp)
  have hlp := h.ipc (by simp)
  have hf : line.vpc + line.ipc = w := h.fact
  refine ⟨hid.trans h.id, h.blocks_store ((h.blocks d hd).validate hpg hpg' hs), fun _ => by omega,
    fun _ => by omega, ?_, ?_⟩
  · show line'.vpc + line'.ipc = w + 1
    omega
  · intro _ d' hd' pg' hpg'
    obtain ⟨hc1, hl1⟩ := g.mem_dies.mp hd
    obtain ⟨hc2, hl2⟩ := g.mem_dies.mp hd'
    have hw := h.written rfl d' hd' pg' hpg'
    -- the page is the only one of its rank
    have hrank : g.rank m d'.1 d'.2 pg' = w ↔ d' = d ∧ pg' = pg := by
      constructor
      · intro he
        obtain ⟨h1, h2, h3⟩ := g.rank_inj hc2 hl2 hc1 hl1 (he.trans hr.symm)
        exact ⟨Prod.ext h1 h2, h3⟩
      · rintro ⟨rfl, rfl⟩
        exact hr
    by_cases he : d' = d ∧ pg' = pg
    · obtain ⟨rfl, rfl⟩ := he
      rw [Function.update_self, NandBlock.statusAt_validate, Function.update_self]
      simp [hr]
    · have hlt : g.rank m d'.1 d'.2 pg' < w + 1 ↔ g.rank m d'.1 d'.2 pg' < w := by
        have := mt hrank.mp he
        omega
      rw [hlt, ← hw]
      by_cases hdd : d' = d
      · subst hdd
        rw [Function.update_self, NandBlock.statusAt_validate,
          Function.update_of_ne fun hp => he ⟨rfl, hp⟩]
      · rw [Function.update_of_ne hdd]

/-- A line that has been written to its end is full or a victim. -/
theorem close (h : LineOk g m .current (g.pgsPerLine m) l blks line) (w' : Nat) :
    LineOk g m (if line.vpc = g.pgsPerLine m then .full else .victim) w' l blks line := by
  have hf : line.vpc + line.ipc = g.pgsPerLine m := h.fact
  split
  · refine ⟨h.id, h.blocks, fun _ => h.vpc (by simp), fun _ => h.ipc (by simp), ?_, nofun⟩
    simp only [LineFact]
    omega
  · refine ⟨h.id, h.blocks, fun _ => h.vpc (by simp), fun _ => h.ipc (by simp), ?_, nofun⟩
    simp only [LineFact]
    omega

/-- A free line can be written from its first page. -/
theorem «open» (h : LineOk g m .free w l blks line) : LineOk g m .current 0 l blks line := by
  obtain ⟨hv, hp⟩ := h.fact
  refine ⟨h.id, h.blocks, fun _ => h.vpc (by simp), fun _ => h.ipc (by simp), ?_, ?_⟩
  · simp only [LineFact]
    omega
  · intro _ d hd pg hpg
    simp [h.status_free hd hpg]

/-- Any line can be collected. -/
theorem collect (h : LineOk g m c w l blks line) : LineOk g m .collecting w' l blks line :=
  ⟨h.id, h.blocks, nofun, nofun, trivial, nofun⟩

/-- `mark_block_free` on a line being collected. -/
theorem freeBlock (h : LineOk g m .collecting w l blks line) (hd : d ∈ g.dies) :
    LineOk g m .collecting w l (Function.update blks d ((blks d).free (g.pgsPerBlk m))) line :=
  ⟨h.id, h.blocks_store (h.blocks d hd).free, nofun, nofun, trivial, nofun⟩

/-- A collected line whose blocks have all been freed is free. -/
theorem freeLine (h : LineOk g m .collecting w l blks line) (line' : Line) (w' : Nat) (hid : line'.id = line.id)
    (hv : line'.vpc = 0) (hp : line'.ipc = 0)
    (hb : ∀ d ∈ g.dies, (blks d).vpc = 0 ∧ (blks d).ipc = 0) :
    LineOk g m .free w' l blks line' :=
  ⟨hid.trans h.id, h.blocks,
    fun _ => by rw [hv, Finset.sum_eq_zero fun d hd => (hb d hd).1],
    fun _ => by rw [hp, Finset.sum_eq_zero fun d hd => (hb d hd).2], ⟨hv, hp⟩, nofun⟩

end LineOk

end NvmeVirt
