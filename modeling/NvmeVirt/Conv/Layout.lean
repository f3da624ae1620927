import NvmeVirt.Conv.Geometry

/-!
# Numbering pages

Two numberings of pages: the write order of a line, in which the pointers of
`advance_write_pointer` move, and the index of the reverse map, `ppa2pgidx`. Both are
injective and within their bounds for the addresses of a geometry.
-/

namespace NvmeVirt

open Checked MixedRadix

namespace Geometry

variable (g : Geometry)

/-! ## The write order of a line -/

/-- The rank of a page in the write order of its line: word line, die, channel, page of the
one-shot program. -/
def rank (m : LineMode) (ch lun pg : Nat) : Nat :=
  ((pg / g.pgsPerOneshotpg m * g.luns + lun) * g.nchs + ch) * g.pgsPerOneshotpg m +
    pg % g.pgsPerOneshotpg m

theorem pgsPerLine_eq (m : LineMode) :
    g.pgsPerLine m = g.oneshots * g.luns * g.nchs * g.pgsPerOneshotpg m := by
  unfold pgsPerLine pgsPerBlk
  ring

/-- A page of a block belongs to one of its one-shot pages. -/
theorem div_lt_oneshots {m : LineMode} {pg : Nat} (h : pg < g.pgsPerBlk m) :
    pg / g.pgsPerOneshotpg m < g.oneshots :=
  Nat.div_lt_of_lt_mul h

theorem rank_lt {m : LineMode} {ch lun pg : Nat} (hc : ch < g.nchs) (hl : lun < g.luns)
    (hp : pg < g.pgsPerBlk m) : g.rank m ch lun pg < g.pgsPerLine m := by
  rw [pgsPerLine_eq]
  exact pair_lt (pair_lt (pair_lt (g.div_lt_oneshots hp) hl) hc)
    (Nat.mod_lt _ (g.pgsPerOneshotpg_pos m))

theorem rank_inj {m : LineMode} {ch lun pg ch' lun' pg' : Nat} (hc : ch < g.nchs)
    (hl : lun < g.luns) (hc' : ch' < g.nchs) (hl' : lun' < g.luns)
    (h : g.rank m ch lun pg = g.rank m ch' lun' pg') : ch = ch' ∧ lun = lun' ∧ pg = pg' := by
  have hpos := g.pgsPerOneshotpg_pos m
  obtain ⟨h1, hmod⟩ := pair_inj (Nat.mod_lt _ hpos) (Nat.mod_lt _ hpos) h
  obtain ⟨h2, hch⟩ := pair_inj hc hc' h1
  obtain ⟨hdiv, hlun⟩ := pair_inj hl hl' h2
  refine ⟨hch, hlun, ?_⟩
  rw [← Nat.div_add_mod pg (g.pgsPerOneshotpg m), hdiv, hmod, Nat.div_add_mod]

/-! ## The index of the reverse map -/

/-- The pages of a plane before line `l`. -/
def blkOffset (l : Nat) : Nat :=
  if l < g.lines .slc then l * g.pgsPerBlk .slc
  else g.lines .slc * g.pgsPerBlk .slc + (l - g.lines .slc) * g.pgsPerBlk .tlc

/-- Blocks do not overlap. -/
theorem blkOffset_add_le {l l' : Nat} (h : l < l') :
    g.blkOffset l + g.pgsPerBlk (g.pool l) ≤ g.blkOffset l' := by
  have hsize : g.pgsPerBlk (g.pool l) =
      blockSize (g.lines .slc) (g.pgsPerBlk .slc) (g.pgsPerBlk .tlc) l := by
    unfold pool blockSize
    split_ifs <;> rfl
  rw [hsize]
  exact blockStart_add_le h

theorem blkOffset_ttLines : g.blkOffset g.ttLines = g.pgsPerPl := by
  unfold blkOffset ttLines pgsPerPl
  rw [if_neg (by omega), Nat.add_sub_cancel_left, Nat.mul_comm, Nat.mul_comm (g.lines .tlc)]

/-- The addresses of a geometry: those `valid_ppa` accepts. -/
structure Valid (p : Ppa) : Prop where
  pl : p.pl = 0
  ch : p.ch < g.nchs
  lun : p.lun < g.luns
  blk : p.blk < g.ttLines
  pg : p.pg < g.pgsPerBlk (g.pool p.blk)

/-- The index of a page in the reverse map. -/
def pgidx (p : Ppa) : Nat :=
  (p.ch * g.luns + p.lun) * g.pgsPerPl + (g.blkOffset p.blk + p.pg)

variable {g}

/-- The page index inside a plane. -/
theorem Valid.offset_lt {p : Ppa} (h : g.Valid p) : g.blkOffset p.blk + p.pg < g.pgsPerPl := by
  have hle := g.blkOffset_add_le h.blk
  have hpg := h.pg
  rw [blkOffset_ttLines] at hle
  omega

theorem Valid.pgidx_lt {p : Ppa} (h : g.Valid p) : g.pgidx p < g.ttPgs := by
  have hlt := pair_lt (pair_lt h.ch h.lun) h.offset_lt
  calc g.pgidx p < g.nchs * g.luns * g.pgsPerPl := hlt
    _ = g.ttPgs := by
      unfold ttPgs
      ring

/-- Different addresses have different indices. -/
theorem Valid.pgidx_inj {p q : Ppa} (hp : g.Valid p) (hq : g.Valid q)
    (h : g.pgidx p = g.pgidx q) : p = q := by
  obtain ⟨hdie, hoff⟩ := pair_inj hp.offset_lt hq.offset_lt h
  obtain ⟨hch, hlun⟩ := pair_inj hp.lun hq.lun hdie
  have hblk : p.blk = q.blk := by
    have hpp := hp.pg
    have hqp := hq.pg
    rcases Nat.lt_trichotomy p.blk q.blk with hlt | heq | hgt
    · have := g.blkOffset_add_le hlt
      omega
    · exact heq
    · have := g.blkOffset_add_le hgt
      omega
  have hpg : p.pg = q.pg := by
    rw [hblk] at hoff
    omega
  have hpl : p.pl = q.pl := by rw [hp.pl, hq.pl]
  cases p
  cases q
  simp_all

end Geometry

/-! ## The functions of the translation layer on a geometry -/

/-- The parts of an instance that never change. -/
structure ConvFtl.Static (f : ConvFtl) (g : Geometry) : Prop where
  fits : g.Fits f.ssd.sp
  slcMode : f.slcMode = .slc
  cp : f.cp = convInitParams
  slmLines : f.slm.ttLines = g.lines .slc

namespace ConvFtl.Static

variable {f : ConvFtl} {g : Geometry}

theorem ppaPool (h : f.Static g) (p : Ppa) : f.ppaPool p = g.pool p.blk := by
  simp only [ConvFtl.ppaPool, Geometry.pool, h.slcMode, h.fits.ttLinesSlc, Nat.cast_lt]

theorem ioPool (h : f.Static g) : f.ioPool .user = .slc ∧ f.ioPool .gc = .tlc := by
  simp [ConvFtl.ioPool, h.slcMode]

theorem getLine (h : f.Static g) (p : Ppa) : f.getLine p = p.blk := by
  simp only [ConvFtl.getLine, lmLine, h.slcMode]
  split <;> omega

theorem ttLinesSlc (h : f.Static g) : asU32 f.ssd.sp.ttLinesSlc = f.slm.ttLines := by
  have hle := g.lines_le
  simp only [blkBits] at hle
  rw [h.fits.ttLinesSlc, h.slmLines, asU32_of_lt (by omega)]

/-- `valid_ppa` accepts exactly the addresses of the geometry. -/
theorem validPpa_iff (h : f.Static g) (p : Ppa) : f.validPpa p = true ↔ g.Valid p := by
  have hs := h.fits.pgsPerBlk .slc
  have ht := h.fits.pgsPerBlk .tlc
  simp only [Ssdparams.curPgsPerBlk, Nat.cast_inj] at hs ht
  simp only [ConvFtl.validPpa, h.slcMode, h.slmLines, h.fits.nchs, h.fits.lunsPerCh,
    h.fits.plsPerLun, h.fits.blksPerPl, hs, ht, Bool.and_eq_true, decide_eq_true_eq]
  constructor
  · rintro ⟨⟨⟨⟨hc, hl⟩, hp⟩, hb⟩, hg⟩
    refine ⟨by omega, hc, hl, hb, ?_⟩
    unfold Geometry.pool
    split at hg <;> rename_i hlt
    · simpa [if_pos hlt] using hg
    · simpa [if_neg hlt] using hg
  · intro hv
    refine ⟨⟨⟨⟨hv.ch, hv.lun⟩, by rw [hv.pl]; decide⟩, hv.blk⟩, ?_⟩
    have hg := hv.pg
    unfold Geometry.pool at hg
    split at hg <;> rename_i hlt
    · simpa [if_pos hlt] using hg
    · simpa [if_neg hlt] using hg

/-- `ppa2pgidx` succeeds on the addresses of the geometry. -/
theorem ppa2pgidx (h : f.Static g) {p : Ppa} (hp : g.Valid p) :
    f.ppa2pgidx p = .ok (g.pgidx p) := by
  have hs := h.fits.pgsPerBlk .slc
  have ht := h.fits.pgsPerBlk .tlc
  simp only [Ssdparams.curPgsPerBlk, Nat.cast_inj] at hs ht
  have hoff : f.blkPgOffset p = g.blkOffset p.blk := by
    simp only [blkPgOffset, Geometry.blkOffset, h.slcMode, h.fits.ttLinesSlc, hs, ht,
      Nat.cast_lt, Int.toNat_natCast]
  have hidx : p.ch * f.ssd.sp.pgsPerCh + p.lun * f.ssd.sp.pgsPerLun + p.pl * f.ssd.sp.pgsPerPl +
      f.blkPgOffset p + p.pg = g.pgidx p := by
    rw [hoff, h.fits.pgsPerCh, h.fits.pgsPerLun, hp.pl]
    unfold Geometry.pgidx
    ring
  have hslc : f.ppaPool p = .slc → (p.pg : Int) < f.ssd.sp.pgsPerBlkSlc := by
    intro hm
    have hpg := hp.pg
    rw [← h.ppaPool, hm] at hpg
    rw [hs]
    exact_mod_cast hpg
  unfold ConvFtl.ppa2pgidx
  simp only [require_pos hslc, hidx, h.fits.ttPgs, require_pos hp.pgidx_lt]
  rfl

end ConvFtl.Static

end NvmeVirt
