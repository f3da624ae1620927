import NvmeVirt.Conv.Init

/-!
# Every page has an index and every index a page

The boundary between the two areas of a plane stands in `ppa2pgidx`, in `valid_ppa` and in
`ssd_init_nand_plane`. Here it is the same in all three for every configuration with one plane in a
die, so `ppa2pgidx` numbers the addresses that `valid_ppa` accepts without a gap.
-/

namespace NvmeVirt

open Checked MixedRadix

/-- The numbers behind the index of a page: `k` blocks of `s` pages come first in a plane. -/
structure Ssdparams.Planes (spp : Ssdparams) (k s : Nat) : Prop where
  plsPerLun : spp.plsPerLun = 1
  ttLinesSlc : spp.ttLinesSlc = k
  k_le : k ≤ spp.blksPerPl
  k_lt : k < 2 ^ 31
  pgsPerBlkSlc : spp.pgsPerBlkSlc = s
  pgsPerPl : spp.pgsPerPl = blockStart k s spp.pgsPerBlk spp.blksPerPl
  pgsPerLun : spp.pgsPerLun = spp.pgsPerPl
  pgsPerCh : spp.pgsPerCh = spp.lunsPerCh * spp.pgsPerPl
  ttPgs : spp.ttPgs = spp.nchs * spp.lunsPerCh * spp.pgsPerPl

/-- What `ssd_init_params_slc` computes, for one plane in a die. -/
theorem ssdInitParamsSlc_planes {cfg : SsdConfig} {mem spp : Ssdparams} {capacity nparts : Nat}
    (hplns : cfg.plnsPerLun = 1) (hshare : cfg.slcPortion ≤ 100)
    (h : ssdInitParamsSlc mem cfg capacity nparts = some spp) : ∃ k s, spp.Planes k s := by
  unfold ssdInitParamsSlc at h
  obtain ⟨b, -, h⟩ := Option.bind_eq_some_iff.mp h
  obtain ⟨_, -, h⟩ := Option.bind_eq_some_iff.mp h
  obtain ⟨s, -, h⟩ := Option.bind_eq_some_iff.mp h
  obtain ⟨k, hk, h⟩ := Option.bind_eq_some_iff.mp h
  obtain ⟨_, htlt, h⟩ := Option.bind_eq_some_iff.mp h
  obtain ⟨_, hsp, h⟩ := Option.bind_eq_some_iff.mp h
  obtain ⟨_, htp, h⟩ := Option.bind_eq_some_iff.mp h
  obtain ⟨_, hppp, h⟩ := Option.bind_eq_some_iff.mp h
  obtain ⟨_, hppl, h⟩ := Option.bind_eq_some_iff.mp h
  obtain ⟨_, hppc, h⟩ := Option.bind_eq_some_iff.mp h
  obtain ⟨_, http, h⟩ := Option.bind_eq_some_iff.mp h
  obtain ⟨_, -, h⟩ := Option.bind_eq_some_iff.mp h
  obtain ⟨_, -, h⟩ := Option.bind_eq_some_iff.mp h
  obtain ⟨_, -, h⟩ := Option.bind_eq_some_iff.mp h
  obtain ⟨_, -, h⟩ := Option.bind_eq_some_iff.mp h
  obtain rfl := Option.some.inj h
  obtain ⟨hkLt, rfl⟩ := cInt_eq_some.mp hk
  obtain ⟨-, rfl⟩ := cInt_eq_some.mp htlt
  obtain ⟨-, rfl⟩ := cInt_eq_some.mp hsp
  obtain ⟨-, rfl⟩ := cInt_eq_some.mp htp
  obtain ⟨-, rfl⟩ := cInt_eq_some.mp hppp
  obtain ⟨-, rfl⟩ := cULong_eq_some.mp hppl
  obtain ⟨-, rfl⟩ := cULong_eq_some.mp hppc
  obtain ⟨-, rfl⟩ := cULong_eq_some.mp http
  have hle : b.blksPerPl * cfg.slcPortion / 100 ≤ b.blksPerPl := by
    apply Nat.div_le_of_le_mul
    rw [Nat.mul_comm 100]
    exact Nat.mul_le_mul_left _ hshare
  refine ⟨b.blksPerPl * cfg.slcPortion / 100, s, hplns, rfl, hle, hkLt, rfl, ?_, ?_, ?_, ?_⟩ <;>
    dsimp only [Ssdparams.assignBase]
  · rw [blockStart, if_neg (Nat.not_lt_of_le hle), Nat.mul_comm s, Nat.mul_comm b.pgsPerBlk]
  · rw [hplns, Nat.mul_one]
  · rw [hplns]
    ring
  · rw [hplns]
    ring

/-- The counts of a device fit the fields of an address. -/
structure Ssdparams.FitsPpa (spp : Ssdparams) : Prop where
  nchs : spp.nchs ≤ 2 ^ chBits
  lunsPerCh : spp.lunsPerCh ≤ 2 ^ lunBits
  blksPerPl : spp.blksPerPl ≤ 2 ^ blkBits
  pgsPerBlk : spp.pgsPerBlk ≤ 2 ^ pageBits
  pgsPerBlkSlc : spp.pgsPerBlkSlc ≤ 2 ^ pageBits

/-- An address fits its fields. -/
structure Ppa.Wf (p : Ppa) : Prop where
  pg : p.pg < 2 ^ pageBits
  blk : p.blk < 2 ^ blkBits
  pl : p.pl < 2 ^ plBits
  lun : p.lun < 2 ^ lunBits
  ch : p.ch < 2 ^ chBits

/-- An instance with the parameters `spp`, the boundary that `init_lines` stores and the blocks that
`ssd_init_nand_plane` makes. -/
structure ConvFtl.Built (f : ConvFtl) (spp : Ssdparams) : Prop where
  sp : f.ssd.sp = spp
  slcMode : f.slcMode = .slc
  slmLines : f.slm.ttLines = asU32 spp.ttLinesSlc
  npgs : ∀ p, f.validPpa p = true → (f.ssd.getBlk p).npgs = (ssdInitNandPlane spp p.blk).npgs

/-- `init_lines` on the device that `ssd_init` made. -/
theorem ConvFtl.initLines_built {f f' : ConvFtl} {spp : Ssdparams} {clock : Clock}
    (hssd : f.ssd = ssdInit spp clock) (hslc : f.slcMode = .slc) (h : f.initLines = .ok f') :
    f'.Built spp := by
  simp only [ConvFtl.initLines, hslc] at h
  obtain ⟨-, -, h⟩ := bind_eq_ok.mp h
  cases h
  exact ⟨by rw [hssd]; rfl, rfl, by rw [hssd]; rfl, fun p _ => by rw [hssd]; rfl⟩

/-- The states between two commands. -/
theorem ConvFtl.PoolsOk.built {f : ConvFtl} {g : Geometry} {cls : Nat → LineClass}
    {cur : LineMode → Option Nat} {w : LineMode → Nat} (h : f.PoolsOk g cls cur w)
    (hst : f.Static g) : f.Built f.ssd.sp := by
  refine ⟨rfl, hst.slcMode, hst.ttLinesSlc.symm, fun p hp => ?_⟩
  rw [(h.blockOk ((hst.validPpa_iff p).mp hp)).npgs, ssdInitNandPlane, hst.fits.ttLinesSlc]
  simp only [Geometry.pool, Nat.cast_lt]
  split_ifs
  · exact (hst.fits.pgsPerBlk .slc).symm
  · exact (hst.fits.pgsPerBlk .tlc).symm

namespace ConvFtl.Built

variable {f : ConvFtl} {spp : Ssdparams} {k s : Nat} {p q : Ppa}

/-- `valid_ppa` accepts as many pages of a block as the block has. -/
theorem validPpa_iff (h : f.Built spp) (hpl : spp.Planes k s) :
    f.validPpa p = true ↔ p.ch < spp.nchs ∧ p.lun < spp.lunsPerCh ∧ p.pl = 0 ∧
      p.blk < spp.blksPerPl ∧ p.pg < blockSize k s spp.pgsPerBlk p.blk := by
  have hk : asU32 spp.ttLinesSlc = k := by
    have hlt := hpl.k_lt
    rw [hpl.ttLinesSlc, asU32_of_lt (by omega)]
  have hpg : (if p.blk < k then decide ((p.pg : Int) < spp.pgsPerBlkSlc)
      else decide (p.pg < spp.pgsPerBlk)) = true ↔ p.pg < blockSize k s spp.pgsPerBlk p.blk := by
    unfold blockSize
    split_ifs
    · rw [decide_eq_true_eq, hpl.pgsPerBlkSlc, Nat.cast_lt]
    · rw [decide_eq_true_eq]
  simp only [validPpa, h.sp, h.slcMode, h.slmLines, hk, hpl.plsPerLun, Bool.and_eq_true, hpg,
    decide_eq_true_eq, and_assoc, Nat.lt_one_iff]

/-- The blocks of the two areas have the pages that `valid_ppa` accepts. -/
theorem npgs_eq (h : f.Built spp) (hpl : spp.Planes k s) (hp : f.validPpa p = true) :
    (f.ssd.getBlk p).npgs = blockSize k s spp.pgsPerBlk p.blk := by
  rw [h.npgs p hp, ssdInitNandPlane, hpl.ttLinesSlc, blockSize]
  simp only [Nat.cast_lt]
  split_ifs
  · exact hpl.pgsPerBlkSlc
  · rfl

theorem offset_lt (h : f.Built spp) (hpl : spp.Planes k s) (hp : f.validPpa p = true) :
    blockStart k s spp.pgsPerBlk p.blk + p.pg < spp.pgsPerPl := by
  obtain ⟨-, -, -, hblk, hpg⟩ := (h.validPpa_iff hpl).mp hp
  have hle := @blockStart_add_le k s spp.pgsPerBlk _ _ hblk
  rw [← hpl.pgsPerPl] at hle
  omega

/-- The index of a valid address: its die, and its place in the plane. -/
theorem ppa2pgidx_eq (h : f.Built spp) (hpl : spp.Planes k s) (hp : f.validPpa p = true) :
    f.ppa2pgidx p = .ok ((p.ch * spp.lunsPerCh + p.lun) * spp.pgsPerPl +
        (blockStart k s spp.pgsPerBlk p.blk + p.pg)) ∧
      (p.ch * spp.lunsPerCh + p.lun) * spp.pgsPerPl +
        (blockStart k s spp.pgsPerBlk p.blk + p.pg) < spp.ttPgs := by
  obtain ⟨hch, hlun, hplane, -, hpg⟩ := (h.validPpa_iff hpl).mp hp
  have hlt := pair_lt (pair_lt hch hlun) (h.offset_lt hpl hp)
  rw [← hpl.ttPgs] at hlt
  refine ⟨?_, hlt⟩
  have hoff : f.blkPgOffset p = blockStart k s spp.pgsPerBlk p.blk := by
    simp only [blkPgOffset, h.slcMode, h.sp, hpl.ttLinesSlc, hpl.pgsPerBlkSlc, Nat.cast_lt,
      Int.toNat_natCast, blockStart]
  have hidx : p.ch * f.ssd.sp.pgsPerCh + p.lun * f.ssd.sp.pgsPerLun + p.pl * f.ssd.sp.pgsPerPl +
      f.blkPgOffset p + p.pg = (p.ch * spp.lunsPerCh + p.lun) * spp.pgsPerPl +
        (blockStart k s spp.pgsPerBlk p.blk + p.pg) := by
    rw [hoff, h.sp, hpl.pgsPerCh, hpl.pgsPerLun, hplane]
    ring
  have hslc : f.ppaPool p = .slc → (p.pg : Int) < f.ssd.sp.pgsPerBlkSlc := by
    intro hm
    have hblk : p.blk < k := by
      simpa [ppaPool, h.slcMode, h.sp, hpl.ttLinesSlc] using hm
    rw [blockSize, if_pos hblk] at hpg
    rw [h.sp, hpl.pgsPerBlkSlc]
    exact_mod_cast hpg
  have hlt' := hlt
  rw [← hidx, ← h.sp] at hlt'
  unfold ConvFtl.ppa2pgidx
  simp only [require_pos hslc, ok_bind, require_pos hlt']
  rw [hidx]
  rfl

/-- Two valid addresses with one index are the same. -/
theorem ppa2pgidx_inj (h : f.Built spp) (hpl : spp.Planes k s) (hp : f.validPpa p = true)
    (hq : f.validPpa q = true) (heq : f.ppa2pgidx p = f.ppa2pgidx q) : p = q := by
  rw [(h.ppa2pgidx_eq hpl hp).1, (h.ppa2pgidx_eq hpl hq).1] at heq
  obtain ⟨hdie, hoff⟩ := pair_inj (h.offset_lt hpl hp) (h.offset_lt hpl hq) (Except.ok.inj heq)
  obtain ⟨-, hlun, hplane, -, hpg⟩ := (h.validPpa_iff hpl).mp hp
  obtain ⟨-, hlun', hplane', -, hpg'⟩ := (h.validPpa_iff hpl).mp hq
  obtain ⟨hch, hluns⟩ := pair_inj hlun hlun' hdie
  obtain ⟨hblk, hpgs⟩ := block_inj hpg hpg' hoff
  cases p
  cases q
  simp_all

/-- Every index below `tt_pgs` is that of an address. -/
theorem ppa2pgidx_surj (h : f.Built spp) (hpl : spp.Planes k s) {i : Nat} (hi : i < spp.ttPgs) :
    ∃ p, f.validPpa p = true ∧ f.ppa2pgidx p = .ok i := by
  rw [hpl.ttPgs] at hi
  obtain ⟨die, hdie, off, hoff, rfl⟩ := pair_surj hi
  obtain ⟨ch, hch, lun, hlun, rfl⟩ := pair_surj hdie
  rw [hpl.pgsPerPl] at hoff
  obtain ⟨blk, hblk, pg, hpg, rfl⟩ := block_surj hoff
  have hvalid : f.validPpa { pg, blk, pl := 0, lun, ch } = true :=
    (h.validPpa_iff hpl).mpr ⟨hch, hlun, rfl, hblk, hpg⟩
  exact ⟨_, hvalid, (h.ppa2pgidx_eq hpl hvalid).1⟩

/-- A valid address fits its fields. -/
theorem wf (h : f.Built spp) (hpl : spp.Planes k s) (hfits : spp.FitsPpa)
    (hp : f.validPpa p = true) : p.Wf := by
  obtain ⟨hch, hlun, hplane, hblk, hpg⟩ := (h.validPpa_iff hpl).mp hp
  have hslc := hfits.pgsPerBlkSlc
  rw [hpl.pgsPerBlkSlc] at hslc
  constructor
  · have htlc := hfits.pgsPerBlk
    unfold blockSize at hpg
    split_ifs at hpg
    · exact_mod_cast (Int.ofNat_lt.mpr hpg).trans_le hslc
    · exact hpg.trans_le htlc
  · exact hblk.trans_le hfits.blksPerPl
  · rw [hplane]
    exact Nat.two_pow_pos _
  · exact hlun.trans_le hfits.lunsPerCh
  · exact hch.trans_le hfits.nchs

end ConvFtl.Built

/-- `ppa2pgidx` is a bijection from the addresses that `valid_ppa` accepts to the indices below
`tt_pgs`, and a block has as many pages as `valid_ppa` accepts. -/
theorem ppa2pgidx_bijective {cfg : SsdConfig} {mem spp : Ssdparams} {capacity nparts : Nat}
    (hplns : cfg.plnsPerLun = 1) (hshare : cfg.slcPortion ≤ 100)
    (hspp : ssdInitParamsSlc mem cfg capacity nparts = some spp) (hfits : spp.FitsPpa)
    {f : ConvFtl} (hf : f.Built spp) :
    (∀ p, f.validPpa p = true → ∃ i < spp.ttPgs, f.ppa2pgidx p = .ok i) ∧
      (∀ p q, f.validPpa p = true → f.validPpa q = true → f.ppa2pgidx p = f.ppa2pgidx q → p = q) ∧
      (∀ i < spp.ttPgs, ∃ p, p.Wf ∧ f.validPpa p = true ∧ f.ppa2pgidx p = .ok i) ∧
      (∀ p, f.validPpa p = true ↔ p.ch < spp.nchs ∧ p.lun < spp.lunsPerCh ∧ p.pl = 0 ∧
        p.blk < spp.blksPerPl ∧ (p.pg : Int) < (ssdInitNandPlane spp p.blk).npgs) ∧
      ∀ p, f.validPpa p = true → ∃ page, f.ssd.getPg p = .ok page := by
  obtain ⟨k, s, hpl⟩ := ssdInitParamsSlc_planes hplns hshare hspp
  have hplane : ∀ blk, (ssdInitNandPlane spp blk).npgs = blockSize k s spp.pgsPerBlk blk := by
    intro blk
    rw [ssdInitNandPlane, hpl.ttLinesSlc, blockSize]
    simp only [Nat.cast_lt]
    split_ifs
    · exact hpl.pgsPerBlkSlc
    · rfl
  refine ⟨fun p hp => ?_, fun p q hp hq => hf.ppa2pgidx_inj hpl hp hq, fun i hi => ?_, fun p => ?_,
    fun p hp => ?_⟩
  · obtain ⟨hidx, hlt⟩ := hf.ppa2pgidx_eq hpl hp
    exact ⟨_, hlt, hidx⟩
  · obtain ⟨p, hp, hidx⟩ := hf.ppa2pgidx_surj hpl hi
    exact ⟨p, hf.wf hpl hfits hp, hp, hidx⟩
  · rw [hplane, Nat.cast_lt]
    exact hf.validPpa_iff hpl
  · obtain ⟨-, -, -, -, hpg⟩ := (hf.validPpa_iff hpl).mp hp
    have hlt : (p.pg : Int) < (f.ssd.getBlk p).npgs := by
      rw [hf.npgs p hp, hplane]
      exact_mod_cast hpg
    exact ⟨_, by rw [Ssd.getPg, require_pos hlt]; rfl⟩

/-- The device of 1 GiB. -/
theorem ppa2pgidx_bijective_1G : ∃ spp f, ssdInitParamsSlc default samsung970pro
      (storageSize (2 ^ 30)) samsung970pro.ssdPartitions = some spp ∧ ConvFtl.Built f spp ∧
    ∀ i < spp.ttPgs, ∃ p, p.Wf ∧ f.validPpa p = true ∧ f.ppa2pgidx p = .ok i := by
  have hmap : (ssdInitParamsSlc default samsung970pro (storageSize (2 ^ 30))
      samsung970pro.ssdPartitions).map (fun spp => (spp.nchs, spp.lunsPerCh, spp.blksPerPl,
        spp.pgsPerBlk, spp.pgsPerBlkSlc)) = some (1, 4, 1024, 24, 8) := by decide +kernel
  obtain ⟨spp, hspp, hcounts⟩ := Option.map_eq_some_iff.mp hmap
  simp only [Prod.mk.injEq] at hcounts
  obtain ⟨hnchs, hluns, hblks, hpgs, hslc⟩ := hcounts
  have hfits : spp.FitsPpa :=
    ⟨by rw [hnchs]; decide, by rw [hluns]; decide, by rw [hblks]; decide, by rw [hpgs]; decide,
      by rw [hslc]; decide⟩
  let f : ConvFtl := { (default : ConvFtl) with
    ssd := ssdInit spp default
    slcMode := .slc
    slm := (default : LineMgmt).fresh 0 (asU32 spp.ttLinesSlc) }
  have hf : f.Built spp := ⟨rfl, rfl, rfl, fun _ _ => rfl⟩
  obtain ⟨-, -, hsurj, -⟩ := ppa2pgidx_bijective (by decide) (by decide) hspp hfits hf
  exact ⟨spp, f, hspp, hf, hsurj⟩

end NvmeVirt
