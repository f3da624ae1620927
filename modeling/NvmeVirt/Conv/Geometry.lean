import NvmeVirt.Conv.Command
import NvmeVirt.Library.MixedRadix

/-!
# The geometry of a device with an SLC cache

`Geometry` holds the independent numbers behind a `struct ssdparams` that
`ssd_init_params_slc` fills, with the facts that keep every address inside its bit
fields. The two pools of lines differ in the number of flash pages that a one-shot
program covers; everything else is derived by one formula for both.
-/

namespace NvmeVirt

/-- A build with the SLC cache: what `ssd_config.h` promises about its own macros. -/
structure SlcConfig extends SsdConfig where
  enabled : enableSlcCache = true
  plns_eq : plnsPerLun = 1
  luns_pos : 0 < lunsPerNandCh
  luns_le : lunsPerNandCh ≤ 2 ^ lunBits
  parts_pos : 0 < ssdPartitions
  chs_pos : 0 < nandChannels
  chs_le : nandChannels ≤ 2 ^ chBits
  flash_pos : 0 < flashPageSize
  oneshot_pos : 0 < oneshotPageSize
  oneshot_le : oneshotPageSize ≤ 2 ^ 28
  slcOneshot_pos : 0 < slcOneshotPageSize
  slcOneshot_le : slcOneshotPageSize ≤ 2 ^ 28
  slcOneshot_dvd : flashPageSize ∣ slcOneshotPageSize
  blks_pos : 0 < blksPerPln
  blks_le : blksPerPln ≤ 2 ^ blkBits
  portion_le : slcPortion ≤ 100
  dies_le : lunsPerNandCh * nandChannels ≤ blksPerPln - blksPerPln * slcPortion / 100

/-- The shipped configuration with these facts. -/
def samsung970proSlc : SlcConfig where
  toSsdConfig := samsung970pro
  enabled := by decide
  plns_eq := by decide
  luns_pos := by decide
  luns_le := by decide
  parts_pos := by decide
  chs_pos := by decide
  chs_le := by decide
  flash_pos := by decide
  oneshot_pos := by decide
  oneshot_le := by decide
  slcOneshot_pos := by decide
  slcOneshot_le := by decide
  slcOneshot_dvd := by decide
  blks_pos := by decide
  blks_le := by decide
  portion_le := by decide
  dies_le := by decide

/-- The independent numbers of a device. -/
structure Geometry where
  luns : Nat
  nchs : Nat
  /-- One-shot pages per block, the same in both areas. -/
  oneshots : Nat
  /-- Pages per flash page. -/
  pgsPerFlashpg : Nat
  /-- Flash pages per one-shot page. -/
  flashpgs : LineMode → Nat
  /-- Lines of each pool. -/
  lines : LineMode → Nat
  luns_pos : 0 < luns
  luns_le : luns ≤ 2 ^ lunBits
  nchs_pos : 0 < nchs
  nchs_le : nchs ≤ 2 ^ chBits
  pgsPerFlashpg_pos : 0 < pgsPerFlashpg
  flashpgs_pos : ∀ m, 0 < flashpgs m
  oneshot_le : ∀ m, flashpgs m * pgsPerFlashpg ≤ 2 ^ pageBits
  lines_le : lines .slc + lines .tlc ≤ 2 ^ blkBits
  pages_lt : ∀ m, luns * nchs * (flashpgs m * pgsPerFlashpg * oneshots) < 2 ^ 31

namespace Geometry

variable (g : Geometry)

/-- Pages per one-shot page. -/
def pgsPerOneshotpg (m : LineMode) : Nat := g.flashpgs m * g.pgsPerFlashpg

/-- Pages per block. -/
def pgsPerBlk (m : LineMode) : Nat := g.pgsPerOneshotpg m * g.oneshots

/-- Pages per line. -/
def pgsPerLine (m : LineMode) : Nat := g.luns * g.nchs * g.pgsPerBlk m

/-- The first line of a pool. -/
def base : LineMode → Nat
  | .slc => 0
  | .tlc => g.lines .slc

/-- All lines. -/
def ttLines : Nat := g.lines .slc + g.lines .tlc

/-- The line `l` belongs to the pool `m`. -/
def HasLine (m : LineMode) (l : Nat) : Prop := g.base m ≤ l ∧ l < g.base m + g.lines m

/-- The pool of a line. -/
def pool (l : Nat) : LineMode := if l < g.lines .slc then .slc else .tlc

/-- Pages per plane, which is a die here. -/
def pgsPerPl : Nat := g.pgsPerBlk .slc * g.lines .slc + g.pgsPerBlk .tlc * g.lines .tlc

/-- All pages. -/
def ttPgs : Nat := g.pgsPerPl * g.luns * g.nchs

theorem pgsPerOneshotpg_pos (m : LineMode) : 0 < g.pgsPerOneshotpg m :=
  Nat.mul_pos (g.flashpgs_pos m) g.pgsPerFlashpg_pos

theorem hasLine_pool {m : LineMode} {l : Nat} (h : g.HasLine m l) : g.pool l = m := by
  cases m <;> simp only [HasLine, base, pool] at h ⊢
  · rw [if_pos (by omega)]
  · rw [if_neg (by omega)]

theorem hasLine_iff {m : LineMode} {l : Nat} :
    g.HasLine m l ↔ l < g.ttLines ∧ g.pool l = m := by
  constructor
  · intro h
    refine ⟨?_, g.hasLine_pool h⟩
    cases m <;> simp only [HasLine, base, ttLines] at h ⊢ <;> omega
  · rintro ⟨hl, rfl⟩
    unfold pool ttLines at *
    split <;> simp only [HasLine, base] <;> omega

/-- A line belongs to one pool only. -/
theorem hasLine_unique {m m' : LineMode} {l : Nat} (h : g.HasLine m l) (h' : g.HasLine m' l) :
    m = m' := by
  rw [← g.hasLine_pool h, g.hasLine_pool h']

/-- Line numbers fit the block field of an address. -/
theorem hasLine_lt {m : LineMode} {l : Nat} (h : g.HasLine m l) : l < 2 ^ blkBits := by
  have hl := (g.hasLine_iff.mp h).1
  have hle := g.lines_le
  unfold ttLines at hl
  omega

/-- A device with pages has pages in every line. -/
theorem oneshots_pos (h : 0 < g.ttPgs) : 0 < g.oneshots := by
  rcases Nat.eq_zero_or_pos g.oneshots with h0 | h0
  · simp [ttPgs, pgsPerPl, pgsPerBlk, h0] at h
  · exact h0

theorem pgsPerBlk_pos (h : 0 < g.oneshots) (m : LineMode) : 0 < g.pgsPerBlk m :=
  Nat.mul_pos (g.pgsPerOneshotpg_pos m) h

theorem dies_pos : 0 < g.luns * g.nchs := Nat.mul_pos g.luns_pos g.nchs_pos

end Geometry

/-! ## Parameters of a geometry -/

/-- The parameters that `ssd_init_params_slc` computes for a geometry. -/
structure Geometry.Fits (g : Geometry) (spp : Ssdparams) : Prop where
  secsPerPg : spp.secsPerPg = 8
  pgsz : spp.pgsz = 4096
  plsPerLun : spp.plsPerLun = 1
  lunsPerCh : spp.lunsPerCh = g.luns
  nchs : spp.nchs = g.nchs
  blksPerPl : spp.blksPerPl = g.ttLines
  pgsPerFlashpg : spp.pgsPerFlashpg = g.pgsPerFlashpg
  pgsPerOneshotpg : ∀ m, spp.curPgsPerOneshotpg m = g.pgsPerOneshotpg m
  pgsPerBlk : ∀ m, spp.curPgsPerBlk m = g.pgsPerBlk m
  pgsPerLine : ∀ m, spp.curPgsPerLine m = g.pgsPerLine m
  flashpgsPerBlkSlc : spp.flashpgsPerBlkSlc = (g.flashpgs .slc * g.oneshots : Nat)
  flashpgsPerBlk : spp.flashpgsPerBlk = g.flashpgs .tlc * g.oneshots
  ttLines : spp.ttLines = g.ttLines
  ttLinesSlc : spp.ttLinesSlc = g.lines .slc
  ttLinesTlc : spp.ttLinesTlc = g.lines .tlc
  pgsPerPl : spp.pgsPerPl = g.pgsPerPl
  pgsPerLun : spp.pgsPerLun = g.pgsPerPl
  pgsPerCh : spp.pgsPerCh = g.pgsPerPl * g.luns
  ttPgs : spp.ttPgs = g.ttPgs

/-- A non-negative `int` is unchanged as an `uint32_t`. -/
theorem asU32_of_lt {x : Nat} (h : x < 2 ^ 32) : asU32 x = x := by
  unfold asU32
  omega

/-- What the shared half of the initialisers computes for a build with the SLC cache. -/
structure BaseParams.Fits (b : BaseParams) (cfg : SlcConfig) (nparts : Nat) : Prop where
  nchs : b.nchs = cfg.nandChannels / nparts
  nchs_pos : 0 < b.nchs
  flash_dvd : 4096 ∣ cfg.flashPageSize
  oneshot_dvd : cfg.flashPageSize ∣ cfg.oneshotPageSize
  blksPerPl : b.blksPerPl = cfg.blksPerPln
  pgsPerOneshotpg : b.pgsPerOneshotpg = cfg.oneshotPageSize / 4096
  pgsPerFlashpg : b.pgsPerFlashpg = cfg.flashPageSize / 4096
  flashpgsPerBlk :
    b.flashpgsPerBlk = cfg.oneshotPageSize / cfg.flashPageSize * b.oneshotpgsPerBlk
  pgsPerBlk : b.pgsPerBlk = b.pgsPerOneshotpg * b.oneshotpgsPerBlk

theorem baseParams_fits {cfg : SlcConfig} {capacity nparts : Nat} {b : BaseParams}
    (h : baseParams cfg.toSsdConfig capacity nparts = some b) : b.Fits cfg nparts := by
  have hblks := cfg.blks_pos
  simp only [baseParams, blockLayout, gt_iff_lt, if_pos hblks, pgsz_eq, Option.bind_eq_bind,
    Option.bind_eq_some_iff, Option.pure_def, Option.some.injEq, Prod.exists, Prod.mk.injEq] at h
  obtain ⟨_, hparts, _, _, ⟨_, -, rfl, rfl⟩, _, hpg, _, hflash, opb, -, fpb, hfpb, ppb, hppb, rfl⟩ := h
  rw [cAssert_eq_some] at hparts hpg hflash
  rw [cInt_eq_some] at hfpb hppb
  have hchs : 0 < cfg.nandChannels / nparts := by
    have hc := cfg.chs_pos
    have hd : nparts ∣ cfg.nandChannels := Nat.dvd_of_mod_eq_zero hparts
    exact Nat.div_pos (Nat.le_of_dvd hc hd) (Nat.pos_of_dvd_of_pos hd hc)
  exact ⟨rfl, hchs, Nat.dvd_of_mod_eq_zero hpg.2, Nat.dvd_of_mod_eq_zero hflash, rfl, rfl, rfl,
    hfpb.2, hppb.2⟩

/-- A one-shot page is a whole number of flash pages, and these of pages. -/
theorem oneshot_div {oneshot flash : Nat} (hpos : 0 < flash) (hd : 4096 ∣ flash)
    (hf : flash ∣ oneshot) : oneshot / flash * (flash / 4096) = oneshot / 4096 := by
  obtain ⟨a, rfl⟩ := hd
  obtain ⟨k, rfl⟩ := hf
  rw [Nat.mul_div_cancel_left _ hpos, Nat.mul_div_cancel_left _ (by simp), Nat.mul_assoc,
    Nat.mul_div_cancel_left _ (by simp), Nat.mul_comm]

/-- The sizes of the two kinds of one-shot pages. -/
def SlcConfig.oneshot (cfg : SlcConfig) : LineMode → Nat
  | .slc => cfg.slcOneshotPageSize
  | .tlc => cfg.oneshotPageSize

/-- The lines of the two pools. -/
def SlcConfig.poolLines (cfg : SlcConfig) : LineMode → Nat
  | .slc => cfg.blksPerPln * cfg.slcPortion / 100
  | .tlc => cfg.blksPerPln - cfg.blksPerPln * cfg.slcPortion / 100

theorem SlcConfig.poolLines_add (cfg : SlcConfig) :
    cfg.poolLines .slc + cfg.poolLines .tlc = cfg.blksPerPln := by
  have h : cfg.blksPerPln * cfg.slcPortion / 100 ≤ cfg.blksPerPln :=
    Nat.div_le_of_le_mul (by rw [Nat.mul_comm 100]; exact Nat.mul_le_mul_left _ cfg.portion_le)
  simp only [poolLines]
  omega

theorem BaseParams.Fits.oneshot {b : BaseParams} {cfg : SlcConfig} {nparts : Nat}
    (hf : b.Fits cfg nparts) (m : LineMode) :
    0 < cfg.oneshot m ∧ cfg.oneshot m ≤ 2 ^ 28 ∧ cfg.flashPageSize ∣ cfg.oneshot m ∧
      cfg.oneshot m / cfg.flashPageSize * (cfg.flashPageSize / 4096) = cfg.oneshot m / 4096 := by
  have hd : cfg.flashPageSize ∣ cfg.oneshot m := by
    cases m
    · exact cfg.slcOneshot_dvd
    · exact hf.oneshot_dvd
  refine ⟨?_, ?_, hd, oneshot_div cfg.flash_pos hf.flash_dvd hd⟩ <;> cases m
  · exact cfg.slcOneshot_pos
  · exact cfg.oneshot_pos
  · exact cfg.slcOneshot_le
  · exact cfg.oneshot_le

/-- The geometry of a configuration and the shared half of its parameters. -/
def SlcConfig.geometry (cfg : SlcConfig) {b : BaseParams} {nparts : Nat} (hf : b.Fits cfg nparts)
    (hlt : ∀ m, cfg.lunsPerNandCh * b.nchs *
      (cfg.oneshot m / cfg.flashPageSize * (cfg.flashPageSize / 4096) * b.oneshotpgsPerBlk) <
        2 ^ 31) : Geometry where
  luns := cfg.lunsPerNandCh
  nchs := b.nchs
  oneshots := b.oneshotpgsPerBlk
  pgsPerFlashpg := cfg.flashPageSize / 4096
  flashpgs m := cfg.oneshot m / cfg.flashPageSize
  lines := cfg.poolLines
  luns_pos := cfg.luns_pos
  luns_le := cfg.luns_le
  nchs_pos := hf.nchs_pos
  nchs_le := by
    rw [hf.nchs]
    exact (Nat.div_le_self _ _).trans cfg.chs_le
  pgsPerFlashpg_pos := Nat.div_pos (Nat.le_of_dvd cfg.flash_pos hf.flash_dvd) (by decide)
  flashpgs_pos m :=
    Nat.div_pos (Nat.le_of_dvd (hf.oneshot m).1 (hf.oneshot m).2.2.1) cfg.flash_pos
  oneshot_le m := by
    obtain ⟨-, hle, -, heq⟩ := hf.oneshot m
    rw [heq]
    exact Nat.div_le_of_le_mul hle
  lines_le := by
    rw [cfg.poolLines_add]
    exact cfg.blks_le
  pages_lt := hlt

/-- The geometry of a configuration, in numbers. -/
structure Geometry.From (g : Geometry) (cfg : SlcConfig) (b : BaseParams) : Prop where
  luns : g.luns = cfg.lunsPerNandCh
  nchs : g.nchs = b.nchs
  oneshots : g.oneshots = b.oneshotpgsPerBlk
  lines : g.lines = cfg.poolLines
  pgsPerOneshotpg : ∀ m, g.pgsPerOneshotpg m = cfg.oneshot m / 4096

/-- The geometry behind the parameters of a build with the SLC cache. -/
theorem ssdInitParamsSlc_fits {cfg : SlcConfig} {mem spp : Ssdparams} {capacity nparts : Nat}
    (h : ssdInitParamsSlc mem cfg.toSsdConfig capacity nparts = some spp) :
    ∃ (g : Geometry) (b : BaseParams), g.Fits spp ∧ g.From cfg b ∧
      baseParams cfg.toSsdConfig capacity nparts = some b := by
  unfold ssdInitParamsSlc at h
  rw [pgsz_eq] at h
  obtain ⟨b, hb, h⟩ := Option.bind_eq_some_iff.mp h
  obtain ⟨_, hfps, h⟩ := Option.bind_eq_some_iff.mp h
  obtain ⟨_, hpps, h⟩ := Option.bind_eq_some_iff.mp h
  obtain ⟨_, htls, h⟩ := Option.bind_eq_some_iff.mp h
  obtain ⟨_, htlt, h⟩ := Option.bind_eq_some_iff.mp h
  obtain ⟨_, hsp, h⟩ := Option.bind_eq_some_iff.mp h
  obtain ⟨_, htp, h⟩ := Option.bind_eq_some_iff.mp h
  obtain ⟨_, hppp, h⟩ := Option.bind_eq_some_iff.mp h
  obtain ⟨_, hppl, h⟩ := Option.bind_eq_some_iff.mp h
  obtain ⟨_, hppc, h⟩ := Option.bind_eq_some_iff.mp h
  obtain ⟨_, http, h⟩ := Option.bind_eq_some_iff.mp h
  obtain ⟨_, httl, h⟩ := Option.bind_eq_some_iff.mp h
  obtain ⟨_, hpls, h⟩ := Option.bind_eq_some_iff.mp h
  obtain ⟨_, hpl, h⟩ := Option.bind_eq_some_iff.mp h
  obtain ⟨_, -, h⟩ := Option.bind_eq_some_iff.mp h
  obtain rfl := Option.some.inj h
  have hf := baseParams_fits hb
  obtain ⟨-, rfl⟩ := cInt_eq_some.mp hfps
  obtain ⟨-, rfl⟩ := cInt_eq_some.mp hpps
  obtain ⟨-, rfl⟩ := cInt_eq_some.mp htls
  obtain ⟨-, rfl⟩ := cInt_eq_some.mp htlt
  obtain ⟨-, rfl⟩ := cInt_eq_some.mp hsp
  obtain ⟨htpLt, rfl⟩ := cInt_eq_some.mp htp
  obtain ⟨-, rfl⟩ := cInt_eq_some.mp hppp
  obtain ⟨-, rfl⟩ := cULong_eq_some.mp hppl
  obtain ⟨-, rfl⟩ := cULong_eq_some.mp hppc
  obtain ⟨-, rfl⟩ := cULong_eq_some.mp http
  obtain ⟨-, rfl⟩ := cInt_eq_some.mp httl
  obtain ⟨hplsLt, rfl⟩ := cInt_eq_some.mp hpls
  obtain ⟨-, rfl⟩ := cULong_eq_some.mp hpl
  have hppb : b.pgsPerBlk = cfg.oneshot .tlc / 4096 * b.oneshotpgsPerBlk := by
    rw [hf.pgsPerBlk, hf.pgsPerOneshotpg, SlcConfig.oneshot]
  -- a TLC line has no more dies than its pool has blocks per die
  have htlc : cfg.lunsPerNandCh * b.nchs * b.pgsPerBlk < 2 ^ 31 := by
    have hnchs : b.nchs ≤ cfg.nandChannels := by
      rw [hf.nchs]
      exact Nat.div_le_self _ _
    calc cfg.lunsPerNandCh * b.nchs * b.pgsPerBlk
        ≤ cfg.lunsPerNandCh * cfg.nandChannels * b.pgsPerBlk :=
          Nat.mul_le_mul_right _ (Nat.mul_le_mul_left _ hnchs)
      _ ≤ (b.blksPerPl - b.blksPerPl * cfg.slcPortion / 100) * b.pgsPerBlk := by
          rw [hf.blksPerPl]
          exact Nat.mul_le_mul_right _ cfg.dies_le
      _ < 2 ^ 31 := by rwa [Nat.mul_comm]
  have hlt : ∀ m, cfg.lunsPerNandCh * b.nchs *
      (cfg.oneshot m / cfg.flashPageSize * (cfg.flashPageSize / 4096) * b.oneshotpgsPerBlk) <
        2 ^ 31 := by
    intro m
    rw [(hf.oneshot m).2.2.2]
    cases m
    · exact hplsLt
    · rwa [← hppb]
  let g := cfg.geometry hf hlt
  have hosp : ∀ m, g.pgsPerOneshotpg m = cfg.oneshot m / 4096 := fun m => (hf.oneshot m).2.2.2
  have hblk : ∀ m, g.pgsPerBlk m = cfg.oneshot m / 4096 * b.oneshotpgsPerBlk := fun m => by
    show g.pgsPerOneshotpg m * _ = _
    rw [hosp]
    rfl
  have hline : ∀ m, g.pgsPerLine m =
      cfg.lunsPerNandCh * b.nchs * (cfg.oneshot m / 4096 * b.oneshotpgsPerBlk) := fun m => by
    show _ * g.pgsPerBlk m = _
    rw [hblk]
    rfl
  have httl : g.ttLines = cfg.blksPerPln := cfg.poolLines_add
  have hpl : cfg.slcOneshotPageSize / 4096 * b.oneshotpgsPerBlk *
        (b.blksPerPl * cfg.slcPortion / 100) +
      b.pgsPerBlk * (b.blksPerPl - b.blksPerPl * cfg.slcPortion / 100) = g.pgsPerPl := by
    show _ = g.pgsPerBlk .slc * _ + g.pgsPerBlk .tlc * _
    rw [hblk, hblk, hppb, hf.blksPerPl]
    rfl
  refine ⟨g, b, ?_, ⟨rfl, rfl, rfl, rfl, hosp⟩, hb⟩
  constructor <;> dsimp only [Ssdparams.assignBase]
  · decide
  · exact pgsz_eq
  · exact cfg.plns_eq
  · rfl
  · rfl
  · rw [hf.blksPerPl, httl]
  · exact hf.pgsPerFlashpg
  · rintro (_ | _)
    · exact congrArg Nat.cast (hosp .slc).symm
    · exact congrArg Nat.cast (hf.pgsPerOneshotpg.trans (hosp .tlc).symm)
  · rintro (_ | _)
    · exact congrArg Nat.cast (hblk .slc).symm
    · exact congrArg Nat.cast (hppb.trans (hblk .tlc).symm)
  · rintro (_ | _)
    · exact congrArg Nat.cast (hline .slc).symm
    · show asInt _ = _
      rw [asInt_of_lt htlc, hline, hppb]
  · rfl
  · exact hf.flashpgsPerBlk
  · rw [hf.blksPerPl, httl]
  · rw [hf.blksPerPl]
    rfl
  · rw [hf.blksPerPl]
    rfl
  · exact hpl
  · rw [hpl, cfg.plns_eq, Nat.mul_one]
  · rw [hpl, cfg.plns_eq, Nat.mul_one]
    rfl
  · rw [hpl, cfg.plns_eq, Nat.mul_one]
    rfl

end NvmeVirt
