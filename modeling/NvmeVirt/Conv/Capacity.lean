import NvmeVirt.Conv.Geometry

/-!
# The capacity of the shipped device

Two formulas decide how much a host may store: `ssd_init_params_slc` counts pages, rounding
every block up to whole one-shot pages, and `NVMEV_NAMESPACE_INIT` takes percentages of the
raw size. Here both are put in closed form for the shipped configuration and compared.
-/

namespace NvmeVirt

/-! ## One-shot pages of a block -/

/-- The blocks of one partition. -/
def SsdConfig.blocks (cfg : SsdConfig) (nparts : Nat) : Nat :=
  cfg.blksPerPln * cfg.plnsPerLun * cfg.lunsPerNandCh * (cfg.nandChannels / nparts)

/-- The value of `oneshotpgs_per_blk` before it is stored in an `int`. -/
def SsdConfig.oneshots (cfg : SsdConfig) (capacity nparts : Nat) : Nat :=
  divRoundUp (divRoundUp (capacity / nparts) (cfg.blocks nparts)) cfg.oneshotPageSize

/-- The quotient rounded up is the least that covers. -/
theorem lt_divRoundUp {k n d : Nat} (hd : 0 < d) : k < divRoundUp n d ↔ k * d < n := by
  rw [divRoundUp, ← Nat.succ_le_iff, Nat.le_div_iff_mul_le hd, Nat.succ_mul]
  omega

theorem le_divRoundUp_mul (n : Nat) {d : Nat} (hd : 0 < d) : n ≤ divRoundUp n d * d :=
  Nat.le_of_not_lt fun h => Nat.lt_irrefl _ ((lt_divRoundUp hd).mpr h)

theorem cAssert_of {c : Prop} [Decidable c] (h : c) : cAssert c = some () := if_pos h

/-- The shared half of the initialisers, when every number fits. -/
theorem baseParams_eq (cfg : SsdConfig) (capacity nparts : Nat) (hblks : 0 < cfg.blksPerPln)
    (hparts : cfg.nandChannels % nparts = 0)
    (hpg : cfg.oneshotPageSize % 4096 = 0 ∧ cfg.flashPageSize % 4096 = 0)
    (hflash : cfg.oneshotPageSize % cfg.flashPageSize = 0) (hd : cfg.blocks nparts < 2 ^ 31)
    (ho : cfg.oneshots capacity nparts < 2 ^ 31)
    (hfp : cfg.oneshotPageSize / cfg.flashPageSize * cfg.oneshots capacity nparts < 2 ^ 31)
    (hpp : cfg.oneshotPageSize / 4096 * cfg.oneshots capacity nparts < 2 ^ 31) :
    baseParams cfg capacity nparts = some
      { nchs := cfg.nandChannels / nparts
        blksPerPl := cfg.blksPerPln
        pgsPerOneshotpg := cfg.oneshotPageSize / 4096
        oneshotpgsPerBlk := cfg.oneshots capacity nparts
        pgsPerFlashpg := cfg.flashPageSize / 4096
        flashpgsPerBlk :=
          cfg.oneshotPageSize / cfg.flashPageSize * cfg.oneshots capacity nparts
        pgsPerBlk := cfg.oneshotPageSize / 4096 * cfg.oneshots capacity nparts } := by
  unfold SsdConfig.oneshots SsdConfig.blocks at *
  simp only [baseParams, blockLayout, gt_iff_lt, if_pos hblks, pgsz_eq, Option.bind_eq_bind,
    cAssert_of hparts, cAssert_of hpg, cAssert_of hflash, cInt_eq_some.mpr ⟨hd, rfl⟩,
    Option.bind_some, Option.pure_def, cInt_eq_some.mpr ⟨ho, rfl⟩, cInt_eq_some.mpr ⟨hfp, rfl⟩,
    cInt_eq_some.mpr ⟨hpp, rfl⟩]

/-- What the shared half computes is this number, whenever it computes anything. -/
theorem baseParams_oneshots {cfg : SsdConfig} {capacity nparts : Nat} {b : BaseParams}
    (hblks : 0 < cfg.blksPerPln) (h : baseParams cfg capacity nparts = some b) :
    b.oneshotpgsPerBlk = cfg.oneshots capacity nparts := by
  simp only [baseParams, blockLayout, gt_iff_lt, if_pos hblks, pgsz_eq, Option.bind_eq_bind,
    Option.bind_eq_some_iff, Option.pure_def, Option.some.injEq, Prod.exists, Prod.mk.injEq] at h
  obtain ⟨_, -, _, _, ⟨_, hd, rfl, rfl⟩, _, -, _, -, o, ho, _, -, _, -, rfl⟩ := h
  obtain ⟨-, rfl⟩ := cInt_eq_some.mp hd
  exact (cInt_eq_some.mp ho).2

/-- A step of an initialiser that has a value. -/
theorem isSome_bind {α β : Type} {x : Option α} {a : α} {f : α → Option β} (h : x = some a)
    (hf : (f a).isSome = true) : (x >>= f).isSome = true := by
  rw [h]
  exact hf

/-- The page counts of `ssd_init_params_slc` fit, so every value is defined. -/
theorem ssdInitParamsSlc_isSome (mem : Ssdparams) {cfg : SsdConfig} {capacity nparts : Nat}
    {b : BaseParams} (hb : baseParams cfg capacity nparts = some b)
    (hblks : cfg.blksPerPln = b.blksPerPl) (hplns : cfg.plnsPerLun = 1)
    {s : Nat} (hs : b.blksPerPl * cfg.slcPortion / 100 = s)
    (hlines : s < 2 ^ 31) (hlines' : b.blksPerPl - s < 2 ^ 31)
    (hflash : cfg.slcOneshotPageSize / cfg.flashPageSize * b.oneshotpgsPerBlk < 2 ^ 31)
    (hslc : cfg.slcOneshotPageSize / 4096 * b.oneshotpgsPerBlk < 2 ^ 31)
    (hpl : cfg.slcOneshotPageSize / 4096 * b.oneshotpgsPerBlk * s +
      b.pgsPerBlk * (b.blksPerPl - s) < 2 ^ 31)
    (hluns : cfg.lunsPerNandCh < 2 ^ 8) (hnchs : b.nchs < 2 ^ 8)
    (hline : cfg.lunsPerNandCh * b.nchs *
      (cfg.slcOneshotPageSize / 4096 * b.oneshotpgsPerBlk) < 2 ^ 31)
    (hpgs : b.pgsPerBlk < 2 ^ 31) :
    (ssdInitParamsSlc mem cfg capacity nparts).isSome = true := by
  let slc := cfg.slcOneshotPageSize / 4096 * b.oneshotpgsPerBlk
  let pl := slc * s + b.pgsPerBlk * (b.blksPerPl - s)
  have htl : cfg.lunsPerNandCh * b.nchs < 2 ^ 8 * 2 ^ 8 := Nat.mul_lt_mul'' hluns hnchs
  have hlun : pl * cfg.lunsPerNandCh < 2 ^ 31 * 2 ^ 8 := Nat.mul_lt_mul'' hpl hluns
  have hch : pl * cfg.lunsPerNandCh * b.nchs < 2 ^ 31 * 2 ^ 8 * 2 ^ 8 :=
    Nat.mul_lt_mul'' hlun hnchs
  have hlineTlc : cfg.lunsPerNandCh * b.nchs * b.pgsPerBlk < 2 ^ 8 * 2 ^ 8 * 2 ^ 31 :=
    Nat.mul_lt_mul'' htl hpgs
  have hs1 : slc * s < 2 ^ 31 := Nat.lt_of_le_of_lt (Nat.le_add_right ..) hpl
  have hs2 : b.pgsPerBlk * (b.blksPerPl - s) < 2 ^ 31 :=
    Nat.lt_of_le_of_lt (Nat.le_add_left ..) hpl
  subst hs
  rw [ssdInitParamsSlc, pgsz_eq]
  refine isSome_bind hb (isSome_bind (cInt_eq_some.mpr ⟨hflash, rfl⟩) ?_)
  refine isSome_bind (cInt_eq_some.mpr ⟨hslc, rfl⟩) (isSome_bind (cInt_eq_some.mpr ⟨hlines, rfl⟩) ?_)
  refine isSome_bind (cInt_eq_some.mpr ⟨hlines', rfl⟩) (isSome_bind (cInt_eq_some.mpr ⟨hs1, rfl⟩) ?_)
  refine isSome_bind (cInt_eq_some.mpr ⟨hs2, rfl⟩) (isSome_bind (cInt_eq_some.mpr ⟨hpl, rfl⟩) ?_)
  rw [hplns, Nat.mul_one]
  refine isSome_bind (cULong_eq_some.mpr ⟨(by omega : pl < 2 ^ 64), rfl⟩) ?_
  refine isSome_bind (cULong_eq_some.mpr ⟨Nat.lt_trans hlun (by simp), rfl⟩) ?_
  refine isSome_bind (cULong_eq_some.mpr ⟨Nat.lt_trans hch (by simp), rfl⟩) ?_
  refine isSome_bind (cInt_eq_some.mpr ⟨Nat.lt_trans htl (by simp), rfl⟩) ?_
  refine isSome_bind (cInt_eq_some.mpr ⟨hline, rfl⟩) ?_
  refine isSome_bind (cULong_eq_some.mpr ⟨Nat.lt_trans hlineTlc (by simp), rfl⟩) ?_
  exact isSome_bind (cAssert_of hblks) rfl

/-! ## The shipped configuration -/

/-- The one-shot pages of a block of the shipped device. -/
def shippedOneshots (size : Nat) : Nat := samsung970pro.oneshots size samsung970pro.ssdPartitions

/-- The numbers of a partition of the shipped device. -/
structure Geometry.Shipped (g : Geometry) (o : Nat) : Prop where
  luns : g.luns = 4
  nchs : g.nchs = 1
  oneshots : g.oneshots = o
  linesSlc : g.lines .slc = 102
  linesTlc : g.lines .tlc = 922
  oneshotSlc : g.pgsPerOneshotpg .slc = 4
  oneshotTlc : g.pgsPerOneshotpg .tlc = 12

theorem Geometry.From.shipped {g : Geometry} {b : BaseParams} {size : Nat}
    (h : g.From samsung970proSlc b) (hb : baseParams samsung970pro size 4 = some b) :
    g.Shipped (shippedOneshots size) := by
  have hfits : b.Fits samsung970proSlc 4 := baseParams_fits hb
  refine ⟨h.luns, h.nchs.trans hfits.nchs, h.oneshots.trans ?_, ?_, ?_, ?_, ?_⟩
  · exact baseParams_oneshots (by decide) hb
  · rw [h.lines]
    rfl
  · rw [h.lines]
    rfl
  · rw [h.pgsPerOneshotpg]
    rfl
  · rw [h.pgsPerOneshotpg]
    rfl

namespace Geometry.Shipped

variable {g : Geometry} {o : Nat}

theorem pgsPerBlk (h : g.Shipped o) : g.pgsPerBlk .slc = 4 * o ∧ g.pgsPerBlk .tlc = 12 * o := by
  simp only [Geometry.pgsPerBlk, h.oneshotSlc, h.oneshotTlc, h.oneshots, and_self]

theorem pgsPerLine (h : g.Shipped o) : g.pgsPerLine .slc = 16 * o ∧ g.pgsPerLine .tlc = 48 * o := by
  obtain ⟨hs, ht⟩ := h.pgsPerBlk
  simp only [Geometry.pgsPerLine, hs, ht, h.luns, h.nchs]
  omega

theorem ttPgs (h : g.Shipped o) : g.ttPgs = 45888 * o := by
  obtain ⟨hs, ht⟩ := h.pgsPerBlk
  simp only [Geometry.ttPgs, Geometry.pgsPerPl, hs, ht, h.linesSlc, h.linesTlc, h.luns, h.nchs]
  omega

/-- The page counts of a line bound the one-shot pages of a block. -/
theorem oneshots_lt (h : g.Shipped o) : 48 * o < 2 ^ 31 := by
  rw [← h.pgsPerLine.2]
  exact g.pages_lt .tlc

end Geometry.Shipped

/-- The one-shot pages of all blocks cover the raw size. -/
theorem size_le_shippedOneshots (size : Nat) : size ≤ 805306368 * shippedOneshots size + 3 := by
  have hblk := le_divRoundUp_mul (size / 4) (d := 4096) (by simp)
  have ho := le_divRoundUp_mul (divRoundUp (size / 4) 4096) (d := 49152) (by simp)
  have h : shippedOneshots size = divRoundUp (divRoundUp (size / 4) 4096) 49152 := rfl
  rw [h]
  omega

/-- `NVMEV_NAMESPACE_INIT` gives fourteen fifteenths of the raw size to the host. -/
theorem convNsSize_shipped {size : Nat} (h : size < 2 ^ 57) :
    convNsSize samsung970pro size = 14 * size / 15 := by
  have h90 : u64 (90 * size) = 90 * size := Nat.mod_eq_of_lt (by omega)
  have h10 : u64 (10 * size) = 10 * size := Nat.mod_eq_of_lt (by omega)
  have hsum : u64 (90 * size + 10 * size / 3) = 90 * size + 10 * size / 3 :=
    Nat.mod_eq_of_lt (by omega)
  show u64 (u64 (90 * size) + u64 (10 * size) / 3) / 100 = _
  rw [h90, h10, hsum]
  omega

/-- The parameters of the shipped device. -/
theorem ssdInitParamsSlc_shipped {mem spp : Ssdparams} {size : Nat}
    (h : ssdInitParamsSlc mem samsung970pro size 4 = some spp) :
    ∃ g : Geometry, g.Fits spp ∧ g.Shipped (shippedOneshots size) := by
  obtain ⟨g, b, hfits, hfrom, hb⟩ := @ssdInitParamsSlc_fits samsung970proSlc _ _ _ _ h
  exact ⟨g, hfits, hfrom.shipped hb⟩

/-- A device whose pages fit the page field has parameters. -/
theorem ssdInitParamsSlc_shipped_isSome (mem : Ssdparams) (size : Nat)
    (h : 12 * shippedOneshots size ≤ 2 ^ pageBits) :
    (ssdInitParamsSlc mem samsung970pro size 4).isSome = true := by
  have hbits : 2 ^ pageBits = 65536 := rfl
  have ho : samsung970pro.oneshots size 4 = shippedOneshots size := rfl
  have hb := baseParams_eq samsung970pro size 4 (by decide)
    (by decide) (by decide) (by decide) (by decide) (by omega)
    (by
      rw [ho, show samsung970pro.oneshotPageSize / samsung970pro.flashPageSize = 3 from rfl]
      omega)
    (by
      rw [ho, show samsung970pro.oneshotPageSize / 4096 = 12 from rfl]
      omega)
  rw [ho] at hb
  refine ssdInitParamsSlc_isSome mem hb rfl rfl
    (rfl : samsung970pro.blksPerPln * samsung970pro.slcPortion / 100 = 102) (by decide)
    (show 1024 - 102 < 2 ^ 31 by decide) ?_ ?_ ?_ (by decide) (show 1 < 2 ^ 8 by decide) ?_ ?_
  · show 1 * shippedOneshots size < 2 ^ 31
    omega
  · show 4 * shippedOneshots size < 2 ^ 31
    omega
  · show 4 * shippedOneshots size * 102 + 12 * shippedOneshots size * (1024 - 102) < 2 ^ 31
    omega
  · show 4 * 1 * (4 * shippedOneshots size) < 2 ^ 31
    omega
  · show 12 * shippedOneshots size < 2 ^ 31
    omega

/-! ## Two capacities compared -/

/-- `cpp->pba_pcent` of `conv_init_params`: the physical size in percent of the logical size. -/
def pbaPcent : Nat := 107

/-- Every logical block that the shipped device advertises has a place in its partitions, the
advertised size fits the storage, and no page count overflows. -/
theorem advertised_lbas_accepted (mem : Ssdparams) (memmapSize : Nat)
    (hpg : 12 * shippedOneshots (storageSize memmapSize) ≤ 2 ^ pageBits) :
    ∃ spp, ssdInitParamsSlc mem samsung970pro (storageSize memmapSize)
        samsung970pro.ssdPartitions = some spp ∧ (spp.pgsPerBlk : Nat) ≤ 2 ^ pageBits ∧
      convNsSize samsung970pro (storageSize memmapSize) =
        ((100 - samsung970pro.slcPortion) * storageSize memmapSize +
          samsung970pro.slcPortion * storageSize memmapSize / 3) / 100 ∧
      convNsSize samsung970pro (storageSize memmapSize) ≤ storageSize memmapSize ∧
      ∀ lba, lba < convNsSize samsung970pro (storageSize memmapSize) >>> lbaBits →
        lba / spp.secsPerPg / samsung970pro.ssdPartitions < spp.ttPgs := by
  have hsome := ssdInitParamsSlc_shipped_isSome mem _ hpg
  obtain ⟨spp, hspp⟩ := Option.isSome_iff_exists.mp hsome
  obtain ⟨g, hfits, hship⟩ := ssdInitParamsSlc_shipped hspp
  have hle := size_le_shippedOneshots (storageSize memmapSize)
  have hbits : 2 ^ pageBits = 65536 := rfl
  have hsize : convNsSize samsung970pro (storageSize memmapSize) = 14 * storageSize memmapSize / 15 :=
    convNsSize_shipped (by omega)
  refine ⟨spp, hspp, ?_, ?_, by omega, fun lba hlba => ?_⟩
  · have htlc : (spp.pgsPerBlk : Int) = g.pgsPerBlk .tlc := hfits.pgsPerBlk .tlc
    rw [hship.pgsPerBlk.2] at htlc
    omega
  · rw [hsize, show samsung970pro.slcPortion = 10 from rfl]
    omega
  · rw [hsize, show lbaBits = 9 from rfl, Nat.shiftRight_eq_div_pow] at hlba
    rw [hfits.secsPerPg, hfits.ttPgs, hship.ttPgs, show samsung970pro.ssdPartitions = 4 from rfl]
    omega

/-- The documented module parameters, 3 GiB of reserved memory. -/
theorem advertised_lbas_accepted_3G : ∃ spp,
    ssdInitParamsSlc default samsung970pro (storageSize (3 * 2 ^ 30))
      samsung970pro.ssdPartitions = some spp ∧
    5870113 / spp.secsPerPg / samsung970pro.ssdPartitions < spp.ttPgs := by
  obtain ⟨spp, hspp, -, -, -, hlba⟩ := advertised_lbas_accepted default (3 * 2 ^ 30)
    (by decide)
  exact ⟨spp, hspp, hlba 5870113 (by decide)⟩

/-- The least raw size of a device of `o` one-shot pages a block whose advertised size leaves
less than the configured spare area. -/
def spareLimit (o : Nat) : Nat :=
  divRoundUp (15 * divRoundUp (100 * (4 * (45888 * o) * 4096 + 1)) 107) 14

/-- The advertised size of the shipped device leaves the spare area exactly when the raw size
is below a limit that its block size sets. -/
theorem spare_area_iff (mem spp : Ssdparams) (memmapSize : Nat)
    (hspp : ssdInitParamsSlc mem samsung970pro (storageSize memmapSize)
      samsung970pro.ssdPartitions = some spp) :
    convNsSize samsung970pro (storageSize memmapSize) * pbaPcent / 100 ≤
        samsung970pro.ssdPartitions * spp.ttPgs * spp.pgsz ↔
      storageSize memmapSize < spareLimit (shippedOneshots (storageSize memmapSize)) := by
  obtain ⟨g, hfits, hship⟩ := ssdInitParamsSlc_shipped hspp
  have hle := size_le_shippedOneshots (storageSize memmapSize)
  have holt := hship.oneshots_lt
  rw [convNsSize_shipped (by omega), hfits.ttPgs, hfits.pgsz, hship.ttPgs,
    show samsung970pro.ssdPartitions = 4 from rfl]
  generalize storageSize memmapSize = size at *
  generalize shippedOneshots size = o at *
  rw [spareLimit, lt_divRoundUp (by simp), pbaPcent]
  have hlimit := lt_divRoundUp (k := 14 * size / 15) (n := 100 * (4 * (45888 * o) * 4096 + 1))
    (d := 107) (by simp)
  generalize divRoundUp (100 * (4 * (45888 * o) * 4096 + 1)) 107 = limit at *
  constructor
  · intro h
    have := hlimit.mpr (by omega)
    omega
  · intro h
    have := hlimit.mp (by omega)
    omega

/-- A device of 512 MiB keeps its spare area. -/
theorem spare_area_512M : ∃ spp,
    ssdInitParamsSlc default samsung970pro (storageSize (2 ^ 29)) samsung970pro.ssdPartitions =
      some spp ∧
    convNsSize samsung970pro (storageSize (2 ^ 29)) * pbaPcent / 100 ≤
      samsung970pro.ssdPartitions * spp.ttPgs * spp.pgsz := by
  obtain ⟨spp, hspp⟩ := Option.isSome_iff_exists.mp
    (ssdInitParamsSlc_shipped_isSome default (storageSize (2 ^ 29)) (by decide))
  exact ⟨spp, hspp, (spare_area_iff default spp (2 ^ 29) hspp).mpr (by decide)⟩

/-- The documented 3 GiB of reserved memory do not leave the spare area. -/
theorem spare_area_missing_3G : validateConfigs (4 * 2 ^ 30) (3 * 2 ^ 30) true = true ∧
    ∃ spp, ssdInitParamsSlc default samsung970pro (storageSize (3 * 2 ^ 30))
        samsung970pro.ssdPartitions = some spp ∧
      samsung970pro.ssdPartitions * spp.ttPgs * spp.pgsz <
        convNsSize samsung970pro (storageSize (3 * 2 ^ 30)) * pbaPcent / 100 := by
  have h : (ssdInitParamsSlc default samsung970pro (storageSize (3 * 2 ^ 30))
      samsung970pro.ssdPartitions).map (fun spp => decide
        (samsung970pro.ssdPartitions * spp.ttPgs * spp.pgsz <
          convNsSize samsung970pro (storageSize (3 * 2 ^ 30)) * pbaPcent / 100)) = some true := by
    decide +kernel
  obtain ⟨spp, hspp, hlt⟩ := Option.map_eq_some_iff.mp h
  exact ⟨by decide, spp, hspp, of_decide_eq_true hlt⟩

end NvmeVirt
