import NvmeVirt.Ssd.Config

/-!
# The parameter initialisers

`ssd_init_params` and `ssd_init_params_slc` share their first half. The first
leaves the SLC fields of the caller's `struct ssdparams` as it finds them, so it
takes that memory as an argument.
-/

namespace NvmeVirt

/-- Blocks per plane and block size: one is a macro, the other follows from the capacity. -/
def blockLayout (cfg : SsdConfig) (capacity nchs : Nat) : Option (Nat × Nat) :=
  if cfg.blksPerPln > 0 then do
    let d ← cInt (cfg.blksPerPln * cfg.plnsPerLun * cfg.lunsPerNandCh * nchs)
    return (cfg.blksPerPln, divRoundUp capacity d)
  else do
    cAssert (cfg.blkSize > 0)
    let d ← cULong (cfg.blkSize * cfg.plnsPerLun * cfg.lunsPerNandCh * nchs)
    let blksPerPl ← cInt (divRoundUp capacity d)
    return (blksPerPl, cfg.blkSize)

/-- The fields both initialisers assign before the calculated values. -/
structure BaseParams where
  nchs : Nat
  blksPerPl : Nat
  pgsPerOneshotpg : Nat
  oneshotpgsPerBlk : Nat
  pgsPerFlashpg : Nat
  flashpgsPerBlk : Nat
  pgsPerBlk : Nat

/-- The shared first half: partition by channel, then the sizes in pages. -/
def baseParams (cfg : SsdConfig) (capacity nparts : Nat) : Option BaseParams := do
  let pgsz := lbaSize * (4096 / lbaSize)
  cAssert (cfg.nandChannels % nparts = 0)
  let nchs := cfg.nandChannels / nparts
  let capacity := capacity / nparts
  let (blksPerPl, blkSize) ← blockLayout cfg capacity nchs
  cAssert (cfg.oneshotPageSize % pgsz = 0 ∧ cfg.flashPageSize % pgsz = 0)
  cAssert (cfg.oneshotPageSize % cfg.flashPageSize = 0)
  let pgsPerOneshotpg := cfg.oneshotPageSize / pgsz
  let oneshotpgsPerBlk ← cInt (divRoundUp blkSize cfg.oneshotPageSize)
  let pgsPerFlashpg := cfg.flashPageSize / pgsz
  let flashpgsPerBlk ← cInt (cfg.oneshotPageSize / cfg.flashPageSize * oneshotpgsPerBlk)
  let pgsPerBlk ← cInt (pgsPerOneshotpg * oneshotpgsPerBlk)
  return { nchs, blksPerPl, pgsPerOneshotpg, oneshotpgsPerBlk, pgsPerFlashpg, flashpgsPerBlk,
           pgsPerBlk }

/-- The fields copied from macros and from the shared half, over the caller's memory. -/
def Ssdparams.assignBase (spp : Ssdparams) (cfg : SsdConfig) (b : BaseParams) : Ssdparams :=
  { spp with
    secsz := lbaSize
    secsPerPg := 4096 / lbaSize
    pgsz := lbaSize * (4096 / lbaSize)
    nchs := b.nchs
    plsPerLun := cfg.plnsPerLun
    lunsPerCh := cfg.lunsPerNandCh
    cellMode := cfg.cellMode
    blksPerPl := b.blksPerPl
    pgsPerOneshotpg := b.pgsPerOneshotpg
    oneshotpgsPerBlk := b.oneshotpgsPerBlk
    pgsPerFlashpg := b.pgsPerFlashpg
    flashpgsPerBlk := b.flashpgsPerBlk
    pgsPerBlk := b.pgsPerBlk
    writeUnitSize := cfg.writeUnitSize
    pg4kbRdLat := cfg.nand4kbReadLatency
    pgRdLat := cfg.nandReadLatency
    pgWrLat := cfg.nandProgLatency
    blkErLat := cfg.nandEraseLatency
    maxChXferSize := cfg.maxChXferSize
    fw4kbRdLat := cfg.fw4kbReadLatency
    fwRdLat := cfg.fwReadLatency
    fwChXferLat := cfg.fwChXferLatency
    fwWbufLat0 := cfg.fwWbufLatency0
    fwWbufLat1 := cfg.fwWbufLatency1
    chBandwidth := cfg.nandChannelBandwidth
    pcieBandwidth := cfg.pcieBandwidth
    writeBufferSize := cfg.globalWbSize
    writeEarlyCompletion := cfg.writeEarlyCompletion }

/-- `ssd_init_params`, over the memory `spp` of the caller. -/
def ssdInitParams (spp : Ssdparams) (cfg : SsdConfig) (capacity nparts : Nat) :
    Option Ssdparams := do
  let b ← baseParams cfg capacity nparts
  let pgsPerPl ← cInt (b.pgsPerBlk * b.blksPerPl)
  let pgsPerLun ← cULong (pgsPerPl * cfg.plnsPerLun)
  let pgsPerCh ← cULong (pgsPerLun * cfg.lunsPerNandCh)
  let ttPgs ← cULong (pgsPerCh * b.nchs)
  let ttLuns ← cInt (cfg.lunsPerNandCh * b.nchs)
  let pgsPerLine ← cULong (ttLuns * b.pgsPerBlk)
  let ttLines ← cInt (b.blksPerPl * cfg.plnsPerLun)
  return { spp.assignBase cfg b with
    pgsPerPl, pgsPerLun, pgsPerCh, ttPgs, ttLuns
    blksPerLine := ttLuns
    pgsPerLine, ttLines }

/-- `ssd_init_params_slc`, over the memory `spp` of the caller. -/
def ssdInitParamsSlc (spp : Ssdparams) (cfg : SsdConfig) (capacity nparts : Nat) :
    Option Ssdparams := do
  let b ← baseParams cfg capacity nparts
  let pgsz := lbaSize * (4096 / lbaSize)
  let ttLines := b.blksPerPl
  let oneshotpgsPerBlkSlc := b.oneshotpgsPerBlk
  let pgsPerOneshotpgSlc := cfg.slcOneshotPageSize / pgsz
  let flashpgsPerBlkSlc ←
    cInt (cfg.slcOneshotPageSize / cfg.flashPageSize * oneshotpgsPerBlkSlc)
  let pgsPerBlkSlc ← cInt (pgsPerOneshotpgSlc * oneshotpgsPerBlkSlc)
  let ttLinesSlc ← cInt (ttLines * cfg.slcPortion / 100)
  let ttLinesTlc ← cInt (ttLines - ttLinesSlc)
  let slcPgs ← cInt (pgsPerBlkSlc * ttLinesSlc)
  let tlcPgs ← cInt (b.pgsPerBlk * ttLinesTlc)
  let pgsPerPl ← cInt (slcPgs + tlcPgs)
  let pgsPerLun ← cULong (pgsPerPl * cfg.plnsPerLun)
  let pgsPerCh ← cULong (pgsPerLun * cfg.lunsPerNandCh)
  let ttPgs ← cULong (pgsPerCh * b.nchs)
  let ttLuns ← cInt (cfg.lunsPerNandCh * b.nchs)
  let pgsPerLineSlc ← cInt (ttLuns * pgsPerBlkSlc)
  let pgsPerLine ← cULong (ttLuns * b.pgsPerBlk)
  cAssert (cfg.blksPerPln = ttLines)
  return { spp.assignBase cfg b with
    oneshotpgsPerBlkSlc
    pg4kbRdLatSlc := cfg.nand4kbReadLatencySlc
    pgRdLatSlc := cfg.nandReadLatencySlc
    pgWrLatSlc := cfg.nandProgLatencySlc
    blkErLatSlc := cfg.nandEraseLatencySlc
    pgsPerOneshotpgSlc, flashpgsPerBlkSlc, pgsPerBlkSlc, ttLinesSlc, ttLinesTlc
    ttLines, pgsPerPl, pgsPerLun, pgsPerCh, ttPgs, ttLuns
    blksPerLine := ttLuns
    pgsPerLineSlc, pgsPerLine }

/-- `ssd_init_params_slc` assigns every field. -/
theorem ssdInitParamsSlc_memory (spp spp' : Ssdparams) (cfg : SsdConfig) (capacity nparts : Nat) :
    ssdInitParamsSlc spp cfg capacity nparts = ssdInitParamsSlc spp' cfg capacity nparts := rfl

/-! ## Values of the C types -/

/-- A value that fits is the value. -/
theorem cInt_eq_some {x y : Nat} : cInt x = some y ↔ x < 2 ^ 31 ∧ y = x := by
  unfold cInt
  by_cases h : x < 2 ^ 31
  · rw [if_pos h, Option.some.injEq, and_iff_right h, eq_comm]
  · rw [if_neg h]
    exact ⟨nofun, fun h' => absurd h'.1 h⟩

theorem cULong_eq_some {x y : Nat} : cULong x = some y ↔ x < 2 ^ 64 ∧ y = x := by
  unfold cULong
  by_cases h : x < 2 ^ 64
  · rw [if_pos h, Option.some.injEq, and_iff_right h, eq_comm]
  · rw [if_neg h]
    exact ⟨nofun, fun h' => absurd h'.1 h⟩

theorem cAssert_eq_some {c : Prop} [Decidable c] {u : Unit} : cAssert c = some u ↔ c := by
  unfold cAssert
  split <;> simp_all

/-- The size of a page is fixed. -/
theorem pgsz_eq : lbaSize * (4096 / lbaSize) = 4096 := by decide

/-! ## Module parameters and the advertised size -/

/-- The part of `__validate_configs` that constrains the memory range. The
architecture check against the firmware's memory map is the argument `archOk`. -/
def validateConfigs (memmapStart memmapSize : Nat) (archOk : Bool) : Bool :=
  memmapStart ≠ 0 && memmapSize ≠ 0 && !(decide (memmapSize ≤ mb 1)) && archOk

/-- `config.storage_size` of `__load_configs`. -/
def storageSize (memmapSize : Nat) : Nat := memmapSize - mb 1

/-- The size `NVMEV_NAMESPACE_INIT` finally gives a conventional namespace. -/
def convNsSize (cfg : SsdConfig) (size : Nat) : Nat :=
  u64 (u64 ((100 - cfg.slcPortion) * size) + u64 (cfg.slcPortion * size) / 3) / 100

end NvmeVirt
