import Mathlib.Algebra.Ring.Int.Defs
import Mathlib.Algebra.Ring.Nat
import Mathlib.Tactic.Common

/-!
# Build configuration and device geometry

`ssd_config.h` fixes one record of macros for each `BASE_SSD`. The two parameter
initialisers of `ssd.c` turn such a record and a capacity into the geometry that
the translation layers use. A C `int` or `unsigned long` result that does not
fit its type has no defined value, so both initialisers are partial: they give
`none` there, and at an `NVMEV_ASSERT` that fails. Figures that are only printed
are left out.
-/

namespace NvmeVirt

/-! ## C arithmetic -/

/-- The value of an `int` computation, when it fits. -/
def cInt (x : Nat) : Option Nat := if x < 2 ^ 31 then some x else none

/-- The value of an `unsigned long` computation, when it fits. -/
def cULong (x : Nat) : Option Nat := if x < 2 ^ 64 then some x else none

/-- The value of an `NVMEV_ASSERT` in an initialiser. -/
def cAssert (c : Prop) [Decidable c] : Option Unit := if c then some () else none

/-- Reduction to an `uint32_t`. -/
def u32 (x : Nat) : Nat := x % 2 ^ 32

/-- Reduction to an `uint64_t`. -/
def u64 (x : Nat) : Nat := x % 2 ^ 64

/-- An unsigned value assigned to an `int`. -/
def asInt (x : Nat) : Int := Int.bmod x (2 ^ 32)

/-- An unsigned value below `2 ^ 31` is unchanged as an `int`. -/
theorem asInt_of_lt {x : Nat} (h : x < 2 ^ 31) : asInt x = x :=
  Int.bmod_eq_of_le (by omega) (by omega)

/-- Subtraction of `uint32_t` values. -/
def u32Sub (x y : Nat) : Nat := (((x : Int) - y) % 2 ^ 32).toNat

/-- Subtraction of `uint64_t` values. -/
def u64Sub (x y : Nat) : Nat := (((x : Int) - y) % 2 ^ 64).toNat

/-- `KB`, `MB` and `DIV_ROUND_UP`. -/
def kb (k : Nat) : Nat := k * 2 ^ 10

@[inherit_doc kb] def mb (m : Nat) : Nat := m * 2 ^ 20

@[inherit_doc kb] def divRoundUp (n d : Nat) : Nat := (n + d - 1) / d

/-! ## `ssd_config.h` -/

/-- The macros of one `BASE_SSD` branch, with the SLC cache switch. -/
structure SsdConfig where
  enableSlcCache : Bool
  cellMode : Nat
  ssdPartitions : Nat
  nandChannels : Nat
  lunsPerNandCh : Nat
  plnsPerLun : Nat
  flashPageSize : Nat
  oneshotPageSize : Nat
  blksPerPln : Nat
  blkSize : Nat
  maxChXferSize : Nat
  writeUnitSize : Nat
  nandChannelBandwidth : Nat
  pcieBandwidth : Nat
  /-- Indexed by cell type: LSB, MSB, CSB. -/
  nand4kbReadLatency : Nat → Nat
  nandReadLatency : Nat → Nat
  nandProgLatency : Nat
  nandEraseLatency : Nat
  slcPortion : Nat
  slcOneshotPageSize : Nat
  nand4kbReadLatencySlc : Nat
  nandReadLatencySlc : Nat
  nandProgLatencySlc : Nat
  nandEraseLatencySlc : Nat
  fw4kbReadLatency : Nat
  fwReadLatency : Nat
  fwWbufLatency0 : Nat
  fwWbufLatency1 : Nat
  fwChXferLatency : Nat
  globalWbSize : Nat
  writeEarlyCompletion : Bool

/-- The three entries of a latency table indexed by cell type. -/
def cellTable (lsb msb csb : Nat) : Nat → Nat
  | 0 => lsb
  | 1 => msb
  | _ => csb

/-- `BASE_SSD == SAMSUNG_970PRO`, the configuration `Kbuild` selects. -/
def samsung970pro : SsdConfig where
  enableSlcCache := true
  cellMode := 3
  ssdPartitions := 4
  nandChannels := 4
  lunsPerNandCh := 4
  plnsPerLun := 1
  flashPageSize := kb 16
  oneshotPageSize := kb 16 * 3
  blksPerPln := 1024
  blkSize := 0
  maxChXferSize := kb 16
  writeUnitSize := 512
  nandChannelBandwidth := 800
  pcieBandwidth := 3360
  nand4kbReadLatency := cellTable (35760 - 6000) (35760 + 6000) 35760
  nandReadLatency := cellTable (36013 - 6000) (36013 + 6000) 36013
  nandProgLatency := 185000
  nandEraseLatency := 0
  slcPortion := 10
  slcOneshotPageSize := kb 16
  nand4kbReadLatencySlc := 16254
  nandReadLatencySlc := 16369
  nandProgLatencySlc := 40547
  nandEraseLatencySlc := 0
  fw4kbReadLatency := 21500
  fwReadLatency := 30490
  fwWbufLatency0 := 4000
  fwWbufLatency1 := 460
  fwChXferLatency := 0
  globalWbSize := 4 * 4 * (kb 16 * 3) * 2
  writeEarlyCompletion := true

/-- `LBA_BITS`, the same in every configuration. -/
def lbaBits : Nat := 9

/-- `LBA_SIZE`. -/
def lbaSize : Nat := 1 <<< lbaBits

/-- `LBA_TO_BYTE` on an `uint64_t`. -/
def lbaToByte (lba : Nat) : Nat := u64 (lba <<< lbaBits)

/-! ## `struct ssdparams` -/

/-- The geometry and latencies of one device. The fields that only
`ssd_init_params_slc` assigns are C `int`s whose unassigned value may be
negative; all others are assigned by both initialisers and never negative. -/
structure Ssdparams where
  secsz : Nat
  secsPerPg : Nat
  pgsz : Nat
  pgsPerFlashpg : Nat
  flashpgsPerBlk : Nat
  pgsPerOneshotpg : Nat
  oneshotpgsPerBlk : Nat
  pgsPerBlk : Nat
  blksPerPl : Nat
  plsPerLun : Nat
  lunsPerCh : Nat
  nchs : Nat
  cellMode : Nat
  writeUnitSize : Nat
  writeEarlyCompletion : Bool
  pg4kbRdLat : Nat → Nat
  pgRdLat : Nat → Nat
  pgWrLat : Nat
  blkErLat : Nat
  maxChXferSize : Nat
  fw4kbRdLat : Nat
  fwRdLat : Nat
  fwWbufLat0 : Nat
  fwWbufLat1 : Nat
  fwChXferLat : Nat
  chBandwidth : Nat
  pcieBandwidth : Nat
  pgsPerPl : Nat
  pgsPerLun : Nat
  pgsPerCh : Nat
  ttPgs : Nat
  pgsPerLine : Nat
  blksPerLine : Nat
  ttLines : Nat
  ttLuns : Nat
  pg4kbRdLatSlc : Int
  pgRdLatSlc : Int
  pgWrLatSlc : Int
  blkErLatSlc : Int
  flashpgsPerBlkSlc : Int
  oneshotpgsPerBlkSlc : Int
  pgsPerOneshotpgSlc : Int
  pgsPerBlkSlc : Int
  pgsPerLineSlc : Int
  ttLinesTlc : Int
  ttLinesSlc : Int
  writeBufferSize : Nat
  deriving Inhabited

end NvmeVirt
