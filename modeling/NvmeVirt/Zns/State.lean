import NvmeVirt.Ssd.Timing

/-!
# Zones

The state of `zns_ftl.c`: parameters, zone descriptors, the three resource counters and the
buffers that zones are written through, with the creation of a namespace. Reaching past the
arrays of zones is a fault.
-/

namespace NvmeVirt

open Checked

/-! ## Configuration -/

/-- The macros of a configuration with zones. The facts are what its `static_assert`s and its
divisions demand. -/
structure ZnsConfig extends SsdConfig where
  zoneSize : Nat
  diesPerZone : Nat
  zoneWbSize : Nat
  maxZrwaZones : Nat
  zrwafgSize : Nat
  zrwaSize : Nat
  zrwaBufferSize : Nat
  flash_pos : 0 < flashPageSize
  oneshot_pos : 0 < oneshotPageSize
  writeUnit_pos : 0 < writeUnitSize
  dies_pos : 0 < diesPerZone
  dies_lt : diesPerZone < 2 ^ 32
  dies_dvd : diesPerZone ∣ zoneSize
  blkSize_eq : blkSize = zoneSize / diesPerZone
  luns_pos : 0 < lunsPerNandCh
  chs_pos : 0 < nandChannels

/-- `BASE_SSD == ZNS_PROTOTYPE`. The macros of the SLC cache are not defined there. -/
def znsPrototype : ZnsConfig where
  enableSlcCache := true
  cellMode := 3
  ssdPartitions := 1
  nandChannels := 8
  lunsPerNandCh := 16
  plnsPerLun := 1
  flashPageSize := kb 64
  oneshotPageSize := kb 64 * 2
  blksPerPln := 0
  blkSize := mb 32 / 1
  maxChXferSize := kb 64
  writeUnitSize := kb 64 * 2
  nandChannelBandwidth := 800
  pcieBandwidth := 3200
  nand4kbReadLatency := cellTable 25485 25485 25485
  nandReadLatency := cellTable 40950 40950 40950
  nandProgLatency := 1913640
  nandEraseLatency := 0
  slcPortion := 0
  slcOneshotPageSize := 0
  nand4kbReadLatencySlc := 0
  nandReadLatencySlc := 0
  nandProgLatencySlc := 0
  nandEraseLatencySlc := 0
  fw4kbReadLatency := 37540 - 7390 + 2000
  fwReadLatency := 37540 - 7390 + 2000
  fwWbufLatency0 := 0
  fwWbufLatency1 := 0
  fwChXferLatency := 413
  globalWbSize := 8 * 16 * (kb 64 * 2) * 2
  writeEarlyCompletion := false
  zoneSize := mb 32
  diesPerZone := 1
  zoneWbSize := 0
  maxZrwaZones := 0
  zrwafgSize := 0
  zrwaSize := 0
  zrwaBufferSize := 0
  flash_pos := by decide
  oneshot_pos := by decide
  writeUnit_pos := by decide
  dies_pos := by decide
  dies_lt := by decide
  dies_dvd := by decide
  blkSize_eq := by decide
  luns_pos := by decide
  chs_pos := by decide

/-- A configuration with random write areas: zones of 128 KiB, one one-shot page each. -/
def znsWithZrwa : ZnsConfig :=
  { znsPrototype with
    blkSize := kb 128 / 1
    zoneSize := kb 128
    maxZrwaZones := 1
    zrwafgSize := kb 4
    zrwaSize := kb 128
    zrwaBufferSize := kb 256
    dies_dvd := by decide
    blkSize_eq := by decide }

/-- `BASE_SSD == WD_ZN540`, with zones of 1 MiB: the source asks to adjust the zone size. -/
def wdZn540 : ZnsConfig where
  enableSlcCache := true
  cellMode := 3
  ssdPartitions := 1
  nandChannels := 8
  lunsPerNandCh := 4
  plnsPerLun := 1
  flashPageSize := kb 32
  oneshotPageSize := kb 32 * 3
  blksPerPln := 0
  blkSize := mb 1 / (8 * 4)
  maxChXferSize := kb 32
  writeUnitSize := 512
  nandChannelBandwidth := 450
  pcieBandwidth := 3050
  nand4kbReadLatency := cellTable 50000 50000 50000
  nandReadLatency := cellTable 58000 58000 58000
  nandProgLatency := 561000
  nandEraseLatency := 0
  slcPortion := 0
  slcOneshotPageSize := 0
  nand4kbReadLatencySlc := 0
  nandReadLatencySlc := 0
  nandProgLatencySlc := 0
  nandEraseLatencySlc := 0
  fw4kbReadLatency := 20000
  fwReadLatency := 13000
  fwWbufLatency0 := 5600
  fwWbufLatency1 := 600
  fwChXferLatency := 0
  globalWbSize := 0
  writeEarlyCompletion := true
  zoneSize := mb 1
  diesPerZone := 8 * 4
  zoneWbSize := 10 * (kb 32 * 3)
  maxZrwaZones := 0
  zrwafgSize := 0
  zrwaSize := 0
  zrwaBufferSize := 0
  flash_pos := by decide
  oneshot_pos := by decide
  writeUnit_pos := by decide
  dies_pos := by decide
  dies_lt := by decide
  dies_dvd := by decide
  blkSize_eq := by decide
  luns_pos := by decide
  chs_pos := by decide

/-- `struct znsparams`. -/
structure Znsparams where
  nrZones : Nat
  nrActiveZones : Nat
  nrOpenZones : Nat
  diesPerZone : Nat
  zoneSize : Nat
  zoneWbSize : Nat
  nrZrwaZones : Nat
  zrwafgSize : Nat
  zrwaSize : Nat
  zrwaBufferSize : Nat
  lbasPerZrwafg : Nat
  lbasPerZrwa : Nat
  deriving DecidableEq, Repr, Inhabited

/-! ## Zones -/

/-- What a command on zones does not survive. -/
inductive ZnsFault
  /-- A failed assertion or an overflow in a parameter initialiser. -/
  | initParams
  /-- A zone index that is not below `nr_zones`. -/
  | zoneIndex
  /-- `buffer_allocate`: `size <= buf->size`. -/
  | bufferSize
  /-- `zrwa_buffer` is not allocated when `zrwa_buffer_size` is 0. -/
  | nullBuffer
  /-- `NVMEV_ASSERT(0)` when `zrwa_size` cannot be allocated. -/
  | zrwaAllocate
  /-- A division by `lbas_per_zrwafg`. -/
  | divByZero
  deriving DecidableEq, Repr

/-- `enum zone_state`. -/
inductive ZoneState
  | empty
  | openedImpl
  | openedExpl
  | closed
  | readOnly
  | full
  | offline
  deriving DecidableEq, Repr, Inhabited

/-- `struct zone_descriptor`; the type of a zone never changes. -/
structure ZoneDescriptor where
  state : ZoneState
  zrwav : Bool
  zoneCapacity : Nat
  zslba : Nat
  wp : Nat
  deriving DecidableEq, Repr, Inhabited

/-- `enum zone_resource_type`. -/
inductive ZoneResource
  | active
  | opened
  | zrwa
  deriving DecidableEq, Repr

/-- `struct zone_resource_info`. -/
structure ZoneResourceInfo where
  acquiredCnt : Nat
  totalCnt : Nat
  deriving DecidableEq, Repr, Inhabited

/-- `struct zone_report`. -/
structure ZoneReport where
  nrZones : Nat
  zd : Nat → ZoneDescriptor
  deriving Inhabited

/-- The buffers that a write allocates from: that of the device, of a zone, or of a random
write area. -/
inductive BufferRef
  | device
  | zone (zid : Nat)
  | zrwa (zid : Nat)
  deriving DecidableEq, Repr

/-- The arguments of one call of `schedule_internal_operation`. -/
structure ZnsInternalOp where
  sqid : Nat
  nsecsTarget : Nat
  writeBuffer : BufferRef
  buffsToRelease : Nat
  deriving DecidableEq, Repr

/-- `struct zns_ftl`, with the `write_buffer` of its device and the internal operations that no
worker has completed yet. `programs` records the one-shot pages of each zone that were
programmed since its last reset, and is read by no code. -/
structure ZnsFtl where
  enableSlcCache : Bool
  ssd : Ssd
  zp : Znsparams
  resInfos : ZoneResource → ZoneResourceInfo
  zoneDescs : Nat → ZoneDescriptor
  reportBuffer : ZoneReport
  buffers : BufferRef → Buffer
  pending : List ZnsInternalOp
  programs : Nat → List Nat

namespace ZnsFtl

/-! ## Addresses -/

/-- `zone_size / secsz`. -/
def lbasPerZone (z : ZnsFtl) : Nat := z.zp.zoneSize / z.ssd.sp.secsz

/-- `zone_size / pgsz`. -/
def pgsPerZone (z : ZnsFtl) : Nat := z.zp.zoneSize / z.ssd.sp.pgsz

/-- `lpn_to_zone`. -/
def lpnToZone (z : ZnsFtl) (lpn : Nat) : Nat := u32 (lpn / z.pgsPerZone)

/-- `zone_to_slpn`. -/
def zoneToSlpn (z : ZnsFtl) (zid : Nat) : Nat := u32 (zid * z.pgsPerZone)

/-- `lba_to_zone`. -/
def lbaToZone (z : ZnsFtl) (lba : Nat) : Nat := u32 (lba / z.lbasPerZone)

/-- `zone_to_slba`. -/
def zoneToSlba (z : ZnsFtl) (zid : Nat) : Nat := u32 (zid * z.lbasPerZone)

/-- `zone_to_elba`. -/
def zoneToElba (z : ZnsFtl) (zid : Nat) : Nat := u64Sub (z.zoneToSlba (u32 (zid + 1))) 1

/-- `zone_to_elpn`. -/
def zoneToElpn (z : ZnsFtl) (zid : Nat) : Nat := z.zoneToElba zid / z.ssd.sp.secsPerPg

/-- `lba_to_lpn`. -/
def lbaToLpn (z : ZnsFtl) (lba : Nat) : Nat := lba / z.ssd.sp.secsPerPg

/-! ## Descriptors and resources -/

/-- Read `zone_descs[zid]`. -/
def getZone (z : ZnsFtl) (zid : Nat) : Except ZnsFault ZoneDescriptor := do
  require (zid < z.zp.nrZones) .zoneIndex
  return z.zoneDescs zid

/-- Store `zone_descs[zid]`. -/
def setZone (z : ZnsFtl) (zid : Nat) (d : ZoneDescriptor) : ZnsFtl :=
  { z with zoneDescs := Function.update z.zoneDescs zid d }

/-- `change_zone_state`. -/
def changeZoneState (z : ZnsFtl) (zid : Nat) (state : ZoneState) : ZnsFtl :=
  z.setZone zid { z.zoneDescs zid with state }

/-- `is_zone_resource_avail`. -/
def isZoneResourceAvail (z : ZnsFtl) (t : ZoneResource) : Bool :=
  (z.resInfos t).acquiredCnt < (z.resInfos t).totalCnt

/-- `is_zone_resource_full`. -/
def isZoneResourceFull (z : ZnsFtl) (t : ZoneResource) : Bool :=
  (z.resInfos t).acquiredCnt = (z.resInfos t).totalCnt

/-- Store the number of acquired resources. -/
def setAcquired (z : ZnsFtl) (t : ZoneResource) (n : Nat) : ZnsFtl :=
  { z with resInfos := Function.update z.resInfos t { z.resInfos t with acquiredCnt := n } }

/-- `acquire_zone_resource`. -/
def acquireZoneResource (z : ZnsFtl) (t : ZoneResource) : Bool × ZnsFtl :=
  if z.isZoneResourceAvail t then (true, z.setAcquired t ((z.resInfos t).acquiredCnt + 1))
  else (false, z)

/-- `release_zone_resource`; its `ASSERT` is compiled out. -/
def releaseZoneResource (z : ZnsFtl) (t : ZoneResource) : ZnsFtl :=
  z.setAcquired t (u32Sub (z.resInfos t).acquiredCnt 1)

/-! ## Buffers -/

/-- The buffer exists. -/
def Mapped (z : ZnsFtl) : BufferRef → Prop
  | .device => True
  | .zone _ => z.zp.zoneWbSize ≠ 0
  | .zrwa _ => z.zp.zrwaBufferSize ≠ 0

instance (z : ZnsFtl) (b : BufferRef) : Decidable (z.Mapped b) :=
  match b with
  | .device => .isTrue trivial
  | .zone _ => inferInstanceAs (Decidable (_ ≠ _))
  | .zrwa _ => inferInstanceAs (Decidable (_ ≠ _))

/-- Store a buffer. -/
def setBuffer (z : ZnsFtl) (b : BufferRef) (buf : Buffer) : ZnsFtl :=
  { z with buffers := Function.update z.buffers b buf }

/-- `buffer_allocate` on a buffer of the namespace. -/
def allocate (z : ZnsFtl) (b : BufferRef) (size : Nat) : Except ZnsFault (Nat × ZnsFtl) := do
  require (z.Mapped b) .nullBuffer
  match bufferAllocate (z.buffers b) size with
  | .error _ => .error .bufferSize
  | .ok (n, buf) => return (n, z.setBuffer b buf)

/-- `buffer_refill` on a buffer of the namespace. -/
def refill (z : ZnsFtl) (b : BufferRef) : ZnsFtl :=
  z.setBuffer b { z.buffers b with remaining := (z.buffers b).size }

/-- The buffer that writes to a zone go through. -/
def writeBufferOf (z : ZnsFtl) (zid : Nat) : BufferRef :=
  if z.zp.zoneWbSize ≠ 0 then .zone zid else .device

end ZnsFtl

/-! ## Creating a namespace -/

/-- `zns_init_params`. -/
def znsInitParams (cfg : ZnsConfig) (spp : Ssdparams) (capacity : Nat) :
    Except ZnsFault Znsparams := do
  let zpp : Znsparams :=
    { zoneSize := u32 cfg.zoneSize
      nrZones := u32 (capacity / cfg.zoneSize)
      diesPerZone := u32 cfg.diesPerZone
      nrActiveZones := u32 (capacity / cfg.zoneSize)
      nrOpenZones := u32 (capacity / cfg.zoneSize)
      nrZrwaZones := u32 cfg.maxZrwaZones
      zoneWbSize := u32 cfg.zoneWbSize
      zrwaSize := u32 cfg.zrwaSize
      zrwafgSize := u32 cfg.zrwafgSize
      zrwaBufferSize := u32 cfg.zrwaBufferSize
      lbasPerZrwa := u32 (cfg.zrwaSize / spp.secsz)
      lbasPerZrwafg := u32 (cfg.zrwafgSize / spp.secsz) }
  require (zpp.zoneSize ≠ 0 ∧ capacity % zpp.zoneSize = 0) .initParams
  require (zpp.zoneSize % spp.pgsz = 0) .initParams
  return zpp

/-- `__init_descriptor` for the zone `i`. -/
def initDescriptor (zpp : Znsparams) (i : Nat) : ZoneDescriptor where
  state := .empty
  zrwav := false
  zoneCapacity := zpp.zoneSize >>> lbaBits
  zslba := u64 (i * (zpp.zoneSize >>> lbaBits))
  wp := u64 (i * (zpp.zoneSize >>> lbaBits))

/-- `__init_resource`. -/
def initResource (zpp : Znsparams) (_ : ZoneResource) : ZoneResourceInfo where
  acquiredCnt := 0
  totalCnt := zpp.nrZones

/-- Uninitialised memory: the `ssdparams` on the stack, the report buffer, and what lies behind
the allocated descriptors. -/
structure ZnsMemory where
  spp : Ssdparams
  reportBuffer : ZoneReport
  behind : Nat → ZoneDescriptor
  deriving Inhabited

/-- The buffers after `ssd_init` and `__init_descriptor`. -/
def initBuffers (spp : Ssdparams) (zpp : Znsparams) : BufferRef → Buffer
  | .device => bufferInit spp.writeBufferSize
  | .zone _ => bufferInit zpp.zoneWbSize
  | .zrwa _ => bufferInit zpp.zrwaBufferSize

/-- `zns_init_namespace`. -/
def znsInitNamespace (cfg : ZnsConfig) (mem : ZnsMemory) (clock : Clock) (size : Nat) :
    Except ZnsFault ZnsFtl := do
  match ssdInitParams mem.spp cfg.toSsdConfig size 1 with
  | none => .error .initParams
  | some spp =>
    let zpp ← znsInitParams cfg spp size
    return {
      enableSlcCache := cfg.enableSlcCache
      ssd := ssdInit spp clock
      zp := zpp
      resInfos := initResource zpp
      zoneDescs := fun i => if i < zpp.nrZones then initDescriptor zpp i else mem.behind i
      reportBuffer := mem.reportBuffer
      buffers := initBuffers spp zpp
      pending := []
      programs := fun _ => [] }

end NvmeVirt
