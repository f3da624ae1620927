import NvmeVirt.Zns.State
import NvmeVirt.Conv.Command

/-!
# Reads and writes of zones

`zns_read_write.c`: writes and appends to a zone, writes to a zone with a random write area,
and reads. An append stores the write pointer in the command, so a write returns the command.
-/

namespace NvmeVirt

open Checked

/-! ## Status -/

/-- The status of a command, `NVME_SC_...`. -/
inductive ZnsStatus
  | success
  | invalidField
  | invalidZoneOperation
  | zrwaRsrcUnavail
  | errBoundary
  | errFull
  | errReadOnly
  | errOffline
  | invalidWrite
  | noActiveZone
  | noOpenZone
  | invalidTransition
  deriving DecidableEq, Repr

/-- The value of a status. -/
def ZnsStatus.code : ZnsStatus → Nat
  | .success => 0x0
  | .invalidField => 0x2
  | .invalidZoneOperation => 0x1b6
  | .zrwaRsrcUnavail => 0x1b7
  | .errBoundary => 0x1b8
  | .errFull => 0x1b9
  | .errReadOnly => 0x1ba
  | .errOffline => 0x1bb
  | .invalidWrite => 0x1bc
  | .noActiveZone => 0x1bd
  | .noOpenZone => 0x1be
  | .invalidTransition => 0x1bf

theorem ZnsStatus.code_eq_zero {s : ZnsStatus} : s.code = 0 ↔ s = .success := by
  cases s <;> simp [ZnsStatus.code]

/-- `struct nvmev_result`, with the number of bytes that the handler copied to the host. -/
structure ZnsResult where
  status : Nat
  nsecsTarget : Nat
  copied : Nat
  deriving DecidableEq, Repr

/-- A `struct nvmev_request` without its command, and the word that a handler finds on the stack
where it reads a variable it did not assign. -/
structure ZnsRequest extends NvmevRequest where
  stackWord : Nat
  deriving DecidableEq, Repr

/-- The opcode of a write, `nvme_cmd_write` or `nvme_cmd_zone_append`. -/
inductive ZnsWriteOp
  | write
  | append
  deriving DecidableEq, Repr

/-- `__nr_lbas_from_rw_cmd`. -/
def RwCommand.nrLba (c : RwCommand) : Nat := u32 (c.length + 1)

namespace ZnsFtl

/-- `__check_boundary_error`. -/
def checkBoundaryError (z : ZnsFtl) (slba nrLba : Nat) : Bool :=
  z.lbaToZone slba = z.lbaToZone (u64 (slba + nrLba - 1))

/-- `__increase_write_ptr`; its number of blocks is an `uint32_t`. -/
def increaseWritePtr (z : ZnsFtl) (zid nrLba : Nat) : ZnsFtl :=
  let d := z.zoneDescs zid
  let wp := u64 (d.wp + u32 nrLba)
  let z := z.setZone zid { d with wp }
  if wp = u64 (z.zoneToSlba zid + d.zoneCapacity) then
    ((z.releaseZoneResource .opened).releaseZoneResource .active).changeZoneState zid .full
  else z

/-- `__lpn_to_ppa`; the fields of an address have their width. -/
def lpnToPpa (z : ZnsFtl) (lpn : Nat) : Ppa :=
  let spp := z.ssd.sp
  let zone := z.lpnToZone lpn
  let off := u64Sub lpn (z.zoneToSlpn zone)
  let sdie := u32 (zone * z.zp.diesPerZone % spp.ttLuns)
  let die := u32 (sdie + off / spp.pgsPerOneshotpg % z.zp.diesPerZone)
  { pg := off % spp.pgsPerOneshotpg % 2 ^ pageBits
    blk := 0
    pl := 0
    lun := die / spp.nchs % 2 ^ lunBits
    ch := die % spp.nchs % 2 ^ chBits }

/-- The command that programs a one-shot page. -/
def programCmd (z : ZnsFtl) (lpn stime : Nat) : NandCmd where
  type := .user
  cmd := .write
  xferSize := z.ssd.sp.pgsPerOneshotpg * z.ssd.sp.pgsz
  stime := stime
  interleavePciDma := false
  ppa := some (z.lpnToPpa lpn)

/-- The index of the one-shot page of a logical page in its zone. -/
def oneshotIndex (z : ZnsFtl) (lpn : Nat) : Nat :=
  u64Sub lpn (z.zoneToSlpn (z.lpnToZone lpn)) / z.ssd.sp.pgsPerOneshotpg

/-- Program the one-shot page of `lpn`, and schedule the release of `size` bytes of `b`. -/
def programOneshot (z : ZnsFtl) (sqId zid lpn stime : Nat) (b : BufferRef) (size : Nat) :
    Nat × ZnsFtl :=
  let (completed, ssd) := z.ssd.advanceNand z.enableSlcCache (z.programCmd lpn stime)
  let op : ZnsInternalOp :=
    { sqid := sqId, nsecsTarget := completed, writeBuffer := b, buffsToRelease := size }
  let programs := Function.update z.programs zid (z.programs zid ++ [z.oneshotIndex lpn])
  (completed, { z with ssd, pending := z.pending ++ [op], programs })

/-- The transfer into the write buffer, `ssd_advance_write_buffer`. -/
def advanceWriteBuffer (z : ZnsFtl) (time length : Nat) : Nat × ZnsFtl :=
  let (t, perf) := ssdAdvanceWriteBuffer z.ssd.sp z.ssd.perf time length
  (t, { z with ssd := { z.ssd with perf } })

/-- `ret->nsecs_target` of a write. -/
def writeTarget (z : ZnsFtl) (c : RwCommand) (latest xferCompleted : Nat) : Nat :=
  if c.fua = true ∨ z.ssd.sp.writeEarlyCompletion = false then latest else xferCompleted

/-- The result of a write. -/
def writeResult (z : ZnsFtl) (c : RwCommand) (status : ZnsStatus) (latest xferCompleted : Nat) :
    ZnsResult :=
  { status := status.code, nsecsTarget := z.writeTarget c latest xferCompleted, copied := 0 }

/-! ## Writes without a random write area -/

/-- The `switch` of `__zns_write`: the zone becomes open. -/
def openForWrite (z : ZnsFtl) (zid slba : Nat) : ZnsStatus × ZnsFtl :=
  let d := z.zoneDescs zid
  let openClosed (z : ZnsFtl) : ZnsStatus × ZnsFtl :=
    match z.acquireZoneResource .opened with
    | (false, z) => (.noOpenZone, z)
    | (true, z) => (.success, z.changeZoneState zid .openedImpl)
  match d.state with
  | .empty =>
    if slba ≠ d.zslba then (.invalidWrite, z)
    else if z.isZoneResourceFull .active then (.noActiveZone, z)
    else if z.isZoneResourceFull .opened then (.noOpenZone, z)
    else openClosed (z.acquireZoneResource .active).2
  | .closed => openClosed z
  | .openedImpl | .openedExpl => (.success, z)
  | .full => (.errFull, z)
  | .readOnly => (.errReadOnly, z)
  | .offline => (.errOffline, z)

/-- The loop of `__zns_write` from `lpn` on: a chunk that completes a one-shot page, or ends the
zone, is programmed. The result holds `nsecs_latest`. -/
def writeLoop (sqId zid : Nat) (b : BufferRef) (elpn stime : Nat) :
    Nat → ZnsFtl → Nat → Nat → Nat × ZnsFtl
  | 0, z, _, latest => (latest, z)
  | fuel + 1, z, lpn, latest =>
    if lpn ≤ elpn then
      let spp := z.ssd.sp
      let pgOff := (z.lpnToPpa lpn).pg % spp.pgsPerOneshotpg
      let pgs := min (elpn - lpn + 1) (spp.pgsPerOneshotpg - pgOff)
      let zoneEnds := lpn + pgs - 1 = z.zoneToElpn zid
      if pgOff + pgs = spp.pgsPerOneshotpg ∨ zoneEnds then
        let unalignedSpace := z.zp.zoneSize % (spp.pgsPerOneshotpg * spp.pgsz)
        let size :=
          if zoneEnds ∧ unalignedSpace > 0 then unalignedSpace
          else spp.pgsPerOneshotpg * spp.pgsz
        let (completed, z) := z.programOneshot sqId zid lpn stime b size
        writeLoop sqId zid b elpn stime fuel z (lpn + pgs) (max completed latest)
      else writeLoop sqId zid b elpn stime fuel z (lpn + pgs) latest
    else (latest, z)

/-- The checks of `__zns_write` before the `switch`. -/
def writeCheck (z : ZnsFtl) (zid slba nrLba : Nat) : ZnsStatus :=
  if lbaToByte nrLba % z.ssd.sp.writeUnitSize ≠ 0 then .invalidWrite
  else if z.checkBoundaryError slba nrLba = false then .errBoundary
  else if slba ≠ (z.zoneDescs zid).wp then .invalidWrite
  else .success

/-- `__zns_write` after its checks and its `switch`: move the write pointer, transfer, program. -/
def writeZone (z : ZnsFtl) (req : ZnsRequest) (c : RwCommand) (zid : Nat) : ZnsResult × ZnsFtl :=
  let nrLba := c.nrLba
  let slpn := z.lbaToLpn c.slba
  let elpn := z.lbaToLpn (u64 (c.slba + nrLba - 1))
  let b := z.writeBufferOf zid
  let z := z.increaseWritePtr zid nrLba
  let (xferCompleted, z) := z.advanceWriteBuffer req.nsecsStart (lbaToByte nrLba)
  let (latest, z) :=
    writeLoop req.sqId zid b elpn xferCompleted (elpn + 1 - slpn) z slpn xferCompleted
  (z.writeResult c .success latest xferCompleted, z)

/-- `__zns_write`. -/
def znsWriteSeq (z : ZnsFtl) (req : ZnsRequest) (op : ZnsWriteOp) (c : RwCommand) :
    Except ZnsFault (Option ZnsResult × RwCommand × ZnsFtl) := do
  let nrLba := c.nrLba
  let zid := z.lbaToZone c.slba
  let d ← z.getZone zid
  let c := if op = .append then { c with slba := d.wp } else c
  let (allocated, z) ← z.allocate (z.writeBufferOf zid) (lbaToByte nrLba)
  if allocated < lbaToByte nrLba then return (none, c, z)
  match z.writeCheck zid c.slba nrLba with
  | .success =>
    match z.openForWrite zid c.slba with
    | (.success, z) =>
      let (result, z) := z.writeZone req c zid
      return (some result, c, z)
    | (status, z) =>
      return (some (z.writeResult c status req.nsecsStart req.nsecsStart), c, z)
  | status => return (some (z.writeResult c status req.nsecsStart req.nsecsStart), c, z)

/-! ## Writes to a random write area -/

/-- `zrwa_impl_start`. -/
def zrwaImplStart (z : ZnsFtl) (zid : Nat) : Nat :=
  u64 ((z.zoneDescs zid).wp + z.zp.lbasPerZrwa)

/-- `zrwa_impl_end`; the product is an `uint32_t`. -/
def zrwaImplEnd (z : ZnsFtl) (zid : Nat) : Nat :=
  u64Sub (u64 ((z.zoneDescs zid).wp + u32 (2 * z.zp.lbasPerZrwa))) 1

/-- The checks of `__zns_write_zrwa` before the `switch`. -/
def zrwaCheck (z : ZnsFtl) (zid slba nrLba : Nat) : ZnsStatus :=
  if lbaToByte nrLba % z.ssd.sp.writeUnitSize ≠ 0 then .invalidWrite
  else if z.checkBoundaryError slba nrLba = false then .errBoundary
  else if slba < (z.zoneDescs zid).wp ∨ z.zrwaImplEnd zid < u64 (slba + nrLba - 1) then
    .invalidWrite
  else .success

/-- The `switch` of `__zns_write_zrwa`. -/
def openForZrwa (z : ZnsFtl) (zid : Nat) : Except ZnsFault (ZnsStatus × ZnsFtl) :=
  match (z.zoneDescs zid).state with
  | .closed | .empty =>
    match z.acquireZoneResource .opened with
    | (false, z) => return (.noOpenZone, z)
    | (true, z) => do
      let (allocated, z) ← z.allocate (.zrwa zid) z.zp.zrwaSize
      require (allocated ≠ 0) .zrwaAllocate
      return (.success, z.changeZoneState zid .openedImpl)
  | .openedImpl | .openedExpl => return (.success, z)
  | .full => return (.errFull, z)
  | .readOnly => return (.errReadOnly, z)
  | .offline => return (.errOffline, z)

/-- `nr_lbas_flush` of `__zns_write_zrwa`. -/
def zrwaFlush (z : ZnsFtl) (zid elba : Nat) : Except ZnsFault Nat :=
  if elba ≥ z.zrwaImplStart zid then do
    require (z.zp.lbasPerZrwafg ≠ 0) .divByZero
    return u64 (u64 (elba - z.zrwaImplStart zid + 1 + z.zp.lbasPerZrwafg - 1) /
      z.zp.lbasPerZrwafg * z.zp.lbasPerZrwafg)
  else if elba = z.zoneToElba zid then return u64 (u64Sub elba (z.zoneDescs zid).wp + 1)
  else return 0

/-- The loop of `__zns_write_zrwa` from `lpn` on over the pages that are flushed. -/
def zrwaLoop (sqId zid stime : Nat) : Nat → ZnsFtl → Nat → Nat → Nat → Nat × ZnsFtl
  | 0, z, _, _, latest => (latest, z)
  | fuel + 1, z, lpn, remaining, latest =>
    if remaining > 0 then
      let spp := z.ssd.sp
      let pgOff := (z.lpnToPpa lpn).pg % spp.pgsPerOneshotpg
      let pgs := min remaining (spp.pgsPerOneshotpg - pgOff)
      if pgOff + pgs = spp.pgsPerOneshotpg then
        let (completed, z) :=
          z.programOneshot sqId zid lpn stime (.zrwa zid) (spp.pgsPerOneshotpg * spp.pgsz)
        zrwaLoop sqId zid stime fuel z (lpn + pgs) (remaining - pgs) (max completed latest)
      else zrwaLoop sqId zid stime fuel z (lpn + pgs) (remaining - pgs) latest
    else (latest, z)

/-- `__zns_write_zrwa` after the flushed blocks have been allocated: transfer and program. -/
def programZrwa (z : ZnsFtl) (req : ZnsRequest) (c : RwCommand) (zid prevWp nrLbasFlush : Nat) :
    ZnsResult × ZnsFtl :=
  let (xferCompleted, z) := z.advanceWriteBuffer req.nsecsStart (lbaToByte c.nrLba)
  let remaining := nrLbasFlush / z.ssd.sp.secsPerPg
  let (latest, z) := zrwaLoop req.sqId zid xferCompleted remaining z (z.lbaToLpn prevWp) remaining
    xferCompleted
  (z.writeResult c .success latest xferCompleted, z)

/-- `__zns_write_zrwa`. -/
def znsWriteZrwa (z : ZnsFtl) (req : ZnsRequest) (c : RwCommand) :
    Except ZnsFault (Option ZnsResult × ZnsFtl) := do
  let elba := u64 (c.slba + c.nrLba - 1)
  let zid := z.lbaToZone c.slba
  let d ← z.getZone zid
  match z.zrwaCheck zid c.slba c.nrLba with
  | .success =>
    match ← z.openForZrwa zid with
    | (.success, z) =>
      let nrLbasFlush ← z.zrwaFlush zid elba
      if nrLbasFlush > 0 then
        let (allocated, z) ← z.allocate (.zrwa zid) (lbaToByte nrLbasFlush)
        if allocated = 0 then return (none, z)
        let (result, z) :=
          (z.increaseWritePtr zid nrLbasFlush).programZrwa req c zid d.wp nrLbasFlush
        return (some result, z)
      else
        let (result, z) := z.programZrwa req c zid d.wp nrLbasFlush
        return (some result, z)
    | (status, z) => return (some (z.writeResult c status req.nsecsStart req.nsecsStart), z)
  | status => return (some (z.writeResult c status req.nsecsStart req.nsecsStart), z)

/-- `zns_write`: the result, or nothing when the command is to be presented again; and the
command. -/
def znsWrite (z : ZnsFtl) (req : ZnsRequest) (op : ZnsWriteOp) (c : RwCommand) :
    Except ZnsFault (Option ZnsResult × RwCommand × ZnsFtl) := do
  let d ← z.getZone (z.lpnToZone (z.lbaToLpn c.slba))
  if d.zrwav then
    let (result, z) ← z.znsWriteZrwa req c
    return (result, c, z)
  else z.znsWriteSeq req op c

/-! ## Reads -/

/-- The loop of `zns_read` from `lpn` on. The result holds `nsecs_latest`. -/
def readLoop (elpn stime : Nat) : Nat → ZnsFtl → Nat → Nat → Nat × ZnsFtl
  | 0, z, _, latest => (latest, z)
  | fuel + 1, z, lpn, latest =>
    if lpn ≤ elpn then
      let spp := z.ssd.sp
      let ppa := z.lpnToPpa lpn
      let pgOff := ppa.pg % spp.pgsPerFlashpg
      let pgs := min (elpn - lpn + 1) (spp.pgsPerFlashpg - pgOff)
      let srd : NandCmd :=
        { type := .user
          cmd := .read
          xferSize := pgs * spp.pgsz
          stime := stime
          interleavePciDma := false
          ppa := some ppa }
      let (completed, ssd) := z.ssd.advanceNand z.enableSlcCache srd
      readLoop elpn stime fuel { z with ssd } (lpn + pgs) (max completed latest)
    else (latest, z)

/-- `status` of `zns_read`. -/
def readStatus (z : ZnsFtl) (zid : Nat) (c : RwCommand) : ZnsStatus :=
  if (z.zoneDescs zid).state = .offline then .errOffline
  else if z.checkBoundaryError c.slba c.nrLba = false then .errBoundary
  else .success

/-- `zns_read`. -/
def znsRead (z : ZnsFtl) (req : ZnsRequest) (c : RwCommand) :
    Except ZnsFault (ZnsResult × ZnsFtl) := do
  let spp := z.ssd.sp
  let nrLba := c.nrLba
  let slpn := z.lbaToLpn c.slba
  let elpn := z.lbaToLpn (u64 (c.slba + nrLba - 1))
  let zid := z.lpnToZone slpn
  let _ ← z.getZone zid
  let status := z.readStatus zid c
  let fwLat := if lbaToByte nrLba ≤ kb 4 then spp.fw4kbRdLat else spp.fwRdLat
  let stime := u64 (req.nsecsStart + fwLat)
  let (latest, z) := readLoop elpn stime (elpn + 1 - slpn) z slpn stime
  let (completed, perf) := ssdAdvancePcie z.ssd.perf latest (u64 (nrLba * spp.secsz))
  let z := { z with ssd := { z.ssd with perf } }
  return ({ status := status.code, nsecsTarget := max completed latest, copied := 0 }, z)

end ZnsFtl

end NvmeVirt
