import NvmeVirt.Zns.ReadWrite

/-!
# Zone management

`zns_mgmt_send.c` and `zns_mgmt_recv.c`, the dispatch of `zns_ftl.c`, and runs: commands in any
order, interleaved with the completion of the internal operations.
-/

namespace NvmeVirt

open Checked

/-- `enum zone_send_action`; the other values of the byte have no branch. -/
inductive ZoneSendAction
  | close
  | finish
  | open
  | reset
  | offline
  | flushExplZrwa
  | other
  deriving DecidableEq, Repr

/-- The fields of `struct nvme_zone_mgmt_send` that are read. -/
structure ZoneMgmtSend where
  slba : Nat
  selectAll : Bool
  zsa : ZoneSendAction
  zsaso : Bool
  deriving DecidableEq, Repr

/-- The fields of `struct nvme_zone_mgmt_recv` that are read. -/
structure ZoneMgmtRecv where
  slba : Nat
  nrDw : Nat
  zra : Nat
  zraSpecificField : Nat
  zraSpecificFeatures : Bool
  deriving DecidableEq, Repr

namespace ZnsFtl

/-! ## Zone management send -/

/-- `__zmgmt_send_close_zone`. -/
def closeZone (z : ZnsFtl) (zid : Nat) : ZnsStatus × ZnsFtl :=
  match (z.zoneDescs zid).state with
  | .openedImpl | .openedExpl =>
    (.success, (z.changeZoneState zid .closed).releaseZoneResource .opened)
  | .closed => (.success, z)
  | _ => (.invalidTransition, z)

/-- The releases that finishing and resetting an active zone share. -/
def releaseActive (z : ZnsFtl) (isZrwaZone : Bool) : ZnsFtl :=
  let z := z.releaseZoneResource .active
  if isZrwaZone then z.releaseZoneResource .zrwa else z

/-- `__zmgmt_send_finish_zone`. -/
def finishZone (z : ZnsFtl) (zid : Nat) : ZnsStatus × ZnsFtl :=
  let d := z.zoneDescs zid
  match d.state with
  | .openedImpl | .openedExpl =>
    (.success, ((z.releaseZoneResource .opened).releaseActive d.zrwav).changeZoneState zid .full)
  | .closed => (.success, (z.releaseActive d.zrwav).changeZoneState zid .full)
  | .empty => (.success, z.changeZoneState zid .full)
  | .full => (.success, z)
  | _ => (.invalidTransition, z)

/-- The end of `__zmgmt_send_open_zone`, from its case `ZONE_STATE_CLOSED` on. -/
def openClosedZone (z : ZnsFtl) (zid : Nat) : ZnsStatus × ZnsFtl :=
  match z.acquireZoneResource .opened with
  | (false, z) => (.noOpenZone, z)
  | (true, z) => (.success, z.changeZoneState zid .openedExpl)

/-- `__zmgmt_send_open_zone`. -/
def openZone (z : ZnsFtl) (zid : Nat) (zrwa : Bool) : ZnsStatus × ZnsFtl :=
  let d := z.zoneDescs zid
  match d.state with
  | .empty =>
    if z.isZoneResourceFull .active then (.noActiveZone, z)
    else if z.isZoneResourceFull .opened then (.noOpenZone, z)
    else if zrwa then
      if z.isZoneResourceFull .zrwa then (.zrwaRsrcUnavail, z)
      else
        let z := (z.acquireZoneResource .zrwa).2.setZone zid { d with zrwav := true }
        (z.acquireZoneResource .active).2.openClosedZone zid
    else (z.acquireZoneResource .active).2.openClosedZone zid
  | .closed => z.openClosedZone zid
  | .openedImpl => (.success, z.changeZoneState zid .openedExpl)
  | .openedExpl => (.success, z)
  | _ => (.invalidTransition, z)

/-- `__reset_zone`, without the contents of the storage. -/
def clearZone (z : ZnsFtl) (zid : Nat) : ZnsFtl :=
  let d := z.zoneDescs zid
  let z := z.setZone zid { d with wp := d.zslba, zrwav := false }
  let z := { z with programs := Function.update z.programs zid [] }
  if z.zp.zrwaBufferSize ≠ 0 then z.refill (.zrwa zid) else z

/-- `__zmgmt_send_reset_zone`. -/
def resetZone (z : ZnsFtl) (zid : Nat) : ZnsStatus × ZnsFtl :=
  let d := z.zoneDescs zid
  let toEmpty (z : ZnsFtl) : ZnsStatus × ZnsFtl :=
    (.success, (z.changeZoneState zid .empty).clearZone zid)
  match d.state with
  | .openedImpl | .openedExpl => toEmpty ((z.releaseZoneResource .opened).releaseActive d.zrwav)
  | .closed => toEmpty (z.releaseActive d.zrwav)
  | .full | .empty => toEmpty z
  | _ => (.invalidTransition, z)

/-- `__zmgmt_send_offline_zone`. -/
def offlineZone (z : ZnsFtl) (zid : Nat) : ZnsStatus × ZnsFtl :=
  match (z.zoneDescs zid).state with
  | .readOnly => (.success, z.changeZoneState zid .offline)
  | .offline => (.success, z)
  | _ => (.invalidTransition, z)

/-- `zrwa_end` of the explicit flush. -/
def zrwaEnd (z : ZnsFtl) (zid : Nat) : Nat :=
  let d := z.zoneDescs zid
  min (u64Sub (u64 (d.wp + z.zp.lbasPerZrwa)) 1)
    (u64Sub (u64 (z.zoneToSlba zid + d.zoneCapacity)) 1)

/-- The `switch` of `__zmgmt_send_flush_explicit_zrwa`. -/
def flushTo (z : ZnsFtl) (zid wp : Nat) : ZnsStatus × ZnsFtl :=
  let d := z.zoneDescs zid
  match d.state with
  | .openedExpl | .openedImpl | .closed =>
    let z := z.setZone zid { d with wp }
    if wp = u64 (z.zoneToSlba zid + d.zoneCapacity) then
      let z := if d.state ≠ .closed then z.releaseZoneResource .opened else z
      let z := (z.releaseZoneResource .active).releaseZoneResource .zrwa
      (.success, z.changeZoneState zid .full)
    else (.success, z)
  | _ => (.invalidZoneOperation, z)

/-- `__zmgmt_send_flush_explicit_zrwa`. -/
def flushExplicitZrwa (z : ZnsFtl) (slba : Nat) : Except ZnsFault (ZnsStatus × ZnsFtl) := do
  let zid := z.lbaToZone slba
  let d ← z.getZone zid
  let nrLbasFlush := u64 (u64Sub slba d.wp + 1)
  if d.zrwav = false then return (.invalidZoneOperation, z)
  else if ¬ (slba ≥ d.wp ∧ slba ≤ z.zrwaEnd zid) then return (.invalidZoneOperation, z)
  else
    require (z.zp.lbasPerZrwafg ≠ 0) .divByZero
    if nrLbasFlush % z.zp.lbasPerZrwafg ≠ 0 then return (.invalidField, z)
    else return z.flushTo zid (u64 (slba + 1))

/-- `__zmgmt_send`: an action without a branch assigns no status. -/
def zmgmtSend (z : ZnsFtl) (slba : Nat) (action : ZoneSendAction) (option : Bool) :
    Except ZnsFault (Option ZnsStatus × ZnsFtl) := do
  let zid := z.lbaToZone slba
  match action with
  | .other => return (none, z)
  | .flushExplZrwa =>
    let (status, z) ← z.flushExplicitZrwa slba
    return (some status, z)
  | _ =>
    let _ ← z.getZone zid
    let (status, z) :=
      match action with
      | .close => z.closeZone zid
      | .finish => z.finishZone zid
      | .open => z.openZone zid option
      | .reset => z.resetZone zid
      | _ => z.offlineZone zid
    return (some status, z)

/-- The body of the loop of `zns_zmgmt_send` over all zones. -/
def zmgmtSendTo (action : ZoneSendAction) (option : Bool) (z : ZnsFtl) (zid : Nat) :
    Except ZnsFault ZnsFtl := do
  let (_, z) ← z.zmgmtSend (z.zoneToSlba zid) action option
  return z

/-- `zns_zmgmt_send`. -/
def znsZmgmtSend (z : ZnsFtl) (req : ZnsRequest) (c : ZoneMgmtSend) :
    Except ZnsFault (ZnsResult × ZnsFtl) := do
  if c.selectAll then
    let z ← (List.range z.zp.nrZones).foldlM (zmgmtSendTo c.zsa c.zsaso) z
    return ({ status := ZnsStatus.success.code, nsecsTarget := req.nsecsStart, copied := 0 }, z)
  else
    let (status, z) ← z.zmgmtSend c.slba c.zsa c.zsaso
    let status := status.elim req.stackWord ZnsStatus.code
    return ({ status, nsecsTarget := req.nsecsStart, copied := 0 }, z)

/-! ## Zone management receive -/

/-- `sizeof(struct zone_descriptor)`, and of `struct zone_report`, which has one descriptor. -/
def zoneDescriptorSize : Nat := 64

@[inherit_doc zoneDescriptorSize] def zoneReportSize : Nat := 128

/-- The size of `report_buffer`. -/
def reportBufferSize (z : ZnsFtl) : Nat := zoneReportSize + zoneDescriptorSize * z.zp.nrZones

/-- `(nr_dw + 1) * sizeof(uint32_t)`; the sum is an `uint32_t`. -/
def reportLength (c : ZoneMgmtRecv) : Nat := u32 (c.nrDw + 1) * 4

/-- `nr_zone_to_report`. -/
def nrZoneToReport (z : ZnsFtl) (c : ZoneMgmtRecv) : Nat :=
  let left := u64Sub z.zp.nrZones (z.lbaToZone c.slba)
  let n :=
    if c.zraSpecificFeatures = false then left
    else u64Sub (reportLength c / zoneDescriptorSize) 1
  if n > left then left else n

/-- `__fill_zone_report`. -/
def fillZoneReport (z : ZnsFtl) (c : ZoneMgmtRecv) : Except ZnsFault ZnsFtl := do
  let startZid := z.lbaToZone c.slba
  let n := z.nrZoneToReport c
  require (startZid + n ≤ z.zp.nrZones) .zoneIndex
  let zd := fun i => if i < n then z.zoneDescs (startZid + i) else z.reportBuffer.zd i
  return { z with reportBuffer := { nrZones := n, zd } }

/-- `__check_zmgmt_rcv_option_supported`. -/
def checkZmgmtRcvOptionSupported (z : ZnsFtl) (c : ZoneMgmtRecv) : Bool :=
  decide (z.lbaToZone c.slba < z.zp.nrZones) && decide (c.zra = 0) &&
    decide (c.zraSpecificField = 0)

/-- `zns_zmgmt_recv`. -/
def znsZmgmtRecv (z : ZnsFtl) (req : ZnsRequest) (c : ZoneMgmtRecv) :
    Except ZnsFault (ZnsResult × ZnsFtl) := do
  if z.checkZmgmtRcvOptionSupported c then
    let z ← z.fillZoneReport c
    return ({ status := ZnsStatus.success.code, nsecsTarget := req.nsecsStart,
              copied := reportLength c }, z)
  else
    return ({ status := ZnsStatus.invalidField.code, nsecsTarget := req.nsecsStart,
              copied := 0 }, z)

/-! ## Dispatch and runs -/

/-- `zns_flush`; there is one instance. -/
def znsFlush (z : ZnsFtl) : ZnsResult × ZnsFtl :=
  let (start, perf) := z.ssd.perf.readClock
  let (idle, perf) := ssdNextIdleTime z.ssd.sp perf
  ({ status := ZnsStatus.success.code, nsecsTarget := max start idle, copied := 0 },
    { z with ssd := { z.ssd with perf } })

end ZnsFtl

/-- The command of a `struct nvmev_request`, by opcode. -/
inductive ZnsCommand
  | write (op : ZnsWriteOp) (c : RwCommand)
  | read (c : RwCommand)
  | flush
  | mgmtSend (c : ZoneMgmtSend)
  | mgmtRecv (c : ZoneMgmtRecv)
  | other
  deriving DecidableEq, Repr

/-- The values of the fields are 64, 32, 16 and 8 bits wide. -/
def ZnsCommand.Wf : ZnsCommand → Prop
  | .write _ c => c.Wf
  | .read c => c.Wf
  | .mgmtSend c => c.slba < 2 ^ 64
  | .mgmtRecv c => c.slba < 2 ^ 64 ∧ c.nrDw < 2 ^ 32 ∧ c.zra < 2 ^ 8 ∧ c.zraSpecificField < 2 ^ 8
  | _ => True

namespace ZnsFtl

/-- `zns_proc_nvme_io_cmd`: the result, or nothing when the command is to be presented again; and
the entry of the submission queue. An opcode that is not implemented leaves the result as
`__nvmev_proc_io` prepared it. -/
def znsProcNvmeIoCmd (z : ZnsFtl) (req : ZnsRequest) :
    ZnsCommand → Except ZnsFault (Option ZnsResult × ZnsCommand × ZnsFtl)
  | .write op c => do
    let (result, c, z) ← z.znsWrite req op c
    return (result, .write op c, z)
  | .read c => do
    let (result, z) ← z.znsRead req c
    return (some result, .read c, z)
  | .flush =>
    let (result, z) := z.znsFlush
    return (some result, .flush, z)
  | .mgmtSend c => do
    let (result, z) ← z.znsZmgmtSend req c
    return (some result, .mgmtSend c, z)
  | .mgmtRecv c => do
    let (result, z) ← z.znsZmgmtRecv req c
    return (some result, .mgmtRecv c, z)
  | .other =>
    return (some { status := ZnsStatus.success.code, nsecsTarget := req.nsecsStart, copied := 0 },
      .other, z)

/-- A worker completes one pending internal operation: `buffer_release`. -/
def completeInternal (z : ZnsFtl) (i : Nat) : ZnsFtl :=
  match z.pending[i]? with
  | none => z
  | some op =>
    { z.setBuffer op.writeBuffer (bufferRelease (z.buffers op.writeBuffer) op.buffsToRelease) with
      pending := z.pending.eraseIdx i }

end ZnsFtl

/-- What can happen to a namespace: a command, or a worker completing the internal operation at
a position of the pending list. -/
inductive ZnsEvent
  | command (req : ZnsRequest) (cmd : ZnsCommand)
  | release (i : Nat)
  deriving DecidableEq, Repr

/-- Commands have fields of the right width. -/
def ZnsEvent.Wf : ZnsEvent → Prop
  | .command _ cmd => cmd.Wf
  | .release _ => True

/-- One event. -/
def ZnsFtl.step (z : ZnsFtl) : ZnsEvent → Except ZnsFault ZnsFtl
  | .command req cmd => do
    let (_, _, z) ← z.znsProcNvmeIoCmd req cmd
    return z
  | .release i => return z.completeInternal i

/-- A run of events from the created namespace. -/
def znsRun (cfg : ZnsConfig) (mem : ZnsMemory) (clock : Clock) (size : Nat)
    (events : List ZnsEvent) : Except ZnsFault ZnsFtl := do
  let z ← znsInitNamespace cfg mem clock size
  events.foldlM ZnsFtl.step z

end NvmeVirt
