import NvmeVirt.Conv.Gc

/-!
# Commands on a namespace

`conv_read`, `conv_write` and `conv_flush`, the creation of a namespace, and its runs:
commands in any order, interleaved with the completion of the internal operations
that give write buffer space back.
-/

namespace NvmeVirt

open Checked

/-- The fields of `struct nvme_rw_command` that the translation layer reads. -/
structure RwCommand where
  slba : Nat
  length : Nat
  fua : Bool
  deriving DecidableEq, Repr

/-- The values of these fields are 64 and 16 bits wide. -/
structure RwCommand.Wf (c : RwCommand) : Prop where
  slba_lt : c.slba < 2 ^ 64
  length_lt : c.length < 2 ^ 16

/-- The command of a `struct nvmev_request`, by opcode. -/
inductive NvmeCommand
  | write (c : RwCommand)
  | read (c : RwCommand)
  | flush
  | other
  deriving DecidableEq, Repr

/-- The rest of a `struct nvmev_request`. -/
structure NvmevRequest where
  sqId : Nat
  nsecsStart : Nat
  deriving DecidableEq, Repr

/-- The arguments of one call of `schedule_internal_operation`; the buffer is the write buffer. -/
structure InternalOp where
  sqid : Nat
  nsecsTarget : Nat
  buffsToRelease : Nat
  deriving DecidableEq, Repr

/-- `struct nvmev_ns` of a conventional namespace with its instances, the write buffer
they share, and the internal operations that no worker has completed yet. -/
structure ConvNs where
  ftls : Nat → ConvFtl
  nrParts : Nat
  size : Nat
  writeBuffer : Buffer
  pending : List InternalOp

/-! ## Creating a namespace -/

/-- Uninitialised memory: the `ssdparams` on the stack and the `kmalloc`'d instances. -/
structure ConvMemory where
  spp : Ssdparams
  ftls : Nat → ConvFtl
  deriving Inhabited

/-- The parameters of a device of this build; an overflow or a failed assertion is a fault. -/
def convSsdparams (cfg : SsdConfig) (mem : Ssdparams) (size : Nat) : Except Fault Ssdparams :=
  let r := if cfg.enableSlcCache then ssdInitParamsSlc mem cfg size cfg.ssdPartitions
    else ssdInitParams mem cfg size cfg.ssdPartitions
  match r with
  | none => .error .initParams
  | some spp => .ok spp

/-- `conv_init_namespace`, with the size that `NVMEV_NAMESPACE_INIT` stores afterwards. -/
def convInitNamespace (cfg : SsdConfig) (mem : ConvMemory) (clock : Clock) (size : Nat) :
    Except Fault ConvNs := do
  let spp ← convSsdparams cfg mem.spp size
  let ftls ← (List.range cfg.ssdPartitions).foldlM (fun ftls i => do
    let f ← convInitFtl (ftls i) cfg.enableSlcCache convInitParams (ssdInit spp clock)
    return Function.update ftls i f) mem.ftls
  return {
    ftls
    nrParts := cfg.ssdPartitions
    size := convNsSize cfg size
    writeBuffer := bufferInit spp.writeBufferSize
    pending := [] }

/-! ## The instances of a namespace -/

/-- The PCIe link and the clock are those of `g`. -/
def ConvFtl.share (f g : ConvFtl) : ConvFtl :=
  let perf := { f.ssd.perf with pcie := g.ssd.perf.pcie, clock := g.ssd.perf.clock }
  { f with ssd := { f.ssd with perf } }

/-- Store instance `i`; the PCIe link and the clock it has used are those of all. -/
def ConvNs.setFtl (ns : ConvNs) (i : Nat) (f : ConvFtl) : ConvNs :=
  { ns with ftls := fun j => if j = i then f else (ns.ftls j).share f }

/-- `spp` of the commands, that of instance 0. -/
def ConvNs.spp (ns : ConvNs) : Ssdparams := (ns.ftls 0).ssd.sp

/-- `start_lpn`. -/
def RwCommand.startLpn (c : RwCommand) (spp : Ssdparams) : Nat := c.slba / spp.secsPerPg

/-- `end_lpn`; the sum is an `uint64_t`. -/
def RwCommand.endLpn (c : RwCommand) (spp : Ssdparams) : Nat :=
  u64 (c.slba + (c.length + 1) - 1) / spp.secsPerPg

/-- The logical pages of a write, in the order of its loop. -/
def RwCommand.lpns (c : RwCommand) (spp : Ssdparams) : List Nat :=
  List.range' (c.startLpn spp) (c.endLpn spp + 1 - c.startLpn spp)

/-- `LBA_TO_BYTE(nr_lba)`. -/
def RwCommand.bytes (c : RwCommand) : Nat := lbaToByte (c.length + 1)

/-! ## Writes -/

namespace ConvFtl

/-- The first part of the loop body of `conv_write`: invalidate the page written before. -/
def invalidateOld (f : ConvFtl) (lpn : Nat) : Except Fault ConvFtl :=
  match f.getMaptblEnt lpn with
  | none => .ok f
  | some p => do
    let f ← f.markPageInvalid p
    let f ← f.setRmapEnt invalidLpn p
    let l := f.getLine p
    let (now, f) := f.ktimeGetNs
    return f.setLine l { f.lines l with mtime := now }

/-- The second part: a new page takes the logical page. -/
def writeNew (f : ConvFtl) (lpn : Nat) : Except Fault (Ppa × ConvFtl) := do
  let (p, f) ← f.placePage .user lpn
  let f ← f.advanceWritePointer .user
  return (p, f)

/-- The third part: program the word line when the page completes it. The result is the
completion time in that case. -/
def programWordline (f : ConvFtl) (swr : NandCmd) (p : Ppa) : Option Nat × ConvFtl :=
  if f.lastPgInWordline (f.ioPool .user) p then
    let (t, f) := f.advanceNand { swr with ppa := some p }
    (some t, f)
  else (none, f)

/-- The loop body of `conv_write` before the write credits are looked at. -/
def storePage (f : ConvFtl) (swr : NandCmd) (lpn : Nat) :
    Except Fault (Option Nat × ConvFtl) := do
  let f ← f.invalidateOld lpn
  let (p, f) ← f.writeNew lpn
  return f.programWordline swr p

/-- The loop body of `conv_write` on the instance of the page. -/
def writePage (f : ConvFtl) (swr : NandCmd) (lpn : Nat) :
    Except Fault (Option Nat × ConvFtl) := do
  let (completed, f) ← f.storePage swr lpn
  let f ← f.consumeWriteCredit.checkAndRefillWriteCredit
  return (completed, f)

end ConvFtl

/-- The loop body of `conv_write`. The state carries `nsecs_latest`. -/
def ConvNs.writeStep (sqId : Nat) (swr : NandCmd) (s : Nat × ConvNs) (lpn : Nat) :
    Except Fault (Nat × ConvNs) := do
  let (latest, ns) := s
  let i := lpn % ns.nrParts
  let (completed, f) ← (ns.ftls i).writePage swr (lpn / ns.nrParts)
  let m := f.ioPool .user
  let ns := ns.setFtl i f
  match completed with
  | none => return (latest, ns)
  | some t =>
    let op : InternalOp :=
      { sqid := sqId
        nsecsTarget := t
        buffsToRelease := (ns.spp.curPgsPerOneshotpg m).toNat * ns.spp.pgsz }
    return (max t latest, { ns with pending := ns.pending ++ [op] })

/-- The transfer into the write buffer: the program command of the write, which starts when
the transfer is complete. -/
def ConvNs.writeTransfer (ns : ConvNs) (req : NvmevRequest) (c : RwCommand) : NandCmd × ConvNs :=
  let spp := ns.spp
  let f := ns.ftls 0
  let (xferCompleted, perf) := ssdAdvanceWriteBuffer spp f.ssd.perf req.nsecsStart c.bytes
  let swr : NandCmd :=
    { type := .user
      cmd := .write
      stime := xferCompleted
      xferSize := spp.pgsz * spp.pgsPerOneshotpg
      interleavePciDma := false
      ppa := none }
  (swr, ns.setFtl 0 { f with ssd := { f.ssd with perf } })

/-- The part of `conv_write` after the buffer has been allocated. -/
def ConvNs.writeAllocated (ns : ConvNs) (req : NvmevRequest) (c : RwCommand) :
    Except Fault (Nat × ConvNs) := do
  let spp := ns.spp
  let (swr, ns) := ns.writeTransfer req c
  let (latest, ns) ← (c.lpns spp).foldlM (writeStep req.sqId swr) (swr.stime, ns)
  if c.fua = true ∨ spp.writeEarlyCompletion = false then return (latest, ns)
  else return (swr.stime, ns)

/-- `conv_write`: the target time of an accepted command, or nothing. -/
def ConvNs.convWrite (ns : ConvNs) (req : NvmevRequest) (c : RwCommand) :
    Except Fault (Option Nat × ConvNs) := do
  if c.endLpn ns.spp / ns.nrParts ≥ ns.spp.ttPgs then return (none, ns)
  let (allocated, writeBuffer) ← bufferAllocate ns.writeBuffer c.bytes
  let ns := { ns with writeBuffer }
  if allocated < c.bytes then return (none, ns)
  let (target, ns) ← ns.writeAllocated req c
  return (some target, ns)

/-! ## Reads -/

/-- `is_same_flash_page`. -/
def isSameFlashPage (spp : Ssdparams) (p q : Ppa) : Bool :=
  p.addr = q.addr ∧ p.pg / spp.pgsPerFlashpg = q.pg / spp.pgsPerFlashpg

/-- The variables of the inner loop of `conv_read`. -/
structure ReadState where
  ftl : ConvFtl
  xferSize : Nat
  prevPpa : Option Ppa
  nsecsLatest : Nat

/-- Issue the aggregated read, if any. -/
def ReadState.issue (s : ReadState) (srd : NandCmd) : ReadState :=
  if s.xferSize > 0 then
    let (t, f) := s.ftl.advanceNand { srd with xferSize := s.xferSize, ppa := s.prevPpa }
    { s with ftl := f, nsecsLatest := max t s.nsecsLatest }
  else s

/-- The body of the inner loop of `conv_read`. -/
def ReadState.step (nrParts : Nat) (srd : NandCmd) (s : ReadState) (lpn : Nat) : ReadState :=
  let spp := s.ftl.ssd.sp
  match s.ftl.getMaptblEnt (lpn / nrParts) with
  | none => s
  | some cur =>
    if !s.ftl.validPpa cur then s
    else if s.prevPpa.any (isSameFlashPage spp cur) then
      { s with xferSize := s.xferSize + spp.pgsz }
    else { s.issue srd with xferSize := spp.pgsz, prevPpa := some cur }

/-- One iteration of the outer loop of `conv_read`: the pages of one instance. -/
def ConvNs.readPart (startLpn endLpn : Nat) (srd : NandCmd) (s : Nat × ConvNs) (i : Nat) :
    Nat × ConvNs :=
  let (latest, ns) := s
  let lpn := startLpn + i
  if lpn ≤ endLpn then
    let part := lpn % ns.nrParts
    let f := ns.ftls part
    let r : ReadState := (List.range' lpn ((endLpn - lpn) / ns.nrParts + 1) ns.nrParts).foldl
      (ReadState.step ns.nrParts srd)
      { ftl := f
        xferSize := 0
        prevPpa := f.getMaptblEnt (lpn / ns.nrParts)
        nsecsLatest := latest }
    let r := r.issue srd
    (r.nsecsLatest, ns.setFtl part r.ftl)
  else (latest, ns)

/-- `conv_read`: the target time of an accepted command, or nothing. -/
def ConvNs.convRead (ns : ConvNs) (req : NvmevRequest) (c : RwCommand) : Option Nat × ConvNs :=
  let spp := ns.spp
  if c.endLpn spp / ns.nrParts ≥ spp.ttPgs then (none, ns)
  else
    let fwLat := if c.bytes ≤ kb 4 * ns.nrParts then spp.fw4kbRdLat else spp.fwRdLat
    let srd : NandCmd :=
      { type := .user
        cmd := .read
        stime := u64 (req.nsecsStart + fwLat)
        xferSize := 0
        interleavePciDma := true
        ppa := none }
    let (latest, ns) := (List.range ns.nrParts).foldl
      (readPart (c.startLpn spp) (c.endLpn spp) srd) (req.nsecsStart, ns)
    (some latest, ns)

/-! ## Dispatch and runs -/

/-- `conv_flush`. -/
def ConvNs.convFlush (ns : ConvNs) : Nat × ConvNs :=
  let (start, perf) := (ns.ftls 0).ssd.perf.readClock
  let ns := ns.setFtl 0 { ns.ftls 0 with ssd := { (ns.ftls 0).ssd with perf } }
  (List.range ns.nrParts).foldl (fun s i =>
    let f := s.2.ftls i
    let (t, perf) := ssdNextIdleTime f.ssd.sp f.ssd.perf
    (max s.1 t, s.2.setFtl i { f with ssd := { f.ssd with perf } })) (start, ns)

/-- `conv_proc_nvme_io_cmd`. An opcode that is not implemented is completed at once. -/
def ConvNs.convProcNvmeIoCmd (ns : ConvNs) (req : NvmevRequest) :
    NvmeCommand → Except Fault (Option Nat × ConvNs)
  | .write c => ns.convWrite req c
  | .read c => return ns.convRead req c
  | .flush =>
    let (t, ns) := ns.convFlush
    return (some t, ns)
  | .other => return (some req.nsecsStart, ns)

/-- What can happen to a namespace: a command, or a worker completing the internal
operation at a position of the pending list. -/
inductive ConvEvent
  | command (req : NvmevRequest) (cmd : NvmeCommand)
  | release (i : Nat)
  deriving DecidableEq, Repr

/-- Commands have fields of the right width. -/
def ConvEvent.Wf : ConvEvent → Prop
  | .command _ (.write c) => c.Wf
  | .command _ (.read c) => c.Wf
  | _ => True

/-- A worker completes one pending internal operation: `buffer_release`. -/
def ConvNs.completeInternal (ns : ConvNs) (i : Nat) : ConvNs :=
  match ns.pending[i]? with
  | none => ns
  | some op =>
    { ns with
      writeBuffer := bufferRelease ns.writeBuffer op.buffsToRelease
      pending := ns.pending.eraseIdx i }

/-- One event. -/
def ConvNs.step (ns : ConvNs) : ConvEvent → Except Fault ConvNs
  | .command req cmd => do
    let (_, ns) ← ns.convProcNvmeIoCmd req cmd
    return ns
  | .release i => return ns.completeInternal i

/-- A run of events from the created namespace. -/
def convRun (cfg : SsdConfig) (mem : ConvMemory) (clock : Clock) (size : Nat)
    (events : List ConvEvent) : Except Fault ConvNs := do
  let ns ← convInitNamespace cfg mem clock size
  events.foldlM ConvNs.step ns

end NvmeVirt
