import NvmeVirt.Io.Device

/-!
# Admin commands

`admin.c`: every handler ends by writing a completion, and the creating and deleting
commands change the tables of queues. The pages that identify and the log pages fill
belong to the host and are left out.
-/

namespace NvmeVirt

open Checked

/-- `enum nvme_admin_opcode`, with the opcodes that `__nvmev_proc_admin_req` names. -/
inductive NvmeAdminOpcode
  | deleteSq
  | createSq
  | getLogPage
  | deleteCq
  | createCq
  | identify
  | abortCmd
  | setFeatures
  | getFeatures
  | asyncEvent
  | other
  deriving DecidableEq, Repr

/-- The opcode byte. -/
def NvmeAdminOpcode.decode : Nat → NvmeAdminOpcode
  | 0x00 => .deleteSq
  | 0x01 => .createSq
  | 0x02 => .getLogPage
  | 0x04 => .deleteCq
  | 0x05 => .createCq
  | 0x06 => .identify
  | 0x08 => .abortCmd
  | 0x09 => .setFeatures
  | 0x0a => .getFeatures
  | 0x0c => .asyncEvent
  | _ => .other

/-- The admin opcode of a command. -/
def NvmeSqe.adminOpcode (c : NvmeSqe) : NvmeAdminOpcode := .decode c.opcode

def nvmeScSuccess : Nat := 0x0
def nvmeScInvalidOpcode : Nat := 0x1
def nvmeFeatNumQueues : Nat := 0x07
def nvmeLogSmart : Nat := 0x02
def nvmeLogCmdEffects : Nat := 0x05
def nvmeCsiZns : Nat := 0x2

/-- `sizeof` of `struct nvme_smart_log` and `struct nvme_effects_log`. -/
def smartLogSize : Nat := 512
def effectsLogSize : Nat := 4096

/-- `len` of `__nvmev_admin_get_log_page`, an `uint32_t`. -/
def logPageLen (cmd : NvmeSqe) : Nat := u32 ((cmd.numdu * 2 ^ 16 + cmd.numdl + 1) * 4)

/-- What the handlers read outside of the device: the rings in host memory by their address,
and `csi` and the type of a namespace, which `zns_init_namespace` makes agree. -/
structure AdminEnv where
  sqAt : Nat → Nat → NvmeSqe
  cqAt : Nat → Nat → NvmeCompletion
  csi : Nat → Nat
  isZns : Nat → Bool
  csi_of_isZns : ∀ i, isZns i = true → csi i = nvmeCsiZns

/-- Empty host memory and no zoned namespace. -/
def emptyEnv : AdminEnv where
  sqAt _ _ := default
  cqAt _ _ := default
  csi _ := 0
  isZns _ := false
  csi_of_isZns _ h := by cases h

/-- The end of `__make_cq_entry_results`: a completion takes the next slot of the ring `cq`. -/
def NvmevAdminQueue.post (q : NvmevAdminQueue) (cq : Nat → NvmeCompletion) (cqe : NvmeCompletion) :
    NvmevAdminQueue :=
  let wraps := q.cqHead + 1 = q.cqDepth
  { q with
    nvmeCq := some (Function.update cq q.cqHead cqe)
    phase := if wraps then !q.phase else q.phase
    cqHead := if wraps then 0 else q.cqHead + 1
    history := q.history ++ [(q.cqHead, cqe)] }

namespace NvmevDev

variable {σ : Type}

/-- Dereference `admin_q`. -/
def adminQueue (dev : NvmevDev σ) : Except DevFault NvmevAdminQueue :=
  match dev.adminQ with
  | some q => .ok q
  | none => .error .nullQueue

/-- `sq_entry(eid)` of the admin queue. -/
def adminSqe (dev : NvmevDev σ) (eid : Nat) : Except DevFault NvmeSqe := do
  let q ← dev.adminQueue
  match q.nvmeSq with
  | some sq => return sq eid
  | none => .error .nullQueue

/-- `__make_cq_entry_results`. -/
def makeCqEntryResults (dev : NvmevDev σ) (eid ret result0 result1 : Nat) :
    Except DevFault (NvmevDev σ) := do
  let cmd ← dev.adminSqe eid
  let q ← dev.adminQueue
  match q.nvmeCq with
  | none => .error .nullQueue
  | some cq =>
    let cqe : NvmeCompletion :=
      { commandId := cmd.commandId
        sqId := 0
        sqHead := eid
        result0
        result1
        status := cqeStatus q.phase ret }
    return { dev with adminQ := some (q.post cq cqe) }

/-- `__make_cq_entry`. -/
def makeCqEntry (dev : NvmevDev σ) (eid ret : Nat) : Except DevFault (NvmevDev σ) :=
  dev.makeCqEntryResults eid ret 0 0

/-- An access to the tables of queues. -/
def requireQid (qid : Nat) : Except DevFault Unit := require (qid ≤ nrMaxIoQueue) .outOfRange

/-- Set a doorbell and its old value to 0. -/
def resetDb (dev : NvmevDev σ) (i : Nat) : NvmevDev σ :=
  { dev with dbs := Function.update dev.dbs i 0, oldDbs := Function.update dev.oldDbs i 0 }

theorem resetDb_dbs_of_ne {dev : NvmevDev σ} {i j : Nat} (h : j ≠ i) :
    (dev.resetDb i).dbs j = dev.dbs j :=
  Function.update_of_ne h ..

theorem resetDb_oldDbs_of_ne {dev : NvmevDev σ} {i j : Nat} (h : j ≠ i) :
    (dev.resetDb i).oldDbs j = dev.oldDbs j :=
  Function.update_of_ne h ..

/-! ## Queue management -/

variable (env : AdminEnv)

/-- The completion queue that `__nvmev_admin_create_cq` sets up. -/
def newCq (cmd : NvmeSqe) : NvmevCompletionQueue :=
  let irqEnabled : Bool := cmd.qflags / 2 % 2 = 1
  { qid := cmd.qid
    irqVector := if irqEnabled then cmd.irqVector else 0
    irqEnabled
    interruptReady := false
    queueSize := cmd.qsize + 1
    phase := true
    cqHead := 0
    cqTail := -1
    cq := env.cqAt cmd.prp1 }

/-- The submission queue that `__nvmev_admin_create_sq` sets up. -/
def newSq (cmd : NvmeSqe) : NvmevSubmissionQueue :=
  { qid := cmd.qid
    cqid := cmd.cqid
    queueSize := cmd.qsize + 1
    stat := { nrDispatched := 0, nrDispatch := 0, nrInFlight := 0, maxNrInFlight := 0, totalIo := 0 }
    sq := env.sqAt cmd.prp1 }

/-- `__nvmev_admin_create_cq`. -/
def adminCreateCq (dev : NvmevDev σ) (eid : Nat) : Except DevFault (NvmevDev σ) := do
  let cmd ← dev.adminSqe eid
  requireQid cmd.qid
  ((dev.setCq cmd.qid (newCq env cmd)).resetDb (cmd.qid * 2 + 1)).makeCqEntry eid nvmeScSuccess

/-- `__nvmev_admin_delete_cq`. -/
def adminDeleteCq (dev : NvmevDev σ) (eid : Nat) : Except DevFault (NvmevDev σ) := do
  let cmd ← dev.adminSqe eid
  requireQid cmd.qid
  makeCqEntry { dev with cqes := Function.update dev.cqes cmd.qid none } eid nvmeScSuccess

/-- `__nvmev_admin_create_sq`. -/
def adminCreateSq (dev : NvmevDev σ) (eid : Nat) : Except DevFault (NvmevDev σ) := do
  let cmd ← dev.adminSqe eid
  requireQid cmd.qid
  ((dev.setSq cmd.qid (newSq env cmd)).resetDb (cmd.qid * 2)).makeCqEntry eid nvmeScSuccess

/-- `__nvmev_admin_delete_sq`. -/
def adminDeleteSq (dev : NvmevDev σ) (eid : Nat) : Except DevFault (NvmevDev σ) := do
  let cmd ← dev.adminSqe eid
  requireQid cmd.qid
  makeCqEntry { dev with sqes := Function.update dev.sqes cmd.qid none } eid nvmeScSuccess

/-! ## Log pages -/

/-- `__nvmev_admin_get_log_page`: the two logs that exist are copied from their structures. -/
def adminGetLogPage (dev : NvmevDev σ) (eid : Nat) : Except DevFault (NvmevDev σ) := do
  let cmd ← dev.adminSqe eid
  if cmd.lid = nvmeLogSmart then require (logPageLen cmd ≤ smartLogSize) .outOfRange
  if cmd.lid = nvmeLogCmdEffects then require (logPageLen cmd ≤ effectsLogSize) .outOfRange
  dev.makeCqEntry eid nvmeScSuccess

/-! ## Identify -/

/-- The namespace of a command: `ns[nsid - 1]`. -/
def nsIndex (dev : NvmevDev σ) (cmd : NvmeSqe) : Except DevFault Nat :=
  let i := u32Sub cmd.nsid 1
  if i < dev.nrNs then .ok i else .error .outOfRange

/-- `__nvmev_admin_identify_namespace` and `__nvmev_admin_identify_namespace_desc`. -/
def adminIdentifyNamespace (dev : NvmevDev σ) (eid : Nat) : Except DevFault (NvmevDev σ) := do
  let cmd ← dev.adminSqe eid
  let _ ← dev.nsIndex cmd
  dev.makeCqEntry eid nvmeScSuccess

/-- `__nvmev_admin_identify_zns_namespace`. -/
def adminIdentifyZnsNamespace (dev : NvmevDev σ) (eid : Nat) : Except DevFault (NvmevDev σ) := do
  let cmd ← dev.adminSqe eid
  let nsid ← dev.nsIndex cmd
  if env.isZns nsid = false then dev.makeCqEntry eid nvmeScSuccess
  else
    require (env.csi nsid = nvmeCsiZns) .bug
    dev.makeCqEntry eid nvmeScSuccess

/-- `__nvmev_admin_identify`. -/
def adminIdentify (dev : NvmevDev σ) (eid : Nat) : Except DevFault (NvmevDev σ) := do
  let cmd ← dev.adminSqe eid
  match cmd.cns with
  | 0x00 => dev.adminIdentifyNamespace eid
  | 0x01 => dev.makeCqEntry eid nvmeScSuccess
  | 0x02 => dev.makeCqEntry eid nvmeScSuccess
  | 0x03 => dev.adminIdentifyNamespace eid
  | 0x05 => dev.adminIdentifyZnsNamespace env eid
  | 0x06 => dev.makeCqEntry eid nvmeScSuccess
  | _ => dev.makeCqEntry eid nvmeScInvalidOpcode

/-! ## Features -/

/-- `result0` of the number of queues. -/
def numQueues (dev : NvmevDev σ) : Nat := u32 (u32Sub dev.nrCq 1 <<< 16) ||| u32Sub dev.nrSq 1

/-- `__nvmev_admin_set_features`. -/
def adminSetFeatures (dev : NvmevDev σ) (eid : Nat) : Except DevFault (NvmevDev σ) := do
  let cmd ← dev.adminSqe eid
  if cmd.fid = nvmeFeatNumQueues then
    let dev := { dev with
      nrSq := min (cmd.dword11 % 2 ^ 16 + 1) nrMaxIoQueue
      nrCq := min (cmd.dword11 / 2 ^ 16 + 1) nrMaxIoQueue }
    dev.makeCqEntryResults eid nvmeScSuccess dev.numQueues 0
  else dev.makeCqEntryResults eid nvmeScSuccess 0 0

/-- `__nvmev_admin_get_features`. -/
def adminGetFeatures (dev : NvmevDev σ) (eid : Nat) : Except DevFault (NvmevDev σ) := do
  let cmd ← dev.adminSqe eid
  let result0 := if cmd.fid = nvmeFeatNumQueues then dev.numQueues else 0
  dev.makeCqEntryResults eid nvmeScSuccess result0 0

/-! ## Processing -/

/-- `__nvmev_proc_admin_req`. -/
def procAdminReq (dev : NvmevDev σ) (eid : Nat) : Except DevFault (NvmevDev σ) := do
  let cmd ← dev.adminSqe eid
  match cmd.adminOpcode with
  | .deleteSq => dev.adminDeleteSq eid
  | .createSq => dev.adminCreateSq env eid
  | .getLogPage => dev.adminGetLogPage eid
  | .deleteCq => dev.adminDeleteCq eid
  | .createCq => dev.adminCreateCq env eid
  | .identify => dev.adminIdentify env eid
  | .abortCmd => return dev
  | .setFeatures => dev.adminSetFeatures eid
  | .getFeatures => dev.adminGetFeatures eid
  | .asyncEvent => dev.makeCqEntry eid nvmeScSuccess
  | .other => dev.makeCqEntry eid nvmeScInvalidOpcode

/-- The loop of `nvmev_proc_admin_sq` over `n` entries from slot `curr` on. -/
def procAdminLoop (depth : Nat) : Nat → NvmevDev σ → Nat → Except DevFault (NvmevDev σ)
  | 0, dev, _ => .ok dev
  | n + 1, dev, curr => do
    let dev ← dev.procAdminReq env curr
    procAdminLoop depth n dev (if curr + 1 = depth then 0 else curr + 1)

/-- `nvmev_proc_admin_sq`. -/
def nvmevProcAdminSq (dev : NvmevDev σ) (newDb oldDb : Nat) : Except DevFault (NvmevDev σ) := do
  let q ← dev.adminQueue
  let numProc : Int := (newDb : Int) - oldDb
  let numProc := if numProc < 0 then numProc + q.sqDepth else numProc
  procAdminLoop env q.sqDepth numProc.toNat dev oldDb

/-- The part of `nvmev_proc_dbs` for the admin queue; `nvmev_proc_admin_cq` does nothing. -/
def procAdminDbs (dev : NvmevDev σ) : Except DevFault (NvmevDev σ) := do
  let newDb := dev.dbs 0
  let dev ← if newDb ≠ dev.oldDbs 0 then do
      let dev ← nvmevProcAdminSq env dev newDb (dev.oldDbs 0)
      pure { dev with oldDbs := Function.update dev.oldDbs 0 newDb }
    else pure dev
  return { dev with oldDbs := Function.update dev.oldDbs 1 (dev.dbs 1) }

end NvmevDev

end NvmeVirt
