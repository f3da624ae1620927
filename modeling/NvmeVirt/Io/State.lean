import NvmeVirt.Ssd.Timing

/-!
# The state of the device

The queues that host and device share, the work queues of the IO workers, and the
fields of `struct nvmev_dev` that the dispatcher and the workers touch. The namespaces
are a parameter `σ`: what they do with a command is the handler's business.
-/

namespace NvmeVirt

/-- `NR_MAX_IO_QUEUE`. -/
def nrMaxIoQueue : Nat := 72

/-- `NR_MAX_PARALLEL_IO`. -/
def nrMaxParallelIo : Nat := 16384

/-- `-1` as an `unsigned int`: no entry. -/
def noEntry : Nat := 2 ^ 32 - 1

/-! ## Commands and completions -/

/-- `struct nvme_command`: the common header and the command dwords that the device reads. -/
structure NvmeSqe where
  opcode : Nat
  commandId : Nat
  nsid : Nat
  prp1 : Nat
  prp2 : Nat
  cdw10 : Nat
  cdw11 : Nat
  cdw12 : Nat
  deriving DecidableEq, Repr, Inhabited

namespace NvmeSqe

/-- The fields of `struct nvme_rw_command`. -/
def slba (c : NvmeSqe) : Nat := c.cdw10 + 2 ^ 32 * c.cdw11
def length (c : NvmeSqe) : Nat := c.cdw12 % 2 ^ 16
def control (c : NvmeSqe) : Nat := c.cdw12 / 2 ^ 16

/-- The queue number of `struct nvme_create_cq`, `nvme_create_sq` and `nvme_delete_queue`. -/
def qid (c : NvmeSqe) : Nat := c.cdw10 % 2 ^ 16

/-- `qsize` of the two creating commands; 0-based. -/
def qsize (c : NvmeSqe) : Nat := c.cdw10 / 2 ^ 16

/-- `cq_flags` and `sq_flags`. -/
def qflags (c : NvmeSqe) : Nat := c.cdw11 % 2 ^ 16

/-- `irq_vector` of `struct nvme_create_cq`, `cqid` of `struct nvme_create_sq`. -/
def irqVector (c : NvmeSqe) : Nat := c.cdw11 / 2 ^ 16
def cqid (c : NvmeSqe) : Nat := c.cdw11 / 2 ^ 16

/-- `lid`, `numdl` and `numdu` of `struct nvme_get_log_page_command`. -/
def lid (c : NvmeSqe) : Nat := c.cdw10 % 2 ^ 8
def numdl (c : NvmeSqe) : Nat := c.cdw10 / 2 ^ 16
def numdu (c : NvmeSqe) : Nat := c.cdw11 % 2 ^ 16

/-- `cns` of `struct nvme_identify`, `fid` and `dword11` of `struct nvme_features`. -/
def cns (c : NvmeSqe) : Nat := c.cdw10
def fid (c : NvmeSqe) : Nat := c.cdw10
def dword11 (c : NvmeSqe) : Nat := c.cdw11

/-- The fields have the widths of the submission queue entry. -/
structure Wf (c : NvmeSqe) : Prop where
  opcode_lt : c.opcode < 2 ^ 8
  commandId_lt : c.commandId < 2 ^ 16
  nsid_lt : c.nsid < 2 ^ 32
  cdw10_lt : c.cdw10 < 2 ^ 32
  cdw11_lt : c.cdw11 < 2 ^ 32
  cdw12_lt : c.cdw12 < 2 ^ 32

end NvmeSqe

/-- `struct nvme_completion`. -/
structure NvmeCompletion where
  result0 : Nat
  result1 : Nat
  sqHead : Nat
  sqId : Nat
  commandId : Nat
  status : Nat
  deriving DecidableEq, Repr, Inhabited

/-- `phase | (status << 1)` in the 16 bits of the field. -/
def cqeStatus (phase : Bool) (status : Nat) : Nat := phase.toNat + 2 * (status % 2 ^ 15)

/-- The phase tag of a completion. -/
def NvmeCompletion.phase (c : NvmeCompletion) : Bool := c.status % 2 = 1

@[simp] theorem phase_cqeStatus {phase : Bool} {status : Nat} (c : NvmeCompletion)
    (h : c.status = cqeStatus phase status) : c.phase = phase := by
  rw [NvmeCompletion.phase, h, cqeStatus]
  cases phase <;> simp

/-! ## Queues -/

/-- `struct nvmev_sq_stat`. -/
structure NvmevSqStat where
  nrDispatched : Nat
  nrDispatch : Nat
  nrInFlight : Nat
  maxNrInFlight : Nat
  totalIo : Nat
  deriving DecidableEq, Repr, Inhabited

/-- `struct nvmev_submission_queue` with the slots in host memory. -/
structure NvmevSubmissionQueue where
  qid : Nat
  cqid : Nat
  queueSize : Nat
  stat : NvmevSqStat
  sq : Nat → NvmeSqe
  deriving Inhabited

/-- `struct nvmev_completion_queue` with the slots in host memory. -/
structure NvmevCompletionQueue where
  qid : Nat
  irqVector : Nat
  irqEnabled : Bool
  interruptReady : Bool
  queueSize : Nat
  phase : Bool
  cqHead : Nat
  cqTail : Int
  cq : Nat → NvmeCompletion
  deriving Inhabited

/-- `struct nvmev_admin_queue`: either ring is absent until its base address is written.
`history` records the completions written so far with their slots; the device does not read it. -/
structure NvmevAdminQueue where
  phase : Bool
  sqDepth : Nat
  cqDepth : Nat
  cqHead : Nat
  nvmeSq : Option (Nat → NvmeSqe)
  nvmeCq : Option (Nat → NvmeCompletion)
  history : List (Nat × NvmeCompletion)
  deriving Inhabited

/-! ## Work queues -/

/-- `struct nvmev_io_work`. -/
structure NvmevIoWork where
  sqid : Nat
  cqid : Nat
  sqEntry : Nat
  commandId : Nat
  nsecsTarget : Nat
  isCopied : Bool
  isCompleted : Bool
  status : Nat
  result0 : Nat
  result1 : Nat
  isInternal : Bool
  writeBuffer : Nat
  buffsToRelease : Nat
  next : Nat
  prev : Nat
  deriving DecidableEq, Repr, Inhabited

/-- `struct nvmev_io_worker`. -/
structure NvmevIoWorker where
  workQueue : Nat → NvmevIoWork
  freeSeq : Nat
  freeSeqEnd : Nat
  ioSeq : Nat
  ioSeqEnd : Nat
  latestNsecs : Nat
  deriving Inhabited

/-! ## The device -/

/-- The registers of `struct nvme_ctrl_regs` and `struct __nvme_bar` that change. -/
structure NvmeBar where
  aqa : Nat
  asq : Nat
  acq : Nat
  cc : Nat
  csts : Nat
  deriving DecidableEq, Repr, Inhabited

/-- `struct nvmev_dev`. -/
structure NvmevDev (σ : Type) where
  clock : Clock
  ns : σ
  nrNs : Nat
  nrIoWorkers : Nat
  ioWorkers : Nat → NvmevIoWorker
  ioWorkerTurn : Nat
  nrSq : Nat
  nrCq : Nat
  sqes : Nat → Option NvmevSubmissionQueue
  cqes : Nat → Option NvmevCompletionQueue
  dbs : Nat → Nat
  oldDbs : Nat → Nat
  adminQ : Option NvmevAdminQueue
  bar : NvmeBar
  oldBar : NvmeBar
  deriving Inhabited

end NvmeVirt
