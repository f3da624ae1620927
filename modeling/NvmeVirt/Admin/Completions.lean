import NvmeVirt.Admin.Commands
import NvmeVirt.Library.Ring
import Mathlib.Data.List.Indexes

/-!
# Completions of admin commands

Every handler but that of abort writes one completion for its command, so the admin
completion queue answers the submitted commands in order.
-/

namespace NvmeVirt

open Checked RingBuffer

variable {σ : Type}

/-- The admin queue `q` has its two rings. -/
structure AdminReady (dev : NvmevDev σ) (q : NvmevAdminQueue) (sq : Nat → NvmeSqe)
    (cq : Nat → NvmeCompletion) : Prop where
  queue : dev.adminQ = some q
  sq : q.nvmeSq = some sq
  cq : q.nvmeCq = some cq

/-- One completion for `cmd` has been written, and the doorbell of the admin submission queue
and the number of namespaces are what they were. -/
structure Answered (cmd : NvmeSqe) (q : NvmevAdminQueue) (cq : Nat → NvmeCompletion)
    (dev dev' : NvmevDev σ) : Prop where
  posted : ∃ cqe, dev'.adminQ = some (q.post cq cqe) ∧ cqe.commandId = cmd.commandId ∧
    cqe.phase = q.phase
  dbs : dev'.dbs 0 = dev.dbs 0
  oldDbs : dev'.oldDbs 0 = dev.oldDbs 0
  nrNs : dev'.nrNs = dev.nrNs

/-- A command that is answered: it is not an abort, and what it names lies inside of the tables
that its handler indexes. -/
structure Answerable (nrNs : Nat) (cmd : NvmeSqe) : Prop where
  not_abort : cmd.adminOpcode ≠ .abortCmd
  qid_le : cmd.adminOpcode ∈ [.createSq, .deleteSq, .createCq, .deleteCq] → cmd.qid ≤ nrMaxIoQueue
  qid_ne_zero : cmd.adminOpcode = .createSq → cmd.qid ≠ 0
  nsid : cmd.adminOpcode = .identify → cmd.cns ∈ [0x00, 0x03, 0x05] →
    1 ≤ cmd.nsid ∧ cmd.nsid ≤ nrNs
  smartLog : cmd.adminOpcode = .getLogPage → cmd.lid = nvmeLogSmart →
    logPageLen cmd ≤ smartLogSize
  effectsLog : cmd.adminOpcode = .getLogPage → cmd.lid = nvmeLogCmdEffects →
    logPageLen cmd ≤ effectsLogSize

namespace AdminReady

variable {dev dev₁ : NvmevDev σ} {q : NvmevAdminQueue} {sq : Nat → NvmeSqe}
  {cq : Nat → NvmeCompletion}

theorem adminQueue (h : AdminReady dev q sq cq) : dev.adminQueue = .ok q := by
  rw [NvmevDev.adminQueue, h.queue]

theorem adminSqe (h : AdminReady dev q sq cq) (eid : Nat) : dev.adminSqe eid = .ok (sq eid) := by
  simp only [NvmevDev.adminSqe, h.adminQueue, ok_bind, h.sq]
  rfl

/-- A change of the device that leaves the admin queue alone. -/
theorem of_adminQ_eq (h : AdminReady dev q sq cq) (hq : dev₁.adminQ = dev.adminQ) :
    AdminReady dev₁ q sq cq :=
  ⟨hq.trans h.queue, h.sq, h.cq⟩

/-- `__make_cq_entry_results` answers its command. -/
theorem makeCqEntryResults (h : AdminReady dev q sq cq) (eid ret result0 result1 : Nat) :
    ∃ dev', dev.makeCqEntryResults eid ret result0 result1 = .ok dev' ∧
      Answered (sq eid) q cq dev dev' := by
  simp only [NvmevDev.makeCqEntryResults, h.adminSqe, h.adminQueue, ok_bind, h.cq]
  exact ⟨_, rfl, ⟨_, rfl, rfl, phase_cqeStatus _ rfl⟩, rfl, rfl, rfl⟩

/-- The same after a change that the admin submission queue does not see. -/
theorem makeCqEntryResults_after (h : AdminReady dev q sq cq) (hq : dev₁.adminQ = dev.adminQ)
    (hdbs : dev₁.dbs 0 = dev.dbs 0) (hold : dev₁.oldDbs 0 = dev.oldDbs 0)
    (hns : dev₁.nrNs = dev.nrNs) (eid ret result0 result1 : Nat) :
    ∃ dev', dev₁.makeCqEntryResults eid ret result0 result1 = .ok dev' ∧
      Answered (sq eid) q cq dev dev' := by
  obtain ⟨dev', hok, hans⟩ := (h.of_adminQ_eq hq).makeCqEntryResults eid ret result0 result1
  exact ⟨dev', hok, hans.posted, hans.dbs.trans hdbs, hans.oldDbs.trans hold, hans.nrNs.trans hns⟩

/-- The namespace of an identify command exists. -/
theorem nsIndex (cmd : NvmeSqe) (hns : 1 ≤ cmd.nsid ∧ cmd.nsid ≤ dev.nrNs) :
    ∃ i, dev.nsIndex cmd = .ok i := by
  have hlt : u32Sub cmd.nsid 1 < dev.nrNs := by
    simp only [u32Sub]
    omega
  exact ⟨_, if_pos hlt⟩

theorem adminIdentify (env : AdminEnv) (h : AdminReady dev q sq cq) {eid : Nat}
    (hns : (sq eid).cns ∈ [0x00, 0x03, 0x05] → 1 ≤ (sq eid).nsid ∧ (sq eid).nsid ≤ dev.nrNs) :
    ∃ dev', dev.adminIdentify env eid = .ok dev' ∧ Answered (sq eid) q cq dev dev' := by
  have hnamespace : (sq eid).cns ∈ [0x00, 0x03, 0x05] →
      ∃ dev', dev.adminIdentifyNamespace eid = .ok dev' ∧ Answered (sq eid) q cq dev dev' := by
    intro hcns
    obtain ⟨i, hi⟩ := nsIndex _ (hns hcns)
    simp only [NvmevDev.adminIdentifyNamespace, h.adminSqe, ok_bind, hi]
    exact h.makeCqEntryResults eid nvmeScSuccess 0 0
  simp only [NvmevDev.adminIdentify, h.adminSqe, ok_bind]
  split
  · next hcns => exact hnamespace (by simp [hcns])
  · exact h.makeCqEntryResults eid nvmeScSuccess 0 0
  · exact h.makeCqEntryResults eid nvmeScSuccess 0 0
  · next hcns => exact hnamespace (by simp [hcns])
  · next hcns =>
    obtain ⟨i, hi⟩ := nsIndex _ (hns (by simp [hcns]))
    simp only [NvmevDev.adminIdentifyZnsNamespace, h.adminSqe, ok_bind, hi]
    split
    · exact h.makeCqEntryResults eid nvmeScSuccess 0 0
    · next hzns =>
      rw [require_pos (env.csi_of_isZns i (by simpa using hzns)), ok_bind]
      exact h.makeCqEntryResults eid nvmeScSuccess 0 0
  · exact h.makeCqEntryResults eid nvmeScSuccess 0 0
  · exact h.makeCqEntryResults eid nvmeScInvalidOpcode 0 0

/-- A queue number in range passes the check of the tables. -/
theorem requireQid {qid : Nat} (h : qid ≤ nrMaxIoQueue) : NvmevDev.requireQid qid = .ok () :=
  require_pos h

theorem adminGetLogPage (h : AdminReady dev q sq cq) {eid : Nat}
    (hsmart : (sq eid).lid = nvmeLogSmart → logPageLen (sq eid) ≤ smartLogSize)
    (heffects : (sq eid).lid = nvmeLogCmdEffects → logPageLen (sq eid) ≤ effectsLogSize) :
    ∃ dev', dev.adminGetLogPage eid = .ok dev' ∧ Answered (sq eid) q cq dev dev' := by
  have hchecked : dev.adminGetLogPage eid = dev.makeCqEntry eid nvmeScSuccess := by
    simp only [NvmevDev.adminGetLogPage, h.adminSqe, ok_bind]
    by_cases hs : (sq eid).lid = nvmeLogSmart <;> by_cases he : (sq eid).lid = nvmeLogCmdEffects
    · simp only [if_pos hs, if_pos he, require_pos (hsmart hs), require_pos (heffects he), ok_bind]
    · simp only [if_pos hs, if_neg he, require_pos (hsmart hs), ok_bind]
    · simp only [if_neg hs, if_pos he, require_pos (heffects he), ok_bind]
    · simp only [if_neg hs, if_neg he]
  rw [hchecked]
  exact h.makeCqEntryResults eid nvmeScSuccess 0 0

/-- Every answerable command is answered. -/
theorem procAdminReq (env : AdminEnv) (h : AdminReady dev q sq cq) {eid : Nat}
    (ha : Answerable dev.nrNs (sq eid)) :
    ∃ dev', dev.procAdminReq env eid = .ok dev' ∧ Answered (sq eid) q cq dev dev' := by
  simp only [NvmevDev.procAdminReq, h.adminSqe, ok_bind]
  cases hop : (sq eid).adminOpcode with
  | deleteSq =>
    simp only [NvmevDev.adminDeleteSq, h.adminSqe, ok_bind, requireQid (ha.qid_le (by simp [hop]))]
    refine h.makeCqEntryResults_after ?_ ?_ ?_ ?_ eid nvmeScSuccess 0 0 <;> rfl
  | createSq =>
    simp only [NvmevDev.adminCreateSq, h.adminSqe, ok_bind, requireQid (ha.qid_le (by simp [hop]))]
    have hne : (0 : Nat) ≠ (sq eid).qid * 2 := by
      have := ha.qid_ne_zero hop
      omega
    refine h.makeCqEntryResults_after ?_ ?_ ?_ ?_ eid nvmeScSuccess 0 0
    · rfl
    · exact NvmevDev.resetDb_dbs_of_ne hne
    · exact NvmevDev.resetDb_oldDbs_of_ne hne
    · rfl
  | getLogPage => exact h.adminGetLogPage (ha.smartLog hop) (ha.effectsLog hop)
  | deleteCq =>
    simp only [NvmevDev.adminDeleteCq, h.adminSqe, ok_bind, requireQid (ha.qid_le (by simp [hop]))]
    refine h.makeCqEntryResults_after ?_ ?_ ?_ ?_ eid nvmeScSuccess 0 0 <;> rfl
  | createCq =>
    simp only [NvmevDev.adminCreateCq, h.adminSqe, ok_bind, requireQid (ha.qid_le (by simp [hop]))]
    have hne : (0 : Nat) ≠ (sq eid).qid * 2 + 1 := by omega
    refine h.makeCqEntryResults_after ?_ ?_ ?_ ?_ eid nvmeScSuccess 0 0
    · rfl
    · exact NvmevDev.resetDb_dbs_of_ne hne
    · exact NvmevDev.resetDb_oldDbs_of_ne hne
    · rfl
  | identify => exact h.adminIdentify env (ha.nsid hop)
  | abortCmd => exact absurd hop ha.not_abort
  | setFeatures =>
    simp only [NvmevDev.adminSetFeatures, h.adminSqe, ok_bind]
    split
    · refine h.makeCqEntryResults_after ?_ ?_ ?_ ?_ eid nvmeScSuccess _ 0 <;> rfl
    · exact h.makeCqEntryResults eid nvmeScSuccess 0 0
  | getFeatures =>
    simp only [NvmevDev.adminGetFeatures, h.adminSqe, ok_bind]
    exact h.makeCqEntryResults eid nvmeScSuccess _ 0
  | asyncEvent => exact h.makeCqEntryResults eid nvmeScSuccess 0 0
  | other => exact h.makeCqEntryResults eid nvmeScInvalidOpcode 0 0

end AdminReady

/-! ## Runs -/

/-- The commands submitted between the old value of the admin doorbell and the new one. -/
def pendingCommands (dev : NvmevDev σ) : List NvmeSqe :=
  match dev.adminQ with
  | some q =>
    match q.nvmeSq with
    | some sq =>
      (ringSlots q.sqDepth (dev.oldDbs 0)
        ((dev.dbs 0 + q.sqDepth - dev.oldDbs 0) % q.sqDepth)).map sq
    | none => []
  | none => []

/-- The runs of an admin queue of the given depths in which the entries of every poll satisfy `C`:
the state, and the commands submitted so far that have been processed. The host writes slots and
rings the doorbell as it likes. -/
inductive AdminRun (env : AdminEnv) (C : Nat → NvmeSqe → Prop) (sqDepth cqDepth : Nat) :
    NvmevDev σ → List NvmeSqe → Prop
  | start {dev : NvmevDev σ} {q : NvmevAdminQueue} {sq : Nat → NvmeSqe}
      {cq : Nat → NvmeCompletion} (hready : AdminReady dev q sq cq) (hsq : q.sqDepth = sqDepth)
      (hcq : q.cqDepth = cqDepth) (hsqPos : 0 < sqDepth) (hcqPos : 0 < cqDepth)
      (hhead : q.cqHead = 0) (hphase : q.phase = true) (hhistory : q.history = [])
      (hdb : dev.dbs 0 = 0) (hold : dev.oldDbs 0 = 0) :
      AdminRun env C sqDepth cqDepth dev []
  | host {dev : NvmevDev σ} {done : List NvmeSqe} {q : NvmevAdminQueue} (slots : Nat → NvmeSqe)
      (db : Nat) (h : AdminRun env C sqDepth cqDepth dev done) (hq : dev.adminQ = some q)
      (hdb : db < sqDepth) :
      AdminRun env C sqDepth cqDepth
        { dev with
          adminQ := some { q with nvmeSq := some slots }
          dbs := Function.update dev.dbs 0 db } done
  | poll {dev dev' : NvmevDev σ} {done : List NvmeSqe}
      (h : AdminRun env C sqDepth cqDepth dev done)
      (hc : ∀ cmd ∈ pendingCommands dev, C dev.nrNs cmd) (hok : dev.procAdminDbs env = .ok dev') :
      AdminRun env C sqDepth cqDepth dev' (done ++ pendingCommands dev)

/-- What the completions of `done` look like: entry `k` is answered in slot `k % cqDepth` with its
command identifier and the phase of its round. -/
def answers (cqDepth : Nat) (done : List NvmeSqe) : List (Nat × Nat × Bool) :=
  done.mapIdx fun k cmd => (k % cqDepth, cmd.commandId, ringPhase cqDepth k)

/-- What a host sees of the completions written so far. -/
def NvmevAdminQueue.answered (q : NvmevAdminQueue) : List (Nat × Nat × Bool) :=
  q.history.map fun p => (p.1, p.2.commandId, p.2.phase)

/-- What holds of an admin queue after the commands `done`. -/
structure AdminAt (cqDepth : Nat) (done : List NvmeSqe) (q : NvmevAdminQueue) : Prop where
  pos : 0 < cqDepth
  depth : q.cqDepth = cqDepth
  head : q.cqHead = done.length % cqDepth
  phase : q.phase = ringPhase cqDepth done.length
  answered : q.answered = answers cqDepth done

/-- One completion more. -/
theorem AdminAt.post {cqDepth : Nat} {done : List NvmeSqe} {q : NvmevAdminQueue} {cmd : NvmeSqe}
    {cq : Nat → NvmeCompletion} {cqe : NvmeCompletion} (h : AdminAt cqDepth done q)
    (hid : cqe.commandId = cmd.commandId) (hphase : cqe.phase = q.phase) :
    AdminAt cqDepth (done ++ [cmd]) (q.post cq cqe) := by
  constructor
  · exact h.pos
  · exact h.depth
  · rw [List.length_append, List.length_singleton, ← next_slot h.pos, ← h.head, ← h.depth]
    rfl
  · rw [List.length_append, List.length_singleton, ringPhase_succ h.pos, ← h.head, ← h.phase,
      ← h.depth]
    rfl
  · have hlast : (q.post cq cqe).answered =
        q.answered ++ [(q.cqHead, cqe.commandId, cqe.phase)] := List.map_append
    rw [hlast, h.answered, hid, hphase, h.head, h.phase, answers, answers, List.mapIdx_concat]

/-- What holds of the admin queue of a device after the commands `done`. -/
structure AdminQueueAt (sqDepth cqDepth : Nat) (done : List NvmeSqe) (sq : Nat → NvmeSqe)
    (dev : NvmevDev σ) (q : NvmevAdminQueue) : Prop where
  ready : ∃ cq, AdminReady dev q sq cq
  sqDepth : q.sqDepth = sqDepth
  at_done : AdminAt cqDepth done q

/-- The loop of `nvmev_proc_admin_sq` answers its commands. -/
theorem procAdminLoop_answers (env : AdminEnv) {sqDepth cqDepth n i : Nat} {done : List NvmeSqe}
    {sq : Nat → NvmeSqe} {dev : NvmevDev σ} {q : NvmevAdminQueue} (hpos : 0 < sqDepth)
    (h : AdminQueueAt sqDepth cqDepth done sq dev q)
    (hc : ∀ cmd ∈ (ringSlots sqDepth i n).map sq, Answerable dev.nrNs cmd) :
    ∃ dev' q', NvmevDev.procAdminLoop env sqDepth n dev (i % sqDepth) = .ok dev' ∧
      AdminQueueAt sqDepth cqDepth (done ++ (ringSlots sqDepth i n).map sq) sq dev' q' ∧
      dev'.dbs 0 = dev.dbs 0 ∧ dev'.oldDbs 0 = dev.oldDbs 0 ∧ dev'.nrNs = dev.nrNs := by
  induction n generalizing i done dev q with
  | zero =>
    refine ⟨dev, q, rfl, ?_, rfl, rfl, rfl⟩
    rwa [ringSlots_zero, List.map_nil, List.append_nil]
  | succ n ih =>
    rw [ringSlots_succ, List.map_cons] at hc ⊢
    obtain ⟨cq, hready⟩ := h.ready
    obtain ⟨dev₁, hok, ⟨cqe, hq, hid, hphase⟩, hdbs, hold, hns⟩ :=
      hready.procAdminReq env (hc _ (List.mem_cons_self ..))
    have hat : AdminQueueAt sqDepth cqDepth (done ++ [sq (i % sqDepth)]) sq dev₁ (q.post cq cqe) :=
      ⟨⟨_, hq, hready.sq, rfl⟩, h.sqDepth, h.at_done.post hid hphase⟩
    obtain ⟨dev', q', hloop, hat', hdbs', hold', hns'⟩ := ih hat fun cmd hcmd => by
      rw [hns]
      exact hc cmd (List.mem_cons_of_mem _ hcmd)
    refine ⟨dev', q', ?_, ?_, hdbs'.trans hdbs, hold'.trans hold, hns'.trans hns⟩
    · rw [NvmevDev.procAdminLoop, hok, ok_bind, next_slot hpos]
      exact hloop
    · rwa [List.append_assoc, List.singleton_append] at hat'

/-- The invariant of a run. -/
structure AdminInv (sqDepth cqDepth : Nat) (done : List NvmeSqe) (dev : NvmevDev σ) : Prop where
  queue : ∃ sq q, AdminQueueAt sqDepth cqDepth done sq dev q
  dbs_lt : dev.dbs 0 < sqDepth
  oldDbs_lt : dev.oldDbs 0 < sqDepth

/-- A poll of answerable commands answers them. -/
theorem AdminInv.poll (env : AdminEnv) {sqDepth cqDepth : Nat} {done : List NvmeSqe}
    {dev : NvmevDev σ} (h : AdminInv sqDepth cqDepth done dev)
    (hc : ∀ cmd ∈ pendingCommands dev, Answerable dev.nrNs cmd) :
    ∃ dev', dev.procAdminDbs env = .ok dev' ∧
      AdminInv sqDepth cqDepth (done ++ pendingCommands dev) dev' := by
  obtain ⟨⟨sq, q, hat⟩, hdb, hold⟩ := h
  obtain ⟨cq, hready⟩ := hat.ready
  have hpos : 0 < sqDepth := Nat.zero_lt_of_lt hdb
  obtain ⟨hle, hlt, hmod⟩ := submittedUpTo_spec (p := dev.oldDbs 0) hdb
  have hpending : pendingCommands dev =
      (ringSlots sqDepth (dev.oldDbs 0) (submittedUpTo sqDepth (dev.oldDbs 0) (dev.dbs 0) -
        dev.oldDbs 0)).map sq := by
    simp only [pendingCommands, hready.queue, hready.sq, hat.sqDepth, submittedUpTo,
      Nat.mod_eq_of_lt hold, Nat.add_sub_cancel_left]
  have hdist := distance_eq hle hlt
  rw [hmod, Nat.mod_eq_of_lt hold] at hdist
  rw [hpending] at hc ⊢
  generalize submittedUpTo sqDepth (dev.oldDbs 0) (dev.dbs 0) - dev.oldDbs 0 = n at hc hdist ⊢
  obtain ⟨dev', q', hloop, ⟨⟨cq', hready'⟩, hdepth', hat'⟩, hdbs', hold', -⟩ :=
    procAdminLoop_answers env hpos hat hc
  rw [Nat.mod_eq_of_lt hold] at hloop
  simp only [NvmevDev.procAdminDbs]
  by_cases hne : dev.dbs 0 = dev.oldDbs 0
  · -- The doorbell has not moved.
    have hn : n = 0 := by
      rw [← hdist, hne]
      simp
    subst hn
    rw [if_neg (not_not.mpr hne)]
    refine ⟨_, rfl, ⟨sq, q, ⟨⟨cq, hready.of_adminQ_eq rfl⟩, hat.sqDepth, ?_⟩⟩, hdb, ?_⟩
    · rw [ringSlots_zero, List.map_nil, List.append_nil]
      exact hat.at_done
    · simpa using hold
  · rw [if_pos hne]
    have hsq : NvmevDev.nvmevProcAdminSq env dev (dev.dbs 0) (dev.oldDbs 0) = .ok dev' := by
      simp only [NvmevDev.nvmevProcAdminSq, hready.adminQueue, ok_bind, hat.sqDepth, hdist]
      exact hloop
    rw [hsq]
    refine ⟨_, rfl, ⟨sq, q', ⟨⟨cq', hready'.of_adminQ_eq rfl⟩, hdepth', hat'⟩⟩, hdbs'.trans_lt hdb, ?_⟩
    simpa using hdb

theorem AdminRun.inv {env : AdminEnv} {sqDepth cqDepth : Nat} {dev : NvmevDev σ}
    {done : List NvmeSqe} (h : AdminRun env Answerable sqDepth cqDepth dev done) :
    AdminInv sqDepth cqDepth done dev := by
  induction h with
  | start hready hsq hcq hsqPos hcqPos hhead hphase hhistory hdb hold =>
    refine ⟨⟨_, _, ⟨_, hready⟩, hsq, hcqPos, hcq, hhead, ?_, ?_⟩, hdb.trans_lt hsqPos,
      hold.trans_lt hsqPos⟩
    · rw [hphase, List.length_nil, ringPhase, Nat.zero_div]
      rfl
    · rw [NvmevAdminQueue.answered, hhistory]
      rfl
  | host slots db _ hq hdb ih =>
    obtain ⟨⟨sq, q, ⟨cq, hready⟩, hdepth, hat⟩, -, hold⟩ := ih
    obtain rfl := Option.some_inj.mp (hq.symm.trans hready.queue)
    refine ⟨⟨slots, _, ⟨cq, rfl, rfl, hready.cq⟩, hdepth, ⟨hat.pos, hat.depth, hat.head, hat.phase,
      hat.answered⟩⟩, ?_, hold⟩
    simpa using hdb
  | poll _ hc hok ih =>
    obtain ⟨dev', hok', hinv⟩ := ih.poll env hc
    obtain rfl := Except.ok.inj (hok.symm.trans hok')
    exact hinv

/-- A new admin queue of two slots. -/
def twoSlotQueue : NvmevAdminQueue :=
  { phase := true
    sqDepth := 2
    cqDepth := 2
    cqHead := 0
    nvmeSq := some fun _ => default
    nvmeCq := some fun _ => default
    history := [] }

/-- A device with this admin queue. -/
def adminIdle : NvmevDev Unit :=
  { (default : NvmevDev Unit) with
    adminQ := some twoSlotQueue
    dbs := fun _ => 0
    oldDbs := fun _ => 0 }

/-- The command of opcode `opcode` with identifier 7. -/
def adminCommand (opcode : Nat) : NvmeSqe := { (default : NvmeSqe) with opcode, commandId := 7 }

end NvmeVirt
