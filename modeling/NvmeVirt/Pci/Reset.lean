import NvmeVirt.Pci.Bars
import NvmeVirt.Admin.Completions

/-!
# Enabling after a reset

Head, phase and doorbells of the admin queue are reset by different branches of
`nvmev_proc_bars`, none of which is the enable itself. What an enable finds is
determined by what has happened since each of them was last reset.
-/

namespace NvmeVirt

open Checked RingBuffer

variable {σ : Type}

/-! ## What admin commands do to the admin queue -/

/-- The admin queue stands `head` completions behind the last reset of its head, which was `wraps`
rounds behind the last reset of its phase. -/
structure Phased (wraps head : Nat) (q : NvmevAdminQueue) : Prop where
  pos : 0 < q.cqDepth
  head_eq : q.cqHead = head % q.cqDepth
  phase_eq : q.phase = ringPhase q.cqDepth (q.cqDepth * wraps + head)

/-- One completion more. -/
theorem Phased.post {wraps head : Nat} {q : NvmevAdminQueue} (h : Phased wraps head q)
    (cq : Nat → NvmeCompletion) (cqe : NvmeCompletion) : Phased wraps (head + 1) (q.post cq cqe) := by
  obtain ⟨hpos, hhead, hphase⟩ := h
  refine ⟨hpos, ?_, ?_⟩
  · change (if q.cqHead + 1 = q.cqDepth then 0 else q.cqHead + 1) = (head + 1) % q.cqDepth
    rw [hhead, next_slot hpos]
  · change (if q.cqHead + 1 = q.cqDepth then !q.phase else q.phase) =
      ringPhase q.cqDepth (q.cqDepth * wraps + (head + 1))
    rw [← Nat.add_assoc, ringPhase_succ hpos, Nat.mul_add_mod, hhead, hphase]

/-- Completions written so far. -/
def NvmevDev.adminPosted (dev : NvmevDev σ) : Nat :=
  match dev.adminQ with
  | some q => q.history.length
  | none => 0

theorem adminPosted_eq {dev : NvmevDev σ} {q : NvmevAdminQueue} (h : dev.adminQ = some q) :
    dev.adminPosted = q.history.length := by
  rw [NvmevDev.adminPosted, h]

/-- What admin commands do: they move the admin queue on by the completions they write, the
doorbell of the admin completion queue stays or is 0, and the registers stay. -/
structure AdminMoves (dev dev' : NvmevDev σ) : Prop where
  posted_le : dev.adminPosted ≤ dev'.adminPosted
  queue : ∀ wraps head, (∀ q, dev.adminQ = some q → Phased wraps head q) →
    ∀ q, dev'.adminQ = some q → Phased wraps (head + (dev'.adminPosted - dev.adminPosted)) q
  dbs : dev'.dbs 1 = dev.dbs 1 ∨ dev'.dbs 1 = 0
  oldDbs : dev'.oldDbs 1 = dev.oldDbs 1 ∨ dev'.oldDbs 1 = 0
  bar : dev'.bar = dev.bar

namespace AdminMoves

variable {a b c : NvmevDev σ}

theorem trans (h : AdminMoves a b) (h' : AdminMoves b c) : AdminMoves a c := by
  refine ⟨h.posted_le.trans h'.posted_le, fun wraps head hq q hc => ?_, ?_, ?_, h'.bar.trans h.bar⟩
  · have hmoved := h'.queue wraps _ (h.queue wraps head hq) q hc
    rwa [Nat.add_assoc, Nat.add_comm (b.adminPosted - _), Nat.sub_add_sub_cancel h'.posted_le
      h.posted_le] at hmoved
  · rcases h'.dbs with heq | hzero
    · rw [heq]
      exact h.dbs
    · exact .inr hzero
  · rcases h'.oldDbs with heq | hzero
    · rw [heq]
      exact h.oldDbs
    · exact .inr hzero

/-- A change of the device that leaves the admin queue alone. -/
theorem of_eq (hq : b.adminQ = a.adminQ) (hdbs : b.dbs 1 = a.dbs 1 ∨ b.dbs 1 = 0)
    (hold : b.oldDbs 1 = a.oldDbs 1 ∨ b.oldDbs 1 = 0) (hbar : b.bar = a.bar) : AdminMoves a b := by
  have hp : b.adminPosted = a.adminPosted := by
    rw [NvmevDev.adminPosted, NvmevDev.adminPosted, hq]
  refine ⟨hp.symm.le, fun wraps head h q hq' => ?_, hdbs, hold, hbar⟩
  rw [hp, Nat.sub_self, Nat.add_zero]
  exact h q (hq ▸ hq')

theorem refl (a : NvmevDev σ) : AdminMoves a a := of_eq rfl (.inl rfl) (.inl rfl) rfl

/-- A computation that does this to `a`, unless it faults. -/
def Moves (a : NvmevDev σ) (r : Except DevFault (NvmevDev σ)) : Prop :=
  Outcome r (AdminMoves a) fun _ => True

/-- Steps that only read the state. -/
theorem bind {α : Type} {r : Except DevFault α} {f : α → Except DevFault (NvmevDev σ)}
    (hf : ∀ x, Moves a (f x)) : Moves a (r >>= f) := by
  cases r with
  | ok x => exact hf x
  | error e => trivial

theorem makeCqEntryResults (h : AdminMoves a b) (eid ret result0 result1 : Nat) :
    Moves a (b.makeCqEntryResults eid ret result0 result1) := by
  unfold NvmevDev.makeCqEntryResults NvmevDev.adminQueue
  apply bind
  intro cmd
  cases hq : b.adminQ with
  | none => trivial
  | some q =>
    rw [ok_bind]
    cases q.nvmeCq with
    | none => trivial
    | some cq =>
      have hposted : ∀ cqe : NvmeCompletion,
          NvmevDev.adminPosted { b with adminQ := some (q.post cq cqe) } = b.adminPosted + 1 := by
        intro cqe
        rw [adminPosted_eq hq, adminPosted_eq rfl]
        exact List.length_append
      refine h.trans ⟨?_, fun wraps head hphased q' hq' => ?_, .inl rfl, .inl rfl, rfl⟩
      · rw [hposted]
        exact Nat.le_succ _
      · obtain rfl := Option.some_inj.mp hq'
        rw [hposted, Nat.add_sub_cancel_left]
        exact (hphased q hq).post cq _

/-- A completion after a change that the admin queue does not see. -/
theorem makeCqEntry (hq : b.adminQ = a.adminQ) (hdbs : b.dbs 1 = a.dbs 1 ∨ b.dbs 1 = 0)
    (hold : b.oldDbs 1 = a.oldDbs 1 ∨ b.oldDbs 1 = 0) (hbar : b.bar = a.bar)
    (eid ret result0 result1 : Nat) : Moves a (b.makeCqEntryResults eid ret result0 result1) :=
  (of_eq hq hdbs hold hbar).makeCqEntryResults eid ret result0 result1

theorem answer (eid ret result0 result1 : Nat) :
    Moves a (a.makeCqEntryResults eid ret result0 result1) :=
  (refl a).makeCqEntryResults eid ret result0 result1

theorem resetDb_one (i : Nat) : (a.resetDb i).dbs 1 = a.dbs 1 ∨ (a.resetDb i).dbs 1 = 0 := by
  rcases eq_or_ne 1 i with rfl | hne
  · exact .inr (by simp [NvmevDev.resetDb])
  · exact .inl (NvmevDev.resetDb_dbs_of_ne hne)

theorem resetDb_old_one (i : Nat) :
    (a.resetDb i).oldDbs 1 = a.oldDbs 1 ∨ (a.resetDb i).oldDbs 1 = 0 := by
  rcases eq_or_ne 1 i with rfl | hne
  · exact .inr (by simp [NvmevDev.resetDb])
  · exact .inl (NvmevDev.resetDb_oldDbs_of_ne hne)

theorem adminGetLogPage (eid : Nat) : Moves a (a.adminGetLogPage eid) := by
  apply bind
  intro cmd
  by_cases hs : cmd.lid = nvmeLogSmart <;> by_cases he : cmd.lid = nvmeLogCmdEffects
  · simp only [if_pos hs, if_pos he]
    exact bind fun _ => bind fun _ => answer eid _ 0 0
  · simp only [if_pos hs, if_neg he]
    exact bind fun _ => answer eid _ 0 0
  · simp only [if_neg hs, if_pos he]
    exact bind fun _ => answer eid _ 0 0
  · simp only [if_neg hs, if_neg he]
    exact answer eid _ 0 0

theorem adminIdentify (env : AdminEnv) (eid : Nat) : Moves a (a.adminIdentify env eid) := by
  apply bind
  intro cmd
  split
  · exact bind fun _ => bind fun _ => answer eid _ 0 0
  · exact answer eid _ 0 0
  · exact answer eid _ 0 0
  · exact bind fun _ => bind fun _ => answer eid _ 0 0
  · refine bind fun _ => bind fun _ => ?_
    split
    · exact answer eid _ 0 0
    · exact bind fun _ => answer eid _ 0 0
  · exact answer eid _ 0 0
  · exact answer eid _ 0 0

/-- Every admin command, with any fields. -/
theorem procAdminReq (env : AdminEnv) (eid : Nat) : Moves a (a.procAdminReq env eid) := by
  apply bind
  intro cmd
  split
  · refine bind fun _ => bind fun _ => makeCqEntry ?_ ?_ ?_ ?_ eid _ 0 0
    · rfl
    · exact .inl rfl
    · exact .inl rfl
    · rfl
  · refine bind fun cmd => bind fun _ => makeCqEntry ?_ ?_ ?_ ?_ eid _ 0 0
    · rfl
    · exact resetDb_one (a := a.setSq cmd.qid _) _
    · exact resetDb_old_one (a := a.setSq cmd.qid _) _
    · rfl
  · exact adminGetLogPage eid
  · refine bind fun _ => bind fun _ => makeCqEntry ?_ ?_ ?_ ?_ eid _ 0 0
    · rfl
    · exact .inl rfl
    · exact .inl rfl
    · rfl
  · refine bind fun cmd => bind fun _ => makeCqEntry ?_ ?_ ?_ ?_ eid _ 0 0
    · rfl
    · exact resetDb_one (a := a.setCq cmd.qid _) _
    · exact resetDb_old_one (a := a.setCq cmd.qid _) _
    · rfl
  · exact adminIdentify env eid
  · exact refl a
  · apply bind
    intro cmd
    split
    · refine makeCqEntry ?_ ?_ ?_ ?_ eid _ _ 0
      · rfl
      · exact .inl rfl
      · exact .inl rfl
      · rfl
    · exact answer eid _ 0 0
  · exact bind fun _ => answer eid _ _ 0
  · exact answer eid _ 0 0
  · exact answer eid _ 0 0

/-- The loop of `nvmev_proc_admin_sq`. -/
theorem procAdminLoop (env : AdminEnv) (depth n eid : Nat) :
    Moves a (NvmevDev.procAdminLoop env depth n a eid) := by
  induction n generalizing a eid with
  | zero => exact refl a
  | succ n ih =>
    refine (procAdminReq env eid).bind fun b hb => ?_
    exact Outcome.mono (ih (a := b) _) (fun c hc => hb.trans hc) fun _ _ => trivial

theorem nvmevProcAdminSq (env : AdminEnv) (newDb oldDb : Nat) :
    Moves a (a.nvmevProcAdminSq env newDb oldDb) :=
  bind fun q => procAdminLoop env q.sqDepth _ oldDb

/-- A poll of the admin doorbells; a doorbell that has not moved starts no command. -/
theorem procAdminDbs {env : AdminEnv} (hok : a.procAdminDbs env = .ok c) :
    ∃ b, AdminMoves a b ∧
      (a.dbs 0 = a.oldDbs 0 → b.dbs 0 = a.dbs 0 ∧ b.oldDbs 0 = a.oldDbs 0) ∧
      c = { b with oldDbs := Function.update b.oldDbs 1 (b.dbs 1) } := by
  rw [NvmevDev.procAdminDbs] at hok
  split at hok
  · next hne =>
    obtain ⟨b, hb, hset⟩ := bind_eq_ok.mp hok
    obtain rfl := Except.ok.inj hset
    have hloop : AdminMoves a b := (nvmevProcAdminSq env _ _).of_ok hb
    refine ⟨{ b with oldDbs := Function.update b.oldDbs 0 (a.dbs 0) }, hloop.trans ?_,
      fun heq => absurd heq hne, rfl⟩
    refine of_eq ?_ ?_ ?_ ?_
    · rfl
    · exact .inl rfl
    · exact .inl (by simp)
    · rfl
  · obtain rfl := Except.ok.inj hok
    exact ⟨a, refl a, fun _ => ⟨rfl, rfl⟩, rfl⟩

end AdminMoves

/-! ## Runs -/

/-- What has happened since the last resets: whether the doorbells of the admin queue have been
rung, the completions since the head was reset, and the rounds that lie between the last reset of
the phase and that of the head. -/
structure Since where
  sqRung : Bool
  cqRung : Bool
  head : Nat
  wraps : Nat

/-- Nothing has happened. -/
def Since.reset : Since := { sqRung := false, cqRung := false, head := 0, wraps := 0 }

/-- Depth of the admin completion queue. -/
def NvmevDev.adminDepth (dev : NvmevDev σ) : Nat :=
  match dev.adminQ with
  | some q => q.cqDepth
  | none => 1

/-- What the branch of a changed register resets. -/
def Since.after (dev : NvmevDev σ) (s : Since) : BarReg → Since
  | .aqa => .reset
  | .asq => if dev.adminQ.isSome then { s with sqRung := false } else s
  | .acq => if dev.adminQ.isSome then { s with cqRung := false, head := 0, wraps := 0 } else s
  | .cc =>
    if ccShn dev.bar.cc = 1 then
      { sqRung := false, cqRung := false, head := 0, wraps := s.wraps + s.head / dev.adminDepth }
    else s

/-- One step: the host writes registers, doorbells or slots, the dispatcher handles a changed
register or polls the admin doorbells, or something happens that the admin queue does not see. -/
inductive ResetStep (env : AdminEnv) (dev : NvmevDev σ) (s : Since) : NvmevDev σ → Since → Prop
  | reg (aqa asq acq cc : Nat) :
      ResetStep env dev s { dev with bar := { aqa, asq, acq, cc, csts := dev.bar.csts } } s
  | ringSq (db : Nat) :
      ResetStep env dev s { dev with dbs := Function.update dev.dbs 0 db } { s with sqRung := true }
  | ringCq (db : Nat) :
      ResetStep env dev s { dev with dbs := Function.update dev.dbs 1 db } { s with cqRung := true }
  | slots {q : NvmevAdminQueue} (hq : dev.adminQ = some q) (slots : Nat → NvmeSqe) :
      ResetStep env dev s { dev with adminQ := some { q with nvmeSq := some slots } } s
  | check {dev' : NvmevDev σ} (r : BarReg) (hok : dev.barCheck env r = .ok (some dev')) :
      ResetStep env dev s dev' (s.after dev r)
  | poll {dev' : NvmevDev σ} (hok : dev.procAdminDbs env = .ok dev') :
      ResetStep env dev s dev' { s with head := s.head + (dev'.adminPosted - dev.adminPosted) }
  | other {dev' : NvmevDev σ} (hq : dev'.adminQ = dev.adminQ) (hbar : dev'.bar = dev.bar)
      (hdbs : dev'.dbs 0 = dev.dbs 0 ∧ dev'.dbs 1 = dev.dbs 1)
      (hold : dev'.oldDbs 0 = dev.oldDbs 0 ∧ dev'.oldDbs 1 = dev.oldDbs 1) :
      ResetStep env dev s dev' s

/-- The runs of a controller from when the driver is loaded. -/
inductive ResetRun (env : AdminEnv) : NvmevDev σ → Since → Prop
  | load {dev : NvmevDev σ} (hq : dev.adminQ = none) (hdbs : dev.dbs 0 = 0 ∧ dev.dbs 1 = 0)
      (hold : dev.oldDbs 0 = 0 ∧ dev.oldDbs 1 = 0) : ResetRun env dev .reset
  | step {dev dev' : NvmevDev σ} {s s' : Since} (h : ResetRun env dev s)
      (hstep : ResetStep env dev s dev' s') : ResetRun env dev' s'

/-- The invariant of a run: a doorbell that has not been rung is 0, and the admin queue is where
its completions have moved it. -/
structure ResetInv (dev : NvmevDev σ) (s : Since) : Prop where
  sq : s.sqRung = false → dev.dbs 0 = 0 ∧ dev.oldDbs 0 = 0
  cq : s.cqRung = false → dev.dbs 1 = 0 ∧ dev.oldDbs 1 = 0
  queue : ∀ q, dev.adminQ = some q → Phased s.wraps s.head q

namespace NvmevDev

variable {dev : NvmevDev σ}

theorem resetDb_self (dev : NvmevDev σ) (i : Nat) : (dev.resetDb i).dbs i = 0 ∧ (dev.resetDb i).oldDbs i = 0 := by
  simp [resetDb]

/-- A doorbell that is 0 stays 0 when any doorbell is reset. -/
theorem resetDb_of_zero {i : Nat} (j : Nat) (h : dev.dbs i = 0 ∧ dev.oldDbs i = 0) :
    (dev.resetDb j).dbs i = 0 ∧ (dev.resetDb j).oldDbs i = 0 := by
  by_cases hij : i = j
  · subst hij
    exact resetDb_self dev i
  · rwa [resetDb_dbs_of_ne hij, resetDb_oldDbs_of_ne hij]

end NvmevDev

/-- A queue whose head and phase have just been reset. -/
theorem Phased.of_reset {q : NvmevAdminQueue} (hpos : 0 < q.cqDepth) (hhead : q.cqHead = 0)
    (hphase : q.phase = true) : Phased 0 0 q := by
  refine ⟨hpos, ?_, ?_⟩
  · rw [hhead, Nat.zero_mod]
  · rw [hphase, Nat.mul_zero, Nat.add_zero, ringPhase, Nat.zero_div]
    rfl

/-- A shutdown moves the head to slot 0 and leaves the phase where it is. -/
theorem Phased.shutdown {wraps head : Nat} {q : NvmevAdminQueue} (h : Phased wraps head q) :
    Phased (wraps + head / q.cqDepth) 0 { q with cqHead := 0 } := by
  refine ⟨h.pos, (Nat.zero_mod _).symm, ?_⟩
  change q.phase = ringPhase q.cqDepth (q.cqDepth * (wraps + head / q.cqDepth) + 0)
  rw [h.phase_eq, ringPhase, ringPhase, Nat.add_zero, Nat.mul_div_cancel_left _ h.pos,
    Nat.mul_add_div h.pos]

namespace ResetInv

variable {env : AdminEnv} {dev dev' : NvmevDev σ} {s : Since}

theorem procAqa : ResetInv dev.procAqa .reset := by
  refine ⟨fun _ => ?_, fun _ => NvmevDev.resetDb_self _ 1, fun q hq => ?_⟩
  · exact NvmevDev.resetDb_of_zero 1 (NvmevDev.resetDb_self _ 0)
  · obtain rfl := Option.some_inj.mp hq
    exact .of_reset (Nat.succ_pos _) rfl rfl

theorem procAsq (h : ResetInv dev s) : ResetInv (dev.procAsq env) (s.after dev .asq) := by
  unfold NvmevDev.procAsq Since.after
  cases hq : dev.adminQ with
  | none => exact h
  | some q =>
    refine ⟨fun _ => NvmevDev.resetDb_self _ 0, fun hrung => ?_, fun q' hq' => ?_⟩
    · exact NvmevDev.resetDb_of_zero 0 (h.cq hrung)
    · obtain rfl := Option.some_inj.mp hq'
      exact ⟨(h.queue q hq).pos, (h.queue q hq).head_eq, (h.queue q hq).phase_eq⟩

theorem procAcq (h : ResetInv dev s) : ResetInv (dev.procAcq env) (s.after dev .acq) := by
  unfold NvmevDev.procAcq Since.after
  cases hq : dev.adminQ with
  | none => exact h
  | some q =>
    refine ⟨fun hrung => ?_, fun _ => NvmevDev.resetDb_self _ 1, fun q' hq' => ?_⟩
    · exact NvmevDev.resetDb_of_zero 1 (h.sq hrung)
    · obtain rfl := Option.some_inj.mp hq'
      exact .of_reset (Nat.succ_pos _) rfl rfl

end ResetInv

namespace NvmevDev

/-- Enabling and disabling touch nothing but `csts`. -/
theorem procEn_eq (dev : NvmevDev σ) : ∃ csts, dev.procEn = dev.setCsts csts := by
  unfold procEn
  split
  · split
    · exact ⟨_, rfl⟩
    · exact ⟨dev.bar.csts, rfl⟩
  · exact ⟨_, rfl⟩

/-- Without an admin queue the controller does not get ready. -/
theorem cstsRdy_procEn {dev : NvmevDev σ} (hq : dev.adminQ = none) (h : cstsRdy dev.bar.csts = 0) :
    cstsRdy dev.procEn.bar.csts = 0 := by
  unfold procEn
  split
  · rw [hq]
    exact h
  · exact cstsRdy_setRdy (by simp)

/-- What the branch of a changed `cc` does: only the enable decides `rdy`, and a shutdown, which
needs an admin queue, moves the head of the queue to slot 0 and its doorbells to 0. -/
theorem procCc_cases {dev dev' : NvmevDev σ} (hok : dev.procCc = .ok dev') :
    cstsRdy dev'.bar.csts = cstsRdy dev.procEn.bar.csts ∧
    ((ccShn dev.bar.cc = 1 ∧ ∃ q, dev.adminQ = some q ∧
        dev'.adminQ = some { q with cqHead := 0 } ∧ (dev'.dbs 0 = 0 ∧ dev'.oldDbs 0 = 0) ∧
        dev'.dbs 1 = 0 ∧ dev'.oldDbs 1 = 0) ∨
      (ccShn dev.bar.cc ≠ 1 ∧ dev'.adminQ = dev.adminQ ∧ dev'.dbs = dev.dbs ∧
        dev'.oldDbs = dev.oldDbs)) := by
  obtain ⟨csts, hcsts⟩ := dev.procEn_eq
  rw [procCc, hcsts, procShn] at hok
  rw [hcsts]
  split at hok
  · next hshn =>
    cases hq : dev.adminQ with
    | none =>
      simp only [adminQueue, setCsts, hq] at hok
      cases hok
    | some q =>
      simp only [adminQueue, setCsts, hq, ok_bind] at hok
      obtain rfl := Except.ok.inj hok
      have hsq := resetDb_self (dev.setCsts (setShst csts 2)) 0
      have hcq := resetDb_self ((dev.setCsts (setShst csts 2)).resetDb 0) 1
      exact ⟨cstsRdy_setShst _ _, .inl ⟨hshn, q, rfl, rfl, resetDb_of_zero 1 hsq, hcq⟩⟩
  · next hshn =>
    obtain rfl := Except.ok.inj hok
    exact ⟨rfl, .inr ⟨hshn, rfl, rfl, rfl⟩⟩

end NvmevDev

namespace ResetInv

variable {env : AdminEnv} {dev dev' : NvmevDev σ} {s s' : Since}

theorem procCc (h : ResetInv dev s) (hok : dev.procCc = .ok dev') :
    ResetInv dev' (s.after dev .cc) := by
  unfold Since.after
  obtain ⟨-, ⟨hshn, q, hq, hq', hsq, hcq⟩ | ⟨hshn, hq, hdbs, hold⟩⟩ := NvmevDev.procCc_cases hok
  · rw [if_pos hshn]
    refine ⟨fun _ => hsq, fun _ => hcq, fun q₁ hq₁ => ?_⟩
    obtain rfl := Option.some_inj.mp (hq'.symm.trans hq₁)
    rw [NvmevDev.adminDepth, hq]
    exact (h.queue q hq).shutdown
  · rw [if_neg hshn]
    refine ⟨fun hrung => ?_, fun hrung => ?_, fun q hq' => h.queue q (hq ▸ hq')⟩
    · rw [hdbs, hold]
      exact h.sq hrung
    · rw [hdbs, hold]
      exact h.cq hrung

/-- A register whose change is handled. -/
theorem check (h : ResetInv dev s) {r : BarReg} (hok : dev.barCheck env r = .ok (some dev')) :
    ResetInv dev' (s.after dev r) := by
  cases r with
  | aqa =>
    obtain ⟨-, hsome⟩ := Option.ite_none_right_eq_some.mp (Except.ok.inj hok)
    obtain rfl := Option.some_inj.mp hsome
    exact procAqa
  | asq =>
    obtain ⟨-, hsome⟩ := Option.ite_none_right_eq_some.mp (Except.ok.inj hok)
    obtain rfl := Option.some_inj.mp hsome
    exact h.procAsq
  | acq =>
    obtain ⟨-, hsome⟩ := Option.ite_none_right_eq_some.mp (Except.ok.inj hok)
    obtain rfl := Option.some_inj.mp hsome
    exact h.procAcq
  | cc =>
    by_cases hne : dev.oldBar.cc ≠ dev.bar.cc
    · rw [NvmevDev.barCheck, if_pos hne] at hok
      obtain ⟨d, hd, hsome⟩ := bind_eq_ok.mp hok
      obtain rfl := Option.some_inj.mp (Except.ok.inj hsome)
      exact h.procCc hd
    · rw [NvmevDev.barCheck, if_neg hne] at hok
      cases hok

/-- A poll of the admin doorbells: a doorbell that has not been rung starts no command. -/
theorem poll (h : ResetInv dev s) (hok : dev.procAdminDbs env = .ok dev') :
    ResetInv dev' { s with head := s.head + (dev'.adminPosted - dev.adminPosted) } := by
  obtain ⟨d, hmoves, hsq, rfl⟩ := AdminMoves.procAdminDbs hok
  refine ⟨fun hrung => ?_, fun hrung => ?_, hmoves.queue _ _ h.queue⟩
  · obtain ⟨hdb, hold⟩ := h.sq hrung
    obtain ⟨hdb', hold'⟩ := hsq (hdb.trans hold.symm)
    exact ⟨hdb'.trans hdb, by simpa using hold'.trans hold⟩
  · have hdb : d.dbs 1 = 0 := by
      rcases hmoves.dbs with heq | hzero
      · exact heq.trans (h.cq hrung).1
      · exact hzero
    exact ⟨hdb, by simpa using hdb⟩

theorem step (h : ResetInv dev s) (hstep : ResetStep env dev s dev' s') : ResetInv dev' s' := by
  cases hstep with
  | reg aqa asq acq cc => exact ⟨h.sq, h.cq, h.queue⟩
  | ringSq db =>
    refine ⟨nofun, fun hrung => ?_, h.queue⟩
    simpa using h.cq hrung
  | ringCq db =>
    refine ⟨fun hrung => ?_, nofun, h.queue⟩
    simpa using h.sq hrung
  | slots hq slots =>
    refine ⟨h.sq, h.cq, fun q' hq' => ?_⟩
    obtain rfl := Option.some_inj.mp hq'
    exact ⟨(h.queue _ hq).pos, (h.queue _ hq).head_eq, (h.queue _ hq).phase_eq⟩
  | check r hok => exact h.check hok
  | poll hok => exact h.poll hok
  | other hq hbar hdbs hold =>
    refine ⟨fun hrung => ?_, fun hrung => ?_, fun q hq' => h.queue q (hq ▸ hq')⟩
    · rw [hdbs.1, hold.1]
      exact h.sq hrung
    · rw [hdbs.2, hold.2]
      exact h.cq hrung

end ResetInv

theorem ResetRun.inv {env : AdminEnv} {dev : NvmevDev σ} {s : Since} (h : ResetRun env dev s) :
    ResetInv dev s := by
  induction h with
  | load hq hdbs hold =>
    refine ⟨fun _ => ⟨hdbs.1, hold.1⟩, fun _ => ⟨hdbs.2, hold.2⟩, fun q hq' => ?_⟩
    rw [hq] at hq'
    cases hq'
  | step _ hstep ih => exact ih.step hstep

/-! ## The admin queue at an enable -/

/-- The admin queue as a host expects it after an enable. -/
def AdminReset (dev : NvmevDev σ) : Prop :=
  (∃ q, dev.adminQ = some q ∧ q.cqHead = 0 ∧ q.phase = true) ∧
    (dev.dbs 0 = 0 ∧ dev.oldDbs 0 = 0) ∧ dev.dbs 1 = 0 ∧ dev.oldDbs 1 = 0

/-- The completions since the last reset of the head and the last reset of the phase leave both
where they were: the head is reset now or has wrapped around, and the queue has gone an even
number of rounds. -/
def RoundsClosed (dev : NvmevDev σ) (s : Since) : Prop :=
  (ccShn dev.bar.cc = 1 ∨ s.head % dev.adminDepth = 0) ∧ (s.wraps + s.head / dev.adminDepth) % 2 = 0

/-- The doorbells are reset now or have not been rung since they were. -/
def DoorbellsClosed (dev : NvmevDev σ) (s : Since) : Prop :=
  ccShn dev.bar.cc = 1 ∨ (s.sqRung = false ∧ s.cqRung = false)

/-- Only the comparison of `cc` makes the controller ready. -/
theorem ResetStep.cc_of_rdy {env : AdminEnv} {dev dev' : NvmevDev σ} {s s' : Since}
    (h : ResetStep env dev s dev' s') (hnot : cstsRdy dev.bar.csts = 0)
    (hrdy : cstsRdy dev'.bar.csts = 1) : dev.procCc = .ok dev' := by
  have hsame : ∀ d : NvmevDev σ, d.bar.csts = dev.bar.csts → cstsRdy d.bar.csts ≠ 1 := by
    intro d hd hone
    rw [hd, hnot] at hone
    cases hone
  cases h with
  | reg => exact absurd hrdy (hsame _ rfl)
  | ringSq => exact absurd hrdy (hsame _ rfl)
  | ringCq => exact absurd hrdy (hsame _ rfl)
  | slots => exact absurd hrdy (hsame _ rfl)
  | check r hok =>
    cases r with
    | aqa =>
      obtain ⟨-, hsome⟩ := Option.ite_none_right_eq_some.mp (Except.ok.inj hok)
      obtain rfl := Option.some_inj.mp hsome
      exact absurd hrdy (hsame _ rfl)
    | asq =>
      obtain ⟨-, hsome⟩ := Option.ite_none_right_eq_some.mp (Except.ok.inj hok)
      obtain rfl := Option.some_inj.mp hsome
      refine absurd hrdy (hsame _ ?_)
      unfold NvmevDev.procAsq
      split <;> rfl
    | acq =>
      obtain ⟨-, hsome⟩ := Option.ite_none_right_eq_some.mp (Except.ok.inj hok)
      obtain rfl := Option.some_inj.mp hsome
      refine absurd hrdy (hsame _ ?_)
      unfold NvmevDev.procAcq
      split <;> rfl
    | cc =>
      by_cases hne : dev.oldBar.cc ≠ dev.bar.cc
      · rw [NvmevDev.barCheck, if_pos hne] at hok
        obtain ⟨d, hd, hsome⟩ := bind_eq_ok.mp hok
        obtain rfl := Option.some_inj.mp (Except.ok.inj hsome)
        exact hd
      · rw [NvmevDev.barCheck, if_neg hne] at hok
        cases hok
  | poll hok =>
    obtain ⟨d, hmoves, -, rfl⟩ := AdminMoves.procAdminDbs hok
    exact absurd hrdy (hsame _ (congrArg NvmeBar.csts hmoves.bar))
  | other _ hbar => exact absurd hrdy (hsame _ (congrArg NvmeBar.csts hbar))

/-- A round that is even has phase 1. -/
theorem Phased.phase_iff {wraps head : Nat} {q : NvmevAdminQueue} (h : Phased wraps head q) :
    q.phase = true ↔ (wraps + head / q.cqDepth) % 2 = 0 := by
  rw [h.phase_eq, ringPhase, Nat.mul_add_div h.pos, decide_eq_true_iff]

/-- The next completion of an admin command is written to slot 0 with phase 1. -/
def FirstInSlotZero (dev : NvmevDev σ) : Prop :=
  ∀ eid ret result0 result1 dev', dev.makeCqEntryResults eid ret result0 result1 = .ok dev' →
    ∃ q q' cqe, dev.adminQ = some q ∧ dev'.adminQ = some q' ∧
      q'.history = q.history ++ [(0, cqe)] ∧ cqe.phase = true

theorem NvmevAdminQueue.history_post_zero {q : NvmevAdminQueue} (h : q.cqHead = 0)
    {cq : Nat → NvmeCompletion} {cqe : NvmeCompletion} :
    (q.post cq cqe).history = q.history ++ [(0, cqe)] := by
  rw [← h]
  rfl

theorem AdminReset.firstInSlotZero {dev : NvmevDev σ} (h : AdminReset dev) : FirstInSlotZero dev := by
  obtain ⟨⟨q, hq, hhead, hphase⟩, -⟩ := h
  intro eid ret result0 result1 dev' hok
  obtain ⟨cmd, -, hok⟩ := bind_eq_ok.mp hok
  rw [NvmevDev.adminQueue, hq, ok_bind] at hok
  cases hcq : q.nvmeCq with
  | none =>
    rw [hcq] at hok
    cases hok
  | some cq =>
    rw [hcq] at hok
    obtain rfl := Except.ok.inj hok
    exact ⟨q, _, _, hq, rfl, NvmevAdminQueue.history_post_zero hhead,
      (phase_cqeStatus _ rfl).trans hphase⟩

/-- Each time the controller gets ready: if the completions and doorbells since the last resets
leave the admin queue where these put it, head, phase and doorbells are those of a new queue and
the next completion is written to slot 0 with phase 1; and if the head and the phase are those of a
new queue, the completions have left them there. -/
theorem enable_restores_admin_queue {env : AdminEnv} {dev dev' : NvmevDev σ} {s s' : Since}
    (h : ResetRun env dev s) (hstep : ResetStep env dev s dev' s')
    (hnot : cstsRdy dev.bar.csts = 0) (hrdy : cstsRdy dev'.bar.csts = 1) :
    (RoundsClosed dev s ∧ DoorbellsClosed dev s → AdminReset dev' ∧ FirstInSlotZero dev') ∧
      (AdminReset dev' → RoundsClosed dev s) := by
  have hinv := h.inv
  obtain ⟨hrdyEn, hcases⟩ := NvmevDev.procCc_cases (hstep.cc_of_rdy hnot hrdy)
  obtain ⟨q, hq⟩ : ∃ q, dev.adminQ = some q := by
    cases hq : dev.adminQ with
    | none =>
      rw [hrdyEn, NvmevDev.cstsRdy_procEn hq hnot] at hrdy
      cases hrdy
    | some q => exact ⟨q, rfl⟩
  have hphased := hinv.queue q hq
  have hdepth : dev.adminDepth = q.cqDepth := by
    rw [NvmevDev.adminDepth, hq]
  unfold RoundsClosed DoorbellsClosed
  rw [hdepth, ← hphased.phase_iff]
  rcases hcases with ⟨hshn, q₁, hq₁, hq', hsq, hcq⟩ | ⟨hshn, hq', hdbs, hold⟩
  · -- A shutdown together with the enable resets the head and the doorbells.
    obtain rfl := Option.some_inj.mp (hq.symm.trans hq₁)
    refine ⟨fun ⟨⟨_, hphase⟩, _⟩ => ?_, fun ⟨⟨q₂, hq₂, _, hphase⟩, _⟩ => ⟨.inl hshn, ?_⟩⟩
    · have hreset : AdminReset dev' := ⟨⟨_, hq', rfl, hphase⟩, hsq, hcq⟩
      exact ⟨hreset, hreset.firstInSlotZero⟩
    · obtain rfl := Option.some_inj.mp (hq'.symm.trans hq₂)
      exact hphase
  · -- An enable alone resets nothing.
    rw [hq] at hq'
    simp only [hshn, false_or]
    refine ⟨fun ⟨⟨hhead, hphase⟩, hsq, hcq⟩ => ?_, fun ⟨⟨q₂, hq₂, hhead, hphase⟩, _⟩ => ?_⟩
    · have hreset : AdminReset dev' := by
        refine ⟨⟨q, hq', hphased.head_eq.trans hhead, hphase⟩, ?_⟩
        rw [hdbs, hold]
        exact ⟨hinv.sq hsq, hinv.cq hcq⟩
      exact ⟨hreset, hreset.firstInSlotZero⟩
    · obtain rfl := Option.some_inj.mp (hq'.symm.trans hq₂)
      exact ⟨hphased.head_eq.symm.trans hhead, hphase⟩

/-! ## A re-enable -/

/-- The host has written the registers of a first enable, and all but `cc` have been handled. -/
def configured : NvmevDev Unit :=
  ({ resetDevice with bar := enableValues }.procAqa.procAsq emptyEnv).procAcq emptyEnv

theorem configured_run : ResetRun emptyEnv configured .reset := by
  have hload : ResetRun emptyEnv resetDevice .reset := .load rfl ⟨rfl, rfl⟩ ⟨rfl, rfl⟩
  have hreg := hload.step
    (.reg enableValues.aqa enableValues.asq enableValues.acq enableValues.cc)
  have haqa := hreg.step (.check .aqa rfl)
  have hasq := haqa.step (.check .asq rfl)
  exact hasq.step (.check .acq rfl)

/-- The first enable after a load finds a new admin queue. -/
theorem enable_restores_admin_queue_first : ∃ dev' : NvmevDev Unit,
    ResetStep emptyEnv configured .reset dev' .reset ∧ AdminReset dev' :=
  ⟨_, .check .cc rfl, ((enable_restores_admin_queue configured_run (.check .cc rfl) rfl rfl).1
    ⟨⟨.inr rfl, rfl⟩, .inr ⟨rfl, rfl⟩⟩).1⟩

/-- The host enables the controller, has one admin command answered, disables the controller and
enables it again with the same queues: the next completion is written to slot 1. -/
theorem reenable_keeps_head : ∃ (dev dev' : NvmevDev Unit) (s s' : Since) (q : NvmevAdminQueue),
    ResetRun emptyEnv dev s ∧ ResetStep emptyEnv dev s dev' s' ∧ cstsRdy dev.bar.csts = 0 ∧
      cstsRdy dev'.bar.csts = 1 ∧ dev'.adminQ = some q ∧ q.cqHead = 1 := by
  have henabled := configured_run.step (.check .cc rfl)
  have hslots := henabled.step (.slots rfl fun _ => adminCommand 0x0a)
  have hring := hslots.step (.ringSq 1)
  have hanswered := hring.step (.poll rfl)
  have hdisable := hanswered.step (.reg enableValues.aqa enableValues.asq enableValues.acq 0)
  have hdisabled := hdisable.step (.check .cc rfl)
  have hreenable := hdisabled.step
    (.reg enableValues.aqa enableValues.asq enableValues.acq enableValues.cc)
  exact ⟨_, _, _, _, _, hreenable, .check .cc rfl, rfl, rfl, rfl, rfl⟩

end NvmeVirt
