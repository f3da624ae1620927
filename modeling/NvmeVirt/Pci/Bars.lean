import NvmeVirt.Admin.Commands
import Mathlib.Data.List.Infix

/-!
# Controller registers

`nvmev_proc_bars` compares four registers with the values it handled last, in a fixed
order, and handles one change per call. The host writes at any time, so a call is four
steps, each of which reads its register once.
-/

namespace NvmeVirt

open Checked

/-- The fields of the registers that the device reads. -/
def aqaAsqs (aqa : Nat) : Nat := aqa % 2 ^ 12
def aqaAcqs (aqa : Nat) : Nat := aqa / 2 ^ 16 % 2 ^ 12
def ccEn (cc : Nat) : Nat := cc % 2
def ccShn (cc : Nat) : Nat := cc / 2 ^ 14 % 2 ^ 2
def cstsRdy (csts : Nat) : Nat := csts % 2

/-- Store the fields `rdy` (bit 0) and `shst` (bits 2 and 3) of `csts`. -/
def setRdy (csts rdy : Nat) : Nat := csts / 2 * 2 + rdy
def setShst (csts shst : Nat) : Nat := csts / 2 ^ 4 * 2 ^ 4 + shst * 2 ^ 2 + csts % 2 ^ 2

/-- The registers that `nvmev_proc_bars` compares, in its order. -/
inductive BarReg
  | aqa
  | asq
  | acq
  | cc
  deriving DecidableEq, Repr

/-- The register that is compared next when this one has not changed; a call ends with `cc`. -/
def BarReg.next : BarReg → BarReg
  | aqa => asq
  | asq => acq
  | acq => cc
  | cc => aqa

namespace NvmevDev

variable {σ : Type}

/-- The branch of a changed `aqa`: the admin queue is created or reset. -/
def procAqa (dev : NvmevDev σ) : NvmevDev σ :=
  let queue : NvmevAdminQueue := match dev.adminQ with
    | none =>
      { phase := false, sqDepth := 0, cqDepth := 0, cqHead := 0, nvmeSq := none, nvmeCq := none
        history := [] }
    | some q => q
  let dev := { dev with
    oldBar := { dev.oldBar with aqa := dev.bar.aqa }
    adminQ := some { queue with
      cqHead := 0
      phase := true
      sqDepth := aqaAsqs dev.bar.aqa + 1
      cqDepth := aqaAcqs dev.bar.aqa + 1 } }
  (dev.resetDb 0).resetDb 1

variable (env : AdminEnv)

/-- The branch of a changed `asq`; without an admin queue the change is left for a later call. -/
def procAsq (dev : NvmevDev σ) : NvmevDev σ :=
  match dev.adminQ with
  | none => dev
  | some q =>
    resetDb { dev with
      oldBar := { dev.oldBar with asq := dev.bar.asq }
      adminQ := some { q with
        nvmeSq := some (env.sqAt dev.bar.asq)
        sqDepth := aqaAsqs dev.bar.aqa + 1 } } 0

/-- The branch of a changed `acq`. -/
def procAcq (dev : NvmevDev σ) : NvmevDev σ :=
  match dev.adminQ with
  | none => dev
  | some q =>
    resetDb { dev with
      oldBar := { dev.oldBar with acq := dev.bar.acq }
      adminQ := some { q with
        nvmeCq := some (env.cqAt dev.bar.acq)
        cqDepth := aqaAcqs dev.bar.aqa + 1
        cqHead := 0
        phase := true } } 1

/-- Store `csts`. -/
def setCsts (dev : NvmevDev σ) (csts : Nat) : NvmevDev σ :=
  { dev with bar := { dev.bar with csts } }

/-- Enabling and disabling: `rdy` follows `en`, but only a controller with an admin queue gets
ready. -/
def procEn (dev : NvmevDev σ) : NvmevDev σ :=
  if ccEn dev.bar.cc = 1 then
    if dev.adminQ.isSome then dev.setCsts (setRdy dev.bar.csts 1) else dev
  else dev.setCsts (setRdy dev.bar.csts 0)

/-- The shutdown part of the branch of a changed `cc`. -/
def procShn (dev : NvmevDev σ) : Except DevFault (NvmevDev σ) :=
  if ccShn dev.bar.cc = 1 then do
    let q ← dev.adminQueue
    let dev := dev.setCsts (setShst dev.bar.csts 2)
    return { (dev.resetDb 0).resetDb 1 with adminQ := some { q with cqHead := 0 } }
  else .ok dev

/-- The branch of a changed `cc`. -/
def procCc (dev : NvmevDev σ) : Except DevFault (NvmevDev σ) := do
  let dev ← dev.procEn.procShn
  return { dev with oldBar := { dev.oldBar with cc := dev.bar.cc } }

/-- One comparison of `nvmev_proc_bars`: the new state if the register has changed. -/
def barCheck (dev : NvmevDev σ) : BarReg → Except DevFault (Option (NvmevDev σ))
  | .aqa => .ok (if dev.oldBar.aqa ≠ dev.bar.aqa then some dev.procAqa else none)
  | .asq => .ok (if dev.oldBar.asq ≠ dev.bar.asq then some (dev.procAsq env) else none)
  | .acq => .ok (if dev.oldBar.acq ≠ dev.bar.acq then some (dev.procAcq env) else none)
  | .cc => if dev.oldBar.cc ≠ dev.bar.cc then return some (← dev.procCc) else .ok none

/-- One step of the calls of `nvmev_proc_bars` that follow each other: a change that is handled
ends the call. -/
def barStep (dev : NvmevDev σ) (r : BarReg) : Except DevFault (BarReg × NvmevDev σ) := do
  match ← dev.barCheck env r with
  | some dev => return (.aqa, dev)
  | none => return (r.next, dev)

/-- Every register has the value that was handled last. -/
def Quiescent (dev : NvmevDev σ) : Prop :=
  dev.oldBar.aqa = dev.bar.aqa ∧ dev.oldBar.asq = dev.bar.asq ∧ dev.oldBar.acq = dev.bar.acq ∧
    dev.oldBar.cc = dev.bar.cc

end NvmevDev

/-! ## Enabling the controller -/

/-- The value of a register. -/
def NvmeBar.get (bar : NvmeBar) : BarReg → Nat
  | .aqa => bar.aqa
  | .asq => bar.asq
  | .acq => bar.acq
  | .cc => bar.cc

/-- The write of a host that enables the controller to one register. -/
def NvmeBar.write (bar v : NvmeBar) : BarReg → NvmeBar
  | .aqa => { bar with aqa := v.aqa }
  | .asq => { bar with asq := v.asq }
  | .acq => { bar with acq := v.acq }
  | .cc => { bar with cc := v.cc }

variable {σ : Type}

/-- The runs of a controller that is enabled after a reset with the values `v`: the registers
that the host has yet to write, the next comparison of the dispatcher, and the state. Every
comparison is made in a state that satisfies `C`. -/
inductive EnableRun (env : AdminEnv) (v : NvmeBar) (C : BarReg → NvmevDev σ → Prop) :
    List BarReg → BarReg → NvmevDev σ → Prop
  | reset {dev : NvmevDev σ} (hbar : dev.bar = { aqa := 0, asq := 0, acq := 0, cc := 0, csts := 0 })
      (hold : dev.oldBar = dev.bar) (hq : dev.adminQ = none) :
      EnableRun env v C [.aqa, .asq, .acq, .cc] .aqa dev
  | write {dev : NvmevDev σ} {r pc : BarReg} {rest : List BarReg}
      (h : EnableRun env v C (r :: rest) pc dev) :
      EnableRun env v C rest pc { dev with bar := dev.bar.write v r }
  | check {dev dev' : NvmevDev σ} {pc pc' : BarReg} {rest : List BarReg}
      (h : EnableRun env v C rest pc dev) (hc : C pc dev)
      (hstep : dev.barStep env pc = .ok (pc', dev')) : EnableRun env v C rest pc' dev'

/-- The enable bit is never compared while the admin queue is missing. -/
def EnableSeen (pc : BarReg) (dev : NvmevDev σ) : Prop :=
  pc = .cc → ccEn dev.bar.cc = 1 → dev.oldBar.cc ≠ dev.bar.cc → dev.adminQ.isSome

theorem NvmeBar.get_write (bar v : NvmeBar) (r s : BarReg) :
    (bar.write v r).get s = if s = r then v.get s else bar.get s := by
  cases r <;> cases s <;> rfl

theorem cstsRdy_setRdy {csts rdy : Nat} (h : rdy < 2) : cstsRdy (setRdy csts rdy) = rdy := by
  unfold cstsRdy setRdy
  omega

theorem cstsRdy_setShst (csts shst : Nat) : cstsRdy (setShst csts shst) = cstsRdy csts := by
  unfold cstsRdy setShst
  omega

/-- The invariant of an enable: what has been written, what has been handled, and what the handled
values have set up. -/
structure EnableInv (env : AdminEnv) (v : NvmeBar) (rest : List BarReg) (dev : NvmevDev σ) :
    Prop where
  suffix : rest <:+ [.aqa, .asq, .acq, .cc]
  bar : ∀ r, dev.bar.get r = if r ∈ rest then 0 else v.get r
  old : ∀ r ∈ rest, dev.oldBar.get r = 0
  depths : ∀ q, dev.adminQ = some q → .aqa ∉ rest ∧ q.sqDepth = aqaAsqs v.aqa + 1 ∧
    q.cqDepth = aqaAcqs v.aqa + 1
  sq : dev.oldBar.asq ≠ 0 → ∃ q, dev.adminQ = some q ∧ q.nvmeSq = some (env.sqAt dev.oldBar.asq)
  cq : dev.oldBar.acq ≠ 0 → ∃ q, dev.adminQ = some q ∧ q.nvmeCq = some (env.cqAt dev.oldBar.acq)
  rdy : dev.oldBar.cc ≠ 0 → dev.adminQ.isSome ∧ cstsRdy dev.bar.csts = 1

namespace EnableInv

variable {env : AdminEnv} {v : NvmeBar} {rest : List BarReg} {dev : NvmevDev σ}

theorem write {r : BarReg} (h : EnableInv env v (r :: rest) dev) :
    EnableInv env v rest { dev with bar := dev.bar.write v r } := by
  have hr : r ∉ rest := (List.nodup_cons.mp (h.suffix.sublist.nodup (by simp))).1
  have hcsts : (dev.bar.write v r).csts = dev.bar.csts := by
    cases r <;> rfl
  refine ⟨(List.suffix_cons r rest).trans h.suffix, fun s => ?_, fun s hs => h.old s (List.mem_cons_of_mem _ hs), fun q hq => ?_, h.sq,
    h.cq, fun hcc => ⟨(h.rdy hcc).1, hcsts ▸ (h.rdy hcc).2⟩⟩
  · rw [NvmeBar.get_write, h.bar s]
    by_cases hs : s = r
    · subst hs
      rw [if_pos rfl, if_neg hr]
    · simp only [List.mem_cons, hs, false_or, if_false]
  · obtain ⟨haqa, hdepths⟩ := h.depths q hq
    exact ⟨fun hmem => haqa (List.mem_cons_of_mem _ hmem), hdepths⟩

/-- A register that has changed has been written. -/
theorem notMem_of_changed {r : BarReg} (h : EnableInv env v rest dev)
    (hr : dev.oldBar.get r ≠ dev.bar.get r) : r ∉ rest := by
  intro hmem
  rw [h.old r hmem, h.bar r, if_pos hmem] at hr
  exact hr rfl

theorem procAqa (h : EnableInv env v rest dev) (hne : dev.oldBar.aqa ≠ dev.bar.aqa) :
    EnableInv env v rest dev.procAqa := by
  have haqa : .aqa ∉ rest := h.notMem_of_changed (r := .aqa) hne
  have hval : dev.bar.aqa = v.aqa := (h.bar .aqa).trans (if_neg haqa)
  refine ⟨h.suffix, h.bar, fun r hr => ?_, fun q hq => ?_, fun hasq => ?_, fun hacq => ?_,
    fun hcc => ⟨rfl, (h.rdy hcc).2⟩⟩
  · cases r with
    | aqa => exact absurd hr haqa
    | asq => exact h.old .asq hr
    | acq => exact h.old .acq hr
    | cc => exact h.old .cc hr
  · obtain rfl := Option.some_inj.mp hq
    exact ⟨haqa, congrArg (aqaAsqs · + 1) hval, congrArg (aqaAcqs · + 1) hval⟩
  · obtain ⟨q, hq, hsq⟩ := h.sq hasq
    refine ⟨_, rfl, ?_⟩
    rw [hq]
    exact hsq
  · obtain ⟨q, hq, hcq⟩ := h.cq hacq
    refine ⟨_, rfl, ?_⟩
    rw [hq]
    exact hcq

theorem procAsq (h : EnableInv env v rest dev) (hne : dev.oldBar.asq ≠ dev.bar.asq) :
    EnableInv env v rest (dev.procAsq env) := by
  have hasq : .asq ∉ rest := h.notMem_of_changed (r := .asq) hne
  unfold NvmevDev.procAsq
  cases hq : dev.adminQ with
  | none => exact h
  | some q =>
    obtain ⟨haqa, hsqDepth, hcqDepth⟩ := h.depths q hq
    have hval : dev.bar.aqa = v.aqa := (h.bar .aqa).trans (if_neg haqa)
    refine ⟨h.suffix, h.bar, fun r hr => ?_, fun q' hq' => ?_, fun _ => ⟨_, rfl, rfl⟩, fun hacq => ?_,
      fun hcc => ⟨rfl, (h.rdy hcc).2⟩⟩
    · cases r with
      | aqa => exact h.old .aqa hr
      | asq => exact absurd hr hasq
      | acq => exact h.old .acq hr
      | cc => exact h.old .cc hr
    · obtain rfl := Option.some_inj.mp hq'
      exact ⟨haqa, congrArg (aqaAsqs · + 1) hval, hcqDepth⟩
    · obtain ⟨q', hq', hcq⟩ := h.cq hacq
      obtain rfl := Option.some_inj.mp (hq.symm.trans hq')
      exact ⟨_, rfl, hcq⟩

theorem procAcq (h : EnableInv env v rest dev) (hne : dev.oldBar.acq ≠ dev.bar.acq) :
    EnableInv env v rest (dev.procAcq env) := by
  have hacq : .acq ∉ rest := h.notMem_of_changed (r := .acq) hne
  unfold NvmevDev.procAcq
  cases hq : dev.adminQ with
  | none => exact h
  | some q =>
    obtain ⟨haqa, hsqDepth, hcqDepth⟩ := h.depths q hq
    have hval : dev.bar.aqa = v.aqa := (h.bar .aqa).trans (if_neg haqa)
    refine ⟨h.suffix, h.bar, fun r hr => ?_, fun q' hq' => ?_, fun hasq => ?_, fun _ => ⟨_, rfl, rfl⟩,
      fun hcc => ⟨rfl, (h.rdy hcc).2⟩⟩
    · cases r with
      | aqa => exact h.old .aqa hr
      | asq => exact h.old .asq hr
      | acq => exact absurd hr hacq
      | cc => exact h.old .cc hr
    · obtain rfl := Option.some_inj.mp hq'
      exact ⟨haqa, hsqDepth, congrArg (aqaAcqs · + 1) hval⟩
    · obtain ⟨q', hq', hsq⟩ := h.sq hasq
      obtain rfl := Option.some_inj.mp (hq.symm.trans hq')
      exact ⟨_, rfl, hsq⟩

/-- A change of `cc` that is compared when the admin queue is there makes the controller ready. -/
theorem procCc {dev' : NvmevDev σ} (h : EnableInv env v rest dev) (hv : ccEn v.cc = 1)
    (hne : dev.oldBar.cc ≠ dev.bar.cc) (hseen : EnableSeen .cc dev) (hok : dev.procCc = .ok dev') :
    EnableInv env v rest dev' := by
  have hcc : .cc ∉ rest := h.notMem_of_changed (r := .cc) hne
  have hval : dev.bar.cc = v.cc := (h.bar .cc).trans (if_neg hcc)
  obtain ⟨q, hq⟩ := Option.isSome_iff_exists.mp (hseen rfl (hval ▸ hv) hne)
  have hen : dev.procEn = dev.setCsts (setRdy dev.bar.csts 1) := by
    rw [NvmevDev.procEn, if_pos (hval ▸ hv), hq]
    rfl
  have hrdy : cstsRdy (setRdy dev.bar.csts 1) = 1 := cstsRdy_setRdy (by simp)
  have hold : ∀ r ∈ rest, ({ dev.oldBar with cc := dev.bar.cc } : NvmeBar).get r = 0 := by
    intro r hr
    cases r with
    | aqa => exact h.old .aqa hr
    | asq => exact h.old .asq hr
    | acq => exact h.old .acq hr
    | cc => exact absurd hr hcc
  rw [NvmevDev.procCc, hen, NvmevDev.procShn] at hok
  split at hok
  · -- A shutdown on the way changes neither the rings nor `rdy`.
    simp only [NvmevDev.adminQueue, NvmevDev.setCsts, hq, ok_bind] at hok
    obtain rfl := Except.ok.inj hok
    refine ⟨h.suffix, h.bar, hold, fun q' hq' => ?_, fun hasq => ?_, fun hacq => ?_, fun _ => ⟨rfl, ?_⟩⟩
    · obtain rfl := Option.some_inj.mp hq'
      exact h.depths q hq
    · obtain ⟨q', hq', hsq⟩ := h.sq hasq
      obtain rfl := Option.some_inj.mp (hq.symm.trans hq')
      exact ⟨_, rfl, hsq⟩
    · obtain ⟨q', hq', hcq⟩ := h.cq hacq
      obtain rfl := Option.some_inj.mp (hq.symm.trans hq')
      exact ⟨_, rfl, hcq⟩
    · exact (cstsRdy_setShst _ _).trans hrdy
  · obtain rfl := Except.ok.inj hok
    exact ⟨h.suffix, h.bar, hold, h.depths, h.sq, h.cq, fun _ => ⟨Option.isSome_iff_exists.mpr ⟨q, hq⟩, hrdy⟩⟩

/-- A change that is handled. -/
theorem barCheck {dev' : NvmevDev σ} {pc : BarReg} (h : EnableInv env v rest dev)
    (hv : ccEn v.cc = 1) (hseen : EnableSeen pc dev) (hok : dev.barCheck env pc = .ok (some dev')) :
    EnableInv env v rest dev' := by
  cases pc with
  | aqa =>
    obtain ⟨hne, hsome⟩ := Option.ite_none_right_eq_some.mp (Except.ok.inj hok)
    obtain rfl := Option.some_inj.mp hsome
    exact h.procAqa hne
  | asq =>
    obtain ⟨hne, hsome⟩ := Option.ite_none_right_eq_some.mp (Except.ok.inj hok)
    obtain rfl := Option.some_inj.mp hsome
    exact h.procAsq hne
  | acq =>
    obtain ⟨hne, hsome⟩ := Option.ite_none_right_eq_some.mp (Except.ok.inj hok)
    obtain rfl := Option.some_inj.mp hsome
    exact h.procAcq hne
  | cc =>
    by_cases hne : dev.oldBar.cc ≠ dev.bar.cc
    · rw [NvmevDev.barCheck, if_pos hne] at hok
      obtain ⟨d, hd, hsome⟩ := bind_eq_ok.mp hok
      obtain rfl := Option.some_inj.mp (Except.ok.inj hsome)
      exact h.procCc hv hne hseen hd
    · rw [NvmevDev.barCheck, if_neg hne] at hok
      cases hok

/-- One comparison. -/
theorem barStep {dev' : NvmevDev σ} {pc pc' : BarReg} (h : EnableInv env v rest dev)
    (hv : ccEn v.cc = 1) (hseen : EnableSeen pc dev) (hok : dev.barStep env pc = .ok (pc', dev')) :
    EnableInv env v rest dev' := by
  obtain ⟨o, ho, hstep⟩ := bind_eq_ok.mp hok
  cases o with
  | none =>
    obtain ⟨-, rfl⟩ := Prod.mk.inj (Except.ok.inj hstep)
    exact h
  | some d =>
    obtain ⟨-, rfl⟩ := Prod.mk.inj (Except.ok.inj hstep)
    exact h.barCheck hv hseen ho

end EnableInv

theorem EnableRun.inv {env : AdminEnv} {v : NvmeBar} (hv : ccEn v.cc = 1) {rest : List BarReg}
    {pc : BarReg} {dev : NvmevDev σ} (h : EnableRun env v EnableSeen rest pc dev) :
    EnableInv env v rest dev := by
  induction h with
  | reset hbar hold hq =>
    refine ⟨List.suffix_rfl, fun r => ?_, fun r _ => ?_, fun q hq' => ?_, fun hne => ?_, fun hne => ?_,
      fun hne => ?_⟩
    · rw [hbar, if_pos (by cases r <;> decide)]
      cases r <;> rfl
    · rw [hold, hbar]
      cases r <;> rfl
    · rw [hq] at hq'
      cases hq'
    all_goals
      rw [hold, hbar] at hne
      exact absurd rfl hne
  | write _ ih => exact ih.write
  | check _ hc hstep ih => exact ih.barStep hv hc hstep

/-- With every enable bit compared after the admin queue has been set up, no enable is missed: when
all registers have been handled, the controller is ready and its admin queue has both rings at the
addresses and with the depths that the host has written. -/
theorem enable_not_missed {env : AdminEnv} {v : NvmeBar} (hv : ccEn v.cc = 1) (hasq : v.asq ≠ 0)
    (hacq : v.acq ≠ 0) {rest : List BarReg} {pc : BarReg} {dev : NvmevDev σ}
    (h : EnableRun env v EnableSeen rest pc dev) (hquiet : dev.Quiescent)
    (hen : ccEn dev.bar.cc = 1) :
    cstsRdy dev.bar.csts = 1 ∧ ∃ q, dev.adminQ = some q ∧
      q.nvmeSq = some (env.sqAt v.asq) ∧ q.nvmeCq = some (env.cqAt v.acq) ∧
      q.sqDepth = aqaAsqs v.aqa + 1 ∧ q.cqDepth = aqaAcqs v.aqa + 1 := by
  have hinv := h.inv hv
  obtain ⟨haqa, hasqOld, hacqOld, hccOld⟩ := hquiet
  -- An enable bit that is set has been written, and it is the last write.
  have hcc : .cc ∉ rest := by
    intro hmem
    have hzero : dev.bar.cc = 0 := (hinv.bar .cc).trans (if_pos hmem)
    rw [hzero] at hen
    cases hen
  have hrest : rest = [] := by
    have htails := (List.mem_tails _ _).mpr hinv.suffix
    simp only [List.tails, List.mem_cons, List.not_mem_nil, or_false] at htails
    rcases htails with rfl | rfl | rfl | rfl | rfl
    all_goals first | rfl | exact absurd (by simp) hcc
  subst hrest
  have hval : ∀ r, dev.bar.get r = v.get r := fun r => (hinv.bar r).trans (if_neg List.not_mem_nil)
  obtain ⟨q, hq, hsq⟩ := hinv.sq (hasqOld.trans (hval .asq) ▸ hasq)
  obtain ⟨q', hq', hcq⟩ := hinv.cq (hacqOld.trans (hval .acq) ▸ hacq)
  obtain rfl := Option.some_inj.mp (hq.symm.trans hq')
  refine ⟨(hinv.rdy ?_).2, q, hq, ?_, ?_, (hinv.depths q hq).2⟩
  · rw [hccOld]
    rintro hzero
    rw [hzero] at hen
    cases hen
  · rw [hsq, hasqOld.trans (hval .asq)]
    rfl
  · rw [hcq, hacqOld.trans (hval .acq)]
    rfl

/-! ## Two schedules -/

/-- A controller after a reset. -/
def resetDevice : NvmevDev Unit := default

/-- An enable with admin queues of 32 entries. -/
def enableValues : NvmeBar :=
  { aqa := 31 + 31 * 2 ^ 16, asq := 0x1000, acq := 0x2000, cc := 1, csts := 0 }

theorem resetDevice_run (C : BarReg → NvmevDev Unit → Prop) :
    EnableRun emptyEnv enableValues C [.aqa, .asq, .acq, .cc] .aqa resetDevice :=
  .reset rfl rfl rfl

/-- A host that writes everything between two polls is served. -/
theorem enable_not_missed_between_polls : ∃ dev : NvmevDev Unit,
    EnableRun emptyEnv enableValues EnableSeen [] .aqa dev ∧ dev.Quiescent ∧
      cstsRdy dev.bar.csts = 1 := by
  have hwritten := (resetDevice_run EnableSeen).write.write.write.write
  have haqa := hwritten.check nofun rfl
  have hasq := (haqa.check nofun rfl).check nofun rfl
  have hacq := ((hasq.check nofun rfl).check nofun rfl).check nofun rfl
  have hcc := (((hacq.check nofun rfl).check nofun rfl).check nofun rfl).check
    (fun _ _ _ => rfl) rfl
  exact ⟨_, hcc, ⟨rfl, rfl, rfl, rfl⟩,
    (enable_not_missed (by decide) (by decide) (by decide) hcc ⟨rfl, rfl, rfl, rfl⟩ rfl).1⟩

/-- The host writes the four registers when a poll has compared `aqa`, `asq` and `acq` and not yet
`cc`: the enable bit is handled without an admin queue, and never looked at again. -/
theorem enable_missed : ∃ dev : NvmevDev Unit,
    EnableRun emptyEnv enableValues (fun _ _ => True) [] .aqa dev ∧ dev.Quiescent ∧
      ccEn dev.bar.cc = 1 ∧ cstsRdy dev.bar.csts = 0 := by
  have hpolled := (((resetDevice_run fun _ _ => True).check trivial rfl).check trivial rfl).check
    trivial rfl
  have hcc := hpolled.write.write.write.write.check trivial rfl
  have haqa := hcc.check trivial rfl
  have hasq := (haqa.check trivial rfl).check trivial rfl
  have hacq := ((hasq.check trivial rfl).check trivial rfl).check trivial rfl
  exact ⟨_, hacq, ⟨rfl, rfl, rfl, rfl⟩, rfl, rfl⟩

end NvmeVirt
