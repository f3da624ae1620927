import Mathlib.Algebra.BigOperators.Ring.Finset
import NvmeVirt.Conv.CollectLine

/-!
# Choosing a victim

Both selection functions take a line out of the victim queue, or out of the full list of
the SLC pool, and leave it to be collected. The pages of such a line are all written, so
its page numbers fit the page field, and its live pages are counted by `vpc`.
-/

namespace NvmeVirt

open Checked Tally

variable {g : Geometry} {cls : Nat → LineClass} {w : LineMode → Nat} {f f' : ConvFtl}
  {stale : Ppa → Prop} {l : Nat} {m : LineMode} {spare : Int}

/-! ## The fields that the invariant does not read -/

/-- The instance with other statistics, credits and timing. -/
def ConvFtl.untracked (f : ConvFtl) (π : Perf) (gcCnt : Nat) (ageCnt : Nat → Nat)
    (wfc : WriteFlowControl) (dyn : LineMode) : ConvFtl :=
  { f with
    ssd := { f.ssd with perf := π }
    gcCnt := gcCnt
    ageCnt := ageCnt
    wfc := wfc
    dynSlcMode := dyn }

variable {π : Perf} {gcCnt : Nat} {ageCnt : Nat → Nat} {wfc : WriteFlowControl} {dyn : LineMode}

theorem ConvFtl.Ok.untracked (h : f.Ok g cls w) :
    (f.untracked π gcCnt ageCnt wfc dyn).Ok g cls w :=
  ⟨⟨h.static.fits, h.static.slcMode, h.static.cp, h.static.slmLines⟩, h.pools, h.wp⟩

theorem ConvFtl.Idle.untracked (h : f.Idle g cls w) :
    (f.untracked π gcCnt ageCnt wfc dyn).Idle g cls w :=
  ⟨h.ok.untracked, h.maps.congr rfl rfl fun _ => Iff.rfl, h.settled⟩

theorem Collecting.untracked (h : Collecting g l spare stale cls w f) :
    Collecting g l spare stale cls w (f.untracked π gcCnt ageCnt wfc dyn) :=
  ⟨h.ok.untracked, h.maps.congr rfl rfl fun _ => Iff.rfl, h.line, h.label, h.only, h.inLine,
    h.balance⟩

/-! ## A line leaves its container -/

/-- The live pages of a line that is not being collected. -/
theorem ConvFtl.Idle.liveCount_eq (h : f.Idle g cls w) (hl : l < g.ttLines) :
    liveCount g l (fun _ => False) f = (f.lines l).vpc := by
  classical
  have hline := h.ok.pools.line l hl
  have hlive : ∀ x ∈ g.positions (g.pool l), Live g (fun _ => False) f (linePage l x.1 x.2) ↔
      (f.ssd.blk (lineAddr l x.1)).statusAt x.2 = .valid := by
    intro x hx
    obtain ⟨hd, hpg⟩ := Geometry.mem_positions.mp hx
    obtain ⟨hch, hlun⟩ := g.mem_dies.mp hd
    exact ⟨fun hv => hv.2.1, fun hv => ⟨g.valid_linePage hl hch hlun hpg, hv, not_false⟩⟩
  calc liveCount g l (fun _ => False) f
      = ((g.positions (g.pool l)).filter fun x =>
          (f.ssd.blk (lineAddr l x.1)).statusAt x.2 = .valid).card := by
        unfold liveCount
        congr 1
        ext x
        rw [Finset.mem_filter, Finset.mem_filter]
        exact and_congr_right fun hx => hlive x hx
    _ = ∑ d ∈ g.dies, tally (g.pgsPerBlk (g.pool l)) (f.ssd.blk (lineAddr l d)).statusAt .valid := by
        rw [Finset.card_filter, Geometry.positions, Finset.sum_product]
        apply Finset.sum_congr rfl
        intro d _
        rw [tally, Finset.card_filter]
    _ = (f.lines l).vpc := by
        rw [hline.vpc (h.settled l hl)]
        exact Finset.sum_congr rfl fun d hd => (hline.blocks d hd).vpc.symm

/-- The line `l` of the pool `m` has been taken out to be collected. -/
structure Taken (g : Geometry) (m : LineMode) (l : Nat) (cls : Nat → LineClass)
    (w : LineMode → Nat) (f f' : ConvFtl) : Prop where
  line : g.HasLine m l
  collecting : Collecting g l (room g w f - (f.lines l).vpc) (fun _ => False)
    (Function.update cls l .collecting) w f'
  id : (f'.lines l).id = l
  written : ∀ ch < g.nchs, ∀ lun < g.luns, ∀ pg < g.pgsPerBlk m,
    f'.status (linePage l (ch, lun) pg) ≠ .free
  narrow : g.pgsPerBlk m ≤ 2 ^ pageBits
  wfc : f'.wfc = f.wfc
  wp : f'.wp = f.wp
  dyn : f'.dynSlcMode = f.dynSlcMode
  slm : f'.slm.freeLineList = f.slm.freeLineList ∧ f'.slm.freeLineCnt = f.slm.freeLineCnt
  other : m = .tlc → f'.slm = f.slm

/-- Taking a full line or a victim out of its container. -/
theorem ConvFtl.Idle.take (h : f.Idle g cls w) (hm : g.HasLine m l)
    (hc : cls l = .full ∨ cls l = .victim) {lines : Nat → Line} {lm : LineMgmt}
    (hcont : Containers g m (Function.update cls l .collecting) (f.cur m) lines lm)
    (hrep : Repositioned g m f.lines lines)
    (hfree : lm.freeLineList = (f.mgmt m).freeLineList) :
    Taken g m l cls w f (f.withLines lines (Function.update f.mgmt m lm)) := by
  let f' := f.withLines lines (Function.update f.mgmt m lm)
  have hlt : l < g.ttLines := (g.hasLine_iff.mp hm).1
  have hpool : g.pool l = m := g.hasLine_pool hm
  have hline := h.ok.pools.line l hlt
  rw [hpool] at hline
  have hsum : (f.lines l).vpc + (f.lines l).ipc = g.pgsPerLine m := by
    have hf := hline.fact
    rcases hc with hc | hc <;> rw [hc] at hf
    · exact hf.2 ▸ hf.1
    · exact hf.1
  have hpools : NvmeVirt.PoolsOk g (Function.update cls l .collecting) f.cur w f.ssd.blk lines
      (Function.update f.mgmt m lm) := by
    have := PoolsOk.move h.ok.pools w hm hline.collect hcont hrep fun _ _ _ _ => rfl
    rwa [Function.update_eq_self] at this
  have hok : f'.Ok g (Function.update cls l .collecting) w :=
    ⟨h.ok.static.update hcont.ttLines, by
      rw [ConvFtl.PoolsOk, f.withLines_mgmt]
      exact hpools, h.ok.wp⟩
  have hfrees : ∀ m', (f'.mgmt m').freeLineList = (f.mgmt m').freeLineList := by
    intro m'
    rw [f.withLines_mgmt]
    by_cases he : m' = m
    · rw [he, Function.update_self, hfree]
    · rw [Function.update_of_ne he]
  have hroom : room g w f' = room g w f := by
    unfold room
    rw [show f'.lm.freeLineList = f.lm.freeLineList from hfrees .tlc]
  have hslm : f'.slm.freeLineCnt = f.slm.freeLineCnt := by
    have h1 := (hok.pools.cont .slc).freeCnt
    have h2 := (h.ok.pools.cont .slc).freeCnt
    rw [hfrees] at h1
    exact h1.trans h2.symm
  refine ⟨hm, ⟨hok, h.maps.congr rfl rfl fun _ => Iff.rfl, hlt, Function.update_self .., ?_,
    fun _ hf => hf.elim, ?_⟩, (hrep.id l).trans hline.id, ?_, ?_, rfl, rfl, rfl,
    ⟨hfrees .slc, hslm⟩, ?_⟩
  · intro l' hl' hcl
    by_contra he
    rw [Function.update_of_ne he] at hcl
    exact h.settled l' hl' hcl
  · have hcount : liveCount g l (fun _ => False) f' = (f.lines l).vpc :=
      (liveCount_congr fun _ => Iff.rfl).trans (h.liveCount_eq hlt)
    rw [hcount, hroom]
    omega
  · intro ch hch lun hlun pg hpg
    refine hline.status_ne_free (h.settled l hlt) hsum (d := (ch, lun)) ?_ hpg
    exact g.mem_dies.mpr ⟨hch, hlun⟩
  · exact hline.pgsPerBlk_le (h.settled l hlt) hsum
  · rintro rfl
    rfl

theorem Taken.untracked (h : Taken g m l cls w (f.untracked π gcCnt ageCnt f.wfc f.dynSlcMode) f')
    {π' : Perf} {gcCnt' : Nat} {ageCnt' : Nat → Nat} :
    Taken g m l cls w f (f'.untracked π' gcCnt' ageCnt' f'.wfc f'.dynSlcMode) :=
  ⟨h.line, h.collecting.untracked, h.id, h.written, h.narrow, h.wfc, h.wp, h.dyn, h.slm, h.other⟩

/-- Taking a victim out of its queue. -/
theorem ConvFtl.Idle.takeVictim (h : f.Idle g cls w) {q : Pqueue Nat} {lines : Nat → Line}
    (hl : (f.mgmt m).victimLinePq.Mem l)
    (hr : Pqueue.Removed victimLine l (f.mgmt m).victimLinePq f.lines q lines) :
    Taken g m l cls w f (f.withLines (Function.update lines l { lines l with pos := 0 })
      (Function.update f.mgmt m { f.mgmt m with
        victimLinePq := q
        victimLineCnt := (f.mgmt m).victimLineCnt - 1 })) := by
  obtain ⟨hcont, hrep⟩ := (h.ok.pools.cont m).takeVictim hl hr
  obtain ⟨hm, hc⟩ := ((h.ok.pools.cont m).victim l).mp hl
  exact h.take hm (Or.inr hc) hcont hrep rfl

/-! ## The two selection functions -/

/-- `select_victim_line_slc` finds a line when there is a full line or a victim. -/
theorem ConvFtl.Idle.selectVictimLineSlc (h : f.Idle g cls w) :
    (f.selectVictimLineSlc true = (none, f) ∧
      ∀ l, g.HasLine .slc l → cls l ≠ .full ∧ cls l ≠ .victim) ∨
    ∃ l f', f.selectVictimLineSlc true = (some l, f') ∧ Taken g .slc l cls w f f' := by
  have hcont : Containers g .slc cls (f.cur .slc) f.lines f.slm := h.ok.pools.cont .slc
  have hsize := hcont.victimCnt
  by_cases hone : f.slm.victimLinePq.size = 1
  · have hpeek : f.slm.victimLinePq.peek = none := by rw [Pqueue.peek, if_pos hone]
    cases hfull : f.slm.fullLineList with
    | nil =>
      refine Or.inl ⟨?_, fun l hl => ⟨fun hc => ?_, fun hc => ?_⟩⟩
      · simp only [ConvFtl.selectVictimLineSlc, hpeek, hfull]
      · have := (hcont.full l).mpr ⟨hl, hc⟩
        rw [hfull] at this
        cases this
      · obtain ⟨i, h1, h2, -⟩ := (hcont.victim l).mpr ⟨hl, hc⟩
        omega
    | cons l rest =>
      obtain ⟨hm, hc, hcont'⟩ := hcont.takeFull hfull
      refine Or.inr ⟨l, _, ?_, h.take hm (Or.inl hc) hcont'
        ⟨fun _ => rfl, fun _ => rfl, fun _ => rfl, fun _ _ => rfl⟩ rfl⟩
      simp only [ConvFtl.selectVictimLineSlc, hpeek, hfull]
      rfl
  · have hpeek : f.slm.victimLinePq.peek = some (f.slm.victimLinePq.d 1) := by
      rw [Pqueue.peek, if_neg hone]
    obtain ⟨-, hr⟩ := Pqueue.pop_spec victimLine_lawful hcont.placed (by omega)
    refine Or.inr ⟨f.slm.victimLinePq.d 1, _, ?_, h.takeVictim (m := .slc)
      ⟨1, le_refl 1, by show 1 < f.slm.victimLinePq.size; omega, rfl⟩ hr⟩
    simp only [ConvFtl.selectVictimLineSlc, hpeek, Bool.not_true, Bool.false_and,
      Bool.false_eq_true, if_false]
    rfl

/-- The division by zero of `calculate_cost_benefit_val`: the product of the invalid pages and
the age class leaves 32 bits. -/
def DivFault (g : Geometry) (e : Fault) : Prop :=
  e = .divByZero ∧ 2 ^ 32 ≤ 250 * g.pgsPerLine .tlc

/-- The ages are counted from 1 to 250. -/
theorem ageLevelize_bounds (a : Nat) : 1 ≤ ageLevelize a ∧ ageLevelize a ≤ 250 := by
  unfold ageLevelize
  repeat' split
  all_goals decide

/-- `calculate_cost_benefit_val` has no other fault. -/
theorem calculateCostBenefitVal_error {spp : Ssdparams} {line : Line} {e : Fault} (now : Nat)
    (hfits : g.Fits spp) (hv : line.vpc ≤ g.pgsPerLine .tlc)
    (he : calculateCostBenefitVal spp now line = .error e) : DivFault g e := by
  have hppl : asInt spp.pgsPerLine = g.pgsPerLine .tlc := hfits.pgsPerLine .tlc
  have hage := ageLevelize_bounds (u64Sub now line.mtime / 1000)
  revert he
  simp only [calculateCostBenefitVal, hppl]
  generalize ageLevelize (u64Sub now line.mtime / 1000) = age at hage ⊢
  obtain ⟨h1, h250⟩ := hage
  by_cases hfull : (line.vpc : Int) = g.pgsPerLine .tlc
  · rw [if_pos hfull]
    intro he
    cases he
  · rw [if_neg hfull]
    by_cases hz : Int.bmod (((g.pgsPerLine .tlc : Int) - line.vpc) * age) (2 ^ 32) = 0
    swap
    · rw [require_pos hz]
      intro he
      cases he
    rw [require_neg (not_not.mpr hz)]
    intro he
    obtain rfl : e = .divByZero := (Except.error.inj he).symm
    refine ⟨rfl, ?_⟩
    -- a zero product is a positive multiple of 2 ^ 32
    rw [← Int.dvd_iff_bmod_eq_zero] at hz
    have hpos : 0 < ((g.pgsPerLine .tlc : Int) - line.vpc) * age :=
      Int.mul_pos (by omega) (by omega)
    have hle := Int.le_of_dvd hpos hz
    have hub : ((g.pgsPerLine .tlc : Int) - line.vpc) * age ≤ g.pgsPerLine .tlc * 250 :=
      Int.mul_le_mul (by omega) (by omega) (by omega) (by omega)
    omega

/-- The state of the search for a victim: only the clock has moved. -/
def Searched (f : ConvFtl) (s : ConvFtl × Option Nat × Int) : Prop :=
  (∃ π, s.1 = f.untracked π f.gcCnt f.ageCnt f.wfc f.dynSlcMode) ∧
    ∀ i, s.2.1 = some i → 1 ≤ i ∧ i < f.lm.victimLinePq.size

/-- One step of the search of `select_victim_line`. -/
theorem ConvFtl.Idle.cbStep (h : f.Idle g cls w) {s : ConvFtl × Option Nat × Int}
    (hs : Searched f s) {i : Nat} (hi : 1 ≤ i) (hi' : i < f.lm.victimLinePq.size) :
    Outcome (ConvFtl.cbStep s i) (Searched f) (DivFault g) := by
  obtain ⟨f₁, best, val⟩ := s
  obtain ⟨⟨π, hf⟩, hbest⟩ := hs
  have hf : f₁ = f.untracked π f.gcCnt f.ageCnt f.wfc f.dynSlcMode := hf
  subst hf
  let f₁ := f.untracked π f.gcCnt f.ageCnt f.wfc f.dynSlcMode
  have hmem : f.lm.victimLinePq.Mem (f.lm.victimLinePq.d i) := ⟨i, hi, hi', rfl⟩
  have hvpc : (f₁.lines (f₁.lm.victimLinePq.d i)).vpc ≤ g.pgsPerLine .tlc := by
    obtain ⟨hm, hc⟩ := ((h.ok.pools.cont .tlc).victim _).mp hmem
    have hline := h.ok.pools.line _ (g.hasLine_iff.mp hm).1
    rw [g.hasLine_pool hm, hc] at hline
    have hsum : (f.lines (f.lm.victimLinePq.d i)).vpc + (f.lines (f.lm.victimLinePq.d i)).ipc =
      g.pgsPerLine .tlc := hline.fact.1
    exact Nat.le.intro hsum
  have hclock : Searched f (f₁.ktimeGetNs.2, best, val) := ⟨⟨_, rfl⟩, hbest⟩
  unfold ConvFtl.cbStep
  dsimp only
  split
  · exact ⟨⟨π, rfl⟩, hbest⟩
  · have hfits : g.Fits f₁.ktimeGetNs.2.ssd.sp := h.ok.static.fits
    have herr := fun e he => calculateCostBenefitVal_error (e := e) f₁.ktimeGetNs.1 hfits hvpc he
    generalize calculateCostBenefitVal f₁.ktimeGetNs.2.ssd.sp f₁.ktimeGetNs.1
      (f₁.lines (f₁.lm.victimLinePq.d i)) = r at herr ⊢
    refine (Outcome.of_forall_error herr).bind fun v _ => ?_
    split
    · refine ⟨hclock.1, fun j hj => ?_⟩
      obtain rfl := Option.some.inj hj
      exact ⟨hi, hi'⟩
    · exact hclock

/-- `select_victim_line` leaves the instance alone or takes a victim of the TLC pool. -/
theorem ConvFtl.Idle.selectVictimLine (h : f.Idle g cls w) :
    Outcome f.selectVictimLine
      (fun r => (r.1 = none ∧ ∃ π, r.2 = f.untracked π f.gcCnt f.ageCnt f.wfc f.dynSlcMode) ∨
        ∃ l, r.1 = some l ∧ Taken g .tlc l cls w f r.2)
      (DivFault g) := by
  unfold ConvFtl.selectVictimLine
  refine (outcome_foldlM_const (Searched f) (fun i hi s hs => ?_) _
    ⟨⟨f.ssd.perf, rfl⟩, fun i hi => by cases hi⟩).bind ?_
  · obtain ⟨h1, h2⟩ := List.mem_range'_1.mp hi
    exact h.cbStep hs h1 (by omega)
  rintro ⟨f₁, best, val⟩ ⟨⟨π, hf⟩, hbest⟩
  have hf : f₁ = f.untracked π f.gcCnt f.ageCnt f.wfc f.dynSlcMode := hf
  subst hf
  cases best with
  | none => exact Or.inl ⟨rfl, π, rfl⟩
  | some i =>
    obtain ⟨h1, h2⟩ := hbest i rfl
    let f₁ := f.untracked π f.gcCnt f.ageCnt f.wfc f.dynSlcMode
    have h₁ : f₁.Idle g cls w := h.untracked
    have hmem : f₁.lm.victimLinePq.Mem (f₁.lm.victimLinePq.d i) := ⟨i, h1, h2, rfl⟩
    have htaken := h₁.takeVictim (m := .tlc) hmem (Pqueue.remove_spec victimLine_lawful
      victimLine_irrefl (h₁.ok.pools.cont .tlc).placed hmem)
    exact Or.inr ⟨f₁.lm.victimLinePq.d i, rfl, htaken.untracked⟩

end NvmeVirt
