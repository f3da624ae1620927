import NvmeVirt.Conv.PageWrite

/-!
# Write credits

The credits count the pages left in the SLC line being written, so they run out exactly
when the write pointer moves to the next line. `foreground_gc` then gives a line back
before the pool is empty.
-/

namespace NvmeVirt

open Checked

variable {g : Geometry} {cls : Nat → LineClass} {w : LineMode → Nat} {f f' f₁ : ConvFtl}
  {lpn : Nat}

/-- The credits of an instance whose SLC pool has at least four lines. -/
structure Paced (g : Geometry) (w : LineMode → Nat) (f : ConvFtl) : Prop where
  credits : f.wfc.writeCredits + w .slc = g.pgsPerLine .slc
  refill : f.wfc.creditsToRefill = g.pgsPerLine .slc
  reserve : 3 ≤ f.slm.freeLineList.length

/-- The migration that a page write may start fits. -/
def ConvFtl.PageFits (f : ConvFtl) (swr : NandCmd) (lpn : Nat) : Prop :=
  ∀ r, f.storePage swr lpn = .ok r → r.2.consumeWriteCredit.wfc.writeCredits = 0 →
    r.2.consumeWriteCredit.GcFits

/-- The faults of a page write. -/
def PageFault (g : Geometry) (w : LineMode → Nat) (f : ConvFtl) (swr : NandCmd) (lpn : Nat)
    (e : Fault) : Prop :=
  (e = .pageNotFree ∧ ∃ m, 2 ^ pageBits < g.pgsPerBlk m) ∨
  (e = .noFreeLine .user ∧ f.slm.freeLineList = []) ∨ DivFault g e ∨
  (e = .noFreeLine .gc ∧ ¬ f.PageFits swr lpn)

/-- The rank of the user write pointer depends on the pointer only. -/
theorem ConvFtl.Ok.rank_slc {cls' : Nat → LineClass} {w' : LineMode → Nat} (h : f.Ok g cls w)
    (h' : f'.Ok g cls' w') (hwp : f'.wp = f.wp) : w' .slc = w .slc := by
  have hr := (h.wp .slc).rank
  have hr' := (h'.wp .slc).rank
  rw [show f'.poolWp .slc = f.poolWp .slc from hwp] at hr'
  exact hr'.symm.trans hr

/-- Whether `foreground_gc` migrates. -/
theorem ConvFtl.Ok.shouldMigrationHigh_iff (h : f.Ok g cls w) :
    f.shouldMigrationHigh = true ↔ f.slm.freeLineList.length ≤ 2 := by
  have hcnt : f.slm.freeLineCnt = f.slm.freeLineList.length := (h.pools.cont .slc).freeCnt
  simp only [ConvFtl.shouldMigrationHigh, h.static.cp, convInitParams, hcnt, decide_eq_true_eq]

/-- The instance with `c` write credits. -/
def ConvFtl.withCredits (f : ConvFtl) (c : Nat) : ConvFtl :=
  { f with wfc := { f.wfc with writeCredits := c } }

/-- `consume_write_credit` changes the number of credits only. -/
theorem ConvFtl.consumeWriteCredit_eq (f : ConvFtl) :
    ∃ c, f.consumeWriteCredit = f.withCredits c ∧
      (1 ≤ f.wfc.writeCredits → f.wfc.writeCredits < 2 ^ 32 → c + 1 = f.wfc.writeCredits) := by
  refine ⟨u32Sub f.wfc.writeCredits 1, rfl, ?_⟩
  unfold u32Sub
  omega

/-- The refill of `check_and_refill_write_credit`. -/
def ConvFtl.refilled (f : ConvFtl) : ConvFtl :=
  { f with wfc :=
    { f.wfc with writeCredits := u32 (f.wfc.writeCredits + f.wfc.creditsToRefill) } }

/-- The credits after `foreground_gc` at the end of a line. -/
theorem Foreground.paced {cls' : Nat → LineClass} {w' : LineMode → Nat} (h : f.Idle g cls w)
    (h' : f'.Idle g cls' w') (hfg : Foreground g f f') (hcred : f.wfc.writeCredits = 0)
    (hrefill : f.wfc.creditsToRefill = g.pgsPerLine .slc) (hw : w .slc = 0)
    (hfree : 2 ≤ f.slm.freeLineList.length) (hclosed : f.HasClosedLine g) :
    Paced g w' f'.refilled := by
  have hlt : g.pgsPerLine .slc < 2 ^ 31 := g.pages_lt .slc
  have hw' : w' .slc = 0 := (h.ok.rank_slc h'.ok hfg.wp).trans hw
  have hiff := h.ok.shouldMigrationHigh_iff
  have hrest : f'.wfc.creditsToRefill = g.pgsPerLine .slc ∧ 3 ≤ f'.slm.freeLineList.length := by
    cases hmig : f.shouldMigrationHigh with
    | false =>
      rw [hfg.skip hmig]
      rw [hmig] at hiff
      simp only [Bool.false_eq_true, false_iff, Nat.not_le] at hiff
      exact ⟨hrefill, hiff⟩
    | true =>
      obtain ⟨hr, hlen⟩ := hfg.migrate hmig hclosed
      exact ⟨hr, by omega⟩
  refine ⟨?_, hrest.1, hrest.2⟩
  show u32 (f'.wfc.writeCredits + f'.wfc.creditsToRefill) + w' .slc = _
  rw [hfg.writeCredits, hcred, hrest.1, hw']
  unfold u32
  omega

/-- `check_and_refill_write_credit` from an idle instance. -/
theorem ConvFtl.Idle.checkAndRefill (h : f.Idle g cls w) (hpos : 0 < g.oneshots) :
    Outcome f.checkAndRefillWriteCredit
      (fun f' => (f.wfc.writeCredits ≠ 0 ∧ f' = f) ∨ (f.wfc.writeCredits = 0 ∧
        ∃ f₁ cls' w', f₁.Idle g cls' w' ∧ Foreground g f f₁ ∧ f' = f₁.refilled))
      (fun e => f.wfc.writeCredits = 0 ∧ ForegroundFault g f e) := by
  unfold ConvFtl.checkAndRefillWriteCredit
  by_cases hzero : f.wfc.writeCredits = 0
  · rw [if_pos hzero]
    refine ((h.foregroundGc hpos).mono (fun _ h => h) fun e he => ⟨hzero, he⟩).bind ?_
    rintro f₁ ⟨cls', w', hidle, hfg⟩
    exact Or.inr ⟨hzero, f₁, cls', w', hidle, hfg, rfl⟩
  · rw [if_neg hzero]
    exact Or.inl ⟨hzero, rfl⟩

/-- The credits after a page has been stored: what is left of the line. -/
theorem Paced.consume {w₁ : LineMode → Nat} (h : Paced g w f) (hw : w .slc < g.pgsPerLine .slc)
    (hwfc : f₁.wfc = f.wfc) (hadv : Advanced g .slc f f₁ w w₁) :
    (w .slc + 1 = g.pgsPerLine .slc ↔ f₁.consumeWriteCredit.wfc.writeCredits = 0) ∧
      (f₁.consumeWriteCredit.wfc.writeCredits ≠ 0 → Paced g w₁ f₁.consumeWriteCredit) := by
  have hlt : g.pgsPerLine .slc < 2 ^ 31 := g.pages_lt .slc
  have hc := h.credits
  obtain ⟨c, hcons, hcred⟩ := f₁.consumeWriteCredit_eq
  rw [hwfc] at hcred
  have hc' := hcred (by omega) (by omega)
  rw [hcons]
  show (_ ↔ c = 0) ∧ (c ≠ 0 → _)
  refine ⟨by omega, fun hne => ?_⟩
  rcases hadv with ⟨-, rfl, hfree, -⟩ | ⟨hend, -⟩
  · refine ⟨?_, ?_, ?_⟩
    · show c + _ = _
      rw [Function.update_self]
      omega
    · show f₁.wfc.creditsToRefill = _
      rw [hwfc, h.refill]
    · show 3 ≤ (f₁.mgmt .slc).freeLineList.length
      rw [hfree]
      exact h.reserve
  · omega

/-- The two halves of the loop body of `conv_write`. -/
theorem writePage_of_store {swr : NandCmd} {completed : Option Nat} {f₂ : ConvFtl}
    (hr : f.storePage swr lpn = .ok (completed, f₁)) (hc : f₁.consumeWriteCredit = f₂) :
    f.writePage swr lpn = (do
      let f' ← f₂.checkAndRefillWriteCredit
      return (completed, f')) := by
  simp only [ConvFtl.writePage, hr, ok_bind, hc]

/-- The loop body of `conv_write` keeps the invariant, and the pacing when there is one. -/
theorem ConvFtl.Idle.writePage (h : f.Idle g cls w) (hpos : 0 < g.oneshots) (hlpn : lpn < g.ttPgs)
    (swr : NandCmd) :
    Outcome (f.writePage swr lpn)
      (fun r => ∃ cls' w', r.2.Idle g cls' w' ∧ (Paced g w f → Paced g w' r.2))
      (PageFault g w f swr lpn) := by
  have hstore := h.storePage hpos hlpn swr
  have hw := ((h.ok.wp .slc).lt hpos).2
  cases hr : f.storePage swr lpn with
  | error e =>
    rw [hr] at hstore
    rw [ConvFtl.writePage, hr]
    rcases hstore with ⟨he, hbig⟩ | ⟨he, hnil, -⟩
    · exact Or.inl ⟨he, .slc, hbig.trans_lt ((h.ok.wp .slc).lt hpos).1⟩
    · exact Or.inr (Or.inl ⟨he, hnil⟩)
  | ok r =>
    rw [hr] at hstore
    obtain ⟨completed, f₁⟩ := r
    obtain ⟨cls₁, w₁, h₁, hwfc, hadv⟩ := hstore
    have hwfc : f₁.wfc = f.wfc := hwfc
    have hadv : Advanced g .slc f f₁ w w₁ := hadv
    have hcons := fun hp : Paced g w f => hp.consume hw hwfc hadv
    obtain ⟨c, hc, -⟩ := f₁.consumeWriteCredit_eq
    rw [hc] at hcons
    have h₂ : (f₁.withCredits c).Idle g cls₁ w₁ := h₁.untracked
    rw [writePage_of_store hr hc]
    refine Outcome.bind (Q := fun f' : ConvFtl => ∃ cls' w', f'.Idle g cls' w' ∧
      (Paced g w f → Paced g w' f')) ?_ fun _ hf' => outcome_pure.mpr hf'
    refine (h₂.checkAndRefill hpos).mono ?_ ?_
    · rintro f' (⟨hne, rfl⟩ | ⟨hzero, f₃, cls₃, w₃, h₃, hfg, rfl⟩)
      · exact ⟨cls₁, w₁, h₂, fun hp => (hcons hp).2 hne⟩
      · refine ⟨cls₃, w₃, h₃.untracked, fun hp => ?_⟩
        have hend := (hcons hp).1.mpr hzero
        have hclosed : (f₁.withCredits c).HasClosedLine g := hadv.hasClosedLine h.ok hend
        rcases hadv with ⟨hlt, -⟩ | ⟨-, rfl, hfree⟩
        · omega
        · refine Foreground.paced h₂ h₃ hfg hzero ?_ (Function.update_self ..) ?_ hclosed
          · show f₁.wfc.creditsToRefill = _
            rw [hwfc, hp.refill]
          · have hlen : f.slm.freeLineList.length = f₁.slm.freeLineList.length + 1 :=
              congrArg List.length hfree
            have hres := hp.reserve
            show 2 ≤ f₁.slm.freeLineList.length
            omega
    · rintro e ⟨hzero, hdiv | ⟨he, hbig⟩ | ⟨he, hnot⟩⟩
      · exact Or.inr (Or.inr (Or.inl hdiv))
      · exact Or.inl ⟨he, .tlc, hbig⟩
      · refine Or.inr (Or.inr (Or.inr ⟨he, fun hfits => hnot ?_⟩))
        have hfit := hfits _ hr
        rw [hc] at hfit
        exact hfit hzero

end NvmeVirt
