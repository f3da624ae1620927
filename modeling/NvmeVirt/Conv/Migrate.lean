import NvmeVirt.Conv.Victim

/-!
# Garbage collection and migration

`do_gc` from an idle instance: it collects at most one line and ends idle. Its only faults
are those of the loops, when the TLC pool has too few pages for the valid pages of the
victim, and the division of the cost-benefit value.
-/

namespace NvmeVirt

open Checked

variable {g : Geometry} {cls : Nat → LineClass} {w : LineMode → Nat} {f f' f₁ : ConvFtl}
  {l : Nat} {m : LineMode}

/-- Collecting the line `l` of the pool `m`, from `f` to `f'`. -/
structure Collected (g : Geometry) (m : LineMode) (l : Nat) (w : LineMode → Nat) (f f' : ConvFtl)
    (w' : LineMode → Nat) : Prop where
  line : g.HasLine m l
  writeCredits : f'.wfc.writeCredits = f.wfc.writeCredits
  refill : m = .slc → f'.wfc.creditsToRefill = g.pgsPerLine .slc
  wp : f'.wp = f.wp
  slmFree : f'.slm.freeLineList = f.slm.freeLineList ++ if m = .slc then [l] else []
  room : (room g w' f' : Int) =
    room g w f - (f.lines l).vpc + if m = .tlc then g.pgsPerLine .tlc else 0

/-- The instance with other credits to refill. -/
def ConvFtl.refillWith (f : ConvFtl) (refill : Nat) : ConvFtl :=
  { f with wfc := { f.wfc with creditsToRefill := refill } }

/-- The loops of `do_gc` after a line has been taken. -/
theorem Taken.relocate (h : Taken g m l cls w f f₁) (hdyn : f₁.dynSlcMode = m)
    (hpos : 0 < g.oneshots) :
    Outcome (f₁.collectLine l)
      (fun f' => ∃ refill f₂, (m = .slc → refill = g.pgsPerLine .slc) ∧
        Relocating g l (room g w f - (f.lines l).vpc) w (f₁.refillWith refill)
          (g.flashpgsPerBlk (g.pool l) * g.nchs * g.luns) f₂ ∧
        f' = f₂.markLineFree ⟨0, l, 0, 0, 0⟩)
      (GcFault g (room g w f - (f.lines l).vpc)) := by
  have hpool : g.pool l = m := g.hasLine_pool h.line
  have hlt : l < 2 ^ blkBits := g.hasLine_lt h.line
  have hfits := h.collecting.ok.static.fits
  have hflashpgs : (if f₁.dynSlcMode = .slc then f₁.ssd.sp.flashpgsPerBlkSlc.toNat
      else f₁.ssd.sp.flashpgsPerBlk) = g.flashpgsPerBlk (g.pool l) := by
    rw [hdyn, hpool, hfits.flashpgsPerBlk, hfits.flashpgsPerBlkSlc, Int.toNat_natCast]
    cases m <;> rfl
  let refill := if f₁.dynSlcMode = .slc then asU32 f₁.ssd.sp.pgsPerLineSlc else (f₁.lines l).ipc
  have hcol : Collecting g l (room g w f - (f.lines l).vpc) (visited g l (0 * g.pgsPerFlashpg))
      (Function.update cls l .collecting) w (f₁.refillWith refill) := by
    refine h.collecting.untracked.restale (fun q => ?_) fun q hq => hq.1
    unfold Live
    refine and_congr_right fun _ => and_congr_right fun _ => not_congr (iff_of_false ?_ not_false)
    rintro ⟨-, hn⟩
    simp at hn
  have hstart : Relocating g l (room g w f - (f.lines l).vpc) w (f₁.refillWith refill) 0
      (f₁.refillWith refill) :=
    ⟨⟨⟨_, w, hcol⟩, Kept.refl _,
      fun ch hch lun hlun pg hpg _ => h.written ch hch lun hlun pg (hpool ▸ hpg),
      fun _ _ _ _ hn => absurd hn (Nat.not_lt_zero _)⟩, ⟨_, w, hcol, Moved.refl _⟩,
      fun _ _ _ _ => by simp⟩
  simp only [ConvFtl.collectLine, hflashpgs, h.id, Nat.mod_eq_of_lt hlt]
  refine (hstart.gcLoop hpos (fun hd => ?_) ?_).bind fun f₂ h₂ => ?_
  · rw [hpool, ← hdyn]
    exact hd
  · rw [hpool]
    exact h.narrow
  refine ⟨refill, f₂, ?_, h₂, rfl⟩
  rintro rfl
  have hsp : f₁.ssd.sp.pgsPerLineSlc = g.pgsPerLine .slc := hfits.pgsPerLine .slc
  have hp : g.pgsPerLine .slc < 2 ^ 31 := g.pages_lt .slc
  simp only [refill, hdyn, if_true, hsp]
  exact asU32_of_lt (by omega)

/-- The line after the loops, back in its pool. -/
theorem Taken.collected {refill : Nat} {f₂ : ConvFtl} (h : Taken g m l cls w f f₁)
    (hpos : 0 < g.oneshots) (hrefill : m = .slc → refill = g.pgsPerLine .slc)
    (h₂ : Relocating g l (room g w f - (f.lines l).vpc) w (f₁.refillWith refill)
      (g.flashpgsPerBlk (g.pool l) * g.nchs * g.luns) f₂) :
    ∃ cls' w', (f₂.markLineFree ⟨0, l, 0, 0, 0⟩).Idle g cls' w' ∧
      Collected g m l w f (f₂.markLineFree ⟨0, l, 0, 0, 0⟩) w' := by
  have hpool : g.pool l = m := g.hasLine_pool h.line
  obtain ⟨cls', w', hidle, hfreed⟩ := h₂.markLineFree (p := ⟨0, l, 0, 0, 0⟩) hpos rfl
  refine ⟨cls', w', hidle, h.line, ?_, ?_, hfreed.wp.trans h.wp, ?_, ?_⟩
  · rw [hfreed.wfc]
    show f₁.wfc.writeCredits = f.wfc.writeCredits
    rw [h.wfc]
  · intro hm
    rw [hfreed.wfc]
    exact hrefill hm
  · rw [hfreed.slm, hpool]
    by_cases hm : m = .slc
    · rw [if_pos hm, if_pos hm]
      exact congrArg (· ++ [l]) h.slm.1
    · rw [if_neg hm, if_neg hm, List.append_nil]
      exact h.slm.1
  · rw [hfreed.room, hpool]

/-- `do_gc` after a line has been taken. -/
theorem Taken.collectLine (h : Taken g m l cls w f f₁) (hdyn : f₁.dynSlcMode = m)
    (hpos : 0 < g.oneshots) :
    Outcome (f₁.collectLine l) (fun f' => ∃ cls' w', f'.Idle g cls' w' ∧ Collected g m l w f f' w')
      (GcFault g (room g w f - (f.lines l).vpc)) := by
  refine (h.relocate hdyn hpos).mono ?_ fun _ he => he
  rintro f' ⟨refill, f₂, hrefill, h₂, rfl⟩
  exact h.collected hpos hrefill h₂

/-- A fault while the line that a selection returned is collected. -/
def CollectFault (g : Geometry) (w : LineMode → Nat) (f : ConvFtl) (victim : Option Nat)
    (e : Fault) : Prop :=
  ∃ l, victim = some l ∧ GcFault g (room g w f - (f.lines l).vpc) e

/-- `do_gc` of the TLC pool. -/
theorem ConvFtl.Idle.doGc_tlc (h : f.Idle g cls w) (hdyn : f.dynSlcMode = .tlc)
    (hpos : 0 < g.oneshots) :
    Outcome (f.doGc true)
      (fun f' => ∃ cls' w', f'.Idle g cls' w' ∧ f'.wfc.writeCredits = f.wfc.writeCredits ∧
        f'.wp = f.wp ∧ f'.slm.freeLineList = f.slm.freeLineList)
      (fun e => DivFault g e ∨ ∃ r, f.selectVictimLine = .ok r ∧ CollectFault g w f r.1 e) := by
  have hsel := h.selectVictimLine
  simp only [ConvFtl.doGc, hdyn]
  cases hr : f.selectVictimLine with
  | error e =>
    rw [hr] at hsel
    exact Or.inl hsel
  | ok r =>
    rw [hr] at hsel
    obtain ⟨victim, f₁⟩ := r
    rcases hsel with ⟨hnone, π, hf⟩ | ⟨l, hl, htaken⟩
    · obtain rfl : victim = none := hnone
      obtain rfl : f₁ = f.untracked π f.gcCnt f.ageCnt f.wfc f.dynSlcMode := hf
      exact ⟨cls, w, h.untracked, rfl, rfl, rfl⟩
    · obtain rfl : victim = some l := hl
      have htaken' : Taken g .tlc l cls w f { f₁ with gcCnt := f₁.gcCnt + 1 } :=
        Taken.untracked htaken
      refine (htaken'.collectLine (htaken'.dyn.trans hdyn) hpos).mono ?_ fun e he =>
        Or.inr ⟨_, rfl, l, rfl, he⟩
      rintro f' ⟨cls', w', hidle, hcol⟩
      exact ⟨cls', w', hidle, hcol.writeCredits, hcol.wp, by simpa using hcol.slmFree⟩

/-- `do_gc` of the SLC pool: migration. -/
theorem ConvFtl.Idle.doGc_slc (h : f.Idle g cls w) (hdyn : f.dynSlcMode = .slc)
    (hpos : 0 < g.oneshots) :
    Outcome (f.doGc true)
      (fun f' => (f' = f ∧ ∀ l, g.HasLine .slc l → cls l ≠ .full ∧ cls l ≠ .victim) ∨
        ∃ l cls' w', f'.Idle g cls' w' ∧ Collected g .slc l w f f' w')
      (CollectFault g w f (f.selectVictimLineSlc true).1) := by
  simp only [ConvFtl.doGc, hdyn]
  rcases h.selectVictimLineSlc with ⟨hrun, hnone⟩ | ⟨l, f₁, hrun, htaken⟩
  · rw [hrun]
    exact Or.inl ⟨rfl, hnone⟩
  · rw [hrun]
    refine (htaken.collectLine (htaken.dyn.trans hdyn) hpos).mono ?_ fun e he => ⟨l, rfl, he⟩
    rintro f' ⟨cls', w', hidle, hcol⟩
    exact Or.inr ⟨l, cls', w', hidle, hcol⟩

/-! ## The pages left for a victim -/

/-- The pages left in the TLC pool, read off the instance. -/
def ConvFtl.pagesLeft (f : ConvFtl) : Nat :=
  let line := f.lines f.gcWp.curline
  let perLine := (f.ssd.sp.curPgsPerLine .tlc).toNat
  f.lm.freeLineCnt * perLine + (perLine - (line.vpc + line.ipc))

theorem ConvFtl.Ok.pagesLeft (h : f.Ok g cls w) : f.pagesLeft = room g w f := by
  have hcont := h.pools.cont .tlc
  have hwp := h.wp .tlc
  have hcur : cls f.gcWp.blk = .current := ((hcont.current _).mp rfl).2
  have hline := h.pools.line f.gcWp.blk (g.hasLine_iff.mp hwp.line).1
  rw [show g.pool f.gcWp.blk = .tlc from g.hasLine_pool hwp.line, hcur] at hline
  have hsum : (f.lines f.gcWp.blk).vpc + (f.lines f.gcWp.blk).ipc = w .tlc := hline.fact
  have hcnt : f.lm.freeLineCnt = f.lm.freeLineList.length := hcont.freeCnt
  have hcurline : f.gcWp.curline = f.gcWp.blk := hwp.curline
  simp only [ConvFtl.pagesLeft, hcurline, hsum, hcnt, h.static.fits.pgsPerLine, Int.toNat_natCast,
    room]

/-- The valid pages of the victim are fewer than the pages left in the TLC pool. -/
def ConvFtl.VictimFits (f : ConvFtl) (victim : Option Nat) : Prop :=
  ∀ l, victim = some l → (f.lines l).vpc < f.pagesLeft

/-- What `foreground_gc` migrates fits: so does the victim of the garbage collection that may
come first, and then the victim of the migration. -/
def ConvFtl.GcFits (f : ConvFtl) : Prop :=
  f.shouldMigrationHigh = true →
    (f.shouldGcHigh = true → ∀ r, { f with dynSlcMode := .tlc }.selectVictimLine = .ok r →
      f.VictimFits r.1) ∧
    ∀ f₁, f.gcHigh = .ok f₁ →
      f₁.VictimFits ({ f₁ with dynSlcMode := .slc }.selectVictimLineSlc true).1

/-- The faults of `foreground_gc`. -/
def ForegroundFault (g : Geometry) (f : ConvFtl) (e : Fault) : Prop :=
  DivFault g e ∨ (e = .pageNotFree ∧ 2 ^ pageBits < g.pgsPerBlk .tlc) ∨
    (e = .noFreeLine .gc ∧ ¬ f.GcFits)

/-- A victim that fits is collected, unless a page number does not fit its field. -/
theorem CollectFault.of_ok {victim : Option Nat} {e : Fault} (h : CollectFault g w f victim e)
    (hok : f.Ok g cls w) : (e = .pageNotFree ∧ 2 ^ pageBits < g.pgsPerBlk .tlc) ∨
      (e = .noFreeLine .gc ∧ ¬ f.VictimFits victim) := by
  obtain ⟨l, hl, hpage | ⟨he, hspare⟩⟩ := h
  · exact Or.inl hpage
  · refine Or.inr ⟨he, fun hfits => ?_⟩
    have hlt := hfits l hl
    rw [hok.pagesLeft] at hlt
    omega

/-- A line of the SLC pool that is neither free nor being written. -/
def ConvFtl.HasClosedLine (g : Geometry) (f : ConvFtl) : Prop :=
  ∃ l, g.HasLine .slc l ∧ l ∉ f.slm.freeLineList ∧ l ≠ f.wp.blk

/-- Such a line can be migrated. -/
theorem ConvFtl.Idle.exists_victim (h : f.Idle g cls w) (hc : f.HasClosedLine g) :
    ∃ l, g.HasLine .slc l ∧ (cls l = .full ∨ cls l = .victim) := by
  obtain ⟨l, hm, hfree, hne⟩ := hc
  have hcont := h.ok.pools.cont .slc
  refine ⟨l, hm, ?_⟩
  cases hcl : cls l with
  | free => exact absurd ((hcont.free l).mpr ⟨hm, hcl⟩) hfree
  | current => exact absurd (Option.some.inj ((hcont.current l).mpr ⟨hm, hcl⟩)).symm hne
  | full => exact Or.inl rfl
  | victim => exact Or.inr rfl
  | collecting => exact absurd hcl (h.settled l (g.hasLine_iff.mp hm).1)

/-- The garbage collection of the TLC pool inside `foreground_gc` keeps the SLC side. -/
theorem ConvFtl.Idle.gcHigh (h : f.Idle g cls w) (hpos : 0 < g.oneshots)
    (hmig : f.shouldMigrationHigh = true) :
    Outcome f.gcHigh
      (fun f₁ => ∃ cls₁ w₁, f₁.Idle g cls₁ w₁ ∧ f₁.wfc.writeCredits = f.wfc.writeCredits ∧
        f₁.wp = f.wp ∧ f₁.slm.freeLineList = f.slm.freeLineList) (ForegroundFault g f) := by
  unfold ConvFtl.gcHigh
  by_cases hhigh : f.shouldGcHigh = true
  · rw [if_pos hhigh]
    let f₀ : ConvFtl := { f with dynSlcMode := .tlc }
    have h₀ : f₀.Idle g cls w := h.untracked
    refine (h₀.doGc_tlc rfl hpos).mono (fun _ h => h) ?_
    rintro e (hdiv | ⟨r, hr, hfault⟩)
    · exact Or.inl hdiv
    · rcases hfault.of_ok h₀.ok with hpage | ⟨he, hnot⟩
      · exact Or.inr (Or.inl hpage)
      · exact Or.inr (Or.inr ⟨he, fun hfits => hnot ((hfits hmig).1 hhigh r hr)⟩)
  · rw [if_neg hhigh]
    exact ⟨cls, w, h, rfl, rfl, rfl⟩

/-- What `foreground_gc` does to the credits and the SLC pool. -/
structure Foreground (g : Geometry) (f f' : ConvFtl) : Prop where
  writeCredits : f'.wfc.writeCredits = f.wfc.writeCredits
  wp : f'.wp = f.wp
  skip : f.shouldMigrationHigh = false → f' = f
  migrate : f.shouldMigrationHigh = true → f.HasClosedLine g →
    f'.wfc.creditsToRefill = g.pgsPerLine .slc ∧
      f'.slm.freeLineList.length = f.slm.freeLineList.length + 1

/-- `foreground_gc` from an idle instance. -/
theorem ConvFtl.Idle.foregroundGc (h : f.Idle g cls w) (hpos : 0 < g.oneshots) :
    Outcome f.foregroundGc (fun f' => ∃ cls' w', f'.Idle g cls' w' ∧ Foreground g f f')
      (ForegroundFault g f) := by
  unfold ConvFtl.foregroundGc
  by_cases hmig : f.shouldMigrationHigh = true
  swap
  · rw [if_neg hmig]
    exact ⟨cls, w, h, rfl, rfl, fun _ => rfl, fun hm => absurd hm hmig⟩
  rw [if_pos hmig]
  have hgc := h.gcHigh hpos hmig
  cases hr : f.gcHigh with
  | error e =>
    rw [hr] at hgc
    exact hgc
  | ok f₁ =>
    rw [hr] at hgc
    obtain ⟨cls₁, w₁, h₁, hcred, hwp, hfree⟩ := hgc
    rw [ok_bind, if_pos h₁.ok.static.slcMode]
    let f₂ : ConvFtl := { f₁ with dynSlcMode := .slc }
    have h₂ : f₂.Idle g cls₁ w₁ := h₁.untracked
    refine (h₂.doGc_slc rfl hpos).mono ?_ ?_
    · rintro f' (⟨rfl, hnone⟩ | ⟨l, cls', w', hidle, hcol⟩)
      · refine ⟨cls₁, w₁, h₂, hcred, hwp, fun hs => absurd hmig (by simp [hs]), fun _ hclosed => ?_⟩
        obtain ⟨l, hm, hf, hne⟩ := hclosed
        obtain ⟨l', hm', hc'⟩ := h₁.exists_victim ⟨l, hm, by rwa [hfree], by rwa [hwp]⟩
        rcases hc' with hc' | hc'
        · exact absurd hc' (hnone l' hm').1
        · exact absurd hc' (hnone l' hm').2
      · refine ⟨cls', w', hidle, hcol.writeCredits.trans hcred, hcol.wp.trans hwp,
          fun hs => absurd hmig (by simp [hs]), fun _ _ => ⟨hcol.refill rfl, ?_⟩⟩
        rw [hcol.slmFree, ← hfree]
        simp [f₂]
    · intro e hfault
      rcases hfault.of_ok h₂.ok with hpage | ⟨he, hnot⟩
      · exact Or.inr (Or.inl hpage)
      · exact Or.inr (Or.inr ⟨he, fun hfits => hnot ((hfits hmig).2 f₁ hr)⟩)

end NvmeVirt
