import NvmeVirt.Conv.Policy

/-!
# What `do_gc` moves

`do_gc` erases one line and writes its valid pages to other lines of the TLC pool. All other
pages stay where they are, and no logical page is lost.
-/

namespace NvmeVirt

open Checked MixedRadix

variable {g : Geometry} {cls : Nat → LineClass} {w : LineMode → Nat} {f f' f₁ f₂ : ConvFtl}
  {l refill : Nat} {m : LineMode} {p : Ppa}

namespace ConvFtl

/-- The victim that `do_gc` chooses. -/
def gcVictim (f : ConvFtl) (force : Bool) : Except Fault (Option Nat) :=
  match f.dynSlcMode with
  | .slc => .ok (f.selectVictimLineSlc force).1
  | .tlc => f.selectVictimLine.map Prod.fst

/-- From `f` to `f'` the line `l` of the pool `m` was erased and its pages were moved. -/
structure Relocated (f : ConvFtl) (m : LineMode) (l : Nat) (f' : ConvFtl) : Prop where
  pool : (l : Int) < f.ssd.sp.ttLinesSlc ↔ m = .slc
  mapped : ∀ lpn, f'.maptbl lpn = none ↔ f.maptbl lpn = none
  kept : ∀ lpn p, f.maptbl lpn = some p → p.blk ≠ l → f'.maptbl lpn = some p
  moved : ∀ lpn p, f.maptbl lpn = some p → p.blk = l →
    ∃ q, f'.maptbl lpn = some q ∧ f'.validPpa q = true ∧ f.ssd.sp.ttLinesSlc ≤ q.blk ∧ q.blk ≠ l
  copies : f'.copyCnt = f.copyCnt + (f.lines l).vpc
  free : ∀ p, f'.validPpa p = true → p.blk = l → f'.status p = .free
  counts : (f'.lines l).vpc = 0 ∧ (f'.lines l).ipc = 0
  tail : (f'.mgmt m).freeLineList.getLast? = some l
  erased : ∀ ch < f.ssd.sp.nchs, ∀ lun < f.ssd.sp.lunsPerCh,
    (f'.ssd.getBlk (linePage l (ch, lun) 0)).eraseCnt =
      (f.ssd.getBlk (linePage l (ch, lun) 0)).eraseCnt + 1

end ConvFtl

/-! ## The selection moves nothing -/

/-- From `f` to `f'` no page is written and no block is erased. -/
structure Unmoved (f f' : ConvFtl) : Prop where
  maptbl : f'.maptbl = f.maptbl
  copyCnt : f'.copyCnt = f.copyCnt
  blk : f'.ssd.blk = f.ssd.blk
  gcWp : f'.gcWp = f.gcWp

theorem Unmoved.trans (h : Unmoved f f₁) (h' : Unmoved f₁ f') : Unmoved f f' :=
  ⟨h'.maptbl.trans h.maptbl, h'.copyCnt.trans h.copyCnt, h'.blk.trans h.blk,
    h'.gcWp.trans h.gcWp⟩

/-- A selection does not touch the free list of the TLC pool either. -/
structure Selected (f f' : ConvFtl) : Prop extends Unmoved f f' where
  free : f'.lm.freeLineList = f.lm.freeLineList

theorem Selected.trans (h : Selected f f₁) (h' : Selected f₁ f') : Selected f f' :=
  ⟨h.toUnmoved.trans h'.toUnmoved, h'.free.trans h.free⟩

theorem selectVictimLine_selected (f : ConvFtl) :
    Outcome f.selectVictimLine (fun r => Selected f r.2) fun _ => True := by
  refine f.selectVictimLine_touches.mono ?_ fun _ h => h
  rintro ⟨_, f'⟩ ⟨_, _, _, _, _, rfl⟩
  exact ⟨⟨rfl, rfl, rfl, rfl⟩, rfl⟩

theorem selectVictimLineSlc_selected (f : ConvFtl) (force : Bool) :
    Selected f (f.selectVictimLineSlc force).2 := by
  obtain ⟨_, _, heq⟩ := f.selectVictimLineSlc_touches force
  rw [heq]
  exact ⟨⟨rfl, rfl, rfl, rfl⟩, rfl⟩

/-- Without `force` fewer lines are taken, but they are taken in the same way. -/
theorem selectVictimLineSlc_force {force : Bool} (h : (f.selectVictimLineSlc force).1 = some l) :
    f.selectVictimLineSlc force = f.selectVictimLineSlc true := by
  unfold ConvFtl.selectVictimLineSlc at h ⊢
  cases hpeek : f.slm.victimLinePq.peek with
  | none => rfl
  | some l' =>
    rw [hpeek] at h
    dsimp only at h ⊢
    split at h
    · cases h
    · rename_i hforce
      rw [if_neg hforce]
      simp

/-! ## The line after the loops -/

/-- `mark_line_free` puts the line at the end of the free list of its pool. -/
theorem ConvFtl.Static.markLineFree_fields (h : f.Static g) (hp : p.blk = l) :
    Unmoved f (f.markLineFree p) ∧
      ((f.markLineFree p).lines l).vpc = 0 ∧ ((f.markLineFree p).lines l).ipc = 0 ∧
      (f.markLineFree p).mgmt =
        Function.update f.mgmt (g.pool l) ((f.mgmt (g.pool l)).putFree l) := by
  rw [h.markLineFree hp, f.withLines_mgmt]
  refine ⟨⟨rfl, rfl, rfl, rfl⟩, ?_, ?_, rfl⟩
  · show (Function.update f.lines l { f.lines l with ipc := 0, vpc := 0 } l).vpc = 0
    rw [Function.update_self]
  · show (Function.update f.lines l { f.lines l with ipc := 0, vpc := 0 } l).ipc = 0
    rw [Function.update_self]

/-- Every valid page of the line has been copied once. -/
theorem Relocating.copies {w₀ : LineMode → Nat} {f₀ : ConvFtl} {spare : Int} {n : Nat}
    (h : Relocating g l spare w₀ f₀ (g.flashpgsPerBlk (g.pool l) * g.nchs * g.luns) f)
    (hroom : (room g w₀ f₀ : Int) = spare + n) : f.copyCnt = f₀.copyCnt + n := by
  obtain ⟨cls, w, hcol, hmoved⟩ := h.moved
  have hzero : liveCount g l
      (visited g l (g.flashpgsPerBlk (g.pool l) * g.nchs * g.luns * g.pgsPerFlashpg)) f = 0 :=
    liveCount_eq_zero fun q hl hlive => hlive.2.2 (visited_all hlive.1 hl)
  have hbal := hcol.balance
  have hcopies := hmoved.copies
  rw [hzero] at hbal
  omega

/-- A collected line has moved its pages and is free at the end. -/
theorem Relocating.relocated (htaken : Taken g m l cls w f f₁) (hidle : f.Idle g cls w)
    (hsel : Unmoved f f₁) (hpos : 0 < g.oneshots)
    (h : Relocating g l (room g w f - (f.lines l).vpc) w (f₁.refillWith refill)
      (g.flashpgsPerBlk (g.pool l) * g.nchs * g.luns) f₂) :
    f.Relocated m l (f₂.markLineFree ⟨0, l, 0, 0, 0⟩) := by
  have hpool : g.pool l = m := g.hasLine_pool htaken.line
  have hline := htaken.collecting.line
  have hfits := hidle.ok.static.fits
  obtain ⟨cls₂, w₂, hcol, hmoved⟩ := h.moved
  obtain ⟨hun, hvpc, hipc, hmgmt⟩ := hcol.ok.static.markLineFree_fields (p := ⟨0, l, 0, 0, 0⟩) rfl
  obtain ⟨cls', w', hidle', -⟩ := h.toEmptying.markLineFree (p := ⟨0, l, 0, 0, 0⟩) hpos rfl
  generalize f₂.markLineFree ⟨0, l, 0, 0, 0⟩ = f' at *
  have hmap : ∀ lpn, f'.maptbl lpn = f.maptbl lpn ∨ ∃ p q, f.maptbl lpn = some p ∧ p.blk = l ∧
      f'.maptbl lpn = some q ∧ g.HasLine .tlc q.blk ∧ q.blk ≠ l := by
    intro lpn
    rw [hun.maptbl, ← hsel.maptbl]
    exact hmoved.maptbl lpn
  -- the line is free, so no logical page can have stayed in it
  have hfree : ∀ p, g.Valid p → p.blk = l → f'.status p = .free := by
    intro p hp hl
    apply hidle'.ok.pools.status_eq_free hp
    rw [hl]
    refine (((hidle'.ok.pools.cont (g.pool l)).free l).mp ?_).2
    rw [hmgmt, Function.update_self]
    exact List.mem_append_right _ (List.mem_singleton_self l)
  have hroom : (room g w (f₁.refillWith refill) : Int) =
      room g w f - (f.lines l).vpc + (f.lines l).vpc := by
    have hcount : liveCount g l (fun _ => False) f₁ = (f.lines l).vpc := by
      rw [← hidle.liveCount_eq hline]
      apply liveCount_congr
      intro q
      simp only [Live, ConvFtl.status, Ssd.getBlk, hsel.blk]
    have hbal := htaken.collecting.balance
    rw [hcount] at hbal
    exact hbal
  refine ⟨?_, fun lpn => ?_, fun lpn p hp hl => ?_, fun lpn p hp hl => ?_, ?_, fun p hp hl => ?_,
    ⟨hvpc, hipc⟩, ?_, fun ch hch lun hlun => ?_⟩
  · rw [hfits.ttLinesSlc, Nat.cast_lt, ← hpool]
    simp [Geometry.pool]
  · rcases hmap lpn with he | ⟨p, q, hp, -, hq, -⟩
    · rw [he]
    · simp [hp, hq]
  · rcases hmap lpn with he | ⟨p', q, hp', hl', -⟩
    · rw [he, hp]
    · obtain rfl : p = p' := Option.some.inj (hp.symm.trans hp')
      exact absurd hl' hl
  · rcases hmap lpn with he | ⟨p', q, hp', hl', hq, htlc, hne⟩
    · have hlive := (hidle'.maps.inverse.live_of_fwd lpn p (he.trans hp)).1
      have hstatus := hlive.2.1
      rw [hfree p hlive.1 hl] at hstatus
      cases hstatus
    · have hlive := (hidle'.maps.inverse.live_of_fwd lpn q hq).1
      refine ⟨q, hq, (hidle'.ok.static.validPpa_iff q).mpr hlive.1, ?_, hne⟩
      rw [hfits.ttLinesSlc]
      exact_mod_cast htlc.1
  · rw [hun.copyCnt, h.copies hroom]
    exact congrArg (· + _) hsel.copyCnt
  · exact hfree p ((hidle'.ok.static.validPpa_iff p).mp hp) hl
  · rw [← hpool, hmgmt, Function.update_self]
    exact List.getLast?_concat
  · rw [hfits.nchs] at hch
    rw [hfits.lunsPerCh] at hlun
    have herased := h.erased ch hch lun hlun
    rw [if_pos (g.visitFlashpg_last_lt hpos hch hlun)] at herased
    simp only [Ssd.getBlk, hun.blk, ← hsel.blk]
    exact herased

/-- `do_gc` of an idle instance with a victim: it takes the line out of its container, empties it
and frees it. -/
theorem ConvFtl.Idle.doGc_some {force : Bool} (h : f.Idle g cls w) (hpos : 0 < g.oneshots)
    (hv : f.gcVictim force = .ok (some l)) :
    Outcome (f.doGc force)
      (fun f' => ∃ f₁ refill f₂, Taken g f.dynSlcMode l cls w f f₁ ∧ Selected f f₁ ∧
        (f.dynSlcMode = .slc → refill = g.pgsPerLine .slc) ∧
        Relocating g l (room g w f - (f.lines l).vpc) w (f₁.refillWith refill)
          (g.flashpgsPerBlk (g.pool l) * g.nchs * g.luns) f₂ ∧
        f' = f₂.markLineFree ⟨0, l, 0, 0, 0⟩) fun _ => True := by
  unfold ConvFtl.doGc
  cases hdyn : f.dynSlcMode with
  | slc =>
    simp only [ConvFtl.gcVictim, hdyn] at hv
    have hsome : (f.selectVictimLineSlc force).1 = some l := Except.ok.inj hv
    have hsel := selectVictimLineSlc_selected f true
    have hforce := selectVictimLineSlc_force hsome
    dsimp only
    rw [hforce] at hsome ⊢
    rcases h.selectVictimLineSlc with ⟨hrun, -⟩ | ⟨l', f₁, hrun, htaken⟩
    · rw [hrun] at hsome
      cases hsome
    · rw [hrun] at hsome hsel ⊢
      obtain rfl : l' = l := Option.some.inj hsome
      refine (htaken.relocate (htaken.dyn.trans hdyn) hpos).mono ?_ fun _ _ => trivial
      rintro f' ⟨refill, f₂, hrefill, h₂, he⟩
      exact ⟨f₁, refill, f₂, htaken, hsel, hrefill, h₂, he⟩
  | tlc =>
    simp only [ConvFtl.gcVictim, hdyn] at hv
    have hsel := (selectVictimLine_selected f).and h.selectVictimLine
    dsimp only
    obtain ⟨⟨victim, f₁⟩, hr, hsome⟩ := except_map_eq_ok.mp hv
    rw [hr] at hsel ⊢
    obtain rfl : victim = some l := hsome
    obtain ⟨hun, ⟨hnone, -⟩ | ⟨l', hl, htaken⟩⟩ := hsel
    · cases hnone
    · obtain rfl : l = l' := Option.some.inj hl
      have htaken' : Taken g .tlc l cls w f { f₁ with gcCnt := f₁.gcCnt + 1 } :=
        Taken.untracked htaken
      refine (htaken'.relocate (htaken'.dyn.trans hdyn) hpos).mono ?_ fun _ _ => trivial
      rintro f' ⟨refill, f₂, hrefill, h₂, he⟩
      exact ⟨_, refill, f₂, htaken', hun.trans ⟨⟨rfl, rfl, rfl, rfl⟩, rfl⟩, hrefill, h₂, he⟩

/-- `do_gc` moves the pages of its victim. -/
theorem ConvFtl.Idle.doGc_relocated {force : Bool} (h : f.Idle g cls w) (hpos : 0 < g.oneshots)
    (hv : f.gcVictim force = .ok (some l)) :
    Outcome (f.doGc force) (f.Relocated f.dynSlcMode l) fun _ => True := by
  refine (h.doGc_some hpos hv).mono ?_ fun _ he => he
  rintro f' ⟨f₁, refill, f₂, htaken, hsel, -, h₂, rfl⟩
  exact h₂.relocated htaken h hsel.toUnmoved hpos

/-! ## Runs -/

/-- Where a run of page writes calls `do_gc`: between two page writes, or inside
`foreground_gc` after the page `lpn` has been stored, for the TLC pool and then for the
SLC pool. -/
inductive ConvFtl.AtGc (f : ConvFtl) : ConvFtl → Prop
  | idle (m : LineMode) : f.AtGc { f with dynSlcMode := m }
  | collect (swr : NandCmd) (lpn : Nat) (completed : Option Nat) (f₁ : ConvFtl)
      (hlpn : lpn < f.ssd.sp.ttPgs) (h : f.storePage swr lpn = .ok (completed, f₁)) :
      f.AtGc { f₁.consumeWriteCredit with dynSlcMode := .tlc }
  | migrate (swr : NandCmd) (lpn : Nat) (completed : Option Nat) (f₁ f₂ : ConvFtl)
      (hlpn : lpn < f.ssd.sp.ttPgs) (h : f.storePage swr lpn = .ok (completed, f₁))
      (hmig : f₁.consumeWriteCredit.shouldMigrationHigh = true)
      (hgc : f₁.consumeWriteCredit.gcHigh = .ok f₂) :
      f.AtGc { f₂ with dynSlcMode := .slc }

theorem ConvFtl.Reached.atGc (h : f.Reached g) (hpos : 0 < g.oneshots) (hgc : f.AtGc f') :
    ∃ cls w, f'.Idle g cls w := by
  obtain ⟨cls, w, hidle, -⟩ := h
  cases hgc with
  | idle m => exact ⟨cls, w, hidle.untracked⟩
  | collect swr lpn completed f₁ hlpn hr =>
    rw [hidle.ok.static.fits.ttPgs] at hlpn
    obtain ⟨cls₁, w₁, h₁, -⟩ := (hidle.storePage hpos hlpn swr).of_ok hr
    exact ⟨cls₁, w₁, h₁.untracked⟩
  | migrate swr lpn completed f₁ f₂ hlpn hr hmig hhigh =>
    rw [hidle.ok.static.fits.ttPgs] at hlpn
    obtain ⟨cls₁, w₁, h₁, -⟩ := (hidle.storePage hpos hlpn swr).of_ok hr
    have h₁' : f₁.consumeWriteCredit.Idle g cls₁ w₁ := h₁.untracked
    obtain ⟨cls₂, w₂, h₂, -⟩ := (h₁'.gcHigh hpos hmig).of_ok hhigh
    exact ⟨cls₂, w₂, h₂.untracked⟩

/-! ## A device without pages -/

/-- A victim has an invalid page. -/
theorem ConvFtl.Idle.oneshots_pos_of_victim (h : f.Idle g cls w)
    (hl : (f.mgmt m).victimLinePq.Mem l) : 0 < g.oneshots := by
  obtain ⟨hm, hc⟩ := ((h.ok.pools.cont m).victim l).mp hl
  have hline := h.ok.pools.line l (g.hasLine_iff.mp hm).1
  rw [g.hasLine_pool hm, hc] at hline
  obtain ⟨hsum, hipc⟩ := hline.fact
  rcases Nat.eq_zero_or_pos g.oneshots with hzero | hpos
  · simp only [Geometry.pgsPerLine, Geometry.pgsPerBlk, hzero, Nat.mul_zero] at hsum
    omega
  · exact hpos

/-- `do_gc` finds no victim before a line has been written. -/
theorem ConvFtl.Idle.oneshots_pos_of_gcVictim {force : Bool} (h : f.Idle g cls w)
    (hfull : f.slm.fullLineList = []) (hv : f.gcVictim force = .ok (some l)) :
    0 < g.oneshots := by
  cases hdyn : f.dynSlcMode with
  | slc =>
    simp only [ConvFtl.gcVictim, hdyn, ConvFtl.selectVictimLineSlc, hfull] at hv
    have hcnt : f.slm.victimLineCnt + 1 = f.slm.victimLinePq.size := (h.ok.pools.cont .slc).victimCnt
    by_cases hone : f.slm.victimLinePq.size = 1
    · rw [Pqueue.peek, if_pos hone] at hv
      cases hv
    · exact h.oneshots_pos_of_victim (m := .slc) ⟨1, le_refl 1, by
        show 1 < f.slm.victimLinePq.size
        omega, rfl⟩
  | tlc =>
    by_cases hsize : f.lm.victimLinePq.size < 2
    · simp only [ConvFtl.gcVictim, hdyn, h.selectVictimLine_empty hsize] at hv
      cases hv
    · exact h.oneshots_pos_of_victim (m := .tlc) ⟨1, le_refl 1, Nat.le_of_not_lt hsize, rfl⟩

theorem getNextFreeLine_full {r : Nat × ConvFtl} (hr : f.getNextFreeLine = some r) :
    r.2.slm.fullLineList = f.slm.fullLineList := by
  unfold ConvFtl.getNextFreeLine at hr
  dsimp only at hr
  generalize (if f.slcMode = .slc ∧ f.dynSlcMode = .slc then LineMode.slc else .tlc) = m at hr
  split at hr
  · cases hr
  · cases hr
    cases m <;> rfl

theorem prepareWritePointer_full {io : IoType} (hr : f.prepareWritePointer io = .ok f') :
    f'.slm.fullLineList = f.slm.fullLineList := by
  unfold ConvFtl.prepareWritePointer at hr
  dsimp only at hr
  split at hr
  · cases hr
  · rename_i l f₁ hnext
    cases hr
    rw [← getNextFreeLine_full hnext]
    cases io <;> rfl

/-- A new instance has no full line. -/
theorem convInitFtl_full {mem : ConvFtl} {cpp : Convparams} {ssd : Ssd}
    (hr : convInitFtl mem true cpp ssd = .ok f) : f.slm.fullLineList = [] := by
  simp only [convInitFtl, ConvFtl.initLines, if_true, bind_eq_ok] at hr
  obtain ⟨f₁, ⟨_, -, hlines⟩, f₂, huser, f₃, hgc, hr⟩ := hr
  cases hlines
  cases hr
  show f₃.slm.fullLineList = []
  rw [prepareWritePointer_full hgc, prepareWritePointer_full huser]
  rfl

/-- A device without pages never has a full line. -/
theorem ftlRun_full {mem : ConvFtl} {clock : Clock} {spp : Ssdparams} {events : List FtlEvent}
    (hev : ∀ ev ∈ events, ev.InRange 0) (hf : ftlRun mem spp clock events = .ok f) :
    f.slm.fullLineList = [] := by
  simp only [ftlRun, bind_eq_ok] at hf
  obtain ⟨f₀, hinit, hf⟩ := hf
  refine (outcome_foldlM_const (E := fun _ => True) (fun f => f.slm.fullLineList = [])
    (fun ev hmem f₁ h₁ => ?_) f₀ (convInitFtl_full hinit)).of_ok hf
  cases ev with
  | write swr lpn => exact absurd (hev _ hmem) (Nat.not_lt_zero lpn)
  | tick π => exact h₁

/-- What `do_gc` does to its victim and to all other pages, wherever a run calls it. -/
theorem doGc_relocates (cfg : SlcConfig) (mem : ConvFtl) (clock : Clock) (smem spp : Ssdparams)
    (size : Nat) (events : List FtlEvent) (f f₁ f' : ConvFtl) (force : Bool) (l : Nat)
    (hspp : ssdInitParamsSlc smem cfg.toSsdConfig size cfg.ssdPartitions = some spp)
    (hev : ∀ ev ∈ events, ev.InRange spp.ttPgs)
    (hf : ftlRun mem spp clock events = .ok f) (hgc : f.AtGc f₁)
    (hvictim : f₁.gcVictim force = .ok (some l)) (hr : f₁.doGc force = .ok f') :
    f₁.Relocated f₁.dynSlcMode l f' := by
  obtain ⟨g, -, hfits, -⟩ := ssdInitParamsSlc_fits hspp
  rw [hfits.ttPgs] at hev
  have hreached := (ftlRun_outcome mem clock hfits hev).of_ok hf
  have hpos : 0 < g.oneshots := by
    by_contra hzero
    have hpgs : g.ttPgs = 0 := by
      by_contra hne
      exact hzero (g.oneshots_pos (Nat.pos_of_ne_zero hne))
    obtain ⟨cls, w, hidle, -⟩ := hreached
    rw [hpgs] at hev
    have hnone : ∀ lpn, ¬ lpn < f.ssd.sp.ttPgs := by
      rw [hidle.ok.static.fits.ttPgs, hpgs]
      exact Nat.not_lt_zero
    cases hgc with
    | idle m =>
      have hidle' : ({ f with dynSlcMode := m } : ConvFtl).Idle g cls w := hidle.untracked
      have hfull := ftlRun_full hev hf
      exact hzero (hidle'.oneshots_pos_of_gcVictim hfull hvictim)
    | collect swr lpn completed f₂ hlpn => exact hnone lpn hlpn
    | migrate swr lpn completed f₂ f₃ hlpn => exact hnone lpn hlpn
  obtain ⟨cls, w, hidle⟩ := hreached.atGc hpos hgc
  exact (hidle.doGc_relocated hpos hvictim).of_ok hr

/-- The collection of line 4 in the run of `target_policy_ignored` copies its eleven valid
pages. -/
theorem doGc_relocates_eleven : ∃ (spp : Ssdparams) (f f' : ConvFtl),
    ftlRun default spp (.jump 51) ((List.range 25 ++ [0, 12, 13]).map (.write default)) = .ok f ∧
    { f with dynSlcMode := .tlc }.doGc true = .ok f' ∧ (f.lines 4).vpc = 11 ∧
    { f with dynSlcMode := .tlc }.Relocated .tlc 4 f' := by
  have hspp : (ssdInitParamsSlc default oneDie.toSsdConfig (kb 576) oneDie.ssdPartitions).map
      (fun spp => (spp.ttPgs, (ftlRun default spp (.jump 51)
        ((List.range 25 ++ [0, 12, 13]).map (.write default))).map fun f =>
          ((f.lines 4).vpc,
            decide (({ f with dynSlcMode := .tlc } : ConvFtl).gcVictim true = .ok (some 4)),
            (({ f with dynSlcMode := .tlc } : ConvFtl).doGc true).toOption.isSome))) =
      some (112, .ok (11, true, true)) := by
    decide +kernel
  obtain ⟨spp, hr, hs⟩ := Option.map_eq_some_iff.mp hspp
  obtain ⟨hpgs, hrun⟩ := Prod.mk.inj hs
  obtain ⟨f, hf, hfacts⟩ := except_map_eq_ok.mp hrun
  obtain ⟨hvpc, hvictim, hgc⟩ := by simpa only [Prod.mk.injEq, decide_eq_true_eq] using hfacts
  obtain ⟨f', hf'⟩ : ∃ f', ({ f with dynSlcMode := .tlc } : ConvFtl).doGc true = .ok f' := by
    cases hrun : ({ f with dynSlcMode := .tlc } : ConvFtl).doGc true with
    | error e =>
      rw [hrun] at hgc
      cases hgc
    | ok f' => exact ⟨f', rfl⟩
  refine ⟨spp, f, f', hf, hf', hvpc, ?_⟩
  refine doGc_relocates oneDie default (.jump 51) default spp (kb 576) _ f _ f' true 4 hr ?_ hf
    (.idle .tlc) hvictim hf'
  rw [hpgs]
  intro ev hev
  obtain ⟨lpn, hlpn, rfl⟩ := List.mem_map.mp hev
  simp only [List.mem_append, List.mem_range, List.mem_cons, List.not_mem_nil, or_false] at hlpn
  show lpn < 112
  omega

end NvmeVirt
