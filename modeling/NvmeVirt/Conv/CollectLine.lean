import NvmeVirt.Conv.Clean

/-!
# The loops of `do_gc`

The loops clean the flash pages of a line in order and free each block after its last
flash page. Between two flash pages the unvisited pages are still written and exactly
the blocks that are done are free. At the end every page of the line is free, and the
line returns to its pool.
-/

namespace NvmeVirt

open Checked MixedRadix

variable {g : Geometry} {cls : Nat → LineClass} {w : LineMode → Nat} {f f' f₀ : ConvFtl}
  {stale stale' : Ppa → Prop} {l k : Nat} {spare : Int} {p q : Ppa}

/-! ## Freeing a block -/

/-- `mark_block_free` on a block whose pages are all stale. -/
theorem Collecting.markBlockFree {ch lun : Nat} (pg : Nat) (h : Collecting g l spare stale cls w f)
    (hch : ch < g.nchs) (hlun : lun < g.luns)
    (hstale : ∀ pg < g.pgsPerBlk (g.pool l), stale (linePage l (ch, lun) pg)) :
    ∃ f', f.markBlockFree (linePage l (ch, lun) pg) = .ok f' ∧
      Collecting g l spare stale cls w f' ∧ Moved g l w w f f' ∧
      f'.ssd.blk = Function.update f.ssd.blk (lineAddr l (ch, lun))
        ((f.ssd.blk (lineAddr l (ch, lun))).free (g.pgsPerBlk (g.pool l))) := by
  let n := g.pgsPerBlk (g.pool l)
  let d := (ch, lun)
  let p := linePage l d pg
  let b := f.ssd.blk (lineAddr l d)
  have hst := h.ok.static
  have hd : d ∈ g.dies := g.mem_dies.mpr ⟨hch, hlun⟩
  have hline := h.ok.pools.line l h.line
  rw [h.label] at hline
  have hb : BlockOk n b := hline.blocks d hd
  let f' : ConvFtl := { f with ssd := f.ssd.setBlk p (b.free n) }
  have hblk : f'.ssd.blk = Function.update f.ssd.blk (lineAddr l d) (b.free n) := rfl
  have hstatus : ∀ q, q.addr ≠ lineAddr l d → f'.status q = f.status q := by
    intro q ha
    simp only [ConvFtl.status, Ssd.getBlk, hblk, Function.update_of_ne ha]
  -- no page of the block is live, before or after
  have hlive : ∀ q, Live g stale f' q ↔ Live g stale f q := by
    intro q
    by_cases ha : q.addr = lineAddr l d
    · refine iff_of_false ?_ ?_ <;> rintro ⟨hq, hs, hns⟩ <;> refine hns ?_
      all_goals
        have hl : q.blk = l := congrArg BlkAddr.blk ha
        have hpg := hq.pg
        rw [hl] at hpg
        have := hstale q.pg hpg
        rwa [show linePage l (ch, lun) q.pg = q by
          rw [hq.eq_linePage, hl, show q.ch = ch from congrArg BlkAddr.ch ha,
            show q.lun = lun from congrArg BlkAddr.lun ha]
          rfl] at this
    · unfold Live
      exact and_congr_right fun _ => by rw [hstatus q ha]
  have hpools : f'.PoolsOk g cls f'.cur w := by
    have := PoolsOk.update h.ok.pools .collecting (f.cur (g.pool l)) (f.mgmt (g.pool l)) w
      f'.ssd.blk f.lines (g.hasLine_iff.mpr ⟨h.line, rfl⟩) ?_ ?_ ?_ (fun _ _ => ⟨rfl, rfl, rfl⟩)
      (fun _ _ => rfl) (fun _ _ _ _ => rfl)
    · rwa [← h.label, Function.update_eq_self, Function.update_eq_self,
        Function.update_eq_self] at this
    · rw [hblk, update_lineAddr]
      exact hline.freeBlock hd
    · rw [← h.label, Function.update_eq_self]
      exact h.ok.pools.cont _
    · intro l' he d'
      rw [hblk, Function.update_of_ne fun h' => he (lineAddr_inj.mp h').1]
  refine ⟨f', ?_, ⟨⟨⟨hst.fits, hst.slcMode, hst.cp, hst.slmLines⟩, hpools, h.ok.wp⟩,
    h.maps.congr rfl rfl hlive, h.line, h.label, h.only, h.inLine, ?_⟩,
    ⟨⟨rfl, rfl, rfl, Or.inl rfl⟩, fun _ => Or.inl rfl, rfl, fun q hq => Or.inl ?_,
      List.suffix_rfl⟩, hblk⟩
  · have hcur : f.ssd.sp.curPgsPerBlk (f.ppaPool (linePage l (ch, lun) pg)) = (n : Int) := by
      rw [hst.ppaPool, hst.fits.pgsPerBlk]
      rfl
    simp only [ConvFtl.markBlockFree, hcur, Int.toNat_natCast]
    rw [show f.ssd.getBlk (linePage l (ch, lun) pg) = b from rfl,
      require_pos (le_of_eq hb.npgs.symm), ok_bind,
      require_pos fun i _ => by rw [hb.nsecs, hst.fits.secsPerPg], ok_bind, require_pos hb.npgs]
    rfl
  · rw [liveCount_congr hlive]
    exact h.balance
  · exact hstatus q fun ha => hq (congrArg BlkAddr.blk ha)

/-! ## The loops -/

/-- The invariant of the loops of `do_gc` after `n` flash pages; `f₀` is the instance before
the first. -/
structure Emptying (g : Geometry) (l : Nat) (spare : Int) (f₀ : ConvFtl) (n : Nat)
    (f : ConvFtl) : Prop where
  collecting : ∃ cls w, Collecting g l spare (visited g l (n * g.pgsPerFlashpg)) cls w f
  kept : Kept f₀ f
  written : ∀ ch < g.nchs, ∀ lun < g.luns, ∀ pg < g.pgsPerBlk (g.pool l),
    n * g.pgsPerFlashpg ≤ g.visit ch lun pg → f.status (linePage l (ch, lun) pg) ≠ .free
  freed : ∀ ch < g.nchs, ∀ lun < g.luns,
    g.visitFlashpg (g.flashpgsPerBlk (g.pool l) - 1) ch lun < n →
      (f.ssd.blk (lineAddr l (ch, lun))).vpc = 0 ∧ (f.ssd.blk (lineAddr l (ch, lun))).ipc = 0

/-- The pages of a block have been visited after its last flash page. -/
theorem visited_block (ch lun : Nat) {pg : Nat} (hpg : pg < g.pgsPerBlk (g.pool l)) :
    visited g l ((g.visitFlashpg (g.flashpgsPerBlk (g.pool l) - 1) ch lun + 1) * g.pgsPerFlashpg)
      (linePage l (ch, lun) pg) := by
  refine ⟨rfl, ?_⟩
  have hmod := Nat.mod_lt pg g.pgsPerFlashpg_pos
  have hdiv : pg / g.pgsPerFlashpg ≤ g.flashpgsPerBlk (g.pool l) - 1 :=
    Nat.le_sub_one_of_lt (g.div_lt_flashpgs hpg)
  have hle : g.visitFlashpg (pg / g.pgsPerFlashpg) ch lun ≤
      g.visitFlashpg (g.flashpgsPerBlk (g.pool l) - 1) ch lun := by
    unfold Geometry.visitFlashpg
    gcongr
  have hmul := Nat.mul_le_mul_right g.pgsPerFlashpg hle
  rw [Nat.succ_mul]
  show g.visitFlashpg (pg / g.pgsPerFlashpg) ch lun * g.pgsPerFlashpg + pg % g.pgsPerFlashpg < _
  omega

/-- The innermost body of the loops of `do_gc` makes one flash page stale. The last one of a
block frees the block. -/
theorem Collecting.gcBody {flashpg ch lun : Nat} {io : IoType}
    (h : Collecting g l spare
      (visited g l (g.visitFlashpg flashpg ch lun * g.pgsPerFlashpg)) cls w f)
    (hpos : 0 < g.oneshots) (hdyn : f.dynSlcMode = .slc → g.pool l = .slc)
    (hnarrow : g.pgsPerBlk (g.pool l) ≤ 2 ^ pageBits) (hch : ch < g.nchs) (hlun : lun < g.luns)
    (hflashpg : flashpg < g.flashpgsPerBlk (g.pool l))
    (hwritten : ∀ i < g.pgsPerFlashpg,
      f.status (linePage l (ch, lun) (flashpg * g.pgsPerFlashpg + i)) ≠ .free) :
    Outcome (ConvFtl.gcBody l (g.flashpgsPerBlk (g.pool l)) io flashpg ch lun f)
      (fun f' => ∃ cls' w', Collecting g l spare
        (visited g l ((g.visitFlashpg flashpg ch lun + 1) * g.pgsPerFlashpg)) cls' w' f' ∧
        Moved g l w w' f f' ∧ ∀ d, f'.ssd.blk (lineAddr l d) =
          if d = (ch, lun) ∧ flashpg + 1 = g.flashpgsPerBlk (g.pool l) then
            (f.ssd.blk (lineAddr l d)).free (g.pgsPerBlk (g.pool l))
          else f.ssd.blk (lineAddr l d))
      (GcFault g spare) := by
  have hp : Ppa.mk (flashpg * f.ssd.sp.pgsPerFlashpg % 2 ^ pageBits) (l % 2 ^ blkBits) 0
      (lun % 2 ^ lunBits) (ch % 2 ^ chBits) =
      linePage l (ch, lun) (flashpg * g.pgsPerFlashpg) := by
    have hpg : flashpg * g.pgsPerFlashpg < 2 ^ pageBits :=
      (g.flashpg_lt hflashpg g.pgsPerFlashpg_pos).trans_le hnarrow
    have hl := g.hasLine_lt (g.hasLine_iff.mpr ⟨h.line, rfl⟩)
    rw [h.ok.static.fits.pgsPerFlashpg, Nat.mod_eq_of_lt hl, Nat.mod_eq_of_lt hpg,
      Nat.mod_eq_of_lt (hlun.trans_le g.luns_le), Nat.mod_eq_of_lt (hch.trans_le g.nchs_le)]
    rfl
  simp only [ConvFtl.gcBody, hp]
  refine (h.cleanOneFlashpg hpos hdyn hnarrow hch hlun hflashpg hwritten).bind ?_
  rintro f₁ ⟨cls₁, w₁, hcol₁, hmoved₁, hblk₁⟩
  by_cases hlast : flashpg + 1 = g.flashpgsPerBlk (g.pool l)
  · obtain ⟨f₂, hrun, hcol₂, hmoved₂, hblk₂⟩ := hcol₁.markBlockFree
      (flashpg * g.pgsPerFlashpg) hch hlun fun pg hpg => by
        have := visited_block ch lun hpg
        rwa [← hlast, Nat.add_sub_cancel] at this
    rw [if_pos hlast, hrun, ok_bind]
    obtain ⟨hcol₃, hmoved₃, hblk₃⟩ := hcol₂.gcDelay
      { type := io
        cmd := .erase
        stime := 0
        xferSize := 0
        interleavePciDma := false
        ppa := some (linePage l (ch, lun) (flashpg * g.pgsPerFlashpg)) }
    refine ⟨cls₁, w₁, hcol₃, hmoved₁.trans (hmoved₂.trans hmoved₃), fun d => ?_⟩
    rw [hblk₃, hblk₂]
    by_cases hd : d = (ch, lun)
    · subst hd
      rw [Function.update_self, if_pos ⟨rfl, hlast⟩, hblk₁ _ rfl]
    · rw [Function.update_of_ne fun he => hd (lineAddr_inj.mp he).2, if_neg fun he => hd he.1,
        hblk₁ _ rfl]
  · rw [if_neg hlast]
    refine ⟨cls₁, w₁, hcol₁, hmoved₁, fun d => ?_⟩
    rw [if_neg fun he => hlast he.2, hblk₁ _ rfl]

/-- The last flash page of a block has one place in the order of the visits. -/
theorem Geometry.visitFlashpg_last_lt_succ (g : Geometry) {m : LineMode}
    {flashpg ch lun ch' lun' : Nat} (hch : ch < g.nchs) (hlun : lun < g.luns) (hch' : ch' < g.nchs)
    (hlun' : lun' < g.luns) (hflashpg : flashpg < g.flashpgsPerBlk m) :
    g.visitFlashpg (g.flashpgsPerBlk m - 1) ch' lun' < g.visitFlashpg flashpg ch lun + 1 ↔
      g.visitFlashpg (g.flashpgsPerBlk m - 1) ch' lun' < g.visitFlashpg flashpg ch lun ∨
        ((ch', lun') = (ch, lun) ∧ flashpg + 1 = g.flashpgsPerBlk m) := by
  rw [Nat.lt_succ_iff_lt_or_eq, Prod.mk.injEq]
  refine or_congr_right ⟨fun he => ?_, ?_⟩
  · obtain ⟨h1, h2⟩ := pair_inj hlun' hlun he
    obtain ⟨h3, h4⟩ := pair_inj hch' hch h1
    exact ⟨⟨h4, h2⟩, by omega⟩
  · rintro ⟨⟨rfl, rfl⟩, hlast⟩
    rw [← hlast, Nat.add_sub_cancel]

/-- It comes before the end of the loops. -/
theorem Geometry.visitFlashpg_last_lt (g : Geometry) {m : LineMode} {ch lun : Nat}
    (hpos : 0 < g.oneshots) (hch : ch < g.nchs) (hlun : lun < g.luns) :
    g.visitFlashpg (g.flashpgsPerBlk m - 1) ch lun < g.flashpgsPerBlk m * g.nchs * g.luns := by
  have : 0 < g.flashpgsPerBlk m := Nat.mul_pos (g.flashpgs_pos _) hpos
  exact pair_lt (pair_lt (by omega) hch) hlun

/-- What one pass of the innermost body preserves. -/
theorem Emptying.step {flashpg ch lun : Nat} {cls' : Nat → LineClass} {w' : LineMode → Nat}
    (h : Emptying g l spare f₀ (g.visitFlashpg flashpg ch lun) f) (hch : ch < g.nchs)
    (hlun : lun < g.luns) (hflashpg : flashpg < g.flashpgsPerBlk (g.pool l))
    (hcol : Collecting g l spare
      (visited g l ((g.visitFlashpg flashpg ch lun + 1) * g.pgsPerFlashpg)) cls' w' f')
    (hkept : Kept f f')
    (hblk : ∀ d, f'.ssd.blk (lineAddr l d) =
      if d = (ch, lun) ∧ flashpg + 1 = g.flashpgsPerBlk (g.pool l) then
        (f.ssd.blk (lineAddr l d)).free (g.pgsPerBlk (g.pool l))
      else f.ssd.blk (lineAddr l d)) :
    Emptying g l spare f₀ (g.visitFlashpg flashpg ch lun + 1) f' := by
  refine ⟨⟨cls', w', hcol⟩, h.kept.trans hkept, ?_, ?_⟩
  · intro ch' hch' lun' hlun' pg hpg hle
    have hle' : g.visitFlashpg flashpg ch lun * g.pgsPerFlashpg ≤ g.visit ch' lun' pg :=
      (Nat.mul_le_mul_right _ (Nat.le_succ _)).trans hle
    have hold := h.written ch' hch' lun' hlun' pg hpg hle'
    by_cases hd : (ch', lun') = (ch, lun) ∧ flashpg + 1 = g.flashpgsPerBlk (g.pool l)
    · -- every page of the freed block has been visited
      have hvis := (visited_block ch' lun' hpg).2
      obtain ⟨⟨rfl, rfl⟩, hlast⟩ := And.imp_left Prod.mk.inj hd
      rw [← hlast, Nat.add_sub_cancel] at hvis
      exact absurd hle (Nat.not_le.mpr hvis)
    · have hb := hblk (ch', lun')
      rw [if_neg hd] at hb
      show (f'.ssd.blk (lineAddr l (ch', lun'))).statusAt pg ≠ .free
      rw [hb]
      exact hold
  · intro ch' hch' lun' hlun' hlt
    rw [hblk]
    by_cases hd : (ch', lun') = (ch, lun) ∧ flashpg + 1 = g.flashpgsPerBlk (g.pool l)
    · rw [if_pos hd]
      exact ⟨rfl, rfl⟩
    · rw [if_neg hd]
      have hlt' := (g.visitFlashpg_last_lt_succ hch hlun hch' hlun' hflashpg).mp hlt
      exact h.freed ch' hch' lun' hlun' (hlt'.resolve_right hd)

/-- The loops of `do_gc` also keep count of the pages that moved and of the blocks that were
erased; `w₀` belongs to the instance before the first flash page. -/
structure Relocating (g : Geometry) (l : Nat) (spare : Int) (w₀ : LineMode → Nat) (f₀ : ConvFtl)
    (n : Nat) (f : ConvFtl) : Prop extends Emptying g l spare f₀ n f where
  moved : ∃ cls w, Collecting g l spare (visited g l (n * g.pgsPerFlashpg)) cls w f ∧
    Moved g l w₀ w f₀ f
  erased : ∀ ch < g.nchs, ∀ lun < g.luns, (f.ssd.blk (lineAddr l (ch, lun))).eraseCnt =
    (f₀.ssd.blk (lineAddr l (ch, lun))).eraseCnt +
      if g.visitFlashpg (g.flashpgsPerBlk (g.pool l) - 1) ch lun < n then 1 else 0

theorem Relocating.gcBody {w₀ : LineMode → Nat} {flashpg ch lun : Nat} {io : IoType}
    (h : Relocating g l spare w₀ f₀ (g.visitFlashpg flashpg ch lun) f) (hpos : 0 < g.oneshots)
    (hdyn : f₀.dynSlcMode = .slc → g.pool l = .slc)
    (hnarrow : g.pgsPerBlk (g.pool l) ≤ 2 ^ pageBits)
    (hch : ch < g.nchs) (hlun : lun < g.luns)
    (hflashpg : flashpg < g.flashpgsPerBlk (g.pool l)) :
    Outcome (ConvFtl.gcBody l (g.flashpgsPerBlk (g.pool l)) io flashpg ch lun f)
      (Relocating g l spare w₀ f₀ (g.visitFlashpg flashpg ch lun + 1)) (GcFault g spare) := by
  obtain ⟨cls, w, hcol, hmoved⟩ := h.moved
  have hdyn' : f.dynSlcMode = .slc → g.pool l = .slc := by
    intro hd
    rcases h.kept.dyn with he | he
    · exact hdyn (he ▸ hd)
    · rw [he] at hd
      cases hd
  have hwritten : ∀ i < g.pgsPerFlashpg,
      f.status (linePage l (ch, lun) (flashpg * g.pgsPerFlashpg + i)) ≠ .free := by
    intro i hi
    apply h.written ch hch lun hlun _ (g.flashpg_lt hflashpg hi)
    rw [g.visit_eq ch lun flashpg hi]
    exact Nat.le_add_right _ _
  refine (hcol.gcBody hpos hdyn' hnarrow hch hlun hflashpg hwritten).mono ?_ fun _ he => he
  rintro f' ⟨cls', w', hcol', hmoved', hblk⟩
  refine ⟨h.toEmptying.step hch hlun hflashpg hcol' hmoved'.toKept hblk,
    ⟨cls', w', hcol', hmoved.trans hmoved'⟩, fun ch' hch' lun' hlun' => ?_⟩
  have hlt := g.visitFlashpg_last_lt_succ hch hlun hch' hlun' hflashpg
  rw [hblk]
  have hold := h.erased ch' hch' lun' hlun'
  by_cases hd : (ch', lun') = (ch, lun) ∧ flashpg + 1 = g.flashpgsPerBlk (g.pool l)
  · -- this is the block's turn: it has not been erased before
    have hnot : ¬ g.visitFlashpg (g.flashpgsPerBlk (g.pool l) - 1) ch' lun' <
        g.visitFlashpg flashpg ch lun := by
      obtain ⟨⟨rfl, rfl⟩, hlast⟩ := And.imp_left Prod.mk.inj hd
      rw [← hlast, Nat.add_sub_cancel]
      exact Nat.lt_irrefl _
    rw [if_neg hnot, Nat.add_zero] at hold
    rw [if_pos hd, if_pos (hlt.mpr (Or.inr hd)), ← hold]
    rfl
  · simp only [if_neg hd, hlt, or_iff_left hd]
    exact hold

/-- The three loops of `do_gc`. -/
theorem Relocating.gcLoop {w₀ : LineMode → Nat} {io : IoType}
    (h : Relocating g l spare w₀ f₀ 0 f) (hpos : 0 < g.oneshots)
    (hdyn : f₀.dynSlcMode = .slc → g.pool l = .slc)
    (hnarrow : g.pgsPerBlk (g.pool l) ≤ 2 ^ pageBits) :
    Outcome (f.gcLoop l (g.flashpgsPerBlk (g.pool l)) io)
      (Relocating g l spare w₀ f₀ (g.flashpgsPerBlk (g.pool l) * g.nchs * g.luns))
      (GcFault g spare) := by
  obtain ⟨cls, w, hcol⟩ := h.collecting
  simp only [ConvFtl.gcLoop, hcol.ok.static.fits.nchs, hcol.ok.static.fits.lunsPerCh]
  rw [Nat.mul_assoc]
  refine outcome_foldlM_range (fun fp => Relocating g l spare w₀ f₀ (fp * (g.nchs * g.luns))) ?_
    (by rwa [Nat.zero_mul])
  intro flashpg hflashpg f₁ h₁
  rw [← Nat.mul_assoc] at h₁
  rw [Nat.succ_mul, ← Nat.mul_assoc, ← Nat.add_mul]
  refine outcome_foldlM_range
    (fun ch => Relocating g l spare w₀ f₀ ((flashpg * g.nchs + ch) * g.luns)) ?_ h₁
  intro ch hch f₂ h₂
  rw [← Nat.add_assoc, Nat.succ_mul]
  refine outcome_foldlM_range
    (fun lun => Relocating g l spare w₀ f₀ (g.visitFlashpg flashpg ch lun)) ?_ h₂
  intro lun hlun f₃ h₃
  exact h₃.gcBody hpos hdyn hnarrow hch hlun hflashpg

/-! ## The line returns to its pool -/

/-- The invariant of an instance between two page writes: no line is being collected. -/
structure ConvFtl.Idle (g : Geometry) (cls : Nat → LineClass) (w : LineMode → Nat)
    (f : ConvFtl) : Prop where
  ok : f.Ok g cls w
  maps : MapOk g (fun _ => False) f
  settled : ∀ l < g.ttLines, cls l ≠ .collecting

/-- The pool `m` after `mark_line_free` returned the line `l`. -/
def LineMgmt.putFree (lm : LineMgmt) (l : Nat) : LineMgmt :=
  { lm with
    freeLineList := lm.freeLineList ++ [l]
    freeLineCnt := lm.freeLineCnt + 1 }

/-- `mark_line_free` on an address of the line `l`. -/
theorem ConvFtl.Static.markLineFree (h : f.Static g) (hp : p.blk = l) :
    f.markLineFree p = f.withLines
      (Function.update f.lines l { f.lines l with ipc := 0, vpc := 0 })
      (Function.update f.mgmt (g.pool l) ((f.mgmt (g.pool l)).putFree l)) := by
  simp only [ConvFtl.markLineFree, h.ppaPool, h.getLine, hp]
  rw [ConvFtl.setMgmt_eq]
  rfl

/-- What a collected line leaves behind. -/
structure LineFreed (g : Geometry) (l : Nat) (spare : Int) (f f' : ConvFtl)
    (w' : LineMode → Nat) : Prop where
  wfc : f'.wfc = f.wfc
  wp : f'.wp = f.wp
  slm : f'.slm = if g.pool l = .slc then f.slm.putFree l else f.slm
  room : (room g w' f' : Int) = spare + if g.pool l = .tlc then g.pgsPerLine .tlc else 0
  dyn : f'.dynSlcMode = f.dynSlcMode ∨ f'.dynSlcMode = .tlc

/-- Every page of the line has been visited after the last flash page. -/
theorem visited_all (hq : g.Valid q) (hl : q.blk = l) :
    visited g l (g.flashpgsPerBlk (g.pool l) * g.nchs * g.luns * g.pgsPerFlashpg) q := by
  have hpg := hq.pg
  rw [hl] at hpg
  exact ⟨hl, pair_lt (pair_lt (pair_lt (g.div_lt_flashpgs hpg) hq.ch) hq.lun)
    (Nat.mod_lt _ g.pgsPerFlashpg_pos)⟩

/-- Every block of the line has been freed after the last flash page. -/
theorem Emptying.freed_all
    (h : Emptying g l spare f₀ (g.flashpgsPerBlk (g.pool l) * g.nchs * g.luns) f)
    (hpos : 0 < g.oneshots) : ∀ d ∈ g.dies, (f.ssd.blk (lineAddr l d)).vpc = 0 ∧
      (f.ssd.blk (lineAddr l d)).ipc = 0 := by
  intro d hd
  obtain ⟨hch, hlun⟩ := g.mem_dies.mp hd
  exact h.freed d.1 hch d.2 hlun (g.visitFlashpg_last_lt hpos hch hlun)

/-- After the loops the line is free again. -/
theorem Emptying.markLineFree
    (h : Emptying g l spare f₀ (g.flashpgsPerBlk (g.pool l) * g.nchs * g.luns) f)
    (hpos : 0 < g.oneshots) (hp : p.blk = l) :
    ∃ cls' w', (f.markLineFree p).Idle g cls' w' ∧
      LineFreed g l spare f₀ (f.markLineFree p) w' := by
  obtain ⟨cls, w, hcol⟩ := h.collecting
  have hst := hcol.ok.static
  have hline := hcol.ok.pools.line l hcol.line
  rw [hcol.label] at hline
  have hm : g.HasLine (g.pool l) l := g.hasLine_iff.mpr ⟨hcol.line, rfl⟩
  have hvisited := fun q (hq : g.Valid q) (hl : q.blk = l) => visited_all hq hl
  have hfreed := h.freed_all hpos
  let lines := Function.update f.lines l { f.lines l with ipc := 0, vpc := 0 }
  let mgmt := Function.update f.mgmt (g.pool l) ((f.mgmt (g.pool l)).putFree l)
  have hrun : f.markLineFree p = f.withLines lines mgmt := hst.markLineFree hp
  have hpos' : ∀ l', (lines l').pos = (f.lines l').pos := by
    intro l'
    by_cases he : l' = l
    · subst he
      simp [lines]
    · rw [show lines l' = f.lines l' from Function.update_of_ne he ..]
  have hpools : NvmeVirt.PoolsOk g (Function.update cls l .free) f.cur w f.ssd.blk lines mgmt := by
    have hcont : Containers g (g.pool l) (Function.update cls l .free) (f.cur (g.pool l)) lines
        ((f.mgmt (g.pool l)).putFree l) :=
      ((hcol.ok.pools.cont (g.pool l)).putFree hm hcol.label).congr (fun _ _ => rfl)
        fun l' _ => hpos' l'
    have := PoolsOk.update hcol.ok.pools _ _ _ w f.ssd.blk lines hm
      (hline.freeLine (lines l) _ (by simp [lines]) (by simp [lines]) (by simp [lines])
        hfreed) hcont (fun _ _ _ => rfl) ?_ (fun l' _ => hpos' l') (fun _ _ _ _ => rfl)
    · rwa [Function.update_eq_self] at this
    · intro l' he
      rw [show lines l' = f.lines l' from Function.update_of_ne he ..]
      exact ⟨rfl, rfl, rfl⟩
  have hmgmt : (f.withLines lines mgmt).mgmt = mgmt := f.withLines_mgmt lines mgmt
  have hok : (f.withLines lines mgmt).Ok g (Function.update cls l .free) w :=
    ⟨hst.update (hcol.ok.pools.cont (g.pool l)).ttLines, by rwa [ConvFtl.PoolsOk, hmgmt],
      hcol.ok.wp⟩
  -- the pages of the line are free, all others keep their state
  have hlive : ∀ q, Live g (fun _ => False) (f.withLines lines mgmt) q ↔
      Live g (visited g l (g.flashpgsPerBlk (g.pool l) * g.nchs * g.luns * g.pgsPerFlashpg)) f q := by
    intro q
    by_cases hq : g.Valid q
    · by_cases hl : q.blk = l
      · refine iff_of_false ?_ fun hlive => hlive.2.2 (hvisited q hq hl)
        rintro ⟨-, hs, -⟩
        have hfree := (hline.freeLine (lines l) (w (g.pool l)) (by simp [lines])
          (by simp [lines]) (by simp [lines]) hfreed).status_free hq.mem_dies (by
            have := hq.pg
            rwa [hl] at this)
        rw [← hl, ← hq.addr_eq] at hfree
        have hs' : (f.ssd.blk q.addr).statusAt q.pg = .valid := hs
        rw [hfree] at hs'
        cases hs'
      · have hnot : ¬ visited g l
            (g.flashpgsPerBlk (g.pool l) * g.nchs * g.luns * g.pgsPerFlashpg) q :=
          fun hv => hl hv.1
        exact and_congr_right fun _ => and_congr_right fun _ =>
          iff_of_true (fun hf => hf.elim) hnot
    · exact iff_of_false (fun h' => hq h'.1) fun h' => hq h'.1
  have hcount : liveCount g l
      (visited g l (g.flashpgsPerBlk (g.pool l) * g.nchs * g.luns * g.pgsPerFlashpg)) f = 0 :=
    liveCount_eq_zero fun q hl hlive => hlive.2.2 (hvisited q hlive.1 hl)
  have hbal := hcol.balance
  rw [hcount] at hbal
  rw [hrun]
  refine ⟨Function.update cls l .free, w, ⟨hok, hcol.maps.congr rfl rfl hlive, ?_⟩,
    ⟨h.kept.wfc, h.kept.wp, ?_, ?_, h.kept.dyn⟩⟩
  · intro l' hl' hc
    by_cases he : l' = l
    · rw [he, Function.update_self] at hc
      cases hc
    · rw [Function.update_of_ne he] at hc
      exact he (hcol.only l' hl' hc)
  · rw [← h.kept.slm]
    by_cases hpool : g.pool l = .slc
    · rw [if_pos hpool]
      show mgmt .slc = _
      simp only [mgmt, hpool, Function.update_self]
      rfl
    · rw [if_neg hpool]
      exact Function.update_of_ne (Ne.symm hpool) ..
  · have hlen : (f.withLines lines mgmt).lm.freeLineList.length =
        f.lm.freeLineList.length + if g.pool l = .tlc then 1 else 0 := by
      by_cases hpool : g.pool l = .tlc
      · rw [if_pos hpool]
        show (mgmt .tlc).freeLineList.length = _
        simp only [mgmt, hpool, Function.update_self, LineMgmt.putFree, List.length_append,
          List.length_singleton]
        rfl
      · rw [if_neg hpool]
        show (mgmt .tlc).freeLineList.length = _
        rw [show mgmt .tlc = f.mgmt .tlc from Function.update_of_ne (Ne.symm hpool) ..]
        rfl
    unfold room at hbal ⊢
    rw [hlen]
    by_cases hpool : g.pool l = .tlc
    · rw [if_pos hpool, if_pos hpool, Nat.succ_mul]
      omega
    · rw [if_neg hpool, if_neg hpool]
      simpa using hbal

end NvmeVirt
