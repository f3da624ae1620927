import NvmeVirt.Conv.Migrate

/-!
# Writing a page

The loop body of `conv_write` on one instance: the old page becomes invalid, a new page
takes the logical page, and the credits may run out. Between the first two steps the
logical page is mapped to an invalid page; the maps are inverse again after the second.
-/

namespace NvmeVirt

open Checked

variable {g : Geometry} {cls : Nat → LineClass} {w : LineMode → Nat} {f f' f₁ : ConvFtl}
  {lpn : Nat} {p : Ppa}

/-! ## The old page -/

/-- The lines with another modification time of the line `l`. -/
theorem ConvFtl.Ok.setMtime (h : f.Ok g cls w) (l now : Nat) :
    (f.setLine l { f.lines l with mtime := now }).Ok g cls w := by
  have hline : ∀ l', (f.setLine l { f.lines l with mtime := now }).lines l' =
      { f.lines l' with
        mtime := ((f.setLine l { f.lines l with mtime := now }).lines l').mtime } := by
    intro l'
    by_cases he : l' = l
    · subst he
      simp [ConvFtl.setLine]
    · simp [ConvFtl.setLine, he]
  refine ⟨⟨h.static.fits, h.static.slcMode, h.static.cp, h.static.slmLines⟩, ⟨fun l' hl' => ?_,
    fun m => ?_⟩, h.wp⟩
  · refine (h.pools.line l' hl').congr ?_ ?_ ?_ fun _ => rfl
    all_goals rw [hline l']
  · refine (h.pools.cont m).congr (fun _ _ => rfl) fun l' _ => ?_
    rw [hline l']

/-- What invalidating the old page of `lpn` does. -/
structure Invalidated (g : Geometry) (lpn : Nat) (f f' : ConvFtl) : Prop where
  maptbl : f'.maptbl = f.maptbl
  rmap : ∀ q, g.Valid q → f.maptbl lpn ≠ some q → f'.rmap (g.pgidx q) = f.rmap (g.pgidx q)
  status : ∀ q, g.Valid q →
    f'.status q = if f.maptbl lpn = some q then .invalid else f.status q
  wfc : f'.wfc = f.wfc
  poolWp : f'.poolWp = f.poolWp
  free : ∀ m, (f'.mgmt m).freeLineList = (f.mgmt m).freeLineList

/-- The first part of the loop body of `conv_write`. -/
theorem ConvFtl.Idle.invalidateOld (h : f.Idle g cls w) (hpos : 0 < g.oneshots) (lpn : Nat) :
    ∃ f' cls', f.invalidateOld lpn = .ok f' ∧ f'.Ok g cls' w ∧ SameCollecting g cls cls' ∧
      Invalidated g lpn f f' := by
  cases hmap : f.maptbl lpn with
  | none =>
    refine ⟨f, cls, ?_, h.ok, fun _ _ => Iff.rfl, rfl, fun _ _ _ => rfl, fun q _ => ?_, rfl, rfl,
      fun _ => rfl⟩
    · simp only [ConvFtl.invalidateOld, ConvFtl.getMaptblEnt, hmap]
    · rw [hmap, if_neg nofun]
  | some p =>
    have hst := h.ok.static
    obtain ⟨hp, hs, -⟩ := (h.maps.inverse.live_of_fwd lpn p hmap).1
    obtain ⟨lines, lm, hrun, hpools, hfree⟩ := h.ok.pools.markPageInvalid hst hp hs
      (h.settled _ hp.blk) fun m _ => ((h.ok.wp m).lt hpos).2
    let b := (f.ssd.getBlk p).invalidate p.pg
    let mgmt := Function.update f.mgmt (g.pool p.blk) lm
    let f₁ := { f with ssd := f.ssd.setBlk p b }.withLines lines mgmt
    have hmgmt : f₁.mgmt = mgmt := ConvFtl.withLines_mgmt _ lines mgmt
    have hlm : lm.ttLines = g.lines (g.pool p.blk) := by
      have := (hpools.cont (g.pool p.blk)).ttLines
      rwa [Function.update_self] at this
    have hst₁ : f₁.Static g :=
      ConvFtl.Static.update (f := { f with ssd := f.ssd.setBlk p b })
        ⟨hst.fits, hst.slcMode, hst.cp, hst.slmLines⟩ hlm
    let cls' := Function.update cls p.blk (LineOk.invalidClass (cls p.blk))
    have hok₁ : f₁.Ok g cls' w := ⟨hst₁, by
      rw [ConvFtl.PoolsOk, hmgmt]
      exact hpools, h.ok.wp⟩
    let f₂ : ConvFtl := { f₁ with rmap := Function.update f₁.rmap (g.pgidx p) invalidLpn }
    have hok₂ : f₂.Ok g cls' w :=
      ⟨⟨hst₁.fits, hst₁.slcMode, hst₁.cp, hst₁.slmLines⟩, hok₁.pools, hok₁.wp⟩
    have hset : f₁.setRmapEnt invalidLpn p = .ok f₂ := by
      simp only [ConvFtl.setRmapEnt, hst₁.ppa2pgidx hp, ok_bind]
      rfl
    let f₃ := f₂.ktimeGetNs.2
    have hok₃ : f₃.Ok g cls' w := hok₂.untracked
    refine ⟨_, cls', ?_, hok₃.setMtime (f₂.getLine p) f₂.ktimeGetNs.1, SameCollecting.update
      (h.settled _ hp.blk) ?_, rfl, fun q hq hne => ?_, fun q hq => ?_, rfl, rfl, fun m => ?_⟩
    · simp only [ConvFtl.invalidateOld, ConvFtl.getMaptblEnt, hmap, hrun, ok_bind]
      rw [show ConvFtl.setRmapEnt _ invalidLpn p = .ok f₂ from hset]
      rfl
    · have := h.settled _ hp.blk
      cases hcl : cls p.blk <;> simp_all [LineOk.invalidClass]
    · show Function.update f.rmap (g.pgidx p) invalidLpn (g.pgidx q) = _
      rw [Function.update_of_ne]
      intro he
      exact hne (hmap.trans (congrArg some (hp.pgidx_inj hq he.symm)))
    · have hstatus : f₁.status q = if q = p then .invalid else f.status q :=
        status_setBlk f.ssd rfl rfl (NandBlock.statusAt_invalidate (f.ssd.getBlk p) p.pg)
      rw [hmap]
      simp only [Option.some.injEq, eq_comm (a := p)]
      exact hstatus
    · show (f₁.mgmt m).freeLineList = _
      rw [hmgmt]
      by_cases he : m = g.pool p.blk
      · subst he
        simp only [mgmt, Function.update_self, hfree]
      · rw [show mgmt m = f.mgmt m from Function.update_of_ne he ..]

/-! ## The new page -/

/-- The maps are inverse again once the new page is placed. -/
theorem ConvFtl.Idle.remap {cls₁ cls' : Nat → LineClass} {w' : LineMode → Nat} {new : Ppa}
    (h : f.Idle g cls w) (hinv : Invalidated g lpn f f₁) (hlpn : lpn < g.ttPgs)
    (hpw : PageWritten g .slc lpn cls₁ w f₁ new cls' w' f') : MapOk g (fun _ => False) f' := by
  have hfree : f.maptbl lpn ≠ some new ∧ f.status new = .free := by
    have hs := hinv.status new hpw.valid
    rw [hpw.free] at hs
    split at hs
    · cases hs
    · exact ⟨‹_›, hs.symm⟩
  have hnew : ¬ Live g (fun _ => False) f new := by
    rintro ⟨-, hs, -⟩
    rw [hfree.2] at hs
    cases hs
  refine h.maps.remap hlpn hnew (by rw [hpw.maptbl, hinv.maptbl])
    (by rw [hpw.rmap, Function.update_self]) (fun q hq hne => ?_) fun q => ?_
  · rw [hpw.rmap, Function.update_of_ne, hinv.rmap q hq.1 hne]
    intro he
    exact hnew (hq.1.pgidx_inj hpw.valid he ▸ hq)
  · unfold Live
    by_cases hqn : q = new
    · subst hqn
      simp [hpw.status, hpw.valid]
    · rw [hpw.status q, if_neg hqn]
      simp only [hqn, false_or, not_false_iff, and_true]
      constructor
      · rintro ⟨hq, hs⟩
        rw [hinv.status q hq] at hs
        split at hs
        · cases hs
        · exact ⟨⟨hq, hs⟩, ‹_›⟩
      · rintro ⟨⟨hq, hs⟩, hne⟩
        rw [hinv.status q hq, if_neg hne]
        exact ⟨hq, hs⟩

/-- Programming a word line changes the timing state only. -/
theorem ConvFtl.programWordline_eq (f : ConvFtl) (swr : NandCmd) (p : Ppa) :
    ∃ π, (f.programWordline swr p).2 = f.untracked π f.gcCnt f.ageCnt f.wfc f.dynSlcMode := by
  unfold ConvFtl.programWordline
  split
  · exact ⟨_, rfl⟩
  · exact ⟨f.ssd.perf, rfl⟩

/-- A line of the SLC pool is closed when the write pointer leaves it. -/
theorem Advanced.hasClosedLine {w' : LineMode → Nat} (h : Advanced g .slc f f' w w')
    (hok : f.Ok g cls w) (hend : w .slc + 1 = g.pgsPerLine .slc) : f'.HasClosedLine g := by
  rcases h with ⟨hlt, -⟩ | ⟨-, -, hfree⟩
  · omega
  · have hcont := hok.pools.cont .slc
    obtain ⟨hm, hc⟩ := (hcont.current f.wp.blk).mp rfl
    have hnot : f.wp.blk ∉ (f.mgmt .slc).freeLineList := by
      intro hmem
      have := ((hcont.free _).mp hmem).2
      rw [hc] at this
      cases this
    rw [hfree, List.mem_cons, not_or] at hnot
    exact ⟨f.wp.blk, hm, hnot.2, hnot.1⟩

/-- The loop body of `conv_write` before the credits. -/
theorem ConvFtl.Idle.storePage (h : f.Idle g cls w) (hpos : 0 < g.oneshots) (hlpn : lpn < g.ttPgs)
    (swr : NandCmd) :
    Outcome (f.storePage swr lpn)
      (fun r => ∃ cls' w', r.2.Idle g cls' w' ∧ r.2.wfc = f.wfc ∧ Advanced g .slc f r.2 w w')
      (WriteFault g .slc w f) := by
  obtain ⟨f₁, cls₁, hrun, hok₁, hsame₁, hinv⟩ := h.invalidateOld hpos lpn
  simp only [ConvFtl.storePage, hrun, ok_bind, ConvFtl.writeNew]
  have hfault : ∀ e, WriteFault g .slc w f₁ e → WriteFault g .slc w f e := by
    intro e he
    unfold WriteFault at he ⊢
    rwa [hinv.poolWp, hinv.free] at he
  refine Outcome.bind (Q := fun r => ∃ cls' w', r.2.Idle g cls' w' ∧ r.2.wfc = f.wfc ∧
    Advanced g .slc f r.2 w w') ?_ ?_
  · refine ((hok₁.placePage hpos .slc hlpn).mono (fun _ h => h) fun e he =>
      hfault e (Or.inl he)).bind ?_
    rintro ⟨new, f₂⟩ ⟨hplaced, hst₂, hpools₂⟩
    refine ((hplaced.advance hok₁ hst₂ hpools₂ hpos).mono (fun _ h => h) hfault).bind ?_
    rintro f₃ ⟨cls', w', hpw⟩
    refine ⟨cls', w', ⟨hpw.ok, h.remap hinv hlpn hpw, fun l hl hc => ?_⟩,
      hpw.wfc.trans hinv.wfc, ?_⟩
    · exact h.settled l hl ((hsame₁ l hl).mp ((hpw.collecting l hl).mp hc))
    · have hadv := hpw.advanced
      unfold Advanced at hadv ⊢
      rwa [hinv.free, hinv.poolWp] at hadv
  · rintro ⟨new, f₃⟩ ⟨cls', w', hidle, hwfc, hadv⟩
    obtain ⟨π, hπ⟩ := f₃.programWordline_eq swr new
    refine ⟨cls', w', ?_, ?_, ?_⟩
    · rw [hπ]
      exact hidle.untracked
    · rw [hπ]
      exact hwfc
    · rw [hπ]
      exact hadv

end NvmeVirt
