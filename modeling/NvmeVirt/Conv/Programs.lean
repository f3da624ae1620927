import NvmeVirt.Conv.History

/-!
# Program commands

Every `NAND_WRITE` an instance issues completes a word line: `conv_write` issues it for a word
line of the SLC area, `gc_write_page` for one of the TLC area. The transfer of the second is
that of a TLC one-shot page. So is the transfer of the first, although the write buffer gets
back the bytes of an SLC one-shot page.
-/

namespace NvmeVirt

open Checked

variable {g : Geometry} {cls : Nat → LineClass} {w : LineMode → Nat} {f f' f₁ : ConvFtl}
  {p : Ppa} {l : Nat}

/-! ## The garbage collector -/

/-- A program command for a word line of the TLC area. -/
structure NandCmd.GcProgram (spp : Ssdparams) (c : NandCmd) : Prop where
  type : c.type = .gc
  ppa : ∃ p, c.ppa = some p ∧ spp.ttLinesSlc ≤ p.blk
  xferSize : c.xferSize = spp.pgsz * spp.pgsPerOneshotpg

/-- The block number `b` belongs to the TLC area. -/
def ConvFtl.InTlc (f : ConvFtl) (b : Nat) : Prop := f.ssd.sp.ttLinesSlc ≤ b ∧ b < 2 ^ blkBits

/-- Whatever line the garbage collector writes to next, it is one of the TLC area. -/
structure ConvFtl.AimsTlc (f : ConvFtl) : Prop where
  slcMode : f.slcMode = .slc
  blk : f.InTlc f.gcWp.blk
  free : ∀ l ∈ f.lm.freeLineList, f.InTlc (f.lines l).id

/-- From `f` to `f'` the only programs issued are those of the garbage collector. -/
structure GcIssued (f f' : ConvFtl) : Prop where
  sp : f'.ssd.sp = f.ssd.sp
  issued : ∃ cs, f'.ssd.perf.issued = f.ssd.perf.issued ++ cs ∧
    ∀ c ∈ cs, c.cmd = .write → c.GcProgram f.ssd.sp

theorem GcIssued.silent (hsp : f'.ssd.sp = f.ssd.sp)
    (hissued : f'.ssd.perf.issued = f.ssd.perf.issued) : GcIssued f f' :=
  ⟨hsp, [], by rw [hissued, List.append_nil], by simp⟩

theorem GcIssued.trans (h : GcIssued f f₁) (h' : GcIssued f₁ f') : GcIssued f f' := by
  obtain ⟨cs, hcs, hgc⟩ := h.issued
  obtain ⟨cs', hcs', hgc'⟩ := h'.issued
  refine ⟨h'.sp.trans h.sp, cs ++ cs', ?_, fun c hc hw => ?_⟩
  · rw [hcs', hcs, List.append_assoc]
  · rcases List.mem_append.mp hc with hc | hc
    · exact hgc c hc hw
    · rw [← h.sp]
      exact hgc' c hc hw

/-- While a line is collected the garbage collector keeps its aim. -/
structure GcTrace (f f' : ConvFtl) : Prop extends GcIssued f f' where
  aims : f'.AimsTlc

theorem GcTrace.refl (h : f.AimsTlc) : GcTrace f f := ⟨.silent rfl rfl, h⟩

theorem GcTrace.trans (h : GcTrace f f₁) (h' : GcTrace f₁ f') : GcTrace f f' :=
  ⟨h.toGcIssued.trans h'.toGcIssued, h'.aims⟩

/-- A step that issues nothing. -/
theorem GcTrace.silent (hsp : f'.ssd.sp = f.ssd.sp) (haims : f'.AimsTlc)
    (hperf : f'.ssd.perf = f.ssd.perf) : GcTrace f f' :=
  ⟨.silent hsp (by rw [hperf]), haims⟩

/-- Charging a command issues it, if anything. -/
theorem GcTrace.gcDelay {c : NandCmd} (h : f.AimsTlc) (hc : c.cmd = .write → c.GcProgram f.ssd.sp) :
    GcTrace f (f.gcDelay c) := by
  unfold ConvFtl.gcDelay
  split
  · refine ⟨⟨rfl, [c], ssdAdvanceNand_issued .., fun c' hc' => ?_⟩, h.slcMode, h.blk, h.free⟩
    rw [List.mem_singleton.mp hc']
    exact hc
  · exact .refl h

/-- Closing a line of the TLC pool keeps the numbers of all lines. -/
theorem ConvFtl.AimsTlc.closeLine (h : f.AimsTlc) (hr : f.closeLine .tlc l = .ok f') :
    GcTrace f f' := by
  unfold ConvFtl.closeLine at hr
  dsimp only at hr
  split at hr
  · simp only [bind_eq_ok] at hr
    obtain ⟨_, -, hr⟩ := hr
    cases hr
    exact .silent rfl ⟨h.slcMode, h.blk, h.free⟩ rfl
  · simp only [bind_eq_ok] at hr
    obtain ⟨_, -, _, -, _, -, hr⟩ := hr
    cases hr
    refine .silent rfl ⟨h.slcMode, h.blk, fun l' hl' => ?_⟩ rfl
    have hid := @Pqueue.insert_frame _ _ _ victimLine (fun lines => (lines l').id)
      (fun s a j => (victimLine_setpos_fields s a j l').2.2) f.lm.victimLinePq f.lines l
    change f.InTlc ((f.lm.victimLinePq.insert victimLine f.lines l).2 l').id
    rw [hid]
    exact h.free l' hl'

/-- The next line of the garbage collector comes from the TLC pool. -/
theorem ConvFtl.AimsTlc.openLine {wp : WritePointer} (h : f.AimsTlc)
    (hr : f.openLine .gc wp = .ok f') : GcTrace f f' := by
  simp only [ConvFtl.openLine, ConvFtl.getNextFreeLine, h.slcMode, bind_eq_ok] at hr
  obtain ⟨_, -, hr⟩ := hr
  simp only [reduceCtorEq, and_false, if_false, ConvFtl.mgmt] at hr
  cases hfree : f.lm.freeLineList with
  | nil =>
    rw [hfree] at hr
    cases hr
  | cons l rest =>
    rw [hfree] at hr
    simp only [bind_eq_ok] at hr
    obtain ⟨_, -, _, -, hr⟩ := hr
    cases hr
    have hmem := fun l' (hl' : l' ∈ rest) => h.free l' (hfree ▸ List.mem_cons_of_mem l hl')
    exact .silent rfl ⟨rfl, h.free l (hfree ▸ List.mem_cons_self ..), hmem⟩ rfl

/-- The pointer moves inside its line without leaving its block. -/
theorem nextPage_blk {spp : Ssdparams} {pgsPerBlk pgsPerOneshotpg : Int} {wp : WritePointer}
    {r : WritePointer × Bool} (hr : ConvFtl.nextPage spp pgsPerBlk pgsPerOneshotpg wp = .ok r) :
    r.1.blk = wp.blk := by
  simp only [ConvFtl.nextPage, bind_eq_ok] at hr
  obtain ⟨_, -, hr⟩ := hr
  split at hr
  · cases hr
    rfl
  simp only [bind_eq_ok] at hr
  obtain ⟨_, -, hr⟩ := hr
  split at hr
  · cases hr
    rfl
  simp only [bind_eq_ok] at hr
  obtain ⟨_, -, hr⟩ := hr
  split at hr
  · cases hr
    rfl
  split at hr
  · cases hr
    rfl
  · cases hr
    rfl

/-- `advance_write_pointer` of the garbage collector. -/
theorem ConvFtl.AimsTlc.advanceWritePointer (h : f.AimsTlc)
    (hr : f.advanceWritePointer .gc = .ok f') : GcTrace f f' := by
  have hpool : f.ioPool .gc = .tlc := by simp only [ConvFtl.ioPool, h.slcMode]
  simp only [ConvFtl.advanceWritePointer, hpool, bind_eq_ok] at hr
  obtain ⟨⟨wp, usedUp⟩, hnext, hr⟩ := hr
  have hset : GcTrace f (f.setWp .gc wp) := by
    refine .silent rfl ⟨h.slcMode, ?_, h.free⟩ rfl
    show f.InTlc wp.blk
    rw [show wp.blk = f.gcWp.blk from nextPage_blk hnext]
    exact h.blk
  split at hr
  · simp only [bind_eq_ok] at hr
    obtain ⟨f₂, hclose, hopen⟩ := hr
    have hclosed := hset.aims.closeLine hclose
    exact (hset.trans hclosed).trans (hclosed.aims.openLine hopen)
  · cases hr
    exact hset

/-- The page the garbage collector writes to lies in the TLC area. -/
theorem ConvFtl.AimsTlc.placePage {lpn : Nat} (h : f.AimsTlc)
    (hr : f.placePage .gc lpn = .ok (p, f')) : GcTrace f f' ∧ f.ssd.sp.ttLinesSlc ≤ p.blk := by
  simp only [ConvFtl.placePage, ConvFtl.getNewPage, ConvFtl.setMaptblEnt, ConvFtl.setRmapEnt,
    ConvFtl.markPageValid, ConvFtl.validateBlkPage, ConvFtl.validateLine, bind_eq_ok] at hr
  obtain ⟨_, ⟨_, -, hp⟩, _, ⟨_, -, hf₁⟩, _, ⟨_, -, hf₂⟩, _, ⟨_, ⟨_, -, _, -, _, -, hf₃⟩, _, -, hf₄⟩,
    hf₅⟩ := hr
  cases hp
  cases hf₁
  cases hf₂
  cases hf₃
  cases hf₄
  cases hf₅
  refine ⟨.silent rfl ⟨h.slcMode, h.blk, fun l' hl' => ?_⟩ rfl, ?_⟩
  · refine (congrArg f.InTlc (?_ : _ = (f.lines l').id)).mpr (h.free l' hl')
    dsimp only [ConvFtl.setLine]
    rw [Function.update_apply]
    split
    · subst l'
      rfl
    · rfl
  · show f.ssd.sp.ttLinesSlc ≤ ((f.gcWp.blk % 2 ^ blkBits : Nat) : Int)
    rw [Nat.mod_eq_of_lt h.blk.2]
    exact h.blk.1

/-- `gc_write_page` issues a program when the new page completes a word line. -/
theorem ConvFtl.AimsTlc.gcWritePage (h : f.AimsTlc) (hr : f.gcWritePage p = .ok f') :
    GcTrace f f' := by
  simp only [ConvFtl.gcWritePage, bind_eq_ok] at hr
  obtain ⟨lpn, -, _, -, ⟨new, f₁⟩, hplace, f₂, hadv, hr⟩ := hr
  obtain ⟨htrace₁, hnew⟩ := h.placePage hplace
  have haims₁ := htrace₁.aims
  have hcopy : GcTrace f₁ { f₁ with copyCnt := f₁.copyCnt + 1 } :=
    .silent rfl ⟨haims₁.slcMode, haims₁.blk, haims₁.free⟩ rfl
  have htrace₂ := (htrace₁.trans hcopy).trans (hcopy.aims.advanceWritePointer hadv)
  cases hr
  refine htrace₂.trans (.gcDelay htrace₂.aims fun hw => ?_)
  rw [htrace₂.sp] at hw ⊢
  dsimp only at hw
  split at hw
  · rename_i hlast
    exact ⟨rfl, ⟨new, rfl, hnew⟩, by dsimp only; rw [if_pos hlast]⟩
  · cases hw

theorem ConvFtl.AimsTlc.cleanOneFlashpg (h : f.AimsTlc) :
    Outcome (f.cleanOneFlashpg p) (GcTrace f) fun _ => True := by
  apply Outcome.of_forall_ok
  intro f' hr
  simp only [ConvFtl.cleanOneFlashpg, bind_eq_ok] at hr
  obtain ⟨_, -, cnt, -, hr⟩ := hr
  split at hr
  · cases hr
    exact .refl h
  · refine (outcome_foldlM_const (E := fun _ => True) (GcTrace f) (fun i _ f₁ h₁ => ?_) _ ?_).of_ok hr
    · apply Outcome.of_forall_ok
      intro f₂ hr₂
      simp only [ConvFtl.cleanPage, bind_eq_ok] at hr₂
      obtain ⟨pg, -, hr₂⟩ := hr₂
      split at hr₂
      · exact h₁.trans (h₁.aims.gcWritePage hr₂)
      · cases hr₂
        exact h₁
    · refine .gcDelay h fun hw => ?_
      cases hw

/-- The innermost body of the loops of `do_gc`. -/
theorem ConvFtl.AimsTlc.gcBody (h : f.AimsTlc) (blk flashpgs : Nat) (io : IoType)
    (flashpg ch lun : Nat) :
    Outcome (ConvFtl.gcBody blk flashpgs io flashpg ch lun f) (GcTrace f) fun _ => True := by
  unfold ConvFtl.gcBody
  apply h.cleanOneFlashpg.bind
  intro f₁ h₁
  split
  · apply Outcome.of_forall_ok
    intro f' hr
    simp only [ConvFtl.markBlockFree, bind_eq_ok] at hr
    obtain ⟨_, ⟨_, -, _, -, _, -, hf₂⟩, hr⟩ := hr
    cases hf₂
    cases hr
    have haims := h₁.aims
    refine (h₁.trans ?_).trans (.gcDelay ⟨haims.slcMode, haims.blk, haims.free⟩ fun hw => ?_)
    · exact .silent rfl ⟨haims.slcMode, haims.blk, haims.free⟩ rfl
    · cases hw
  · exact h₁

/-- The loops of `do_gc`. -/
theorem ConvFtl.AimsTlc.gcLoop (h : f.AimsTlc) (blk flashpgs : Nat) (io : IoType) :
    Outcome (f.gcLoop blk flashpgs io) (GcTrace f) fun _ => True := by
  unfold ConvFtl.gcLoop
  refine outcome_foldlM_const (GcTrace f) (fun flashpg _ f₁ h₁ => ?_) f (.refl h)
  refine outcome_foldlM_const (GcTrace f) (fun ch _ f₂ h₂ => ?_) f₁ h₁
  refine outcome_foldlM_const (GcTrace f) (fun lun _ f₃ h₃ => ?_) f₂ h₂
  exact (h₃.aims.gcBody blk flashpgs io flashpg ch lun).mono (fun _ h => h₃.trans h) fun _ h => h

/-- The garbage collector of an instance aims at its TLC pool. -/
theorem ConvFtl.Ok.aimsTlc (h : f.Ok g cls w) : f.AimsTlc := by
  have hslc := h.static.fits.ttLinesSlc
  have htlc : ∀ l, g.HasLine .tlc l → f.InTlc l := fun l hl =>
    ⟨by rw [hslc]; exact_mod_cast hl.1, g.hasLine_lt hl⟩
  refine ⟨h.static.slcMode, htlc _ (h.wp .tlc).line, fun l hl => ?_⟩
  obtain ⟨hm, -⟩ := ((h.pools.cont .tlc).free l).mp hl
  rw [(h.pools.line l (g.hasLine_iff.mp hm).1).id]
  exact htlc l hm

theorem ConvFtl.Ok.collectLine_issued (h : f.Ok g cls w) (l : Nat) :
    Outcome (f.collectLine l) (GcIssued f) fun _ => True := by
  have haims := h.aimsTlc
  have hrefill : ∀ wfc, GcTrace f { f with wfc := wfc } := fun _ =>
    .silent rfl ⟨haims.slcMode, haims.blk, haims.free⟩ rfl
  unfold ConvFtl.collectLine
  dsimp only
  refine ((hrefill _).aims.gcLoop _ _ _).bind fun f₁ h₁ => ?_
  refine ((hrefill _).trans h₁).toGcIssued.trans (.silent ?_ ?_)
  · simp only [ConvFtl.markLineFree, ConvFtl.setLine]
    cases f₁.ppaPool _ <;> rfl
  · simp only [ConvFtl.markLineFree, ConvFtl.setLine]
    cases f₁.ppaPool _ <;> rfl

/-- Choosing a victim issues nothing. -/
theorem selectVictimLine_issued (f : ConvFtl) :
    Outcome f.selectVictimLine (fun r => GcIssued f r.2) fun _ => True := by
  refine f.selectVictimLine_touches.mono ?_ fun _ h => h
  rintro ⟨_, f'⟩ ⟨_, _, _, _, _, rfl⟩
  exact .silent rfl rfl

theorem selectVictimLineSlc_issued (f : ConvFtl) (force : Bool) :
    GcIssued f (f.selectVictimLineSlc force).2 := by
  obtain ⟨_, _, heq⟩ := f.selectVictimLineSlc_touches force
  rw [heq]
  exact .silent rfl rfl

/-- `do_gc` on an idle instance. -/
theorem ConvFtl.Idle.doGc_issued (h : f.Idle g cls w) :
    Outcome (f.doGc true) (GcIssued f) fun _ => True := by
  unfold ConvFtl.doGc
  cases hdyn : f.dynSlcMode with
  | slc =>
    have hissued := selectVictimLineSlc_issued f true
    rcases h.selectVictimLineSlc with ⟨hrun, -⟩ | ⟨l, f₁, hrun, htaken⟩
    · rw [hrun]
      exact .silent rfl rfl
    · rw [hrun] at hissued ⊢
      exact (htaken.collecting.ok.collectLine_issued l).mono (fun _ hf => hissued.trans hf) fun _ h => h
  | tlc =>
    have hsel := (selectVictimLine_issued f).and h.selectVictimLine
    dsimp only
    cases hr : f.selectVictimLine with
    | error e => trivial
    | ok r =>
      rw [hr] at hsel
      obtain ⟨hissued, hsel⟩ := hsel
      obtain ⟨victim, f₁⟩ := r
      have hcnt : GcIssued f { f₁ with gcCnt := f₁.gcCnt + 1 } := hissued.trans (.silent rfl rfl)
      rcases hsel with ⟨hnone, -⟩ | ⟨l, hl, htaken⟩
      · obtain rfl : victim = none := hnone
        exact hcnt
      · obtain rfl : victim = some l := hl
        have hok : ({ f₁ with gcCnt := f₁.gcCnt + 1 } : ConvFtl).Ok g _ w :=
          htaken.collecting.ok.untracked
        exact (hok.collectLine_issued l).mono (fun _ hf => hcnt.trans hf) fun _ h => h

theorem gcIssued_dyn (f : ConvFtl) (m : LineMode) : GcIssued f { f with dynSlcMode := m } :=
  .silent rfl rfl

/-- `foreground_gc` on an idle instance. -/
theorem ConvFtl.Idle.foregroundGc_issued (h : f.Idle g cls w) (hpos : 0 < g.oneshots) :
    Outcome f.foregroundGc (GcIssued f) fun _ => True := by
  unfold ConvFtl.foregroundGc
  split
  swap
  · exact .silent rfl rfl
  have hgc : Outcome f.gcHigh (fun f₁ => GcIssued f f₁ ∧ ∃ cls₁ w₁, f₁.Idle g cls₁ w₁)
      fun _ => True := by
    unfold ConvFtl.gcHigh
    split
    · have h₀ : ({ f with dynSlcMode := .tlc } : ConvFtl).Idle g cls w := h.untracked
      refine (h₀.doGc_issued.and (h₀.doGc_tlc rfl hpos)).mono ?_ fun _ _ => trivial
      rintro f₁ ⟨hissued, cls₁, w₁, hidle, -⟩
      exact ⟨(gcIssued_dyn f .tlc).trans hissued, cls₁, w₁, hidle⟩
    · exact ⟨.silent rfl rfl, cls, w, h⟩
  apply hgc.bind
  rintro f₁ ⟨hissued, cls₁, w₁, h₁⟩
  split
  · have h₂ : ({ f₁ with dynSlcMode := .slc } : ConvFtl).Idle g cls₁ w₁ := h₁.untracked
    refine h₂.doGc_issued.mono (fun f' hf => ?_) fun _ h => h
    exact (hissued.trans (gcIssued_dyn f₁ .slc)).trans hf
  · exact hissued

/-! ## A page write -/

/-- From `f` to `f'` no command is issued and the parameters stay. -/
structure NoCommand (f f' : ConvFtl) : Prop where
  sp : f'.ssd.sp = f.ssd.sp
  issued : f'.ssd.perf.issued = f.ssd.perf.issued

theorem NoCommand.trans (h : NoCommand f f₁) (h' : NoCommand f₁ f') : NoCommand f f' :=
  ⟨h'.sp.trans h.sp, h'.issued.trans h.issued⟩

/-- Page states and counters are not part of the record. -/
theorem noCommand_placePage {io : IoType} {lpn : Nat}
    (hr : f.placePage io lpn = .ok (p, f')) : f.getNewPage io = .ok p ∧ NoCommand f f' := by
  simp only [ConvFtl.placePage, ConvFtl.setMaptblEnt, ConvFtl.setRmapEnt, ConvFtl.markPageValid,
    ConvFtl.validateBlkPage, ConvFtl.validateLine, bind_eq_ok] at hr
  obtain ⟨p, hp, _, ⟨_, -, hf₁⟩, _, ⟨_, -, hf₂⟩, _, ⟨_, ⟨_, -, _, -, _, -, hf₃⟩, _, -, hf₄⟩,
    hf₅⟩ := hr
  cases hf₁
  cases hf₂
  cases hf₃
  cases hf₄
  cases hf₅
  exact ⟨hp, rfl, rfl⟩

theorem fixed_ssd : ConvFtl.Fixed ConvFtl.ssd :=
  ⟨fun _ io _ => by cases io <;> rfl, fun _ m _ => by cases m <;> rfl, fun _ _ => rfl,
    fun _ _ => rfl⟩

theorem noCommand_advanceWritePointer {io : IoType} (hr : f.advanceWritePointer io = .ok f') :
    NoCommand f f' := by
  have hssd := fixed_ssd.advanceWritePointer hr
  exact ⟨by rw [hssd], by rw [hssd]⟩

theorem noCommand_markPageInvalid (hr : f.markPageInvalid p = .ok f') : NoCommand f f' := by
  simp only [ConvFtl.markPageInvalid, ConvFtl.invalidateBlkPage, ConvFtl.invalidateLine,
    bind_eq_ok] at hr
  obtain ⟨_, -, f₁, ⟨_, -, _, -, _, -, _, -, hf₁⟩, _, -, _, -, _, -, hr⟩ := hr
  cases hf₁
  have hssd : f'.ssd.sp = f.ssd.sp ∧ f'.ssd.perf = f.ssd.perf := by
    split at hr
    · rw [fixed_ssd.fullToVictim hr, fixed_ssd.decLineVpc]
      exact ⟨rfl, rfl⟩
    · cases hr
      rw [fixed_ssd.decLineVpc]
      exact ⟨rfl, rfl⟩
  exact ⟨hssd.1, by rw [hssd.2]⟩

theorem noCommand_invalidateOld {lpn : Nat} (hr : f.invalidateOld lpn = .ok f') :
    NoCommand f f' := by
  unfold ConvFtl.invalidateOld at hr
  split at hr
  · cases hr
    exact ⟨rfl, rfl⟩
  · simp only [ConvFtl.setRmapEnt, bind_eq_ok] at hr
    obtain ⟨f₁, hinv, _, ⟨_, -, hf₂⟩, hr⟩ := hr
    cases hf₂
    cases hr
    exact (noCommand_markPageInvalid hinv).trans ⟨rfl, rfl⟩

theorem ConvFtl.advanceNand_issued (f : ConvFtl) (c : NandCmd) :
    (f.advanceNand c).2.ssd.perf.issued = f.ssd.perf.issued ++ [c] :=
  ssdAdvanceNand_issued ..

/-- The next page that `conv_write` takes is the last of its word line. -/
def ConvFtl.CompletesWordline (f : ConvFtl) : Prop :=
  ∃ p, f.getNewPage .user = .ok p ∧ f.lastPgInWordline .slc p = true

/-- A program command of `conv_write`. -/
def NandCmd.HostProgram (c : NandCmd) : Prop := c.type = .user ∧ c.cmd = .write

/-- The page that `conv_write` writes lies in the SLC area. -/
theorem ConvFtl.Ok.getNewPage_slc (h : f.Ok g cls w) (hp : f.getNewPage .user = .ok p) :
    (p.blk : Int) < f.ssd.sp.ttLinesSlc := by
  have hline : g.HasLine .slc f.wp.blk := (h.wp .slc).line
  simp only [ConvFtl.getNewPage, bind_eq_ok] at hp
  obtain ⟨_, -, hp⟩ := hp
  cases hp
  show ((f.wp.blk % 2 ^ blkBits : Nat) : Int) < _
  rw [Nat.mod_eq_of_lt (g.hasLine_lt hline), h.static.fits.ttLinesSlc]
  have := hline.2
  simp only [Geometry.base] at this
  omega

/-- The loop body of `conv_write` before the credits: it issues a program exactly when the page
completes a word line. -/
theorem ConvFtl.Idle.storePage_issued {swr : NandCmd} {lpn : Nat} {completed : Option Nat}
    (h : f.Idle g cls w) (hpos : 0 < g.oneshots) (hlpn : lpn < g.ttPgs)
    (hr : f.storePage swr lpn = .ok (completed, f')) :
    f'.ssd.sp = f.ssd.sp ∧
      ((¬ f.CompletesWordline ∧ completed = none ∧ f'.ssd.perf.issued = f.ssd.perf.issued) ∨
      (f.CompletesWordline ∧ (∃ t, completed = some t) ∧
        ∃ p, (p.blk : Int) < f.ssd.sp.ttLinesSlc ∧
          f'.ssd.perf.issued = f.ssd.perf.issued ++ [{ swr with ppa := some p }])) := by
  obtain ⟨cls', w', h', -⟩ := (h.storePage hpos hlpn swr).of_ok hr
  have hmode : f'.slcMode = .slc := h'.ok.static.slcMode
  obtain ⟨f₁, cls₁, hold, -, -, hinv⟩ := h.invalidateOld hpos lpn
  simp only [ConvFtl.storePage, hold, ok_bind, ConvFtl.writeNew, bind_eq_ok] at hr
  obtain ⟨_, ⟨⟨p, f₂⟩, hplace, f₃, hadv, hpair⟩, hprog⟩ := hr
  cases hpair
  obtain ⟨hnew, hquiet⟩ := noCommand_placePage hplace
  have hall : NoCommand f f₃ :=
    (noCommand_invalidateOld hold).trans (hquiet.trans (noCommand_advanceWritePointer hadv))
  have hwp : f₁.wp = f.wp := congrFun hinv.poolWp .slc
  have hnew : f.getNewPage .user = .ok p := by
    rw [← hnew]
    unfold ConvFtl.getNewPage
    rw [show f₁.getWp .user = f.getWp .user from hwp]
  obtain ⟨π, hπ⟩ := f₃.programWordline_eq swr p
  have hprog : f₃.programWordline swr p = (completed, f') := Except.ok.inj hprog
  have hπ : f' = f₃.untracked π f₃.gcCnt f₃.ageCnt f₃.wfc f₃.dynSlcMode := by rw [← hπ, hprog]
  have hmode₃ : f₃.slcMode = .slc := by
    rw [← hmode, hπ]
    rfl
  have hlast : f₃.lastPgInWordline (f₃.ioPool .user) p = f.lastPgInWordline .slc p := by
    simp only [ConvFtl.ioPool, hmode₃, ConvFtl.lastPgInWordline, hall.sp]
  have hiff : f.CompletesWordline ↔ f.lastPgInWordline .slc p = true := by
    constructor
    · rintro ⟨q, hq, hl⟩
      rw [hnew] at hq
      cases hq
      exact hl
    · exact fun hl => ⟨p, hnew, hl⟩
  refine ⟨by rw [← hall.sp, hπ]; rfl, ?_⟩
  rw [ConvFtl.programWordline, hlast] at hprog
  split at hprog
  · rename_i hl
    let c : NandCmd := { swr with ppa := some p }
    have hres : (some (f₃.advanceNand c).1, (f₃.advanceNand c).2) = (completed, f') := hprog
    obtain ⟨ht, hf⟩ := Prod.mk.inj hres
    refine Or.inr ⟨hiff.mpr hl, ⟨_, ht.symm⟩, p, h.ok.getNewPage_slc hnew, ?_⟩
    rw [← hall.issued, ← hf]
    exact f₃.advanceNand_issued _
  · rename_i hl
    cases hprog
    exact Or.inl ⟨fun hc => hl (hiff.mp hc), rfl, hall.issued⟩

/-- The loop body of `conv_write`: the commands it issues. -/
theorem ConvFtl.Idle.writePage_issued {swr : NandCmd} {lpn : Nat} {completed : Option Nat}
    (h : f.Idle g cls w) (hpos : 0 < g.oneshots) (hlpn : lpn < g.ttPgs)
    (hr : f.writePage swr lpn = .ok (completed, f')) :
    f'.ssd.sp = f.ssd.sp ∧ ∃ cs, (∀ c ∈ cs, c.cmd = .write → c.GcProgram f.ssd.sp) ∧
      ((¬ f.CompletesWordline ∧ completed = none ∧
        f'.ssd.perf.issued = f.ssd.perf.issued ++ cs) ∨
      (f.CompletesWordline ∧ (∃ t, completed = some t) ∧
        ∃ p, (p.blk : Int) < f.ssd.sp.ttLinesSlc ∧
          f'.ssd.perf.issued = f.ssd.perf.issued ++ { swr with ppa := some p } :: cs)) := by
  simp only [ConvFtl.writePage, bind_eq_ok] at hr
  obtain ⟨⟨completed', f₁⟩, hstore, f₂, hcheck, hpair⟩ := hr
  cases hpair
  obtain ⟨hsp, hissued⟩ := h.storePage_issued hpos hlpn hstore
  obtain ⟨cls₁, w₁, h₁, -⟩ := (h.storePage hpos hlpn swr).of_ok hstore
  have hcons : f₁.consumeWriteCredit.Idle g cls₁ w₁ := h₁.untracked
  have hgc : GcIssued f₁.consumeWriteCredit f' := by
    unfold ConvFtl.checkAndRefillWriteCredit at hcheck
    split at hcheck
    · simp only [bind_eq_ok] at hcheck
      obtain ⟨f₂, hfg, hrefill⟩ := hcheck
      cases hrefill
      exact ((hcons.foregroundGc_issued hpos).of_ok hfg).trans (.silent rfl rfl)
    · cases hcheck
      exact .silent rfl rfl
  obtain ⟨cs, hcs, hall⟩ := hgc.issued
  have hcs : f'.ssd.perf.issued = f₁.ssd.perf.issued ++ cs := hcs
  have hsp' : f'.ssd.sp = f₁.ssd.sp := hgc.sp
  refine ⟨hsp'.trans hsp, cs, fun c hc hw => ?_, ?_⟩
  · rw [← hsp]
    exact hall c hc hw
  · rcases hissued with ⟨hno, hnone, heq⟩ | ⟨hyes, hsome, p, hp, heq⟩
    · exact Or.inl ⟨hno, hnone, by rw [hcs, heq]⟩
    · exact Or.inr ⟨hyes, hsome, p, hp, by rw [hcs, heq, List.append_assoc]; rfl⟩

end NvmeVirt
