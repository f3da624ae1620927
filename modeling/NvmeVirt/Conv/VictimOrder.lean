import NvmeVirt.Conv.Policy
import NvmeVirt.Pqueue.Heap

/-!
# The victim queues are heaps

Every change of the valid pages of a queued line goes through its queue, so the victim queues of
both pools are heaps between any two calls, whatever is written. A line that is migrated has
therefore the fewest valid pages of all closed lines of the SLC pool, full lines included.
-/

namespace NvmeVirt

open Checked

variable {g : Geometry} {cls : Nat → LineClass} {w : LineMode → Nat} {f f₁ f' : ConvFtl}
  {m : LineMode} {l lpn : Nat} {cur : LineMode → Option Nat} {p : Ppa}

/-- Both victim queues are in heap order. -/
def ConvFtl.Heaps (f : ConvFtl) : Prop :=
  ∀ m, (f.mgmt m).victimLinePq.HeapOrdered victimLine (victimLine.getpri f.lines)

/-! ## Stores that keep the order -/

/-- Only the queues and the valid pages of queued lines matter. -/
theorem ConvFtl.Heaps.congr (h : f.Heaps)
    (hpq : ∀ m, (f'.mgmt m).victimLinePq = (f.mgmt m).victimLinePq)
    (hvpc : ∀ m l, (f.mgmt m).victimLinePq.Mem l → (f'.lines l).vpc = (f.lines l).vpc) :
    f'.Heaps := by
  intro m j hj hj'
  rw [hpq] at hj' ⊢
  have hup := hvpc m _ ⟨j / 2, by omega, by omega, rfl⟩
  have hdown := hvpc m _ ⟨j, by omega, hj', rfl⟩
  change victimLine.Above (f'.lines _).vpc (f'.lines _).vpc
  rw [hup, hdown]
  exact h m j hj hj'

/-- The statistics, the credits and the time do not matter. -/
theorem ConvFtl.Heaps.untracked {π : Perf} {gcCnt : Nat} {ageCnt : Nat → Nat}
    {wfc : WriteFlowControl} {dyn : LineMode} (h : f.Heaps) :
    (f.untracked π gcCnt ageCnt wfc dyn).Heaps := h

/-- Storing one queue together with lines whose other queued lines are as before. -/
theorem ConvFtl.Heaps.store (h : f.Heaps) (lines : Nat → Line) {lm : LineMgmt}
    (hpq : lm.victimLinePq.HeapOrdered victimLine (victimLine.getpri lines))
    (hother : ∀ m', m' ≠ m → ∀ l, (f.mgmt m').victimLinePq.Mem l →
      (lines l).vpc = (f.lines l).vpc) :
    ({ f with lines }.setMgmt m lm : ConvFtl).Heaps := by
  intro m'
  rw [ConvFtl.setMgmt_eq, ConvFtl.withLines_mgmt]
  by_cases he : m' = m
  · subst he
    rw [Function.update_self]
    exact hpq
  · rw [Function.update_of_ne he]
    intro j hj hj'
    have hup := hother m' he _ ⟨j / 2, by omega, Nat.lt_of_le_of_lt (by omega) hj', rfl⟩
    have hdown := hother m' he _ ⟨j, by omega, hj', rfl⟩
    change victimLine.Above (lines ((f.mgmt m').victimLinePq.d (j / 2))).vpc
      (lines ((f.mgmt m').victimLinePq.d j)).vpc
    rw [hup, hdown]
    exact h m' j hj hj'

/-- Inserting a line in its queue. -/
theorem ConvFtl.Heaps.insert (h : f.Heaps) (hsize : 1 ≤ (f.mgmt m).victimLinePq.size) (l : Nat)
    {lm : LineMgmt}
    (hlm : lm.victimLinePq = ((f.mgmt m).victimLinePq.insert victimLine f.lines l).1) :
    ({ f with lines := ((f.mgmt m).victimLinePq.insert victimLine f.lines l).2 }.setMgmt m lm :
      ConvFtl).Heaps := by
  have hpri := Pqueue.insert_getpri victimLine_lawful (f.mgmt m).victimLinePq f.lines l
  refine h.store _ ?_ fun _ _ l' _ => congrFun hpri l'
  rw [hlm, hpri]
  exact Pqueue.insert_ordered victimLine_ordered victimLine_lawful.getpri_setpos (h m) hsize

/-- A queue has its unused element. -/
theorem ConvFtl.PoolsOk.size_pos (h : f.PoolsOk g cls cur w) (m : LineMode) :
    1 ≤ (f.mgmt m).victimLinePq.size := by
  have hcnt := (h.cont m).victimCnt
  omega

/-- A line with another label is in neither queue. -/
theorem ConvFtl.PoolsOk.not_queued (h : f.PoolsOk g cls cur w) (hc : cls l ≠ .victim)
    (m : LineMode) : ¬ (f.mgmt m).victimLinePq.Mem l :=
  fun hmem => hc (((h.cont m).victim l).mp hmem).2

/-! ## The write pointer -/

theorem ConvFtl.Heaps.closeLine (h : f.Heaps) (hsize : 1 ≤ (f.mgmt m).victimLinePq.size)
    (hr : f.closeLine m l = .ok f') : f'.Heaps := by
  unfold ConvFtl.closeLine at hr
  dsimp only at hr
  split at hr
  · obtain ⟨_, -, hr⟩ := bind_eq_ok.mp hr
    cases hr
    exact h.store f.lines (h m) fun _ _ _ _ => rfl
  · simp only [bind_eq_ok] at hr
    obtain ⟨_, -, _, -, _, -, hr⟩ := hr
    cases hr
    exact h.insert hsize l rfl

theorem getNextFreeLine_queues (hr : f.getNextFreeLine = some (l, f')) :
    f'.lines = f.lines ∧ ∀ m, (f'.mgmt m).victimLinePq = (f.mgmt m).victimLinePq := by
  unfold ConvFtl.getNextFreeLine at hr
  dsimp only at hr
  split at hr
  · cases hr
  · cases hr
    rw [ConvFtl.setMgmt_eq]
    refine ⟨rfl, fun m => ?_⟩
    rw [ConvFtl.withLines_mgmt]
    by_cases he : m = if f.slcMode = .slc ∧ f.dynSlcMode = .slc then LineMode.slc else .tlc
    · rw [he, Function.update_self]
    · rw [Function.update_of_ne he]

/-- Opening a line leaves the queues and the lines alone. -/
theorem ConvFtl.Heaps.openLine {io : IoType} {wp : WritePointer} (h : f.Heaps)
    (hr : f.openLine io wp = .ok f') : f'.Heaps := by
  obtain ⟨_, -, hr⟩ := bind_eq_ok.mp hr
  dsimp only at hr
  split at hr
  · cases hr
  · next l f₁ hnext =>
    simp only [bind_eq_ok] at hr
    obtain ⟨_, -, _, -, hr⟩ := hr
    cases hr
    have h₁ : f₁.Heaps := by
      obtain ⟨hlines, hpq⟩ := getNextFreeLine_queues hnext
      exact ConvFtl.Heaps.congr (f := { f with dynSlcMode := _ }) h hpq fun _ l _ => by rw [hlines]
    cases io with
    | user => exact h₁
    | gc => exact h₁

theorem ConvFtl.Heaps.advanceWritePointer {io : IoType} (h : f.Heaps)
    (hsize : ∀ m, 1 ≤ (f.mgmt m).victimLinePq.size) (hr : f.advanceWritePointer io = .ok f') :
    f'.Heaps := by
  obtain ⟨⟨wp, usedUp⟩, -, hr⟩ := bind_eq_ok.mp hr
  have hset : (f.setWp io wp).Heaps ∧ ∀ m, 1 ≤ ((f.setWp io wp).mgmt m).victimLinePq.size := by
    cases io with
    | user => exact ⟨h, hsize⟩
    | gc => exact ⟨h, hsize⟩
  dsimp only at hr
  split at hr
  · obtain ⟨f₁, hclose, hopen⟩ := bind_eq_ok.mp hr
    exact (hset.1.closeLine (hset.2 _) hclose).openLine hopen
  · cases hr
    exact hset.1

/-! ## Storing and invalidating a page -/

/-- A new page goes to the line under a write pointer, which is not queued. -/
theorem ConvFtl.Heaps.placePage (h : f.Heaps) (hok : f.Ok g cls w) (hpos : 0 < g.oneshots)
    (hlpn : lpn < g.ttPgs) (hr : f.placePage m.io lpn = .ok (p, f')) : f'.Heaps := by
  obtain ⟨hplaced, -, -⟩ := (hok.placePage hpos m hlpn).of_ok hr
  have hcls : cls p.blk = .current := by
    rw [hplaced.blk]
    exact (((hok.pools.cont m).current _).mp rfl).2
  simp only [ConvFtl.placePage, bind_eq_ok] at hr
  obtain ⟨p', -, f₁, h₁, f₂, h₂, f₃, h₃, hr⟩ := hr
  cases hr
  obtain ⟨_, -, h₁⟩ := bind_eq_ok.mp h₁
  cases h₁
  obtain ⟨_, -, h₂⟩ := bind_eq_ok.mp h₂
  cases h₂
  obtain ⟨f₄, h₄, h₃⟩ := bind_eq_ok.mp h₃
  simp only [ConvFtl.validateBlkPage, bind_eq_ok] at h₄
  obtain ⟨_, -, _, -, _, -, h₄⟩ := h₄
  cases h₄
  obtain ⟨_, -, h₃⟩ := bind_eq_ok.mp h₃
  cases h₃
  refine h.congr (fun _ => rfl) fun m' l' hmem => ?_
  have hne : l' ≠ p.blk := by
    rintro rfl
    exact hok.pools.not_queued (by rw [hcls]; decide) m' hmem
  have hline : f.getLine p = p.blk := hok.static.getLine p
  show (Function.update f.lines (f.getLine p) _ l').vpc = _
  rw [hline, Function.update_of_ne hne]

/-- A queued line loses a valid page in its queue, any other line loses it directly. -/
theorem ConvFtl.Heaps.decLineVpc (h : f.Heaps) (hcont : ∀ m, Containers g m cls (cur m) f.lines
    (f.mgmt m)) (hm : g.HasLine m l) : (f.decLineVpc m l).Heaps := by
  have hqueued : ∀ m', (f.mgmt m').victimLinePq.Mem l → m' = m ∧ cls l = .victim :=
    fun m' hmem => ⟨g.hasLine_unique ((((hcont m').victim l).mp hmem).1) hm,
      (((hcont m').victim l).mp hmem).2⟩
  unfold ConvFtl.decLineVpc
  dsimp only
  split_ifs with hpos
  · have hc : cls l = .victim := by
      by_contra hne
      exact hpos ((hcont m).pos l hm hne)
    have hmem : (f.mgmt m).victimLinePq.Mem l := ((hcont m).victim l).mpr ⟨hm, hc⟩
    have hpri : victimLine.getpri ((f.mgmt m).victimLinePq.changePriority victimLine f.lines
        ((f.lines l).vpc - 1) l).2 =
        victimLine.getpri (victimLine.setpri f.lines l ((f.lines l).vpc - 1)) :=
      (Pqueue.changePriority_spec victimLine_lawful _ (hcont m).placed hmem).2.2.2.2
        victimLine.getpri fun s a j => funext fun b => victimLine_lawful.getpri_setpos s a j b
    refine h.store _ ?_ fun m' hne l' hl' => ?_
    · rw [hpri]
      exact Pqueue.changePriority_ordered victimLine_lawful victimLine_ordered (h m)
        (hcont m).placed hmem
    · have hother : l' ≠ l := by
        rintro rfl
        exact hne (hqueued m' hl').1
      refine (congrFun hpri l').trans ?_
      rw [victimLine_lawful.getpri_setpri, if_neg hother]
      rfl
  · refine h.congr (fun _ => rfl) fun m' l' hl' => ?_
    have hother : l' ≠ l := by
      rintro rfl
      obtain ⟨rfl, hc⟩ := hqueued m' hl'
      exact (hcont m').pos_ne_zero hm hc (not_not.mp hpos)
    show (Function.update f.lines l _ l').vpc = _
    rw [Function.update_of_ne hother]

/-- A store through a line pointer that changes neither its valid pages nor its position. -/
theorem setLine_eq (f : ConvFtl) (k : Nat) (line : Line) (hvpc : line.vpc = (f.lines k).vpc)
    (hpos : line.pos = (f.lines k).pos) (l : Nat) :
    ((f.setLine k line).lines l).vpc = (f.lines l).vpc ∧
      ((f.setLine k line).lines l).pos = (f.lines l).pos := by
  unfold ConvFtl.setLine
  by_cases he : l = k
  · subst he
    simp only [Function.update_self]
    exact ⟨hvpc, hpos⟩
  · simp only [Function.update_of_ne he, and_self]

theorem ConvFtl.Heaps.markPageInvalid (h : f.Heaps) (hok : f.Ok g cls w) (hp : g.Valid p)
    (hs : f.status p = .valid) (hr : f.markPageInvalid p = .ok f') : f'.Heaps := by
  obtain ⟨_, -, hr⟩ := bind_eq_ok.mp hr
  obtain ⟨f₁, h₁, hr⟩ := bind_eq_ok.mp hr
  obtain ⟨ssd, rfl, hst₁⟩ : ∃ ssd, f₁ = { f with ssd } ∧ f₁.Static g := by
    rw [hok.pools.invalidateBlkPage hok.static hp hs] at h₁
    cases h₁
    exact ⟨_, rfl, hok.static.fits, hok.static.slcMode, hok.static.cp, hok.static.slmLines⟩
  rw [hst₁.ppaPool, hst₁.getLine] at hr
  simp only [ConvFtl.invalidateLine, bind_eq_ok] at hr
  obtain ⟨_, -, _, -, _, -, hr⟩ := hr
  -- first the line counts one invalid page more
  let f₂ : ConvFtl := { f with ssd }.setLine p.blk
    { f.lines p.blk with ipc := (f.lines p.blk).ipc + 1 }
  have hlines := setLine_eq { f with ssd } p.blk
    { f.lines p.blk with ipc := (f.lines p.blk).ipc + 1 } rfl rfl
  have h₂ : f₂.Heaps := h.congr (fun m => rfl) fun _ l _ => (hlines l).1
  have hcont : ∀ m, Containers g m cls (f.cur m) f₂.lines (f₂.mgmt m) := fun m =>
    (hok.pools.cont m).congr (fun _ _ => rfl) fun l _ => (hlines l).2
  have h₃ := h₂.decLineVpc hcont hp.hasLine
  split at hr
  · obtain ⟨_, -, hr⟩ := bind_eq_ok.mp hr
    cases hr
    obtain ⟨lines, lm, hdec, hcont₃, -, -⟩ := decLineVpc_spec (hcont (g.pool p.blk)) hp.hasLine
    refine h₃.insert ?_ p.blk rfl
    have hcnt := hcont₃.victimCnt
    rw [hdec, ConvFtl.withLines_mgmt, Function.update_self]
    omega
  · cases hr
    exact h₃

theorem ConvFtl.Heaps.invalidateOld (h : f.Heaps) (hidle : f.Idle g cls w)
    (hr : f.invalidateOld lpn = .ok f') : f'.Heaps := by
  unfold ConvFtl.invalidateOld at hr
  cases hmap : f.maptbl lpn with
  | none =>
    rw [show f.getMaptblEnt lpn = none from hmap] at hr
    cases hr
    exact h
  | some p =>
    rw [show f.getMaptblEnt lpn = some p from hmap] at hr
    obtain ⟨hp, hs, -⟩ := (hidle.maps.inverse.live_of_fwd lpn p hmap).1
    simp only [bind_eq_ok] at hr
    obtain ⟨f₁, h₁, f₂, h₂, hr⟩ := hr
    obtain ⟨_, -, h₂⟩ := bind_eq_ok.mp h₂
    cases h₂
    cases hr
    exact (h.markPageInvalid hidle.ok hp hs h₁).congr (fun _ => rfl) fun _ l _ =>
      And.left (setLine_eq _ _ _ (by rfl) (by rfl) l)

/-- The loop body of `conv_write` before the credits. -/
theorem ConvFtl.Heaps.storePage {swr : NandCmd} {completed : Option Nat} (h : f.Heaps)
    (hidle : f.Idle g cls w) (hpos : 0 < g.oneshots) (hlpn : lpn < g.ttPgs)
    (hr : f.storePage swr lpn = .ok (completed, f')) : f'.Heaps := by
  obtain ⟨f₁, cls₁, hrun, hok₁, -, -⟩ := hidle.invalidateOld hpos lpn
  have h₁ := h.invalidateOld hidle hrun
  simp only [ConvFtl.storePage, ConvFtl.writeNew, hrun, ok_bind, bind_eq_ok] at hr
  obtain ⟨⟨p, f₃⟩, ⟨⟨p', f₂⟩, hplace, f₃', hadv, he⟩, hr⟩ := hr
  cases he
  obtain rfl : f' = (f₃.programWordline swr p').2 := congrArg Prod.snd (Except.ok.inj hr).symm
  have h₂ := h₁.placePage (m := .slc) hok₁ hpos hlpn hplace
  obtain ⟨-, -, hpools⟩ := (hok₁.placePage hpos .slc hlpn).of_ok hplace
  have h₃ := h₂.advanceWritePointer hpools.size_pos hadv
  obtain ⟨π, hπ⟩ := f₃.programWordline_eq swr p'
  rw [hπ]
  exact h₃

/-! ## Moving the pages of a line -/

/-- An instance in shape, whatever is being collected, with its queues in order. -/
def ConvFtl.Queued (g : Geometry) (f : ConvFtl) : Prop := ∃ cls w, f.Ok g cls w ∧ f.Heaps

theorem ConvFtl.Queued.gcDelay (h : f.Queued g) (c : NandCmd) : (f.gcDelay c).Queued g := by
  obtain ⟨cls, w, hok, hheaps⟩ := h
  obtain ⟨π, hπ⟩ := f.gcDelay_eq c
  rw [hπ]
  exact ⟨cls, w, hok.perf π, hheaps⟩

theorem ConvFtl.Queued.gcWritePage (h : f.Queued g) (hpos : 0 < g.oneshots)
    (hr : f.gcWritePage p = .ok f') : f'.Queued g := by
  obtain ⟨cls, w, hok, hheaps⟩ := h
  simp only [ConvFtl.gcWritePage, bind_eq_ok] at hr
  obtain ⟨lpn, -, _, hlpn, ⟨new, f₁⟩, hplace, f₂, hadv, hr⟩ := hr
  cases hr
  have hlpn : lpn < g.ttPgs := by
    have hvalid := require_eq_ok.mp hlpn
    rwa [ConvFtl.validLpn, decide_eq_true_iff, hok.static.fits.ttPgs] at hvalid
  obtain ⟨hplaced, hst₁, hpools₁⟩ := (hok.placePage hpos .tlc hlpn).of_ok hplace
  have h₁ := hheaps.placePage (m := .tlc) hok hpos hlpn hplace
  have hplaced' : PagePlaced g .tlc lpn f new { f₁ with copyCnt := f₁.copyCnt + 1 } :=
    ⟨hplaced.valid, hplaced.blk, hplaced.free, hplaced.status, hplaced.otherBlk, hplaced.maptbl,
      hplaced.rmap, hplaced.wfc, hplaced.mgmt, hplaced.poolWp, hplaced.dyn⟩
  obtain ⟨cls', w', hpw⟩ := (hplaced'.advance hok
    ⟨hst₁.fits, hst₁.slcMode, hst₁.cp, hst₁.slmLines⟩ hpools₁ hpos).of_ok hadv
  have h₂ : f₂.Queued g := ⟨cls', w', hpw.ok, ConvFtl.Heaps.advanceWritePointer
    (f := { f₁ with copyCnt := f₁.copyCnt + 1 }) h₁ hpools₁.size_pos hadv⟩
  exact h₂.gcDelay _

theorem ConvFtl.Queued.cleanOneFlashpg (h : f.Queued g) (hpos : 0 < g.oneshots)
    (hr : f.cleanOneFlashpg p = .ok f') : f'.Queued g := by
  simp only [ConvFtl.cleanOneFlashpg, bind_eq_ok] at hr
  obtain ⟨_, -, cnt, -, hr⟩ := hr
  split at hr
  · cases hr
    exact h
  · refine Outcome.of_ok (E := fun _ => True) (outcome_foldlM_const (ConvFtl.Queued g)
      (fun i _ f₁ h₁ => Outcome.of_forall_ok fun f₂ hf₂ => ?_) _ (h.gcDelay _)) hr
    obtain ⟨pg, -, hf₂⟩ := bind_eq_ok.mp hf₂
    split at hf₂
    · exact h₁.gcWritePage hpos hf₂
    · cases hf₂
      exact h₁

/-- The innermost body of the loops of `do_gc`; freeing a block touches no line. -/
theorem ConvFtl.Queued.gcBody {blk flashpgs flashpg ch lun : Nat} {io : IoType} (h : f.Queued g)
    (hpos : 0 < g.oneshots) (hr : ConvFtl.gcBody blk flashpgs io flashpg ch lun f = .ok f') :
    f'.Heaps := by
  obtain ⟨f₁, hclean, hr⟩ := bind_eq_ok.mp hr
  obtain ⟨-, -, -, h₁⟩ := h.cleanOneFlashpg hpos hclean
  dsimp only at hr
  split at hr
  · obtain ⟨f₂, hfree, hr⟩ := bind_eq_ok.mp hr
    simp only [ConvFtl.markBlockFree, bind_eq_ok] at hfree
    obtain ⟨_, -, _, -, _, -, hfree⟩ := hfree
    cases hfree
    cases hr
    obtain ⟨π, hπ⟩ := ConvFtl.gcDelay_eq { f₁ with ssd := _ } _
    rw [hπ]
    exact h₁
  · cases hr
    exact h₁

/-- The loops of `do_gc` keep what their innermost body keeps. -/
theorem Relocating.gcLoop_heaps {f₀ : ConvFtl} {spare : Int} {w₀ : LineMode → Nat} {io : IoType}
    (h : Relocating g l spare w₀ f₀ 0 f) (hheaps : f.Heaps) (hpos : 0 < g.oneshots)
    (hdyn : f₀.dynSlcMode = .slc → g.pool l = .slc)
    (hnarrow : g.pgsPerBlk (g.pool l) ≤ 2 ^ pageBits) :
    Outcome (f.gcLoop l (g.flashpgsPerBlk (g.pool l)) io)
      (fun f' => Relocating g l spare w₀ f₀ (g.flashpgsPerBlk (g.pool l) * g.nchs * g.luns) f' ∧
        f'.Heaps) fun _ => True := by
  obtain ⟨cls, w, hcol⟩ := h.collecting
  simp only [ConvFtl.gcLoop, hcol.ok.static.fits.nchs, hcol.ok.static.fits.lunsPerCh]
  rw [Nat.mul_assoc]
  refine outcome_foldlM_range
    (fun fp f => Relocating g l spare w₀ f₀ (fp * (g.nchs * g.luns)) f ∧ f.Heaps) ?_
    ⟨by rwa [Nat.zero_mul], hheaps⟩
  intro flashpg hflashpg f₁ h₁
  rw [← Nat.mul_assoc] at h₁
  rw [Nat.succ_mul, ← Nat.mul_assoc, ← Nat.add_mul]
  refine outcome_foldlM_range (fun ch f =>
    Relocating g l spare w₀ f₀ ((flashpg * g.nchs + ch) * g.luns) f ∧ f.Heaps) ?_ h₁
  intro ch hch f₂ h₂
  rw [← Nat.add_assoc, Nat.succ_mul]
  refine outcome_foldlM_range (fun lun f =>
    Relocating g l spare w₀ f₀ (g.visitFlashpg flashpg ch lun) f ∧ f.Heaps) ?_ h₂
  rintro lun hlun f₃ ⟨h₃, hheaps₃⟩
  obtain ⟨cls₃, w₃, hcol₃⟩ := h₃.collecting
  exact ((h₃.gcBody hpos hdyn hnarrow hch hlun hflashpg).and (Outcome.of_forall_ok fun f₄ hf₄ =>
    ConvFtl.Queued.gcBody ⟨cls₃, w₃, hcol₃.ok, hheaps₃⟩ hpos hf₄)).mono (fun _ h => h)
      fun _ _ => trivial

/-- The loops of `do_gc` start with the line that has been taken. -/
theorem Taken.relocating (h : Taken g m l cls w f f₁) (refill : Nat) :
    Relocating g l (room g w f - (f.lines l).vpc) w (f₁.refillWith refill) 0
      (f₁.refillWith refill) := by
  have hpool : g.pool l = m := g.hasLine_pool h.line
  have hcol : Collecting g l (room g w f - (f.lines l).vpc) (visited g l (0 * g.pgsPerFlashpg))
      (Function.update cls l .collecting) w (f₁.refillWith refill) := by
    refine h.collecting.untracked.restale (fun q => ?_) fun q hq => hq.1
    unfold Live
    refine and_congr_right fun _ => and_congr_right fun _ => not_congr (iff_of_false ?_ not_false)
    rintro ⟨-, hn⟩
    simp at hn
  exact ⟨⟨⟨_, w, hcol⟩, Kept.refl _,
    fun ch hch lun hlun pg hpg _ => h.written ch hch lun hlun pg (hpool ▸ hpg),
    fun _ _ _ _ hn => absurd hn (Nat.not_lt_zero _)⟩, ⟨_, w, hcol, Moved.refl _⟩,
    fun _ _ _ _ => by simp⟩

/-- `do_gc` after a line has been taken. -/
theorem Taken.collectLine_heaps (h : Taken g m l cls w f f₁) (hheaps : f₁.Heaps)
    (hdyn : f₁.dynSlcMode = m) (hpos : 0 < g.oneshots) :
    Outcome (f₁.collectLine l) ConvFtl.Heaps fun _ => True := by
  have hpool : g.pool l = m := g.hasLine_pool h.line
  have hlt : l < 2 ^ blkBits := g.hasLine_lt h.line
  have hfits := h.collecting.ok.static.fits
  have hflashpgs : (if f₁.dynSlcMode = .slc then f₁.ssd.sp.flashpgsPerBlkSlc.toNat
      else f₁.ssd.sp.flashpgsPerBlk) = g.flashpgsPerBlk (g.pool l) := by
    rw [hdyn, hpool, hfits.flashpgsPerBlk, hfits.flashpgsPerBlkSlc, Int.toNat_natCast]
    cases m <;> rfl
  simp only [ConvFtl.collectLine, hflashpgs, h.id, Nat.mod_eq_of_lt hlt]
  let refill := if f₁.dynSlcMode = .slc then asU32 f₁.ssd.sp.pgsPerLineSlc else (f₁.lines l).ipc
  refine ((h.relocating refill).gcLoop_heaps hheaps hpos (fun hd => ?_) ?_).bind ?_
  · rw [hpool, ← hdyn]
    exact hd
  · rw [hpool]
    exact h.narrow
  -- the line itself is in no queue
  rintro f₂ ⟨h₂, hheaps₂⟩
  obtain ⟨cls₂, w₂, hcol⟩ := h₂.collecting
  refine hheaps₂.congr (fun m' => ?_) fun m' l' hmem => ?_
  · rw [hcol.ok.static.markLineFree rfl, ConvFtl.withLines_mgmt]
    by_cases he : m' = g.pool l
    · rw [he, Function.update_self]
      rfl
    · rw [Function.update_of_ne he]
  · have hne : l' ≠ l := by
      rintro rfl
      exact hcol.ok.pools.not_queued (by rw [hcol.label]; decide) m' hmem
    rw [hcol.ok.static.markLineFree rfl]
    show (Function.update f₂.lines l _ l').vpc = _
    rw [Function.update_of_ne hne]

/-! ## Selecting a line -/

/-- A line that leaves its queue. -/
theorem ConvFtl.Heaps.takeVictim (h : f.Heaps) {q : Pqueue Nat} {lines : Nat → Line}
    (hr : Pqueue.Removed victimLine l (f.mgmt m).victimLinePq f.lines q lines)
    (hq : q.HeapOrdered victimLine (victimLine.getpri f.lines)) (cnt : Nat) :
    ({ f with lines := Function.update lines l { lines l with pos := 0 } }.setMgmt m
      { f.mgmt m with victimLinePq := q, victimLineCnt := cnt } : ConvFtl).Heaps := by
  have hpri : ∀ l', (Function.update lines l { lines l with pos := 0 } l').vpc =
      (f.lines l').vpc := by
    intro l'
    refine Eq.trans ?_ (congrFun (hr.getpri victimLine_lawful) l')
    by_cases he : l' = l
    · subst he
      rw [Function.update_self]
      rfl
    · rw [Function.update_of_ne he]
      rfl
  refine h.store _ ?_ fun _ _ l' _ => hpri l'
  rwa [show victimLine.getpri (Function.update lines l { lines l with pos := 0 }) =
    victimLine.getpri f.lines from funext hpri]

/-- `select_victim_line_slc` takes the root out of its queue. -/
theorem ConvFtl.Heaps.selectVictimLineSlc (h : f.Heaps) (hidle : f.Idle g cls w) (force : Bool) :
    (f.selectVictimLineSlc force).2.Heaps := by
  have hcont : Containers g .slc cls (f.cur .slc) f.lines f.slm := hidle.ok.pools.cont .slc
  have hsize := hcont.victimCnt
  unfold ConvFtl.selectVictimLineSlc
  split
  · split
    · exact h
    · exact h.store (m := .slc) f.lines (h .slc) fun _ _ _ _ => rfl
  · next l hpeek =>
    unfold Pqueue.peek at hpeek
    split at hpeek
    · cases hpeek
    · cases hpeek
      split
      · exact h
      · obtain ⟨-, hr⟩ := Pqueue.pop_spec victimLine_lawful hcont.placed (by omega)
        exact h.takeVictim (m := .slc) hr
          (Pqueue.pop_ordered victimLine_ordered victimLine_lawful.getpri_setpos (h .slc)) _

/-- `select_victim_line` takes a line out of the middle of its queue. -/
theorem ConvFtl.Heaps.selectVictimLine (h : f.Heaps) (hidle : f.Idle g cls w) :
    Outcome f.selectVictimLine (fun r => r.2.Heaps) (DivFault g) := by
  unfold ConvFtl.selectVictimLine
  refine (outcome_foldlM_const (Searched f) (fun i hi s hs => ?_) _
    ⟨⟨f.ssd.perf, rfl⟩, fun i hi => by cases hi⟩).bind ?_
  · obtain ⟨h1, h2⟩ := List.mem_range'_1.mp hi
    exact hidle.cbStep hs h1 (by omega)
  rintro ⟨f₁, best, val⟩ ⟨⟨π, hf⟩, hbest⟩
  have hf : f₁ = f.untracked π f.gcCnt f.ageCnt f.wfc f.dynSlcMode := hf
  subst hf
  cases best with
  | none => exact h
  | some i =>
    obtain ⟨h1, h2⟩ := hbest i rfl
    have hcont : Containers g .tlc cls (f.cur .tlc) f.lines f.lm := hidle.ok.pools.cont .tlc
    have hmem : f.lm.victimLinePq.Mem (f.lm.victimLinePq.d i) := ⟨i, h1, h2, rfl⟩
    have hr := Pqueue.remove_spec victimLine_lawful victimLine_irrefl hcont.placed hmem
    exact h.takeVictim (m := .tlc) hr (Pqueue.remove_ordered victimLine_ordered
      victimLine_lawful.getpri_setpos (h .tlc) hcont.placed hmem) _

/-! ## Runs -/

/-- An instance between two page writes with its queues in order. -/
def ConvFtl.Greedy (g : Geometry) (f : ConvFtl) : Prop := ∃ cls w, f.Idle g cls w ∧ f.Heaps

theorem ConvFtl.Greedy.untracked {π : Perf} {gcCnt : Nat} {ageCnt : Nat → Nat}
    {wfc : WriteFlowControl} {dyn : LineMode} (h : f.Greedy g) :
    (f.untracked π gcCnt ageCnt wfc dyn).Greedy g := by
  obtain ⟨cls, w, hidle, hheaps⟩ := h
  exact ⟨cls, w, hidle.untracked, hheaps⟩

/-- `do_gc` keeps the queues in order. -/
theorem ConvFtl.Greedy.doGc (h : f.Greedy g) (hpos : 0 < g.oneshots) :
    Outcome (f.doGc true) (ConvFtl.Greedy g) fun _ => True := by
  obtain ⟨cls, w, hidle, hheaps⟩ := h
  unfold ConvFtl.doGc
  cases hdyn : f.dynSlcMode with
  | slc =>
    have hsel := hheaps.selectVictimLineSlc hidle true
    dsimp only
    rcases hidle.selectVictimLineSlc with ⟨hrun, -⟩ | ⟨l, f₁, hrun, htaken⟩
    · rw [hrun]
      exact ⟨cls, w, hidle, hheaps⟩
    · rw [hrun] at hsel ⊢
      have hcol := htaken.collectLine (htaken.dyn.trans hdyn) hpos
      refine (hcol.and (htaken.collectLine_heaps hsel (htaken.dyn.trans hdyn) hpos)).mono ?_
        fun _ _ => trivial
      rintro f' ⟨⟨cls', w', hidle', -⟩, hheaps'⟩
      exact ⟨cls', w', hidle', hheaps'⟩
  | tlc =>
    have hsel := (hheaps.selectVictimLine hidle).and hidle.selectVictimLine
    dsimp only
    cases hr : f.selectVictimLine with
    | error e => trivial
    | ok r =>
      rw [hr] at hsel
      obtain ⟨victim, f₁⟩ := r
      obtain ⟨hheaps₁, ⟨hnone, π, hf⟩ | ⟨l, hl, htaken⟩⟩ := hsel
      · obtain rfl : victim = none := hnone
        have hf : f₁ = f.untracked π f.gcCnt f.ageCnt f.wfc f.dynSlcMode := hf
        subst hf
        exact ⟨cls, w, hidle.untracked, hheaps⟩
      · obtain rfl : victim = some l := hl
        have htaken' : Taken g .tlc l cls w f { f₁ with gcCnt := f₁.gcCnt + 1 } :=
          Taken.untracked htaken
        have hcol := htaken'.collectLine (htaken'.dyn.trans hdyn) hpos
        refine (hcol.and (htaken'.collectLine_heaps hheaps₁ (htaken'.dyn.trans hdyn) hpos)).mono ?_
          fun _ _ => trivial
        rintro f' ⟨⟨cls', w', hidle', -⟩, hheaps'⟩
        exact ⟨cls', w', hidle', hheaps'⟩

/-- The garbage collection before a migration. -/
theorem ConvFtl.Greedy.gcHigh (h : f.Greedy g) (hpos : 0 < g.oneshots) :
    Outcome f.gcHigh (ConvFtl.Greedy g) fun _ => True := by
  unfold ConvFtl.gcHigh
  split
  · have h₀ : ({ f with dynSlcMode := .tlc } : ConvFtl).Greedy g := h.untracked
    exact h₀.doGc hpos
  · exact h

/-- The loop body of `conv_write` before the credits. -/
theorem ConvFtl.Greedy.storePage (h : f.Greedy g) (hlpn : lpn < g.ttPgs) (swr : NandCmd) :
    Outcome (f.storePage swr lpn) (fun r => r.2.Greedy g) fun _ => True := by
  obtain ⟨cls, w, hidle, hheaps⟩ := h
  have hpos := g.oneshots_pos ((Nat.zero_le lpn).trans_lt hlpn)
  have hrun : ∀ r, f.storePage swr lpn = .ok r → r.2.Heaps := by
    rintro ⟨completed, f₁⟩ hr
    exact hheaps.storePage hidle hpos hlpn hr
  refine ((hidle.storePage hpos hlpn swr).and (Outcome.of_forall_ok hrun)).mono ?_ fun _ _ => trivial
  rintro r ⟨⟨cls', w', hidle', -⟩, hheaps'⟩
  exact ⟨cls', w', hidle', hheaps'⟩

theorem ConvFtl.Greedy.writePage (h : f.Greedy g) (hlpn : lpn < g.ttPgs) (swr : NandCmd) :
    Outcome (f.writePage swr lpn) (fun r => r.2.Greedy g) fun _ => True := by
  have hpos := g.oneshots_pos ((Nat.zero_le lpn).trans_lt hlpn)
  refine (h.storePage hlpn swr).bind ?_
  rintro ⟨completed, f₁⟩ h₁
  have h₁ : f₁.consumeWriteCredit.Greedy g := ConvFtl.Greedy.untracked h₁
  refine Outcome.bind (Q := ConvFtl.Greedy g) ?_ fun f₂ h₂ => h₂
  unfold ConvFtl.checkAndRefillWriteCredit
  split
  · refine Outcome.bind (Q := ConvFtl.Greedy g) ?_ fun f₂ h₂ => h₂.untracked
    unfold ConvFtl.foregroundGc
    split
    · refine (h₁.gcHigh hpos).bind fun f₂ h₂ => ?_
      split
      · have h₂ : ({ f₂ with dynSlcMode := .slc } : ConvFtl).Greedy g := h₂.untracked
        exact h₂.doGc hpos
      · exact h₂
    · exact h₁
  · exact h₁

theorem ConvFtl.Heaps.prepareWritePointer {io : IoType} (h : f.Heaps)
    (hr : f.prepareWritePointer io = .ok f') : f'.Heaps := by
  unfold ConvFtl.prepareWritePointer at hr
  dsimp only at hr
  split at hr
  · cases hr
  · next l f₁ hnext =>
    cases hr
    obtain ⟨hlines, hpq⟩ := getNextFreeLine_queues hnext
    have h₁ : f₁.Heaps := ConvFtl.Heaps.congr (f := { f with dynSlcMode := _ }) h hpq
      fun _ l _ => by rw [hlines]
    cases io with
    | user => exact h₁
    | gc => exact h₁

/-- The queues of a new instance are empty. -/
theorem convInitFtl_greedy {mem : ConvFtl} {clock : Clock} {spp : Ssdparams} (hfits : g.Fits spp)
    (hr : convInitFtl mem true convInitParams (ssdInit spp clock) = .ok f) : f.Greedy g := by
  obtain ⟨cls, w, hidle, -⟩ := (convInitFtl_spec mem clock hfits).of_ok hr
  refine ⟨cls, w, hidle, ?_⟩
  simp only [convInitFtl, bind_eq_ok] at hr
  obtain ⟨f₁, h₁, f₂, h₂, f₃, h₃, hr⟩ := hr
  cases hr
  have hempty : f₁.Heaps := by
    unfold ConvFtl.initLines at h₁
    obtain ⟨_, -, h₁⟩ := bind_eq_ok.mp h₁
    cases h₁
    intro m j hj hj'
    have hsize : ∀ (mem : LineMgmt) base count, (mem.fresh base count).victimLinePq.size = 1 :=
      fun _ _ _ => rfl
    cases m with
    | slc => exact absurd (hsize .. ▸ hj') (by omega)
    | tlc => exact absurd (hsize .. ▸ hj') (by omega)
  have hopened : f₃.Heaps := (hempty.prepareWritePointer h₂).prepareWritePointer h₃
  exact hopened

/-- A run of page writes. -/
theorem ftlRun_greedy {mem : ConvFtl} {clock : Clock} {spp : Ssdparams} {events : List FtlEvent}
    (hfits : g.Fits spp) (hev : ∀ ev ∈ events, ev.InRange g.ttPgs)
    (hr : ftlRun mem spp clock events = .ok f) : f.Greedy g := by
  obtain ⟨f₀, hinit, hr⟩ := bind_eq_ok.mp hr
  refine Outcome.of_ok (E := fun _ => True) (outcome_foldlM_const (ConvFtl.Greedy g)
    (fun ev hmem f h => ?_) _ (convInitFtl_greedy hfits hinit)) hr
  cases ev with
  | tick π => exact h.untracked
  | write swr lpn => exact (h.writePage (hev _ hmem) swr).bind fun _ h => h

/-! ## Migration is greedy -/

/-- A line of the SLC pool that is neither free nor being written. -/
def ConvFtl.ClosedSlc (f : ConvFtl) (l : Nat) : Prop :=
  l < f.slm.ttLines ∧ l ∉ f.slm.freeLineList ∧ l ≠ f.wp.curline

instance (f : ConvFtl) (l : Nat) : Decidable (f.ClosedSlc l) :=
  inferInstanceAs (Decidable (_ ∧ _ ∧ _))

/-- Where a run of page writes calls `select_victim_line_slc`: between two page writes, or inside
`foreground_gc` after a page has been stored and the TLC pool has been collected. -/
inductive ConvFtl.AtMigration (f : ConvFtl) : ConvFtl → Prop
  | idle : f.AtMigration f
  | store (swr : NandCmd) (lpn : Nat) (completed : Option Nat) (f₁ f₂ : ConvFtl)
      (hlpn : lpn < f.ssd.sp.ttPgs) (h₁ : f.storePage swr lpn = .ok (completed, f₁))
      (h₂ : f₁.consumeWriteCredit.gcHigh = .ok f₂) : f.AtMigration { f₂ with dynSlcMode := .slc }

theorem ConvFtl.Greedy.atMigration (h : f.Greedy g) (hsel : f.AtMigration f') : f'.Greedy g := by
  cases hsel with
  | idle => exact h
  | store swr lpn completed f₁ f₂ hlpn h₁ h₂ =>
    have hlpn : lpn < g.ttPgs := by
      obtain ⟨cls, w, hidle, -⟩ := h
      rwa [← hidle.ok.static.fits.ttPgs]
    have hpos := g.oneshots_pos ((Nat.zero_le lpn).trans_lt hlpn)
    have hstored : f₁.consumeWriteCredit.Greedy g :=
      ConvFtl.Greedy.untracked ((h.storePage hlpn swr).of_ok h₁)
    exact ((hstored.gcHigh hpos).of_ok h₂).untracked

/-- Closed lines are full lines and victims. -/
theorem ConvFtl.Idle.closedSlc (h : f.Idle g cls w) :
    f.ClosedSlc l ↔ g.HasLine .slc l ∧ (cls l = .full ∨ cls l = .victim) := by
  have hcont : Containers g .slc cls (f.cur .slc) f.lines f.slm := h.ok.pools.cont .slc
  have hcur : f.wp.curline = f.wp.blk := (h.ok.wp .slc).curline
  have hfree := hcont.free l
  have hopen : f.wp.curline = l ↔ g.HasLine .slc l ∧ cls l = .current := by
    rw [hcur, ← hcont.current l]
    exact (Option.some_inj).symm
  have hin : l < f.slm.ttLines ↔ g.HasLine .slc l := by
    rw [hcont.ttLines]
    simp [Geometry.HasLine, Geometry.base]
  unfold ConvFtl.ClosedSlc
  rw [hin, hfree, ne_comm, ne_eq, hopen]
  refine and_congr_right fun hm => ?_
  have hsettled := h.settled l (g.hasLine_iff.mp hm).1
  cases hc : cls l <;> simp_all

/-- The valid pages of a full line. -/
theorem ConvFtl.Idle.vpc_full (h : f.Idle g cls w) (hm : g.HasLine m l) (hc : cls l = .full) :
    (f.lines l).vpc = g.pgsPerLine m := by
  obtain ⟨hlt, hpool⟩ := g.hasLine_iff.mp hm
  have hfact := (h.ok.pools.line l hlt).fact
  rw [hc, hpool] at hfact
  exact hfact.1

/-- No closed line has more. -/
theorem ConvFtl.Idle.vpc_le (h : f.Idle g cls w) (hm : g.HasLine m l)
    (hc : cls l = .full ∨ cls l = .victim) : (f.lines l).vpc ≤ g.pgsPerLine m := by
  rcases hc with hc | hc
  · exact (h.vpc_full hm hc).le
  · obtain ⟨hlt, hpool⟩ := g.hasLine_iff.mp hm
    have hfact := (h.ok.pools.line l hlt).fact
    rw [hc, hpool] at hfact
    exact Nat.le.intro hfact.1

/-- What `select_victim_line_slc` finds when its queue is in order. -/
theorem ConvFtl.Greedy.select (h : f.Greedy g) :
    ((f.selectVictimLineSlc true).1 = none → ∀ l, ¬ f.ClosedSlc l) ∧
    ∀ l, (f.selectVictimLineSlc true).1 = some l →
      f.ClosedSlc l ∧ ∀ l', f.ClosedSlc l' → (f.lines l).vpc ≤ (f.lines l').vpc := by
  obtain ⟨cls, w, hidle, hheaps⟩ := h
  have hcont : Containers g .slc cls (f.cur .slc) f.lines f.slm := hidle.ok.pools.cont .slc
  have hsize := hcont.victimCnt
  by_cases hone : f.slm.victimLinePq.size = 1
  · -- without victims all closed lines are full
    have hpeek : f.slm.victimLinePq.peek = none := by rw [Pqueue.peek, if_pos hone]
    have hfull : ∀ l, f.ClosedSlc l → g.HasLine .slc l ∧ cls l = .full := by
      intro l hl
      obtain ⟨hm, hc | hc⟩ := hidle.closedSlc.mp hl
      · exact ⟨hm, hc⟩
      · obtain ⟨i, h1, h2, -⟩ := (hcont.victim l).mpr ⟨hm, hc⟩
        omega
    cases hlist : f.slm.fullLineList with
    | nil =>
      have hsel : (f.selectVictimLineSlc true).1 = none := by
        simp only [ConvFtl.selectVictimLineSlc, hpeek, hlist]
      rw [hsel]
      refine ⟨fun _ l hl => ?_, fun _ h => (by cases h)⟩
      have hmem := (hcont.full l).mpr (hfull l hl)
      rw [hlist] at hmem
      cases hmem
    | cons first rest =>
      have hsel : (f.selectVictimLineSlc true).1 = some first := by
        simp only [ConvFtl.selectVictimLineSlc, hpeek, hlist]
      rw [hsel]
      refine ⟨fun h => (by cases h), fun l hl => ?_⟩
      obtain rfl := Option.some.inj hl
      obtain ⟨hm, hc⟩ := (hcont.full first).mp (hlist ▸ List.mem_cons_self ..)
      refine ⟨hidle.closedSlc.mpr ⟨hm, .inl hc⟩, fun l' hl' => ?_⟩
      obtain ⟨hm', hc'⟩ := hfull l' hl'
      rw [hidle.vpc_full hm hc, hidle.vpc_full hm' hc']
  · have hpeek : f.slm.victimLinePq.peek = some (f.slm.victimLinePq.d 1) := by
      rw [Pqueue.peek, if_neg hone]
    have hsel : (f.selectVictimLineSlc true).1 = some (f.slm.victimLinePq.d 1) := by
      simp only [ConvFtl.selectVictimLineSlc, hpeek, Bool.not_true, Bool.false_and,
        Bool.false_eq_true, if_false]
    rw [hsel]
    refine ⟨fun h => (by cases h), fun l hl => ?_⟩
    obtain rfl := Option.some.inj hl
    have hroot : f.slm.victimLinePq.Mem (f.slm.victimLinePq.d 1) := ⟨1, le_refl 1, by omega, rfl⟩
    obtain ⟨hm, hc⟩ := (hcont.victim _).mp hroot
    refine ⟨hidle.closedSlc.mpr ⟨hm, .inr hc⟩, fun l' hl' => ?_⟩
    obtain ⟨hm', hc' | hc'⟩ := hidle.closedSlc.mp hl'
    · rw [hidle.vpc_full hm' hc']
      exact hidle.vpc_le hm (.inr hc)
    · exact not_lt.mp (of_decide_eq_false
        ((hheaps .slc).root victimLine_ordered ((hcont.victim l').mpr ⟨hm', hc'⟩)))

/-- Wherever a run selects the line to migrate, `pqueue_is_valid` accepts both victim queues, and
`select_victim_line_slc` returns a closed line of the SLC pool with the fewest valid pages of all
closed lines, or nothing when there is none. -/
theorem migration_greedy (cfg : SlcConfig) (mem : ConvFtl) (clock : Clock) (smem spp : Ssdparams)
    (size : Nat) (events : List FtlEvent) (f f' : ConvFtl)
    (hspp : ssdInitParamsSlc smem cfg.toSsdConfig size cfg.ssdPartitions = some spp)
    (hev : ∀ ev ∈ events, ev.InRange spp.ttPgs)
    (hf : ftlRun mem spp clock events = .ok f) (hsel : f.AtMigration f') :
    (∀ m, (f'.mgmt m).victimLinePq.isValid victimLine f'.lines = true) ∧
    ((f'.selectVictimLineSlc true).1 = none → ∀ l, ¬ f'.ClosedSlc l) ∧
    ∀ l, (f'.selectVictimLineSlc true).1 = some l →
      f'.ClosedSlc l ∧ ∀ l', f'.ClosedSlc l' → (f'.lines l).vpc ≤ (f'.lines l').vpc := by
  obtain ⟨g, -, hfits, -⟩ := ssdInitParamsSlc_fits hspp
  rw [hfits.ttPgs] at hev
  have hgreedy := (ftlRun_greedy hfits hev hf).atMigration hsel
  refine ⟨fun m => ?_, hgreedy.select⟩
  obtain ⟨cls, w, -, hheaps⟩ := hgreedy
  exact Pqueue.isValid_eq_true.mpr (hheaps m)

/-- The small device with seven SLC blocks. -/
def sevenSlc : SlcConfig :=
  { oneDie with
    toSsdConfig := { oneDie.toSsdConfig with slcPortion := 60 }
    portion_le := by decide
    dies_le := by decide }

/-- Three closed lines, of which the first one lost two pages, the second one lost one page and
the third one is full. -/
theorem migration_greedy_three : ∃ (spp : Ssdparams) (f : ConvFtl),
    ftlRun default spp default ((List.range 9 ++ [0, 1, 4]).map (.write default)) = .ok f ∧
    (f.selectVictimLineSlc true).1 = some 0 ∧ f.ClosedSlc 1 ∧ f.ClosedSlc 2 ∧
      (f.lines 0).vpc ≤ (f.lines 1).vpc ∧ (f.lines 0).vpc ≤ (f.lines 2).vpc ∧
      f.slm.victimLinePq.isValid victimLine f.lines = true := by
  have hspp : (ssdInitParamsSlc default sevenSlc.toSsdConfig (kb 576)
      sevenSlc.ssdPartitions).map (fun spp => (decide (9 < spp.ttPgs),
        (ftlRun default spp default ((List.range 9 ++ [0, 1, 4]).map (.write default))).map
          fun f => ((f.selectVictimLineSlc true).1, decide (f.ClosedSlc 1 ∧ f.ClosedSlc 2)))) =
      some (true, .ok (some 0, true)) := by
    decide +kernel
  obtain ⟨spp, hr, hs⟩ := Option.map_eq_some_iff.mp hspp
  obtain ⟨hpgs, hrun⟩ := Prod.mk.inj hs
  obtain ⟨f, hf, hfacts⟩ := except_map_eq_ok.mp hrun
  obtain ⟨hsel, hclosed⟩ := Prod.mk.inj hfacts
  obtain ⟨h1, h2⟩ : f.ClosedSlc 1 ∧ f.ClosedSlc 2 := of_decide_eq_true hclosed
  have hpgs := of_decide_eq_true hpgs
  have hev : ∀ ev ∈ (List.range 9 ++ [0, 1, 4]).map (FtlEvent.write default),
      ev.InRange spp.ttPgs := by
    intro ev hmem
    obtain ⟨lpn, hlpn, rfl⟩ := List.mem_map.mp hmem
    have hsmall : ∀ n ∈ List.range 9 ++ [0, 1, 4], n ≤ 9 := by decide
    exact (hsmall lpn hlpn).trans_lt hpgs
  obtain ⟨hvalid, -, hleast⟩ := migration_greedy sevenSlc default default default spp (kb 576) _ f f
    hr hev hf .idle
  exact ⟨spp, f, hf, hsel, h1, h2, (hleast 0 hsel).2 1 h1, (hleast 0 hsel).2 2 h2, hvalid .slc⟩

end NvmeVirt
