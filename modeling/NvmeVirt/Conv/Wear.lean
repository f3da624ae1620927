import NvmeVirt.Conv.Ledger
import NvmeVirt.Conv.Relocation
import NvmeVirt.Conv.Transfers

/-!
# Writes, copies and erased blocks

Every page that is programmed is a page of the host, in the SLC pool, or a copy, in the TLC pool,
and stays accounted for after its block has been erased: the written pages of a pool and the pages
of the lines it has erased add up to what was ever written to it.
-/

namespace NvmeVirt

open Checked Tally

variable {g : Geometry} {cls cls' : Nat → LineClass} {w w' : LineMode → Nat} {f f' f₁ : ConvFtl}
  {m : LineMode} {l lpn : Nat} {p : Ppa} {pages : List Nat}

/-! ## Only a collected line is erased -/

/-- How often a block has been erased. -/
def ConvFtl.erases (f : ConvFtl) (a : BlkAddr) : Nat := (f.ssd.blk a).eraseCnt

/-- The counts that a write leaves alone. -/
def ConvFtl.wear (f : ConvFtl) : Nat × (BlkAddr → Nat) := (f.copyCnt, f.erases)

theorem fixed_wear : ConvFtl.Fixed ConvFtl.wear :=
  ⟨fun _ io _ => by cases io <;> rfl, fun _ m _ => by cases m <;> rfl, fun _ _ => rfl,
    fun _ _ => rfl⟩

/-- Storing a block with the same count. -/
theorem wear_setBlk (f : ConvFtl) (p : Ppa) (b : NandBlock)
    (hb : b.eraseCnt = (f.ssd.getBlk p).eraseCnt) :
    ({ f with ssd := f.ssd.setBlk p b } : ConvFtl).wear = f.wear := by
  have herase : ({ f with ssd := f.ssd.setBlk p b } : ConvFtl).erases = f.erases := by
    ext a
    show (Function.update f.ssd.blk p.addr b a).eraseCnt = (f.ssd.blk a).eraseCnt
    by_cases ha : a = p.addr
    · subst ha
      rw [Function.update_self, hb]
      rfl
    · rw [Function.update_of_ne ha]
  exact Prod.ext rfl herase

theorem wear_placePage {io : IoType} (hr : f.placePage io lpn = .ok (p, f')) :
    f'.wear = f.wear := by
  simp only [ConvFtl.placePage, ConvFtl.setMaptblEnt, ConvFtl.setRmapEnt, ConvFtl.markPageValid,
    ConvFtl.validateBlkPage, ConvFtl.validateLine, bind_eq_ok] at hr
  obtain ⟨p, -, _, ⟨_, -, hf₁⟩, _, ⟨_, -, hf₂⟩, _, ⟨_, ⟨_, -, _, -, _, -, hf₃⟩, _, -, hf₄⟩,
    hf₅⟩ := hr
  cases hf₁
  cases hf₂
  cases hf₃
  cases hf₄
  cases hf₅
  exact wear_setBlk f p ((f.ssd.getBlk p).validate p.pg) rfl

theorem wear_markPageInvalid (hr : f.markPageInvalid p = .ok f') : f'.wear = f.wear := by
  simp only [ConvFtl.markPageInvalid, ConvFtl.invalidateBlkPage, ConvFtl.invalidateLine,
    bind_eq_ok] at hr
  obtain ⟨_, -, f₁, ⟨_, -, _, -, _, -, _, -, hf₁⟩, _, -, _, -, _, -, hr⟩ := hr
  cases hf₁
  have hblk := wear_setBlk f p ((f.ssd.getBlk p).invalidate p.pg) rfl
  split at hr
  · rw [fixed_wear.fullToVictim hr, fixed_wear.decLineVpc]
    exact hblk
  · cases hr
    rw [fixed_wear.decLineVpc]
    exact hblk

theorem wear_invalidateOld (hr : f.invalidateOld lpn = .ok f') : f'.wear = f.wear := by
  unfold ConvFtl.invalidateOld at hr
  split at hr
  · cases hr
    rfl
  · simp only [ConvFtl.setRmapEnt, bind_eq_ok] at hr
    obtain ⟨f₁, hinv, _, ⟨_, -, hf₂⟩, hr⟩ := hr
    cases hf₂
    cases hr
    have h₁ := wear_markPageInvalid hinv
    exact h₁

/-- Garbage collection moves a page without erasing a block. -/
theorem erases_gcWritePage (hr : f.gcWritePage p = .ok f') : f'.erases = f.erases := by
  simp only [ConvFtl.gcWritePage, bind_eq_ok, Prod.exists] at hr
  obtain ⟨lpn, -, _, -, q, f₁, hplace, f₂, hadv, hr⟩ := hr
  cases hr
  have h₁ : f₁.erases = f.erases := congrArg Prod.snd (wear_placePage hplace)
  have h₂ : f₂.erases = f₁.erases := congrArg Prod.snd (fixed_wear.advanceWritePointer hadv)
  have hdelay : ∀ c, (f₂.gcDelay c).erases = f₂.erases := by
    intro c
    unfold ConvFtl.gcDelay
    split <;> rfl
  rw [hdelay, h₂, h₁]

/-- A flash page is cleaned without erasing a block. -/
theorem erases_cleanOneFlashpg (hr : f.cleanOneFlashpg p = .ok f') : f'.erases = f.erases := by
  simp only [ConvFtl.cleanOneFlashpg, bind_eq_ok] at hr
  obtain ⟨_, -, cnt, -, hr⟩ := hr
  split at hr
  · cases hr
    rfl
  · refine (outcome_foldlM_const (E := fun _ => True) (fun f₁ : ConvFtl => f₁.erases = f.erases)
      (fun i _ f₁ h₁ => Outcome.of_forall_ok fun f₂ hf₂ => ?_) _ ?_).of_ok hr
    · obtain ⟨pg, -, hf₂⟩ := bind_eq_ok.mp hf₂
      split at hf₂
      · exact (erases_gcWritePage hf₂).trans h₁
      · cases hf₂
        exact h₁
    · unfold ConvFtl.gcDelay
      split <;> rfl

/-- The innermost body of the loops of `do_gc` erases a block of its line at most. -/
theorem erases_gcBody {blk flashpgs flashpg ch lun : Nat} {io : IoType} {a : BlkAddr}
    (ha : a.blk ≠ blk % 2 ^ blkBits)
    (hr : ConvFtl.gcBody blk flashpgs io flashpg ch lun f = .ok f') : f'.erases a = f.erases a := by
  obtain ⟨f₁, hclean, hr⟩ := bind_eq_ok.mp hr
  have h₁ := erases_cleanOneFlashpg hclean
  dsimp only at hr
  split at hr
  · simp only [ConvFtl.markBlockFree, bind_eq_ok] at hr
    obtain ⟨f₂, ⟨_, -, _, -, _, -, hf₂⟩, hr⟩ := hr
    cases hf₂
    cases hr
    rw [← h₁]
    unfold ConvFtl.gcDelay
    have hne : a ≠ (⟨flashpg * f.ssd.sp.pgsPerFlashpg % 2 ^ pageBits, blk % 2 ^ blkBits, 0,
        lun % 2 ^ lunBits, ch % 2 ^ chBits⟩ : Ppa).addr := by
      rintro rfl
      exact ha rfl
    split
    · exact congrArg NandBlock.eraseCnt (Function.update_of_ne hne ..)
    · exact congrArg NandBlock.eraseCnt (Function.update_of_ne hne ..)
  · cases hr
    rw [h₁]

/-- Collecting a line erases no block of another line. -/
theorem erases_collectLine {a : BlkAddr} (ha : a.blk ≠ (f.lines l).id % 2 ^ blkBits)
    (hr : f.collectLine l = .ok f') : f'.erases a = f.erases a := by
  obtain ⟨f₁, hloop, hr⟩ := bind_eq_ok.mp hr
  cases hr
  have hmark : ∀ p, (f₁.markLineFree p).erases = f₁.erases := by
    intro p
    refine congrArg Prod.snd (?_ : (f₁.markLineFree p).wear = f₁.wear)
    unfold ConvFtl.markLineFree
    rw [fixed_wear.setMgmt]
    exact fixed_wear.lines ..
  rw [hmark]
  unfold ConvFtl.gcLoop at hloop
  refine Outcome.of_ok (E := fun _ => True) (outcome_foldlM_const
    (fun f' : ConvFtl => f'.erases a = f.erases a) (fun flashpg _ f₂ h₂ => ?_) _ ?_) hloop
  · refine outcome_foldlM_const _ (fun ch _ f₃ h₃ => ?_) _ h₂
    refine outcome_foldlM_const _ (fun lun _ f₄ h₄ => ?_) _ h₃
    exact Outcome.of_forall_ok fun f₅ hf₅ => (erases_gcBody ha hf₅).trans h₄
  · rfl

/-! ## A stored page -/

/-- What storing the page `lpn` does to the counts. -/
structure Stored (g : Geometry) (lpn : Nat) (w w' : LineMode → Nat) (f f' : ConvFtl) : Prop where
  advanced : Advanced g .slc f f' w w'
  tlc : f'.lm.freeLineList = f.lm.freeLineList
  wear : f'.wear = f.wear
  mapped : ∀ k, f'.maptbl k = none ↔ f.maptbl k = none ∧ k ≠ lpn

/-- The loop body of `conv_write` before the credits stores one page. -/
theorem ConvFtl.Idle.storePage_stored (h : f.Idle g cls w) (hpos : 0 < g.oneshots)
    (hlpn : lpn < g.ttPgs) (swr : NandCmd) :
    Outcome (f.storePage swr lpn)
      (fun r => ∃ cls' w', r.2.Idle g cls' w' ∧ Stored g lpn w w' f r.2) fun _ => True := by
  obtain ⟨f₁, cls₁, hrun, hok₁, hsame₁, hinv⟩ := h.invalidateOld hpos lpn
  simp only [ConvFtl.storePage, hrun, ok_bind, ConvFtl.writeNew]
  refine Outcome.bind (Q := fun r => ∃ cls' w', r.2.Idle g cls' w' ∧ Stored g lpn w w' f r.2) ?_ ?_
  · have hplace : Outcome (f₁.placePage .user lpn) (fun r => r.2.wear = f₁.wear) fun _ => True :=
      Outcome.of_forall_ok fun _ hr => wear_placePage hr
    refine (((hok₁.placePage hpos .slc hlpn).and hplace).mono (fun _ h => h)
      fun _ _ => trivial).bind ?_
    rintro ⟨new, f₂⟩ ⟨⟨hplaced, hst₂, hpools₂⟩, hwear₂⟩
    have hadv : Outcome (f₂.advanceWritePointer .user) (fun r => r.wear = f₂.wear) fun _ => True :=
      Outcome.of_forall_ok fun _ hr => fixed_wear.advanceWritePointer hr
    refine (((hplaced.advance hok₁ hst₂ hpools₂ hpos).and hadv).mono (fun _ h => h)
      fun _ _ => trivial).bind ?_
    rintro f₃ ⟨⟨cls', w', hpw⟩, hwear₃⟩
    refine ⟨cls', w', ⟨hpw.ok, h.remap hinv hlpn hpw, fun l hl hc => ?_⟩, ?_, ?_, ?_, fun k => ?_⟩
    · exact h.settled l hl ((hsame₁ l hl).mp ((hpw.collecting l hl).mp hc))
    · have hadv := hpw.advanced
      unfold Advanced at hadv ⊢
      rwa [hinv.free, hinv.poolWp] at hadv
    · have hmgmt : f₃.mgmt .tlc = f₁.mgmt .tlc := hpw.mgmt .tlc (by decide)
      exact (congrArg LineMgmt.freeLineList hmgmt).trans (hinv.free .tlc)
    · exact (hwear₃.trans hwear₂).trans (wear_invalidateOld hrun)
    · have hmap : f₃.maptbl k = Function.update f.maptbl lpn (some new) k := by
        rw [hpw.maptbl, hinv.maptbl]
      show f₃.maptbl k = none ↔ _
      rw [hmap]
      by_cases he : k = lpn
      · subst he
        simp
      · simp [he]
  · rintro ⟨new, f₃⟩ ⟨cls', w', hidle, hstored⟩
    obtain ⟨π, hπ⟩ := f₃.programWordline_eq swr new
    refine ⟨cls', w', ?_, ?_, ?_, ?_, ?_⟩
    · rw [hπ]
      exact hidle.untracked
    · rw [hπ]
      exact hstored.advanced
    · rw [hπ]
      exact hstored.tlc
    · rw [hπ]
      exact hstored.wear
    · rw [hπ]
      exact hstored.mapped

/-! ## A collected line -/

/-- What collecting the line `l` of the pool `m` does to the counts. -/
structure Gone (g : Geometry) (m : LineMode) (l : Nat) (w w' : LineMode → Nat) (f f' : ConvFtl) :
    Prop extends Collected g m l w f f' w', f.Relocated m l f' where
  others : ∀ a : BlkAddr, a.blk ≠ l → f'.erases a = f.erases a

/-- `do_gc` after a line has been taken. -/
theorem Taken.collectLine_gone (h : Taken g m l cls w f f₁) (hidle : f.Idle g cls w)
    (hsel : Unmoved f f₁) (hdyn : f₁.dynSlcMode = m) (hpos : 0 < g.oneshots) :
    Outcome (f₁.collectLine l) (fun f' => ∃ cls' w', f'.Idle g cls' w' ∧ Gone g m l w w' f f')
      fun _ => True := by
  have hlt : l < 2 ^ blkBits := g.hasLine_lt h.line
  have hothers : Outcome (f₁.collectLine l)
      (fun f' => ∀ a : BlkAddr, a.blk ≠ l → f'.erases a = f₁.erases a) fun _ => True :=
    Outcome.of_forall_ok fun f' hr a ha =>
      erases_collectLine (by rwa [h.id, Nat.mod_eq_of_lt hlt]) hr
  refine ((h.relocate hdyn hpos).and hothers).mono ?_ fun _ _ => trivial
  rintro f' ⟨⟨refill, f₂, hrefill, h₂, rfl⟩, herases⟩
  obtain ⟨cls', w', hidle', hcol⟩ := h.collected hpos hrefill h₂
  refine ⟨cls', w', hidle', hcol, h₂.relocated h hidle hsel hpos, fun a ha => ?_⟩
  rw [herases a ha]
  exact congrArg (fun blk => (blk a).eraseCnt) hsel.blk

/-- `do_gc` leaves the maps, the lines and the pages alone or collects one line. -/
theorem ConvFtl.Idle.doGc_gone (h : f.Idle g cls w) (hpos : 0 < g.oneshots) :
    Outcome (f.doGc true)
      (fun f' => (∃ π gcCnt, f' = f.untracked π gcCnt f.ageCnt f.wfc f.dynSlcMode) ∨
        ∃ m l cls' w', f'.Idle g cls' w' ∧ Gone g m l w w' f f') fun _ => True := by
  unfold ConvFtl.doGc
  cases hdyn : f.dynSlcMode with
  | slc =>
    have hsel := selectVictimLineSlc_selected f true
    dsimp only
    rcases h.selectVictimLineSlc with ⟨hrun, -⟩ | ⟨l, f₁, hrun, htaken⟩
    · rw [hrun]
      exact Or.inl ⟨f.ssd.perf, f.gcCnt, by rw [← hdyn]; rfl⟩
    · rw [hrun] at hsel ⊢
      refine (htaken.collectLine_gone h hsel.toUnmoved (htaken.dyn.trans hdyn) hpos).mono ?_
        fun _ h => h
      exact fun f' hf' => Or.inr ⟨.slc, l, hf'⟩
  | tlc =>
    have hsel := (selectVictimLine_selected f).and h.selectVictimLine
    dsimp only
    cases hr : f.selectVictimLine with
    | error e => trivial
    | ok r =>
      rw [hr] at hsel
      obtain ⟨victim, f₁⟩ := r
      obtain ⟨hun, ⟨hnone, π, hf⟩ | ⟨l, hl, htaken⟩⟩ := hsel
      · obtain rfl : victim = none := hnone
        have hf : f₁ = f.untracked π f.gcCnt f.ageCnt f.wfc f.dynSlcMode := hf
        subst hf
        exact Or.inl ⟨π, f.gcCnt + 1, by rw [← hdyn]; rfl⟩
      · obtain rfl : victim = some l := hl
        have htaken' : Taken g .tlc l cls w f { f₁ with gcCnt := f₁.gcCnt + 1 } :=
          Taken.untracked htaken
        have hun : Unmoved f f₁ := hun.toUnmoved
        refine (htaken'.collectLine_gone h ⟨hun.maptbl, hun.copyCnt, hun.blk, hun.gcWp⟩
          (htaken'.dyn.trans hdyn) hpos).mono ?_ fun _ h => h
        exact fun f' hf' => Or.inr ⟨.tlc, l, hf'⟩

/-! ## The balance -/

/-- The pages of a pool that erased lines had, each time they were erased. -/
def ConvFtl.erasedPages (f : ConvFtl) (m : LineMode) : Nat :=
  ∑ l ∈ f.poolLines m, f.erases (lineAddr l (0, 0)) * f.linePages m

/-- The accounts of an instance that was told to write `pages` and whose counter of copies
started at `copies`. -/
structure ConvFtl.Balanced (copies : Nat) (pages : List Nat) (f : ConvFtl) : Prop where
  mapped : ∀ lpn, f.maptbl lpn = none ↔ lpn ∉ pages
  host : f.usedPages .slc + f.erasedPages .slc = pages.length
  copied : copies + (f.usedPages .tlc + f.erasedPages .tlc) = f.copyCnt
  /-- All blocks of a line have been erased equally often. -/
  even : ∀ l, ∀ ch < f.ssd.sp.nchs, ∀ lun < f.ssd.sp.lunsPerCh,
    f.erases (lineAddr l (ch, lun)) = f.erases (lineAddr l (0, 0))

theorem ConvFtl.Balanced.untracked {copies gcCnt : Nat} {π : Perf} {ageCnt : Nat → Nat}
    {wfc : WriteFlowControl} {dyn : LineMode} (h : f.Balanced copies pages) :
    (f.untracked π gcCnt ageCnt wfc dyn).Balanced copies pages :=
  ⟨h.mapped, h.host, h.copied, h.even⟩

/-- The pages of erased lines depend on the blocks only. -/
theorem erasedPages_congr (h : f.Ok g cls w) (h' : f'.Ok g cls' w')
    (he : ∀ l, g.HasLine m l → f'.erases (lineAddr l (0, 0)) = f.erases (lineAddr l (0, 0))) :
    f'.erasedPages m = f.erasedPages m := by
  unfold ConvFtl.erasedPages
  rw [h.poolLines_eq h', h.linePages, h'.linePages]
  exact Finset.sum_congr rfl fun l hl => by rw [he l (h.mem_poolLines.mp hl)]

/-- One more erased line. -/
theorem erasedPages_succ (h : f.Ok g cls w) (h' : f'.Ok g cls' w') (hl : g.HasLine m l)
    (hself : f'.erases (lineAddr l (0, 0)) = f.erases (lineAddr l (0, 0)) + 1)
    (he : ∀ l', l' ≠ l → f'.erases (lineAddr l' (0, 0)) = f.erases (lineAddr l' (0, 0))) :
    f'.erasedPages m = f.erasedPages m + g.pgsPerLine m := by
  unfold ConvFtl.erasedPages
  rw [h.poolLines_eq h', h.linePages, h'.linePages]
  have hsum := sum_change (f := fun l => f.erases (lineAddr l (0, 0)) * g.pgsPerLine m)
    (g := fun l => f'.erases (lineAddr l (0, 0)) * g.pgsPerLine m) (h.mem_poolLines.mpr hl)
    fun l' _ hne => by rw [he l' hne]
  simp only [hself, Nat.add_mul, Nat.one_mul] at hsum
  omega

/-- A stored page is one more page of the host. -/
theorem ConvFtl.Balanced.stored {copies : Nat} (h : f.Balanced copies pages)
    (hidle : f.Idle g cls w) (hidle' : f'.Idle g cls' w') (hs : Stored g lpn w w' f f') :
    f'.Balanced copies (pages ++ [lpn]) := by
  have hcopy : f'.copyCnt = f.copyCnt := congrArg Prod.fst hs.wear
  have herase : f'.erases = f.erases := congrArg Prod.snd hs.wear
  have hfits := hidle.ok.static.fits
  have hfits' := hidle'.ok.static.fits
  have hpages := fun m => erasedPages_congr (m := m) hidle.ok hidle'.ok fun l _ => by rw [herase]
  have hw : w' .tlc = w .tlc := by
    rcases hs.advanced with ⟨-, rfl, -⟩ | ⟨-, rfl, -⟩ <;> rfl
  have hslc := hidle.usedPages_add .slc
  have hslc' := hidle'.usedPages_add .slc
  have hroom := hs.advanced.poolRoom_succ
  have htlc := hidle.usedPages_add .tlc
  have htlc' := hidle'.usedPages_add .tlc
  have hroomTlc : poolRoom g .tlc w' f' = poolRoom g .tlc w f := by
    unfold poolRoom
    rw [hw, show (f'.mgmt .tlc).freeLineList = (f.mgmt .tlc).freeLineList from hs.tlc]
  have hhost := h.host
  have hcopied := h.copied
  refine ⟨fun k => ?_, ?_, ?_, fun l ch hch lun hlun => ?_⟩
  · rw [hs.mapped, h.mapped]
    simp
  · rw [hpages, List.length_append, List.length_singleton]
    omega
  · rw [hpages, hcopy]
    omega
  · rw [hfits'.nchs, ← hfits.nchs] at hch
    rw [hfits'.lunsPerCh, ← hfits.lunsPerCh] at hlun
    rw [herase]
    exact h.even l ch hch lun hlun

/-- Collecting a line moves its valid pages to the TLC pool and its other pages to the account of
erased lines. -/
theorem ConvFtl.Balanced.gone {copies : Nat} (h : f.Balanced copies pages)
    (hidle : f.Idle g cls w) (hidle' : f'.Idle g cls' w') (hgone : Gone g m l w w' f f') :
    f'.Balanced copies pages := by
  have hfits := hidle.ok.static.fits
  have hfits' := hidle'.ok.static.fits
  have herased : ∀ ch < f.ssd.sp.nchs, ∀ lun < f.ssd.sp.lunsPerCh,
      f'.erases (lineAddr l (ch, lun)) = f.erases (lineAddr l (ch, lun)) + 1 := hgone.erased
  have hzero : f'.erases (lineAddr l (0, 0)) = f.erases (lineAddr l (0, 0)) + 1 := by
    refine herased 0 ?_ 0 ?_
    · rw [hfits.nchs]
      exact g.nchs_pos
    · rw [hfits.lunsPerCh]
      exact g.luns_pos
  have hothers : ∀ l', l' ≠ l → ∀ d, f'.erases (lineAddr l' d) = f.erases (lineAddr l' d) :=
    fun l' hne d => hgone.others _ hne
  have hpages : ∀ m', f'.erasedPages m' =
      f.erasedPages m' + if m = m' then g.pgsPerLine m' else 0 := by
    intro m'
    by_cases he : m = m'
    · subst he
      rw [if_pos rfl]
      exact erasedPages_succ hidle.ok hidle'.ok hgone.line hzero fun l' hne => hothers l' hne _
    · rw [if_neg he, Nat.add_zero]
      refine erasedPages_congr hidle.ok hidle'.ok fun l' hl' => hothers l' ?_ _
      rintro rfl
      exact he (g.hasLine_unique hgone.line hl')
  have hw : w' .slc = w .slc := hidle.ok.rank_slc hidle'.ok hgone.wp
  have hslc := hidle.usedPages_add .slc
  have hslc' := hidle'.usedPages_add .slc
  have htlc := hidle.usedPages_add .tlc
  have htlc' := hidle'.usedPages_add .tlc
  have hroomSlc : poolRoom g .slc w' f' =
      poolRoom g .slc w f + if m = .slc then g.pgsPerLine .slc else 0 := by
    have hfree : (f'.mgmt .slc).freeLineList =
        (f.mgmt .slc).freeLineList ++ if m = .slc then [l] else [] := hgone.slmFree
    unfold poolRoom
    rw [hw, hfree, List.length_append, Nat.add_mul]
    split
    · rw [List.length_singleton, Nat.one_mul]
      omega
    · rw [List.length_nil]
      omega
  have hroomTlc : (poolRoom g .tlc w' f' : Int) = poolRoom g .tlc w f - (f.lines l).vpc +
      if m = .tlc then g.pgsPerLine .tlc else 0 := hgone.room
  have hhost := h.host
  have hcopied := h.copied
  have hcopies := hgone.copies
  have hslcPages := hpages .slc
  have htlcPages := hpages .tlc
  refine ⟨fun k => ?_, ?_, ?_, fun l' ch hch lun hlun => ?_⟩
  · rw [hgone.mapped, h.mapped]
  · cases m with
    | slc =>
      simp only [if_true] at hslcPages hroomSlc
      omega
    | tlc =>
      simp only [reduceCtorEq, if_false] at hslcPages hroomSlc
      omega
  · cases m with
    | slc =>
      simp only [reduceCtorEq, if_false] at htlcPages hroomTlc
      omega
    | tlc =>
      simp only [if_true] at htlcPages hroomTlc
      omega
  · rw [hfits'.nchs, ← hfits.nchs] at hch
    rw [hfits'.lunsPerCh, ← hfits.lunsPerCh] at hlun
    have heven := h.even l' ch hch lun hlun
    by_cases he : l' = l
    · rw [he] at heven ⊢
      rw [herased ch hch lun hlun, hzero, heven]
    · rw [hothers l' he, hothers l' he, heven]

/-! ## Runs of one instance -/

/-- An instance between two page writes with its accounts. -/
def ConvFtl.Audited (g : Geometry) (copies : Nat) (pages : List Nat) (f : ConvFtl) : Prop :=
  ∃ cls w, f.Idle g cls w ∧ f.Balanced copies pages

variable {copies : Nat}

theorem ConvFtl.Audited.untracked {gcCnt : Nat} {π : Perf} {ageCnt : Nat → Nat}
    {wfc : WriteFlowControl} {dyn : LineMode} (h : f.Audited g copies pages) :
    (f.untracked π gcCnt ageCnt wfc dyn).Audited g copies pages := by
  obtain ⟨cls, w, hidle, hbal⟩ := h
  exact ⟨cls, w, hidle.untracked, hbal.untracked⟩

/-- `do_gc` keeps the accounts. -/
theorem ConvFtl.Audited.doGc (h : f.Audited g copies pages) (hpos : 0 < g.oneshots) :
    Outcome (f.doGc true) (ConvFtl.Audited g copies pages) fun _ => True := by
  obtain ⟨cls, w, hidle, hbal⟩ := h
  refine (hidle.doGc_gone hpos).mono ?_ fun _ h => h
  rintro f' (⟨π, gcCnt, rfl⟩ | ⟨m, l, cls', w', hidle', hgone⟩)
  · exact ⟨cls, w, hidle.untracked, hbal.untracked⟩
  · exact ⟨cls', w', hidle', hbal.gone hidle hidle' hgone⟩

/-- So does `foreground_gc`. -/
theorem ConvFtl.Audited.foregroundGc (h : f.Audited g copies pages) (hpos : 0 < g.oneshots) :
    Outcome f.foregroundGc (ConvFtl.Audited g copies pages) fun _ => True := by
  unfold ConvFtl.foregroundGc
  split
  · refine Outcome.bind (Q := ConvFtl.Audited g copies pages) ?_ fun f₁ h₁ => ?_
    · unfold ConvFtl.gcHigh
      split
      · have h₀ : ({ f with dynSlcMode := .tlc } : ConvFtl).Audited g copies pages := h.untracked
        exact h₀.doGc hpos
      · exact h
    · split
      · have h₂ : ({ f₁ with dynSlcMode := .slc } : ConvFtl).Audited g copies pages := h₁.untracked
        exact h₂.doGc hpos
      · exact h₁
  · exact h

/-- The loop body of `conv_write` adds its page to the accounts. -/
theorem ConvFtl.Audited.writePage (h : f.Audited g copies pages) (hlpn : lpn < g.ttPgs)
    (swr : NandCmd) :
    Outcome (f.writePage swr lpn) (fun r => r.2.Audited g copies (pages ++ [lpn]))
      fun _ => True := by
  obtain ⟨cls, w, hidle, hbal⟩ := h
  have hpos := g.oneshots_pos ((Nat.zero_le lpn).trans_lt hlpn)
  refine (hidle.storePage_stored hpos hlpn swr).bind ?_
  rintro ⟨completed, f₁⟩ ⟨cls₁, w₁, h₁, hs⟩
  have h₁ : f₁.consumeWriteCredit.Audited g copies (pages ++ [lpn]) :=
    ConvFtl.Audited.untracked ⟨cls₁, w₁, h₁, hbal.stored hidle h₁ hs⟩
  refine Outcome.bind (Q := ConvFtl.Audited g copies (pages ++ [lpn])) ?_ fun f₂ h₂ => h₂
  unfold ConvFtl.checkAndRefillWriteCredit
  split
  · exact (h₁.foregroundGc hpos).bind fun f₂ h₂ => h₂.untracked
  · exact h₁

/-- A run of page writes. -/
theorem ConvFtl.Audited.run {events : List FtlEvent} (h : f.Audited g copies pages)
    (hev : ∀ ev ∈ events, ev.InRange g.ttPgs) (hr : events.foldlM ConvFtl.event f = .ok f') :
    f'.Audited g copies (pages ++ writtenBy events) := by
  induction events generalizing f pages with
  | nil =>
    cases hr
    rwa [show writtenBy [] = [] from rfl, List.append_nil]
  | cons ev rest ih =>
    rw [List.foldlM_cons] at hr
    obtain ⟨f₁, hstep, hrest⟩ := bind_eq_ok.mp hr
    have hrange := hev ev (List.mem_cons_self ..)
    have h₁ : f₁.Audited g copies (pages ++ writtenBy [ev]) := by
      cases ev with
      | tick π =>
        cases hstep
        rw [show writtenBy [.tick π] = [] from rfl, List.append_nil]
        exact h.untracked
      | write swr lpn =>
        obtain ⟨⟨completed, f₂⟩, hpage, hstep⟩ := bind_eq_ok.mp hstep
        cases hstep
        exact (h.writePage hrange swr).of_ok hpage
    rw [← List.singleton_append, writtenBy_append, ← List.append_assoc]
    exact ih h₁ (fun ev' hmem => hev ev' (List.mem_cons_of_mem _ hmem)) hrest

/-- The initialisation leaves the counter of copies as it was in memory. -/
theorem convInitFtl_copyCnt {mem : ConvFtl} {b : Bool} {cpp : Convparams} {ssd : Ssd}
    (hr : convInitFtl mem b cpp ssd = .ok f) : f.copyCnt = mem.copyCnt := by
  simp only [convInitFtl, bind_eq_ok] at hr
  obtain ⟨f₁, h₁, f₂, h₂, f₃, h₃, hr⟩ := hr
  cases hr
  show f₃.copyCnt = mem.copyCnt
  rw [fixed_copyCnt.prepareWritePointer h₃, fixed_copyCnt.prepareWritePointer h₂]
  unfold ConvFtl.initLines at h₁
  dsimp only at h₁
  split at h₁
  all_goals
    simp only [bind_eq_ok] at h₁
    obtain ⟨_, -, h₁⟩ := h₁
    cases h₁
    rfl

/-- A new instance has nothing to account for but the value that its counter of copies had. -/
theorem convInitFtl_audited {mem : ConvFtl} {clock : Clock} {spp : Ssdparams} (hfits : g.Fits spp)
    (hr : convInitFtl mem true convInitParams (ssdInit spp clock) = .ok f) :
    f.Audited g mem.copyCnt [] := by
  obtain ⟨cls, w, hidle, hmap, -⟩ := (convInitFtl_spec mem clock hfits).of_ok hr
  have hssd := convInitFtl_ssd hr
  have hblk : ∀ a, (f.ssd.blk a).eraseCnt = 0 ∧ (f.ssd.blk a).vpc = 0 ∧ (f.ssd.blk a).ipc = 0 := by
    intro a
    have hplane : f.ssd.blk a = ssdInitNandPlane spp a.blk := by
      rw [hssd]
      rfl
    rw [hplane, ssdInitNandPlane]
    split <;> exact ⟨rfl, rfl, rfl⟩
  have hused : ∀ m, f.usedPages m = 0 := by
    intro m
    refine Finset.sum_eq_zero fun l hl => ?_
    have hlt := (g.hasLine_iff.mp (hidle.ok.mem_poolLines.mp hl)).1
    have hline := hidle.ok.pools.line l hlt
    rw [hline.vpc (hidle.settled l hlt), hline.ipc (hidle.settled l hlt), Nat.add_eq_zero_iff]
    exact ⟨Finset.sum_eq_zero fun d _ => (hblk _).2.1, Finset.sum_eq_zero fun d _ => (hblk _).2.2⟩
  have herased : ∀ m, f.erasedPages m = 0 := by
    intro m
    refine Finset.sum_eq_zero fun l _ => ?_
    rw [ConvFtl.erases, (hblk _).1, Nat.zero_mul]
  refine ⟨cls, w, hidle, ⟨fun lpn => ?_, ?_, ?_, fun l ch _ lun _ => ?_⟩⟩
  · simp [hmap]
  · rw [hused, herased]
    rfl
  · rw [hused, herased, convInitFtl_copyCnt hr, Nat.add_zero]
  · exact (hblk _).1.trans (hblk _).1.symm

/-! ## Runs of a namespace -/

/-- The accounts of every instance after a run. -/
theorem run_audited {cfg : SlcConfig} {mem : ConvMemory} {clock : Clock} {size : Nat}
    {events : List ConvEvent} {ns : ConvNs}
    (h : convRun cfg.toSsdConfig mem clock size events = .ok ns) :
    ∃ log, convLog cfg.toSsdConfig mem clock size events = .ok (ns, log) ∧ 0 < ns.nrParts ∧
      ∃ g : Geometry, ∀ i < ns.nrParts,
        (ns.ftls i).Audited g (mem.ftls i).copyCnt (stripe ns.nrParts i log) := by
  obtain ⟨log, g, spp, base, hlog, hfits, -, hparts, hbase, hend⟩ := slcRun_striped h
  refine ⟨log, hlog, hparts, g, fun i hi => ?_⟩
  obtain ⟨evs, hall, hevs, hpages⟩ := hend.inst i hi
  have haudited := (convInitFtl_audited hfits (hbase i hi)).run hall hevs
  rwa [List.nil_append, hpages] at haudited

/-- A logical page is mapped exactly when an accepted write has covered it, and the valid pages
of an instance are as many as the pages it was ever told to write, each counted once. -/
theorem mapped_iff_written (cfg : SlcConfig) (mem : ConvMemory) (clock : Clock) (size : Nat)
    (events : List ConvEvent) (ns : ConvNs)
    (h : convRun cfg.toSsdConfig mem clock size events = .ok ns) :
    ∃ log, convLog cfg.toSsdConfig mem clock size events = .ok (ns, log) ∧
      (∀ lpn, (ns.ftls (lpn % ns.nrParts)).getMaptblEnt (lpn / ns.nrParts) ≠ none ↔ lpn ∈ log) ∧
      ∀ i < ns.nrParts,
        ∑ l ∈ Finset.range (ns.ftls i).ssd.sp.ttLines, ((ns.ftls i).lines l).vpc =
          (stripe ns.nrParts i log).toFinset.card := by
  obtain ⟨log, hlog, hparts, g, haudit⟩ := run_audited h
  refine ⟨log, hlog, fun lpn => ?_, fun i hi => ?_⟩
  · have hi := Nat.mod_lt lpn hparts
    obtain ⟨cls, w, -, hbal⟩ := haudit _ hi
    rw [ConvFtl.getMaptblEnt, ne_eq, hbal.mapped, not_not, mem_stripe hi, Nat.div_add_mod']
  · obtain ⟨cls, w, hidle, hbal⟩ := haudit i hi
    rw [hidle.ok.static.fits.ttLines, hidle.sum_vpc]
    congr 1
    ext lpn
    rw [Finset.mem_filter, Finset.mem_range, List.mem_toFinset, ne_eq, hbal.mapped, not_not]
    refine and_iff_right_of_imp fun hmem => hidle.maps.dom lpn ?_
    rwa [ne_eq, hbal.mapped, not_not]

/-- Sixteen pages and five of them once more on the small device: its lines hold one valid page for
each page that was written. -/
theorem mapped_iff_written_twice : ∃ (ns : ConvNs) (log : List Nat),
    convLog oneDie.toSsdConfig default default (kb 576)
      [.command ⟨1, 5⟩ (.write ⟨0, 127, false⟩), .release 0, .release 0,
        .command ⟨1, 9⟩ (.write ⟨0, 39, false⟩)] = .ok (ns, log) ∧
    log = List.range 16 ++ List.range 5 ∧ (ns.ftls 0).getMaptblEnt 15 ≠ none ∧
      (ns.ftls 0).getMaptblEnt 16 = none ∧
      ∑ l ∈ Finset.range (ns.ftls 0).ssd.sp.ttLines, ((ns.ftls 0).lines l).vpc = 16 := by
  have hok : (convLog oneDie.toSsdConfig default default (kb 576)
      [.command ⟨1, 5⟩ (.write ⟨0, 127, false⟩), .release 0, .release 0,
        .command ⟨1, 9⟩ (.write ⟨0, 39, false⟩)]).map
        (fun s => (decide (s.1.nrParts = 1), s.2)) = .ok (true, List.range 16 ++ List.range 5) := by
    decide +kernel
  obtain ⟨⟨ns, log⟩, hlog, hns⟩ := except_map_eq_ok.mp hok
  obtain ⟨hparts, rfl⟩ := Prod.mk.inj hns
  have hparts : ns.nrParts = 1 := of_decide_eq_true hparts
  have hrun := convRunLog_fst ConvNs.lpns oneDie.toSsdConfig default default (kb 576)
    [.command ⟨1, 5⟩ (.write ⟨0, 127, false⟩), .release 0, .release 0,
      .command ⟨1, 9⟩ (.write ⟨0, 39, false⟩)]
  rw [show convRunLog _ _ _ _ _ _ = _ from hlog] at hrun
  obtain ⟨log', hlog', hmap, hsum⟩ := mapped_iff_written oneDie default default (kb 576) _ ns
    hrun.symm
  obtain ⟨-, rfl⟩ := Prod.mk.inj (Except.ok.inj (hlog.symm.trans hlog'))
  rw [hparts] at hmap hsum
  refine ⟨ns, _, hlog, rfl, (hmap 15).mpr (by decide), ?_, hsum 0 Nat.one_pos⟩
  exact not_not.mp fun hne => absurd ((hmap 16).mp hne) (by decide)

/-- The accounts of a run: the pages programmed in the SLC pool are those that the host wrote,
those programmed in the TLC pool are the copies that were counted, and the blocks of a line wear
evenly. -/
theorem page_accounts_balance (cfg : SlcConfig) (mem : ConvMemory) (clock : Clock) (size : Nat)
    (events : List ConvEvent) (ns : ConvNs)
    (h : convRun cfg.toSsdConfig mem clock size events = .ok ns) :
    ∃ log, convLog cfg.toSsdConfig mem clock size events = .ok (ns, log) ∧
      ∀ i < ns.nrParts,
        (ns.ftls i).usedPages .slc + (ns.ftls i).erasedPages .slc =
          (stripe ns.nrParts i log).length ∧
        (mem.ftls i).copyCnt + ((ns.ftls i).usedPages .tlc + (ns.ftls i).erasedPages .tlc) =
          (ns.ftls i).copyCnt ∧
        ∀ l, ∀ ch < (ns.ftls i).ssd.sp.nchs, ∀ lun < (ns.ftls i).ssd.sp.lunsPerCh,
          (ns.ftls i).erases (lineAddr l (ch, lun)) = (ns.ftls i).erases (lineAddr l (0, 0)) := by
  obtain ⟨log, hlog, -, g, haudit⟩ := run_audited h
  refine ⟨log, hlog, fun i hi => ?_⟩
  obtain ⟨cls, w, -, hbal⟩ := haudit i hi
  exact ⟨hbal.host, hbal.copied, hbal.even⟩

/-- The same writes: the SLC pool gave five lines to the TLC pool, four pages each. -/
theorem page_accounts_balance_migrated : ∃ ns log,
    convLog oneDie.toSsdConfig default default (kb 576)
      [.command ⟨1, 5⟩ (.write ⟨0, 127, false⟩), .release 0, .release 0,
        .command ⟨1, 9⟩ (.write ⟨0, 39, false⟩)] = .ok (ns, log) ∧
    (ns.ftls 0).copyCnt = 20 ∧ (ns.ftls 0).usedPages .slc + (ns.ftls 0).erasedPages .slc = 21 ∧
      (ns.ftls 0).usedPages .tlc + (ns.ftls 0).erasedPages .tlc = 20 := by
  have hok : (convLog oneDie.toSsdConfig default default (kb 576)
      [.command ⟨1, 5⟩ (.write ⟨0, 127, false⟩), .release 0, .release 0,
        .command ⟨1, 9⟩ (.write ⟨0, 39, false⟩)]).map
        (fun s => (decide (s.1.nrParts = 1 ∧ (s.1.ftls 0).copyCnt = 20), s.2)) =
      .ok (true, List.range 16 ++ List.range 5) := by
    decide +kernel
  obtain ⟨⟨ns, log⟩, hlog, hns⟩ := except_map_eq_ok.mp hok
  obtain ⟨hfacts, rfl⟩ := Prod.mk.inj hns
  obtain ⟨hparts, hcopies⟩ : ns.nrParts = 1 ∧ (ns.ftls 0).copyCnt = 20 := of_decide_eq_true hfacts
  have hrun := convRunLog_fst ConvNs.lpns oneDie.toSsdConfig default default (kb 576)
    [.command ⟨1, 5⟩ (.write ⟨0, 127, false⟩), .release 0, .release 0,
      .command ⟨1, 9⟩ (.write ⟨0, 39, false⟩)]
  rw [show convRunLog _ _ _ _ _ _ = _ from hlog] at hrun
  obtain ⟨log', hlog', hinst⟩ := page_accounts_balance oneDie default default (kb 576) _ ns
    hrun.symm
  obtain ⟨-, rfl⟩ := Prod.mk.inj (Except.ok.inj (hlog.symm.trans hlog'))
  rw [hparts] at hinst
  obtain ⟨hhost, hcopied, -⟩ := hinst 0 Nat.one_pos
  refine ⟨ns, _, hlog, hcopies, hhost, ?_⟩
  rw [hcopies] at hcopied
  exact (Nat.zero_add _).symm.trans hcopied

end NvmeVirt
