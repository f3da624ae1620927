import NvmeVirt.Conv.WritePointer
import NvmeVirt.Library.InverseMaps

/-!
# The forward and the reverse map

`maptbl` and `rmap` are inverse maps between logical pages and live pages: the valid pages
that have not been copied away. While a line is collected its copied pages stay valid
until their block is freed; they are the stale pages.
-/

namespace NvmeVirt

open Checked InverseMaps MixedRadix

variable {g : Geometry} {cls : Nat → LineClass} {w : LineMode → Nat} {f f' : ConvFtl}
  {stale stale' : Ppa → Prop} {m : LineMode} {lpn : Nat} {p q : Ppa}

/-- A page that holds the current copy of some logical page. -/
def Live (g : Geometry) (stale : Ppa → Prop) (f : ConvFtl) (p : Ppa) : Prop :=
  g.Valid p ∧ f.status p = .valid ∧ ¬ stale p

/-- The maps of an instance whose copied pages are `stale`. -/
structure MapOk (g : Geometry) (stale : Ppa → Prop) (f : ConvFtl) : Prop where
  inverse : Inverse f.maptbl (fun p => f.rmap (g.pgidx p)) (Live g stale f)
  dom : ∀ lpn, f.maptbl lpn ≠ none → lpn < g.ttPgs

/-- The maps depend on the tables and page states only. -/
theorem MapOk.congr (h : MapOk g stale f) (hm : f'.maptbl = f.maptbl) (hr : f'.rmap = f.rmap)
    (hl : ∀ p, Live g stale' f' p ↔ Live g stale f p) : MapOk g stale' f' := by
  refine ⟨?_, ?_⟩
  · rw [hm, hr]
    exact h.inverse.congr hl fun _ _ => rfl
  · rw [hm]
    exact h.dom

/-- A logical page moves to the page `p`, which was not live. -/
theorem MapOk.remap (h : MapOk g stale f) (hlpn : lpn < g.ttPgs)
    (hnew : ¬ Live g stale f p) (hm : f'.maptbl = Function.update f.maptbl lpn (some p))
    (hr : f'.rmap (g.pgidx p) = lpn)
    (hro : ∀ q, Live g stale f q → f.maptbl lpn ≠ some q →
      f'.rmap (g.pgidx q) = f.rmap (g.pgidx q))
    (hl : ∀ q, Live g stale' f' q ↔ q = p ∨ (Live g stale f q ∧ f.maptbl lpn ≠ some q)) :
    MapOk g stale' f' := by
  refine ⟨?_, fun k hk => ?_⟩
  · rw [hm]
    exact h.inverse.remap hnew hr hro hl
  · rw [hm] at hk
    by_cases he : k = lpn
    · rwa [he]
    · rw [Function.update_of_ne he] at hk
      exact h.dom k hk

/-! ## Page states after the stores -/

/-- Addresses with the same block and page are the same. -/
theorem status_setBlk {b : NandBlock} (ssd : Ssd) (hf : f'.ssd.blk = (ssd.setBlk p b).blk)
    (hs : f.ssd.blk = ssd.blk) {st : PageStatus}
    (hb : b.statusAt = Function.update (f.ssd.getBlk p).statusAt p.pg st) :
    f'.status q = if q = p then st else f.status q := by
  unfold ConvFtl.status
  have hget : f'.ssd.getBlk q = Function.update f.ssd.blk p.addr b q.addr := by
    rw [Ssd.getBlk, hf, hs]
    rfl
  rw [hget]
  by_cases ha : q.addr = p.addr
  · rw [ha, Function.update_self, hb]
    by_cases hpg : q.pg = p.pg
    · rw [if_pos (Ppa.ext_addr ha hpg), hpg, Function.update_self]
    · rw [if_neg fun he => hpg (congrArg Ppa.pg he), Function.update_of_ne hpg]
      simp only [Ssd.getBlk, ha]
  · rw [Function.update_of_ne ha, if_neg fun he => ha (congrArg Ppa.addr he)]
    rfl

/-! ## Placing a page -/

/-- What `placePage` does for the pool `m` and the logical page `lpn`. -/
structure PagePlaced (g : Geometry) (m : LineMode) (lpn : Nat) (f : ConvFtl) (p : Ppa)
    (f' : ConvFtl) : Prop where
  valid : g.Valid p
  blk : p.blk = (f.poolWp m).blk
  free : f.status p = .free
  status : ∀ q, f'.status q = if q = p then .valid else f.status q
  otherBlk : ∀ a, a ≠ p.addr → f'.ssd.blk a = f.ssd.blk a
  maptbl : f'.maptbl = Function.update f.maptbl lpn (some p)
  rmap : f'.rmap = Function.update f.rmap (g.pgidx p) lpn
  wfc : f'.wfc = f.wfc
  mgmt : f'.mgmt = f.mgmt
  poolWp : f'.poolWp = f.poolWp
  dyn : f'.dynSlcMode = f.dynSlcMode

/-- `get_new_page` truncates the page number to its field, and nothing else. -/
theorem ConvFtl.Ok.getNewPage (h : f.Ok g cls w) (hpos : 0 < g.oneshots) (m : LineMode) :
    ∃ p, f.getNewPage m.io = .ok p ∧ g.Valid p ∧ p.blk = (f.poolWp m).blk ∧
      p.ch = (f.poolWp m).ch ∧ p.lun = (f.poolWp m).lun ∧
      p.pg = (f.poolWp m).pg % 2 ^ pageBits := by
  have hwp := h.wp m
  have hpg := (hwp.lt hpos).1
  have hch : (f.poolWp m).ch % 2 ^ chBits = (f.poolWp m).ch :=
    Nat.mod_eq_of_lt (hwp.ch.trans_le g.nchs_le)
  have hlun : (f.poolWp m).lun % 2 ^ lunBits = (f.poolWp m).lun :=
    Nat.mod_eq_of_lt (hwp.lun.trans_le g.luns_le)
  have hblk : (f.poolWp m).blk % 2 ^ blkBits = (f.poolWp m).blk :=
    Nat.mod_eq_of_lt (g.hasLine_lt hwp.line)
  have hpl : (f.poolWp m).pl % 2 ^ plBits = 0 := by
    rw [hwp.pl]
    rfl
  refine ⟨{
    ch := (f.poolWp m).ch
    lun := (f.poolWp m).lun
    pg := (f.poolWp m).pg % 2 ^ pageBits
    blk := (f.poolWp m).blk
    pl := 0 }, ?_, ⟨rfl, hwp.ch, hwp.lun, (g.hasLine_iff.mp hwp.line).1, ?_⟩, rfl, rfl, rfl, rfl⟩
  · simp only [ConvFtl.getNewPage, f.getWp_io, hch, hlun, hblk, hpl, require_pos, ok_bind]
    rfl
  · rw [g.hasLine_pool hwp.line]
    exact (Nat.mod_le _ _).trans_lt hpg

/-- A page number that does not fit its field names a page written earlier. -/
theorem rank_truncated_lt (g : Geometry) (m : LineMode) {ch lun pg : Nat}
    (hch : ch < g.nchs) (hlun : lun < g.luns) (h : 2 ^ pageBits ≤ pg) :
    g.rank m ch lun (pg % 2 ^ pageBits) < g.rank m ch lun pg := by
  have hosp := g.pgsPerOneshotpg_pos m
  have hle : g.pgsPerOneshotpg m ≤ 2 ^ pageBits := g.oneshot_le m
  have hlt : pg % 2 ^ pageBits + g.pgsPerOneshotpg m ≤ pg := by
    have := Nat.mod_add_div pg (2 ^ pageBits)
    have hd : 1 ≤ pg / 2 ^ pageBits := (Nat.one_le_div_iff (by simp)).mpr h
    have := Nat.mul_le_mul_left (2 ^ pageBits) hd
    omega
  have hdiv : pg % 2 ^ pageBits / g.pgsPerOneshotpg m < pg / g.pgsPerOneshotpg m := by
    have := Nat.div_le_div_right (c := g.pgsPerOneshotpg m) hlt
    rw [Nat.add_div_right _ hosp] at this
    exact this
  exact pair_lt_pair (pair_lt_pair (pair_lt_pair hdiv hlun) hch) (Nat.mod_lt _ hosp)

/-- `placePage` takes the page of the write pointer. It stops only when the page number does
not fit its field; `mark_page_valid` then meets a page that is not free. -/
theorem ConvFtl.Ok.placePage (h : f.Ok g cls w) (hpos : 0 < g.oneshots) (m : LineMode)
    (hlpn : lpn < g.ttPgs) :
    Outcome (f.placePage m.io lpn)
      (fun r => PagePlaced g m lpn f r.1 r.2 ∧ r.2.Static g ∧
        r.2.PoolsOk g cls r.2.cur (Function.update w m (w m + 1)))
      (fun e => e = .pageNotFree ∧ 2 ^ pageBits ≤ (f.poolWp m).pg) := by
  have hst := h.static
  have hwp := h.wp m
  obtain ⟨p, hget, hp, hblk, hch, hlun, hpg⟩ := h.getNewPage hpos m
  have hpool : g.pool p.blk = m := by rw [hblk, g.hasLine_pool hwp.line]
  let f₁ : ConvFtl := { f with maptbl := Function.update f.maptbl lpn (some p) }
  let f₂ : ConvFtl := { f₁ with rmap := Function.update f.rmap (g.pgidx p) lpn }
  have hst₁ : f₁.Static g := ⟨hst.fits, hst.slcMode, hst.cp, hst.slmLines⟩
  have hst₂ : f₂.Static g := ⟨hst.fits, hst.slcMode, hst.cp, hst.slmLines⟩
  have hmap : f.setMaptblEnt lpn p = .ok f₁ := by
    simp only [setMaptblEnt, hst.fits.ttPgs, require_pos hlpn, ok_bind]
    rfl
  have hrmap : f₁.setRmapEnt lpn p = .ok f₂ := by
    simp only [setRmapEnt, hst₁.ppa2pgidx hp, ok_bind]
    rfl
  have hpools₂ : f₂.PoolsOk g cls f.cur w := h.pools
  have hcur : f.cur (g.pool p.blk) = some p.blk := by
    rw [hpool, hblk]
    rfl
  have hr := hwp.rank
  simp only [ConvFtl.placePage, hget, hmap, hrmap, ok_bind]
  by_cases hbig : 2 ^ pageBits ≤ (f.poolWp m).pg
  · -- the truncated page was written before
    have hl := hpools₂.lineOk hp
    rw [(((hpools₂.cont _).current _).mp hcur).2, hpool] at hl
    have hlt := rank_truncated_lt g m hwp.ch hwp.lun hbig
    rw [← hch, ← hlun, ← hpg, hch, hlun, hr] at hlt
    have hne := (hl.written rfl _ hp.mem_dies p.pg (hpool ▸ hp.pg)).mpr
      (by rwa [← hch, ← hlun] at hlt)
    rw [← hp.addr_eq] at hne
    have herr : f₂.markPageValid p = .error .pageNotFree := by
      have hne' : ¬ ((f₂.ssd.getBlk p).pg p.pg).status = .free := hne
      simp only [markPageValid, validateBlkPage, hpools₂.getPg hp, ok_bind, require_neg hne']
      rfl
    rw [herr]
    exact ⟨rfl, hbig⟩
  · have hpg' : p.pg = (f.poolWp m).pg := by
      rw [hpg, Nat.mod_eq_of_lt (by omega)]
    have hrank : g.rank (g.pool p.blk) p.ch p.lun p.pg = w (g.pool p.blk) := by
      rw [hpool, hch, hlun, hpg', hr]
    obtain ⟨hrun, hpools⟩ := hpools₂.markPageValid hst₂ hp (by omega) hcur hrank
    rw [hrun]
    rw [hpool] at hpools
    have hfree : f.status p = .free := by
      have hl := hpools₂.lineOk hp
      rw [(((hpools₂.cont _).current _).mp hcur).2] at hl
      have hw := hl.written rfl _ hp.mem_dies p.pg hp.pg
      rw [← hp.addr_eq] at hw
      by_contra hne
      have hlt : g.rank (g.pool p.blk) p.ch p.lun p.pg < w (g.pool p.blk) := hw.mp hne
      omega
    exact ⟨⟨hp, hblk, hfree,
      fun q => status_setBlk f.ssd rfl rfl (NandBlock.statusAt_validate _ _),
      fun a ha => Function.update_of_ne ha .., rfl, rfl, rfl, rfl, rfl, rfl⟩, ⟨hst.fits, hst.slcMode, hst.cp, hst.slmLines⟩, hpools⟩

/-! ## Placing a page and advancing the pointer -/

/-- A page of the pool `m` has been written: `w` and `cls` describe the instance before,
`w'` and `cls'` after. -/
structure PageWritten (g : Geometry) (m : LineMode) (lpn : Nat) (cls : Nat → LineClass)
    (w : LineMode → Nat) (f : ConvFtl) (p : Ppa) (cls' : Nat → LineClass) (w' : LineMode → Nat)
    (f' : ConvFtl) : Prop where
  ok : f'.Ok g cls' w'
  valid : g.Valid p
  current : cls p.blk = .current
  free : f.status p = .free
  status : ∀ q, f'.status q = if q = p then .valid else f.status q
  otherBlk : ∀ a, a ≠ p.addr → f'.ssd.blk a = f.ssd.blk a
  maptbl : f'.maptbl = Function.update f.maptbl lpn (some p)
  rmap : f'.rmap = Function.update f.rmap (g.pgidx p) lpn
  wfc : f'.wfc = f.wfc
  mgmt : ∀ m', m' ≠ m → f'.mgmt m' = f.mgmt m'
  poolWp : ∀ m', m' ≠ m → f'.poolWp m' = f.poolWp m'
  dyn : f'.dynSlcMode = f.dynSlcMode ∨ f'.dynSlcMode = m
  advanced : Advanced g m f f' w w'
  collecting : SameCollecting g cls cls'

/-- The ways in which writing a page of the pool `m` can stop: the page number does not fit
its field, or the line is used up and no line is free. -/
def WriteFault (g : Geometry) (m : LineMode) (w : LineMode → Nat) (f : ConvFtl) (e : Fault) : Prop :=
  (e = .pageNotFree ∧ 2 ^ pageBits ≤ (f.poolWp m).pg) ∨
  (e = .noFreeLine m.io ∧ (f.mgmt m).freeLineList = [] ∧ w m + 1 = g.pgsPerLine m)

/-- Advancing the pointer after a page has been placed. -/
theorem PagePlaced.advance {f₁ : ConvFtl} (h : PagePlaced g m lpn f p f₁) (hok : f.Ok g cls w)
    (hst : f₁.Static g) (hpools : f₁.PoolsOk g cls f₁.cur (Function.update w m (w m + 1)))
    (hpos : 0 < g.oneshots) :
    Outcome (f₁.advanceWritePointer m.io)
      (fun f' => ∃ cls' w', PageWritten g m lpn cls w f p cls' w' f')
      (WriteFault g m w f) := by
  have hwp : ∀ m, WpOk g m (f₁.poolWp m) (w m) := fun m => h.poolWp ▸ hok.wp m
  have hcur : f.cur m = some p.blk := congrArg some h.blk.symm
  refine (advanceWritePointer_spec hst hpools hwp hpos).mono ?_ ?_
  · rintro f' ⟨cls', w', hok', hstep, hadv, hcol⟩
    have hstatus : ∀ q, f'.status q = f₁.status q := fun q => by
      simp only [ConvFtl.status, hstep.ssd]
    have hadv' : Advanced g m f f' w w' := by
      unfold Advanced at hadv ⊢
      rwa [h.mgmt, h.poolWp] at hadv
    exact ⟨cls', w', hok', h.valid, (((hok.pools.cont m).current _).mp hcur).2, h.free,
      fun q => (hstatus q).trans (h.status q),
      fun a ha => by rw [hstep.ssd, h.otherBlk a ha], hstep.maptbl.trans h.maptbl,
      hstep.rmap.trans h.rmap, hstep.wfc.trans h.wfc,
      fun m' he => by rw [hstep.mgmt m' he, h.mgmt],
      fun m' he => by rw [hstep.poolWp m' he, h.poolWp], h.dyn ▸ hstep.dyn, hadv', hcol⟩
  · rintro e ⟨he, hnil, hend⟩
    exact Or.inr ⟨he, by rwa [← h.mgmt], hend⟩

end NvmeVirt
