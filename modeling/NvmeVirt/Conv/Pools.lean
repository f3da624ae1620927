import NvmeVirt.Conv.Containers

/-!
# The two pools of an instance

The lines of both pools with their counters and containers, and one lemma for each
function of the translation layer that changes them. Under the invariant every
assertion in these functions holds.
-/

namespace NvmeVirt

open Checked

/-- The pools of an instance: the line of pool `m` under its write pointer is `cur m`, and
`w m` of its pages are written. -/
structure PoolsOk (g : Geometry) (cls : Nat → LineClass) (cur : LineMode → Option Nat)
    (w : LineMode → Nat) (blk : BlkAddr → NandBlock) (lines : Nat → Line)
    (mgmt : LineMode → LineMgmt) : Prop where
  line : ∀ l, l < g.ttLines →
    LineOk g (g.pool l) (cls l) (w (g.pool l)) l (fun d => blk (lineAddr l d)) (lines l)
  cont : ∀ m, Containers g m cls (cur m) lines (mgmt m)

/-- The instance with other lines and pools. -/
def ConvFtl.withLines (f : ConvFtl) (lines : Nat → Line) (mgmt : LineMode → LineMgmt) : ConvFtl :=
  { f with lines := lines, slm := mgmt .slc, lm := mgmt .tlc }

@[simp] theorem ConvFtl.withLines_mgmt (f : ConvFtl) (lines : Nat → Line)
    (mgmt : LineMode → LineMgmt) : (f.withLines lines mgmt).mgmt = mgmt := by
  ext m : 1
  cases m <;> rfl

theorem ConvFtl.setMgmt_eq (f : ConvFtl) (m : LineMode) (lm : LineMgmt) :
    f.setMgmt m lm = f.withLines f.lines (Function.update f.mgmt m lm) := by
  cases m <;> simp [setMgmt, withLines, mgmt]

/-- The status of a page. -/
def ConvFtl.status (f : ConvFtl) (p : Ppa) : PageStatus := (f.ssd.getBlk p).statusAt p.pg

theorem Geometry.Valid.addr_eq {g : Geometry} {p : Ppa} (h : g.Valid p) :
    p.addr = lineAddr p.blk (p.ch, p.lun) := by
  simp [Ppa.addr, lineAddr, h.pl]

theorem Geometry.Valid.mem_dies {g : Geometry} {p : Ppa} (h : g.Valid p) :
    (p.ch, p.lun) ∈ g.dies :=
  Geometry.mem_dies.mpr ⟨h.ch, h.lun⟩

theorem Geometry.Valid.hasLine {g : Geometry} {p : Ppa} (h : g.Valid p) :
    g.HasLine (g.pool p.blk) p.blk :=
  g.hasLine_iff.mpr ⟨h.blk, rfl⟩

/-- Storing a pool back keeps the constant parts. -/
theorem ConvFtl.Static.update {f : ConvFtl} {g : Geometry} (h : f.Static g) {m : LineMode}
    {lm : LineMgmt} {lines : Nat → Line} (hlm : lm.ttLines = g.lines m) :
    (f.withLines lines (Function.update f.mgmt m lm)).Static g := by
  refine ⟨h.fits, h.slcMode, h.cp, ?_⟩
  cases m
  · exact hlm
  · exact h.slmLines

/-- A store to the block of a page changes one block of one line. -/
theorem update_lineAddr (blk : BlkAddr → NandBlock) (l : Nat) (d : Nat × Nat) (b : NandBlock) :
    (fun d' => Function.update blk (lineAddr l d) b (lineAddr l d')) =
      Function.update (fun d' => blk (lineAddr l d')) d b := by
  ext d' : 1
  by_cases h : d' = d
  · subst h
    simp
  · rw [Function.update_of_ne h, Function.update_of_ne fun he => h (lineAddr_inj.mp he).2]

namespace PoolsOk

variable {g : Geometry} {cls : Nat → LineClass} {cur : LineMode → Option Nat}
  {w w' : LineMode → Nat} {blk blk' : BlkAddr → NandBlock} {lines lines' : Nat → Line}
  {mgmt : LineMode → LineMgmt} {l : Nat}

/-- A step that changes one line of one pool: what it establishes for this line and this
pool holds for the device. -/
theorem update (h : PoolsOk g cls cur w blk lines mgmt) (c : LineClass) (cur' : Option Nat)
    (lm : LineMgmt) (w' : LineMode → Nat) (blk' : BlkAddr → NandBlock) (lines' : Nat → Line)
    {m : LineMode} (hm : g.HasLine m l)
    (hline : LineOk g m c (w' m) l (fun d => blk' (lineAddr l d)) (lines' l))
    (hcont : Containers g m (Function.update cls l c) cur' lines' lm)
    (hblk : ∀ l', l' ≠ l → ∀ d, blk' (lineAddr l' d) = blk (lineAddr l' d))
    (hcnt : ∀ l', l' ≠ l → (lines' l').id = (lines l').id ∧ (lines' l').vpc = (lines l').vpc ∧
      (lines' l').ipc = (lines l').ipc)
    (hpos : ∀ l', ¬ g.HasLine m l' → (lines' l').pos = (lines l').pos)
    (hw : ∀ l', l' ≠ l → l' < g.ttLines → cls l' = .current → w' (g.pool l') = w (g.pool l')) :
    PoolsOk g (Function.update cls l c) (Function.update cur m cur') w' blk' lines'
      (Function.update mgmt m lm) := by
  constructor
  · intro l' hl'
    by_cases he : l' = l
    · subst he
      rw [Function.update_self, g.hasLine_pool hm]
      exact hline
    · rw [Function.update_of_ne he, show (fun d => blk' (lineAddr l' d)) =
        fun d => blk (lineAddr l' d) from funext (hblk l' he)]
      obtain ⟨hid, hv, hp⟩ := hcnt l' he
      exact (h.line l' hl').congr hid hv hp (hw l' he hl')
  · intro m'
    by_cases he : m' = m
    · subst he
      rwa [Function.update_self, Function.update_self]
    · rw [Function.update_of_ne he, Function.update_of_ne he]
      have hne : ∀ l', g.HasLine m' l' → ¬ g.HasLine m l' :=
        fun l' hl' hl => he (g.hasLine_unique hl' hl)
      refine (h.cont m').congr (fun l' hl' => ?_) fun l' hl' => hpos l' (hne l' hl')
      rw [Function.update_of_ne fun hll : l' = l => hne l' hl' (hll.symm ▸ hm)]

/-- Moving a line between containers without touching blocks or counters. -/
theorem move (h : PoolsOk g cls cur w blk lines mgmt) (w' : LineMode → Nat) {c : LineClass}
    {cur' : Option Nat} {lm : LineMgmt} {m : LineMode} (hm : g.HasLine m l)
    (hline : LineOk g m c (w' m) l (fun d => blk (lineAddr l d)) (lines l))
    (hcont : Containers g m (Function.update cls l c) cur' lines' lm)
    (hrep : Repositioned g m lines lines')
    (hw : ∀ l', l' ≠ l → l' < g.ttLines → cls l' = .current → w' (g.pool l') = w (g.pool l')) :
    PoolsOk g (Function.update cls l c) (Function.update cur m cur') w' blk lines'
      (Function.update mgmt m lm) :=
  h.update c cur' lm w' blk lines' hm (hline.congr (hrep.id l) (hrep.vpc l) (hrep.ipc l) fun _ => rfl) hcont
    (fun _ _ _ => rfl) (fun l' _ => ⟨hrep.id l', hrep.vpc l', hrep.ipc l'⟩) hrep.pos hw

end PoolsOk

/-! ## Page states -/

section

variable {g : Geometry} {cls : Nat → LineClass} {cur : LineMode → Option Nat}
  {w : LineMode → Nat} {f : ConvFtl} {p : Ppa}

/-- The pools of the instance satisfy the invariant. -/
def ConvFtl.PoolsOk (f : ConvFtl) (g : Geometry) (cls : Nat → LineClass)
    (cur : LineMode → Option Nat) (w : LineMode → Nat) : Prop :=
  NvmeVirt.PoolsOk g cls cur w f.ssd.blk f.lines f.mgmt

/-- The line of an address. -/
theorem ConvFtl.PoolsOk.lineOk (h : f.PoolsOk g cls cur w) (hp : g.Valid p) :
    LineOk g (g.pool p.blk) (cls p.blk) (w (g.pool p.blk)) p.blk
      (fun d => f.ssd.blk (lineAddr p.blk d)) (f.lines p.blk) :=
  h.line p.blk hp.blk

/-- The block of an address. -/
theorem ConvFtl.PoolsOk.blockOk (h : f.PoolsOk g cls cur w) (hp : g.Valid p) :
    BlockOk (g.pgsPerBlk (g.pool p.blk)) (f.ssd.getBlk p) := by
  have := (h.lineOk hp).blocks _ hp.mem_dies
  rwa [← hp.addr_eq] at this

/-- `get_pg` stays inside the block. -/
theorem ConvFtl.PoolsOk.getPg (h : f.PoolsOk g cls cur w) (hp : g.Valid p) :
    f.ssd.getPg p = .ok ((f.ssd.getBlk p).pg p.pg) := by
  have hlt : (p.pg : Int) < (f.ssd.getBlk p).npgs := by
    rw [(h.blockOk hp).npgs]
    exact_mod_cast hp.pg
  simp only [Ssd.getPg, require_pos hlt, ok_bind]
  rfl

/-- The pages of a free line are free. -/
theorem ConvFtl.PoolsOk.status_eq_free (h : f.PoolsOk g cls cur w) (hp : g.Valid p)
    (hc : cls p.blk = .free) : f.status p = .free := by
  have hl := h.lineOk hp
  rw [hc] at hl
  have hfree := hl.status_free hp.mem_dies hp.pg
  rwa [← hp.addr_eq] at hfree

/-- The part of `mark_page_invalid` on the page and its block. -/
theorem ConvFtl.PoolsOk.invalidateBlkPage (h : f.PoolsOk g cls cur w) (hst : f.Static g)
    (hp : g.Valid p) (hs : f.status p = .valid) :
    f.invalidateBlkPage p =
      .ok { f with ssd := f.ssd.setBlk p ((f.ssd.getBlk p).invalidate p.pg) } := by
  have hb := h.blockOk hp
  have hipc := hb.ipc_lt hp.pg (by rw [show (f.ssd.getBlk p).statusAt p.pg = .valid from hs]; decide)
  have hvpc := hb.vpc_pos hp.pg hs
  have hsum := hb.sum_eq
  have hs' : ((f.ssd.getBlk p).pg p.pg).status = .valid := hs
  simp only [ConvFtl.invalidateBlkPage, h.getPg hp, ok_bind, require_pos hs', hst.ppaPool,
    hst.fits.pgsPerBlk]
  rw [require_pos (by exact_mod_cast hipc), ok_bind,
    require_pos ⟨hvpc, by exact_mod_cast (by omega : (f.ssd.getBlk p).vpc ≤ _)⟩, ok_bind]
  rfl

/-- The part of `mark_page_invalid` on the `vpc` of the line. -/
theorem decLineVpc_spec {m : LineMode} {l : Nat} {cur' : Option Nat}
    (h : Containers g m cls cur' f.lines (f.mgmt m)) (hm : g.HasLine m l) :
    ∃ lines lm, f.decLineVpc m l = f.withLines lines (Function.update f.mgmt m lm) ∧
      Containers g m cls cur' lines lm ∧ lm.freeLineList = (f.mgmt m).freeLineList ∧
      Repositioned g m
        (Function.update f.lines l { f.lines l with vpc := (f.lines l).vpc - 1 }) lines := by
  unfold ConvFtl.decLineVpc
  by_cases hc : cls l = .victim
  · obtain ⟨hcont, hrep⟩ := h.changePriority hm hc ((f.lines l).vpc - 1)
    refine ⟨_, _, ?_, hcont, rfl, hrep⟩
    rw [if_pos (h.pos_ne_zero hm hc)]
    cases m <;> rfl
  · have hpos := h.pos l hm hc
    refine ⟨Function.update f.lines l { f.lines l with vpc := (f.lines l).vpc - 1 }, f.mgmt m, ?_,
      ?_, rfl, ⟨fun _ => rfl, fun _ => rfl, fun _ => rfl, fun _ _ => rfl⟩⟩
    · rw [if_neg (by simpa using hpos), Function.update_eq_self]
      rfl
    · refine h.congr (fun _ _ => rfl) fun l' _ => ?_
      by_cases he : l' = l
      · subst he
        rw [Function.update_self]
      · rw [Function.update_of_ne he]

/-- The part of `mark_page_invalid` that moves a line out of the full list. -/
theorem fullToVictim_spec {m : LineMode} {l : Nat} {cur' : Option Nat} (hst : f.Static g)
    (h : Containers g m cls cur' f.lines (f.mgmt m)) (hm : g.HasLine m l) (hc : cls l = .full)
    (hsum : (f.lines l).vpc + (f.lines l).ipc = g.pgsPerLine m) :
    ∃ lines lm, f.fullToVictim m l = .ok (f.withLines lines (Function.update f.mgmt m lm)) ∧
      Containers g m (Function.update cls l .victim) cur' lines lm ∧
      lm.freeLineList = (f.mgmt m).freeLineList ∧ Repositioned g m f.lines lines := by
  obtain ⟨hcont, hrep⟩ := h.fullToVictim hm hc
  have hfree : l ∉ (f.mgmt m).freeLineList := fun hmem => by
    have := ((h.free l).mp hmem).2
    rw [hc] at this
    cases this
  refine ⟨_, _, ?_, hcont, List.erase_of_not_mem hfree, hrep⟩
  have hsum' : ((f.lines l).vpc : Int) + (f.lines l).ipc = f.ssd.sp.curPgsPerLine m := by
    rw [hst.fits.pgsPerLine]
    exact_mod_cast hsum
  simp only [ConvFtl.fullToVictim, require_pos hsum', ok_bind]
  cases m <;> rfl

/-- The part of `mark_page_invalid` on the line, which counts at least one valid page. -/
theorem invalidateLine_spec {l n : Nat} {m : LineMode} {blks : Nat × Nat → NandBlock}
    {cur' : Option Nat} (hst : f.Static g)
    (h : Containers g m cls cur' f.lines (f.mgmt m)) (hm : g.HasLine m l)
    (hl : LineOk g m (cls l) n l blks (f.lines l)) (hc : cls l ≠ .collecting)
    (hpos : 0 < (f.lines l).vpc) (hw : cls l = .current → n < g.pgsPerLine m) :
    ∃ lines lm, f.invalidateLine m l = .ok (f.withLines lines (Function.update f.mgmt m lm)) ∧
      Containers g m (Function.update cls l (LineOk.invalidClass (cls l))) cur' lines lm ∧
      lm.freeLineList = (f.mgmt m).freeLineList ∧
      Repositioned g m (Function.update f.lines l { f.lines l with
        ipc := (f.lines l).ipc + 1
        vpc := (f.lines l).vpc - 1 }) lines := by
  have hsum := hl.sum_le hc
  have hfull : ((f.lines l).vpc : Int) = g.pgsPerLine m ↔ cls l = .full := by
    rw [Nat.cast_inj]
    exact hl.vpc_eq_iff hc hpos hw
  have hfact := hl.fact
  let f₁ : ConvFtl := f.setLine l { f.lines l with ipc := (f.lines l).ipc + 1 }
  have hself : f₁.lines l = { f.lines l with ipc := (f.lines l).ipc + 1 } :=
    Function.update_self ..
  have hother : ∀ l', l' ≠ l → f₁.lines l' = f.lines l' := fun l' he => Function.update_of_ne he ..
  have hcont₁ : Containers g m cls cur' f₁.lines (f₁.mgmt m) := by
    refine h.congr (fun _ _ => rfl) fun l' _ => ?_
    by_cases he : l' = l
    · rw [he, hself]
    · rw [hother l' he]
  obtain ⟨lines, lm, hdec, hcont, hfree, hrep⟩ := decLineVpc_spec hcont₁ hm
  rw [show Function.update f₁.lines l { f₁.lines l with vpc := (f₁.lines l).vpc - 1 } =
    Function.update f.lines l { f.lines l with
      ipc := (f.lines l).ipc + 1
      vpc := (f.lines l).vpc - 1 } by rw [hself]; exact Function.update_idem ..] at hrep
  have hrun : f.invalidateLine m l = if cls l = .full then
      (f₁.decLineVpc m l).fullToVictim m l else .ok (f₁.decLineVpc m l) := by
    have h1 : ((f.lines l).ipc : Int) < g.pgsPerLine m := by omega
    have h2 : cls l = .full → (f.lines l).ipc = 0 := by
      intro hcf
      rw [hcf] at hfact
      exact hfact.2
    have h3 : 0 < (f.lines l).vpc ∧ ((f.lines l).vpc : Int) ≤ g.pgsPerLine m := by omega
    simp only [ConvFtl.invalidateLine, hst.fits.pgsPerLine, require_pos h1, require_pos h2,
      require_pos h3, ok_bind, hfull]
    rfl
  rw [hrun, hdec]
  by_cases hcf : cls l = .full
  · have hsum' : (lines l).vpc + (lines l).ipc = g.pgsPerLine m := by
      rw [hcf] at hfact
      obtain ⟨hv, -⟩ := hfact
      rw [hrep.vpc, hrep.ipc, Function.update_self]
      show (f.lines l).vpc - 1 + ((f.lines l).ipc + 1) = _
      omega
    let f₂ := f₁.withLines lines (Function.update f₁.mgmt m lm)
    have hmgmt : f₂.mgmt m = lm := by simp [f₂]
    have hst₁ : f₁.Static g := ⟨hst.fits, hst.slcMode, hst.cp, hst.slmLines⟩
    obtain ⟨lines', lm', hrun', hcont', hfree', hrep'⟩ := fullToVictim_spec (f := f₂)
      (hst₁.update hcont.ttLines) (by rwa [hmgmt]) hm hcf hsum'
    refine ⟨lines', lm', ?_, ?_, ?_, hrep.trans hrep'⟩
    · rw [if_pos hcf, hrun']
      simp only [f₂, ConvFtl.withLines_mgmt, Function.update_idem]
      rfl
    · rw [hcf]
      exact hcont'
    · rw [hfree', hmgmt, hfree]
      rfl
  · refine ⟨lines, lm, ?_, ?_, hfree, hrep⟩
    · rw [if_neg hcf]
      rfl
    · have hcls : LineOk.invalidClass (cls l) = cls l := by
        cases hcl : cls l <;> simp_all [LineOk.invalidClass]
      rwa [hcls, Function.update_eq_self]

/-- `mark_page_invalid` on a valid page of a line that is not being collected. -/
theorem ConvFtl.PoolsOk.markPageInvalid (h : f.PoolsOk g cls cur w) (hst : f.Static g)
    (hp : g.Valid p) (hs : f.status p = .valid) (hc : cls p.blk ≠ .collecting)
    (hw : ∀ m, cls p.blk = .current → w m < g.pgsPerLine m) :
    ∃ lines lm, f.markPageInvalid p = .ok ({ f with
        ssd := f.ssd.setBlk p ((f.ssd.getBlk p).invalidate p.pg) }.withLines lines
          (Function.update f.mgmt (g.pool p.blk) lm)) ∧
      NvmeVirt.PoolsOk g (Function.update cls p.blk (LineOk.invalidClass (cls p.blk))) cur w
        (f.ssd.setBlk p ((f.ssd.getBlk p).invalidate p.pg)).blk lines
        (Function.update f.mgmt (g.pool p.blk) lm) ∧
      lm.freeLineList = (f.mgmt (g.pool p.blk)).freeLineList := by
  have hl := h.lineOk hp
  have hs' : (f.ssd.blk (lineAddr p.blk (p.ch, p.lun))).statusAt p.pg = .valid := by
    rw [← hp.addr_eq]
    exact hs
  let b := (f.ssd.getBlk p).invalidate p.pg
  let f₁ : ConvFtl := { f with ssd := f.ssd.setBlk p b }
  have hst₁ : f₁.Static g := ⟨hst.fits, hst.slcMode, hst.cp, hst.slmLines⟩
  obtain ⟨lines, lm, hrun, hcont, hfree, hrep⟩ := invalidateLine_spec (f := f₁) hst₁
    (h.cont (g.pool p.blk)) hp.hasLine hl hc (hl.vpc_pos hc hp.mem_dies hp.pg hs') (hw _)
  refine ⟨lines, lm, ?_, ?_, hfree⟩
  · simp only [ConvFtl.markPageInvalid, require_pos hst.ttLinesSlc, ok_bind,
      h.invalidateBlkPage hst hp hs]
    rw [show f₁.ppaPool p = g.pool p.blk from hst₁.ppaPool p,
      show f₁.getLine p = p.blk from hst₁.getLine p]
    exact hrun
  · have hnew := PoolsOk.update h _ _ lm w f₁.ssd.blk lines hp.hasLine ?_ hcont ?_ ?_ ?_
      (fun _ _ _ _ => rfl)
    · rwa [Function.update_eq_self] at hnew
    · show LineOk g _ _ _ _ (fun d => Function.update f.ssd.blk p.addr b (lineAddr p.blk d)) _
      rw [hp.addr_eq, update_lineAddr]
      have := hl.invalidate hc hp.mem_dies hp.pg hs' (lines p.blk)
        (by rw [hrep.id, Function.update_self]) (by rw [hrep.vpc, Function.update_self])
        (by rw [hrep.ipc, Function.update_self])
      rwa [← hp.addr_eq] at this
    · intro l' he d
      show Function.update f.ssd.blk p.addr b _ = _
      rw [hp.addr_eq, Function.update_of_ne fun h' => he (lineAddr_inj.mp h').1]
    · intro l' he
      rw [hrep.id, hrep.vpc, hrep.ipc, Function.update_of_ne he]
      exact ⟨rfl, rfl, rfl⟩
    · intro l' hl'
      rw [hrep.pos l' hl', Function.update_of_ne fun he : l' = p.blk => hl' (he ▸ hp.hasLine)]

/-- `mark_page_valid` on the next page of the line under a write pointer. -/
theorem ConvFtl.PoolsOk.markPageValid (h : f.PoolsOk g cls cur w) (hst : f.Static g)
    (hp : g.Valid p) (hpg : p.pg < 2 ^ pageBits) (hcur : cur (g.pool p.blk) = some p.blk)
    (hr : g.rank (g.pool p.blk) p.ch p.lun p.pg = w (g.pool p.blk)) :
    f.markPageValid p = .ok ({ f with
        ssd := f.ssd.setBlk p ((f.ssd.getBlk p).validate p.pg) }.setLine p.blk
          { f.lines p.blk with vpc := (f.lines p.blk).vpc + 1 }) ∧
      NvmeVirt.PoolsOk g cls cur
        (Function.update w (g.pool p.blk) (w (g.pool p.blk) + 1))
        (f.ssd.setBlk p ((f.ssd.getBlk p).validate p.pg)).blk
        (Function.update f.lines p.blk
          { f.lines p.blk with vpc := (f.lines p.blk).vpc + 1 }) f.mgmt := by
  have hcls : cls p.blk = .current := (((h.cont _).current _).mp hcur).2
  have hl := h.lineOk hp
  rw [hcls] at hl
  have hb := h.blockOk hp
  have hfree : (f.ssd.getBlk p).statusAt p.pg = .free := by
    by_contra hne
    rw [Ssd.getBlk, hp.addr_eq] at hne
    have hlt : g.rank (g.pool p.blk) p.ch p.lun p.pg < w (g.pool p.blk) :=
      (hl.written rfl _ hp.mem_dies p.pg hp.pg).mp hne
    omega
  have hvpc := hb.vpc_lt hp.pg (by rw [hfree]; decide)
  have hrank := g.rank_lt hp.ch hp.lun hp.pg
  have hfact : (f.lines p.blk).vpc + (f.lines p.blk).ipc = w (g.pool p.blk) := hl.fact
  let b := (f.ssd.getBlk p).validate p.pg
  let f₁ : ConvFtl := { f with ssd := f.ssd.setBlk p b }
  have hst₁ : f₁.Static g := ⟨hst.fits, hst.slcMode, hst.cp, hst.slmLines⟩
  constructor
  · have hblk : f.validateBlkPage p = .ok f₁ := by
      have hfree' : ((f.ssd.getBlk p).pg p.pg).status = .free := hfree
      simp only [ConvFtl.validateBlkPage, h.getPg hp, ok_bind, require_pos hfree', hst.ppaPool,
        hst.fits.pgsPerBlk]
      rw [require_pos (by exact_mod_cast hvpc), ok_bind]
      rfl
    have hlt : ((f₁.lines p.blk).vpc : Int) < f₁.ssd.sp.curPgsPerLine (g.pool p.blk) := by
      rw [hst₁.fits.pgsPerLine]
      show ((f.lines p.blk).vpc : Int) < _
      omega
    simp only [ConvFtl.markPageValid, hblk, ok_bind]
    rw [hst₁.ppaPool, hst₁.getLine, ConvFtl.validateLine]
    rw [require_pos hlt, ok_bind]
    rfl
  · have hnew := PoolsOk.update h .current (cur (g.pool p.blk)) (f.mgmt (g.pool p.blk))
      (Function.update w (g.pool p.blk) (w (g.pool p.blk) + 1)) f₁.ssd.blk
      (Function.update f.lines p.blk
        { f.lines p.blk with vpc := (f.lines p.blk).vpc + 1 }) hp.hasLine ?_ ?_ ?_ ?_ ?_ ?_
    · rwa [Function.update_eq_self, Function.update_eq_self, ← hcls,
        Function.update_eq_self] at hnew
    · show LineOk g _ _ _ _ (fun d => Function.update f.ssd.blk p.addr b (lineAddr p.blk d)) _
      rw [hp.addr_eq, update_lineAddr, Function.update_self, Function.update_self]
      have := hl.validate hp.mem_dies hp.pg hpg hr
        { f.lines p.blk with vpc := (f.lines p.blk).vpc + 1 } rfl rfl rfl
      rwa [← hp.addr_eq] at this
    · rw [← hcls, Function.update_eq_self]
      refine (h.cont _).congr (fun _ _ => rfl) fun l' _ => ?_
      by_cases he : l' = p.blk
      · subst he
        rw [Function.update_self]
      · rw [Function.update_of_ne he]
    · intro l' he d
      show Function.update f.ssd.blk p.addr b _ = _
      rw [hp.addr_eq, Function.update_of_ne fun h' => he (lineAddr_inj.mp h').1]
    · intro l' he
      rw [Function.update_of_ne he]
      exact ⟨rfl, rfl, rfl⟩
    · intro l' hl'
      rw [Function.update_of_ne fun he : l' = p.blk => hl' (he ▸ hp.hasLine)]
    · intro l' he hl' hc'
      by_cases hm : g.pool l' = g.pool p.blk
      · have := ((h.cont _).current l').mpr ⟨g.hasLine_iff.mpr ⟨hl', hm⟩, hc'⟩
        rw [hcur] at this
        exact absurd (Option.some.inj this).symm he
      · rw [Function.update_of_ne hm]

end

end NvmeVirt
