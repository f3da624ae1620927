import NvmeVirt.Conv.Pools

/-!
# Write pointers

A write pointer is at a rank of its line. `advance_write_pointer` moves it to the next
rank; at the end of the line it hands the line to the full list or the victim queue and
opens the first free line of the pool that `dyn_slc_mode` names.
-/

namespace NvmeVirt

open Checked MixedRadix

/-- The write pointer of the pool `m` is at rank `w` of its line. -/
structure WpOk (g : Geometry) (m : LineMode) (wp : WritePointer) (w : Nat) : Prop where
  curline : wp.curline = wp.blk
  line : g.HasLine m wp.blk
  pl : wp.pl = 0
  ch : wp.ch < g.nchs
  lun : wp.lun < g.luns
  pg : wp.pg ≤ g.pgsPerBlk m - 1
  rank : g.rank m wp.ch wp.lun wp.pg = w

variable {g : Geometry} {m : LineMode} {wp : WritePointer} {w : Nat}

/-- The rank of a page from its word line `q` and its place `r` in the one-shot page. -/
theorem Geometry.rank_eq (g : Geometry) (m : LineMode) (ch lun q : Nat) {r : Nat}
    (hr : r < g.pgsPerOneshotpg m) : g.rank m ch lun (g.pgsPerOneshotpg m * q + r) =
      ((q * g.luns + lun) * g.nchs + ch) * g.pgsPerOneshotpg m + r := by
  have hpos := g.pgsPerOneshotpg_pos m
  rw [Geometry.rank, Nat.mul_add_div hpos, Nat.div_eq_of_lt hr, Nat.mul_add_mod,
    Nat.mod_eq_of_lt hr, Nat.add_zero]

/-- A pointer inside its line is at a page of the line. -/
theorem WpOk.lt (h : WpOk g m wp w) (hpos : 0 < g.oneshots) :
    wp.pg < g.pgsPerBlk m ∧ w < g.pgsPerLine m := by
  have hlt : wp.pg < g.pgsPerBlk m := by
    have := g.pgsPerBlk_pos hpos m
    have := h.pg
    omega
  exact ⟨hlt, h.rank ▸ g.rank_lt h.ch h.lun hlt⟩

/-- A pointer moved inside its line. -/
theorem WpOk.moveTo (h : WpOk g m wp w) (w' : Nat) {ch lun pg : Nat} (hch : ch < g.nchs)
    (hlun : lun < g.luns) (hpg : pg < g.pgsPerBlk m) (hrank : g.rank m ch lun pg = w') :
    w' < g.pgsPerLine m ∧ WpOk g m { wp with ch := ch, lun := lun, pg := pg } w' :=
  ⟨hrank ▸ g.rank_lt hch hlun hpg, h.curline, h.line, h.pl, hch, hlun, Nat.le_sub_one_of_lt hpg,
    hrank⟩

/-- Whether the next page still belongs to the one-shot page. -/
theorem succ_mod_ne_zero {n q r : Nat} (hr : r < n) :
    ((n * q + r + 1 : Nat) : Int) % (n : Int) ≠ 0 ↔ r + 1 ≠ n := by
  rw [← Int.natCast_emod, Nat.add_assoc, Nat.mul_add_mod]
  rcases Nat.lt_or_ge (r + 1) n with h | h
  · rw [Nat.mod_eq_of_lt h]
    omega
  · rw [show r + 1 = n by omega, Nat.mod_self]
    simp

/-- The part of `advance_write_pointer` inside a line reaches the next rank, or the end. -/
theorem nextPage_spec {spp : Ssdparams} (hfits : g.Fits spp) (h : WpOk g m wp w)
    (hpos : 0 < g.oneshots) :
    (w + 1 < g.pgsPerLine m ∧ ∃ wp', WpOk g m wp' (w + 1) ∧ wp'.blk = wp.blk ∧
      ConvFtl.nextPage spp (spp.curPgsPerBlk m) (spp.curPgsPerOneshotpg m) wp =
        .ok (wp', false)) ∨
    (w + 1 = g.pgsPerLine m ∧
      ConvFtl.nextPage spp (spp.curPgsPerBlk m) (spp.curPgsPerOneshotpg m) wp =
        .ok ({ wp with pg := 0, ch := 0, lun := 0 }, true)) := by
  obtain ⟨hlt, -⟩ := h.lt hpos
  have hrank := h.rank
  have hosp := g.pgsPerOneshotpg_pos m
  have hch := h.ch
  have hlun := h.lun
  have hblk : g.pgsPerBlk m = g.pgsPerOneshotpg m * g.oneshots := rfl
  have hline := g.pgsPerLine_eq m
  -- the four digits of the position
  obtain ⟨q, r, hr, hpg⟩ : ∃ q r, r < g.pgsPerOneshotpg m ∧
      wp.pg = g.pgsPerOneshotpg m * q + r :=
    ⟨_, _, Nat.mod_lt wp.pg hosp, (Nat.div_add_mod ..).symm⟩
  have hq : q < g.oneshots := by
    rw [hpg, hblk] at hlt
    exact Nat.lt_of_mul_lt_mul_left (Nat.lt_of_le_of_lt (Nat.le_add_right _ r) hlt)
  rw [hpg, g.rank_eq _ _ _ _ hr] at hrank
  simp only [ConvFtl.nextPage, hfits.pgsPerBlk, hfits.pgsPerOneshotpg, hfits.nchs,
    hfits.lunsPerCh, Int.toNat_natCast, require_pos hch, require_pos hlun, ok_bind,
    require_pos (show (wp.pg : Int) < g.pgsPerBlk m by exact_mod_cast hlt)]
  by_cases hr1 : r + 1 = g.pgsPerOneshotpg m
  · have hstart : wp.pg + 1 - g.pgsPerOneshotpg m = g.pgsPerOneshotpg m * q + 0 := by omega
    have hmod : ¬ ((wp.pg + 1 : Nat) : Int) % (g.pgsPerOneshotpg m : Int) ≠ 0 := by
      rw [hpg, succ_mod_ne_zero hr]
      exact not_not.mpr hr1
    have hblkq : ∀ q' < g.oneshots, g.pgsPerOneshotpg m * q' + 0 < g.pgsPerBlk m := by
      intro q' hq'
      rw [hblk, Nat.mul_comm _ q', Nat.mul_comm _ g.oneshots]
      exact pair_lt hq' hosp
    have hnext : g.pgsPerOneshotpg m * q + 0 + g.pgsPerOneshotpg m =
        g.pgsPerOneshotpg m * (q + 1) + 0 := by ring
    rw [if_neg hmod, hstart, hnext]
    by_cases hc1 : wp.ch + 1 = g.nchs
    · rw [if_neg (not_not.mpr hc1)]
      by_cases hl1 : wp.lun + 1 = g.luns
      · rw [if_neg (not_not.mpr hl1)]
        by_cases hq1 : q + 1 = g.oneshots
        · have hend : g.pgsPerOneshotpg m * (q + 1) + 0 = g.pgsPerBlk m := by rw [hblk, hq1]; rfl
          refine Or.inr ⟨?_, ?_⟩
          · rw [hline, ← hrank]
            exact pair_succ_eq (pair_succ_eq (pair_succ_eq hq1 hl1) hc1) hr1
          · rw [if_neg (not_not.mpr (by exact_mod_cast hend))]
            rfl
        · have hlt' := hblkq (q + 1) (by omega)
          obtain ⟨hw, hok⟩ := h.moveTo (w + 1) g.nchs_pos g.luns_pos hlt' (by
            rw [g.rank_eq _ _ _ _ hosp, ← hrank, ← pair_carry hr1, ← pair_carry hc1,
              ← pair_carry hl1])
          refine Or.inl ⟨hw, _, hok, rfl, ?_⟩
          rw [if_pos (by exact_mod_cast hlt'.ne)]
          rfl
      · obtain ⟨hw, hok⟩ := h.moveTo (w + 1) g.nchs_pos
          (show wp.lun + 1 < g.luns by omega) (hblkq q hq) (by
            rw [g.rank_eq _ _ _ _ hosp, ← hrank, ← pair_carry hr1, ← pair_carry hc1]
            rfl)
        rw [if_pos hl1]
        exact Or.inl ⟨hw, _, hok, rfl, rfl⟩
    · obtain ⟨hw, hok⟩ := h.moveTo (w + 1) (show wp.ch + 1 < g.nchs by omega) hlun
        (hblkq q hq) (by
          rw [g.rank_eq _ _ _ _ hosp, ← hrank, ← pair_carry hr1]
          rfl)
      rw [if_pos hc1]
      exact Or.inl ⟨hw, _, hok, rfl, rfl⟩
  · have hmod : ((wp.pg + 1 : Nat) : Int) % (g.pgsPerOneshotpg m : Int) ≠ 0 := by
      rw [hpg, succ_mod_ne_zero hr]
      exact hr1
    have hr2 : r + 1 < g.pgsPerOneshotpg m := by omega
    have hle : wp.pg + 1 < g.pgsPerBlk m := by
      have := pair_lt hq hr2
      rw [hblk, hpg, Nat.mul_comm _ q, Nat.mul_comm _ g.oneshots]
      omega
    obtain ⟨hw, hok⟩ := h.moveTo (w + 1) hch hlun hle (by
      rw [hpg, Nat.add_assoc, g.rank_eq _ _ _ _ hr2, ← hrank]
      rfl)
    rw [if_pos hmod]
    exact Or.inl ⟨hw, _, hok, rfl, rfl⟩

/-! ## The write pointers of an instance -/

/-- The write pointer of a pool, in a build with the SLC cache. -/
def ConvFtl.poolWp (f : ConvFtl) : LineMode → WritePointer
  | .slc => f.wp
  | .tlc => f.gcWp

/-- The requests that write to a pool. -/
def LineMode.io : LineMode → IoType
  | .slc => .user
  | .tlc => .gc

theorem ConvFtl.getWp_io (f : ConvFtl) (m : LineMode) : f.getWp m.io = f.poolWp m := by
  cases m <;> rfl

/-- Storing a write pointer changes that of its pool. -/
theorem ConvFtl.setWp_poolWp (f : ConvFtl) (m : LineMode) (wp : WritePointer) :
    (f.setWp m.io wp).poolWp = Function.update f.poolWp m wp := by
  ext m' : 1
  cases m <;> cases m' <;> rfl

theorem ConvFtl.setWp_mgmt (f : ConvFtl) (m : LineMode) (wp : WritePointer) :
    (f.setWp m.io wp).mgmt = f.mgmt := by
  ext m' : 1
  cases m <;> cases m' <;> rfl

/-- Storing a write pointer changes nothing else. -/
theorem ConvFtl.setWp_fields (f : ConvFtl) (m : LineMode) (wp : WritePointer) :
    (f.setWp m.io wp).ssd = f.ssd ∧ (f.setWp m.io wp).maptbl = f.maptbl ∧
      (f.setWp m.io wp).rmap = f.rmap ∧ (f.setWp m.io wp).wfc = f.wfc ∧
      (f.setWp m.io wp).cp = f.cp ∧ (f.setWp m.io wp).slcMode = f.slcMode ∧
      (f.setWp m.io wp).dynSlcMode = f.dynSlcMode ∧ (f.setWp m.io wp).lines = f.lines := by
  cases m <;> exact ⟨rfl, rfl, rfl, rfl, rfl, rfl, rfl, rfl⟩

theorem ConvFtl.Static.setWp {f : ConvFtl} (h : f.Static g) (m : LineMode) (wp : WritePointer) :
    (f.setWp m.io wp).Static g := by
  cases m <;> exact ⟨h.fits, h.slcMode, h.cp, h.slmLines⟩

theorem ConvFtl.PoolsOk.setWp {f : ConvFtl} {cls : Nat → LineClass} {cur : LineMode → Option Nat}
    {w : LineMode → Nat} (h : f.PoolsOk g cls cur w) (m : LineMode) (wp : WritePointer) :
    (f.setWp m.io wp).PoolsOk g cls cur w := by
  cases m <;> exact h

theorem ConvFtl.Static.ioPool_io {f : ConvFtl} (h : f.Static g) (m : LineMode) :
    f.ioPool m.io = m := by
  cases m
  · exact h.ioPool.1
  · exact h.ioPool.2

/-- The current lines of the two pools. -/
def ConvFtl.cur (f : ConvFtl) (m : LineMode) : Option Nat := some (f.poolWp m).blk

theorem ConvFtl.setWp_cur (f : ConvFtl) (m : LineMode) (wp : WritePointer) :
    (f.setWp m.io wp).cur = Function.update f.cur m (some wp.blk) := by
  ext m' : 1
  cases m <;> cases m' <;> rfl

/-- The invariant of an instance, apart from its maps: both write pointers, at the ranks
`w`, and the pools. -/
structure ConvFtl.Ok (g : Geometry) (cls : Nat → LineClass) (w : LineMode → Nat)
    (f : ConvFtl) : Prop where
  static : f.Static g
  pools : f.PoolsOk g cls f.cur w
  wp : ∀ m, WpOk g m (f.poolWp m) (w m)

/-- A step that touches one pool and its write pointer only. -/
structure PoolStep (m : LineMode) (f f' : ConvFtl) : Prop where
  ssd : f'.ssd = f.ssd
  maptbl : f'.maptbl = f.maptbl
  rmap : f'.rmap = f.rmap
  wfc : f'.wfc = f.wfc
  cp : f'.cp = f.cp
  slcMode : f'.slcMode = f.slcMode
  mgmt : ∀ m', m' ≠ m → f'.mgmt m' = f.mgmt m'
  poolWp : ∀ m', m' ≠ m → f'.poolWp m' = f.poolWp m'
  dyn : f'.dynSlcMode = f.dynSlcMode ∨ f'.dynSlcMode = m

/-- A line that has been written to its end leaves the write pointer. -/
theorem ConvFtl.PoolsOk.closeLine {f : ConvFtl} {cls : Nat → LineClass}
    {cur : LineMode → Option Nat} {w : LineMode → Nat} {l : Nat} (h : f.PoolsOk g cls cur w)
    (hst : f.Static g) (hcur : cur m = some l) (hw : w m = g.pgsPerLine m) :
    ∃ lines lm c, f.closeLine m l = .ok (f.withLines lines (Function.update f.mgmt m lm)) ∧
      NvmeVirt.PoolsOk g (Function.update cls l c) (Function.update cur m none) w f.ssd.blk lines
        (Function.update f.mgmt m lm) ∧
      lm.freeLineList = (f.mgmt m).freeLineList ∧ (c = .full ∨ c = .victim) ∧
      ∀ l', (lines l').id = (f.lines l').id := by
  have hc := h.cont m
  rw [hcur] at hc
  obtain ⟨hm, hcls⟩ := (hc.current l).mp rfl
  have hl := h.line l (g.hasLine_iff.mp hm).1
  rw [g.hasLine_pool hm, hcls, hw] at hl
  have hfact : (f.lines l).vpc + (f.lines l).ipc = g.pgsPerLine m := hl.fact
  have hclose := hl.close (w m)
  by_cases hv : (f.lines l).vpc = g.pgsPerLine m
  · rw [if_pos hv] at hclose
    refine ⟨f.lines, _, .full, ?_, h.move w hm hclose hc.closeFull
      ⟨fun _ => rfl, fun _ => rfl, fun _ => rfl, fun _ _ => rfl⟩ fun _ _ _ _ => rfl, rfl,
      Or.inl rfl, fun _ => rfl⟩
    have hv' : ((f.lines l).vpc : Int) = f.ssd.sp.curPgsPerLine m := by
      rw [hst.fits.pgsPerLine, hv]
    simp only [ConvFtl.closeLine, if_pos hv', require_pos (show (f.lines l).ipc = 0 by omega),
      ok_bind]
    cases m <;> rfl
  · rw [if_neg hv] at hclose
    obtain ⟨hcont, hrep⟩ := hc.closeVictim
    refine ⟨_, _, .victim, ?_, h.move w hm hclose hcont hrep fun _ _ _ _ => rfl, rfl, Or.inr rfl,
      hrep.id⟩
    have hv' : ¬ ((f.lines l).vpc : Int) = f.ssd.sp.curPgsPerLine m := by
      rw [hst.fits.pgsPerLine]
      exact_mod_cast hv
    have h1 : ((f.lines l).vpc : Int) < f.ssd.sp.curPgsPerLine m := by
      rw [hst.fits.pgsPerLine]
      omega
    have h2 : (f.lines l).ipc > 0 := by omega
    have h3 : ((f.lines l).vpc : Int) + (f.lines l).ipc = f.ssd.sp.curPgsPerLine m := by
      rw [hst.fits.pgsPerLine]
      exact_mod_cast hfact
    simp only [ConvFtl.closeLine, if_neg hv', require_pos h1, require_pos h2, require_pos h3,
      ok_bind]
    cases m <;> rfl

/-- `get_next_free_line` takes from the pool that `dyn_slc_mode` names. -/
theorem ConvFtl.Static.getNextFreeLine {f : ConvFtl} (h : f.Static g) (hdyn : f.dynSlcMode = m) :
    f.getNextFreeLine = match (f.mgmt m).freeLineList with
      | [] => none
      | l :: rest => some (l, f.withLines f.lines (Function.update f.mgmt m { f.mgmt m with
          freeLineList := rest
          freeLineCnt := (f.mgmt m).freeLineCnt - 1 })) := by
  have hm : (if f.slcMode = .slc ∧ f.dynSlcMode = .slc then LineMode.slc else .tlc) = m := by
    rw [hdyn, h.slcMode]
    cases m <;> simp
  cases hfree : (f.mgmt m).freeLineList with
  | nil => simp only [ConvFtl.getNextFreeLine, hm, hfree]
  | cons l rest => simp only [ConvFtl.getNextFreeLine, hm, hfree, ConvFtl.setMgmt_eq]

/-- The first free line of a pool without a current line becomes current. -/
theorem PoolsOk.takeFree {cls : Nat → LineClass} {cur : LineMode → Option Nat}
    {w : LineMode → Nat} {blk : BlkAddr → NandBlock} {lines : Nat → Line}
    {mgmt : LineMode → LineMgmt} {l : Nat} {rest : List Nat}
    (h : PoolsOk g cls cur w blk lines mgmt) (hcur : cur m = none)
    (hfree : (mgmt m).freeLineList = l :: rest) :
    g.HasLine m l ∧ cls l = .free ∧ (lines l).id = l ∧
      PoolsOk g (Function.update cls l .current) (Function.update cur m (some l))
        (Function.update w m 0) blk lines (Function.update mgmt m { mgmt m with
          freeLineList := rest
          freeLineCnt := (mgmt m).freeLineCnt - 1 }) := by
  have hc := h.cont m
  rw [hcur] at hc
  obtain ⟨hm, hcls, hcont⟩ := hc.takeFree hfree
  have hl := h.line l (g.hasLine_iff.mp hm).1
  rw [g.hasLine_pool hm, hcls] at hl
  refine ⟨hm, hcls, hl.id, h.move _ hm ?_ hcont
    ⟨fun _ => rfl, fun _ => rfl, fun _ => rfl, fun _ _ => rfl⟩ ?_⟩
  · rw [Function.update_self]
    exact hl.open
  · intro l' _ hl' hc'
    by_cases hm' : g.pool l' = m
    · have := (hc.current l').mpr ⟨g.hasLine_iff.mpr ⟨hl', hm'⟩, hc'⟩
      cases this
    · rw [Function.update_of_ne hm']

/-- A pool without a current line takes the first free line, if there is one. -/
theorem ConvFtl.PoolsOk.openLine {f : ConvFtl} {cls : Nat → LineClass}
    {cur : LineMode → Option Nat} {w : LineMode → Nat} (h : f.PoolsOk g cls cur w)
    (wp : WritePointer) (hst : f.Static g) (hcur : cur m = none) (hline : g.HasLine m wp.blk) (hpl : wp.pl = 0) :
    ((f.mgmt m).freeLineList = [] ∧ f.openLine m.io wp = .error (.noFreeLine m.io)) ∨
    ∃ l rest, (f.mgmt m).freeLineList = l :: rest ∧ g.HasLine m l ∧ cls l = .free ∧
      f.openLine m.io wp = .ok (({ f with dynSlcMode := m }.withLines f.lines
        (Function.update f.mgmt m { f.mgmt m with
          freeLineList := rest
          freeLineCnt := (f.mgmt m).freeLineCnt - 1 })).setWp m.io
            { wp with curline := l, blk := l }) ∧
      NvmeVirt.PoolsOk g (Function.update cls l .current) (Function.update cur m (some l))
        (Function.update w m 0) f.ssd.blk f.lines (Function.update f.mgmt m { f.mgmt m with
          freeLineList := rest
          freeLineCnt := (f.mgmt m).freeLineCnt - 1 }) := by
  have hblks := hst.fits.blksPerPl
  let f₁ : ConvFtl := { f with dynSlcMode := m }
  have hst₁ : f₁.Static g := ⟨hst.fits, hst.slcMode, hst.cp, hst.slmLines⟩
  have hnext := hst₁.getNextFreeLine (m := m) rfl
  have hrun : f.openLine m.io wp = f₁.getNextFreeLine.elim (.error (.noFreeLine m.io)) fun p => do
      let wp := { wp with curline := p.1, blk := (p.2.lines p.1).id }
      require (wp.blk < p.2.ssd.sp.blksPerPl) .checkAddr
      require (wp.pl = 0) .wpPlane
      return p.2.setWp m.io wp := by
    have hlt : wp.blk < f.ssd.sp.blksPerPl := by
      rw [hblks]
      exact (g.hasLine_iff.mp hline).1
    simp only [ConvFtl.openLine, require_pos hlt, ok_bind]
    cases hres : f₁.getNextFreeLine with
    | none => cases m <;> simp only [LineMode.io] <;> rw [hres] <;> rfl
    | some p => cases m <;> simp only [LineMode.io] <;> rw [hres] <;> rfl
  cases hfree : (f.mgmt m).freeLineList with
  | nil =>
    refine Or.inl ⟨rfl, ?_⟩
    rw [hrun, hnext, show f₁.mgmt m = f.mgmt m from rfl, hfree, Option.elim_none]
  | cons l rest =>
    obtain ⟨hm, hcls, hid, hpools⟩ := h.takeFree hcur hfree
    have hlt : l < f.ssd.sp.blksPerPl := by
      rw [hblks]
      exact (g.hasLine_iff.mp hm).1
    refine Or.inr ⟨l, rest, rfl, hm, hcls, ?_, hpools⟩
    rw [hrun, hnext, show f₁.mgmt m = f.mgmt m from rfl, hfree]
    simp only [Option.elim_some, ConvFtl.withLines, show (f₁.lines l).id = l from hid,
      require_pos (show l < f₁.ssd.sp.blksPerPl from hlt), require_pos hpl, ok_bind]
    rfl

/-- How `advance_write_pointer` moves the pointer of the pool `m`: inside its line, or to
the first free line of the pool. -/
def Advanced (g : Geometry) (m : LineMode) (f f' : ConvFtl) (w w' : LineMode → Nat) : Prop :=
  (w m + 1 < g.pgsPerLine m ∧ w' = Function.update w m (w m + 1) ∧
    (f'.mgmt m).freeLineList = (f.mgmt m).freeLineList ∧
    (f'.poolWp m).blk = (f.poolWp m).blk) ∨
  (w m + 1 = g.pgsPerLine m ∧ w' = Function.update w m 0 ∧
    (f.mgmt m).freeLineList = (f'.poolWp m).blk :: (f'.mgmt m).freeLineList)

/-- The labels of lines being collected are the same. -/
def SameCollecting (g : Geometry) (cls cls' : Nat → LineClass) : Prop :=
  ∀ l < g.ttLines, cls' l = .collecting ↔ cls l = .collecting

theorem SameCollecting.update {cls : Nat → LineClass} {l : Nat} {c : LineClass}
    (h : cls l ≠ .collecting) (hc : c ≠ .collecting) :
    SameCollecting g cls (Function.update cls l c) := by
  intro l' _
  by_cases he : l' = l
  · subst he
    simp [h, hc]
  · rw [Function.update_of_ne he]

theorem SameCollecting.trans {cls cls' cls'' : Nat → LineClass} (h : SameCollecting g cls cls')
    (h' : SameCollecting g cls' cls'') : SameCollecting g cls cls'' :=
  fun l hl => (h' l hl).trans (h l hl)

/-- `advance_write_pointer` after a page of the current line has been written. Only the
end of the line with an empty free list stops it. -/
theorem advanceWritePointer_spec {f : ConvFtl} {cls : Nat → LineClass} {w : LineMode → Nat}
    (hst : f.Static g) (hpools : f.PoolsOk g cls f.cur (Function.update w m (w m + 1)))
    (hwp : ∀ m, WpOk g m (f.poolWp m) (w m)) (hpos : 0 < g.oneshots) :
    Outcome (f.advanceWritePointer m.io)
      (fun f' => ∃ cls' w', f'.Ok g cls' w' ∧ PoolStep m f f' ∧ Advanced g m f f' w w' ∧
        SameCollecting g cls cls')
      (fun e => e = .noFreeLine m.io ∧ (f.mgmt m).freeLineList = [] ∧
        w m + 1 = g.pgsPerLine m) := by
  have hrun : f.advanceWritePointer m.io = (do
      let p ← ConvFtl.nextPage f.ssd.sp (f.ssd.sp.curPgsPerBlk m)
        (f.ssd.sp.curPgsPerOneshotpg m) (f.poolWp m)
      if p.2 then
        let f ← (f.setWp m.io p.1).closeLine m p.1.curline
        f.openLine m.io p.1
      else return f.setWp m.io p.1) := by
    simp only [ConvFtl.advanceWritePointer, hst.ioPool_io, f.getWp_io]
  rw [hrun]
  rcases nextPage_spec hst.fits (hwp m) hpos with ⟨hlt, wp', hok, hblk, hnext⟩ | ⟨hend, hnext⟩
  · rw [hnext]
    obtain ⟨h1, h2, h3, h4, h5, h6, h7, -⟩ := f.setWp_fields m wp'
    refine ⟨cls, Function.update w m (w m + 1), ⟨hst.setWp m wp', ?_, fun m' => ?_⟩,
      ⟨h1, h2, h3, h4, h5, h6, fun m' _ => ?_, fun m' he => ?_, Or.inl h7⟩, Or.inl ⟨hlt, rfl, ?_, ?_⟩,
      fun _ _ => Iff.rfl⟩
    · rw [f.setWp_cur, hblk, show some (f.poolWp m).blk = f.cur m from rfl, Function.update_eq_self]
      exact hpools.setWp m wp'
    · rw [f.setWp_poolWp]
      by_cases he : m' = m
      · subst he
        rwa [Function.update_self, Function.update_self]
      · rw [Function.update_of_ne he, Function.update_of_ne he]
        exact hwp m'
    · rw [f.setWp_mgmt]
    · rw [f.setWp_poolWp, Function.update_of_ne he]
    · rw [f.setWp_mgmt]
    · rw [f.setWp_poolWp, Function.update_self, hblk]
  · rw [hnext]
    let wp₁ : WritePointer := { f.poolWp m with pg := 0, ch := 0, lun := 0 }
    let f₁ := f.setWp m.io wp₁
    have hst₁ : f₁.Static g := hst.setWp m wp₁
    have hmgmt₁ : f₁.mgmt = f.mgmt := f.setWp_mgmt m wp₁
    have hcur₁ : f.cur m = some wp₁.curline := congrArg some (hwp m).curline.symm
    obtain ⟨lines, lm, c, hclose, hpools₂, hfree₂, hc, hid⟩ :=
      (hpools.setWp m wp₁).closeLine hst₁ hcur₁ (by rw [Function.update_self, hend])
    let f₂ := f₁.withLines lines (Function.update f₁.mgmt m lm)
    have hmgmt₂ : f₂.mgmt = Function.update f.mgmt m lm := by
      rw [ConvFtl.withLines_mgmt, hmgmt₁]
    have hlm : lm.ttLines = g.lines m := by
      have := (hpools₂.cont m).ttLines
      rwa [Function.update_self] at this
    have hst₂ : f₂.Static g := hst₁.update hlm
    have hpools₂' : f₂.PoolsOk g (Function.update cls wp₁.curline c) (Function.update f.cur m none)
        (Function.update w m (w m + 1)) := by
      rw [ConvFtl.PoolsOk, ConvFtl.withLines_mgmt]
      exact hpools₂
    have hlist : (f₂.mgmt m).freeLineList = (f.mgmt m).freeLineList := by
      rw [hmgmt₂, Function.update_self, hfree₂, ← hmgmt₁]
    have hsame : SameCollecting g cls (Function.update cls wp₁.curline c) := by
      refine SameCollecting.update ?_ ?_
      · rw [(((hpools.cont m).current _).mp hcur₁).2]
        decide
      · rcases hc with rfl | rfl <;> decide
    have hgoal : (do
        let f' ← f₁.closeLine m wp₁.curline
        f'.openLine m.io wp₁) = f₂.openLine m.io wp₁ := by
      rw [show f₁.closeLine m wp₁.curline = .ok f₂ from hclose, ok_bind]
    simp only [ok_bind, if_true]
    rw [show _ = f₂.openLine m.io wp₁ from hgoal]
    rcases hpools₂'.openLine wp₁ hst₂ (Function.update_self ..) (hwp m).line (hwp m).pl with
      ⟨hnil, herr⟩ | ⟨l, rest, hcons, hm, hcls, hopen, hpools₃⟩
    · rw [herr]
      exact ⟨rfl, hlist ▸ hnil, hend⟩
    · rw [hopen]
      let lm₃ : LineMgmt := { f₂.mgmt m with
        freeLineList := rest
        freeLineCnt := (f₂.mgmt m).freeLineCnt - 1 }
      let f₃ := { f₂ with dynSlcMode := m }.withLines f₂.lines (Function.update f₂.mgmt m lm₃)
      let wp₃ : WritePointer := { wp₁ with curline := l, blk := l }
      have hmgmt₃ : (f₃.setWp m.io wp₃).mgmt = Function.update f.mgmt m lm₃ := by
        rw [f₃.setWp_mgmt, ConvFtl.withLines_mgmt, hmgmt₂, Function.update_idem]
      have hcur₃ : (f₃.setWp m.io wp₃).cur = Function.update f.cur m (some l) := by
        rw [f₃.setWp_cur, show f₃.cur = f₁.cur from rfl, f.setWp_cur, Function.update_idem]
      have hpwp₃ : (f₃.setWp m.io wp₃).poolWp = Function.update f.poolWp m wp₃ := by
        rw [f₃.setWp_poolWp, show f₃.poolWp = f₁.poolWp from rfl, f.setWp_poolWp,
          Function.update_idem]
      obtain ⟨h1, h2, h3, h4, h5, h6, h7, -⟩ := f₃.setWp_fields m wp₃
      obtain ⟨k1, k2, k3, k4, k5, k6, -, -⟩ := f.setWp_fields m wp₁
      refine ⟨Function.update (Function.update cls wp₁.curline c) l .current,
        Function.update w m 0, ⟨?_, ?_, fun m' => ?_⟩, ⟨h1.trans k1, h2.trans k2, h3.trans k3,
        h4.trans k4, h5.trans k5, h6.trans k6, fun m' he => ?_, fun m' he => ?_, Or.inr h7⟩,
        Or.inr ⟨hend, rfl, ?_⟩, hsame.trans (SameCollecting.update ?_ ?_)⟩
      · refine ConvFtl.Static.setWp (ConvFtl.Static.update (f := { f₂ with dynSlcMode := m }) ?_ ?_) m
          wp₃
        · exact ⟨hst₂.fits, hst₂.slcMode, hst₂.cp, hst₂.slmLines⟩
        · show (f₂.mgmt m).ttLines = _
          rw [hmgmt₂, Function.update_self, hlm]
      · rw [Function.update_idem, Function.update_idem] at hpools₃
        have hpools₄ : NvmeVirt.PoolsOk g _ _ _ f₂.ssd.blk f₂.lines
          (Function.update f₂.mgmt m lm₃) := hpools₃
        rw [hmgmt₂, Function.update_idem] at hpools₄
        rw [ConvFtl.PoolsOk, hcur₃, hmgmt₃, h1, (f₃.setWp_fields m wp₃).2.2.2.2.2.2.2]
        exact hpools₄
      · rw [hpwp₃]
        by_cases he : m' = m
        · subst he
          rw [Function.update_self, Function.update_self]
          refine ⟨rfl, hm, (hwp m').pl, g.nchs_pos, g.luns_pos, Nat.zero_le _, ?_⟩
          simp [Geometry.rank, wp₃, wp₁]
        · rw [Function.update_of_ne he, Function.update_of_ne he]
          exact hwp m'
      · rw [hmgmt₃, Function.update_of_ne he]
      · rw [hpwp₃, Function.update_of_ne he]
      · rw [hmgmt₃, hpwp₃, Function.update_self, Function.update_self, ← hlist, hcons]
      · rw [hcls]
        decide
      · decide

end NvmeVirt
