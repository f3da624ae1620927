import NvmeVirt.Conv.Relocation

/-!
# Garbage collection before migration

A comment in `foreground_gc` promises garbage collection until there are enough free lines in
the TLC pool, so that the migration finds room there. The function calls `do_gc` once. Whether
that is enough depends on the pages that the two calls copy, on the pages left in the open line
of the TLC pool, and on the number of victims.
-/

namespace NvmeVirt

open Checked Tally

variable {g : Geometry} {cls : Nat → LineClass} {w : LineMode → Nat} {f f' f₁ f₂ : ConvFtl}
  {l refill : Nat} {m : LineMode} {v : Option Nat}

namespace ConvFtl

/-- The promise: the free lines are above the threshold, or no victim has an invalid page. -/
def Ahead (f : ConvFtl) : Prop :=
  f.cp.gcThresLinesHigh < f.lm.freeLineCnt ∨ ∀ l, f.IsVictim l → ¬ 0 < (f.lines l).ipc

/-- The valid pages of a victim, if there is one. -/
def vpcOf (f : ConvFtl) (victim : Option Nat) : Nat := victim.elim 0 fun l => (f.lines l).vpc

/-- The victim of the pool `m`. -/
def victimOf (f : ConvFtl) (m : LineMode) : Option Nat :=
  ({ f with dynSlcMode := m }.gcVictim true).toOption.join

/-- The pages of the open line of the TLC pool that have not been written. -/
def openPages (f : ConvFtl) : Nat :=
  let line := f.lines f.gcWp.curline
  (f.ssd.sp.curPgsPerLine .tlc).toNat - (line.vpc + line.ipc)

/-- One collection and one migration are enough: the open line holds all valid pages of the two
victims and only one free line is missing, or there is at most one victim and the open line does
not become another one. -/
def OnceIsEnough (f : ConvFtl) : Prop :=
  let copied := f.vpcOf (f.victimOf .tlc) + f.vpcOf (f.victimOf .slc)
  (copied < f.openPages ∧ f.lm.freeLineCnt = f.cp.gcThresLinesHigh) ∨
    (f.lm.victimLineCnt ≤ 1 ∧ (copied < f.openPages ∨ (f.lines f.gcWp.curline).ipc = 0))

end ConvFtl

/-! ## Invalid pages and victims -/

/-- A line counts its invalid pages. -/
theorem ConvFtl.Idle.ipc_pos_iff (h : f.Idle g cls w) (hl : l < g.ttLines) :
    0 < (f.lines l).ipc ↔ ∃ q, g.Valid q ∧ q.blk = l ∧ f.status q = .invalid := by
  have hline := h.ok.pools.line l hl
  rw [hline.ipc (h.settled l hl)]
  constructor
  · intro hpos
    obtain ⟨d, hd, hne⟩ := Finset.exists_ne_zero_of_sum_ne_zero (Nat.ne_of_gt hpos)
    rw [(hline.blocks d hd).ipc] at hne
    by_contra hnone
    refine hne (tally_eq_zero fun pg hpg hs => hnone ?_)
    obtain ⟨hch, hlun⟩ := g.mem_dies.mp hd
    exact ⟨linePage l d pg, g.valid_linePage hl hch hlun hpg, rfl, hs⟩
  · rintro ⟨q, hq, rfl, hs⟩
    refine Finset.sum_pos' (fun _ _ => Nat.zero_le _) ⟨(q.ch, q.lun), hq.mem_dies, ?_⟩
    rw [(hline.blocks _ hq.mem_dies).ipc]
    apply tally_pos hq.pg
    rw [← hq.addr_eq]
    exact hs

/-- The victims of the TLC pool are its lines with an invalid page, except the open one. -/
theorem ConvFtl.Idle.isVictim_iff (h : f.Idle g cls w) :
    f.IsVictim l ↔ g.HasLine .tlc l ∧ l ≠ f.gcWp.blk ∧ 0 < (f.lines l).ipc := by
  have hcont := h.ok.pools.cont .tlc
  constructor
  · intro hv
    obtain ⟨hm, hc⟩ := (hcont.victim l).mp hv
    have hline := h.ok.pools.line l (g.hasLine_iff.mp hm).1
    rw [g.hasLine_pool hm, hc] at hline
    refine ⟨hm, fun he => ?_, hline.fact.2⟩
    have hcur := ((hcont.current l).mp (congrArg some he.symm)).2
    rw [hc] at hcur
    cases hcur
  · rintro ⟨hm, hne, hipc⟩
    obtain ⟨hlt, hpool⟩ := g.hasLine_iff.mp hm
    have hline := h.ok.pools.line l hlt
    refine (hcont.victim l).mpr ⟨hm, ?_⟩
    cases hc : cls l with
    | free =>
      rw [hc] at hline
      exact absurd hline.fact.2 (Nat.ne_of_gt hipc)
    | current =>
      have hcur := (hcont.current l).mpr ⟨hm, hc⟩
      exact absurd (Option.some.inj hcur).symm hne
    | full =>
      rw [hc] at hline
      exact absurd hline.fact.2 (Nat.ne_of_gt hipc)
    | victim => rfl
    | collecting => exact absurd hc (h.settled l hlt)

/-- An idle instance keeps its promise when there are free lines or no victims. -/
theorem ConvFtl.Idle.ahead_iff (h : f.Idle g cls w) : f.Ahead ↔
    f.cp.gcThresLinesHigh < f.lm.freeLineCnt ∨
      ∀ l, g.HasLine .tlc l → 0 < (f.lines l).ipc → l = f.gcWp.blk := by
  refine or_congr_right ⟨fun hno l hl hipc => ?_, fun hno l hl hipc => ?_⟩
  · by_contra hne
    exact hno l (h.isVictim_iff.mpr ⟨hl, hne, hipc⟩) hipc
  · obtain ⟨hm, hne, -⟩ := h.isVictim_iff.mp hl
    exact hne (hno l hm hipc)

/-! ## One call of `do_gc` -/

/-- What `do_gc` of the pool `m` with the victim `v` does to the TLC pool. -/
structure Collects (g : Geometry) (m : LineMode) (v : Option Nat) (f f' : ConvFtl) : Prop where
  opened : f'.gcWp.blk :: f'.lm.freeLineList <:+
    f.gcWp.blk :: f.lm.freeLineList ++ if m = .tlc then v.toList else []
  pages : f'.pagesLeft + f.vpcOf v =
    f.pagesLeft + if m = .tlc then v.toList.length * g.pgsPerLine .tlc else 0
  ipc : ∀ l < g.ttLines, 0 < (f'.lines l).ipc ↔ 0 < (f.lines l).ipc ∧ v ≠ some l
  slm : m = .tlc → f'.slm = f.slm
  vpc : m = .tlc → ∀ l, g.HasLine .slc l → (f'.lines l).vpc = (f.lines l).vpc

/-- The statuses of the pages outside of the collected line. -/
theorem Relocating.status (hsel : Selected f f₁) {spare : Int} {n : Nat}
    (h : Relocating g l spare w (f₁.refillWith refill) n f₂) {q : Ppa} (hq : q.blk ≠ l) :
    f₂.status q = f.status q ∨ f.status q = .free ∧ f₂.status q = .valid ∧ g.HasLine .tlc q.blk := by
  obtain ⟨_, _, -, hmoved⟩ := h.moved
  have hstart : (f₁.refillWith refill).status q = f.status q := by
    show f₁.status q = f.status q
    simp only [ConvFtl.status, Ssd.getBlk, hsel.blk]
  rw [← hstart]
  exact hmoved.status q hq

/-- A collected line is the last of the free list, behind the lines that were not opened. -/
theorem Relocating.collects (htaken : Taken g m l cls w f f₁) (hidle : f.Idle g cls w)
    (hsel : Selected f f₁) (hpos : 0 < g.oneshots)
    (hrefill : m = .slc → refill = g.pgsPerLine .slc)
    (h : Relocating g l (room g w f - (f.lines l).vpc) w (f₁.refillWith refill)
      (g.flashpgsPerBlk (g.pool l) * g.nchs * g.luns) f₂) :
    Collects g m (some l) f (f₂.markLineFree ⟨0, l, 0, 0, 0⟩) := by
  have hpool : g.pool l = m := g.hasLine_pool htaken.line
  obtain ⟨cls₂, w₂, hcol, hmoved⟩ := h.moved
  obtain ⟨hun, -, -, hmgmt⟩ := hcol.ok.static.markLineFree_fields (p := ⟨0, l, 0, 0, 0⟩) rfl
  obtain ⟨cls', w', hidle', hcollected⟩ := htaken.collected hpos hrefill h
  have hfree := (h.relocated htaken hidle hsel.toUnmoved hpos).free
  generalize f₂.markLineFree ⟨0, l, 0, 0, 0⟩ = f' at *
  rw [hpool] at hmgmt
  have hstatus : ∀ q, q.blk ≠ l → f'.status q = f.status q ∨
      f.status q = .free ∧ f'.status q = .valid ∧ g.HasLine .tlc q.blk := by
    intro q hq
    have hsame : f'.status q = f₂.status q := by
      simp only [ConvFtl.status, Ssd.getBlk, hun.blk]
    rw [hsame]
    exact h.status hsel hq
  have hopened : f₂.gcWp.blk :: f₂.lm.freeLineList <:+ f.gcWp.blk :: f.lm.freeLineList := by
    rw [← hsel.gcWp, ← hsel.free]
    exact hmoved.opened
  refine ⟨?_, ?_, fun l' hl' => ?_, ?_, ?_⟩
  · rw [hun.gcWp]
    cases m with
    | slc =>
      have hlm : f'.lm = f₂.lm := congrFun hmgmt .tlc
      rw [hlm, if_neg (by simp), List.append_nil]
      exact hopened
    | tlc =>
      have hlm : f'.lm = f₂.lm.putFree l := congrFun hmgmt .tlc
      rw [hlm, if_pos rfl]
      exact List.suffix_append_self_iff.mpr hopened
  · have hroom := hcollected.room
    have hvpc : f.vpcOf (some l) = (f.lines l).vpc := rfl
    rw [← hidle'.ok.pagesLeft, ← hidle.ok.pagesLeft] at hroom
    rw [hvpc]
    by_cases hm : m = .tlc
    · rw [if_pos hm] at hroom ⊢
      rw [Option.toList_some, List.length_singleton, Nat.one_mul]
      omega
    · rw [if_neg hm] at hroom ⊢
      omega
  · rw [hidle'.ipc_pos_iff hl', hidle.ipc_pos_iff hl']
    by_cases he : l' = l
    · refine iff_of_false ?_ fun hne => hne.2 (congrArg some he.symm)
      rintro ⟨q, hq, hql, hs⟩
      rw [hfree q ((hidle'.ok.static.validPpa_iff q).mpr hq) (hql.trans he)] at hs
      cases hs
    · rw [and_iff_left fun hs => he (Option.some.inj hs).symm]
      refine exists_congr fun q => and_congr_right fun _ => and_congr_right fun hql => ?_
      rcases hstatus q fun hql' => he (hql.symm.trans hql') with hs | ⟨hs, hs', -⟩
      · rw [hs]
      · rw [hs, hs']
        simp
  · rintro rfl
    have hslm : f'.slm = f₂.slm := congrFun hmgmt .slc
    rw [hslm, h.kept.slm]
    exact htaken.other rfl
  · rintro rfl l' hl'
    have hne : l' ≠ l := by
      rintro rfl
      rw [g.hasLine_pool hl'] at hpool
      cases hpool
    have hlt := (g.hasLine_iff.mp hl').1
    rw [← hidle'.liveCount_eq hlt, ← hidle.liveCount_eq hlt]
    apply liveCount_congr_line
    intro q hq
    rcases hstatus q (hq ▸ hne) with hs | ⟨-, -, htlc⟩
    · unfold Live
      rw [hs]
    · have := g.hasLine_unique hl' (hq ▸ htlc)
      cases this

end NvmeVirt
