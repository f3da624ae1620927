import Mathlib.Order.Interval.Finset.Nat
import NvmeVirt.Conv.Striping

/-!
# Pages counted twice

Two counts of an instance between commands, each made in two ways. The written pages of a pool
are what its free lines and its open line leave over; the valid pages of all lines are as many
as the mapped logical pages.
-/

namespace NvmeVirt

open Checked

variable {g : Geometry} {cls cls' : Nat → LineClass} {w w' : LineMode → Nat} {f f' : ConvFtl}
  {m : LineMode}

/-! ## The written pages of a pool -/

/-- The entries of `slm.lines` or of `lm.lines`. -/
def ConvFtl.poolLines (f : ConvFtl) : LineMode → Finset Nat
  | .slc => Finset.range f.slm.ttLines
  | .tlc => Finset.Ico f.slm.ttLines (f.slm.ttLines + f.lm.ttLines)

/-- `pgs_per_line_slc` or `pgs_per_line`. -/
def ConvFtl.linePages (f : ConvFtl) (m : LineMode) : Nat := (f.ssd.sp.curPgsPerLine m).toNat

/-- The pages of a pool that hold data, current or outdated. -/
def ConvFtl.usedPages (f : ConvFtl) (m : LineMode) : Nat :=
  ∑ l ∈ f.poolLines m, ((f.lines l).vpc + (f.lines l).ipc)

theorem ConvFtl.Ok.mem_poolLines (h : f.Ok g cls w) {l : Nat} :
    l ∈ f.poolLines m ↔ g.HasLine m l := by
  have hs : f.slm.ttLines = g.lines .slc := (h.pools.cont .slc).ttLines
  have ht : f.lm.ttLines = g.lines .tlc := (h.pools.cont .tlc).ttLines
  cases m with
  | slc => simp [ConvFtl.poolLines, Geometry.HasLine, Geometry.base, hs]
  | tlc => simp [ConvFtl.poolLines, Geometry.HasLine, Geometry.base, hs, ht]

theorem ConvFtl.Ok.card_poolLines (h : f.Ok g cls w) (m : LineMode) :
    (f.poolLines m).card = g.lines m := by
  have hs : f.slm.ttLines = g.lines .slc := (h.pools.cont .slc).ttLines
  have ht : f.lm.ttLines = g.lines .tlc := (h.pools.cont .tlc).ttLines
  cases m with
  | slc => simp [ConvFtl.poolLines, hs]
  | tlc => simp [ConvFtl.poolLines, ht]

theorem ConvFtl.Ok.linePages (h : f.Ok g cls w) (m : LineMode) : f.linePages m = g.pgsPerLine m := by
  rw [ConvFtl.linePages, h.static.fits.pgsPerLine, Int.toNat_natCast]

/-- The lines of a pool do not change. -/
theorem ConvFtl.Ok.poolLines_eq (h : f.Ok g cls w) (h' : f'.Ok g cls' w') (m : LineMode) :
    f'.poolLines m = f.poolLines m := by
  ext l
  rw [h.mem_poolLines, h'.mem_poolLines]

/-- The pages of a pool that can be written before a line has to be freed. -/
def poolRoom (g : Geometry) (m : LineMode) (w : LineMode → Nat) (f : ConvFtl) : Nat :=
  (f.mgmt m).freeLineList.length * g.pgsPerLine m + (g.pgsPerLine m - w m)

/-- The pages of a line that are written, and those that are not. -/
theorem ConvFtl.Idle.line_pages (h : f.Idle g cls w) {l : Nat} (hm : g.HasLine m l) :
    (f.lines l).vpc + (f.lines l).ipc + ((if l ∈ (f.mgmt m).freeLineList then g.pgsPerLine m else 0) +
      if (f.poolWp m).blk = l then g.pgsPerLine m - w m else 0) = g.pgsPerLine m := by
  obtain ⟨hlt, hpool⟩ := g.hasLine_iff.mp hm
  have hcont := h.ok.pools.cont m
  have hline := h.ok.pools.line l hlt
  rw [hpool] at hline
  have hfact := hline.fact
  have hle := hline.sum_le (h.settled l hlt)
  have hcur : (f.poolWp m).blk = l ↔ cls l = .current := by
    have := hcont.current l
    rwa [and_iff_right hm, ConvFtl.cur, Option.some.injEq] at this
  simp only [hcont.free l, hcur, hm, true_and]
  cases hc : cls l with
  | free =>
    rw [hc] at hfact
    obtain ⟨hv, hi⟩ := hfact
    simp [hv, hi]
  | current =>
    rw [hc] at hfact
    have hw : (f.lines l).vpc + (f.lines l).ipc = w m := hfact
    simp only [reduceCtorEq, if_false, if_true]
    omega
  | full =>
    rw [hc] at hfact
    obtain ⟨hv, hi⟩ := hfact
    simp [hv, hi]
  | victim =>
    rw [hc] at hfact
    obtain ⟨hsum, -⟩ := hfact
    simp [hsum]
  | collecting => exact absurd hc (h.settled l hlt)

/-- The written pages of a pool are those that its free lines and its open line leave over. -/
theorem ConvFtl.Idle.usedPages_add (h : f.Idle g cls w) (m : LineMode) :
    f.usedPages m + poolRoom g m w f = g.lines m * g.pgsPerLine m := by
  have hcont := h.ok.pools.cont m
  have hfree : ∑ l ∈ f.poolLines m, (if l ∈ (f.mgmt m).freeLineList then g.pgsPerLine m else 0) =
      (f.mgmt m).freeLineList.length * g.pgsPerLine m := by
    have hfilter : (f.poolLines m).filter (· ∈ (f.mgmt m).freeLineList) =
        (f.mgmt m).freeLineList.toFinset := by
      ext l
      rw [Finset.mem_filter, h.ok.mem_poolLines, List.mem_toFinset]
      exact ⟨fun hl => hl.2, fun hl => ⟨((hcont.free l).mp hl).1, hl⟩⟩
    rw [← Finset.sum_filter, Finset.sum_const_nat fun _ _ => rfl, hfilter,
      List.toFinset_card_of_nodup hcont.freeNodup]
  have hopen : ∑ l ∈ f.poolLines m, (if (f.poolWp m).blk = l then g.pgsPerLine m - w m else 0) =
      g.pgsPerLine m - w m := by
    rw [Finset.sum_ite_eq, if_pos (h.ok.mem_poolLines.mpr (h.ok.wp m).line)]
  calc f.usedPages m + poolRoom g m w f
      = ∑ l ∈ f.poolLines m, ((f.lines l).vpc + (f.lines l).ipc +
          ((if l ∈ (f.mgmt m).freeLineList then g.pgsPerLine m else 0) +
            if (f.poolWp m).blk = l then g.pgsPerLine m - w m else 0)) := by
        rw [Finset.sum_add_distrib, Finset.sum_add_distrib
          (f := fun l => if l ∈ (f.mgmt m).freeLineList then g.pgsPerLine m else 0), hfree, hopen]
        rfl
    _ = ∑ _l ∈ f.poolLines m, g.pgsPerLine m :=
        Finset.sum_congr rfl fun l hl => h.line_pages (h.ok.mem_poolLines.mp hl)
    _ = g.lines m * g.pgsPerLine m := by
        rw [Finset.sum_const_nat fun _ _ => rfl, h.ok.card_poolLines]

/-- Writing a page takes one page of its pool. -/
theorem Advanced.poolRoom_succ (h : Advanced g m f f' w w') :
    poolRoom g m w' f' + 1 = poolRoom g m w f := by
  unfold poolRoom
  rcases h with ⟨hin, rfl, hfree, -⟩ | ⟨hend, rfl, hfree⟩
  · rw [hfree, Function.update_self]
    omega
  · rw [hfree, Function.update_self, List.length_cons, Nat.succ_mul]
    omega

/-! ## The valid pages of an instance -/

/-- The valid pages of all lines are as many as the mapped logical pages. -/
theorem ConvFtl.Idle.sum_vpc (h : f.Idle g cls w) :
    ∑ l ∈ Finset.range g.ttLines, (f.lines l).vpc =
      ((Finset.range g.ttPgs).filter fun lpn => f.maptbl lpn ≠ none).card := by
  classical
  let live : Finset ((_ : Nat) × (Nat × Nat) × Nat) := (Finset.range g.ttLines).sigma fun l =>
    (g.positions (g.pool l)).filter fun x => Live g (fun _ => False) f (linePage l x.1 x.2)
  let page : ((_ : Nat) × (Nat × Nat) × Nat) → Ppa := fun x => linePage x.1 x.2.1 x.2.2
  have hlive : ∀ x, x ∈ live ↔ Live g (fun _ => False) f (page x) := by
    rintro ⟨l, d, pg⟩
    simp only [live, page, Finset.mem_sigma, Finset.mem_range, Finset.mem_filter,
      g.mem_positions]
    exact ⟨fun hx => hx.2.2, fun hx => ⟨hx.1.blk, ⟨hx.1.mem_dies, hx.1.pg⟩, hx⟩⟩
  calc ∑ l ∈ Finset.range g.ttLines, (f.lines l).vpc
      = ∑ l ∈ Finset.range g.ttLines, liveCount g l (fun _ => False) f :=
        Finset.sum_congr rfl fun l hl => (h.liveCount_eq (Finset.mem_range.mp hl)).symm
    _ = live.card := (Finset.card_sigma ..).symm
    _ = ((Finset.range g.ttPgs).filter fun lpn => f.maptbl lpn ≠ none).card := by
        refine Finset.card_bij (fun x _ => f.rmap (g.pgidx (page x))) (fun x hx => ?_)
          (fun x hx y hy he => ?_) fun lpn hlpn => ?_
        · have hmap := h.maps.inverse.fwd_of_live _ ((hlive x).mp hx)
          rw [Finset.mem_filter, Finset.mem_range]
          exact ⟨h.maps.dom _ (by simp [hmap]), by simp [hmap]⟩
        · have hx := h.maps.inverse.fwd_of_live _ ((hlive x).mp hx)
          have hy := h.maps.inverse.fwd_of_live _ ((hlive y).mp hy)
          have hpage : page x = page y := by
            rw [he, hy] at hx
            exact (Option.some.inj hx).symm
          simp only [page, linePage, Ppa.mk.injEq, true_and] at hpage
          obtain ⟨hpg, hblk, hlun, hch⟩ := hpage
          obtain ⟨l, d, pg⟩ := x
          obtain ⟨l', d', pg'⟩ := y
          obtain rfl : l = l' := hblk
          obtain rfl : pg = pg' := hpg
          obtain rfl : d = d' := Prod.ext hch hlun
          rfl
        · obtain ⟨p, hp⟩ := Option.ne_none_iff_exists'.mp (Finset.mem_filter.mp hlpn).2
          obtain ⟨hv, hname⟩ := h.maps.inverse.live_of_fwd lpn p hp
          have hpage : page ⟨p.blk, (p.ch, p.lun), p.pg⟩ = p := hv.1.eq_linePage.symm
          refine ⟨⟨p.blk, (p.ch, p.lun), p.pg⟩, (hlive _).mpr (hpage.symm ▸ hv), ?_⟩
          rw [hpage]
          exact hname

end NvmeVirt
