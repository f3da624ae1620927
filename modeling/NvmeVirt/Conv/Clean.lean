import NvmeVirt.Conv.Collect

/-!
# Cleaning a flash page

`do_gc` visits the pages of a line flash page by flash page, then channel by channel, then
die by die. The pages visited so far are stale. `clean_one_flashpg` visits the pages of
one flash page and copies those that are valid.
-/

namespace NvmeVirt

open Checked MixedRadix

variable {g : Geometry} {cls : Nat → LineClass} {w : LineMode → Nat} {f f' : ConvFtl}
  {stale stale' : Ppa → Prop} {l : Nat} {spare : Int} {p q : Ppa}

/-! ## The order of the visits -/

/-- The place of a page of a line in the order in which `do_gc` visits them. -/
def Geometry.visit (g : Geometry) (ch lun pg : Nat) : Nat :=
  ((pg / g.pgsPerFlashpg * g.nchs + ch) * g.luns + lun) * g.pgsPerFlashpg + pg % g.pgsPerFlashpg

/-- The number of the flash page `flashpg` of a die in that order. -/
def Geometry.visitFlashpg (g : Geometry) (flashpg ch lun : Nat) : Nat :=
  (flashpg * g.nchs + ch) * g.luns + lun

theorem Geometry.visit_eq (g : Geometry) (ch lun flashpg : Nat) {i : Nat}
    (hi : i < g.pgsPerFlashpg) : g.visit ch lun (flashpg * g.pgsPerFlashpg + i) =
      g.visitFlashpg flashpg ch lun * g.pgsPerFlashpg + i := by
  rw [visit, Nat.mul_comm flashpg, Nat.mul_add_div g.pgsPerFlashpg_pos, Nat.div_eq_of_lt hi,
    Nat.mul_add_mod, Nat.mod_eq_of_lt hi, Nat.add_zero, visitFlashpg]

theorem Geometry.visit_inj (g : Geometry) {ch lun pg ch' lun' pg' : Nat} (hl : lun < g.luns)
    (hc : ch < g.nchs) (hl' : lun' < g.luns) (hc' : ch' < g.nchs)
    (h : g.visit ch lun pg = g.visit ch' lun' pg') : ch = ch' ∧ lun = lun' ∧ pg = pg' := by
  have hpos := g.pgsPerFlashpg_pos
  obtain ⟨h1, hmod⟩ := pair_inj (Nat.mod_lt _ hpos) (Nat.mod_lt _ hpos) h
  obtain ⟨h2, hlun⟩ := pair_inj hl hl' h1
  obtain ⟨hdiv, hch⟩ := pair_inj hc hc' h2
  refine ⟨hch, hlun, ?_⟩
  rw [← Nat.div_add_mod pg g.pgsPerFlashpg, hdiv, hmod, Nat.div_add_mod]

/-- Flash pages per block. -/
def Geometry.flashpgsPerBlk (g : Geometry) (m : LineMode) : Nat := g.flashpgs m * g.oneshots

theorem Geometry.flashpgsPerBlk_mul (g : Geometry) (m : LineMode) :
    g.flashpgsPerBlk m * g.pgsPerFlashpg = g.pgsPerBlk m := by
  unfold flashpgsPerBlk pgsPerBlk pgsPerOneshotpg
  ring

/-- The page `i` of a flash page belongs to the block. -/
theorem Geometry.flashpg_lt (g : Geometry) {m : LineMode} {flashpg i : Nat}
    (hf : flashpg < g.flashpgsPerBlk m) (hi : i < g.pgsPerFlashpg) :
    flashpg * g.pgsPerFlashpg + i < g.pgsPerBlk m := by
  rw [← g.flashpgsPerBlk_mul]
  exact pair_lt hf hi

/-- The flash page of a page of the block. -/
theorem Geometry.div_lt_flashpgs (g : Geometry) {m : LineMode} {pg : Nat}
    (h : pg < g.pgsPerBlk m) : pg / g.pgsPerFlashpg < g.flashpgsPerBlk m := by
  rw [← g.flashpgsPerBlk_mul, Nat.mul_comm] at h
  exact Nat.div_lt_of_lt_mul h

/-- The first `k` pages of the line `l` in the order of the visits. -/
def visited (g : Geometry) (l k : Nat) (q : Ppa) : Prop :=
  q.blk = l ∧ g.visit q.ch q.lun q.pg < k

/-- The addresses of a line. -/
theorem Geometry.valid_linePage (g : Geometry) {ch lun pg : Nat} (hl : l < g.ttLines)
    (hch : ch < g.nchs) (hlun : lun < g.luns) (hpg : pg < g.pgsPerBlk (g.pool l)) :
    g.Valid (linePage l (ch, lun) pg) :=
  ⟨rfl, hch, hlun, hl, hpg⟩

theorem Geometry.Valid.eq_linePage (h : g.Valid p) : p = linePage p.blk (p.ch, p.lun) p.pg := by
  cases p
  simp only [linePage, Ppa.mk.injEq, true_and, and_true]
  exact h.pl

/-- The next page visited is the only page of its place. -/
theorem visited_succ {ch lun i : Nat} (l flashpg : Nat) (hq : g.Valid q) (hch : ch < g.nchs)
    (hlun : lun < g.luns) (hi : i < g.pgsPerFlashpg) :
    visited g l (g.visitFlashpg flashpg ch lun * g.pgsPerFlashpg + i + 1) q ↔
      visited g l (g.visitFlashpg flashpg ch lun * g.pgsPerFlashpg + i) q ∨
        q = linePage l (ch, lun) (flashpg * g.pgsPerFlashpg + i) := by
  rw [← g.visit_eq _ _ _ hi]
  unfold visited
  constructor
  · rintro ⟨hl, hlt⟩
    rcases Nat.lt_succ_iff_lt_or_eq.mp hlt with hlt | heq
    · exact Or.inl ⟨hl, hlt⟩
    · obtain ⟨h1, h2, h3⟩ := g.visit_inj hq.lun hq.ch hlun hch heq
      right
      rw [hq.eq_linePage, hl, h1, h2, h3]
  · rintro (⟨hl, hlt⟩ | rfl)
    · exact ⟨hl, Nat.lt_succ_of_lt hlt⟩
    · exact ⟨rfl, Nat.lt_succ_self _⟩

/-- The pages visited in a flash page. -/
theorem visited_add {ch lun flashpg k : Nat} (hq : g.Valid q) (hch : ch < g.nchs)
    (hlun : lun < g.luns) (hk : k ≤ g.pgsPerFlashpg) :
    visited g l (g.visitFlashpg flashpg ch lun * g.pgsPerFlashpg + k) q ↔
      visited g l (g.visitFlashpg flashpg ch lun * g.pgsPerFlashpg) q ∨
        ∃ i < k, q = linePage l (ch, lun) (flashpg * g.pgsPerFlashpg + i) := by
  induction k with
  | zero => simp
  | succ k ih =>
    rw [← Nat.add_assoc, visited_succ _ _ hq hch hlun hk, ih (Nat.le_of_succ_le hk), or_assoc]
    refine or_congr_right ⟨?_, ?_⟩
    · rintro (⟨i, hi, he⟩ | he)
      · exact ⟨i, Nat.lt_succ_of_lt hi, he⟩
      · exact ⟨k, Nat.lt_succ_self k, he⟩
    · rintro ⟨i, hi, he⟩
      rcases Nat.lt_succ_iff_lt_or_eq.mp hi with hi | rfl
      · exact Or.inl ⟨i, hi, he⟩
      · exact Or.inr he

/-! ## One flash page -/

/-- The stale pages matter only as far as they are valid. -/
theorem Collecting.restale (h : Collecting g l spare stale cls w f)
    (hlive : ∀ q, Live g stale' f q ↔ Live g stale f q) (hin : ∀ q, stale' q → q.blk = l) :
    Collecting g l spare stale' cls w f := by
  exact ⟨h.ok, h.maps.congr rfl rfl hlive, h.line, h.label, h.only, hin, by
    rw [liveCount_congr hlive, h.balance]⟩

/-- The pages of a flash page, when their numbers fit the page field. -/
theorem pageAt_linePage {ch lun pg i : Nat} (h : pg + i < 2 ^ pageBits) :
    ConvFtl.pageAt (linePage l (ch, lun) pg) i = linePage l (ch, lun) (pg + i) := by
  simp only [ConvFtl.pageAt, linePage, Nat.mod_eq_of_lt h]

/-- `clean_one_flashpg` counts no valid page only when there is none. -/
theorem countValid_spec {n : Nat} (hgood : ∀ i < n, ∃ pg, f.ssd.getPg (ConvFtl.pageAt p i) = .ok pg ∧
      pg.status = f.status (ConvFtl.pageAt p i) ∧ f.status (ConvFtl.pageAt p i) ≠ .free) :
    Outcome (f.countValid p n)
      (fun cnt => cnt = 0 → ∀ i < n, f.status (ConvFtl.pageAt p i) ≠ .valid) fun _ => False := by
  refine outcome_foldlM_range
    (fun k cnt => cnt = 0 → ∀ i < k, f.status (ConvFtl.pageAt p i) ≠ .valid) ?_ fun _ _ hi => by
      cases hi
  intro k hk cnt hcnt
  obtain ⟨pg, hget, hst, hfree⟩ := hgood k hk
  simp only [hget, ok_bind, require_pos (hst ▸ hfree), outcome_pure]
  split
  · intro h
    cases h
  · rename_i hne
    intro h i hi
    rcases Nat.lt_succ_iff_lt_or_eq.mp hi with hi | rfl
    · exact hcnt h i hi
    · rwa [← hst]

/-- The second loop of `clean_one_flashpg` makes the page `i` of the flash page stale. -/
theorem Collecting.cleanPage {ch lun flashpg i : Nat}
    (h : Collecting g l spare
      (visited g l (g.visitFlashpg flashpg ch lun * g.pgsPerFlashpg + i)) cls w f)
    (hpos : 0 < g.oneshots) (hnarrow : g.pgsPerBlk (g.pool l) ≤ 2 ^ pageBits) (hch : ch < g.nchs)
    (hlun : lun < g.luns) (hflashpg : flashpg < g.flashpgsPerBlk (g.pool l))
    (hi : i < g.pgsPerFlashpg) :
    Outcome (ConvFtl.cleanPage (linePage l (ch, lun) (flashpg * g.pgsPerFlashpg)) f i)
      (fun f' => ∃ cls' w', Collecting g l spare
        (visited g l (g.visitFlashpg flashpg ch lun * g.pgsPerFlashpg + (i + 1))) cls' w' f' ∧
        Moved g l w w' f f' ∧ ∀ a : BlkAddr, a.blk = l → f'.ssd.blk a = f.ssd.blk a)
      (GcFault g spare) := by
  let q := linePage l (ch, lun) (flashpg * g.pgsPerFlashpg + i)
  have hlt := g.flashpg_lt hflashpg hi
  have hpage : ConvFtl.pageAt (linePage l (ch, lun) (flashpg * g.pgsPerFlashpg)) i = q :=
    pageAt_linePage (hlt.trans_le hnarrow)
  have hvalid : g.Valid q := g.valid_linePage h.line hch hlun hlt
  have hrun : ConvFtl.cleanPage (linePage l (ch, lun) (flashpg * g.pgsPerFlashpg)) f i =
      if f.status q = .valid then f.gcWritePage q else .ok f := by
    unfold ConvFtl.cleanPage
    rw [hpage, h.ok.pools.getPg hvalid]
    rfl
  have hsucc := fun {p} (hp : g.Valid p) => visited_succ l flashpg hp hch hlun hi
  rw [hrun]
  by_cases hs : f.status q = .valid
  · rw [if_pos hs]
    have hlive : Live g (visited g l (g.visitFlashpg flashpg ch lun * g.pgsPerFlashpg + i)) f q := by
      refine ⟨hvalid, hs, fun hv => ?_⟩
      have := hv.2
      rw [show g.visit q.ch q.lun q.pg = _ from g.visit_eq ch lun flashpg hi] at this
      exact Nat.lt_irrefl _ this
    refine (h.gcWritePage hpos hlive rfl).mono ?_ fun _ he => he
    rintro f' ⟨cls', w', hcol, hmoved, hblk⟩
    refine ⟨cls', w', hcol.restale (fun p => ?_) fun p hp => hp.1, hmoved, hblk⟩
    unfold Live
    exact and_congr_right fun hp => and_congr_right fun _ => not_congr (hsucc hp)
  · rw [if_neg hs]
    refine ⟨cls, w, h.restale (fun p => ?_) fun p hp => hp.1, Moved.refl f, fun _ _ => rfl⟩
    unfold Live
    refine and_congr_right fun hp => and_congr_right fun hsp => not_congr ?_
    refine (hsucc hp).trans (or_iff_left ?_)
    rintro rfl
    exact hs hsp

/-- `clean_one_flashpg` makes the pages of one flash page stale. -/
theorem Collecting.cleanOneFlashpg {ch lun flashpg : Nat}
    (h : Collecting g l spare
      (visited g l (g.visitFlashpg flashpg ch lun * g.pgsPerFlashpg)) cls w f)
    (hpos : 0 < g.oneshots) (hdyn : f.dynSlcMode = .slc → g.pool l = .slc)
    (hnarrow : g.pgsPerBlk (g.pool l) ≤ 2 ^ pageBits) (hch : ch < g.nchs) (hlun : lun < g.luns)
    (hflashpg : flashpg < g.flashpgsPerBlk (g.pool l))
    (hwritten : ∀ i < g.pgsPerFlashpg,
      f.status (linePage l (ch, lun) (flashpg * g.pgsPerFlashpg + i)) ≠ .free) :
    Outcome (f.cleanOneFlashpg (linePage l (ch, lun) (flashpg * g.pgsPerFlashpg)))
      (fun f' => ∃ cls' w', Collecting g l spare
        (visited g l ((g.visitFlashpg flashpg ch lun + 1) * g.pgsPerFlashpg)) cls' w' f' ∧
        Moved g l w w' f f' ∧ ∀ a : BlkAddr, a.blk = l → f'.ssd.blk a = f.ssd.blk a)
      (GcFault g spare) := by
  let n := g.visitFlashpg flashpg ch lun
  let p := linePage l (ch, lun) (flashpg * g.pgsPerFlashpg)
  let pg (i : Nat) := linePage l (ch, lun) (flashpg * g.pgsPerFlashpg + i)
  have hlt : ∀ i < g.pgsPerFlashpg,
      flashpg * g.pgsPerFlashpg + i < g.pgsPerBlk (g.pool l) := fun i hi => g.flashpg_lt hflashpg hi
  have hpage : ∀ i < g.pgsPerFlashpg, ConvFtl.pageAt p i = pg i := fun i hi =>
    pageAt_linePage ((hlt i hi).trans_le hnarrow)
  have hvalid : ∀ i < g.pgsPerFlashpg, g.Valid (pg i) := fun i hi =>
    g.valid_linePage h.line hch hlun (hlt i hi)
  have hguard : f.slcMode = .slc ∧ f.dynSlcMode = .slc →
      ((p.blk : Nat) : Int) < f.ssd.sp.ttLinesSlc := by
    rintro ⟨-, hd⟩
    rw [h.ok.static.fits.ttLinesSlc]
    have := (g.hasLine_iff.mpr ⟨h.line, hdyn hd⟩ : g.HasLine .slc l).2
    simpa [Geometry.base, p, linePage] using this
  have hcount := countValid_spec (f := f) (p := p) (n := g.pgsPerFlashpg) fun i hi =>
    ⟨_, by rw [hpage i hi]; exact h.ok.pools.getPg (hvalid i hi), by rw [hpage i hi]; rfl,
      by rw [hpage i hi]; exact hwritten i hi⟩
  simp only [ConvFtl.cleanOneFlashpg, h.ok.static.fits.pgsPerFlashpg]
  rw [require_pos hguard, ok_bind]
  refine (hcount.mono (fun _ hq => hq) fun _ he => he.elim).bind fun cnt hcnt => ?_
  by_cases hzero : cnt = 0
  · -- no page is valid, so the live pages do not change
    rw [if_pos hzero]
    refine ⟨cls, w, h.restale (fun q => ?_) fun q hq => hq.1, Moved.refl f, fun _ _ => rfl⟩
    unfold Live
    refine and_congr_right fun hq => and_congr_right fun hs => not_congr ?_
    rw [Nat.succ_mul, visited_add hq hch hlun (Nat.le_refl _), or_iff_left]
    rintro ⟨i, hi, rfl⟩
    exact hcnt hzero i hi (by rwa [hpage i hi])
  · rw [if_neg hzero]
    obtain ⟨hcol₁, hmoved₁, hblk₁⟩ := h.gcDelay
      { type := if f.slcMode = .slc ∧ f.dynSlcMode = .slc then .user else .gc
        cmd := .read
        stime := 0
        xferSize := f.ssd.sp.pgsz * cnt
        interleavePciDma := false
        ppa := some p }
    rw [Nat.succ_mul]
    refine outcome_foldlM_range (fun i f' => ∃ cls' w', Collecting g l spare
      (visited g l (n * g.pgsPerFlashpg + i)) cls' w' f' ∧ Moved g l w w' f f' ∧
        ∀ a : BlkAddr, a.blk = l → f'.ssd.blk a = f.ssd.blk a) ?_
      ⟨cls, w, hcol₁, hmoved₁, fun a _ => by rw [hblk₁]⟩
    rintro i hi f₁ ⟨cls₁, w₁, hcol, hmoved, hblk⟩
    refine (hcol.cleanPage hpos hnarrow hch hlun hflashpg hi).mono ?_ fun _ he => he
    rintro f₂ ⟨cls₂, w₂, hcol₂, hmoved₂, hblk₂⟩
    exact ⟨cls₂, w₂, hcol₂, hmoved.trans hmoved₂, fun a ha => (hblk₂ a ha).trans (hblk a ha)⟩

end NvmeVirt
