import NvmeVirt.Conv.Namespace

/-!
# Page writes of one instance

The runs of one instance, page by page: the loop body of `conv_write`, interleaved with
whatever the other commands do to the timing state. On these runs the write credits are
exact.
-/

namespace NvmeVirt

open Checked Tally

/-- What an instance sees: a page write, or a change of the timing state. -/
inductive FtlEvent
  | write (swr : NandCmd) (lpn : Nat)
  | tick (π : Perf)

/-- `conv_write` only writes pages of the instance. -/
def FtlEvent.InRange (n : Nat) : FtlEvent → Prop
  | .write _ lpn => lpn < n
  | .tick _ => True

/-- One event. -/
def ConvFtl.event (f : ConvFtl) : FtlEvent → Except Fault ConvFtl
  | .write swr lpn => do
    let (_, f) ← f.writePage swr lpn
    return f
  | .tick π => .ok (f.withPerf π)

/-- A run of events from a new instance of a build with the SLC cache. -/
def ftlRun (mem : ConvFtl) (spp : Ssdparams) (clock : Clock) (events : List FtlEvent) :
    Except Fault ConvFtl := do
  let f ← convInitFtl mem true convInitParams (ssdInit spp clock)
  events.foldlM ConvFtl.event f

variable {g : Geometry} {cls : Nat → LineClass} {w : LineMode → Nat} {f f' : ConvFtl}
  {spp : Ssdparams} {lpn : Nat}

theorem ConvFtl.Reached.event {ev : FtlEvent} (h : f.Reached g) (hev : ev.InRange g.ttPgs) :
    Outcome (f.event ev) (ConvFtl.Reached g) (RunFault g) := by
  cases ev with
  | tick π => exact reached_timingFree g f π h
  | write swr lpn => exact (reached_pageKeeps g f swr lpn h hev trivial).bind fun _ hr => hr

/-- A run of page writes. -/
theorem ftlRun_outcome (mem : ConvFtl) (clock : Clock) {events : List FtlEvent}
    (hfits : g.Fits spp) (hev : ∀ ev ∈ events, ev.InRange g.ttPgs) :
    Outcome (ftlRun mem spp clock events) (ConvFtl.Reached g) (RunFault g) := by
  refine Outcome.bind (Q := ConvFtl.Reached g) ?_ fun f hf =>
    outcome_foldlM_const _ (fun ev hmem f hf => hf.event (hev ev hmem)) f hf
  refine (convInitFtl_spec mem clock hfits).mono ?_ ?_
  · rintro f ⟨cls, w, hidle, -, hpaced⟩
    exact ⟨cls, w, hidle, hpaced⟩
  · rintro e ⟨m, he, hm⟩
    cases m
    · exact Or.inr (Or.inr (Or.inl ⟨he, by omega⟩))
    · exact Or.inr (Or.inr (Or.inr (Or.inr he)))

/-! ## Exact credits -/

/-- The pages of the SLC line `l` that have not been written. -/
def ConvFtl.unwritten (f : ConvFtl) (l : Nat) : Nat :=
  ∑ d ∈ Finset.range f.ssd.sp.nchs ×ˢ Finset.range f.ssd.sp.lunsPerCh,
    tally f.ssd.sp.pgsPerBlkSlc.toNat (f.ssd.blk (lineAddr l d)).statusAt .free

/-- The credits count the unwritten pages of the open line, and the pool has a reserve. -/
structure ConvFtl.CreditsExact (f : ConvFtl) : Prop where
  pos : 1 ≤ f.wfc.writeCredits
  le : (f.wfc.writeCredits : Int) ≤ f.ssd.sp.pgsPerLineSlc
  unwritten : f.wfc.writeCredits = f.unwritten f.wp.curline
  refill : (f.wfc.creditsToRefill : Int) = f.ssd.sp.pgsPerLineSlc
  reserve : f.cp.migThresLinesHigh ≤ f.slm.freeLineCnt

/-- The unwritten pages of the open line. -/
theorem ConvFtl.Ok.unwritten (h : f.Ok g cls w) :
    f.unwritten f.wp.curline + w .slc = g.pgsPerLine .slc := by
  have hfits := h.static.fits
  have hwp := h.wp .slc
  have hcur : f.cur .slc = some f.wp.blk := rfl
  obtain ⟨hm, hc⟩ := ((h.pools.cont .slc).current _).mp hcur
  obtain ⟨hlt, hpool⟩ := g.hasLine_iff.mp hm
  have hl := h.pools.line _ hlt
  rw [hc, hpool] at hl
  have hpgs : f.ssd.sp.pgsPerBlkSlc.toNat = g.pgsPerBlk .slc := by
    have : f.ssd.sp.pgsPerBlkSlc = g.pgsPerBlk .slc := hfits.pgsPerBlk .slc
    omega
  have hsum : ∑ d ∈ g.dies, ((f.ssd.blk (lineAddr f.wp.blk d)).vpc +
      (f.ssd.blk (lineAddr f.wp.blk d)).ipc + tally (g.pgsPerBlk .slc)
        (f.ssd.blk (lineAddr f.wp.blk d)).statusAt .free) = ∑ _d ∈ g.dies, g.pgsPerBlk .slc :=
    Finset.sum_congr rfl fun d hd => (hl.blocks d hd).sum_eq
  rw [Finset.sum_add_distrib, Finset.sum_add_distrib, Finset.sum_const_nat fun _ _ => rfl,
    g.dies_card_mul] at hsum
  have hv := hl.vpc nofun
  have hi := hl.ipc nofun
  have hw : (f.lines f.wp.blk).vpc + (f.lines f.wp.blk).ipc = w .slc := hl.fact
  have hblk : f.wp.curline = f.wp.blk := hwp.curline
  have hdies : Finset.range f.ssd.sp.nchs ×ˢ Finset.range f.ssd.sp.lunsPerCh = g.dies := by
    rw [hfits.nchs, hfits.lunsPerCh]
    rfl
  unfold ConvFtl.unwritten
  rw [hblk, hpgs, hdies]
  omega

/-- The credits of a paced instance are exact. -/
theorem Paced.creditsExact (h : Paced g w f) (hidle : f.Idle g cls w) (hpos : 0 < g.oneshots) :
    f.CreditsExact := by
  have hok := hidle.ok
  have hlt := ((hok.wp .slc).lt hpos).2
  have hc := h.credits
  have hline : f.ssd.sp.pgsPerLineSlc = g.pgsPerLine .slc := hok.static.fits.pgsPerLine .slc
  have hcnt : f.slm.freeLineCnt = f.slm.freeLineList.length := (hok.pools.cont .slc).freeCnt
  have hres := h.reserve
  refine ⟨by omega, by omega, ?_, ?_, ?_⟩
  · have := hok.unwritten
    omega
  · rw [hline, h.refill]
  · rw [hok.static.cp, hcnt]
    simp only [convInitParams]
    omega

/-- After a page has been stored, the credits are used up exactly when the write pointer has
moved to another line, and the pool still has its reserve. -/
theorem Paced.store {f₁ : ConvFtl} {cls₁ : Nat → LineClass} {w₁ : LineMode → Nat}
    (h : Paced g w f) (hidle : f.Idle g cls w) (hpos : 0 < g.oneshots) (h₁ : f₁.Idle g cls₁ w₁)
    (hwfc : f₁.wfc = f.wfc) (hadv : Advanced g .slc f f₁ w w₁) :
    (f₁.consumeWriteCredit.wfc.writeCredits = 0 ↔ f₁.wp.curline ≠ f.wp.curline) ∧
      f₁.cp.migThresLinesHigh ≤ f₁.slm.freeLineCnt := by
  have hok := hidle.ok
  have hw := ((hok.wp .slc).lt hpos).2
  obtain ⟨hiff, -⟩ := h.consume hw hwfc hadv
  have hcur : f.wp.curline = f.wp.blk := (hok.wp .slc).curline
  have hcur₁ : f₁.wp.curline = f₁.wp.blk := (h₁.ok.wp .slc).curline
  have hcnt : f₁.slm.freeLineCnt = f₁.slm.freeLineList.length := (h₁.ok.pools.cont .slc).freeCnt
  have hres := h.reserve
  rw [h₁.ok.static.cp, hcnt, ← hiff, hcur, hcur₁]
  simp only [convInitParams]
  rcases hadv with ⟨hlt, -, hfree, hblk⟩ | ⟨hend, -, hfree⟩
  · have hfree : f₁.slm.freeLineList = f.slm.freeLineList := hfree
    have hblk : f₁.wp.blk = f.wp.blk := hblk
    rw [hfree, hblk]
    exact ⟨⟨fun he => absurd he (by omega), fun hne => absurd rfl hne⟩, by omega⟩
  · have hfree : f.slm.freeLineList = f₁.wp.blk :: f₁.slm.freeLineList := hfree
    have hlen := congrArg List.length hfree
    rw [List.length_cons] at hlen
    refine ⟨⟨fun _ he => ?_, fun _ => hend⟩, by omega⟩
    have hcont := hok.pools.cont .slc
    have hmem : f.wp.blk ∈ f.slm.freeLineList := by
      rw [hfree, he]
      exact List.mem_cons_self ..
    have hclass := ((hcont.free _).mp hmem).2
    rw [((hcont.current f.wp.blk).mp rfl).2] at hclass
    cases hclass

/-- The SLC pacing: the credits are exact after every page write, the pool never runs below
its threshold, and `foreground_gc` is reached exactly when a line has been used up. -/
theorem slc_pacing (cfg : SlcConfig) (mem : ConvFtl) (clock : Clock) (smem spp : Ssdparams)
    (size : Nat) (events : List FtlEvent)
    (hspp : ssdInitParamsSlc smem cfg.toSsdConfig size cfg.ssdPartitions = some spp)
    (hfour : 4 ≤ spp.ttLinesSlc) (hev : ∀ ev ∈ events, ev.InRange spp.ttPgs) :
    ftlRun mem spp clock events ≠ .error (.noFreeLine .user) ∧
    ∀ f, ftlRun mem spp clock events = .ok f → 0 < spp.ttPgs → f.CreditsExact ∧
      ∀ swr lpn, lpn < spp.ttPgs → ∀ r, f.storePage swr lpn = .ok r →
        (r.2.consumeWriteCredit.wfc.writeCredits = 0 ↔ r.2.wp.curline ≠ f.wp.curline) ∧
          r.2.cp.migThresLinesHigh ≤ r.2.slm.freeLineCnt := by
  obtain ⟨g, -, hfits, -⟩ := ssdInitParamsSlc_fits hspp
  have h4 : 4 ≤ g.lines .slc := by
    have := hfits.ttLinesSlc
    omega
  rw [hfits.ttPgs] at hev ⊢
  have hrun := ftlRun_outcome mem clock hfits hev
  constructor
  · intro herr
    rcases hrun.of_error herr with he | ⟨he, -⟩ | ⟨-, hlt⟩ | ⟨he, -⟩ | he
    · cases he
    · cases he
    · omega
    · cases he
    · cases he
  · intro f hf hpgs
    have hpos := g.oneshots_pos hpgs
    obtain ⟨cls, w, hidle, hpaced⟩ := hrun.of_ok hf
    refine ⟨(hpaced h4).creditsExact hidle hpos, fun swr lpn hlpn r hr => ?_⟩
    obtain ⟨cls₁, w₁, h₁, hwfc, hadv⟩ := (hidle.storePage hpos hlpn swr).of_ok hr
    exact (hpaced h4).store hidle hpos h₁ hwfc hadv

/-- The pacing on the shipped device, after a page has been written twice. -/
theorem slc_pacing_shipped : ∃ (spp : Ssdparams) (f : ConvFtl),
    ftlRun default spp default [.write default 0, .write default 0] = .ok f ∧ f.CreditsExact := by
  have hspp : (ssdInitParamsSlc default samsung970pro (mb 3071) 4).map
      (fun spp => (decide (4 ≤ spp.ttLinesSlc ∧ 0 < spp.ttPgs), (ftlRun default spp default
        [.write default 0, .write default 0]).map fun _ => ())) = some (true, .ok ()) := by
    decide +kernel
  obtain ⟨spp, hr, hs⟩ := Option.map_eq_some_iff.mp hspp
  obtain ⟨hpos, hrun⟩ := Prod.mk.inj hs
  obtain ⟨hfour, hpgs⟩ := of_decide_eq_true hpos
  obtain ⟨f, hf, -⟩ := except_map_eq_ok.mp hrun
  refine ⟨spp, f, hf, ?_⟩
  refine ((slc_pacing samsung970proSlc default default default spp (mb 3071) _ hr hfour ?_).2 f hf
    hpgs).1
  intro ev hmem
  simp only [List.mem_cons, List.not_mem_nil, or_false] at hmem
  rcases hmem with rfl | rfl
  · exact hpgs
  · exact hpgs

end NvmeVirt
