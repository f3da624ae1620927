import NvmeVirt.Conv.Pacing

/-!
# A new instance

`conv_init_ftl` on the parameters of a geometry: every line is free, then each pool gives
its first line to its write pointer. It fails only when a pool has no line.
-/

namespace NvmeVirt

open Checked Tally

variable {g : Geometry} {cls : Nat → LineClass} {cur : LineMode → Option Nat}
  {w : LineMode → Nat} {f : ConvFtl} {m : LineMode} {spp : Ssdparams}

/-- The blocks of a new device. -/
theorem blockOk_init (hfits : g.Fits spp) (l : Nat) :
    BlockOk (g.pgsPerBlk (g.pool l)) (ssdInitNandPlane spp l) := by
  have hblk : ssdInitNandPlane spp l =
      ssdInitNandBlk spp (spp.curPgsPerBlk (g.pool l)) := by
    simp only [ssdInitNandPlane, hfits.ttLinesSlc, Nat.cast_lt, Geometry.pool]
    split <;> rfl
  have hfree : ∀ i, (ssdInitNandBlk spp (spp.curPgsPerBlk (g.pool l))).statusAt i = .free :=
    fun _ => rfl
  rw [hblk]
  refine ⟨hfits.pgsPerBlk _, fun _ => hfits.secsPerPg, ?_, ?_, fun i _ => hfree i⟩
  · exact (tally_eq_zero fun i _ => by rw [hfree]; decide).symm
  · exact (tally_eq_zero fun i _ => by rw [hfree]; decide).symm

/-- `init_lines` on a new device: every line is free. -/
theorem initLines_spec (mem : ConvFtl) (w : LineMode → Nat) {clock : Clock} (hfits : g.Fits spp)
    (hssd : mem.ssd = ssdInit spp clock) (hmode : mem.slcMode = .slc)
    (hcp : mem.cp = convInitParams) :
    ∃ lines slm lm, mem.initLines = .ok { mem with lines := lines, slm := slm, lm := lm } ∧
      ({ mem with lines := lines, slm := slm, lm := lm } : ConvFtl).Static g ∧
      ({ mem with lines := lines, slm := slm, lm := lm } : ConvFtl).PoolsOk g (fun _ => .free)
        (fun _ => none) w ∧ slm.freeLineList.length = g.lines .slc ∧
      lm.freeLineList.length = g.lines .tlc := by
  have hle := g.lines_le
  simp only [blkBits] at hle
  have hsp : mem.ssd.sp = spp := by rw [hssd]; rfl
  have hslc : asU32 mem.ssd.sp.ttLinesSlc = g.lines .slc := by
    rw [hsp, hfits.ttLinesSlc, asU32_of_lt (by omega)]
  have htlc : asU32 mem.ssd.sp.ttLinesTlc = g.lines .tlc := by
    rw [hsp, hfits.ttLinesTlc, asU32_of_lt (by omega)]
  have htotal : u32 (g.lines .tlc + g.lines .slc) = mem.ssd.sp.ttLines := by
    rw [hsp, hfits.ttLines, Geometry.ttLines]
    unfold u32
    omega
  refine ⟨fun l => { id := l, ipc := 0, vpc := 0, pos := 0, mtime := 0 },
    mem.slm.fresh 0 (g.lines .slc), mem.lm.fresh (g.lines .slc) (g.lines .tlc), ?_,
    ⟨hsp ▸ hfits, hmode, hcp, rfl⟩, ⟨fun l hl => ?_, fun m => ?_⟩,
    List.length_range', List.length_range'⟩
  · simp only [ConvFtl.initLines, hmode, hslc, htlc, require_pos htotal, ok_bind]
    rfl
  · have hblk : ∀ d, mem.ssd.blk (lineAddr l d) = ssdInitNandPlane spp l := fun d => by
      rw [hssd]
      rfl
    have hok := blockOk_init hfits l
    refine ⟨rfl, fun d _ => by rw [hblk]; exact hok, fun _ => ?_, fun _ => ?_, ⟨rfl, rfl⟩, fun h => by cases h⟩
    · refine (Finset.sum_eq_zero fun d _ => ?_).symm
      rw [hblk]
      unfold ssdInitNandPlane
      split <;> rfl
    · refine (Finset.sum_eq_zero fun d _ => ?_).symm
      rw [hblk]
      unfold ssdInitNandPlane
      split <;> rfl
  · cases m
    · exact containers_fresh g .slc mem.slm fun _ => rfl
    · exact containers_fresh g .tlc mem.lm fun _ => rfl

/-- The write pointer at the first page of the line `l`. -/
def WritePointer.start (l : Nat) : WritePointer :=
  { curline := l, ch := 0, lun := 0, pg := 0, blk := l, pl := 0 }

theorem WpOk.start {l : Nat} (hl : g.HasLine m l) : WpOk g m (WritePointer.start l) 0 :=
  ⟨rfl, hl, rfl, g.nchs_pos, g.luns_pos, Nat.zero_le _, by simp [Geometry.rank, WritePointer.start]⟩

/-- `prepare_write_pointer` for a pool without a current line. -/
theorem ConvFtl.PoolsOk.prepare (h : f.PoolsOk g cls cur w) (hst : f.Static g)
    (hcur : cur m = none) :
    ((f.mgmt m).freeLineList = [] ∧ f.prepareWritePointer m.io = .error (.noFreeLine m.io)) ∨
    ∃ (l : Nat) (f₁ : ConvFtl), (f.mgmt m).freeLineList = l :: (f₁.mgmt m).freeLineList ∧ g.HasLine m l ∧ cls l = .free ∧
      f.prepareWritePointer m.io = .ok (f₁.setWp m.io (WritePointer.start l)) ∧ f₁.Static g ∧
      f₁.PoolsOk g (Function.update cls l .current) (Function.update cur m (some l))
        (Function.update w m 0) ∧
      (∀ m', m' ≠ m → f₁.mgmt m' = f.mgmt m') ∧ f₁.poolWp = f.poolWp ∧
      f₁.maptbl = f.maptbl ∧ f₁.ssd = f.ssd := by
  let f₀ : ConvFtl := { f with dynSlcMode := m }
  have hst₀ : f₀.Static g := ⟨hst.fits, hst.slcMode, hst.cp, hst.slmLines⟩
  have hnext := hst₀.getNextFreeLine (m := m) rfl
  have hrun : f.prepareWritePointer m.io = f₀.getNextFreeLine.elim
      (.error (.noFreeLine m.io)) fun p =>
        .ok (p.2.setWp m.io { WritePointer.start (p.2.lines p.1).id with curline := p.1 }) := by
    simp only [ConvFtl.prepareWritePointer, hst.ioPool_io]
    cases hres : f₀.getNextFreeLine with
    | none => rfl
    | some p => rfl
  cases hfree : (f.mgmt m).freeLineList with
  | nil =>
    refine Or.inl ⟨rfl, ?_⟩
    rw [hrun, hnext, show f₀.mgmt m = f.mgmt m from rfl, hfree, Option.elim_none]
  | cons l rest =>
    obtain ⟨hm, hcls, hid, hpools⟩ := PoolsOk.takeFree h hcur hfree
    let lm : LineMgmt := { f.mgmt m with
      freeLineList := rest
      freeLineCnt := (f.mgmt m).freeLineCnt - 1 }
    let f₁ := f₀.withLines f.lines (Function.update f.mgmt m lm)
    have hmgmt : f₁.mgmt = Function.update f.mgmt m lm := f₀.withLines_mgmt f.lines _
    refine Or.inr ⟨l, f₁, ?_, hm, hcls, ?_, ?_, ?_, fun m' he => ?_, rfl, rfl, rfl⟩
    · rw [hmgmt, Function.update_self]
    · rw [hrun, hnext, show f₀.mgmt m = f.mgmt m from rfl, hfree]
      have hid₁ : (f₁.lines l).id = l := hid
      show Except.ok (f₁.setWp m.io { WritePointer.start (f₁.lines l).id with curline := l }) = _
      rw [hid₁]
      rfl
    · apply ConvFtl.Static.update hst₀
      exact (h.cont m).ttLines
    · rw [ConvFtl.PoolsOk, hmgmt]
      exact hpools
    · rw [hmgmt, Function.update_of_ne he]

/-- `conv_init_ftl`. -/
theorem convInitFtl_spec (mem : ConvFtl) (clock : Clock) (hfits : g.Fits spp) :
    Outcome (convInitFtl mem true convInitParams (ssdInit spp clock))
      (fun f => ∃ cls w, f.Idle g cls w ∧ f.maptbl = (fun _ => none) ∧
        (4 ≤ g.lines .slc → Paced g w f))
      (fun e => ∃ m, e = .noFreeLine m.io ∧ g.lines m = 0) := by
  let f₀ : ConvFtl := { mem with
    cp := convInitParams
    ssd := ssdInit spp clock
    slcMode := .slc
    maptbl := fun _ => none
    rmap := fun _ => invalidLpn }
  obtain ⟨lines, slm, lm, hrun, hst₁, hpools₁, hslc, htlc⟩ :=
    initLines_spec f₀ (fun _ => 0) hfits rfl rfl rfl
  let f₁ : ConvFtl := { f₀ with lines := lines, slm := slm, lm := lm }
  have hstart : convInitFtl mem true convInitParams (ssdInit spp clock) = (do
      let f ← f₁.prepareWritePointer LineMode.slc.io
      let f ← f.prepareWritePointer LineMode.tlc.io
      return f.initWriteFlowControl) := by
    rw [convInitFtl]
    simp only [if_true]
    rw [show ConvFtl.initLines _ = .ok f₁ from hrun]
    rfl
  rw [hstart]
  rcases hpools₁.prepare (m := .slc) hst₁ rfl with ⟨hnil, herr⟩ |
    ⟨l, f₂, hfree, hl, hcls, hrun₂, hst₂, hpools₂, hmgmt₂, -, hmap₂, hssd₂⟩
  · rw [herr]
    refine ⟨.slc, rfl, ?_⟩
    rw [← hslc, show slm.freeLineList = [] from hnil, List.length_nil]
  let f₃ := f₂.setWp LineMode.slc.io (WritePointer.start l)
  rw [hrun₂, ok_bind]
  have hmgmt₃ : f₃.mgmt = f₂.mgmt := f₂.setWp_mgmt .slc _
  rcases (hpools₂.setWp .slc (WritePointer.start l)).prepare (m := .tlc)
    (hst₂.setWp .slc (WritePointer.start l)) (Function.update_of_ne (by simp) ..) with
    ⟨hnil, herr⟩ | ⟨l', f₄, -, hl', hcls', hrun₄, hst₄, hpools₄, hmgmt₄, hpwp₄, hmap₄, hssd₄⟩
  · rw [herr]
    refine ⟨.tlc, rfl, ?_⟩
    have hlm : (f₃.mgmt .tlc).freeLineList = lm.freeLineList := by
      rw [hmgmt₃, hmgmt₂ .tlc (by simp)]
      rfl
    rw [← htlc, ← hlm, show (f₃.mgmt .tlc).freeLineList = [] from hnil, List.length_nil]
  let f₅ := f₄.setWp LineMode.tlc.io (WritePointer.start l')
  rw [hrun₄, ok_bind]
  have hpwp : f₅.poolWp = Function.update (Function.update f₂.poolWp .slc (WritePointer.start l))
      .tlc (WritePointer.start l') := by
    rw [f₄.setWp_poolWp .tlc, hpwp₄, f₂.setWp_poolWp .slc]
  have hssd : f₅.ssd = ssdInit spp clock := hssd₄.trans hssd₂
  have hstatus : ∀ q, f₅.status q = .free := fun q => by
    have hblk : ∀ i, (ssdInitNandPlane spp q.blk).statusAt i = .free := fun i => by
      unfold ssdInitNandPlane
      split <;> rfl
    rw [ConvFtl.status, hssd]
    exact hblk _
  have hcur : f₅.cur =
      Function.update (Function.update (fun _ => none) .slc (some l)) .tlc (some l') := by
    ext m : 1
    unfold ConvFtl.cur
    rw [hpwp]
    cases m <;> rfl
  let cls' := Function.update (Function.update (fun _ => LineClass.free) l .current) l' .current
  let w' : LineMode → Nat := Function.update (Function.update (fun _ => 0) .slc 0) .tlc 0
  have hok : f₅.Ok g cls' w' := by
    refine ⟨hst₄.setWp .tlc _, ?_, fun m => ?_⟩
    · have := hpools₄.setWp .tlc (WritePointer.start l')
      rwa [← hcur] at this
    · rw [hpwp]
      cases m
      · exact WpOk.start hl
      · exact WpOk.start hl'
  have hidle : f₅.Idle g cls' w' := by
    refine ⟨hok, ⟨⟨fun k v hk => ?_, fun v hv => ?_⟩, fun k hk => ?_⟩, fun l₀ _ hc => ?_⟩
    · rw [show f₅.maptbl = fun _ => none from hmap₄.trans hmap₂] at hk
      cases hk
    · have := hv.2.1
      rw [hstatus] at this
      cases this
    · rw [show f₅.maptbl = fun _ => none from hmap₄.trans hmap₂] at hk
      exact absurd rfl hk
    · by_cases h1 : l₀ = l'
      · rw [h1, show cls' l' = .current from Function.update_self ..] at hc
        cases hc
      · rw [show cls' l₀ = _ from Function.update_of_ne h1 ..] at hc
        by_cases h2 : l₀ = l
        · rw [h2, Function.update_self] at hc
          cases hc
        · rw [Function.update_of_ne h2] at hc
          cases hc
  refine ⟨cls', w', hidle.untracked, hmap₄.trans hmap₂, fun hfour => ?_⟩
  have hwfc : f₅.initWriteFlowControl.wfc =
      { writeCredits := g.pgsPerLine .slc, creditsToRefill := g.pgsPerLine .slc } := by
    have hlt : g.pgsPerLine .slc < 2 ^ 31 := g.pages_lt .slc
    have hpgs : f₅.ssd.sp.pgsPerLineSlc = g.pgsPerLine .slc := hok.static.fits.pgsPerLine .slc
    simp only [ConvFtl.initWriteFlowControl, hok.static.slcMode, hpgs,
      asU32_of_lt (show g.pgsPerLine .slc < 2 ^ 32 by omega)]
  have hlen : f₅.slm.freeLineList.length + 1 = g.lines .slc := by
    have h5 : (f₅.mgmt .slc).freeLineList = (f₂.mgmt .slc).freeLineList := by
      rw [f₄.setWp_mgmt .tlc, hmgmt₄ .slc (by simp), f₂.setWp_mgmt .slc]
    have h2 : slm.freeLineList = l :: (f₂.mgmt .slc).freeLineList := hfree
    rw [show f₅.slm.freeLineList = (f₂.mgmt .slc).freeLineList from h5, ← hslc, h2,
      List.length_cons]
  refine ⟨?_, ?_, ?_⟩
  · rw [show (ConvFtl.initWriteFlowControl _).wfc = _ from hwfc]
    rfl
  · rw [show (ConvFtl.initWriteFlowControl _).wfc = _ from hwfc]
  · show 3 ≤ f₅.slm.freeLineList.length
    omega

end NvmeVirt
