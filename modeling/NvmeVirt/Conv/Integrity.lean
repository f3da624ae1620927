import NvmeVirt.Conv.History

/-!
# Integrity of the maps and the pools

The invariants of an instance in the words of the source: what the two maps say about each
other, where every line is, and what the counters of pages, blocks and lines are. They hold
in every state that a run of a build with the SLC cache reaches.
-/

namespace NvmeVirt

open Checked Tally

variable {g : Geometry} {cls : Nat → LineClass} {w : LineMode → Nat} {f : ConvFtl} {m : LineMode}

/-! ## The maps -/

/-- Every mapped logical page has a valid page that names it, and every valid page holds the
logical page it names. -/
structure ConvFtl.MapsInverse (f : ConvFtl) : Prop where
  mapped : ∀ lpn p, f.maptbl lpn = some p → f.validPpa p = true ∧ f.status p = .valid ∧
    ∃ idx, f.ppa2pgidx p = .ok idx ∧ f.rmap idx = lpn
  valid : ∀ p, f.validPpa p = true → f.status p = .valid →
    ∃ idx, f.ppa2pgidx p = .ok idx ∧ f.rmap idx < f.ssd.sp.ttPgs ∧ f.maptbl (f.rmap idx) = some p

theorem ConvFtl.Idle.mapsInverse (h : f.Idle g cls w) : f.MapsInverse := by
  have hst := h.ok.static
  constructor
  · intro lpn p hp
    obtain ⟨⟨hv, hs, -⟩, hr⟩ := h.maps.inverse.live_of_fwd lpn p hp
    exact ⟨(hst.validPpa_iff p).mpr hv, hs, _, hst.ppa2pgidx hv, hr⟩
  · intro p hv hs
    have hv := (hst.validPpa_iff p).mp hv
    have hmap := h.maps.inverse.fwd_of_live p ⟨hv, hs, not_false⟩
    refine ⟨_, hst.ppa2pgidx hv, ?_, hmap⟩
    rw [hst.fits.ttPgs]
    apply h.maps.dom _
    rw [hmap]
    exact Option.some_ne_none p

/-! ## The pools -/

/-- The places where a line of a pool can be. -/
inductive LinePlace
  | freeList
  | fullList
  | victimQueue
  | writePointer
  deriving DecidableEq

/-- The line `l` of the pool `m` is at a place. -/
def ConvFtl.LineAt (f : ConvFtl) (m : LineMode) (l : Nat) : LinePlace → Prop
  | .freeList => l ∈ (f.mgmt m).freeLineList
  | .fullList => l ∈ (f.mgmt m).fullLineList
  | .victimQueue => (f.mgmt m).victimLinePq.Mem l
  | .writePointer => (f.poolWp m).curline = l

/-- The pages of the line `l` of the pool `m` with a status. -/
def ConvFtl.countPages (f : ConvFtl) (g : Geometry) (m : LineMode) (l : Nat) (st : PageStatus) :
    Nat :=
  ∑ d ∈ g.dies, tally (g.pgsPerBlk m) (f.ssd.blk (lineAddr l d)).statusAt st

/-- The places of the lines of a pool and the counters of the containers. -/
structure PlacesIntact (g : Geometry) (m : LineMode) (f : ConvFtl) : Prop where
  place : ∀ l, g.HasLine m l → ∃! c, f.LineAt m l c
  inPool : ∀ l c, f.LineAt m l c → g.HasLine m l
  freeNodup : (f.mgmt m).freeLineList.Nodup
  fullNodup : (f.mgmt m).fullLineList.Nodup
  freeCnt : (f.mgmt m).freeLineCnt = (f.mgmt m).freeLineList.length
  fullCnt : (f.mgmt m).fullLineCnt = (f.mgmt m).fullLineList.length
  victimCnt : (f.mgmt m).victimLineCnt + 1 = (f.mgmt m).victimLinePq.size
  /-- The heap index of a queued line; zero means that the line is not queued. -/
  pos : ∀ l, g.HasLine m l → ((f.lines l).pos ≠ 0 ↔ f.LineAt m l .victimQueue)
  posIndex : ∀ l, f.LineAt m l .victimQueue → (f.lines l).pos < (f.mgmt m).victimLinePq.size ∧
    (f.mgmt m).victimLinePq.d (f.lines l).pos = l

/-- The counters of the line `l` of a pool. -/
structure LineIntact (g : Geometry) (m : LineMode) (f : ConvFtl) (l : Nat) : Prop where
  blkVpc : ∀ d ∈ g.dies, (f.ssd.blk (lineAddr l d)).vpc =
    tally (g.pgsPerBlk m) (f.ssd.blk (lineAddr l d)).statusAt .valid
  blkIpc : ∀ d ∈ g.dies, (f.ssd.blk (lineAddr l d)).ipc =
    tally (g.pgsPerBlk m) (f.ssd.blk (lineAddr l d)).statusAt .invalid
  vpc : (f.lines l).vpc = f.countPages g m l .valid
  ipc : (f.lines l).ipc = f.countPages g m l .invalid
  free : f.LineAt m l .freeList → (f.lines l).vpc = 0 ∧ (f.lines l).ipc = 0 ∧
    f.countPages g m l .free = g.pgsPerLine m
  full : f.LineAt m l .fullList → (f.lines l).vpc = g.pgsPerLine m
  victim : f.LineAt m l .victimQueue →
    (f.lines l).vpc + (f.lines l).ipc = g.pgsPerLine m ∧ 0 < (f.lines l).ipc
  written : f.LineAt m l .writePointer → (f.lines l).vpc + (f.lines l).ipc =
    g.rank m (f.poolWp m).ch (f.poolWp m).lun (f.poolWp m).pg

/-- The label of a line between commands says where it is. -/
theorem ConvFtl.Ok.lineAt_iff (h : f.Ok g cls w) {l : Nat} :
    (f.LineAt m l .freeList ↔ g.HasLine m l ∧ cls l = .free) ∧
    (f.LineAt m l .fullList ↔ g.HasLine m l ∧ cls l = .full) ∧
    (f.LineAt m l .victimQueue ↔ g.HasLine m l ∧ cls l = .victim) ∧
    (f.LineAt m l .writePointer ↔ g.HasLine m l ∧ cls l = .current) := by
  have hcont := h.pools.cont m
  refine ⟨hcont.free l, hcont.full l, hcont.victim l, ?_⟩
  rw [← hcont.current l, ConvFtl.LineAt, (h.wp m).curline, ConvFtl.cur, Option.some.injEq]

theorem ConvFtl.Idle.placesIntact (h : f.Idle g cls w) (m : LineMode) : PlacesIntact g m f := by
  have hcont := h.ok.pools.cont m
  have hat := fun l => h.ok.lineAt_iff (m := m) (l := l)
  refine ⟨fun l hl => ?_, fun l c hc => ?_, hcont.freeNodup, hcont.fullNodup, hcont.freeCnt,
    hcont.fullCnt, hcont.victimCnt, fun l hl => ?_, fun l hl => ?_⟩
  · obtain ⟨hfree, hfull, hvictim, hwp⟩ := hat l
    have hsettled := h.settled l (g.hasLine_iff.mp hl).1
    cases hc : cls l with
    | free =>
      refine ⟨.freeList, hfree.mpr ⟨hl, hc⟩, ?_⟩
      rintro (_ | _ | _ | _) hp <;> simp_all
    | full =>
      refine ⟨.fullList, hfull.mpr ⟨hl, hc⟩, ?_⟩
      rintro (_ | _ | _ | _) hp <;> simp_all
    | victim =>
      refine ⟨.victimQueue, hvictim.mpr ⟨hl, hc⟩, ?_⟩
      rintro (_ | _ | _ | _) hp <;> simp_all
    | current =>
      refine ⟨.writePointer, hwp.mpr ⟨hl, hc⟩, ?_⟩
      rintro (_ | _ | _ | _) hp <;> simp_all
    | collecting => exact absurd hc hsettled
  · obtain ⟨hfree, hfull, hvictim, hwp⟩ := hat l
    cases c with
    | freeList => exact (hfree.mp hc).1
    | fullList => exact (hfull.mp hc).1
    | victimQueue => exact (hvictim.mp hc).1
    | writePointer => exact (hwp.mp hc).1
  · constructor
    · intro hpos
      by_contra hnot
      refine hpos (hcont.pos l hl fun hc => ?_)
      exact hnot ((hat l).2.2.1.mpr ⟨hl, hc⟩)
    · intro hv
      exact hcont.pos_ne_zero hl ((hat l).2.2.1.mp hv).2
  · obtain ⟨-, hlt, hd⟩ := hcont.placed.pos_of_mem hl
    exact ⟨hlt, hd⟩

theorem ConvFtl.Idle.lineIntact (h : f.Idle g cls w) {l : Nat} (hl : g.HasLine m l) :
    LineIntact g m f l := by
  obtain ⟨hlt, hpool⟩ := g.hasLine_iff.mp hl
  have hline := h.ok.pools.line l hlt
  rw [hpool] at hline
  have hsettled := h.settled l hlt
  have hvpc : (f.lines l).vpc = f.countPages g m l .valid :=
    (hline.vpc hsettled).trans (Finset.sum_congr rfl fun d hd => (hline.blocks d hd).vpc)
  have hipc : (f.lines l).ipc = f.countPages g m l .invalid :=
    (hline.ipc hsettled).trans (Finset.sum_congr rfl fun d hd => (hline.blocks d hd).ipc)
  have hsum : f.countPages g m l .valid + f.countPages g m l .invalid +
      f.countPages g m l .free = g.pgsPerLine m := by
    rw [← g.dies_card_mul m, ← Finset.sum_const_nat fun _ _ => rfl]
    simp only [ConvFtl.countPages, ← Finset.sum_add_distrib]
    apply Finset.sum_congr rfl
    intro d hd
    have hblk := hline.blocks d hd
    rw [← hblk.vpc, ← hblk.ipc, hblk.sum_eq]
  obtain ⟨hfree, hfull, hvictim, hwp⟩ := h.ok.lineAt_iff (m := m) (l := l)
  refine ⟨fun d hd => (hline.blocks d hd).vpc, fun d hd => (hline.blocks d hd).ipc, hvpc, hipc,
    fun hat => ?_, fun hat => ?_, fun hat => ?_, fun hat => ?_⟩
  · have hfact := hline.fact
    rw [(hfree.mp hat).2] at hfact
    obtain ⟨hv, hi⟩ := hfact
    exact ⟨hv, hi, by omega⟩
  · have hfact := hline.fact
    rw [(hfull.mp hat).2] at hfact
    exact hfact.1
  · have hfact := hline.fact
    rw [(hvictim.mp hat).2] at hfact
    exact hfact
  · have hfact := hline.fact
    rw [(hwp.mp hat).2] at hfact
    rw [(h.ok.wp m).rank]
    exact hfact

/-! ## Runs -/

/-- In every state that a run reaches, the forward and the reverse map of every instance are
inverse to each other. -/
theorem run_maps_inverse (cfg : SlcConfig) (mem : ConvMemory) (clock : Clock) (size : Nat)
    (events : List ConvEvent) (ns : ConvNs) (i : Nat)
    (h : convRun cfg.toSsdConfig mem clock size events = .ok ns) (hi : i < ns.nrParts) :
    (ns.ftls i).MapsInverse := by
  rcases slcRun_outcome cfg mem clock size events with
    herr | ⟨g, b, spp, -, -, -, -, hrun⟩
  · rw [herr] at h
    cases h
  · obtain ⟨cls, w, hidle, -⟩ := (hrun.of_ok h).inst i hi
    exact hidle.mapsInverse

/-- A page written twice on the shipped device. -/
theorem run_maps_inverse_overwrite : ∃ ns : ConvNs,
    convRun samsung970proSlc.toSsdConfig default default (mb 3071)
      [.command ⟨1, 5⟩ (.write ⟨0, 7, false⟩), .command ⟨1, 9⟩ (.write ⟨0, 7, false⟩)] = .ok ns ∧
    (ns.ftls 0).MapsInverse := by
  have hok : (convRun samsung970proSlc.toSsdConfig default default (mb 3071)
      [.command ⟨1, 5⟩ (.write ⟨0, 7, false⟩), .command ⟨1, 9⟩ (.write ⟨0, 7, false⟩)]).map
        (fun ns => decide (0 < ns.nrParts)) = .ok true := by decide +kernel
  obtain ⟨ns, hrun, hns⟩ := except_map_eq_ok.mp hok
  exact ⟨ns, hrun, run_maps_inverse samsung970proSlc default default (mb 3071) _ ns 0 hrun
    (of_decide_eq_true hns)⟩

/-- In every state that a run reaches, every line of every instance is in exactly one place, and
the counters of lines, blocks and containers say what is there. -/
theorem run_lines_intact (cfg : SlcConfig) (mem : ConvMemory) (clock : Clock) (size : Nat)
    (events : List ConvEvent) (ns : ConvNs) (i : Nat)
    (h : convRun cfg.toSsdConfig mem clock size events = .ok ns) (hi : i < ns.nrParts) :
    ∃ g : Geometry, g.Fits (ns.ftls i).ssd.sp ∧ ∀ m, PlacesIntact g m (ns.ftls i) ∧
      ∀ l, g.HasLine m l → LineIntact g m (ns.ftls i) l := by
  rcases slcRun_outcome cfg mem clock size events with
    herr | ⟨g, b, spp, -, -, -, -, hrun⟩
  · rw [herr] at h
    cases h
  · obtain ⟨cls, w, hidle, -⟩ := (hrun.of_ok h).inst i hi
    exact ⟨g, hidle.ok.static.fits, fun m => ⟨hidle.placesIntact m, fun l hl => hidle.lineIntact hl⟩⟩

/-- A page written twice on the shipped device. -/
theorem run_lines_intact_overwrite : ∃ (ns : ConvNs) (g : Geometry),
    convRun samsung970proSlc.toSsdConfig default default (mb 3071)
      [.command ⟨1, 5⟩ (.write ⟨0, 7, false⟩), .command ⟨1, 9⟩ (.write ⟨0, 7, false⟩)] = .ok ns ∧
    g.Fits (ns.ftls 0).ssd.sp ∧ PlacesIntact g .slc (ns.ftls 0) := by
  have hok : (convRun samsung970proSlc.toSsdConfig default default (mb 3071)
      [.command ⟨1, 5⟩ (.write ⟨0, 7, false⟩), .command ⟨1, 9⟩ (.write ⟨0, 7, false⟩)]).map
        (fun ns => decide (0 < ns.nrParts)) = .ok true := by decide +kernel
  obtain ⟨ns, hrun, hns⟩ := except_map_eq_ok.mp hok
  obtain ⟨g, hfits, hintact⟩ := run_lines_intact samsung970proSlc default default (mb 3071) _ ns 0
    hrun (of_decide_eq_true hns)
  exact ⟨ns, g, hrun, hfits, (hintact .slc).1⟩

end NvmeVirt
