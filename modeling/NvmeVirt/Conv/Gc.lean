import NvmeVirt.Conv.Lines

/-!
# Garbage collection and migration

`do_gc` empties one victim line: of the SLC pool, chosen greedily, when
`dyn_slc_mode` is `SLC_MODE`; of the TLC pool, chosen by cost and benefit,
otherwise. In both cases the valid pages go to the garbage collection write
pointer. `foreground_gc` runs it at most once for each pool.
-/

namespace NvmeVirt

open Checked

/-! ## Choosing a victim -/

/-- `US`: the bounds of `age_levelize`, in microseconds. -/
def us (a : Nat) : Nat := a * 1000 * 1000

/-- `age_levelize`. -/
def ageLevelize (ageUs : Nat) : Nat :=
  if ageUs < us 5 then 1
  else if ageUs < us 10 then 5
  else if ageUs < us 25 then 10
  else if ageUs < us 50 then 20
  else if ageUs < us 100 then 40
  else if ageUs < us 200 then 80
  else 250

/-- `SCALER`. -/
def scaler : Int := 1000000000000

/-- `calculate_cost_benefit_val` at the time `now`. The `int` and `long long` products
wrap around, as the kernel is compiled. -/
def calculateCostBenefitVal (spp : Ssdparams) (now : Nat) (line : Line) : Except Fault Int := do
  let age := ageLevelize (u64Sub now line.mtime / 1000)
  let ppl := asInt spp.pgsPerLine
  if (line.vpc : Int) = ppl then return scaler * 10
  let cost := Int.bmod ((ppl - line.vpc) * age) (2 ^ 32)
  require (cost ≠ 0) .divByZero
  return (Int.bmod (line.vpc * scaler) (2 ^ 64)).tdiv cost

namespace ConvFtl

/-- One step of the search of `select_victim_line`: the state carries the best index so
far and its value. -/
def cbStep (s : ConvFtl × Option Nat × Int) (i : Nat) :
    Except Fault (ConvFtl × Option Nat × Int) := do
  let (f, minIdx, cbMin) := s
  let line := f.lines (f.lm.victimLinePq.d i)
  if line.ipc = 0 then return s
  let (now, f) := f.ktimeGetNs
  let val ← calculateCostBenefitVal f.ssd.sp now line
  if val < cbMin then return (f, some i, val) else return (f, minIdx, cbMin)

/-- Record the age of a victim, in seconds and at most 200. -/
def countAge (f : ConvFtl) (l : Nat) : ConvFtl :=
  let (now, f) := f.ktimeGetNs
  let age := min (u64Sub now (f.lines l).mtime / 1000000000) 200
  { f with ageCnt := Function.update f.ageCnt age (u32 (f.ageCnt age + 1)) }

/-- `select_victim_line` as it is compiled, with cost-benefit selection. `force` is not
read in that case. -/
def selectVictimLine (f : ConvFtl) : Except Fault (Option Nat × ConvFtl) := do
  let (f, minIdx, _) ← (List.range' 1 (f.lm.victimLinePq.size - 1)).foldlM cbStep
    (f, none, 2 ^ 63 - 1)
  match minIdx with
  | none => return (none, f)
  | some i =>
    let l := f.lm.victimLinePq.d i
    let (pq, lines) := f.lm.victimLinePq.remove victimLine f.lines l
    let f := { f with
      lines := Function.update lines l { lines l with pos := 0 }
      lm := { f.lm with victimLinePq := pq, victimLineCnt := f.lm.victimLineCnt - 1 } }
    return (some l, f.countAge l)

/-- `select_victim_line_slc`: greedy, with the full list as a fallback. -/
def selectVictimLineSlc (f : ConvFtl) (force : Bool) : Option Nat × ConvFtl :=
  match f.slm.victimLinePq.peek with
  | none =>
    match f.slm.fullLineList with
    | [] => (none, f)
    | l :: rest =>
      (some l, { f with
        slm := { f.slm with fullLineList := rest, fullLineCnt := f.slm.fullLineCnt - 1 } })
  | some l =>
    if !force && decide (((f.lines l).vpc : Int) > f.ssd.sp.pgsPerLineSlc / 8) then (none, f)
    else
      let (_, pq, lines) := f.slm.victimLinePq.pop victimLine f.lines
      (some l, { f with
        lines := Function.update lines l { lines l with pos := 0 }
        slm := { f.slm with
          victimLinePq := pq
          victimLineCnt := f.slm.victimLineCnt - 1 } })

/-! ## Moving the valid pages -/

/-- Charge a command of the garbage collector when `enable_gc_delay` is set. -/
def gcDelay (f : ConvFtl) (c : NandCmd) : ConvFtl :=
  if f.cp.enableGcDelay then (f.advanceNand c).2 else f

/-- `gc_write_page`. -/
def gcWritePage (f : ConvFtl) (oldPpa : Ppa) : Except Fault ConvFtl := do
  let lpn ← f.getRmapEnt oldPpa
  require (f.validLpn lpn) .rmapLpn
  let (newPpa, f) ← f.placePage .gc lpn
  let f := { f with copyCnt := f.copyCnt + 1 }
  let f ← f.advanceWritePointer .gc
  let program := f.lastPgInWordline .tlc newPpa
  let gcw : NandCmd :=
    { type := .gc
      cmd := if program then .write else .nop
      stime := 0
      xferSize := if program then f.ssd.sp.pgsz * f.ssd.sp.pgsPerOneshotpg else 0
      interleavePciDma := false
      ppa := some newPpa }
  return f.gcDelay gcw

/-- The page `i` pages further in the block; the field wraps around. -/
def pageAt (p : Ppa) (i : Nat) : Ppa := { p with pg := (p.pg + i) % 2 ^ pageBits }

/-- The first loop of `clean_one_flashpg`: the number of valid pages. -/
def countValid (f : ConvFtl) (p : Ppa) (n : Nat) : Except Fault Nat :=
  (List.range n).foldlM (fun cnt i => do
    let pg ← f.ssd.getPg (pageAt p i)
    require (pg.status ≠ .free) .cleanFreePage
    return if pg.status = .valid then cnt + 1 else cnt) 0

/-- The body of the second loop of `clean_one_flashpg`. -/
def cleanPage (p : Ppa) (f : ConvFtl) (i : Nat) : Except Fault ConvFtl := do
  let pg ← f.ssd.getPg (pageAt p i)
  if pg.status = .valid then f.gcWritePage (pageAt p i) else return f

/-- `clean_one_flashpg`. -/
def cleanOneFlashpg (f : ConvFtl) (p : Ppa) : Except Fault ConvFtl := do
  let spp := f.ssd.sp
  let migrating := f.slcMode = .slc ∧ f.dynSlcMode = .slc
  require (migrating → (p.blk : Int) < spp.ttLinesSlc) .cleanSlcBlk
  let cnt ← f.countValid p spp.pgsPerFlashpg
  if cnt = 0 then return f
  let gcr : NandCmd :=
    { type := if migrating then .user else .gc
      cmd := .read
      stime := 0
      xferSize := spp.pgsz * cnt
      interleavePciDma := false
      ppa := some p }
  (List.range spp.pgsPerFlashpg).foldlM (cleanPage p) (f.gcDelay gcr)

/-! ## One victim line -/

/-- The innermost body of the loops of `do_gc` for the victim block number `blk`. -/
def gcBody (blk flashpgs : Nat) (io : IoType) (flashpg ch lun : Nat) (f : ConvFtl) :
    Except Fault ConvFtl := do
  let p : Ppa :=
    { pg := flashpg * f.ssd.sp.pgsPerFlashpg % 2 ^ pageBits
      blk := blk % 2 ^ blkBits
      pl := 0
      lun := lun % 2 ^ lunBits
      ch := ch % 2 ^ chBits }
  let f ← f.cleanOneFlashpg p
  if flashpg + 1 = flashpgs then
    let f ← f.markBlockFree p
    let gce : NandCmd :=
      { type := io
        cmd := .erase
        stime := 0
        xferSize := 0
        interleavePciDma := false
        ppa := some p }
    return f.gcDelay gce
  else return f

/-- The loops of `do_gc`: flash page, channel, die. -/
def gcLoop (f : ConvFtl) (blk flashpgs : Nat) (io : IoType) : Except Fault ConvFtl :=
  let spp := f.ssd.sp
  (List.range flashpgs).foldlM (fun f flashpg =>
    (List.range spp.nchs).foldlM (fun f ch =>
      (List.range spp.lunsPerCh).foldlM (fun f lun => gcBody blk flashpgs io flashpg ch lun f) f)
      f) f

/-- The part of `do_gc` after a victim has been selected. -/
def collectLine (f : ConvFtl) (l : Nat) : Except Fault ConvFtl := do
  let spp := f.ssd.sp
  let migrating := f.dynSlcMode = .slc
  let io := if migrating then IoType.user else .gc
  let flashpgs := if migrating then spp.flashpgsPerBlkSlc.toNat else spp.flashpgsPerBlk
  let blk := (f.lines l).id
  let refill := if migrating then asU32 spp.pgsPerLineSlc else (f.lines l).ipc
  let f := { f with wfc := { f.wfc with creditsToRefill := refill } }
  let f ← f.gcLoop blk flashpgs io
  return f.markLineFree { pg := 0, blk := blk % 2 ^ blkBits, pl := 0, lun := 0, ch := 0 }

/-- `do_gc`; its result code is not used by any caller. -/
def doGc (f : ConvFtl) (force : Bool) : Except Fault ConvFtl := do
  let (victim, f) ←
    match f.dynSlcMode with
    | .slc => pure (f.selectVictimLineSlc force)
    | .tlc => do
      let (victim, f) ← f.selectVictimLine
      pure (victim, { f with gcCnt := f.gcCnt + 1 })
  match victim with
  | none => return f
  | some l => f.collectLine l

/-- The part of `foreground_gc` that collects a line of the TLC pool before the migration. -/
def gcHigh (f : ConvFtl) : Except Fault ConvFtl :=
  if f.shouldGcHigh then doGc { f with dynSlcMode := .tlc } true else .ok f

/-- `foreground_gc`. -/
def foregroundGc (f : ConvFtl) : Except Fault ConvFtl :=
  if f.shouldMigrationHigh then do
    let f ← f.gcHigh
    if f.slcMode = .slc then doGc { f with dynSlcMode := .slc } true else return f
  else .ok f

/-- `consume_write_credit`. -/
def consumeWriteCredit (f : ConvFtl) : ConvFtl :=
  { f with wfc := { f.wfc with writeCredits := u32Sub f.wfc.writeCredits 1 } }

/-- `check_and_refill_write_credit`. -/
def checkAndRefillWriteCredit (f : ConvFtl) : Except Fault ConvFtl := do
  if f.wfc.writeCredits = 0 then
    let f ← f.foregroundGc
    return { f with wfc :=
      { f.wfc with writeCredits := u32 (f.wfc.writeCredits + f.wfc.creditsToRefill) } }
  else return f

end ConvFtl

/-! ## What a selection touches -/

/-- The instance `f` after the clock was read. -/
def ConvFtl.withClock (f : ConvFtl) (clock : Clock) : ConvFtl :=
  { f with ssd := { f.ssd with perf := { f.ssd.perf with clock } } }

/-- The search for a victim only reads the clock. -/
theorem ConvFtl.cbStep_clock {f : ConvFtl} {s s' : ConvFtl × Option Nat × Int} {i : Nat}
    (h : ∃ clock, s.1 = f.withClock clock) (hr : ConvFtl.cbStep s i = .ok s') :
    ∃ clock, s'.1 = f.withClock clock := by
  obtain ⟨clock, hf⟩ := h
  simp only [ConvFtl.cbStep] at hr
  split at hr
  · cases hr
    exact ⟨clock, hf⟩
  · obtain ⟨val, -, hr⟩ := bind_eq_ok.mp hr
    rw [hf] at hr
    split at hr
    · cases hr
      exact ⟨_, rfl⟩
    · cases hr
      exact ⟨_, rfl⟩

/-- The selection of a TLC victim also takes it out of the queue and counts its age. -/
theorem ConvFtl.selectVictimLine_touches (f : ConvFtl) :
    Outcome f.selectVictimLine (fun r => ∃ clock lines pq cnt ageCnt, r.2 =
      { f.withClock clock with
        lines
        lm := { f.lm with victimLinePq := pq, victimLineCnt := cnt }
        ageCnt }) fun _ => True := by
  unfold ConvFtl.selectVictimLine
  refine (outcome_foldlM_const
    (fun s : ConvFtl × Option Nat × Int => ∃ clock, s.1 = f.withClock clock)
    (fun i _ s hs => Outcome.of_forall_ok fun s' hr => ConvFtl.cbStep_clock hs hr) _
    ⟨f.ssd.perf.clock, rfl⟩).bind ?_
  rintro ⟨f₁, best, val⟩ ⟨clock, hf⟩
  have hf : f₁ = f.withClock clock := hf
  subst hf
  cases best with
  | none => exact ⟨clock, _, _, _, _, rfl⟩
  | some i => exact ⟨_, _, _, _, _, rfl⟩

/-- The selection of an SLC victim touches its pool and its position. -/
theorem ConvFtl.selectVictimLineSlc_touches (f : ConvFtl) (force : Bool) :
    ∃ lines slm, (f.selectVictimLineSlc force).2 = { f with lines, slm } := by
  unfold ConvFtl.selectVictimLineSlc
  split
  · split
    · exact ⟨_, _, rfl⟩
    · exact ⟨_, _, rfl⟩
  · split
    · exact ⟨_, _, rfl⟩
    · exact ⟨_, _, rfl⟩

end NvmeVirt
