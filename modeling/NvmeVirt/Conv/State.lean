import NvmeVirt.Ssd.Timing
import NvmeVirt.Pqueue.Order

/-!
# State of the conventional translation layer

`struct conv_ftl` and the small accessors of `conv_ftl.c`. The arrays `slm.lines`
and `lm.lines` are one function here: the entries of `slm.lines` come first when
the SLC cache is in use, so a line is identified by its block number, which is
also its `id`. A pointer to a line is that number, and the containers of a pool
hold such numbers.
-/

namespace NvmeVirt

open Checked

/-- `enum line_mode`. -/
inductive LineMode
  | slc
  | tlc
  deriving DecidableEq, Repr, Inhabited

/-- `struct line`; the list entry is the membership in one of the lists of its pool. -/
structure Line where
  id : Nat
  ipc : Nat
  vpc : Nat
  pos : Nat
  mtime : Nat
  deriving DecidableEq, Repr, Inhabited

/-- `struct write_pointer`; before the first `prepare_write_pointer` its line is unset. -/
structure WritePointer where
  curline : Nat
  ch : Nat
  lun : Nat
  pg : Nat
  blk : Nat
  pl : Nat
  deriving DecidableEq, Repr, Inhabited

/-- `struct line_mgmt` without its array of lines. -/
structure LineMgmt where
  freeLineList : List Nat
  victimLinePq : Pqueue Nat
  fullLineList : List Nat
  ttLines : Nat
  freeLineCnt : Nat
  victimLineCnt : Nat
  fullLineCnt : Nat
  deriving Inhabited

/-- `struct convparams`: the thresholds and the switch that the commands read. -/
structure Convparams where
  gcThresLinesHigh : Nat
  migThresLinesHigh : Nat
  enableGcDelay : Bool
  deriving DecidableEq, Repr, Inhabited

/-- `conv_init_params`. -/
def convInitParams : Convparams where
  gcThresLinesHigh := 2
  migThresLinesHigh := 2
  enableGcDelay := true

/-- `struct write_flow_control`. -/
structure WriteFlowControl where
  writeCredits : Nat
  creditsToRefill : Nat
  deriving DecidableEq, Repr, Inhabited

/-- `struct conv_ftl`. -/
structure ConvFtl where
  ssd : Ssd
  cp : Convparams
  maptbl : Nat → Option Ppa
  rmap : Nat → Nat
  wp : WritePointer
  gcWp : WritePointer
  lines : Nat → Line
  lm : LineMgmt
  wfc : WriteFlowControl
  gcCnt : Nat
  copyCnt : Nat
  ageCnt : Nat → Nat
  slm : LineMgmt
  slcMode : LineMode
  dynSlcMode : LineMode
  deriving Inhabited

/-- `INVALID_LPN`. -/
def invalidLpn : Nat := 2 ^ 64 - 1

/-! ## Sizes by pool

The source repeats the choice between an SLC and a TLC size in every function; the
two parts of the choice are stated once. -/

/-- An `int` converted to an `uint32_t`. -/
def asU32 (x : Int) : Nat := (x % 2 ^ 32).toNat

/-- `cur_pgs_per_blk`. -/
def Ssdparams.curPgsPerBlk (spp : Ssdparams) : LineMode → Int
  | .slc => spp.pgsPerBlkSlc
  | .tlc => spp.pgsPerBlk

/-- `cur_pgs_per_line`. -/
def Ssdparams.curPgsPerLine (spp : Ssdparams) : LineMode → Int
  | .slc => spp.pgsPerLineSlc
  | .tlc => asInt spp.pgsPerLine

/-- `cur_pgs_per_oneshotpg`. -/
def Ssdparams.curPgsPerOneshotpg (spp : Ssdparams) : LineMode → Int
  | .slc => spp.pgsPerOneshotpgSlc
  | .tlc => spp.pgsPerOneshotpg

namespace ConvFtl

/-- `&slm` or `&lm`. -/
def mgmt (f : ConvFtl) : LineMode → LineMgmt
  | .slc => f.slm
  | .tlc => f.lm

/-- Store through a pointer to `slm` or `lm`. -/
def setMgmt (f : ConvFtl) (m : LineMode) (lm : LineMgmt) : ConvFtl :=
  match m with
  | .slc => { f with slm := lm }
  | .tlc => { f with lm := lm }

/-- The pool of the block of an address, as `mark_page_invalid` and others choose it. -/
def ppaPool (f : ConvFtl) (p : Ppa) : LineMode :=
  match f.slcMode with
  | .slc => if (p.blk : Int) < f.ssd.sp.ttLinesSlc then .slc else .tlc
  | .tlc => .tlc

/-- The pool that `advance_write_pointer` works on. -/
def ioPool (f : ConvFtl) (io : IoType) : LineMode :=
  match f.slcMode, io with
  | .slc, .user => .slc
  | .slc, .gc => .tlc
  | .tlc, _ => .tlc

/-! ## Accessors -/

/-- `last_pg_in_wordline` and `last_pg_in_wordline_slc`, for the pool `m`. -/
def lastPgInWordline (f : ConvFtl) (m : LineMode) (p : Ppa) : Bool :=
  (p.pg : Int) % f.ssd.sp.curPgsPerOneshotpg m = f.ssd.sp.curPgsPerOneshotpg m - 1

/-- `should_gc_high`. -/
def shouldGcHigh (f : ConvFtl) : Bool := f.lm.freeLineCnt ≤ f.cp.gcThresLinesHigh

/-- `should_migration_high`. -/
def shouldMigrationHigh (f : ConvFtl) : Bool := f.slm.freeLineCnt ≤ f.cp.migThresLinesHigh

/-- `get_maptbl_ent`. -/
def getMaptblEnt (f : ConvFtl) (lpn : Nat) : Option Ppa := f.maptbl lpn

/-- `set_maptbl_ent`. -/
def setMaptblEnt (f : ConvFtl) (lpn : Nat) (p : Ppa) : Except Fault ConvFtl := do
  require (lpn < f.ssd.sp.ttPgs) .maptblLpn
  return { f with maptbl := Function.update f.maptbl lpn (some p) }

/-- The pages of a plane before the block of an address, in the three branches of
`ppa2pgidx`. The `int` products never exceed the page count of a plane. -/
def blkPgOffset (f : ConvFtl) (p : Ppa) : Nat :=
  let spp := f.ssd.sp
  match f.slcMode with
  | .slc =>
    if (p.blk : Int) < spp.ttLinesSlc then p.blk * spp.pgsPerBlkSlc.toNat
    else spp.ttLinesSlc.toNat * spp.pgsPerBlkSlc.toNat +
      (p.blk - spp.ttLinesSlc.toNat) * spp.pgsPerBlk
  | .tlc => p.blk * spp.pgsPerBlk

/-- `ppa2pgidx`. -/
def ppa2pgidx (f : ConvFtl) (p : Ppa) : Except Fault Nat := do
  let spp := f.ssd.sp
  require (f.ppaPool p = .slc → (p.pg : Int) < spp.pgsPerBlkSlc) .pgidxSlcPg
  let pgidx := p.ch * spp.pgsPerCh + p.lun * spp.pgsPerLun + p.pl * spp.pgsPerPl +
    f.blkPgOffset p + p.pg
  require (pgidx < spp.ttPgs) .pgidxRange
  return pgidx

/-- `get_rmap_ent`. -/
def getRmapEnt (f : ConvFtl) (p : Ppa) : Except Fault Nat := do
  let pgidx ← f.ppa2pgidx p
  return f.rmap pgidx

/-- `set_rmap_ent`. -/
def setRmapEnt (f : ConvFtl) (lpn : Nat) (p : Ppa) : Except Fault ConvFtl := do
  let pgidx ← f.ppa2pgidx p
  return { f with rmap := Function.update f.rmap pgidx lpn }

/-- `valid_ppa`; the fields of an address are never negative. -/
def validPpa (f : ConvFtl) (p : Ppa) : Bool :=
  let spp := f.ssd.sp
  p.ch < spp.nchs && p.lun < spp.lunsPerCh && p.pl < spp.plsPerLun && p.blk < spp.blksPerPl &&
    match f.slcMode with
    | .slc =>
      if p.blk < f.slm.ttLines then (p.pg : Int) < spp.pgsPerBlkSlc else p.pg < spp.pgsPerBlk
    | .tlc => p.pg < spp.pgsPerBlk

/-- `valid_lpn`. -/
def validLpn (f : ConvFtl) (lpn : Nat) : Bool := lpn < f.ssd.sp.ttPgs

/-- Entry `i` of `lm.lines`: the entries of `slm.lines` come first when there are any. -/
def lmLine (f : ConvFtl) (i : Nat) : Nat :=
  match f.slcMode with
  | .slc => i + f.slm.ttLines
  | .tlc => i

/-- `get_line`. -/
def getLine (f : ConvFtl) (p : Ppa) : Nat :=
  match f.slcMode with
  | .slc => if p.blk < f.slm.ttLines then p.blk else f.lmLine (p.blk - f.slm.ttLines)
  | .tlc => f.lmLine p.blk

/-- Store through a line pointer. -/
def setLine (f : ConvFtl) (l : Nat) (line : Line) : ConvFtl :=
  { f with lines := Function.update f.lines l line }

/-- `__get_wp`. -/
def getWp (f : ConvFtl) : IoType → WritePointer
  | .user => f.wp
  | .gc => f.gcWp

/-- Store through the result of `__get_wp`. -/
def setWp (f : ConvFtl) (io : IoType) (wp : WritePointer) : ConvFtl :=
  match io with
  | .user => { f with wp := wp }
  | .gc => { f with gcWp := wp }

/-- `ssd_advance_nand` on the device of this instance; the build has the SLC cache
exactly when `slc_mode` says so. -/
def advanceNand (f : ConvFtl) (c : NandCmd) : Nat × ConvFtl :=
  let (t, ssd) := f.ssd.advanceNand (f.slcMode = .slc) c
  (t, { f with ssd })

/-- `ktime_get_ns`. -/
def ktimeGetNs (f : ConvFtl) : Nat × ConvFtl :=
  let (t, perf) := f.ssd.perf.readClock
  (t, { f with ssd := { f.ssd with perf } })

end ConvFtl

/-! ## The callbacks of the victim queues -/

/-- `victim_line_cmp_pri` to `victim_line_set_pos`: the priority of a line is its `vpc`. -/
def victimLine : PqueueCallbacks (Nat → Line) Nat where
  cmppri next curr := next > curr
  getpri lines l := (lines l).vpc
  setpri lines l pri := Function.update lines l { lines l with vpc := pri }
  getpos lines l := (lines l).pos
  setpos lines l pos := Function.update lines l { lines l with pos := pos }

/-- The callbacks touch two separate fields. -/
theorem victimLine_lawful : victimLine.Lawful := by
  constructor <;> intro lines a i b <;> by_cases h : b = a <;> simp [victimLine, h]

theorem victimLine_irrefl (p : Nat) : victimLine.cmppri p p = false := by simp [victimLine]

/-- A line of fewer valid pages leaves the queue first. -/
theorem victimLine_ordered : victimLine.Ordered := by
  constructor
  · exact victimLine_irrefl
  · intro a b c
    simp only [PqueueCallbacks.Above, victimLine, decide_eq_false_iff_not]
    omega
  · intro a b
    simp only [PqueueCallbacks.Above, victimLine, decide_eq_false_iff_not, decide_eq_true_eq]
    omega

/-- The callbacks of the queue when it calls `set_pos` change no other field. -/
theorem victimLine_setpos_fields (lines : Nat → Line) (a i b : Nat) :
    (victimLine.setpos lines a i b).vpc = (lines b).vpc ∧
      (victimLine.setpos lines a i b).ipc = (lines b).ipc ∧
      (victimLine.setpos lines a i b).id = (lines b).id := by
  by_cases h : b = a <;> simp [victimLine, h]

end NvmeVirt
