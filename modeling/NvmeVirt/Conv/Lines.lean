import NvmeVirt.Conv.State

/-!
# Lines, write pointers and page states

The functions of `conv_ftl.c` that hand out pages and keep the counters of pages,
blocks and lines. An assertion that fails ends the computation.
-/

namespace NvmeVirt

open Checked

/-! ## Initialisation -/

/-- One pool with all of its lines free, over the uninitialised memory `mem`. -/
def LineMgmt.fresh (mem : LineMgmt) (base count : Nat) : LineMgmt where
  freeLineList := List.range' base count
  victimLinePq := Pqueue.init count mem.victimLinePq.d
  fullLineList := []
  ttLines := count
  freeLineCnt := count
  victimLineCnt := 0
  fullLineCnt := 0

/-! ## Stores to a block -/

namespace NandBlock

/-- Store the status of one page. -/
def setStatus (b : NandBlock) (i : Nat) (st : PageStatus) : Nat → NandPage :=
  Function.update b.pg i { b.pg i with status := st }

/-- The stores of `mark_page_invalid` to a block. -/
def invalidate (b : NandBlock) (i : Nat) : NandBlock where
  pg := b.setStatus i .invalid
  npgs := b.npgs
  ipc := b.ipc + 1
  vpc := b.vpc - 1
  eraseCnt := b.eraseCnt

/-- The stores of `mark_page_valid` to a block. -/
def validate (b : NandBlock) (i : Nat) : NandBlock where
  pg := b.setStatus i .valid
  npgs := b.npgs
  ipc := b.ipc
  vpc := b.vpc + 1
  eraseCnt := b.eraseCnt

/-- The stores of `mark_block_free` to a block of `n` pages. -/
def free (b : NandBlock) (n : Nat) : NandBlock where
  pg := fun i => if i < n then { b.pg i with status := .free } else b.pg i
  npgs := b.npgs
  ipc := 0
  vpc := 0
  eraseCnt := b.eraseCnt + 1

end NandBlock

namespace ConvFtl

/-- `init_lines`: the lines of the SLC area come first. -/
def initLines (f : ConvFtl) : Except Fault ConvFtl := do
  let spp := f.ssd.sp
  let lines := fun l => { id := l, ipc := 0, vpc := 0, pos := 0, mtime := 0 }
  match f.slcMode with
  | .slc =>
    let lmLines := asU32 spp.ttLinesTlc
    let slmLines := asU32 spp.ttLinesSlc
    require (u32 (lmLines + slmLines) = spp.ttLines) .linesTotal
    return { f with lines, lm := f.lm.fresh slmLines lmLines, slm := f.slm.fresh 0 slmLines }
  | .tlc =>
    require (spp.blksPerPl = spp.ttLines) .linesTotal
    return { f with lines, lm := f.lm.fresh 0 spp.blksPerPl }

/-- `init_write_flow_control`. -/
def initWriteFlowControl (f : ConvFtl) : ConvFtl :=
  let pgs := match f.slcMode with
    | .slc => asU32 f.ssd.sp.pgsPerLineSlc
    | .tlc => u32 f.ssd.sp.pgsPerLine
  { f with wfc := { writeCredits := pgs, creditsToRefill := pgs } }

/-! ## Write pointers -/

/-- `get_next_free_line`: the pool follows `dyn_slc_mode` when the SLC cache is in use. -/
def getNextFreeLine (f : ConvFtl) : Option (Nat × ConvFtl) :=
  let m := if f.slcMode = .slc ∧ f.dynSlcMode = .slc then LineMode.slc else .tlc
  let lm := f.mgmt m
  match lm.freeLineList with
  | [] => none
  | l :: rest =>
    some (l, f.setMgmt m { lm with freeLineList := rest, freeLineCnt := lm.freeLineCnt - 1 })

/-- `prepare_write_pointer`. -/
def prepareWritePointer (f : ConvFtl) (io : IoType) : Except Fault ConvFtl :=
  let f := { f with dynSlcMode := f.ioPool io }
  match f.getNextFreeLine with
  | none => .error (.noFreeLine io)
  | some (l, f) =>
    .ok (f.setWp io { curline := l, ch := 0, lun := 0, pg := 0, blk := (f.lines l).id, pl := 0 })

/-- The part of `advance_write_pointer` that moves the pointer inside its line: one-shot
page, then channel, then die, then the next word line. The flag says that the line
is used up. -/
def nextPage (spp : Ssdparams) (pgsPerBlk pgsPerOneshotpg : Int) (wp : WritePointer) :
    Except Fault (WritePointer × Bool) := do
  require ((wp.pg : Int) < pgsPerBlk) .checkAddr
  let pg := wp.pg + 1
  if (pg : Int) % pgsPerOneshotpg ≠ 0 then return ({ wp with pg }, false)
  let start := pg - pgsPerOneshotpg.toNat
  require (wp.ch < spp.nchs) .checkAddr
  let ch := wp.ch + 1
  if ch ≠ spp.nchs then return ({ wp with pg := start, ch }, false)
  require (wp.lun < spp.lunsPerCh) .checkAddr
  let lun := wp.lun + 1
  if lun ≠ spp.lunsPerCh then return ({ wp with pg := start, ch := 0, lun }, false)
  let pg := start + pgsPerOneshotpg.toNat
  if (pg : Int) ≠ pgsPerBlk then return ({ wp with pg, ch := 0, lun := 0 }, false)
  return ({ wp with pg := 0, ch := 0, lun := 0 }, true)

/-- The part of `advance_write_pointer` that moves a used-up line to the full list or
the victim queue. -/
def closeLine (f : ConvFtl) (m : LineMode) (l : Nat) : Except Fault ConvFtl := do
  let curPgsPerLine := f.ssd.sp.curPgsPerLine m
  let lm := f.mgmt m
  let line := f.lines l
  if (line.vpc : Int) = curPgsPerLine then
    require (line.ipc = 0) .fullLineIpc
    return f.setMgmt m { lm with
      fullLineList := lm.fullLineList ++ [l]
      fullLineCnt := lm.fullLineCnt + 1 }
  else
    require ((line.vpc : Int) < curPgsPerLine) .victimVpc
    require (line.ipc > 0) .victimIpc
    require ((line.vpc : Int) + line.ipc = curPgsPerLine) .victimSum
    let (pq, lines) := lm.victimLinePq.insert victimLine f.lines l
    return { f with lines }.setMgmt m { lm with
      victimLinePq := pq
      victimLineCnt := lm.victimLineCnt + 1 }

/-- The part of `advance_write_pointer` that picks another empty line. The assertions
that the pointer starts at page, die and channel 0 hold by construction. -/
def openLine (f : ConvFtl) (io : IoType) (wp : WritePointer) : Except Fault ConvFtl := do
  require (wp.blk < f.ssd.sp.blksPerPl) .checkAddr
  let f := { f with dynSlcMode := match io with | .user => LineMode.slc | .gc => .tlc }
  match f.getNextFreeLine with
  | none => .error (.noFreeLine io)
  | some (l, f) =>
    let wp := { wp with curline := l, blk := (f.lines l).id }
    require (wp.blk < f.ssd.sp.blksPerPl) .checkAddr
    require (wp.pl = 0) .wpPlane
    return f.setWp io wp

/-- `advance_write_pointer`. -/
def advanceWritePointer (f : ConvFtl) (io : IoType) : Except Fault ConvFtl := do
  let spp := f.ssd.sp
  let m := f.ioPool io
  let (wp, usedUp) ← nextPage spp (spp.curPgsPerBlk m) (spp.curPgsPerOneshotpg m) (f.getWp io)
  let f := f.setWp io wp
  if usedUp then
    let f ← f.closeLine m wp.curline
    f.openLine io wp
  else return f

/-- `get_new_page`. Each field keeps the low bits that fit. -/
def getNewPage (f : ConvFtl) (io : IoType) : Except Fault Ppa := do
  let wp := f.getWp io
  let p : Ppa :=
    { ch := wp.ch % 2 ^ chBits
      lun := wp.lun % 2 ^ lunBits
      pg := wp.pg % 2 ^ pageBits
      blk := wp.blk % 2 ^ blkBits
      pl := wp.pl % 2 ^ plBits }
  require (p.pl = 0) .wpPlane
  return p

/-! ## Page states -/

/-- The part of `mark_page_invalid` that updates the page and its block. -/
def invalidateBlkPage (f : ConvFtl) (p : Ppa) : Except Fault ConvFtl := do
  let curPgsPerBlk := f.ssd.sp.curPgsPerBlk (f.ppaPool p)
  let pg ← f.ssd.getPg p
  require (pg.status = .valid) .pageNotValid
  let blk := f.ssd.getBlk p
  require ((blk.ipc : Int) < curPgsPerBlk) .blkIpc
  require (0 < blk.vpc ∧ (blk.vpc : Int) ≤ curPgsPerBlk) .blkVpc
  return { f with ssd := f.ssd.setBlk p (blk.invalidate p.pg) }

/-- The part of `mark_page_invalid` that updates the counters of the line; a queued
line moves in its queue. -/
def decLineVpc (f : ConvFtl) (m : LineMode) (l : Nat) : ConvFtl :=
  let line := f.lines l
  let lm := f.mgmt m
  if line.pos ≠ 0 then
    let (pq, lines) := lm.victimLinePq.changePriority victimLine f.lines (line.vpc - 1) l
    { f with lines }.setMgmt m { lm with victimLinePq := pq }
  else f.setLine l { line with vpc := line.vpc - 1 }

/-- The part of `mark_page_invalid` that moves a line from the full list to the victim queue. -/
def fullToVictim (f : ConvFtl) (m : LineMode) (l : Nat) : Except Fault ConvFtl := do
  let lm := f.mgmt m
  let line := f.lines l
  require ((line.vpc : Int) + line.ipc = f.ssd.sp.curPgsPerLine m) .wasFullSum
  let (pq, lines) := lm.victimLinePq.insert victimLine f.lines l
  return { f with lines }.setMgmt m { lm with
    freeLineList := lm.freeLineList.erase l
    fullLineList := lm.fullLineList.erase l
    fullLineCnt := lm.fullLineCnt - 1
    victimLinePq := pq
    victimLineCnt := lm.victimLineCnt + 1 }

/-- The part of `mark_page_invalid` that updates the line. -/
def invalidateLine (f : ConvFtl) (m : LineMode) (l : Nat) : Except Fault ConvFtl := do
  let curPgsPerLine := f.ssd.sp.curPgsPerLine m
  let line := f.lines l
  require ((line.ipc : Int) < curPgsPerLine) .lineIpc
  let wasFullLine := (line.vpc : Int) = curPgsPerLine
  require (wasFullLine → line.ipc = 0) .wasFullIpc
  require (0 < line.vpc ∧ (line.vpc : Int) ≤ curPgsPerLine) .lineVpc
  let f := (f.setLine l { line with ipc := line.ipc + 1 }).decLineVpc m l
  if wasFullLine then f.fullToVictim m l else return f

/-- `mark_page_invalid`. -/
def markPageInvalid (f : ConvFtl) (p : Ppa) : Except Fault ConvFtl := do
  require (asU32 f.ssd.sp.ttLinesSlc = f.slm.ttLines) .slmTotal
  let f ← f.invalidateBlkPage p
  f.invalidateLine (f.ppaPool p) (f.getLine p)

/-- The part of `mark_page_valid` that updates the page and its block. -/
def validateBlkPage (f : ConvFtl) (p : Ppa) : Except Fault ConvFtl := do
  let pg ← f.ssd.getPg p
  require (pg.status = .free) .pageNotFree
  let blk := f.ssd.getBlk p
  require ((blk.vpc : Int) < f.ssd.sp.curPgsPerBlk (f.ppaPool p)) .blkVpcFull
  return { f with ssd := f.ssd.setBlk p (blk.validate p.pg) }

/-- The part of `mark_page_valid` that updates the line. -/
def validateLine (f : ConvFtl) (m : LineMode) (l : Nat) : Except Fault ConvFtl := do
  let line := f.lines l
  require ((line.vpc : Int) < f.ssd.sp.curPgsPerLine m) .lineVpcFull
  return f.setLine l { line with vpc := line.vpc + 1 }

/-- `mark_page_valid`. -/
def markPageValid (f : ConvFtl) (p : Ppa) : Except Fault ConvFtl := do
  let f ← f.validateBlkPage p
  f.validateLine (f.ppaPool p) (f.getLine p)

/-- The steps that `conv_write` and `gc_write_page` share: a new page takes the logical
page, in both maps and in the counters. -/
def placePage (f : ConvFtl) (io : IoType) (lpn : Nat) : Except Fault (Ppa × ConvFtl) := do
  let p ← f.getNewPage io
  let f ← f.setMaptblEnt lpn p
  let f ← f.setRmapEnt lpn p
  let f ← f.markPageValid p
  return (p, f)

/-- `mark_block_free`. -/
def markBlockFree (f : ConvFtl) (p : Ppa) : Except Fault ConvFtl := do
  let curPgsPerBlk := f.ssd.sp.curPgsPerBlk (f.ppaPool p)
  let blk := f.ssd.getBlk p
  require (curPgsPerBlk ≤ blk.npgs) .pageBounds
  require (∀ i < curPgsPerBlk.toNat, (blk.pg i).nsecs = f.ssd.sp.secsPerPg) .pageNsecs
  require (blk.npgs = curPgsPerBlk) .blkNpgs
  return { f with ssd := f.ssd.setBlk p (blk.free curPgsPerBlk.toNat) }

/-- `mark_line_free`. -/
def markLineFree (f : ConvFtl) (p : Ppa) : ConvFtl :=
  let m := f.ppaPool p
  let l := f.getLine p
  let f := f.setLine l { f.lines l with ipc := 0, vpc := 0 }
  let lm := f.mgmt m
  f.setMgmt m { lm with
    freeLineList := lm.freeLineList ++ [l]
    freeLineCnt := lm.freeLineCnt + 1 }

end ConvFtl

/-! ## Creating an instance -/

/-- `conv_init_ftl`, over the memory `mem` that `kmalloc` returned. -/
def convInitFtl (mem : ConvFtl) (enableSlcCache : Bool) (cpp : Convparams) (ssd : Ssd) :
    Except Fault ConvFtl := do
  let f := { mem with
    cp := cpp
    ssd := ssd
    slcMode := if enableSlcCache then .slc else .tlc
    maptbl := fun _ => none
    rmap := fun _ => invalidLpn }
  let f ← f.initLines
  let f ← f.prepareWritePointer .user
  let f ← f.prepareWritePointer .gc
  return f.initWriteFlowControl

/-! ## What lines leave alone -/

/-- A part of the instance that neither lines nor write pointers are in. -/
structure ConvFtl.Fixed {α : Type} (π : ConvFtl → α) : Prop where
  setWp : ∀ f io wp, π (f.setWp io wp) = π f
  setMgmt : ∀ f m lm, π (f.setMgmt m lm) = π f
  lines : ∀ f lines, π { f with lines } = π f
  mode : ∀ f dynSlcMode, π { f with dynSlcMode } = π f

namespace ConvFtl.Fixed

variable {α : Type} {π : ConvFtl → α} {f f' : ConvFtl} {io : IoType} {m : LineMode} {l : Nat}

theorem closeLine (h : Fixed π) (hr : f.closeLine m l = .ok f') : π f' = π f := by
  unfold ConvFtl.closeLine at hr
  dsimp only at hr
  split at hr
  · obtain ⟨_, -, hr⟩ := bind_eq_ok.mp hr
    cases hr
    exact h.setMgmt ..
  · simp only [bind_eq_ok] at hr
    obtain ⟨_, -, _, -, _, -, hr⟩ := hr
    cases hr
    rw [h.setMgmt, h.lines]

theorem getNextFreeLine (h : Fixed π) (hr : f.getNextFreeLine = some (l, f')) : π f' = π f := by
  unfold ConvFtl.getNextFreeLine at hr
  dsimp only at hr
  split at hr
  · cases hr
  · cases hr
    exact h.setMgmt ..

theorem prepareWritePointer (h : Fixed π) (hr : f.prepareWritePointer io = .ok f') :
    π f' = π f := by
  unfold ConvFtl.prepareWritePointer at hr
  dsimp only at hr
  split at hr
  · cases hr
  · next hnext =>
    cases hr
    rw [h.setWp, h.getNextFreeLine hnext, h.mode]

theorem openLine {wp : WritePointer} (h : Fixed π) (hr : f.openLine io wp = .ok f') :
    π f' = π f := by
  obtain ⟨_, -, hr⟩ := bind_eq_ok.mp hr
  dsimp only at hr
  split at hr
  · cases hr
  · next hnext =>
    simp only [bind_eq_ok] at hr
    obtain ⟨_, -, _, -, hr⟩ := hr
    cases hr
    rw [h.setWp, h.getNextFreeLine hnext, h.mode]

theorem advanceWritePointer (h : Fixed π) (hr : f.advanceWritePointer io = .ok f') :
    π f' = π f := by
  obtain ⟨⟨wp, usedUp⟩, -, hr⟩ := bind_eq_ok.mp hr
  dsimp only at hr
  split at hr
  · obtain ⟨f₁, hclose, hopen⟩ := bind_eq_ok.mp hr
    rw [h.openLine hopen, h.closeLine hclose, h.setWp]
  · cases hr
    exact h.setWp ..

theorem decLineVpc (h : Fixed π) (f : ConvFtl) (m : LineMode) (l : Nat) :
    π (f.decLineVpc m l) = π f := by
  unfold ConvFtl.decLineVpc
  dsimp only
  split
  · rw [h.setMgmt, h.lines]
  · exact h.lines ..

theorem fullToVictim (h : Fixed π) (hr : f.fullToVictim m l = .ok f') : π f' = π f := by
  obtain ⟨_, -, hr⟩ := bind_eq_ok.mp hr
  cases hr
  rw [h.setMgmt, h.lines]

end ConvFtl.Fixed

end NvmeVirt
