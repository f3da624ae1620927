import NvmeVirt.Ssd.Nand

/-!
# The timing model

`channel_model.c` meters a channel by credits in a ring of time slots; `ssd.c`
charges every NAND command to a die and its channel. The state touched here is
kept in one record, disjoint from the page array and the mapping, because no
decision of the translation layer other than completion times depends on it.
Every reading of a clock takes the next value of an arbitrary stream.
-/

namespace NvmeVirt

open Checked

/-! ## Clocks -/

/-- The readings that `cpu_clock`, `local_clock` and `ktime_get_ns` return, in order. -/
structure Clock where
  reading : Nat → Nat
  reads : Nat
  deriving Inhabited

/-- Take the next reading. -/
def Clock.read (c : Clock) : Nat × Clock :=
  (u64 (c.reading c.reads), { c with reads := c.reads + 1 })

/-! ## `channel_model.c` -/

def nrCreditEntries : Nat := 1024 * 96
def unitTimeInterval : Nat := 4000
def unitXferSize : Nat := 128
def unitXferCredits : Nat := 1

/-- `struct channel_model`. The two bounds are those the module asserts and never leaves. -/
structure ChannelModel where
  curTime : Nat
  head : Nat
  validLen : Nat
  maxCredits : Nat
  commandCredits : Nat
  xferLat : Nat
  availCredits : Nat → Nat
  head_lt : head < nrCreditEntries
  validLen_le : validLen ≤ nrCreditEntries

/-- `MEMSET` of `length` credit entries from `start`; an entry is one byte. -/
def memsetCredits (a : Nat → Nat) (start value length : Nat) : Nat → Nat :=
  fun i => if start ≤ i ∧ i < start + length then value % 2 ^ 8 else a i

/-- `chmodel_init`. -/
def chmodelInit (bandwidth : Nat) : ChannelModel where
  curTime := 0
  head := 0
  validLen := 0
  maxCredits := u32 (mb bandwidth * unitTimeInterval / 1000000000 / unitXferSize * unitXferCredits)
  commandCredits := 0
  xferLat := u32 (unitXferSize * 1000000000 / mb bandwidth)
  availCredits := fun _ =>
    u32 (mb bandwidth * unitTimeInterval / 1000000000 / unitXferSize * unitXferCredits) % 2 ^ 8
  head_lt := by decide
  validLen_le := by decide

/-- The slot search of `chmodel_request`: take what each slot has left, from the
requested slot on, until the credits are paid or the ring is full. The result is
the new ring, the last slot used and the number of slots skipped. -/
def consumeCredits (head : Nat) : Nat → (Nat → Nat) → Nat → Nat → Nat → (Nat → Nat) × Nat × Nat
  | 0, avail, pos, _, delay => (avail, pos, delay)
  | fuel + 1, avail, pos, remaining, delay =>
    let consumed := min remaining (avail pos)
    let avail := Function.update avail pos (avail pos - consumed)
    let remaining := remaining - consumed
    let nextPos := (pos + 1) % nrCreditEntries
    if remaining ≠ 0 ∧ nextPos ≠ head then
      consumeCredits head fuel avail nextPos remaining (delay + 1)
    else (avail, pos, delay)

/-- The last slot of the search is a slot of the ring. -/
theorem consumeCredits_pos_lt {head fuel pos : Nat} {avail : Nat → Nat} {remaining delay : Nat}
    (h : pos < nrCreditEntries) :
    (consumeCredits head fuel avail pos remaining delay).2.1 < nrCreditEntries := by
  induction fuel generalizing avail pos remaining delay with
  | zero => exact h
  | succ fuel ih =>
    simp only [consumeCredits]
    split
    · exact ih (Nat.mod_lt _ (by decide))
    · exact h

/-- Slots from the head up to `pos`, counted around the ring. -/
def slotsUpTo (head pos : Nat) : Nat :=
  if pos ≥ head then pos - head + 1 else nrCreditEntries - (head - pos - 1)

theorem slotsUpTo_le {head pos : Nat} (hp : pos < nrCreditEntries) :
    slotsUpTo head pos ≤ nrCreditEntries := by
  unfold slotsUpTo
  split <;> omega

instance : Inhabited ChannelModel := ⟨chmodelInit 0⟩

/-- The first part of `chmodel_request`: expire the slots that have passed. -/
def ChannelModel.expire (ch : ChannelModel) (curTime : Nat) : ChannelModel :=
  let offs := u32 (u64Sub (curTime / unitTimeInterval) (ch.curTime / unitTimeInterval))
  let offs := if offs < ch.validLen then offs else ch.validLen
  let avail :=
    if ch.head + offs ≥ nrCreditEntries then
      memsetCredits
        (memsetCredits ch.availCredits ch.head ch.maxCredits (nrCreditEntries - ch.head))
        0 ch.maxCredits (offs - (nrCreditEntries - ch.head))
    else memsetCredits ch.availCredits ch.head ch.maxCredits offs
  { ch with
    availCredits := avail
    head := (ch.head + offs) % nrCreditEntries
    curTime := curTime
    validLen := ch.validLen - offs
    head_lt := Nat.mod_lt _ (by decide)
    validLen_le := Nat.le_trans (Nat.sub_le _ _) ch.validLen_le }

/-- `chmodel_request` with the wall clock at `curTime`. -/
def chmodelRequest (ch : ChannelModel) (curTime requestTime length : Nat) : Nat × ChannelModel :=
  let units := u32 (u64 (length + (unitXferSize - 1)) / unitXferSize)
  let ch := ch.expire curTime
  if requestTime < curTime then (requestTime, ch)
  else
    let offs := u32 (u64Sub (requestTime / unitTimeInterval) (curTime / unitTimeInterval))
    if offs ≥ nrCreditEntries then (requestTime, ch)
    else
      let pos := (ch.head + offs) % nrCreditEntries
      let credits := u32 (u32 (units * unitXferCredits) + ch.commandCredits)
      let defaultDelay := credits / ch.maxCredits
      let r := consumeCredits ch.head nrCreditEntries ch.availCredits pos credits 0
      let delay := if r.2.2 > defaultDelay then r.2.2 - defaultDelay else 0
      let latency := u64 (u32 (ch.xferLat * units) + delay * unitTimeInterval)
      (u64 (requestTime + latency),
        { ch with
          availCredits := r.1
          validLen := max ch.validLen (slotsUpTo ch.head r.2.1)
          validLen_le := Nat.max_le.mpr ⟨ch.validLen_le,
            slotsUpTo_le (consumeCredits_pos_lt (Nat.mod_lt _ (by decide)))⟩ })

/-! ## `ssd.c` -/

/-- `NAND_READ`, `NAND_WRITE`, `NAND_ERASE` or `NAND_NOP`. -/
inductive NandOp
  | read
  | write
  | erase
  | nop
  deriving DecidableEq, Repr, Inhabited

/-- `struct nand_cmd`; no address stands for `UNMAPPED_PPA`. -/
structure NandCmd where
  type : IoType
  cmd : NandOp
  xferSize : Nat
  stime : Nat
  interleavePciDma : Bool
  ppa : Option Ppa
  deriving DecidableEq, Inhabited

/-- The timing state of one device: die availability, channels, the PCIe link and
the clock. `issued` records the NAND commands in order and is read by no code. -/
structure Perf where
  nextLunAvailTime : Nat → Nat → Nat
  chModel : Nat → ChannelModel
  pcie : ChannelModel
  clock : Clock
  issued : List NandCmd
  deriving Inhabited

/-- `struct buffer` without its lock. -/
structure Buffer where
  size : Nat
  remaining : Nat
  deriving DecidableEq, Repr, Inhabited

/-- `buffer_init`. -/
def bufferInit (size : Nat) : Buffer := { size := size, remaining := size }

/-- `buffer_allocate`: all or nothing. -/
def bufferAllocate (buf : Buffer) (size : Nat) : Except Fault (Nat × Buffer) := do
  require (size ≤ buf.size) .bufferSize
  let size := if buf.remaining < size then 0 else size
  return (u32 size, { buf with remaining := buf.remaining - size })

/-- What `buffer_allocate` takes: everything that was asked for, or nothing. -/
theorem bufferAllocate_outcome (buf : Buffer) (size : Nat) :
    Outcome (bufferAllocate buf size)
      (fun r => size ≤ buf.size ∧ ∃ taken, r = (u32 taken, { buf with remaining := buf.remaining - taken }) ∧
        ((taken = 0 ∧ buf.remaining < size) ∨ (taken = size ∧ size ≤ buf.remaining)))
      (fun e => e = .bufferSize ∧ buf.size < size) := by
  refine Outcome.bind (Q := fun _ => size ≤ buf.size) (outcome_require (fun h => h) fun h => ?_) ?_
  · exact ⟨rfl, Nat.lt_of_not_le h⟩
  · rintro ⟨⟩ hsize
    refine ⟨hsize, _, rfl, ?_⟩
    split
    · exact Or.inl ⟨rfl, ‹_›⟩
    · exact Or.inr ⟨rfl, Nat.le_of_not_lt ‹_›⟩

/-- `buffer_release`. -/
def bufferRelease (buf : Buffer) (size : Nat) : Buffer :=
  { buf with remaining := buf.remaining + size }

/-- Read the clock. -/
def Perf.readClock (π : Perf) : Nat × Perf :=
  let (t, clock) := π.clock.read
  (t, { π with clock })

/-- A request to the channel model of channel `ch`. -/
def Perf.requestChannel (π : Perf) (ch time length : Nat) : Nat × Perf :=
  let (now, π) := π.readClock
  let (t, m) := chmodelRequest (π.chModel ch) now time length
  (t, { π with chModel := Function.update π.chModel ch m })

/-- `ssd_advance_pcie`. -/
def ssdAdvancePcie (π : Perf) (time length : Nat) : Nat × Perf :=
  let (now, π) := π.readClock
  let (t, m) := chmodelRequest π.pcie now time length
  (t, { π with pcie := m })

/-- `ssd_advance_write_buffer`. -/
def ssdAdvanceWriteBuffer (spp : Ssdparams) (π : Perf) (time length : Nat) : Nat × Perf :=
  let t := u64 (time + spp.fwWbufLat0)
  let t := u64 (t + spp.fwWbufLat1 * (u64 (length + (kb 4 - 1)) / kb 4))
  ssdAdvancePcie π t length

/-- The transfer loop of a read: at most `max_ch_xfer_size` bytes at a time through the
channel and, when interleaved, through PCIe. The result holds the last two end times. -/
def readTransfer (spp : Ssdparams) (ch : Nat) (interleave : Bool) :
    Nat → Perf → Nat → Nat → Nat → Nat × Nat × Perf
  | 0, π, _, chnlEtime, completed => (chnlEtime, completed, π)
  | fuel + 1, π, remaining, chnlStime, completed =>
    if remaining = 0 then (chnlStime, completed, π)
    else
      let size := min remaining spp.maxChXferSize
      let (chnlEtime, π) := π.requestChannel ch chnlStime size
      let (completed, π) :=
        if interleave then ssdAdvancePcie π chnlEtime size else (chnlEtime, π)
      readTransfer spp ch interleave fuel π (remaining - size) chnlEtime completed

/-- A C `int` latency added to an `uint64_t` time. -/
def addLat (t : Nat) (lat : Int) : Nat := ((t + lat) % 2 ^ 64).toNat

/-- `get_cell`. -/
def getCell (spp : Ssdparams) (p : Ppa) : Nat := p.pg / spp.pgsPerFlashpg % spp.cellMode

/-- The latency of one command: the SLC figure for a block of the SLC area when the
module is built with the cache, the TLC figure otherwise. -/
def selectLat (enableSlcCache : Bool) (spp : Ssdparams) (p : Ppa) (slc : Int) (tlc : Nat) : Int :=
  if enableSlcCache = true ∧ (p.blk : Int) < spp.ttLinesSlc then slc else tlc

/-- Record the time from which a die is available again. -/
def Perf.setLunAvail (π : Perf) (p : Ppa) (t : Nat) : Perf :=
  { π with nextLunAvailTime := fun ch lun =>
      if ch = p.ch ∧ lun = p.lun then t else π.nextLunAvailTime ch lun }

/-- `ssd_advance_nand`. -/
def ssdAdvanceNand (enableSlcCache : Bool) (spp : Ssdparams) (π : Perf) (c : NandCmd) :
    Nat × Perf :=
  let π := { π with issued := π.issued ++ [c] }
  let (cmdStime, π) := if c.stime = 0 then π.readClock else (c.stime, π)
  match c.ppa with
  | none => (cmdStime, π)
  | some p =>
    let avail := π.nextLunAvailTime p.ch p.lun
    let start := max avail cmdStime
    match c.cmd with
    | .read =>
      let lat :=
        if c.xferSize = 4096 then
          selectLat enableSlcCache spp p spp.pg4kbRdLatSlc (spp.pg4kbRdLat (getCell spp p))
        else selectLat enableSlcCache spp p spp.pgRdLatSlc (spp.pgRdLat (getCell spp p))
      let nandEtime := addLat start lat
      let (chnlEtime, completed, π) :=
        readTransfer spp p.ch c.interleavePciDma c.xferSize π c.xferSize nandEtime nandEtime
      (completed, π.setLunAvail p chnlEtime)
    | .write =>
      let (chnlEtime, π) := π.requestChannel p.ch start c.xferSize
      let nandEtime := addLat chnlEtime
        (selectLat enableSlcCache spp p spp.pgWrLatSlc spp.pgWrLat)
      (nandEtime, π.setLunAvail p nandEtime)
    | .erase =>
      let nandEtime := addLat start
        (selectLat enableSlcCache spp p spp.blkErLatSlc spp.blkErLat)
      (nandEtime, π.setLunAvail p nandEtime)
    | .nop => (start, π.setLunAvail p start)

/-- `ssd_next_idle_time`. -/
def ssdNextIdleTime (spp : Ssdparams) (π : Perf) : Nat × Perf :=
  let (now, π) := π.readClock
  ((List.range spp.nchs).foldl (fun t ch =>
    (List.range spp.lunsPerCh).foldl (fun t lun => max t (π.nextLunAvailTime ch lun)) t) now, π)

/-! ## `struct ssd` -/

/-- One device. The write buffer is shared by all partitions of a namespace and kept there. -/
structure Ssd where
  sp : Ssdparams
  blk : BlkAddr → NandBlock
  perf : Perf
  deriving Inhabited

/-- `ssd_init`. -/
def ssdInit (spp : Ssdparams) (clock : Clock) : Ssd where
  sp := spp
  blk := fun a => ssdInitNandPlane spp a.blk
  perf :=
    let model := chmodelInit spp.chBandwidth
    { nextLunAvailTime := fun _ _ => 0
      chModel := fun _ =>
        { model with xferLat := u32 (model.xferLat + spp.fwChXferLat * unitXferSize / kb 4) }
      pcie := chmodelInit spp.pcieBandwidth
      clock := clock
      issued := [] }

/-- `get_blk`. -/
def Ssd.getBlk (ssd : Ssd) (p : Ppa) : NandBlock := ssd.blk p.addr

/-- `get_pg`. -/
def Ssd.getPg (ssd : Ssd) (p : Ppa) : Except Fault NandPage := do
  require ((p.pg : Int) < (ssd.getBlk p).npgs) .pageBounds
  return (ssd.getBlk p).pg p.pg

/-- Store through a block pointer. -/
def Ssd.setBlk (ssd : Ssd) (p : Ppa) (b : NandBlock) : Ssd :=
  { ssd with blk := Function.update ssd.blk p.addr b }

/-- `ssd_advance_nand` on the device. -/
def Ssd.advanceNand (enableSlcCache : Bool) (ssd : Ssd) (c : NandCmd) : Nat × Ssd :=
  let (t, perf) := ssdAdvanceNand enableSlcCache ssd.sp ssd.perf c
  (t, { ssd with perf })

/-! ## The record of commands

Only `ssd_advance_nand` issues a command, and it issues the one it is given. -/

@[simp] theorem Perf.readClock_issued (π : Perf) : π.readClock.2.issued = π.issued := rfl

@[simp] theorem Perf.requestChannel_issued (π : Perf) (ch time length : Nat) :
    (π.requestChannel ch time length).2.issued = π.issued := rfl

@[simp] theorem Perf.setLunAvail_issued (π : Perf) (p : Ppa) (t : Nat) :
    (π.setLunAvail p t).issued = π.issued := rfl

@[simp] theorem ssdAdvancePcie_issued (π : Perf) (time length : Nat) :
    (ssdAdvancePcie π time length).2.issued = π.issued := rfl

@[simp] theorem ssdAdvanceWriteBuffer_issued (spp : Ssdparams) (π : Perf) (time length : Nat) :
    (ssdAdvanceWriteBuffer spp π time length).2.issued = π.issued := rfl

@[simp] theorem ssdNextIdleTime_issued (spp : Ssdparams) (π : Perf) :
    (ssdNextIdleTime spp π).2.issued = π.issued := rfl

@[simp] theorem readTransfer_issued (spp : Ssdparams) (ch : Nat) (interleave : Bool) (fuel : Nat)
    (π : Perf) (remaining start completed : Nat) :
    (readTransfer spp ch interleave fuel π remaining start completed).2.2.issued = π.issued := by
  induction fuel generalizing π remaining start completed with
  | zero => rfl
  | succ fuel ih =>
    rw [readTransfer]
    split
    · rfl
    · dsimp only
      rw [ih]
      cases interleave <;> simp

@[simp] theorem ssdAdvanceNand_issued (enableSlcCache : Bool) (spp : Ssdparams) (π : Perf)
    (c : NandCmd) : (ssdAdvanceNand enableSlcCache spp π c).2.issued = π.issued ++ [c] := by
  unfold ssdAdvanceNand
  by_cases hs : c.stime = 0
  · simp only [hs, if_true]
    cases c.ppa with
    | none => simp
    | some p => cases c.cmd <;> simp
  · simp only [hs, if_false]
    cases c.ppa with
    | none => simp
    | some p => cases c.cmd <;> simp

/-- From `π` to `π'` no program command is issued. -/
def Perf.Quiet (π π' : Perf) : Prop :=
  ∃ cs, π'.issued = π.issued ++ cs ∧ ∀ c ∈ cs, c.cmd ≠ .write

theorem Perf.Quiet.of_eq {π π' : Perf} (h : π'.issued = π.issued) : π.Quiet π' :=
  ⟨[], by rw [h, List.append_nil], by simp⟩

theorem Perf.Quiet.trans {π π' π'' : Perf} (h : π.Quiet π') (h' : π'.Quiet π'') : π.Quiet π'' := by
  obtain ⟨cs, hcs, hq⟩ := h
  obtain ⟨cs', hcs', hq'⟩ := h'
  refine ⟨cs ++ cs', by rw [hcs', hcs, List.append_assoc], fun c hc => ?_⟩
  rcases List.mem_append.mp hc with hc | hc
  · exact hq c hc
  · exact hq' c hc

end NvmeVirt
