import NvmeVirt.Ssd.Latency

/-!
# The dies of a device

Every command to a die starts when the die is available and keeps it until a later time, as long as
no sum of times is truncated. Whether one is can be told from the arguments of each sum along the
way of the command.
-/

namespace NvmeVirt

variable {e : Bool} {spp : Ssdparams} {π : Perf} {p : Ppa} {c : NandCmd} {cs : List NandCmd}
  {fuel remaining start completed : Nat} {interleave : Bool}

/-! ## Sums that fit -/

/-- The sum of a channel request is not truncated. -/
def ChannelModel.Fits (ch : ChannelModel) (cur rt length : Nat) : Prop :=
  rt + ch.totalLatency cur rt length < 2 ^ 64

/-- The sum of a time and an `int` latency is not truncated. -/
def LatFits (t : Nat) (lat : Int) : Prop := t + (lat % 2 ^ 64).toNat < 2 ^ 64

/-- The request to the model of channel `ch` fits. -/
def Perf.ChannelFits (π : Perf) (ch time length : Nat) : Prop :=
  (π.chModel ch).Fits π.readClock.1 time length

/-- The request to the model of the PCIe link fits. -/
def Perf.PcieFits (π : Perf) (time length : Nat) : Prop :=
  π.pcie.Fits π.readClock.1 time length

theorem Perf.ChannelFits.le {ch time length : Nat} (h : π.ChannelFits ch time length) :
    time ≤ (π.requestChannel ch time length).1 :=
  ChannelModel.le_completion h

theorem Perf.PcieFits.le {time length : Nat} (h : π.PcieFits time length) :
    time ≤ (ssdAdvancePcie π time length).1 :=
  ChannelModel.le_completion h

theorem LatFits.le {t : Nat} {lat : Int} (h : LatFits t lat) : t ≤ addLat t lat := by
  unfold LatFits at h
  unfold addLat
  omega

/-- The chunks of a read fit, one by one. -/
def ReadFits (spp : Ssdparams) (ch : Nat) (interleave : Bool) : Nat → Perf → Nat → Nat → Prop
  | 0, _, _, _ => True
  | fuel + 1, π, remaining, chnlStime =>
    remaining ≠ 0 →
      let size := min remaining spp.maxChXferSize
      let r := π.requestChannel ch chnlStime size
      π.ChannelFits ch chnlStime size ∧
        if interleave then
          r.2.PcieFits r.1 size ∧
            ReadFits spp ch interleave fuel (ssdAdvancePcie r.2 r.1 size).2 (remaining - size) r.1
        else ReadFits spp ch interleave fuel r.2 (remaining - size) r.1

/-! ## The transfer of a read -/

@[simp] theorem Perf.requestChannel_avail (π : Perf) (ch time length : Nat) :
    (π.requestChannel ch time length).2.nextLunAvailTime = π.nextLunAvailTime := rfl

@[simp] theorem ssdAdvancePcie_avail (π : Perf) (time length : Nat) :
    (ssdAdvancePcie π time length).2.nextLunAvailTime = π.nextLunAvailTime := rfl

/-- The rounds that the loop of a read is given are enough. -/
theorem readTransfer_fuel {ch : Nat} (hmax : 0 < spp.maxChXferSize) (hfuel : remaining ≤ fuel) :
    readTransfer spp ch interleave fuel π remaining start completed =
      readTransfer spp ch interleave (fuel + 1) π remaining start completed := by
  induction fuel generalizing π remaining start completed with
  | zero =>
    have : remaining = 0 := by omega
    simp [readTransfer, this]
  | succ fuel ih =>
    rw [readTransfer, readTransfer]
    by_cases h : remaining = 0
    · rw [if_pos h, if_pos h]
    · rw [if_neg h, if_neg h]
      exact ih (by omega)

/-- The last chunk leaves the channel at or after the start of the first one, and reaches the host
no earlier; the loop touches no die. -/
theorem readTransfer_times {ch : Nat} (hfits : ReadFits spp ch interleave fuel π remaining start)
    (hle : start ≤ completed) :
    let r := readTransfer spp ch interleave fuel π remaining start completed
    start ≤ r.1 ∧ r.1 ≤ r.2.1 ∧ r.2.2.nextLunAvailTime = π.nextLunAvailTime := by
  induction fuel generalizing π remaining start completed with
  | zero => exact ⟨le_rfl, hle, rfl⟩
  | succ fuel ih =>
    rw [readTransfer]
    by_cases h : remaining = 0
    · rw [if_pos h]
      exact ⟨le_rfl, hle, rfl⟩
    · rw [if_neg h]
      obtain ⟨hchnl, hrest⟩ := hfits h
      cases interleave with
      | false =>
        obtain ⟨hstart, hend, havail⟩ := ih hrest le_rfl
        exact ⟨hchnl.le.trans hstart, hend, havail⟩
      | true =>
        obtain ⟨hpcie, hrest⟩ := hrest
        obtain ⟨hstart, hend, havail⟩ := ih hrest hpcie.le
        exact ⟨hchnl.le.trans hstart, hend, havail⟩

/-! ## One command -/

/-- The first steps of `ssd_advance_nand`: `cmd_stime`, and the device that has read the clock. -/
def Perf.issue (π : Perf) (c : NandCmd) : Nat × Perf :=
  let π := { π with issued := π.issued ++ [c] }
  if c.stime = 0 then π.readClock else (c.stime, π)

/-- When the operation on the die starts. -/
def Perf.startTime (π : Perf) (c : NandCmd) (p : Ppa) : Nat :=
  max (π.nextLunAvailTime p.ch p.lun) (π.issue c).1

/-- The latency of the array for a command. -/
def nandLat (enableSlcCache : Bool) (spp : Ssdparams) (c : NandCmd) (p : Ppa) : Int :=
  match c.cmd with
  | .read =>
    if c.xferSize = 4096 then
      selectLat enableSlcCache spp p spp.pg4kbRdLatSlc (spp.pg4kbRdLat (getCell spp p))
    else selectLat enableSlcCache spp p spp.pgRdLatSlc (spp.pgRdLat (getCell spp p))
  | .write => selectLat enableSlcCache spp p spp.pgWrLatSlc spp.pgWrLat
  | .erase => selectLat enableSlcCache spp p spp.blkErLatSlc spp.blkErLat
  | .nop => 0

/-- No sum of a command to page `p` is truncated. -/
def CommandFits (enableSlcCache : Bool) (spp : Ssdparams) (π : Perf) (c : NandCmd) (p : Ppa) :
    Prop :=
  let start := π.startTime c p
  let lat := nandLat enableSlcCache spp c p
  match c.cmd with
  | .read =>
    LatFits start lat ∧
      ReadFits spp p.ch c.interleavePciDma c.xferSize (π.issue c).2 c.xferSize (addLat start lat)
  | .write =>
    (π.issue c).2.ChannelFits p.ch start c.xferSize ∧
      LatFits ((π.issue c).2.requestChannel p.ch start c.xferSize).1 lat
  | .erase => LatFits start lat
  | .nop => True

@[simp] theorem Perf.issue_avail (π : Perf) (c : NandCmd) :
    (π.issue c).2.nextLunAvailTime = π.nextLunAvailTime := by
  unfold Perf.issue
  dsimp only
  split <;> rfl

/-- What a command to page `p` leaves: the die is available no earlier than before and than the
command started, no other die is touched, and a read completes when its data has left the die. -/
structure DieAdvanced (π : Perf) (c : NandCmd) (p : Ppa) (r : Nat × Perf) : Prop where
  avail_le : π.nextLunAvailTime p.ch p.lun ≤ r.2.nextLunAvailTime p.ch p.lun
  stime_le : (π.issue c).1 ≤ r.2.nextLunAvailTime p.ch p.lun
  frame : ∀ ch lun, ¬ (ch = p.ch ∧ lun = p.lun) →
    r.2.nextLunAvailTime ch lun = π.nextLunAvailTime ch lun
  read : c.cmd = .read → r.2.nextLunAvailTime p.ch p.lun ≤ r.1
  others : c.cmd ≠ .read → r.1 = r.2.nextLunAvailTime p.ch p.lun

theorem Perf.setLunAvail_self (π : Perf) (p : Ppa) (t : Nat) :
    (π.setLunAvail p t).nextLunAvailTime p.ch p.lun = t := if_pos ⟨rfl, rfl⟩

theorem Perf.setLunAvail_of_ne (π : Perf) {t ch lun : Nat} (h : ¬ (ch = p.ch ∧ lun = p.lun)) :
    (π.setLunAvail p t).nextLunAvailTime ch lun = π.nextLunAvailTime ch lun := if_neg h

/-- Setting the die to a time after the start. -/
theorem DieAdvanced.of_le {π' : Perf} {t completed : Nat} (hle : π.startTime c p ≤ t)
    (havail : π'.nextLunAvailTime = π.nextLunAvailTime) (hread : c.cmd = .read → t ≤ completed)
    (hothers : c.cmd ≠ .read → completed = t) :
    DieAdvanced π c p (completed, π'.setLunAvail p t) := by
  constructor
  · rw [Perf.setLunAvail_self]
    exact (Nat.le_max_left ..).trans hle
  · rw [Perf.setLunAvail_self]
    exact (Nat.le_max_right ..).trans hle
  · intro ch lun hne
    rw [Perf.setLunAvail_of_ne π' hne, havail]
  · rw [Perf.setLunAvail_self]
    exact hread
  · rw [Perf.setLunAvail_self]
    exact hothers

/-- `ssd_advance_nand` from the start of the operation on. -/
theorem ssdAdvanceNand_eq (hp : c.ppa = some p) : ssdAdvanceNand e spp π c =
    let start := π.startTime c p
    let etime := addLat start (nandLat e spp c p)
    match c.cmd with
    | .read =>
      let r := readTransfer spp p.ch c.interleavePciDma c.xferSize (π.issue c).2 c.xferSize etime etime
      (r.2.1, r.2.2.setLunAvail p r.1)
    | .write =>
      let r := (π.issue c).2.requestChannel p.ch start c.xferSize
      let etime := addLat r.1 (nandLat e spp c p)
      (etime, r.2.setLunAvail p etime)
    | .erase => (etime, (π.issue c).2.setLunAvail p etime)
    | .nop => (start, (π.issue c).2.setLunAvail p start) := by
  unfold ssdAdvanceNand Perf.startTime Perf.issue nandLat
  by_cases hs : c.stime = 0
  · simp only [hs, if_true, hp]
    cases c.cmd <;> rfl
  · simp only [hs, if_false, hp]
    cases c.cmd <;> rfl

theorem ssdAdvanceNand_advanced (hp : c.ppa = some p) (hfits : CommandFits e spp π c p) :
    DieAdvanced π c p (ssdAdvanceNand e spp π c) := by
  rw [ssdAdvanceNand_eq hp]
  unfold CommandFits at hfits
  cases hcmd : c.cmd with
  | read =>
    simp only [hcmd] at hfits
    obtain ⟨hstart, hend, havail⟩ := readTransfer_times hfits.2 le_rfl
    apply DieAdvanced.of_le (hfits.1.le.trans hstart)
    · rw [havail, Perf.issue_avail]
    · exact fun _ => hend
    · exact fun hne => absurd hcmd hne
  | write =>
    simp only [hcmd] at hfits
    apply DieAdvanced.of_le (hfits.1.le.trans hfits.2.le)
    · simp
    · exact fun _ => le_rfl
    · exact fun _ => rfl
  | erase =>
    simp only [hcmd] at hfits
    exact .of_le hfits.le (by simp) (fun _ => le_rfl) (fun _ => rfl)
  | nop => exact .of_le le_rfl (by simp) (fun _ => le_rfl) (fun _ => rfl)

/-! ## Runs -/

/-- A command to a mapped page; a read has a size. -/
structure NandCmd.Valid (c : NandCmd) : Prop where
  mapped : c.ppa ≠ none
  size : c.cmd = .read → c.xferSize ≠ 0

/-- The device after a run of commands. -/
def nandRun (enableSlcCache : Bool) (spp : Ssdparams) (π : Perf) (cs : List NandCmd) : Perf :=
  cs.foldl (fun π c => (ssdAdvanceNand enableSlcCache spp π c).2) π

/-- No sum of a run of commands is truncated. -/
def RunFits (enableSlcCache : Bool) (spp : Ssdparams) : Perf → List NandCmd → Prop
  | _, [] => True
  | π, c :: cs =>
    (∀ p, c.ppa = some p → CommandFits enableSlcCache spp π c p) ∧
      RunFits enableSlcCache spp (ssdAdvanceNand enableSlcCache spp π c).2 cs

/-- A stretch of time in which a die works. -/
structure Busy where
  ch : Nat
  lun : Nat
  start : Nat
  finish : Nat

/-- When the dies work in a run of commands. -/
def busyTimes (enableSlcCache : Bool) (spp : Ssdparams) : Perf → List NandCmd → List Busy
  | _, [] => []
  | π, c :: cs =>
    let π' := (ssdAdvanceNand enableSlcCache spp π c).2
    match c.ppa with
    | none => busyTimes enableSlcCache spp π' cs
    | some p =>
      ⟨p.ch, p.lun, π.startTime c p, π'.nextLunAvailTime p.ch p.lun⟩ ::
        busyTimes enableSlcCache spp π' cs

/-- One command makes no die available earlier. -/
theorem DieAdvanced.avail_mono {r : Nat × Perf} (h : DieAdvanced π c p r) (ch lun : Nat) :
    π.nextLunAvailTime ch lun ≤ r.2.nextLunAvailTime ch lun := by
  by_cases hdie : ch = p.ch ∧ lun = p.lun
  · rw [hdie.1, hdie.2]
    exact h.avail_le
  · rw [h.frame ch lun hdie]

/-- From now on no die works before it is available now. -/
theorem le_start_of_mem_busyTimes (hcs : ∀ c ∈ cs, c.Valid) (hfits : RunFits e spp π cs) {b : Busy}
    (hb : b ∈ busyTimes e spp π cs) : π.nextLunAvailTime b.ch b.lun ≤ b.start := by
  induction cs generalizing π with
  | nil => simp [busyTimes] at hb
  | cons c cs ih =>
    obtain ⟨hc, hcs⟩ := List.forall_mem_cons.mp hcs
    obtain ⟨p, hp⟩ := Option.ne_none_iff_exists'.mp hc.mapped
    simp only [busyTimes, hp, List.mem_cons] at hb
    rcases hb with rfl | hb
    · exact Nat.le_max_left ..
    · have hadv := ssdAdvanceNand_advanced hp (hfits.1 p hp)
      exact (hadv.avail_mono ..).trans (ih hcs hfits.2 hb)

/-- The stretches of one die follow one another. -/
theorem busyTimes_pairwise (hcs : ∀ c ∈ cs, c.Valid) (hfits : RunFits e spp π cs) :
    (busyTimes e spp π cs).Pairwise fun a b => a.ch = b.ch → a.lun = b.lun → a.finish ≤ b.start := by
  induction cs generalizing π with
  | nil => simp [busyTimes]
  | cons c cs ih =>
    obtain ⟨hc, hcs⟩ := List.forall_mem_cons.mp hcs
    obtain ⟨p, hp⟩ := Option.ne_none_iff_exists'.mp hc.mapped
    simp only [busyTimes, hp]
    apply List.pairwise_cons.mpr
    refine ⟨?_, ih hcs hfits.2⟩
    intro b hb hch hlun
    have hstart := le_start_of_mem_busyTimes hcs hfits.2 hb
    rwa [← hch, ← hlun] at hstart

/-- Every command of a run does what one command does. -/
theorem advanced_of_run {pre post : List NandCmd} (hcs : ∀ d ∈ pre ++ c :: post, d.Valid)
    (hfits : RunFits e spp π (pre ++ c :: post)) :
    ∃ p, c.ppa = some p ∧
      DieAdvanced (nandRun e spp π pre) c p (ssdAdvanceNand e spp (nandRun e spp π pre) c) := by
  induction pre generalizing π with
  | nil =>
    obtain ⟨p, hp⟩ := Option.ne_none_iff_exists'.mp (hcs c (List.mem_cons_self ..)).mapped
    exact ⟨p, hp, ssdAdvanceNand_advanced hp (hfits.1 p hp)⟩
  | cons d pre ih => exact ih (fun q hq => hcs q (List.mem_cons_of_mem d hq)) hfits.2

/-! ## The idle time -/

/-- A maximum over a list is at least what it starts with and every term. -/
theorem le_foldl_max (f : Nat → Nat → Nat) (g : Nat → Nat) (l : List Nat)
    (hacc : ∀ t x, t ≤ f t x) (hterm : ∀ t, ∀ x ∈ l, g x ≤ f t x) (t : Nat) :
    t ≤ l.foldl f t ∧ ∀ x ∈ l, g x ≤ l.foldl f t := by
  induction l generalizing t with
  | nil => simp
  | cons y l ih =>
    obtain ⟨hle, hall⟩ := ih (fun t x hx => hterm t x (List.mem_cons_of_mem y hx)) (f t y)
    constructor
    · exact (hacc t y).trans hle
    · intro x hx
      rcases List.mem_cons.mp hx with rfl | hx
      · exact (hterm t x (List.mem_cons_self ..)).trans hle
      · exact hall x hx

/-- `ssd_next_idle_time` is not before any die is available. -/
theorem le_ssdNextIdleTime (spp : Ssdparams) (π : Perf) {ch lun : Nat} (hch : ch < spp.nchs)
    (hlun : lun < spp.lunsPerCh) : π.nextLunAvailTime ch lun ≤ (ssdNextIdleTime spp π).1 := by
  have hluns := fun ch t => le_foldl_max (fun t lun => max t (π.nextLunAvailTime ch lun))
    (π.nextLunAvailTime ch) (List.range spp.lunsPerCh) (fun _ _ => Nat.le_max_left ..)
    (fun _ _ _ => Nat.le_max_right ..) t
  have hchs := le_foldl_max
    (fun t ch => (List.range spp.lunsPerCh).foldl (fun t lun => max t (π.nextLunAvailTime ch lun)) t)
    (fun ch => π.nextLunAvailTime ch lun) (List.range spp.nchs) (fun t ch => (hluns ch t).1)
    (fun t ch _ => (hluns ch t).2 lun (List.mem_range.mpr hlun)) π.readClock.1
  exact hchs.2 ch (List.mem_range.mpr hch)

/-- In every run of NAND commands in which no sum of times is truncated, each command starts when its
die is available and makes it available no earlier, touches no other die and completes with the die,
or for a read no earlier than the die is free; operations on one die never overlap, and the idle
time is not before any die is available. -/
theorem die_time_monotone (enableSlcCache : Bool) (spp : Ssdparams) (π : Perf) (cs : List NandCmd)
    (hcs : ∀ c ∈ cs, c.Valid) (hfits : RunFits enableSlcCache spp π cs) :
    (∀ pre c post, cs = pre ++ c :: post →
      let π' := nandRun enableSlcCache spp π pre
      ∃ p, c.ppa = some p ∧ DieAdvanced π' c p (ssdAdvanceNand enableSlcCache spp π' c)) ∧
    ((busyTimes enableSlcCache spp π cs).Pairwise fun a b =>
      a.ch = b.ch → a.lun = b.lun → a.finish ≤ b.start) ∧
    ∀ ch lun, ch < spp.nchs → lun < spp.lunsPerCh →
      (nandRun enableSlcCache spp π cs).nextLunAvailTime ch lun ≤
        (ssdNextIdleTime spp (nandRun enableSlcCache spp π cs)).1 := by
  refine ⟨?_, busyTimes_pairwise hcs hfits, ?_⟩
  · rintro pre c post rfl
    exact advanced_of_run hcs hfits
  · intro ch lun hch hlun
    exact le_ssdNextIdleTime spp _ hch hlun

/-- A device with the latencies of the shipped one. -/
def shippedPerf : Ssdparams × Perf :=
  let spp : Ssdparams := { (default : Ssdparams) with
    nchs := 4, lunsPerCh := 4, cellMode := 3, pgsPerFlashpg := 4, maxChXferSize := kb 16
    pgRdLat := samsung970pro.nandReadLatency, pgWrLat := samsung970pro.nandProgLatency
    chBandwidth := 800, pcieBandwidth := 3360 }
  (spp, (ssdInit spp ⟨fun n => 1000 * n, 0⟩).perf)

/-- A page of the TLC area is written and read back. -/
theorem die_time_monotone_shipped :
    let page : Ppa := ⟨0, 200, 0, 1, 2⟩
    let cs := [⟨.user, .write, kb 48, 5000, false, some page⟩,
      ⟨.user, .read, kb 16, 0, true, some page⟩]
    let π := shippedPerf.2
    (∀ pre c post, cs = pre ++ c :: post →
      let π' := nandRun true shippedPerf.1 π pre
      ∃ p, c.ppa = some p ∧ DieAdvanced π' c p (ssdAdvanceNand true shippedPerf.1 π' c)) ∧
    ((busyTimes true shippedPerf.1 π cs).Pairwise fun a b =>
      a.ch = b.ch → a.lun = b.lun → a.finish ≤ b.start) ∧
    ∀ ch lun, ch < shippedPerf.1.nchs → lun < shippedPerf.1.lunsPerCh →
      (nandRun true shippedPerf.1 π cs).nextLunAvailTime ch lun ≤
        (ssdNextIdleTime shippedPerf.1 (nandRun true shippedPerf.1 π cs)).1 := by
  intro page cs π
  apply die_time_monotone
  · intro c hc
    rcases List.mem_pair.mp hc with rfl | rfl
    · exact ⟨by simp, by simp⟩
    · exact ⟨by simp, by decide⟩
  · refine ⟨?_, ?_, trivial⟩
    · rintro p ⟨⟩
      refine ⟨?_, ?_⟩
      · unfold Perf.ChannelFits ChannelModel.Fits
        decide +kernel
      · unfold LatFits
        decide +kernel
    · rintro p ⟨⟩
      refine ⟨?_, fun _ => ⟨?_, ?_, fun h => absurd ?_ h⟩⟩
      · unfold LatFits
        decide +kernel
      · unfold Perf.ChannelFits ChannelModel.Fits
        decide +kernel
      · unfold Perf.PcieFits ChannelModel.Fits
        decide +kernel
      · decide

end NvmeVirt
