import NvmeVirt.Zns.Bounds
import NvmeVirt.Zns.Ledger
import NvmeVirt.Zns.Transfer

/-!
# Zone reports

`zns_zmgmt_recv` writes the number of zones and their descriptors into the report buffer and copies the
first bytes of it to the host. The host reads back what the zones are, and lists all zones by report
after report; behind the descriptors it gets what earlier reports have left.
-/

namespace NvmeVirt

open Checked

open ZnsFtl (zoneDescriptorSize reportLength)

/-! ## The format -/

/-- `enum zone_state`. -/
def ZoneState.code : ZoneState → Nat
  | .empty => 0x1
  | .openedImpl => 0x2
  | .openedExpl => 0x3
  | .closed => 0x4
  | .readOnly => 0xd
  | .full => 0xe
  | .offline => 0xf

/-- The state with a number. -/
def ZoneState.ofCode : Nat → Option ZoneState
  | 0x1 => some .empty
  | 0x2 => some .openedImpl
  | 0x3 => some .openedExpl
  | 0x4 => some .closed
  | 0xd => some .readOnly
  | 0xe => some .full
  | 0xf => some .offline
  | _ => none

namespace ZoneDescriptor

/-- Byte `i` of a `struct zone_descriptor`. What no code sets is zero, and the type is
`ZONE_TYPE_SEQ_WRITE_REQUIRED`. -/
def byte (d : ZoneDescriptor) (i : Nat) : UInt8 :=
  if i = 0 then 0x02
  else if i = 1 then UInt8.ofNat (16 * d.state.code)
  else if i = 2 then if d.zrwav then 0x08 else 0x00
  else if 8 ≤ i ∧ i < 16 then Bytes.leByte d.zoneCapacity (i - 8)
  else if 16 ≤ i ∧ i < 24 then Bytes.leByte d.zslba (i - 16)
  else if 24 ≤ i ∧ i < 32 then Bytes.leByte d.wp (i - 24)
  else 0x00

/-- The descriptor that a host reads at `a`. -/
def ofBytes (host : Nat → UInt8) (a : Nat) : Option ZoneDescriptor :=
  if (host a).toNat % 16 = 0x2 then
    (ZoneState.ofCode ((host (a + 1)).toNat / 16)).map fun state =>
      { state
        zrwav := (host (a + 2)).toNat / 8 % 2 = 1
        zoneCapacity := Bytes.readLe host (a + 8) 8
        zslba := Bytes.readLe host (a + 16) 8
        wp := Bytes.readLe host (a + 24) 8 }
  else none

/-- The fields have 64 bits. -/
structure Fits (d : ZoneDescriptor) : Prop where
  zoneCapacity : d.zoneCapacity < 2 ^ 64
  zslba : d.zslba < 2 ^ 64
  wp : d.wp < 2 ^ 64

variable {d : ZoneDescriptor} {host : Nat → UInt8} {a : Nat}

/-- The bytes of a descriptor read back. -/
theorem ofBytes_of_byte (hfits : d.Fits) (h : ∀ i < zoneDescriptorSize, host (a + i) = d.byte i) :
    ofBytes host a = some d := by
  have hnumber : ∀ o v, o + 8 ≤ zoneDescriptorSize → v < 2 ^ 64 →
      (∀ i < 8, d.byte (o + i) = Bytes.leByte v i) → Bytes.readLe host (a + o) 8 = v := by
    intro o v ho hv hbyte
    rw [Bytes.readLe_of_leByte fun i hi => ?_]
    · exact Nat.mod_eq_of_lt hv
    · rw [Nat.add_assoc, h (o + i) (by omega), hbyte i hi]
  have hcapacity := hnumber 8 d.zoneCapacity (by decide) hfits.zoneCapacity fun i hi => by
    have hin : 8 ≤ 8 + i ∧ 8 + i < 16 := by omega
    rw [byte, if_neg (by omega), if_neg (by omega), if_neg (by omega), if_pos hin,
      Nat.add_sub_cancel_left]
  have hzslba := hnumber 16 d.zslba (by decide) hfits.zslba fun i hi => by
    have hin : 16 ≤ 16 + i ∧ 16 + i < 24 := by omega
    rw [byte, if_neg (by omega), if_neg (by omega), if_neg (by omega), if_neg (by omega),
      if_pos hin, Nat.add_sub_cancel_left]
  have hwp := hnumber 24 d.wp (by decide) hfits.wp fun i hi => by
    have hin : 24 ≤ 24 + i ∧ 24 + i < 32 := by omega
    rw [byte, if_neg (by omega), if_neg (by omega), if_neg (by omega), if_neg (by omega),
      if_neg (by omega), if_pos hin, Nat.add_sub_cancel_left]
  have htype : host a = 0x02 := h 0 (by decide)
  have hstate : host (a + 1) = UInt8.ofNat (16 * d.state.code) := h 1 (by decide)
  have hattr : host (a + 2) = if d.zrwav then 0x08 else 0x00 := h 2 (by decide)
  have hcode : ZoneState.ofCode ((UInt8.ofNat (16 * d.state.code)).toNat / 16) = some d.state := by
    cases d.state <;> rfl
  have hzrwav : decide ((host (a + 2)).toNat / 8 % 2 = 1) = d.zrwav := by
    rw [hattr]
    cases d.zrwav <;> rfl
  rw [ofBytes, htype, if_pos (by decide), hstate, hcode, hcapacity, hzslba, hwp, hzrwav]
  rfl

end ZoneDescriptor

/-- Byte `i` of the report buffer after `__fill_zone_report`, which stores no other byte than those of
the number of zones and of their descriptors. -/
def ZoneReport.byte (report : ZoneReport) (old : Nat → UInt8) (i : Nat) : UInt8 :=
  if i < 8 then Bytes.leByte report.nrZones i
  else if zoneDescriptorSize ≤ i ∧ i < zoneDescriptorSize + zoneDescriptorSize * report.nrZones then
    (report.zd (i / zoneDescriptorSize - 1)).byte (i % zoneDescriptorSize)
  else old i

/-- The zones that a host reads in a report of `length` bytes. -/
def hostZones (host : Nat → UInt8) (length : Nat) : List (Option ZoneDescriptor) :=
  (List.range (min (Bytes.readLe host 0 8) (length / zoneDescriptorSize - 1))).map fun k =>
    ZoneDescriptor.ofBytes host (zoneDescriptorSize * (k + 1))

/-- The bytes of the report buffer, and the memory of the host. -/
structure ReportMemory where
  buffer : Nat → UInt8
  memory : Nat → UInt8

namespace ZnsFtl

/-- `zns_zmgmt_recv`, with the bytes that it stores. -/
def recvToHost (z : ZnsFtl) (req : ZnsRequest) (c : ZoneMgmtRecv) (pfnValid : Nat → Bool)
    (sqe : NvmeSqe) (m : ReportMemory) :
    Except (ZnsFault ⊕ IoFault) (ZnsResult × ZnsFtl × ReportMemory) := do
  let (r, z') ← (z.znsZmgmtRecv req c).mapError .inl
  if z.checkZmgmtRcvOptionSupported c then
    let buffer := z'.reportBuffer.byte m.buffer
    let memory ← (prpTransferData pfnValid sqe buffer z.reportBufferSize (reportLength c)
      m.memory).mapError .inr
    return (r, z', { buffer, memory })
  else return (r, z', m)

variable {z z' : ZnsFtl} {zid : Nat} {d' : ZoneDescriptor} {cause : Cause} {leak : Nat}
  {c : ZoneMgmtRecv} {req : ZnsRequest}

/-! ## What the descriptors hold -/

/-- The zones are where the creation of the namespace has laid them. -/
structure LaidOut (z : ZnsFtl) : Prop where
  booked : z.Booked
  shaped : z.Shaped
  zslba : ∀ i < z.zp.nrZones, (z.zoneDescs i).zslba = i * z.lbasPerZone
  zoneCapacity : ∀ i < z.zp.nrZones, (z.zoneDescs i).zoneCapacity = z.lbasPerZone
  wp : ∀ i < z.zp.nrZones, (z.zoneDescs i).wp < 2 ^ 64

/-- No change moves a zone. -/
theorem Change.place (hc : z.Change zid cause d' leak) :
    d'.zslba = (z.zoneDescs zid).zslba ∧ d'.zoneCapacity = (z.zoneDescs zid).zoneCapacity := by
  cases hc <;> exact ⟨rfl, rfl⟩

theorem Change.wp_lt (hc : z.Change zid cause d' leak) (hzslba : (z.zoneDescs zid).zslba < 2 ^ 64)
    (hwp : (z.zoneDescs zid).wp < 2 ^ 64) : d'.wp < 2 ^ 64 := by
  cases hc with
  | reset => exact hzslba
  | flush | write | zrwaWrite => exact Nat.mod_lt _ (by simp)
  | _ => exact hwp

theorem Shaped.zone_lt_two_pow (hs : z.Shaped) {i : Nat} (hi : i < z.zp.nrZones) :
    i * z.lbasPerZone < 2 ^ 64 ∧ z.lbasPerZone < 2 ^ 64 := by
  have hsize : z.lbasPerZone < 2 ^ 32 := by
    rw [lbasPerZone, hs.secsz]
    exact (Nat.div_le_self ..).trans_lt hs.zone_lt
  have hnr := hs.nrZones_lt
  refine ⟨?_, hsize.trans (by decide)⟩
  calc i * z.lbasPerZone ≤ 2 ^ 32 * z.lbasPerZone := Nat.mul_le_mul_right _ (by omega)
    _ < 2 ^ 32 * 2 ^ 32 := Nat.mul_lt_mul_of_pos_left hsize (by decide)

theorem laidOut_kept : Kept LaidOut fun _ _ => True where
  booked _ h := h.booked
  shaped _ h := h.shaped
  same z z' h hs := by
    have hlbas := lbasPerZone_congr hs.zp hs.sp
    refine ⟨hs.booked h.booked, hs.shaped h.shaped, ?_, ?_, ?_⟩
    all_goals rw [hs.zp, hs.zoneDescs]
    · rw [hlbas]
      exact h.zslba
    · rw [hlbas]
      exact h.zoneCapacity
    · exact h.wp
  change z z' zid cause d' leak h _ hz hc hm := by
    have hlbas := lbasPerZone_congr hm.zp hm.sp
    have hplace := hc.place
    have hzone := h.zslba zid hz
    refine ⟨h.booked.moved hz hm hc.empty, hm.shaped h.shaped, ?_, ?_, ?_⟩
    all_goals
      intro i hi
      rw [hm.zp] at hi
      rw [hm.zoneDescs, Function.update_apply]
      split_ifs with heq
    · rw [hplace.1, hlbas, heq]
      exact hzone
    · rw [hlbas]
      exact h.zslba i hi
    · rw [hplace.2, hlbas]
      exact h.zoneCapacity zid hz
    · rw [hlbas]
      exact h.zoneCapacity i hi
    · refine hc.wp_lt ?_ (h.wp zid hz)
      rw [hzone]
      exact (h.shaped.zone_lt_two_pow hz).1
    · exact h.wp i hi

theorem Fresh.laidOut {cfg : ZnsConfig} (h : z.Fresh cfg) : z.LaidOut := by
  have hlbas : z.zp.zoneSize >>> lbaBits = z.lbasPerZone := by
    rw [lbasPerZone, h.shaped.secsz, Nat.shiftRight_eq_div_pow]
    rfl
  refine ⟨h.booked, h.shaped, fun i hi => ?_, fun i hi => ?_, fun i hi => ?_⟩
  all_goals rw [h.zoneDescs i hi, initDescriptor, hlbas]
  · exact Nat.mod_eq_of_lt (h.shaped.zone_lt_two_pow hi).1
  · exact Nat.mod_lt _ (by simp)

theorem LaidOut.of_run {cfg : ZnsConfig} {mem : ZnsMemory} {clock : Clock} {size : Nat}
    {events : List ZnsEvent} (h : znsRun cfg mem clock size events = .ok z) : z.LaidOut := by
  obtain ⟨z₀, hinit, hevents⟩ := bind_eq_ok.mp h
  exact laidOut_kept.run (fresh_of_init hinit).laidOut
    (throughout_of_forall (fun _ _ => meets_true) events z₀) hevents

theorem LaidOut.fits (h : z.LaidOut) {i : Nat} (hi : i < z.zp.nrZones) : (z.zoneDescs i).Fits := by
  obtain ⟨hzslba, hcapacity⟩ := h.shaped.zone_lt_two_pow hi
  refine ⟨?_, ?_, h.wp i hi⟩
  · rw [h.zoneCapacity i hi]
    exact hcapacity
  · rw [h.zslba i hi]
    exact hzslba

/-! ## One report -/

/-- The number of zones of a report: those that are left, and for a partial report those that fit, but
for one that does not even hold the header. -/
theorem nrZoneToReport_eq (hz : z.lbaToZone c.slba < z.zp.nrZones) (hnr : z.zp.nrZones < 2 ^ 32) :
    z.nrZoneToReport c = if c.zraSpecificFeatures = true ∧ zoneDescriptorSize ≤ reportLength c then
        min (reportLength c / zoneDescriptorSize - 1) (z.zp.nrZones - z.lbaToZone c.slba)
      else z.zp.nrZones - z.lbaToZone c.slba := by
  have hleft : u64Sub z.zp.nrZones (z.lbaToZone c.slba) = z.zp.nrZones - z.lbaToZone c.slba := by
    rw [u64Sub]
    omega
  have hlength : reportLength c < 2 ^ 34 := by
    have hlt : u32 (c.nrDw + 1) < 2 ^ 32 := Nat.mod_lt _ (by simp)
    rw [reportLength]
    omega
  have h64 : zoneDescriptorSize = 64 := rfl
  unfold nrZoneToReport
  rw [hleft, h64]
  cases c.zraSpecificFeatures with
  | false => simp
  | true =>
    simp only [Bool.true_eq_false, if_false, true_and]
    by_cases hheader : 64 ≤ reportLength c
    · have hfits : u64Sub (reportLength c / 64) 1 = reportLength c / 64 - 1 := by
        rw [u64Sub]
        omega
      rw [hfits, if_pos hheader]
      split_ifs <;> omega
    · have hfits : u64Sub (reportLength c / 64) 1 = 2 ^ 64 - 1 := by
        rw [u64Sub]
        omega
      rw [hfits, if_neg hheader, if_pos (by omega)]

/-- Byte `i` of descriptor `k` of a report. -/
theorem report_descriptor {report : ZoneReport} {old : Nat → UInt8} {k i : Nat}
    (hk : k < report.nrZones) (hi : i < zoneDescriptorSize) :
    report.byte old (zoneDescriptorSize * (k + 1) + i) = (report.zd k).byte i := by
  have h64 : zoneDescriptorSize = 64 := rfl
  rw [h64] at hi ⊢
  have hin : 64 ≤ 64 * (k + 1) + i ∧ 64 * (k + 1) + i < 64 + 64 * report.nrZones := by omega
  have hdiv : (64 * (k + 1) + i) / 64 - 1 = k := by omega
  have hmod : (64 * (k + 1) + i) % 64 = i := by omega
  rw [ZoneReport.byte, h64, if_neg (by omega), if_pos hin, hdiv, hmod]

variable {pfnValid : Nat → Bool} {sqe : NvmeSqe} {m : ReportMemory} {pages : List Nat}

/-- An accepted report that fits in the report buffer arrives in the buffer of the host. -/
theorem LaidOut.recvToHost_eq (h : z.LaidOut) (hc : z.checkZmgmtRcvOptionSupported c = true)
    (hfits : reportLength c ≤ z.reportBufferSize)
    (hnames : sqe.Names pfnValid m.memory (reportLength c) pages) :
    z.recvToHost req c pfnValid sqe m =
      .ok ({ status := 0, nsecsTarget := req.nsecsStart, copied := reportLength c },
        { z with reportBuffer := z.reportOf c },
        { buffer := (z.reportOf c).byte m.buffer
          memory := Segments.copy ((z.reportOf c).byte m.buffer) m.memory
            ((List.range (reportLength c)).map fun i =>
              (bufferByte sqe.prp1 sqe.prp1 pages i, i)) }) := by
  have hdata := @NvmeSqe.Names.prpTransferData_eq _ _ ((z.reportOf c).byte m.buffer) _ _ _ _ hnames
    hfits
  rw [recvToHost, h.shaped.znsZmgmtRecv_accepted hc]
  simp only [Except.mapError, ok_bind, hc, if_true, hdata]
  rfl

/-- The host reads the descriptors that lie within the transfer. -/
theorem LaidOut.ofBytes_eq (h : z.LaidOut) (hc : z.checkZmgmtRcvOptionSupported c = true)
    {host old : Nat → UInt8} (hhost : ∀ i < reportLength c, host i = (z.reportOf c).byte old i)
    {k : Nat} (hk : k < z.nrZoneToReport c) (hlength : zoneDescriptorSize * (k + 2) ≤ reportLength c) :
    ZoneDescriptor.ofBytes host (zoneDescriptorSize * (k + 1)) =
      some (z.zoneDescs (z.lbaToZone c.slba + k)) := by
  have hle := nrZoneToReport_le (checkZmgmtRcv_zone hc) h.shaped.nrZones_lt
  apply ZoneDescriptor.ofBytes_of_byte (h.fits (by omega))
  intro i hi
  have hin : zoneDescriptorSize * (k + 1) + i < reportLength c := by
    simp only [zoneDescriptorSize] at *
    omega
  rw [hhost _ hin, report_descriptor hk hi]
  exact congrArg (fun d : ZoneDescriptor => d.byte i) (if_pos hk)

theorem LaidOut.readLe_eq (h : z.LaidOut) (hc : z.checkZmgmtRcvOptionSupported c = true)
    {host old : Nat → UInt8} (hhost : ∀ i < reportLength c, host i = (z.reportOf c).byte old i)
    (hlength : 8 ≤ reportLength c) : Bytes.readLe host 0 8 = z.nrZoneToReport c := by
  have hle := nrZoneToReport_le (checkZmgmtRcv_zone hc) h.shaped.nrZones_lt
  have hlt := h.shaped.nrZones_lt
  rw [Bytes.readLe_of_leByte fun i hi => ?_]
  · exact Nat.mod_eq_of_lt (by omega)
  · rw [Nat.zero_add, hhost i (by omega)]
    exact if_pos hi

end ZnsFtl

/-- After every run, a report that is accepted and fits in the report buffer is in the buffer that the
PRPs name: the host reads the number of zones and every descriptor that lies within the transfer, as the
zones are. What it reads behind them, and in the rest of the header, is what the report buffer held
before, and no other byte of its memory is changed. -/
theorem report_reads_back (cfg : ZnsConfig) (mem : ZnsMemory) (clock : Clock) (size : Nat)
    (events : List ZnsEvent) (z : ZnsFtl) (hrun : znsRun cfg mem clock size events = .ok z)
    (req : ZnsRequest) (c : ZoneMgmtRecv) (hc : z.checkZmgmtRcvOptionSupported c = true)
    (hfits : reportLength c ≤ z.reportBufferSize) (pfnValid : Nat → Bool) (sqe : NvmeSqe)
    (m : ReportMemory) (pages : List Nat)
    (hnames : sqe.Names pfnValid m.memory (reportLength c) pages) :
    ∃ r z' m', z.recvToHost req c pfnValid sqe m = .ok (r, z', m') ∧ r.status = 0 ∧
      let nr := if c.zraSpecificFeatures = true ∧ zoneDescriptorSize ≤ reportLength c then
          min (reportLength c / zoneDescriptorSize - 1) (z.zp.nrZones - z.lbaToZone c.slba)
        else z.zp.nrZones - z.lbaToZone c.slba
      let host := fun i => m'.memory (bufferByte sqe.prp1 sqe.prp1 pages i)
      (8 ≤ reportLength c → Bytes.readLe host 0 8 = nr) ∧
        (∀ k < nr, zoneDescriptorSize * (k + 2) ≤ reportLength c →
          ZoneDescriptor.ofBytes host (zoneDescriptorSize * (k + 1)) =
            some (z.zoneDescs (z.lbaToZone c.slba + k))) ∧
        (∀ i < reportLength c, 8 ≤ i ∧ i < zoneDescriptorSize ∨ zoneDescriptorSize * (nr + 1) ≤ i →
          host i = m.buffer i) ∧
        ∀ a, (∀ i < reportLength c, bufferByte sqe.prp1 sqe.prp1 pages i ≠ a) →
          m'.memory a = m.memory a := by
  have hlaid := ZnsFtl.LaidOut.of_run hrun
  have hnr := ZnsFtl.nrZoneToReport_eq (ZnsFtl.checkZmgmtRcv_zone hc) hlaid.shaped.nrZones_lt
  refine ⟨_, _, _, hlaid.recvToHost_eq hc hfits hnames, rfl, ?_⟩
  dsimp only
  rw [← hnr]
  have hhost : ∀ i < reportLength c, Segments.copy ((z.reportOf c).byte m.buffer) m.memory
      ((List.range (reportLength c)).map fun i => (bufferByte sqe.prp1 sqe.prp1 pages i, i))
      (bufferByte sqe.prp1 sqe.prp1 pages i) = (z.reportOf c).byte m.buffer i :=
    fun i hi => @Segments.copy_at _ _ _ _ _ (fun i => i) hnames.once i hi
  refine ⟨hlaid.readLe_eq hc hhost, fun k hk hlength => hlaid.ofBytes_eq hc hhost hk hlength,
    fun i hi hrest => ?_, fun a ha => Segments.copy_of_ne ha⟩
  have hcount : (z.reportOf c).nrZones = z.nrZoneToReport c := rfl
  rw [hhost i hi, ZoneReport.byte, hcount]
  rw [Nat.mul_add_one] at hrest
  rw [if_neg, if_neg]
  · simp only [zoneDescriptorSize] at *
    omega
  · simp only [zoneDescriptorSize] at *
    omega

/-- A report that starts 64 bytes before the end of a page and goes on in another one. -/
def reportOverPages : NvmeSqe where
  opcode := 0x7a
  commandId := 0
  nsid := 1
  prp1 := 0x1fc0
  prp2 := 0x5000
  cdw10 := 0
  cdw11 := 0
  cdw12 := 47

/-- A partial report of the header and two zones. -/
def reportOfTwo : ZoneMgmtRecv where
  slba := 0
  nrDw := 47
  zra := 0
  zraSpecificField := 0
  zraSpecificFeatures := true

theorem reportOverPages_names (memory : Nat → UInt8) :
    reportOverPages.Names (fun _ => true) memory 192 [0x5000] := by
  have hbyte : ∀ i < 192, bufferByte 0x1fc0 0x1fc0 [0x5000] i =
      if i < 64 then 0x1fc0 + i else 0x5000 + (i - 64) := by
    intro i hi
    have hpage : (i - 64) / 4096 = 0 := by omega
    have hbyte : (i - 64) % 4096 = i - 64 := by omega
    simp only [bufferByte, pageSize]
    rw [hpage, hbyte]
    rfl
  refine ⟨rfl, rfl, by decide, fun p hp => ?_, fun h => ?_, fun i hi j hj heq => ?_, fun h => ?_⟩
  · cases hp
    rfl
  · exact absurd h (by decide)
  · change bufferByte 0x1fc0 0x1fc0 [0x5000] i = bufferByte 0x1fc0 0x1fc0 [0x5000] j at heq
    rw [hbyte i hi, hbyte j hj] at heq
    split_ifs at heq <;> omega
  · exact absurd h (by decide)

/-- Of two zones the first one has been opened. -/
theorem report_reads_back_two : ∃ z r z' m',
    znsRun znsPrototype default default (mb 64) [openFirst false] = .ok z ∧
    z.recvToHost requestAtZero reportOfTwo (fun _ => true) reportOverPages
      ⟨fun _ => 0, fun _ => 0⟩ = .ok (r, z', m') ∧
    let host := fun i => m'.memory (bufferByte 0x1fc0 0x1fc0 [0x5000] i)
    ZoneDescriptor.ofBytes host 64 = some (z.zoneDescs 0) ∧
      ZoneDescriptor.ofBytes host 128 = some (z.zoneDescs 1) := by
  have hrun : (znsRun znsPrototype default default (mb 64) [openFirst false]).map (fun z =>
      decide (z.checkZmgmtRcvOptionSupported reportOfTwo = true ∧ 192 ≤ z.reportBufferSize ∧
        z.zp.nrZones = 2 ∧ z.lbaToZone 0 = 0)) = .ok true := by
    decide +kernel
  obtain ⟨z, hz, hfacts⟩ := except_map_eq_ok.mp hrun
  obtain ⟨hc, hfits, hnr, hzid⟩ := of_decide_eq_true hfacts
  obtain ⟨r, z', m', hr, -, -, hzones, -⟩ := report_reads_back _ _ _ _ _ z hz requestAtZero
    reportOfTwo hc hfits (fun _ => true) reportOverPages ⟨fun _ => 0, fun _ => 0⟩ [0x5000]
    (reportOverPages_names _)
  have hslba : z.lbaToZone reportOfTwo.slba = 0 := hzid
  simp only [hslba, hnr] at hzones
  exact ⟨z, r, z', m', hz, hr, hzones 0 (by decide) (by decide), hzones 1 (by decide) (by decide)⟩

/-! ## All zones, report after report -/

/-- The command asks for the zones from `zid` on, and for one descriptor at least. -/
structure ZnsFtl.Asks (z : ZnsFtl) (c : ZoneMgmtRecv) (zid : Nat) : Prop where
  zid_lt : zid < z.zp.nrZones
  slba : c.slba = zid * z.lbasPerZone
  zra : c.zra = 0
  zraSpecificField : c.zraSpecificField = 0
  one : 2 * zoneDescriptorSize ≤ reportLength c
  fits : reportLength c ≤ z.reportBufferSize

/-- A host that lists the zones, while the device goes on: each report is for the first zone that the
host has not seen. -/
inductive Listing (cfg : ZnsConfig) (mem : ZnsMemory) (clock : Clock) (size : Nat) :
    ZnsFtl → List (Option ZoneDescriptor) → Prop
  | start {z : ZnsFtl} {events : List ZnsEvent} (h : znsRun cfg mem clock size events = .ok z) :
    Listing cfg mem clock size z []
  | event {z z' : ZnsFtl} {seen : List (Option ZoneDescriptor)} {e : ZnsEvent}
    (h : Listing cfg mem clock size z seen) (hr : z.step e = .ok z') :
    Listing cfg mem clock size z' seen
  | report {z z' : ZnsFtl} {seen : List (Option ZoneDescriptor)} {req : ZnsRequest}
    {c : ZoneMgmtRecv} {r : ZnsResult} {pfnValid : Nat → Bool} {sqe : NvmeSqe}
    {m m' : ReportMemory} {pages : List Nat} (h : Listing cfg mem clock size z seen)
    (hasks : z.Asks c seen.length)
    (hnames : sqe.Names pfnValid m.memory (reportLength c) pages)
    (hr : z.recvToHost req c pfnValid sqe m = .ok (r, z', m')) :
    Listing cfg mem clock size z'
      (seen ++ hostZones (fun i => m'.memory (bufferByte sqe.prp1 sqe.prp1 pages i)) (reportLength c))

namespace ZnsFtl

variable {z z' : ZnsFtl} {c : ZoneMgmtRecv} {zid : Nat}

theorem Asks.lbaToZone (h : z.Asks c zid) (hs : z.Shaped) : z.lbaToZone c.slba = zid := by
  have hlt := hs.nrZones_lt
  have hzid := h.zid_lt
  rw [ZnsFtl.lbaToZone, h.slba, Nat.mul_div_cancel _ hs.lbasPerZone_pos]
  exact Nat.mod_eq_of_lt (by omega)

theorem Asks.accepted (h : z.Asks c zid) (hs : z.Shaped) :
    z.checkZmgmtRcvOptionSupported c = true := by
  have hzid := h.zid_lt
  unfold checkZmgmtRcvOptionSupported
  rw [h.lbaToZone hs, h.zra, h.zraSpecificField]
  simpa using hzid

/-- What the host lists of one report. -/
theorem LaidOut.hostZones_eq (h : z.LaidOut) (hasks : z.Asks c zid) {host old : Nat → UInt8}
    (hhost : ∀ i < reportLength c, host i = (z.reportOf c).byte old i) :
    hostZones host (reportLength c) =
      (List.range (min (reportLength c / zoneDescriptorSize - 1) (z.zp.nrZones - zid))).map fun k =>
        some (z.zoneDescs (zid + k)) := by
  have hc := hasks.accepted h.shaped
  have hzid := hasks.lbaToZone h.shaped
  have hone := hasks.one
  have h64 : zoneDescriptorSize = 64 := rfl
  have hnr := nrZoneToReport_eq (checkZmgmtRcv_zone hc) h.shaped.nrZones_lt
  have hheader : zoneDescriptorSize ≤ reportLength c := by omega
  rw [hzid] at hnr
  have hcount : min (z.nrZoneToReport c) (reportLength c / zoneDescriptorSize - 1) =
      min (reportLength c / zoneDescriptorSize - 1) (z.zp.nrZones - zid) := by
    rw [hnr]
    split_ifs <;> omega
  rw [hostZones, h.readLe_eq hc hhost (by omega), hcount]
  apply List.map_congr_left
  intro k hk
  have hk := List.mem_range.mp hk
  rw [h.ofBytes_eq hc hhost (by omega) (by rw [h64] at hk ⊢; omega), hzid]

/-- The answer to a host that lists the zones. -/
theorem LaidOut.answers (h : z.LaidOut) (hasks : z.Asks c zid) {req : ZnsRequest}
    {pfnValid : Nat → Bool} {sqe : NvmeSqe} {m : ReportMemory} {pages : List Nat}
    (hnames : sqe.Names pfnValid m.memory (reportLength c) pages) :
    ∃ r m', z.recvToHost req c pfnValid sqe m =
        .ok (r, { z with reportBuffer := z.reportOf c }, m') ∧ r.status = 0 ∧
      hostZones (fun i => m'.memory (bufferByte sqe.prp1 sqe.prp1 pages i)) (reportLength c) =
        (List.range (min (reportLength c / zoneDescriptorSize - 1) (z.zp.nrZones - zid))).map
          fun k => some (z.zoneDescs (zid + k)) := by
  refine ⟨_, _, h.recvToHost_eq (hasks.accepted h.shaped) hasks.fits hnames, rfl, ?_⟩
  exact h.hostZones_eq hasks fun i hi => @Segments.copy_at _ _ _ _ _ (fun i => i) hnames.once i hi

end ZnsFtl

/-- What a host has listed. -/
structure Listed (z : ZnsFtl) (seen : List (Option ZoneDescriptor)) : Prop where
  laidOut : z.LaidOut
  length_le : seen.length ≤ z.zp.nrZones
  zones : ∀ i < seen.length, ∃ d : ZoneDescriptor, seen[i]? = some (some d) ∧
    d.zslba = i * z.lbasPerZone ∧ d.zoneCapacity = z.lbasPerZone

variable {cfg : ZnsConfig} {mem : ZnsMemory} {clock : Clock} {size : Nat} {z z' : ZnsFtl}
  {seen : List (Option ZoneDescriptor)}

theorem Listed.of_same (h : Listed z seen) (hlaid : z'.LaidOut) (hzp : z'.zp = z.zp)
    (hsp : z'.ssd.sp = z.ssd.sp) : Listed z' seen := by
  refine ⟨hlaid, by rw [hzp]; exact h.length_le, ?_⟩
  rw [ZnsFtl.lbasPerZone_congr hzp hsp]
  exact h.zones

/-- The zones of a report come behind those that were listed. -/
theorem Listed.append (h : Listed z seen) {n : Nat} (hn : n ≤ z.zp.nrZones - seen.length) :
    Listed z (seen ++ (List.range n).map fun k => some (z.zoneDescs (seen.length + k))) := by
  have hle := h.length_le
  refine ⟨h.laidOut, ?_, fun i hi => ?_⟩
  · rw [List.length_append, List.length_map, List.length_range]
    omega
  · rw [List.length_append, List.length_map, List.length_range] at hi
    by_cases hold : i < seen.length
    · rw [List.getElem?_append_left hold]
      exact h.zones i hold
    · have hzone : seen.length + (i - seen.length) = i := by omega
      refine ⟨z.zoneDescs i, ?_, h.laidOut.zslba i (by omega), h.laidOut.zoneCapacity i (by omega)⟩
      rw [List.getElem?_append_right (by omega), List.getElem?_map,
        List.getElem?_range (by omega), Option.map_some, hzone]

theorem Listing.listed (h : Listing cfg mem clock size z seen) : Listed z seen := by
  induction h with
  | start hrun =>
    exact ⟨.of_run hrun, Nat.zero_le _, fun i hi => absurd hi (Nat.not_lt_zero i)⟩
  | @event z z' _ _ _ hr ih =>
    have hlaid := ZnsFtl.laidOut_kept.step ih.laidOut ZnsFtl.meets_true hr
    have hbase := (ZnsFtl.base_kept z.zp z.ssd.sp).step
      ⟨ih.laidOut.booked, ih.laidOut.shaped, rfl, rfl⟩ ZnsFtl.meets_true hr
    exact ih.of_same hlaid hbase.2.2.1 hbase.2.2.2
  | @report z z' _ _ _ _ _ _ _ _ _ _ hasks hnames hr ih =>
    obtain ⟨r, m', hr', -, hzones⟩ := ih.laidOut.answers hasks hnames
    cases hr.symm.trans hr'
    rw [hzones]
    exact (ih.append (Nat.min_le_right ..)).of_same
      (ZnsFtl.laidOut_kept.same _ _ ih.laidOut ⟨rfl, rfl, rfl, rfl⟩) rfl rfl

/-- A host that lists the zones report by report, in buffers of any sizes and with other commands in
between, sees every zone once and in order; and as long as zones are left, the next report succeeds and
shows the first of them, as many as its buffer holds, as they are then. -/
theorem reports_list_zones (cfg : ZnsConfig) (mem : ZnsMemory) (clock : Clock) (size : Nat)
    (z : ZnsFtl) (seen : List (Option ZoneDescriptor)) (h : Listing cfg mem clock size z seen) :
    seen.length ≤ z.zp.nrZones ∧
      (∀ i < seen.length, ∃ d : ZoneDescriptor, seen[i]? = some (some d) ∧
        d.zslba = i * z.lbasPerZone ∧ d.zoneCapacity = z.lbasPerZone) ∧
      ∀ req c pfnValid sqe m pages, z.Asks c seen.length →
        NvmeSqe.Names sqe pfnValid m.memory (reportLength c) pages →
        ∃ r z' m', z.recvToHost req c pfnValid sqe m = .ok (r, z', m') ∧ r.status = 0 ∧
          hostZones (fun i => m'.memory (bufferByte sqe.prp1 sqe.prp1 pages i)) (reportLength c) =
            (List.range (min (reportLength c / zoneDescriptorSize - 1)
              (z.zp.nrZones - seen.length))).map fun k =>
                some (z.zoneDescs (seen.length + k)) := by
  have hlisted := h.listed
  refine ⟨hlisted.length_le, hlisted.zones, fun req c pfnValid sqe m pages hasks hnames => ?_⟩
  obtain ⟨r, m', hr, hstatus, hzones⟩ := @ZnsFtl.LaidOut.answers z c _ hlisted.laidOut hasks req
    _ _ _ _ hnames
  exact ⟨r, _, m', hr, hstatus, hzones⟩

/-- One report of two zones lists them both. -/
theorem reports_list_zones_two : ∃ z seen, Listing znsPrototype default default (mb 64) z seen ∧
    seen.length = 2 ∧ ∃ d : ZoneDescriptor, seen[1]? = some (some d) ∧ d.zslba = z.lbasPerZone := by
  have hrun : (znsRun znsPrototype default default (mb 64) [openFirst false]).map (fun z =>
      decide (192 ≤ z.reportBufferSize ∧ z.zp.nrZones = 2)) = .ok true := by
    decide +kernel
  obtain ⟨z, hz, hfacts⟩ := except_map_eq_ok.mp hrun
  obtain ⟨hfits, hnr⟩ := of_decide_eq_true hfacts
  have hasks : z.Asks reportOfTwo 0 :=
    ⟨by omega, (Nat.zero_mul _).symm, rfl, rfl, by decide, hfits⟩
  have hnames := reportOverPages_names fun _ => 0
  obtain ⟨r, m', hr, -, hzones⟩ := @ZnsFtl.LaidOut.answers _ _ _ (.of_run hz) hasks requestAtZero _ _
    ⟨fun _ => 0, fun _ => 0⟩ _ hnames
  have hlist := Listing.report (.start hz) hasks hnames hr
  obtain ⟨-, hseen, -⟩ := reports_list_zones _ _ _ _ _ _ hlist
  have hlength : ([] ++ hostZones (fun i => m'.memory (bufferByte reportOverPages.prp1
      reportOverPages.prp1 [0x5000] i)) (reportLength reportOfTwo)).length = 2 := by
    rw [List.nil_append, hzones, List.length_map, List.length_range, hnr]
    rfl
  obtain ⟨d, hd, hzslba, -⟩ := hseen 1 (by omega)
  exact ⟨_, _, hlist, hlength, d, hd, hzslba.trans (Nat.one_mul _)⟩

end NvmeVirt
