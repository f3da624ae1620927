import NvmeVirt.Zns.Faults
import NvmeVirt.Zns.Sequential

/-!
# Zone numbers and reports within their bounds

`lba_to_zone` is reduced to 32 bits and only zone management receive looks at its value before it
is used, and the length of a report is that of the host. A command whose block lies in an existing
zone uses no other zone.
-/

namespace NvmeVirt

open Checked

/-- The block whose zone a command is for. -/
def ZnsCommand.namedBlock : ZnsCommand → Option Nat
  | .write _ c => some c.slba
  | .read c => some c.slba
  | .mgmtSend c => if c.selectAll then none else some c.slba
  | .mgmtRecv c => some c.slba
  | _ => none

namespace ZnsFtl

variable {z z' : ZnsFtl} {zid : Nat} {req : ZnsRequest} {cmd cmd' : ZnsCommand} {r : ZnsResult}

/-- The range of the command does not end within the zones, or names a block behind them. -/
def Beyond (z : ZnsFtl) (cmd : ZnsCommand) : Prop :=
  (∃ slba, cmd.namedBlock = some slba ∧ z.zp.nrZones * z.lbasPerZone ≤ slba) ∨
    ∃ c, (cmd = .write .write c ∨ cmd = .read c) ∧
      z.zp.nrZones * z.lbasPerZone < c.slba + c.nrLba

/-- The command uses no zone that does not exist, fails when its range is beyond the zones, and
copies no more than the report buffer, which it has filled with the zones it counts. -/
structure InBounds (z : ZnsFtl) (req : ZnsRequest) (cmd : ZnsCommand) : Prop where
  index : z.znsProcNvmeIoCmd req cmd ≠ .error .zoneIndex
  beyond : ∀ r cmd' z', z.znsProcNvmeIoCmd req cmd = .ok (some r, cmd', z') → z.Beyond cmd →
    r.status ≠ 0
  copied : ∀ r cmd' z', z.znsProcNvmeIoCmd req cmd = .ok (some r, cmd', z') →
    r.copied ≤ z.reportBufferSize
  report : ∀ c r cmd' z', cmd = .mgmtRecv c →
    z.znsProcNvmeIoCmd req cmd = .ok (some r, cmd', z') → r.status = 0 →
    ∀ i, (i < z'.reportBuffer.nrZones → z.lbaToZone c.slba + i < z.zp.nrZones ∧
        z'.reportBuffer.zd i = z.zoneDescs (z.lbaToZone c.slba + i)) ∧
      (z'.reportBuffer.nrZones ≤ i → z'.reportBuffer.zd i = z.reportBuffer.zd i)

/-- The block of a command lies in an existing zone, and an accepted report fits in its buffer. -/
def Addressable (z : ZnsFtl) : ZnsCommand → Prop
  | .mgmtRecv c => z.checkZmgmtRcvOptionSupported c = true →
    c.slba / z.lbasPerZone < z.zp.nrZones ∧ reportLength c ≤ z.reportBufferSize
  | cmd => ∀ slba, cmd.namedBlock = some slba → slba / z.lbasPerZone < z.zp.nrZones

/-! ## Existing zones -/

theorem lbaToZone_lt {slba : Nat} (h : slba / z.lbasPerZone < z.zp.nrZones) :
    z.lbaToZone slba < z.zp.nrZones :=
  (Nat.mod_le ..).trans_lt h

/-- The zones that a command for all zones is sent to exist. -/
theorem Shaped.lbaToZone_zoneToSlba (h : z.Shaped) (hz : zid < z.zp.nrZones) :
    z.lbaToZone (z.zoneToSlba zid) < z.zp.nrZones := by
  apply lbaToZone_lt
  rw [Nat.div_lt_iff_lt_mul h.lbasPerZone_pos]
  exact (Nat.mod_le ..).trans_lt (Nat.mul_lt_mul_of_pos_right hz h.lbasPerZone_pos)

theorem RaisesAt.ne_zoneIndex {α : Type} {r : Except ZnsFault α} (h : z.RaisesAt zid r)
    (hz : zid < z.zp.nrZones) : Outcome r (fun _ => True) (· ≠ .zoneIndex) := by
  refine h.mono (fun _ h => h) fun e he heq => ?_
  rw [heq] at he
  cases he with
  | zoneIndex hz' => exact hz' hz

/-- A command for all zones uses existing zones only. -/
theorem Booked.sendAll_index (hb : z.Booked) (hs : z.Shaped) (action : ZoneSendAction)
    (option : Bool) : Outcome ((List.range z.zp.nrZones).foldlM (zmgmtSendTo action option) z)
      (fun _ => True) (· ≠ .zoneIndex) := by
  refine (outcome_foldlM_const (fun z₁ => z₁.Booked ∧ z₁.Shaped ∧ z₁.zp = z.zp ∧
    z₁.ssd.sp = z.ssd.sp) (fun zid hin z₁ hz₁ => ?_) z ⟨hb, hs, rfl, rfl⟩).mono
    (fun _ _ => trivial) fun _ he => he
  have hzid : zid < z₁.zp.nrZones := by
    rw [hz₁.2.2.1]
    exact List.mem_range.mp hin
  have hindex := (raisesAt_zmgmtSend (z₁.zoneToSlba zid) action option).ne_zoneIndex
    (hz₁.2.1.lbaToZone_zoneToSlba hzid)
  have hkept : Outcome (z₁.zmgmtSend (z₁.zoneToSlba zid) action option)
      (fun r => r.2.Booked ∧ r.2.Shaped ∧ r.2.zp = z.zp ∧ r.2.ssd.sp = z.ssd.sp) fun _ => True :=
    Outcome.of_forall_ok fun r hr => (base_kept z.zp z.ssd.sp).zmgmtSend hz₁ trivial hr
  exact ((hindex.and hkept).mono (fun _ h => h.2) fun _ h => h.1).bind fun _ h => h

/-! ## Ranges -/

/-- A write that begins in an existing zone and passes the check ends within the zones. -/
theorem Shaped.range_le {c : RwCommand} (h : z.Shaped) (hwf : c.Wf)
    (hnamed : c.slba / z.lbasPerZone < z.zp.nrZones)
    (hb : z.checkBoundaryError c.slba c.nrLba = true) :
    c.slba + c.nrLba ≤ z.zp.nrZones * z.lbasPerZone := by
  obtain ⟨hlow, hup⟩ := h.named_zone hnamed
  have hn := nrLba_eq hwf
  have hlen := hwf.length_lt
  have hz := lbaToZone_lt hnamed
  have hend := h.write_le hz hlow hup (by omega) (by omega) hb
  have hall : (z.lbaToZone c.slba + 1) * z.lbasPerZone ≤ z.zp.nrZones * z.lbasPerZone :=
    Nat.mul_le_mul_right _ hz
  rw [Nat.add_one_mul] at hall
  omega

theorem Shaped.slba_lt {slba : Nat} (h : z.Shaped) :
    slba / z.lbasPerZone < z.zp.nrZones ↔ slba < z.zp.nrZones * z.lbasPerZone :=
  Nat.div_lt_iff_lt_mul h.lbasPerZone_pos

/-- A write at a given block that succeeds has passed the check there. -/
theorem Booked.write_checked {c c' : RwCommand} (hb : z.Booked) (hs : z.Shaped)
    (hr : z.znsWrite req .write c = .ok (some r, c', z')) (hstatus : r.status = 0) :
    z.checkBoundaryError c.slba c.nrLba = true := by
  rcases hs.znsWrite_eq_ok hr with ⟨hv, hzrwa, -⟩ | ⟨hv, hseq⟩
  · obtain ⟨-, -, hsuccess⟩ := hb.znsWriteZrwa hv hzrwa
    exact (zrwaCheck_success (hsuccess r rfl hstatus)).1
  · obtain ⟨-, ⟨-, hfailed⟩ | ⟨-, hw⟩⟩ := hb.znsWriteSeq_cases hv hseq
    · exact absurd hstatus (hfailed r rfl)
    · have hstart := hw.start.resolve_left (by simp)
      rw [hstart]
      exact (writeCheck_success hw.check).1

theorem read_checked {c : RwCommand} (hr : z.znsRead req c = .ok (r, z')) (hstatus : r.status = 0) :
    z.checkBoundaryError c.slba c.nrLba = true := by
  simp only [znsRead, bind_eq_ok] at hr
  obtain ⟨_, -, hr⟩ := hr
  cases hr
  have hsuccess := ZnsStatus.code_eq_zero.mp hstatus
  unfold readStatus at hsuccess
  split at hsuccess
  · cases hsuccess
  · split at hsuccess
    · cases hsuccess
    · next hb => exact Bool.eq_true_of_not_eq_false hb

/-! ## Reports -/

theorem nrZoneToReport_le {c : ZoneMgmtRecv} (hz : z.lbaToZone c.slba < z.zp.nrZones)
    (hnr : z.zp.nrZones < 2 ^ 32) : z.lbaToZone c.slba + z.nrZoneToReport c ≤ z.zp.nrZones := by
  have hleft : u64Sub z.zp.nrZones (z.lbaToZone c.slba) = z.zp.nrZones - z.lbaToZone c.slba := by
    rw [u64Sub]
    omega
  have hmin : ∀ n left : Nat, (if n > left then left else n) ≤ left := by
    intro n left
    split <;> omega
  have hle : z.nrZoneToReport c ≤ u64Sub z.zp.nrZones (z.lbaToZone c.slba) := hmin ..
  rw [hleft] at hle
  omega

/-- The report buffer after an accepted command. -/
def reportOf (z : ZnsFtl) (c : ZoneMgmtRecv) : ZoneReport where
  nrZones := z.nrZoneToReport c
  zd := fun i =>
    if i < z.nrZoneToReport c then z.zoneDescs (z.lbaToZone c.slba + i) else z.reportBuffer.zd i

theorem checkZmgmtRcv_zone {c : ZoneMgmtRecv} (hc : z.checkZmgmtRcvOptionSupported c = true) :
    z.lbaToZone c.slba < z.zp.nrZones := by
  unfold checkZmgmtRcvOptionSupported at hc
  simp only [Bool.and_eq_true, decide_eq_true_eq] at hc
  exact hc.1.1

/-- An accepted report. -/
theorem Shaped.znsZmgmtRecv_accepted {c : ZoneMgmtRecv} (h : z.Shaped)
    (hc : z.checkZmgmtRcvOptionSupported c = true) : z.znsZmgmtRecv req c =
      .ok ({ status := 0, nsecsTarget := req.nsecsStart, copied := reportLength c },
        { z with reportBuffer := z.reportOf c }) := by
  rw [ZnsFtl.znsZmgmtRecv, if_pos hc, fillZoneReport,
    require_pos (nrZoneToReport_le (checkZmgmtRcv_zone hc) h.nrZones_lt)]
  rfl

/-! ## Commands within their bounds -/

theorem Booked.index_of_addressable (hb : z.Booked) (hs : z.Shaped) (hok : z.Addressable cmd) :
    z.znsProcNvmeIoCmd req cmd ≠ .error .zoneIndex := by
  suffices h : Outcome (z.znsProcNvmeIoCmd req cmd) (fun _ => True) (· ≠ .zoneIndex) from
    fun hr => h.of_error hr rfl
  cases cmd with
  | write op c =>
    have hz := lbaToZone_lt (hok c.slba rfl)
    exact ((hb.raisesAt_znsWrite hs).ne_zoneIndex hz).bind fun _ _ => trivial
  | read c =>
    have hz := lbaToZone_lt (hok c.slba rfl)
    exact (hs.raisesAt_znsRead.ne_zoneIndex hz).bind fun _ _ => trivial
  | flush => trivial
  | other => trivial
  | mgmtRecv c =>
    refine Outcome.bind (Q := fun _ => True) ?_ fun _ _ => trivial
    by_cases hc : z.checkZmgmtRcvOptionSupported c = true
    · rw [hs.znsZmgmtRecv_accepted hc]
      trivial
    · rw [ZnsFtl.znsZmgmtRecv, if_neg hc]
      trivial
  | mgmtSend c =>
    refine Outcome.bind (Q := fun _ => True) ?_ fun _ _ => trivial
    unfold znsZmgmtSend
    by_cases hall : c.selectAll = true
    · rw [if_pos hall]
      exact (hb.sendAll_index hs ..).bind fun _ _ => trivial
    · rw [if_neg hall]
      have hz := lbaToZone_lt (hok c.slba (if_neg hall))
      exact ((raisesAt_zmgmtSend ..).ne_zoneIndex hz).bind fun _ _ => trivial

theorem Shaped.not_beyond (hs : z.Shaped) {slba : Nat} (hnamed : cmd.namedBlock = some slba)
    (hslba : slba / z.lbasPerZone < z.zp.nrZones)
    (hrange : ∀ c, cmd = .write .write c ∨ cmd = .read c →
      c.slba + c.nrLba ≤ z.zp.nrZones * z.lbasPerZone) : ¬ z.Beyond cmd := by
  rintro (⟨slba', hnamed', hge⟩ | ⟨c, hc, hgt⟩)
  · rw [hnamed] at hnamed'
    cases hnamed'
    exact Nat.not_lt.mpr hge (hs.slba_lt.mp hslba)
  · exact Nat.not_lt.mpr (hrange c hc) hgt

theorem Booked.beyond_of_addressable (hb : z.Booked) (hs : z.Shaped) (hwf : cmd.Wf)
    (hok : z.Addressable cmd) (hr : z.znsProcNvmeIoCmd req cmd = .ok (some r, cmd', z'))
    (hstatus : r.status = 0) : ¬ z.Beyond cmd := by
  cases cmd with
  | write op c =>
    obtain ⟨⟨result, c', z₁⟩, hwrite, hr⟩ := bind_eq_ok.mp hr
    cases hr
    apply hs.not_beyond rfl (hok c.slba rfl)
    rintro c (hc | hc)
    · cases hc
      exact hs.range_le hwf (hok c.slba rfl) (hb.write_checked hs hwrite hstatus)
    · cases hc
  | read c =>
    obtain ⟨⟨r, z₁⟩, hread, hr⟩ := bind_eq_ok.mp hr
    cases hr
    apply hs.not_beyond rfl (hok c.slba rfl)
    rintro c (hc | hc)
    · cases hc
    · cases hc
      exact hs.range_le hwf (hok c.slba rfl) (read_checked hread hstatus)
  | mgmtSend c =>
    rintro (⟨slba, hnamed, hge⟩ | ⟨c, hc | hc, -⟩)
    · exact Nat.not_lt.mpr hge (hs.slba_lt.mp (hok slba hnamed))
    · cases hc
    · cases hc
  | mgmtRecv c =>
    by_cases hc : z.checkZmgmtRcvOptionSupported c = true
    · apply hs.not_beyond rfl (hok hc).1
      rintro c (hc | hc) <;> cases hc
    · obtain ⟨⟨r, z₁⟩, hrecv, hr⟩ := bind_eq_ok.mp hr
      rw [ZnsFtl.znsZmgmtRecv, if_neg hc] at hrecv
      cases hrecv
      cases hr
      cases hstatus
  | flush => rintro (⟨slba, hnamed, -⟩ | ⟨c, hc | hc, -⟩) <;> cases ‹_›
  | other => rintro (⟨slba, hnamed, -⟩ | ⟨c, hc | hc, -⟩) <;> cases ‹_›

theorem Shaped.inBounds_report (hs : z.Shaped) {c : ZoneMgmtRecv}
    (hr : z.znsProcNvmeIoCmd req (.mgmtRecv c) = .ok (some r, cmd', z')) (hstatus : r.status = 0)
    (i : Nat) : (i < z'.reportBuffer.nrZones → z.lbaToZone c.slba + i < z.zp.nrZones ∧
        z'.reportBuffer.zd i = z.zoneDescs (z.lbaToZone c.slba + i)) ∧
      (z'.reportBuffer.nrZones ≤ i → z'.reportBuffer.zd i = z.reportBuffer.zd i) := by
  obtain ⟨⟨r, z₁⟩, hrecv, hr⟩ := bind_eq_ok.mp hr
  cases hr
  by_cases hc : z.checkZmgmtRcvOptionSupported c = true
  · rw [hs.znsZmgmtRecv_accepted hc] at hrecv
    cases hrecv
    have hle := nrZoneToReport_le (checkZmgmtRcv_zone hc) hs.nrZones_lt
    refine ⟨fun hi => ?_, fun hi => if_neg (Nat.not_lt.mpr hi)⟩
    have hi : i < z.nrZoneToReport c := hi
    exact ⟨by omega, if_pos hi⟩
  · rw [ZnsFtl.znsZmgmtRecv, if_neg hc] at hrecv
    cases hrecv
    cases hstatus

theorem writeSeq_copied {op : ZnsWriteOp} {c c' : RwCommand}
    (hr : z.znsWriteSeq req op c = .ok (some r, c', z')) : r.copied = 0 := by
  simp only [znsWriteSeq, bind_eq_ok] at hr
  obtain ⟨_, -, _, -, hr⟩ := hr
  split at hr
  · cases hr
  · have hnone : ∀ {x : ZnsResult × RwCommand × ZnsFtl}, x.1.copied = 0 →
        (Except.ok (some x.1, x.2) : Except ZnsFault _) = .ok (some r, c', z') → r.copied = 0 := by
      intro x hx h
      rwa [Option.some.inj (congrArg Prod.fst (Except.ok.inj h))] at hx
    split at hr
    · split at hr
      · exact hnone (x := (_, _)) rfl hr
      · exact hnone (x := (_, _)) rfl hr
    · exact hnone (x := (_, _)) rfl hr

theorem writeZrwa_copied {c : RwCommand} (hr : z.znsWriteZrwa req c = .ok (some r, z')) :
    r.copied = 0 := by
  have hnone : ∀ {x : ZnsResult × ZnsFtl}, x.1.copied = 0 →
      (Except.ok (some x.1, x.2) : Except ZnsFault _) = .ok (some r, z') → r.copied = 0 := by
    intro x hx h
    rwa [Option.some.inj (congrArg Prod.fst (Except.ok.inj h))] at hx
  simp only [znsWriteZrwa, bind_eq_ok] at hr
  obtain ⟨_, -, hr⟩ := hr
  split at hr
  · obtain ⟨⟨s, z₁⟩, -, hr⟩ := bind_eq_ok.mp hr
    cases s with
    | success =>
      obtain ⟨n, -, hr⟩ := bind_eq_ok.mp hr
      split at hr
      · obtain ⟨⟨a, z₂⟩, -, hr⟩ := bind_eq_ok.mp hr
        split at hr
        · cases hr
        · exact hnone (x := (_, _)) rfl hr
      · exact hnone (x := (_, _)) rfl hr
    | _ => exact hnone (x := (_, _)) rfl hr
  · exact hnone (x := (_, _)) rfl hr

theorem Shaped.write_copied {op : ZnsWriteOp} {c c' : RwCommand} (hs : z.Shaped)
    (hr : z.znsWrite req op c = .ok (some r, c', z')) : r.copied = 0 := by
  rcases hs.znsWrite_eq_ok hr with ⟨-, hzrwa, -⟩ | ⟨-, hseq⟩
  · exact writeZrwa_copied hzrwa
  · exact writeSeq_copied hseq

/-- Only zone management receive copies anything. -/
theorem Shaped.copied_of_addressable (hs : z.Shaped) (hok : z.Addressable cmd)
    (hr : z.znsProcNvmeIoCmd req cmd = .ok (some r, cmd', z')) :
    r.copied ≤ z.reportBufferSize := by
  cases cmd with
  | write op c =>
    obtain ⟨⟨result, c', z₁⟩, hwrite, hr⟩ := bind_eq_ok.mp hr
    cases hr
    rw [hs.write_copied hwrite]
    exact Nat.zero_le _
  | read c =>
    obtain ⟨⟨r, z₁⟩, hread, hr⟩ := bind_eq_ok.mp hr
    simp only [znsRead, bind_eq_ok] at hread
    obtain ⟨_, -, hread⟩ := hread
    cases hread
    cases hr
    exact Nat.zero_le _
  | flush =>
    cases hr
    exact Nat.zero_le _
  | other =>
    cases hr
    exact Nat.zero_le _
  | mgmtSend c =>
    obtain ⟨⟨r, z₁⟩, hsend, hr⟩ := bind_eq_ok.mp hr
    cases hr
    unfold znsZmgmtSend at hsend
    split at hsend
    · obtain ⟨_, -, hsend⟩ := bind_eq_ok.mp hsend
      cases hsend
      exact Nat.zero_le _
    · obtain ⟨_, -, hsend⟩ := bind_eq_ok.mp hsend
      cases hsend
      exact Nat.zero_le _
  | mgmtRecv c =>
    obtain ⟨⟨r, z₁⟩, hrecv, hr⟩ := bind_eq_ok.mp hr
    cases hr
    by_cases hc : z.checkZmgmtRcvOptionSupported c = true
    · rw [hs.znsZmgmtRecv_accepted hc] at hrecv
      cases hrecv
      exact (hok hc).2
    · rw [ZnsFtl.znsZmgmtRecv, if_neg hc] at hrecv
      cases hrecv
      exact Nat.zero_le _

/-! ## Commands beyond the zones -/

/-- A command, other than a report or an action without a branch, whose zone number is not
reduced. -/
def Unreduced (z : ZnsFtl) : ZnsCommand → Prop
  | .mgmtRecv _ => True
  | .mgmtSend c => c.zsa ≠ .other ∧ (c.selectAll = false → c.slba / z.lbasPerZone < 2 ^ 32)
  | cmd => ∀ slba, cmd.namedBlock = some slba → slba / z.lbasPerZone < 2 ^ 32

theorem getZone_error (h : ¬ zid < z.zp.nrZones) : z.getZone zid = .error .zoneIndex := by
  rw [getZone, require_neg h]
  rfl

/-- A command for a zone behind the last one reaches past the array of zones. -/
theorem Shaped.index_of_beyond (hs : z.Shaped) (hun : z.Unreduced cmd) {slba : Nat}
    (hnamed : cmd.namedBlock = some slba) (hrecv : ∀ c, cmd ≠ .mgmtRecv c)
    (hbeyond : ¬ slba / z.lbasPerZone < z.zp.nrZones) :
    z.znsProcNvmeIoCmd req cmd = .error .zoneIndex := by
  have herror : slba / z.lbasPerZone < 2 ^ 32 →
      z.getZone (z.lbaToZone slba) = .error .zoneIndex := by
    intro hlt
    rw [lbaToZone, u32, Nat.mod_eq_of_lt hlt]
    exact getZone_error hbeyond
  cases cmd with
  | write op c =>
    cases hnamed
    rw [znsProcNvmeIoCmd, znsWrite, hs.lpnToZone_lbaToLpn, herror (hun _ rfl)]
    rfl
  | read c =>
    cases hnamed
    rw [znsProcNvmeIoCmd, znsRead, hs.lpnToZone_lbaToLpn, herror (hun _ rfl)]
    rfl
  | flush => cases hnamed
  | other => cases hnamed
  | mgmtRecv c => exact absurd rfl (hrecv c)
  | mgmtSend c =>
    by_cases hall : c.selectAll = true
    · rw [ZnsCommand.namedBlock, if_pos hall] at hnamed
      cases hnamed
    · rw [ZnsCommand.namedBlock, if_neg hall] at hnamed
      cases hnamed
      have herror := herror (hun.2 (Bool.eq_false_of_not_eq_true hall))
      rw [znsProcNvmeIoCmd, znsZmgmtSend, if_neg hall]
      have hsend : z.zmgmtSend c.slba c.zsa c.zsaso = .error .zoneIndex := by
        cases hzsa : c.zsa with
        | other => exact absurd hzsa hun.1
        | flushExplZrwa =>
          rw [zmgmtSend, flushExplicitZrwa, herror]
          rfl
        | _ =>
          change z.getZone _ >>= _ = _
          rw [herror]
          rfl
      rw [hsend]
      rfl

/-- A command within its bounds names an existing zone, as far as its zone number is not
reduced. -/
theorem Shaped.addressable_of_inBounds (hs : z.Shaped) (hun : z.Unreduced cmd)
    (h : z.InBounds req cmd) : z.Addressable cmd := by
  have hnamed : (∀ c, cmd ≠ .mgmtRecv c) → ∀ slba, cmd.namedBlock = some slba →
      slba / z.lbasPerZone < z.zp.nrZones := by
    intro hrecv slba hslba
    by_contra hbeyond
    exact h.index (hs.index_of_beyond hun hslba hrecv hbeyond)
  cases cmd with
  | mgmtRecv c =>
    intro hc
    have hrun : z.znsProcNvmeIoCmd req (.mgmtRecv c) = .ok
        (some { status := 0, nsecsTarget := req.nsecsStart, copied := reportLength c }, .mgmtRecv c,
          { z with reportBuffer := z.reportOf c }) := by
      rw [znsProcNvmeIoCmd, hs.znsZmgmtRecv_accepted hc]
      rfl
    refine ⟨?_, h.copied _ _ _ hrun⟩
    rw [hs.slba_lt]
    by_contra hge
    exact h.beyond _ _ _ hrun (Or.inl ⟨_, rfl, Nat.le_of_not_lt hge⟩) rfl
  | _ => exact hnamed fun _ => ZnsCommand.noConfusion

end ZnsFtl

/-- After any run, a command whose block lies in an existing zone, and a report that is rejected or
fits in the report buffer, stays within its bounds; and where the zone number of a command is not
reduced to 32 bits, no other command does. -/
theorem zone_commands_in_bounds (cfg : ZnsConfig) (mem : ZnsMemory) (clock : Clock) (size : Nat)
    (events : List ZnsEvent) (z : ZnsFtl) (hrun : znsRun cfg mem clock size events = .ok z)
    (req : ZnsRequest) (cmd : ZnsCommand) (hwf : cmd.Wf) :
    (z.Addressable cmd → z.InBounds req cmd) ∧
      (z.Unreduced cmd → z.InBounds req cmd → z.Addressable cmd) := by
  obtain ⟨z₀, -, -, hb, hs, -⟩ := ZnsFtl.reached_of_run hrun
  refine ⟨fun hok => ⟨hb.index_of_addressable hs hok, fun r cmd' z' hr hbeyond hstatus =>
    hb.beyond_of_addressable hs hwf hok hr hstatus hbeyond,
    fun r cmd' z' hr => hs.copied_of_addressable hok hr, ?_⟩, hs.addressable_of_inBounds⟩
  rintro c r cmd' z' rfl hr hstatus
  exact hs.inBounds_report hr hstatus

/-- A report of one zone, from a namespace with one zone. -/
theorem zone_commands_in_bounds_report : ∃ z, znsRun znsPrototype default default (mb 32) [] = .ok z ∧
    z.InBounds requestAtZero (.mgmtRecv
      { slba := 0, nrDw := 31, zra := 0, zraSpecificField := 0, zraSpecificFeatures := true }) := by
  have hrun : (znsRun znsPrototype default default (mb 32) []).map (fun z =>
      decide (0 / z.lbasPerZone < z.zp.nrZones ∧ 128 ≤ z.reportBufferSize)) = .ok true := by
    decide +kernel
  obtain ⟨z, hz, hfits⟩ := except_map_eq_ok.mp hrun
  exact ⟨z, hz, (zone_commands_in_bounds _ _ _ _ _ z hz requestAtZero (.mgmtRecv
    { slba := 0, nrDw := 31, zra := 0, zraSpecificField := 0, zraSpecificFeatures := true })
    ⟨by simp, by simp, by simp, by simp⟩).1 fun _ => of_decide_eq_true hfits⟩

/-- A read of the block behind the only zone reaches past the array of zones, and a report of 1 MiB
copies more than the report buffer. -/
theorem zone_commands_out_of_bounds :
    (do
      let z ← znsRun znsPrototype default default (mb 32) []
      z.znsProcNvmeIoCmd requestAtZero (.read { slba := 65536, length := 0, fua := false })).map
      (fun _ => ()) = .error .zoneIndex ∧
    (do
      let z ← znsRun znsPrototype default default (mb 32) []
      let (result, _) ← z.znsProcNvmeIoCmd requestAtZero (.mgmtRecv
        { slba := 0, nrDw := 2 ^ 18 - 1, zra := 0, zraSpecificField := 0,
          zraSpecificFeatures := true })
      return (result.map ZnsResult.copied, z.reportBufferSize)) = .ok (some (2 ^ 20), 192) := by
  decide +kernel

end NvmeVirt
