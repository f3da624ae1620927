import NvmeVirt.Zns.Changes

/-!
# The effect of commands on zones

Writes, with and without a random write area, and every other command: what they do to the zones,
and that a command that fails leaves them alone.
-/

namespace NvmeVirt

open Checked

/-- What the creation of a namespace makes of the sizes. -/
structure ZnsShape (zpp : Znsparams) (spp : Ssdparams) : Prop where
  secsz : spp.secsz = 512
  secsPerPg : spp.secsPerPg = 8
  pgsz : spp.pgsz = 4096
  zone_pos : 0 < zpp.zoneSize
  zone_lt : zpp.zoneSize < 2 ^ 32
  zone_dvd : 4096 ∣ zpp.zoneSize
  nrZones_lt : zpp.nrZones < 2 ^ 32
  oneshot_pos : 0 < spp.pgsPerOneshotpg

namespace ZnsFtl

variable {z z' z'' : ZnsFtl} {zid : Nat} {d d' : ZoneDescriptor} {t u : ZoneResource}

/-- The sizes of a namespace. -/
def Shaped (z : ZnsFtl) : Prop := ZnsShape z.zp z.ssd.sp

theorem SameZones.shaped (hs : z.SameZones z') (h : z.Shaped) : z'.Shaped := by
  unfold Shaped
  rw [hs.zp, hs.sp]
  exact h

theorem Moved.shaped {leak : Nat} (hm : z.Moved z' zid d' leak) (h : z.Shaped) : z'.Shaped := by
  unfold Shaped
  rw [hm.zp, hm.sp]
  exact h

/-- A zone is a whole number of pages. -/
theorem Shaped.lbasPerZone_eq (h : z.Shaped) : z.lbasPerZone = 8 * z.pgsPerZone := by
  obtain ⟨k, hk⟩ := h.zone_dvd
  rw [lbasPerZone, pgsPerZone, h.secsz, h.pgsz, hk]
  omega

theorem Shaped.pgsPerZone_pos (h : z.Shaped) : 0 < z.pgsPerZone := by
  obtain ⟨k, hk⟩ := h.zone_dvd
  have hpos := h.zone_pos
  rw [pgsPerZone, h.pgsz, hk]
  omega

theorem Shaped.lbasPerZone_pos (h : z.Shaped) : 0 < z.lbasPerZone := by
  have := h.pgsPerZone_pos
  rw [h.lbasPerZone_eq]
  omega

/-- The zone of a block is that of its page. -/
theorem Shaped.lpnToZone_lbaToLpn (h : z.Shaped) (lba : Nat) :
    z.lpnToZone (z.lbaToLpn lba) = z.lbaToZone lba := by
  rw [lpnToZone, lbaToZone, lbaToLpn, h.secsPerPg, h.lbasPerZone_eq, Nat.div_div_eq_div_mul]

/-! ## Timing and buffers -/

theorem sameZones_setBuffer (b : BufferRef) (buf : Buffer) : z.SameZones (z.setBuffer b buf) :=
  ⟨rfl, rfl, rfl, rfl⟩

/-- Allocation changes one buffer. -/
theorem allocate_eq_ok {b : BufferRef} {size n : Nat} (h : z.allocate b size = .ok (n, z')) :
    z.Mapped b ∧ ∃ buf, bufferAllocate (z.buffers b) size = .ok (n, buf) ∧
      z' = z.setBuffer b buf := by
  rw [allocate, bind_eq_ok] at h
  obtain ⟨_, hmap, h⟩ := h
  refine ⟨require_eq_ok.mp hmap, ?_⟩
  cases hrun : bufferAllocate (z.buffers b) size with
  | error e =>
    rw [hrun] at h
    cases h
  | ok r =>
    obtain ⟨m, buf⟩ := r
    rw [hrun] at h
    cases h
    exact ⟨buf, rfl, rfl⟩

theorem programOneshot_same (sqId lpn stime : Nat) (b : BufferRef) (size : Nat) :
    z.SameZones (z.programOneshot sqId zid lpn stime b size).2 := ⟨rfl, rfl, rfl, rfl⟩

theorem advanceWriteBuffer_same (time length : Nat) :
    z.SameZones (z.advanceWriteBuffer time length).2 := ⟨rfl, rfl, rfl, rfl⟩

theorem writeLoop_same (sqId : Nat) (b : BufferRef) (elpn stime fuel : Nat) (z : ZnsFtl)
    (lpn latest : Nat) :
    z.SameZones (writeLoop sqId zid b elpn stime fuel z lpn latest).2 := by
  induction fuel generalizing z lpn latest with
  | zero => exact .refl z
  | succ fuel ih =>
    unfold writeLoop
    split
    · dsimp only
      split
      · exact (programOneshot_same ..).trans (ih ..)
      · exact ih ..
    · exact .refl z

theorem zrwaLoop_same (sqId stime fuel : Nat) (z : ZnsFtl) (lpn remaining latest : Nat) :
    z.SameZones (zrwaLoop sqId zid stime fuel z lpn remaining latest).2 := by
  induction fuel generalizing z lpn remaining latest with
  | zero => exact .refl z
  | succ fuel ih =>
    unfold zrwaLoop
    split
    · dsimp only
      split
      · exact (programOneshot_same ..).trans (ih ..)
      · exact ih ..
    · exact .refl z

/-! ## Opening a zone to write to it -/

/-- The zone keeps everything but its state. -/
theorem Booked.moved_refl (h : z.Booked) (zid : Nat) : z.Moved z zid (z.zoneDescs zid) 0 := by
  have := @Booked.moved_setZone z zid (z.zoneDescs zid) h fun _ => rfl
  rwa [show z.setZone zid (z.zoneDescs zid) = z by simp [setZone]] at this

/-- Opening a closed zone. -/
theorem Booked.moved_open (h : z.Booked) (hs : (z.zoneDescs zid).state = .closed) : z.Moved
      ((z.setAcquired .opened (z.acquired .opened + 1)).changeZoneState zid .openedImpl) zid
      { z.zoneDescs zid with state := .openedImpl } 0 := by
  refine ⟨rfl, rfl, rfl, fun t => setAcquired_total, fun t => ?_, ?_⟩
  · cases t <;> simp [ZoneDescriptor.holds, hs, ZoneState.isActive, ZoneState.isOpen]
  · simpa [h.total] using h.zrwa_le

theorem Booked.closed_room (h : z.Booked) (hz : zid < z.zp.nrZones)
    (hs : (z.zoneDescs zid).state = .closed) : z.acquireZoneResource .opened =
      (true, z.setAcquired .opened (z.acquired .opened + 1)) := by
  apply acquire_of_lt
  apply h.acquired_lt hz (by simp)
  simp [ZoneDescriptor.holds, hs, ZoneState.isOpen]

/-- The `switch` of a write opens the zone, or fails and does nothing. -/
theorem Booked.openForWrite (h : z.Booked) (hz : zid < z.zp.nrZones) {slba : Nat} {s : ZnsStatus}
    (hr : z.openForWrite zid slba = (s, z')) :
    (s ≠ .success ∧ z' = z) ∨ (s = .success ∧ ∃ st : ZoneState, st.isOpen = true ∧
      ((z.zoneDescs zid).state.isActive = true ∨
        ((z.zoneDescs zid).state = .empty ∧ slba = (z.zoneDescs zid).zslba)) ∧
      z.Moved z' zid { z.zoneDescs zid with state := st } 0) := by
  unfold ZnsFtl.openForWrite at hr
  dsimp only at hr
  split at hr
  · next hs =>
    have hidle := @holds_of_idle (z.zoneDescs zid) (by rw [hs]; rfl)
    by_cases hslba : slba ≠ (z.zoneDescs zid).zslba
    · rw [if_pos hslba] at hr
      cases hr
      exact Or.inl ⟨by simp, rfl⟩
    rw [if_neg hslba] at hr
    by_cases hfullA : z.isZoneResourceFull .active = true
    · rw [if_pos hfullA] at hr
      cases hr
      exact Or.inl ⟨by simp, rfl⟩
    rw [if_neg hfullA] at hr
    by_cases hfullO : z.isZoneResourceFull .opened = true
    · rw [if_pos hfullO] at hr
      cases hr
      exact Or.inl ⟨by simp, rfl⟩
    rw [if_neg hfullO, acquire_of_lt (h.acquired_lt hz (t := .active) (by simp) (hidle _))] at hr
    have hroom : (z.setAcquired .active (z.acquired .active + 1)).acquired .opened <
        (z.setAcquired .active (z.acquired .active + 1)).total .opened := by
      simpa using h.acquired_lt hz (t := .opened) (by simp) (hidle _)
    rw [acquire_of_lt hroom] at hr
    cases hr
    refine Or.inr ⟨rfl, .openedImpl, rfl, Or.inr ⟨hs, not_not.mp hslba⟩, rfl, rfl, rfl,
      fun t => ?_, fun t => ?_, ?_⟩
    · simp
    · have hv := h.empty zid hz hs
      cases t <;> simp [ZoneDescriptor.holds, hs, hv, ZoneState.isActive, ZoneState.isOpen]
    · simpa [h.total] using h.zrwa_le
  · next hs =>
    rw [h.closed_room hz hs] at hr
    cases hr
    exact Or.inr ⟨rfl, .openedImpl, rfl, Or.inl (by rw [hs]; rfl), h.moved_open hs⟩
  · next hs =>
    cases hr
    exact Or.inr ⟨rfl, _, by rw [hs]; rfl, Or.inl (by rw [hs]; rfl), h.moved_refl zid⟩
  · next hs =>
    cases hr
    exact Or.inr ⟨rfl, _, by rw [hs]; rfl, Or.inl (by rw [hs]; rfl), h.moved_refl zid⟩
  · cases hr
    exact Or.inl ⟨by simp, rfl⟩
  · cases hr
    exact Or.inl ⟨by simp, rfl⟩
  · cases hr
    exact Or.inl ⟨by simp, rfl⟩

/-- The write pointer of an open zone moves. -/
theorem Booked.increaseWritePtr (h : z.Booked) (hz : zid < z.zp.nrZones)
    (hs : (z.zoneDescs zid).state.isOpen = true) (n : Nat) :
    z.Moved (z.increaseWritePtr zid n) zid
      { z.zoneDescs zid with
        wp := u64 ((z.zoneDescs zid).wp + u32 n)
        state := z.stateAt zid (u64 ((z.zoneDescs zid).wp + u32 n)) (z.zoneDescs zid).state }
      (if u64 ((z.zoneDescs zid).wp + u32 n) = z.zoneStop zid then
        (z.zoneDescs zid).zrwav.toNat else 0) := by
  have hrun : z.increaseWritePtr zid n =
      if u64 ((z.zoneDescs zid).wp + u32 n) = z.zoneStop zid then
        ((z.releaseZoneResource .opened).releaseZoneResource .active).setZone zid
          { z.zoneDescs zid with wp := u64 ((z.zoneDescs zid).wp + u32 n), state := .full }
      else z.setZone zid { z.zoneDescs zid with wp := u64 ((z.zoneDescs zid).wp + u32 n) } := by
    by_cases hfull : u64 ((z.zoneDescs zid).wp + u32 n) = z.zoneStop zid
    · rw [if_pos hfull]
      exact (if_pos hfull).trans (@changeZoneState_setZone
        ((z.releaseZoneResource .opened).releaseZoneResource .active) zid _ _)
    · rw [if_neg hfull]
      exact if_neg hfull
  rw [hrun]
  by_cases hfull : u64 ((z.zoneDescs zid).wp + u32 n) = z.zoneStop zid
  · rw [if_pos hfull, stateAt, if_pos hfull, if_pos hfull]
    refine ⟨rfl, rfl, rfl, fun t => ?_, fun t => ?_, ?_⟩
    · simp
    · have hheld := @Booked.u32Sub_acquired z zid t h hz
      cases hstate : (z.zoneDescs zid).state <;> cases t <;>
        simp_all [ZoneDescriptor.holds, ZoneState.isActive, ZoneState.isOpen]
    · simpa [h.total] using h.zrwa_le
  · rw [if_neg hfull, stateAt, if_neg hfull, if_neg hfull]
    apply h.moved_setZone
    intro t
    cases t <;> rfl

/-! ## Writes -/

/-- What a command does: it fails and leaves the zones alone, or it changes one zone, or none. -/
structure CommandSpec (z : ZnsFtl) (zid : Nat) (cause : Cause) (result : Option ZnsResult)
    (z' : ZnsFtl) : Prop where
  failed : ∀ r, result = some r → r.status ≠ 0 → z.SameZones z'
  effect : z.Effect z' zid cause

variable {cause : Cause}

theorem CommandSpec.same (result : Option ZnsResult) (h : z.SameZones z') :
    z.CommandSpec zid cause result z' :=
  ⟨fun _ _ _ => h, .same h⟩

/-- The end of a zone does not depend on what a change moves. -/
theorem Moved.zoneStop {leak : Nat} (hm : z.Moved z' zid d' leak)
    (hcap : d'.zoneCapacity = (z.zoneDescs zid).zoneCapacity) :
    z'.zoneStop zid = z.zoneStop zid := by
  rw [ZnsFtl.zoneStop, ZnsFtl.zoneStop, zoneToSlba, zoneToSlba, lbasPerZone, lbasPerZone, hm.zp,
    hm.sp, hm.zoneDescs, Function.update_self, hcap]

/-- A zone is opened and its write pointer moves. -/
theorem Booked.openAndIncrease (h : z.Booked) (hz : zid < z.zp.nrZones) {st : ZoneState}
    (hst : st.isOpen = true) (hm : z.Moved z' zid { z.zoneDescs zid with state := st } 0)
    (n : Nat) : z.Moved (z'.increaseWritePtr zid n) zid
      { z.zoneDescs zid with
        wp := u64 ((z.zoneDescs zid).wp + u32 n)
        state := z.stateAt zid (u64 ((z.zoneDescs zid).wp + u32 n)) st }
      (if u64 ((z.zoneDescs zid).wp + u32 n) = z.zoneStop zid then
        (z.zoneDescs zid).zrwav.toNat else 0) := by
  have hd : z'.zoneDescs zid = { z.zoneDescs zid with state := st } := by
    rw [hm.zoneDescs, Function.update_self]
  have hb' : z'.Booked := by
    apply h.moved hz hm
    intro hempty
    have hempty : st = .empty := hempty
    rw [hempty] at hst
    cases hst
  have hopen : (z'.zoneDescs zid).state.isOpen = true := by
    rw [hd]
    exact hst
  have hinc := hm.trans (hb'.increaseWritePtr (by rw [hm.zp]; exact hz) hopen n)
  rw [stateAt, hm.zoneStop rfl, hd, Nat.zero_add] at hinc
  exact hinc

theorem writeZone_same {req : ZnsRequest} {c : RwCommand} :
    (z.increaseWritePtr zid c.nrLba).SameZones (z.writeZone req c zid).2 :=
  (advanceWriteBuffer_same ..).trans (writeLoop_same ..)

theorem programZrwa_same {req : ZnsRequest} {c : RwCommand} {prevWp n : Nat} :
    z.SameZones (z.programZrwa req c zid prevWp n).2 :=
  (advanceWriteBuffer_same ..).trans (zrwaLoop_same ..)

theorem writeCheck_success {slba n : Nat} (h : z.writeCheck zid slba n = .success) :
    z.checkBoundaryError slba n = true ∧ slba = (z.zoneDescs zid).wp := by
  unfold writeCheck at h
  split at h
  · cases h
  split at h
  · cases h
  split at h
  · cases h
  next hb hslba => exact ⟨Bool.eq_true_of_not_eq_false hb, not_not.mp hslba⟩

/-- An allocation that returns what it was asked for found room for it. -/
theorem room_of_allocate {b : BufferRef} {size n : Nat} (h : z.allocate b size = .ok (n, z'))
    (hn : size ≤ n) : size ≤ (z.buffers b).remaining := by
  obtain ⟨-, buf, hbuf, -⟩ := allocate_eq_ok h
  obtain ⟨-, taken, hr, ⟨rfl, -⟩ | ⟨-, hroom⟩⟩ := (bufferAllocate_outcome _ _).of_ok hbuf
  · cases hr
    exact hn.trans (Nat.zero_le _)
  · exact hroom

/-- A write without a random write area that is carried out: it starts at the write pointer and
passes the checks there, and moves the write pointer behind it. -/
structure Written (z : ZnsFtl) (zid : Nat) (op : ZnsWriteOp) (c c' : RwCommand) (z' : ZnsFtl) :
    Prop where
  start : op = .append ∨ c.slba = (z.zoneDescs zid).wp
  command : c' = { c with slba := (z.zoneDescs zid).wp }
  room : lbaToByte c.nrLba ≤ (z.buffers (z.writeBufferOf zid)).remaining
  check : z.writeCheck zid (z.zoneDescs zid).wp c.nrLba = .success
  active : (z.zoneDescs zid).state.isActive = true ∨
    ((z.zoneDescs zid).state = .empty ∧ (z.zoneDescs zid).wp = (z.zoneDescs zid).zslba)
  moved : ∃ st : ZoneState, st.isOpen = true ∧ z.Moved z' zid
    { z.zoneDescs zid with
      wp := u64 ((z.zoneDescs zid).wp + u32 c.nrLba)
      state := z.stateAt zid (u64 ((z.zoneDescs zid).wp + u32 c.nrLba)) st } 0

/-- A write without a random write area is carried out, or does nothing to the zones. -/
theorem Booked.znsWriteSeq_cases (h : z.Booked) {req : ZnsRequest} {op : ZnsWriteOp}
    {c c' : RwCommand} {result : Option ZnsResult}
    (hv : (z.zoneDescs (z.lbaToZone c.slba)).zrwav = false)
    (hr : z.znsWriteSeq req op c = .ok (result, c', z')) :
    z.lbaToZone c.slba < z.zp.nrZones ∧
      ((z.SameZones z' ∧ ∀ r, result = some r → r.status ≠ 0) ∨
        ((∃ r, result = some r ∧ r.status = 0) ∧ z.Written (z.lbaToZone c.slba) op c c' z')) := by
  simp only [ZnsFtl.znsWriteSeq, bind_eq_ok, getZone_eq_ok] at hr
  obtain ⟨d, ⟨hz, rfl⟩, ⟨a, z₀⟩, halloc, hr⟩ := hr
  refine ⟨hz, ?_⟩
  generalize z.lbaToZone c.slba = zid at *
  have hroom := room_of_allocate halloc
  obtain ⟨-, buf, -, rfl⟩ := allocate_eq_ok halloc
  have hs₀ := @sameZones_setBuffer z (z.writeBufferOf zid) buf
  have hb₀ := hs₀.booked h
  have hrejected : ∀ {s : ZnsStatus} {c₁ : RwCommand}, s ≠ .success → ∀ r,
      some (z.writeResult c₁ s req.nsecsStart req.nsecsStart) = some r → r.status ≠ 0 := by
    intro s c₁ hs r hr hstatus
    cases hr
    exact hs (ZnsStatus.code_eq_zero.mp hstatus)
  have hstart : ∀ slba : Nat,
      (if op = .append then { c with slba := (z.zoneDescs zid).wp } else c).slba = slba →
      slba = (z.zoneDescs zid).wp → (op = .append ∨ c.slba = (z.zoneDescs zid).wp) ∧
        (if op = .append then { c with slba := (z.zoneDescs zid).wp } else c) =
          { c with slba := (z.zoneDescs zid).wp } := by
    rintro slba hc rfl
    by_cases hop : op = .append
    · rw [if_pos hop]
      exact ⟨Or.inl hop, rfl⟩
    · rw [if_neg hop] at hc ⊢
      refine ⟨Or.inr hc, ?_⟩
      rw [← hc]
  have hlen : (if op = .append then { c with slba := (z.zoneDescs zid).wp } else c).nrLba =
      c.nrLba := by split <;> rfl
  generalize (if op = .append then { c with slba := (z.zoneDescs zid).wp } else c) = c₁
    at hr hlen hstart
  split at hr
  · cases hr
    refine Or.inl ⟨hs₀, fun r hr => ?_⟩
    cases hr
  next hroom' =>
  split at hr
  · next hsuccess =>
    have hcheck : z.writeCheck zid c₁.slba c.nrLba = .success := hsuccess
    obtain ⟨-, hslba⟩ := writeCheck_success hcheck
    split at hr
    · next z₁ hopen =>
      rcases hb₀.openForWrite hz hopen with ⟨hne, -⟩ | ⟨-, st, hst, hact, hm⟩
      · exact absurd rfl hne
      have hend := (hb₀.openAndIncrease hz hst hm c₁.nrLba).of_same (@writeZone_same z₁ zid req c₁)
      have hmoved := hs₀.moved hend
      have hv₀ : ((z.setBuffer (z.writeBufferOf zid) buf).zoneDescs zid).zrwav = false := hv
      rw [hv₀, Bool.toNat_false, ite_self, hlen] at hmoved
      obtain ⟨hop, hcommand⟩ := hstart _ rfl hslba
      rw [hslba] at hcheck hact
      cases hr
      exact Or.inr ⟨⟨_, rfl, rfl⟩, hop, hcommand, hroom (Nat.le_of_not_lt hroom'), hcheck, hact, st,
        hst, hmoved⟩
    · next s z₁ hne hopen =>
      rcases hb₀.openForWrite hz hopen with ⟨hs, rfl⟩ | ⟨rfl, -⟩
      · cases hr
        exact Or.inl ⟨hs₀, hrejected hs⟩
      · exact (hne rfl).elim
  · next hs =>
    cases hr
    exact Or.inl ⟨hs₀, hrejected hs⟩

/-- A write that is carried out changes its zone. -/
theorem Written.effect {op : ZnsWriteOp} {c c' : RwCommand} (hw : z.Written zid op c c' z')
    (hv : (z.zoneDescs zid).zrwav = false) (hzid : zid = z.lbaToZone c.slba) :
    z.Effect z' zid (.write c) := by
  obtain ⟨st, hst, hmoved⟩ := hw.moved
  exact .moved (.write c st hst hw.active hv (writeCheck_success hw.check).1 hzid) hmoved

theorem Booked.znsWriteSeq (h : z.Booked) {req : ZnsRequest} {op : ZnsWriteOp} {c c' : RwCommand}
    {result : Option ZnsResult} (hv : (z.zoneDescs (z.lbaToZone c.slba)).zrwav = false)
    (hr : z.znsWriteSeq req op c = .ok (result, c', z')) :
    z.lbaToZone c.slba < z.zp.nrZones ∧
      z.CommandSpec (z.lbaToZone c.slba) (.write c) result z' := by
  obtain ⟨hz, ⟨hs, -⟩ | ⟨⟨r, rfl, hstatus⟩, hw⟩⟩ := h.znsWriteSeq_cases hv hr
  · exact ⟨hz, .same _ hs⟩
  · refine ⟨hz, fun r' hr hne => ?_, hw.effect hv rfl⟩
    cases hr
    exact absurd hstatus hne

/-- Opening a zone for a write to its random write area. -/
theorem Booked.openForZrwa (h : z.Booked) (hz : zid < z.zp.nrZones)
    (hv : (z.zoneDescs zid).zrwav = true) {s : ZnsStatus} (hr : z.openForZrwa zid = .ok (s, z')) :
    (s ≠ .success ∧ z' = z) ∨ (s = .success ∧ (z.zoneDescs zid).state.isActive = true ∧
      (((z.zoneDescs zid).state.isOpen = true ∧ z' = z) ∨
        ((z.zoneDescs zid).state = .closed ∧
          z.Moved z' zid { z.zoneDescs zid with state := .openedImpl } 0))) := by
  unfold ZnsFtl.openForZrwa at hr
  split at hr
  · next hs =>
    rw [h.closed_room hz hs] at hr
    obtain ⟨⟨a, z₁⟩, halloc, hr⟩ := bind_eq_ok.mp hr
    obtain ⟨_, -, hr⟩ := bind_eq_ok.mp hr
    obtain ⟨-, buf, -, rfl⟩ := allocate_eq_ok halloc
    cases hr
    refine Or.inr ⟨rfl, by rw [hs]; rfl, Or.inr ⟨hs, (h.moved_open hs).of_same ?_⟩⟩
    exact ⟨rfl, rfl, rfl, rfl⟩
  · next hs =>
    rw [h.empty zid hz hs] at hv
    cases hv
  · next hs =>
    cases hr
    exact Or.inr ⟨rfl, by rw [hs]; rfl, Or.inl ⟨by rw [hs]; rfl, rfl⟩⟩
  · next hs =>
    cases hr
    exact Or.inr ⟨rfl, by rw [hs]; rfl, Or.inl ⟨by rw [hs]; rfl, rfl⟩⟩
  · cases hr
    exact Or.inl ⟨by simp, rfl⟩
  · cases hr
    exact Or.inl ⟨by simp, rfl⟩
  · cases hr
    exact Or.inl ⟨by simp, rfl⟩

/-- The number of flushed blocks depends on the sizes and the write pointer. -/
theorem zrwaFlush_congr (hzp : z'.zp = z.zp) (hsp : z'.ssd.sp = z.ssd.sp)
    (hwp : (z'.zoneDescs zid).wp = (z.zoneDescs zid).wp) (elba : Nat) :
    z'.zrwaFlush zid elba = z.zrwaFlush zid elba := by
  have hstart : z'.zrwaImplStart zid = z.zrwaImplStart zid := by
    rw [zrwaImplStart, zrwaImplStart, hzp, hwp]
  have helba : z'.zoneToElba zid = z.zoneToElba zid := by
    rw [zoneToElba, zoneToElba, zoneToSlba, zoneToSlba, lbasPerZone, lbasPerZone, hzp, hsp]
  rw [zrwaFlush, zrwaFlush, hstart, helba, hzp, hwp]

theorem Effect.of_same (h : z.Effect z' zid cause) (hs : z'.SameZones z'') :
    z.Effect z'' zid cause := by
  cases h with
  | same h => exact .same (h.trans hs)
  | moved hc hm => exact .moved hc (hm.of_same hs)

theorem Booked.znsWriteZrwa (h : z.Booked) {req : ZnsRequest} {c : RwCommand}
    {result : Option ZnsResult} (hv : (z.zoneDescs (z.lbaToZone c.slba)).zrwav = true)
    (hr : z.znsWriteZrwa req c = .ok (result, z')) :
    z.lbaToZone c.slba < z.zp.nrZones ∧
      z.CommandSpec (z.lbaToZone c.slba) (.write c) result z' ∧
      ∀ r, result = some r → r.status = 0 →
        z.zrwaCheck (z.lbaToZone c.slba) c.slba c.nrLba = .success := by
  simp only [ZnsFtl.znsWriteZrwa, bind_eq_ok, getZone_eq_ok] at hr
  obtain ⟨d, ⟨hz, rfl⟩, hr⟩ := hr
  refine ⟨hz, ?_⟩
  generalize hzid : z.lbaToZone c.slba = zid at *
  split at hr
  · next hcheck =>
    refine ⟨?_, fun _ _ _ => hcheck⟩
    obtain ⟨⟨s, z₁⟩, hopen, hr⟩ := bind_eq_ok.mp hr
    rcases h.openForZrwa hz hv hopen with ⟨hne, rfl⟩ | ⟨rfl, hact, hcase⟩
    · cases s with
      | success => exact absurd rfl hne
      | _ =>
        cases hr
        exact .same _ (.refl _)
    · obtain ⟨n, hflush, hr⟩ := bind_eq_ok.mp hr
      obtain ⟨st, hst, hm, heffect⟩ : ∃ st : ZoneState, st.isOpen = true ∧
          z.Moved z₁ zid { z.zoneDescs zid with state := st } 0 ∧
          z.Effect z₁ zid (.write c) := by
        rcases hcase with ⟨hs, rfl⟩ | ⟨hs, hm⟩
        · exact ⟨_, hs, h.moved_refl zid, .same (.refl _)⟩
        · exact ⟨.openedImpl, rfl, hm, .moved (.openImpl hs hv) hm⟩
      have hwp : (z₁.zoneDescs zid).wp = (z.zoneDescs zid).wp := by
        rw [hm.zoneDescs, Function.update_self]
      rw [zrwaFlush_congr hm.zp hm.sp hwp] at hflush
      split at hr
      · next hpos =>
        obtain ⟨⟨a, z₂⟩, halloc, hr⟩ := bind_eq_ok.mp hr
        obtain ⟨-, buf, -, rfl⟩ := allocate_eq_ok halloc
        have hs := @sameZones_setBuffer z₁ (.zrwa zid) buf
        split at hr
        · cases hr
          refine ⟨fun r hr => ?_, heffect.of_same hs⟩
          cases hr
        · have hend := h.openAndIncrease hz hst (hm.of_same hs) n
          rw [hv] at hend
          have hchange := Change.zrwaWrite c n st hst hact hv hzid.symm hcheck hflush hpos
          cases hr
          refine ⟨fun r hr => ?_, .moved hchange (hend.of_same programZrwa_same)⟩
          cases hr
          intro hne
          exact absurd rfl hne
      · cases hr
        refine ⟨fun r hr => ?_, heffect.of_same programZrwa_same⟩
        cases hr
        intro hne
        exact absurd rfl hne
  · next s hs =>
    cases hr
    refine ⟨.same _ (.refl z), fun r hr hstatus => ?_⟩
    cases hr
    exact absurd (ZnsStatus.code_eq_zero.mp hstatus) hs

/-- What `zns_write` calls. -/
theorem Shaped.znsWrite_eq_ok (hshape : z.Shaped) {req : ZnsRequest} {op : ZnsWriteOp}
    {c c' : RwCommand} {result : Option ZnsResult}
    (hr : z.znsWrite req op c = .ok (result, c', z')) :
    ((z.zoneDescs (z.lbaToZone c.slba)).zrwav = true ∧
      z.znsWriteZrwa req c = .ok (result, z') ∧ c' = c) ∨
    ((z.zoneDescs (z.lbaToZone c.slba)).zrwav = false ∧
      z.znsWriteSeq req op c = .ok (result, c', z')) := by
  simp only [ZnsFtl.znsWrite, bind_eq_ok, getZone_eq_ok, hshape.lpnToZone_lbaToLpn] at hr
  obtain ⟨d, ⟨-, rfl⟩, hr⟩ := hr
  split at hr
  · next hv =>
    obtain ⟨⟨r, z₁⟩, hzrwa, hr⟩ := bind_eq_ok.mp hr
    cases hr
    exact Or.inl ⟨hv, hzrwa, rfl⟩
  · next hv => exact Or.inr ⟨Bool.eq_false_of_not_eq_true hv, hr⟩

theorem Booked.znsWrite (h : z.Booked) (hshape : z.Shaped) {req : ZnsRequest} {op : ZnsWriteOp}
    {c c' : RwCommand} {result : Option ZnsResult}
    (hr : z.znsWrite req op c = .ok (result, c', z')) :
    z.lbaToZone c.slba < z.zp.nrZones ∧
      z.CommandSpec (z.lbaToZone c.slba) (.write c) result z' := by
  rcases hshape.znsWrite_eq_ok hr with ⟨hv, hzrwa, -⟩ | ⟨hv, hseq⟩
  · obtain ⟨hz, hspec, -⟩ := h.znsWriteZrwa hv hzrwa
    exact ⟨hz, hspec⟩
  · exact h.znsWriteSeq hv hseq

/-! ## The other commands -/

/-- From `z` to `z'` at most the device was timed and a report was filled. -/
def Reads (z z' : ZnsFtl) : Prop :=
  ∃ ssd reportBuffer, z' = { z with ssd, reportBuffer } ∧ ssd.sp = z.ssd.sp

theorem Reads.refl (z : ZnsFtl) : z.Reads z := ⟨_, _, rfl, rfl⟩

theorem Reads.trans (h : z.Reads z') (h' : z'.Reads z'') : z.Reads z'' := by
  obtain ⟨ssd, report, rfl, hsp⟩ := h
  obtain ⟨ssd', report', rfl, hsp'⟩ := h'
  exact ⟨ssd', report', rfl, hsp'.trans hsp⟩

theorem Reads.same (h : z.Reads z') : z.SameZones z' := by
  obtain ⟨ssd, report, rfl, hsp⟩ := h
  exact ⟨rfl, hsp, rfl, rfl⟩

theorem readLoop_reads (elpn stime fuel : Nat) (z : ZnsFtl) (lpn latest : Nat) :
    z.Reads (readLoop elpn stime fuel z lpn latest).2 := by
  induction fuel generalizing z lpn latest with
  | zero => exact .refl z
  | succ fuel ih =>
    unfold readLoop
    split
    · dsimp only
      refine Reads.trans ?_ (ih ..)
      exact ⟨_, _, rfl, rfl⟩
    · exact .refl z

theorem znsRead_reads {req : ZnsRequest} {c : RwCommand} {r : ZnsResult}
    (hr : z.znsRead req c = .ok (r, z')) : z.Reads z' := by
  simp only [znsRead, bind_eq_ok] at hr
  obtain ⟨_, -, hr⟩ := hr
  cases hr
  exact (readLoop_reads ..).trans ⟨_, _, rfl, rfl⟩

theorem znsZmgmtRecv_reads {req : ZnsRequest} {c : ZoneMgmtRecv} {r : ZnsResult}
    (hr : z.znsZmgmtRecv req c = .ok (r, z')) : z.Reads z' := by
  rw [znsZmgmtRecv] at hr
  split at hr
  · simp only [fillZoneReport, bind_eq_ok] at hr
    obtain ⟨_, ⟨_, -, h₁⟩, hr⟩ := hr
    cases h₁
    cases hr
    exact ⟨_, _, rfl, rfl⟩
  · cases hr
    exact .refl z

/-- What a command does: it writes to a zone, it manages zones, or it reads. Only a write is ever
presented again, and only a write changes its entry of the submission queue. -/
inductive Handled (z : ZnsFtl) (req : ZnsRequest) :
    ZnsCommand → Option ZnsResult → ZnsCommand → ZnsFtl → Prop
  | write {op : ZnsWriteOp} {c c' : RwCommand} {result : Option ZnsResult} {z' : ZnsFtl}
      (hr : z.znsWrite req op c = .ok (result, c', z')) :
      Handled z req (.write op c) result (.write op c') z'
  | mgmtSend {c : ZoneMgmtSend} {r : ZnsResult} {z' : ZnsFtl}
      (hr : z.znsZmgmtSend req c = .ok (r, z')) :
      Handled z req (.mgmtSend c) (some r) (.mgmtSend c) z'
  | reads {cmd : ZnsCommand} {r : ZnsResult} {z' : ZnsFtl} (hwrite : ∀ op c, cmd ≠ .write op c)
      (hsend : ∀ c, cmd ≠ .mgmtSend c) (hz : z.Reads z') : Handled z req cmd (some r) cmd z'

theorem handled {req : ZnsRequest} {cmd cmd' : ZnsCommand} {result : Option ZnsResult}
    (hr : z.znsProcNvmeIoCmd req cmd = .ok (result, cmd', z')) :
    z.Handled req cmd result cmd' z' := by
  cases cmd with
  | write op c =>
    obtain ⟨⟨r, c', z₁⟩, hwrite, hr⟩ := bind_eq_ok.mp hr
    cases hr
    exact .write hwrite
  | mgmtSend c =>
    obtain ⟨⟨r, z₁⟩, hsend, hr⟩ := bind_eq_ok.mp hr
    cases hr
    exact .mgmtSend hsend
  | read c =>
    obtain ⟨⟨r, z₁⟩, hread, hr⟩ := bind_eq_ok.mp hr
    cases hr
    exact .reads (by simp) (by simp) (znsRead_reads hread)
  | flush =>
    cases hr
    exact .reads (by simp) (by simp) ⟨_, _, rfl, rfl⟩
  | mgmtRecv c =>
    obtain ⟨⟨r, z₁⟩, hrecv, hr⟩ := bind_eq_ok.mp hr
    cases hr
    exact .reads (by simp) (by simp) (znsZmgmtRecv_reads hrecv)
  | other =>
    cases hr
    exact .reads (by simp) (by simp) (.refl z)

theorem completeInternal_same (i : Nat) : z.SameZones (z.completeInternal i) := by
  unfold completeInternal
  split
  · exact .refl z
  · exact ⟨rfl, rfl, rfl, rfl⟩

end ZnsFtl

end NvmeVirt
