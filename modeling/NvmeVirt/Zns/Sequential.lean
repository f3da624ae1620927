import NvmeVirt.Zns.Accounting

/-!
# Write pointers

Every write pointer stays in its zone and says what the zone is: an empty zone begins with it, and
only a zone that is neither open nor closed ends with it. The end of a zone is computed from
`zone_to_slba`, whose product has 32 bits; in a zone that begins at block `2 ^ 32` or later no
write pointer is found to have come to the end.
-/

namespace NvmeVirt

open Checked

namespace ZnsFtl

variable {z z' z'' : ZnsFtl} {zid i j : Nat} {d d' : ZoneDescriptor}

/-! ## The blocks of a zone -/

theorem Shaped.lbasPerZone_lt (h : z.Shaped) : z.lbasPerZone < 2 ^ 23 := by
  have hlt := h.zone_lt
  rw [lbasPerZone, h.secsz]
  omega

/-- The blocks of all zones are far from the end of 64 bits. -/
theorem Shaped.zone_end_le (h : z.Shaped) (hi : i < z.zp.nrZones) :
    i * z.lbasPerZone + z.lbasPerZone ≤ 2 ^ 55 := by
  have hle : (i + 1) * z.lbasPerZone ≤ 2 ^ 32 * 2 ^ 23 :=
    Nat.mul_le_mul (by have := h.nrZones_lt; omega) (Nat.le_of_lt h.lbasPerZone_lt)
  rwa [Nat.add_one_mul, ← Nat.pow_add] at hle

/-- A block lies in one zone. -/
theorem zone_unique {lba : Nat} (hi : i * z.lbasPerZone ≤ lba)
    (hi' : lba < i * z.lbasPerZone + z.lbasPerZone) : lba / z.lbasPerZone = i := by
  apply Nat.div_eq_of_lt_le
  · exact hi
  · rwa [Nat.add_one_mul]

/-- A write that begins in a zone and passes the check ends in it. -/
theorem Shaped.write_le (h : z.Shaped) {lba n : Nat} (hi : i < z.zp.nrZones)
    (hlow : i * z.lbasPerZone ≤ lba) (hup : lba < i * z.lbasPerZone + z.lbasPerZone)
    (hn : n ≤ 2 ^ 16) (hpos : 0 < n) (hb : z.checkBoundaryError lba n = true) :
    lba + n ≤ i * z.lbasPerZone + z.lbasPerZone := by
  have hzone := zone_unique hlow hup
  have hend := h.zone_end_le hi
  have hnr := h.nrZones_lt
  have hlpos := h.lbasPerZone_pos
  have hb := of_decide_eq_true hb
  rw [lbaToZone, lbaToZone, hzone, u64, Nat.mod_eq_of_lt (by omega), u32, u32,
    Nat.mod_eq_of_lt (by omega)] at hb
  -- the last block is at most `2 ^ 16` zones further on, so nothing is lost by the reduction
  have hge : i ≤ (lba + n - 1) / z.lbasPerZone := by
    rw [Nat.le_div_iff_mul_le hlpos]
    omega
  have hlt : (lba + n - 1) / z.lbasPerZone < i + 1 + 2 ^ 16 := by
    rw [Nat.div_lt_iff_lt_mul hlpos, Nat.add_mul, Nat.add_one_mul]
    have : 2 ^ 16 ≤ 2 ^ 16 * z.lbasPerZone := Nat.le_mul_of_pos_right _ hlpos
    omega
  have hlast : (lba + n - 1) / z.lbasPerZone < i + 1 := by omega
  rw [Nat.div_lt_iff_lt_mul hlpos, Nat.add_one_mul] at hlast
  omega

/-! ## Zones in order -/

/-- A descriptor of the zone `i`: its write pointer is in the zone, and at its end only when the
zone is neither open nor closed. -/
structure Ordered (z : ZnsFtl) (i : Nat) (d : ZoneDescriptor) : Prop where
  zslba : d.zslba = i * z.lbasPerZone
  zoneCapacity : d.zoneCapacity = z.lbasPerZone
  lower : d.zslba ≤ d.wp
  upper : d.wp ≤ d.zslba + d.zoneCapacity
  empty : d.state = .empty → d.wp = d.zslba
  active : d.state.isActive = true → d.wp < d.zslba + d.zoneCapacity
  alive : d.state ≠ .readOnly ∧ d.state ≠ .offline
  area : d.zrwav = true → 0 < z.zp.lbasPerZrwafg ∧ z.zp.lbasPerZrwafg ≤ z.zp.lbasPerZrwa

theorem Ordered.congr (hzp : z'.zp = z.zp) (hsp : z'.ssd.sp = z.ssd.sp) (h : z.Ordered i d) :
    z'.Ordered i d := by
  have hlbas : z'.lbasPerZone = z.lbasPerZone := by rw [lbasPerZone, lbasPerZone, hzp, hsp]
  refine ⟨?_, ?_, h.lower, h.upper, h.empty, h.active, h.alive, ?_⟩
  · rw [hlbas]
    exact h.zslba
  · rw [hlbas]
    exact h.zoneCapacity
  · rw [hzp]
    exact h.area

/-- Where the code sees the end of a zone. -/
theorem Shaped.eq_zoneStop (hs : z.Shaped) (hzslba : (z.zoneDescs i).zslba = i * z.lbasPerZone)
    (hcap : (z.zoneDescs i).zoneCapacity = z.lbasPerZone) {wp : Nat}
    (hlow : (z.zoneDescs i).zslba ≤ wp) :
    wp = z.zoneStop i ↔
      (z.zoneDescs i).zslba < 2 ^ 32 ∧ wp = (z.zoneDescs i).zslba + (z.zoneDescs i).zoneCapacity := by
  have hlt := hs.lbasPerZone_lt
  have hpos := hs.lbasPerZone_pos
  rw [hzslba] at hlow ⊢
  rw [zoneStop, zoneToSlba, hcap, u64, u32]
  omega

theorem Ordered.eq_zoneStop (h : z.Ordered i (z.zoneDescs i)) (hs : z.Shaped) {wp : Nat}
    (hlow : (z.zoneDescs i).zslba ≤ wp) :
    wp = z.zoneStop i ↔
      (z.zoneDescs i).zslba < 2 ^ 32 ∧ wp = (z.zoneDescs i).zslba + (z.zoneDescs i).zoneCapacity :=
  hs.eq_zoneStop h.zslba h.zoneCapacity hlow

/-- A zone whose write pointer has come to `wp`. -/
theorem Ordered.advance (h : z.Ordered i (z.zoneDescs i)) (hs : z.Shaped) {wp : Nat} {s : ZoneState} (hact : s.isActive = true) (hlow : (z.zoneDescs i).zslba ≤ wp)
    (hup : wp ≤ (z.zoneDescs i).zslba + (z.zoneDescs i).zoneCapacity)
    (hseen : wp = (z.zoneDescs i).zslba + (z.zoneDescs i).zoneCapacity →
      (z.zoneDescs i).zslba < 2 ^ 32) :
    z.Ordered i { z.zoneDescs i with wp, state := z.stateAt i wp s } := by
  have hstop := h.eq_zoneStop hs hlow
  by_cases hfull : wp = z.zoneStop i
  · rw [stateAt, if_pos hfull]
    exact ⟨h.zslba, h.zoneCapacity, hlow, hup, ZoneState.noConfusion, Bool.noConfusion,
      ⟨ZoneState.noConfusion, ZoneState.noConfusion⟩, h.area⟩
  · rw [stateAt, if_neg hfull]
    have hne : wp ≠ (z.zoneDescs i).zslba + (z.zoneDescs i).zoneCapacity := by
      intro heq
      exact hfull (hstop.mpr ⟨hseen heq, heq⟩)
    refine ⟨h.zslba, h.zoneCapacity, hlow, hup, fun he => ?_, fun _ => lt_of_le_of_ne hup hne,
      ⟨fun he => ?_, fun he => ?_⟩, h.area⟩
    all_goals
      change s = _ at he
      rw [he] at hact
      cases hact

/-- All zones are in order. -/
structure Ruled (z : ZnsFtl) : Prop where
  booked : z.Booked
  shaped : z.Shaped
  lbasPerZrwa_lt : z.zp.lbasPerZrwa < 2 ^ 32
  zones : ∀ i < z.zp.nrZones, z.Ordered i (z.zoneDescs i)

theorem Ruled.of_same (h : z.Ruled) (hs : z.SameZones z') : z'.Ruled := by
  refine ⟨hs.booked h.booked, hs.shaped h.shaped, ?_, fun i hi => ?_⟩
  · rw [hs.zp]
    exact h.lbasPerZrwa_lt
  · rw [hs.zp] at hi
    rw [hs.zoneDescs]
    exact (h.zones i hi).congr hs.zp hs.sp

/-! ## What changes a zone -/

/-- The number of flushed blocks of a write that ends with the block `elba` in its zone. -/
theorem Ruled.zrwaFlush_le (h : z.Ruled) (hi : i < z.zp.nrZones)
    (hv : (z.zoneDescs i).zrwav = true) {elba n : Nat} (hlow : (z.zoneDescs i).wp ≤ elba)
    (hup : elba < (z.zoneDescs i).zslba + (z.zoneDescs i).zoneCapacity)
    (hn : z.zrwaFlush i elba = .ok n) (hpos : 0 < n) :
    (z.zoneDescs i).wp + n ≤ elba + 1 ∧
      ((z.zoneDescs i).wp + n = (z.zoneDescs i).zslba + (z.zoneDescs i).zoneCapacity →
        (z.zoneDescs i).zslba < 2 ^ 32) := by
  have ho := h.zones i hi
  obtain ⟨hfg, hle⟩ := ho.area hv
  have hend := h.shaped.zone_end_le hi
  have hzrwa := h.lbasPerZrwa_lt
  have hlower := ho.lower
  rw [ho.zslba, ho.zoneCapacity] at hup ⊢
  rw [ho.zslba] at hlower
  have hstart : z.zrwaImplStart i = (z.zoneDescs i).wp + z.zp.lbasPerZrwa := by
    rw [zrwaImplStart, u64]
    omega
  unfold zrwaFlush at hn
  rw [hstart] at hn
  split at hn
  · next hge =>
    obtain ⟨_, -, hn⟩ := bind_eq_ok.mp hn
    injection hn with hn
    have hmul := Nat.div_mul_le_self
      (u64 (elba - ((z.zoneDescs i).wp + z.zp.lbasPerZrwa) + 1 + z.zp.lbasPerZrwafg - 1))
      z.zp.lbasPerZrwafg
    have hmod := Nat.mod_le (u64 (elba - ((z.zoneDescs i).wp + z.zp.lbasPerZrwa) + 1 +
      z.zp.lbasPerZrwafg - 1) / z.zp.lbasPerZrwafg * z.zp.lbasPerZrwafg) (2 ^ 64)
    have hsum := Nat.mod_le (elba - ((z.zoneDescs i).wp + z.zp.lbasPerZrwa) + 1 +
      z.zp.lbasPerZrwafg - 1) (2 ^ 64)
    have hn := hn.symm
    rw [u64] at hn
    rw [u64] at hn hmod hmul
    omega
  · split at hn
    · next hlast =>
      injection hn with hn
      rw [zoneToElba, zoneToSlba, u64Sub, u32, u32] at hlast
      rw [u64, u64Sub] at hn
      omega
    · injection hn with hn
      omega

/-- A zone is opened with a random write area only when there is a flush granularity within it. A
write names an existing zone, and without a random write area it ends with the last block of a zone
only when that zone begins below block `2 ^ 32`. -/
def KeepsOrder (z : ZnsFtl) : Cause → Prop
  | .send _ .open true => 0 < z.zp.lbasPerZrwafg ∧ z.zp.lbasPerZrwafg ≤ z.zp.lbasPerZrwa
  | .send .. => True
  | .write c =>
    c.Wf ∧ c.slba / z.lbasPerZone < z.zp.nrZones ∧
      ((z.zoneDescs (z.lbaToZone c.slba)).zrwav = false →
        (z.zoneDescs (z.lbaToZone c.slba)).wp + c.nrLba =
          (z.zoneDescs (z.lbaToZone c.slba)).zslba +
            (z.zoneDescs (z.lbaToZone c.slba)).zoneCapacity →
        (z.zoneDescs (z.lbaToZone c.slba)).zslba < 2 ^ 32)

/-- The number of blocks of a command. -/
theorem nrLba_eq {c : RwCommand} (hc : c.Wf) : c.nrLba = c.length + 1 := by
  have := hc.length_lt
  rw [RwCommand.nrLba, u32]
  omega

/-- A command that names an existing zone. -/
theorem Shaped.named_zone {slba : Nat} (h : z.Shaped)
    (hz : slba / z.lbasPerZone < z.zp.nrZones) : z.lbaToZone slba * z.lbasPerZone ≤ slba ∧
      slba < z.lbaToZone slba * z.lbasPerZone + z.lbasPerZone := by
  have hnr := h.nrZones_lt
  have hid : z.lbaToZone slba = slba / z.lbasPerZone := Nat.mod_eq_of_lt (hz.trans hnr)
  rw [hid]
  refine ⟨Nat.div_mul_le_self .., ?_⟩
  have := Nat.lt_mul_div_succ slba h.lbasPerZone_pos
  rwa [Nat.mul_comm, Nat.add_one_mul] at this

theorem zrwaCheck_success {slba n : Nat} (h : z.zrwaCheck zid slba n = .success) :
    z.checkBoundaryError slba n = true ∧ (z.zoneDescs zid).wp ≤ slba := by
  unfold zrwaCheck at h
  split at h
  · cases h
  split at h
  · cases h
  split at h
  · cases h
  next hb hrange =>
  exact ⟨Bool.eq_true_of_not_eq_false hb, Nat.le_of_not_lt fun hlt => hrange (Or.inl hlt)⟩

/-- An open or an empty zone has room. -/
theorem Ordered.wp_lt (h : z.Ordered i (z.zoneDescs i)) (hs : z.Shaped)
    (hact : (z.zoneDescs i).state.isActive = true ∨ (z.zoneDescs i).state = .empty) :
    (z.zoneDescs i).wp < (z.zoneDescs i).zslba + (z.zoneDescs i).zoneCapacity := by
  rcases hact with hact | hempty
  · exact h.active hact
  · rw [h.empty hempty, h.zoneCapacity]
    exact Nat.lt_add_of_pos_right hs.lbasPerZone_pos

theorem ZoneState.isActive_of_isOpen {s : ZoneState} (h : s.isOpen = true) :
    s.isActive = true := by
  cases s with
  | openedImpl => rfl
  | openedExpl => rfl
  | _ => cases h

/-- An explicit flush ends in the zone, as far as the code sees its end. -/
theorem Ruled.ordered_flush {slba : Nat} (h : z.Ruled) (hz : zid < z.zp.nrZones)
    (hact : (z.zoneDescs zid).state.isActive = true) (hwp : (z.zoneDescs zid).wp ≤ slba)
    (hend : slba ≤ z.zrwaEnd zid) : z.Ordered zid
      { z.zoneDescs zid with
        wp := u64 (slba + 1)
        state := z.stateAt zid (u64 (slba + 1)) (z.zoneDescs zid).state } := by
  have ho := h.zones zid hz
  have hlower := ho.lower
  have hstop : slba + 1 ≤ z.zoneStop zid := by
    have hend := hend.trans (Nat.min_le_right ..)
    have hpos := h.shaped.lbasPerZone_pos
    have hlbas := h.shaped.lbasPerZone_lt
    rw [u64Sub, u64, zoneToSlba, u32, ho.zoneCapacity] at hend
    rw [zoneStop, u64, zoneToSlba, u32, ho.zoneCapacity]
    omega
  have hbound : z.zoneStop zid ≤ (z.zoneDescs zid).zslba + (z.zoneDescs zid).zoneCapacity := by
    rw [zoneStop, u64, zoneToSlba, ho.zoneCapacity, ho.zslba, u32]
    exact (Nat.mod_le ..).trans (Nat.add_le_add_right (Nat.mod_le ..) _)
  have hle := h.shaped.zone_end_le hz
  rw [← ho.zslba, ← ho.zoneCapacity] at hle
  have hid : u64 (slba + 1) = slba + 1 := by
    rw [u64]
    omega
  rw [hid]
  apply ho.advance h.shaped hact (by omega) (by omega)
  intro heq
  have hsame : slba + 1 = z.zoneStop zid := by omega
  exact ((ho.eq_zoneStop h.shaped (by omega)).mp hsame).1

/-- A write without a random write area ends in the zone. -/
theorem Ruled.wp_add_le {c : RwCommand} (h : z.Ruled) (hz : zid < z.zp.nrZones) (hwf : c.Wf)
    (hact : (z.zoneDescs zid).state.isActive = true ∨ (z.zoneDescs zid).state = .empty)
    (hb : z.checkBoundaryError (z.zoneDescs zid).wp c.nrLba = true) :
    (z.zoneDescs zid).wp + c.nrLba ≤ (z.zoneDescs zid).zslba + (z.zoneDescs zid).zoneCapacity ∧
      u64 ((z.zoneDescs zid).wp + u32 c.nrLba) = (z.zoneDescs zid).wp + c.nrLba := by
  have ho := h.zones zid hz
  have hlower := ho.lower
  have hup := ho.wp_lt h.shaped hact
  have hn := nrLba_eq hwf
  have hlen := hwf.length_lt
  have hle := h.shaped.zone_end_le hz
  rw [ho.zslba, ho.zoneCapacity] at hup ⊢
  rw [ho.zslba] at hlower
  have hend := h.shaped.write_le hz hlower hup (by omega) (by omega) hb
  refine ⟨hend, ?_⟩
  rw [u64, u32]
  omega

/-- What a write to a random write area flushes ends in the zone. -/
theorem Ruled.wp_add_flush_le {c : RwCommand} {n : Nat} (h : z.Ruled) (hwf : c.Wf)
    (hz : z.lbaToZone c.slba < z.zp.nrZones) (hnamed : c.slba / z.lbasPerZone < z.zp.nrZones)
    (hv : (z.zoneDescs (z.lbaToZone c.slba)).zrwav = true)
    (hcheck : z.zrwaCheck (z.lbaToZone c.slba) c.slba c.nrLba = .success)
    (hflush : z.zrwaFlush (z.lbaToZone c.slba) (u64 (c.slba + c.nrLba - 1)) = .ok n)
    (hpos : 0 < n) :
    let d := z.zoneDescs (z.lbaToZone c.slba)
    d.wp + n ≤ d.zslba + d.zoneCapacity ∧
      (d.wp + n = d.zslba + d.zoneCapacity → d.zslba < 2 ^ 32) ∧
      u64 (d.wp + u32 n) = d.wp + n := by
  have ho := h.zones _ hz
  obtain ⟨hb, hwp⟩ := zrwaCheck_success hcheck
  obtain ⟨hlow, hup⟩ := h.shaped.named_zone hnamed
  have hn := nrLba_eq hwf
  have hlen := hwf.length_lt
  have hle := h.shaped.zone_end_le hz
  have hend := h.shaped.write_le hz hlow hup (by omega) (by omega) hb
  have helba : u64 (c.slba + c.nrLba - 1) = c.slba + c.nrLba - 1 := by
    rw [u64]
    omega
  rw [helba] at hflush
  have hlast : c.slba + c.nrLba - 1 < (z.zoneDescs (z.lbaToZone c.slba)).zslba +
      (z.zoneDescs (z.lbaToZone c.slba)).zoneCapacity := by
    rw [ho.zslba, ho.zoneCapacity]
    omega
  obtain ⟨hflushed, hseen⟩ := h.zrwaFlush_le hz hv (by omega) hlast hflush hpos
  have hlbas := h.shaped.lbasPerZone_lt
  have hlower := ho.lower
  have hcap := ho.zoneCapacity
  refine ⟨by omega, hseen, ?_⟩
  rw [u64, u32]
  omega

/-- Every change of a zone keeps its order. -/
theorem Ruled.ordered_change {cause : Cause} {leak : Nat} (h : z.Ruled) (hz : zid < z.zp.nrZones)
    (hok : z.KeepsOrder cause) (hc : z.Change zid cause d' leak) : z.Ordered zid d' := by
  have ho := h.zones zid hz
  -- a change of the state alone
  have hstate : ∀ {s : ZoneState} {v : Bool}, s ≠ .empty → s ≠ .readOnly → s ≠ .offline →
      (s.isActive = true → (z.zoneDescs zid).state.isActive = true ∨
        (z.zoneDescs zid).state = .empty) →
      (v = true → 0 < z.zp.lbasPerZrwafg ∧ z.zp.lbasPerZrwafg ≤ z.zp.lbasPerZrwa) →
      z.Ordered zid { z.zoneDescs zid with state := s, zrwav := v } := by
    intro s v hne hro hoff hact hv
    exact ⟨ho.zslba, ho.zoneCapacity, ho.lower, ho.upper, fun he => absurd he hne,
      fun ha => ho.wp_lt h.shaped (hact ha), ⟨hro, hoff⟩, hv⟩
  cases hc with
  | close hopen =>
    refine hstate (by simp) (by simp) (by simp) (fun _ => Or.inl ?_) ho.area
    exact ZoneState.isActive_of_isOpen hopen
  | finish => exact hstate (by simp) (by simp) (by simp) Bool.noConfusion ho.area
  | openActive hact =>
    exact hstate (by simp) (by simp) (by simp) (fun _ => Or.inl hact) ho.area
  | @openEmpty slba b hzid hempty hroom =>
    refine hstate (by simp) (by simp) (by simp) (fun _ => Or.inr hempty) fun hb => ?_
    subst hb
    exact hok
  | reset =>
    exact ⟨ho.zslba, ho.zoneCapacity, Nat.le_refl _, Nat.le_add_right .., fun _ => rfl,
      Bool.noConfusion, ⟨ZoneState.noConfusion, ZoneState.noConfusion⟩, Bool.noConfusion⟩
  | offline hro => exact absurd hro ho.alive.1
  | openImpl hclosed hv =>
    refine hstate (by simp) (by simp) (by simp) (fun _ => Or.inl ?_) ho.area
    rw [hclosed]
    rfl
  | flush hact hv hzid hwp hend => exact h.ordered_flush hz hact hwp hend
  | write c s hopen hact hv hb hzid =>
    obtain ⟨hwf, -, hseen⟩ := hok
    obtain ⟨hup, hid⟩ := h.wp_add_le hz hwf (hact.imp_right And.left) hb
    rw [hid]
    subst hzid
    exact ho.advance h.shaped (ZoneState.isActive_of_isOpen hopen)
      (ho.lower.trans (Nat.le_add_right ..)) hup (hseen hv)
  | zrwaWrite c n s hopen hact hv hzid hcheck hflush hpos =>
    obtain ⟨hwf, hnamed, -⟩ := hok
    subst hzid
    obtain ⟨hup, hseen, hid⟩ := h.wp_add_flush_le hwf hz hnamed hv hcheck hflush hpos
    rw [hid]
    exact ho.advance h.shaped (ZoneState.isActive_of_isOpen hopen)
      (ho.lower.trans (Nat.le_add_right ..)) hup hseen

theorem ruled_kept : Kept Ruled KeepsOrder where
  booked _ h := h.booked
  shaped _ h := h.shaped
  same _ _ h hs := h.of_same hs
  change z z' zid cause d' leak h hok hz hc hm := by
    refine ⟨h.booked.moved hz hm hc.empty, hm.shaped h.shaped, ?_, fun i hi => ?_⟩
    · rw [hm.zp]
      exact h.lbasPerZrwa_lt
    · apply Ordered.congr hm.zp hm.sp
      rw [hm.zp] at hi
      rw [hm.zoneDescs]
      by_cases hiz : i = zid
      · subst hiz
        rw [Function.update_self]
        exact h.ordered_change hz hok hc
      · rw [Function.update_of_ne hiz]
        exact h.zones i hi

end ZnsFtl

end NvmeVirt
