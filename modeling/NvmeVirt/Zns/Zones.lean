import NvmeVirt.Library.Tally
import NvmeVirt.Zns.Mgmt

/-!
# What an operation does to a zone

Every operation leaves all zones alone or gives one zone a new descriptor, and then the three
counters change by what the old and the new descriptor hold. The one exception is a write that
fills a zone with a random write area: it keeps the resource of that area.
-/

namespace NvmeVirt

open Checked Tally

/-! ## What a zone holds -/

/-- `ZONE_STATE_OPENED_IMPL` or `ZONE_STATE_OPENED_EXPL`. -/
def ZoneState.isOpen : ZoneState → Bool
  | .openedImpl | .openedExpl => true
  | _ => false

/-- Opened or closed. -/
def ZoneState.isActive : ZoneState → Bool
  | .openedImpl | .openedExpl | .closed => true
  | _ => false

/-- The resources that a zone holds. -/
def ZoneDescriptor.holds (d : ZoneDescriptor) : ZoneResource → Bool
  | .active => d.state.isActive
  | .opened => d.state.isOpen
  | .zrwa => d.state.isActive && d.zrwav

namespace ZnsFtl

/-- `acquired_cnt`. -/
def acquired (z : ZnsFtl) (t : ZoneResource) : Nat := (z.resInfos t).acquiredCnt

/-- `total_cnt`. -/
def total (z : ZnsFtl) (t : ZoneResource) : Nat := (z.resInfos t).totalCnt

/-- The number of zones that hold a resource. -/
def count (z : ZnsFtl) (t : ZoneResource) : Nat :=
  tally z.zp.nrZones (fun i => (z.zoneDescs i).holds t) true

variable {z z' z'' : ZnsFtl} {zid : Nat} {d d' : ZoneDescriptor} {t u : ZoneResource}

/-! ## Fields after a store -/

@[simp] theorem setZone_zoneDescs :
    (z.setZone zid d).zoneDescs = Function.update z.zoneDescs zid d := rfl

@[simp] theorem setZone_acquired : (z.setZone zid d).acquired t = z.acquired t := rfl

@[simp] theorem setZone_total : (z.setZone zid d).total t = z.total t := rfl

@[simp] theorem setZone_zp : (z.setZone zid d).zp = z.zp := rfl

@[simp] theorem setZone_ssd : (z.setZone zid d).ssd = z.ssd := rfl

@[simp] theorem changeZoneState_zoneDescs {s : ZoneState} : (z.changeZoneState zid s).zoneDescs =
    Function.update z.zoneDescs zid { z.zoneDescs zid with state := s } := rfl

@[simp] theorem changeZoneState_acquired {s : ZoneState} :
    (z.changeZoneState zid s).acquired t = z.acquired t := rfl

@[simp] theorem changeZoneState_total {s : ZoneState} :
    (z.changeZoneState zid s).total t = z.total t := rfl

@[simp] theorem changeZoneState_zp {s : ZoneState} : (z.changeZoneState zid s).zp = z.zp := rfl

@[simp] theorem changeZoneState_ssd {s : ZoneState} : (z.changeZoneState zid s).ssd = z.ssd := rfl

@[simp] theorem setAcquired_zoneDescs {n : Nat} : (z.setAcquired t n).zoneDescs = z.zoneDescs := rfl

@[simp] theorem setAcquired_acquired {n : Nat} :
    (z.setAcquired t n).acquired u = if u = t then n else z.acquired u := by
  simp only [acquired, setAcquired, Function.update_apply]
  split <;> rfl

@[simp] theorem setAcquired_total {n : Nat} : (z.setAcquired t n).total u = z.total u := by
  simp only [total, setAcquired, Function.update_apply]
  split
  · next h => rw [h]
  · rfl

@[simp] theorem setAcquired_zp {n : Nat} : (z.setAcquired t n).zp = z.zp := rfl

@[simp] theorem setAcquired_ssd {n : Nat} : (z.setAcquired t n).ssd = z.ssd := rfl

@[simp] theorem release_zoneDescs : (z.releaseZoneResource t).zoneDescs = z.zoneDescs := rfl

@[simp] theorem release_acquired : (z.releaseZoneResource t).acquired u =
    if u = t then u32Sub (z.acquired t) 1 else z.acquired u := setAcquired_acquired

@[simp] theorem release_total : (z.releaseZoneResource t).total u = z.total u := setAcquired_total

@[simp] theorem release_zp : (z.releaseZoneResource t).zp = z.zp := rfl

@[simp] theorem release_ssd : (z.releaseZoneResource t).ssd = z.ssd := rfl

/-! ## Zones alone, and one zone changed -/

/-- The zones and the counters are the same. -/
structure SameZones (z z' : ZnsFtl) : Prop where
  zp : z'.zp = z.zp
  sp : z'.ssd.sp = z.ssd.sp
  zoneDescs : z'.zoneDescs = z.zoneDescs
  resInfos : z'.resInfos = z.resInfos

theorem SameZones.refl (z : ZnsFtl) : z.SameZones z := ⟨rfl, rfl, rfl, rfl⟩

theorem SameZones.trans (h : z.SameZones z') (h' : z'.SameZones z'') : z.SameZones z'' :=
  ⟨h'.zp.trans h.zp, h'.sp.trans h.sp, h'.zoneDescs.trans h.zoneDescs,
    h'.resInfos.trans h.resInfos⟩

/-- The zone `zid` has the new descriptor `d'`. The counters change by what the zone holds, but
`leak` resources of random write areas are kept. -/
structure Moved (z z' : ZnsFtl) (zid : Nat) (d' : ZoneDescriptor) (leak : Nat) : Prop where
  zp : z'.zp = z.zp
  sp : z'.ssd.sp = z.ssd.sp
  zoneDescs : z'.zoneDescs = Function.update z.zoneDescs zid d'
  total : ∀ t, z'.total t = z.total t
  acquired : ∀ t, z'.acquired t + ((z.zoneDescs zid).holds t).toNat =
    z.acquired t + (d'.holds t).toNat + if t = .zrwa then leak else 0
  le : z'.acquired .zrwa ≤ z.total .zrwa

theorem Moved.of_same {leak : Nat} (h : z.Moved z' zid d' leak) (hs : z'.SameZones z'') :
    z.Moved z'' zid d' leak := by
  have hacq : ∀ t, z''.acquired t = z'.acquired t := fun t => by
    rw [ZnsFtl.acquired, hs.resInfos, ZnsFtl.acquired]
  have htotal : ∀ t, z''.total t = z'.total t := fun t => by
    rw [ZnsFtl.total, hs.resInfos, ZnsFtl.total]
  refine ⟨hs.zp.trans h.zp, hs.sp.trans h.sp, hs.zoneDescs.trans h.zoneDescs, fun t => ?_,
    fun t => ?_, ?_⟩
  · rw [htotal, h.total]
  · rw [hacq]
    exact h.acquired t
  · rw [hacq]
    exact h.le

theorem SameZones.moved {leak : Nat} (hs : z.SameZones z') (h : z'.Moved z'' zid d' leak) :
    z.Moved z'' zid d' leak := by
  have hacq : ∀ t, z'.acquired t = z.acquired t := fun t => by
    rw [ZnsFtl.acquired, hs.resInfos, ZnsFtl.acquired]
  have htotal : ∀ t, z'.total t = z.total t := fun t => by
    rw [ZnsFtl.total, hs.resInfos, ZnsFtl.total]
  refine ⟨h.zp.trans hs.zp, h.sp.trans hs.sp, ?_, fun t => ?_, fun t => ?_, ?_⟩
  · rw [h.zoneDescs, hs.zoneDescs]
  · rw [h.total, htotal]
  · have := h.acquired t
    rwa [hs.zoneDescs, hacq] at this
  · rw [← htotal]
    exact h.le

/-- Two changes of one zone. -/
theorem Moved.trans {leak leak' : Nat} {d'' : ZoneDescriptor} (h : z.Moved z' zid d' leak)
    (h' : z'.Moved z'' zid d'' leak') : z.Moved z'' zid d'' (leak + leak') := by
  refine ⟨h'.zp.trans h.zp, h'.sp.trans h.sp, ?_, fun t => (h'.total t).trans (h.total t),
    fun t => ?_, ?_⟩
  · rw [h'.zoneDescs, h.zoneDescs, Function.update_idem]
  · have h₁ := h.acquired t
    have h₂ := h'.acquired t
    rw [h.zoneDescs, Function.update_self] at h₂
    split at h₁ <;> split at h₂ <;> simp_all <;> omega
  · have := h'.le
    rwa [h.total] at this

/-! ## The books -/

/-- The counters of active and open zones are exact, that of random write areas counts at least
these, and an empty zone has none. -/
structure Booked (z : ZnsFtl) : Prop where
  nrZones_lt : z.zp.nrZones < 2 ^ 32
  total : ∀ t, z.total t = z.zp.nrZones
  active : z.acquired .active = z.count .active
  opened : z.acquired .opened = z.count .opened
  zrwa_ge : z.count .zrwa ≤ z.acquired .zrwa
  zrwa_le : z.acquired .zrwa ≤ z.zp.nrZones
  empty : ∀ i < z.zp.nrZones, (z.zoneDescs i).state = .empty → (z.zoneDescs i).zrwav = false

theorem Booked.count_le (h : z.Booked) (t : ZoneResource) : z.count t ≤ z.acquired t := by
  cases t with
  | active => exact h.active.ge
  | opened => exact h.opened.ge
  | zrwa => exact h.zrwa_ge

theorem Booked.acquired_le (h : z.Booked) (t : ZoneResource) : z.acquired t ≤ z.zp.nrZones := by
  cases t with
  | active => exact h.active.trans_le (tally_le ..)
  | opened => exact h.opened.trans_le (tally_le ..)
  | zrwa => exact h.zrwa_le

/-- What a zone holds is counted. -/
theorem Booked.pos (h : z.Booked) (hz : zid < z.zp.nrZones)
    (ht : (z.zoneDescs zid).holds t = true) : 0 < z.acquired t :=
  lt_of_lt_of_le (@tally_pos _ _ _ _ (fun i => (z.zoneDescs i).holds t) _ hz ht) (h.count_le t)

theorem u32Sub_one {n : Nat} (hpos : 0 < n) (hlt : n < 2 ^ 32) : u32Sub n 1 = n - 1 := by
  unfold u32Sub
  omega

/-- Releasing what a zone holds takes one off the counter. -/
theorem Booked.u32Sub_acquired (h : z.Booked) (hz : zid < z.zp.nrZones)
    (ht : (z.zoneDescs zid).holds t = true) : u32Sub (z.acquired t) 1 + 1 = z.acquired t := by
  have hpos := h.pos hz ht
  rw [u32Sub_one hpos ((h.acquired_le t).trans_lt h.nrZones_lt)]
  omega

/-- A zone that does not hold a resource leaves room for one more. -/
theorem Booked.count_lt (hz : zid < z.zp.nrZones) (ht : (z.zoneDescs zid).holds t = false) :
    z.count t < z.zp.nrZones := by
  apply tally_lt hz
  rw [ht]
  decide

/-- The count after a change of one zone. -/
theorem Moved.count {leak : Nat} (h : z.Moved z' zid d' leak) (hz : zid < z.zp.nrZones)
    (t : ZoneResource) : z'.count t + ((z.zoneDescs zid).holds t).toNat =
      z.count t + (d'.holds t).toNat := by
  have hupd : (fun i => (z'.zoneDescs i).holds t) =
      Function.update (fun i => (z.zoneDescs i).holds t) zid (d'.holds t) := by
    ext i : 1
    rw [h.zoneDescs]
    by_cases hi : i = zid
    · subst hi
      simp
    · simp [hi]
  have htoNat : ∀ b : Bool, b.toNat = if b = true then 1 else 0 := by simp
  rw [ZnsFtl.count, ZnsFtl.count, hupd, h.zp, htoNat, htoNat]
  exact tally_update (fun i => (z.zoneDescs i).holds t) _ _ hz

/-- The books are kept by every change. -/
theorem Booked.moved {leak : Nat} (h : z.Booked) (hz : zid < z.zp.nrZones)
    (hm : z.Moved z' zid d' leak) (hd : d'.state = .empty → d'.zrwav = false) : z'.Booked := by
  have hcount := hm.count hz
  have hacq := hm.acquired
  refine ⟨by rw [hm.zp]; exact h.nrZones_lt, fun t => ?_, ?_, ?_, ?_, ?_, fun i hi hs => ?_⟩
  · rw [hm.total, hm.zp]
    exact h.total t
  · have h₁ := hcount .active
    have h₂ := hacq .active
    have h₃ := h.active
    simp only [reduceCtorEq, if_false] at h₂
    omega
  · have h₁ := hcount .opened
    have h₂ := hacq .opened
    have h₃ := h.opened
    simp only [reduceCtorEq, if_false] at h₂
    omega
  · have h₁ := hcount .zrwa
    have h₂ := hacq .zrwa
    have h₃ := h.zrwa_ge
    simp only [if_true] at h₂
    omega
  · rw [hm.zp, ← h.total .zrwa]
    exact hm.le
  · rw [hm.zoneDescs] at hs ⊢
    rw [hm.zp] at hi
    by_cases hiz : i = zid
    · subst hiz
      rw [Function.update_self] at hs ⊢
      exact hd hs
    · rw [Function.update_of_ne hiz] at hs ⊢
      exact h.empty i hi hs

theorem SameZones.booked (hs : z.SameZones z') (h : z.Booked) : z'.Booked := by
  have hacq : ∀ t, z'.acquired t = z.acquired t := fun t => by
    rw [ZnsFtl.acquired, hs.resInfos, ZnsFtl.acquired]
  have hcount : ∀ t, z'.count t = z.count t := fun t => by
    rw [ZnsFtl.count, hs.zoneDescs, hs.zp, ZnsFtl.count]
  refine ⟨by rw [hs.zp]; exact h.nrZones_lt, fun t => ?_, ?_, ?_, ?_, ?_, ?_⟩
  · rw [ZnsFtl.total, hs.resInfos, hs.zp]
    exact h.total t
  · rw [hacq, hcount]
    exact h.active
  · rw [hacq, hcount]
    exact h.opened
  · rw [hacq, hcount]
    exact h.zrwa_ge
  · rw [hacq, hs.zp]
    exact h.zrwa_le
  · rw [hs.zp, hs.zoneDescs]
    exact h.empty

end ZnsFtl

end NvmeVirt
