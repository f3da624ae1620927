import NvmeVirt.Zns.Zones

/-!
# The zone management operations

One lemma for each operation: a rejected operation leaves every zone alone, and an accepted one
changes the descriptor of its zone in one of the ways listed here.
-/

namespace NvmeVirt

open Checked

namespace ZnsFtl

variable {z z' z'' : ZnsFtl} {zid : Nat} {d d' : ZoneDescriptor} {t u : ZoneResource}

/-- The first block behind a zone, as `__increase_write_ptr` computes it. -/
def zoneStop (z : ZnsFtl) (zid : Nat) : Nat :=
  u64 (z.zoneToSlba zid + (z.zoneDescs zid).zoneCapacity)

/-- The state of a zone whose write pointer has come to `wp`. -/
def stateAt (z : ZnsFtl) (zid wp : Nat) (s : ZoneState) : ZoneState :=
  if wp = z.zoneStop zid then .full else s

/-- What a zone is changed by: an action for a block address, or a write. -/
inductive Cause
  | send (slba : Nat) (action : ZoneSendAction) (option : Bool)
  | write (c : RwCommand)

/-- The new descriptors of a zone, each with what it takes; a random write area that is not
released counts as a leak. -/
inductive Change (z : ZnsFtl) (zid : Nat) : Cause → ZoneDescriptor → Nat → Prop
  | close {slba : Nat} {b : Bool} (hs : (z.zoneDescs zid).state.isOpen = true) :
    Change z zid (.send slba .close b) { z.zoneDescs zid with state := .closed } 0
  | finish {slba : Nat} {b : Bool}
    (hs : (z.zoneDescs zid).state.isActive = true ∨ (z.zoneDescs zid).state = .empty) :
    Change z zid (.send slba .finish b) { z.zoneDescs zid with state := .full } 0
  | openActive {slba : Nat} {b : Bool} (hs : (z.zoneDescs zid).state.isActive = true) :
    Change z zid (.send slba .open b) { z.zoneDescs zid with state := .openedExpl } 0
  | openEmpty {slba : Nat} {b : Bool} (hzid : zid = z.lbaToZone slba)
    (hs : (z.zoneDescs zid).state = .empty) (hroom : b = true → z.isZoneResourceFull .zrwa = false) :
    Change z zid (.send slba .open b)
      { z.zoneDescs zid with state := .openedExpl, zrwav := b } 0
  | reset {slba : Nat} {b : Bool} : Change z zid (.send slba .reset b)
      { z.zoneDescs zid with
        state := .empty
        wp := (z.zoneDescs zid).zslba
        zrwav := false } 0
  | offline {slba : Nat} {b : Bool} (hs : (z.zoneDescs zid).state = .readOnly) :
    Change z zid (.send slba .offline b) { z.zoneDescs zid with state := .offline } 0
  | flush {slba : Nat} {b : Bool} (hs : (z.zoneDescs zid).state.isActive = true)
    (hv : (z.zoneDescs zid).zrwav = true) (hzid : zid = z.lbaToZone slba)
    (hwp : (z.zoneDescs zid).wp ≤ slba) (hend : slba ≤ z.zrwaEnd zid) :
    Change z zid (.send slba .flushExplZrwa b)
      { z.zoneDescs zid with
        wp := u64 (slba + 1)
        state := z.stateAt zid (u64 (slba + 1)) (z.zoneDescs zid).state } 0
  | openImpl {c : RwCommand} (hs : (z.zoneDescs zid).state = .closed)
    (hv : (z.zoneDescs zid).zrwav = true) :
    Change z zid (.write c) { z.zoneDescs zid with state := .openedImpl } 0
  | write (c : RwCommand) (s : ZoneState) (hs : s.isOpen = true)
    (hact : (z.zoneDescs zid).state.isActive = true ∨
      ((z.zoneDescs zid).state = .empty ∧ (z.zoneDescs zid).wp = (z.zoneDescs zid).zslba))
    (hv : (z.zoneDescs zid).zrwav = false)
    (hb : z.checkBoundaryError (z.zoneDescs zid).wp c.nrLba = true)
    (hzid : zid = z.lbaToZone c.slba) : Change z zid (.write c)
      { z.zoneDescs zid with
        wp := u64 ((z.zoneDescs zid).wp + u32 c.nrLba)
        state := z.stateAt zid (u64 ((z.zoneDescs zid).wp + u32 c.nrLba)) s } 0
  | zrwaWrite (c : RwCommand) (n : Nat) (s : ZoneState) (hs : s.isOpen = true)
    (hact : (z.zoneDescs zid).state.isActive = true) (hv : (z.zoneDescs zid).zrwav = true)
    (hzid : zid = z.lbaToZone c.slba) (hc : z.zrwaCheck zid c.slba c.nrLba = .success)
    (hn : z.zrwaFlush zid (u64 (c.slba + c.nrLba - 1)) = .ok n) (hpos : 0 < n) :
    Change z zid (.write c)
      { z.zoneDescs zid with
        wp := u64 ((z.zoneDescs zid).wp + u32 n)
        state := z.stateAt zid (u64 ((z.zoneDescs zid).wp + u32 n)) s }
      (if u64 ((z.zoneDescs zid).wp + u32 n) = z.zoneStop zid then 1 else 0)

/-- What an operation on the zone `zid` does. -/
inductive Effect (z z' : ZnsFtl) (zid : Nat) (cause : Cause) : Prop
  | same (h : z.SameZones z')
  | moved {d' : ZoneDescriptor} {leak : Nat} (hc : z.Change zid cause d' leak)
    (hm : z.Moved z' zid d' leak)

/-- An operation that fails leaves the zones alone. -/
structure Spec (z : ZnsFtl) (zid : Nat) (cause : Cause) (r : ZnsStatus × ZnsFtl) : Prop where
  failed : r.1 ≠ .success → z.SameZones r.2
  effect : z.Effect r.2 zid cause

variable {cause : Cause}

theorem Spec.same (s : ZnsStatus) (h : z.SameZones z') : z.Spec zid cause (s, z') :=
  ⟨fun _ => h, .same h⟩

theorem Spec.moved {leak : Nat} (hc : z.Change zid cause d' leak) (hm : z.Moved z' zid d' leak) :
    z.Spec zid cause (.success, z') :=
  ⟨fun h => absurd rfl h, .moved hc hm⟩

/-! ## Releasing and acquiring -/

/-- A state that is neither open nor closed holds nothing. -/
theorem holds_of_idle (h : d.state.isActive = false) (t : ZoneResource) : d.holds t = false := by
  cases hs : d.state <;> cases t <;> simp_all [ZoneDescriptor.holds, ZoneState.isActive,
    ZoneState.isOpen]

/-- Everything that a zone with the descriptor `d` holds has been released. -/
structure Released (z z' : ZnsFtl) (d : ZoneDescriptor) : Prop where
  zp : z'.zp = z.zp
  ssd : z'.ssd = z.ssd
  zoneDescs : z'.zoneDescs = z.zoneDescs
  total : ∀ t, z'.total t = z.total t
  acquired : ∀ t, z'.acquired t + (d.holds t).toNat = z.acquired t

theorem releaseActive_fields (b : Bool) : (z.releaseActive b).zp = z.zp ∧
    (z.releaseActive b).ssd = z.ssd ∧ (z.releaseActive b).zoneDescs = z.zoneDescs ∧
    ∀ t, (z.releaseActive b).total t = z.total t := by
  cases b <;> simp [releaseActive]

theorem releaseActive_acquired (b : Bool) : (z.releaseActive b).acquired t =
    if t = .active ∨ (t = .zrwa ∧ b = true) then u32Sub (z.acquired t) 1 else z.acquired t := by
  cases b <;> cases t <;> simp [releaseActive]

theorem Booked.released_closed (h : z.Booked) (hz : zid < z.zp.nrZones)
    (hs : (z.zoneDescs zid).state = .closed) :
    z.Released (z.releaseActive (z.zoneDescs zid).zrwav) (z.zoneDescs zid) := by
  obtain ⟨hzp, hssd, hdescs, htotal⟩ := @releaseActive_fields z (z.zoneDescs zid).zrwav
  refine ⟨hzp, hssd, hdescs, htotal, fun t => ?_⟩
  have hheld := @Booked.u32Sub_acquired z zid t h hz
  rw [releaseActive_acquired]
  cases hv : (z.zoneDescs zid).zrwav <;> cases t <;>
    simp_all [ZoneDescriptor.holds, ZoneState.isActive, ZoneState.isOpen]

theorem Booked.released_open (h : z.Booked) (hz : zid < z.zp.nrZones)
    (hs : (z.zoneDescs zid).state.isOpen = true) :
    z.Released ((z.releaseZoneResource .opened).releaseActive (z.zoneDescs zid).zrwav)
      (z.zoneDescs zid) := by
  obtain ⟨hzp, hssd, hdescs, htotal⟩ :=
    @releaseActive_fields (z.releaseZoneResource .opened) (z.zoneDescs zid).zrwav
  refine ⟨hzp, hssd, hdescs, fun t => ?_, fun t => ?_⟩
  · rw [htotal, release_total]
  · have hheld := @Booked.u32Sub_acquired z zid t h hz
    rw [releaseActive_acquired, release_acquired]
    cases hstate : (z.zoneDescs zid).state <;> cases hv : (z.zoneDescs zid).zrwav <;> cases t <;>
      simp_all [ZoneDescriptor.holds, ZoneState.isActive, ZoneState.isOpen]

/-- A zone that gives everything back and takes a descriptor that holds nothing. -/
theorem Released.moved (h : z.Released z' (z.zoneDescs zid)) (hb : z.Booked)
    (hidle : d'.state.isActive = false) : z.Moved (z'.setZone zid d') zid d' 0 := by
  refine ⟨h.zp, congrArg Ssd.sp h.ssd, ?_, h.total, fun t => ?_, ?_⟩
  · rw [setZone_zoneDescs, h.zoneDescs]
  · rw [holds_of_idle hidle, setZone_acquired]
    simpa using h.acquired t
  · have hacq := h.acquired .zrwa
    have hle := hb.zrwa_le
    rw [setZone_acquired, hb.total]
    omega

/-- A change that touches no counter. -/
theorem Booked.moved_setZone (hb : z.Booked)
    (hd : ∀ t, d'.holds t = (z.zoneDescs zid).holds t) : z.Moved (z.setZone zid d') zid d' 0 := by
  refine ⟨rfl, rfl, rfl, fun _ => rfl, fun t => ?_, ?_⟩
  · rw [hd, setZone_acquired]
    simp
  · rw [setZone_acquired, hb.total]
    exact hb.zrwa_le

/-- Acquiring succeeds when a zone does not hold the resource and the counter is exact. -/
theorem acquire_of_lt (h : z.acquired t < z.total t) :
    z.acquireZoneResource t = (true, z.setAcquired t (z.acquired t + 1)) := by
  rw [acquireZoneResource, if_pos]
  · rfl
  · exact decide_eq_true h

theorem isZoneResourceFull_iff : z.isZoneResourceFull t = true ↔ z.acquired t = z.total t := by
  rw [isZoneResourceFull, decide_eq_true_iff]
  rfl

theorem Booked.acquired_lt (h : z.Booked) (hz : zid < z.zp.nrZones) (ht : t ≠ .zrwa)
    (hheld : (z.zoneDescs zid).holds t = false) : z.acquired t < z.total t := by
  rw [h.total]
  have hlt := Booked.count_lt hz hheld
  cases t with
  | active => rwa [h.active]
  | opened => rwa [h.opened]
  | zrwa => exact absurd rfl ht

/-! ## The operations -/

theorem Booked.closeZone (h : z.Booked) (hz : zid < z.zp.nrZones) (slba : Nat) (b : Bool) :
    z.Spec zid (.send slba .close b) (z.closeZone zid) := by
  have hmoved : (z.zoneDescs zid).state.isOpen = true →
      z.Moved ((z.changeZoneState zid .closed).releaseZoneResource .opened) zid
        { z.zoneDescs zid with state := .closed } 0 := by
    intro hs
    refine ⟨rfl, rfl, rfl, fun t => ?_, fun t => ?_, ?_⟩
    · rw [release_total, changeZoneState_total]
    · have hheld := @Booked.u32Sub_acquired z zid t h hz
      cases hstate : (z.zoneDescs zid).state <;> cases t <;>
        simp_all [ZoneDescriptor.holds, ZoneState.isActive, ZoneState.isOpen]
    · rw [release_acquired, if_neg (by simp), changeZoneState_acquired, h.total]
      exact h.zrwa_le
  unfold ZnsFtl.closeZone
  split
  · next hs => exact .moved (.close (by rw [hs]; rfl)) (hmoved (by rw [hs]; rfl))
  · next hs => exact .moved (.close (by rw [hs]; rfl)) (hmoved (by rw [hs]; rfl))
  · exact .same _ (.refl z)
  · exact .same _ (.refl z)

theorem Booked.finishZone (h : z.Booked) (hz : zid < z.zp.nrZones) (slba : Nat) (b : Bool) :
    z.Spec zid (.send slba .finish b) (z.finishZone zid) := by
  have hopen : (z.zoneDescs zid).state.isOpen = true →
      z.Spec zid (.send slba .finish b) (.success, ((z.releaseZoneResource .opened).releaseActive
        (z.zoneDescs zid).zrwav).changeZoneState zid .full) := by
    intro hs
    have hrel := h.released_open hz hs
    have hact : (z.zoneDescs zid).state.isActive = true := by
      cases hstate : (z.zoneDescs zid).state <;> simp_all [ZoneState.isActive, ZoneState.isOpen]
    refine .moved (.finish (Or.inl hact)) ?_
    rw [changeZoneState, hrel.zoneDescs]
    exact hrel.moved h rfl
  unfold ZnsFtl.finishZone
  dsimp only
  split
  · next hs => exact hopen (by rw [hs]; rfl)
  · next hs => exact hopen (by rw [hs]; rfl)
  · next hs =>
    have hrel := h.released_closed hz hs
    refine .moved (.finish (Or.inl (by rw [hs]; rfl))) ?_
    rw [changeZoneState, hrel.zoneDescs]
    exact hrel.moved h rfl
  · next hs =>
    refine .moved (.finish (Or.inr hs)) (h.moved_setZone fun t => ?_)
    rw [holds_of_idle (by rfl), holds_of_idle (by rw [hs]; rfl)]
  · exact .same _ (.refl z)
  · exact .same _ (.refl z)

theorem Booked.offlineZone (h : z.Booked) (slba : Nat) (b : Bool) :
    z.Spec zid (.send slba .offline b) (z.offlineZone zid) := by
  unfold ZnsFtl.offlineZone
  split
  · next hs =>
    refine .moved (.offline hs) (h.moved_setZone fun t => ?_)
    rw [holds_of_idle (by rfl), holds_of_idle (by rw [hs]; rfl)]
  · exact .same _ (.refl z)
  · exact .same _ (.refl z)

/-- The end of opening a zone, once its descriptor is `d` and it holds everything else. -/
theorem Booked.openClosedZone {leak : Nat} {b : Bool} (h : z.Booked) (hz : zid < z.zp.nrZones)
    (hheld : (z.zoneDescs zid).holds .opened = false)
    (hzp : z'.zp = z.zp) (hssd : z'.ssd = z.ssd) (htotal : ∀ t, z'.total t = z.total t)
    (hdescs : z'.zoneDescs = Function.update z.zoneDescs zid { z.zoneDescs zid with zrwav := b })
    (hactive : z'.acquired .active + ((z.zoneDescs zid).holds .active).toNat =
      z.acquired .active + 1)
    (hopened : z'.acquired .opened = z.acquired .opened)
    (hzrwa : z'.acquired .zrwa + ((z.zoneDescs zid).holds .zrwa).toNat =
      z.acquired .zrwa + b.toNat + leak)
    (hle : z'.acquired .zrwa ≤ z.total .zrwa) :
    ∃ z'', z'.openClosedZone zid = (.success, z'') ∧
      z.Moved z'' zid { z.zoneDescs zid with state := .openedExpl, zrwav := b } leak := by
  have hroom : z'.acquired .opened < z'.total .opened := by
    rw [hopened, htotal]
    exact h.acquired_lt hz (by simp) hheld
  refine ⟨(z'.setAcquired .opened (z'.acquired .opened + 1)).changeZoneState zid .openedExpl, ?_,
    hzp, congrArg Ssd.sp hssd, ?_, fun t => ?_, fun t => ?_, ?_⟩
  · rw [ZnsFtl.openClosedZone, acquire_of_lt hroom]
  · rw [changeZoneState_zoneDescs, setAcquired_zoneDescs, hdescs, Function.update_self,
      Function.update_idem]
  · rw [changeZoneState_total, setAcquired_total, htotal]
  · cases t with
    | active => simpa [ZoneDescriptor.holds, ZoneState.isActive] using hactive
    | opened =>
      rw [hheld]
      simp [ZoneDescriptor.holds, ZoneState.isOpen, hopened]
    | zrwa => simpa [ZoneDescriptor.holds, ZoneState.isActive] using hzrwa
  · rw [changeZoneState_acquired, setAcquired_acquired, if_neg (by simp)]
    exact hle

theorem Booked.openZone (h : z.Booked) (hz : zid < z.zp.nrZones) {slba : Nat}
    (hzid : zid = z.lbaToZone slba) (zrwa : Bool) :
    z.Spec zid (.send slba .open zrwa) (z.openZone zid zrwa) := by
  unfold ZnsFtl.openZone
  dsimp only
  split
  · next hs =>
    have hv := h.empty zid hz hs
    have hidle := @holds_of_idle (z.zoneDescs zid) (by rw [hs]; rfl)
    have hact := acquire_of_lt (h.acquired_lt hz (t := .active) (by simp) (hidle _))
    by_cases hfullA : z.isZoneResourceFull .active = true
    · rw [if_pos hfullA]
      exact .same _ (.refl z)
    rw [if_neg hfullA]
    by_cases hfullO : z.isZoneResourceFull .opened = true
    · rw [if_pos hfullO]
      exact .same _ (.refl z)
    rw [if_neg hfullO]
    cases zrwa with
    | false =>
      have hself : z.zoneDescs = Function.update z.zoneDescs zid
          { z.zoneDescs zid with zrwav := false } := by
        rw [← hv, Function.update_eq_self]
      obtain ⟨z'', hrun, hm⟩ := @Booked.openClosedZone z
        (z.setAcquired .active (z.acquired .active + 1)) zid 0 false h hz (hidle _) rfl rfl
        (fun t => setAcquired_total) (by rw [setAcquired_zoneDescs]; exact hself)
        (by simp [hidle]) (by simp) (by simp [hidle]) (by simp [h.total, h.zrwa_le])
      rw [if_neg (by simp), hact, hrun]
      exact .moved (.openEmpty hzid hs fun h => absurd h (by simp)) hm
    | true =>
      rw [if_pos rfl]
      by_cases hfullZ : z.isZoneResourceFull .zrwa = true
      · rw [if_pos hfullZ]
        exact .same _ (.refl z)
      rw [if_neg hfullZ]
      have hlt : z.acquired .zrwa < z.total .zrwa := by
        have hne := mt isZoneResourceFull_iff.mpr hfullZ
        have hle := h.zrwa_le
        rw [h.total] at hne ⊢
        omega
      let z₁ := (z.setAcquired .zrwa (z.acquired .zrwa + 1)).setZone zid
        { z.zoneDescs zid with zrwav := true }
      have hact₁ : z₁.acquireZoneResource .active =
          (true, z₁.setAcquired .active (z.acquired .active + 1)) := by
        have hlt₁ : z₁.acquired .active < z₁.total .active := by
          simpa [z₁] using h.acquired_lt hz (t := .active) (by simp) (hidle _)
        rw [acquire_of_lt hlt₁]
        simp [z₁]
      obtain ⟨z'', hrun, hm⟩ := @Booked.openClosedZone z
        (z₁.setAcquired .active (z.acquired .active + 1)) zid 0 true h hz (hidle _) rfl rfl
        (fun t => by simp [z₁]) rfl (by simp [hidle]) (by simp [z₁]) (by simp [z₁, hidle])
        (by simpa [z₁] using Nat.succ_le_of_lt hlt)
      rw [acquire_of_lt hlt, hact₁, hrun]
      exact .moved (.openEmpty hzid hs fun _ => Bool.eq_false_of_not_eq_true hfullZ) hm
  · next hs =>
    have hself : z.zoneDescs = Function.update z.zoneDescs zid
        { z.zoneDescs zid with zrwav := (z.zoneDescs zid).zrwav } := (Function.update_eq_self ..).symm
    have hopen : (z.zoneDescs zid).holds .opened = false := by
      simp [ZoneDescriptor.holds, hs, ZoneState.isOpen]
    obtain ⟨z'', hrun, hm⟩ := @Booked.openClosedZone z z zid 0 _ h hz hopen rfl rfl (fun _ => rfl)
      hself (by simp [ZoneDescriptor.holds, hs, ZoneState.isActive]) rfl
      (by simp [ZoneDescriptor.holds, hs, ZoneState.isActive]) (by rw [h.total]; exact h.zrwa_le)
    rw [hrun]
    exact .moved (.openActive (by rw [hs]; rfl)) hm
  · next hs =>
    refine .moved (.openActive (by rw [hs]; rfl)) (h.moved_setZone fun t => ?_)
    cases t <;> simp [ZoneDescriptor.holds, hs, ZoneState.isActive, ZoneState.isOpen]
  · exact .same _ (.refl z)
  · exact .same _ (.refl z)

/-- Clearing a zone touches no counter. -/
theorem clearZone_moved {z₁ : ZnsFtl} (hm : z.Moved (z₁.setZone zid d') zid d' 0)
    (hempty : d'.state = .empty) :
    z.Moved ((z₁.setZone zid d').clearZone zid) zid { d' with wp := d'.zslba, zrwav := false } 0 := by
  have hzp : ((z₁.setZone zid d').clearZone zid).zp = (z₁.setZone zid d').zp := by
    unfold clearZone
    dsimp only
    split <;> rfl
  have hssd : ((z₁.setZone zid d').clearZone zid).ssd = (z₁.setZone zid d').ssd := by
    unfold clearZone
    dsimp only
    split <;> rfl
  have hres : ((z₁.setZone zid d').clearZone zid).resInfos = (z₁.setZone zid d').resInfos := by
    unfold clearZone
    dsimp only
    split <;> rfl
  have hacq : ∀ t, ((z₁.setZone zid d').clearZone zid).acquired t =
      (z₁.setZone zid d').acquired t := fun t => by rw [ZnsFtl.acquired, hres, ZnsFtl.acquired]
  refine ⟨hzp.trans hm.zp, (congrArg Ssd.sp hssd).trans hm.sp, ?_, fun t => ?_, fun t => ?_, ?_⟩
  · have hdescs : ((z₁.setZone zid d').clearZone zid).zoneDescs = Function.update
        (z₁.setZone zid d').zoneDescs zid { d' with wp := d'.zslba, zrwav := false } := by
      unfold clearZone
      dsimp only
      split <;> simp [refill, setBuffer]
    rw [hdescs, hm.zoneDescs, Function.update_idem]
  · rw [ZnsFtl.total, hres]
    exact hm.total t
  · have hidle := @holds_of_idle d' (by rw [hempty]; rfl) t
    have hidle' := @holds_of_idle { d' with wp := d'.zslba, zrwav := false }
      (by rw [hempty]; rfl) t
    have := hm.acquired t
    rw [hidle] at this
    rw [hacq, hidle']
    exact this
  · rw [hacq]
    exact hm.le

theorem Booked.resetZone (h : z.Booked) (hz : zid < z.zp.nrZones) (slba : Nat) (b : Bool) :
    z.Spec zid (.send slba .reset b) (z.resetZone zid) := by
  have hclear : ∀ z₁ : ZnsFtl, z.Released z₁ (z.zoneDescs zid) →
      z.Spec zid (.send slba .reset b)
        (.success, (z₁.changeZoneState zid .empty).clearZone zid) := by
    intro z₁ hrel
    refine .moved .reset ?_
    rw [changeZoneState, hrel.zoneDescs]
    exact clearZone_moved (hrel.moved h rfl) rfl
  have hsame : (z.zoneDescs zid).state.isActive = false → z.Released z (z.zoneDescs zid) := by
    intro hs
    refine ⟨rfl, rfl, rfl, fun _ => rfl, fun t => ?_⟩
    rw [holds_of_idle hs]
    rfl
  unfold ZnsFtl.resetZone
  dsimp only
  split
  · next hs => exact hclear _ (h.released_open hz (by rw [hs]; rfl))
  · next hs => exact hclear _ (h.released_open hz (by rw [hs]; rfl))
  · next hs => exact hclear _ (h.released_closed hz hs)
  · next hs => exact hclear _ (hsame (by rw [hs]; rfl))
  · next hs => exact hclear _ (hsame (by rw [hs]; rfl))
  · exact .same _ (.refl z)

theorem changeZoneState_setZone {s : ZoneState} : (z.setZone zid d).changeZoneState zid s =
    z.setZone zid { d with state := s } := by
  simp [changeZoneState, setZone]

theorem Booked.flushTo (h : z.Booked) (hz : zid < z.zp.nrZones) {slba : Nat}
    (hv : (z.zoneDescs zid).zrwav = true) (hzid : zid = z.lbaToZone slba)
    (hwp : (z.zoneDescs zid).wp ≤ slba) (hend : slba ≤ z.zrwaEnd zid) (b : Bool) :
    z.Spec zid (.send slba .flushExplZrwa b) (z.flushTo zid (u64 (slba + 1))) := by
  have hchange : (z.zoneDescs zid).state.isActive = true → ∀ z₁, z.Released z₁ (z.zoneDescs zid) →
      z.Spec zid (.send slba .flushExplZrwa b) (if u64 (slba + 1) = z.zoneStop zid then
        (.success, (z₁.setZone zid { z.zoneDescs zid with wp := u64 (slba + 1) }).changeZoneState
          zid .full)
      else (.success, z.setZone zid { z.zoneDescs zid with wp := u64 (slba + 1) })) := by
    intro hact z₁ hrel
    have hc := @Change.flush z zid slba b hact hv hzid hwp hend
    unfold stateAt at hc
    by_cases hfull : u64 (slba + 1) = z.zoneStop zid
    · rw [if_pos hfull, changeZoneState_setZone]
      rw [if_pos hfull] at hc
      exact .moved hc (hrel.moved h rfl)
    · rw [if_neg hfull]
      rw [if_neg hfull] at hc
      exact .moved hc (h.moved_setZone fun t => by cases t <;> rfl)
  unfold ZnsFtl.flushTo
  dsimp only
  split
  · next hs =>
    have hrel := h.released_open hz (by rw [hs]; rfl)
    rw [hv] at hrel
    have hne : (z.zoneDescs zid).state ≠ .closed := by
      rw [hs]
      decide
    rw [if_pos hne]
    exact hchange (by rw [hs]; rfl) _ hrel
  · next hs =>
    have hrel := h.released_open hz (by rw [hs]; rfl)
    rw [hv] at hrel
    have hne : (z.zoneDescs zid).state ≠ .closed := by
      rw [hs]
      decide
    rw [if_pos hne]
    exact hchange (by rw [hs]; rfl) _ hrel
  · next hs =>
    have hrel := h.released_closed hz hs
    rw [hv] at hrel
    rw [if_neg (not_not.mpr hs)]
    exact hchange (by rw [hs]; rfl) _ hrel
  · exact .same _ (.refl z)

/-- What `getZone` gives. -/
theorem getZone_eq_ok : z.getZone zid = .ok d ↔ zid < z.zp.nrZones ∧ d = z.zoneDescs zid := by
  rw [getZone, bind_eq_ok]
  constructor
  · rintro ⟨_, hz, hd⟩
    cases hd
    exact ⟨require_eq_ok.mp hz, rfl⟩
  · rintro ⟨hz, rfl⟩
    exact ⟨(), require_pos hz, rfl⟩

theorem Booked.flushExplicitZrwa (h : z.Booked) {slba : Nat} {r : ZnsStatus × ZnsFtl}
    (hr : z.flushExplicitZrwa slba = .ok r) (b : Bool) : z.lbaToZone slba < z.zp.nrZones ∧
      z.Spec (z.lbaToZone slba) (.send slba .flushExplZrwa b) r := by
  rw [ZnsFtl.flushExplicitZrwa] at hr
  simp only [bind_eq_ok, getZone_eq_ok] at hr
  obtain ⟨d, ⟨hz, rfl⟩, hr⟩ := hr
  refine ⟨hz, ?_⟩
  split at hr
  · cases hr
    exact .same _ (.refl z)
  · next hv =>
    split at hr
    · cases hr
      exact .same _ (.refl z)
    · next hrange =>
      obtain ⟨hwp, hend⟩ := not_not.mp hrange
      obtain ⟨_, -, hr⟩ := bind_eq_ok.mp hr
      split at hr
      · cases hr
        exact .same _ (.refl z)
      · cases hr
        exact h.flushTo hz (Bool.eq_true_of_not_eq_false hv) rfl hwp hend b

/-- An action on a zone fails and leaves the zones alone, or changes its zone; an action without a
branch does nothing. -/
theorem Booked.zmgmtSend (h : z.Booked) {slba : Nat} {action : ZoneSendAction} {option : Bool}
    {status : Option ZnsStatus} (hr : z.zmgmtSend slba action option = .ok (status, z')) :
    z.SameZones z' ∨ ∃ s, status = some s ∧ z.lbaToZone slba < z.zp.nrZones ∧
      z.Spec (z.lbaToZone slba) (.send slba action option) (s, z') := by
  have hzone : ∀ {r : Nat → ZnsStatus × ZnsFtl} {zid : Nat} {cause : Cause},
      (do
        let _ ← z.getZone zid
        return (some (r zid).1, (r zid).2) : Except ZnsFault (Option ZnsStatus × ZnsFtl)) =
          .ok (status, z') →
      (zid < z.zp.nrZones → z.Spec zid cause (r zid)) →
      z.SameZones z' ∨ ∃ s, status = some s ∧ zid < z.zp.nrZones ∧ z.Spec zid cause (s, z') := by
    intro r zid cause hr hspec
    simp only [bind_eq_ok, getZone_eq_ok] at hr
    obtain ⟨_, ⟨hz, -⟩, hr⟩ := hr
    cases hr
    exact Or.inr ⟨_, rfl, hz, hspec hz⟩
  unfold ZnsFtl.zmgmtSend at hr
  cases action with
  | other =>
    cases hr
    exact Or.inl (.refl z)
  | flushExplZrwa =>
    obtain ⟨r, hflush, hr⟩ := bind_eq_ok.mp hr
    cases hr
    obtain ⟨hz, hspec⟩ := h.flushExplicitZrwa hflush option
    exact Or.inr ⟨r.1, rfl, hz, hspec⟩
  | close =>
    exact hzone (r := fun zid => z.closeZone zid) hr fun hz => h.closeZone hz slba option
  | finish =>
    exact hzone (r := fun zid => z.finishZone zid) hr fun hz => h.finishZone hz slba option
  | «open» =>
    exact hzone (r := fun zid => z.openZone zid option) hr fun hz => h.openZone hz rfl option
  | reset =>
    exact hzone (r := fun zid => z.resetZone zid) hr fun hz => h.resetZone hz slba option
  | offline =>
    exact hzone (r := fun zid => z.offlineZone zid) hr fun _ => h.offlineZone slba option

end ZnsFtl

end NvmeVirt
