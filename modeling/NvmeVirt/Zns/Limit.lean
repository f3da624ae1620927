import NvmeVirt.Zns.Accounting
import NvmeVirt.Zns.Faults

/-!
# The limit on random write areas

The namespace advertises `nr_zrwa_zones`, but the counter that opening a zone looks at is as large
as the number of zones. While every zone that is opened with a random write area finds room within
the advertised limit, the limit holds, and nothing divides by a flush granularity of 0.
-/

namespace NvmeVirt

open Checked

namespace ZnsFtl

variable {z z' : ZnsFtl} {zid : Nat} {d' : ZoneDescriptor}

/-- An empty zone is opened with a random write area only while fewer zones than advertised have
one. -/
def WithinLimit (z : ZnsFtl) : Cause → Prop
  | .send slba .open true =>
    (z.zoneDescs (z.lbaToZone slba)).state = .empty → z.isZoneResourceFull .zrwa = false →
      z.count .zrwa < z.zp.nrZrwaZones
  | _ => True

/-- The limit holds, and without a flush granularity no zone has a random write area. -/
structure Limited (z : ZnsFtl) : Prop where
  booked : z.Booked
  shaped : z.Shaped
  count_le : z.count .zrwa ≤ z.zp.nrZrwaZones
  granularity : z.zp.nrZrwaZones = 0 ∨ z.zp.lbasPerZrwafg ≠ 0
  zrwav : z.zp.lbasPerZrwafg = 0 → ∀ i < z.zp.nrZones, (z.zoneDescs i).zrwav = false

/-- A change gives a zone a random write area only by opening it when it is empty. -/
theorem Change.zrwav {cause : Cause} {leak : Nat} (hc : z.Change zid cause d' leak)
    (hv : d'.zrwav = true) : (z.zoneDescs zid).zrwav = true ∨
      ∃ slba, cause = .send slba .open true ∧ zid = z.lbaToZone slba ∧
        (z.zoneDescs zid).state = .empty ∧ z.isZoneResourceFull .zrwa = false := by
  cases hc with
  | openEmpty hzid hs hroom =>
    have hv := hv
    subst hv
    exact Or.inr ⟨_, rfl, hzid, hs, hroom rfl⟩
  | reset => cases hv
  | _ => exact Or.inl hv

/-- A change acquires the resource of a random write area only in the same way. -/
theorem Change.holds_zrwa {cause : Cause} {leak : Nat} (h : z.Booked) (hz : zid < z.zp.nrZones)
    (hc : z.Change zid cause d' leak) (hd : d'.holds .zrwa = true) : (z.zoneDescs zid).holds .zrwa = true ∨
      ∃ slba, cause = .send slba .open true ∧ zid = z.lbaToZone slba ∧
        (z.zoneDescs zid).state = .empty ∧ z.isZoneResourceFull .zrwa = false := by
  have hv : d'.zrwav = true := by
    rw [ZoneDescriptor.holds, Bool.and_eq_true] at hd
    exact hd.2
  rcases hc.zrwav hv with hold | hopen
  · left
    have hactive : (z.zoneDescs zid).state.isActive = true → (z.zoneDescs zid).holds .zrwa = true :=
      fun hs => by rw [ZoneDescriptor.holds, hs, hold]; rfl
    cases hc with
    | close hs =>
      apply hactive
      cases hstate : (z.zoneDescs zid).state <;> simp_all [ZoneState.isOpen, ZoneState.isActive]
    | finish => cases hd
    | openActive hs => exact hactive hs
    | openEmpty hzid hs hroom =>
      rw [h.empty zid hz hs] at hold
      cases hold
    | reset => cases hd
    | offline => cases hd
    | flush hs => exact hactive hs
    | openImpl hs => exact hactive (by rw [hs]; rfl)
    | write c s hs hact hv' =>
      rw [hold] at hv'
      cases hv'
    | zrwaWrite c n s hs hact => exact hactive hact
  · exact Or.inr hopen

theorem limited_kept : Kept Limited WithinLimit where
  booked _ h := h.booked
  shaped _ h := h.shaped
  same z z' h hs := by
    refine ⟨hs.booked h.booked, hs.shaped h.shaped, ?_, ?_, ?_⟩
    · rw [ZnsFtl.count, hs.zoneDescs, hs.zp]
      exact h.count_le
    · rw [hs.zp]
      exact h.granularity
    · rw [hs.zp, hs.zoneDescs]
      exact h.zrwav
  change z z' zid cause d' leak h hok hz hc hm := by
    have hroom : d'.zrwav = true → (z.zoneDescs zid).zrwav = false →
        z.count .zrwa < z.zp.nrZrwaZones := by
      intro hv hold
      rcases hc.zrwav hv with hv' | ⟨slba, rfl, rfl, hs, hfull⟩
      · rw [hold] at hv'
        cases hv'
      · exact hok hs hfull
    refine ⟨h.booked.moved hz hm hc.empty, hm.shaped h.shaped, ?_, ?_, fun hg i hi => ?_⟩
    · have hcount := hm.count hz .zrwa
      have hle := h.count_le
      rw [hm.zp]
      cases hnew : d'.holds .zrwa with
      | false =>
        rw [hnew, Bool.toNat_false] at hcount
        omega
      | true =>
        rcases hc.holds_zrwa h.booked hz hnew with hold | ⟨slba, rfl, rfl, hs, hfull⟩
        · rw [hnew, hold] at hcount
          omega
        · have hlt := hok hs hfull
          rw [hnew, Bool.toNat_true] at hcount
          omega
    · rw [hm.zp]
      exact h.granularity
    · rw [hm.zp] at hg hi
      rw [hm.zoneDescs]
      by_cases hiz : i = zid
      · subst hiz
        rw [Function.update_self]
        by_contra hv
        have hlt := hroom (Bool.eq_true_of_not_eq_false hv) (h.zrwav hg i hi)
        rcases h.granularity with h0 | h0
        · omega
        · exact h0 hg
      · rw [Function.update_of_ne hiz]
        exact h.zrwav hg i hi

/-! ## Divisions -/

/-- In a state within the limit, a zone with a random write area has a flush granularity. -/
theorem Limited.not_divByZero (h : z.Limited) : ¬ z.Raises zid .divByZero := by
  rintro ⟨⟩
  next hz hv hg =>
  rw [h.zrwav hg zid hz] at hv
  cases hv

theorem Limited.no_division {α : Type} {r : Except ZnsFault α} (h : z.Limited)
    (hr : z.RaisesAt zid r) : Outcome r (fun _ => True) (· ≠ .divByZero) :=
  hr.mono (fun _ h => h) fun _ he heq => h.not_divByZero (heq ▸ he)

/-- With a flush granularity, or without zones that have a random write area, no event divides
by 0. -/
theorem Limited.no_division_step (h : z.Limited) {e : ZnsEvent} (hok : z.Meets WithinLimit e) :
    Outcome (z.step e) (fun _ => True) (· ≠ .divByZero) := by
  cases e with
  | release i => trivial
  | command req cmd =>
    refine Outcome.bind (Q := fun _ => True) ?_ fun _ _ => trivial
    cases cmd with
    | write op c =>
      exact (h.no_division (h.booked.raisesAt_znsWrite h.shaped)).bind fun _ _ => trivial
    | read c => exact (h.no_division h.shaped.raisesAt_znsRead).bind fun _ _ => trivial
    | flush => trivial
    | other => trivial
    | mgmtRecv c =>
      refine Outcome.bind (Q := fun _ => True) ?_ fun _ _ => trivial
      unfold znsZmgmtRecv
      split
      · refine Outcome.bind (Q := fun _ => True) ?_ fun _ _ => trivial
        refine Outcome.bind (Q := fun _ => True) ?_ fun _ _ => trivial
        exact outcome_require (fun _ => trivial) fun _ => ZnsFault.noConfusion
      · trivial
    | mgmtSend c =>
      refine Outcome.bind (Q := fun _ => True) ?_ fun _ _ => trivial
      unfold znsZmgmtSend
      by_cases hall : c.selectAll = true
      · rw [if_pos hall]
        have hok : Throughout _ _ _ _ := (if_pos hall).mp hok
        refine Outcome.bind (Q := fun _ => True) ?_ fun _ _ => trivial
        refine (hok.outcome Limited (fun zid _ z hz hok => ?_) h).mono (fun _ _ => trivial)
          fun _ he => he
        have hdiv : Outcome (zmgmtSendTo c.zsa c.zsaso z zid) (fun _ => True) (· ≠ .divByZero) :=
          (hz.no_division (raisesAt_zmgmtSend ..)).bind fun _ _ => trivial
        refine (hdiv.and (Outcome.of_forall_ok fun z' hr => ?_)).mono (fun _ h => h.2)
          fun _ h => h.1
        obtain ⟨⟨status, z₂⟩, hr, hret⟩ := bind_eq_ok.mp hr
        cases hret
        exact limited_kept.zmgmtSend hz hok hr
      · rw [if_neg hall]
        exact (h.no_division (raisesAt_zmgmtSend ..)).bind fun _ _ => trivial

theorem Fresh.limited {cfg : ZnsConfig} (h : z.Fresh cfg)
    (hg : u32 cfg.maxZrwaZones = 0 ∨ u32 (cfg.zrwafgSize / 512) ≠ 0) : z.Limited := by
  refine ⟨h.booked, h.shaped, ?_, ?_, fun _ i hi => ?_⟩
  · rw [h.count]
    exact Nat.zero_le _
  · rw [h.zrwaZones, h.lbasPerZrwafg]
    exact hg
  · rw [h.zoneDescs i hi]
    rfl

end ZnsFtl

/-- When no zone is opened with a random write area beyond the advertised limit, and there is a
flush granularity wherever the limit is not 0, the limit holds after every run, and no run divides
by 0. -/
theorem zrwa_limit_holds (cfg : ZnsConfig) (mem : ZnsMemory) (clock : Clock) (size : Nat)
    (events : List ZnsEvent) (z₀ : ZnsFtl) (hinit : znsInitNamespace cfg mem clock size = .ok z₀)
    (hg : u32 cfg.maxZrwaZones = 0 ∨ u32 (cfg.zrwafgSize / 512) ≠ 0)
    (hok : Throughout ZnsFtl.step (ZnsFtl.Meets ZnsFtl.WithinLimit) events z₀) :
    Outcome (events.foldlM ZnsFtl.step z₀) (fun z => z.count .zrwa ≤ z.zp.nrZrwaZones)
      (· ≠ .divByZero) := by
  have hlimited := (ZnsFtl.fresh_of_init hinit).limited hg
  refine (hok.outcome ZnsFtl.Limited (fun e _ z hz hok => ?_) hlimited).mono
    (fun z hz => hz.count_le) fun _ he => he
  refine ((hz.no_division_step hok).and (Outcome.of_forall_ok fun z' hr => ?_)).mono
    (fun _ h => h.2) fun _ h => h.1
  exact ZnsFtl.limited_kept.step hz hok hr

/-- A zone within the limit. -/
theorem zrwa_limit_holds_open : ∃ z, znsRun znsWithZrwa default default (kb 128)
    [openFirst true] = .ok z ∧ z.count .zrwa ≤ z.zp.nrZrwaZones := by
  have hrun : (znsRun znsWithZrwa default default (kb 128) [openFirst true]).map
      (fun _ => ()) = .ok () := by decide +kernel
  have hroom : (znsInitNamespace znsWithZrwa default default (kb 128)).map
      (fun z => decide (z.count .zrwa < z.zp.nrZrwaZones)) = .ok true := by decide +kernel
  obtain ⟨z, hz, -⟩ := except_map_eq_ok.mp hrun
  obtain ⟨z₀, hinit, hevents⟩ := bind_eq_ok.mp hz
  rw [hinit] at hroom
  have hok : Throughout ZnsFtl.step (ZnsFtl.Meets ZnsFtl.WithinLimit) [openFirst true] z₀ :=
    ⟨fun _ _ => of_decide_eq_true (Except.ok.inj hroom), fun _ _ => trivial⟩
  exact ⟨z, hz, (zrwa_limit_holds _ _ _ _ _ z₀ hinit (by decide) hok).of_ok hevents⟩

/-- The shipped configuration advertises no random write areas, but opens a zone with one, and the
first write to it divides by 0. -/
theorem zrwa_limit_ignored :
    (znsRun znsPrototype default default (mb 32) [openFirst true]).map
      (fun z => (z.count .zrwa, z.zp.nrZrwaZones)) = .ok (1, 0) ∧
    (znsRun znsPrototype default default (mb 32) [openFirst true, writeFirst 255]).map
      (fun z => z.count .zrwa) = .error .divByZero := by
  decide +kernel

end NvmeVirt
