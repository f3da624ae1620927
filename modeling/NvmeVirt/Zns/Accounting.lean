import NvmeVirt.Zns.Init

/-!
# Zone resources over runs

A condition on what changes a zone is carried over from single changes to events and to runs. With
it follow the exact counters of open, active and random-write zones, and the limit on zones with a
random write area.
-/

namespace NvmeVirt

open Checked Tally

namespace ZnsFtl

variable {z z' : ZnsFtl} {zid : Nat} {d' : ZoneDescriptor} {t : ZoneResource}

/-! ## Events and runs -/

/-- Every change that an event makes to a zone has a cause for which `ok` holds. -/
def Meets (ok : ZnsFtl → Cause → Prop) (z : ZnsFtl) : ZnsEvent → Prop
  | .command _ (.write _ c) => ok z (.write c)
  | .command _ (.mgmtSend c) =>
    if c.selectAll then
      Throughout (zmgmtSendTo c.zsa c.zsaso)
        (fun z zid => ok z (.send (z.zoneToSlba zid) c.zsa c.zsaso)) (List.range z.zp.nrZones) z
    else ok z (.send c.slba c.zsa c.zsaso)
  | _ => True

/-- An invariant that commands without an effect on the zones keep, and every change with a cause
for which `ok` holds. -/
structure Kept (inv : ZnsFtl → Prop) (ok : ZnsFtl → Cause → Prop) : Prop where
  booked : ∀ z, inv z → z.Booked
  shaped : ∀ z, inv z → z.Shaped
  same : ∀ z z', inv z → z.SameZones z' → inv z'
  change : ∀ z z' zid cause d' leak, inv z → ok z cause → zid < z.zp.nrZones →
    z.Change zid cause d' leak → z.Moved z' zid d' leak → inv z'

variable {inv : ZnsFtl → Prop} {ok : ZnsFtl → Cause → Prop}

theorem Kept.effect {cause : Cause} (hk : Kept inv ok) (h : inv z) (hok : ok z cause)
    (hz : zid < z.zp.nrZones) (he : z.Effect z' zid cause) : inv z' := by
  cases he with
  | same hs => exact hk.same z z' h hs
  | moved hc hm => exact hk.change z z' zid cause _ _ h hok hz hc hm

theorem Kept.zmgmtSend {slba : Nat} {action : ZoneSendAction} {option : Bool}
    {status : Option ZnsStatus} (hk : Kept inv ok) (h : inv z)
    (hok : ok z (.send slba action option))
    (hr : z.zmgmtSend slba action option = .ok (status, z')) : inv z' := by
  rcases (hk.booked z h).zmgmtSend hr with hs | ⟨s, -, hz, hspec⟩
  · exact hk.same z z' h hs
  · exact hk.effect h hok hz hspec.effect

/-- One event keeps the invariant. -/
theorem Kept.step {e : ZnsEvent} (hk : Kept inv ok) (h : inv z) (hok : z.Meets ok e)
    (hr : z.step e = .ok z') : inv z' := by
  cases e with
  | release i =>
    cases hr
    exact hk.same z _ h (completeInternal_same i)
  | command req cmd =>
    obtain ⟨⟨result, cmd', z₁⟩, hrun, hr⟩ := bind_eq_ok.mp hr
    cases hr
    cases handled hrun with
    | write hwrite =>
      obtain ⟨hz, hspec⟩ := (hk.booked z h).znsWrite (hk.shaped z h) hwrite
      exact hk.effect h hok hz hspec.effect
    | reads _ _ hz => exact hk.same z _ h hz.same
    | @mgmtSend c _ _ hsend =>
      rw [znsZmgmtSend] at hsend
      by_cases hall : c.selectAll = true
      · rw [if_pos hall] at hsend
        obtain ⟨z₁, hfold, hsend⟩ := bind_eq_ok.mp hsend
        cases hsend
        have hok : Throughout _ _ _ _ := (if_pos hall).mp hok
        refine (hok.outcome (E := fun _ => True) inv (fun zid _ z hz hok => ?_) h).of_ok hfold
        apply Outcome.of_forall_ok
        intro z' hr
        obtain ⟨⟨status, z₂⟩, hr, hret⟩ := bind_eq_ok.mp hr
        cases hret
        exact hk.zmgmtSend hz hok hr
      · rw [if_neg hall] at hsend
        obtain ⟨⟨status, z₁⟩, hone, hsend⟩ := bind_eq_ok.mp hsend
        cases hsend
        exact hk.zmgmtSend h ((if_neg hall).mp hok) hone

/-- A run keeps the invariant. -/
theorem Kept.run {events : List ZnsEvent} (hk : Kept inv ok) (h : inv z)
    (hok : Throughout ZnsFtl.step (Meets ok) events z) (hr : events.foldlM ZnsFtl.step z = .ok z') :
    inv z' :=
  (hok.outcome (E := fun _ => True) inv
    (fun _ _ _ hz hok => Outcome.of_forall_ok fun _ hr => hk.step hz hok hr) h).of_ok hr

/-- The change leaves no zone empty with a random write area. -/
theorem Change.empty {cause : Cause} {leak : Nat} (hc : z.Change zid cause d' leak)
    (hstate : d'.state = .empty) : d'.zrwav = false := by
  have hopen : ∀ {st : ZoneState} {wp : Nat}, st.isOpen = true → z.stateAt zid wp st = .empty →
      d'.zrwav = false := by
    intro st wp hst hs
    unfold stateAt at hs
    split at hs
    · cases hs
    · rw [hs] at hst
      cases hst
  cases hc with
  | reset => rfl
  | flush hs =>
    have hstate : z.stateAt _ _ _ = .empty := hstate
    unfold stateAt at hstate
    split at hstate
    · cases hstate
    · rw [hstate] at hs
      cases hs
  | write c s hs => exact hopen hs hstate
  | zrwaWrite c n s hs => exact hopen hs hstate
  | _ => cases hstate

/-- The books and the sizes are kept by every command. -/
theorem base_kept (zpp : Znsparams) (spp : Ssdparams) :
    Kept (fun z => z.Booked ∧ z.Shaped ∧ z.zp = zpp ∧ z.ssd.sp = spp) fun _ _ => True where
  booked _ h := h.1
  shaped _ h := h.2.1
  same _ _ h hs := ⟨hs.booked h.1, hs.shaped h.2.1, hs.zp.trans h.2.2.1, hs.sp.trans h.2.2.2⟩
  change _ _ _ _ _ _ h _ hz hc hm :=
    ⟨h.1.moved hz hm hc.empty, hm.shaped h.2.1, hm.zp.trans h.2.2.1, hm.sp.trans h.2.2.2⟩

theorem meets_true {e : ZnsEvent} : z.Meets (fun _ _ => True) e := by
  unfold Meets
  split
  · trivial
  · split
    · exact throughout_of_forall (fun _ _ => trivial) _ _
    · trivial
  · trivial

/-- What holds of every state that a run reaches. -/
theorem reached_of_run {cfg : ZnsConfig} {mem : ZnsMemory} {clock : Clock} {size : Nat}
    {events : List ZnsEvent} (h : znsRun cfg mem clock size events = .ok z) :
    ∃ z₀ : ZnsFtl, z₀.Fresh cfg ∧ events.foldlM ZnsFtl.step z₀ = .ok z ∧ z.Booked ∧ z.Shaped ∧
      z.zp = z₀.zp ∧ z.ssd.sp = z₀.ssd.sp := by
  obtain ⟨z₀, hinit, hevents⟩ := bind_eq_ok.mp h
  have hfresh := fresh_of_init hinit
  exact ⟨z₀, hfresh, hevents, (base_kept z₀.zp z₀.ssd.sp).run
    ⟨hfresh.booked, hfresh.shaped, rfl, rfl⟩
    (throughout_of_forall (fun _ _ => meets_true) events z₀) hevents⟩

/-! ## Exact counters -/

/-- The write flushes a random write area up to the end of its zone. -/
structure FillsZrwa (z : ZnsFtl) (c : RwCommand) : Prop where
  zrwav : (z.zoneDescs (z.lbaToZone c.slba)).zrwav = true
  active : (z.zoneDescs (z.lbaToZone c.slba)).state.isActive = true
  check : z.zrwaCheck (z.lbaToZone c.slba) c.slba c.nrLba = .success
  flush : ∃ n, z.zrwaFlush (z.lbaToZone c.slba) (u64 (c.slba + c.nrLba - 1)) = .ok n ∧ 0 < n ∧
    u64 ((z.zoneDescs (z.lbaToZone c.slba)).wp + u32 n) = z.zoneStop (z.lbaToZone c.slba)

/-- No write fills a zone with a random write area. -/
def KeepsZrwa (z : ZnsFtl) : Cause → Prop
  | .write c => ¬ z.FillsZrwa c
  | .send .. => True

/-- Only a write that fills a zone with a random write area keeps its resource. -/
theorem Change.leak_eq_zero {cause : Cause} {leak : Nat} (hc : z.Change zid cause d' leak)
    (hok : z.KeepsZrwa cause) : leak = 0 := by
  cases hc with
  | zrwaWrite c n s hs hact hv hzid hcheck hn hpos =>
    subst hzid
    apply if_neg
    intro hfull
    exact hok ⟨hv, hact, hcheck, n, hn, hpos, hfull⟩
  | _ => rfl

/-- The books with an exact counter of random write areas. -/
structure Exact (z : ZnsFtl) : Prop where
  booked : z.Booked
  shaped : z.Shaped
  zrwa : z.acquired .zrwa = z.count .zrwa

theorem exact_kept : Kept Exact KeepsZrwa where
  booked _ h := h.booked
  shaped _ h := h.shaped
  same z z' h hs := by
    refine ⟨hs.booked h.booked, hs.shaped h.shaped, ?_⟩
    rw [ZnsFtl.acquired, ZnsFtl.count, hs.resInfos, hs.zoneDescs, hs.zp]
    exact h.zrwa
  change z z' zid cause d' leak h hok hz hc hm := by
    refine ⟨h.booked.moved hz hm hc.empty, hm.shaped h.shaped, ?_⟩
    have hcount := hm.count hz .zrwa
    have hacq := hm.acquired .zrwa
    have hzrwa := h.zrwa
    rw [hc.leak_eq_zero hok, ite_self] at hacq
    omega

end ZnsFtl

/-- As long as no write fills a zone with a random write area, the counters of open, active and
random-write zones are the numbers of these zones after every run, and within their limits. -/
theorem zone_resources_counted (cfg : ZnsConfig) (mem : ZnsMemory) (clock : Clock) (size : Nat)
    (events : List ZnsEvent) (z₀ z : ZnsFtl) (hinit : znsInitNamespace cfg mem clock size = .ok z₀)
    (hok : Throughout ZnsFtl.step (ZnsFtl.Meets ZnsFtl.KeepsZrwa) events z₀)
    (hrun : events.foldlM ZnsFtl.step z₀ = .ok z) :
    (∀ t, z.acquired t = z.count t) ∧ ∀ t, z.acquired t ≤ z.total t := by
  have hfresh := ZnsFtl.fresh_of_init hinit
  have hexact : z.Exact := by
    refine ZnsFtl.exact_kept.run ⟨hfresh.booked, hfresh.shaped, ?_⟩ hok hrun
    rw [hfresh.acquired, hfresh.count]
  refine ⟨fun t => ?_, fun t => ?_⟩
  · cases t with
    | active => exact hexact.booked.active
    | opened => exact hexact.booked.opened
    | zrwa => exact hexact.zrwa
  · rw [hexact.booked.total]
    exact hexact.booked.acquired_le t

/-- A request at time 0. -/
def requestAtZero : ZnsRequest := { sqId := 1, nsecsStart := 0, stackWord := 0 }

/-- Opening the zone of block 0, with a random write area or without. -/
def openFirst (zrwa : Bool) : ZnsEvent :=
  .command requestAtZero (.mgmtSend { slba := 0, selectAll := false, zsa := .open, zsaso := zrwa })

/-- A write from block 0 on, of `length + 1` blocks. -/
def writeFirst (length : Nat) : ZnsEvent :=
  .command requestAtZero (.write .write { slba := 0, length, fua := false })

/-- A zone with a random write area is counted when it is opened. -/
theorem zone_resources_counted_open : ∃ z, znsRun znsWithZrwa default default (kb 128)
    [openFirst true] = .ok z ∧ z.acquired .zrwa = z.count .zrwa := by
  have hrun : (znsRun znsWithZrwa default default (kb 128) [openFirst true]).map
      (fun _ => ()) = .ok () := by decide +kernel
  obtain ⟨z, hz, -⟩ := except_map_eq_ok.mp hrun
  obtain ⟨z₀, hinit, hevents⟩ := bind_eq_ok.mp hz
  have hok : Throughout ZnsFtl.step (ZnsFtl.Meets ZnsFtl.KeepsZrwa) [openFirst true] z₀ :=
    ⟨trivial, fun _ _ => trivial⟩
  exact ⟨z, hz, (zone_resources_counted _ _ _ _ _ z₀ z hinit hok hevents).1 .zrwa⟩

/-- A write of a whole zone with a random write area leaves no such zone, and one counted. -/
theorem zrwa_resource_leaked :
    (znsRun znsWithZrwa default default (kb 128) [openFirst true, writeFirst 255]).map
      (fun z => (z.acquired .zrwa, z.count .zrwa)) = .ok (1, 0) := by
  decide +kernel

end NvmeVirt
