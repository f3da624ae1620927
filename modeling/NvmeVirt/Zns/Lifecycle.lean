import NvmeVirt.Zns.Ledger

/-!
# The life of a zone

Between two resets a zone only goes on: from empty to opened or closed, and from there to full. A full
zone keeps its descriptor and takes no write, and only an empty zone gets a random write area. No zone
becomes read-only or offline.
-/

namespace NvmeVirt

open Checked

/-- How far a zone has come. -/
def ZoneState.age : ZoneState → Nat
  | .empty => 0
  | .openedImpl | .openedExpl | .closed => 1
  | .full => 2
  | .readOnly => 3
  | .offline => 4

theorem ZoneState.age_of_isActive {s : ZoneState} (h : s.isActive = true) : s.age = 1 := by
  cases s <;> first | rfl | cases h

theorem ZoneState.age_of_isOpen {s : ZoneState} (h : s.isOpen = true) : s.age = 1 := by
  cases s <;> first | rfl | cases h

theorem ZoneState.eq_empty_of_age {s : ZoneState} (h : s.age = 0) : s = .empty := by
  cases s <;> first | rfl | cases h

/-- A zone with the descriptor `d` has gone on to `d'` without a reset. -/
structure ZoneDescriptor.GoesOn (d d' : ZoneDescriptor) : Prop where
  age : d.state.age ≤ d'.state.age
  zrwav : d.state ≠ .empty → d'.zrwav = d.zrwav
  full : d.state = .full → d' = d
  zslba : d'.zslba = d.zslba
  zoneCapacity : d'.zoneCapacity = d.zoneCapacity

namespace ZoneDescriptor.GoesOn

variable {d d' d'' : ZoneDescriptor}

theorem refl (d : ZoneDescriptor) : d.GoesOn d := ⟨le_rfl, fun _ => rfl, fun _ => rfl, rfl, rfl⟩

theorem trans (h : d.GoesOn d') (h' : d'.GoesOn d'') : d.GoesOn d'' := by
  refine ⟨h.age.trans h'.age, fun hd => ?_, fun hd => ?_, h'.zslba.trans h.zslba,
    h'.zoneCapacity.trans h.zoneCapacity⟩
  · have hd' : d'.state ≠ .empty := by
      intro hempty
      have hage := h.age
      rw [hempty] at hage
      exact hd (ZoneState.eq_empty_of_age (Nat.le_zero.mp hage))
    exact (h'.zrwav hd').trans (h.zrwav hd)
  · have heq := h.full hd
    rw [← heq] at hd
    exact (h'.full hd).trans heq

/-- An opened or closed zone goes on to any such state, and to full. -/
theorem of_active (hact : d.state.isActive = true) {s : ZoneState} {wp : Nat} (hs : 1 ≤ s.age) :
    d.GoesOn { d with state := s, wp } := by
  have hage := ZoneState.age_of_isActive hact
  refine ⟨hage.trans_le hs, fun _ => rfl, fun hfull => ?_, rfl, rfl⟩
  rw [hfull] at hage
  cases hage

/-- An empty zone goes on to every state. -/
theorem of_empty (hempty : d.state = .empty) (s : ZoneState) (wp : Nat) (zrwav : Bool) :
    d.GoesOn { d with state := s, wp, zrwav } := by
  refine ⟨?_, fun hne => absurd hempty hne, fun hfull => ?_, rfl, rfl⟩
  · rw [hempty]
    exact Nat.zero_le _
  · rw [hempty] at hfull
    cases hfull

end ZoneDescriptor.GoesOn

namespace ZnsFtl

variable {z z' z'' : ZnsFtl} {zid : Nat} {d' : ZoneDescriptor} {cause : Cause} {leak : Nat}

theorem one_le_age_stateAt {wp : Nat} {s : ZoneState} (hs : s.age = 1) :
    1 ≤ (z.stateAt zid wp s).age := by
  unfold stateAt
  split_ifs
  · exact Nat.le_succ 1
  · exact hs.ge

theorem age_stateAt_le {wp : Nat} {s : ZoneState} (hs : s.age = 1) :
    (z.stateAt zid wp s).age ≤ 2 := by
  unfold stateAt
  split_ifs
  · exact le_rfl
  · exact hs.trans_le (Nat.le_succ 1)

/-- Every change that is no reset is a step in the life of its zone. -/
theorem Change.goesOn (hc : z.Change zid cause d' leak)
    (hreset : ∀ slba option, cause ≠ .send slba .reset option) :
    (z.zoneDescs zid).GoesOn d' := by
  cases hc with
  | close hs =>
    have hact : (z.zoneDescs zid).state.isActive = true := by
      revert hs
      cases (z.zoneDescs zid).state <;> simp [ZoneState.isOpen, ZoneState.isActive]
    exact .of_active hact le_rfl
  | finish hs =>
    rcases hs with hact | hempty
    · exact .of_active hact (Nat.le_succ 1)
    · exact .of_empty hempty ..
  | openActive hs => exact .of_active hs le_rfl
  | openEmpty hzid hs => exact .of_empty hs ..
  | reset => exact absurd rfl (hreset _ _)
  | offline hs =>
    refine ⟨by rw [hs]; exact Nat.le_succ 3, fun _ => rfl, fun hfull => ?_, rfl, rfl⟩
    rw [hs] at hfull
    cases hfull
  | flush hs => exact .of_active hs (one_le_age_stateAt (ZoneState.age_of_isActive hs))
  | openImpl hs => exact .of_active (by rw [hs]; rfl) le_rfl
  | write c s hs hact =>
    rcases hact with hact | ⟨hempty, -⟩
    · exact .of_active hact (one_le_age_stateAt (ZoneState.age_of_isOpen hs))
    · exact .of_empty hempty ..
  | zrwaWrite c n s hs hact =>
    exact .of_active hact (one_le_age_stateAt (ZoneState.age_of_isOpen hs))

/-- No change makes a zone read-only or offline. -/
theorem Change.alive (hc : z.Change zid cause d' leak) (h : (z.zoneDescs zid).state.age ≤ 2) :
    d'.state.age ≤ 2 := by
  cases hc with
  | finish => exact le_rfl
  | reset => exact Nat.zero_le 2
  | offline hs =>
    rw [hs] at h
    exact absurd h (by decide)
  | flush hs => exact age_stateAt_le (ZoneState.age_of_isActive hs)
  | write c s hs => exact age_stateAt_le (ZoneState.age_of_isOpen hs)
  | zrwaWrite c n s hs => exact age_stateAt_le (ZoneState.age_of_isOpen hs)
  | _ => exact Nat.le_succ 1

/-! ## All zones -/

/-- The zones outside `T` have gone on. -/
structure GoesOn (z z' : ZnsFtl) (T : Set Nat) : Prop where
  zp : z'.zp = z.zp
  sp : z'.ssd.sp = z.ssd.sp
  zones : ∀ i < z.zp.nrZones, i ∉ T → (z.zoneDescs i).GoesOn (z'.zoneDescs i)

variable {T T' : Set Nat}

theorem GoesOn.trans (h : z.GoesOn z' T) (h' : z'.GoesOn z'' T') : z.GoesOn z'' (T ∪ T') := by
  refine ⟨h'.zp.trans h.zp, h'.sp.trans h.sp, fun i hi hout => ?_⟩
  rw [Set.mem_union, not_or] at hout
  exact (h.zones i hi hout.1).trans (h'.zones i (by rwa [h.zp]) hout.2)

theorem GoesOn.mono (h : z.GoesOn z' T) (hsub : ∀ i < z.zp.nrZones, i ∈ T → i ∈ T') :
    z.GoesOn z' T' :=
  ⟨h.zp, h.sp, fun i hi hout => h.zones i hi (mt (hsub i hi) hout)⟩

theorem SameZones.goesOn (h : z.SameZones z') (T : Set Nat) : z.GoesOn z' T := by
  refine ⟨h.zp, h.sp, fun i _ _ => ?_⟩
  rw [h.zoneDescs]
  exact .refl _

/-- The change of one zone, which is no reset unless the zone is in `T`. -/
theorem Moved.goesOn (hm : z.Moved z' zid d' leak) (hzone : zid ∉ T → (z.zoneDescs zid).GoesOn d') :
    z.GoesOn z' T := by
  refine ⟨hm.zp, hm.sp, fun i _ hout => ?_⟩
  rw [hm.zoneDescs, Function.update_apply]
  split_ifs with hi
  · subst hi
    exact hzone hout
  · exact .refl _

/-- What holds of every reachable state: no zone is read-only or offline. -/
structure Living (z : ZnsFtl) : Prop where
  booked : z.Booked
  shaped : z.Shaped
  alive : ∀ i < z.zp.nrZones, (z.zoneDescs i).state.age ≤ 2

theorem living_kept : Kept Living fun _ _ => True where
  booked _ h := h.booked
  shaped _ h := h.shaped
  same z z' h hs := by
    refine ⟨hs.booked h.booked, hs.shaped h.shaped, ?_⟩
    rw [hs.zp, hs.zoneDescs]
    exact h.alive
  change z z' zid cause d' leak h _ hz hc hm := by
    refine ⟨h.booked.moved hz hm hc.empty, hm.shaped h.shaped, fun i hi => ?_⟩
    rw [hm.zp] at hi
    rw [hm.zoneDescs, Function.update_apply]
    split_ifs
    · exact hc.alive (h.alive zid hz)
    · exact h.alive i hi

theorem Fresh.living {cfg : ZnsConfig} (h : z.Fresh cfg) : z.Living := by
  refine ⟨h.booked, h.shaped, fun i hi => ?_⟩
  rw [h.zoneDescs i hi]
  exact Nat.zero_le 2

/-- A reset of a living zone is carried out. -/
theorem resetZone_success (h : (z.zoneDescs zid).state.age ≤ 2) : (z.resetZone zid).1 = .success := by
  unfold ZnsFtl.resetZone
  dsimp only
  cases hs : (z.zoneDescs zid).state with
  | readOnly | offline =>
    rw [hs] at h
    exact absurd h (by decide)
  | _ => rfl

/-! ## Commands and runs -/

/-- The zones that an event resets. -/
def resets (z : ZnsFtl) : ZnsEvent → Set Nat
  | .command _ cmd => z.resetZones cmd
  | .release _ => ∅

/-- One action on one zone. -/
theorem Living.action {slba : Nat} {action : ZoneSendAction} {option : Bool}
    {status : Option ZnsStatus} (h : z.Living)
    (hr : z.zmgmtSend slba action option = .ok (status, z')) :
    z'.Living ∧ z.GoesOn z' {zid | action = .reset ∧ zid = z.lbaToZone slba} := by
  refine ⟨living_kept.zmgmtSend h trivial hr, ?_⟩
  rcases h.booked.zmgmtSend hr with hs | ⟨s, -, hz, hspec⟩
  · exact hs.goesOn _
  · cases hspec.effect with
    | same hs => exact hs.goesOn _
    | moved hc hm =>
      refine hm.goesOn fun hout => hc.goesOn fun slba' option' hcause => ?_
      cases hcause
      exact hout ⟨rfl, rfl⟩

/-- One action on all zones, in the order of the loop. -/
theorem Living.allActions {action : ZoneSendAction} {option : Bool} (h : z.Living) (n : Nat) :
    Outcome ((List.range n).foldlM (zmgmtSendTo action option) z)
      (fun z' => z'.Living ∧
        z.GoesOn z' {zid | action = .reset ∧ ∃ i < n, zid = z.lbaToZone (z.zoneToSlba i)})
      fun _ => True := by
  refine outcome_foldlM_range (fun k z' => z'.Living ∧
    z.GoesOn z' {zid | action = .reset ∧ ∃ i < k, zid = z.lbaToZone (z.zoneToSlba i)})
    (fun k hk z₁ ⟨hliving, hon⟩ => Outcome.of_forall_ok fun z₂ hr => ?_)
    ⟨h, (SameZones.refl z).goesOn _⟩
  obtain ⟨⟨status, z₃⟩, hr, hret⟩ := bind_eq_ok.mp hr
  cases hret
  obtain ⟨hliving₂, hon₂⟩ := hliving.action hr
  refine ⟨hliving₂, (hon.trans hon₂).mono fun i _ hi => ?_⟩
  have hlbas := lbasPerZone_congr hon.zp hon.sp
  have htarget : z₁.lbaToZone (z₁.zoneToSlba k) = z.lbaToZone (z.zoneToSlba k) := by
    rw [lbaToZone, lbaToZone, zoneToSlba, zoneToSlba, hlbas]
  rw [htarget] at hi
  rcases hi with ⟨ha, i', hi', rfl⟩ | ⟨ha, rfl⟩
  · exact ⟨ha, i', Nat.lt_succ_of_lt hi', rfl⟩
  · exact ⟨ha, k, Nat.lt_succ_self k, rfl⟩

theorem Living.mgmtSend {req : ZnsRequest} {c : ZoneMgmtSend} {r : ZnsResult} (h : z.Living)
    (hr : z.znsZmgmtSend req c = .ok (r, z')) :
    z'.Living ∧ z.GoesOn z' (z.resetZones (.mgmtSend c)) := by
  have hdone : ∀ i < z.zp.nrZones, (z.resetZone i).1 = .success :=
    fun i hi => resetZone_success (h.alive i hi)
  unfold znsZmgmtSend at hr
  by_cases hall : c.selectAll = true
  · rw [if_pos hall] at hr
    obtain ⟨z₁, hfold, hr⟩ := bind_eq_ok.mp hr
    cases hr
    obtain ⟨hliving, hon⟩ := (h.allActions z.zp.nrZones).of_ok hfold
    refine ⟨hliving, hon.mono fun i hi hin => ⟨hin.1, hdone i hi, ?_⟩⟩
    rw [if_pos hall]
    exact hin.2
  · rw [if_neg hall] at hr
    obtain ⟨⟨status, z₁⟩, hone, hr⟩ := bind_eq_ok.mp hr
    cases hr
    obtain ⟨hliving, hon⟩ := h.action hone
    refine ⟨hliving, hon.mono fun i hi hin => ⟨hin.1, hdone i hi, ?_⟩⟩
    rw [if_neg hall]
    exact hin.2

/-- One event: the zones that it does not reset go on. -/
theorem Living.step {e : ZnsEvent} (h : z.Living) (hr : z.step e = .ok z') :
    z'.Living ∧ z.GoesOn z' (z.resets e) := by
  refine ⟨living_kept.step h meets_true hr, ?_⟩
  cases e with
  | release i =>
    cases hr
    exact (completeInternal_same i).goesOn _
  | command req cmd =>
    obtain ⟨⟨result, cmd', z₁⟩, hrun, hr⟩ := bind_eq_ok.mp hr
    cases hr
    cases handled hrun with
    | write hwrite =>
      obtain ⟨-, hspec⟩ := h.booked.znsWrite h.shaped hwrite
      cases hspec.effect with
      | same hs => exact hs.goesOn _
      | moved hc hm => exact hm.goesOn fun _ => hc.goesOn fun _ _ hcause => by cases hcause
    | reads _ _ hz => exact hz.same.goesOn _
    | mgmtSend hsend => exact (h.mgmtSend hsend).2

/-- A run in which no event resets the zone. -/
theorem Living.run {events : List ZnsEvent} {i : Nat} (h : z.Living) (hi : i < z.zp.nrZones)
    (hreset : Throughout ZnsFtl.step (fun z e => i ∉ z.resets e) events z)
    (hr : events.foldlM ZnsFtl.step z = .ok z') : (z.zoneDescs i).GoesOn (z'.zoneDescs i) := by
  induction events generalizing z with
  | nil =>
    cases hr
    exact .refl _
  | cons e rest ih =>
    obtain ⟨z₁, hz₁, hr⟩ := bind_eq_ok.mp hr
    obtain ⟨hliving, hon⟩ := h.step hz₁
    exact (hon.zones i hi hreset.1).trans (ih hliving (by rwa [hon.zp]) (hreset.2 z₁ hz₁) hr)

/-- No write to a full zone succeeds. -/
theorem Living.full_rejects {req : ZnsRequest} {op : ZnsWriteOp} {c c' : RwCommand} {r : ZnsResult}
    (h : z.Living) (hfull : (z.zoneDescs (z.lbaToZone c.slba)).state = .full)
    (hr : z.znsWrite req op c = .ok (some r, c', z')) : r.status ≠ 0 := by
  intro hstatus
  have hfailed : ∀ {z₁ : ZnsFtl} {s : ZnsStatus} {n : Nat}, s ≠ .success →
      r ≠ z₁.writeResult c s n n := by
    rintro z₁ s n hs rfl
    exact hs (ZnsStatus.code_eq_zero.mp hstatus)
  rcases h.shaped.znsWrite_eq_ok hr with ⟨hv, hzrwa, -⟩ | ⟨hv, hseq⟩
  · simp only [ZnsFtl.znsWriteZrwa, bind_eq_ok, getZone_eq_ok] at hzrwa
    obtain ⟨d, ⟨hz, rfl⟩, hzrwa⟩ := hzrwa
    split at hzrwa
    · obtain ⟨⟨s, z₁⟩, hopen, hzrwa⟩ := bind_eq_ok.mp hzrwa
      rcases h.booked.openForZrwa hz hv hopen with ⟨hne, rfl⟩ | ⟨-, hact, -⟩
      · cases s with
        | success => exact absurd rfl hne
        | _ =>
          cases hzrwa
          exact hfailed hne rfl
      · rw [hfull] at hact
        cases hact
    · next s hs =>
      cases hzrwa
      exact hfailed hs rfl
  · obtain ⟨-, ⟨-, hrejected⟩ | ⟨-, hw⟩⟩ := h.booked.znsWriteSeq_cases hv hseq
    · exact hrejected r rfl hstatus
    · rcases hw.active with hact | ⟨hempty, -⟩
      · rw [hfull] at hact
        cases hact
      · rw [hfull] at hempty
        cases hempty

end ZnsFtl

/-- After every run no zone is read-only or offline and no write to a full zone succeeds; and from
there on, in every run that does not reset a zone, the zone goes on. -/
theorem zones_go_on (cfg : ZnsConfig) (mem : ZnsMemory) (clock : Clock) (size : Nat)
    (before after : List ZnsEvent) (z z' : ZnsFtl) (hz : znsRun cfg mem clock size before = .ok z)
    (hz' : after.foldlM ZnsFtl.step z = .ok z') :
    (∀ i < z.zp.nrZones, (z.zoneDescs i).state ≠ .readOnly ∧ (z.zoneDescs i).state ≠ .offline) ∧
      (∀ req op c r c' z₁, (z.zoneDescs (z.lbaToZone c.slba)).state = .full →
        z.znsWrite req op c = .ok (some r, c', z₁) → r.status ≠ 0) ∧
      ∀ i < z.zp.nrZones, Throughout ZnsFtl.step (fun z e => i ∉ z.resets e) after z →
        (z.zoneDescs i).GoesOn (z'.zoneDescs i) := by
  obtain ⟨z₀, hinit, hevents⟩ := bind_eq_ok.mp hz
  have hliving := ZnsFtl.living_kept.run (ZnsFtl.fresh_of_init hinit).living
    (throughout_of_forall (fun _ _ => ZnsFtl.meets_true) before z₀) hevents
  refine ⟨fun i hi => ?_, fun req op c r c' z₁ hfull hr => hliving.full_rejects hfull hr,
    fun i hi hreset => hliving.run hi hreset hz'⟩
  have hage := hliving.alive i hi
  constructor
  · intro hs
    rw [hs] at hage
    exact absurd hage (by decide)
  · intro hs
    rw [hs] at hage
    exact absurd hage (by decide)

/-- Finishing the zone of block 0. -/
def finishAtZero : ZnsEvent :=
  .command requestAtZero (.mgmtSend { slba := 0, selectAll := false, zsa := .finish, zsaso := false })

/-- A zone that was finished stays full: neither a write nor an attempt to open it changes it. -/
theorem zones_go_on_finished : ∃ z z', znsRun znsWithZrwa default default (kb 128)
      [openFirst true, finishAtZero] = .ok z ∧
    [writeFirst 255, openFirst false].foldlM ZnsFtl.step z = .ok z' ∧
    (z.zoneDescs 0).state = .full ∧ z'.zoneDescs 0 = z.zoneDescs 0 := by
  have hrun : (do
      let z ← znsRun znsWithZrwa default default (kb 128) [openFirst true, finishAtZero]
      let _ ← [writeFirst 255, openFirst false].foldlM ZnsFtl.step z
      return (z.zp.nrZones, (z.zoneDescs 0).state)) = .ok (1, .full) := by decide +kernel
  obtain ⟨z, hz, hrun⟩ := bind_eq_ok.mp hrun
  obtain ⟨z', hz', hrun⟩ := bind_eq_ok.mp hrun
  obtain ⟨hnr, hfull⟩ := Prod.mk.inj (Except.ok.inj hrun)
  obtain ⟨-, -, hon⟩ := zones_go_on _ _ _ _ _ _ z z' hz hz'
  have hwrite : ∀ z : ZnsFtl, 0 ∉ z.resets (writeFirst 255) := fun _ => Set.notMem_empty 0
  have hopen : ∀ z : ZnsFtl, 0 ∉ z.resets (openFirst false) := by
    rintro z ⟨haction, -⟩
    cases haction
  have hgoes := hon 0 (by rw [hnr]; exact Nat.one_pos)
    ⟨hwrite z, fun z₁ _ => ⟨hopen z₁, fun _ _ => trivial⟩⟩
  exact ⟨z, z', hz, hz', hfull, hgoes.full hfull⟩

end NvmeVirt
