import Mathlib.Data.Set.Basic
import NvmeVirt.Zns.Sequential

/-!
# The blocks written since the last reset

A ledger beside a run records which blocks have been written since their zone was last reset. In a
zone without a random write area these are the blocks below the write pointer, as long as no write
ends a zone that begins at block `2 ^ 32` or later.
-/

namespace NvmeVirt

open Checked

namespace ZnsFtl

variable {z z' z'' : ZnsFtl} {zid i j : Nat} {d d' : ZoneDescriptor}

/-! ## The ledger -/

/-- The zones that a command resets. -/
def resetZones (z : ZnsFtl) : ZnsCommand → Set Nat
  | .mgmtSend c =>
    {zid | c.zsa = .reset ∧ (z.resetZone zid).1 = .success ∧
      if c.selectAll then ∃ i < z.zp.nrZones, zid = z.lbaToZone (z.zoneToSlba i)
      else zid = z.lbaToZone c.slba}
  | _ => ∅

/-- The blocks of a set of zones. -/
def blocksOf (z : ZnsFtl) (zones : Set Nat) : Set Nat := {lba | lba / z.lbasPerZone ∈ zones}

/-- The blocks that a command has written, from its entry in the submission queue and its
result. -/
def writtenBlocks (result : Option ZnsResult) : ZnsCommand → Set Nat
  | .write _ c =>
    {lba | (∃ r, result = some r ∧ r.status = 0) ∧ c.slba ≤ lba ∧ lba < c.slba + c.nrLba}
  | _ => ∅

theorem resetZones_of_ne {cmd : ZnsCommand} (h : ∀ c, cmd ≠ .mgmtSend c) :
    z.resetZones cmd = ∅ := by
  cases cmd with
  | mgmtSend c => exact absurd rfl (h c)
  | _ => rfl

theorem writtenBlocks_of_ne {result : Option ZnsResult} {cmd : ZnsCommand}
    (h : ∀ op c, cmd ≠ .write op c) : writtenBlocks result cmd = ∅ := by
  cases cmd with
  | write op c => exact absurd rfl (h op c)
  | _ => rfl

/-- An event beside the ledger. -/
def ledgerStep (s : ZnsFtl × Set Nat) : ZnsEvent → Except ZnsFault (ZnsFtl × Set Nat)
  | .command req cmd => do
    let (result, cmd', z) ← s.1.znsProcNvmeIoCmd req cmd
    return (z, s.2 \ s.1.blocksOf (s.1.resetZones cmd) ∪ writtenBlocks result cmd')
  | .release i => return (s.1.completeInternal i, s.2)

/-- The ledger is beside the run. -/
theorem ledgerStep_fst (s : ZnsFtl × Set Nat) (e : ZnsEvent) :
    (ledgerStep s e).map Prod.fst = s.1.step e := by
  cases e with
  | release i => rfl
  | command req cmd =>
    rw [ledgerStep, ZnsFtl.step]
    cases s.1.znsProcNvmeIoCmd req cmd <;> rfl

/-- A write or an append that will be carried out, and ends with the last block of a zone that
begins at block `2 ^ 32` or later. -/
structure FillsHighZone (z : ZnsFtl) (op : ZnsWriteOp) (c : RwCommand) (d : ZoneDescriptor) :
    Prop where
  high : 2 ^ 32 ≤ d.zslba
  zrwav : d.zrwav = false
  active : d.state.isActive = true ∨ d.state = .empty
  start : op = .append ∨ c.slba = d.wp
  check : z.writeCheck (z.lbaToZone c.slba) d.wp c.nrLba = .success
  room : lbaToByte c.nrLba ≤ (z.buffers (z.writeBufferOf (z.lbaToZone c.slba))).remaining
  fills : d.wp + c.nrLba = d.zslba + d.zoneCapacity

/-- The event names an existing zone, opens no zone with a random write area unless there is a
flush granularity within it, and does not fill a zone beyond block `2 ^ 32`. -/
def OnZones (z : ZnsFtl) : ZnsEvent → Prop
  | .command _ (.write op c) =>
    c.Wf ∧ c.slba / z.lbasPerZone < z.zp.nrZones ∧
      ¬ z.FillsHighZone op c (z.zoneDescs (z.lbaToZone c.slba))
  | .command _ (.mgmtSend c) =>
    c.zsa = .open → c.zsaso = true →
      0 < z.zp.lbasPerZrwafg ∧ z.zp.lbasPerZrwafg ≤ z.zp.lbasPerZrwa
  | _ => True

/-! ## Zone management -/

/-- What zone management does to the ledger: the zones of `T` are cleared, and no other zone
without a random write area gets a new write pointer. -/
structure Sent (z z' : ZnsFtl) (T : Set Nat) : Prop where
  zp : z'.zp = z.zp
  sp : z'.ssd.sp = z.ssd.sp
  kept : ∀ i < z.zp.nrZones, i ∉ T → (z'.zoneDescs i).zrwav = false →
    (z.zoneDescs i).zrwav = false ∧ (z'.zoneDescs i).wp = (z.zoneDescs i).wp
  cleared : ∀ i ∈ T, i < z.zp.nrZones → (z'.zoneDescs i).zrwav = false →
    (z'.zoneDescs i).wp = i * z.lbasPerZone

theorem lbasPerZone_congr (hzp : z'.zp = z.zp) (hsp : z'.ssd.sp = z.ssd.sp) :
    z'.lbasPerZone = z.lbasPerZone := by
  rw [lbasPerZone, lbasPerZone, hzp, hsp]

theorem Sent.trans {T T' : Set Nat} (h : z.Sent z' T) (h' : z'.Sent z'' T') :
    z.Sent z'' (T ∪ T') := by
  refine ⟨h'.zp.trans h.zp, h'.sp.trans h.sp, fun i hi hout hv => ?_, fun i hin hi hv => ?_⟩
  · rw [Set.mem_union, not_or] at hout
    obtain ⟨hv', hwp'⟩ := h'.kept i (by rwa [h.zp]) hout.2 hv
    obtain ⟨hv, hwp⟩ := h.kept i hi hout.1 hv'
    exact ⟨hv, hwp'.trans hwp⟩
  · rw [← lbasPerZone_congr h.zp h.sp]
    by_cases hlast : i ∈ T'
    · exact h'.cleared i hlast (by rwa [h.zp]) hv
    · obtain ⟨hv', hwp'⟩ := h'.kept i (by rwa [h.zp]) hlast hv
      rw [hwp', lbasPerZone_congr h.zp h.sp]
      exact h.cleared i (hin.resolve_right hlast) hi hv'

theorem SameZones.sent (h : z.SameZones z') : z.Sent z' ∅ := by
  refine ⟨h.zp, h.sp, fun i _ _ hv => ?_, fun i hi => absurd hi (Set.notMem_empty i)⟩
  rw [h.zoneDescs] at hv ⊢
  exact ⟨hv, rfl⟩

theorem clearZone_fields : (z.clearZone i).zp = z.zp ∧ (z.clearZone i).ssd = z.ssd ∧
    (z.clearZone i).zoneDescs = Function.update z.zoneDescs i
      { z.zoneDescs i with wp := (z.zoneDescs i).zslba, zrwav := false } := by
  unfold clearZone
  dsimp only
  split <;> exact ⟨rfl, rfl, rfl⟩

/-- A reset of a zone of a reachable state is carried out. -/
theorem Ordered.resetZone (h : z.Ordered i (z.zoneDescs i)) :
    (z.resetZone i).1 = .success ∧ (z.resetZone i).2.zp = z.zp ∧
      (z.resetZone i).2.ssd.sp = z.ssd.sp ∧
      (z.resetZone i).2.zoneDescs = Function.update z.zoneDescs i
        { z.zoneDescs i with state := .empty, wp := (z.zoneDescs i).zslba, zrwav := false } := by
  have hclear : ∀ z₁ : ZnsFtl, z₁.zp = z.zp → z₁.ssd = z.ssd → z₁.zoneDescs = z.zoneDescs →
      ((z₁.changeZoneState i .empty).clearZone i).zp = z.zp ∧
      ((z₁.changeZoneState i .empty).clearZone i).ssd.sp = z.ssd.sp ∧
      ((z₁.changeZoneState i .empty).clearZone i).zoneDescs = Function.update z.zoneDescs i
        { z.zoneDescs i with state := .empty, wp := (z.zoneDescs i).zslba, zrwav := false } := by
    intro z₁ hzp hssd hdescs
    obtain ⟨hzp₁, hssd₁, hdescs₁⟩ := @clearZone_fields (z₁.changeZoneState i .empty) i
    rw [hzp₁, hssd₁, hdescs₁]
    simp [hzp, hssd, hdescs]
  obtain ⟨hzp, hssd, hdescs, -⟩ := @releaseActive_fields z (z.zoneDescs i).zrwav
  obtain ⟨hzp', hssd', hdescs', -⟩ :=
    @releaseActive_fields (z.releaseZoneResource .opened) (z.zoneDescs i).zrwav
  obtain ⟨hro, hoff⟩ := h.alive
  unfold ZnsFtl.resetZone
  dsimp only
  split
  · exact ⟨rfl, hclear _ hzp' hssd' hdescs'⟩
  · exact ⟨rfl, hclear _ hzp' hssd' hdescs'⟩
  · exact ⟨rfl, hclear _ hzp hssd hdescs⟩
  · exact ⟨rfl, hclear z rfl rfl rfl⟩
  · exact ⟨rfl, hclear z rfl rfl rfl⟩
  · cases hs : (z.zoneDescs i).state <;> simp_all

/-- A change that is no reset and no write leaves the write pointer of a zone without a random
write area. -/
theorem Change.sent {slba : Nat} {action : ZoneSendAction} {option : Bool} {leak : Nat}
    (hb : z.Booked) (hz : zid < z.zp.nrZones) (hne : action ≠ .reset)
    (hc : z.Change zid (.send slba action option) d' leak) (hv : d'.zrwav = false) :
    (z.zoneDescs zid).zrwav = false ∧ d'.wp = (z.zoneDescs zid).wp := by
  cases hc with
  | openEmpty hzid hs => exact ⟨hb.empty zid hz hs, rfl⟩
  | reset => exact absurd rfl hne
  | flush hact hv' =>
    have hv : (z.zoneDescs zid).zrwav = false := hv
    rw [hv'] at hv
    cases hv
  | _ => exact ⟨hv, rfl⟩

theorem Sent.congr {T T' : Set Nat} (h : z.Sent z' T)
    (hiff : ∀ i < z.zp.nrZones, i ∈ T ↔ i ∈ T') : z.Sent z' T' :=
  ⟨h.zp, h.sp, fun i hi hout => h.kept i hi (mt (hiff i hi).mp hout),
    fun i hin hi => h.cleared i ((hiff i hi).mpr hin) hi⟩

theorem keepsOrder_send {slba : Nat} {action : ZoneSendAction} {option : Bool}
    (hok : action = .open → option = true →
      0 < z.zp.lbasPerZrwafg ∧ z.zp.lbasPerZrwafg ≤ z.zp.lbasPerZrwa) :
    z.KeepsOrder (.send slba action option) := by
  cases action with
  | «open» =>
    cases option with
    | true => exact hok rfl rfl
    | false => trivial
  | _ => trivial

/-- One action on one zone. -/
theorem Ruled.sent {slba : Nat} {action : ZoneSendAction} {option : Bool}
    {status : Option ZnsStatus} (h : z.Ruled) (hok : z.KeepsOrder (.send slba action option))
    (hr : z.zmgmtSend slba action option = .ok (status, z')) :
    z'.Ruled ∧ z.Sent z' {zid | action = .reset ∧ zid = z.lbaToZone slba} := by
  refine ⟨ruled_kept.zmgmtSend h hok hr, ?_⟩
  by_cases hreset : action = .reset
  · subst hreset
    obtain ⟨_, hz, hr⟩ := bind_eq_ok.mp hr
    obtain ⟨hz, -⟩ := getZone_eq_ok.mp hz
    obtain rfl : (z.resetZone (z.lbaToZone slba)).2 = z' :=
      congrArg Prod.snd (Except.ok.inj hr)
    have ho := h.zones _ hz
    obtain ⟨-, hzp, hsp, hdescs⟩ := ho.resetZone
    refine ⟨hzp, hsp, fun i _ hout hv => ?_, ?_⟩
    · have hne : i ≠ z.lbaToZone slba := fun heq => hout ⟨rfl, heq⟩
      rw [hdescs, Function.update_of_ne hne] at hv ⊢
      exact ⟨hv, rfl⟩
    · rintro i ⟨-, rfl⟩ - -
      rw [hdescs, Function.update_self]
      exact ho.zslba
  · have hnone : ∀ i < z.zp.nrZones,
        i ∈ (∅ : Set Nat) ↔ i ∈ {zid | action = .reset ∧ zid = z.lbaToZone slba} :=
      fun i _ => ⟨fun hi => absurd hi (Set.notMem_empty i), fun hi => absurd hi.1 hreset⟩
    apply Sent.congr _ hnone
    rcases h.booked.zmgmtSend hr with hs | ⟨s, -, hz, hspec⟩
    · exact hs.sent
    · cases hspec.effect with
      | same hs => exact hs.sent
      | moved hc hm =>
        refine ⟨hm.zp, hm.sp, fun i _ _ hv => ?_, fun i hi => absurd hi (Set.notMem_empty i)⟩
        rw [hm.zoneDescs] at hv ⊢
        by_cases hi : i = z.lbaToZone slba
        · subst hi
          rw [Function.update_self] at hv ⊢
          exact hc.sent h.booked hz hreset hv
        · rw [Function.update_of_ne hi] at hv ⊢
          exact ⟨hv, rfl⟩

/-- One action on all zones, in the order of the loop. -/
theorem Ruled.sentAll {action : ZoneSendAction} {option : Bool} (h : z.Ruled)
    (hok : action = .open → option = true →
      0 < z.zp.lbasPerZrwafg ∧ z.zp.lbasPerZrwafg ≤ z.zp.lbasPerZrwa) (n : Nat) :
    Outcome ((List.range n).foldlM (zmgmtSendTo action option) z)
      (fun z' => z'.Ruled ∧
        z.Sent z' {zid | action = .reset ∧ ∃ i < n, zid = z.lbaToZone (z.zoneToSlba i)})
      fun _ => True := by
  refine outcome_foldlM_range (fun k z' => z'.Ruled ∧
    z.Sent z' {zid | action = .reset ∧ ∃ i < k, zid = z.lbaToZone (z.zoneToSlba i)})
    (fun k hk z₁ ⟨hruled, hsent⟩ => Outcome.of_forall_ok fun z₂ hr => ?_) ⟨h, ?_⟩
  · obtain ⟨⟨status, z₃⟩, hr, hret⟩ := bind_eq_ok.mp hr
    cases hret
    have hok₁ : z₁.KeepsOrder (.send (z₁.zoneToSlba k) action option) := by
      apply keepsOrder_send
      rw [hsent.zp]
      exact hok
    obtain ⟨hruled₂, hsent₂⟩ := hruled.sent hok₁ hr
    refine ⟨hruled₂, (hsent.trans hsent₂).congr fun i _ => ?_⟩
    have hlbas := lbasPerZone_congr hsent.zp hsent.sp
    have htarget : z₁.lbaToZone (z₁.zoneToSlba k) = z.lbaToZone (z.zoneToSlba k) := by
      rw [lbaToZone, lbaToZone, zoneToSlba, zoneToSlba, hlbas]
    rw [htarget]
    constructor
    · rintro (⟨ha, i', hi', rfl⟩ | ⟨ha, rfl⟩)
      · exact ⟨ha, i', Nat.lt_succ_of_lt hi', rfl⟩
      · exact ⟨ha, k, Nat.lt_succ_self k, rfl⟩
    · rintro ⟨ha, i', hi', rfl⟩
      rcases Nat.lt_succ_iff_lt_or_eq.mp hi' with hlt | rfl
      · exact Or.inl ⟨ha, i', hlt, rfl⟩
      · exact Or.inr ⟨ha, rfl⟩
  · apply (SameZones.refl z).sent.congr
    intro i _
    simp

/-- A zone management command. -/
theorem Ruled.mgmtSend {req : ZnsRequest} {c : ZoneMgmtSend} {r : ZnsResult} (h : z.Ruled)
    (hok : z.OnZones (.command req (.mgmtSend c))) (hr : z.znsZmgmtSend req c = .ok (r, z')) :
    z'.Ruled ∧ z.Sent z' (z.resetZones (.mgmtSend c)) := by
  have hdone : ∀ i < z.zp.nrZones, (z.resetZone i).1 = .success :=
    fun i hi => (h.zones i hi).resetZone.1
  unfold znsZmgmtSend at hr
  by_cases hall : c.selectAll = true
  · rw [if_pos hall] at hr
    obtain ⟨z₁, hfold, hr⟩ := bind_eq_ok.mp hr
    cases hr
    obtain ⟨hruled, hsent⟩ := (h.sentAll hok z.zp.nrZones).of_ok hfold
    refine ⟨hruled, hsent.congr fun i hi => ?_⟩
    simp only [resetZones, Set.mem_ofPred_eq, hall, if_true, hdone i hi, true_and]
  · rw [if_neg hall] at hr
    obtain ⟨⟨status, z₁⟩, hone, hr⟩ := bind_eq_ok.mp hr
    cases hr
    obtain ⟨hruled, hsent⟩ := h.sent (keepsOrder_send hok) hone
    refine ⟨hruled, hsent.congr fun i hi => ?_⟩
    simp only [resetZones, Set.mem_ofPred_eq, if_neg hall, hdone i hi, true_and]

/-! ## The ledger is the write pointer -/

/-- In every zone without a random write area, the ledger holds the blocks below the write
pointer. -/
structure Ledgered (s : ZnsFtl × Set Nat) : Prop where
  ruled : s.1.Ruled
  written : ∀ i < s.1.zp.nrZones, (s.1.zoneDescs i).zrwav = false →
    ∀ lba, lba / s.1.lbasPerZone = i → (lba ∈ s.2 ↔ lba < (s.1.zoneDescs i).wp)

variable {W : Set Nat}

theorem Ledgered.of_same (h : Ledgered (z, W)) (hs : z.SameZones z') : Ledgered (z', W) := by
  refine ⟨h.ruled.of_same hs, ?_⟩
  rw [lbasPerZone_congr hs.zp hs.sp, hs.zp, hs.zoneDescs]
  exact h.written

/-- A change of one zone, with new blocks in that zone. -/
theorem Ledgered.of_zone {leak : Nat} {new : Set Nat} (h : Ledgered (z, W)) (hruled : z'.Ruled)
    (hm : z.Moved z' zid d' leak) (hnew : ∀ lba ∈ new, lba / z.lbasPerZone = zid)
    (hzone : d'.zrwav = false →
      ∀ lba, lba / z.lbasPerZone = zid → (lba ∈ W ∪ new ↔ lba < d'.wp)) :
    Ledgered (z', W ∪ new) := by
  refine ⟨hruled, fun i hi hv lba hlba => ?_⟩
  change i < z'.zp.nrZones at hi
  change lba / z'.lbasPerZone = i at hlba
  change (z'.zoneDescs i).zrwav = false at hv
  change lba ∈ W ∪ new ↔ lba < (z'.zoneDescs i).wp
  rw [lbasPerZone_congr hm.zp hm.sp] at hlba
  rw [hm.zp] at hi
  rw [hm.zoneDescs] at hv ⊢
  by_cases hiz : i = zid
  · subst hiz
    rw [Function.update_self] at hv ⊢
    exact hzone hv lba hlba
  · rw [Function.update_of_ne hiz] at hv ⊢
    have hout : lba ∉ new := fun hin => hiz (hlba.symm.trans (hnew lba hin))
    rw [Set.mem_union, or_iff_left hout]
    exact h.written i hi hv lba hlba

@[simp] theorem blocksOf_empty : z.blocksOf ∅ = ∅ := rfl

theorem writtenBlocks_of_failed {result : Option ZnsResult} {cmd : ZnsCommand}
    (h : ∀ r, result = some r → r.status ≠ 0) : writtenBlocks result cmd = ∅ := by
  cases cmd with
  | write op c =>
    apply Set.eq_empty_of_forall_notMem
    rintro lba ⟨⟨r, hr, hs⟩, -⟩
    exact h r hr hs
  | _ => rfl

/-- A zone with a random write area keeps it through a write. -/
theorem Effect.zrwav {c : RwCommand} (h : z.Booked) (hv : (z.zoneDescs zid).zrwav = true)
    (he : z.Effect z' zid (.write c)) :
    ∃ d' leak, z.Moved z' zid d' leak ∧ d'.zrwav = true := by
  cases he with
  | same hs => exact ⟨_, _, (h.moved_refl zid).of_same hs, hv⟩
  | moved hc hm =>
    refine ⟨_, _, hm, ?_⟩
    cases hc with
    | openImpl => exact hv
    | zrwaWrite => exact hv
    | write c s hs hact hv' =>
      rw [hv] at hv'
      cases hv'

/-- A write or an append, successful or not. -/
theorem Ledgered.write {req : ZnsRequest} {op : ZnsWriteOp} {c c' : RwCommand}
    {result : Option ZnsResult} (h : Ledgered (z, W))
    (hok : z.OnZones (.command req (.write op c)))
    (hr : z.znsWrite req op c = .ok (result, c', z')) :
    Ledgered (z', W ∪ writtenBlocks result (.write op c')) := by
  obtain ⟨hwf, hnamed, hhigh⟩ := hok
  have hruled : z.Ruled := h.ruled
  rcases hruled.shaped.znsWrite_eq_ok hr with ⟨hv, hzrwa, rfl⟩ | ⟨hv, hseq⟩
  · obtain ⟨hz, hspec, hsuccess⟩ := hruled.booked.znsWriteZrwa hv hzrwa
    have hkeeps : z.KeepsOrder (.write c') :=
      ⟨hwf, hnamed, fun hv' => absurd (hv.symm.trans hv') (by simp)⟩
    obtain ⟨d', leak, hm, hv'⟩ := hspec.effect.zrwav hruled.booked hv
    refine h.of_zone (ruled_kept.effect hruled hkeeps hz hspec.effect) hm ?_
      fun hv'' => absurd (hv'.symm.trans hv'') (by simp)
    rintro lba ⟨⟨r, hr, hs⟩, hge, hlt⟩
    obtain ⟨hb, -⟩ := zrwaCheck_success (hsuccess r hr hs)
    obtain ⟨hlow, hup⟩ := hruled.shaped.named_zone hnamed
    have hn := nrLba_eq hwf
    have hlen := hwf.length_lt
    have hend := hruled.shaped.write_le hz hlow hup (by omega) (by omega) hb
    exact zone_unique (by omega) (by omega)
  · obtain ⟨hz, ⟨hs, hfailed⟩ | ⟨hsuccess, hw⟩⟩ := hruled.booked.znsWriteSeq_cases hv hseq
    · rw [writtenBlocks_of_failed hfailed, Set.union_empty]
      exact h.of_same hs
    · have ho := hruled.zones _ hz
      have hact := hw.active.imp_right And.left
      have hkeeps : z.KeepsOrder (.write c) := by
        refine ⟨hwf, hnamed, fun _ hfills => ?_⟩
        by_contra hlow
        exact hhigh ⟨Nat.le_of_not_lt hlow, hv, hact, hw.start, hw.check, hw.room, hfills⟩
      have hruled' := ruled_kept.effect hruled hkeeps hz (hw.effect hv rfl)
      obtain ⟨hup, hid⟩ := hruled.wp_add_le hz hwf hact (writeCheck_success hw.check).1
      have hlower := ho.lower
      rw [ho.zslba, ho.zoneCapacity] at hup
      rw [ho.zslba] at hlower
      obtain ⟨st, -, hm⟩ := hw.moved
      rw [hid] at hm
      have hnew : ∀ lba, lba ∈ writtenBlocks result (.write op c') ↔
          (z.zoneDescs (z.lbaToZone c.slba)).wp ≤ lba ∧
            lba < (z.zoneDescs (z.lbaToZone c.slba)).wp + c.nrLba := by
        intro lba
        rw [hw.command]
        exact and_iff_right hsuccess
      refine h.of_zone hruled' hm (fun lba hin => ?_) fun _ lba hlba => ?_
      · obtain ⟨hge, hlt⟩ := (hnew lba).mp hin
        exact zone_unique (by omega) (by omega)
      · have hbelow : lba ∈ W ↔ lba < (z.zoneDescs (z.lbaToZone c.slba)).wp :=
          h.written _ hz hv lba hlba
        rw [Set.mem_union, hbelow, hnew]
        change _ ↔ lba < (z.zoneDescs (z.lbaToZone c.slba)).wp + c.nrLba
        omega

/-- A zone management command. -/
theorem Ledgered.mgmtSend {req : ZnsRequest} {c : ZoneMgmtSend} {r : ZnsResult}
    (h : Ledgered (z, W)) (hok : z.OnZones (.command req (.mgmtSend c)))
    (hr : z.znsZmgmtSend req c = .ok (r, z')) :
    Ledgered (z', W \ z.blocksOf (z.resetZones (.mgmtSend c))) := by
  obtain ⟨hruled, hsent⟩ := h.ruled.mgmtSend hok hr
  refine ⟨hruled, fun i hi hv lba hlba => ?_⟩
  change i < z'.zp.nrZones at hi
  change lba / z'.lbasPerZone = i at hlba
  rw [lbasPerZone_congr hsent.zp hsent.sp] at hlba
  rw [hsent.zp] at hi
  subst hlba
  by_cases hin : lba / z.lbasPerZone ∈ z.resetZones (.mgmtSend c)
  · have hwp := hsent.cleared _ hin hi hv
    have hle := Nat.div_mul_le_self lba z.lbasPerZone
    have hout : lba ∉ W \ z.blocksOf (z.resetZones (.mgmtSend c)) := fun hmem => hmem.2 hin
    exact ⟨fun hmem => absurd hmem hout, fun hlt => absurd (hwp ▸ hlt) (Nat.not_lt.mpr hle)⟩
  · obtain ⟨hv', hwp⟩ := hsent.kept _ hi hin hv
    have hmem : lba ∈ W \ z.blocksOf (z.resetZones (.mgmtSend c)) ↔ lba ∈ W :=
      and_iff_left hin
    rw [hmem, hwp]
    exact h.written _ hi hv' lba rfl

/-- One event. -/
theorem Ledgered.step {s s' : ZnsFtl × Set Nat} {e : ZnsEvent} (h : Ledgered s)
    (hok : s.1.OnZones e) (hr : ledgerStep s e = .ok s') : Ledgered s' := by
  obtain ⟨z, W⟩ := s
  cases e with
  | release i =>
    cases hr
    exact h.of_same (completeInternal_same i)
  | command req cmd =>
    obtain ⟨⟨result, cmd', z₁⟩, hrun, hr⟩ := bind_eq_ok.mp hr
    cases hr
    cases handled hrun with
    | write hwrite =>
      change Ledgered (_, W \ ∅ ∪ _)
      rw [Set.sdiff_empty]
      exact h.write hok hwrite
    | reads hwrite hsend hz =>
      rw [resetZones_of_ne hsend, writtenBlocks_of_ne hwrite, blocksOf_empty, Set.sdiff_empty,
        Set.union_empty]
      exact h.of_same hz.same
    | mgmtSend hsend =>
      change Ledgered (_, _ ∪ ∅)
      rw [Set.union_empty]
      exact h.mgmtSend hok hsend

/-- The ledger is beside the run. -/
theorem ledger_run_fst (events : List ZnsEvent) (s : ZnsFtl × Set Nat) :
    (events.foldlM ledgerStep s).map Prod.fst = events.foldlM ZnsFtl.step s.1 := by
  induction events generalizing s with
  | nil => rfl
  | cons e events ih =>
    rw [List.foldlM_cons, List.foldlM_cons, ← ledgerStep_fst]
    cases ledgerStep s e with
    | error e => rfl
    | ok s' => exact ih s'

theorem Fresh.ruled {cfg : ZnsConfig} (h : z.Fresh cfg) : z.Ruled := by
  refine ⟨h.booked, h.shaped, ?_, fun i hi => ?_⟩
  · rw [h.lbasPerZrwa]
    exact Nat.mod_lt _ (by simp)
  · have hlbas : z.zp.zoneSize >>> lbaBits = z.lbasPerZone := by
      rw [lbasPerZone, h.shaped.secsz, Nat.shiftRight_eq_div_pow]
      rfl
    have hle := h.shaped.zone_end_le hi
    have hid : u64 (i * z.lbasPerZone) = i * z.lbasPerZone := by
      rw [u64]
      omega
    rw [h.zoneDescs i hi, initDescriptor, hlbas, hid]
    exact ⟨rfl, rfl, Nat.le_refl _, Nat.le_add_right .., fun _ => rfl, Bool.noConfusion,
      ⟨ZoneState.noConfusion, ZoneState.noConfusion⟩, Bool.noConfusion⟩

theorem Fresh.ledgered {cfg : ZnsConfig} (h : z.Fresh cfg) : Ledgered (z, ∅) := by
  refine ⟨h.ruled, fun i hi _ lba hlba => ?_⟩
  have ho := h.ruled.zones i hi
  have hwp : (z.zoneDescs i).wp = i * z.lbasPerZone := by
    rw [← ho.zslba]
    apply ho.empty
    rw [h.zoneDescs i hi]
    rfl
  have hle := Nat.div_mul_le_self lba z.lbasPerZone
  change lba / z.lbasPerZone = i at hlba
  change lba ∈ ∅ ↔ lba < (z.zoneDescs i).wp
  rw [hlba] at hle
  rw [hwp]
  exact iff_of_false (Set.notMem_empty lba) (Nat.not_lt.mpr hle)

/-- A command that fails leaves the zones alone. -/
theorem Booked.command_failed {req : ZnsRequest} {cmd cmd' : ZnsCommand} {r : ZnsResult}
    (h : z.Booked) (hs : z.Shaped) (hr : z.znsProcNvmeIoCmd req cmd = .ok (some r, cmd', z'))
    (hne : r.status ≠ 0) : z.SameZones z' := by
  cases handled hr with
  | write hwrite => exact (h.znsWrite hs hwrite).2.failed r rfl hne
  | reads _ _ hz => exact hz.same
  | mgmtSend hsend =>
    unfold znsZmgmtSend at hsend
    split at hsend
    · obtain ⟨z₁, -, hsend⟩ := bind_eq_ok.mp hsend
      cases hsend
      exact absurd rfl hne
    · obtain ⟨⟨status, z₁⟩, hone, hsend⟩ := bind_eq_ok.mp hsend
      cases hsend
      rcases h.zmgmtSend hone with hsame | ⟨s, rfl, -, hspec⟩
      · exact hsame
      · exact hspec.failed (mt ZnsStatus.code_eq_zero.mpr hne)

/-- The rule for the write pointer of a zone. -/
structure ZoneInOrder (d : ZoneDescriptor) : Prop where
  lower : d.zslba ≤ d.wp
  upper : d.wp ≤ d.zslba + d.zoneCapacity
  empty : d.state = .empty → d.wp = d.zslba ∧ d.zrwav = false
  active : d.state.isActive = true → d.wp < d.zslba + d.zoneCapacity

/-- A write of the command `c`, with the entry `c'` in the submission queue, that takes the zone
`d` to `d'`: it covers the blocks from the write pointer on, inside the zone. -/
structure Covers (d d' : ZoneDescriptor) (c c' : RwCommand) : Prop where
  start : c'.slba = d.wp
  length : c'.nrLba = c.nrLba
  lower : d.zslba ≤ c'.slba
  inside : c'.slba + c'.nrLba ≤ d.zslba + d.zoneCapacity
  advanced : d'.wp = d.wp + c.nrLba
  full : d'.state = .full ↔ d'.wp = d.zslba + d.zoneCapacity

/-- A write without a random write area that succeeds. -/
theorem Ruled.covers {req : ZnsRequest} {op : ZnsWriteOp} {c c' : RwCommand} {r : ZnsResult}
    (h : z.Ruled) (hok : z.OnZones (.command req (.write op c)))
    (hv : (z.zoneDescs (z.lbaToZone c.slba)).zrwav = false)
    (hr : z.znsWrite req op c = .ok (some r, c', z')) (hstatus : r.status = 0) :
    Covers (z.zoneDescs (z.lbaToZone c.slba)) (z'.zoneDescs (z.lbaToZone c.slba)) c c' := by
  obtain ⟨hwf, hnamed, hhigh⟩ := hok
  rcases h.shaped.znsWrite_eq_ok hr with ⟨hv', -⟩ | ⟨-, hseq⟩
  · rw [hv] at hv'
    cases hv'
  obtain ⟨hz, ⟨-, hfailed⟩ | ⟨-, hw⟩⟩ := h.booked.znsWriteSeq_cases hv hseq
  · exact absurd hstatus (hfailed r rfl)
  have ho := h.zones _ hz
  have hact := hw.active.imp_right And.left
  obtain ⟨hup, hid⟩ := h.wp_add_le hz hwf hact (writeCheck_success hw.check).1
  obtain ⟨st, hst, hm⟩ := hw.moved
  have hstop := @Ordered.eq_zoneStop z _ ho h.shaped
    ((z.zoneDescs (z.lbaToZone c.slba)).wp + c.nrLba) (ho.lower.trans (Nat.le_add_right ..))
  have hseen : (z.zoneDescs (z.lbaToZone c.slba)).wp + c.nrLba =
      (z.zoneDescs (z.lbaToZone c.slba)).zslba +
        (z.zoneDescs (z.lbaToZone c.slba)).zoneCapacity →
      (z.zoneDescs (z.lbaToZone c.slba)).zslba < 2 ^ 32 := by
    intro hfills
    by_contra hlow
    exact hhigh ⟨Nat.le_of_not_lt hlow, hv, hact, hw.start, hw.check, hw.room, hfills⟩
  rw [hid] at hm
  rw [hm.zoneDescs, Function.update_self, hw.command]
  refine ⟨rfl, rfl, ho.lower, hup, rfl, ?_⟩
  change z.stateAt _ _ st = .full ↔ (z.zoneDescs (z.lbaToZone c.slba)).wp + c.nrLba = _
  unfold stateAt
  constructor
  · intro hfull
    split at hfull
    · next hat => exact (hstop.mp hat).2
    · rw [hfull] at hst
      cases hst
  · intro hfills
    rw [if_pos (hstop.mpr ⟨hseen hfills, hfills⟩)]

end ZnsFtl

/-- In every run on existing zones in which no write fills a zone that begins at block `2 ^ 32` or
later, zones are written in order: every zone is in order and, without a random write area, has
been written up to its write pointer since its last reset. In the state that is reached, a command
that fails leaves all zones alone, and a write that succeeds covers the blocks from the write
pointer on. -/
theorem zones_written_in_order (cfg : ZnsConfig) (mem : ZnsMemory) (clock : Clock) (size : Nat)
    (events : List ZnsEvent) (z₀ z : ZnsFtl) (W : Set Nat)
    (hinit : znsInitNamespace cfg mem clock size = .ok z₀)
    (hok : Throughout ZnsFtl.ledgerStep (fun s e => s.1.OnZones e) events (z₀, ∅))
    (hrun : events.foldlM ZnsFtl.ledgerStep (z₀, ∅) = .ok (z, W)) :
    (∀ i < z.zp.nrZones, ZnsFtl.ZoneInOrder (z.zoneDescs i) ∧ ((z.zoneDescs i).zrwav = false →
      ∀ lba, (z.zoneDescs i).zslba ≤ lba →
        lba < (z.zoneDescs i).zslba + (z.zoneDescs i).zoneCapacity →
        (lba ∈ W ↔ lba < (z.zoneDescs i).wp))) ∧
    ∀ req cmd r cmd' z', z.znsProcNvmeIoCmd req cmd = .ok (some r, cmd', z') →
      (r.status ≠ 0 → ∀ i < z.zp.nrZones, (z'.zoneDescs i).wp = (z.zoneDescs i).wp ∧
        (z'.zoneDescs i).state = (z.zoneDescs i).state) ∧
      ∀ op c, cmd = .write op c → z.OnZones (.command req cmd) →
        (z.zoneDescs (z.lbaToZone c.slba)).zrwav = false → r.status = 0 →
        ∃ c', cmd' = .write op c' ∧ ZnsFtl.Covers (z.zoneDescs (z.lbaToZone c.slba))
          (z'.zoneDescs (z.lbaToZone c.slba)) c c' := by
  have hledger : ZnsFtl.Ledgered (z, W) :=
    (hok.outcome (E := fun _ => True) ZnsFtl.Ledgered
      (fun _ _ _ h hok => Outcome.of_forall_ok fun _ hr => h.step hok hr)
      (ZnsFtl.fresh_of_init hinit).ledgered).of_ok hrun
  have hruled : z.Ruled := hledger.ruled
  refine ⟨fun i hi => ⟨?_, fun hv lba hlow hup => ?_⟩, fun req cmd r cmd' z' hr =>
    ⟨fun hne i hi => ?_, ?_⟩⟩
  · have ho := hruled.zones i hi
    exact ⟨ho.lower, ho.upper, fun hs => ⟨ho.empty hs, hruled.booked.empty i hi hs⟩, ho.active⟩
  · have ho := hruled.zones i hi
    rw [ho.zslba] at hlow hup
    rw [ho.zoneCapacity] at hup
    exact hledger.written i hi hv lba (ZnsFtl.zone_unique hlow hup)
  · rw [(hruled.booked.command_failed hruled.shaped hr hne).zoneDescs]
    exact ⟨rfl, rfl⟩
  · rintro op c rfl hzones hv hstatus
    obtain ⟨⟨result, c', z₁⟩, hwrite, hr⟩ := bind_eq_ok.mp hr
    cases hr
    exact ⟨c', rfl, hruled.covers hzones hv hwrite hstatus⟩

/-- A zone that has been filled. -/
theorem zones_written_in_order_fill : ∃ z₀ z W,
    znsInitNamespace znsWithZrwa default default (kb 128) = .ok z₀ ∧
    [writeFirst 255].foldlM ZnsFtl.ledgerStep (z₀, ∅) = .ok (z, W) ∧
    ∀ i < z.zp.nrZones, ZnsFtl.ZoneInOrder (z.zoneDescs i) := by
  have hrun : (znsRun znsWithZrwa default default (kb 128) [writeFirst 255]).map
      (fun _ => ()) = .ok () := by decide +kernel
  have hlow : (znsInitNamespace znsWithZrwa default default (kb 128)).map (fun z =>
      decide (0 / z.lbasPerZone < z.zp.nrZones ∧ (z.zoneDescs (z.lbaToZone 0)).zslba < 2 ^ 32)) =
      .ok true := by decide +kernel
  obtain ⟨z, hz, -⟩ := except_map_eq_ok.mp hrun
  obtain ⟨z₀, hinit, hevents⟩ := bind_eq_ok.mp hz
  rw [hinit] at hlow
  obtain ⟨hnamed, hlow⟩ := of_decide_eq_true (Except.ok.inj hlow)
  rw [← ZnsFtl.ledger_run_fst _ (z₀, ∅)] at hevents
  obtain ⟨⟨z, W⟩, hledger, rfl⟩ := except_map_eq_ok.mp hevents
  have hok : Throughout ZnsFtl.ledgerStep (fun s e => s.1.OnZones e) [writeFirst 255] (z₀, ∅) :=
    ⟨⟨⟨by simp, by simp⟩, hnamed, fun hf => absurd hlow (Nat.not_lt.mpr hf.high)⟩,
      fun _ _ => trivial⟩
  exact ⟨z₀, z, W, hinit, hledger, fun i hi =>
    ((zones_written_in_order _ _ _ _ _ z₀ z W hinit hok hledger).1 i hi).1⟩

/-- With more than `2 ^ 32` blocks, a write of the whole last zone leaves it open, with its write
pointer at its end. -/
theorem high_zone_never_full :
    (znsRun znsWithZrwa default default (kb 128 * (2 ^ 24 + 1))
      [.command requestAtZero (.write .write { slba := 2 ^ 32, length := 255, fua := false })]).map
      (fun z => (decide (2 ^ 24 < z.zp.nrZones), z.zoneDescs (2 ^ 24))) =
    .ok (true, { state := .openedImpl, zrwav := false, zoneCapacity := 256, zslba := 2 ^ 32,
                 wp := 2 ^ 32 + 256 }) := by
  decide +kernel

end NvmeVirt
