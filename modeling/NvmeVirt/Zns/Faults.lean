import NvmeVirt.Zns.Writes

/-!
# The faults of a command

Which faults a command can raise, and from which zone: an index that is not below `nr_zones`, a
division by a flush granularity of 0 in a zone with a random write area, and those of the buffers.
-/

namespace NvmeVirt

open Checked

namespace ZnsFtl

variable {z z' : ZnsFtl} {zid : Nat}

/-- The faults of a command on the zone `zid`. -/
inductive Raises (z : ZnsFtl) (zid : Nat) : ZnsFault → Prop
  | zoneIndex (h : ¬ zid < z.zp.nrZones) : Raises z zid .zoneIndex
  | divByZero (hz : zid < z.zp.nrZones) (hv : (z.zoneDescs zid).zrwav = true)
    (hg : z.zp.lbasPerZrwafg = 0) : Raises z zid .divByZero
  | bufferSize : Raises z zid .bufferSize
  | nullBuffer : Raises z zid .nullBuffer
  | zrwaAllocate : Raises z zid .zrwaAllocate

/-- The computation raises only faults of the zone `zid`. -/
def RaisesAt {α : Type} (z : ZnsFtl) (zid : Nat) (r : Except ZnsFault α) : Prop :=
  Outcome r (fun _ => True) (z.Raises zid)

theorem RaisesAt.bind {α β : Type} {r : Except ZnsFault α} {f : α → Except ZnsFault β}
    (hr : z.RaisesAt zid r) (hf : ∀ a, r = .ok a → z.RaisesAt zid (f a)) :
    z.RaisesAt zid (r >>= f) := by
  cases r with
  | ok a => exact hf a rfl
  | error e => exact hr

theorem raisesAt_require {c : Prop} [Decidable c] {e : ZnsFault} (he : ¬ c → z.Raises zid e) :
    z.RaisesAt zid (require c e) :=
  outcome_require (fun _ => trivial) he

theorem raisesAt_getZone : z.RaisesAt zid (z.getZone zid) :=
  (raisesAt_require .zoneIndex).bind fun _ _ => trivial

theorem raisesAt_allocate (b : BufferRef) (n : Nat) : z.RaisesAt zid (z'.allocate b n) := by
  refine (raisesAt_require fun _ => .nullBuffer).bind fun _ _ => ?_
  split
  · exact .bufferSize
  · trivial

theorem raisesAt_openForZrwa : z.RaisesAt zid (z.openForZrwa zid) := by
  unfold openForZrwa
  split
  -- a closed or an empty zone takes a resource and the whole area
  iterate 2
    · split
      · trivial
      · refine (raisesAt_allocate ..).bind fun _ _ => ?_
        exact (raisesAt_require fun _ => .zrwaAllocate).bind fun _ _ => trivial
  all_goals trivial

theorem raisesAt_zrwaFlush (hz : zid < z.zp.nrZones) (hv : (z.zoneDescs zid).zrwav = true)
    (hzp : z'.zp = z.zp) (elba : Nat) : z.RaisesAt zid (z'.zrwaFlush zid elba) := by
  unfold zrwaFlush
  split
  · refine (raisesAt_require fun hg => ?_).bind fun _ _ => trivial
    rw [hzp] at hg
    exact .divByZero hz hv (not_not.mp hg)
  · split <;> trivial

theorem raisesAt_znsWriteSeq {req : ZnsRequest} {op : ZnsWriteOp} {c : RwCommand} :
    z.RaisesAt (z.lbaToZone c.slba) (z.znsWriteSeq req op c) := by
  apply raisesAt_getZone.bind
  intro d _
  refine (raisesAt_allocate ..).bind fun r _ => ?_
  dsimp only
  split
  · trivial
  · split
    · split <;> trivial
    · trivial

theorem Booked.raisesAt_znsWriteZrwa (hb : z.Booked) {req : ZnsRequest} {c : RwCommand}
    (hv : (z.zoneDescs (z.lbaToZone c.slba)).zrwav = true) :
    z.RaisesAt (z.lbaToZone c.slba) (z.znsWriteZrwa req c) := by
  apply raisesAt_getZone.bind
  intro d hd
  obtain ⟨hz, rfl⟩ := getZone_eq_ok.mp hd
  split
  · apply raisesAt_openForZrwa.bind
    intro r hopen
    obtain ⟨s, z₁⟩ := r
    have hzp : z₁.zp = z.zp := by
      rcases hb.openForZrwa hz hv hopen with ⟨-, rfl⟩ | ⟨-, -, ⟨-, rfl⟩ | ⟨-, hm⟩⟩
      · rfl
      · rfl
      · exact hm.zp
    cases s with
    | success =>
      refine (raisesAt_zrwaFlush hz hv hzp _).bind fun n _ => ?_
      split
      · refine (raisesAt_allocate ..).bind fun r _ => ?_
        dsimp only
        split <;> trivial
      · trivial
    | _ => trivial
  · trivial

theorem Booked.raisesAt_znsWrite (hb : z.Booked) (hs : z.Shaped) {req : ZnsRequest}
    {op : ZnsWriteOp} {c : RwCommand} :
    z.RaisesAt (z.lbaToZone c.slba) (z.znsWrite req op c) := by
  unfold ZnsFtl.znsWrite
  rw [hs.lpnToZone_lbaToLpn]
  apply raisesAt_getZone.bind
  intro d hd
  obtain ⟨-, rfl⟩ := getZone_eq_ok.mp hd
  split
  · next hv => exact (hb.raisesAt_znsWriteZrwa hv).bind fun _ _ => trivial
  · exact raisesAt_znsWriteSeq

theorem Shaped.raisesAt_znsRead (hs : z.Shaped) {req : ZnsRequest} {c : RwCommand} :
    z.RaisesAt (z.lbaToZone c.slba) (z.znsRead req c) := by
  unfold znsRead
  dsimp only
  rw [hs.lpnToZone_lbaToLpn]
  exact raisesAt_getZone.bind fun _ _ => trivial

theorem raisesAt_zmgmtSend (slba : Nat) (action : ZoneSendAction) (option : Bool) :
    z.RaisesAt (z.lbaToZone slba) (z.zmgmtSend slba action option) := by
  unfold zmgmtSend
  cases action with
  | other => trivial
  | flushExplZrwa =>
    refine RaisesAt.bind ?_ fun _ _ => trivial
    apply raisesAt_getZone.bind
    intro d hd
    obtain ⟨hz, rfl⟩ := getZone_eq_ok.mp hd
    split
    · trivial
    · next hv =>
      split
      · trivial
      · have hv := Bool.eq_true_of_not_eq_false hv
        refine (raisesAt_require fun hg => .divByZero hz hv (not_not.mp hg)).bind fun _ _ => ?_
        split <;> trivial
  | _ => exact raisesAt_getZone.bind fun _ _ => trivial

end ZnsFtl

end NvmeVirt
