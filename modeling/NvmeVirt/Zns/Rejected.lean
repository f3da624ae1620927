import NvmeVirt.Zns.Retry

/-!
# Rejected writes

A write to a zone is charged to its buffer before it is checked, and the exit of a rejected one
releases nothing. The zones are as they were then, but the space is gone: nothing is scheduled that
would give it back.
-/

namespace NvmeVirt

open Checked

namespace ZnsFtl

variable {z z' : ZnsFtl} {req : ZnsRequest} {op : ZnsWriteOp} {c c' : RwCommand}

/-- The buffer of the zone that a command names. -/
def bufferOf (z : ZnsFtl) (c : RwCommand) : BufferRef := z.writeBufferOf (z.lbaToZone c.slba)

/-- What a rejected write leaves: the zones as they were, its bytes charged to the buffer, and no
operation that will release them. -/
structure Rejected (z : ZnsFtl) (c : RwCommand) (z' : ZnsFtl) : Prop where
  zones : z.SameZones z'
  room : lbaToByte c.nrLba ≤ (z.buffers (z.bufferOf c)).remaining
  charged : z'.buffers = Function.update z.buffers (z.bufferOf c)
    { z.buffers (z.bufferOf c) with
      remaining := (z.buffers (z.bufferOf c)).remaining - lbaToByte c.nrLba }
  pending : z'.pending = z.pending

/-- A command has at least one block. -/
theorem lbaToByte_pos (hwf : c.Wf) : 0 < lbaToByte c.nrLba := by
  have hlen := hwf.length_lt
  rw [RwCommand.nrLba, lbaToByte, u32, u64, Nat.shiftLeft_eq]
  have : lbaBits = 9 := rfl
  rw [this]
  omega

/-- The checks of `__zns_write` come after the allocation. -/
theorem znsWriteSeq_charged (hwf : c.Wf) {r : ZnsResult}
    (hr : z.znsWriteSeq req op c = .ok (some r, c', z')) (hstatus : r.status ≠ 0) :
    lbaToByte c.nrLba ≤ (z.buffers (z.bufferOf c)).remaining ∧
      z'.flow = (z.setBuffer (z.bufferOf c) { z.buffers (z.bufferOf c) with
        remaining := (z.buffers (z.bufferOf c)).remaining - lbaToByte c.nrLba }).flow := by
  simp only [znsWriteSeq, bind_eq_ok] at hr
  obtain ⟨_, -, ⟨a, z₀⟩, halloc, hr⟩ := hr
  have hcases := (allocate_cases halloc).2
  generalize (if op = .append then _ else c) = c₁ at hr
  dsimp only at hr
  split at hr
  · cases congrArg Prod.fst (Except.ok.inj hr)
  · next hroom =>
    rcases hcases with ⟨rfl, -, -⟩ | ⟨-, hfits, rfl⟩
    · exact absurd (lbaToByte_pos hwf) hroom
    refine ⟨hfits, ?_⟩
    split at hr
    · split at hr
      · injection hr with hr
        cases hr
        exact absurd rfl hstatus
      · next s z₁ _ hopen =>
        obtain rfl : z₁ = z' := congrArg (fun r => r.2.2) (Except.ok.inj hr)
        rw [← congrArg (fun r => r.2.flow) hopen]
        exact openForWrite_flow
    · obtain rfl := congrArg (fun r => r.2.2) (Except.ok.inj hr)
      rfl

theorem Booked.znsWriteSeq_rejected (h : z.Booked) (hwf : c.Wf)
    (hv : (z.zoneDescs (z.lbaToZone c.slba)).zrwav = false) {r : ZnsResult}
    (hr : z.znsWriteSeq req op c = .ok (some r, c', z')) (hstatus : r.status ≠ 0) :
    z.Rejected c z' := by
  obtain ⟨hroom, hflow⟩ := znsWriteSeq_charged hwf hr hstatus
  obtain ⟨-, ⟨hzones, -⟩ | ⟨⟨r', hr', hsuccess⟩, -⟩⟩ := h.znsWriteSeq_cases hv hr
  · exact ⟨hzones, hroom, buffers_of_flow hflow, (pending_of_flow hflow).trans rfl⟩
  · cases hr'
    exact absurd hsuccess hstatus

/-- The space of the buffer after a rejected write. -/
theorem Rejected.remaining_add (h : z.Rejected c z') :
    (z'.buffers (z.bufferOf c)).remaining + lbaToByte c.nrLba =
      (z.buffers (z.bufferOf c)).remaining := by
  rw [h.charged, Function.update_self]
  exact Nat.sub_add_cancel h.room

/-! ## Runs of rejected writes -/

/-- A run of writes to zones without random write areas, each of which is rejected, through one
buffer. -/
inductive RejectedRun (b : BufferRef) : ZnsFtl → List RwCommand → ZnsFtl → Prop
  | nil (z : ZnsFtl) : RejectedRun b z [] z
  | cons {z z₁ z' : ZnsFtl} {req : ZnsRequest} {op : ZnsWriteOp} {c c' : RwCommand}
      {cs : List RwCommand} {r : ZnsResult} (hwf : c.Wf) (hb : z.bufferOf c = b)
      (hv : (z.zoneDescs (z.lbaToZone c.slba)).zrwav = false)
      (hr : z.znsWriteSeq req op c = .ok (some r, c', z₁)) (hstatus : r.status ≠ 0)
      (hrest : RejectedRun b z₁ cs z') : RejectedRun b z (c :: cs) z'

/-- The bytes of commands. -/
def bytesOf (cs : List RwCommand) : Nat := (cs.map fun c => lbaToByte c.nrLba).sum

/-- Rejected writes use up the buffer and change nothing else. -/
theorem Booked.rejectedRun (h : z.Booked) {b : BufferRef} {cs : List RwCommand}
    (hrun : RejectedRun b z cs z') :
    z.SameZones z' ∧ z'.pending = z.pending ∧
      (z'.buffers b).remaining + bytesOf cs = (z.buffers b).remaining := by
  induction hrun with
  | nil z => exact ⟨.refl z, rfl, rfl⟩
  | cons hwf hb hv hr hstatus _ ih =>
    have hrej := h.znsWriteSeq_rejected hwf hv hr hstatus
    obtain ⟨hzones, hpending, hsum⟩ := ih (hrej.zones.booked h)
    refine ⟨hrej.zones.trans hzones, hpending.trans hrej.pending, ?_⟩
    have hremaining := hrej.remaining_add
    rw [hb] at hremaining
    simp only [bytesOf, List.map_cons, List.sum_cons] at hsum ⊢
    omega

/-- Without the space for it, a write is presented again in the state that it found. -/
theorem znsWriteSeq_stalls (hwf : c.Wf) {result : Option ZnsResult}
    (hfull : (z.buffers (z.bufferOf c)).remaining < lbaToByte c.nrLba)
    (hr : z.znsWriteSeq req op c = .ok (result, c', z')) : result = none ∧ z' = z := by
  have hnone : result = none := by
    simp only [znsWriteSeq, bind_eq_ok] at hr
    obtain ⟨_, -, ⟨a, z₀⟩, halloc, hr⟩ := hr
    rcases (allocate_cases halloc).2 with ⟨rfl, -, -⟩ | ⟨-, hroom, -⟩
    · dsimp only at hr
      rw [if_pos (lbaToByte_pos hwf)] at hr
      exact (congrArg Prod.fst (Except.ok.inj hr)).symm
    · exact absurd hroom (Nat.not_le.mpr hfull)
  subst hnone
  exact ⟨rfl, (znsWriteSeq_none hwf hr).1⟩

end ZnsFtl

/-- After every run of a namespace, a write without a random write area that is rejected leaves the
descriptors and the counters alone but not the buffer: its bytes are charged, and nothing is
scheduled to release them. -/
theorem rejected_write_charged {cfg : ZnsConfig} {mem : ZnsMemory} {clock : Clock} {size : Nat}
    {events : List ZnsEvent} {z z' : ZnsFtl} {req : ZnsRequest} {op : ZnsWriteOp} {c c' : RwCommand}
    {r : ZnsResult} (hrun : znsRun cfg mem clock size events = .ok z) (hwf : c.Wf)
    (hv : (z.zoneDescs (z.lbaToZone c.slba)).zrwav = false)
    (hr : z.znsWrite req op c = .ok (some r, c', z')) (hstatus : r.status ≠ 0) :
    ¬ (z'.zoneDescs = z.zoneDescs ∧ z'.resInfos = z.resInfos ∧
        ∀ b, (z'.buffers b).remaining = (z.buffers b).remaining) ∧
      z.Rejected c z' := by
  obtain ⟨z₀, -, -, hb, hs, -⟩ := ZnsFtl.reached_of_run hrun
  rcases hs.znsWrite_eq_ok hr with ⟨hzrwa, -, -⟩ | ⟨-, hseq⟩
  · rw [hv] at hzrwa
    cases hzrwa
  · have hrej := hb.znsWriteSeq_rejected hwf hv hseq hstatus
    refine ⟨fun ⟨_, _, hall⟩ => ?_, hrej⟩
    have hremaining := hrej.remaining_add
    have hpos := ZnsFtl.lbaToByte_pos hwf
    rw [hall] at hremaining
    omega

/-- A write behind the write pointer of the first zone. -/
theorem rejected_write_charged_first :
    ∃ z z' : ZnsFtl, znsRun wdZn540 default default (mb 2) [] = .ok z ∧
      ¬ (z'.zoneDescs = z.zoneDescs ∧ z'.resInfos = z.resInfos ∧
        ∀ b, (z'.buffers b).remaining = (z.buffers b).remaining) ∧
      z.Rejected ⟨8, 511, false⟩ z' := by
  have hwrite : (do
      let z ← znsRun wdZn540 default default (mb 2) []
      let r ← z.znsWrite requestAtZero .write ⟨8, 511, false⟩
      return (r.1.map ZnsResult.status, (z.zoneDescs (z.lbaToZone 8)).zrwav) :
      Except ZnsFault (Option Nat × Bool)) = .ok (some 0x1bc, false) := by decide +kernel
  obtain ⟨z, hz, hwrite⟩ := bind_eq_ok.mp hwrite
  obtain ⟨⟨result, c', z'⟩, hwrite, hret⟩ := bind_eq_ok.mp hwrite
  injection hret with hret
  obtain ⟨hstatus, hv⟩ := Prod.mk.inj hret
  obtain ⟨r, rfl, hcode⟩ := Option.map_eq_some_iff.mp hstatus
  have hrejected : r.status ≠ 0 := by
    rw [hcode]
    decide
  exact ⟨z, z', hz, rejected_write_charged hz ⟨by simp, by simp⟩ hv hwrite hrejected⟩

/-- Three writes of 256 KiB behind the write pointer are rejected, and a write at the write pointer
that the fresh namespace carries out is presented again for ever. -/
theorem rejected_writes_stall :
    (do
      let z ← znsRun wdZn540 default default (mb 2) []
      let fresh ← z.znsWrite requestAtZero .write ⟨0, 511, false⟩
      let (r₁, _, z₁) ← z.znsWrite requestAtZero .write ⟨8, 511, false⟩
      let (r₂, _, z₂) ← z₁.znsWrite requestAtZero .write ⟨8, 511, false⟩
      let (r₃, _, z₃) ← z₂.znsWrite requestAtZero .write ⟨8, 511, false⟩
      let stalled ← z₃.znsWrite requestAtZero .write ⟨0, 511, false⟩
      return ((z.buffers (.zone 0)).remaining, fresh.1.map ZnsResult.status,
        [r₁, r₂, r₃].map (Option.map ZnsResult.status), (z₃.buffers (.zone 0)).remaining,
        stalled.1.isNone, z₃.pending.length) :
      Except ZnsFault (Nat × Option Nat × List (Option Nat) × Nat × Bool × Nat)) =
    .ok (983040, some 0, [some 0x1bc, some 0x1bc, some 0x1bc], 196608, true, 0) := by
  decide +kernel

end NvmeVirt
