import NvmeVirt.Conv.Geometry
import NvmeVirt.Zns.Buffers

/-!
# Commands that are presented again

A handler that returns `false` has its entry of the submission queue presented again. A write to a
conventional namespace leaves no trace then. An append has already stored the write pointer in the
entry, and a write to a closed zone with a random write area has already opened it.
-/

namespace NvmeVirt

open Checked

/-- The length of a command in bytes fits an `uint32_t`. -/
theorem lbaToByte_lt {n : Nat} (h : n ≤ 2 ^ 16) : lbaToByte n < 2 ^ 32 := by
  rw [lbaToByte, u64, Nat.shiftLeft_eq]
  have : lbaBits = 9 := rfl
  rw [this]
  omega

/-- A write to a conventional namespace that is presented again has changed nothing. -/
theorem ConvNs.convWrite_none {ns ns' : ConvNs} {req : NvmevRequest} {c : RwCommand} (hwf : c.Wf)
    (hr : ns.convWrite req c = .ok (none, ns')) : ns' = ns := by
  unfold ConvNs.convWrite at hr
  split at hr
  · cases hr
    rfl
  · obtain ⟨⟨a, buf⟩, halloc, hr⟩ := bind_eq_ok.mp hr
    obtain ⟨-, taken, hbuf, htaken⟩ := (bufferAllocate_outcome _ _).of_ok halloc
    obtain ⟨rfl, rfl⟩ := Prod.mk.inj hbuf
    have hbytes : c.bytes < 2 ^ 32 := by
      have hlen := hwf.length_lt
      exact lbaToByte_lt hlen
    dsimp only at hr
    split at hr
    · next hshort =>
      rcases htaken with ⟨htaken, -⟩ | ⟨htaken, -⟩
      · subst htaken
        cases hr
        rfl
      · rw [htaken, u32, Nat.mod_eq_of_lt hbytes] at hshort
        exact absurd hshort (Nat.lt_irrefl _)
    · obtain ⟨_, -, hr⟩ := bind_eq_ok.mp hr
      cases hr

namespace ZnsFtl

variable {z z' : ZnsFtl} {zid : Nat} {req : ZnsRequest} {op : ZnsWriteOp} {c c' : RwCommand}

/-- A write that is presented again finds the zones, the buffers and its entry as they were: it is
no append to a zone without a random write area, unless it names the write pointer, and no write to
a closed zone with one. -/
def Transparent (z : ZnsFtl) (op : ZnsWriteOp) (c : RwCommand) : Prop :=
  let d := z.zoneDescs (z.lbaToZone c.slba)
  if d.zrwav then d.state ≠ .closed else op = .append → c.slba = d.wp

/-- A write without a random write area that is presented again has changed its entry alone. -/
theorem znsWriteSeq_none (hwf : c.Wf) (hr : z.znsWriteSeq req op c = .ok (none, c', z')) :
    z' = z ∧
      c' = if op = .append then { c with slba := (z.zoneDescs (z.lbaToZone c.slba)).wp } else c := by
  simp only [znsWriteSeq, bind_eq_ok, getZone_eq_ok] at hr
  obtain ⟨_, ⟨-, rfl⟩, ⟨a, z₀⟩, halloc, hr⟩ := hr
  have hbytes : lbaToByte c.nrLba < 2 ^ 32 := by
    have hlen := hwf.length_lt
    apply lbaToByte_lt
    rw [RwCommand.nrLba, u32]
    omega
  dsimp only at hr
  split at hr
  · next hshort =>
    obtain rfl := allocate_short halloc hbytes hshort
    have hr := Except.ok.inj hr
    exact ⟨(congrArg (fun r => r.2.2) hr).symm, (congrArg (fun r => r.2.1) hr).symm⟩
  · split at hr
    · split at hr
      · cases congrArg Prod.fst (Except.ok.inj hr)
      · cases congrArg Prod.fst (Except.ok.inj hr)
    · cases congrArg Prod.fst (Except.ok.inj hr)

/-- An allocation that returns 0 has done nothing. -/
theorem allocate_zero {b : BufferRef} {size : Nat} (h : z.allocate b size = .ok (0, z'))
    (hsize : (z.buffers b).size < 2 ^ 32) : z' = z := by
  obtain ⟨hle, ⟨-, -, hz⟩ | ⟨hzero, -, rfl⟩⟩ := allocate_cases h
  · exact hz
  · rw [u32, Nat.mod_eq_of_lt (by omega)] at hzero
    subst hzero
    simp [setBuffer]

/-- A write to a random write area that is presented again has changed nothing, unless it has
opened the zone. -/
theorem Booked.znsWriteZrwa_none (h : z.Booked)
    (hsize : (z.buffers (.zrwa (z.lbaToZone c.slba))).size < 2 ^ 32)
    (hv : (z.zoneDescs (z.lbaToZone c.slba)).zrwav = true)
    (hr : z.znsWriteZrwa req c = .ok (none, z')) :
    z' = z ↔ (z.zoneDescs (z.lbaToZone c.slba)).state ≠ .closed := by
  simp only [ZnsFtl.znsWriteZrwa, bind_eq_ok, getZone_eq_ok] at hr
  obtain ⟨_, ⟨hz, rfl⟩, hr⟩ := hr
  generalize z.lbaToZone c.slba = zid at *
  split at hr
  · obtain ⟨⟨s, z₁⟩, hopen, hr⟩ := bind_eq_ok.mp hr
    have hsizes := openForZrwa_sizes hopen (.zrwa zid)
    rcases h.openForZrwa hz hv hopen with ⟨hne, -⟩ | ⟨rfl, -, hcase⟩
    · cases s with
      | success => exact absurd rfl hne
      | _ => cases congrArg Prod.fst (Except.ok.inj hr)
    · obtain ⟨n, -, hr⟩ := bind_eq_ok.mp hr
      split at hr
      · obtain ⟨⟨a, z₂⟩, halloc, hr⟩ := bind_eq_ok.mp hr
        dsimp only at hr
        split at hr
        · next hzero =>
          subst hzero
          obtain rfl : z₂ = z' := congrArg Prod.snd (Except.ok.inj hr)
          obtain rfl := allocate_zero halloc (by rwa [hsizes])
          rcases hcase with ⟨hst, rfl⟩ | ⟨hclosed, hm⟩
          · apply iff_of_true rfl
            intro hclosed
            rw [hclosed] at hst
            cases hst
          · refine iff_of_false (fun heq => ?_) (not_not.mpr hclosed)
            have hst := congrArg ZoneDescriptor.state (congrFun hm.zoneDescs zid)
            rw [heq, Function.update_self, hclosed] at hst
            cases hst
        · cases congrArg Prod.fst (Except.ok.inj hr)
      · cases congrArg Prod.fst (Except.ok.inj hr)
  · cases congrArg Prod.fst (Except.ok.inj hr)

/-- A write that is presented again has changed neither the state nor its entry exactly when the
condition on its zone holds. -/
theorem Booked.znsWrite_none (h : z.Booked) (hs : z.Shaped) (hwf : c.Wf)
    (hsize : ∀ zid, (z.buffers (.zrwa zid)).size < 2 ^ 32)
    (hr : z.znsWrite req op c = .ok (none, c', z')) :
    (z' = z ∧ c' = c) ↔ z.Transparent op c := by
  unfold Transparent
  rcases hs.znsWrite_eq_ok hr with ⟨hv, hzrwa, rfl⟩ | ⟨hv, hseq⟩
  · dsimp only
    rw [if_pos hv, and_iff_left rfl]
    exact h.znsWriteZrwa_none (hsize _) hv hzrwa
  · have hv : ¬ (z.zoneDescs (z.lbaToZone c.slba)).zrwav = true := Bool.eq_false_iff.mp hv
    obtain ⟨rfl, rfl⟩ := znsWriteSeq_none hwf hseq
    dsimp only
    rw [if_neg hv, and_iff_right rfl]
    by_cases hop : op = .append
    · rw [if_pos hop]
      refine ⟨fun heq _ => (congrArg RwCommand.slba heq).symm, fun hwp => ?_⟩
      rw [← hwp hop]
    · rw [if_neg hop]
      exact iff_of_true rfl fun hop' => absurd hop' hop

end ZnsFtl

/-- What a write leaves behind when it is to be presented again: nothing in a conventional
namespace. After every run of a namespace with zones, nothing exactly when it is no append that
names another block than the write pointer, and no write to a closed zone with a random write
area. -/
theorem retry_transparent (req : ZnsRequest) (c : RwCommand) (hwf : c.Wf) :
    (∀ ns ns' : ConvNs, ns.convWrite req.toNvmevRequest c = .ok (none, ns') → ns' = ns) ∧
    ∀ (cfg : ZnsConfig) (mem : ZnsMemory) (clock : Clock) (size : Nat) (events : List ZnsEvent)
      (z z' : ZnsFtl) (op : ZnsWriteOp) (c' : RwCommand),
      znsRun cfg mem clock size events = .ok z → z.znsWrite req op c = .ok (none, c', z') →
      ((z' = z ∧ c' = c) ↔ z.Transparent op c) := by
  refine ⟨fun ns ns' hr => ConvNs.convWrite_none hwf hr, ?_⟩
  intro cfg mem clock size events z z' op c' hrun hr
  obtain ⟨z₀, hfresh, hevents, hb, hs, -⟩ := ZnsFtl.reached_of_run hrun
  apply hb.znsWrite_none hs hwf _ hr
  intro zid
  rw [ZnsFtl.run_sizes hevents, hfresh.buffers]
  exact hfresh.zrwaBufferSize_lt

/-- An append of `length + 1` blocks to the first zone. -/
def appendFirst (length : Nat) : ZnsEvent :=
  .command requestAtZero (.write .append { slba := 0, length, fua := false })

/-- The first zone, written to its end while its buffer is nearly full. -/
def fillFirst : List ZnsEvent :=
  [appendFirst 511, appendFirst 511, appendFirst 511, appendFirst 383, .release 0, appendFirst 127]

/-- A write that is out of range of a conventional namespace, and a write to a zone whose buffer has
no room, leave no trace. -/
theorem retry_transparent_write :
    (∃ ns ns' : ConvNs, convRun samsung970proSlc.toSsdConfig default default (mb 3071) [] = .ok ns ∧
      ns.convWrite requestAtZero.toNvmevRequest ⟨2 ^ 40, 0, false⟩ = .ok (none, ns') ∧ ns' = ns) ∧
    ∃ z z' : ZnsFtl, ∃ c', znsRun wdZn540 default default (mb 2) fillFirst = .ok z ∧
      z.znsWrite requestAtZero .write ⟨0, 64, false⟩ = .ok (none, c', z') ∧
      z' = z ∧ c' = ⟨0, 64, false⟩ := by
  have hconv : (do
      let ns ← convRun samsung970proSlc.toSsdConfig default default (mb 3071) []
      ns.convWrite requestAtZero.toNvmevRequest ⟨2 ^ 40, 0, false⟩ : Except Fault (Option Nat × ConvNs)).map Prod.fst =
      .ok none := by decide +kernel
  have hzns : (do
      let z ← znsRun wdZn540 default default (mb 2) fillFirst
      let r ← z.znsWrite requestAtZero .write ⟨0, 64, false⟩
      return (r.1, (z.zoneDescs (z.lbaToZone 0)).zrwav) :
      Except ZnsFault (Option ZnsResult × Bool)) = .ok (none, false) := by decide +kernel
  constructor
  · obtain ⟨⟨result, ns'⟩, hrun, rfl⟩ := except_map_eq_ok.mp hconv
    obtain ⟨ns, hns, hwrite⟩ := bind_eq_ok.mp hrun
    exact ⟨ns, ns', hns, hwrite,
      (retry_transparent requestAtZero ⟨2 ^ 40, 0, false⟩ ⟨by simp, by simp⟩).1 ns ns' hwrite⟩
  · obtain ⟨z, hz, hrun⟩ := bind_eq_ok.mp hzns
    obtain ⟨⟨result, c', z'⟩, hwrite, hret⟩ := bind_eq_ok.mp hrun
    injection hret with hret
    obtain ⟨rfl, hv⟩ := Prod.mk.inj hret
    have htransparent : z.Transparent .write ⟨0, 64, false⟩ := by
      unfold ZnsFtl.Transparent
      simp [hv]
    exact ⟨z, z', c', hz, hwrite, ((retry_transparent requestAtZero ⟨0, 64, false⟩
      ⟨by simp, by simp⟩).2 wdZn540 default default (mb 2) fillFirst z z' .write c' hz
      hwrite).mpr htransparent⟩

/-- An append of 65 blocks to the full first zone finds no room in its buffer; presented again, it
writes to the second zone. -/
theorem append_retried_elsewhere :
    (do
      let z ← znsRun wdZn540 default default (mb 2) fillFirst
      let cmd := ZnsCommand.write .append { slba := 0, length := 64, fua := false }
      let (result, cmd, z) ← z.znsProcNvmeIoCmd requestAtZero cmd
      let (retried, _, z) ← z.znsProcNvmeIoCmd requestAtZero cmd
      return (result.isNone, cmd, retried.map ZnsResult.status, (z.zoneDescs 1).wp)) =
    .ok (true, .write .append { slba := 2048, length := 64, fua := false }, some 0, 2048 + 65) := by
  decide +kernel

end NvmeVirt
