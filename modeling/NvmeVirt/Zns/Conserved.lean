import Mathlib.Data.List.Perm.Basic
import Mathlib.Algebra.BigOperators.Group.List.Basic
import NvmeVirt.Zns.Ledger
import NvmeVirt.Zns.Oneshot
import NvmeVirt.Zns.Retry

/-!
# What is in flight

Every byte of a write buffer is free, or its release is scheduled, or it waits for its one-shot page
to be programmed. The balance is kept while no write ends inside the last page of a one-shot page,
and zones are finished and reset only between one-shot pages.
-/

namespace NvmeVirt

open Checked Blocks Tally

namespace ZnsFtl

variable {z z' z'' : ZnsFtl} {zid i n : Nat} {d d' : ZoneDescriptor} {b : BufferRef}

/-! ## The balance -/

/-- The number of blocks that a zone has been written for. -/
def fill (z : ZnsFtl) (zid : Nat) : Nat := (z.zoneDescs zid).wp - (z.zoneDescs zid).zslba

/-- The same in bytes. -/
def written (z : ZnsFtl) (zid : Nat) : Nat := z.fill zid * z.ssd.sp.secsz

/-- The bytes of a zone that were written to one-shot pages not yet programmed. A full zone has
returned them. -/
def unprogrammed (z : ZnsFtl) (zid : Nat) : Nat :=
  if (z.zoneDescs zid).state = .full then 0
  else ∑ k ∈ Finset.range z.oneshots with z.firstOneshot zid + k ∉ z.programs zid,
    part (z.written zid) z.oneshotSize k

/-- The number of one-shot pages of a zone that were written to their end, or to the end of the
zone. -/
def completed (z : ZnsFtl) (zid : Nat) : Nat :=
  if z.written zid = z.zp.zoneSize then z.oneshots else z.written zid / z.oneshotSize

/-- The bytes of a buffer whose release is scheduled. -/
def releasing (z : ZnsFtl) (b : BufferRef) : Nat :=
  ((z.pending.filter (·.writeBuffer = b)).map ZnsInternalOp.buffsToRelease).sum

/-- The bytes of a buffer that wait for their one-shot pages, over all zones it serves. -/
def held (z : ZnsFtl) (b : BufferRef) : Nat :=
  ∑ zid ∈ Finset.range z.zp.nrZones with z.writeBufferOf zid = b, z.unprogrammed zid

/-- Every byte of the buffer is accounted for. -/
def Balanced (z : ZnsFtl) (b : BufferRef) : Prop :=
  (z.buffers b).remaining + z.releasing b + z.held b = (z.buffers b).size

instance (z : ZnsFtl) (b : BufferRef) : Decidable (z.Balanced b) :=
  inferInstanceAs (Decidable (_ = _))

/-- The buffers of all zones are balanced, and each zone has its one-shot pages programmed once,
in their order. -/
structure Conserved (z : ZnsFtl) : Prop where
  balanced : ∀ zid < z.zp.nrZones, z.Balanced (z.writeBufferOf zid)
  programs : ∀ zid < z.zp.nrZones,
    z.programs zid = (List.range (z.completed zid)).map (z.firstOneshot zid + ·)

/-! ## Which runs -/

/-- A write that returns a result succeeds, and no zone is opened with a random write area. -/
def Plain (z : ZnsFtl) : ZnsEvent → Prop
  | .command req (.write op c) =>
    c.Wf ∧ ∀ r c' z', z.znsWrite req op c = .ok (some r, c', z') → r.status = 0
  | .command _ (.mgmtSend c) => c.zsa = .open → c.zsaso = false
  | _ => True

/-- A write of `n` blocks to a zone that is not at its end. It ends on a page, or in a page that
ends no one-shot page; when it ends with the zone, the last one-shot page is seen to end there. -/
structure Aligned (z : ZnsFtl) (zid n : Nat) : Prop where
  room : z.fill zid < z.lbasPerZone
  start : z.StartSeen zid
  fits : z.fill zid / z.ssd.sp.secsPerPg % z.ssd.sp.pgsPerOneshotpg < 2 ^ pageBits
  inside : (z.fill zid + n) % z.ssd.sp.secsPerPg ≠ 0 →
    ((z.fill zid + n) / z.ssd.sp.secsPerPg + 1) % z.ssd.sp.pgsPerOneshotpg ≠ 0 ∧
      ¬ ((z.fill zid + n) / z.ssd.sp.secsPerPg + 1 = z.pgsPerZone ∧ z.EndSeen zid)
  full : z.fill zid + n = z.lbasPerZone →
    z.EndSeen zid ∨ z.pgsPerZone % z.ssd.sp.pgsPerOneshotpg = 0

/-- A write that finds room in its buffer is aligned, and a zone is finished or reset only when all
that was written to it has been programmed. -/
def Settles (z : ZnsFtl) : Cause → Prop
  | .write c =>
    lbaToByte c.nrLba ≤ (z.buffers (z.writeBufferOf (z.lbaToZone c.slba))).remaining →
      z.Aligned (z.lbaToZone c.slba) c.nrLba
  | .send slba .finish _ => z.unprogrammed (z.lbaToZone slba) = 0
  | .send slba .reset _ => z.unprogrammed (z.lbaToZone slba) = 0
  | .send .. => True

/-! ## Filling a zone -/

/-- The number of one-shot pages that are programmed with the first `n` blocks of a zone. -/
def complete (z : ZnsFtl) (n : Nat) : Nat :=
  if n = z.lbasPerZone then z.oneshots else n / z.ssd.sp.secsPerPg / z.ssd.sp.pgsPerOneshotpg

/-- The bytes of these one-shot pages. -/
def drained (z : ZnsFtl) (n : Nat) : Nat :=
  if n = z.lbasPerZone then z.zp.zoneSize
  else n / z.ssd.sp.secsPerPg / z.ssd.sp.pgsPerOneshotpg * z.oneshotSize

/-- A zone that has been written from its start on, in whole one-shot pages but for the last. -/
structure Settled (z : ZnsFtl) (zid : Nat) : Prop where
  zslba : (z.zoneDescs zid).zslba = zid * z.lbasPerZone
  zoneCapacity : (z.zoneDescs zid).zoneCapacity = z.lbasPerZone
  lower : (z.zoneDescs zid).zslba ≤ (z.zoneDescs zid).wp
  upper : z.fill zid ≤ z.lbasPerZone
  zrwav : (z.zoneDescs zid).zrwav = false
  programs : z.programs zid = (List.range (z.completed zid)).map (z.firstOneshot zid + ·)

theorem Shaped.zoneSize_bytes (hs : z.Shaped) : z.zp.zoneSize = z.lbasPerZone * 512 := by
  rw [hs.zoneSize_eq, hs.lbasPerZone_eq]
  omega

theorem Shaped.written_eq (hs : z.Shaped) : z.written zid = z.fill zid * 512 := by
  rw [written, hs.secsz]

/-- The one-shot pages that are complete. -/
theorem Shaped.completed_eq (hs : z.Shaped) : z.completed zid = z.complete (z.fill zid) := by
  have hiff : z.fill zid * 512 = z.lbasPerZone * 512 ↔ z.fill zid = z.lbasPerZone := by omega
  have hdiv : z.fill zid * 512 / (z.ssd.sp.pgsPerOneshotpg * 4096) =
      z.fill zid / 8 / z.ssd.sp.pgsPerOneshotpg := by
    rw [Nat.mul_comm z.ssd.sp.pgsPerOneshotpg, ← Nat.div_div_eq_div_mul]
    congr 1
    omega
  simp only [completed, complete, hs.written_eq, hs.zoneSize_bytes, hs.oneshotSize_eq, hiff, hdiv,
    hs.secsPerPg]

theorem Shaped.oneshotSize_pos (hs : z.Shaped) : 0 < z.oneshotSize := by
  have := hs.oneshot_pos
  rw [hs.oneshotSize_eq]
  omega

/-- The one-shot pages of a zone hold it. -/
theorem Shaped.zoneSize_le (hs : z.Shaped) : z.zp.zoneSize ≤ z.oneshots * z.oneshotSize := by
  have hpos := hs.oneshotSize_pos
  have h := Nat.lt_div_mul_add (a := z.zp.zoneSize + z.oneshotSize - 1) hpos
  rw [oneshots]
  omega

/-- The bytes that wait are those behind the last complete one-shot page. -/
theorem Settled.unprogrammed_add (h : z.Settled zid) (hs : z.Shaped)
    (hne : (z.zoneDescs zid).state ≠ .full) :
    z.unprogrammed zid + z.drained (z.fill zid) = z.fill zid * 512 := by
  have hle := hs.zoneSize_le
  have hpos := hs.oneshotSize_pos
  have hupper := h.upper
  have hbytes := hs.zoneSize_bytes
  have hfilter : ∀ k, z.firstOneshot zid + k ∉ z.programs zid ↔ z.completed zid ≤ k := by
    intro k
    simp [h.programs]
  have hcompleted : z.completed zid ≤ z.oneshots := by
    unfold completed
    split
    · exact Nat.le_refl _
    · rw [hs.written_eq]
      apply (Nat.div_le_div_right (show z.fill zid * 512 ≤ z.zp.zoneSize by omega)).trans
      rw [oneshots]
      apply Nat.div_le_div_right
      omega
  have hsum := sum_part_from (W := z.fill zid * 512) (O := z.oneshotSize) hcompleted
  simp only [unprogrammed, if_neg hne, hfilter, hs.written_eq]
  have hdrained : min (z.fill zid * 512) (z.completed zid * z.oneshotSize) =
      z.drained (z.fill zid) := by
    rw [hs.completed_eq, complete, drained, hs.secsPerPg]
    split
    · next hfull => omega
    · apply Nat.min_eq_right
      rw [hs.oneshotSize_eq, ← Nat.mul_assoc]
      have := Nat.div_mul_le_self (z.fill zid / 8) z.ssd.sp.pgsPerOneshotpg
      omega
  rwa [hdrained, Nat.min_eq_left (show z.fill zid * 512 ≤ z.oneshots * z.oneshotSize by omega)]
    at hsum

/-- The loop has programmed what an aligned write completes. -/
theorem Aligned.ends (h : z.Aligned zid n) (hs : z.Shaped) (hn : 0 < n) :
    z.oneshotsIn zid ((z.fill zid + n - 1) / 8 + 1) = z.complete (z.fill zid + n) ∧
      z.bytesIn zid ((z.fill zid + n - 1) / 8 + 1) = z.drained (z.fill zid + n) := by
  have hpos := hs.oneshot_pos
  have hlbas := hs.lbasPerZone_eq
  have hsize := hs.zoneSize_eq
  have hinside := h.inside
  rw [hs.secsPerPg] at hinside
  generalize hm : z.fill zid + n = m at *
  rw [oneshotsIn, bytesIn, complete, drained, hs.secsPerPg]
  by_cases hend : m = z.lbasPerZone
  · -- the write ends with the zone
    have hq : (m - 1) / 8 + 1 = z.pgsPerZone := by omega
    rw [if_pos hend, if_pos hend, hq]
    by_cases hseen : z.EndSeen zid
    · rw [if_pos ⟨rfl, hseen⟩, if_pos ⟨rfl, hseen⟩]
      exact ⟨rfl, rfl⟩
    · have hmod := (h.full (hm.trans hend)).resolve_left hseen
      have hdiv := Nat.div_add_mod' z.pgsPerZone z.ssd.sp.pgsPerOneshotpg
      rw [hmod, Nat.add_zero] at hdiv
      rw [if_neg fun h => hseen h.2, if_neg fun h => hseen h.2, oneshots, hs.oneshotSize_eq, hsize]
      refine ⟨(Nat.div_eq_of_lt_le ?_ ?_).symm, ?_⟩
      · rw [← Nat.mul_assoc, hdiv]
        omega
      · rw [Nat.add_one_mul, ← Nat.mul_assoc, hdiv]
        omega
      · rw [← Nat.mul_assoc, hdiv]
  · rw [if_neg hend, if_neg hend]
    by_cases hmod : m % 8 = 0
    · have hq : (m - 1) / 8 + 1 = m / 8 := by omega
      have hne : ¬ (m / 8 = z.pgsPerZone ∧ z.EndSeen zid) := by omega
      rw [hq, if_neg hne, if_neg hne]
      exact ⟨rfl, rfl⟩
    · have hq : (m - 1) / 8 + 1 = m / 8 + 1 := by omega
      obtain ⟨hopen, hne⟩ := hinside hmod
      have hdiv : (m / 8 + 1) / z.ssd.sp.pgsPerOneshotpg = m / 8 / z.ssd.sp.pgsPerOneshotpg := by
        rw [Nat.succ_div_of_not_dvd (mt Nat.mod_eq_zero_of_dvd hopen)]
      rw [hq, if_neg hne, if_neg hne, hdiv]
      exact ⟨rfl, rfl⟩

/-! ## Zones that are left alone -/

/-- The zone `i` has been written and programmed alike. -/
structure SameFill (z z' : ZnsFtl) (i : Nat) : Prop extends z.SameSizing z' where
  wp : (z'.zoneDescs i).wp = (z.zoneDescs i).wp
  zslba : (z'.zoneDescs i).zslba = (z.zoneDescs i).zslba
  zoneCapacity : (z'.zoneDescs i).zoneCapacity = (z.zoneDescs i).zoneCapacity
  zrwav : (z'.zoneDescs i).zrwav = (z.zoneDescs i).zrwav
  programs : z'.programs i = z.programs i

theorem SameFill.of_eq (h : z.SameSizing z') (hd : z'.zoneDescs i = z.zoneDescs i)
    (hp : z'.programs i = z.programs i) : z.SameFill z' i :=
  ⟨h, by rw [hd], by rw [hd], by rw [hd], by rw [hd], hp⟩

theorem SameSizing.shaped (h : z.SameSizing z') (hs : z.Shaped) : z'.Shaped := by
  unfold Shaped
  rw [h.zp, h.sp]
  exact hs

theorem SameSizing.lbasPerZone (h : z.SameSizing z') : z'.lbasPerZone = z.lbasPerZone :=
  lbasPerZone_congr h.zp h.sp

theorem SameSizing.oneshotSize (h : z.SameSizing z') : z'.oneshotSize = z.oneshotSize := by
  rw [ZnsFtl.oneshotSize, ZnsFtl.oneshotSize, h.sp]

theorem SameSizing.oneshots (h : z.SameSizing z') : z'.oneshots = z.oneshots := by
  rw [ZnsFtl.oneshots, ZnsFtl.oneshots, h.oneshotSize, h.zp]

theorem SameSizing.firstOneshot (h : z.SameSizing z') (i : Nat) :
    z'.firstOneshot i = z.firstOneshot i := by
  rw [ZnsFtl.firstOneshot, ZnsFtl.firstOneshot, h.oneshotIndex, pgsPerZone, pgsPerZone, h.zp, h.sp]

theorem SameSizing.writeBufferOf (h : z.SameSizing z') (i : Nat) :
    z'.writeBufferOf i = z.writeBufferOf i := by
  rw [ZnsFtl.writeBufferOf, ZnsFtl.writeBufferOf, h.zp]

theorem SameFill.fill (h : z.SameFill z' i) : z'.fill i = z.fill i := by
  rw [ZnsFtl.fill, ZnsFtl.fill, h.wp, h.zslba]

theorem SameFill.completed (h : z.SameFill z' i) : z'.completed i = z.completed i := by
  rw [ZnsFtl.completed, ZnsFtl.completed, written, written, h.fill, h.sp, h.zp, h.oneshots,
    h.oneshotSize]

theorem SameFill.settled (h : z.SameFill z' i) (hz : z.Settled i) : z'.Settled i := by
  refine ⟨?_, ?_, ?_, ?_, ?_, ?_⟩
  · rw [h.zslba, h.lbasPerZone]
    exact hz.zslba
  · rw [h.zoneCapacity, h.lbasPerZone]
    exact hz.zoneCapacity
  · rw [h.zslba, h.wp]
    exact hz.lower
  · rw [h.fill, h.lbasPerZone]
    exact hz.upper
  · rw [h.zrwav]
    exact hz.zrwav
  · rw [h.programs, h.completed, h.firstOneshot]
    exact hz.programs

theorem SameFill.unprogrammed (h : z.SameFill z' i)
    (hfull : (z'.zoneDescs i).state = .full ↔ (z.zoneDescs i).state = .full) :
    z'.unprogrammed i = z.unprogrammed i := by
  simp only [ZnsFtl.unprogrammed, written, hfull, h.oneshots, h.programs, h.fill, h.oneshotSize,
    h.firstOneshot, h.sp]

/-! ## The invariant -/

/-- Every zone is settled, and the buffers of all zones are balanced. -/
structure Conserving (z : ZnsFtl) : Prop where
  booked : z.Booked
  shaped : z.Shaped
  zones : ∀ i < z.zp.nrZones, z.Settled i
  balanced : ∀ i < z.zp.nrZones, z.Balanced (z.writeBufferOf i)

/-- Only the zone `zid` waits for other bytes. -/
theorem held_change (hz : zid < z.zp.nrZones) (hsame : z.SameSizing z')
    (hun : ∀ i < z.zp.nrZones, i ≠ zid → z'.unprogrammed i = z.unprogrammed i) :
    z'.held (z.writeBufferOf zid) + z.unprogrammed zid =
      z.held (z.writeBufferOf zid) + z'.unprogrammed zid := by
  simp only [held, hsame.writeBufferOf, hsame.zp]
  apply sum_change
  · simp [hz]
  · intro i hi hne
    exact hun i (Finset.mem_range.mp (Finset.mem_filter.mp hi).1) hne

/-- The other buffers wait for the same bytes. -/
theorem held_other (hsame : z.SameSizing z') (hb : z.writeBufferOf zid ≠ b)
    (hun : ∀ i < z.zp.nrZones, i ≠ zid → z'.unprogrammed i = z.unprogrammed i) :
    z'.held b = z.held b := by
  simp only [held, hsame.writeBufferOf, hsame.zp]
  apply Finset.sum_congr rfl
  intro i hi
  obtain ⟨hi, hserves⟩ := Finset.mem_filter.mp hi
  apply hun i (Finset.mem_range.mp hi)
  rintro rfl
  exact hb hserves

/-- Nothing moves through the buffers of the zones. -/
theorem Conserving.of_still (h : z.Conserving) (hb : z'.Booked) (hsame : z.SameSizing z')
    (hfill : ∀ i < z.zp.nrZones, z'.Settled i ∧ z'.unprogrammed i = z.unprogrammed i)
    (hbuffers : ∀ i < z.zp.nrZones, z'.buffers (z.writeBufferOf i) = z.buffers (z.writeBufferOf i))
    (hpending : z'.pending = z.pending) : z'.Conserving := by
  refine ⟨hb, hsame.shaped h.shaped, fun i hi => ?_, fun i hi => ?_⟩
  · rw [hsame.zp] at hi
    exact (hfill i hi).1
  · rw [hsame.zp] at hi
    have hheld : z'.held (z.writeBufferOf i) = z.held (z.writeBufferOf i) := by
      simp only [held, hsame.writeBufferOf, hsame.zp]
      apply Finset.sum_congr rfl
      intro j hj
      exact (hfill j (Finset.mem_range.mp (Finset.mem_filter.mp hj).1)).2
    rw [hsame.writeBufferOf, Balanced, hheld, hbuffers i hi, releasing, hpending]
    exact h.balanced i hi

/-- Nothing moves, and the zones are left alone. -/
theorem Conserving.of_same (h : z.Conserving) (hs : z.SameZones z') (hflow : z'.flow = z.flow) :
    z'.Conserving := by
  have hsame : z.SameSizing z' := ⟨hs.zp, hs.sp⟩
  have hprograms := programs_of_flow hflow
  refine h.of_still (hs.booked h.booked) hsame (fun i hi => ?_) (fun i _ => ?_)
    (pending_of_flow hflow)
  · have hfill : z.SameFill z' i :=
      .of_eq hsame (congrFun hs.zoneDescs i) (congrFun hprograms i)
    exact ⟨hfill.settled (h.zones i hi), hfill.unprogrammed (by rw [hs.zoneDescs])⟩
  · rw [buffers_of_flow hflow]

/-! ## Releases -/

/-- A worker gives back the bytes of one internal operation. -/
theorem balanced_completeInternal (h : z.Balanced b) (j : Nat) :
    (z.completeInternal j).Balanced b := by
  cases hop : z.pending[j]? with
  | none =>
    unfold completeInternal
    rw [hop]
    exact h
  | some op =>
    obtain ⟨hj, rfl⟩ := List.getElem?_eq_some_iff.mp hop
    have hrun : z.completeInternal j =
        { z.setBuffer z.pending[j].writeBuffer (bufferRelease
            (z.buffers z.pending[j].writeBuffer) z.pending[j].buffsToRelease) with
          pending := z.pending.eraseIdx j } := by
      unfold completeInternal
      rw [hop]
    have hheld : (z.completeInternal j).held b = z.held b := by
      rw [hrun]
      rfl
    have hperm := ((List.getElem_cons_eraseIdx_perm hj).filter (·.writeBuffer = b)).map
      ZnsInternalOp.buffsToRelease
    have hsum := hperm.sum_eq
    rw [Balanced, hheld, releasing, hrun]
    change (Function.update z.buffers _ _ b).remaining + _ + _ =
      (Function.update z.buffers _ _ b).size
    dsimp only
    rw [Balanced, releasing, ← hsum] at h
    by_cases hb : z.pending[j].writeBuffer = b
    · subst hb
      rw [List.filter_cons_of_pos (by simp), List.map_cons, List.sum_cons] at h
      rw [Function.update_self, bufferRelease]
      dsimp only
      omega
    · rw [List.filter_cons_of_neg (by simpa using hb)] at h
      rw [Function.update_of_ne (Ne.symm hb)]
      exact h

theorem Conserving.completeInternal (h : z.Conserving) (j : Nat) :
    (z.completeInternal j).Conserving := by
  have hs := @completeInternal_same z j
  have hsame : z.SameSizing (z.completeInternal j) := ⟨hs.zp, hs.sp⟩
  have hprograms : (z.completeInternal j).programs = z.programs := by
    unfold ZnsFtl.completeInternal
    split <;> rfl
  refine ⟨hs.booked h.booked, hs.shaped h.shaped, fun i hi => ?_, fun i hi => ?_⟩
  · rw [hs.zp] at hi
    have hfill : z.SameFill (z.completeInternal j) i :=
      .of_eq hsame (congrFun hs.zoneDescs i) (congrFun hprograms i)
    exact hfill.settled (h.zones i hi)
  · rw [hs.zp] at hi
    rw [hsame.writeBufferOf]
    exact balanced_completeInternal (h.balanced i hi) j

/-! ## Zone management -/

/-- What a reset does to a zone, and to the buffers that zones are written through. -/
structure Cleared (z z' : ZnsFtl) (zid : Nat) : Prop extends z.SameSizing z' where
  zoneDescs : z'.zoneDescs = Function.update z.zoneDescs zid
    { z.zoneDescs zid with state := .empty, wp := (z.zoneDescs zid).zslba, zrwav := false }
  programs : z'.programs = Function.update z.programs zid []
  pending : z'.pending = z.pending
  buffers : ∀ i, z'.buffers (z.writeBufferOf i) = z.buffers (z.writeBufferOf i)

theorem cleared_clearZone (hzp : z'.zp = z.zp) (hssd : z'.ssd = z.ssd)
    (hdescs : z'.zoneDescs = z.zoneDescs) (hflow : z'.flow = z.flow) :
    z.Cleared ((z'.changeZoneState zid .empty).clearZone zid) zid := by
  obtain ⟨hzp', hssd', hdescs'⟩ := @clearZone_fields (z'.changeZoneState zid .empty) zid
  have hpending : ((z'.changeZoneState zid .empty).clearZone zid).pending = z'.pending := by
    unfold clearZone
    dsimp only
    split <;> rfl
  have hprograms : ((z'.changeZoneState zid .empty).clearZone zid).programs =
      Function.update z'.programs zid [] := by
    unfold clearZone
    dsimp only
    split <;> rfl
  have hbuffers : ∀ i, ((z'.changeZoneState zid .empty).clearZone zid).buffers
      (z.writeBufferOf i) = z'.buffers (z.writeBufferOf i) := by
    intro i
    have hne : z.writeBufferOf i ≠ .zrwa zid := by
      unfold ZnsFtl.writeBufferOf
      split <;> exact BufferRef.noConfusion
    unfold clearZone
    dsimp only
    split
    · exact Function.update_of_ne hne ..
    · rfl
  refine ⟨⟨?_, ?_⟩, ?_, ?_, ?_, fun i => ?_⟩
  · exact hzp'.trans hzp
  · rw [hssd']
    exact congrArg Ssd.sp hssd
  · rw [hdescs', changeZoneState_zoneDescs, hdescs, Function.update_self, Function.update_idem]
  · rw [hprograms, programs_of_flow hflow]
  · exact hpending.trans (pending_of_flow hflow)
  · rw [hbuffers, buffers_of_flow hflow]

theorem resetZone_cleared : (z.resetZone zid).2 = z ∨ z.Cleared (z.resetZone zid).2 zid := by
  obtain ⟨hzp, hssd, hdescs, -⟩ := @releaseActive_fields z (z.zoneDescs zid).zrwav
  obtain ⟨hzp', hssd', hdescs', -⟩ :=
    @releaseActive_fields (z.releaseZoneResource .opened) (z.zoneDescs zid).zrwav
  unfold ZnsFtl.resetZone
  dsimp only
  split
  · exact Or.inr (cleared_clearZone hzp' hssd' hdescs' (by simp))
  · exact Or.inr (cleared_clearZone hzp' hssd' hdescs' (by simp))
  · exact Or.inr (cleared_clearZone hzp hssd hdescs (by simp))
  · exact Or.inr (cleared_clearZone rfl rfl rfl rfl)
  · exact Or.inr (cleared_clearZone rfl rfl rfl rfl)
  · exact Or.inl rfl

/-- A zone that has been reset is settled, and nothing waits in it. -/
theorem Cleared.settled (h : z.Cleared z' zid) (hs : z.Shaped) (hz : z.Settled zid) :
    z'.Settled zid ∧ z'.unprogrammed zid = 0 := by
  have hlpos := hs.lbasPerZone_pos
  have hs' : z'.Shaped := h.toSameSizing.shaped hs
  have hd : z'.zoneDescs zid =
      { z.zoneDescs zid with state := .empty, wp := (z.zoneDescs zid).zslba, zrwav := false } := by
    rw [h.zoneDescs, Function.update_self]
  have hfill : z'.fill zid = 0 := by
    rw [fill, hd, Nat.sub_self]
  have hempty : 0 ≠ z.lbasPerZone := by omega
  have hset : z'.Settled zid := by
    refine ⟨?_, ?_, ?_, ?_, ?_, ?_⟩
    · rw [hd, h.lbasPerZone]
      exact hz.zslba
    · rw [hd, h.lbasPerZone]
      exact hz.zoneCapacity
    · rw [hd]
    · rw [hfill]
      exact Nat.zero_le _
    · rw [hd]
    · rw [h.programs, Function.update_self, hs'.completed_eq, hfill, complete, h.lbasPerZone,
        if_neg hempty, Nat.zero_div, Nat.zero_div]
      rfl
  refine ⟨hset, ?_⟩
  have hne : (z'.zoneDescs zid).state ≠ .full := by
    rw [hd]
    exact ZoneState.noConfusion
  have hsum := hset.unprogrammed_add hs' hne
  rw [hfill] at hsum
  omega

/-- An action that is no reset changes the state of a zone alone, and only a finish makes it full. -/
theorem Change.sentState {slba : Nat} {action : ZoneSendAction} {option : Bool} {leak : Nat}
    (hv : (z.zoneDescs zid).zrwav = false) (hne : action ≠ .reset)
    (hplain : action = .open → option = false)
    (hc : z.Change zid (.send slba action option) d' leak) :
    d' = { z.zoneDescs zid with state := d'.state } ∧
      ((d'.state = .full ↔ (z.zoneDescs zid).state = .full) ∨
        action = .finish ∧ d'.state = .full) := by
  cases hc with
  | close hs =>
    refine ⟨rfl, Or.inl (iff_of_false ZoneState.noConfusion fun hfull => ?_)⟩
    rw [hfull] at hs
    cases hs
  | finish => exact ⟨rfl, Or.inr ⟨rfl, rfl⟩⟩
  | openActive hs =>
    refine ⟨rfl, Or.inl (iff_of_false ZoneState.noConfusion fun hfull => ?_)⟩
    rw [hfull] at hs
    cases hs
  | openEmpty hzid hs =>
    obtain rfl := hplain rfl
    refine ⟨by rw [← hv], Or.inl (iff_of_false ZoneState.noConfusion fun hfull => ?_)⟩
    rw [hfull] at hs
    cases hs
  | reset => exact absurd rfl hne
  | offline hs =>
    refine ⟨rfl, Or.inl (iff_of_false ZoneState.noConfusion fun hfull => ?_)⟩
    rw [hfull] at hs
    cases hs
  | flush hs hv' =>
    rw [hv] at hv'
    cases hv'

/-- One action on one zone. -/
theorem Conserving.zmgmtSend {slba : Nat} {action : ZoneSendAction} {option : Bool}
    {status : Option ZnsStatus} (h : z.Conserving) (hplain : action = .open → option = false)
    (hok : z.Settles (.send slba action option))
    (hr : z.zmgmtSend slba action option = .ok (status, z')) : z'.Conserving := by
  have hb' : z'.Booked := by
    have hbase := (base_kept z.zp z.ssd.sp).zmgmtSend ⟨h.booked, h.shaped, rfl, rfl⟩ trivial hr
    exact hbase.1
  by_cases hreset : action = .reset
  · subst hreset
    obtain ⟨hz, rfl⟩ := zmgmtSend_zone (r := z.resetZone _) hr rfl
    rcases @resetZone_cleared z (z.lbaToZone slba) with heq | hcleared
    · rw [heq]
      exact h
    · have hsame := hcleared.toSameSizing
      refine h.of_still hb' hsame (fun i hi => ?_) (fun i _ => hcleared.buffers i) hcleared.pending
      by_cases hiz : i = z.lbaToZone slba
      · subst hiz
        obtain ⟨hsettled, hnone⟩ := hcleared.settled h.shaped (h.zones _ hi)
        exact ⟨hsettled, hnone.trans hok.symm⟩
      · have hd := congrFun hcleared.zoneDescs i
        have hp := congrFun hcleared.programs i
        rw [Function.update_of_ne hiz] at hd hp
        have hfill : z.SameFill _ i := .of_eq hsame hd hp
        exact ⟨hfill.settled (h.zones i hi), hfill.unprogrammed (by rw [hd])⟩
  · have hflow := zmgmtSend_flow hreset hr
    rcases h.booked.zmgmtSend hr with hs | ⟨s, -, hz, hspec⟩
    · exact h.of_same hs hflow
    cases hspec.effect with
    | same hs => exact h.of_same hs hflow
    | moved hc hm =>
      have hsame : z.SameSizing z' := ⟨hm.zp, hm.sp⟩
      have hprograms := programs_of_flow hflow
      have hbuffers := buffers_of_flow hflow
      refine h.of_still hb' hsame (fun i hi => ?_) (fun i _ => by rw [hbuffers])
        (pending_of_flow hflow)
      have hd := congrFun hm.zoneDescs i
      by_cases hiz : i = z.lbaToZone slba
      · subst hiz
        rw [Function.update_self] at hd
        obtain ⟨hstate, hfull⟩ := hc.sentState (h.zones _ hi).zrwav hreset hplain
        rw [hstate] at hd
        have hfill : z.SameFill z' (z.lbaToZone slba) := by
          refine ⟨hsame, ?_, ?_, ?_, ?_, congrFun hprograms _⟩
          all_goals rw [hd]
        refine ⟨hfill.settled (h.zones _ hi), ?_⟩
        rcases hfull with hfull | ⟨rfl, hfull⟩
        · apply hfill.unprogrammed
          rw [hd]
          exact hfull
        · have hnone : z'.unprogrammed (z.lbaToZone slba) = 0 := by
            rw [unprogrammed, hd, if_pos hfull]
          exact hnone.trans hok.symm
      · rw [Function.update_of_ne hiz] at hd
        have hfill : z.SameFill z' i := .of_eq hsame hd (congrFun hprograms i)
        exact ⟨hfill.settled (h.zones i hi), hfill.unprogrammed (by rw [hd])⟩

/-- A zone management command. -/
theorem Conserving.mgmtSend {req : ZnsRequest} {c : ZoneMgmtSend} {r : ZnsResult}
    (h : z.Conserving) (hplain : c.zsa = .open → c.zsaso = false)
    (hok : z.Meets Settles (.command req (.mgmtSend c))) (hr : z.znsZmgmtSend req c = .ok (r, z')) :
    z'.Conserving := by
  unfold znsZmgmtSend at hr
  by_cases hall : c.selectAll = true
  · rw [if_pos hall] at hr
    obtain ⟨z₁, hfold, hr⟩ := bind_eq_ok.mp hr
    cases hr
    have hok : Throughout _ _ _ _ := (if_pos hall).mp hok
    refine (hok.outcome (E := fun _ => True) Conserving (fun zid _ z hz hok => ?_) h).of_ok hfold
    apply Outcome.of_forall_ok
    intro z' hr
    obtain ⟨⟨status, z₂⟩, hr, hret⟩ := bind_eq_ok.mp hr
    cases hret
    exact hz.zmgmtSend hplain hok hr
  · rw [if_neg hall] at hr
    obtain ⟨⟨status, z₁⟩, hone, hr⟩ := bind_eq_ok.mp hr
    cases hr
    exact h.zmgmtSend hplain ((if_neg hall).mp hok) hone

/-! ## Writes -/

/-- Only the pending operations and the programmed one-shot pages count. -/
theorem Programmed.of_flow {z₁ z₂ z₃ : ZnsFtl} {k q : Nat} (h : z.Programmed zid k q b z₃ z₂)
    (hflow : z₃.flow = z₁.flow) : z.Programmed zid k q b z₁ z₂ := by
  refine ⟨h.le, ?_, ?_⟩
  · rw [← pending_of_flow hflow]
    exact h.pending
  · rw [← programs_of_flow hflow]
    exact h.programs

/-- The end of a write programs the one-shot pages that end in its pages. -/
theorem Shaped.writeZone_programmed (hs : z.Shaped) (hz : zid < z.zp.nrZones)
    (hstart : z.StartSeen zid) {z₁ : ZnsFtl} (hsame : z.SameSizing z₁) {req : ZnsRequest}
    {c : RwCommand} {a : Nat} (hslba : c.slba = zid * z.lbasPerZone + a) (hn : 0 < c.nrLba)
    (hle : a + c.nrLba ≤ z.lbasPerZone)
    (hfits : a / 8 % z.ssd.sp.pgsPerOneshotpg < 2 ^ pageBits) :
    z.Programmed zid (a / 8 / z.ssd.sp.pgsPerOneshotpg) ((a + c.nrLba - 1) / 8 + 1)
      (z.writeBufferOf zid) z₁ (z₁.writeZone req c zid).2 := by
  have hend := hs.zone_end_le hz
  have hlbas := hs.lbasPerZone_eq
  have hmul : zid * z.lbasPerZone = 8 * (zid * z.pgsPerZone) := by
    rw [hlbas]
    ring
  have hslpn : z₁.lbaToLpn c.slba = zid * z.pgsPerZone + a / 8 := by
    rw [lbaToLpn, hsame.sp, hs.secsPerPg, hslba]
    omega
  have helpn : z₁.lbaToLpn (u64 (c.slba + c.nrLba - 1)) + 1 =
      zid * z.pgsPerZone + ((a + c.nrLba - 1) / 8 + 1) := by
    rw [lbaToLpn, hsame.sp, hs.secsPerPg, hslba, u64]
    omega
  have hinc : (z₁.increaseWritePtr zid c.nrLba).ssd.sp = z₁.ssd.sp ∧
      (z₁.increaseWritePtr zid c.nrLba).zp = z₁.zp := by
    unfold increaseWritePtr
    dsimp only
    split <;> exact ⟨rfl, rfl⟩
  rw [← hsame.writeBufferOf]
  apply Programmed.of_flow _ (@increaseWritePtr_flow z₁ zid c.nrLba)
  unfold writeZone
  dsimp only
  rw [hslpn]
  apply Programmed.of_flow
  · apply hs.writeLoop_programmed hz hstart
    · exact ⟨hinc.2.trans hsame.zp, hinc.1.trans hsame.sp⟩
    · omega
    · omega
    · exact hfits
    · exact helpn
    · omega
  · rfl

/-- A write that is carried out takes its bytes from the buffer, and ends with the loop. -/
theorem Booked.znsWriteSeq_run (h : z.Booked) {req : ZnsRequest} {op : ZnsWriteOp}
    {c c' : RwCommand} {r : ZnsResult} (hr : z.znsWriteSeq req op c = .ok (some r, c', z'))
    (hstatus : r.status = 0) :
    let b := z.writeBufferOf (z.lbaToZone c.slba)
    ∃ z₁ : ZnsFtl, z.SameSizing z₁ ∧ z₁.pending = z.pending ∧ z₁.programs = z.programs ∧
      z₁.buffers = Function.update z.buffers b
        { z.buffers b with remaining := (z.buffers b).remaining - lbaToByte c.nrLba } ∧
      z' = (z₁.writeZone req c' (z.lbaToZone c.slba)).2 := by
  simp only [ZnsFtl.znsWriteSeq, bind_eq_ok, getZone_eq_ok] at hr
  obtain ⟨_, ⟨hz, rfl⟩, ⟨a, z₀⟩, halloc, hr⟩ := hr
  obtain ⟨-, hcase⟩ := allocate_cases halloc
  generalize (if op = .append then _ else c) = c₁ at hr
  generalize z.lbaToZone c.slba = zid at *
  dsimp only at hr
  split at hr
  · cases congrArg Prod.fst (Except.ok.inj hr)
  next hroom =>
  have hz₀ : z₀ = z.setBuffer (z.writeBufferOf zid) { z.buffers (z.writeBufferOf zid) with
      remaining := (z.buffers (z.writeBufferOf zid)).remaining - lbaToByte c.nrLba } := by
    rcases hcase with ⟨rfl, hshort, -⟩ | ⟨-, -, hz₀⟩
    · omega
    · exact hz₀
  have hb₀ : z₀.Booked := by
    rw [hz₀]
    exact (sameZones_setBuffer _ _).booked h
  have hrejected : ∀ {s : ZnsStatus} {c₂ : RwCommand} {z₁ : ZnsFtl}, s ≠ .success →
      (Except.ok (some (z₁.writeResult c₂ s req.nsecsStart req.nsecsStart), c₂, z₁) :
        Except ZnsFault (Option ZnsResult × RwCommand × ZnsFtl)) = .ok (some r, c', z') → False := by
    intro s c₂ z₁ hne hr
    have hresult := congrArg Prod.fst (Except.ok.inj hr)
    cases hresult
    exact hne (ZnsStatus.code_eq_zero.mp hstatus)
  split at hr
  · split at hr
    · next z₁ hopen =>
      have hflow := @openForWrite_flow z₀ zid c₁.slba
      rw [hopen] at hflow
      have hsame : z.SameSizing z₁ := by
        rcases hb₀.openForWrite (by rw [hz₀]; exact hz) hopen with ⟨hne, -⟩ | ⟨-, st, -, -, hm⟩
        · exact absurd rfl hne
        · refine ⟨hm.zp.trans ?_, hm.sp.trans ?_⟩
          all_goals rw [hz₀]
          all_goals rfl
      have hc : c₁ = c' := congrArg (fun r => r.2.1) (Except.ok.inj hr)
      have hz' := congrArg (fun r => r.2.2) (Except.ok.inj hr)
      refine ⟨z₁, hsame, ?_, ?_, ?_, ?_⟩
      · rw [pending_of_flow hflow, hz₀]
        rfl
      · rw [programs_of_flow hflow, hz₀]
        rfl
      · rw [buffers_of_flow hflow, hz₀]
        rfl
      · rw [← hc]
        exact hz'.symm
    · next s z₁ hne hopen =>
      exact (hrejected hne hr).elim
  · next hs => exact (hrejected hs hr).elim

/-- New internal operations on one buffer. -/
theorem releasing_append {ops : List ZnsInternalOp} {w : BufferRef}
    (hpending : z'.pending = z.pending ++ ops) (hops : ∀ op ∈ ops, op.writeBuffer = w) :
    z'.releasing b =
      z.releasing b + if w = b then (ops.map ZnsInternalOp.buffsToRelease).sum else 0 := by
  rw [releasing, hpending, List.filter_append, List.map_append, List.sum_append, releasing]
  split
  · next hw =>
    subst hw
    rw [List.filter_eq_self.mpr fun op hop => decide_eq_true (hops op hop)]
  · next hw =>
    have hnone : ops.filter (·.writeBuffer = b) = [] := by
      rw [List.filter_eq_nil_iff]
      intro op hop
      rw [hops op hop]
      simpa using hw
    rw [hnone]
    rfl

/-- The programmed one-shot pages of a zone, and those behind them. -/
theorem map_range_append {k m : Nat} (f : Nat → Nat) (h : k ≤ m) :
    (List.range k).map f ++ (List.range' k (m - k)).map f = (List.range m).map f := by
  rw [← List.map_append, List.range_eq_range', List.range_eq_range']
  have happend := @List.range'_append 0 k (m - k) 1
  rw [Nat.one_mul, Nat.zero_add, Nat.add_sub_cancel' h] at happend
  rw [happend]

/-- A write of `n` blocks to a settled zone: where its write pointer is, what its one-shot pages
are, and what waits for them. -/
theorem Settled.advance (h : z.Settled zid) (hs : z.Shaped) (hsame : z.SameSizing z')
    (hd : z'.zoneDescs zid = { z.zoneDescs zid with wp := (z.zoneDescs zid).wp + n, state := d.state })
    (hfull : d.state = .full → z.fill zid + n = z.lbasPerZone)
    (hle : z.fill zid + n ≤ z.lbasPerZone)
    (hprograms : z'.programs zid =
      (List.range (z.complete (z.fill zid + n))).map (z.firstOneshot zid + ·)) :
    z'.Settled zid ∧
      z'.unprogrammed zid + z.drained (z.fill zid + n) = (z.fill zid + n) * 512 := by
  have hs' := hsame.shaped hs
  have hlower := h.lower
  have hfill : z'.fill zid = z.fill zid + n := by
    rw [fill, hd, fill]
    dsimp only
    omega
  have hdrained : z'.drained (z'.fill zid) = z.drained (z.fill zid + n) := by
    rw [hfill, drained, drained, hsame.lbasPerZone, hsame.zp, hsame.sp, hsame.oneshotSize]
  have hset : z'.Settled zid := by
    refine ⟨?_, ?_, ?_, ?_, ?_, ?_⟩
    · rw [hd, hsame.lbasPerZone]
      exact h.zslba
    · rw [hd, hsame.lbasPerZone]
      exact h.zoneCapacity
    · rw [hd]
      dsimp only
      omega
    · rw [hfill, hsame.lbasPerZone]
      exact hle
    · rw [hd]
      exact h.zrwav
    · rw [hprograms, hs'.completed_eq, hfill, hsame.firstOneshot, complete, complete,
        hsame.lbasPerZone, hsame.oneshots, hsame.sp]
  refine ⟨hset, ?_⟩
  by_cases hstate : d.state = .full
  · have hend := hfull hstate
    rw [unprogrammed, hd, if_pos hstate, Nat.zero_add, drained, if_pos hend, hs.zoneSize_bytes, hend]
  · rw [← hdrained, ← hfill]
    apply hset.unprogrammed_add hs'
    rw [hd]
    exact hstate

/-- A write that succeeds moves its bytes from the buffer to its zone, and those of the one-shot
pages it completes on to their release. -/
theorem Conserving.znsWriteSeq {req : ZnsRequest} {op : ZnsWriteOp} {c c' : RwCommand}
    {r : ZnsResult} (h : z.Conserving) (hwf : c.Wf) (hok : z.Settles (.write c))
    (hr : z.znsWriteSeq req op c = .ok (some r, c', z')) (hstatus : r.status = 0)
    (hv : (z.zoneDescs (z.lbaToZone c.slba)).zrwav = false) : z'.Conserving := by
  have hs := h.shaped
  obtain ⟨hz, ⟨-, hfailed⟩ | ⟨-, hw⟩⟩ := h.booked.znsWriteSeq_cases hv hr
  · exact absurd hstatus (hfailed r rfl)
  have hb' : z'.Booked := by
    obtain ⟨st, hst, hm⟩ := hw.moved
    exact h.booked.moved hz hm (Change.write c st hst hw.active hv
      (writeCheck_success hw.check).1 rfl).empty
  obtain ⟨z₁, hsame₁, hpending₁, hprograms₁, hbuffers₁, hz'⟩ :=
    h.booked.znsWriteSeq_run hr hstatus
  have haligned := hok hw.room
  generalize z.lbaToZone c.slba = zid at *
  have hset := h.zones zid hz
  have hlower := hset.lower
  have hzslba := hset.zslba
  have hroom := haligned.room
  have hn := nrLba_eq hwf
  have hlen := hwf.length_lt
  have hlt := hs.zone_end_le hz
  have hbytes : lbaToByte c.nrLba = c.nrLba * 512 := by
    rw [lbaToByte, u64, Nat.shiftLeft_eq]
    have : lbaBits = 9 := rfl
    rw [this]
    omega
  have hfill : (z.zoneDescs zid).wp = zid * z.lbasPerZone + z.fill zid := by
    rw [fill]
    omega
  have hle : z.fill zid + c.nrLba ≤ z.lbasPerZone := by
    have hend : (z.zoneDescs zid).wp + c.nrLba ≤ zid * z.lbasPerZone + z.lbasPerZone := by
      apply hs.write_le hz _ _ _ _ (writeCheck_success hw.check).1
      all_goals omega
    omega
  have hwp : u64 ((z.zoneDescs zid).wp + u32 c.nrLba) = (z.zoneDescs zid).wp + c.nrLba := by
    rw [u64, u32]
    omega
  have hprog : z.Programmed zid (z.fill zid / 8 / z.ssd.sp.pgsPerOneshotpg)
      ((z.fill zid + c.nrLba - 1) / 8 + 1) (z.writeBufferOf zid) z₁ z' := by
    have hlen' : c'.nrLba = c.nrLba := by
      rw [hw.command]
      rfl
    have hfits := haligned.fits
    rw [hs.secsPerPg] at hfits
    rw [hz', ← hlen']
    apply hs.writeZone_programmed hz haligned.start hsame₁
    · rw [hw.command]
      exact hfill
    · omega
    · omega
    · exact hfits
  obtain ⟨hends, hbytesIn⟩ := haligned.ends hs (by omega)
  obtain ⟨hkle, ⟨ops, hpending, hops, hsum⟩, hprograms⟩ := hprog
  rw [hends] at hkle hprograms
  rw [hbytesIn] at hsum
  obtain ⟨st, hst, hm⟩ := hw.moved
  rw [hwp] at hm
  have hsame : z.SameSizing z' := ⟨hm.zp, hm.sp⟩
  have hk : z.complete (z.fill zid) = z.fill zid / 8 / z.ssd.sp.pgsPerOneshotpg := by
    rw [complete, if_neg hroom.ne, hs.secsPerPg]
  have hdrained : z.drained (z.fill zid) =
      z.fill zid / 8 / z.ssd.sp.pgsPerOneshotpg * z.oneshotSize := by
    rw [drained, if_neg hroom.ne, hs.secsPerPg]
  have hfull : z.stateAt zid ((z.zoneDescs zid).wp + c.nrLba) st = .full →
      z.fill zid + c.nrLba = z.lbasPerZone := by
    intro hstate
    unfold stateAt at hstate
    split at hstate
    · next hstop =>
      have hend := ((hs.eq_zoneStop hzslba hset.zoneCapacity (by omega)).mp hstop).2
      rw [hset.zoneCapacity] at hend
      omega
    · rw [hstate] at hst
      cases hst
  have hbefore := hset.unprogrammed_add hs (by
    intro hstate
    rcases hw.active with hact | ⟨hempty, -⟩
    · rw [hstate] at hact
      cases hact
    · rw [hstate] at hempty
      cases hempty)
  have hafter := hset.advance hs hsame
    (d := { z.zoneDescs zid with state := z.stateAt zid ((z.zoneDescs zid).wp + c.nrLba) st })
    (by rw [hm.zoneDescs, Function.update_self]) hfull hle (by
      rw [hprograms, Function.update_self, hprograms₁, hset.programs, hs.completed_eq, hk]
      exact map_range_append _ hkle)
  have hother : ∀ i < z.zp.nrZones, i ≠ zid → z.SameFill z' i ∧
      z'.unprogrammed i = z.unprogrammed i := by
    intro i _ hiz
    have hd := congrFun hm.zoneDescs i
    have hp := congrFun hprograms i
    rw [Function.update_of_ne hiz] at hd hp
    have hfill : z.SameFill z' i := .of_eq hsame hd (hp.trans (congrFun hprograms₁ i))
    exact ⟨hfill, hfill.unprogrammed (by rw [hd])⟩
  refine ⟨hb', hsame.shaped hs, fun i hi => ?_, fun i hi => ?_⟩
  · rw [hsame.zp] at hi
    by_cases hiz : i = zid
    · subst hiz
      exact hafter.1
    · exact (hother i hi hiz).1.settled (h.zones i hi)
  · rw [hsame.zp] at hi
    have hbuffers : z'.buffers = z₁.buffers := by
      rw [hz', writeZone_buffers]
    have hbalance := h.balanced i hi
    rw [hpending₁] at hpending
    rw [Balanced] at hbalance
    rw [hsame.writeBufferOf, Balanced, hbuffers, hbuffers₁, releasing_append hpending hops]
    by_cases hserves : z.writeBufferOf zid = z.writeBufferOf i
    · rw [← hserves] at hbalance ⊢
      have hheld := held_change hz hsame fun j hj hne => (hother j hj hne).2
      have hroom := hw.room
      rw [Function.update_self, if_pos rfl]
      dsimp only
      omega
    · have hheld := held_other hsame hserves fun j hj hne => (hother j hj hne).2
      rw [Function.update_of_ne (Ne.symm hserves), if_neg hserves, hheld]
      exact hbalance

/-! ## Events -/

/-- One event. -/
theorem Conserving.step {e : ZnsEvent} (h : z.Conserving) (hplain : z.Plain e)
    (hok : z.Meets Settles e) (hr : z.step e = .ok z') : z'.Conserving := by
  cases e with
  | release j =>
    cases hr
    exact h.completeInternal j
  | command req cmd =>
    obtain ⟨⟨result, cmd', z₁⟩, hrun, hr⟩ := bind_eq_ok.mp hr
    cases hr
    cases handled hrun with
    | @write op c c' result _ hwrite =>
      obtain ⟨hz, -⟩ := h.booked.znsWrite h.shaped hwrite
      have hv := (h.zones _ hz).zrwav
      rcases h.shaped.znsWrite_eq_ok hwrite with ⟨hv', -⟩ | ⟨-, hseq⟩
      · rw [hv] at hv'
        cases hv'
      · cases result with
        | none =>
          obtain ⟨rfl, -⟩ := znsWriteSeq_none hplain.1 hseq
          exact h
        | some r => exact h.znsWriteSeq hplain.1 hok hseq (hplain.2 r c' _ hwrite) hv
    | reads _ _ hz => exact h.of_same hz.same hz.flow
    | mgmtSend hsend => exact h.mgmtSend hplain hok hsend

/-- Nothing is in flight in a new namespace. -/
theorem Fresh.conserving {cfg : ZnsConfig} (h : z.Fresh cfg) : z.Conserving := by
  have hs := h.shaped
  have hlpos := hs.lbasPerZone_pos
  have hempty : 0 ≠ z.lbasPerZone := by omega
  have hfill : ∀ i < z.zp.nrZones, z.fill i = 0 := by
    intro i hi
    have hwp : (z.zoneDescs i).wp = (z.zoneDescs i).zslba := by
      rw [h.zoneDescs i hi]
      rfl
    rw [fill, hwp, Nat.sub_self]
  have hzones : ∀ i < z.zp.nrZones, z.Settled i := by
    intro i hi
    have ho := h.ruled.zones i hi
    refine ⟨ho.zslba, ho.zoneCapacity, ho.lower, ?_, ?_, ?_⟩
    · rw [hfill i hi]
      exact Nat.zero_le _
    · rw [h.zoneDescs i hi]
      rfl
    · rw [h.programs, hs.completed_eq, hfill i hi, complete, if_neg hempty, Nat.zero_div,
        Nat.zero_div]
      rfl
  have hnone : ∀ i < z.zp.nrZones, z.unprogrammed i = 0 := by
    intro i hi
    have hsum := (hzones i hi).unprogrammed_add hs (by
      rw [h.zoneDescs i hi]
      exact ZoneState.noConfusion)
    rw [hfill i hi] at hsum
    omega
  refine ⟨h.booked, hs, hzones, fun i _ => ?_⟩
  have hheld : z.held (z.writeBufferOf i) = 0 := by
    apply Finset.sum_eq_zero
    intro j hj
    exact hnone j (Finset.mem_range.mp (Finset.mem_filter.mp hj).1)
  have hfull : (z.buffers (z.writeBufferOf i)).remaining = (z.buffers (z.writeBufferOf i)).size := by
    rw [h.buffers]
    unfold initBuffers
    split <;> rfl
  rw [Balanced, hheld, hfull, releasing, h.pending]
  rfl

end ZnsFtl

/-- In every run of writes that succeed, with any other commands but the opening of random write
areas, and with releases at any time: as long as every write is aligned, and zones are finished and
reset only when all that was written to them has been programmed, the buffers stay balanced and
every one-shot page is programmed once. -/
theorem write_buffers_conserved (cfg : ZnsConfig) (mem : ZnsMemory) (clock : Clock) (size : Nat)
    (events : List ZnsEvent) (z₀ z : ZnsFtl) (hinit : znsInitNamespace cfg mem clock size = .ok z₀)
    (hplain : Throughout ZnsFtl.step ZnsFtl.Plain events z₀)
    (hok : Throughout ZnsFtl.step (ZnsFtl.Meets ZnsFtl.Settles) events z₀)
    (hrun : events.foldlM ZnsFtl.step z₀ = .ok z) : z.Conserved := by
  have hconserving : z.Conserving :=
    ((hplain.and hok).outcome (E := fun _ => True) ZnsFtl.Conserving
      (fun _ _ _ h hok => Outcome.of_forall_ok fun _ hr => h.step hok.1 hok.2 hr)
      (ZnsFtl.fresh_of_init hinit).conserving).of_ok hrun
  exact ⟨hconserving.balanced, fun zid hz => (hconserving.zones zid hz).programs⟩

/-- A write that succeeds. -/
theorem ZnsFtl.plain_write {z : ZnsFtl} {req : ZnsRequest} {op : ZnsWriteOp} {c : RwCommand}
    (hwf : c.Wf) (hstatus : (z.znsWrite req op c).map (fun r => r.1.map ZnsResult.status) =
      .ok (some 0)) : z.Plain (.command req (.write op c)) := by
  refine ⟨hwf, fun r c' z' hwrite => ?_⟩
  rw [hwrite] at hstatus
  exact Option.some.inj (Except.ok.inj hstatus)

/-- Writing the first one-shot page, and releasing it. -/
theorem write_buffers_conserved_oneshot : ∃ z, znsRun wdZn540 default default (mb 2)
    [writeFirst 191, .release 0] = .ok z ∧ z.Conserved := by
  have hrun : (znsRun wdZn540 default default (mb 2) [writeFirst 191, .release 0]).map
      (fun _ => ()) = .ok () := by decide +kernel
  have hstatus : (znsInitNamespace wdZn540 default default (mb 2) >>= fun z =>
      (z.znsWrite requestAtZero .write ⟨0, 191, false⟩).map fun r => r.1.map ZnsResult.status) =
      .ok (some 0) := by decide +kernel
  have haligned : (znsInitNamespace wdZn540 default default (mb 2)).map (fun z =>
      decide (z.lbaToZone 0 = 0 ∧ z.fill 0 = 0 ∧ z.lbasPerZone = 2048 ∧ z.StartSeen 0 ∧
        z.ssd.sp.secsPerPg = 8)) = .ok true := by decide +kernel
  obtain ⟨z, hz, -⟩ := except_map_eq_ok.mp hrun
  obtain ⟨z₀, hinit, hevents⟩ := bind_eq_ok.mp hz
  rw [hinit] at haligned hstatus
  obtain ⟨hzone, hfill, hlbas, hstart, hsecs⟩ := of_decide_eq_true (Except.ok.inj haligned)
  have hplain : Throughout ZnsFtl.step ZnsFtl.Plain [writeFirst 191, .release 0] z₀ :=
    ⟨ZnsFtl.plain_write ⟨by simp, by simp⟩ hstatus, fun _ _ => ⟨trivial, fun _ _ => trivial⟩⟩
  have hok : Throughout ZnsFtl.step (ZnsFtl.Meets ZnsFtl.Settles) [writeFirst 191, .release 0]
      z₀ := by
    refine ⟨fun _ => ?_, fun _ _ => ⟨trivial, fun _ _ => trivial⟩⟩
    change z₀.Aligned (z₀.lbaToZone 0) 192
    rw [hzone]
    constructor
    · rw [hfill, hlbas]
      decide
    · exact hstart
    · rw [hfill, Nat.zero_div, Nat.zero_mod]
      decide
    · rw [hfill, hsecs]
      exact fun h => absurd rfl h
    · rw [hfill, hlbas]
      exact fun h => absurd h (by simp)
  exact ⟨z, hz, write_buffers_conserved _ _ _ _ _ z₀ z hinit hplain hok hevents⟩

/-- Finishing the zone of block 0. -/
def finishFirst : ZnsEvent :=
  .command requestAtZero
    (.mgmtSend { slba := 0, selectAll := false, zsa := .finish, zsaso := false })

/-- A write of 185 blocks ends in the last page of a one-shot page of 192 blocks, which is programmed
and released as a whole. A zone that is finished after a write of 8 blocks does not return them. -/
theorem write_buffers_drift : ∃ z₀, znsInitNamespace wdZn540 default default (mb 2) = .ok z₀ ∧
    Throughout ZnsFtl.step ZnsFtl.Plain [writeFirst 184] z₀ ∧
    (∃ z, [writeFirst 184].foldlM ZnsFtl.step z₀ = .ok z ∧ ¬ z.Conserved) ∧
    Throughout ZnsFtl.step ZnsFtl.Plain [writeFirst 7, finishFirst] z₀ ∧
    ∃ z, [writeFirst 7, finishFirst].foldlM ZnsFtl.step z₀ = .ok z ∧ ¬ z.Conserved := by
  have hstatus : (znsInitNamespace wdZn540 default default (mb 2) >>= fun z =>
      (z.znsWrite requestAtZero .write ⟨0, 184, false⟩).map fun r => r.1.map ZnsResult.status) =
      .ok (some 0) := by decide +kernel
  have hstatus' : (znsInitNamespace wdZn540 default default (mb 2) >>= fun z =>
      (z.znsWrite requestAtZero .write ⟨0, 7, false⟩).map fun r => r.1.map ZnsResult.status) =
      .ok (some 0) := by decide +kernel
  have hearly : (znsRun wdZn540 default default (mb 2) [writeFirst 184]).map (fun z =>
      decide (0 < z.zp.nrZones ∧ ¬ z.Balanced (z.writeBufferOf 0))) = .ok true := by decide +kernel
  have hfinish : (znsRun wdZn540 default default (mb 2) [writeFirst 7, finishFirst]).map (fun z =>
      decide (0 < z.zp.nrZones ∧ ¬ z.Balanced (z.writeBufferOf 0))) = .ok true := by decide +kernel
  obtain ⟨z, hz, hearly⟩ := except_map_eq_ok.mp hearly
  obtain ⟨z', hz', hfinish⟩ := except_map_eq_ok.mp hfinish
  obtain ⟨z₀, hinit, hevents⟩ := bind_eq_ok.mp hz
  obtain ⟨z₁, hinit', hevents'⟩ := bind_eq_ok.mp hz'
  obtain rfl : z₀ = z₁ := Except.ok.inj (hinit.symm.trans hinit')
  obtain ⟨hzone, hearly⟩ := of_decide_eq_true hearly
  obtain ⟨hzone', hfinish⟩ := of_decide_eq_true hfinish
  rw [hinit] at hstatus hstatus'
  refine ⟨z₀, hinit, ⟨?_, fun _ _ => trivial⟩, ⟨z, hevents, ?_⟩,
    ⟨?_, fun _ _ => ⟨?_, fun _ _ => trivial⟩⟩, z', hevents', ?_⟩
  · exact ZnsFtl.plain_write ⟨by simp, by simp⟩ hstatus
  · exact fun h => hearly (h.balanced 0 hzone)
  · exact ZnsFtl.plain_write ⟨by simp, by simp⟩ hstatus'
  · exact fun h => ZoneSendAction.noConfusion h
  · exact fun h => hfinish (h.balanced 0 hzone')

end NvmeVirt
