import NvmeVirt.Library.Blocks
import NvmeVirt.Zns.Buffers
import NvmeVirt.Zns.Sequential

/-!
# One-shot pages

The pages of a zone are programmed in one-shot pages, the last of which is shorter when the zone is
no multiple of them. The loop of `__zns_write` programs the one-shot pages that end in the pages of
the write, in their order, and schedules the release of their bytes.
-/

namespace NvmeVirt

open Checked Blocks

namespace ZnsFtl

variable {z z' : ZnsFtl} {zid p q e : Nat}

/-- The bytes of a one-shot page. -/
def oneshotSize (z : ZnsFtl) : Nat := z.ssd.sp.pgsPerOneshotpg * z.ssd.sp.pgsz

/-- The number of one-shot pages of a zone, the last one of any size. -/
def oneshots (z : ZnsFtl) : Nat := (z.zp.zoneSize + z.oneshotSize - 1) / z.oneshotSize

/-- The first one-shot page of a zone. -/
def firstOneshot (z : ZnsFtl) (zid : Nat) : Nat := z.oneshotIndex (zid * z.pgsPerZone)

/-- `__lpn_to_ppa` sees the zone begin with a one-shot page. -/
def StartSeen (z : ZnsFtl) (zid : Nat) : Prop :=
  (zid * z.pgsPerZone - z.zoneToSlpn zid) % z.ssd.sp.pgsPerOneshotpg = 0

/-- `zone_to_elpn` is the last page of the zone. -/
def EndSeen (z : ZnsFtl) (zid : Nat) : Prop :=
  z.zoneToElpn zid + 1 = zid * z.pgsPerZone + z.pgsPerZone

instance (z : ZnsFtl) (zid : Nat) : Decidable (z.StartSeen zid) :=
  inferInstanceAs (Decidable (_ = _))

instance (z : ZnsFtl) (zid : Nat) : Decidable (z.EndSeen zid) := inferInstanceAs (Decidable (_ = _))

/-- The number of one-shot pages that are programmed with the first `q` pages of a zone. -/
def oneshotsIn (z : ZnsFtl) (zid q : Nat) : Nat :=
  if q = z.pgsPerZone ∧ z.EndSeen zid then z.oneshots else q / z.ssd.sp.pgsPerOneshotpg

/-- The bytes that are released with them. -/
def bytesIn (z : ZnsFtl) (zid q : Nat) : Nat :=
  if q = z.pgsPerZone ∧ z.EndSeen zid then z.zp.zoneSize
  else q / z.ssd.sp.pgsPerOneshotpg * z.oneshotSize

/-! ## Pages of a zone -/

theorem Shaped.zoneSize_eq (hs : z.Shaped) : z.zp.zoneSize = z.pgsPerZone * 4096 := by
  obtain ⟨k, hk⟩ := hs.zone_dvd
  rw [pgsPerZone, hs.pgsz]
  omega

theorem Shaped.pgsPerZone_lt (hs : z.Shaped) : z.pgsPerZone < 2 ^ 20 := by
  have hlt := hs.zone_lt
  rw [hs.zoneSize_eq] at hlt
  omega

theorem Shaped.oneshotSize_eq (hs : z.Shaped) :
    z.oneshotSize = z.ssd.sp.pgsPerOneshotpg * 4096 := by
  rw [oneshotSize, hs.pgsz]

theorem Shaped.page_lt (hs : z.Shaped) (hz : zid < z.zp.nrZones) :
    zid * z.pgsPerZone + z.pgsPerZone ≤ 2 ^ 52 := by
  have hle : (zid + 1) * z.pgsPerZone ≤ 2 ^ 32 * 2 ^ 20 :=
    Nat.mul_le_mul (by have := hs.nrZones_lt; omega) (Nat.le_of_lt hs.pgsPerZone_lt)
  rwa [Nat.add_one_mul, ← Nat.pow_add] at hle

/-- The zone of a page. -/
theorem Shaped.lpnToZone_page (hs : z.Shaped) (hz : zid < z.zp.nrZones) (hp : p < z.pgsPerZone) :
    z.lpnToZone (zid * z.pgsPerZone + p) = zid := by
  have hnr := hs.nrZones_lt
  have hdiv : (zid * z.pgsPerZone + p) / z.pgsPerZone = zid := by
    apply Nat.div_eq_of_lt_le
    · exact Nat.le_add_right ..
    · rw [Nat.add_one_mul]
      exact Nat.add_lt_add_left hp _
  rw [lpnToZone, hdiv]
  exact Nat.mod_eq_of_lt (hz.trans hnr)

/-- The offset of a page, as `__lpn_to_ppa` computes it. -/
theorem Shaped.page_offset (hs : z.Shaped) (hz : zid < z.zp.nrZones) (hp : p < z.pgsPerZone) :
    u64Sub (zid * z.pgsPerZone + p) (z.zoneToSlpn zid) =
      p + (zid * z.pgsPerZone - z.zoneToSlpn zid) := by
  have hlt := hs.page_lt hz
  have hle : z.zoneToSlpn zid ≤ zid * z.pgsPerZone := Nat.mod_le ..
  rw [u64Sub]
  omega

theorem Shaped.oneshotIndex_page (hs : z.Shaped) (hz : zid < z.zp.nrZones)
    (hstart : z.StartSeen zid) (hp : p < z.pgsPerZone) :
    z.oneshotIndex (zid * z.pgsPerZone + p) =
      z.firstOneshot zid + p / z.ssd.sp.pgsPerOneshotpg := by
  have hfirst := hs.page_offset hz hs.pgsPerZone_pos
  have hzone := hs.lpnToZone_page hz hs.pgsPerZone_pos
  rw [Nat.add_zero, Nat.zero_add] at hfirst
  rw [Nat.add_zero] at hzone
  rw [firstOneshot, oneshotIndex, oneshotIndex, hs.lpnToZone_page hz hp, hzone, hfirst,
    hs.page_offset hz hp]
  obtain ⟨k, hk⟩ := Nat.dvd_of_mod_eq_zero hstart
  rw [hk, Nat.add_mul_div_left _ _ hs.oneshot_pos, Nat.mul_div_cancel_left _ hs.oneshot_pos,
    Nat.add_comm]

/-- The offset of a page in its one-shot page. -/
theorem Shaped.pg_page (hs : z.Shaped) (hz : zid < z.zp.nrZones) (hstart : z.StartSeen zid)
    (hp : p < z.pgsPerZone) (hfits : p % z.ssd.sp.pgsPerOneshotpg < 2 ^ pageBits) :
    (z.lpnToPpa (zid * z.pgsPerZone + p)).pg % z.ssd.sp.pgsPerOneshotpg =
      p % z.ssd.sp.pgsPerOneshotpg := by
  obtain ⟨k, hk⟩ := Nat.dvd_of_mod_eq_zero hstart
  change u64Sub (zid * z.pgsPerZone + p) (z.zoneToSlpn (z.lpnToZone (zid * z.pgsPerZone + p))) %
    z.ssd.sp.pgsPerOneshotpg % 2 ^ pageBits % z.ssd.sp.pgsPerOneshotpg = _
  rw [hs.lpnToZone_page hz hp, hs.page_offset hz hp, hk, Nat.add_mul_mod_self_left,
    Nat.mod_eq_of_lt hfits, Nat.mod_mod]

/-- The end of the zone is seen at its last page, or not at all. -/
theorem Shaped.zoneEnds_iff (hs : z.Shaped) (hz : zid < z.zp.nrZones) (hq : 0 < q)
    (hle : q ≤ z.pgsPerZone) : zid * z.pgsPerZone + q - 1 = z.zoneToElpn zid ↔
      q = z.pgsPerZone ∧ z.EndSeen zid := by
  have hlt := hs.page_lt hz
  have hpgs := hs.pgsPerZone_lt
  have hnr := hs.nrZones_lt
  have hzid : u32 (zid + 1) = zid + 1 := Nat.mod_eq_of_lt (by omega)
  have hnext : (zid + 1) * z.lbasPerZone = 8 * (zid * z.pgsPerZone + z.pgsPerZone) := by
    rw [hs.lbasPerZone_eq]
    ring
  rw [EndSeen, zoneToElpn, zoneToElba, zoneToSlba, hzid, hs.secsPerPg, hnext, u64Sub, u32]
  omega

/-! ## One chunk of the loop -/

/-- The bytes that are released with the one-shot page of page `p`, when the chunk ends at `q`. -/
def chunkBytes (z : ZnsFtl) (zid q : Nat) : Nat :=
  if (q = z.pgsPerZone ∧ z.EndSeen zid) ∧ z.zp.zoneSize % z.oneshotSize > 0 then
    z.zp.zoneSize % z.oneshotSize
  else z.oneshotSize

/-- A chunk that ends a one-shot page, or the zone, is one more one-shot page. -/
theorem Shaped.chunk_programmed {k : Nat} (hs : z.Shaped)
    (hlow : k * z.ssd.sp.pgsPerOneshotpg < q) (hup : q ≤ (k + 1) * z.ssd.sp.pgsPerOneshotpg)
    (hend : q = (k + 1) * z.ssd.sp.pgsPerOneshotpg ∨ (q = z.pgsPerZone ∧ z.EndSeen zid)) :
    z.oneshotsIn zid q = k + 1 ∧
      z.chunkBytes zid q + k * z.oneshotSize = z.bytesIn zid q := by
  have hpos := hs.oneshot_pos
  have hsize := hs.zoneSize_eq
  rw [oneshotsIn, chunkBytes, bytesIn, oneshots, hs.oneshotSize_eq, hsize]
  generalize z.ssd.sp.pgsPerOneshotpg = P at *
  rw [Nat.add_one_mul] at hup hend
  by_cases hseen : q = z.pgsPerZone ∧ z.EndSeen zid
  · simp only [if_pos hseen, and_iff_right hseen]
    rw [Nat.mul_mod_mul_right, ← hseen.1]
    constructor
    · apply Nat.div_eq_of_lt_le
      · rw [Nat.add_one_mul, ← Nat.mul_assoc]
        omega
      · rw [Nat.add_one_mul, Nat.add_one_mul, ← Nat.mul_assoc]
        omega
    · obtain ⟨t, rfl⟩ := Nat.exists_eq_add_of_le hlow.le
      rw [Nat.mul_add_mod', ← Nat.mul_assoc, Nat.add_mul]
      rcases (show t ≤ P by omega).eq_or_lt with rfl | ht
      · rw [Nat.mod_self, if_neg (by simp), Nat.add_comm]
      · rw [Nat.mod_eq_of_lt ht, if_pos (by omega), Nat.add_comm]
  · rw [if_neg hseen, if_neg hseen]
    have hq : q = (k + 1) * P := by
      rw [Nat.add_one_mul]
      exact hend.resolve_right hseen
    rw [if_neg fun h => hseen h.1, hq, Nat.mul_div_cancel _ hpos]
    exact ⟨rfl, by rw [Nat.add_one_mul, Nat.add_comm]⟩

/-- A chunk that ends neither belongs to no further one-shot page. -/
theorem Shaped.chunk_open {k : Nat} (hlow : k * z.ssd.sp.pgsPerOneshotpg < q)
    (hup : q < (k + 1) * z.ssd.sp.pgsPerOneshotpg)
    (hseen : ¬ (q = z.pgsPerZone ∧ z.EndSeen zid)) :
    z.oneshotsIn zid q = k ∧ k * z.oneshotSize = z.bytesIn zid q := by
  have hdiv : q / z.ssd.sp.pgsPerOneshotpg = k := Nat.div_eq_of_lt_le hlow.le hup
  rw [oneshotsIn, bytesIn, if_neg hseen, if_neg hseen, hdiv]
  exact ⟨rfl, rfl⟩

/-! ## The loop -/

/-- The addresses depend on the sizes alone. -/
structure SameSizing (z z' : ZnsFtl) : Prop where
  zp : z'.zp = z.zp
  sp : z'.ssd.sp = z.ssd.sp

theorem SameSizing.lpnToPpa (h : z.SameSizing z') (lpn : Nat) :
    z'.lpnToPpa lpn = z.lpnToPpa lpn := by
  simp only [ZnsFtl.lpnToPpa, lpnToZone, zoneToSlpn, pgsPerZone, h.zp, h.sp]

theorem SameSizing.zoneToElpn (h : z.SameSizing z') (zid : Nat) :
    z'.zoneToElpn zid = z.zoneToElpn zid := by
  simp only [ZnsFtl.zoneToElpn, zoneToElba, zoneToSlba, lbasPerZone, h.zp, h.sp]

theorem SameSizing.oneshotIndex (h : z.SameSizing z') (lpn : Nat) :
    z'.oneshotIndex lpn = z.oneshotIndex lpn := by
  simp only [ZnsFtl.oneshotIndex, lpnToZone, zoneToSlpn, pgsPerZone, h.zp, h.sp]

variable {z₁ z₂ z₃ : ZnsFtl} {b : BufferRef}

/-- Behind the first `k` one-shot pages of a zone, those that end within its first `q` pages are
programmed, and the release of their bytes from `b` is scheduled. -/
structure Programmed (z : ZnsFtl) (zid k q : Nat) (b : BufferRef) (z₁ z₂ : ZnsFtl) : Prop where
  le : k ≤ z.oneshotsIn zid q
  pending : ∃ ops, z₂.pending = z₁.pending ++ ops ∧ (∀ op ∈ ops, op.writeBuffer = b) ∧
    (ops.map ZnsInternalOp.buffsToRelease).sum + k * z.oneshotSize = z.bytesIn zid q
  programs : z₂.programs = Function.update z₁.programs zid (z₁.programs zid ++
    (List.range' k (z.oneshotsIn zid q - k)).map (z.firstOneshot zid + ·))

/-- One one-shot page, and then the others. -/
theorem Programmed.cons {k : Nat} {sqId lpn stime size : Nat} (hsame : z.SameSizing z₁)
    (hindex : z.oneshotIndex lpn = z.firstOneshot zid + k)
    (hsize : size + k * z.oneshotSize = (k + 1) * z.oneshotSize)
    (h : z.Programmed zid (k + 1) q b (z₁.programOneshot sqId zid lpn stime b size).2 z₂) :
    z.Programmed zid k q b z₁ z₂ := by
  obtain ⟨hle, ⟨ops, hpending, hbuffer, hsum⟩, hprograms⟩ := h
  refine ⟨Nat.le_of_succ_le hle, ?_, ?_⟩
  · refine ⟨_ :: ops, hpending.trans (List.append_assoc ..), ?_, ?_⟩
    · rintro op (_ | ⟨_, hop⟩)
      · rfl
      · exact hbuffer op hop
    · rw [List.map_cons, List.sum_cons]
      dsimp only
      omega
  · have hcount : z.oneshotsIn zid q - k = z.oneshotsIn zid q - (k + 1) + 1 := by omega
    rw [hprograms, hcount, List.range'_succ, List.map_cons, ← hindex, ← hsame.oneshotIndex]
    change Function.update (Function.update z₁.programs zid _) zid
      (Function.update z₁.programs zid _ zid ++ _) = _
    rw [Function.update_idem, Function.update_self, List.append_assoc]
    rfl

/-- The last one-shot page. -/
theorem Programmed.last {k : Nat} {sqId lpn stime size : Nat} (hsame : z.SameSizing z₁)
    (hindex : z.oneshotIndex lpn = z.firstOneshot zid + k)
    (hcount : z.oneshotsIn zid q = k + 1) (hsize : size + k * z.oneshotSize = z.bytesIn zid q) :
    z.Programmed zid k q b z₁ (z₁.programOneshot sqId zid lpn stime b size).2 := by
  refine ⟨by omega, ⟨[_], rfl, ?_, ?_⟩, ?_⟩
  · rintro op (_ | ⟨_, hop⟩)
    · rfl
    · cases hop
  · exact hsize
  · rw [hcount, Nat.add_sub_cancel_left, List.range'_one, List.map_singleton, ← hindex,
      ← hsame.oneshotIndex]
    rfl

/-- One round of the loop: a chunk that ends a one-shot page, or the zone, is programmed. -/
theorem Shaped.writeLoop_succ (hs : z.Shaped) (hz : zid < z.zp.nrZones) (hstart : z.StartSeen zid)
    (hsame : z.SameSizing z₁) {sqId stime fuel latest : Nat} (hp : p < q) (hq : q ≤ z.pgsPerZone)
    (hfits : p % z.ssd.sp.pgsPerOneshotpg < 2 ^ pageBits)
    (he : e + 1 = zid * z.pgsPerZone + q) {r : Nat}
    (hr : chunkEnd z.ssd.sp.pgsPerOneshotpg q p = r) :
    writeLoop sqId zid b e stime (fuel + 1) z₁ (zid * z.pgsPerZone + p) latest =
      if r = (p / z.ssd.sp.pgsPerOneshotpg + 1) * z.ssd.sp.pgsPerOneshotpg ∨
          (r = z.pgsPerZone ∧ z.EndSeen zid) then
        writeLoop sqId zid b e stime fuel
          (z₁.programOneshot sqId zid (zid * z.pgsPerZone + p) stime b (z.chunkBytes zid r)).2
          (zid * z.pgsPerZone + r) (max (z₁.programOneshot sqId zid (zid * z.pgsPerZone + p) stime b
            (z.chunkBytes zid r)).1 latest)
      else writeLoop sqId zid b e stime fuel z₁ (zid * z.pgsPerZone + r) latest := by
  have hpos := hs.oneshot_pos
  have hend := chunkEnd_eq hp hpos
  have hdiv := Nat.div_add_mod' p z.ssd.sp.pgsPerOneshotpg
  have hmod := Nat.mod_lt p hpos
  have hpg := hs.pg_page hz hstart (hp.trans_le hq) hfits
  rw [← hsame.lpnToPpa] at hpg
  have hpgs : zid * z.pgsPerZone + p + min (e - (zid * z.pgsPerZone + p) + 1)
      (z.ssd.sp.pgsPerOneshotpg - p % z.ssd.sp.pgsPerOneshotpg) = zid * z.pgsPerZone + r := by
    rw [← hr, chunkEnd]
    omega
  have hlt : p < r := by
    rw [← hr, chunkEnd]
    omega
  have hle : r ≤ z.pgsPerZone := by
    rw [← hr, hend]
    omega
  have hfull : p % z.ssd.sp.pgsPerOneshotpg + min (e - (zid * z.pgsPerZone + p) + 1)
      (z.ssd.sp.pgsPerOneshotpg - p % z.ssd.sp.pgsPerOneshotpg) = z.ssd.sp.pgsPerOneshotpg ↔
      r = (p / z.ssd.sp.pgsPerOneshotpg + 1) * z.ssd.sp.pgsPerOneshotpg := by
    rw [Nat.add_one_mul]
    omega
  have hzone : zid * z.pgsPerZone + r - 1 = z₁.zoneToElpn zid ↔
      r = z.pgsPerZone ∧ z.EndSeen zid := by
    rw [hsame.zoneToElpn]
    exact hs.zoneEnds_iff hz (by omega) hle
  rw [writeLoop, if_pos (by omega)]
  simp only [hsame.sp, hsame.zp, hpg, hpgs, hfull, hzone]
  rfl

/-- Behind the last page the loop ends. -/
theorem writeLoop_stop {sqId stime fuel lpn latest : Nat} (h : e < lpn) :
    writeLoop sqId zid b e stime fuel z₁ lpn latest = (latest, z₁) := by
  cases fuel with
  | zero => rfl
  | succ fuel => rw [writeLoop, if_neg (Nat.not_le.mpr h)]

/-- The loop programs the one-shot pages that end in the pages of the write. -/
theorem Shaped.writeLoop_programmed (hs : z.Shaped) (hz : zid < z.zp.nrZones)
    (hstart : z.StartSeen zid) {sqId stime fuel latest : Nat} (hsame : z.SameSizing z₁)
    (hp : p < q) (hq : q ≤ z.pgsPerZone) (hfits : p % z.ssd.sp.pgsPerOneshotpg < 2 ^ pageBits)
    (he : e + 1 = zid * z.pgsPerZone + q) (hfuel : q - p ≤ fuel) :
    z.Programmed zid (p / z.ssd.sp.pgsPerOneshotpg) q b z₁
      (writeLoop sqId zid b e stime fuel z₁ (zid * z.pgsPerZone + p) latest).2 := by
  have hpos := hs.oneshot_pos
  induction fuel generalizing z₁ p latest with
  | zero => omega
  | succ fuel ih =>
    have hend := chunkEnd_eq hp hpos
    have hlow := Nat.div_mul_le_self p z.ssd.sp.pgsPerOneshotpg
    have hup : p < (p / z.ssd.sp.pgsPerOneshotpg + 1) * z.ssd.sp.pgsPerOneshotpg :=
      Nat.lt_mul_of_div_lt (Nat.lt_succ_self _) hpos
    have hindex := hs.oneshotIndex_page hz hstart (hp.trans_le hq)
    rw [hs.writeLoop_succ hz hstart hsame hp hq hfits he rfl]
    generalize chunkEnd z.ssd.sp.pgsPerOneshotpg q p = r at hend
    by_cases hlast : r = q
    · subst hlast
      rw [writeLoop_stop (by omega), writeLoop_stop (by omega)]
      split
      · next hchunk =>
        obtain ⟨hcount, hsize⟩ := hs.chunk_programmed (by omega) (by omega) hchunk
        exact .last hsame hindex hcount hsize
      · next hchunk =>
        obtain ⟨hopen, hseen⟩ := not_or.mp hchunk
        obtain ⟨hcount, hsize⟩ := @Shaped.chunk_open z zid r (p / z.ssd.sp.pgsPerOneshotpg)
          (by omega) (by omega) hseen
        refine ⟨hcount.ge, ⟨[], (List.append_nil _).symm, ?_, ?_⟩, ?_⟩
        · rintro op ⟨⟩
        · rwa [List.map_nil, List.sum_nil, Nat.zero_add]
        · rw [hcount, Nat.sub_self, List.range'_zero, List.map_nil, List.append_nil]
          exact (Function.update_eq_self ..).symm
    · have hr : r = (p / z.ssd.sp.pgsPerOneshotpg + 1) * z.ssd.sp.pgsPerOneshotpg := by omega
      have hdiv : r / z.ssd.sp.pgsPerOneshotpg = p / z.ssd.sp.pgsPerOneshotpg + 1 := by
        rw [hr, Nat.mul_div_cancel _ hpos]
      have hmod : r % z.ssd.sp.pgsPerOneshotpg = 0 := by
        rw [hr, Nat.mul_mod_left]
      have hbytes : z.chunkBytes zid r = z.oneshotSize := if_neg fun h => absurd h.1.1 (by omega)
      rw [if_pos (Or.inl hr), hbytes]
      apply Programmed.cons hsame hindex
      · rw [Nat.add_one_mul, Nat.add_comm]
      · rw [← hdiv]
        apply ih
        · exact ⟨hsame.zp, hsame.sp⟩
        · omega
        · rw [hmod]
          exact Nat.two_pow_pos _
        · omega

end ZnsFtl

end NvmeVirt
