import NvmeVirt.Zns.Writes

/-!
# A new namespace of zones

What the initialisers of the device and of the zones leave: sizes that fit together, empty zones,
and nothing acquired.
-/

namespace NvmeVirt

open Checked Tally

/-- The sizes of `ssd_init_params`. -/
theorem ssdInitParams_sizes {cfg : SsdConfig} {spp spp' : Ssdparams} {capacity nparts : Nat}
    (h : ssdInitParams spp cfg capacity nparts = some spp') :
    spp'.secsz = 512 ∧ spp'.secsPerPg = 8 ∧ spp'.pgsz = 4096 ∧
      spp'.pgsPerOneshotpg * 4096 = cfg.oneshotPageSize ∧
      spp'.writeUnitSize = cfg.writeUnitSize ∧ spp'.writeBufferSize = cfg.globalWbSize := by
  simp only [ssdInitParams, Option.bind_eq_bind, Option.bind_eq_some_iff, Option.pure_def,
    Option.some.injEq] at h
  obtain ⟨b, hb, _, -, _, -, _, -, _, -, _, -, _, -, _, -, rfl⟩ := h
  refine ⟨rfl, rfl, rfl, ?_, rfl, rfl⟩
  simp only [baseParams, pgsz_eq, Option.bind_eq_bind, Option.bind_eq_some_iff, Option.pure_def,
    Option.some.injEq, Prod.exists] at hb
  obtain ⟨_, -, _, _, -, _, hpg, _, -, _, -, _, -, _, -, rfl⟩ := hb
  have hdvd := (cAssert_eq_some.mp hpg).1
  exact Nat.div_mul_cancel (Nat.dvd_of_mod_eq_zero hdvd)

namespace ZnsFtl

variable {cfg : ZnsConfig} {mem : ZnsMemory} {clock : Clock} {size : Nat} {z z' : ZnsFtl}

/-- A namespace as it is created. -/
structure Fresh (cfg : ZnsConfig) (z : ZnsFtl) : Prop where
  shaped : z.Shaped
  oneshot : z.ssd.sp.pgsPerOneshotpg * 4096 = cfg.oneshotPageSize
  writeUnit : z.ssd.sp.writeUnitSize = cfg.writeUnitSize
  zrwaZones : z.zp.nrZrwaZones = u32 cfg.maxZrwaZones
  lbasPerZrwafg : z.zp.lbasPerZrwafg = u32 (cfg.zrwafgSize / 512)
  lbasPerZrwa : z.zp.lbasPerZrwa = u32 (cfg.zrwaSize / 512)
  zrwaBufferSize_lt : z.zp.zrwaBufferSize < 2 ^ 32
  zoneDescs : ∀ i < z.zp.nrZones, z.zoneDescs i = initDescriptor z.zp i
  resInfos : z.resInfos = initResource z.zp
  buffers : z.buffers = initBuffers z.ssd.sp z.zp
  pending : z.pending = []
  programs : z.programs = fun _ => []

theorem fresh_of_init (h : znsInitNamespace cfg mem clock size = .ok z) : z.Fresh cfg := by
  unfold znsInitNamespace at h
  split at h
  · cases h
  · next spp hspp =>
    obtain ⟨zpp, hzpp, h⟩ := bind_eq_ok.mp h
    cases h
    obtain ⟨hsecsz, hsecs, hpgsz, hone, hunit, -⟩ := ssdInitParams_sizes hspp
    simp only [znsInitParams, bind_eq_ok] at hzpp
    obtain ⟨_, hsize, _, hdvd, hzpp⟩ := hzpp
    cases hzpp
    have hsize := require_eq_ok.mp hsize
    have hdvd := require_eq_ok.mp hdvd
    rw [hpgsz] at hdvd
    refine ⟨⟨hsecsz, hsecs, hpgsz, Nat.pos_of_ne_zero hsize.1, Nat.mod_lt _ (by simp),
      Nat.dvd_of_mod_eq_zero hdvd, Nat.mod_lt _ (by simp), ?_⟩, hone, hunit, rfl, ?_, ?_,
      Nat.mod_lt _ (by simp), fun i hi => if_pos hi, rfl, rfl, rfl, rfl⟩
    · have hpos := cfg.oneshot_pos
      rw [← hone] at hpos
      exact Nat.pos_of_mul_pos_right hpos
    · rw [← hsecsz]
    · rw [← hsecsz]

/-- Nothing is held in a new namespace. -/
theorem Fresh.holds (h : z.Fresh cfg) {i : Nat} (hi : i < z.zp.nrZones) (t : ZoneResource) :
    (z.zoneDescs i).holds t = false := by
  rw [h.zoneDescs i hi]
  cases t <;> rfl

theorem Fresh.count (h : z.Fresh cfg) (t : ZoneResource) : z.count t = 0 := by
  apply tally_eq_zero
  intro i hi
  rw [h.holds hi]
  decide

theorem Fresh.acquired (h : z.Fresh cfg) (t : ZoneResource) : z.acquired t = 0 := by
  rw [ZnsFtl.acquired, h.resInfos]
  rfl

theorem Fresh.booked (h : z.Fresh cfg) : z.Booked := by
  refine ⟨h.shaped.nrZones_lt, fun t => ?_, ?_, ?_, ?_, ?_, fun i hi _ => ?_⟩
  · rw [ZnsFtl.total, h.resInfos]
    rfl
  · rw [h.acquired, h.count]
  · rw [h.acquired, h.count]
  · rw [h.acquired, h.count]
  · rw [h.acquired]
    exact Nat.zero_le _
  · rw [h.zoneDescs i hi]
    rfl

end ZnsFtl

end NvmeVirt
