import NvmeVirt.Conv.Namespace

/-!
# The range check of reads and writes

`conv_read` and `conv_write` compare the last logical page of a command with the physical
page count of a partition. That is not the advertised size, and the last block number is a
64-bit sum that wraps around.
-/

namespace NvmeVirt

open Checked

/-- The blocks of the command lie inside the namespace. -/
def RwCommand.Inside (c : RwCommand) (ns : ConvNs) : Prop :=
  c.slba + (c.length + 1) ≤ ns.size >>> lbaBits

instance (c : RwCommand) (ns : ConvNs) : Decidable (c.Inside ns) :=
  inferInstanceAs (Decidable (_ ≤ _))

/-- Every command that the namespace accepts lies inside it. -/
def RwCommand.AcceptedInside (c : RwCommand) (ns : ConvNs) : Prop :=
  (∀ req t ns', ns.convRead req c = (some t, ns') → c.Inside ns) ∧
    ∀ req t ns', ns.convWrite req c = .ok (some t, ns') → c.Inside ns

/-- The range check, in blocks. -/
theorem endLpn_div_ge_iff {c : RwCommand} {spp : Ssdparams} {parts : Nat}
    (hsecs : spp.secsPerPg = 8) (hparts : 0 < parts) :
    c.endLpn spp / parts ≥ spp.ttPgs ↔
      8 * parts * spp.ttPgs ≤ (c.slba + c.length) % 2 ^ 64 := by
  have hend : c.endLpn spp = (c.slba + c.length) % 2 ^ 64 / 8 := by
    rw [RwCommand.endLpn, hsecs]
    rfl
  rw [hend, Nat.div_div_eq_div_mul, ge_iff_le, Nat.le_div_iff_mul_le (by omega), Nat.mul_comm]

/-- A read is accepted exactly when it passes the range check. -/
theorem convRead_isSome {ns : ConvNs} (req : NvmevRequest) {c : RwCommand}
    (h : ¬ c.endLpn ns.spp / ns.nrParts ≥ ns.spp.ttPgs) :
    ∃ t ns', ns.convRead req c = (some t, ns') := by
  unfold ConvNs.convRead
  rw [if_neg h]
  exact ⟨_, _, rfl⟩

/-- In every state that a run reaches, what is accepted lies inside the namespace exactly for
the commands that lie inside it or that the range check rejects. -/
theorem accepted_inside_iff (cfg : SlcConfig) (mem : ConvMemory) (clock : Clock) (size : Nat)
    (events : List ConvEvent) (ns : ConvNs) (c : RwCommand)
    (h : convRun cfg.toSsdConfig mem clock size events = .ok ns) :
    c.AcceptedInside ns ↔
      c.Inside ns ∨ 8 * ns.nrParts * ns.spp.ttPgs ≤ (c.slba + c.length) % 2 ^ 64 := by
  rcases slcRun_outcome cfg mem clock size events with
    herr | ⟨g, b, spp, -, -, -, -, hrun⟩
  · rw [herr] at h
    cases h
  have heach := hrun.of_ok h
  obtain ⟨cls, w, hidle, -⟩ := heach.inst 0 heach.parts
  have hsecs : ns.spp.secsPerPg = 8 := hidle.ok.static.fits.secsPerPg
  rw [← endLpn_div_ge_iff hsecs heach.parts]
  constructor
  · rintro ⟨hread, -⟩
    by_cases hrange : c.endLpn ns.spp / ns.nrParts ≥ ns.spp.ttPgs
    · exact Or.inr hrange
    · obtain ⟨t, ns', hr⟩ := convRead_isSome { sqId := 0, nsecsStart := 0 } hrange
      exact Or.inl (hread _ t ns' hr)
  · rintro (hin | hrange)
    · exact ⟨fun _ _ _ _ => hin, fun _ _ _ _ => hin⟩
    · refine ⟨fun req t ns' hr => ?_, fun req t ns' hr => ?_⟩
      · rw [ConvNs.convRead, if_pos hrange] at hr
        cases hr
      · rw [ConvNs.convWrite, if_pos hrange] at hr
        cases hr

/-- The first block of the documented device. -/
theorem accepted_inside_first_block : ∃ ns : ConvNs,
    convRun samsung970proSlc.toSsdConfig default default (mb 3071) [] = .ok ns ∧
      RwCommand.AcceptedInside ⟨0, 0, false⟩ ns := by
  have hok : (convRun samsung970proSlc.toSsdConfig default default (mb 3071) []).map
      (fun ns => decide (RwCommand.Inside ⟨0, 0, false⟩ ns)) = .ok true := by decide +kernel
  obtain ⟨ns, hrun, hns⟩ := except_map_eq_ok.mp hok
  exact ⟨ns, hrun, (accepted_inside_iff samsung970proSlc default default (mb 3071) [] ns
    ⟨0, 0, false⟩ hrun).mpr (Or.inl (of_decide_eq_true hns))⟩

/-- The sum of the block number and the length wraps around, and the command is accepted. -/
theorem accepted_outside_wrap : ∃ ns : ConvNs,
    convRun samsung970proSlc.toSsdConfig default default (mb 3071) [] = .ok ns ∧
      RwCommand.Wf ⟨2 ^ 64 - 1, 1, false⟩ ∧ ¬ RwCommand.AcceptedInside ⟨2 ^ 64 - 1, 1, false⟩ ns ∧
      (∃ t ns', ns.convWrite ⟨1, 5⟩ ⟨2 ^ 64 - 1, 1, false⟩ = .ok (some t, ns')) := by
  have hok : (convRun samsung970proSlc.toSsdConfig default default (mb 3071) []).map
      (fun ns => (decide (RwCommand.Inside ⟨2 ^ 64 - 1, 1, false⟩ ns),
        (ns.convRead ⟨1, 5⟩ ⟨2 ^ 64 - 1, 1, false⟩).1.isSome,
        (ns.convWrite ⟨1, 5⟩ ⟨2 ^ 64 - 1, 1, false⟩).map fun r => r.1.isSome)) =
      .ok (false, true, .ok true) := by decide +kernel
  obtain ⟨ns, hrun, hns⟩ := except_map_eq_ok.mp hok
  obtain ⟨hnot, hns⟩ := Prod.mk.inj hns
  obtain ⟨hread, hwrite⟩ := Prod.mk.inj hns
  obtain ⟨r, hw, hr⟩ := except_map_eq_ok.mp hwrite
  obtain ⟨t, ht⟩ := Option.isSome_iff_exists.mp hread
  obtain ⟨t', ht'⟩ := Option.isSome_iff_exists.mp hr
  refine ⟨ns, hrun, ⟨by simp, by simp⟩, fun hin => ?_, t', r.2, ?_⟩
  · exact of_decide_eq_false hnot (hin.1 ⟨1, 5⟩ t _ (Prod.ext ht rfl))
  · rw [hw, ← ht']

end NvmeVirt
