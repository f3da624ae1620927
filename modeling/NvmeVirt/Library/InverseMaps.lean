import Mathlib.Logic.Function.Basic
import Mathlib.Tactic.Common

/-!
# A partial map and its reverse

`fwd` maps some keys to places, `bwd` names the key of each place that is live. They are
inverse when every mapped key has a live place that names it, and every live place is the
place of the key it names. Remapping a key to a place that is not live keeps this.
-/

namespace InverseMaps

variable {κ ν : Type}

/-- The mapped keys and the live places correspond one to one. -/
structure Inverse (fwd : κ → Option ν) (bwd : ν → κ) (live : ν → Prop) : Prop where
  live_of_fwd : ∀ k v, fwd k = some v → live v ∧ bwd v = k
  fwd_of_live : ∀ v, live v → fwd (bwd v) = some v

variable {fwd fwd' : κ → Option ν} {bwd bwd' : ν → κ} {live live' : ν → Prop}

/-- No two keys share a place. -/
theorem Inverse.inj (h : Inverse fwd bwd live) {k k' : κ} {v : ν} (hk : fwd k = some v)
    (hk' : fwd k' = some v) : k = k' := by
  rw [← (h.live_of_fwd k v hk).2, ← (h.live_of_fwd k' v hk').2]

/-- Only the live places and their names matter. -/
theorem Inverse.congr (h : Inverse fwd bwd live) (hl : ∀ v, live' v ↔ live v)
    (hb : ∀ v, live v → bwd' v = bwd v) : Inverse fwd bwd' live' := by
  constructor
  · intro k v hk
    obtain ⟨hv, he⟩ := h.live_of_fwd k v hk
    exact ⟨(hl v).mpr hv, (hb v hv).trans he⟩
  · intro v hv
    rw [hb v ((hl v).mp hv)]
    exact h.fwd_of_live v ((hl v).mp hv)

/-- A key moves to a place that was not live; the place it had is no longer live. -/
theorem Inverse.remap [DecidableEq κ] (h : Inverse fwd bwd live) {k : κ} {new : ν}
    (hnew : ¬ live new) (hk : bwd' new = k)
    (hb : ∀ v, live v → fwd k ≠ some v → bwd' v = bwd v)
    (hl : ∀ v, live' v ↔ v = new ∨ (live v ∧ fwd k ≠ some v)) :
    Inverse (Function.update fwd k (some new)) bwd' live' := by
  constructor
  · intro k' v hv
    by_cases he : k' = k
    · subst he
      rw [Function.update_self] at hv
      obtain rfl := Option.some.inj hv
      exact ⟨(hl _).mpr (Or.inl rfl), hk⟩
    · rw [Function.update_of_ne he] at hv
      obtain ⟨hlive, hbv⟩ := h.live_of_fwd k' v hv
      have hne : fwd k ≠ some v := fun hkv => he (h.inj hv hkv)
      exact ⟨(hl v).mpr (Or.inr ⟨hlive, hne⟩), (hb v hlive hne).trans hbv⟩
  · intro v hv
    rcases (hl v).mp hv with rfl | ⟨hlive, hne⟩
    · rw [hk, Function.update_self]
    · rw [hb v hlive hne]
      have hv' := h.fwd_of_live v hlive
      rwa [Function.update_of_ne fun he : bwd v = k => hne (he ▸ hv')]

end InverseMaps
