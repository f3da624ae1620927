import Mathlib.Logic.Function.Basic
import Mathlib.Tactic.Common

/-!
# Locks and their holders

Each lock records the thread that holds it, and each thread is at a place where it holds at most one
lock of the kind. The two agree; so a lock has one holder.
-/

namespace Locks

variable {T L : Type}

/-- The threads hold exactly the locks that record them. -/
def Agree (held : T → Option L) (holder : L → Option T) : Prop :=
  ∀ t l, held t = some l ↔ holder l = some t

variable {held : T → Option L} {holder : L → Option T} {t t' : T} {l : L}

/-- A lock has one holder. -/
theorem Agree.unique (h : Agree held holder) (ht : held t = some l) (ht' : held t' = some l) :
    t = t' :=
  Option.some.inj (((h t l).mp ht).symm.trans ((h t' l).mp ht'))

variable [DecidableEq T] [DecidableEq L]

/-- A thread that holds nothing takes a free lock. -/
theorem Agree.acquire (h : Agree held holder) (ht : held t = none) (hl : holder l = none) :
    Agree (Function.update held t (some l)) (Function.update holder l (some t)) := by
  intro u m
  simp only [Function.update_apply]
  split_ifs with hu hm hm
  · simp [hu, hm]
  · subst hu
    have hnot : holder m ≠ some u := fun hm' => by
      rw [(h u m).mpr hm'] at ht
      cases ht
    simp [hnot, Ne.symm hm]
  · subst hm
    have hnot : held u ≠ some m := fun hu' => by
      rw [(h u m).mp hu'] at hl
      cases hl
    simp [hnot, Ne.symm hu]
  · exact h u m

/-- The holder gives the lock back. -/
theorem Agree.release (h : Agree held holder) (ht : held t = some l) :
    Agree (Function.update held t none) (Function.update holder l none) := by
  intro u m
  simp only [Function.update_apply]
  split_ifs with hu hm hm
  · simp
  · subst hu
    have hnot : holder m ≠ some u := fun hm' => by
      rw [(h u m).mpr hm'] at ht
      exact hm (Option.some.inj ht)
    simp [hnot]
  · subst hm
    have hnot : held u ≠ some m := fun hu' => hu (h.unique hu' ht)
    simp [hnot]
  · exact h u m

end Locks
