import Mathlib.Data.Int.Basic
import Mathlib.Data.Int.GCD
import Mathlib.Tactic.Linarith
import NvmeVirt.Conv.History

/-!
# The selection policy of a build

`select_victim_line` chooses between three policies by the macros `CB` and `RD`, and the
`Makefile` has one target for each. A `#define CB` above the function decides for all
three. So every target selects by cost and benefit, which is right for `make cb`, and
agrees with the other two policies as long as there is not more than one victim.
-/

namespace NvmeVirt

open Checked

/-! ## The builds -/

/-- The macros that `select_victim_line` tests. -/
structure Macros where
  cb : Bool
  rd : Bool
  deriving DecidableEq, Repr

/-- The three targets of the `Makefile` that build the module. -/
inductive Target
  | default
  | rd
  | cb
  deriving DecidableEq, Repr

/-- `EXTRA_CFLAGS` of a target. -/
def Target.cflags : Target → Macros
  | .default => { cb := false, rd := false }
  | .rd => { cb := false, rd := true }
  | .cb => { cb := true, rd := false }

/-- `#define CB`, which stands above `select_victim_line`. -/
def Macros.defineCb (mac : Macros) : Macros := { mac with cb := true }

namespace ConvFtl

/-- The first part of `select_victim_line`, between `#if defined(CB)` and `#endif`. `draw` is
what `get_random_u32` returns. -/
def pickVictim (mac : Macros) (draw : Nat) (f : ConvFtl) : Except Fault (Option Nat × ConvFtl) :=
  if mac.cb then do
    let (f, minIdx, _) ← (List.range' 1 (f.lm.victimLinePq.size - 1)).foldlM cbStep
      (f, none, 2 ^ 63 - 1)
    return (minIdx.map f.lm.victimLinePq.d, f)
  else if mac.rd then do
    let qSize := f.lm.victimLinePq.size - 1
    require (qSize ≠ 0) .divByZero
    return (some (f.lm.victimLinePq.d (draw % qSize + 1)), f)
  else return (f.lm.victimLinePq.peek, f)

/-- `select_victim_line` under the macros `mac`. -/
def selectVictimLineUnder (mac : Macros) (force : Bool) (draw : Nat) (f : ConvFtl) :
    Except Fault (Option Nat × ConvFtl) := do
  let (victim, f) ← f.pickVictim mac draw
  match victim with
  | none => return (none, f)
  | some l =>
    if !(mac.rd || mac.cb) && !force &&
        decide (f.ssd.sp.pgsPerLine / 8 < (f.lines l).vpc) then return (none, f)
    else
      let (pq, lines) :=
        if mac.cb || mac.rd then f.lm.victimLinePq.remove victimLine f.lines l
        else (f.lm.victimLinePq.pop victimLine f.lines).2
      let f := { f with
        lines := Function.update lines l { lines l with pos := 0 }
        lm := { f.lm with victimLinePq := pq, victimLineCnt := f.lm.victimLineCnt - 1 } }
      return (some l, f.countAge l)

/-- `select_victim_line` as the target `t` builds it. -/
def selectVictimLineIn (t : Target) (force : Bool) (draw : Nat) (f : ConvFtl) :
    Except Fault (Option Nat × ConvFtl) :=
  f.selectVictimLineUnder t.cflags.defineCb force draw

/-- The definition of `CB` in the file hides the choice of the target. -/
theorem selectVictimLineIn_eq (t : Target) (force : Bool) (draw : Nat) (f : ConvFtl) :
    f.selectVictimLineIn t force draw = f.selectVictimLine := by
  unfold selectVictimLineIn selectVictimLineUnder pickVictim selectVictimLine
  simp only [Macros.defineCb, if_true, Bool.or_true, Bool.not_true, Bool.false_and,
    Bool.false_eq_true, if_false, Bool.true_or]
  cases (List.range' 1 (f.lm.victimLinePq.size - 1)).foldlM cbStep (f, none, 2 ^ 63 - 1) with
  | error e => rfl
  | ok s =>
    obtain ⟨f₁, best, val⟩ := s
    cases best with
    | none => rfl
    | some i => rfl

end ConvFtl

/-! ## The documented policies -/

/-- A compiled `select_victim_line`: its result for `force` and for the random number. -/
abbrev Selection := Bool → Nat → Except Fault (Option Nat × ConvFtl)

/-- The divisor in `calculate_cost_benefit_val`: the invalid pages times the age class, as an
`int`. -/
def cost (spp : Ssdparams) (now : Nat) (line : Line) : Int :=
  Int.bmod ((asInt spp.pgsPerLine - line.vpc) * ageLevelize (u64Sub now line.mtime / 1000)) (2 ^ 32)

namespace ConvFtl

variable (f : ConvFtl)

/-- The line `l` can be collected. -/
def IsVictim (l : Nat) : Prop := f.lm.victimLinePq.Mem l

/-- The reading of the clock after `k` others. -/
def nowAt (k : Nat) : Nat := u64 (f.ssd.perf.clock.reading (f.ssd.perf.clock.reads + k))

/-- The victim at index `i` of the queue array. -/
def victimAt (i : Nat) : Line := f.lines (f.lm.victimLinePq.d i)

/-- The cost-benefit value of the victim at index `i`, at the reading taken for it. -/
def cbValue (i : Nat) : Except Fault Int :=
  calculateCostBenefitVal f.ssd.sp (f.nowAt (i - 1)) (f.victimAt i)

/-- The divisor of this value. -/
def cbCost (i : Nat) : Int := cost f.ssd.sp (f.nowAt (i - 1)) (f.victimAt i)

/-- `make`: with `force`, a victim with the fewest valid pages. -/
def MeetsGreedy (sel : Selection) : Prop :=
  (∃ l, f.IsVictim l) → ∀ draw, ∃ l f', sel true draw = .ok (some l, f') ∧ f.IsVictim l ∧
    ∀ l', f.IsVictim l' → (f.lines l).vpc ≤ (f.lines l').vpc

/-- `make rd`: every victim for some random number, and nothing else. -/
def MeetsRandom (sel : Selection) : Prop :=
  ∀ force,
    ((∃ l, f.IsVictim l) → ∀ draw, ∃ l f', sel force draw = .ok (some l, f') ∧ f.IsVictim l) ∧
    ∀ l, f.IsVictim l → ∃ draw < 2 ^ 32, ∃ f', sel force draw = .ok (some l, f')

/-- `make cb`: a victim of minimum cost-benefit value. -/
def MeetsCostBenefit (sel : Selection) : Prop :=
  (∃ l, f.IsVictim l) → ∀ force draw, ∃ i v f', 1 ≤ i ∧ i < f.lm.victimLinePq.size ∧
    sel force draw = .ok (some (f.lm.victimLinePq.d i), f') ∧ f.cbValue i = .ok v ∧
    ∀ j, 1 ≤ j → j < f.lm.victimLinePq.size → ∃ v', f.cbValue j = .ok v' ∧ v ≤ v'

/-- An empty queue gives NULL and leaves the state alone. -/
def MeetsEmpty (sel : Selection) : Prop :=
  (∀ l, ¬ f.IsVictim l) → ∀ force draw, sel force draw = .ok (none, f)

/-- Every target selects by the policy that is documented for it. -/
structure DocumentedPolicies : Prop where
  default : f.MeetsGreedy fun force draw => f.selectVictimLineIn .default force draw
  rd : f.MeetsRandom fun force draw => f.selectVictimLineIn .rd force draw
  cb : f.MeetsCostBenefit fun force draw => f.selectVictimLineIn .cb force draw
  empty : ∀ t, f.MeetsEmpty fun force draw => f.selectVictimLineIn t force draw

end ConvFtl

/-! ## The values of a reachable queue -/

variable {g : Geometry} {cls : Nat → LineClass} {w : LineMode → Nat} {f f' : ConvFtl}
  {i l n : Nat}

/-- The instance after `k` readings of the clock. -/
def ConvFtl.ticked (f : ConvFtl) (k : Nat) : ConvFtl :=
  let clock := f.ssd.perf.clock
  { f with ssd := { f.ssd with
    perf := { f.ssd.perf with clock := { clock with reads := clock.reads + k } } } }

@[simp] theorem ConvFtl.ticked_ktimeGetNs (f : ConvFtl) (k : Nat) :
    (f.ticked k).ktimeGetNs = (f.nowAt k, f.ticked (k + 1)) := rfl

/-- A victim of the TLC pool is written and has an invalid page. -/
theorem ConvFtl.Idle.victimAt_counts (h : f.Idle g cls w) (hi : 1 ≤ i)
    (hi' : i < f.lm.victimLinePq.size) :
    (f.victimAt i).vpc + (f.victimAt i).ipc = g.pgsPerLine .tlc ∧ 0 < (f.victimAt i).ipc := by
  obtain ⟨hm, hc⟩ := ((h.ok.pools.cont .tlc).victim (f.lm.victimLinePq.d i)).mp ⟨i, hi, hi', rfl⟩
  have hline := h.ok.pools.line _ (g.hasLine_iff.mp hm).1
  rw [g.hasLine_pool hm, hc] at hline
  exact hline.fact

/-- A product with `SCALER` never wraps around to the least `long long`. -/
theorem scaler_mul_ne_min {v q r : Int} (h : 2 ^ 64 * q + r = v * scaler) (hv : 0 ≤ v)
    (hlt : v < 2 ^ 31) : r ≠ -2 ^ 63 := by
  intro hr
  rw [scaler] at h
  have hdvd : (2 ^ 51 : Int) ∣ v * 244140625 := ⟨2 * q - 1, by linarith⟩
  have hdvd := Int.dvd_of_dvd_mul_left_of_gcd_one hdvd (by decide)
  obtain rfl := Int.eq_zero_of_dvd_of_nonneg_of_lt hv (hlt.trans (by simp)) hdvd
  omega

/-- The quotient of the value is never `__LONG_LONG_MAX__`: its numerator is even. -/
theorem tdiv_scaler_lt {v : Nat} (hv : v < 2 ^ 31) (c : Int) :
    (Int.bmod (v * scaler) (2 ^ 64)).tdiv c < 2 ^ 63 - 1 := by
  have hdiv := Int.bdiv_add_bmod (v * scaler) (2 ^ 64)
  have hlow := @Int.le_bmod (v * scaler) (2 ^ 64) (by simp)
  have hup := @Int.bmod_lt (v * scaler) (2 ^ 64) (by simp)
  have habs := Int.natAbs_tdiv_le_natAbs (Int.bmod (v * scaler) (2 ^ 64)) c
  generalize Int.bmod (v * scaler) (2 ^ 64) = r at *
  have hmin := scaler_mul_ne_min hdiv (by omega) (by omega)
  have heven : r % 2 = 0 := by
    rw [scaler] at hdiv
    omega
  clear hdiv
  omega

/-- `calculate_cost_benefit_val` of a line with an invalid page. -/
theorem calculateCostBenefitVal_eq {spp : Ssdparams} {line : Line} (now : Nat)
    (hv : (line.vpc : Int) ≠ asInt spp.pgsPerLine) :
    calculateCostBenefitVal spp now line = (require (cost spp now line ≠ 0) .divByZero).map
      fun _ => (Int.bmod (line.vpc * scaler) (2 ^ 64)).tdiv (cost spp now line) := by
  unfold calculateCostBenefitVal cost
  dsimp only
  rw [if_neg hv]
  generalize Int.bmod ((asInt spp.pgsPerLine - line.vpc) *
    ageLevelize (u64Sub now line.mtime / 1000)) (2 ^ 32) = c
  by_cases hz : c ≠ 0
  · rw [require_pos hz]
    rfl
  · rw [require_neg hz]
    rfl

/-- The value of a victim is a fault exactly when its divisor is zero. -/
theorem ConvFtl.Idle.cbValue_error (h : f.Idle g cls w) (hi : 1 ≤ i)
    (hi' : i < f.lm.victimLinePq.size) (hz : f.cbCost i = 0) :
    f.cbValue i = .error .divByZero := by
  obtain ⟨hsum, hipc⟩ := h.victimAt_counts hi hi'
  have hppl : asInt f.ssd.sp.pgsPerLine = g.pgsPerLine .tlc := h.ok.static.fits.pgsPerLine .tlc
  unfold ConvFtl.cbValue
  unfold ConvFtl.cbCost at hz
  rw [calculateCostBenefitVal_eq _ (by omega), require_neg (not_not.mpr hz)]
  rfl

theorem ConvFtl.Idle.cbValue_ok (h : f.Idle g cls w) (hi : 1 ≤ i)
    (hi' : i < f.lm.victimLinePq.size) (hz : f.cbCost i ≠ 0) :
    ∃ v, v < 2 ^ 63 - 1 ∧ f.cbValue i = .ok v := by
  obtain ⟨hsum, hipc⟩ := h.victimAt_counts hi hi'
  have hppl : asInt f.ssd.sp.pgsPerLine = g.pgsPerLine .tlc := h.ok.static.fits.pgsPerLine .tlc
  have hpages : g.pgsPerLine .tlc < 2 ^ 31 := g.pages_lt .tlc
  have hlt : (f.victimAt i).vpc < 2 ^ 31 := by omega
  refine ⟨_, tdiv_scaler_lt hlt (f.cbCost i), ?_⟩
  unfold ConvFtl.cbValue ConvFtl.cbCost
  unfold ConvFtl.cbCost at hz
  rw [calculateCostBenefitVal_eq _ (by omega), require_pos hz]
  rfl

/-! ## The search -/

/-- One step of the search at index `k + 1`. -/
theorem ConvFtl.Idle.cbStep_eq (h : f.Idle g cls w) {k : Nat} (hk : k + 1 < f.lm.victimLinePq.size)
    (best : Option Nat) (val : Int) :
    ConvFtl.cbStep (f.ticked k, best, val) (k + 1) =
      (f.cbValue (k + 1)).map fun v =>
        (f.ticked (k + 1), if v < val then (some (k + 1), v) else (best, val)) := by
  have hipc := (h.victimAt_counts (Nat.succ_pos k) hk).2
  unfold ConvFtl.cbStep
  have hne : ¬ ((f.ticked k).lines ((f.ticked k).lm.victimLinePq.d (k + 1))).ipc = 0 := by
    exact Nat.ne_of_gt hipc
  simp only [if_neg hne, ConvFtl.ticked_ktimeGetNs]
  change (f.cbValue (k + 1) >>= _) = _
  cases f.cbValue (k + 1) with
  | error e => rfl
  | ok v =>
    simp only [ok_bind, Except.map]
    split <;> rfl

/-- What the search knows after the first `n` indices. -/
def ConvFtl.BestOf (f : ConvFtl) (n : Nat) (best : Option Nat) (val : Int) : Prop :=
  (n = 0 ∧ best = none ∧ val = 2 ^ 63 - 1) ∨
    ∃ i, best = some i ∧ 1 ≤ i ∧ i ≤ n ∧ f.cbValue i = .ok val ∧
      ∀ j, 1 ≤ j → j ≤ n → ∃ v, f.cbValue j = .ok v ∧ val ≤ v

/-- The comparison of the search keeps the best index. -/
theorem ConvFtl.BestOf.step {best : Option Nat} {val v : Int} (h : f.BestOf n best val)
    (hv : f.cbValue (n + 1) = .ok v) (hlt : v < 2 ^ 63 - 1) :
    f.BestOf (n + 1) (if v < val then some (n + 1) else best) (if v < val then v else val) := by
  right
  rcases h with ⟨rfl, rfl, rfl⟩ | ⟨i, rfl, hi, hin, hval, hmin⟩
  · rw [if_pos hlt, if_pos hlt]
    refine ⟨1, rfl, le_refl 1, le_refl 1, hv, fun j hj hj' => ?_⟩
    obtain rfl : j = 1 := by omega
    exact ⟨v, hv, le_refl v⟩
  · by_cases hc : v < val
    · rw [if_pos hc, if_pos hc]
      refine ⟨n + 1, rfl, by omega, le_refl _, hv, fun j hj hj' => ?_⟩
      rcases Nat.lt_or_eq_of_le hj' with hlt' | rfl
      · obtain ⟨v', hv', hle⟩ := hmin j hj (Nat.le_of_lt_succ hlt')
        exact ⟨v', hv', by omega⟩
      · exact ⟨v, hv, le_refl v⟩
    · rw [if_neg hc, if_neg hc]
      refine ⟨i, rfl, hi, by omega, hval, fun j hj hj' => ?_⟩
      rcases Nat.lt_or_eq_of_le hj' with hlt' | rfl
      · exact hmin j hj (Nat.le_of_lt_succ hlt')
      · exact ⟨v, hv, by omega⟩

/-- The search over the first `n` indices, when no divisor is zero. -/
theorem ConvFtl.Idle.search_ok (h : f.Idle g cls w) (hn : n < f.lm.victimLinePq.size)
    (hcost : ∀ j, 1 ≤ j → j ≤ n → f.cbCost j ≠ 0) :
    ∃ best val, (List.range' 1 n).foldlM ConvFtl.cbStep (f, none, 2 ^ 63 - 1) =
      .ok (f.ticked n, best, val) ∧ f.BestOf n best val := by
  induction n with
  | zero => exact ⟨none, 2 ^ 63 - 1, rfl, Or.inl ⟨rfl, rfl, rfl⟩⟩
  | succ n ih =>
    obtain ⟨best, val, hrun, hbest⟩ := ih (by omega) fun j hj hj' => hcost j hj (by omega)
    obtain ⟨v, hlt, hv⟩ := h.cbValue_ok (Nat.succ_pos n) hn (hcost _ (Nat.succ_pos n) (le_refl _))
    refine ⟨_, _, ?_, hbest.step hv hlt⟩
    rw [List.range'_1_concat, List.foldlM_append, hrun, ok_bind, List.foldlM_cons, Nat.add_comm 1 n,
      h.cbStep_eq hn, hv]
    simp only [Except.map, ok_bind, List.foldlM_nil]
    split <;> rfl

/-- The search divides by zero when one of the divisors is zero. -/
theorem ConvFtl.Idle.search_error (h : f.Idle g cls w) (hn : n < f.lm.victimLinePq.size)
    (hz : ∃ j, 1 ≤ j ∧ j ≤ n ∧ f.cbCost j = 0) :
    (List.range' 1 n).foldlM ConvFtl.cbStep (f, none, 2 ^ 63 - 1) = .error .divByZero := by
  induction n with
  | zero =>
    obtain ⟨j, hj, hj', -⟩ := hz
    omega
  | succ n ih =>
    rw [List.range'_1_concat, List.foldlM_append]
    by_cases hc : ∃ j, 1 ≤ j ∧ j ≤ n ∧ f.cbCost j = 0
    · rw [ih (by omega) hc]
      rfl
    · obtain ⟨j, hj, hj', hzero⟩ := hz
      have hall : ∀ j, 1 ≤ j → j ≤ n → f.cbCost j ≠ 0 := fun j hj hj' h0 => hc ⟨j, hj, hj', h0⟩
      obtain rfl : j = n + 1 := by
        by_contra hne
        exact hall j hj (by omega) hzero
      obtain ⟨best, val, hrun, -⟩ := h.search_ok (by omega) hall
      rw [hrun, ok_bind, List.foldlM_cons, Nat.add_comm 1 n, h.cbStep_eq hn,
        h.cbValue_error hj hn hzero]
      rfl

/-! ## What the targets select -/

/-- The queue counts its unused element. -/
theorem ConvFtl.Idle.one_le_size (h : f.Idle g cls w) : 1 ≤ f.lm.victimLinePq.size := by
  have hcnt : f.lm.victimLineCnt + 1 = f.lm.victimLinePq.size := (h.ok.pools.cont .tlc).victimCnt
  omega

/-- A queue has a victim when it has an element after the unused one. -/
theorem ConvFtl.exists_isVictim_iff (f : ConvFtl) :
    (∃ l, f.IsVictim l) ↔ 2 ≤ f.lm.victimLinePq.size := by
  constructor
  · rintro ⟨l, i, hi, hi', -⟩
    omega
  · intro hs
    exact ⟨_, 1, le_refl 1, hs, rfl⟩

/-- Without a victim every target gives NULL. -/
theorem ConvFtl.Idle.selectVictimLine_empty (h : f.Idle g cls w)
    (hs : f.lm.victimLinePq.size < 2) : f.selectVictimLine = .ok (none, f) := by
  have hone : f.lm.victimLinePq.size = 1 := Nat.le_antisymm (by omega) h.one_le_size
  unfold ConvFtl.selectVictimLine
  rw [hone]
  rfl

/-- With a victim and no zero divisor, the result is a victim of minimum value. -/
theorem ConvFtl.Idle.selectVictimLine_some (h : f.Idle g cls w)
    (hs : 2 ≤ f.lm.victimLinePq.size)
    (hcost : ∀ j, 1 ≤ j → j < f.lm.victimLinePq.size → f.cbCost j ≠ 0) :
    ∃ i v f', 1 ≤ i ∧ i < f.lm.victimLinePq.size ∧
      f.selectVictimLine = .ok (some (f.lm.victimLinePq.d i), f') ∧ f.cbValue i = .ok v ∧
      ∀ j, 1 ≤ j → j < f.lm.victimLinePq.size → ∃ v', f.cbValue j = .ok v' ∧ v ≤ v' := by
  obtain ⟨best, v, hrun, hbest⟩ := h.search_ok (n := f.lm.victimLinePq.size - 1) (by omega)
    fun j hj hj' => hcost j hj (by omega)
  rcases hbest with ⟨h0, -, -⟩ | ⟨i, rfl, hi, hi', hv, hmin⟩
  · omega
  · have hres : ∃ f', f.selectVictimLine = .ok (some (f.lm.victimLinePq.d i), f') := by
      unfold ConvFtl.selectVictimLine
      rw [hrun, ok_bind]
      exact ⟨_, rfl⟩
    obtain ⟨f', hres⟩ := hres
    exact ⟨i, v, f', hi, by omega, hres, hv, fun j hj hj' => hmin j hj (by omega)⟩

/-- With a zero divisor the selection divides by zero. -/
theorem ConvFtl.Idle.selectVictimLine_error (h : f.Idle g cls w)
    (hz : ∃ j, 1 ≤ j ∧ j < f.lm.victimLinePq.size ∧ f.cbCost j = 0) :
    f.selectVictimLine = .error .divByZero := by
  obtain ⟨j, hj, hj', hzero⟩ := hz
  have hrun := h.search_error (n := f.lm.victimLinePq.size - 1) (by omega)
    ⟨j, hj, by omega, hzero⟩
  unfold ConvFtl.selectVictimLine
  rw [hrun]
  rfl

/-- A selection that ignores the random number cannot return two victims. -/
theorem ConvFtl.not_meetsRandom (f : ConvFtl) {l l' : Nat} (hl : f.IsVictim l)
    (hl' : f.IsVictim l') (hne : l ≠ l') {r : Except Fault (Option Nat × ConvFtl)} :
    ¬ f.MeetsRandom fun _ _ => r := by
  intro hm
  obtain ⟨-, heach⟩ := hm true
  obtain ⟨_, -, f₁, h₁⟩ := heach l hl
  obtain ⟨_, -, f₂, h₂⟩ := heach l' hl'
  have heq := h₁.symm.trans h₂
  cases heq
  exact hne rfl

/-- Two elements of the queue are two victims. -/
theorem ConvFtl.Idle.exists_two_victims (h : f.Idle g cls w) (hs : 3 ≤ f.lm.victimLinePq.size) :
    ∃ l l', f.IsVictim l ∧ f.IsVictim l' ∧ l ≠ l' := by
  refine ⟨_, _, ⟨1, le_refl 1, by omega, rfl⟩, ⟨2, by omega, by omega, rfl⟩, fun he => ?_⟩
  have hplaced := (h.ok.pools.cont .tlc).placed
  have := hplaced.inj (i := 1) (j := 2) (le_refl 1) (by show 1 < f.lm.victimLinePq.size; omega) (by omega)
    (by show 2 < f.lm.victimLinePq.size; omega) he
  omega

/-- No victim of the queue has a zero divisor. -/
def ConvFtl.NoZeroCost (f : ConvFtl) : Prop :=
  ∀ j, 1 ≤ j → j < f.lm.victimLinePq.size → f.cbCost j ≠ 0

/-- The policy of `make cb` is met as long as no divisor is zero. -/
theorem ConvFtl.Idle.meetsCostBenefit_iff (h : f.Idle g cls w) :
    (f.MeetsCostBenefit fun _ _ => f.selectVictimLine) ↔ f.NoZeroCost := by
  constructor
  · intro hm j hj hj' hz
    obtain ⟨i, v, f', -, -, hrun, -⟩ :=
      hm (f.exists_isVictim_iff.mpr (by omega)) true 0
    rw [h.selectVictimLine_error ⟨j, hj, hj', hz⟩] at hrun
    cases hrun
  · intro hz hex force draw
    exact h.selectVictimLine_some (f.exists_isVictim_iff.mp hex) hz

/-- The three policies agree on at most one victim. -/
theorem ConvFtl.Idle.documentedPolicies_iff (h : f.Idle g cls w) :
    f.DocumentedPolicies ↔ f.lm.victimLinePq.size ≤ 2 ∧ f.NoZeroCost := by
  have heq : ∀ t, (fun force draw => f.selectVictimLineIn t force draw) =
      fun _ _ => f.selectVictimLine := fun t => by
    funext force draw
    exact f.selectVictimLineIn_eq t force draw
  constructor
  · rintro ⟨-, hrd, hcb, -⟩
    rw [heq] at hrd hcb
    refine ⟨?_, h.meetsCostBenefit_iff.mp hcb⟩
    by_contra hs
    obtain ⟨l, l', hl, hl', hne⟩ := h.exists_two_victims (by omega)
    exact f.not_meetsRandom hl hl' hne hrd
  · rintro ⟨hs, hz⟩
    have honly : ∀ i, 1 ≤ i → i < f.lm.victimLinePq.size → i = 1 := fun i hi hi' => by omega
    have hone : (∃ l, f.IsVictim l) →
        ∃ f', f.selectVictimLine = .ok (some (f.lm.victimLinePq.d 1), f') ∧
          f.IsVictim (f.lm.victimLinePq.d 1) := by
      intro hex
      have hs2 := f.exists_isVictim_iff.mp hex
      obtain ⟨i, v, f', hi, hi', hrun, -⟩ := h.selectVictimLine_some hs2 hz
      obtain rfl := honly i hi hi'
      exact ⟨f', hrun, 1, hi, hi', rfl⟩
    refine ⟨?_, ?_, ?_, fun t => ?_⟩
    all_goals rw [heq]
    · intro hex draw
      obtain ⟨f', hrun, hmem⟩ := hone hex
      refine ⟨_, f', hrun, hmem, ?_⟩
      rintro l' ⟨i, hi, hi', rfl⟩
      rw [honly i hi hi']
    · intro force
      refine ⟨fun hex draw => ?_, ?_⟩
      · obtain ⟨f', hrun, hmem⟩ := hone hex
        exact ⟨_, f', hrun, hmem⟩
      · rintro l ⟨i, hi, hi', rfl⟩
        obtain ⟨f', hrun, -⟩ := hone ⟨_, i, hi, hi', rfl⟩
        rw [honly i hi hi']
        exact ⟨0, by decide, f', hrun⟩
    · exact h.meetsCostBenefit_iff.mpr hz
    · intro hno force draw
      apply h.selectVictimLine_empty
      by_contra hs2
      obtain ⟨l, hl⟩ := f.exists_isVictim_iff.mpr (Nat.le_of_not_lt hs2)
      exact hno l hl

/-! ## Runs -/

/-- Where a run of page writes calls `select_victim_line`: between two page writes, or inside
`foreground_gc` after the page `lpn` has been stored. -/
inductive ConvFtl.AtSelection (f : ConvFtl) : ConvFtl → Prop
  | idle : f.AtSelection f
  | store (swr : NandCmd) (lpn : Nat) (completed : Option Nat) (f' : ConvFtl)
      (hlpn : lpn < f.ssd.sp.ttPgs) (h : f.storePage swr lpn = .ok (completed, f')) :
      f.AtSelection { f'.consumeWriteCredit with dynSlcMode := .tlc }

theorem ConvFtl.Reached.atSelection (h : f.Reached g) (hsel : f.AtSelection f') :
    ∃ cls w, f'.Idle g cls w := by
  obtain ⟨cls, w, hidle, -⟩ := h
  cases hsel with
  | idle => exact ⟨cls, w, hidle⟩
  | store swr lpn completed f' hlpn hr =>
    rw [hidle.ok.static.fits.ttPgs] at hlpn
    have hpos := g.oneshots_pos ((Nat.zero_le lpn).trans_lt hlpn)
    obtain ⟨cls₁, w₁, h₁, -⟩ := (hidle.storePage hpos hlpn swr).of_ok hr
    exact ⟨cls₁, w₁, h₁.untracked⟩

/-- Whatever the target, the documented policy is followed exactly when there is at most one
victim and its value has no zero divisor. -/
theorem target_policy (cfg : SlcConfig) (mem : ConvFtl) (clock : Clock) (smem spp : Ssdparams)
    (size : Nat) (events : List FtlEvent) (f f' : ConvFtl)
    (hspp : ssdInitParamsSlc smem cfg.toSsdConfig size cfg.ssdPartitions = some spp)
    (hev : ∀ ev ∈ events, ev.InRange spp.ttPgs)
    (hf : ftlRun mem spp clock events = .ok f) (hsel : f.AtSelection f') :
    f'.DocumentedPolicies ↔ f'.lm.victimLinePq.size ≤ 2 ∧ f'.NoZeroCost := by
  obtain ⟨g, -, hfits, -⟩ := ssdInitParamsSlc_fits hspp
  rw [hfits.ttPgs] at hev
  obtain ⟨cls, w, hidle⟩ := ((ftlRun_outcome mem clock hfits hev).of_ok hf).atSelection hsel
  exact hidle.documentedPolicies_iff

/-- On the shipped device, before anything can be collected. -/
theorem target_policy_shipped : ∃ (spp : Ssdparams) (f : ConvFtl),
    ftlRun default spp default [.write default 0] = .ok f ∧ f.DocumentedPolicies := by
  have hspp : (ssdInitParamsSlc default samsung970pro (mb 3071) 4).map
      (fun spp => (decide (0 < spp.ttPgs), (ftlRun default spp default
        [.write default 0]).map fun f => decide (f.lm.victimLinePq.size = 1))) =
      some (true, .ok true) := by
    decide +kernel
  obtain ⟨spp, hr, hs⟩ := Option.map_eq_some_iff.mp hspp
  obtain ⟨hpos, hrun⟩ := Prod.mk.inj hs
  obtain ⟨f, hf, hsize⟩ := except_map_eq_ok.mp hrun
  have hone := of_decide_eq_true hsize
  have hpgs := of_decide_eq_true hpos
  refine ⟨spp, f, hf, ?_⟩
  refine (target_policy samsung970proSlc default default default spp (mb 3071) _ f f hr ?_ hf
    .idle).mpr ⟨by omega, fun j hj hj' => by omega⟩
  intro ev hmem
  obtain rfl := List.mem_singleton.mp hmem
  exact hpgs

/-- The shipped configuration cut down to one die with four SLC and eight TLC blocks. -/
def oneDie : SlcConfig where
  toSsdConfig := { samsung970pro with
    ssdPartitions := 1
    nandChannels := 1
    lunsPerNandCh := 1
    blksPerPln := 12
    slcPortion := 34 }
  enabled := by decide
  plns_eq := by decide
  luns_pos := by decide
  luns_le := by decide
  parts_pos := by decide
  chs_pos := by decide
  chs_le := by decide
  flash_pos := by decide
  oneshot_pos := by decide
  oneshot_le := by decide
  slcOneshot_pos := by decide
  slcOneshot_le := by decide
  slcOneshot_dvd := by decide
  blks_pos := by decide
  blks_le := by decide
  portion_le := by decide
  dies_le := by decide

/-- A clock that stands still for `n` readings and then shows ten seconds. -/
def Clock.jump (n : Nat) : Clock := { reading := fun k => if k < n then 0 else 10 ^ 10, reads := 0 }

/-- Page 0 of the older line 4 is overwritten ten seconds before two pages of line 5. `make`
takes line 4, which has one valid page more, and `make rd` never takes line 5. -/
theorem target_policy_ignored : ∃ (spp : Ssdparams) (f f' : ConvFtl),
    ssdInitParamsSlc default oneDie.toSsdConfig (kb 576) oneDie.ssdPartitions = some spp ∧
    ftlRun default spp (.jump 51) ((List.range 25 ++ [0, 12, 13]).map (.write default)) = .ok f ∧
    (∀ draw, f.selectVictimLineIn .default true draw = .ok (some 4, f')) ∧
    (∀ force draw, f.selectVictimLineIn .rd force draw = .ok (some 4, f')) ∧
    f.IsVictim 5 ∧ (f.lines 5).vpc < (f.lines 4).vpc ∧ ¬ f.DocumentedPolicies := by
  have hspp : (ssdInitParamsSlc default oneDie.toSsdConfig (kb 576) oneDie.ssdPartitions).map
      (fun spp => (ftlRun default spp (.jump 51)
        ((List.range 25 ++ [0, 12, 13]).map (.write default))).map fun f =>
          (decide (1 < f.lm.victimLinePq.size), f.lm.victimLinePq.d 1,
            decide ((f.lines 5).vpc < (f.lines 4).vpc),
            f.selectVictimLine.toOption.map Prod.fst)) =
      some (.ok (true, 5, true, some (some 4))) := by
    decide +kernel
  obtain ⟨spp, hr, hs⟩ := Option.map_eq_some_iff.mp hspp
  obtain ⟨f, hf, hfacts⟩ := except_map_eq_ok.mp hs
  obtain ⟨hsize, hd, hvpc, hsel⟩ := by simpa only [Prod.mk.injEq, decide_eq_true_eq] using hfacts
  obtain ⟨⟨_, f'⟩, hopt, rfl⟩ := Option.map_eq_some_iff.mp hsel
  have hres : f.selectVictimLine = .ok (some 4, f') := by
    cases hrun : f.selectVictimLine with
    | error e =>
      rw [hrun] at hopt
      cases hopt
    | ok r =>
      rw [hrun] at hopt
      exact congrArg _ (Option.some.inj hopt)
  have hmem : f.IsVictim 5 := ⟨1, le_refl 1, hsize, hd⟩
  have hmake : ∀ draw, f.selectVictimLineIn .default true draw = .ok (some 4, f') := fun draw => by
    rw [f.selectVictimLineIn_eq, hres]
  refine ⟨spp, f, f', hr, hf, hmake, fun force draw => ?_, hmem, hvpc, fun hdoc => ?_⟩
  · rw [f.selectVictimLineIn_eq, hres]
  · obtain ⟨l, f₁, hrun, -, hmin⟩ := hdoc.default ⟨5, hmem⟩ 0
    have heq := (hmake 0).symm.trans hrun
    cases heq
    exact absurd (hmin 5 hmem) (Nat.not_le_of_lt hvpc)

end NvmeVirt
