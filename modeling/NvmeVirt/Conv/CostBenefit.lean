import NvmeVirt.Conv.Policy

/-!
# Selection by cost and benefit

`select_victim_line` looks through the array of the victim queue for the line of least value, and
removes it from the middle of the heap. The divisor of a value is computed in 32 bits, so the values
are right for lines of at most 8589934 pages.
-/

namespace NvmeVirt

open Checked

/-! ## Values -/

/-- The divisor of the value of a line: its invalid pages times its age class. -/
def costOf (spp : Ssdparams) (now : Nat) (line : Line) : Nat :=
  (spp.pgsPerLine - line.vpc) * ageLevelize (u64Sub now line.mtime / 1000)

/-- The value of a line at the time `now`. -/
def valueOf (spp : Ssdparams) (now : Nat) (line : Line) : Nat :=
  line.vpc * 10 ^ 12 / costOf spp now line

variable {spp : Ssdparams} {line : Line} {now n : Nat}

/-- The divisor is positive and fits an `int`. -/
theorem costOf_bounds (hppl : 250 * spp.pgsPerLine < 2 ^ 31) (hlt : line.vpc < spp.pgsPerLine)
    (now : Nat) : 0 < costOf spp now line ∧ costOf spp now line < 2 ^ 31 := by
  obtain ⟨hlow, hup⟩ := ageLevelize_bounds (u64Sub now line.mtime / 1000)
  constructor
  · exact Nat.mul_pos (by omega) (by omega)
  · calc costOf spp now line ≤ spp.pgsPerLine * 250 := Nat.mul_le_mul (by omega) hup
      _ < 2 ^ 31 := by omega

/-- The numerator fits a `long long`. -/
theorem scaled_lt (hppl : 250 * spp.pgsPerLine < 2 ^ 31) (hlt : line.vpc < spp.pgsPerLine) :
    line.vpc * 10 ^ 12 < 2 ^ 63 - 1 := by
  omega

/-- Lines with an invalid page have the value that the code computes. -/
theorem calculateCostBenefitVal_exact (hppl : 250 * spp.pgsPerLine < 2 ^ 31)
    (hlt : line.vpc < spp.pgsPerLine) (now : Nat) :
    calculateCostBenefitVal spp now line = .ok (valueOf spp now line) := by
  obtain ⟨hpos, hup⟩ := costOf_bounds hppl hlt now
  have hscaled := scaled_lt hppl hlt
  have hppl' : asInt spp.pgsPerLine = spp.pgsPerLine := by
    unfold asInt
    apply Int.bmod_eq_of_le <;> omega
  have hcost : cost spp now line = costOf spp now line := by
    have hcast : ((spp.pgsPerLine : Int) - line.vpc) *
        ageLevelize (u64Sub now line.mtime / 1000) = costOf spp now line := by
      rw [costOf, Nat.cast_mul, Nat.cast_sub (Nat.le_of_lt hlt)]
    rw [cost, hppl', hcast]
    apply Int.bmod_eq_of_le <;> omega
  have hnum : Int.bmod (line.vpc * scaler) (2 ^ 64) = (line.vpc * 10 ^ 12 : Nat) := by
    have hcast : (line.vpc : Int) * scaler = (line.vpc * 10 ^ 12 : Nat) := by
      rw [scaler, Nat.cast_mul]
      norm_num
    rw [hcast]
    apply Int.bmod_eq_of_le <;> omega
  have hne : cost spp now line ≠ 0 := by
    rw [hcost]
    omega
  rw [calculateCostBenefitVal_eq _ (by omega), require_pos hne, hcost, hnum, valueOf, Int.ofNat_tdiv]
  rfl

/-! ## The queue -/

namespace ConvFtl

variable {f : ConvFtl}

/-- The victim queue of the TLC pool is in shape. -/
structure VictimQueue (f : ConvFtl) : Prop where
  cnt : f.lm.victimLineCnt + 1 = f.lm.victimLinePq.size
  placed : f.lm.victimLinePq.Placed victimLine f.lines
  heap : f.lm.victimLinePq.HeapOrdered victimLine (victimLine.getpri f.lines)
  pages : ∀ l, f.IsVictim l → (f.lines l).vpc + (f.lines l).ipc = f.ssd.sp.pgsPerLine

/-- The value of a victim. -/
def victimValue (f : ConvFtl) (now l : Nat) : Nat := valueOf f.ssd.sp now (f.lines l)

/-- What the search knows after the first `n` indices: there was nothing to collect, or the line at
the best index has the least value. -/
def LeastValue (f : ConvFtl) (now n : Nat) (best : Option Nat) (val : Int) : Prop :=
  (best = none ∧ val = 2 ^ 63 - 1 ∧ ∀ j, 1 ≤ j → j ≤ n → (f.victimAt j).ipc = 0) ∨
    ∃ i, best = some i ∧ 1 ≤ i ∧ i ≤ n ∧ 0 < (f.victimAt i).ipc ∧
      val = f.victimValue now (f.lm.victimLinePq.d i) ∧
      ∀ j, 1 ≤ j → j ≤ n → 0 < (f.victimAt j).ipc →
        f.victimValue now (f.lm.victimLinePq.d i) ≤ f.victimValue now (f.lm.victimLinePq.d j)

/-- The value of a victim with an invalid page. -/
theorem VictimQueue.vpc_lt (h : f.VictimQueue) {i : Nat} (hi : 1 ≤ i)
    (hi' : i < f.lm.victimLinePq.size) (hipc : 0 < (f.victimAt i).ipc) :
    (f.victimAt i).vpc < f.ssd.sp.pgsPerLine := by
  have hsum : (f.victimAt i).vpc + (f.victimAt i).ipc = f.ssd.sp.pgsPerLine :=
    h.pages _ ⟨i, hi, hi', rfl⟩
  omega

/-- One comparison of the search. -/
theorem LeastValue.compare {best : Option Nat} {val : Int} (h : f.LeastValue now n best val)
    (hipc : 0 < (f.victimAt (n + 1)).ipc)
    (hlt : (f.victimValue now (f.lm.victimLinePq.d (n + 1)) : Int) < 2 ^ 63 - 1) :
    let v : Int := f.victimValue now (f.lm.victimLinePq.d (n + 1))
    f.LeastValue now (n + 1) (if v < val then some (n + 1) else best)
      (if v < val then v else val) := by
  intro v
  right
  rcases h with ⟨rfl, rfl, hnone⟩ | ⟨i, rfl, hi, hin, hpos, rfl, hmin⟩
  · rw [if_pos hlt, if_pos hlt]
    refine ⟨n + 1, rfl, by omega, le_refl _, hipc, rfl, fun j hj hj' hjpos => ?_⟩
    rcases Nat.lt_or_eq_of_le hj' with hjn | rfl
    · have hzero := hnone j hj (by omega)
      omega
    · exact le_refl _
  · by_cases hc : v < f.victimValue now (f.lm.victimLinePq.d i)
    · rw [if_pos hc, if_pos hc]
      have hc := Int.ofNat_lt.mp hc
      refine ⟨n + 1, rfl, by omega, le_refl _, hipc, rfl, fun j hj hj' hjpos => ?_⟩
      rcases Nat.lt_or_eq_of_le hj' with hjn | rfl
      · exact (Nat.le_of_lt hc).trans (hmin j hj (by omega) hjpos)
      · exact le_refl _
    · rw [if_neg hc, if_neg hc]
      refine ⟨i, rfl, hi, by omega, hpos, rfl, fun j hj hj' hjpos => ?_⟩
      rcases Nat.lt_or_eq_of_le hj' with hjn | rfl
      · exact hmin j hj (by omega) hjpos
      · exact Int.ofNat_le.mp (not_lt.mp hc)

/-- A line without an invalid page is passed over. -/
theorem LeastValue.skip {best : Option Nat} {val : Int} (h : f.LeastValue now n best val)
    (hipc : (f.victimAt (n + 1)).ipc = 0) : f.LeastValue now (n + 1) best val := by
  have hcases : ∀ j, j ≤ n + 1 → j ≤ n ∨ j = n + 1 := fun j hj => by omega
  rcases h with ⟨hbest, hval, hnone⟩ | ⟨i, hbest, hi, hin, hpos, hval, hmin⟩
  · refine Or.inl ⟨hbest, hval, fun j hj hj' => ?_⟩
    rcases hcases j hj' with hjn | rfl
    · exact hnone j hj hjn
    · exact hipc
  · refine Or.inr ⟨i, hbest, hi, by omega, hpos, hval, fun j hj hj' hjpos => ?_⟩
    rcases hcases j hj' with hjn | rfl
    · exact hmin j hj hjn hjpos
    · omega

/-- The step of the search at a line with an invalid page. -/
theorem VictimQueue.cbStep_eq (h : f.VictimQueue) (hclock : ∀ k, f.nowAt k = now)
    (hppl : 250 * f.ssd.sp.pgsPerLine < 2 ^ 31) {i : Nat} (hi : 1 ≤ i)
    (hi' : i < f.lm.victimLinePq.size) (hipc : (f.victimAt i).ipc ≠ 0) (k : Nat)
    (best : Option Nat) (val : Int) :
    let v : Int := f.victimValue now (f.lm.victimLinePq.d i)
    v < 2 ^ 63 - 1 ∧ cbStep (f.ticked k, best, val) i =
      .ok (f.ticked (k + 1), if v < val then some i else best, if v < val then v else val) := by
  intro v
  have hlt := h.vpc_lt hi hi' (Nat.pos_of_ne_zero hipc)
  have hval : calculateCostBenefitVal f.ssd.sp now (f.victimAt i) = .ok v :=
    calculateCostBenefitVal_exact hppl hlt now
  constructor
  · have hscaled := scaled_lt hppl hlt
    have hle : f.victimValue now (f.lm.victimLinePq.d i) ≤ (f.victimAt i).vpc * 10 ^ 12 :=
      Nat.div_le_self ..
    omega
  · have hstep : cbStep (f.ticked k, best, val) i =
        calculateCostBenefitVal f.ssd.sp (f.nowAt k) (f.victimAt i) >>= fun v =>
          if v < val then .ok (f.ticked (k + 1), some i, v)
          else .ok (f.ticked (k + 1), best, val) := if_neg hipc
    rw [hstep, hclock, hval, ok_bind]
    split_ifs <;> rfl

/-- The search, while the clock shows `now`. -/
theorem VictimQueue.search (h : f.VictimQueue) (hclock : ∀ k, f.nowAt k = now)
    (hppl : 250 * f.ssd.sp.pgsPerLine < 2 ^ 31) (hn : n < f.lm.victimLinePq.size) :
    ∃ k best val, (List.range' 1 n).foldlM cbStep (f, none, 2 ^ 63 - 1) =
        .ok (f.ticked k, best, val) ∧ f.LeastValue now n best val ∧ (best = none → k = 0) := by
  induction n with
  | zero =>
    exact ⟨0, none, _, rfl, Or.inl ⟨rfl, rfl, fun j hj hj' => by omega⟩, fun _ => rfl⟩
  | succ n ih =>
    obtain ⟨k, best, val, hrun, hleast, hk⟩ := ih (by omega)
    rw [List.range'_1_concat, List.foldlM_append, hrun, ok_bind, List.foldlM_cons, Nat.add_comm 1 n]
    by_cases hipc : (f.victimAt (n + 1)).ipc = 0
    · refine ⟨k, best, val, ?_, hleast.skip hipc, hk⟩
      have hskip : cbStep (f.ticked k, best, val) (n + 1) = .ok (f.ticked k, best, val) :=
        if_pos hipc
      rw [hskip]
      rfl
    · obtain ⟨hsmall, hstep⟩ := h.cbStep_eq hclock hppl (by omega) hn hipc k best val
      refine ⟨k + 1, _, _, ?_, hleast.compare (Nat.pos_of_ne_zero hipc) hsmall, fun hb => ?_⟩
      · rw [hstep]
        rfl
      · split_ifs at hb with hc
        rcases hleast with ⟨-, rfl, -⟩ | ⟨i, hi, -⟩
        · exact absurd hsmall hc
        · rw [hi] at hb
          cases hb

/-! ## The selection -/

/-- The queue without the victim at index `i`. -/
theorem VictimQueue.removed (h : f.VictimQueue) {l k : Nat} (hl : f.IsVictim l) :
    let r := f.lm.victimLinePq.remove victimLine f.lines l
    let f' := ({ f.ticked k with
      lines := Function.update r.2 l { r.2 l with pos := 0 }
      lm := { f.lm with victimLinePq := r.1, victimLineCnt := f.lm.victimLineCnt - 1 } } :
      ConvFtl).countAge l
    f'.VictimQueue ∧ (∀ l', f'.IsVictim l' ↔ f.IsVictim l' ∧ l' ≠ l) ∧ (f'.lines l).pos = 0 ∧
      f'.lm.victimLineCnt + 1 = f.lm.victimLineCnt := by
  intro r f'
  have hr := Pqueue.remove_spec victimLine_lawful victimLine_irrefl h.placed hl
  have hord := Pqueue.remove_ordered victimLine_ordered victimLine_lawful.getpri_setpos h.heap
    h.placed hl
  have hfields : ∀ l', (r.2 l').vpc = (f.lines l').vpc ∧ (r.2 l').ipc = (f.lines l').ipc := by
    intro l'
    constructor
    · exact hr.frame (fun lines => (lines l').vpc) fun lines a j =>
        (victimLine_setpos_fields lines a j l').1
    · exact hr.frame (fun lines => (lines l').ipc) fun lines a j =>
        (victimLine_setpos_fields lines a j l').2.1
  have hself : ∀ l', (f'.lines l').vpc = (f.lines l').vpc ∧ (f'.lines l').ipc = (f.lines l').ipc := by
    intro l'
    by_cases hne : l' = l
    · subst hne
      change (Function.update r.2 l' _ l').vpc = _ ∧ (Function.update r.2 l' _ l').ipc = _
      rw [Function.update_self]
      exact hfields l'
    · change (Function.update r.2 l _ l').vpc = _ ∧ (Function.update r.2 l _ l').ipc = _
      rw [Function.update_of_ne hne]
      exact hfields l'
  have hpri : victimLine.getpri f'.lines = victimLine.getpri f.lines := funext fun l' => (hself l').1
  have hsize : r.1.size + 1 = f.lm.victimLinePq.size := hr.size
  have hcnt := h.cnt
  obtain ⟨i, hi, hi', -⟩ := hl
  have hlm : f'.lm.victimLineCnt + 1 = f.lm.victimLineCnt := by
    change f.lm.victimLineCnt - 1 + 1 = f.lm.victimLineCnt
    omega
  have hpos : (f'.lines l).pos = 0 := by
    change (Function.update r.2 l _ l).pos = 0
    rw [Function.update_self]
  refine ⟨⟨?_, ?_, ?_, ?_⟩, hr.mem, hpos, hlm⟩
  · change f'.lm.victimLineCnt + 1 = r.1.size
    omega
  · intro j hj hj'
    have hne : r.1.d j ≠ l := ((hr.mem _).mp ⟨j, hj, hj', rfl⟩).2
    change (Function.update r.2 l _ (r.1.d j)).pos = j
    rw [Function.update_of_ne hne]
    exact hr.placed j hj hj'
  · rw [hpri]
    exact hord
  · intro l' hl'
    rw [(hself l').1, (hself l').2]
    exact h.pages l' ((hr.mem l').mp hl').1

end ConvFtl

/-- For lines of at most 8589934 pages `select_victim_line` returns a victim with an invalid page, of
least value among these, and takes it out of the queue; NULL means that no victim has one. -/
theorem select_victim_line_least (f : ConvFtl) (now : Nat) (h : f.VictimQueue)
    (hclock : ∀ k, f.nowAt k = now) (hppl : 250 * f.ssd.sp.pgsPerLine < 2 ^ 31) :
    (∀ l, f.IsVictim l → 0 < (f.lines l).ipc →
      0 < costOf f.ssd.sp now (f.lines l) ∧ costOf f.ssd.sp now (f.lines l) < 2 ^ 31 ∧
      (f.lines l).vpc * 10 ^ 12 < 2 ^ 63) ∧
    ((∀ l, f.IsVictim l → (f.lines l).ipc = 0) → f.selectVictimLine = .ok (none, f)) ∧
    ((∃ l, f.IsVictim l ∧ 0 < (f.lines l).ipc) → ∃ l f', f.selectVictimLine = .ok (some l, f') ∧
      f.IsVictim l ∧ 0 < (f.lines l).ipc ∧
      (∀ l', f.IsVictim l' → 0 < (f.lines l').ipc → f.victimValue now l ≤ f.victimValue now l') ∧
      f'.VictimQueue ∧ (∀ l', f'.IsVictim l' ↔ f.IsVictim l' ∧ l' ≠ l) ∧
      (f'.lines l).pos = 0 ∧ f'.lm.victimLineCnt + 1 = f.lm.victimLineCnt) := by
  have hcnt := h.cnt
  obtain ⟨k, best, val, hrun, hleast, hk⟩ := h.search hclock hppl
    (by omega : f.lm.victimLinePq.size - 1 < f.lm.victimLinePq.size)
  refine ⟨fun l hl hipc => ?_, fun hnone => ?_, fun hex => ?_⟩
  · have hsum := h.pages l hl
    have hlt : (f.lines l).vpc < f.ssd.sp.pgsPerLine := by omega
    obtain ⟨hpos, hup⟩ := costOf_bounds hppl hlt now
    have hscaled := scaled_lt hppl hlt
    exact ⟨hpos, hup, by omega⟩
  · rcases hleast with ⟨rfl, -, -⟩ | ⟨i, -, hi, hi', hpos, -⟩
    · rw [hk rfl] at hrun
      unfold ConvFtl.selectVictimLine
      rw [hrun]
      rfl
    · have hzero := hnone _ ⟨i, hi, by omega, rfl⟩
      unfold ConvFtl.victimAt at hpos
      omega
  · rcases hleast with ⟨-, -, hall⟩ | ⟨i, rfl, hi, hi', hpos, -, hmin⟩
    · obtain ⟨l, ⟨j, hj, hj', rfl⟩, hipc⟩ := hex
      have hzero : (f.lines (f.lm.victimLinePq.d j)).ipc = 0 := hall j hj (by omega)
      omega
    · have hl : f.IsVictim (f.lm.victimLinePq.d i) := ⟨i, hi, by omega, rfl⟩
      have hafter := @ConvFtl.VictimQueue.removed f h _ k hl
      refine ⟨_, _, ?_, hl, hpos, ?_, hafter⟩
      · unfold ConvFtl.selectVictimLine
        rw [hrun, ok_bind]
        rfl
      · rintro l' ⟨j, hj, hj', rfl⟩ hipc
        exact hmin j hj (by omega) hipc

/-- Two victims of `pages` pages each, 200 seconds old: line 1 without a valid page, line 2 with
one. -/
def victimPair (pages : Nat) : ConvFtl :=
  let f : ConvFtl := default
  { f with
    ssd := { f.ssd with
      sp := { f.ssd.sp with pgsPerLine := pages }
      perf := { f.ssd.perf with clock := { reading := fun _ => 2 * 10 ^ 11, reads := 0 } } }
    lines := fun l => { id := l, ipc := pages - (l - 1), vpc := l - 1, pos := l, mtime := 0 }
    lm := { f.lm with
      victimLinePq := { size := 3, avail := 3, d := fun i => i }
      victimLineCnt := 2 } }

theorem isVictim_victimPair {pages l : Nat} : (victimPair pages).IsVictim l ↔ l = 1 ∨ l = 2 := by
  constructor
  · rintro ⟨i, hi, hi', rfl⟩
    have hi' : i < 3 := hi'
    change i = 1 ∨ i = 2
    omega
  · rintro (rfl | rfl)
    · exact ⟨1, by simp, Nat.lt_of_sub_eq_succ rfl, rfl⟩
    · exact ⟨2, by simp, Nat.lt_of_sub_eq_succ rfl, rfl⟩

theorem victimQueue_victimPair {pages : Nat} (h : 1 ≤ pages) : (victimPair pages).VictimQueue := by
  constructor
  · rfl
  · intro i _ _
    rfl
  · intro j _ _
    change decide (j / 2 - 1 > j - 1) = false
    rw [decide_eq_false_iff_not]
    omega
  · intro l hl
    change l - 1 + (pages - (l - 1)) = pages
    rcases isVictim_victimPair.mp hl with rfl | rfl <;> omega

/-- Line 1 has the least value. -/
theorem select_victim_line_least_pair :
    ∃ l f', (victimPair 24).selectVictimLine = .ok (some l, f') ∧ (victimPair 24).IsVictim l ∧
      f'.VictimQueue := by
  obtain ⟨-, -, hsome⟩ := select_victim_line_least (victimPair 24) (2 * 10 ^ 11)
    (victimQueue_victimPair (by decide)) (fun _ => rfl) (by decide)
  obtain ⟨l, f', hrun, hl, -, -, hq, -⟩ := hsome ⟨1, isVictim_victimPair.mpr (Or.inl rfl), by decide⟩
  exact ⟨l, f', hrun, hl, hq⟩

/-- With lines of 8999999 pages the divisors wrap around, and line 2 is taken, although line 1 has the
lesser value. -/
theorem select_victim_line_wraps : (victimPair 8999999).VictimQueue ∧
    (∀ k, (victimPair 8999999).nowAt k = 2 * 10 ^ 11) ∧
    (victimPair 8999999).IsVictim 1 ∧ 0 < ((victimPair 8999999).lines 1).ipc ∧
    2 ^ 31 ≤ costOf (victimPair 8999999).ssd.sp (2 * 10 ^ 11) ((victimPair 8999999).lines 2) ∧
    (victimPair 8999999).selectVictimLine.map Prod.fst = .ok (some 2) ∧
    (victimPair 8999999).victimValue (2 * 10 ^ 11) 1 <
      (victimPair 8999999).victimValue (2 * 10 ^ 11) 2 := by
  refine ⟨victimQueue_victimPair (by simp), fun _ => rfl, isVictim_victimPair.mpr (Or.inl rfl),
    by decide, ?_, ?_, ?_⟩
  all_goals decide +kernel

end NvmeVirt
