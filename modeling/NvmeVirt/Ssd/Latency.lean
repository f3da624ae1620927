import NvmeVirt.Library.Filling
import NvmeVirt.Ssd.Channel

/-!
# The latency of a request

A request is charged for the time that its units take, and for the slots that its search passes over
beyond those that its credits fill. Both counts of slots are step functions of the length, and they
step at different lengths when the slots are partly used.
-/

namespace NvmeVirt

open Finset RingBuffer Filling

/-! ## The end of the search -/

section Search

variable {head fuel d credits delay : Nat} {avail : Nat → Nat}

/-- What the slots hold, counted from the head. -/
def fromHead (head : Nat) (avail : Nat → Nat) (x : Nat) : Nat := avail (creditSlot head x)

/-- The search ends where the credits are found, and has passed over the slots before. -/
theorem consumeCredits_ends (hh : head < nrCreditEntries) (hd : d < nrCreditEntries)
    (hfuel : nrCreditEntries - d ≤ fuel) :
    ∃ last, Ends (fromHead head avail) nrCreditEntries d credits last ∧
      (consumeCredits head fuel avail (creditSlot head d) credits delay).2.2 =
        delay + (last - d) := by
  induction fuel generalizing d avail credits delay with
  | zero => omega
  | succ fuel ih =>
    rw [consumeCredits]
    split
    · next hmore =>
      obtain ⟨hlack, hd1⟩ := (consume_goes_on hh hd).mp hmore
      have hmin : min credits (avail (creditSlot head d)) = fromHead head avail d :=
        Nat.min_eq_right hlack.le
      rw [creditSlot_succ, hmin]
      obtain ⟨last, hends, hdelay⟩ := @ih (d + 1) (credits - fromHead head avail d) (delay + 1)
        (Function.update avail (creditSlot head d)
          (avail (creditSlot head d) - fromHead head avail d)) hd1 (by omega)
      refine ⟨last, hends.cons hlack fun x hx hxn => ?_, ?_⟩
      · unfold fromHead
        rw [update_creditSlot hh hd hxn, if_neg (by omega)]
      · have hle := hends.from_le
        rw [hdelay]
        omega
    · next hstop =>
      have hend := mt (consume_goes_on hh hd).mpr hstop
      refine ⟨d, Ends.stop hd ?_, by simp⟩
      unfold fromHead
      omega

/-- The search only takes. -/
theorem consumeCredits_le (head fuel : Nat) (avail : Nat → Nat) (pos remaining delay i : Nat) :
    (consumeCredits head fuel avail pos remaining delay).1 i ≤ avail i := by
  induction fuel generalizing avail pos remaining delay with
  | zero => exact le_rfl
  | succ fuel ih =>
    have hfirst : Function.update avail pos (avail pos - min remaining (avail pos)) i ≤ avail i := by
      by_cases hi : i = pos
      · subst hi
        simp
      · simp [hi]
    rw [consumeCredits]
    split
    · exact (ih ..).trans hfirst
    · exact hfirst

end Search

/-! ## The time of completion -/

variable {ch : ChannelModel} {cur rt len l₁ l₂ : Nat}

/-- `units_to_xfer`. -/
def xferUnits (length : Nat) : Nat := u32 (u64 (length + (unitXferSize - 1)) / unitXferSize)

/-- `request_time_offs`. -/
def requestOffs (cur rt : Nat) : Nat := u32 (u64Sub (timeSlot rt) (timeSlot cur))

namespace ChannelModel

/-- `remaining_credits` before the search. -/
def credits (ch : ChannelModel) (length : Nat) : Nat :=
  u32 (u32 (xferUnits length * unitXferCredits) + ch.commandCredits)

/-- What `chmodel_request` returns. -/
def completion (ch : ChannelModel) (cur rt length : Nat) : Nat := (chmodelRequest ch cur rt length).1

/-- What the slots hold from the head on when a request is made at `cur`. -/
def slots (ch : ChannelModel) (cur : Nat) : Nat → Nat :=
  fromHead (ch.expire cur).head (ch.expire cur).availCredits

/-- A request in the past or beyond the ring returns its own time. -/
theorem completion_early (h : rt < cur ∨ nrCreditEntries ≤ requestOffs cur rt) :
    ch.completion cur rt len = rt := by
  unfold completion chmodelRequest
  dsimp only
  by_cases hpast : rt < cur
  · rw [if_pos hpast]
  · rw [if_neg hpast, if_pos]
    exact h.resolve_left hpast

/-- The slots that the search passes over beyond `default_delay`. -/
def delay (ch : ChannelModel) (cur rt length : Nat) : Nat :=
  (consumeCredits (ch.expire cur).head nrCreditEntries (ch.expire cur).availCredits
    (creditSlot (ch.expire cur).head (requestOffs cur rt)) (ch.credits length) 0).2.2 -
      ch.credits length / ch.maxCredits

/-- `total_latency`. -/
def totalLatency (ch : ChannelModel) (cur rt length : Nat) : Nat :=
  u32 (ch.xferLat * xferUnits length) + ch.delay cur rt length * unitTimeInterval

/-- The time of completion of any other request. -/
theorem completion_eq (hnow : cur ≤ rt) (hring : requestOffs cur rt < nrCreditEntries) :
    ch.completion cur rt len = u64 (rt + u64 (ch.totalLatency cur rt len)) := by
  have hsub : ∀ a b : Nat, (if a > b then a - b else 0) = a - b := by
    intro a b
    split <;> omega
  have hring' : ¬ u32 (u64Sub (rt / unitTimeInterval) (cur / unitTimeInterval)) ≥ nrCreditEntries :=
    Nat.not_le.mpr hring
  simp only [completion, chmodelRequest, if_neg (Nat.not_lt.mpr hnow), if_neg hring', hsub]
  rfl

/-- The delay, from the slot where the search ends. -/
theorem delay_ends (len : Nat) (hring : requestOffs cur rt < nrCreditEntries) :
    ∃ last, Ends (ch.slots cur) nrCreditEntries (requestOffs cur rt) (ch.credits len) last ∧
      ch.delay cur rt len = last - requestOffs cur rt - ch.credits len / ch.maxCredits := by
  obtain ⟨last, hends, hdelay⟩ := @consumeCredits_ends (ch.expire cur).head nrCreditEntries
    (requestOffs cur rt) (ch.credits len) 0 (ch.expire cur).availCredits (ch.expire cur).head_lt
    hring (Nat.sub_le ..)
  refine ⟨last, hends, ?_⟩
  rw [delay, hdelay, Nat.zero_add]

theorem completion_ends (len : Nat) (hnow : cur ≤ rt)
    (hring : requestOffs cur rt < nrCreditEntries) :
    ∃ last, Ends (ch.slots cur) nrCreditEntries (requestOffs cur rt) (ch.credits len) last ∧
      ch.completion cur rt len = u64 (rt + u64 (u32 (ch.xferLat * xferUnits len) +
        (last - requestOffs cur rt - ch.credits len / ch.maxCredits) * unitTimeInterval)) := by
  obtain ⟨last, hends, hdelay⟩ := ch.delay_ends len hring
  refine ⟨last, hends, ?_⟩
  rw [completion_eq hnow hring, totalLatency, hdelay]

/-- A request does not complete before its time unless the sum is truncated. -/
theorem le_completion (h : rt + ch.totalLatency cur rt len < 2 ^ 64) :
    rt ≤ ch.completion cur rt len := by
  by_cases hearly : rt < cur ∨ nrCreditEntries ≤ requestOffs cur rt
  · rw [completion_early hearly]
  · rw [completion_eq (by omega) (by omega), u64, u64, Nat.mod_eq_of_lt (a := ch.totalLatency ..)
      (by omega), Nat.mod_eq_of_lt h]
    exact Nat.le_add_right ..

/-! ## Larger requests -/

/-- A slot is a byte and holds at most the credits of an interval. -/
structure Bounded (ch : ChannelModel) : Prop where
  le : ∀ i, ch.availCredits i ≤ ch.maxCredits
  byte : ∀ i, ch.availCredits i < 2 ^ 8

theorem chmodelInit_bounded (bandwidth : Nat) : (chmodelInit bandwidth).Bounded :=
  ⟨fun _ => Nat.mod_le .., fun _ => Nat.mod_lt _ (by simp)⟩

theorem Bounded.expire (h : ch.Bounded) (t : Nat) : (ch.expire t).Bounded := by
  have hset : ∀ (a : Nat → Nat) (start length i : Nat), (a i ≤ ch.maxCredits ∧ a i < 2 ^ 8) →
      memsetCredits a start ch.maxCredits length i ≤ ch.maxCredits ∧
        memsetCredits a start ch.maxCredits length i < 2 ^ 8 := by
    intro a start length i ha
    unfold memsetCredits
    split
    · exact ⟨Nat.mod_le .., Nat.mod_lt _ (by simp)⟩
    · exact ha
  have hall : ∀ i, (ch.expire t).availCredits i ≤ ch.maxCredits ∧
      (ch.expire t).availCredits i < 2 ^ 8 := by
    intro i
    have hi := And.intro (h.le i) (h.byte i)
    have hoffs : (ch.expire t).availCredits =
        if ch.head + ch.expired t ≥ nrCreditEntries then
          memsetCredits
            (memsetCredits ch.availCredits ch.head ch.maxCredits (nrCreditEntries - ch.head))
            0 ch.maxCredits (ch.expired t - (nrCreditEntries - ch.head))
        else memsetCredits ch.availCredits ch.head ch.maxCredits (ch.expired t) := rfl
    rw [hoffs]
    split
    · apply hset
      exact hset _ _ _ i hi
    · exact hset _ _ _ i hi
  exact ⟨fun i => (hall i).1, fun i => (hall i).2⟩

/-- Every request keeps the bounds. -/
theorem Bounded.after (h : ch.Bounded) (r : ChRequest) : (ch.after r).Bounded := by
  have hexp := h.expire r.curTime
  unfold ChannelModel.after chmodelRequest
  dsimp only
  split_ifs
  · exact hexp
  · exact hexp
  all_goals exact ⟨fun i => (consumeCredits_le ..).trans (hexp.le i),
    fun i => (consumeCredits_le ..).trans_lt (hexp.byte i)⟩

/-- The credits that a request of `length` bytes costs, which the code counts in 32 bits. -/
def price (ch : ChannelModel) (length : Nat) : Nat :=
  divRoundUp length unitXferSize + ch.commandCredits

/-- What the slots hold from the time of a request on. -/
def held (ch : ChannelModel) (cur rt : Nat) : Nat :=
  ∑ x ∈ Ico (requestOffs cur rt) nrCreditEntries, ch.slots cur x

theorem Bounded.held_lt (h : ch.Bounded) : ch.held cur rt < 2 ^ 32 := by
  have hle : ch.held cur rt ≤ (nrCreditEntries - requestOffs cur rt) * 255 :=
    @sum_le_mul (ch.slots cur) nrCreditEntries _ 255 _
      (fun x _ => Nat.le_of_lt_succ ((h.expire cur).byte _)) le_rfl
  have hn : nrCreditEntries = 98304 := rfl
  omega

/-- A price that the slots hold is counted right. -/
theorem Bounded.credits_eq (h : ch.Bounded) (hheld : ch.price len ≤ ch.held cur rt) :
    ch.credits len = ch.price len ∧ xferUnits len = divRoundUp len unitXferSize := by
  have hlt := @Bounded.held_lt ch cur rt h
  unfold price divRoundUp unitXferSize at hheld
  unfold credits price xferUnits divRoundUp u32 u64 unitXferSize unitXferCredits
  omega

/-- The time of completion when nothing is truncated. -/
theorem Bounded.completion_ends (h : ch.Bounded) (hnow : cur ≤ rt)
    (hring : requestOffs cur rt < nrCreditEntries) (hheld : ch.price len ≤ ch.held cur rt)
    (hlat : ch.xferLat * divRoundUp len unitXferSize < 2 ^ 32) (hrt : rt + 2 ^ 33 ≤ 2 ^ 64) :
    ∃ last, Ends (ch.slots cur) nrCreditEntries (requestOffs cur rt) (ch.price len) last ∧
      ch.price len ≤ supply (ch.slots cur) (requestOffs cur rt) last ∧
      ch.completion cur rt len = rt + (ch.xferLat * divRoundUp len unitXferSize +
        (last - requestOffs cur rt - ch.price len / ch.maxCredits) * unitTimeInterval) := by
  obtain ⟨hcredits, hunits⟩ := h.credits_eq hheld
  obtain ⟨last, hends, htime⟩ := ch.completion_ends len hnow hring
  rw [hcredits] at hends htime
  have hlt := hends.lt
  have hn : nrCreditEntries = 98304 := rfl
  refine ⟨last, hends, ?_, ?_⟩
  · by_cases hend : last + 1 < nrCreditEntries
    · exact hends.enough hend
    · have hlast : last + 1 = nrCreditEntries := by omega
      rwa [supply, hlast]
  · have hdelay : (last - requestOffs cur rt - ch.price len / ch.maxCredits) * unitTimeInterval ≤
        last * 4000 := by
      rw [Nat.sub_sub]
      exact Nat.mul_le_mul_right _ (Nat.sub_le ..)
    rw [htime, hunits, u32, Nat.mod_eq_of_lt hlat, u64, u64, Nat.mod_eq_of_lt, Nat.mod_eq_of_lt]
    · omega
    · rw [Nat.mod_eq_of_lt (by omega)]
      omega

/-- The completion time of a request for `l₁` bytes compared with that for more bytes from the same
state, when the slots hold what they cost: it is not later unless the price of the larger one leaves
the smaller remainder, and then it is later by less than an interval. -/
theorem completion_mono_of_remainder (ch : ChannelModel) (cur rt l₁ l₂ : Nat)
    (hslots : ch.Bounded) (hnow : cur ≤ rt) (hring : requestOffs cur rt < nrCreditEntries)
    (hle : l₁ ≤ l₂) (hheld : ch.price l₂ ≤ ch.held cur rt)
    (hlat : ch.xferLat * divRoundUp l₂ unitXferSize < 2 ^ 32) (hrt : rt + 2 ^ 33 ≤ 2 ^ 64) :
    (ch.price l₁ % ch.maxCredits ≤ ch.price l₂ % ch.maxCredits →
      ch.completion cur rt l₁ ≤ ch.completion cur rt l₂) ∧
    ch.completion cur rt l₁ +
        ch.xferLat * (divRoundUp l₂ unitXferSize - divRoundUp l₁ unitXferSize) ≤
      ch.completion cur rt l₂ + unitTimeInterval := by
  have hunits : divRoundUp l₁ unitXferSize ≤ divRoundUp l₂ unitXferSize :=
    Nat.div_le_div_right (by omega)
  have hprice : ch.price l₁ ≤ ch.price l₂ := Nat.add_le_add_right hunits _
  have hlat₁ := (Nat.mul_le_mul_left ch.xferLat hunits).trans_lt hlat
  obtain ⟨last₁, hends₁, -, htime₁⟩ :=
    hslots.completion_ends hnow hring (hprice.trans hheld) hlat₁ hrt
  obtain ⟨last₂, hends₂, hfound, htime₂⟩ := hslots.completion_ends hnow hring hheld hlat hrt
  obtain ⟨hbeyond, hrem⟩ :=
    hends₁.beyond_le hends₂ (fun x _ => (hslots.expire cur).le _) hprice hfound
  obtain ⟨k, hk⟩ := Nat.exists_eq_add_of_le hunits
  rw [hk, Nat.mul_add] at htime₂
  rw [hk, Nat.add_sub_cancel_left, htime₁, htime₂]
  change last₁ - _ - _ / ch.maxCredits ≤ last₂ - _ - _ / ch.maxCredits + 1 at hbeyond
  constructor
  · intro hmod
    apply Nat.add_le_add_left
    apply Nat.add_le_add (Nat.le_add_right ..)
    exact Nat.mul_le_mul_right _ (hrem hmod)
  · have := Nat.mul_le_mul_right unitTimeInterval hbeyond
    rw [Nat.add_mul, Nat.one_mul] at this
    omega

/-- Every slot from the time of a request on is held. -/
theorem slots_le_held {x : Nat} (hx : requestOffs cur rt ≤ x) (hlt : x < nrCreditEntries) :
    ch.slots cur x ≤ ch.held cur rt :=
  single_le_sum (fun _ _ => Nat.zero_le _) (mem_Ico.mpr ⟨hx, hlt⟩)

/-- A channel of the shipped device whose first slot has one credit left. -/
theorem completion_mono_of_remainder_shipped :
    let ch := (chmodelInit 800).after ⟨0, 0, 3200⟩
    (ch.price 128 % ch.maxCredits ≤ ch.price 3200 % ch.maxCredits →
      ch.completion 0 0 128 ≤ ch.completion 0 0 3200) ∧
    ch.completion 0 0 128 +
        ch.xferLat * (divRoundUp 3200 unitXferSize - divRoundUp 128 unitXferSize) ≤
      ch.completion 0 0 3200 + unitTimeInterval := by
  apply completion_mono_of_remainder
  · exact (chmodelInit_bounded 800).after _
  · decide
  · decide
  · decide
  · apply (slots_le_held (x := 1) (by decide) (by decide)).trans'
    decide +kernel
  · decide +kernel
  · decide

/-- With one credit left in the first slot, 25 units span two slots as 26 units do, but only these
are a whole slot by division. Lengths whose count of units, product or time is truncated are
cheaper as well. -/
theorem completion_not_mono :
    let ch := (chmodelInit 800).after ⟨0, 0, 3200⟩
    let slow := { chmodelInit 800 with xferLat := 2 ^ 31 }
    (ch.price 3328 ≤ ch.held 0 0 ∧ ch.completion 0 0 3328 < ch.completion 0 0 3200) ∧
    ch.completion 0 0 (2 ^ 39) < ch.completion 0 0 3200 ∧
    slow.completion 0 0 256 < slow.completion 0 0 128 ∧
    ch.completion (2 ^ 64 - 1) (2 ^ 64 - 1) 128 < ch.completion (2 ^ 64 - 1) (2 ^ 64 - 1) 0 := by
  refine ⟨⟨?_, ?_⟩, ?_, ?_, ?_⟩
  · apply (slots_le_held (x := 1) (by decide) (by decide)).trans'
    decide +kernel
  all_goals decide +kernel

end ChannelModel

end NvmeVirt
