import NvmeVirt.Ssd.Latency

/-!
# An idle channel

A request that comes after the whole window has passed is to find the ring full. The number of
intervals that have passed is kept in 32 bits, so that after `2 ^ 32` of them the slots of an old
window may pass for slots of the present.
-/

namespace NvmeVirt

open Finset RingBuffer Filling

variable {ch ch' : ChannelModel} {cur rt len t x : Nat}

namespace ChannelModel

/-! ## The window -/

/-- The credits that a slot is refilled with. -/
def fill (ch : ChannelModel) : Nat := ch.maxCredits % 2 ^ 8

/-- No slot holds more than it is refilled with, and the slots outside of the window are full. -/
structure Windowed (ch : ChannelModel) : Prop where
  le : ∀ d < nrCreditEntries, ch.availCredits (creditSlot ch.head d) ≤ ch.fill
  outside : ∀ d < nrCreditEntries, ch.validLen ≤ d →
    ch.availCredits (creditSlot ch.head d) = ch.fill

theorem Windowed.expire (h : ch.Windowed) (t : Nat) : (ch.expire t).Windowed := by
  have hle := ch.expired_le t
  have hv := ch.validLen_le
  have hhead : (ch.expire t).head = creditSlot ch.head (ch.expired t) := rfl
  have hvalid : (ch.expire t).validLen = ch.validLen - ch.expired t := rfl
  have hfill : (ch.expire t).fill = ch.fill := rfl
  constructor
  · intro d hd
    obtain ⟨e, he, heq, -⟩ := exists_creditSlot_add ch.head (hle.trans hv) hd
    rw [hhead, hfill, heq, ch.expire_slot t he]
    split
    · exact le_rfl
    · exact h.le e he
  · intro d hd hout
    obtain ⟨e, he, heq, hcase⟩ := exists_creditSlot_add ch.head (hle.trans hv) hd
    rw [hvalid] at hout
    rw [hhead, hfill, heq, ch.expire_slot t he]
    split
    · rfl
    · exact h.outside e he (by omega)

/-- A request expires slots, and takes credits from a stretch of them unless it returns early. -/
theorem after_cases (ch : ChannelModel) (r : ChRequest) :
    ch.after r = ch.expire r.curTime ∨
    ∃ d credits last,
      (ch.after r).head = (ch.expire r.curTime).head ∧
      (ch.after r).validLen = max (ch.expire r.curTime).validLen (last + 1) ∧
      Consumed (ch.expire r.curTime).head (ch.expire r.curTime).availCredits d credits last
        (ch.after r).availCredits := by
  by_cases hnow : r.requestTime < r.curTime
  · left
    simp only [after, chmodelRequest, if_pos hnow]
  by_cases hring : requestOffs r.curTime r.requestTime < nrCreditEntries
  · right
    have hh := (ch.expire r.curTime).head_lt
    obtain ⟨last, hcons, hpos, -⟩ := @consumeCredits_spec _ nrCreditEntries _ (ch.credits r.length) 0
      (ch.expire r.curTime).availCredits hh hring (Nat.sub_le ..)
    have hring' : ¬ u32 (u64Sub (r.requestTime / unitTimeInterval)
        (r.curTime / unitTimeInterval)) ≥ nrCreditEntries := Nat.not_le.mpr hring
    have hafter : ch.after r = (chmodelRequest ch r.curTime r.requestTime r.length).2 := rfl
    simp only [chmodelRequest, if_neg hnow, if_neg hring'] at hafter
    refine ⟨requestOffs r.curTime r.requestTime, ch.credits r.length, last, ?_, ?_, ?_⟩
    · rw [hafter]
    · rw [hafter, ← slotsUpTo_creditSlot hh hcons.last_lt, ← hpos]
      rfl
    · rw [hafter]
      exact hcons
  · left
    have hring' : u32 (u64Sub (r.requestTime / unitTimeInterval)
        (r.curTime / unitTimeInterval)) ≥ nrCreditEntries := Nat.not_lt.mp hring
    simp only [after, chmodelRequest, if_neg hnow, if_pos hring']

/-- The parameters of a channel, which no request changes. -/
structure SameParams (ch ch' : ChannelModel) : Prop where
  maxCredits : ch.maxCredits = ch'.maxCredits
  commandCredits : ch.commandCredits = ch'.commandCredits
  xferLat : ch.xferLat = ch'.xferLat

theorem after_sameParams (ch : ChannelModel) (r : ChRequest) : SameParams (ch.after r) ch := by
  unfold after chmodelRequest
  dsimp only
  split_ifs <;> exact ⟨rfl, rfl, rfl⟩

theorem run_sameParams (ch : ChannelModel) (reqs : List ChRequest) :
    SameParams (ch.run reqs) ch := by
  induction reqs generalizing ch with
  | nil => exact ⟨rfl, rfl, rfl⟩
  | cons r reqs ih =>
    have hrun := ih (ch.after r)
    have hafter := ch.after_sameParams r
    exact ⟨hrun.maxCredits.trans hafter.maxCredits,
      hrun.commandCredits.trans hafter.commandCredits, hrun.xferLat.trans hafter.xferLat⟩

theorem Windowed.after (h : ch.Windowed) (r : ChRequest) : (ch.after r).Windowed := by
  have hexp := h.expire r.curTime
  have hfill : (ch.after r).fill = ch.fill := by
    rw [fill, fill, (ch.after_sameParams r).maxCredits]
  rcases ch.after_cases r with heq | ⟨d, credits, last, hhead, hvalid, hcons⟩
  · rw [heq]
    exact hexp
  · constructor
    · intro e he
      rw [hhead, hfill]
      exact (hcons.le e he).trans (hexp.le e he)
    · intro e he hout
      rw [hvalid] at hout
      rw [hhead, hfill, hcons.frame e he (by omega)]
      exact hexp.outside e he (by omega)

/-- Every run of requests, whatever the clock shows, keeps the window. -/
theorem Windowed.run {reqs : List ChRequest} (h : ch.Windowed) : (ch.run reqs).Windowed := by
  induction reqs generalizing ch with
  | nil => exact h
  | cons r reqs ih => exact ih (h.after r)

/-! ## What an idle channel lacks -/

/-- The intervals since the last request, of which the code keeps 32 bits. -/
def elapsed (ch : ChannelModel) (t : Nat) : Nat := u32 (u64Sub (timeSlot t) (timeSlot ch.curTime))

/-- The credits missing from the slots of the window that seem not to have passed at `t`, but for
the last slot of the ring. -/
def missing (ch : ChannelModel) (t : Nat) : Nat :=
  ∑ x ∈ Ico (ch.elapsed t) (min ch.validLen (ch.elapsed t + (nrCreditEntries - 1))),
    (ch.fill - ch.availCredits (creditSlot ch.head x))

theorem expired_eq_elapsed (h : ch.elapsed t < ch.validLen) : ch.expired t = ch.elapsed t :=
  if_pos h

theorem expired_eq_validLen (h : ch.validLen ≤ ch.elapsed t) : ch.expired t = ch.validLen :=
  if_neg (Nat.not_lt.mpr h)

/-- Nothing is missing when the count of intervals is not truncated. -/
theorem missing_eq_zero (h : ch.curTime + ch.validLen * unitTimeInterval ≤ t) (ht : t < 2 ^ 64)
    (hgap : timeSlot t - timeSlot ch.curTime < 2 ^ 32) : ch.missing t = 0 := by
  have hslot : timeSlot ch.curTime + ch.validLen ≤ timeSlot t := by
    unfold timeSlot
    rw [← Nat.add_mul_div_right _ _ (by decide : 0 < unitTimeInterval)]
    exact Nat.div_le_div_right h
  have hlt : timeSlot t < 2 ^ 64 := (Nat.div_le_self ..).trans_lt ht
  have helapsed : ch.elapsed t = timeSlot t - timeSlot ch.curTime := by
    rw [elapsed, u64Sub_eq (by omega) hlt, u32, Nat.mod_eq_of_lt hgap]
  rw [missing, Ico_eq_empty (by omega), sum_empty]

/-- The slots that a request finds. -/
theorem Windowed.slots_eq (h : ch.Windowed) (hx : x < nrCreditEntries) :
    ch.slots t x = if ch.expired t + x < ch.validLen then
      ch.availCredits (creditSlot ch.head (ch.expired t + x)) else ch.fill := by
  have hle := ch.expired_le t
  have hv := ch.validLen_le
  have hslots : ch.slots t x =
      (ch.expire t).availCredits (creditSlot (creditSlot ch.head (ch.expired t)) x) := rfl
  obtain ⟨e, he, heq, hcase⟩ := exists_creditSlot_add ch.head (hle.trans hv) hx
  rw [hslots, heq, ch.expire_slot t he]
  by_cases hin : ch.expired t + x < ch.validLen
  · rw [if_pos hin, if_neg (by omega), show e = ch.expired t + x by omega]
  · rw [if_neg hin]
    split
    · rfl
    · exact h.outside e he (by omega)

theorem Windowed.slots_le (h : ch.Windowed) (hx : x < nrCreditEntries) : ch.slots t x ≤ ch.fill := by
  have hv := ch.validLen_le
  rw [h.slots_eq hx]
  split
  · exact h.le _ (by omega)
  · exact le_rfl

/-- What is missing, seen from the head. -/
theorem Windowed.sum_lack (h : ch.Windowed) :
    ∑ x ∈ range (nrCreditEntries - 1), (ch.fill - ch.slots t x) = ch.missing t := by
  let lack (y : Nat) : Nat :=
    if y < ch.validLen then ch.fill - ch.availCredits (creditSlot ch.head y) else 0
  have hslot : ∀ x ∈ range (nrCreditEntries - 1),
      ch.fill - ch.slots t x = lack (ch.expired t + x) := by
    intro x hx
    have hlt : x < nrCreditEntries := (mem_range.mp hx).trans_le (Nat.sub_le ..)
    rw [h.slots_eq hlt]
    by_cases hin : ch.expired t + x < ch.validLen
    · simp [lack, hin]
    · simp [lack, hin]
  rw [sum_congr rfl hslot, missing]
  rcases Nat.lt_or_ge (ch.elapsed t) ch.validLen with hlt | hge
  · rw [expired_eq_elapsed hlt]
    have hshift := sum_Ico_eq_sum_range lack (ch.elapsed t)
      (ch.elapsed t + (nrCreditEntries - 1))
    rw [Nat.add_sub_cancel_left] at hshift
    rw [← hshift, ← sum_Ico_consecutive lack (Nat.le_min.mpr ⟨hlt.le, Nat.le_add_right ..⟩)
      (Nat.min_le_right ..)]
    have hafter : ∑ y ∈ Ico (min ch.validLen (ch.elapsed t + (nrCreditEntries - 1)))
        (ch.elapsed t + (nrCreditEntries - 1)), lack y = 0 := by
      apply sum_eq_zero
      intro y hy
      have hy := mem_Ico.mp hy
      exact if_neg (by omega)
    rw [hafter, Nat.add_zero]
    apply sum_congr rfl
    intro y hy
    have hy := mem_Ico.mp hy
    exact if_pos (by omega)
  · rw [expired_eq_validLen hge, Ico_eq_empty (by omega), sum_empty]
    apply sum_eq_zero
    intro x _
    exact if_neg (by omega)

/-- What the slots hold and what is missing are all that they are refilled with. -/
theorem Windowed.missing_add_sum (h : ch.Windowed) :
    ch.missing t + ∑ x ∈ range (nrCreditEntries - 1), ch.slots t x =
      (nrCreditEntries - 1) * ch.fill := by
  rw [← h.sum_lack]
  exact sum_lack_add fun x hx => h.slots_le (by omega)

/-! ## Comparing the times of completion -/

/-- The last slot of the ring does not matter. -/
theorem completion_congr (h : SameParams ch ch')
    (hslots : ∀ x, x + 1 < nrCreditEntries → ch.slots cur x = ch'.slots cur x) :
    ch.completion cur rt len = ch'.completion cur rt len := by
  by_cases hearly : rt < cur ∨ nrCreditEntries ≤ requestOffs cur rt
  · rw [completion_early hearly, completion_early hearly]
  have hnow : cur ≤ rt := by omega
  have hring : requestOffs cur rt < nrCreditEntries := by omega
  obtain ⟨last, hends, htime⟩ := ch.completion_ends len hnow hring
  obtain ⟨last', hends', htime'⟩ := ch'.completion_ends len hnow hring
  have hcredits : ch.credits len = ch'.credits len := by
    rw [credits, credits, h.commandCredits]
  have hlast : last = last' := by
    apply (hends.congr fun x _ hx => hslots x hx).unique
    rwa [hcredits]
  rw [htime, htime', hlast, hcredits, h.maxCredits, h.xferLat]

/-- Slots that lack at most one credit together do not delay a request. -/
theorem Windowed.completion_of_sum_lack (h : ch.Windowed) (hpos : 0 < ch.maxCredits)
    (hmax : ch.maxCredits < 2 ^ 8) (hmiss : ch.missing cur ≤ 1) (hnow : cur ≤ rt)
    (hring : requestOffs cur rt < nrCreditEntries) :
    ch.completion cur rt len = u64 (rt + u64 (u32 (ch.xferLat * xferUnits len))) := by
  obtain ⟨last, hends, htime⟩ := ch.completion_ends len hnow hring
  have hlt := hends.lt
  have hsub : Ico (requestOffs cur rt) last ⊆ range (nrCreditEntries - 1) := by
    intro x hx
    have hx := mem_Ico.mp hx
    exact mem_range.mpr (by omega)
  have hlack : ∑ x ∈ Ico (requestOffs cur rt) last, (ch.maxCredits - ch.slots cur x) ≤ 1 := by
    rw [← h.sum_lack, fill, Nat.mod_eq_of_lt hmax] at hmiss
    exact (sum_le_sum_of_subset hsub).trans hmiss
  have hpassed := (Nat.le_div_iff_mul_le hpos).mpr (hends.passed_le hlack)
  rw [htime, Nat.sub_eq_zero_of_le hpassed, Nat.zero_mul, Nat.add_zero]

/-- `chmodel_init`, and the transfer time that `ssd_init` sets. -/
def freshChannel (bandwidth xferLat : Nat) : ChannelModel := { chmodelInit bandwidth with xferLat }

variable {bandwidth xferLat : Nat}

theorem freshChannel_windowed : (freshChannel bandwidth xferLat).Windowed :=
  ⟨fun _ _ => le_rfl, fun _ _ _ => rfl⟩

theorem freshChannel_missing : (freshChannel bandwidth xferLat).missing t = 0 :=
  sum_eq_zero fun _ _ => Nat.sub_self _

/-- A request that takes as many credits as `k`. -/
theorem credits_units {k : Nat} (h : ch.commandCredits = 0) (hk : k < 2 ^ 32) :
    ch.credits (k * unitXferSize) = k ∧ xferUnits (k * unitXferSize) = k := by
  unfold credits xferUnits u32 u64 unitXferSize unitXferCredits
  omega

theorem requestOffs_self (ht : t < 2 ^ 64) : requestOffs t t = 0 := by
  have hlt : timeSlot t < 2 ^ 64 := (Nat.div_le_self ..).trans_lt ht
  rw [requestOffs, u64Sub_eq le_rfl hlt, Nat.sub_self, u32, Nat.zero_mod]

theorem supply_all_but_last (a : Nat → Nat) :
    supply a 0 (nrCreditEntries - 2) = ∑ x ∈ range (nrCreditEntries - 1), a x := by
  rw [supply, range_eq_Ico]
  rfl

/-- A request at the present that asks for one credit more than all slots but the last one hold
comes to its end in the last slot. -/
theorem completion_last (hcmd : ch.commandCredits = 0)
    (ht : t < 2 ^ 64) {k : Nat} (hk : k = ∑ x ∈ range (nrCreditEntries - 1), ch.slots t x + 1)
    (hklt : k < 2 ^ 32) :
    ch.completion t t (k * unitXferSize) = u64 (t + u64 (u32 (ch.xferLat * k) +
      (nrCreditEntries - 1 - k / ch.maxCredits) * unitTimeInterval)) := by
  obtain ⟨last, hends, htime⟩ := ch.completion_ends (k * unitXferSize) (le_refl t)
    (by rw [requestOffs_self ht]; exact nrCreditEntries_pos)
  rw [(credits_units hcmd hklt).1, requestOffs_self ht] at hends htime
  have hpast : nrCreditEntries - 2 < last := by
    apply hends.lt_of_short (by decide)
    rw [supply_all_but_last, hk]
    exact Nat.lt_succ_self _
  have hlast : last = nrCreditEntries - 1 := by
    have := hends.lt
    omega
  rw [htime, hlast, (credits_units hcmd hklt).2, Nat.sub_zero]

/-- On a channel that misses nothing, a request at the present that the slots but the last one are
enough for comes to its end before the last slot. -/
theorem Windowed.completion_enough (h : ch.Windowed) (hfull : ch.missing t = 0)
    (hcmd : ch.commandCredits = 0) (ht : t < 2 ^ 64) {k : Nat} (hklt : k < 2 ^ 32)
    (hk : k ≤ (nrCreditEntries - 1) * ch.fill) :
    ∃ last < nrCreditEntries - 1, ch.completion t t (k * unitXferSize) = u64 (t +
      u64 (u32 (ch.xferLat * k) + (last - k / ch.maxCredits) * unitTimeInterval)) := by
  obtain ⟨last, hends, htime⟩ := ch.completion_ends (k * unitXferSize) (le_refl t)
    (by rw [requestOffs_self ht]; exact nrCreditEntries_pos)
  rw [(credits_units hcmd hklt).1, requestOffs_self ht] at hends htime
  have hsum : ∑ x ∈ range (nrCreditEntries - 1), ch.slots t x = (nrCreditEntries - 1) * ch.fill := by
    rw [← h.missing_add_sum (t := t), hfull, Nat.zero_add]
  have hearlier : last ≤ nrCreditEntries - 2 := by
    apply hends.le_of_enough (Nat.zero_le _)
    rwa [supply_all_but_last, hsum]
  refine ⟨last, hearlier.trans_lt (by decide), ?_⟩
  rw [htime, (credits_units hcmd hklt).2, Nat.sub_zero]

/-- Different latencies end at different times. -/
theorem u64_add_ne {a b : Nat} (ha : a < 2 ^ 64) (hb : b < 2 ^ 64) (hne : a ≠ b) :
    u64 (t + u64 a) ≠ u64 (t + u64 b) := by
  intro heq
  have hmod := Nat.ModEq.add_left_cancel' t (show t + u64 a ≡ t + u64 b [MOD 2 ^ 64] from heq)
  rw [u64, u64, Nat.mod_eq_of_lt ha, Nat.mod_eq_of_lt hb] at hmod
  exact hne (Nat.ModEq.eq_of_lt_of_lt hmod ha hb)

/-- Slots that lack nothing are full, but for the last one. -/
theorem Windowed.slots_of_missing (h : ch.Windowed) (hzero : ch.missing t = 0)
    (hx : x + 1 < nrCreditEntries) : ch.slots t x = ch.fill := by
  rw [← h.sum_lack] at hzero
  exact eq_of_sum_lack_eq_zero (fun x hx => h.slots_le (by omega)) hzero (by omega)

theorem missing_of_maxCredits (h : ch.maxCredits = 0) : ch.missing t = 0 := by
  simp [missing, fill, h]

/-- The credits that may be missing without an effect. -/
def slack (ch : ChannelModel) : Nat := if ch.maxCredits < 2 ^ 8 then 1 else 0

/-- A channel that lacks no more than this is as good as one that lacks nothing. -/
theorem Windowed.completion_of_slack (h : ch.Windowed) (h' : ch'.Windowed)
    (hparams : SameParams ch ch') (hfull : ch'.missing cur = 0) (hmiss : ch.missing cur ≤ ch.slack) :
    ch.completion cur rt len = ch'.completion cur rt len := by
  have hfill : ch.fill = ch'.fill := by rw [fill, fill, hparams.maxCredits]
  rcases Nat.eq_zero_or_pos (ch.missing cur) with hzero | hpos
  · apply completion_congr hparams
    intro x hx
    rw [h.slots_of_missing hzero hx, h'.slots_of_missing hfull hx, hfill]
  · have hbyte : ch.maxCredits < 2 ^ 8 := by
      by_contra hwide
      rw [slack, if_neg hwide] at hmiss
      omega
    have hmax : 0 < ch.maxCredits := by
      by_contra hnone
      have : ch.missing cur = 0 := missing_of_maxCredits (Nat.eq_zero_of_not_pos hnone)
      omega
    rw [slack, if_pos hbyte] at hmiss
    by_cases hearly : rt < cur ∨ nrCreditEntries ≤ requestOffs cur rt
    · rw [completion_early hearly, completion_early hearly]
    have hnow : cur ≤ rt := by omega
    have hring : requestOffs cur rt < nrCreditEntries := by omega
    have hmax' := hparams.maxCredits ▸ hmax
    have hbyte' := hparams.maxCredits ▸ hbyte
    rw [h.completion_of_sum_lack hmax hbyte hmiss hnow hring,
      h'.completion_of_sum_lack hmax' hbyte' (hfull.trans_le (Nat.zero_le 1)) hnow hring,
      hparams.xferLat]

/-- The latencies of a request that ends in the last slot and of one that ends before it. -/
theorem latency_lt {xfer last whole : Nat} (hearlier : last < nrCreditEntries - 1)
    (hdiv : whole < nrCreditEntries - 1) : u32 xfer + (last - whole) * unitTimeInterval <
      u32 xfer + (nrCreditEntries - 1 - whole) * unitTimeInterval := by
  have hdelay : last - whole < nrCreditEntries - 1 - whole := by omega
  exact Nat.add_lt_add_left (Nat.mul_lt_mul_of_pos_right hdelay (by decide)) _

theorem latency_lt_u64 (xfer whole : Nat) :
    u32 xfer + (nrCreditEntries - 1 - whole) * unitTimeInterval < 2 ^ 64 := by
  have hlat : u32 xfer < 2 ^ 32 := Nat.mod_lt _ (by simp)
  have hslots := Nat.mul_le_mul_right unitTimeInterval (Nat.sub_le (nrCreditEntries - 1) whole)
  have hring : (nrCreditEntries - 1) * unitTimeInterval < 2 ^ 32 := by decide
  omega

/-- A channel that lacks more delays a request that needs all slots but the last one. -/
theorem Windowed.exists_delayed (h : ch.Windowed) (h' : ch'.Windowed) (hparams : SameParams ch ch')
    (hcmd : ch'.commandCredits = 0) (hfull : ch'.missing t = 0) (ht : t < 2 ^ 64)
    (hmiss : ch.slack < ch.missing t) :
    ∃ len < 2 ^ 64, ch.completion t t len ≠ ch'.completion t t len := by
  obtain ⟨k, hk⟩ : ∃ k, k = ∑ x ∈ range (nrCreditEntries - 1), ch.slots t x + 1 := ⟨_, rfl⟩
  have hn : nrCreditEntries - 1 = 98303 := rfl
  have hfill : ch.fill = ch'.fill := by rw [fill, fill, hparams.maxCredits]
  have hsum : ch.missing t + (k - 1) = (nrCreditEntries - 1) * ch.fill := by
    rw [hk, Nat.add_sub_cancel, h.missing_add_sum]
  have hbyte : ch.fill < 2 ^ 8 := Nat.mod_lt _ (by simp)
  have hklt : k < 2 ^ 32 := by
    rw [hn] at hsum
    omega
  -- by division the request takes fewer whole slots than the ring has before its last one
  have hdiv : k / ch.maxCredits < nrCreditEntries - 1 := by
    apply Nat.div_lt_of_lt_mul
    rw [hn] at hsum ⊢
    rw [slack] at hmiss
    split_ifs at hmiss with hmax
    · rw [fill, Nat.mod_eq_of_lt hmax] at hsum
      omega
    · omega
  have hroom : k ≤ (nrCreditEntries - 1) * ch'.fill := by
    rw [← hfill]
    omega
  obtain ⟨last, hearlier, htime⟩ := h'.completion_enough hfull hcmd ht hklt hroom
  refine ⟨k * unitXferSize, by unfold unitXferSize; omega, ?_⟩
  rw [completion_last (hparams.commandCredits.trans hcmd) ht hk hklt, htime, hparams.maxCredits,
    hparams.xferLat]
  rw [hparams.maxCredits] at hdiv
  have hlater := @latency_lt (ch'.xferLat * k) _ _ hearlier hdiv
  have hbound := latency_lt_u64 (ch'.xferLat * k) (k / ch'.maxCredits)
  exact u64_add_ne hbound (hlater.trans hbound) hlater.ne'

/-- An idle channel serves every request as a fresh one does exactly when, of the slots that the
truncated count takes for slots of the present, at most one credit is missing, or none when the
credits of an interval do not fit a byte. -/
theorem idle_recovers_iff (bandwidth xferLat : Nat) (reqs : List ChRequest) (t : Nat)
    (ht : t < 2 ^ 64) :
    let fresh := freshChannel bandwidth xferLat
    let ch := fresh.run reqs
    (∀ rt < 2 ^ 64, ∀ len < 2 ^ 64, ch.completion t rt len = fresh.completion t rt len) ↔
      ch.missing t ≤ if ch.maxCredits < 2 ^ 8 then 1 else 0 := by
  intro fresh ch
  have hfresh : fresh.Windowed := freshChannel_windowed
  have hwin : ch.Windowed := hfresh.run
  have hparams : SameParams ch fresh := run_sameParams ..
  have hfull : fresh.missing t = 0 := freshChannel_missing
  constructor
  · intro hsame
    by_contra hmiss
    obtain ⟨len, hlen, hne⟩ :=
      hwin.exists_delayed hfresh hparams rfl hfull ht (Nat.lt_of_not_le hmiss)
    exact hne (hsame t ht len hlen)
  · intro hmiss rt _ len _
    exact hwin.completion_of_slack hfresh hparams hfull hmiss

/-- A channel of the shipped device that has transferred 16 KiB, `2 ^ 32` intervals later. -/
theorem idle_recovers_shipped :
    let fresh := freshChannel 800 152
    let ch := fresh.run [⟨0, 0, kb 16⟩]
    let t := 2 ^ 32 * unitTimeInterval
    (∀ rt < 2 ^ 64, ∀ len < 2 ^ 64, ch.completion t rt len = fresh.completion t rt len) ↔
      ch.missing t ≤ if ch.maxCredits < 2 ^ 8 then 1 else 0 :=
  idle_recovers_iff 800 152 _ _ (by decide)

/-- The window of five slots is long over, and two more units wait for its last slot. -/
theorem idle_not_recovered :
    let fresh := freshChannel 800 152
    let ch := fresh.run [⟨0, 0, kb 16⟩]
    let t := 2 ^ 32 * unitTimeInterval
    ch.curTime + ch.validLen * unitTimeInterval ≤ t ∧ t < 2 ^ 64 ∧
      ch.completion t t 256 = fresh.completion t t 256 + 16000 := by
  decide +kernel

end ChannelModel

end NvmeVirt
