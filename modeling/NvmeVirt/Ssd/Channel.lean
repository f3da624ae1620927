import NvmeVirt.Library.Ring
import NvmeVirt.Library.Tally
import NvmeVirt.Ssd.Timing
import Mathlib.Algebra.BigOperators.Intervals

/-!
# The bandwidth of a channel

A channel hands out credits from a ring of time slots. The slots from the head on stand for the
time slots from the present on, and only those of a window have been charged. A request takes
exactly what it costs from the slots at and after its time, and over a whole run no time slot
hands out more than its credits.
-/

namespace NvmeVirt

open RingBuffer Finset

variable {head fuel d credits delay m : Nat} {avail : Nat → Nat} {ch : ChannelModel}

/-- The slot `d` places behind the head of the credit ring. -/
def creditSlot (head d : Nat) : Nat := ringSlot nrCreditEntries head d

theorem nrCreditEntries_pos : 0 < nrCreditEntries := by decide

/-! ## The slot search -/

/-- The loop of `chmodel_request`, with the number of its rounds: from these credits, this slot,
these remaining credits and this delay it ends in `r`. -/
inductive ConsumeRounds (head : Nat) :
    (Nat → Nat) → Nat → Nat → Nat → Nat → (Nat → Nat) × Nat × Nat → Prop
  | done {avail : Nat → Nat} {pos remaining delay : Nat}
      (h : ¬ (remaining - min remaining (avail pos) ≠ 0 ∧ (pos + 1) % nrCreditEntries ≠ head)) :
      ConsumeRounds head avail pos remaining delay 1
        (Function.update avail pos (avail pos - min remaining (avail pos)), pos, delay)
  | round {avail : Nat → Nat} {pos remaining delay n : Nat} {r : (Nat → Nat) × Nat × Nat}
      (h : remaining - min remaining (avail pos) ≠ 0 ∧ (pos + 1) % nrCreditEntries ≠ head)
      (hrest : ConsumeRounds head
        (Function.update avail pos (avail pos - min remaining (avail pos)))
        ((pos + 1) % nrCreditEntries) (remaining - min remaining (avail pos)) (delay + 1) n r) :
      ConsumeRounds head avail pos remaining delay (n + 1) r

/-- What the search leaves when it starts `d` places behind the head and ends at `last`. -/
structure Consumed (head : Nat) (avail : Nat → Nat) (d credits last : Nat) (r : Nat → Nat) :
    Prop where
  from_le : d ≤ last
  last_lt : last < nrCreditEntries
  frame : ∀ x < nrCreditEntries, x < d ∨ last < x →
    r (creditSlot head x) = avail (creditSlot head x)
  le : ∀ x < nrCreditEntries, r (creditSlot head x) ≤ avail (creditSlot head x)
  sum : ∑ x ∈ Ico d nrCreditEntries, (avail (creditSlot head x) - r (creditSlot head x)) =
    min credits (∑ x ∈ Ico d nrCreditEntries, avail (creditSlot head x))

/-- Charging one slot. -/
theorem update_creditSlot (hh : head < nrCreditEntries) (hd : d < nrCreditEntries) {x v : Nat}
    (hx : x < nrCreditEntries) :
    Function.update avail (creditSlot head d) v (creditSlot head x) =
      if x = d then v else avail (creditSlot head x) := by
  split
  · next h => rw [h, Function.update_self]
  · next h => exact Function.update_of_ne (fun he => h (ringSlot_inj hh hx hd he)) ..

/-- The search ends at the slot it starts with. -/
theorem Consumed.stop (hh : head < nrCreditEntries) (hd : d < nrCreditEntries)
    (hstop : credits ≤ avail (creditSlot head d) ∨ d + 1 = nrCreditEntries) :
    Consumed head avail d credits d (Function.update avail (creditSlot head d)
      (avail (creditSlot head d) - min credits (avail (creditSlot head d)))) := by
  refine ⟨le_refl d, hd, fun x hx hne => ?_, fun x hx => ?_, ?_⟩
  · rw [update_creditSlot hh hd hx, if_neg (by omega)]
  · rw [update_creditSlot hh hd hx]
    split
    · next h =>
      rw [h]
      exact Nat.sub_le ..
    · exact le_refl _
  · have hrest : ∑ x ∈ Ico (d + 1) nrCreditEntries, (avail (creditSlot head x) -
        Function.update avail (creditSlot head d) (avail (creditSlot head d) -
          min credits (avail (creditSlot head d))) (creditSlot head x)) = 0 := by
      apply sum_eq_zero
      intro x hx
      rw [mem_Ico] at hx
      rw [update_creditSlot hh hd hx.2, if_neg (by omega), Nat.sub_self]
    rw [sum_eq_sum_Ico_succ_bot hd, sum_eq_sum_Ico_succ_bot hd, hrest, Function.update_self]
    rcases hstop with hle | hlast
    · omega
    · rw [hlast, Ico_self, sum_empty]
      omega

/-- The search goes on with the next slot. -/
theorem Consumed.cons {last : Nat} {r : Nat → Nat} (hh : head < nrCreditEntries)
    (hd : d + 1 < nrCreditEntries) (hmore : avail (creditSlot head d) < credits)
    (h : Consumed head (Function.update avail (creditSlot head d)
      (avail (creditSlot head d) - min credits (avail (creditSlot head d)))) (d + 1)
      (credits - min credits (avail (creditSlot head d))) last r) :
    Consumed head avail d credits last r := by
  have hd' : d < nrCreditEntries := Nat.lt_of_succ_lt hd
  have hmin : min credits (avail (creditSlot head d)) = avail (creditSlot head d) := by omega
  rw [hmin, Nat.sub_self] at h
  have hother : ∀ x < nrCreditEntries, x ≠ d → Function.update avail (creditSlot head d) 0
      (creditSlot head x) = avail (creditSlot head x) := by
    intro x hx hne
    rw [update_creditSlot hh hd' hx, if_neg hne]
  have hself : r (creditSlot head d) = 0 := by
    rw [h.frame d hd' (Or.inl (Nat.lt_succ_self d)), Function.update_self]
  refine ⟨Nat.le_of_succ_le h.from_le, h.last_lt, fun x hx hne => ?_, fun x hx => ?_, ?_⟩
  · rw [h.frame x hx (by omega)]
    have := h.from_le
    exact hother x hx (by omega)
  · by_cases hx' : x = d
    · rw [hx', hself]
      exact Nat.zero_le _
    · rw [← hother x hx hx']
      exact h.le x hx
  · have hsum := h.sum
    have hcongr : ∀ f : Nat → Nat → Nat, ∑ x ∈ Ico (d + 1) nrCreditEntries,
        f (Function.update avail (creditSlot head d) 0 (creditSlot head x)) x =
        ∑ x ∈ Ico (d + 1) nrCreditEntries, f (avail (creditSlot head x)) x := by
      intro f
      apply sum_congr rfl
      intro x hx
      rw [mem_Ico] at hx
      rw [hother x hx.2 (by omega)]
    rw [hcongr fun a x => a - r (creditSlot head x), hcongr fun a _ => a] at hsum
    rw [sum_eq_sum_Ico_succ_bot hd', sum_eq_sum_Ico_succ_bot hd', hsum, hself]
    omega

theorem creditSlot_succ (head d : Nat) :
    (creditSlot head d + 1) % nrCreditEntries = creditSlot head (d + 1) :=
  ringSlot_succ ..

/-- The search goes on when the slot does not pay for everything and another slot follows. -/
theorem consume_goes_on (hh : head < nrCreditEntries) (hd : d < nrCreditEntries) :
    credits - min credits (avail (creditSlot head d)) ≠ 0 ∧
        (creditSlot head d + 1) % nrCreditEntries ≠ head ↔
      avail (creditSlot head d) < credits ∧ d + 1 < nrCreditEntries := by
  have hwrap : creditSlot head (d + 1) = head ↔ d + 1 = nrCreditEntries :=
    ringSlot_eq_head_iff hh (Nat.succ_pos d) hd
  rw [creditSlot_succ, Ne, Ne, hwrap]
  omega

/-- The slot search of `chmodel_request`, with enough rounds to go once around the ring. -/
theorem consumeCredits_spec (hh : head < nrCreditEntries) (hd : d < nrCreditEntries)
    (hfuel : nrCreditEntries - d ≤ fuel) :
    ∃ last, Consumed head avail d credits last
        (consumeCredits head fuel avail (creditSlot head d) credits delay).1 ∧
      (consumeCredits head fuel avail (creditSlot head d) credits delay).2.1 =
        creditSlot head last ∧
      ConsumeRounds head avail (creditSlot head d) credits delay (last - d + 1)
        (consumeCredits head fuel avail (creditSlot head d) credits delay) := by
  induction fuel generalizing d avail credits delay with
  | zero => omega
  | succ fuel ih =>
    rw [consumeCredits]
    split
    · next hmore =>
      obtain ⟨hlack, hd1⟩ := (consume_goes_on hh hd).mp hmore
      let left := avail (creditSlot head d) - min credits (avail (creditSlot head d))
      let owed := credits - min credits (avail (creditSlot head d))
      obtain ⟨last, hcons, hpos, hrounds⟩ :=
        @ih (d + 1) owed (delay + 1) (Function.update avail (creditSlot head d) left) hd1 (by omega)
      rw [← creditSlot_succ] at hpos hrounds hcons
      refine ⟨last, hcons.cons hh hd1 hlack, hpos, ?_⟩
      have hle := hcons.from_le
      rw [show last - d + 1 = last - (d + 1) + 1 + 1 by omega]
      exact .round hmore hrounds
    · next hstop =>
      have hend := mt (consume_goes_on hh hd).mpr hstop
      refine ⟨d, Consumed.stop hh hd (by omega), rfl, ?_⟩
      rw [Nat.sub_self]
      exact .done hstop

/-! ## The window -/

theorem u64Sub_eq {x y : Nat} (hle : y ≤ x) (hx : x < 2 ^ 64) : u64Sub x y = x - y := by
  unfold u64Sub
  omega

/-- The time slot of a time. -/
def timeSlot (t : Nat) : Nat := t / unitTimeInterval

/-- The slots that `chmodel_request` expires at `curTime`. -/
def ChannelModel.expired (ch : ChannelModel) (curTime : Nat) : Nat :=
  let offs := u32 (u64Sub (timeSlot curTime) (timeSlot ch.curTime))
  if offs < ch.validLen then offs else ch.validLen

theorem ChannelModel.expired_le (ch : ChannelModel) (t : Nat) : ch.expired t ≤ ch.validLen := by
  unfold ChannelModel.expired
  dsimp only
  split <;> omega

/-- Seen from the head, expiring refills the slots in front, as far as a byte can, and keeps the
others. -/
theorem ChannelModel.expire_slot (ch : ChannelModel) (t : Nat) (hd : d < nrCreditEntries) :
    (ch.expire t).availCredits (creditSlot ch.head d) =
      if d < ch.expired t then ch.maxCredits % 2 ^ 8
      else ch.availCredits (creditSlot ch.head d) := by
  have hh := ch.head_lt
  have hv := ch.validLen_le
  have hle := ch.expired_le t
  have hoffs : (ch.expire t).availCredits =
      if ch.head + ch.expired t ≥ nrCreditEntries then
        memsetCredits
          (memsetCredits ch.availCredits ch.head ch.maxCredits (nrCreditEntries - ch.head))
          0 ch.maxCredits (ch.expired t - (nrCreditEntries - ch.head))
      else memsetCredits ch.availCredits ch.head ch.maxCredits (ch.expired t) := rfl
  rw [hoffs, creditSlot, ringSlot_eq hh hd.le]
  split_ifs <;> simp only [memsetCredits] <;> split_ifs <;> first | rfl | omega

/-- A slot behind a moved head is a slot behind the old one. -/
theorem exists_creditSlot_add (head : Nat) {k : Nat} (hk : k ≤ nrCreditEntries)
    (hd : d < nrCreditEntries) :
    ∃ e < nrCreditEntries, creditSlot (creditSlot head k) d = creditSlot head e ∧
      (e = k + d ∨ e + nrCreditEntries = k + d) := by
  by_cases hlt : k + d < nrCreditEntries
  · exact ⟨_, hlt, ringSlot_add .., Or.inl rfl⟩
  · refine ⟨k + d - nrCreditEntries, by omega, ?_, Or.inr (by omega)⟩
    rw [creditSlot, creditSlot, ringSlot_add, creditSlot, ringSlot_sub _ (Nat.le_of_not_lt hlt)]

/-- What is known of a channel after requests that have taken `L s` credits from each slot `s` of
absolute time. -/
structure Metered (m : Nat) (L : Nat → Nat) (ch : ChannelModel) : Prop where
  maxCredits : ch.maxCredits = m
  le : ∀ d < nrCreditEntries, ch.availCredits (creditSlot ch.head d) ≤ m
  outside : ∀ d < nrCreditEntries, ch.validLen ≤ d →
    ch.availCredits (creditSlot ch.head d) = m
  ledger : ∀ d < nrCreditEntries,
    L (timeSlot ch.curTime + d) + ch.availCredits (creditSlot ch.head d) ≤ m
  future : ∀ s, timeSlot ch.curTime + ch.validLen ≤ s → L s = 0
  cap : ∀ s, L s ≤ m

/-- Expired slots lie in the past. -/
theorem ChannelModel.expired_cases (ch : ChannelModel) {t : Nat} (hle : ch.curTime ≤ t)
    (ht : t < 2 ^ 64) :
    (ch.expired t = ch.validLen ∧ timeSlot ch.curTime + ch.validLen ≤ timeSlot t) ∨
    (ch.expired t < ch.validLen ∧ timeSlot t = timeSlot ch.curTime + ch.expired t) ∨
    (ch.expired t < ch.validLen ∧ timeSlot ch.curTime + nrCreditEntries ≤ timeSlot t) := by
  have hslot : timeSlot ch.curTime ≤ timeSlot t := Nat.div_le_div_right hle
  have hlt : timeSlot t < 2 ^ 64 := (Nat.div_le_self ..).trans_lt ht
  have hv := ch.validLen_le
  have hn : nrCreditEntries = 98304 := rfl
  unfold ChannelModel.expired
  rw [u64Sub_eq hslot hlt, u32]
  dsimp only
  split <;> omega

theorem Metered.expire {L : Nat → Nat} {t : Nat} (h : Metered m L ch) (hm : m < 2 ^ 8)
    (hle : ch.curTime ≤ t) (ht : t < 2 ^ 64) : Metered m L (ch.expire t) := by
  have hmax := h.maxCredits
  have hexp := ch.expired_le t
  have hv := ch.validLen_le
  have hhead : (ch.expire t).head = creditSlot ch.head (ch.expired t) := rfl
  have hvalid : (ch.expire t).validLen = ch.validLen - ch.expired t := rfl
  have hcur : (ch.expire t).curTime = t := rfl
  have hslot := fun d hd => @exists_creditSlot_add d ch.head (ch.expired t) (hexp.trans hv) hd
  have havail : ∀ d < nrCreditEntries, (ch.expire t).availCredits (creditSlot ch.head d) =
      if d < ch.expired t then m else ch.availCredits (creditSlot ch.head d) := by
    intro d hd
    rw [ch.expire_slot t hd, hmax, Nat.mod_eq_of_lt hm]
  refine ⟨hmax, fun d hd => ?_, fun d hd hout => ?_, fun d hd => ?_, fun s hs => ?_, h.cap⟩
  · obtain ⟨e, he, heq, -⟩ := hslot d hd
    rw [hhead, heq, havail e he]
    split
    · exact le_refl m
    · exact h.le e he
  · obtain ⟨e, he, heq, hcase⟩ := hslot d hd
    rw [hvalid] at hout
    rw [hhead, heq, havail e he]
    split
    · rfl
    · exact h.outside e he (by omega)
  · obtain ⟨e, he, heq, hcase⟩ := hslot d hd
    rw [hhead, hcur, heq, havail e he]
    split
    · next hlt =>
      rw [h.future, Nat.zero_add]
      rcases ch.expired_cases hle ht with ⟨-, hpast⟩ | ⟨-, heq⟩ | ⟨-, hpast⟩ <;> omega
    · next hge =>
      rcases ch.expired_cases hle ht with ⟨-, hpast⟩ | ⟨-, hslot⟩ | ⟨-, hpast⟩
      · rw [h.future _ (by omega), Nat.zero_add]
        exact h.le e he
      · rcases hcase with rfl | hwrap
        · rw [hslot, Nat.add_assoc]
          exact h.ledger _ he
        · omega
      · rw [h.future _ (by omega), Nat.zero_add]
        exact h.le e he
  · rw [hcur, hvalid] at hs
    apply h.future
    rcases ch.expired_cases hle ht with ⟨-, hpast⟩ | ⟨-, heq⟩ | ⟨-, hpast⟩ <;> omega

/-! ## Requests -/

/-- The arguments of one call of `chmodel_request` and the wall clock it reads. -/
structure ChRequest where
  curTime : Nat
  requestTime : Nat
  length : Nat
  deriving DecidableEq, Repr

/-- The values of a request have their widths, and it lies less than `2 ^ 32` slots ahead. -/
structure ChRequest.Wf (r : ChRequest) : Prop where
  curTime_lt : r.curTime < 2 ^ 64
  requestTime_lt : r.requestTime < 2 ^ 64
  length_lt : r.length < 2 ^ 38
  ahead : timeSlot r.requestTime < timeSlot r.curTime + 2 ^ 32

/-- `chmodel_request` returns early: the request is in the past or beyond the ring. -/
def ChRequest.Early (r : ChRequest) : Prop :=
  r.requestTime < r.curTime ∨ timeSlot r.curTime + nrCreditEntries ≤ timeSlot r.requestTime

instance (r : ChRequest) : Decidable r.Early := inferInstanceAs (Decidable (_ ∨ _))

/-- The slot of a request, counted from the present. -/
theorem ChRequest.Wf.offs_eq {r : ChRequest} (h : r.Wf) (hnow : r.curTime ≤ r.requestTime) :
    u32 (u64Sub (r.requestTime / unitTimeInterval) (r.curTime / unitTimeInterval)) =
      timeSlot r.requestTime - timeSlot r.curTime := by
  have hslot : timeSlot r.curTime ≤ timeSlot r.requestTime := Nat.div_le_div_right hnow
  have hlt : timeSlot r.requestTime < 2 ^ 64 := (Nat.div_le_self ..).trans_lt h.requestTime_lt
  have heq : u64Sub (timeSlot r.requestTime) (timeSlot r.curTime) = _ := u64Sub_eq hslot hlt
  have hahead := h.ahead
  show u32 (u64Sub (timeSlot r.requestTime) (timeSlot r.curTime)) = _
  rw [heq, u32]
  omega

namespace ChannelModel

/-- The channel after a request. -/
def after (ch : ChannelModel) (r : ChRequest) : ChannelModel :=
  (chmodelRequest ch r.curTime r.requestTime r.length).2

/-- The credits that a request costs. -/
def cost (ch : ChannelModel) (r : ChRequest) : Nat :=
  divRoundUp r.length unitXferSize + ch.commandCredits

/-- The credits that the ring holds from the time of a request on. -/
def freeFrom (ch : ChannelModel) (r : ChRequest) : Nat :=
  ∑ d ∈ Ico (timeSlot r.requestTime - timeSlot r.curTime) nrCreditEntries,
    (ch.expire r.curTime).availCredits (creditSlot (ch.expire r.curTime).head d)

/-- The credits that a request takes from the slot `s` of absolute time. -/
def spentAt (ch : ChannelModel) (r : ChRequest) (s : Nat) : Nat :=
  let slot := creditSlot (ch.expire r.curTime).head (s - timeSlot r.curTime)
  if timeSlot r.curTime ≤ s ∧ s < timeSlot r.curTime + nrCreditEntries then
    (ch.expire r.curTime).availCredits slot - (ch.after r).availCredits slot
  else 0

/-- The channel after a run of requests. -/
def run (ch : ChannelModel) (reqs : List ChRequest) : ChannelModel := reqs.foldl after ch

/-- The credits that a run of requests takes from the slot `s` of absolute time. -/
def spentInRun (ch : ChannelModel) : List ChRequest → Nat → Nat
  | [], _ => 0
  | r :: reqs, s => ch.spentAt r s + (ch.after r).spentInRun reqs s

/-- A request that returns early only expires slots. -/
theorem after_early {r : ChRequest} (hwf : r.Wf) (h : r.Early) :
    ch.after r = ch.expire r.curTime := by
  unfold after chmodelRequest
  dsimp only
  split
  · rfl
  · next hnow =>
    rw [if_pos]
    rw [hwf.offs_eq (Nat.le_of_not_lt hnow)]
    unfold ChRequest.Early at h
    omega

/-- What a request that does not return early leaves. -/
structure Charged (ch : ChannelModel) (r : ChRequest) (last : Nat) : Prop where
  head : (ch.after r).head = (ch.expire r.curTime).head
  curTime : (ch.after r).curTime = r.curTime
  maxCredits : (ch.after r).maxCredits = ch.maxCredits
  commandCredits : (ch.after r).commandCredits = ch.commandCredits
  validLen : (ch.after r).validLen = max (ch.expire r.curTime).validLen (last + 1)
  consumed : Consumed (ch.expire r.curTime).head (ch.expire r.curTime).availCredits
    (timeSlot r.requestTime - timeSlot r.curTime) (ch.cost r) last (ch.after r).availCredits
  rounds : ∃ n ≤ nrCreditEntries, ∃ res, ConsumeRounds (ch.expire r.curTime).head
    (ch.expire r.curTime).availCredits
    (creditSlot (ch.expire r.curTime).head (timeSlot r.requestTime - timeSlot r.curTime))
    (ch.cost r) 0 n res

theorem slotsUpTo_creditSlot (hh : head < nrCreditEntries) (hd : d < nrCreditEntries) :
    slotsUpTo head (creditSlot head d) = d + 1 := by
  unfold slotsUpTo creditSlot
  rw [ringSlot_eq hh hd.le]
  split_ifs <;> omega

/-- `chmodel_request` past its two early returns. -/
theorem charged {r : ChRequest} (hwf : r.Wf) (h : ¬ r.Early) (hcmd : ch.commandCredits < 2 ^ 31) :
    ∃ last, ch.Charged r last := by
  unfold ChRequest.Early at h
  push Not at h
  obtain ⟨hnow, hring⟩ := h
  have hslot : timeSlot r.curTime ≤ timeSlot r.requestTime := Nat.div_le_div_right hnow
  have hn : nrCreditEntries = 98304 := rfl
  have hlen := hwf.length_lt
  have hoffs := hwf.offs_eq hnow
  have hcost : u32 (u32 (u32 (u64 (r.length + (unitXferSize - 1)) / unitXferSize) *
      unitXferCredits) + ch.commandCredits) = ch.cost r := by
    rw [cost, divRoundUp]
    simp only [u32, u64, unitXferSize, unitXferCredits]
    omega
  have hd : timeSlot r.requestTime - timeSlot r.curTime < nrCreditEntries := by omega
  have hh := (ch.expire r.curTime).head_lt
  obtain ⟨last, hcons, hpos, hrounds⟩ := @consumeCredits_spec _ nrCreditEntries _ (ch.cost r) 0
    (ch.expire r.curTime).availCredits hh hd (Nat.sub_le ..)
  have hafter : ch.after r = (chmodelRequest ch r.curTime r.requestTime r.length).2 := rfl
  have hexpcmd : (ch.expire r.curTime).commandCredits = ch.commandCredits := rfl
  rw [chmodelRequest, if_neg (Nat.not_lt.mpr hnow)] at hafter
  simp only [hoffs, hexpcmd, hcost] at hafter
  rw [if_neg (Nat.not_le.mpr hd)] at hafter
  refine ⟨last, ?_, ?_, ?_, ?_, ?_, ?_, _, ?_, _, hrounds⟩
  · rw [hafter]
  · rw [hafter]
    rfl
  · rw [hafter]
    rfl
  · rw [hafter]
  · rw [hafter, ← slotsUpTo_creditSlot hh hcons.last_lt, ← hpos]
    rfl
  · rw [hafter]
    exact hcons
  · have := hcons.last_lt
    omega

/-- Seen from the head, what a request takes from a slot is what the ring loses there. -/
theorem spentAt_add (ch : ChannelModel) (r : ChRequest) (hd : d < nrCreditEntries) :
    ch.spentAt r (timeSlot r.curTime + d) =
      (ch.expire r.curTime).availCredits (creditSlot (ch.expire r.curTime).head d) -
        (ch.after r).availCredits (creditSlot (ch.expire r.curTime).head d) := by
  simp only [spentAt, Nat.add_sub_cancel_left]
  rw [if_pos]
  exact ⟨Nat.le_add_right .., Nat.add_lt_add_left hd _⟩

theorem spentAt_early {r : ChRequest} (hwf : r.Wf) (h : r.Early) (s : Nat) :
    ch.spentAt r s = 0 := by
  simp only [spentAt, after_early hwf h, Nat.sub_self, ite_self]

/-- Outside of the slots that the search visits nothing is spent. -/
theorem Charged.spentAt_eq_zero {r : ChRequest} {last s : Nat} (h : ch.Charged r last)
    (hs : s < timeSlot r.requestTime ∨ timeSlot r.curTime + last < s) : ch.spentAt r s = 0 := by
  by_cases hwin : timeSlot r.curTime ≤ s ∧ s < timeSlot r.curTime + nrCreditEntries
  · obtain ⟨d, rfl⟩ := Nat.exists_eq_add_of_le hwin.1
    have hd : d < nrCreditEntries := by omega
    rw [spentAt_add ch r hd, h.consumed.frame d hd (by omega), Nat.sub_self]
  · rw [spentAt, if_neg hwin]

/-- What a request takes altogether. -/
theorem Charged.sum_spentAt {r : ChRequest} {last : Nat} (h : ch.Charged r last) :
    ∑ s ∈ Ico (timeSlot r.curTime) (timeSlot r.curTime + nrCreditEntries), ch.spentAt r s =
      min (ch.cost r) (ch.freeFrom r) := by
  have hle : timeSlot r.requestTime - timeSlot r.curTime ≤ nrCreditEntries :=
    h.consumed.from_le.trans h.consumed.last_lt.le
  rw [sum_Ico_eq_sum_range, Nat.add_sub_cancel_left, range_eq_Ico,
    ← sum_Ico_consecutive _ (Nat.zero_le _) hle]
  have hbefore : ∑ d ∈ Ico 0 (timeSlot r.requestTime - timeSlot r.curTime),
      ch.spentAt r (timeSlot r.curTime + d) = 0 := by
    apply sum_eq_zero
    intro d hd
    rw [mem_Ico] at hd
    exact h.spentAt_eq_zero (Or.inl (by omega))
  rw [hbefore, Nat.zero_add, freeFrom, ← h.consumed.sum]
  apply sum_congr rfl
  intro d hd
  rw [mem_Ico] at hd
  exact spentAt_add ch r hd.2

end ChannelModel

open ChannelModel

/-- One request keeps the ledger. -/
theorem Metered.after {L : Nat → Nat} {r : ChRequest} (h : Metered m L ch) (hm : m < 2 ^ 8)
    (hwf : r.Wf) (hle : ch.curTime ≤ r.curTime) (hcmd : ch.commandCredits < 2 ^ 31) :
    Metered m (fun s => L s + ch.spentAt r s) (ch.after r) := by
  have hexp := h.expire hm hle hwf.curTime_lt
  by_cases hearly : r.Early
  · rw [after_early hwf hearly]
    simpa only [spentAt_early hwf hearly, Nat.add_zero] using hexp
  obtain ⟨last, hch⟩ := ch.charged hwf hearly hcmd
  have hcur : (ch.expire r.curTime).curTime = r.curTime := rfl
  have hledger : ∀ d < nrCreditEntries, L (timeSlot r.curTime + d) +
      (ch.expire r.curTime).availCredits (creditSlot (ch.expire r.curTime).head d) ≤ m :=
    hexp.ledger
  refine ⟨hch.maxCredits.trans h.maxCredits, fun d hd => ?_, fun d hd hout => ?_, fun d hd => ?_,
    fun s hs => ?_, fun s => ?_⟩
  · rw [hch.head]
    exact (hch.consumed.le d hd).trans (hexp.le d hd)
  · rw [hch.validLen] at hout
    rw [hch.head, hch.consumed.frame d hd (by omega)]
    exact hexp.outside d hd (by omega)
  · rw [hch.head, hch.curTime, spentAt_add ch r hd]
    have := hledger d hd
    have := hch.consumed.le d hd
    omega
  · rw [hch.curTime, hch.validLen] at hs
    have hzero := hexp.future s (by rw [hcur]; omega)
    rw [hzero, Nat.zero_add]
    exact hch.spentAt_eq_zero (Or.inr (by omega))
  · by_cases hwin : timeSlot r.curTime ≤ s ∧ s < timeSlot r.curTime + nrCreditEntries
    · obtain ⟨d, rfl⟩ := Nat.exists_eq_add_of_le hwin.1
      have hd : d < nrCreditEntries := by omega
      have := hledger d hd
      rw [spentAt_add ch r hd]
      omega
    · rw [spentAt, if_neg hwin]
      exact h.cap s

theorem ChannelModel.after_curTime {r : ChRequest} (hwf : r.Wf) (hcmd : ch.commandCredits < 2 ^ 31) :
    (ch.after r).curTime = r.curTime ∧ (ch.after r).commandCredits = ch.commandCredits := by
  by_cases hearly : r.Early
  · rw [after_early hwf hearly]
    exact ⟨rfl, rfl⟩
  · obtain ⟨last, hch⟩ := ch.charged hwf hearly hcmd
    exact ⟨hch.curTime, hch.commandCredits⟩

/-- The wall clock of the requests never runs backwards, from `t` on. -/
def ClockFrom : Nat → List ChRequest → Prop
  | _, [] => True
  | t, r :: reqs => t ≤ r.curTime ∧ ClockFrom r.curTime reqs

/-- A run of requests keeps the ledger. -/
theorem Metered.run {L : Nat → Nat} {reqs : List ChRequest} (h : Metered m L ch) (hm : m < 2 ^ 8)
    (hwf : ∀ r ∈ reqs, r.Wf) (hclock : ClockFrom ch.curTime reqs)
    (hcmd : ch.commandCredits < 2 ^ 31) :
    Metered m (fun s => L s + ch.spentInRun reqs s) (ch.run reqs) ∧
      (ch.run reqs).commandCredits = ch.commandCredits := by
  induction reqs generalizing ch L with
  | nil => exact ⟨h, rfl⟩
  | cons r reqs ih =>
    have hr := hwf r (List.mem_cons_self ..)
    obtain ⟨hcur, hcmd'⟩ := ch.after_curTime hr hcmd
    have ih := ih (h.after hm hr hclock.1 hcmd) (fun q hq => hwf q (List.mem_cons_of_mem r hq))
      (by rw [hcur]; exact hclock.2) (by rw [hcmd']; exact hcmd)
    refine ⟨?_, ih.2.trans hcmd'⟩
    have hsum : (fun s => L s + ch.spentInRun (r :: reqs) s) =
        fun s => L s + ch.spentAt r s + (ch.after r).spentInRun reqs s := by
      ext s : 1
      rw [spentInRun, Nat.add_assoc]
    rw [hsum]
    exact ih.1

/-- A channel that nothing has been charged to, with `m` credits in each slot. -/
structure ChannelModel.Fresh (ch : ChannelModel) (m : Nat) : Prop where
  maxCredits : ch.maxCredits = m
  validLen : ch.validLen = 0
  full : ∀ i < nrCreditEntries, ch.availCredits i = m
  commandCredits_lt : ch.commandCredits < 2 ^ 31

theorem ChannelModel.Fresh.metered (h : ch.Fresh m) : Metered m (fun _ => 0) ch := by
  have hfull : ∀ d < nrCreditEntries, ch.availCredits (creditSlot ch.head d) = m := fun d _ =>
    h.full _ (ringSlot_lt nrCreditEntries_pos ..)
  refine ⟨h.maxCredits, fun d hd => (hfull d hd).le, fun d hd _ => hfull d hd, fun d hd => ?_,
    fun _ _ => rfl, fun _ => Nat.zero_le m⟩
  rw [hfull d hd, Nat.zero_add]

/-- `chmodel_init` makes such a channel when its credits fit a byte. -/
theorem chmodelInit_fresh {bandwidth : Nat} (h : (chmodelInit bandwidth).maxCredits ≤ 255) :
    (chmodelInit bandwidth).Fresh (chmodelInit bandwidth).maxCredits := by
  refine ⟨rfl, rfl, fun i _ => ?_, show 0 < 2 ^ 31 by simp⟩
  exact Nat.mod_eq_of_lt (Nat.lt_succ_of_le h)

/-- The credit ring never hands out more than a slot holds: after any run of requests the ring is
in shape, the next request pays its price from the slots at or after its time unless the ring
runs out, its loop ends within one round of the ring, and no slot of absolute time has given more
than its credits. -/
theorem channel_bandwidth_cap (ch : ChannelModel) (m : Nat) (reqs : List ChRequest) (r : ChRequest)
    (hfresh : ch.Fresh m) (hm : 1 ≤ m ∧ m ≤ 255) (hwf : ∀ q ∈ reqs ++ [r], q.Wf)
    (hclock : ClockFrom ch.curTime (reqs ++ [r])) :
    let c := ch.run reqs
    (c.head < nrCreditEntries ∧ c.validLen ≤ nrCreditEntries ∧
      (∀ i < nrCreditEntries, c.availCredits i ≤ m) ∧
      ∀ d < nrCreditEntries, c.validLen ≤ d → c.availCredits (creditSlot c.head d) = m) ∧
    (¬ r.Early →
      (c.cost r ≤ c.freeFrom r →
        ∑ s ∈ Ico (timeSlot r.curTime) (timeSlot r.curTime + nrCreditEntries), c.spentAt r s =
          divRoundUp r.length unitXferSize + ch.commandCredits) ∧
      (∀ s, s < timeSlot r.requestTime → c.spentAt r s = 0) ∧
      ∃ n ≤ nrCreditEntries, ∃ res, ConsumeRounds (c.expire r.curTime).head
        (c.expire r.curTime).availCredits
        (creditSlot (c.expire r.curTime).head (timeSlot r.requestTime - timeSlot r.curTime))
        (c.cost r) 0 n res) ∧
    ∀ s, ch.spentInRun reqs s + c.spentAt r s ≤ m := by
  have hm8 : m < 2 ^ 8 := by omega
  have hsplit : ∀ (t : Nat) (l : List ChRequest), ClockFrom t (l ++ [r]) →
      ClockFrom t l := by
    intro t l h
    induction l generalizing t with
    | nil => trivial
    | cons q l ih => exact ⟨h.1, ih q.curTime h.2⟩
  obtain ⟨hmet, hcmd⟩ := hfresh.metered.run hm8
    (fun q hq => hwf q (List.mem_append_left _ hq)) (hsplit _ reqs hclock) hfresh.commandCredits_lt
  have hcmd31 : (ch.run reqs).commandCredits < 2 ^ 31 := hcmd ▸ hfresh.commandCredits_lt
  have hr : r.Wf := hwf r (List.mem_append_right _ (List.mem_singleton_self r))
  have hlast := hfresh.metered.run hm8 hwf hclock hfresh.commandCredits_lt
  have hrun : ∀ (l : List ChRequest) (c : ChannelModel) (s : Nat), c.spentInRun (l ++ [r]) s =
      c.spentInRun l s + (c.run l).spentAt r s := by
    intro l
    induction l with
    | nil => exact fun c s => Nat.add_comm _ _
    | cons q l ih =>
      intro c s
      show c.spentAt q s + (c.after q).spentInRun (l ++ [r]) s = _
      rw [ih, ← Nat.add_assoc]
      rfl
  refine ⟨⟨(ch.run reqs).head_lt, (ch.run reqs).validLen_le, fun i hi => ?_, hmet.outside⟩,
    fun hearly => ?_, fun s => ?_⟩
  · obtain ⟨d, hd, rfl⟩ := exists_ringSlot (ch.run reqs).head_lt hi
    exact hmet.le d hd
  · obtain ⟨last, hch⟩ := (ch.run reqs).charged hr hearly hcmd31
    refine ⟨fun hfree => ?_, fun s hs => hch.spentAt_eq_zero (Or.inl hs), hch.rounds⟩
    rw [hch.sum_spentAt, Nat.min_eq_left hfree, ChannelModel.cost, hcmd]
  · have hcap := hlast.1.cap s
    rwa [hrun, Nat.zero_add] at hcap

/-- Two requests to a channel of the shipped device, and the slot that the second one starts in. -/
theorem channel_bandwidth_cap_shipped :
    (chmodelInit 800).spentInRun [⟨0, 0, kb 16⟩] (timeSlot 12000) +
      ((chmodelInit 800).run [⟨0, 0, kb 16⟩]).spentAt ⟨8000, 12000, kb 48⟩ (timeSlot 12000) ≤
        26 := by
  have hwf : ∀ q ∈ [(⟨0, 0, kb 16⟩ : ChRequest)] ++ [⟨8000, 12000, kb 48⟩], q.Wf := by
    intro q hq
    simp only [List.cons_append, List.nil_append, List.mem_cons, List.not_mem_nil, or_false] at hq
    rcases hq with rfl | rfl
    · exact ⟨by decide, by decide, by decide, by decide⟩
    · exact ⟨by decide, by decide, by decide, by decide⟩
  exact (channel_bandwidth_cap (chmodelInit 800) 26 _ _ (chmodelInit_fresh (by decide)) (by decide)
    hwf ⟨by decide, by decide, trivial⟩).2.2 _

end NvmeVirt
