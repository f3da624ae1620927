import NvmeVirt.Kv.State
import Mathlib.Data.Finset.Card
import Mathlib.Logic.Relation

/-!
# The chains of the table

Every link between two slots in use leads to a slot that was taken later, so the chains have no
cycle and every search ends. A stale link, to a slot that a delete has blanked, may come to lead
into another chain when the slot is taken again; that only makes the chain longer.
-/

namespace NvmeVirt

open Checked Finset

variable {kv : KvFtl} {n fuel s t z : Nat} {key : Nat → UInt8} {age : Nat → Nat} {now : Nat}

namespace KvFtl

/-- The slot is in use. -/
def Live (kv : KvFtl) (s : Nat) : Prop := s < kv.hashSlots ∧ (kv.kvMappingTable s).memOffset ≠ none

instance (kv : KvFtl) (s : Nat) : Decidable (kv.Live s) := inferInstanceAs (Decidable (_ ∧ _))

/-- The link of a slot in use. -/
def Next (kv : KvFtl) (s t : Nat) : Prop :=
  kv.Live s ∧ (kv.kvMappingTable s).nextSlot = some t

/-- The chain from `s` on passes through `t`. -/
def Leads (kv : KvFtl) : Nat → Nat → Prop := Relation.ReflTransGen kv.Next

/-- The table is in shape: links lead to later slots, and a slot that is not in use has none. -/
structure Ordered (kv : KvFtl) (age : Nat → Nat) (now : Nat) : Prop where
  pos : 0 < kv.hashSlots
  next_lt : ∀ s < kv.hashSlots, ∀ t, (kv.kvMappingTable s).nextSlot = some t → t < kv.hashSlots
  blank : ∀ s < kv.hashSlots, (kv.kvMappingTable s).memOffset = none →
    (kv.kvMappingTable s).nextSlot = none
  age_lt : ∀ s, kv.Live s → age s < now
  later : ∀ s t, kv.Next s t → kv.Live t → age s < age t

/-- Only the offsets and the links matter. -/
theorem Ordered.congr {kv' : KvFtl} (h : kv.Ordered age now) (hslots : kv'.hashSlots = kv.hashSlots)
    (hoff : ∀ s, (kv'.kvMappingTable s).memOffset = (kv.kvMappingTable s).memOffset)
    (hnext : ∀ s, (kv'.kvMappingTable s).nextSlot = (kv.kvMappingTable s).nextSlot) :
    kv'.Ordered age now := by
  constructor
  · rw [hslots]
    exact h.pos
  · intro s hs t ht
    rw [hslots] at hs ⊢
    rw [hnext] at ht
    exact h.next_lt s hs t ht
  · intro s hs hnone
    rw [hslots] at hs
    rw [hoff] at hnone
    rw [hnext]
    exact h.blank s hs hnone
  · intro s hs
    rw [Live, hslots, hoff] at hs
    exact h.age_lt s hs
  · intro s t hst ht
    rw [Next, Live, hslots, hoff, hnext] at hst
    rw [Live, hslots, hoff] at ht
    exact h.later s t hst ht

theorem memOffset_of_not_live (hs : s < kv.hashSlots) (hdead : ¬ kv.Live s) :
    (kv.kvMappingTable s).memOffset = none := by
  by_contra hne
  exact hdead ⟨hs, hne⟩

/-- The slots in use that a search from `s` may still meet. -/
def ahead (kv : KvFtl) (age : Nat → Nat) (s : Nat) : Nat :=
  if kv.Live s then ((range kv.hashSlots).filter fun t => kv.Live t ∧ age s ≤ age t).card else 0

theorem ahead_le (kv : KvFtl) (age : Nat → Nat) (s : Nat) : kv.ahead age s ≤ kv.hashSlots := by
  unfold ahead
  split
  · simpa using card_filter_le (range kv.hashSlots) fun t => kv.Live t ∧ age s ≤ age t
  · exact Nat.zero_le _

/-- Every link brings the search closer to its end. -/
theorem Ordered.ahead_lt (h : kv.Ordered age now) (hnext : kv.Next s t) :
    kv.ahead age t < kv.ahead age s := by
  have hs : s ∈ (range kv.hashSlots).filter fun u => kv.Live u ∧ age s ≤ age u :=
    mem_filter.mpr ⟨mem_range.mpr hnext.1.1, hnext.1, le_refl _⟩
  unfold ahead
  rw [if_pos hnext.1]
  split
  · next ht =>
    have hlt := h.later s t hnext ht
    apply card_lt_card
    refine ⟨fun u hu => ?_, fun hsub => ?_⟩
    · obtain ⟨hr, hu, hle⟩ := mem_filter.mp hu
      exact mem_filter.mpr ⟨hr, hu, hlt.le.trans hle⟩
    · have := (mem_filter.mp (hsub hs)).2.2
      omega
  · exact card_pos.mpr ⟨s, hs⟩

/-- A chain that has ended leads nowhere else. -/
theorem leads_of_end (hend : ∀ u, ¬ kv.Next s u) (h : kv.Leads s t) : t = s := by
  cases h.cases_head with
  | inl heq => exact heq.symm
  | inr hstep =>
    obtain ⟨u, hu, -⟩ := hstep
    exact absurd hu (hend u)

/-- One step along a chain: it leads on from the next slot. -/
theorem leads_of_next {u : Nat} (hnext : kv.Next s u) (h : kv.Leads s t) (hne : t ≠ s) :
    kv.Leads u t := by
  cases h.cases_head with
  | inl heq => exact absurd heq.symm hne
  | inr hstep =>
    obtain ⟨u', hu', hrest⟩ := hstep
    have heq := hnext.2.symm.trans hu'.2
    cases heq
    exact hrest

/-- The search of a key ends. It finds a slot in use on the chain that holds the key, or there is
none. -/
theorem Ordered.searchLoop_spec (h : kv.Ordered age now) (hs : s < kv.hashSlots)
    (hfuel : kv.ahead age s < fuel) : ∃ found, kv.searchLoop key n fuel s = .ok found ∧
      match found with
      | some t => kv.Leads s t ∧ kv.Live t ∧ sameBytes n key (kv.kvMappingTable t).key = true
      | none => ∀ t, kv.Leads s t → kv.Live t →
          sameBytes n key (kv.kvMappingTable t).key = false := by
  induction fuel generalizing s with
  | zero => omega
  | succ fuel ih =>
    rw [searchLoop]
    by_cases hmem : (kv.kvMappingTable s).memOffset = none
    · refine ⟨none, if_pos hmem, fun t ht hlive => ?_⟩
      rw [leads_of_end (fun u hu => hu.1.2 hmem) ht] at hlive
      exact absurd hmem hlive.2
    have hlive : kv.Live s := ⟨hs, hmem⟩
    simp only [hmem, if_false]
    by_cases hkey : sameBytes n key (kv.kvMappingTable s).key = true
    · exact ⟨some s, if_pos hkey, .refl, hlive, hkey⟩
    rw [if_neg hkey]
    have hfalse := Bool.eq_false_of_not_eq_true hkey
    cases hnext : (kv.kvMappingTable s).nextSlot with
    | none =>
      refine ⟨none, rfl, fun t ht _ => ?_⟩
      rw [leads_of_end (fun u hu => by rw [hu.2] at hnext; cases hnext) ht]
      exact hfalse
    | some u =>
      have hstep : kv.Next s u := ⟨hlive, hnext⟩
      have hlt := h.ahead_lt hstep
      obtain ⟨found, hrun, hfound⟩ := ih (h.next_lt s hs u hnext) (by omega)
      refine ⟨found, hrun, ?_⟩
      cases found with
      | some t => exact ⟨hfound.1.head hstep, hfound.2⟩
      | none =>
        intro t ht hlive
        by_cases hts : t = s
        · rw [hts]
          exact hfalse
        · exact hfound t (leads_of_next hstep ht hts) hlive

/-- The search stops at the first slot of the chain that holds the key. -/
theorem searchLoop_first {u : Nat} (hrun : kv.searchLoop key n fuel s = .ok (some t))
    (hleads : kv.Leads s u) (hsame : sameBytes n key (kv.kvMappingTable u).key = true) :
    kv.Leads t u := by
  induction fuel generalizing s with
  | zero => cases hrun
  | succ fuel ih =>
    rw [searchLoop] at hrun
    by_cases hmem : (kv.kvMappingTable s).memOffset = none
    · rw [if_pos hmem] at hrun
      cases hrun
    rw [if_neg hmem] at hrun
    by_cases hkey : sameBytes n key (kv.kvMappingTable s).key = true
    · rw [if_pos hkey] at hrun
      cases hrun
      exact hleads
    rw [if_neg hkey] at hrun
    have hus : u ≠ s := by
      rintro rfl
      exact hkey hsame
    rcases hleads.cases_head with heq | ⟨v, hv, hrest⟩
    · exact absurd heq.symm hus
    · rw [hv.2] at hrun
      exact ih hrun hrest

/-- The last slot in use of a chain: its link is absent or leads to a slot that is not in use. -/
theorem Ordered.tailLoop_spec (h : kv.Ordered age now) (hs : kv.Live s)
    (hfuel : kv.ahead age s < fuel) (prevs : Option Nat) :
    ∃ z, kv.tailLoop fuel s prevs = .ok (some z) ∧ kv.Leads s z ∧ kv.Live z ∧
      ∀ u, kv.Next z u → ¬ kv.Live u := by
  induction fuel generalizing s prevs with
  | zero => omega
  | succ fuel ih =>
    rw [tailLoop]
    simp only [hs.2, if_false]
    cases hnext : (kv.kvMappingTable s).nextSlot with
    | none =>
      refine ⟨s, rfl, .refl, hs, fun u hu => ?_⟩
      rw [hu.2] at hnext
      cases hnext
    | some u =>
      have hstep : kv.Next s u := ⟨hs, hnext⟩
      have hlt := h.ahead_lt hstep
      by_cases hu : kv.Live u
      · obtain ⟨z, hrun, hz, hlive, hend⟩ := ih hu (by omega) (some s)
        exact ⟨z, hrun, hz.head hstep, hlive, hend⟩
      · refine ⟨s, ?_, .refl, hs, fun v hv => ?_⟩
        · cases fuel with
          | zero =>
            have := h.ahead_lt hstep
            omega
          | succ fuel =>
            have hmem := memOffset_of_not_live (h.next_lt s hs.1 u hnext) hu
            simp only [tailLoop, hmem, if_true]
        · have heq := hv.2.symm.trans hnext
          cases heq
          exact hu

/-- Probing comes to a slot that is not in use, when there is one. -/
theorem probeLoop_spec {d : Nat} (hs : s < kv.hashSlots) (hd : d < kv.hashSlots)
    (hfree : ¬ kv.Live ((s + d) % kv.hashSlots)) (hfuel : d < fuel) :
    ∃ y < kv.hashSlots, kv.probeLoop fuel s = .ok y ∧ ¬ kv.Live y := by
  induction fuel generalizing s d with
  | zero => omega
  | succ fuel ih =>
    rw [probeLoop]
    by_cases hmem : (kv.kvMappingTable s).memOffset = none
    · exact ⟨s, hs, if_pos hmem, fun hlive => hlive.2 hmem⟩
    rw [if_neg hmem]
    cases d with
    | zero =>
      rw [Nat.add_zero, Nat.mod_eq_of_lt hs] at hfree
      exact absurd ⟨hs, hmem⟩ hfree
    | succ d =>
      have hnext : (if s + 1 ≥ kv.hashSlots then 0 else s + 1) = (s + 1) % kv.hashSlots := by
        split
        · next hge => rw [show s + 1 = kv.hashSlots by omega, Nat.mod_self]
        · next hlt => rw [Nat.mod_eq_of_lt (Nat.lt_of_not_le hlt)]
      rw [hnext]
      refine @ih _ d (Nat.mod_lt _ (by omega)) (Nat.lt_of_succ_lt hd) ?_ (by omega)
      rwa [Nat.mod_add_mod, Nat.add_assoc, Nat.add_comm 1 d]

/-- A slot that is not in use is found from anywhere. -/
theorem exists_probeLoop (hs : s < kv.hashSlots) (hfree : ∃ e < kv.hashSlots, ¬ kv.Live e) :
    ∃ y < kv.hashSlots, kv.probeLoop (kv.hashSlots + 1) s = .ok y ∧ ¬ kv.Live y := by
  obtain ⟨e, he, hdead⟩ := hfree
  have hmod : (s + (e + kv.hashSlots - s) % kv.hashSlots) % kv.hashSlots = e := by
    rw [Nat.add_mod_mod, ← Nat.add_sub_assoc (by omega), Nat.add_sub_cancel_left,
      Nat.add_mod_right, Nat.mod_eq_of_lt he]
  have hlt := Nat.mod_lt (e + kv.hashSlots - s) (by omega : 0 < kv.hashSlots)
  exact probeLoop_spec hs hlt (by rwa [hmod]) (by omega)

/-- A table in which every slot is in use is probed forever. -/
theorem probeLoop_full (hs : s < kv.hashSlots) (hfull : ∀ e < kv.hashSlots, kv.Live e) :
    kv.probeLoop fuel s = .error .endless := by
  induction fuel generalizing s with
  | zero => rfl
  | succ fuel ih =>
    rw [probeLoop, if_neg (hfull s hs).2]
    apply ih
    split <;> omega

/-- `find_next_slot` finds a slot that is not in use and the last slot in use of the chain. -/
theorem Ordered.findNextSlot_spec {y : Nat} (h : kv.Ordered age now) (hs : kv.Live s)
    (hrun : kv.findNextSlot s = .ok (y, z)) : y < kv.hashSlots ∧ ¬ kv.Live y ∧
      kv.Leads s z ∧ kv.Live z ∧ ∀ u, kv.Next z u → ¬ kv.Live u := by
  obtain ⟨z', htail, hleads, hz, hlast⟩ :=
    h.tailLoop_spec hs (Nat.lt_succ_of_le (kv.ahead_le age s)) none
  rw [findNextSlot, htail] at hrun
  simp only [ok_bind] at hrun
  obtain ⟨y', hprobe, heq⟩ := bind_eq_ok.mp hrun
  cases heq
  by_cases hfree : ∃ e < kv.hashSlots, ¬ kv.Live e
  · obtain ⟨y', hlt, hrun', hdead⟩ := exists_probeLoop hz.1 hfree
    cases hrun'.symm.trans hprobe
    exact ⟨hlt, hdead, hleads, hz, hlast⟩
  · have hfull : ∀ e < kv.hashSlots, kv.Live e := fun e he => by
      by_contra hdead
      exact hfree ⟨e, he, hdead⟩
    rw [probeLoop_full hz.1 hfull] at hprobe
    cases hprobe

/-- With a slot that is not in use `find_next_slot` succeeds. -/
theorem Ordered.exists_findNextSlot (h : kv.Ordered age now) (hs : kv.Live s)
    (hfree : ∃ e < kv.hashSlots, ¬ kv.Live e) : ∃ y z, kv.findNextSlot s = .ok (y, z) := by
  obtain ⟨z, htail, -, hz, -⟩ :=
    h.tailLoop_spec hs (Nat.lt_succ_of_le (kv.ahead_le age s)) none
  obtain ⟨y, -, hprobe, -⟩ := exists_probeLoop hz.1 hfree
  refine ⟨y, z, ?_⟩
  rw [findNextSlot, htail]
  simp only [ok_bind, hprobe]
  rfl

/-! ## Keys -/

theorem sameBytes_iff {n : Nat} {a b : Nat → UInt8} :
    sameBytes n a b = true ↔ ∀ i < n, a i = b i := decide_eq_true_iff

/-- The hash depends on the bytes of the key only. -/
theorem hashFunction_congr {n : Nat} {a b : Nat → UInt8} (h : sameBytes n a b = true) :
    hashFunction a n = hashFunction b n := by
  rw [sameBytes_iff] at h
  unfold hashFunction
  apply List.foldl_ext
  intro _ i hi
  rw [h i (List.mem_range.mp hi)]

/-- The table with keys of `n` bytes: no key is stored twice, and the search of every key that is
stored passes through its slot. -/
structure Sound (kv : KvFtl) (n : Nat) : Prop where
  ordered : ∃ age now, kv.Ordered age now
  unique : ∀ s t, kv.Live s → kv.Live t →
    sameBytes n (kv.kvMappingTable s).key (kv.kvMappingTable t).key = true → s = t
  reached : ∀ t, kv.Live t → kv.Leads (kv.getHashSlot (kv.kvMappingTable t).key n) t

theorem Sound.pos (h : kv.Sound n) : 0 < kv.hashSlots := by
  obtain ⟨age, now, hord⟩ := h.ordered
  exact hord.pos

/-- What the search of a key finds. -/
theorem Sound.search_spec (h : kv.Sound n) {cmd : KvCommand} (hlen : cmd.keyLength = n) :
    ∃ found, kv.search cmd = .ok found ∧
      match found with
      | some t => kv.Live t ∧ sameBytes n cmd.key (kv.kvMappingTable t).key = true
      | none => ∀ t, kv.Live t → sameBytes n cmd.key (kv.kvMappingTable t).key = false := by
  obtain ⟨age, now, hord⟩ := h.ordered
  have hslot : kv.getHashSlot cmd.key n < kv.hashSlots := Nat.mod_lt _ hord.pos
  have hfuel := kv.ahead_le age (kv.getHashSlot cmd.key n)
  obtain ⟨found, hrun, hfound⟩ :=
    @Ordered.searchLoop_spec _ n (kv.hashSlots + 1) _ cmd.key _ _ hord hslot (by omega)
  refine ⟨found, by rw [search, hlen, hrun], ?_⟩
  cases found with
  | some t => exact hfound.2
  | none =>
    intro t ht
    by_contra hsame
    have hsame := Bool.eq_true_of_not_eq_false hsame
    have hreach := h.reached t ht
    rw [getHashSlot, ← hashFunction_congr hsame] at hreach
    have hother := hfound t hreach ht
    rw [hsame] at hother
    cases hother

/-! ## Taking a slot -/

theorem setSlot_self (kv : KvFtl) (x : Nat) (e : MappingEntry) :
    (kv.setSlot x e).kvMappingTable x = e := Function.update_self ..

theorem setSlot_of_ne (kv : KvFtl) {x : Nat} (e : MappingEntry) (h : s ≠ x) :
    (kv.setSlot x e).kvMappingTable s = kv.kvMappingTable s := Function.update_of_ne h ..

variable {kv' : KvFtl} {y : Nat} {link : Option Nat}

/-- From `kv` to `kv'` the slot `y` is taken; the slot `link`, the last of its chain, is linked to
it. -/
structure Taken (kv kv' : KvFtl) (y : Nat) (link : Option Nat) : Prop where
  slots : kv'.hashSlots = kv.hashSlots
  lt : y < kv.hashSlots
  dead : ¬ kv.Live y
  offset : (kv'.kvMappingTable y).memOffset ≠ none
  last : (kv'.kvMappingTable y).nextSlot = none
  key : ∀ s, s ≠ y → (kv'.kvMappingTable s).key = (kv.kvMappingTable s).key
  memOffset : ∀ s, s ≠ y → (kv'.kvMappingTable s).memOffset = (kv.kvMappingTable s).memOffset
  next : ∀ s, s ≠ y → (kv'.kvMappingTable s).nextSlot =
    if link = some s then some y else (kv.kvMappingTable s).nextSlot
  link_live : ∀ z, link = some z → kv.Live z
  link_last : ∀ z, link = some z → ∀ u, kv.Next z u → ¬ kv.Live u

/-- The same for a table whose keys may be elsewhere. -/
structure Linked (kv kv' : KvFtl) (y : Nat) (link : Option Nat) : Prop where
  slots : kv'.hashSlots = kv.hashSlots
  lt : y < kv.hashSlots
  dead : ¬ kv.Live y
  offset : (kv'.kvMappingTable y).memOffset ≠ none
  last : (kv'.kvMappingTable y).nextSlot = none
  memOffset : ∀ s, s ≠ y → (kv'.kvMappingTable s).memOffset = (kv.kvMappingTable s).memOffset
  next : ∀ s, s ≠ y → (kv'.kvMappingTable s).nextSlot =
    if link = some s then some y else (kv.kvMappingTable s).nextSlot
  link_live : ∀ z, link = some z → kv.Live z

namespace Linked

theorem live_iff (h : kv.Linked kv' y link) : kv'.Live s ↔ s = y ∨ kv.Live s := by
  unfold Live
  rw [h.slots]
  by_cases hs : s = y
  · subst hs
    exact ⟨fun _ => Or.inl rfl, fun _ => ⟨h.lt, h.offset⟩⟩
  · rw [h.memOffset s hs]
    simp [hs]

theorem ordered (h : kv.Linked kv' y link) (hord : kv.Ordered age now) :
    kv'.Ordered (Function.update age y now) (now + 1) := by
  have hne : ∀ s, kv.Live s → s ≠ y := fun s hs he => h.dead (he ▸ hs)
  refine ⟨h.slots ▸ hord.pos, fun s hs t ht => ?_, fun s hs hnone => ?_, fun s hs => ?_,
    fun s t hst ht => ?_⟩
  · rw [h.slots] at hs ⊢
    by_cases hsy : s = y
    · rw [hsy, h.last] at ht
      cases ht
    · rw [h.next s hsy] at ht
      split at ht
      · cases ht
        exact h.lt
      · exact hord.next_lt s hs t ht
  · rw [h.slots] at hs
    by_cases hsy : s = y
    · rw [hsy] at hnone
      exact absurd hnone h.offset
    · rw [h.memOffset s hsy] at hnone
      rw [h.next s hsy, if_neg]
      · exact hord.blank s hs hnone
      · exact fun he => (h.link_live s he).2 hnone
  · rcases h.live_iff.mp hs with rfl | hs
    · rw [Function.update_self]
      exact Nat.lt_succ_self now
    · rw [Function.update_of_ne (hne s hs)]
      exact (hord.age_lt s hs).trans (Nat.lt_succ_self now)
  · have hsy : s ≠ y := by
      rintro rfl
      have hnext := hst.2
      rw [h.last] at hnext
      cases hnext
    have hlive : kv.Live s := (h.live_iff.mp hst.1).resolve_left hsy
    rw [Function.update_of_ne hsy]
    by_cases hty : t = y
    · rw [hty, Function.update_self]
      exact hord.age_lt s hlive
    · rw [Function.update_of_ne hty]
      have hnext := hst.2
      rw [h.next s hsy] at hnext
      split at hnext
      · cases hnext
        exact absurd rfl hty
      · exact hord.later s t ⟨hlive, hnext⟩ ((h.live_iff.mp ht).resolve_left hty)

end Linked

/-- A slot that is not in use is filled. -/
theorem taken_setSlot {e : MappingEntry} (hy : y < kv.hashSlots) (hdead : ¬ kv.Live y)
    (hoff : e.memOffset ≠ none) (hlast : e.nextSlot = none) :
    kv.Taken (kv.setSlot y e) y none := by
  have hother : ∀ s, s ≠ y → (kv.setSlot y e).kvMappingTable s = kv.kvMappingTable s :=
    fun s hs => setSlot_of_ne _ _ hs
  refine ⟨rfl, hy, hdead, ?_, ?_, fun s hs => by rw [hother s hs], fun s hs => by rw [hother s hs],
    fun s hs => by rw [hother s hs]; simp, by simp, by simp⟩
  · rwa [setSlot_self]
  · rwa [setSlot_self]

/-- A slot that is not in use is filled, and the last slot of a chain is linked to it. -/
theorem taken_chainMapping {e : MappingEntry} (hy : y < kv.hashSlots) (hdead : ¬ kv.Live y)
    (hoff : e.memOffset ≠ none) (hlast : e.nextSlot = none) (hz : kv.Live z)
    (hend : ∀ u, kv.Next z u → ¬ kv.Live u) :
    kv.Taken ((kv.setSlot y e).chainMapping z y) y (some z) := by
  have hzy : z ≠ y := fun he => hdead (he ▸ hz)
  have hother : ∀ s, s ≠ y → ((kv.setSlot y e).chainMapping z y).kvMappingTable s =
      { kv.kvMappingTable s with
        nextSlot := if some z = some s then some y else (kv.kvMappingTable s).nextSlot } := by
    intro s hs
    by_cases hsz : s = z
    · subst hsz
      rw [chainMapping, setSlot_self, setSlot_of_ne _ _ hzy, if_pos rfl]
    · rw [chainMapping, setSlot_of_ne _ _ hsz, setSlot_of_ne _ _ hs,
        if_neg fun he => hsz (Option.some.inj he).symm]
  have hself : ((kv.setSlot y e).chainMapping z y).kvMappingTable y = e := by
    rw [chainMapping, setSlot_of_ne _ _ (Ne.symm hzy), setSlot_self]
  refine ⟨rfl, hy, hdead, ?_, ?_, fun s hs => by rw [hother s hs], fun s hs => by rw [hother s hs],
    fun s hs => by rw [hother s hs], ?_, ?_⟩
  · rwa [hself]
  · rwa [hself]
  · intro z' hz'
    cases hz'
    exact hz
  · intro z' hz'
    cases hz'
    exact hend

namespace Taken

theorem linked (h : kv.Taken kv' y link) : kv.Linked kv' y link :=
  ⟨h.slots, h.lt, h.dead, h.offset, h.last, h.memOffset, h.next, h.link_live⟩

theorem live_iff (h : kv.Taken kv' y link) : kv'.Live s ↔ s = y ∨ kv.Live s := h.linked.live_iff

/-- The chains keep leading to the slots in use. -/
theorem leads (h : kv.Taken kv' y link) (hleads : kv.Leads s t) (ht : kv.Live t) :
    kv'.Leads s t := by
  induction hleads using Relation.ReflTransGen.head_induction_on with
  | refl => exact .refl
  | head hab hbt ih =>
    rename_i a b
    have hay : a ≠ y := fun he => h.dead (he ▸ hab.1)
    have hlive : kv.Live b := by
      cases hbt.cases_head with
      | inl heq => exact heq ▸ ht
      | inr hstep =>
        obtain ⟨c, hc, -⟩ := hstep
        exact hc.1
    have hlink : link ≠ some a := fun he => h.link_last a he b hab hlive
    refine ih.head ⟨h.live_iff.mpr (Or.inr hab.1), ?_⟩
    rw [h.next a hay, if_neg hlink]
    exact hab.2

theorem ordered (h : kv.Taken kv' y link) (hord : kv.Ordered age now) :
    kv'.Ordered (Function.update age y now) (now + 1) := h.linked.ordered hord

/-- The new slot lies behind the one that is linked to it. -/
theorem leads_new (h : kv.Taken kv' y link)
    (hreach : s = y ∨ ∃ z, link = some z ∧ kv.Leads s z) : kv'.Leads s y := by
  rcases hreach with rfl | ⟨z, hz, hleads⟩
  · exact .refl
  · have hlive := h.link_live z hz
    have hzy : z ≠ y := fun he => h.dead (he ▸ hlive)
    apply (h.leads hleads hlive).tail
    refine ⟨h.live_iff.mpr (Or.inr hlive), ?_⟩
    rw [h.next z hzy, if_pos hz]

/-- A key that was not stored takes the slot that its search ends with. -/
theorem sound (h : kv.Taken kv' y link) (hs : kv.Sound n)
    (hfresh : ∀ t, kv.Live t →
      sameBytes n (kv'.kvMappingTable y).key (kv.kvMappingTable t).key = false)
    (hreach : kv'.getHashSlot (kv'.kvMappingTable y).key n = y ∨
      ∃ z, link = some z ∧ kv.Leads (kv'.getHashSlot (kv'.kvMappingTable y).key n) z) :
    kv'.Sound n := by
  obtain ⟨age, now, hord⟩ := hs.ordered
  have hne : ∀ s, kv.Live s → s ≠ y := fun s hs he => h.dead (he ▸ hs)
  refine ⟨⟨_, _, h.ordered hord⟩, fun s t hsl htl hsame => ?_, fun t ht => ?_⟩
  · rcases h.live_iff.mp hsl with rfl | hsl
    · rcases h.live_iff.mp htl with rfl | htl
      · rfl
      · rw [h.key t (hne t htl), hfresh t htl] at hsame
        cases hsame
    · rcases h.live_iff.mp htl with rfl | htl
      · rw [h.key s (hne s hsl)] at hsame
        have hsym : sameBytes n (kv'.kvMappingTable t).key (kv.kvMappingTable s).key = true := by
          rw [sameBytes_iff] at hsame ⊢
          exact fun i hi => (hsame i hi).symm
        rw [hfresh s hsl] at hsym
        cases hsym
      · rw [h.key s (hne s hsl), h.key t (hne t htl)] at hsame
        exact hs.unique s t hsl htl hsame
  · rcases h.live_iff.mp ht with rfl | ht
    · exact h.leads_new hreach
    · have hreached := h.leads (hs.reached t ht) ht
      rw [h.key t (hne t ht), getHashSlot, h.slots]
      exact hreached

end Taken

/-! ## Blanking a slot -/

/-- The search of the key in slot `t` passes through the slot `x` before it comes to `t`. -/
def Behind (kv : KvFtl) (n x t : Nat) : Prop :=
  t ≠ x ∧ kv.Leads (kv.getHashSlot (kv.kvMappingTable t).key n) x ∧ kv.Leads x t

variable {x : Nat}

theorem live_blank : (kv.setSlot x .blank).Live s ↔ s ≠ x ∧ kv.Live s := by
  unfold Live
  by_cases hs : s = x
  · subst hs
    simp [setSlot_self, MappingEntry.blank]
  · rw [setSlot_of_ne _ _ hs]
    simp [hs, setSlot]

theorem next_blank {u : Nat} : (kv.setSlot x .blank).Next s u ↔ s ≠ x ∧ kv.Next s u := by
  unfold Next
  rw [live_blank, and_assoc]
  constructor
  · rintro ⟨hs, hlive, hnext⟩
    rw [setSlot_of_ne _ _ hs] at hnext
    exact ⟨hs, hlive, hnext⟩
  · rintro ⟨hs, hlive, hnext⟩
    rw [setSlot_of_ne _ _ hs]
    exact ⟨hs, hlive, hnext⟩

/-- A chain that does not pass through the blanked slot stays. -/
theorem leads_blank (hleads : kv.Leads s t) (havoid : ¬ (kv.Leads s x ∧ kv.Leads x t)) :
    (kv.setSlot x .blank).Leads s t := by
  induction hleads using Relation.ReflTransGen.head_induction_on with
  | refl => exact .refl
  | head hab hbt ih =>
    rename_i a b
    have hax : a ≠ x := by
      rintro rfl
      exact havoid ⟨.refl, hbt.head hab⟩
    refine (ih fun hboth => havoid ⟨hboth.1.head hab, hboth.2⟩).head ?_
    exact next_blank.mpr ⟨hax, hab⟩

/-- Slots on a chain come in the order in which they were taken. -/
theorem Ordered.age_le (h : kv.Ordered age now) (hleads : kv.Leads s t) (ht : kv.Live t) :
    s = t ∨ age s < age t := by
  induction hleads using Relation.ReflTransGen.head_induction_on with
  | refl => exact Or.inl rfl
  | head hab hbt ih =>
    rename_i a b
    have hlive : kv.Live b := by
      cases hbt.cases_head with
      | inl heq => exact heq ▸ ht
      | inr hstep =>
        obtain ⟨c, hc, -⟩ := hstep
        exact hc.1
    have hlt := h.later a b hab hlive
    rcases ih with rfl | ih
    · exact Or.inr hlt
    · exact Or.inr (hlt.trans ih)

/-- A chain that passes through the blanked slot ends there. -/
theorem Ordered.not_leads_blank (h : kv.Ordered age now) (hx : kv.Live x) (ht : kv.Live t)
    (hne : t ≠ x) (hsx : kv.Leads s x) (hxt : kv.Leads x t) :
    ¬ (kv.setSlot x .blank).Leads s t := by
  induction hsx using Relation.ReflTransGen.head_induction_on with
  | refl =>
    intro hleads
    exact hne (leads_of_end (fun u hu => (next_blank.mp hu).1 rfl) hleads)
  | head hab hbx ih =>
    rename_i a b
    intro hleads
    cases hleads.cases_head with
    | inl heq =>
      subst heq
      have h1 := h.age_le (hbx.head hab) hx
      have h2 := h.age_le hxt ht
      rcases h1 with heq | h1
      · exact hne heq
      · rcases h2 with heq | h2
        · exact hne heq.symm
        · omega
    | inr hstep =>
      obtain ⟨c, hc, hrest⟩ := hstep
      have heq := hab.2.symm.trans (next_blank.mp hc).2.2
      cases heq
      exact ih hrest

theorem Ordered.blanked (h : kv.Ordered age now) :
    (kv.setSlot x .blank).Ordered age now := by
  refine ⟨h.pos, fun s hs t ht => ?_, fun s hs hnone => ?_,
    fun s hs => h.age_lt s (live_blank.mp hs).2,
    fun s t hst ht => h.later s t (next_blank.mp hst).2 (live_blank.mp ht).2⟩
  · by_cases hsx : s = x
    · rw [hsx, setSlot_self] at ht
      cases ht
    · rw [setSlot_of_ne _ _ hsx] at ht
      exact h.next_lt s hs t ht
  · by_cases hsx : s = x
    · rw [hsx, setSlot_self]
      rfl
    · rw [setSlot_of_ne _ _ hsx] at hnone ⊢
      exact h.blank s hs hnone

/-- Blanking a slot keeps the other keys reachable exactly when none is behind it. -/
theorem Sound.blanked_iff (h : kv.Sound n) (hx : kv.Live x) :
    (kv.setSlot x .blank).Sound n ↔ ∀ t, kv.Live t → ¬ kv.Behind n x t := by
  obtain ⟨age, now, hord⟩ := h.ordered
  have hkey : ∀ {t}, t ≠ x → (kv.setSlot x .blank).getHashSlot
      ((kv.setSlot x .blank).kvMappingTable t).key n =
      kv.getHashSlot (kv.kvMappingTable t).key n := by
    intro t ht
    rw [setSlot_of_ne _ _ ht]
    rfl
  constructor
  · rintro hs t ht ⟨hne, hsx, hxt⟩
    have hreach := hs.reached t (live_blank.mpr ⟨hne, ht⟩)
    rw [hkey hne] at hreach
    exact hord.not_leads_blank hx ht hne hsx hxt hreach
  · intro halone
    refine ⟨⟨age, now, hord.blanked⟩, fun s t hs ht hsame => ?_, fun t ht => ?_⟩
    · obtain ⟨hsx, hs⟩ := live_blank.mp hs
      obtain ⟨htx, ht⟩ := live_blank.mp ht
      rw [setSlot_of_ne _ _ hsx, setSlot_of_ne _ _ htx] at hsame
      exact h.unique s t hs ht hsame
    · obtain ⟨htx, ht⟩ := live_blank.mp ht
      rw [hkey htx]
      exact leads_blank (h.reached t ht) fun hboth => halone t ht ⟨htx, hboth.1, hboth.2⟩

end KvFtl

end NvmeVirt
