import NvmeVirt.Kv.Refinement

/-!
# What a command does to the chains

A store of a key that is not found creates an entry. Every other command that is no delete keeps the
keys, the offsets and the links of all entries.
-/

namespace NvmeVirt

open Checked

namespace KvFtl

variable {kv kv' : KvFtl} {cmd : KvCommand}

/-- Two tables with the same keys, offsets and links. -/
structure SameChains (kv kv' : KvFtl) : Prop where
  hashSlots : kv'.hashSlots = kv.hashSlots
  key : ∀ s, (kv'.kvMappingTable s).key = (kv.kvMappingTable s).key
  memOffset : ∀ s, (kv'.kvMappingTable s).memOffset = (kv.kvMappingTable s).memOffset
  nextSlot : ∀ s, (kv'.kvMappingTable s).nextSlot = (kv.kvMappingTable s).nextSlot

namespace SameChains

theorem live_iff (h : kv.SameChains kv') (s : Nat) : kv'.Live s ↔ kv.Live s := by
  rw [Live, Live, h.hashSlots, h.memOffset]

theorem next_iff (h : kv.SameChains kv') (s t : Nat) : kv'.Next s t ↔ kv.Next s t := by
  rw [Next, Next, h.live_iff, h.nextSlot]

theorem leads_iff (h : kv.SameChains kv') (s t : Nat) : kv'.Leads s t ↔ kv.Leads s t := by
  have hnext : kv'.Next = kv.Next := funext₂ fun s t => propext (h.next_iff s t)
  rw [Leads, Leads, hnext]

theorem ordered {age : Nat → Nat} {now : Nat} (h : kv.SameChains kv') (hord : kv.Ordered age now) :
    kv'.Ordered age now := hord.congr h.hashSlots h.memOffset h.nextSlot

end SameChains

/-- Storing an entry with the same key, offset and link. -/
theorem sameChains_setSlot {s : Nat} {e : MappingEntry} (hkey : e.key = (kv.kvMappingTable s).key)
    (hoff : e.memOffset = (kv.kvMappingTable s).memOffset)
    (hnext : e.nextSlot = (kv.kvMappingTable s).nextSlot) : kv.SameChains (kv.setSlot s e) := by
  have hsplit : ∀ u, (kv.setSlot s e).kvMappingTable u =
      if u = s then e else kv.kvMappingTable u := fun u => Function.update_apply ..
  constructor
  · rfl
  all_goals
    intro u
    rw [hsplit]
    split_ifs with hu
    · subst hu
      assumption
    · rfl

theorem updateMappingEntry_sameChains (h : kv.updateMappingEntry cmd = .ok kv') :
    kv.SameChains kv' := by
  obtain ⟨found, -, h⟩ := bind_eq_ok.mp h
  cases found with
  | none =>
    cases h
    exact ⟨rfl, fun _ => rfl, fun _ => rfl, fun _ => rfl⟩
  | some s =>
    cases h
    exact sameChains_setSlot rfl rfl rfl

/-- A command that neither creates an entry nor deletes one keeps the chains. -/
theorem step_sameChains {found : Option Nat} (hsearch : kv.search cmd = .ok found)
    (hdel : cmd.opcode ≠ .delete) (hold : cmd.opcode = .store → found.isSome = true)
    (hlive : ∀ t, found = some t → kv.Live t) (h : kv.step cmd = .ok kv') : kv.SameChains kv' := by
  have hrefl : kv.SameChains kv := ⟨rfl, fun _ => rfl, fun _ => rfl, fun _ => rfl⟩
  obtain ⟨⟨reply, kv₁⟩, hrun, h⟩ := bind_eq_ok.mp h
  cases h
  rw [doPerformKvIo, getMappingEntry_eq hsearch, ok_bind] at hrun
  cases found with
  | none =>
    cases hop : cmd.opcode with
    | store => exact absurd (hold hop) (by simp)
    | delete => exact absurd hop hdel
    | retrieve | exist | other =>
      simp only [hop, Option.bind_none] at hrun
      cases hrun
      exact hrefl
  | some t =>
    obtain ⟨o, ho⟩ := (hlive t rfl).exists_offset
    simp only [Option.bind_some, ho, Option.map_some] at hrun
    cases hop : cmd.opcode with
    | store =>
      simp only [hop] at hrun
      split at hrun
      · obtain ⟨kv₂, hupd, hrun⟩ := bind_eq_ok.mp hrun
        cases hrun
        have hsame := updateMappingEntry_sameChains hupd
        exact ⟨hsame.hashSlots, hsame.key, hsame.memOffset, hsame.nextSlot⟩
      · cases hrun
        exact ⟨rfl, fun _ => rfl, fun _ => rfl, fun _ => rfl⟩
    | delete => exact absurd hop hdel
    | retrieve | exist | other =>
      simp only [hop] at hrun
      cases hrun
      exact hrefl

/-- A new entry is created only if a slot is free. -/
theorem Ordered.exists_free {age : Nat → Nat} {now valOffset : Nat} (hord : kv.Ordered age now)
    (h : kv.newMappingEntry cmd valOffset = .ok kv') : ∃ e < kv.hashSlots, ¬ kv.Live e := by
  have hslot : kv.getHashSlot cmd.key cmd.keyLength < kv.hashSlots := Nat.mod_lt _ hord.pos
  obtain ⟨_, -, h⟩ := bind_eq_ok.mp h
  dsimp only at h
  by_cases hmem : (kv.kvMappingTable (kv.getHashSlot cmd.key cmd.keyLength)).memOffset = none
  · exact ⟨_, hslot, fun hlive => hlive.2 hmem⟩
  · rw [if_neg hmem] at h
    obtain ⟨⟨y, z⟩, hfind, -⟩ := bind_eq_ok.mp h
    obtain ⟨hy, hdead, -⟩ := hord.findNextSlot_spec ⟨hslot, hmem⟩ hfind
    exact ⟨y, hy, hdead⟩

/-- The store behind the allocation of a new value and its copy. -/
def allocated (kv : KvFtl) (cmd : KvCommand) : KvFtl :=
  { kv with
    latest := u64 (kv.latest + cmd.valueLength)
    storage := memcpyAt kv.storage kv.latest cmd.data cmd.valueLength }

theorem sameChains_allocated (kv : KvFtl) (cmd : KvCommand) : kv.SameChains (kv.allocated cmd) :=
  ⟨rfl, fun _ => rfl, fun _ => rfl, fun _ => rfl⟩

/-- A store of a key that is not found is one new entry. -/
theorem step_new_eq (hsearch : kv.search cmd = .ok none) (hop : cmd.opcode = .store) :
    kv.step cmd = (kv.allocated cmd).newMappingEntry cmd kv.latest := by
  rw [step, doPerformKvIo, getMappingEntry_eq hsearch, ok_bind]
  simp only [hop, Option.bind_none, allocateMemOffset]
  change ((kv.allocated cmd).newMappingEntry cmd kv.latest >>= fun kv => _) >>= _ = _
  cases (kv.allocated cmd).newMappingEntry cmd kv.latest <;> rfl

/-- A store of a key that is not found creates an entry. -/
theorem Ordered.step_new {age : Nat → Nat} {now : Nat} (hord : kv.Ordered age now)
    (hsearch : kv.search cmd = .ok none) (hop : cmd.opcode = .store) (h : kv.step cmd = .ok kv') :
    ∃ y link, (kv.allocated cmd).Inserted kv' cmd kv.latest y link := by
  rw [step_new_eq hsearch hop] at h
  have hmid := (kv.sameChains_allocated cmd).ordered hord
  obtain ⟨_, hoff, -⟩ := bind_eq_ok.mp h
  obtain ⟨kv₁, y, link, hnew, hins⟩ :=
    hmid.newMappingEntry cmd (require_eq_ok.mp hoff) (hmid.exists_free h)
  cases h.symm.trans hnew
  exact ⟨y, link, hins⟩

end KvFtl

end NvmeVirt
