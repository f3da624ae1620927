import NvmeVirt.Kv.Steps

/-!
# What a store writes over

A store of a key that has an entry writes at the offset of the entry with the length of the new
value, and notes the new length only if both lengths are small. So it is exact when the range that it
writes meets the value of no other key, and the length is noted or has not changed.
-/

namespace NvmeVirt

open Checked

/-- The command with another value of the same length. -/
def KvCommand.withData (cmd : KvCommand) (data : Nat → UInt8) : KvCommand := { cmd with data }

namespace KvFtl

variable {kv kv' : KvFtl} {cmd probe : KvCommand} {n t o len : Nat}

/-! ## The reply to a retrieve -/

/-- The reply to a command. -/
def reply (kv : KvFtl) (cmd : KvCommand) : Except KvFault KvResult :=
  (kv.doPerformKvIo cmd kvSuccess).map Prod.fst

/-- A retrieve of a key that is found. -/
theorem reply_found (hop : cmd.opcode = .retrieve) (hsearch : kv.search cmd = .ok (some t))
    (ho : (kv.kvMappingTable t).memOffset = some o) : kv.reply cmd = .ok
      { result0 := min (kv.kvMappingTable t).length cmd.valueLength
        status := kvSuccess
        data := bytesAt kv.storage o (min (kv.kvMappingTable t).length cmd.valueLength) } := by
  rw [reply, doPerformKvIo, getMappingEntry_eq hsearch, ok_bind]
  simp only [Option.bind_some, ho, Option.map_some, hop]
  rfl

/-- A retrieve of a key that is not found. -/
theorem reply_missing (hop : cmd.opcode = .retrieve) (hsearch : kv.search cmd = .ok none) :
    kv.reply cmd = .ok (.done kvErrKeyNotExist) := by
  rw [reply, doPerformKvIo, getMappingEntry_eq hsearch, ok_bind]
  simp only [Option.bind_none, hop]
  rfl

/-- The search finds the one slot that holds the key. -/
theorem Sound.search_eq (h : kv.Sound n) (hlen : cmd.keyLength = n) (ht : kv.Live t)
    (hsame : sameBytes n cmd.key (kv.kvMappingTable t).key = true) :
    kv.search cmd = .ok (some t) := by
  obtain ⟨found, hrun, hfound⟩ := h.search_spec hlen
  cases found with
  | none =>
    have hother := hfound t ht
    rw [hsame] at hother
    cases hother
  | some s =>
    obtain ⟨hs, hsame'⟩ := hfound
    have heq : s = t := by
      apply h.unique s t hs ht
      rw [sameBytes_iff] at hsame hsame' ⊢
      exact fun i hi => (hsame' i hi).symm.trans (hsame i hi)
    rw [hrun, heq]

/-! ## What a store does -/

/-- Where a store writes: at the entry of its key, or behind everything that was allocated. -/
def writeOffset (kv : KvFtl) (cmd : KvCommand) : Nat :=
  match kv.search cmd with
  | .ok (some t) => (kv.kvMappingTable t).memOffset.getD kv.latest
  | _ => kv.latest

/-- The length that the entry has after a store. -/
def notedLength (kv : KvFtl) (cmd : KvCommand) : Nat :=
  match kv.search cmd with
  | .ok (some t) =>
    if cmd.valueLength ≠ (kv.kvMappingTable t).length ∧ cmd.valueLength ≤ smallLength ∧
        (kv.kvMappingTable t).length ≤ smallLength then cmd.valueLength
    else (kv.kvMappingTable t).length
  | _ => cmd.valueLength

/-- From `kv` to `kv'` a value is stored in slot `t`; the other entries stay. -/
structure Stores (kv kv' : KvFtl) (cmd : KvCommand) (t : Nat) : Prop where
  sound : kv'.Sound cmd.keyLength
  live : kv'.Live t
  key : sameBytes cmd.keyLength cmd.key (kv'.kvMappingTable t).key = true
  offset : (kv'.kvMappingTable t).memOffset = some (kv.writeOffset cmd)
  length : (kv'.kvMappingTable t).length = kv.notedLength cmd
  old : kv.Live t → sameBytes cmd.keyLength cmd.key (kv.kvMappingTable t).key = true
  live_iff : ∀ s, s ≠ t → (kv'.Live s ↔ kv.Live s)
  entry : ∀ s, s ≠ t → (kv'.kvMappingTable s).key = (kv.kvMappingTable s).key ∧
    (kv'.kvMappingTable s).memOffset = (kv.kvMappingTable s).memOffset ∧
    (kv'.kvMappingTable s).length = (kv.kvMappingTable s).length
  storage : kv'.storage = memcpyAt kv.storage (kv.writeOffset cmd) cmd.data cmd.valueLength

/-- The keys stay sound while the chains do. -/
theorem SameChains.sound (h : kv.SameChains kv') (hs : kv.Sound n) : kv'.Sound n := by
  obtain ⟨age, now, hord⟩ := hs.ordered
  constructor
  · exact ⟨age, now, h.ordered hord⟩
  · intro s t hsl htl hsame
    rw [h.key, h.key] at hsame
    exact hs.unique s t ((h.live_iff s).mp hsl) ((h.live_iff t).mp htl) hsame
  · intro t ht
    rw [h.key, h.leads_iff, getHashSlot, h.hashSlots]
    exact hs.reached t ((h.live_iff t).mp ht)

/-- A store of a key that has an entry. -/
theorem Sound.stores_old (h : kv.Sound cmd.keyLength) (hop : cmd.opcode = .store)
    (hsearch : kv.search cmd = .ok (some t)) (ht : kv.Live t)
    (hsame : sameBytes cmd.keyLength cmd.key (kv.kvMappingTable t).key = true) :
    ∃ kv', kv.step cmd = .ok kv' ∧ kv.Stores kv' cmd t := by
  obtain ⟨o, ho⟩ := ht.exists_offset
  have hoff : kv.writeOffset cmd = o := by
    simp only [writeOffset, hsearch, ho, Option.getD_some]
  have hsearch' : ({ kv with storage := memcpyAt kv.storage o cmd.data cmd.valueLength } :
      KvFtl).search cmd = .ok (some t) :=
    (h.withData kv.latest (memcpyAt kv.storage o cmd.data cmd.valueLength)).search_eq rfl ht hsame
  have hstep : kv.step cmd = .ok (({ kv with
      storage := memcpyAt kv.storage o cmd.data cmd.valueLength } : KvFtl).setSlot t
        { kv.kvMappingTable t with length := kv.notedLength cmd }) := by
    rw [step, doPerformKvIo, getMappingEntry_eq hsearch, ok_bind, Option.bind_some, ho,
      Option.map_some]
    simp only [hop, notedLength, hsearch]
    split_ifs with hlength
    · rw [updateMappingEntry, hsearch']
      rfl
    · have heta : (⟨(kv.kvMappingTable t).key, (kv.kvMappingTable t).memOffset,
          (kv.kvMappingTable t).length, (kv.kvMappingTable t).nextSlot⟩ : MappingEntry) =
          kv.kvMappingTable t := rfl
      simp only [setSlot, heta, Function.update_eq_self]
      rfl
  refine ⟨_, hstep, ?_⟩
  have hchains : kv.SameChains (({ kv with
      storage := memcpyAt kv.storage o cmd.data cmd.valueLength } : KvFtl).setSlot t
        { kv.kvMappingTable t with length := kv.notedLength cmd }) := by
    have hset := @sameChains_setSlot { kv with
      storage := memcpyAt kv.storage o cmd.data cmd.valueLength } t
        { kv.kvMappingTable t with length := kv.notedLength cmd } rfl rfl rfl
    exact ⟨hset.hashSlots, hset.key, hset.memOffset, hset.nextSlot⟩
  constructor
  · exact hchains.sound h
  · exact (hchains.live_iff t).mpr ht
  · rwa [hchains.key]
  · rw [hchains.memOffset, ho, hoff]
  · rw [setSlot_self]
  · exact fun _ => hsame
  · exact fun s _ => hchains.live_iff s
  · intro s hs
    rw [setSlot_of_ne _ _ hs]
    exact ⟨rfl, rfl, rfl⟩
  · rw [hoff]
    rfl

/-- A store of a new key. -/
theorem Sound.stores_new (h : kv.Sound cmd.keyLength) (hop : cmd.opcode = .store)
    (hsearch : kv.search cmd = .ok none)
    (hfresh : ∀ t, kv.Live t → sameBytes cmd.keyLength cmd.key (kv.kvMappingTable t).key = false)
    (hstep : kv.step cmd = .ok kv') : ∃ t, kv.Stores kv' cmd t := by
  obtain ⟨age, now, hord⟩ := h.ordered
  have hoff : kv.writeOffset cmd = kv.latest := by
    simp only [writeOffset, hsearch]
  obtain ⟨y, link, hins⟩ := hord.step_new hsearch hop hstep
  have hchains := kv.sameChains_allocated cmd
  have hkey : sameBytes cmd.keyLength (kv'.kvMappingTable y).key cmd.key = true := by
    rw [hins.newKey]
    exact sameBytes_memcpy ..
  have hkey' : sameBytes cmd.keyLength cmd.key (kv'.kvMappingTable y).key = true := by
    rw [sameBytes_iff] at hkey ⊢
    exact fun i hi => (hkey i hi).symm
  refine ⟨y, ?_⟩
  constructor
  · apply hins.toTaken.sound (hchains.sound h)
    · intro t ht
      have hother := hfresh t ht
      by_contra hne
      have hsame := Bool.eq_true_of_not_eq_false hne
      rw [sameBytes_iff] at hkey' hsame
      have htrans : sameBytes cmd.keyLength cmd.key (kv.kvMappingTable t).key = true :=
        sameBytes_iff.mpr fun i hi => (hkey' i hi).trans (hsame i hi)
      rw [hother] at htrans
      cases htrans
    · rw [getHashSlot, hashFunction_congr hkey, hins.slots]
      exact hins.reach
  · exact hins.live_iff.mpr (Or.inl rfl)
  · exact hkey'
  · rw [hins.newOffset, hoff]
  · rw [hins.newLength]
    simp only [notedLength, hsearch]
  · exact fun ht => absurd ((hchains.live_iff y).mpr ht) hins.dead
  · intro s hs
    rw [hins.live_iff, hchains.live_iff]
    exact or_iff_right hs
  · intro s hs
    exact ⟨hins.key s hs, hins.memOffset s hs, hins.length s hs⟩
  · rw [hins.storage, hoff]
    rfl

/-- What a store of a key does, whether it is found or not. -/
theorem Sound.stores (h : kv.Sound cmd.keyLength) (hop : cmd.opcode = .store)
    (hstep : kv.step cmd = .ok kv') : ∃ t, kv.Stores kv' cmd t := by
  obtain ⟨found, hsearch, hfound⟩ := h.search_spec rfl
  cases found with
  | none => exact h.stores_new hop hsearch hfound hstep
  | some t =>
    obtain ⟨kv₁, hrun, hstores⟩ := h.stores_old hop hsearch hfound.1 hfound.2
    cases hstep.symm.trans hrun
    exact ⟨t, hstores⟩

/-! ## What a store damages -/

/-- No address is in both ranges. -/
def Apart (o m p n : Nat) : Prop := ∀ a, ¬ (o ≤ a ∧ a < o + m ∧ p ≤ a ∧ a < p + n)

/-- A store leaves the replies to retrieves of all other keys as they were, and a retrieve of its key
returns the new value. -/
def StoreExact (kv : KvFtl) (cmd : KvCommand) : Prop :=
  ∀ kv', kv.step cmd = .ok kv' → ∀ probe : KvCommand, probe.opcode = .retrieve →
    probe.keyLength = cmd.keyLength →
      (keyBytes cmd.keyLength probe.key ≠ keyBytes cmd.keyLength cmd.key →
        kv'.reply probe = kv.reply probe) ∧
      (keyBytes cmd.keyLength probe.key = keyBytes cmd.keyLength cmd.key →
        cmd.valueLength ≤ probe.valueLength → kv'.reply probe = .ok
          { result0 := cmd.valueLength
            status := kvSuccess
            data := bytesAt cmd.data 0 cmd.valueLength })

/-- The range that a store writes meets the value of no other key, and the length of the new value is
the one that is noted, or is small and replaces a small one. -/
structure StoreFits (kv : KvFtl) (cmd : KvCommand) : Prop where
  apart : ∀ t p, kv.Live t → sameBytes cmd.keyLength cmd.key (kv.kvMappingTable t).key = false →
    (kv.kvMappingTable t).memOffset = some p →
    Apart (kv.writeOffset cmd) cmd.valueLength p (kv.kvMappingTable t).length
  length : ∀ t, kv.search cmd = .ok (some t) → cmd.valueLength = (kv.kvMappingTable t).length ∨
    (cmd.valueLength ≤ smallLength ∧ (kv.kvMappingTable t).length ≤ smallLength)

/-- What is written apart from a range leaves its bytes. -/
theorem bytesAt_memcpyAt_of_apart (a b : Nat → UInt8) {o m p n k : Nat} (h : Apart o m p n)
    (hk : k ≤ n) : bytesAt (memcpyAt a o b m) p k = bytesAt a p k := by
  apply bytesAt_congr
  intro i hi
  rw [memcpyAt, if_neg]
  rintro ⟨hle, hlt⟩
  exact h (p + i) ⟨hle, hlt, by omega, by omega⟩

/-- The key of the slot in which a store ends is the one it stores. -/
theorem Stores.ne_of_key {kv kv' : KvFtl} {s : Nat} (h : kv.Stores kv' cmd t) (hs : kv.Live s)
    (hother : sameBytes cmd.keyLength cmd.key (kv.kvMappingTable s).key = false) : s ≠ t := by
  rintro rfl
  rw [h.old hs] at hother
  cases hother

/-- A retrieve of another key. -/
theorem Stores.reply_other (h : kv.Sound cmd.keyLength) (hst : kv.Stores kv' cmd t)
    (hop : probe.opcode = .retrieve) (hlen : probe.keyLength = cmd.keyLength)
    (hkey : keyBytes cmd.keyLength probe.key ≠ keyBytes cmd.keyLength cmd.key) :
    (kv'.reply probe = kv.reply probe) ∨ ∃ s p, kv.Live s ∧
      sameBytes cmd.keyLength cmd.key (kv.kvMappingTable s).key = false ∧
      (kv.kvMappingTable s).memOffset = some p ∧
      kv.reply probe = .ok
        { result0 := min (kv.kvMappingTable s).length probe.valueLength
          status := kvSuccess
          data := bytesAt kv.storage p (min (kv.kvMappingTable s).length probe.valueLength) } ∧
      kv'.reply probe = .ok
        { result0 := min (kv.kvMappingTable s).length probe.valueLength
          status := kvSuccess
          data := bytesAt kv'.storage p (min (kv.kvMappingTable s).length probe.valueLength) } := by
  obtain ⟨found, hsearch, hfound⟩ := h.search_spec hlen
  cases found with
  | none =>
    left
    obtain ⟨found', hsearch', hfound'⟩ := hst.sound.search_spec hlen
    cases found' with
    | none => rw [reply_missing hop hsearch, reply_missing hop hsearch']
    | some s =>
      obtain ⟨hs, hsame⟩ := hfound'
      have hst' : s ≠ t := by
        rintro rfl
        have hown := keyBytes_eq_iff.mpr hst.key
        exact hkey ((keyBytes_eq_iff.mpr hsame).trans hown.symm)
      have hnone := hfound s ((hst.live_iff s hst').mp hs)
      rw [← (hst.entry s hst').1, hsame] at hnone
      cases hnone
  | some s =>
    right
    obtain ⟨hs, hsame⟩ := hfound
    have hother : sameBytes cmd.keyLength cmd.key (kv.kvMappingTable s).key = false := by
      by_contra hne
      have hown := keyBytes_eq_iff.mpr (Bool.eq_true_of_not_eq_false hne)
      exact hkey ((keyBytes_eq_iff.mpr hsame).trans hown.symm)
    have hne := hst.ne_of_key hs hother
    obtain ⟨p, hp⟩ := hs.exists_offset
    obtain ⟨hk, hoff, hl⟩ := hst.entry s hne
    have hs' := (hst.live_iff s hne).mpr hs
    have hsearch' : kv'.search probe = .ok (some s) := by
      apply hst.sound.search_eq hlen hs'
      rw [hk]
      exact hsame
    refine ⟨s, p, hs, hother, hp, reply_found hop hsearch hp, ?_⟩
    rw [reply_found hop hsearch' (hoff.trans hp), hl]

/-- A retrieve of the key that was stored. -/
theorem Stores.reply_own (hst : kv.Stores kv' cmd t) (hop : probe.opcode = .retrieve)
    (hlen : probe.keyLength = cmd.keyLength)
    (hkey : keyBytes cmd.keyLength probe.key = keyBytes cmd.keyLength cmd.key) :
    kv'.reply probe = .ok
      { result0 := min (kv.notedLength cmd) probe.valueLength
        status := kvSuccess
        data := bytesAt kv'.storage (kv.writeOffset cmd)
          (min (kv.notedLength cmd) probe.valueLength) } := by
  have hsearch : kv'.search probe = .ok (some t) := by
    apply hst.sound.search_eq hlen hst.live
    rw [← keyBytes_eq_iff, hkey]
    exact keyBytes_eq_iff.mpr hst.key
  rw [reply_found hop hsearch hst.offset, hst.length]

/-- A store that fits is exact. -/
theorem StoreFits.exact (h : kv.Sound cmd.keyLength) (hop : cmd.opcode = .store)
    (hfits : kv.StoreFits cmd) : kv.StoreExact cmd := by
  intro kv' hstep probe hprobe hlen
  obtain ⟨t, hst⟩ := h.stores hop hstep
  constructor
  · intro hkey
    rcases hst.reply_other h hprobe hlen hkey with heq | ⟨s, p, hs, hother, hp, hold, hnew⟩
    · exact heq
    · rw [hold, hnew, hst.storage,
        bytesAt_memcpyAt_of_apart _ _ (hfits.apart s p hs hother hp) (Nat.min_le_left ..)]
  · intro hkey hroom
    have hnoted : kv.notedLength cmd = cmd.valueLength := by
      unfold notedLength
      split
      · next s hsearch =>
        rcases hfits.length s hsearch with heq | ⟨hsmall, hsmall'⟩
        · rw [if_neg fun hc => hc.1 heq, heq]
        · split_ifs with hc
          · rfl
          · by_contra hne
            exact hc ⟨Ne.symm hne, hsmall, hsmall'⟩
      · rfl
    rw [hst.reply_own hprobe hlen hkey, hnoted, Nat.min_eq_left hroom, hst.storage,
      bytesAt_memcpyAt]

/-! ## Other values -/

/-- Every length in the table is that of a command. -/
def Lengths (kv : KvFtl) : Prop :=
  ∀ t, kv.Live t → ∃ words, (kv.kvMappingTable t).length = u32 (words * 4)

theorem Stores.lengths (hst : kv.Stores kv' cmd t) (h : kv.Sound cmd.keyLength)
    (hl : kv.Lengths) : kv'.Lengths := by
  intro s hs
  by_cases hne : s = t
  · subst hne
    rw [hst.length]
    unfold notedLength
    obtain ⟨found, hsearch, hfound⟩ := h.search_spec rfl
    cases found with
    | none =>
      rw [hsearch]
      exact ⟨cmd.valueLen, rfl⟩
    | some u =>
      rw [hsearch]
      dsimp only
      split_ifs
      · exact ⟨cmd.valueLen, rfl⟩
      · exact hl u hfound.1
  · rw [(hst.entry s hne).2.2]
    exact hl s ((hst.live_iff s hne).mp hs)

/-- A retrieve of a key with room for a value of `4 * words` bytes. -/
def retrieveOf (key : Nat → UInt8) (keyLen words : Nat) : KvCommand :=
  { opcode := .retrieve, key, keyLen, valueLen := words, data := fun _ => 0 }

end KvFtl

end NvmeVirt
