import NvmeVirt.Kv.Chains

/-!
# The store as a finite map

With keys of one length and values of one length the table represents a map from keys to values.
Storing and looking up agree with the map in every state; deleting does as long as no other key
lies behind the one that is deleted.
-/

namespace NvmeVirt

open Checked

variable {kv kv' : KvFtl} {n L : Nat} {cmd : KvCommand} {M : List UInt8 → Option (List UInt8)}
  {t : Nat}

/-! ## Bytes -/

/-- The `n` bytes of a key. -/
def keyBytes (n : Nat) (key : Nat → UInt8) : List UInt8 := bytesAt key 0 n

theorem bytesAt_congr {a b : Nat → UInt8} {i j n : Nat} (h : ∀ k < n, a (i + k) = b (j + k)) :
    bytesAt a i n = bytesAt b j n := by
  apply List.map_congr_left
  intro k hk
  exact h k (List.mem_range.mp hk)

theorem length_bytesAt (a : Nat → UInt8) (i n : Nat) : (bytesAt a i n).length = n := by
  simp [bytesAt]

theorem take_bytesAt (a : Nat → UInt8) (i : Nat) {m n : Nat} (h : m ≤ n) :
    (bytesAt a i n).take m = bytesAt a i m := by
  rw [bytesAt, bytesAt, ← List.map_take, List.take_range, Nat.min_eq_left h]

/-- The key bytes are equal exactly when `memcmp` says so. -/
theorem keyBytes_eq_iff {a b : Nat → UInt8} : keyBytes n a = keyBytes n b ↔
    sameBytes n a b = true := by
  rw [KvFtl.sameBytes_iff, keyBytes, keyBytes, bytesAt, bytesAt, List.map_inj_left]
  simp

theorem sameBytes_memcpy (n : Nat) (a b : Nat → UInt8) :
    sameBytes n (memcpyAt a 0 b n) b = true := by
  rw [KvFtl.sameBytes_iff]
  intro i hi
  simp [memcpyAt, hi]

/-- What was copied reads back. -/
theorem bytesAt_memcpyAt (a b : Nat → UInt8) (o n : Nat) :
    bytesAt (memcpyAt a o b n) o n = bytesAt b 0 n := by
  apply bytesAt_congr
  intro k hk
  simp [memcpyAt, hk]

/-- A copy elsewhere changes nothing. -/
theorem bytesAt_memcpyAt_of_disjoint (a b : Nat → UInt8) {o p m n : Nat}
    (h : o + m ≤ p ∨ p + n ≤ o) : bytesAt (memcpyAt a o b m) p n = bytesAt a p n := by
  apply bytesAt_congr
  intro k hk
  unfold memcpyAt
  rw [if_neg]
  omega

/-! ## Storing a new key -/

namespace KvFtl

/-- What `new_mapping_entry` does. -/
structure Inserted (kv kv' : KvFtl) (cmd : KvCommand) (valOffset y : Nat) (link : Option Nat) :
    Prop extends kv.Taken kv' y link where
  newKey : (kv'.kvMappingTable y).key = memcpyAt (kv.kvMappingTable y).key 0 cmd.key cmd.keyLength
  newOffset : (kv'.kvMappingTable y).memOffset = some valOffset
  newLength : (kv'.kvMappingTable y).length = cmd.valueLength
  length : ∀ s, s ≠ y → (kv'.kvMappingTable s).length = (kv.kvMappingTable s).length
  storage : kv'.storage = kv.storage
  latest : kv'.latest = kv.latest
  storageSize : kv'.storageSize = kv.storageSize
  reach : kv.getHashSlot cmd.key cmd.keyLength = y ∨
    ∃ z, link = some z ∧ kv.Leads (kv.getHashSlot cmd.key cmd.keyLength) z

theorem Ordered.newMappingEntry {age : Nat → Nat} {now : Nat} (h : kv.Ordered age now)
    (cmd : KvCommand) {valOffset : Nat} (hoff : valOffset < kv.storageSize)
    (hfree : ∃ e < kv.hashSlots, ¬ kv.Live e) :
    ∃ kv' y link, kv.newMappingEntry cmd valOffset = .ok kv' ∧
      kv.Inserted kv' cmd valOffset y link := by
  have hslot : kv.getHashSlot cmd.key cmd.keyLength < kv.hashSlots := Nat.mod_lt _ h.pos
  rw [KvFtl.newMappingEntry, require_pos hoff, ok_bind]
  dsimp only
  by_cases hmem : (kv.kvMappingTable (kv.getHashSlot cmd.key cmd.keyLength)).memOffset = none
  · rw [if_pos hmem]
    have hdead : ¬ kv.Live (kv.getHashSlot cmd.key cmd.keyLength) := fun hlive => hlive.2 hmem
    refine ⟨_, _, none, rfl, taken_setSlot hslot hdead (by simp) (h.blank _ hslot hmem), ?_, ?_, ?_,
      fun s hs => ?_, rfl, rfl, rfl, Or.inl rfl⟩
    · rw [fillSlot, setSlot_self]
    · rw [fillSlot, setSlot_self]
    · rw [fillSlot, setSlot_self]
    · rw [fillSlot, setSlot_of_ne _ _ hs]
  · rw [if_neg hmem]
    have hlive : kv.Live (kv.getHashSlot cmd.key cmd.keyLength) := ⟨hslot, hmem⟩
    obtain ⟨y, z, hfind⟩ := h.exists_findNextSlot hlive hfree
    obtain ⟨hy, hdead, hleads, hz, hend⟩ := h.findNextSlot_spec hlive hfind
    have hyz : y ≠ z := fun he => hdead (he ▸ hz)
    have hnone := memOffset_of_not_live hy hdead
    rw [hfind]
    refine ⟨_, y, some z, rfl, taken_chainMapping hy hdead (by simp) (h.blank y hy hnone) hz hend,
      ?_, ?_, ?_, fun s hs => ?_, rfl, rfl, rfl, Or.inr ⟨z, rfl, hleads⟩⟩
    · rw [chainMapping, setSlot_of_ne _ _ hyz, fillSlot, setSlot_self]
    · rw [chainMapping, setSlot_of_ne _ _ hyz, fillSlot, setSlot_self]
    · rw [chainMapping, setSlot_of_ne _ _ hyz, fillSlot, setSlot_self]
    · by_cases hsz : s = z
      · subst hsz
        rw [chainMapping, setSlot_self, fillSlot, setSlot_of_ne _ _ hs]
      · rw [chainMapping, setSlot_of_ne _ _ hsz, fillSlot, setSlot_of_ne _ _ hs]

/-! ## The map -/

/-- The table represents the map `M` from keys of `n` bytes to values of `L` bytes. -/
structure Represents (kv : KvFtl) (n L : Nat) (M : List UInt8 → Option (List UInt8)) : Prop where
  sound : kv.Sound n
  length : ∀ t, kv.Live t → (kv.kvMappingTable t).length = L
  room : ∀ t, kv.Live t → ∀ o, (kv.kvMappingTable t).memOffset = some o → o + L ≤ kv.latest
  disjoint : ∀ s t, kv.Live s → kv.Live t → s ≠ t → ∀ o p,
    (kv.kvMappingTable s).memOffset = some o → (kv.kvMappingTable t).memOffset = some p →
    o + L ≤ p ∨ p + L ≤ o
  held : ∀ t, kv.Live t → ∀ o, (kv.kvMappingTable t).memOffset = some o →
    M (keyBytes n (kv.kvMappingTable t).key) = some (bytesAt kv.storage o L)
  missing : ∀ k, M k ≠ none → ∃ t, kv.Live t ∧ keyBytes n (kv.kvMappingTable t).key = k

/-- The chains do not depend on the values. -/
theorem Sound.withData (h : kv.Sound n) (latest : Nat) (storage : Nat → UInt8) :
    ({ kv with latest, storage } : KvFtl).Sound n := by
  obtain ⟨age, now, hord⟩ := h.ordered
  exact ⟨⟨age, now, hord.pos, hord.next_lt, hord.blank, hord.age_lt, hord.later⟩, h.unique,
    h.reached⟩

theorem Live.exists_offset (h : kv.Live t) : ∃ o, (kv.kvMappingTable t).memOffset = some o :=
  Option.ne_none_iff_exists'.mp h.2

/-- Looking a key up. -/
theorem Represents.lookup (h : kv.Represents n L M) (hlen : cmd.keyLength = n) :
    (M (keyBytes n cmd.key) = none ∧ kv.search cmd = .ok none ∧
      ∀ t, kv.Live t → sameBytes n cmd.key (kv.kvMappingTable t).key = false) ∨
    ∃ t o, kv.search cmd = .ok (some t) ∧ kv.Live t ∧
      keyBytes n (kv.kvMappingTable t).key = keyBytes n cmd.key ∧
      (kv.kvMappingTable t).memOffset = some o ∧
      M (keyBytes n cmd.key) = some (bytesAt kv.storage o L) := by
  obtain ⟨found, hrun, hfound⟩ := h.sound.search_spec hlen
  cases found with
  | none =>
    refine Or.inl ⟨?_, hrun, hfound⟩
    by_contra hne
    obtain ⟨t, ht, hkey⟩ := h.missing _ hne
    have hsame := keyBytes_eq_iff.mp hkey.symm
    rw [hfound t ht] at hsame
    cases hsame
  | some t =>
    obtain ⟨ht, hsame⟩ := hfound
    have hkey := (keyBytes_eq_iff.mpr hsame).symm
    obtain ⟨o, ho⟩ := ht.exists_offset
    refine Or.inr ⟨t, o, hrun, ht, hkey, ho, ?_⟩
    rw [← hkey]
    exact h.held t ht o ho

/-- Two slots with the same key are the same slot. -/
theorem Represents.keyBytes_ne (h : kv.Represents n L M) {s : Nat} (hs : kv.Live s)
    (ht : kv.Live t) (hne : s ≠ t) :
    keyBytes n (kv.kvMappingTable s).key ≠ keyBytes n (kv.kvMappingTable t).key := fun he =>
  hne (h.sound.unique s t hs ht (keyBytes_eq_iff.mp he))

/-- A new key. -/
theorem Represents.insert {y : Nat} {link : Option Nat} {data : Nat → UInt8}
    (h : kv.Represents n L M) (hlen : cmd.keyLength = n) (hval : cmd.valueLength = L)
    (hfresh : ∀ t, kv.Live t → sameBytes n cmd.key (kv.kvMappingTable t).key = false)
    {mid : KvFtl} (hmid : mid = { kv with
      latest := kv.latest + L, storage := memcpyAt kv.storage kv.latest data L })
    (hins : mid.Inserted kv' cmd kv.latest y link) :
    kv'.Represents n L
      (Function.update M (keyBytes n cmd.key) (some (bytesAt data 0 L))) := by
  have hlive : ∀ s, mid.Live s ↔ kv.Live s := fun s => by rw [hmid]; rfl
  have htable : mid.kvMappingTable = kv.kvMappingTable := by rw [hmid]
  have hmsound : mid.Sound n := by
    rw [hmid]
    exact h.sound.withData ..
  have hnewKey : sameBytes n (kv'.kvMappingTable y).key cmd.key = true := by
    rw [hins.newKey, hlen]
    exact sameBytes_memcpy ..
  have hnewBytes := keyBytes_eq_iff.mpr hnewKey
  have hne : ∀ s, kv.Live s → s ≠ y := fun s hs he => hins.dead (he ▸ (hlive s).mpr hs)
  have hcases : ∀ s, kv'.Live s ↔ s = y ∨ kv.Live s := fun s => by
    rw [hins.live_iff, hlive]
  have hold : ∀ s, kv.Live s → (kv'.kvMappingTable s).key = (kv.kvMappingTable s).key ∧
      (kv'.kvMappingTable s).memOffset = (kv.kvMappingTable s).memOffset := fun s hs => by
    rw [hins.key s (hne s hs), hins.memOffset s (hne s hs), htable]
    exact ⟨rfl, rfl⟩
  have hstorage : kv'.storage = memcpyAt kv.storage kv.latest data L := by
    rw [hins.storage, hmid]
  have hlatest : kv'.latest = kv.latest + L := by rw [hins.latest, hmid]
  refine ⟨?_, fun s hs => ?_, fun s hs o ho => ?_, fun s t hs ht hst o p ho hp => ?_,
    fun s hs o ho => ?_, fun k hk => ?_⟩
  · refine hins.toTaken.sound hmsound (fun t ht => ?_) ?_
    · rw [htable]
      have hother := hfresh t ((hlive t).mp ht)
      by_contra hne'
      have hsame := Bool.eq_true_of_not_eq_false hne'
      rw [sameBytes_iff] at hnewKey hsame
      have : sameBytes n cmd.key (kv.kvMappingTable t).key = true :=
        sameBytes_iff.mpr fun i hi => (hnewKey i hi).symm.trans (hsame i hi)
      rw [hother] at this
      cases this
    · have hslot : kv'.getHashSlot (kv'.kvMappingTable y).key n =
          mid.getHashSlot cmd.key cmd.keyLength := by
        rw [getHashSlot, getHashSlot, hashFunction_congr hnewKey, hins.slots, hlen]
      rw [hslot]
      exact hins.reach
  · rcases (hcases s).mp hs with rfl | hs
    · rw [hins.newLength, hval]
    · rw [hins.length s (hne s hs), htable]
      exact h.length s hs
  · rw [hlatest]
    rcases (hcases s).mp hs with rfl | hs
    · rw [hins.newOffset] at ho
      cases ho
      exact le_refl _
    · rw [(hold s hs).2] at ho
      exact (h.room s hs o ho).trans (Nat.le_add_right ..)
  · rcases (hcases s).mp hs with rfl | hs
    · rcases (hcases t).mp ht with rfl | ht
      · exact absurd rfl hst
      · rw [hins.newOffset] at ho
        rw [(hold t ht).2] at hp
        cases ho
        exact Or.inr (h.room t ht p hp)
    · rcases (hcases t).mp ht with rfl | ht
      · rw [(hold s hs).2] at ho
        rw [hins.newOffset] at hp
        cases hp
        exact Or.inl (h.room s hs o ho)
      · rw [(hold s hs).2] at ho
        rw [(hold t ht).2] at hp
        exact h.disjoint s t hs ht hst o p ho hp
  · rw [hstorage]
    rcases (hcases s).mp hs with rfl | hs
    · rw [hins.newOffset] at ho
      cases ho
      rw [hnewBytes, Function.update_self, bytesAt_memcpyAt]
    · rw [(hold s hs).2] at ho
      rw [(hold s hs).1, Function.update_of_ne, h.held s hs o ho,
        bytesAt_memcpyAt_of_disjoint _ _ (Or.inr (h.room s hs o ho))]
      intro he
      have := keyBytes_eq_iff.mp he.symm
      rw [hfresh s hs] at this
      cases this
  · by_cases hkey : k = keyBytes n cmd.key
    · exact ⟨y, (hcases y).mpr (Or.inl rfl), hnewBytes.trans hkey.symm⟩
    · rw [Function.update_of_ne hkey] at hk
      obtain ⟨t, ht, hkt⟩ := h.missing k hk
      refine ⟨t, (hcases t).mpr (Or.inr ht), ?_⟩
      rw [(hold t ht).1]
      exact hkt

/-- A new value for a key. -/
theorem Represents.overwrite {o : Nat} {data : Nat → UInt8} (h : kv.Represents n L M)
    (ht : kv.Live t) (ho : (kv.kvMappingTable t).memOffset = some o) :
    ({ kv with storage := memcpyAt kv.storage o data L } : KvFtl).Represents n L
      (Function.update M (keyBytes n (kv.kvMappingTable t).key) (some (bytesAt data 0 L))) := by
  refine ⟨h.sound.withData .., h.length, h.room, h.disjoint, fun s hs p hp => ?_,
    fun k hk => ?_⟩
  · have hs : kv.Live s := hs
    have hp : (kv.kvMappingTable s).memOffset = some p := hp
    by_cases hst : s = t
    · subst hst
      rw [ho] at hp
      cases hp
      rw [Function.update_self, bytesAt_memcpyAt]
    · rw [Function.update_of_ne (h.keyBytes_ne hs ht hst), h.held s hs p hp,
        bytesAt_memcpyAt_of_disjoint _ _ (h.disjoint t s ht hs (Ne.symm hst) o p ho hp)]
  · by_cases hkey : k = keyBytes n (kv.kvMappingTable t).key
    · exact ⟨t, ht, hkey.symm⟩
    · rw [Function.update_of_ne hkey] at hk
      exact h.missing k hk

/-- Deleting a key that no other key is behind. -/
theorem Represents.delete (h : kv.Represents n L M) (ht : kv.Live t)
    (halone : ∀ s, kv.Live s → ¬ kv.Behind n t s) :
    (kv.setSlot t .blank).Represents n L
      (Function.update M (keyBytes n (kv.kvMappingTable t).key) none) := by
  have hold : ∀ s, (kv.setSlot t .blank).Live s →
      (kv.setSlot t .blank).kvMappingTable s = kv.kvMappingTable s ∧ kv.Live s ∧ s ≠ t := by
    intro s hs
    obtain ⟨hne, hs⟩ := live_blank.mp hs
    exact ⟨setSlot_of_ne _ _ hne, hs, hne⟩
  refine ⟨(h.sound.blanked_iff ht).mpr halone, fun s hs => ?_, fun s hs o ho => ?_,
    fun s u hs hu hsu o p ho hp => ?_, fun s hs o ho => ?_, fun k hk => ?_⟩
  · obtain ⟨heq, hs, -⟩ := hold s hs
    rw [heq]
    exact h.length s hs
  · obtain ⟨heq, hs, -⟩ := hold s hs
    rw [heq] at ho
    exact h.room s hs o ho
  · obtain ⟨heq, hs, -⟩ := hold s hs
    obtain ⟨heq', hu, -⟩ := hold u hu
    rw [heq] at ho
    rw [heq'] at hp
    exact h.disjoint s u hs hu hsu o p ho hp
  · obtain ⟨heq, hs, hne⟩ := hold s hs
    rw [heq] at ho ⊢
    rw [Function.update_of_ne (h.keyBytes_ne hs ht hne)]
    exact h.held s hs o ho
  · have hkey : k ≠ keyBytes n (kv.kvMappingTable t).key := by
      rintro rfl
      rw [Function.update_self] at hk
      exact hk rfl
    rw [Function.update_of_ne hkey] at hk
    obtain ⟨s, hs, hks⟩ := h.missing k hk
    have hst : s ≠ t := by
      rintro rfl
      exact hkey hks.symm
    refine ⟨s, live_blank.mpr ⟨hst, hs⟩, ?_⟩
    rw [setSlot_of_ne _ _ hst]
    exact hks

/-- The entry that the search finds. -/
theorem getMappingEntry_eq {found : Option Nat} (h : kv.search cmd = .ok found) :
    kv.getMappingEntry cmd = .ok (found.bind fun s =>
      (kv.kvMappingTable s).memOffset.map fun o => (o, (kv.kvMappingTable s).length)) := by
  rw [getMappingEntry, h]
  rfl

/-- One command on the table, without its reply. -/
def step (kv : KvFtl) (cmd : KvCommand) : Except KvFault KvFtl := do
  let (_, kv) ← kv.doPerformKvIo cmd kvSuccess
  return kv

/-- A slot is free, and the allocator has room for a value of `L` bytes. -/
structure HasRoom (kv : KvFtl) (L : Nat) : Prop where
  slot : ∃ e < kv.hashSlots, ¬ kv.Live e
  offset : kv.latest < kv.storageSize
  value : kv.latest + L ≤ kv.storageSize

/-- A new key finds room, and the key that a command deletes has no other behind it. -/
structure Safe (n L : Nat) (kv : KvFtl) (cmd : KvCommand) : Prop where
  room : cmd.opcode = .store → kv.search cmd = .ok none → kv.HasRoom L
  alone : cmd.opcode = .delete → ∀ t, kv.search cmd = .ok (some t) →
    ∀ s, kv.Live s → ¬ kv.Behind n t s

end KvFtl

/-- Keys of `n` bytes, values of `L` bytes. -/
structure KvCommand.Fixed (n L : Nat) (cmd : KvCommand) : Prop where
  key : cmd.keyLength = n
  value : cmd.opcode = .store → cmd.valueLength = L

/-- What a command does to a map from keys to values. -/
def mapStep (M : List UInt8 → Option (List UInt8)) (cmd : KvCommand) :
    KvResult × (List UInt8 → Option (List UInt8)) :=
  let k := keyBytes cmd.keyLength cmd.key
  match cmd.opcode, M k with
  | .store, _ =>
    (.done kvSuccess, Function.update M k (some (bytesAt cmd.data 0 cmd.valueLength)))
  | .retrieve, some v =>
    let n := min v.length cmd.valueLength
    ({ result0 := n, status := kvSuccess, data := v.take n }, M)
  | .exist, some _ => (.done kvSuccess, M)
  | .delete, some _ => (.done kvSuccess, Function.update M k none)
  | .other, _ => (.done kvSuccess, M)
  | _, none => (.done kvErrKeyNotExist, M)

/-- A run of commands on a map. -/
def mapRun (M : List UInt8 → Option (List UInt8)) :
    List KvCommand → List KvResult × (List UInt8 → Option (List UInt8))
  | [] => ([], M)
  | cmd :: cmds =>
    let (reply, M) := mapStep M cmd
    let (replies, M) := mapRun M cmds
    (reply :: replies, M)

namespace KvFtl

/-- Storing a key that the table does not hold. -/
theorem Represents.storeNew (h : kv.Represents n L M) (hfix : cmd.Fixed n L)
    (hop : cmd.opcode = .store) (hsize : kv.storageSize < 2 ^ 64) (hroom : kv.HasRoom L)
    (hsearch : kv.search cmd = .ok none)
    (hfresh : ∀ t, kv.Live t → sameBytes n cmd.key (kv.kvMappingTable t).key = false) :
    ∃ kv', kv.doPerformKvIo cmd kvSuccess = .ok (.done kvSuccess, kv') ∧
      kv'.Represents n L (Function.update M (keyBytes n cmd.key) (some (bytesAt cmd.data 0 L))) ∧
      kv'.storageSize = kv.storageSize := by
  have hval := hfix.value hop
  have hlatest : u64 (kv.latest + L) = kv.latest + L := by
    exact Nat.mod_eq_of_lt (hroom.value.trans_lt hsize)
  let mid : KvFtl := { kv with
    latest := kv.latest + L, storage := memcpyAt kv.storage kv.latest cmd.data L }
  have hmid : mid.Sound n := h.sound.withData ..
  obtain ⟨age, now, hord⟩ := hmid.ordered
  obtain ⟨kv', y, link, hrun, hins⟩ := hord.newMappingEntry cmd hroom.offset hroom.slot
  refine ⟨kv', ?_, h.insert hfix.key hval hfresh rfl hins, hins.storageSize⟩
  simp only [doPerformKvIo, getMappingEntry_eq hsearch, ok_bind, hop, Option.bind_none,
    allocateMemOffset, hlatest, hval]
  rw [show newMappingEntry _ cmd kv.latest = .ok kv' from hrun]
  rfl

/-- One command does on the table what it does on the map. -/
theorem Represents.step (h : kv.Represents n L M) (hfix : cmd.Fixed n L)
    (hsize : kv.storageSize < 2 ^ 64) (hsafe : kv.Safe n L cmd) :
    ∃ kv', kv.doPerformKvIo cmd kvSuccess = .ok ((mapStep M cmd).1, kv') ∧
      kv'.Represents n L (mapStep M cmd).2 ∧ kv'.storageSize = kv.storageSize := by
  rcases h.lookup hfix.key with ⟨hnone, hsearch, hfresh⟩ | ⟨t, o, hsearch, ht, hkey, ho, hsome⟩
  · have hentry := getMappingEntry_eq hsearch
    cases hop : cmd.opcode with
    | store =>
      have hroom := hsafe.room hop hsearch
      obtain ⟨kv', hrun, hrep, hss⟩ := h.storeNew hfix hop hsize hroom hsearch hfresh
      refine ⟨kv', ?_, ?_, hss⟩
      · rw [hrun]
        simp only [mapStep, hop]
      · simp only [mapStep, hop, hfix.key, hfix.value hop]
        exact hrep
    | other =>
      refine ⟨kv, ?_, ?_, rfl⟩
      · simp only [doPerformKvIo, hentry, ok_bind, hop, mapStep]
        rfl
      · simp only [mapStep, hop]
        exact h
    | _ =>
      refine ⟨kv, ?_, ?_, rfl⟩
      · simp only [doPerformKvIo, hentry, ok_bind, hop, mapStep, hfix.key, hnone,
          Option.bind_none]
        rfl
      · simp only [mapStep, hop, hfix.key, hnone]
        exact h
  · have hlength := h.length t ht
    have hentry : kv.getMappingEntry cmd = .ok (some (o, L)) := by
      rw [getMappingEntry_eq hsearch, Option.bind_some, ho, hlength]
      rfl
    cases hop : cmd.opcode with
    | store =>
      have hval := hfix.value hop
      refine ⟨{ kv with storage := memcpyAt kv.storage o cmd.data L }, ?_, ?_, rfl⟩
      · simp only [doPerformKvIo, hentry, ok_bind, hop, mapStep, hval, ne_eq, not_true_eq_false,
          false_and, if_false]
        rfl
      · simp only [mapStep, hop, hfix.key, hval]
        rw [← hkey]
        exact h.overwrite ht ho
    | retrieve =>
      refine ⟨kv, ?_, ?_, rfl⟩
      · simp only [doPerformKvIo, hentry, ok_bind, hop, mapStep, hfix.key, hsome, length_bytesAt,
          take_bytesAt _ _ (Nat.min_le_left L cmd.valueLength)]
        rfl
      · simp only [mapStep, hop, hfix.key, hsome]
        exact h
    | exist =>
      refine ⟨kv, ?_, ?_, rfl⟩
      · simp only [doPerformKvIo, hentry, ok_bind, hop, mapStep, hfix.key, hsome]
        rfl
      · simp only [mapStep, hop, hfix.key, hsome]
        exact h
    | delete =>
      refine ⟨kv.setSlot t .blank, ?_, ?_, rfl⟩
      · simp only [doPerformKvIo, hentry, ok_bind, hop, mapStep, hfix.key, hsome,
          deleteMappingEntry, hsearch]
        rfl
      · simp only [mapStep, hop, hfix.key, hsome]
        rw [← hkey]
        exact h.delete ht (hsafe.alone hop t hsearch)
    | other =>
      refine ⟨kv, ?_, ?_, rfl⟩
      · simp only [doPerformKvIo, hentry, ok_bind, hop, mapStep]
        rfl
      · simp only [mapStep, hop]
        exact h

/-- A new table represents the empty map. -/
theorem represents_init {slots : Nat} (hslots : 0 < slots) (size n L : Nat)
    (storage : Nat → UInt8) :
    (kvInitNamespace slots size storage).Represents n L fun _ => none := by
  have hblank : ∀ s < slots, ((kvInitNamespace slots size storage).kvMappingTable s).memOffset =
      none ∧ ((kvInitNamespace slots size storage).kvMappingTable s).nextSlot = none := by
    intro s hs
    simp [kvInitNamespace, hs]
  have hdead : ∀ s, ¬ (kvInitNamespace slots size storage).Live s := fun s hs =>
    hs.2 (hblank s hs.1).1
  refine ⟨⟨⟨fun _ => 0, 0, hslots, fun s hs t ht => ?_, fun s hs _ => (hblank s hs).2,
    fun s hs => absurd hs (hdead s), fun s t hst _ => absurd hst.1 (hdead s)⟩,
    fun s _ hs => absurd hs (hdead s), fun t ht => absurd ht (hdead t)⟩,
    fun t ht => absurd ht (hdead t), fun t ht => absurd ht (hdead t),
    fun s _ hs => absurd hs (hdead s), fun t ht => absurd ht (hdead t),
    fun k hk => absurd rfl hk⟩
  rw [(hblank s hs).2] at ht
  cases ht

/-- A run of commands that are all safe does on the table what it does on the map. -/
theorem Represents.run {cmds : List KvCommand} (h : kv.Represents n L M)
    (hfix : ∀ cmd ∈ cmds, cmd.Fixed n L) (hsize : kv.storageSize < 2 ^ 64)
    (hsafe : Throughout KvFtl.step (KvFtl.Safe n L) cmds kv) :
    ∃ kv', kv.run cmds = .ok ((mapRun M cmds).1, kv') ∧
      kv'.Represents n L (mapRun M cmds).2 := by
  induction cmds generalizing kv M with
  | nil => exact ⟨kv, rfl, h⟩
  | cons cmd cmds ih =>
    obtain ⟨kv₁, hrun, h₁, hss⟩ := h.step (hfix cmd (List.mem_cons_self ..)) hsize hsafe.1
    have hstep : kv.step cmd = .ok kv₁ := by
      rw [KvFtl.step, hrun]
      rfl
    obtain ⟨kv', hrest, h'⟩ := ih h₁ (fun c hc => hfix c (List.mem_cons_of_mem cmd hc))
      (hss ▸ hsize) (hsafe.2 kv₁ hstep)
    refine ⟨kv', ?_, h'⟩
    rw [KvFtl.run, hrun, ok_bind]
    dsimp only
    rw [hrest]
    rfl

/-- After a delete every other key is still found exactly when none was behind it. -/
theorem Represents.delete_iff {t : Nat} (h : kv.Represents n L M) (hlen : cmd.keyLength = n)
    (ht : kv.search cmd = .ok (some t)) :
    (∀ probe : KvCommand, probe.keyLength = n → keyBytes n probe.key ≠ keyBytes n cmd.key →
      M (keyBytes n probe.key) ≠ none →
      ∃ s, (kv.setSlot t .blank).search probe = .ok (some s)) ↔
    ∀ s, kv.Live s → ¬ kv.Behind n t s := by
  have hlive : kv.Live t ∧ keyBytes n (kv.kvMappingTable t).key = keyBytes n cmd.key := by
    rcases h.lookup hlen with ⟨-, hnone, -⟩ | ⟨t', o, hsome, hl, hk, -, -⟩
    · rw [hnone] at ht
      cases ht
    · rw [hsome] at ht
      cases ht
      exact ⟨hl, hk⟩
  obtain ⟨hlive, hkey⟩ := hlive
  constructor
  · rintro hfound s hs ⟨hne, hsx, hxt⟩
    obtain ⟨age, now, hord⟩ := h.sound.ordered
    let probe : KvCommand := { cmd with key := (kv.kvMappingTable s).key }
    have hprobe : keyBytes n probe.key ≠ keyBytes n cmd.key := by
      rw [← hkey]
      exact h.keyBytes_ne hs hlive hne
    obtain ⟨o, ho⟩ := hs.exists_offset
    have hM : M (keyBytes n probe.key) ≠ none := by
      rw [show M (keyBytes n probe.key) = _ from h.held s hs o ho]
      simp
    obtain ⟨u, hu⟩ := hfound probe hlen hprobe hM
    have hslot : (kv.setSlot t .blank).getHashSlot probe.key n <
      (kv.setSlot t .blank).hashSlots := Nat.mod_lt _ hord.pos
    have hfuel := (kv.setSlot t .blank).ahead_le age
      ((kv.setSlot t .blank).getHashSlot probe.key n)
    obtain ⟨found, hrun, hspec⟩ := @Ordered.searchLoop_spec _ n
      ((kv.setSlot t .blank).hashSlots + 1) _ probe.key _ _ hord.blanked hslot (by omega)
    have heq : (kv.setSlot t .blank).search probe = .ok found := by
      rw [search, show probe.keyLength = n from hlen, hrun]
    rw [hu] at heq
    cases heq
    obtain ⟨hleads, hul, hsame⟩ := hspec
    obtain ⟨hut, hul⟩ := live_blank.mp hul
    rw [setSlot_of_ne _ _ hut] at hsame
    have hus := h.sound.unique s u hs hul hsame
    subst hus
    exact hord.not_leads_blank hlive hs hne hsx hxt hleads
  · intro halone probe hp hne hM
    have hdel := h.delete hlive halone
    rw [hkey] at hdel
    rcases hdel.lookup hp with ⟨hnone, -, -⟩ | ⟨s, o, hsome, -⟩
    · rw [Function.update_of_ne hne] at hnone
      exact absurd hnone hM
    · exact ⟨s, hsome⟩

end KvFtl

/-- With keys and values of one length the store replies as a map from keys to values does, as long
as there is room and no delete takes a slot that another key is behind; and a delete that does not
take such a slot is exactly one after which every other key is still found. -/
theorem kv_refines_map (slots size n L : Nat) (storage : Nat → UInt8) (cmds : List KvCommand)
    (hslots : 0 < slots) (hsize : size < 2 ^ 64) (hfix : ∀ cmd ∈ cmds, cmd.Fixed n L)
    (hsafe : Throughout KvFtl.step (KvFtl.Safe n L) cmds (kvInitNamespace slots size storage)) :
    ∃ kv, (kvInitNamespace slots size storage).run cmds =
        .ok ((mapRun (fun _ => none) cmds).1, kv) ∧
      ∀ cmd t, cmd.keyLength = n → kv.search cmd = .ok (some t) →
        ((∀ probe : KvCommand, probe.keyLength = n → keyBytes n probe.key ≠ keyBytes n cmd.key →
          (mapRun (fun _ => none) cmds).2 (keyBytes n probe.key) ≠ none →
          ∃ s, (kv.setSlot t .blank).search probe = .ok (some s)) ↔
        ∀ s, kv.Live s → ¬ kv.Behind n t s) := by
  obtain ⟨kv, hrun, hrep⟩ :=
    (KvFtl.represents_init hslots size n L storage).run hfix hsize hsafe
  exact ⟨kv, hrun, fun cmd t hlen ht => hrep.delete_iff hlen ht⟩

/-- A command on a key of four bytes, the last three 0, and a value of four bytes. -/
def fourByteCommand (opcode : KvOpcode) (key value : UInt8) : KvCommand where
  opcode := opcode
  key := fun i => if i = 0 then key else 0
  keyLen := 3
  valueLen := 1
  data := fun _ => value

theorem fixed_fourByteCommand (opcode : KvOpcode) (key value : UInt8) :
    (fourByteCommand opcode key value).Fixed 4 4 := by
  apply KvCommand.Fixed.mk
  · rfl
  · intro _
    rfl

/-- What is stored reads back. -/
theorem kv_refines_map_retrieve : ∃ kv, (kvInitNamespace 3 64 fun _ => 0).run
      [fourByteCommand .store 0 7, fourByteCommand .retrieve 0 0] =
    .ok ([.done kvSuccess, { result0 := 4, status := kvSuccess, data := [7, 7, 7, 7] }], kv) := by
  have hsafe : Throughout KvFtl.step (KvFtl.Safe 4 4)
      [fourByteCommand .store 0 7, fourByteCommand .retrieve 0 0]
      (kvInitNamespace 3 64 fun _ => 0) := by
    refine ⟨⟨fun _ _ => ⟨⟨0, by decide, ?_⟩, by decide, by decide⟩, ?_⟩,
      fun kv _ => ⟨⟨?_, ?_⟩, ?_⟩⟩
    · intro hlive
      exact hlive.2 rfl
    · intro hop
      cases hop
    · intro hop
      cases hop
    · intro hop
      cases hop
    · intro _ _
      trivial
  have hfix : ∀ cmd ∈ [fourByteCommand .store 0 7, fourByteCommand .retrieve 0 0],
      cmd.Fixed 4 4 := by
    intro cmd hcmd
    simp only [List.mem_cons, List.not_mem_nil, or_false] at hcmd
    rcases hcmd with rfl | rfl
    · apply fixed_fourByteCommand
    · apply fixed_fourByteCommand
  obtain ⟨kv, hrun, -⟩ := kv_refines_map 3 64 4 4 (fun _ => 0) _ (by simp) (by simp) hfix hsafe
  refine ⟨kv, ?_⟩
  rw [hrun]
  rfl

/-- Two keys of the same hash in a table of three slots: deleting the first one loses the second. -/
theorem kv_delete_loses_key :
    ((kvInitNamespace 3 64 fun _ => 0).run
      [fourByteCommand .store 0 7, fourByteCommand .store 1 8, fourByteCommand .delete 0 0,
        fourByteCommand .exist 1 0]).map (fun run => run.1.map KvResult.status) =
      .ok [kvSuccess, kvSuccess, kvSuccess, kvErrKeyNotExist] ∧
    (mapRun (fun _ => none)
      [fourByteCommand .store 0 7, fourByteCommand .store 1 8, fourByteCommand .delete 0 0,
        fourByteCommand .exist 1 0]).1.map KvResult.status =
      [kvSuccess, kvSuccess, kvSuccess, kvSuccess] := by
  decide +kernel

end NvmeVirt
