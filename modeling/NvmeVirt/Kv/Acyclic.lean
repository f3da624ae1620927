import NvmeVirt.Kv.Table

/-!
# The loops along the chains end

Slots are taken one after the other, and a link leads to a slot that was taken later, so following
the links never comes back. This holds as long as the key of a new entry ends before its link: a
longer key is copied over the link, and the entry may lead to itself.
-/

namespace NvmeVirt

open Checked Bytes Relation

/-! ## Loops -/

namespace KvFtl

variable {kv : KvFtl} {age : Nat → Nat} {now s u : Nat}

end KvFtl

/-! ## Entries in memory -/

variable {mem src : Nat → UInt8} {c n off s v y : Nat}

theorem fieldOf_of_lt (h : v < 256 ^ n - 1) : fieldOf n v = some v := if_neg (by omega)

theorem fieldOf_ff (h : ∀ i < n, mem (off + i) = 0xff) : fieldOf n (readLe mem off n) = none := by
  rw [readLe_of_ff h, fieldOf, if_pos rfl]

/-- An entry whose bytes are set has no offset. -/
theorem memOffset_ff (h : ∀ i, memOffsetField ≤ i → i < nextSlotField + 4 →
    mem (mappingEntrySize * s + i) = 0xff) : (entryAt mem s).memOffset = none := by
  simp only [entryAt]
  apply fieldOf_ff
  intro i hi
  rw [Nat.add_assoc]
  apply h
  all_goals
    simp only [memOffsetField, nextSlotField]
    omega

/-- An entry whose bytes are set has no link. -/
theorem nextSlot_ff (h : ∀ i, memOffsetField ≤ i → i < nextSlotField + 4 →
    mem (mappingEntrySize * s + i) = 0xff) : (entryAt mem s).nextSlot = none := by
  simp only [entryAt]
  apply fieldOf_ff
  intro i hi
  rw [Nat.add_assoc]
  apply h
  all_goals
    simp only [memOffsetField, nextSlotField]
    omega

/-- A copy elsewhere keeps the offset of an entry. -/
theorem memOffset_memcpyAt (h : mappingEntrySize * s + lengthField ≤ off ∨
    off + n ≤ mappingEntrySize * s + memOffsetField) :
    (entryAt (memcpyAt mem off src n) s).memOffset = (entryAt mem s).memOffset := by
  simp only [mappingEntrySize, lengthField, memOffsetField] at h
  simp only [entryAt, mappingEntrySize, memOffsetField]
  rw [readLe_memcpyAt_of_out]
  omega

/-- A copy elsewhere keeps the link of an entry. -/
theorem nextSlot_memcpyAt (h : mappingEntrySize * s + (nextSlotField + 4) ≤ off ∨
    off + n ≤ mappingEntrySize * s + nextSlotField) :
    (entryAt (memcpyAt mem off src n) s).nextSlot = (entryAt mem s).nextSlot := by
  simp only [mappingEntrySize, nextSlotField] at h
  simp only [entryAt, mappingEntrySize, nextSlotField]
  rw [readLe_memcpyAt_of_out]
  omega

/-- A copy into an entry keeps the offsets of the others. -/
theorem memOffset_memcpyAt_of_ne (hs : s ≠ y) (h : c + n ≤ mappingEntrySize) :
    (entryAt (memcpyAt mem (mappingEntrySize * y + c) src n) s).memOffset =
      (entryAt mem s).memOffset := by
  apply memOffset_memcpyAt
  simp only [mappingEntrySize, lengthField, memOffsetField] at h ⊢
  omega

/-- A copy into an entry keeps the links of the others. -/
theorem nextSlot_memcpyAt_of_ne (hs : s ≠ y) (h : c + n ≤ mappingEntrySize) :
    (entryAt (memcpyAt mem (mappingEntrySize * y + c) src n) s).nextSlot =
      (entryAt mem s).nextSlot := by
  apply nextSlot_memcpyAt
  simp only [mappingEntrySize, nextSlotField] at h ⊢
  omega

namespace KvTable

variable {t t' : KvTable} {key : Nat → UInt8} {keyLen valLen valOffset : Nat} {cmd : KvCommand}

/-- A key that ends before the link of its entry. -/
theorem fillSlot_memOffset_self (hoff : valOffset < 2 ^ 64 - 1) :
    ((t.fillSlot y key keyLen valLen valOffset).view.kvMappingTable y).memOffset =
      some valOffset := by
  have hread : readLe (t.fillSlot y key keyLen valLen valOffset).mem
      (mappingEntrySize * y + memOffsetField) 8 = valOffset := by
    unfold fillSlot setField
    rw [readLe_memcpyAt_of_out, readLe_memcpyAt_self (by omega)]
    simp only [memOffsetField, lengthField]
    omega
  have hfield : fieldOf 8 valOffset = some valOffset := fieldOf_of_lt (by omega)
  simp only [view, entryAt]
  rw [hread, hfield]

theorem fillSlot_memOffset (hkey : keyLen ≤ nextSlotField) (hs : s ≠ y) :
    ((t.fillSlot y key keyLen valLen valOffset).view.kvMappingTable s).memOffset =
      (t.view.kvMappingTable s).memOffset := by
  simp only [nextSlotField] at hkey
  unfold fillSlot setField setKey
  simp only [view]
  rw [memOffset_memcpyAt_of_ne hs (by decide), memOffset_memcpyAt_of_ne hs (by decide)]
  apply @memOffset_memcpyAt_of_ne _ _ 0 keyLen s y hs
  simp only [mappingEntrySize]
  omega

theorem fillSlot_nextSlot (hkey : keyLen ≤ nextSlotField) (s : Nat) :
    ((t.fillSlot y key keyLen valLen valOffset).view.kvMappingTable s).nextSlot =
      (t.view.kvMappingTable s).nextSlot := by
  simp only [nextSlotField] at hkey
  unfold fillSlot setField setKey
  simp only [view]
  rw [nextSlot_memcpyAt, nextSlot_memcpyAt, nextSlot_memcpyAt]
  all_goals
    simp only [mappingEntrySize, memOffsetField, lengthField, nextSlotField]
    omega

theorem chainMapping_memOffset (prev slot s : Nat) :
    ((t.chainMapping prev slot).view.kvMappingTable s).memOffset =
      (t.view.kvMappingTable s).memOffset := by
  unfold chainMapping setField
  simp only [view]
  apply memOffset_memcpyAt
  simp only [mappingEntrySize, memOffsetField, lengthField, nextSlotField]
  omega

theorem chainMapping_nextSlot {prev slot : Nat} (hslot : slot < 2 ^ 32 - 1) (s : Nat) :
    ((t.chainMapping prev slot).view.kvMappingTable s).nextSlot =
      if some prev = some s then some slot else (t.view.kvMappingTable s).nextSlot := by
  unfold chainMapping setField
  simp only [view]
  by_cases hs : s = prev
  · rw [if_pos (congrArg some hs.symm), hs]
    simp only [entryAt]
    rw [readLe_memcpyAt_self (by omega), fieldOf_of_lt hslot]
  · rw [if_neg fun he => hs (Option.some.inj he).symm, nextSlot_memcpyAt_of_ne hs (by decide)]

/-- `new_mapping_entry` fills a slot that is not in use; another one, in use, may be linked to it. -/
theorem newMappingEntry_cases {age : Nat → Nat} {now : Nat} (h : t.view.Ordered age now)
    (hrun : t.newMappingEntry key keyLen valLen valOffset = .ok t') :
    valOffset < t.storageSize ∧ ∃ y, y < t.hashSlots ∧ ¬ t.view.Live y ∧
      (t' = t.fillSlot y key keyLen valLen valOffset ∨ ∃ z, z ≠ y ∧ t.view.Live z ∧
        t' = (t.fillSlot y key keyLen valLen valOffset).chainMapping z y) := by
  obtain ⟨_, hoff, hrun⟩ := bind_eq_ok.mp hrun
  refine ⟨require_eq_ok.mp hoff, ?_⟩
  have hslot : t.view.getHashSlot key keyLen < t.hashSlots := Nat.mod_lt _ h.pos
  dsimp only at hrun
  by_cases hmem : (t.view.kvMappingTable (t.view.getHashSlot key keyLen)).memOffset = none
  · rw [if_pos hmem] at hrun
    cases hrun
    exact ⟨_, hslot, fun hlive => hlive.2 hmem, Or.inl rfl⟩
  · rw [if_neg hmem] at hrun
    obtain ⟨⟨y, z⟩, hfind, hrun⟩ := bind_eq_ok.mp hrun
    cases hrun
    obtain ⟨hy, hdead, -, hz, -⟩ := h.findNextSlot_spec ⟨hslot, hmem⟩ hfind
    exact ⟨y, hy, hdead, Or.inr ⟨z, fun he => hdead (he ▸ hz), hz, rfl⟩⟩

/-- One slot is taken; the slot that is linked to it is in use. -/
theorem newMappingEntry_linked {age : Nat → Nat} {now : Nat} (h : t.view.Ordered age now)
    (hslots : t.hashSlots < 2 ^ 32) (hsize : t.storageSize < 2 ^ 64)
    (hkey : keyLen ≤ nextSlotField)
    (hrun : t.newMappingEntry key keyLen valLen valOffset = .ok t') :
    (∃ y link, t.view.Linked t'.view y link) ∧ t'.storageSize = t.storageSize := by
  obtain ⟨hoff, y, hlt, hdead, hcase⟩ := newMappingEntry_cases h hrun
  have hlast := h.blank y hlt (KvFtl.memOffset_of_not_live hlt hdead)
  rcases hcase with rfl | ⟨z, hzy, hz, rfl⟩
  · refine ⟨⟨y, none, rfl, hlt, hdead, ?_, ?_, fun s hs => fillSlot_memOffset hkey hs,
      fun s hs => ?_, by simp⟩, rfl⟩
    · rw [fillSlot_memOffset_self (by omega)]
      simp
    · rw [fillSlot_nextSlot hkey]
      exact hlast
    · rw [fillSlot_nextSlot hkey]
      simp
  · refine ⟨⟨y, some z, rfl, hlt, hdead, ?_, ?_, fun s hs => ?_, fun s hs => ?_, ?_⟩, rfl⟩
    · rw [chainMapping_memOffset, fillSlot_memOffset_self (by omega)]
      simp
    · rw [chainMapping_nextSlot (by omega), if_neg fun he => hzy (Option.some.inj he),
        fillSlot_nextSlot hkey]
      exact hlast
    · rw [chainMapping_memOffset, fillSlot_memOffset hkey hs]
    · rw [chainMapping_nextSlot (by omega), fillSlot_nextSlot hkey]
    · rintro z' ⟨⟩
      exact hz

/-! ## Steps -/

/-- The table is in shape; sizes and slot numbers fit their types. -/
structure Shaped (t : KvTable) : Prop where
  slots : t.hashSlots < 2 ^ 32
  size : t.storageSize < 2 ^ 64
  ordered : ∃ age now, t.view.Ordered age now

theorem Shaped.newMappingEntry (h : t.Shaped) (hkey : keyLen ≤ nextSlotField)
    (hrun : t.newMappingEntry key keyLen valLen valOffset = .ok t') : t'.Shaped := by
  obtain ⟨age, now, hord⟩ := h.ordered
  obtain ⟨⟨y, link, hlinked⟩, hsize⟩ := newMappingEntry_linked hord h.slots h.size hkey hrun
  have hslots : t'.hashSlots = t.hashSlots := hlinked.slots
  exact ⟨hslots ▸ h.slots, hsize ▸ h.size, _, _, hlinked.ordered hord⟩

theorem Shaped.updateMappingEntry (h : t.Shaped) (hrun : t.updateMappingEntry cmd = .ok t') :
    t'.Shaped := by
  obtain ⟨found, -, hrun⟩ := bind_eq_ok.mp hrun
  cases found with
  | none =>
    cases hrun
    exact h
  | some y =>
    cases hrun
    obtain ⟨age, now, hord⟩ := h.ordered
    refine ⟨h.slots, h.size, age, now, hord.congr rfl (fun s => ?_) fun s => ?_⟩
    · apply memOffset_memcpyAt
      simp only [mappingEntrySize, memOffsetField, lengthField]
      omega
    · apply nextSlot_memcpyAt
      simp only [mappingEntrySize, nextSlotField, lengthField]
      omega

theorem deleted_ff (hi : c < nextSlotField + 4) :
    memcpyAt mem (mappingEntrySize * y) (fun _ => 0xff) mappingEntrySize
      (mappingEntrySize * y + c) = 0xff := by
  apply memcpyAt_add
  simp only [nextSlotField, mappingEntrySize] at hi ⊢
  omega

/-- A deleted entry is blank: neither an offset nor a link is left. -/
theorem Shaped.deleteMappingEntry (h : t.Shaped) (hrun : t.deleteMappingEntry cmd = .ok t') :
    t'.Shaped := by
  obtain ⟨found, -, hrun⟩ := bind_eq_ok.mp hrun
  cases found with
  | none =>
    cases hrun
    exact h
  | some y =>
    cases hrun
    obtain ⟨age, now, hord⟩ := h.ordered
    have hff := fun i (_ : memOffsetField ≤ i) => @deleted_ff t.mem i y
    have hblank : (t.view.setSlot y .blank).Ordered age now := hord.blanked
    refine ⟨h.slots, h.size, age, now, hblank.congr rfl (fun s => ?_) fun s => ?_⟩
    · by_cases hs : s = y
      · rw [hs, KvFtl.setSlot_self]
        exact memOffset_ff hff
      · rw [KvFtl.setSlot_of_ne _ _ hs]
        exact @memOffset_memcpyAt_of_ne _ _ 0 mappingEntrySize s y hs (by simp)
    · by_cases hs : s = y
      · rw [hs, KvFtl.setSlot_self]
        exact nextSlot_ff hff
      · rw [KvFtl.setSlot_of_ne _ _ hs]
        exact @nextSlot_memcpyAt_of_ne _ _ 0 mappingEntrySize s y hs (by simp)

/-- The key of the entry that an operation creates ends before the link of the entry. -/
def KeyFits (t : KvTable) : TableOp → Prop
  | .store cmd => t.view.getMappingEntry cmd = .ok none → cmd.keyLength ≤ nextSlotField
  | .batched key keyLen _ =>
    t.view.getMappingEntryByKey key keyLen = .ok none → keyLen ≤ nextSlotField
  | .delete _ => True

/-- The next offset of the allocator is no part of the table. -/
theorem Shaped.allocate (h : t.Shaped) (length : Nat) : (t.allocateMemOffset length).2.Shaped := by
  obtain ⟨age, now, hord⟩ := h.ordered
  exact ⟨h.slots, h.size, age, now, hord.congr rfl (fun _ => rfl) fun _ => rfl⟩

theorem Shaped.step (h : t.Shaped) {op : TableOp} (hfits : t.KeyFits op)
    (hrun : t.step op = .ok t') : t'.Shaped := by
  cases op with
  | store cmd =>
    obtain ⟨entry, hget, hrun⟩ := bind_eq_ok.mp hrun
    cases entry with
    | none => exact (h.allocate cmd.valueLength).newMappingEntry (hfits hget) hrun
    | some entry =>
      dsimp only at hrun
      split at hrun
      · exact h.updateMappingEntry hrun
      · cases hrun
        exact h
  | batched key keyLen valLen =>
    obtain ⟨entry, hget, hrun⟩ := bind_eq_ok.mp hrun
    cases entry with
    | none => exact (h.allocate valLen).newMappingEntry (hfits hget) hrun
    | some entry =>
      cases hrun
      exact h
  | delete cmd =>
    obtain ⟨entry, -, hrun⟩ := bind_eq_ok.mp hrun
    cases entry with
    | none =>
      cases hrun
      exact h
    | some entry => exact h.deleteMappingEntry hrun

theorem init_ff {hashSlots : Nat} (size : Nat) (hs : s < hashSlots) (c : Nat)
    (hlow : memOffsetField ≤ c) (hhigh : c < nextSlotField + 4) :
    (init hashSlots size).mem (mappingEntrySize * s + c) = 0xff := by
  apply if_pos
  simp only [memOffsetField, nextSlotField, mappingEntrySize] at hlow hhigh ⊢
  omega

/-- A new table has no entry. -/
theorem init_memOffset {hashSlots : Nat} (size : Nat) (hs : s < hashSlots) :
    ((init hashSlots size).view.kvMappingTable s).memOffset = none := memOffset_ff (init_ff size hs)

/-- A new table has no link. -/
theorem init_nextSlot {hashSlots : Nat} (size : Nat) (hs : s < hashSlots) :
    ((init hashSlots size).view.kvMappingTable s).nextSlot = none := nextSlot_ff (init_ff size hs)

theorem init_shaped {hashSlots size : Nat} (hpos : 0 < hashSlots) (hslots : hashSlots < 2 ^ 32)
    (hsize : size < 2 ^ 64) : (init hashSlots size).Shaped := by
  have hdead : ∀ s, ¬ (init hashSlots size).view.Live s := fun s hlive =>
    hlive.2 (init_memOffset size hlive.1)
  refine ⟨hslots, hsize, fun _ => 0, 0, hpos, fun s hs t ht => ?_,
    fun s hs _ => init_nextSlot size hs, fun s hs => absurd hs (hdead s),
    fun s t hst _ => absurd hst.1 (hdead s)⟩
  have hnone : ((init hashSlots size).view.kvMappingTable s).nextSlot = none := init_nextSlot size hs
  rw [hnone] at ht
  cases ht

/-- In shape after every run whose new keys fit. -/
theorem Shaped.run {ops : List TableOp} (h : t.Shaped)
    (hfits : ∀ pre op post t₀, ops = pre ++ op :: post → t.run pre = .ok t₀ → t₀.KeyFits op)
    (hrun : t.run ops = .ok t') : t'.Shaped := by
  induction ops generalizing t with
  | nil =>
    cases hrun
    exact h
  | cons op ops ih =>
    rw [KvTable.run, List.foldlM_cons] at hrun
    obtain ⟨t₁, hstep, hrest⟩ := bind_eq_ok.mp hrun
    apply ih (h.step (hfits [] op ops t rfl rfl) hstep) _ hrest
    rintro pre op' post t₀ rfl hpre
    apply hfits (op :: pre) op' post t₀ rfl
    rw [KvTable.run, List.foldlM_cons, hstep]
    exact hpre

end KvTable

/-- A key with the given first bytes. -/
def keyOf (bytes : List UInt8) : Nat → UInt8 := fun i => bytes.getD i 0

/-- A command for a key of `keyLen` bytes and a value of one word. -/
def wordCommand (opcode : KvOpcode) (key : List UInt8) (keyLen : Nat) : KvCommand where
  opcode := opcode
  key := keyOf key
  keyLen := keyLen - 1
  valueLen := 1
  data := fun _ => 0

end NvmeVirt
