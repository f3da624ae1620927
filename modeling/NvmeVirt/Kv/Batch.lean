import NvmeVirt.Kv.Neighbours

/-!
# Batches

A batch carries up to eight stores. Each of them searches, allocates and inserts as a single store
does, but an entry that gets a shorter or longer value keeps its length. So a batch and its single
stores leave the same table exactly when the last length noted for each entry is the one it had.
-/

namespace NvmeVirt

open Checked

/-! ## Batch commands -/

/-- `struct sub_cmd_attribute`. -/
structure SubCmdAttribute where
  opcode : KvOpcode
  keySize : Nat
  valueSize : Nat
  deriving DecidableEq, Repr

/-- `struct payload_format`. -/
structure PayloadFormat where
  attr : Nat → SubCmdAttribute
  subPayload : Nat → UInt8

/-- `ALIGN_LEN`. -/
def alignLen : Nat := 64

/-- A size in whole units of `ALIGN_LEN`; an empty value takes one unit as well. -/
def aligned (n : Nat) : Nat := ((n - 1) / alignLen + 1) * alignLen

namespace KvFtl

/-- `get_mapping_entry_by_key`. -/
def getMappingEntryByKey (kv : KvFtl) (key : Nat → UInt8) (keyLen : Nat) :
    Except KvFault (Option (Nat × Nat)) := do
  let found ← kv.searchLoop key keyLen (kv.hashSlots + 1) (kv.getHashSlot key keyLen)
  return found.bind fun s =>
    (kv.kvMappingTable s).memOffset.map fun offset => (offset, (kv.kvMappingTable s).length)

/-- The key, offset and length of a new entry. -/
def fillSlotByKey (kv : KvFtl) (slot : Nat) (key : Nat → UInt8) (keyLen valLen valOffset : Nat) :
    KvFtl :=
  let e := kv.kvMappingTable slot
  kv.setSlot slot { e with
    key := memcpyAt e.key 0 key keyLen
    memOffset := some valOffset
    length := valLen }

/-- `new_mapping_entry_by_key`. -/
def newMappingEntryByKey (kv : KvFtl) (key : Nat → UInt8) (keyLen valLen valOffset : Nat) :
    Except KvFault KvFtl := do
  require (valOffset < kv.storageSize) .valOffset
  let slot := kv.getHashSlot key keyLen
  if (kv.kvMappingTable slot).memOffset = none then
    return kv.fillSlotByKey slot key keyLen valLen valOffset
  else
    let (new, prev) ← kv.findNextSlot slot
    return (kv.fillSlotByKey new key keyLen valLen valOffset).chainMapping prev new

/-- `__do_perform_kv_batched_io`. That a value of another length replaces a small one is noticed
(`is_insert = 2`), but nothing is done about it. -/
def doPerformKvBatchedIo (kv : KvFtl) (opcode : KvOpcode) (key : Nat → UInt8) (keyLen : Nat)
    (value : Nat → UInt8) (valLen : Nat) : Except KvFault KvFtl := do
  let entry ← kv.getMappingEntryByKey key keyLen
  match opcode, entry with
  | .store, none =>
    let (offset, kv) := kv.allocateMemOffset valLen
    let kv := { kv with storage := memcpyAt kv.storage offset value valLen }
    kv.newMappingEntryByKey key keyLen valLen offset
  | .store, some (offset, _) =>
    return { kv with storage := memcpyAt kv.storage offset value valLen }
  | _, _ => return kv

/-- One round of the loop of `__do_perform_kv_batch`, with `payload_offset`. -/
def batchRound (payload : PayloadFormat) (st : KvFtl × Nat) (i : Nat) :
    Except KvFault (KvFtl × Nat) := do
  let a := payload.attr i
  let subLen := aligned a.keySize + aligned a.valueSize + alignLen
  let key := memcpyAt (fun _ => 0) 0 (fun j => payload.subPayload (st.2 + j)) a.keySize
  let value := memcpyAt (fun _ => 0) 0
    (fun j => payload.subPayload (st.2 + aligned a.keySize + j)) a.valueSize
  let kv ← st.1.doPerformKvBatchedIo a.opcode key a.keySize value a.valueSize
  return (kv, st.2 + subLen)

/-- `__do_perform_kv_batch`, on the payload that it has copied. -/
def doPerformKvBatch (kv : KvFtl) (payload : PayloadFormat) (subCmdCnt : Nat) :
    Except KvFault KvFtl := do
  let st ← (List.range subCmdCnt).foldlM (batchRound payload) (kv, alignLen)
  return st.1

end KvFtl

/-- From sub-command `i` on the payload lists the commands; their keys and values start at
`offset`. -/
def PayloadFormat.Lists (payload : PayloadFormat) : Nat → Nat → List KvCommand → Prop
  | _, _, [] => True
  | i, offset, cmd :: cmds =>
    payload.attr i =
      { opcode := cmd.opcode, keySize := cmd.keyLength, valueSize := cmd.valueLength } ∧
    (∀ j < cmd.keyLength, payload.subPayload (offset + j) = cmd.key j) ∧
    (∀ j < cmd.valueLength,
      payload.subPayload (offset + aligned cmd.keyLength + j) = cmd.data j) ∧
    payload.Lists (i + 1)
      (offset + (aligned cmd.keyLength + aligned cmd.valueLength + alignLen)) cmds

/-- A batch of at most eight stores. -/
structure PayloadFormat.WellFormed (payload : PayloadFormat) (cmds : List KvCommand) : Prop where
  count : cmds.length ≤ 8
  store : ∀ cmd ∈ cmds, cmd.opcode = .store
  key : ∀ cmd ∈ cmds, cmd.keyLength ≤ 16
  value : ∀ cmd ∈ cmds, cmd.valueLength ≤ 4096
  lists : payload.Lists 0 alignLen cmds

namespace KvFtl

variable {kv kv' : KvFtl} {cmd : KvCommand} {payload : PayloadFormat} {n t o : Nat}

/-! ## Sub-commands -/

/-- A sub-command with the key and the value of a command. -/
def batchStep (kv : KvFtl) (cmd : KvCommand) : Except KvFault KvFtl :=
  kv.doPerformKvBatchedIo cmd.opcode cmd.key cmd.keyLength cmd.data cmd.valueLength

theorem memcpyAt_congr (dst : Nat → UInt8) (offset : Nat) {a b : Nat → UInt8}
    (h : ∀ i < n, a i = b i) : memcpyAt dst offset a n = memcpyAt dst offset b n := by
  ext i
  unfold memcpyAt
  split_ifs with hi
  · rw [h (i - offset) (by omega)]
  · rfl

theorem sameBytes_congr {a b : Nat → UInt8} (h : ∀ i < n, a i = b i) (key : Nat → UInt8) :
    sameBytes n a key = sameBytes n b key := by
  rw [Bool.eq_iff_iff, sameBytes_iff, sameBytes_iff]
  apply forall₂_congr
  intro i hi
  rw [h i hi]

theorem searchLoop_congr {a b : Nat → UInt8} (h : ∀ i < n, a i = b i) (fuel s : Nat) :
    kv.searchLoop a n fuel s = kv.searchLoop b n fuel s := by
  induction fuel generalizing s with
  | zero => rfl
  | succ fuel ih => simp only [searchLoop, sameBytes_congr h, ih]

/-- Only the bytes of the key and of the value matter. -/
theorem doPerformKvBatchedIo_congr {a b u v : Nat → UInt8} {m : Nat} (opcode : KvOpcode)
    (hkey : ∀ i < n, a i = b i) (hvalue : ∀ i < m, u i = v i) :
    kv.doPerformKvBatchedIo opcode a n u m = kv.doPerformKvBatchedIo opcode b n v m := by
  have hslot : ∀ kv : KvFtl, kv.getHashSlot a n = kv.getHashSlot b n := fun kv => by
    rw [getHashSlot, hashFunction_congr (sameBytes_iff.mpr hkey), getHashSlot]
  have hentry : kv.getMappingEntryByKey a n = kv.getMappingEntryByKey b n := by
    rw [getMappingEntryByKey, hslot, searchLoop_congr hkey, getMappingEntryByKey]
  simp only [doPerformKvBatchedIo, hentry, newMappingEntryByKey, hslot, fillSlotByKey,
    memcpyAt_congr _ _ hkey, memcpyAt_congr _ _ hvalue]

/-- A round performs the sub-command that the payload lists. -/
theorem batchRound_eq {i offset : Nat} {cmds : List KvCommand}
    (h : payload.Lists i offset (cmd :: cmds)) : batchRound payload (kv, offset) i =
      (kv.batchStep cmd).map fun kv =>
        (kv, offset + (aligned cmd.keyLength + aligned cmd.valueLength + alignLen)) := by
  obtain ⟨hattr, hkey, hvalue, -⟩ := h
  simp only [batchRound, hattr]
  rw [doPerformKvBatchedIo_congr cmd.opcode (b := cmd.key) (v := cmd.data)]
  · rfl
  · intro j hj
    simp only [memcpyAt, Nat.zero_le, Nat.zero_add, true_and, hj, if_true, Nat.sub_zero]
    exact hkey j hj
  · intro j hj
    simp only [memcpyAt, Nat.zero_le, Nat.zero_add, true_and, hj, if_true, Nat.sub_zero]
    exact hvalue j hj

/-- A batch performs the sub-commands that the payload lists, one after the other. -/
theorem doPerformKvBatch_eq {cmds : List KvCommand} (h : payload.Lists 0 alignLen cmds) :
    kv.doPerformKvBatch payload cmds.length = cmds.foldlM batchStep kv := by
  rw [doPerformKvBatch, List.range_eq_range']
  generalize 0 = i at h
  generalize alignLen = offset at h
  induction cmds generalizing kv i offset with
  | nil => rfl
  | cons cmd cmds ih =>
    rw [List.length_cons, List.range'_succ, List.foldlM_cons, List.foldlM_cons, batchRound_eq h]
    cases kv.batchStep cmd with
    | error e => rfl
    | ok kv₁ => exact ih _ _ h.2.2.2

/-! ## Where a key is placed -/

/-- The slot for a new key, and the slot to link it to. -/
def place (kv : KvFtl) (cmd : KvCommand) : Except KvFault (Nat × Option Nat) := do
  let slot := kv.getHashSlot cmd.key cmd.keyLength
  if (kv.kvMappingTable slot).memOffset = none then return (slot, none)
  else
    let r ← kv.findNextSlot slot
    return (r.1, some r.2)

/-- The table with the new key in its place. -/
def insertAt (kv : KvFtl) (cmd : KvCommand) (valOffset : Nat) (r : Nat × Option Nat) : KvFtl :=
  match r.2 with
  | none => kv.fillSlot r.1 cmd valOffset
  | some prev => (kv.fillSlot r.1 cmd valOffset).chainMapping prev r.1

theorem newMappingEntry_eq (cmd : KvCommand) (valOffset : Nat) :
    kv.newMappingEntry cmd valOffset = do
      require (valOffset < kv.storageSize) .valOffset
      let r ← kv.place cmd
      return kv.insertAt cmd valOffset r := by
  unfold newMappingEntry place
  cases require (valOffset < kv.storageSize) KvFault.valOffset with
  | error e => rfl
  | ok u =>
    simp only [ok_bind]
    split_ifs with hmem
    · rfl
    · cases kv.findNextSlot (kv.getHashSlot cmd.key cmd.keyLength) <;> rfl

/-- Probing stops at a slot that is not in use. -/
theorem probeLoop_free {fuel s y : Nat} (h : kv.probeLoop fuel s = .ok y) :
    (kv.kvMappingTable y).memOffset = none := by
  induction fuel generalizing s with
  | zero => cases h
  | succ fuel ih =>
    rw [probeLoop] at h
    split_ifs at h with hmem
    · cases h
      exact hmem
    · exact ih h
    · exact ih h

theorem place_free {r : Nat × Option Nat} (h : kv.place cmd = .ok r) :
    (kv.kvMappingTable r.1).memOffset = none := by
  unfold place at h
  dsimp only at h
  split_ifs at h with hmem
  · cases h
    exact hmem
  · obtain ⟨p, hfind, h⟩ := bind_eq_ok.mp h
    cases h
    obtain ⟨tail, -, hfind⟩ := bind_eq_ok.mp hfind
    cases tail with
    | none => cases hfind
    | some prev =>
      obtain ⟨y, hprobe, hfind⟩ := bind_eq_ok.mp hfind
      cases hfind
      exact probeLoop_free hprobe

/-- A key that is found is in a slot in use. -/
theorem searchLoop_used {key : Nat → UInt8} {fuel s : Nat}
    (h : kv.searchLoop key n fuel s = .ok (some t)) :
    ∃ o, (kv.kvMappingTable t).memOffset = some o := by
  induction fuel generalizing s with
  | zero => cases h
  | succ fuel ih =>
    rw [searchLoop] at h
    split_ifs at h with hmem hkey
    · cases h
    · cases h
      exact Option.ne_none_iff_exists'.mp hmem
    · split at h
      · cases h
      · exact ih h

/-- What a new key changes in the table. -/
theorem insertAt_apply (cmd : KvCommand) (valOffset : Nat) (r : Nat × Option Nat) (s : Nat) :
    ((kv.insertAt cmd valOffset r).kvMappingTable s).length =
        (if s = r.1 then cmd.valueLength else (kv.kvMappingTable s).length) ∧
      ((kv.insertAt cmd valOffset r).kvMappingTable s).memOffset =
        (if s = r.1 then some valOffset else (kv.kvMappingTable s).memOffset) := by
  have hfill : ∀ u, ((kv.fillSlot r.1 cmd valOffset).kvMappingTable u).length =
        (if u = r.1 then cmd.valueLength else (kv.kvMappingTable u).length) ∧
      ((kv.fillSlot r.1 cmd valOffset).kvMappingTable u).memOffset =
        (if u = r.1 then some valOffset else (kv.kvMappingTable u).memOffset) := by
    intro u
    by_cases hu : u = r.1
    · rw [fillSlot, hu, setSlot_self]
      simp
    · rw [fillSlot, setSlot_of_ne _ _ hu]
      simp [hu]
  unfold insertAt
  split
  · exact hfill s
  · next prev _ =>
    by_cases hs : s = prev
    · subst hs
      rw [chainMapping, setSlot_self]
      exact hfill s
    · rw [chainMapping, setSlot_of_ne _ _ hs]
      exact hfill s

/-! ## Other lengths, other bytes -/

/-- The lengths of all entries. -/
def lengths (kv : KvFtl) (s : Nat) : Nat := (kv.kvMappingTable s).length

/-- The table with other lengths, before a storage with other bytes. -/
def withValues (kv : KvFtl) (len : Nat → Nat) (storage : Nat → UInt8) : KvFtl :=
  { kv with
    kvMappingTable := fun s => { kv.kvMappingTable s with length := len s }
    storage }

variable {len : Nat → Nat} {storage : Nat → UInt8}

theorem sameChains_withValues (kv : KvFtl) (len : Nat → Nat) (storage : Nat → UInt8) :
    kv.SameChains (kv.withValues len storage) := ⟨rfl, fun _ => rfl, fun _ => rfl, fun _ => rfl⟩

namespace SameChains

theorem searchLoop_eq (h : kv.SameChains kv') (key : Nat → UInt8) (fuel s : Nat) :
    kv'.searchLoop key n fuel s = kv.searchLoop key n fuel s := by
  induction fuel generalizing s with
  | zero => rfl
  | succ fuel ih => simp only [searchLoop, h.memOffset, h.key, h.nextSlot, ih]

theorem search_eq (h : kv.SameChains kv') (cmd : KvCommand) : kv'.search cmd = kv.search cmd := by
  rw [search, getHashSlot, h.hashSlots, h.searchLoop_eq]
  rfl

theorem tailLoop_eq (h : kv.SameChains kv') (fuel s : Nat) (prevs : Option Nat) :
    kv'.tailLoop fuel s prevs = kv.tailLoop fuel s prevs := by
  induction fuel generalizing s prevs with
  | zero => rfl
  | succ fuel ih => simp only [tailLoop, h.memOffset, h.nextSlot, ih]

theorem probeLoop_eq (h : kv.SameChains kv') (fuel s : Nat) :
    kv'.probeLoop fuel s = kv.probeLoop fuel s := by
  induction fuel generalizing s with
  | zero => rfl
  | succ fuel ih => simp only [probeLoop, h.memOffset, h.hashSlots, ih]

theorem place_eq (h : kv.SameChains kv') (cmd : KvCommand) : kv'.place cmd = kv.place cmd := by
  simp only [place, getHashSlot, findNextSlot, h.hashSlots, h.memOffset, h.tailLoop_eq,
    h.probeLoop_eq]
  rfl

end SameChains

theorem setSlot_withValues (s l : Nat) (e : MappingEntry) :
    (kv.withValues len storage).setSlot s { e with length := l } =
      (kv.setSlot s e).withValues (Function.update len s l) storage := by
  simp only [setSlot, withValues, KvFtl.mk.injEq, and_true]
  ext u : 1
  by_cases hu : u = s
  · subst hu
    simp only [Function.update_self]
  · simp only [Function.update_of_ne hu]

/-- A new key with the length that is noted for it. -/
theorem insertAt_withValues (valOffset : Nat) (r : Nat × Option Nat) :
    (kv.withValues len storage).insertAt cmd valOffset r =
      (kv.insertAt cmd valOffset r).withValues (Function.update len r.1 cmd.valueLength)
        storage := by
  have hfill : (kv.withValues len storage).fillSlot r.1 cmd valOffset =
      (kv.fillSlot r.1 cmd valOffset).withValues (Function.update len r.1 cmd.valueLength)
        storage := 
    setSlot_withValues r.1 cmd.valueLength { kv.kvMappingTable r.1 with
      key := memcpyAt (kv.kvMappingTable r.1).key 0 cmd.key cmd.keyLength
      memOffset := some valOffset
      length := cmd.valueLength }
  unfold insertAt
  split
  · exact hfill
  · next prev _ =>
    rw [hfill, chainMapping, chainMapping]
    refine (setSlot_withValues prev (Function.update len r.1 cmd.valueLength prev)
      { (kv.fillSlot r.1 cmd valOffset).kvMappingTable prev with nextSlot := some r.1 }).trans ?_
    rw [Function.update_eq_self]

/-- Both tables differ in a length exactly when their lists of lengths do. -/
theorem withValues_inj {len' : Nat → Nat} :
    kv.withValues len storage = kv.withValues len' storage ↔ ∀ s, len s = len' s := by
  constructor
  · intro h s
    exact congrArg (fun kv : KvFtl => (kv.kvMappingTable s).length) h
  · intro h
    rw [funext h]

/-! ## What a store notes -/

/-- A value for the entry in a slot, with the length that the entry had first. -/
structure Hit where
  slot : Nat
  entry : Nat
  value : Nat
  deriving DecidableEq, Repr

/-- Both lengths are small, so that the new one is to be noted. -/
def Hit.Small (h : Hit) : Prop := h.value ≤ smallLength ∧ h.entry ≤ smallLength

instance (h : Hit) : Decidable h.Small := inferInstanceAs (Decidable (_ ∧ _))

/-- The entry that a store finds or creates, and the table with it. -/
def hit (kv : KvFtl) (cmd : KvCommand) : Except KvFault (Hit × KvFtl) := do
  match ← kv.search cmd with
  | some t => return ({ slot := t, entry := kv.lengths t, value := cmd.valueLength }, kv)
  | none =>
    require (kv.latest < kv.storageSize) .valOffset
    let r ← kv.place cmd
    return ({ slot := r.1, entry := cmd.valueLength, value := cmd.valueLength },
      (kv.allocated cmd).insertAt cmd kv.latest r)

/-- The entries of all stores, one after the other. -/
def hits (kv : KvFtl) (cmds : List KvCommand) : Except KvFault (List Hit × KvFtl) :=
  cmds.foldlM (fun st cmd => (st.2.hit cmd).map fun r => (st.1 ++ [r.1], r.2)) ([], kv)

/-- The last length to be noted in a slot. -/
def lastSmall (hs : List Hit) (s : Nat) : Option Hit :=
  (hs.filter fun h => h.slot = s ∧ h.Small).getLast?

/-- The last length to be noted for an entry is the one that it has. -/
def Restored (hs : List Hit) (s : Nat) : Prop := ∀ h, lastSmall hs s = some h → h.value = h.entry

theorem restored_append (hs : List Hit) (h : Hit) (s : Nat) :
    Restored (hs ++ [h]) s ↔
      if h.slot = s ∧ h.Small then h.value = h.entry else Restored hs s := by
  unfold Restored lastSmall
  rw [List.filter_append]
  split_ifs with hc
  · simp [hc]
  · simp [hc]

/-! ## Both runs -/

/-- A new key is stored in the same way by both. -/
theorem batchStep_new (hop : cmd.opcode = .store) (hsearch : kv.search cmd = .ok none) :
    kv.batchStep cmd = kv.step cmd := by
  have hentry : kv.getMappingEntryByKey cmd.key cmd.keyLength = .ok none := by
    change (kv.search cmd >>= fun _ => _) = _
    rw [hsearch]
    rfl
  rw [step_new_eq hsearch hop, batchStep, doPerformKvBatchedIo, hentry, ok_bind, hop]
  rfl

/-- A sub-command for an entry writes its value. -/
theorem batchStep_old (hop : cmd.opcode = .store) (hsearch : kv.search cmd = .ok (some t))
    (ho : (kv.kvMappingTable t).memOffset = some o) : kv.batchStep cmd =
      .ok { kv with storage := memcpyAt kv.storage o cmd.data cmd.valueLength } := by
  have hentry : kv.getMappingEntryByKey cmd.key cmd.keyLength = .ok (some (o, kv.lengths t)) := by
    change (kv.search cmd >>= fun _ => _) = _
    rw [hsearch, ok_bind, Option.bind_some, ho]
    rfl
  rw [batchStep, doPerformKvBatchedIo, hentry, ok_bind, hop]
  rfl

/-- A single store for an entry writes its value, and notes its length when both are small. -/
theorem step_old (hop : cmd.opcode = .store) (hsearch : kv.search cmd = .ok (some t))
    (ho : (kv.kvMappingTable t).memOffset = some o) : (kv.withValues len storage).step cmd =
      .ok (kv.withValues
        (if cmd.valueLength ≠ len t ∧ cmd.valueLength ≤ smallLength ∧ len t ≤ smallLength then
          Function.update len t cmd.valueLength else len)
        (memcpyAt storage o cmd.data cmd.valueLength)) := by
  have ho' : ((kv.withValues len storage).kvMappingTable t).memOffset = some o := ho
  have hlen : ((kv.withValues len storage).kvMappingTable t).length = len t := rfl
  have hsearch₀ := ((kv.sameChains_withValues len storage).search_eq cmd).trans hsearch
  rw [step, doPerformKvIo, getMappingEntry_eq hsearch₀, ok_bind,
    Option.bind_some, ho', Option.map_some]
  simp only [hop, hlen]
  split_ifs with hsmall
  · have hsearch' := ((kv.sameChains_withValues len
      (memcpyAt storage o cmd.data cmd.valueLength)).search_eq cmd).trans hsearch
    have hset := @setSlot_withValues kv len (memcpyAt storage o cmd.data cmd.valueLength) t
      cmd.valueLength (kv.kvMappingTable t)
    have hself : kv.setSlot t (kv.kvMappingTable t) = kv := by
      rw [setSlot, Function.update_eq_self]
    rw [hself] at hset
    rw [← hset]
    change ((kv.withValues len (memcpyAt storage o cmd.data cmd.valueLength)).updateMappingEntry
      cmd >>= _) >>= _ = _
    rw [updateMappingEntry, hsearch']
    rfl
  · rfl

/-- The single stores have come to the lengths `len` where the batch has come to `kv`. -/
structure Tracks (hs : List Hit) (kv : KvFtl) (len : Nat → Nat) : Prop where
  restored : ∀ s, len s = kv.lengths s ↔ Restored hs s
  small : ∀ s, len s ≠ kv.lengths s → len s ≤ smallLength ∧ kv.lengths s ≤ smallLength
  free : ∀ s, (kv.kvMappingTable s).memOffset = none → len s = kv.lengths s

theorem tracks_init (kv : KvFtl) : Tracks [] kv kv.lengths :=
  ⟨fun _ => by simp [Restored, lastSmall], fun _ h => absurd rfl h, fun _ _ => rfl⟩

/-- An entry gets a value. -/
theorem Tracks.old {hs : List Hit} (h : Tracks hs kv len) (v : Nat)
    (ho : (kv.kvMappingTable t).memOffset = some o) :
    Tracks (hs ++ [{ slot := t, entry := kv.lengths t, value := v }]) kv
      (if v ≠ len t ∧ v ≤ smallLength ∧ len t ≤ smallLength then Function.update len t v
        else len) := by
  -- Both runs take the same length for small.
  have hsmall : len t ≤ smallLength ↔ kv.lengths t ≤ smallLength := by
    by_cases heq : len t = kv.lengths t
    · rw [heq]
    · exact iff_of_true (h.small t heq).1 (h.small t heq).2
  have hother : ∀ s, s ≠ t → (if v ≠ len t ∧ v ≤ smallLength ∧ len t ≤ smallLength then
      Function.update len t v else len) s = len s := by
    intro s hs
    split_ifs
    · exact Function.update_of_ne hs ..
    · rfl
  have hown : (if v ≠ len t ∧ v ≤ smallLength ∧ len t ≤ smallLength then
      Function.update len t v else len) t =
        if v ≤ smallLength ∧ kv.lengths t ≤ smallLength then v else len t := by
    simp only [← hsmall]
    by_cases hv : v = len t
    · simp [hv]
    · split_ifs with h₁ h₂ h₂
      · exact Function.update_self ..
      · exact absurd h₁.2 h₂
      · exact absurd ⟨hv, h₂⟩ h₁
      · rfl
  constructor
  · intro s
    rw [restored_append]
    by_cases hs : s = t
    · subst hs
      rw [hown]
      simp only [Hit.Small, true_and]
      split_ifs
      · rfl
      · exact h.restored s
    · rw [hother s hs, if_neg fun hc => hs hc.1.symm]
      exact h.restored s
  · intro s hne
    by_cases hs : s = t
    · subst hs
      rw [hown] at hne ⊢
      split_ifs at hne ⊢ with hc
      · exact hc
      · exact h.small s hne
    · rw [hother s hs] at hne ⊢
      exact h.small s hne
  · intro s hfree
    have hs : s ≠ t := by
      rintro rfl
      rw [ho] at hfree
      cases hfree
    rw [hother s hs]
    exact h.free s hfree

/-- A new key gets an entry. -/
theorem Tracks.new {hs : List Hit} {r : Nat × Option Nat} (h : Tracks hs kv len)
    (hr : (kv.kvMappingTable r.1).memOffset = none) (cmd : KvCommand) (valOffset : Nat) :
    Tracks (hs ++ [{ slot := r.1, entry := cmd.valueLength, value := cmd.valueLength }])
      ((kv.allocated cmd).insertAt cmd valOffset r)
      (Function.update len r.1 cmd.valueLength) := by
  have hnew : ∀ s, ((kv.allocated cmd).insertAt cmd valOffset r).lengths s =
      if s = r.1 then cmd.valueLength else kv.lengths s := fun s =>
    ((kv.allocated cmd).insertAt_apply cmd valOffset r s).1
  have hoff : ∀ s, (((kv.allocated cmd).insertAt cmd valOffset r).kvMappingTable s).memOffset =
      if s = r.1 then some valOffset else (kv.kvMappingTable s).memOffset := fun s =>
    ((kv.allocated cmd).insertAt_apply cmd valOffset r s).2
  constructor
  · intro s
    rw [restored_append, hnew]
    by_cases hs : s = r.1
    · subst hs
      have hold := (h.restored r.1).mp (h.free r.1 hr)
      simp only [Function.update_self, if_true, true_and]
      split_ifs
      · rfl
      · exact iff_of_true trivial hold
    · rw [Function.update_of_ne hs, if_neg hs, if_neg fun hc => hs hc.1.symm]
      exact h.restored s
  · intro s hne
    rw [hnew] at hne ⊢
    by_cases hs : s = r.1
    · subst hs
      simp at hne
    · rw [Function.update_of_ne hs, if_neg hs] at hne ⊢
      exact h.small s hne
  · intro s hfree
    rw [hoff] at hfree
    rw [hnew]
    by_cases hs : s = r.1
    · subst hs
      simp at hfree
    · rw [if_neg hs] at hfree ⊢
      rw [Function.update_of_ne hs]
      exact h.free s hfree

/-- A store of a new key. -/
theorem step_new_withValues (hop : cmd.opcode = .store) (hsearch : kv.search cmd = .ok none) :
    (kv.withValues len storage).step cmd = do
      require (kv.latest < kv.storageSize) .valOffset
      let r ← kv.place cmd
      return ((kv.allocated cmd).insertAt cmd kv.latest r).withValues
        (Function.update len r.1 cmd.valueLength)
        (memcpyAt storage kv.latest cmd.data cmd.valueLength) := by
  have hchains := kv.sameChains_withValues len storage
  have halloc : (kv.withValues len storage).allocated cmd = (kv.allocated cmd).withValues len
      (memcpyAt storage kv.latest cmd.data cmd.valueLength) := rfl
  rw [step_new_eq ((hchains.search_eq cmd).trans hsearch) hop, newMappingEntry_eq,
    ((kv.withValues len storage).sameChains_allocated cmd).place_eq, hchains.place_eq, halloc]
  simp only [insertAt_withValues]
  rfl

/-- A store that finds no end or no room aborts in both runs. -/
theorem hit_error {e : KvFault} (hop : cmd.opcode = .store) (h : kv.hit cmd = .error e) :
    (kv.withValues kv.lengths storage).batchStep cmd = .error e ∧
      (kv.withValues len storage).step cmd = .error e := by
  have hbatch := (kv.sameChains_withValues kv.lengths storage).search_eq cmd
  have hsingle := (kv.sameChains_withValues len storage).search_eq cmd
  rw [hit] at h
  cases hsearch : kv.search cmd with
  | error e' =>
    rw [hsearch] at h hbatch hsingle
    cases h
    constructor
    · change (((kv.withValues kv.lengths storage).search cmd >>= _) >>= _) = _
      rw [hbatch]
      rfl
    · change ((((kv.withValues len storage).search cmd >>= _) >>= _) >>= _) = _
      rw [hsingle]
      rfl
  | ok found =>
    rw [hsearch, ok_bind] at h
    cases found with
    | some t => cases h
    | none =>
      have hnew : ∀ len : Nat → Nat, (kv.withValues len storage).step cmd = .error e := by
        intro len
        rw [step_new_withValues hop hsearch]
        cases hreq : require (kv.latest < kv.storageSize) KvFault.valOffset with
        | error e' =>
          rw [hreq] at h
          cases h
          rfl
        | ok u =>
          rw [hreq, ok_bind] at h
          rw [ok_bind]
          cases hplace : kv.place cmd with
          | error e' =>
            rw [hplace] at h
            cases h
            rfl
          | ok r =>
            rw [hplace] at h
            cases h
      exact ⟨(batchStep_new hop (hbatch.trans hsearch)).trans (hnew _), hnew len⟩

/-- One store in both runs. -/
theorem hit_ok {hs : List Hit} {r : Hit × KvFtl} (hop : cmd.opcode = .store)
    (ht : Tracks hs kv len) (h : kv.hit cmd = .ok r) :
    ∃ len' storage', (kv.withValues kv.lengths storage).batchStep cmd =
        .ok (r.2.withValues r.2.lengths storage') ∧
      (kv.withValues len storage).step cmd = .ok (r.2.withValues len' storage') ∧
      Tracks (hs ++ [r.1]) r.2 len' := by
  have hbatch := (kv.sameChains_withValues kv.lengths storage).search_eq cmd
  rw [hit] at h
  obtain ⟨found, hsearch, h⟩ := bind_eq_ok.mp h
  rw [hsearch] at hbatch
  cases found with
  | some t =>
    cases h
    obtain ⟨o, ho⟩ := searchLoop_used hsearch
    exact ⟨_, _, batchStep_old hop hbatch ho, step_old hop hsearch ho, ht.old cmd.valueLength ho⟩
  | none =>
    obtain ⟨u, hreq, h⟩ := bind_eq_ok.mp h
    obtain ⟨p, hplace, h⟩ := bind_eq_ok.mp h
    cases h
    have hnew : ∀ len : Nat → Nat, (kv.withValues len storage).step cmd =
        .ok (((kv.allocated cmd).insertAt cmd kv.latest p).withValues
          (Function.update len p.1 cmd.valueLength)
          (memcpyAt storage kv.latest cmd.data cmd.valueLength)) := by
      intro len
      rw [step_new_withValues hop hsearch, hreq, ok_bind, hplace]
      rfl
    have hlen : Function.update kv.lengths p.1 cmd.valueLength =
        ((kv.allocated cmd).insertAt cmd kv.latest p).lengths := by
      ext s
      rw [Function.update_apply]
      exact ((kv.allocated cmd).insertAt_apply cmd kv.latest p s).1.symm
    refine ⟨_, _, ?_, hnew len, ht.new (place_free hplace) cmd kv.latest⟩
    rw [batchStep_new hop hbatch, hnew, hlen]

/-- Both runs abort in the same way, or come to the same table but for the lengths. -/
theorem hits_run {hs : List Hit} {cmds : List KvCommand} (hops : ∀ cmd ∈ cmds, cmd.opcode = .store)
    (ht : Tracks hs kv len) :
    let run := cmds.foldlM (fun (st : List Hit × KvFtl) cmd =>
      (st.2.hit cmd).map fun r => (st.1 ++ [r.1], r.2)) (hs, kv)
    (∃ e, run = .error e ∧ cmds.foldlM batchStep (kv.withValues kv.lengths storage) = .error e ∧
        cmds.foldlM step (kv.withValues len storage) = .error e) ∨
      ∃ r len' storage', run = .ok r ∧
        cmds.foldlM batchStep (kv.withValues kv.lengths storage) =
          .ok (r.2.withValues r.2.lengths storage') ∧
        cmds.foldlM step (kv.withValues len storage) = .ok (r.2.withValues len' storage') ∧
        Tracks r.1 r.2 len' := by
  induction cmds generalizing hs kv len storage with
  | nil => exact Or.inr ⟨(hs, kv), len, storage, rfl, rfl, rfl, ht⟩
  | cons cmd cmds ih =>
    have hop := hops cmd (List.mem_cons_self ..)
    simp only [List.foldlM_cons]
    cases hhit : kv.hit cmd with
    | error e =>
      obtain ⟨hbatch, hsingle⟩ := @hit_error kv cmd len storage e hop hhit
      rw [hbatch, hsingle]
      exact Or.inl ⟨e, rfl, rfl, rfl⟩
    | ok r =>
      obtain ⟨len', storage', hbatch, hsingle, ht'⟩ := @hit_ok kv cmd len storage hs r hop ht hhit
      rw [hbatch, hsingle]
      exact ih (fun c hc => hops c (List.mem_cons_of_mem cmd hc)) ht'

end KvFtl

/-- A batch of stores leaves what its stores leave one by one, if and only if for each entry the last
length to be noted is the one that the entry has. -/
theorem batch_eq_stores_iff (kv : KvFtl) (payload : PayloadFormat) (cmds : List KvCommand)
    (hwf : payload.WellFormed cmds) :
    kv.doPerformKvBatch payload cmds.length = cmds.foldlM KvFtl.step kv ↔
      ∀ hs kv', kv.hits cmds = .ok (hs, kv') → ∀ s, KvFtl.Restored hs s := by
  rw [KvFtl.doPerformKvBatch_eq hwf.lists]
  rcases @KvFtl.hits_run kv kv.lengths kv.storage [] cmds hwf.store kv.tracks_init with
    ⟨e, hrun, hbatch, hsingle⟩ | ⟨r, len, storage, hrun, hbatch, hsingle, htracks⟩
  · apply iff_of_true (hbatch.trans hsingle.symm)
    intro hs kv' h
    cases h.symm.trans hrun
  · have heq : cmds.foldlM KvFtl.batchStep kv = cmds.foldlM KvFtl.step kv ↔
        ∀ s, r.2.lengths s = len s := by
      change cmds.foldlM KvFtl.batchStep kv = _ at hbatch
      change cmds.foldlM KvFtl.step kv = _ at hsingle
      rw [hbatch, hsingle, Except.ok.injEq, KvFtl.withValues_inj]
    rw [heq]
    constructor
    · intro hlen hs kv' h s
      cases h.symm.trans hrun
      exact (htracks.restored s).mp (hlen s).symm
    · intro hall s
      exact ((htracks.restored s).mpr (hall r.1 r.2 hrun s)).symm

/-- Two stores of the key 0: a value of four bytes, then one of `4 * words` bytes. -/
def twoStores (words : Nat) : List KvCommand :=
  [fourByteCommand .store 0 7, { fourByteCommand .store 0 9 with valueLen := words }]

/-- The keys and the values of the two stores. -/
def twoStoreBytes (i : Nat) : UInt8 :=
  if 320 ≤ i then 9 else if 128 ≤ i ∧ i < 192 then 7 else 0

/-- The batch of the two stores. -/
def twoStorePayload (words : Nat) : PayloadFormat where
  attr := fun i =>
    { opcode := .store, keySize := 4, valueSize := if i = 0 then 4 else u32 (words * 4) }
  subPayload := twoStoreBytes

theorem wellFormed_twoStores {words : Nat} (h : words ≤ 1024) :
    (twoStorePayload words).WellFormed (twoStores words) := by
  have hlen : u32 (words * 4) ≤ 4096 := (Nat.mod_le ..).trans (by omega)
  constructor
  · exact Nat.le_of_ble_eq_true rfl
  · simp [twoStores, fourByteCommand]
  · simp [twoStores, fourByteCommand, KvCommand.keyLength]
  · simp only [twoStores, List.forall_mem_cons, KvCommand.valueLength]
    exact ⟨by decide, hlen, by simp⟩
  · have hkey : ∀ j < 4, twoStoreBytes (64 + j) = 0 ∧ twoStoreBytes (256 + j) = 0 := by decide
    have hvalue : ∀ j < 4, twoStoreBytes (128 + j) = 7 := by decide
    have hzero : ∀ value j, (fourByteCommand .store 0 value).key j = 0 := fun value j => ite_self 0
    refine ⟨rfl, fun j hj => ?_, hvalue, rfl, fun j hj => ?_, fun j _ => ?_, trivial⟩
    · exact (hkey j hj).1.trans (hzero 7 j).symm
    · exact (hkey j hj).2.trans (hzero 9 j).symm
    · have hoff : alignLen + (aligned 4 + aligned (u32 (1 * 4)) + alignLen) + aligned 4 = 320 := by
        decide
      change twoStoreBytes
        (alignLen + (aligned 4 + aligned (u32 (1 * 4)) + alignLen) + aligned 4 + j) = 9
      rw [hoff]
      exact if_pos (Nat.le_add_right 320 j)

/-- The second value has the length of the first. -/
theorem batch_eq_stores_iff_two :
    (kvInitNamespace 3 64 fun _ => 0).doPerformKvBatch (twoStorePayload 1) 2 =
        (twoStores 1).foldlM KvFtl.step (kvInitNamespace 3 64 fun _ => 0) ↔
      ∀ hs kv', (kvInitNamespace 3 64 fun _ => 0).hits (twoStores 1) = .ok (hs, kv') →
        ∀ s, KvFtl.Restored hs s :=
  batch_eq_stores_iff (kvInitNamespace 3 64 fun _ => 0) (twoStorePayload 1) (twoStores 1)
    (wellFormed_twoStores (by simp))

/-- The second value has eight bytes. After the batch only four of them are read. -/
theorem batch_keeps_length : (twoStorePayload 2).WellFormed (twoStores 2) ∧
    ((kvInitNamespace 3 64 fun _ => 0).doPerformKvBatch (twoStorePayload 2) 2 >>=
        fun kv => kv.reply (KvFtl.retrieveOf (fun _ => 0) 3 2)) =
      .ok { result0 := 4, status := kvSuccess, data := [9, 9, 9, 9] } ∧
    ((twoStores 2).foldlM KvFtl.step (kvInitNamespace 3 64 fun _ => 0) >>=
        fun kv => kv.reply (KvFtl.retrieveOf (fun _ => 0) 3 2)) =
      .ok { result0 := 8, status := kvSuccess, data := [9, 9, 9, 9, 9, 9, 9, 9] } := by
  refine ⟨wellFormed_twoStores (by simp), ?_, ?_⟩
  all_goals decide +kernel

end NvmeVirt
