import NvmeVirt.Kv.Acyclic

/-!
# Iterators

An iterator goes over the slots and copies the keys that match to a buffer of 1024 bytes, at most 51
in a read. The position is saved, so every key that matches is copied once, in the order of the
slots. What is copied are 16 bytes, however long the key is.
-/

namespace NvmeVirt

open Checked Bytes

/-! ## Reads -/

/-- `struct kv_iter_context`, as far as it is read; `keyPrefix` is the field `prefix`. -/
structure KvIterContext where
  buf : Nat → UInt8
  currentPos : Nat
  bitmask : Nat
  keyPrefix : Nat

/-- The bits of the first four bytes of a key. -/
def KvIterContext.Matches (handle : KvIterContext) (key : Nat → UInt8) : Prop :=
  readLe key 0 4 &&& handle.bitmask = handle.keyPrefix &&& handle.bitmask

instance (handle : KvIterContext) (key : Nat → UInt8) : Decidable (handle.Matches key) :=
  inferInstanceAs (Decidable (_ = _))

/-- `iter_handle`. -/
abbrev IterHandles := Nat → Option KvIterContext

/-- `kv_iter_open`: the number of the first handle that is free, with a new buffer; 1 if there is
none. -/
def kvIterOpen (handles : IterHandles) (buf : Nat → UInt8) (bitmask keyPrefix : Nat) :
    Nat × IterHandles :=
  match (List.range' 1 16).find? fun iter => (handles iter).isNone with
  | none => (1, handles)
  | some iter => (iter, Function.update handles iter (some { buf, currentPos := 0, bitmask, keyPrefix }))

/-- `keylen` of `kv_iter_read`, and the size of the buffer of a read. -/
def iterKeyLen : Nat := 16

@[inherit_doc iterKeyLen] def iterBufLen : Nat := 1024

/-- The variables of the loop of `kv_iter_read`, and the buffer. -/
structure IterState where
  pos : Nat
  buf : Nat → UInt8
  bufOffset : Nat
  nrKeys : Nat
  ended : Bool

/-- What a read reports: its length, the status and the bytes for the host. -/
structure IterRead where
  length : Nat
  status : Nat
  data : Nat → UInt8

/-- The status of the read that comes to the end of the table. -/
def iterEnd : Nat := 0x393

namespace KvFtl

/-- The slot is in use and its key matches. -/
def Selects (kv : KvFtl) (handle : KvIterContext) (s : Nat) : Prop :=
  (kv.kvMappingTable s).memOffset ≠ none ∧ handle.Matches (kv.kvMappingTable s).key

instance (kv : KvFtl) (handle : KvIterContext) (s : Nat) : Decidable (kv.Selects handle s) :=
  inferInstanceAs (Decidable (_ ∧ _))

/-- One slot: its key is added to the buffer if it matches. The buffer may be full. -/
def iterSlot (kv : KvFtl) (handle : KvIterContext) (st : IterState) : Option IterState :=
  if kv.Selects handle st.pos then
    if st.bufOffset + 4 + iterKeyLen > iterBufLen then none
    else
      let buf := memcpyAt st.buf st.bufOffset (leByte iterKeyLen) 4
      some { st with
        buf := memcpyAt buf (st.bufOffset + 4) (kv.kvMappingTable st.pos).key iterKeyLen
        bufOffset := st.bufOffset + 4 + (iterKeyLen + 3) / 4 * 4
        nrKeys := st.nrKeys + 1 }
  else some st

/-- The loop of `kv_iter_read`, of as many rounds as slots are left. -/
def iterLoop (kv : KvFtl) (handle : KvIterContext) : Nat → IterState → IterState
  | 0, st => st
  | rounds + 1, st =>
    match kv.iterSlot handle st with
    | none => st
    | some st =>
      if st.pos + 1 = kv.hashSlots then { st with pos := st.pos + 1, ended := true }
      else kv.iterLoop handle rounds { st with pos := st.pos + 1 }

/-- `kv_iter_read` with an open handle. -/
def readHandle (kv : KvFtl) (handle : KvIterContext) : IterRead × KvIterContext :=
  let st := kv.iterLoop handle (kv.hashSlots - handle.currentPos)
    { pos := handle.currentPos, buf := handle.buf, bufOffset := 4, nrKeys := 0, ended := false }
  let buf := memcpyAt st.buf 0 (leByte st.nrKeys) 4
  ({ length := st.bufOffset, status := if st.ended then iterEnd else 0, data := buf },
    { handle with buf, currentPos := st.pos })

/-- `kv_iter_read`; a handle that is not open leaves the status alone. -/
def kvIterRead (kv : KvFtl) (iter status : Nat) (handles : IterHandles) : IterRead × IterHandles :=
  match handles iter with
  | none => ({ length := 0, status, data := fun _ => 0 }, handles)
  | some handle =>
    let (r, handle) := kv.readHandle handle
    (r, Function.update handles iter (some handle))

/-- A host that reads until it is told that the table has ended. -/
def iterate (kv : KvFtl) (iter : Nat) : Nat → IterHandles → Except KvFault (List IterRead)
  | 0, _ => .error .endless
  | fuel + 1, handles =>
    let (r, handles) := kv.kvIterRead iter kvSuccess handles
    if r.status = iterEnd then .ok [r]
    else do
      let reads ← kv.iterate iter fuel handles
      return r :: reads

end KvFtl

/-! ## Records -/

/-- The records from `off` to `stop`: a length, and so many bytes that are filled up to a word. -/
def records (mem : Nat → UInt8) (stop : Nat) : Nat → Nat → List (List UInt8)
  | 0, _ => []
  | rounds + 1, off =>
    if off < stop then
      let len := readLe mem off 4
      bytesAt mem (off + 4) len :: records mem stop rounds (off + 4 + (len + 3) / 4 * 4)
    else []

/-- The keys that a read delivers. -/
def IterRead.keys (r : IterRead) : List (List UInt8) := records r.data r.length r.length 4

/-- The first word of a read is the number of records in it, and it has at most 1024 bytes. -/
structure IterRead.WellFormed (r : IterRead) : Prop where
  count : readLe r.data 0 4 = r.keys.length
  length : r.length ≤ iterBufLen

/-- From `off` on the memory has a record of 16 bytes for each key. -/
def Recorded (mem : Nat → UInt8) : Nat → List (List UInt8) → Prop
  | _, [] => True
  | off, key :: keys =>
    readLe mem off 4 = iterKeyLen ∧ bytesAt mem (off + 4) iterKeyLen = key ∧
      Recorded mem (off + 20) keys

section

variable {mem mem' : Nat → UInt8} {off rounds : Nat} {key : List UInt8} {keys : List (List UInt8)}

theorem Recorded.congr (h : Recorded mem off keys)
    (heq : ∀ a, off ≤ a → a < off + 20 * keys.length → mem' a = mem a) :
    Recorded mem' off keys := by
  induction keys generalizing off with
  | nil => trivial
  | cons key keys ih =>
    obtain ⟨hlen, hkey, hrest⟩ := h
    rw [List.length_cons] at heq
    refine ⟨?_, ?_, ih hrest fun a hlow hhigh => heq a (by omega) (by omega)⟩
    · rw [← hlen]
      apply readLe_congr
      intro i hi
      exact heq _ (by omega) (by omega)
    · rw [← hkey]
      apply bytesAt_congr
      intro i hi
      simp only [iterKeyLen] at hi
      exact heq _ (by omega) (by omega)

theorem Recorded.concat (h : Recorded mem off keys)
    (hlen : readLe mem (off + 20 * keys.length) 4 = iterKeyLen)
    (hkey : bytesAt mem (off + 20 * keys.length + 4) iterKeyLen = key) :
    Recorded mem off (keys ++ [key]) := by
  induction keys generalizing off with
  | nil => exact ⟨hlen, hkey, trivial⟩
  | cons first keys ih =>
    have hoff : off + 20 + 20 * keys.length = off + 20 * (keys.length + 1) := by omega
    refine ⟨h.1, h.2.1, ih h.2.2 ?_ ?_⟩
    · rw [hoff]
      exact hlen
    · rw [hoff]
      exact hkey

/-- A record is added behind the others. -/
theorem Recorded.add (h : Recorded mem off keys) {stop : Nat} (hstop : stop = off + 20 * keys.length)
    (src : Nat → UInt8) :
    Recorded (memcpyAt (memcpyAt mem stop (leByte iterKeyLen) 4) (stop + 4) src iterKeyLen) off
      (keys ++ [bytesAt src 0 iterKeyLen]) := by
  apply Recorded.concat
  · apply h.congr
    intro a _ hhigh
    rw [memcpyAt_of_out (by omega), memcpyAt_of_out (by omega)]
  · rw [← hstop, readLe_memcpyAt_of_out (by omega), readLe_memcpyAt_self (by decide)]
  · rw [← hstop]
    exact bytesAt_memcpyAt ..

/-- What was recorded is read. -/
theorem Recorded.records_eq (h : Recorded mem off keys) (hrounds : keys.length ≤ rounds) :
    records mem (off + 20 * keys.length) rounds off = keys := by
  induction keys generalizing off rounds with
  | nil =>
    cases rounds with
    | zero => rfl
    | succ rounds => simp [records]
  | cons key keys ih =>
    obtain ⟨hlen, hkey, hrest⟩ := h
    rw [List.length_cons] at hrounds ⊢
    obtain ⟨rounds, rfl⟩ : ∃ k, rounds = k + 1 := ⟨rounds - 1, by omega⟩
    have hoff : off + 20 * (keys.length + 1) = off + 20 + 20 * keys.length := by omega
    rw [records, if_pos (by omega)]
    dsimp only
    rw [hlen, hkey, hoff]
    congr 1
    exact ih hrest (by omega)

end

/-! ## What a read delivers -/

namespace KvFtl

variable {kv : KvFtl} {handle : KvIterContext} {st st' : IterState} {lo m : Nat}

/-- The slots from `lo` on, `m` of them, whose keys match. -/
def selected (kv : KvFtl) (handle : KvIterContext) (lo m : Nat) : List Nat :=
  (List.range' lo m).filter fun s => kv.Selects handle s

/-- What is delivered of the key in a slot. -/
def iterKey (kv : KvFtl) (s : Nat) : List UInt8 := bytesAt (kv.kvMappingTable s).key 0 iterKeyLen

theorem selected_succ (kv : KvFtl) (handle : KvIterContext) (lo m : Nat) :
    kv.selected handle lo (m + 1) =
      kv.selected handle lo m ++ if kv.Selects handle (lo + m) then [lo + m] else [] := by
  rw [selected, List.range'_1_concat, List.filter_append]
  by_cases hsel : kv.Selects handle (lo + m)
  · simp [selected, hsel]
  · simp [selected, hsel]

theorem selected_add (kv : KvFtl) (handle : KvIterContext) (lo m k : Nat) :
    kv.selected handle lo (m + k) = kv.selected handle lo m ++ kv.selected handle (lo + m) k := by
  rw [selected, ← List.range'_append_1, List.filter_append]
  rfl

/-- The buffer holds the keys of the matching slots from `lo` to the position, and their number. -/
structure Collected (kv : KvFtl) (handle : KvIterContext) (lo m : Nat) (st : IterState) : Prop where
  pos : st.pos = lo + m
  recorded : Recorded st.buf 4 ((kv.selected handle lo m).map kv.iterKey)
  nrKeys : st.nrKeys = (kv.selected handle lo m).length
  offset : st.bufOffset = 4 + 20 * st.nrKeys
  room : st.bufOffset ≤ iterBufLen

/-- A slot more. -/
theorem Collected.slot (h : kv.Collected handle lo m st) (hslot : kv.iterSlot handle st = some st') :
    kv.Collected handle lo (m + 1) { st' with pos := st'.pos + 1 } ∧ st'.pos = st.pos ∧
      st'.ended = st.ended := by
  unfold iterSlot at hslot
  rw [h.pos] at hslot
  by_cases hsel : kv.Selects handle (lo + m)
  · rw [if_pos hsel] at hslot
    by_cases hfull : st.bufOffset + 4 + iterKeyLen > iterBufLen
    · rw [if_pos hfull] at hslot
      cases hslot
    rw [if_neg hfull] at hslot
    cases hslot
    have hlen : ((kv.selected handle lo m).map kv.iterKey).length = st.nrKeys := by
      rw [List.length_map, h.nrKeys]
    have hoff := h.offset
    simp only [iterKeyLen] at hfull
    refine ⟨⟨by simp only [Nat.add_assoc], ?_, ?_, ?_, ?_⟩, h.pos.symm, rfl⟩
    · rw [selected_succ, if_pos hsel, List.map_append]
      exact h.recorded.add (by rw [hlen, hoff]) _
    · rw [selected_succ, if_pos hsel, List.length_append, List.length_singleton, h.nrKeys]
    · simp only [iterKeyLen]
      omega
    · simp only [iterKeyLen]
      omega
  · rw [if_neg hsel] at hslot
    cases hslot
    refine ⟨⟨by simp only [h.pos, Nat.add_assoc], ?_, ?_, h.offset, h.room⟩, rfl, rfl⟩
    · rw [selected_succ, if_neg hsel, List.append_nil]
      exact h.recorded
    · rw [selected_succ, if_neg hsel, List.append_nil, h.nrKeys]

/-- The buffer is full when no slot more is added. -/
theorem iterSlot_eq_none (h : kv.iterSlot handle st = none) : iterBufLen < st.bufOffset + 20 := by
  unfold iterSlot at h
  split at h
  · split at h
    · next hfull =>
      simp only [iterKeyLen] at hfull
      omega
    · cases h
  · cases h

/-- The loop has come to the end of the table, or to a full buffer. -/
def Stopped (kv : KvFtl) (st : IterState) : Prop :=
  (st.ended = true ∧ st.pos = kv.hashSlots) ∨
    (st.ended = false ∧ st.pos < kv.hashSlots ∧ iterBufLen < st.bufOffset + 20)

theorem Collected.loop {rounds : Nat} (h : kv.Collected handle lo m st)
    (hlt : st.pos < kv.hashSlots) (hrounds : kv.hashSlots - st.pos ≤ rounds)
    (hended : st.ended = false) :
    ∃ m', kv.Collected handle lo m' (kv.iterLoop handle rounds st) ∧
      kv.Stopped (kv.iterLoop handle rounds st) := by
  induction rounds generalizing st m with
  | zero => omega
  | succ rounds ih =>
    rw [iterLoop]
    cases hslot : kv.iterSlot handle st with
    | none => exact ⟨m, h, Or.inr ⟨hended, hlt, iterSlot_eq_none hslot⟩⟩
    | some st' =>
      obtain ⟨hnext, hpos, hend⟩ := h.slot hslot
      dsimp only
      by_cases hlast : st'.pos + 1 = kv.hashSlots
      · rw [if_pos hlast]
        exact ⟨m + 1, ⟨hnext.pos, hnext.recorded, hnext.nrKeys, hnext.offset, hnext.room⟩,
          Or.inl ⟨rfl, hlast⟩⟩
      · rw [if_neg hlast]
        apply ih hnext
        · dsimp only
          omega
        · dsimp only
          omega
        · exact hend.trans hended

/-- From its position on a read delivers the keys of `m` slots. Either these are all the slots that
are left, and the host is told so, or they are some and not all. -/
structure Delivers (kv : KvFtl) (handle : KvIterContext) (m : Nat) (r : IterRead)
    (handle' : KvIterContext) : Prop where
  wellFormed : r.WellFormed
  keys : r.keys = (kv.selected handle handle.currentPos m).map kv.iterKey
  pos : handle'.currentPos = handle.currentPos + m
  bitmask : handle'.bitmask = handle.bitmask
  keyPrefix : handle'.keyPrefix = handle.keyPrefix
  stops : (r.status = iterEnd ∧ handle'.currentPos = kv.hashSlots) ∨
    (r.status ≠ iterEnd ∧ 0 < m ∧ handle'.currentPos < kv.hashSlots)

theorem readHandle_spec (hpos : handle.currentPos < kv.hashSlots) :
    ∃ m, kv.Delivers handle m (kv.readHandle handle).1 (kv.readHandle handle).2 := by
  have hstart : kv.Collected handle handle.currentPos 0
      { pos := handle.currentPos, buf := handle.buf, bufOffset := 4, nrKeys := 0, ended := false } :=
    ⟨rfl, trivial, rfl, rfl, by simp [iterBufLen]⟩
  obtain ⟨m, hcol, hstop⟩ := hstart.loop hpos (Nat.le_refl _) rfl
  refine ⟨m, ?_⟩
  unfold readHandle
  dsimp only
  generalize kv.iterLoop handle _ _ = st at hcol hstop
  have hoff := hcol.offset
  have hroom := hcol.room
  simp only [iterBufLen] at hroom
  have hlen : ((kv.selected handle handle.currentPos m).map kv.iterKey).length = st.nrKeys := by
    rw [List.length_map, hcol.nrKeys]
  have hkeys : records (memcpyAt st.buf 0 (leByte st.nrKeys) 4) st.bufOffset st.bufOffset 4 =
      (kv.selected handle handle.currentPos m).map kv.iterKey := by
    have hrec : Recorded (memcpyAt st.buf 0 (leByte st.nrKeys) 4) 4
        ((kv.selected handle handle.currentPos m).map kv.iterKey) := by
      apply hcol.recorded.congr
      intro a hlow _
      rw [memcpyAt_of_out (by omega)]
    have hread := @Recorded.records_eq _ _ st.bufOffset _ hrec (by omega)
    rwa [hlen, ← hoff] at hread
  refine ⟨⟨?_, hcol.room⟩, hkeys, hcol.pos, rfl, rfl, ?_⟩
  · rw [IterRead.keys]
    dsimp only
    rw [hkeys, hlen, readLe_memcpyAt_self (by omega)]
  · rcases hstop with ⟨hended, hend⟩ | ⟨hended, hlt, hfull⟩
    · rw [hended]
      exact Or.inl ⟨rfl, hend⟩
    · rw [hended]
      refine Or.inr ⟨by simp [iterEnd], ?_, hlt⟩
      apply Nat.pos_of_ne_zero
      rintro rfl
      have hnone : st.nrKeys = 0 := hcol.nrKeys
      simp only [iterBufLen] at hfull
      omega

/-! ## All reads -/

variable {handles : IterHandles} {iter fuel : Nat}

theorem selected_congr {handle' : KvIterContext} (hbit : handle'.bitmask = handle.bitmask)
    (hkey : handle'.keyPrefix = handle.keyPrefix) (lo m : Nat) :
    kv.selected handle' lo m = kv.selected handle lo m := by
  apply List.filter_congr
  intro s _
  apply decide_eq_decide.mpr
  unfold Selects KvIterContext.Matches
  rw [hbit, hkey]

theorem kvIterRead_open (hopen : handles iter = some handle) (status : Nat) :
    kv.kvIterRead iter status handles = ((kv.readHandle handle).1,
      Function.update handles iter (some (kv.readHandle handle).2)) := by
  rw [kvIterRead, hopen]

/-- The reads deliver what is selected from the position on. -/
theorem iterate_keys {reads : List IterRead} (hopen : handles iter = some handle)
    (hpos : handle.currentPos < kv.hashSlots) (hrun : kv.iterate iter fuel handles = .ok reads) :
    reads.flatMap IterRead.keys = (kv.selected handle handle.currentPos
      (kv.hashSlots - handle.currentPos)).map kv.iterKey ∧ ∀ r ∈ reads, r.WellFormed := by
  induction fuel generalizing handles handle reads with
  | zero => cases hrun
  | succ fuel ih =>
    obtain ⟨m, hread⟩ := readHandle_spec hpos
    rw [iterate, kvIterRead_open hopen] at hrun
    dsimp only at hrun
    rcases hread.stops with ⟨hend, hlast⟩ | ⟨hmore, hm, hlt⟩
    · rw [if_pos hend] at hrun
      cases hrun
      have hcount : kv.hashSlots - handle.currentPos = m := by
        have := hread.pos
        omega
      rw [List.flatMap_singleton, hcount]
      exact ⟨hread.keys, by simpa using hread.wellFormed⟩
    · rw [if_neg hmore] at hrun
      obtain ⟨rest, hrest, hrun⟩ := bind_eq_ok.mp hrun
      cases hrun
      obtain ⟨hkeys, hwf⟩ := ih (Function.update_self ..) hlt hrest
      have hcount : kv.hashSlots - handle.currentPos =
          m + (kv.hashSlots - (kv.readHandle handle).2.currentPos) := by
        have := hread.pos
        omega
      refine ⟨?_, by simpa using ⟨hread.wellFormed, hwf⟩⟩
      rw [List.flatMap_cons, hread.keys, hkeys, hcount, selected_add, List.map_append,
        selected_congr hread.bitmask hread.keyPrefix, hread.pos]

/-- Every read gets ahead, so there are at most as many as slots. -/
theorem exists_iterate (hopen : handles iter = some handle)
    (hpos : handle.currentPos < kv.hashSlots) (hfuel : kv.hashSlots - handle.currentPos ≤ fuel) :
    ∃ reads, kv.iterate iter fuel handles = .ok reads := by
  induction fuel generalizing handles handle with
  | zero => omega
  | succ fuel ih =>
    obtain ⟨m, hread⟩ := readHandle_spec hpos
    rw [iterate, kvIterRead_open hopen]
    dsimp only
    rcases hread.stops with ⟨hend, -⟩ | ⟨hmore, hm, hlt⟩
    · exact ⟨_, if_pos hend⟩
    · have hahead := hread.pos
      have hopen' : Function.update handles iter (some (kv.readHandle handle).2) iter =
          some (kv.readHandle handle).2 := Function.update_self ..
      obtain ⟨rest, hrest⟩ := ih hopen' hlt (by omega)
      rw [if_neg hmore, hrest]
      exact ⟨_, rfl⟩

/-! ## The stored keys -/

/-- The slots in use hold these keys, of at least `KVCMD_MIN_KEY_SIZE` bytes. -/
structure HoldsKeys (kv : KvFtl) (stored : Nat → Option (List UInt8)) : Prop where
  used : ∀ s < kv.hashSlots, (kv.kvMappingTable s).memOffset ≠ none ↔ stored s ≠ none
  key : ∀ s < kv.hashSlots, ∀ key, stored s = some key →
    bytesAt (kv.kvMappingTable s).key 0 key.length = key
  length : ∀ s < kv.hashSlots, ∀ key, stored s = some key → 4 ≤ key.length

variable {stored : Nat → Option (List UInt8)} {key : List UInt8} {s : Nat}

/-- The stored keys that match, in the order of the slots. -/
def storedKeys (kv : KvFtl) (handle : KvIterContext) (stored : Nat → Option (List UInt8)) :
    List (List UInt8) :=
  ((List.range kv.hashSlots).filterMap stored).filter fun key => handle.Matches (keyOf key)

/-- A stored key matches as the bytes in its slot do. -/
theorem HoldsKeys.matches_iff (h : kv.HoldsKeys stored) (hs : s < kv.hashSlots) (hkey : stored s = some key)
    (handle : KvIterContext) :
    handle.Matches (kv.kvMappingTable s).key ↔ handle.Matches (keyOf key) := by
  have hbytes : ∀ i < 4, (kv.kvMappingTable s).key (0 + i) = keyOf key (0 + i) := by
    intro i hi
    have hlt : i < key.length := hi.trans_le (h.length s hs key hkey)
    rw [Nat.zero_add, keyOf, ← h.key s hs key hkey]
    simp [bytesAt, hlt]
  unfold KvIterContext.Matches
  rw [readLe_congr hbytes]

/-- The bytes delivered for a slot are its key exactly when the key has so many. -/
theorem HoldsKeys.iterKey_eq_iff (h : kv.HoldsKeys stored) (hs : s < kv.hashSlots)
    (hkey : stored s = some key) : kv.iterKey s = key ↔ key.length = iterKeyLen := by
  constructor
  · intro heq
    rw [← heq]
    exact length_bytesAt ..
  · intro hlen
    rw [iterKey, ← hlen]
    exact h.key s hs key hkey

/-- The slots in turn: the keys delivered are those stored exactly when each has 16 bytes. -/
theorem HoldsKeys.map_iterKey_eq_iff (h : kv.HoldsKeys stored) (handle : KvIterContext) {slots : List Nat}
    (hslots : ∀ s ∈ slots, s < kv.hashSlots) :
    (slots.filter fun s => kv.Selects handle s).map kv.iterKey =
      (slots.filterMap stored).filter (fun key => handle.Matches (keyOf key)) ↔
    ∀ s ∈ slots, ∀ key, stored s = some key → handle.Matches (keyOf key) →
      key.length = iterKeyLen := by
  induction slots with
  | nil => simp
  | cons s slots ih =>
    have hs : s < kv.hashSlots := hslots s List.mem_cons_self
    have ih := ih fun u hu => hslots u (List.mem_cons_of_mem s hu)
    rw [List.forall_mem_cons, List.filterMap_cons]
    cases hkey : stored s with
    | none =>
      have hdead : ¬ kv.Selects handle s := fun hsel => (h.used s hs).mp hsel.1 hkey
      rw [List.filter_cons_of_neg (by simpa using hdead), ih]
      simp
    | some key =>
      have hlive : (kv.kvMappingTable s).memOffset ≠ none := (h.used s hs).mpr (by simp [hkey])
      have hiff : kv.Selects handle s ↔ handle.Matches (keyOf key) :=
        (and_iff_right hlive).trans (h.matches_iff hs hkey handle)
      by_cases hmatch : handle.Matches (keyOf key)
      · rw [List.filter_cons_of_pos (by simpa using hiff.mpr hmatch), List.map_cons,
          List.filter_cons_of_pos (by simpa using hmatch), List.cons.injEq, ih,
          h.iterKey_eq_iff hs hkey]
        simp [hmatch]
      · rw [List.filter_cons_of_neg (by simpa using fun hsel => hmatch (hiff.mp hsel)),
          List.filter_cons_of_neg (by simpa using hmatch), ih]
        simp [hmatch]

end KvFtl

/-! ## What a run stores -/

/-- The key of an operation. -/
def TableOp.keyBytes : TableOp → List UInt8
  | .store cmd => bytesAt cmd.key 0 cmd.keyLength
  | .batched key keyLen _ => bytesAt key 0 keyLen
  | .delete cmd => bytesAt cmd.key 0 cmd.keyLength

/-- The key has at least `KVCMD_MIN_KEY_SIZE` bytes and ends before the offset of an entry. -/
def TableOp.KeySized (op : TableOp) : Prop :=
  4 ≤ op.keyBytes.length ∧ op.keyBytes.length ≤ memOffsetField

namespace KvTable

variable {t t' : KvTable} {mem src : Nat → UInt8} {c i n s y : Nat}
  {stored stored' : Nat → Option (List UInt8)} {op : TableOp}

/-- A copy into an entry keeps the keys of the others. -/
theorem key_memcpyAt_of_ne (hs : s ≠ y) (h : c + n ≤ mappingEntrySize) (hi : i < memOffsetField) :
    (entryAt (memcpyAt mem (mappingEntrySize * y + c) src n) s).key i = (entryAt mem s).key i := by
  simp only [mappingEntrySize, memOffsetField] at h hi
  apply memcpyAt_of_out
  simp only [mappingEntrySize]
  omega

/-- A copy behind the keys keeps them. -/
theorem key_memcpyAt_of_le (hc : memOffsetField ≤ c) (h : c + n ≤ mappingEntrySize)
    (hi : i < memOffsetField) :
    (entryAt (memcpyAt mem (mappingEntrySize * y + c) src n) s).key i = (entryAt mem s).key i := by
  simp only [mappingEntrySize, memOffsetField] at hc h hi
  apply memcpyAt_of_out
  simp only [mappingEntrySize]
  omega

/-- A step keeps the keys of the slots that stay in use, and puts its own into one that it takes. -/
structure KeepsKeys (t t' : KvTable) (op : TableOp) : Prop where
  slots : t'.hashSlots = t.hashSlots
  old : ∀ s, t.view.Live s → t'.view.Live s → ∀ i < memOffsetField,
    (t'.view.kvMappingTable s).key i = (t.view.kvMappingTable s).key i
  new : ∀ s, ¬ t.view.Live s → t'.view.Live s →
    bytesAt (t'.view.kvMappingTable s).key 0 op.keyBytes.length = op.keyBytes

/-- A new entry holds the key that it is made for. -/
theorem newMappingEntry_keepsKeys {age : Nat → Nat} {now keyLen valLen valOffset : Nat}
    {key : Nat → UInt8} (h : t.view.Ordered age now) (hlen : keyLen ≤ memOffsetField)
    (hop : op.keyBytes = bytesAt key 0 keyLen)
    (hrun : t.newMappingEntry key keyLen valLen valOffset = .ok t') : t.KeepsKeys t' op := by
  obtain ⟨-, y, hlt, hdead, hcase⟩ := newMappingEntry_cases h hrun
  have hother : ∀ s, s ≠ y → ∀ i < memOffsetField,
      ((t.fillSlot y key keyLen valLen valOffset).view.kvMappingTable s).key i =
        (t.view.kvMappingTable s).key i := by
    intro s hs i hi
    simp only [memOffsetField] at hlen
    refine (key_memcpyAt_of_ne hs (by decide) hi).trans
      ((key_memcpyAt_of_ne hs (by decide) hi).trans ?_)
    exact @key_memcpyAt_of_ne _ _ 0 i keyLen s y hs
      (by simp only [mappingEntrySize]; omega) hi
  have hself : ∀ i < keyLen,
      ((t.fillSlot y key keyLen valLen valOffset).view.kvMappingTable y).key i = key i := by
    intro i hi
    refine (key_memcpyAt_of_le (by decide) (by decide) (hi.trans_le hlen)).trans
      ((key_memcpyAt_of_le (by decide) (by decide) (hi.trans_le hlen)).trans ?_)
    exact memcpyAt_add hi
  -- a link is no part of a key
  have hafter : t'.hashSlots = t.hashSlots ∧
      (∀ s, (t'.view.kvMappingTable s).memOffset =
        ((t.fillSlot y key keyLen valLen valOffset).view.kvMappingTable s).memOffset) ∧
      ∀ s, ∀ i < memOffsetField, (t'.view.kvMappingTable s).key i =
        ((t.fillSlot y key keyLen valLen valOffset).view.kvMappingTable s).key i := by
    rcases hcase with rfl | ⟨z, -, -, rfl⟩
    · exact ⟨rfl, fun _ => rfl, fun _ _ _ => rfl⟩
    · exact ⟨rfl, chainMapping_memOffset z y, fun s i hi =>
        key_memcpyAt_of_le (by decide) (by decide) hi⟩
  obtain ⟨hslots, hoffs, hkeys⟩ := hafter
  refine ⟨hslots, fun s hs _ i hi => ?_, fun s hs hs' => ?_⟩
  · rw [hkeys s i hi]
    exact hother s (fun he => hdead (he ▸ hs)) i hi
  · have hsy : s = y := by
      by_contra hne
      apply hs
      have hlt' : s < t'.hashSlots := hs'.1
      rw [hslots] at hlt'
      refine ⟨hlt', ?_⟩
      rw [← fillSlot_memOffset (hlen.trans (by decide)) hne, ← hoffs]
      exact hs'.2
    rw [hop, length_bytesAt]
    apply bytesAt_congr
    intro i hi
    rw [Nat.zero_add, hkeys s i (hi.trans_le hlen), hsy]
    exact hself i hi

/-- Where no slot is taken and no key is copied. -/
theorem keepsKeys_of_live (hslots : t'.hashSlots = t.hashSlots)
    (hlive : ∀ s, t'.view.Live s → t.view.Live s)
    (hkeys : ∀ s, t'.view.Live s → ∀ i < memOffsetField,
      (t'.view.kvMappingTable s).key i = (t.view.kvMappingTable s).key i) : t.KeepsKeys t' op :=
  ⟨hslots, fun s _ hs => hkeys s hs, fun s hdead hs => absurd (hlive s hs) hdead⟩

theorem updateMappingEntry_keepsKeys {cmd : KvCommand} (hrun : t.updateMappingEntry cmd = .ok t') :
    t.KeepsKeys t' op := by
  obtain ⟨found, -, hrun⟩ := bind_eq_ok.mp hrun
  cases found with
  | none =>
    cases hrun
    exact keepsKeys_of_live rfl (fun _ hs => hs) fun _ _ _ _ => rfl
  | some y =>
    cases hrun
    refine keepsKeys_of_live ?_ ?_ ?_
    · rfl
    · intro s hs
      refine ⟨hs.1, fun hnone => hs.2 ((memOffset_memcpyAt ?_).trans hnone)⟩
      simp only [mappingEntrySize, memOffsetField, lengthField]
      omega
    · intro s _ i hi
      exact key_memcpyAt_of_le (by decide) (by decide) hi

theorem deleteMappingEntry_keepsKeys {cmd : KvCommand} (hrun : t.deleteMappingEntry cmd = .ok t') :
    t.KeepsKeys t' op := by
  obtain ⟨found, -, hrun⟩ := bind_eq_ok.mp hrun
  cases found with
  | none =>
    cases hrun
    exact keepsKeys_of_live rfl (fun _ hs => hs) fun _ _ _ _ => rfl
  | some y =>
    have hff := fun i (_ : memOffsetField ≤ i) => @deleted_ff t.mem i y
    cases hrun
    -- the deleted slot is not in use
    have hne : ∀ s, (entryAt (memcpyAt t.mem (mappingEntrySize * y) (fun _ => 0xff)
        mappingEntrySize) s).memOffset ≠ none → s ≠ y := by
      rintro s hs rfl
      exact hs (memOffset_ff hff)
    refine keepsKeys_of_live ?_ ?_ ?_
    · rfl
    · intro s hs
      have hoff := @memOffset_memcpyAt_of_ne t.mem (fun _ => 0xff) 0 mappingEntrySize s y
        (hne s hs.2) (by simp)
      exact ⟨hs.1, fun hnone => hs.2 (hoff.trans hnone)⟩
    · intro s hs i hi
      exact @key_memcpyAt_of_ne t.mem (fun _ => 0xff) 0 i mappingEntrySize s y (hne s hs.2)
        (by simp) hi

theorem Shaped.keepsKeys (h : t.Shaped) (hsized : op.KeySized) (hrun : t.step op = .ok t') :
    t.KeepsKeys t' op := by
  cases op with
  | store cmd =>
    obtain ⟨entry, -, hrun⟩ := bind_eq_ok.mp hrun
    cases entry with
    | none =>
      obtain ⟨age, now, hord⟩ := (h.allocate cmd.valueLength).ordered
      have hlen : cmd.keyLength ≤ memOffsetField := (length_bytesAt ..).symm.trans_le hsized.2
      have hkeeps : KeepsKeys _ t' (.store cmd) :=
        newMappingEntry_keepsKeys hord hlen rfl hrun
      exact ⟨hkeeps.slots, hkeeps.old, hkeeps.new⟩
    | some entry =>
      dsimp only at hrun
      split at hrun
      · exact updateMappingEntry_keepsKeys hrun
      · cases hrun
        exact keepsKeys_of_live rfl (fun _ hs => hs) fun _ _ _ _ => rfl
  | batched key keyLen valLen =>
    obtain ⟨entry, -, hrun⟩ := bind_eq_ok.mp hrun
    cases entry with
    | none =>
      obtain ⟨age, now, hord⟩ := (h.allocate valLen).ordered
      have hlen : keyLen ≤ memOffsetField := (length_bytesAt ..).symm.trans_le hsized.2
      have hkeeps : KeepsKeys _ t' (.batched key keyLen valLen) :=
        newMappingEntry_keepsKeys hord hlen rfl hrun
      exact ⟨hkeeps.slots, hkeeps.old, hkeeps.new⟩
    | some entry =>
      cases hrun
      exact keepsKeys_of_live rfl (fun _ hs => hs) fun _ _ _ _ => rfl
  | delete cmd =>
    obtain ⟨entry, -, hrun⟩ := bind_eq_ok.mp hrun
    cases entry with
    | none =>
      cases hrun
      exact keepsKeys_of_live rfl (fun _ hs => hs) fun _ _ _ _ => rfl
    | some entry => exact deleteMappingEntry_keepsKeys hrun

/-- The keys in the slots behind a step: a slot that it has taken holds the key of the operation. -/
def storedAfter (t t' : KvTable) (op : TableOp) (stored : Nat → Option (List UInt8)) :
    Nat → Option (List UInt8) := fun s =>
  if t'.view.Live s then if t.view.Live s then stored s else some op.keyBytes else none

/-- A run, together with the keys in the slots. -/
def storedRun (t : KvTable) (stored : Nat → Option (List UInt8)) :
    List TableOp → Except KvFault (KvTable × (Nat → Option (List UInt8)))
  | [] => .ok (t, stored)
  | op :: ops => do
    let t' ← t.step op
    t'.storedRun (t.storedAfter t' op stored) ops

theorem run_of_storedRun {ops : List TableOp} (h : t.storedRun stored ops = .ok (t', stored')) :
    t.run ops = .ok t' := by
  induction ops generalizing t stored with
  | nil =>
    cases h
    rfl
  | cons op ops ih =>
    obtain ⟨t₁, hstep, h⟩ := bind_eq_ok.mp h
    rw [run, List.foldlM_cons, hstep]
    exact ih h

/-- The bytes in the slots are those of the keys, none of which reaches the offset of its entry. -/
structure Owned (t : KvTable) (stored : Nat → Option (List UInt8)) : Prop where
  holds : t.view.HoldsKeys stored
  length : ∀ s key, stored s = some key → key.length ≤ memOffsetField

theorem Owned.after (h : t.Owned stored) (hsized : op.KeySized) (hkeeps : t.KeepsKeys t' op) :
    t'.Owned (t.storedAfter t' op stored) := by
  have hlt : ∀ {s}, s < t'.view.hashSlots → s < t.view.hashSlots := fun hs =>
    Nat.lt_of_lt_of_eq hs hkeeps.slots
  have hstored : ∀ {s key}, t.storedAfter t' op stored s = some key → t'.view.Live s ∧
      (t.view.Live s ∧ stored s = some key ∨ ¬ t.view.Live s ∧ key = op.keyBytes) := by
    intro s key hkey
    unfold storedAfter at hkey
    split_ifs at hkey with hlive hold
    · exact ⟨hlive, Or.inl ⟨hold, hkey⟩⟩
    · exact ⟨hlive, Or.inr ⟨hold, (Option.some.inj hkey).symm⟩⟩
  refine ⟨⟨fun s hs => ?_, fun s hs key hkey => ?_, fun s hs key hkey => ?_⟩, fun s key hkey => ?_⟩
  · unfold storedAfter
    constructor
    · intro hoff
      rw [if_pos ⟨hs, hoff⟩]
      split_ifs with hold
      · exact (h.holds.used s (hlt hs)).mp hold.2
      · simp
    · intro hsome hnone
      rw [if_neg fun hlive => hlive.2 hnone] at hsome
      exact hsome rfl
  · obtain ⟨hlive, ⟨hold, hkey⟩ | ⟨hdead, rfl⟩⟩ := hstored hkey
    · have hlen := h.length s key hkey
      have hbytes := h.holds.key s (hlt hs) key hkey
      rw [← hbytes, length_bytesAt]
      apply bytesAt_congr
      intro i hi
      rw [Nat.zero_add]
      exact hkeeps.old s hold hlive i (hi.trans_le hlen)
    · exact hkeeps.new s hdead hlive
  · obtain ⟨-, ⟨-, hkey⟩ | ⟨-, rfl⟩⟩ := hstored hkey
    · exact h.holds.length s (hlt hs) key hkey
    · exact hsized.1
  · obtain ⟨-, ⟨-, hkey⟩ | ⟨-, rfl⟩⟩ := hstored hkey
    · exact h.length s key hkey
    · exact hsized.2

theorem init_owned (hashSlots size : Nat) : (init hashSlots size).Owned fun _ => none := by
  refine ⟨⟨fun s hs => ?_, fun _ _ _ h => ?_, fun _ _ _ h => ?_⟩, fun _ _ h => ?_⟩
  · have hnone : ((init hashSlots size).view.kvMappingTable s).memOffset = none :=
      init_memOffset size hs
    simp [hnone]
  all_goals cases h

theorem KeySized.keyFits (h : op.KeySized) : t.KeyFits op := by
  have hlen : op.keyBytes.length ≤ nextSlotField := h.2.trans (by decide)
  cases op with
  | store cmd => exact fun _ => (length_bytesAt ..).symm.trans_le hlen
  | batched key keyLen valLen => exact fun _ => (length_bytesAt ..).symm.trans_le hlen
  | delete cmd => trivial

/-- In every table that a run of sized keys comes to, the slots hold the keys of the run. -/
theorem Owned.run {ops : List TableOp} (h : t.Owned stored) (hshaped : t.Shaped)
    (hsized : ∀ op ∈ ops, op.KeySized) (hrun : t.storedRun stored ops = .ok (t', stored')) :
    t'.Owned stored' := by
  induction ops generalizing t stored with
  | nil =>
    cases hrun
    exact h
  | cons op ops ih =>
    obtain ⟨t₁, hstep, hrun⟩ := bind_eq_ok.mp hrun
    obtain ⟨hop, hops⟩ := List.forall_mem_cons.mp hsized
    exact ih (h.after hop (hshaped.keepsKeys hop hstep))
      (hshaped.step (KeySized.keyFits hop) hstep) hops hrun

end KvTable

/-! ## All keys -/

/-- With a handle that is free, `kv_iter_open` opens it at the start of the table. -/
theorem kvIterOpen_eq {handles : IterHandles}
    (hfree : ∃ iter, 1 ≤ iter ∧ iter ≤ 16 ∧ handles iter = none) (buf : Nat → UInt8)
    (bitmask keyPrefix : Nat) :
    (kvIterOpen handles buf bitmask keyPrefix).2 (kvIterOpen handles buf bitmask keyPrefix).1 =
      some { buf, currentPos := 0, bitmask, keyPrefix } := by
  obtain ⟨iter, hlow, hhigh, hnone⟩ := hfree
  unfold kvIterOpen
  cases hfind : (List.range' 1 16).find? fun iter => (handles iter).isNone with
  | none =>
    have hall := List.find?_eq_none.mp hfind iter (List.mem_range'_1.mpr (by omega))
    simp [hnone] at hall
  | some iter => exact Function.update_self ..

/-- The reads deliver the stored keys that match, in the order of the slots. -/
structure KvFtl.Complete (kv : KvFtl) (handle : KvIterContext)
    (stored : Nat → Option (List UInt8)) (reads : List IterRead) : Prop where
  wellFormed : ∀ r ∈ reads, r.WellFormed
  keys : reads.flatMap IterRead.keys = kv.storedKeys handle stored

/-- The host reads until the end, at most once for each slot. The buffers are well formed, and what
they deliver are 16 bytes of every key that matches, in the order of the slots: the stored keys
exactly when each that matches has 16 bytes. -/
theorem iterator_complete_iff {kv : KvFtl} {stored : Nat → Option (List UInt8)}
    (hkeys : kv.HoldsKeys stored) (hpos : 0 < kv.hashSlots) {handles : IterHandles}
    (hfree : ∃ iter, 1 ≤ iter ∧ iter ≤ 16 ∧ handles iter = none) (buf : Nat → UInt8)
    (bitmask keyPrefix : Nat) :
    let handle : KvIterContext := { buf, currentPos := 0, bitmask, keyPrefix }
    let opened := kvIterOpen handles buf bitmask keyPrefix
    (∃ reads, kv.iterate opened.1 kv.hashSlots opened.2 = .ok reads ∧
      (∀ r ∈ reads, r.WellFormed) ∧
      reads.flatMap IterRead.keys = (kv.selected handle 0 kv.hashSlots).map kv.iterKey) ∧
    ((∃ fuel reads, kv.iterate opened.1 fuel opened.2 = .ok reads ∧
        kv.Complete handle stored reads) ↔
      ∀ s < kv.hashSlots, ∀ key, stored s = some key → handle.Matches (keyOf key) →
        key.length = iterKeyLen) := by
  intro handle opened
  have hopen : opened.2 opened.1 = some handle := kvIterOpen_eq hfree buf bitmask keyPrefix
  obtain ⟨reads, hrun⟩ := @KvFtl.exists_iterate kv handle opened.2 opened.1 kv.hashSlots hopen hpos
    (Nat.sub_le ..)
  obtain ⟨hdelivered, hwf⟩ := KvFtl.iterate_keys hopen hpos hrun
  have hiff := @KvFtl.HoldsKeys.map_iterKey_eq_iff kv stored hkeys handle (List.range kv.hashSlots)
    fun s hs => List.mem_range.mp hs
  have hselected : kv.selected handle 0 kv.hashSlots =
      (List.range kv.hashSlots).filter fun s => kv.Selects handle s := by
    rw [List.range_eq_range']
    rfl
  refine ⟨⟨reads, hrun, hwf, hdelivered⟩, ?_, fun hlen => ⟨_, reads, hrun, hwf, ?_⟩⟩
  · rintro ⟨fuel, reads', hrun', hcomplete⟩ s hs
    have hsame := (KvFtl.iterate_keys hopen hpos hrun').1.symm.trans hcomplete.keys
    rw [Nat.sub_zero, hselected] at hsame
    exact hiff.mp hsame s (List.mem_range.mpr hs)
  · rw [hdelivered, Nat.sub_zero, hselected]
    exact hiff.mpr fun s hs => hlen s (List.mem_range.mp hs)

/-- A table of two slots, after a store of one key of `keyLen` bytes. -/
def oneKeyTable (key : List UInt8) (keyLen : Nat) :
    Except KvFault (KvTable × (Nat → Option (List UInt8))) :=
  (KvTable.init 2 4096).storedRun (fun _ => none) [.store (wordCommand .store key keyLen)]

/-- The key of 16 bytes in a table of two slots. -/
theorem iterator_complete_one : ∃ t stored, oneKeyTable [1, 2, 3, 4] 16 = .ok (t, stored) ∧
    let kv := t.view
    let handle : KvIterContext :=
      { buf := fun _ => 0, currentPos := 0, bitmask := 0xff, keyPrefix := 1 }
    let opened := kvIterOpen (fun _ => none) (fun _ => 0) 0xff 1
    (∃ reads, kv.iterate opened.1 kv.hashSlots opened.2 = .ok reads ∧
      (∀ r ∈ reads, r.WellFormed) ∧
      reads.flatMap IterRead.keys = (kv.selected handle 0 kv.hashSlots).map kv.iterKey) ∧
    ((∃ fuel reads, kv.iterate opened.1 fuel opened.2 = .ok reads ∧
        kv.Complete handle stored reads) ↔
      ∀ s < kv.hashSlots, ∀ key, stored s = some key → handle.Matches (keyOf key) →
        key.length = iterKeyLen) := by
  have hrun : (do
      let (t, _) ← oneKeyTable [1, 2, 3, 4] 16
      return t.hashSlots : Except KvFault Nat) = .ok 2 := by decide +kernel
  obtain ⟨⟨t, stored⟩, hrun, hslots⟩ := bind_eq_ok.mp hrun
  have hslots : t.hashSlots = 2 := Except.ok.inj hslots
  have howned : t.Owned stored := by
    apply (KvTable.init_owned 2 4096).run _ _ hrun
    · exact KvTable.init_shaped (by simp) (by simp) (by simp)
    · intro op hop
      rw [List.mem_singleton.mp hop]
      exact ⟨by decide, by decide⟩
  refine ⟨t, stored, hrun, iterator_complete_iff howned.holds ?_ ⟨1, by simp, by simp, rfl⟩ _ _ _⟩
  change 0 < t.hashSlots
  omega

/-- A key of 4 bytes is delivered as one of 16, and one of 18 bytes without the last two. -/
theorem iterator_pads_key :
    let handle : KvIterContext :=
      { buf := fun _ => 0, currentPos := 0, bitmask := 0xff, keyPrefix := 1 }
    let opened := kvIterOpen (fun _ => none) (fun _ => 0) 0xff 1
    (∃ t stored, oneKeyTable [1, 2, 3, 4] 4 = .ok (t, stored) ∧
      t.view.storedKeys handle stored = [[1, 2, 3, 4]] ∧
      ¬ ∃ fuel reads, t.view.iterate opened.1 fuel opened.2 = .ok reads ∧
        t.view.Complete handle stored reads) ∧
    (do
      let (t, _) ← oneKeyTable [1, 2, 3, 4, 5, 6, 7, 8, 9, 10, 11, 12, 13, 14, 15, 16, 17, 18] 18
      let reads ← t.view.iterate opened.1 2 opened.2
      return reads.flatMap IterRead.keys : Except KvFault (List (List UInt8))) =
      .ok [[1, 2, 3, 4, 5, 6, 7, 8, 9, 10, 11, 12, 13, 14, 15, 16]] := by
  intro handle opened
  refine ⟨?_, by decide +kernel⟩
  have hrun : (do
      let (t, stored) ← oneKeyTable [1, 2, 3, 4] 4
      return (t.hashSlots, t.view.storedKeys handle stored,
        (t.view.selected handle 0 2).map t.view.iterKey) :
      Except KvFault (Nat × List (List UInt8) × List (List UInt8))) =
      .ok (2, [[1, 2, 3, 4]], [[1, 2, 3, 4, 0, 0, 0, 0, 0, 0, 0, 0, 0, 0, 0, 0]]) := by
    decide +kernel
  obtain ⟨⟨t, stored⟩, hrun, hret⟩ := bind_eq_ok.mp hrun
  have hret := Except.ok.inj hret
  simp only [Prod.mk.injEq] at hret
  obtain ⟨hslots, hstored, hdelivered⟩ := hret
  refine ⟨t, stored, hrun, hstored, ?_⟩
  rintro ⟨fuel, reads, hiter, hcomplete⟩
  have hopen : opened.2 opened.1 = some handle := rfl
  have hview : t.view.hashSlots - handle.currentPos = 2 := hslots
  have hkeys := (KvFtl.iterate_keys hopen (by omega) hiter).1.symm.trans hcomplete.keys
  rw [hview, hstored] at hkeys
  cases hdelivered.symm.trans hkeys

end NvmeVirt
