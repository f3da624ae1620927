import NvmeVirt.Kv.Batch
import NvmeVirt.Library.Bytes

/-!
# Payloads of batches

The length of a batch, the number of its sub-commands and the size of every key and value come from
the host, and the loop that takes the payload apart compares none of them. It stays in bounds exactly
when there are at most eight sub-commands, each of them fits into the buffers for a key and a value,
and its attributes, its key and its value end before the payload does.
-/

namespace NvmeVirt

open Checked Bytes

/-! ## Arithmetic of `int`s -/

/-- The result of an `int` operation. -/
def wrapInt (z : Int) : Int := Int.bmod z (2 ^ 32)

/-- An `int` that is passed as a `size_t`. -/
def sizeT (z : Int) : Nat := (z % 2 ^ 64).toNat

/-- `((n - 1) / ALIGN_LEN + 1) * ALIGN_LEN`. -/
def alignInt (n : Int) : Int := wrapInt (wrapInt ((wrapInt (n - 1)).tdiv alignLen + 1) * alignLen)

theorem wrapInt_of_lt {z : Int} (hlow : 0 ≤ z + 2 ^ 31) (hhigh : z < 2 ^ 31) : wrapInt z = z :=
  Int.bmod_eq_of_le (by omega) (by omega)

/-! ## Batch commands -/

/-- The bounds that a payload may break: those of the bytes from the host, of `attr`, and of the
buffers for the key and the value. -/
inductive BoundsFault
  | payload
  | attr
  | key
  | value
  deriving DecidableEq, Repr

/-- What a batch does not survive. -/
inductive BatchFault
  | bounds (e : BoundsFault)
  | io (e : KvFault)
  deriving DecidableEq, Repr

/-- `MAX_SUB_CMD`. -/
def maxSubCmd : Nat := 8

/-- `sizeof(struct sub_cmd_attribute)` and `sizeof(struct batch_cmd_head)`. -/
def attrSize : Nat := 16

@[inherit_doc attrSize] def batchHeadSize : Nat := 512

/-- The sizes of the buffers for the key and the value. -/
def keyRoom : Nat := 20

@[inherit_doc keyRoom] def valueRoom : Nat := 4097

/-- The opcode in the attributes of a sub-command. -/
def KvOpcode.ofByte (b : UInt8) : KvOpcode :=
  if b = 0x81 then .store
  else if b = 0x90 then .retrieve
  else if b = 0xa1 then .delete
  else if b = 0xb3 then .exist
  else .other

/-- `struct nvme_kv_batch_command`, with the bytes of the host buffer that its PRPs name. -/
structure BatchCommand where
  valueLen : Nat
  rsvd4 : UInt8
  data : Nat → UInt8

/-- What is taken out of the payload for a sub-command. -/
structure SubCommand where
  opcode : KvOpcode
  key : Nat → UInt8
  keyLen : Nat
  value : Nat → UInt8
  valLen : Nat

namespace BatchCommand

variable (cmd : BatchCommand)

/-- `cmd_value_length`, the number of bytes that are copied from the host. -/
def length : Nat := u32 (cmd.valueLen * 4)

/-- `n` bytes of the payload, from `start` on. -/
def readBytes (start : Int) (n : Nat) : Except BoundsFault (Nat → UInt8) := do
  require (n = 0 ∨ 0 ≤ start ∧ start + n ≤ cmd.length) .payload
  return fun j => cmd.data (start.toNat + j)

/-- `memcpy` of `n` bytes of the payload to a buffer of `room` bytes that are 0. -/
def copyBytes (room : Nat) (overrun : BoundsFault) (start : Int) (n : Nat) :
    Except BoundsFault (Nat → UInt8) := do
  require (n ≤ room) overrun
  let bytes ← cmd.readBytes start n
  return memcpyAt (fun _ => 0) 0 bytes n

/-- The part of a round of `__do_perform_kv_batch` that takes a sub-command out of the payload, and
the next `payload_offset`. -/
def subCommand (payloadOffset : Int) (i : Nat) : Except BoundsFault (SubCommand × Int) := do
  require (i < maxSubCmd) .attr
  let attr : Int := attrSize * i
  let opcode ← cmd.readBytes attr 1
  let keySize ← cmd.readBytes (attr + 1) 1
  let valueSize ← cmd.readBytes (attr + 4) 4
  let keyLen : Int := (keySize 0).toNat
  let valLen := asInt (readLe valueSize 0 4)
  let subLen := wrapInt (wrapInt (alignInt keyLen + alignInt valLen) + alignLen)
  let subPayload : Int := batchHeadSize
  let key ← cmd.copyBytes keyRoom .key (subPayload + payloadOffset) (sizeT keyLen)
  let value ← cmd.copyBytes valueRoom .value (subPayload + payloadOffset + alignInt keyLen)
    (sizeT valLen)
  return ({ opcode := .ofByte (opcode 0), key, keyLen := keyLen.toNat, value, valLen := valLen.toNat },
    wrapInt (payloadOffset + subLen))

/-- One round of `__do_perform_kv_batch`. -/
def round (st : KvFtl × Int) (i : Nat) : Except BatchFault (KvFtl × Int) := do
  let (sub, next) ← (cmd.subCommand st.2 i).mapError .bounds
  let kv ← (st.1.doPerformKvBatchedIo sub.opcode sub.key sub.keyLen sub.value sub.valLen).mapError .io
  return (kv, next)

/-- `__do_perform_kv_batch`; the number of sub-commands is in `rsvd4`. -/
def doPerformKvBatch (kv : KvFtl) : Except BatchFault KvFtl := do
  let st ← (List.range cmd.rsvd4.toNat).foldlM cmd.round (kv, (alignLen : Int))
  return st.1

/-- No access of the batch is out of bounds. -/
def InBounds (kv : KvFtl) : Prop := ∀ e, cmd.doPerformKvBatch kv ≠ .error (.bounds e)

/-! ## Where the sub-commands are -/

/-- `keySize` in the attributes of a sub-command. -/
def keySize (i : Nat) : Nat := (cmd.data (attrSize * i + 1)).toNat

/-- `valueSize` in the attributes of a sub-command. -/
def valueSize (i : Nat) : Nat := readLe cmd.data (attrSize * i + 4) 4

/-- Where the key of a sub-command starts, after the keys and the values before it. -/
def start : Nat → Nat
  | 0 => alignLen
  | i + 1 => start i + (aligned (cmd.keySize i) + aligned (cmd.valueSize i) + alignLen)

/-- A sub-command of a batch fits. -/
structure FitsAt (i : Nat) : Prop where
  index : i < maxSubCmd
  attr : attrSize * i + 8 ≤ cmd.length
  keySize : cmd.keySize i ≤ keyRoom
  valueSize : cmd.valueSize i ≤ valueRoom
  key : cmd.keySize i = 0 ∨ batchHeadSize + cmd.start i + cmd.keySize i ≤ cmd.length
  value : cmd.valueSize i = 0 ∨
    batchHeadSize + cmd.start i + aligned (cmd.keySize i) + cmd.valueSize i ≤ cmd.length

/-- All sub-commands of a batch fit. -/
def Fits : Prop := ∀ i < cmd.rsvd4.toNat, cmd.FitsAt i

instance (i : Nat) : Decidable (cmd.FitsAt i) :=
  decidable_of_iff (i < maxSubCmd ∧ attrSize * i + 8 ≤ cmd.length ∧ cmd.keySize i ≤ keyRoom ∧
    cmd.valueSize i ≤ valueRoom ∧
    (cmd.keySize i = 0 ∨ batchHeadSize + cmd.start i + cmd.keySize i ≤ cmd.length) ∧
    (cmd.valueSize i = 0 ∨
      batchHeadSize + cmd.start i + aligned (cmd.keySize i) + cmd.valueSize i ≤ cmd.length))
    ⟨fun ⟨hindex, hattr, hkeySize, hvalueSize, hkey, hvalue⟩ =>
      ⟨hindex, hattr, hkeySize, hvalueSize, hkey, hvalue⟩,
    fun h => ⟨h.index, h.attr, h.keySize, h.valueSize, h.key, h.value⟩⟩

instance : Decidable cmd.Fits := inferInstanceAs (Decidable (∀ i < _, _))

/-- The payload as its attributes and the bytes behind the head. -/
def payload : PayloadFormat where
  attr := fun i =>
    { opcode := .ofByte (cmd.data (attrSize * i))
      keySize := cmd.keySize i
      valueSize := cmd.valueSize i }
  subPayload := fun j => cmd.data (batchHeadSize + j)

/-! ## A sub-command that fits -/

variable {cmd} {kv kv' : KvFtl} {i n : Nat}

theorem aligned_le (n : Nat) : aligned n ≤ n + alignLen := by
  unfold aligned alignLen
  omega

theorem alignInt_natCast (h : n ≤ valueRoom) : alignInt n = aligned n := by
  rw [valueRoom] at h
  have hpred : wrapInt ((n : Int) - 1) = n - 1 := wrapInt_of_lt (by omega) (by omega)
  have hunits : ((n : Int) - 1).tdiv alignLen + 1 = ((n - 1) / alignLen + 1 : Nat) := by
    cases n with
    | zero => rfl
    | succ n =>
      rw [Nat.add_sub_cancel, Nat.cast_add_one, add_sub_cancel_right, ← Int.ofNat_tdiv]
      rfl
  have hmul : (((n - 1) / alignLen + 1 : Nat) : Int) * (alignLen : Int) = aligned n :=
    (Nat.cast_mul ..).symm
  have hle := aligned_le n
  rw [aligned, alignLen] at hle
  have hinner : wrapInt ((n - 1) / alignLen + 1 : Nat) = ((n - 1) / alignLen + 1 : Nat) := by
    rw [alignLen]
    exact wrapInt_of_lt (by omega) (by omega)
  rw [alignInt, hpred, hunits, hinner, hmul, aligned, alignLen]
  exact wrapInt_of_lt (by omega) (by omega)

theorem sizeT_natCast (h : n < 2 ^ 64) : sizeT n = n := by
  unfold sizeT
  omega

theorem valueSize_lt (cmd : BatchCommand) (i : Nat) : cmd.valueSize i < 2 ^ 32 := readLe_lt ..

/-- The size of a value as an `int` and then as a `size_t` fits if and only if the size does. -/
theorem sizeT_asInt_le_iff (h : n < 2 ^ 32) : sizeT (asInt n) ≤ valueRoom ↔ n ≤ valueRoom := by
  unfold sizeT asInt Int.bmod valueRoom
  dsimp only
  split <;> omega

theorem asInt_of_le_valueRoom (h : n ≤ valueRoom) : asInt n = n := by
  rw [valueRoom] at h
  exact asInt_of_lt (by omega)

theorem readBytes_eq_ok {start : Int} {b : Nat → UInt8} : cmd.readBytes start n = .ok b ↔
    (n = 0 ∨ 0 ≤ start ∧ start + n ≤ cmd.length) ∧ (fun j => cmd.data (start.toNat + j)) = b := by
  rw [readBytes, bind_eq_ok]
  constructor
  · rintro ⟨u, hreq, hret⟩
    exact ⟨require_eq_ok.mp hreq, Except.ok.inj hret⟩
  · rintro ⟨hreq, rfl⟩
    exact ⟨(), require_eq_ok.mpr hreq, rfl⟩

theorem copyBytes_eq_ok {room : Nat} {overrun : BoundsFault} {start : Int} {b : Nat → UInt8} :
    cmd.copyBytes room overrun start n = .ok b ↔
      n ≤ room ∧ (n = 0 ∨ 0 ≤ start ∧ start + n ≤ cmd.length) ∧
        memcpyAt (fun _ => 0) 0 (fun j => cmd.data (start.toNat + j)) n = b := by
  rw [copyBytes, bind_eq_ok]
  constructor
  · rintro ⟨u, hreq, hrest⟩
    obtain ⟨bytes, hread, hret⟩ := bind_eq_ok.mp hrest
    obtain ⟨hin, rfl⟩ := readBytes_eq_ok.mp hread
    exact ⟨require_eq_ok.mp hreq, hin, Except.ok.inj hret⟩
  · rintro ⟨hroom, hin, rfl⟩
    refine ⟨(), require_eq_ok.mpr hroom, bind_eq_ok.mpr ⟨_, readBytes_eq_ok.mpr ⟨hin, rfl⟩, rfl⟩⟩

/-- The sub-command at its place in the payload. -/
def sub (cmd : BatchCommand) (i : Nat) : SubCommand where
  opcode := (cmd.payload.attr i).opcode
  key := memcpyAt (fun _ => 0) 0 (fun j => cmd.payload.subPayload (cmd.start i + j)) (cmd.keySize i)
  keyLen := cmd.keySize i
  value := memcpyAt (fun _ => 0) 0
    (fun j => cmd.payload.subPayload (cmd.start i + aligned (cmd.keySize i) + j)) (cmd.valueSize i)
  valLen := cmd.valueSize i

/-- The bytes of `valueSize`. -/
theorem readLe_valueSize (cmd : BatchCommand) (i : Nat) :
    readLe (fun j => cmd.data (attrSize * i + 4 + j)) 0 4 = cmd.valueSize i := by
  apply readLe_congr
  intro j _
  rw [Nat.zero_add]

/-- With the attributes in bounds only the key and the value are left to be copied. -/
theorem subCommand_copies (hindex : i < maxSubCmd) (hattr : attrSize * i + 8 ≤ cmd.length)
    (payloadOffset : Int) : cmd.subCommand payloadOffset i = do
      let key ← cmd.copyBytes keyRoom .key (batchHeadSize + payloadOffset) (cmd.keySize i)
      let value ← cmd.copyBytes valueRoom .value
        (batchHeadSize + payloadOffset + alignInt (cmd.keySize i)) (sizeT (asInt (cmd.valueSize i)))
      return ({ opcode := (cmd.payload.attr i).opcode, key, keyLen := cmd.keySize i, value,
                valLen := (asInt (cmd.valueSize i)).toNat },
        wrapInt (payloadOffset + wrapInt (wrapInt (alignInt (cmd.keySize i) +
          alignInt (asInt (cmd.valueSize i))) + alignLen))) := by
  have hop : cmd.readBytes (attrSize * i) 1 = .ok fun j => cmd.data (attrSize * i + j) :=
    readBytes_eq_ok.mpr ⟨Or.inr (by omega), rfl⟩
  have hk : cmd.readBytes (attrSize * i + 1) 1 = .ok fun j => cmd.data (attrSize * i + 1 + j) :=
    readBytes_eq_ok.mpr ⟨Or.inr (by omega), rfl⟩
  have hv : cmd.readBytes (attrSize * i + 4) 4 = .ok fun j => cmd.data (attrSize * i + 4 + j) :=
    readBytes_eq_ok.mpr ⟨Or.inr (by omega), rfl⟩
  have hsize : sizeT (cmd.keySize i) = cmd.keySize i := by
    apply sizeT_natCast
    exact (UInt8.toNat_lt _).trans (by simp)
  rw [subCommand, require_pos hindex, ok_bind]
  dsimp only
  rw [hop, ok_bind, hk, ok_bind, hv, ok_bind, readLe_valueSize]
  change (do
    let key ← cmd.copyBytes keyRoom .key (batchHeadSize + payloadOffset)
      (sizeT (cmd.keySize i))
    _) = _
  rw [hsize]
  rfl

theorem FitsAt.alignInt_keySize (h : cmd.FitsAt i) :
    alignInt (cmd.keySize i) = aligned (cmd.keySize i) :=
  alignInt_natCast (h.keySize.trans (by simp [keyRoom, valueRoom]))

/-- The units of a sub-command that fits. -/
theorem FitsAt.start_succ_le (h : cmd.FitsAt i) : cmd.start (i + 1) ≤ cmd.start i + 4309 := by
  have hkey := h.keySize
  have hvalue := h.valueSize
  have hkeyUnits := aligned_le (cmd.keySize i)
  have hvalueUnits := aligned_le (cmd.valueSize i)
  simp only [keyRoom, valueRoom, alignLen] at hkey hvalue hkeyUnits hvalueUnits
  rw [start, alignLen]
  omega

/-- A sub-command that fits is taken out of its place. -/
theorem FitsAt.subCommand_eq (h : cmd.FitsAt i) (hstart : cmd.start i < 2 ^ 30) :
    cmd.subCommand (cmd.start i) i = .ok (cmd.sub i, (cmd.start (i + 1) : Int)) := by
  have hkey : cmd.copyBytes keyRoom .key (batchHeadSize + cmd.start i) (cmd.keySize i) =
      .ok (cmd.sub i).key := by
    have hin := h.key
    rw [copyBytes_eq_ok]
    refine ⟨h.keySize, by omega, ?_⟩
    simp only [sub, payload, ← Nat.add_assoc]
    rfl
  have hvalue : cmd.copyBytes valueRoom .value (batchHeadSize + cmd.start i +
      (aligned (cmd.keySize i) : Int)) (cmd.valueSize i) = .ok (cmd.sub i).value := by
    have hin := h.value
    rw [copyBytes_eq_ok]
    refine ⟨h.valueSize, by omega, ?_⟩
    simp only [sub, payload, ← Nat.add_assoc]
    rfl
  have hsucc := h.start_succ_le
  have hnext : cmd.start (i + 1) =
    cmd.start i + (aligned (cmd.keySize i) + aligned (cmd.valueSize i) + alignLen) := rfl
  have hlen := cmd.valueSize_lt i
  rw [subCommand_copies h.index h.attr, h.alignInt_keySize, asInt_of_le_valueRoom h.valueSize,
    alignInt_natCast h.valueSize, sizeT_natCast (by omega), hkey, ok_bind, hvalue, ok_bind]
  have hsizes : wrapInt ((aligned (cmd.keySize i) : Int) + aligned (cmd.valueSize i)) =
      aligned (cmd.keySize i) + aligned (cmd.valueSize i) :=
    wrapInt_of_lt (by omega) (by omega)
  have hsub : wrapInt ((aligned (cmd.keySize i) : Int) + aligned (cmd.valueSize i) + alignLen) =
      aligned (cmd.keySize i) + aligned (cmd.valueSize i) + alignLen :=
    wrapInt_of_lt (by omega) (by omega)
  have hoff : wrapInt ((cmd.start i : Int) + (aligned (cmd.keySize i) +
      aligned (cmd.valueSize i) + alignLen)) = cmd.start (i + 1) := by
    rw [wrapInt_of_lt (by omega) (by omega), hnext]
    rfl
  rw [hsizes, hsub, hoff]
  rfl

/-- A sub-command that is taken out of its place fits. -/
theorem fitsAt_of_subCommand {r : SubCommand × Int}
    (h : cmd.subCommand (cmd.start i) i = .ok r) : cmd.FitsAt i := by
  have hindex : i < maxSubCmd := by
    obtain ⟨u, hreq, -⟩ := bind_eq_ok.mp h
    exact require_eq_ok.mp hreq
  have hattr : attrSize * i + 8 ≤ cmd.length := by
    obtain ⟨u, -, h⟩ := bind_eq_ok.mp h
    obtain ⟨opcode, -, h⟩ := bind_eq_ok.mp h
    obtain ⟨keySize, -, h⟩ := bind_eq_ok.mp h
    obtain ⟨valueSize, hread, -⟩ := bind_eq_ok.mp h
    obtain ⟨hin, -⟩ := readBytes_eq_ok.mp hread
    omega
  rw [subCommand_copies hindex hattr] at h
  obtain ⟨key, hkey, h⟩ := bind_eq_ok.mp h
  obtain ⟨value, hvalue, -⟩ := bind_eq_ok.mp h
  obtain ⟨hkeyRoom, hkeyIn, -⟩ := copyBytes_eq_ok.mp hkey
  obtain ⟨hvalueRoom, hvalueIn, -⟩ := copyBytes_eq_ok.mp hvalue
  have hvalueSize := (sizeT_asInt_le_iff (cmd.valueSize_lt i)).mp hvalueRoom
  have hlen := cmd.valueSize_lt i
  rw [asInt_of_le_valueRoom hvalueSize, sizeT_natCast (by omega),
    alignInt_natCast (hkeyRoom.trans (by simp [keyRoom, valueRoom]))] at hvalueIn
  exact ⟨hindex, hattr, hkeyRoom, hvalueSize, by omega, by omega⟩

/-! ## All sub-commands -/

theorem count_le (h : ∀ i < n, cmd.FitsAt i) : n ≤ maxSubCmd := by
  by_contra hmany
  exact absurd (h maxSubCmd (Nat.lt_of_not_le hmany)).index (Nat.lt_irrefl _)

theorem start_lt (h : ∀ i < n, cmd.FitsAt i) : cmd.start n < 2 ^ 30 := by
  have hle : cmd.start n ≤ alignLen + 4309 * n := by
    induction n with
    | zero => simp [start]
    | succ n ih =>
      have hrest := ih fun i hi => h i (Nat.lt_succ_of_lt hi)
      have hlast := (h n (Nat.lt_succ_self n)).start_succ_le
      rw [Nat.mul_succ, ← Nat.add_assoc]
      exact hlast.trans (Nat.add_le_add_right hrest _)
  have hcount := count_le h
  simp only [alignLen, maxSubCmd] at hle hcount
  omega

/-- What the rounds of a payload come to, as a result of the batch. -/
def ofPayload (r : Except KvFault (KvFtl × Nat)) : Except BatchFault (KvFtl × Int) :=
  (r.mapError .io).map fun st => (st.1, (st.2 : Int))

/-- A round of the payload performs the sub-command in its place. -/
theorem batchRound_payload (cmd : BatchCommand) (kv : KvFtl) (i : Nat) :
    KvFtl.batchRound cmd.payload (kv, cmd.start i) i = do
      let sub := cmd.sub i
      let kv ← kv.doPerformKvBatchedIo sub.opcode sub.key sub.keyLen sub.value sub.valLen
      return (kv, cmd.start (i + 1)) := rfl

/-- The round of a sub-command that fits performs it. -/
theorem FitsAt.round_eq (h : cmd.FitsAt i) (hstart : cmd.start i < 2 ^ 30) (kv : KvFtl) :
    cmd.round (kv, (cmd.start i : Int)) i =
      ofPayload (KvFtl.batchRound cmd.payload (kv, cmd.start i) i) := by
  rw [round, batchRound_payload]
  dsimp only
  rw [h.subCommand_eq hstart]
  change (do
    let kv ← (kv.doPerformKvBatchedIo (cmd.sub i).opcode (cmd.sub i).key (cmd.sub i).keyLen
      (cmd.sub i).value (cmd.sub i).valLen).mapError BatchFault.io
    pure (kv, (cmd.start (i + 1) : Int))) = _
  cases kv.doPerformKvBatchedIo (cmd.sub i).opcode (cmd.sub i).key (cmd.sub i).keyLen
    (cmd.sub i).value (cmd.sub i).valLen <;> rfl

/-- The round of a sub-command that does not fit is out of bounds. -/
theorem round_error (h : ¬ cmd.FitsAt i) (kv : KvFtl) :
    ∃ e, cmd.round (kv, (cmd.start i : Int)) i = .error (.bounds e) := by
  cases hsub : cmd.subCommand (cmd.start i) i with
  | ok r => exact absurd (fitsAt_of_subCommand hsub) h
  | error e =>
    refine ⟨e, ?_⟩
    rw [round]
    dsimp only
    rw [hsub]
    rfl

/-- The rounds keep to the places of the sub-commands. -/
theorem batchRounds_offset {st : KvFtl × Nat}
    (h : (List.range n).foldlM (KvFtl.batchRound cmd.payload) (kv, alignLen) = .ok st) :
    st.2 = cmd.start n := by
  induction n generalizing st with
  | zero =>
    cases h
    rfl
  | succ n ih =>
    rw [List.range_succ, List.foldlM_append] at h
    obtain ⟨st', hrounds, hlast⟩ := bind_eq_ok.mp h
    obtain ⟨st'', hround, hret⟩ := bind_eq_ok.mp hlast
    cases hret
    obtain ⟨kv', -, hret⟩ := bind_eq_ok.mp hround
    cases hret
    rw [start, ← ih hrounds]
    rfl

/-- The rounds of sub-commands that fit are those of the payload. -/
theorem rounds_eq (h : ∀ i < n, cmd.FitsAt i) (kv : KvFtl) :
    (List.range n).foldlM cmd.round (kv, (alignLen : Int)) =
      ofPayload ((List.range n).foldlM (KvFtl.batchRound cmd.payload) (kv, alignLen)) := by
  induction n with
  | zero => rfl
  | succ n ih =>
    have hfits := fun i hi => h i (Nat.lt_succ_of_lt hi)
    rw [List.range_succ, List.foldlM_append, List.foldlM_append, ih hfits]
    cases hrounds : (List.range n).foldlM (KvFtl.batchRound cmd.payload) (kv, alignLen) with
    | error e => rfl
    | ok st =>
      obtain ⟨kv', offset⟩ := st
      obtain rfl : offset = cmd.start n := batchRounds_offset hrounds
      have hround := (h n (Nat.lt_succ_self n)).round_eq (start_lt hfits) kv'
      simp only [List.foldlM_cons, List.foldlM_nil, bind_pure]
      exact hround

/-- A batch whose sub-commands fit performs what its payload lists. -/
theorem Fits.doPerformKvBatch_eq (h : cmd.Fits) (kv : KvFtl) :
    cmd.doPerformKvBatch kv = (kv.doPerformKvBatch cmd.payload cmd.rsvd4.toNat).mapError .io := by
  rw [doPerformKvBatch, rounds_eq h, KvFtl.doPerformKvBatch]
  cases (List.range cmd.rsvd4.toNat).foldlM (KvFtl.batchRound cmd.payload) (kv, alignLen) <;> rfl

theorem Fits.inBounds (h : cmd.Fits) (kv : KvFtl) : cmd.InBounds kv := by
  intro e herror
  rw [h.doPerformKvBatch_eq] at herror
  cases hrun : kv.doPerformKvBatch cmd.payload cmd.rsvd4.toNat with
  | ok kv' =>
    rw [hrun] at herror
    cases herror
  | error e' =>
    rw [hrun] at herror
    cases herror

end BatchCommand

/-! ## Tables with room -/

namespace KvFtl

variable {kv : KvFtl} {n : Nat}

theorem Ordered.newMappingEntryByKey {age : Nat → Nat} {now : Nat} (h : kv.Ordered age now)
    (key : Nat → UInt8) (keyLen valLen : Nat) {valOffset : Nat} (hoff : valOffset < kv.storageSize)
    (hfree : ∃ e < kv.hashSlots, ¬ kv.Live e) :
    ∃ kv' y link, kv.newMappingEntryByKey key keyLen valLen valOffset = .ok kv' ∧
      kv.Taken kv' y link ∧ kv'.latest = kv.latest ∧ kv'.storageSize = kv.storageSize := by
  have hslot : kv.getHashSlot key keyLen < kv.hashSlots := Nat.mod_lt _ h.pos
  rw [KvFtl.newMappingEntryByKey, require_pos hoff, ok_bind]
  dsimp only
  by_cases hmem : (kv.kvMappingTable (kv.getHashSlot key keyLen)).memOffset = none
  · rw [if_pos hmem]
    have hdead : ¬ kv.Live (kv.getHashSlot key keyLen) := fun hlive => hlive.2 hmem
    exact ⟨_, _, none, rfl, taken_setSlot hslot hdead (by simp) (h.blank _ hslot hmem), rfl, rfl⟩
  · rw [if_neg hmem]
    have hlive : kv.Live (kv.getHashSlot key keyLen) := ⟨hslot, hmem⟩
    obtain ⟨y, z, hfind⟩ := h.exists_findNextSlot hlive hfree
    obtain ⟨hy, hdead, -, hz, hend⟩ := h.findNextSlot_spec hlive hfind
    have hnone := memOffset_of_not_live hy hdead
    rw [hfind]
    exact ⟨_, y, some z, rfl,
      taken_chainMapping hy hdead (by simp) (h.blank y hy hnone) hz hend, rfl, rfl⟩

/-- The slots that are not in use. -/
def freeSlots (kv : KvFtl) : Finset Nat := (Finset.range kv.hashSlots).filter fun s => ¬ kv.Live s

/-- The table and the storage have room for `n` values that fit into a batch. -/
structure Roomy (kv : KvFtl) (n : Nat) : Prop where
  ordered : ∃ age now, kv.Ordered age now
  slots : n ≤ kv.freeSlots.card
  storage : kv.latest + valueRoom * n ≤ kv.storageSize

theorem Roomy.pred (h : kv.Roomy (n + 1)) : kv.Roomy n := by
  have hstorage := h.storage
  rw [Nat.mul_succ] at hstorage
  exact ⟨h.ordered, Nat.le_of_succ_le h.slots, by omega⟩

theorem Roomy.exists_free (h : kv.Roomy (n + 1)) : ∃ e < kv.hashSlots, ¬ kv.Live e := by
  have hslots := h.slots
  obtain ⟨e, he⟩ := Finset.card_pos.mp (Nat.zero_lt_of_lt hslots)
  obtain ⟨hlt, hdead⟩ := Finset.mem_filter.mp he
  exact ⟨e, Finset.mem_range.mp hlt, hdead⟩

theorem card_freeSlots_taken {kv' : KvFtl} {y : Nat} {link : Option Nat}
    (h : kv.Taken kv' y link) : kv.freeSlots.card ≤ kv'.freeSlots.card + 1 := by
  have hfree : kv'.freeSlots = kv.freeSlots.erase y := by
    ext s
    simp only [freeSlots, Finset.mem_erase, Finset.mem_filter, Finset.mem_range, h.slots, h.live_iff]
    tauto
  have hcard := Finset.pred_card_le_card_erase (s := kv.freeSlots) (a := y)
  rw [hfree]
  omega

/-- A sub-command on a table with room succeeds, and takes one slot and one value of the room. -/
theorem Roomy.doPerformKvBatchedIo (h : kv.Roomy (n + 1)) (opcode : KvOpcode) (key : Nat → UInt8)
    (keyLen : Nat) (value : Nat → UInt8) {valLen : Nat} (hval : valLen ≤ valueRoom) :
    ∃ kv', kv.doPerformKvBatchedIo opcode key keyLen value valLen = .ok kv' ∧ kv'.Roomy n := by
  obtain ⟨age, now, hord⟩ := h.ordered
  have hslot : kv.getHashSlot key keyLen < kv.hashSlots := Nat.mod_lt _ hord.pos
  have hfuel := kv.ahead_le age (kv.getHashSlot key keyLen)
  obtain ⟨found, hsearch, -⟩ :=
    @Ordered.searchLoop_spec kv keyLen (kv.hashSlots + 1) _ key _ _ hord hslot (by omega)
  rw [KvFtl.doPerformKvBatchedIo, getMappingEntryByKey, hsearch]
  simp only [ok_bind]
  by_cases hop : opcode = .store
  · subst hop
    cases hentry : found.bind fun s =>
      (kv.kvMappingTable s).memOffset.map fun offset => (offset, (kv.kvMappingTable s).length) with
    | some entry =>
      have hpred := h.pred
      refine ⟨_, rfl, ?_, hpred.slots, hpred.storage⟩
      exact ⟨age, now, hord.congr rfl (fun _ => rfl) fun _ => rfl⟩
    | none =>
      have hstorage := h.storage
      rw [Nat.mul_succ] at hstorage
      have hlatest : u64 (kv.latest + valLen) ≤ kv.latest + valLen := Nat.mod_le ..
      have hpos : 0 < valueRoom := by simp [valueRoom]
      let mid : KvFtl := { kv with
        latest := u64 (kv.latest + valLen), storage := memcpyAt kv.storage kv.latest value valLen }
      have hmid : mid.Ordered age now := hord.congr rfl (fun _ => rfl) fun _ => rfl
      obtain ⟨kv', y, link, hnew, htaken, hkept, hsize⟩ :=
        @Ordered.newMappingEntryByKey mid age now hmid key keyLen valLen kv.latest
          (show kv.latest < kv.storageSize by omega) h.exists_free
      refine ⟨kv', hnew, ⟨_, _, htaken.ordered hmid⟩, ?_, ?_⟩
      · have hslots : n + 1 ≤ mid.freeSlots.card := h.slots
        have hcard := card_freeSlots_taken htaken
        omega
      · rw [hkept, hsize]
        change u64 (kv.latest + valLen) + valueRoom * n ≤ kv.storageSize
        omega
  · refine ⟨kv, ?_, h.pred⟩
    cases opcode with
    | store => exact absurd rfl hop
    | retrieve => rfl
    | exist => rfl
    | delete => rfl
    | other => rfl

theorem init_roomy {slots size : Nat} (hpos : 0 < slots) (hslots : n ≤ slots)
    (hsize : valueRoom * n ≤ size) (storage : Nat → UInt8) :
    (kvInitNamespace slots size storage).Roomy n := by
  have hdead : ∀ s, ¬ (kvInitNamespace slots size storage).Live s := by
    intro s hlive
    apply hlive.2
    have hlt : s < slots := hlive.1
    simp [kvInitNamespace, hlt]
  refine ⟨(represents_init hpos size 0 0 storage).sound.ordered, ?_, ?_⟩
  · have hall : (kvInitNamespace slots size storage).freeSlots = Finset.range slots :=
      Finset.filter_true_of_mem fun s _ => hdead s
    rw [hall, Finset.card_range]
    exact hslots
  · change 0 + valueRoom * n ≤ size
    omega

end KvFtl

/-! ## Batches in bounds -/

/-- On a table with room the sub-commands that fit are performed. -/
theorem KvFtl.Roomy.rounds {cmd : BatchCommand} {kv : KvFtl} {m n : Nat} (h : kv.Roomy (n + m))
    (hfits : ∀ i < n, cmd.FitsAt i) :
    ∃ kv', (List.range n).foldlM cmd.round (kv, (alignLen : Int)) =
      .ok (kv', (cmd.start n : Int)) ∧ kv'.Roomy m := by
  induction n generalizing m with
  | zero =>
    rw [Nat.zero_add] at h
    exact ⟨kv, rfl, h⟩
  | succ n ih =>
    have hrest := fun i hi => hfits i (Nat.lt_succ_of_lt hi)
    have hlast := hfits n (Nat.lt_succ_self n)
    rw [Nat.succ_add_eq_add_succ] at h
    obtain ⟨kv₁, hrounds, hroomy⟩ := ih h hrest
    have hvalue : (cmd.sub n).valLen ≤ valueRoom := hlast.valueSize
    obtain ⟨kv₂, hio, hroomy'⟩ := hroomy.doPerformKvBatchedIo (cmd.sub n).opcode (cmd.sub n).key
      (cmd.sub n).keyLen (cmd.sub n).value hvalue
    have hbatch : batchRound cmd.payload (kv₁, cmd.start n) n = .ok (kv₂, cmd.start (n + 1)) := by
      rw [BatchCommand.batchRound_payload]
      dsimp only
      rw [hio]
      rfl
    refine ⟨kv₂, ?_, hroomy'⟩
    rw [List.range_succ, List.foldlM_append, hrounds, ok_bind, List.foldlM_cons,
      hlast.round_eq (BatchCommand.start_lt hrest), hbatch]
    rfl

/-- On a table with room a batch is in bounds if and only if its sub-commands fit. -/
theorem KvFtl.Roomy.inBounds_iff {kv : KvFtl} (h : kv.Roomy maxSubCmd) (cmd : BatchCommand) :
    cmd.InBounds kv ↔ cmd.Fits := by
  constructor
  · intro hbounds
    have hall : ∀ n ≤ cmd.rsvd4.toNat, ∀ i < n, cmd.FitsAt i := by
      intro n hn
      induction n with
      | zero => simp
      | succ n ih =>
        have hfits := ih (Nat.le_of_succ_le hn)
        have hcount := BatchCommand.count_le hfits
        obtain ⟨m, hm⟩ := Nat.exists_eq_add_of_le hcount
        obtain ⟨kv', hrounds, -⟩ := (hm ▸ h : kv.Roomy (n + m)).rounds hfits
        have hlast : cmd.FitsAt n := by
          by_contra hnot
          obtain ⟨e, herror⟩ := BatchCommand.round_error hnot kv'
          apply hbounds e
          rw [BatchCommand.doPerformKvBatch, foldlM_range_eq_error hrounds herror hn]
          rfl
        intro i hi
        rcases Nat.lt_succ_iff_lt_or_eq.mp hi with hlt | rfl
        · exact hfits i hlt
        · exact hlast
    exact hall _ (Nat.le_refl _)
  · intro hfits
    exact hfits.inBounds kv

/-- A batch is in bounds on every table if and only if it has at most eight sub-commands, each of
which fits into the buffers and ends before the payload does. -/
theorem batch_in_bounds_iff (cmd : BatchCommand) : (∀ kv, cmd.InBounds kv) ↔ cmd.Fits := by
  constructor
  · intro hbounds
    have hroomy : (kvInitNamespace 8 (2 ^ 16) fun _ => 0).Roomy maxSubCmd := by
      apply KvFtl.init_roomy
      · simp
      · simp [maxSubCmd]
      · simp [valueRoom, maxSubCmd]
    exact (hroomy.inBounds_iff cmd).mp (hbounds _)
  · intro hfits kv
    exact hfits.inBounds kv

/-- A batch of `length` bytes: every sub-command has a key and a value of the same size, and all
other bytes are 0. -/
def uniformBatch (length : Nat) (count keySize : UInt8) (valueSize : Nat) : BatchCommand where
  valueLen := length / 4
  rsvd4 := count
  data := fun a =>
    if batchHeadSize ≤ a then 0
    else if a % attrSize = 1 then keySize
    else if 4 ≤ a % attrSize ∧ a % attrSize < 8 then leByte valueSize (a % attrSize - 4)
    else 0

/-- The bound that a batch breaks on a table of eight slots. -/
def brokenBound (cmd : BatchCommand) : Option BoundsFault :=
  match cmd.doPerformKvBatch (kvInitNamespace 8 (2 ^ 16) fun _ => 0) with
  | .error (.bounds e) => some e
  | _ => none

theorem not_inBounds_of_brokenBound {cmd : BatchCommand} {e : BoundsFault}
    (h : brokenBound cmd = some e) : ¬ ∀ kv, cmd.InBounds kv := by
  intro hbounds
  have hno := hbounds (kvInitNamespace 8 (2 ^ 16) fun _ => 0)
  unfold brokenBound at h
  cases hrun : cmd.doPerformKvBatch (kvInitNamespace 8 (2 ^ 16) fun _ => 0) with
  | ok kv =>
    rw [hrun] at h
    cases h
  | error fault =>
    rw [hrun] at h
    cases fault with
    | bounds e => exact hno e hrun
    | io e => cases h

example : (uniformBatch 2112 8 4 4).Fits := by decide +kernel

/-- Nine sub-commands, a key of 21 bytes, values of 4098 bytes and of `2 ^ 31`, a payload without
attributes, and one that ends before its key. -/
theorem batch_breaks_bounds :
    brokenBound (uniformBatch 4096 9 4 4) = some .attr ∧
    brokenBound (uniformBatch 4096 1 21 4) = some .key ∧
    brokenBound (uniformBatch 8192 1 4 4098) = some .value ∧
    brokenBound (uniformBatch 4096 1 4 (2 ^ 31)) = some .value ∧
    brokenBound (uniformBatch 0 1 4 4) = some .payload ∧
    brokenBound (uniformBatch 576 1 4 4) = some .payload ∧
    ¬ ∀ kv, (uniformBatch 4096 1 21 4).InBounds kv := by
  have hkey : brokenBound (uniformBatch 4096 1 21 4) = some .key := by decide +kernel
  refine ⟨by decide +kernel, hkey, by decide +kernel, by decide +kernel, by decide +kernel,
    by decide +kernel, ?_⟩
  exact not_inBounds_of_brokenBound hkey

end NvmeVirt
