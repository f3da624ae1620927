import NvmeVirt.Library.Outcome
import NvmeVirt.Ssd.Config

/-!
# The key-value store

`kv_ftl.c` with the append-only allocator: a table of slots in which colliding keys are chained,
and the values in the storage behind it. An offset or a slot number of -1 is absent. The loops
along the chains and over the slots may run forever, so they carry fuel.
-/

namespace NvmeVirt

open Checked

/-- What a key-value command does not survive. -/
inductive KvFault
  /-- `BUG_ON(val_offset >= storage_size)`. -/
  | valOffset
  /-- A loop that does not end. -/
  | endless
  deriving DecidableEq, Repr

/-! ## Bytes -/

/-- `memcmp` of `n` bytes is 0. -/
def sameBytes (n : Nat) (a b : Nat → UInt8) : Bool := decide (∀ i < n, a i = b i)

/-- `memcpy` of `n` bytes to `offset`. -/
def memcpyAt (dst : Nat → UInt8) (offset : Nat) (src : Nat → UInt8) (n : Nat) : Nat → UInt8 :=
  fun i => if offset ≤ i ∧ i < offset + n then src (i - offset) else dst i

/-- The `n` bytes from `offset` on. -/
def bytesAt (mem : Nat → UInt8) (offset n : Nat) : List UInt8 :=
  (List.range n).map fun i => mem (offset + i)

/-! ## Tables -/

/-- `struct mapping_entry`. -/
structure MappingEntry where
  key : Nat → UInt8
  memOffset : Option Nat
  length : Nat
  nextSlot : Option Nat

/-- An entry of bytes `0xff`. -/
def MappingEntry.blank : MappingEntry :=
  { key := fun _ => 0xff, memOffset := none, length := 2 ^ 64 - 1, nextSlot := none }

/-- `struct kv_ftl`, with `latest` of `append_only.c` and the storage. -/
structure KvFtl where
  kvMappingTable : Nat → MappingEntry
  hashSlots : Nat
  latest : Nat
  storage : Nat → UInt8
  storageSize : Nat

/-- `kv_init_namespace` for a table of `hashSlots` slots. -/
def kvInitNamespace (hashSlots storageSize : Nat) (storage : Nat → UInt8) : KvFtl where
  kvMappingTable := fun i =>
    if i < hashSlots then
      { key := fun _ => 0, memOffset := none, length := 2 ^ 64 - 1, nextSlot := none }
    else { key := fun _ => 0, memOffset := some 0, length := 0, nextSlot := some 0 }
  hashSlots := hashSlots
  latest := 0
  storage := storage
  storageSize := storageSize

/-- The opcodes that `__do_perform_kv_io` knows. -/
inductive KvOpcode
  | store
  | retrieve
  | exist
  | delete
  | other
  deriving DecidableEq, Repr

/-- `struct nvme_kv_command`, with the bytes of the host buffer that its PRPs name. -/
structure KvCommand where
  opcode : KvOpcode
  key : Nat → UInt8
  keyLen : Nat
  valueLen : Nat
  data : Nat → UInt8

/-- `cmd_key_length`; the field is 0-based. -/
def KvCommand.keyLength (cmd : KvCommand) : Nat := cmd.keyLen + 1

/-- `cmd_value_length`; the field counts words. -/
def KvCommand.valueLength (cmd : KvCommand) : Nat := u32 (cmd.valueLen * 4)

/-- `KV_SUCCESS` and `KV_ERR_KEY_NOT_EXIST`. -/
def kvSuccess : Nat := 0

@[inherit_doc kvSuccess] def kvErrKeyNotExist : Nat := 0x310

/-- `SMALL_LENGTH`. -/
def smallLength : Nat := 1024

/-- `hash_function`. -/
def hashFunction (key : Nat → UInt8) (length : Nat) : Nat :=
  (List.range length).foldl (fun h i => u32 (h * 16777619) ^^^ (key i).toNat) 2166136261

namespace KvFtl

/-- Store slot `s`. -/
def setSlot (kv : KvFtl) (s : Nat) (e : MappingEntry) : KvFtl :=
  { kv with kvMappingTable := Function.update kv.kvMappingTable s e }

/-- `get_hash_slot`. -/
def getHashSlot (kv : KvFtl) (key : Nat → UInt8) (keyLen : Nat) : Nat :=
  hashFunction key keyLen % kv.hashSlots

/-- `append_only_allocate`; `allocate_mem_offset` returns its offset. -/
def allocateMemOffset (kv : KvFtl) (length : Nat) : Nat × KvFtl :=
  (kv.latest, { kv with latest := u64 (kv.latest + length) })

/-! ## Chains -/

/-- The loop that `get_mapping_entry`, `update_mapping_entry` and `delete_mapping_entry` share:
the slot that holds the key, on the chain from `slot` on. -/
def searchLoop (kv : KvFtl) (key : Nat → UInt8) (keyLen : Nat) :
    Nat → Nat → Except KvFault (Option Nat)
  | 0, _ => .error .endless
  | fuel + 1, slot =>
    let e := kv.kvMappingTable slot
    if e.memOffset = none then .ok none
    else if sameBytes keyLen key e.key then .ok (some slot)
    else
      match e.nextSlot with
      | none => .ok none
      | some next => searchLoop kv key keyLen fuel next

/-- The search for the key of a command. -/
def search (kv : KvFtl) (cmd : KvCommand) : Except KvFault (Option Nat) :=
  kv.searchLoop cmd.key cmd.keyLength (kv.hashSlots + 1) (kv.getHashSlot cmd.key cmd.keyLength)

/-- `get_mapping_entry`: the offset and the length it finds. -/
def getMappingEntry (kv : KvFtl) (cmd : KvCommand) : Except KvFault (Option (Nat × Nat)) := do
  let found ← kv.search cmd
  return found.bind fun s =>
    (kv.kvMappingTable s).memOffset.map fun offset => (offset, (kv.kvMappingTable s).length)

/-- The first loop of `find_next_slot`: the last slot in use on the chain. -/
def tailLoop (kv : KvFtl) : Nat → Nat → Option Nat → Except KvFault (Option Nat)
  | 0, _, _ => .error .endless
  | fuel + 1, tail, prevs =>
    let e := kv.kvMappingTable tail
    if e.memOffset = none then .ok prevs
    else
      match e.nextSlot with
      | none => .ok (some tail)
      | some next => tailLoop kv fuel next (some tail)

/-- The second loop: the next slot that is not in use. -/
def probeLoop (kv : KvFtl) : Nat → Nat → Except KvFault Nat
  | 0, _ => .error .endless
  | fuel + 1, slot =>
    if (kv.kvMappingTable slot).memOffset = none then .ok slot
    else probeLoop kv fuel (if slot + 1 ≥ kv.hashSlots then 0 else slot + 1)

/-- `find_next_slot`: the new slot and the slot to link it to. A chain without a slot in use gives
no place to search from. -/
def findNextSlot (kv : KvFtl) (slot : Nat) : Except KvFault (Nat × Nat) := do
  match ← kv.tailLoop (kv.hashSlots + 1) slot none with
  | none => .error .endless
  | some prev =>
    let new ← kv.probeLoop (kv.hashSlots + 1) prev
    return (new, prev)

/-- `chain_mapping`. -/
def chainMapping (kv : KvFtl) (prev slot : Nat) : KvFtl :=
  kv.setSlot prev { kv.kvMappingTable prev with nextSlot := some slot }

/-- The key, offset and length of a new entry; its link stays. -/
def fillSlot (kv : KvFtl) (slot : Nat) (cmd : KvCommand) (valOffset : Nat) : KvFtl :=
  let e := kv.kvMappingTable slot
  kv.setSlot slot { e with
    key := memcpyAt e.key 0 cmd.key cmd.keyLength
    memOffset := some valOffset
    length := cmd.valueLength }

/-- `new_mapping_entry`. -/
def newMappingEntry (kv : KvFtl) (cmd : KvCommand) (valOffset : Nat) : Except KvFault KvFtl := do
  require (valOffset < kv.storageSize) .valOffset
  let slot := kv.getHashSlot cmd.key cmd.keyLength
  if (kv.kvMappingTable slot).memOffset = none then return kv.fillSlot slot cmd valOffset
  else
    let (new, prev) ← kv.findNextSlot slot
    return (kv.fillSlot new cmd valOffset).chainMapping prev new

/-- `update_mapping_entry`. -/
def updateMappingEntry (kv : KvFtl) (cmd : KvCommand) : Except KvFault KvFtl := do
  match ← kv.search cmd with
  | none => return kv
  | some s => return kv.setSlot s { kv.kvMappingTable s with length := cmd.valueLength }

/-- `delete_mapping_entry`. -/
def deleteMappingEntry (kv : KvFtl) (cmd : KvCommand) : Except KvFault KvFtl := do
  match ← kv.search cmd with
  | none => return kv
  | some s => return kv.setSlot s .blank

end KvFtl

/-! ## Commands -/

/-- What a command reports: `result0`, the status, and the bytes copied to the host. -/
structure KvResult where
  result0 : Nat
  status : Nat
  data : List UInt8
  deriving DecidableEq, Repr

/-- A command that copies nothing to the host. -/
def KvResult.done (status : Nat) : KvResult := { result0 := 0, status, data := [] }

/-- `__do_perform_kv_io`; `status` is the status that the caller passes in. -/
def KvFtl.doPerformKvIo (kv : KvFtl) (cmd : KvCommand) (status : Nat) :
    Except KvFault (KvResult × KvFtl) := do
  let entry ← kv.getMappingEntry cmd
  let length := cmd.valueLength
  match cmd.opcode, entry with
  | .store, none =>
    let (offset, kv) := kv.allocateMemOffset length
    let kv := { kv with storage := memcpyAt kv.storage offset cmd.data length }
    let kv ← kv.newMappingEntry cmd offset
    return (.done status, kv)
  | .store, some (offset, entryLength) =>
    let kv := { kv with storage := memcpyAt kv.storage offset cmd.data length }
    if length ≠ entryLength ∧ length ≤ smallLength ∧ entryLength ≤ smallLength then
      let kv ← kv.updateMappingEntry cmd
      return (.done status, kv)
    else return (.done status, kv)
  | .retrieve, some (offset, entryLength) =>
    let length := min entryLength length
    return ({ result0 := length, status, data := bytesAt kv.storage offset length }, kv)
  | .exist, some _ => return (.done status, kv)
  | .delete, some _ =>
    let kv ← kv.deleteMappingEntry cmd
    return (.done status, kv)
  | .other, _ => return (.done status, kv)
  | _, none => return (.done kvErrKeyNotExist, kv)

/-- A run of commands, each with the status of a new request: the replies and the store. -/
def KvFtl.run (kv : KvFtl) : List KvCommand → Except KvFault (List KvResult × KvFtl)
  | [] => .ok ([], kv)
  | cmd :: cmds => do
    let (reply, kv) ← kv.doPerformKvIo cmd kvSuccess
    let (replies, kv) ← kv.run cmds
    return (reply :: replies, kv)

end NvmeVirt
