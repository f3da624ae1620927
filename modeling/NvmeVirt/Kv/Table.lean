import NvmeVirt.Kv.Batch
import NvmeVirt.Library.Bytes

/-!
# The table in memory

The mapping table is memory, and an entry has 18 bytes for its key. No key is measured before it is
copied: the bytes behind the key field are those of the offset and the length, which are stored
after it, then those of the link, and then the next entries.
-/

namespace NvmeVirt

open Checked Bytes

/-! ## Copies -/

variable {mem src : Nat → UInt8} {a k n off p v : Nat}

theorem memcpyAt_of_out (h : a < off ∨ off + n ≤ a) : memcpyAt mem off src n a = mem a := by
  unfold memcpyAt
  rw [if_neg]
  omega

theorem memcpyAt_add (h : a < n) : memcpyAt mem off src n (off + a) = src a := by
  unfold memcpyAt
  rw [if_pos (by omega), Nat.add_sub_cancel_left]

theorem readLe_memcpyAt_of_out (h : p + k ≤ off ∨ off + n ≤ p) :
    readLe (memcpyAt mem off src n) p k = readLe mem p k := by
  apply readLe_congr
  intro i hi
  apply memcpyAt_of_out
  omega

/-- A number that was stored is read back. -/
theorem readLe_memcpyAt_self (hv : v < 256 ^ n) :
    readLe (memcpyAt mem off (leByte v) n) off n = v := by
  have hread : readLe (memcpyAt mem off (leByte v) n) off n = v % 256 ^ n :=
    readLe_of_leByte fun i hi => memcpyAt_add hi
  rw [hread, Nat.mod_eq_of_lt hv]

/-! ## Layout -/

/-- `sizeof(struct mapping_entry)`, and the offsets of its fields behind `key`. -/
def mappingEntrySize : Nat := 48

@[inherit_doc mappingEntrySize] def memOffsetField : Nat := 24
@[inherit_doc mappingEntrySize] def lengthField : Nat := 32
@[inherit_doc mappingEntrySize] def nextSlotField : Nat := 40

/-- A field of all ones is -1. -/
def fieldOf (bytes v : Nat) : Option Nat := if v = 256 ^ bytes - 1 then none else some v

/-- The memory of the table, with what its functions read besides. -/
structure KvTable where
  mem : Nat → UInt8
  hashSlots : Nat
  latest : Nat
  storageSize : Nat

/-- The entry in slot `s`; its key is read as far as it is compared. -/
def entryAt (mem : Nat → UInt8) (s : Nat) : MappingEntry where
  key := fun i => mem (mappingEntrySize * s + i)
  memOffset := fieldOf 8 (readLe mem (mappingEntrySize * s + memOffsetField) 8)
  length := readLe mem (mappingEntrySize * s + lengthField) 8
  nextSlot := fieldOf 4 (readLe mem (mappingEntrySize * s + nextSlotField) 4)

namespace KvTable

/-- The entries, as the loops along the chains see them. -/
def view (t : KvTable) : KvFtl where
  kvMappingTable := entryAt t.mem
  hashSlots := t.hashSlots
  latest := t.latest
  storage := fun _ => 0
  storageSize := t.storageSize

/-- Store a field of `bytes` bytes. -/
def setField (t : KvTable) (s field bytes v : Nat) : KvTable :=
  { t with mem := memcpyAt t.mem (mappingEntrySize * s + field) (leByte v) bytes }

/-- `memcpy` to the key of an entry. -/
def setKey (t : KvTable) (s : Nat) (key : Nat → UInt8) (keyLen : Nat) : KvTable :=
  { t with mem := memcpyAt t.mem (mappingEntrySize * s) key keyLen }

/-- The key, the offset and the length of a new entry, in the order of the stores. -/
def fillSlot (t : KvTable) (s : Nat) (key : Nat → UInt8) (keyLen valLen valOffset : Nat) : KvTable :=
  ((t.setKey s key keyLen).setField s memOffsetField 8 valOffset).setField s lengthField 8 valLen

/-- `chain_mapping`. -/
def chainMapping (t : KvTable) (prev slot : Nat) : KvTable := t.setField prev nextSlotField 4 slot

/-- `new_mapping_entry` and `new_mapping_entry_by_key`. -/
def newMappingEntry (t : KvTable) (key : Nat → UInt8) (keyLen valLen valOffset : Nat) :
    Except KvFault KvTable := do
  require (valOffset < t.storageSize) .valOffset
  let slot := t.view.getHashSlot key keyLen
  if (t.view.kvMappingTable slot).memOffset = none then
    return t.fillSlot slot key keyLen valLen valOffset
  else
    let (new, prev) ← t.view.findNextSlot slot
    return (t.fillSlot new key keyLen valLen valOffset).chainMapping prev new

/-- `update_mapping_entry`. -/
def updateMappingEntry (t : KvTable) (cmd : KvCommand) : Except KvFault KvTable := do
  match ← t.view.search cmd with
  | none => return t
  | some s => return t.setField s lengthField 8 cmd.valueLength

/-- `delete_mapping_entry`: `memset` of the entry to -1. -/
def deleteMappingEntry (t : KvTable) (cmd : KvCommand) : Except KvFault KvTable := do
  match ← t.view.search cmd with
  | none => return t
  | some s =>
    return { t with mem := memcpyAt t.mem (mappingEntrySize * s) (fun _ => 0xff) mappingEntrySize }

/-- `append_only_allocate`. -/
def allocateMemOffset (t : KvTable) (length : Nat) : Nat × KvTable :=
  (t.latest, { t with latest := u64 (t.latest + length) })

end KvTable

/-- What stores into the table and deletes from it: a command, or a sub-command of a batch. -/
inductive TableOp
  | store (cmd : KvCommand)
  | batched (key : Nat → UInt8) (keyLen valLen : Nat)
  | delete (cmd : KvCommand)

namespace KvTable

/-- What a command of `__do_perform_kv_io` or a store of `__do_perform_kv_batched_io` does to the
table. -/
def step (t : KvTable) : TableOp → Except KvFault KvTable
  | .store cmd => do
    match ← t.view.getMappingEntry cmd with
    | none =>
      let (offset, t) := t.allocateMemOffset cmd.valueLength
      t.newMappingEntry cmd.key cmd.keyLength cmd.valueLength offset
    | some (_, entryLength) =>
      if cmd.valueLength ≠ entryLength ∧ cmd.valueLength ≤ smallLength ∧
          entryLength ≤ smallLength then
        t.updateMappingEntry cmd
      else return t
  | .batched key keyLen valLen => do
    match ← t.view.getMappingEntryByKey key keyLen with
    | none =>
      let (offset, t) := t.allocateMemOffset valLen
      t.newMappingEntry key keyLen valLen offset
    | some _ => return t
  | .delete cmd => do
    match ← t.view.getMappingEntry cmd with
    | none => return t
    | some _ => t.deleteMappingEntry cmd

/-- `kv_init_namespace` clears the table and sets three fields of every entry. -/
def init (hashSlots storageSize : Nat) : KvTable where
  mem := fun a =>
    if a < mappingEntrySize * hashSlots ∧ memOffsetField ≤ a % mappingEntrySize ∧
      a % mappingEntrySize < nextSlotField + 4 then 0xff else 0
  hashSlots := hashSlots
  latest := 0
  storageSize := storageSize

/-- A run of stores and deletes. -/
def run (t : KvTable) (ops : List TableOp) : Except KvFault KvTable := ops.foldlM step t

end KvTable

end NvmeVirt
