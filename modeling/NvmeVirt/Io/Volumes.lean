import NvmeVirt.Io.Translation
import NvmeVirt.Io.Dma
import NvmeVirt.Library.Bytes

/-!
# The namespaces as volumes

Every namespace is a stretch of the storage. What `__do_perform_io` copies makes it a volume of its
own: a write replaces the bytes it covers in its namespace, and a read delivers the bytes that were
last written, into the buffer and nowhere else.
-/

namespace NvmeVirt

open Checked Segments

/-! ## The namespaces in the storage -/

/-- The size of namespace `i`, as `NVMEV_NAMESPACE_INIT` cuts the storage. -/
def nsSize (capacities : List Nat) (storageSize i : Nat) : Nat :=
  (nsSizes capacities storageSize).getD i 0

section namespaces

variable (capacities : List Nat) (storageSize : Nat)

theorem nsMapped_succ (i : Nat) : nsMapped capacities storageSize (i + 1) =
    nsMapped capacities storageSize i + nsSize capacities storageSize i := by
  unfold nsMapped nsSize
  rw [List.take_add_one, List.sum_append, List.getD_eq_getElem?_getD]
  cases (nsSizes capacities storageSize)[i]? <;> simp

theorem nsMapped_mono {i j : Nat} (h : i ≤ j) :
    nsMapped capacities storageSize i ≤ nsMapped capacities storageSize j := by
  induction h with
  | refl => exact le_rfl
  | step _ ih =>
    rw [nsMapped_succ]
    exact Nat.le_add_right_of_le ih

/-- A namespace ends within the storage. -/
theorem nsMapped_add_nsSize_le (i : Nat) :
    nsMapped capacities storageSize i + nsSize capacities storageSize i ≤ storageSize := by
  rw [← nsMapped_succ]
  exact nsMapped_le capacities storageSize (i + 1)

/-- No byte belongs to two namespaces. -/
theorem ns_disjoint {i j x y : Nat} (hx : x < nsSize capacities storageSize i)
    (hy : y < nsSize capacities storageSize j)
    (heq : nsMapped capacities storageSize i + x = nsMapped capacities storageSize j + y) :
    i = j ∧ x = y := by
  have hi := nsMapped_succ capacities storageSize i
  have hj := nsMapped_succ capacities storageSize j
  rcases lt_trichotomy i j with hlt | rfl | hlt
  · have hle := nsMapped_mono capacities storageSize (Nat.succ_le_of_lt hlt)
    rw [Nat.succ_eq_add_one] at hle
    omega
  · exact ⟨rfl, Nat.add_left_cancel heq⟩
  · have hle := nsMapped_mono capacities storageSize (Nat.succ_le_of_lt hlt)
    rw [Nat.succ_eq_add_one] at hle
    omega

end namespaces

/-! ## Copies between two memories -/

/-- The bytes of the storage and of the host. -/
structure Memories where
  storage : Nat → UInt8
  host : Nat → UInt8

/-- One byte of a copy. -/
def Memories.copyByte (toStorage : Bool) (m : Memories) (b : Nat × Nat) : Memories :=
  if toStorage then { m with storage := Function.update m.storage b.1 (m.host b.2) }
  else { m with host := Function.update m.host b.2 (m.storage b.1) }

/-- The `memcpy` of a round. -/
def IoCopy.perform (m : Memories) (x : IoCopy) : Memories :=
  x.bytes.foldl (Memories.copyByte x.toStorage) m

/-- A command and the memory of the host that it meets. -/
structure IoCommand where
  cmd : NvmeSqe
  pfnValid : Nat → Bool
  memory : Nat → UInt8

namespace IoCommand

/-- Page frames and the words of the memory. -/
def host (c : IoCommand) : HostMemory :=
  { pfnValid := c.pfnValid, word := fun a => Bytes.readLe c.memory a 8 }

/-- `__do_perform_io` for a namespace that is mapped at `base`. The buffer is no part of its own PRP
list, so that the list can be read first. -/
def perform (c : IoCommand) (base : Nat) (storage : Nat → UInt8) : Except IoFault Memories := do
  let copies ← doPerformIo c.host c.cmd
  return (copies.map (IoCopy.mapped base)).foldl IoCopy.perform { storage, host := c.memory }

/-- Byte `i` of the buffer that the PRPs describe. -/
def buffer (c : IoCommand) (i : Nat) : Nat :=
  bufferByte c.cmd.prp1 c.cmd.prp1 (c.cmd.pages c.host.word) i

end IoCommand

/-- Commands one after the other: the storage behind them, and the memory that each leaves. -/
def performAll (capacities : List Nat) (storageSize : Nat) :
    (Nat → UInt8) → List IoCommand → Except IoFault ((Nat → UInt8) × List (Nat → UInt8))
  | storage, [] => .ok (storage, [])
  | storage, c :: cmds => do
    let m ← c.perform (nsMapped capacities storageSize (c.cmd.nsid - 1)) storage
    let (storage, memories) ← performAll capacities storageSize m.storage cmds
    return (storage, m.host :: memories)

section copies

variable (m : Memories) (l : List (Nat × Nat))

/-- Copies into the storage. -/
theorem foldl_copyByte_write : l.foldl (Memories.copyByte true) m =
    { m with storage := copy m.host m.storage l } := by
  induction l generalizing m with
  | nil => rfl
  | cons b l ih =>
    rw [List.foldl_cons, ih]
    rfl

/-- Copies into the memory of the host. -/
theorem foldl_copyByte_read : l.foldl (Memories.copyByte false) m =
    { m with host := copy m.storage m.host (l.map Prod.swap) } := by
  induction l generalizing m with
  | nil => rfl
  | cons b l ih =>
    rw [List.foldl_cons, ih]
    rfl

/-- The copies of a command go in one direction, byte by byte. -/
theorem foldl_perform {toStorage : Bool} {copies : List IoCopy}
    (hdir : ∀ x ∈ copies, x.toStorage = toStorage) : copies.foldl IoCopy.perform m =
      (copies.flatMap IoCopy.bytes).foldl (Memories.copyByte toStorage) m := by
  induction copies generalizing m with
  | nil => rfl
  | cons x copies ih =>
    obtain ⟨hx, hrest⟩ := List.forall_mem_cons.mp hdir
    rw [List.foldl_cons, ih _ hrest, List.flatMap_cons, List.foldl_append, IoCopy.perform, hx]

/-- A copy for a namespace at `base`. -/
theorem bytes_mapped (base : Nat) (x : IoCopy) :
    (x.mapped base).bytes = x.bytes.map fun b => (u64 (base + b.1), b.2) := by
  simp only [IoCopy.bytes, IoCopy.mapped, List.map_map]
  apply List.map_congr_left
  intro i _
  simp only [Function.comp_apply, u64_u64_add, u64_add_u64, Nat.add_assoc]

end copies

/-! ## Volumes -/

/-- What the namespaces hold: the byte at an offset of a namespace. -/
abbrev Volumes := Nat → Nat → UInt8

/-- The storage holds the volumes. -/
def Holds (capacities : List Nat) (storageSize : Nat) (storage : Nat → UInt8) (vol : Volumes) : Prop :=
  ∀ i, ∀ x < nsSize capacities storageSize i,
    storage (nsMapped capacities storageSize i + x) = vol i x

namespace IoCommand

/-- The first byte of the command in its namespace. -/
def start (c : IoCommand) : Nat := c.cmd.slba * lbaSize

/-- Byte `x` of namespace `i` belongs to the command. -/
def Covers (c : IoCommand) (i x : Nat) : Prop :=
  i = c.cmd.nsid - 1 ∧ c.start ≤ x ∧ x < c.start + c.cmd.ioSize

instance (c : IoCommand) (i x : Nat) : Decidable (c.Covers i x) :=
  inferInstanceAs (Decidable (_ ∧ _ ∧ _))

/-- A write replaces the bytes it covers. -/
def write (c : IoCommand) (vol : Volumes) : Volumes := fun i x =>
  if c.cmd.writes = true ∧ c.Covers i x then c.memory (c.buffer (x - c.start)) else vol i x

/-- A read leaves the bytes of the volume in the buffer; all other memory is as it was. -/
structure Delivers (c : IoCommand) (vol : Volumes) (memory : Nat → UInt8) : Prop where
  buffer : c.cmd.writes = false → ∀ i < c.cmd.ioSize,
    memory (c.buffer i) = vol (c.cmd.nsid - 1) (c.start + i)
  rest : ∀ a, (c.cmd.writes = true ∨ ∀ i < c.cmd.ioSize, c.buffer i ≠ a) → memory a = c.memory a

/-- A command that the host may send: inside of its namespace, with PRPs that are translated as they
are meant, and for a read with a buffer whose pages are different. -/
structure Wf (c : IoCommand) (capacities : List Nat) (storageSize : Nat) : Prop where
  rw : c.cmd.IsRw
  nsid_pos : 0 < c.cmd.nsid
  inside : c.start + c.cmd.ioSize ≤ nsSize capacities storageSize (c.cmd.nsid - 1)
  prps : c.cmd.ValidPrps
  memory : c.cmd.ValidMemory c.host.word
  prp1 : c.cmd.prp1 % pageSize = 0 ∨ c.pfnValid (c.cmd.prp1 / pageSize) = true
  list : 2 ≤ c.cmd.restPages →
    (c.cmd.prp2 % pageSize = 0 ∨ c.pfnValid (c.cmd.prp2 / pageSize) = true) ∧
      c.cmd.restPages ≤ (pageSize - c.cmd.prp2 % pageSize) / 8
  apart : c.cmd.writes = false →
    ∀ i < c.cmd.ioSize, ∀ j < c.cmd.ioSize, c.buffer i = c.buffer j → i = j

end IoCommand

/-- What each command of a run delivers, from the volumes that it meets. -/
def Delivered : Volumes → List IoCommand → List (Nat → UInt8) → Prop
  | _, [], [] => True
  | vol, c :: cmds, memory :: memories =>
    c.Delivers vol memory ∧ Delivered (c.write vol) cmds memories
  | _, _, _ => False

/-! ## The code keeps the volumes -/

namespace IoCommand

variable {c : IoCommand} {capacities : List Nat} {storageSize : Nat}

/-- The pages behind the first one are where the code finds them. -/
theorem Wf.fetched_eq (h : c.Wf capacities storageSize) :
    Fetchable c.host c.cmd ∧ c.cmd.fetched c.host = c.cmd.pages c.host.word ∧
      ∀ i, c.buffer i < 2 ^ 64 := by
  have hat : 2 ≤ c.cmd.restPages → c.host.prpListAt c.cmd.prp2 = c.cmd.prp2 :=
    fun hmany => (prpListAt_eq_iff _ _).mpr (h.list hmany).1
  have hentry : 2 ≤ c.cmd.restPages → ∀ j < c.cmd.restPages,
      c.host.word (c.cmd.prp2 + 8 * j) % pageSize = 0 ∧ c.host.word (c.cmd.prp2 + 8 * j) < 2 ^ 64 :=
    fun hmany j hj => (h.memory hmany).entry (h.prps.list hmany) (h.list hmany).2 hj
  have hpages : ∀ p ∈ c.cmd.pages c.host.word, p % pageSize = 0 ∧ p < 2 ^ 64 := by
    intro p hp
    unfold NvmeSqe.pages at hp
    split at hp
    · obtain ⟨hne, rfl⟩ := List.mem_replicate.mp hp
      exact ⟨h.prps.page (by omega), h.prps.prp2_lt⟩
    · rw [prpList_eq (h.prps.list (by omega)) (h.list (by omega)).2] at hp
      obtain ⟨j, hj, rfl⟩ := List.mem_map.mp hp
      exact hentry (by omega) j (List.mem_range.mp hj)
  refine ⟨fun hmany j hj => ?_, ?_, fun i => bufferByte_lt h.prps.prp1_lt hpages⟩
  · rw [hat hmany]
    exact (hentry hmany j hj).1
  · exact fetched_eq_pages h.prps fun hmany => ⟨hat hmany, (h.list hmany).2⟩

/-- The code copies byte `i` of the command between its namespace and byte `i` of the buffer. -/
theorem Wf.perform_eq (h : c.Wf capacities storageSize) (hstorage : storageSize < 2 ^ 64)
    (storage : Nat → UInt8) :
    let base := nsMapped capacities storageSize (c.cmd.nsid - 1)
    c.perform base storage = .ok (((List.range c.cmd.ioSize).map fun i =>
      (base + (c.start + i), c.buffer i)).foldl (Memories.copyByte c.cmd.writes)
        { storage, host := c.memory }) := by
  intro base
  obtain ⟨hfetch, hfetched, hbuffer⟩ := h.fetched_eq
  obtain ⟨copies, hrun, hdir, hbytes⟩ := doPerformIo_bytes h.rw h.prps hfetch
  have hdir' : ∀ x ∈ copies.map (IoCopy.mapped base), x.toStorage = c.cmd.writes := by
    intro x hx
    obtain ⟨y, hy, rfl⟩ := List.mem_map.mp hx
    exact hdir y hy
  have hend := nsMapped_add_nsSize_le capacities storageSize (c.cmd.nsid - 1)
  have hinside := h.inside
  have hcopy : c.host.copyAt c.cmd.prp1 = c.cmd.prp1 := (copyAt_eq_iff _ _).mpr h.prp1
  have hpairs : (copies.map (IoCopy.mapped base)).flatMap IoCopy.bytes =
      (List.range c.cmd.ioSize).map fun i => (base + (c.start + i), c.buffer i) := by
    rw [List.flatMap_map]
    simp only [bytes_mapped]
    rw [← List.map_flatMap, hbytes, List.map_map]
    apply List.map_congr_left
    intro i hi
    have hi := List.mem_range.mp hi
    simp only [Function.comp_apply, u64_add_u64, hfetched, hcopy]
    refine Prod.ext (Nat.mod_eq_of_lt ?_) (Nat.mod_eq_of_lt (hbuffer i))
    change base + (c.start + i) < 2 ^ 64
    omega
  rw [perform, hrun, ok_bind, foldl_perform _ hdir', hpairs]
  rfl

/-- A write. -/
theorem Wf.write_step (h : c.Wf capacities storageSize) (hstorage : storageSize < 2 ^ 64)
    {storage : Nat → UInt8} {vol : Volumes} (hholds : Holds capacities storageSize storage vol)
    (hwrites : c.cmd.writes = true) :
    ∃ m, c.perform (nsMapped capacities storageSize (c.cmd.nsid - 1)) storage = .ok m ∧
      Holds capacities storageSize m.storage (c.write vol) ∧ c.Delivers vol m.host := by
  have hperform := h.perform_eq hstorage storage
  dsimp only at hperform
  rw [hwrites, foldl_copyByte_write] at hperform
  refine ⟨_, hperform, fun i x hx => ?_, fun hreads => ?_, fun a _ => rfl⟩
  · rw [write]
    by_cases hcovers : c.Covers i x
    · rw [if_pos ⟨hwrites, hcovers⟩]
      obtain ⟨rfl, hlow, hhigh⟩ := hcovers
      have hat := @copy_at _ c.cmd.ioSize c.memory storage
        (fun j => nsMapped capacities storageSize (c.cmd.nsid - 1) + (c.start + j)) c.buffer
        (fun i _ j _ heq => by omega) (x - c.start) (by omega)
      rw [Nat.add_sub_cancel' hlow] at hat
      dsimp only
      exact hat
    · rw [if_neg fun hboth => hcovers hboth.2, ← hholds i x hx]
      apply copy_of_ne
      intro j hj heq
      have hinside := h.inside
      obtain ⟨hi, hx⟩ := ns_disjoint capacities storageSize (by omega) hx heq
      exact hcovers ⟨hi.symm, by omega, by omega⟩
  · rw [hwrites] at hreads
    cases hreads

/-- A read. -/
theorem Wf.read_step (h : c.Wf capacities storageSize) (hstorage : storageSize < 2 ^ 64)
    {storage : Nat → UInt8} {vol : Volumes} (hholds : Holds capacities storageSize storage vol)
    (hwrites : c.cmd.writes = false) :
    ∃ m, c.perform (nsMapped capacities storageSize (c.cmd.nsid - 1)) storage = .ok m ∧
      Holds capacities storageSize m.storage (c.write vol) ∧ c.Delivers vol m.host := by
  have hperform := h.perform_eq hstorage storage
  dsimp only at hperform
  rw [hwrites, foldl_copyByte_read, List.map_map] at hperform
  simp only [Function.comp_def, Prod.swap_prod_mk] at hperform
  have hsame : c.write vol = vol := by
    funext i x
    rw [write, if_neg fun hboth => Bool.eq_false_iff.mp hwrites hboth.1]
  refine ⟨_, hperform, ?_, fun _ i hi => ?_, fun a ha => ?_⟩
  · rw [hsame]
    exact hholds
  · have hinside := h.inside
    dsimp only
    rw [← hholds _ _ (by omega)]
    exact @copy_at _ c.cmd.ioSize storage c.memory c.buffer
      (fun j => nsMapped capacities storageSize (c.cmd.nsid - 1) + (c.start + j))
      (h.apart hwrites) i hi
  · apply copy_of_ne
    exact ha.resolve_left (Bool.eq_false_iff.mp hwrites)

end IoCommand

/-- In every run of reads and writes that the host may send, to any namespaces, the storage goes on
holding one volume for each namespace: a write changes the bytes that it covers and no others, and
a read delivers into its buffer the bytes last written, and changes no other memory. -/
theorem volumes_kept (capacities : List Nat) {storageSize : Nat} (hstorage : storageSize < 2 ^ 64)
    {storage : Nat → UInt8} {vol : Volumes} (hholds : Holds capacities storageSize storage vol)
    (cmds : List IoCommand) (hwf : ∀ c ∈ cmds, c.Wf capacities storageSize) :
    ∃ storage' memories,
      performAll capacities storageSize storage cmds = .ok (storage', memories) ∧
      Holds capacities storageSize storage' (cmds.foldl (fun vol c => c.write vol) vol) ∧
      Delivered vol cmds memories := by
  induction cmds generalizing storage vol with
  | nil => exact ⟨storage, [], rfl, hholds, trivial⟩
  | cons c cmds ih =>
    obtain ⟨hc, hrest⟩ := List.forall_mem_cons.mp hwf
    obtain ⟨m, hrun, hholds', hdelivers⟩ : ∃ m,
        c.perform (nsMapped capacities storageSize (c.cmd.nsid - 1)) storage = .ok m ∧
        Holds capacities storageSize m.storage (c.write vol) ∧ c.Delivers vol m.host := by
      cases hwrites : c.cmd.writes with
      | true => exact hc.write_step hstorage hholds hwrites
      | false => exact hc.read_step hstorage hholds hwrites
    obtain ⟨storage', memories, hrun', hend, hdelivered⟩ := ih hholds' hrest
    refine ⟨storage', m.host :: memories, ?_, hend, hdelivers, hdelivered⟩
    rw [performAll, hrun, ok_bind, hrun']
    rfl

/-- A command of one block at the start of the second namespace, with its buffer at `0x1000`. -/
def oneBlock (opcode : Nat) : NvmeSqe where
  opcode := opcode
  commandId := 0
  nsid := 2
  prp1 := 0x1000
  prp2 := 0
  cdw10 := 0
  cdw11 := 0
  cdw12 := 0

/-- A block of the second namespace is written and read back. -/
theorem volumes_kept_block :
    let cmds : List IoCommand :=
      [⟨oneBlock 1, fun _ => true, fun _ => 7⟩, ⟨oneBlock 2, fun _ => true, fun _ => 0⟩]
    ∃ storage' memories, performAll [2 ^ 20, 0] (2 ^ 30) (fun _ => 0) cmds = .ok (storage', memories) ∧
      Holds [2 ^ 20, 0] (2 ^ 30) storage' (cmds.foldl (fun vol c => c.write vol) fun _ _ => 0) ∧
      Delivered (fun _ _ => 0) cmds memories := by
  intro cmds
  have hwf : ∀ opcode memory, (oneBlock opcode).IsRw → (oneBlock opcode).restPages = 0 →
      (oneBlock opcode).ioSize = 512 →
      IoCommand.Wf ⟨oneBlock opcode, fun _ => true, memory⟩ [2 ^ 20, 0] (2 ^ 30) := by
    intro opcode memory hrw hrest hsize
    have hfew : ¬ 2 ≤ (oneBlock opcode).restPages := by
      rw [hrest]
      decide
    refine ⟨hrw, Nat.succ_pos 1, ?_, ⟨?_, ?_, fun hone => ?_, fun hmany => absurd hmany hfew⟩,
      fun hmany => absurd hmany hfew, Or.inl ?_, fun hmany => absurd hmany hfew, ?_⟩
    · change 0 * lbaSize + (oneBlock opcode).ioSize ≤ nsSize [2 ^ 20, 0] (2 ^ 30) 1
      rw [hsize]
      decide
    · change 0x1000 < 2 ^ 64
      decide
    · change 0 < 2 ^ 64
      decide
    · rw [hrest] at hone
      cases hone
    · change 0x1000 % pageSize = 0
      decide
    · intro _ i hi j hj heq
      change i < (oneBlock opcode).ioSize at hi
      change j < (oneBlock opcode).ioSize at hj
      rw [hsize] at hi hj
      simp only [IoCommand.buffer] at heq
      have hhead : ∀ x < 512, ∀ pages, bufferByte (oneBlock opcode).prp1 (oneBlock opcode).prp1 pages x =
          0x1000 + x := fun x hx pages => if_pos (by change x < 4096 - 4096 % 4096; omega)
      rw [hhead i hi, hhead j hj] at heq
      exact Nat.add_left_cancel heq
  refine volumes_kept [2 ^ 20, 0] (by decide) (fun i x _ => rfl) cmds fun c hc => ?_
  rcases List.mem_cons.mp hc with rfl | hc
  · exact hwf 1 _ (Or.inl (by decide)) (by decide) (by decide)
  · obtain rfl := List.mem_singleton.mp hc
    exact hwf 2 _ (Or.inr (by decide)) (by decide) (by decide)

end NvmeVirt
