import NvmeVirt.Kv.State
import Mathlib.Order.CompletePartialOrder
import Mathlib.Order.Interval.Set.Basic
import Mathlib.Data.Set.Lattice
import Mathlib.Tactic.Linarith

/-!
# The allocators of the key-value store

`append_only.c` hands out what lies behind its last region. `bitmap.c` halves the storage into slots
for small and for large values, and finds a free slot with `bitmap_find_next_zero_area`, which is a
parameter. Neither knows when it has run out of space.
-/

namespace NvmeVirt

open Checked

/-- `(size_t)-1`, the result that `allocate_mem_offset` takes for a failure. -/
def allocFailed : Nat := 2 ^ 64 - 1

/-- One call of an allocator: the length asked for, the offset returned, and whether there was room
for it. -/
structure AllocCall where
  length : Nat
  offset : Nat
  room : Prop

/-- The bytes of the region that a call returns. -/
def AllocCall.region (c : AllocCall) : Set Nat := Set.Ico c.offset (c.offset + c.length)

/-- What is expected of the calls of an allocator for `size` bytes. -/
structure SoundCalls (size : Nat) (calls : List AllocCall) : Prop where
  apart : calls.Pairwise fun c d =>
    c.offset ≠ allocFailed → d.offset ≠ allocFailed → Disjoint c.region d.region
  inside : ∀ c ∈ calls, c.offset ≠ allocFailed → c.offset + c.length ≤ size
  refused : ∀ c ∈ calls, ¬ c.room → c.offset = allocFailed

/-- Regions in a row are disjoint. -/
theorem AllocCall.disjoint_of_le {c d : AllocCall} (h : c.offset + c.length ≤ d.offset) :
    Disjoint c.region d.region := by
  apply Set.disjoint_left.mpr
  rintro x ⟨-, hx⟩ ⟨hx', -⟩
  omega

/-! ## `append_only.c` -/

/-- `dev_size` and `latest`. -/
structure AppendOnly where
  devSize : Nat
  latest : Nat

/-- `append_only_allocator_init`. -/
def appendOnlyAllocatorInit (size : Nat) : AppendOnly := { devSize := size, latest := 0 }

/-- `append_only_allocate`. -/
def appendOnlyAllocate (a : AppendOnly) (length : Nat) : Nat × AppendOnly :=
  (a.latest, { a with latest := u64 (a.latest + length) })

/-- The store allocates so. -/
theorem KvFtl.allocateMemOffset_eq (kv : KvFtl) (length : Nat) :
    let r := appendOnlyAllocate ⟨kv.storageSize, kv.latest⟩ length
    kv.allocateMemOffset length = (r.1, { kv with latest := r.2.latest }) := rfl

/-- A run of calls. There is room as long as the bytes behind `latest` last. -/
def AppendOnly.run (a : AppendOnly) : List Nat → List AllocCall
  | [] => []
  | length :: lengths =>
    let r := appendOnlyAllocate a length
    ⟨length, r.1, a.latest + length ≤ a.devSize⟩ :: r.2.run lengths

namespace AppendOnly

variable {a : AppendOnly} {lengths : List Nat}

/-- While the lengths fit, the regions follow one another and there is always room. -/
theorem run_of_fits (hsize : a.devSize < 2 ^ 64) (hfits : a.latest + lengths.sum ≤ a.devSize) :
    (∀ c ∈ a.run lengths, a.latest ≤ c.offset ∧ c.offset + c.length ≤ a.devSize ∧ c.room) ∧
      (a.run lengths).Pairwise fun c d => c.offset + c.length ≤ d.offset := by
  induction lengths generalizing a with
  | nil => simp [run]
  | cons length lengths ih =>
    rw [List.sum_cons] at hfits
    have hlatest : u64 (a.latest + length) = a.latest + length := Nat.mod_eq_of_lt (by omega)
    obtain ⟨hall, hpair⟩ := @ih (appendOnlyAllocate a length).2 hsize
      (by simp only [appendOnlyAllocate, hlatest]; omega)
    have hrest : ∀ c ∈ ((appendOnlyAllocate a length).2).run lengths,
        a.latest + length ≤ c.offset := by
      intro c hc
      have := (hall c hc).1
      simpa [appendOnlyAllocate, hlatest] using this
    constructor
    · intro c hc
      rcases List.mem_cons.mp hc with rfl | hc
      · dsimp only [appendOnlyAllocate]
        omega
      · have hle := hrest c hc
        obtain ⟨-, hend, hroom⟩ := hall c hc
        exact ⟨by omega, hend, hroom⟩
    · exact List.pairwise_cons.mpr ⟨hrest, hpair⟩

/-- Calls that are refused when there is no room ask for no more than there is. -/
theorem fits_of_refused (hsize : a.devSize + 1 < 2 ^ 64) (hle : a.latest ≤ a.devSize)
    (h : ∀ c ∈ a.run lengths, ¬ c.room → c.offset = allocFailed) :
    a.latest + lengths.sum ≤ a.devSize := by
  induction lengths generalizing a with
  | nil => simpa using hle
  | cons length lengths ih =>
    obtain ⟨hfirst, hrest⟩ := List.forall_mem_cons.mp h
    by_cases hroom : a.latest + length ≤ a.devSize
    · have hlatest : u64 (a.latest + length) = a.latest + length := Nat.mod_eq_of_lt (by omega)
      have hsum := @ih (appendOnlyAllocate a length).2 hsize
        (by simpa only [appendOnlyAllocate, hlatest] using hroom) hrest
      simp only [appendOnlyAllocate, hlatest] at hsum
      rw [List.sum_cons]
      omega
    · have hfailed : a.latest = allocFailed := hfirst hroom
      unfold allocFailed at hfailed
      omega

theorem sound_iff (size : Nat) (hsize : size + 1 < 2 ^ 64) :
    SoundCalls size ((appendOnlyAllocatorInit size).run lengths) ↔ lengths.sum ≤ size := by
  constructor
  · intro h
    have := fits_of_refused (a := appendOnlyAllocatorInit size) hsize (Nat.zero_le _) h.refused
    rwa [appendOnlyAllocatorInit, Nat.zero_add] at this
  · intro hfits
    obtain ⟨hall, hpair⟩ := @run_of_fits (appendOnlyAllocatorInit size) lengths
      (by simp only [appendOnlyAllocatorInit]; omega)
      (by simpa [appendOnlyAllocatorInit] using hfits)
    refine ⟨hpair.imp fun hcd _ _ => AllocCall.disjoint_of_le hcd, fun c hc _ => (hall c hc).2.1,
      fun c hc hroom => absurd (hall c hc).2.2 hroom⟩

end AppendOnly

/-! ## `bitmap.c` -/

/-- `LARGE_LENGTH`. -/
def largeLength : Nat := 4096

/-- The bits of `small_bitmap` and of `large_bitmap`. -/
def smallBitmapBits : Nat := 600000 * 64

@[inherit_doc smallBitmapBits] def largeBitmapBits : Nat := 300000 * 64

/-- A bit beyond a static array is set or cleared. -/
inductive BitmapFault
  | arrayBounds
  deriving DecidableEq, Repr

/-- The arguments of `bitmap_find_next_zero_area`: a bitmap, its size, the first bit, the number of
bits, and a mask for their alignment. -/
abbrev FindArea := (Nat → Bool) → Nat → Nat → Nat → Nat → Nat

/-- What the kernel's function is for one bit without alignment: the least zero bit from the first
bit on, and more than the size of the bitmap when there is none. -/
structure FindsZeroBit (find : FindArea) : Prop where
  found : ∀ {map size start i}, start ≤ i → i < size → map i = false →
    start ≤ find map size start 1 0 ∧ find map size start 1 0 ≤ i ∧
      map (find map size start 1 0) = false
  none : ∀ {map size start}, (∀ i, start ≤ i → i < size → map i = true) →
    size < find map size start 1 0

/-- `nbits`, the bitmap and `last_pos` of one half. -/
structure BitmapHalf where
  nbits : Nat
  bitmap : Nat → Bool
  lastPos : Nat

/-- `dev_size` and the two halves. -/
structure BitmapAllocator where
  devSize : Nat
  small : BitmapHalf
  large : BitmapHalf

/-- One half of `bitmap_allocator_init`: `bitmap_zero` clears whole words of the static array. -/
def BitmapHalf.init (arrayBits nbits : Nat) : Except BitmapFault BitmapHalf := do
  require (divRoundUp nbits 64 * 64 ≤ arrayBits) .arrayBounds
  return { nbits, bitmap := fun _ => false, lastPos := 0 }

/-- `bitmap_allocator_init`. -/
def bitmapAllocatorInit (size : Nat) : Except BitmapFault BitmapAllocator := do
  let small ← BitmapHalf.init smallBitmapBits (size / 2 / smallLength)
  let large ← BitmapHalf.init largeBitmapBits (size / 2 / largeLength)
  return { devSize := size, small, large }

/-- `bitmap_set` of one bit, and the new `last_pos`. -/
def BitmapHalf.set (h : BitmapHalf) (off : Nat) : BitmapHalf :=
  { h with
    bitmap := Function.update h.bitmap off true
    lastPos := if off + 1 > h.nbits then 0 else off + 1 }

/-- A bit of one half is found, set and remembered. -/
def BitmapHalf.take (find : FindArea) (arrayBits : Nat) (h : BitmapHalf) :
    Except BitmapFault (Nat × BitmapHalf) := do
  let off := find h.bitmap h.nbits h.lastPos 1 0
  require (off < arrayBits) .arrayBounds
  return (off, h.set off)

/-- `bitmap_allocate`. -/
def bitmapAllocate (find : FindArea) (a : BitmapAllocator) (length : Nat) :
    Except BitmapFault (Nat × BitmapAllocator) := do
  if length > smallLength then
    let (off, large) ← a.large.take find largeBitmapBits
    return (u64 (a.devSize / 2 + off * largeLength), { a with large })
  else
    let (off, small) ← a.small.take find smallBitmapBits
    return (u64 (off * smallLength), { a with small })

/-- A slot of the half is free. -/
def BitmapHalf.HasRoom (h : BitmapHalf) : Prop := ∃ i < h.nbits, h.bitmap i = false

/-- The half for the length has a free slot. -/
def BitmapAllocator.HasRoom (a : BitmapAllocator) (length : Nat) : Prop :=
  if length > smallLength then a.large.HasRoom else a.small.HasRoom

/-- A run of calls. -/
def BitmapAllocator.run (find : FindArea) (a : BitmapAllocator) :
    List Nat → Except BitmapFault (List AllocCall)
  | [] => .ok []
  | length :: lengths => do
    let (offset, a') ← bitmapAllocate find a length
    let calls ← a'.run find lengths
    return ⟨length, offset, a.HasRoom length⟩ :: calls

/-- A run of calls from `bitmap_allocator_init` on. -/
def bitmapRun (find : FindArea) (size : Nat) (lengths : List Nat) :
    Except BitmapFault (List AllocCall) := do
  let a ← bitmapAllocatorInit size
  a.run find lengths

variable {find : FindArea} {lengths : List Nat} {calls : List AllocCall}

namespace BitmapHalf

variable {h h' : BitmapHalf} {k off arrayBits : Nat}

/-- The first `k` slots have been handed out, in order. -/
structure Packed (h : BitmapHalf) (k : Nat) : Prop where
  le : k ≤ h.nbits
  lastPos : h.lastPos = k
  bits : ∀ i < h.nbits, h.bitmap i = decide (i < k)

theorem init_eq_ok {nbits : Nat} : init arrayBits nbits = .ok h ↔
    divRoundUp nbits 64 * 64 ≤ arrayBits ∧ h = ⟨nbits, fun _ => false, 0⟩ := by
  simp only [init, bind_eq_ok, require_eq_ok, exists_const]
  exact and_congr_right fun _ => ⟨fun h => (Except.ok.inj h).symm, fun h => congrArg _ h.symm⟩

theorem take_eq_ok : h.take find arrayBits = .ok (off, h') ↔
    off < arrayBits ∧ off = find h.bitmap h.nbits h.lastPos 1 0 ∧ h' = h.set off := by
  simp only [take, bind_eq_ok, require_eq_ok, exists_const]
  constructor
  · rintro ⟨hlt, hr⟩
    obtain ⟨rfl, rfl⟩ := Prod.mk.inj (Except.ok.inj hr)
    exact ⟨hlt, rfl, rfl⟩
  · rintro ⟨hlt, rfl, rfl⟩
    exact ⟨hlt, rfl⟩

theorem packed_init {nbits : Nat} : Packed ⟨nbits, fun _ => false, 0⟩ 0 :=
  ⟨Nat.zero_le _, rfl, fun i _ => by simp⟩

theorem Packed.hasRoom_iff (hp : h.Packed k) : h.HasRoom ↔ k < h.nbits := by
  constructor
  · rintro ⟨i, hi, hfree⟩
    rw [hp.bits i hi, decide_eq_false_iff_not] at hfree
    omega
  · intro hk
    refine ⟨k, hk, ?_⟩
    simp [hp.bits k hk]

theorem Packed.set (hp : h.Packed k) (hk : k < h.nbits) : (h.set k).Packed (k + 1) := by
  refine ⟨hk, if_neg (by omega), fun i hi => ?_⟩
  by_cases hik : i = k
  · subst hik
    simp [BitmapHalf.set]
  · have hbit : (h.set k).bitmap i = h.bitmap i := Function.update_of_ne hik ..
    rw [hbit, hp.bits i hi]
    simp only [decide_eq_decide]
    omega

/-- While there is room the next slot is handed out. -/
theorem Packed.take (hfind : FindsZeroBit find) (hp : h.Packed k) (hk : k < h.nbits)
    (harr : h.nbits ≤ arrayBits) : h.take find arrayBits = .ok (k, h.set k) := by
  have hfree : h.bitmap k = false := by simp [hp.bits k hk]
  obtain ⟨hstart, hle, -⟩ := hfind.found hp.lastPos.le hk hfree
  have hoff : k = find h.bitmap h.nbits h.lastPos 1 0 :=
    Nat.le_antisymm (hp.lastPos.symm.le.trans hstart) hle
  exact take_eq_ok.mpr ⟨hk.trans_le harr, hoff, rfl⟩

end BitmapHalf

namespace BitmapAllocator

variable {a a' : BitmapAllocator} {k j length offset : Nat}

/-- `k` small and `j` large slots have been handed out, and the halves fit the device and the
arrays. -/
structure Packed (a : BitmapAllocator) (k j : Nat) : Prop where
  small : a.small.Packed k
  large : a.large.Packed j
  smallFits : a.small.nbits * smallLength ≤ a.devSize / 2
  largeFits : a.large.nbits * largeLength ≤ a.devSize / 2
  smallBits : a.small.nbits ≤ smallBitmapBits
  largeBits : a.large.nbits ≤ largeBitmapBits
  devSize_lt : a.devSize < 2 ^ 64

/-- A small value gets the next slot of the lower half. -/
theorem Packed.allocate_small (hfind : FindsZeroBit find) (hp : a.Packed k j)
    (hlen : length ≤ smallLength) (hk : k < a.small.nbits) :
    bitmapAllocate find a length = .ok (k * smallLength, { a with small := a.small.set k }) ∧
      ({ a with small := a.small.set k } : BitmapAllocator).Packed (k + 1) j := by
  have hfits := hp.smallFits
  have hdev := hp.devSize_lt
  constructor
  · have hslot : k * smallLength < 2 ^ 64 := by
      unfold smallLength at hfits ⊢
      omega
    rw [bitmapAllocate, if_neg (Nat.not_lt.mpr hlen), hp.small.take hfind hk hp.smallBits, ok_bind]
    change Except.ok (u64 _, _) = _
    rw [u64, Nat.mod_eq_of_lt hslot]
  · exact ⟨hp.small.set hk, hp.large, hfits, hp.largeFits, hp.smallBits, hp.largeBits, hdev⟩

/-- A large value gets the next slot of the upper half. -/
theorem Packed.allocate_large (hfind : FindsZeroBit find) (hp : a.Packed k j)
    (hlen : smallLength < length) (hj : j < a.large.nbits) :
    bitmapAllocate find a length =
        .ok (a.devSize / 2 + j * largeLength, { a with large := a.large.set j }) ∧
      ({ a with large := a.large.set j } : BitmapAllocator).Packed k (j + 1) := by
  have hfits := hp.largeFits
  have hdev := hp.devSize_lt
  constructor
  · have hslot : a.devSize / 2 + j * largeLength < 2 ^ 64 := by
      unfold largeLength at hfits ⊢
      omega
    rw [bitmapAllocate, if_pos hlen, hp.large.take hfind hj hp.largeBits, ok_bind]
    change Except.ok (u64 _, _) = _
    rw [u64, Nat.mod_eq_of_lt hslot]
  · exact ⟨hp.small, hp.large.set hj, hp.smallFits, hfits, hp.smallBits, hp.largeBits, hdev⟩

/-- Where the regions of the calls lie that follow: behind the slots that have been handed out. -/
def Behind (a : BitmapAllocator) (k j : Nat) (c : AllocCall) : Prop :=
  (k * smallLength ≤ c.offset ∧ c.offset + c.length ≤ a.devSize / 2) ∨
    (a.devSize / 2 + j * largeLength ≤ c.offset ∧ c.offset + c.length ≤ a.devSize)

theorem Behind.small_mono {c : AllocCall} (h : a.Behind (k + 1) j c) : a.Behind k j c := by
  rcases h with ⟨hle, hend⟩ | h
  · left
    rw [Nat.add_mul] at hle
    omega
  · exact Or.inr h

theorem Behind.large_mono {c : AllocCall} (h : a.Behind k (j + 1) c) : a.Behind k j c := by
  rcases h with h | ⟨hle, hend⟩
  · exact Or.inl h
  · right
    rw [Nat.add_mul] at hle
    omega

/-- The slot of a small value lies before the regions that follow. -/
theorem Behind.disjoint_small {c : AllocCall} {room : Prop} (h : a.Behind (k + 1) j c)
    (hslot : (k + 1) * smallLength ≤ a.devSize / 2) (hlen : length ≤ smallLength) :
    Disjoint (AllocCall.region ⟨length, k * smallLength, room⟩) c.region := by
  apply AllocCall.disjoint_of_le
  have hend : k * smallLength + length ≤ (k + 1) * smallLength := by
    rw [Nat.add_mul]
    omega
  rcases h with ⟨hle, -⟩ | ⟨hle, -⟩
  · exact hend.trans hle
  · exact (hend.trans hslot).trans ((Nat.le_add_right ..).trans hle)

/-- The slot of a large value lies behind the lower half, and before the regions that follow in the
upper half. -/
theorem Behind.disjoint_large {c : AllocCall} {room : Prop} (h : a.Behind k (j + 1) c)
    (hlen : length ≤ largeLength) :
    Disjoint (AllocCall.region ⟨length, a.devSize / 2 + j * largeLength, room⟩) c.region := by
  rcases h with ⟨-, hend⟩ | ⟨hle, -⟩
  · exact (AllocCall.disjoint_of_le (hend.trans (Nat.le_add_right ..))).symm
  · apply AllocCall.disjoint_of_le
    rw [Nat.add_mul] at hle
    dsimp only
    omega

theorem run_cons_eq_ok : a.run find (length :: lengths) = .ok calls ↔
    ∃ offset a' rest, bitmapAllocate find a length = .ok (offset, a') ∧
      a'.run find lengths = .ok rest ∧ calls = ⟨length, offset, a.HasRoom length⟩ :: rest := by
  simp only [BitmapAllocator.run, bind_eq_ok, Prod.exists]
  constructor
  · rintro ⟨offset, a', halloc, rest, hrun, hret⟩
    exact ⟨offset, a', rest, halloc, hrun, (Except.ok.inj hret).symm⟩
  · rintro ⟨offset, a', rest, halloc, hrun, rfl⟩
    exact ⟨offset, a', halloc, rest, hrun, rfl⟩

theorem Packed.hasRoom_small (hp : a.Packed k j) (hlen : length ≤ smallLength) :
    a.HasRoom length ↔ k < a.small.nbits := by
  rw [HasRoom, if_neg (Nat.not_lt.mpr hlen), hp.small.hasRoom_iff]

theorem Packed.hasRoom_large (hp : a.Packed k j) (hlen : smallLength < length) :
    a.HasRoom length ↔ j < a.large.nbits := by
  rw [HasRoom, if_pos hlen, hp.large.hasRoom_iff]

/-- While the slots last, every call gets a slot of its own. -/
theorem Packed.run (hfind : FindsZeroBit find) (hp : a.Packed k j)
    (hlen : ∀ l ∈ lengths, l ≤ largeLength)
    (hsmall : k + lengths.countP (· ≤ smallLength) ≤ a.small.nbits)
    (hlarge : j + lengths.countP (smallLength < ·) ≤ a.large.nbits) :
    ∃ calls, a.run find lengths = .ok calls ∧ (∀ c ∈ calls, c.room ∧ a.Behind k j c) ∧
      calls.Pairwise fun c d => Disjoint c.region d.region := by
  induction lengths generalizing a k j with
  | nil => exact ⟨[], rfl, by simp, by simp⟩
  | cons length lengths ih =>
    obtain ⟨hlen, hlens⟩ := List.forall_mem_cons.mp hlen
    rw [List.countP_cons] at hsmall hlarge
    by_cases hl : length ≤ smallLength
    · rw [if_pos (decide_eq_true hl)] at hsmall
      rw [if_neg (by simpa using hl), Nat.add_zero] at hlarge
      have hk : k < a.small.nbits := by omega
      obtain ⟨halloc, hp'⟩ := hp.allocate_small hfind hl hk
      have hsmall' : k + 1 + lengths.countP (· ≤ smallLength) ≤ a.small.nbits := by omega
      obtain ⟨calls, hrun, hall, hpair⟩ := ih hp' hlens hsmall' hlarge
      have hslot : (k + 1) * smallLength ≤ a.devSize / 2 :=
        (Nat.mul_le_mul_right _ hk).trans hp.smallFits
      refine ⟨_, run_cons_eq_ok.mpr ⟨_, _, calls, halloc, hrun, rfl⟩, ?_,
        List.pairwise_cons.mpr ⟨fun c hc => ?_, hpair⟩⟩
      · intro c hc
        rcases List.mem_cons.mp hc with rfl | hc
        · refine ⟨(hp.hasRoom_small hl).mpr hk, Or.inl ⟨le_rfl, ?_⟩⟩
          rw [Nat.add_mul] at hslot
          dsimp only
          omega
        · exact ⟨(hall c hc).1, (hall c hc).2.small_mono⟩
      · exact (hall c hc).2.disjoint_small hslot hl
    · rw [if_neg (by simpa using hl), Nat.add_zero] at hsmall
      rw [if_pos (by simpa using hl)] at hlarge
      have hl := Nat.lt_of_not_le hl
      have hj : j < a.large.nbits := by omega
      obtain ⟨halloc, hp'⟩ := hp.allocate_large hfind hl hj
      have hlarge' : j + 1 + lengths.countP (smallLength < ·) ≤ a.large.nbits := by omega
      obtain ⟨calls, hrun, hall, hpair⟩ := ih hp' hlens hsmall hlarge'
      have hslot : (j + 1) * largeLength ≤ a.devSize / 2 :=
        (Nat.mul_le_mul_right _ hj).trans hp.largeFits
      rw [Nat.add_mul] at hslot
      refine ⟨_, run_cons_eq_ok.mpr ⟨_, _, calls, halloc, hrun, rfl⟩, ?_,
        List.pairwise_cons.mpr ⟨fun c hc => ?_, hpair⟩⟩
      · intro c hc
        rcases List.mem_cons.mp hc with rfl | hc
        · refine ⟨(hp.hasRoom_large hl).mpr hj, Or.inr ⟨le_rfl, ?_⟩⟩
          dsimp only
          omega
        · exact ⟨(hall c hc).1, (hall c hc).2.large_mono⟩
      · exact (hall c hc).2.disjoint_large hlen

/-- `bitmap_allocate` never reports a failure. -/
theorem bitmapAllocate_ne_failed (hdev : a.devSize < 2 ^ 64)
    (halloc : bitmapAllocate find a length = .ok (offset, a')) : offset ≠ allocFailed := by
  unfold bitmapAllocate at halloc
  unfold allocFailed
  split at halloc
  · obtain ⟨⟨off, large⟩, htake, hret⟩ := bind_eq_ok.mp halloc
    have hoff : off < 300000 * 64 := (BitmapHalf.take_eq_ok.mp htake).1
    obtain ⟨rfl, -⟩ := Prod.mk.inj (Except.ok.inj hret)
    unfold u64 largeLength
    omega
  · obtain ⟨⟨off, small⟩, -, hret⟩ := bind_eq_ok.mp halloc
    obtain ⟨rfl, -⟩ := Prod.mk.inj (Except.ok.inj hret)
    unfold u64 smallLength
    omega

/-- Calls that are refused without room leave each half with a slot for each of them. -/
theorem Packed.fits_of_refused (hfind : FindsZeroBit find) (hp : a.Packed k j)
    (hrun : a.run find lengths = .ok calls)
    (h : ∀ c ∈ calls, ¬ c.room → c.offset = allocFailed) :
    k + lengths.countP (· ≤ smallLength) ≤ a.small.nbits ∧
      j + lengths.countP (smallLength < ·) ≤ a.large.nbits := by
  induction lengths generalizing a k j calls with
  | nil => exact ⟨by simpa using hp.small.le, by simpa using hp.large.le⟩
  | cons length lengths ih =>
    obtain ⟨offset, a', rest, halloc, hrest, rfl⟩ := run_cons_eq_ok.mp hrun
    obtain ⟨hfirst, hrests⟩ := List.forall_mem_cons.mp h
    rw [List.countP_cons, List.countP_cons]
    by_cases hl : length ≤ smallLength
    · rw [if_pos (decide_eq_true hl), if_neg (by simpa using hl)]
      rw [hp.hasRoom_small hl] at hfirst
      by_cases hk : k < a.small.nbits
      · obtain ⟨halloc', hp'⟩ := hp.allocate_small hfind hl hk
        obtain ⟨-, rfl⟩ := Prod.mk.inj (Except.ok.inj (halloc.symm.trans halloc'))
        obtain ⟨hsmall, hlarge⟩ := ih hp' hrest hrests
        change k + 1 + _ ≤ a.small.nbits at hsmall
        exact ⟨by omega, hlarge⟩
      · exact absurd (hfirst hk) (bitmapAllocate_ne_failed hp.devSize_lt halloc)
    · rw [if_neg (by simpa using hl), if_pos (by simpa using hl)]
      have hl := Nat.lt_of_not_le hl
      rw [hp.hasRoom_large hl] at hfirst
      by_cases hj : j < a.large.nbits
      · obtain ⟨halloc', hp'⟩ := hp.allocate_large hfind hl hj
        obtain ⟨-, rfl⟩ := Prod.mk.inj (Except.ok.inj (halloc.symm.trans halloc'))
        obtain ⟨hsmall, hlarge⟩ := ih hp' hrest hrests
        change j + 1 + _ ≤ a.large.nbits at hlarge
        exact ⟨hsmall, by omega⟩
      · exact absurd (hfirst hj) (bitmapAllocate_ne_failed hp.devSize_lt halloc)

end BitmapAllocator

/-! ## Both allocators -/

theorem bitmapAllocatorInit_eq_ok {size : Nat} {a : BitmapAllocator} :
    bitmapAllocatorInit size = .ok a ↔
      (size / 2 / smallLength ≤ smallBitmapBits ∧ size / 2 / largeLength ≤ largeBitmapBits) ∧
        a = ⟨size, ⟨size / 2 / smallLength, fun _ => false, 0⟩,
          ⟨size / 2 / largeLength, fun _ => false, 0⟩⟩ := by
  have hwords : ∀ n bits : Nat, divRoundUp n 64 * 64 ≤ bits * 64 ↔ n ≤ bits * 64 := by
    intro n bits
    unfold divRoundUp
    omega
  simp only [bitmapAllocatorInit, bind_eq_ok, BitmapHalf.init_eq_ok, smallBitmapBits,
    largeBitmapBits, hwords]
  constructor
  · rintro ⟨small, ⟨hsmall, rfl⟩, large, ⟨hlarge, rfl⟩, hret⟩
    exact ⟨⟨hsmall, hlarge⟩, (Except.ok.inj hret).symm⟩
  · rintro ⟨⟨hsmall, hlarge⟩, rfl⟩
    exact ⟨_, ⟨hsmall, rfl⟩, _, ⟨hlarge, rfl⟩, rfl⟩

/-- The halves that a device of `size` bytes starts with. -/
theorem packed_of_init {size : Nat} {a : BitmapAllocator} (hsize : size < 2 ^ 64)
    (h : bitmapAllocatorInit size = .ok a) : a.Packed 0 0 := by
  obtain ⟨⟨hsmall, hlarge⟩, rfl⟩ := bitmapAllocatorInit_eq_ok.mp h
  exact ⟨BitmapHalf.packed_init, BitmapHalf.packed_init, Nat.div_mul_le_self ..,
    Nat.div_mul_le_self .., hsmall, hlarge, hsize⟩

/-- The append-only allocator does what is expected of it exactly when the lengths fit the device,
and the bitmap allocator exactly when its bitmaps fit their arrays and neither half is asked for
more slots than it has: neither ever reports that it has run out of space. -/
theorem allocators_sound_iff (find : FindArea) (hfind : FindsZeroBit find) (size : Nat)
    (hsize : size + 1 < 2 ^ 64) (lengths : List Nat) :
    (SoundCalls size ((appendOnlyAllocatorInit size).run lengths) ↔ lengths.sum ≤ size) ∧
    ((∀ l ∈ lengths, l ≤ largeLength) →
      ((∃ calls, bitmapRun find size lengths = .ok calls ∧ SoundCalls size calls) ↔
        (size / 2 / smallLength ≤ smallBitmapBits ∧ size / 2 / largeLength ≤ largeBitmapBits) ∧
          lengths.countP (· ≤ smallLength) ≤ size / 2 / smallLength ∧
          lengths.countP (smallLength < ·) ≤ size / 2 / largeLength)) := by
  refine ⟨AppendOnly.sound_iff size hsize, fun hlen => ⟨?_, ?_⟩⟩
  · rintro ⟨calls, hrun, hsound⟩
    obtain ⟨a, hinit, hrun⟩ := bind_eq_ok.mp hrun
    have hfits := (packed_of_init (by omega) hinit).fits_of_refused hfind hrun hsound.refused
    obtain ⟨harrays, rfl⟩ := bitmapAllocatorInit_eq_ok.mp hinit
    simp only [Nat.zero_add] at hfits
    exact ⟨harrays, hfits⟩
  · rintro ⟨harrays, hsmall, hlarge⟩
    have hinit := bitmapAllocatorInit_eq_ok.mpr ⟨harrays, rfl⟩
    obtain ⟨calls, hrun, hall, hpair⟩ := (packed_of_init (by omega) hinit).run hfind hlen
      (by simpa using hsmall) (by simpa using hlarge)
    refine ⟨calls, bind_eq_ok.mpr ⟨_, hinit, hrun⟩, hpair.imp fun h _ _ => h, fun c hc _ => ?_,
      fun c hc hroom => absurd (hall c hc).1 hroom⟩
    rcases (hall c hc).2 with ⟨-, hend⟩ | ⟨-, hend⟩
    · exact hend.trans (Nat.div_le_self ..)
    · exact hend

/-- The kernel's function for one bit: the end of the bitmap and one more when it finds none. -/
def findZeroBit : FindArea := fun map size start nr _ =>
  ((List.range' start (size - start)).find? fun i => !map i).getD (size + nr)

theorem findZeroBit_spec : FindsZeroBit findZeroBit := by
  constructor
  · intro map size start i hstart hi hfree
    cases hfind : (List.range' start (size - start)).find? fun i => !map i with
    | none =>
      have hall := List.find?_eq_none.mp hfind i (List.mem_range'_1.mpr ⟨hstart, by omega⟩)
      simp [hfree] at hall
    | some x =>
      obtain ⟨hx, hmem, hleast⟩ := List.find?_range'_eq_some.mp hfind
      have hle : x ≤ i := by
        by_contra hlt
        have := hleast i hstart (by omega)
        simp [hfree] at this
      simp only [findZeroBit, hfind, Option.getD_some]
      exact ⟨(List.mem_range'_1.mp hmem).1, hle, by simpa using hx⟩
  · intro map size start htaken
    have hnone : (List.range' start (size - start)).find? (fun i => !map i) = none := by
      apply List.find?_eq_none.mpr
      intro i hi
      have hi := List.mem_range'_1.mp hi
      simp [htaken i hi.1 (by omega)]
    simp [findZeroBit, hnone]

/-- A device of four small slots and a large one. -/
theorem allocators_sound_small_device :
    (SoundCalls 8192 ((appendOnlyAllocatorInit 8192).run [100, 4096, 1024]) ↔
      [100, 4096, 1024].sum ≤ 8192) ∧
    ((∃ calls, bitmapRun findZeroBit 8192 [100, 4096, 1024] = .ok calls ∧
        SoundCalls 8192 calls) ↔
      (8192 / 2 / smallLength ≤ smallBitmapBits ∧ 8192 / 2 / largeLength ≤ largeBitmapBits) ∧
        [100, 4096, 1024].countP (· ≤ smallLength) ≤ 8192 / 2 / smallLength ∧
        [100, 4096, 1024].countP (smallLength < ·) ≤ 8192 / 2 / largeLength) :=
  have h := allocators_sound_iff findZeroBit findZeroBit_spec 8192 (by simp) [100, 4096, 1024]
  ⟨h.1, h.2 (by decide)⟩

/-- The append-only allocator hands out bytes behind the device. The fifth small value of the bitmap
allocator gets a slot in the upper half, which the large value gets again. -/
theorem allocators_exhausted :
    ((appendOnlyAllocatorInit 8192).run [4096, 4096, 4]).map AllocCall.offset = [0, 4096, 8192] ∧
    ¬ SoundCalls 8192 ((appendOnlyAllocatorInit 8192).run [4096, 4096, 4]) ∧
    (bitmapRun findZeroBit 8192 [1024, 1024, 1024, 1024, 1024, 4096]).map
      (List.map AllocCall.offset) = .ok [0, 1024, 2048, 3072, 5120, 4096] ∧
    ¬ ∃ calls, bitmapRun findZeroBit 8192 [1024, 1024, 1024, 1024, 1024, 4096] = .ok calls ∧
      SoundCalls 8192 calls := by
  refine ⟨rfl, ?_, by decide, ?_⟩
  · rw [AppendOnly.sound_iff 8192 (by simp)]
    decide
  · rintro ⟨calls, hrun, hsound⟩
    obtain ⟨a, hinit, hrun⟩ := bind_eq_ok.mp hrun
    have hfits := (packed_of_init (by simp) hinit).fits_of_refused findZeroBit_spec hrun
      hsound.refused
    obtain ⟨-, rfl⟩ := bitmapAllocatorInit_eq_ok.mp hinit
    revert hfits
    decide

end NvmeVirt
