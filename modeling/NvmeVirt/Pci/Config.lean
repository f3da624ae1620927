import NvmeVirt.Library.Registers
import Mathlib.Algebra.GroupWithZero.Nat

/-!
# Configuration space

`nvmev_pci_read` and `nvmev_pci_write` serve the accesses of the kernel to the configuration space of
the device. A write changes the bits of a mask that depends on the offset, and two of the bits are
copied elsewhere. Only the writable bits of a register ever change, and the copies stay true.
-/

namespace NvmeVirt

open Registers

/-- What `pci.c` keeps: the bytes of `virtDev`, `intx_disabled`, and `msix_enabled` of the `pdev` that
the kernel has found. -/
structure VirtDev where
  virtDev : Nat → BitVec 8
  intxDisabled : Bool
  pdev : Option Bool

/-- One access of the kernel, which refuses a misaligned one. A value has the width of its access. -/
structure ConfigAccess where
  offs : Nat
  size : Nat
  size_cases : size = 1 ∨ size = 2 ∨ size = 4
  aligned : size ∣ offs

/-! ## The header and the capabilities -/

/-- `PCI_HEADER_SETTINGS`. -/
def pciHeaderSettings (basePa : BitVec 64) (hdr : Nat → BitVec 8) : Nat → BitVec 8 :=
  let hdr := store hdr 0x02 2 (0x0110#16)
  let hdr := store hdr 0x00 2 (0x0c51#16)
  -- `cmd.mse` and `sts.cl`
  let hdr := store hdr 0x04 2 (0x0002#16)
  let hdr := store hdr 0x06 2 (0x0010#16)
  let hdr := store hdr 0x0e 1 (0x00#8)
  let hdr := store hdr 0x08 1 (0x01#8)
  let hdr := store hdr 0x0b 1 (0x01#8)
  let hdr := store hdr 0x0a 1 (0x08#8)
  let hdr := store hdr 0x09 1 (0x02#8)
  -- `mlbar.tp` is a 64-bit region; `mlbar.ba` holds the bits from 14 on.
  let hdr := store hdr 0x10 4 (basePa.setWidth 32 &&& 0xFFFFC000#32 ||| 0x4#32)
  let hdr := store hdr 0x14 4 ((basePa >>> 32).setWidth 32)
  let hdr := store hdr 0x2e 2 (0x370d#16)
  let hdr := store hdr 0x2c 2 (0x0c51#16)
  let hdr := store hdr 0x30 4 (0x0#32)
  let hdr := store hdr 0x34 1 (0x40#8)
  let hdr := store hdr 0x3d 1 (0x00#8)
  store hdr 0x3c 1 (15#8)

/-- `PCI_PMCAP_SETTINGS`. -/
def pciPmcapSettings (mem : Nat → BitVec 8) : Nat → BitVec 8 :=
  let mem := store mem 0x40 1 (0x01#8)
  let mem := store mem 0x41 1 (0x50#8)
  let mem := store mem 0x42 2 (0x0003#16)
  store mem 0x44 2 (0x0008#16)

/-- `PCI_MSIXCAP_SETTINGS`. -/
def pciMsixcapSettings (mem : Nat → BitVec 8) : Nat → BitVec 8 :=
  let mem := store mem 0x50 1 (0x11#8)
  let mem := store mem 0x51 1 (0x60#8)
  -- `mxc.mxe` and `mxc.ts`
  let mem := store mem 0x52 2 (0x807f#16)
  let mem := store mem 0x54 4 (0x00002000#32)
  store mem 0x58 4 (0x00008000#32)

/-- `PCI_PCIECAP_SETTINGS`. -/
def pciPciecapSettings (mem : Nat → BitVec 8) : Nat → BitVec 8 :=
  let mem := store mem 0x60 1 (0x10#8)
  let mem := store mem 0x61 1 (0x00#8)
  let mem := store mem 0x62 2 (0x0002#16)
  store mem 0x64 4 (0x100085a1#32)

/-- One header of `PCI_EXTCAP_SETTINGS`. -/
def extCap (mem : Nat → BitVec 8) (offs : Nat) (cid next : BitVec 16) : Nat → BitVec 8 :=
  store (store mem (0x100 + offs) 2 cid) (0x100 + offs + 2) 2 (1#16 ||| next <<< 4)

/-- `PCI_EXTCAP_SETTINGS`. -/
def pciExtcapSettings (mem : Nat → BitVec 8) : Nat → BitVec 8 :=
  let mem := extCap mem 0x000 0x01 0x150
  let mem := extCap mem 0x050 0x02 0x180
  let mem := extCap mem 0x080 0x04 0x190
  let mem := extCap mem 0x090 0x0e 0x270
  let mem := extCap mem 0x170 0x03 0x2a0
  extCap mem 0x1a0 0x19 0x000

/-- `VDEV_INIT`, and `NVMEV_PCI_INIT` up to the scan of the bus. -/
def nvmevPciInit (basePa : BitVec 64) : VirtDev :=
  { virtDev := pciExtcapSettings (pciPciecapSettings (pciMsixcapSettings (pciPmcapSettings
      (pciHeaderSettings basePa fun _ => 0))))
    intxDisabled := false
    pdev := none }

/-! ## Accesses -/

/-- `mask` of `nvmev_pci_write`. -/
def pciMask (offs : Nat) : BitVec 32 :=
  if offs < 0x40 then
    if offs = 0x04 then 0x400#32
    else if offs = 0x06 then 0xf200#32
    else if offs = 0x0f then 0x40#32
    else if offs = 0x10 then 0xffffc000#32
    else if offs = 0x3c then 0xff#32
    else 0#32
  else if offs < 0x50 then 0xffffffff#32
  else if offs < 0x60 then
    if offs - 0x50 = 2 then 0x4000#32 ||| 0x8000#32 else 0#32
  else 0xffffffff#32

namespace VirtDev

/-- `nvmev_pci_read`; only function 0 is there. -/
def nvmevPciRead (s : VirtDev) (devfn : Nat) (acc : ConfigAccess) : Option (BitVec 32) :=
  if devfn ≠ 0 then none else some (load 32 s.virtDev acc.offs acc.size)

/-- Store `pcihdr->sts.is`. -/
def setInterruptStatus (s : VirtDev) (is : Bool) : VirtDev :=
  { s with
    virtDev := Function.update s.virtDev 6
      (if is then s.virtDev 6 ||| 0x08#8 else s.virtDev 6 &&& ~~~0x08#8) }

/-- The branch of `PCI_COMMAND`. -/
def writeCommand (s : VirtDev) (old new : BitVec 32) : VirtDev :=
  if (old ^^^ new) &&& 0x400#32 ≠ 0 then
    let s := { s with intxDisabled := new &&& 0x400#32 ≠ 0 }
    if s.intxDisabled then s else s.setInterruptStatus false
  else s

/-- The branch of `PCI_MSIX_FLAGS`. -/
def writeMsixFlags (s : VirtDev) (old new : BitVec 32) : VirtDev :=
  if s.pdev.isSome ∧ (old ^^^ new) &&& 0x8000#32 ≠ 0 then
    { s with pdev := some (new &&& 0x8000#32 ≠ 0) }
  else s

/-- `nvmev_pci_write`. The stored value is computed from what was read at the start. -/
def nvmevPciWrite (s : VirtDev) (acc : ConfigAccess) (new : BitVec 32) : VirtDev :=
  let old := load 32 s.virtDev acc.offs acc.size
  let s :=
    if acc.offs = 0x04 then s.writeCommand old new
    else if acc.offs = 0x52 then s.writeMsixFlags old new
    else s
  { s with virtDev := store s.virtDev acc.offs acc.size (masked old new (pciMask acc.offs)) }

/-- Where an interrupt goes. -/
inductive Irq
  | msi (index : Nat)
  | int
  deriving DecidableEq, Repr

/-- `nvmev_signal_irq`; there is no `pdev` before the bus is scanned. -/
def nvmevSignalIrq (s : VirtDev) (msiIndex : Nat) : Option (Irq × VirtDev) :=
  match s.pdev with
  | none => none
  | some true => some (.msi msiIndex, s)
  | some false => some (.int, s.setInterruptStatus true)

/-- Bit `j` of the byte `b`. -/
def bit (s : VirtDev) (b j : Nat) : Bool := (s.virtDev b).getLsbD j

end VirtDev

/-- The bits that an access can change. -/
def writable (b j : Nat) : Bool :=
  if b < 0x40 then
    (b = 0x05 ∧ j = 2) ∨ (b = 0x07 ∧ (j = 1 ∨ 4 ≤ j)) ∨ (b = 0x0f ∧ j = 6) ∨ (b = 0x11 ∧ 6 ≤ j) ∨
      b = 0x12 ∨ b = 0x13 ∨ b = 0x3c
  else if b < 0x50 then true
  else if b < 0x60 then b = 0x53 ∧ 6 ≤ j
  else true

/-- The byte `b` is accessed. -/
def ConfigAccess.Covers (acc : ConfigAccess) (b : Nat) : Prop :=
  acc.offs ≤ b ∧ b < acc.offs + acc.size

instance (acc : ConfigAccess) (b : Nat) : Decidable (acc.Covers b) :=
  inferInstanceAs (Decidable (_ ∧ _))

/-- The states of the device from its creation on. The kernel turns MSI-X off when it finds the
capability, before `pdev` is set. -/
inductive ConfigRun (basePa : BitVec 64) : VirtDev → Prop
  | init : ConfigRun basePa (nvmevPciInit basePa)
  | write {s : VirtDev} (h : ConfigRun basePa s) (acc : ConfigAccess) (new : BitVec 32)
      (hnew : new.toNat < 2 ^ (8 * acc.size)) : ConfigRun basePa (s.nvmevPciWrite acc new)
  | scan {s : VirtDev} (h : ConfigRun basePa s) (hoff : s.bit 0x53 7 = false) :
      ConfigRun basePa { s with pdev := some false }
  | signal {s s' : VirtDev} {irq : VirtDev.Irq} {msiIndex : Nat} (h : ConfigRun basePa s)
      (hr : s.nvmevSignalIrq msiIndex = some (irq, s')) : ConfigRun basePa s'

/-! ## The bits after an access -/

theorem ConfigAccess.size_le (acc : ConfigAccess) : acc.size ≤ 4 := by
  rcases acc.size_cases with h | h | h <;> omega

/-- The mask of an access covers writable bits only. -/
theorem writable_of_mask (acc : ConfigAccess) {b j : Nat} (hb : acc.Covers b) (hj : j < 8)
    (hm : (pciMask acc.offs).getLsbD (8 * (b - acc.offs) + j) = true) : writable b j = true := by
  obtain ⟨hle, hlt⟩ := hb
  have hsize := acc.size_le
  have hcommand : ∀ k < 32, (0x400#32).getLsbD k = true → k = 10 := by decide
  have hstatus : ∀ k < 32, (0xf200#32).getLsbD k = true → k = 9 ∨ 12 ≤ k ∧ k < 16 := by decide
  have hbist : ∀ k < 32, (0x40#32).getLsbD k = true → k = 6 := by decide
  have hbase : ∀ k < 32, (0xffffc000#32).getLsbD k = true → 14 ≤ k := by decide
  have hline : ∀ k < 32, (0xff#32).getLsbD k = true → k < 8 := by decide
  have hflags : ∀ k < 32, (0x4000#32 ||| 0x8000#32).getLsbD k = true → k = 14 ∨ k = 15 := by decide
  have hk : 8 * (b - acc.offs) + j < 32 := by omega
  have haligned := acc.aligned
  unfold pciMask at hm
  unfold writable
  split_ifs at hm with h40 h04 h06 h0f h10 h3c h50 h60 hf
  · have hbit := hcommand _ hk hm
    rw [if_pos (by omega)]
    simp only [decide_eq_true_eq]
    omega
  · have hbit := hstatus _ hk hm
    have hword : acc.size ≤ 2 := by
      rcases acc.size_cases with h | h | h
      · omega
      · omega
      · rw [h, h06] at haligned
        omega
    rw [if_pos (by omega)]
    simp only [decide_eq_true_eq]
    omega
  · have hbit := hbist _ hk hm
    rw [if_pos (by omega)]
    simp only [decide_eq_true_eq]
    omega
  · have hbit := hbase _ hk hm
    rw [if_pos (by omega)]
    simp only [decide_eq_true_eq]
    omega
  · have hbit := hline _ hk hm
    rw [if_pos (by omega)]
    simp only [decide_eq_true_eq]
    omega
  · simp at hm
  · have hb50 : b < 0x50 := by
      rcases acc.size_cases with h | h | h <;> rw [h] at haligned hlt <;> omega
    rw [if_neg (by omega), if_pos hb50]
  · have hbit := hflags _ hk hm
    have hword : acc.size ≤ 2 := by
      rcases acc.size_cases with h | h | h
      · omega
      · omega
      · rw [h] at haligned
        omega
    rw [if_neg (by omega), if_neg (by omega), if_pos (by omega)]
    simp only [decide_eq_true_eq]
    omega
  · simp at hm
  · rw [if_neg (by omega), if_neg (by omega), if_neg (by omega)]

namespace VirtDev

variable {s s' : VirtDev} {b j : Nat}

theorem and_twoPow_ne_zero (x : BitVec 32) {i : Nat} (hi : i < 32) :
    x &&& BitVec.twoPow 32 i ≠ 0 ↔ x.getLsbD i = true := by
  rw [BitVec.and_twoPow]
  split_ifs with hx
  · refine iff_of_true (fun hzero => ?_) hx
    have hbit := congrArg (fun y => y.getLsbD i) hzero
    simp [hi] at hbit
  · exact iff_of_false (fun hne => hne rfl) hx

theorem intx_iff (x : BitVec 32) : x &&& 0x400#32 ≠ 0 ↔ x.getLsbD 10 = true :=
  and_twoPow_ne_zero x (i := 10) (by decide)

theorem msix_iff (x : BitVec 32) : x &&& 0x8000#32 ≠ 0 ↔ x.getLsbD 15 = true :=
  and_twoPow_ne_zero x (i := 15) (by decide)

theorem setInterruptStatus_bit (is : Bool) (hj : j < 8) :
    (s.setInterruptStatus is).bit b j = if b = 6 ∧ j = 3 then is else s.bit b j := by
  have hmask : ∀ k < 8, (0x08#8).getLsbD k = decide (k = 3) := by decide
  simp only [bit, setInterruptStatus, Function.update_apply]
  by_cases hb : b = 6
  · rw [hb, if_pos rfl]
    cases is
    · rw [if_neg (by simp), BitVec.getLsbD_and, BitVec.getLsbD_not, hmask j hj]
      by_cases h3 : j = 3 <;> simp [hj, h3]
    · rw [if_pos rfl, BitVec.getLsbD_or, hmask j hj]
      by_cases h3 : j = 3 <;> simp [h3]
  · simp [hb]

/-- The write turns `INTX_DISABLE` off. -/
def TurnsOn (old new : BitVec 32) : Prop := old.getLsbD 10 = true ∧ new.getLsbD 10 = false

instance (old new : BitVec 32) : Decidable (TurnsOn old new) := inferInstanceAs (Decidable (_ ∧ _))

theorem writeCommand_spec (s : VirtDev) (old new : BitVec 32) :
    (s.writeCommand old new).pdev = s.pdev ∧
      (s.writeCommand old new).intxDisabled =
        (if old.getLsbD 10 = new.getLsbD 10 then s.intxDisabled else new.getLsbD 10) ∧
      ∀ b j, j < 8 → (s.writeCommand old new).bit b j =
        if (b = 6 ∧ j = 3) ∧ TurnsOn old new then false else s.bit b j := by
  have hxor : (old ^^^ new) &&& 0x400#32 ≠ 0 ↔ old.getLsbD 10 ≠ new.getLsbD 10 := by
    rw [intx_iff, BitVec.getLsbD_xor]
    cases old.getLsbD 10 <;> cases new.getLsbD 10 <;> decide
  unfold writeCommand
  by_cases hne : old.getLsbD 10 = new.getLsbD 10
  · rw [if_neg (by rw [hxor]; exact not_not.mpr hne), if_pos hne]
    refine ⟨rfl, rfl, fun b j hj => ?_⟩
    rw [if_neg]
    rintro ⟨-, hold, hnew⟩
    rw [hold, hnew] at hne
    cases hne
  · rw [if_pos (hxor.mpr hne), if_neg hne]
    have hintx : decide (new &&& 0x400#32 ≠ 0) = new.getLsbD 10 := by
      rw [Bool.eq_iff_iff, decide_eq_true_iff, intx_iff]
    dsimp only
    rw [hintx]
    cases hnew : new.getLsbD 10 with
    | true =>
      rw [if_pos rfl]
      refine ⟨rfl, rfl, fun b j hj => ?_⟩
      rw [if_neg]
      · rfl
      · rintro ⟨-, -, hoff⟩
        rw [hnew] at hoff
        cases hoff
    | false =>
      have hold : TurnsOn old new := ⟨by rw [hnew] at hne; simpa using hne, hnew⟩
      rw [if_neg (by simp)]
      refine ⟨rfl, rfl, fun b j hj => ?_⟩
      rw [setInterruptStatus_bit false hj]
      by_cases h63 : b = 6 ∧ j = 3
      · rw [if_pos h63, if_pos ⟨h63, hold⟩]
      · rw [if_neg h63, if_neg fun h => h63 h.1]
        rfl

theorem writeMsixFlags_spec (s : VirtDev) (old new : BitVec 32) :
    (s.writeMsixFlags old new).virtDev = s.virtDev ∧
      (s.writeMsixFlags old new).intxDisabled = s.intxDisabled ∧
      (s.writeMsixFlags old new).pdev =
        s.pdev.map fun m => if old.getLsbD 15 = new.getLsbD 15 then m else new.getLsbD 15 := by
  have hxor : (old ^^^ new) &&& 0x8000#32 ≠ 0 ↔ old.getLsbD 15 ≠ new.getLsbD 15 := by
    rw [msix_iff, BitVec.getLsbD_xor]
    cases old.getLsbD 15 <;> cases new.getLsbD 15 <;> decide
  have hmsix : decide (new &&& 0x8000#32 ≠ 0) = new.getLsbD 15 := by
    rw [Bool.eq_iff_iff, decide_eq_true_iff, msix_iff]
  unfold writeMsixFlags
  cases hp : s.pdev with
  | none =>
    rw [if_neg (by simp)]
    exact ⟨rfl, rfl, hp⟩
  | some m =>
    by_cases hne : old.getLsbD 15 = new.getLsbD 15
    · rw [if_neg fun h => hxor.mp h.2 hne]
      refine ⟨rfl, rfl, ?_⟩
      rw [hp, Option.map_some, if_pos hne]
    · rw [if_pos ⟨rfl, hxor.mpr hne⟩]
      refine ⟨rfl, rfl, ?_⟩
      dsimp only
      rw [hmsix, Option.map_some, if_neg hne]

/-- The value that an access reads. -/
def read (s : VirtDev) (acc : ConfigAccess) : BitVec 32 := load 32 s.virtDev acc.offs acc.size

theorem getLsbD_read (acc : ConfigAccess) (i : Nat) :
    (s.read acc).getLsbD i = (decide (i < 8 * acc.size) && s.bit (acc.offs + i / 8) (i % 8)) := by
  have hsize := acc.size_le
  exact getLsbD_load (by omega)

/-- The state before the store. -/
def sideEffects (s : VirtDev) (acc : ConfigAccess) (new : BitVec 32) : VirtDev :=
  if acc.offs = 0x04 then s.writeCommand (s.read acc) new
  else if acc.offs = 0x52 then s.writeMsixFlags (s.read acc) new
  else s

theorem nvmevPciWrite_eq (s : VirtDev) (acc : ConfigAccess) (new : BitVec 32) :
    s.nvmevPciWrite acc new = { s.sideEffects acc new with
      virtDev := store (s.sideEffects acc new).virtDev acc.offs acc.size
        (masked (s.read acc) new (pciMask acc.offs)) } := rfl

/-- What an access does to each bit: under the mask it takes the new value, and turning `INTX_DISABLE`
off clears the interrupt status unless the access itself stores it again. -/
theorem nvmevPciWrite_bit (s : VirtDev) (acc : ConfigAccess) (new : BitVec 32) (hj : j < 8) :
    (s.nvmevPciWrite acc new).bit b j =
      if acc.Covers b then
        if (pciMask acc.offs).getLsbD (8 * (b - acc.offs) + j) then
          new.getLsbD (8 * (b - acc.offs) + j)
        else s.bit b j
      else if (b = 6 ∧ j = 3) ∧ acc.offs = 0x04 ∧ TurnsOn (s.read acc) new then false
      else s.bit b j := by
  have hsize := acc.size_le
  by_cases hb : acc.Covers b
  · have hin : (s.nvmevPciWrite acc new).bit b j = (store s.virtDev acc.offs acc.size
        (masked (load 32 s.virtDev acc.offs acc.size) new (pciMask acc.offs)) b).getLsbD j :=
      congrArg (fun x : BitVec 8 => x.getLsbD j) (store_congr _ hb)
    rw [hin, getLsbD_store_masked (by omega) _ _ hj, if_pos hb]
    unfold ConfigAccess.Covers at hb
    simp only [hb, true_and]
    rfl
  · have hout : (s.nvmevPciWrite acc new).bit b j =
        (if acc.offs = 0x04 then s.writeCommand (s.read acc) new
        else if acc.offs = 0x52 then s.writeMsixFlags (s.read acc) new else s).bit b j :=
      congrArg (fun x : BitVec 8 => x.getLsbD j) (store_of_outside _ hb)
    rw [hout, if_neg hb]
    by_cases h04 : acc.offs = 0x04
    · rw [if_pos h04, (s.writeCommand_spec (s.read acc) new).2.2 b j hj]
      simp only [h04, true_and]
    · have hnot : ¬ ((b = 6 ∧ j = 3) ∧ acc.offs = 0x04 ∧ TurnsOn (s.read acc) new) :=
        fun h => h04 h.2.1
      rw [if_neg h04, if_neg hnot]
      split_ifs
      · exact congrArg (fun f => (f b).getLsbD j) (s.writeMsixFlags_spec (s.read acc) new).1
      · rfl

/-! ## What every run keeps -/

/-- A bit that is not writable is kept, but for the interrupt status. -/
theorem nvmevPciWrite_fixed (s : VirtDev) (acc : ConfigAccess) (new : BitVec 32) (hj : j < 8)
    (hfixed : writable b j = false) :
    (s.nvmevPciWrite acc new).bit b j =
      if (b = 6 ∧ j = 3) ∧ ¬ acc.Covers 6 ∧ acc.offs = 0x04 ∧ TurnsOn (s.read acc) new then false
      else s.bit b j := by
  rw [nvmevPciWrite_bit s acc new hj]
  by_cases hb : acc.Covers b
  · have hmask : ¬ (pciMask acc.offs).getLsbD (8 * (b - acc.offs) + j) = true := by
      intro hm
      rw [writable_of_mask acc hb hj hm] at hfixed
      cases hfixed
    rw [if_pos hb, if_neg hmask, if_neg]
    rintro ⟨⟨rfl, -⟩, hnot, -⟩
    exact hnot hb
  · rw [if_neg hb]
    by_cases h63 : b = 6 ∧ j = 3
    · obtain ⟨rfl, rfl⟩ := h63
      simp [hb]
    · rw [if_neg fun h => h63 h.1, if_neg fun h => h63 h.1]

/-- The bits that are copied change only when their own register is accessed. -/
theorem nvmevPciWrite_copied (s : VirtDev) (acc : ConfigAccess) (new : BitVec 32) {reg : Nat}
    (hreg : reg = 0x04 ∧ b = 0x05 ∧ j = 2 ∨ reg = 0x52 ∧ b = 0x53 ∧ j = 7) (hne : acc.offs ≠ reg) :
    (s.nvmevPciWrite acc new).bit b j = s.bit b j := by
  have hj : j < 8 := by omega
  rw [nvmevPciWrite_bit s acc new hj]
  have h6 : ¬ ((b = 6 ∧ j = 3) ∧ acc.offs = 0x04 ∧ TurnsOn (s.read acc) new) := by
    rintro ⟨⟨rfl, rfl⟩, -⟩
    omega
  rw [if_neg h6]
  by_cases hb : acc.Covers b
  · have hzero : pciMask acc.offs = 0 := by
      obtain ⟨hle, hlt⟩ := hb
      have haligned := acc.aligned
      have hoffs : acc.offs = 0x05 ∨ acc.offs = 0x50 ∨ acc.offs = 0x53 := by
        rcases acc.size_cases with h | h | h <;> rw [h] at haligned hlt <;> omega
      rcases hoffs with h | h | h <;> rw [h] <;> decide
    rw [if_pos hb, hzero, if_neg (by simp)]
  · rw [if_neg hb]

theorem narrow_bit {acc : ConfigAccess} {new : BitVec 32} (hnew : new.toNat < 2 ^ (8 * acc.size))
    {i : Nat} (hi : 8 * acc.size ≤ i) : new.getLsbD i = false := by
  rw [← BitVec.testBit_toNat]
  exact Nat.testBit_lt_two_pow (Nat.lt_of_lt_of_le hnew (Nat.pow_le_pow_right (by decide) hi))

/-- The copied bit of a register after a write to it, and what was read of it before. -/
theorem nvmevPciWrite_own (s : VirtDev) (acc : ConfigAccess) (new : BitVec 32)
    (hreg : acc.offs = 0x04 ∧ b = 0x05 ∧ j = 2 ∨ acc.offs = 0x52 ∧ b = 0x53 ∧ j = 7)
    (hnew : new.toNat < 2 ^ (8 * acc.size)) :
    (if (s.read acc).getLsbD (8 + j) = new.getLsbD (8 + j) then s.bit b j else new.getLsbD (8 + j)) =
      (s.nvmevPciWrite acc new).bit b j := by
  have hj : j < 8 := by omega
  have hb : b = acc.offs + 1 := by omega
  have hbyte : acc.offs + (8 + j) / 8 = b := by omega
  have hbit : (8 + j) % 8 = j := by omega
  rw [nvmevPciWrite_bit s acc new hj, getLsbD_read, hbyte, hbit]
  have h6 : ¬ ((b = 6 ∧ j = 3) ∧ acc.offs = 0x04 ∧ TurnsOn (s.read acc) new) := by
    rintro ⟨⟨rfl, rfl⟩, -⟩
    omega
  rw [if_neg h6]
  by_cases hsize : acc.size = 1
  · have hout : ¬ acc.Covers b := fun h => by
      have hlt := h.2
      omega
    have hlow : ¬ 8 + j < 8 * acc.size := by omega
    rw [if_neg hout, narrow_bit hnew (by omega)]
    simp [hlow]
  · have hin : acc.Covers b := ⟨by omega, by rcases acc.size_cases with h | h | h <;> omega⟩
    have hlow : 8 + j < 8 * acc.size := by
      rcases acc.size_cases with h | h | h <;> omega
    have hmask : (pciMask acc.offs).getLsbD (8 * (b - acc.offs) + j) = true := by
      rcases hreg with ⟨h, rfl, rfl⟩ | ⟨h, rfl, rfl⟩ <;> rw [h] <;> decide
    have hindex : 8 * (b - acc.offs) + j = 8 + j := by omega
    rw [if_pos hin, if_pos hmask, hindex]
    simp only [hlow, decide_true, Bool.true_and]
    split_ifs with heq
    · exact heq
    · rfl

/-- `intx_disabled` and `msix_enabled` are copies of bits of the configuration space, and there is an
interrupt status only for a device that the kernel has found. -/
structure Copies (s : VirtDev) : Prop where
  intx : s.intxDisabled = s.bit 0x05 2
  msix : ∀ m, s.pdev = some m → m = s.bit 0x53 7
  found : s.bit 6 3 = true → s.pdev.isSome = true

theorem Copies.write {acc : ConfigAccess} {new : BitVec 32} (h : s.Copies)
    (hnew : new.toNat < 2 ^ (8 * acc.size)) : (s.nvmevPciWrite acc new).Copies := by
  have hfound : (s.nvmevPciWrite acc new).bit 6 3 = true → s.pdev.isSome = true := by
    intro his
    rw [nvmevPciWrite_fixed s acc new (by decide) (by decide)] at his
    split_ifs at his
    exact h.found his
  have hintx' : (s.nvmevPciWrite acc new).intxDisabled = (s.sideEffects acc new).intxDisabled := rfl
  have hpdev' : (s.nvmevPciWrite acc new).pdev = (s.sideEffects acc new).pdev := rfl
  unfold sideEffects at hintx' hpdev'
  by_cases h04 : acc.offs = 0x04
  · obtain ⟨hpdev, hintx, -⟩ := s.writeCommand_spec (s.read acc) new
    rw [if_pos h04, hintx, h.intx] at hintx'
    rw [if_pos h04, hpdev] at hpdev'
    refine ⟨hintx'.trans (nvmevPciWrite_own s acc new (Or.inl ⟨h04, rfl, rfl⟩) hnew),
      fun m hm => ?_, fun his => by rw [hpdev']; exact hfound his⟩
    rw [nvmevPciWrite_copied s acc new (Or.inr ⟨rfl, rfl, rfl⟩) (by omega)]
    exact h.msix m (hpdev' ▸ hm)
  rw [if_neg h04] at hintx' hpdev'
  have hcommand := nvmevPciWrite_copied s acc new (Or.inl ⟨rfl, rfl, rfl⟩) h04
  by_cases h52 : acc.offs = 0x52
  · obtain ⟨-, hintx, hpdev⟩ := s.writeMsixFlags_spec (s.read acc) new
    rw [if_pos h52, hintx, h.intx, ← hcommand] at hintx'
    rw [if_pos h52, hpdev] at hpdev'
    refine ⟨hintx', fun m hm => ?_, fun his => ?_⟩
    · rw [hpdev'] at hm
      obtain ⟨m', hm', rfl⟩ := Option.map_eq_some_iff.mp hm
      rw [h.msix m' hm']
      exact nvmevPciWrite_own s acc new (Or.inr ⟨h52, rfl, rfl⟩) hnew
    · rw [hpdev', Option.isSome_map]
      exact hfound his
  · rw [if_neg h52, h.intx, ← hcommand] at hintx'
    rw [if_neg h52] at hpdev'
    refine ⟨hintx', fun m hm => ?_, fun his => by rw [hpdev']; exact hfound his⟩
    rw [nvmevPciWrite_copied s acc new (Or.inr ⟨rfl, rfl, rfl⟩) h52]
    exact h.msix m (hpdev' ▸ hm)

theorem Copies.signal {irq : Irq} {msiIndex : Nat} (h : s.Copies)
    (hr : s.nvmevSignalIrq msiIndex = some (irq, s')) : s'.Copies := by
  unfold nvmevSignalIrq at hr
  split at hr
  · cases hr
  · cases hr
    exact h
  · next hpdev =>
    cases hr
    refine ⟨?_, fun m hm => ?_, fun _ => ?_⟩
    · rw [setInterruptStatus_bit true (by decide), if_neg (by decide)]
      exact h.intx
    · rw [setInterruptStatus_bit true (by decide), if_neg (by decide)]
      exact h.msix m hm
    · exact congrArg Option.isSome hpdev

end VirtDev

/-! ## The settings -/

/-- The capabilities are behind the header. -/
theorem settings_above (mem : Nat → BitVec 8) {b : Nat} (hb : b < 0x40) :
    pciExtcapSettings (pciPciecapSettings (pciMsixcapSettings (pciPmcapSettings mem))) b = mem b := by
  have hout : ∀ a n, 0x40 ≤ a → ¬ (a ≤ b ∧ b < a + n) := by omega
  simp only [pciExtcapSettings, pciPciecapSettings, pciMsixcapSettings, pciPmcapSettings, extCap]
  repeat rw [store_of_outside _ (hout _ _ (by decide))]

theorem init_command_status (basePa : BitVec 64) : (nvmevPciInit basePa).virtDev 0x05 = 0x00#8 ∧
    (nvmevPciInit basePa).virtDev 0x06 = 0x10#8 := by
  constructor
  · refine (settings_above (pciHeaderSettings basePa fun _ => 0) (b := 0x05) (by decide)).trans ?_
    simp [pciHeaderSettings, store]
  · refine (settings_above (pciHeaderSettings basePa fun _ => 0) (b := 0x06) (by decide)).trans ?_
    simp [pciHeaderSettings, store]

/-- The register of the region: a 64-bit region in memory, at an address of which the last 14 bits are
zero. -/
theorem init_base (basePa : BitVec 64) {i : Nat} (hi : i < 32) :
    (nvmevPciInit basePa).bit (0x10 + i / 8) (i % 8) =
      (basePa.setWidth 32 &&& 0xffffc000#32 ||| 0x4#32).getLsbD i := by
  have hbyte : (nvmevPciInit basePa).virtDev (0x10 + i / 8) =
      (basePa.setWidth 32 &&& 0xffffc000#32 ||| 0x4#32).extractLsb' (8 * (0x10 + i / 8 - 0x10)) 8 := by
    refine (settings_above _ (by omega)).trans ?_
    simp only [pciHeaderSettings]
    repeat rw [store_of_outside _ (by omega)]
    exact if_pos (by omega)
  have hindex : 8 * (0x10 + i / 8 - 0x10) + i % 8 = i := by omega
  rw [VirtDev.bit, hbyte, BitVec.getLsbD_extractLsb', hindex]
  simp [Nat.mod_lt]

namespace ConfigRun

variable {basePa : BitVec 64} {s : VirtDev}

theorem copies (h : ConfigRun basePa s) : s.Copies := by
  induction h with
  | init =>
    obtain ⟨hcommand, hstatus⟩ := init_command_status basePa
    refine ⟨?_, fun m hm => (by cases hm), fun his => ?_⟩
    · rw [VirtDev.bit, hcommand]
      rfl
    · rw [VirtDev.bit, hstatus] at his
      cases his
  | write _ acc new hnew ih => exact ih.write hnew
  | scan _ hoff ih =>
    refine ⟨ih.intx, fun m hm => ?_, fun _ => rfl⟩
    cases hm
    exact hoff.symm
  | signal _ hr ih => exact ih.signal hr

/-- The bits that are neither writable nor the interrupt status are those of the settings. -/
theorem fixed (h : ConfigRun basePa s) {b j : Nat} (hj : j < 8) (hfixed : writable b j = false)
    (hne : ¬ (b = 6 ∧ j = 3)) : s.bit b j = (nvmevPciInit basePa).bit b j := by
  induction h with
  | init => rfl
  | write _ acc new _ ih =>
    rw [VirtDev.nvmevPciWrite_fixed _ acc new hj hfixed, if_neg fun h => hne h.1]
    exact ih
  | scan _ _ ih => exact ih
  | signal _ hr ih =>
    unfold VirtDev.nvmevSignalIrq at hr
    split at hr
    · cases hr
    · cases hr
      exact ih
    · cases hr
      rw [VirtDev.setInterruptStatus_bit true hj, if_neg hne]
      exact ih

end ConfigRun

/-- In every state that the device reaches, the bits that are neither writable nor the interrupt status
are those of the settings; interrupts go where the MSI-X enable bit says, and `intx_disabled` is the bit
of the command register; and an access clears the interrupt status only when it turns `INTX_DISABLE` off
in a write of the command register alone. -/
theorem config_space_kept {basePa : BitVec 64} {s : VirtDev} (h : ConfigRun basePa s) :
    (∀ b j, j < 8 → writable b j = false → ¬ (b = 6 ∧ j = 3) →
        s.bit b j = (nvmevPciInit basePa).bit b j) ∧
      s.intxDisabled = s.bit 0x05 2 ∧
      (∀ msiIndex irq s', s.nvmevSignalIrq msiIndex = some (irq, s') →
        irq = if s.bit 0x53 7 then .msi msiIndex else .int) ∧
      ∀ acc new, (s.nvmevPciWrite acc new).bit 6 3 = true ↔
        s.bit 6 3 = true ∧ ¬ (acc.offs = 0x04 ∧ acc.size = 2 ∧ s.bit 0x05 2 = true ∧
          new.getLsbD 10 = false) := by
  have hcopies := h.copies
  refine ⟨fun b j hj hfixed hne => h.fixed hj hfixed hne, hcopies.intx, fun msiIndex irq s' hr => ?_,
    fun acc new => ?_⟩
  · unfold VirtDev.nvmevSignalIrq at hr
    split at hr
    · cases hr
    · next hpdev =>
      cases hr
      rw [← hcopies.msix true hpdev, if_pos rfl]
    · next hpdev =>
      cases hr
      rw [← hcopies.msix false hpdev, if_neg (by decide)]
  · rw [VirtDev.nvmevPciWrite_fixed s acc new (by decide) (by decide)]
    have hiff : acc.offs = 0x04 →
        ((¬ acc.Covers 6 ∧ VirtDev.TurnsOn (s.read acc) new) ↔
          acc.size = 2 ∧ s.bit 0x05 2 = true ∧ new.getLsbD 10 = false) := by
      intro hoffs
      have hread : (s.read acc).getLsbD 10 = (decide (10 < 8 * acc.size) && s.bit 0x05 2) := by
        rw [VirtDev.getLsbD_read, hoffs]
      unfold VirtDev.TurnsOn ConfigAccess.Covers
      rw [hread, hoffs]
      rcases acc.size_cases with hsize | hsize | hsize <;> simp [hsize]
    by_cases hoffs : acc.offs = 0x04
    · have hiff := hiff hoffs
      by_cases hturn : ¬ acc.Covers 6 ∧ VirtDev.TurnsOn (s.read acc) new
      · rw [if_pos ⟨⟨rfl, rfl⟩, hturn.1, hoffs, hturn.2⟩]
        exact iff_of_false (by decide) fun h => h.2 ⟨hoffs, hiff.mp hturn⟩
      · rw [if_neg fun h => hturn ⟨h.2.1, h.2.2.2⟩]
        rw [hiff] at hturn
        simp only [hoffs, true_and, hturn, not_false_eq_true, and_true]
    · rw [if_neg fun h => hoffs h.2.2.1]
      simp [hoffs]

/-- The access to `PCI_MSIX_FLAGS`. -/
def msixFlags : ConfigAccess where
  offs := 0x52
  size := 2
  size_cases := Or.inr (Or.inl rfl)
  aligned := ⟨41, rfl⟩

/-- A device that the kernel has found, after it has turned MSI-X off. -/
def scannedDevice : VirtDev :=
  { (nvmevPciInit 0x100000000#64).nvmevPciWrite msixFlags 0x007f#32 with pdev := some false }

theorem config_space_kept_scanned : ConfigRun 0x100000000#64 scannedDevice ∧
    scannedDevice.intxDisabled = scannedDevice.bit 0x05 2 ∧
    ∀ irq s', scannedDevice.nvmevSignalIrq 3 = some (irq, s') → irq = .int := by
  have hoff : ((nvmevPciInit 0x100000000#64).nvmevPciWrite msixFlags 0x007f#32).bit 0x53 7 = false := by
    decide
  have hrun : ConfigRun 0x100000000#64 scannedDevice :=
    .scan (.write .init msixFlags 0x007f#32 (by decide)) hoff
  obtain ⟨-, hintx, hirq, -⟩ := config_space_kept hrun
  refine ⟨hrun, hintx, fun irq s' hr => ?_⟩
  have h := hirq 3 irq s' hr
  change irq = if ((nvmevPciInit 0x100000000#64).nvmevPciWrite msixFlags 0x007f#32).bit 0x53 7 then _
    else _ at h
  rw [hoff] at h
  exact h

/-! ## Sizing the region -/

namespace VirtDev

variable {s : VirtDev}

/-- The access to `PCI_BASE_ADDRESS_0`. -/
def baseAddress : ConfigAccess where
  offs := 0x10
  size := 4
  size_cases := Or.inr (Or.inr rfl)
  aligned := ⟨4, rfl⟩

theorem base_bit (s : VirtDev) (new : BitVec 32) {b j : Nat} (hj : j < 8) :
    (s.nvmevPciWrite baseAddress new).bit b j =
      if baseAddress.Covers b ∧ (0xffffc000#32).getLsbD (8 * (b - 0x10) + j) then
        new.getLsbD (8 * (b - 0x10) + j)
      else s.bit b j := by
  rw [nvmevPciWrite_bit s baseAddress new hj]
  have hmask : pciMask baseAddress.offs = 0xffffc000#32 := rfl
  have hoffs : baseAddress.offs = 0x10 := rfl
  rw [hmask, hoffs]
  by_cases hb : baseAddress.Covers b
  · simp only [hb, true_and]
    rfl
  · simp [hb]

/-- Writing back what was read restores everything, whatever was written between. -/
theorem write_back (s : VirtDev) (new : BitVec 32) :
    (s.nvmevPciWrite baseAddress new).nvmevPciWrite baseAddress (s.read baseAddress) = s := by
  have hbytes : ((s.nvmevPciWrite baseAddress new).nvmevPciWrite baseAddress
      (s.read baseAddress)).virtDev = s.virtDev := by
    funext b
    apply BitVec.eq_of_getLsbD_eq
    intro j hj
    refine (base_bit _ _ hj).trans ?_
    split_ifs with hin
    · obtain ⟨hle, hlt⟩ := hin.1
      change 0x10 ≤ b at hle
      change b < 0x10 + 4 at hlt
      have hindex : 0x10 + (8 * (b - 0x10) + j) / 8 = b := by omega
      have hbit : (8 * (b - 0x10) + j) % 8 = j := by omega
      have hwidth : 8 * (b - 0x10) + j < 8 * 4 := by omega
      rw [getLsbD_read]
      change (decide (8 * (b - 0x10) + j < 8 * 4) &&
        s.bit (0x10 + (8 * (b - 0x10) + j) / 8) ((8 * (b - 0x10) + j) % 8)) = _
      rw [hindex, hbit, decide_eq_true hwidth, Bool.true_and]
      rfl
    · rw [base_bit _ _ hj, if_neg hin]
      rfl
  exact congrArg (fun virtDev => { s with virtDev }) hbytes

end VirtDev

/-- In every state a write of all ones to the base address register reads back as a 64-bit region of
16 KiB, and writing back the old value restores the state. -/
theorem base_address_sized {basePa : BitVec 64} {s : VirtDev} (h : ConfigRun basePa s) :
    (s.nvmevPciWrite VirtDev.baseAddress 0xffffffff#32).nvmevPciRead 0 VirtDev.baseAddress =
        some 0xffffc004#32 ∧
      (s.nvmevPciWrite VirtDev.baseAddress 0xffffffff#32).nvmevPciWrite VirtDev.baseAddress
        (s.read VirtDev.baseAddress) = s := by
  refine ⟨congrArg some ?_, s.write_back _⟩
  apply BitVec.eq_of_getLsbD_eq
  intro i hi
  have hmask : ∀ k < 32, (0xffffc000#32).getLsbD k = decide (14 ≤ k) := by decide
  have hones : ∀ k < 32, (0xffffffff#32).getLsbD k = true := by decide
  have htype : ∀ k < 32, (0xffffc004#32).getLsbD k = (decide (14 ≤ k) || (0x4#32).getLsbD k) := by
    decide
  have hbyte : 8 * (0x10 + i / 8 - 0x10) + i % 8 = i := by omega
  have hcovers : VirtDev.baseAddress.Covers (0x10 + i / 8) := by
    constructor
    · exact Nat.le_add_right _ _
    · change 0x10 + i / 8 < 0x10 + 4
      omega
  refine (VirtDev.getLsbD_read VirtDev.baseAddress i).trans ?_
  change (decide (i < 8 * 4) && (s.nvmevPciWrite VirtDev.baseAddress 0xffffffff#32).bit
    (0x10 + i / 8) (i % 8)) = _
  rw [decide_eq_true hi, Bool.true_and, VirtDev.base_bit _ _ (Nat.mod_lt _ (by decide)), hbyte,
    hmask i hi, hones i hi, htype i hi]
  by_cases h14 : 14 ≤ i
  · rw [if_pos ⟨hcovers, decide_eq_true h14⟩, decide_eq_true h14, Bool.true_or]
  · have hfixed : writable (0x10 + i / 8) (i % 8) = false := by
      unfold writable
      rw [if_pos (by omega), decide_eq_false_iff_not]
      omega
    rw [if_neg (by simp [h14]), h.fixed (Nat.mod_lt _ (by decide)) hfixed (by omega), init_base _ hi,
      BitVec.getLsbD_or, BitVec.getLsbD_and, hmask i hi]
    simp [h14]

theorem base_address_sized_first :
    ((nvmevPciInit 0x100000000#64).nvmevPciWrite VirtDev.baseAddress 0xffffffff#32).nvmevPciRead 0
        VirtDev.baseAddress = some 0xffffc004#32 ∧
      ((nvmevPciInit 0x100000000#64).nvmevPciWrite VirtDev.baseAddress 0xffffffff#32).nvmevPciWrite
        VirtDev.baseAddress ((nvmevPciInit 0x100000000#64).read VirtDev.baseAddress) =
        nvmevPciInit 0x100000000#64 :=
  base_address_sized .init

end NvmeVirt
