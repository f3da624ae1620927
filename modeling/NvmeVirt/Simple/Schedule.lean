import NvmeVirt.Io.State
import Mathlib.Data.Int.ModEq
import Mathlib.Tactic.NormNum

/-!
# The IO units of the simple NVM model

`simple_ftl.c` spreads a command over IO units, and keeps for each unit the time until which it is
busy. A C shift by the width of its operand or more takes the count modulo the width, as the
processor does.
-/

namespace NvmeVirt

/-- The opcodes that `simple_proc_nvme_io_cmd` knows. -/
inductive NvmOpcode
  | flush
  | write
  | read
  | other
  deriving DecidableEq, Repr

/-- The opcode byte. -/
def NvmeSqe.nvmOpcode (c : NvmeSqe) : NvmOpcode :=
  match c.opcode with
  | 0 => .flush
  | 1 => .write
  | 2 => .read
  | _ => .other

/-- `__cmd_io_size`. -/
def NvmeSqe.ioSize (c : NvmeSqe) : Nat := (c.length + 1) <<< lbaBits

theorem NvmeSqe.ioSize_pos (c : NvmeSqe) : 0 < c.ioSize := by
  rw [ioSize, Nat.shiftLeft_eq]
  exact Nat.mul_pos c.length.succ_pos (Nat.two_pow_pos lbaBits)

theorem NvmeSqe.ioSize_le (c : NvmeSqe) : c.ioSize ≤ 2 ^ 25 := by
  have hlength : c.length < 2 ^ 16 := Nat.mod_lt _ (by norm_num)
  have hbits : lbaBits = 9 := rfl
  rw [ioSize, Nat.shiftLeft_eq, hbits]
  omega

/-- The part of `struct nvmev_config` that describes the IO units, as `__validate_configs` accepts
it. -/
structure IoUnitConfig where
  nrIoUnits : Nat
  ioUnitShift : Nat
  readDelay : Nat
  readTime : Nat
  readTrailing : Nat
  writeDelay : Nat
  writeTime : Nat
  writeTrailing : Nat
  nrIoUnits_ne : nrIoUnits ≠ 0
  ioUnitShift_ne : ioUnitShift ≠ 0
  readTime_ne : readTime ≠ 0
  writeTime_ne : writeTime ≠ 0

/-- `io_unit_stat`: the time until which each unit is busy. -/
abbrev IoUnitStat := Nat → Nat

namespace IoUnitConfig

variable (cfg : IoUnitConfig)

/-- `io_unit_size`. -/
def ioUnitSize : Nat := 2 ^ (cfg.ioUnitShift % 32)

/-- `delay`, `latency` and `trailing` of `__schedule_io_units`. -/
def delay : NvmOpcode → Nat
  | .write => cfg.writeDelay
  | .read => cfg.readDelay
  | _ => 0

@[inherit_doc delay] def latency : NvmOpcode → Nat
  | .write => cfg.writeTime
  | .read => cfg.readTime
  | _ => 0

@[inherit_doc delay] def trailing : NvmOpcode → Nat
  | .write => cfg.writeTrailing
  | .read => cfg.readTrailing
  | _ => 0

/-- The unit of an LBA. -/
def ioUnit (lba : Nat) : Nat :=
  lba / 2 ^ (u32Sub cfg.ioUnitShift lbaBits % 64) % cfg.nrIoUnits

/-- The unit behind another one. -/
def nextUnit (ioUnit : Nat) : Nat := if cfg.nrIoUnits ≤ ioUnit + 1 then 0 else ioUnit + 1

/-- The loop of `__schedule_io_units`, with the remaining length and the number of units that still
get their trailing time. It ends when nothing of the length is left, so its fuel is the length. -/
def scheduleLoop (op : NvmOpcode) : Nat → Nat → IoUnitStat → Nat → Nat → Nat → Nat × IoUnitStat
  | 0, latest, stat, _, _, _ => (latest, stat)
  | fuel + 1, latest, stat, ioUnit, nrIoUnits, length =>
    let latest := u64 (latest + cfg.latency op)
    let busy := if 0 < nrIoUnits then u64 (latest + cfg.trailing op) else latest
    let stat := Function.update stat ioUnit busy
    let length := length - min length cfg.ioUnitSize
    if 0 < length then
      scheduleLoop op fuel latest stat (cfg.nextUnit ioUnit) (nrIoUnits - 1) length
    else (latest, stat)

/-- `__schedule_io_units`: the time of completion and the new times of the units. -/
def scheduleIoUnits (stat : IoUnitStat) (op : NvmOpcode) (lba length nsecsStart : Nat) :
    Nat × IoUnitStat :=
  let ioUnit := cfg.ioUnit lba
  let nrIoUnits := min cfg.nrIoUnits (u32 (length + cfg.ioUnitSize - 1) / cfg.ioUnitSize)
  let latest := u64 (max nsecsStart (stat ioUnit) + cfg.delay op)
  cfg.scheduleLoop op length latest stat ioUnit nrIoUnits length

/-- `__schedule_flush`. -/
def scheduleFlush (stat : IoUnitStat) : Nat :=
  (List.range cfg.nrIoUnits).foldl (fun latest i => max latest (stat i)) 0

/-- `simple_proc_nvme_io_cmd` on a command that arrives at `nsecsStart`: `nsecs_target`, unless it is
left as it was, and the new times of the units. -/
def simpleProcNvmeIoCmd (stat : IoUnitStat) (cmd : NvmeSqe) (nsecsStart : Nat) :
    Option Nat × IoUnitStat :=
  match cmd.nvmOpcode with
  | .write =>
    let r := cfg.scheduleIoUnits stat .write cmd.slba cmd.ioSize nsecsStart
    (some r.1, r.2)
  | .read =>
    let r := cfg.scheduleIoUnits stat .read cmd.slba cmd.ioSize nsecsStart
    (some r.1, r.2)
  | .flush => (some (cfg.scheduleFlush stat), stat)
  | .other => (none, stat)

/-! ## The units of a command -/

theorem nrIoUnits_pos : 0 < cfg.nrIoUnits := Nat.pos_of_ne_zero cfg.nrIoUnits_ne

theorem ioUnitSize_pos : 0 < cfg.ioUnitSize := Nat.two_pow_pos _

theorem ioUnit_lt (lba : Nat) : cfg.ioUnit lba < cfg.nrIoUnits := Nat.mod_lt _ cfg.nrIoUnits_pos

/-- The parts into which a command is cut. -/
def chunks (cmd : NvmeSqe) : Nat := divRoundUp cmd.ioSize cfg.ioUnitSize

theorem nextUnit_mod (ioUnit : Nat) :
    cfg.nextUnit (ioUnit % cfg.nrIoUnits) = (ioUnit + 1) % cfg.nrIoUnits := by
  have hlt := Nat.mod_lt ioUnit cfg.nrIoUnits_pos
  rw [nextUnit, ← Nat.mod_add_mod]
  split_ifs with hlast
  · have heq : ioUnit % cfg.nrIoUnits + 1 = cfg.nrIoUnits := by omega
    rw [heq, Nat.mod_self]
  · rw [Nat.mod_eq_of_lt (Nat.lt_of_not_le hlast)]

/-- All parts but the last are full. -/
theorem chunks_bounds (cmd : NvmeSqe) :
    0 < cfg.chunks cmd ∧ cfg.chunks cmd ≤ cmd.ioSize ∧
      (cfg.chunks cmd - 1) * cfg.ioUnitSize < cmd.ioSize ∧
      cmd.ioSize ≤ cfg.chunks cmd * cfg.ioUnitSize := by
  have hsize := cfg.ioUnitSize_pos
  have hio := cmd.ioSize_pos
  have hmul := Nat.div_mul_le_self (cmd.ioSize + cfg.ioUnitSize - 1) cfg.ioUnitSize
  have hlt := Nat.lt_mul_div_succ (cmd.ioSize + cfg.ioUnitSize - 1) hsize
  rw [← divRoundUp, ← chunks] at hmul hlt
  rw [Nat.mul_succ, Nat.mul_comm] at hlt
  have hpos : 0 < cfg.chunks cmd := Nat.div_pos (by omega) hsize
  have hcut : (cfg.chunks cmd - 1) * cfg.ioUnitSize < cmd.ioSize := by
    rw [Nat.sub_mul]
    omega
  have hone : cfg.chunks cmd - 1 ≤ (cfg.chunks cmd - 1) * cfg.ioUnitSize :=
    Nat.le_mul_of_pos_right _ hsize
  exact ⟨hpos, by omega, hcut, by omega⟩

/-- The number of units that get their trailing time. -/
theorem trailing_units (cmd : NvmeSqe) :
    u32 (cmd.ioSize + cfg.ioUnitSize - 1) / cfg.ioUnitSize = cfg.chunks cmd := by
  have hio := cmd.ioSize_le
  have hsize : cfg.ioUnitSize ≤ 2 ^ 31 :=
    Nat.pow_le_pow_right (by norm_num) (Nat.le_of_lt_succ (Nat.mod_lt _ (by norm_num)))
  rw [u32, Nat.mod_eq_of_lt (by omega), chunks, divRoundUp]

/-! ## What the loop stores -/

/-- The units that the loop visits are those of `n` parts in a row, and what a unit keeps is the time
of its last part. -/
structure Stored (op : NvmOpcode) (stat stat' : IoUnitStat) (latest ioUnit nrIoUnits n : Nat) :
    Prop where
  outside : ∀ u, (∀ k < n, (ioUnit + k) % cfg.nrIoUnits ≠ u) → stat' u = stat u
  last : ∀ k < n, n ≤ k + cfg.nrIoUnits → stat' ((ioUnit + k) % cfg.nrIoUnits) =
    latest + (k + 1) * cfg.latency op + if k < nrIoUnits then cfg.trailing op else 0

/-- One more part in front. -/
theorem Stored.cons {cfg : IoUnitConfig} {op : NvmOpcode} {stat stat' : IoUnitStat}
    {latest ioUnit nrIoUnits n busy : Nat}
    (h : cfg.Stored op (Function.update stat (ioUnit % cfg.nrIoUnits) busy) stat'
      (latest + cfg.latency op) (ioUnit + 1) (nrIoUnits - 1) n)
    (hbusy : busy = latest + cfg.latency op + if 0 < nrIoUnits then cfg.trailing op else 0) :
    cfg.Stored op stat stat' latest ioUnit nrIoUnits (n + 1) := by
  have hshift : ∀ k, ioUnit + 1 + k = ioUnit + (k + 1) := fun k => by omega
  constructor
  · intro u hu
    have hne : u ≠ ioUnit % cfg.nrIoUnits := (hu 0 n.succ_pos).symm
    rw [h.outside u fun k hk => ?_, Function.update_of_ne hne]
    rw [hshift]
    exact hu (k + 1) (by omega)
  · intro k hk hlast
    cases k with
    | zero =>
      -- The unit is not visited again.
      have hout : ∀ k < n, (ioUnit + 1 + k) % cfg.nrIoUnits ≠ ioUnit % cfg.nrIoUnits := by
        intro k hk heq
        have hdvd := (Nat.modEq_iff_dvd' (by omega)).mp heq.symm
        have hle := Nat.le_of_dvd (by omega) hdvd
        omega
      rw [Nat.add_zero, h.outside _ hout, Function.update_self, hbusy, Nat.zero_add, Nat.one_mul]
    | succ k =>
      rw [← hshift, h.last k (by omega) (by omega), Nat.add_mul (k + 1), Nat.one_mul]
      have hcount : k < nrIoUnits - 1 ↔ k + 1 < nrIoUnits := by omega
      simp only [hcount]
      omega

/-- The loop on a length of `n` parts. -/
theorem scheduleLoop_spec {op : NvmOpcode} {stat : IoUnitStat}
    {fuel latest ioUnit nrIoUnits length n : Nat} (hn : 0 < n) (hfuel : n ≤ fuel)
    (hcut : (n - 1) * cfg.ioUnitSize < length) (hlength : length ≤ n * cfg.ioUnitSize)
    (hfits : latest + n * cfg.latency op + cfg.trailing op < 2 ^ 64) :
    (cfg.scheduleLoop op fuel latest stat (ioUnit % cfg.nrIoUnits) nrIoUnits length).1 =
        latest + n * cfg.latency op ∧
      cfg.Stored op stat
        (cfg.scheduleLoop op fuel latest stat (ioUnit % cfg.nrIoUnits) nrIoUnits length).2
        latest ioUnit nrIoUnits n := by
  induction n generalizing fuel latest stat ioUnit nrIoUnits length with
  | zero => cases hn
  | succ n ih =>
    obtain ⟨fuel, rfl⟩ : ∃ m, fuel = m + 1 := ⟨fuel - 1, by omega⟩
    rw [Nat.add_mul, Nat.one_mul] at hfits hlength
    rw [Nat.add_sub_cancel] at hcut
    have hlatest : u64 (latest + cfg.latency op) = latest + cfg.latency op :=
      Nat.mod_eq_of_lt (by omega)
    have hbusy : (if 0 < nrIoUnits then u64 (latest + cfg.latency op + cfg.trailing op)
        else latest + cfg.latency op) =
        latest + cfg.latency op + if 0 < nrIoUnits then cfg.trailing op else 0 := by
      split_ifs
      · exact Nat.mod_eq_of_lt (by omega)
      · rfl
    simp only [scheduleLoop, hlatest, hbusy, nextUnit_mod]
    have hrest : length - min length cfg.ioUnitSize = length - cfg.ioUnitSize := by omega
    rw [hrest]
    rcases Nat.eq_zero_or_pos n with rfl | hpos
    · rw [if_neg (by omega), Nat.zero_add, Nat.one_mul]
      refine ⟨rfl, Stored.cons ⟨fun u _ => rfl, fun k hk => absurd hk k.not_lt_zero⟩ rfl⟩
    · have hone : cfg.ioUnitSize ≤ n * cfg.ioUnitSize := Nat.le_mul_of_pos_left _ hpos
      rw [if_pos (by omega)]
      obtain ⟨hfst, hstored⟩ := @ih (Function.update stat (ioUnit % cfg.nrIoUnits) _) fuel
        (latest + cfg.latency op) (ioUnit + 1) (nrIoUnits - 1) (length - cfg.ioUnitSize) hpos
        (by omega) (by rw [Nat.sub_mul]; omega) (by omega) (by omega)
      refine ⟨?_, Stored.cons hstored rfl⟩
      rw [hfst, Nat.add_mul, Nat.one_mul]
      omega

end IoUnitConfig

end NvmeVirt
