import NvmeVirt.Simple.Schedule
import Mathlib.Data.List.Induction

/-!
# What a flush waits for

A flush is done when every unit is idle. A read or write waits for the first of its units only, and
stores its own times in all of them. So a time that an earlier command was promised is still ahead
of a flush if a unit outside of the command keeps it, or if the command itself takes as long.
-/

namespace NvmeVirt

namespace IoUnitConfig

variable (cfg : IoUnitConfig)

/-! ## A flush -/

theorem le_foldl_max {stat : IoUnitStat} {t latest : Nat} {l : List Nat} :
    t ≤ l.foldl (fun latest i => max latest (stat i)) latest ↔
      t ≤ latest ∨ ∃ u ∈ l, t ≤ stat u := by
  induction l generalizing latest with
  | nil => simp
  | cons u l ih => simp only [List.foldl_cons, ih, le_max_iff, or_assoc, List.mem_cons, exists_eq_or_imp]

/-- The time of a flush is the largest time of a unit. -/
theorem le_scheduleFlush_iff {stat : IoUnitStat} {t : Nat} :
    t ≤ cfg.scheduleFlush stat ↔ ∃ u < cfg.nrIoUnits, t ≤ stat u := by
  rw [scheduleFlush, le_foldl_max]
  constructor
  · rintro (hzero | ⟨u, hu, hle⟩)
    · exact ⟨0, cfg.nrIoUnits_pos, hzero.trans (Nat.zero_le _)⟩
    · exact ⟨u, List.mem_range.mp hu, hle⟩
  · rintro ⟨u, hu, hle⟩
    exact Or.inr ⟨u, List.mem_range.mpr hu, hle⟩

/-! ## A read or write -/

/-- A command that `__schedule_io_units` is called for. -/
def Transfers (cmd : NvmeSqe) : Prop := cmd.nvmOpcode = .write ∨ cmd.nvmOpcode = .read

instance (cmd : NvmeSqe) : Decidable (Transfers cmd) := inferInstanceAs (Decidable (_ ∨ _))

/-- When the first unit starts on a command. -/
def begins (stat : IoUnitStat) (cmd : NvmeSqe) (nsecsStart : Nat) : Nat :=
  max nsecsStart (stat (cfg.ioUnit cmd.slba)) + cfg.delay cmd.nvmOpcode

/-- The units that a command visits. -/
def Spans (cmd : NvmeSqe) (u : Nat) : Prop :=
  ∃ k < cfg.chunks cmd, (cfg.ioUnit cmd.slba + k) % cfg.nrIoUnits = u

/-- The times of a command fit into an `unsigned long long`. -/
def InTime (stat : IoUnitStat) (cmd : NvmeSqe) (nsecsStart : Nat) : Prop :=
  cfg.begins stat cmd nsecsStart + cfg.chunks cmd * cfg.latency cmd.nvmOpcode +
    cfg.trailing cmd.nvmOpcode < 2 ^ 64

/-- A time `t` stays ahead of a flush over a command: a unit outside of the command is busy until
`t`, or the command is not done before, or a unit is busy with its trailing time until `t` and is
not visited again. -/
def Kept (stat : IoUnitStat) (cmd : NvmeSqe) (nsecsStart t : Nat) : Prop :=
  (∃ u < cfg.nrIoUnits, ¬cfg.Spans cmd u ∧ t ≤ stat u) ∨
    t ≤ cfg.begins stat cmd nsecsStart + cfg.chunks cmd * cfg.latency cmd.nvmOpcode ∨
    (cfg.chunks cmd < 2 * cfg.nrIoUnits ∧
      t ≤ cfg.begins stat cmd nsecsStart +
        min cfg.nrIoUnits (cfg.chunks cmd) * cfg.latency cmd.nvmOpcode +
        cfg.trailing cmd.nvmOpcode)

/-- Each unit that a command visits has a last visit. -/
theorem Spans.last {cfg : IoUnitConfig} {cmd : NvmeSqe} {u : Nat} (h : cfg.Spans cmd u) :
    ∃ k < cfg.chunks cmd, cfg.chunks cmd ≤ k + cfg.nrIoUnits ∧
      (cfg.ioUnit cmd.slba + k) % cfg.nrIoUnits = u := by
  obtain ⟨k, hk, rfl⟩ := h
  have hdiv := Nat.div_add_mod (cfg.chunks cmd - 1 - k) cfg.nrIoUnits
  have hmod := Nat.mod_lt (cfg.chunks cmd - 1 - k) cfg.nrIoUnits_pos
  refine ⟨k + cfg.nrIoUnits * ((cfg.chunks cmd - 1 - k) / cfg.nrIoUnits), by omega, by omega, ?_⟩
  rw [← Nat.add_assoc, Nat.add_mul_mod_self_left]

/-- What a read or write does. -/
theorem simpleProcNvmeIoCmd_transfer {stat : IoUnitStat} {cmd : NvmeSqe} {nsecsStart : Nat}
    (hcmd : Transfers cmd) (htime : cfg.InTime stat cmd nsecsStart) :
    (cfg.simpleProcNvmeIoCmd stat cmd nsecsStart).1 =
        some (cfg.begins stat cmd nsecsStart + cfg.chunks cmd * cfg.latency cmd.nvmOpcode) ∧
      cfg.Stored cmd.nvmOpcode stat (cfg.simpleProcNvmeIoCmd stat cmd nsecsStart).2
        (cfg.begins stat cmd nsecsStart) (cfg.ioUnit cmd.slba)
        (min cfg.nrIoUnits (cfg.chunks cmd)) (cfg.chunks cmd) := by
  have hproc : cfg.simpleProcNvmeIoCmd stat cmd nsecsStart =
      (some (cfg.scheduleIoUnits stat cmd.nvmOpcode cmd.slba cmd.ioSize nsecsStart).1,
        (cfg.scheduleIoUnits stat cmd.nvmOpcode cmd.slba cmd.ioSize nsecsStart).2) := by
    rcases hcmd with hop | hop <;> simp only [simpleProcNvmeIoCmd, hop]
  have hbegins : u64 (max nsecsStart (stat (cfg.ioUnit cmd.slba)) + cfg.delay cmd.nvmOpcode) =
      cfg.begins stat cmd nsecsStart := by
    unfold InTime at htime
    exact Nat.mod_eq_of_lt (by unfold begins at htime; omega)
  obtain ⟨hpos, hfuel, hcut, hlength⟩ := cfg.chunks_bounds cmd
  have hspec := @scheduleLoop_spec cfg cmd.nvmOpcode stat cmd.ioSize _ (cfg.ioUnit cmd.slba)
    (min cfg.nrIoUnits (cfg.chunks cmd)) _ _ hpos hfuel hcut hlength htime
  rw [Nat.mod_eq_of_lt (cfg.ioUnit_lt cmd.slba)] at hspec
  rw [hproc]
  simp only [scheduleIoUnits, trailing_units, hbegins]
  exact ⟨congrArg some hspec.1, hspec.2⟩

/-- A flush behind a command waits for a time that the command keeps, and for no other. -/
theorem le_flush_transfer_iff {stat : IoUnitStat} {cmd : NvmeSqe} {nsecsStart t : Nat}
    (hcmd : Transfers cmd) (htime : cfg.InTime stat cmd nsecsStart) :
    t ≤ cfg.scheduleFlush (cfg.simpleProcNvmeIoCmd stat cmd nsecsStart).2 ↔
      cfg.Kept stat cmd nsecsStart t := by
  obtain ⟨-, hstored⟩ := cfg.simpleProcNvmeIoCmd_transfer hcmd htime
  obtain ⟨hpos, -⟩ := cfg.chunks_bounds cmd
  have hunits := cfg.nrIoUnits_pos
  rw [le_scheduleFlush_iff]
  constructor
  · rintro ⟨u, hu, hle⟩
    by_cases hspans : cfg.Spans cmd u
    · right
      obtain ⟨k, hk, hlast, rfl⟩ := hspans.last
      rw [hstored.last k hk hlast] at hle
      split_ifs at hle with htrail
      · right
        have hmul := Nat.mul_le_mul_right (cfg.latency cmd.nvmOpcode) (show k + 1 ≤ _ from htrail)
        exact ⟨by omega, by omega⟩
      · left
        have hmul := Nat.mul_le_mul_right (cfg.latency cmd.nvmOpcode) (show k + 1 ≤ _ from hk)
        omega
    · left
      rw [hstored.outside u fun k hk heq => hspans ⟨k, hk, heq⟩] at hle
      exact ⟨u, hu, hspans, hle⟩
  · rintro (⟨u, hu, hspans, hle⟩ | hle | ⟨hshort, hle⟩)
    · refine ⟨u, hu, ?_⟩
      rwa [hstored.outside u fun k hk heq => hspans ⟨k, hk, heq⟩]
    · refine ⟨_, Nat.mod_lt (cfg.ioUnit cmd.slba + (cfg.chunks cmd - 1)) hunits, ?_⟩
      rw [hstored.last _ (by omega) (by omega), Nat.sub_add_cancel hpos]
      omega
    · refine ⟨_, Nat.mod_lt (cfg.ioUnit cmd.slba + (min cfg.nrIoUnits (cfg.chunks cmd) - 1))
        hunits, ?_⟩
      rw [hstored.last _ (by omega) (by omega), Nat.sub_add_cancel (by omega), if_pos (by omega)]
      exact hle

/-! ## Runs -/

/-- The times of the units after a sequence of commands, each with its time of arrival. -/
def after (reqs : List (NvmeSqe × Nat)) : IoUnitStat :=
  reqs.foldl (fun stat req => (cfg.simpleProcNvmeIoCmd stat req.1 req.2).2) fun _ => 0

/-- The answer to a command behind a sequence of commands. -/
def answer (reqs : List (NvmeSqe × Nat)) (cmd : NvmeSqe) (nsecsStart : Nat) : Option Nat :=
  (cfg.simpleProcNvmeIoCmd (cfg.after reqs) cmd nsecsStart).1

/-- A completion time `t` has been returned for a read or write of a sequence of commands. -/
def Promised (reqs : List (NvmeSqe × Nat)) (t : Nat) : Prop :=
  ∃ pre req post, reqs = pre ++ req :: post ∧ Transfers req.1 ∧
    cfg.answer pre req.1 req.2 = some t

/-- A flush at any place of a sequence of commands waits for every read and write before it. -/
def FlushWaits (reqs : List (NvmeSqe × Nat)) : Prop :=
  ∀ pre post cmd nsecsStart, reqs = pre ++ post → cmd.nvmOpcode = .flush →
    ∃ target, cfg.answer pre cmd nsecsStart = some target ∧ ∀ t, cfg.Promised pre t → t ≤ target

theorem after_concat (reqs : List (NvmeSqe × Nat)) (req : NvmeSqe × Nat) :
    cfg.after (reqs ++ [req]) = (cfg.simpleProcNvmeIoCmd (cfg.after reqs) req.1 req.2).2 := by
  simp only [after, List.foldl_append, List.foldl_cons, List.foldl_nil]

theorem answer_flush (reqs : List (NvmeSqe × Nat)) {cmd : NvmeSqe} (hcmd : cmd.nvmOpcode = .flush)
    (nsecsStart : Nat) :
    cfg.answer reqs cmd nsecsStart = some (cfg.scheduleFlush (cfg.after reqs)) := by
  simp only [answer, simpleProcNvmeIoCmd, hcmd]

theorem promised_concat {reqs : List (NvmeSqe × Nat)} {req : NvmeSqe × Nat} {t : Nat} :
    cfg.Promised (reqs ++ [req]) t ↔
      cfg.Promised reqs t ∨ (Transfers req.1 ∧ cfg.answer reqs req.1 req.2 = some t) := by
  constructor
  · rintro ⟨pre, last, post, heq, hcmd, ht⟩
    rcases List.eq_nil_or_concat post with rfl | ⟨post, req', rfl⟩
    · obtain ⟨rfl, hlast⟩ := List.append_inj' heq rfl
      cases hlast
      exact Or.inr ⟨hcmd, ht⟩
    · rw [List.concat_eq_append, ← List.cons_append, ← List.append_assoc] at heq
      obtain ⟨rfl, -⟩ := List.append_inj' heq rfl
      exact Or.inl ⟨pre, last, post, rfl, hcmd, ht⟩
  · rintro (⟨pre, last, post, rfl, hcmd, ht⟩ | ⟨hcmd, ht⟩)
    · exact ⟨pre, last, post ++ [req], by simp, hcmd, ht⟩
    · exact ⟨reqs, req, [], rfl, hcmd, ht⟩

/-- A command that is no read or write leaves the units alone. -/
theorem simpleProcNvmeIoCmd_other {stat : IoUnitStat} {cmd : NvmeSqe} {nsecsStart : Nat}
    (hcmd : ¬Transfers cmd) : (cfg.simpleProcNvmeIoCmd stat cmd nsecsStart).2 = stat := by
  unfold simpleProcNvmeIoCmd
  cases hop : cmd.nvmOpcode with
  | write => exact absurd (Or.inl hop) hcmd
  | read => exact absurd (Or.inr hop) hcmd
  | flush => rfl
  | other => rfl

/-- If every command keeps the times that were promised before it, a flush waits for them. -/
theorem le_flush_of_kept {reqs : List (NvmeSqe × Nat)}
    (htime : ∀ pre req post, reqs = pre ++ req :: post → Transfers req.1 →
      cfg.InTime (cfg.after pre) req.1 req.2)
    (hkept : ∀ pre req post, reqs = pre ++ req :: post → Transfers req.1 →
      ∀ t, cfg.Promised pre t → cfg.Kept (cfg.after pre) req.1 req.2 t)
    {pre post : List (NvmeSqe × Nat)} (heq : reqs = pre ++ post) {t : Nat}
    (ht : cfg.Promised pre t) : t ≤ cfg.scheduleFlush (cfg.after pre) := by
  induction pre using List.reverseRecOn generalizing post with
  | nil =>
    obtain ⟨pre, req, post, hnil, -⟩ := ht
    exact absurd hnil (by simp)
  | append_singleton pre req ih =>
    rw [List.append_assoc, List.singleton_append] at heq
    rw [after_concat]
    by_cases hcmd : Transfers req.1
    · have hreq := htime pre req post heq hcmd
      rw [cfg.le_flush_transfer_iff hcmd hreq]
      rcases cfg.promised_concat.mp ht with ht | ⟨-, ht⟩
      · exact hkept pre req post heq hcmd t ht
      · rw [answer, (cfg.simpleProcNvmeIoCmd_transfer hcmd hreq).1] at ht
        exact Or.inr (Or.inl (Option.some.inj ht).ge)
    · rw [cfg.simpleProcNvmeIoCmd_other hcmd]
      exact ih heq ((cfg.promised_concat.mp ht).resolve_right fun h => hcmd h.1)

/-- A flush waits at every place of a sequence of commands if and only if every read and write keeps
each time that was promised before it. -/
theorem flush_waits (cfg : IoUnitConfig) (reqs : List (NvmeSqe × Nat))
    (htime : ∀ pre req post, reqs = pre ++ req :: post → Transfers req.1 →
      cfg.InTime (cfg.after pre) req.1 req.2) :
    cfg.FlushWaits reqs ↔ ∀ pre req post, reqs = pre ++ req :: post → Transfers req.1 →
      ∀ t, cfg.Promised pre t → cfg.Kept (cfg.after pre) req.1 req.2 t := by
  constructor
  · intro hwaits pre req post heq hcmd t ht
    have hsplit : reqs = (pre ++ [req]) ++ post := by rw [heq, List.append_assoc]; rfl
    obtain ⟨target, htarget, hle⟩ := hwaits (pre ++ [req]) post default 0 hsplit rfl
    rw [cfg.answer_flush _ rfl] at htarget
    have hflush := hle t (cfg.promised_concat.mpr (Or.inl ht))
    rw [← Option.some.inj htarget, after_concat] at hflush
    exact (cfg.le_flush_transfer_iff hcmd (htime pre req post heq hcmd)).mp hflush
  · intro hkept pre post cmd nsecsStart heq hcmd
    refine ⟨_, cfg.answer_flush pre hcmd nsecsStart, fun t ht => ?_⟩
    exact cfg.le_flush_of_kept htime hkept heq ht

/-- The parameters that `main.c` sets. -/
def defaults : IoUnitConfig where
  nrIoUnits := 8
  ioUnitShift := 12
  readDelay := 1
  readTime := 1
  readTrailing := 0
  writeDelay := 1
  writeTime := 1
  writeTrailing := 0
  nrIoUnits_ne := by decide
  ioUnitShift_ne := by decide
  readTime_ne := by decide
  writeTime_ne := by decide

/-- A write of `pages` units from unit `unit` on. -/
def unitWrite (unit pages : Nat) : NvmeSqe :=
  { (default : NvmeSqe) with opcode := 1, cdw10 := 8 * unit, cdw12 := 8 * pages - 1 }

/-- Two writes to different units. -/
theorem flush_waits_two : defaults.FlushWaits [(unitWrite 0 1, 0), (unitWrite 1 1, 0)] := by
  have hsplit : ∀ pre req post, [(unitWrite 0 1, 0), (unitWrite 1 1, 0)] = pre ++ req :: post →
      (pre = [] ∧ req = (unitWrite 0 1, 0)) ∨
        (pre = [(unitWrite 0 1, 0)] ∧ req = (unitWrite 1 1, 0)) := by
    intro pre req post heq
    rcases pre with _ | ⟨a, _ | ⟨b, pre⟩⟩ <;> simp_all
  refine (flush_waits defaults _ fun pre req post heq _ => ?_).mpr
    fun pre req post heq _ t ht => ?_
  · unfold InTime
    rcases hsplit pre req post heq with ⟨rfl, rfl⟩ | ⟨rfl, rfl⟩ <;> decide +kernel
  · rcases hsplit pre req post heq with ⟨rfl, rfl⟩ | ⟨rfl, rfl⟩
    · obtain ⟨pre, req, post, hnil, -⟩ := ht
      exact absurd hnil (by simp)
    · have hnone : ¬defaults.Promised [] t := by
        rintro ⟨pre, req, post, hnil, -⟩
        exact absurd hnil (by simp)
      obtain ⟨-, ht⟩ := ((@promised_concat defaults [] _ t).mp ht).resolve_left hnone
      have htwo : defaults.answer [] (unitWrite 0 1) 0 = some 2 := by decide +kernel
      obtain rfl := Option.some.inj (htwo.symm.trans ht)
      exact Or.inr (Or.inl (by decide +kernel))

/-- Three writes to unit 0 and a write to the units 7 and 0: the last one frees unit 0 before the
third one is done. -/
theorem flush_early :
    ∃ t target, defaults.Promised
        [(unitWrite 0 1, 0), (unitWrite 0 1, 0), (unitWrite 0 1, 0), (unitWrite 7 2, 0)] t ∧
      defaults.answer
        [(unitWrite 0 1, 0), (unitWrite 0 1, 0), (unitWrite 0 1, 0), (unitWrite 7 2, 0)]
        default 0 = some target ∧ target < t := by
  refine ⟨6, 3, ⟨[(unitWrite 0 1, 0), (unitWrite 0 1, 0)], (unitWrite 0 1, 0),
    [(unitWrite 7 2, 0)], rfl, by decide +kernel, by decide +kernel⟩, by decide +kernel,
    by decide⟩

end IoUnitConfig

end NvmeVirt
