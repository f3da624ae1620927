import NvmeVirt.Io.Prps
import Mathlib.Data.List.Nodup

/-!
# Copies by DMA

`__do_perform_io_using_dma` takes the same PRPs as `__do_perform_io`, joins pages that follow each
other in memory, and submits one copy for each run of such pages. The storage is addressed from its
start, whatever the namespace of the command.
-/

namespace NvmeVirt

open Checked Segments

/-! ## The namespaces -/

/-- The sizes in `NVMEV_NAMESPACE_INIT`; a capacity of 0 stands for all that is left. -/
def nsSizes : List Nat → Nat → List Nat
  | [], _ => []
  | capacity :: capacities, remaining =>
    let size := if capacity = 0 then remaining else min capacity remaining
    size :: nsSizes capacities (remaining - size)

/-- `ns[i].mapped`, from `storage_mapped` on. -/
def nsMapped (capacities : List Nat) (storageSize i : Nat) : Nat :=
  ((nsSizes capacities storageSize).take i).sum

theorem nsMapped_le (capacities : List Nat) (storageSize i : Nat) :
    nsMapped capacities storageSize i ≤ storageSize := by
  unfold nsMapped
  induction capacities generalizing storageSize i with
  | nil => simp [nsSizes]
  | cons capacity capacities ih =>
    cases i with
    | zero => simp
    | succ i =>
      rw [nsSizes, List.take_succ_cons, List.sum_cons]
      have hrest := ih (storageSize - if capacity = 0 then storageSize else min capacity storageSize) i
      split_ifs at hrest ⊢ <;> omega

/-! ## Transfers -/

/-- The pages that follow `prev` in memory, and the PRPs behind them. -/
def mergeRun (prev : Nat) : List Nat → Nat × List Nat
  | [] => (0, [])
  | paddr :: prps =>
    if paddr = u64 (prev + pageSize) then ((mergeRun paddr prps).1 + 1, (mergeRun paddr prps).2)
    else (0, paddr :: prps)

/-- The loop for the data. Storage is counted from `storage_start`. -/
def dmaLoop (cmd : NvmeSqe) : Nat → List Nat → Nat → Nat → Except IoFault (List IoCopy)
  | 0, _, _, _ => .error .endless
  | fuel + 1, prps, offset, remaining =>
    if remaining = 0 then .ok []
    else
      match prps with
      | [] => .error .outOfRange
      | paddr :: prps => do
        let run := mergeRun paddr prps
        let ioSize := min remaining (ioSizeAt paddr remaining + run.1 * pageSize)
        let copies ← dmaLoop cmd fuel run.2 (u64 (offset + ioSize)) (remaining - ioSize)
        return cmd.copies offset paddr ioSize ++ copies

/-- `__do_perform_io_using_dma`; its `paddr_list` has room for 512 PRPs. -/
def doPerformIoUsingDma (host : HostMemory) (cmd : NvmeSqe) : Except IoFault (List IoCopy) := do
  let prps ← fetchPrps host cmd
  require (prps.length ≤ 512) .outOfRange
  dmaLoop cmd (cmd.ioSize + 1) prps (lbaToByte cmd.slba) cmd.ioSize

/-- A copy of `__do_perform_io`, counted from the start of the storage. -/
def IoCopy.mapped (base : Nat) (x : IoCopy) : IoCopy := { x with storage := u64 (base + x.storage) }

/-! ## Runs of pages -/

variable {host : HostMemory} {cmd : NvmeSqe} {prps : List Nat} {base fuel o p r : Nat}

theorem mergeRun_suffix (p : Nat) (prps : List Nat) : (mergeRun p prps).2 <:+ prps := by
  induction prps generalizing p with
  | nil => exact List.suffix_refl _
  | cons q prps ih =>
    rw [mergeRun]
    split
    · exact (ih q).trans (List.suffix_cons ..)
    · exact List.suffix_refl _

/-- The bytes of the first page, and those of the others. -/
theorem lay_first_page (o p r : Nat) (prps : List Nat) :
    (lay o (segments id r (p :: prps))).map u64Pair =
      (List.range (ioSizeAt p r)).map (fun i => (u64 (o + i), u64 (p + i))) ++
        (lay (o + ioSizeAt p r) (segments id (r - ioSizeAt p r) prps)).map u64Pair := by
  rw [segments, lay, List.map_append, List.map_map]
  rfl

theorem min_run_one : min r (ioSizeAt p r + 0 * pageSize) = ioSizeAt p r := by
  simp [ioSizeAt_le]

/-- The bytes of the pages of a run are those of one copy. Only the first page may start within a
page, and then no page follows it. -/
theorem lay_mergeRun (haligned : ∀ q ∈ prps, q % pageSize = 0) :
    let run := mergeRun p prps
    let size := min r (ioSizeAt p r + run.1 * pageSize)
    (lay o (segments id r (p :: prps))).map u64Pair =
      (List.range size).map (fun i => (u64 (o + i), u64 (p + i))) ++
        (lay (o + size) (segments id (r - size) run.2)).map u64Pair := by
  induction prps generalizing p o r with
  | nil =>
    simp only [mergeRun, min_run_one]
    exact lay_first_page o p r []
  | cons q prps ih =>
    obtain ⟨hq, hrest⟩ := List.forall_mem_cons.mp haligned
    rw [mergeRun]
    split
    · next hnext =>
      have hp : p % pageSize = 0 := by
        rw [hnext] at hq
        simp only [u64, pageSize] at hq ⊢
        omega
      have hfirst : ioSizeAt p r = min r pageSize := by rw [ioSizeAt_eq, hp, Nat.sub_zero]
      have hsecond : ioSizeAt q (r - min r pageSize) = min (r - min r pageSize) pageSize := by
        rw [ioSizeAt_eq, hq, Nat.sub_zero]
      have hih := @ih (o + min r pageSize) q (r - min r pageSize) hrest
      dsimp only at hih ⊢
      rw [hsecond] at hih
      generalize mergeRun q prps = run at hih ⊢
      obtain ⟨k, rest⟩ := run
      dsimp only at hih ⊢
      -- the size of the run is that of the page and that of the rest of the run
      have hsize : min r (min r pageSize + (k + 1) * pageSize) = min r pageSize +
          min (r - min r pageSize) (min (r - min r pageSize) pageSize + k * pageSize) := by
        rw [Nat.add_one_mul]
        omega
      have hle := Nat.min_le_left (r - min r pageSize)
        (min (r - min r pageSize) pageSize + k * pageSize)
      rw [hfirst, hsize]
      generalize min (r - min r pageSize)
        (min (r - min r pageSize) pageSize + k * pageSize) = m at hih hle ⊢
      rw [lay_first_page, hfirst, hih, List.range_add, List.map_append, List.map_map,
        List.append_assoc, ← Nat.add_assoc, ← Nat.sub_sub]
      congr 2
      apply List.map_congr_left
      intro i hi
      have hfull : min r pageSize = pageSize := by
        have hlt := List.mem_range.mp hi
        omega
      rw [Function.comp_apply, hfull, hnext, u64_u64_add, Nat.add_assoc, Nat.add_assoc]
    · simp only [min_run_one]
      exact lay_first_page o p r (q :: prps)

/-- The submitted copies are laid over the PRPs. -/
theorem dmaLoop_eq (hrw : cmd.IsRw) (haligned : ∀ q ∈ prps.tail, q % pageSize = 0)
    (htotal : total (segments id r prps) = r) (hfuel : prps.length < fuel) :
    ∃ copies, dmaLoop cmd fuel prps (u64 o) r = .ok copies ∧
      (∀ x ∈ copies, x.toStorage = cmd.writes) ∧
      copies.flatMap IoCopy.bytes = (lay o (segments id r prps)).map u64Pair := by
  induction fuel generalizing prps o r with
  | zero => omega
  | succ fuel ih =>
    unfold dmaLoop
    by_cases hr : r = 0
    · rw [if_pos hr]
      refine ⟨[], rfl, by simp, ?_⟩
      rw [lay_eq, htotal, hr]
      rfl
    rw [if_neg hr]
    cases prps with
    | nil => exact absurd htotal.symm hr
    | cons p prps =>
      have hlay := @lay_mergeRun prps o p r haligned
      have hsuffix := mergeRun_suffix p prps
      dsimp only at hlay ⊢
      generalize mergeRun p prps = run at hlay hsuffix ⊢
      have hle := Nat.min_le_left r (ioSizeAt p r + run.1 * pageSize)
      generalize min r (ioSizeAt p r + run.1 * pageSize) = size at hlay hle ⊢
      have htotal' : total (segments id (r - size) run.2) = r - size := by
        have hlength := congrArg List.length hlay
        simp only [List.length_append, List.length_map, List.length_range, length_lay,
          htotal] at hlength
        omega
      have haligned' : ∀ q ∈ run.2.tail, q % pageSize = 0 := fun q hq =>
        haligned q (hsuffix.subset (List.mem_of_mem_tail hq))
      have hlength := hsuffix.length_le
      rw [List.length_cons] at hfuel
      obtain ⟨copies, hrun, hdir, hbytes⟩ := @ih run.2 (o + size) _ haligned' htotal' (by omega)
      rw [u64_u64_add, hrun, ok_bind, copies_eq hrw]
      refine ⟨_, rfl, ?_, ?_⟩
      · intro x hx
        rcases List.mem_cons.mp hx with rfl | hx
        · rfl
        · exact hdir x hx
      · rw [List.singleton_append, List.flatMap_cons, hbytes, hlay]
        congr 1
        apply List.map_congr_left
        intro i _
        rw [u64_u64_add]

/-! ## The two paths -/

/-- Byte `i` of a command: where in the storage, and where in the memory of the host. -/
def bytePairs (cmd : NvmeSqe) (base : Nat) (addr : Nat → Nat) : List (Nat × Nat) :=
  (List.range cmd.ioSize).map fun i => (u64 (base + cmd.slba * lbaSize + i), u64 (addr i))

theorem u64_add_u64 (a b : Nat) : u64 (a + u64 b) = u64 (a + b) := Nat.add_mod_mod ..

/-- `__do_perform_io` for a namespace at `base`. -/
theorem doPerformIo_pairs (hrw : cmd.IsRw) (hfetch : fetchPrps host cmd = .ok prps) (base : Nat) :
    ∃ copies, doPerformIo host cmd = .ok copies ∧
      (∀ x ∈ copies.map (IoCopy.mapped base), x.toStorage = cmd.writes) ∧
      (copies.map (IoCopy.mapped base)).flatMap IoCopy.bytes =
        bytePairs cmd base (place (segments host.copyAt cmd.ioSize prps)) := by
  obtain ⟨copies, hrun, hdir, hbytes⟩ := @ioLoop_eq host cmd .start prps (cmd.ioSize + 1)
    (cmd.slba * lbaSize) cmd.ioSize hrw hfetch
  refine ⟨copies, by rw [doPerformIo, lbaToByte_eq, hrun], ?_, ?_⟩
  · intro x hx
    obtain ⟨y, hy, rfl⟩ := List.mem_map.mp hx
    exact hdir y hy
  · have hmapped : ∀ x : IoCopy,
        (x.mapped base).bytes = x.bytes.map fun b => (u64 (base + b.1), b.2) := by
      intro x
      simp only [IoCopy.bytes, IoCopy.mapped, List.map_map]
      apply List.map_congr_left
      intro i _
      simp only [Function.comp_apply, u64_u64_add, u64_add_u64, Nat.add_assoc]
    rw [List.flatMap_map]
    simp only [hmapped]
    rw [← List.map_flatMap, hbytes, lay_eq, total_segments _ hfetch, List.map_map, List.map_map,
      bytePairs]
    apply List.map_congr_left
    intro i _
    simp only [Function.comp_apply, u64Pair, u64_add_u64, Nat.add_assoc]

/-- `__do_perform_io_using_dma`. -/
theorem doPerformIoUsingDma_pairs (hrw : cmd.IsRw) (hfetch : fetchPrps host cmd = .ok prps)
    (hcount : prps.length ≤ 512) (haligned : ∀ q ∈ prps.tail, q % pageSize = 0) :
    ∃ copies, doPerformIoUsingDma host cmd = .ok copies ∧
      (∀ x ∈ copies, x.toStorage = cmd.writes) ∧
      copies.flatMap IoCopy.bytes = bytePairs cmd 0 (place (segments id cmd.ioSize prps)) := by
  have htotal := total_segments id hfetch
  have hfuel : prps.length < cmd.ioSize + 1 := Nat.lt_succ_of_le (length_prps_le hfetch)
  obtain ⟨copies, hrun, hdir, hbytes⟩ :=
    @dmaLoop_eq cmd prps (cmd.ioSize + 1) (cmd.slba * lbaSize) cmd.ioSize hrw haligned htotal hfuel
  refine ⟨copies, ?_, hdir, ?_⟩
  · rw [doPerformIoUsingDma, hfetch, ok_bind, require_pos hcount, ok_bind, lbaToByte_eq, hrun]
  · rw [hbytes, lay_eq, htotal, List.map_map, bytePairs]
    apply List.map_congr_left
    intro i _
    simp only [Function.comp_apply, u64Pair, Nat.zero_add]

/-- The PRPs of a command, at most 512 and each but the first one the start of a page. -/
structure PagePrps (host : HostMemory) (cmd : NvmeSqe) (prps : List Nat) : Prop where
  fetched : fetchPrps host cmd = .ok prps
  count : prps.length ≤ 512
  aligned : ∀ q ∈ prps.tail, q % pageSize = 0

/-- The PRPs begin with PRP1. -/
theorem fetchPrps_head (hfetch : fetchPrps host cmd = .ok prps) :
    ∃ rest, prps = cmd.prp1 :: rest := by
  have hsize := cmd.ioSize_pos
  have hfirst : PrpCursor.start.next host cmd cmd.ioSize = .ok (cmd.prp1, ⟨1, 0, none⟩) := rfl
  rw [fetchPrps, prpLoop, if_neg (by omega), hfirst, ok_bind] at hfetch
  obtain ⟨rest, -, hfetch⟩ := bind_eq_ok.mp hfetch
  cases hfetch
  exact ⟨rest, rfl⟩

/-- The two maps of the PRPs agree on every byte when they agree on PRP1. -/
theorem segments_eq (h : PagePrps host cmd prps) (hcopy : host.copyAt cmd.prp1 = cmd.prp1) :
    segments host.copyAt r prps = segments id r prps := by
  obtain ⟨rest, rfl⟩ := fetchPrps_head h.fetched
  have hrest : ∀ q ∈ rest, host.copyAt q = q := fun q hq =>
    copyAt_of_aligned host (h.aligned q hq)
  have hall : ∀ q ∈ cmd.prp1 :: rest, host.copyAt q = q := List.forall_mem_cons.mpr ⟨hcopy, hrest⟩
  clear h hrest
  generalize cmd.prp1 :: rest = l at hall ⊢
  induction l generalizing r with
  | nil => rfl
  | cons q l ih =>
    obtain ⟨hq, hl⟩ := List.forall_mem_cons.mp hall
    rw [segments, segments, hq, ih hl]
    rfl

/-- Both paths carry a command out in its direction, transfer the same bytes of the storage to or
from the same bytes of the host, and each byte of the storage once. -/
def DmaAgrees (host : HostMemory) (base : Nat) (cmd : NvmeSqe) : Prop :=
  ∃ copies dma, doPerformIo host cmd = .ok copies ∧ doPerformIoUsingDma host cmd = .ok dma ∧
    (∀ x ∈ dma ++ copies, x.toStorage = cmd.writes) ∧
    (∀ b, b ∈ dma.flatMap IoCopy.bytes ↔
      b ∈ (copies.map (IoCopy.mapped base)).flatMap IoCopy.bytes) ∧
    ((dma.flatMap IoCopy.bytes).map Prod.fst).Nodup ∧
    (((copies.map (IoCopy.mapped base)).flatMap IoCopy.bytes).map Prod.fst).Nodup

theorem bytePairs_nodup (cmd : NvmeSqe) (base : Nat) (addr : Nat → Nat) :
    ((bytePairs cmd base addr).map Prod.fst).Nodup := by
  have hsize := cmd.ioSize_le
  rw [bytePairs, List.map_map]
  apply List.Nodup.map_on _ List.nodup_range
  intro i hi j hj heq
  have hi := List.mem_range.mp hi
  have hj := List.mem_range.mp hj
  simp only [Function.comp_apply, u64] at heq
  omega

/-- The bytes are the same when the namespace begins at the start of the storage and every address is
the same. -/
theorem bytePairs_iff {a b : Nat → Nat} (hbase : base < 2 ^ 64) :
    (∀ x, x ∈ bytePairs cmd 0 b ↔ x ∈ bytePairs cmd base a) ↔
      base = 0 ∧ ∀ i < cmd.ioSize, u64 (b i) = u64 (a i) := by
  have hpos := cmd.ioSize_pos
  have hsize := cmd.ioSize_le
  have hinj : ∀ i < cmd.ioSize, ∀ j < cmd.ioSize,
      u64 (0 + cmd.slba * lbaSize + i) = u64 (0 + cmd.slba * lbaSize + j) → i = j := by
    intro i hi j hj heq
    simp only [u64] at heq
    omega
  constructor
  · intro hsame
    have hzero : base = 0 := by
      have hmem : ∀ base addr, (u64 (base + cmd.slba * lbaSize + 0), u64 (addr 0)) ∈
          bytePairs cmd base addr := fun base addr =>
        List.mem_map.mpr ⟨0, List.mem_range.mpr hpos, rfl⟩
      obtain ⟨j, hj, hstart⟩ := List.mem_map.mp ((hsame _).mpr (hmem base a))
      obtain ⟨k, hk, hstart'⟩ := List.mem_map.mp ((hsame _).mp (hmem 0 b))
      have hj := List.mem_range.mp hj
      have hk := List.mem_range.mp hk
      have hfst := (Prod.mk.inj hstart).1
      have hfst' := (Prod.mk.inj hstart').1
      simp only [u64] at hfst hfst'
      omega
    subst hzero
    exact ⟨rfl, (pairs_iff hinj).mp hsame⟩
  · rintro ⟨rfl, hall⟩
    exact (pairs_iff hinj).mpr hall

/-- For every namespace and every pattern of pages the two paths agree exactly when the namespace
begins at the start of the storage, and PRP1 is the start of a page or has a valid page frame. -/
theorem dma_agrees_iff (hrw : cmd.IsRw) (hprps : PagePrps host cmd prps) (capacities : List Nat)
    {storageSize : Nat} (hstorage : storageSize < 2 ^ 64) :
    DmaAgrees host (nsMapped capacities storageSize (cmd.nsid - 1)) cmd ↔
      nsMapped capacities storageSize (cmd.nsid - 1) = 0 ∧
        (cmd.prp1 % pageSize = 0 ∨ host.pfnValid (cmd.prp1 / pageSize) = true) := by
  have hbase := (nsMapped_le capacities storageSize (cmd.nsid - 1)).trans_lt hstorage
  generalize nsMapped capacities storageSize (cmd.nsid - 1) = base at hbase ⊢
  obtain ⟨copies, hrun, hdir, hpairs⟩ := doPerformIo_pairs hrw hprps.fetched base
  obtain ⟨dma, hrun', hdir', hpairs'⟩ :=
    doPerformIoUsingDma_pairs hrw hprps.fetched hprps.count hprps.aligned
  have hpos := cmd.ioSize_pos
  constructor
  · rintro ⟨copies', dma', hc, hd, -, hsame, -, -⟩
    cases hrun.symm.trans hc
    cases hrun'.symm.trans hd
    rw [hpairs, hpairs'] at hsame
    obtain ⟨hzero, hall⟩ := (bytePairs_iff hbase).mp hsame
    refine ⟨hzero, ?_⟩
    have hfirst := hall 0 hpos
    obtain ⟨rest, rfl⟩ := fetchPrps_head hprps.fetched
    have hcut : 0 < ioSizeAt cmd.prp1 cmd.ioSize := ioSizeAt_pos hpos
    rw [segments, segments, place, place, if_pos hcut, if_pos hcut] at hfirst
    exact (u64_copyAt_eq_iff ..).mp hfirst.symm
  · rintro ⟨rfl, hcopy⟩
    have hsegments := @segments_eq host cmd prps cmd.ioSize hprps ((copyAt_eq_iff ..).mpr hcopy)
    refine ⟨copies, dma, hrun, hrun', ?_, ?_, ?_, ?_⟩
    · intro x hx
      rcases List.mem_append.mp hx with hx | hx
      · exact hdir' x hx
      · exact hdir (x.mapped 0) (List.mem_map.mpr ⟨x, hx, rfl⟩)
    · rw [hpairs, hpairs', hsegments]
      simp
    · rw [hpairs']
      exact bytePairs_nodup ..
    · rw [hpairs]
      exact bytePairs_nodup ..

/-- A read of three pages, the last two of which follow each other. -/
def threePages (nsid : Nat) : NvmeSqe where
  opcode := 0x02
  commandId := 0
  nsid := nsid
  prp1 := 0x1000
  prp2 := 0x8000
  cdw10 := 0
  cdw11 := 0
  cdw12 := 23

/-- Its list. -/
def threePagesHost : HostMemory where
  pfnValid := fun _ => true
  word := fun a => if a = 0x8000 then 0x5000 else 0x6000

/-- In the first namespace the pages are copied alike. -/
theorem dma_agrees_first :
    DmaAgrees threePagesHost (nsMapped [0] (2 ^ 30) ((threePages 1).nsid - 1)) (threePages 1) ↔
      nsMapped [0] (2 ^ 30) ((threePages 1).nsid - 1) = 0 ∧
        ((threePages 1).prp1 % pageSize = 0 ∨
          threePagesHost.pfnValid ((threePages 1).prp1 / pageSize) = true) := by
  have hprps : PagePrps threePagesHost (threePages 1) [0x1000, 0x5000, 0x6000] :=
    ⟨by decide +kernel, by decide, by decide⟩
  exact dma_agrees_iff (Or.inr (by decide)) hprps [0] (by decide)

/-- A read of the second namespace, behind a first one of 1 MiB: DMA reads from the first. -/
theorem dma_reads_first_namespace :
    nsMapped [2 ^ 20, 0] (2 ^ 30) 1 = 2 ^ 20 ∧
    (doPerformIo threePagesHost (threePages 2)).map (List.map (IoCopy.mapped (2 ^ 20))) =
      .ok [⟨false, 2 ^ 20, 0x1000, 4096⟩, ⟨false, 2 ^ 20 + 4096, 0x5000, 4096⟩,
        ⟨false, 2 ^ 20 + 8192, 0x6000, 4096⟩] ∧
    doPerformIoUsingDma threePagesHost (threePages 2) =
      .ok [⟨false, 0, 0x1000, 4096⟩, ⟨false, 4096, 0x5000, 8192⟩] ∧
    ¬ DmaAgrees threePagesHost (nsMapped [2 ^ 20, 0] (2 ^ 30) 1) (threePages 2) := by
  have hcopies : doPerformIo threePagesHost (threePages 2) =
      .ok [⟨false, 0, 0x1000, 4096⟩, ⟨false, 4096, 0x5000, 4096⟩, ⟨false, 8192, 0x6000, 4096⟩] := by
    decide +kernel
  have hdma : doPerformIoUsingDma threePagesHost (threePages 2) =
      .ok [⟨false, 0, 0x1000, 4096⟩, ⟨false, 4096, 0x5000, 8192⟩] := by
    decide +kernel
  refine ⟨rfl, by rw [hcopies]; rfl, hdma, ?_⟩
  rintro ⟨copies, dma, hc, hd, -, hsame, -, -⟩
  cases hcopies.symm.trans hc
  cases hdma.symm.trans hd
  -- byte 0 of the storage is in the first namespace
  have hmem : (0, 0x1000) ∈ IoCopy.bytes ⟨false, 0, 0x1000, 4096⟩ :=
    List.mem_map.mpr ⟨0, by simp, rfl⟩
  obtain ⟨x, hx, hbyte⟩ := List.mem_flatMap.mp
    ((hsame _).mp (List.mem_flatMap.mpr ⟨_, List.mem_cons_self, hmem⟩))
  obtain ⟨i, hi, heq⟩ := List.mem_map.mp hbyte
  obtain ⟨y, hy, rfl⟩ := List.mem_map.mp hx
  have hsize := List.mem_range.mp hi
  have hstorage : u64 (u64 (2 ^ 20 + y.storage) + i) = 0 := (Prod.mk.inj heq).1
  simp only [List.mem_cons, List.not_mem_nil, or_false] at hy
  rcases hy with rfl | rfl | rfl
  all_goals
    simp only [u64, IoCopy.mapped] at hstorage hsize
    omega

end NvmeVirt
