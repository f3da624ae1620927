import NvmeVirt.Conv.Transfers
import NvmeVirt.Library.Runs

/-!
# What a read covers

`conv_read` visits the logical pages of one instance after the other. It joins pages that follow each
other and lie in one flash page, whatever is not mapped in between, and issues one command for each
such run. So the commands cover every mapped page of the range once.
-/

namespace NvmeVirt

open Checked Runs

variable {g : Geometry} {spp : Ssdparams} {f f' : ConvFtl} {ns : ConvNs} {srd : NandCmd} {s : ReadState}

/-! ## Commands in a row -/

/-- Commands that an instance performs one after the other, with their completion times. -/
def ConvFtl.advanceAll (f : ConvFtl) : List NandCmd → List Nat × ConvFtl
  | [] => ([], f)
  | c :: cs =>
    let r := f.advanceNand c
    let rs := r.2.advanceAll cs
    (r.1 :: rs.1, rs.2)

/-- The same for lists of commands of several instances. -/
def ConvNs.advanceAll (ns : ConvNs) : List (Nat × List NandCmd) → List Nat × ConvNs
  | [] => ([], ns)
  | (part, cs) :: plan =>
    let r := (ns.ftls part).advanceAll cs
    let rs := (ns.setFtl part r.2).advanceAll plan
    (r.1 ++ rs.1, rs.2)

/-! ## The pages of a read -/

/-- Two logical pages lie in one flash page. -/
def samePage (spp : Ssdparams) (x y : Nat × Ppa) : Bool := isSameFlashPage spp x.2 y.2

/-- The command that reads a run of pages. -/
def readCommand (spp : Ssdparams) (srd : NandCmd) (run : List (Nat × Ppa)) : NandCmd :=
  { srd with xferSize := spp.pgsz * run.length, ppa := run.head?.map Prod.snd }

/-- A logical page with the page that it is mapped to. -/
def ConvFtl.mapped (f : ConvFtl) (nrParts lpn : Nat) : Option (Nat × Ppa) :=
  (f.getMaptblEnt (lpn / nrParts)).map fun p => (lpn, p)

/-- The mapped pages of a read that belong to the instance `part`. -/
def ConvNs.mappedPages (ns : ConvNs) (c : RwCommand) (part : Nat) : List (Nat × Ppa) :=
  ((c.lpns ns.spp).filter fun lpn => lpn % ns.nrParts = part).filterMap
    ((ns.ftls part).mapped ns.nrParts)

namespace ReadState

/-- The body of the inner loop for a mapped page. -/
def join (srd : NandCmd) (s : ReadState) (x : Nat × Ppa) : ReadState :=
  let spp := s.ftl.ssd.sp
  if s.prevPpa.any (isSameFlashPage spp x.2) then { s with xferSize := s.xferSize + spp.pgsz }
  else { s.issue srd with xferSize := spp.pgsz, prevPpa := some x.2 }

/-- The loop has changed nothing but timing. -/
structure Of (f : ConvFtl) (s : ReadState) : Prop where
  sp : s.ftl.ssd.sp = f.ssd.sp
  maptbl : s.ftl.maptbl = f.maptbl
  validPpa : s.ftl.validPpa = f.validPpa

theorem Of.issue (h : s.Of f) (srd : NandCmd) : (s.issue srd).Of f := by
  unfold ReadState.issue
  split
  · exact ⟨h.sp, h.maptbl, h.validPpa⟩
  · exact h

theorem Of.join (h : s.Of f) (srd : NandCmd) (x : Nat × Ppa) : (s.join srd x).Of f := by
  unfold ReadState.join
  dsimp only
  split
  · exact ⟨h.sp, h.maptbl, h.validPpa⟩
  · have hissue := h.issue srd
    exact ⟨hissue.sp, hissue.maptbl, hissue.validPpa⟩

/-- The body of the inner loop passes over pages that are not mapped. -/
theorem Of.step_eq (h : s.Of f) (hvalid : ∀ lpn p, f.maptbl lpn = some p → f.validPpa p = true)
    (nrParts lpn : Nat) : ReadState.step nrParts srd s lpn =
      ((f.mapped nrParts lpn).map (s.join srd)).getD s := by
  unfold ReadState.step ConvFtl.mapped ConvFtl.getMaptblEnt
  rw [h.maptbl, h.validPpa]
  cases hp : f.maptbl (lpn / nrParts) with
  | none => rfl
  | some p =>
    simp only [hvalid _ p hp, Bool.not_true, Bool.false_eq_true, if_false]
    rfl

/-- The inner loop runs over the mapped pages. -/
theorem Of.foldl_step (h : s.Of f) (hvalid : ∀ lpn p, f.maptbl lpn = some p → f.validPpa p = true)
    (nrParts : Nat) (lpns : List Nat) : lpns.foldl (ReadState.step nrParts srd) s =
      (lpns.filterMap (f.mapped nrParts)).foldl (ReadState.join srd) s := by
  induction lpns generalizing s with
  | nil => rfl
  | cons lpn lpns ih =>
    rw [List.foldl_cons, h.step_eq hvalid, List.filterMap_cons]
    cases f.mapped nrParts lpn with
    | none => exact ih h
    | some x => exact ih (h.join srd x)

/-- The command of an open run. -/
theorem issue_open (hpgsz : 0 < spp.pgsz) {a : Nat × Ppa} {joined : List (Nat × Ppa)}
    (hsize : s.xferSize = spp.pgsz * (joined.length + 1)) (hprev : s.prevPpa = some a.2) :
    s.issue srd =
      { s with
        ftl := (s.ftl.advanceNand (readCommand spp srd (a :: joined))).2
        nsecsLatest := max (s.ftl.advanceNand (readCommand spp srd (a :: joined))).1
          s.nsecsLatest } := by
  have hpos : 0 < s.xferSize := by
    rw [hsize]
    exact Nat.mul_pos hpgsz (Nat.succ_pos _)
  rw [issue, if_pos hpos, hsize, hprev]
  rfl

/-- The rest of the inner loop and the last command, when the run of `a` is open. -/
theorem join_runs (hpgsz : 0 < spp.pgsz) (a : Nat × Ppa) (joined l : List (Nat × Ppa))
    (hsp : s.ftl.ssd.sp = spp) (hsize : s.xferSize = spp.pgsz * (joined.length + 1))
    (hprev : s.prevPpa = some a.2) :
    let r := s.ftl.advanceAll ((runsFrom (samePage spp) a joined l).map (readCommand spp srd))
    ((l.foldl (join srd) s).issue srd).ftl = r.2 ∧
      ((l.foldl (join srd) s).issue srd).nsecsLatest = r.1.foldl max s.nsecsLatest := by
  induction l generalizing s a joined with
  | nil =>
    rw [List.foldl_nil, issue_open hpgsz hsize hprev]
    exact ⟨rfl, max_comm ..⟩
  | cons x l ih =>
    have hany : s.prevPpa.any (isSameFlashPage spp x.2) = samePage spp x a := by
      rw [hprev]
      rfl
    rw [List.foldl_cons, runsFrom]
    by_cases hx : samePage spp x a = true
    · have hjoin : s.join srd x = { s with xferSize := s.xferSize + spp.pgsz } := by
        rw [join, hsp, hany, if_pos hx]
      rw [if_pos hx, hjoin]
      have hsize' : s.xferSize + spp.pgsz = spp.pgsz * ((joined ++ [x]).length + 1) := by
        rw [hsize, List.length_append, List.length_singleton]
        ring
      exact @ih { s with xferSize := s.xferSize + spp.pgsz } a (joined ++ [x]) hsp hsize' hprev
    · have hjoin : s.join srd x = { s.issue srd with xferSize := spp.pgsz, prevPpa := some x.2 } := by
        rw [join, hsp, hany, if_neg hx]
      rw [if_neg hx, hjoin, issue_open hpgsz hsize hprev]
      have hrest := @ih { s with
          ftl := (s.ftl.advanceNand (readCommand spp srd (a :: joined))).2
          xferSize := spp.pgsz
          prevPpa := some x.2
          nsecsLatest := max (s.ftl.advanceNand (readCommand spp srd (a :: joined))).1
            s.nsecsLatest } x [] hsp (by simp) rfl
      refine ⟨hrest.1, hrest.2.trans ?_⟩
      rw [max_comm]
      rfl

/-- One inner loop with its last command, from the first page of the instance. -/
theorem loop_runs (hpgsz : 0 < spp.pgsz) (l : List (Nat × Ppa)) (hsp : f.ssd.sp = spp)
    {prev : Option Ppa} (hprev : ∀ p, prev = some p → ∃ x rest, l = x :: rest ∧ x.2 = p)
    (latest : Nat) :
    let s : ReadState := { ftl := f, xferSize := 0, prevPpa := prev, nsecsLatest := latest }
    let r := f.advanceAll ((runs (samePage spp) l).map (readCommand spp srd))
    ((l.foldl (join srd) s).issue srd).ftl = r.2 ∧
      ((l.foldl (join srd) s).issue srd).nsecsLatest = r.1.foldl max latest := by
  intro s r
  cases l with
  | nil => exact ⟨rfl, rfl⟩
  | cons x l =>
    have hjoin : s.join srd x = { s with xferSize := spp.pgsz, prevPpa := some x.2 } := by
      rw [join]
      dsimp only
      cases prev with
      | none =>
        rw [hsp]
        rfl
      | some p =>
        obtain ⟨y, rest, hy, rfl⟩ := hprev p rfl
        obtain ⟨rfl, -⟩ := List.cons.inj hy
        have hself : (some x.2).any (isSameFlashPage f.ssd.sp x.2) = true := by
          simp [isSameFlashPage]
        rw [if_pos hself, hsp, Nat.zero_add]
    rw [List.foldl_cons, hjoin]
    exact @join_runs spp srd { s with xferSize := spp.pgsz, prevPpa := some x.2 } hpgsz x [] l hsp
      (by simp) rfl

end ReadState

/-! ## The pages of one instance -/

/-- The logical pages that the inner loop visits are those of its instance. -/
theorem range'_step_eq {start last n i : Nat} (hn : i < n) (hi : start + i ≤ last) :
    List.range' (start + i) ((last - (start + i)) / n + 1) n =
      (List.range' start (last + 1 - start)).filter fun lpn => lpn % n = (start + i) % n := by
  have hpos : 0 < n := by omega
  apply (List.pairwise_lt_range' n hpos).eq_of_mem_iff ((List.pairwise_lt_range' 1).filter _)
  intro lpn
  rw [List.mem_range', List.mem_filter, List.mem_range'_1, decide_eq_true_eq]
  constructor
  · rintro ⟨k, hk, rfl⟩
    have hmul : n * k ≤ last - (start + i) := by
      have hle := Nat.mul_le_mul_left n (Nat.le_of_lt_succ hk)
      exact hle.trans (Nat.mul_div_le ..)
    refine ⟨⟨by omega, by omega⟩, ?_⟩
    rw [Nat.add_mul_mod_self_left]
  · rintro ⟨⟨hlow, hup⟩, hmod⟩
    -- A page of the same instance that does not lie behind `start + i` lies before `start`.
    have hge : start + i ≤ lpn := by
      by_contra hlt
      have hdvd := Nat.dvd_of_mod_eq_zero (Nat.sub_mod_eq_zero_of_mod_eq hmod.symm)
      have hle := Nat.le_of_dvd (by omega) hdvd
      omega
    have hdvd := Nat.dvd_of_mod_eq_zero (Nat.sub_mod_eq_zero_of_mod_eq hmod)
    obtain ⟨k, hk⟩ := hdvd
    refine ⟨k, ?_, by omega⟩
    apply Nat.lt_succ_of_le
    rw [Nat.le_div_iff_mul_le hpos, Nat.mul_comm]
    omega

namespace ConvNs

/-- One iteration of the outer loop. -/
theorem readPart_eq (hpgsz : 0 < ns.spp.pgsz) {c : RwCommand} {i : Nat} (hi : i < ns.nrParts)
    (hle : c.startLpn ns.spp + i ≤ c.endLpn ns.spp)
    (hsp : (ns.ftls ((c.startLpn ns.spp + i) % ns.nrParts)).ssd.sp = ns.spp)
    (hvalid : ∀ lpn p, (ns.ftls ((c.startLpn ns.spp + i) % ns.nrParts)).maptbl lpn = some p →
      (ns.ftls ((c.startLpn ns.spp + i) % ns.nrParts)).validPpa p = true) (latest : Nat) :
    let part := (c.startLpn ns.spp + i) % ns.nrParts
    let r := (ns.ftls part).advanceAll
      ((runs (samePage ns.spp) (ns.mappedPages c part)).map (readCommand ns.spp srd))
    readPart (c.startLpn ns.spp) (c.endLpn ns.spp) srd (latest, ns) i =
      (r.1.foldl max latest, ns.setFtl part r.2) := by
  intro part r
  -- The first page that the loop visits is the one whose entry it starts with.
  have hfirst : ∀ p, (ns.ftls part).getMaptblEnt ((c.startLpn ns.spp + i) / ns.nrParts) = some p →
      ∃ x rest, ns.mappedPages c part = x :: rest ∧ x.2 = p := by
    intro p hp
    rw [mappedPages, RwCommand.lpns, ← range'_step_eq hi hle, List.range'_succ,
      List.filterMap_cons, ConvFtl.mapped, hp]
    exact ⟨_, _, rfl, rfl⟩
  have hloop := @ReadState.loop_runs ns.spp (ns.ftls part) srd hpgsz (ns.mappedPages c part) hsp _
    hfirst latest
  unfold readPart
  dsimp only
  rw [if_pos hle, ReadState.Of.foldl_step ⟨rfl, rfl, rfl⟩ hvalid, range'_step_eq hi hle]
  exact Prod.ext hloop.2 (congrArg (ns.setFtl part) hloop.1)

/-- The runs of the pages of one instance. -/
def readRuns (ns : ConvNs) (c : RwCommand) (part : Nat) : List (List (Nat × Ppa)) :=
  runs (samePage ns.spp) (ns.mappedPages c part)

/-- The commands of the first `k` iterations. -/
def readPlan (ns : ConvNs) (srd : NandCmd) (c : RwCommand) (k : Nat) : List (Nat × List NandCmd) :=
  (List.range (min k (c.endLpn ns.spp + 1 - c.startLpn ns.spp))).map fun i =>
    let part := (c.startLpn ns.spp + i) % ns.nrParts
    (part, (ns.readRuns c part).map (readCommand ns.spp srd))

/-- The command that `conv_read` prepares. -/
def readSrd (ns : ConvNs) (req : NvmevRequest) (c : RwCommand) : NandCmd :=
  { type := .user
    cmd := .read
    stime := u64 (req.nsecsStart +
      if c.bytes ≤ kb 4 * ns.nrParts then ns.spp.fw4kbRdLat else ns.spp.fwRdLat)
    xferSize := 0
    interleavePciDma := true
    ppa := none }

theorem advanceAll_append (ns : ConvNs) (plan plan' : List (Nat × List NandCmd)) :
    ns.advanceAll (plan ++ plan') =
      ((ns.advanceAll plan).1 ++ ((ns.advanceAll plan).2.advanceAll plan').1,
        ((ns.advanceAll plan).2.advanceAll plan').2) := by
  induction plan generalizing ns with
  | nil => rfl
  | cons a plan ih =>
    simp only [List.cons_append, advanceAll, ih, List.append_assoc]

theorem readPlan_succ (ns : ConvNs) (srd : NandCmd) (c : RwCommand) (k : Nat) :
    ns.readPlan srd c (k + 1) = ns.readPlan srd c k ++
      if c.startLpn ns.spp + k ≤ c.endLpn ns.spp then
        [((c.startLpn ns.spp + k) % ns.nrParts,
          (ns.readRuns c ((c.startLpn ns.spp + k) % ns.nrParts)).map (readCommand ns.spp srd))]
      else [] := by
  unfold readPlan
  split_ifs with hk
  · rw [Nat.min_eq_left (by omega), Nat.min_eq_left (by omega), List.range_succ, List.map_append]
    rfl
  · rw [Nat.min_eq_right (by omega), Nat.min_eq_right (by omega), List.append_nil]

/-- The instances have the parameters of the namespace and map to pages that exist. -/
def Readable (ns : ConvNs) : Prop :=
  0 < ns.spp.pgsz ∧ ∀ i < ns.nrParts, (ns.ftls i).ssd.sp = ns.spp ∧
    ∀ lpn p, (ns.ftls i).maptbl lpn = some p → (ns.ftls i).validPpa p = true

theorem Quiet.spp_eq {ns' : ConvNs} (h : ns.Quiet ns') : ns'.spp = ns.spp := by
  obtain ⟨π, hπ, -⟩ := h.inst 0
  rw [spp, hπ]
  rfl

theorem Quiet.readRuns_eq {ns' : ConvNs} (h : ns.Quiet ns') (c : RwCommand) (part : Nat) :
    ns'.readRuns c part = ns.readRuns c part := by
  obtain ⟨π, hπ, -⟩ := h.inst part
  rw [readRuns, mappedPages, h.spp_eq, h.nrParts, hπ]
  rfl

theorem Quiet.readable {ns' : ConvNs} (h : ns.Quiet ns') (hns : ns.Readable) : ns'.Readable := by
  refine ⟨by rw [h.spp_eq]; exact hns.1, fun i hi => ?_⟩
  rw [h.nrParts] at hi
  obtain ⟨π, hπ, -⟩ := h.inst i
  rw [hπ, h.spp_eq]
  exact hns.2 i hi

/-- The outer loop performs the plan. -/
theorem Readable.foldl_readPart (h : ns.Readable) (hsrd : srd.cmd ≠ .write) (c : RwCommand)
    (latest : Nat) {k : Nat} (hk : k ≤ ns.nrParts) :
    (List.range k).foldl (readPart (c.startLpn ns.spp) (c.endLpn ns.spp) srd) (latest, ns) =
      ((ns.advanceAll (ns.readPlan srd c k)).1.foldl max latest,
        (ns.advanceAll (ns.readPlan srd c k)).2) := by
  induction k with
  | zero =>
    rw [readPlan, Nat.zero_min]
    rfl
  | succ k ih =>
    have hih := ih (by omega)
    -- What has been read so far has changed nothing but timing.
    have hquiet : ns.Quiet (ns.advanceAll (ns.readPlan srd c k)).2 := by
      have hloop := quiet_foldl (quiet_readPart hsrd (c.startLpn ns.spp) (c.endLpn ns.spp))
        (List.range k) (latest, ns)
      rwa [hih] at hloop
    rw [List.range_succ, List.foldl_append, hih, readPlan_succ, List.foldl_cons, List.foldl_nil,
      advanceAll_append]
    generalize ns.advanceAll (ns.readPlan srd c k) = r at hquiet ⊢
    have hread := hquiet.readable h
    split_ifs with hle
    · have hk' : k < r.2.nrParts := by
        rw [hquiet.nrParts]
        omega
      rw [← hquiet.spp_eq] at hle
      have hpart := hread.2 _ (Nat.mod_lt (c.startLpn r.2.spp + k) (by omega))
      have hstep := @readPart_eq r.2 srd hread.1 c k hk' hle hpart.1 hpart.2
        (r.1.foldl max latest)
      have hruns := hquiet.readRuns_eq c ((c.startLpn ns.spp + k) % ns.nrParts)
      unfold readRuns at hruns
      rw [hquiet.spp_eq, hquiet.nrParts] at hstep
      rw [hquiet.spp_eq] at hruns
      rw [hstep, hruns, List.foldl_append]
      simp only [advanceAll, List.append_nil]
      rfl
    · have hskip : readPart (c.startLpn ns.spp) (c.endLpn ns.spp) srd (r.1.foldl max latest, r.2) k =
          (r.1.foldl max latest, r.2) := if_neg hle
      rw [hskip]
      simp only [advanceAll, List.append_nil]

/-- `conv_read` performs its plan. -/
theorem Readable.convRead_eq (h : ns.Readable) (req : NvmevRequest) {c : RwCommand}
    (hrange : c.endLpn ns.spp / ns.nrParts < ns.spp.ttPgs) :
    ns.convRead req c =
      (some ((ns.advanceAll (ns.readPlan (ns.readSrd req c) c ns.nrParts)).1.foldl max
        req.nsecsStart), (ns.advanceAll (ns.readPlan (ns.readSrd req c) c ns.nrParts)).2) := by
  have hsrd : (ns.readSrd req c).cmd ≠ .write := by simp [readSrd]
  have hloop := h.foldl_readPart hsrd c req.nsecsStart (le_refl _)
  unfold convRead
  dsimp only
  rw [if_neg (Nat.not_le.mpr hrange)]
  change (some ((List.range ns.nrParts).foldl (readPart (c.startLpn ns.spp) (c.endLpn ns.spp)
    (ns.readSrd req c)) (req.nsecsStart, ns)).1, ((List.range ns.nrParts).foldl
      (readPart (c.startLpn ns.spp) (c.endLpn ns.spp) (ns.readSrd req c)) (req.nsecsStart, ns)).2) = _
  rw [hloop]

/-! ## The record of the commands -/

theorem advanceAll_issued (f : ConvFtl) (cs : List NandCmd) :
    (f.advanceAll cs).2.ssd.perf.issued = f.ssd.perf.issued ++ cs := by
  induction cs generalizing f with
  | nil => simp [ConvFtl.advanceAll]
  | cons c cs ih =>
    have hstep : (f.advanceNand c).2.ssd.perf.issued = f.ssd.perf.issued ++ [c] :=
      ssdAdvanceNand_issued ..
    simp only [ConvFtl.advanceAll, ih, hstep, List.append_assoc, List.singleton_append]

/-- Every instance records the commands that a plan has for it. -/
theorem advanceAll_issued_part (ns : ConvNs) (plan : List (Nat × List NandCmd)) (part : Nat) :
    ((ns.advanceAll plan).2.ftls part).ssd.perf.issued = (ns.ftls part).ssd.perf.issued ++
      (plan.filter fun a => a.1 = part).flatMap Prod.snd := by
  induction plan generalizing ns with
  | nil => simp [advanceAll]
  | cons a plan ih =>
    have hset : ((ns.setFtl a.1 ((ns.ftls a.1).advanceAll a.2).2).ftls part).ssd.perf.issued =
        (ns.ftls part).ssd.perf.issued ++ if a.1 = part then a.2 else [] := by
      unfold setFtl
      dsimp only
      by_cases hpart : part = a.1
      · subst hpart
        rw [if_pos rfl, if_pos rfl, advanceAll_issued]
      · rw [if_neg hpart, if_neg (Ne.symm hpart), List.append_nil]
        rfl
    simp only [advanceAll, ih, hset, List.filter_cons, List.append_assoc]
    by_cases hpart : a.1 = part <;> simp [hpart]

/-- Different iterations visit different instances. -/
theorem part_inj {start n i j : Nat} (hi : i < n) (hj : j < n)
    (h : (start + i) % n = (start + j) % n) : i = j := by
  wlog hle : i ≤ j generalizing i j
  · exact (this hj hi h.symm (by omega)).symm
  have hdvd := Nat.dvd_of_mod_eq_zero (Nat.sub_mod_eq_zero_of_mod_eq h.symm)
  have hzero := Nat.eq_zero_of_dvd_of_lt hdvd (by omega)
  omega

/-- Every instance with a page in the range is visited once. -/
theorem filter_readPlan (hparts : 0 < ns.nrParts) (srd : NandCmd) (c : RwCommand) (part : Nat) :
    ((ns.readPlan srd c ns.nrParts).filter fun a => a.1 = part).flatMap Prod.snd =
      (ns.readRuns c part).map (readCommand ns.spp srd) := by
  unfold readPlan
  rw [List.filter_map, List.flatMap_map]
  by_cases hvisit : ∃ i < min ns.nrParts (c.endLpn ns.spp + 1 - c.startLpn ns.spp),
      (c.startLpn ns.spp + i) % ns.nrParts = part
  · obtain ⟨i, hi, rfl⟩ := hvisit
    have hfilter : (List.range (min ns.nrParts (c.endLpn ns.spp + 1 - c.startLpn ns.spp))).filter
        (fun j => (c.startLpn ns.spp + j) % ns.nrParts = (c.startLpn ns.spp + i) % ns.nrParts) =
          [i] := by
      apply (List.pairwise_lt_range.filter _).eq_of_mem_iff (List.pairwise_singleton _ i)
      intro j
      rw [List.mem_filter, List.mem_range, decide_eq_true_eq, List.mem_singleton]
      constructor
      · rintro ⟨hj, hmod⟩
        exact part_inj (by omega) (by omega) hmod
      · rintro rfl
        exact ⟨hi, rfl⟩
    change (List.filter (fun j => decide ((c.startLpn ns.spp + j) % ns.nrParts = _)) _).flatMap _ = _
    rw [hfilter]
    simp
  · have hnone : ns.mappedPages c part = [] := by
      rw [mappedPages, List.filterMap_eq_nil_iff]
      intro lpn hlpn
      rw [List.mem_filter, RwCommand.lpns, List.mem_range'_1, decide_eq_true_eq] at hlpn
      obtain ⟨⟨hlow, hup⟩, hmod⟩ := hlpn
      have hlt := Nat.mod_lt (lpn - c.startLpn ns.spp) hparts
      have hle := Nat.mod_le (lpn - c.startLpn ns.spp) ns.nrParts
      refine absurd ⟨(lpn - c.startLpn ns.spp) % ns.nrParts, by omega, ?_⟩ hvisit
      rw [Nat.add_mod_mod, Nat.add_sub_cancel' hlow, hmod]
    have hfilter : (List.range (min ns.nrParts (c.endLpn ns.spp + 1 - c.startLpn ns.spp))).filter
        (fun j => (c.startLpn ns.spp + j) % ns.nrParts = part) = [] := by
      rw [List.filter_eq_nil_iff]
      intro j hj hmod
      exact hvisit ⟨j, List.mem_range.mp hj, of_decide_eq_true hmod⟩
    change (List.filter (fun j => decide ((c.startLpn ns.spp + j) % ns.nrParts = _)) _).flatMap _ = _
    rw [hfilter, readRuns, hnone]
    rfl

/-! ## One flash page for each command -/

/-- The mapped pages are those of the logical pages of the range, each once. -/
theorem mem_mappedPages {c : RwCommand} {part : Nat} {x : Nat × Ppa}
    (hx : x ∈ ns.mappedPages c part) : x.1 % ns.nrParts = part ∧
      (ns.ftls part).maptbl (x.1 / ns.nrParts) = some x.2 := by
  obtain ⟨lpn, hlpn, hmap⟩ := List.mem_filterMap.mp hx
  obtain ⟨p, hp, rfl⟩ := Option.map_eq_some_iff.mp hmap
  exact ⟨of_decide_eq_true (List.mem_filter.mp hlpn).2, hp⟩

theorem nodup_mappedPages (ns : ConvNs) (c : RwCommand) (part : Nat) :
    (ns.mappedPages c part).Nodup := by
  apply List.Nodup.filterMap
  · intro lpn lpn' x hx hx'
    obtain ⟨p, -, rfl⟩ := Option.map_eq_some_iff.mp hx
    obtain ⟨p', -, heq⟩ := Option.map_eq_some_iff.mp hx'
    exact (congrArg Prod.fst heq).symm
  · exact (List.nodup_range' 1).filter _

/-- The command reads a run of pages in one flash page. -/
structure ReadsFlashPage (spp : Ssdparams) (run : List (Nat × Ppa)) (cmd : NandCmd) : Prop where
  ppa : ∃ p, cmd.ppa = some p ∧ ∀ x ∈ run, isSameFlashPage spp x.2 p = true
  xferSize : cmd.xferSize = spp.pgsz * run.length
  pos : 0 < run.length
  le : run.length ≤ spp.pgsPerFlashpg

/-- Runs have no more pages than a flash page. -/
theorem readsFlashPage_of_mem {c : RwCommand} {part : Nat} (hflash : 0 < ns.spp.pgsPerFlashpg)
    (hinj : ∀ lpn lpn' p, (ns.ftls part).maptbl lpn = some p →
      (ns.ftls part).maptbl lpn' = some p → lpn = lpn') {run : List (Nat × Ppa)}
    (hrun : run ∈ ns.readRuns c part) (srd : NandCmd) :
    ReadsFlashPage ns.spp run (readCommand ns.spp srd run) := by
  have hsub : run.Sublist (ns.mappedPages c part) := by
    rw [← flatten_runs (samePage ns.spp) (ns.mappedPages c part)]
    exact List.sublist_flatten_of_mem hrun
  obtain ⟨a, joined, rfl, hjoined⟩ := isRun_of_mem_runs hrun
  have hsame : ∀ x ∈ a :: joined, isSameFlashPage ns.spp x.2 a.2 = true := by
    intro x hx
    rcases List.mem_cons.mp hx with rfl | hx
    · simp [isSameFlashPage]
    · exact hjoined x hx
  refine ⟨⟨a.2, rfl, hsame⟩, rfl, Nat.succ_pos _, ?_⟩
  -- Two pages of the run differ in their place in the flash page.
  have hnodup : ((a :: joined).map fun x => x.2.pg % ns.spp.pgsPerFlashpg).Nodup := by
    apply List.Nodup.map_on _ (hsub.nodup (nodup_mappedPages ns c part))
    intro x hx y hy hmod
    have hxa := of_decide_eq_true (hsame x hx)
    have hya := of_decide_eq_true (hsame y hy)
    have hpg : x.2.pg = y.2.pg := by
      rw [← Nat.div_add_mod x.2.pg ns.spp.pgsPerFlashpg, ← Nat.div_add_mod y.2.pg
        ns.spp.pgsPerFlashpg, hmod, hxa.2, hya.2]
    have hppa : x.2 = y.2 := Ppa.ext_addr (hxa.1.trans hya.1.symm) hpg
    obtain ⟨hxpart, hxmap⟩ := mem_mappedPages (hsub.subset hx)
    obtain ⟨hypart, hymap⟩ := mem_mappedPages (hsub.subset hy)
    rw [← hppa] at hymap
    have hdiv := hinj _ _ _ hxmap hymap
    have hlpn : x.1 = y.1 := by
      rw [← Nat.div_add_mod x.1 ns.nrParts, ← Nat.div_add_mod y.1 ns.nrParts, hdiv, hxpart, hypart]
    exact Prod.ext hlpn hppa
  have hrange : ((a :: joined).map fun x => x.2.pg % ns.spp.pgsPerFlashpg) ⊆
      List.range ns.spp.pgsPerFlashpg := by
    intro k hk
    obtain ⟨x, -, rfl⟩ := List.mem_map.mp hk
    exact List.mem_range.mpr (Nat.mod_lt _ hflash)
  have hle := (List.subperm_of_subset hnodup hrange).length_le
  rwa [List.length_map, List.length_range] at hle

/-- What holds of the namespaces of a device with the SLC cache. -/
theorem Each.readable (h : ns.Each (ConvFtl.Recorded g spp)) (hfits : g.Fits spp) : ns.Readable := by
  have hsp : ns.spp = spp := (h.inst 0 h.parts).sp
  refine ⟨?_, fun i hi => ?_⟩
  · rw [hsp, hfits.pgsz]
    decide
  · obtain ⟨⟨cls, w, hidle, -⟩, hspi, -⟩ := h.inst i hi
    refine ⟨hspi.trans hsp.symm, fun lpn p hp => ?_⟩
    obtain ⟨hlive, -⟩ := hidle.maps.inverse.live_of_fwd lpn p hp
    exact (hidle.ok.static.validPpa_iff p).mpr hlive.1

end ConvNs

/-- Every read that is accepted issues one command for each run of mapped pages of its range that
lie in one flash page; the runs of an instance are its mapped pages, each once, and the command is
complete at the latest of all these times. -/
theorem read_covers (cfg : SlcConfig) (mem : ConvMemory) (clock : Clock) (size : Nat)
    (events : List ConvEvent) (ns : ConvNs)
    (h : convRun cfg.toSsdConfig mem clock size events = .ok ns) (req : NvmevRequest)
    (c : RwCommand) (hrange : c.endLpn ns.spp / ns.nrParts < ns.spp.ttPgs) :
    let srd := ns.readSrd req c
    let done := ns.advanceAll (ns.readPlan srd c ns.nrParts)
    ns.convRead req c = (some (done.1.foldl max req.nsecsStart), done.2) ∧
    ∀ part < ns.nrParts,
      (ns.readRuns c part).flatten = ns.mappedPages c part ∧
      (∀ run ∈ ns.readRuns c part,
        ConvNs.ReadsFlashPage ns.spp run (readCommand ns.spp srd run)) ∧
      (done.2.ftls part).ssd.perf.issued = (ns.ftls part).ssd.perf.issued ++
        (ns.readRuns c part).map (readCommand ns.spp srd) := by
  obtain ⟨g, spp, hfits, -, hns⟩ := slcRun_recorded cfg mem clock size events h
  have hsp : ns.spp = spp := (hns.inst 0 hns.parts).sp
  refine ⟨(hns.readable hfits).convRead_eq req hrange, fun part hpart => ⟨?_, ?_, ?_⟩⟩
  · exact flatten_runs ..
  · intro run hrun
    obtain ⟨⟨cls, w, hidle, -⟩, -, -⟩ := hns.inst part hpart
    apply ConvNs.readsFlashPage_of_mem _ _ hrun
    · rw [hsp, hfits.pgsPerFlashpg]
      exact g.pgsPerFlashpg_pos
    · exact fun lpn lpn' p => hidle.maps.inverse.inj
  · rw [ConvNs.advanceAll_issued_part, ConvNs.filter_readPlan hns.parts]

/-- A read of eight pages of the shipped device after these have been written. -/
theorem read_covers_eight : ∃ ns t, convRun samsung970pro default default (mb 3071)
      [.command { sqId := 1, nsecsStart := 0 } (.write { slba := 0, length := 63, fua := false })] =
        .ok ns ∧
    (ns.convRead { sqId := 1, nsecsStart := 0 } { slba := 0, length := 63, fua := false }).1 = some t ∧
    (ns.readRuns { slba := 0, length := 63, fua := false } 0).flatten.length = 2 := by
  let c : RwCommand := { slba := 0, length := 63, fua := false }
  have hrun : (convRun samsung970pro default default (mb 3071)
      [.command { sqId := 1, nsecsStart := 0 } (.write c)]).map
      (fun ns => (decide (0 < ns.nrParts ∧ c.endLpn ns.spp / ns.nrParts < ns.spp.ttPgs),
        (ns.mappedPages c 0).length)) = .ok (true, 2) := by
    decide +kernel
  obtain ⟨ns, hns, hfacts⟩ := except_map_eq_ok.mp hrun
  obtain ⟨hcond, hlen⟩ := Prod.mk.inj hfacts
  obtain ⟨hparts, hrange⟩ := of_decide_eq_true hcond
  obtain ⟨hread, hpages⟩ := read_covers samsung970proSlc default default (mb 3071) _ ns hns
    { sqId := 1, nsecsStart := 0 } c hrange
  refine ⟨ns, _, hns, congrArg Prod.fst hread, ?_⟩
  rw [(hpages 0 hparts).1, hlen]

end NvmeVirt
