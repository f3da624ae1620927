import NvmeVirt.Conv.Programs
import NvmeVirt.Conv.Policy

/-!
# What the program commands move

Along every run of a namespace the record of an instance holds two kinds of programs: those of
the garbage collector, which move a TLC one-shot page to the TLC area, and those of
`conv_write`, which move a TLC one-shot page to the SLC area. The second are exact only when
the one-shot pages of both areas have the same size.
-/

namespace NvmeVirt

open Checked

variable {g : Geometry} {spp : Ssdparams} {f f' : ConvFtl} {ns : ConvNs} {i lpn : Nat}

/-- The area that the page lies in. -/
def Ssdparams.region (spp : Ssdparams) (p : Ppa) : LineMode :=
  if (p.blk : Int) < spp.ttLinesSlc then .slc else .tlc

/-- The command moves as many bytes as a one-shot page of the area it addresses holds. -/
def NandCmd.MovesOneshot (spp : Ssdparams) (c : NandCmd) : Prop :=
  ∃ p, c.ppa = some p ∧ (c.xferSize : Int) = spp.pgsz * spp.curPgsPerOneshotpg (spp.region p)

/-- A program command for a word line of the SLC area, as `conv_write` issues it. -/
structure NandCmd.SlcProgram (spp : Ssdparams) (c : NandCmd) : Prop where
  host : c.HostProgram
  ppa : ∃ p, c.ppa = some p ∧ (p.blk : Int) < spp.ttLinesSlc
  xferSize : c.xferSize = spp.pgsz * spp.pgsPerOneshotpg

/-- The one-shot pages of both areas have the same size. -/
def Ssdparams.EqualOneshots (spp : Ssdparams) : Prop :=
  (spp.pgsPerOneshotpg : Int) = spp.pgsPerOneshotpgSlc

instance (c : NandCmd) : Decidable c.HostProgram := inferInstanceAs (Decidable (_ ∧ _))

instance (spp : Ssdparams) : Decidable spp.EqualOneshots := inferInstanceAs (Decidable (_ = _))

theorem NandCmd.GcProgram.movesOneshot {c : NandCmd} (h : c.GcProgram spp) :
    c.MovesOneshot spp := by
  obtain ⟨p, hp, hblk⟩ := h.ppa
  refine ⟨p, hp, ?_⟩
  rw [Ssdparams.region, if_neg (not_lt.mpr hblk), h.xferSize]
  push_cast
  rfl

theorem NandCmd.GcProgram.not_host {c : NandCmd} (h : c.GcProgram spp) : ¬ c.HostProgram := by
  rintro ⟨htype, -⟩
  rw [h.type] at htype
  cases htype

/-- A program of `conv_write` is exact only when it does not matter which size it takes. -/
theorem NandCmd.SlcProgram.movesOneshot_iff {c : NandCmd} (h : c.SlcProgram spp)
    (hpgsz : 0 < spp.pgsz) : c.MovesOneshot spp ↔ spp.EqualOneshots := by
  obtain ⟨p, hp, hblk⟩ := h.ppa
  have hpos : (spp.pgsz : Int) ≠ 0 := by omega
  have hiff : (c.xferSize : Int) = spp.pgsz * spp.curPgsPerOneshotpg (spp.region p) ↔
      spp.EqualOneshots := by
    rw [Ssdparams.region, if_pos hblk, h.xferSize]
    push_cast
    exact mul_right_inj' hpos
  constructor
  · rintro ⟨q, hq, hmoves⟩
    rw [hp] at hq
    cases hq
    exact hiff.mp hmoves
  · exact fun heq => ⟨p, hp, hiff.mpr heq⟩

/-! ## The record of an instance -/

/-- The programs that an instance has issued. -/
structure ConvFtl.Recorded (g : Geometry) (spp : Ssdparams) (f : ConvFtl) : Prop where
  reached : f.Reached g
  sp : f.ssd.sp = spp
  programs : ∀ c ∈ f.ssd.perf.issued, c.cmd = .write → c.GcProgram spp ∨ c.SlcProgram spp

/-- The program command that `conv_write` prepares. -/
def SlcSwr (spp : Ssdparams) (_f : ConvFtl) (swr : NandCmd) (_lpn : Nat) : Prop :=
  swr.HostProgram ∧ swr.xferSize = spp.pgsz * spp.pgsPerOneshotpg

theorem recorded_quietFree (g : Geometry) (spp : Ssdparams) :
    QuietFree (ConvFtl.Recorded g spp) := by
  rintro f π ⟨cs, hcs, hquiet⟩ h
  refine ⟨(reached_timingFree g).quietFree f π ⟨cs, hcs, hquiet⟩ h.reached, h.sp,
    fun c hc hw => ?_⟩
  have hc : c ∈ f.ssd.perf.issued ++ cs := hcs ▸ hc
  rcases List.mem_append.mp hc with hc | hc
  · exact h.programs c hc hw
  · exact absurd hw (hquiet c hc)

/-- What the loop body of `conv_write` adds to the record. -/
theorem ConvFtl.Recorded.writePage {swr : NandCmd} {completed : Option Nat}
    (h : f.Recorded g spp) (hlpn : lpn < g.ttPgs) (hswr : SlcSwr spp f swr lpn)
    (hr : f.writePage swr lpn = .ok (completed, f')) :
    ∃ own cs, f'.ssd.perf.issued = f.ssd.perf.issued ++ (own ++ cs) ∧
      (∀ c ∈ cs, c.cmd = .write → c.GcProgram spp) ∧
      ((¬ f.CompletesWordline ∧ completed = none ∧ own = []) ∨
      (f.CompletesWordline ∧ (∃ t, completed = some t) ∧ ∃ c, c.SlcProgram spp ∧ own = [c])) := by
  obtain ⟨cls, w, hidle, -⟩ := h.reached
  have hpos := g.oneshots_pos ((Nat.zero_le lpn).trans_lt hlpn)
  obtain ⟨-, cs, hcs, hcase⟩ := hidle.writePage_issued hpos hlpn hr
  rw [h.sp] at hcs
  rcases hcase with ⟨hno, hnone, heq⟩ | ⟨hyes, hsome, p, hp, heq⟩
  · exact ⟨[], cs, heq, hcs, Or.inl ⟨hno, hnone, rfl⟩⟩
  · rw [h.sp] at hp
    let c : NandCmd := { swr with ppa := some p }
    have hc : c.SlcProgram spp := ⟨hswr.1, ⟨p, rfl, hp⟩, hswr.2⟩
    exact ⟨[c], cs, heq, hcs, Or.inr ⟨hyes, hsome, c, hc, rfl⟩⟩

theorem recorded_pageKeeps (g : Geometry) (spp : Ssdparams) :
    ConvNs.PageKeeps (ConvFtl.Recorded g spp) (SlcSwr spp) (RunFault g) g.ttPgs := by
  intro f swr lpn h hlpn hswr
  have hkeeps := reached_pageKeeps g f swr lpn h.reached hlpn trivial
  cases hr : f.writePage swr lpn with
  | error e =>
    rw [hr] at hkeeps
    exact hkeeps
  | ok r =>
    rw [hr] at hkeeps
    obtain ⟨completed, f'⟩ := r
    obtain ⟨cls, w, hidle, -⟩ := h.reached
    have hpos := g.oneshots_pos ((Nat.zero_le lpn).trans_lt hlpn)
    have hsp := (hidle.writePage_issued hpos hlpn hr).1
    obtain ⟨own, cs, heq, hgc, hown⟩ := h.writePage hlpn hswr hr
    refine ⟨hkeeps, hsp.trans h.sp, fun c hc hw => ?_⟩
    have hc : c ∈ f.ssd.perf.issued ++ (own ++ cs) := heq ▸ hc
    rw [List.mem_append, List.mem_append] at hc
    rcases hc with hc | hc | hc
    · exact h.programs c hc hw
    · rcases hown with ⟨-, -, rfl⟩ | ⟨-, -, c', hc', rfl⟩
      · simp at hc
      · rw [List.mem_singleton.mp hc]
        exact Or.inr hc'
    · exact Or.inl (hgc c hc hw)

/-! ## Runs -/

/-- The initialisation leaves the device as `ssd_init` has made it. -/
theorem convInitFtl_ssd {mem : ConvFtl} {b : Bool} {cpp : Convparams} {ssd : Ssd}
    (hr : convInitFtl mem b cpp ssd = .ok f) : f.ssd = ssd := by
  have hprepare : ∀ {f₀ f₁ : ConvFtl} {io : IoType}, f₀.prepareWritePointer io = .ok f₁ →
      f₁.ssd = f₀.ssd := fixed_ssd.prepareWritePointer
  have hlines : ∀ {f₀ f₁ : ConvFtl}, f₀.initLines = .ok f₁ → f₁.ssd = f₀.ssd := by
    intro f₀ f₁ hr
    unfold ConvFtl.initLines at hr
    dsimp only at hr
    split at hr
    all_goals
      simp only [bind_eq_ok] at hr
      obtain ⟨_, -, hr⟩ := hr
      cases hr
      rfl
  simp only [convInitFtl, bind_eq_ok] at hr
  obtain ⟨f₁, h₁, f₂, h₂, f₃, h₃, hr⟩ := hr
  cases hr
  show f₃.ssd = ssd
  rw [hprepare h₃, hprepare h₂, hlines h₁]

namespace ConvNs

/-- The command that `conv_write` prepares is the one that the record expects. -/
theorem Each.slcSwr (h : ns.Each (ConvFtl.Recorded g spp)) (req : NvmevRequest) (c : RwCommand)
    (f : ConvFtl) : SlcSwr spp f (ns.writeTransfer req c).1 lpn := by
  have hsp : ns.spp = spp := (h.inst 0 h.parts).sp
  refine ⟨⟨rfl, rfl⟩, ?_⟩
  rw [← hsp]
  rfl

theorem Each.eventCond (h : ns.Each (ConvFtl.Recorded g spp)) (ev : ConvEvent) :
    ns.EventCond (SlcSwr spp) ev := by
  cases ev with
  | release i => trivial
  | command req cmd =>
    cases cmd with
    | write c =>
      intro buf
      have hbuf : ({ ns with writeBuffer := buf } : ConvNs).Each (ConvFtl.Recorded g spp) :=
        h.congr rfl rfl
      exact throughout_of_forall (fun s lpn => hbuf.slcSwr req c _) _ _
    | _ => trivial

end ConvNs

/-- The record of every instance after a run. -/
theorem slcRun_recorded (cfg : SlcConfig) (mem : ConvMemory) (clock : Clock) (size : Nat)
    (events : List ConvEvent) (h : convRun cfg.toSsdConfig mem clock size events = .ok ns) :
    ∃ g spp, g.Fits spp ∧ convSsdparams cfg.toSsdConfig mem.spp size = .ok spp ∧
      ns.Each (ConvFtl.Recorded g spp) := by
  obtain ⟨ns₀, hinit, hrun⟩ := bind_eq_ok.mp h
  have hns₀ : ∃ g spp, g.Fits spp ∧ convSsdparams cfg.toSsdConfig mem.spp size = .ok spp ∧
      ns₀.Each (ConvFtl.Recorded g spp) := by
    rcases slcInit_outcome cfg mem clock size with herr | ⟨g, b, spp, hfits, -, -, hspp, -⟩
    · rw [hinit] at herr
      cases herr
    refine ⟨g, spp, hfits, hspp, Outcome.of_ok (E := fun _ => True) ?_ hinit⟩
    refine convInitNamespace_each cfg.parts_pos hspp fun f => Outcome.of_forall_ok fun f' hf' => ?_
    rw [cfg.enabled] at hf'
    obtain ⟨cls, w, hidle, -, hpaced⟩ := (convInitFtl_spec f clock hfits).of_ok hf'
    have hssd := convInitFtl_ssd hf'
    refine ⟨⟨cls, w, hidle, hpaced⟩, by rw [hssd]; rfl, fun c hc => ?_⟩
    rw [hssd] at hc
    exact absurd hc List.not_mem_nil
  obtain ⟨g, spp, hfits, hspp, hns₀⟩ := hns₀
  refine ⟨g, spp, hfits, hspp, ?_⟩
  have hstep : ∀ s ev, ConvNs.Each (ConvFtl.Recorded g spp) s → s.EventCond (SlcSwr spp) ev →
      Outcome (s.step ev) (ConvNs.Each (ConvFtl.Recorded g spp)) (RunFault g) := fun s ev hs hc =>
    hs.step (recorded_quietFree g spp) (recorded_pageKeeps g spp)
      (fun f hf => reached_ttPgs f hf.reached) (Or.inl rfl) hc
  have hcond := Throughout.of_invariant _ (fun s ev hs => hs.eventCond ev) hstep events hns₀
  exact (hcond.outcome _ (fun ev _ s hs hc => hstep s ev hs hc) hns₀).of_ok hrun

/-- An iteration of the loop of an accepted `conv_write`: `s` is the state in which the loop body
meets `lpn`, with the program command `swr`. -/
structure ConvNs.WriteIteration (ns : ConvNs) (req : NvmevRequest) (c : RwCommand) (swr : NandCmd)
    (lpn : Nat) (s : Nat × ConvNs) : Prop where
  inRange : c.endLpn ns.spp / ns.nrParts < ns.spp.ttPgs
  allocated : ∃ n buf pre post, bufferAllocate ns.writeBuffer c.bytes = .ok (n, buf) ∧
    c.bytes ≤ n ∧ c.lpns ns.spp = pre ++ lpn :: post ∧
    swr = (({ ns with writeBuffer := buf } : ConvNs).writeTransfer req c).1 ∧
    pre.foldlM (ConvNs.writeStep req.sqId swr)
      (swr.stime, (({ ns with writeBuffer := buf } : ConvNs).writeTransfer req c).2) = .ok s

/-- The instance that an iteration writes to. -/
def ConvNs.target (ns : ConvNs) (lpn : Nat) : ConvFtl := ns.ftls (lpn % ns.nrParts)

theorem ConvNs.Each.iteration {req : NvmevRequest} {c : RwCommand} {swr : NandCmd}
    {s : Nat × ConvNs} (h : ns.Each (ConvFtl.Recorded g spp))
    (hit : ns.WriteIteration req c swr lpn s) :
    s.2.Each (ConvFtl.Recorded g spp) ∧ lpn / s.2.nrParts < g.ttPgs ∧
      ∀ f lpn, SlcSwr spp f swr lpn := by
  have hn : ns.spp.ttPgs = g.ttPgs := reached_ttPgs _ (h.inst 0 h.parts).reached
  have hrange := hit.inRange
  rw [hn] at hrange
  obtain ⟨n, buf, pre, post, -, -, hlpns, hswr, hpre⟩ := hit.allocated
  have hbuf : ({ ns with writeBuffer := buf } : ConvNs).Each (ConvFtl.Recorded g spp) :=
    h.congr rfl rfl
  have hcmd : ∀ f lpn, SlcSwr spp f swr lpn := fun f lpn => hswr ▸ hbuf.slcSwr req c f
  have hmem : ∀ l ∈ pre ++ [lpn], l / ns.nrParts < g.ttPgs := by
    intro l hl
    apply ConvNs.lpn_lt_of_range hrange
    rw [hlpns]
    simp only [List.mem_append, List.mem_cons] at hl ⊢
    tauto
  have hloop : Outcome (pre.foldlM (ConvNs.writeStep req.sqId swr)
      (swr.stime, (({ ns with writeBuffer := buf } : ConvNs).writeTransfer req c).2))
      (fun s => s.2.Each (ConvFtl.Recorded g spp) ∧ s.2.nrParts = ns.nrParts) (RunFault g) := by
    refine outcome_foldlM_const _ ?_ _ ⟨hbuf.quiet (recorded_quietFree g spp)
      (ConvNs.quiet_writeTransfer _ req c), rfl⟩
    rintro l hl s ⟨hs, hparts⟩
    have hlt : l / s.2.nrParts < g.ttPgs := by
      rw [hparts]
      exact hmem l (List.mem_append_left _ hl)
    refine (hs.writeStep (recorded_quietFree g spp) (recorded_pageKeeps g spp) hlt
      (hcmd _ _)).mono ?_ fun _ he => he
    exact fun s' hs' => ⟨hs'.1, hs'.2.trans hparts⟩
  obtain ⟨hs, hparts⟩ := hloop.of_ok hpre
  refine ⟨hs, ?_, hcmd⟩
  rw [hparts]
  exact hmem lpn (List.mem_append_right _ (List.mem_singleton_self lpn))

/-- What one iteration of the loop of `conv_write` has programmed and scheduled for release: every
program moves a one-shot page of its area, and the programs of the host move what is released. -/
def ConvNs.ExactStep (spp : Ssdparams) (s s' : ConvNs) (lpn : Nat) : Prop :=
  ∃ cs ops, (s'.target lpn).ssd.perf.issued = (s.target lpn).ssd.perf.issued ++ cs ∧
    s'.pending = s.pending ++ ops ∧ (∀ c ∈ cs, c.cmd = .write → c.MovesOneshot spp) ∧
    (cs.filter (·.HostProgram)).map NandCmd.xferSize = ops.map InternalOp.buffsToRelease

/-- The programs that an instance has issued for `conv_write`. -/
def ConvFtl.hostPrograms (f : ConvFtl) : List NandCmd :=
  f.ssd.perf.issued.filter (·.HostProgram)

/-- Commands of the garbage collector are no programs of the host. -/
theorem filter_host_gc {cs : List NandCmd} (h : ∀ c ∈ cs, c.cmd = .write → c.GcProgram spp) :
    cs.filter (·.HostProgram) = [] := by
  rw [List.filter_eq_nil_iff]
  intro c hc hhost
  have hhost : c.HostProgram := of_decide_eq_true hhost
  exact (h c hc hhost.2).not_host hhost

/-- What `conv_write` stores after a page write. -/
theorem ConvNs.writeStep_eq_ok {sqId : Nat} {swr : NandCmd} {s s' : Nat × ConvNs}
    (hs : s.2.Each (ConvFtl.Recorded g spp)) (hlpn : lpn / s.2.nrParts < g.ttPgs)
    (hcmd : ∀ f lpn, SlcSwr spp f swr lpn) (hr : ConvNs.writeStep sqId swr s lpn = .ok s') :
    ∃ completed f', (s.2.target lpn).writePage swr (lpn / s.2.nrParts) = .ok (completed, f') ∧
      s'.2.target lpn = f' ∧
      ((completed = none ∧ s'.2.pending = s.2.pending) ∨
      ∃ t op, completed = some t ∧ s'.2.pending = s.2.pending ++ [op] ∧
        op.buffsToRelease = spp.pgsPerOneshotpgSlc.toNat * spp.pgsz) := by
  obtain ⟨latest, ns⟩ := s
  obtain ⟨⟨completed, f'⟩, hpage, hr⟩ := bind_eq_ok.mp hr
  have hi := Nat.mod_lt lpn hs.parts
  have hf' := (recorded_pageKeeps g spp _ swr _ (hs.inst _ hi) hlpn (hcmd _ _)).of_ok hpage
  have htarget : (ns.setFtl (lpn % ns.nrParts) f').ftls (lpn % ns.nrParts) = f' := if_pos rfl
  refine ⟨completed, f', hpage, ?_⟩
  cases completed with
  | none =>
    cases hr
    exact ⟨htarget, Or.inl ⟨rfl, rfl⟩⟩
  | some t =>
    have hset : (ns.setFtl (lpn % ns.nrParts) f').Each (ConvFtl.Recorded g spp) :=
      hs.setFtl (recorded_quietFree g spp) hf'
    have hsp : (ns.setFtl (lpn % ns.nrParts) f').spp = spp := (hset.inst 0 hset.parts).sp
    have hpool : f'.ioPool .user = .slc := by
      obtain ⟨cls, w, hidle, -⟩ := hf'.reached
      have hmode : f'.slcMode = .slc := hidle.ok.static.slcMode
      simp [ConvFtl.ioPool, hmode]
    cases hr
    refine ⟨htarget, Or.inr ⟨t, _, rfl, rfl, ?_⟩⟩
    dsimp only
    rw [hsp, hpool]
    rfl

/-- One iteration is exact unless it completes a word line and the sizes differ. -/
theorem ConvNs.exactStep_iff {sqId : Nat} {swr : NandCmd} {s s' : Nat × ConvNs}
    (hfits : g.Fits spp) (hs : s.2.Each (ConvFtl.Recorded g spp))
    (hlpn : lpn / s.2.nrParts < g.ttPgs) (hcmd : ∀ f lpn, SlcSwr spp f swr lpn)
    (hr : ConvNs.writeStep sqId swr s lpn = .ok s') :
    ConvNs.ExactStep spp s.2 s'.2 lpn ↔
      spp.EqualOneshots ∨ ¬ (s.2.target lpn).CompletesWordline := by
  have hpgsz : 0 < spp.pgsz := by
    rw [hfits.pgsz]
    decide
  obtain ⟨completed, f', hpage, rfl, hpending⟩ := writeStep_eq_ok hs hlpn hcmd hr
  obtain ⟨own, cs, hissued, hgc, hown⟩ :=
    (hs.inst _ (Nat.mod_lt lpn hs.parts)).writePage hlpn (hcmd _ _) hpage
  have hissued : (s'.2.target lpn).ssd.perf.issued =
    (s.2.target lpn).ssd.perf.issued ++ (own ++ cs) := hissued
  have hmoves : ∀ c ∈ cs, c.cmd = .write → c.MovesOneshot spp := fun c hc hw =>
    (hgc c hc hw).movesOneshot
  rcases hown with ⟨hno, rfl, rfl⟩ | ⟨hyes, ⟨t, rfl⟩, c, hc, rfl⟩
  · rcases hpending with ⟨-, hpending⟩ | ⟨_, _, h, -⟩
    swap
    · cases h
    refine ⟨fun _ => Or.inr hno, fun _ => ⟨cs, [], hissued, ?_, hmoves, ?_⟩⟩
    · rw [hpending, List.append_nil]
    · rw [filter_host_gc hgc]
      rfl
  · rcases hpending with ⟨h, -⟩ | ⟨_, op, -, hpending, hrelease⟩
    · cases h
    constructor
    · rintro ⟨cs', ops, hissued', -, hmoves', -⟩
      rw [hissued, List.append_cancel_left_eq] at hissued'
      have hmem : c ∈ cs' := hissued' ▸ List.mem_cons_self ..
      exact Or.inl ((hc.movesOneshot_iff hpgsz).mp (hmoves' c hmem hc.host.2))
    · rintro (heq | hno)
      swap
      · exact absurd hyes hno
      refine ⟨[c] ++ cs, [op], hissued, hpending, fun c' hc' hw => ?_, ?_⟩
      · rcases List.mem_append.mp hc' with hmem | hmem
        · rw [List.mem_singleton.mp hmem]
          exact (hc.movesOneshot_iff hpgsz).mpr heq
        · exact hmoves c' hmem hw
      · have hsize : spp.pgsPerOneshotpgSlc.toNat = spp.pgsPerOneshotpg := by
          rw [← heq]
          rfl
        rw [List.filter_append, filter_host_gc hgc, List.append_nil]
        simp [hc.host, hc.xferSize, hrelease, hsize, Nat.mul_comm]

/-- Over a whole run the record is exact unless the host has programmed and the sizes differ. -/
theorem ConvFtl.Recorded.exact_iff (h : f.Recorded g spp) (hfits : g.Fits spp) :
    ((∀ c ∈ f.ssd.perf.issued, c.cmd = .write → c.MovesOneshot spp) ∧
      ((f.hostPrograms.map NandCmd.xferSize).sum : Int) =
        4096 * (spp.pgsPerOneshotpgSlc * f.hostPrograms.length)) ↔
      spp.EqualOneshots ∨ f.hostPrograms = [] := by
  have hpgsz : 0 < spp.pgsz := by
    rw [hfits.pgsz]
    decide
  have hhost : ∀ c ∈ f.hostPrograms, c ∈ f.ssd.perf.issued ∧ c.SlcProgram spp := by
    intro c hc
    obtain ⟨hmem, hdec⟩ := List.mem_filter.mp hc
    have hprogram : c.HostProgram := of_decide_eq_true hdec
    refine ⟨hmem, ?_⟩
    rcases h.programs c hmem hprogram.2 with hgc | hslc
    · exact absurd hprogram hgc.not_host
    · exact hslc
  constructor
  · rintro ⟨hmoves, -⟩
    by_cases hnil : f.hostPrograms = []
    · exact Or.inr hnil
    · obtain ⟨c, hc⟩ := List.exists_mem_of_ne_nil _ hnil
      obtain ⟨hmem, hslc⟩ := hhost c hc
      exact Or.inl ((hslc.movesOneshot_iff hpgsz).mp (hmoves c hmem hslc.host.2))
  · intro hcond
    refine ⟨fun c hc hw => ?_, ?_⟩
    · rcases h.programs c hc hw with hgc | hslc
      · exact hgc.movesOneshot
      · refine (hslc.movesOneshot_iff hpgsz).mpr ?_
        rcases hcond with heq | hnil
        · exact heq
        · have hmem : c ∈ f.hostPrograms := List.mem_filter.mpr ⟨hc, decide_eq_true hslc.host⟩
          rw [hnil] at hmem
          exact absurd hmem List.not_mem_nil
    · rcases hcond with heq | hnil
      · have hsizes : f.hostPrograms.map NandCmd.xferSize =
            f.hostPrograms.map fun _ => 4096 * spp.pgsPerOneshotpg := by
          apply List.map_congr_left
          intro c hc
          rw [(hhost c hc).2.xferSize, hfits.pgsz]
        rw [hsizes, List.map_const', List.sum_replicate_nat, ← heq]
        push_cast
        ring
      · rw [hnil]
        simp

/-- A page write moves what it programs exactly when it completes no word line or the one-shot
pages of both areas have the same size; so does a whole run. -/
theorem host_program_transfers (cfg : SlcConfig) (mem : ConvMemory) (clock : Clock) (size : Nat)
    (events : List ConvEvent) (ns : ConvNs)
    (h : convRun cfg.toSsdConfig mem clock size events = .ok ns) :
    (∀ req c swr lpn s s', ns.WriteIteration req c swr lpn s →
      ConvNs.writeStep req.sqId swr s lpn = .ok s' →
      (ConvNs.ExactStep ns.spp s.2 s'.2 lpn ↔
        ns.spp.EqualOneshots ∨ ¬ (s.2.target lpn).CompletesWordline)) ∧
    ∀ i < ns.nrParts,
      ((∀ c ∈ (ns.ftls i).ssd.perf.issued, c.cmd = .write → c.MovesOneshot ns.spp) ∧
        (((ns.ftls i).hostPrograms.map NandCmd.xferSize).sum : Int) =
          4096 * (ns.spp.pgsPerOneshotpgSlc * (ns.ftls i).hostPrograms.length)) ↔
      ns.spp.EqualOneshots ∨ (ns.ftls i).hostPrograms = [] := by
  obtain ⟨g, spp, hfits, -, hns⟩ := slcRun_recorded cfg mem clock size events h
  have hsp : ns.spp = spp := (hns.inst 0 hns.parts).sp
  rw [hsp]
  refine ⟨fun req c swr lpn s s' hit hr => ?_, fun i hi => (hns.inst i hi).exact_iff hfits⟩
  obtain ⟨hs, hlpn, hcmd⟩ := hns.iteration hit
  exact ConvNs.exactStep_iff hfits hs hlpn hcmd hr

/-- One page on the shipped device completes no word line. -/
theorem host_program_transfers_page : ∃ ns, convRun samsung970pro default default (mb 3071)
      [.command { sqId := 1, nsecsStart := 0 } (.write { slba := 0, length := 7, fua := false })] =
        .ok ns ∧
    ∀ c ∈ (ns.ftls 0).ssd.perf.issued, c.cmd = .write → c.MovesOneshot ns.spp := by
  have hrun : (convRun samsung970pro default default (mb 3071)
      [.command { sqId := 1, nsecsStart := 0 }
        (.write { slba := 0, length := 7, fua := false })]).map
      (fun ns => (decide (0 < ns.nrParts), (ns.ftls 0).hostPrograms)) = .ok (true, []) := by
    decide +kernel
  obtain ⟨ns, hns, hfacts⟩ := except_map_eq_ok.mp hrun
  obtain ⟨hparts, hnil⟩ := Prod.mk.inj hfacts
  have hexact := host_program_transfers samsung970proSlc default default (mb 3071) _ ns hns
  exact ⟨ns, hns, ((hexact.2 0 (of_decide_eq_true hparts)).mpr (Or.inr hnil)).1⟩

/-- Sixteen pages fill one word line of every instance of the shipped device: each program moves
48 KiB for the 16 KiB that the buffer gets back. -/
theorem host_program_oversized : ∃ ns c, convRun samsung970pro default default (mb 3071)
      [.command { sqId := 1, nsecsStart := 0 } (.write { slba := 0, length := 127, fua := false })] =
        .ok ns ∧
    (ns.ftls 0).ssd.perf.issued = [c] ∧ c.HostProgram ∧ c.xferSize = 49152 ∧
    ns.pending.map InternalOp.buffsToRelease = [16384, 16384, 16384, 16384] ∧
    ¬ c.MovesOneshot ns.spp := by
  have hrun : (convRun samsung970pro default default (mb 3071)
      [.command { sqId := 1, nsecsStart := 0 }
        (.write { slba := 0, length := 127, fua := false })]).map
      (fun ns => ((ns.ftls 0).ssd.perf.issued.map fun c =>
          (decide c.HostProgram, c.xferSize, c.ppa.map ns.spp.region),
        ns.pending.map InternalOp.buffsToRelease, ns.spp.pgsz, ns.spp.pgsPerOneshotpgSlc)) =
      .ok ([(true, 49152, some .slc)], [16384, 16384, 16384, 16384], 4096, 4) := by
    decide +kernel
  obtain ⟨ns, hns, hfacts⟩ := except_map_eq_ok.mp hrun
  simp only [Prod.mk.injEq, List.map_eq_singleton_iff, decide_eq_true_eq, Option.map_eq_some_iff]
    at hfacts
  obtain ⟨⟨c, hissued, hhost, hsize, p, hp, hregion⟩, hpending, hpgsz, honeshot⟩ := hfacts
  refine ⟨ns, c, hns, hissued, hhost, hsize, hpending, ?_⟩
  rintro ⟨q, hq, hmoves⟩
  rw [hp] at hq
  cases hq
  rw [hregion, hsize, hpgsz, Ssdparams.curPgsPerOneshotpg, honeshot] at hmoves
  exact absurd hmoves (by simp)

end NvmeVirt
