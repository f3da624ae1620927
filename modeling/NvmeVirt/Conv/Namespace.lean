import NvmeVirt.Conv.Init

/-!
# Runs of a namespace

A property of one instance that the loop body of `conv_write` keeps, and that changes of the
timing state without a program command keep, holds of every instance after every run. The
loop body may rely on the range check, and on a condition that is met throughout the run.
-/

namespace NvmeVirt

open Checked

/-- The device with another timing state. -/
def ConvFtl.withPerf (f : ConvFtl) (π : Perf) : ConvFtl := { f with ssd := { f.ssd with perf := π } }

/-- A change of the timing state keeps `P`. -/
def TimingFree (P : ConvFtl → Prop) : Prop := ∀ f π, P f → P (f.withPerf π)

/-- A change of the timing state that issues no program command keeps `P`. -/
def QuietFree (P : ConvFtl → Prop) : Prop :=
  ∀ f π, f.ssd.perf.Quiet π → P f → P (f.withPerf π)

theorem TimingFree.quietFree {P : ConvFtl → Prop} (h : TimingFree P) : QuietFree P :=
  fun f π _ hf => h f π hf

/-- From `f` to `f'` only the timing state changes, and no program command is issued. -/
def ConvFtl.Quiet (f f' : ConvFtl) : Prop := ∃ π, f' = f.withPerf π ∧ f.ssd.perf.Quiet π

theorem ConvFtl.Quiet.refl (f : ConvFtl) : f.Quiet f := ⟨f.ssd.perf, rfl, .of_eq rfl⟩

theorem ConvFtl.Quiet.trans {f f' f'' : ConvFtl} (h : f.Quiet f') (h' : f'.Quiet f'') :
    f.Quiet f'' := by
  obtain ⟨π, rfl, hq⟩ := h
  obtain ⟨π', rfl, hq'⟩ := h'
  exact ⟨π', rfl, hq.trans hq'⟩

theorem ConvFtl.quiet_share (f g : ConvFtl) : f.Quiet (f.share g) := ⟨_, rfl, .of_eq rfl⟩

namespace ConvNs

/-- From `ns` to `ns'` every instance changes quietly, and nothing else changes. -/
structure Quiet (ns ns' : ConvNs) : Prop where
  nrParts : ns'.nrParts = ns.nrParts
  size : ns'.size = ns.size
  writeBuffer : ns'.writeBuffer = ns.writeBuffer
  pending : ns'.pending = ns.pending
  inst : ∀ i, (ns.ftls i).Quiet (ns'.ftls i)

theorem Quiet.refl (ns : ConvNs) : ns.Quiet ns := ⟨rfl, rfl, rfl, rfl, fun _ => .refl _⟩

theorem Quiet.trans {ns ns' ns'' : ConvNs} (h : ns.Quiet ns') (h' : ns'.Quiet ns'') :
    ns.Quiet ns'' :=
  ⟨h'.nrParts.trans h.nrParts, h'.size.trans h.size, h'.writeBuffer.trans h.writeBuffer,
    h'.pending.trans h.pending, fun i => (h.inst i).trans (h'.inst i)⟩

/-- Storing an instance that has changed quietly. -/
theorem quiet_setFtl {ns : ConvNs} {i : Nat} {f : ConvFtl} (h : (ns.ftls i).Quiet f) :
    ns.Quiet (ns.setFtl i f) := by
  refine ⟨rfl, rfl, rfl, rfl, fun j => ?_⟩
  simp only [ConvNs.setFtl]
  split
  · subst j
    exact h
  · exact ConvFtl.quiet_share _ f

/-- Only the timing state of an instance is stored. -/
theorem quiet_setPerf {ns : ConvNs} {i : Nat} {π : Perf} (h : (ns.ftls i).ssd.perf.Quiet π) :
    ns.Quiet (ns.setFtl i ((ns.ftls i).withPerf π)) :=
  quiet_setFtl ⟨π, rfl, h⟩

/-- A loop whose rounds are quiet. -/
theorem quiet_foldl {α : Type} {f : Nat × ConvNs → α → Nat × ConvNs}
    (hf : ∀ (s : Nat × ConvNs) (a : α), s.2.Quiet (f s a).2) (l : List α) (s : Nat × ConvNs) :
    s.2.Quiet (l.foldl f s).2 := by
  induction l generalizing s with
  | nil => exact .refl s.2
  | cons a rest ih => exact (hf s a).trans (ih (f s a))

/-- Every instance of a namespace satisfies `P`. -/
structure Each (P : ConvFtl → Prop) (ns : ConvNs) : Prop where
  parts : 0 < ns.nrParts
  inst : ∀ i < ns.nrParts, P (ns.ftls i)

variable {P : ConvFtl → Prop} {C : ConvFtl → NandCmd → Nat → Prop} {E : Fault → Prop}
  {ns : ConvNs} {n i : Nat} {f : ConvFtl}

/-! ## Stores that keep a property of the instances -/

/-- A property of the instances does not depend on the other fields. -/
theorem Each.congr {ns' : ConvNs} (h : ns.Each P) (hf : ns'.ftls = ns.ftls)
    (hn : ns'.nrParts = ns.nrParts) : ns'.Each P := by
  refine ⟨hn ▸ h.parts, fun i hi => ?_⟩
  rw [hf]
  exact h.inst i (hn ▸ hi)

/-- Quiet changes keep a property that is free of them. -/
theorem Each.quiet {ns' : ConvNs} (h : ns.Each P) (ht : QuietFree P) (hq : ns.Quiet ns') :
    ns'.Each P := by
  refine ⟨hq.nrParts ▸ h.parts, fun i hi => ?_⟩
  obtain ⟨π, hπ, hquiet⟩ := hq.inst i
  rw [hπ]
  exact ht _ _ hquiet (h.inst i (hq.nrParts ▸ hi))

theorem Each.setFtl (h : ns.Each P) (ht : QuietFree P) (hf : P f) : (ns.setFtl i f).Each P := by
  refine ⟨h.parts, fun j hj => ?_⟩
  simp only [ConvNs.setFtl]
  split
  · exact hf
  · exact ht _ _ (.of_eq rfl) (h.inst j hj)

/-! ## Writes -/

/-- The condition `C` on the page write of one iteration. -/
def PageCond (C : ConvFtl → NandCmd → Nat → Prop) (swr : NandCmd) (s : Nat × ConvNs) (lpn : Nat) :
    Prop :=
  C (s.2.ftls (lpn % s.2.nrParts)) swr (lpn / s.2.nrParts)

/-- The condition `C` on every page write of an event. -/
def EventCond (C : ConvFtl → NandCmd → Nat → Prop) (ns : ConvNs) : ConvEvent → Prop
  | .command req (.write c) =>
    ∀ buf, let (swr, ns') := { ns with writeBuffer := buf }.writeTransfer req c
      Throughout (writeStep req.sqId swr) (PageCond C swr) (c.lpns ns.spp) (swr.stime, ns')
  | _ => True

/-- The loop body of `conv_write` keeps `P` for the logical pages below `n`. -/
def PageKeeps (P : ConvFtl → Prop) (C : ConvFtl → NandCmd → Nat → Prop) (E : Fault → Prop)
    (n : Nat) : Prop :=
  ∀ f swr lpn, P f → lpn < n → C f swr lpn → Outcome (f.writePage swr lpn) (fun r => P r.2) E

/-- One iteration of the loop of `conv_write`. -/
theorem Each.writeStep {s : Nat × ConvNs} {sqId lpn : Nat} {swr : NandCmd} (h : s.2.Each P)
    (ht : QuietFree P) (hpage : PageKeeps P C E n) (hlpn : lpn / s.2.nrParts < n)
    (hc : PageCond C swr s lpn) :
    Outcome (ConvNs.writeStep sqId swr s lpn)
      (fun s' => s'.2.Each P ∧ s'.2.nrParts = s.2.nrParts) E := by
  obtain ⟨latest, ns⟩ := s
  have hi := Nat.mod_lt lpn h.parts
  refine (hpage _ swr _ (h.inst _ hi) hlpn hc).bind ?_
  rintro ⟨completed, f⟩ hf
  have hset : (ns.setFtl (lpn % ns.nrParts) f).Each P := h.setFtl ht hf
  cases completed with
  | none => exact ⟨hset, rfl⟩
  | some t => exact ⟨hset.congr rfl rfl, rfl⟩

/-- The logical pages of a command that passes the range check. -/
theorem lpn_lt_of_range {c : RwCommand} {spp : Ssdparams} {parts lpn : Nat}
    (hrange : c.endLpn spp / parts < n) (h : lpn ∈ c.lpns spp) : lpn / parts < n := by
  rw [RwCommand.lpns, List.mem_range'_1] at h
  exact (Nat.div_le_div_right (by omega)).trans_lt hrange

/-- The transfer into the buffer is quiet. -/
theorem quiet_writeTransfer (ns : ConvNs) (req : NvmevRequest) (c : RwCommand) :
    ns.Quiet (ns.writeTransfer req c).2 :=
  quiet_setPerf (.of_eq rfl)

/-- The loop of `conv_write`. -/
theorem Each.writeAllocated (h : ns.Each P) (ht : QuietFree P) (hpage : PageKeeps P C E n)
    {req : NvmevRequest} {c : RwCommand} (hrange : c.endLpn ns.spp / ns.nrParts < n)
    (hc : let (swr, ns') := ns.writeTransfer req c
      Throughout (ConvNs.writeStep req.sqId swr) (PageCond C swr) (c.lpns ns.spp) (swr.stime, ns')) :
    Outcome (ns.writeAllocated req c) (fun r => r.2.Each P) E := by
  have htransfer := h.quiet ht (quiet_writeTransfer ns req c)
  have hparts : (ns.writeTransfer req c).2.nrParts = ns.nrParts := rfl
  unfold ConvNs.writeAllocated
  generalize ns.writeTransfer req c = r at *
  obtain ⟨swr, ns₀⟩ := r
  have hloop : Outcome ((c.lpns ns.spp).foldlM (ConvNs.writeStep req.sqId swr) (swr.stime, ns₀))
      (fun s => s.2.Each P ∧ s.2.nrParts = ns.nrParts) E := by
    refine Throughout.outcome hc _ ?_ ⟨htransfer, hparts⟩
    rintro lpn hlpn s ⟨hs, hparts⟩ hcond
    have hlt : lpn / s.2.nrParts < n := by
      rw [hparts]
      exact lpn_lt_of_range hrange hlpn
    exact (hs.writeStep ht hpage hlt hcond).mono (fun s' hs' => ⟨hs'.1, hs'.2.trans hparts⟩)
      fun _ he => he
  apply hloop.bind
  rintro ⟨latest, ns'⟩ ⟨hns', -⟩
  dsimp only
  split
  · exact hns'
  · exact hns'

/-- `conv_write`. -/
theorem Each.convWrite (h : ns.Each P) (ht : QuietFree P) (hpage : PageKeeps P C E n)
    (hn : ∀ f, P f → f.ssd.sp.ttPgs = n) (hbuf : E .bufferSize) {req : NvmevRequest}
    {c : RwCommand} (hc : ns.EventCond C (.command req (.write c))) :
    Outcome (ns.convWrite req c) (fun r => r.2.Each P) E := by
  unfold ConvNs.convWrite
  split
  · exact h
  rename_i hrange
  rw [show ns.spp.ttPgs = n from hn _ (h.inst 0 h.parts), Nat.not_le] at hrange
  generalize c.bytes = bytes
  have halloc : Outcome (bufferAllocate ns.writeBuffer bytes) (fun _ => True) E :=
    (bufferAllocate_outcome ns.writeBuffer bytes).mono (fun _ _ => trivial) fun e he => by
      rw [he.1]
      exact hbuf
  apply halloc.bind
  rintro ⟨allocated, buf⟩ -
  dsimp only
  split
  · exact h.congr rfl rfl
  have h₀ : ({ ns with writeBuffer := buf } : ConvNs).Each P := h.congr rfl rfl
  exact (h₀.writeAllocated ht hpage hrange (hc buf)).bind fun _ hr => hr

/-! ## Reads and flushes -/

/-- Issuing the aggregated read is quiet. -/
theorem quiet_issue {srd : NandCmd} (hsrd : srd.cmd ≠ .write) (s : ReadState) :
    s.ftl.Quiet (s.issue srd).ftl := by
  unfold ReadState.issue
  split
  · refine ⟨_, rfl, _, ssdAdvanceNand_issued .., fun c hc => ?_⟩
    rw [List.mem_singleton.mp hc]
    exact hsrd
  · exact .refl s.ftl

/-- So is one iteration of the inner loop of `conv_read`. -/
theorem quiet_readStep {srd : NandCmd} (hsrd : srd.cmd ≠ .write) (parts : Nat) (s : ReadState)
    (lpn : Nat) : s.ftl.Quiet (ReadState.step parts srd s lpn).ftl := by
  unfold ReadState.step
  cases s.ftl.getMaptblEnt (lpn / parts) with
  | none => exact .refl s.ftl
  | some cur =>
    dsimp only
    split
    · exact .refl s.ftl
    · split
      · exact .refl s.ftl
      · exact quiet_issue hsrd s

theorem quiet_readLoop {srd : NandCmd} (hsrd : srd.cmd ≠ .write) (parts : Nat) (lpns : List Nat)
    (s : ReadState) : s.ftl.Quiet (lpns.foldl (ReadState.step parts srd) s).ftl := by
  induction lpns generalizing s with
  | nil => exact .refl s.ftl
  | cons lpn rest ih => exact (quiet_readStep hsrd parts s lpn).trans (ih _)

/-- One iteration of the outer loop of `conv_read`. -/
theorem quiet_readPart {srd : NandCmd} (hsrd : srd.cmd ≠ .write) (startLpn endLpn : Nat)
    (s : Nat × ConvNs) (i : Nat) : s.2.Quiet (readPart startLpn endLpn srd s i).2 := by
  unfold readPart
  dsimp only
  split
  · exact quiet_setFtl ((quiet_readLoop hsrd _ _ _).trans (quiet_issue hsrd _))
  · exact .refl s.2

theorem quiet_convRead (ns : ConvNs) (req : NvmevRequest) (c : RwCommand) :
    ns.Quiet (ns.convRead req c).2 := by
  unfold convRead
  dsimp only
  split
  · exact .refl ns
  · refine quiet_foldl (quiet_readPart ?_ _ _) _ (req.nsecsStart, ns)
    simp

theorem quiet_convFlush (ns : ConvNs) : ns.Quiet ns.convFlush.2 := by
  have hclock : ns.Quiet (ns.setFtl 0 ((ns.ftls 0).withPerf (ns.ftls 0).ssd.perf.readClock.2)) :=
    quiet_setPerf (.of_eq rfl)
  unfold convFlush
  dsimp only
  refine hclock.trans (quiet_foldl (fun s i => ?_) _ (_, _))
  exact quiet_setPerf (.of_eq rfl)

/-! ## Runs -/

theorem Each.completeInternal (h : ns.Each P) (i : Nat) : (ns.completeInternal i).Each P := by
  unfold ConvNs.completeInternal
  split
  · exact h
  · exact h.congr rfl rfl

/-- One event. -/
theorem Each.step (h : ns.Each P) (ht : QuietFree P) (hpage : PageKeeps P C E n)
    (hn : ∀ f, P f → f.ssd.sp.ttPgs = n) (hbuf : E .bufferSize) {ev : ConvEvent}
    (hc : ns.EventCond C ev) : Outcome (ns.step ev) (ConvNs.Each P) E := by
  cases ev with
  | release i => exact h.completeInternal i
  | command req cmd =>
    cases cmd with
    | write c => exact (h.convWrite ht hpage hn hbuf hc).bind fun _ hr => hr
    | read c => exact h.quiet ht (ns.quiet_convRead req c)
    | flush => exact h.quiet ht ns.quiet_convFlush
    | other => exact h

/-- A run of events that all meet the condition. -/
theorem Each.run (h : ns.Each P) (ht : QuietFree P) (hpage : PageKeeps P C E n)
    (hn : ∀ f, P f → f.ssd.sp.ttPgs = n) (hbuf : E .bufferSize) {events : List ConvEvent}
    (hc : Throughout ConvNs.step (EventCond C) events ns) :
    Outcome (events.foldlM ConvNs.step ns) (ConvNs.Each P) E :=
  hc.outcome _ (fun _ _ _ hs hcond => hs.step ht hpage hn hbuf hcond) h

end ConvNs

/-- `conv_init_namespace` when every instance is created with `P`. -/
theorem convInitNamespace_each {P : ConvFtl → Prop} {E : Fault → Prop} {cfg : SsdConfig}
    {mem : ConvMemory} {clock : Clock} {size : Nat} {spp : Ssdparams}
    (hparts : 0 < cfg.ssdPartitions) (hspp : convSsdparams cfg mem.spp size = .ok spp)
    (hinit : ∀ f, Outcome (convInitFtl f cfg.enableSlcCache convInitParams (ssdInit spp clock)) P E) :
    Outcome (convInitNamespace cfg mem clock size) (ConvNs.Each P) E := by
  unfold convInitNamespace
  rw [hspp, ok_bind]
  have hloop := outcome_foldlM_range (E := E) (n := cfg.ssdPartitions) (s := mem.ftls)
    (f := fun ftls i => do
      let f ← convInitFtl (ftls i) cfg.enableSlcCache convInitParams (ssdInit spp clock)
      return Function.update ftls i f)
    (fun k ftls => ∀ i < k, P (ftls i)) (fun k _ ftls hftls => ?_) nofun
  · refine hloop.bind fun ftls hftls => ⟨hparts, hftls⟩
  · refine (hinit (ftls k)).bind fun f hf i hi => ?_
    by_cases he : i = k
    · rw [he, Function.update_self]
      exact hf
    · rw [Function.update_of_ne he]
      exact hftls i (by omega)

/-! ## Builds with the SLC cache -/

/-- What holds of an instance between commands. -/
def ConvFtl.Reached (g : Geometry) (f : ConvFtl) : Prop :=
  ∃ cls w, f.Idle g cls w ∧ (4 ≤ g.lines .slc → Paced g w f)

/-- The faults that stop a run of a device of this geometry. -/
def RunFault (g : Geometry) (e : Fault) : Prop :=
  e = .bufferSize ∨ (e = .pageNotFree ∧ ∃ m, 2 ^ pageBits < g.pgsPerBlk m) ∨
    (e = .noFreeLine .user ∧ g.lines .slc < 4) ∨ DivFault g e ∨ e = .noFreeLine .gc

theorem reached_timingFree (g : Geometry) : TimingFree (ConvFtl.Reached g) :=
  fun _ _ ⟨cls, w, hidle, hpaced⟩ =>
    ⟨cls, w, hidle.untracked, fun h4 => ⟨(hpaced h4).credits, (hpaced h4).refill, (hpaced h4).reserve⟩⟩

theorem reached_pageKeeps (g : Geometry) :
    ConvNs.PageKeeps (ConvFtl.Reached g) (fun _ _ _ => True) (RunFault g) g.ttPgs := by
  rintro f swr lpn ⟨cls, w, hidle, hpaced⟩ hlpn -
  have hpos := g.oneshots_pos ((Nat.zero_le lpn).trans_lt hlpn)
  refine (hidle.writePage hpos hlpn swr).mono ?_ ?_
  · rintro r ⟨cls', w', hidle', hpaced'⟩
    exact ⟨cls', w', hidle', fun h4 => hpaced' (hpaced h4)⟩
  · rintro e (hpage | ⟨he, hnil⟩ | hdiv | ⟨he, -⟩)
    · exact Or.inr (Or.inl hpage)
    · refine Or.inr (Or.inr (Or.inl ⟨he, ?_⟩))
      by_contra h4
      have hres := (hpaced (Nat.le_of_not_lt h4)).reserve
      rw [hnil] at hres
      simp at hres
    · exact Or.inr (Or.inr (Or.inr (Or.inl hdiv)))
    · exact Or.inr (Or.inr (Or.inr (Or.inr he)))

theorem reached_ttPgs {g : Geometry} (f : ConvFtl) (h : f.Reached g) : f.ssd.sp.ttPgs = g.ttPgs := by
  obtain ⟨cls, w, hidle, -⟩ := h
  exact hidle.ok.static.fits.ttPgs

/-- A new namespace of a build with the SLC cache. -/
theorem slcInit_outcome (cfg : SlcConfig) (mem : ConvMemory) (clock : Clock) (size : Nat) :
    convInitNamespace cfg.toSsdConfig mem clock size = .error .initParams ∨
    ∃ (g : Geometry) (b : BaseParams) (spp : Ssdparams), g.Fits spp ∧ g.From cfg b ∧
      baseParams cfg.toSsdConfig size cfg.ssdPartitions = some b ∧
      convSsdparams cfg.toSsdConfig mem.spp size = .ok spp ∧
      Outcome (convInitNamespace cfg.toSsdConfig mem clock size) (ConvNs.Each (ConvFtl.Reached g))
        (RunFault g) := by
  cases hr : ssdInitParamsSlc mem.spp cfg.toSsdConfig size cfg.ssdPartitions with
  | none =>
    left
    simp only [convInitNamespace, convSsdparams, cfg.enabled, if_true, hr]
    rfl
  | some spp =>
    have hspp : convSsdparams cfg.toSsdConfig mem.spp size = .ok spp := by
      simp only [convSsdparams, cfg.enabled, if_true, hr]
    obtain ⟨g, b, hfits, hfrom, hb⟩ := ssdInitParamsSlc_fits hr
    refine Or.inr ⟨g, b, spp, hfits, hfrom, hb, hspp, convInitNamespace_each
      cfg.parts_pos hspp fun f => ?_⟩
    rw [cfg.enabled]
    refine (convInitFtl_spec f clock hfits).mono ?_ ?_
    · rintro f' ⟨cls, w, hidle, -, hpaced⟩
      exact ⟨cls, w, hidle, hpaced⟩
    · rintro e ⟨m, he, hm⟩
      cases m
      · exact Or.inr (Or.inr (Or.inl ⟨he, by omega⟩))
      · exact Or.inr (Or.inr (Or.inr (Or.inr he)))

/-- A run of a build with the SLC cache. -/
theorem slcRun_outcome (cfg : SlcConfig) (mem : ConvMemory) (clock : Clock) (size : Nat)
    (events : List ConvEvent) :
    convRun cfg.toSsdConfig mem clock size events = .error .initParams ∨
    ∃ (g : Geometry) (b : BaseParams) (spp : Ssdparams), g.Fits spp ∧ g.From cfg b ∧
      baseParams cfg.toSsdConfig size cfg.ssdPartitions = some b ∧
      convSsdparams cfg.toSsdConfig mem.spp size = .ok spp ∧
      Outcome (convRun cfg.toSsdConfig mem clock size events) (ConvNs.Each (ConvFtl.Reached g))
        (RunFault g) := by
  rcases slcInit_outcome cfg mem clock size with
    herr | ⟨g, b, spp, hfits, hfrom, hb, hspp, hinit⟩
  · left
    rw [convRun, herr]
    rfl
  · refine Or.inr ⟨g, b, spp, hfits, hfrom, hb, hspp, hinit.bind fun ns hns => ?_⟩
    refine hns.run (reached_timingFree g).quietFree (reached_pageKeeps g) reached_ttPgs (Or.inl rfl)
      (throughout_of_forall (fun ns' ev => ?_) events ns)
    cases ev with
    | release i => trivial
    | command req cmd =>
      cases cmd with
      | write c => exact fun buf => throughout_of_forall (fun _ _ => trivial) _ _
      | _ => trivial

end NvmeVirt
