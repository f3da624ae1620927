import NvmeVirt.Conv.Integrity

/-!
# The stripes of a namespace

`conv_write` gives the logical page `lpn` to the instance `lpn % nr_parts`, which knows it as
`lpn / nr_parts`. A run of a namespace is therefore one run of page writes for each instance:
the pages of the accepted commands that fall to it, in their order, interleaved with changes of
the timing state.
-/

namespace NvmeVirt

open Checked

/-! ## The log of a run -/

/-- One event, beside a log to which every accepted write command adds its entries. -/
def ConvNs.logStep {α : Type} (entries : ConvNs → RwCommand → List α) (s : ConvNs × List α) :
    ConvEvent → Except Fault (ConvNs × List α)
  | .command req (.write c) => do
    let (target, ns) ← s.1.convWrite req c
    return (ns, if target.isSome then s.2 ++ entries s.1 c else s.2)
  | ev => do
    let ns ← s.1.step ev
    return (ns, s.2)

/-- A run beside its log. -/
def convRunLog {α : Type} (entries : ConvNs → RwCommand → List α) (cfg : SsdConfig)
    (mem : ConvMemory) (clock : Clock) (size : Nat) (events : List ConvEvent) :
    Except Fault (ConvNs × List α) := do
  let ns ← convInitNamespace cfg mem clock size
  events.foldlM (ConvNs.logStep entries) (ns, [])

/-- The logical pages of a command. -/
def ConvNs.lpns (ns : ConvNs) (c : RwCommand) : List Nat := c.lpns ns.spp

/-- A run with the logical pages of the write commands that it accepts. -/
def convLog (cfg : SsdConfig) (mem : ConvMemory) (clock : Clock) (size : Nat)
    (events : List ConvEvent) : Except Fault (ConvNs × List Nat) :=
  convRunLog ConvNs.lpns cfg mem clock size events

/-- The pages of a log that fall to the instance `i` of `n`, under the names it knows them by. -/
def stripe (n i : Nat) (log : List Nat) : List Nat :=
  (log.filter fun lpn => lpn % n = i).map (· / n)

/-- The pages that an instance is told to write. -/
def writtenBy (events : List FtlEvent) : List Nat :=
  events.filterMap fun
    | .write _ lpn => some lpn
    | .tick _ => none

variable {ns ns' : ConvNs} {log log' : List Nat} {n i lpn : Nat}

theorem stripe_append (n i : Nat) (log log' : List Nat) :
    stripe n i (log ++ log') = stripe n i log ++ stripe n i log' := by
  simp [stripe]

theorem mem_stripe (hi : i < n) : lpn ∈ stripe n i log ↔ lpn * n + i ∈ log := by
  have hn := Nat.zero_lt_of_lt hi
  simp only [stripe, List.mem_map, List.mem_filter, decide_eq_true_eq]
  constructor
  · rintro ⟨k, ⟨hmem, hmod⟩, rfl⟩
    rwa [← hmod, Nat.div_add_mod']
  · intro hmem
    refine ⟨_, ⟨hmem, ?_⟩, ?_⟩
    · exact Nat.mul_add_mod_of_lt hi
    · rw [Nat.mul_comm, Nat.mul_add_div hn, Nat.div_eq_of_lt hi, Nat.add_zero]

theorem writtenBy_append (evs evs' : List FtlEvent) :
    writtenBy (evs ++ evs') = writtenBy evs ++ writtenBy evs' :=
  List.filterMap_append ..

/-- The log does not change the run. -/
theorem logStep_fst {α : Type} (entries : ConvNs → RwCommand → List α) (s : ConvNs × List α)
    (ev : ConvEvent) : (ConvNs.logStep entries s ev).map Prod.fst = s.1.step ev := by
  unfold ConvNs.logStep
  split
  · next req c =>
    show _ = (s.1.convWrite req c >>= fun r => Except.ok r.2)
    cases s.1.convWrite req c <;> rfl
  · cases s.1.step _ <;> rfl

theorem logRun_fst {α : Type} {entries : ConvNs → RwCommand → List α} (events : List ConvEvent)
    (s : ConvNs × List α) :
    (events.foldlM (ConvNs.logStep entries) s).map Prod.fst = events.foldlM ConvNs.step s.1 := by
  induction events generalizing s with
  | nil => rfl
  | cons ev rest ih =>
    rw [List.foldlM_cons, List.foldlM_cons, ← logStep_fst entries]
    cases ConvNs.logStep entries s ev with
    | error e => rfl
    | ok s' => exact ih s'

theorem convRunLog_fst {α : Type} (entries : ConvNs → RwCommand → List α) (cfg : SsdConfig)
    (mem : ConvMemory) (clock : Clock) (size : Nat) (events : List ConvEvent) :
    (convRunLog entries cfg mem clock size events).map Prod.fst =
      convRun cfg mem clock size events := by
  unfold convRunLog convRun
  cases convInitNamespace cfg mem clock size with
  | error e => rfl
  | ok ns => exact logRun_fst events (ns, [])

/-! ## One instance at a time -/

/-- From `f` the instance came to `f'` by a run of page writes, of the pages `pages`. -/
def ConvFtl.Wrote (bound : Nat) (f : ConvFtl) (pages : List Nat) (f' : ConvFtl) : Prop :=
  ∃ evs : List FtlEvent, (∀ ev ∈ evs, ev.InRange bound) ∧ evs.foldlM ConvFtl.event f = .ok f' ∧
    writtenBy evs = pages

variable {bound : Nat} {f f' : ConvFtl} {pages : List Nat}

theorem ConvFtl.Wrote.refl (bound : Nat) (f : ConvFtl) : f.Wrote bound [] f :=
  ⟨[], List.forall_mem_nil _, rfl, rfl⟩

/-- One more event. -/
theorem ConvFtl.Wrote.event {ev : FtlEvent} {f'' : ConvFtl} (h : f.Wrote bound pages f')
    (hev : ev.InRange bound) (hr : f'.event ev = .ok f'') :
    f.Wrote bound (pages ++ writtenBy [ev]) f'' := by
  obtain ⟨evs, hall, hrun, rfl⟩ := h
  refine ⟨evs ++ [ev], fun ev' hmem => ?_, ?_, writtenBy_append _ _⟩
  · rcases List.mem_append.mp hmem with hmem | hmem
    · exact hall ev' hmem
    · rwa [List.mem_singleton.mp hmem]
  · rw [List.foldlM_append, hrun, ok_bind, List.foldlM_cons, hr]
    rfl

/-- A change of the timing state writes no page. -/
theorem ConvFtl.Wrote.quiet {f'' : ConvFtl} (h : f.Wrote bound pages f') (hq : f'.Quiet f'') :
    f.Wrote bound pages f'' := by
  obtain ⟨π, rfl, -⟩ := hq
  have : f.Wrote bound (pages ++ writtenBy [.tick π]) _ := h.event trivial rfl
  rwa [show writtenBy [.tick π] = [] from rfl, List.append_nil] at this

namespace ConvNs

/-- Each of the `n` instances of `ns` came from its first state `base` by writing its stripe of
the log. -/
structure Striped (bound n : Nat) (base : Nat → ConvFtl) (log : List Nat) (ns : ConvNs) : Prop where
  parts : ns.nrParts = n
  inst : ∀ i < n, (base i).Wrote bound (stripe n i log) (ns.ftls i)

variable {base : Nat → ConvFtl}

theorem Striped.congr (h : ns.Striped bound n base log) (hf : ns'.ftls = ns.ftls)
    (hn : ns'.nrParts = ns.nrParts) : ns'.Striped bound n base log := by
  refine ⟨hn.trans h.parts, fun i hi => ?_⟩
  rw [hf]
  exact h.inst i hi

theorem Striped.quiet (h : ns.Striped bound n base log) (hq : ns.Quiet ns') :
    ns'.Striped bound n base log :=
  ⟨hq.nrParts.trans h.parts, fun i hi => (h.inst i hi).quiet (hq.inst i)⟩

/-- One iteration of the loop of `conv_write` adds the page to the stripe of its instance. -/
theorem Striped.writeStep {s s' : Nat × ConvNs} {sqId : Nat} {swr : NandCmd}
    (h : s.2.Striped bound n base log) (hlpn : lpn / n < bound)
    (hr : ConvNs.writeStep sqId swr s lpn = .ok s') :
    s'.2.Striped bound n base (log ++ [lpn]) := by
  obtain ⟨latest, ns⟩ := s
  obtain ⟨⟨completed, f⟩, hpage, hr⟩ := bind_eq_ok.mp hr
  have hparts : ns.nrParts = n := h.parts
  have hset : (ns.setFtl (lpn % ns.nrParts) f).Striped bound n base (log ++ [lpn]) := by
    refine ⟨hparts, fun j hj => ?_⟩
    have hj := h.inst j hj
    simp only [ConvNs.setFtl, stripe_append, hparts]
    by_cases he : j = lpn % n
    · subst he
      have hev : (ns.ftls (lpn % n)).event (.write swr (lpn / n)) = .ok f := by
        rw [← hparts]
        show ((ns.ftls (lpn % ns.nrParts)).writePage swr (lpn / ns.nrParts) >>= _) = _
        rw [hpage]
        rfl
      have hone : stripe n (lpn % n) [lpn] = writtenBy [.write swr (lpn / n)] := by
        simp [stripe, writtenBy]
      rw [if_pos rfl, hone]
      exact hj.event hlpn hev
    · have hnone : stripe n j [lpn] = [] := by
        simp [stripe, Ne.symm he]
      rw [if_neg he, hnone, List.append_nil]
      exact hj.quiet (ConvFtl.quiet_share _ f)
  cases completed with
  | none =>
    cases hr
    exact hset
  | some t =>
    cases hr
    exact hset.congr rfl rfl

/-- The loop of `conv_write` adds its pages. -/
theorem Striped.writeLoop {sqId : Nat} {swr : NandCmd} (lpns : List Nat) {s s' : Nat × ConvNs}
    (h : s.2.Striped bound n base log) (hlpns : ∀ lpn ∈ lpns, lpn / n < bound)
    (hr : lpns.foldlM (ConvNs.writeStep sqId swr) s = .ok s') :
    s'.2.Striped bound n base (log ++ lpns) := by
  induction lpns generalizing s log with
  | nil =>
    cases hr
    rwa [List.append_nil]
  | cons lpn rest ih =>
    rw [List.foldlM_cons] at hr
    obtain ⟨s₁, hstep, hrest⟩ := bind_eq_ok.mp hr
    have h₁ := h.writeStep (hlpns lpn (List.mem_cons_self ..)) hstep
    rw [← List.singleton_append, ← List.append_assoc]
    exact ih h₁ (fun lpn' hmem => hlpns lpn' (List.mem_cons_of_mem _ hmem)) hrest

/-- The part of `conv_write` after the buffer has been allocated. -/
theorem Striped.writeAllocated {req : NvmevRequest} {c : RwCommand} {r : Nat × ConvNs}
    (h : ns.Striped bound n base log) (hrange : c.endLpn ns.spp / n < bound)
    (hr : ns.writeAllocated req c = .ok r) :
    r.2.Striped bound n base (log ++ c.lpns ns.spp) := by
  have htransfer := h.quiet (quiet_writeTransfer ns req c)
  unfold ConvNs.writeAllocated at hr
  generalize ns.writeTransfer req c = x at *
  obtain ⟨swr, ns₀⟩ := x
  obtain ⟨⟨latest, ns₁⟩, hloop, hend⟩ := bind_eq_ok.mp hr
  have hloop := htransfer.writeLoop _ (fun _ hmem => lpn_lt_of_range hrange hmem) hloop
  dsimp only at hend
  split at hend
  · cases hend
    exact hloop
  · cases hend
    exact hloop

/-- `conv_write` adds the pages of an accepted command, and none of a rejected one. -/
theorem Striped.convWrite {req : NvmevRequest} {c : RwCommand} {target : Option Nat}
    (h : ns.Striped bound n base log) (hbound : ns.spp.ttPgs = bound)
    (hr : ns.convWrite req c = .ok (target, ns')) :
    ns'.Striped bound n base (if target.isSome then log ++ c.lpns ns.spp else log) := by
  unfold ConvNs.convWrite at hr
  split at hr
  · cases hr
    exact h
  next hrange =>
  rw [hbound, h.parts, Nat.not_le] at hrange
  obtain ⟨⟨allocated, buf⟩, -, hr⟩ := bind_eq_ok.mp hr
  dsimp only at hr
  have h₀ : ({ ns with writeBuffer := buf } : ConvNs).Striped bound n base log := h.congr rfl rfl
  split at hr
  · cases hr
    exact h₀
  · obtain ⟨⟨t, ns₁⟩, halloc, hr⟩ := bind_eq_ok.mp hr
    cases hr
    exact h₀.writeAllocated hrange halloc

/-- One event. -/
theorem Striped.logStep {ev : ConvEvent} (h : ns.Striped bound n base log)
    (hbound : ns.spp.ttPgs = bound) (hr : ConvNs.logStep lpns (ns, log) ev = .ok (ns', log')) :
    ns'.Striped bound n base log' := by
  cases ev with
  | release i =>
    cases hr
    unfold ConvNs.completeInternal
    split
    · exact h
    · exact h.congr rfl rfl
  | command req cmd =>
    cases cmd with
    | write c =>
      obtain ⟨⟨target, ns₁⟩, hwrite, hr⟩ := bind_eq_ok.mp hr
      cases hr
      exact h.convWrite hbound hwrite
    | read c =>
      cases hr
      exact h.quiet (ns.quiet_convRead req c)
    | flush =>
      cases hr
      exact h.quiet ns.quiet_convFlush
    | other =>
      cases hr
      exact h

/-- An event of a build with the SLC cache keeps what holds between commands. -/
theorem Each.reached_step {g : Geometry} {ev : ConvEvent} (h : ns.Each (ConvFtl.Reached g))
    (hr : ns.step ev = .ok ns') : ns'.Each (ConvFtl.Reached g) := by
  have hcond : EventCond (fun _ _ _ => True) ns ev := by
    cases ev with
    | release i => trivial
    | command req cmd =>
      cases cmd with
      | write c => exact fun buf => throughout_of_forall (fun _ _ => trivial) _ _
      | _ => trivial
  exact (h.step (reached_timingFree g).quietFree (reached_pageKeeps g) reached_ttPgs (Or.inl rfl)
    hcond).of_ok hr

/-- A run with its log. -/
theorem Striped.logRun {g : Geometry} {events : List ConvEvent}
    (h : ns.Striped g.ttPgs n base log) (heach : ns.Each (ConvFtl.Reached g))
    (hr : events.foldlM (ConvNs.logStep lpns) (ns, log) = .ok (ns', log')) :
    ns'.Striped g.ttPgs n base log' := by
  induction events generalizing ns log with
  | nil =>
    cases hr
    exact h
  | cons ev rest ih =>
    rw [List.foldlM_cons] at hr
    obtain ⟨⟨ns₁, log₁⟩, hstep, hrest⟩ := bind_eq_ok.mp hr
    have hns : ns.step ev = .ok ns₁ := by
      rw [← logStep_fst lpns (ns, log) ev, hstep]
      rfl
    exact ih (h.logStep (reached_ttPgs _ (heach.inst 0 heach.parts)) hstep)
      (heach.reached_step hns) hrest

end ConvNs

/-! ## Runs -/

/-- `conv_init_namespace` creates its instances one by one. -/
theorem convInitNamespace_ftls {cfg : SsdConfig} {mem : ConvMemory} {clock : Clock} {size : Nat}
    {spp : Ssdparams} (hspp : convSsdparams cfg mem.spp size = .ok spp)
    (hr : convInitNamespace cfg mem clock size = .ok ns) :
    ns.nrParts = cfg.ssdPartitions ∧ ∀ i < ns.nrParts,
      convInitFtl (mem.ftls i) cfg.enableSlcCache convInitParams (ssdInit spp clock) =
        .ok (ns.ftls i) := by
  unfold convInitNamespace at hr
  rw [hspp, ok_bind] at hr
  obtain ⟨ftls, hloop, hr⟩ := bind_eq_ok.mp hr
  cases hr
  -- the instances from `k` on are still the memory that `kmalloc` returned
  have hinv := outcome_foldlM_range (E := fun _ => True) (n := cfg.ssdPartitions) (s := mem.ftls)
    (f := fun ftls i => do
      let f ← convInitFtl (ftls i) cfg.enableSlcCache convInitParams (ssdInit spp clock)
      return Function.update ftls i f)
    (fun k ftls => (∀ i, k ≤ i → ftls i = mem.ftls i) ∧ ∀ i < k,
      convInitFtl (mem.ftls i) cfg.enableSlcCache convInitParams (ssdInit spp clock) =
        .ok (ftls i)) (fun k _ ftls hftls => ?_) ⟨fun _ _ => rfl, nofun⟩
  · exact ⟨rfl, (hinv.of_ok hloop).2⟩
  · obtain ⟨hrest, hdone⟩ := hftls
    refine Outcome.of_forall_ok fun ftls' hr => ?_
    obtain ⟨f, hf, hr⟩ := bind_eq_ok.mp hr
    cases hr
    rw [hrest k (Nat.le_refl k)] at hf
    refine ⟨fun i hi => ?_, fun i hi => ?_⟩
    · rw [Function.update_of_ne (by omega)]
      exact hrest i (by omega)
    · by_cases he : i = k
      · rw [he, Function.update_self]
        exact hf
      · rw [Function.update_of_ne he]
        exact hdone i (by omega)

/-- A run from the instances that `conv_init_namespace` has created. -/
theorem slcRun_striped {cfg : SlcConfig} {mem : ConvMemory} {clock : Clock} {size : Nat}
    {events : List ConvEvent} (h : convRun cfg.toSsdConfig mem clock size events = .ok ns) :
    ∃ log, ∃ g : Geometry, ∃ spp base, convLog cfg.toSsdConfig mem clock size events = .ok (ns, log) ∧
      g.Fits spp ∧ convSsdparams cfg.toSsdConfig mem.spp size = .ok spp ∧ 0 < ns.nrParts ∧
      (∀ i < ns.nrParts, convInitFtl (mem.ftls i) true convInitParams (ssdInit spp clock) =
        .ok (base i)) ∧
      ns.Striped g.ttPgs ns.nrParts base log := by
  have hfst := convRunLog_fst ConvNs.lpns cfg.toSsdConfig mem clock size events
  rw [h] at hfst
  obtain ⟨⟨ns', log⟩, hlog, rfl⟩ := except_map_eq_ok.mp hfst
  rcases slcInit_outcome cfg mem clock size with
    herr | ⟨g, b, spp, hfits, -, -, hspp, hinit⟩
  · rw [convRunLog, herr] at hlog
    cases hlog
  have hrun := hlog
  unfold convRunLog at hrun
  obtain ⟨ns₀, hns₀, hrun⟩ := bind_eq_ok.mp hrun
  obtain ⟨-, hbase⟩ := convInitNamespace_ftls hspp hns₀
  have heach := hinit.of_ok hns₀
  have hstart : ns₀.Striped g.ttPgs ns₀.nrParts ns₀.ftls [] := ⟨rfl, fun i _ => .refl _ _⟩
  have hend := hstart.logRun heach hrun
  have hparts : ns'.nrParts = ns₀.nrParts := hend.parts
  rw [cfg.enabled, ← hparts] at hbase
  rw [← hparts] at hend
  exact ⟨log, g, spp, ns₀.ftls, hlog, hfits, hspp, hparts ▸ heach.parts, hbase, hend⟩

/-- In every run each instance behaves as a device of its own: it has written exactly the pages
of the accepted writes that fall to it, in their order. -/
theorem instances_see_stripes (cfg : SlcConfig) (mem : ConvMemory) (clock : Clock) (size : Nat)
    (events : List ConvEvent) (ns : ConvNs)
    (h : convRun cfg.toSsdConfig mem clock size events = .ok ns) :
    ∃ log spp, convLog cfg.toSsdConfig mem clock size events = .ok (ns, log) ∧
      convSsdparams cfg.toSsdConfig mem.spp size = .ok spp ∧
      ∀ i < ns.nrParts, ∃ evs : List FtlEvent, (∀ ev ∈ evs, ev.InRange spp.ttPgs) ∧
        ftlRun (mem.ftls i) spp clock evs = .ok (ns.ftls i) ∧
        writtenBy evs = stripe ns.nrParts i log := by
  obtain ⟨log, g, spp, base, hlog, hfits, hspp, -, hbase, hend⟩ := slcRun_striped h
  refine ⟨log, spp, hlog, hspp, fun i hi => ?_⟩
  obtain ⟨evs, hall, hevs, hpages⟩ := hend.inst i hi
  refine ⟨evs, by rwa [hfits.ttPgs], ?_, hpages⟩
  rw [ftlRun, hbase i hi, ok_bind]
  exact hevs

/-- Two pages of different instances, after a command that is out of range. -/
theorem instances_see_stripes_two : ∃ (ns : ConvNs) (log : List Nat) (spp : Ssdparams),
    convLog samsung970pro default default (mb 3071)
      [.command ⟨1, 5⟩ (.write ⟨2 ^ 40, 7, false⟩), .command ⟨1, 9⟩ (.write ⟨8, 15, false⟩)] =
        .ok (ns, log) ∧
    log = [1, 2] ∧ ∃ evs : List FtlEvent, ftlRun default spp default evs = .ok (ns.ftls 1) ∧
      writtenBy evs = [0] := by
  have hok : (convLog samsung970pro default default (mb 3071)
      [.command ⟨1, 5⟩ (.write ⟨2 ^ 40, 7, false⟩), .command ⟨1, 9⟩ (.write ⟨8, 15, false⟩)]).map
        (fun s => (decide (s.1.nrParts = 4), s.2)) = .ok (true, [1, 2]) := by decide +kernel
  obtain ⟨⟨ns, log⟩, hlog, hns⟩ := except_map_eq_ok.mp hok
  obtain ⟨hparts, rfl⟩ := Prod.mk.inj hns
  have hparts : ns.nrParts = 4 := of_decide_eq_true hparts
  have hrun := convRunLog_fst ConvNs.lpns samsung970pro default default (mb 3071)
    [.command ⟨1, 5⟩ (.write ⟨2 ^ 40, 7, false⟩), .command ⟨1, 9⟩ (.write ⟨8, 15, false⟩)]
  rw [show convRunLog _ _ _ _ _ _ = _ from hlog] at hrun
  obtain ⟨log', spp, hlog', -, hinst⟩ := instances_see_stripes samsung970proSlc default default
    (mb 3071) _ ns hrun.symm
  obtain ⟨-, rfl⟩ := Prod.mk.inj (Except.ok.inj (hlog.symm.trans hlog'))
  obtain ⟨evs, -, hevs, hpages⟩ := hinst 1 (by omega)
  rw [hparts] at hpages
  exact ⟨ns, [1, 2], spp, hlog, rfl, evs, hevs, hpages⟩

end NvmeVirt
