import Mathlib.Algebra.Order.BigOperators.Group.List
import NvmeVirt.Conv.Striping
import NvmeVirt.Conv.Transfers

/-!
# The account of the write buffer

A write takes the bytes of its blocks out of the buffer. They come back in whole pages, a word
line at a time, when a worker completes the internal operation of the word line. What a page
write adds to the open word line of its instance, or hands to an internal operation, is always
one page; so the account of a run is off by what the commands do not fill of their pages.
-/

namespace NvmeVirt

open Checked

variable {g : Geometry} {cls cls' : Nat → LineClass} {w w' : LineMode → Nat} {f f' : ConvFtl}
  {spp : Ssdparams} {ns ns' : ConvNs} {lpn : Nat} {log log' : List RwCommand}

/-- The pages of the open word line that `conv_write` fills. -/
def ConvFtl.held (f : ConvFtl) : Nat := f.wp.pg % f.ssd.sp.pgsPerOneshotpgSlc.toNat

/-- Every byte of the buffer that the namespace can account for: it is free, an internal
operation gives it back, or its page waits in an open word line. -/
def ConvNs.accounted (ns : ConvNs) : Nat :=
  ns.writeBuffer.remaining + (ns.pending.map InternalOp.buffsToRelease).sum +
    ns.spp.pgsz * ∑ i ∈ Finset.range ns.nrParts, (ns.ftls i).held

/-- The command covers its pages completely. -/
def RwCommand.WholePages (c : RwCommand) : Prop := 8 ∣ c.slba ∧ 8 ∣ c.length + 1

instance (c : RwCommand) : Decidable c.WholePages := inferInstanceAs (Decidable (_ ∧ _))

theorem RwCommand.Wf.bytes {c : RwCommand} (h : c.Wf) : c.bytes = 512 * (c.length + 1) := by
  have hlt := h.length_lt
  rw [RwCommand.bytes, lbaToByte, Nat.shiftLeft_eq, lbaBits, u64, Nat.mod_eq_of_lt (by omega)]
  omega

/-- A command whose blocks are not numbered past the 64 bits fits into its pages, and fills them
when it consists of whole pages. -/
theorem RwCommand.Wf.bytes_le {c : RwCommand} (h : c.Wf) (hspp : g.Fits spp)
    (hlt : c.slba + c.length < 2 ^ 64) :
    c.bytes ≤ spp.pgsz * (c.lpns spp).length ∧
      (c.bytes = spp.pgsz * (c.lpns spp).length ↔ c.WholePages) := by
  have hend : u64 (c.slba + (c.length + 1) - 1) = c.slba + c.length := by
    rw [u64, Nat.mod_eq_of_lt (by omega)]
    omega
  rw [h.bytes, hspp.pgsz, RwCommand.lpns, List.length_range', RwCommand.startLpn, RwCommand.endLpn,
    hspp.secsPerPg, hend, RwCommand.WholePages]
  omega

/-! ## One page -/

theorem Geometry.Fits.oneshot_slc (h : g.Fits spp) :
    spp.pgsPerOneshotpgSlc.toNat = g.pgsPerOneshotpg .slc := by
  have hslc : spp.pgsPerOneshotpgSlc = g.pgsPerOneshotpg .slc := h.pgsPerOneshotpg .slc
  rw [hslc, Int.toNat_natCast]

/-- A page is at its place in the word line. -/
theorem Geometry.rank_mod (g : Geometry) (m : LineMode) (ch lun pg : Nat) :
    g.rank m ch lun pg % g.pgsPerOneshotpg m = pg % g.pgsPerOneshotpg m := by
  rw [Geometry.rank, Nat.mul_comm _ (g.pgsPerOneshotpg m), Nat.mul_add_mod, Nat.mod_mod]

/-- The pages held follow from the rank of the write pointer. -/
theorem ConvFtl.Ok.held (h : f.Ok g cls w) : f.held = w .slc % g.pgsPerOneshotpg .slc := by
  have hrank : g.rank .slc f.wp.ch f.wp.lun f.wp.pg = w .slc := (h.wp .slc).rank
  rw [ConvFtl.held, h.static.fits.oneshot_slc, ← hrank, g.rank_mod]

/-- The page that was placed has the rank of the write pointer: it was free, and is the only one
written since. -/
theorem PagePlaced.rank {m : LineMode} {p : Ppa} (h : PagePlaced g m lpn f p f')
    (hok : f.Ok g cls w)
    (hpools : f'.PoolsOk g cls f'.cur (Function.update w m (w m + 1))) :
    g.rank m p.ch p.lun p.pg = w m := by
  have hcur : f.cur m = some p.blk := congrArg some h.blk.symm
  obtain ⟨hm, hcls⟩ := ((hok.pools.cont m).current p.blk).mp hcur
  have hpool : g.pool p.blk = m := g.hasLine_pool hm
  have hpg := h.valid.pg
  rw [hpool] at hpg
  have hbefore := hok.pools.lineOk h.valid
  have hafter := hpools.lineOk h.valid
  rw [hcls, hpool] at hbefore hafter
  rw [Function.update_self] at hafter
  have hfree := (hbefore.written rfl _ h.valid.mem_dies p.pg hpg).not
  have hvalid := hafter.written rfl _ h.valid.mem_dies p.pg hpg
  rw [← h.valid.addr_eq] at hfree hvalid
  have hlt : g.rank m p.ch p.lun p.pg < w m + 1 := by
    refine hvalid.mp ?_
    show f'.status p ≠ .free
    rw [h.status, if_pos rfl]
    simp
  have hge : ¬ g.rank m p.ch p.lun p.pg < w m := hfree.mp (not_not.mpr h.free)
  omega

/-- The write pointer goes on by one page. -/
theorem Advanced.mod (h : Advanced g .slc f f' w w') :
    w' .slc % g.pgsPerOneshotpg .slc = (w .slc + 1) % g.pgsPerOneshotpg .slc := by
  rcases h with ⟨-, rfl, -⟩ | ⟨hend, rfl, -⟩
  · rw [Function.update_self]
  · rw [Function.update_self, hend, g.pgsPerLine_eq, Nat.mul_mod_left, Nat.zero_mod]

/-- The pages that a completed word line hands to an internal operation. -/
def released (g : Geometry) (completed : Option Nat) : Nat :=
  if completed.isSome then g.pgsPerOneshotpg .slc else 0

/-- The loop body of `conv_write` before the credits: the page is held or released. -/
theorem ConvFtl.Idle.storePage_held {swr : NandCmd} {completed : Option Nat}
    (h : f.Idle g cls w) (hpos : 0 < g.oneshots) (hlpn : lpn < g.ttPgs)
    (hr : f.storePage swr lpn = .ok (completed, f')) :
    f'.held + released g completed = f.held + 1 := by
  obtain ⟨f₁, cls₁, hold, hok₁, -, hinv⟩ := h.invalidateOld hpos lpn
  simp only [ConvFtl.storePage, hold, ok_bind, ConvFtl.writeNew, bind_eq_ok] at hr
  obtain ⟨_, ⟨⟨p, f₂⟩, hplace, f₃, hadv, hpair⟩, hprog⟩ := hr
  cases hpair
  obtain ⟨hplaced, hst₂, hpools₂⟩ := (hok₁.placePage hpos .slc hlpn).of_ok hplace
  obtain ⟨cls₃, w₃, hwritten⟩ := (hplaced.advance hok₁ hst₂ hpools₂ hpos).of_ok hadv
  have hok₃ := hwritten.ok
  have hosp := g.pgsPerOneshotpg_pos .slc
  have hpg : p.pg % g.pgsPerOneshotpg .slc = w .slc % g.pgsPerOneshotpg .slc := by
    rw [← g.rank_mod .slc p.ch p.lun, hplaced.rank hok₁ hpools₂]
  have hlast : f₃.lastPgInWordline (f₃.ioPool .user) p = true ↔
      w .slc % g.pgsPerOneshotpg .slc + 1 = g.pgsPerOneshotpg .slc := by
    rw [hok₃.static.ioPool.1, ConvFtl.lastPgInWordline, hok₃.static.fits.pgsPerOneshotpg,
      decide_eq_true_iff, ← Int.natCast_emod, hpg]
    omega
  have hheld : f'.held = f₃.held := by
    obtain ⟨π, hπ⟩ := f₃.programWordline_eq swr p
    rw [show f' = (f₃.programWordline swr p).2 from congrArg Prod.snd (Except.ok.inj hprog).symm, hπ]
    rfl
  rw [hheld, hok₃.held, hwritten.advanced.mod, h.ok.held]
  have hprog : f₃.programWordline swr p = (completed, f') := Except.ok.inj hprog
  unfold ConvFtl.programWordline at hprog
  split at hprog
  · next hl =>
    cases hprog
    rw [← Nat.mod_add_mod, hlast.mp hl, Nat.mod_self]
    simp [released]
  · next hl =>
    cases hprog
    have hlt := Nat.mod_lt (w .slc) hosp
    rw [← Nat.mod_add_mod, Nat.mod_eq_of_lt (by have := mt hlast.mpr hl; omega)]
    rfl

/-- The loop body of `conv_write`: collecting lines does not touch the open word line. -/
theorem ConvFtl.Recorded.writePage_held {swr : NandCmd} {completed : Option Nat}
    (h : f.Recorded g spp) (hlpn : lpn < g.ttPgs)
    (hr : f.writePage swr lpn = .ok (completed, f')) :
    f'.held + released g completed = f.held + 1 := by
  obtain ⟨cls, w, hidle, -⟩ := h.reached
  have hpos := g.oneshots_pos ((Nat.zero_le lpn).trans_lt hlpn)
  simp only [ConvFtl.writePage, bind_eq_ok] at hr
  obtain ⟨⟨completed', f₁⟩, hstore, f₂, hcheck, hpair⟩ := hr
  cases hpair
  rw [← hidle.storePage_held hpos hlpn hstore]
  obtain ⟨cls₁, w₁, h₁, -⟩ := (hidle.storePage hpos hlpn swr).of_ok hstore
  have hcons : f₁.consumeWriteCredit.Idle g cls₁ w₁ := h₁.untracked
  have hheld : f₁.consumeWriteCredit.held = f₁.held := rfl
  congr 1
  rcases (hcons.checkAndRefill hpos).of_ok hcheck with
    ⟨-, rfl⟩ | ⟨-, f₂, cls₂, w₂, h₂, hfg, rfl⟩
  · exact hheld
  · have hrefilled : f₂.refilled.held = f₂.held := rfl
    rw [hrefilled, ← hheld, h₂.ok.held, hcons.ok.held, hcons.ok.rank_slc h₂.ok hfg.wp]

/-! ## The loop of a write -/

namespace ConvNs

theorem Each.spp_eq (h : ns.Each (ConvFtl.Recorded g spp)) : ns.spp = spp := (h.inst 0 h.parts).sp

/-- A quiet change moves no page and no byte. -/
theorem Quiet.accounted (hq : ns.Quiet ns') : ns'.accounted = ns.accounted := by
  have hheld : ∀ i, (ns'.ftls i).held = (ns.ftls i).held := fun i => by
    obtain ⟨π, hπ, -⟩ := hq.inst i
    rw [hπ]
    rfl
  have hspp : ns'.spp = ns.spp := by
    obtain ⟨π, hπ, -⟩ := hq.inst 0
    rw [ConvNs.spp, hπ]
    rfl
  simp only [ConvNs.accounted, hq.writeBuffer, hq.pending, hq.nrParts, hspp, hheld]

/-- Storing an instance changes the pages held by its own. -/
theorem held_setFtl {i : Nat} (hi : i < ns.nrParts) :
    ∑ j ∈ Finset.range ns.nrParts, ((ns.setFtl i f).ftls j).held + (ns.ftls i).held =
      ∑ j ∈ Finset.range ns.nrParts, (ns.ftls j).held + f.held := by
  have hother : ∀ j ∈ (Finset.range ns.nrParts).erase i,
      ((ns.setFtl i f).ftls j).held = (ns.ftls j).held := fun j hj => by
    simp only [ConvNs.setFtl, if_neg (Finset.ne_of_mem_erase hj)]
    rfl
  have hself : ((ns.setFtl i f).ftls i).held = f.held := by simp only [ConvNs.setFtl, if_pos]
  have hmem := Finset.mem_range.mpr hi
  rw [← Finset.add_sum_erase _ _ hmem, ← Finset.add_sum_erase _ _ hmem,
    Finset.sum_congr rfl hother, hself]
  omega

theorem accounted_setFtl {i n : Nat} (hi : i < ns.nrParts)
    (hspp : (ns.setFtl i f).spp = ns.spp) (hheld : f.held + n = (ns.ftls i).held + 1) :
    (ns.setFtl i f).accounted + ns.spp.pgsz * n = ns.accounted + ns.spp.pgsz := by
  have hsum := ns.held_setFtl (f := f) hi
  have hpages : ns.spp.pgsz * ∑ j ∈ Finset.range ns.nrParts, ((ns.setFtl i f).ftls j).held +
      ns.spp.pgsz * n = ns.spp.pgsz * ∑ j ∈ Finset.range ns.nrParts, (ns.ftls j).held +
        ns.spp.pgsz := by
    rw [← Nat.mul_add, ← Nat.mul_succ]
    congr 1
    omega
  unfold ConvNs.accounted
  rw [hspp, Nat.add_assoc, show (ns.setFtl i f).nrParts = ns.nrParts from rfl, hpages,
    ← Nat.add_assoc]
  rfl

/-- An internal operation holds the bytes that it gives back. -/
theorem accounted_schedule (ns : ConvNs) (op : InternalOp) :
    ({ ns with pending := ns.pending ++ [op] } : ConvNs).accounted =
      ns.accounted + op.buffsToRelease := by
  simp only [ConvNs.accounted, List.map_append, List.map_cons, List.map_nil, List.sum_append,
    List.sum_cons, List.sum_nil]
  show _ + _ + ns.spp.pgsz * _ = _ + _ + ns.spp.pgsz * _ + _
  omega

/-- When it is completed, the bytes are free. -/
theorem accounted_completeInternal (ns : ConvNs) (i : Nat) :
    (ns.completeInternal i).accounted = ns.accounted := by
  unfold ConvNs.completeInternal
  split
  · rfl
  · next op hop =>
    obtain ⟨hi, hget⟩ := List.getElem?_eq_some_iff.mp hop
    have hperm := (List.getElem_cons_eraseIdx_perm hi).map InternalOp.buffsToRelease
    have hsum := hperm.sum_eq
    rw [List.map_cons, List.sum_cons, hget] at hsum
    simp only [ConvNs.accounted, bufferRelease]
    show _ + _ + _ + ns.spp.pgsz * _ = _ + _ + ns.spp.pgsz * _
    omega

/-- One iteration of the loop of `conv_write` puts one page into the account. -/
theorem Each.accounted_writeStep {s s' : Nat × ConvNs} {sqId : Nat} {swr : NandCmd}
    (h : s.2.Each (ConvFtl.Recorded g spp)) (hfits : g.Fits spp)
    (hlpn : lpn / s.2.nrParts < g.ttPgs) (hswr : ∀ f lpn, SlcSwr spp f swr lpn)
    (hr : ConvNs.writeStep sqId swr s lpn = .ok s') :
    s'.2.accounted = s.2.accounted + spp.pgsz := by
  obtain ⟨latest, ns⟩ := s
  obtain ⟨⟨completed, f⟩, hpage, hr⟩ := bind_eq_ok.mp hr
  have hi := Nat.mod_lt lpn h.parts
  have hheld := (h.inst _ hi).writePage_held hlpn hpage
  have hf := (recorded_pageKeeps g spp _ swr _ (h.inst _ hi) hlpn (hswr _ _)).of_ok hpage
  have hset := h.setFtl (i := lpn % ns.nrParts) (recorded_quietFree g spp) hf
  have hspp : (ns.setFtl (lpn % ns.nrParts) f).spp = ns.spp := hset.spp_eq.trans h.spp_eq.symm
  have hacc := accounted_setFtl hi hspp hheld
  rw [h.spp_eq] at hacc
  cases completed with
  | none =>
    cases hr
    simpa only [released, Option.isSome_none, Bool.false_eq_true, if_false, Nat.mul_zero,
      Nat.add_zero] using hacc
  | some t =>
    cases hr
    have hpool : f.ioPool .user = .slc := by
      obtain ⟨cls, w, hidle, -⟩ := hf.reached
      exact hidle.ok.static.ioPool.1
    have hosp : (spp.curPgsPerOneshotpg (f.ioPool .user)).toNat = g.pgsPerOneshotpg .slc := by
      rw [hpool]
      exact hfits.oneshot_slc
    simp only [released, Option.isSome_some, if_true] at hacc
    rw [← hacc, accounted_schedule, hset.spp_eq, hosp, Nat.mul_comm]

/-- The loop of `conv_write`. -/
theorem Each.accounted_writeLoop {sqId : Nat} {swr : NandCmd} (hfits : g.Fits spp)
    (hswr : ∀ f lpn, SlcSwr spp f swr lpn) (lpns : List Nat) {s s' : Nat × ConvNs}
    (h : s.2.Each (ConvFtl.Recorded g spp)) (hlpns : ∀ lpn ∈ lpns, lpn / s.2.nrParts < g.ttPgs)
    (hr : lpns.foldlM (ConvNs.writeStep sqId swr) s = .ok s') :
    s'.2.accounted = s.2.accounted + spp.pgsz * lpns.length := by
  induction lpns generalizing s with
  | nil =>
    cases hr
    rfl
  | cons lpn rest ih =>
    rw [List.foldlM_cons] at hr
    obtain ⟨s₁, hstep, hrest⟩ := bind_eq_ok.mp hr
    have hlpn := hlpns lpn (List.mem_cons_self ..)
    obtain ⟨h₁, hparts⟩ := (h.writeStep (recorded_quietFree g spp) (recorded_pageKeeps g spp) hlpn
      (hswr _ _)).of_ok hstep
    have hrest := ih h₁ (fun lpn' hmem => hparts ▸ hlpns lpn' (List.mem_cons_of_mem _ hmem)) hrest
    rw [hrest, h.accounted_writeStep hfits hlpn hswr hstep, List.length_cons, Nat.mul_succ]
    omega

/-! ## Commands -/

/-- What `buffer_allocate` has taken. -/
def take (ns : ConvNs) (taken : Nat) : ConvNs :=
  { ns with writeBuffer :=
    { ns.writeBuffer with remaining := ns.writeBuffer.remaining - taken } }

theorem accounted_take (ns : ConvNs) {taken : Nat} (hroom : taken ≤ ns.writeBuffer.remaining) :
    (ns.take taken).accounted + taken = ns.accounted := by
  simp only [ConvNs.accounted, ConvNs.take]
  show _ + _ + ns.spp.pgsz * _ + _ = _ + _ + ns.spp.pgsz * _
  omega

/-- The part of `conv_write` after the buffer has been allocated. -/
theorem Each.accounted_writeAllocated {req : NvmevRequest} {c : RwCommand} {r : Nat × ConvNs}
    (h : ns.Each (ConvFtl.Recorded g spp)) (hfits : g.Fits spp)
    (hrange : c.endLpn ns.spp / ns.nrParts < g.ttPgs) (hr : ns.writeAllocated req c = .ok r) :
    r.2.accounted = ns.accounted + spp.pgsz * (c.lpns spp).length := by
  have hquiet := quiet_writeTransfer ns req c
  have htransfer := h.quiet (recorded_quietFree g spp) hquiet
  have hswr : ∀ f lpn, SlcSwr spp f (ns.writeTransfer req c).1 lpn := fun f _ => h.slcSwr req c f
  unfold ConvNs.writeAllocated at hr
  rw [← hquiet.accounted, ← h.spp_eq]
  have hparts : (ns.writeTransfer req c).2.nrParts = ns.nrParts := rfl
  generalize ns.writeTransfer req c = x at *
  obtain ⟨swr, ns₀⟩ := x
  obtain ⟨⟨latest, ns₁⟩, hloop, hend⟩ := bind_eq_ok.mp hr
  have hlpns : ∀ lpn ∈ c.lpns ns.spp, lpn / ns₀.nrParts < g.ttPgs := fun lpn hmem =>
    hparts ▸ lpn_lt_of_range hrange hmem
  have hacc := htransfer.accounted_writeLoop hfits hswr _ hlpns hloop
  rw [h.spp_eq] at hacc ⊢
  dsimp only at hend
  split at hend
  · cases hend
    exact hacc
  · cases hend
    exact hacc

/-- An accepted write puts its pages into the account and takes its bytes out; a rejected one
does not change it. -/
theorem Each.accounted_convWrite {req : NvmevRequest} {c : RwCommand} {target : Option Nat}
    (h : ns.Each (ConvFtl.Recorded g spp)) (hfits : g.Fits spp) (hc : c.Wf)
    (hr : ns.convWrite req c = .ok (target, ns')) :
    ns'.accounted + (if target.isSome then c.bytes else 0) =
        ns.accounted + (if target.isSome then spp.pgsz * (c.lpns spp).length else 0) := by
  have hbytes : 0 < c.bytes ∧ u32 c.bytes = c.bytes := by
    have hlt := hc.length_lt
    rw [u32, hc.bytes]
    omega
  unfold ConvNs.convWrite at hr
  generalize c.bytes = bytes at *
  split at hr
  · cases hr
    simp
  next hrange =>
  rw [h.spp_eq, hfits.ttPgs, ← h.spp_eq, Nat.not_le] at hrange
  obtain ⟨⟨allocated, buf⟩, hbuf, hr⟩ := bind_eq_ok.mp hr
  obtain ⟨-, taken, heq, htaken⟩ := (bufferAllocate_outcome ns.writeBuffer bytes).of_ok hbuf
  obtain ⟨rfl, rfl⟩ := Prod.mk.inj heq
  dsimp only at hr
  rcases htaken with ⟨rfl, -⟩ | ⟨rfl, hroom⟩
  · -- without room nothing is taken
    have hzero : u32 0 < bytes := hbytes.1
    rw [if_pos hzero] at hr
    cases hr
    simp
  · rw [hbytes.2, if_neg (Nat.lt_irrefl _)] at hr
    obtain ⟨⟨t, ns₁⟩, halloc, hr⟩ := bind_eq_ok.mp hr
    cases hr
    have hrun : (ns.take taken).writeAllocated req c = .ok (t, ns₁) := halloc
    have htake : (ns.take taken).Each (ConvFtl.Recorded g spp) := h.congr rfl rfl
    have hacc : ns₁.accounted = _ := htake.accounted_writeAllocated hfits hrange hrun
    have hbuf := ns.accounted_take hroom
    simp only [Option.isSome_some, if_true]
    omega

/-- The loop of `conv_write` does not touch the buffer. -/
theorem writeAllocated_buffer {req : NvmevRequest} {c : RwCommand} {r : Nat × ConvNs}
    (hr : ns.writeAllocated req c = .ok r) : r.2.writeBuffer = ns.writeBuffer := by
  have hstep : ∀ (swr : NandCmd) (s s' : Nat × ConvNs) (lpn : Nat),
      ConvNs.writeStep req.sqId swr s lpn = .ok s' → s'.2.writeBuffer = s.2.writeBuffer := by
    rintro swr ⟨latest, ns⟩ s' lpn hr
    obtain ⟨⟨completed, f⟩, -, hr⟩ := bind_eq_ok.mp hr
    cases completed <;> cases hr <;> rfl
  unfold ConvNs.writeAllocated at hr
  rw [← (quiet_writeTransfer ns req c).writeBuffer]
  generalize ns.writeTransfer req c = x at *
  obtain ⟨swr, ns₀⟩ := x
  obtain ⟨⟨latest, ns₁⟩, hloop, hend⟩ := bind_eq_ok.mp hr
  have hbuf : ns₁.writeBuffer = ns₀.writeBuffer :=
    (outcome_foldlM_const (E := fun _ => True) (fun s : Nat × ConvNs => s.2.writeBuffer = ns₀.writeBuffer)
      (fun lpn _ s hs => Outcome.of_forall_ok fun s' hr => (hstep _ _ _ _ hr).trans hs) _ rfl).of_ok
      hloop
  dsimp only at hend
  split at hend
  · cases hend
    exact hbuf
  · cases hend
    exact hbuf

theorem convWrite_bufferSize {req : NvmevRequest} {c : RwCommand} {target : Option Nat}
    (hr : ns.convWrite req c = .ok (target, ns')) :
    ns'.writeBuffer.size = ns.writeBuffer.size := by
  unfold ConvNs.convWrite at hr
  generalize c.bytes = bytes at *
  split at hr
  · cases hr
    rfl
  obtain ⟨⟨allocated, buf⟩, hbuf, hr⟩ := bind_eq_ok.mp hr
  obtain ⟨-, taken, heq, -⟩ := (bufferAllocate_outcome ns.writeBuffer bytes).of_ok hbuf
  obtain ⟨rfl, rfl⟩ := Prod.mk.inj heq
  dsimp only at hr
  split at hr
  · cases hr
    rfl
  · obtain ⟨⟨t, ns₁⟩, halloc, hr⟩ := bind_eq_ok.mp hr
    cases hr
    have hrun : (ns.take taken).writeAllocated req c = .ok (t, ns₁) := halloc
    have hkeep := congrArg Buffer.size (writeAllocated_buffer hrun)
    exact hkeep

/-! ## Runs -/

/-- The account of a run that has accepted the commands `log`. -/
structure Balanced (g : Geometry) (spp : Ssdparams) (log : List RwCommand) (ns : ConvNs) : Prop where
  each : ns.Each (ConvFtl.Recorded g spp)
  wf : ∀ c ∈ log, c.Wf
  size : ns.writeBuffer.size = spp.writeBufferSize
  balance : ns.accounted + (log.map RwCommand.bytes).sum =
    spp.writeBufferSize + (log.map fun c => spp.pgsz * (c.lpns spp).length).sum

theorem Balanced.quiet (h : ns.Balanced g spp log) (hq : ns.Quiet ns') :
    ns'.Balanced g spp log :=
  ⟨h.each.quiet (recorded_quietFree g spp) hq, h.wf, hq.writeBuffer ▸ h.size, hq.accounted ▸ h.balance⟩

/-- The commands that a run accepts, as the entries of its log. -/
def commands (_ns : ConvNs) (c : RwCommand) : List RwCommand := [c]

/-- One event. -/
theorem Balanced.logStep {ev : ConvEvent} (h : ns.Balanced g spp log) (hfits : g.Fits spp)
    (hev : ev.Wf) (hr : ConvNs.logStep commands (ns, log) ev = .ok (ns', log')) :
    ns'.Balanced g spp log' := by
  have hns : ns.step ev = .ok ns' := by
    rw [← logStep_fst commands (ns, log) ev, hr]
    rfl
  have heach : ns'.Each (ConvFtl.Recorded g spp) :=
    (h.each.step (recorded_quietFree g spp) (recorded_pageKeeps g spp)
      (fun f hf => reached_ttPgs f hf.reached) (Or.inl rfl) (h.each.eventCond ev)).of_ok hns
  cases ev with
  | release i =>
    cases hr
    refine ⟨heach, h.wf, ?_, (ns.accounted_completeInternal i).symm ▸ h.balance⟩
    rw [← h.size]
    unfold ConvNs.completeInternal
    split <;> rfl
  | command req cmd =>
    cases cmd with
    | write c =>
      obtain ⟨⟨target, ns₁⟩, hwrite, hr⟩ := bind_eq_ok.mp hr
      cases hr
      refine ⟨heach, fun c' hc' => ?_, (convWrite_bufferSize hwrite).trans h.size, ?_⟩
      · split at hc'
        · rcases List.mem_append.mp hc' with hc' | hc'
          · exact h.wf c' hc'
          · rw [List.mem_singleton.mp hc']
            exact hev
        · exact h.wf c' hc'
      have hacc := h.each.accounted_convWrite hfits hev hwrite
      have hbal := h.balance
      cases target with
      | none =>
        simp only [Option.isSome_none, Bool.false_eq_true, if_false, Nat.add_zero] at hacc ⊢
        rwa [hacc]
      | some t =>
        simp only [Option.isSome_some, if_true] at hacc ⊢
        rw [commands, List.map_append, List.map_append, List.sum_append, List.sum_append]
        simp only [List.map_cons, List.map_nil, List.sum_cons, List.sum_nil]
        omega
    | read c =>
      cases hr
      exact h.quiet (ns.quiet_convRead req c)
    | flush =>
      cases hr
      exact h.quiet ns.quiet_convFlush
    | other =>
      cases hr
      exact h

/-- A run with its log. -/
theorem Balanced.logRun {events : List ConvEvent} (h : ns.Balanced g spp log) (hfits : g.Fits spp)
    (hev : ∀ ev ∈ events, ev.Wf)
    (hr : events.foldlM (ConvNs.logStep commands) (ns, log) = .ok (ns', log')) :
    ns'.Balanced g spp log' := by
  induction events generalizing ns log with
  | nil =>
    cases hr
    exact h
  | cons ev rest ih =>
    rw [List.foldlM_cons] at hr
    obtain ⟨⟨ns₁, log₁⟩, hstep, hrest⟩ := bind_eq_ok.mp hr
    have h₁ := h.logStep hfits (hev ev (List.mem_cons_self ..)) hstep
    exact ih h₁ (fun ev' hmem => hev ev' (List.mem_cons_of_mem _ hmem)) hrest

/-- What the commands do not fill of their pages is what the account is off by. -/
theorem Balanced.drift (h : ns.Balanced g spp log) (hfits : g.Fits spp)
    (hlt : ∀ c ∈ log, c.slba + c.length < 2 ^ 64) :
    ns.writeBuffer.size ≤ ns.accounted ∧
      (ns.accounted = ns.writeBuffer.size ↔ ∀ c ∈ log, c.WholePages) := by
  have hle : ∀ c ∈ log, c.bytes ≤ spp.pgsz * (c.lpns spp).length := fun c hc =>
    ((h.wf c hc).bytes_le hfits (hlt c hc)).1
  have hbal := h.balance
  have hsum : (log.map RwCommand.bytes).sum ≤
      (log.map fun c => spp.pgsz * (c.lpns spp).length).sum := List.sum_le_sum hle
  rw [h.size]
  refine ⟨by omega, fun heq c hc => ?_, fun hall => ?_⟩
  · -- a command that does not fill its pages would leave the sum of the bytes behind
    rw [← ((h.wf c hc).bytes_le hfits (hlt c hc)).2]
    by_contra hne
    have hless := List.sum_lt_sum _ _ hle ⟨c, hc, lt_of_le_of_ne (hle c hc) hne⟩
    omega
  · have hmap : log.map RwCommand.bytes = log.map fun c => spp.pgsz * (c.lpns spp).length :=
      List.map_congr_left fun c hc => ((h.wf c hc).bytes_le hfits (hlt c hc)).2.mpr (hall c hc)
    rw [hmap] at hbal
    exact Nat.add_right_cancel hbal

end ConvNs

/-- A write pointer starts at the first page of its line. -/
theorem prepareWritePointer_user (hr : f.prepareWritePointer .user = .ok f') : f'.wp.pg = 0 := by
  unfold ConvFtl.prepareWritePointer at hr
  dsimp only at hr
  split at hr
  · cases hr
  · cases hr
    rfl

/-- The garbage collector has a pointer of its own. -/
theorem prepareWritePointer_gc (hr : f.prepareWritePointer .gc = .ok f') : f'.wp = f.wp := by
  unfold ConvFtl.prepareWritePointer ConvFtl.getNextFreeLine at hr
  dsimp only at hr
  split at hr
  · cases hr
  · next l f₁ hnext =>
    cases hr
    split at hnext
    · cases hnext
    · cases hnext
      show (ConvFtl.setMgmt _ _ _).wp = _
      rw [ConvFtl.setMgmt_eq]
      rfl

/-- A new instance holds no page. -/
theorem convInitFtl_held {mem : ConvFtl} {b : Bool} {cpp : Convparams} {ssd : Ssd}
    (hr : convInitFtl mem b cpp ssd = .ok f) : f.held = 0 := by
  simp only [convInitFtl, bind_eq_ok] at hr
  obtain ⟨f₁, -, f₂, huser, f₃, hgc, hr⟩ := hr
  cases hr
  have hpg : f₃.initWriteFlowControl.wp.pg = 0 := by
    show f₃.wp.pg = 0
    rw [prepareWritePointer_gc hgc, prepareWritePointer_user huser]
  rw [ConvFtl.held, hpg, Nat.zero_mod]

/-- In a new namespace the whole buffer is free. -/
theorem convInitNamespace_balanced {cfg : SsdConfig} {mem : ConvMemory} {clock : Clock} {size : Nat}
    (heach : ns.Each (ConvFtl.Recorded g spp)) (hspp : convSsdparams cfg mem.spp size = .ok spp)
    (hr : convInitNamespace cfg mem clock size = .ok ns) : ns.Balanced g spp [] := by
  obtain ⟨-, hinst⟩ := convInitNamespace_ftls hspp hr
  have hheld : ∑ i ∈ Finset.range ns.nrParts, (ns.ftls i).held = 0 :=
    Finset.sum_eq_zero fun i hi => convInitFtl_held (hinst i (Finset.mem_range.mp hi))
  have hbuf : ns.writeBuffer = bufferInit spp.writeBufferSize ∧ ns.pending = [] := by
    unfold convInitNamespace at hr
    rw [hspp, ok_bind] at hr
    obtain ⟨ftls, -, hr⟩ := bind_eq_ok.mp hr
    cases hr
    exact ⟨rfl, rfl⟩
  refine ⟨heach, List.forall_mem_nil _, by rw [hbuf.1]; rfl, ?_⟩
  simp [ConvNs.accounted, hheld, hbuf.1, hbuf.2, bufferInit]

/-- The account of the write buffer: what is free, what pending internal operations give back and
the pages in open word lines exceed the buffer by exactly what the accepted writes left unfilled
of their pages. Nothing is lost unless the block numbers of a command wrap around, and the
account is exact exactly when all commands consist of whole pages. -/
theorem write_buffer_balance (cfg : SlcConfig) (mem : ConvMemory) (clock : Clock) (size : Nat)
    (events : List ConvEvent) (ns : ConvNs) (hev : ∀ ev ∈ events, ev.Wf)
    (h : convRun cfg.toSsdConfig mem clock size events = .ok ns) :
    ∃ log, convRunLog ConvNs.commands cfg.toSsdConfig mem clock size events = .ok (ns, log) ∧
      ns.accounted + (log.map RwCommand.bytes).sum =
        ns.writeBuffer.size + (log.map fun c => ns.spp.pgsz * (c.lpns ns.spp).length).sum ∧
      ((∀ c ∈ log, c.slba + c.length < 2 ^ 64) → ns.writeBuffer.size ≤ ns.accounted ∧
        (ns.accounted = ns.writeBuffer.size ↔ ∀ c ∈ log, c.WholePages)) := by
  have hfst := convRunLog_fst ConvNs.commands cfg.toSsdConfig mem clock size events
  rw [h] at hfst
  obtain ⟨⟨ns', log⟩, hlog, rfl⟩ := except_map_eq_ok.mp hfst
  refine ⟨log, hlog, ?_⟩
  unfold convRunLog at hlog
  obtain ⟨ns₀, hinit, hrun⟩ := bind_eq_ok.mp hlog
  have hstart : convRun cfg.toSsdConfig mem clock size [] = .ok ns₀ := by
    rw [convRun, hinit]
    rfl
  obtain ⟨g, spp, hfits, hspp, heach⟩ := slcRun_recorded cfg mem clock size [] hstart
  have hend := (convInitNamespace_balanced heach hspp hinit).logRun hfits hev hrun
  rw [hend.each.spp_eq, hend.size]
  exact ⟨hend.balance, hend.size ▸ hend.drift hfits⟩

/-- A word line for each instance, one of them given back, and then a block that straddles two
pages: the buffer has gained a page for the 4 KiB that were taken. -/
theorem write_buffer_balance_straddling : ∃ ns : ConvNs,
    convRun samsung970pro default default (mb 3071) [.command ⟨1, 5⟩ (.write ⟨0, 127, false⟩),
      .release 0, .command ⟨1, 9⟩ (.write ⟨4, 7, false⟩)] = .ok ns ∧
    ns.writeBuffer.size < ns.accounted := by
  have hok : (convRunLog ConvNs.commands samsung970pro default default (mb 3071)
      [.command ⟨1, 5⟩ (.write ⟨0, 127, false⟩), .release 0,
        .command ⟨1, 9⟩ (.write ⟨4, 7, false⟩)]).map Prod.snd =
      .ok [⟨0, 127, false⟩, ⟨4, 7, false⟩] := by decide +kernel
  obtain ⟨⟨ns, log⟩, hlog, rfl⟩ := except_map_eq_ok.mp hok
  have hrun := convRunLog_fst ConvNs.commands samsung970pro default default (mb 3071)
    [.command ⟨1, 5⟩ (.write ⟨0, 127, false⟩), .release 0, .command ⟨1, 9⟩ (.write ⟨4, 7, false⟩)]
  rw [hlog] at hrun
  have hwf : ∀ ev ∈ [ConvEvent.command ⟨1, 5⟩ (.write ⟨0, 127, false⟩), .release 0,
      .command ⟨1, 9⟩ (.write ⟨4, 7, false⟩)], ev.Wf := by
    simp only [List.forall_mem_cons, ConvEvent.Wf]
    exact ⟨⟨by decide, by decide⟩, trivial, ⟨by decide, by decide⟩, List.forall_mem_nil _⟩
  obtain ⟨log', hlog', -, hdrift⟩ := write_buffer_balance samsung970proSlc default default (mb 3071)
    _ ns hwf hrun.symm
  obtain ⟨-, rfl⟩ := Prod.mk.inj (Except.ok.inj (hlog.symm.trans hlog'))
  obtain ⟨hle, hiff⟩ := hdrift (by simp)
  refine ⟨ns, hrun.symm, lt_of_le_of_ne hle fun heq => ?_⟩
  have hwhole := hiff.mp heq.symm ⟨4, 7, false⟩ (by simp)
  simp [RwCommand.WholePages] at hwhole

end NvmeVirt
