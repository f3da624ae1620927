import NvmeVirt.Conv.Maps

/-!
# Collecting a line

While `do_gc` empties a line its copied pages are stale: still valid on flash, no longer
named by the maps. The invariant of the loops carries the set of stale pages, and the
balance between the pages left in the TLC pool and the live pages left in the line,
which every copy keeps.
-/

namespace NvmeVirt

open Checked MixedRadix

variable {g : Geometry} {cls : Nat → LineClass} {w : LineMode → Nat} {f f' f'' : ConvFtl}
  {stale stale' : Ppa → Prop} {l : Nat} {spare : Int} {p q : Ppa}

/-- A page of the line `l`. -/
def linePage (l : Nat) (d : Nat × Nat) (pg : Nat) : Ppa :=
  { pg := pg, blk := l, pl := 0, lun := d.2, ch := d.1 }

/-- The positions of the pages of a line of pool `m`. -/
def Geometry.positions (g : Geometry) (m : LineMode) : Finset ((Nat × Nat) × Nat) :=
  g.dies ×ˢ Finset.range (g.pgsPerBlk m)

theorem Geometry.mem_positions {g : Geometry} {m : LineMode} {x : (Nat × Nat) × Nat} :
    x ∈ g.positions m ↔ x.1 ∈ g.dies ∧ x.2 < g.pgsPerBlk m := by
  simp [Geometry.positions]

open Classical in
/-- The number of live pages of a line. -/
noncomputable def liveCount (g : Geometry) (l : Nat) (stale : Ppa → Prop) (f : ConvFtl) : Nat :=
  ((g.positions (g.pool l)).filter fun x => Live g stale f (linePage l x.1 x.2)).card

/-- The live pages of a line depend on the line only. -/
theorem liveCount_congr_line (h : ∀ q, q.blk = l → (Live g stale' f' q ↔ Live g stale f q)) :
    liveCount g l stale' f' = liveCount g l stale f := by
  classical
  unfold liveCount
  congr 1
  ext x
  rw [Finset.mem_filter, Finset.mem_filter, h _ rfl]

theorem liveCount_congr (h : ∀ q, Live g stale' f' q ↔ Live g stale f q) :
    liveCount g l stale' f' = liveCount g l stale f :=
  liveCount_congr_line fun q _ => h q

theorem liveCount_eq_zero (h : ∀ q, q.blk = l → ¬ Live g stale f q) :
    liveCount g l stale f = 0 := by
  classical
  unfold liveCount
  rw [Finset.card_eq_zero, Finset.filter_eq_empty_iff]
  exact fun x _ => h _ rfl

/-- The pages left in the TLC pool: those of its free lines and of its current line. -/
def room (g : Geometry) (w : LineMode → Nat) (f : ConvFtl) : Nat :=
  f.lm.freeLineList.length * g.pgsPerLine .tlc + (g.pgsPerLine .tlc - w .tlc)

/-- Writing one page takes one page of the pool. -/
theorem Advanced.room_succ {w' : LineMode → Nat} (h : Advanced g .tlc f f' w w') :
    room g w' f' + 1 = room g w f := by
  unfold room
  rcases h with ⟨hlt, rfl, hfree, -⟩ | ⟨hend, rfl, hfree⟩
  · have hfree' : f'.lm.freeLineList = f.lm.freeLineList := hfree
    rw [hfree', Function.update_self]
    omega
  · have hfree' : f.lm.freeLineList = f'.gcWp.blk :: f'.lm.freeLineList := hfree
    rw [hfree', Function.update_self, List.length_cons, Nat.succ_mul]
    omega

/-- The next line comes from the front of the free list. -/
theorem Advanced.opened {w' : LineMode → Nat} (h : Advanced g .tlc f f' w w') :
    f'.gcWp.blk :: f'.lm.freeLineList <:+ f.gcWp.blk :: f.lm.freeLineList := by
  rcases h with ⟨-, -, hfree, hblk⟩ | ⟨-, -, hfree⟩
  · have hfree' : f'.lm.freeLineList = f.lm.freeLineList := hfree
    have hblk' : f'.gcWp.blk = f.gcWp.blk := hblk
    rw [hfree', hblk']
  · have hfree' : f.lm.freeLineList = f'.gcWp.blk :: f'.lm.freeLineList := hfree
    rw [hfree']
    exact List.suffix_cons ..

/-- What collecting a line leaves alone: the SLC side and the write credits. -/
structure Kept (f f' : ConvFtl) : Prop where
  wfc : f'.wfc = f.wfc
  slm : f'.slm = f.slm
  wp : f'.wp = f.wp
  dyn : f'.dynSlcMode = f.dynSlcMode ∨ f'.dynSlcMode = .tlc

theorem Kept.refl (f : ConvFtl) : Kept f f := ⟨rfl, rfl, rfl, Or.inl rfl⟩

theorem Kept.trans (h : Kept f f') (h' : Kept f' f'') : Kept f f'' := by
  refine ⟨h'.wfc.trans h.wfc, h'.slm.trans h.slm, h'.wp.trans h.wp, ?_⟩
  rcases h'.dyn with he | he
  · rcases h.dyn with he' | he'
    · exact Or.inl (he.trans he')
    · exact Or.inr (he.trans he')
  · exact Or.inr he

/-- From `f` to `f'` pages of the line `l` move to other lines of the TLC pool: the maps keep all
other pages, and each copy is counted and takes one page of the pool. Lines of the pool are
opened in the order of the free list. -/
structure Moved (g : Geometry) (l : Nat) (w w' : LineMode → Nat) (f f' : ConvFtl) : Prop
    extends Kept f f' where
  maptbl : ∀ lpn, f'.maptbl lpn = f.maptbl lpn ∨ ∃ p q, f.maptbl lpn = some p ∧ p.blk = l ∧
    f'.maptbl lpn = some q ∧ g.HasLine .tlc q.blk ∧ q.blk ≠ l
  copies : f'.copyCnt + room g w' f' = f.copyCnt + room g w f
  status : ∀ q, q.blk ≠ l → f'.status q = f.status q ∨
    f.status q = .free ∧ f'.status q = .valid ∧ g.HasLine .tlc q.blk
  opened : f'.gcWp.blk :: f'.lm.freeLineList <:+ f.gcWp.blk :: f.lm.freeLineList

theorem Moved.refl (f : ConvFtl) : Moved g l w w f f :=
  ⟨Kept.refl f, fun _ => Or.inl rfl, rfl, fun _ _ => Or.inl rfl, List.suffix_rfl⟩

/-- A page that has moved is not in the line any more, so it moves only once. -/
theorem Moved.trans {w' w'' : LineMode → Nat} (h : Moved g l w w' f f')
    (h' : Moved g l w' w'' f' f'') : Moved g l w w'' f f'' := by
  refine ⟨h.toKept.trans h'.toKept, fun lpn => ?_, h'.copies.trans h.copies, fun q hq => ?_,
    h'.opened.trans h.opened⟩
  · rcases h.maptbl lpn with he | ⟨p, q, hp, hpl, hq, htlc, hql⟩
    · rw [← he]
      exact h'.maptbl lpn
    · rcases h'.maptbl lpn with he' | ⟨p', -, hp', hpl', -⟩
      · exact Or.inr ⟨p, q, hp, hpl, he'.trans hq, htlc, hql⟩
      · obtain rfl : q = p' := Option.some.inj (hq.symm.trans hp')
        exact absurd hpl' hql
  · rcases h.status q hq with he | ⟨hfree, hvalid, htlc⟩
    · rw [← he]
      exact h'.status q hq
    · rcases h'.status q hq with he' | ⟨hfree', -⟩
      · exact Or.inr ⟨hfree, he'.trans hvalid, htlc⟩
      · rw [hvalid] at hfree'
        cases hfree'

/-- The invariant while the line `l` is collected. -/
structure Collecting (g : Geometry) (l : Nat) (spare : Int) (stale : Ppa → Prop)
    (cls : Nat → LineClass) (w : LineMode → Nat) (f : ConvFtl) : Prop where
  ok : f.Ok g cls w
  maps : MapOk g stale f
  line : l < g.ttLines
  label : cls l = .collecting
  only : ∀ l' < g.ttLines, cls l' = .collecting → l' = l
  inLine : ∀ p, stale p → p.blk = l
  balance : (room g w f : Int) = spare + liveCount g l stale f

/-- The ways in which collecting a line can stop. -/
def GcFault (g : Geometry) (spare : Int) (e : Fault) : Prop :=
  (e = .pageNotFree ∧ 2 ^ pageBits < g.pgsPerBlk .tlc) ∨ (e = .noFreeLine .gc ∧ spare ≤ 0)

/-! ## Time -/

/-- Charging a command changes the timing state only. -/
theorem ConvFtl.gcDelay_eq (f : ConvFtl) (c : NandCmd) :
    ∃ π, f.gcDelay c = { f with ssd := { f.ssd with perf := π } } := by
  unfold ConvFtl.gcDelay
  split
  · exact ⟨_, rfl⟩
  · exact ⟨f.ssd.perf, rfl⟩

theorem ConvFtl.Ok.perf (h : f.Ok g cls w) (π : Perf) :
    ({ f with ssd := { f.ssd with perf := π } } : ConvFtl).Ok g cls w :=
  ⟨⟨h.static.fits, h.static.slcMode, h.static.cp, h.static.slmLines⟩, h.pools, h.wp⟩

theorem MapOk.perf (h : MapOk g stale f) (π : Perf) :
    MapOk g stale { f with ssd := { f.ssd with perf := π } } :=
  h.congr rfl rfl fun _ => Iff.rfl

theorem Collecting.gcDelay (h : Collecting g l spare stale cls w f) (c : NandCmd) :
    Collecting g l spare stale cls w (f.gcDelay c) ∧ Moved g l w w f (f.gcDelay c) ∧
      (f.gcDelay c).ssd.blk = f.ssd.blk := by
  obtain ⟨π, hπ⟩ := f.gcDelay_eq c
  rw [hπ]
  exact ⟨⟨h.ok.perf π, h.maps.perf π, h.line, h.label, h.only, h.inLine, h.balance⟩,
    ⟨⟨rfl, rfl, rfl, Or.inl rfl⟩, fun _ => Or.inl rfl, rfl, fun _ _ => Or.inl rfl,
      List.suffix_rfl⟩, rfl⟩

/-! ## The counter of copies -/

theorem fixed_copyCnt : ConvFtl.Fixed ConvFtl.copyCnt :=
  ⟨fun _ io _ => by cases io <;> rfl, fun _ m _ => by cases m <;> rfl, fun _ _ => rfl,
    fun _ _ => rfl⟩

theorem placePage_copyCnt {io : IoType} {lpn : Nat} (hr : f.placePage io lpn = .ok (p, f')) :
    f'.copyCnt = f.copyCnt := by
  simp only [ConvFtl.placePage, ConvFtl.setMaptblEnt, ConvFtl.setRmapEnt, ConvFtl.markPageValid,
    ConvFtl.validateBlkPage, ConvFtl.validateLine, bind_eq_ok] at hr
  obtain ⟨p, -, _, ⟨_, -, hf₁⟩, _, ⟨_, -, hf₂⟩, _, ⟨_, ⟨_, -, _, -, _, -, hf₃⟩, _, -, hf₄⟩,
    hf₅⟩ := hr
  cases hf₁
  cases hf₂
  cases hf₃
  cases hf₄
  cases hf₅
  rfl

/-! ## One page -/

/-- The live pages of a line after one of them became stale. -/
theorem liveCount_erase (hp : Live g stale f p) (hl : p.blk = l)
    (hlive : ∀ q, q.blk = l → (Live g stale' f' q ↔ Live g stale f q ∧ q ≠ p)) :
    liveCount g l stale' f' + 1 = liveCount g l stale f := by
  classical
  have hmem : ((p.ch, p.lun), p.pg) ∈
      (g.positions (g.pool l)).filter fun x => Live g stale f (linePage l x.1 x.2) := by
    refine Finset.mem_filter.mpr ⟨Geometry.mem_positions.mpr ⟨hp.1.mem_dies, hl ▸ hp.1.pg⟩, ?_⟩
    have : linePage l (p.ch, p.lun) p.pg = p := by
      cases p
      simp only [linePage, Ppa.mk.injEq, true_and]
      exact ⟨hl.symm, hp.1.pl.symm, trivial⟩
    rwa [this]
  have herase : ((g.positions (g.pool l)).filter fun x => Live g stale' f' (linePage l x.1 x.2)) =
      ((g.positions (g.pool l)).filter fun x =>
        Live g stale f (linePage l x.1 x.2)).erase ((p.ch, p.lun), p.pg) := by
    ext ⟨⟨ch, lun⟩, pg⟩
    rw [Finset.mem_erase, Finset.mem_filter, Finset.mem_filter, hlive _ rfl]
    have hne : linePage l (ch, lun) pg ≠ p ↔ ((ch, lun), pg) ≠ ((p.ch, p.lun), p.pg) := by
      cases p
      simp only [linePage, ne_eq, Ppa.mk.injEq, Prod.mk.injEq, not_iff_not] at hl hp ⊢
      have hpl := hp.1.pl
      simp only at hpl
      constructor
      · rintro ⟨h1, -, -, h2, h3⟩
        exact ⟨⟨h3, h2⟩, h1⟩
      · rintro ⟨⟨h3, h2⟩, h1⟩
        exact ⟨h1, hl.symm, hpl.symm, h2, h3⟩
    rw [hne]
    tauto
  unfold liveCount
  rw [herase, Finset.card_erase_of_mem hmem]
  exact Nat.sub_add_cancel (Finset.card_pos.mpr ⟨_, hmem⟩)

/-- Copying a live page of the line to a page of the TLC pool. -/
theorem Collecting.copied {lpn : Nat} {new : Ppa} {cls' : Nat → LineClass} {w' : LineMode → Nat}
    (h : Collecting g l spare stale cls w f) (hp : Live g stale f p) (hl : p.blk = l)
    (hlpn : lpn < g.ttPgs) (hmapped : f.maptbl lpn = some p)
    (hpw : PageWritten g .tlc lpn cls w f new cls' w' f') (htlc : g.HasLine .tlc new.blk)
    (hcopy : f'.copyCnt = f.copyCnt + 1) :
    Collecting g l spare (fun q => stale q ∨ q = p) cls' w' f' ∧ Moved g l w w' f f' ∧
      ∀ a : BlkAddr, a.blk = l → f'.ssd.blk a = f.ssd.blk a := by
  have hnl : new.blk ≠ l := fun he => by
    have := hpw.current
    rw [he, h.label] at this
    cases this
  have hnotlive : ¬ Live g stale f new := fun hn => by
    have := hn.2.1
    rw [hpw.free] at this
    cases this
  have hnp : new ≠ p := fun he => hnotlive (he ▸ hp)
  have hline : ∀ q, q.blk = l →
      (Live g (fun q => stale q ∨ q = p) f' q ↔ Live g stale f q ∧ q ≠ p) := fun q hq => by
    have hqn : q ≠ new := fun he => hnl (he ▸ hq)
    unfold Live
    rw [hpw.status q, if_neg hqn]
    tauto
  have hroom := hpw.advanced.room_succ
  have hcount := liveCount_erase hp hl hline
  have hbal := h.balance
  refine ⟨⟨hpw.ok, ?_, h.line, (hpw.collecting l h.line).mpr h.label,
    fun l' hl' hc => h.only l' hl' ((hpw.collecting l' hl').mp hc), ?_, by omega⟩,
    ⟨⟨hpw.wfc, hpw.mgmt .slc (by simp), hpw.poolWp .slc (by simp), hpw.dyn⟩, ?_, by omega,
      fun q _ => ?_, hpw.advanced.opened⟩,
    fun a ha => hpw.otherBlk a fun he => hnl (by rw [← ha, he]; rfl)⟩
  · refine h.maps.remap hlpn hnotlive hpw.maptbl ?_ ?_ ?_
    · rw [hpw.rmap, Function.update_self]
    · intro q hq _
      rw [hpw.rmap, Function.update_of_ne]
      intro he
      exact hnotlive (hq.1.pgidx_inj hpw.valid he ▸ hq)
    · intro q
      rw [hmapped]
      by_cases hq : q = new
      · subst hq
        refine iff_of_true ⟨hpw.valid, by rw [hpw.status, if_pos rfl], ?_⟩ (Or.inl rfl)
        rintro (hs | rfl)
        · exact hnl (h.inLine _ hs)
        · exact hnp rfl
      · unfold Live
        rw [hpw.status q, if_neg hq]
        simp only [hq, false_or, ne_eq, Option.some.injEq, eq_comm (a := p)]
        tauto
  · rintro q (hs | rfl)
    · exact h.inLine q hs
    · exact hl
  · -- only the map entry of the copied page changes
    intro lpn'
    rw [hpw.maptbl]
    by_cases he : lpn' = lpn
    · subst he
      exact Or.inr ⟨p, new, hmapped, hl, Function.update_self .., htlc, hnl⟩
    · exact Or.inl (Function.update_of_ne he ..)
  · rw [hpw.status q]
    by_cases hq : q = new
    · rw [if_pos hq, hq]
      exact Or.inr ⟨hpw.free, rfl, htlc⟩
    · exact Or.inl (if_neg hq)

/-- `gc_write_page` on a live page of the line: the page becomes stale. -/
theorem Collecting.gcWritePage (h : Collecting g l spare stale cls w f) (hpos : 0 < g.oneshots)
    (hp : Live g stale f p) (hl : p.blk = l) :
    Outcome (f.gcWritePage p)
      (fun f' => ∃ cls' w', Collecting g l spare (fun q => stale q ∨ q = p) cls' w' f' ∧
        Moved g l w w' f f' ∧ ∀ a : BlkAddr, a.blk = l → f'.ssd.blk a = f.ssd.blk a)
      (GcFault g spare) := by
  have hst := h.ok.static
  have hmapped := h.maps.inverse.fwd_of_live p hp
  have hlpn : f.rmap (g.pgidx p) < g.ttPgs := h.maps.dom _ (by rw [hmapped]; nofun)
  have hrmap : f.getRmapEnt p = .ok (f.rmap (g.pgidx p)) := by
    simp only [ConvFtl.getRmapEnt, hst.ppa2pgidx hp.1, ok_bind]
    rfl
  have hvalid : f.validLpn (f.rmap (g.pgidx p)) = true := by
    simp [ConvFtl.validLpn, hst.fits.ttPgs, hlpn]
  have hlive : 0 < liveCount g l stale f := by
    have : liveCount g l (fun q => stale q ∨ q = p) f + 1 = liveCount g l stale f :=
      liveCount_erase hp hl fun q _ => by
        unfold Live
        tauto
    omega
  have hbal := h.balance
  simp only [ConvFtl.gcWritePage, hrmap, ok_bind, require_pos hvalid]
  have hpg := ((h.ok.wp .tlc).lt hpos).1
  have hcount : Outcome (f.placePage .gc (f.rmap (g.pgidx p))) (fun r => r.2.copyCnt = f.copyCnt)
      fun _ => True := Outcome.of_forall_ok fun _ he => placePage_copyCnt he
  refine (((h.ok.placePage hpos .tlc hlpn).and hcount).mono (fun _ hq => hq) fun e he =>
    Or.inl ⟨he.1.1, Nat.lt_of_le_of_lt he.1.2 hpg⟩).bind ?_
  rintro ⟨new, f₁⟩ ⟨⟨hplaced, hst₁, hpools₁⟩, hcopy₁⟩
  have hplaced' : PagePlaced g .tlc (f.rmap (g.pgidx p)) f new
      { f₁ with copyCnt := f₁.copyCnt + 1 } :=
    ⟨hplaced.valid, hplaced.blk, hplaced.free, hplaced.status, hplaced.otherBlk, hplaced.maptbl,
      hplaced.rmap, hplaced.wfc, hplaced.mgmt, hplaced.poolWp, hplaced.dyn⟩
  have htlc : g.HasLine .tlc new.blk := by
    rw [hplaced.blk]
    exact (h.ok.wp .tlc).line
  have hadvance := hplaced'.advance h.ok ⟨hst₁.fits, hst₁.slcMode, hst₁.cp, hst₁.slmLines⟩ hpools₁
    hpos
  refine ((hadvance.and (Outcome.of_forall_ok fun _ he => fixed_copyCnt.advanceWritePointer he)).mono
    (fun _ hq => hq) ?_).bind ?_
  · rintro e (⟨he, hbig⟩ | ⟨he, hnil, hend⟩)
    · exact Or.inl ⟨he, Nat.lt_of_le_of_lt hbig hpg⟩
    · refine Or.inr ⟨he, ?_⟩
      have hnil' : f.lm.freeLineList = [] := hnil
      have hroom : room g w f = 1 := by
        unfold room
        rw [hnil', List.length_nil]
        omega
      omega
  · rintro f₂ ⟨⟨cls', w', hpw⟩, hcopy⟩
    have hcopy' : f₂.copyCnt = f.copyCnt + 1 := by rw [hcopy, hcopy₁]
    obtain ⟨hcol, hmoved, hblk⟩ := h.copied hp hl hlpn hmapped hpw htlc hcopy'
    exact ⟨cls', w', (hcol.gcDelay _).1, hmoved.trans (hcol.gcDelay _).2.1,
      fun a ha => by rw [(hcol.gcDelay _).2.2, hblk a ha]⟩

end NvmeVirt
