import NvmeVirt.Conv.Counters
import NvmeVirt.Pqueue.Placement

/-!
# Containers of lines

Every line of a pool is in exactly one place: the free list, the full list, the victim
queue, under the write pointer, or taken out for collection. The label of a line says
which, the containers agree with the labels, and `pos` is the heap index of a queued
line and zero for every other. Each move of a line changes one label.
-/

namespace NvmeVirt

/-- At most the positions of lines of the pool `m` differ, as far as the counters go. -/
structure Repositioned (g : Geometry) (m : LineMode) (lines lines' : Nat → Line) : Prop where
  id : ∀ l, (lines' l).id = (lines l).id
  vpc : ∀ l, (lines' l).vpc = (lines l).vpc
  ipc : ∀ l, (lines' l).ipc = (lines l).ipc
  pos : ∀ l, ¬ g.HasLine m l → (lines' l).pos = (lines l).pos

/-- What `set_pos` leaves alone stays. -/
theorem repositioned_of_frame {g : Geometry} {m : LineMode} {lines lines' : Nat → Line}
    (h : ∀ {β : Type} (f : (Nat → Line) → β), (∀ s a j, f (victimLine.setpos s a j) = f s) →
      f lines' = f lines)
    (hpos : ∀ l, ¬ g.HasLine m l → (lines' l).pos = (lines l).pos) :
    Repositioned g m lines lines' :=
  ⟨fun l => h (fun s => (s l).id) fun s a j => (victimLine_setpos_fields s a j l).2.2,
    fun l => h (fun s => (s l).vpc) fun s a j => (victimLine_setpos_fields s a j l).1,
    fun l => h (fun s => (s l).ipc) fun s a j => (victimLine_setpos_fields s a j l).2.1, hpos⟩

theorem Repositioned.trans {g : Geometry} {m : LineMode} {lines lines' lines'' : Nat → Line}
    (h : Repositioned g m lines lines') (h' : Repositioned g m lines' lines'') :
    Repositioned g m lines lines'' :=
  ⟨fun l => (h'.id l).trans (h.id l), fun l => (h'.vpc l).trans (h.vpc l),
    fun l => (h'.ipc l).trans (h.ipc l), fun l hl => (h'.pos l hl).trans (h.pos l hl)⟩

/-- The containers of the pool `m` agree with the labels `cls`; `cur` is the line under the
write pointer. -/
structure Containers (g : Geometry) (m : LineMode) (cls : Nat → LineClass) (cur : Option Nat)
    (lines : Nat → Line) (lm : LineMgmt) : Prop where
  ttLines : lm.ttLines = g.lines m
  free : ∀ l, l ∈ lm.freeLineList ↔ g.HasLine m l ∧ cls l = .free
  full : ∀ l, l ∈ lm.fullLineList ↔ g.HasLine m l ∧ cls l = .full
  victim : ∀ l, lm.victimLinePq.Mem l ↔ g.HasLine m l ∧ cls l = .victim
  current : ∀ l, cur = some l ↔ g.HasLine m l ∧ cls l = .current
  freeNodup : lm.freeLineList.Nodup
  fullNodup : lm.fullLineList.Nodup
  freeCnt : lm.freeLineCnt = lm.freeLineList.length
  fullCnt : lm.fullLineCnt = lm.fullLineList.length
  victimCnt : lm.victimLineCnt + 1 = lm.victimLinePq.size
  placed : Pqueue.Placed victimLine lm.victimLinePq lines
  pos : ∀ l, g.HasLine m l → cls l ≠ .victim → (lines l).pos = 0

namespace Containers

variable {g : Geometry} {m : LineMode} {cls cls' : Nat → LineClass} {cur : Option Nat}
  {lines lines' : Nat → Line} {lm : LineMgmt} {l : Nat}

/-- Only the labels and positions of the pool matter. -/
theorem congr (h : Containers g m cls cur lines lm)
    (hcls : ∀ l, g.HasLine m l → cls' l = cls l)
    (hpos : ∀ l, g.HasLine m l → (lines' l).pos = (lines l).pos) :
    Containers g m cls' cur lines' lm := by
  have hiff : ∀ (c : LineClass) l, g.HasLine m l ∧ cls' l = c ↔ g.HasLine m l ∧ cls l = c :=
    fun c l => and_congr_right fun hl => by rw [hcls l hl]
  refine ⟨h.ttLines, fun l => (h.free l).trans (hiff _ l).symm,
    fun l => (h.full l).trans (hiff _ l).symm, fun l => (h.victim l).trans (hiff _ l).symm,
    fun l => (h.current l).trans (hiff _ l).symm, h.freeNodup, h.fullNodup, h.freeCnt, h.fullCnt,
    h.victimCnt, ?_, ?_⟩
  · intro i hi hi'
    have hm := ((h.victim _).mp ⟨i, hi, hi', rfl⟩).1
    exact (hpos _ hm).trans (h.placed i hi hi')
  · intro l hl hc
    rw [hpos l hl, h.pos l hl (hcls l hl ▸ hc)]

/-- The queue of a pool holds lines of the pool. -/
theorem not_mem_victim (h : Containers g m cls cur lines lm) (hl : ¬ g.HasLine m l) :
    ¬ lm.victimLinePq.Mem l :=
  fun hmem => hl ((h.victim l).mp hmem).1

/-- A queued line has a nonzero position. -/
theorem pos_ne_zero (h : Containers g m cls cur lines lm) (hl : g.HasLine m l)
    (hc : cls l = .victim) : (lines l).pos ≠ 0 := by
  obtain ⟨hpos, -⟩ := h.placed.pos_of_mem ((h.victim l).mpr ⟨hl, hc⟩)
  exact Nat.ne_of_gt hpos

/-- Relabelling one line keeps the lines of every other label. -/
theorem relabel {P : Nat → Prop} {c c' : LineClass} (hc : ∀ l, P l ↔ g.HasLine m l ∧ cls l = c)
    (hne : c' ≠ c) (hl : cls l ≠ c) :
    ∀ l', P l' ↔ g.HasLine m l' ∧ Function.update cls l c' l' = c := by
  intro l'
  rw [hc l']
  by_cases he : l' = l
  · subst he
    simp [hl, hne]
  · rw [Function.update_of_ne he]

/-- Relabelling a line to `c` adds it to the lines of label `c`. -/
theorem relabel_add {P P' : Nat → Prop} {c : LineClass}
    (hc : ∀ l, P l ↔ g.HasLine m l ∧ cls l = c) (hl : g.HasLine m l)
    (hP : ∀ l', P' l' ↔ l' = l ∨ P l') :
    ∀ l', P' l' ↔ g.HasLine m l' ∧ Function.update cls l c l' = c := by
  intro l'
  rw [hP l', hc l']
  by_cases he : l' = l
  · subst he
    simp [hl]
  · simp [he]

/-- Relabelling a line away from `c` removes it from the lines of label `c`. -/
theorem relabel_remove {P P' : Nat → Prop} {c c' : LineClass}
    (hc : ∀ l, P l ↔ g.HasLine m l ∧ cls l = c) (hne : c' ≠ c)
    (hP : ∀ l', P' l' ↔ P l' ∧ l' ≠ l) :
    ∀ l', P' l' ↔ g.HasLine m l' ∧ Function.update cls l c' l' = c := by
  intro l'
  rw [hP l', hc l']
  by_cases he : l' = l
  · subst he
    simp [hne]
  · simp [he]

/-- Positions of the lines outside the queue after a line got another label. -/
theorem pos_relabel (h : Containers g m cls cur lines lm) {c : LineClass}
    (hl : c ≠ .victim → (lines' l).pos = 0)
    (ho : ∀ l', l' ≠ l → ¬ lm.victimLinePq.Mem l' → (lines' l').pos = (lines l').pos) :
    ∀ l', g.HasLine m l' → Function.update cls l c l' ≠ .victim → (lines' l').pos = 0 := by
  intro l' hl' hc'
  by_cases he : l' = l
  · subst he
    rw [Function.update_self] at hc'
    exact hl hc'
  · rw [Function.update_of_ne he] at hc'
    rw [ho l' he (mt (fun hm => ((h.victim l').mp hm).2) hc'), h.pos l' hl' hc']

/-! ## Moves between containers -/

/-- `get_next_free_line` and making the line current. -/
theorem takeFree (h : Containers g m cls none lines lm) {rest : List Nat}
    (hf : lm.freeLineList = l :: rest) :
    g.HasLine m l ∧ cls l = .free ∧
      Containers g m (Function.update cls l .current) (some l) lines
        { lm with freeLineList := rest, freeLineCnt := lm.freeLineCnt - 1 } := by
  have hmem := (h.free l).mp (hf ▸ List.mem_cons_self ..)
  have hnd := h.freeNodup
  rw [hf, List.nodup_cons] at hnd
  refine ⟨hmem.1, hmem.2, ?_⟩
  have hne : ∀ c, c ≠ .free → cls l ≠ c := fun c hc => hmem.2 ▸ hc.symm
  constructor
  · exact h.ttLines
  · apply relabel_remove h.free (by simp)
    intro l'
    rw [hf, List.mem_cons]
    constructor
    · exact fun hr => ⟨Or.inr hr, fun he => hnd.1 (he ▸ hr)⟩
    · rintro ⟨rfl | hr, hn⟩
      · exact absurd rfl hn
      · exact hr
  · exact relabel h.full (by simp) (hne _ (by simp))
  · exact relabel h.victim (by simp) (hne _ (by simp))
  · apply relabel_add h.current hmem.1
    intro l'
    simp [eq_comm]
  · exact hnd.2
  · exact h.fullNodup
  · show lm.freeLineCnt - 1 = rest.length
    rw [h.freeCnt, hf, List.length_cons, Nat.add_sub_cancel]
  · exact h.fullCnt
  · exact h.victimCnt
  · exact h.placed
  · exact h.pos_relabel (fun _ => h.pos l hmem.1 (hne _ (by simp))) fun _ _ _ => rfl

/-- The current line moves to the full list. -/
theorem closeFull (h : Containers g m cls (some l) lines lm) :
    Containers g m (Function.update cls l .full) none lines
      { lm with fullLineList := lm.fullLineList ++ [l], fullLineCnt := lm.fullLineCnt + 1 } := by
  obtain ⟨hm, hc⟩ := (h.current l).mp rfl
  have hne : ∀ c, c ≠ .current → cls l ≠ c := fun c h' => hc ▸ h'.symm
  have hnot : l ∉ lm.fullLineList := fun hmem => by
    have := ((h.full l).mp hmem).2
    rw [hc] at this
    cases this
  constructor
  · exact h.ttLines
  · exact relabel h.free (by simp) (hne _ (by simp))
  · apply relabel_add h.full hm
    intro l'
    rw [List.mem_append, List.mem_singleton, or_comm]
  · exact relabel h.victim (by simp) (hne _ (by simp))
  · apply relabel_remove h.current (by simp)
    intro l'
    simp [eq_comm]
  · exact h.freeNodup
  · exact List.nodup_append.mpr ⟨h.fullNodup, List.nodup_singleton l, by
      rintro a ha b hb rfl
      exact hnot (List.mem_singleton.mp hb ▸ ha)⟩
  · exact h.freeCnt
  · show lm.fullLineCnt + 1 = _
    rw [h.fullCnt, List.length_append, List.length_singleton]
  · exact h.victimCnt
  · exact h.placed
  · exact h.pos_relabel (fun _ => h.pos l hm (hne _ (by simp))) fun _ _ _ => rfl

/-- The current line moves to the victim queue. -/
theorem closeVictim (h : Containers g m cls (some l) lines lm) :
    Containers g m (Function.update cls l .victim) none
      (lm.victimLinePq.insert victimLine lines l).2
      { lm with
        victimLinePq := (lm.victimLinePq.insert victimLine lines l).1
        victimLineCnt := lm.victimLineCnt + 1 } ∧
      Repositioned g m lines (lm.victimLinePq.insert victimLine lines l).2 := by
  obtain ⟨hm, hc⟩ := (h.current l).mp rfl
  have hne : ∀ c, c ≠ .current → cls l ≠ c := fun c h' => hc ▸ h'.symm
  have hnot : ¬ lm.victimLinePq.Mem l := fun hmem => by
    have := ((h.victim l).mp hmem).2
    rw [hc] at this
    cases this
  have hvc := h.victimCnt
  obtain ⟨hplaced, hsize, hmem, hout, hframe⟩ :=
    Pqueue.insert_spec victimLine_lawful h.placed hnot (by omega)
  refine ⟨?_, repositioned_of_frame hframe fun l' hl' =>
    hout l' (fun he => hl' (he ▸ hm)) (h.not_mem_victim hl')⟩
  constructor
  · exact h.ttLines
  · exact relabel h.free (by simp) (hne _ (by simp))
  · exact relabel h.full (by simp) (hne _ (by simp))
  · exact relabel_add h.victim hm hmem
  · apply relabel_remove h.current (by simp)
    intro l'
    simp [eq_comm]
  · exact h.freeNodup
  · exact h.fullNodup
  · exact h.freeCnt
  · exact h.fullCnt
  · show lm.victimLineCnt + 1 + 1 = _
    rw [hsize, hvc]
  · exact hplaced
  · exact h.pos_relabel (fun hn => absurd rfl hn) hout

/-- A full line with an invalid page moves to the victim queue. -/
theorem fullToVictim (h : Containers g m cls cur lines lm) (hm : g.HasLine m l)
    (hc : cls l = .full) :
    Containers g m (Function.update cls l .victim) cur
      (lm.victimLinePq.insert victimLine lines l).2
      { lm with
        freeLineList := lm.freeLineList.erase l
        fullLineList := lm.fullLineList.erase l
        fullLineCnt := lm.fullLineCnt - 1
        victimLinePq := (lm.victimLinePq.insert victimLine lines l).1
        victimLineCnt := lm.victimLineCnt + 1 } ∧
      Repositioned g m lines (lm.victimLinePq.insert victimLine lines l).2 := by
  have hne : ∀ c, c ≠ .full → cls l ≠ c := fun c h' => hc ▸ h'.symm
  have hin : l ∈ lm.fullLineList := (h.full l).mpr ⟨hm, hc⟩
  have hfree : lm.freeLineList.erase l = lm.freeLineList :=
    List.erase_of_not_mem fun hmem => hne _ (by simp) ((h.free l).mp hmem).2
  have hnot : ¬ lm.victimLinePq.Mem l := fun hmem =>
    hne _ (by simp) ((h.victim l).mp hmem).2
  have hvc := h.victimCnt
  obtain ⟨hplaced, hsize, hmem, hout, hframe⟩ :=
    Pqueue.insert_spec victimLine_lawful h.placed hnot (by omega)
  refine ⟨?_, repositioned_of_frame hframe fun l' hl' =>
    hout l' (fun he => hl' (he ▸ hm)) (h.not_mem_victim hl')⟩
  rw [hfree]
  constructor
  · exact h.ttLines
  · exact relabel h.free (by simp) (hne _ (by simp))
  · apply relabel_remove h.full (by simp)
    intro l'
    rw [h.fullNodup.mem_erase_iff, and_comm]
  · exact relabel_add h.victim hm hmem
  · exact relabel h.current (by simp) (hne _ (by simp))
  · exact h.freeNodup
  · exact h.fullNodup.erase l
  · exact h.freeCnt
  · show lm.fullLineCnt - 1 = _
    rw [h.fullCnt, List.length_erase_of_mem hin]
  · show lm.victimLineCnt + 1 + 1 = _
    rw [hsize, hvc]
  · exact hplaced
  · exact h.pos_relabel (fun hn => absurd rfl hn) hout

/-- A victim changes its priority. -/
theorem changePriority (h : Containers g m cls cur lines lm) (hm : g.HasLine m l)
    (hc : cls l = .victim) (pri : Nat) :
    Containers g m cls cur (lm.victimLinePq.changePriority victimLine lines pri l).2
      { lm with victimLinePq := (lm.victimLinePq.changePriority victimLine lines pri l).1 } ∧
      Repositioned g m (victimLine.setpri lines l pri)
        (lm.victimLinePq.changePriority victimLine lines pri l).2 := by
  obtain ⟨hplaced, hsize, hmem, hout, hframe⟩ :=
    Pqueue.changePriority_spec victimLine_lawful pri h.placed ((h.victim l).mpr ⟨hm, hc⟩)
  refine ⟨?_, repositioned_of_frame hframe fun l' hl' => ?_⟩
  swap
  · rw [show (victimLine.setpri lines l pri l').pos = (lines l').pos from
      victimLine_lawful.getpos_setpri lines l pri l']
    exact hout l' (h.not_mem_victim hl')
  refine ⟨h.ttLines, h.free, h.full, fun l' => (hmem l').trans (h.victim l'), h.current,
    h.freeNodup, h.fullNodup, h.freeCnt, h.fullCnt, h.victimCnt.trans hsize.symm, hplaced, ?_⟩
  intro l' hl' hc'
  rw [← h.pos l' hl' hc']
  exact hout l' fun hq => hc' ((h.victim l').mp hq).2

/-- A victim is taken out of its queue for collection. -/
theorem takeVictim (h : Containers g m cls cur lines lm) {q : Pqueue Nat}
    (hc : lm.victimLinePq.Mem l)
    (hr : Pqueue.Removed victimLine l lm.victimLinePq lines q lines') :
    Containers g m (Function.update cls l .collecting) cur
      (Function.update lines' l { lines' l with pos := 0 })
      { lm with victimLinePq := q, victimLineCnt := lm.victimLineCnt - 1 } ∧
      Repositioned g m lines (Function.update lines' l { lines' l with pos := 0 }) := by
  obtain ⟨hm, hc⟩ := (h.victim l).mp hc
  have hne : ∀ c, c ≠ .victim → cls l ≠ c := fun c h' => hc ▸ h'.symm
  have hother : ∀ l', l' ≠ l →
      Function.update lines' l { lines' l with pos := 0 } l' = lines' l' :=
    fun l' he => Function.update_of_ne he ..
  have hsame : Repositioned g m lines lines' :=
    repositioned_of_frame hr.frame fun l' hl' => hr.outside l' (h.not_mem_victim hl')
  have hsize := hr.size
  have hvc := h.victimCnt
  obtain ⟨hpos1, hpos2, -⟩ := h.placed.pos_of_mem ((h.victim l).mpr ⟨hm, hc⟩)
  refine ⟨?_, ?_⟩
  · constructor
    · exact h.ttLines
    · exact relabel h.free (by simp) (hne _ (by simp))
    · exact relabel h.full (by simp) (hne _ (by simp))
    · exact relabel_remove h.victim (by simp) hr.mem
    · exact relabel h.current (by simp) (hne _ (by simp))
    · exact h.freeNodup
    · exact h.fullNodup
    · exact h.freeCnt
    · exact h.fullCnt
    · show lm.victimLineCnt - 1 + 1 = q.size
      omega
    · intro i hi hi'
      have hnl : q.d i ≠ l := ((hr.mem _).mp ⟨i, hi, hi', rfl⟩).2
      show (Function.update lines' l { lines' l with pos := 0 } (q.d i)).pos = i
      rw [hother _ hnl]
      exact hr.placed i hi hi'
    · refine h.pos_relabel (fun _ => by rw [Function.update_self]) fun l' he hq => ?_
      rw [hother l' he]
      exact hr.outside l' hq
  · have hself : ∀ l', Function.update lines' l { lines' l with pos := 0 } l' =
        { lines' l' with pos := (Function.update lines' l { lines' l with pos := 0 } l').pos } := by
      intro l'
      by_cases he : l' = l
      · subst he
        simp
      · rw [hother l' he]
    refine ⟨fun l' => ?_, fun l' => ?_, fun l' => ?_, fun l' hl' => ?_⟩
    · rw [hself l']
      exact hsame.id l'
    · rw [hself l']
      exact hsame.vpc l'
    · rw [hself l']
      exact hsame.ipc l'
    · rw [hother l' fun he => hl' (he ▸ hm)]
      exact hsame.pos l' hl'

/-- The first full line is taken out for collection. -/
theorem takeFull (h : Containers g m cls cur lines lm) {rest : List Nat}
    (hf : lm.fullLineList = l :: rest) :
    g.HasLine m l ∧ cls l = .full ∧ Containers g m (Function.update cls l .collecting) cur lines
      { lm with fullLineList := rest, fullLineCnt := lm.fullLineCnt - 1 } := by
  have hmem := (h.full l).mp (hf ▸ List.mem_cons_self ..)
  have hnd := h.fullNodup
  rw [hf, List.nodup_cons] at hnd
  refine ⟨hmem.1, hmem.2, ?_⟩
  have hne : ∀ c, c ≠ .full → cls l ≠ c := fun c hc => hmem.2 ▸ hc.symm
  constructor
  · exact h.ttLines
  · exact relabel h.free (by simp) (hne _ (by simp))
  · apply relabel_remove h.full (by simp)
    intro l'
    rw [hf, List.mem_cons]
    constructor
    · exact fun hr => ⟨Or.inr hr, fun he => hnd.1 (he ▸ hr)⟩
    · rintro ⟨rfl | hr, hn⟩
      · exact absurd rfl hn
      · exact hr
  · exact relabel h.victim (by simp) (hne _ (by simp))
  · exact relabel h.current (by simp) (hne _ (by simp))
  · exact h.freeNodup
  · exact hnd.2
  · exact h.freeCnt
  · show lm.fullLineCnt - 1 = rest.length
    rw [h.fullCnt, hf, List.length_cons, Nat.add_sub_cancel]
  · exact h.victimCnt
  · exact h.placed
  · exact h.pos_relabel (fun _ => h.pos l hmem.1 (hne _ (by simp))) fun _ _ _ => rfl

/-- `mark_line_free`: a collected line returns to the free list. -/
theorem putFree (h : Containers g m cls cur lines lm) (hm : g.HasLine m l)
    (hc : cls l = .collecting) :
    Containers g m (Function.update cls l .free) cur lines
      { lm with
        freeLineList := lm.freeLineList ++ [l]
        freeLineCnt := lm.freeLineCnt + 1 } := by
  have hne : ∀ c, c ≠ .collecting → cls l ≠ c := fun c h' => hc ▸ h'.symm
  have hnot : l ∉ lm.freeLineList := fun hmem => hne _ (by simp) ((h.free l).mp hmem).2
  constructor
  · exact h.ttLines
  · apply relabel_add h.free hm
    intro l'
    rw [List.mem_append, List.mem_singleton, or_comm]
  · exact relabel h.full (by simp) (hne _ (by simp))
  · exact relabel h.victim (by simp) (hne _ (by simp))
  · exact relabel h.current (by simp) (hne _ (by simp))
  · exact List.nodup_append.mpr ⟨h.freeNodup, List.nodup_singleton l, by
      rintro a ha b hb rfl
      exact hnot (List.mem_singleton.mp hb ▸ ha)⟩
  · exact h.fullNodup
  · show lm.freeLineCnt + 1 = _
    rw [h.freeCnt, List.length_append, List.length_singleton]
  · exact h.fullCnt
  · exact h.victimCnt
  · exact h.placed
  · exact h.pos_relabel (fun _ => h.pos l hm (hne _ (by simp))) fun _ _ _ => rfl

end Containers

/-- A fresh pool has all of its lines in the free list. -/
theorem containers_fresh (g : Geometry) (m : LineMode) (mem : LineMgmt) {lines : Nat → Line}
    (hpos : ∀ l, (lines l).pos = 0) :
    Containers g m (fun _ => .free) none lines (mem.fresh (g.base m) (g.lines m)) := by
  have hempty : ∀ l, ¬ (mem.fresh (g.base m) (g.lines m)).victimLinePq.Mem l := by
    rintro l ⟨i, h1, h2, -⟩
    exact absurd h2 (Nat.not_lt.mpr h1)
  refine ⟨rfl, fun l => ?_, fun l => ?_, fun l => ?_, fun l => ?_, List.nodup_range', List.nodup_nil,
    List.length_range'.symm, rfl, rfl, ?_, fun l _ _ => hpos l⟩
  · simp [LineMgmt.fresh, List.mem_range'_1, Geometry.HasLine]
  · simp [LineMgmt.fresh]
  · simp [hempty]
  · simp
  · intro i h1 h2
    exact absurd h2 (Nat.not_lt.mpr h1)

end NvmeVirt
